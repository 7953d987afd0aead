import Mathlib.Data.List.Basic

/-!
# Words that can be told apart as they are read

Where words follow each other without anything between them, and none of those allowed is the beginning of another one,
a beginning of the text can be read in one way only: the words that it is made of are the first ones
(`PrefixCode.split`).
-/

namespace Lib

variable {α β γ : Type*} {word : α → List β} {key : α → γ} {Allowed : α → Prop}

/-- Of the allowed words none is empty, and what two texts begin with tells their first words apart, as far as `key`
does. -/
structure PrefixCode (word : α → List β) (key : α → γ) (Allowed : α → Prop) : Prop where
  ne_nil : ∀ a, Allowed a → word a ≠ []
  cancel : ∀ a b u v, Allowed a → Allowed b → word a ++ u = word b ++ v → key a = key b ∧ u = v

/-- **A text is read in one way only.** -/
theorem PrefixCode.split (hc : PrefixCode word key Allowed) : ∀ {xs ys : List α} {rest : List β},
    (∀ a ∈ xs, Allowed a) → (∀ b ∈ ys, Allowed b) → xs.flatMap word ++ rest = ys.flatMap word →
      ∃ ys₁ ys₂, ys = ys₁ ++ ys₂ ∧ xs.map key = ys₁.map key ∧ rest = ys₂.flatMap word
  | [], ys, rest, _, _, h => ⟨[], ys, rfl, rfl, h⟩
  | a :: xs, [], rest, hxs, _, h => by
    have hnil := (List.append_eq_nil_iff.1 h).1
    exact absurd (List.append_eq_nil_iff.1 hnil).1 (hc.ne_nil a (hxs a (by simp)))
  | a :: xs, b :: ys, rest, hxs, hys, h => by
    rw [List.flatMap_cons, List.flatMap_cons, List.append_assoc] at h
    obtain ⟨hkey, htail⟩ := hc.cancel a b _ _ (hxs a (by simp)) (hys b (by simp)) h
    obtain ⟨ys₁, ys₂, rfl, hmap, hrest⟩ := hc.split (fun a' ha' => hxs a' (List.mem_cons_of_mem _ ha'))
      (fun b' hb' => hys b' (List.mem_cons_of_mem _ hb')) htail
    exact ⟨b :: ys₁, ys₂, rfl, by rw [List.map_cons, List.map_cons, hkey, hmap], hrest⟩

theorem PrefixCode.prefix_map (hc : PrefixCode word key Allowed) {xs ys : List α} {rest : List β}
    (hxs : ∀ a ∈ xs, Allowed a) (hys : ∀ b ∈ ys, Allowed b) (h : xs.flatMap word ++ rest <+: ys.flatMap word) :
    xs.map key <+: ys.map key := by
  obtain ⟨u, hu⟩ := h
  obtain ⟨ys₁, ys₂, rfl, hmap, -⟩ := hc.split hxs hys ((List.append_assoc _ _ _).symm.trans hu)
  rw [hmap, List.map_append]
  exact List.prefix_append _ _

end Lib
