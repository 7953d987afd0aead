import Mathlib.Data.List.Basic

/-!
# Tokens

`Tokens sep l ts`: at its separators the list `l` falls into the tokens `ts`. Adjacent separators count as one; one at
the start or the end of the list has an empty token on its outer side, so there is always a token.

* `Tokens.head`, `Tokens.second`: the first two tokens of a list.
* `Tokens.eq_single`, `Tokens.eq_cons`: all tokens of words with single separators between them.
* `split`, `tokens_split`: the tokens computed.
-/

namespace Lib

variable {α : Type*} {sep : α → Bool} {l : List α} {ts : List (List α)}

/-- **A list and its tokens**: a word without separators, at least one separator, and what comes after the last one. -/
inductive Tokens (sep : α → Bool) : List α → List (List α) → Prop
  | last {w : List α} (hw : ∀ c ∈ w, sep c = false) : Tokens sep w [w]
  | cons {w gap rest : List α} {ts : List (List α)} (hw : ∀ c ∈ w, sep c = false) (hne : gap ≠ [])
      (hgap : ∀ c ∈ gap, sep c = true) (hrest : ∀ c ∈ rest.head?, sep c = false) (h : Tokens sep rest ts) :
      Tokens sep (w ++ (gap ++ rest)) (w :: ts)

/-! ## The first two tokens -/

theorem takeWhile_word {w r : List α} (hw : ∀ c ∈ w, sep c = false) (hr : ∀ c ∈ r.head?, sep c = true) :
    (w ++ r).takeWhile (fun c => !sep c) = w ∧ (w ++ r).dropWhile (fun c => !sep c) = r := by
  have hstop : r.takeWhile (fun c => !sep c) = [] ∧ r.dropWhile (fun c => !sep c) = r := by
    cases r with
    | nil => exact ⟨rfl, rfl⟩
    | cons c r => simp [hr c rfl]
  have hw : ∀ c ∈ w, (!sep c) = true := fun c hc => by rw [hw c hc]; rfl
  rw [List.takeWhile_append_of_pos hw, List.dropWhile_append_of_pos hw, hstop.1, hstop.2, List.append_nil]
  exact ⟨rfl, rfl⟩

theorem head_gap {gap rest : List α} (hne : gap ≠ []) (hgap : ∀ c ∈ gap, sep c = true) :
    ∀ c ∈ (gap ++ rest).head?, sep c = true := by
  obtain ⟨g, gap, rfl⟩ := List.exists_cons_of_ne_nil hne
  rintro c ⟨⟩
  exact hgap _ (by simp)

theorem dropWhile_gap {gap rest : List α} (hgap : ∀ c ∈ gap, sep c = true) (hrest : ∀ c ∈ rest.head?, sep c = false) :
    (gap ++ rest).dropWhile sep = rest := by
  rw [List.dropWhile_append_of_pos hgap]
  cases rest with
  | nil => rfl
  | cons c rest => simp [hrest c rfl]

theorem Tokens.head (h : Tokens sep l ts) : ts.head? = some (l.takeWhile fun c => !sep c) := by
  cases h with
  | last hw =>
    have hword := takeWhile_word (r := []) hw (by simp)
    rw [List.append_nil] at hword
    rw [hword.1, List.head?_cons]
  | cons hw hne hgap hrest h => rw [(takeWhile_word hw (head_gap hne hgap)).1, List.head?_cons]

/-- There is a second token iff there is a separator. -/
theorem Tokens.second (h : Tokens sep l ts) : ts[1]? =
    if l.dropWhile (fun c => !sep c) = [] then none
    else some (((l.dropWhile fun c => !sep c).dropWhile sep).takeWhile fun c => !sep c) := by
  cases h with
  | last hw =>
    have hword := takeWhile_word (r := []) hw (by simp)
    rw [List.append_nil] at hword
    rw [hword.2, if_pos rfl]
    rfl
  | @cons w gap rest ts hw hne hgap hrest h =>
    rw [(takeWhile_word hw (head_gap hne hgap)).2, if_neg (by simp [hne]), dropWhile_gap hgap hrest, ← h.head,
      List.getElem?_cons_succ, List.head?_eq_getElem?]

/-! ## All tokens -/

/-- A word is its only token. -/
theorem Tokens.eq_single {w : List α} (h : Tokens sep w ts) (hw : ∀ c ∈ w, sep c = false) : ts = [w] := by
  cases h with
  | last => rfl
  | @cons v gap rest ts hv hne hgap hrest h =>
    obtain ⟨g, gap, rfl⟩ := List.exists_cons_of_ne_nil hne
    have hsep := hgap g (by simp)
    rw [hw g (by simp)] at hsep
    cases hsep

/-- A word before a single separator is the first token, and the others are those of the rest. -/
theorem Tokens.eq_cons {w rest : List α} {c : α} (h : Tokens sep (w ++ c :: rest) ts) (hw : ∀ b ∈ w, sep b = false)
    (hc : sep c = true) (hrest : ∀ b ∈ rest.head?, sep b = false) : ∃ ts', ts = w :: ts' ∧ Tokens sep rest ts' := by
  have hword := takeWhile_word hw (show ∀ b ∈ (c :: rest).head?, sep b = true by simpa using hc)
  generalize hl : w ++ c :: rest = l at h hword
  cases h with
  | last hw' =>
    have hfalse := hw' c (by simp [← hl])
    rw [hc] at hfalse
    cases hfalse
  | @cons v gap rest' ts hv hne hgap hrest' h =>
    have hhead : ∀ b ∈ (gap ++ rest').head?, sep b = true := head_gap hne hgap
    have hword' := takeWhile_word hv hhead
    obtain rfl : w = v := hword.1.symm.trans hword'.1
    obtain ⟨g, gap, rfl⟩ := List.exists_cons_of_ne_nil hne
    obtain ⟨rfl, htail⟩ := List.cons.inj (List.append_cancel_left hl)
    -- another separator would be the first letter of the rest
    obtain rfl : gap = [] := by
      by_contra hgap'
      have hsep : ∀ b ∈ (gap ++ rest').head?, sep b = true :=
        head_gap hgap' fun b hb => hgap b (List.mem_cons_of_mem _ hb)
      obtain ⟨g, gap, rfl⟩ := List.exists_cons_of_ne_nil hgap'
      have htrue := hsep g rfl
      rw [hrest g (by simp [htail])] at htrue
      cases htrue
    obtain rfl : rest = rest' := htail
    exact ⟨ts, rfl, h⟩

/-! ## Computing the tokens -/

/-- The tokens of a list. -/
def split (sep : α → Bool) : List α → List (List α)
  | [] => [[]]
  | c :: cs =>
    if sep c then if cs.head?.any sep then split sep cs else [] :: split sep cs
    else (split sep cs).modifyHead (c :: ·)

/-- A further separator in front makes no difference. -/
theorem Tokens.cons_sep {c : α} (hc : sep c = true) (hl : l.head?.any sep = true) (h : Tokens sep l ts) :
    Tokens sep (c :: l) ts := by
  obtain ⟨d, hd, hsep⟩ := (Option.any_eq_true sep l.head?).1 hl
  cases h with
  | last hw =>
    have := hw d (List.mem_of_mem_head? hd)
    simp [hsep] at this
  | @cons w gap rest ts hw hne hgap hrest h =>
    -- the word in front of the separator is empty
    obtain rfl : w = [] := by
      cases w with
      | nil => rfl
      | cons b w =>
        obtain rfl : b = d := by simpa using hd
        have := hw b (by simp)
        simp [hsep] at this
    refine @Tokens.cons _ _ [] (c :: gap) _ _ (by simp) (by simp) (fun b hb => ?_) hrest h
    rcases List.mem_cons.1 hb with rfl | hb
    · exact hc
    · exact hgap b hb

/-- Another letter in front belongs to the first token. -/
theorem Tokens.cons_letter {c : α} (hc : sep c = false) (h : Tokens sep l ts) :
    Tokens sep (c :: l) (ts.modifyHead (c :: ·)) := by
  have hword : ∀ {w : List α}, (∀ b ∈ w, sep b = false) → ∀ b ∈ c :: w, sep b = false := by
    intro w hw b hb
    rcases List.mem_cons.1 hb with rfl | hb
    · exact hc
    · exact hw b hb
  cases h with
  | last hw => exact Tokens.last (hword hw)
  | cons hw hne hgap hrest h => exact Tokens.cons (hword hw) hne hgap hrest h

/-- **The tokens computed.** -/
theorem tokens_split (sep : α → Bool) : ∀ l : List α, Tokens sep l (split sep l)
  | [] => Tokens.last (by simp)
  | c :: cs => by
    have ih := tokens_split sep cs
    unfold split
    split_ifs with hc hcs
    · exact ih.cons_sep hc hcs
    · refine @Tokens.cons _ _ [] [c] _ _ (by simp) (by simp) (by simpa using hc) (fun d hd => ?_) ih
      rw [Option.mem_def] at hd
      simpa [hd] using hcs
    · exact ih.cons_letter (by simpa using hc)

example : split (fun c => c = ' ') [' ', 'a', ' ', ' ', 'b', ' '] = [[], ['a'], ['b'], []] := by decide

end Lib
