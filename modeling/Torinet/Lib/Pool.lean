import Mathlib.Data.Finset.Card
import Mathlib.Logic.Function.Basic

/-!
# Pools of ids

Ids are handed out from the front of a free list and registered with a value; giving one back removes the registration
and appends the id to the list. Nothing stops a caller from giving back an id twice, or one it does not hold.

* `Covers U`: no id of `U` is lost. Taking and giving back keep it, whoever calls (`Covers.acquire`, `Covers.release`);
  so while fewer ids are registered than `U` has, one is free (`Covers.free_ne_nil`).
* `Within U`: only ids of `U` are in the pool, so no more are registered than `U` has (`Within.length_le`).
* `Exact`: no id is free twice, or free and registered. Taking keeps it (`Exact.acquire`), giving back keeps it exactly
  when the id is registered (`Exact.release`, `not_nodup_release`).
-/

namespace Lib

structure Pool (ι ν : Type*) where
  free : List ι
  used : ι → Option ν

namespace Pool

variable {ι ν : Type*} [DecidableEq ι] {p : Pool ι ν} {i : ι} {v : ν} {U : Set ι}

/-- Take the first free id and register a value under it, unless it is registered already. -/
def acquire (p : Pool ι ν) (v : ν) : Pool ι ν :=
  match p.free with
  | [] => p
  | i :: free => ⟨free, if p.used i = none then Function.update p.used i (some v) else p.used⟩

/-- Give an id back. -/
def release (p : Pool ι ν) (i : ι) : Pool ι ν := ⟨p.free ++ [i], Function.update p.used i none⟩

/-- Every id of `U` is free or registered. -/
def Covers (U : Set ι) (p : Pool ι ν) : Prop := ∀ i ∈ U, i ∈ p.free ∨ p.used i ≠ none

/-- Every id that is free or registered is one of `U`. -/
def Within (U : Set ι) (p : Pool ι ν) : Prop := (∀ i ∈ p.free, i ∈ U) ∧ ∀ i, p.used i ≠ none → i ∈ U

/-- No id is free twice, or free and registered. -/
structure Exact (p : Pool ι ν) : Prop where
  nodup : p.free.Nodup
  disjoint : ∀ i ∈ p.free, p.used i = none

theorem Covers.acquire (h : p.Covers U) (v : ν) : (p.acquire v).Covers U := by
  intro j hj
  unfold Pool.acquire
  cases hf : p.free with
  | nil => simpa [hf] using h j hj
  | cons i free =>
    have hj := h j hj
    rw [hf, List.mem_cons] at hj
    by_cases hji : j = i
    · subst hji
      right
      by_cases hu : p.used j = none <;> simp [hu]
    · rcases hj with (hj | hj) | hj
      · exact absurd hj hji
      · exact Or.inl hj
      · right
        by_cases hu : p.used i = none <;> simp [hu, Function.update_of_ne hji, hj]

theorem Covers.release (h : p.Covers U) (i : ι) : (p.release i).Covers U := by
  intro j hj
  by_cases hji : j = i
  · exact Or.inl (by simp [Pool.release, hji])
  · rcases h j hj with hj | hj
    · exact Or.inl (List.mem_append_left _ hj)
    · exact Or.inr (by simpa [Pool.release, Function.update_of_ne hji] using hj)

theorem Within.acquire (h : p.Within U) (v : ν) : (p.acquire v).Within U := by
  unfold Pool.acquire
  cases hf : p.free with
  | nil => simpa [hf] using h
  | cons i free =>
    have hi : i ∈ U := h.1 i (by simp [hf])
    refine ⟨fun j hj => h.1 j (by simp [hf, hj]), fun j hj => ?_⟩
    by_cases hji : j = i
    · exact hji ▸ hi
    · by_cases hu : p.used i = none
      · exact h.2 j (by simpa [hu, Function.update_of_ne hji] using hj)
      · exact h.2 j (by simpa [hu] using hj)

theorem Within.release (h : p.Within U) (hi : i ∈ U) : (p.release i).Within U := by
  refine ⟨fun j hj => ?_, fun j hj => ?_⟩
  · rcases List.mem_append.1 hj with hj | hj
    · exact h.1 j hj
    · rw [List.mem_singleton] at hj
      exact hj ▸ hi
  · by_cases hji : j = i
    · exact hji ▸ hi
    · exact h.2 j (by simpa [Pool.release, Function.update_of_ne hji] using hj)

/-- While fewer ids are registered than there are, one is free. -/
theorem Covers.free_ne_nil {U : Finset ι} (h : p.Covers U) (keys : List ι) (hkeys : ∀ i, p.used i ≠ none → i ∈ keys)
    (hlt : keys.length < U.card) : p.free ≠ [] := by
  intro hf
  have hsub : U ⊆ keys.toFinset := by
    intro i hi
    rcases h i hi with hi | hi
    · rw [hf] at hi
      cases hi
    · exact List.mem_toFinset.2 (hkeys i hi)
  have hcard := (Finset.card_le_card hsub).trans (List.toFinset_card_le keys)
  omega

/-- No more ids are registered than there are. -/
theorem Within.length_le {U : Finset ι} (h : p.Within U) {keys : List ι} (hnd : keys.Nodup)
    (hkeys : ∀ i ∈ keys, p.used i ≠ none) : keys.length ≤ U.card := by
  rw [← List.toFinset_card_of_nodup hnd]
  exact Finset.card_le_card fun i hi => h.2 i (hkeys i (List.mem_toFinset.1 hi))

/-- In an exact pool, a free id is not registered, so taking it registers the value. -/
theorem Exact.used_acquire (h : p.Exact) {free : List ι} (hf : p.free = i :: free) (v : ν) :
    (p.acquire v).used = Function.update p.used i (some v) := by
  have hu := h.disjoint i (by simp [hf])
  simp [Pool.acquire, hf, hu]

theorem Exact.acquire (h : p.Exact) (v : ν) : (p.acquire v).Exact := by
  cases hf : p.free with
  | nil => simpa [Pool.acquire, hf] using h
  | cons i free =>
    have hnd := h.nodup
    rw [hf, List.nodup_cons] at hnd
    refine ⟨by simpa [Pool.acquire, hf] using hnd.2, fun j hj => ?_⟩
    have hj : j ∈ free := by simpa [Pool.acquire, hf] using hj
    have hji : j ≠ i := fun he => hnd.1 (he ▸ hj)
    rw [h.used_acquire hf, Function.update_of_ne hji]
    exact h.disjoint j (by simp [hf, hj])

/-- Giving back a registered id keeps the pool exact. -/
theorem Exact.release (h : p.Exact) (hi : p.used i ≠ none) : (p.release i).Exact := by
  have hni : i ∉ p.free := fun hm => hi (h.disjoint i hm)
  refine ⟨?_, fun j hj => ?_⟩
  · simp only [Pool.release, List.nodup_append, List.nodup_singleton, List.mem_singleton, forall_eq, true_and]
    exact ⟨h.nodup, fun a ha hai => hni (hai ▸ ha)⟩
  · by_cases hji : j = i
    · simp [Pool.release, hji]
    · have hj : j ∈ p.free := by simpa [Pool.release, hji] using hj
      simpa [Pool.release, Function.update_of_ne hji] using h.disjoint j hj

/-- Giving back a free id puts it into the list twice. -/
theorem not_nodup_release (hi : i ∈ p.free) : ¬ (p.release i).free.Nodup := by
  simp only [Pool.release, List.nodup_append, List.mem_singleton, forall_eq]
  exact fun h => h.2.2 i hi rfl

end Pool

end Lib
