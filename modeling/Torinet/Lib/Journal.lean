import Torinet.Lib.Hub

/-!
# The order in which a hub passes things on

A hub takes what its parties say one thing after the other; all that it has taken, in this order, is its journal. What a
party has said is what the journal has of it, and then what waits to be taken; what the journal has of the others since
a party has joined, as far as it is passed on, is what the party has heard, and then what it is still to hear
(`Journal`). So all parties hear things in one order, and each misses nothing in between. Every operation of the hub
keeps it (`Journal.join`, `Journal.say`, `Journal.pass`, `Journal.hear`).
-/

namespace Lib

namespace Hub

variable {ι α : Type*} [DecidableEq ι]

/-- What is said, and who says it. -/
def sayings (ops : List (Op ι α)) : List (ι × α) := ops.filterMap fun
  | .say i x => some (i, x)
  | _ => none

/-- What a list of things said has of `i`. -/
def ofOne (i : ι) (log : List (ι × α)) : List α := (log.filter fun e => e.1 = i).map Prod.snd

/-- What it has of others than `r` that is passed on. -/
def ofOthers (passes : α → Bool) (r : ι) (log : List (ι × α)) : List α :=
  (log.filter fun e => e.1 ≠ r ∧ passes e.2).map Prod.snd

/-- The journal of a history: `log`, which a party `r` hears from the place `since r` on. -/
structure Journal (passes : α → Bool) (ops : List (Op ι α)) (h : Hub ι α) (out : List (ι × α)) (log : List (ι × α))
    (since : ι → Nat) : Prop where
  since_le : ∀ r, since r ≤ log.length
  said : ∀ i ∈ h.parties, ofOne i (sayings ops) = ofOne i log ++ h.up i
  heard : ∀ r ∈ h.parties, ofOthers passes r (log.drop (since r)) = heardBy r out ++ h.down r
  absent : ∀ i ∉ h.parties, ofOne i (sayings ops) = [] ∧ ofOne i log = [] ∧ heardBy i out = []

variable {passes : α → Bool} {h : Hub ι α} {ops : List (Op ι α)} {i r : ι} {x : α} {xs : List α}
  {out o log log' : List (ι × α)} {since : ι → Nat}

omit [DecidableEq ι] in
@[simp] theorem sayings_append (ops ops' : List (Op ι α)) : sayings (ops ++ ops') = sayings ops ++ sayings ops' := by
  simp [sayings]

@[simp] theorem ofOne_append (log log' : List (ι × α)) : ofOne i (log ++ log') = ofOne i log ++ ofOne i log' := by
  simp [ofOne]

@[simp] theorem ofOthers_append (log log' : List (ι × α)) :
    ofOthers passes r (log ++ log') = ofOthers passes r log ++ ofOthers passes r log' := by
  simp [ofOthers]

theorem ofOne_self (i : ι) (x : α) : ofOne i [(i, x)] = [x] := by
  simp [ofOne]

theorem ofOne_of_ne (hir : i ≠ r) (x : α) : ofOne r [(i, x)] = [] := by
  simp [ofOne, hir]

theorem ofOthers_self (i : ι) (x : α) : ofOthers passes i [(i, x)] = [] := by
  simp [ofOthers]

theorem ofOthers_of_ne (hir : i ≠ r) (x : α) : ofOthers passes r [(i, x)] = [x].filter passes := by
  by_cases hx : passes x <;> simp [ofOthers, hir, hx]

/-- What the journal gets, a party hears that has joined before. -/
theorem ofOthers_drop_append (hn : since r ≤ log.length) (log' : List (ι × α)) :
    ofOthers passes r ((log ++ log').drop (since r)) =
      ofOthers passes r (log.drop (since r)) ++ ofOthers passes r log' := by
  rw [List.drop_append_of_le_length hn, ofOthers_append]

/-- What is given to a party. -/
theorem give_eq (hr : r ∈ h.parties) (i : ι) (x : α) :
    h.give passes i x r = h.down r ++ ofOthers passes r [(i, x)] := by
  by_cases hir : i = r
  · subst hir
    rw [give_self, ofOthers_self, List.append_nil]
  · rw [ofOthers_of_ne hir]
    by_cases hx : passes x
    · rw [give_of_mem hx hr (Ne.symm hir), List.filter_cons_of_pos hx, List.filter_nil]
    · rw [give_of_not hx, List.filter_cons_of_neg (by simpa using hx), List.filter_nil, List.append_nil]

theorem Journal.join (hj : Journal passes ops h out log since) (hi : i ∉ h.parties) :
    Journal passes (ops ++ [.join i])
      ⟨insert i h.parties, Function.update h.up i [], Function.update h.down i []⟩ out log
      (Function.update since i log.length) := by
  have hsay : sayings (ops ++ [.join i]) = sayings ops := by simp [sayings]
  obtain ⟨hsaid, hlog, hheard⟩ := hj.absent i hi
  refine ⟨fun r => ?_, fun k hk => ?_, fun r hr => ?_, fun k hk => ?_⟩
  · by_cases hr : r = i
    · rw [hr, Function.update_self]
    · rw [Function.update_of_ne hr]
      exact hj.since_le r
  · rw [hsay]
    by_cases hki : k = i
    · simp only [hki, Function.update_self, hsaid, hlog, List.append_nil]
    · simp only [Function.update_of_ne hki]
      exact hj.said k (Finset.mem_of_mem_insert_of_ne hk hki)
  · by_cases hri : r = i
    · simp only [hri, Function.update_self, List.drop_length, hheard]
      rfl
    · simp only [Function.update_of_ne hri]
      exact hj.heard r (Finset.mem_of_mem_insert_of_ne hr hri)
  · rw [hsay]
    exact hj.absent k fun hk' => hk (Finset.mem_insert_of_mem hk')

theorem Journal.say (hj : Journal passes ops h out log since) (hi : i ∈ h.parties) (x : α) :
    Journal passes (ops ++ [.say i x]) { h with up := Function.update h.up i (h.up i ++ [x]) } out log since := by
  have hsay : sayings (ops ++ [.say i x]) = sayings ops ++ [(i, x)] := by simp [sayings]
  refine ⟨hj.since_le, fun k hk => ?_, hj.heard, fun k hk => ?_⟩
  · rw [hsay, ofOne_append, hj.said k hk]
    by_cases hik : i = k
    · subst hik
      simp only [ofOne_self, Function.update_self, List.append_assoc]
    · simp only [ofOne_of_ne hik, Function.update_of_ne (Ne.symm hik), List.append_nil]
  · have hik : i ≠ k := ne_of_mem_of_not_mem hi hk
    rw [hsay, ofOne_append, ofOne_of_ne hik, List.append_nil]
    exact hj.absent k hk

theorem Journal.pass (hj : Journal passes ops h out log since) (hi : i ∈ h.parties) (hx : h.up i = x :: xs) :
    Journal passes (ops ++ [.pass i]) { h with up := Function.update h.up i xs, down := h.give passes i x } out
      (log ++ [(i, x)]) since := by
  have hsay : sayings (ops ++ [.pass i]) = sayings ops := by simp [sayings]
  refine ⟨fun r => ?_, fun k hk => ?_, fun r hr => ?_, fun k hk => ?_⟩
  · exact (hj.since_le r).trans (by simp)
  · rw [hsay, hj.said k hk, ofOne_append]
    by_cases hik : i = k
    · subst hik
      simp only [ofOne_self, Function.update_self, hx, List.append_assoc, List.singleton_append]
    · simp only [ofOne_of_ne hik, Function.update_of_ne (Ne.symm hik), List.append_nil]
  · have hr : r ∈ h.parties := hr
    rw [ofOthers_drop_append (hj.since_le r), hj.heard r hr, List.append_assoc, ← give_eq hr]
  · have hik : i ≠ k := ne_of_mem_of_not_mem hi hk
    rw [hsay, ofOne_append, ofOne_of_ne hik, List.append_nil]
    exact hj.absent k hk

theorem Journal.hear (hj : Journal passes ops h out log since) (hi : i ∈ h.parties) (hx : h.down i = x :: xs) :
    Journal passes (ops ++ [.hear i]) { h with down := Function.update h.down i xs } (out ++ [(i, x)]) log since := by
  have hsay : sayings (ops ++ [.hear i]) = sayings ops := by simp [sayings]
  refine ⟨hj.since_le, fun k hk => ?_, fun r hr => ?_, fun k hk => ?_⟩
  · rw [hsay]
    exact hj.said k hk
  · rw [hj.heard r hr, heardBy_append]
    by_cases hir : i = r
    · subst hir
      simp [heardBy, hx]
    · simp [heardBy, hir, Function.update_of_ne (Ne.symm hir)]
  · have hik : i ≠ k := ne_of_mem_of_not_mem hi hk
    rw [hsay, heardBy_append]
    simpa [heardBy, hik] using hj.absent k hk

/-- Nobody has said or heard anything. -/
theorem journal_nil (up down : ι → List α) : Journal passes [] ⟨∅, up, down⟩ [] [] fun _ => 0 :=
  ⟨fun _ => Nat.le_refl _, by simp, by simp, fun _ _ => ⟨rfl, rfl, rfl⟩⟩

end Hub

end Lib
