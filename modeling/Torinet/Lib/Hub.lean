import Mathlib.Algebra.BigOperators.Group.Finset.Piecewise
import Mathlib.Algebra.Order.Group.Multiset
import Torinet.Lib.Machine

/-!
# Hubs

The parties of a hub say things to it, and hear what it passes on; either takes its time, so there is a queue for each
party and direction. What is to be passed on goes to all parties but the one that said it. Whatever the order of the
steps, a party hears what the others say, each thing once (`Run.ledger`); and it can always come to hear all of it
(`exists_drained`).
-/

namespace Lib

structure Hub (ι α : Type*) where
  parties : Finset ι
  /-- Said, and not passed on yet. -/
  up : ι → List α
  /-- Passed on, and not heard yet. -/
  down : ι → List α

namespace Hub

inductive Op (ι α : Type*)
  | join (i : ι)
  | say (i : ι) (x : α)
  | pass (i : ι)
  | hear (i : ι)

/-- The operation is one of the hub's own. -/
def Op.Internal {ι α : Type*} : Op ι α → Prop
  | .pass _ => True
  | .hear _ => True
  | _ => False

variable {ι α : Type*} [DecidableEq ι]

section Machine

variable (passes : α → Bool)

/-- What is passed on is given to everyone but `i`. -/
def give (h : Hub ι α) (i : ι) (x : α) : ι → List α := fun r =>
  if r ∈ h.parties ∧ r ≠ i ∧ passes x then h.down r ++ [x] else h.down r

/-- What is heard is put out, with who hears it. -/
def step (h : Hub ι α) : Op ι α → Option (Hub ι α × List (ι × α))
  | .join i =>
    if i ∈ h.parties then none
    else some (⟨insert i h.parties, Function.update h.up i [], Function.update h.down i []⟩, [])
  | .say i x =>
    if i ∈ h.parties then some ({ h with up := Function.update h.up i (h.up i ++ [x]) }, []) else none
  | .pass i =>
    match h.up i with
    | [] => none
    | x :: xs =>
      if i ∈ h.parties then some ({ h with up := Function.update h.up i xs, down := h.give passes i x }, []) else none
  | .hear i =>
    match h.down i with
    | [] => none
    | x :: xs => if i ∈ h.parties then some ({ h with down := Function.update h.down i xs }, [(i, x)]) else none

def machine : Machine (Hub ι α) (Op ι α) (ι × α) := ⟨step passes⟩

/-- What the others have said that is still to be passed on. -/
def others (h : Hub ι α) (r : ι) : Multiset α := ∑ i ∈ h.parties.erase r, ((h.up i).filter passes : Multiset α)

/-- What `r` is still to hear. -/
def pending (h : Hub ι α) (r : ι) : Multiset α := h.down r + h.others passes r

/-- What is said to `r`. -/
def saidTo (r : ι) (ops : List (Op ι α)) : List α := ops.filterMap fun
  | .say i x => if i ≠ r ∧ passes x then some x else none
  | _ => none

end Machine

/-- What `r` hears. -/
def heardBy (r : ι) (out : List (ι × α)) : List α := out.filterMap fun x => if x.1 = r then some x.2 else none

variable {passes : α → Bool} {h h' : Hub ι α} {op : Op ι α} {ops : List (Op ι α)} {i k r : ι} {x : α} {xs : List α}
  {out o : List (ι × α)}

@[simp] theorem heardBy_append (out o : List (ι × α)) : heardBy r (out ++ o) = heardBy r out ++ heardBy r o := by
  simp [heardBy]

@[simp] theorem saidTo_append (ops ops' : List (Op ι α)) :
    saidTo passes r (ops ++ ops') = saidTo passes r ops ++ saidTo passes r ops' := by
  simp [saidTo]

theorem give_self (h : Hub ι α) (i : ι) (x : α) : h.give passes i x i = h.down i := by
  simp [give]

theorem give_of_not (hx : ¬ passes x) (h : Hub ι α) (i : ι) : h.give passes i x = h.down := by
  funext k
  simp [give, hx]

theorem give_of_mem (hx : passes x) (hr : r ∈ h.parties) (hri : r ≠ i) : h.give passes i x r = h.down r ++ [x] := by
  simp [give, hx, hr, hri]

/-! ## The ways a step can go -/

/-- Every way a step can go, with the state and the outputs it leads to. -/
inductive Path (passes : α → Bool) (h : Hub ι α) : Op ι α → Hub ι α → List (ι × α) → Prop
  | join (i : ι) (hi : i ∉ h.parties) :
      Path passes h (.join i) ⟨insert i h.parties, Function.update h.up i [], Function.update h.down i []⟩ []
  | say (i : ι) (x : α) (hi : i ∈ h.parties) :
      Path passes h (.say i x) { h with up := Function.update h.up i (h.up i ++ [x]) } []
  | pass (i : ι) (x : α) (xs : List α) (hi : i ∈ h.parties) (hx : h.up i = x :: xs) :
      Path passes h (.pass i) { h with up := Function.update h.up i xs, down := h.give passes i x } []
  | hear (i : ι) (x : α) (xs : List α) (hi : i ∈ h.parties) (hx : h.down i = x :: xs) :
      Path passes h (.hear i) { h with down := Function.update h.down i xs } [(i, x)]

theorem step_path (hs : h.step passes op = some (h', o)) : Path passes h op h' o := by
  cases op with
  | join i =>
    simp only [step] at hs
    split at hs
    · cases hs
    · rename_i hi
      obtain ⟨rfl, rfl⟩ := Prod.mk.inj (Option.some.inj hs)
      exact Path.join i hi
  | say i x =>
    simp only [step] at hs
    split at hs
    · rename_i hi
      obtain ⟨rfl, rfl⟩ := Prod.mk.inj (Option.some.inj hs)
      exact Path.say i x hi
    · cases hs
  | pass i =>
    simp only [step] at hs
    split at hs
    · cases hs
    · rename_i x xs hx
      split at hs
      · rename_i hi
        obtain ⟨rfl, rfl⟩ := Prod.mk.inj (Option.some.inj hs)
        exact Path.pass i x xs hi hx
      · cases hs
  | hear i =>
    simp only [step] at hs
    split at hs
    · cases hs
    · rename_i x xs hx
      split at hs
      · rename_i hi
        obtain ⟨rfl, rfl⟩ := Prod.mk.inj (Option.some.inj hs)
        exact Path.hear i x xs hi hx
      · cases hs

theorem step_pass (hi : i ∈ h.parties) (hx : h.up i = x :: xs) : (machine passes).step h (.pass i) =
    some ({ h with up := Function.update h.up i xs, down := h.give passes i x }, []) := by
  simp only [machine, step, hx, if_pos hi]

theorem step_hear (hi : i ∈ h.parties) (hx : h.down i = x :: xs) : (machine passes).step h (.hear i) =
    some ({ h with down := Function.update h.down i xs }, [(i, x)]) := by
  simp only [machine, step, hx, if_pos hi]

/-! ## Everything is heard once -/

/-- What the others have said, after one of them has come to have said `ys`. -/
theorem others_update (passes : α → Bool) (hi : i ∈ h.parties) (hir : i ≠ r) (ys : List α) (d : ι → List α) :
    others passes ⟨h.parties, Function.update h.up i ys, d⟩ r + ((h.up i).filter passes : Multiset α) =
      h.others passes r + (ys.filter passes : Multiset α) := by
  have hmem : i ∈ h.parties.erase r := Finset.mem_erase.2 ⟨hir, hi⟩
  have hup : (fun k => ((Function.update h.up i ys k).filter passes : Multiset α)) =
      Function.update (fun k => ((h.up k).filter passes : Multiset α)) i (ys.filter passes : Multiset α) :=
    funext (Function.apply_update (fun _ l => ((l.filter passes : List α) : Multiset α)) h.up i ys)
  rw [others, hup, Finset.sum_update_of_mem hmem, Finset.sdiff_singleton_eq_erase, others,
    ← Finset.add_sum_erase _ _ hmem]
  ac_rfl

/-- What is said by someone who is not among the others makes no difference. -/
theorem others_update_of_notMem (hi : i ∉ h.parties.erase r) (ys : List α) (d : ι → List α) :
    others passes ⟨h.parties, Function.update h.up i ys, d⟩ r = h.others passes r := by
  refine Finset.sum_congr rfl fun k hk => ?_
  have hki : k ≠ i := ne_of_mem_of_not_mem hk hi
  simp only [Function.update_of_ne hki]

theorem others_join (hi : i ∉ h.parties) (hir : i ≠ r) (d : ι → List α) :
    others passes ⟨insert i h.parties, Function.update h.up i [], d⟩ r = h.others passes r := by
  have hi' : i ∉ h.parties.erase r := fun hm => hi (Finset.mem_of_mem_erase hm)
  rw [others, Finset.erase_insert_of_ne hir, Finset.sum_insert hi']
  simp only [Function.update_self, List.filter_nil, Multiset.coe_nil, zero_add]
  exact others_update_of_notMem hi' [] d

theorem others_say (hi : i ∈ h.parties) (hir : i ≠ r) (x : α) :
    others passes { h with up := Function.update h.up i (h.up i ++ [x]) } r =
      h.others passes r + ([x].filter passes : Multiset α) := by
  have hsum := others_update passes hi hir (h.up i ++ [x]) h.down
  rw [List.filter_append, ← Multiset.coe_add] at hsum
  exact add_right_cancel (hsum.trans (by ac_rfl))

theorem others_pass (hi : i ∈ h.parties) (hir : i ≠ r) (hx : h.up i = x :: xs) (d : ι → List α) :
    others passes ⟨h.parties, Function.update h.up i xs, d⟩ r + ([x].filter passes : Multiset α) =
      h.others passes r := by
  have hsum := others_update passes hi hir xs d
  rw [hx, ← List.singleton_append, List.filter_append, ← Multiset.coe_add, ← add_assoc] at hsum
  exact add_right_cancel hsum

/-- **What a step changes**: what is heard has been pending, and what is said is. -/
theorem step_ledger (hs : h.step passes op = some (h', o)) (hr : r ∈ h.parties) :
    (heardBy r o : Multiset α) + h'.pending passes r = h.pending passes r + saidTo passes r [op] := by
  cases step_path hs with
  | join i hi =>
    have hir : r ≠ i := ne_of_mem_of_not_mem hr hi
    simp [pending, heardBy, saidTo, others_join hi hir.symm, Function.update_of_ne hir]
  | say i x hi =>
    by_cases hir : i = r
    · subst hir
      simp [pending, heardBy, saidTo, others_update_of_notMem]
    · have hsaid : saidTo passes r [.say i x] = [x].filter passes := by
        by_cases hx : passes x <;> simp [saidTo, hir, hx]
      simp only [pending, others_say hi hir, hsaid, heardBy, List.filterMap_nil, Multiset.coe_nil, zero_add, add_assoc]
  | pass i x xs hi hx =>
    have hsaid : saidTo passes r [.pass i] = [] := rfl
    simp only [pending, hsaid, heardBy, List.filterMap_nil, Multiset.coe_nil, zero_add, add_zero]
    by_cases hir : i = r
    · subst hir
      rw [others_update_of_notMem (Finset.notMem_erase i h.parties), give_self]
    · rw [← others_pass hi hir hx (h.give passes i x)]
      by_cases hpx : passes x
      · rw [give_of_mem hpx hr (Ne.symm hir), ← Multiset.coe_add, List.filter_cons_of_pos hpx, List.filter_nil]
        ac_rfl
      · rw [give_of_not hpx, List.filter_cons_of_neg (by simpa using hpx), List.filter_nil,
          Multiset.coe_nil, add_zero]
  | hear i x xs hi hx =>
    have hothers : others passes { h with down := Function.update h.down i xs } r = h.others passes r := rfl
    rw [pending, hothers, pending]
    by_cases hir : i = r
    · subst hir
      simp [heardBy, saidTo, hx, ← Multiset.cons_coe]
    · simp [heardBy, saidTo, hir, Function.update_of_ne (Ne.symm hir)]

/-- A party stays one. -/
theorem mem_parties (hs : h.step passes op = some (h', o)) (hr : r ∈ h.parties) : r ∈ h'.parties := by
  cases step_path hs with
  | join i hi => exact Finset.mem_insert_of_mem hr
  | _ => exact hr

/-- **Everything is heard once**: in a run from any state, what `r` has heard and is still to hear is what was pending
and what has been said to it. -/
theorem Run.ledger (hrun : (machine passes).Run h ops h' out) (hr : r ∈ h.parties) :
    r ∈ h'.parties ∧ (heardBy r out : Multiset α) + h'.pending passes r =
      h.pending passes r + saidTo passes r ops := by
  induction hrun with
  | nil => simp [heardBy, saidTo, hr]
  | @snoc ops h₁ out op h₂ o _ hs ih =>
    obtain ⟨hr₁, ih⟩ := ih
    have hs : h₁.step passes op = some (h₂, o) := hs
    have hstep := step_ledger hs hr₁
    refine ⟨mem_parties hs hr₁, ?_⟩
    rw [heardBy_append, saidTo_append, ← Multiset.coe_add, ← Multiset.coe_add, add_assoc, hstep, ← add_assoc, ih,
      add_assoc]

/-! ## Everything can be heard -/

/-- All that a party has said can be passed on. -/
theorem exists_passed (passes : α → Bool) (hi : i ∈ h.parties) : ∃ ops h', (∀ op ∈ ops, op.Internal) ∧
    (machine passes).Run h ops h' [] ∧ h'.parties = h.parties ∧ h'.up = Function.update h.up i [] := by
  generalize hl : h.up i = l
  induction l generalizing h with
  | nil => exact ⟨[], h, by simp, Machine.Run.nil, rfl, by rw [← hl, Function.update_eq_self]⟩
  | cons x xs ih =>
    obtain ⟨ops, h', hops, hrun, hp, hup⟩ := ih (h := { h with
      up := Function.update h.up i xs
      down := h.give passes i x }) hi (Function.update_self _ _ _)
    refine ⟨.pass i :: ops, h', ?_, ?_, hp, ?_⟩
    · simpa [Op.Internal] using hops
    · exact (Machine.Run.single (step_pass hi hl)).append hrun
    · rw [hup, Function.update_idem]

/-- So can all that anyone has said. -/
theorem exists_allPassed (passes : α → Bool) (h : Hub ι α) : ∀ l : Finset ι, l ⊆ h.parties → ∃ ops h',
    (∀ op ∈ ops, op.Internal) ∧ (machine passes).Run h ops h' [] ∧ h'.parties = h.parties ∧ ∀ i ∈ l, h'.up i = [] := by
  intro l
  induction l using Finset.induction_on with
  | empty => exact fun _ => ⟨[], h, by simp, Machine.Run.nil, rfl, by simp⟩
  | insert i l hi ih =>
    intro hl
    obtain ⟨ops₁, h₁, hops₁, hrun₁, hp₁, hup₁⟩ := ih fun k hk => hl (Finset.mem_insert_of_mem hk)
    obtain ⟨ops₂, h₂, hops₂, hrun₂, hp₂, hup₂⟩ := exists_passed (h := h₁) (i := i) passes
      (hp₁ ▸ hl (Finset.mem_insert_self i l))
    refine ⟨ops₁ ++ ops₂, h₂, fun op hop => ?_, hrun₁.append hrun₂, hp₂.trans hp₁, fun k hk => ?_⟩
    · exact (List.mem_append.1 hop).elim (hops₁ op) (hops₂ op)
    · rw [hup₂]
      by_cases hki : k = i
      · rw [hki, Function.update_self]
      · rw [Function.update_of_ne hki]
        exact hup₁ k ((Finset.mem_insert.1 hk).resolve_left hki)

/-- All that has been passed on to a party can be heard. -/
theorem exists_heard (passes : α → Bool) (hr : r ∈ h.parties) : ∃ ops h' out, (∀ op ∈ ops, op.Internal) ∧
    (machine passes).Run h ops h' out ∧ h'.parties = h.parties ∧ h'.up = h.up ∧ h'.down r = [] := by
  generalize hl : h.down r = l
  induction l generalizing h with
  | nil => exact ⟨[], h, [], by simp, Machine.Run.nil, rfl, rfl, hl⟩
  | cons x xs ih =>
    obtain ⟨ops, h', out, hops, hrun, hp, hup, hdown⟩ := ih (h := { h with
      down := Function.update h.down r xs }) hr (Function.update_self _ _ _)
    refine ⟨.hear r :: ops, h', _, ?_, (Machine.Run.single (step_hear hr hl)).append hrun, hp, hup, hdown⟩
    simpa [Op.Internal] using hops

theorem saidTo_of_internal (hops : ∀ op ∈ ops, op.Internal) : saidTo passes r ops = [] := by
  refine List.filterMap_eq_nil_iff.2 fun op hop => ?_
  have hint := hops op hop
  cases op with
  | say i x => exact hint.elim
  | _ => rfl

/-- **Everything can be heard**: the hub can always go on until `r` has heard all that is pending for it. -/
theorem exists_drained (passes : α → Bool) (hr : r ∈ h.parties) : ∃ ops h' out, (∀ op ∈ ops, op.Internal) ∧
    (machine passes).Run h ops h' out ∧ (heardBy r out : Multiset α) = h.pending passes r := by
  obtain ⟨ops₁, h₁, hops₁, hrun₁, hp₁, hup₁⟩ := exists_allPassed passes h h.parties (Finset.Subset.refl _)
  obtain ⟨ops₂, h₂, out, hops₂, hrun₂, hp₂, hup₂, hdown⟩ := exists_heard (h := h₁) passes (hp₁ ▸ hr)
  have hops : ∀ op ∈ ops₁ ++ ops₂, op.Internal := fun op hop => (List.mem_append.1 hop).elim (hops₁ op) (hops₂ op)
  have hdrained : h₂.pending passes r = 0 := by
    rw [pending, hdown, others, Finset.sum_eq_zero, Multiset.coe_nil, add_zero]
    intro i hi
    rw [hup₂, hup₁ i (hp₁ ▸ hp₂ ▸ Finset.mem_of_mem_erase hi), List.filter_nil, Multiset.coe_nil]
  have hrun := hrun₁.append hrun₂
  have hledger := (Run.ledger hrun hr).2
  rw [hdrained, saidTo_of_internal hops, Multiset.coe_nil, add_zero, add_zero] at hledger
  exact ⟨_, h₂, _, hops, hrun, hledger⟩

end Hub

end Lib
