import Mathlib.Data.List.TakeWhile
import Torinet.Lib.Bytes

/-!
# C strings

* `cString bs`: the text in some memory, which ends before the first zero byte, or with the memory.
* `strcpy`: a text and its terminator copied to the start of a block, which is undefined when they do not fit
  (`strcpy_eq_none_iff`).
-/

namespace Lib

/-- The bytes before the first zero. -/
def cString (bs : List UInt8) : List UInt8 := bs.takeWhile fun b => b ≠ 0

section CString

variable {bs rest : List UInt8} {b : UInt8} {n : Nat}

@[simp] theorem cString_nil : cString [] = [] := rfl

@[simp] theorem cString_zero_cons : cString (0 :: bs) = [] := rfl

theorem cString_cons_of_ne (h : b ≠ 0) : cString (b :: bs) = b :: cString bs := by
  simp [cString, h]

/-- Memory without zero bytes is all text. -/
theorem cString_of_not_mem (h : 0 ∉ bs) : cString bs = bs := by
  refine List.takeWhile_eq_self_iff.2 fun b hb => ?_
  simpa using ne_of_mem_of_not_mem hb h

/-- A text without zero bytes ends at the first one that follows. -/
theorem cString_append_zero (h : 0 ∉ bs) : cString (bs ++ 0 :: rest) = bs := by
  induction bs with
  | nil => rfl
  | cons b bs ih =>
    have hb : b ≠ 0 := fun hb => h (by simp [hb])
    rw [List.cons_append, cString_cons_of_ne hb, ih fun hm => h (List.mem_cons_of_mem _ hm)]

theorem zero_notMem_cString : 0 ∉ cString bs := by
  intro h
  simpa using List.mem_takeWhile_imp h

/-- What lies behind the terminator makes no difference. -/
theorem cString_append (h : 0 ∈ bs) : cString (bs ++ rest) = cString bs := by
  induction bs with
  | nil => cases h
  | cons b bs ih =>
    by_cases hb : b = 0
    · subst hb
      rfl
    · rw [List.cons_append, cString_cons_of_ne hb, cString_cons_of_ne hb,
        ih ((List.mem_cons.1 h).resolve_left (Ne.symm hb))]

end CString

namespace Block

variable {n : Nat}

/-- `strcpy` to the start of a block. -/
def strcpy (b : Block n) (src : List UInt8) : Option (Block n) :=
  if (cString src).length + 1 ≤ n then some (b.store (cString src ++ [0])) else none

theorem strcpy_eq_none_iff {b : Block n} {src : List UInt8} : b.strcpy src = none ↔ n < (cString src).length + 1 := by
  unfold strcpy
  split <;> simp <;> omega

end Block

end Lib
