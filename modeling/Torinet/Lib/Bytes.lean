import Mathlib.Algebra.Order.Group.Nat
import Mathlib.Tactic.Ring

/-!
# Bytes in memory

* Numbers as little-endian bytes: `leBytes k n` writes `n` into `k` bytes, `leNat` reads a number back
  (`leNat_leBytes`, `leBytes_leNat`).
* `overwrite old new`: the memory `old` after `new` has been stored at its start. Storing as many bytes as there are
  replaces everything (`overwrite_full`); the stored bytes are the first ones read back (`take_overwrite`).
* `Block n`: a piece of memory of `n` bytes, storing bytes at its start (`Block.store`) and copying into it
  (`Block.memcpy`).
* `toSizeT`: an `int` converted to a 64-bit `size_t`.
-/

namespace Lib

/-! ## Little-endian numbers -/

/-- The number with the given bytes, least significant first. -/
def leNat : List UInt8 → Nat
  | [] => 0
  | b :: bs => b.toNat + 256 * leNat bs

/-- The lowest `k` bytes of `n`, least significant first. -/
def leBytes : Nat → Nat → List UInt8
  | 0, _ => []
  | k + 1, n => UInt8.ofNat n :: leBytes k (n / 256)

@[simp] theorem length_leBytes : ∀ k n : Nat, (leBytes k n).length = k
  | 0, _ => rfl
  | k + 1, n => by simp [leBytes, length_leBytes k]

/-- Reading back `k` written bytes loses what does not fit into them. -/
theorem leNat_leBytes : ∀ k n : Nat, leNat (leBytes k n) = n % 256 ^ k
  | 0, n => by simp [leBytes, leNat, Nat.mod_one]
  | k + 1, n => by
    have hb : (UInt8.ofNat n).toNat = n % 256 := by simp
    rw [leBytes, leNat, leNat_leBytes k, hb, pow_succ', Nat.mod_mul]

theorem leNat_lt : ∀ bs : List UInt8, leNat bs < 256 ^ bs.length
  | [] => by simp [leNat]
  | b :: bs => by
    have hb := b.toNat_lt
    have ih := leNat_lt bs
    rw [leNat, List.length_cons, pow_succ']
    omega

/-- Writing back the number that was read gives the same bytes. -/
theorem leBytes_leNat : ∀ {k : Nat} {bs : List UInt8}, bs.length = k → leBytes k (leNat bs) = bs
  | _, [], rfl => rfl
  | _, b :: bs, rfl => by
    have hb := b.toNat_lt
    have hmod : UInt8.ofNat (b.toNat + 256 * leNat bs) = b := by
      apply UInt8.toNat_inj.1
      simp only [UInt8.toNat_ofNat']
      omega
    have hdiv : (b.toNat + 256 * leNat bs) / 256 = leNat bs := by omega
    rw [List.length_cons, leNat, leBytes, hmod, hdiv, leBytes_leNat rfl]

/-! ## Storing at the start of memory -/

/-- `old` after `new` has been stored from its start on; what lies beyond the end of `old` is not seen. -/
def overwrite {α : Type*} (old new : List α) : List α := new.take old.length ++ old.drop new.length

section Overwrite

variable {α : Type*} {old new : List α} {n : Nat}

@[simp] theorem length_overwrite (old new : List α) : (overwrite old new).length = old.length := by
  simp only [overwrite, List.length_append, List.length_take, List.length_drop]
  omega

theorem overwrite_full (h : new.length = old.length) : overwrite old new = new := by
  rw [overwrite, h, List.drop_length, List.append_nil, ← h, List.take_length]

/-- The bytes stored are the first bytes read back. -/
theorem take_overwrite (h : new.length ≤ old.length) : (overwrite old new).take new.length = new := by
  rw [overwrite, List.take_of_length_le h, List.take_left]

end Overwrite

/-- A piece of memory of `n` bytes. -/
structure Block (n : Nat) where
  bytes : List UInt8
  length_bytes : bytes.length = n
deriving DecidableEq

namespace Block

variable {n : Nat}

attribute [simp] length_bytes

/-- Store bytes at the start of a block. -/
def store (b : Block n) (new : List UInt8) : Block n := ⟨overwrite b.bytes new, by simp⟩

@[simp] theorem bytes_store (b : Block n) (new : List UInt8) : (b.store new).bytes = overwrite b.bytes new := rfl

/-- `memcpy` to the start of a block: undefined when it would leave the block or the source. -/
def memcpy (b : Block n) (src : List UInt8) (size : Nat) : Option (Block n) :=
  if size ≤ n ∧ size ≤ src.length then some (b.store (src.take size)) else none

/-- A block of zeros. -/
def zero (n : Nat) : Block n := ⟨List.replicate n 0, by simp⟩

end Block

/-! ## Conversion to `size_t` -/

/-- An integer converted to a 64-bit `size_t`. -/
def toSizeT (n : Int) : Nat := (n % 2 ^ 64).toNat

theorem toSizeT_of_nonneg {n : Int} (h₀ : 0 ≤ n) (h₁ : n < 2 ^ 64) : toSizeT n = n.toNat := by
  rw [toSizeT, Int.emod_eq_of_lt h₀ h₁]

/-- A small negative number becomes a huge one. -/
theorem toSizeT_of_neg {n : Int} (h₀ : n < 0) (h₁ : -2 ^ 64 ≤ n) : (toSizeT n : Int) = 2 ^ 64 + n := by
  rw [toSizeT, ← Int.add_emod_right, Int.emod_eq_of_lt (by omega) (by omega)]
  omega

example : toSizeT (-1) = 2 ^ 64 - 1 := by decide

end Lib
