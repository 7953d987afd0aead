import Mathlib.Data.Int.CardIntervalMod

/-!
# Taking turns

Things are dealt to `N` places in turn, the first one to the place `c % N`. After `n` of them each place has got
`n / N`, or one more (`count_turns`).
-/

namespace Lib

/-- The place that the `k`-th thing goes to. -/
def turn (N c k : Nat) : Nat := (c + k) % N

/-- The places that the first `n` things go to. -/
def turns (N c n : Nat) : List Nat := (List.range n).map (turn N c)

variable {N c n k i : Nat}

theorem turn_lt (hN : 0 < N) : turn N c k < N := Nat.mod_lt _ hN

/-- After a place comes the next one, and after the last one the first. -/
theorem turn_succ (hN : 0 < N) : turn N c (k + 1) = if turn N c k + 1 ≥ N then 0 else turn N c k + 1 := by
  have hlt : turn N c k < N := turn_lt hN
  unfold turn at *
  rw [← Nat.add_assoc, Nat.add_mod_eq_ite]
  have hone : 1 % N = if N = 1 then 0 else 1 := by
    split
    · rename_i h
      rw [h]
    · exact Nat.mod_eq_of_lt (by omega)
  rw [hone]
  split_ifs <;> omega

theorem turns_succ : turns N c (n + 1) = turns N c n ++ [turn N c n] := by
  simp [turns, List.range_succ]

theorem getElem?_turns (h : (turns N c n)[k]? = some i) : i = turn N c k := by
  rw [turns, List.getElem?_map] at h
  obtain ⟨j, hj, rfl⟩ := Option.map_eq_some_iff.1 h
  obtain ⟨hlt, rfl⟩ := List.getElem?_eq_some_iff.1 hj
  rw [List.getElem_range]

/-- The things that go to a place. -/
theorem turn_eq_iff (hi : i < N) : turn N c k = i ↔ k ≡ i + (N - c % N) [MOD N] := by
  have hN : 0 < N := Nat.zero_lt_of_lt hi
  have hlt := Nat.mod_lt c hN
  have hc : c + (N - c % N) ≡ 0 [MOD N] := by
    have heq : c + (N - c % N) = N * (c / N) + N := by
      have := Nat.div_add_mod c N
      omega
    rw [heq, Nat.modEq_zero_iff_dvd]
    exact Dvd.dvd.add (Nat.dvd_mul_right _ _) (Nat.dvd_refl N)
  have hshift : c + k + (N - c % N) ≡ k [MOD N] := by
    have heq : c + k + (N - c % N) = k + (c + (N - c % N)) := by omega
    rw [heq]
    exact (hc.add_left k)
  calc turn N c k = i
    _ ↔ c + k ≡ i [MOD N] := by rw [turn, Nat.ModEq, Nat.mod_eq_of_lt hi]
    _ ↔ c + k + (N - c % N) ≡ i + (N - c % N) [MOD N] := ⟨fun h => h.add_right _, fun h => h.add_right_cancel' _⟩
    _ ↔ k ≡ i + (N - c % N) [MOD N] := ⟨fun h => hshift.symm.trans h, fun h => hshift.trans h⟩

theorem count_turns_eq (hi : i < N) : (turns N c n).count i = Nat.count (· ≡ i + (N - c % N) [MOD N]) n := by
  induction n with
  | zero => rfl
  | succ n ih =>
    rw [turns_succ, List.count_append, ih, Nat.count_succ, List.count_singleton]
    simp only [beq_iff_eq, turn_eq_iff hi]

/-- **Everyone gets the same**, up to one. -/
theorem count_turns (hi : i < N) : n / N ≤ (turns N c n).count i ∧ (turns N c n).count i ≤ n / N + 1 := by
  rw [count_turns_eq hi, Nat.count_modEq_card _ (Nat.zero_lt_of_lt hi)]
  split_ifs <;> omega

end Lib
