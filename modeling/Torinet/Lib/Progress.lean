import Mathlib.Data.Nat.Find
import Torinet.Lib.Machine

/-!
# Measures of progress

A measure says how much is left to do. Steps that use it up are few (`Run.countP_le`), and where there always is such a
step, until the goal is reached, some run reaches it (`exists_run_of_progress`). Who waits only for those that come
later does not wait for ever: the last one that has not ended waits for nobody (`exists_last`).
-/

namespace Lib

namespace Machine

variable {σ ε ω : Type*} {M : Machine σ ε ω} {s₀ s : σ} {es : List ε} {out : List ω} {I G : σ → Prop} {f : σ → Nat}

/-- **A measure bounds the steps** that use it up, where no step adds to it. -/
theorem Run.countP_le {p : ε → Bool} (hr : Run M s₀ es s out) (h₀ : I s₀)
    (hstep : ∀ {s e s' o}, e ∈ es → I s → M.step s e = some (s', o) → I s' ∧ f s' + (if p e then 1 else 0) ≤ f s) :
    I s ∧ f s + es.countP p ≤ f s₀ := by
  induction hr with
  | nil => exact ⟨h₀, by simp⟩
  | @snoc es s out e s' o hr hs ih =>
    obtain ⟨hI, hle⟩ := ih fun he hi hs => hstep (List.mem_append_left _ he) hi hs
    obtain ⟨hI', hle'⟩ := hstep (by simp) hI hs
    refine ⟨hI', ?_⟩
    rw [List.countP_append, List.countP_singleton]
    omega

/-- **Progress**: where a step of the given kind makes the measure smaller until the goal is reached, steps of this kind
reach it. -/
theorem exists_run_of_progress {p : ε → Prop}
    (hprog : ∀ s, I s → ¬ G s → ∃ e s' o, p e ∧ M.step s e = some (s', o) ∧ I s' ∧ f s' < f s) :
    ∀ (n : Nat) (s : σ), f s ≤ n → I s → ∃ es s' out, Run M s es s' out ∧ (∀ e ∈ es, p e) ∧ I s' ∧ G s' := by
  intro n
  induction n with
  | zero =>
    intro s hn hI
    by_cases hg : G s
    · exact ⟨[], s, [], Run.nil, by simp, hI, hg⟩
    · obtain ⟨e, s', o, -, -, -, hlt⟩ := hprog s hI hg
      omega
  | succ n ih =>
    intro s hn hI
    by_cases hg : G s
    · exact ⟨[], s, [], Run.nil, by simp, hI, hg⟩
    · obtain ⟨e, s₁, o, he, hs, hI₁, hlt⟩ := hprog s hI hg
      obtain ⟨es, s', out, hr, hes, hI', hg'⟩ := ih s₁ (by omega) hI₁
      exact ⟨[e] ++ es, s', o ++ out, (Run.single hs).append hr, by simpa using ⟨he, hes⟩, hI', hg'⟩

end Machine

/-- The last one that has not ended. -/
theorem exists_last {n k : Nat} {ended : Nat → Bool} (hk : k < n) (hended : ended k = false) :
    ∃ t < n, ended t = false ∧ ∀ u, t < u → u < n → ended u = true := by
  have hle : k ≤ n - 1 := by omega
  have hlast := Nat.findGreatest_spec (P := fun t => ended t = false) hle hended
  have hbound := Nat.findGreatest_le (P := fun t => ended t = false) (n - 1)
  refine ⟨_, by omega, hlast, ?_⟩
  intro u hlt hu
  have hnot := Nat.findGreatest_is_greatest hlt (show u ≤ n - 1 by omega)
  simpa using hnot

end Lib
