import Mathlib.Data.List.Induction

/-!
# Machines with outputs

A machine takes an event in a state to the next state and a list of outputs; the event may also be impossible there.
`Run M s₀ es s out` says that the events `es`, taken one after the other from `s₀`, lead to `s` and put out `out`.
Events are added at the end (`Run.snoc`), so a property of runs is proved by induction over its history;
`exec` computes a run (`run_of_exec`), and a run is determined by its events (`Run.det`).

* `Always P es`: `P` holds at every point of the run over `es`; `Steps C es`: every step of that run meets `C`.
* `always_iff_steps`: where a step that meets `C` keeps an invariant behind `P`, and a step that does not breaks `P`,
  the two are equivalent.
* `Run.simulate`: a step-by-step simulation carries runs of one machine to runs of another.
-/

namespace Lib

/-- A machine with states `σ`, events `ε` and outputs `ω`. -/
structure Machine (σ ε ω : Type*) where
  step : σ → ε → Option (σ × List ω)

namespace Machine

variable {σ ε ω σ' ε' ω' : Type*} {M : Machine σ ε ω} {N : Machine σ' ε' ω'} {s₀ s s' : σ} {es es' : List ε} {e : ε}
  {out out' o : List ω}

/-- **Runs**, extended at the end. -/
inductive Run (M : Machine σ ε ω) (s₀ : σ) : List ε → σ → List ω → Prop
  | nil : Run M s₀ [] s₀ []
  | snoc {es : List ε} {s : σ} {out : List ω} {e : ε} {s' : σ} {o : List ω} : Run M s₀ es s out →
      M.step s e = some (s', o) → Run M s₀ (es ++ [e]) s' (out ++ o)

/-- Computing a run. -/
def exec (M : Machine σ ε ω) : σ → List ε → Option (σ × List ω)
  | s, [] => some (s, [])
  | s, e :: es => (M.step s e).bind fun r => (M.exec r.1 es).map fun r' => (r'.1, r.2 ++ r'.2)

theorem Run.single (h : M.step s e = some (s', o)) : Run M s [e] s' o := by
  simpa using Run.snoc Run.nil h

/-- Runs compose. -/
theorem Run.append (h : Run M s₀ es s out) (h' : Run M s es' s' out') : Run M s₀ (es ++ es') s' (out ++ out') := by
  induction h' with
  | nil => simpa using h
  | snoc _ hs ih => rw [← List.append_assoc, ← List.append_assoc]; exact Run.snoc ih hs

theorem run_of_exec : ∀ {es : List ε} {s s' : σ} {out : List ω}, M.exec s es = some (s', out) → Run M s es s' out
  | [], s, s', out, h => by
    simp only [exec, Option.some.injEq, Prod.mk.injEq] at h
    obtain ⟨rfl, rfl⟩ := h
    exact Run.nil
  | e :: es, s, s', out, h => by
    simp only [exec, Option.bind_eq_some_iff, Option.map_eq_some_iff, Prod.mk.injEq] at h
    obtain ⟨⟨s₁, o₁⟩, h₁, ⟨s₂, o₂⟩, h₂, rfl, rfl⟩ := h
    exact Run.append (Run.single h₁) (run_of_exec h₂)

/-- The last step of a run. -/
theorem Run.last (h : Run M s₀ (es ++ [e]) s' out') :
    ∃ s out o, Run M s₀ es s out ∧ M.step s e = some (s', o) ∧ out' = out ++ o := by
  generalize hes : es ++ [e] = es₁ at h
  cases h with
  | nil => simp at hes
  | snoc hr hs =>
    obtain ⟨rfl, he⟩ := List.append_inj' hes rfl
    obtain rfl : e = _ := by simpa using he
    exact ⟨_, _, _, hr, hs, rfl⟩

/-- The start and the rest of a run. -/
theorem Run.split : ∀ {es₂ : List ε} {s₂ : σ} {out₂ : List ω}, Run M s₀ (es ++ es₂) s₂ out₂ →
    ∃ s out out', Run M s₀ es s out ∧ Run M s es₂ s₂ out' ∧ out₂ = out ++ out' := by
  intro es₂
  induction es₂ using List.reverseRecOn with
  | nil => intro s₂ out₂ h; exact ⟨s₂, out₂, [], by simpa using h, Run.nil, by simp⟩
  | append_singleton es₂ e ih =>
    intro s₂ out₂ h
    rw [← List.append_assoc] at h
    obtain ⟨s₁, out₁, o, hr, hs, rfl⟩ := Run.last h
    obtain ⟨s, out, out', h₁, h₂, rfl⟩ := ih hr
    exact ⟨s, out, out' ++ o, h₁, Run.snoc h₂ hs, by simp⟩

/-- A run is determined by its events. -/
theorem Run.det (h : Run M s₀ es s out) : ∀ {s' : σ} {out' : List ω}, Run M s₀ es s' out' → s = s' ∧ out = out' := by
  induction h with
  | nil =>
    intro s' out' h'
    generalize hes : ([] : List ε) = es₁ at h'
    cases h' with
    | nil => exact ⟨rfl, rfl⟩
    | snoc => simp at hes
  | snoc _ hs ih =>
    intro s' out' h'
    obtain ⟨s₁, out₁, o₁, hr₁, hs₁, rfl⟩ := Run.last h'
    obtain ⟨rfl, rfl⟩ := ih hr₁
    rw [hs, Option.some.injEq, Prod.mk.injEq] at hs₁
    exact ⟨hs₁.1, by rw [hs₁.2]⟩

/-- The first step of a run. -/
theorem Run.first (h : Run M s₀ (e :: es) s out) :
    ∃ s₁ o out', M.step s₀ e = some (s₁, o) ∧ Run M s₁ es s out' ∧ out = o ++ out' := by
  obtain ⟨s₁, out₁, out', h₁, h₂, rfl⟩ := Run.split (show Run M s₀ ([e] ++ es) s out from h)
  obtain ⟨s₀', out₀, o, hr, hs, rfl⟩ := Run.last (show Run M s₀ ([] ++ [e]) s₁ out₁ from h₁)
  obtain ⟨rfl, rfl⟩ := Run.det hr Run.nil
  exact ⟨s₁, o, out', hs, h₂, by simp⟩

/-- What a step keeps, a run keeps, and what holds of all a step puts out then holds of all a run puts out. -/
theorem Run.inv {I : σ → Prop} {Q : ω → Prop} (h : Run M s₀ es s out) (h₀ : I s₀)
    (hstep : ∀ {s e s' o}, e ∈ es → I s → M.step s e = some (s', o) → I s' ∧ ∀ x ∈ o, Q x) :
    I s ∧ ∀ x ∈ out, Q x := by
  induction h with
  | nil => exact ⟨h₀, by simp⟩
  | snoc _ hs ih =>
    obtain ⟨hI, hout⟩ := ih fun he hi hs => hstep (List.mem_append_left _ he) hi hs
    obtain ⟨hI', ho⟩ := hstep (by simp) hI hs
    exact ⟨hI', fun x hx => (List.mem_append.1 hx).elim (hout x) (ho x)⟩

/-! ## Properties along a run -/

/-- `P` holds at every point of the run over `es`: of the events so far, the state and the outputs so far. -/
def Always (M : Machine σ ε ω) (s₀ : σ) (P : List ε → σ → List ω → Prop) (es : List ε) : Prop :=
  ∀ pre, pre <+: es → ∀ s out, Run M s₀ pre s out → P pre s out

/-- Every step of the run over `es` meets `C`: the events, the state and the outputs before it, and its own event. -/
def Steps (M : Machine σ ε ω) (s₀ : σ) (C : List ε → σ → List ω → ε → Prop) (es : List ε) : Prop :=
  ∀ pre e, pre ++ [e] <+: es → ∀ s out, Run M s₀ pre s out → C pre s out e

variable {I P : List ε → σ → List ω → Prop} {C : List ε → σ → List ω → ε → Prop} {E : ε → Prop}

theorem Always.mono (h : Always M s₀ P es) (hp : es' <+: es) : Always M s₀ P es' :=
  fun pre hpre => h pre (hpre.trans hp)

theorem Steps.mono (h : Steps M s₀ C es) (hp : es' <+: es) : Steps M s₀ C es' :=
  fun pre e hpre => h pre e (hpre.trans hp)

theorem steps_nil : Steps M s₀ C [] := by
  intro pre e hp
  simp at hp

/-- The steps of a longer run: those before, and the last. -/
theorem steps_snoc (hr : Run M s₀ es s out) (h : Steps M s₀ C es) (he : C es s out e) :
    Steps M s₀ C (es ++ [e]) := by
  intro pre e' hp s₁ out₁ hr₁
  rcases List.prefix_concat_iff.1 (by simpa using hp) with heq | hp'
  · obtain ⟨rfl, he'⟩ := List.append_inj' heq rfl
    obtain rfl : e' = e := by simpa using he'
    obtain ⟨rfl, rfl⟩ := Run.det hr hr₁
    exact he
  · exact h pre e' hp' s₁ out₁ hr₁

/-- An invariant that is kept by the steps meeting `C` holds after a run of such steps. -/
theorem inv_of_steps (h₀ : I [] s₀ []) (hgood : ∀ {es s out e s' o}, E e → Run M s₀ es s out → I es s out →
      M.step s e = some (s', o) → C es s out e → I (es ++ [e]) s' (out ++ o))
    (hr : Run M s₀ es s out) (hE : ∀ e ∈ es, E e) (hC : Steps M s₀ C es) : I es s out := by
  induction hr with
  | nil => exact h₀
  | @snoc es s out e s' o hr hs ih =>
    have hI := ih (fun e he => hE e (List.mem_append_left _ he)) (hC.mono (List.prefix_append _ _))
    exact hgood (hE e (by simp)) hr hI hs (hC es e (List.prefix_refl _) s out hr)

/-- **The exact condition**, for runs over events that meet `E`: where steps meeting `C` keep an invariant behind `P`
and all others break `P`, the property holds throughout a run iff each of its steps meets `C`. -/
theorem always_iff_steps (h₀ : I [] s₀ []) (hP : ∀ {es s out}, I es s out → P es s out)
    (hgood : ∀ {es s out e s' o}, E e → Run M s₀ es s out → I es s out → M.step s e = some (s', o) → C es s out e →
      I (es ++ [e]) s' (out ++ o))
    (hbad : ∀ {es s out e s' o}, E e → Run M s₀ es s out → I es s out → M.step s e = some (s', o) → ¬ C es s out e →
      ¬ P (es ++ [e]) s' (out ++ o))
    (hr : Run M s₀ es s out) (hE : ∀ e ∈ es, E e) : Always M s₀ P es ↔ Steps M s₀ C es := by
  constructor
  · intro hA
    induction hr with
    | nil => exact steps_nil
    | @snoc es s out e s' o hr hs ih =>
      have hE' : ∀ e ∈ es, E e := fun e he => hE e (List.mem_append_left _ he)
      have hC := ih hE' (hA.mono (List.prefix_append _ _))
      refine steps_snoc hr hC ?_
      -- the steps so far met `C`, so the invariant holds where the last one would break `P`
      by_contra hbadStep
      have hI := inv_of_steps h₀ hgood hr hE' hC
      exact hbad (hE e (by simp)) hr hI hs hbadStep (hA _ (List.prefix_refl _) _ _ (Run.snoc hr hs))
  · intro hC pre hp s₁ out₁ hr₁
    exact hP (inv_of_steps h₀ hgood hr₁ (fun e he => hE e (hp.subset he)) (hC.mono hp))

/-! ## Simulations -/

/-- **Simulation**: when each step of `M` is matched by a run of `N`, so is each run of `M`. The relation sees both
histories. -/
theorem Run.simulate {R : List ε → σ → List ω → List ε' → σ' → List ω' → Prop} {t₀ : σ'}
    (h₀ : R [] s₀ [] [] t₀ [])
    (hsim : ∀ {es s out e s' o fs t out'}, Run M s₀ es s out → Run N t₀ fs t out' → R es s out fs t out' →
      M.step s e = some (s', o) →
      ∃ gs t' o', Run N t gs t' o' ∧ R (es ++ [e]) s' (out ++ o) (fs ++ gs) t' (out' ++ o'))
    (hr : Run M s₀ es s out) : ∃ fs t out', Run N t₀ fs t out' ∧ R es s out fs t out' := by
  induction hr with
  | nil => exact ⟨[], t₀, [], Run.nil, h₀⟩
  | snoc hr hs ih =>
    obtain ⟨fs, t, out', hn, hR⟩ := ih
    obtain ⟨gs, t', o', hg, hR'⟩ := hsim hr hn hR hs
    exact ⟨fs ++ gs, t', out' ++ o', Run.append hn hg, hR'⟩

end Machine

end Lib
