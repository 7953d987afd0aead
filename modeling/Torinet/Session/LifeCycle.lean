import Torinet.TcpSession

/-!
# The life cycle of a session

The order in which a session should call its handlers is a small automaton (`Trace.next`): the opened handler once,
the message handler only after it, the closed handler once and neither of the other two afterwards. `LifeCycle` asks
for that order, and for a session that was closed, or has reported that it is, to answer so.

No code path ever sets the state to closed, and each half of a session goes on when the other one has failed. So a run
keeps the life cycle exactly as long as the session is never closed, nothing fails that is reported, and it is started
at most once (`lifeCycle_iff`).
-/

namespace Torinet

open Lib

namespace TcpSession

variable {s s' : TcpSession} {e : Event} {es : List Event} {out o : List Out} {id : Int} {ep : Endpoint} {mem : Memory}

/-! ## The order of the handler calls -/

/-- Which handlers have been called. -/
structure Trace where
  opened : Bool
  closed : Bool
deriving DecidableEq

/-- An output seen by the order of the handler calls, if it is one that may come next. -/
def Trace.next (t : Trace) : Out → Option Trace
  | .opened => if t.opened then none else some { t with opened := true }
  | .message _ => if t.opened ∧ ¬ t.closed then some t else none
  | .closed _ => if t.closed then none else some { t with closed := true }
  | _ => some t

/-- The handlers called in a list of outputs, if they were called in order. -/
def traceOf (out : List Out) : Option Trace := out.foldlM Trace.next ⟨false, false⟩

theorem traceOf_append (out o : List Out) : traceOf (out ++ o) = (traceOf out).bind fun t => o.foldlM Trace.next t := by
  simp [traceOf, List.foldlM_append]

/-- A handler call that closes is remembered. -/
theorem Trace.next_closed {t t' : Trace} {x : Out} (h : t.next x = some t') :
    t'.closed = true ↔ t.closed = true ∨ ∃ reason, x = .closed reason := by
  cases x <;> simp only [Trace.next] at h <;> (try split at h) <;> cases h <;> simp_all

/-- The closed handler has been called iff the trace says so. -/
theorem traceOf_closed {out : List Out} : ∀ {t : Trace}, traceOf out = some t →
    (t.closed = true ↔ ∃ reason, .closed reason ∈ out) := by
  induction out using List.reverseRecOn with
  | nil =>
    intro t h
    simp only [traceOf, List.foldlM_nil, Option.pure_def, Option.some.injEq] at h
    subst h
    simp
  | append_singleton out x ih =>
    intro t h
    rw [traceOf_append] at h
    obtain ⟨t₁, h₁, h₂⟩ := Option.bind_eq_some_iff.1 h
    have hx : t₁.next x = some t := by simpa using h₂
    rw [Trace.next_closed hx, ih h₁]
    simp [or_comm, exists_or, eq_comm]

/-! ## The life cycle -/

/-- The handlers are called in order; a session that was closed or has called its closed handler is neither open nor
has an endpoint. -/
def LifeCycle (es : List Event) (s : TcpSession) (out : List Out) : Prop :=
  (traceOf out).isSome = true ∧
    (.close ∈ es ∨ (∃ reason, .closed reason ∈ out) → s.isOpen = false ∧ s.getRemoteEndpoint = none)

/-- The session is not closed, the event is no failure that is reported, and it is not a second start. -/
def Quiet (es : List Event) (s : TcpSession) (_ : List Out) (e : Event) : Prop :=
  e ≠ .close ∧ ¬ s.Fails e ∧ (e.Starts → ∀ e' ∈ es, ¬ e'.Starts)

/-- What a run without closes, reported failures and second starts keeps. -/
structure Calm (es : List Event) (s : TcpSession) (out : List Out) : Prop where
  trace : ∃ b, traceOf out = some ⟨b, false⟩ ∧ (b = true ↔ ∃ e ∈ es, e.Starts) ∧ (s.reads ≠ [] → b = true)
  close : .close ∉ es

theorem Calm.lifeCycle (h : Calm es s out) : LifeCycle es s out := by
  obtain ⟨b, ht, -, -⟩ := h.trace
  refine ⟨by rw [ht]; rfl, ?_⟩
  rintro (hc | hc)
  · exact absurd hc h.close
  · rw [← traceOf_closed ht] at hc
    cases hc

theorem calm_new : Calm [] (new id ep mem) [] :=
  ⟨⟨false, rfl, by simp, by simp [new]⟩, by simp⟩

/-- Starting calls the opened handler, the first time it is called. -/
theorem Calm.starts (h : Calm es s out) (he : e.Starts) (hfirst : ∀ e' ∈ es, ¬ e'.Starts)
    (ho : o = [.opened, .asyncRead (.header hdrLength)]) : Calm (es ++ [e]) s' (out ++ o) := by
  obtain ⟨b, ht, hb, -⟩ := h.trace
  have hb : b = false := by
    cases b with
    | false => rfl
    | true => obtain ⟨e', he', hst⟩ := hb.1 rfl; exact absurd hst (hfirst e' he')
  subst hb ho
  refine ⟨⟨true, ?_, ?_, fun _ => rfl⟩, ?_⟩
  · rw [traceOf_append, ht]
    rfl
  · simp only [List.mem_append, List.mem_singleton, true_iff]
    exact ⟨e, Or.inr rfl, he⟩
  · intro hc
    rcases List.mem_append.1 hc with hc | hc
    · exact h.close hc
    · obtain rfl : e = .close := (List.mem_singleton.1 hc).symm
      exact he

/-- Other quiet steps call no handler, or the message handler while something is being read. -/
theorem Calm.goesOn (h : Calm es s out) (he : ¬ e.Starts) (hclose : e ≠ .close)
    (hreads : s'.reads ≠ [] → s.reads ≠ [])
    (ho : ∀ t : Trace, t.closed = false → (s.reads ≠ [] → t.opened = true) → o.foldlM Trace.next t = some t) :
    Calm (es ++ [e]) s' (out ++ o) := by
  obtain ⟨b, ht, hb, hr⟩ := h.trace
  refine ⟨⟨b, ?_, ?_, fun hne => hr (hreads hne)⟩, ?_⟩
  · rw [traceOf_append, ht]
    exact ho ⟨b, false⟩ rfl hr
  · rw [hb]
    simp [or_and_right, exists_or, he]
  · simp [h.close, Ne.symm hclose]

theorem reads_ne_nil {op : ReadOp} {i : Nat} (h : s.reads[i]? = some op) : s.reads ≠ [] := by
  intro hn
  rw [hn] at h
  cases h

/-- A quiet step keeps the invariant. -/
theorem calm_step (h : Calm es s out) (hs : s.step e = some (s', o)) (hq : Quiet es s out e) :
    Calm (es ++ [e]) s' (out ++ o) := by
  obtain ⟨hclose, hfail, hfirst⟩ := hq
  cases step_path hs with
  | start => exact h.starts (e := .start) trivial (hfirst trivial) rfl
  | connectOk hc => exact h.starts (e := .connectDone none) trivial (hfirst trivial) rfl
  | close => exact absurd rfl hclose
  | bodyError i n ec hop hn => exact absurd ⟨n, hop⟩ hfail
  | writeError i ec hi => exact absurd trivial hfail
  | headerError i n ec hop hn =>
    exact h.goesOn (by simp [Event.Starts]) hclose (fun _ => reads_ne_nil hop) fun t _ _ => rfl
  | headerRejected i n bs hop hbs hck | headerAccepted i n bs hop hbs hck =>
    exact h.goesOn (by simp [Event.Starts]) hclose (fun _ => reads_ne_nil hop) fun t _ _ => rfl
  | bodyOk i n bs hop hbs =>
    refine h.goesOn (by simp [Event.Starts]) hclose (fun _ => reads_ne_nil hop) fun t hc ht => ?_
    simp [List.foldlM_cons, Trace.next, hc, ht (reads_ne_nil hop)]
  | _ => exact h.goesOn (by simp [Event.Starts]) hclose (fun hne => hne) fun t _ _ => rfl

/-- **When the life cycle is kept**: throughout a run, iff the session is never closed, no write and no body read fails,
and it is started at most once. -/
theorem lifeCycle_iff (hr : machine.Run (new id ep mem) es s out) :
    machine.Always (new id ep mem) LifeCycle es ↔ machine.Steps (new id ep mem) Quiet es := by
  refine Machine.always_iff_steps (E := fun _ => True) calm_new Calm.lifeCycle
    (fun _ _ h hs hq => calm_step h hs hq) ?_ hr fun _ _ => trivial
  intro es s out e s' o _ hr hcalm hs hq hlc
  have hend : s'.getRemoteEndpoint ≠ none := by
    have := state_ne_closed (Machine.Run.snoc hr hs)
    simp [getRemoteEndpoint, this]
  by_cases hclose : e = .close
  · exact hend (hlc.2 (Or.inl (by simp [hclose]))).2
  by_cases hfail : s.Fails e
  · obtain ⟨reason, hm⟩ := (fails_iff hs).1 hfail
    exact hend (hlc.2 (Or.inr ⟨reason, List.mem_append_right _ hm⟩)).2
  have hsecond : e.Starts ∧ ∃ e' ∈ es, e'.Starts := by
    by_contra hn
    push Not at hn
    exact hq ⟨hclose, hfail, hn⟩
  obtain ⟨b, ht, hb, -⟩ := hcalm.trace
  obtain rfl : b = true := hb.2 hsecond.2
  have ho : ∃ o', o = .opened :: o' := by
    have hst := hsecond.1
    cases step_path hs <;> first | exact ⟨_, rfl⟩ | cases hst
  obtain ⟨o', rfl⟩ := ho
  have htrace := hlc.1
  rw [traceOf_append, ht] at htrace
  cases htrace

/-- A session that is started and closed. -/
def startClose : List Event := [.start, .close]

/-- It is still open. -/
theorem startClose_open : ∃ s out, machine.Run (new 0 ⟨"127.0.0.1", 5000⟩ .zero) startClose s out ∧
    ¬ LifeCycle startClose s out :=
  ⟨_, _, Machine.run_of_exec rfl, fun h => absurd (h.2 (Or.inl (by simp [startClose]))).1 (by decide)⟩

theorem lifeCycle_iff_startClose :
    machine.Always (new 0 ⟨"127.0.0.1", 5000⟩ .zero) LifeCycle startClose ↔
      machine.Steps (new 0 ⟨"127.0.0.1", 5000⟩ .zero) Quiet startClose :=
  lifeCycle_iff (Machine.run_of_exec rfl)

end TcpSession

end Torinet
