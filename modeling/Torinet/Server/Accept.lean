import Torinet.Server.Registry

/-!
# The acceptor

Each accept that completes is to be followed by another one. The handler returns early when the accept has failed, and
when the server is full, and then starts none; nothing else ever does. So a started server goes on accepting iff no
accept of its run completes with an error or while the server is full (`accepting_iff`).
-/

namespace Torinet

open Lib

namespace TcpServer

variable {config : ServerConfig} {s s' : TcpServer} {e : Event} {es : List Event} {out o : List Out}

/-- A started server has one accept outstanding; and while it has room, a connection that arrives becomes a session, and
again one accept is outstanding. -/
def Accepting (_ : List Event) (s : TcpServer) (_ : List Out) : Prop :=
  s.state = .start → s.accepts = 1 ∧ (s.sessions.size < s.config.maxSession → ∀ a, ∃ s' o,
    s.step (.accept (.ok a)) = some (s', o) ∧ s'.objs.length = s.objs.length + 1 ∧ s'.accepts = 1)

/-- The event is no accept that completes with an error or while the server is full. -/
def AcceptsWithRoom (_ : List Event) (s : TcpServer) (_ : List Out) (e : Event) : Prop :=
  ∀ res, e = .accept res → res.isOk ∧ s.sessions.size < s.config.maxSession

/-- What a run keeps in which every accept succeeds and finds room. -/
structure Armed (config : ServerConfig) (s : TcpServer) (out : List Out) : Prop extends Registry config s out where
  accepts : s.accepts = 1

theorem Armed.accepting (h : Armed config s out) : Accepting es s out := by
  refine fun _ => ⟨h.accepts, fun hlt a => ?_⟩
  rw [h.config_eq] at hlt
  obtain ⟨id, free, hf⟩ := List.exists_cons_of_ne_nil (h.free_ne_nil hlt)
  have hroom : ¬ (s.state = .stop ∨ s.sessions.size ≥ s.config.maxSession) := by
    rw [h.started, h.config_eq]
    simp [hlt]
  refine ⟨s.accepted a id free, [(s.objs.length, .opened), (s.objs.length, .asyncRead (.header hdrLength))], ?_, ?_, ?_⟩
  · simp only [step, h.accepts, one_ne_zero, if_false, handleAccept, hf]
    rw [if_neg hroom]
    simp [accepted, startAccept, h.accepts, TcpSession.start, TcpSession.read]
  · simp [accepted]
  · simp [accepted, h.accepts]

/-- **A step keeps it**, if it is no accept that fails or finds the server full. -/
theorem armed_step (he : e.Running) (h : Armed config s out) (hs : s.step e = some (s', o))
    (hroom : AcceptsWithRoom es s out e) : Armed config s' (out ++ o) := by
  have haccepts : s'.accepts = 1 := by
    cases step_path hs with
    | start | stop => exact he.elim
    | acceptError ec ha => exact absurd (hroom _ rfl).1 (by simp [Except.isOk, Except.toBool])
    | acceptRefused a ha hfull =>
      have hlt := (hroom _ rfl).2
      rcases hfull with hstop | hfull
      · rw [h.started] at hstop
        cases hstop
      · omega
    | acceptOk a id free ha hroom hf => simp [accepted, h.accepts]
    | stale res ha hres => exact h.accepts
    | session r ev p p' outs hp hps hf => exact h.accepts
    | sessionFails r ev p p' reason hp hps hf => exact h.accepts
  exact { registry_step he h.toRegistry hs with accepts := haccepts }

/-- After an accept that fails or finds the server full, none is outstanding. -/
theorem not_accepting_of_noRoom (h : Armed config s out) (hs : s.step e = some (s', o))
    (hno : ¬ AcceptsWithRoom es s out e) : ¬ Accepting (es ++ [e]) s' (out ++ o) := by
  simp only [AcceptsWithRoom] at hno
  push Not at hno
  obtain ⟨res, rfl, hres⟩ := hno
  have hnone : s'.state = .start ∧ s'.accepts = 0 := by
    have hpath := step_path (e := .accept res) hs
    cases hpath with
    | acceptError ec ha => exact ⟨h.started, by simp [h.accepts]⟩
    | acceptRefused a ha hfull => exact ⟨h.started, by simp [h.accepts]⟩
    | acceptOk a id free ha hroom hf =>
      have hfull := hres rfl
      rw [not_or] at hroom
      omega
  intro hacc
  have := (hacc hnone.1).1
  omega

/-- **When a server goes on accepting**: throughout a run of a started server, iff every accept of the run completes
without error, while fewer than `maxSession` sessions are registered. -/
theorem accepting_iff (hr : machine.Run (new config).listen es s out) (hes : ∀ e ∈ es, e.Running) :
    machine.Always (new config).listen Accepting es ↔ machine.Steps (new config).listen AcceptsWithRoom es :=
  Machine.always_iff_steps (I := fun _ s out => Armed config s out)
    { registry_listen config with accepts := rfl } Armed.accepting
    (fun he _ h hs hroom => armed_step he h hs hroom) (fun _ _ h hs hno => not_accepting_of_noRoom h hs hno) hr hes

/-- A server with room for one session accepts a second connection; then the first session fails, and is closed. -/
def fullOnce : List Event :=
  [.accept (.ok .loopback), .accept (.ok .loopback), .session 0 (.send .ref .zero),
    .session 0 (.writeDone 0 (some (.other 104)))]

/-- No accept is outstanding, though nobody is connected. -/
theorem fullOnce_not_accepting : ∃ s out, (∀ e ∈ fullOnce, e.Running) ∧
    machine.Run (new ⟨1⟩).listen fullOnce s out ∧ ¬ Accepting fullOnce s out := by
  refine ⟨_, _, ?_, Machine.run_of_exec rfl, fun h => absurd (h rfl).1 (by decide)⟩
  simp [fullOnce, Event.Running]

theorem accepting_iff_fullOnce :
    machine.Always (new ⟨1⟩).listen Accepting fullOnce ↔ machine.Steps (new ⟨1⟩).listen AcceptsWithRoom fullOnce :=
  accepting_iff (Machine.run_of_exec rfl) (by simp [fullOnce, Event.Running])

end TcpServer

end Torinet
