import Torinet.TcpServer

/-!
# The sessions of a server

A session runs on its own: what a run of a started server does to the session `r` is a run of that session, started
when it was accepted, over its own events and with its own outputs (`own_run`).
-/

namespace Torinet

open Lib

namespace TcpServer

variable {config : ServerConfig} {s s' : TcpServer} {e : Event} {es es' : List Event} {out o : List Out} {r q : Nat}
  {p : TcpSession}

/-- What can happen to a server that has been started once and is not stopped. -/
def Event.Running : Event → Prop
  | .start => False
  | .stop => False
  | _ => True

/-- The events of the session `r`. -/
def sessionEvents (r : Nat) (es : List Event) : List TcpSession.Event := es.filterMap fun
  | .session q ev => if q = r then some ev else none
  | _ => none

/-- The outputs of the session `r`. -/
def sessionOuts (r : Nat) (out : List Out) : List TcpSession.Out := out.filterMap fun x =>
  if x.1 = r then some x.2 else none

@[simp] theorem sessionEvents_append (es es' : List Event) :
    sessionEvents r (es ++ es') = sessionEvents r es ++ sessionEvents r es' := by
  simp [sessionEvents]

@[simp] theorem sessionOuts_append (out o : List Out) :
    sessionOuts r (out ++ o) = sessionOuts r out ++ sessionOuts r o := by
  simp [sessionOuts]

@[simp] theorem sessionOuts_map_self (o : List TcpSession.Out) : sessionOuts r (o.map fun x => (r, x)) = o := by
  simp [sessionOuts, List.filterMap_map]

theorem mem_sessionOuts {x : TcpSession.Out} : x ∈ sessionOuts r out ↔ (r, x) ∈ out := by
  simp only [sessionOuts, List.mem_filterMap]
  constructor
  · rintro ⟨y, hy, heq⟩
    split at heq
    · rename_i hr
      obtain rfl := Option.some.inj heq
      exact hr ▸ hy
    · cases heq
  · exact fun hx => ⟨_, hx, by simp⟩

theorem sessionOuts_map_ne (hq : q ≠ r) (o : List TcpSession.Out) : sessionOuts r (o.map fun x => (q, x)) = [] := by
  simp [sessionOuts, List.filterMap_map, hq]

/-- What an event of a session puts out is that session's. -/
theorem fst_of_mem {ev : TcpSession.Event} (hs : s.step (.session r ev) = some (s', o)) : ∀ x ∈ o, x.1 = r := by
  have hpath := step_path (e := .session r ev) hs
  cases hpath with
  | session _ _ p p' outs hp hps hf => simp
  | sessionFails _ _ p p' reason hp hps hf => simp

/-- A step delivers at most one message, the one in its session's buffer, and then asks for a header. -/
theorem outs_of_message {m : Msg} (hs : s.step e = some (s', o)) (hm : (r, .message m) ∈ o) :
    ∃ i bs p, e = .session r (.readDone i (.ok bs)) ∧ s'.objs[r]? = some p ∧ m = p.msg ∧
      o = [(r, .message m), (r, .asyncRead (.header hdrLength))] := by
  cases step_path hs with
  | stop =>
    simp only [stop] at hm
    split at hm <;> simp at hm
  | session q ev p p' outs hp hps hf =>
    obtain ⟨x, hx, heq⟩ := List.mem_map.1 hm
    obtain ⟨rfl, rfl⟩ := Prod.mk.inj heq
    obtain ⟨i, bs, rfl, rfl, rfl⟩ := TcpSession.outs_of_message hps hx
    exact ⟨i, bs, p', rfl, List.getElem?_set_self (List.getElem?_eq_some_iff.1 hp).1, rfl, rfl⟩
  | _ => simp at hm

/-- What a step is to the session `r`: its own step, nothing, or its acceptance. -/
inductive SessionStep (s : TcpServer) (e : Event) (s' : TcpServer) (o : List Out) (r : Nat) : Prop
  | own (ev : TcpSession.Event) (p p' : TcpSession) (outs : List TcpSession.Out) (he : e = .session r ev)
      (hp : s.objs[r]? = some p) (hs : p.step ev = some (p', outs)) (hp' : s'.objs[r]? = some p')
      (ho : o = outs.map fun x => (r, x)) : SessionStep s e s' o r
  | other (he : ∀ ev, e ≠ .session r ev) (hp : s'.objs[r]? = s.objs[r]?) (ho : sessionOuts r o = []) :
      SessionStep s e s' o r
  | accepted (id : Int) (remoteEndpoint : Endpoint) (mem : TcpSession.Memory) (he : ∀ ev, e ≠ .session r ev)
      (hnone : s.objs[r]? = none) (hp : s'.objs[r]? = some (TcpSession.new id remoteEndpoint mem).start.1)
      (ho : sessionOuts r o = (TcpSession.new id remoteEndpoint mem).start.2) : SessionStep s e s' o r

/-- **What a step is to a session.** -/
theorem sessionStep_of_step (he : e.Running) (hs : s.step e = some (s', o)) (r : Nat) : SessionStep s e s' o r := by
  cases step_path hs with
  | start | stop => exact he.elim
  | acceptError ec ha | acceptRefused a ha hfull | stale res ha hres => exact .other (by simp) rfl rfl
  | acceptOk a id free ha hroom hf =>
    by_cases hr : r = s.objs.length
    · refine .accepted id a.remoteEndpoint a.mem (by simp) (by simp [hr]) (by simp [accepted, hr]) ?_
      simp [sessionOuts, hr, TcpSession.start, TcpSession.read]
    · refine .other (by simp) ?_ (by simp [sessionOuts, Ne.symm hr])
      by_cases hlt : r < s.objs.length
      · simp [accepted, List.getElem?_append_left hlt]
      · -- beyond the new session there is none, before and after
        simp only [accepted]
        rw [List.getElem?_eq_none (by simp; omega), List.getElem?_eq_none (by omega)]
  | session q ev p p' outs hp hps hf =>
    by_cases hqr : q = r
    · subst hqr
      exact .own ev p p' outs rfl hp hps (List.getElem?_set_self (List.getElem?_eq_some_iff.1 hp).1) rfl
    · exact .other (by simp [hqr]) (List.getElem?_set_ne hqr) (sessionOuts_map_ne hqr outs)
  | sessionFails q ev p p' reason hp hps hf =>
    by_cases hqr : q = r
    · subst hqr
      exact .own ev p p' [.closed reason] rfl hp hps (List.getElem?_set_self (List.getElem?_eq_some_iff.1 hp).1) rfl
    · exact .other (by simp [hqr]) (List.getElem?_set_ne hqr) (sessionOuts_map_ne hqr [.closed reason])

theorem sessionEvents_of_ne (he : ∀ ev, e ≠ .session r ev) : sessionEvents r [e] = [] := by
  cases e with
  | session q ev =>
    have hqr : q ≠ r := fun heq => he ev (by rw [heq])
    simp [sessionEvents, hqr]
  | _ => rfl

/-- The session `r` has run on its own. -/
structure OwnRun (es : List Event) (s : TcpServer) (out : List Out) (r : Nat) : Prop where
  present : ∀ p, s.objs[r]? = some p → ∃ id remoteEndpoint mem,
    TcpSession.machine.Run (.new id remoteEndpoint mem) (.start :: sessionEvents r es) p (sessionOuts r out)
  absent : s.objs[r]? = none → sessionEvents r es = [] ∧ sessionOuts r out = []

theorem ownRun_step (he : e.Running) (h : OwnRun es s out r) (hs : s.step e = some (s', o)) :
    OwnRun (es ++ [e]) s' (out ++ o) r := by
  rcases sessionStep_of_step he hs r with ⟨ev, p, p', outs, rfl, hp, hps, hp', rfl⟩ | ⟨hne, hobj, ho⟩ |
    ⟨id, remoteEndpoint, mem, hne, hnone, hobj, ho⟩
  · refine ⟨fun p₁ hp₁ => ?_, fun hnone => by rw [hp'] at hnone; cases hnone⟩
    obtain rfl : p' = p₁ := Option.some.inj (hp'.symm.trans hp₁)
    obtain ⟨id, remoteEndpoint, mem, hr⟩ := h.present p hp
    have hev : sessionEvents r [.session r ev] = [ev] := by simp [sessionEvents]
    refine ⟨id, remoteEndpoint, mem, ?_⟩
    rw [sessionEvents_append, hev, sessionOuts_append, sessionOuts_map_self, ← List.cons_append]
    exact hr.snoc hps
  · have hes : sessionEvents r (es ++ [e]) = sessionEvents r es := by
      rw [sessionEvents_append, sessionEvents_of_ne hne, List.append_nil]
    have hout : sessionOuts r (out ++ o) = sessionOuts r out := by rw [sessionOuts_append, ho, List.append_nil]
    exact ⟨fun p hp => hes ▸ hout ▸ h.present p (hobj ▸ hp), fun hnone => hes ▸ hout ▸ h.absent (hobj ▸ hnone)⟩
  · obtain ⟨hev, hout⟩ := h.absent hnone
    refine ⟨fun p hp => ⟨id, remoteEndpoint, mem, ?_⟩, fun hnone' => by rw [hobj] at hnone'; cases hnone'⟩
    obtain rfl := Option.some.inj (hobj.symm.trans hp)
    rw [sessionEvents_append, sessionEvents_of_ne hne, hev, sessionOuts_append, hout, ho]
    exact Machine.Run.single rfl

/-- **A session runs on its own.** -/
theorem own_run (hr : machine.Run (new config).listen es s out) (hes : ∀ e ∈ es, e.Running)
    (hp : s.objs[r]? = some p) : ∃ id remoteEndpoint mem,
      TcpSession.machine.Run (.new id remoteEndpoint mem) (.start :: sessionEvents r es) p (sessionOuts r out) := by
  have h : OwnRun es s out r := by
    clear hp
    induction hr with
    | nil => exact ⟨fun p hp => by simp [listen, startAccept, new] at hp, fun _ => ⟨rfl, rfl⟩⟩
    | snoc _ hs ih =>
      exact ownRun_step (hes _ (by simp)) (ih fun e he => hes e (List.mem_append_left _ he)) hs
  exact h.present p hp

end TcpServer

end Torinet
