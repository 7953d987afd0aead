import Torinet.Chat.Frames
import Torinet.Server.Registry
import Torinet.Session.Send

/-!
# The relay of chat messages

A run of a chat server is a run of its server (`Mirrors`), in which each call of `nfMessage` has become a `send` to
every registered session but the sender. Seen from one session, its server's run is a run of its own, and the messages
sent in it are those relayed to it (`relayed`), in the order they were handled; so what its outbox says of them holds of
the relay (`relay_exactly_once`).
-/

namespace Torinet

open Lib

namespace ChatServer

open TcpServer (sessionEvents sessionOuts)
open TcpSession (sentMsgs written)

variable {config : ServerConfig} {s s' : ChatServer} {e : Event} {es : List Event} {out o : List Out}
  {fs : List TcpServer.Event} {t t' : TcpServer} {outs outs' : List TcpServer.Out} {r q : Nat} {m : Msg}

/-! ## Chat servers as servers -/

/-- The messages that are to be relayed to the session `r`: those handled while it was registered, and sent by another
one. -/
def relayed (r : Nat) (out : List Out) : List Msg := (handled out).filterMap fun h =>
  if r ∈ h.2.2 ∧ h.1 ≠ r then some h.2.1 else none

/-- No write fails. -/
def NoWriteError (es : List Event) : Prop := ∀ r i ec, .writeDone r i (some ec) ∉ es

/-- The server has run as the chat server's own, the messages relayed to a session being sent there. -/
structure Mirrors (es : List Event) (s : ChatServer) (out : List Out) (fs : List TcpServer.Event) (t : TcpServer)
    (outs : List TcpServer.Out) : Prop where
  server : t = s.server
  running : ∀ f ∈ fs, f.Running
  outs : ∀ r, sessionOuts r outs = sessionOuts r (serverOuts out)
  sent : ∀ r, sentMsgs (sessionEvents r fs) = relayed r out
  writes : NoWriteError es → ∀ r, TcpSession.NoWriteError (sessionEvents r fs)

@[simp] theorem relayed_append (out o : List Out) : relayed r (out ++ o) = relayed r out ++ relayed r o := by
  simp [relayed]

theorem sentMsgs_append (evs evs' : List TcpSession.Event) :
    sentMsgs (evs ++ evs') = sentMsgs evs ++ sentMsgs evs' := by
  simp [sentMsgs]

/-- The events of a chat server send nothing by themselves. -/
theorem sentMsgs_toServer (e : Event) : sentMsgs (sessionEvents r [e.toServer]) = [] := by
  cases e with
  | accept res => rfl
  | readDone q i res => by_cases hq : q = r <;> simp [sessionEvents, Event.toServer, sentMsgs, hq]
  | writeDone q i ec => by_cases hq : q = r <;> simp [sessionEvents, Event.toServer, sentMsgs, hq]

theorem mem_sessionEvents_toServer {ev : TcpSession.Event} (h : ev ∈ sessionEvents r [e.toServer]) :
    ∀ i ec, ev = .writeDone i (some ec) → e = .writeDone r i (some ec) := by
  rintro i ec rfl
  cases e with
  | accept res => cases h
  | readDone q j res => by_cases hq : q = r <;> simp [sessionEvents, Event.toServer, hq] at h
  | writeDone q j res =>
    by_cases hq : q = r
    · simp only [sessionEvents, Event.toServer, List.filterMap_cons, hq, if_true, List.filterMap_nil,
        List.mem_singleton, TcpSession.Event.writeDone.injEq] at h
      rw [hq, h.1, h.2]
    · simp [sessionEvents, Event.toServer, hq] at h

theorem mem_registered : r ∈ registered t ↔ ∃ id : Int, t.sessions[id]? = some r := by
  constructor
  · intro hr
    obtain ⟨x, hx, rfl⟩ := List.mem_map.1 hr
    exact ⟨x.1, Std.TreeMap.mem_toList_iff_getElem?_eq_some.1 hx⟩
  · rintro ⟨id, hid⟩
    exact List.mem_map.2 ⟨(id, r), Std.TreeMap.mem_toList_iff_getElem?_eq_some.2 hid, rfl⟩

/-- The loop over the registry sends the message once to every registered session but the sender. -/
theorem sessionEvents_sends (hnd : (registered t).Nodup) : sessionEvents q (sends t r m) =
    if q ∈ registered t ∧ r ≠ q then [.send .ref m] else [] := by
  unfold sends
  generalize registered t = l at hnd ⊢
  induction l with
  | nil => simp [sessionEvents]
  | cons x l ih =>
    obtain ⟨hx, hl⟩ := List.nodup_cons.1 hnd
    have ih := ih hl
    by_cases hrx : r = x
    · subst hrx
      rw [List.filter_cons_of_neg (by simp), ih]
      by_cases hrq : r = q <;> simp [hrq, eq_comm]
    · rw [List.filter_cons_of_pos (by simpa using hrx), List.map_cons, ← List.singleton_append,
        TcpServer.sessionEvents_append, ih]
      by_cases hxq : x = q
      · subst hxq
        simp [sessionEvents, hx, hrx]
      · simp [sessionEvents, hxq, Ne.symm hxq]

/-- What the loop over the registry puts out belongs to other sessions than the sender. -/
theorem sessionOuts_sends (hx : TcpServer.machine.Run t (sends t r m) t' outs) : sessionOuts r outs = [] := by
  have hne : ∀ x ∈ outs, x.1 ≠ r := by
    refine (hx.inv (I := fun _ => True) trivial fun {t₁ f t₂ o} hf _ hs => ⟨trivial, fun x hxo => ?_⟩).2
    obtain ⟨q, hqr, rfl⟩ := of_mem_sends hf
    have hs : t₁.step (.session q (.send .ref m)) = some (t₂, o) := hs
    rw [TcpServer.fst_of_mem hs x hxo]
    exact hqr
  exact List.filterMap_eq_nil_iff.2 fun x hxo => by simp [hne x hxo]

/-- A session that sends a message. -/
theorem step_send (hp : t.objs[r]? = some p) (m : Msg) : t.step (.session r (.send .ref m)) =
    some (t.setObj r (p.sendRef m).1, (p.sendRef m).2.map fun x => (r, x)) := by
  obtain ⟨t₁, o, hs⟩ : ∃ t₁ o, t.step (.session r (.send .ref m)) = some (t₁, o) := by
    simp [TcpServer.step, TcpServer.sessionStep, hp, TcpSession.step]
  rw [hs]
  have hpath := TcpServer.step_path (e := .session r (.send .ref m)) hs
  cases hpath with
  | session _ _ p₁ p' outs hp₁ hps hf =>
    obtain rfl : p = p₁ := Option.some.inj (hp.symm.trans hp₁)
    obtain ⟨rfl, rfl⟩ := Prod.mk.inj (Option.some.inj (show some (p.sendRef m) = some (p', outs) from hps))
    rfl
  | sessionFails _ _ p₁ p' reason hp₁ hps hf => exact hf.elim

/-- A loop of `send` is always defined: each session in it sends the message, and nothing else changes. -/
theorem exec_sends : ∀ {l : List Nat} {t : TcpServer} (m : Msg), l.Nodup →
    (∀ q ∈ l, ∃ p, t.objs[q]? = some p) →
    ∃ t' outs, TcpServer.machine.exec t (l.map fun q => .session q (.send .ref m)) = some (t', outs) ∧
      t'.sessions = t.sessions ∧
      (∀ q, t'.objs[q]? = if q ∈ l then (t.objs[q]?).map fun p => (p.sendRef m).1 else t.objs[q]?) ∧
      ∀ q, sessionOuts q outs = if q ∈ l then ((t.objs[q]?).map fun p => (p.sendRef m).2).getD [] else []
  | [], t, m, _, _ => ⟨t, [], rfl, rfl, fun q => by simp, fun q => rfl⟩
  | q :: l, t, m, hnd, hl => by
    obtain ⟨hq, hnd⟩ := List.nodup_cons.1 hnd
    obtain ⟨p, hp⟩ := hl q (by simp)
    have hs : TcpServer.machine.step t (.session q (.send .ref m)) = _ := step_send hp m
    have hlt := (List.getElem?_eq_some_iff.1 hp).1
    have hother : ∀ q' ≠ q, (t.setObj q (p.sendRef m).1).objs[q']? = t.objs[q']? := fun q' hne =>
      List.getElem?_set_ne hne.symm
    obtain ⟨t', outs, hx, hsess, hobjs, houts⟩ := exec_sends (l := l) (t := t.setObj q (p.sendRef m).1) m hnd
      fun q' hq' => by
        rw [hother q' (ne_of_mem_of_not_mem hq' hq)]
        exact hl q' (List.mem_cons_of_mem _ hq')
    refine ⟨t', (p.sendRef m).2.map (fun x => (q, x)) ++ outs, ?_, hsess, fun q' => ?_, fun q' => ?_⟩
    · simp [Machine.exec, hs, hx]
    · by_cases hqq : q' = q
      · subst hqq
        rw [hobjs, if_neg hq, if_pos (by simp), hp]
        exact List.getElem?_set_self hlt
      · simp [hobjs, hother q' hqq, hqq]
    · rw [TcpServer.sessionOuts_append, houts]
      by_cases hqq : q' = q
      · subst hqq
        simp [hq, hp]
      · rw [TcpServer.sessionOuts_map_ne (Ne.symm hqq), hother q' hqq]
        simp [hqq]

theorem sends_running : ∀ f ∈ sends t r m, f.Running := by
  intro f hf
  obtain ⟨q, -, rfl⟩ := of_mem_sends hf
  trivial

/-- A step of the chat server is a step of its server. -/
theorem Mirrors.serverStep (h : Mirrors es s out fs s.server outs) (ho : serverOuts o = outs') (hh : handled o = []) :
    Mirrors (es ++ [e]) ⟨t⟩ (out ++ o) (fs ++ [e.toServer]) t (outs ++ outs') where
  server := rfl
  running f hf := by
    rcases List.mem_append.1 hf with hf | hf
    · exact h.running f hf
    · rw [List.mem_singleton] at hf
      exact hf ▸ toServer_running e
  outs r := by rw [TcpServer.sessionOuts_append, serverOuts_append, TcpServer.sessionOuts_append, h.outs r, ho]
  sent r := by
    have hr : relayed r o = [] := by simp [relayed, hh]
    rw [TcpServer.sessionEvents_append, sentMsgs_append, sentMsgs_toServer, relayed_append, h.sent r, hr]
  writes hok r i ec hm := by
    rw [TcpServer.sessionEvents_append] at hm
    rcases List.mem_append.1 hm with hm | hm
    · exact h.writes (fun r i ec hm => hok r i ec (List.mem_append_left _ hm)) r i ec hm
    · have he := mem_sessionEvents_toServer hm i ec rfl
      exact hok r i ec (by simp [he])

/-- A message that is relayed is sent to the sessions it is relayed to. -/
theorem Mirrors.relay (cmd : Option RedisCommand) {x : TcpSession.Out}
    (h : Mirrors (es ++ [e]) ⟨t⟩ (out ++ [.server (r, .message m), .server (r, x)]) fs t outs)
    (hnd : (registered t).Nodup) (hx : TcpServer.machine.Run t (sends t r m) t' outs') :
    Mirrors (es ++ [e]) ⟨t'⟩
      (out ++ (.server (r, .message m) :: .nfMessage r m (registered t) :: .redis cmd :: outs'.map .server ++
        [.server (r, x)]))
      (fs ++ sends t r m) t' (outs ++ outs') where
  server := rfl
  running f hf := (List.mem_append.1 hf).elim (h.running f) (sends_running f)
  outs q := by
    have hq := h.outs q
    rw [TcpServer.sessionOuts_append, hq]
    by_cases hrq : r = q
    · subst hrq
      have hnil := sessionOuts_sends hx
      simp only [serverOuts_append, TcpServer.sessionOuts_append, hnil]
      simp [serverOuts, List.filterMap_map, sessionOuts] at hnil ⊢
      exact hnil
    · simp [serverOuts, sessionOuts, hrq, List.filterMap_map]
  sent q := by
    rw [TcpServer.sessionEvents_append, sentMsgs_append, h.sent q, sessionEvents_sends hnd]
    by_cases hq : q ∈ registered t ∧ r ≠ q <;> simp [relayed, handled, sentMsgs, hq, List.filterMap_map]
  writes hok q i ec hm := by
    rw [TcpServer.sessionEvents_append, sessionEvents_sends hnd] at hm
    rcases List.mem_append.1 hm with hm | hm
    · exact h.writes hok q i ec hm
    · split at hm <;> simp at hm

/-- **A chat server runs as its server does.** -/
theorem mirrors_run (hr : machine.Run ((new config).start true) es s out) :
    ∃ fs t outs, TcpServer.machine.Run (TcpServer.new config).listen fs t outs ∧ Mirrors es s out fs t outs := by
  refine Machine.Run.simulate (R := Mirrors) ?_ ?_ hr
  · exact ⟨rfl, by simp, fun r => rfl, fun r => rfl, fun _ r i ec hm => by cases hm⟩
  · intro es s out e s' o fs t outs _ hn hR hs
    -- a relay is the server's own step, which delivers the message, and then the sends of the loop
    obtain rfl := hR.server
    cases step_path hs with
    | server t' outs' o hstep ho hh hm =>
      exact ⟨[e.toServer], t', outs', Machine.Run.single hstep, hR.serverStep ho hh⟩
    | relay t₁ t' r i bs p cmd outs' he hstep hp hm hx =>
      have hmid := hR.serverStep (e := e) (t := t₁)
        (o := [.server (r, .message p.msg), .server (r, .asyncRead (.header hdrLength))]) rfl rfl
      have hreg := TcpServer.registry_run (hn.snoc hstep) hmid.running
      have hrun := Machine.run_of_exec hx
      refine ⟨[e.toServer] ++ sends t₁ r p.msg, t', _, (Machine.Run.single hstep).append hrun, ?_⟩
      simpa [serverOuts] using hmid.relay cmd hreg.nodup_values hrun

/-! ## The relay -/

/-- What is relayed to a session goes through its outbox: it is written in order, whole and once, or still waits; and
unless a write has failed, something is being written while something waits. -/
theorem written_relayed (hr : machine.Run ((new config).start true) es s out) {p : TcpSession}
    (hp : s.server.objs[r]? = some p) :
    written (sessionOuts r (serverOuts out)) <+: (relayed r out).flatMap Msg.wire ∧
      relayed r out = (relayed r out).take p.front ++ p.sendQue ∧
      written (sessionOuts r (serverOuts out)) =
        ((relayed r out).take p.front ++ p.sendQue.head?.toList).flatMap Msg.wire ∧
      (NoWriteError es → (p.writes ≠ [] ↔ p.sendQue ≠ [])) := by
  obtain ⟨fs, t, outs, hn, hR⟩ := mirrors_run hr
  obtain rfl := hR.server
  obtain ⟨id, remoteEndpoint, mem, hown⟩ := TcpServer.own_run hn hR.running hp
  have h := TcpSession.sends_run hown
  have hsent : (TcpSession.outbox (.start :: sessionEvents r fs)).sent = relayed r out := by
    rw [TcpSession.sent_outbox, ← hR.sent r]
    rfl
  refine ⟨?_, ?_, ?_, fun hok => TcpSession.writes_iff_queue hown fun i ec hm => ?_⟩
  · rw [← hR.outs r, h.bytes, ← hsent]
    exact (Outbox.handed_prefix _).flatMap Msg.wire
  · rw [h.front, h.queue, ← hsent]
    exact (Outbox.take_append_queue _).symm
  · rw [← hR.outs r, h.front, h.queue, ← hsent, h.bytes, Outbox.handed_eq]
  · rcases List.mem_cons.1 hm with hm | hm
    · cases hm
    · exact hR.writes hok r i ec hm

/-- Nothing is registered, or removed, when a message is delivered. -/
theorem registered_of_message {i : Nat} {bs : List UInt8} {x : TcpServer.Out}
    (hs : t.step (.session r (.readDone i (.ok bs))) = some (t', [(r, .message m), x])) :
    registered t' = registered t := by
  generalize houts : [(r, TcpSession.Out.message m), x] = outs at hs
  have hpath : TcpServer.Path t (.session r (.readDone i (.ok bs))) t' outs := TcpServer.step_path hs
  cases hpath with
  | session => rfl
  | sessionFails _ _ p p' reason hp hps hf => exact hf.elim

/-- What is handled in a step, with what is registered at that moment. -/
theorem handled_step (hs : s.step e = some (s', o)) :
    handled o = [] ∨ ∃ r m, handled o = [(r, m, registered s.server)] := by
  cases step_path hs with
  | server t outs o hstep ho hh hm => exact Or.inl hh
  | relay t t' r i bs p cmd outs he hstep hp hm hx =>
    subst he
    have hreg : registered t = registered s.server := registered_of_message hstep
    exact Or.inr ⟨r, p.msg, by simp [handled, List.filterMap_map, hreg]⟩

theorem mem_handled (hs : s.step e = some (s', o)) {x : Nat × Msg × List Nat} (hx : x ∈ handled o) :
    r ∈ x.2.2 ↔ ∃ id : Int, s.server.sessions[id]? = some r := by
  rcases handled_step hs with hnil | ⟨q, m, hone⟩
  · rw [hnil] at hx
    cases hx
  · rw [hone, List.mem_singleton] at hx
    rw [hx]
    exact mem_registered

/-- **Exactly-once, totally ordered relay.** In a run of a chat server in which the chat messages are in range:
`nfMessage` handles the chat messages that are delivered, in order, and goes through what is registered at that moment;
the bytes written to a session are a prefix of the concatenation of the wire images of those handled while it was
registered and sent by another one, the messages of the rest being those that wait, of which one is being written unless
a write has failed; and if the reads of a sender bring all that was asked for, the wire images of its messages that were
handled are chunks of the bytes received from it, in order. -/
theorem relay_exactly_once (hr : machine.Run ((new config).start true) es s out)
    (hrange : ∀ h ∈ handled out, h.2.1.InRange) :
    (handled out).map (fun h => (h.1, h.2.1)) = chatMessages (serverOuts out) ∧
    (∀ e s' o, s.step e = some (s', o) → ∀ h ∈ handled o, ∀ r,
      r ∈ h.2.2 ↔ ∃ id : Int, s.server.sessions[id]? = some r) ∧
    (∀ r p, s.server.objs[r]? = some p →
      written (sessionOuts r (serverOuts out)) <+: (relayed r out).flatMap Msg.wire ∧
      relayed r out = (relayed r out).take p.front ++ p.sendQue ∧
      written (sessionOuts r (serverOuts out)) =
        ((relayed r out).take p.front ++ p.sendQue.head?.toList).flatMap Msg.wire ∧
      (NoWriteError es → (p.writes ≠ [] ↔ p.sendQue ≠ []))) ∧
    ∀ q, machine.Steps ((new config).start true) (FullReads q) es →
      ∃ chunks, chunks.flatten <+: received q es ∧ ((handledFrom q out).map Msg.wire).Sublist chunks := by
  refine ⟨handled_eq hr, fun e s' o hs h hh r => mem_handled hs hh, fun r p hp => written_relayed hr hp,
    fun q hfull => ?_⟩
  obtain ⟨hpresent, habsent⟩ := framed_run hr hrange hfull
  cases hp : s.server.objs[q]? with
  | none =>
    obtain ⟨hrec, hms⟩ := habsent hp
    exact ⟨[], by simp [hrec], by simp [hms]⟩
  | some p =>
    obtain ⟨chunks, rest, hstream, hsub, -⟩ := hpresent p hp
    exact ⟨chunks, hstream ▸ List.prefix_append _ _, hsub⟩

/-- Of two clients, the first says hello. -/
def saysHello : List Event :=
  [.accept (.ok .loopback), .accept (.ok .loopback), .readDone 0 0 (.ok [1, 0, 2, 0, 3, 0, 0, 0]),
    .readDone 0 0 (.ok [104, 105])]

theorem fullReads_saysHello : machine.Steps ((new ⟨2⟩).start true) (FullReads 0) saysHello := by
  have h₀ : machine.Steps ((new ⟨2⟩).start true) (FullReads 0) [] := Machine.steps_nil
  have h₁ := Machine.steps_snoc .nil h₀ (fullReads_accept (.ok .loopback))
  have h₂ := Machine.steps_snoc (Machine.run_of_exec rfl) h₁ (fullReads_accept (.ok .loopback))
  have h₃ := Machine.steps_snoc (Machine.run_of_exec rfl) h₂ (fullReads_readDone [1, 0, 2, 0, 3, 0, 0, 0] rfl rfl)
  exact Machine.steps_snoc (Machine.run_of_exec rfl) h₃ (fullReads_readDone [104, 105] rfl rfl)

theorem relay_exactly_once_saysHello : ∃ s out, machine.Run ((new ⟨2⟩).start true) saysHello s out ∧
    relayed 1 out = [.hello] ∧ written (sessionOuts 1 (serverOuts out)) <+: (relayed 1 out).flatMap Msg.wire ∧
    ∃ chunks, chunks.flatten <+: received 0 saysHello ∧ ((handledFrom 0 out).map Msg.wire).Sublist chunks := by
  have hr : ∃ s out p, machine.Run ((new ⟨2⟩).start true) saysHello s out ∧ handled out = [(0, .hello, [0, 1])] ∧
      s.server.objs[1]? = some p := ⟨_, _, _, Machine.run_of_exec rfl, rfl, rfl⟩
  obtain ⟨s, out, p, hr, hh, hp⟩ := hr
  have hrange : ∀ h ∈ handled out, h.2.1.InRange := by
    rw [hh]
    decide
  obtain ⟨-, -, hwritten, hchunks⟩ := relay_exactly_once hr hrange
  exact ⟨s, out, hr, by rw [relayed, hh]; rfl, (hwritten 1 p hp).1, hchunks 0 fullReads_saysHello⟩

/-- The first of two clients says "secret", and then something that has the same length, of which two bytes arrive at
first. -/
def saysSecret : List Event :=
  [.accept (.ok .loopback), .accept (.ok .loopback), .readDone 0 0 (.ok [1, 0, 6, 0, 3, 0, 0, 0]),
    .readDone 0 0 (.ok [115, 101, 99, 114, 101, 116]), .readDone 0 0 (.ok [1, 0, 6, 0, 3, 0, 0, 0]),
    .readDone 0 0 (.ok [104, 105]), .writeDone 1 0 none]

/-- The wire image of a chat message with the text "hicret". -/
def hicret : List UInt8 := [1, 0, 6, 0, 3, 0, 0, 0, 104, 105, 99, 114, 101, 116]

/-- It is written to the second one, though nobody has sent it. -/
theorem saysSecret_not_relayed : ∃ s out, machine.Run ((new ⟨2⟩).start true) saysSecret s out ∧
    (∀ h ∈ handled out, h.2.1.InRange) ∧ NoWriteError saysSecret ∧
    written (sessionOuts 1 (serverOuts out)) =
      [1, 0, 6, 0, 3, 0, 0, 0, 115, 101, 99, 114, 101, 116] ++ hicret ∧
    ¬ hicret <:+: received 0 saysSecret ∧
    ¬ ∃ chunks, chunks.flatten <+: received 0 saysSecret ∧ ((handledFrom 0 out).map Msg.wire).Sublist chunks := by
  have hr : ∃ s out, machine.Run ((new ⟨2⟩).start true) saysSecret s out ∧ (∀ h ∈ handled out, h.2.1.InRange) ∧
      written (sessionOuts 1 (serverOuts out)) =
        [1, 0, 6, 0, 3, 0, 0, 0, 115, 101, 99, 114, 101, 116] ++ hicret ∧
      hicret ∈ (handledFrom 0 out).map Msg.wire :=
    ⟨_, _, Machine.run_of_exec rfl, by decide +kernel, by decide +kernel, by decide +kernel⟩
  obtain ⟨s, out, hr, hrange, hwritten, hmem⟩ := hr
  have hnot : ¬ hicret <:+: received 0 saysSecret := by decide +kernel
  refine ⟨s, out, hr, hrange, by simp [NoWriteError, saysSecret], hwritten, hnot, ?_⟩
  rintro ⟨chunks, hprefix, hsub⟩
  exact hnot ((List.infix_of_mem_flatten (hsub.subset hmem)).trans hprefix.isInfix)

end ChatServer

end Torinet
