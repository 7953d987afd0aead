import Torinet.ChatServer
import Torinet.Session.Receive

/-!
# What is handled is what was received

`nfMessage` is called once for each chat message that is delivered (`handled_eq`). And if the reads of a session bring
all that was asked for, what it has received falls into chunks, and the wire images of its messages that have been
handled are some of these, in order (`framed_run`): what is relayed is what was received.
-/

namespace Torinet

open Lib

namespace ChatServer

open TcpServer (sessionEvents sessionOuts)

variable {config : ServerConfig} {s s' : ChatServer} {e : Event} {es : List Event} {out o : List Out}
  {t t' : TcpServer} {outs outs' : List TcpServer.Out} {r q : Nat} {m : Msg}

/-- The bytes the session `r` has received. -/
def received (r : Nat) (es : List Event) : List UInt8 :=
  (sessionEvents r (es.map Event.toServer)).flatMap TcpSession.Event.received

/-- The messages of the session `r` that have been handled. -/
def handledFrom (r : Nat) (out : List Out) : List Msg := (handled out).filterMap fun h =>
  if h.1 = r then some h.2.1 else none

/-- The chat messages that have been delivered, with their sessions. -/
def chatMessages (out : List TcpServer.Out) : List (Nat × Msg) := out.filterMap fun
  | (r, .message m) => if m.msgId = MsgId.nfMessage.val then some (r, m) else none
  | _ => none

/-- The event is no read of the session `r` that completes with less than was asked for. -/
def FullReads (r : Nat) (_ : List Event) (s : ChatServer) (_ : List Out) (e : Event) : Prop :=
  ∀ p ev, e.toServer = .session r ev → s.server.objs[r]? = some p → p.FullRead ev

/-- What the session `r` has received falls into chunks. -/
def FramedAt (r : Nat) (t : TcpServer) (stream : List UInt8) (ms : List Msg) : Prop :=
  (∀ p, t.objs[r]? = some p → p.Framed stream ms) ∧ (t.objs[r]? = none → stream = [] ∧ ms = [])

theorem received_snoc (es : List Event) (e : Event) :
    received r (es ++ [e]) = received r es ++ (sessionEvents r [e.toServer]).flatMap TcpSession.Event.received := by
  simp [received]

@[simp] theorem chatMessages_append (outs outs' : List TcpServer.Out) :
    chatMessages (outs ++ outs') = chatMessages outs ++ chatMessages outs' := by
  simp [chatMessages]

/-- A read of a session completes with all that was asked for. -/
theorem fullReads_readDone {op : ReadOp} (bs : List UInt8)
    (hreads : (s.server.objs[r]?).map TcpSession.reads = some [op]) (hlen : bs.length = op.size) :
    FullReads r es s out (.readDone r 0 (.ok bs)) := by
  rintro p ev ⟨⟩ hp i bs' op' hev hop
  obtain ⟨rfl, rfl⟩ : 0 = i ∧ bs = bs' := by simpa using hev
  have hreads : p.reads = [op] := by simpa [hp] using hreads
  obtain rfl : op = op' := by simpa [hreads] using hop
  exact hlen

theorem fullReads_accept (res : Except ErrorCode Accepted) : FullReads r es s out (.accept res) := by
  rintro p ev ⟨⟩

/-- A step of the server cuts the stream of a session further. -/
theorem FramedAt.step {f : TcpServer.Event} {stream : List UInt8} {ms : List Msg} (h : FramedAt r t stream ms)
    (hs : t.step f = some (t', outs)) (hf : f.Running) (hstart : ∀ ev, f = .session r ev → ¬ ev.Starts)
    (hfull : ∀ p ev, f = .session r ev → t.objs[r]? = some p → p.FullRead ev) :
    FramedAt r t' (stream ++ (sessionEvents r [f]).flatMap TcpSession.Event.received) ms ∧
      ∀ m, (r, .message m) ∈ outs → m.InRange →
        FramedAt r t' (stream ++ (sessionEvents r [f]).flatMap TcpSession.Event.received) (ms ++ [m]) := by
  rcases TcpServer.sessionStep_of_step hf hs r with ⟨ev, p, p', outs, rfl, hp, hps, hp', rfl⟩ | ⟨hne, hobj, ho⟩ |
    ⟨id, remoteEndpoint, mem, hne, hnone, hobj, ho⟩
  · have hev : sessionEvents r [.session r ev] = [ev] := by simp [sessionEvents]
    obtain ⟨hframed, hmsg⟩ := TcpSession.framed_step (h.1 p hp) hps (hstart ev rfl) (hfull p ev rfl hp)
    rw [hev, List.flatMap_singleton]
    refine ⟨⟨fun q hq => ?_, fun hnone => ?_⟩, fun m hm hin => ⟨fun q hq => ?_, fun hnone => ?_⟩⟩
    · exact Option.some.inj (hp'.symm.trans hq) ▸ hframed
    · rw [hp'] at hnone
      cases hnone
    · have hm : TcpSession.Out.message m ∈ outs := by simpa using hm
      exact Option.some.inj (hp'.symm.trans hq) ▸ hmsg m hm hin
    · rw [hp'] at hnone
      cases hnone
  · rw [TcpServer.sessionEvents_of_ne hne, List.flatMap_nil, List.append_nil]
    refine ⟨⟨fun p hp => h.1 p (hobj ▸ hp), fun hnone => h.2 (hobj ▸ hnone)⟩, fun m hm => ?_⟩
    rw [← TcpServer.mem_sessionOuts, ho] at hm
    cases hm
  · obtain ⟨rfl, rfl⟩ := h.2 hnone
    rw [TcpServer.sessionEvents_of_ne hne, List.flatMap_nil, List.append_nil]
    refine ⟨⟨fun p hp => ?_, fun hnone' => ?_⟩, fun m hm => ?_⟩
    · exact Option.some.inj (hobj.symm.trans hp) ▸ TcpSession.framed_start id remoteEndpoint mem
    · rw [hobj] at hnone'
      cases hnone'
    · rw [← TcpServer.mem_sessionOuts, ho] at hm
      simp [TcpSession.start, TcpSession.read] at hm

/-- The loop over the registry leaves what was received alone. -/
theorem framedAt_sends {stream : List UInt8} {ms : List Msg} (hx : TcpServer.machine.Run t (sends t r m) t' outs)
    (h : FramedAt q t stream ms) : FramedAt q t' stream ms := by
  refine (hx.inv (I := fun t => FramedAt q t stream ms) (Q := fun _ => True) h
    fun {t₁ f t₂ o} hf h hs => ⟨?_, fun _ _ => trivial⟩).1
  obtain ⟨x, -, rfl⟩ := of_mem_sends hf
  have hs : t₁.step (.session x (.send .ref m)) = some (t₂, o) := hs
  have hstep := (h.step hs trivial (by simp [TcpSession.Event.Starts]) (by simp [TcpSession.FullRead])).1
  have hrec : (sessionEvents q [.session x (.send .ref m)]).flatMap TcpSession.Event.received = [] := by
    by_cases hxq : x = q <;> simp [sessionEvents, TcpSession.Event.received, hxq]
  rwa [hrec, List.append_nil] at hstep

/-- The loop over the registry delivers nothing. -/
theorem not_message_sends (hx : TcpServer.machine.Run t (sends t r m) t' outs) :
    ∀ x ∈ outs, ∀ m', x.2 ≠ .message m' := by
  refine (hx.inv (I := fun _ => True) trivial fun {t₁ f t₂ o} hf _ hs => ⟨trivial, ?_⟩).2
  rintro ⟨y, z⟩ hyz m' rfl
  obtain ⟨x, -, rfl⟩ := of_mem_sends hf
  have hs : t₁.step (.session x (.send .ref m)) = some (t₂, o) := hs
  obtain ⟨i, bs, p, he, -⟩ := TcpServer.outs_of_message hs hyz
  simp at he

theorem chatMessages_sends (hx : TcpServer.machine.Run t (sends t r m) t' outs) : chatMessages outs = [] := by
  refine List.filterMap_eq_nil_iff.2 fun x hxo => ?_
  obtain ⟨y, z⟩ := x
  cases z with
  | message m' => exact absurd rfl (not_message_sends hx _ hxo m')
  | _ => rfl

/-- What the server does when a message is relayed. -/
theorem serverOuts_relay {x y : TcpServer.Out} {l : List Nat} (cmd : Option RedisCommand) :
    serverOuts (.server x :: .nfMessage r m l :: .redis cmd :: outs.map .server ++ [.server y]) = [x] ++ outs ++ [y] := by
  simp [serverOuts, List.filterMap_map]

/-- A step of the chat server cuts the streams further, each message handled being a chunk. -/
theorem framedAt_step (h : FramedAt q s.server (received q es) (handledFrom q out)) (hs : s.step e = some (s', o))
    (hfull : FullReads q es s out e) (hrange : ∀ h ∈ handled o, h.2.1.InRange) :
    FramedAt q s'.server (received q (es ++ [e])) (handledFrom q (out ++ o)) := by
  have hstart : ∀ ev, e.toServer = .session q ev → ¬ ev.Starts := fun ev hev => not_starts_of_toServer hev
  rw [received_snoc]
  cases step_path hs with
  | server t outs o hstep ho hh hm =>
    have ho : handledFrom q (out ++ o) = handledFrom q out := by simp [handledFrom, hh]
    rw [ho]
    exact (h.step hstep (toServer_running e) hstart hfull).1
  | relay t t' r i bs p cmd outs he hstep hp hm hx =>
    refine framedAt_sends (Machine.run_of_exec hx) ?_
    have hstep := h.step hstep (toServer_running e) hstart hfull
    by_cases hrq : r = q
    · subst hrq
      have hh : handledFrom r (out ++ (.server (r, .message p.msg) :: .nfMessage r p.msg (registered t) :: .redis cmd ::
          outs.map .server ++ [.server (r, .asyncRead (.header hdrLength))])) = handledFrom r out ++ [p.msg] := by
        simp [handledFrom, handled, List.filterMap_map]
      rw [hh]
      exact hstep.2 p.msg (by simp) (hrange (r, p.msg, registered t) (by simp [handled]))
    · have hh : handledFrom q (out ++ (.server (r, .message p.msg) :: .nfMessage r p.msg (registered t) :: .redis cmd ::
          outs.map .server ++ [.server (r, .asyncRead (.header hdrLength))])) = handledFrom q out := by
        simp [handledFrom, handled, List.filterMap_map, hrq]
      rw [hh]
      exact hstep.1

/-- **Handled messages are chunks of what was received.** -/
theorem framed_run (hr : machine.Run ((new config).start true) es s out) (hrange : ∀ h ∈ handled out, h.2.1.InRange)
    (hfull : machine.Steps ((new config).start true) (FullReads q) es) :
    FramedAt q s.server (received q es) (handledFrom q out) := by
  refine Machine.inv_of_steps (E := fun _ => True)
    (I := fun es s out => (∀ h ∈ handled out, h.2.1.InRange) → FramedAt q s.server (received q es) (handledFrom q out))
    ?_ ?_ hr (fun _ _ => trivial) hfull hrange
  · intro _
    exact ⟨fun p hp => by simp [start, new, TcpServer.listen, TcpServer.startAccept, TcpServer.new] at hp,
      fun _ => ⟨rfl, rfl⟩⟩
  · intro es s out e s' o _ _ ih hs hfull hrange
    rw [handled_append] at hrange
    exact framedAt_step (ih fun h hh => hrange h (List.mem_append_left _ hh)) hs hfull
      fun h hh => hrange h (List.mem_append_right _ hh)

/-- **Every chat message delivered is handled, once.** -/
theorem handled_eq (hr : machine.Run s es s' out) :
    (handled out).map (fun h => (h.1, h.2.1)) = chatMessages (serverOuts out) := by
  induction hr with
  | nil => rfl
  | @snoc es s₁ out e s₂ o _ hs ih =>
    rw [handled_append, List.map_append, serverOuts_append, chatMessages_append, ih]
    congr 1
    cases step_path hs with
    | server t outs o hstep ho hh hm =>
      rw [hh, ho, List.map_nil, eq_comm, chatMessages, List.filterMap_eq_nil_iff]
      rintro ⟨y, z⟩ hyz
      cases z with
      | message m => simp [hm y m hyz]
      | _ => rfl
    | relay t t' r i bs p cmd outs he hstep hp hm hx =>
      have hnil : chatMessages outs = [] := chatMessages_sends (Machine.run_of_exec hx)
      have hmsg : chatMessages [(r, .message p.msg)] = [(r, p.msg)] := by simp [chatMessages, hm]
      have hread : chatMessages [(r, .asyncRead (.header hdrLength))] = [] := rfl
      rw [serverOuts_relay, chatMessages_append, chatMessages_append, hmsg, hnil, hread]
      simp [handled, List.filterMap_map]

end ChatServer

end Torinet
