import Torinet.ChatServer

/-!
# Buffer bounds

The sizes of the buffers of a chat server's sessions come from the length field of the message in them. `checkHeader`
tests one side of it only: a negative length is accepted, and converted to a huge size. So every body read fits the
body, and every write of a relayed message fits the message, iff no header with a negative length is accepted
(`bufferBounds_iff`).
-/

namespace Torinet

open Lib

namespace TcpSession

variable {s s' : TcpSession} {e : Event} {o : List Out} {m : Msg}

/-! ## One session -/

/-- A body read fits a body, and a write fits a message. -/
def Out.InBounds : Out → Prop
  | .asyncRead (.body n) => n ≤ maxCpMsgData
  | .asyncWrite op _ => hdrLength ≤ op.size ∧ op.size ≤ hdrLength + maxCpMsgData
  | _ => True

/-- The event completes a header with a negative length that passes the check. -/
def NegativeHeader (s : TcpSession) (e : Event) : Prop :=
  ∃ i n bs, e = .readDone i (.ok bs) ∧ s.reads[i]? = some (.header n) ∧ (ReadOp.header n).Completes bs ∧
    (s.msg.storeHead bs).checkHeader = true ∧ (s.msg.storeHead bs).bodyLength < 0

/-- The messages that wait are in range, and so is the message whose body is being read. -/
structure Bounded (s : TcpSession) : Prop where
  queue : ∀ m ∈ s.sendQue, m.InRange
  reads : s.reads = [] ∨ s.reads = [.header hdrLength] ∨ s.msg.InRange ∧ ∃ n, s.reads = [.body n]

theorem bounded_start (id : Int) (ep : Endpoint) (mem : Memory) : Bounded (new id ep mem).start.1 :=
  ⟨by simp [start, read, new], Or.inr (Or.inl rfl)⟩

theorem asyncWrite_inBounds {bytes : List UInt8} {k : Nat} (hm : m.InRange) :
    Out.InBounds (.asyncWrite ⟨k, toSizeT m.length⟩ bytes) := by
  have hle := hm.bodyLength_toNat_le
  simp only [Out.InBounds, hm.toSizeT_length, hdrLength]
  omega

/-- The one outstanding read is gone once it has completed. -/
theorem Bounded.eraseIdx {i : Nat} {op : ReadOp} (h : s.Bounded) (hop : s.reads[i]? = some op) :
    s.reads.eraseIdx i = [] ∧ ∀ n, op = .body n → s.msg.InRange := by
  rcases h.reads with hr | hr | ⟨hin, n, hr⟩
  · rw [hr] at hop
    cases hop
  · rw [hr] at hop
    obtain ⟨rfl, rfl⟩ := eq_of_getElem?_singleton hop
    exact ⟨by rw [hr]; rfl, by simp⟩
  · rw [hr] at hop
    obtain ⟨rfl, -⟩ := eq_of_getElem?_singleton hop
    exact ⟨by rw [hr]; rfl, fun _ _ => hin⟩

/-- **A step stays in bounds**, if what is sent is in range and no negative length is accepted. -/
theorem bounded_step (h : s.Bounded) (hs : s.step e = some (s', o)) (he : ¬ e.Starts)
    (hsend : ∀ overload m, e = .send overload m → m.InRange) (hneg : ¬ s.NegativeHeader e) :
    s'.Bounded ∧ (∀ x ∈ o, x.InBounds) ∧ ∀ m, .message m ∈ o → m.InRange := by
  cases step_path hs with
  | start => exact absurd trivial he
  | connectOk hc => exact absurd trivial he
  | connect => exact ⟨⟨h.queue, h.reads⟩, by simp [Out.InBounds], by simp⟩
  | connectError ec hc => exact ⟨⟨h.queue, h.reads⟩, by simp, by simp⟩
  | close => exact ⟨h, by simp [Out.InBounds], by simp⟩
  | sendIdle overload msg hq =>
    have hin := hsend overload msg rfl
    refine ⟨⟨by simpa using hin, h.reads⟩, ?_, by simp⟩
    simpa using asyncWrite_inBounds hin
  | sendBusy overload msg hq =>
    refine ⟨⟨fun m hm => ?_, h.reads⟩, by simp, by simp⟩
    rcases List.mem_append.1 hm with hm | hm
    · exact h.queue m hm
    · exact List.mem_singleton.1 hm ▸ hsend overload msg rfl
  | headerRejected i n bs hop hbs hck =>
    obtain ⟨hnil, -⟩ := h.eraseIdx hop
    exact ⟨⟨h.queue, Or.inr (Or.inl (by simp [hnil]))⟩, by simp [Out.InBounds], by simp⟩
  | headerAccepted i n bs hop hbs hck =>
    obtain ⟨hnil, -⟩ := h.eraseIdx hop
    have hin : (s.msg.storeHead bs).InRange := by
      refine ⟨?_, ((Msg.checkHeader_iff _).1 hck).2⟩
      by_contra hlt
      exact hneg ⟨i, n, bs, rfl, hop, hbs, hck, by omega⟩
    refine ⟨⟨h.queue, Or.inr (Or.inr ⟨hin, _, by simp [hnil]; rfl⟩)⟩, ?_, by simp⟩
    have hle := hin.bodyLength_toNat_le
    simpa [Out.InBounds, hin.toSizeT_bodyLength] using hle
  | headerError i n ec hop hn =>
    obtain ⟨hnil, -⟩ := h.eraseIdx hop
    exact ⟨⟨h.queue, Or.inl hnil⟩, by simp, by simp⟩
  | bodyOk i n bs hop hbs =>
    obtain ⟨hnil, hin⟩ := h.eraseIdx hop
    have hin : (s.msg.storeBody bs).InRange := hin n rfl
    refine ⟨⟨h.queue, Or.inr (Or.inl (by simp [hnil]))⟩, by simp [Out.InBounds], fun m hm => ?_⟩
    obtain rfl : m = s.msg.storeBody bs := by simpa using hm
    exact hin
  | bodyError i n ec hop hn =>
    obtain ⟨hnil, -⟩ := h.eraseIdx hop
    exact ⟨⟨h.queue, Or.inl hnil⟩, by simp [Out.InBounds], by simp⟩
  | writeError i ec hi => exact ⟨⟨h.queue, h.reads⟩, by simp [Out.InBounds], by simp⟩
  | writeLast i m hi hq => exact ⟨⟨by simp, h.reads⟩, by simp, by simp⟩
  | writeNext i m m' q hi hq =>
    have hqueue : ∀ m₁ ∈ m' :: q, m₁.InRange := fun m₁ hm₁ => h.queue m₁ (hq ▸ List.mem_cons_of_mem _ hm₁)
    refine ⟨⟨hqueue, h.reads⟩, ?_, by simp⟩
    simpa using asyncWrite_inBounds (hqueue m' (by simp))

/-- A negative length makes the size of the body read huge. -/
theorem outs_of_negativeHeader (hs : s.step e = some (s', o)) (hneg : s.NegativeHeader e) :
    ∃ n, o = [.asyncRead (.body n)] ∧ maxCpMsgData < n := by
  obtain ⟨i, n, bs, rfl, hop, hbs, hck, hlt⟩ := hneg
  have hpath := step_path (e := .readDone i (.ok bs)) hs
  cases hpath with
  | headerRejected _ _ _ hop' hbs' hck' =>
    rw [hck] at hck'
    cases hck'
  | headerAccepted _ _ _ hop' hbs' hck' =>
    have hle := (s.msg.storeHead bs).le_bodyLength
    have hsize := toSizeT_of_neg hlt (by omega)
    refine ⟨_, rfl, ?_⟩
    simp only [maxCpMsgData]
    omega
  | bodyOk _ _ _ hop' hbs' =>
    rw [hop] at hop'
    cases hop'

end TcpSession

namespace ChatServer

open TcpServer (sessionEvents sessionOuts)

variable {config : ServerConfig} {s s' : ChatServer} {e : Event} {es : List Event} {out o : List Out}
  {t t' : TcpServer} {f : TcpServer.Event} {outs : List TcpServer.Out} {r : Nat} {m : Msg}

/-! ## All sessions -/

/-- What a chat server's sessions do stays in bounds. -/
def BufferBounds (_ : List Event) (_ : ChatServer) (out : List Out) : Prop := ∀ x ∈ serverOuts out, x.2.InBounds

/-- The event completes no header with a negative length that passes the check. -/
def NoNegativeHeader (_ : List Event) (s : ChatServer) (_ : List Out) (e : Event) : Prop :=
  ∀ r ev p, e.toServer = .session r ev → s.server.objs[r]? = some p → ¬ p.NegativeHeader ev

def AllBounded (t : TcpServer) : Prop := ∀ (r : Nat) (p : TcpSession), t.objs[r]? = some p → p.Bounded

/-- A step of the server stays in bounds. -/
theorem allBounded_step (h : AllBounded t) (hs : t.step f = some (t', outs)) (hf : f.Running)
    (hev : ∀ r ev p, f = .session r ev → t.objs[r]? = some p →
      ¬ ev.Starts ∧ (∀ overload m, ev = .send overload m → m.InRange) ∧ ¬ p.NegativeHeader ev) :
    AllBounded t' ∧ (∀ x ∈ outs, x.2.InBounds) ∧ ∀ r m, (r, .message m) ∈ outs → m.InRange := by
  have hsession : ∀ r, (∀ p, t'.objs[r]? = some p → p.Bounded) ∧ (∀ x ∈ sessionOuts r outs, x.InBounds) ∧
      ∀ m, .message m ∈ sessionOuts r outs → m.InRange := by
    intro r
    rcases TcpServer.sessionStep_of_step hf hs r with ⟨ev, p, p', o, rfl, hp, hps, hp', rfl⟩ | ⟨hne, hobj, ho⟩ |
      ⟨id, remoteEndpoint, mem, hne, hnone, hobj, ho⟩
    · obtain ⟨hstart, hsend, hneg⟩ := hev r ev p rfl hp
      obtain ⟨hb, ho, hm⟩ := TcpSession.bounded_step (h r p hp) hps hstart hsend hneg
      rw [TcpServer.sessionOuts_map_self]
      exact ⟨fun q hq => Option.some.inj (hp'.symm.trans hq) ▸ hb, ho, hm⟩
    · rw [ho]
      exact ⟨fun p hp => h r p (hobj ▸ hp), by simp, by simp⟩
    · rw [ho]
      refine ⟨fun p hp => ?_, by simp [TcpSession.start, TcpSession.read, TcpSession.Out.InBounds], ?_⟩
      · exact Option.some.inj (hobj.symm.trans hp) ▸ TcpSession.bounded_start id remoteEndpoint mem
      · simp [TcpSession.start, TcpSession.read]
  exact ⟨fun r => (hsession r).1, fun x hx => (hsession x.1).2.1 x.2 (TcpServer.mem_sessionOuts.2 hx),
    fun r m hm => (hsession r).2.2 m (TcpServer.mem_sessionOuts.2 hm)⟩

/-- The loop over the registry stays in bounds, if the message is in range. -/
theorem allBounded_sends (hx : TcpServer.machine.Run t (sends t r m) t' outs) (h : AllBounded t) (hm : m.InRange) :
    AllBounded t' ∧ ∀ x ∈ outs, x.2.InBounds := by
  refine hx.inv h fun {t₁ f t₂ o} hf hb hs => ?_
  obtain ⟨q, -, rfl⟩ := of_mem_sends hf
  have hev : ∀ r ev p, TcpServer.Event.session q (.send .ref m) = .session r ev → t₁.objs[r]? = some p →
      ¬ ev.Starts ∧ (∀ overload m, ev = .send overload m → m.InRange) ∧ ¬ p.NegativeHeader ev := by
    rintro r ev p hev -
    obtain ⟨rfl, rfl⟩ := TcpServer.Event.session.inj hev
    refine ⟨id, fun overload m' hm' => ?_, ?_⟩
    · obtain ⟨-, rfl⟩ := TcpSession.Event.send.inj hm'
      exact hm
    · rintro ⟨i, n, bs, he, -⟩
      cases he
  have hs : t₁.step (.session q (.send .ref m)) = some (t₂, o) := hs
  obtain ⟨hb', ho, -⟩ := allBounded_step hb hs trivial hev
  exact ⟨hb', ho⟩

/-- **A step stays in bounds**, if it accepts no negative length. -/
theorem bufferBounds_step (h : AllBounded s.server) (hs : s.step e = some (s', o))
    (hneg : NoNegativeHeader es s out e) : AllBounded s'.server ∧ ∀ x ∈ serverOuts o, x.2.InBounds := by
  have hev : ∀ r ev p, e.toServer = .session r ev → s.server.objs[r]? = some p →
      ¬ ev.Starts ∧ (∀ overload m, ev = .send overload m → m.InRange) ∧ ¬ p.NegativeHeader ev := by
    intro r ev p hev hp
    refine ⟨not_starts_of_toServer hev, ?_, hneg r ev p hev hp⟩
    cases e <;> cases hev <;> simp
  cases step_path hs with
  | server t outs o hstep ho hh hm =>
    obtain ⟨hb, hout, -⟩ := allBounded_step h hstep (toServer_running e) hev
    exact ⟨hb, ho ▸ hout⟩
  | relay t t' r i bs p cmd outs he hstep hp hm hx =>
    obtain ⟨hb, hout, hmsg⟩ := allBounded_step h hstep (toServer_running e) hev
    obtain ⟨hb', hout'⟩ := allBounded_sends (Machine.run_of_exec hx) hb (hmsg r p.msg (by simp))
    refine ⟨hb', fun x hx => ?_⟩
    simp only [serverOuts, List.mem_filterMap] at hx
    obtain ⟨y, hy, hyx⟩ := hx
    simp only [List.mem_append, List.mem_cons, List.mem_map, List.not_mem_nil, or_false] at hy
    rcases hy with (rfl | rfl | rfl | ⟨z, hz, rfl⟩) | rfl <;> cases hyx
    · trivial
    · exact hout' x hz
    · trivial

/-- A negative length that is accepted breaks the bounds. -/
theorem not_bufferBounds_of_negative (hs : s.step e = some (s', o)) (hneg : ¬ NoNegativeHeader es s out e) :
    ¬ BufferBounds (es ++ [e]) s' (out ++ o) := by
  simp only [NoNegativeHeader] at hneg
  push Not at hneg
  obtain ⟨r, ev, p, he, hp, hneg⟩ := hneg
  have houts : ∀ {t outs}, s.server.step e.toServer = some (t, outs) →
      ∃ n, outs = [(r, .asyncRead (.body n))] ∧ maxCpMsgData < n := by
    intro t outs hstep
    rcases TcpServer.sessionStep_of_step (toServer_running e) hstep r with
      ⟨ev', p₁, p', o', he', hp₁, hps, -, rfl⟩ | ⟨hne, -⟩ | ⟨-, -, -, hne, -⟩
    · obtain ⟨-, rfl⟩ := TcpServer.Event.session.inj (he.symm.trans he')
      obtain rfl := Option.some.inj (hp.symm.trans hp₁)
      obtain ⟨n, rfl, hn⟩ := TcpSession.outs_of_negativeHeader hps hneg
      exact ⟨n, rfl, hn⟩
    · exact absurd he (hne ev)
    · exact absurd he (hne ev)
  intro hb
  cases step_path hs with
  | server t outs o hstep ho hh hm =>
    obtain ⟨n, rfl, hn⟩ := houts hstep
    have hle : n ≤ maxCpMsgData := hb (r, .asyncRead (.body n)) (by simp [ho])
    omega
  | relay t t' r' i bs p' cmd outs he' hstep hp' hm hx =>
    obtain ⟨n, heq, -⟩ := houts hstep
    simp at heq

/-- **When the buffers keep their bounds**: throughout a run of a chat server, every body read asks for at most 1024
bytes and every write is of 8 to 1032, iff no header read that completes leaves in `_msg` a header with a negative
length that passes the check. -/
theorem bufferBounds_iff (hr : machine.Run ((new config).start true) es s out) :
    machine.Always ((new config).start true) BufferBounds es ↔
      machine.Steps ((new config).start true) NoNegativeHeader es := by
  refine Machine.always_iff_steps (E := fun _ => True)
    (I := fun es s out => AllBounded s.server ∧ BufferBounds es s out)
    ⟨?_, by simp [BufferBounds, serverOuts]⟩ And.right ?_ (fun _ _ _ hs hneg => not_bufferBounds_of_negative hs hneg) hr
    fun _ _ => trivial
  · intro r p hp
    simp [start, new, TcpServer.listen, TcpServer.startAccept, TcpServer.new] at hp
  · rintro es s out e s' o - - ⟨hb, hout⟩ hs hneg
    obtain ⟨hb', ho⟩ := bufferBounds_step hb hs hneg
    refine ⟨hb', fun x hx => ?_⟩
    rw [serverOuts_append] at hx
    exact (List.mem_append.1 hx).elim (hout x) (ho x)

/-- A peer whose first header has the length -1. -/
def hostileHeader : List Event := [.accept (.ok .loopback), .readDone 0 0 (.ok [1, 0, 255, 255, 3, 0, 0, 0])]

theorem hostileHeader_overflows : ∃ s out, machine.Run ((new ⟨1⟩).start true) hostileHeader s out ∧
    (0, .asyncRead (.body (2 ^ 64 - 1))) ∈ serverOuts out ∧ ¬ BufferBounds hostileHeader s out := by
  have hr : ∃ s out, machine.Run ((new ⟨1⟩).start true) hostileHeader s out ∧
      serverOuts out = [(0, .opened), (0, .asyncRead (.header hdrLength)), (0, .asyncRead (.body (2 ^ 64 - 1)))] :=
    ⟨_, _, Machine.run_of_exec rfl, by decide⟩
  obtain ⟨s, out, hr, hout⟩ := hr
  refine ⟨s, out, hr, by simp [hout], fun hb => ?_⟩
  have hle : 2 ^ 64 - 1 ≤ maxCpMsgData := hb (0, .asyncRead (.body (2 ^ 64 - 1))) (by simp [hout])
  simp [maxCpMsgData] at hle

theorem bufferBounds_iff_hostileHeader :
    machine.Always ((new ⟨1⟩).start true) BufferBounds hostileHeader ↔
      machine.Steps ((new ⟨1⟩).start true) NoNegativeHeader hostileHeader :=
  bufferBounds_iff (Machine.run_of_exec rfl)

end ChatServer

end Torinet
