import Torinet.Client.Links

/-!
# Traffic

Sessions count the bytes they have written and received. Between the two ends of a connection no byte is lost, and none
is counted twice (`bytes_conserved`): in each direction, what the writer has counted and the message it is writing are
what the reader has counted, the header it may have read already and the bytes on their way. At rest both ends have
counted the same (`traffic_at_rest`). The counters are machine words that the constructors leave as they are in memory,
so it is their growth that agrees, modulo `2 ^ 64`.
-/

namespace Torinet

open Lib

namespace TcpSession

variable {w w' p p' : TcpSession} {bytes bytes' bs : List UInt8} {m x : Msg} {ms : List Msg} {o : List Out}
  {tx rx : UInt64} {op : ReadOp} {n : Nat}

theorem ofInt_natCast (n : Nat) : UInt64.ofInt (n : Int) = UInt64.ofNat n := by
  unfold UInt64.ofInt
  have hmod : ((n : Int) % 2 ^ 64).toNat = n % UInt64.size := by
    have hsize : ((UInt64.size : Nat) : Int) = 2 ^ 64 := rfl
    rw [← hsize, ← Int.natCast_mod, Int.toNat_natCast]
  rw [hmod, UInt64.ofNat_mod_size]

/-- The bytes of the message that is being written, which are not counted yet. -/
def writing (w : TcpSession) : UInt64 := UInt64.ofInt (totalLength w.sendQue.head?.toList)

/-- The bytes of the header that has been read, which are not counted yet. -/
def reading (p : TcpSession) : UInt64 := if p.reads = [.header hdrLength] then 0 else UInt64.ofNat hdrLength

/-- One direction of a connection, whose counters were `tx` and `rx` when it was made. -/
structure Counted (tx rx : UInt64) (w : TcpSession) (bytes : List UInt8) (p : TcpSession) : Prop where
  inRange : ∀ m ∈ w.sendQue, m.InRange
  balance : w.tx + w.writing + rx = p.rx + p.reading + UInt64.ofNat bytes.length + tx

/-- The bytes of a message are as many as it says. -/
theorem ofNat_length_wire (h : m.InRange) : UInt64.ofNat m.wire.length = UInt64.ofInt m.length := by
  rw [← ofInt_natCast, Msg.wire_eq h, List.length_append, Msg.length_payload h]
  have hh : m.hdr.toBytes.length = 8 := m.hdr.length_toBytes
  have hlen : ((m.hdr.toBytes.length + m.bodyLength.toNat : Nat) : Int) = m.length := by
    have h₀ := h.1
    rw [hh, Msg.length_eq]
    omega
  rw [hlen]

theorem writing_nil (h : w.sendQue = []) : w.writing = 0 := by
  unfold writing
  rw [h]
  rfl

theorem writing_cons {q : List Msg} (h : w.sendQue = m :: q) : w.writing = UInt64.ofInt m.length := by
  unfold writing
  rw [h]
  simp [totalLength]

theorem writing_congr (h : w'.sendQue = w.sendQue) : w'.writing = w.writing := by
  unfold writing
  rw [h]

theorem reading_header (h : p.reads = [.header hdrLength]) : p.reading = 0 := by
  unfold reading
  rw [if_pos h]

theorem reading_body (h : p.reads = [.body n]) : p.reading = UInt64.ofNat hdrLength := by
  unfold reading
  rw [if_neg (by simp [h])]

theorem reading_congr (h : p'.reads = p.reads) : p'.reading = p.reading := by
  unfold reading
  rw [h]

/-- What has arrived is as long as was asked for. -/
theorem length_of_arrived (hr : p.reads = [op]) (harr : System.arrived p bytes = some bs) :
    bs.length = op.size ∧ bytes.length = op.size + (bytes.drop bs.length).length := by
  simp only [System.arrived, hr, Option.ite_none_right_eq_some, Option.some.injEq] at harr
  obtain ⟨hle, rfl⟩ := harr
  simp only [List.length_take, List.length_drop]
  omega

/-- Two new sessions have counted nothing of each other. -/
theorem counted_new (hq : w.sendQue = []) (hr : p.reads = [.header hdrLength]) : Counted w.tx p.rx w [] p where
  inRange := by simp [hq]
  balance := by
    rw [writing_nil hq, reading_header hr]
    have hnil : UInt64.ofNat ([] : List UInt8).length = 0 := rfl
    rw [hnil]
    grind

/-! ## The ways a direction goes on -/

theorem Counted.rest (h : Counted tx rx w bytes p) (hw : SameWriter w w') (hp : SameReader p p') :
    Counted tx rx w' bytes p' where
  inRange := by
    rw [hw.sendQue]
    exact h.inRange
  balance := by
    rw [hw.tx, writing_congr hw.sendQue, hp.rx, reading_congr hp.reads]
    exact h.balance

/-- A message is sent: it is written at once, or waits. -/
theorem Counted.sends (h : Counted tx rx w bytes p) (hin : x.InRange) (hp : SameReader p p') :
    Counted tx rx (w.sendRef x).1 (bytes ++ written (w.sendRef x).2) p' := by
  have hbalance := h.balance
  cases hq : w.sendQue with
  | nil =>
    have hsend : w.sendRef x = ({ w with sendQue := [x], writes := w.writes ++ [⟨w.front, toSizeT x.length⟩] },
        [.asyncWrite ⟨w.front, toSizeT x.length⟩ x.wire]) := by
      simp [sendRef, sendMsg, hq, writeFront]
    rw [hsend, written_asyncWrite]
    refine ⟨by simpa using hin, ?_⟩
    rw [hp.rx, reading_congr hp.reads, writing_cons rfl, List.length_append, UInt64.ofNat_add, ofNat_length_wire hin]
    rw [writing_nil hq] at hbalance
    grind
  | cons m q =>
    have hsend : w.sendRef x = ({ w with sendQue := m :: q ++ [x] }, []) := by
      simp [sendRef, sendMsg, hq]
    have hwritten : written [] = [] := rfl
    rw [hsend, hwritten, List.append_nil]
    refine ⟨?_, ?_⟩
    · intro m' hm'
      rcases List.mem_append.1 hm' with hm' | hm'
      · exact h.inRange m' (hq ▸ hm')
      · exact List.mem_singleton.1 hm' ▸ hin
    · rw [hp.rx, reading_congr hp.reads, writing_cons rfl]
      rwa [writing_cons hq] at hbalance

/-- A write completes and is counted, and the next message is written. -/
theorem Counted.writes (h : Counted tx rx w bytes p) (hs : w.step (.writeDone 0 none) = some (w', o))
    (hp : SameReader p p') : Counted tx rx w' (bytes ++ written o) p' := by
  have hbalance := h.balance
  have hpath := step_path hs
  cases hpath with
  | writeLast _ m hi hq =>
    have hwritten : written [] = [] := rfl
    rw [hwritten, List.append_nil]
    refine ⟨by simp, ?_⟩
    rw [hp.rx, reading_congr hp.reads, writing_nil rfl]
    rw [writing_cons hq] at hbalance
    grind
  | writeNext _ m m' q hi hq =>
    have hin : ∀ x ∈ m' :: q, x.InRange := fun x hx => h.inRange x (hq ▸ List.mem_cons_of_mem _ hx)
    rw [written_asyncWrite]
    refine ⟨hin, ?_⟩
    rw [hp.rx, reading_congr hp.reads, writing_cons rfl, List.length_append, UInt64.ofNat_add,
      ofNat_length_wire (hin m' (by simp))]
    rw [writing_cons hq] at hbalance
    grind

/-- The message whose header has been read is as long as the body that is read. -/
theorem Flow.length_of_body (hf : Flow w bytes p ms) (hr : p.reads = [.body n]) :
    UInt64.ofInt p.msg.length = UInt64.ofNat hdrLength + UInt64.ofNat n := by
  obtain ⟨hsound, flying, queued, rfl, -, hrd⟩ := hf
  cases hrd with
  | header hr' => simp [hr] at hr'
  | @body m flying hr' hhdr =>
    obtain ⟨hin, -⟩ := hsound m (by simp)
    obtain rfl : n = m.payload.length := by simpa [hr] using hr'
    have hlen : p.msg.bodyLength = m.bodyLength := congrArg (fun h => h.bodyLength.toInt) hhdr
    have hsum : p.msg.length = ((hdrLength + m.payload.length : Nat) : Int) := by
      have h₀ := hin.1
      rw [Msg.length_eq, hlen, Msg.length_payload hin, hdrLength]
      omega
    rw [hsum, ofInt_natCast, UInt64.ofNat_add]

/-- A read completes: a header is kept, and counted with its body. -/
theorem Counted.reads (h : Counted tx rx w bytes p) (hf : Flow w bytes p ms)
    (harr : System.arrived p bytes = some bs) (hs : p.step (.readDone 0 (.ok bs)) = some (p', o))
    (hw : SameWriter w w') : Counted tx rx w' (bytes.drop bs.length) p' := by
  have hbalance := h.balance
  refine ⟨by rw [hw.sendQue]; exact h.inRange, ?_⟩
  rw [hw.tx, writing_congr hw.sendQue]
  rcases hf.read harr with ⟨p₁, n, hps, -, -, hreads, hreads', -⟩ | ⟨m, ms', p₁, hms, hps, -, -, hhdr, hmsg⟩
  · obtain ⟨rfl, rfl⟩ := Prod.mk.inj (Option.some.inj (hps.symm.trans hs))
    obtain ⟨-, hlen⟩ := length_of_arrived hreads harr
    have hrx : p₁.rx = p.rx := by
      have hpath := step_path hps
      cases hpath with
      | headerAccepted => rfl
    rw [reading_header hreads, hlen, UInt64.ofNat_add] at hbalance
    rw [hrx, reading_body hreads']
    have hsize : (ReadOp.header hdrLength).size = hdrLength := rfl
    rw [hsize] at hbalance
    grind
  · obtain ⟨rfl, rfl⟩ := Prod.mk.inj (Option.some.inj (hps.symm.trans hs))
    obtain ⟨op, hop⟩ := hf.reads_singleton
    obtain ⟨-, hlen⟩ := length_of_arrived hop harr
    have hpath := step_path hps
    cases hpath with
    | bodyOk _ n _ hbody hbs =>
      obtain ⟨-, rfl⟩ := eq_of_getElem?_singleton (hop ▸ hbody)
      have hbodyLen : UInt64.ofInt (p.msg.storeBody bs).length = UInt64.ofNat hdrLength + UInt64.ofNat n :=
        hf.length_of_body hop
      have hsize : (ReadOp.body n).size = n := rfl
      rw [reading_body hop, hlen, hsize, UInt64.ofNat_add] at hbalance
      rw [reading_header (by simp [hop]), hbodyLen]
      grind

/-- **What a direction does keeps its count.** -/
theorem Counted.moves (h : Counted tx rx w bytes p) (hf : Flow w bytes p ms) (hm : Moves w bytes p w' bytes' p') :
    Counted tx rx w' bytes' p' := by
  cases hm with
  | rest hw hp => exact h.rest hw hp
  | sends m x hm hx hin hp => exact h.sends hin hp
  | writes o hs hp => exact h.writes hs hp
  | reads bs o harr hs hw => exact h.reads hf harr hs hw

end TcpSession

namespace System

open ChatServer (registered)
open TcpSession (Counted Moves Flow)

variable {boostSplit : List UInt8 → SplitVector} {config : ServerConfig} {s s' s₁ s₂ : System} {h : Hub Nat Msg}
  {e : Event} {es es₁ es₂ : List Event} {o o₁ o₂ : List Out} {r : Nat} {a : Accepted} {ep : Endpoint}
  {mem : TcpSession.Memory} {p : TcpSession}

/-- The counts of both directions of the connection `r`, whose ends were made in the given memory. -/
structure Conserved (s : System) (r : Nat) (client server : TcpSession.Memory) (p : TcpSession) : Prop where
  obj : s.server.server.objs[r]? = some p
  up : Counted client.tx server.rx (s.client r).session (s.up r) p
  down : Counted server.tx client.rx p (s.down r) (s.client r).session

/-! ## A new connection -/

/-- The counters of a session begin with what is in its memory. -/
theorem counters_of_start {c : Client} (hc : (Client.new ep mem).start = some c) :
    c.session.tx = mem.tx ∧ c.session.rx = mem.rx := by
  have hstart : ∀ {p p' : TcpSession} {ev : TcpSession.Event} {outs : List TcpSession.Out},
      p.step ev = some (p', outs) → ev = .connect ∨ ev = .connectDone none → p'.tx = p.tx ∧ p'.rx = p.rx := by
    intro p p' ev outs hs hev
    cases TcpSession.step_path hs <;> simp_all
  obtain ⟨⟨c₁, outs₁⟩, hs₁, hc⟩ := Option.bind_eq_some_iff.1 hc
  obtain ⟨⟨c₂, outs₂⟩, hs₂, rfl⟩ := Option.map_eq_some_iff.1 hc
  obtain ⟨htx₁, hrx₁⟩ := hstart (Client.sessionStep_iff.1 hs₁).1 (Or.inl rfl)
  obtain ⟨htx₂, hrx₂⟩ := hstart (Client.sessionStep_iff.1 hs₂).1 (Or.inr rfl)
  exact ⟨htx₂.trans htx₁, hrx₂.trans hrx₁⟩

/-- A session that has been accepted is new. -/
theorem accepted_session {t t' : ChatServer} {outs : List ChatServer.Out} {n : Nat}
    (hs : t.step (.accept (.ok a)) = some (t', outs)) (hold : n ∉ registered t.server)
    (hnew : n ∈ registered t'.server) : n = t.server.objs.length ∧ ∃ p, t'.server.objs[n]? = some p ∧
      p.sendQue = [] ∧ p.reads = [.header hdrLength] ∧ p.tx = a.mem.tx ∧ p.rx = a.mem.rx := by
  obtain ⟨-, -, hcases⟩ := ChatServer.accept_step hs
  obtain ⟨rfl, -⟩ := (hcases n hnew).resolve_left hold
  refine ⟨rfl, ?_⟩
  obtain ⟨⟨t₁, outs₁⟩, hstep, hc⟩ := Option.bind_eq_some_iff.1 hs
  have hpath := TcpServer.step_path (e := .accept (.ok a)) hstep
  cases hpath with
  | acceptRefused _ ha hfull =>
    obtain ⟨rfl, rfl⟩ := Prod.mk.inj (Option.some.inj hc)
    exact absurd hnew hold
  | acceptOk _ id free ha hroom hf =>
    rw [ChatServer.callHandlers_of_not_message (by simp)] at hc
    obtain ⟨rfl, rfl⟩ := Prod.mk.inj (Option.some.inj hc)
    exact ⟨_, List.getElem?_concat_length, rfl, rfl, rfl, rfl⟩

/-- Nothing has been counted on a new connection. -/
theorem conserved_connect (hs : s.connect a ep mem = some (s', o)) (hold : r ∉ s.conns) (hnew : r ∈ s'.conns) :
    ∃ p, Conserved s' r mem a.mem p := by
  obtain ⟨⟨t, outs⟩, hstep, hs⟩ := Option.bind_eq_some_iff.1 hs
  obtain ⟨c, hc, heq⟩ := Option.map_eq_some_iff.1 hs
  obtain ⟨rfl, -⟩ := Prod.mk.inj heq
  obtain ⟨rfl, p, hp, hque, hreads, htx, hrx⟩ := accepted_session hstep hold hnew
  obtain ⟨hque', -, hreads'⟩ := session_of_start hc
  obtain ⟨htx', hrx'⟩ := counters_of_start hc
  refine ⟨p, hp, ?_, ?_⟩
  · rw [← htx', ← hrx]
    simpa only [Function.update_self] using TcpSession.counted_new hque' hreads
  · rw [← htx, ← hrx']
    simpa only [Function.update_self] using TcpSession.counted_new hque hreads'

/-! ## Runs -/

/-- A step keeps the counts of a connection. -/
theorem Conserved.step {client server : TcpSession.Memory}
    (hsplit : ∀ line, Tokens ChatClient.isBlank line (boostSplit line)) (hcons : Conserved s r client server p)
    (ht : Talks s h) (hr : r ∈ s.conns) (hs : s.step boostSplit e = some (s', o)) :
    ∃ p', Conserved s' r client server p' := by
  obtain ⟨p₁, hc⟩ := ht.conn r hr
  obtain rfl := Option.some.inj (hcons.obj.symm.trans hc.obj)
  obtain ⟨p', hobj, hup, hdown⟩ := ht.goes hsplit hs hr hc.obj
  exact ⟨p', hobj, hcons.up.moves hc.up hup, hcons.down.moves hc.down hdown⟩

/-- A run keeps the counts of a connection. -/
theorem Conserved.run {client server : TcpSession.Memory}
    (hsplit : ∀ line, Tokens ChatClient.isBlank line (boostSplit line)) (hcons : Conserved s r client server p)
    (ht : Talks s h) (hr : r ∈ s.conns) (hrun : (machine boostSplit).Run s es s' o) :
    ∃ p h, Conserved s' r client server p ∧ Talks s' h ∧ r ∈ s'.conns := by
  induction hrun with
  | nil => exact ⟨p, h, hcons, ht, hr⟩
  | snoc _ hs ih =>
    obtain ⟨p₁, h₁, hcons₁, ht₁, hr₁⟩ := ih
    obtain ⟨p₂, hcons₂⟩ := hcons₁.step hsplit ht₁ hr₁ hs
    obtain ⟨h₂, hmove⟩ := ht₁.move hsplit hs
    have ht₂ := hmove.talks
    exact ⟨p₂, h₂, hcons₂, ht₂, (ht₂.parties r).1 (hmove.parties ((ht₁.parties r).2 hr₁))⟩

/-- A connection that is made on the way keeps its counts. -/
theorem exists_conserved (hsplit : ∀ line, Tokens ChatClient.isBlank line (boostSplit line))
    (hr₁ : (machine boostSplit).Run (new config) es₁ s₁ o₁)
    (hs : (machine boostSplit).step s₁ (.connect a ep mem) = some (s₂, o))
    (hr₂ : (machine boostSplit).Run s₂ es₂ s o₂) (hold : r ∉ s₁.conns) (hnew : r ∈ s₂.conns) :
    ∃ p h, Conserved s r mem a.mem p ∧ Talks s h ∧ r ∈ s.conns := by
  obtain ⟨ops, h₁, hout, -, ht₁, -⟩ := talks_run hsplit (talks_new config) hr₁
  have hs' : s₁.step boostSplit (.connect a ep mem) = some (s₂, o) := hs
  obtain ⟨h₂, hmove⟩ := ht₁.move hsplit hs'
  obtain ⟨p, hcons⟩ := conserved_connect hs' hold hnew
  exact hcons.run hsplit hmove.talks hnew hr₂

/-- **No byte is lost or counted twice**: in every run of the system, for a client that connects on the way and the
session it is given, what one end has counted as written since then, and the message it is writing, are what the other
end has counted as received, the header it has read and the bytes on their way; in both directions. -/
theorem bytes_conserved (hsplit : ∀ line, Tokens ChatClient.isBlank line (boostSplit line))
    (hr₁ : (machine boostSplit).Run (new config) es₁ s₁ o₁)
    (hs : (machine boostSplit).step s₁ (.connect a ep mem) = some (s₂, o))
    (hr₂ : (machine boostSplit).Run s₂ es₂ s o₂) (hold : r ∉ s₁.conns) (hnew : r ∈ s₂.conns) :
    ∃ p, s.server.server.objs[r]? = some p ∧
      (s.client r).session.tx - mem.tx + (s.client r).session.writing =
        p.rx - a.mem.rx + p.reading + UInt64.ofNat (s.up r).length ∧
      p.tx - a.mem.tx + p.writing =
        (s.client r).session.rx - mem.rx + (s.client r).session.reading + UInt64.ofNat (s.down r).length := by
  obtain ⟨p, h, hcons, -⟩ := exists_conserved hsplit hr₁ hs hr₂ hold hnew
  have hup := hcons.up.balance
  have hdown := hcons.down.balance
  refine ⟨p, hcons.obj, ?_, ?_⟩
  · grind
  · grind

/-- A connection whose counters began at five. -/
def connectsLater : Event := .connect ⟨⟨"127.0.0.1", 5000⟩, ⟨.zero, 5, 5⟩⟩ ⟨"127.0.0.1", 20000⟩ ⟨.zero, 5, 5⟩

theorem bytes_conserved_hiHeard : ∃ (s₁ s₂ s : System) (o₁ o o₂ : List Out) (p : TcpSession),
    (machine (split ChatClient.isBlank)).Run (new ⟨2⟩) [oneConnects] s₁ o₁ ∧
    (machine (split ChatClient.isBlank)).step s₁ connectsLater = some (s₂, o) ∧
    (machine (split ChatClient.isBlank)).Run s₂ hiHeard s o₂ ∧ 1 ∉ s₁.conns ∧ 1 ∈ s₂.conns ∧
    s.server.server.objs[1]? = some p ∧
    (s.client 1).session.tx - 5 + (s.client 1).session.writing =
      p.rx - 5 + p.reading + UInt64.ofNat (s.up 1).length ∧
    p.tx - 5 + p.writing =
      (s.client 1).session.rx - 5 + (s.client 1).session.reading + UInt64.ofNat (s.down 1).length := by
  have hr₁ : ∃ (s₁ s₂ : System) (o₁ o : List Out),
      (machine (split ChatClient.isBlank)).Run (new ⟨2⟩) [oneConnects] s₁ o₁ ∧
      (machine (split ChatClient.isBlank)).step s₁ connectsLater = some (s₂, o) ∧ 1 ∉ s₁.conns ∧ 1 ∈ s₂.conns ∧
      ((machine (split ChatClient.isBlank)).exec s₂ hiHeard).isSome = true :=
    ⟨_, _, _, _, Machine.run_of_exec rfl, rfl, by decide, by decide, by decide +kernel⟩
  obtain ⟨s₁, s₂, o₁, o, hr₁, hs, hold, hnew, hsome⟩ := hr₁
  obtain ⟨⟨s, o₂⟩, hx⟩ := Option.isSome_iff_exists.1 hsome
  have hr₂ := Machine.run_of_exec hx
  obtain ⟨p, hp, hup, hdown⟩ := bytes_conserved (tokens_split _) hr₁ hs hr₂ hold hnew
  exact ⟨s₁, s₂, s, o₁, o, o₂, p, hr₁, hs, hr₂, hold, hnew, hp, hup, hdown⟩

/-! ## At rest -/

/-- A session whose writes cannot complete has nothing to write. -/
theorem queue_of_flow {w q : TcpSession} {bytes : List UInt8} {ms : List Msg} (hf : Flow w bytes q ms)
    (hnone : w.step (.writeDone 0 none) = none) : w.sendQue = [] := by
  obtain ⟨-, flying, queued, rfl, hwr, -⟩ := hf
  cases hwr with
  | idle hq hw => exact hq
  | busy x rest op hq hw hwire =>
    exfalso
    have hlt : 0 < w.writes.length := by simp [hw]
    simp only [TcpSession.step, if_pos hlt, TcpSession.handleWrite, hq] at hnone
    cases rest <;> cases hnone

/-- Where nothing is to be delivered, nothing is on its way, and no header has been read. -/
theorem nothing_of_flow {w q : TcpSession} {bytes : List UInt8} (hf : Flow w bytes q []) :
    bytes = [] ∧ q.reading = 0 := by
  obtain ⟨-, flying, queued, hnil, -, hrd⟩ := hf
  obtain ⟨rfl, rfl⟩ := List.append_eq_nil_iff.1 hnil.symm
  cases hrd with
  | header hr => exact ⟨rfl, TcpSession.reading_header hr⟩

/-- What is counted in one direction, once nothing is on its way in it. -/
theorem counted_at_rest {w q : TcpSession} {bytes : List UInt8} {tx rx : UInt64} (hc : Counted tx rx w bytes q)
    (hf : Flow w bytes q []) (hnone : w.step (.writeDone 0 none) = none) :
    w.sendQue = [] ∧ bytes = [] ∧ w.tx - tx = q.rx - rx := by
  have hque := queue_of_flow hf hnone
  obtain ⟨rfl, hreading⟩ := nothing_of_flow hf
  have hbalance := hc.balance
  have hnil : UInt64.ofNat ([] : List UInt8).length = 0 := rfl
  rw [TcpSession.writing_nil hque, hreading, hnil] at hbalance
  refine ⟨hque, rfl, ?_⟩
  grind

/-- At rest no write of a client can complete. -/
theorem AtRest.clientWrite (hrest : AtRest boostSplit s) (hrun : s.Running) (hr : r ∈ s.conns) :
    (s.client r).session.step (.writeDone 0 none) = none := by
  by_contra hne
  obtain ⟨⟨w, outs⟩, hps⟩ := Option.ne_none_iff_exists'.1 hne
  obtain ⟨c, -, hs⟩ := clientStep_of_step (hrun r hr) hps
  have hstep : s.step boostSplit (.clientWrite r) = some _ := (if_pos hr).trans hs
  exact absurd (hstep.symm.trans (hrest (.clientWrite r) trivial)) (by simp)

/-- At rest no write of the server can complete. -/
theorem AtRest.serverWrite (hrest : AtRest boostSplit s) (ht : Talks s h) (hr : r ∈ s.conns)
    (hp : s.server.server.objs[r]? = some p) : p.step (.writeDone 0 none) = none := by
  by_contra hne
  obtain ⟨⟨w, outs⟩, hps⟩ := Option.ne_none_iff_exists'.1 hne
  obtain ⟨p₁, hc⟩ := ht.conn r hr
  obtain rfl := Option.some.inj (hc.obj.symm.trans hp)
  obtain ⟨s', hs, -⟩ := ht.serverWrite hc hps
  have hstep : s.step boostSplit (.serverWrite r) = some (s', []) := (if_pos hr).trans hs
  exact absurd (hstep.symm.trans (hrest (.serverWrite r) trivial)) (by simp)

/-- **At rest both ends have counted the same**: when no client has been stopped and no completion is possible any more,
nothing waits to be sent on a connection, nothing is on its way, and each end has counted as received what the other one
has counted as written since the connection was made. -/
theorem traffic_at_rest (hsplit : ∀ line, Tokens ChatClient.isBlank line (boostSplit line))
    (hr₁ : (machine boostSplit).Run (new config) es₁ s₁ o₁)
    (hs : (machine boostSplit).step s₁ (.connect a ep mem) = some (s₂, o))
    (hr₂ : (machine boostSplit).Run s₂ es₂ s o₂) (hold : r ∉ s₁.conns) (hnew : r ∈ s₂.conns) (hrun : s.Running)
    (hrest : AtRest boostSplit s) :
    ∃ p, s.server.server.objs[r]? = some p ∧ (s.client r).session.sendQue = [] ∧ p.sendQue = [] ∧ s.up r = [] ∧
      s.down r = [] ∧ (s.client r).session.tx - mem.tx = p.rx - a.mem.rx ∧
      p.tx - a.mem.tx = (s.client r).session.rx - mem.rx := by
  obtain ⟨p, h, hcons, ht, hr⟩ := exists_conserved hsplit hr₁ hs hr₂ hold hnew
  obtain ⟨p₁, hc⟩ := ht.conn r hr
  obtain rfl := Option.some.inj (hcons.obj.symm.trans hc.obj)
  have hup := hc.up
  rw [ht.up_eq_nil hrun hrest hr] at hup
  have hdown := hc.down
  rw [ht.down_eq_nil hrun hrest hr] at hdown
  obtain ⟨hque, hnil, htx⟩ := counted_at_rest hcons.up hup (hrest.clientWrite hrun hr)
  obtain ⟨hque', hnil', htx'⟩ := counted_at_rest hcons.down hdown (hrest.serverWrite ht hr hcons.obj)
  exact ⟨p, hcons.obj, hque, hque', hnil, hnil', htx, htx'⟩

theorem traffic_at_rest_hiHeard : ∃ (s₁ s₂ s : System) (o₁ o o₂ : List Out) (p : TcpSession),
    (machine (split ChatClient.isBlank)).Run (new ⟨2⟩) [oneConnects] s₁ o₁ ∧
    (machine (split ChatClient.isBlank)).step s₁ connectsLater = some (s₂, o) ∧
    (machine (split ChatClient.isBlank)).Run s₂ hiHeard s o₂ ∧ 1 ∉ s₁.conns ∧ 1 ∈ s₂.conns ∧ s.Running ∧
    AtRest (split ChatClient.isBlank) s ∧ s.server.server.objs[1]? = some p ∧ p.sendQue = [] ∧ s.down 1 = [] ∧
    p.tx - 5 = (s.client 1).session.rx - 5 := by
  have hr₁ : ∃ (s₁ s₂ : System) (o₁ o : List Out),
      (machine (split ChatClient.isBlank)).Run (new ⟨2⟩) [oneConnects] s₁ o₁ ∧
      (machine (split ChatClient.isBlank)).step s₁ connectsLater = some (s₂, o) ∧ 1 ∉ s₁.conns ∧ 1 ∈ s₂.conns ∧
      ((machine (split ChatClient.isBlank)).exec s₂ hiHeard).map (fun x => decide ((∀ r ∈ x.1.conns,
        (x.1.client r).stopped = false) ∧ ∀ r ∈ x.1.conns, ∀ e ∈ [Event.serverRead r, .serverWrite r, .clientRead r,
          .clientWrite r], (x.1.step (split ChatClient.isBlank) e).isNone = true)) = some true :=
    ⟨_, _, _, _, Machine.run_of_exec rfl, rfl, by decide, by decide, by decide +kernel⟩
  obtain ⟨s₁, s₂, o₁, o, hr₁, hs, hold, hnew, hsome⟩ := hr₁
  obtain ⟨⟨s, o₂⟩, hx, hdec⟩ := Option.map_eq_some_iff.1 hsome
  obtain ⟨hrun, hrest⟩ := of_decide_eq_true hdec
  have hr₂ := Machine.run_of_exec hx
  have hrest := atRest_iff.2 hrest
  obtain ⟨p, hp, -, hque, -, hdown, -, htx⟩ := traffic_at_rest (tokens_split _) hr₁ hs hr₂ hold hnew hrun hrest
  exact ⟨s₁, s₂, s, o₁, o, o₂, p, hr₁, hs, hr₂, hold, hnew, hrun, hrest, hp, hque, hdown, htx⟩

end System

end Torinet
