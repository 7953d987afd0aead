import Torinet.ChatSystem
import Torinet.Session.Receive

/-!
# Messages on their way

In one direction of a connection a session writes, bytes are on their way and the session at the other end reads
(`Flow`). The messages that have been sent and not delivered are those in flight, the first of which may have been read
up to its body, and those that wait in the queue for the write before them. Each step of either end keeps this: a `send`
adds a message at the end, a write that completes puts one in flight, a read gets the header or delivers the first one.
-/

namespace Torinet

open Lib

/-- A message that is read as it was sent. -/
def Msg.Sound (m : Msg) : Prop := m.InRange ∧ m.checkHeader = true

namespace TcpSession

variable {m x : Msg} {ms flying queued : List Msg} {w w' p p' : TcpSession} {bytes bs : List UInt8} {o : List Out}

/-- What a session writes is left alone. -/
def SameWrites (p p' : TcpSession) : Prop := p'.sendQue = p.sendQue ∧ p'.writes = p.writes

/-- What a session reads is left alone. -/
def SameReads (p p' : TcpSession) : Prop := p'.reads = p.reads ∧ p'.msg = p.msg

theorem SameWrites.refl (p : TcpSession) : SameWrites p p := ⟨rfl, rfl⟩

theorem SameReads.refl (p : TcpSession) : SameReads p p := ⟨rfl, rfl⟩

/-- Behind the message that is being written, the given ones are queued. -/
inductive Writing (w : TcpSession) : List Msg → Prop
  | idle (hq : w.sendQue = []) (hw : w.writes = []) : Writing w []
  | busy {queued : List Msg} (x : Msg) (q : List Msg) (op : WriteOp) (hq : w.sendQue = x :: q) (hw : w.writes = [op])
      (hwire : q.map Msg.wire = queued.map Msg.wire) : Writing w queued

/-- The bytes are those of the messages, up to what the session has read of the first one. -/
inductive Reading (p : TcpSession) : List UInt8 → List Msg → Prop
  | header {flying : List Msg} (hr : p.reads = [.header hdrLength]) : Reading p (flying.flatMap Msg.wire) flying
  | body {m : Msg} {flying : List Msg} (hr : p.reads = [.body m.payload.length]) (hhdr : p.msg.hdr = m.hdr) :
      Reading p (m.payload ++ flying.flatMap Msg.wire) (m :: flying)

/-- One direction of a connection, with the messages that have been sent and not delivered. -/
structure Flow (w : TcpSession) (bytes : List UInt8) (p : TcpSession) (ms : List Msg) : Prop where
  sound : ∀ m ∈ ms, m.Sound
  split : ∃ flying queued, ms = flying ++ queued ∧ Writing w queued ∧ Reading p bytes flying

theorem Writing.congr (h : Writing w queued) (hw : SameWrites w w') : Writing w' queued := by
  cases h with
  | idle hq hws => exact Writing.idle (hw.1.trans hq) (hw.2.trans hws)
  | busy x q op hq hws hwire => exact Writing.busy x q op (hw.1.trans hq) (hw.2.trans hws) hwire

theorem Reading.congr (h : Reading p bytes flying) (hp : SameReads p p') : Reading p' bytes flying := by
  cases h with
  | header hr => exact Reading.header (hp.1.trans hr)
  | body hr hhdr => exact Reading.body (hp.1.trans hr) (by rw [hp.2, hhdr])

theorem Flow.congr (h : Flow w bytes p ms) (hw : SameWrites w w') (hp : SameReads p p') : Flow w' bytes p' ms := by
  obtain ⟨hs, flying, queued, hms, hwr, hrd⟩ := h
  exact ⟨hs, flying, queued, hms, hwr.congr hw, hrd.congr hp⟩

/-- Two new sessions have nothing to say to each other. -/
theorem flow_nil (hq : w.sendQue = []) (hw : w.writes = []) (hr : p.reads = [.header hdrLength]) : Flow w [] p [] :=
  ⟨by simp, [], [], rfl, Writing.idle hq hw, @Reading.header p [] hr⟩

/-! ## Writing -/

/-- Bytes are put behind those that are on their way. -/
theorem Reading.append (h : Reading p bytes flying) (m : Msg) : Reading p (bytes ++ m.wire) (flying ++ [m]) := by
  cases h with
  | header hr =>
    rw [← List.flatMap_singleton Msg.wire m, ← List.flatMap_append]
    exact Reading.header hr
  | body hr hhdr =>
    rw [List.append_assoc, ← List.flatMap_singleton Msg.wire m, ← List.flatMap_append]
    exact Reading.body hr hhdr

/-- A message is sent, or another one with the same bytes. -/
theorem Flow.send (h : Flow w bytes p ms) (hm : m.Sound) (hx : x.wire = m.wire) :
    Flow (w.sendRef x).1 (bytes ++ written (w.sendRef x).2) p (ms ++ [m]) ∧ SameReads w (w.sendRef x).1 := by
  obtain ⟨hs, flying, queued, rfl, hwr, hrd⟩ := h
  have hs' : ∀ m' ∈ flying ++ queued ++ [m], m'.Sound := by
    intro m' hm'
    rcases List.mem_append.1 hm' with hm' | hm'
    · exact hs m' hm'
    · exact List.mem_singleton.1 hm' ▸ hm
  cases hwr with
  | idle hq hws =>
    have hsend : w.sendRef x = ({ w with sendQue := [x], writes := [⟨w.front, toSizeT x.length⟩] },
        [.asyncWrite ⟨w.front, toSizeT x.length⟩ x.wire]) := by
      simp [sendRef, sendMsg, hq, hws, writeFront]
    rw [hsend, written_asyncWrite, hx]
    refine ⟨⟨hs', flying ++ [m], [], by simp, Writing.busy x [] _ rfl rfl rfl, hrd.append m⟩, ⟨rfl, rfl⟩⟩
  | busy y q op hq hws hwire =>
    have hsend : w.sendRef x = ({ w with sendQue := y :: q ++ [x] }, []) := by
      simp [sendRef, sendMsg, hq]
    have hwritten : written [] = [] := rfl
    rw [hsend, hwritten, List.append_nil]
    refine ⟨⟨hs', flying, queued ++ [m], List.append_assoc _ _ _, ?_, hrd⟩, ⟨rfl, rfl⟩⟩
    exact Writing.busy y (q ++ [x]) op rfl hws (by simp [hwire, hx])

/-- A write completes, and the next one is started. -/
theorem Flow.writeDone (h : Flow w bytes p ms) (hs : w.step (.writeDone 0 none) = some (w', o)) :
    Flow w' (bytes ++ written o) p ms ∧ SameReads w w' := by
  obtain ⟨hsound, flying, queued, rfl, hwr, hrd⟩ := h
  have hpath := step_path hs
  cases hpath with
  | writeLast _ y hi hq =>
    have hwritten : written [] = [] := rfl
    rw [hwritten, List.append_nil]
    refine ⟨⟨hsound, flying, queued, rfl, ?_, hrd⟩, ⟨rfl, rfl⟩⟩
    cases hwr with
    | idle hq' => cases hq'.symm.trans hq
    | busy z q op hq' hws hwire =>
      obtain ⟨rfl, rfl⟩ := List.cons.inj (hq'.symm.trans hq)
      obtain rfl := List.map_eq_nil_iff.1 hwire.symm
      exact Writing.idle rfl (by simp [hws])
  | writeNext _ y y' q hi hq =>
    cases hwr with
    | idle hq' => cases hq'.symm.trans hq
    | busy z q' op hq' hws hwire =>
      obtain ⟨rfl, rfl⟩ := List.cons.inj (hq'.symm.trans hq)
      obtain ⟨m, queued, rfl, hm, hwire⟩ := List.map_eq_cons_iff.1 hwire.symm
      rw [written_asyncWrite, ← hm]
      refine ⟨⟨hsound, flying ++ [m], queued, by simp, ?_, hrd.append m⟩, ⟨rfl, rfl⟩⟩
      exact Writing.busy y' q ⟨w.front + 1, toSizeT y'.length⟩ rfl (by simp [hws]) hwire.symm

/-- Behind the message whose write completes, the next one is written. -/
theorem step_writeNext {y : Msg} {q : List Msg} {op : WriteOp} (hq : w.sendQue = y :: x :: q) (hw : w.writes = [op]) :
    ∃ w', w.step (.writeDone 0 none) = some (w', [.asyncWrite ⟨w.front + 1, toSizeT x.length⟩ x.wire]) := by
  have hlt : 0 < w.writes.length := by simp [hw]
  refine ⟨({ w with
    writes := w.writes.eraseIdx 0
    tx := w.tx + UInt64.ofInt y.length
    sendQue := x :: q
    front := w.front + 1 } : TcpSession).writeFront x |>.1, ?_⟩
  simp only [step, if_pos hlt, handleWrite, hq]
  rfl

/-- What a completed write puts out. -/
theorem outs_of_writeDone (hs : w.step (.writeDone 0 none) = some (w', o)) :
    (∀ m, .message m ∉ o) ∧ ∀ reason, .closed reason ∉ o := by
  have hpath := step_path hs
  cases hpath <;> simp

/-! ## Reading -/

/-- Between messages there is nothing to read. -/
theorem arrived_nil (hr : p.reads = [.header hdrLength]) : System.arrived p [] = none := by
  simp [System.arrived, hr, ReadOp.size, hdrLength]

theorem arrived_header (hr : p.reads = [.header hdrLength]) (h : CpMsgHeader) (rest : List UInt8) :
    System.arrived p (h.toBytes ++ rest) = some h.toBytes := by
  have hlen : h.toBytes.length = hdrLength := h.length_toBytes
  have hle : hdrLength ≤ (h.toBytes ++ rest).length := by
    rw [List.length_append, hlen]
    omega
  rw [System.arrived, hr]
  refine (if_pos hle).trans ?_
  rw [ReadOp.size, ← hlen, List.take_left]

theorem arrived_body {n : Nat} (hr : p.reads = [.body n]) (hn : bs.length = n) (rest : List UInt8) :
    System.arrived p (bs ++ rest) = some bs := by
  have hle : n ≤ (bs ++ rest).length := by
    rw [List.length_append, hn]
    omega
  rw [System.arrived, hr]
  refine (if_pos hle).trans ?_
  rw [ReadOp.size, ← hn, List.take_left]

/-- Where a message is in flight, something can be read. -/
theorem Reading.arrived (h : Reading p bytes flying) (hin : ∀ m ∈ flying, m.InRange) (hne : flying ≠ []) :
    ∃ bs, System.arrived p bytes = some bs := by
  cases h with
  | header hr =>
    obtain ⟨m, rest, rfl⟩ := List.exists_cons_of_ne_nil hne
    rw [List.flatMap_cons, Msg.wire_eq (hin m (by simp)), List.append_assoc]
    exact ⟨_, arrived_header hr m.hdr _⟩
  | body hr hhdr => exact ⟨_, arrived_body hr rfl _⟩

/-- **A read completes**: with a header, whose body can then be read, or with a body, whose message is delivered. -/
theorem Flow.read (h : Flow w bytes p ms) (harr : System.arrived p bytes = some bs) :
    (∃ p' n, p.step (.readDone 0 (.ok bs)) = some (p', [.asyncRead (.body n)]) ∧ SameWrites p p' ∧
      Flow w (bytes.drop bs.length) p' ms ∧ p.reads = [.header hdrLength] ∧ p'.reads = [.body n] ∧
      ∃ bs', System.arrived p' (bytes.drop bs.length) = some bs') ∨
    ∃ m ms' p', ms = m :: ms' ∧
      p.step (.readDone 0 (.ok bs)) = some (p', [.message p'.msg, .asyncRead (.header hdrLength)]) ∧ SameWrites p p' ∧
      Flow w (bytes.drop bs.length) p' ms' ∧ p'.msg.hdr = m.hdr ∧ p'.msg = p.msg.storeBody m.payload := by
  obtain ⟨hsound, flying, queued, rfl, hwr, hrd⟩ := h
  cases hrd with
  | header hr =>
    cases flying with
    | nil =>
      rw [List.flatMap_nil, arrived_nil hr] at harr
      cases harr
    | cons m flying =>
      obtain ⟨hin, hck⟩ := hsound m (by simp)
      have hck' : (⟨m.hdr, p.msg.body⟩ : Msg).checkHeader = true :=
        (Msg.checkHeader_iff _).2 ((Msg.checkHeader_iff m).1 hck)
      have hsize : toSizeT m.hdr.bodyLength.toInt = m.payload.length := by
        rw [Msg.length_payload hin]
        exact hin.toSizeT_bodyLength
      have hbytes : (m :: flying).flatMap Msg.wire = m.hdr.toBytes ++ (m.payload ++ flying.flatMap Msg.wire) := by
        rw [List.flatMap_cons, Msg.wire_eq hin, List.append_assoc]
      rw [hbytes] at harr ⊢
      obtain rfl : m.hdr.toBytes = bs := Option.some.inj ((arrived_header hr m.hdr _).symm.trans harr)
      have hstep := step_header hr hck'
      rw [hsize] at hstep
      refine Or.inl ⟨_, m.payload.length, hstep, ⟨rfl, rfl⟩, ⟨hsound, m :: flying, queued, rfl, hwr, ?_⟩, hr, rfl, ?_⟩
      · rw [List.drop_left]
        exact Reading.body rfl rfl
      · rw [List.drop_left]
        exact ⟨m.payload, arrived_body rfl rfl _⟩
  | @body m flying hr hhdr =>
    obtain ⟨hin, -⟩ := hsound m (by simp)
    have hle : m.payload.length ≤ maxCpMsgData := by
      rw [Msg.length_payload hin]
      exact hin.bodyLength_toNat_le
    obtain rfl : m.payload = bs := Option.some.inj ((arrived_body hr rfl _).symm.trans harr)
    obtain ⟨rx, hstep⟩ := step_body p m.payload hr rfl hle
    refine Or.inr ⟨m, flying ++ queued, _, rfl, hstep, ⟨rfl, rfl⟩, ⟨fun m' hm' => hsound m' ?_, ?_⟩, hhdr, rfl⟩
    · exact List.mem_cons_of_mem _ hm'
    · rw [List.drop_left]
      exact ⟨flying, queued, rfl, hwr, Reading.header rfl⟩

/-- Where nothing can be read of what has been sent, a write can complete, and something can be read then. -/
theorem Flow.canWrite (h : Flow w bytes p ms) (hms : ms ≠ []) (harr : System.arrived p bytes = none) :
    ∃ w' o bs, w.step (.writeDone 0 none) = some (w', o) ∧ System.arrived p (bytes ++ written o) = some bs := by
  obtain ⟨hsound, flying, queued, rfl, hwr, hrd⟩ := h
  have hin : ∀ m ∈ flying ++ queued, m.InRange := fun m hm => (hsound m hm).1
  have hflying : flying = [] := by
    by_contra hne
    obtain ⟨bs, hbs⟩ := hrd.arrived (fun m hm => hin m (List.mem_append_left _ hm)) hne
    rw [hbs] at harr
    cases harr
  subst hflying
  cases hwr with
  | idle => exact absurd rfl hms
  | busy y q op hq hws hwire =>
    obtain ⟨m, queued, rfl⟩ := List.exists_cons_of_ne_nil hms
    obtain ⟨x, q, rfl, hx, -⟩ := List.map_eq_cons_iff.1 hwire
    obtain ⟨bs, hbs⟩ := (hrd.append m).arrived (fun m' hm' => hin m' (by simpa using Or.inl hm')) (by simp)
    obtain ⟨w', hs⟩ := step_writeNext hq hws
    exact ⟨w', _, bs, hs, by rwa [written_asyncWrite, hx]⟩

end TcpSession

end Torinet
