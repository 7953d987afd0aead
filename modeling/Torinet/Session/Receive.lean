import Torinet.TcpSession

/-!
# Receiving

A byte stream reaches a session as the bytes of its successive completions (`completions`), and leaves it as calls of
the message handler (`deliveries`). A completion is whole when it brings all that was asked for, or all that is left of
the stream (`Whole`); it is full when it brings all that was asked for (`Full`).

* `whole_unique`: there is one way to cut a stream into whole completions.
* `not_segmentationIndependent`: the code takes what a completion brings as the whole field without looking at its
  length, so whatever its buffer holds, a session that waits for a header delivers the same stream in different ways.
* `framing_round_trip`: with full completions the wire images of encoded messages are delivered as those messages,
  whatever the buffer held before.
-/

namespace Torinet

open Lib

namespace TcpSession

variable {s s' s₀ : TcpSession} {cs cs' : List (List UInt8)} {bs : List UInt8} {out out' o : List Out}

/-! ## Streams and completions -/

/-- Successful completions of the read that is outstanding, with the given bytes. -/
def completions (cs : List (List UInt8)) : List Event := cs.map fun c => .readDone 0 (.ok c)

/-- What the message handler can see of a message: the header and the first `bodyLength` bytes of the body. -/
def delivery (m : Msg) : List UInt8 × List UInt8 := (m.hdr.toBytes, m.payload)

/-- The messages the message handler is called with. -/
def deliveries (out : List Out) : List (List UInt8 × List UInt8) := out.filterMap fun
  | .message m => some (delivery m)
  | _ => none

/-- No read of zero bytes is outstanding: such a read completes at once. -/
def Settled (s : TcpSession) : Prop := ∀ op ∈ s.reads, op.size ≠ 0

instance (s : TcpSession) : Decidable (Settled s) := inferInstanceAs (Decidable (∀ op ∈ s.reads, op.size ≠ 0))

/-- The sizes of the body reads that were started. -/
def bodyReads (out : List Out) : List Nat := out.filterMap fun
  | .asyncRead (.body n) => some n
  | _ => none

/-- Every completion brings all that was asked for, or all that is left. -/
def Whole : TcpSession → List (List UInt8) → Prop
  | _, [] => True
  | s, c :: cs => (∀ op, s.reads[0]? = some op → c.length = min op.size (c ++ cs.flatten).length) ∧
      ∀ s' o, s.step (.readDone 0 (.ok c)) = some (s', o) → Whole s' cs

/-- Every completion brings all that was asked for. -/
def Full : TcpSession → List (List UInt8) → Prop
  | _, [] => True
  | s, c :: cs => (∀ op, s.reads[0]? = some op → c.length = op.size) ∧
      ∀ s' o, s.step (.readDone 0 (.ok c)) = some (s', o) → Full s' cs

@[simp] theorem deliveries_append (out o : List Out) : deliveries (out ++ o) = deliveries out ++ deliveries o := by
  simp [deliveries]

theorem Full.whole : ∀ {cs : List (List UInt8)} {s : TcpSession}, Full s cs → Whole s cs
  | [], _, _ => trivial
  | c :: cs, s, h => by
    refine ⟨fun op hop => ?_, fun s' o hs => (h.2 s' o hs).whole⟩
    have := h.1 op hop
    simp only [List.length_append]
    omega

@[simp] theorem bodyReads_append (out o : List Out) : bodyReads (out ++ o) = bodyReads out ++ bodyReads o := by
  simp [bodyReads]

/-- The read that a completion belongs to. -/
theorem completes_of_step (hs : s.step (.readDone 0 (.ok bs)) = some (s', o)) :
    ∃ op, s.reads[0]? = some op ∧ op.Completes bs := by
  cases step_path hs with
  | headerRejected i n bs hop hbs hck => exact ⟨_, hop, hbs⟩
  | headerAccepted i n bs hop hbs hck => exact ⟨_, hop, hbs⟩
  | bodyOk i n bs hop hbs => exact ⟨_, hop, hbs⟩

/-- A settled session takes no empty completion. -/
theorem Settled.nonempty (h : Settled s) (hs : s.step (.readDone 0 (.ok bs)) = some (s', o)) : bs ≠ [] := by
  obtain ⟨op, hop, -, hnil, -⟩ := completes_of_step hs
  exact fun hbs => h op (List.mem_of_getElem? hop) (hnil hbs)

theorem settled_of_header (hs : s.reads = [.header hdrLength]) : Settled s := by
  intro op hop
  rw [hs, List.mem_singleton] at hop
  subst hop
  simp [ReadOp.size, hdrLength]

/-- **One way to cut a stream into whole completions.** -/
theorem whole_unique : ∀ {cs cs' : List (List UInt8)} {s₀ s s' : TcpSession} {out out' : List Out},
    machine.Run s₀ (completions cs) s out → machine.Run s₀ (completions cs') s' out' → Settled s → Settled s' →
    Whole s₀ cs → Whole s₀ cs' → cs.flatten = cs'.flatten → cs = cs'
  | [], [], _, _, _, _, _, _, _, _, _, _, _, _ => rfl
  | [], c' :: cs', _, _, _, _, _, hr, hr', hset, _, _, _, hf => by
    obtain ⟨rfl, -⟩ := hr.det Machine.Run.nil
    obtain ⟨s₁, o, out₁, hs, -, -⟩ := hr'.first
    have hc : c' = [] := (List.append_eq_nil_iff.1 hf.symm).1
    exact absurd hc (hset.nonempty hs)
  | c :: cs, [], _, _, _, _, _, hr, hr', _, hset, _, _, hf => by
    obtain ⟨rfl, -⟩ := hr'.det Machine.Run.nil
    obtain ⟨s₁, o, out₁, hs, -, -⟩ := hr.first
    have hc : c = [] := (List.append_eq_nil_iff.1 hf).1
    exact absurd hc (hset.nonempty hs)
  | c :: cs, c' :: cs', s₀, _, _, _, _, hr, hr', hset, hset', hw, hw', hf => by
    obtain ⟨s₁, o, out₁, hs, hr, -⟩ := hr.first
    obtain ⟨s₁', o', out₁', hs', hr', -⟩ := hr'.first
    obtain ⟨op, hop, -⟩ := completes_of_step hs
    -- both completions bring what the same read can get out of the same rest of the stream
    have hlen : c.length = c'.length := by
      have hl := congrArg List.length hf
      rw [List.flatten_cons, List.flatten_cons] at hl
      rw [hw.1 op hop, hw'.1 op hop, hl]
    obtain ⟨rfl, hrest⟩ := List.append_inj (by simpa using hf) hlen
    have heq := hs.symm.trans hs'
    simp only [Option.some.injEq, Prod.mk.injEq] at heq
    obtain ⟨rfl, rfl⟩ := heq
    rw [whole_unique hr hr' hset hset' (hw.2 _ _ hs) (hw'.2 _ _ hs) hrest]

/-! ## Reads -/

theorem completes_toBytes (h : CpMsgHeader) : (ReadOp.header hdrLength).Completes h.toBytes := by
  refine ⟨by simp [ReadOp.size], fun hnil => ?_, by simp [ReadOp.room]⟩
  have := h.length_toBytes
  rw [hnil] at this
  cases this

/-- A completion is taken for a header, which is followed by the read of its body. -/
theorem step_storeHead (hs : s.reads = [.header hdrLength]) (hbs : (ReadOp.header hdrLength).Completes bs)
    (hck : (s.msg.storeHead bs).checkHeader = true) :
    s.step (.readDone 0 (.ok bs)) =
      some ({ s with
          msg := s.msg.storeHead bs
          reads := [.body (toSizeT (s.msg.storeHead bs).bodyLength)] },
        [.asyncRead (.body (toSizeT (s.msg.storeHead bs).bodyLength))]) := by
  simp [step, readDone, hs, hbs, onReadHeader, handleReadHeader, hck]

/-- What is taken for a header fails the check, and the next one is read. -/
theorem step_storeHead_rejected (hs : s.reads = [.header hdrLength]) (hbs : (ReadOp.header hdrLength).Completes bs)
    (hck : (s.msg.storeHead bs).checkHeader = false) :
    s.step (.readDone 0 (.ok bs)) =
      some ({ s with msg := s.msg.storeHead bs, reads := [.header hdrLength] }, [.asyncRead (.header hdrLength)]) := by
  simp [step, readDone, hs, hbs, onReadHeader, handleReadHeader, hck, read]

/-- A complete header that passes the check is followed by the read of its body. -/
theorem step_header (hs : s.reads = [.header hdrLength]) {h : CpMsgHeader}
    (hck : (⟨h, s.msg.body⟩ : Msg).checkHeader = true) :
    s.step (.readDone 0 (.ok h.toBytes)) =
      some ({ s with msg := ⟨h, s.msg.body⟩, reads := [.body (toSizeT h.bodyLength.toInt)] },
        [.asyncRead (.body (toSizeT h.bodyLength.toInt))]) := by
  have hst := Msg.storeHead_toBytes s.msg h
  rw [step_storeHead hs (completes_toBytes h) (hst ▸ hck), hst]
  rfl

/-- A complete header that fails the check is followed by the read of the next one. -/
theorem step_header_rejected (hs : s.reads = [.header hdrLength]) {h : CpMsgHeader}
    (hck : (⟨h, s.msg.body⟩ : Msg).checkHeader = false) :
    s.step (.readDone 0 (.ok h.toBytes)) =
      some ({ s with msg := ⟨h, s.msg.body⟩, reads := [.header hdrLength] }, [.asyncRead (.header hdrLength)]) := by
  have hst := Msg.storeHead_toBytes s.msg h
  rw [step_storeHead_rejected hs (completes_toBytes h) (hst ▸ hck), hst]

/-- A complete body is delivered, and the next header is asked for. -/
theorem step_body (s : TcpSession) (bs : List UInt8) {n : Nat} (hs : s.reads = [.body n]) (hlen : bs.length = n)
    (hn : n ≤ maxCpMsgData) :
    ∃ rx, s.step (.readDone 0 (.ok bs)) =
      some ({ s with msg := s.msg.storeBody bs, rx := rx, reads := [.header hdrLength] },
        [.message (s.msg.storeBody bs), .asyncRead (.header hdrLength)]) := by
  have hcomp : (ReadOp.body n).Completes bs := by
    refine ⟨hlen.le, fun hnil => ?_, by simp only [ReadOp.room]; omega⟩
    rw [hnil] at hlen
    exact hlen.symm
  exact ⟨_, by simp [step, readDone, hs, hcomp, handleReadBody, read]; rfl⟩

/-! ## Short reads -/

theorem completes_half (b₀ b₁ b₂ b₃ : UInt8) : (ReadOp.header hdrLength).Completes [b₀, b₁, b₂, b₃] := by
  refine ⟨?_, ?_, ?_⟩ <;> simp [ReadOp.size, ReadOp.room, hdrLength]

/-- Half a header taken for a whole one: the other half is what the buffer held before. -/
theorem storeHead_half (m : Msg) (b₀ b₁ b₂ b₃ : UInt8) : m.storeHead [b₀, b₁, b₂, b₃] =
    ⟨⟨b₀.toInt8, b₁.toInt8, (UInt16.ofNat (leNat [b₂, b₃])).toInt16, m.hdr.msgId⟩, m.body⟩ := by
  have hid : UInt32.ofNat (leNat (leBytes 4 m.hdr.msgId.toNat)) = m.hdr.msgId := by
    rw [leNat_leBytes, Nat.mod_eq_of_lt (by simpa using m.hdr.msgId.toNat_lt), UInt32.ofNat_toNat]
  have hbytes : overwrite m.hdr.toBytes [b₀, b₁, b₂, b₃] = [b₀, b₁, b₂, b₃] ++ leBytes 4 m.hdr.msgId.toNat := by
    rw [overwrite, List.take_of_length_le (by simp [hdrLength])]
    rfl
  rw [Msg.storeHead, hbytes, CpMsgHeader.ofBytes]
  simp only [List.cons_append, List.nil_append, List.getD_cons_zero, List.getD_cons_succ, List.drop_succ_cons,
    List.drop_zero, List.take_succ_cons, List.take_zero]
  rw [List.take_of_length_le (by simp), hid]

/-- A completion is taken for the header of a message without a body. -/
theorem run_bare {h : CpMsgHeader} (hs : s.reads = [.header hdrLength])
    (hbs : (ReadOp.header hdrLength).Completes bs) (hst : s.msg.storeHead bs = ⟨h, s.msg.body⟩)
    (hv : h.version = Msg.version) (hlen : h.bodyLength = 0) :
    ∃ s' out, machine.Run s (completions [bs, []]) s' out ∧ s'.reads = [.header hdrLength] ∧ bodyReads out = [0] ∧
      deliveries out = [(h.toBytes, [])] := by
  have hzero : (⟨h, s.msg.body⟩ : Msg).bodyLength = 0 := by
    rw [Msg.bodyLength, hlen]
    rfl
  have hin : (⟨h, s.msg.body⟩ : Msg).InRange := ⟨hzero.ge, by rw [hzero]; decide⟩
  have hsize : toSizeT (⟨h, s.msg.body⟩ : Msg).bodyLength = 0 := by
    rw [hzero]
    rfl
  have h₁ := step_storeHead hs hbs (by rw [hst, Msg.checkHeader_iff]; exact ⟨hv, hin.2⟩)
  rw [hst, hsize] at h₁
  obtain ⟨rx, h₂⟩ := step_body { s with msg := ⟨h, s.msg.body⟩, reads := [.body 0] } [] rfl rfl (Nat.zero_le _)
  have hr₁ : machine.Run s [.readDone 0 (.ok bs)] _ _ := Machine.Run.single h₁
  refine ⟨_, _, hr₁.snoc h₂, rfl, rfl, ?_⟩
  have hdel : delivery ((⟨h, s.msg.body⟩ : Msg).storeBody []) = (h.toBytes, []) :=
    congrArg (Prod.mk h.toBytes) (Msg.payload_storeBody hin hsize.symm)
  simpa [deliveries] using hdel

/-- However a stream is cut into completions, the session delivers the same messages, as long as it accepts no header
with a length that a body cannot have. -/
def SegmentationIndependent (s₀ : TcpSession) : Prop :=
  ∀ (cs cs' : List (List UInt8)) (s s' : TcpSession) (out out' : List Out),
    machine.Run s₀ (completions cs) s out → machine.Run s₀ (completions cs') s' out' → Settled s → Settled s' →
      cs.flatten = cs'.flatten → (∀ n ∈ bodyReads (out ++ out'), n ≤ maxCpMsgData) → deliveries out = deliveries out'

/-- **No session is independent of the segmentation**: whatever its buffer holds, there is a message that it delivers as
another one when its header arrives in two halves. -/
theorem not_segmentationIndependent (hs₀ : s₀.reads = [.header hdrLength]) : ¬ SegmentationIndependent s₀ := by
  intro hind
  -- a message id that is not in the buffer, and whose first byte is not the version
  obtain ⟨v, hv, hne⟩ : ∃ v : UInt8, v.toInt8 ≠ Msg.version ∧ UInt32.ofNat (leNat [v, 0, 0, 0]) ≠ s₀.msg.hdr.msgId := by
    by_cases hzero : s₀.msg.hdr.msgId = 0
    · exact ⟨2, by decide, by rw [hzero]; decide⟩
    · exact ⟨0, by decide, Ne.symm hzero⟩
  have hwhole : (CpMsgHeader.ofBytes [1, 0, 0, 0, v, 0, 0, 0]).toBytes = [1, 0, 0, 0, v, 0, 0, 0] :=
    CpMsgHeader.toBytes_ofBytes rfl
  have hst : s₀.msg.storeHead [1, 0, 0, 0, v, 0, 0, 0] = ⟨.ofBytes [1, 0, 0, 0, v, 0, 0, 0], s₀.msg.body⟩ := by
    conv_lhs => rw [← hwhole]
    exact Msg.storeHead_toBytes _ _
  obtain ⟨s, out, hr, hreads, hbody, hdel⟩ := run_bare hs₀ (hwhole ▸ completes_toBytes _) hst rfl rfl
  obtain ⟨s₁, out₁, hr₁, hreads₁, hbody₁, hdel₁⟩ :=
    run_bare hs₀ (completes_half 1 0 0 0) (storeHead_half s₀.msg 1 0 0 0) rfl rfl
  have hrejected : (s₁.msg.storeHead [v, 0, 0, 0]).checkHeader = false := by
    rw [storeHead_half, ← Bool.not_eq_true, Msg.checkHeader_iff]
    exact fun hck => hv hck.1
  have hstep := step_storeHead_rejected hreads₁ (completes_half v 0 0 0) hrejected
  have hdeliver := hind [[1, 0, 0, 0, v, 0, 0, 0], []] [[1, 0, 0, 0], [], [v, 0, 0, 0]] _ _ _ _ hr (hr₁.snoc hstep)
    (settled_of_header hreads) (settled_of_header rfl) rfl fun n hn => by
      have hnone : bodyReads [.asyncRead (.header hdrLength)] = [] := rfl
      simp only [bodyReads_append, hbody, hbody₁, hnone] at hn
      obtain rfl : n = 0 := by simpa using hn
      exact Nat.zero_le _
  have hid := congrArg (List.map fun d => (CpMsgHeader.ofBytes d.1).msgId) hdeliver
  simp only [deliveries_append, hdel, hdel₁, List.map_append, List.map_cons, List.map_nil,
    CpMsgHeader.ofBytes_toBytes] at hid
  exact hne (List.cons.inj hid).1

theorem not_segmentationIndependent_started :
    ¬ SegmentationIndependent (new 1 ⟨"127.0.0.1", 5000⟩ .zero).start.1 :=
  not_segmentationIndependent rfl

/-- A header that arrives in two halves is delivered as another message, though no length is negative. -/
theorem short_read_delivers :
    ∃ (cs cs' : List (List UInt8)) (s s' : TcpSession) (out out' : List Out),
      machine.Run (new 1 ⟨"127.0.0.1", 5000⟩ .zero).start.1 (completions cs) s out ∧
      machine.Run (new 1 ⟨"127.0.0.1", 5000⟩ .zero).start.1 (completions cs') s' out' ∧
      Settled s ∧ Settled s' ∧ cs.flatten = cs'.flatten ∧
      (∀ n ∈ bodyReads (out ++ out'), n ≤ maxCpMsgData) ∧ deliveries out ≠ deliveries out' := by
  refine ⟨[[1, 0, 0, 0, 3, 0, 0, 0], []], [[1, 0, 0, 0], [], [3, 0, 0, 0]], _, _, _, _, Machine.run_of_exec rfl,
    Machine.run_of_exec rfl, ?_, ?_, rfl, ?_, ?_⟩ <;> decide

/-! ## Frames -/

/-- The completions of one message: its header and its payload. -/
def frame (m : Msg) : List (List UInt8) := [m.hdr.toBytes, m.payload]

theorem flatten_frame {m : Msg} (h : m.InRange) : (frame m).flatten = m.wire := by
  simp [frame, Msg.wire_eq h]

/-- A message stored over anything has its header and payload. -/
theorem delivery_store {m : Msg} (h : m.InRange) (body : Block maxCpMsgData) :
    delivery ⟨m.hdr, body.store m.payload⟩ = delivery m := by
  have hlen : m.payload.length = toSizeT m.bodyLength := (Msg.length_payload h).trans h.toSizeT_bodyLength.symm
  exact congrArg (Prod.mk m.hdr.toBytes) (Msg.payload_storeBody (m := ⟨m.hdr, body⟩) h hlen)

/-- One message received. -/
theorem run_frame {m : Msg} (hm : m.InRange) (hv : m.hdr.version = Msg.version)
    (hs : s.reads = [.header hdrLength]) :
    ∃ s' out, machine.Run s (completions (frame m)) s' out ∧ s'.reads = [.header hdrLength] ∧
      deliveries out = [delivery m] ∧
      ∀ cs, Full s' cs → Full s (frame m ++ cs) := by
  have hck : (⟨m.hdr, s.msg.body⟩ : Msg).checkHeader = true := (Msg.checkHeader_iff _).2 ⟨hv, hm.2⟩
  have h₁ := step_header hs hck
  have hsize : toSizeT m.hdr.bodyLength.toInt = m.payload.length := by
    rw [Msg.length_payload hm]
    exact hm.toSizeT_bodyLength
  have hle : m.payload.length ≤ maxCpMsgData := by
    rw [Msg.length_payload hm]
    exact hm.bodyLength_toNat_le
  rw [hsize] at h₁
  obtain ⟨rx, h₂⟩ := step_body { s with msg := ⟨m.hdr, s.msg.body⟩, reads := [.body m.payload.length] } m.payload
    rfl rfl hle
  have hr₁ : machine.Run s [.readDone 0 (.ok m.hdr.toBytes)] _ _ := Machine.Run.single h₁
  refine ⟨_, _, hr₁.snoc h₂, rfl, ?_, ?_⟩
  · simpa [deliveries, Msg.storeBody] using delivery_store hm s.msg.body
  · intro cs hcs
    refine ⟨fun op hop => ?_, fun s₁ o hs₁ => ⟨fun op hop => ?_, fun s₂ o₂ hs₂ => ?_⟩⟩
    · rw [hs] at hop
      obtain rfl : ReadOp.header hdrLength = op := by simpa using hop
      exact m.hdr.length_toBytes
    · obtain ⟨rfl, rfl⟩ : _ = s₁ ∧ _ = o := by simpa using h₁.symm.trans hs₁
      obtain rfl : ReadOp.body m.payload.length = op := by simpa using hop
      rfl
    · obtain ⟨rfl, rfl⟩ : _ = s₁ ∧ _ = o := by simpa using h₁.symm.trans hs₁
      obtain ⟨rfl, rfl⟩ : _ = s₂ ∧ _ = o₂ := by simpa using h₂.symm.trans hs₂
      exact hcs

/-- Any messages received, one after the other. -/
theorem run_frames : ∀ {ms : List Msg} {s : TcpSession}, (∀ m ∈ ms, m.InRange ∧ m.hdr.version = Msg.version) →
    s.reads = [.header hdrLength] → ∃ s' out, machine.Run s (completions (ms.flatMap frame)) s' out ∧
      Full s (ms.flatMap frame) ∧ s'.reads = [.header hdrLength] ∧ deliveries out = ms.map delivery
  | [], s, _, hs => ⟨s, [], Machine.Run.nil, trivial, hs, rfl⟩
  | m :: ms, s, hms, hs => by
    obtain ⟨hm, hv⟩ := hms m (by simp)
    obtain ⟨s₁, out₁, hr₁, hs₁, hd₁, hfull₁⟩ := run_frame hm hv hs
    obtain ⟨s', out, hr, hfull, hs', hd⟩ := run_frames (fun m' hm' => hms m' (List.mem_cons_of_mem _ hm')) hs₁
    refine ⟨s', out₁ ++ out, ?_, hfull₁ _ hfull, hs', ?_⟩
    · simpa [completions] using hr₁.append hr
    · simp [hd₁, hd]

theorem flatten_frames : ∀ {ms : List Msg}, (∀ m ∈ ms, m.InRange) →
    (ms.flatMap frame).flatten = ms.flatMap Msg.wire
  | [], _ => rfl
  | m :: ms, h => by
    rw [List.flatMap_cons, List.flatten_append, flatten_frame (h m (by simp)),
      flatten_frames (fun m' hm' => h m' (by simp [hm'])), List.flatMap_cons]

/-- `encodeMsg` made the message, of data whose length a body can hold. -/
def Encoded (m : Msg) : Prop :=
  ∃ (m₀ : Msg) (msgId : MsgId) (result : ResponseCode) (data : Option (List UInt8)) (dataLength : Int),
    0 ≤ dataLength ∧ dataLength ≤ maxCpMsgData ∧
      (m₀.encodeMsg msgId result data dataLength = some m ∨ m₀.encodeMsgNoResult msgId data dataLength = some m)

theorem Encoded.spec {m : Msg} (h : Encoded m) : m.InRange ∧ m.hdr.version = Msg.version := by
  obtain ⟨m₀, msgId, result, data, dataLength, h₀, h₁, he⟩ := h
  have he : ∃ result, m₀.encodeMsg msgId result data dataLength = some m := by
    rcases he with he | he
    · exact ⟨_, he⟩
    · exact ⟨_, he⟩
  obtain ⟨result, he⟩ := he
  have hhdr := Msg.hdr_encodeMsg he
  have hlen : m.bodyLength = dataLength := by
    simp only [maxCpMsgData] at h₁
    rw [Msg.bodyLength, hhdr]
    exact Int16.toInt_ofInt_of_le (by omega) (by omega)
  exact ⟨⟨by omega, by omega⟩, by rw [hhdr]; rfl⟩

/-- **Framing round trip.** The wire images of encoded messages, fed to a session that waits for a header with anything
in its buffer: full completions cut them in one way, and after the completions of each first part of the messages the
session has delivered exactly these, in order, and waits for a header. -/
theorem framing_round_trip (ms : List Msg) (hms : ∀ m ∈ ms, Encoded m) (hs₀ : s₀.reads = [.header hdrLength]) :
    (∃ cs s out, machine.Run s₀ (completions cs) s out ∧ Full s₀ cs ∧ Settled s ∧ cs.flatten = ms.flatMap Msg.wire) ∧
    ∀ cs s out, machine.Run s₀ (completions cs) s out → Full s₀ cs → Settled s → cs.flatten = ms.flatMap Msg.wire →
      deliveries out = ms.map delivery ∧ s.reads = [.header hdrLength] ∧
      ∀ pre, pre <+: ms → ∃ cs₁ s₁ out₁, cs₁ <+: cs ∧ cs₁.flatten = pre.flatMap Msg.wire ∧
        machine.Run s₀ (completions cs₁) s₁ out₁ ∧ deliveries out₁ = pre.map delivery ∧
        s₁.reads = [.header hdrLength] := by
  have hspec : ∀ m ∈ ms, m.InRange ∧ m.hdr.version = Msg.version := fun m hm => (hms m hm).spec
  obtain ⟨s', out', hr', hfull', hs', hd'⟩ := run_frames hspec hs₀
  have hflat := flatten_frames fun m hm => (hspec m hm).1
  refine ⟨⟨_, s', out', hr', hfull', settled_of_header hs', hflat⟩, ?_⟩
  intro cs s out hr hfull hset hcs
  obtain rfl := whole_unique hr hr' hset (settled_of_header hs') hfull.whole hfull'.whole (hcs.trans hflat.symm)
  obtain ⟨rfl, rfl⟩ := hr.det hr'
  refine ⟨hd', hs', ?_⟩
  rintro pre ⟨post, rfl⟩
  have hpre : ∀ m ∈ pre, m.InRange ∧ m.hdr.version = Msg.version := fun m hm => hspec m (List.mem_append_left _ hm)
  obtain ⟨s₁, out₁, hr₁, -, hs₁, hd₁⟩ := run_frames hpre hs₀
  refine ⟨_, s₁, out₁, ?_, flatten_frames fun m hm => (hpre m hm).1, hr₁, hd₁, hs₁⟩
  rw [List.flatMap_append]
  exact List.prefix_append _ _

theorem encoded_hello : Encoded .hello :=
  ⟨.zero, .nfMessage, .noneCode, some [104, 105], 2, by decide, by decide, Or.inl rfl⟩

theorem framing_round_trip_hello : ∃ cs s out,
    machine.Run (new 1 ⟨"127.0.0.1", 5000⟩ .zero).start.1 (completions cs) s out ∧
      deliveries out = [delivery .hello, delivery .hello] := by
  have hs₀ : (new 1 ⟨"127.0.0.1", 5000⟩ .zero).start.1.reads = [.header hdrLength] := rfl
  obtain ⟨⟨cs, s, out, hr, hfull, hset, hcs⟩, hall⟩ := framing_round_trip [.hello, .hello] (by simp [encoded_hello]) hs₀
  exact ⟨cs, s, out, hr, (hall cs s out hr hfull hset hcs).1⟩

/-! ## Streams as chunks -/

variable {e : Event} {stream : List UInt8} {ms : List Msg} {m : Msg}

/-- The event is no read that completes with less than was asked for. -/
def FullRead (s : TcpSession) (e : Event) : Prop :=
  ∀ i bs op, e = .readDone i (.ok bs) → s.reads[i]? = some op → bs.length = op.size

/-- The bytes an event brings. -/
def Event.received : Event → List UInt8
  | .readDone _ (.ok bs) => bs
  | _ => []

/-- The stream received so far falls into chunks, headers alone or with their bodies, and the messages are some of them,
in order; what is left over is the header whose body is awaited. -/
def Framed (s : TcpSession) (stream : List UInt8) (ms : List Msg) : Prop :=
  ∃ chunks rest, stream = List.flatten chunks ++ rest ∧ (ms.map Msg.wire).Sublist chunks ∧
    ((s.reads = [] ∨ s.reads = [.header hdrLength]) ∧ rest = [] ∨
      s.reads = [.body (toSizeT s.msg.bodyLength)] ∧ rest = s.msg.hdr.toBytes)

theorem framed_start (id : Int) (ep : Endpoint) (mem : Memory) : Framed (new id ep mem).start.1 [] [] :=
  ⟨[], [], rfl, List.Sublist.refl _, Or.inl ⟨Or.inr rfl, rfl⟩⟩

/-- What leaves the reads and the buffer alone leaves the chunks alone. -/
theorem Framed.frame (h : Framed s stream ms) (hreads : s'.reads = s.reads) (hmsg : s'.msg = s.msg) :
    Framed s' stream ms := by
  unfold Framed
  rw [hreads, hmsg]
  exact h

/-- While a header is read, nothing is left over. -/
theorem Framed.header {i n : Nat} (h : Framed s stream ms) (hop : s.reads[i]? = some (.header n)) :
    n = hdrLength ∧ s.reads.eraseIdx i = [] ∧
      ∃ chunks, stream = List.flatten chunks ∧ (ms.map Msg.wire).Sublist chunks := by
  obtain ⟨chunks, rest, hstream, hsub, ⟨hr | hr, rfl⟩ | ⟨hr, -⟩⟩ := h
  · rw [hr] at hop
    cases hop
  · rw [hr] at hop
    obtain ⟨rfl, heq⟩ := eq_of_getElem?_singleton hop
    exact ⟨(ReadOp.header.inj heq).symm, by rw [hr]; rfl, chunks, by simpa using hstream, hsub⟩
  · rw [hr] at hop
    cases (eq_of_getElem?_singleton hop).2

/-- While a body is read, its header is left over. -/
theorem Framed.body {i n : Nat} (h : Framed s stream ms) (hop : s.reads[i]? = some (.body n)) :
    n = toSizeT s.msg.bodyLength ∧ s.reads.eraseIdx i = [] ∧
      ∃ chunks, stream = List.flatten chunks ++ s.msg.hdr.toBytes ∧ (ms.map Msg.wire).Sublist chunks := by
  obtain ⟨chunks, rest, hstream, hsub, ⟨hr | hr, -⟩ | ⟨hr, rfl⟩⟩ := h
  · rw [hr] at hop
    cases hop
  · rw [hr] at hop
    cases (eq_of_getElem?_singleton hop).2
  · rw [hr] at hop
    obtain ⟨rfl, heq⟩ := eq_of_getElem?_singleton hop
    exact ⟨(ReadOp.body.inj heq).symm, by rw [hr]; rfl, chunks, hstream, hsub⟩

/-- A body received in full makes the wire image of the message, if its length is in range. -/
theorem wire_storeBody (hm : (s.msg.storeBody bs).InRange) (hlen : bs.length = toSizeT s.msg.bodyLength) :
    (s.msg.storeBody bs).wire = s.msg.hdr.toBytes ++ bs := by
  rw [Msg.wire_eq hm, Msg.payload_storeBody (m := s.msg) hm hlen]
  rfl

/-- **A step cuts the stream further**, and a message in range that it delivers is the chunk it cuts off. -/
theorem framed_step (h : Framed s stream ms) (hs : s.step e = some (s', o)) (he : ¬ e.Starts) (hfull : FullRead s e) :
    Framed s' (stream ++ e.received) ms ∧
      ∀ m, .message m ∈ o → m.InRange → Framed s' (stream ++ e.received) (ms ++ [m]) := by
  cases step_path hs with
  | start => exact absurd trivial he
  | connectOk hc => exact absurd trivial he
  | headerRejected i n bs hop hbs hck =>
    obtain ⟨rfl, hnil, chunks, rfl, hsub⟩ := h.header hop
    refine ⟨⟨chunks ++ [bs], [], by simp [Event.received], hsub.trans (List.sublist_append_left _ _), ?_⟩, by simp⟩
    simp [hnil]
  | headerAccepted i n bs hop hbs hck =>
    obtain ⟨rfl, hnil, chunks, rfl, hsub⟩ := h.header hop
    have hlen : bs.length = hdrLength := hfull i bs _ rfl hop
    have hhdr : (s.msg.storeHead bs).hdr.toBytes = bs := by
      simp only [Msg.storeHead]
      rw [overwrite_full (by simpa using hlen), CpMsgHeader.toBytes_ofBytes hlen]
    refine ⟨⟨chunks, bs, rfl, hsub, Or.inr ⟨by simp [hnil], hhdr.symm⟩⟩, by simp⟩
  | headerError i n ec hop hn =>
    obtain ⟨rfl, hnil, chunks, rfl, hsub⟩ := h.header hop
    exact ⟨⟨chunks, [], rfl, hsub, Or.inl ⟨Or.inl hnil, rfl⟩⟩, by simp⟩
  | bodyOk i n bs hop hbs =>
    obtain ⟨rfl, hnil, chunks, rfl, hsub⟩ := h.body hop
    have hlen : bs.length = toSizeT s.msg.bodyLength := hfull i bs _ rfl hop
    refine ⟨⟨chunks ++ [s.msg.hdr.toBytes ++ bs], [], by simp [Event.received],
      hsub.trans (List.sublist_append_left _ _), Or.inl ⟨Or.inr (by simp [hnil]), rfl⟩⟩, fun m hm hin => ?_⟩
    obtain rfl : m = s.msg.storeBody bs := by simpa using hm
    refine ⟨chunks ++ [s.msg.hdr.toBytes ++ bs], [], by simp [Event.received], ?_,
      Or.inl ⟨Or.inr (by simp [hnil]), rfl⟩⟩
    rw [List.map_append, List.map_singleton, wire_storeBody hin hlen]
    exact hsub.append (List.Sublist.refl _)
  | bodyError i n ec hop hn =>
    obtain ⟨rfl, hnil, chunks, rfl, hsub⟩ := h.body hop
    refine ⟨⟨chunks ++ [s.msg.hdr.toBytes], [], by simp [Event.received],
      hsub.trans (List.sublist_append_left _ _), Or.inl ⟨Or.inl hnil, rfl⟩⟩, by simp⟩
  | _ =>
    refine ⟨?_, by simp⟩
    simp only [Event.received, List.append_nil]
    exact h.frame rfl rfl

end TcpSession

end Torinet
