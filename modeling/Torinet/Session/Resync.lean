import Torinet.Lib.Framing
import Torinet.Session.Receive

/-!
# Rejected frames

A session that rejects a header reads the next one right after it, from what is the body of the rejected frame. As a
reader of frames (`Lib/Framing.lean`, `framing`) it takes what `Framing.Scan` says (`feeds_iff_scan`); so the messages
it delivers are the frames whose header passes the check iff the bodies of the others happen to be skipped
(`inSync_iff`).
-/

namespace Torinet

open Lib

namespace TcpSession

variable {s s' s₀ : TcpSession} {c bs stream : List UInt8} {n k : Nat} {o : List Out}
  {ds : List (Nat × List UInt8 × List UInt8)} {h : CpMsgHeader}

/-- A header, and a body of the length it says. -/
structure Frame where
  hdr : CpMsgHeader
  body : List UInt8
  bodyLength_eq : hdr.bodyLength.toInt = body.length
  length_body : body.length ≤ maxCpMsgData

namespace Frame

def wire (f : Frame) : List UInt8 := f.hdr.toBytes ++ f.body

/-- The header passes the check, which does not look at the body. -/
def Accepted (f : Frame) : Prop := (⟨f.hdr, .zero maxCpMsgData⟩ : Msg).checkHeader = true

instance (f : Frame) : Decidable f.Accepted := inferInstanceAs (Decidable (_ = true))

end Frame

/-! ## Streams that are read -/

/-- The calls of the message handler in a run over completions, each with how much of the stream has been read before
the completion that leads to it: that is where its body starts. -/
def deliveriesAt : TcpSession → Nat → List (List UInt8) → List (Nat × List UInt8 × List UInt8)
  | _, _, [] => []
  | s, n, c :: cs =>
    match s.step (.readDone 0 (.ok c)) with
    | none => []
    | some (s', o) => (deliveries o).map (fun d => (n, d)) ++ deliveriesAt s' (n + c.length) cs

/-- What is left of the stream is too little for the read that is outstanding. -/
def Stalled (s : TcpSession) (rest : List UInt8) : Prop := ∀ op ∈ s.reads, rest.length < op.size

instance (s : TcpSession) (rest : List UInt8) : Decidable (s.Stalled rest) :=
  inferInstanceAs (Decidable (∀ op ∈ s.reads, rest.length < op.size))

/-- The stream, from the offset `n` on, is read in full completions as far as it goes; `ds` is what is delivered. -/
def Feeds (s₀ : TcpSession) (n : Nat) (stream : List UInt8) (ds : List (Nat × List UInt8 × List UInt8)) : Prop :=
  ∃ cs rest s out, machine.Run s₀ (completions cs) s out ∧ Full s₀ cs ∧ s.Stalled rest ∧ cs.flatten ++ rest = stream ∧
    deliveriesAt s₀ n cs = ds

/-- The frames whose header passes the check, each with where its body starts. -/
def acceptedAt : Nat → List Frame → List (Nat × List UInt8 × List UInt8)
  | _, [] => []
  | n, f :: fs =>
    let rest := acceptedAt (n + f.wire.length) fs
    if f.Accepted then (n + hdrLength, f.hdr.toBytes, f.body) :: rest else rest

/-- Fed the frames, the session delivers those whose header passes the check: each of them in its place in the stream,
and nothing that has its header anywhere else. -/
def InSync (s₀ : TcpSession) (fs : List Frame) : Prop :=
  ∀ ds, Feeds s₀ 0 (fs.flatMap Frame.wire) ds ↔ ds = acceptedAt 0 fs

theorem feeds_of_stalled (hst : s.Stalled bs) : Feeds s n bs [] :=
  ⟨[], bs, s, [], Machine.Run.nil, trivial, hst, rfl, rfl⟩

/-- One completion more. -/
theorem Feeds.cons (hs : s.step (.readDone 0 (.ok c)) = some (s', o))
    (hfull : ∀ op, s.reads[0]? = some op → c.length = op.size) (hf : Feeds s' (n + c.length) bs ds) :
    Feeds s n (c ++ bs) ((deliveries o).map (fun d => (n, d)) ++ ds) := by
  obtain ⟨cs, rest, s₁, out, hr, hcs, hst, rfl, rfl⟩ := hf
  refine ⟨c :: cs, rest, s₁, o ++ out, (Machine.Run.single hs).append hr, ⟨hfull, fun s₂ o₂ hs₂ => ?_⟩, hst, ?_, ?_⟩
  · obtain ⟨rfl, rfl⟩ : s' = s₂ ∧ o = o₂ := by simpa using hs.symm.trans hs₂
    exact hcs
  · simp
  · simp only [deliveriesAt, show s.step (.readDone 0 (.ok c)) = some (s', o) from hs]

/-- The first completion. -/
theorem Feeds.cases (hf : Feeds s n stream ds) : s.Stalled stream ∧ ds = [] ∨
    ∃ c bs s' o ds', stream = c ++ bs ∧ s.step (.readDone 0 (.ok c)) = some (s', o) ∧
      (∀ op, s.reads[0]? = some op → c.length = op.size) ∧ Feeds s' (n + c.length) bs ds' ∧
      ds = (deliveries o).map (fun d => (n, d)) ++ ds' := by
  obtain ⟨cs, rest, s₁, out, hr, hcs, hst, rfl, rfl⟩ := hf
  cases cs with
  | nil =>
    obtain ⟨rfl, -⟩ := hr.det Machine.Run.nil
    exact Or.inl ⟨hst, rfl⟩
  | cons c cs =>
    obtain ⟨s', o, out', hs, hr, -⟩ := hr.first
    refine Or.inr ⟨c, cs.flatten ++ rest, s', o, deliveriesAt s' (n + c.length) cs, by simp, hs, hcs.1, ?_, ?_⟩
    · exact ⟨cs, rest, s₁, out', hr, hcs.2 _ _ hs, hst, rfl, rfl⟩
    · simp only [deliveriesAt, show s.step (.readDone 0 (.ok c)) = some (s', o) from hs]

/-! ## Sessions as readers of frames -/

/-- How a session reads frames. -/
def framing : Framing UInt8 where
  hdr := hdrLength
  room := maxCpMsgData
  size bs :=
    let m : Msg := ⟨.ofBytes bs, .zero maxCpMsgData⟩
    if m.checkHeader then some (toSizeT m.bodyLength) else none
  hdr_pos := by decide

theorem size_toBytes (h : CpMsgHeader) : framing.size h.toBytes =
    if (⟨h, .zero maxCpMsgData⟩ : Msg).checkHeader then some (toSizeT h.bodyLength.toInt) else none := by
  simp only [framing, CpMsgHeader.ofBytes_toBytes]
  rfl

/-- A header that is not rejected announces the body. -/
theorem Frame.size_head (f : Frame) (k : Nat) (hk : framing.size f.hdr.toBytes = some k) : k = f.body.length := by
  have hle := f.length_body
  rw [size_toBytes] at hk
  split at hk
  · obtain rfl := Option.some.inj hk
    rw [f.bodyLength_eq, toSizeT_of_nonneg (by omega) (by simp only [maxCpMsgData] at hle; omega), Int.toNat_natCast]
  · cases hk

def Frame.toFraming (f : Frame) : framing.Frame where
  head := f.hdr.toBytes
  body := f.body
  length_head := f.hdr.length_toBytes
  size_head := f.size_head
  length_body := f.length_body

@[simp] theorem Frame.wire_toFraming (f : Frame) : f.toFraming.wire = f.wire := rfl

theorem Frame.taken_toFraming (f : Frame) : f.toFraming.Taken ↔ f.Accepted := by
  rw [Framing.Frame.Taken, Frame.toFraming, size_toBytes, Frame.Accepted]
  split <;> simp_all

/-- A body received in full is delivered under its header. -/
theorem deliveries_body {body : List UInt8} (hs : s.reads = [.body (toSizeT s.msg.bodyLength)])
    (hlen : body.length = toSizeT s.msg.bodyLength) (hroom : body.length ≤ maxCpMsgData) :
    ∃ s' o, s.step (.readDone 0 (.ok body)) = some (s', o) ∧ s'.reads = [.header hdrLength] ∧
      deliveries o = [(s.msg.hdr.toBytes, body)] := by
  obtain ⟨rx, hstep⟩ := step_body s body hs hlen (hlen ▸ hroom)
  have hin : s.msg.InRange := Msg.inRange_of_toSizeT_le (hlen ▸ hroom)
  refine ⟨_, _, hstep, rfl, ?_⟩
  have hd : delivery (s.msg.storeBody body) = (s.msg.hdr.toBytes, body) :=
    congrArg (Prod.mk s.msg.hdr.toBytes) (Msg.payload_storeBody hin hlen)
  simp only [deliveries, List.filterMap_cons, List.filterMap_nil, hd]

/-- A session that waits for a body: the body does not arrive, or it is delivered. -/
theorem Feeds.of_body (hf : Feeds s n stream ds) (hs : s.reads = [.body (toSizeT s.msg.bodyLength)]) :
    stream.length < toSizeT s.msg.bodyLength ∧ ds = [] ∨
    ∃ body rest s' ds', stream = body ++ rest ∧ body.length = toSizeT s.msg.bodyLength ∧ body.length ≤ maxCpMsgData ∧
      s'.reads = [.header hdrLength] ∧ Feeds s' (n + body.length) rest ds' ∧
      ds = (n, s.msg.hdr.toBytes, body) :: ds' := by
  rcases hf.cases with ⟨hst, rfl⟩ | ⟨body, rest, s', o, ds', rfl, hstep, hfull, hf', rfl⟩
  · exact Or.inl ⟨hst (.body _) (hs ▸ List.mem_singleton.2 rfl), rfl⟩
  · have hop : s.reads[0]? = some (.body (toSizeT s.msg.bodyLength)) := by rw [hs]; rfl
    have hlen : body.length = toSizeT s.msg.bodyLength := hfull _ hop
    obtain ⟨op, hop', -, -, hroom⟩ := completes_of_step hstep
    obtain rfl := Option.some.inj (hop.symm.trans hop')
    obtain ⟨s₂, o₂, hstep₂, hs₂, hd⟩ := deliveries_body hs hlen hroom
    obtain ⟨rfl, rfl⟩ : s' = s₂ ∧ o = o₂ := by simpa using hstep.symm.trans hstep₂
    exact Or.inr ⟨body, rest, s', ds', rfl, hlen, hroom, hs₂, hf', by rw [hd]; rfl⟩

/-- A session that waits for a header reads frames as the reader does. -/
theorem scan_of_feeds (hf : Feeds s n stream ds) (hs : s.reads = [.header hdrLength]) : framing.Scan n stream ds := by
  induction hN : stream.length using Nat.strong_induction_on generalizing s n stream ds with
  | _ N ih =>
    subst hN
    rcases hf.cases with ⟨hst, rfl⟩ | ⟨c, bs, s', o, ds', rfl, hstep, hfull, hf', rfl⟩
    · exact Framing.Scan.short (hst (.header hdrLength) (hs ▸ List.mem_singleton.2 rfl))
    · have hc : c.length = hdrLength := hfull (.header hdrLength) (by rw [hs]; rfl)
      obtain ⟨h, rfl⟩ : ∃ h : CpMsgHeader, c = h.toBytes := ⟨.ofBytes c, (CpMsgHeader.toBytes_ofBytes hc).symm⟩
      by_cases hck : (⟨h, s.msg.body⟩ : Msg).checkHeader = true
      · have hsize : framing.size h.toBytes = some (toSizeT h.bodyLength.toInt) := (size_toBytes h).trans (if_pos hck)
        rw [step_header hs hck, Option.some.injEq, Prod.mk.injEq] at hstep
        obtain ⟨rfl, rfl⟩ := hstep
        rw [hc] at hf'
        rcases hf'.of_body rfl with ⟨hlt, rfl⟩ | ⟨body, rest, s₂, ds₂, rfl, hlen, hroom, hs₂, hf₂, rfl⟩
        · exact Framing.Scan.starve hc hsize hlt
        · have hsize : framing.size h.toBytes = some body.length := hlen ▸ hsize
          refine Framing.Scan.take hc hsize hroom (ih _ ?_ hf₂ hs₂ rfl)
          simp only [List.length_append, hc, hdrLength]
          omega
      · have hsize : framing.size h.toBytes = none := (size_toBytes h).trans (if_neg hck)
        rw [step_header_rejected hs (by simpa using hck), Option.some.injEq, Prod.mk.injEq] at hstep
        obtain ⟨rfl, rfl⟩ := hstep
        rw [hc] at hf'
        refine Framing.Scan.skip hc hsize (ih _ ?_ hf' rfl rfl)
        simp only [List.length_append, hc, hdrLength]
        omega

/-- The header of a reader is one of a session. -/
theorem exists_toBytes {hd : List UInt8} (hh : hd.length = framing.hdr) : ∃ h : CpMsgHeader, hd = h.toBytes :=
  ⟨.ofBytes hd, (CpMsgHeader.toBytes_ofBytes hh).symm⟩

/-- What a header that is not rejected announces. -/
theorem of_size_eq_some (hsize : framing.size h.toBytes = some k) :
    (⟨h, s.msg.body⟩ : Msg).checkHeader = true ∧ toSizeT h.bodyLength.toInt = k := by
  rw [size_toBytes] at hsize
  split at hsize
  · rename_i hck
    exact ⟨hck, Option.some.inj hsize⟩
  · cases hsize

theorem of_size_eq_none (hsize : framing.size h.toBytes = none) :
    (⟨h, s.msg.body⟩ : Msg).checkHeader = false := by
  rw [size_toBytes] at hsize
  split at hsize
  · cases hsize
  · rename_i hck
    exact Bool.eq_false_iff.2 hck

/-- What the reader takes, a session that waits for a header delivers. -/
theorem feeds_of_scan (hsc : framing.Scan n stream ds) : ∀ {s : TcpSession}, s.reads = [.header hdrLength] →
    Feeds s n stream ds := by
  induction hsc with
  | short hlt =>
    intro s hs
    refine feeds_of_stalled fun op hop => ?_
    rw [hs, List.mem_singleton] at hop
    exact hop ▸ hlt
  | skip hh hsize _ ih =>
    intro s hs
    obtain ⟨h, rfl⟩ := exists_toBytes hh
    refine Feeds.cons (step_header_rejected hs (of_size_eq_none hsize)) (fun op hop => ?_) (by simpa [hh] using ih rfl)
    rw [hs] at hop
    exact (eq_of_getElem?_singleton hop).2 ▸ hh
  | starve hh hsize hlt =>
    intro s hs
    obtain ⟨h, rfl⟩ := exists_toBytes hh
    obtain ⟨hck, rfl⟩ := of_size_eq_some (s := s) hsize
    refine Feeds.cons (step_header hs hck) (fun op hop => ?_) (feeds_of_stalled fun op hop => ?_)
    · rw [hs] at hop
      exact (eq_of_getElem?_singleton hop).2 ▸ hh
    · rw [List.mem_singleton] at hop
      exact hop ▸ hlt
  | @take n hd body bs ds hh hsize hroom _ ih =>
    intro s hs
    obtain ⟨h, rfl⟩ := exists_toBytes hh
    obtain ⟨hck, hlen⟩ := of_size_eq_some (s := s) hsize
    obtain ⟨s', o, hstep, hs', hd⟩ := deliveries_body (s := { s with
      msg := ⟨h, s.msg.body⟩
      reads := [.body (toSizeT h.bodyLength.toInt)] }) rfl hlen.symm hroom
    refine Feeds.cons (step_header hs hck) (fun op hop => ?_) ?_
    · rw [hs] at hop
      exact (eq_of_getElem?_singleton hop).2 ▸ hh
    · have hf := Feeds.cons (n := n + h.toBytes.length) hstep ?_ (by simpa [hh] using ih hs')
      · simpa [hd, hh] using hf
      · intro op hop
        exact (eq_of_getElem?_singleton hop).2 ▸ hlen.symm

/-- **A session reads frames** as the reader does. -/
theorem feeds_iff_scan (hs : s.reads = [.header hdrLength]) : Feeds s n stream ds ↔ framing.Scan n stream ds :=
  ⟨fun hf => scan_of_feeds hf hs, fun hsc => feeds_of_scan hsc hs⟩

/-! ## Staying in sync -/

/-- Before each frame whose header passes the check, the wire images of the rejected ones since the last such frame fall
into pieces of 8 bytes none of which passes it; and of those after the last such frame, the first piece that passes it
announces a body longer than what is left. -/
def Resyncs (fs : List Frame) : Prop := framing.Resyncs [] (fs.map Frame.toFraming)

theorem taken_map : ∀ (fs : List Frame) (n : Nat), framing.taken n (fs.map Frame.toFraming) = acceptedAt n fs
  | [], _ => rfl
  | f :: fs, n => by
    simp only [List.map_cons, Framing.taken, acceptedAt, Frame.wire_toFraming, Frame.taken_toFraming, taken_map fs]
    rfl

/-- **When a session stays in sync**, waiting for a header with anything in its buffer: iff the bodies of the rejected
frames happen to be skipped. -/
theorem inSync_iff (hs₀ : s₀.reads = [.header hdrLength]) (fs : List Frame) : InSync s₀ fs ↔ Resyncs fs := by
  have hwire : (fs.map Frame.toFraming).flatMap Framing.Frame.wire = fs.flatMap Frame.wire := by
    rw [List.flatMap_map]
    rfl
  have hscan : framing.Scan 0 ([] ++ (fs.map Frame.toFraming).flatMap Framing.Frame.wire)
      (framing.taken (0 + 0) (fs.map Frame.toFraming)) ↔ framing.Resyncs [] (fs.map Frame.toFraming) :=
    Framing.scan_iff
  rw [List.nil_append, Nat.add_zero, hwire, taken_map] at hscan
  rw [Resyncs, ← hscan]
  constructor
  · intro h
    exact (feeds_iff_scan hs₀).1 ((h _).2 rfl)
  · intro h ds
    rw [feeds_iff_scan hs₀]
    exact ⟨fun h' => h'.det h, fun heq => heq ▸ h⟩

/-- A frame of another version, whose body is a header that passes the check. -/
def headerInBody : Frame := ⟨⟨2, 0, 8, 3⟩, [1, 0, 0, 0, 3, 0, 0, 0], rfl, by decide⟩

/-- The body of the frame is delivered as a message. -/
theorem headerInBody_not_inSync : ¬ InSync (new 1 ⟨"127.0.0.1", 5000⟩ .zero).start.1 [headerInBody] := by
  intro h
  have hf : Feeds (new 1 ⟨"127.0.0.1", 5000⟩ .zero).start.1 0 ([headerInBody].flatMap Frame.wire)
      [(16, [1, 0, 0, 0, 3, 0, 0, 0], [])] := by
    have hbody : framing.Scan 8 ([1, 0, 0, 0, 3, 0, 0, 0] ++ ([] ++ [])) [(16, [1, 0, 0, 0, 3, 0, 0, 0], [])] :=
      .take rfl (by decide) (by decide) (.short (by decide))
    exact (feeds_iff_scan rfl).2 (.skip (h := headerInBody.hdr.toBytes) rfl (by decide) hbody)
  have hds := (h _).1 hf
  simp [acceptedAt, headerInBody, Frame.Accepted, Msg.checkHeader, Msg.version] at hds

/-- A frame of another version whose body is too short to be a header, after one that says hello. -/
def shortBody : List Frame :=
  [⟨⟨Msg.version, 0, 2, 3⟩, [104, 105], rfl, by decide⟩, ⟨⟨2, 0, 2, 3⟩, [104, 105], rfl, by decide⟩]

theorem inSync_iff_shortBody : InSync (new 1 ⟨"127.0.0.1", 5000⟩ .zero).start.1 shortBody := by
  refine (inSync_iff rfl shortBody).2 ⟨Framing.Skipped.nil, ?_⟩
  exact .skip (h := [2, 0, 2, 0, 3, 0, 0, 0]) rfl (by decide) (.short (by decide))

end TcpSession

end Torinet
