import Torinet.ChatNetwork
import Torinet.Lib.PrefixCode

/-!
# What a connection carries

In one direction of a connection that may break, a stream of messages is written and read (`Carried`). As long as the
session that reads has got all that it asked for, it has delivered the messages whose bytes it has taken. When it gets
less, since the connection is broken and nothing else is left, it takes what the buffer held before for the rest: it may
deliver one more message, which nobody has sent, and after that none (`Reads`). So what is delivered, perhaps without
the last message, is the beginning of what was sent (`Carried.begins`).
-/

namespace Torinet

open Lib

open ChatNetwork (arrived)

namespace Msg

variable {m x : Msg} {u v : List UInt8}

theorem sound_of_hdr_eq (hm : m.Sound) (hhdr : x.hdr = m.hdr) : x.Sound := by
  have hlen : x.bodyLength = m.bodyLength := congrArg (fun h => h.bodyLength.toInt) hhdr
  obtain ⟨⟨hle, hmax⟩, hck⟩ := hm
  refine ⟨⟨hlen ▸ hle, hlen ▸ hmax⟩, (checkHeader_iff x).2 ?_⟩
  rw [hhdr, hlen]
  exact (checkHeader_iff m).1 hck

theorem hdr_of_toBytes (h : x.hdr.toBytes = m.hdr.toBytes) : x.hdr = m.hdr := by
  rw [← CpMsgHeader.ofBytes_toBytes x.hdr, h, CpMsgHeader.ofBytes_toBytes]

/-- Sound messages can be told apart as they are read. -/
theorem prefixCode_wire : PrefixCode wire TcpSession.delivery Sound where
  ne_nil m hm hnil := by
    have hlen := congrArg List.length (wire_eq hm.1)
    rw [hnil, List.length_append, CpMsgHeader.length_toBytes] at hlen
    simp only [List.length_nil, hdrLength] at hlen
    omega
  cancel m x u v hm hx h := by
    rw [wire_eq hm.1, wire_eq hx.1, List.append_assoc, List.append_assoc] at h
    obtain ⟨hbytes, hrest⟩ := List.append_inj h (by simp)
    have hlen : m.bodyLength = x.bodyLength := congrArg (fun h => h.bodyLength.toInt) (hdr_of_toBytes hbytes)
    obtain ⟨hpay, huv⟩ := List.append_inj hrest (by rw [length_payload hm.1, length_payload hx.1, hlen])
    exact ⟨Prod.ext hbytes hpay, huv⟩

/-- Where a header has been read in the midst of sound messages, it is that of one of them. -/
theorem exists_of_header {got ms : List Msg} {bs : List UInt8} (hgot : ∀ m ∈ got, m.Sound) (hms : ∀ m ∈ ms, m.Sound)
    (hlen : bs.length = hdrLength) (h : got.flatMap wire ++ bs <+: ms.flatMap wire) :
    ∃ m ∈ ms, bs = m.hdr.toBytes := by
  obtain ⟨u, hu⟩ := h
  obtain ⟨ms₁, ms₂, rfl, -, hbs⟩ := prefixCode_wire.split hgot hms ((List.append_assoc _ _ _).symm.trans hu)
  cases ms₂ with
  | nil =>
    obtain ⟨rfl, -⟩ := List.append_eq_nil_iff.1 hbs
    cases hlen
  | cons m ms₂ =>
    rw [List.flatMap_cons, wire_eq (hms m (by simp)).1, List.append_assoc] at hbs
    exact ⟨m, by simp, (List.append_inj hbs (by simp [hlen])).1⟩

end Msg

namespace TcpSession

variable {p p' : TcpSession} {short : Bool} {taken bytes bs : List UInt8} {got ms : List Msg} {l : Link UInt8}
  {e : Event} {o : List Out} {m : Msg}

/-- The messages that are delivered. -/
def messages (o : List Out) : List Msg := o.filterMap fun
  | .message m => some m
  | _ => none

/-- The session has taken some bytes and delivered some messages; `short` says that a read has got less than it asked
for. -/
inductive Reads (p : TcpSession) : Bool → List UInt8 → List Msg → Prop
  | header {got : List Msg} (hr : p.reads = [.header hdrLength]) : Reads p false (got.flatMap Msg.wire) got
  | body {got : List Msg} (hr : p.reads = [.body (toSizeT p.msg.bodyLength)]) (hm : p.msg.Sound) :
      Reads p false (got.flatMap Msg.wire ++ p.msg.hdr.toBytes) got
  /-- A part of a header has been taken for a whole one. -/
  | part {got : List Msg} (rest : List UInt8) (hr : p.reads = [.body (toSizeT p.msg.bodyLength)])
      (hck : p.msg.checkHeader = true) : Reads p true (got.flatMap Msg.wire ++ rest) got
  /-- Nothing else can be read. -/
  | done {got : List Msg} (short : Bool) (rest : List UInt8)
      (hr : p.reads = [] ∨ short = true ∧ p.reads = [.header hdrLength]) :
      Reads p short (got.flatMap Msg.wire ++ rest) got
  /-- Nothing else can be read, and the last message was not sent. -/
  | spoilt {got : List Msg} (x : Msg) (rest : List UInt8) (hr : p.reads = [] ∨ p.reads = [.header hdrLength]) :
      Reads p true (got.flatMap Msg.wire ++ rest) (got ++ [x])

/-- One direction of a connection: the given bytes have been put on the link, and off it the session has got the given
messages. -/
structure Carried (l : Link UInt8) (p : TcpSession) (bytes : List UInt8) (got : List Msg) : Prop where
  sound : ∀ m ∈ got, m.Sound
  reads : ∃ short taken, Reads p short taken got ∧ l.Conveys taken bytes ∧
    (short = true → l.items = [] ∧ l.broken = true)

/-! ## Around the reads -/

theorem SameReads.sendRef (w : TcpSession) (m : Msg) : SameReads w (w.sendRef m).1 := by
  unfold TcpSession.sendRef sendMsg
  cases hq : w.sendQue with
  | nil => exact ⟨rfl, rfl⟩
  | cons x q => exact ⟨rfl, rfl⟩

/-- Messages are sent on the session, and nothing else happens. -/
inductive Sent (p : TcpSession) : TcpSession → Prop
  | refl : Sent p p
  | send {p' : TcpSession} (m : Msg) (h : Sent p p') : Sent p (p'.sendRef m).1

theorem Sent.sameReads (h : Sent p p') : SameReads p p' := by
  induction h with
  | refl => exact .refl p
  | send m _ ih =>
    obtain ⟨hreads, hmsg⟩ := SameReads.sendRef _ m
    exact ⟨hreads.trans ih.1, hmsg.trans ih.2⟩

theorem Reads.congr (h : Reads p short taken got) (hp : SameReads p p') : Reads p' short taken got := by
  obtain ⟨hreads, hmsg⟩ := hp
  cases h with
  | header hr => exact .header (hreads.trans hr)
  | body hr hm =>
    rw [← hmsg] at hr hm ⊢
    exact .body (hreads.trans hr) hm
  | part rest hr hck =>
    rw [← hmsg] at hr hck
    exact .part rest (hreads.trans hr) hck
  | done short rest hr => exact .done short rest (by rwa [hreads])
  | spoilt x rest hr => exact .spoilt x rest (by rwa [hreads])

/-- A read fails, and nothing is read any more. -/
theorem Reads.fail (h : Reads p short taken got) (hp : p'.reads = []) : Reads p' short taken got := by
  cases h with
  | header hr =>
    rw [← List.append_nil (got.flatMap Msg.wire)]
    exact .done false [] (Or.inl hp)
  | body hr hm => exact .done false _ (Or.inl hp)
  | part rest hr hck => exact .done true rest (Or.inl hp)
  | done short rest hr => exact .done short rest (Or.inl hp)
  | spoilt x rest hr => exact .spoilt x rest (Or.inl hp)

/-- One read at most is outstanding. -/
theorem Reads.eraseIdx (h : Reads p short taken got) {i : Nat} {op : ReadOp} (hop : p.reads[i]? = some op) :
    p.reads.eraseIdx i = [] := by
  have hone : ∀ op', p.reads = [op'] → p.reads.eraseIdx i = [] := by
    intro op' hr
    rw [hr] at hop ⊢
    obtain ⟨rfl, -⟩ := eq_of_getElem?_singleton hop
    rfl
  have hnil : p.reads = [] → p.reads.eraseIdx i = [] := by
    intro hr
    rw [hr] at hop
    cases hop
  cases h with
  | header hr => exact hone _ hr
  | body hr hm => exact hone _ hr
  | part rest hr hck => exact hone _ hr
  | done short rest hr => exact hr.elim hnil fun hr => hone _ hr.2
  | spoilt x rest hr => exact hr.elim hnil (hone _)

/-- A session whose connection has just been made. -/
theorem carried_new (hp : p.reads = [.header hdrLength]) : Carried .new p [] [] :=
  ⟨by simp, false, [], @Reads.header p [] hp, Link.conveys_new, by simp⟩

theorem Carried.congr (hc : Carried l p bytes got) (hp : SameReads p p') : Carried l p' bytes got := by
  obtain ⟨hsound, short, taken, hr, hl, hshort⟩ := hc
  exact ⟨hsound, short, taken, hr.congr hp, hl, hshort⟩

theorem Carried.put (hc : Carried l p bytes got) (bs : List UInt8) : Carried (l.put bs) p (bytes ++ bs) got := by
  obtain ⟨hsound, short, taken, hr, hl, hshort⟩ := hc
  refine ⟨hsound, short, taken, hr, hl.put bs, fun ho => ?_⟩
  obtain ⟨hnil, hb⟩ := hshort ho
  rw [Link.put_of_broken hb]
  exact ⟨hnil, hb⟩

theorem Carried.cut (hc : Carried l p bytes got) (n : Nat) : Carried (l.cut n) p bytes got := by
  obtain ⟨hsound, short, taken, hr, hl, hshort⟩ := hc
  refine ⟨hsound, short, taken, hr, hl.cut n, fun ho => ⟨?_, rfl⟩⟩
  rw [Link.cut, (hshort ho).1, List.take_nil]

/-! ## Reading -/

/-- What a read gets: what it asked for, or less if nothing else is left. -/
theorem arrived_spec (harr : arrived p l = some bs) : ∃ op ops, p.reads = op :: ops ∧ bs <+: l.items ∧
    (bs.length = op.size ∨ bs = l.items ∧ bs.length < op.size ∧ bs ≠ [] ∧ l.broken = true) := by
  unfold arrived at harr
  cases hr : p.reads with
  | nil => simp [hr] at harr
  | cons op ops =>
    refine ⟨op, ops, rfl, ?_⟩
    simp only [hr] at harr
    split at harr
    · rename_i hle
      obtain rfl := Option.some.inj harr
      exact ⟨List.take_prefix _ _, Or.inl (List.length_take_of_le hle)⟩
    · rename_i hlt
      split at harr
      · rename_i hb
        obtain rfl := Option.some.inj harr
        simp only [Bool.and_eq_true, Bool.not_eq_true', List.isEmpty_eq_false_iff] at hb
        exact ⟨List.prefix_rfl, Or.inr ⟨rfl, Nat.lt_of_not_le hlt, hb.2, hb.1⟩⟩
      · cases harr

/-- Where nothing is read, or nothing is left of which a header could be read, nothing is got. -/
theorem arrived_ne_of_done (harr : arrived p l = some bs)
    (hp : p.reads = [] ∨ p.reads = [.header hdrLength] ∧ l.items = []) : False := by
  obtain ⟨op, ops, hreads, hbs, hlen⟩ := arrived_spec harr
  rcases hp with hp | ⟨hp, hnil⟩
  · rw [hp] at hreads
    cases hreads
  · obtain ⟨rfl, rfl⟩ := List.cons.inj (hreads.symm.trans hp)
    rw [hnil, List.prefix_nil] at hbs
    subst hbs
    rcases hlen with hlen | ⟨-, -, hne, -⟩
    · cases hlen
    · exact hne rfl

/-- A body that has been received is delivered with the header it came with. -/
theorem sound_storeBody (hm : p.msg.Sound) (bs : List UInt8) : (p.msg.storeBody bs).Sound :=
  Msg.sound_of_hdr_eq hm rfl

/-- What a part of a header has been taken for has no body. -/
theorem sound_of_part (hck : p.msg.checkHeader = true) (hn : toSizeT p.msg.bodyLength = 0) : p.msg.Sound :=
  ⟨Msg.inRange_of_toSizeT_le (hn ▸ Nat.zero_le _), hck⟩

/-- A whole header has been read. -/
theorem Reads.header_read (got : List Msg) (hp : p.reads = [.header hdrLength]) (hm : m.Sound)
    (hs : p.step (.readDone 0 (.ok m.hdr.toBytes)) = some (p', o)) :
    messages o = [] ∧ Reads p' false (got.flatMap Msg.wire ++ m.hdr.toBytes) got := by
  have hck : (⟨m.hdr, p.msg.body⟩ : Msg).checkHeader = true :=
    (Msg.checkHeader_iff _).2 ((Msg.checkHeader_iff m).1 hm.2)
  rw [step_header hp hck] at hs
  obtain ⟨rfl, rfl⟩ := Prod.mk.inj (Option.some.inj hs)
  exact ⟨rfl, @Reads.body _ got rfl (Msg.sound_of_hdr_eq hm rfl)⟩

/-- A part of a header has been read, and nothing is left. -/
theorem Reads.header_part (got : List Msg) (hp : p.reads = [.header hdrLength])
    (hs : p.step (.readDone 0 (.ok bs)) = some (p', o)) :
    messages o = [] ∧ Reads p' true (got.flatMap Msg.wire ++ bs) got := by
  have hpath := step_path hs
  cases hpath with
  | headerRejected _ n _ hop hbs hck => exact ⟨rfl, .done true bs (Or.inr ⟨rfl, by simp [hp]⟩)⟩
  | headerAccepted _ n _ hop hbs hck => exact ⟨rfl, .part bs (by simp [hp]) hck⟩
  | bodyOk _ n _ hop hbs => simp [hp] at hop

/-- A body has been read, or what is left of it: its message is delivered. -/
theorem body_read {n : Nat} (hp : p.reads = [.body n]) (hs : p.step (.readDone 0 (.ok bs)) = some (p', o)) :
    messages o = [p.msg.storeBody bs] ∧ p'.reads = [.header hdrLength] := by
  have hpath := step_path hs
  cases hpath with
  | headerRejected _ n _ hop hbs hck => simp [hp] at hop
  | headerAccepted _ n _ hop hbs hck => simp [hp] at hop
  | bodyOk _ n _ hop hbs => exact ⟨rfl, by simp [hp]⟩

/-- **A read completes.** -/
theorem Carried.read (hc : Carried l p bytes got) (hbytes : bytes <+: ms.flatMap Msg.wire) (hms : ∀ m ∈ ms, m.Sound)
    (harr : arrived p l = some bs) (hs : p.step (.readDone 0 (.ok bs)) = some (p', o)) :
    Carried (l.drop bs.length) p' bytes (got ++ messages o) := by
  obtain ⟨hsound, short, taken, hr, hl, hshort⟩ := hc
  obtain ⟨op, ops, hreads, hbs, hlen⟩ := arrived_spec harr
  have hl' := hl.drop hbs
  -- what is left once a read has got less than it asked for
  have hend : bs = l.items → (l.drop bs.length).items = [] := by
    rintro rfl
    exact List.drop_length
  cases hr with
  | header hp =>
    obtain ⟨rfl, rfl⟩ := List.cons.inj (hreads.symm.trans hp)
    rcases hlen with hlen | ⟨hall, -, -, hb⟩
    · obtain ⟨m, hm, rfl⟩ := Msg.exists_of_header hsound hms hlen (hl'.taken_prefix.trans hbytes)
      obtain ⟨hnone, hr'⟩ := Reads.header_read got hp (hms m hm) hs
      rw [hnone, List.append_nil]
      exact ⟨hsound, false, _, hr', hl', by simp⟩
    · obtain ⟨hnone, hr'⟩ := Reads.header_part got hp hs
      rw [hnone, List.append_nil]
      exact ⟨hsound, true, _, hr', hl', fun _ => ⟨hend hall, hb⟩⟩
  | body hp hm =>
    obtain ⟨rfl, rfl⟩ := List.cons.inj (hreads.symm.trans hp)
    obtain ⟨hmsg, hp'⟩ := body_read hp hs
    have hsound' : ∀ m ∈ got ++ [p.msg.storeBody bs], m.Sound := by
      intro m' hm'
      rcases List.mem_append.1 hm' with hm' | hm'
      · exact hsound m' hm'
      · exact List.mem_singleton.1 hm' ▸ sound_storeBody hm bs
    rw [hmsg]
    rcases hlen with hlen | ⟨hall, -, -, hb⟩
    · refine ⟨hsound', false, _, ?_, hl', by simp⟩
      have hwire : got.flatMap Msg.wire ++ p.msg.hdr.toBytes ++ bs =
          (got ++ [p.msg.storeBody bs]).flatMap Msg.wire := by
        rw [List.flatMap_append, List.flatMap_singleton, wire_storeBody (sound_storeBody hm bs).1 hlen,
          List.append_assoc]
      rw [hwire]
      exact .header hp'
    · refine ⟨hsound', true, _, ?_, hl', fun _ => ⟨hend hall, hb⟩⟩
      rw [List.append_assoc]
      exact .spoilt _ _ (Or.inr hp')
  | part rest hp hck =>
    -- nothing is left, so only a message without a body is complete
    obtain ⟨hnil, hb⟩ := hshort rfl
    obtain ⟨rfl, rfl⟩ := List.cons.inj (hreads.symm.trans hp)
    rw [hnil, List.prefix_nil] at hbs
    subst hbs
    rcases hlen with hlen | ⟨-, -, hne, -⟩
    · have hm := sound_of_part hck hlen.symm
      obtain ⟨hmsg, hp'⟩ := body_read hp hs
      rw [hmsg]
      refine ⟨fun m' hm' => ?_, true, _, ?_, hl', fun _ => ⟨hend hnil.symm, hb⟩⟩
      · rcases List.mem_append.1 hm' with hm' | hm'
        · exact hsound m' hm'
        · exact List.mem_singleton.1 hm' ▸ sound_storeBody hm []
      · rw [List.append_nil]
        exact .spoilt _ rest (Or.inr hp')
    · exact absurd rfl hne
  | done short rest hp => exact (arrived_ne_of_done harr (hp.imp_right fun h => ⟨h.2, (hshort h.1).1⟩)).elim
  | spoilt x rest hp => exact (arrived_ne_of_done harr (hp.imp_right fun h => ⟨h, (hshort rfl).1⟩)).elim

/-- **A session does something else**, and delivers nothing. -/
theorem Carried.keep (hc : Carried l p bytes got) (hs : p.step e = some (p', o)) (he : ¬ e.Starts)
    (hread : ∀ i bs, e ≠ .readDone i (.ok bs)) : Carried l p' bytes got ∧ messages o = [] := by
  have hfail : ∀ {i : Nat} {op : ReadOp}, p.reads[i]? = some op → p'.reads = p.reads.eraseIdx i →
      Carried l p' bytes got := by
    intro i op hop hp'
    obtain ⟨hsound, short, taken, hr, hl, hshort⟩ := hc
    exact ⟨hsound, short, taken, hr.fail (hp'.trans (hr.eraseIdx hop)), hl, hshort⟩
  cases step_path hs with
  | start => exact absurd trivial he
  | connectOk hc => exact absurd trivial he
  | headerRejected i n bs hop hbs hck => exact absurd rfl (hread i bs)
  | headerAccepted i n bs hop hbs hck => exact absurd rfl (hread i bs)
  | bodyOk i n bs hop hbs => exact absurd rfl (hread i bs)
  | headerError i n ec hop hn => exact ⟨hfail hop rfl, rfl⟩
  | bodyError i n ec hop hn => exact ⟨hfail hop rfl, rfl⟩
  | _ => exact ⟨hc.congr ⟨rfl, rfl⟩, rfl⟩

/-- In an event of the session `p`, `l'` is left of the link: a read takes what has arrived, anything else nothing. -/
def Drains (ev : Event) (p : TcpSession) (l l' : Link UInt8) : Prop :=
  (∃ bs, ev = .readDone 0 (.ok bs) ∧ arrived p l = some bs ∧ l' = l.drop bs.length) ∨
    (∀ i bs, ev ≠ .readDone i (.ok bs)) ∧ l' = l

/-- **The session that reads takes a step.** -/
theorem Carried.step {l' : Link UInt8} (hc : Carried l p bytes got) (hs : p.step e = some (p', o)) (he : ¬ e.Starts)
    (hd : Drains e p l l') (hbytes : bytes <+: ms.flatMap Msg.wire) (hms : ∀ m ∈ ms, m.Sound) :
    Carried l' p' bytes (got ++ messages o) := by
  rcases hd with ⟨bs, rfl, harr, rfl⟩ | ⟨hno, rfl⟩
  · exact hc.read hbytes hms harr hs
  · obtain ⟨hc', hnone⟩ := hc.keep hs he hno
    rwa [hnone, List.append_nil]

/-- **What is delivered is the beginning of what was sent**, perhaps without the last message, if the connection is
broken. -/
theorem Carried.begins (hc : Carried l p bytes got) (hbytes : bytes <+: ms.flatMap Msg.wire)
    (hms : ∀ m ∈ ms, m.Sound) : got.dropLast.map delivery <+: ms.map delivery ∧
      (l.broken = false → got.map delivery <+: ms.map delivery) := by
  obtain ⟨hsound, short, taken, hr, hl, hshort⟩ := hc
  have htaken := hl.taken_prefix.trans hbytes
  have hall : ∀ {whole : List Msg} (rest : List UInt8), (∀ m ∈ whole, m.Sound) →
      whole.flatMap Msg.wire ++ rest <+: ms.flatMap Msg.wire →
      whole.dropLast.map delivery <+: ms.map delivery ∧
        (l.broken = false → whole.map delivery <+: ms.map delivery) := by
    intro whole rest hwhole h
    have hmap := Msg.prefixCode_wire.prefix_map hwhole hms h
    exact ⟨((List.dropLast_prefix whole).map delivery).trans hmap, fun _ => hmap⟩
  cases hr with
  | header hp => exact hall [] hsound (by rwa [List.append_nil])
  | body hp hm => exact hall _ hsound htaken
  | part rest hp hck => exact hall _ hsound htaken
  | done short rest hp => exact hall _ hsound htaken
  | spoilt x rest hp =>
    refine ⟨?_, fun hb => ?_⟩
    · rw [List.dropLast_concat]
      exact Msg.prefixCode_wire.prefix_map (fun m hm => hsound m (List.mem_append_left _ hm)) hms htaken
    · rw [(hshort rfl).2] at hb
      cases hb

/-! ## At rest -/

/-- **Everything has been carried** over a connection that is not broken, when no read can complete but one is
outstanding. -/
theorem Carried.whole (hc : Carried l p bytes got) (hb : l.broken = false) (hreads : p.reads ≠ [])
    (hrest : arrived p l = none) (hbytes : bytes = ms.flatMap Msg.wire) (hms : ∀ m ∈ ms, m.Sound) :
    got.map delivery = ms.map delivery := by
  obtain ⟨hsound, short, taken, hr, hl, hshort⟩ := hc
  have hall : taken ++ l.items = ms.flatMap Msg.wire := (hl.whole hb).trans hbytes
  have hnot : short ≠ true := fun h => by
    rw [(hshort h).2] at hb
    cases hb
  -- less has arrived than is asked for
  have hlt : ∀ op, p.reads = [op] → l.items.length < op.size := by
    intro op hp
    by_contra hle
    simp [arrived, hp, Nat.not_lt.1 hle] at hrest
  cases hr with
  | header hp =>
    obtain ⟨ms₁, ms₂, rfl, hmap, hrest⟩ := Msg.prefixCode_wire.split hsound hms hall
    cases ms₂ with
    | nil => rw [hmap, List.append_nil]
    | cons m ms₂ =>
      have hlen := hlt _ hp
      rw [hrest, List.flatMap_cons, Msg.wire_eq (hms m (by simp)).1, List.length_append, List.length_append,
        CpMsgHeader.length_toBytes] at hlen
      simp only [ReadOp.size] at hlen
      omega
  | body hp hm =>
    rw [List.append_assoc] at hall
    obtain ⟨ms₁, ms₂, rfl, hmap, hrest⟩ := Msg.prefixCode_wire.split hsound hms hall
    cases ms₂ with
    | nil =>
      have hlen := congrArg List.length hrest
      rw [List.length_append, CpMsgHeader.length_toBytes] at hlen
      simp only [List.flatMap_nil, List.length_nil, hdrLength] at hlen
      omega
    | cons m ms₂ =>
      have hin := (hms m (by simp)).1
      rw [List.flatMap_cons, Msg.wire_eq hin, List.append_assoc] at hrest
      obtain ⟨hhdr, hitems⟩ := List.append_inj hrest (by simp)
      have hlen := hlt _ hp
      have hsize : toSizeT p.msg.bodyLength = m.payload.length := by
        have heq : p.msg.bodyLength = m.bodyLength :=
          congrArg (fun h => h.bodyLength.toInt) (Msg.hdr_of_toBytes hhdr)
        rw [heq, hin.toSizeT_bodyLength, Msg.length_payload hin]
      rw [hitems, List.length_append, ReadOp.size, hsize] at hlen
      omega
  | part rest hp hck => exact absurd rfl hnot
  | done short rest hp => exact (hp.elim hreads fun h => hnot h.1).elim
  | spoilt x rest hp => exact absurd rfl hnot

end TcpSession

end Torinet
