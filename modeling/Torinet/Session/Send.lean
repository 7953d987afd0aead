import Torinet.Lib.Outbox
import Torinet.TcpSession

/-!
# The send queue

The writing half of a session is an outbox of messages (`Lib/Outbox.lean`): a `send` pushes, a completed write is an
acknowledgement, a failed one a failure (`Event.op`). `Sends` relates the two: the queue is the waiting elements, the
outstanding write is the element in flight, and the bytes given to the socket are the wire images of the elements
handed over. Every step of a session keeps it (`sends_step`), so every run of a new session has it (`sends_run`).

* `send_fifo`: in a run without write errors each message sent in range is written once, whole and in order.
* `not_wedged_iff`: the queue of an open session is never left with nothing writing it, iff no write of the run fails or
  the session never starts, in whichever order.
-/

namespace Torinet

open Lib

namespace TcpSession

variable {s s' : TcpSession} {e : Event} {es : List Event} {out o : List Out} {c : Outbox Msg} {tx : UInt64} {id : Int}
  {ep : Endpoint} {mem : Memory}

/-! ## Sessions and outboxes -/

/-- What an event is to the send queue. -/
def Event.op : Event → Option (Outbox.Op Msg)
  | .send _ msg => some (.push msg)
  | .writeDone _ none => some .ack
  | .writeDone _ (some _) => some .fail
  | _ => none

/-- The messages sent among some events, in order. -/
def sentMsgs (es : List Event) : List Msg := es.filterMap fun
  | .send _ msg => some msg
  | _ => none

/-- The bytes given to the socket: the buffers of the writes started. -/
def written (out : List Out) : List UInt8 := (out.filterMap fun
  | .asyncWrite _ bytes => some bytes
  | _ => none).flatten

/-- The lengths of some messages, added up. -/
def totalLength (ms : List Msg) : Int := (ms.map Msg.length).sum

/-- The write of the element in flight. -/
def flightOp (c : Outbox Msg) : List WriteOp := c.inFlight.toList.map fun m => ⟨c.done, toSizeT m.length⟩

@[simp] theorem written_append (out o : List Out) : written (out ++ o) = written out ++ written o := by
  simp [written]

@[simp] theorem written_asyncWrite (w : WriteOp) (bytes : List UInt8) : written [.asyncWrite w bytes] = bytes := by
  simp [written]

@[simp] theorem totalLength_append (ms ms' : List Msg) :
    totalLength (ms ++ ms') = totalLength ms + totalLength ms' := by
  simp [totalLength]

/-- The session `s`, having put out `out`, stands where the outbox `c` does; `tx` is where `_tx` began. -/
structure Sends (tx : UInt64) (c : Outbox Msg) (s : TcpSession) (out : List Out) : Prop where
  queue : s.sendQue = c.queue
  front : s.front = c.done
  writes : s.writes = flightOp c
  bytes : written out = c.handed.flatMap Msg.wire
  tx : s.tx = tx + UInt64.ofInt (totalLength (c.sent.take c.done))

theorem sends_new (id : Int) (ep : Endpoint) (mem : Memory) : Sends mem.tx .empty (new id ep mem) [] where
  queue := rfl
  front := rfl
  writes := rfl
  bytes := rfl
  tx := by simp [new, totalLength, Outbox.empty, show UInt64.ofInt 0 = 0 from rfl]

/-- The element in flight is the front of the queue, and the queue has not failed. -/
theorem Sends.inFlight_of_lt (h : Sends tx c s out) {i : Nat} (hi : i < s.writes.length) :
    c.failed = false ∧ s.writes.eraseIdx i = [] := by
  rw [h.writes] at hi ⊢
  unfold flightOp Outbox.inFlight at hi ⊢
  cases hf : c.failed with
  | true => simp [hf] at hi
  | false =>
    cases hq : c.queue.head? with
    | none => simp [hf, hq] at hi
    | some m =>
      obtain rfl : i = 0 := by simpa [hf, hq] using hi
      simp

/-- Steps that are nothing to the queue leave the relation alone. -/
theorem Sends.frame (h : Sends tx c s out) (hq : s'.sendQue = s.sendQue) (hfr : s'.front = s.front)
    (hw : s'.writes = s.writes) (htx : s'.tx = s.tx) (ho : written o = []) : Sends tx c s' (out ++ o) where
  queue := hq.trans h.queue
  front := hfr.trans h.front
  writes := hw.trans h.writes
  bytes := by rw [written_append, ho, List.append_nil, h.bytes]
  tx := htx.trans h.tx

theorem flightOp_push (msg : Msg) : flightOp (c.push msg) =
    flightOp c ++ if c.queue = [] then [⟨c.done, toSizeT msg.length⟩] else [] := by
  unfold flightOp Outbox.inFlight
  cases hf : c.failed with
  | true => simp [hf, Outbox.queue_ne_nil_of_failed hf]
  | false => cases hq : c.queue <;> simp [hf, hq]

/-- What is done stays done when more is sent. -/
theorem take_push (msg : Msg) : (c.push msg).sent.take (c.push msg).done = c.sent.take c.done :=
  List.take_append_of_le_length c.done_le

theorem flightOp_ack {m : Msg} {q : List Msg} (hq : c.queue = m :: q) (hf : c.failed = false) :
    flightOp c.ack = (q.head?.toList).map fun m => ⟨c.done + 1, toSizeT m.length⟩ := by
  obtain ⟨-, hd, hf'⟩ := Outbox.ack_eq hq hf
  simp [flightOp, Outbox.inFlight, hf', hd, Outbox.queue_ack hq hf]

theorem flightOp_fail {m : Msg} {q : List Msg} (hq : c.queue = m :: q) : flightOp c.fail = [] := by
  obtain ⟨-, -, hf⟩ := Outbox.fail_eq hq
  simp [flightOp, Outbox.inFlight, hf]

/-- The total length of what is done grows by that of the element done. -/
theorem tx_ack {m : Msg} {q : List Msg} (hq : c.queue = m :: q) (hf : c.failed = false) :
    totalLength (c.ack.sent.take c.ack.done) = totalLength (c.sent.take c.done) + m.length := by
  obtain ⟨hs, hd, -⟩ := Outbox.ack_eq hq hf
  rw [hs, hd, List.take_add_one, ← List.head?_drop, ← Outbox.queue, hq, totalLength_append]
  simp [totalLength]

/-- **A step keeps the relation**, the outbox doing what the event is to it. -/
theorem sends_step (h : Sends tx c s out) (hs : s.step e = some (s', o)) :
    Sends tx (e.op.elim c c.apply) s' (out ++ o) := by
  cases step_path hs with
  | sendIdle overload msg hq =>
    have hcq : c.queue = [] := h.queue.symm.trans hq
    refine ⟨?_, h.front, ?_, ?_, ?_⟩
    · show [msg] = (c.push msg).queue
      rw [Outbox.queue_push, hcq, List.nil_append]
    · show s.writes ++ _ = flightOp (c.push msg)
      rw [flightOp_push, if_pos hcq, h.writes, h.front]
    · show written (out ++ _) = (c.push msg).handed.flatMap Msg.wire
      rw [written_append, written_asyncWrite, h.bytes, Outbox.handed_push, if_pos hcq, List.flatMap_append]
      simp
    · show s.tx = tx + UInt64.ofInt (totalLength ((c.push msg).sent.take (c.push msg).done))
      rw [take_push]
      exact h.tx
  | sendBusy overload msg hq =>
    have hcq : c.queue ≠ [] := fun hn => hq (h.queue.trans hn)
    refine ⟨?_, h.front, ?_, ?_, ?_⟩
    · show s.sendQue ++ [msg] = (c.push msg).queue
      rw [Outbox.queue_push, h.queue]
    · show s.writes = flightOp (c.push msg)
      rw [flightOp_push, if_neg hcq, h.writes, List.append_nil]
    · show written (out ++ []) = (c.push msg).handed.flatMap Msg.wire
      rw [List.append_nil, h.bytes, Outbox.handed_push, if_neg hcq, List.append_nil]
    · show s.tx = tx + UInt64.ofInt (totalLength ((c.push msg).sent.take (c.push msg).done))
      rw [take_push]
      exact h.tx
  | writeError i ec hi =>
    obtain ⟨hf, hnil⟩ := h.inFlight_of_lt hi
    obtain ⟨m, q, hq⟩ : ∃ m q, c.queue = m :: q := by
      cases hq : c.queue with
      | nil => rw [h.writes] at hi; simp [flightOp, Outbox.inFlight, hq] at hi
      | cons m q => exact ⟨m, q, rfl⟩
    obtain ⟨hsent, hd, -⟩ := Outbox.fail_eq hq
    refine ⟨h.queue.trans (Outbox.queue_fail hq).symm, h.front.trans hd.symm, hnil.trans (flightOp_fail hq).symm,
      ?_, ?_⟩
    · show written (out ++ _) = c.fail.handed.flatMap Msg.wire
      rw [Outbox.handed_fail hq, written_append, h.bytes]
      exact List.append_nil _
    · show s.tx = tx + UInt64.ofInt (totalLength (c.fail.sent.take c.fail.done))
      rw [hsent, hd]
      exact h.tx
  | writeLast i m hi hq =>
    obtain ⟨hf, hnil⟩ := h.inFlight_of_lt hi
    have hcq : c.queue = [m] := h.queue.symm.trans hq
    refine ⟨(Outbox.queue_ack hcq hf).symm, ?_, ?_, ?_, ?_⟩
    · show s.front + 1 = c.ack.done
      rw [(Outbox.ack_eq hcq hf).2.1, h.front]
    · exact hnil.trans (flightOp_ack hcq hf).symm
    · show written (out ++ []) = c.ack.handed.flatMap Msg.wire
      rw [List.append_nil, h.bytes, Outbox.handed_ack hcq hf]
      simp
    · show s.tx + UInt64.ofInt m.length = tx + UInt64.ofInt (totalLength (c.ack.sent.take c.ack.done))
      rw [tx_ack hcq hf, UInt64.ofInt_add, h.tx, UInt64.add_assoc]
  | writeNext i m m' q hi hq =>
    obtain ⟨hf, hnil⟩ := h.inFlight_of_lt hi
    have hcq : c.queue = m :: m' :: q := h.queue.symm.trans hq
    refine ⟨(Outbox.queue_ack hcq hf).symm, ?_, ?_, ?_, ?_⟩
    · show s.front + 1 = c.ack.done
      rw [(Outbox.ack_eq hcq hf).2.1, h.front]
    · show s.writes.eraseIdx i ++ _ = flightOp c.ack
      rw [hnil, flightOp_ack hcq hf, h.front]
      rfl
    · show written (out ++ _) = c.ack.handed.flatMap Msg.wire
      rw [written_append, written_asyncWrite, h.bytes, Outbox.handed_ack hcq hf]
      simp
    · show s.tx + UInt64.ofInt m.length = tx + UInt64.ofInt (totalLength (c.ack.sent.take c.ack.done))
      rw [tx_ack hcq hf, UInt64.ofInt_add, h.tx, UInt64.add_assoc]
  -- the reading half and the connection never touch the queue
  | _ => exact h.frame rfl rfl rfl rfl (by simp [written])

/-- The outbox after some events. -/
def outbox (es : List Event) : Outbox Msg := .after (es.filterMap Event.op)

theorem outbox_snoc (es : List Event) (e : Event) : outbox (es ++ [e]) = e.op.elim (outbox es) (outbox es).apply := by
  rw [outbox, List.filterMap_append]
  cases h : e.op with
  | none => simp [h, outbox]
  | some op => simp [h, outbox]

/-- **The writing half of a session is an outbox.** -/
theorem sends_run (hr : machine.Run (new id ep mem) es s out) : Sends mem.tx (outbox es) s out := by
  induction hr with
  | nil => exact sends_new id ep mem
  | snoc _ hs ih => rw [outbox_snoc]; exact sends_step ih hs

theorem sent_outbox (es : List Event) : (outbox es).sent = sentMsgs es := by
  rw [outbox, Outbox.sent_after, List.filterMap_filterMap, sentMsgs]
  congr 1
  funext e
  rcases e with _ | _ | _ | _ | _ | _ | ⟨_, _ | _⟩ <;> rfl

/-! ## First in, first out -/

/-- The events of a run in which no write fails. -/
def NoWriteError (es : List Event) : Prop := ∀ i ec, .writeDone i (some ec) ∉ es

theorem failed_outbox (h : NoWriteError es) : (outbox es).failed = false := by
  apply Outbox.failed_after
  intro hm
  obtain ⟨e, he, hop⟩ := List.mem_filterMap.1 hm
  rcases e with _ | _ | _ | _ | _ | _ | ⟨i, _ | ec⟩ <;> simp only [Event.op, Option.some.injEq, reduceCtorEq] at hop
  exact h i ec he

/-- Without write errors, the write of the front element is outstanding, and no other. -/
theorem Sends.writes_eq (h : Sends tx c s out) (hf : c.failed = false) :
    s.writes = (s.sendQue.head?.toList).map fun m => ⟨s.front, toSizeT m.length⟩ := by
  rw [h.writes, h.queue, h.front]
  simp [flightOp, Outbox.inFlight, hf]

/-- **First in, first out, exactly once.** In a run of a session without write errors in which every message sent is in
range, with `s.front` writes completed: at most one write is outstanding, one is outstanding iff the queue is not empty,
its buffer is the front element, whole; the messages sent are those whose write has completed and the queue, in order;
the bytes given to the socket are the wire images of the former and of the front of the queue; and `_tx` has grown by
the lengths of the former. -/
theorem send_fifo (hr : machine.Run (new id ep mem) es s out) (hok : NoWriteError es)
    (hrange : ∀ m ∈ sentMsgs es, m.InRange) :
    s.writes.length ≤ 1 ∧ (s.writes ≠ [] ↔ s.sendQue ≠ []) ∧
    (∀ w ∈ s.writes, ∃ m, s.sendQue.head? = some m ∧ w.elem = s.front ∧ (w.size : Int) = m.length) ∧
    s.front ≤ (sentMsgs es).length ∧ sentMsgs es = (sentMsgs es).take s.front ++ s.sendQue ∧
    written out = ((sentMsgs es).take s.front ++ s.sendQue.head?.toList).flatMap Msg.wire ∧
    s.tx = mem.tx + UInt64.ofInt (totalLength ((sentMsgs es).take s.front)) := by
  have h := sends_run hr
  have hsent := sent_outbox es
  have hwrites := h.writes_eq (failed_outbox hok)
  refine ⟨?_, ?_, ?_, ?_, ?_, ?_, ?_⟩
  · rw [hwrites]
    cases s.sendQue <;> simp
  · rw [hwrites]
    cases s.sendQue <;> simp
  · intro w hw
    rw [hwrites] at hw
    obtain ⟨m, hm, rfl⟩ := List.mem_map.1 hw
    rw [Option.mem_toList] at hm
    have hin : m.InRange := by
      rw [h.queue] at hm
      exact hrange m (hsent ▸ List.mem_of_mem_drop (List.mem_of_mem_head? hm))
    have h₀ := hin.1
    have hsize : (toSizeT m.length : Int) = m.length := by
      rw [hin.toSizeT_length, Msg.length_eq]
      omega
    exact ⟨m, hm, rfl, hsize⟩
  · rw [h.front, ← hsent]
    exact (outbox es).done_le
  · rw [h.front, h.queue, ← hsent]
    exact (outbox es).take_append_queue.symm
  · rw [h.bytes, h.front, h.queue, ← hsent, Outbox.handed_eq]
  · rw [h.front, ← hsent]
    exact h.tx

/-- Two messages sent, the first of them written. -/
def sendsTwo : List Event := [.send .ref .hello, .send .constRef .hello, .writeDone 0 none]

theorem send_fifo_sendsTwo : ∃ s out, machine.Run (new 0 ⟨"127.0.0.1", 5000⟩ .zero) sendsTwo s out ∧
    s.sendQue = [.hello] ∧ written out = [Msg.hello, Msg.hello].flatMap Msg.wire := by
  have hok : NoWriteError sendsTwo := by simp [NoWriteError, sendsTwo]
  have hrange : ∀ m ∈ sentMsgs sendsTwo, m.InRange := by decide
  exact ⟨_, _, Machine.run_of_exec rfl, rfl, (send_fifo (Machine.run_of_exec rfl) hok hrange).2.2.2.2.2.1⟩

/-! ## A wedged queue -/

/-- The queue has failed iff a write has. -/
theorem failed_outbox_iff (hr : machine.Run (new id ep mem) es s out) :
    (outbox es).failed = true ↔ ∃ i ec, .writeDone i (some ec) ∈ es := by
  constructor
  · intro hf
    by_contra hn
    push Not at hn
    rw [failed_outbox hn] at hf
    cases hf
  · rintro ⟨i, ec, he⟩
    induction hr with
    | nil => cases he
    | @snoc es s out e s' o hr hs ih =>
      rw [outbox_snoc]
      rcases List.mem_append.1 he with hm | hm
      · have ih := ih hm
        cases hop : e.op with
        | none => exact ih
        | some op => cases op <;> simp [Outbox.apply, Outbox.ack, Outbox.fail, ih]; split <;> simp [ih]
      · rw [List.mem_singleton] at hm
        subst hm
        have hpath := step_path (e := .writeDone i (some ec)) hs
        cases hpath with
        | writeError _ _ hi =>
          have h := sends_run hr
          rw [h.writes] at hi
          cases hq : (outbox es).queue with
          | nil => simp [flightOp, Outbox.inFlight, hq] at hi
          | cons m q => exact (Outbox.fail_eq hq).2.2

/-- Unless a write has failed, a message that waits is being written. -/
theorem writes_iff_queue (hr : machine.Run (new id ep mem) es s out) (hok : NoWriteError es) :
    s.writes ≠ [] ↔ s.sendQue ≠ [] := by
  have h := sends_run hr
  have hf := failed_outbox hok
  rw [h.writes, h.queue]
  cases hq : (outbox es).queue <;> simp [flightOp, Outbox.inFlight, hf, hq]

/-- After a failed write nothing is being written, though some message waits. -/
theorem wedged_of_fail (hr : machine.Run (new id ep mem) es s out) (hfail : ∃ i ec, .writeDone i (some ec) ∈ es) :
    s.writes = [] ∧ s.sendQue ≠ [] := by
  have h := sends_run hr
  have hf := (failed_outbox_iff hr).2 hfail
  rw [h.writes, h.queue]
  exact ⟨by simp [flightOp, Outbox.inFlight, hf], Outbox.queue_ne_nil_of_failed hf⟩

/-- Some write outstanding, if the session is open and a message waits. -/
def NotWedged (_ : List Event) (s : TcpSession) (_ : List Out) : Prop :=
  s.isOpen = true → s.sendQue ≠ [] → s.writes ≠ []

/-- **When the queue wedges**: the queue of an open session always has a write going on, in every state of a run, iff
no write of the run fails or the session never starts. -/
theorem not_wedged_iff (hr : machine.Run (new id ep mem) es s out) :
    machine.Always (new id ep mem) NotWedged es ↔
      NoWriteError es ∨ ∀ e ∈ es, ¬ e.Starts := by
  constructor
  · intro h
    by_contra hn
    simp only [NoWriteError] at hn
    push Not at hn
    obtain ⟨hfail, e, he, hstart⟩ := hn
    obtain ⟨hw, hq⟩ := wedged_of_fail hr hfail
    exact h es (List.prefix_refl _) s out hr ((isOpen_iff hr).2 ⟨e, he, hstart⟩) hq hw
  · rintro hok pre hp s₁ out₁ hr₁ hopen hq
    rcases hok with hok | hok
    · exact (writes_iff_queue hr₁ fun i ec he => hok i ec (hp.subset he)).2 hq
    · obtain ⟨e, he, hstart⟩ := (isOpen_iff hr₁).1 hopen
      exact absurd hstart (hok e (hp.subset he))

/-- A client sends before it connects. -/
def sendsEarly : List Event :=
  [.send .constRef .hello, .writeDone 0 (some (.other 9)), .connect, .connectDone none, .send .constRef .hello]

/-- Once it is connected, its messages wait, and nothing writes them. -/
theorem sendsEarly_wedged : ∃ s out, machine.Run (new 0 ⟨"127.0.0.1", 5000⟩ .zero) sendsEarly s out ∧
    ¬ NotWedged sendsEarly s out :=
  ⟨_, _, Machine.run_of_exec rfl, fun h => h rfl (by decide) rfl⟩

theorem not_wedged_iff_sendsEarly :
    machine.Always (new 0 ⟨"127.0.0.1", 5000⟩ .zero) NotWedged sendsEarly ↔
      NoWriteError sendsEarly ∨ ∀ e ∈ sendsEarly, ¬ e.Starts :=
  not_wedged_iff (Machine.run_of_exec rfl)

end TcpSession

end Torinet
