import Torinet.Lib.Machine
import Torinet.Msg

/-!
# Sessions

`Src/TcpSession.h` and `Src/TcpSession.cpp`: one connection, with a chain of reads into the single buffer `_msg` and a
queue of messages being written. The asynchronous operations are asio's: an operation that was started is outstanding
(`reads`, `writes`, `connects`) until its completion, an event, runs the handler that belongs to it. Everything a
session does to the outside is an output (`Out`): the three registered handlers it calls and the operations it starts.

`step` is the machine; `Path` lists every way a step can go, and `step_path` is its inversion, which all later proofs
start from.
-/

namespace Torinet

open Lib

/-- A `boost::system::error_code` that is set. -/
inductive ErrorCode
  | eof
  | operationAborted
  | other (value : Int)
deriving DecidableEq

inductive CloseReason
  | activeClose
  | disconnected
  | timeout
deriving DecidableEq

structure Endpoint where
  address : String
  port : UInt16
deriving DecidableEq

/-- An outstanding `async_read_some` of `size` bytes: into `_msg.head()` or into `_msg.body()`. -/
inductive ReadOp
  | header (size : Nat)
  | body (size : Nat)
deriving DecidableEq

/-- An outstanding `async_write`: the element of the queue its buffer points at, and the buffer's size. Elements are
counted in the order they were pushed, which is how a deque keeps their addresses. -/
structure WriteOp where
  elem : Nat
  size : Nat
deriving DecidableEq

namespace ReadOp

def size : ReadOp → Nat
  | .header n => n
  | .body n => n

/-- The memory behind the buffer of a read. -/
def room : ReadOp → Nat
  | .header _ => hdrLength
  | .body _ => maxCpMsgData

/-- What a read may complete with: at most what was asked for, nothing only if nothing was asked for. Bytes beyond the
memory of the buffer would be stored outside it, which is undefined. -/
def Completes (op : ReadOp) (bs : List UInt8) : Prop :=
  bs.length ≤ op.size ∧ (bs = [] → op.size = 0) ∧ bs.length ≤ op.room

instance (op : ReadOp) (bs : List UInt8) : Decidable (op.Completes bs) := inferInstanceAs (Decidable (_ ∧ _ ∧ _))

end ReadOp

namespace TcpSession

inductive State
  | ready
  | opening
  | opened
  | closed
deriving DecidableEq

/-- What a session does to the outside. -/
inductive Out
  /-- `_openedHandler` is called. -/
  | opened
  /-- `_messageHandler` is called, `_msg` being as given. -/
  | message (msg : Msg)
  /-- `_closedHandler` is called. -/
  | closed (reason : CloseReason)
  | asyncConnect
  | asyncRead (op : ReadOp)
  /-- An `async_write` is started, its buffer holding the given bytes. -/
  | asyncWrite (op : WriteOp) (bytes : List UInt8)
  | closeSocket
deriving DecidableEq

/-- The two overloads of `send` that take a message. -/
inductive Overload
  | constRef
  | ref
deriving DecidableEq

inductive Event
  | start
  | connect
  | send (overload : Overload) (msg : Msg)
  | close
  /-- The `async_connect` completes. -/
  | connectDone (ec : Option ErrorCode)
  /-- The `i`-th outstanding read completes, with the bytes read or an error. -/
  | readDone (i : Nat) (res : Except ErrorCode (List UInt8))
  /-- The `i`-th outstanding write completes. -/
  | writeDone (i : Nat) (ec : Option ErrorCode)

/-- What the constructors leave as it is in memory. -/
structure Memory where
  msg : Msg
  tx : UInt64
  rx : UInt64

def Memory.zero : Memory := ⟨.zero, 0, 0⟩

end TcpSession

structure TcpSession where
  id : Int
  state : TcpSession.State
  remoteEndpoint : Endpoint
  msg : Msg
  sendQue : List Msg
  tx : UInt64
  rx : UInt64
  /-- How many elements have been popped from `sendQue`: the number of its front element. -/
  front : Nat
  connects : Nat
  reads : List ReadOp
  writes : List WriteOp

namespace TcpSession

/-- The constructors: a server's session gets an id, a client's the id `0`. -/
def new (id : Int) (remoteEndpoint : Endpoint) (mem : Memory) : TcpSession where
  id := id
  state := .ready
  remoteEndpoint := remoteEndpoint
  msg := mem.msg
  sendQue := []
  tx := mem.tx
  rx := mem.rx
  front := 0
  connects := 0
  reads := []
  writes := []

/-! ## The member functions -/

def isOpen (s : TcpSession) : Bool := if s.state ≠ .opened then false else true

/-- `getRemoteEndpoint`: nothing when it returns false. -/
def getRemoteEndpoint (s : TcpSession) : Option Endpoint := if s.state = .closed then none else some s.remoteEndpoint

/-- `read`: every caller asks for a header. -/
def read (s : TcpSession) (size : Nat) : TcpSession × List Out :=
  ({ s with reads := s.reads ++ [.header size] }, [.asyncRead (.header size)])

def start (s : TcpSession) : TcpSession × List Out :=
  let s := { s with state := .opening }
  let s := { s with state := .opened }
  let r := s.read hdrLength
  (r.1, .opened :: r.2)

def connect (s : TcpSession) : TcpSession × List Out := ({ s with connects := s.connects + 1 }, [.asyncConnect])

/-- The completion handler of `connect`; an error is only logged. -/
def handleConnect (s : TcpSession) : Option ErrorCode → TcpSession × List Out
  | none => s.start
  | some _ => (s, [])

/-- The reason both failing handlers compute. -/
def closeReason (ec : ErrorCode) : CloseReason :=
  if ec = .eof ∨ ec = .operationAborted then .disconnected else .activeClose

def handleReadHeader (s : TcpSession) : Option ErrorCode → TcpSession × List Out
  | some error => (s, [.closed (closeReason error)])
  | none =>
    if ¬ s.msg.checkHeader then s.read hdrLength
    else
      let op := .body (toSizeT s.msg.bodyLength)
      ({ s with reads := s.reads ++ [op] }, [.asyncRead op])

/-- The completion handler of `read`: an error is only logged, and never reaches `handleReadHeader`. -/
def onReadHeader (s : TcpSession) : Option ErrorCode → TcpSession × List Out
  | none => s.handleReadHeader none
  | some _ => (s, [])

def handleReadBody (s : TcpSession) : Option ErrorCode → TcpSession × List Out
  | some ec => (s, [.closed (closeReason ec)])
  | none =>
    let s := { s with rx := s.rx + UInt64.ofInt s.msg.length }
    let r := s.read hdrLength
    (r.1, .message s.msg :: r.2)

/-- The `async_write` of the front element. -/
def writeFront (s : TcpSession) (m : Msg) : TcpSession × List Out :=
  let op : WriteOp := ⟨s.front, toSizeT m.length⟩
  ({ s with writes := s.writes ++ [op] }, [.asyncWrite op m.wire])

/-- What both overloads of `send` do. -/
def sendMsg (s : TcpSession) (msg : Msg) : TcpSession × List Out :=
  let progress := !s.sendQue.isEmpty
  let s := { s with sendQue := s.sendQue ++ [msg] }
  if !progress then
    match s.sendQue with
    | m :: _ => s.writeFront m
    | [] => (s, [])
  else (s, [])

/-- `send(const Msg&)`. -/
def sendConstRef (s : TcpSession) (msg : Msg) : TcpSession × List Out := s.sendMsg msg

/-- `send(Msg&)`. -/
def sendRef (s : TcpSession) (msg : Msg) : TcpSession × List Out := s.sendMsg msg

/-- `handleWrite`: undefined when it takes the front of an empty queue. -/
def handleWrite (s : TcpSession) : Option ErrorCode → Option (TcpSession × List Out)
  | some ec => some (s, [.closed (closeReason ec)])
  | none =>
    match s.sendQue with
    | [] => none
    | m :: q =>
      let s := { s with tx := s.tx + UInt64.ofInt m.length, sendQue := q, front := s.front + 1 }
      match q with
      | [] => some (s, [])
      | m' :: _ => some (s.writeFront m')

def close (s : TcpSession) : TcpSession × List Out := (s, [.closeSocket])

/-! ## The machine -/

/-- A completed read: its bytes are stored, then its handler runs. A read of no bytes completes at once and cannot
fail. -/
def readDone (s : TcpSession) (i : Nat) (res : Except ErrorCode (List UInt8)) : Option (TcpSession × List Out) :=
  match s.reads[i]? with
  | none => none
  | some op =>
    let s := { s with reads := s.reads.eraseIdx i }
    match res with
    | .error ec =>
      if op.size = 0 then none
      else
        match op with
        | .header _ => some (s.onReadHeader (some ec))
        | .body _ => some (s.handleReadBody (some ec))
    | .ok bs =>
      if op.Completes bs then
        match op with
        | .header _ => some (({ s with msg := s.msg.storeHead bs }).onReadHeader none)
        | .body _ => some (({ s with msg := s.msg.storeBody bs }).handleReadBody none)
      else none

def step (s : TcpSession) : Event → Option (TcpSession × List Out)
  | .start => some s.start
  | .connect => some s.connect
  | .send .constRef msg => some (s.sendConstRef msg)
  | .send .ref msg => some (s.sendRef msg)
  | .close => some s.close
  | .connectDone ec =>
    if s.connects = 0 then none else some (({ s with connects := s.connects - 1 }).handleConnect ec)
  | .readDone i res => s.readDone i res
  | .writeDone i ec =>
    if i < s.writes.length then ({ s with writes := s.writes.eraseIdx i }).handleWrite ec else none

def machine : Machine TcpSession Event Out := ⟨step⟩

/-! ## The ways a step can go -/

/-- Every way a step can go, with the state and the outputs it leads to. -/
inductive Path (s : TcpSession) : Event → TcpSession → List Out → Prop
  | start : Path s .start { s with state := .opened, reads := s.reads ++ [.header hdrLength] }
      [.opened, .asyncRead (.header hdrLength)]
  | connect : Path s .connect { s with connects := s.connects + 1 } [.asyncConnect]
  | sendIdle (overload : Overload) (msg : Msg) (hq : s.sendQue = []) : Path s (.send overload msg)
      { s with sendQue := [msg], writes := s.writes ++ [⟨s.front, toSizeT msg.length⟩] }
      [.asyncWrite ⟨s.front, toSizeT msg.length⟩ msg.wire]
  | sendBusy (overload : Overload) (msg : Msg) (hq : s.sendQue ≠ []) : Path s (.send overload msg)
      { s with sendQue := s.sendQue ++ [msg] } []
  | close : Path s .close s [.closeSocket]
  | connectOk (hc : s.connects ≠ 0) : Path s (.connectDone none)
      { s with connects := s.connects - 1, state := .opened, reads := s.reads ++ [.header hdrLength] }
      [.opened, .asyncRead (.header hdrLength)]
  | connectError (ec : ErrorCode) (hc : s.connects ≠ 0) : Path s (.connectDone (some ec))
      { s with connects := s.connects - 1 } []
  | headerRejected (i n : Nat) (bs : List UInt8) (hop : s.reads[i]? = some (.header n))
      (hbs : (ReadOp.header n).Completes bs) (hck : (s.msg.storeHead bs).checkHeader = false) :
      Path s (.readDone i (.ok bs))
      { s with msg := s.msg.storeHead bs, reads := s.reads.eraseIdx i ++ [.header hdrLength] }
      [.asyncRead (.header hdrLength)]
  | headerAccepted (i n : Nat) (bs : List UInt8) (hop : s.reads[i]? = some (.header n))
      (hbs : (ReadOp.header n).Completes bs) (hck : (s.msg.storeHead bs).checkHeader = true) :
      Path s (.readDone i (.ok bs))
      { s with
        msg := s.msg.storeHead bs
        reads := s.reads.eraseIdx i ++ [.body (toSizeT (s.msg.storeHead bs).bodyLength)] }
      [.asyncRead (.body (toSizeT (s.msg.storeHead bs).bodyLength))]
  | headerError (i n : Nat) (ec : ErrorCode) (hop : s.reads[i]? = some (.header n)) (hn : n ≠ 0) :
      Path s (.readDone i (.error ec)) { s with reads := s.reads.eraseIdx i } []
  | bodyOk (i n : Nat) (bs : List UInt8) (hop : s.reads[i]? = some (.body n)) (hbs : (ReadOp.body n).Completes bs) :
      Path s (.readDone i (.ok bs))
      { s with
        msg := s.msg.storeBody bs
        rx := s.rx + UInt64.ofInt (s.msg.storeBody bs).length
        reads := s.reads.eraseIdx i ++ [.header hdrLength] }
      [.message (s.msg.storeBody bs), .asyncRead (.header hdrLength)]
  | bodyError (i n : Nat) (ec : ErrorCode) (hop : s.reads[i]? = some (.body n)) (hn : n ≠ 0) :
      Path s (.readDone i (.error ec)) { s with reads := s.reads.eraseIdx i } [.closed (closeReason ec)]
  | writeError (i : Nat) (ec : ErrorCode) (hi : i < s.writes.length) :
      Path s (.writeDone i (some ec)) { s with writes := s.writes.eraseIdx i } [.closed (closeReason ec)]
  | writeLast (i : Nat) (m : Msg) (hi : i < s.writes.length) (hq : s.sendQue = [m]) :
      Path s (.writeDone i none)
      { s with
        tx := s.tx + UInt64.ofInt m.length
        sendQue := []
        front := s.front + 1
        writes := s.writes.eraseIdx i } []
  | writeNext (i : Nat) (m m' : Msg) (q : List Msg) (hi : i < s.writes.length) (hq : s.sendQue = m :: m' :: q) :
      Path s (.writeDone i none)
      { s with
        tx := s.tx + UInt64.ofInt m.length
        sendQue := m' :: q
        front := s.front + 1
        writes := s.writes.eraseIdx i ++ [⟨s.front + 1, toSizeT m'.length⟩] }
      [.asyncWrite ⟨s.front + 1, toSizeT m'.length⟩ m'.wire]

variable {s s' : TcpSession} {e : Event} {o : List Out}

theorem sendMsg_path (s : TcpSession) (overload : Overload) (msg : Msg) :
    Path s (.send overload msg) (s.sendMsg msg).1 (s.sendMsg msg).2 := by
  cases hq : s.sendQue with
  | nil => simpa [sendMsg, hq, writeFront] using Path.sendIdle overload msg hq
  | cons m q =>
    have hp := Path.sendBusy overload msg (s := s) (by simp [hq])
    simpa [sendMsg, hq] using hp

theorem readDone_path {i : Nat} {res : Except ErrorCode (List UInt8)} (h : s.readDone i res = some (s', o)) :
    Path s (.readDone i res) s' o := by
  cases hop : s.reads[i]? with
  | none => simp [readDone, hop] at h
  | some op =>
    cases res with
    | error ec =>
      by_cases hn : op.size = 0
      · simp [readDone, hop, hn] at h
      · cases op with
        | header n =>
          simp only [readDone, hop, hn, if_false, onReadHeader, Option.some.injEq, Prod.mk.injEq] at h
          obtain ⟨rfl, rfl⟩ := h
          exact Path.headerError i n ec hop hn
        | body n =>
          simp only [readDone, hop, hn, if_false, handleReadBody, Option.some.injEq, Prod.mk.injEq] at h
          obtain ⟨rfl, rfl⟩ := h
          exact Path.bodyError i n ec hop hn
    | ok bs =>
      by_cases hbs : op.Completes bs
      · cases op with
        | header n =>
          by_cases hck : (s.msg.storeHead bs).checkHeader = true
          · simp only [readDone, hop, hbs, if_true, onReadHeader, handleReadHeader, hck, not_true_eq_false, if_false,
              Option.some.injEq, Prod.mk.injEq] at h
            obtain ⟨rfl, rfl⟩ := h
            exact Path.headerAccepted i n bs hop hbs hck
          · simp only [readDone, hop, hbs, if_true, onReadHeader, handleReadHeader, hck, read, Option.some.injEq] at h
            obtain ⟨rfl, rfl⟩ := h
            exact Path.headerRejected i n bs hop hbs (by simpa using hck)
        | body n =>
          simp only [readDone, hop, hbs, if_true, handleReadBody, read, Option.some.injEq, Prod.mk.injEq] at h
          obtain ⟨rfl, rfl⟩ := h
          exact Path.bodyOk i n bs hop hbs
      · simp [readDone, hop, hbs] at h

theorem writeDone_path {i : Nat} {ec : Option ErrorCode} (hi : i < s.writes.length)
    (h : ({ s with writes := s.writes.eraseIdx i }).handleWrite ec = some (s', o)) :
    Path s (.writeDone i ec) s' o := by
  cases ec with
  | some ec =>
    simp only [handleWrite, Option.some.injEq, Prod.mk.injEq] at h
    obtain ⟨rfl, rfl⟩ := h
    exact Path.writeError i ec hi
  | none =>
    simp only [handleWrite] at h
    rcases hq : s.sendQue with _ | ⟨m, _ | ⟨m', q⟩⟩
    · simp [hq] at h
    · simp only [hq, Option.some.injEq, Prod.mk.injEq] at h
      obtain ⟨rfl, rfl⟩ := h
      exact Path.writeLast i m hi hq
    · simp only [hq, writeFront, Option.some.injEq, Prod.mk.injEq] at h
      obtain ⟨rfl, rfl⟩ := h
      exact Path.writeNext i m m' q hi hq

/-- **Inversion of a step.** -/
theorem step_path (h : s.step e = some (s', o)) : Path s e s' o := by
  cases e with
  | start =>
    simp only [step, Option.some.injEq] at h
    obtain ⟨rfl, rfl⟩ := Prod.mk.inj h.symm
    exact Path.start
  | connect =>
    simp only [step, Option.some.injEq] at h
    obtain ⟨rfl, rfl⟩ := Prod.mk.inj h.symm
    exact Path.connect
  | send overload msg =>
    have hp := sendMsg_path s overload msg
    cases overload <;>
    · simp only [step, sendConstRef, sendRef, Option.some.injEq] at h
      rwa [h] at hp
  | close =>
    simp only [step, Option.some.injEq] at h
    obtain ⟨rfl, rfl⟩ := Prod.mk.inj h.symm
    exact Path.close
  | connectDone ec =>
    by_cases hc : s.connects = 0
    · simp [step, hc] at h
    · simp only [step, hc, if_false, Option.some.injEq] at h
      cases ec with
      | none => obtain ⟨rfl, rfl⟩ := Prod.mk.inj h.symm; exact Path.connectOk hc
      | some ec => obtain ⟨rfl, rfl⟩ := Prod.mk.inj h.symm; exact Path.connectError ec hc
  | readDone i res => exact readDone_path h
  | writeDone i ec =>
    by_cases hi : i < s.writes.length
    · simp only [step, hi, if_true] at h
      exact writeDone_path hi h
    · simp [step, hi] at h

/-- The one outstanding read. -/
theorem eq_of_getElem?_singleton {op op' : ReadOp} {i : Nat} (h : [op][i]? = some op') : i = 0 ∧ op = op' := by
  cases i with
  | zero => exact ⟨rfl, by simpa using h⟩
  | succ i => simp at h

/-! ## Failures -/

/-- The completions that end a chain and report it: a write that fails, and a body read that fails. -/
def Fails (s : TcpSession) : Event → Prop
  | .writeDone _ (some _) => True
  | .readDone i (.error _) => ∃ n, s.reads[i]? = some (.body n)
  | _ => False

/-- The completions that end a chain without a word: a header read that fails. -/
def FailsSilently (s : TcpSession) : Event → Prop
  | .readDone i (.error _) => ∃ n, s.reads[i]? = some (.header n)
  | _ => False

/-- A step calls the closed handler iff its event is a failure that is reported. -/
theorem fails_iff (hs : s.step e = some (s', o)) : s.Fails e ↔ ∃ reason, .closed reason ∈ o := by
  cases step_path hs <;> simp_all [Fails]

/-- A failure that is reported does nothing but that. -/
theorem outs_of_fails (hs : s.step e = some (s', o)) (hf : s.Fails e) : ∃ reason, o = [.closed reason] := by
  cases step_path hs <;> simp_all [Fails]

/-- The id of a session is its own for good. -/
theorem step_id (hs : s.step e = some (s', o)) : s'.id = s.id := by
  cases step_path hs <;> rfl

/-- A step that is no failure leaves a read outstanding, if there was one. -/
theorem step_reads (hs : s.step e = some (s', o)) (hf : ¬ s.Fails e) (hfs : ¬ s.FailsSilently e)
    (hr : s.reads ≠ []) : s'.reads ≠ [] := by
  cases step_path hs <;> simp_all [Fails, FailsSilently]

theorem FailsSilently.spec (h : s.FailsSilently e) :
    ∃ i ec n, e = .readDone i (.error ec) ∧ s.reads[i]? = some (.header n) := by
  cases e with
  | readDone i res =>
    cases res with
    | error ec => exact ⟨i, ec, h.choose, rfl, h.choose_spec⟩
    | ok bs => exact h.elim
  | _ => exact h.elim

/-- A read that fails is one or the other. -/
theorem fails_of_readError {i : Nat} {ec : ErrorCode} (hs : s.step (.readDone i (.error ec)) = some (s', o))
    (hf : ¬ s.Fails (.readDone i (.error ec))) : s.FailsSilently (.readDone i (.error ec)) := by
  have hpath := step_path hs
  cases hpath with
  | headerError _ n _ hop hn => exact ⟨n, hop⟩
  | bodyError _ n _ hop hn => exact absurd ⟨n, hop⟩ hf

/-- A step delivers at most one message, the one in the buffer, and then asks for a header. -/
theorem outs_of_message {m : Msg} (hs : s.step e = some (s', o)) (hm : .message m ∈ o) :
    ∃ i bs, e = .readDone i (.ok bs) ∧ m = s'.msg ∧ o = [.message m, .asyncRead (.header hdrLength)] := by
  cases step_path hs with
  | bodyOk i n bs hop hbs =>
    obtain rfl : m = s.msg.storeBody bs := by simpa using hm
    exact ⟨i, bs, rfl, rfl, rfl⟩
  | _ => simp at hm

/-! ## The state of a session -/

/-- The events that run `start`. -/
def Event.Starts : Event → Prop
  | .start => True
  | .connectDone none => True
  | _ => False

/-- The state only ever changes to opened. -/
theorem step_state (h : s.step e = some (s', o)) :
    e.Starts ∧ s'.state = .opened ∨ ¬ e.Starts ∧ s'.state = s.state := by
  cases step_path h <;> simp [Event.Starts]

/-- A new session is open once it has been started, for good. -/
theorem isOpen_iff {id : Int} {ep : Endpoint} {mem : Memory} {es : List Event} {out : List Out}
    (hr : machine.Run (new id ep mem) es s out) : s.isOpen = true ↔ ∃ e ∈ es, e.Starts := by
  induction hr with
  | nil => simp [isOpen, new]
  | @snoc es s out e s' o _ hs ih =>
    rcases step_state hs with ⟨he, hst⟩ | ⟨he, hst⟩
    · simp only [isOpen, hst, ne_eq, not_true_eq_false, if_false, true_iff]
      exact ⟨e, by simp, he⟩
    · simp only [isOpen, hst] at ih ⊢
      rw [ih]
      simp [or_and_right, exists_or, he]

/-- No session is ever closed. -/
theorem state_ne_closed {id : Int} {ep : Endpoint} {mem : Memory} {es : List Event} {out : List Out}
    (hr : machine.Run (new id ep mem) es s out) : s.state ≠ .closed := by
  induction hr with
  | nil => simp [new]
  | snoc _ hs ih =>
    rcases step_state hs with ⟨_, hst⟩ | ⟨_, hst⟩ <;> rw [hst]
    · simp
    · exact ih

end TcpSession

end Torinet
