import Mathlib.Logic.Function.Basic
import Torinet.ChatClient

/-!
# The client's program

`chat_client/main.cpp`: the program makes some clients, each with a thread (`startRx`) that starts it and runs its
`io_service`, and reads lines itself until it is told to quit. The threads and the command line go on in any order, the
handling of a line or of a completion being one step. A thread executes the handlers of its client while the
`io_service` runs: from its start until it is stopped, or has nothing left to wait for.
-/

namespace Torinet

open Lib

structure ChatProgram where
  chat : ChatClient
  /-- The threads that have started their clients. -/
  started : Nat → Bool

namespace ChatProgram

inductive Event
  /-- The thread of a client begins. -/
  | startRx (i : Nat)
  /-- A line is read, the memory of the messages being given. -/
  | readLine (mem : Nat → Msg) (str : List UInt8)
  | connectDone (i : Nat) (ec : Option ErrorCode)
  | readDone (i j : Nat) (res : Except ErrorCode (List UInt8))
  | writeDone (i j : Nat) (ec : Option ErrorCode)

/-- The clients that `main` makes, each in the memory given for it. -/
def new (ep : Endpoint) (mems : List TcpSession.Memory) : ChatProgram where
  chat := ⟨mems.map (Client.new ep), false⟩
  started _ := false

/-- An `io_service` without anything to wait for stops. -/
def stopIdle (c : Client) : Client :=
  if c.session.connects = 0 ∧ c.session.reads = [] ∧ c.session.writes = [] then c.stop else c

/-- The client `i` has become `c`. -/
def setClient (s : ChatProgram) (i : Nat) (c : Client) : ChatProgram :=
  { s with chat := { s.chat with clientVec := s.chat.clientVec.set i c } }

/-- `startRx`, up to where the `io_service` runs. -/
def startRx (s : ChatProgram) (i : Nat) : Option (ChatProgram × List ChatClient.Out) :=
  if s.started i then none
  else s.chat.clientVec[i]?.bind fun c => (c.sessionStep .connect).map fun r =>
    ({ s.setClient i r.1 with started := Function.update s.started i true }, r.2.map fun x => (i, x))

/-- The handler of a completion, in the thread of the client `i`. -/
def handle (s : ChatProgram) (i : Nat) (e : TcpSession.Event) : Option (ChatProgram × List ChatClient.Out) :=
  s.chat.clientVec[i]?.bind fun c =>
    if s.started i = true ∧ c.stopped = false then
      (c.sessionStep e).map fun r => (s.setClient i (stopIdle r.1), r.2.map fun x => (i, x))
    else none

section Machine

variable (boostSplit : List UInt8 → SplitVector)

def step (s : ChatProgram) : Event → Option (ChatProgram × List ChatClient.Out)
  | .startRx i => s.startRx i
  | .readLine mem str =>
    if s.chat.bTerm then none
    else (s.chat.readLine boostSplit mem str).map fun r => ({ s with chat := r.1 }, r.2)
  | .connectDone i ec => s.handle i (.connectDone ec)
  | .readDone i j res => s.handle i (.readDone j res)
  | .writeDone i j ec => s.handle i (.writeDone j ec)

def machine : Machine ChatProgram Event ChatClient.Out := ⟨step boostSplit⟩

end Machine

end ChatProgram

end Torinet
