import Torinet.Lib.CString
import Torinet.TcpSession

/-!
# The chat client

`chat_client/Client.cpp`, `chat_client/Cli.cpp` and the command line of `chat_client/main.cpp`: a program with some
clients, each of which has a session to the server. A line is split into words (`boost::split`, a parameter here) of
which the first is the name of a command; the command makes every client send a message, or stops them all. What is
undefined, an index beyond the words or a copy beyond its destination, has no result.
-/

namespace Torinet

open Lib

/-! ## Message bodies -/

/-- `RqCreateUser`: its constructor clears it. -/
structure RqCreateUser where
  id : Block 36

def RqCreateUser.new : RqCreateUser := ⟨.zero 36⟩

/-- `NfMessage`: its constructor clears it. -/
structure NfMessage where
  message : Block 256

def NfMessage.new : NfMessage := ⟨.zero 256⟩

/-! ## Clients -/

/-- A client's session is made without an id: it has the id `0`. -/
structure Client where
  session : TcpSession
  id_eq : session.id = 0
  /-- Its `io_service` has been stopped. -/
  stopped : Bool

namespace Client

/-- The cases of `messageHandler`, which only logs in the last one. -/
inductive Case
  | rqCreateUser
  | nfMessage
  | unknown
deriving DecidableEq

def new (ep : Endpoint) (mem : TcpSession.Memory) : Client := ⟨.new 0 ep mem, rfl, false⟩

/-- An event of the client's session. -/
def sessionStep (c : Client) (e : TcpSession.Event) : Option (Client × List TcpSession.Out) :=
  match hs : c.session.step e with
  | none => none
  | some r => some (⟨r.1, (TcpSession.step_id hs).trans c.id_eq, c.stopped⟩, r.2)

/-- `start`, when the connection it asks for has been made. -/
def start (c : Client) : Option Client :=
  (c.sessionStep .connect).bind fun r => (r.1.sessionStep (.connectDone none)).map Prod.fst

def stop (c : Client) : Client := { c with stopped := true }

def send (c : Client) (msg : Msg) : Client × List TcpSession.Out :=
  (⟨(c.session.sendRef msg).1, (TcpSession.step_id (e := .send .ref msg) rfl).trans c.id_eq, c.stopped⟩,
    (c.session.sendRef msg).2)

/-- `messageHandler`: the case it takes. -/
def messageHandler (c : Client) : Case :=
  let id := c.session.id
  if id = MsgId.rqCreateUser.val then .rqCreateUser
  else if id = MsgId.nfMessage.val then .nfMessage
  else .unknown

variable {c c' : Client} {e : TcpSession.Event} {o : List TcpSession.Out}

theorem sessionStep_iff : c.sessionStep e = some (c', o) ↔
    c.session.step e = some (c'.session, o) ∧ c'.stopped = c.stopped := by
  unfold sessionStep
  split
  · rename_i hs
    simp [hs]
  · rename_i r hs
    constructor
    · intro h
      obtain ⟨rfl, rfl⟩ := Prod.mk.inj (Option.some.inj h)
      exact ⟨hs, rfl⟩
    · rintro ⟨h, hstopped⟩
      obtain rfl : r = (c'.session, o) := Option.some.inj (hs.symm.trans h)
      obtain ⟨p, hp, b⟩ := c'
      obtain rfl : b = c.stopped := hstopped
      rfl

theorem sessionStep_of_step {p : TcpSession} (hs : c.session.step e = some (p, o)) :
    ∃ c' : Client, c'.session = p ∧ c.sessionStep e = some (c', o) :=
  ⟨⟨p, (TcpSession.step_id hs).trans c.id_eq, c.stopped⟩, rfl, sessionStep_iff.2 ⟨hs, rfl⟩⟩

/-- The id of a client's session is that of no message. -/
theorem messageHandler_eq (c : Client) : c.messageHandler = .unknown := by
  rw [messageHandler, c.id_eq]
  rfl

end Client

/-! ## Commands -/

/-- The characters of a text. -/
def ascii (s : String) : List UInt8 := s.toList.map fun c => UInt8.ofNat c.toNat

abbrev SplitVector := List (List UInt8)

structure ChatClient where
  clientVec : List Client
  bTerm : Bool

namespace ChatClient

/-- What the session of the client with the given number does. -/
abbrev Out := Nat × TcpSession.Out

/-- The loop over `g_clientVec`. -/
def eachClient (f : Nat → Client → Option (Client × List TcpSession.Out)) :
    Nat → List Client → Option (List Client × List Out)
  | _, [] => some ([], [])
  | i, client :: clients => (f i client).bind fun r => (eachClient f (i + 1) clients).map fun r' =>
    (r.1 :: r'.1, r.2.map (fun x => (i, x)) ++ r'.2)

/-- What `CmdCreateUser` does with a client: `sprintf` writes the id as a text. The memory of the message is given. -/
def createUser (mem : Msg) (client : Client) : Option (Client × List TcpSession.Out) :=
  let req := RqCreateUser.new
  (req.id.strcpy (ascii (toString client.session.id))).bind fun id =>
    (mem.encodeMsgNoResult .rqCreateUser (some id.bytes) 36).map fun msg => client.send msg

/-- What `CmdSendMessge` does with a client. -/
def sendMessge (split : SplitVector) (mem : Msg) (client : Client) : Option (Client × List TcpSession.Out) :=
  let nf := NfMessage.new
  match split[1]? with
  | none => none
  | some word => (nf.message.strcpy word).bind fun message =>
    (mem.encodeMsgNoResult .nfMessage (some message.bytes) 256).map fun msg => client.send msg

inductive Command
  | cmdCreateUser
  | cmdSendMessge
  | cmdStop
deriving DecidableEq

/-- The handlers of the commands. -/
def Command.handle (mem : Nat → Msg) (s : ChatClient) (split : SplitVector) : Command → Option (ChatClient × List Out)
  | .cmdCreateUser => (eachClient (fun i => createUser (mem i)) 0 s.clientVec).map fun r =>
    ({ s with clientVec := r.1 }, r.2)
  | .cmdSendMessge => (eachClient (fun i => sendMessge split (mem i)) 0 s.clientVec).map fun r =>
    ({ s with clientVec := r.1 }, r.2)
  | .cmdStop => some ({ s with clientVec := s.clientVec.map Client.stop }, [])

/-- The commands that `main` registers. -/
def table : List (List UInt8 × Command) :=
  [(ascii "create", .cmdCreateUser), (ascii "send", .cmdSendMessge), (ascii "stop", .cmdStop)]

/-- `readLine`, for one line; the memory of the messages is given, and so is `boost::split` at blanks, with
`token_compress_on`. -/
def readLine (boostSplit : List UInt8 → SplitVector) (mem : Nat → Msg) (s : ChatClient) (str : List UInt8) :
    Option (ChatClient × List Out) :=
  if str.length > 0 then
    if str = ascii "quit" then some ({ s with bTerm := true }, [])
    else if str = ascii "?" ∨ str = ascii "help" then some (s, [])
    else
      let splitVec := boostSplit str
      match splitVec[0]? with
      | none => none
      | some name =>
        match table.lookup name with
        | some command => command.handle mem s splitVec
        | none => some (s, [])
  else some (s, [])

end ChatClient

end Torinet
