import Mathlib.Logic.Function.Basic
import Torinet.ChatClient
import Torinet.ChatServer
import Torinet.Session.Send

/-!
# Clients and their server

A chat server and, at the other end of each of its sessions, a program with one client. Clients connect at any time.
What a session starts to write is on its way from then on, in order; a read of the other end completes when all that was
asked for has arrived. Nothing fails, so writes complete without an error, and connections stay.
-/

namespace Torinet

open Lib

open TcpServer (sessionOuts)
open ChatServer (registered serverOuts)
open TcpSession (written)

structure System where
  server : ChatServer
  /-- The clients, by the numbers of the server's sessions. -/
  client : Nat → Client
  /-- The client's program has been told to quit: it reads no more lines. -/
  bTerm : Nat → Bool
  /-- The bytes that are on their way to the server. -/
  up : Nat → List UInt8
  /-- The bytes that are on their way to a client. -/
  down : Nat → List UInt8

namespace System

inductive Event
  /-- A client connects to `ep`, and the server accepts the connection. -/
  | connect (a : Accepted) (ep : Endpoint) (mem : TcpSession.Memory)
  /-- A line is typed at a client's program; the memory of the message is given. -/
  | command (conn : Nat) (mem : Msg) (line : List UInt8)
  | serverRead (conn : Nat)
  | serverWrite (conn : Nat)
  | clientRead (conn : Nat)
  | clientWrite (conn : Nat)

/-- The event is the completion of a read or a write. -/
def Event.Completion : Event → Prop
  | .connect _ _ _ => False
  | .command _ _ _ => False
  | _ => True

/-- The message handler of a client is called for a message, and takes a case. -/
abbrev Out := Nat × Client.Case × Msg

/-- What the first outstanding read of a session gets out of the bytes that have arrived. -/
def arrived (p : TcpSession) (bytes : List UInt8) : Option (List UInt8) :=
  match p.reads with
  | [] => none
  | op :: _ => if op.size ≤ bytes.length then some (bytes.take op.size) else none

def new (config : ServerConfig) : System where
  server := (ChatServer.new config).start true
  client _ := .new ⟨"", 0⟩ .zero
  bTerm _ := false
  up _ := []
  down _ := []

/-- A step of the server. -/
def serverStep (s : System) (e : ChatServer.Event) : Option (System × List Out) :=
  (s.server.step e).map fun r =>
    ({ s with server := r.1, down := fun q => s.down q ++ written (sessionOuts q (serverOuts r.2)) }, [])

/-- The client has become `c`, and has put out the given. -/
def setClient (s : System) (r : Nat) (c : Client) (outs : List TcpSession.Out) : System :=
  { s with client := Function.update s.client r c, up := Function.update s.up r (s.up r ++ written outs) }

/-- The calls of a client's message handler. -/
def handles (r : Nat) (c : Client) (outs : List TcpSession.Out) : List Out := outs.filterMap fun
  | .message m => some (r, c.messageHandler, m)
  | _ => none

/-- A completion at a client, unless its `io_service` has been stopped. -/
def clientStep (s : System) (r : Nat) (e : TcpSession.Event) : Option (System × List Out) :=
  if (s.client r).stopped then none
  else ((s.client r).sessionStep e).map fun x => (s.setClient r x.1 x.2, handles r x.1 x.2)

/-- A connection is made: it is that of the server's next session. -/
def connect (s : System) (a : Accepted) (ep : Endpoint) (mem : TcpSession.Memory) : Option (System × List Out) :=
  let r := s.server.server.objs.length
  (s.server.step (.accept (.ok a))).bind fun x => (Client.new ep mem).start.map fun c =>
    ({ server := x.1
       client := Function.update s.client r c
       bTerm := Function.update s.bTerm r false
       up := Function.update s.up r []
       down := Function.update s.down r [] }, [])

section Machine

variable (boostSplit : List UInt8 → SplitVector)

/-- The line `line` is typed at the client `r`. -/
def command (s : System) (r : Nat) (mem : Msg) (line : List UInt8) : Option (System × List Out) :=
  if s.bTerm r then none
  else (ChatClient.readLine boostSplit (fun _ => mem) ⟨[s.client r], s.bTerm r⟩ line).bind fun x =>
    x.1.clientVec.head?.map fun c =>
      ({ s.setClient r c (x.2.map Prod.snd) with bTerm := Function.update s.bTerm r x.1.bTerm }, [])

/-- A read of the server's session `r` completes. -/
def serverRead (s : System) (r : Nat) : Option (System × List Out) :=
  s.server.server.objs[r]?.bind fun p => (arrived p (s.up r)).bind fun bs =>
    ({ s with up := Function.update s.up r ((s.up r).drop bs.length) } : System).serverStep (.readDone r 0 (.ok bs))

/-- A read of the client `r` completes. -/
def clientRead (s : System) (r : Nat) : Option (System × List Out) :=
  (arrived (s.client r).session (s.down r)).bind fun bs =>
    ({ s with down := Function.update s.down r ((s.down r).drop bs.length) } : System).clientStep r
      (.readDone 0 (.ok bs))

/-- Only what is connected can do something. -/
def step (s : System) : Event → Option (System × List Out)
  | .connect a ep mem => s.connect a ep mem
  | .command r mem line => if r ∈ registered s.server.server then s.command boostSplit r mem line else none
  | .serverRead r => if r ∈ registered s.server.server then s.serverRead r else none
  | .serverWrite r => if r ∈ registered s.server.server then s.serverStep (.writeDone r 0 none) else none
  | .clientRead r => if r ∈ registered s.server.server then s.clientRead r else none
  | .clientWrite r => if r ∈ registered s.server.server then s.clientStep r (.writeDone 0 none) else none

def machine : Machine System Event Out := ⟨step boostSplit⟩

end Machine

/-- The calls of the message handler of the client `r`. -/
def calls (r : Nat) (out : List Out) : List (Client.Case × Msg) := out.filterMap fun x =>
  if x.1 = r then some x.2 else none

@[simp] theorem calls_append {r : Nat} (out o : List Out) : calls r (out ++ o) = calls r out ++ calls r o := by
  simp [calls]

end System

end Torinet
