import Torinet.Client.Acts
import Torinet.Lib.Link

/-!
# Clients and their server, when something fails

The chat server and its clients, one client a program, as in `ChatSystem.lean`; but now accepts, reads and writes fail
at any time, with any error, and connections break, in either direction and at any byte. A read brings all that was
asked for, except over a connection that is broken: there it brings what is left, if anything. Sessions that are no
longer registered go on.
-/

namespace Torinet

open Lib

open ChatServer (serverOuts)
open Torinet.System (Seen)
open TcpServer (sessionOuts)
open TcpSession (written)

structure ChatNetwork where
  server : ChatServer
  /-- The clients, by the numbers of the server's sessions. -/
  client : Nat → Client
  /-- The client's program has been told to quit: it reads no more lines. -/
  bTerm : Nat → Bool
  /-- From a client to the server. -/
  up : Nat → Link UInt8
  /-- From the server to a client. -/
  down : Nat → Link UInt8

namespace ChatNetwork

inductive Event
  /-- A client connects to `ep`, and the server accepts the connection. -/
  | connect (a : Accepted) (ep : Endpoint) (mem : TcpSession.Memory)
  | acceptError (ec : ErrorCode)
  /-- A line is typed at a client's program; the memory of the message is given. -/
  | command (conn : Nat) (mem : Msg) (line : List UInt8)
  | serverRead (conn : Nat) (ec : Option ErrorCode)
  | serverWrite (conn : Nat) (ec : Option ErrorCode)
  | clientRead (conn : Nat) (ec : Option ErrorCode)
  | clientWrite (conn : Nat) (ec : Option ErrorCode)
  /-- The connection breaks on the way to the server: `n` of the bytes on their way still arrive. -/
  | breakUp (conn n : Nat)
  /-- It breaks on the way to the client. -/
  | breakDown (conn n : Nat)

/-- What the first outstanding read of a session gets. -/
def arrived (p : TcpSession) (l : Link UInt8) : Option (List UInt8) :=
  match p.reads with
  | [] => none
  | op :: _ =>
    if op.size ≤ l.items.length then some (l.items.take op.size)
    else if l.broken && !l.items.isEmpty then some l.items else none

def new (config : ServerConfig) : ChatNetwork where
  server := (ChatServer.new config).start true
  client _ := .new ⟨"", 0⟩ .zero
  bTerm _ := false
  up _ := .new
  down _ := .new

/-- A step of the server. -/
def serverStep (s : ChatNetwork) (e : ChatServer.Event) : Option (ChatNetwork × List Seen) :=
  (s.server.step e).map fun r =>
    ({ s with server := r.1, down := fun q => (s.down q).put (written (sessionOuts q (serverOuts r.2))) },
      r.2.map .server)

/-- The client has become `c`, and has put out the given. -/
def setClient (s : ChatNetwork) (r : Nat) (c : Client) (outs : List TcpSession.Out) : ChatNetwork :=
  { s with client := Function.update s.client r c, up := Function.update s.up r ((s.up r).put (written outs)) }

/-- A completion at a client, unless its `io_service` has been stopped. -/
def clientStep (s : ChatNetwork) (r : Nat) (e : TcpSession.Event) : Option (ChatNetwork × List Seen) :=
  if (s.client r).stopped then none
  else ((s.client r).sessionStep e).map fun x => (s.setClient r x.1 x.2, (System.handles r x.1 x.2).map .client)

/-- A connection is made: it is that of the server's next session. -/
def connect (s : ChatNetwork) (a : Accepted) (ep : Endpoint) (mem : TcpSession.Memory) :
    Option (ChatNetwork × List Seen) :=
  let r := s.server.server.objs.length
  (s.server.step (.accept (.ok a))).bind fun x => (Client.new ep mem).start.map fun c =>
    ({ server := x.1
       client := Function.update s.client r c
       bTerm := Function.update s.bTerm r false
       up := Function.update s.up r .new
       down := Function.update s.down r .new }, x.2.map .server)

/-- A read of the server's session `r` completes. -/
def serverRead (s : ChatNetwork) (r : Nat) : Option ErrorCode → Option (ChatNetwork × List Seen)
  | some ec => s.serverStep (.readDone r 0 (.error ec))
  | none => s.server.server.objs[r]?.bind fun p => (arrived p (s.up r)).bind fun bs =>
    ({ s with up := Function.update s.up r ((s.up r).drop bs.length) } : ChatNetwork).serverStep
      (.readDone r 0 (.ok bs))

/-- A read of the client `r` completes. -/
def clientRead (s : ChatNetwork) (r : Nat) : Option ErrorCode → Option (ChatNetwork × List Seen)
  | some ec => s.clientStep r (.readDone 0 (.error ec))
  | none => (arrived (s.client r).session (s.down r)).bind fun bs =>
    ({ s with down := Function.update s.down r ((s.down r).drop bs.length) } : ChatNetwork).clientStep r
      (.readDone 0 (.ok bs))

section Machine

variable (boostSplit : List UInt8 → SplitVector)

/-- The line `line` is typed at the client `r`. -/
def command (s : ChatNetwork) (r : Nat) (mem : Msg) (line : List UInt8) : Option (ChatNetwork × List Seen) :=
  if s.bTerm r then none
  else (ChatClient.readLine boostSplit (fun _ => mem) ⟨[s.client r], s.bTerm r⟩ line).bind fun x =>
    x.1.clientVec.head?.map fun c =>
      ({ s.setClient r c (x.2.map Prod.snd) with bTerm := Function.update s.bTerm r x.1.bTerm }, [])

/-- A client can do something that has been connected, whether its session is registered or not. -/
def step (s : ChatNetwork) : Event → Option (ChatNetwork × List Seen)
  | .connect a ep mem => s.connect a ep mem
  | .acceptError ec => s.serverStep (.accept (.error ec))
  | .command r mem line => if r < s.server.server.objs.length then s.command boostSplit r mem line else none
  | .serverRead r ec => s.serverRead r ec
  | .serverWrite r ec => s.serverStep (.writeDone r 0 ec)
  | .clientRead r ec => if r < s.server.server.objs.length then s.clientRead r ec else none
  | .clientWrite r ec => if r < s.server.server.objs.length then s.clientStep r (.writeDone 0 ec) else none
  | .breakUp r n => some ({ s with up := Function.update s.up r ((s.up r).cut n) }, [])
  | .breakDown r n => some ({ s with down := Function.update s.down r ((s.down r).cut n) }, [])

def machine : Machine ChatNetwork Event Seen := ⟨step boostSplit⟩

end Machine

end ChatNetwork

end Torinet
