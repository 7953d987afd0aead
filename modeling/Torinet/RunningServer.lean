import Mathlib.Logic.Function.Basic
import Torinet.IoServicePool

/-!
# Stopping the io_services

`IoServicePool::stop` stops all io_services of the pool, and `ChatServer::stop` the one that the constructor of the chat
server was given. A thread leaves `io_service::run` when the io_service is stopped and it executes no handler. `run` of
the pool returns to its caller when all the threads that it has started have ended: to an accept handler, which returns
as well, or to `ChatServer::start`.
-/

namespace Torinet

open Lib

structure RunningServer where
  server : PooledServer
  /-- `ios_` of the chat server. -/
  ios : Nat
  /-- The io_services that have been stopped. -/
  stopped : Nat → Bool
  /-- The threads that have left `io_service::run`. -/
  ended : Nat → Bool
  /-- Where the threads begin that an accept handler has started, for the thread that executes it. -/
  joins : Nat → Option Nat

namespace RunningServer

inductive Event
  /-- What happens while the threads are inside `run`. -/
  | pool (e : PooledServer.Event)
  /-- `ChatServer::stop`. -/
  | chatStop
  /-- `IoServicePool::stop`. -/
  | poolStop
  /-- The thread `t` leaves `io_service::run`. -/
  | leave (t : Nat)
  /-- The accept handler that the thread `t` executes has waited for its threads, and returns. -/
  | joined (t : Nat)

/-- One of the two calls that stop io_services. -/
def Event.isStop : Event → Bool
  | .chatStop | .poolStop => true
  | _ => false

/-- A thread has done what it was doing. -/
def Event.isReturn : Event → Bool
  | .pool (.finish _) | .leave _ | .joined _ => true
  | _ => false

/-- The chat server has been made, with a pool of the given size, and `start` has come to `run`. -/
def start (config : ServerConfig) (size : Nat) : RunningServer :=
  let r := (IoServicePool.new size).getIoService
  { server := .listen config r.2, ios := r.1, stopped := fun _ => false, ended := fun _ => false,
    joins := fun _ => none }

def threads (s : RunningServer) : List IoServicePool.Thread := s.server.pool.threads

/-- The threads that one call of `run` has started have ended. -/
def endedFrom (s : RunningServer) (first : Nat) : Bool :=
  (List.range s.server.pool.size).all fun i => s.ended (first + i)

/-- The thread `t` may execute another handler. -/
def runs (s : RunningServer) (t : Nat) : Bool :=
  !s.ended t && s.threads[t]?.any fun x => !s.stopped x.ios

def setThread (s : RunningServer) (t : Nat) (x : IoServicePool.Thread) : RunningServer :=
  { s with server := { s.server with pool := { s.server.pool with threads := s.threads.set t x } } }

/-- A thread takes a completion; the accept handler may have started threads. -/
def begin (s : RunningServer) (t : Nat) (e : TcpServer.Event) : Option (RunningServer × List TcpServer.Out) :=
  if s.runs t then
    (s.server.step (.begin t e)).map fun r =>
      ({ s with
          server := r.1
          joins := if r.1.pool.threads.length = s.threads.length then s.joins
            else Function.update s.joins t (some s.threads.length) }, r.2)
  else none

def leave (s : RunningServer) (t : Nat) : Option (RunningServer × List TcpServer.Out) :=
  match s.threads[t]? with
  | some ⟨i, .waiting⟩ =>
    if s.stopped i && !s.ended t then some ({ s with ended := Function.update s.ended t true }, []) else none
  | _ => none

def joined (s : RunningServer) (t : Nat) : Option (RunningServer × List TcpServer.Out) :=
  match s.threads[t]?, s.joins t with
  | some ⟨i, .joining⟩, some first => if s.endedFrom first then some (s.setThread t ⟨i, .waiting⟩, []) else none
  | _, _ => none

def step (s : RunningServer) : Event → Option (RunningServer × List TcpServer.Out)
  | .pool (.begin t e) => s.begin t e
  | .pool e => (s.server.step e).map fun r => ({ s with server := r.1 }, r.2)
  | .chatStop => some ({ s with stopped := Function.update s.stopped s.ios true }, [])
  | .poolStop => some ({ s with stopped := fun i => decide (i < s.server.pool.size) || s.stopped i }, [])
  | .leave t => s.leave t
  | .joined t => s.joined t

def machine : Machine RunningServer Event TcpServer.Out := ⟨step⟩

/-- `start` returns: the threads that its call of `run` has started have ended. -/
def returned (s : RunningServer) : Bool := s.endedFrom 0

end RunningServer

end Torinet
