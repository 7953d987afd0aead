import Torinet.TcpServer

/-!
# The pool of io_services

`Src/IoServicePool.h`, `Src/IoServicePool.cpp` and the calls that `Src/TcpServer.cpp` makes of it. A pool hands out its
io_services in turn, and `run` starts a thread for each of them, which then is inside `io_service::run` for good: the
pool holds work for every io_service, so none of them runs dry. The caller of `run` waits for these threads.

A pooled server is a server whose acceptor and sockets have their io_services. The completions of its operations are
handled by threads inside `run` of the io_service they belong to: a thread that waits takes one (`begin`), and waits
again when the handler has returned (`finish`). The accept handler ends in `startAccept`, and so in `run`, and does not
return: it is one step, up to where its caller waits, so that nothing falls between what it does to the server and the
threads that it starts.
-/

namespace Torinet

open Lib

namespace IoServicePool

/-- What a thread does inside `io_service::run`. -/
inductive Doing
  | waiting
  /-- It executes the handler of an operation of the given session, or of an accept. -/
  | handling (session : Option Nat)
  /-- The handler it executes waits for the threads that it has started. -/
  | joining
deriving DecidableEq

structure Thread where
  ios : Nat
  doing : Doing
deriving DecidableEq

end IoServicePool

structure IoServicePool where
  size : Nat
  next : Nat
  /-- The threads inside `io_service::run`, in the order they were started. -/
  threads : List IoServicePool.Thread

namespace IoServicePool

/-- The constructor. -/
def new (size : Nat) : IoServicePool := ⟨size, 0, []⟩

/-- `getIoService`. -/
def getIoService (p : IoServicePool) : Nat × IoServicePool :=
  let next := if p.next ≥ p.size then 0 else p.next
  (next, { p with next := next + 1 })

/-- `run`. -/
def run (p : IoServicePool) : IoServicePool :=
  { p with threads := p.threads ++ (List.range p.size).map fun i => ⟨i, .waiting⟩ }

/-- The threads that are inside `run` of the `i`-th io_service. -/
def inside (p : IoServicePool) (i : Nat) : Nat := p.threads.countP fun t => t.ios = i

end IoServicePool

structure PooledServer where
  server : TcpServer
  pool : IoServicePool
  /-- The io_service of `_acceptor`. -/
  acceptor : Nat
  /-- The io_service of `_socket`. -/
  socket : Nat
  /-- The io_services of the sockets of the sessions. -/
  sockets : List Nat

namespace PooledServer

inductive Event
  /-- The thread `t` takes a completion and executes its handler. -/
  | begin (t : Nat) (e : TcpServer.Event)
  /-- The handler that the thread `t` executes returns. -/
  | finish (t : Nat)
  /-- `send` is called for a session, by whichever handler or thread. -/
  | send (session : Nat) (overload : TcpSession.Overload) (msg : Msg)

/-- `startAccept`, as far as the pool is concerned. -/
def startAccept (s : PooledServer) : PooledServer :=
  let r := s.pool.getIoService
  { s with socket := r.1, pool := r.2.run }

/-- `listen`, for a new server whose pool has perhaps been used before. -/
def listen (config : ServerConfig) (pool : IoServicePool) : PooledServer :=
  let r := pool.getIoService
  startAccept { server := (TcpServer.new config).listen, pool := r.2, acceptor := r.1, socket := 0, sockets := [] }

/-- The io_service of an operation, and its session. -/
def operation (s : PooledServer) : TcpServer.Event → Option (Nat × Option Nat)
  | .accept _ => some (s.acceptor, none)
  | .session r (.readDone _ _) => (s.sockets[r]?).map fun i => (i, some r)
  | .session r (.writeDone _ _) => (s.sockets[r]?).map fun i => (i, some r)
  | _ => none

/-- The accept handler has made a session of its socket, and then called `startAccept`. -/
def handleAccepted (s : PooledServer) (t i : Nat) : PooledServer :=
  let s := { s with
    sockets := s.sockets ++ [s.socket]
    pool := { s.pool with threads := s.pool.threads.set t ⟨i, .joining⟩ } }
  s.startAccept

def step (s : PooledServer) : Event → Option (PooledServer × List TcpServer.Out)
  | .begin t e =>
    match s.operation e with
    | none => none
    | some (i, session) =>
      if s.pool.threads[t]? = some ⟨i, .waiting⟩ then
        (s.server.step e).map fun r =>
          let s' := { s with server := r.1 }
          -- a session more: the handler has not returned early
          if r.1.objs.length = s.server.objs.length then
            ({ s' with pool := { s.pool with threads := s.pool.threads.set t ⟨i, .handling session⟩ } }, r.2)
          else (s'.handleAccepted t i, r.2)
      else none
  | .finish t =>
    match s.pool.threads[t]? with
    | some ⟨i, .handling _⟩ =>
      some ({ s with pool := { s.pool with threads := s.pool.threads.set t ⟨i, .waiting⟩ } }, [])
    | _ => none
  | .send session overload msg =>
    (s.server.step (.session session (.send overload msg))).map fun r => ({ s with server := r.1 }, r.2)

def machine : Machine PooledServer Event TcpServer.Out := ⟨step⟩

end PooledServer

end Torinet
