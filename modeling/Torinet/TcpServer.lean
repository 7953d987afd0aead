import Torinet.Lib.Pool
import Torinet.TcpSession

/-!
# The server

`Src/Server.h`, `Src/Config.h` and `Src/TcpServer.cpp`: the server owns a pool of session ids and a map from ids to the
sessions that are registered, and accepts connections one at a time. A session is a number, its place among the objects
made so far (`objs`); an accepted session runs as the machine of `TcpSession`, and the server reacts to the closed
handler it has installed. Two asynchronous accepts are told apart: those outstanding on the current acceptor, and those
of an acceptor that was closed or replaced, whose handler is still to run.

The blocking `IoServicePool::run` at the end of `startAccept` does nothing here.
-/

namespace Torinet

open Lib

open Std (TreeMap)

/-- `ServerConfig`, as far as the server uses it. -/
structure ServerConfig where
  maxSession : Nat := 1024

/-- What a completed accept brings: the peer, and the memory the new session object is made in. -/
structure Accepted where
  remoteEndpoint : Endpoint
  mem : TcpSession.Memory

/-- A peer on the same machine, and zeroed memory. -/
def Accepted.loopback : Accepted := ⟨⟨"127.0.0.1", 5000⟩, .zero⟩

namespace TcpServer

inductive State
  | ready
  | start
  | stop
deriving DecidableEq

inductive Event
  /-- `start(port)` or `start(address, port)`, whose system calls succeed. -/
  | start
  | stop
  /-- The accept outstanding on the acceptor completes. -/
  | accept (res : Except ErrorCode Accepted)
  /-- An accept of an earlier acceptor completes. -/
  | staleAccept (res : Except ErrorCode Accepted)
  /-- An event of the `r`-th session. -/
  | session (r : Nat) (e : TcpSession.Event)

/-- What a server does: an output of one of its sessions. -/
abbrev Out := Nat × TcpSession.Out

end TcpServer

structure TcpServer where
  config : ServerConfig
  state : TcpServer.State
  freeSessionId : List Int
  sessions : TreeMap Int Nat
  objs : List TcpSession
  accepts : Nat
  staleAccepts : Nat

namespace TcpServer

/-- The constructor: the ids `1` to `maxSession` are free. -/
def new (config : ServerConfig) : TcpServer where
  config := config
  state := .ready
  freeSessionId := (List.range config.maxSession).map fun i : Nat => (i : Int) + 1
  sessions := {}
  objs := []
  accepts := 0
  staleAccepts := 0

/-- `getSession`. -/
def getSession (s : TcpServer) (id : Int) : Option Nat := s.sessions[id]?

/-- `startAccept`. -/
def startAccept (s : TcpServer) : TcpServer := { s with accepts := s.accepts + 1 }

/-- `listen`: a new acceptor takes the place of the old one, whose accepts are cancelled. -/
def listen (s : TcpServer) : TcpServer :=
  let s := { s with staleAccepts := s.staleAccepts + s.accepts, accepts := 0 }
  let s := { s with state := .start }
  s.startAccept

/-- `stop`. -/
def stop (s : TcpServer) : TcpServer × List Out :=
  if s.state ≠ .start then (s, [])
  else
    ({ s with
        staleAccepts := s.staleAccepts + s.accepts
        accepts := 0
        sessions := {}
        freeSessionId := []
        state := .stop },
      s.sessions.toList.map fun pair => (pair.2, .closeSocket))

/-- `handleClose`. The registered closed handler only logs. -/
def handleClose (s : TcpServer) (session : Nat) : TcpServer :=
  match s.objs[session]? with
  | none => s
  | some o => { s with sessions := s.sessions.erase o.id, freeSessionId := s.freeSessionId ++ [o.id] }

/-- The completion handler of an accept; undefined when it takes the front of an empty id pool. -/
def handleAccept (s : TcpServer) : Except ErrorCode Accepted → Option (TcpServer × List Out)
  | .error _ => some (s, [])
  | .ok a =>
    if s.state = .stop ∨ s.sessions.size ≥ s.config.maxSession then some (s, [])
    else
      match s.freeSessionId with
      | [] => none
      | id :: free =>
        let session := s.objs.length
        let r := (TcpSession.new id a.remoteEndpoint a.mem).start
        let s := { s with
          freeSessionId := free
          objs := s.objs ++ [r.1]
          sessions := s.sessions.insertIfNew id session }
        some (s.startAccept, r.2.map fun o => (session, o))

/-- The server's reaction to what a session does: it has installed the closed handler. -/
def callHandler (session : Nat) (s : TcpServer) : TcpSession.Out → TcpServer
  | .closed _ => s.handleClose session
  | _ => s

/-- An event of a session, and the handlers it calls. -/
def sessionStep (s : TcpServer) (session : Nat) (e : TcpSession.Event) : Option (TcpServer × List Out) :=
  match s.objs[session]? with
  | none => none
  | some o =>
    match o.step e with
    | none => none
    | some (o', outs) =>
      some (outs.foldl (callHandler session) { s with objs := s.objs.set session o' }, outs.map fun x => (session, x))

/-- A connection that an earlier acceptor has accepted is in a socket that is gone by the time its handler runs, unless
the server is stopped then. -/
def step (s : TcpServer) : Event → Option (TcpServer × List Out)
  | .start => some (s.listen, [])
  | .stop => some s.stop
  | .accept res => if s.accepts = 0 then none else ({ s with accepts := s.accepts - 1 }).handleAccept res
  | .staleAccept res =>
    if s.staleAccepts = 0 then none
    else if s.state ≠ .stop ∧ res.isOk then none
    else ({ s with staleAccepts := s.staleAccepts - 1 }).handleAccept res
  | .session r e => s.sessionStep r e

def machine : Machine TcpServer Event Out := ⟨step⟩

/-! ## The ways a step can go -/

/-- The server after a new session has taken the id at the front of the pool. -/
def accepted (s : TcpServer) (a : Accepted) (id : Int) (free : List Int) : TcpServer :=
  { s with
    freeSessionId := free
    objs := s.objs ++ [(TcpSession.new id a.remoteEndpoint a.mem).start.1]
    sessions := s.sessions.insertIfNew id s.objs.length
    accepts := s.accepts - 1 + 1 }

/-- The server after the session `r` has become `o`. -/
def setObj (s : TcpServer) (r : Nat) (o : TcpSession) : TcpServer := { s with objs := s.objs.set r o }

/-- The server after an id has been given back. -/
def released (s : TcpServer) (id : Int) : TcpServer :=
  { s with sessions := s.sessions.erase id, freeSessionId := s.freeSessionId ++ [id] }

/-- Every way a step can go, with the state and the outputs it leads to. -/
inductive Path (s : TcpServer) : Event → TcpServer → List Out → Prop
  | start : Path s .start s.listen []
  | stop : Path s .stop s.stop.1 s.stop.2
  | acceptError (ec : ErrorCode) (ha : s.accepts ≠ 0) :
      Path s (.accept (.error ec)) { s with accepts := s.accepts - 1 } []
  | acceptRefused (a : Accepted) (ha : s.accepts ≠ 0)
      (hfull : s.state = .stop ∨ s.sessions.size ≥ s.config.maxSession) :
      Path s (.accept (.ok a)) { s with accepts := s.accepts - 1 } []
  | acceptOk (a : Accepted) (id : Int) (free : List Int) (ha : s.accepts ≠ 0)
      (hroom : ¬ (s.state = .stop ∨ s.sessions.size ≥ s.config.maxSession)) (hf : s.freeSessionId = id :: free) :
      Path s (.accept (.ok a)) (s.accepted a id free)
        [(s.objs.length, .opened), (s.objs.length, .asyncRead (.header hdrLength))]
  | stale (res : Except ErrorCode Accepted) (ha : s.staleAccepts ≠ 0) (hres : res.isOk → s.state = .stop) :
      Path s (.staleAccept res) { s with staleAccepts := s.staleAccepts - 1 } []
  | session (r : Nat) (e : TcpSession.Event) (p p' : TcpSession) (o : List TcpSession.Out) (hp : s.objs[r]? = some p)
      (hs : p.step e = some (p', o)) (hf : ¬ p.Fails e) :
      Path s (.session r e) (s.setObj r p') (o.map fun x => (r, x))
  | sessionFails (r : Nat) (e : TcpSession.Event) (p p' : TcpSession) (reason : CloseReason) (hp : s.objs[r]? = some p)
      (hs : p.step e = some (p', [.closed reason])) (hf : p.Fails e) :
      Path s (.session r e) ((s.setObj r p').released p.id) [(r, .closed reason)]

variable {s s' : TcpServer} {e : Event} {o : List Out}

/-- Without a call of the closed handler the server does nothing. -/
theorem foldl_callHandler {r : Nat} {outs : List TcpSession.Out} (h : ∀ reason, .closed reason ∉ outs) :
    outs.foldl (callHandler r) s = s := by
  induction outs with
  | nil => rfl
  | cons x outs ih =>
    have hx : callHandler r s x = s := by
      cases x with
      | closed reason => exact absurd (by simp) (h reason)
      | _ => rfl
    rw [List.foldl_cons, hx]
    exact ih fun reason hm => h reason (List.mem_cons_of_mem _ hm)

theorem accept_path {res : Except ErrorCode Accepted} (ha : s.accepts ≠ 0)
    (h : ({ s with accepts := s.accepts - 1 }).handleAccept res = some (s', o)) : Path s (.accept res) s' o := by
  cases res with
  | error ec =>
    obtain ⟨rfl, rfl⟩ := Prod.mk.inj (Option.some.inj h)
    exact Path.acceptError ec ha
  | ok a =>
    by_cases hroom : s.state = .stop ∨ s.sessions.size ≥ s.config.maxSession
    · simp only [handleAccept, if_pos hroom, Option.some.injEq] at h
      obtain ⟨rfl, rfl⟩ := Prod.mk.inj h
      exact Path.acceptRefused a ha hroom
    · simp only [handleAccept, if_neg hroom] at h
      cases hf : s.freeSessionId with
      | nil => simp [hf] at h
      | cons id free =>
        simp only [hf, Option.some.injEq] at h
        obtain ⟨rfl, rfl⟩ := Prod.mk.inj h
        exact Path.acceptOk a id free ha hroom hf

theorem stale_path {res : Except ErrorCode Accepted} (ha : s.staleAccepts ≠ 0) (hres : res.isOk → s.state = .stop)
    (h : ({ s with staleAccepts := s.staleAccepts - 1 }).handleAccept res = some (s', o)) :
    Path s (.staleAccept res) s' o := by
  have hpath := Path.stale res ha hres
  cases res with
  | error ec =>
    obtain ⟨rfl, rfl⟩ := Prod.mk.inj (Option.some.inj h)
    exact hpath
  | ok a =>
    simp only [handleAccept, if_pos (Or.inl (hres rfl)), Option.some.injEq] at h
    obtain ⟨rfl, rfl⟩ := Prod.mk.inj h
    exact hpath

theorem sessionStep_path {r : Nat} {e : TcpSession.Event} (h : s.sessionStep r e = some (s', o)) :
    Path s (.session r e) s' o := by
  unfold sessionStep at h
  cases hp : s.objs[r]? with
  | none => simp [hp] at h
  | some p =>
    cases hs : p.step e with
    | none => simp [hp, hs] at h
    | some q =>
      obtain ⟨p', outs⟩ := q
      simp only [hp, hs, Option.some.injEq] at h
      obtain ⟨rfl, rfl⟩ := Prod.mk.inj h
      have hlt : r < s.objs.length := (List.getElem?_eq_some_iff.1 hp).1
      by_cases hf : p.Fails e
      · obtain ⟨reason, rfl⟩ := TcpSession.outs_of_fails hs hf
        have hid := TcpSession.step_id hs
        have hpath := Path.sessionFails r e p p' reason hp hs hf
        simpa [callHandler, handleClose, hlt, hid, released, setObj] using hpath
      · have hno : ∀ reason, .closed reason ∉ outs := fun reason hm => hf ((TcpSession.fails_iff hs).2 ⟨reason, hm⟩)
        rw [foldl_callHandler hno]
        exact Path.session r e p p' outs hp hs hf

/-- **Inversion of a step.** -/
theorem step_path (h : s.step e = some (s', o)) : Path s e s' o := by
  cases e with
  | start =>
    obtain ⟨rfl, rfl⟩ := Prod.mk.inj (Option.some.inj h)
    exact Path.start
  | stop =>
    obtain ⟨rfl, rfl⟩ := Prod.mk.inj (Option.some.inj h)
    exact Path.stop
  | accept res =>
    by_cases ha : s.accepts = 0
    · simp [step, ha] at h
    · simp only [step, if_neg ha] at h
      exact accept_path ha h
  | staleAccept res =>
    by_cases hs : s.staleAccepts = 0
    · simp [step, hs] at h
    · by_cases hres : s.state ≠ .stop ∧ res.isOk
      · simp [step, hs, hres] at h
      · simp only [step, if_neg hs, if_neg hres] at h
        exact stale_path hs (fun hok => by_contra fun hn => hres ⟨hn, hok⟩) h
  | session r e => exact sessionStep_path h

end TcpServer

end Torinet
