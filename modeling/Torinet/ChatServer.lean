import Torinet.Server.Sessions

/-!
# The chat server

`chat_server/ChatServer.cpp`: a server whose message handler answers two kinds of messages. A request to create a user
sets the user's score in Redis; a chat message adds its length to the sender's score and is sent to every other session
of the registry, under the registry's lock. The handlers of openings and closings only log.

Both handlers run inside the completion of a body read, before the next header is asked for. Calls of `nfMessage` are
outputs too, with the message and the sessions that are registered at the time.
-/

namespace Torinet

open Lib

/-- A command sent to Redis. -/
inductive RedisCommand
  | zadd (key : String) (score : Nat) (member : String)
  | zincrby (key : String) (increment : Nat) (member : String)
deriving DecidableEq

/-- `strlen` of a text in some memory: nothing when the scan leaves it. -/
def strlen (bs : List UInt8) : Option Nat := bs.findIdx? fun b => b = 0

namespace ChatServer

inductive Event
  | accept (res : Except ErrorCode Accepted)
  | readDone (session i : Nat) (res : Except ErrorCode (List UInt8))
  | writeDone (session i : Nat) (ec : Option ErrorCode)

/-- A chat server's event is one of its server. -/
def Event.toServer : Event → TcpServer.Event
  | .accept res => .accept res
  | .readDone session i res => .session session (.readDone i res)
  | .writeDone session i ec => .session session (.writeDone i ec)

inductive Out
  | server (out : TcpServer.Out)
  /-- A command is sent to Redis, nothing being known of one whose length scan leaves the body. -/
  | redis (cmd : Option RedisCommand)
  /-- `nfMessage` is called for a session whose message is `msg`, while the given sessions are registered. -/
  | nfMessage (session : Nat) (msg : Msg) (registered : List Nat)

end ChatServer

structure ChatServer where
  server : TcpServer

namespace ChatServer

def new (config : ServerConfig) : ChatServer := ⟨.new config⟩

/-- `start`: nothing is done when Redis cannot be reached. -/
def start (s : ChatServer) (connected : Bool) : ChatServer := if connected = false then s else ⟨s.server.listen⟩

/-- The name of a session's entry in the ranking. -/
def member (p : TcpSession) : String := "session_" ++ toString p.id

/-- `rqCreateUser`, for the session `p`. -/
def rqCreateUser (s : ChatServer) (p : TcpSession) : ChatServer × List Out :=
  (s, [.redis (some (.zadd "user:ranking" 0 (member p)))])

/-- The sessions in the registry, in the order of their ids. -/
def registered (s : TcpServer) : List Nat := s.sessions.toList.map Prod.snd

/-- What the loop over the registry makes the sessions do. -/
def sends (s : TcpServer) (session : Nat) (msg : Msg) : List TcpServer.Event :=
  ((registered s).filter fun it => session ≠ it).map fun it => .session it (.send .ref msg)

/-- `nfMessage`, for the session `p`, which is the session number `session`. -/
def nfMessage (s : ChatServer) (session : Nat) (p : TcpSession) : Option (ChatServer × List Out) :=
  let length := strlen p.msg.body.bytes
  let cmd := length.map fun n => RedisCommand.zincrby "user:ranking" n (member p)
  (TcpServer.machine.exec s.server (sends s.server session p.msg)).map fun r =>
    (⟨r.1⟩, .nfMessage session p.msg (registered s.server) :: .redis cmd :: r.2.map .server)

def messageHandler (s : ChatServer) (session : Nat) : Option (ChatServer × List Out) :=
  match s.server.objs[session]? with
  | none => none
  | some p =>
    let id := p.msg.msgId
    if id = MsgId.rqCreateUser.val then some (s.rqCreateUser p)
    else if id = MsgId.nfMessage.val then s.nfMessage session p
    else some (s, [])

/-- The registered handlers; those of openings and closings only log. -/
def callHandler (s : ChatServer) : TcpServer.Out → Option (ChatServer × List Out)
  | (session, .message _) => s.messageHandler session
  | _ => some (s, [])

/-- What the server does, one after the other, and the handlers it calls. -/
def callHandlers (s : ChatServer) : List TcpServer.Out → Option (ChatServer × List Out)
  | [] => some (s, [])
  | x :: outs => (s.callHandler x).bind fun r => (r.1.callHandlers outs).map fun r' => (r'.1, .server x :: r.2 ++ r'.2)

def step (s : ChatServer) (e : Event) : Option (ChatServer × List Out) :=
  (s.server.step e.toServer).bind fun r => callHandlers ⟨r.1⟩ r.2

def machine : Machine ChatServer Event Out := ⟨step⟩

/-! ## The ways a step can go -/

/-- What the server does, among all that is done. -/
def serverOuts (out : List Out) : List TcpServer.Out := out.filterMap fun
  | .server x => some x
  | _ => none

/-- The calls of `nfMessage`. -/
def handled (out : List Out) : List (Nat × Msg × List Nat) := out.filterMap fun
  | .nfMessage session msg registered => some (session, msg, registered)
  | _ => none

@[simp] theorem serverOuts_append (out o : List Out) : serverOuts (out ++ o) = serverOuts out ++ serverOuts o := by
  simp [serverOuts]

@[simp] theorem handled_append (out o : List Out) : handled (out ++ o) = handled out ++ handled o := by
  simp [handled]

@[simp] theorem serverOuts_map (o : List TcpServer.Out) : serverOuts (o.map .server) = o := by
  simp [serverOuts, List.filterMap_map]

@[simp] theorem handled_map (o : List TcpServer.Out) : handled (o.map .server) = [] := by
  simp [handled, List.filterMap_map]

/-- The two ways a step can go: the server's own step, perhaps with a command to Redis; or one that delivers a chat
message, which is then sent to the other sessions. -/
inductive Path (s : ChatServer) (e : Event) : ChatServer → List Out → Prop
  | server (t : TcpServer) (outs : List TcpServer.Out) (o : List Out) (hs : s.server.step e.toServer = some (t, outs))
      (ho : serverOuts o = outs) (hh : handled o = [])
      (hm : ∀ r m, (r, .message m) ∈ outs → m.msgId ≠ (MsgId.nfMessage.val : Int)) : Path s e ⟨t⟩ o
  | relay (t t' : TcpServer) (r i : Nat) (bs : List UInt8) (p : TcpSession) (cmd : Option RedisCommand)
      (outs : List TcpServer.Out) (he : e = .readDone r i (.ok bs))
      (hs : s.server.step e.toServer = some (t, [(r, .message p.msg), (r, .asyncRead (.header hdrLength))]))
      (hp : t.objs[r]? = some p) (hm : p.msg.msgId = MsgId.nfMessage.val)
      (hx : TcpServer.machine.exec t (sends t r p.msg) = some (t', outs)) :
      Path s e ⟨t'⟩ (.server (r, .message p.msg) :: .nfMessage r p.msg (registered t) :: .redis cmd ::
        outs.map .server ++ [.server (r, .asyncRead (.header hdrLength))])

variable {s s' : ChatServer} {e : Event} {o : List Out}

/-- The loop over the registry sends to other sessions than the sender. -/
theorem of_mem_sends {t : TcpServer} {r : Nat} {m : Msg} {f : TcpServer.Event} (hf : f ∈ sends t r m) :
    ∃ q, q ≠ r ∧ f = .session q (.send .ref m) := by
  obtain ⟨q, hq, rfl⟩ := List.mem_map.1 hf
  exact ⟨q, Ne.symm (by simpa using (List.mem_filter.1 hq).2), rfl⟩

theorem toServer_running (e : Event) : e.toServer.Running := by
  cases e <;> trivial

/-- Sessions of a chat server are started when they are accepted, and by nothing else. -/
theorem not_starts_of_toServer {r : Nat} {ev : TcpSession.Event} (he : e.toServer = .session r ev) : ¬ ev.Starts := by
  cases e <;> cases he <;> exact id

theorem callHandlers_of_not_message {outs : List TcpServer.Out} (h : ∀ r m, (r, .message m) ∉ outs) :
    s.callHandlers outs = some (s, outs.map .server) := by
  induction outs with
  | nil => rfl
  | cons x outs ih =>
    have hx : s.callHandler x = some (s, []) := by
      obtain ⟨r, x⟩ := x
      cases x with
      | message m => exact absurd (by simp) (h r m)
      | _ => rfl
    rw [callHandlers, hx, Option.bind_some, ih fun r m hm => h r m (List.mem_cons_of_mem _ hm)]
    rfl

/-- What the handlers do when a message is delivered. -/
theorem callHandlers_message {t : TcpServer} {r : Nat} {m : Msg} :
    (⟨t⟩ : ChatServer).callHandlers [(r, .message m), (r, .asyncRead (.header hdrLength))] =
      ((⟨t⟩ : ChatServer).messageHandler r).map fun h => (h.1, .server (r, .message m) :: h.2 ++
        [.server (r, .asyncRead (.header hdrLength))]) := by
  simp only [callHandlers, callHandler]
  cases (⟨t⟩ : ChatServer).messageHandler r with
  | none => rfl
  | some h => simp

/-- **Inversion of a step.** -/
theorem step_path (h : s.step e = some (s', o)) : Path s e s' o := by
  obtain ⟨⟨t, outs⟩, hs, hc⟩ := Option.bind_eq_some_iff.1 h
  by_cases hm : ∃ r m, (r, .message m) ∈ outs
  · obtain ⟨r, m, hm⟩ := hm
    obtain ⟨i, bs, p, he, hp, rfl, rfl⟩ := TcpServer.outs_of_message hs hm
    have he : ∃ i, e = .readDone r i (.ok bs) := by
      cases e <;> simp [Event.toServer] at he
      exact ⟨_, by rw [he.1, he.2.2]⟩
    obtain ⟨i, rfl⟩ := he
    rw [callHandlers_message] at hc
    obtain ⟨⟨u, hs'⟩, hmh, heq⟩ := Option.map_eq_some_iff.1 hc
    obtain ⟨rfl, rfl⟩ := Prod.mk.inj heq
    simp only [messageHandler, hp] at hmh
    split at hmh
    · rename_i hid
      obtain ⟨rfl, rfl⟩ := Prod.mk.inj (Option.some.inj hmh)
      refine Path.server t _ _ hs (by simp [serverOuts]) (by simp [handled]) ?_
      simp [hid, MsgId.val]
    · split at hmh
      · rename_i hid
        obtain ⟨⟨t', outs⟩, hx, heq⟩ := Option.map_eq_some_iff.1 hmh
        obtain ⟨rfl, rfl⟩ := Prod.mk.inj heq
        exact Path.relay t t' r i bs p _ outs rfl hs hp hid hx
      · rename_i hid
        obtain ⟨rfl, rfl⟩ := Prod.mk.inj (Option.some.inj hmh)
        refine Path.server t _ _ hs (by simp [serverOuts]) (by simp [handled]) ?_
        simp [hid]
  · push Not at hm
    rw [callHandlers_of_not_message hm] at hc
    obtain ⟨rfl, rfl⟩ := Prod.mk.inj (Option.some.inj hc)
    exact Path.server t outs _ hs (serverOuts_map _) (handled_map _) fun r m hrm => absurd hrm (hm r m)

end ChatServer

end Torinet
