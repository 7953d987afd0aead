import Torinet.Chat.Ranking
import Torinet.Client.Talks

/-!
# What clients ask for

A line asks for a user or says something (`act`), and so does the message that is sent for it (`meaning`). The system is
observed together with what its server does (`observed`): a run of the system is then one of the server, too
(`server_run`), and every step of it is one of the hub or none, in which what is typed is said, and what the server's
message handler is called for is passed on (`Talks.move`). So every run of the system is a run of the hub (`talks_run`).
-/

namespace Torinet

open Lib

namespace ChatServer

open TcpServer (sessionOuts)

variable {s s' : ChatServer} {o : List Out} {t t' : TcpServer} {outs : List TcpServer.Out} {r : Nat} {m : Msg}
  {p p' : TcpSession} {b : List UInt8}

/-- A body is received, and the message handler is called for its message. -/
theorem delivered_of_body (hp : s.server.objs[r]? = some p)
    (hps : p.step (.readDone 0 (.ok b)) = some (p', [.message p'.msg, .asyncRead (.header hdrLength)]))
    (hs : s.step (.readDone r 0 (.ok b)) = some (s', o)) : delivered o = [(r, p'.msg)] := by
  have hstep : s.server.step (.session r (.readDone 0 (.ok b))) = some (s.server.setObj r p',
      [(r, .message p'.msg), (r, .asyncRead (.header hdrLength))]) := by
    simp only [TcpServer.step, TcpServer.sessionStep, hp, hps]
    rfl
  exact delivered_of_message (e := .readDone r 0 (.ok b)) hstep hs

/-- What a session does without receiving a message calls no message handler. -/
theorem delivered_of_session {e : Event} {ev : TcpSession.Event} {outs : List TcpSession.Out}
    (he : e.toServer = .session r ev) (hp : s.server.objs[r]? = some p) (hps : p.step ev = some (p', outs))
    (hm : ∀ m, .message m ∉ outs) (hc : ∀ reason, .closed reason ∉ outs) (hs : s.step e = some (s', o)) :
    delivered o = [] := by
  have hstep : s.server.step e.toServer = some (s.server.setObj r p', outs.map fun x => (r, x)) := by
    rw [he]
    simp only [TcpServer.step, TcpServer.sessionStep, hp, hps, TcpServer.foldl_callHandler hc]
    rfl
  refine delivered_of_not_message hstep (fun q m hqm => ?_) hs
  obtain ⟨x, hx, heq⟩ := List.mem_map.1 hqm
  obtain ⟨rfl, rfl⟩ := Prod.mk.inj heq
  exact hm m hx

/-- An accepted connection brings no message. -/
theorem delivered_of_accept {a : Accepted} (hs : s.step (.accept (.ok a)) = some (s', o)) : delivered o = [] := by
  obtain ⟨⟨t, outs⟩, hstep, -⟩ := Option.bind_eq_some_iff.1 hs
  refine delivered_of_not_message hstep (fun q m => ?_) hs
  have hpath := TcpServer.step_path (e := .accept (.ok a)) hstep
  cases hpath <;> simp

end ChatServer

namespace ChatClient

variable {boostSplit : List UInt8 → SplitVector} {mem : Nat → Msg} {s : ChatClient} {str : List UInt8}

/-- The name of a command runs its handler. -/
theorem readLine_of_lookup {command : Command} (h : Tokens isBlank str (boostSplit str))
    (hlookup : table.lookup (name str) = some command) :
    s.readLine boostSplit mem str = command.handle mem s (boostSplit str) := by
  have hne : ∀ w, table.lookup (name w) = none → str ≠ w := by
    rintro w hw rfl
    rw [hlookup] at hw
    cases hw
  have hlen : str.length > 0 := List.length_pos_iff.2 (hne [] (by decide))
  have hother : ¬ (str = ascii "?" ∨ str = ascii "help") := by
    rintro (h | h)
    · exact hne _ (by decide) h
    · exact hne _ (by decide) h
  rw [readLine, if_pos hlen, if_neg (hne _ (by decide)), if_neg hother]
  simp only [(words_of_tokens h).1, hlookup]

end ChatClient

namespace System

open TcpSession (written Flow SameReads SameWrites)
open ChatServer (delivered)

variable {boostSplit : List UInt8 → SplitVector} {s s' : System} {h h' : Hub Nat Msg} {e : Event} {es : List Event}
  {o : List Out} {k r : Nat} {m x : Msg} {ms : List Msg} {line bs : List UInt8} {p p' : TcpSession}

/-! ## Lines and messages -/

/-- What a client asks for. -/
inductive Act
  | create
  | say (text : List UInt8)
deriving DecidableEq

/-- What a line asks for. -/
def act (line : List UInt8) : Option Act :=
  if ChatClient.name line = ascii "create" then some .create else (said line).map .say

/-- What a message asks for. -/
def meaning (m : Msg) : Option Act :=
  if m.msgId = MsgId.rqCreateUser.val then some .create
  else if m.msgId = MsgId.nfMessage.val then some (.say (text m))
  else none

/-- What is typed at the client `k`. -/
def acts (k : Nat) (es : List Event) : List Act := es.filterMap fun
  | .command i _ line => if i = k then act line else none
  | _ => none

@[simp] theorem acts_append (es es' : List Event) : acts k (es ++ es') = acts k es ++ acts k es' := by
  simp [acts]

theorem meaning_of_create {n : Int} (hhdr : m.hdr = Msg.header .rqCreateUser .noneCode n) :
    meaning m = some .create := by
  have hid : m.msgId = MsgId.rqCreateUser.val := by
    rw [Msg.msgId, hhdr]
    rfl
  rw [meaning, if_pos hid]

theorem meaning_of_isChat (hm : isChat m = true) : meaning m = some (.say (text m)) := by
  have hid : m.msgId = MsgId.nfMessage.val := of_decide_eq_true hm
  rw [meaning, if_neg (by rw [hid]; decide), if_pos hid]

theorem isChat_of_meaning {t : List UInt8} (hm : meaning m = some (.say t)) : isChat m = true ∧ text m = t := by
  unfold meaning at hm
  split at hm
  · cases hm
  · split at hm
    · rename_i hnf
      exact ⟨decide_eq_true hnf, Act.say.inj (Option.some.inj hm)⟩
    · cases hm

/-- What has been received of a message has its payload. -/
theorem payload_of_read (hin : m.InRange) (hmsg : p'.msg = p.msg.storeBody m.payload) (hhdr : p'.msg.hdr = m.hdr) :
    p'.msg.payload = m.payload := by
  have hlen : p.msg.bodyLength = m.bodyLength := by
    rw [hmsg] at hhdr
    exact congrArg (fun h => h.bodyLength.toInt) hhdr
  have hin' : p.msg.InRange := by
    show 0 ≤ p.msg.bodyLength ∧ p.msg.bodyLength ≤ maxCpMsgData
    rwa [hlen]
  rw [hmsg]
  exact Msg.payload_storeBody hin' (by rw [Msg.length_payload hin, ← hin.toSizeT_bodyLength, hlen])

/-- A message that has been received asks for what it was sent for. -/
theorem meaning_of_read (hhdr : x.hdr = m.hdr) (hpay : x.payload = m.payload) : meaning x = meaning m := by
  have hid : x.msgId = m.msgId := congrArg (fun h => h.msgId.toInt32.toInt) hhdr
  have htext : text x = text m := congrArg cString hpay
  rw [meaning, meaning, hid, htext]

@[simp] theorem sendQue_sendRef (p : TcpSession) (m : Msg) : (p.sendRef m).1.sendQue = p.sendQue ++ [m] := by
  cases hq : p.sendQue <;> simp [TcpSession.sendRef, TcpSession.sendMsg, TcpSession.writeFront, hq]

theorem sendRef_inj (hm : (p.sendRef m).1 = (p.sendRef x).1) : m = x := by
  have hque := congrArg TcpSession.sendQue hm
  rw [sendQue_sendRef, sendQue_sendRef] at hque
  exact List.singleton_inj.1 (List.append_cancel_left hque)

theorem sendRef_ne (p : TcpSession) (m : Msg) : (p.sendRef m).1 ≠ p := by
  intro hm
  have hque := congrArg TcpSession.sendQue hm
  simp at hque

/-- A line that asks for a user makes the client send a request for one. -/
theorem readLine_create {b : Bool} {c c' : Client} {mem : Msg} {x : ChatClient} {outs : List ChatClient.Out}
    (hsplit : Tokens ChatClient.isBlank line (boostSplit line)) (hname : ChatClient.name line = ascii "create")
    (hr : ChatClient.readLine boostSplit (fun _ => mem) ⟨[c], b⟩ line = some (x, outs)) (hc : x.clientVec = [c']) :
    ∃ m, c'.session = (c.session.sendRef m).1 ∧ meaning m = some .create := by
  have hlookup : ChatClient.table.lookup (ChatClient.name line) = some .cmdCreateUser := by
    rw [hname]
    decide
  rw [ChatClient.readLine_of_lookup hsplit hlookup] at hr
  obtain ⟨m, hm, -, hhdr⟩ := ChatClient.createUser_eq mem c
  obtain ⟨rfl, -⟩ : x = ⟨[(c.send m).1], b⟩ ∧ outs = (c.send m).2.map fun y => (0, y) := by
    simpa [ChatClient.Command.handle, ChatClient.eachClient, hm, eq_comm] using hr
  obtain rfl := List.singleton_inj.1 hc
  exact ⟨m, rfl, meaning_of_create hhdr⟩

/-- A line that is not for the server leaves the session alone. -/
theorem readLine_quiet {b : Bool} {c c' : Client} {mem : Msg} {x : ChatClient} {outs : List ChatClient.Out}
    (hsplit : Tokens ChatClient.isBlank line (boostSplit line)) (hcreate : ChatClient.name line ≠ ascii "create")
    (hsend : ChatClient.name line ≠ ascii "send")
    (hr : ChatClient.readLine boostSplit (fun _ => mem) ⟨[c], b⟩ line = some (x, outs)) (hc : x.clientVec = [c']) :
    c'.session = c.session := by
  rcases ChatClient.readLine_cases ⟨[c], b⟩ (fun _ => mem) hsplit with ⟨b', hr', -⟩ | ⟨command, hlookup, hr'⟩
  · obtain ⟨rfl, -⟩ := Prod.mk.inj (Option.some.inj (hr'.symm.trans hr))
    obtain rfl := List.singleton_inj.1 hc
    rfl
  · rw [hr'] at hr
    cases command with
    | cmdCreateUser =>
      refine absurd ?_ hcreate
      by_contra hne
      simp only [ChatClient.table, List.lookup_cons, beq_eq_false_iff_ne.2 hne, List.lookup_nil] at hlookup
      split at hlookup
      · cases hlookup
      · split at hlookup <;> cases hlookup
    | cmdSendMessge => exact absurd (ChatClient.lookup_send hlookup) hsend
    | cmdStop =>
      obtain ⟨rfl, -⟩ := Prod.mk.inj (Option.some.inj hr)
      obtain rfl := List.singleton_inj.1 hc
      rfl

/-- **What a line makes a client send** is what it asks for. -/
theorem act_of_readLine {b : Bool} {c : Client} {mem : Msg} {x : ChatClient} {outs : List ChatClient.Out}
    (hsplit : Tokens ChatClient.isBlank line (boostSplit line))
    (hr : ChatClient.readLine boostSplit (fun _ => mem) ⟨[c], b⟩ line = some (x, outs)) :
    ∃ c', x.clientVec = [c'] ∧
      (c'.session = c.session ∧ outs = [] ∧ said line = none ∧ act line = none ∨
        ∃ m, c'.session = (c.session.sendRef m).1 ∧ outs = (c.session.sendRef m).2.map (fun y => (0, y)) ∧
          Says m (said line) ∧ (act line).isSome ∧ meaning m = act line) := by
  obtain ⟨c', hvec, hcases⟩ := session_of_readLine hsplit hr
  refine ⟨c', hvec, ?_⟩
  by_cases hcreate : ChatClient.name line = ascii "create"
  · obtain ⟨m', hm', hmean⟩ := readLine_create hsplit hcreate hr hvec
    have hact : act line = some .create := if_pos hcreate
    rcases hcases with ⟨hsame, -⟩ | ⟨m, hm, houts, hsays⟩
    · exact absurd (hm'.symm.trans hsame) (sendRef_ne _ _)
    · obtain rfl := sendRef_inj (hm.symm.trans hm')
      exact Or.inr ⟨m, hm, houts, hsays, by rw [hact]; rfl, by rw [hact, hmean]⟩
  · have hact : act line = (said line).map .say := if_neg hcreate
    rcases hcases with ⟨hsame, houts, hsaid⟩ | ⟨m, hm, houts, hsays⟩
    · exact Or.inl ⟨hsame, houts, hsaid, by rw [hact, hsaid]; rfl⟩
    · have hsend : ChatClient.name line = ascii "send" := by
        by_contra hsend
        exact sendRef_ne _ _ (hm.symm.trans (readLine_quiet hsplit hcreate hsend hr hvec))
      have hchat : isChat m = true := by
        by_contra hchat
        have hsaid := hsays.said_eq
        rw [if_neg hchat, said, if_pos hsend] at hsaid
        cases hsaid
      have hsaid : said line = some (text m) := hsays.said_eq.trans (if_pos hchat)
      refine Or.inr ⟨m, hm, houts, hsays, by rw [hact, hsaid]; rfl, ?_⟩
      rw [hact, hsaid, meaning_of_isChat hchat]
      rfl

/-! ## The system and its server -/

/-- What an event is to the server. -/
def serverEvent (s : System) : Event → Option ChatServer.Event
  | .connect a _ _ => some (.accept (.ok a))
  | .serverRead r => s.server.server.objs[r]?.bind fun p => (arrived p (s.up r)).map fun bs => .readDone r 0 (.ok bs)
  | .serverWrite r => some (.writeDone r 0 none)
  | _ => none

/-- What the server does in a step. -/
def serverDoes (s : System) (e : Event) : List ChatServer.Out :=
  (((s.serverEvent e).bind s.server.step).map Prod.snd).getD []

/-- What can be seen of the system. -/
inductive Seen
  | client (out : Out)
  | server (out : ChatServer.Out)

/-- The system, with what its server does. -/
def observed (boostSplit : List UInt8 → SplitVector) : Machine System Event Seen := ⟨fun s e =>
  (s.step boostSplit e).map fun x => (x.1, x.2.map .client ++ (s.serverDoes e).map .server)⟩

def atClients (out : List Seen) : List Out := out.filterMap fun
  | .client x => some x
  | .server _ => none

def atServer (out : List Seen) : List ChatServer.Out := out.filterMap fun
  | .server x => some x
  | .client _ => none

/-- What the server's message handler is called for, in order: who asks, and for what. -/
def journal (out : List Seen) : List (Nat × Act) := (delivered (atServer out)).filterMap fun x =>
  (meaning x.2).map fun a => (x.1, a)

variable {out out' : List Seen} {outs : List ChatServer.Out}

@[simp] theorem atClients_append (out out' : List Seen) :
    atClients (out ++ out') = atClients out ++ atClients out' := by
  simp [atClients]

@[simp] theorem atServer_append (out out' : List Seen) : atServer (out ++ out') = atServer out ++ atServer out' := by
  simp [atServer]

@[simp] theorem journal_append (out out' : List Seen) : journal (out ++ out') = journal out ++ journal out' := by
  simp [journal]

@[simp] theorem atClients_seen (o : List Out) (outs : List ChatServer.Out) :
    atClients (o.map .client ++ outs.map .server) = o := by
  simp [atClients, List.filterMap_map]

@[simp] theorem atServer_seen (o : List Out) (outs : List ChatServer.Out) :
    atServer (o.map .client ++ outs.map .server) = outs := by
  simp [atServer, List.filterMap_map]

theorem observed_step_iff {seen : List Seen} : (observed boostSplit).step s e = some (s', seen) ↔
    ∃ o, s.step boostSplit e = some (s', o) ∧ seen = o.map .client ++ (s.serverDoes e).map .server := by
  constructor
  · intro hs
    obtain ⟨⟨s₁, o⟩, hs₁, heq⟩ := Option.map_eq_some_iff.1 hs
    obtain ⟨rfl, rfl⟩ := Prod.mk.inj heq
    exact ⟨o, hs₁, rfl⟩
  · rintro ⟨o, hs, rfl⟩
    exact Option.map_eq_some_iff.2 ⟨_, hs, rfl⟩

theorem server_of_serverStep {ev : ChatServer.Event} (hs : s.serverStep ev = some (s', o)) :
    ∃ outs, s.server.step ev = some (s'.server, outs) := by
  obtain ⟨⟨t, outs⟩, hstep, heq⟩ := Option.map_eq_some_iff.1 hs
  obtain ⟨rfl, -⟩ := Prod.mk.inj heq
  exact ⟨outs, hstep⟩

theorem server_of_clientStep {ev : TcpSession.Event} (hs : s.clientStep r ev = some (s', o)) :
    s'.server = s.server := by
  unfold clientStep at hs
  split at hs
  · cases hs
  · obtain ⟨x, -, heq⟩ := Option.map_eq_some_iff.1 hs
    rw [← (Prod.mk.inj heq).1]
    rfl

/-- **A step of the system is one of its server, or leaves it alone.** -/
theorem server_step (hs : s.step boostSplit e = some (s', o)) :
    (∃ ev, s.serverEvent e = some ev ∧ s.server.step ev = some (s'.server, s.serverDoes e)) ∨
      s'.server = s.server ∧ s.serverDoes e = [] := by
  have hdoes : ∀ {ev : ChatServer.Event} {outs : List ChatServer.Out}, s.serverEvent e = some ev →
      s.server.step ev = some (s'.server, outs) → s.server.step ev = some (s'.server, s.serverDoes e) := by
    intro ev outs hev hstep
    rw [serverDoes, hev, Option.bind_some, hstep]
    rfl
  cases e with
  | connect a ep mem =>
    obtain ⟨⟨t, outs⟩, hstep, hs⟩ := Option.bind_eq_some_iff.1 hs
    obtain ⟨c, -, heq⟩ := Option.map_eq_some_iff.1 hs
    obtain ⟨rfl, -⟩ := Prod.mk.inj heq
    exact Or.inl ⟨_, rfl, hdoes rfl hstep⟩
  | command k mem line =>
    simp only [step, command, Option.ite_none_right_eq_some, Option.ite_none_left_eq_some] at hs
    obtain ⟨x, -, hs⟩ := Option.bind_eq_some_iff.1 hs.2.2
    obtain ⟨c, -, heq⟩ := Option.map_eq_some_iff.1 hs
    rw [← (Prod.mk.inj heq).1]
    exact Or.inr ⟨rfl, rfl⟩
  | serverRead r =>
    simp only [step, serverRead, Option.ite_none_right_eq_some] at hs
    obtain ⟨p, hp, hs⟩ := Option.bind_eq_some_iff.1 hs.2
    obtain ⟨bs, harr, hs⟩ := Option.bind_eq_some_iff.1 hs
    obtain ⟨outs, hstep⟩ := server_of_serverStep hs
    have hev : s.serverEvent (.serverRead r) = some (.readDone r 0 (.ok bs)) := by
      rw [serverEvent, hp, Option.bind_some, harr, Option.map_some]
    exact Or.inl ⟨_, hev, hdoes hev hstep⟩
  | serverWrite r =>
    simp only [step, Option.ite_none_right_eq_some] at hs
    obtain ⟨outs, hstep⟩ := server_of_serverStep hs.2
    exact Or.inl ⟨_, rfl, hdoes rfl hstep⟩
  | clientRead r =>
    simp only [step, clientRead, Option.ite_none_right_eq_some] at hs
    obtain ⟨bs, -, hs⟩ := Option.bind_eq_some_iff.1 hs.2
    have hserver := server_of_clientStep hs
    exact Or.inr ⟨hserver, rfl⟩
  | clientWrite r =>
    simp only [step, Option.ite_none_right_eq_some] at hs
    exact Or.inr ⟨server_of_clientStep hs.2, rfl⟩

/-- A run that is observed is one of the system. -/
theorem observed_run (hr : (observed boostSplit).Run s es s' out) :
    (machine boostSplit).Run s es s' (atClients out) := by
  induction hr with
  | nil => exact Machine.Run.nil
  | snoc _ hs ih =>
    obtain ⟨o, hstep, rfl⟩ := observed_step_iff.1 hs
    rw [atClients_append, atClients_seen]
    exact ih.snoc hstep

/-- Every run can be observed. -/
theorem exists_observed {o : List Out} (hr : (machine boostSplit).Run s es s' o) :
    ∃ out, (observed boostSplit).Run s es s' out ∧ atClients out = o := by
  induction hr with
  | nil => exact ⟨[], Machine.Run.nil, rfl⟩
  | snoc _ hs ih =>
    obtain ⟨out, hr, rfl⟩ := ih
    exact ⟨_, hr.snoc (observed_step_iff.2 ⟨_, hs, rfl⟩), by rw [atClients_append, atClients_seen]⟩

/-- **A run of the system is one of its server.** -/
theorem server_run (hr : (observed boostSplit).Run s es s' out) :
    ∃ evs, ChatServer.machine.Run s.server evs s'.server (atServer out) := by
  induction hr with
  | nil => exact ⟨[], Machine.Run.nil⟩
  | @snoc es s₁ out e s₂ seen _ hs ih =>
    obtain ⟨evs, hr⟩ := ih
    obtain ⟨o, hs₁, rfl⟩ := observed_step_iff.1 hs
    rw [atServer_append, atServer_seen]
    rcases server_step hs₁ with ⟨ev, -, hstep⟩ | ⟨hsame, hnone⟩
    · exact ⟨_, hr.snoc hstep⟩
    · refine ⟨evs, ?_⟩
      rwa [hsame, hnone, List.append_nil]

/-! ## The system and the hub -/

/-- A step of the system as one of the hub, or none: what it puts out and the hub after it. -/
inductive Move (s : System) (h : Hub Nat Msg) (e : Event) (s' : System) : List Out → Hub Nat Msg → Prop
  | rest (ht : Talks s' h) (hacts : ∀ k, acts k [e] = []) (hdel : delivered (s.serverDoes e) = []) :
      Move s h e s' [] h
  | join (n : Nat) (hn : n ∉ h.parties)
      (ht : Talks s' ⟨insert n h.parties, Function.update h.up n [], Function.update h.down n []⟩)
      (hacts : ∀ k, acts k [e] = []) (hdel : delivered (s.serverDoes e) = []) :
      Move s h e s' [] ⟨insert n h.parties, Function.update h.up n [], Function.update h.down n []⟩
  | say (k : Nat) (m : Msg) (a : Act) (hk : k ∈ h.parties)
      (ht : Talks s' { h with up := Function.update h.up k (h.up k ++ [m]) })
      (hacts : ∀ i, acts i [e] = if k = i then [a] else []) (hm : meaning m = some a)
      (hdel : delivered (s.serverDoes e) = []) :
      Move s h e s' [] { h with up := Function.update h.up k (h.up k ++ [m]) }
  | pass (r : Nat) (m x : Msg) (ms : List Msg) (hr : r ∈ h.parties) (hms : h.up r = m :: ms)
      (ht : Talks s' { h with up := Function.update h.up r ms, down := h.give isChat r m })
      (hacts : ∀ k, acts k [e] = []) (hdel : delivered (s.serverDoes e) = [(r, x)]) (hx : meaning x = meaning m)
      (hends : isChat x → 0 ∈ x.payload) :
      Move s h e s' [] { h with up := Function.update h.up r ms, down := h.give isChat r m }
  | hear (r : Nat) (m : Msg) (ms : List Msg) (o : List Out) (hr : r ∈ h.parties) (hms : h.down r = m :: ms)
      (ht : Talks s' { h with down := Function.update h.down r ms }) (hecho : Echoes o [(r, m)])
      (hacts : ∀ k, acts k [e] = []) (hdel : delivered (s.serverDoes e) = []) :
      Move s h e s' o { h with down := Function.update h.down r ms }

theorem Move.talks (hm : Move s h e s' o h') : Talks s' h' := by
  cases hm <;> assumption

/-- **A line is typed.** -/
theorem Talks.move_command {mem : Msg} (ht : Talks s h) (hr : r ∈ s.conns)
    (hsplit : Tokens ChatClient.isBlank line (boostSplit line))
    (hs : s.command boostSplit r mem line = some (s', o)) : ∃ h', Move s h (.command r mem line) s' o h' := by
  simp only [System.command, Option.ite_none_left_eq_some] at hs
  obtain ⟨⟨x, outs⟩, hread, hs⟩ := Option.bind_eq_some_iff.1 hs.2
  obtain ⟨c, hvec, hcases⟩ := act_of_readLine hsplit hread
  simp only [hvec, List.head?_cons, Option.map_some, Option.some.injEq, Prod.mk.injEq] at hs
  obtain ⟨rfl, rfl⟩ := hs
  rcases hcases with ⟨hsession, rfl, -, hact⟩ | ⟨m, hsession, rfl, hsays, hsome, hmean⟩
  · exact ⟨h, .rest (ht.stays hr hsession) (fun k => by simp [acts, hact]) rfl⟩
  · obtain ⟨a, ha⟩ := Option.isSome_iff_exists.1 hsome
    refine ⟨_, .say r m a ((ht.parties r).2 hr) ?_ (fun i => ?_) (hmean.trans ha) rfl⟩
    · have hsent := ht.sends (b := Function.update s.bTerm r x.bTerm) hr hsays.sound hsays.ends hsession
      simpa [Function.comp_def] using hsent
    · by_cases hri : r = i <;> simp [acts, hri, ha]

/-- What a read of the server delivers. -/
theorem serverDoes_serverRead (hp : s.server.server.objs[r]? = some p) (harr : arrived p (s.up r) = some bs)
    (hs : s.serverRead r = some (s', o)) :
    s.server.step (.readDone r 0 (.ok bs)) = some (s'.server, s.serverDoes (.serverRead r)) := by
  rw [serverRead_eq hp harr] at hs
  obtain ⟨outs, hstep⟩ := server_of_serverStep hs
  have hstep : s.server.step (.readDone r 0 (.ok bs)) = some (s'.server, outs) := hstep
  rw [serverDoes, serverEvent, hp, Option.bind_some, harr, Option.map_some, Option.bind_some, hstep]
  rfl

/-- **A read of the server completes.** -/
theorem Talks.move_serverRead (ht : Talks s h) (hr : r ∈ s.conns) (hs : s.serverRead r = some (s', o)) :
    ∃ h', Move s h (.serverRead r) s' o h' := by
  obtain ⟨p, hc⟩ := ht.conn r hr
  cases harr : arrived p (s.up r) with
  | none => simp [System.serverRead, hc.obj, harr] at hs
  | some bs =>
    have hdoes := serverDoes_serverRead hc.obj harr hs
    rcases hc.up.read harr with ⟨p', n, hps, hsame, hflow, hreads, hreads', bs', harr'⟩ |
      ⟨m, ms, p', hms, hps, hsame, hflow, hhdr, hmsg⟩
    · obtain ⟨s₁, hs₁, ht₁, -⟩ := ht.serverRead_header hc harr hps hsame hflow
      obtain ⟨rfl, rfl⟩ := Prod.mk.inj (Option.some.inj (hs₁.symm.trans hs))
      refine ⟨h, .rest ht₁ (fun _ => rfl) ?_⟩
      exact ChatServer.delivered_of_session (e := .readDone r 0 (.ok bs)) rfl hc.obj hps (by simp) (by simp) hdoes
    · obtain ⟨s₁, hs₁, -, ht₁⟩ := ht.serverRead_body hr hc hms harr hps hsame hflow hhdr hmsg
      obtain ⟨rfl, rfl⟩ := Prod.mk.inj (Option.some.inj (hs₁.symm.trans hs))
      have hpay := payload_of_read (hc.up.sound m (by simp [hms])).1 hmsg hhdr
      have hid : p'.msg.msgId = m.msgId := congrArg (fun h => h.msgId.toInt32.toInt) hhdr
      refine ⟨_, .pass r m p'.msg ms ((ht.parties r).2 hr) hms ht₁ (fun _ => rfl)
        (ChatServer.delivered_of_body hc.obj hps hdoes) (meaning_of_read hhdr hpay) fun hchat => ?_⟩
      rw [hpay]
      exact hc.said m (by simp [hms]) (by rwa [isChat, ← hid])

/-- **Every step of the system is one of the hub, or none.** -/
theorem Talks.move (hsplit : ∀ line, Tokens ChatClient.isBlank line (boostSplit line)) (ht : Talks s h)
    (hs : s.step boostSplit e = some (s', o)) : ∃ h', Move s h e s' o h' := by
  cases e with
  | connect a ep mem =>
    have hserver := System.server_step hs
    obtain ⟨rfl, hcases⟩ := ht.connect hs
    have hdel : delivered (s.serverDoes (.connect a ep mem)) = [] := by
      rcases hserver with ⟨ev, hev, hstep⟩ | ⟨-, hnone⟩
      · obtain rfl := Option.some.inj hev
        exact ChatServer.delivered_of_accept hstep
      · rw [hnone]
        rfl
    rcases hcases with ht' | ⟨n, hn, ht'⟩
    · exact ⟨h, .rest ht' (fun _ => rfl) hdel⟩
    · exact ⟨_, .join n hn ht' (fun _ => rfl) hdel⟩
  | command k mem line =>
    simp only [step, Option.ite_none_right_eq_some] at hs
    exact ht.move_command hs.1 (hsplit line) hs.2
  | serverRead r =>
    simp only [step, Option.ite_none_right_eq_some] at hs
    exact ht.move_serverRead hs.1 hs.2
  | serverWrite r =>
    have hserver := System.server_step hs
    simp only [step, Option.ite_none_right_eq_some] at hs
    obtain ⟨hr, hs⟩ := hs
    obtain ⟨ht', rfl⟩ := ht.of_serverWrite hr hs
    refine ⟨h, .rest ht' (fun _ => rfl) ?_⟩
    rcases hserver with ⟨ev, hev, hstep⟩ | ⟨-, hnone⟩
    · obtain rfl := Option.some.inj hev
      obtain ⟨p, hc⟩ := ht.conn r hr
      cases hps : p.step (.writeDone 0 none) with
      | none => simp [ChatServer.step_eq_none (e := .writeDone r 0 none) rfl hc.obj hps] at hstep
      | some x =>
        obtain ⟨hm, hcl⟩ := TcpSession.outs_of_writeDone hps
        exact ChatServer.delivered_of_session (e := .writeDone r 0 none) rfl hc.obj hps hm hcl hstep
    · rw [hnone]
      rfl
  | clientRead r =>
    simp only [step, Option.ite_none_right_eq_some] at hs
    rcases ht.of_clientRead hs.1 hs.2 with ⟨ht', rfl⟩ | ⟨m, ms, hms, ht', hecho⟩
    · exact ⟨h, .rest ht' (fun _ => rfl) rfl⟩
    · exact ⟨_, .hear r m ms o ((ht.parties r).2 hs.1) hms ht' hecho (fun _ => rfl) rfl⟩
  | clientWrite r =>
    simp only [step, Option.ite_none_right_eq_some] at hs
    obtain ⟨ht', rfl⟩ := ht.of_clientWrite hs.1 hs.2
    exact ⟨h, .rest ht' (fun _ => rfl) rfl⟩

/-! ## The simulation -/

/-- What is typed is what the hub's parties say. -/
def Typed (es : List Event) (ops : List (Hub.Op Nat Msg)) : Prop :=
  ∀ r, typed r es = (Hub.saidTo isChat r ops).map text

theorem typed_nil : Typed [] [] := fun _ => rfl

theorem Typed.append {es' : List Event} {ops ops' : List (Hub.Op Nat Msg)} (h : Typed es ops) (h' : Typed es' ops') :
    Typed (es ++ es') (ops ++ ops') := fun r => by
  rw [typed_append, Hub.saidTo_append, List.map_append, h r, h' r]

/-- The text that is said by asking for something. -/
def Act.said : Act → Option (List UInt8)
  | .create => none
  | .say text => some text

theorem said_eq_bind (line : List UInt8) : said line = (act line).bind Act.said := by
  by_cases hcreate : ChatClient.name line = ascii "create"
  · rw [said, act, if_pos hcreate, if_neg (by rw [hcreate]; decide)]
    rfl
  · rw [act, if_neg hcreate]
    cases said line <;> rfl

theorem said_of_meaning {a : Act} (hm : meaning m = some a) : a.said = if isChat m then some (text m) else none := by
  cases a with
  | create =>
    have hchat : ¬ isChat m = true := fun hchat => by
      rw [meaning_of_isChat hchat] at hm
      cases hm
    rw [if_neg hchat]
    rfl
  | say t =>
    obtain ⟨hchat, rfl⟩ := isChat_of_meaning hm
    rw [if_pos hchat]
    rfl

/-- What is typed in a step is what is asked for in it. -/
theorem typed_of_acts (hacts : ∀ k, acts k [e] = []) : typed r [e] = [] := by
  cases e with
  | command i mem line =>
    have hact : act line = none := by simpa [acts] using hacts i
    simp [typed, said_eq_bind, hact]
  | _ => rfl

theorem typed_of_act {a : Act} (hacts : ∀ i, acts i [e] = if k = i then [a] else []) :
    typed r [e] = if k ≠ r then a.said.toList else [] := by
  have hk := hacts k
  cases e with
  | command i mem line =>
    by_cases hik : i = k
    · cases hact : act line with
      | none => simp [acts, hact] at hk
      | some b =>
        obtain rfl : b = a := by simpa [acts, hik, hact] using hk
        by_cases hkr : k = r <;> cases hsaid : b.said <;> simp [typed, said_eq_bind, hact, hik, hkr, hsaid]
    · simp [acts, hik] at hk
  | _ => simp [acts] at hk

/-- The run of the hub that a step is. -/
theorem Move.run (hm : Move s h e s' o h') :
    ∃ ops ho, (Hub.machine isChat).Run h ops h' ho ∧ Echoes o ho ∧ Typed [e] ops := by
  cases hm with
  | rest ht hacts hdel => exact ⟨[], [], Machine.Run.nil, echoes_nil, fun r => typed_of_acts hacts⟩
  | join n hn ht hacts hdel =>
    exact ⟨[.join n], [], Machine.Run.single (if_neg hn), echoes_nil, fun r => typed_of_acts hacts⟩
  | say k m a hk ht hacts hm hdel =>
    refine ⟨[.say k m], [], Machine.Run.single (if_pos hk), echoes_nil, fun r => ?_⟩
    rw [typed_of_act hacts, said_of_meaning hm]
    by_cases hkr : k = r <;> by_cases hchat : isChat m = true <;> simp [Hub.saidTo, hkr, hchat]
  | pass r m x ms hr hms ht hacts hdel hx hends =>
    exact ⟨[.pass r], [], Machine.Run.single (Hub.step_pass hr hms), echoes_nil, fun r => typed_of_acts hacts⟩
  | hear r m ms o hr hms ht hecho hacts hdel =>
    exact ⟨[.hear r], _, Machine.Run.single (Hub.step_hear hr hms), hecho, fun r => typed_of_acts hacts⟩

/-- **A step of the system is a run of the hub**, in which the same is said and heard. -/
theorem talks_step (hsplit : ∀ line, Tokens ChatClient.isBlank line (boostSplit line)) (ht : Talks s h)
    (hs : s.step boostSplit e = some (s', o)) : ∃ ops h' ho, (Hub.machine isChat).Run h ops h' ho ∧ Talks s' h' ∧
      Echoes o ho ∧ Typed [e] ops := by
  obtain ⟨h', hmove⟩ := ht.move hsplit hs
  obtain ⟨ops, ho, hrun, hecho, htyped⟩ := hmove.run
  exact ⟨ops, h', ho, hrun, hmove.talks, hecho, htyped⟩

/-- **The system is a hub**: each run of it is a run of the hub, in which the same is said and heard. -/
theorem talks_run {out : List Out} (hsplit : ∀ line, Tokens ChatClient.isBlank line (boostSplit line))
    (ht : Talks s h) (hr : (machine boostSplit).Run s es s' out) : ∃ ops h' hout,
      (Hub.machine isChat).Run h ops h' hout ∧ Talks s' h' ∧ Echoes out hout ∧ Typed es ops := by
  have hsim := hr.simulate (N := Hub.machine isChat)
    (R := fun es s out ops h hout => Talks s h ∧ Echoes out hout ∧ Typed es ops) ⟨ht, echoes_nil, typed_nil⟩
    fun {es s out e s' o ops h hout} _ _ hR hs => by
      obtain ⟨ht, hecho, htyped⟩ := hR
      obtain ⟨ops', h', ho, hrun, ht', hecho', htyped'⟩ := talks_step hsplit ht hs
      exact ⟨ops', h', ho, hrun, ht', hecho.append hecho', htyped.append htyped'⟩
  obtain ⟨ops, h', hout, hrun, ht', hecho, htyped⟩ := hsim
  exact ⟨ops, h', hout, hrun, ht', hecho, htyped⟩

end System

end Torinet
