import Mathlib
import Torinet.Chat.Credit
import Torinet.Server.Ids

/-!
# The ranking

The scores that Redis keeps are those that the commands sent to it have left (`scoresAfter`), one for each id a session
has ever had. `Ranked`: the score of a registered id is what the session registered under it has earned, by its own
messages. A step keeps this iff it is `Undisturbed` (`ranked_step_iff`): scores outlive the sessions that earned them, so
an id may only be given to a new session while nothing that counts has been delivered under it (`unscored_iff`); a
session that is not registered any more, or never was, may not change the score of the one that is; and a chat text has
to end where it is counted to end.
-/

namespace Torinet

open Lib

/-! ## Scores -/

/-- The scores of the members of each key, `0` for an absent one. -/
abbrev Scores := String → String → Nat

/-- A command that succeeds: `zadd` sets the score of a member, `zincrby` adds to it. -/
def RedisCommand.apply (scores : Scores) : RedisCommand → Scores
  | .zadd key score member => fun k m => if k = key ∧ m = member then score else scores k m
  | .zincrby key increment member => fun k m =>
    if k = key ∧ m = member then scores k m + increment else scores k m

/-- The scores after some commands: nothing, when nothing is known of one of them. -/
def scoresAfter (cmds : List (Option RedisCommand)) : Option Scores :=
  cmds.foldl (fun scores cmd => scores.bind fun scores => cmd.map fun cmd => cmd.apply scores) (some fun _ _ => 0)

theorem scoresAfter_snoc (cmds : List (Option RedisCommand)) (cmd : Option RedisCommand) :
    scoresAfter (cmds ++ [cmd]) = (scoresAfter cmds).bind fun scores => cmd.map fun cmd => cmd.apply scores := by
  simp [scoresAfter]

namespace ChatServer

open TcpServer (sessionOuts)

variable {config : ServerConfig} {s s' : ChatServer} {e : Event} {es : List Event} {out o : List Out}
  {t t' : TcpServer} {outs : List TcpServer.Out} {r q : Nat} {p : TcpSession} {m : Msg} {id : Int}
  {scores scores' : Scores}

/-- The entry of an id in the ranking. -/
def entry (id : Int) : String := "session_" ++ toString id

theorem entry_inj {id' : Int} : entry id = entry id' ↔ id = id' := by
  rw [entry, entry, String.append_right_inj]
  exact Int.repr_inj

/-- The messages a session has sent, as they were delivered. -/
def spoken (r : Nat) (out : List Out) : List Msg := (sessionOuts r (serverOuts out)).filterMap fun
  | .message m => some m
  | _ => none

/-- What a session has earned by its messages: the lengths of the texts of its chat messages, since its last request to
create a user. -/
def earned (ms : List Msg) : Nat := ms.foldl (fun (n : Nat) (m : Msg) =>
  if m.msgId = MsgId.rqCreateUser.val then 0
  else if m.msgId = MsgId.nfMessage.val then n + (cString m.payload).length
  else n) 0

/-- **The ranking belongs to the connections**: the score of a registered id is what its session has earned. -/
def Ranked (_ : List Event) (s : ChatServer) (out : List Out) : Prop :=
  ∃ scores, scoresAfter (commands out) = some scores ∧
    ∀ (id : Int) (r : Nat), s.server.sessions[id]? = some r →
      scores "user:ranking" (entry id) = earned (spoken r out)

/-- The messages that the message handler is called for, with their sessions. -/
def delivered (out : List Out) : List (Nat × Msg) := (serverOuts out).filterMap fun
  | (r, .message m) => some (r, m)
  | _ => none

/-- The messages that have been delivered by sessions with the given id, registered or not. -/
def deliveredUnder (s : ChatServer) (out : List Out) (id : Int) : List Msg := (delivered out).filterMap fun x =>
  if s.server.sessionId x.1 = some id then some x.2 else none

/-- Of some messages those after the last request to create a user. -/
def sinceCreate (ms : List Msg) : List Msg := ms.rtakeWhile fun m => m.msgId ≠ MsgId.rqCreateUser.val

/-- Of some messages, no chat message after the last request to create a user has a text. -/
def Textless (ms : List Msg) : Prop :=
  ∀ m ∈ sinceCreate ms, m.msgId = MsgId.nfMessage.val → m.body.bytes.head? = some 0

/-- Nothing that counts has been delivered under the id. -/
def Unscored (s : ChatServer) (out : List Out) (id : Int) : Prop := Textless (deliveredUnder s out id)

/-- A message in the buffer of the session `r` changes the score of `id` the way it should: a chat text ends in the
body, and if `r` is registered under the id, inside the message or right after it; if another one is, the text is empty,
and a request to create a user has nothing to reset. -/
structure Fair (s : ChatServer) (out : List Out) (r : Nat) (id : Int) (m : Msg) : Prop where
  ends : m.msgId = MsgId.nfMessage.val → 0 ∈ m.body.bytes
  own : m.msgId = MsgId.nfMessage.val → s.server.sessions[id]? = some r →
    0 ∈ m.payload ∨ m.body.bytes[m.bodyLength.toNat]? = some 0
  others : m.msgId = MsgId.nfMessage.val → ∀ q, s.server.sessions[id]? = some q → q ≠ r → m.body.bytes.head? = some 0
  reset : m.msgId = MsgId.rqCreateUser.val → ∀ q, s.server.sessions[id]? = some q → q ≠ r →
    Unscored s out id

/-- The step gives a new session an id under which nothing has been said, and a message that it delivers is fair. -/
structure Undisturbed (_ : List Event) (s : ChatServer) (out : List Out) (e : Event) : Prop where
  accept : ∀ a id free, e = .accept (.ok a) → s.server.HasRoom → s.server.freeSessionId = id :: free →
    id ∉ s.server.sessions → Unscored s out id
  message : ∀ r i bs p n, e = .readDone r i (.ok bs) → s.server.objs[r]? = some p → p.reads[i]? = some (.body n) →
    Fair s out r p.id (p.msg.storeBody bs)

/-! ## What is delivered -/

@[simp] theorem delivered_append (out o : List Out) : delivered (out ++ o) = delivered out ++ delivered o := by
  simp [delivered]

theorem delivered_eq_nil {outs : List TcpServer.Out} (h : ∀ r m, (r, .message m) ∉ outs) :
    delivered (outs.map .server) = [] := by
  rw [delivered, serverOuts_map, List.filterMap_eq_nil_iff]
  rintro ⟨r, x⟩ hx
  cases x with
  | message m => exact absurd hx (h r m)
  | _ => rfl

/-- The message handler is called for nothing by itself. -/
theorem delivered_messageHandler (hm : (⟨t⟩ : ChatServer).messageHandler r = some (s', o)) : delivered o = [] := by
  cases hp : t.objs[r]? with
  | none => simp [messageHandler, hp] at hm
  | some p =>
    simp only [messageHandler, hp] at hm
    split at hm
    · obtain ⟨rfl, rfl⟩ := Prod.mk.inj (Option.some.inj hm)
      rfl
    · split at hm
      · obtain ⟨⟨t', outs⟩, hx, heq⟩ := Option.map_eq_some_iff.1 hm
        obtain ⟨rfl, rfl⟩ := Prod.mk.inj heq
        exact delivered_eq_nil fun q m hqm => not_message_sends (Machine.run_of_exec hx) _ hqm m rfl
      · obtain ⟨rfl, rfl⟩ := Prod.mk.inj (Option.some.inj hm)
        rfl

/-- A step of the server that receives nothing calls no message handler. -/
theorem delivered_of_not_message {e : Event} (hstep : s.server.step e.toServer = some (t, outs))
    (hno : ∀ r m, (r, .message m) ∉ outs) (hs : s.step e = some (s', o)) : delivered o = [] := by
  rw [step, hstep, Option.bind_some, callHandlers_of_not_message hno] at hs
  obtain ⟨-, rfl⟩ := Prod.mk.inj (Option.some.inj hs)
  exact delivered_eq_nil hno

/-- A step of the server that receives a message calls the message handler for it. -/
theorem delivered_of_message {e : Event}
    (hstep : s.server.step e.toServer = some (t, [(r, .message m), (r, .asyncRead (.header hdrLength))]))
    (hs : s.step e = some (s', o)) : delivered o = [(r, m)] := by
  rw [step, hstep, Option.bind_some, callHandlers_message] at hs
  obtain ⟨⟨u, o'⟩, hmh, heq⟩ := Option.map_eq_some_iff.1 hs
  obtain ⟨rfl, rfl⟩ := Prod.mk.inj heq
  have hnone := delivered_messageHandler hmh
  have hcons : delivered (.server (r, .message m) :: o') = (r, m) :: delivered o' := rfl
  rw [delivered_append, hcons, hnone]
  rfl

/-! ## What a step changes -/

@[simp] theorem spoken_append (out o : List Out) : spoken r (out ++ o) = spoken r out ++ spoken r o := by
  simp [spoken]

theorem earned_snoc (ms : List Msg) (m : Msg) : earned (ms ++ [m]) =
    if m.msgId = MsgId.rqCreateUser.val then 0
    else if m.msgId = MsgId.nfMessage.val then earned ms + (cString m.payload).length
    else earned ms := by
  simp [earned]

/-- The loop over the registry leaves the registry as it is. -/
theorem sessions_sends (hx : TcpServer.machine.Run t (sends t r m) t' outs) : t'.sessions = t.sessions := by
  refine (hx.inv (I := fun t₁ => t₁.sessions = t.sessions) (Q := fun _ => True) rfl
    fun {t₁ f t₂ o} hf h hs => ⟨?_, fun _ _ => trivial⟩).1
  obtain ⟨q, -, rfl⟩ := of_mem_sends hf
  have hpath := TcpServer.step_path (e := .session q (.send .ref m)) hs
  cases hpath with
  | session _ _ p p' outs hp hps hf => exact h
  | sessionFails _ _ p p' reason hp hps hf => exact hf.elim

/-- The loop over the registry delivers nothing. -/
theorem spoken_sends (hx : TcpServer.machine.Run t (sends t r m) t' outs) : spoken q (outs.map .server) = [] := by
  rw [spoken, serverOuts_map, List.filterMap_eq_nil_iff]
  intro x hxo
  have hxo := TcpServer.mem_sessionOuts.1 hxo
  cases x with
  | message m' => exact absurd rfl (not_message_sends hx _ hxo m')
  | _ => rfl

/-- The server's part of a step: the registry it leaves, and what is delivered in it. -/
theorem server_of_step (hs : s.step e = some (s', o)) : ∃ t outs, s.server.step e.toServer = some (t, outs) ∧
    s'.server.sessions = t.sessions ∧ ∀ q, spoken q o = spoken q (outs.map .server) := by
  cases step_path hs with
  | server t outs o hstep ho hh hm => exact ⟨t, outs, hstep, rfl, fun q => by rw [spoken, spoken, ho, serverOuts_map]⟩
  | relay t t' r i bs p cmd outs he hstep hp hm hx =>
    have hrun := Machine.run_of_exec hx
    refine ⟨t, _, hstep, sessions_sends hrun, fun q => ?_⟩
    have hsends := spoken_sends (q := q) hrun
    rw [spoken, serverOuts_map] at hsends
    simp only [spoken, serverOuts, sessionOuts, List.filterMap_map] at hsends ⊢
    by_cases hq : r = q <;> simp_all

/-- A body that is received is stored in the buffer, whose message is delivered. -/
theorem delivered_of_step {i : Nat} {b : List UInt8}
    (hs : t.step (.session r (.readDone i (.ok b))) = some (t', outs)) (hm : (r, .message m) ∈ outs) :
    ∃ p p' n, t.objs[r]? = some p ∧ p.reads[i]? = some (.body n) ∧ t' = t.setObj r p' ∧ t'.objs[r]? = some p' ∧
      p'.msg = p.msg.storeBody b ∧ p'.id = p.id := by
  have hpath := TcpServer.step_path (e := .session r (.readDone i (.ok b))) hs
  cases hpath with
  | session _ _ p p' o hp hps hf =>
    have hobj : (t.setObj r p').objs[r]? = some p' := List.getElem?_set_self (List.getElem?_eq_some_iff.1 hp).1
    have hpath := TcpSession.step_path hps
    cases hpath with
    | bodyOk _ n _ hop hbs => exact ⟨p, _, n, hp, hop, rfl, hobj, rfl, rfl⟩
    | headerRejected | headerAccepted => simp at hm
  | sessionFails _ _ p p' reason hp hps hf => exact hf.elim

/-- A body that is received is delivered. -/
theorem message_of_body {i n : Nat} {b : List UInt8}
    (hs : t.step (.session r (.readDone i (.ok b))) = some (t', outs)) (hp : t.objs[r]? = some p)
    (hop : p.reads[i]? = some (.body n)) : ∃ m, (r, .message m) ∈ outs := by
  have hpath := TcpServer.step_path (e := .session r (.readDone i (.ok b))) hs
  cases hpath with
  | session _ _ p₁ p' o hp₁ hps hf =>
    obtain rfl : p = p₁ := Option.some.inj (hp.symm.trans hp₁)
    have hpath := TcpSession.step_path hps
    cases hpath with
    | bodyOk _ n' _ hop' hbs => exact ⟨_, List.mem_cons_self⟩
    | headerRejected _ n' _ hop' | headerAccepted _ n' _ hop' =>
      rw [hop] at hop'
      cases hop'
  | sessionFails _ _ p p' reason hp hps hf => exact hf.elim

/-- What is sent to Redis in a step is for the message that the message handler is called for. -/
theorem commands_of_step (hs : s.step e = some (s', o)) : delivered o = [] ∧ commands o = [] ∨
    ∃ r p, delivered o = [(r, p.msg)] ∧ commands o = commandsFor p ∧ s.server.sessionId r = some p.id := by
  rcases commands_step hs with ⟨t, outs, hstep, hno, hcmd⟩ | ⟨t, r, i, b, p, rfl, hstep, hp, hcmd⟩
  · exact Or.inl ⟨delivered_of_not_message hstep hno hs, hcmd⟩
  · refine Or.inr ⟨r, p, delivered_of_message hstep hs, hcmd, ?_⟩
    obtain ⟨p₁, p₂, n, hp₁, -, -, hp₂, -, hid⟩ := delivered_of_step (m := p.msg) hstep (by simp)
    obtain rfl := Option.some.inj (hp₂.symm.trans hp)
    rw [TcpServer.sessionId, hp₁, Option.map_some, hid]

/-- What happens to a session registers none. -/
theorem sessions_session {ev : TcpSession.Event} {j : Int} (hs : t.step (.session r ev) = some (t', outs))
    (hq : t'.sessions[j]? = some q) : t.sessions[j]? = some q := by
  have hpath := TcpServer.step_path (e := .session r ev) hs
  cases hpath with
  | session _ _ p p' o hp hps hf => exact hq
  | sessionFails _ _ p p' reason hp hps hf =>
    simp only [TcpServer.released, Std.TreeMap.getElem?_erase] at hq
    split at hq
    · cases hq
    · exact hq

/-- What a step does to the ranking and to the registry. -/
inductive Change (s : ChatServer) (e : Event) (s' : ChatServer) (o : List Out) : Prop
  /-- Nothing, but a session may end. -/
  | quiet (hcmd : commands o = []) (hsp : ∀ q, spoken q o = [])
      (hsub : ∀ (id : Int) (q : Nat), s'.server.sessions[id]? = some q → s.server.sessions[id]? = some q)
      (hok : ∀ es out, Undisturbed es s out e) : Change s e s' o
  /-- A session is registered. -/
  | accept (a : Accepted) (id : Int) (free : List Int) (he : e = .accept (.ok a)) (hroom : s.server.HasRoom)
      (hf : s.server.freeSessionId = id :: free) (hnew : id ∉ s.server.sessions) (hcmd : commands o = [])
      (hsp : ∀ q, spoken q o = []) (hsub : ∀ (j : Int) (q : Nat), s'.server.sessions[j]? = some q ↔
        s.server.sessions[j]? = some q ∨ j = id ∧ q = s.server.objs.length) : Change s e s' o
  /-- A message is delivered. -/
  | message (r i : Nat) (b : List UInt8) (p p' : TcpSession) (n : Nat) (he : e = .readDone r i (.ok b))
      (hp : s.server.objs[r]? = some p) (hop : p.reads[i]? = some (.body n)) (hmsg : p'.msg = p.msg.storeBody b)
      (hid : p'.id = p.id) (hcmd : commands o = commandsFor p')
      (hsp : ∀ q, spoken q o = if q = r then [p'.msg] else [])
      (hsub : s'.server.sessions = s.server.sessions) : Change s e s' o

/-- A connection is accepted. -/
theorem change_of_accept {a : Accepted} {free : List Int} (he : e = .accept (.ok a)) (hroom : s.server.HasRoom)
    (hf : s.server.freeSessionId = id :: free) (hcmd : commands o = []) (hsp : ∀ q, spoken q o = [])
    (hsess : s'.server.sessions = (s.server.accepted a id free).sessions) : Change s e s' o := by
  have hget : ∀ j : Int, s'.server.sessions[j]? =
      if id = j ∧ id ∉ s.server.sessions then some s.server.objs.length else s.server.sessions[j]? := by
    intro j
    rw [hsess]
    simp [TcpServer.accepted, Std.TreeMap.getElem?_insertIfNew]
  by_cases hnew : id ∈ s.server.sessions
  · refine .quiet hcmd hsp (fun j q hq => ?_) fun es out => ⟨fun a' id' free' he' _ hf' hn => ?_, ?_⟩
    · simpa [hget, hnew] using hq
    · obtain ⟨rfl, -⟩ : id = id' ∧ free = free' := by simpa using hf.symm.trans hf'
      exact absurd hnew hn
    · intro r i bs p n he'
      simp [he] at he'
  · refine .accept a id free he hroom hf hnew hcmd hsp fun j q => ?_
    rw [hget]
    by_cases hj : id = j
    · subst hj
      simp [hnew, eq_comm]
    · simp [hj, Ne.symm hj]

/-- **What a step changes.** -/
theorem change_of_step (hs : s.step e = some (s', o)) : Change s e s' o := by
  obtain ⟨t, outs, hstep, hsess, hsp⟩ := server_of_step hs
  rcases commands_step hs with ⟨t', outs', hstep', hno, hcmd⟩ | ⟨t', r, i, b, p', rfl, hstep', hp', hcmd⟩
  · obtain ⟨rfl, rfl⟩ : t' = t ∧ outs' = outs := by simpa using hstep'.symm.trans hstep
    have hsilent : ∀ q, spoken q o = [] := by
      intro q
      rw [hsp, spoken, serverOuts_map, List.filterMap_eq_nil_iff]
      intro x hx
      cases x with
      | message m => exact absurd (TcpServer.mem_sessionOuts.1 hx) (hno q m)
      | _ => rfl
    cases e with
    | accept res =>
      have hpath := TcpServer.step_path (e := .accept res) hstep
      cases hpath with
      | acceptError ec ha =>
        refine .quiet hcmd hsilent (fun j q hq => hsess ▸ hq) fun es out => ⟨?_, ?_⟩
        · intro a id free he
          cases he
        · intro r i bs p n he
          cases he
      | acceptRefused a ha hfull =>
        refine .quiet hcmd hsilent (fun j q hq => hsess ▸ hq) fun es out => ⟨?_, ?_⟩
        · intro a id free he hroom
          exact absurd hfull hroom
        · intro r i bs p n he
          cases he
      | acceptOk a id free ha hroom hf => exact change_of_accept rfl hroom hf hcmd hsilent hsess
    | readDone r i res =>
      have hsub : ∀ (j : Int) (q : Nat), s'.server.sessions[j]? = some q → s.server.sessions[j]? = some q := by
        intro j q hq
        rw [hsess] at hq
        exact sessions_session hstep hq
      refine .quiet hcmd hsilent hsub fun es out => ⟨?_, ?_⟩
      · intro a id free he
        cases he
      · rintro _ _ bs p n ⟨⟩ hp hop
        obtain ⟨m, hm⟩ := message_of_body hstep hp hop
        exact absurd hm (hno r m)
    | writeDone r i ec =>
      have hsub : ∀ (j : Int) (q : Nat), s'.server.sessions[j]? = some q → s.server.sessions[j]? = some q := by
        intro j q hq
        rw [hsess] at hq
        exact sessions_session hstep hq
      refine .quiet hcmd hsilent hsub fun es out => ⟨?_, ?_⟩
      · intro a id free he
        cases he
      · intro r i bs p n he
        cases he
  · obtain ⟨rfl, rfl⟩ : t' = t ∧ _ = outs := by simpa using hstep'.symm.trans hstep
    obtain ⟨p, p₁, n, hp, hop, rfl, hp₁, hmsg, hid⟩ := delivered_of_step (m := p'.msg) hstep (by simp)
    obtain rfl : p₁ = p' := Option.some.inj (hp₁.symm.trans hp')
    refine .message r i b p p₁ n rfl hp hop hmsg hid hcmd (fun q => ?_) hsess
    rw [hsp, spoken, serverOuts_map]
    by_cases hq : q = r
    · subst hq
      simp [sessionOuts]
    · simp [sessionOuts, hq, Ne.symm hq]

/-! ## What is kept under an id -/

/-- Sessions keep their ids. -/
theorem sessionId_of_step (hs : s.step e = some (s', o)) (h : s.server.sessionId q = some id) :
    s'.server.sessionId q = some id := by
  cases step_path hs with
  | server t outs o hstep ho hh hm => exact TcpServer.sessionId_step hstep (toServer_running e) h
  | relay t t' r i bs p cmd outs he hstep hp hm hx =>
    subst he
    have ht : t.sessionId q = some id := TcpServer.sessionId_step hstep trivial h
    refine ((Machine.run_of_exec hx).inv (I := fun t => t.sessionId q = some id) (Q := fun _ => True) ht
      fun {t₁ f t₂ o} hf h hs => ⟨?_, fun _ _ => trivial⟩).1
    exact TcpServer.sessionId_step hs (sends_running f hf) h

/-- What is delivered in a step comes from a session that has an id. -/
theorem sessionId_of_delivered (hs : s.step e = some (s', o)) {x : Nat × Msg} (hx : x ∈ delivered o) :
    ∃ id, s.server.sessionId x.1 = some id := by
  rcases commands_of_step hs with ⟨hdel, -⟩ | ⟨r, p, hdel, -, hid⟩
  · rw [hdel] at hx
    cases hx
  · rw [hdel, List.mem_singleton] at hx
    exact hx ▸ ⟨p.id, hid⟩

/-- What has been delivered in a run comes from sessions that have an id. -/
theorem sessionId_run (hr : machine.Run ((new config).start true) es s out) {x : Nat × Msg}
    (hx : x ∈ delivered out) : ∃ id, s.server.sessionId x.1 = some id := by
  induction hr with
  | nil => simp [delivered, serverOuts] at hx
  | snoc _ hs ih =>
    rw [delivered_append, List.mem_append] at hx
    obtain ⟨id, hid⟩ := hx.elim ih (sessionId_of_delivered hs)
    exact ⟨id, sessionId_of_step hs hid⟩

/-- A step adds to what has been delivered under an id. -/
theorem deliveredUnder_step (hr : machine.Run ((new config).start true) es s out) (hs : s.step e = some (s', o)) :
    deliveredUnder s' (out ++ o) id = deliveredUnder s out id ++ deliveredUnder s o id := by
  have hsame : ∀ x ∈ delivered out ++ delivered o, s'.server.sessionId x.1 = s.server.sessionId x.1 := by
    intro x hx
    obtain ⟨j, hj⟩ := (List.mem_append.1 hx).elim (sessionId_run hr) (sessionId_of_delivered hs)
    rw [hj, sessionId_of_step hs hj]
  simp only [deliveredUnder, delivered_append, ← List.filterMap_append]
  exact List.filterMap_congr fun x hx => by rw [hsame x hx]

/-! ## What keeps the ranking -/

theorem strlen_eq_some_zero_iff {bs : List UInt8} : strlen bs = some 0 ↔ bs.head? = some 0 := by
  cases bs with
  | nil => simp [strlen]
  | cons b bs => by_cases hb : b = 0 <;> simp [strlen, List.findIdx?_cons, hb]

theorem strlen_eq_none_iff {bs : List UInt8} : strlen bs = none ↔ 0 ∉ bs := by
  simp only [strlen, List.findIdx?_eq_none_iff, decide_eq_false_iff_not]
  exact ⟨fun h hm => h 0 hm rfl, fun h b hb hb₀ => h (hb₀ ▸ hb)⟩

/-- The length of the text in the body is that of the message's own text. -/
theorem strlen_body_iff : strlen m.body.bytes = some (cString m.payload).length ↔
    0 ∈ m.payload ∨ m.body.bytes[m.bodyLength.toNat]? = some 0 := by
  have hbody : m.body.bytes = m.payload ++ m.body.bytes.drop m.bodyLength.toNat :=
    (List.take_append_drop m.bodyLength.toNat m.body.bytes).symm
  calc strlen m.body.bytes = some (cString m.payload).length
    _ ↔ strlen (m.payload ++ m.body.bytes.drop m.bodyLength.toNat) = some (cString m.payload).length := by
      rw [← hbody]
    _ ↔ 0 ∈ m.payload ∨ (m.body.bytes.drop m.bodyLength.toNat).head? = some 0 := strlen_append_iff
    _ ↔ 0 ∈ m.payload ∨ m.body.bytes[m.bodyLength.toNat]? = some 0 := by rw [List.head?_drop]

/-- What is sent for a message changes no other entry. -/
theorem scores_of_ne (h : scoresAfter (commands out) = some scores)
    (h' : scoresAfter (commands out ++ commandsFor p) = some scores') (hid : id ≠ p.id) :
    scores' "user:ranking" (entry id) = scores "user:ranking" (entry id) := by
  have hne : entry id ≠ member p := fun heq => hid (entry_inj.1 heq)
  unfold commandsFor at h'
  split at h'
  · rw [scoresAfter_snoc, h] at h'
    obtain rfl := Option.some.inj h'
    simp [RedisCommand.apply, hne]
  · split at h'
    · rw [scoresAfter_snoc, h] at h'
      cases hlen : strlen p.msg.body.bytes with
      | none => simp [hlen] at h'
      | some n =>
        rw [hlen] at h'
        obtain rfl := Option.some.inj h'
        simp [RedisCommand.apply, hne]
    · rw [List.append_nil, h] at h'
      rw [Option.some.inj h']

/-- What is known in the end was known before. -/
theorem exists_scores {cmds cmds' : List (Option RedisCommand)} (h : scoresAfter (cmds ++ cmds') = some scores) :
    ∃ scores₁, scoresAfter cmds = some scores₁ := by
  induction cmds' using List.reverseRecOn generalizing scores with
  | nil => exact ⟨scores, by rwa [List.append_nil] at h⟩
  | append_singleton cmds' cmd ih =>
    rw [← List.append_assoc, scoresAfter_snoc] at h
    obtain ⟨scores', h', -⟩ := Option.bind_eq_some_iff.1 h
    exact ih h'

theorem rq_ne_nf (hid : m.msgId = MsgId.rqCreateUser.val) : m.msgId ≠ MsgId.nfMessage.val := by
  rw [hid]
  decide

theorem sinceCreate_snoc (ms : List Msg) (m : Msg) : sinceCreate (ms ++ [m]) =
    if m.msgId = MsgId.rqCreateUser.val then [] else sinceCreate ms ++ [m] := by
  rw [sinceCreate, List.rtakeWhile_concat, sinceCreate]
  by_cases hrq : m.msgId = MsgId.rqCreateUser.val <;> simp [hrq]

theorem textless_snoc {ms : List Msg} : Textless (ms ++ [m]) ↔ m.msgId = MsgId.rqCreateUser.val ∨
    Textless ms ∧ (m.msgId = MsgId.nfMessage.val → m.body.bytes.head? = some 0) := by
  rw [Textless, sinceCreate_snoc]
  by_cases hrq : m.msgId = MsgId.rqCreateUser.val
  · simp [hrq]
  · rw [if_neg hrq, or_iff_right hrq]
    simp only [List.forall_mem_append, List.forall_mem_singleton]
    rfl

/-- A score is zero while no text has been delivered. -/
theorem score_eq_zero_iff {ms : List Msg} (h : scoresAfter (commands out) = some scores)
    (h' : scoresAfter (commands out ++ commandsFor p) = some scores')
    (hzero : scores "user:ranking" (entry p.id) = 0 ↔ Textless ms) :
    scores' "user:ranking" (entry p.id) = 0 ↔ Textless (ms ++ [p.msg]) := by
  have hmember : member p = entry p.id := rfl
  rw [textless_snoc, ← hzero]
  by_cases hrq : p.msg.msgId = MsgId.rqCreateUser.val
  · rw [commandsFor, if_pos hrq, scoresAfter_snoc, h] at h'
    obtain rfl := Option.some.inj h'
    simp [RedisCommand.apply, hmember, hrq]
  · by_cases hnf : p.msg.msgId = MsgId.nfMessage.val
    · rw [commandsFor, if_neg hrq, if_pos hnf, scoresAfter_snoc, h] at h'
      cases hlen : strlen p.msg.body.bytes with
      | none => simp [hlen] at h'
      | some n =>
        rw [hlen] at h'
        obtain rfl := Option.some.inj h'
        have hn : n = 0 ↔ p.msg.body.bytes.head? = some 0 := by
          rw [← strlen_eq_some_zero_iff, hlen, Option.some.injEq]
        rw [or_iff_right hrq, imp_iff_right hnf, ← hn]
        simp [RedisCommand.apply, hmember]
    · rw [commandsFor, if_neg hrq, if_neg hnf, List.append_nil, h] at h'
      obtain rfl := Option.some.inj h'
      rw [or_iff_right hrq, and_iff_left fun h => absurd h hnf]

/-- **What is kept under an id**: its score is zero iff nothing that counts has been delivered under it. -/
theorem unscored_iff (hr : machine.Run ((new config).start true) es s out)
    (h : scoresAfter (commands out) = some scores) : scores "user:ranking" (entry id) = 0 ↔ Unscored s out id := by
  induction hr generalizing scores with
  | nil =>
    obtain rfl := Option.some.inj h
    exact iff_of_true rfl fun m hm => by simp [sinceCreate, deliveredUnder, delivered, serverOuts] at hm
  | @snoc es s₁ out e s₂ o hr hs ih =>
    rw [commands_append] at h
    rw [Unscored, deliveredUnder_step hr hs]
    rcases commands_of_step hs with ⟨hdel, hcmd⟩ | ⟨r, p, hdel, hcmd, hrid⟩
    · rw [hcmd, List.append_nil] at h
      rw [deliveredUnder, deliveredUnder, hdel, List.filterMap_nil, List.append_nil]
      exact ih h
    · obtain ⟨scores₁, h₁⟩ := exists_scores h
      rw [hcmd] at h
      by_cases hid : id = p.id
      · have hone : deliveredUnder s₁ o id = [p.msg] := by simp [deliveredUnder, hdel, hrid, hid]
        rw [hone]
        rw [hid] at ih ⊢
        exact score_eq_zero_iff h₁ h (ih h₁)
      · have hnone : deliveredUnder s₁ o id = [] := by simp [deliveredUnder, hdel, hrid, Ne.symm hid]
        rw [hnone, List.append_nil, scores_of_ne h₁ h hid]
        exact ih h₁

/-- The score of the id whose session delivers a message, and what it then should be. -/
def Settles (s : ChatServer) (out : List Out) (r : Nat) (p : TcpSession) : Prop :=
  ∃ scores, scoresAfter (commands out ++ commandsFor p) = some scores ∧ ∀ q, s.server.sessions[p.id]? = some q →
    scores "user:ranking" (entry p.id) = earned (spoken q out ++ if q = r then [p.msg] else [])

section Settles

variable (h : scoresAfter (commands out) = some scores)
  (hscores : ∀ (id : Int) (r : Nat), s.server.sessions[id]? = some r →
    scores "user:ranking" (entry id) = earned (spoken r out))

include h hscores

/-- A request to create a user. -/
theorem settles_rqCreateUser (hzero : scores "user:ranking" (entry p.id) = 0 ↔ Unscored s out p.id)
    (hid : p.msg.msgId = MsgId.rqCreateUser.val) : Settles s out r p ↔ Fair s out r p.id p.msg := by
  have hnf := rq_ne_nf hid
  have hafter : scoresAfter (commands out ++ commandsFor p) =
      some (RedisCommand.apply scores (.zadd "user:ranking" 0 (entry p.id))) := by
    rw [commandsFor, if_pos hid, scoresAfter_snoc, h]
    rfl
  constructor
  · rintro ⟨scores', h', hs⟩
    obtain rfl := Option.some.inj (hafter.symm.trans h')
    refine ⟨fun hm => absurd hm hnf, fun hm => absurd hm hnf, fun hm => absurd hm hnf, fun _ q hq hqr => ?_⟩
    have hq' := hs q hq
    simp only [RedisCommand.apply, and_self, if_true, if_neg hqr, List.append_nil] at hq'
    rw [← hzero, hscores _ q hq, ← hq']
  · intro hf
    refine ⟨_, hafter, fun q hq => ?_⟩
    by_cases hqr : q = r
    · simp [RedisCommand.apply, hqr, earned_snoc, hid]
    · simp only [RedisCommand.apply, and_self, if_true, if_neg hqr, List.append_nil]
      rw [← hscores _ q hq, hzero.2 (hf.reset hid q hq hqr)]

/-- A chat message. -/
theorem settles_nfMessage (hid : p.msg.msgId = MsgId.nfMessage.val) :
    Settles s out r p ↔ Fair s out r p.id p.msg := by
  have hrq : p.msg.msgId ≠ MsgId.rqCreateUser.val := fun hrq => rq_ne_nf hrq hid
  have hcmd : commandsFor p =
      [(strlen p.msg.body.bytes).map fun n => .zincrby "user:ranking" n (entry p.id)] := by
    rw [commandsFor, if_neg hrq, if_pos hid]
    rfl
  cases hlen : strlen p.msg.body.bytes with
  | none =>
    refine ⟨?_, fun hf => absurd (hf.ends hid) (strlen_eq_none_iff.1 hlen)⟩
    rintro ⟨scores', h', -⟩
    simp [hcmd, scoresAfter_snoc, h, hlen] at h'
  | some k =>
    have hafter : scoresAfter (commands out ++ commandsFor p) =
        some (RedisCommand.apply scores (.zincrby "user:ranking" k (entry p.id))) := by
      rw [hcmd, hlen, scoresAfter_snoc, h]
      rfl
    constructor
    · rintro ⟨scores', h', hs⟩
      obtain rfl := Option.some.inj (hafter.symm.trans h')
      refine ⟨fun _ => ?_, fun _ hr => ?_, fun _ q hq hqr => ?_, fun hm => absurd hm hrq⟩
      · by_contra hn
        simp [strlen_eq_none_iff.2 hn] at hlen
      · have hr' := hs r hr
        simp only [RedisCommand.apply, and_self, if_true, earned_snoc, if_neg hrq, if_pos hid,
          hscores _ r hr] at hr'
        rw [← strlen_body_iff, hlen, Nat.add_left_cancel hr']
      · have hq' := hs q hq
        simp only [RedisCommand.apply, and_self, if_true, if_neg hqr, List.append_nil, hscores _ q hq] at hq'
        rw [← strlen_eq_some_zero_iff, hlen, Nat.add_eq_left.1 hq']
    · intro hf
      refine ⟨_, hafter, fun q hq => ?_⟩
      simp only [RedisCommand.apply, and_self, if_true, hscores _ q hq]
      by_cases hqr : q = r
      · subst hqr
        have hk := hlen.symm.trans (strlen_body_iff.2 (hf.own hid hq))
        rw [if_pos rfl, earned_snoc, if_neg hrq, if_pos hid, Option.some.inj hk]
      · have hk := hlen.symm.trans (strlen_eq_some_zero_iff.2 (hf.others hid q hq hqr))
        rw [if_neg hqr, List.append_nil, Option.some.inj hk, Nat.add_zero]

/-- Any other message. -/
theorem settles_other (hrq : p.msg.msgId ≠ MsgId.rqCreateUser.val) (hnf : p.msg.msgId ≠ MsgId.nfMessage.val) :
    Settles s out r p ↔ Fair s out r p.id p.msg := by
  refine iff_of_true ⟨scores, ?_, fun q hq => ?_⟩
    ⟨fun hm => absurd hm hnf, fun hm => absurd hm hnf, fun hm => absurd hm hnf, fun hm => absurd hm hrq⟩
  · rw [commandsFor, if_neg hrq, if_neg hnf, List.append_nil, h]
  · by_cases hqr : q = r <;> simp [hqr, earned_snoc, hrq, hnf, hscores _ q hq]

theorem settles_iff (hzero : scores "user:ranking" (entry p.id) = 0 ↔ Unscored s out p.id) :
    Settles s out r p ↔ Fair s out r p.id p.msg := by
  by_cases hrq : p.msg.msgId = MsgId.rqCreateUser.val
  · exact settles_rqCreateUser h hscores hzero hrq
  · by_cases hnf : p.msg.msgId = MsgId.nfMessage.val
    · exact settles_nfMessage h hscores hnf
    · exact settles_other h hscores hrq hnf

end Settles

/-- Sessions that do not exist yet have sent nothing. -/
theorem spoken_eq_nil (hr : machine.Run ((new config).start true) es s out) (hlen : s.server.objs.length ≤ r) :
    spoken r out = [] := by
  obtain ⟨fs, t, outs, hn, hR⟩ := mirrors_run hr
  obtain rfl := hR.server
  have hreg := TcpServer.registry_run hn hR.running
  have hnil : sessionOuts r outs = [] := by
    refine List.filterMap_eq_nil_iff.2 fun x hx => if_neg ?_
    have := hreg.outs x hx
    omega
  rw [spoken, ← hR.outs r, hnil]
  rfl

/-- **What a step has to do to keep the ranking.** -/
theorem ranked_step_iff (hr : machine.Run ((new config).start true) es s out) (h : Ranked es s out)
    (hs : s.step e = some (s', o)) : Ranked (es ++ [e]) s' (out ++ o) ↔ Undisturbed es s out e := by
  obtain ⟨outs, hreg⟩ := registry_of_run hr
  obtain ⟨scores, hafter, hscores⟩ := h
  unfold Ranked
  simp only [commands_append, spoken_append]
  rcases change_of_step hs with ⟨hcmd, hsp, hsub, hok⟩ | ⟨a, id, free, rfl, hroom, hf, hnew, hcmd, hsp, hsub⟩ |
    ⟨r, i, b, p, p', n, rfl, hp, hop, hmsg, hid, hcmd, hsp, hsub⟩
  · refine iff_of_true ⟨scores, by rw [hcmd, List.append_nil, hafter], fun id q hq => ?_⟩ (hok es out)
    rw [hsp, List.append_nil]
    exact hscores id q (hsub id q hq)
  · -- the new session has earned nothing yet
    have hnil : spoken s.server.objs.length out = [] := spoken_eq_nil hr le_rfl
    simp only [hcmd, hsp, List.append_nil]
    constructor
    · rintro ⟨scores', h', hs'⟩
      obtain rfl := Option.some.inj (hafter.symm.trans h')
      refine ⟨?_, fun r i bs p n he => by cases he⟩
      rintro _ id' free' ⟨⟩ _ hf' _
      obtain ⟨rfl, -⟩ : id = id' ∧ free = free' := by simpa using hf.symm.trans hf'
      rw [← unscored_iff hr hafter, hs' id _ ((hsub id _).2 (Or.inr ⟨rfl, rfl⟩)), hnil]
      rfl
    · intro hu
      refine ⟨scores, hafter, fun j q hq => ?_⟩
      rcases (hsub j q).1 hq with hq | ⟨rfl, rfl⟩
      · exact hscores j q hq
      · rw [hnil, (unscored_iff hr hafter).2 (hu.accept a j free rfl hroom hf hnew)]
        rfl
  · have hrid : s.server.sessionId r = some p'.id := by rw [TcpServer.sessionId, hp, Option.map_some, hid]
    have hfair : Undisturbed es s out (.readDone r i (.ok b)) ↔ Fair s out r p'.id p'.msg := by
      refine ⟨fun hu => ?_, fun hf => ⟨fun a id free he => (by cases he), ?_⟩⟩
      · rw [hid, hmsg]
        exact hu.message r i b p n rfl hp hop
      · rintro _ _ _ p₁ n₁ ⟨⟩ hp₁ -
        obtain rfl := Option.some.inj (hp.symm.trans hp₁)
        rwa [← hid, ← hmsg]
    rw [hfair, ← settles_iff hafter hscores (unscored_iff hr hafter), hsub, hcmd]
    simp only [hsp]
    constructor
    · rintro ⟨scores', h', hs'⟩
      exact ⟨scores', h', fun q hq => hs' _ q hq⟩
    · rintro ⟨scores', h', hs'⟩
      refine ⟨scores', h', fun id q hq => ?_⟩
      by_cases hidp : id = p'.id
      · rw [hidp] at hq ⊢
        exact hs' q hq
      · have hqr : q ≠ r := by
          rintro rfl
          exact hidp (Option.some.inj ((hreg.key id q hq).symm.trans hrid))
        rw [if_neg hqr, List.append_nil, scores_of_ne hafter h' hidp]
        exact hscores id q hq

/-- **When the ranking belongs to the connections**: throughout a run of a chat server the score of each registered id is
what the session registered under it has earned, iff every step is undisturbed. -/
theorem ranked_iff (hr : machine.Run ((new config).start true) es s out) :
    machine.Always ((new config).start true) Ranked es ↔ machine.Steps ((new config).start true) Undisturbed es := by
  refine Machine.always_iff_steps (E := fun _ => True) (I := Ranked) ?_ (fun h => h) ?_ ?_ hr fun _ _ => trivial
  · exact ⟨_, rfl, fun id q hq => by simp [start, new, TcpServer.listen, TcpServer.startAccept, TcpServer.new] at hq⟩
  · intro es s out e s' o _ hr h hs hu
    exact (ranked_step_iff hr h hs).2 hu
  · intro es s out e s' o _ hr h hs hu hranked
    exact hu ((ranked_step_iff hr h hs).1 hranked)

/-- A client says "hi" and its connection is reset; the next one is given the same id. -/
def nextClient : List Event :=
  [.accept (.ok .loopback), .readDone 0 0 (.ok [1, 0, 2, 0, 3, 0, 0, 0]), .readDone 0 0 (.ok [104, 105]),
    .readDone 0 0 (.ok [1, 0, 2, 0, 3, 0, 0, 0]), .readDone 0 0 (.error .eof), .accept (.ok .loopback)]

/-- It is ranked with the score of the client before. -/
theorem nextClient_not_ranked : ∃ (s : ChatServer) (out : List Out),
    machine.Run ((new ⟨1⟩).start true) nextClient s out ∧ s.server.sessions[(1 : Int)]? = some 1 ∧
      spoken 1 out = [] ∧ (scoresAfter (commands out)).map (fun scores => scores "user:ranking" "session_1") = some 2 ∧
      ¬ Ranked nextClient s out := by
  have hr : ∃ (s : ChatServer) (out : List Out), machine.Run ((new ⟨1⟩).start true) nextClient s out ∧
      s.server.sessions[(1 : Int)]? = some 1 ∧ spoken 1 out = [] ∧
      (scoresAfter (commands out)).map (fun scores => scores "user:ranking" "session_1") = some 2 :=
    ⟨_, _, Machine.run_of_exec rfl, rfl, rfl, by decide +kernel⟩
  obtain ⟨s, out, hr, hsess, hsp, hscore⟩ := hr
  refine ⟨s, out, hr, hsess, hsp, hscore, ?_⟩
  rintro ⟨scores, hafter, hscores⟩
  have hearned := hscores 1 1 hsess
  rw [hsp] at hearned
  rw [hafter, Option.map_some, Option.some.injEq] at hscore
  have hentry : entry 1 = "session_1" := by decide
  rw [hentry, hscore] at hearned
  cases hearned

/-- A client says "hi", with a terminator. -/
def saysHi : List Event :=
  [.accept (.ok .loopback), .readDone 0 0 (.ok [1, 0, 3, 0, 3, 0, 0, 0]), .readDone 0 0 (.ok [104, 105, 0])]

theorem ranked_iff_saysHi : ∃ (s : ChatServer) (out : List Out), machine.Run ((new ⟨1⟩).start true) saysHi s out ∧
    (machine.Always ((new ⟨1⟩).start true) Ranked saysHi ↔
      machine.Steps ((new ⟨1⟩).start true) Undisturbed saysHi) := by
  have hr : ∃ (s : ChatServer) (out : List Out), machine.Run ((new ⟨1⟩).start true) saysHi s out :=
    ⟨_, _, Machine.run_of_exec rfl⟩
  obtain ⟨s, out, hr⟩ := hr
  exact ⟨s, out, hr, ranked_iff hr⟩

end ChatServer

end Torinet
