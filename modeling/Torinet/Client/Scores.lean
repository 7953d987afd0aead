import Torinet.Client.Quiet

/-!
# The ranking of the clients

Sessions of the system stay, so an id is given to one client only, and what is kept in Redis under it is the client's
own: the lengths of all that it has said since its last request to create a user, as far as the server has got, and
nothing else is kept (`scores_eq`). At rest that is all that has been typed.
-/

namespace Torinet

open Lib

namespace ChatServer

variable {s s' : ChatServer} {e : Event} {o : List Out} {t t' : TcpServer} {outs : List TcpServer.Out} {r : Nat}
  {p : TcpSession}

/-- What a session does without failing leaves the registry alone. -/
theorem sessions_of_session {ev : TcpSession.Event} (he : e.toServer = .session r ev)
    (hf : ∀ p, ¬ TcpSession.Fails p ev) (hs : s.step e = some (s', o)) : s'.server.sessions = s.server.sessions := by
  obtain ⟨t, outs, hstep, hsess, -⟩ := server_of_step hs
  rw [he] at hstep
  have hpath := TcpServer.step_path (e := .session r ev) hstep
  cases hpath with
  | session _ _ p p' outs hp hps hf' => exact hsess
  | sessionFails _ _ p p' reason hp hps hf' => exact absurd hf' (hf p)

/-- An accepted connection may put a session into the registry, under an id that is not there. -/
theorem sessions_of_accept {a : Accepted} (hs : s.step (.accept (.ok a)) = some (s', o)) :
    (∀ j : Int, s'.server.sessions[j]? = s.server.sessions[j]?) ∨
      ∃ id : Int, s.server.sessions[id]? = none ∧
        ∀ j : Int, s'.server.sessions[j]? = if id = j then some s.server.objs.length else s.server.sessions[j]? := by
  obtain ⟨t, outs, hstep, hsess, -⟩ := server_of_step hs
  have hpath := TcpServer.step_path (e := .accept (.ok a)) hstep
  cases hpath with
  | acceptRefused _ ha hfull => exact Or.inl fun j => by rw [hsess]
  | acceptOk _ id free ha hroom hf =>
    by_cases hid : id ∈ s.server.sessions
    · refine Or.inl ?_
      intro j
      rw [hsess]
      simp [TcpServer.accepted, Std.TreeMap.getElem?_insertIfNew, hid]
    · refine Or.inr ⟨id, Std.TreeMap.getElem?_eq_none hid, fun j => ?_⟩
      rw [hsess]
      simp [TcpServer.accepted, Std.TreeMap.getElem?_insertIfNew, hid]

end ChatServer

namespace System

open ChatServer (delivered commands commandsFor entry)

variable {boostSplit : List UInt8 → SplitVector} {config : ServerConfig} {s s' : System} {h h' : Hub Nat Msg}
  {e : Event} {es : List Event} {out seen : List Seen} {o : List Out} {r n : Nat} {id : Int} {a : Act}
  {p : TcpSession} {scores : Scores} {reg : Int → Option Nat} {log : List (Nat × Msg)} {since : Nat → Nat}
  {cmds : List (Option RedisCommand)}

/-! ## What is earned -/

/-- What is left of a score. -/
def Act.earn (n : Nat) : Act → Nat
  | .create => 0
  | .say text => n + text.length

/-- What a client earns by what it asks for. -/
def worth (acts : List Act) : Nat := acts.foldl Act.earn 0

theorem worth_snoc (acts : List Act) (a : Act) : worth (acts ++ [a]) = a.earn (worth acts) := by
  simp [worth]

/-- What Redis is told for a message that asks for something. -/
theorem scoresAfter_commandsFor (h : scoresAfter cmds = some scores) (hm : meaning p.msg = some a)
    (hends : isChat p.msg → 0 ∈ p.msg.payload) :
    ∃ scores' : Scores, scoresAfter (cmds ++ commandsFor p) = some scores' ∧
      ∀ key member, scores' key member =
        if key = "user:ranking" ∧ member = entry p.id then a.earn (scores key member) else scores key member := by
  by_cases hrq : p.msg.msgId = MsgId.rqCreateUser.val
  · rw [meaning, if_pos hrq] at hm
    obtain rfl := Option.some.inj hm
    rw [commandsFor, if_pos hrq, scoresAfter_snoc, h]
    exact ⟨_, rfl, fun key member => rfl⟩
  · rw [meaning, if_neg hrq] at hm
    by_cases hnf : p.msg.msgId = MsgId.nfMessage.val
    · rw [if_pos hnf] at hm
      obtain rfl := Option.some.inj hm
      -- the text ends inside the message, so its length is the increment
      have hlen := ChatServer.strlen_body_iff.2 (Or.inl (hends (decide_eq_true hnf)))
      rw [commandsFor, if_neg hrq, if_pos hnf, hlen, scoresAfter_snoc, h]
      exact ⟨_, rfl, fun key member => rfl⟩
    · rw [if_neg hnf] at hm
      cases hm

/-! ## What is kept -/

/-- The scores are those of the registered ids: what their clients have earned. -/
structure Scored (reg : Int → Option Nat) (out : List Seen) (scores : Scores) : Prop where
  after : scoresAfter (commands (atServer out)) = some scores
  registered : ∀ id r, reg id = some r → scores "user:ranking" (entry id) = worth (Hub.ofOne r (journal out))
  others : ∀ key member, scores key member ≠ 0 → key = "user:ranking" ∧ ∃ id r, reg id = some r ∧ member = entry id

theorem scored_new (config : ServerConfig) :
    Scored (fun id => (new config).server.server.sessions[id]?) [] fun _ _ => 0 where
  after := rfl
  registered _ _ _ := rfl
  others _ _ hne := absurd rfl hne

/-- Nothing is asked for. -/
theorem Scored.quiet (hk : Scored reg out scores) (hcmd : commands (atServer seen) = []) (hdel : journal seen = []) :
    Scored reg (out ++ seen) scores where
  after := by rw [atServer_append, ChatServer.commands_append, hcmd, List.append_nil]; exact hk.after
  registered := by rw [journal_append, hdel, List.append_nil]; exact hk.registered
  others := hk.others

/-- A registered client asks for something. -/
theorem Scored.deliver (hk : Scored reg out scores) (hr : reg p.id = some r) (hid : ∀ id, reg id = some r → id = p.id)
    (hm : meaning p.msg = some a) (hends : isChat p.msg → 0 ∈ p.msg.payload)
    (hcmd : commands (atServer seen) = commandsFor p) (hdel : journal seen = [(r, a)]) :
    ∃ scores', Scored reg (out ++ seen) scores' := by
  obtain ⟨scores', hafter, heq⟩ := scoresAfter_commandsFor hk.after hm hends
  refine ⟨scores', ?_, fun id q hq => ?_, fun key member hne => ?_⟩
  · rw [atServer_append, ChatServer.commands_append, hcmd]
    exact hafter
  · rw [heq, journal_append, hdel, Hub.ofOne_append]
    by_cases hqr : r = q
    · subst hqr
      obtain rfl := hid id hq
      rw [if_pos ⟨rfl, rfl⟩, Hub.ofOne_self, worth_snoc, hk.registered _ r hq]
    · have hne : entry id ≠ entry p.id := by
        rw [Ne, ChatServer.entry_inj]
        rintro rfl
        exact hqr (Option.some.inj (hr.symm.trans hq))
      rw [if_neg fun h => hne h.2, Hub.ofOne_of_ne hqr, List.append_nil]
      exact hk.registered id q hq
  · rw [heq] at hne
    split at hne
    · rename_i hmem
      exact ⟨hmem.1, p.id, r, hr, hmem.2⟩
    · exact hk.others key member hne

/-- A session is registered, which has asked for nothing. -/
theorem Scored.register (hk : Scored reg out scores) (hid : reg id = none) (hnil : Hub.ofOne n (journal out) = []) :
    Scored (fun j => if id = j then some n else reg j) out scores where
  after := hk.after
  registered j q hq := by
    by_cases hj : id = j
    · subst hj
      rw [if_pos rfl] at hq
      obtain rfl := Option.some.inj hq
      rw [hnil]
      by_contra hne
      obtain ⟨-, id', r, hr, hentry⟩ := hk.others _ _ hne
      obtain rfl := ChatServer.entry_inj.1 hentry
      rw [hid] at hr
      cases hr
    · rw [if_neg hj] at hq
      exact hk.registered j q hq
  others key member hne := by
    obtain ⟨hkey, id', r, hr, hmem⟩ := hk.others key member hne
    refine ⟨hkey, id', r, ?_, hmem⟩
    have hne : id ≠ id' := by
      rintro rfl
      rw [hid] at hr
      cases hr
    rw [if_neg hne]
    exact hr

/-- What a step does to the registry: nothing, or a session is put into it that has asked for nothing. -/
theorem sessions_step (hs : s.step boostSplit e = some (s', o)) :
    (∀ j : Int, s'.server.server.sessions[j]? = s.server.server.sessions[j]?) ∨
      delivered (s.serverDoes e) = [] ∧ ∃ id : Int, s.server.server.sessions[id]? = none ∧
        ∀ j : Int, s'.server.server.sessions[j]? =
          if id = j then some s.server.server.objs.length else s.server.server.sessions[j]? := by
  rcases server_step hs with ⟨ev, hev, hstep⟩ | ⟨hsame, -⟩
  · cases e with
    | connect ac ep mem =>
      obtain rfl := Option.some.inj hev
      exact (ChatServer.sessions_of_accept hstep).imp_right fun hnew => ⟨ChatServer.delivered_of_accept hstep, hnew⟩
    | serverRead r =>
      obtain ⟨p, -, hev⟩ := Option.bind_eq_some_iff.1 hev
      obtain ⟨bs, -, rfl⟩ := Option.map_eq_some_iff.1 hev
      have hnever : ∀ p, ¬ TcpSession.Fails p (.readDone 0 (.ok bs)) := fun _ => id
      exact Or.inl fun j => by rw [ChatServer.sessions_of_session rfl hnever hstep]
    | serverWrite r =>
      obtain rfl := Option.some.inj hev
      have hnever : ∀ p, ¬ TcpSession.Fails p (.writeDone 0 none) := fun _ => id
      exact Or.inl fun j => by rw [ChatServer.sessions_of_session rfl hnever hstep]
    | _ => cases hev
  · exact Or.inl fun j => by rw [hsame]

/-- **A step keeps the ranking.** -/
theorem Scored.step (hsplit : ∀ line, Tokens ChatClient.isBlank line (boostSplit line))
    (hk : Kept es out s h log since) (hsc : Scored (fun id => s.server.server.sessions[id]?) out scores)
    (hs : (observed boostSplit).step s e = some (s', seen)) :
    ∃ scores', Scored (fun id => s'.server.server.sessions[id]?) (out ++ seen) scores' := by
  obtain ⟨o, hs₁, rfl⟩ := observed_step_iff.1 hs
  obtain ⟨h', hmove⟩ := hk.talks.move hsplit hs₁
  obtain ⟨config', evs, outs, hrun⟩ := hk.talks.reachable
  obtain ⟨regOuts, hreg⟩ := ChatServer.registry_of_run hrun
  have hsilent : delivered (s.serverDoes e) = [] → commands (s.serverDoes e) = [] := by
    intro hdel
    rcases server_step hs₁ with ⟨ev, -, hstep⟩ | ⟨-, hnone⟩
    · rcases ChatServer.commands_of_step hstep with ⟨-, hcmd⟩ | ⟨r, p, hdel', -⟩
      · exact hcmd
      · rw [hdel] at hdel'
        cases hdel'
    · rw [hnone]
      rfl
  have hseen : journal (o.map .client ++ (s.serverDoes e).map .server) = meanings (delivered (s.serverDoes e)) := by
    rw [journal, atServer_seen]
    rfl
  -- first what is asked for, in the registry as it was
  obtain ⟨scores', hsc'⟩ : ∃ scores', Scored (fun id => s.server.server.sessions[id]?)
      (out ++ (o.map .client ++ (s.serverDoes e).map .server)) scores' := by
    cases hmove with
    | pass r m x ms hr hms ht hacts hdel hx hends =>
      obtain ⟨a, ha⟩ := hk.means hr (m := m) (by simp [hms])
      rcases server_step hs₁ with ⟨ev, -, hstep⟩ | ⟨-, hnone⟩
      · rcases ChatServer.commands_of_step hstep with ⟨hdel', -⟩ | ⟨r', p, hdel', hcmd, hrid⟩
        · rw [hdel] at hdel'
          cases hdel'
        · obtain ⟨rfl, rfl⟩ : r = r' ∧ x = p.msg := by simpa [hdel] using hdel'
          obtain ⟨id, hid⟩ := ChatServer.mem_registered.1 ((hk.talks.parties r).1 hr)
          have hkey : ∀ id' : Int, s.server.server.sessions[id']? = some r → id' = p.id := fun id' hid' =>
            Option.some.inj ((hreg.key id' r hid').symm.trans hrid)
          refine hsc.deliver (a := a) (hkey id hid ▸ hid) hkey (hx.trans ha) hends ?_ ?_
          · rw [atServer_seen]
            exact hcmd
          · rw [hseen, hdel]
            simp [meanings, hx, ha]
      · rw [hnone] at hdel
        cases hdel
    | rest ht hacts hdel | join n hn ht hacts hdel | say k m a hk ht hacts hm hdel
    | hear r m ms o hr hms ht hecho hacts hdel =>
      refine ⟨scores, hsc.quiet ?_ ?_⟩
      · rw [atServer_seen]
        exact hsilent hdel
      · rw [hseen, hdel]
        rfl
  -- then the registry may grow
  rcases sessions_step hs₁ with hsame | ⟨hdel, id, hid, hnew⟩
  · exact ⟨scores', by simpa only [hsame] using hsc'⟩
  · have hnil : Hub.ofOne s.server.server.objs.length
        (journal (out ++ (o.map .client ++ (s.serverDoes e).map .server))) = [] := by
      rw [journal_append, hseen, hdel, Hub.ofOne_append]
      have hnp : s.server.server.objs.length ∉ h.parties := by
        intro hp
        obtain ⟨p, hc⟩ := hk.talks.conn _ ((hk.talks.parties _).1 hp)
        simpa using hc.obj
      rw [(hk.acts_absent hnp).2]
      rfl
    exact ⟨scores', by simpa only [hnew] using hsc'.register hid hnil⟩

/-- **A run keeps the ranking.** -/
theorem scored_run (hsplit : ∀ line, Tokens ChatClient.isBlank line (boostSplit line))
    (hr : (observed boostSplit).Run (new config) es s out) : ∃ h log since scores, Kept es out s h log since ∧
      Scored (fun id => s.server.server.sessions[id]?) out scores := by
  induction hr with
  | nil => exact ⟨_, _, _, _, kept_new config, scored_new config⟩
  | snoc _ hs ih =>
    obtain ⟨h, log, since, scores, hk, hsc⟩ := ih
    obtain ⟨scores', hsc'⟩ := hsc.step hsplit hk hs
    obtain ⟨h', log', since', hk', -⟩ := hk.step hsplit hs
    exact ⟨h', _, since', scores', hk', hsc'⟩

/-- **The ranking is that of the clients**: in every run of the system, Redis has the score of each registered id, and
no other, and it is what the id's client has earned by what the server's message handler has been called for; at rest,
when no client has been stopped, by all that is typed at the client. -/
theorem scores_eq (hsplit : ∀ line, Tokens ChatClient.isBlank line (boostSplit line))
    (hr : (observed boostSplit).Run (new config) es s out) : ∃ scores,
      scoresAfter (commands (atServer out)) = some scores ∧
      (∀ (id : Int) (r : Nat), s.server.server.sessions[id]? = some r →
        scores "user:ranking" (entry id) = worth (Hub.ofOne r (journal out)) ∧
        (s.Running → AtRest boostSplit s → scores "user:ranking" (entry id) = worth (acts r es))) ∧
      ∀ key member, scores key member ≠ 0 → key = "user:ranking" ∧
        ∃ (id : Int) (r : Nat), s.server.server.sessions[id]? = some r ∧ member = entry id := by
  obtain ⟨h, log, since, scores, hk, hsc⟩ := scored_run hsplit hr
  refine ⟨scores, hsc.after, fun id r hid => ⟨hsc.registered id r hid, fun hrun hrest => ?_⟩, hsc.others⟩
  have hconn : r ∈ s.conns := ChatServer.mem_registered.2 ⟨id, hid⟩
  rw [hsc.registered id r hid, hk.acts_eq ((hk.talks.parties r).2 hconn), hk.talks.up_eq_nil hrun hrest hconn]
  simp

/-- Who has said "hi" has earned two. -/
theorem scores_eq_hiHeard : ∃ (s : System) (out : List Seen) (scores : Scores),
    (observed (split ChatClient.isBlank)).Run (new ⟨2⟩) (oneConnects :: oneConnects :: hiHeard) s out ∧
    scoresAfter (commands (atServer out)) = some scores ∧ scores "user:ranking" (entry 1) = 2 := by
  have hsome : ((observed (split ChatClient.isBlank)).exec (new ⟨2⟩) (oneConnects :: oneConnects :: hiHeard)).map
      (fun x => decide (x.1.server.server.sessions[(1 : Int)]? = some 0 ∧
        (∀ r ∈ x.1.conns, (x.1.client r).stopped = false) ∧ ∀ r ∈ x.1.conns, ∀ e ∈ [Event.serverRead r, .serverWrite r,
          .clientRead r, .clientWrite r], (x.1.step (split ChatClient.isBlank) e).isNone = true)) = some true := by
    decide +kernel
  obtain ⟨⟨s, out⟩, hx, hdec⟩ := Option.map_eq_some_iff.1 hsome
  obtain ⟨hid, hrun, hrest⟩ := of_decide_eq_true hdec
  have hr := Machine.run_of_exec hx
  obtain ⟨scores, hafter, hscores, -⟩ := scores_eq (tokens_split _) hr
  refine ⟨s, out, scores, hr, hafter, ((hscores 1 0 hid).2 hrun (atRest_iff.2 hrest)).trans ?_⟩
  decide +kernel

end System

end Torinet
