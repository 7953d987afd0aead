import Torinet.Client.Failures

/-!
# Failures stay on their connection

Whatever fails elsewhere, a connection on which nothing fails goes on: each of its sessions waits for something to read,
and writes as long as something waits to be sent (`TcpSession.Going`, `Intact`). So once such a connection is at rest,
nothing is missing on it: what was typed at its client has been asked for, and what has been sent to its client has been
heard (`whole_at_rest`).
-/

namespace Torinet

open Lib

namespace TcpSession

variable {p p' : TcpSession} {e : Event} {o : List Out}

/-- Something is being read, and something is being written while something waits to be sent. -/
structure Going (p : TcpSession) : Prop where
  reads : p.reads ≠ []
  writes : p.writes = [] → p.sendQue = []

/-- The completion of a read or of a write, with an error. -/
def Event.fails : Event → Bool
  | .readDone _ (.error _) | .writeDone _ (some _) => true
  | _ => false

theorem going_new (hreads : p.reads = [.header hdrLength]) (hq : p.sendQue = []) : p.Going where
  reads hnil := by
    rw [hreads] at hnil
    cases hnil
  writes _ := hq

theorem Going.step (h : p.Going) (hs : p.step e = some (p', o)) (he : e.fails = false) : p'.Going := by
  obtain ⟨hreads, hwrites⟩ := h
  cases step_path hs with
  | start => exact ⟨by simp, hwrites⟩
  | connectOk => exact ⟨by simp, hwrites⟩
  | sendIdle => exact ⟨hreads, by simp⟩
  | sendBusy overload msg hq => exact ⟨hreads, fun hnil => absurd (hwrites hnil) hq⟩
  | headerRejected => exact ⟨by simp, hwrites⟩
  | headerAccepted => exact ⟨by simp, hwrites⟩
  | bodyOk => exact ⟨by simp, hwrites⟩
  | headerError => cases he
  | bodyError => cases he
  | writeError => cases he
  | writeLast => exact ⟨hreads, fun _ => rfl⟩
  | writeNext => exact ⟨hreads, by simp⟩
  | _ => exact ⟨hreads, hwrites⟩

theorem Going.sent (h : p.Going) (hp : Sent p p') : p'.Going := by
  induction hp with
  | refl => exact h
  | @send q m _ ih =>
    have hs : q.step (.send .ref m) = some (q.sendRef m) := rfl
    exact ih.step hs rfl

end TcpSession

namespace ChatServer

variable {s s' : ChatServer} {e : Event} {o : List Out} {r : Nat} {p : TcpSession}

/-- A session of the server goes on, unless it is its own read or write that fails. -/
theorem going_of_step (hs : s.step e = some (s', o)) (hp : s.server.objs[r]? = some p) (h : p.Going)
    (he : ∀ ev, e.toServer = .session r ev → ev.fails = false) :
    ∃ p', s'.server.objs[r]? = some p' ∧ p'.Going := by
  rcases session_of_step hs hp with ⟨ev, p₁, p', outs, hev, hps, hp', hsent, -⟩ | ⟨p', -, hp', hsent, -⟩
  · exact ⟨p', hp', (h.step hps (he ev hev)).sent hsent⟩
  · exact ⟨p', hp', h.sent hsent⟩

end ChatServer

namespace ChatNetwork

open ChatServer (others registered relayed)
open TcpSession (Going delivery sentMsgs written)
open Torinet.System (Seen atServer meaning)

variable {boostSplit : List UInt8 → SplitVector} {config : ServerConfig} {s s' s₁ s₂ : ChatNetwork} {e : Event}
  {es es₁ es₂ : List Event} {out out₁ out₂ seen : List Seen} {q r : Nat} {c : Client} {as : List System.Act}
  {bytes : List UInt8} {ev : TcpSession.Event} {p : TcpSession}

/-- Something fails on the connection `r`. -/
def Event.failsAt (r : Nat) : Event → Bool
  | .serverRead q (some _) | .serverWrite q (some _) | .clientRead q (some _) | .clientWrite q (some _) => q == r
  | .breakUp q _ | .breakDown q _ => q == r
  | _ => false

/-- On the connection `r` nothing is being written, and less has arrived than is asked for. -/
structure AtRest (s : ChatNetwork) (r : Nat) : Prop where
  server : ∀ p, s.server.server.objs[r]? = some p → p.writes = [] ∧ arrived p (s.up r) = none
  client : (s.client r).session.writes = [] ∧ arrived (s.client r).session (s.down r) = none

/-- Nothing has failed on the connection `r`, whose session at the server is `p`. -/
structure Intact (s : ChatNetwork) (r : Nat) (p : TcpSession) : Prop where
  server : p.Going
  client : (s.client r).session.Going
  up : (s.up r).broken = false
  down : (s.down r).broken = false

/-! ## Every step keeps it -/

/-- **The server takes a step.** -/
theorem Intact.serverStep {ev : ChatServer.Event} {u : Nat → Link UInt8} (h : Intact s r p)
    (hs : ({ s with up := u } : ChatNetwork).serverStep ev = some (s', seen))
    (hp : s.server.server.objs[r]? = some p) (he : ∀ ev', ev.toServer = .session r ev' → ev'.fails = false)
    (hu : (u r).broken = (s.up r).broken) : ∃ p', s'.server.server.objs[r]? = some p' ∧ Intact s' r p' := by
  obtain ⟨⟨t, outs⟩, hstep, heq⟩ := Option.map_eq_some_iff.1 hs
  obtain ⟨rfl, rfl⟩ := Prod.mk.inj heq
  obtain ⟨p', hp', hgoing⟩ := ChatServer.going_of_step hstep hp h.server he
  exact ⟨p', hp', hgoing, h.client, hu.trans h.up, (Link.broken_put _ _).trans h.down⟩

/-- **A client takes a step.** -/
theorem Intact.clientStep {v : Nat → Link UInt8} (h : Intact s r p)
    (hs : ({ s with down := v } : ChatNetwork).clientStep q ev = some (s', seen)) (he : q = r → ev.fails = false)
    (hv : (v r).broken = (s.down r).broken) : Intact s' r p := by
  obtain ⟨c, o, hps, rfl, -⟩ := clientStep_inv hs
  have hps : (s.client q).session.step ev = some (c.session, o) := hps
  by_cases hr : q = r
  · subst hr
    refine ⟨h.server, ?_, ?_, hv.trans h.down⟩
    · simpa only [setClient, Function.update_self] using h.client.step hps (he rfl)
    · simpa only [setClient, Function.update_self, Link.broken_put] using h.up
  · refine ⟨h.server, ?_, ?_, hv.trans h.down⟩
    · simpa only [setClient, Function.update_of_ne (Ne.symm hr)] using h.client
    · simpa only [setClient, Function.update_of_ne (Ne.symm hr)] using h.up

/-- **A line is typed.** -/
theorem Intact.command {mem : Msg} {line : List UInt8} (h : Intact s r p)
    (hsplit : Tokens ChatClient.isBlank line (boostSplit line))
    (hs : s.command boostSplit q mem line = some (s', seen)) : Intact s' r p ∧ s'.server = s.server := by
  obtain ⟨c, o, b, rfl, -, hcases⟩ := command_inv hsplit hs
  refine ⟨?_, rfl⟩
  by_cases hr : q = r
  · subst hr
    have hgoing : c.session.Going := by
      rcases hcases with ⟨hsession, -⟩ | ⟨m, a, hsession, -⟩
      · exact hsession ▸ h.client
      · exact hsession ▸ h.client.sent (.send m .refl)
    refine ⟨h.server, ?_, ?_, h.down⟩
    · simpa only [setClient, Function.update_self] using hgoing
    · simpa only [setClient, Function.update_self, Link.broken_put] using h.up
  · refine ⟨h.server, ?_, ?_, h.down⟩
    · simpa only [setClient, Function.update_of_ne (Ne.symm hr)] using h.client
    · simpa only [setClient, Function.update_of_ne (Ne.symm hr)] using h.up

theorem broken_update_drop (l : Nat → Link UInt8) (q r n : Nat) :
    (Function.update l q ((l q).drop n) r).broken = (l r).broken := by
  by_cases hr : r = q
  · subst hr
    rw [Function.update_self, Link.broken_drop]
  · rw [Function.update_of_ne hr]

theorem broken_update_cut (l : Nat → Link UInt8) {q r : Nat} (hr : (q == r) = false) (n : Nat) :
    (Function.update l q ((l q).cut n) r).broken = (l r).broken := by
  rw [Function.update_of_ne (by simpa using Ne.symm (ne_of_beq_false hr))]

/-- **Every step keeps it** that fails elsewhere, or not at all. -/
theorem Intact.step (hsplit : ∀ line, Tokens ChatClient.isBlank line (boostSplit line)) (h : Intact s r p)
    (hp : s.server.server.objs[r]? = some p) (hs : s.step boostSplit e = some (s', seen))
    (he : e.failsAt r = false) : ∃ p', s'.server.server.objs[r]? = some p' ∧ Intact s' r p' := by
  -- a completion at the session `q` of the server does not fail at `r`
  have hown : ∀ {ev : ChatServer.Event} {ev' : TcpSession.Event} {q : Nat}, ev.toServer = .session q ev' →
      (q = r → ev'.fails = false) → ∀ ev'', ev.toServer = .session r ev'' → ev''.fails = false := by
    intro ev ev' q hev hfails ev'' hev'
    obtain ⟨hq, rfl⟩ := TcpServer.Event.session.inj (hev.symm.trans hev')
    exact hfails hq
  have hne : ∀ {q : Nat}, (q == r) = false → q ≠ r := fun hq => ne_of_beq_false hq
  cases e with
  | connect a ep mem =>
    obtain ⟨t, outs, c, hstep, -, rfl, -⟩ := connect_inv hs
    obtain ⟨p', hp', hgoing⟩ := ChatServer.going_of_step hstep hp h.server (by simp [ChatServer.Event.toServer])
    have hr : r ≠ s.server.server.objs.length := Nat.ne_of_lt (List.getElem?_eq_some_iff.1 hp).1
    obtain ⟨hclient, hup, hdown⟩ := joined_ne (t := t) (c := c) hr
    exact ⟨p', hp', hgoing, hclient ▸ h.client, hup ▸ h.up, hdown ▸ h.down⟩
  | acceptError ec => exact h.serverStep (u := s.up) hs hp (by simp [ChatServer.Event.toServer]) rfl
  | command q mem line =>
    simp only [ChatNetwork.step, Option.ite_none_right_eq_some] at hs
    obtain ⟨h', hserver⟩ := h.command (hsplit line) hs.2
    exact ⟨p, hserver ▸ hp, h'⟩
  | serverRead q ec =>
    cases ec with
    | some ec => exact h.serverStep (u := s.up) hs hp (hown rfl fun hq => absurd hq (hne he)) rfl
    | none =>
      obtain ⟨p₁, -, hs⟩ := Option.bind_eq_some_iff.1 hs
      obtain ⟨bs, -, hs⟩ := Option.bind_eq_some_iff.1 hs
      exact h.serverStep hs hp (hown rfl fun _ => rfl) (broken_update_drop _ _ _ _)
  | serverWrite q ec =>
    refine h.serverStep (u := s.up) hs hp (hown rfl fun hq => ?_) rfl
    cases ec with
    | some ec => exact absurd hq (hne he)
    | none => rfl
  | clientRead q ec =>
    simp only [ChatNetwork.step, Option.ite_none_right_eq_some] at hs
    obtain ⟨-, hs⟩ := hs
    cases ec with
    | some ec =>
      have h' := h.clientStep (v := s.down) hs (fun hq => absurd hq (hne he)) rfl
      exact ⟨p, (server_of_clientStep hs).1 ▸ hp, h'⟩
    | none =>
      obtain ⟨bs, -, hs⟩ := Option.bind_eq_some_iff.1 hs
      have h' := h.clientStep hs (fun _ => rfl) (broken_update_drop _ _ _ _)
      exact ⟨p, (server_of_clientStep hs).1 ▸ hp, h'⟩
  | clientWrite q ec =>
    simp only [ChatNetwork.step, Option.ite_none_right_eq_some] at hs
    have h' := h.clientStep (v := s.down) hs.2 (fun hq => ?_) rfl
    · exact ⟨p, (server_of_clientStep hs.2).1 ▸ hp, h'⟩
    · cases ec with
      | some ec => exact absurd hq (hne he)
      | none => rfl
  | breakUp q n =>
    obtain ⟨rfl, rfl⟩ := Prod.mk.inj (Option.some.inj hs)
    exact ⟨p, hp, h.server, h.client, (broken_update_cut _ he n).trans h.up, h.down⟩
  | breakDown q n =>
    obtain ⟨rfl, rfl⟩ := Prod.mk.inj (Option.some.inj hs)
    exact ⟨p, hp, h.server, h.client, h.up, (broken_update_cut _ he n).trans h.down⟩

theorem Intact.run (hsplit : ∀ line, Tokens ChatClient.isBlank line (boostSplit line)) (h : Intact s r p)
    (hp : s.server.server.objs[r]? = some p) (hr : (machine boostSplit).Run s es s' out)
    (hok : ∀ e ∈ es, e.failsAt r = false) : ∃ p', s'.server.server.objs[r]? = some p' ∧ Intact s' r p' := by
  induction hr with
  | nil => exact ⟨p, hp, h⟩
  | snoc _ hs ih =>
    obtain ⟨p₁, hp₁, h₁⟩ := ih fun e he => hok e (List.mem_append_left _ he)
    exact h₁.step hsplit hp₁ hs (hok _ (by simp))

/-- **A connection that has just been made** is intact. -/
theorem intact_connect (hs : s.step boostSplit e = some (s', seen)) (hold : s.server.server.objs.length ≤ r)
    (hnew : r < s'.server.server.objs.length) : ∃ p, s'.server.server.objs[r]? = some p ∧ Intact s' r p := by
  obtain ⟨⟨a, ep, mem, rfl⟩, -, -⟩ := connect_of_length hs (Nat.lt_of_le_of_lt hold hnew)
  obtain ⟨t, outs, c, hstep, hc, rfl, -⟩ := connect_inv hs
  obtain ⟨-, hobjs⟩ := ChatServer.objs_of_accept hstep
  rw [joined_server] at hnew ⊢
  rcases hobjs with hsame | ⟨p, happend, hreads, hq, -⟩
  · rw [hsame] at hnew
    omega
  · have hr : r = s.server.server.objs.length := by
      rw [happend, List.length_append, List.length_singleton] at hnew
      omega
    subst hr
    obtain ⟨hcq, -, hcreads⟩ := System.session_of_start hc
    obtain ⟨hclient, hup, hdown⟩ := joined_self s t c
    refine ⟨p, ?_, TcpSession.going_new hreads hq, ?_, ?_, ?_⟩
    · rw [happend, List.getElem?_concat_length]
    · rw [hclient]
      exact TcpSession.going_new hcreads hcq
    · rw [hup]
      rfl
    · rw [hdown]
      rfl

/-! ## At rest -/

/-- A client that has nothing more to send has put all that it was told to say on its way. -/
theorem Said.whole (h : Said c as bytes) (hq : c.session.sendQue = []) :
    ∃ ms : List Msg, (∀ m ∈ ms, m.Sound) ∧ ms.map meaning = as.map some ∧ bytes = ms.flatMap Msg.wire := by
  obtain ⟨ep, mem, evs, outs, hr, rfl, hmean, hsound⟩ := h
  have hsends := TcpSession.sends_run hr
  have hqueue : (TcpSession.outbox evs).queue = [] := hsends.queue.symm.trans hq
  have hsent : (TcpSession.outbox evs).handed = sentMsgs evs := by
    have hall := (TcpSession.outbox evs).take_append_queue
    rw [hqueue, List.append_nil] at hall
    rw [Outbox.handed_eq, hqueue, hall, TcpSession.sent_outbox]
    exact List.append_nil _
  exact ⟨sentMsgs evs, hsound, hmean, by rw [hsends.bytes, hsent]⟩

/-- What was typed at the client has been asked for. -/
theorem Line.asked_whole (hl : Line es out s r p) (h : Intact s r p) (hp : s.server.server.objs[r]? = some p)
    (hrest : AtRest s r) : Hub.ofOne r (System.journal out) = acts r es := by
  obtain ⟨bytes, hsaid, hc⟩ := hl.up
  obtain ⟨ms, hms, hmean, hbytes⟩ := hsaid.whole (h.client.writes hrest.client.1)
  have hmap := hc.whole h.up h.server.reads (hrest.server p hp).2 hbytes hms
  obtain ⟨f, hf⟩ := meaning_eq
  have hmeaning : (ChatServer.deliveredOf r (atServer out)).map meaning = (acts r es).map some := by
    rw [← hmean]
    simpa only [List.map_map, Function.comp_def, ← hf] using congrArg (List.map f) hmap
  have hsome := congrArg (List.filterMap id) hmeaning
  rw [ofOne_journal]
  simpa [List.filterMap_map, Function.comp_def] using hsome

/-- What has been sent to the client has been heard. -/
theorem Line.told_whole {evs : List ChatServer.Event} (hl : Line es out s r p) (h : Intact s r p)
    (hr : ChatServer.machine.Run ((ChatServer.new config).start true) evs s.server (atServer out))
    (hp : s.server.server.objs[r]? = some p) (hms : ∀ m ∈ relayed r (atServer out), m.Sound) (hrest : AtRest s r) :
    (heard r out).map delivery = (relayed r (atServer out)).map delivery := by
  obtain ⟨-, hsent, hwritten, -⟩ := ChatServer.written_relayed hr hp
  have hq := h.server.writes (hrest.server p hp).1
  rw [hq, List.append_nil] at hsent
  rw [hq, List.head?_nil, Option.toList_none, List.append_nil, ← hsent] at hwritten
  exact hl.down.whole h.down h.client.reads hrest.client.2 hwritten hms

/-- **Failures stay on their connection**: in every run, whatever fails elsewhere, if nothing has failed on a connection
and it is at rest, then the message handler of the server has been called for exactly what was typed at its client, and
the message handler of the client for exactly what was sent to it since it has connected; which is all that is handled
of the others, as long as the session is registered. -/
theorem whole_at_rest (hsplit : ∀ line, Tokens ChatClient.isBlank line (boostSplit line))
    (hr₁ : (machine boostSplit).Run (new config) es₁ s₁ out₁) (hs : s₁.step boostSplit e = some (s₂, seen))
    (hr₂ : (machine boostSplit).Run s₂ es₂ s out₂) (hold : s₁.server.server.objs.length ≤ r)
    (hnew : r < s₂.server.server.objs.length) (hok : ∀ e ∈ es₂, e.failsAt r = false) (hrest : AtRest s r) :
    Hub.ofOne r (System.journal (out₁ ++ seen ++ out₂)) = acts r (es₁ ++ [e] ++ es₂) ∧
    (heard r out₂).map delivery = (relayed r (atServer out₂)).map delivery ∧
    (r ∈ registered s.server.server → (heard r out₂).map delivery = (others r (atServer out₂)).map delivery) := by
  have hr := (hr₁.snoc hs).append hr₂
  have hl := lines_run hsplit hr
  obtain ⟨evs₂, hserver₂⟩ := server_run hr₂
  obtain ⟨evs, hserver⟩ := server_run hr
  obtain ⟨p₂, hp₂, hintact₂⟩ := intact_connect hs hold hnew
  obtain ⟨p, hp, hintact⟩ := hintact₂.run hsplit hp₂ hr₂ hok
  obtain ⟨hheard, hrelayed⟩ := nothing_before hsplit hr₁ hs hold hnew
  have htold := (hl.line r p hp).told_whole hintact hserver hp (hl.sound_relayed hserver) hrest
  rw [heard_append, hheard, List.nil_append, System.atServer_append, ChatServer.relayed_append, hrelayed,
    List.nil_append] at htold
  refine ⟨(hl.line r p hp).asked_whole hintact hp hrest, htold, fun hmem => ?_⟩
  rw [htold, (ChatServer.relayed_run hserver₂ hnew).2.2 hmem]

/-- A third client connects and breaks off, while the first one says "hi" to the second one. -/
def thirdBreaks : List Event :=
  [oneConnects, .command 0 .zero (ascii "send hi"), .serverRead 0 none, .breakDown 2 9, .serverRead 0 none,
    .clientRead 2 (some .eof), .clientRead 1 none, .serverWrite 2 (some (.other 104)), .serverWrite 1 none,
    .clientRead 1 none]

theorem whole_at_rest_thirdBreaks : ∃ (s₁ s₂ s : ChatNetwork) (out₁ seen out₂ : List Seen),
    (machine (split ChatClient.isBlank)).Run (new ⟨3⟩) [oneConnects] s₁ out₁ ∧
    s₁.step (split ChatClient.isBlank) oneConnects = some (s₂, seen) ∧
    (machine (split ChatClient.isBlank)).Run s₂ thirdBreaks s out₂ ∧ s₁.server.server.objs.length ≤ 1 ∧
    1 < s₂.server.server.objs.length ∧ (∀ e ∈ thirdBreaks, e.failsAt 1 = false) ∧ AtRest s 1 ∧
    (others 1 (atServer out₂)).length = 1 ∧
    Hub.ofOne 1 (System.journal (out₁ ++ seen ++ out₂)) = acts 1 ([oneConnects] ++ [oneConnects] ++ thirdBreaks) ∧
    (heard 1 out₂).map delivery = (relayed 1 (atServer out₂)).map delivery ∧
    (1 ∈ registered s.server.server →
      (heard 1 out₂).map delivery = (others 1 (atServer out₂)).map delivery) := by
  have hr : ∃ (s₁ s₂ : ChatNetwork) (out₁ seen : List Seen),
      (machine (split ChatClient.isBlank)).Run (new ⟨3⟩) [oneConnects] s₁ out₁ ∧
      s₁.step (split ChatClient.isBlank) oneConnects = some (s₂, seen) ∧ s₁.server.server.objs.length ≤ 1 ∧
      1 < s₂.server.server.objs.length ∧
      (((machine (split ChatClient.isBlank)).exec s₂ thirdBreaks).map fun x =>
        (x.1.server.server.objs[1]?.all (fun p => p.writes.isEmpty && (arrived p (x.1.up 1)).isNone),
          (x.1.client 1).session.writes.isEmpty && (arrived (x.1.client 1).session (x.1.down 1)).isNone,
          (others 1 (atServer x.2)).length)) = some (true, true, 1) :=
    ⟨_, _, _, _, Machine.run_of_exec rfl, rfl, by decide, by decide, by decide +kernel⟩
  obtain ⟨s₁, s₂, out₁, seen, hr₁, hs, hold, hnew, hexec⟩ := hr
  obtain ⟨⟨s, out₂⟩, hx, hfinal⟩ := Option.map_eq_some_iff.1 hexec
  obtain ⟨hserver, hclient, hone⟩ := by simpa only [Prod.mk.injEq] using hfinal
  have hr₂ := Machine.run_of_exec hx
  have hrest : AtRest s 1 := by
    refine ⟨fun p hp => ?_, ?_⟩
    · rw [hp] at hserver
      simpa using hserver
    · simpa using hclient
  have hok : ∀ e ∈ thirdBreaks, e.failsAt 1 = false := by decide
  exact ⟨s₁, s₂, s, out₁, seen, out₂, hr₁, hs, hr₂, hold, hnew, hok, hrest, hone,
    whole_at_rest (tokens_split _) hr₁ hs hr₂ hold hnew hok hrest⟩

end ChatNetwork

end Torinet
