import Torinet.Server.Registry

/-!
# Closing sessions

`handleClose` gives the id of a session back each time the session reports its end, and a session reports its end each
time one of its writes or body reads fails; a header read that fails is not reported. So a session can be closed twice,
or never.

* `agrees_iff`: ids are unique and the registry agrees with the sessions iff no session fails twice.
* `noLeak_iff`: a session is gone from the registry once one of its reads has failed, iff no read of a header fails in a
  session that has not failed before.
-/

namespace Torinet

open Lib

namespace TcpServer

variable {config : ServerConfig} {s s' : TcpServer} {e : Event} {es : List Event} {out o : List Out} {r : Nat}
  {id : Int} {free : List Int} {a : Accepted} {p p' : TcpSession} {ev : TcpSession.Event}

/-! ## Unique ids -/

/-- No id is free twice, or free and registered, and a session that has not reported its end is registered under its
id. -/
def Agrees (_ : List Event) (s : TcpServer) (out : List Out) : Prop :=
  s.freeSessionId.Nodup ∧ (∀ id ∈ s.freeSessionId, id ∉ s.sessions) ∧
    ∀ r id, s.sessionId r = some id → ¬ Closed r out → s.getSession id = some r

/-- The event is no failure that is reported, in a session that has reported its end before. -/
def FailsOnce (_ : List Event) (s : TcpServer) (out : List Out) (e : Event) : Prop :=
  ∀ r ev p, e = .session r ev → s.objs[r]? = some p → p.Fails ev → ¬ Closed r out

/-- What a run in which no session fails twice keeps. -/
structure Agreement (config : ServerConfig) (s : TcpServer) (out : List Out) : Prop extends Registry config s out where
  exact : s.pool.Exact
  live : ∀ r id, s.sessionId r = some id → ¬ Closed r out → s.sessions[id]? = some r

theorem Agreement.agrees (h : Agreement config s out) : Agrees es s out := by
  refine ⟨h.exact.nodup, fun id hid hm => ?_, h.live⟩
  have hnone : s.sessions[id]? = none := h.exact.disjoint id hid
  rw [← Std.TreeMap.isSome_getElem?_iff_mem, hnone] at hm
  cases hm

theorem agreement_listen (config : ServerConfig) : Agreement config (new config).listen [] where
  toRegistry := registry_listen config
  exact := by
    refine ⟨?_, fun id _ => by simp [pool, listen, startAccept, new]⟩
    exact List.nodup_range.map fun i j hij => by omega
  live r id h := by simp [sessionId, listen, startAccept, new] at h

/-- An exact pool stays exact when a connection is accepted, and the new session is registered. -/
theorem Agreement.accepted (h : Agreement config s out) (hf : s.freeSessionId = id :: free) (a : Accepted) :
    (s.accepted a id free).pool.Exact ∧
      ∀ r id', (s.accepted a id free).sessionId r = some id' → ¬ Closed r out →
        (s.accepted a id free).sessions[id']? = some r := by
  have hpool := pool_accepted (a := a) hf
  refine ⟨hpool ▸ h.exact.acquire _, fun r id' hid hr => ?_⟩
  have hreg : (s.accepted a id free).sessions[id']? = Function.update s.pool.used id (some s.objs.length) id' := by
    rw [← h.exact.used_acquire (p := s.pool) hf, ← hpool]
    rfl
  rw [hreg]
  by_cases hlt : r < s.objs.length
  · rw [sessionId_accepted_old hlt] at hid
    have hlive := h.live r id' hid hr
    have hne : id' ≠ id := fun heq => by
      have hnone : s.sessions[id]? = none := h.exact.disjoint id (by simp [pool, hf])
      rw [heq, hnone] at hlive
      cases hlive
    rw [Function.update_of_ne hne]
    exact hlive
  · have hlt' := lt_of_sessionId hid
    have hlen : (s.accepted a id free).objs.length = s.objs.length + 1 := by simp [TcpServer.accepted]
    obtain rfl : r = s.objs.length := by omega
    obtain rfl : id = id' := Option.some.inj (sessionId_accepted_new.symm.trans hid)
    rw [Function.update_self]

/-- An exact pool stays exact when a registered session gives its id back, and all others stay registered. -/
theorem Agreement.released (reason : CloseReason) (h : Agreement config s out) (hid : s.sessionId r = some id)
    (hr : ¬ Closed r out) : (s.released id).pool.Exact ∧
      ∀ q id', s.sessionId q = some id' → ¬ Closed q (out ++ [(r, .closed reason)]) →
        (s.released id).sessions[id']? = some q := by
  have hreg : s.sessions[id]? = some r := h.live r id hid hr
  refine ⟨?_, fun q id' hid' hq => ?_⟩
  · rw [pool_released]
    exact h.exact.release fun hn => by rw [show s.sessions[id]? = none from hn] at hreg; cases hreg
  · rw [closed_append, closed_singleton, not_or] at hq
    have hlive := h.live q id' hid' hq.1
    have hne : id' ≠ id := fun heq => by
      rw [heq, hreg] at hlive
      exact hq.2 (Option.some.inj hlive).symm
    simpa [TcpServer.released, Std.TreeMap.getElem?_erase, Ne.symm hne] using hlive

/-- **A step keeps it**, unless it makes a session fail twice. -/
theorem agreement_step (he : e.Running) (h : Agreement config s out) (hs : s.step e = some (s', o))
    (honce : FailsOnce es s out e) : Agreement config s' (out ++ o) := by
  have hrest : s'.pool.Exact ∧
      ∀ r id, s'.sessionId r = some id → ¬ Closed r (out ++ o) → s'.sessions[id]? = some r := by
    cases step_path hs with
    | start | stop => exact absurd he id
    | acceptError ec ha | acceptRefused a ha hfull | stale res ha hres =>
      rw [List.append_nil]
      exact ⟨h.exact, h.live⟩
    | acceptOk a id free ha hroom hf =>
      obtain ⟨hexact, hlive⟩ := h.accepted hf a
      exact ⟨hexact, fun q id' hid hq => hlive q id' hid fun hc => hq (closed_append.2 (Or.inl hc))⟩
    | session r ev p p' outs hp hps hf =>
      refine ⟨h.exact, fun q id' hid hq => ?_⟩
      rw [sessionId_setObj hp (TcpSession.step_id hps)] at hid
      exact h.live q id' hid fun hc => hq (closed_append.2 (Or.inl hc))
    | sessionFails r ev p p' reason hp hps hf =>
      have hid : s.sessionId r = some p.id := by rw [sessionId, hp, Option.map_some]
      obtain ⟨hexact, hlive⟩ := h.released reason hid (honce r ev p rfl hp hf)
      refine ⟨hexact, fun q id' hid' hq => hlive q id' ?_ hq⟩
      rwa [sessionId_released, sessionId_setObj hp (TcpSession.step_id hps)] at hid'
  exact { registry_step he h.toRegistry hs with exact := hrest.1, live := hrest.2 }

/-- A session that fails twice gives back an id that is free, or takes it from the session that has it now. -/
theorem not_agrees_of_failsTwice (h : Agreement config s out) (hs : s.step e = some (s', o))
    (htwice : ¬ FailsOnce es s out e) : ¬ Agrees (es ++ [e]) s' (out ++ o) := by
  simp only [FailsOnce] at htwice
  push Not at htwice
  obtain ⟨r, ev, p, rfl, hp, hf, hr⟩ := htwice
  have hpath := step_path (e := .session r ev) hs
  cases hpath with
  | session _ _ p₁ p' outs hp₁ hps hf₁ =>
    obtain rfl : p = p₁ := Option.some.inj (hp.symm.trans hp₁)
    exact absurd hf hf₁
  | sessionFails _ _ p₁ p' reason hp₁ hps hf₁ =>
    obtain rfl : p = p₁ := Option.some.inj (hp.symm.trans hp₁)
    rintro ⟨hnodup, -, hlive⟩
    have hid : s.sessionId r = some p.id := by rw [sessionId, hp, Option.map_some]
    -- the session is not registered any more, so its id is free, or another session's by now
    rcases h.covers p.id (h.sessionIds r _ hid) with hfree | hused
    · exact Pool.not_nodup_release (p := s.pool) hfree hnodup
    · obtain ⟨q, hq⟩ := Option.ne_none_iff_exists'.1 hused
      have hqr : q ≠ r := fun heq => h.unregistered r hr p.id (heq ▸ hq)
      have hqc : ¬ Closed q (out ++ [(r, .closed reason)]) := by
        rw [closed_append, closed_singleton, not_or]
        exact ⟨fun hc => h.unregistered q hc p.id hq, hqr⟩
      have hqid : ((s.setObj r p').released p.id).sessionId q = some p.id := by
        rw [sessionId_released, sessionId_setObj hp (TcpSession.step_id hps)]
        exact h.key p.id q hq
      have hget := hlive q p.id hqid hqc
      simp [getSession, TcpServer.released] at hget

/-- **When ids are unique and the registry agrees**: throughout a run of a started server, iff no session whose closed
handler has been called has another write or body read fail. -/
theorem agrees_iff (hr : machine.Run (new config).listen es s out) (hes : ∀ e ∈ es, e.Running) :
    machine.Always (new config).listen Agrees es ↔ machine.Steps (new config).listen FailsOnce es :=
  Machine.always_iff_steps (I := fun _ s out => Agreement config s out) (agreement_listen config) Agreement.agrees
    (fun he _ h hs honce => agreement_step he h hs honce) (fun _ _ h hs htwice => not_agrees_of_failsTwice h hs htwice)
    hr hes

/-- A session fails to read a body, and then to write. -/
def failsTwice : List Event :=
  [.accept (.ok .loopback), .session 0 (.send .ref .zero), .session 0 (.readDone 0 (.ok [1, 0, 2, 0, 3, 0, 0, 0])),
    .session 0 (.readDone 0 (.error .eof)), .session 0 (.writeDone 0 (some (.other 104)))]

/-- The id of the session is free twice. -/
theorem failsTwice_not_agrees : ∃ s out, (∀ e ∈ failsTwice, e.Running) ∧
    machine.Run (new ⟨1⟩).listen failsTwice s out ∧ ¬ Agrees failsTwice s out := by
  refine ⟨_, _, ?_, Machine.run_of_exec rfl, fun h => absurd h.1 (by decide)⟩
  simp [failsTwice, Event.Running]

theorem agrees_iff_failsTwice :
    machine.Always (new ⟨1⟩).listen Agrees failsTwice ↔ machine.Steps (new ⟨1⟩).listen FailsOnce failsTwice :=
  agrees_iff (Machine.run_of_exec rfl) (by simp [failsTwice, Event.Running])

/-! ## Sessions that are left behind -/

/-- The sessions that have a read outstanding. -/
def reading (s : TcpServer) : List Nat :=
  (List.range s.objs.length).filter fun r => (s.objs[r]?).any fun p => !p.reads.isEmpty

/-- A session whose read has failed has called its closed handler, is registered no longer, and its id is free or has
been given to a later session; and no more sessions are registered than have a read outstanding. -/
def NoLeak (es : List Event) (s : TcpServer) (out : List Out) : Prop :=
  (∀ r i ec, .session r (.readDone i (.error ec)) ∈ es →
    Closed r out ∧ (∀ id : Int, s.sessions[id]? ≠ some r) ∧
      ∃ id, s.sessionId r = some id ∧ (id ∈ s.freeSessionId ∨ ∃ r' > r, s.sessionId r' = some id)) ∧
  s.sessions.size ≤ s.reading.length

/-- The event is no header read that fails, in a session that has not reported its end before. -/
def FailsAloud (_ : List Event) (s : TcpServer) (out : List Out) (e : Event) : Prop :=
  ∀ r ev p, e = .session r ev → s.objs[r]? = some p → p.FailsSilently ev → Closed r out

/-- What a run keeps in which header reads fail in closed sessions only. -/
structure Unleaked (config : ServerConfig) (es : List Event) (s : TcpServer) (out : List Out) : Prop
    extends Registry config s out where
  readErrors : ∀ r i ec, .session r (.readDone i (.error ec)) ∈ es → Closed r out
  reads : ∀ r p, s.objs[r]? = some p → ¬ Closed r out → p.reads ≠ []

/-- Every registered session has a read outstanding, so there are no more of them. -/
theorem Unleaked.size_le (h : Unleaked config es s out) : s.sessions.size ≤ s.reading.length := by
  rw [← Std.TreeMap.length_toList, ← List.length_map Prod.snd]
  refine (List.subperm_of_subset h.nodup_values fun r hr => ?_).length_le
  obtain ⟨⟨id, r⟩, hx, rfl⟩ := List.mem_map.1 hr
  have hreg : s.sessions[id]? = some r := Std.TreeMap.mem_toList_iff_getElem?_eq_some.1 hx
  obtain ⟨p, hp, -⟩ := Option.map_eq_some_iff.1 (h.key id r hreg)
  have hreads : p.reads ≠ [] := h.reads r p hp fun hc => h.unregistered r hc id hreg
  refine List.mem_filter.2 ⟨List.mem_range.2 (List.getElem?_eq_some_iff.1 hp).1, ?_⟩
  simp [hp, hreads]

theorem Unleaked.noLeak (h : Unleaked config es s out) : NoLeak es s out := by
  refine ⟨fun r i ec he => ?_, h.size_le⟩
  have hr := h.readErrors r i ec he
  obtain ⟨p, hp⟩ : ∃ p, s.objs[r]? = some p := by
    obtain ⟨reason, hm⟩ := hr
    exact ⟨_, List.getElem?_eq_getElem (h.outs _ hm)⟩
  have hid : s.sessionId r = some p.id := by rw [sessionId, hp, Option.map_some]
  exact ⟨hr, h.unregistered r hr, p.id, hid, h.reused r p.id hr hid⟩

theorem unleaked_listen (config : ServerConfig) : Unleaked config [] (new config).listen [] where
  toRegistry := registry_listen config
  readErrors r i ec he := by cases he
  reads r p hp := by simp [listen, startAccept, new] at hp

/-- **A step keeps it**, unless a header read fails in silence. -/
theorem unleaked_step (he : e.Running) (h : Unleaked config es s out) (hs : s.step e = some (s', o))
    (haloud : FailsAloud es s out e) : Unleaked config (es ++ [e]) s' (out ++ o) := by
  have hmono : ∀ {r}, Closed r out → Closed r (out ++ o) := fun hc => closed_append.2 (Or.inl hc)
  -- only the events' own session can fail or lose its read; all others are as before
  have hrest : (∀ r i ec, e = .session r (.readDone i (.error ec)) → Closed r (out ++ o)) ∧
      ∀ r p, s'.objs[r]? = some p → ¬ Closed r (out ++ o) → p.reads ≠ [] := by
    cases step_path hs with
    | start | stop => exact absurd he id
    | acceptError ec ha | acceptRefused a ha hfull | stale res ha hres =>
      rw [List.append_nil]
      exact ⟨by simp, h.reads⟩
    | acceptOk a id free ha hroom hf =>
      refine ⟨by simp, fun q p hp hq => ?_⟩
      simp only [accepted, List.getElem?_append] at hp
      split at hp
      · exact h.reads q p hp fun hc => hq (hmono hc)
      · obtain rfl := List.mem_singleton.1 (List.mem_of_getElem? hp)
        simp [TcpSession.start, TcpSession.read, TcpSession.new]
    | session r ev p p' outs hp hps hf =>
      refine ⟨fun q i ec heq => ?_, fun q p₁ hp₁ hq => ?_⟩
      · obtain ⟨rfl, rfl⟩ := Event.session.inj heq
        exact hmono (haloud _ _ p rfl hp (TcpSession.fails_of_readError hps hf))
      · have hopen : ¬ Closed q out := fun hc => hq (hmono hc)
        by_cases hqr : q = r
        · subst hqr
          have hlt := (List.getElem?_eq_some_iff.1 hp).1
          obtain rfl : p' = p₁ := by simpa [setObj, hlt] using hp₁
          exact TcpSession.step_reads hps hf (fun hfs => hopen (haloud q ev p rfl hp hfs)) (h.reads q p hp hopen)
        · exact h.reads q p₁ (by simpa [setObj, List.getElem?_set_ne (Ne.symm hqr)] using hp₁) hopen
    | sessionFails r ev p p' reason hp hps hf =>
      refine ⟨fun q i ec heq => ?_, fun q p₁ hp₁ hq => ?_⟩
      · obtain ⟨rfl, -⟩ := Event.session.inj heq
        exact closed_append.2 (Or.inr (closed_singleton.2 rfl))
      · rw [closed_append, closed_singleton, not_or] at hq
        have hp₁ : (s.objs.set r p')[q]? = some p₁ := hp₁
        rw [List.getElem?_set_ne (Ne.symm hq.2)] at hp₁
        exact h.reads q p₁ hp₁ hq.1
  exact {
    registry_step he h.toRegistry hs with
    readErrors := fun r i ec hm => by
      rcases List.mem_append.1 hm with hm | hm
      · exact hmono (h.readErrors r i ec hm)
      · exact hrest.1 r i ec (List.mem_singleton.1 hm).symm
    reads := hrest.2 }

/-- A header read that fails in a session that is not closed leaves it open. -/
theorem not_noLeak_of_silent (hs : s.step e = some (s', o)) (hsilent : ¬ FailsAloud es s out e) :
    ¬ NoLeak (es ++ [e]) s' (out ++ o) := by
  simp only [FailsAloud] at hsilent
  push Not at hsilent
  obtain ⟨r, ev, p, rfl, hp, hfs, hr⟩ := hsilent
  obtain ⟨i, ec, n, rfl, hop⟩ := hfs.spec
  rintro ⟨herr, -⟩
  have hc := (herr r i ec (by simp)).1
  have hpath := step_path (e := .session r (.readDone i (.error ec))) hs
  cases hpath with
  | session _ _ p₁ p' outs hp₁ hps hf₁ =>
    exact ((closed_append.1 hc).elim hr) (not_closed_map hps hf₁)
  | sessionFails _ _ p₁ p' reason hp₁ hps hf₁ =>
    obtain rfl : p = p₁ := Option.some.inj (hp.symm.trans hp₁)
    obtain ⟨m, hm⟩ := hf₁
    rw [hop] at hm
    cases hm

/-- **When no session leaks**: throughout a run of a started server, iff no read of a header fails in a session whose
closed handler has not been called. -/
theorem noLeak_iff (hr : machine.Run (new config).listen es s out) (hes : ∀ e ∈ es, e.Running) :
    machine.Always (new config).listen NoLeak es ↔ machine.Steps (new config).listen FailsAloud es :=
  Machine.always_iff_steps (unleaked_listen config) Unleaked.noLeak
    (fun he _ h hs haloud => unleaked_step he h hs haloud) (fun _ _ _ hs hsilent => not_noLeak_of_silent hs hsilent)
    hr hes

/-- The peer of a session closes the connection between two messages. -/
def peerCloses : List Event := [.accept (.ok .loopback), .session 0 (.readDone 0 (.error .eof))]

/-- The session's closed handler is not called. -/
theorem peerCloses_leaks : ∃ s out, (∀ e ∈ peerCloses, e.Running) ∧
    machine.Run (new ⟨1⟩).listen peerCloses s out ∧ ¬ NoLeak peerCloses s out := by
  refine ⟨_, _, ?_, Machine.run_of_exec rfl, fun h => ?_⟩
  · simp [peerCloses, Event.Running]
  · obtain ⟨⟨reason, hm⟩, -⟩ := h.1 0 0 .eof (by simp [peerCloses])
    have hm : ((0, .closed reason) : Out) ∈ [(0, .opened), (0, .asyncRead (.header hdrLength))] := hm
    simp at hm

theorem noLeak_iff_peerCloses :
    machine.Always (new ⟨1⟩).listen NoLeak peerCloses ↔ machine.Steps (new ⟨1⟩).listen FailsAloud peerCloses :=
  noLeak_iff (Machine.run_of_exec rfl) (by simp [peerCloses, Event.Running])

end TcpServer

end Torinet
