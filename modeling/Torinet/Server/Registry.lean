import Mathlib.Data.Int.Interval
import Torinet.Lib.Pool
import Torinet.Server.Sessions

/-!
# The registry

The free ids and the map of sessions are a pool of ids (`Lib/Pool.lean`, `TcpServer.pool`): a connection that is
accepted takes an id, a session that reports its end gives its own back. `Registry` is what every run of a started
server keeps, whatever its sessions report and however often: no id gets lost, only registered sessions count as not yet
closed, and each is registered under its own id (`registry_run`).
-/

namespace Torinet

open Lib

namespace TcpServer

variable {config : ServerConfig} {s s' : TcpServer} {e : Event} {es : List Event} {out o : List Out} {r q : Nat}
  {id : Int} {free : List Int} {a : Accepted} {p p' : TcpSession}
  {ev : TcpSession.Event} {o' : List TcpSession.Out}

/-- The closed handler of the session `r` has been called. -/
def Closed (r : Nat) (out : List Out) : Prop := ∃ reason, (r, .closed reason) ∈ out

/-- The id of the session `r`. -/
def sessionId (s : TcpServer) (r : Nat) : Option Int := (s.objs[r]?).map TcpSession.id

/-- The ids of a server. -/
def ids (config : ServerConfig) : Set Int := {id | 1 ≤ id ∧ id ≤ config.maxSession}

/-- The free ids and the registry. -/
def pool (s : TcpServer) : Pool Int Nat := ⟨s.freeSessionId, fun id => s.sessions[id]?⟩

/-! ## What the steps do to the pool and to the ids -/

@[simp] theorem freeSessionId_setObj : (s.setObj r p).freeSessionId = s.freeSessionId := rfl

theorem pool_accepted (hf : s.freeSessionId = id :: free) :
    (s.accepted a id free).pool = s.pool.acquire s.objs.length := by
  simp only [pool, accepted, Pool.acquire, hf, Pool.mk.injEq, true_and]
  funext j
  rw [Std.TreeMap.getElem?_insertIfNew]
  by_cases hm : id ∈ s.sessions
  · simp [hm]
  · by_cases hj : j = id
    · subst hj
      simp [hm]
    · simp [hm, hj, Ne.symm hj]

@[simp] theorem pool_released : (s.released id).pool = s.pool.release id := by
  simp only [pool, released, Pool.release, Pool.mk.injEq, true_and]
  funext j
  by_cases hj : j = id
  · subst hj
    simp
  · simp [Std.TreeMap.getElem?_erase, hj, Ne.symm hj]

theorem sessionId_setObj (hp : s.objs[r]? = some p) (hid : p'.id = p.id) :
    (s.setObj r p').sessionId q = s.sessionId q := by
  by_cases hq : q = r
  · subst hq
    have hlt := (List.getElem?_eq_some_iff.1 hp).1
    rw [sessionId, sessionId, hp, setObj, List.getElem?_set_self hlt, Option.map_some, Option.map_some, hid]
  · simp [sessionId, setObj, List.getElem?_set_ne (Ne.symm hq)]

@[simp] theorem sessionId_released : (s.released id).sessionId q = s.sessionId q := rfl

theorem sessionId_accepted_new : (s.accepted a id free).sessionId s.objs.length = some id := by
  simp [sessionId, accepted, TcpSession.start, TcpSession.read, TcpSession.new]

theorem sessionId_accepted_old (hq : q < s.objs.length) :
    (s.accepted a id free).sessionId q = s.sessionId q := by
  simp [sessionId, accepted, List.getElem?_append_left hq]

theorem lt_of_sessionId (h : s.sessionId r = some id) : r < s.objs.length := by
  obtain ⟨p, hp, -⟩ := Option.map_eq_some_iff.1 h
  exact (List.getElem?_eq_some_iff.1 hp).1

/-- Sessions keep their ids. -/
theorem sessionId_step (hs : s.step e = some (s', o)) (he : e.Running) (h : s.sessionId q = some id) :
    s'.sessionId q = some id := by
  have hpath := step_path hs
  cases hpath with
  | start | stop => exact he.elim
  | acceptError | acceptRefused | stale => exact h
  | acceptOk a id' free ha hroom hf => rw [sessionId_accepted_old (lt_of_sessionId h), h]
  | session r ev p p' o hp hps hf => rw [sessionId_setObj hp (TcpSession.step_id hps), h]
  | sessionFails r ev p p' reason hp hps hf =>
    rw [sessionId_released, sessionId_setObj hp (TcpSession.step_id hps), h]

theorem closed_append {o : List Out} : Closed r (out ++ o) ↔ Closed r out ∨ Closed r o := by
  simp [Closed, exists_or]

/-- Sessions that do not fail report no end. -/
theorem not_closed_map {o : List TcpSession.Out} (hs : p.step ev = some (p', o)) (hf : ¬ p.Fails ev) :
    ¬ Closed q (o.map fun x => (r, x)) := by
  rintro ⟨reason, hm⟩
  obtain ⟨x, hx, heq⟩ := List.mem_map.1 hm
  obtain ⟨rfl, rfl⟩ := Prod.mk.inj heq
  exact hf ((TcpSession.fails_iff hs).2 ⟨reason, hx⟩)

theorem closed_singleton {reason : CloseReason} : Closed q [(r, .closed reason)] ↔ q = r := by
  simp [Closed]

theorem not_closed_accept {n : Nat} :
    ¬ Closed q [(n, .opened), (n, .asyncRead (.header hdrLength))] := by
  simp [Closed]

/-- At first every id is free. -/
theorem covers_listen (config : ServerConfig) : (new config).listen.pool.Covers (ids config) := by
  rintro id ⟨h₁, h₂⟩
  refine Or.inl (List.mem_map.2 ⟨id.toNat - 1, List.mem_range.2 ?_, ?_⟩) <;> omega

theorem within_listen (config : ServerConfig) : (new config).listen.pool.Within (ids config) := by
  refine ⟨fun id hid => ?_, fun id hid => absurd (by simp [pool, listen, startAccept, new]) hid⟩
  obtain ⟨i, hi, rfl⟩ := List.mem_map.1 hid
  have hi := List.mem_range.1 hi
  exact ⟨by omega, by omega⟩

/-- While no id is lost and a session more may be registered, an id is free. -/
theorem free_ne_nil_of_covers (h : s.pool.Covers (ids config)) (hlt : s.sessions.size < config.maxSession) :
    s.freeSessionId ≠ [] := by
  have hcovers : s.pool.Covers ↑(Finset.Icc (1 : Int) config.maxSession) := by
    rw [Finset.coe_Icc]
    exact h
  refine hcovers.free_ne_nil s.sessions.keys (fun id hid => ?_) ?_
  · rw [Std.TreeMap.mem_keys]
    by_contra hn
    exact hid (Std.TreeMap.getElem?_eq_none hn)
  · simpa [Std.TreeMap.length_keys] using hlt

/-! ## What every run keeps -/

/-- What a started server keeps, whatever its sessions report and however often. -/
structure Registry (config : ServerConfig) (s : TcpServer) (out : List Out) : Prop where
  config_eq : s.config = config
  started : s.state = .start
  /-- No id is lost. -/
  covers : s.pool.Covers (ids config)
  within : s.pool.Within (ids config)
  /-- Sessions are registered under their own ids. -/
  key : ∀ (id : Int) (r : Nat), s.sessions[id]? = some r → s.sessionId r = some id
  sessionIds : ∀ r id, s.sessionId r = some id → id ∈ ids config
  /-- A session that has reported its end is not registered; its id is free, or a later session has it. -/
  unregistered : ∀ r, Closed r out → ∀ id : Int, s.sessions[id]? ≠ some r
  reused : ∀ r id, Closed r out → s.sessionId r = some id →
    id ∈ s.freeSessionId ∨ ∃ r' > r, s.sessionId r' = some id
  outs : ∀ x ∈ out, x.1 < s.objs.length

theorem registry_listen (config : ServerConfig) : Registry config (new config).listen [] where
  config_eq := rfl
  started := rfl
  covers := covers_listen config
  within := within_listen config
  key id r h := by simp [listen, startAccept, new] at h
  sessionIds r id h := by simp [sessionId, listen, startAccept, new] at h
  unregistered r h := by simp [Closed] at h
  reused r id h := by simp [Closed] at h
  outs x hx := by cases hx

/-- Outputs that report nothing change nothing. -/
theorem Registry.quiet (h : Registry config s out) (ho : ∀ q, ¬ Closed q o) (hlt : ∀ x ∈ o, x.1 < s.objs.length) :
    Registry config s (out ++ o) :=
  { h with
    unregistered := fun q hq => h.unregistered q ((closed_append.1 hq).resolve_right (ho q))
    reused := fun q id hq => h.reused q id ((closed_append.1 hq).resolve_right (ho q))
    outs := fun x hx => (List.mem_append.1 hx).elim (h.outs x) (hlt x) }

/-- What a session does leaves the registry alone, as long as it keeps its id. -/
theorem Registry.setObj (h : Registry config s out) (hp : s.objs[r]? = some p) (hid : p'.id = p.id) :
    Registry config (s.setObj r p') out := by
  have hids : ∀ q, (s.setObj r p').sessionId q = s.sessionId q := fun q => sessionId_setObj hp hid
  exact {
    h with
    key := fun id q hq => (hids q).trans (h.key id q hq)
    sessionIds := fun q id hq => h.sessionIds q id ((hids q).symm.trans hq)
    reused := fun q id hq hqid => by
      simpa [hids] using h.reused q id hq ((hids q).symm.trans hqid)
    outs := fun x hx => (h.outs x hx).trans_eq List.length_set.symm }

/-- A session that reports its end gives its id back. -/
theorem Registry.released {reason : CloseReason} (h : Registry config s out) (hid : s.sessionId r = some id) :
    Registry config (s.released id) (out ++ [(r, .closed reason)]) where
  config_eq := h.config_eq
  started := h.started
  covers := by
    rw [pool_released]
    exact h.covers.release id
  within := by
    rw [pool_released]
    exact h.within.release (h.sessionIds r id hid)
  key j q hq := by
    simp only [TcpServer.released, Std.TreeMap.getElem?_erase] at hq
    split at hq
    · cases hq
    · exact h.key j q hq
  sessionIds q j hq := h.sessionIds q j hq
  unregistered q hq j hj := by
    simp only [TcpServer.released, Std.TreeMap.getElem?_erase] at hj
    split at hj
    · cases hj
    · rename_i hne
      rcases closed_append.1 hq with hq | hq
      · exact h.unregistered q hq j hj
      · rw [closed_singleton] at hq
        subst hq
        obtain rfl : id = j := Option.some.inj (hid.symm.trans (h.key j q hj))
        simp at hne
  reused q j hq hqj := by
    rcases closed_append.1 hq with hq | hq
    · rcases h.reused q j hq hqj with hfree | hlater
      · exact Or.inl (List.mem_append_left _ hfree)
      · exact Or.inr hlater
    · rw [closed_singleton] at hq
      subst hq
      obtain rfl : id = j := Option.some.inj (hid.symm.trans hqj)
      exact Or.inl (List.mem_append_right _ (List.mem_singleton.2 rfl))
  outs x hx := by
    rcases List.mem_append.1 hx with hx | hx
    · exact h.outs x hx
    · rw [List.mem_singleton] at hx
      subst hx
      exact lt_of_sessionId hid

/-- A connection that is accepted takes an id. -/
theorem Registry.accepted (h : Registry config s out) (hf : s.freeSessionId = id :: free) (a : Accepted) :
    Registry config (s.accepted a id free) out := by
  have hmem : id ∈ ids config := h.within.1 id (by simp [pool, hf])
  have hnew : (s.accepted a id free).sessionId s.objs.length = some id := sessionId_accepted_new
  have hlen : (s.accepted a id free).objs.length = s.objs.length + 1 := by simp [TcpServer.accepted]
  have hclosed : ∀ q, Closed q out → q < s.objs.length := by
    rintro q ⟨reason, hm⟩
    exact h.outs _ hm
  have hreg : ∀ (j : Int) (q : Nat), (s.accepted a id free).sessions[j]? = some q →
      s.sessions[j]? = some q ∨ j = id ∧ q = s.objs.length := by
    intro j q hq
    simp only [TcpServer.accepted, Std.TreeMap.getElem?_insertIfNew] at hq
    split at hq
    · rename_i heq
      exact Or.inr ⟨(by simpa using heq.1 : id = j).symm, (Option.some.inj hq).symm⟩
    · exact Or.inl hq
  exact {
    config_eq := h.config_eq
    started := h.started
    covers := by
      rw [pool_accepted hf]
      exact h.covers.acquire _
    within := by
      rw [pool_accepted hf]
      exact h.within.acquire _
    key := fun j q hq => by
      rcases hreg j q hq with hq | ⟨rfl, rfl⟩
      · have hid := h.key j q hq
        rw [sessionId_accepted_old (lt_of_sessionId hid), hid]
      · exact hnew
    sessionIds := fun q j hq => by
      by_cases hlt : q < s.objs.length
      · rw [sessionId_accepted_old hlt] at hq
        exact h.sessionIds q j hq
      · have hq' := lt_of_sessionId hq
        obtain rfl : q = s.objs.length := by omega
        obtain rfl : id = j := Option.some.inj (hnew.symm.trans hq)
        exact hmem
    unregistered := fun q hq j hj => by
      have hlt := hclosed q hq
      rcases hreg j q hj with hj | ⟨-, rfl⟩
      · exact h.unregistered q hq j hj
      · omega
    reused := fun q j hq hqj => by
      have hlt := hclosed q hq
      rw [sessionId_accepted_old hlt] at hqj
      rcases h.reused q j hq hqj with hfree | ⟨q', hgt, hq'⟩
      · rw [hf, List.mem_cons] at hfree
        rcases hfree with rfl | hfree
        · exact Or.inr ⟨_, hlt, hnew⟩
        · exact Or.inl hfree
      · exact Or.inr ⟨q', hgt, (sessionId_accepted_old (lt_of_sessionId hq')).trans hq'⟩
    outs := fun x hx => by
      have := h.outs x hx
      omega }

/-- **A step keeps it.** -/
theorem registry_step (he : e.Running) (h : Registry config s out) (hs : s.step e = some (s', o)) :
    Registry config s' (out ++ o) := by
  cases step_path hs with
  | start | stop => exact absurd he id
  | acceptError ec ha | acceptRefused a ha hfull | stale res ha hres =>
    rw [List.append_nil]
    exact { h with }
  | acceptOk a id free ha hroom hf =>
    refine (h.accepted hf a).quiet (fun q => not_closed_accept) fun x hx => ?_
    simp only [List.mem_cons, List.not_mem_nil, or_false] at hx
    rcases hx with rfl | rfl <;> simp [TcpServer.accepted]
  | session r ev p p' outs hp hps hf =>
    refine (h.setObj hp (TcpSession.step_id hps)).quiet (fun q => not_closed_map hps hf) fun x hx => ?_
    obtain ⟨y, -, rfl⟩ := List.mem_map.1 hx
    exact (List.getElem?_eq_some_iff.1 hp).1.trans_eq List.length_set.symm
  | sessionFails r ev p p' reason hp hps hf =>
    have hid := TcpSession.step_id hps
    refine (h.setObj hp hid).released ?_
    rw [sessionId_setObj hp hid, sessionId, hp, Option.map_some]

/-- While a session more may be registered, an id is free. -/
theorem Registry.free_ne_nil (h : Registry config s out) (hlt : s.sessions.size < config.maxSession) :
    s.freeSessionId ≠ [] :=
  free_ne_nil_of_covers h.covers hlt

/-- Different ids are registered for different sessions. -/
theorem Registry.nodup_values (h : Registry config s out) : (s.sessions.toList.map Prod.snd).Nodup := by
  rw [List.Nodup, List.pairwise_map]
  refine (Std.TreeMap.distinct_keys_toList (t := s.sessions)).imp_of_mem ?_
  intro x y hx hy hne heq
  have hx := h.key x.1 x.2 (Std.TreeMap.mem_toList_iff_getElem?_eq_some.1 hx)
  have hy := h.key y.1 y.2 (Std.TreeMap.mem_toList_iff_getElem?_eq_some.1 hy)
  have hkeys : x.1 = y.1 := Option.some.inj (hx.symm.trans ((congrArg s.sessionId heq).trans hy))
  exact hne (by simp [hkeys])

/-- **Every run of a started server keeps its registry.** -/
theorem registry_run (hr : machine.Run (new config).listen es s out) (hes : ∀ e ∈ es, e.Running) :
    Registry config s out := by
  induction hr with
  | nil => exact registry_listen config
  | snoc _ hs ih => exact registry_step (hes _ (by simp)) (ih fun e he => hes e (List.mem_append_left _ he)) hs

end TcpServer

end Torinet
