import Torinet.Server.Ids

/-!
# Restarting a server

`stop` forgets the registered sessions and all free ids, and `start` puts none back; only sessions that are closed in
between give theirs. So a server that is started again has its ids exactly when these closings bring them (`restored_iff`).
-/

namespace Torinet

open Lib

namespace TcpServer

variable {config : ServerConfig} {s s' s₁ s₂ : TcpServer} {out o out₁ out₂ : List Out} {cs late : List Call}
  {id : Int} {free : List Int}

/-- A started server without sessions whose ids are all free, once each; so that up to `maxSession` connections that
arrive one after the other become sessions, and whatever happens then, the accept handler finds an id. -/
structure Restored (config : ServerConfig) (s : TcpServer) : Prop where
  state : s.state = .start
  sessions : s.sessions.isEmpty
  free : s.freeSessionId.Perm (new config).freeSessionId
  accepts : ∀ as : List Accepted, as.length ≤ config.maxSession →
    ∃ s' out, calls.Run s (as.map fun a => .accept (.ok a)) s' out ∧ s'.sessions.size = as.length
  handler : ∀ cs s' out, calls.Run s cs s' out → (∀ c ∈ cs, c.Running) → ∀ res, (s'.handleAccept res).isSome

/-- The ids that the closings among the calls give back. -/
def closedIds (s : TcpServer) (cs : List Call) : List Int := cs.filterMap fun
  | .close r => s.sessionId r
  | _ => none

/-! ## After a stop -/

/-- A stopped server only collects the ids that are given back. -/
structure Collects (s₁ : TcpServer) (late : List Call) (s : TcpServer) : Prop where
  state : s.state = .stop
  sessions : s.sessions.isEmpty
  free : s.freeSessionId = closedIds s₁ late
  objs : s.objs = s₁.objs

theorem collects_stop (hs : s.state = .start) : Collects s [] s.stop.1 := by
  unfold stop
  rw [if_neg (by simp [hs])]
  exact ⟨rfl, rfl, rfl, rfl⟩

theorem closedIds_snoc (s : TcpServer) (cs : List Call) (c : Call) :
    closedIds s (cs ++ [c]) = closedIds s cs ++ closedIds s [c] := by
  simp [closedIds]

theorem collects_call {c : Call} (hc : c.Running) (h : Collects s₁ late s) (hs : s.call c = some (s', o)) :
    Collects s₁ (late ++ [c]) s' := by
  cases call_path hs with
  | start | stop => exact hc.elim
  | acceptError | acceptRefused =>
    exact { h with free := by rw [closedIds_snoc, h.free]; simp [closedIds] }
  | acceptOk a id free hroom hf => exact absurd (Or.inl h.state) hroom
  | close r p hp =>
    have hid : s₁.sessionId r = some p.id := by rw [sessionId, ← h.objs, hp, Option.map_some]
    refine ⟨h.state, ?_, ?_, h.objs⟩
    · rw [released, Std.TreeMap.isEmpty_erase, h.sessions, Bool.true_or]
    · rw [closedIds_snoc, ← h.free]
      simp [released, closedIds, hid]

theorem collects_run (hst : s.state = .start) (hr : calls.Run s.stop.1 late s' out) (hlate : ∀ c ∈ late, c.Running) :
    Collects s late s' := by
  induction hr with
  | nil => exact collects_stop hst
  | snoc _ hs ih => exact collects_call (hlate _ (by simp)) (ih fun c hc => hlate c (List.mem_append_left _ hc)) hs

/-! ## With all ids free -/

/-- Of the ids, so many are registered, and the others are free. -/
structure Filled (config : ServerConfig) (k : Nat) (s : TcpServer) : Prop where
  config_eq : s.config = config
  state : s.state = .start
  exact : s.pool.Exact
  size : s.sessions.size = k
  free : s.freeSessionId.length + k = config.maxSession

/-- While not all are registered, one more connection becomes a session. -/
theorem Filled.accept {k : Nat} (h : Filled config k s) (hk : k < config.maxSession) (a : Accepted) :
    ∃ s' o, s.call (.accept (.ok a)) = some (s', o) ∧ Filled config (k + 1) s' := by
  have hlen := h.free
  have hroom : ¬ (s.state = .stop ∨ s.sessions.size ≥ s.config.maxSession) := by
    rw [h.state, h.size, h.config_eq]
    simp [hk]
  obtain ⟨id, free, hf⟩ : ∃ id free, s.freeSessionId = id :: free :=
    List.exists_cons_of_length_pos (by omega)
  have hnot : id ∉ s.sessions := by
    rw [← Std.TreeMap.isSome_getElem?_iff_mem, show s.sessions[id]? = none from h.exact.disjoint id (by simp [pool, hf])]
    simp
  have hexact : (s.accepted a id free).pool.Exact := by
    rw [pool_accepted hf]
    exact h.exact.acquire _
  refine ⟨{ s.accepted a id free with accepts := s.accepts + 1 },
    (TcpSession.new id a.remoteEndpoint a.mem).start.2.map fun o => (s.objs.length, o), ?_,
    ⟨h.config_eq, h.state, hexact, ?_, ?_⟩⟩
  · simp only [call, handleAccept, if_neg hroom, hf]
    rfl
  · simp [accepted, Std.TreeMap.size_insertIfNew, hnot, h.size]
  · rw [hf, List.length_cons] at hlen
    simp only [accepted]
    omega

/-- So do any number of them, as long as there are ids. -/
theorem Filled.accepts : ∀ {as : List Accepted} {k : Nat} {s : TcpServer}, Filled config k s →
    k + as.length ≤ config.maxSession →
    ∃ s' out, calls.Run s (as.map fun a => .accept (.ok a)) s' out ∧ Filled config (k + as.length) s'
  | [], k, s, h, _ => ⟨s, [], Machine.Run.nil, h⟩
  | a :: as, k, s, h, hk => by
    rw [List.length_cons] at hk ⊢
    obtain ⟨s₁, o, hs, h₁⟩ := h.accept (by omega) a
    have hroom : k + 1 + as.length ≤ config.maxSession := by omega
    obtain ⟨s', out, hr, h'⟩ := h₁.accepts hroom
    have hrun : calls.Run s [.accept (.ok a)] s₁ o := Machine.Run.single hs
    refine ⟨s', o ++ out, hrun.append hr, ?_⟩
    rwa [show k + (as.length + 1) = k + 1 + as.length by omega]

/-- Free ids that are those of a new server are all that is needed. -/
theorem restored_of_perm (hown : OwnIds config s) (hst : s.state = .start) (hs : s.sessions.isEmpty)
    (hp : s.freeSessionId.Perm (new config).freeSessionId) : Restored config s := by
  have hnone : ∀ id : Int, s.sessions[id]? = none := fun id =>
    Std.TreeMap.getElem?_eq_none (Std.TreeMap.isEmpty_iff_forall_not_mem.1 hs id)
  have hfilled : Filled config 0 s := by
    refine ⟨hown.config_eq, hst, ⟨?_, fun id _ => hnone id⟩, ?_, ?_⟩
    · exact hp.nodup_iff.2 (List.nodup_range.map fun i j hij => by omega)
    · simpa [Std.TreeMap.isEmpty_eq_size_eq_zero] using hs
    · rw [hp.length_eq]
      simp [new]
  have hids : Ids config s := {
    hown with
    covers := fun id hid => by
      rcases covers_listen config id hid with hfree | hused
      · exact Or.inl (hp.mem_iff.2 hfree)
      · simp [pool, listen, startAccept, new] at hused }
  refine ⟨hst, hs, hp, fun as has => ?_, fun cs s' out hr hcs => (hids.run hr hcs).isSome_handleAccept⟩
  obtain ⟨s', out, hr, h'⟩ := hfilled.accepts (by simpa using has)
  exact ⟨s', out, hr, by simpa using h'.size⟩

/-- **When a restart restores a server**: a server with any history that is stopped, and started again after any further
calls, iff the sessions closed in between give back every id once. -/
theorem restored_iff (hr₁ : calls.Run (new config) cs s₁ out₁) (hst : s₁.state = .start)
    (hr₂ : calls.Run s₁ (.stop :: (late ++ [.start])) s₂ out₂) (hlate : ∀ c ∈ late, c.Running) :
    Restored config s₂ ↔ (closedIds s₁ late).Perm (new config).freeSessionId := by
  obtain ⟨s, o, out, hstop, hr, -⟩ := hr₂.first
  obtain ⟨s', out', o', hr', hstart, -⟩ := Machine.Run.last hr
  obtain rfl : s₁.stop.1 = s := congrArg Prod.fst (Option.some.inj hstop)
  obtain ⟨rfl, -⟩ := Prod.mk.inj (Option.some.inj hstart)
  have hc := collects_run hst hr' hlate
  rw [← hc.free]
  refine ⟨fun h => h.free, fun hp => ?_⟩
  have hown : OwnIds config s'.listen := (((hr₁.append hr₂).inv (Q := fun _ => True) (ownIds_new config)
    fun _ h hs => ⟨ownIds_call h hs, fun _ _ => trivial⟩).1)
  exact restored_of_perm hown rfl hc.sessions hp

/-- A server for one session is stopped and started again. -/
def restarts : List Call := [.start, .stop, .start]

/-- It is started without an id. -/
theorem restarts_not_restored : ∃ s out, calls.Run (new ⟨1⟩) restarts s out ∧ s.state = .start ∧
    s.sessions.isEmpty ∧ s.freeSessionId = [] ∧ s.handleAccept (.ok .loopback) = none ∧ ¬ Restored ⟨1⟩ s := by
  refine ⟨_, _, Machine.run_of_exec rfl, rfl, rfl, rfl, rfl, fun h => ?_⟩
  exact absurd h.free.length_eq (by decide)

theorem restored_iff_closedLate : ∃ s out,
    calls.Run (new ⟨1⟩) [.start, .accept (.ok .loopback), .stop, .close 0, .start] s out ∧ Restored ⟨1⟩ s := by
  have hr₁ : ∃ s₁ out₁, calls.Run (new ⟨1⟩) [.start, .accept (.ok .loopback)] s₁ out₁ ∧ s₁.state = .start ∧
      closedIds s₁ [.close 0] = [1] ∧ ∃ s₂ out₂, calls.Run s₁ (.stop :: ([.close 0] ++ [.start])) s₂ out₂ :=
    ⟨_, _, Machine.run_of_exec rfl, rfl, rfl, _, _, Machine.run_of_exec rfl⟩
  obtain ⟨s₁, out₁, hr₁, hst, hids, s₂, out₂, hr₂⟩ := hr₁
  refine ⟨s₂, _, hr₁.append hr₂, (restored_iff hr₁ hst hr₂ (by simp [Call.Running])).2 ?_⟩
  rw [hids]
  exact List.Perm.refl _

end TcpServer

end Torinet
