import Torinet.Server.Registry

/-!
# The ids of a server

Whenever the accept handler runs, and whenever `handleClose` is called, for whichever session and however often, no id
gets lost (`Ids`): each is free or registered. As only ids of the server are registered, there are never more than
`maxSession`; and as long as there are fewer, one is free (`no_id_lost`).
-/

namespace Torinet

open Lib

namespace TcpServer

variable {config : ServerConfig} {s s' : TcpServer} {out o : List Out} {r : Nat} {id : Int} {free : List Int}

/-- The functions that change the registry, called in any order. -/
inductive Call
  | start
  | stop
  | accept (res : Except ErrorCode Accepted)
  | close (session : Nat)

/-- The calls that neither start nor stop the server. -/
def Call.Running : Call → Prop
  | .start => False
  | .stop => False
  | _ => True

/-- `start`, `stop`, the accept handler, or `handleClose` for one of the sessions accepted so far, run to its end. -/
def call (s : TcpServer) : Call → Option (TcpServer × List Out)
  | .start => some (s.listen, [])
  | .stop => some s.stop
  | .accept res => s.handleAccept res
  | .close session => if session < s.objs.length then some (s.handleClose session, []) else none

def calls : Machine TcpServer Call Out := ⟨call⟩

/-- The accept handler goes on to make a session: the server is not stopped and not full. -/
def HasRoom (s : TcpServer) : Prop := ¬ (s.state = .stop ∨ s.sessions.size ≥ s.config.maxSession)

/-! ## The ways a call can go -/

/-- Every way a call can go, with the state it leads to. Where a session is made, an accept is started again. -/
inductive CallPath (s : TcpServer) : Call → TcpServer → Prop
  | start : CallPath s .start s.listen
  | stop : CallPath s .stop s.stop.1
  | acceptError (ec : ErrorCode) : CallPath s (.accept (.error ec)) s
  | acceptRefused (a : Accepted) (hroom : ¬ s.HasRoom) : CallPath s (.accept (.ok a)) s
  | acceptOk (a : Accepted) (id : Int) (free : List Int) (hroom : s.HasRoom) (hf : s.freeSessionId = id :: free) :
      CallPath s (.accept (.ok a)) { s.accepted a id free with accepts := s.accepts + 1 }
  | close (r : Nat) (p : TcpSession) (hp : s.objs[r]? = some p) : CallPath s (.close r) (s.released p.id)

theorem call_path {c : Call} (hs : s.call c = some (s', o)) : CallPath s c s' := by
  cases c with
  | start =>
    obtain ⟨rfl, -⟩ := Prod.mk.inj (Option.some.inj hs)
    exact CallPath.start
  | stop =>
    obtain rfl : s.stop.1 = s' := congrArg Prod.fst (Option.some.inj hs)
    exact CallPath.stop
  | accept res =>
    cases res with
    | error ec =>
      obtain ⟨rfl, -⟩ := Prod.mk.inj (Option.some.inj hs)
      exact CallPath.acceptError ec
    | ok a =>
      by_cases hroom : s.HasRoom
      · simp only [call, handleAccept, if_neg hroom] at hs
        cases hf : s.freeSessionId with
        | nil => simp [hf] at hs
        | cons id free =>
          simp only [hf, Option.some.injEq] at hs
          obtain ⟨rfl, -⟩ := Prod.mk.inj hs
          exact CallPath.acceptOk a id free hroom hf
      · simp only [call, handleAccept, if_pos (not_not.1 hroom), Option.some.injEq] at hs
        obtain ⟨rfl, -⟩ := Prod.mk.inj hs
        exact CallPath.acceptRefused a hroom
  | close r =>
    cases hp : s.objs[r]? with
    | none => simp [call, (List.getElem?_eq_none_iff.1 hp).not_gt] at hs
    | some p =>
      simp only [call, (List.getElem?_eq_some_iff.1 hp).1, if_true, Option.some.injEq, Prod.mk.injEq] at hs
      obtain ⟨rfl, -⟩ := hs
      simpa [handleClose, hp, released] using CallPath.close r p hp

/-! ## What all calls keep -/

/-- Only ids of the server are free, registered or had by sessions. -/
structure OwnIds (config : ServerConfig) (s : TcpServer) : Prop where
  config_eq : s.config = config
  within : s.pool.Within (ids config)
  objs : ∀ p ∈ s.objs, p.id ∈ ids config

theorem ownIds_new (config : ServerConfig) : OwnIds config (new config) where
  config_eq := rfl
  within := within_listen config
  objs p hp := by cases hp

theorem ownIds_call {c : Call} (h : OwnIds config s) (hs : s.call c = some (s', o)) : OwnIds config s' := by
  cases call_path hs with
  | start => exact ⟨h.config_eq, h.within, h.objs⟩
  | stop =>
    unfold stop
    split
    · exact h
    · exact ⟨h.config_eq, ⟨by simp [pool], by simp [pool]⟩, h.objs⟩
  | acceptError | acceptRefused => exact h
  | acceptOk a id free hroom hf =>
    have hpool := h.within.acquire s.objs.length
    rw [← pool_accepted (a := a) hf] at hpool
    refine ⟨h.config_eq, hpool, fun p hp => ?_⟩
    rcases List.mem_append.1 hp with hp | hp
    · exact h.objs p hp
    · rw [List.mem_singleton] at hp
      subst hp
      exact h.within.1 id (by simp [pool, hf])
  | close r p hp =>
    refine ⟨h.config_eq, ?_, h.objs⟩
    rw [pool_released]
    exact h.within.release (h.objs p (List.mem_of_getElem? hp))

/-! ## While the server runs -/

/-- No id is lost. -/
structure Ids (config : ServerConfig) (s : TcpServer) : Prop extends OwnIds config s where
  covers : s.pool.Covers (ids config)

theorem ids_listen (config : ServerConfig) : Ids config (new config).listen where
  config_eq := rfl
  within := within_listen config
  objs p hp := by cases hp
  covers := covers_listen config

theorem ids_call {c : Call} (hc : c.Running) (h : Ids config s) (hs : s.call c = some (s', o)) : Ids config s' := by
  refine { ownIds_call h.toOwnIds hs with covers := ?_ }
  cases call_path hs with
  | start | stop => exact hc.elim
  | acceptError | acceptRefused => exact h.covers
  | acceptOk a id free hroom hf =>
    have hpool := h.covers.acquire s.objs.length
    rwa [← pool_accepted (a := a) hf] at hpool
  | close r p hp =>
    rw [pool_released]
    exact h.covers.release p.id

theorem Ids.run {cs : List Call} (h : Ids config s) (hr : calls.Run s cs s' out) (hcs : ∀ c ∈ cs, c.Running) :
    Ids config s' :=
  (hr.inv (Q := fun _ => True) h fun hc h hs => ⟨ids_call (hcs _ hc) h hs, fun _ _ => trivial⟩).1

/-- No more sessions are registered than there are ids. -/
theorem Ids.size_le (h : Ids config s) : s.sessions.size ≤ config.maxSession := by
  have hwithin : s.pool.Within ↑(Finset.Icc (1 : Int) config.maxSession) := by
    rw [Finset.coe_Icc]
    exact h.within
  have hle := hwithin.length_le s.sessions.nodup_keys fun id hid => by
    rw [Std.TreeMap.mem_keys, ← Std.TreeMap.isSome_getElem?_iff_mem] at hid
    exact Option.isSome_iff_ne_none.1 hid
  simpa [Std.TreeMap.length_keys] using hle

/-- While the handler goes on to make a session, an id is free. -/
theorem Ids.free_ne_nil (h : Ids config s) (hroom : s.HasRoom) : s.freeSessionId ≠ [] := by
  rw [HasRoom, h.config_eq, not_or] at hroom
  exact free_ne_nil_of_covers h.covers (not_le.1 hroom.2)

/-- So the accept handler never takes the front of an empty pool. -/
theorem Ids.isSome_handleAccept (h : Ids config s) (res : Except ErrorCode Accepted) :
    (s.handleAccept res).isSome := by
  cases res with
  | error ec => rfl
  | ok a =>
    simp only [handleAccept]
    split
    · rfl
    · rename_i hroom
      obtain ⟨id, free, hf⟩ := List.exists_cons_of_ne_nil (h.free_ne_nil hroom)
      simp [hf]

/-- **No session id is ever lost**, in whatever order the accept handler runs and sessions are closed: every id is free
or registered, no other ids are there, at most `maxSession` sessions are registered, and an id is free when the handler
goes on to take one. -/
theorem no_id_lost {cs : List Call} (hr : calls.Run (new config).listen cs s out) (hcs : ∀ c ∈ cs, c.Running) :
    (∀ id : Int, 1 ≤ id → id ≤ config.maxSession → id ∈ s.freeSessionId ∨ id ∈ s.sessions) ∧
    (∀ id : Int, id ∈ s.freeSessionId ∨ id ∈ s.sessions → 1 ≤ id ∧ id ≤ config.maxSession) ∧
    s.sessions.size ≤ config.maxSession ∧
    (s.HasRoom → s.freeSessionId ≠ []) ∧ ∀ res, (s.handleAccept res).isSome := by
  have h := (ids_listen config).run hr hcs
  have hmem : ∀ id : Int, s.pool.used id ≠ none ↔ id ∈ s.sessions := fun id => by
    rw [← Std.TreeMap.isSome_getElem?_iff_mem, Option.isSome_iff_ne_none]
    rfl
  refine ⟨fun id h₁ h₂ => ?_, fun id hid => ?_, h.size_le, h.free_ne_nil, h.isSome_handleAccept⟩
  · rw [← hmem]
    exact h.covers id ⟨h₁, h₂⟩
  · rw [← hmem] at hid
    exact hid.elim (h.within.1 id) (h.within.2 id)

/-- The only session is closed twice, then another one is accepted. -/
def closesTwice : List Call := [.accept (.ok .loopback), .close 0, .close 0, .accept (.ok .loopback)]

theorem no_id_lost_closesTwice : ∃ s out, calls.Run (new ⟨1⟩).listen closesTwice s out ∧
    s.freeSessionId = [1] ∧ s.sessions.size ≤ 1 := by
  have hr : ∃ s out, calls.Run (new ⟨1⟩).listen closesTwice s out ∧ s.freeSessionId = [1] :=
    ⟨_, _, Machine.run_of_exec rfl, by decide⟩
  obtain ⟨s, out, hr, hf⟩ := hr
  exact ⟨s, out, hr, hf, (no_id_lost hr (by simp [closesTwice, Call.Running])).2.2.1⟩

end TcpServer

end Torinet
