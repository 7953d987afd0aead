import Mathlib.Algebra.BigOperators.Group.List.Basic
import Torinet.IoServicePool
import Torinet.Server.Ids

/-!
# The threads of a server

The accept handler calls `startAccept`, and `startAccept` calls `run`: so each connection that is accepted adds a thread
to every io_service (`threads_run`), and the handlers of one session can run at the same time. There is one thread for
each io_service only as long as no connection is accepted (`oneEach_iff`).
-/

namespace Torinet

open Lib

namespace PooledServer

open IoServicePool (Thread)

variable {config : ServerConfig} {size next : Nat} {s s' : PooledServer} {e : Event} {es : List Event}
  {out o : List TcpServer.Out} {t i r : Nat}

/-- At most one thread is inside `run` of each io_service, no two threads execute handlers of one session, and there are
no more threads than io_services. -/
def OneEach (_ : List Event) (s : PooledServer) (_ : List TcpServer.Out) : Prop :=
  (∀ i < s.pool.size, s.pool.inside i ≤ 1) ∧
  (∀ t t' i i' r : Nat, s.pool.threads[t]? = some (Thread.mk i (.handling (some r))) →
    s.pool.threads[t']? = some (Thread.mk i' (.handling (some r))) → t = t') ∧
  s.pool.threads.length ≤ s.pool.size

/-- The event is no accept that completes without error while a session more can be registered. -/
def NotAccepted (_ : List Event) (s : PooledServer) (_ : List TcpServer.Out) (e : Event) : Prop :=
  ∀ t a, e = .begin t (.accept (.ok a)) → ¬ s.server.HasRoom

/-! ## The ways a step can go -/

/-- Every way a step can go: the accept handler makes a session, and does not return; another handler is executed; a
handler returns; or a message is sent. -/
inductive Path (s : PooledServer) : Event → PooledServer → Prop
  | accepted (t : Nat) (a : Accepted) (server : TcpServer) (ht : s.pool.threads[t]? = some ⟨s.acceptor, .waiting⟩)
      (hroom : s.server.HasRoom) (hlen : server.objs.length = s.server.objs.length + 1) :
      Path s (.begin t (.accept (.ok a))) ({ s with server := server }.handleAccepted t s.acceptor)
  | handler (t i : Nat) (e : TcpServer.Event) (session : Option Nat) (server : TcpServer)
      (ht : s.pool.threads[t]? = some ⟨i, .waiting⟩) (hop : s.operation e = some (i, session))
      (hno : ∀ a, e = .accept (.ok a) → ¬ s.server.HasRoom) (hlen : server.objs.length = s.server.objs.length) :
      Path s (.begin t e) { s with
        server := server
        pool := { s.pool with threads := s.pool.threads.set t ⟨i, .handling session⟩ } }
  | finish (t i : Nat) (session : Option Nat) (ht : s.pool.threads[t]? = some ⟨i, .handling session⟩) :
      Path s (.finish t) { s with pool := { s.pool with threads := s.pool.threads.set t ⟨i, .waiting⟩ } }
  | send (q : Nat) (overload : TcpSession.Overload) (msg : Msg) (server : TcpServer)
      (hlen : server.objs.length = s.server.objs.length) : Path s (.send q overload msg) { s with server := server }

/-- Sessions are made by an accept that completes while there is room, and by nothing else. -/
theorem length_objs_of_step {u u' : TcpServer} {e : TcpServer.Event} (hs : u.step e = some (u', o)) :
    (∃ a, e = .accept (.ok a)) ∧ u.HasRoom ∧ u'.objs.length = u.objs.length + 1 ∨
      (∀ a, e = .accept (.ok a) → ¬ u.HasRoom) ∧ u'.objs.length = u.objs.length := by
  cases TcpServer.step_path hs with
  | acceptOk a id free ha hroom hf => exact Or.inl ⟨⟨a, rfl⟩, hroom, by simp [TcpServer.accepted]⟩
  | acceptRefused a ha hfull => exact Or.inr ⟨fun _ _ hroom => hroom hfull, rfl⟩
  | stop =>
    refine Or.inr ⟨by simp, ?_⟩
    unfold TcpServer.stop
    split <;> rfl
  | session r ev p p' outs hp hps hf => exact Or.inr ⟨by simp, List.length_set⟩
  | sessionFails r ev p p' reason hp hps hf => exact Or.inr ⟨by simp, List.length_set⟩
  | start | acceptError | stale => exact Or.inr ⟨by simp, rfl⟩

theorem step_path (h : s.step e = some (s', o)) : Path s e s' := by
  cases e with
  | begin t e =>
    simp only [step] at h
    split at h
    · cases h
    · rename_i i session hop
      split at h
      · rename_i ht
        obtain ⟨⟨u, outs⟩, hs, heq⟩ := Option.map_eq_some_iff.1 h
        rcases length_objs_of_step hs with ⟨⟨a, rfl⟩, hroom, hlen⟩ | ⟨hno, hlen⟩
        · obtain ⟨rfl, rfl⟩ := Prod.mk.inj (Option.some.inj hop)
          simp only [hlen, Nat.add_eq_left, one_ne_zero, if_false, Prod.mk.injEq] at heq
          obtain ⟨rfl, rfl⟩ := heq
          exact Path.accepted t a u ht hroom hlen
        · simp only [hlen, if_true, Prod.mk.injEq] at heq
          obtain ⟨rfl, rfl⟩ := heq
          exact Path.handler t i e session u ht hop hno hlen
      · cases h
  | finish t =>
    simp only [step] at h
    split at h
    · rename_i i session ht
      obtain ⟨rfl, -⟩ := Prod.mk.inj (Option.some.inj h)
      exact Path.finish t i session ht
    · cases h
  | send q overload msg =>
    obtain ⟨⟨u, outs⟩, hs, heq⟩ := Option.map_eq_some_iff.1 h
    obtain ⟨rfl, rfl⟩ := Prod.mk.inj heq
    rcases length_objs_of_step hs with ⟨⟨a, ha⟩, -⟩ | ⟨-, hlen⟩
    · cases ha
    · exact Path.send q overload msg u hlen

/-! ## What every run keeps -/

/-- The io_services that the threads are inside of: all of them, once at the start and once for each session made. -/
def rounds (size n : Nat) : List Nat := (List.replicate (1 + n) (List.range size)).flatten

/-- A thread for each io_service and session more, which handles what belongs to its io_service. -/
structure Threads (size : Nat) (s : PooledServer) : Prop where
  size_eq : s.pool.size = size
  ios : s.pool.threads.map Thread.ios = rounds size s.server.objs.length
  sockets : s.sockets.length = s.server.objs.length
  handling : ∀ t i r : Nat, s.pool.threads[t]? = some (Thread.mk i (.handling (some r))) → s.sockets[r]? = some i

theorem rounds_succ (size n : Nat) : rounds size (n + 1) = rounds size n ++ List.range size := by
  rw [rounds, rounds, ← Nat.add_assoc, List.replicate_succ', List.flatten_append, List.flatten_singleton]

/-- In each io_service there is a thread for each round. -/
theorem Threads.inside_eq (h : Threads size s) (hi : i < size) : s.pool.inside i = 1 + s.server.objs.length := by
  have hcount : s.pool.inside i = (s.pool.threads.map Thread.ios).count i := by
    rw [IoServicePool.inside, List.count, List.countP_map]
    rfl
  have hone : (List.range size).count i = 1 := List.count_eq_one_of_mem List.nodup_range (List.mem_range.2 hi)
  rw [hcount, h.ios, rounds, List.count_flatten, List.map_replicate, List.sum_replicate_nat, hone, Nat.mul_one]

theorem Threads.length_eq (h : Threads size s) :
    s.pool.threads.length = (1 + s.server.objs.length) * size := by
  rw [← List.length_map (f := Thread.ios), h.ios]
  simp [rounds]

/-- What a thread does leaves it inside its io_service. -/
theorem map_ios_set {ts : List Thread} {d : IoServicePool.Doing} (ht : ts[t]? = some (Thread.mk i d))
    (d' : IoServicePool.Doing) :
    (ts.set t ⟨i, d'⟩).map Thread.ios = ts.map Thread.ios := by
  rw [List.map_set]
  refine List.ext_getElem? fun j => ?_
  by_cases hj : j = t
  · subst hj
    have hlt := (List.getElem?_eq_some_iff.1 ht).1
    rw [List.getElem?_set_self (by simpa using hlt), List.getElem?_map, ht]
    rfl
  · rw [List.getElem?_set_ne (Ne.symm hj)]

/-- What is found in a list of threads in which one has been changed: that one, or an old one. -/
theorem of_getElem?_set {ts : List Thread} {x y : Thread} {j : Nat} (h : (ts.set t x)[j]? = some y) :
    j = t ∧ y = x ∨ ts[j]? = some y := by
  by_cases hj : j = t
  · subst hj
    rw [List.getElem?_set] at h
    simp only [if_true] at h
    split at h
    · exact Or.inl ⟨rfl, (Option.some.inj h).symm⟩
    · cases h
  · rw [List.getElem?_set_ne (Ne.symm hj)] at h
    exact Or.inr h

/-- The threads that `run` starts wait for a handler. -/
theorem of_getElem?_run {p : IoServicePool} {x : Thread} {j : Nat} (h : p.run.threads[j]? = some x) :
    p.threads[j]? = some x ∨ x.doing = .waiting := by
  rw [IoServicePool.run] at h
  by_cases hlt : j < p.threads.length
  · exact Or.inl (by rwa [List.getElem?_append_left hlt] at h)
  · rw [List.getElem?_append_right (not_lt.1 hlt)] at h
    obtain ⟨i, -, rfl⟩ := List.mem_map.1 (List.mem_of_getElem? h)
    exact Or.inr rfl

theorem threads_listen (config : ServerConfig) (size next : Nat) : Threads size (listen config ⟨size, next, []⟩) where
  size_eq := rfl
  ios := by simp [listen, startAccept, IoServicePool.run, IoServicePool.getIoService, rounds, TcpServer.listen,
    TcpServer.startAccept, TcpServer.new, List.map_map, Function.comp_def]
  sockets := rfl
  handling t i r h := by
    rcases of_getElem?_run h with h | h
    · cases h
    · cases h

/-- The socket of an operation is the session's. -/
theorem of_operation {e : TcpServer.Event} (h : s.operation e = some (i, some r)) : s.sockets[r]? = some i := by
  cases e with
  | session q ev =>
    cases ev with
    | readDone | writeDone =>
      obtain ⟨j, hj, heq⟩ := Option.map_eq_some_iff.1 h
      obtain ⟨rfl, hq⟩ := Prod.mk.inj heq
      obtain rfl := Option.some.inj hq
      exact hj
    | _ => cases h
  | _ => cases h

theorem threads_step (h : Threads size s) (hs : s.step e = some (s', o)) : Threads size s' := by
  cases step_path hs with
  | accepted t a u ht hroom hlen =>
    have hios := map_ios_set ht .joining
    refine ⟨h.size_eq, ?_, ?_, fun j i r hj => ?_⟩
    · -- one more session, and one more round of threads
      simp only [handleAccepted, startAccept, IoServicePool.getIoService, IoServicePool.run, List.map_append,
        List.map_map]
      rw [hios, h.ios, hlen, rounds_succ, h.size_eq]
      congr 1
      exact List.map_id _
    · simp [handleAccepted, startAccept, h.sockets, hlen]
    · rcases of_getElem?_run hj with hj | hj
      · rcases of_getElem?_set hj with ⟨-, heq⟩ | hj
        · cases heq
        · have hr := h.handling j i r hj
          exact (List.getElem?_append_left (List.getElem?_eq_some_iff.1 hr).1).trans hr
      · cases hj
  | handler t i e session u ht hop hno hlen =>
    refine ⟨h.size_eq, ?_, h.sockets.trans hlen.symm, fun j i' r hj => ?_⟩
    · rw [map_ios_set ht, hlen]
      exact h.ios
    · rcases of_getElem?_set hj with ⟨rfl, heq⟩ | hj
      · obtain ⟨rfl, hsession⟩ := Thread.mk.inj heq
        cases hsession
        exact of_operation hop
      · exact h.handling j i' r hj
  | finish t i session ht =>
    refine ⟨h.size_eq, ?_, h.sockets, fun j i' r hj => ?_⟩
    · rw [map_ios_set ht]
      exact h.ios
    · rcases of_getElem?_set hj with ⟨-, heq⟩ | hj
      · cases heq
      · exact h.handling j i' r hj
  | send q overload msg u hlen => exact ⟨h.size_eq, by rw [hlen]; exact h.ios, h.sockets.trans hlen.symm, h.handling⟩

/-- **Each connection adds a thread** to every io_service. -/
theorem threads_run (hr : machine.Run (listen config ⟨size, next, []⟩) es s out) : Threads size s :=
  (hr.inv (Q := fun _ => True) (threads_listen config size next) fun _ h hs =>
    ⟨threads_step h hs, fun _ _ => trivial⟩).1

/-! ## One thread for each io_service -/

/-- Two members of a list that have a property. -/
theorem two_le_countP {α : Type*} {l : List α} {p : α → Bool} {j k : Nat} {x y : α} (hjk : j < k)
    (hx : l[j]? = some x) (hy : l[k]? = some y) (hpx : p x) (hpy : p y) : 2 ≤ l.countP p := by
  have h₁ : 0 < (l.take k).countP p :=
    List.countP_pos_iff.2 ⟨x, List.mem_of_getElem? ((List.getElem?_take_of_lt hjk).trans hx), hpx⟩
  have h₂ : 0 < (l.drop k).countP p :=
    List.countP_pos_iff.2 ⟨y, List.mem_of_getElem? (i := 0) (by rw [List.getElem?_drop]; exact hy), hpy⟩
  rw [← List.take_append_drop k l, List.countP_append]
  omega

/-- Handlers of one session are executed inside its socket's io_service; so where only one thread is, they are not
executed at the same time. -/
theorem Threads.serial (h : Threads size s) (hone : ∀ i < size, s.pool.inside i ≤ 1) {t t' i i' r : Nat}
    (ht : s.pool.threads[t]? = some (Thread.mk i (.handling (some r))))
    (ht' : s.pool.threads[t']? = some (Thread.mk i' (.handling (some r)))) : t = t' := by
  obtain rfl : i = i' := Option.some.inj ((h.handling t i r ht).symm.trans (h.handling t' i' r ht'))
  have hi : i < size := by
    have hm : i ∈ s.pool.threads.map Thread.ios := List.mem_map.2 ⟨_, List.mem_of_getElem? ht, rfl⟩
    rw [h.ios, rounds] at hm
    simpa using hm
  have hle := hone i hi
  unfold IoServicePool.inside at hle
  rcases Nat.lt_trichotomy t t' with hlt | heq | hlt
  · have := two_le_countP (p := fun t => decide (t.ios = i)) hlt ht ht' (by simp) (by simp)
    omega
  · exact heq
  · have := two_le_countP (p := fun t => decide (t.ios = i)) hlt ht' ht (by simp) (by simp)
    omega

/-- Before a connection is accepted there is one thread for each io_service. -/
theorem Threads.oneEach (h : Threads size s) (hnone : s.server.objs = []) : OneEach es s out := by
  have hone : ∀ i < size, s.pool.inside i ≤ 1 := fun i hi => by rw [h.inside_eq hi, hnone]; rfl
  refine ⟨h.size_eq ▸ hone, fun t t' i i' r ht ht' => h.serial hone ht ht', ?_⟩
  rw [h.length_eq, h.size_eq, hnone]
  simp

/-- Afterwards there are more. -/
theorem Threads.not_oneEach (h : Threads size s) (hsize : 0 < size) (hsome : s.server.objs ≠ []) :
    ¬ OneEach es s out := by
  intro hall
  have hle := hall.1 0 (h.size_eq ▸ hsize)
  rw [h.inside_eq hsize] at hle
  have := List.length_pos_iff.2 hsome
  omega

/-- **When there is one thread for each io_service**: throughout a run of a server with a pool of any size, iff no accept
of the run completes without error while a session more can be registered. -/
theorem oneEach_iff (hsize : 0 < size) (hr : machine.Run (listen config ⟨size, next, []⟩) es s out) :
    machine.Always (listen config ⟨size, next, []⟩) OneEach es ↔
      machine.Steps (listen config ⟨size, next, []⟩) NotAccepted es := by
  refine Machine.always_iff_steps (E := fun _ => True)
    (I := fun _ s _ => Threads size s ∧ s.server.objs = []) ⟨threads_listen config size next, rfl⟩
    (fun h => h.1.oneEach h.2) ?_ ?_ hr fun _ _ => trivial
  · intro es s out e s' o _ _ h hs hno
    refine ⟨threads_step h.1 hs, List.eq_nil_of_length_eq_zero ?_⟩
    have hnone : s.server.objs.length = 0 := by rw [h.2]; rfl
    cases step_path hs with
    | accepted t a u ht hroom hlen => exact absurd hroom (hno t a rfl)
    | handler t i e session u ht hop _ hlen => exact hlen.trans hnone
    | finish t i session ht => exact hnone
    | send q overload msg u hlen => exact hlen.trans hnone
  · intro es s out e s' o _ _ h hs hyes
    refine (threads_step h.1 hs).not_oneEach hsize fun hnil => hyes fun t a he hroom => ?_
    subst he
    have hs : s.step (.begin t (.accept (.ok a))) = some (s', o) := hs
    have hpath := step_path hs
    cases hpath with
    | accepted _ _ u ht _ hlen =>
      have hzero : u.objs.length = 0 := congrArg List.length hnil
      omega
    | handler _ i _ session u ht hop hno hlen => exact hno a rfl hroom

/-- One client of a server with two io_services: its session is in the second one, where a second thread is by then, and
one thread handles a read and the other one a write. -/
def handlesTwice : List Event :=
  [.begin 0 (.accept (.ok .loopback)), .send 0 .ref .hello,
    .begin 1 (.session 0 (.readDone 0 (.ok [1, 0, 0, 0, 3, 0, 0, 0]))), .begin 3 (.session 0 (.writeDone 0 none))]

theorem handlesTwice_not_oneEach : ∃ s out, machine.Run (listen ⟨1⟩ (.new 2)) handlesTwice s out ∧
    s.pool.threads = [⟨0, .joining⟩, ⟨1, .handling (some 0)⟩, ⟨0, .waiting⟩, ⟨1, .handling (some 0)⟩] ∧
    ¬ OneEach handlesTwice s out := by
  refine ⟨_, _, Machine.run_of_exec rfl, rfl, fun h => ?_⟩
  exact absurd (h.2.1 1 3 1 1 0 rfl rfl) (by decide)

theorem oneEach_iff_handlesTwice : machine.Always (listen ⟨1⟩ (.new 2)) OneEach handlesTwice ↔
    machine.Steps (listen ⟨1⟩ (.new 2)) NotAccepted handlesTwice :=
  oneEach_iff (by decide) (Machine.run_of_exec rfl)

end PooledServer

end Torinet
