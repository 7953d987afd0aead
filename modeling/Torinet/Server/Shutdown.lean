import Mathlib.Algebra.Order.BigOperators.Group.Finset
import Torinet.Lib.Progress
import Torinet.RunningServer
import Torinet.Server.Balance

/-!
# How a server ends

A thread waits only for threads that were started later, so once all io_services are stopped the threads leave them one
after the other (`shutdown_ends`), and `ChatServer::start` returns. `ChatServer::stop` stops a single io_service, and so
ends a server with one thread only (`start_returns_iff`); a larger server goes on without the sessions whose sockets
belong to that io_service (`served_iff`).

An accept handler is one step up to its wait: a stop comes before all of it or after its threads have been started, so
none is added once the io_services are stopped.
-/

namespace Torinet

open Lib

namespace RunningServer

open IoServicePool (Thread Doing)
open PooledServer (Threads Turned of_getElem?_set of_getElem?_run)

variable {config : ServerConfig} {size : Nat} {s s' : RunningServer} {e : Event} {es : List Event}
  {out o : List TcpServer.Out} {x : Thread} {d d' : Doing} {t u i r first : Nat}

/-! ## Threads that end -/

theorem leave_inv (hs : s.leave t = some (s', o)) : ∃ i, s.threads[t]? = some (Thread.mk i .waiting) ∧
    s.stopped i = true ∧ s.ended t = false ∧ s' = { s with ended := Function.update s.ended t true } := by
  unfold leave at hs
  split at hs
  · rename_i i ht
    simp only [Option.ite_none_right_eq_some, Bool.and_eq_true, Bool.not_eq_true'] at hs
    obtain ⟨⟨hstop, hended⟩, hs⟩ := hs
    obtain ⟨rfl, -⟩ := Prod.mk.inj (Option.some.inj hs)
    exact ⟨i, ht, hstop, hended, rfl⟩
  · cases hs

theorem joined_inv (hs : s.joined t = some (s', o)) : ∃ i first, s.threads[t]? = some (Thread.mk i .joining) ∧
    s.joins t = some first ∧ s.endedFrom first = true ∧ s' = s.setThread t ⟨i, .waiting⟩ := by
  unfold joined at hs
  split at hs
  · rename_i i first ht hfirst
    obtain ⟨hended, hs⟩ := Option.ite_none_right_eq_some.1 hs
    obtain ⟨rfl, -⟩ := Prod.mk.inj (Option.some.inj hs)
    exact ⟨i, first, ht, hfirst, hended, rfl⟩
  · cases hs

/-! ## What every run keeps -/

/-- The threads that a thread waits for were started later than itself, and those that have ended were waiting inside an
io_service that was stopped. -/
structure Ok (size : Nat) (s : RunningServer) : Prop where
  threads : Threads size s.server
  turned : Turned size s.server
  acceptor : s.server.acceptor = 1 % size
  joining : s.server.joining ≤ s.server.server.objs.length
  joins : ∀ t i : Nat, s.threads[t]? = some (Thread.mk i .joining) →
    ∃ first, s.joins t = some first ∧ t < first ∧ first + size ≤ s.threads.length
  ended : ∀ t, s.ended t = true → ∃ i, s.threads[t]? = some (Thread.mk i .waiting) ∧ s.stopped i = true

/-- A thread does something else. -/
def setDoing (s : RunningServer) (server : TcpServer) (t i : Nat) (d : Doing) : RunningServer :=
  { s with server := { s.server with
      server := server
      pool := { s.server.pool with threads := s.threads.set t ⟨i, d⟩ } } }

/-- No more threads wait for others than before. -/
theorem joining_setDoing_le (hd : d ≠ .joining) (server : TcpServer) (t i : Nat) :
    (s.setDoing server t i d).server.joining ≤ s.server.joining := by
  simp only [setDoing, PooledServer.joining, RunningServer.threads]
  by_cases hlt : t < s.server.pool.threads.length
  · rw [List.countP_set hlt]
    simp [hd]
  · rw [List.set_eq_of_length_le (by omega)]

/-- A thread that has not ended does something else than waiting for others. -/
theorem Ok.setDoing (h : Ok size s) (he : s.ended t = false) (hd : d' ≠ .joining)
    {server : TcpServer} (hlen : server.objs.length = s.server.server.objs.length)
    (hthreads : Threads size (s.setDoing server t i d').server) : Ok size (s.setDoing server t i d') where
  threads := hthreads
  turned := h.turned.setThread hd hlen t i
  acceptor := h.acceptor
  joining := by
    have hle := joining_setDoing_le (s := s) hd server t i
    have hbefore := h.joining
    have hafter : (s.setDoing server t i d').server.server.objs.length = s.server.server.objs.length := hlen
    omega
  joins u j hu := by
    rcases of_getElem?_set hu with ⟨-, heq⟩ | hu
    · cases heq
      exact absurd rfl hd
    · obtain ⟨first, hfirst, hlt, hle⟩ := h.joins u j hu
      refine ⟨first, hfirst, hlt, ?_⟩
      simpa [RunningServer.setDoing, RunningServer.threads] using hle
  ended u hu := by
    obtain ⟨j, hj, hstop⟩ := h.ended u hu
    have hne : t ≠ u := by
      rintro rfl
      exact Bool.false_ne_true (he.symm.trans hu)
    exact ⟨j, (List.getElem?_set_ne hne).trans hj, hstop⟩

theorem Ok.not_ended (h : Ok size s) (ht : s.threads[t]? = some ⟨i, d⟩) (hd : d ≠ .waiting) : s.ended t = false := by
  by_contra hended
  obtain ⟨j, hj, -⟩ := h.ended t (by simpa using hended)
  rw [ht] at hj
  cases hj
  exact hd rfl

/-- The constructor of the chat server has taken an io_service, the first one. -/
theorem server_start (config : ServerConfig) (size : Nat) :
    (start config size).server = .listen config ⟨size, 1, []⟩ ∧ (start config size).ios = 0 := by
  simp [start, IoServicePool.getIoService, IoServicePool.new]

theorem ok_start (hsize : 0 < size) (config : ServerConfig) : Ok size (start config size) where
  threads := by
    rw [(server_start config size).1]
    exact PooledServer.threads_listen config size 1
  turned := by
    rw [(server_start config size).1]
    exact PooledServer.turned_listen hsize config 1
  acceptor := by
    rw [(server_start config size).1]
    simp only [PooledServer.listen, PooledServer.startAccept, IoServicePool.getIoService]
    split
    · obtain rfl : size = 1 := by omega
      rfl
    · exact (Nat.mod_eq_of_lt (by omega)).symm
  joining := by
    rw [(server_start config size).1, PooledServer.joining_listen]
    exact Nat.zero_le _
  joins t i ht := by
    rcases of_getElem?_run ht with ht | ht
    · cases ht
    · cases ht
  ended t ht := by cases ht

/-! ## Steps -/

/-- An accept handler has made a session, and waits for the threads that it has started. -/
def accepted (s : RunningServer) (server : TcpServer) (t : Nat) : RunningServer :=
  { s with
    server := { s.server with server := server }.handleAccepted t s.server.acceptor
    joins := Function.update s.joins t (some s.threads.length) }

theorem threads_accepted (s : RunningServer) (server : TcpServer) (t : Nat) : (s.accepted server t).threads =
    s.threads.set t ⟨s.server.acceptor, .joining⟩ ++ (List.range s.server.pool.size).map fun i => ⟨i, .waiting⟩ := rfl

theorem length_threads_accepted (s : RunningServer) (server : TcpServer) (t : Nat) :
    (s.accepted server t).threads.length = s.threads.length + s.server.pool.size := by
  simp [threads_accepted]

/-- Its threads are behind all the others. -/
theorem Ok.accepted (h : Ok size s) (ht : s.threads[t]? = some ⟨s.server.acceptor, .waiting⟩)
    (he : s.ended t = false) {server : TcpServer} (hlen : server.objs.length = s.server.server.objs.length + 1)
    (hthreads : Threads size (s.accepted server t).server) : Ok size (s.accepted server t) where
  threads := hthreads
  turned := h.turned.accepted h.threads.size_eq hlen t
  acceptor := h.acceptor
  joining := by
    have hle := h.joining
    have hmore : (s.accepted server t).server.joining = s.server.joining + 1 := PooledServer.joining_accepted ht server
    have hobjs : (s.accepted server t).server.server.objs.length = s.server.server.objs.length + 1 := hlen
    omega
  joins u j hu := by
    have hlt := (List.getElem?_eq_some_iff.1 ht).1
    rw [length_threads_accepted, h.threads.size_eq]
    by_cases hut : u = t
    · subst hut
      exact ⟨_, Function.update_self _ _ _, hlt, le_refl _⟩
    · rcases of_getElem?_run (p := { s.server.pool with threads := s.threads.set t _ }) hu with hu | hu
      · obtain ⟨first, hfirst, hlt', hle⟩ := h.joins u j ((List.getElem?_set_ne (Ne.symm hut)).symm.trans hu)
        exact ⟨first, (Function.update_of_ne hut _ _).trans hfirst, hlt', by omega⟩
      · cases hu
  ended u hu := by
    obtain ⟨j, hj, hstop⟩ := h.ended u hu
    have hne : t ≠ u := by
      rintro rfl
      exact Bool.false_ne_true (he.symm.trans hu)
    have hlt := (List.getElem?_eq_some_iff.1 hj).1
    refine ⟨j, ?_, hstop⟩
    rw [threads_accepted, List.getElem?_append_left (by simpa using hlt), List.getElem?_set_ne hne]
    exact hj

theorem Ok.begin {ev : TcpServer.Event} (hsize : 0 < size) (h : Ok size s) (hs : s.begin t ev = some (s', o)) :
    Ok size s' := by
  simp only [RunningServer.begin, Option.ite_none_right_eq_some] at hs
  obtain ⟨hruns, hs⟩ := hs
  obtain ⟨⟨v, outs⟩, hstep, heq⟩ := Option.map_eq_some_iff.1 hs
  obtain ⟨rfl, -⟩ := Prod.mk.inj heq
  have hend : s.ended t = false := by
    simp only [runs, Bool.and_eq_true, Bool.not_eq_true'] at hruns
    exact hruns.1
  have hthreads := PooledServer.threads_step h.threads hstep
  cases PooledServer.step_path hstep with
  | accepted t a v ht hroom hlen =>
    have hmore := length_threads_accepted s v t
    have hsz := h.threads.size_eq
    have hne : ({ s.server with server := v }.handleAccepted t s.server.acceptor).pool.threads.length ≠
        s.threads.length := by
      intro heq
      have hsame : (s.accepted v t).threads.length = s.threads.length := heq
      omega
    rw [if_neg hne]
    exact h.accepted ht hend hlen hthreads
  | handler t i ev session v ht hop hno hlen =>
    have hset : Ok size (s.setDoing v t i (.handling session)) := h.setDoing hend (by simp) hlen hthreads
    simpa [RunningServer.setDoing, RunningServer.threads] using hset

/-- An accept handler that has waited for its threads returns. -/
theorem threads_setThread (h : Threads size s.server) (ht : s.threads[t]? = some ⟨i, d⟩) :
    Threads size (s.setThread t ⟨i, .waiting⟩).server where
  size_eq := h.size_eq
  ios := (PooledServer.map_ios_set ht .waiting).trans h.ios
  sockets := h.sockets
  handling u j r hu := by
    rcases of_getElem?_set hu with ⟨-, heq⟩ | hu
    · cases heq
    · exact h.handling u j r hu

/-- **A step keeps it.** -/
theorem Ok.step (hsize : 0 < size) (h : Ok size s) (hs : s.step e = some (s', o)) : Ok size s' := by
  cases e with
  | pool e =>
    cases e with
    | begin t ev => exact h.begin hsize hs
    | finish t =>
      obtain ⟨⟨v, outs⟩, hstep, heq⟩ := Option.map_eq_some_iff.1 hs
      obtain ⟨rfl, -⟩ := Prod.mk.inj heq
      have hthreads := PooledServer.threads_step h.threads hstep
      cases PooledServer.step_path hstep with
      | finish t i session ht =>
        exact h.setDoing (h.not_ended ht (by simp)) (by simp) rfl hthreads
    | send q overload msg =>
      obtain ⟨⟨v, outs⟩, hstep, heq⟩ := Option.map_eq_some_iff.1 hs
      obtain ⟨rfl, -⟩ := Prod.mk.inj heq
      have hthreads := PooledServer.threads_step h.threads hstep
      cases PooledServer.step_path hstep with
      | send q overload msg v hlen =>
        exact ⟨hthreads, h.turned.send hlen, h.acceptor, h.joining.trans_eq hlen.symm, h.joins, h.ended⟩
  | chatStop =>
    obtain ⟨rfl, -⟩ := Prod.mk.inj (Option.some.inj hs)
    refine ⟨h.threads, h.turned, h.acceptor, h.joining, h.joins, ?_⟩
    intro t ht
    obtain ⟨i, hi, hstop⟩ := h.ended t ht
    refine ⟨i, hi, ?_⟩
    by_cases hios : i = s.ios
    · exact hios ▸ Function.update_self _ _ _
    · exact (Function.update_of_ne hios _ _).trans hstop
  | poolStop =>
    obtain ⟨rfl, -⟩ := Prod.mk.inj (Option.some.inj hs)
    refine ⟨h.threads, h.turned, h.acceptor, h.joining, h.joins, ?_⟩
    intro t ht
    obtain ⟨i, hi, hstop⟩ := h.ended t ht
    exact ⟨i, hi, by simp [hstop]⟩
  | leave t =>
    obtain ⟨i, ht, hstop, -, rfl⟩ := leave_inv hs
    refine ⟨h.threads, h.turned, h.acceptor, h.joining, h.joins, ?_⟩
    intro u hu
    by_cases hut : u = t
    · exact ⟨i, hut ▸ ht, hstop⟩
    · exact h.ended u ((Function.update_of_ne hut _ _).symm.trans hu)
  | joined t =>
    obtain ⟨i, first, ht, -, -, rfl⟩ := joined_inv hs
    exact h.setDoing (h.not_ended ht (by simp)) (by simp) rfl (threads_setThread h.threads ht)

/-! ## Stopped io_services -/

/-- The io_services that have been stopped: all of them, or the first one. -/
structure Stops (size : Nat) (es : List Event) (s : RunningServer) : Prop where
  ios : s.ios = 0
  stopped_iff : ∀ i < size, s.stopped i = true ↔ Event.poolStop ∈ es ∨ Event.chatStop ∈ es ∧ i = 0

theorem stopped_eq (he : e.isStop = false) (hs : s.step e = some (s', o)) :
    s'.ios = s.ios ∧ s'.stopped = s.stopped := by
  cases e with
  | pool e =>
    cases e with
    | begin t ev =>
      obtain ⟨-, hs⟩ := Option.ite_none_right_eq_some.1 hs
      obtain ⟨r, -, heq⟩ := Option.map_eq_some_iff.1 hs
      obtain ⟨rfl, -⟩ := Prod.mk.inj heq
      exact ⟨rfl, rfl⟩
    | finish | send =>
      obtain ⟨r, -, heq⟩ := Option.map_eq_some_iff.1 hs
      obtain ⟨rfl, -⟩ := Prod.mk.inj heq
      exact ⟨rfl, rfl⟩
  | chatStop | poolStop => cases he
  | leave t =>
    obtain ⟨i, -, -, -, rfl⟩ := leave_inv hs
    exact ⟨rfl, rfl⟩
  | joined t =>
    obtain ⟨i, first, -, -, -, rfl⟩ := joined_inv hs
    exact ⟨rfl, rfl⟩

theorem Stops.step (h : Stops size es s) (hok : Ok size s) (hs : s.step e = some (s', o)) :
    Stops size (es ++ [e]) s' := by
  cases he : e.isStop with
  | false =>
    obtain ⟨hios, hstopped⟩ := stopped_eq he hs
    refine ⟨hios.trans h.ios, ?_⟩
    intro i hi
    have hpool : e ≠ .poolStop := by
      rintro rfl
      cases he
    have hchat : e ≠ .chatStop := by
      rintro rfl
      cases he
    rw [hstopped, h.stopped_iff i hi]
    simp [hpool.symm, hchat.symm]
  | true =>
    cases e with
    | chatStop =>
      obtain ⟨rfl, -⟩ := Prod.mk.inj (Option.some.inj hs)
      refine ⟨h.ios, ?_⟩
      intro i hi
      by_cases hi0 : i = 0
      · simp [hi0, h.ios]
      · simp [hi0, h.ios, h.stopped_iff i hi]
    | poolStop =>
      obtain ⟨rfl, -⟩ := Prod.mk.inj (Option.some.inj hs)
      exact ⟨h.ios, fun i hi => by simp [hok.threads.size_eq, hi]⟩
    | _ => cases he

theorem stops_run (hsize : 0 < size) (hr : machine.Run (start config size) es s out) : Ok size s ∧ Stops size es s := by
  induction hr with
  | nil => exact ⟨ok_start hsize config, (server_start config size).2, fun i _ => by simp [start]⟩
  | snoc _ hs ih => exact ⟨ih.1.step hsize hs, ih.2.step ih.1 hs⟩

/-- Nothing is stopped but by a call. -/
theorem stopped_of_run (hr : machine.Run s es s' out) (hes : ∀ e ∈ es, e.isStop = false) : s'.stopped = s.stopped :=
  (hr.inv (I := fun s' => s'.stopped = s.stopped) (Q := fun _ => True) rfl fun he h hs =>
    ⟨(stopped_eq (hes _ he) hs).2.trans h, fun _ _ => trivial⟩).1

/-- The threads that `start` has started are inside one io_service each, in order. -/
theorem Ok.ios_of_lt (h : Ok size s) (ht : s.threads[t]? = some (Thread.mk i d)) (hlt : t < size) : i = t := by
  have hios : (s.threads.map Thread.ios)[t]? = some i := by simp [ht]
  have hrounds : PooledServer.rounds size s.server.server.objs.length =
      List.range size ++ (List.replicate s.server.server.objs.length (List.range size)).flatten := by
    rw [PooledServer.rounds, Nat.add_comm, List.replicate_succ, List.flatten_cons]
  have heq : s.threads.map Thread.ios = _ := h.threads.ios.trans hrounds
  rw [heq, List.getElem?_append_left (by simpa using hlt), List.getElem?_range hlt] at hios
  exact (Option.some.inj hios).symm

theorem Ok.ios_lt (h : Ok size s) (ht : s.threads[t]? = some (Thread.mk i d)) : i < size := by
  have hmem : i ∈ s.threads.map Thread.ios := List.mem_map.2 ⟨_, List.mem_of_getElem? ht, rfl⟩
  have heq : s.threads.map Thread.ios = _ := h.threads.ios
  rw [heq, PooledServer.rounds, List.mem_flatten] at hmem
  obtain ⟨l, hl, hi⟩ := hmem
  rw [List.eq_of_mem_replicate hl] at hi
  exact List.mem_range.1 hi

/-! ## What is left to do -/

/-- What a thread has to do before it has ended: it may have a handler to return from, and then it leaves. -/
def toDo (s : RunningServer) (t : Nat) : Nat :=
  if s.ended t then 0
  else match s.threads[t]? with
    | none => 0
    | some ⟨_, .waiting⟩ => 1
    | some _ => 2

/-- What all of them have to do. -/
def left (s : RunningServer) : Nat := ∑ t ∈ Finset.range s.threads.length, s.toDo t

theorem toDo_le (s : RunningServer) (t : Nat) : s.toDo t ≤ 2 := by
  unfold toDo
  split
  · omega
  · split <;> omega

theorem left_le (s : RunningServer) : s.left ≤ 2 * s.threads.length := by
  have hle := Finset.sum_le_card_nsmul (Finset.range s.threads.length) s.toDo 2 fun t _ => s.toDo_le t
  rw [Finset.card_range, nsmul_eq_mul] at hle
  unfold left
  rw [Nat.mul_comm]
  exact hle

/-- A thread has less to do, and the others have as much as before. -/
theorem left_lt (hlen : s'.threads.length = s.threads.length) (ht : t < s.threads.length) (hlt : s'.toDo t < s.toDo t)
    (hother : ∀ u ≠ t, s'.toDo u = s.toDo u) : s'.left < s.left := by
  unfold left
  rw [hlen]
  refine Finset.sum_lt_sum (fun u _ => ?_) ⟨t, Finset.mem_range.2 ht, hlt⟩
  by_cases hut : u = t
  · exact hut ▸ le_of_lt hlt
  · exact (hother u hut).le

/-- A handler returns. -/
theorem left_setDoing (ht : s.threads[t]? = some (Thread.mk i d)) (hd : d ≠ .waiting) (he : s.ended t = false)
    (server : TcpServer) : (s.setDoing server t i .waiting).threads.length = s.threads.length ∧
      (s.setDoing server t i .waiting).left < s.left := by
  have hlt := (List.getElem?_eq_some_iff.1 ht).1
  have hlen : (s.setDoing server t i .waiting).threads.length = s.threads.length := List.length_set
  refine ⟨hlen, left_lt hlen hlt ?_ fun u hut => ?_⟩
  · have hnew : (s.setDoing server t i .waiting).threads[t]? = some ⟨i, .waiting⟩ := List.getElem?_set_self hlt
    have hend : (s.setDoing server t i .waiting).ended t = false := he
    have hone : (s.setDoing server t i .waiting).toDo t = 1 := by simp [toDo, hnew, hend]
    have htwo : s.toDo t = 2 := by
      cases d with
      | waiting => exact absurd rfl hd
      | handling | joining => simp [toDo, ht, he]
    omega
  · have hsame : (s.setDoing server t i .waiting).threads[u]? = s.threads[u]? := List.getElem?_set_ne (Ne.symm hut)
    unfold toDo
    rw [hsame]
    rfl

/-- **What returns, leaves less to do.** -/
theorem left_of_return (h : Ok size s) (he : e.isReturn = true) (hs : s.step e = some (s', o)) :
    s'.threads.length = s.threads.length ∧ s'.left < s.left := by
  cases e with
  | pool e =>
    cases e with
    | finish t =>
      obtain ⟨⟨v, outs⟩, hstep, heq⟩ := Option.map_eq_some_iff.1 hs
      obtain ⟨rfl, -⟩ := Prod.mk.inj heq
      cases PooledServer.step_path hstep with
      | finish t i session ht => exact left_setDoing ht (by simp) (h.not_ended ht (by simp)) _
    | begin | send => cases he
  | leave t =>
    obtain ⟨i, ht, -, hend, rfl⟩ := leave_inv hs
    refine ⟨rfl, left_lt rfl (List.getElem?_eq_some_iff.1 ht).1 ?_ fun u hut => ?_⟩
    · have hone : s.toDo t = 1 := by simp [toDo, ht, hend]
      rw [hone]
      simp [toDo]
    · simp [toDo, RunningServer.threads, Function.update_of_ne hut]
  | joined t =>
    obtain ⟨i, first, ht, -, -, rfl⟩ := joined_inv hs
    exact left_setDoing ht (by simp) (h.not_ended ht (by simp)) _
  | chatStop | poolStop => cases he

/-- All io_services have been stopped. -/
def AllStopped (size : Nat) (s : RunningServer) : Prop := ∀ i < size, s.stopped i = true

/-- **Then nothing begins any more.** -/
theorem left_of_other (h : Ok size s) (hstop : AllStopped size s) (he : e.isReturn = false)
    (hs : s.step e = some (s', o)) : s'.threads = s.threads ∧ s'.left = s.left := by
  cases e with
  | pool e =>
    cases e with
    | begin t ev =>
      exfalso
      obtain ⟨hruns, -⟩ := Option.ite_none_right_eq_some.1 hs
      simp only [runs, Bool.and_eq_true, Option.any_eq_true, Bool.not_eq_true'] at hruns
      obtain ⟨-, x, hx, hrun⟩ := hruns
      rw [hstop x.ios (h.ios_lt hx)] at hrun
      cases hrun
    | finish => cases he
    | send q overload msg =>
      obtain ⟨⟨v, outs⟩, hstep, heq⟩ := Option.map_eq_some_iff.1 hs
      obtain ⟨rfl, -⟩ := Prod.mk.inj heq
      cases PooledServer.step_path hstep with
      | send q overload msg v hlen => exact ⟨rfl, rfl⟩
  | chatStop | poolStop =>
    obtain ⟨rfl, -⟩ := Prod.mk.inj (Option.some.inj hs)
    exact ⟨rfl, rfl⟩
  | leave | joined => cases he

theorem allStopped_step (hstop : AllStopped size s) (hs : s.step e = some (s', o)) :
    AllStopped size s' := by
  cases he : e.isStop with
  | false => exact fun i hi => (congrFun (stopped_eq he hs).2 i).trans (hstop i hi)
  | true =>
    cases e with
    | chatStop =>
      obtain ⟨rfl, -⟩ := Prod.mk.inj (Option.some.inj hs)
      intro i hi
      by_cases hios : i = s.ios
      · exact hios ▸ Function.update_self _ _ _
      · exact (Function.update_of_ne hios _ _).trans (hstop i hi)
    | poolStop =>
      obtain ⟨rfl, -⟩ := Prod.mk.inj (Option.some.inj hs)
      intro i hi
      simp [hstop i hi]
    | _ => cases he

/-- **Not all can wait**: the last thread that has not ended waits for nobody. -/
theorem exists_return (h : Ok size s) (hstop : AllStopped size s) (ht : t < s.threads.length)
    (hend : s.ended t = false) : ∃ e, e.isReturn = true ∧ (s.step e).isSome = true := by
  obtain ⟨u, hu, huend, hlater⟩ := exists_last ht hend
  obtain ⟨⟨i, d⟩, hx⟩ : ∃ x, s.threads[u]? = some x := ⟨_, List.getElem?_eq_getElem hu⟩
  cases d with
  | waiting =>
    refine ⟨.leave u, rfl, ?_⟩
    simp [step, leave, hx, hstop i (h.ios_lt hx), huend]
  | handling session =>
    refine ⟨.pool (.finish u), rfl, ?_⟩
    have hfinish : s.server.pool.threads[u]? = some ⟨i, .handling session⟩ := hx
    simp [step, PooledServer.step, hfinish]
  | joining =>
    obtain ⟨first, hfirst, hlt, hle⟩ := h.joins u i hx
    have hended : s.endedFrom first = true := by
      rw [endedFrom, List.all_eq_true]
      intro j hj
      have hj' := List.mem_range.1 hj
      rw [h.threads.size_eq] at hj'
      exact hlater (first + j) (by omega) (by omega)
    refine ⟨.joined u, rfl, ?_⟩
    simp [step, joined, hx, hfirst, hended]

/-- All threads have ended, and `start` has returned. -/
theorem Ok.returned (h : Ok size s) (hended : ∀ t < s.threads.length, s.ended t = true) : s.returned = true := by
  have hlen : s.threads.length = (1 + s.server.server.objs.length) * size := h.threads.length_eq
  rw [RunningServer.returned, endedFrom, List.all_eq_true]
  intro i hi
  have hi' := List.mem_range.1 hi
  rw [h.threads.size_eq] at hi'
  have hle : 1 * size ≤ (1 + s.server.server.objs.length) * size := Nat.mul_le_mul_right _ (by omega)
  exact hended _ (by omega)

/-- **A stopped server ends**: once `IoServicePool::stop` has been called, whatever handlers are being executed and
however many accept handlers wait for their threads, handlers and threads return at most twice as often as there are
threads; and when none can any more, all threads have ended and `ChatServer::start` returns. -/
theorem shutdown_ends (hsize : 0 < size) (hr : machine.Run (start config size) es s out)
    (hstop : Event.poolStop ∈ es) {es' : List Event} {out' : List TcpServer.Out} (hr' : machine.Run s es' s' out') :
    es'.countP Event.isReturn ≤ 2 * s.threads.length ∧ s'.threads.length = s.threads.length ∧
      ((∀ e : Event, e.isReturn = true → s'.step e = none) →
        (∀ t < s'.threads.length, s'.ended t = true) ∧ s'.returned = true) := by
  obtain ⟨hok, hstops⟩ := stops_run hsize hr
  have hall : AllStopped size s := fun i hi => (hstops.stopped_iff i hi).2 (Or.inl hstop)
  obtain ⟨⟨hok', hall', hlen⟩, hle⟩ := hr'.countP_le (p := Event.isReturn) (f := left)
    (I := fun s' => Ok size s' ∧ AllStopped size s' ∧ s'.threads.length = s.threads.length) ⟨hok, hall, rfl⟩
    fun {s₁ e s₂ o} _ h hs => by
      obtain ⟨h₁, hall₁, hlen₁⟩ := h
      refine ⟨⟨h₁.step hsize hs, allStopped_step hall₁ hs, ?_⟩, ?_⟩
      · cases he : e.isReturn with
        | false => rw [(left_of_other h₁ hall₁ he hs).1, hlen₁]
        | true => rw [(left_of_return h₁ he hs).1, hlen₁]
      · cases he : e.isReturn with
        | false => exact (left_of_other h₁ hall₁ he hs).2.le
        | true => exact (left_of_return h₁ he hs).2
  have htotal := s.left_le
  refine ⟨by omega, hlen, ?_⟩
  intro hnone
  have hended : ∀ t < s'.threads.length, s'.ended t = true := by
    intro t ht
    by_contra hend
    obtain ⟨e, he, hsome⟩ := exists_return hok' hall' ht (by simpa using hend)
    rw [hnone e he] at hsome
    cases hsome
  exact ⟨hended, hok'.returned hended⟩

/-- A server with two io_services, a client of which has connected when the io_services are stopped. -/
def poolStopped : List Event := [.pool (.begin 1 (.accept (.ok .loopback))), .poolStop]

/-- The threads end; the accept handler of one of them has waited for two others. -/
def allLeave : List Event := [.leave 0, .leave 2, .leave 3, .joined 1, .leave 1]

theorem shutdown_ends_poolStopped : ∃ s s' out out', machine.Run (start ⟨1⟩ 2) poolStopped s out ∧
    machine.Run s allLeave s' out' ∧ 5 ≤ 2 * s.threads.length ∧ s'.returned = true := by
  refine ⟨_, _, _, _, Machine.run_of_exec rfl, Machine.run_of_exec rfl, ?_⟩
  obtain ⟨hle, -, hend⟩ := shutdown_ends (by decide)
    (Machine.run_of_exec (show machine.exec (start ⟨1⟩ 2) poolStopped = some (_, _) from rfl)) (by simp [poolStopped])
    (Machine.run_of_exec (show machine.exec _ allLeave = some (_, _) from rfl))
  refine ⟨hle, (hend fun e he => ?_).2⟩
  -- none of the four threads can return any more
  cases e with
  | pool e =>
    cases e with
    | finish t => match t with | 0 | 1 | 2 | 3 | _ + 4 => rfl
    | begin | send => cases he
  | leave t | joined t => match t with | 0 | 1 | 2 | 3 | _ + 4 => rfl
  | chatStop | poolStop => cases he

/-- **When a server can be ended**: from the state that any run of the chat server has come to, `ChatServer::start` can
return without a further call of either `stop` iff `IoServicePool::stop` has been called, or `ChatServer::stop` and
there is only one io_service. -/
theorem start_returns_iff (hsize : 0 < size) (hr : machine.Run (start config size) es s out) :
    (∃ es' s' out', machine.Run s es' s' out' ∧ (∀ e ∈ es', e.isStop = false) ∧ s'.returned = true) ↔
      Event.poolStop ∈ es ∨ Event.chatStop ∈ es ∧ size = 1 := by
  obtain ⟨hok, hstops⟩ := stops_run hsize hr
  constructor
  · rintro ⟨es', s', out', hr', hes', hreturned⟩
    have hok' : Ok size s' := (hr'.inv (I := Ok size) (Q := fun _ => True) hok fun _ h hs =>
      ⟨h.step hsize hs, fun _ _ => trivial⟩).1
    -- all threads of the first round have left their io_services
    have hstopped : ∀ i < size, s.stopped i = true := by
      intro i hi
      rw [returned, endedFrom, List.all_eq_true, hok'.threads.size_eq] at hreturned
      have hended := hreturned i (List.mem_range.2 hi)
      rw [Nat.zero_add] at hended
      obtain ⟨j, hj, hstop⟩ := hok'.ended i hended
      rw [stopped_of_run hr' hes', hok'.ios_of_lt hj hi] at hstop
      exact hstop
    by_cases hone : size = 1
    · rcases (hstops.stopped_iff 0 hsize).1 (hstopped 0 hsize) with hpool | ⟨hchat, -⟩
      · exact Or.inl hpool
      · exact Or.inr ⟨hchat, hone⟩
    · rcases (hstops.stopped_iff 1 (by omega)).1 (hstopped 1 (by omega)) with hpool | ⟨-, hzero⟩
      · exact Or.inl hpool
      · cases hzero
  · intro hstop
    have hall : AllStopped size s := by
      intro i hi
      rcases hstop with hpool | ⟨hchat, rfl⟩
      · exact (hstops.stopped_iff i hi).2 (Or.inl hpool)
      · exact (hstops.stopped_iff i hi).2 (Or.inr ⟨hchat, by omega⟩)
    obtain ⟨es', s', out', hr', hes', -, hgoal⟩ := Machine.exists_run_of_progress (M := machine)
      (p := fun e => e.isReturn = true) (I := fun s => Ok size s ∧ AllStopped size s) (f := left)
      (G := fun s => s.returned = true) (fun s₁ hI hnot => by
        obtain ⟨h₁, hall₁⟩ := hI
        obtain ⟨t, ht, hend⟩ : ∃ t < s₁.threads.length, s₁.ended t = false := by
          by_contra hno
          exact hnot (h₁.returned fun t ht => by simpa using fun hend => hno ⟨t, ht, hend⟩)
        obtain ⟨e, he, hsome⟩ := exists_return h₁ hall₁ ht hend
        obtain ⟨⟨s₂, o⟩, hs⟩ := Option.isSome_iff_exists.1 hsome
        exact ⟨e, s₂, o, he, hs, ⟨h₁.step hsize hs, allStopped_step hall₁ hs⟩, (left_of_return h₁ he hs).2⟩)
      s.left s le_rfl ⟨hok, hall⟩
    refine ⟨es', s', out', hr', fun e he => ?_, hgoal⟩
    have hreturn := hes' e he
    cases e with
    | chatStop | poolStop => cases hreturn
    | _ => rfl

/-- The same, when the chat server is stopped. -/
def chatStopped : List Event := [.pool (.begin 1 (.accept (.ok .loopback))), .chatStop]

theorem start_returns_iff_chatStopped : ∃ s out, machine.Run (start ⟨1⟩ 2) chatStopped s out ∧
    ¬ ∃ es' s' out', machine.Run s es' s' out' ∧ (∀ e ∈ es', e.isStop = false) ∧ s'.returned = true := by
  have hr := Machine.run_of_exec (show machine.exec (start ⟨1⟩ 2) chatStopped = some (_, _) from rfl)
  refine ⟨_, _, hr, ?_⟩
  intro hreturns
  simpa [chatStopped] using (start_returns_iff (by decide) hr).1 hreturns

/-! ## What goes on -/

/-- A thread inside `run` of an io_service can take a completion. -/
def Serves (s : RunningServer) (i : Nat) : Prop :=
  ∃ t : Nat, s.threads[t]? = some (Thread.mk i .waiting) ∧ s.runs t = true

/-- A thread can come to that, without a further call of either `stop`. -/
def CanServe (s : RunningServer) (i : Nat) : Prop :=
  ∃ es s' out, machine.Run s es s' out ∧ (∀ e ∈ es, e.isStop = false) ∧ s'.Serves i

theorem runs_iff (ht : s.threads[t]? = some (Thread.mk i d)) :
    s.runs t = true ↔ s.ended t = false ∧ s.stopped i = false := by
  simp [runs, ht]

/-- In each io_service there is a thread that does not wait for others. -/
theorem Ok.exists_working (h : Ok size s) (hi : i < size) :
    ∃ (t : Nat) (d : Doing), s.threads[t]? = some (Thread.mk i d) ∧ d ≠ .joining := by
  have hadd := PooledServer.inside_eq_add s.server.pool i
  rw [h.threads.inside_eq hi, h.turned.countP_joining] at hadd
  have hle := h.joining
  have hpos : 0 < s.server.pool.working i := by
    split at hadd
    · omega
    · omega
  obtain ⟨x, hx, hwork⟩ := List.countP_pos_iff.1 hpos
  obtain ⟨t, ht⟩ := List.mem_iff_getElem?.1 hx
  obtain ⟨rfl, hd⟩ := of_decide_eq_true hwork
  exact ⟨t, x.doing, ht, hd⟩

/-- **An io_service is served until it is stopped.** -/
theorem Ok.canServe_iff (h : Ok size s) (hi : i < size) : s.CanServe i ↔ s.stopped i = false := by
  constructor
  · rintro ⟨es, s', out, hr, hes, t, ht, hruns⟩
    rw [← stopped_of_run hr hes]
    exact ((runs_iff ht).1 hruns).2
  · intro hstop
    obtain ⟨t, d, ht, hd⟩ := h.exists_working hi
    -- a thread that has ended was inside a stopped io_service
    have hend : s.ended t = false := by
      by_contra hended
      obtain ⟨j, hj, hstopped⟩ := h.ended t (by simpa using hended)
      rw [ht] at hj
      cases hj
      rw [hstop] at hstopped
      cases hstopped
    cases d with
    | waiting => exact ⟨[], s, [], .nil, by simp, t, ht, (runs_iff ht).2 ⟨hend, hstop⟩⟩
    | joining => exact absurd rfl hd
    | handling session =>
      have hlt := (List.getElem?_eq_some_iff.1 ht).1
      have hnew : (s.setThread t ⟨i, .waiting⟩).threads[t]? = some ⟨i, .waiting⟩ := List.getElem?_set_self hlt
      have hs : s.step (.pool (.finish t)) = some (s.setThread t ⟨i, .waiting⟩, []) := by
        have hfinish : s.server.pool.threads[t]? = some ⟨i, .handling session⟩ := ht
        simp [RunningServer.step, PooledServer.step, hfinish, setThread, RunningServer.threads]
      exact ⟨[.pool (.finish t)], _, _, .single hs, by simp [Event.isStop], t, hnew, (runs_iff hnew).2 ⟨hend, hstop⟩⟩

theorem Stops.not_stopped_iff (h : Stops size es s) (hi : i < size) :
    s.stopped i = false ↔ Event.poolStop ∉ es ∧ (Event.chatStop ∈ es → i ≠ 0) := by
  rw [← Bool.not_eq_true, h.stopped_iff i hi, not_or, not_and]

/-- **What `ChatServer::stop` leaves**: from the state that any run of the chat server has come to, an accept can still
be handled iff `IoServicePool::stop` has not been called, nor `ChatServer::stop` with one io_service only; and a
completion of the session that was made as the `r`-th iff `IoServicePool::stop` has not been called, nor
`ChatServer::stop` with the socket of that session in the first io_service. -/
theorem served_iff (hsize : 0 < size) (hr : machine.Run (start config size) es s out) :
    (s.CanServe s.server.acceptor ↔ Event.poolStop ∉ es ∧ (Event.chatStop ∈ es → size ≠ 1)) ∧
    ∀ r < s.server.server.objs.length, ∃ i, s.server.sockets[r]? = some i ∧
      (s.CanServe i ↔ Event.poolStop ∉ es ∧ (Event.chatStop ∈ es → (r + 2) % size ≠ 0)) := by
  obtain ⟨hok, hstops⟩ := stops_run hsize hr
  refine ⟨?_, fun r hlt => ?_⟩
  · have hone : s.server.acceptor ≠ 0 ↔ size ≠ 1 := by
      rw [hok.acceptor]
      by_cases h1 : size = 1
      · simp [h1]
      · rw [Nat.mod_eq_of_lt (by omega)]
        simp [h1]
    rw [hok.canServe_iff hok.turned.acceptor, hstops.not_stopped_iff hok.turned.acceptor, hone]
  · have hlen : r < s.server.sockets.length := by
      rw [hok.threads.sockets]
      exact hlt
    have hsocket := List.getElem?_eq_getElem hlen
    generalize s.server.sockets[r] = i at hsocket
    have hturn : i = (r + 2) % size := by
      have hturns := hsocket
      rw [hok.turned.sockets] at hturns
      rw [getElem?_turns hturns, turn, hok.acceptor, Nat.add_assoc, Nat.mod_add_mod]
      congr 1
      omega
    have hi : i < size := hturn ▸ Nat.mod_lt _ hsize
    refine ⟨i, hsocket, ?_⟩
    rw [hok.canServe_iff hi, hstops.not_stopped_iff hi, ← hturn]

theorem served_iff_chatStopped : ∃ s out, machine.Run (start ⟨1⟩ 2) chatStopped s out ∧
    s.CanServe s.server.acceptor ∧ s.server.sockets[0]? = some 0 ∧ ¬ s.CanServe 0 := by
  have hr := Machine.run_of_exec (show machine.exec (start ⟨1⟩ 2) chatStopped = some (_, _) from rfl)
  obtain ⟨hacc, hsessions⟩ := served_iff (by decide) hr
  refine ⟨_, _, hr, hacc.2 (by simp [chatStopped]), rfl, ?_⟩
  obtain ⟨i, hi, hserve⟩ := hsessions 0 (by decide)
  obtain rfl : 0 = i := Option.some.inj hi
  rw [hserve]
  simp [chatStopped]

end RunningServer

end Torinet
