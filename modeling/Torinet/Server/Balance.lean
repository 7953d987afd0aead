import Torinet.Lib.Turns
import Torinet.Server.Threads

/-!
# Who does the work

Every accept handler waits for the threads it has started, and so do all of them in the acceptor's io_service: there one
thread is left to execute handlers, whatever the number of sessions, and in the others all of them are (`one_worker`).
With an io_service only, as `chat_server/main.cpp` makes one by default, handlers are therefore executed one after the
other. The sockets are dealt to the io_services in turn, from the one after the acceptor's on (`balanced`).
-/

namespace Torinet

open Lib

namespace IoServicePool

/-- The threads inside `run` of the `i`-th io_service that do not wait for others. -/
def working (p : IoServicePool) (i : Nat) : Nat := p.threads.countP fun t => t.ios = i ∧ t.doing ≠ .joining

end IoServicePool

namespace PooledServer

open IoServicePool (Thread Doing)

variable {config : ServerConfig} {size next : Nat} {s s' : PooledServer} {e : Event} {es : List Event}
  {out o : List TcpServer.Out} {ts : List Thread} {x : Thread} {d : Doing} {t t' i i' r : Nat}

/-- The threads that wait for others. -/
def joining (s : PooledServer) : Nat := s.pool.threads.countP fun t => t.doing = .joining

/-- Only threads of the acceptor's io_service wait for others, and the sockets have been dealt in turn. -/
structure Turned (size : Nat) (s : PooledServer) : Prop where
  acceptor : s.acceptor < size
  joins : ∀ x ∈ s.pool.threads, x.doing = .joining → x.ios = s.acceptor
  sockets : s.sockets = turns size (s.acceptor + 1) s.server.objs.length
  socket : s.socket = turn size (s.acceptor + 1) s.server.objs.length
  next : s.pool.next = s.socket + 1

/-- And for each session one of them waits for others. -/
structure Dealt (size : Nat) (s : PooledServer) : Prop extends Turned size s where
  joining_eq : s.joining = s.server.objs.length

/-! ## Threads -/

theorem countP_joining_set (ht : ts[t]? = some x) (hx : x.doing ≠ .joining) (i : Nat) (d : Doing) :
    (ts.set t ⟨i, d⟩).countP (fun t => t.doing = .joining) =
      ts.countP (fun t => t.doing = .joining) + if d = .joining then 1 else 0 := by
  obtain ⟨hlt, rfl⟩ := List.getElem?_eq_some_iff.1 ht
  rw [List.countP_set hlt]
  simp [hx]

theorem countP_joining_run (n : Nat) :
    ((List.range n).map fun i => (⟨i, .waiting⟩ : Thread)).countP (fun t => t.doing = .joining) = 0 := by
  rw [List.countP_eq_zero]
  intro x hx
  obtain ⟨i, -, rfl⟩ := List.mem_map.1 hx
  simp

/-- The threads inside `run` of an io_service wait for others, or do not. -/
theorem inside_eq_add (p : IoServicePool) (i : Nat) :
    p.inside i = p.working i + p.threads.countP fun t => t.ios = i ∧ t.doing = .joining := by
  unfold IoServicePool.inside IoServicePool.working
  induction p.threads with
  | nil => rfl
  | cons x ts ih =>
    simp only [List.countP_cons, ih]
    by_cases hi : x.ios = i <;> by_cases hd : x.doing = .joining <;> simp [hi, hd] <;> omega

/-- A thread that has not waited for others does something else, and does not wait for others either. -/
theorem joining_setThread (ht : s.pool.threads[t]? = some x) (hx : x.doing ≠ .joining) (hd : d ≠ .joining) (i : Nat)
    (server : TcpServer) : joining { s with
      server := server
      pool := { s.pool with threads := s.pool.threads.set t ⟨i, d⟩ } } = s.joining := by
  rw [joining, countP_joining_set ht hx, if_neg hd, Nat.add_zero, joining]

/-- The accept handler is one more that waits. -/
theorem joining_accepted (ht : s.pool.threads[t]? = some ⟨i, .waiting⟩) (server : TcpServer) :
    ({ s with server := server }.handleAccepted t i).joining = s.joining + 1 := by
  simp only [handleAccepted, startAccept, IoServicePool.getIoService, IoServicePool.run, joining, List.countP_append,
    countP_joining_run, countP_joining_set ht (by simp), if_true, Nat.add_zero]

/-- What a thread does while it does not wait for others changes nothing. -/
theorem Turned.setThread (h : Turned size s) (hd : d ≠ .joining) {server : TcpServer}
    (hlen : server.objs.length = s.server.objs.length) (t i : Nat) :
    Turned size { s with
      server := server
      pool := { s.pool with threads := s.pool.threads.set t ⟨i, d⟩ } } where
  acceptor := h.acceptor
  joins y hy hyd := by
    obtain ⟨j, hj⟩ := List.mem_iff_getElem?.1 hy
    rcases of_getElem?_set hj with ⟨-, rfl⟩ | hj
    · exact absurd hyd hd
    · exact h.joins y (List.mem_of_getElem? hj) hyd
  sockets := by rw [hlen]; exact h.sockets
  socket := by rw [hlen]; exact h.socket
  next := h.next

/-- A session is made, and the accept handler waits for the threads that it starts. -/
theorem Turned.accepted (h : Turned size s) (hsize : s.pool.size = size) {server : TcpServer}
    (hlen : server.objs.length = s.server.objs.length + 1) (t : Nat) :
    Turned size ({ s with server := server }.handleAccepted t s.acceptor) where
  acceptor := h.acceptor
  joins y hy hyd := by
    obtain ⟨j, hj⟩ := List.mem_iff_getElem?.1 hy
    rcases of_getElem?_run hj with hj | hwait
    · rcases of_getElem?_set hj with ⟨-, rfl⟩ | hj
      · rfl
      · exact h.joins y (List.mem_of_getElem? hj) hyd
    · rw [hwait] at hyd
      cases hyd
  sockets := by
    simp only [handleAccepted, startAccept, hlen, turns_succ, h.sockets, h.socket]
  socket := by
    have hpos := Nat.zero_lt_of_lt h.acceptor
    simp only [handleAccepted, startAccept, IoServicePool.getIoService, hlen, turn_succ hpos, hsize, h.next, h.socket]
  next := rfl

theorem Turned.send (h : Turned size s) {server : TcpServer} (hlen : server.objs.length = s.server.objs.length) :
    Turned size { s with server := server } :=
  ⟨h.acceptor, h.joins, by rw [hlen]; exact h.sockets, by rw [hlen]; exact h.socket, h.next⟩

theorem turned_listen (hsize : 0 < size) (config : ServerConfig) (next : Nat) :
    Turned size (listen config ⟨size, next, []⟩) where
  acceptor := by
    simp only [listen, startAccept, IoServicePool.getIoService]
    split <;> omega
  joins y hy hyd := by
    obtain ⟨j, hj⟩ := List.mem_iff_getElem?.1 hy
    rcases of_getElem?_run hj with hj | hwait
    · cases hj
    · rw [hwait] at hyd
      cases hyd
  sockets := rfl
  socket := by
    have hlt : (if next ≥ size then 0 else next) < size := by split <;> omega
    simp only [listen, startAccept, IoServicePool.getIoService]
    generalize (if next ≥ size then 0 else next) = a at hlt ⊢
    rw [turn]
    split
    · obtain rfl : size = a + 1 := by omega
      exact (Nat.mod_self _).symm
    · exact (Nat.mod_eq_of_lt (by omega)).symm
  next := rfl

theorem joining_listen (config : ServerConfig) (size next : Nat) : (listen config ⟨size, next, []⟩).joining = 0 := by
  simp [listen, startAccept, IoServicePool.run, IoServicePool.getIoService, joining, List.countP_eq_zero]

/-- **A step keeps it.** -/
theorem dealt_step (h : Dealt size s) (hsize : s.pool.size = size) (hs : s.step e = some (s', o)) : Dealt size s' := by
  cases step_path hs with
  | accepted t a u ht hroom hlen =>
    exact ⟨h.toTurned.accepted hsize hlen t, by rw [joining_accepted ht, h.joining_eq]; exact hlen.symm⟩
  | handler t i e session u ht hop hno hlen =>
    refine ⟨h.toTurned.setThread (by simp) hlen t i, ?_⟩
    rw [joining_setThread ht (by simp) (by simp), h.joining_eq]
    exact hlen.symm
  | finish t i session ht =>
    refine ⟨h.toTurned.setThread (by simp) rfl t i, ?_⟩
    rw [joining_setThread ht (by simp) (by simp), h.joining_eq]
  | send q overload msg u hlen => exact ⟨h.toTurned.send hlen, h.joining_eq.trans hlen.symm⟩

theorem dealt_run (hsize : 0 < size) (hr : machine.Run (listen config ⟨size, next, []⟩) es s out) :
    Threads size s ∧ Dealt size s := by
  refine (hr.inv (I := fun s => Threads size s ∧ Dealt size s) (Q := fun _ => True)
    ⟨threads_listen config size next, turned_listen hsize config next, joining_listen config size next⟩
    fun _ h hs => ⟨?_, fun _ _ => trivial⟩).1
  exact ⟨threads_step h.1 hs, dealt_step h.2 h.1.size_eq hs⟩

/-- All threads that wait for others are inside the acceptor's io_service. -/
theorem Turned.countP_joining (h : Turned size s) (i : Nat) :
    (s.pool.threads.countP fun t => t.ios = i ∧ t.doing = .joining) = if i = s.acceptor then s.joining else 0 := by
  split
  · rename_i hi
    rw [joining]
    apply List.countP_congr
    intro x hx
    simp only [decide_eq_true_iff]
    exact ⟨And.right, fun hd => ⟨(h.joins x hx hd).trans hi.symm, hd⟩⟩
  · rename_i hi
    rw [List.countP_eq_zero]
    intro x hx
    simp only [decide_eq_true_iff]
    rintro ⟨rfl, hd⟩
    exact hi (h.joins x hx hd)

/-- Two threads that do not wait for others, where only one does not. -/
theorem eq_of_working_le (hone : s.pool.working i ≤ 1) {d d' : Doing} (ht : s.pool.threads[t]? = some (Thread.mk i d))
    (ht' : s.pool.threads[t']? = some (Thread.mk i d')) (hd : d ≠ .joining) (hd' : d' ≠ .joining) : t = t' := by
  unfold IoServicePool.working at hone
  rcases Nat.lt_trichotomy t t' with hlt | heq | hlt
  · have htwo := two_le_countP (p := fun t => decide (t.ios = i ∧ t.doing ≠ .joining)) hlt ht ht' (by simp [hd])
      (by simp [hd'])
    omega
  · exact heq
  · have htwo := two_le_countP (p := fun t => decide (t.ios = i ∧ t.doing ≠ .joining)) hlt ht' ht (by simp [hd'])
      (by simp [hd])
    omega

/-- No two threads inside the given io_services execute handlers at the same time. -/
def OneAtATime (s : PooledServer) (ios : Nat → Prop) : Prop :=
  ∀ (t t' i i' : Nat) (session session' : Option Nat), ios i → ios i' →
    s.pool.threads[t]? = some (Thread.mk i (.handling session)) →
    s.pool.threads[t']? = some (Thread.mk i' (.handling session')) → t = t'

/-- **Who is left to work**: throughout a run of a server with a pool of any size, one thread of the acceptor's
io_service does not wait for others, and each thread of the other ones; so handlers of the acceptor's io_service are
executed one after the other, and all handlers are, where there is only one io_service. -/
theorem one_worker (hsize : 0 < size) (hr : machine.Run (listen config ⟨size, next, []⟩) es s out) :
    (∀ i < size, s.pool.working i = if i = s.acceptor then 1 else 1 + s.server.objs.length) ∧
      OneAtATime s (fun i => i = s.acceptor) ∧ (size = 1 → OneAtATime s fun _ => True) := by
  obtain ⟨hthreads, hdealt⟩ := dealt_run hsize hr
  have hworking : ∀ i < size, s.pool.working i = if i = s.acceptor then 1 else 1 + s.server.objs.length := by
    intro i hi
    have hadd := inside_eq_add s.pool i
    rw [hthreads.inside_eq hi, hdealt.toTurned.countP_joining, hdealt.joining_eq] at hadd
    by_cases hacc : i = s.acceptor
    · rw [if_pos hacc] at hadd ⊢
      omega
    · rw [if_neg hacc] at hadd ⊢
      omega
  have hone : s.pool.working s.acceptor ≤ 1 := by
    rw [hworking _ hdealt.acceptor, if_pos rfl]
  have hserial : OneAtATime s fun i => i = s.acceptor := by
    rintro t t' _ _ session session' rfl rfl ht ht'
    exact eq_of_working_le hone ht ht' (by simp) (by simp)
  refine ⟨hworking, hserial, ?_⟩
  rintro rfl t t' i i' session session' - - ht ht'
  -- the only io_service is the acceptor's
  have hios : ∀ {t i : Nat} {d : Doing}, s.pool.threads[t]? = some (Thread.mk i d) → i = s.acceptor := by
    intro t i d ht
    have hm : i ∈ s.pool.threads.map Thread.ios := List.mem_map.2 ⟨_, List.mem_of_getElem? ht, rfl⟩
    have hlt := hdealt.acceptor
    rw [hthreads.ios, rounds] at hm
    have hzero : i = 0 := by simpa using hm
    omega
  exact hserial t t' i i' session session' (hios ht) (hios ht') ht ht'

/-- A server with two io_services and one client: the acceptor's io_service has one thread left, the other one two. -/
theorem one_worker_handlesTwice : ∃ s out, machine.Run (listen ⟨1⟩ (.new 2)) handlesTwice s out ∧
    s.pool.working 0 = 1 ∧ s.pool.working 1 = 2 ∧ OneAtATime s (fun i => i = 0) := by
  have hr : ∃ s out, machine.Run (listen ⟨1⟩ (.new 2)) handlesTwice s out ∧ s.acceptor = 0 ∧
      s.server.objs.length = 1 := ⟨_, _, Machine.run_of_exec rfl, rfl, rfl⟩
  obtain ⟨s, out, hr, hacc, hlen⟩ := hr
  obtain ⟨hworking, hserial, -⟩ := one_worker (by decide) hr
  rw [hacc, hlen] at hworking
  exact ⟨s, out, hr, hworking 0 (by decide), hworking 1 (by decide), hacc ▸ hserial⟩

/-- **The io_services take turns**: throughout a run of a server with a pool of any size, the socket of each session
belongs to the io_service after that of the session before it, the first one to that after the acceptor's; so the
numbers of sockets of any two io_services differ by one at most. -/
theorem balanced (hsize : 0 < size) (hr : machine.Run (listen config ⟨size, next, []⟩) es s out) :
    (∀ r i : Nat, s.sockets[r]? = some i → i = (s.acceptor + 1 + r) % size) ∧
    ∀ i j : Nat, i < size → j < size → s.sockets.count i ≤ s.sockets.count j + 1 := by
  obtain ⟨-, hdealt⟩ := dealt_run hsize hr
  rw [hdealt.sockets]
  refine ⟨fun r i hi => getElem?_turns hi, fun i j hi hj => ?_⟩
  obtain ⟨-, hle⟩ := @count_turns size (s.acceptor + 1) s.server.objs.length i hi
  obtain ⟨hge, -⟩ := @count_turns size (s.acceptor + 1) s.server.objs.length j hj
  omega

theorem balanced_handlesTwice : ∃ s out, machine.Run (listen ⟨1⟩ (.new 2)) handlesTwice s out ∧
    s.sockets[0]? = some 1 ∧ s.acceptor = 0 ∧ 1 = (0 + 1 + 0) % 2 ∧ s.sockets.count 1 ≤ s.sockets.count 0 + 1 := by
  have hr : ∃ s out, machine.Run (listen ⟨1⟩ (.new 2)) handlesTwice s out ∧ s.sockets[0]? = some 1 ∧ s.acceptor = 0 :=
    ⟨_, _, Machine.run_of_exec rfl, rfl, rfl⟩
  obtain ⟨s, out, hr, hsocket, hacc⟩ := hr
  obtain ⟨hturn, hcount⟩ := balanced (by decide) hr
  have hfirst := hturn 0 1 hsocket
  rw [hacc] at hfirst
  exact ⟨s, out, hr, hsocket, hacc, hfirst, hcount 1 0 (by decide) (by decide)⟩

end PooledServer

end Torinet
