import Torinet.Client.Program

/-!
# How a program ends

`main` waits for the threads of its clients, so a program that has been told to quit ends when all of them have left
`io_service::run`. The thread of a client does so when the client is stopped, or when its connect or its read has failed
and no write is outstanding (`ends_iff`): until then a read is always outstanding, and `quit` alone ends nothing.
-/

namespace Torinet

open Lib

namespace TcpSession

variable {p p' : TcpSession} {o : List Out} {m : Msg}

/-- The outstanding operations without the writes. -/
def waiting (p : TcpSession) : Nat := p.connects + p.reads.length

/-- The completion of a connect or of a read, with an error. -/
def Event.failed : Event → Bool
  | .connectDone (some _) | .readDone _ (.error _) => true
  | _ => false

theorem length_eraseIdx_reads {i : Nat} {op : ReadOp} (hop : p.reads[i]? = some op) :
    (p.reads.eraseIdx i).length + 1 = p.reads.length := by
  have hlt := (List.getElem?_eq_some_iff.1 hop).1
  rw [List.length_eraseIdx_of_lt hlt]
  omega

/-- After a completion something else is waited for, unless it has failed. -/
theorem waiting_connectDone {ec : Option ErrorCode} (hs : p.step (.connectDone ec) = some (p', o)) :
    p'.waiting + (if (Event.connectDone ec).failed then 1 else 0) = p.waiting := by
  have hpath := step_path hs
  cases hpath with
  | connectOk hc =>
    simp only [waiting, Event.failed, List.length_append, List.length_singleton]
    simp only [Bool.false_eq_true, if_false]
    omega
  | connectError ec hc =>
    simp only [waiting, Event.failed, if_true]
    omega

theorem waiting_readDone {i : Nat} {res : Except ErrorCode (List UInt8)}
    (hs : p.step (.readDone i res) = some (p', o)) :
    p'.waiting + (if (Event.readDone i res).failed then 1 else 0) = p.waiting := by
  have hpath := step_path hs
  cases hpath with
  | headerRejected _ _ _ hop | headerAccepted _ _ _ hop | bodyOk _ _ _ hop =>
    have hlen := length_eraseIdx_reads hop
    simp only [waiting, Event.failed, List.length_append, List.length_singleton]
    simp only [Bool.false_eq_true, if_false]
    omega
  | headerError _ _ _ hop | bodyError _ _ _ hop =>
    have hlen := length_eraseIdx_reads hop
    simp only [waiting, Event.failed, if_true]
    omega

theorem waiting_writeDone {i : Nat} {ec : Option ErrorCode} (hs : p.step (.writeDone i ec) = some (p', o)) :
    p'.waiting = p.waiting := by
  have hpath := step_path hs
  cases hpath with
  | writeError | writeLast | writeNext => rfl

/-- A message is sent. -/
theorem waiting_sendRef (p : TcpSession) (m : Msg) :
    (p.sendRef m).1.waiting = p.waiting ∧ ((p.sendRef m).1.writes = [] → p.writes = []) := by
  have hs : p.step (.send .ref m) = some (p.sendRef m) := rfl
  generalize p.sendRef m = r at hs
  obtain ⟨p', o⟩ := r
  have hpath := step_path hs
  cases hpath with
  | sendIdle => exact ⟨rfl, by simp⟩
  | sendBusy => exact ⟨rfl, fun h => h⟩

end TcpSession

namespace ChatClient

open TcpServer (sessionOuts)

variable {s s' : ChatClient} {boostSplit : List UInt8 → SplitVector} {mem : Nat → Msg} {str : List UInt8}
  {outs : List Out} {i : Nat} {c c' : Client}

theorem lookup_stop {w : List UInt8} (h : table.lookup w = some .cmdStop) : w = ascii "stop" := by
  by_contra hstop
  simp only [table, List.lookup_cons, beq_eq_false_iff_ne.2 hstop, List.lookup_nil] at h
  split at h
  · cases h
  · split at h <;> cases h

/-- Only `stop` stops a client. -/
theorem readLine_stopped (h : Tokens isBlank str (boostSplit str))
    (hr : s.readLine boostSplit mem str = some (s', outs)) (hi : s.clientVec[i]? = some c)
    (hi' : s'.clientVec[i]? = some c') :
    c'.stopped = (c.stopped || decide (name str = ascii "stop")) := by
  by_cases hstop : name str = ascii "stop"
  · have hlookup : table.lookup (name str) = some .cmdStop := by
      rw [hstop]
      decide
    rw [readLine_of_lookup h hlookup] at hr
    obtain ⟨rfl, -⟩ := Prod.mk.inj (Option.some.inj hr)
    rw [List.getElem?_map, hi] at hi'
    obtain rfl := Option.some.inj hi'
    simp [hstop, Client.stop]
  · simp only [hstop, decide_false, Bool.or_false]
    rcases readLine_cases s mem h with ⟨b, hr', -⟩ | ⟨command, hlookup, hr'⟩
    · obtain ⟨rfl, -⟩ := Prod.mk.inj (Option.some.inj (hr'.symm.trans hr))
      obtain rfl := Option.some.inj (hi.symm.trans hi')
      rfl
    · rw [hr'] at hr
      cases command with
      | cmdCreateUser =>
        obtain ⟨⟨clients, os⟩, heach, heq⟩ := Option.map_eq_some_iff.1 hr
        obtain ⟨rfl, rfl⟩ := Prod.mk.inj heq
        obtain ⟨-, -, hall⟩ := eachClient_spec heach
        obtain ⟨c₁, hc₁, hf⟩ := hall i c hi
        obtain rfl := Option.some.inj (hi'.symm.trans hc₁)
        obtain ⟨m, hm, -⟩ := createUser_spec (mem (0 + i)) c
        exact congrArg (fun r => r.1.stopped) (Option.some.inj (hf.symm.trans hm))
      | cmdSendMessge =>
        obtain ⟨⟨clients, os⟩, heach, heq⟩ := Option.map_eq_some_iff.1 hr
        obtain ⟨rfl, rfl⟩ := Prod.mk.inj heq
        obtain ⟨-, -, hall⟩ := eachClient_spec heach
        obtain ⟨c₁, hc₁, hf⟩ := hall i c hi
        obtain rfl := Option.some.inj (hi'.symm.trans hc₁)
        obtain ⟨word, hword, -⟩ := (sendMessge_isSome_iff (mem (0 + i)) c).1 ⟨_, hf⟩
        obtain ⟨m, hm, -⟩ := sendMessge_spec hword hf
        exact congrArg (fun r => r.1.stopped) hm
      | cmdStop => exact absurd (lookup_stop hlookup) hstop

end ChatClient

namespace ChatProgram

open TcpSession (waiting)
open Torinet.System (act)

variable {boostSplit : List UInt8 → SplitVector} {s s' : ChatProgram} {e : Event} {es : List Event}
  {out o : List ChatClient.Out} {i k : Nat} {ep : Endpoint} {mem : TcpSession.Memory} {mems : List TcpSession.Memory}
  {c c' : Client}

/-- A `stop` line. -/
def Event.isStop : Event → Bool
  | .readLine _ str => decide (ChatClient.name str = ascii "stop")
  | _ => false

/-- The connect or a read of a client fails. -/
def Event.fails (i : Nat) : Event → Bool
  | .connectDone k ec => k == i && (TcpSession.Event.connectDone ec).failed
  | .readDone k j res => k == i && (TcpSession.Event.readDone j res).failed
  | _ => false

/-- How often they have. -/
def failures (i : Nat) (es : List Event) : Nat := es.countP (Event.fails i)

theorem failures_snoc : failures i (es ++ [e]) = failures i es + if e.fails i then 1 else 0 := by
  rw [failures, failures, List.countP_append, List.countP_singleton]

/-- Once the thread of a client has begun, its connect or a read is outstanding, until one has failed. -/
structure Lives (es : List Event) (s : ChatProgram) (i : Nat) (c : Client) : Prop where
  client : s.chat.clientVec[i]? = some c
  waiting_eq : c.session.waiting + failures i es = if s.started i then 1 else 0

/-- At some point of the run the connect or a read of the client had failed, and no write was outstanding. -/
def WasIdle (boostSplit : List UInt8 → SplitVector) (ep : Endpoint) (mems : List TcpSession.Memory) (i : Nat)
    (es : List Event) : Prop :=
  ∃ pre s out c, pre <+: es ∧ (machine boostSplit).Run (new ep mems) pre s out ∧ s.chat.clientVec[i]? = some c ∧
    0 < failures i pre ∧ c.session.writes = []

theorem wasIdle_snoc (hr : (machine boostSplit).Run (new ep mems) (es ++ [e]) s out)
    (hi : s.chat.clientVec[i]? = some c) : WasIdle boostSplit ep mems i (es ++ [e]) ↔
      WasIdle boostSplit ep mems i es ∨ 0 < failures i (es ++ [e]) ∧ c.session.writes = [] := by
  constructor
  · rintro ⟨pre, s₁, out₁, c₁, hp, hr₁, hi₁, hfail, hwrites⟩
    rcases List.prefix_concat_iff.1 hp with rfl | hp'
    · obtain ⟨rfl, rfl⟩ := hr.det hr₁
      obtain rfl := Option.some.inj (hi.symm.trans hi₁)
      exact Or.inr ⟨hfail, hwrites⟩
    · exact Or.inl ⟨pre, s₁, out₁, c₁, hp', hr₁, hi₁, hfail, hwrites⟩
  · rintro (⟨pre, s₁, out₁, c₁, hp, hr₁, hi₁, hfail, hwrites⟩ | ⟨hfail, hwrites⟩)
    · exact ⟨pre, s₁, out₁, c₁, hp.trans (List.prefix_append _ _), hr₁, hi₁, hfail, hwrites⟩
    · exact ⟨_, s, out, c, List.prefix_refl _, hr, hi, hfail, hwrites⟩

/-- Why a client is stopped. -/
def Ends (boostSplit : List UInt8 → SplitVector) (ep : Endpoint) (mems : List TcpSession.Memory) (es : List Event)
    (i : Nat) (c : Client) : Prop :=
  c.stopped = true ↔ es.any Event.isStop = true ∨ WasIdle boostSplit ep mems i es

/-! ## Steps -/

/-- The client waits for as much as before, if perhaps it has sent something. -/
theorem Lives.same (h : Lives es s i c) (hends : Ends boostSplit ep mems es i c)
    (hr : (machine boostSplit).Run (new ep mems) es s out)
    (hr' : (machine boostSplit).Run (new ep mems) (es ++ [e]) s' (out ++ o))
    (hi' : s'.chat.clientVec[i]? = some c') (hwaiting : c'.session.waiting = c.session.waiting)
    (hwrites : c'.session.writes = [] → c.session.writes = []) (hstopped : c'.stopped = (c.stopped || e.isStop))
    (hstarted : s'.started i = s.started i) (hfails : e.fails i = false) :
    Lives (es ++ [e]) s' i c' ∧ Ends boostSplit ep mems (es ++ [e]) i c' := by
  have hfailures : failures i (es ++ [e]) = failures i es := by
    rw [failures_snoc, hfails]
    rfl
  refine ⟨⟨hi', ?_⟩, ?_⟩
  · rw [hwaiting, hfailures, hstarted]
    exact h.waiting_eq
  · have hwhy : c.stopped = true ↔ _ := hends
    rw [Ends, wasIdle_snoc hr' hi', hstopped, Bool.or_eq_true, hwhy, List.any_append, Bool.or_eq_true, hfailures]
    have hidle : 0 < failures i es ∧ c'.session.writes = [] → WasIdle boostSplit ep mems i es :=
      fun hidle => ⟨es, s, out, c, List.prefix_refl _, hr, h.client, hidle.1, hwrites hidle.2⟩
    simp only [List.any_cons, List.any_nil, Bool.or_false]
    constructor
    · rintro ((hstop | hidle') | hstop)
      · exact Or.inl (Or.inl hstop)
      · exact Or.inr (Or.inl hidle')
      · exact Or.inl (Or.inr hstop)
    · rintro ((hstop | hstop) | hidle' | hnow)
      · exact Or.inl (Or.inl hstop)
      · exact Or.inr hstop
      · exact Or.inl (Or.inr hidle')
      · exact Or.inl (Or.inr (hidle hnow))

/-- A completion is handled, and the client stops when nothing is outstanding. -/
theorem Lives.handle {ev : TcpSession.Event} (h : Lives es s i c) (hends : Ends boostSplit ep mems es i c)
    (hr' : (machine boostSplit).Run (new ep mems) (es ++ [e]) s' (out ++ o)) (hs : s.handle i ev = some (s', o))
    (hstop : e.isStop = false) (hfails : e.fails i = ev.failed)
    (hev : ∀ p' o', c.session.step ev = some (p', o') →
      p'.waiting + (if ev.failed then 1 else 0) = c.session.waiting) :
    ∃ c', Lives (es ++ [e]) s' i c' ∧ Ends boostSplit ep mems (es ++ [e]) i c' := by
  obtain ⟨c₀, hi, hs⟩ := Option.bind_eq_some_iff.1 hs
  obtain rfl := Option.some.inj (h.client.symm.trans hi)
  simp only [Option.ite_none_right_eq_some] at hs
  obtain ⟨⟨hstarted, hruns⟩, hs⟩ := hs
  obtain ⟨⟨c₁, outs⟩, hstep, heq⟩ := Option.map_eq_some_iff.1 hs
  obtain ⟨rfl, rfl⟩ := Prod.mk.inj heq
  obtain ⟨hsession, hkept⟩ := Client.sessionStep_iff.1 hstep
  have hwaiting := hev _ _ hsession
  have hone := h.waiting_eq
  rw [if_pos hstarted] at hone
  have hi' : (s.setClient i (stopIdle c₁)).chat.clientVec[i]? = some (stopIdle c₁) :=
    List.getElem?_set_self (List.getElem?_eq_some_iff.1 hi).1
  have hfailures : c₁.session.waiting + failures i (es ++ [e]) = 1 := by
    rw [failures_snoc, hfails]
    omega
  refine ⟨stopIdle c₁, ⟨hi', ?_⟩, ?_⟩
  · rw [session_stopIdle, hfailures]
    exact (if_pos hstarted).symm
  · -- the handler has run, so the client had not been stopped
    have hnot : ¬ (es.any Event.isStop = true ∨ WasIdle boostSplit ep mems i es) := by
      intro hwhy
      have hstopped := hends.2 hwhy
      rw [hruns] at hstopped
      cases hstopped
    rw [Ends, wasIdle_snoc hr' hi', session_stopIdle, List.any_append, Bool.or_eq_true]
    have hlast : [e].any Event.isStop = false := by simp [hstop]
    have hidle : (stopIdle c₁).stopped = true ↔ c₁.session.waiting = 0 ∧ c₁.session.writes = [] := by
      unfold stopIdle waiting
      split
      · rename_i hnone
        simp [Client.stop, hnone]
      · rename_i hsome
        rw [hkept, hruns, Nat.add_eq_zero_iff, List.length_eq_zero_iff, and_assoc]
        simp [hsome]
    have hzero : c₁.session.waiting = 0 ↔ 0 < failures i (es ++ [e]) := by omega
    rw [hidle, hzero, hlast]
    simp only [Bool.false_eq_true, or_false]
    constructor
    · exact fun hnow => Or.inr (Or.inr hnow)
    · rintro (hstop | hidle' | hnow)
      · exact absurd (Or.inl hstop) hnot
      · exact absurd (Or.inr hidle') hnot
      · exact hnow

/-- The thread of the client begins, and waits for the connection. -/
theorem Lives.startRx {outs : List TcpSession.Out} {x : List ChatClient.Out} (h : Lives es s i c)
    (hends : Ends boostSplit ep mems es i c)
    (hr' : (machine boostSplit).Run (new ep mems) (es ++ [.startRx i])
      { s.setClient i c' with started := Function.update s.started i true } (out ++ x))
    (hnot : s.started i = false) (hs : c.sessionStep .connect = some (c', outs)) :
    ∃ c'', Lives (es ++ [.startRx i]) { s.setClient i c' with started := Function.update s.started i true } i c'' ∧
      Ends boostSplit ep mems (es ++ [.startRx i]) i c'' := by
  obtain ⟨hsession, hstopped⟩ := Client.sessionStep_iff.1 hs
  have hconnect : c'.session.waiting = c.session.waiting + 1 := by
    obtain ⟨heq, -⟩ := Prod.mk.inj (Option.some.inj hsession)
    rw [← heq]
    exact Nat.add_right_comm _ _ _
  have hzero := h.waiting_eq
  rw [if_neg (by simp [hnot])] at hzero
  have hfailures : failures i (es ++ [.startRx i]) = 0 := by
    rw [failures_snoc]
    have hfails : (Event.startRx i).fails i = false := rfl
    rw [hfails]
    simp only [Bool.false_eq_true, if_false]
    omega
  have hi' : ({ s.setClient i c' with started := Function.update s.started i true } : ChatProgram).chat.clientVec[i]? =
      some c' := List.getElem?_set_self (List.getElem?_eq_some_iff.1 h.client).1
  refine ⟨c', ⟨hi', ?_⟩, ?_⟩
  · have hbegun : ({ s.setClient i c' with started := Function.update s.started i true } : ChatProgram).started i =
        true := Function.update_self _ _ _
    rw [hfailures, hbegun, if_pos rfl]
    omega
  · have hwhy : c.stopped = true ↔ _ := hends
    have hlast : [Event.startRx i].any Event.isStop = false := rfl
    rw [Ends, wasIdle_snoc hr' hi', hstopped, hwhy, hfailures, List.any_append, hlast, Bool.or_false]
    simp

/-- A completion of another client. -/
theorem handle_other {ev : TcpSession.Event} (hs : s.handle k ev = some (s', o)) (hki : k ≠ i) :
    s'.chat.clientVec[i]? = s.chat.clientVec[i]? ∧ s'.started i = s.started i := by
  obtain ⟨c₀, hk, hs⟩ := Option.bind_eq_some_iff.1 hs
  obtain ⟨-, hs⟩ := Option.ite_none_right_eq_some.1 hs
  obtain ⟨⟨c₁, outs⟩, -, heq⟩ := Option.map_eq_some_iff.1 hs
  obtain ⟨rfl, -⟩ := Prod.mk.inj heq
  exact ⟨List.getElem?_set_ne hki, rfl⟩

/-- **A step keeps it.** -/
theorem Lives.step (hsplit : ∀ str, Tokens ChatClient.isBlank str (boostSplit str)) (h : Lives es s i c)
    (hends : Ends boostSplit ep mems es i c) (hr : (machine boostSplit).Run (new ep mems) es s out)
    (hs : s.step boostSplit e = some (s', o)) :
    ∃ c', Lives (es ++ [e]) s' i c' ∧ Ends boostSplit ep mems (es ++ [e]) i c' := by
  have hr' : (machine boostSplit).Run (new ep mems) (es ++ [e]) s' (out ++ o) := .snoc hr hs
  -- what happens to another client changes nothing
  have hother : s'.chat.clientVec[i]? = s.chat.clientVec[i]? ∧ s'.started i = s.started i → e.isStop = false →
      e.fails i = false → ∃ c', Lives (es ++ [e]) s' i c' ∧ Ends boostSplit ep mems (es ++ [e]) i c' := by
    rintro ⟨hclient, hstarted⟩ hstop hfails
    exact ⟨c, h.same hends hr hr' (hclient.trans h.client) rfl (fun hw => hw) (by rw [hstop, Bool.or_false]) hstarted
      hfails⟩
  cases e with
  | startRx k =>
    obtain ⟨hnot, hs⟩ := Option.ite_none_left_eq_some.1 hs
    obtain ⟨c₀, hk, hs⟩ := Option.bind_eq_some_iff.1 hs
    obtain ⟨⟨c₁, outs⟩, hstep, heq⟩ := Option.map_eq_some_iff.1 hs
    obtain ⟨rfl, rfl⟩ := Prod.mk.inj heq
    by_cases hki : k = i
    · subst hki
      obtain rfl := Option.some.inj (h.client.symm.trans hk)
      exact h.startRx hends hr' (by simpa using hnot) hstep
    · exact hother ⟨List.getElem?_set_ne hki, Function.update_of_ne (Ne.symm hki) _ _⟩ rfl rfl
  | readLine m str =>
    obtain ⟨-, hs⟩ := Option.ite_none_left_eq_some.1 hs
    obtain ⟨⟨chat, outs⟩, hread, heq⟩ := Option.map_eq_some_iff.1 hs
    obtain ⟨rfl, rfl⟩ := Prod.mk.inj heq
    obtain ⟨-, hall⟩ := ChatClient.readLine_spec (hsplit str) hread
    obtain ⟨c', hi', hdid⟩ := hall i c h.client
    have hstopped := ChatClient.readLine_stopped (hsplit str) hread h.client hi'
    have hsession : c'.session.waiting = c.session.waiting ∧ (c'.session.writes = [] → c.session.writes = []) := by
      cases hact : act str with
      | none =>
        rw [hact] at hdid
        rw [hdid.1]
        exact ⟨rfl, fun hw => hw⟩
      | some a =>
        rw [hact] at hdid
        obtain ⟨msg, -, hsent, -⟩ := hdid
        rw [hsent]
        exact TcpSession.waiting_sendRef c.session msg
    exact ⟨c', h.same hends hr hr' hi' hsession.1 hsession.2 hstopped rfl rfl⟩
  | connectDone k ec =>
    by_cases hki : k = i
    · subst hki
      exact h.handle hends hr' hs rfl (by simp [Event.fails]) fun p' o' hp => TcpSession.waiting_connectDone hp
    · exact hother (handle_other hs hki) rfl (by simp [Event.fails, hki])
  | readDone k j res =>
    by_cases hki : k = i
    · subst hki
      exact h.handle hends hr' hs rfl (by simp [Event.fails]) fun p' o' hp => TcpSession.waiting_readDone hp
    · exact hother (handle_other hs hki) rfl (by simp [Event.fails, hki])
  | writeDone k j ec =>
    by_cases hki : k = i
    · subst hki
      exact h.handle hends hr' hs rfl rfl fun p' o' hp => TcpSession.waiting_writeDone hp
    · exact hother (handle_other hs hki) rfl rfl

/-- **What ends a client**: in every run of a program, the thread of a client that has begun has left, or is about to
leave, `io_service::run` iff a `stop` line has been read, or the connect or a read of this client had failed while no
write was outstanding, or before the last one completed. Until one has failed, the connect or a read is outstanding. -/
theorem ends_iff (hsplit : ∀ str, Tokens ChatClient.isBlank str (boostSplit str))
    (hr : (machine boostSplit).Run (new ep mems) es s out) (hi : i < mems.length) :
    ∃ c, s.chat.clientVec[i]? = some c ∧
      (c.stopped = true ↔ es.any Event.isStop = true ∨ WasIdle boostSplit ep mems i es) ∧
      (s.started i = true → failures i es = 0 → c.session.connects + c.session.reads.length = 1) := by
  suffices hlives : ∃ c, Lives es s i c ∧ Ends boostSplit ep mems es i c by
    obtain ⟨c, h, hends⟩ := hlives
    refine ⟨c, h.client, hends, ?_⟩
    intro hstarted hnone
    have hone := h.waiting_eq
    rw [if_pos hstarted, hnone] at hone
    exact hone
  induction hr with
  | nil =>
    have hnew : (new ep mems).chat.clientVec[i]? = some (Client.new ep mems[i]) := by simp [new, hi]
    refine ⟨Client.new ep mems[i], ⟨hnew, rfl⟩, ?_⟩
    constructor
    · intro hstopped
      cases hstopped
    · rintro (hstop | ⟨pre, s, out, c, hp, -, -, hfail, -⟩)
      · cases hstop
      · obtain rfl := List.prefix_nil.1 hp
        cases hfail
  | snoc hr hs ih =>
    obtain ⟨c, h, hends⟩ := ih
    exact h.step hsplit hends hr hs

/-- Two clients, of which the second one cannot connect. -/
def oneConnects : List Event :=
  [.startRx 0, .connectDone 0 none, .startRx 1, .connectDone 1 (some (.other 111)),
    .readLine (fun _ => .zero) (ascii "quit")]

/-- After `quit` the first client goes on, and the second one does not. -/
theorem ends_iff_oneConnects : ∃ s out c c',
    (machine (split ChatClient.isBlank)).Run (new ⟨"127.0.0.1", 20000⟩ [.zero, .zero]) oneConnects s out ∧
    s.chat.bTerm = true ∧ s.chat.clientVec[0]? = some c ∧ c.session.connects + c.session.reads.length = 1 ∧
    ¬ WasIdle (split ChatClient.isBlank) ⟨"127.0.0.1", 20000⟩ [.zero, .zero] 0 oneConnects ∧
    s.chat.clientVec[1]? = some c' ∧
    WasIdle (split ChatClient.isBlank) ⟨"127.0.0.1", 20000⟩ [.zero, .zero] 1 oneConnects := by
  have hsome : ((machine (split ChatClient.isBlank)).exec (new ⟨"127.0.0.1", 20000⟩ [.zero, .zero]) oneConnects).map
      (fun x => (x.1.chat.bTerm, x.1.started 0, x.1.chat.clientVec.map Client.stopped)) =
        some (true, true, [false, true]) := by
    decide +kernel
  obtain ⟨⟨s, out⟩, hx, heq⟩ := Option.map_eq_some_iff.1 hsome
  have hr := Machine.run_of_exec hx
  simp only [Prod.mk.injEq] at heq
  obtain ⟨hterm, hstarted, hstopped⟩ := heq
  have hnone : oneConnects.any Event.isStop = false := by decide
  obtain ⟨c, hc, hends, hone⟩ := ends_iff (tokens_split _) hr (show 0 < 2 by decide)
  obtain ⟨c', hc', hends', -⟩ := ends_iff (tokens_split _) hr (show 1 < 2 by decide)
  have hfirst : c.stopped = false := by
    have hmap := congrArg (fun l => l[0]?) hstopped
    simpa [hc] using hmap
  have hsecond : c'.stopped = true := by
    have hmap := congrArg (fun l => l[1]?) hstopped
    simpa [hc'] using hmap
  rw [hfirst, hnone] at hends
  rw [hsecond, hnone] at hends'
  exact ⟨s, out, c, c', hr, hterm, hc, hone hstarted (by decide), by simpa using hends, hc', by simpa using hends'⟩

end ChatProgram

end Torinet
