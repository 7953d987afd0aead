import Torinet.Client.Acts

/-!
# From a command line to the other clients

As long as no client has been stopped, what the hub can do the system can, by completions alone (`Talks.realize`). So a
client is called for what the others say and for nothing else, each text once (`Talks.hears`), and typing the line
`send <text>` adds one call of every other client to come (`delivers_iff`). It is one in the default case, though: a
client looks at the id of its session, which is zero, and not at that of the message.
-/

namespace Torinet

open Lib

namespace System

open TcpSession (written)

variable {boostSplit : List UInt8 → SplitVector} {s s' : System} {h h' : Hub Nat Msg} {e : Event} {es : List Event}
  {out o : List Out} {k r q : Nat} {m : Msg} {ms : List Msg} {t bs : List UInt8} {p p' : TcpSession}

/-! ## What the hub can do -/

/-- No client that is connected has been stopped. -/
def Running (s : System) : Prop := ∀ r ∈ s.conns, (s.client r).stopped = false

/-- Completions stop no client. -/
theorem stopped_step (he : e.Completion) (hs : s.step boostSplit e = some (s', o)) (q : Nat) :
    (s'.client q).stopped = (s.client q).stopped := by
  have hserver : ∀ {s s' : System} {ev : ChatServer.Event} {o : List Out}, s.serverStep ev = some (s', o) →
      s'.client = s.client := by
    intro s s' ev o hs
    obtain ⟨x, -, heq⟩ := Option.map_eq_some_iff.1 hs
    rw [← (Prod.mk.inj heq).1]
  have hclient : ∀ {s s' : System} {r : Nat} {ev : TcpSession.Event} {o : List Out}, s.clientStep r ev = some (s', o) →
      (s'.client q).stopped = (s.client q).stopped := by
    intro s s' r ev o hs
    simp only [clientStep] at hs
    split at hs
    · cases hs
    · obtain ⟨x, hx, heq⟩ := Option.map_eq_some_iff.1 hs
      rw [← (Prod.mk.inj heq).1]
      by_cases hq : q = r
      · subst hq
        simpa [setClient] using (Client.sessionStep_iff.1 hx).2
      · simp [setClient, Function.update_of_ne hq]
  cases e with
  | connect a ep mem => exact he.elim
  | command k mem line => exact he.elim
  | serverRead r =>
    simp only [step] at hs
    split at hs
    · obtain ⟨p, -, hs⟩ := Option.bind_eq_some_iff.1 hs
      obtain ⟨bs, -, hs⟩ := Option.bind_eq_some_iff.1 hs
      rw [hserver hs]
    · cases hs
  | serverWrite r =>
    simp only [step] at hs
    split at hs
    · rw [hserver hs]
    · cases hs
  | clientRead r =>
    simp only [step] at hs
    split at hs
    · obtain ⟨bs, -, hs⟩ := Option.bind_eq_some_iff.1 hs
      have hread := hclient hs
      exact hread
    · cases hs
  | clientWrite r =>
    simp only [step] at hs
    split at hs
    · exact hclient hs
    · cases hs

theorem Running.run (hrun : s.Running) (hr : (machine boostSplit).Run s es s' out) (hes : ∀ e ∈ es, e.Completion)
    (hconns : ∀ q, q ∈ s'.conns → q ∈ s.conns) : s'.Running := by
  have hstopped : ∀ q, (s'.client q).stopped = (s.client q).stopped := by
    intro q
    refine (hr.inv (I := fun s₁ => (s₁.client q).stopped = (s.client q).stopped) (Q := fun _ => True) rfl
      fun {s₁ e s₂ o} he h hs => ⟨?_, fun _ _ => trivial⟩).1
    exact (stopped_step (hes e he) hs q).trans h
  exact fun q hq => (hstopped q).trans (hrun q (hconns q hq))

section Progress

variable (boostSplit)

theorem step_serverRead (hr : r ∈ s.conns) (hs : s.serverRead r = some (s', o)) :
    (machine boostSplit).step s (.serverRead r) = some (s', o) :=
  (if_pos hr).trans hs

theorem step_clientRead (hr : r ∈ s.conns) (hs : s.clientRead r = some (s', o)) :
    (machine boostSplit).step s (.clientRead r) = some (s', o) :=
  (if_pos hr).trans hs

/-- The read of a body at the server passes a message on. -/
theorem Talks.pass_of_body (ht : Talks s h) (hr : r ∈ s.conns) (hms : h.up r = m :: ms)
    (hp : s.server.server.objs[r]? = some p) (harr : arrived p (s.up r) = some bs)
    (hreads : p.reads ≠ [.header hdrLength]) :
    ∃ s', (machine boostSplit).Run s [.serverRead r] s' [] ∧
      Talks s' { h with up := Function.update h.up r ms, down := h.give isChat r m } := by
  obtain ⟨p₁, hc⟩ := ht.conn r hr
  obtain rfl := Option.some.inj (hc.obj.symm.trans hp)
  obtain ⟨s', hs, -, ⟨-, hheader, -⟩ | ⟨m', ms', hms', ht'⟩⟩ := ht.serverRead hr hc harr
  · exact absurd hheader hreads
  · obtain ⟨rfl, rfl⟩ := List.cons.inj (hms'.symm.trans hms)
    exact ⟨s', Machine.Run.single (step_serverRead boostSplit hr hs), ht'⟩

/-- What has arrived at the server can be read until a message is passed on. -/
theorem Talks.pass_of_arrived (ht : Talks s h) (hr : r ∈ s.conns) (hms : h.up r = m :: ms)
    (hp : s.server.server.objs[r]? = some p) (harr : arrived p (s.up r) = some bs) :
    ∃ es s', (∀ e ∈ es, e.Completion) ∧ (machine boostSplit).Run s es s' [] ∧
      Talks s' { h with up := Function.update h.up r ms, down := h.give isChat r m } := by
  obtain ⟨p₁, hc⟩ := ht.conn r hr
  obtain rfl := Option.some.inj (hc.obj.symm.trans hp)
  obtain ⟨s₁, hs₁, -, ⟨ht₁, -, p', n, bs', hp', hreads', harr'⟩ | ⟨m', ms', hms', ht'⟩⟩ := ht.serverRead hr hc harr
  · have hr₁ : r ∈ s₁.conns := (ht₁.parties r).1 ((ht.parties r).2 hr)
    obtain ⟨s', hrun, ht'⟩ := ht₁.pass_of_body boostSplit hr₁ hms hp' harr' (by simp [hreads'])
    have hrun₁ : (machine boostSplit).Run s [.serverRead r] s₁ [] :=
      Machine.Run.single (step_serverRead boostSplit hr hs₁)
    exact ⟨_, s', by simp [Event.Completion], hrun₁.append hrun, ht'⟩
  · obtain ⟨rfl, rfl⟩ := List.cons.inj (hms'.symm.trans hms)
    exact ⟨[.serverRead r], s₁, by simp [Event.Completion], Machine.Run.single (step_serverRead boostSplit hr hs₁), ht'⟩

/-- **What the hub can pass on, the server can.** -/
theorem Talks.realize_pass (ht : Talks s h) (hrun : s.Running) (hr : r ∈ s.conns) (hms : h.up r = m :: ms) :
    ∃ es s', (∀ e ∈ es, e.Completion) ∧ (machine boostSplit).Run s es s' [] ∧
      Talks s' { h with up := Function.update h.up r ms, down := h.give isChat r m } := by
  obtain ⟨p, hc⟩ := ht.conn r hr
  cases harr : arrived p (s.up r) with
  | some bs => exact ht.pass_of_arrived boostSplit hr hms hc.obj harr
  | none =>
    -- nothing has arrived yet: a write of the client has to complete first
    obtain ⟨w, outs, bs, hps, harr'⟩ := hc.up.canWrite (by simp [hms]) harr
    obtain ⟨s₁, hs₁, ht₁, hserver, hup⟩ := ht.clientWrite (hrun r hr) hc hps
    have hr₁ : r ∈ s₁.conns := (ht₁.parties r).1 ((ht.parties r).2 hr)
    obtain ⟨es, s', hes, hrun', ht'⟩ := ht₁.pass_of_arrived boostSplit hr₁ hms (hserver ▸ hc.obj) (hup ▸ harr')
    have hrun₁ : (machine boostSplit).Run s [.clientWrite r] s₁ [] := Machine.Run.single ((if_pos hr).trans hs₁)
    refine ⟨_, s', ?_, hrun₁.append hrun', ht'⟩
    simpa [Event.Completion] using hes

/-- The read of a body at a client calls its message handler. -/
theorem Talks.hear_of_body (ht : Talks s h) (hrun : (s.client r).stopped = false) (hr : r ∈ s.conns)
    (hms : h.down r = m :: ms) (harr : arrived (s.client r).session (s.down r) = some bs)
    (hreads : (s.client r).session.reads ≠ [.header hdrLength]) :
    ∃ s' o, (machine boostSplit).Run s [.clientRead r] s' o ∧
      Talks s' { h with down := Function.update h.down r ms } ∧ Echoes o [(r, m)] := by
  obtain ⟨p, hc⟩ := ht.conn r hr
  obtain ⟨s', o, hs, ⟨-, -, hheader, -⟩ | ⟨m', ms', hms', ht', hecho⟩⟩ := ht.clientRead hrun hc harr
  · exact absurd hheader hreads
  · obtain ⟨rfl, rfl⟩ := List.cons.inj (hms'.symm.trans hms)
    exact ⟨s', o, Machine.Run.single (step_clientRead boostSplit hr hs), ht', hecho⟩

/-- What has arrived at a client can be read until its message handler is called. -/
theorem Talks.hear_of_arrived (ht : Talks s h) (hrun : (s.client r).stopped = false) (hr : r ∈ s.conns)
    (hms : h.down r = m :: ms) (harr : arrived (s.client r).session (s.down r) = some bs) :
    ∃ es s' o, (∀ e ∈ es, e.Completion) ∧ (machine boostSplit).Run s es s' o ∧
      Talks s' { h with down := Function.update h.down r ms } ∧ Echoes o [(r, m)] := by
  obtain ⟨p, hc⟩ := ht.conn r hr
  obtain ⟨s₁, o₁, hs₁, ⟨ht₁, rfl, -, n, bs', hreads', harr'⟩ | ⟨m', ms', hms', ht', hecho⟩⟩ :=
    ht.clientRead hrun hc harr
  · have hr₁ : r ∈ s₁.conns := (ht₁.parties r).1 ((ht.parties r).2 hr)
    have hstep : s.step boostSplit (.clientRead r) = some (s₁, []) := step_clientRead boostSplit hr hs₁
    have hrun₁ := (stopped_step (e := .clientRead r) trivial hstep r).trans hrun
    obtain ⟨s', o, hr', ht', hecho⟩ := ht₁.hear_of_body boostSplit hrun₁ hr₁ hms harr' (by simp [hreads'])
    have hrun' : (machine boostSplit).Run s [.clientRead r] s₁ [] := Machine.Run.single hstep
    exact ⟨_, s', o, by simp [Event.Completion], hrun'.append hr', ht', hecho⟩
  · obtain ⟨rfl, rfl⟩ := List.cons.inj (hms'.symm.trans hms)
    exact ⟨[.clientRead r], s₁, o₁, by simp [Event.Completion],
      Machine.Run.single (step_clientRead boostSplit hr hs₁), ht', hecho⟩

/-- **What the hub's parties can hear, the clients can.** -/
theorem Talks.realize_hear (ht : Talks s h) (hrun : s.Running) (hr : r ∈ s.conns) (hms : h.down r = m :: ms) :
    ∃ es s' o, (∀ e ∈ es, e.Completion) ∧ (machine boostSplit).Run s es s' o ∧
      Talks s' { h with down := Function.update h.down r ms } ∧ Echoes o [(r, m)] := by
  obtain ⟨p, hc⟩ := ht.conn r hr
  cases harr : arrived (s.client r).session (s.down r) with
  | some bs => exact ht.hear_of_arrived boostSplit (hrun r hr) hr hms harr
  | none =>
    obtain ⟨w, outs, bs, hps, harr'⟩ := hc.down.canWrite (by simp [hms]) harr
    obtain ⟨s₁, hs₁, ht₁, hclient, hdown⟩ := ht.serverWrite hc hps
    have hr₁ : r ∈ s₁.conns := (ht₁.parties r).1 ((ht.parties r).2 hr)
    obtain ⟨es, s', o, hes, hrun', ht', hecho⟩ := ht₁.hear_of_arrived boostSplit (hclient ▸ hrun r hr) hr₁ hms
      (hclient ▸ hdown ▸ harr')
    have hrun₁ : (machine boostSplit).Run s [.serverWrite r] s₁ [] := Machine.Run.single ((if_pos hr).trans hs₁)
    refine ⟨_, s', _, ?_, hrun₁.append hrun', ht', hecho⟩
    simpa [Event.Completion] using hes

/-- **What the hub can do, the system can**, as long as no client has been stopped. -/
theorem Talks.realize {ops : List (Hub.Op Nat Msg)} {hout : List (Nat × Msg)}
    (hr : (Hub.machine isChat).Run h ops h' hout) (hops : ∀ op ∈ ops, op.Internal) (ht : Talks s h) (hrun : s.Running) :
    ∃ es s' out, (∀ e ∈ es, e.Completion) ∧ (machine boostSplit).Run s es s' out ∧ Talks s' h' ∧ s'.Running ∧
      Echoes out hout := by
  induction hr with
  | nil => exact ⟨[], s, [], by simp, Machine.Run.nil, ht, hrun, echoes_nil⟩
  | @snoc ops h₁ hout op h₂ ho hr hs ih =>
    obtain ⟨es, s₁, out, hes, hrun₁, ht₁, hrunning, hecho⟩ := ih fun op hop => hops op (List.mem_append_left _ hop)
    obtain ⟨es', s', o, hes', hrun', ht', hparties, hecho'⟩ : ∃ es' s' o, (∀ e ∈ es', e.Completion) ∧
        (machine boostSplit).Run s₁ es' s' o ∧ Talks s' h₂ ∧ h₂.parties = h₁.parties ∧ Echoes o ho := by
      have hop := hops op (by simp)
      cases Hub.step_path hs with
      | join i hi => exact hop.elim
      | say i x hi => exact hop.elim
      | pass i x xs hi hx =>
        obtain ⟨es', s', hes', hrun', ht'⟩ := ht₁.realize_pass boostSplit hrunning ((ht₁.parties i).1 hi) hx
        exact ⟨es', s', [], hes', hrun', ht', rfl, echoes_nil⟩
      | hear i x xs hi hx =>
        obtain ⟨es', s', o, hes', hrun', ht', hecho'⟩ := ht₁.realize_hear boostSplit hrunning ((ht₁.parties i).1 hi) hx
        exact ⟨es', s', o, hes', hrun', ht', rfl, hecho'⟩
    have hconns : ∀ q, q ∈ s'.conns → q ∈ s₁.conns := fun q hq =>
      (ht₁.parties q).1 (hparties ▸ (ht'.parties q).2 hq)
    refine ⟨es ++ es', s', _, fun e he => ?_, hrun₁.append hrun', ht', hrunning.run hrun' hes' hconns,
      hecho.append hecho'⟩
    exact (List.mem_append.1 he).elim (hes e) (hes' e)

end Progress

/-! ## The line -/

/-- A text of up to 255 bytes, none of them zero or a blank. -/
structure Text (text : List UInt8) : Prop where
  ne_nil : text ≠ []
  length_le : text.length ≤ 255
  noZero : 0 ∉ text
  noBlank : 32 ∉ text

/-- The words of the line. -/
theorem words_send (ht : Text t) : ChatClient.name (ascii "send " ++ t) = ascii "send" ∧
    ChatClient.afterName (ascii "send " ++ t) ≠ [] ∧ ChatClient.argument (ascii "send " ++ t) = t := by
  have hline : ascii "send " ++ t = ascii "send" ++ ([32] ++ t) := rfl
  have hblank : ∀ c ∈ t, ChatClient.isBlank c = false := by
    intro c hc
    exact decide_eq_false fun h => ht.noBlank (h ▸ hc)
  obtain ⟨hname, hafter⟩ := @takeWhile_word _ ChatClient.isBlank (ascii "send") ([32] ++ t)
    (by decide +kernel) (by simp [ChatClient.isBlank])
  have hgap : ([32] ++ t).dropWhile ChatClient.isBlank = t :=
    dropWhile_gap (by simp [ChatClient.isBlank]) fun c hc => hblank c (List.mem_of_mem_head? hc)
  have hword := (takeWhile_word (r := []) hblank (by simp)).1
  rw [List.append_nil] at hword
  refine ⟨by rw [hline]; exact hname, ?_, ?_⟩
  · rw [ChatClient.afterName, hline, hafter]
    simp
  · rw [ChatClient.argument, ChatClient.afterName, hline, hafter, hgap, hword]

theorem said_send (ht : Text t) : said (ascii "send " ++ t) = some t := by
  obtain ⟨hname, -, harg⟩ := words_send ht
  rw [said, if_pos hname, harg, cString_of_not_mem ht.noZero]

/-- The line can be typed at a client that is connected and has not quit. -/
theorem step_command (ht : Text t) (hk : k ∈ s.conns) (hterm : s.bTerm k = false)
    (hsplit : Tokens ChatClient.isBlank (ascii "send " ++ t) (boostSplit (ascii "send " ++ t))) (mem : Msg) :
    ∃ s', s.step boostSplit (.command k mem (ascii "send " ++ t)) = some (s', []) ∧ (s.Running → s'.Running) := by
  obtain ⟨hname, hafter, harg⟩ := words_send ht
  have hword : (boostSplit (ascii "send " ++ t))[1]? = some t := by
    rw [(ChatClient.words_of_tokens hsplit).2, if_neg hafter, harg]
  have hlen : (cString t).length < 256 := by
    rw [cString_of_not_mem ht.noZero]
    exact Nat.lt_succ_of_le ht.length_le
  obtain ⟨m, hsend, -⟩ := ChatClient.sendMessge_of_fits hword hlen mem (s.client k)
  have hread : ChatClient.readLine boostSplit (fun _ => mem) ⟨[s.client k], false⟩ (ascii "send " ++ t) =
      some (⟨[((s.client k).send m).1], false⟩, ((s.client k).send m).2.map fun x => (0, x)) := by
    rw [ChatClient.readLine_of_send hsplit hname, ChatClient.Command.handle]
    simp [ChatClient.eachClient, hsend]
  refine ⟨{ s.setClient k ((s.client k).send m).1 ((s.client k).send m).2 with
    bTerm := Function.update s.bTerm k false }, (if_pos hk).trans ?_, fun hrunning q hq => ?_⟩
  · rw [command, hterm, if_neg Bool.false_ne_true, hread, Option.bind_some, List.head?_cons, Option.map_some,
      List.map_map]
    simp [Function.comp_def]
  · by_cases hqk : q = k
    · subst hqk
      simpa [System.setClient, Client.send] using hrunning q hq
    · simpa [System.setClient, Function.update_of_ne hqk] using hrunning q hq

/-! ## What the others hear -/

/-- What is heard, as texts. -/
theorem Echoes.heard_eq {hout : List (Nat × Msg)} (hecho : Echoes out hout) (r : Nat) :
    (heard r out : Multiset (Client.Case × List UInt8)) =
      ((Hub.heardBy r hout : Multiset Msg).map text).map fun t => (.unknown, t) := by
  rw [hecho r, Multiset.map_map, Multiset.map_coe]
  rfl

/-- Whatever happens from `s` on, the message handler of the client `r` is called in the given case for nothing but
the texts `before` and what the others say, and for none of it twice; and as long as no client has been stopped, it can
still be called for all of it. -/
def Hears (boostSplit : List UInt8 → SplitVector) (case : Client.Case) (s : System) (r : Nat)
    (before : Multiset (List UInt8)) : Prop :=
  ∀ es s' out, (machine boostSplit).Run s es s' out →
    (heard r out : Multiset _) ≤ (before + typed r es).map (fun t => (case, t)) ∧
    (s'.Running → ∃ es' s'' out', (∀ e ∈ es', e.Completion) ∧ (machine boostSplit).Run s' es' s'' out' ∧
      (heard r (out ++ out') : Multiset _) = (before + typed r es).map fun t => (case, t))

/-- The line `send <text>` can be typed at the client `k`, and each other client is called for the text once more than
for what has been on its way to it. -/
def Delivers (boostSplit : List UInt8 → SplitVector) (case : Client.Case) (s : System) (k : Nat) (text : List UInt8) :
    Prop :=
  ∀ mem, ∃ s', s.step boostSplit (.command k mem (ascii "send " ++ text)) = some (s', []) ∧
    ∀ r ∈ s.conns, r ≠ k → ∃ before, Hears boostSplit case s r before ∧ Hears boostSplit case s' r (text ::ₘ before)

/-- **What a client hears**: what is on its way to it, and what the others say. -/
theorem Talks.hears (hsplit : ∀ line, Tokens ChatClient.isBlank line (boostSplit line)) (ht : Talks s h)
    (hr : r ∈ s.conns) : Hears boostSplit .unknown s r ((h.pending isChat r).map text) := by
  have hrp := (ht.parties r).2 hr
  intro es s' out hrun
  obtain ⟨ops, h', hout, hops, ht', hecho, htyped⟩ := talks_run hsplit ht hrun
  obtain ⟨hrp', hledger⟩ := Hub.Run.ledger hops hrp
  have hsum : (h.pending isChat r).map text + (typed r es : Multiset (List UInt8)) =
      ((Hub.heardBy r hout : Multiset Msg) + h'.pending isChat r).map text := by
    rw [htyped r, hledger, Multiset.map_add, Multiset.map_coe]
  rw [hsum]
  refine ⟨?_, fun hrunning => ?_⟩
  · rw [hecho.heard_eq r]
    exact Multiset.map_le_map (Multiset.map_le_map (Multiset.le_add_right _ _))
  · obtain ⟨ops', h'', hout', hint, hops', hdrained⟩ := Hub.exists_drained isChat hrp'
    obtain ⟨es', s'', out', hes', hrun', -, -, hecho'⟩ := Talks.realize boostSplit hops' hint ht' hrunning
    refine ⟨es', s'', out', hes', hrun', ?_⟩
    rw [(hecho.append hecho').heard_eq r, Hub.heardBy_append, ← hdrained, Multiset.coe_add]

/-- A line has been typed at another client. -/
theorem Hears.command {case : Client.Case} {before : Multiset (List UInt8)} {mem : Msg} {line : List UInt8}
    (hh : Hears boostSplit case s r before) (hs : s.step boostSplit (.command k mem line) = some (s', []))
    (hkr : k ≠ r) (hsaid : said line = some t) : Hears boostSplit case s' r (t ::ₘ before) := by
  intro es s₂ out hrun
  have hrun₁ : (machine boostSplit).Run s [.command k mem line] s' [] := Machine.Run.single hs
  have htyped : (typed r ([.command k mem line] ++ es) : Multiset (List UInt8)) = t ::ₘ typed r es := by
    simp [typed, hkr, hsaid]
  have hhears := hh _ _ _ (hrun₁.append hrun)
  rwa [htyped, Multiset.add_cons, ← Multiset.cons_add, List.nil_append] at hhears

/-- What can still be heard is heard in the default case. -/
theorem Talks.case_of_hears {case : Client.Case} {before : Multiset (List UInt8)}
    (hsplit : ∀ line, Tokens ChatClient.isBlank line (boostSplit line)) (ht : Talks s h) (hrunning : s.Running)
    (hh : Hears boostSplit case s r before) (hmem : t ∈ before) : case = .unknown := by
  obtain ⟨es, s', out, -, hrun, heq⟩ := (hh [] s [] Machine.Run.nil).2 hrunning
  obtain ⟨-, -, hout, -, -, hecho, -⟩ := talks_run hsplit ht hrun
  have hcall : (case, t) ∈ (heard r ([] ++ out) : Multiset (Client.Case × List UInt8)) := by
    rw [heq]
    exact Multiset.mem_map_of_mem _ (Multiset.mem_add.2 (Or.inl hmem))
  rw [List.nil_append, hecho.heard_eq r] at hcall
  obtain ⟨t', -, heq'⟩ := Multiset.mem_map.1 hcall
  exact (Prod.mk.inj heq').1.symm

/-- **When a chat message reaches the other clients as one**: in every state of the system in which no client has been
stopped, the line `send <text>` of a client that reads lines makes the message handler of each other client be called
once with the text, in the default case; so in the case of a chat message iff there is no other client. -/
theorem delivers_iff {config : ServerConfig} (hsplit : ∀ line, Tokens ChatClient.isBlank line (boostSplit line))
    (hrun : (machine boostSplit).Run (new config) es s out) (hrunning : s.Running) (hk : k ∈ s.conns)
    (hterm : s.bTerm k = false) (ht : Text t) :
    Delivers boostSplit .unknown s k t ∧ (Delivers boostSplit .nfMessage s k t ↔ ∀ r ∈ s.conns, r = k) := by
  obtain ⟨-, h, -, -, htalks, -, -⟩ := talks_run hsplit (talks_new config) hrun
  have hstep := step_command ht hk hterm (hsplit _)
  refine ⟨fun mem => ?_, fun hdel r hr => ?_, fun hall mem => ?_⟩
  · obtain ⟨s₁, hs₁, -⟩ := hstep mem
    refine ⟨s₁, hs₁, fun r hr hrk => ?_⟩
    have hhears := htalks.hears hsplit hr
    exact ⟨_, hhears, hhears.command hs₁ (Ne.symm hrk) (said_send ht)⟩
  · by_contra hrk
    obtain ⟨s₁, hs₁, hall⟩ := hdel .zero
    obtain ⟨s₂, hs₂, hrunning₁⟩ := hstep .zero
    obtain ⟨rfl, -⟩ := Prod.mk.inj (Option.some.inj (hs₁.symm.trans hs₂))
    obtain ⟨before, -, hhears⟩ := hall r hr hrk
    have hrun₁ : (machine boostSplit).Run s [.command k .zero (ascii "send " ++ t)] s₁ [] := Machine.Run.single hs₁
    obtain ⟨-, h₁, -, -, htalks₁, -, -⟩ := talks_run hsplit htalks hrun₁
    have hcase := htalks₁.case_of_hears hsplit (hrunning₁ hrunning) hhears (Multiset.mem_cons_self t before)
    cases hcase
  · obtain ⟨s₁, hs₁, -⟩ := hstep mem
    exact ⟨s₁, hs₁, fun r hr hrk => absurd (hall r hr) hrk⟩

/-- Two clients connect. -/
def twoConnects : List Event :=
  [.connect .loopback ⟨"127.0.0.1", 20000⟩ .zero, .connect .loopback ⟨"127.0.0.1", 20000⟩ .zero]

/-- They have connected to a server of two sessions. -/
def twoClients : System := (((machine (split ChatClient.isBlank)).exec (new ⟨2⟩) twoConnects).get rfl).1

theorem run_twoClients : (machine (split ChatClient.isBlank)).Run (new ⟨2⟩) twoConnects twoClients [] :=
  Machine.run_of_exec rfl

theorem running_twoClients : twoClients.Running := by
  intro r hr
  have hr : r ∈ [0, 1] := hr
  simp only [List.mem_cons, List.not_mem_nil, or_false] at hr
  rcases hr with rfl | rfl <;> rfl

theorem text_hi : Text (ascii "hi") := ⟨by decide, by decide, by decide, by decide⟩

theorem delivers_iff_twoClients :
    Delivers (split ChatClient.isBlank) .unknown twoClients 0 (ascii "hi") ∧
      (Delivers (split ChatClient.isBlank) .nfMessage twoClients 0 (ascii "hi") ↔ ∀ r ∈ twoClients.conns, r = 0) :=
  delivers_iff (tokens_split _) run_twoClients running_twoClients List.mem_cons_self rfl text_hi

/-- One says "hi". -/
def saysHi : List Event :=
  [.command 0 .zero (ascii "send hi"), .serverRead 0, .serverRead 0, .clientRead 1, .clientRead 1]

/-- The message handler of the other is called with the text, and does not know the message. -/
theorem twoClients_not_delivered : (machine (split ChatClient.isBlank)).Run (new ⟨2⟩) twoConnects twoClients [] ∧
    twoClients.Running ∧ 0 ∈ twoClients.conns ∧ twoClients.bTerm 0 = false ∧ Text (ascii "hi") ∧
    (∃ s' out, (machine (split ChatClient.isBlank)).Run twoClients saysHi s' out ∧
      heard 1 out = [(.unknown, ascii "hi")]) ∧
    ¬ Delivers (split ChatClient.isBlank) .nfMessage twoClients 0 (ascii "hi") := by
  have hexec : ((machine (split ChatClient.isBlank)).exec twoClients saysHi).map (fun r => heard 1 r.2) =
      some [(.unknown, ascii "hi")] := by
    decide +kernel
  obtain ⟨⟨s', out⟩, hx, hheard⟩ := Option.map_eq_some_iff.1 hexec
  have hr := Machine.run_of_exec hx
  refine ⟨run_twoClients, running_twoClients, List.mem_cons_self, rfl, text_hi, ⟨s', out, hr, hheard⟩,
    fun hdel => ?_⟩
  obtain ⟨s₁, -, hall⟩ := hdel .zero
  obtain ⟨before, hhears, -⟩ := hall 1 (by decide) (by decide)
  obtain ⟨hle, -⟩ := hhears _ _ _ hr
  have hmem := Multiset.mem_of_le hle (a := (.unknown, ascii "hi")) (by simp [hheard])
  obtain ⟨t, -, heq⟩ := Multiset.mem_map.1 hmem
  cases (Prod.mk.inj heq).1

end System

end Torinet
