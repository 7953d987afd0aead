import Torinet.Client.Acts
import Torinet.Lib.Journal

/-!
# One order for all

What the server's message handler is called for, in order, is the journal of the system. It has what each client asks
for in the order in which it is typed, and every client hears what the others say in it since it has connected, in its
order and without a gap (`total_order`); so any two clients hear in the same order what they both hear.
-/

namespace Torinet

open Lib

namespace System

open ChatServer (delivered)

variable {boostSplit : List UInt8 → SplitVector} {config : ServerConfig} {s s' s₁ s₂ : System} {h h' : Hub Nat Msg}
  {e : Event} {es es₁ es₂ : List Event} {out out₁ out₂ seen : List Seen} {o : List Out} {k r : Nat}
  {log log' : List (Nat × Msg)} {since since' : Nat → Nat}

/-- The texts that others than `r` say, among what is asked for. -/
def told (r : Nat) (log : List (Nat × Act)) : List (List UInt8) := log.filterMap fun
  | (k, .say t) => if k ≠ r then some t else none
  | _ => none

@[simp] theorem told_append (log log' : List (Nat × Act)) : told r (log ++ log') = told r log ++ told r log' := by
  simp [told]

/-- The messages ask for the same, one after the other. -/
def SameMeaning (log log' : List (Nat × Msg)) : Prop :=
  (log.map fun x => (x.1, meaning x.2)) = log'.map fun x => (x.1, meaning x.2)

/-- What messages ask for. -/
def meanings (log : List (Nat × Msg)) : List (Nat × Act) := log.filterMap fun x => (meaning x.2).map fun a => (x.1, a)

theorem SameMeaning.append {del del' : List (Nat × Msg)} (h : SameMeaning del log) (h' : SameMeaning del' log') :
    SameMeaning (del ++ del') (log ++ log') := by
  unfold SameMeaning at *
  rw [List.map_append, List.map_append, h, h']

theorem SameMeaning.append_right {del del' : List (Nat × Msg)} (h : SameMeaning del log)
    (h' : SameMeaning (del ++ del') (log ++ log')) : SameMeaning del' log' := by
  unfold SameMeaning at *
  rw [List.map_append, List.map_append, h] at h'
  exact List.append_cancel_left h'

theorem SameMeaning.meanings_eq (h : SameMeaning log log') : meanings log = meanings log' := by
  have hpairs : ∀ l : List (Nat × Msg), meanings l =
      (l.map fun x => (x.1, meaning x.2)).filterMap fun x => x.2.map fun a => (x.1, a) := by
    intro l
    rw [meanings, List.filterMap_map]
    rfl
  rw [hpairs, hpairs, h]

/-- What messages of one client ask for. -/
theorem ofOne_meanings (k : Nat) (log : List (Nat × Msg)) :
    Hub.ofOne k (meanings log) = (Hub.ofOne k log).filterMap meaning := by
  induction log with
  | nil => rfl
  | cons x log ih =>
    obtain ⟨i, m⟩ := x
    simp only [Hub.ofOne, meanings] at ih ⊢
    by_cases hi : i = k <;> cases hm : meaning m <;> simp [hi, hm, ih]

/-- What messages of others say. -/
theorem told_meanings (r : Nat) (log : List (Nat × Msg)) :
    told r (meanings log) = (Hub.ofOthers isChat r log).map text := by
  induction log with
  | nil => rfl
  | cons x log ih =>
    obtain ⟨i, m⟩ := x
    have hcons : meanings ((i, m) :: log) = ((meaning m).map fun a => (i, a)).toList ++ meanings log := by
      cases hm : meaning m <;> simp [meanings, hm]
    have hothers : Hub.ofOthers isChat r ((i, m) :: log) =
        Hub.ofOthers isChat r [(i, m)] ++ Hub.ofOthers isChat r log :=
      Hub.ofOthers_append [(i, m)] log
    rw [hcons, told_append, hothers, List.map_append, ih]
    congr 1
    by_cases hi : i = r
    · subst hi
      rw [Hub.ofOthers_self]
      rcases meaning m with _ | ⟨_ | _⟩ <;> simp [told]
    · rw [Hub.ofOthers_of_ne hi]
      by_cases hchat : isChat m = true
      · simp [meaning_of_isChat hchat, told, hi, hchat]
      · have hnone : ∀ t, meaning m ≠ some (.say t) := fun t hm => hchat (isChat_of_meaning hm).1
        rw [List.filter_cons_of_neg hchat]
        rcases hm : meaning m with _ | ⟨_ | t⟩
        · rfl
        · rfl
        · exact absurd hm (hnone t)

/-! ## The journal of a run -/

/-- The system has a journal, `log`, which a client `r` hears from the place `since r` on. -/
structure Kept (es : List Event) (out : List Seen) (s : System) (h : Hub Nat Msg) (log : List (Nat × Msg))
    (since : Nat → Nat) : Prop where
  talks : Talks s h
  hub : ∃ ops hout, Hub.Journal isChat ops h hout log since ∧ Echoes (atClients out) hout ∧
    ∀ k, (acts k es).map some = (Hub.ofOne k (Hub.sayings ops)).map meaning
  delivered_eq : SameMeaning (delivered (atServer out)) log

theorem kept_new (config : ServerConfig) : Kept [] [] (new config) ⟨∅, fun _ => [], fun _ => []⟩ [] fun _ => 0 :=
  ⟨talks_new config, ⟨[], [], Hub.journal_nil _ _, echoes_nil, fun _ => rfl⟩, rfl⟩

/-- A move of the hub, in its journal. -/
theorem Move.journal {ops : List (Hub.Op Nat Msg)} {hout : List (Nat × Msg)} (hm : Move s h e s' o h')
    (hj : Hub.Journal isChat ops h hout log since) : ∃ ops' ho log' since',
      Hub.Journal isChat (ops ++ ops') h' (hout ++ ho) (log ++ log') since' ∧ Echoes o ho ∧
      (∀ k, (acts k [e]).map some = (Hub.ofOne k (Hub.sayings ops')).map meaning) ∧
      SameMeaning (delivered (s.serverDoes e)) log' ∧ (∀ r ∈ h.parties, r ∈ h'.parties ∧ since' r = since r) ∧
      ∀ r ∈ h'.parties, r ∉ h.parties → since' r = log.length := by
  cases hm with
  | rest ht hacts hdel =>
    refine ⟨[], [], [], since, by simpa using hj, echoes_nil, fun k => by rw [hacts]; rfl, by rw [hdel]; rfl,
      fun r hr => ⟨hr, rfl⟩, fun r hr hn => absurd hr hn⟩
  | join n hn ht hacts hdel =>
    refine ⟨[.join n], [], [], _, by simpa using hj.join hn, echoes_nil, fun k => by rw [hacts]; rfl,
      by rw [hdel]; rfl, fun r hr => ⟨Finset.mem_insert_of_mem hr, ?_⟩, fun r hr hr' => ?_⟩
    · exact Function.update_of_ne (ne_of_mem_of_not_mem hr hn) _ _
    · obtain rfl := (Finset.mem_insert.1 hr).resolve_right hr'
      exact Function.update_self _ _ _
  | say k m a hk ht hacts hmean hdel =>
    refine ⟨[.say k m], [], [], since, by simpa using hj.say hk m, echoes_nil, fun i => ?_, by rw [hdel]; rfl,
      fun r hr => ⟨hr, rfl⟩, fun r hr hn => absurd hr hn⟩
    rw [hacts]
    by_cases hki : k = i <;> simp [Hub.sayings, Hub.ofOne, hki, hmean]
  | pass r m x ms hr hms ht hacts hdel hx hends =>
    refine ⟨[.pass r], [], [(r, m)], since, by simpa using hj.pass hr hms, echoes_nil, fun k => by rw [hacts]; rfl, ?_,
      fun r hr => ⟨hr, rfl⟩, fun r hr hn => absurd hr hn⟩
    rw [hdel]
    simp [SameMeaning, hx]
  | hear r m ms o hr hms ht hecho hacts hdel =>
    refine ⟨[.hear r], [(r, m)], [], since, by simpa using hj.hear hr hms, hecho, fun k => by rw [hacts]; rfl,
      by rw [hdel]; rfl, fun r hr => ⟨hr, rfl⟩, fun r hr hn => absurd hr hn⟩

/-- **A step keeps the journal**: those that connect hear it from its end on. -/
theorem Kept.step (hsplit : ∀ line, Tokens ChatClient.isBlank line (boostSplit line))
    (hk : Kept es out s h log since) (hs : (observed boostSplit).step s e = some (s', seen)) :
    ∃ h' log' since', Kept (es ++ [e]) (out ++ seen) s' h' (log ++ log') since' ∧
      (∀ r ∈ h.parties, r ∈ h'.parties ∧ since' r = since r) ∧
      ∀ r ∈ h'.parties, r ∉ h.parties → since' r = log.length := by
  obtain ⟨o, hs₁, rfl⟩ := observed_step_iff.1 hs
  obtain ⟨ht, ⟨ops, hout, hj, hecho, hacts⟩, hdel⟩ := hk
  obtain ⟨h', hmove⟩ := ht.move hsplit hs₁
  obtain ⟨ops', ho, log', since', hj', hecho', hacts', hdel', hold, hnew⟩ := hmove.journal hj
  refine ⟨h', log', since', ⟨hmove.talks, ⟨ops ++ ops', hout ++ ho, hj', ?_, fun k => ?_⟩, ?_⟩, hold, hnew⟩
  · rw [atClients_append, atClients_seen]
    exact hecho.append hecho'
  · rw [acts_append, List.map_append, hacts k, hacts' k, Hub.sayings_append, Hub.ofOne_append, List.map_append]
  · rw [atServer_append, atServer_seen, ChatServer.delivered_append]
    exact hdel.append hdel'

/-- **A run keeps the journal.** -/
theorem Kept.run (hsplit : ∀ line, Tokens ChatClient.isBlank line (boostSplit line))
    (hk : Kept es₁ out₁ s₁ h log since) (hr : (observed boostSplit).Run s₁ es₂ s₂ out₂) :
    ∃ h' log' since', Kept (es₁ ++ es₂) (out₁ ++ out₂) s₂ h' (log ++ log') since' ∧
      ∀ r ∈ h.parties, r ∈ h'.parties ∧ since' r = since r := by
  induction hr with
  | nil => exact ⟨h, [], since, by simpa using hk, fun r hr => ⟨hr, rfl⟩⟩
  | snoc _ hs ih =>
    obtain ⟨h', log₁, since', hk', hsame⟩ := ih
    obtain ⟨h'', log₂, since'', hk'', hold, -⟩ := hk'.step hsplit hs
    refine ⟨h'', log₁ ++ log₂, since'', by simpa using hk'', ?_⟩
    intro r hr
    obtain ⟨hr', heq⟩ := hsame r hr
    exact ⟨(hold r hr').1, (hold r hr').2.trans heq⟩

/-- What is typed at a client is what the journal has of it, and then what is on its way to the server. -/
theorem Kept.acts_eq (hk : Kept es out s h log since) (hkp : k ∈ h.parties) :
    acts k es = Hub.ofOne k (journal out) ++ (h.up k).filterMap meaning := by
  obtain ⟨ops, hout, hj, -, hacts⟩ := hk.hub
  have hjournal : journal out = meanings log := hk.delivered_eq.meanings_eq
  have hsome := congrArg (List.filterMap id) (hacts k)
  rw [hj.said k hkp, List.map_append, List.filterMap_append] at hsome
  rw [hjournal, ofOne_meanings]
  simpa [List.filterMap_map, Function.comp_def] using hsome

/-- Every message on its way to the server asks for something. -/
theorem Kept.means {m : Msg} (hk : Kept es out s h log since) (hkp : k ∈ h.parties) (hm : m ∈ h.up k) :
    ∃ a, meaning m = some a := by
  obtain ⟨ops, hout, hj, -, hacts⟩ := hk.hub
  have hmem : meaning m ∈ (acts k es).map some := by
    rw [hacts k, hj.said k hkp]
    exact List.mem_map_of_mem (List.mem_append_right _ hm)
  obtain ⟨a, -, ha⟩ := List.mem_map.1 hmem
  exact ⟨a, ha.symm⟩

theorem Kept.acts_absent (hk : Kept es out s h log since) (hkp : k ∉ h.parties) :
    acts k es = [] ∧ Hub.ofOne k (journal out) = [] := by
  obtain ⟨ops, hout, hj, -, hacts⟩ := hk.hub
  obtain ⟨hsaid, hlog, -⟩ := hj.absent k hkp
  have hjournal : journal out = meanings log := hk.delivered_eq.meanings_eq
  have hnil := hacts k
  rw [hsaid, List.map_nil] at hnil
  exact ⟨List.map_eq_nil_iff.1 hnil, by rw [hjournal, ofOne_meanings, hlog]; rfl⟩

/-- What the journal has of a client is the beginning of what is typed there. -/
theorem Kept.asked_prefix (hk : Kept es out s h log since) (k : Nat) : Hub.ofOne k (journal out) <+: acts k es := by
  by_cases hkp : k ∈ h.parties
  · rw [hk.acts_eq hkp]
    exact List.prefix_append _ _
  · rw [(hk.acts_absent hkp).2]
    exact List.nil_prefix

/-- What the journal gets of others after a client has connected is what the client hears, and then what is on its way
to it. -/
theorem Kept.told_eq (hk : Kept es₁ out₁ s₁ h log since)
    (hk' : Kept (es₁ ++ es₂) (out₁ ++ out₂) s₂ h' (log ++ log') since') (hsince : since' r = log.length)
    (hnone : heard r (atClients out₁) = []) (hr : r ∈ h'.parties) :
    ((told r (journal out₂)).map fun t => (Client.Case.unknown, t)) =
      heard r (atClients out₂) ++ (h'.down r).map fun m => (.unknown, text m) := by
  obtain ⟨ops, hout, hj, hecho, -⟩ := hk'.hub
  have hdel := hk'.delivered_eq
  rw [atServer_append, ChatServer.delivered_append] at hdel
  have hjournal : journal out₂ = meanings log' := (hk.delivered_eq.append_right hdel).meanings_eq
  have hheard : heard r (atClients out₂) = heard r (atClients (out₁ ++ out₂)) := by
    rw [atClients_append, heard_append, hnone, List.nil_append]
  have hothers := hj.heard r hr
  rw [hsince, List.drop_left] at hothers
  rw [hjournal, told_meanings, hothers, hheard, hecho r, List.map_append, List.map_append, List.map_map, List.map_map]
  rfl

/-- Who is not connected has heard nothing. -/
theorem Kept.heard_absent (hk : Kept es out s h log since) (hr : r ∉ s.conns) : heard r (atClients out) = [] := by
  obtain ⟨ops, hout, hj, hecho, -⟩ := hk.hub
  rw [hecho r, (hj.absent r fun hm => hr ((hk.talks.parties r).1 hm)).2.2, List.map_nil]

/-- A run in which a client connects on the way, with the journal that it keeps. -/
theorem exists_kept (hsplit : ∀ line, Tokens ChatClient.isBlank line (boostSplit line))
    (hr₁ : (observed boostSplit).Run (new config) es₁ s₁ out₁)
    (hs : (observed boostSplit).step s₁ e = some (s₂, seen)) (hr₂ : (observed boostSplit).Run s₂ es₂ s out₂)
    (hold : r ∉ s₁.conns) (hnew : r ∈ s₂.conns) :
    ∃ h log since, Kept (es₁ ++ [e] ++ es₂) (out₁ ++ seen ++ out₂) s h log since ∧ r ∈ h.parties ∧
      heard r (atClients out₁) = [] ∧ ((told r (journal (seen ++ out₂))).map fun t => (Client.Case.unknown, t)) =
        heard r (atClients (seen ++ out₂)) ++ (h.down r).map fun m => (.unknown, text m) := by
  obtain ⟨h₁, log₁, since₁, hk₁, -⟩ := (kept_new config).run hsplit hr₁
  obtain ⟨h₂, log₂, since₂, hk₂, -, hjoin⟩ := hk₁.step hsplit hs
  obtain ⟨h₃, log₃, since₃, hk₃, hsame⟩ := hk₂.run hsplit hr₂
  have hr : r ∈ h₂.parties := (hk₂.talks.parties r).2 hnew
  have hsince : since₃ r = ([] ++ log₁).length :=
    (hsame r hr).2.trans (hjoin r hr fun hm => hold ((hk₁.talks.parties r).1 hm))
  have hk₃' : Kept ([] ++ es₁ ++ ([e] ++ es₂)) ([] ++ out₁ ++ (seen ++ out₂)) s h₃ ([] ++ log₁ ++ (log₂ ++ log₃))
      since₃ := by
    simpa using hk₃
  exact ⟨h₃, _, since₃, by simpa using hk₃, (hsame r hr).1, hk₁.heard_absent hold,
    hk₁.told_eq hk₃' hsince (hk₁.heard_absent hold) (hsame r hr).1⟩

/-- **One order for all**: in every run of the system, the message handler of the server is called for what each client
asks for in the order in which it is typed; and the message handler of a client that connects on the way is called for
what the others say in what that of the server is called for from then on, in this order and without a gap. -/
theorem total_order (hsplit : ∀ line, Tokens ChatClient.isBlank line (boostSplit line))
    (hr₁ : (observed boostSplit).Run (new config) es₁ s₁ out₁)
    (hs : (observed boostSplit).step s₁ e = some (s₂, seen)) (hr₂ : (observed boostSplit).Run s₂ es₂ s out₂)
    (hold : r ∉ s₁.conns) (hnew : r ∈ s₂.conns) :
    (∀ k, Hub.ofOne k (journal (out₁ ++ seen ++ out₂)) <+: acts k (es₁ ++ [e] ++ es₂)) ∧
      heard r (atClients out₁) = [] ∧
      heard r (atClients (seen ++ out₂)) <+: (told r (journal (seen ++ out₂))).map fun t => (.unknown, t) := by
  obtain ⟨h, log, since, hk, -, hnone, htold⟩ := exists_kept hsplit hr₁ hs hr₂ hold hnew
  refine ⟨fun k => hk.asked_prefix k, hnone, ?_⟩
  rw [htold]
  exact List.prefix_append _ _

/-- A client connects. -/
def oneConnects : Event := .connect .loopback ⟨"127.0.0.1", 20000⟩ .zero

/-- The first of two clients says "hi", and everything that then can happen does. -/
def hiHeard : List Event :=
  [.command 0 .zero (ascii "send hi"), .serverRead 0, .serverRead 0, .clientRead 1, .clientRead 1, .clientWrite 0,
    .serverWrite 1]

theorem total_order_hiHeard : ∃ (s₁ s₂ s : System) (out₁ seen out₂ : List Seen),
    (observed (split ChatClient.isBlank)).Run (new ⟨2⟩) [oneConnects] s₁ out₁ ∧
    (observed (split ChatClient.isBlank)).step s₁ oneConnects = some (s₂, seen) ∧
    (observed (split ChatClient.isBlank)).Run s₂ hiHeard s out₂ ∧ 1 ∉ s₁.conns ∧ 1 ∈ s₂.conns ∧
    (∀ k, Hub.ofOne k (journal (out₁ ++ seen ++ out₂)) <+: acts k ([oneConnects] ++ [oneConnects] ++ hiHeard)) ∧
    heard 1 (atClients out₁) = [] ∧
    heard 1 (atClients (seen ++ out₂)) <+: (told 1 (journal (seen ++ out₂))).map fun t => (.unknown, t) := by
  have hr₁ : ∃ (s₁ s₂ : System) (out₁ seen : List Seen),
      (observed (split ChatClient.isBlank)).Run (new ⟨2⟩) [oneConnects] s₁ out₁ ∧
      (observed (split ChatClient.isBlank)).step s₁ oneConnects = some (s₂, seen) ∧ 1 ∉ s₁.conns ∧ 1 ∈ s₂.conns ∧
      ((observed (split ChatClient.isBlank)).exec s₂ hiHeard).isSome = true :=
    ⟨_, _, _, _, Machine.run_of_exec rfl, rfl, by decide, by decide, by decide +kernel⟩
  obtain ⟨s₁, s₂, out₁, seen, hr₁, hs, hold, hnew, hsome⟩ := hr₁
  obtain ⟨⟨s, out₂⟩, hx⟩ := Option.isSome_iff_exists.1 hsome
  have hr₂ := Machine.run_of_exec hx
  exact ⟨s₁, s₂, s, out₁, seen, out₂, hr₁, hs, hr₂, hold, hnew, total_order (tokens_split _) hr₁ hs hr₂ hold hnew⟩

end System

end Torinet
