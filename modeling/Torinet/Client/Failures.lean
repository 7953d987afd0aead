import Torinet.Chat.Steps
import Torinet.Client.Order
import Torinet.Server.Threads

/-!
# What failures leave of the order

Accepts, reads and writes fail and connections break; ids are given out again while the sessions that had them go on
(`ChatNetwork.lean`). Still, what the server's message handler is called for of a client, perhaps without the last
message, is the beginning of what was typed there, and what a client is called for is the beginning of what is handled
of the others since it has connected (`in_order`). The last message may be one that nobody has sent, but only over a
connection that is broken.
-/

namespace Torinet

open Lib

namespace ChatNetwork

open ChatServer (deliveredOf handled relayed serverOuts)
open TcpServer (sessionOuts)
open TcpSession (Carried Drains delivery messages sentMsgs written)
open Torinet.System (Act Seen atClients atServer calls handles meaning)

variable {boostSplit : List UInt8 → SplitVector} {config : ServerConfig} {s s' s₁ s₂ : ChatNetwork} {e : Event}
  {es es₁ es₂ : List Event} {out out₁ out₂ seen : List Seen} {k r : Nat} {c c' : Client} {as : List Act}
  {bytes bs : List UInt8} {m : Msg} {o : List TcpSession.Out} {ev : TcpSession.Event} {evs : List ChatServer.Event}
  {p : TcpSession}

/-- What is typed at the client `k`. -/
def acts (k : Nat) (es : List Event) : List Act := es.filterMap fun
  | .command i _ line => if i = k then System.act line else none
  | _ => none

/-- The messages that the message handler of the client `r` is called with. -/
def heard (r : Nat) (out : List Seen) : List Msg := (calls r (atClients out)).map Prod.snd

@[simp] theorem acts_append (es es' : List Event) : acts k (es ++ es') = acts k es ++ acts k es' := by
  simp [acts]

@[simp] theorem heard_append (out seen : List Seen) : heard r (out ++ seen) = heard r out ++ heard r seen := by
  simp [heard]

/-! ## What can be seen of one side -/

theorem atServer_server (outs : List ChatServer.Out) : atServer (outs.map Seen.server) = outs := by
  simp [atServer, List.filterMap_map]

theorem heard_server (k : Nat) (outs : List ChatServer.Out) : heard k (outs.map Seen.server) = [] := by
  simp [heard, atClients, List.filterMap_map, calls]

theorem atServer_client (o : List System.Out) : atServer (o.map Seen.client) = [] := by
  simp [atServer, List.filterMap_map]

theorem atClients_client (o : List System.Out) : atClients (o.map Seen.client) = o := by
  simp [atClients, List.filterMap_map]

theorem heard_handles_self (r : Nat) (c : Client) (o : List TcpSession.Out) :
    heard r ((handles r c o).map .client) = messages o := by
  rw [heard, atClients_client]
  induction o with
  | nil => rfl
  | cons x o ih =>
    cases x with
    | message m =>
      have hhandles : handles r c (.message m :: o) = (r, c.messageHandler, m) :: handles r c o := rfl
      have hmessages : messages (.message m :: o) = m :: messages o := rfl
      have hcalls : calls r ((r, c.messageHandler, m) :: handles r c o) =
          (c.messageHandler, m) :: calls r (handles r c o) := by
        simp [calls]
      rw [hhandles, hmessages, hcalls, List.map_cons, ih]
    | _ => exact ih

theorem heard_handles_ne (hk : k ≠ r) (c : Client) (o : List TcpSession.Out) :
    heard k ((handles r c o).map .client) = [] := by
  rw [heard, atClients_client, List.map_eq_nil_iff, calls, List.filterMap_eq_nil_iff]
  intro x hx
  obtain ⟨y, -, hy⟩ := List.mem_filterMap.1 hx
  cases y with
  | message m =>
    obtain rfl := Option.some.inj hy
    exact if_neg (Ne.symm hk)
  | _ => cases hy

/-! ## What a client says -/

/-- The client has asked for the given, and has put the given bytes on its way, as a session that runs on its own. -/
def Said (c : Client) (as : List Act) (bytes : List UInt8) : Prop :=
  ∃ ep mem evs outs, TcpSession.machine.Run (.new 0 ep mem) evs c.session outs ∧ bytes = written outs ∧
    (sentMsgs evs).map meaning = as.map some ∧ ∀ m ∈ sentMsgs evs, m.Sound

theorem Said.congr (h : Said c as bytes) (hc : c'.session = c.session) : Said c' as bytes := by
  unfold Said
  rwa [hc]

/-- A session does something that is no `send`. -/
theorem Said.step (h : Said c as bytes) (hs : c.session.step ev = some (c'.session, o)) (hev : sentMsgs [ev] = []) :
    Said c' as (bytes ++ written o) := by
  obtain ⟨ep, mem, evs, outs, hr, rfl, hmean, hsound⟩ := h
  have hsent : sentMsgs (evs ++ [ev]) = sentMsgs evs := by
    rw [ChatServer.sentMsgs_append, hev, List.append_nil]
  refine ⟨ep, mem, evs ++ [ev], outs ++ o, hr.snoc hs, by rw [TcpSession.written_append], ?_, ?_⟩
  · rwa [hsent]
  · rwa [hsent]

/-- A message is sent that asks for `a`. -/
theorem Said.send {a : Act} (h : Said c as bytes) (hc : c'.session = (c.session.sendRef m).1) (hm : m.Sound)
    (ha : meaning m = some a) : Said c' (as ++ [a]) (bytes ++ written (c.session.sendRef m).2) := by
  obtain ⟨ep, mem, evs, outs, hr, rfl, hmean, hsound⟩ := h
  have hs : TcpSession.machine.step c.session (.send .ref m) = some (c'.session, (c.session.sendRef m).2) := by
    rw [hc]
    rfl
  have hsent : sentMsgs (evs ++ [.send .ref m]) = sentMsgs evs ++ [m] := ChatServer.sentMsgs_append _ _
  refine ⟨ep, mem, _, _, hr.snoc hs, by rw [TcpSession.written_append], ?_, fun m' hm' => ?_⟩
  · rw [hsent, List.map_append, hmean, List.map_singleton, ha, List.map_append]
    rfl
  · rw [hsent] at hm'
    rcases List.mem_append.1 hm' with hm' | hm'
    · exact hsound m' hm'
    · exact List.mem_singleton.1 hm' ▸ hm

theorem written_connect {p' : TcpSession} (hs : p.step ev = some (p', o))
    (hev : ev = .connect ∨ ev = .connectDone none) : written o = [] := by
  have hpath := TcpSession.step_path hs
  rcases hev with rfl | rfl
  · cases hpath
    rfl
  · cases hpath
    rfl

/-- A client that has connected has said nothing. -/
theorem said_start {ep : Endpoint} {mem : TcpSession.Memory} (hc : (Client.new ep mem).start = some c) :
    Said c [] [] := by
  obtain ⟨⟨c₁, o₁⟩, hs₁, hc⟩ := Option.bind_eq_some_iff.1 hc
  obtain ⟨⟨c₂, o₂⟩, hs₂, rfl⟩ := Option.map_eq_some_iff.1 hc
  obtain ⟨hs₁, -⟩ := Client.sessionStep_iff.1 hs₁
  obtain ⟨hs₂, -⟩ := Client.sessionStep_iff.1 hs₂
  have hr : TcpSession.machine.Run (.new 0 ep mem) [.connect, .connectDone none] c₂.session ([] ++ o₁ ++ o₂) :=
    (Machine.Run.nil.snoc hs₁).snoc hs₂
  refine ⟨ep, mem, _, _, hr, ?_, rfl, by simp [sentMsgs]⟩
  rw [TcpSession.written_append, TcpSession.written_append, written_connect hs₁ (Or.inl rfl),
    written_connect hs₂ (Or.inr rfl)]
  rfl

/-- The bytes are those of the messages that were sent, as far as they were written. -/
theorem Said.begins (h : Said c as bytes) : ∃ ms : List Msg, (∀ m ∈ ms, m.Sound) ∧ ms.map meaning = as.map some ∧
    bytes <+: ms.flatMap Msg.wire := by
  obtain ⟨ep, mem, evs, outs, hr, rfl, hmean, hsound⟩ := h
  refine ⟨sentMsgs evs, hsound, hmean, ?_⟩
  rw [(TcpSession.sends_run hr).bytes, ← TcpSession.sent_outbox evs]
  exact (Outbox.handed_prefix _).flatMap Msg.wire

/-! ## What every run keeps of a connection -/

/-- The connection `k`, whose session at the server is `p`. -/
structure Line (es : List Event) (out : List Seen) (s : ChatNetwork) (k : Nat) (p : TcpSession) : Prop where
  up : ∃ bytes, Said (s.client k) (acts k es) bytes ∧ Carried (s.up k) p bytes (deliveredOf k (atServer out))
  down : Carried (s.down k) (s.client k).session (written (sessionOuts k (serverOuts (atServer out)))) (heard k out)

/-- All connections, whether their sessions have failed or not. -/
structure Lines (es : List Event) (out : List Seen) (s : ChatNetwork) : Prop where
  line : ∀ k p, s.server.server.objs[k]? = some p → Line es out s k p
  absent : ∀ k, s.server.server.objs[k]? = none → acts k es = [] ∧ heard k out = []

/-- In an event of the server, `l'` is left of the link to its session `k`, which is `p`. -/
def Takes (ev : ChatServer.Event) (k : Nat) (p : TcpSession) (l l' : Link UInt8) : Prop :=
  (∃ ev', ev.toServer = .session k ev' ∧ Drains ev' p l l') ∨ (∀ ev', ev.toServer ≠ .session k ev') ∧ l' = l

/-- **The way to the server**, in a step of it. -/
theorem Line.up_of_step {ev : ChatServer.Event} {t : ChatServer} {outs : List ChatServer.Out} {l : Link UInt8}
    (hl : Line es out s k p) (hs : s.server.step ev = some (t, outs)) (hp : s.server.server.objs[k]? = some p)
    (hu : Takes ev k p (s.up k) l) : ∃ p', t.server.objs[k]? = some p' ∧
      ∃ bytes, Said (s.client k) (acts k es) bytes ∧
        Carried l p' bytes (deliveredOf k (atServer out) ++ deliveredOf k outs) := by
  obtain ⟨bytes, hsaid, hc⟩ := hl.up
  obtain ⟨ms, hms, -, hbytes⟩ := hsaid.begins
  rcases ChatServer.session_of_step hs hp with ⟨ev₁, p₁, p', o, he, hps, hp', hsent, ho⟩ | ⟨p', he, hp', hsent, ho⟩
  · rcases hu with ⟨ev₂, he₂, hd⟩ | ⟨hno, -⟩
    · obtain ⟨-, rfl⟩ := TcpServer.Event.session.inj (he.symm.trans he₂)
      have hc' := hc.step hps (ChatServer.not_starts_of_toServer he) hd hbytes hms
      exact ⟨p', hp', bytes, hsaid, ho ▸ hc'.congr hsent.sameReads⟩
    · exact absurd he (hno _)
  · rcases hu with ⟨ev₂, he₂, -⟩ | ⟨-, rfl⟩
    · exact absurd he₂ (he _)
    · rw [ho, List.append_nil]
      exact ⟨p', hp', bytes, hsaid, hc.congr hsent.sameReads⟩

/-- **The server takes a step.** -/
theorem Line.serverStep {ev : ChatServer.Event} {u : Nat → Link UInt8} (hl : Line es out s k p)
    (hs : ({ s with up := u } : ChatNetwork).serverStep ev = some (s', seen))
    (hp : s.server.server.objs[k]? = some p) (hu : Takes ev k p (s.up k) (u k)) (he : acts k [e] = []) :
    ∃ p', s'.server.server.objs[k]? = some p' ∧ Line (es ++ [e]) (out ++ seen) s' k p' := by
  obtain ⟨⟨t, outs⟩, hstep, heq⟩ := Option.map_eq_some_iff.1 hs
  obtain ⟨rfl, rfl⟩ := Prod.mk.inj heq
  obtain ⟨p', hp', bytes, hsaid, hc⟩ := hl.up_of_step hstep hp hu
  refine ⟨p', hp', ⟨bytes, ?_, ?_⟩, ?_⟩
  · rwa [acts_append, he, List.append_nil]
  · rwa [System.atServer_append, atServer_server, ChatServer.deliveredOf_append]
  · rw [System.atServer_append, atServer_server, ChatServer.serverOuts_append, TcpServer.sessionOuts_append,
      TcpSession.written_append, heard_append, heard_server, List.append_nil]
    exact hl.down.put _

/-- Nothing happens on the connection. -/
theorem Line.rest (hl : Line es out s k p) (hclient : (s'.client k).session = (s.client k).session)
    (hup : s'.up k = s.up k) (hdown : s'.down k = s.down k) (he : acts k [e] = [])
    (hseen : sessionOuts k (serverOuts (atServer seen)) = []) (hheard : heard k seen = []) :
    Line (es ++ [e]) (out ++ seen) s' k p := by
  obtain ⟨bytes, hsaid, hc⟩ := hl.up
  have hnone : deliveredOf k (atServer seen) = [] := by
    rw [deliveredOf, hseen]
    rfl
  refine ⟨⟨bytes, ?_, ?_⟩, ?_⟩
  · rw [acts_append, he, List.append_nil]
    exact hsaid.congr hclient
  · rwa [hup, System.atServer_append, ChatServer.deliveredOf_append, hnone, List.append_nil]
  · rw [hclient, hdown, System.atServer_append, ChatServer.serverOuts_append, TcpServer.sessionOuts_append, hseen,
      List.append_nil, heard_append, hheard, List.append_nil]
    exact hl.down

/-- What a client does on its own. -/
theorem clientStep_inv (hs : s.clientStep r ev = some (s', seen)) : ∃ (c : Client) (o : List TcpSession.Out),
    (s.client r).session.step ev = some (c.session, o) ∧ s' = s.setClient r c o ∧
      seen = (handles r c o).map .client := by
  simp only [clientStep, Option.ite_none_left_eq_some] at hs
  obtain ⟨⟨c, o⟩, hc, heq⟩ := Option.map_eq_some_iff.1 hs.2
  obtain ⟨rfl, rfl⟩ := Prod.mk.inj heq
  exact ⟨c, o, (Client.sessionStep_iff.1 hc).1, rfl, rfl⟩

/-- **A client takes a step.** -/
theorem Line.clientStep {v : Nat → Link UInt8} {ms : List Msg} (hl : Line es out s k p)
    (hs : ({ s with down := v } : ChatNetwork).clientStep r ev = some (s', seen)) (hstart : ¬ ev.Starts)
    (hev : sentMsgs [ev] = []) (hv : Drains ev (s.client r).session (s.down r) (v r))
    (hother : ∀ q ≠ r, v q = s.down q) (hms : ∀ m ∈ ms, m.Sound)
    (hbytes : written (sessionOuts k (serverOuts (atServer out))) <+: ms.flatMap Msg.wire) (he : acts k [e] = []) :
    Line (es ++ [e]) (out ++ seen) s' k p := by
  obtain ⟨c, o, hps, rfl, rfl⟩ := clientStep_inv hs
  have hps : (s.client r).session.step ev = some (c.session, o) := hps
  by_cases hk : k = r
  · subst hk
    obtain ⟨bytes, hsaid, hc⟩ := hl.up
    refine ⟨⟨bytes ++ written o, ?_, ?_⟩, ?_⟩
    · rw [acts_append, he, List.append_nil]
      simpa only [setClient, Function.update_self] using hsaid.step hps hev
    · rw [System.atServer_append, atServer_client, List.append_nil]
      simpa only [setClient, Function.update_self] using hc.put (written o)
    · rw [System.atServer_append, atServer_client, List.append_nil, heard_append, heard_handles_self]
      simpa only [setClient, Function.update_self] using hl.down.step hps hstart hv hbytes hms
  · refine hl.rest ?_ ?_ (hother k hk) he (by rw [atServer_client]; rfl) (heard_handles_ne hk c o)
    · simp only [setClient, Function.update_of_ne hk]
    · simp only [setClient, Function.update_of_ne hk]

/-- A line asks for nothing, or for a message to be sent. -/
theorem command_inv {mem : Msg} {line : List UInt8} (hsplit : Tokens ChatClient.isBlank line (boostSplit line))
    (hs : s.command boostSplit r mem line = some (s', seen)) :
    ∃ (c : Client) (o : List TcpSession.Out) (b : Nat → Bool), s' = { s.setClient r c o with bTerm := b } ∧ seen = [] ∧
      (c.session = (s.client r).session ∧ o = [] ∧ System.act line = none ∨
        ∃ (m : Msg) (a : Act), c.session = ((s.client r).session.sendRef m).1 ∧
          o = ((s.client r).session.sendRef m).2 ∧ m.Sound ∧ System.act line = some a ∧ meaning m = some a) := by
  simp only [ChatNetwork.command, Option.ite_none_left_eq_some] at hs
  obtain ⟨⟨x, outs⟩, hread, hs⟩ := Option.bind_eq_some_iff.1 hs.2
  obtain ⟨c, hvec, hcases⟩ := System.act_of_readLine hsplit hread
  simp only [hvec, List.head?_cons, Option.map_some, Option.some.injEq, Prod.mk.injEq] at hs
  obtain ⟨rfl, rfl⟩ := hs
  refine ⟨c, outs.map Prod.snd, _, rfl, rfl, ?_⟩
  rcases hcases with ⟨hsession, rfl, -, hact⟩ | ⟨m, hsession, rfl, hsays, hsome, hmean⟩
  · exact Or.inl ⟨hsession, rfl, hact⟩
  · obtain ⟨a, ha⟩ := Option.isSome_iff_exists.1 hsome
    exact Or.inr ⟨m, a, hsession, by simp [Function.comp_def], hsays.sound, ha, hmean.trans ha⟩

/-- **A line is typed.** -/
theorem Line.command {mem : Msg} {line : List UInt8} (hl : Line es out s k p)
    (hsplit : Tokens ChatClient.isBlank line (boostSplit line))
    (hs : s.command boostSplit r mem line = some (s', seen)) :
    Line (es ++ [.command r mem line]) (out ++ seen) s' k p := by
  obtain ⟨c, o, b, rfl, rfl, hcases⟩ := command_inv hsplit hs
  by_cases hk : k = r
  · subst hk
    rcases hcases with ⟨hsession, rfl, hact⟩ | ⟨m, a, hsession, rfl, hm, hact, hmean⟩
    · refine hl.rest ?_ ?_ rfl (by simp [acts, hact]) rfl rfl
      · simpa only [setClient, Function.update_self] using hsession
      · simp only [setClient, Function.update_self]
        exact Link.put_nil _
    · obtain ⟨bytes, hsaid, hc⟩ := hl.up
      have hacts : acts k [.command k mem line] = [a] := by simp [acts, hact]
      refine ⟨⟨bytes ++ written ((s.client k).session.sendRef m).2, ?_, ?_⟩, ?_⟩
      · rw [acts_append, hacts]
        simpa only [setClient, Function.update_self] using hsaid.send hsession hm hmean
      · simpa [setClient] using hc.put (written ((s.client k).session.sendRef m).2)
      · have hdown := hl.down.congr (TcpSession.SameReads.sendRef (s.client k).session m)
        rw [← hsession] at hdown
        simpa only [setClient, Function.update_self, List.append_nil] using hdown
  · refine hl.rest ?_ ?_ rfl (by simp [acts, Ne.symm hk]) rfl rfl
    · simp only [setClient, Function.update_of_ne hk]
    · simp only [setClient, Function.update_of_ne hk]

/-! ## A client connects -/

/-- The client `c` has connected, and the server has become `t`. -/
def joined (s : ChatNetwork) (t : ChatServer) (c : Client) : ChatNetwork :=
  let r := s.server.server.objs.length
  { server := t
    client := Function.update s.client r c
    bTerm := Function.update s.bTerm r false
    up := Function.update s.up r .new
    down := Function.update s.down r .new }

theorem connect_inv {a : Accepted} {ep : Endpoint} {mem : TcpSession.Memory}
    (hs : s.connect a ep mem = some (s', seen)) :
    ∃ (t : ChatServer) (outs : List ChatServer.Out) (c : Client), s.server.step (.accept (.ok a)) = some (t, outs) ∧
      (Client.new ep mem).start = some c ∧ s' = s.joined t c ∧ seen = outs.map .server := by
  obtain ⟨⟨t, outs⟩, hstep, hs⟩ := Option.bind_eq_some_iff.1 hs
  obtain ⟨c, hc, heq⟩ := Option.map_eq_some_iff.1 hs
  obtain ⟨rfl, rfl⟩ := Prod.mk.inj heq
  exact ⟨t, outs, c, hstep, hc, rfl, rfl⟩

@[simp] theorem joined_server (s : ChatNetwork) (t : ChatServer) (c : Client) : (s.joined t c).server = t := rfl

/-- The new connection. -/
theorem joined_self (s : ChatNetwork) (t : ChatServer) (c : Client) :
    (s.joined t c).client s.server.server.objs.length = c ∧ (s.joined t c).up s.server.server.objs.length = .new ∧
      (s.joined t c).down s.server.server.objs.length = .new :=
  ⟨Function.update_self _ _ _, Function.update_self _ _ _, Function.update_self _ _ _⟩

/-- The others stay as they are. -/
theorem joined_ne {t : ChatServer} (hk : k ≠ s.server.server.objs.length) : (s.joined t c).client k = s.client k ∧
    (s.joined t c).up k = s.up k ∧ (s.joined t c).down k = s.down k :=
  ⟨Function.update_of_ne hk _ _, Function.update_of_ne hk _ _, Function.update_of_ne hk _ _⟩

/-! ## The server's part -/

theorem server_of_serverStep {ev : ChatServer.Event} (hs : s.serverStep ev = some (s', seen)) :
    s.server.step ev = some (s'.server, atServer seen) ∧ ∀ k, heard k seen = [] := by
  obtain ⟨⟨t, outs⟩, hstep, heq⟩ := Option.map_eq_some_iff.1 hs
  obtain ⟨rfl, rfl⟩ := Prod.mk.inj heq
  rw [atServer_server]
  exact ⟨hstep, fun k => heard_server k outs⟩

theorem server_of_clientStep (hs : s.clientStep r ev = some (s', seen)) :
    s'.server = s.server ∧ atServer seen = [] := by
  obtain ⟨c, o, -, rfl, rfl⟩ := clientStep_inv hs
  exact ⟨rfl, atServer_client _⟩

/-- In the step `e` of all, the server takes a step of its own: a connection is accepted in `connect` only. -/
structure ServerStep (s : ChatNetwork) (e : Event) (s' : ChatNetwork) (seen : List Seen) (ev : ChatServer.Event) :
    Prop where
  step : s.server.step ev = some (s'.server, atServer seen)
  heard : ∀ k, heard k seen = []
  connects : ∀ a, ev = .accept (.ok a) → ∃ ep mem, e = .connect a ep mem

theorem serverStep_of {ev : ChatServer.Event} (hs : s.serverStep ev = some (s', seen))
    (hno : ∀ a, ev ≠ .accept (.ok a)) : ServerStep s e s' seen ev := by
  obtain ⟨hstep, hheard⟩ := server_of_serverStep hs
  exact ⟨hstep, hheard, fun a ha => absurd ha (hno a)⟩

/-- A step of all is one of the server, or leaves it alone. -/
theorem server_step (hs : s.step boostSplit e = some (s', seen)) :
    (∃ ev, ServerStep s e s' seen ev) ∨ s'.server = s.server ∧ atServer seen = [] := by
  cases e with
  | connect a ep mem =>
    obtain ⟨t, outs, c, hstep, -, rfl, rfl⟩ := connect_inv hs
    refine Or.inl ⟨.accept (.ok a), ?_, fun k => heard_server k outs, fun b hb => ⟨ep, mem, ?_⟩⟩
    · rwa [joined_server, atServer_server]
    · cases hb
      rfl
  | acceptError ec => exact Or.inl ⟨_, serverStep_of hs (by simp)⟩
  | command r mem line =>
    simp only [step, command, Option.ite_none_right_eq_some, Option.ite_none_left_eq_some] at hs
    obtain ⟨x, -, hs⟩ := Option.bind_eq_some_iff.1 hs.2.2
    obtain ⟨c, -, heq⟩ := Option.map_eq_some_iff.1 hs
    obtain ⟨rfl, rfl⟩ := Prod.mk.inj heq
    exact Or.inr ⟨rfl, rfl⟩
  | serverRead r ec =>
    cases ec with
    | some ec => exact Or.inl ⟨_, serverStep_of hs (by simp)⟩
    | none =>
      obtain ⟨p, -, hs⟩ := Option.bind_eq_some_iff.1 hs
      obtain ⟨bs, -, hs⟩ := Option.bind_eq_some_iff.1 hs
      obtain ⟨hstep, hheard⟩ := server_of_serverStep hs
      exact Or.inl ⟨_, hstep, hheard, by simp⟩
  | serverWrite r ec => exact Or.inl ⟨_, serverStep_of hs (by simp)⟩
  | clientRead r ec =>
    simp only [step, Option.ite_none_right_eq_some] at hs
    cases ec with
    | some ec => exact Or.inr (server_of_clientStep hs.2)
    | none =>
      obtain ⟨bs, -, hs⟩ := Option.bind_eq_some_iff.1 hs.2
      obtain ⟨hserver, hseen⟩ := server_of_clientStep hs
      exact Or.inr ⟨hserver, hseen⟩
  | clientWrite r ec =>
    simp only [step, Option.ite_none_right_eq_some] at hs
    exact Or.inr (server_of_clientStep hs.2)
  | breakUp r n =>
    obtain ⟨rfl, rfl⟩ := Prod.mk.inj (Option.some.inj hs)
    exact Or.inr ⟨rfl, rfl⟩
  | breakDown r n =>
    obtain ⟨rfl, rfl⟩ := Prod.mk.inj (Option.some.inj hs)
    exact Or.inr ⟨rfl, rfl⟩

/-- **A run of all is one of the server.** -/
theorem server_run (hr : (machine boostSplit).Run s es s' out) :
    ∃ evs, ChatServer.machine.Run s.server evs s'.server (atServer out) := by
  induction hr with
  | nil => exact ⟨[], Machine.Run.nil⟩
  | snoc _ hs ih =>
    obtain ⟨evs, hr⟩ := ih
    rw [System.atServer_append]
    rcases server_step hs with ⟨ev, hstep⟩ | ⟨hsame, hnone⟩
    · exact ⟨_, hr.snoc hstep.step⟩
    · refine ⟨evs, ?_⟩
      rwa [hsame, hnone, List.append_nil]

/-- What is handled has been delivered. -/
theorem Lines.sound_handled (hl : Lines es out s)
    (hr : ChatServer.machine.Run ((ChatServer.new config).start true) evs s.server (atServer out)) :
    ∀ x ∈ handled (atServer out), x.2.1.Sound := by
  intro x hx
  have hmem : (x.1, x.2.1) ∈ ChatServer.chatMessages (serverOuts (atServer out)) := by
    rw [← ChatServer.handled_eq hr]
    exact List.mem_map_of_mem hx
  obtain ⟨⟨q, y⟩, hy, heq⟩ := List.mem_filterMap.1 hmem
  cases y with
  | message m =>
    simp only [Option.ite_none_right_eq_some, Option.some.injEq] at heq
    obtain ⟨rfl, rfl⟩ := Prod.mk.inj heq.2
    have hdel : x.2.1 ∈ deliveredOf x.1 (atServer out) :=
      List.mem_filterMap.2 ⟨_, TcpServer.mem_sessionOuts.2 hy, rfl⟩
    cases hp : s.server.server.objs[x.1]? with
    | none =>
      rw [deliveredOf, (ChatServer.absent_of_run hr hp).1] at hdel
      cases hdel
    | some p =>
      obtain ⟨bytes, -, hc⟩ := (hl.line x.1 p hp).up
      exact hc.sound _ hdel
  | _ => cases heq

theorem Lines.sound_relayed (hl : Lines es out s)
    (hr : ChatServer.machine.Run ((ChatServer.new config).start true) evs s.server (atServer out)) :
    ∀ m ∈ relayed k (atServer out), m.Sound := by
  intro m hm
  obtain ⟨x, hx, heq⟩ := List.mem_filterMap.1 hm
  simp only [Option.ite_none_right_eq_some, Option.some.injEq] at heq
  exact heq.2 ▸ hl.sound_handled hr x hx

/-! ## Every step keeps it -/

theorem lines_new (config : ServerConfig) : Lines [] [] (new config) where
  line k p hp := by
    simp [new, ChatServer.start, ChatServer.new, TcpServer.listen, TcpServer.startAccept, TcpServer.new] at hp
  absent _ _ := ⟨rfl, rfl⟩

theorem Lines.serverStep {ev : ChatServer.Event} {u : Nat → Link UInt8} (hl : Lines es out s)
    (hs : ({ s with up := u } : ChatNetwork).serverStep ev = some (s', seen))
    (hu : ∀ k p, s.server.server.objs[k]? = some p → Takes ev k p (s.up k) (u k))
    (hno : ∀ a, ev ≠ .accept (.ok a)) (he : ∀ k, acts k [e] = []) : Lines (es ++ [e]) (out ++ seen) s' := by
  obtain ⟨hstep, hheard⟩ := server_of_serverStep hs
  have hlen := ChatServer.length_objs_of_step hstep hno
  refine ⟨fun k p' hp' => ?_, fun k hk => ?_⟩
  · have hlt : k < s.server.server.objs.length := hlen ▸ (List.getElem?_eq_some_iff.1 hp').1
    have hp := List.getElem?_eq_getElem hlt
    obtain ⟨p₁, hp₁, hline⟩ := (hl.line k _ hp).serverStep hs hp (hu k _ hp) (he k)
    exact Option.some.inj (hp₁.symm.trans hp') ▸ hline
  · have hk' : s.server.server.objs[k]? = none := by
      rw [List.getElem?_eq_none_iff] at hk ⊢
      exact hlen ▸ hk
    obtain ⟨hacts, hheard'⟩ := hl.absent k hk'
    rw [acts_append, heard_append, hacts, hheard', he k, hheard k]
    exact ⟨rfl, rfl⟩

/-- An event of the session `r` takes what it takes of its own link. -/
theorem takes_of_session {ev : ChatServer.Event} {ev' : TcpSession.Event} {u : Nat → Link UInt8}
    (he : ev.toServer = .session r ev')
    (hd : ∀ p, s.server.server.objs[r]? = some p → Drains ev' p (s.up r) (u r)) (hother : ∀ q ≠ r, u q = s.up q) :
    ∀ k p, s.server.server.objs[k]? = some p → Takes ev k p (s.up k) (u k) := by
  intro k p hp
  by_cases hk : k = r
  · subst hk
    exact Or.inl ⟨ev', he, hd p hp⟩
  · refine Or.inr ⟨fun ev'' heq => hk ?_, hother k hk⟩
    exact (TcpServer.Event.session.inj (heq.symm.trans he)).1

/-- The server does nothing. -/
theorem Lines.ofClient (hl : Lines es out s) (hserver : s'.server = s.server)
    (hline : ∀ k p, s.server.server.objs[k]? = some p → Line (es ++ [e]) (out ++ seen) s' k p)
    (habsent : ∀ k, s.server.server.objs[k]? = none → acts k [e] = [] ∧ heard k seen = []) :
    Lines (es ++ [e]) (out ++ seen) s' := by
  refine ⟨fun k p hp => hline k p (hserver ▸ hp), fun k hk => ?_⟩
  obtain ⟨hacts, hheard⟩ := hl.absent k (hserver ▸ hk)
  obtain ⟨hacts', hheard'⟩ := habsent k (hserver ▸ hk)
  rw [acts_append, heard_append, hacts, hheard, hacts', hheard']
  exact ⟨rfl, rfl⟩

/-- A connection that was there before. -/
theorem Line.joined {a : Accepted} {ep : Endpoint} {mem : TcpSession.Memory} {t : ChatServer}
    {outs : List ChatServer.Out} (hl : Line es out s k p) (hk : k ≠ s.server.server.objs.length)
    (houts : sessionOuts k (serverOuts outs) = []) :
    Line (es ++ [.connect a ep mem]) (out ++ outs.map .server) (s.joined t c) k p := by
  obtain ⟨hclient, hup, hdown⟩ := joined_ne (t := t) (c := c) hk
  refine hl.rest (congrArg Client.session hclient) hup hdown rfl ?_ (heard_server k outs)
  rwa [atServer_server]

/-- The connection that has been made. -/
theorem line_joined {a : Accepted} {ep : Endpoint} {mem : TcpSession.Memory} {t : ChatServer}
    {outs : List ChatServer.Out} (hc : (Client.new ep mem).start = some c) (hp : p.reads = [.header hdrLength])
    (hbefore : sessionOuts s.server.server.objs.length (serverOuts (atServer out)) = [])
    (houts : sessionOuts s.server.server.objs.length (serverOuts outs) = [.opened, .asyncRead (.header hdrLength)])
    (hacts : acts s.server.server.objs.length es = []) (hheard : heard s.server.server.objs.length out = []) :
    Line (es ++ [.connect a ep mem]) (out ++ outs.map .server) (s.joined t c) s.server.server.objs.length p := by
  obtain ⟨hclient, hup, hdown⟩ := joined_self s t c
  have hsession : sessionOuts s.server.server.objs.length (serverOuts (atServer (out ++ outs.map Seen.server))) =
      [.opened, .asyncRead (.header hdrLength)] := by
    rw [System.atServer_append, atServer_server, ChatServer.serverOuts_append, TcpServer.sessionOuts_append, hbefore,
      houts, List.nil_append]
  have hnil : acts s.server.server.objs.length [.connect a ep mem] = [] := rfl
  refine ⟨⟨[], ?_, ?_⟩, ?_⟩
  · rw [acts_append, hacts, hnil, hclient]
    exact said_start hc
  · rw [hup, deliveredOf, hsession]
    exact TcpSession.carried_new hp
  · rw [hclient, hdown, hsession, heard_append, hheard, heard_server]
    exact TcpSession.carried_new (System.session_of_start hc).2.2

/-- **A client connects**, and may be given a session. -/
theorem Lines.connect {a : Accepted} {ep : Endpoint} {mem : TcpSession.Memory} (hl : Lines es out s)
    (hr : ChatServer.machine.Run ((ChatServer.new config).start true) evs s.server (atServer out))
    (hs : s.connect a ep mem = some (s', seen)) : Lines (es ++ [.connect a ep mem]) (out ++ seen) s' := by
  obtain ⟨t, outs, c, hstep, hc, rfl, rfl⟩ := connect_inv hs
  obtain ⟨hothers, hobjs⟩ := ChatServer.objs_of_accept hstep
  have hnone : s.server.server.objs[s.server.server.objs.length]? = none :=
    List.getElem?_eq_none_iff.2 (Nat.le_refl _)
  have hold : ∀ k p, s.server.server.objs[k]? = some p →
      Line (es ++ [.connect a ep mem]) (out ++ outs.map .server) (s.joined t c) k p := by
    intro k p hp
    have hk : k ≠ s.server.server.objs.length := Nat.ne_of_lt (List.getElem?_eq_some_iff.1 hp).1
    exact (hl.line k p hp).joined hk (hothers k hk)
  refine ⟨fun k p' hp' => ?_, fun k hk => ?_⟩
  · rw [joined_server] at hp'
    rcases hobjs with hsame | ⟨p, hnew, hp, -, hlast⟩
    · exact hold k p' (hsame ▸ hp')
    · rw [hnew] at hp'
      rcases Nat.lt_trichotomy k s.server.server.objs.length with hlt | rfl | hgt
      · exact hold k p' (by rwa [List.getElem?_append_left hlt] at hp')
      · rw [List.getElem?_concat_length] at hp'
        obtain rfl := Option.some.inj hp'
        obtain ⟨hacts, hheard⟩ := hl.absent _ hnone
        exact line_joined hc hp (ChatServer.absent_of_run hr hnone).1 hlast hacts hheard
      · rw [List.getElem?_eq_none (by rw [List.length_append, List.length_singleton]; omega)] at hp'
        cases hp'
  · have hk' : s.server.server.objs[k]? = none := by
      rw [joined_server, List.getElem?_eq_none_iff] at hk
      rw [List.getElem?_eq_none_iff]
      rcases hobjs with hsame | ⟨p, hnew, -⟩
      · rwa [hsame] at hk
      · rw [hnew, List.length_append] at hk
        omega
    obtain ⟨hacts, hheard⟩ := hl.absent k hk'
    rw [acts_append, heard_append, hacts, hheard, heard_server]
    exact ⟨rfl, rfl⟩

/-- A completion at a client that is connected. -/
theorem Lines.clientStep {v : Nat → Link UInt8} (hl : Lines es out s)
    (hr : ChatServer.machine.Run ((ChatServer.new config).start true) evs s.server (atServer out))
    (hlt : r < s.server.server.objs.length)
    (hs : ({ s with down := v } : ChatNetwork).clientStep r ev = some (s', seen)) (hstart : ¬ ev.Starts)
    (hev : sentMsgs [ev] = []) (hv : Drains ev (s.client r).session (s.down r) (v r))
    (hother : ∀ q ≠ r, v q = s.down q) (he : ∀ k, acts k [e] = []) : Lines (es ++ [e]) (out ++ seen) s' := by
  obtain ⟨c, o, -, heq, hseen⟩ := clientStep_inv hs
  refine hl.ofClient (by rw [heq]; rfl) (fun k p hp => ?_) fun k hk => ⟨he k, ?_⟩
  · exact (hl.line k p hp).clientStep hs hstart hev hv hother (hl.sound_relayed hr)
      (ChatServer.written_relayed hr hp).1 (he k)
  · rw [hseen]
    refine heard_handles_ne ?_ c o
    rintro rfl
    exact absurd hlt (Nat.not_lt.2 (List.getElem?_eq_none_iff.1 hk))

/-- **Every step keeps it.** -/
theorem Lines.step (hsplit : ∀ line, Tokens ChatClient.isBlank line (boostSplit line)) (hl : Lines es out s)
    (hr : ChatServer.machine.Run ((ChatServer.new config).start true) evs s.server (atServer out))
    (hs : s.step boostSplit e = some (s', seen)) : Lines (es ++ [e]) (out ++ seen) s' := by
  cases e with
  | connect a ep mem => exact hl.connect hr hs
  | acceptError ec =>
    exact hl.serverStep (u := s.up) hs (fun k p hp => Or.inr ⟨by simp [ChatServer.Event.toServer], rfl⟩) (by simp)
      fun _ => rfl
  | command r mem line =>
    simp only [ChatNetwork.step, Option.ite_none_right_eq_some] at hs
    obtain ⟨hlt, hs⟩ := hs
    have hline := fun k p hp => (hl.line k p hp).command (hsplit line) hs
    obtain ⟨c, o, b, rfl, rfl, -⟩ := command_inv (hsplit line) hs
    refine hl.ofClient rfl hline fun k hk => ⟨?_, rfl⟩
    have hkr : r ≠ k := by
      rintro rfl
      exact absurd hlt (Nat.not_lt.2 (List.getElem?_eq_none_iff.1 hk))
    simp [acts, hkr]
  | serverRead r ec =>
    cases ec with
    | some ec =>
      refine hl.serverStep (u := s.up) hs ?_ (by simp) fun _ => rfl
      exact takes_of_session rfl (fun p hp => Or.inr ⟨by simp, rfl⟩) fun _ _ => rfl
    | none =>
      obtain ⟨p, hp, hs⟩ := Option.bind_eq_some_iff.1 hs
      obtain ⟨bs, harr, hs⟩ := Option.bind_eq_some_iff.1 hs
      refine hl.serverStep hs (takes_of_session rfl (fun p' hp' => Or.inl ⟨bs, rfl, ?_, Function.update_self _ _ _⟩)
        fun q hq => Function.update_of_ne hq _ _) (by simp) fun _ => rfl
      obtain rfl := Option.some.inj (hp.symm.trans hp')
      exact harr
  | serverWrite r ec =>
    refine hl.serverStep (u := s.up) hs ?_ (by simp) fun _ => rfl
    exact takes_of_session rfl (fun p hp => Or.inr ⟨by simp, rfl⟩) fun _ _ => rfl
  | clientRead r ec =>
    simp only [ChatNetwork.step, Option.ite_none_right_eq_some] at hs
    obtain ⟨hlt, hs⟩ := hs
    cases ec with
    | some ec =>
      exact hl.clientStep (v := s.down) hr hlt hs id rfl (Or.inr ⟨by simp, rfl⟩) (fun _ _ => rfl) fun _ => rfl
    | none =>
      obtain ⟨bs, harr, hs⟩ := Option.bind_eq_some_iff.1 hs
      exact hl.clientStep hr hlt hs id rfl (Or.inl ⟨bs, rfl, harr, Function.update_self _ _ _⟩)
        (fun q hq => Function.update_of_ne hq _ _) fun _ => rfl
  | clientWrite r ec =>
    simp only [ChatNetwork.step, Option.ite_none_right_eq_some] at hs
    exact hl.clientStep (v := s.down) hr hs.1 hs.2 id rfl (Or.inr ⟨by simp, rfl⟩) (fun _ _ => rfl) fun _ => rfl
  | breakUp r n =>
    obtain ⟨rfl, rfl⟩ := Prod.mk.inj (Option.some.inj hs)
    refine hl.ofClient rfl (fun k p hp => ?_) fun _ _ => ⟨rfl, rfl⟩
    by_cases hk : k = r
    · subst hk
      obtain ⟨⟨bytes, hsaid, hc⟩, hdown⟩ := hl.line k p hp
      have hnil : acts k [.breakUp k n] = [] := rfl
      refine ⟨⟨bytes, by rwa [acts_append, hnil, List.append_nil], ?_⟩, by rwa [List.append_nil]⟩
      simpa only [Function.update_self, List.append_nil] using hc.cut n
    · exact (hl.line k p hp).rest rfl (Function.update_of_ne hk _ _) rfl rfl rfl rfl
  | breakDown r n =>
    obtain ⟨rfl, rfl⟩ := Prod.mk.inj (Option.some.inj hs)
    refine hl.ofClient rfl (fun k p hp => ?_) fun _ _ => ⟨rfl, rfl⟩
    by_cases hk : k = r
    · subst hk
      obtain ⟨hup, hdown⟩ := hl.line k p hp
      have hnil : acts k [.breakDown k n] = [] := rfl
      refine ⟨by rwa [acts_append, hnil, List.append_nil, List.append_nil], ?_⟩
      simpa only [Function.update_self, List.append_nil] using hdown.cut n
    · exact (hl.line k p hp).rest rfl rfl (Function.update_of_ne hk _ _) rfl rfl rfl

theorem lines_run (hsplit : ∀ line, Tokens ChatClient.isBlank line (boostSplit line))
    (hr : (machine boostSplit).Run (new config) es s out) : Lines es out s := by
  induction hr with
  | nil => exact lines_new config
  | snoc hr hs ih =>
    obtain ⟨evs, hserver⟩ := server_run hr
    exact ih.step hsplit hserver hs

/-! ## What is asked for, and what is heard -/

/-- What the message handler of the server is called for of one client. -/
theorem ofOne_journal (k : Nat) (out : List Seen) :
    Hub.ofOne k (System.journal out) = (deliveredOf k (atServer out)).filterMap meaning := by
  rw [System.journal, ChatServer.delivered, deliveredOf]
  generalize serverOuts (atServer out) = outs
  induction outs with
  | nil => rfl
  | cons x outs ih =>
    obtain ⟨q, x⟩ := x
    cases x with
    | message m =>
      by_cases hq : q = k <;> cases hm : meaning m <;> simpa [Hub.ofOne, sessionOuts, messages, hq, hm] using ih
    | _ => by_cases hq : q = k <;> simpa [Hub.ofOne, sessionOuts, messages, hq] using ih

/-- What can be seen of a message says what it asks for. -/
theorem meaning_eq : ∃ f : List UInt8 × List UInt8 → Option Act, ∀ m, meaning m = f (delivery m) := by
  refine ⟨Function.extend delivery meaning fun _ => none, fun m => ?_⟩
  refine (Function.FactorsThrough.extend_apply (f := delivery) (fun m x h => ?_) _ m).symm
  exact System.meaning_of_read (Msg.hdr_of_toBytes (Prod.mk.inj h).1) (Prod.mk.inj h).2

theorem meanings_begin {xs ms : List Msg} (h : xs.map delivery <+: ms.map delivery)
    (hms : ms.map meaning = as.map some) : xs.filterMap meaning <+: as := by
  obtain ⟨f, hf⟩ := meaning_eq
  have hmeaning : xs.map meaning <+: as.map some := by
    rw [← hms]
    simpa only [List.map_map, Function.comp_def, ← hf] using h.map f
  have hsome := hmeaning.filterMap id
  simpa [List.filterMap_map, Function.comp_def] using hsome

theorem begins_dropLast (xs : List Msg) :
    (xs.filterMap meaning).dropLast <+: xs.dropLast.filterMap meaning := by
  rcases List.eq_nil_or_concat xs with rfl | ⟨init, x, rfl⟩
  · exact List.prefix_rfl
  · rw [List.concat_eq_append, List.filterMap_append, List.dropLast_concat]
    cases hx : meaning x with
    | none => simpa [hx] using List.dropLast_prefix _
    | some a => simp [hx]

/-- What the server has got of a client. -/
theorem Lines.asked (hl : Lines es out s)
    (hr : ChatServer.machine.Run ((ChatServer.new config).start true) evs s.server (atServer out)) (k : Nat) :
    (Hub.ofOne k (System.journal out)).dropLast <+: acts k es ∧
      ((s.up k).broken = false → Hub.ofOne k (System.journal out) <+: acts k es) := by
  rw [ofOne_journal]
  cases hp : s.server.server.objs[k]? with
  | none =>
    rw [deliveredOf, (ChatServer.absent_of_run hr hp).1]
    exact ⟨List.nil_prefix, fun _ => List.nil_prefix⟩
  | some p =>
    obtain ⟨bytes, hsaid, hc⟩ := (hl.line k p hp).up
    obtain ⟨ms, hms, hmean, hbytes⟩ := hsaid.begins
    obtain ⟨hlast, hwhole⟩ := hc.begins hbytes hms
    exact ⟨(begins_dropLast _).trans (meanings_begin hlast hmean),
      fun hb => meanings_begin (hwhole hb) hmean⟩

/-- What a client has got of what is relayed to it. -/
theorem Lines.told (hl : Lines es out s)
    (hr : ChatServer.machine.Run ((ChatServer.new config).start true) evs s.server (atServer out))
    (hlt : r < s.server.server.objs.length) :
    (heard r out).dropLast.map delivery <+: (relayed r (atServer out)).map delivery ∧
      ((s.down r).broken = false → (heard r out).map delivery <+: (relayed r (atServer out)).map delivery) := by
  have hp := List.getElem?_eq_getElem hlt
  exact (hl.line r _ hp).down.begins (ChatServer.written_relayed hr hp).1 (hl.sound_relayed hr)

/-- A session is made when a client connects, and nothing else happens. -/
theorem connect_of_length (hs : s.step boostSplit e = some (s', seen))
    (hlt : s.server.server.objs.length < s'.server.server.objs.length) :
    (∃ a ep mem, e = .connect a ep mem) ∧ (∀ k, heard k seen = []) ∧ handled (atServer seen) = [] := by
  rcases server_step hs with ⟨ev, hstep, hheard, hconnects⟩ | ⟨hsame, -⟩
  · by_cases hno : ∀ a, ev ≠ .accept (.ok a)
    · rw [ChatServer.length_objs_of_step hstep hno] at hlt
      exact absurd hlt (Nat.lt_irrefl _)
    · push Not at hno
      obtain ⟨a, rfl⟩ := hno
      exact ⟨⟨a, hconnects a rfl⟩, hheard, ChatServer.handled_accept hstep⟩
  · rw [hsame] at hlt
    exact absurd hlt (Nat.lt_irrefl _)

/-- Before a client has connected, it has heard nothing, and nothing was sent to it. -/
theorem nothing_before (hsplit : ∀ line, Tokens ChatClient.isBlank line (boostSplit line))
    (hr : (machine boostSplit).Run (new config) es s out) (hs : s.step boostSplit e = some (s', seen))
    (hold : s.server.server.objs.length ≤ r) (hnew : r < s'.server.server.objs.length) :
    heard r (out ++ seen) = [] ∧ relayed r (atServer (out ++ seen)) = [] := by
  have habsent : s.server.server.objs[r]? = none := List.getElem?_eq_none_iff.2 hold
  obtain ⟨evs, hserver⟩ := server_run hr
  obtain ⟨-, hquiet, hhandled⟩ := connect_of_length hs (Nat.lt_of_le_of_lt hold hnew)
  refine ⟨?_, ?_⟩
  · rw [heard_append, ((lines_run hsplit hr).absent r habsent).2, hquiet r]
    rfl
  · have hseen : relayed r (atServer seen) = [] := by
      rw [relayed, hhandled]
      rfl
    rw [System.atServer_append, ChatServer.relayed_append, (ChatServer.absent_of_run hserver habsent).2, hseen]
    rfl

/-- **What failures leave of the order**: in every run, whatever fails and wherever connections break, what the message
handler of the server is called for of a client is the beginning of what is typed there, and the message handler of a
client is called with the beginning of what is handled of the others since it has connected; each time perhaps with one
message more, the last one, if the connection is broken. -/
theorem in_order (hsplit : ∀ line, Tokens ChatClient.isBlank line (boostSplit line))
    (hr₁ : (machine boostSplit).Run (new config) es₁ s₁ out₁) (hs : s₁.step boostSplit e = some (s₂, seen))
    (hr₂ : (machine boostSplit).Run s₂ es₂ s out₂) (hold : s₁.server.server.objs.length ≤ r)
    (hnew : r < s₂.server.server.objs.length) :
    (∀ k, (Hub.ofOne k (System.journal (out₁ ++ seen ++ out₂))).dropLast <+: acts k (es₁ ++ [e] ++ es₂) ∧
      ((s.up k).broken = false → Hub.ofOne k (System.journal (out₁ ++ seen ++ out₂)) <+: acts k (es₁ ++ [e] ++ es₂))) ∧
    heard r (out₁ ++ seen) = [] ∧
    (heard r out₂).dropLast.map delivery <+: (ChatServer.others r (atServer out₂)).map delivery ∧
    ((s.down r).broken = false →
      (heard r out₂).map delivery <+: (ChatServer.others r (atServer out₂)).map delivery) := by
  have hr := (hr₁.snoc hs).append hr₂
  have hl := lines_run hsplit hr
  obtain ⟨evs₂, hserver₂⟩ := server_run hr₂
  obtain ⟨evs, hserver⟩ := server_run hr
  obtain ⟨hlt, hothers, -⟩ := ChatServer.relayed_run hserver₂ hnew
  obtain ⟨hheard, hrelayed⟩ := nothing_before hsplit hr₁ hs hold hnew
  have htold := hl.told hserver hlt
  rw [heard_append, hheard, List.nil_append, System.atServer_append, ChatServer.relayed_append, hrelayed,
    List.nil_append] at htold
  exact ⟨hl.asked hserver, hheard, htold.1.trans (hothers.map delivery),
    fun hb => (htold.2 hb).trans (hothers.map delivery)⟩

/-- A client connects. -/
def oneConnects : Event := .connect .loopback ⟨"127.0.0.1", 20000⟩ .zero

/-- The first of two clients says "hi", and on the way to the second one the connection breaks in the midst of this. -/
def hiBroken : List Event :=
  [.command 0 .zero (ascii "send hi"), .serverRead 0 none, .serverRead 0 none, .breakDown 1 9, .clientRead 1 none,
    .clientRead 1 none, .serverWrite 1 (some (.other 104)), .clientRead 1 (some .eof), .acceptError .operationAborted]

/-- The second one hears something that nobody has said. -/
theorem in_order_hiBroken : ∃ (s₁ s₂ s : ChatNetwork) (out₁ seen out₂ : List Seen),
    (machine (split ChatClient.isBlank)).Run (new ⟨2⟩) [oneConnects] s₁ out₁ ∧
    s₁.step (split ChatClient.isBlank) oneConnects = some (s₂, seen) ∧
    (machine (split ChatClient.isBlank)).Run s₂ hiBroken s out₂ ∧ s₁.server.server.objs.length ≤ 1 ∧
    1 < s₂.server.server.objs.length ∧
    ((∀ k, (Hub.ofOne k (System.journal (out₁ ++ seen ++ out₂))).dropLast <+:
        acts k ([oneConnects] ++ [oneConnects] ++ hiBroken) ∧
      ((s.up k).broken = false → Hub.ofOne k (System.journal (out₁ ++ seen ++ out₂)) <+:
        acts k ([oneConnects] ++ [oneConnects] ++ hiBroken))) ∧
    heard 1 (out₁ ++ seen) = [] ∧
    (heard 1 out₂).dropLast.map delivery <+: (ChatServer.others 1 (atServer out₂)).map delivery ∧
    ((s.down 1).broken = false →
      (heard 1 out₂).map delivery <+: (ChatServer.others 1 (atServer out₂)).map delivery)) ∧
    ¬ (heard 1 out₂).map delivery <+: (ChatServer.others 1 (atServer out₂)).map delivery := by
  have hr₁ : ∃ (s₁ s₂ : ChatNetwork) (out₁ seen : List Seen),
      (machine (split ChatClient.isBlank)).Run (new ⟨2⟩) [oneConnects] s₁ out₁ ∧
      s₁.step (split ChatClient.isBlank) oneConnects = some (s₂, seen) ∧ s₁.server.server.objs.length ≤ 1 ∧
      1 < s₂.server.server.objs.length ∧
      (((machine (split ChatClient.isBlank)).exec s₂ hiBroken).map fun x => decide
        ((heard 1 x.2).map delivery <+: (ChatServer.others 1 (atServer x.2)).map delivery)) = some false :=
    ⟨_, _, _, _, Machine.run_of_exec rfl, rfl, by decide, by decide, by decide +kernel⟩
  obtain ⟨s₁, s₂, out₁, seen, hr₁, hs, hold, hnew, hexec⟩ := hr₁
  obtain ⟨⟨s, out₂⟩, hx, hspoilt⟩ := Option.map_eq_some_iff.1 hexec
  have hr₂ := Machine.run_of_exec hx
  exact ⟨s₁, s₂, s, out₁, seen, out₂, hr₁, hs, hr₂, hold, hnew,
    in_order (tokens_split _) hr₁ hs hr₂ hold hnew, of_decide_eq_false hspoilt⟩

end ChatNetwork

end Torinet
