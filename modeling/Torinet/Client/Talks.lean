import Torinet.Chat.Broadcast
import Torinet.Client.Commands
import Torinet.Lib.Hub

/-!
# The clients and the server as a hub

The clients and their server are a hub of messages (`Lib/Hub.lean`): a line `send <text>` is something that a client
says, the server passes it on when it has read it, and the other clients hear it when they have. What the hub holds of
a connection are the messages that have been sent and not delivered, in each direction (`Conn`). What a connection, a
line, a read and a write do to the system is something that happens to the hub, or nothing.
-/

namespace Torinet

open Lib

namespace System

open TcpServer (sessionOuts)
open ChatServer (registered serverOuts)
open TcpSession (written Flow SameReads SameWrites)

variable {boostSplit : List UInt8 → SplitVector} {s s' : System} {h h' : Hub Nat Msg} {e : Event} {es : List Event}
  {out o : List Out} {k r q : Nat} {m : Msg} {ms U D : List Msg} {line bs : List UInt8} {p p' : TcpSession}

/-- The sessions of the server that clients are connected to. -/
def conns (s : System) : List Nat := registered s.server.server

/-- A message that the server passes on. -/
def isChat (m : Msg) : Bool := m.msgId = MsgId.nfMessage.val

def text (m : Msg) : List UInt8 := cString m.payload

/-- The cases and the texts that the message handler of the client `r` has been called with. -/
def heard (r : Nat) (out : List Out) : List (Client.Case × List UInt8) :=
  (calls r out).map fun x => (x.1, cString x.2.body.bytes)

/-- The text that a line says. -/
def said (line : List UInt8) : Option (List UInt8) :=
  if ChatClient.name line = ascii "send" then some (cString (ChatClient.argument line)) else none

/-- The texts that are said by other clients than `r`. -/
def typed (r : Nat) (es : List Event) : List (List UInt8) := es.filterMap fun
  | .command k _ line => if k ≠ r then said line else none
  | _ => none

@[simp] theorem heard_append (out o : List Out) : heard r (out ++ o) = heard r out ++ heard r o := by
  simp [heard]

@[simp] theorem typed_append (es es' : List Event) : typed r (es ++ es') = typed r es ++ typed r es' := by
  simp [typed]

/-! ## What a line says -/

/-- The message that is sent for a line. -/
structure Says (m : Msg) (said : Option (List UInt8)) : Prop where
  sound : m.Sound
  said_eq : said = if isChat m then some (text m) else none
  ends : isChat m → 0 ∈ m.payload

theorem sound_of_hdr {msgId : MsgId} {result : ResponseCode} {n : Int} (hin : m.InRange)
    (hhdr : m.hdr = Msg.header msgId result n) : m.Sound :=
  ⟨hin, (Msg.checkHeader_iff m).2 ⟨by rw [hhdr]; rfl, hin.2⟩⟩

/-- What a line makes a client do: nothing to its session, or it sends a message. -/
theorem session_of_readLine {b : Bool} {c : Client} {mem : Msg} {x : ChatClient} {outs : List ChatClient.Out}
    (hsplit : Tokens ChatClient.isBlank line (boostSplit line))
    (hr : ChatClient.readLine boostSplit (fun _ => mem) ⟨[c], b⟩ line = some (x, outs)) :
    ∃ c', x.clientVec = [c'] ∧
      (c'.session = c.session ∧ outs = [] ∧ said line = none ∨
        ∃ m, c'.session = (c.session.sendRef m).1 ∧ outs = (c.session.sendRef m).2.map (fun y => (0, y)) ∧
          Says m (said line)) := by
  rcases ChatClient.readLine_cases ⟨[c], b⟩ (fun _ => mem) hsplit with ⟨b', hr', hne⟩ | ⟨command, hlookup, hr'⟩
  · obtain ⟨rfl, rfl⟩ := Prod.mk.inj (Option.some.inj (hr'.symm.trans hr))
    exact ⟨c, rfl, Or.inl ⟨rfl, rfl, if_neg hne⟩⟩
  · rw [hr'] at hr
    cases command with
    | cmdCreateUser =>
      have hne : ChatClient.name line ≠ ascii "send" := fun hsend => by
        rw [hsend] at hlookup
        revert hlookup
        decide
      obtain ⟨m, hm, hin, hhdr⟩ := ChatClient.createUser_eq mem c
      obtain ⟨rfl, rfl⟩ : x = ⟨[(c.send m).1], b⟩ ∧ outs = (c.send m).2.map fun y => (0, y) := by
        simpa [ChatClient.Command.handle, ChatClient.eachClient, hm, eq_comm] using hr
      have hchat : isChat m = false := by
        rw [isChat, Msg.msgId, hhdr]
        decide
      refine ⟨_, rfl, Or.inr ⟨m, rfl, rfl, sound_of_hdr hin hhdr, ?_, ?_⟩⟩
      · rw [said, if_neg hne, hchat]
        rfl
      · simp [hchat]
    | cmdSendMessge =>
      have hsend := ChatClient.lookup_send hlookup
      cases hsm : ChatClient.sendMessge (boostSplit line) mem c with
      | none => simp [ChatClient.Command.handle, ChatClient.eachClient, hsm] at hr
      | some y =>
        obtain ⟨word, hword, hlen⟩ := (ChatClient.sendMessge_isSome_iff mem c).1 ⟨y, hsm⟩
        obtain ⟨m, hm, hin, hhdr, hp⟩ := ChatClient.sendMessge_of_fits hword hlen mem c
        obtain ⟨rfl, rfl⟩ : x = ⟨[(c.send m).1], b⟩ ∧ outs = (c.send m).2.map fun y => (0, y) := by
          simpa [ChatClient.Command.handle, ChatClient.eachClient, hm, eq_comm] using hr
        have hchat : isChat m = true := by
          rw [isChat, Msg.msgId, hhdr]
          decide
        have hword' : word = ChatClient.argument line := by
          rw [(ChatClient.words_of_tokens hsplit).2] at hword
          split at hword
          · cases hword
          · exact (Option.some.inj hword).symm
        obtain ⟨rest, hrest⟩ := ChatClient.bytes_chatBody hlen
        refine ⟨_, rfl, Or.inr ⟨m, rfl, rfl, sound_of_hdr hin hhdr, ?_, fun _ => ?_⟩⟩
        · rw [said, if_pos hsend, if_pos hchat, text, hp, hrest, cString_append_zero zero_notMem_cString, hword']
        · rw [hp, hrest]
          simp
    | cmdStop =>
      obtain ⟨rfl, rfl⟩ := Prod.mk.inj (Option.some.inj hr)
      refine ⟨c.stop, rfl, Or.inl ⟨rfl, rfl, if_neg fun hsend => ?_⟩⟩
      rw [hsend] at hlookup
      revert hlookup
      decide

/-! ## The system as a hub -/

/-- A connection, with the messages that have been sent and not delivered in each direction. -/
structure Conn (s : System) (r : Nat) (p : TcpSession) (U D : List Msg) : Prop where
  obj : s.server.server.objs[r]? = some p
  up : Flow (s.client r).session (s.up r) p U
  down : Flow p (s.down r) (s.client r).session D
  said : ∀ m ∈ U, isChat m → 0 ∈ m.payload
  passed : ∀ m ∈ D, 0 ∈ m.payload

/-- The system talks as the hub does. -/
structure Talks (s : System) (h : Hub Nat Msg) : Prop where
  reachable : ∃ config es out, ChatServer.machine.Run ((ChatServer.new config).start true) es s.server out
  parties : ∀ r, r ∈ h.parties ↔ r ∈ s.conns
  conn : ∀ r ∈ s.conns, ∃ p, Conn s r p (h.up r) (h.down r)

/-- A connection on which nothing happens. -/
structure SameConn (s s' : System) (q : Nat) : Prop where
  obj : s'.server.server.objs[q]? = s.server.server.objs[q]?
  client : s'.client q = s.client q
  up : s'.up q = s.up q
  down : s'.down q = s.down q

theorem Conn.congr (hc : Conn s q p U D) (hs : SameConn s s' q) : Conn s' q p U D where
  obj := hs.obj.trans hc.obj
  up := by rw [hs.client, hs.up]; exact hc.up
  down := by rw [hs.client, hs.down]; exact hc.down
  said := hc.said
  passed := hc.passed

theorem Talks.nodup (ht : Talks s h) : s.conns.Nodup := by
  obtain ⟨config, es, out, hr⟩ := ht.reachable
  obtain ⟨outs, hreg⟩ := ChatServer.registry_of_run hr
  exact hreg.nodup_values

/-- The server has taken a step. -/
theorem Talks.server_step {ev : ChatServer.Event} {t : ChatServer} {outs : List ChatServer.Out} (ht : Talks s h)
    (hs : s.server.step ev = some (t, outs)) :
    ∃ config es out, ChatServer.machine.Run ((ChatServer.new config).start true) es t out := by
  obtain ⟨config, es, out, hr⟩ := ht.reachable
  exact ⟨config, _, _, hr.snoc hs⟩

/-- Where one connection has changed, the others are as they were. -/
theorem Talks.of_one (ht : Talks s h)
    (hreach : ∃ config es out, ChatServer.machine.Run ((ChatServer.new config).start true) es s'.server out)
    (hconns : s'.conns = s.conns) (hc : Conn s' r p (h'.up r) (h'.down r)) (hsame : ∀ q ≠ r, SameConn s s' q)
    (hparties : h'.parties = h.parties) (hup : ∀ q ≠ r, h'.up q = h.up q) (hdown : ∀ q ≠ r, h'.down q = h.down q) :
    Talks s' h' := by
  refine ⟨hreach, fun q => ?_, fun q hq => ?_⟩
  · rw [hparties, hconns]
    exact ht.parties q
  · by_cases hqr : q = r
    · subst hqr
      exact ⟨p, hc⟩
    · obtain ⟨p₁, hc₁⟩ := ht.conn q (hconns ▸ hq)
      rw [hup q hqr, hdown q hqr]
      exact ⟨p₁, hc₁.congr (hsame q hqr)⟩

/-! ### Writes -/

/-- What a session of the server does on its own. -/
theorem serverStep_session {ev : ChatServer.Event} {ev' : TcpSession.Event} {outs : List TcpSession.Out}
    (he : ev.toServer = .session r ev') (hp : s.server.server.objs[r]? = some p) (hps : p.step ev' = some (p', outs))
    (hm : ∀ m, .message m ∉ outs) (hc : ∀ reason, .closed reason ∉ outs) :
    s.serverStep ev = some ({ s with
      server := ⟨s.server.server.setObj r p'⟩
      down := Function.update s.down r (s.down r ++ written outs) }, []) := by
  have hdown : (fun q => s.down q ++ written (sessionOuts q (serverOuts ((outs.map fun x => (r, x)).map .server)))) =
      Function.update s.down r (s.down r ++ written outs) := by
    funext q
    rw [ChatServer.serverOuts_map]
    by_cases hq : q = r
    · subst hq
      rw [TcpServer.sessionOuts_map_self, Function.update_self]
    · rw [TcpServer.sessionOuts_map_ne (Ne.symm hq), Function.update_of_ne hq]
      exact List.append_nil _
  rw [serverStep, ChatServer.session_step he hp hps hm hc, Option.map_some, hdown]

/-- A write of the server completes. -/
theorem Talks.serverWrite {outs : List TcpSession.Out} (ht : Talks s h) (hc : Conn s r p (h.up r) (h.down r))
    (hps : p.step (.writeDone 0 none) = some (p', outs)) :
    ∃ s', s.serverStep (.writeDone r 0 none) = some (s', []) ∧ Talks s' h ∧ s'.client = s.client ∧
      s'.down r = s.down r ++ written outs := by
  obtain ⟨hdown, hsame⟩ := hc.down.writeDone hps
  obtain ⟨hm, hcl⟩ := TcpSession.outs_of_writeDone hps
  have hstep := ChatServer.session_step (e := .writeDone r 0 none) rfl hc.obj hps hm hcl
  refine ⟨_, serverStep_session rfl hc.obj hps hm hcl, ?_, rfl, Function.update_self _ _ _⟩
  refine ht.of_one (r := r) (p := p') (ht.server_step hstep) rfl ⟨?_, ?_, ?_, hc.said, hc.passed⟩ (fun q hq => ?_) rfl
    (fun _ _ => rfl) fun _ _ => rfl
  · exact List.getElem?_set_self (List.getElem?_eq_some_iff.1 hc.obj).1
  · exact hc.up.congr (SameWrites.refl _) hsame
  · simpa only [Function.update_self] using hdown
  · exact ⟨List.getElem?_set_ne hq.symm, rfl, rfl, Function.update_of_ne hq _ _⟩

/-- A completion at a client. -/
theorem clientStep_of_step {ev : TcpSession.Event} {outs : List TcpSession.Out} (hrun : (s.client r).stopped = false)
    (hps : (s.client r).session.step ev = some (p', outs)) :
    ∃ c : Client, c.session = p' ∧ s.clientStep r ev = some (s.setClient r c outs, handles r c outs) := by
  obtain ⟨c, hc, hs⟩ := Client.sessionStep_of_step hps
  refine ⟨c, hc, ?_⟩
  rw [clientStep, hrun, if_neg (by simp), hs, Option.map_some]

/-- A client, which has been stopped or not, has taken a step. -/
theorem Talks.setClient {c : Client} {outs : List TcpSession.Out} (ht : Talks s h)
    (hc : Conn (s.setClient r c outs) r p (h.up r) (h.down r)) : Talks (s.setClient r c outs) h :=
  ht.of_one ht.reachable rfl hc (fun _ hq => ⟨rfl, Function.update_of_ne hq _ _, Function.update_of_ne hq _ _, rfl⟩)
    rfl (fun _ _ => rfl) fun _ _ => rfl

theorem handles_eq_nil {c : Client} {outs : List TcpSession.Out} (hm : ∀ m, .message m ∉ outs) :
    handles r c outs = [] := by
  refine List.filterMap_eq_nil_iff.2 fun x hx => ?_
  cases x with
  | message m => exact absurd hx (hm m)
  | _ => rfl

/-- A write of a client completes. -/
theorem Talks.clientWrite {outs : List TcpSession.Out} (ht : Talks s h) (hrun : (s.client r).stopped = false)
    (hc : Conn s r p (h.up r) (h.down r)) (hps : (s.client r).session.step (.writeDone 0 none) = some (p', outs)) :
    ∃ s', s.clientStep r (.writeDone 0 none) = some (s', []) ∧ Talks s' h ∧ s'.server = s.server ∧
      s'.up r = s.up r ++ written outs := by
  obtain ⟨hup, hsame⟩ := hc.up.writeDone hps
  obtain ⟨c, rfl, hs⟩ := clientStep_of_step hrun hps
  rw [handles_eq_nil (TcpSession.outs_of_writeDone hps).1] at hs
  refine ⟨_, hs, ht.setClient (p := p) ⟨hc.obj, ?_, ?_, hc.said, hc.passed⟩, rfl, Function.update_self _ _ _⟩
  · simpa only [System.setClient, Function.update_self] using hup
  · simpa only [System.setClient, Function.update_self] using hc.down.congr (SameWrites.refl _) hsame

/-! ### Reads -/

/-- What has been received of a message has its wire image. -/
theorem wire_of_read (hin : m.InRange) (hmsg : p'.msg = p.msg.storeBody m.payload) (hhdr : p'.msg.hdr = m.hdr) :
    p'.msg.wire = m.wire := by
  have hlen : p.msg.bodyLength = m.bodyLength := by
    rw [hmsg] at hhdr
    exact congrArg (fun h => h.bodyLength.toInt) hhdr
  have hin' : (p.msg.storeBody m.payload).InRange := by
    show 0 ≤ p.msg.bodyLength ∧ p.msg.bodyLength ≤ maxCpMsgData
    rwa [hlen]
  rw [hmsg, TcpSession.wire_storeBody hin', Msg.wire_eq hin]
  · rw [← hhdr, hmsg]
    rfl
  · rw [Msg.length_payload hin, ← hin.toSizeT_bodyLength, hlen]

/-- The text of a message that has arrived, whatever the buffer held before. -/
theorem cString_of_read (hin : m.InRange) (hz : 0 ∈ m.payload) (x : Msg) :
    cString (x.storeBody m.payload).body.bytes = text m := by
  have hle : m.payload.length ≤ x.body.bytes.length := by
    rw [Msg.length_payload hin, Block.length_bytes]
    exact hin.bodyLength_toNat_le
  show cString (overwrite x.body.bytes m.payload) = cString m.payload
  rw [overwrite, List.take_of_length_le hle, cString_append hz]

theorem serverRead_eq (hp : s.server.server.objs[r]? = some p) (harr : arrived p (s.up r) = some bs) :
    s.serverRead r = ({ s with up := Function.update s.up r ((s.up r).drop bs.length) } : System).serverStep
      (.readDone r 0 (.ok bs)) := by
  rw [serverRead, hp, Option.bind_some, harr, Option.bind_some]

/-- The server reads the header of a message. -/
theorem Talks.serverRead_header {n : Nat} (ht : Talks s h) (hc : Conn s r p (h.up r) (h.down r))
    (harr : arrived p (s.up r) = some bs) (hps : p.step (.readDone 0 (.ok bs)) = some (p', [.asyncRead (.body n)]))
    (hsame : SameWrites p p') (hflow : Flow (s.client r).session ((s.up r).drop bs.length) p' (h.up r)) :
    ∃ s', s.serverRead r = some (s', []) ∧ Talks s' h ∧ s'.client = s.client ∧ s'.server.server.objs[r]? = some p' ∧
      s'.up r = (s.up r).drop bs.length := by
  have hobj : (s.server.server.setObj r p').objs[r]? = some p' :=
    List.getElem?_set_self (List.getElem?_eq_some_iff.1 hc.obj).1
  have hstep := ChatServer.session_step (e := .readDone r 0 (.ok bs)) rfl hc.obj hps (by simp) (by simp)
  have hread := (serverRead_eq hc.obj harr).trans
    (serverStep_session rfl hc.obj hps (by simp) (by simp))
  have hwritten : written [.asyncRead (.body n)] = [] := rfl
  simp only [hwritten, List.append_nil, Function.update_eq_self] at hread
  refine ⟨_, hread, ?_, rfl, hobj, Function.update_self _ _ _⟩
  refine ht.of_one (ht.server_step hstep) rfl (r := r) (p := p') ⟨hobj, ?_, ?_, hc.said, hc.passed⟩ (fun q hq => ?_) rfl
    (fun _ _ => rfl) fun _ _ => rfl
  · simpa only [Function.update_self] using hflow
  · exact hc.down.congr hsame (SameReads.refl _)
  · exact ⟨List.getElem?_set_ne hq.symm, rfl, Function.update_of_ne hq _ _, rfl⟩

/-- The server reads the body of a message, and passes it on or not. -/
theorem Talks.serverRead_body (ht : Talks s h) (hr : r ∈ s.conns) (hc : Conn s r p (h.up r) (h.down r))
    (hms : h.up r = m :: ms) (harr : arrived p (s.up r) = some bs)
    (hps : p.step (.readDone 0 (.ok bs)) = some (p', [.message p'.msg, .asyncRead (.header hdrLength)]))
    (hsame : SameWrites p p') (hflow : Flow (s.client r).session ((s.up r).drop bs.length) p' ms)
    (hhdr : p'.msg.hdr = m.hdr) (hmsg : p'.msg = p.msg.storeBody m.payload) :
    ∃ s', s.serverRead r = some (s', []) ∧ s'.client = s.client ∧
      Talks s' { h with up := Function.update h.up r ms, down := h.give isChat r m } := by
  have hid : p'.msg.msgId = m.msgId := congrArg (fun h => h.msgId.toInt32.toInt) hhdr
  have hlt := (List.getElem?_eq_some_iff.1 hc.obj).1
  have hsaid : ∀ m' ∈ ms, isChat m' → 0 ∈ m'.payload := fun m' hm' => hc.said m' (hms ▸ List.mem_cons_of_mem _ hm')
  by_cases hchat : isChat m = true
  · have hnf : p'.msg.msgId = MsgId.nfMessage.val := hid.trans (of_decide_eq_true hchat)
    have hsound := hc.up.sound m (by simp [hms])
    have hwire := wire_of_read hsound.1 hmsg hhdr
    obtain ⟨t, o, hstep, hsess, hobj, hw, hothers⟩ := ChatServer.relay_step ht.nodup (fun q hq => by
      obtain ⟨p₁, hc₁⟩ := ht.conn q hq
      exact ⟨p₁, hc₁.obj⟩) hc.obj hps hnf
    have hread : s.serverRead r = some ({ s with
        server := t
        up := Function.update s.up r ((s.up r).drop bs.length)
        down := fun q => s.down q ++ written (sessionOuts q (serverOuts o)) }, []) := by
      rw [serverRead_eq hc.obj harr, serverStep, hstep, Option.map_some]
    have hconns : registered t.server = s.conns := congrArg (fun l => l.toList.map Prod.snd) hsess
    refine ⟨_, hread, rfl, ht.server_step hstep, fun q => ?_, fun q hq => ?_⟩
    · rw [ht.parties, ← hconns]
      rfl
    · by_cases hqr : q = r
      · subst hqr
        refine ⟨p', hobj, ?_, ?_, ?_, ?_⟩
        · simpa only [Function.update_self] using hflow
        · simp only [Hub.give_self, hw, List.append_nil]
          exact hc.down.congr hsame (SameReads.refl _)
        · simpa only [Function.update_self] using hsaid
        · simpa only [Hub.give_self] using hc.passed
      · -- the message goes into another connection
        have hq' : q ∈ s.conns := hconns ▸ hq
        obtain ⟨p₁, hc₁⟩ := ht.conn q hq'
        obtain ⟨hobj₁, hout₁⟩ := hothers q hqr p₁ hc₁.obj hq'
        obtain ⟨hsent, hreads⟩ := hc₁.down.send hsound hwire
        refine ⟨_, hobj₁, ?_, ?_, ?_, ?_⟩
        · simp only [Function.update_of_ne hqr]
          exact hc₁.up.congr (SameWrites.refl _) hreads
        · simpa only [hout₁, Hub.give_of_mem hchat ((ht.parties q).2 hq') hqr] using hsent
        · simpa only [Function.update_of_ne hqr] using hc₁.said
        · simp only [Hub.give_of_mem hchat ((ht.parties q).2 hq') hqr]
          intro m' hm'
          rcases List.mem_append.1 hm' with hm' | hm'
          · exact hc₁.passed m' hm'
          · exact List.mem_singleton.1 hm' ▸ hc.said m (by simp [hms]) hchat
  · have hne : p'.msg.msgId ≠ MsgId.nfMessage.val := by
      rw [hid]
      exact fun heq => hchat (decide_eq_true heq)
    obtain ⟨o, hstep, ho⟩ := ChatServer.handle_step hc.obj hps hne
    have hread : s.serverRead r = some ({ s with
        server := ⟨s.server.server.setObj r p'⟩
        up := Function.update s.up r ((s.up r).drop bs.length) }, []) := by
      rw [serverRead_eq hc.obj harr, serverStep, hstep, Option.map_some]
      simp only [ho, List.append_nil]
    refine ⟨_, hread, rfl, ht.of_one (r := r) (p := p') (ht.server_step hstep) rfl ?_ (fun q hq => ?_) rfl
      (fun q hq => Function.update_of_ne hq _ _) fun q hq => ?_⟩
    · refine ⟨List.getElem?_set_self hlt, ?_, ?_, ?_, ?_⟩
      · simpa only [Function.update_self] using hflow
      · simpa only [Hub.give_self] using hc.down.congr hsame (SameReads.refl _)
      · simpa only [Function.update_self] using hsaid
      · simpa only [Hub.give_self] using hc.passed
    · exact ⟨List.getElem?_set_ne hq.symm, rfl, Function.update_of_ne hq _ _, rfl⟩
    · simp only [Hub.give_of_not hchat]

/-- **A read of the server completes.** -/
theorem Talks.serverRead (ht : Talks s h) (hr : r ∈ s.conns) (hc : Conn s r p (h.up r) (h.down r))
    (harr : arrived p (s.up r) = some bs) : ∃ s', s.serverRead r = some (s', []) ∧ s'.client = s.client ∧
      ((Talks s' h ∧ p.reads = [.header hdrLength] ∧ ∃ p' n bs', s'.server.server.objs[r]? = some p' ∧
          p'.reads = [.body n] ∧ arrived p' (s'.up r) = some bs') ∨
        ∃ m ms, h.up r = m :: ms ∧
          Talks s' { h with up := Function.update h.up r ms, down := h.give isChat r m }) := by
  rcases hc.up.read harr with ⟨p', n, hps, hsame, hflow, hreads, hreads', bs', harr'⟩ |
    ⟨m, ms, p', hms, hps, hsame, hflow, hhdr, hmsg⟩
  · obtain ⟨s', hs, ht', hclient, hobj, hup⟩ := ht.serverRead_header hc harr hps hsame hflow
    exact ⟨s', hs, hclient, Or.inl ⟨ht', hreads, p', n, bs', hobj, hreads', by rwa [hup]⟩⟩
  · obtain ⟨s', hs, hclient, ht'⟩ := ht.serverRead_body hr hc hms harr hps hsame hflow hhdr hmsg
    exact ⟨s', hs, hclient, Or.inr ⟨m, ms, hms, ht'⟩⟩

/-- What is put out is what the hub's parties hear. -/
def Echoes (out : List Out) (hout : List (Nat × Msg)) : Prop :=
  ∀ r, heard r out = (Hub.heardBy r hout).map fun m => (.unknown, text m)

theorem echoes_nil : Echoes [] [] := fun _ => rfl

theorem Echoes.append {hout ho : List (Nat × Msg)} (hout₁ : Echoes out hout) (ho₁ : Echoes o ho) :
    Echoes (out ++ o) (hout ++ ho) := fun r => by
  rw [heard_append, Hub.heardBy_append, List.map_append, hout₁ r, ho₁ r]

theorem clientRead_eq (harr : arrived (s.client r).session (s.down r) = some bs) :
    s.clientRead r = ({ s with down := Function.update s.down r ((s.down r).drop bs.length) } : System).clientStep r
      (.readDone 0 (.ok bs)) := by
  rw [clientRead, harr, Option.bind_some]

/-- A client has read something. -/
theorem Talks.setDown {c : Client} {rest : List UInt8} (ht : Talks s h) (outs : List TcpSession.Out)
    (hc : Conn s r p (h.up r) (h.down r)) (hw : written outs = []) (hsame : SameWrites (s.client r).session c.session)
    (hflow : Flow p rest c.session ms) (hms : ∀ m ∈ ms, 0 ∈ m.payload) :
    Talks (({ s with down := Function.update s.down r rest } : System).setClient r c outs)
      { h with down := Function.update h.down r ms } := by
  refine ht.of_one (r := r) (p := p) ht.reachable rfl ⟨hc.obj, ?_, ?_, hc.said, ?_⟩ (fun q hq => ?_) rfl
    (fun _ _ => rfl) fun q hq => Function.update_of_ne hq _ _
  · simpa only [System.setClient, Function.update_self, hw, List.append_nil] using
      hc.up.congr hsame (SameReads.refl _)
  · simpa only [System.setClient, Function.update_self] using hflow
  · simpa only [Function.update_self] using hms
  · exact ⟨rfl, Function.update_of_ne hq _ _, Function.update_of_ne hq _ _, Function.update_of_ne hq _ _⟩

/-- **A read of a client completes.** -/
theorem Talks.clientRead (ht : Talks s h) (hrun : (s.client r).stopped = false) (hc : Conn s r p (h.up r) (h.down r))
    (harr : arrived (s.client r).session (s.down r) = some bs) : ∃ s' o, s.clientRead r = some (s', o) ∧
      ((Talks s' h ∧ o = [] ∧ (s.client r).session.reads = [.header hdrLength] ∧ ∃ n bs',
          (s'.client r).session.reads = [.body n] ∧ arrived (s'.client r).session (s'.down r) = some bs') ∨
        ∃ m ms, h.down r = m :: ms ∧ Talks s' { h with down := Function.update h.down r ms } ∧ Echoes o [(r, m)]) := by
  rcases hc.down.read harr with ⟨p', n, hps, hsame, hflow, hreads, hreads', bs', harr'⟩ |
    ⟨m, ms, p', hms, hps, hsame, hflow, hhdr, hmsg⟩
  · obtain ⟨c, rfl, hs⟩ := clientStep_of_step (s := { s with
      down := Function.update s.down r ((s.down r).drop bs.length) }) hrun hps
    refine ⟨_, _, (clientRead_eq harr).trans hs, Or.inl ⟨?_, handles_eq_nil (by simp), hreads, n, bs', ?_, ?_⟩⟩
    · have ht' := ht.setDown [.asyncRead (.body n)] hc rfl hsame hflow hc.passed
      rwa [Function.update_eq_self] at ht'
    · simpa [System.setClient] using hreads'
    · simpa [System.setClient] using harr'
  · obtain ⟨c, rfl, hs⟩ := clientStep_of_step (s := { s with
      down := Function.update s.down r ((s.down r).drop bs.length) }) hrun hps
    have hm : m ∈ h.down r := by simp [hms]
    refine ⟨_, _, (clientRead_eq harr).trans hs, Or.inr ⟨m, ms, hms, ?_, fun q => ?_⟩⟩
    · exact ht.setDown _ hc rfl hsame hflow fun m' hm' => hc.passed m' (hms ▸ List.mem_cons_of_mem _ hm')
    · have htext : cString c.session.msg.body.bytes = text m := by
        rw [hmsg]
        exact cString_of_read (hc.down.sound m hm).1 (hc.passed m hm) _
      by_cases hq : r = q <;> simp [heard, calls, handles, Hub.heardBy, c.messageHandler_eq, hq, htext]

/-! ### Lines and connections -/

/-- A client has sent a message. -/
theorem Talks.sends {c : Client} {b : Nat → Bool} (ht : Talks s h) (hr : r ∈ s.conns) (hm : m.Sound)
    (hends : isChat m → 0 ∈ m.payload) (hc : c.session = ((s.client r).session.sendRef m).1) :
    Talks { s.setClient r c ((s.client r).session.sendRef m).2 with bTerm := b }
      { h with up := Function.update h.up r (h.up r ++ [m]) } := by
  obtain ⟨p, hconn⟩ := ht.conn r hr
  obtain ⟨hup, hsame⟩ := hconn.up.send hm (x := m) rfl
  refine ht.of_one (r := r) (p := p) ht.reachable rfl ⟨hconn.obj, ?_, ?_, ?_, hconn.passed⟩ (fun q hq => ?_) rfl
    (fun q hq => Function.update_of_ne hq _ _) fun _ _ => rfl
  · simpa [System.setClient, hc] using hup
  · simpa [System.setClient, hc] using hconn.down.congr (SameWrites.refl _) hsame
  · simp only [Function.update_self]
    intro m' hm'
    rcases List.mem_append.1 hm' with hm' | hm'
    · exact hconn.said m' hm'
    · exact List.mem_singleton.1 hm' ▸ hends
  · exact ⟨rfl, Function.update_of_ne hq _ _, Function.update_of_ne hq _ _, rfl⟩

/-- A client has done nothing with its session. -/
theorem Talks.stays {c : Client} {b : Nat → Bool} (ht : Talks s h) (hr : r ∈ s.conns)
    (hc : c.session = (s.client r).session) : Talks { s.setClient r c [] with bTerm := b } h := by
  obtain ⟨p, hconn⟩ := ht.conn r hr
  refine ht.of_one (r := r) (p := p) ht.reachable rfl ⟨hconn.obj, ?_, ?_, hconn.said, hconn.passed⟩ (fun q hq => ?_)
    rfl (fun _ _ => rfl) fun _ _ => rfl
  · simpa [System.setClient, hc, written] using hconn.up
  · simpa [System.setClient, hc] using hconn.down
  · exact ⟨rfl, Function.update_of_ne hq _ _, Function.update_of_ne hq _ _, rfl⟩

/-- A client that has connected. -/
theorem session_of_start {ep : Endpoint} {mem : TcpSession.Memory} {c : Client}
    (hc : (Client.new ep mem).start = some c) :
    c.session.sendQue = [] ∧ c.session.writes = [] ∧ c.session.reads = [.header hdrLength] := by
  obtain ⟨⟨c₁, o₁⟩, hs₁, hc⟩ := Option.bind_eq_some_iff.1 hc
  obtain ⟨⟨c₂, o₂⟩, hs₂, rfl⟩ := Option.map_eq_some_iff.1 hc
  obtain ⟨hs₁, -⟩ := Client.sessionStep_iff.1 hs₁
  obtain ⟨hs₂, -⟩ := Client.sessionStep_iff.1 hs₂
  obtain ⟨h₁, -⟩ := Prod.mk.inj (Option.some.inj hs₁)
  have hconnects : c₁.session.connects ≠ 0 := by
    rw [← h₁]
    exact Nat.succ_ne_zero _
  simp only [TcpSession.step, if_neg hconnects, TcpSession.handleConnect, TcpSession.start, TcpSession.read,
    Option.some.injEq, Prod.mk.injEq] at hs₂
  rw [← hs₂.1, ← h₁]
  exact ⟨rfl, rfl, rfl⟩

/-- **A client connects**, and may be given a session. -/
theorem Talks.connect {a : Accepted} {ep : Endpoint} {mem : TcpSession.Memory} (ht : Talks s h)
    (hs : s.connect a ep mem = some (s', o)) : o = [] ∧ (Talks s' h ∨ ∃ n, n ∉ h.parties ∧
      Talks s' ⟨insert n h.parties, Function.update h.up n [], Function.update h.down n []⟩) := by
  obtain ⟨⟨t, outs⟩, hstep, hs⟩ := Option.bind_eq_some_iff.1 hs
  obtain ⟨c, hc, heq⟩ := Option.map_eq_some_iff.1 hs
  obtain ⟨rfl, rfl⟩ := Prod.mk.inj heq
  refine ⟨rfl, ?_⟩
  obtain ⟨hobjs, hreg, hnew⟩ := ChatServer.accept_step hstep
  have hne : ∀ q ∈ s.conns, q ≠ s.server.server.objs.length := by
    rintro q hq rfl
    obtain ⟨p, hc⟩ := ht.conn _ hq
    simpa using hc.obj
  generalize hn : s.server.server.objs.length = n at hnew hne ⊢
  have hold : ∀ q ∈ s.conns, ∃ p, Conn ⟨t, Function.update s.client n c, Function.update s.bTerm n false,
      Function.update s.up n [], Function.update s.down n []⟩ q p (h.up q) (h.down q) := by
    intro q hq
    obtain ⟨p, hc⟩ := ht.conn q hq
    refine ⟨p, hobjs q p hc.obj, ?_, ?_, hc.said, hc.passed⟩
    · simpa only [Function.update_of_ne (hne q hq)] using hc.up
    · simpa only [Function.update_of_ne (hne q hq)] using hc.down
  have hnot : n ∉ s.conns := fun hq => hne n hq rfl
  by_cases hreg' : n ∈ registered t.server
  · refine Or.inr ⟨n, fun hq => hnot ((ht.parties n).1 hq), ht.server_step hstep, fun q => ?_, fun q hq => ?_⟩
    · rw [Finset.mem_insert, ht.parties]
      constructor
      · rintro (rfl | hq)
        · exact hreg'
        · exact hreg q hq
      · intro hq
        exact (hnew q hq).symm.imp And.left id
    · rcases hnew q hq with hq | ⟨rfl, p, hp, hqs, hw, hr⟩
      · simp only [Function.update_of_ne (hne q hq)]
        exact hold q hq
      · obtain ⟨hqs', hw', hr'⟩ := session_of_start hc
        refine ⟨p, hp, ?_, ?_, by simp, by simp⟩
        · simpa only [Function.update_self] using TcpSession.flow_nil hqs' hw' hr
        · simpa only [Function.update_self] using TcpSession.flow_nil hqs hw hr'
  · have hback : ∀ q ∈ registered t.server, q ∈ s.conns := by
      intro q hq
      rcases hnew q hq with hq | ⟨rfl, -⟩
      · exact hq
      · exact absurd hq hreg'
    refine Or.inl ⟨ht.server_step hstep, fun q => (ht.parties q).trans ⟨hreg q, hback q⟩, fun q hq => ?_⟩
    exact hold q (hback q hq)

/-! ### Steps -/

theorem talks_new (config : ServerConfig) : Talks (new config) ⟨∅, fun _ => [], fun _ => []⟩ := by
  have hnil : (new config).conns = [] := rfl
  refine ⟨⟨config, [], [], Machine.Run.nil⟩, by simp [hnil], by simp [hnil]⟩

theorem Talks.of_clientRead (ht : Talks s h) (hr : r ∈ s.conns) (hs : s.clientRead r = some (s', o)) :
    Talks s' h ∧ o = [] ∨
      ∃ m ms, h.down r = m :: ms ∧ Talks s' { h with down := Function.update h.down r ms } ∧ Echoes o [(r, m)] := by
  obtain ⟨p, hc⟩ := ht.conn r hr
  cases harr : arrived (s.client r).session (s.down r) with
  | none => simp [System.clientRead, harr] at hs
  | some bs =>
    have hrun : (s.client r).stopped = false := by
      by_contra hstopped
      simp [clientRead_eq harr, clientStep, hstopped] at hs
    obtain ⟨s₁, o₁, hs₁, hcases⟩ := ht.clientRead hrun hc harr
    obtain ⟨rfl, rfl⟩ := Prod.mk.inj (Option.some.inj (hs₁.symm.trans hs))
    exact hcases.imp_left fun hquiet => ⟨hquiet.1, hquiet.2.1⟩

theorem Talks.of_serverWrite (ht : Talks s h) (hr : r ∈ s.conns)
    (hs : s.serverStep (.writeDone r 0 none) = some (s', o)) : Talks s' h ∧ o = [] := by
  obtain ⟨p, hc⟩ := ht.conn r hr
  cases hps : p.step (.writeDone 0 none) with
  | none => simp [serverStep, ChatServer.step_eq_none (e := .writeDone r 0 none) rfl hc.obj hps] at hs
  | some x =>
    obtain ⟨s₁, hs₁, ht₁, -⟩ := ht.serverWrite hc hps
    obtain ⟨rfl, rfl⟩ := Prod.mk.inj (Option.some.inj (hs₁.symm.trans hs))
    exact ⟨ht₁, rfl⟩

theorem Talks.of_clientWrite (ht : Talks s h) (hr : r ∈ s.conns)
    (hs : s.clientStep r (.writeDone 0 none) = some (s', o)) : Talks s' h ∧ o = [] := by
  obtain ⟨p, hc⟩ := ht.conn r hr
  have hrun : (s.client r).stopped = false := by
    by_contra hstopped
    simp [clientStep, hstopped] at hs
  cases hps : (s.client r).session.step (.writeDone 0 none) with
  | none =>
    rw [clientStep, hrun, if_neg (by simp)] at hs
    obtain ⟨⟨c, outs⟩, hc', -⟩ := Option.map_eq_some_iff.1 hs
    rw [(Client.sessionStep_iff.1 hc').1] at hps
    cases hps
  | some x =>
    obtain ⟨s₁, hs₁, ht₁, -⟩ := ht.clientWrite hrun hc hps
    obtain ⟨rfl, rfl⟩ := Prod.mk.inj (Option.some.inj (hs₁.symm.trans hs))
    exact ⟨ht₁, rfl⟩

end System

end Torinet
