import Torinet.Client.Quiet

/-!
# What happens on a connection

A connection has two directions, and in each of them one end writes and the other one reads. Whatever the system does,
each direction of a connection goes on in one of four ways (`Moves`): nothing happens, a message is sent, a write
completes or a read does (`Talks.moves`). What these four keep, for the two ends and the bytes between them, every run
of the system keeps on all its connections.
-/

namespace Torinet

open Lib

namespace TcpSession

variable {w w' p p' p₁ : TcpSession} {bytes bytes' bs : List UInt8} {m x : Msg} {ms : List Msg} {o : List Out}

/-- What a session writes, and counts as written, is left alone. -/
structure SameWriter (w w' : TcpSession) : Prop where
  sendQue : w'.sendQue = w.sendQue
  writes : w'.writes = w.writes
  tx : w'.tx = w.tx

/-- What a session reads, and counts as read, is left alone. -/
structure SameReader (p p' : TcpSession) : Prop where
  reads : p'.reads = p.reads
  msg : p'.msg = p.msg
  rx : p'.rx = p.rx

theorem SameWriter.refl (w : TcpSession) : SameWriter w w := ⟨rfl, rfl, rfl⟩

theorem SameReader.refl (p : TcpSession) : SameReader p p := ⟨rfl, rfl, rfl⟩

/-- The ways in which one direction of a connection goes on, from the session `w` that writes, the bytes on their way
and the session `p` that reads. A message may be sent as another one with the same bytes. -/
inductive Moves (w : TcpSession) (bytes : List UInt8) (p : TcpSession) :
    TcpSession → List UInt8 → TcpSession → Prop
  | rest {w' p' : TcpSession} (hw : SameWriter w w') (hp : SameReader p p') : Moves w bytes p w' bytes p'
  | sends {p' : TcpSession} (m x : Msg) (hm : m.Sound) (hx : x.wire = m.wire) (hin : x.InRange)
      (hp : SameReader p p') :
      Moves w bytes p (w.sendRef x).1 (bytes ++ written (w.sendRef x).2) p'
  | writes {w' p' : TcpSession} (o : List Out) (hs : w.step (.writeDone 0 none) = some (w', o))
      (hp : SameReader p p') : Moves w bytes p w' (bytes ++ written o) p'
  | reads {w' p' : TcpSession} (bs : List UInt8) (o : List Out) (harr : System.arrived p bytes = some bs)
      (hs : p.step (.readDone 0 (.ok bs)) = some (p', o)) (hw : SameWriter w w') :
      Moves w bytes p w' (bytes.drop bs.length) p'

theorem moves_refl (w : TcpSession) (bytes : List UInt8) (p : TcpSession) : Moves w bytes p w bytes p :=
  .rest (.refl w) (.refl p)

/-! ## The two halves of a session -/

theorem SameReader.sendRef (w : TcpSession) (x : Msg) : SameReader w (w.sendRef x).1 := by
  unfold TcpSession.sendRef sendMsg
  cases hq : w.sendQue with
  | nil => exact ⟨rfl, rfl, rfl⟩
  | cons m q => exact ⟨rfl, rfl, rfl⟩

theorem SameReader.writeDone (hs : w.step (.writeDone 0 none) = some (w', o)) : SameReader w w' := by
  have hpath := step_path hs
  cases hpath with
  | writeLast => exact ⟨rfl, rfl, rfl⟩
  | writeNext => exact ⟨rfl, rfl, rfl⟩

theorem SameWriter.readDone (hs : p.step (.readDone 0 (.ok bs)) = some (p', o)) : SameWriter p p' := by
  have hpath := step_path hs
  cases hpath with
  | headerRejected => exact ⟨rfl, rfl, rfl⟩
  | headerAccepted => exact ⟨rfl, rfl, rfl⟩
  | bodyOk => exact ⟨rfl, rfl, rfl⟩

theorem written_readDone (hs : p.step (.readDone 0 (.ok bs)) = some (p', o)) : written o = [] := by
  have hpath := step_path hs
  cases hpath with
  | headerRejected => rfl
  | headerAccepted => rfl
  | bodyOk => rfl

end TcpSession

namespace System

open ChatServer (registered serverOuts)
open TcpServer (sessionOuts)
open TcpSession (Moves SameReader SameWriter Flow written moves_refl)

variable {boostSplit : List UInt8 → SplitVector} {s s' : System} {h h' : Hub Nat Msg} {e : Event} {o : List Out}
  {k r q : Nat} {m : Msg} {ms : List Msg} {line bs : List UInt8} {p p' : TcpSession}

/-- Both directions of the connection `r` go on. -/
structure Goes (s s' : System) (r : Nat) (p p' : TcpSession) : Prop where
  obj : s'.server.server.objs[r]? = some p'
  up : Moves (s.client r).session (s.up r) p (s'.client r).session (s'.up r) p'
  down : Moves p (s.down r) (s.client r).session p' (s'.down r) (s'.client r).session

/-- A connection on which nothing happens. -/
theorem SameConn.goes (hs : SameConn s s' r) (hp : s.server.server.objs[r]? = some p) : Goes s s' r p p where
  obj := hs.obj.trans hp
  up := by
    rw [hs.client, hs.up]
    exact moves_refl _ _ _
  down := by
    rw [hs.client, hs.down]
    exact moves_refl _ _ _

/-! ## Clients -/

/-- A line is typed. -/
theorem goes_command {mem : Msg}
    (hsplit : Tokens ChatClient.isBlank line (boostSplit line))
    (hs : s.command boostSplit k mem line = some (s', o)) (hp : s.server.server.objs[r]? = some p) :
    ∃ p', Goes s s' r p p' := by
  simp only [System.command, Option.ite_none_left_eq_some] at hs
  obtain ⟨⟨x, outs⟩, hread, hs⟩ := Option.bind_eq_some_iff.1 hs.2
  obtain ⟨c, hvec, hcases⟩ := session_of_readLine hsplit hread
  simp only [hvec, List.head?_cons, Option.map_some, Option.some.injEq, Prod.mk.injEq] at hs
  obtain ⟨rfl, -⟩ := hs
  by_cases hrk : r = k
  · subst hrk
    rcases hcases with ⟨hsession, rfl, -⟩ | ⟨m, hsession, rfl, hsays⟩
    · refine ⟨p, hp, ?_, ?_⟩
      · simpa [setClient, hsession, written] using moves_refl _ _ _
      · simpa [setClient, hsession] using moves_refl _ _ _
    · refine ⟨p, hp, ?_, ?_⟩
      · have hmove : Moves (s.client r).session (s.up r) p _ _ _ := .sends m m hsays.sound rfl hsays.sound.1 (.refl p)
        simpa [setClient, hsession, Function.comp_def] using hmove
      · have hmove : Moves p (s.down r) _ _ _ _ := .rest (.refl p) (.sendRef (s.client r).session m)
        simpa [setClient, hsession] using hmove
  · refine ⟨p, SameConn.goes ⟨rfl, ?_, ?_, rfl⟩ hp⟩
    · exact Function.update_of_ne hrk _ _
    · exact Function.update_of_ne hrk _ _

/-- A write of a client completes. -/
theorem goes_clientWrite (hs : s.clientStep k (.writeDone 0 none) = some (s', o))
    (hp : s.server.server.objs[r]? = some p) : ∃ p', Goes s s' r p p' := by
  obtain ⟨c, outs, hps, rfl⟩ := clientStep_inv hs
  refine ⟨p, ?_⟩
  by_cases hrk : r = k
  · subst hrk
    refine ⟨hp, ?_, ?_⟩
    · have hmove : Moves _ (s.up r) _ _ _ _ := .writes outs hps (.refl p)
      simpa [setClient] using hmove
    · have hmove : Moves _ (s.down r) _ _ _ _ := .rest (.refl p) (.writeDone hps)
      simpa [setClient] using hmove
  · refine SameConn.goes ⟨rfl, ?_, ?_, rfl⟩ hp
    · exact Function.update_of_ne hrk _ _
    · exact Function.update_of_ne hrk _ _

/-- A read of a client completes. -/
theorem goes_clientRead (hs : s.clientRead k = some (s', o)) (hp : s.server.server.objs[r]? = some p) :
    ∃ p', Goes s s' r p p' := by
  obtain ⟨bs, harr, hs⟩ := Option.bind_eq_some_iff.1 hs
  obtain ⟨c, outs, hps, rfl⟩ := clientStep_inv hs
  refine ⟨p, ?_⟩
  by_cases hrk : r = k
  · subst hrk
    refine ⟨hp, ?_, ?_⟩
    · have hmove : Moves _ (s.up r) _ _ _ _ := .rest (.readDone hps) (.refl p)
      simpa [setClient, TcpSession.written_readDone hps] using hmove
    · simpa [setClient] using Moves.reads bs outs harr hps (.refl p)
  · refine SameConn.goes ⟨rfl, ?_, ?_, ?_⟩ hp
    · exact Function.update_of_ne hrk _ _
    · exact Function.update_of_ne hrk _ _
    · exact Function.update_of_ne hrk _ _

/-! ## The server -/

/-- What a session of the server does on its own goes on at its connection only. -/
theorem serverStep_other {ev : ChatServer.Event} {ev' : TcpSession.Event} {outs : List TcpSession.Out}
    (he : ev.toServer = .session k ev') (hp : s.server.server.objs[k]? = some p)
    (hps : p.step ev' = some (p', outs)) (hm : ∀ m, .message m ∉ outs) (hc : ∀ reason, .closed reason ∉ outs)
    (hs : s.serverStep ev = some (s', o)) : s'.server.server.objs[k]? = some p' ∧ s'.client = s.client ∧
      s'.up = s.up ∧ s'.down k = s.down k ++ written outs ∧ ∀ q ≠ k, SameConn s s' q := by
  rw [serverStep_session he hp hps hm hc] at hs
  obtain ⟨rfl, -⟩ := Prod.mk.inj (Option.some.inj hs)
  refine ⟨List.getElem?_set_self (List.getElem?_eq_some_iff.1 hp).1, rfl, rfl, Function.update_self _ _ _, ?_⟩
  exact fun q hq => ⟨List.getElem?_set_ne hq.symm, rfl, rfl, Function.update_of_ne hq _ _⟩

/-- A write of the server completes. -/
theorem Talks.goes_serverWrite (ht : Talks s h) (hk : k ∈ s.conns)
    (hs : s.serverStep (.writeDone k 0 none) = some (s', o)) (hp : s.server.server.objs[r]? = some p) :
    ∃ p', Goes s s' r p p' := by
  obtain ⟨pk, hc⟩ := ht.conn k hk
  cases hps : pk.step (.writeDone 0 none) with
  | none => simp [System.serverStep, ChatServer.step_eq_none (e := .writeDone k 0 none) rfl hc.obj hps] at hs
  | some x =>
    obtain ⟨pk', outs⟩ := x
    obtain ⟨hm, hcl⟩ := TcpSession.outs_of_writeDone hps
    have hev : (ChatServer.Event.writeDone k 0 none).toServer = .session k (.writeDone 0 none) := rfl
    obtain ⟨hobj, hclient, hup, hdown, hsame⟩ := serverStep_other hev hc.obj hps hm hcl hs
    by_cases hrk : r = k
    · subst hrk
      obtain rfl := Option.some.inj (hc.obj.symm.trans hp)
      refine ⟨pk', hobj, ?_, ?_⟩
      · rw [hclient, hup]
        exact .rest (.refl _) (.writeDone hps)
      · rw [hclient, hdown]
        exact .writes outs hps (.refl _)
    · exact ⟨p, (hsame r hrk).goes hp⟩

/-- The server has the header of a message. -/
theorem goes_serverRead_header {pk pk' : TcpSession} {n : Nat} (hpk : s.server.server.objs[k]? = some pk)
    (harr : arrived pk (s.up k) = some bs)
    (hps : pk.step (.readDone 0 (.ok bs)) = some (pk', [.asyncRead (.body n)])) (hs : s.serverRead k = some (s', o))
    (hp : s.server.server.objs[r]? = some p) : ∃ p', Goes s s' r p p' := by
  rw [serverRead_eq hpk harr] at hs
  have hev : (ChatServer.Event.readDone k 0 (.ok bs)).toServer = .session k (.readDone 0 (.ok bs)) := rfl
  obtain ⟨hobj, hclient, hup, hdown, hsame⟩ := serverStep_other
    (s := { s with up := Function.update s.up k ((s.up k).drop bs.length) }) hev hpk hps (by simp) (by simp) hs
  by_cases hrk : r = k
  · subst hrk
    obtain rfl := Option.some.inj (hpk.symm.trans hp)
    refine ⟨pk', hobj, ?_, ?_⟩
    · rw [hclient, hup]
      simpa using Moves.reads bs _ harr hps (.refl (s.client r).session)
    · rw [hclient, hdown]
      have hmove : Moves _ (s.down r) _ _ _ _ := .rest (.readDone hps) (.refl (s.client r).session)
      simpa [written] using hmove
  · obtain ⟨hobj', hclient', hup', hdown'⟩ := hsame r hrk
    refine ⟨p, SameConn.goes ⟨hobj', hclient', ?_, hdown'⟩ hp⟩
    exact hup'.trans (Function.update_of_ne hrk _ _)

/-- The server has the body of a message, and passes it on or not. -/
theorem Talks.goes_serverRead_body {pk pk' : TcpSession} (ht : Talks s h) (hr : r ∈ s.conns)
    (hpk : s.server.server.objs[k]? = some pk) (harr : arrived pk (s.up k) = some bs) (hm : m.Sound)
    (hps : pk.step (.readDone 0 (.ok bs)) = some (pk', [.message pk'.msg, .asyncRead (.header hdrLength)]))
    (hhdr : pk'.msg.hdr = m.hdr) (hmsg : pk'.msg = pk.msg.storeBody m.payload) (hs : s.serverRead k = some (s', o))
    (hp : s.server.server.objs[r]? = some p) : ∃ p', Goes s s' r p p' := by
  rw [serverRead_eq hpk harr] at hs
  obtain ⟨⟨t, outs⟩, hstep, heq⟩ := Option.map_eq_some_iff.1 hs
  obtain ⟨rfl, -⟩ := Prod.mk.inj heq
  have hobjs : ∀ q ∈ s.conns, ∃ p, s.server.server.objs[q]? = some p := fun q hq => by
    obtain ⟨p₁, hc₁⟩ := ht.conn q hq
    exact ⟨p₁, hc₁.obj⟩
  obtain ⟨hobj, hout, hothers⟩ := ChatServer.body_step ht.nodup hobjs hpk hps hstep
  by_cases hrk : r = k
  · subst hrk
    obtain rfl := Option.some.inj (hpk.symm.trans hp)
    refine ⟨pk', hobj, ?_, ?_⟩
    · simpa only [Function.update_self] using Moves.reads bs _ harr hps (.refl _)
    · have hmove : Moves _ (s.down r) _ _ _ _ := .rest (.readDone hps) (.refl (s.client r).session)
      simpa only [hout, List.append_nil] using hmove
  · rcases hothers r hr hrk p hp with ⟨hobj₁, hout₁⟩ | ⟨hobj₁, hout₁⟩
    · refine ⟨p, SameConn.goes ⟨hobj₁.trans hp.symm, rfl, Function.update_of_ne hrk _ _, ?_⟩ hp⟩
      simp only [hout₁, List.append_nil]
    · -- it is sent to the client of this connection
      have hin : pk'.msg.InRange := by
        have hlen : pk'.msg.bodyLength = m.bodyLength := congrArg (fun h => h.bodyLength.toInt) hhdr
        unfold Msg.InRange
        rw [hlen]
        exact hm.1
      refine ⟨_, hobj₁, ?_, ?_⟩
      · have hmove : Moves _ (s.up r) _ _ _ _ := .rest (.refl (s.client r).session) (.sendRef p pk'.msg)
        simpa only [Function.update_of_ne hrk] using hmove
      · have hmove : Moves p (s.down r) _ _ _ _ :=
          .sends m pk'.msg hm (wire_of_read hm.1 hmsg hhdr) hin (.refl (s.client r).session)
        simpa only [hout₁] using hmove

/-- A read of the server completes. -/
theorem Talks.goes_serverRead (ht : Talks s h) (hk : k ∈ s.conns) (hr : r ∈ s.conns)
    (hs : s.serverRead k = some (s', o)) (hp : s.server.server.objs[r]? = some p) : ∃ p', Goes s s' r p p' := by
  obtain ⟨pk, hc⟩ := ht.conn k hk
  cases harr : arrived pk (s.up k) with
  | none => simp [System.serverRead, hc.obj, harr] at hs
  | some bs =>
    rcases hc.up.read harr with ⟨p', n, hps, -⟩ | ⟨m, ms, p', hms, hps, -, -, hhdr, hmsg⟩
    · exact goes_serverRead_header hc.obj harr hps hs hp
    · exact ht.goes_serverRead_body hr hc.obj harr (hc.up.sound m (by simp [hms])) hps hhdr hmsg hs hp

/-- Another client connects. -/
theorem goes_connect {a : Accepted} {ep : Endpoint} {mem : TcpSession.Memory}
    (hs : s.connect a ep mem = some (s', o)) (hp : s.server.server.objs[r]? = some p) : ∃ p', Goes s s' r p p' := by
  obtain ⟨⟨t, outs⟩, hstep, hs⟩ := Option.bind_eq_some_iff.1 hs
  obtain ⟨c, hc, heq⟩ := Option.map_eq_some_iff.1 hs
  obtain ⟨rfl, -⟩ := Prod.mk.inj heq
  have hlt := (List.getElem?_eq_some_iff.1 hp).1
  have hne : r ≠ s.server.server.objs.length := Nat.ne_of_lt hlt
  obtain ⟨hobjs, -⟩ := ChatServer.accept_step hstep
  refine ⟨p, SameConn.goes ⟨(hobjs r p hp).trans hp.symm, ?_, ?_, ?_⟩ hp⟩
  · exact Function.update_of_ne hne _ _
  · exact Function.update_of_ne hne _ _
  · exact Function.update_of_ne hne _ _

/-- **What a step is on a connection**: each direction goes on. -/
theorem Talks.goes (hsplit : ∀ line, Tokens ChatClient.isBlank line (boostSplit line)) (ht : Talks s h)
    (hs : s.step boostSplit e = some (s', o)) (hr : r ∈ s.conns) (hp : s.server.server.objs[r]? = some p) :
    ∃ p', Goes s s' r p p' := by
  cases e with
  | connect a ep mem => exact goes_connect hs hp
  | command k mem line =>
    simp only [step, Option.ite_none_right_eq_some] at hs
    exact goes_command (hsplit line) hs.2 hp
  | serverRead k =>
    simp only [step, Option.ite_none_right_eq_some] at hs
    exact ht.goes_serverRead hs.1 hr hs.2 hp
  | serverWrite k =>
    simp only [step, Option.ite_none_right_eq_some] at hs
    exact ht.goes_serverWrite hs.1 hs.2 hp
  | clientRead k =>
    simp only [step, Option.ite_none_right_eq_some] at hs
    exact goes_clientRead hs.2 hp
  | clientWrite k =>
    simp only [step, Option.ite_none_right_eq_some] at hs
    exact goes_clientWrite hs.2 hp

end System

end Torinet
