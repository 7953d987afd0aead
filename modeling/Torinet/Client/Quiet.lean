import Torinet.Client.EndToEnd
import Torinet.Client.Order

/-!
# Coming to rest

What has been asked for takes a bounded number of completions (`completions_le`): a message is written once and read in
two steps on its way to the server, and again on its way to each other client. So the system comes to rest when nothing
more is asked for, in whatever order the completions happen; and when no client has been stopped, everything has then
been handled by the server, and heard by all others (`complete_at_rest`).
-/

namespace Torinet

open Lib

namespace TcpSession

variable {w p p' : TcpSession} {m x : Msg} {ms : List Msg} {bytes bs : List UInt8} {o : List Out} {n k : Nat}

/-- The reads until a session has received `n` messages, whether or not it has the header of the first one. -/
def readsLeft (p : TcpSession) (n : Nat) : Nat := if p.reads = [.header hdrLength] then 2 * n else 2 * n - 1

theorem readsLeft_le (h : n ≤ k + 1) : p.readsLeft n ≤ p.readsLeft k + 2 := by
  unfold readsLeft
  split <;> omega

theorem readsLeft_congr (h : p'.reads = p.reads) (n : Nat) : p'.readsLeft n = p.readsLeft n := by
  rw [readsLeft, readsLeft, h]

theorem length_of_writeDone (hs : p.step (.writeDone 0 none) = some (p', o)) :
    p.sendQue.length = p'.sendQue.length + 1 ∧ p'.reads = p.reads := by
  have hpath := step_path hs
  cases hpath with
  | writeLast _ m hi hq => simp [hq]
  | writeNext _ m m' q hi hq => simp [hq]

theorem reads_sendRef (p : TcpSession) (m : Msg) : (p.sendRef m).1.reads = p.reads := by
  cases hq : p.sendQue <;> simp [sendRef, sendMsg, writeFront, hq]

/-- The header of a message has been read, so there is one. -/
theorem Flow.ne_nil (h : Flow w bytes p ms) (hr : p.reads = [.body n]) : ms ≠ [] := by
  obtain ⟨-, flying, queued, rfl, -, hrd⟩ := h
  cases hrd with
  | header hr' => simp [hr] at hr'
  | body => simp

theorem Flow.reads_singleton (h : Flow w bytes p ms) : ∃ op, p.reads = [op] := by
  obtain ⟨-, flying, queued, rfl, -, hrd⟩ := h
  cases hrd with
  | header hr => exact ⟨_, hr⟩
  | body hr => exact ⟨_, hr⟩

/-- A header has been read. -/
theorem Flow.readsLeft_header (h : Flow w bytes p' ms) (hr : p.reads = [.header hdrLength])
    (hr' : p'.reads = [.body n]) : p'.readsLeft ms.length + 1 = p.readsLeft ms.length := by
  have hpos := List.length_pos_iff.2 (h.ne_nil hr')
  have hne : p'.reads ≠ [.header hdrLength] := by simp [hr']
  rw [readsLeft, readsLeft, if_neg hne, if_pos hr]
  omega

/-- A body has been read. -/
theorem Flow.readsLeft_body (h : Flow w bytes p ms)
    (hs : p.step (.readDone 0 (.ok bs)) = some (p', [.message x, .asyncRead (.header hdrLength)])) (n : Nat) :
    p'.readsLeft n + 1 = p.readsLeft (n + 1) := by
  obtain ⟨op, hop⟩ := h.reads_singleton
  have hpath := step_path hs
  cases hpath with
  | bodyOk _ k _ hbody hbs =>
    obtain ⟨-, rfl⟩ := eq_of_getElem?_singleton (hop ▸ hbody)
    have hne : p.reads ≠ [.header hdrLength] := by simp [hop]
    rw [readsLeft, readsLeft, if_neg hne, if_pos (by simp [hop])]
    omega

end TcpSession

namespace ChatServer

open TcpServer (sessionOuts)
open TcpSession (written)

variable {s s' : ChatServer} {o : List Out} {r q : Nat} {p p' : TcpSession} {b : List UInt8}

/-- When a body has been received, every other session is as it was, or has sent the message. -/
theorem body_step (hnd : (registered s.server).Nodup)
    (hmem : ∀ q ∈ registered s.server, ∃ p, s.server.objs[q]? = some p) (hp : s.server.objs[r]? = some p)
    (hps : p.step (.readDone 0 (.ok b)) = some (p', [.message p'.msg, .asyncRead (.header hdrLength)]))
    (hs : s.step (.readDone r 0 (.ok b)) = some (s', o)) :
    s'.server.objs[r]? = some p' ∧ written (sessionOuts r (serverOuts o)) = [] ∧
      ∀ q ∈ registered s.server, q ≠ r → ∀ p₁, s.server.objs[q]? = some p₁ →
        s'.server.objs[q]? = some p₁ ∧ written (sessionOuts q (serverOuts o)) = [] ∨
        s'.server.objs[q]? = some (p₁.sendRef p'.msg).1 ∧ sessionOuts q (serverOuts o) = (p₁.sendRef p'.msg).2 := by
  by_cases hid : p'.msg.msgId = MsgId.nfMessage.val
  · obtain ⟨s₁, o₁, hs₁, -, hobj, hout, hothers⟩ := relay_step hnd hmem hp hps hid
    obtain ⟨rfl, rfl⟩ := Prod.mk.inj (Option.some.inj (hs₁.symm.trans hs))
    exact ⟨hobj, hout, fun q hq hqr p₁ hp₁ => Or.inr (hothers q hqr p₁ hp₁ hq)⟩
  · obtain ⟨o₁, hs₁, hout⟩ := handle_step hp hps hid
    obtain ⟨rfl, rfl⟩ := Prod.mk.inj (Option.some.inj (hs₁.symm.trans hs))
    refine ⟨List.getElem?_set_self (List.getElem?_eq_some_iff.1 hp).1, hout r, ?_⟩
    intro q _ hqr p₁ hp₁
    refine Or.inl ⟨?_, hout q⟩
    exact (List.getElem?_set_ne hqr.symm).trans hp₁

end ChatServer

namespace System

open ChatServer (registered)
open TcpSession (SameWrites readsLeft Flow)

variable {boostSplit : List UInt8 → SplitVector} {config : ServerConfig} {s s' : System} {h h' : Hub Nat Msg}
  {e : Event} {es : List Event} {out : List Seen} {o : List Out} {k r q N a b c : Nat} {m : Msg} {ms : List Msg}
  {bs : List UInt8} {p p' : TcpSession}

/-! ## What is still to happen -/

/-- The completions that a connection is still to have, of its client's session `c` and the server's session `p`, with
`up` and `down` messages on their way; those sent to `N - 1` other clients when it is passed on are counted for a
message on its way to the server. -/
def due (N : Nat) (c p : TcpSession) (up down : Nat) : Nat :=
  c.sendQue.length + p.sendQue.length + 3 * (N - 1) * up + p.readsLeft up + c.readsLeft down

def dueAt (N : Nat) (s : System) (h : Hub Nat Msg) (r : Nat) : Nat := (s.server.server.objs[r]?).elim 0 fun p =>
  due N (s.client r).session p (h.up r).length (h.down r).length

/-- The completions that are still to happen, for at most `N` clients. -/
def work (N : Nat) (s : System) (h : Hub Nat Msg) : Nat := ∑ r ∈ h.parties, dueAt N s h r

theorem dueAt_eq (hp : s.server.server.objs[r]? = some p) : dueAt N s h r =
    due N (s.client r).session p (h.up r).length (h.down r).length := by
  rw [dueAt, hp]
  rfl

/-- Nothing has happened on a connection. -/
theorem dueAt_congr (hobj : s'.server.server.objs[q]? = s.server.server.objs[q]?) (hc : s'.client q = s.client q)
    (hup : h'.up q = h.up q) (hdown : h'.down q = h.down q) : dueAt N s' h' q = dueAt N s h q := by
  rw [dueAt, dueAt, hobj, hc, hup, hdown]

/-- What a step of the connection `r` changes: there `a` completions less are due, but for `c` that are asked for, while
at each other connection at most `b` more are. -/
theorem work_le (hparties : h'.parties = h.parties) (hr : r ∈ h.parties)
    (hq : ∀ q ∈ h.parties, q ≠ r → dueAt N s' h' q ≤ dueAt N s h q + b)
    (hdue : dueAt N s' h' r + b * (h.parties.card - 1) + a ≤ dueAt N s h r + c) :
    work N s' h' + a ≤ work N s h + c := by
  have hsum : ∑ q ∈ h.parties.erase r, dueAt N s' h' q ≤ ∑ q ∈ h.parties.erase r, (dueAt N s h q + b) :=
    Finset.sum_le_sum fun q hq' => hq q (Finset.mem_of_mem_erase hq') (Finset.ne_of_mem_erase hq')
  rw [Finset.sum_add_distrib, Finset.sum_const, Finset.card_erase_of_mem hr, smul_eq_mul, mul_comm] at hsum
  rw [work, work, hparties, ← Finset.add_sum_erase _ _ hr, ← Finset.add_sum_erase _ _ hr]
  omega

/-! ## Completions at a client -/

/-- What a completion at a client comes from. -/
theorem clientStep_inv {ev : TcpSession.Event} (hs : s.clientStep r ev = some (s', o)) :
    ∃ (c : Client) (outs : List TcpSession.Out), (s.client r).session.step ev = some (c.session, outs) ∧
      s' = s.setClient r c outs := by
  unfold clientStep at hs
  split at hs
  · cases hs
  · obtain ⟨⟨c, outs⟩, hc, heq⟩ := Option.map_eq_some_iff.1 hs
    obtain ⟨rfl, -⟩ := Prod.mk.inj heq
    exact ⟨c, outs, (Client.sessionStep_iff.1 hc).1, rfl⟩

/-- A write of a client completes. -/
theorem Talks.work_clientWrite (ht : Talks s h) (hr : r ∈ s.conns)
    (hs : s.clientStep r (.writeDone 0 none) = some (s', o)) : Talks s' h ∧ work N s' h + 1 ≤ work N s h := by
  obtain ⟨ht', -⟩ := ht.of_clientWrite hr hs
  obtain ⟨p, hc⟩ := ht.conn r hr
  obtain ⟨c, outs, hps, rfl⟩ := clientStep_inv hs
  obtain ⟨hlen, hreads⟩ := TcpSession.length_of_writeDone hps
  refine ⟨ht', work_le (b := 0) (c := 0) rfl ((ht.parties r).2 hr) (fun q _ hq => ?_) ?_⟩
  · exact Nat.le_of_eq (dueAt_congr rfl (Function.update_of_ne hq _ _) rfl rfl)
  · have hp : (s.setClient r c outs).server.server.objs[r]? = some p := hc.obj
    rw [dueAt_eq hp, dueAt_eq hc.obj]
    simp only [System.setClient, Function.update_self, due, TcpSession.readsLeft_congr hreads]
    omega

/-- A read of a client completes. -/
theorem Talks.work_clientRead (ht : Talks s h) (hr : r ∈ s.conns) (hs : s.clientRead r = some (s', o)) :
    ∃ h', Talks s' h' ∧ h'.parties = h.parties ∧ work N s' h' + 1 ≤ work N s h := by
  obtain ⟨p, hc⟩ := ht.conn r hr
  obtain ⟨bs, harr, hs⟩ := Option.bind_eq_some_iff.1 hs
  obtain ⟨c, outs, hps, rfl⟩ := clientStep_inv hs
  have hps : (s.client r).session.step (.readDone 0 (.ok bs)) = some (c.session, outs) := hps
  have hobj : ∀ rest, ((({ s with down := Function.update s.down r rest } : System).setClient r c
      outs).server.server.objs : List TcpSession)[r]? = some p := fun _ => hc.obj
  rcases hc.down.read harr with ⟨p', n, hps', hsame, hflow, hreads, hreads', -⟩ |
    ⟨m, ms, p', hms, hps', hsame, hflow, hhdr, hmsg⟩
  · obtain ⟨rfl, rfl⟩ := Prod.mk.inj (Option.some.inj (hps'.symm.trans hps))
    have ht' := ht.setDown [.asyncRead (.body n)] hc rfl hsame hflow hc.passed
    rw [Function.update_eq_self] at ht'
    refine ⟨h, ht', rfl, work_le (b := 0) (c := 0) rfl ((ht.parties r).2 hr) (fun q _ hq => ?_) ?_⟩
    · exact Nat.le_of_eq (dueAt_congr rfl (Function.update_of_ne hq _ _) rfl rfl)
    · have hleft := hflow.readsLeft_header hreads hreads'
      rw [dueAt_eq (hobj _), dueAt_eq hc.obj]
      simp only [System.setClient, Function.update_self, due, hsame.1]
      omega
  · obtain ⟨rfl, rfl⟩ := Prod.mk.inj (Option.some.inj (hps'.symm.trans hps))
    have ht' := ht.setDown [.message c.session.msg, .asyncRead (.header hdrLength)] hc rfl hsame hflow
      fun m' hm' => hc.passed m' (hms ▸ List.mem_cons_of_mem _ hm')
    refine ⟨_, ht', rfl, work_le (b := 0) (c := 0) rfl ((ht.parties r).2 hr) (fun q _ hq => ?_) ?_⟩
    · exact Nat.le_of_eq (dueAt_congr rfl (Function.update_of_ne hq _ _) rfl (Function.update_of_ne hq _ _))
    · have hleft := hc.down.readsLeft_body hps ms.length
      rw [dueAt_eq (hobj _), dueAt_eq hc.obj, hms]
      simp only [System.setClient, Function.update_self, due, hsame.1, List.length_cons]
      omega

/-! ## Completions at the server -/

/-- A write of the server completes. -/
theorem Talks.work_serverWrite (ht : Talks s h) (hr : r ∈ s.conns)
    (hs : s.serverStep (.writeDone r 0 none) = some (s', o)) : Talks s' h ∧ work N s' h + 1 ≤ work N s h := by
  obtain ⟨ht', -⟩ := ht.of_serverWrite hr hs
  obtain ⟨p, hc⟩ := ht.conn r hr
  cases hps : p.step (.writeDone 0 none) with
  | none => simp [serverStep, ChatServer.step_eq_none (e := .writeDone r 0 none) rfl hc.obj hps] at hs
  | some x =>
    obtain ⟨p', outs⟩ := x
    obtain ⟨hm, hcl⟩ := TcpSession.outs_of_writeDone hps
    have hev : (ChatServer.Event.writeDone r 0 none).toServer = .session r (.writeDone 0 none) := rfl
    rw [serverStep_session hev hc.obj hps hm hcl] at hs
    obtain ⟨rfl, -⟩ := Prod.mk.inj (Option.some.inj hs)
    obtain ⟨hlen, hreads⟩ := TcpSession.length_of_writeDone hps
    refine ⟨ht', work_le (b := 0) (c := 0) rfl ((ht.parties r).2 hr) (fun q _ hq => ?_) ?_⟩
    · exact Nat.le_of_eq (dueAt_congr (List.getElem?_set_ne hq.symm) rfl rfl rfl)
    · have hp : (s.server.server.setObj r p').objs[r]? = some p' :=
        List.getElem?_set_self (List.getElem?_eq_some_iff.1 hc.obj).1
      rw [dueAt_eq hp, dueAt_eq hc.obj]
      simp only [due, TcpSession.readsLeft_congr hreads]
      omega

/-- The header of a message has been read at the server. -/
theorem Talks.work_serverRead_header {n : Nat} (ht : Talks s h) (hr : r ∈ s.conns)
    (hc : Conn s r p (h.up r) (h.down r)) (harr : arrived p (s.up r) = some bs)
    (hps : p.step (.readDone 0 (.ok bs)) = some (p', [.asyncRead (.body n)])) (hsame : SameWrites p p')
    (hflow : Flow (s.client r).session ((s.up r).drop bs.length) p' (h.up r)) (hreads : p.reads = [.header hdrLength])
    (hreads' : p'.reads = [.body n]) (hs : s.serverRead r = some (s', o)) :
    Talks s' h ∧ work N s' h + 1 ≤ work N s h := by
  obtain ⟨s₁, hs₁, ht', -⟩ := ht.serverRead_header hc harr hps hsame hflow
  obtain ⟨rfl, -⟩ := Prod.mk.inj (Option.some.inj (hs₁.symm.trans hs))
  refine ⟨ht', ?_⟩
  have hread := (serverRead_eq hc.obj harr).trans (serverStep_session rfl hc.obj hps (by simp) (by simp))
  obtain ⟨rfl, -⟩ := Prod.mk.inj (Option.some.inj (hread.symm.trans hs))
  refine work_le (b := 0) (c := 0) rfl ((ht.parties r).2 hr) (fun q _ hq => ?_) ?_
  · exact Nat.le_of_eq (dueAt_congr (List.getElem?_set_ne hq.symm) rfl rfl rfl)
  · have hp : (s.server.server.setObj r p').objs[r]? = some p' :=
      List.getElem?_set_self (List.getElem?_eq_some_iff.1 hc.obj).1
    have hleft := hflow.readsLeft_header hreads hreads'
    rw [dueAt_eq hp, dueAt_eq hc.obj]
    simp only [due, hsame.1]
    omega

theorem length_give_le (h : Hub Nat Msg) (r : Nat) (m : Msg) (q : Nat) :
    (h.give isChat r m q).length ≤ (h.down q).length + 1 := by
  unfold Hub.give
  split <;> simp

/-- The body of a message has been read at the server, which passes it on to the others. -/
theorem Talks.work_serverRead_body (ht : Talks s h) (hN : h.parties.card ≤ N) (hr : r ∈ s.conns)
    (hc : Conn s r p (h.up r) (h.down r)) (hms : h.up r = m :: ms) (harr : arrived p (s.up r) = some bs)
    (hps : p.step (.readDone 0 (.ok bs)) = some (p', [.message p'.msg, .asyncRead (.header hdrLength)]))
    (hsame : SameWrites p p') (hflow : Flow (s.client r).session ((s.up r).drop bs.length) p' ms)
    (hhdr : p'.msg.hdr = m.hdr) (hmsg : p'.msg = p.msg.storeBody m.payload) (hs : s.serverRead r = some (s', o)) :
    ∃ h', Talks s' h' ∧ h'.parties = h.parties ∧ work N s' h' + 1 ≤ work N s h := by
  obtain ⟨s₁, hs₁, hclient, ht'⟩ := ht.serverRead_body hr hc hms harr hps hsame hflow hhdr hmsg
  obtain ⟨rfl, -⟩ := Prod.mk.inj (Option.some.inj (hs₁.symm.trans hs))
  have hobjs : ∀ q ∈ s.conns, ∃ p, s.server.server.objs[q]? = some p := fun q hq => by
    obtain ⟨p₁, hc₁⟩ := ht.conn q hq
    exact ⟨p₁, hc₁.obj⟩
  obtain ⟨hobj, -, hothers⟩ := ChatServer.body_step ht.nodup hobjs hc.obj hps (serverDoes_serverRead hc.obj harr hs)
  refine ⟨_, ht', rfl, work_le (b := 3) (c := 0) rfl ((ht.parties r).2 hr) (fun q hq hqr => ?_) ?_⟩
  · -- the message goes into another connection
    obtain ⟨p₁, hc₁⟩ := ht.conn q ((ht.parties q).1 hq)
    have hdown := TcpSession.readsLeft_le (p := (s.client q).session) (length_give_le h r m q)
    rw [dueAt_eq hc₁.obj]
    rcases hothers q ((ht.parties q).1 hq) hqr p₁ hc₁.obj with ⟨hobj₁, -⟩ | ⟨hobj₁, -⟩
    · rw [dueAt_eq hobj₁]
      simp only [due, hclient, Function.update_of_ne hqr]
      omega
    · rw [dueAt_eq hobj₁]
      simp only [due, hclient, Function.update_of_ne hqr, sendQue_sendRef, List.length_append, List.length_singleton,
        TcpSession.readsLeft_congr (TcpSession.reads_sendRef p₁ p'.msg)]
      omega
  · have hleft := hc.up.readsLeft_body hps ms.length
    have hmul : 3 * (h.parties.card - 1) ≤ 3 * (N - 1) := by omega
    rw [dueAt_eq hobj, dueAt_eq hc.obj, hms]
    simp only [due, hclient, Function.update_self, Hub.give_self, hsame.1, List.length_cons, Nat.mul_add, Nat.mul_one]
    omega

/-- A read of the server completes. -/
theorem Talks.work_serverRead (ht : Talks s h) (hN : h.parties.card ≤ N) (hr : r ∈ s.conns)
    (hs : s.serverRead r = some (s', o)) :
    ∃ h', Talks s' h' ∧ h'.parties = h.parties ∧ work N s' h' + 1 ≤ work N s h := by
  obtain ⟨p, hc⟩ := ht.conn r hr
  cases harr : arrived p (s.up r) with
  | none => simp [System.serverRead, hc.obj, harr] at hs
  | some bs =>
    rcases hc.up.read harr with ⟨p', n, hps, hsame, hflow, hreads, hreads', -⟩ |
      ⟨m, ms, p', hms, hps, hsame, hflow, hhdr, hmsg⟩
    · obtain ⟨ht', hwork⟩ := ht.work_serverRead_header (N := N) hr hc harr hps hsame hflow hreads hreads' hs
      exact ⟨h, ht', rfl, hwork⟩
    · exact ht.work_serverRead_body hN hr hc hms harr hps hsame hflow hhdr hmsg hs

/-- **A completion is work done.** -/
theorem Talks.work_completion (ht : Talks s h) (hN : h.parties.card ≤ N) (he : e.Completion)
    (hs : s.step boostSplit e = some (s', o)) :
    ∃ h', Talks s' h' ∧ h'.parties = h.parties ∧ work N s' h' + 1 ≤ work N s h := by
  cases e with
  | connect a ep mem => exact he.elim
  | command k mem line => exact he.elim
  | serverRead r =>
    simp only [step, Option.ite_none_right_eq_some] at hs
    exact ht.work_serverRead hN hs.1 hs.2
  | serverWrite r =>
    simp only [step, Option.ite_none_right_eq_some] at hs
    obtain ⟨ht', hwork⟩ := ht.work_serverWrite (N := N) hs.1 hs.2
    exact ⟨h, ht', rfl, hwork⟩
  | clientRead r =>
    simp only [step, Option.ite_none_right_eq_some] at hs
    exact ht.work_clientRead hs.1 hs.2
  | clientWrite r =>
    simp only [step, Option.ite_none_right_eq_some] at hs
    obtain ⟨ht', hwork⟩ := ht.work_clientWrite (N := N) hs.1 hs.2
    exact ⟨h, ht', rfl, hwork⟩

/-! ## Lines and connections -/

/-- What is typed that asks for something. -/
def asked (es : List Event) : List (Nat × Act) := es.filterMap fun
  | .command k _ line => (act line).map fun a => (k, a)
  | _ => none

@[simp] theorem asked_append (es es' : List Event) : asked (es ++ es') = asked es ++ asked es' := by
  simp [asked]

/-- A line is typed. -/
theorem Talks.work_command {mem : Msg} {line : List UInt8} (ht : Talks s h) (hN : h.parties.card ≤ N) (hr : r ∈ s.conns)
    (hsplit : Tokens ChatClient.isBlank line (boostSplit line))
    (hs : s.command boostSplit r mem line = some (s', o)) :
    ∃ h', Talks s' h' ∧ h'.parties = h.parties ∧
      work N s' h' ≤ work N s h + 3 * N * (asked [.command r mem line]).length := by
  simp only [System.command, Option.ite_none_left_eq_some] at hs
  obtain ⟨⟨x, outs⟩, hread, hs⟩ := Option.bind_eq_some_iff.1 hs.2
  obtain ⟨c, hvec, hcases⟩ := act_of_readLine hsplit hread
  simp only [hvec, List.head?_cons, Option.map_some, Option.some.injEq, Prod.mk.injEq] at hs
  replace hs := hs.1
  obtain ⟨p, hc⟩ := ht.conn r hr
  have hrp := (ht.parties r).2 hr
  have hpos : 0 < h.parties.card := Finset.card_pos.2 ⟨r, hrp⟩
  have hobj : ∀ q : Nat, s'.server.server.objs[q]? = s.server.server.objs[q]? := fun q => by rw [← hs]; rfl
  have hself : s'.client r = c := by rw [← hs]; exact Function.update_self _ _ _
  have hother : ∀ q, q ≠ r → s'.client q = s.client q := fun q hq => by rw [← hs]; exact Function.update_of_ne hq _ _
  rcases hcases with ⟨hsession, rfl, -, hact⟩ | ⟨m, hsession, rfl, hsays, hsome, hmean⟩
  · refine ⟨h, hs ▸ ht.stays hr hsession, rfl, work_le (a := 0) (b := 0) rfl hrp (fun q _ hq => ?_) ?_⟩
    · exact Nat.le_of_eq (dueAt_congr (hobj q) (hother q hq) rfl rfl)
    · rw [dueAt_eq ((hobj r).trans hc.obj), dueAt_eq hc.obj, hself, hsession]
      omega
  · obtain ⟨a, ha⟩ := Option.isSome_iff_exists.1 hsome
    have hlen : (asked [.command r mem line]).length = 1 := by simp [asked, ha]
    have hsent := ht.sends (b := Function.update s.bTerm r x.bTerm) hr hsays.sound hsays.ends hsession
    have ht' : Talks s' { h with up := Function.update h.up r (h.up r ++ [m]) } := by
      rw [← hs]
      simpa [Function.comp_def] using hsent
    refine ⟨_, ht', rfl, work_le (a := 0) (b := 0) rfl hrp (fun q _ hq => ?_) ?_⟩
    · exact Nat.le_of_eq (dueAt_congr (hobj q) (hother q hq) (Function.update_of_ne hq _ _) rfl)
    · have hup := TcpSession.readsLeft_le (p := p) (Nat.le_refl ((h.up r).length + 1))
      have hdown := TcpSession.readsLeft_congr (TcpSession.reads_sendRef (s.client r).session m) (h.down r).length
      rw [dueAt_eq ((hobj r).trans hc.obj), dueAt_eq hc.obj, hlen, hself, hsession]
      simp only [Function.update_self, due, sendQue_sendRef, List.length_append, List.length_singleton, hdown,
        Nat.mul_add, Nat.mul_one]
      omega

/-- A client connects. -/
theorem Talks.work_connect {ac : Accepted} {ep : Endpoint} {mem : TcpSession.Memory} (ht : Talks s h)
    (hs : s.connect ac ep mem = some (s', o)) : ∃ h', Talks s' h' ∧ work N s' h' ≤ work N s h := by
  obtain ⟨-, hcases⟩ := ht.connect hs
  obtain ⟨⟨t, outs⟩, hstep, hs⟩ := Option.bind_eq_some_iff.1 hs
  obtain ⟨c, hc, heq⟩ := Option.map_eq_some_iff.1 hs
  obtain ⟨rfl, -⟩ := Prod.mk.inj heq
  obtain ⟨hobjs, hreg, hnew⟩ := ChatServer.accept_step hstep
  have hne : ∀ q ∈ h.parties, q ≠ s.server.server.objs.length := by
    rintro q hq rfl
    obtain ⟨p, hc⟩ := ht.conn _ ((ht.parties _).1 hq)
    simpa using hc.obj
  generalize hn : s.server.server.objs.length = n at hne hnew hcases
  have hold : ∀ h' : Hub Nat Msg, (∀ q ∈ h.parties, h'.up q = h.up q ∧ h'.down q = h.down q) → ∀ q ∈ h.parties,
      dueAt N ⟨t, Function.update s.client n c, Function.update s.bTerm n false, Function.update s.up n [],
        Function.update s.down n []⟩ h' q = dueAt N s h q := by
    intro h' hsame q hq
    obtain ⟨p, hp⟩ := ht.conn q ((ht.parties q).1 hq)
    refine dueAt_congr ?_ (Function.update_of_ne (hne q hq) _ _) (hsame q hq).1 (hsame q hq).2
    rw [hp.obj]
    exact hobjs q p hp.obj
  rcases hcases with ht' | ⟨n', hn', ht'⟩
  · exact ⟨h, ht', Nat.le_of_eq (Finset.sum_congr rfl (hold h fun q hq => ⟨rfl, rfl⟩))⟩
  · refine ⟨_, ht', ?_⟩
    have hconn : n' ∈ registered t.server := (ht'.parties n').1 (Finset.mem_insert_self _ _)
    rcases hnew n' hconn with hq | ⟨rfl, p, hp, hqs, -⟩
    · exact absurd ((ht.parties n').2 hq) hn'
    · obtain ⟨hqs', -⟩ := session_of_start hc
      have hsame : ∀ q ∈ h.parties, Function.update h.up n' [] q = h.up q ∧ Function.update h.down n' [] q = h.down q :=
        fun q hq => ⟨Function.update_of_ne (hne q hq) _ _, Function.update_of_ne (hne q hq) _ _⟩
      rw [work, Finset.sum_insert hn', Finset.sum_congr rfl (hold _ hsame), dueAt_eq hp]
      simp [due, readsLeft, hqs, hqs', work]

/-! ## Runs -/

instance : DecidablePred Event.Completion
  | .connect _ _ _ => .isFalse id
  | .command _ _ _ => .isFalse id
  | .serverRead _ => .isTrue trivial
  | .serverWrite _ => .isTrue trivial
  | .clientRead _ => .isTrue trivial
  | .clientWrite _ => .isTrue trivial

/-- How many completions happen. -/
def completions (es : List Event) : Nat := es.countP fun e => e.Completion

/-- No completion is possible. -/
def AtRest (boostSplit : List UInt8 → SplitVector) (s : System) : Prop :=
  ∀ e : Event, e.Completion → s.step boostSplit e = none

theorem completions_snoc (es : List Event) (e : Event) :
    completions (es ++ [e]) = completions es + if e.Completion then 1 else 0 := by
  simp [completions, List.countP_append, List.countP_singleton]

theorem Talks.card (ht : Talks s h) : h.parties.card = s.conns.length := by
  have hset : h.parties = s.conns.toFinset := by
    ext r
    rw [List.mem_toFinset]
    exact ht.parties r
  rw [hset, List.toFinset_card_of_nodup ht.nodup]

theorem Move.parties (hm : Move s h e s' o h') : h.parties ⊆ h'.parties := by
  cases hm with
  | join n hn => exact Finset.subset_insert n h.parties
  | _ => exact Finset.Subset.refl _

/-- Whoever has connected stays. -/
theorem Talks.length_conns_le (hsplit : ∀ line, Tokens ChatClient.isBlank line (boostSplit line)) (ht : Talks s h)
    (hs : s.step boostSplit e = some (s', o)) : s.conns.length ≤ s'.conns.length := by
  obtain ⟨h', hmove⟩ := ht.move hsplit hs
  rw [← ht.card, ← hmove.talks.card]
  exact Finset.card_le_card hmove.parties

/-- **The work of a run**: what has been asked for bounds the completions that have happened and are still to happen. -/
theorem work_run {o : List Out} (hsplit : ∀ line, Tokens ChatClient.isBlank line (boostSplit line))
    (hr : (machine boostSplit).Run (new config) es s o) :
    ∀ N, s.conns.length ≤ N → ∃ h, Talks s h ∧ work N s h + completions es ≤ 3 * N * (asked es).length := by
  induction hr with
  | nil => exact fun N _ => ⟨_, talks_new config, by simp [work, completions, asked]⟩
  | @snoc es s₁ out e s₂ o hr hs ih =>
    intro N hN
    obtain ⟨ops, h₀, hout, -, ht₀, -⟩ := talks_run hsplit (talks_new config) hr
    have hN₁ := (ht₀.length_conns_le hsplit hs).trans hN
    obtain ⟨h, ht, hwork⟩ := ih N hN₁
    have hcard : h.parties.card ≤ N := ht.card.trans_le hN₁
    rw [completions_snoc, asked_append, List.length_append, Nat.mul_add]
    by_cases he : e.Completion
    · obtain ⟨h', ht', -, hwork'⟩ := ht.work_completion hcard he hs
      refine ⟨h', ht', ?_⟩
      rw [if_pos he]
      omega
    · rw [if_neg he]
      cases e with
      | connect a ep mem =>
        obtain ⟨h', ht', hwork'⟩ := ht.work_connect (N := N) hs
        exact ⟨h', ht', by omega⟩
      | command k mem line =>
        simp only [machine, step, Option.ite_none_right_eq_some] at hs
        obtain ⟨h', ht', -, hwork'⟩ := ht.work_command hcard hs.1 (hsplit line) hs.2
        exact ⟨h', ht', by omega⟩
      | _ => exact absurd trivial he

/-- The system can come to rest. -/
theorem Talks.exists_atRest (ht : Talks s h) : ∃ es s' o, (∀ e ∈ es, e.Completion) ∧
    (machine boostSplit).Run s es s' o ∧ AtRest boostSplit s' := by
  generalize hn : work h.parties.card s h = n
  induction n using Nat.strong_induction_on generalizing s h with
  | _ n ih =>
    by_cases hrest : AtRest boostSplit s
    · exact ⟨[], s, [], by simp, Machine.Run.nil, hrest⟩
    · unfold AtRest at hrest
      push Not at hrest
      obtain ⟨e, he, hne⟩ := hrest
      obtain ⟨⟨s₁, o₁⟩, hs₁⟩ := Option.ne_none_iff_exists'.1 hne
      obtain ⟨h₁, ht₁, hparties, hwork⟩ := ht.work_completion le_rfl he hs₁
      rw [← hparties] at hwork hn
      obtain ⟨es, s', o, hes, hr, hrest'⟩ := ih _ (by omega) ht₁ rfl
      have hrun₁ : (machine boostSplit).Run s [e] s₁ o₁ := Machine.Run.single hs₁
      exact ⟨e :: es, s', _, by simpa [he] using hes, hrun₁.append hr, hrest'⟩

/-- **Everything comes to rest**: in every run of the system, with `n` clients connected at its end, what is asked for
takes at most `3 * n` completions a line, whatever their order; and the completions that are possible then lead to a
state in which none is. -/
theorem completions_le (hsplit : ∀ line, Tokens ChatClient.isBlank line (boostSplit line))
    (hr : (machine boostSplit).Run (new config) es s o) :
    completions es ≤ 3 * s.conns.length * (asked es).length ∧
      ∃ es' s' o', (∀ e ∈ es', e.Completion) ∧ (machine boostSplit).Run s es' s' o' ∧ AtRest boostSplit s' := by
  obtain ⟨h, ht, hwork⟩ := work_run hsplit hr _ le_rfl
  exact ⟨(Nat.le_add_left _ _).trans hwork, ht.exists_atRest⟩

theorem completions_le_hiHeard : ∃ (s : System) (o : List Out),
    (machine (split ChatClient.isBlank)).Run (new ⟨2⟩) (oneConnects :: oneConnects :: hiHeard) s o ∧
    completions (oneConnects :: oneConnects :: hiHeard) ≤
      3 * s.conns.length * (asked (oneConnects :: oneConnects :: hiHeard)).length ∧
    ∃ es' s' o', (∀ e ∈ es', e.Completion) ∧ (machine (split ChatClient.isBlank)).Run s es' s' o' ∧
      AtRest (split ChatClient.isBlank) s' := by
  have hsome : ((machine (split ChatClient.isBlank)).exec (new ⟨2⟩) (oneConnects :: oneConnects :: hiHeard)).isSome =
      true := by
    decide +kernel
  obtain ⟨⟨s, o⟩, hx⟩ := Option.isSome_iff_exists.1 hsome
  have hr := Machine.run_of_exec hx
  exact ⟨s, o, hr, completions_le (tokens_split _) hr⟩

/-! ## At rest -/

/-- At rest nothing is on its way to the server. -/
theorem Talks.up_eq_nil (ht : Talks s h) (hrun : s.Running) (hrest : AtRest boostSplit s) (hr : r ∈ s.conns) :
    h.up r = [] := by
  by_contra hne
  obtain ⟨p, hc⟩ := ht.conn r hr
  cases harr : arrived p (s.up r) with
  | some bs =>
    obtain ⟨s', hs, -⟩ := ht.serverRead hr hc harr
    exact absurd ((step_serverRead boostSplit hr hs).symm.trans (hrest (.serverRead r) trivial)) (by simp)
  | none =>
    obtain ⟨w, outs, bs, hps, -⟩ := hc.up.canWrite hne harr
    obtain ⟨s', hs, -⟩ := ht.clientWrite (hrun r hr) hc hps
    have hstep : s.step boostSplit (.clientWrite r) = some (s', []) := (if_pos hr).trans hs
    exact absurd (hstep.symm.trans (hrest (.clientWrite r) trivial)) (by simp)

/-- At rest nothing is on its way to a client. -/
theorem Talks.down_eq_nil (ht : Talks s h) (hrun : s.Running) (hrest : AtRest boostSplit s) (hr : r ∈ s.conns) :
    h.down r = [] := by
  by_contra hne
  obtain ⟨p, hc⟩ := ht.conn r hr
  cases harr : arrived (s.client r).session (s.down r) with
  | some bs =>
    obtain ⟨s', o', hs, -⟩ := ht.clientRead (hrun r hr) hc harr
    exact absurd ((step_clientRead boostSplit hr hs).symm.trans (hrest (.clientRead r) trivial)) (by simp)
  | none =>
    obtain ⟨w, outs, bs, hps, -⟩ := hc.down.canWrite hne harr
    obtain ⟨s', hs, -⟩ := ht.serverWrite hc hps
    have hstep : s.step boostSplit (.serverWrite r) = some (s', []) := (if_pos hr).trans hs
    exact absurd (hstep.symm.trans (hrest (.serverWrite r) trivial)) (by simp)

/-- **At rest everything has arrived**: when no client has been stopped and no completion is possible any more, the
message handler of the server has been called for all that is typed, and that of a client for all that the others have
said in it since the client has connected. -/
theorem complete_at_rest {es₁ es₂ : List Event} {s₁ s₂ : System} {out₁ out₂ seen : List Seen}
    (hsplit : ∀ line, Tokens ChatClient.isBlank line (boostSplit line))
    (hr₁ : (observed boostSplit).Run (new config) es₁ s₁ out₁)
    (hs : (observed boostSplit).step s₁ e = some (s₂, seen)) (hr₂ : (observed boostSplit).Run s₂ es₂ s out₂)
    (hold : r ∉ s₁.conns) (hnew : r ∈ s₂.conns) (hrun : s.Running) (hrest : AtRest boostSplit s) :
    (∀ k, Hub.ofOne k (journal (out₁ ++ seen ++ out₂)) = acts k (es₁ ++ [e] ++ es₂)) ∧
      heard r (atClients (seen ++ out₂)) = (told r (journal (seen ++ out₂))).map fun t => (.unknown, t) := by
  obtain ⟨h, log, since, hk, hr, -, htold⟩ := exists_kept hsplit hr₁ hs hr₂ hold hnew
  have ht := hk.talks
  refine ⟨fun k => ?_, ?_⟩
  · by_cases hkp : k ∈ h.parties
    · rw [hk.acts_eq hkp, ht.up_eq_nil hrun hrest ((ht.parties k).1 hkp), List.filterMap_nil, List.append_nil]
    · obtain ⟨hacts, hnone⟩ := hk.acts_absent hkp
      rw [hacts, hnone]
  · rw [htold, ht.down_eq_nil hrun hrest ((ht.parties r).1 hr), List.map_nil, List.append_nil]

/-- Only what is connected has completions. -/
theorem atRest_iff : AtRest boostSplit s ↔ ∀ r ∈ s.conns, ∀ e ∈ [Event.serverRead r, .serverWrite r, .clientRead r,
    .clientWrite r], (s.step boostSplit e).isNone = true := by
  constructor
  · intro hrest r _ e he
    rw [hrest e, Option.isNone_none]
    simp only [List.mem_cons, List.not_mem_nil, or_false] at he
    rcases he with rfl | rfl | rfl | rfl <;> trivial
  · intro hall e he
    have hnone : ∀ r, e ∈ [Event.serverRead r, .serverWrite r, .clientRead r, .clientWrite r] →
        (r ∉ s.conns → s.step boostSplit e = none) → s.step boostSplit e = none := by
      intro r hmem hout
      by_cases hr : r ∈ s.conns
      · exact Option.isNone_iff_eq_none.1 (hall r hr e hmem)
      · exact hout hr
    cases e with
    | connect a ep mem => exact he.elim
    | command k mem line => exact he.elim
    | serverRead r | serverWrite r | clientRead r | clientWrite r => exact hnone r (by simp) fun hr => if_neg hr

theorem complete_at_rest_hiHeard : ∃ (s₁ s₂ s : System) (out₁ seen out₂ : List Seen),
    (observed (split ChatClient.isBlank)).Run (new ⟨2⟩) [oneConnects] s₁ out₁ ∧
    (observed (split ChatClient.isBlank)).step s₁ oneConnects = some (s₂, seen) ∧
    (observed (split ChatClient.isBlank)).Run s₂ hiHeard s out₂ ∧ 1 ∉ s₁.conns ∧ 1 ∈ s₂.conns ∧ s.Running ∧
    AtRest (split ChatClient.isBlank) s ∧
    (∀ k, Hub.ofOne k (journal (out₁ ++ seen ++ out₂)) = acts k ([oneConnects] ++ [oneConnects] ++ hiHeard)) ∧
    heard 1 (atClients (seen ++ out₂)) = (told 1 (journal (seen ++ out₂))).map fun t => (.unknown, t) := by
  have hr₁ : ∃ (s₁ s₂ : System) (out₁ seen : List Seen),
      (observed (split ChatClient.isBlank)).Run (new ⟨2⟩) [oneConnects] s₁ out₁ ∧
      (observed (split ChatClient.isBlank)).step s₁ oneConnects = some (s₂, seen) ∧ 1 ∉ s₁.conns ∧ 1 ∈ s₂.conns ∧
      ((observed (split ChatClient.isBlank)).exec s₂ hiHeard).map (fun x => decide ((∀ r ∈ x.1.conns,
        (x.1.client r).stopped = false) ∧ ∀ r ∈ x.1.conns, ∀ e ∈ [Event.serverRead r, .serverWrite r, .clientRead r,
          .clientWrite r], (x.1.step (split ChatClient.isBlank) e).isNone = true)) = some true :=
    ⟨_, _, _, _, Machine.run_of_exec rfl, rfl, by decide, by decide, by decide +kernel⟩
  obtain ⟨s₁, s₂, out₁, seen, hr₁, hs, hold, hnew, hsome⟩ := hr₁
  obtain ⟨⟨s, out₂⟩, hx, hdec⟩ := Option.map_eq_some_iff.1 hsome
  obtain ⟨hrun, hrest⟩ := of_decide_eq_true hdec
  have hr₂ := Machine.run_of_exec hx
  have hrest := atRest_iff.2 hrest
  exact ⟨s₁, s₂, s, out₁, seen, out₂, hr₁, hs, hr₂, hold, hnew, hrun, hrest,
    complete_at_rest (tokens_split _) hr₁ hs hr₂ hold hnew hrun hrest⟩

end System

end Torinet
