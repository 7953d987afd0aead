import Torinet.Chat.Credit
import Torinet.Client.Directions

/-!
# A message that is relayed

When the body of a chat message has been read, every other registered session sends the message (`relay_step`); those
that have nothing else to send start to write it at once. Whatever else a session of the server does is its own
(`session_step`).
-/

namespace Torinet

open Lib

namespace ChatServer

open TcpServer (sessionOuts)
open TcpSession (written SameReads SameWrites)

variable {config : ServerConfig} {s s' : ChatServer} {es : List Event} {out : List Out} {t t' : TcpServer} {r : Nat}
  {p p' : TcpSession} {m : Msg} {b : List UInt8}

/-- A step of a session that neither delivers a message nor reports its end is all that happens. -/
theorem session_step {e : Event} {ev : TcpSession.Event} {outs : List TcpSession.Out} (he : e.toServer = .session r ev)
    (hp : s.server.objs[r]? = some p) (hps : p.step ev = some (p', outs)) (hm : ∀ m, .message m ∉ outs)
    (hc : ∀ reason, .closed reason ∉ outs) :
    s.step e = some (⟨s.server.setObj r p'⟩, (outs.map fun x => (r, x)).map .server) := by
  have hstep : s.server.step e.toServer = some (s.server.setObj r p', outs.map fun x => (r, x)) := by
    rw [he]
    simp only [TcpServer.step, TcpServer.sessionStep, hp, hps, TcpServer.foldl_callHandler hc]
    rfl
  have hno : ∀ q m, (q, .message m) ∉ outs.map fun x => (r, x) := by
    intro q m hqm
    obtain ⟨x, hx, heq⟩ := List.mem_map.1 hqm
    obtain ⟨rfl, rfl⟩ := Prod.mk.inj heq
    exact hm m hx
  rw [step, hstep, Option.bind_some, callHandlers_of_not_message hno]

/-- What a session cannot do does not happen. -/
theorem step_eq_none {e : Event} {ev : TcpSession.Event} (he : e.toServer = .session r ev)
    (hp : s.server.objs[r]? = some p) (hps : p.step ev = none) : s.step e = none := by
  simp [step, he, TcpServer.step, TcpServer.sessionStep, hp, hps]

/-- A message of another kind is received, and only its own session changes. -/
theorem handle_step (hp : s.server.objs[r]? = some p)
    (hps : p.step (.readDone 0 (.ok b)) = some (p', [.message p'.msg, .asyncRead (.header hdrLength)]))
    (hid : p'.msg.msgId ≠ MsgId.nfMessage.val) :
    ∃ o, s.step (.readDone r 0 (.ok b)) = some (⟨s.server.setObj r p'⟩, o) ∧
      ∀ q, written (sessionOuts q (serverOuts o)) = [] := by
  have hstep : s.server.step (.session r (.readDone 0 (.ok b))) = some (s.server.setObj r p',
      [(r, .message p'.msg), (r, .asyncRead (.header hdrLength))]) := by
    simp only [TcpServer.step, TcpServer.sessionStep, hp, hps]
    rfl
  have hobj : (s.server.setObj r p').objs[r]? = some p' :=
    List.getElem?_set_self (List.getElem?_eq_some_iff.1 hp).1
  obtain ⟨o, hmh, ho⟩ : ∃ o, (⟨s.server.setObj r p'⟩ : ChatServer).messageHandler r =
      some (⟨s.server.setObj r p'⟩, o) ∧ serverOuts o = [] := by
    simp only [messageHandler, hobj, if_neg hid]
    split
    · exact ⟨_, rfl, rfl⟩
    · exact ⟨_, rfl, rfl⟩
  refine ⟨_, by rw [step, Event.toServer, hstep, Option.bind_some, callHandlers_message, hmh, Option.map_some], ?_⟩
  intro q
  have houts : serverOuts (.server (r, .message p'.msg) :: o ++ [.server (r, .asyncRead (.header hdrLength))]) =
      [(r, .message p'.msg), (r, .asyncRead (.header hdrLength))] := by
    have hcons : serverOuts (.server (r, .message p'.msg) :: o) = (r, .message p'.msg) :: serverOuts o := rfl
    rw [serverOuts_append, hcons, ho]
    rfl
  rw [houts]
  by_cases hq : r = q <;> simp [sessionOuts, written, hq]

/-- A connection is accepted, and perhaps a session made, which waits for a header. -/
theorem accept_step {a : Accepted} {o : List Out} (hs : s.step (.accept (.ok a)) = some (s', o)) :
    (∀ (q : Nat) (p : TcpSession), s.server.objs[q]? = some p → s'.server.objs[q]? = some p) ∧
      (∀ q ∈ registered s.server, q ∈ registered s'.server) ∧
      ∀ q ∈ registered s'.server, q ∈ registered s.server ∨ q = s.server.objs.length ∧
        ∃ p, s'.server.objs[q]? = some p ∧ p.sendQue = [] ∧ p.writes = [] ∧ p.reads = [.header hdrLength] := by
  obtain ⟨⟨t, outs⟩, hstep, hc⟩ := Option.bind_eq_some_iff.1 hs
  have hpath := TcpServer.step_path (e := .accept (.ok a)) hstep
  cases hpath with
  | acceptRefused _ ha hfull =>
    obtain ⟨rfl, rfl⟩ := Prod.mk.inj (Option.some.inj hc)
    exact ⟨fun q p hq => hq, fun q hq => hq, fun q hq => Or.inl hq⟩
  | acceptOk _ id free ha hroom hf =>
    rw [callHandlers_of_not_message (by simp)] at hc
    obtain ⟨rfl, rfl⟩ := Prod.mk.inj (Option.some.inj hc)
    refine ⟨fun q p hq => ?_, fun q hq => ?_, fun q hq => ?_⟩
    · have hlt := (List.getElem?_eq_some_iff.1 hq).1
      exact (List.getElem?_append_left hlt).trans hq
    · obtain ⟨j, hj⟩ := mem_registered.1 hq
      refine mem_registered.2 ⟨j, ?_⟩
      simp only [TcpServer.accepted, Std.TreeMap.getElem?_insertIfNew]
      rw [if_neg, hj]
      rintro ⟨hcmp, hnot⟩
      obtain rfl := Std.LawfulEqCmp.eq_of_compare hcmp
      exact hnot (Std.TreeMap.mem_iff_isSome_getElem?.2 (by rw [hj]; rfl))
    · obtain ⟨j, hj⟩ := mem_registered.1 hq
      simp only [TcpServer.accepted, Std.TreeMap.getElem?_insertIfNew] at hj
      split at hj
      · obtain rfl := Option.some.inj hj
        refine Or.inr ⟨rfl, _, List.getElem?_concat_length, rfl, rfl, ?_⟩
        rfl
      · exact Or.inl (mem_registered.2 ⟨j, hj⟩)

/-- **A chat message is received**, and every other registered session sends it. -/
theorem relay_step (hnd : (registered s.server).Nodup)
    (hmem : ∀ q ∈ registered s.server, ∃ p, s.server.objs[q]? = some p) (hp : s.server.objs[r]? = some p)
    (hps : p.step (.readDone 0 (.ok b)) = some (p', [.message p'.msg, .asyncRead (.header hdrLength)]))
    (hid : p'.msg.msgId = MsgId.nfMessage.val) :
    ∃ s' o, s.step (.readDone r 0 (.ok b)) = some (s', o) ∧ s'.server.sessions = s.server.sessions ∧
      s'.server.objs[r]? = some p' ∧ written (sessionOuts r (serverOuts o)) = [] ∧
      ∀ q, q ≠ r → ∀ p₁, s.server.objs[q]? = some p₁ →
        (q ∈ registered s.server → s'.server.objs[q]? = some (p₁.sendRef p'.msg).1 ∧
          sessionOuts q (serverOuts o) = (p₁.sendRef p'.msg).2) := by
  have hlt := (List.getElem?_eq_some_iff.1 hp).1
  generalize ht : s.server.setObj r p' = t
  have hstep : s.server.step (.session r (.readDone 0 (.ok b))) = some (t,
      [(r, .message p'.msg), (r, .asyncRead (.header hdrLength))]) := by
    subst ht
    simp only [TcpServer.step, TcpServer.sessionStep, hp, hps]
    rfl
  have hreg : registered t = registered s.server := by
    subst ht
    rfl
  have hself : t.objs[r]? = some p' := by
    subst ht
    exact List.getElem?_set_self hlt
  have hother : ∀ q, q ≠ r → t.objs[q]? = s.server.objs[q]? := by
    subst ht
    exact fun q hq => List.getElem?_set_ne hq.symm
  have hin : ∀ q, q ∈ ((registered s.server).filter fun it => r ≠ it) ↔ q ∈ registered s.server ∧ q ≠ r := by
    intro q
    rw [List.mem_filter, decide_eq_true_iff, ne_comm]
  obtain ⟨t', outs, hx, hsess, hobjs, houts⟩ := exec_sends p'.msg (hnd.filter fun it => r ≠ it) fun q hq => by
    obtain ⟨hq, hqr⟩ := (hin q).1 hq
    rw [hother q hqr]
    exact hmem q hq
  have hne : p'.msg.msgId ≠ MsgId.rqCreateUser.val := by
    rw [hid]
    decide
  have hmh : (⟨t⟩ : ChatServer).messageHandler r = some (⟨t'⟩, .nfMessage r p'.msg (registered t) ::
      .redis ((strlen p'.msg.body.bytes).map fun n => .zincrby "user:ranking" n (member p')) :: outs.map .server) := by
    simp only [messageHandler, hself, if_neg hne, if_pos hid]
    rw [nfMessage, sends, hreg, hx, Option.map_some]
  refine ⟨⟨t'⟩, _, by rw [step, Event.toServer, hstep, Option.bind_some, callHandlers_message, hmh, Option.map_some],
    hsess.trans (by subst ht; rfl), ?_, ?_, fun q hqr p₁ hp₁ hq => ⟨?_, ?_⟩⟩
  · rw [hobjs, if_neg fun hr => ((hin r).1 hr).2 rfl, hself]
  · have hr := houts r
    rw [if_neg fun hr => ((hin r).1 hr).2 rfl] at hr
    rw [serverOuts_relay, TcpServer.sessionOuts_append, TcpServer.sessionOuts_append, hr]
    simp [sessionOuts, written]
  · rw [hobjs, if_pos ((hin q).2 ⟨hq, hqr⟩), hother q hqr, hp₁, Option.map_some]
  · have hsent := houts q
    rw [if_pos ((hin q).2 ⟨hq, hqr⟩), hother q hqr, hp₁, Option.map_some, Option.getD_some] at hsent
    rw [serverOuts_relay, TcpServer.sessionOuts_append, TcpServer.sessionOuts_append, hsent]
    simp [sessionOuts, hqr.symm]

end ChatServer

end Torinet
