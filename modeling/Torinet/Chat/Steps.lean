import Torinet.Client.Carried
import Torinet.Server.Threads

/-!
# What a step of the chat server is to a session

Whatever the server does, one of its sessions takes a step of its own, or is left alone; and then it may have to send
what is relayed, and does nothing else (`session_of_step`). This holds for a session that has failed, too, or
is no longer registered.
-/

namespace Torinet

open Lib

namespace ChatServer

open TcpServer (sessionEvents sessionOuts)
open TcpSession (Sent messages written)

variable {config : ServerConfig} {s s' : ChatServer} {e : Event} {es : List Event} {out o : List Out} {t t' : TcpServer}
  {outs : List TcpServer.Out} {k r : Nat} {m : Msg} {p : TcpSession}

/-- The messages of the session `k` that the message handler is called for. -/
def deliveredOf (k : Nat) (out : List Out) : List Msg := messages (sessionOuts k (serverOuts out))

@[simp] theorem deliveredOf_append (out o : List Out) :
    deliveredOf k (out ++ o) = deliveredOf k out ++ deliveredOf k o := by
  simp [deliveredOf, messages]

/-- The loop over the registry only sends. -/
theorem sent_sends (hx : TcpServer.machine.Run t (sends t r m) t' outs) (hp : t.objs[k]? = some p) :
    ∃ p', t'.objs[k]? = some p' ∧ Sent p p' := by
  refine (hx.inv (I := fun t => ∃ p', t.objs[k]? = some p' ∧ Sent p p') (Q := fun _ => True) ⟨p, hp, .refl⟩
    fun {t₁ f t₂ o} hf h hs => ⟨?_, fun _ _ => trivial⟩).1
  obtain ⟨p₁, hp₁, hsent⟩ := h
  rcases TcpServer.sessionStep_of_step (sends_running f hf) hs k with ⟨ev, p₂, p', outs, rfl, hp₂, hps, hp', -⟩ |
    ⟨-, hobj, -⟩ | ⟨_, _, _, -, hnone, -⟩
  · obtain rfl := Option.some.inj (hp₁.symm.trans hp₂)
    obtain ⟨q, -, he⟩ := of_mem_sends hf
    obtain ⟨-, rfl⟩ := TcpServer.Event.session.inj he
    have heq : p' = (p₁.sendRef m).1 := congrArg Prod.fst (Option.some.inj hps).symm
    exact ⟨p', hp', heq ▸ hsent.send m⟩
  · exact ⟨p₁, hobj.trans hp₁, hsent⟩
  · rw [hp₁] at hnone
    cases hnone

theorem deliveredOf_sends (hx : TcpServer.machine.Run t (sends t r m) t' outs) :
    messages (sessionOuts k outs) = [] := by
  refine List.filterMap_eq_nil_iff.2 fun x hxo => ?_
  cases x with
  | message m' => exact absurd rfl (not_message_sends hx _ (TcpServer.mem_sessionOuts.1 hxo) m')
  | _ => rfl

/-- What a step is to the session `k`, which is `p`. -/
inductive SessionStep (e : Event) (s' : ChatServer) (o : List Out) (k : Nat) (p : TcpSession) : Prop
  | own (ev : TcpSession.Event) (p₁ p' : TcpSession) (outs : List TcpSession.Out) (he : e.toServer = .session k ev)
      (hs : p.step ev = some (p₁, outs)) (hp' : s'.server.objs[k]? = some p') (hsent : Sent p₁ p')
      (ho : deliveredOf k o = messages outs) : SessionStep e s' o k p
  | other (p' : TcpSession) (he : ∀ ev, e.toServer ≠ .session k ev) (hp' : s'.server.objs[k]? = some p')
      (hsent : Sent p p') (ho : deliveredOf k o = []) : SessionStep e s' o k p

/-- A step of the server, and then what is relayed. -/
theorem sessionStep_of_sends (hstep : s.server.step e.toServer = some (t, outs))
    (hx : ∀ p, t.objs[k]? = some p → ∃ p', s'.server.objs[k]? = some p' ∧ Sent p p')
    (ho : deliveredOf k o = messages (sessionOuts k outs)) (hp : s.server.objs[k]? = some p) :
    SessionStep e s' o k p := by
  rcases TcpServer.sessionStep_of_step (toServer_running e) hstep k with
    ⟨ev, p₁, p₂, outs, he, hp₁, hps, hp₂, rfl⟩ | ⟨hne, hobj, hnil⟩ | ⟨_, _, _, -, hnone, -⟩
  · obtain rfl := Option.some.inj (hp₁.symm.trans hp)
    obtain ⟨p', hp', hsent⟩ := hx p₂ hp₂
    exact .own ev p₂ p' outs he hps hp' hsent (by rw [ho, TcpServer.sessionOuts_map_self])
  · obtain ⟨p', hp', hsent⟩ := hx p (hobj.trans hp)
    exact .other p' hne hp' hsent (by rw [ho, hnil]; rfl)
  · rw [hp] at hnone
    cases hnone

/-- **What a step is to a session.** -/
theorem session_of_step (hs : s.step e = some (s', o)) (hp : s.server.objs[k]? = some p) :
    SessionStep e s' o k p := by
  cases step_path hs with
  | server t outs o hstep ho hh hm =>
    refine sessionStep_of_sends hstep (fun p hp => ⟨p, hp, .refl⟩) ?_ hp
    rw [deliveredOf, ho]
  | relay t t' r i bs p₁ cmd outs he hstep hp₁ hm hx =>
    have hrun := Machine.run_of_exec hx
    refine sessionStep_of_sends hstep (fun p hp => sent_sends hrun hp) ?_ hp
    rw [deliveredOf, serverOuts_relay, TcpServer.sessionOuts_append, TcpServer.sessionOuts_append]
    have hnil := deliveredOf_sends (k := k) hrun
    by_cases hrk : r = k <;> simp_all [sessionOuts, messages]

/-! ## The sessions there are -/

theorem length_objs_sends (hx : TcpServer.machine.Run t (sends t r m) t' outs) : t'.objs.length = t.objs.length := by
  refine (hx.inv (I := fun t₁ => t₁.objs.length = t.objs.length) (Q := fun _ => True) rfl
    fun {t₁ f t₂ o} hf h hs => ⟨?_, fun _ _ => trivial⟩).1
  obtain ⟨q, -, rfl⟩ := of_mem_sends hf
  have hs : t₁.step (.session q (.send .ref m)) = some (t₂, o) := hs
  rcases PooledServer.length_objs_of_step hs with ⟨⟨a, ha⟩, -⟩ | ⟨-, hlen⟩
  · cases ha
  · exact hlen.trans h

/-- Only a connection that is accepted makes a session. -/
theorem length_objs_of_step (hs : s.step e = some (s', o)) (hno : ∀ a, e ≠ .accept (.ok a)) :
    s'.server.objs.length = s.server.objs.length := by
  have hserver : ∀ {t : TcpServer} {outs : List TcpServer.Out}, s.server.step e.toServer = some (t, outs) →
      t.objs.length = s.server.objs.length := by
    intro t outs hstep
    rcases PooledServer.length_objs_of_step hstep with ⟨⟨a, ha⟩, -⟩ | ⟨-, hlen⟩
    · cases e with
      | accept res =>
        obtain rfl := TcpServer.Event.accept.inj ha
        exact absurd rfl (hno a)
      | readDone q i res => cases ha
      | writeDone q i ec => cases ha
    · exact hlen
  cases step_path hs with
  | server t outs o hstep => exact hserver hstep
  | relay t t' r i bs p cmd outs he hstep hp hm hx =>
    exact (length_objs_sends (Machine.run_of_exec hx)).trans (hserver hstep)

/-- A connection is accepted, and may be given a session, which waits for a header. -/
theorem objs_of_accept {a : Accepted} (hs : s.step (.accept (.ok a)) = some (s', o)) :
    (∀ k ≠ s.server.objs.length, sessionOuts k (serverOuts o) = []) ∧
      (s'.server.objs = s.server.objs ∨ ∃ p : TcpSession, s'.server.objs = s.server.objs ++ [p] ∧
        p.reads = [.header hdrLength] ∧ p.sendQue = [] ∧ sessionOuts s.server.objs.length (serverOuts o) =
          [.opened, .asyncRead (.header hdrLength)]) := by
  obtain ⟨⟨t, outs⟩, hstep, hc⟩ := Option.bind_eq_some_iff.1 hs
  have hpath := TcpServer.step_path (e := .accept (.ok a)) hstep
  cases hpath with
  | acceptRefused _ ha hfull =>
    obtain ⟨rfl, rfl⟩ := Prod.mk.inj (Option.some.inj hc)
    exact ⟨fun k hk => rfl, Or.inl rfl⟩
  | acceptOk _ id free ha hroom hf =>
    rw [callHandlers_of_not_message (by simp)] at hc
    obtain ⟨rfl, rfl⟩ := Prod.mk.inj (Option.some.inj hc)
    rw [serverOuts_map]
    refine ⟨fun k hk => by simp [sessionOuts, Ne.symm hk], Or.inr ⟨_, rfl, rfl, rfl, by simp [sessionOuts]⟩⟩

theorem handled_accept {a : Accepted} (hs : s.step (.accept (.ok a)) = some (s', o)) : handled o = [] := by
  have hpath := step_path hs
  cases hpath with
  | server t outs o hstep ho hh hm => exact hh
  | relay t t' r i bs p cmd outs he => cases he

/-- A session that is not there has done nothing, and nothing was relayed to it. -/
theorem absent_of_run (hr : machine.Run ((new config).start true) es s out) (hk : s.server.objs[k]? = none) :
    sessionOuts k (serverOuts out) = [] ∧ relayed k out = [] := by
  obtain ⟨fs, t, outs, hn, hR⟩ := mirrors_run hr
  obtain rfl := hR.server
  have hown : ∀ {fs t outs}, TcpServer.machine.Run (TcpServer.new config).listen fs t outs →
      (∀ f ∈ fs, f.Running) → TcpServer.OwnRun fs t outs k := by
    intro fs t outs hn hfs
    induction hn with
    | nil => exact ⟨fun p hp => by simp [TcpServer.listen, TcpServer.startAccept, TcpServer.new] at hp,
        fun _ => ⟨rfl, rfl⟩⟩
    | snoc _ hs ih =>
      exact TcpServer.ownRun_step (hfs _ (by simp)) (ih fun f hf => hfs f (List.mem_append_left _ hf)) hs
  obtain ⟨hevents, houts⟩ := (hown hn hR.running).absent hk
  rw [← hR.outs k, ← hR.sent k, hevents, houts]
  exact ⟨rfl, rfl⟩

/-! ## What is relayed to a session -/

/-- The chat messages of other sessions than `r` that are handled. -/
def others (r : Nat) (out : List Out) : List Msg := (handled out).filterMap fun h =>
  if h.1 = r then none else some h.2.1

@[simp] theorem others_append (out o : List Out) : others r (out ++ o) = others r out ++ others r o := by
  simp [others]

/-- The loop over the registry leaves the registry alone. -/
theorem registered_sends (hx : TcpServer.machine.Run t (sends t r m) t' outs) : registered t' = registered t := by
  refine (hx.inv (I := fun t₁ => registered t₁ = registered t) (Q := fun _ => True) rfl
    fun {t₁ f t₂ o} hf h hs => ⟨?_, fun _ _ => trivial⟩).1
  obtain ⟨q, -, rfl⟩ := of_mem_sends hf
  have hpath : TcpServer.Path t₁ (.session q (.send .ref m)) t₂ o := TcpServer.step_path hs
  cases hpath with
  | session _ _ p p' outs hp hps hf => exact h
  | sessionFails _ _ p p' reason hp hps hf => exact hf.elim

/-- A session that has been made is not registered later. -/
theorem registered_of_step {f : TcpServer.Event} (hs : t.step f = some (t', outs)) (hf : f.Running)
    (hr : r < t.objs.length) (hmem : r ∈ registered t') : r ∈ registered t := by
  cases TcpServer.step_path hs with
  | start => exact hf.elim
  | stop => exact hf.elim
  | acceptError ec ha => exact hmem
  | acceptRefused a ha hfull => exact hmem
  | stale res ha hres => exact hmem
  | session q ev p p' o hp hps hfails => exact hmem
  | acceptOk a id free ha hroom hfree =>
    obtain ⟨j, hj⟩ := mem_registered.1 hmem
    simp only [TcpServer.accepted, Std.TreeMap.getElem?_insertIfNew] at hj
    split at hj
    · obtain rfl := Option.some.inj hj
      exact absurd hr (Nat.lt_irrefl _)
    · exact mem_registered.2 ⟨j, hj⟩
  | sessionFails q ev p p' reason hp hps hfails =>
    obtain ⟨j, hj⟩ := mem_registered.1 hmem
    simp only [TcpServer.released, TcpServer.setObj, Std.TreeMap.getElem?_erase] at hj
    split at hj
    · cases hj
    · exact mem_registered.2 ⟨j, hj⟩

/-- What is handled is relayed to every session that is registered. -/
theorem relayed_step (hs : s.step e = some (s', o)) (hr : r < s.server.objs.length) :
    (r ∈ registered s.server → relayed r o = others r o) ∧
      (r ∉ registered s.server → relayed r o = [] ∧ r ∉ registered s'.server) := by
  cases step_path hs with
  | server t outs o hstep ho hh hm =>
    refine ⟨fun _ => by rw [relayed, others, hh]; rfl, fun hn => ⟨by rw [relayed, hh]; rfl, fun hmem => hn ?_⟩⟩
    exact registered_of_step hstep (toServer_running e) hr hmem
  | relay t t' q i bs p cmd outs he hstep hp hm hx =>
    subst he
    have hreg : registered t = registered s.server := registered_of_message hstep
    have hhandled : handled (.server (q, .message p.msg) :: .nfMessage q p.msg (registered t) :: .redis cmd ::
        outs.map .server ++ [.server (q, .asyncRead (.header hdrLength))]) = [(q, p.msg, registered s.server)] := by
      simp [handled, List.filterMap_map, hreg]
    rw [relayed, others, hhandled]
    refine ⟨fun hmem => ?_, fun hn => ⟨by simp [hn], ?_⟩⟩
    · by_cases hqr : q = r <;> simp [hqr, hmem]
    · rwa [registered_sends (Machine.run_of_exec hx), hreg]

/-- **What is relayed to a session** is the beginning of what is handled of the others since it was made, and all of it
while the session is registered. -/
theorem relayed_run (hr : machine.Run s es s' out) (hk : r < s.server.objs.length) :
    r < s'.server.objs.length ∧ relayed r out <+: others r out ∧
      (r ∈ registered s'.server → relayed r out = others r out) := by
  induction hr with
  | nil => exact ⟨hk, List.prefix_rfl, fun _ => rfl⟩
  | @snoc es s₁ out e s₂ o _ hs ih =>
    obtain ⟨hlt, hprefix, hwhole⟩ := ih
    obtain ⟨hin, hout⟩ := relayed_step hs hlt
    have hlt' : r < s₂.server.objs.length := by
      rcases session_of_step hs (List.getElem?_eq_getElem hlt) with ⟨_, _, p', _, -, -, hp', -⟩ | ⟨p', -, hp', -⟩
      · exact (List.getElem?_eq_some_iff.1 hp').1
      · exact (List.getElem?_eq_some_iff.1 hp').1
    by_cases hmem : r ∈ registered s₁.server
    · have heq : relayed r (out ++ o) = others r (out ++ o) := by
        rw [relayed_append, others_append, hwhole hmem, hin hmem]
      exact ⟨hlt', heq ▸ List.prefix_rfl, fun _ => heq⟩
    · obtain ⟨hnone, hgone⟩ := hout hmem
      refine ⟨hlt', ?_, fun hmem' => absurd hmem' hgone⟩
      rw [relayed_append, others_append, hnone, List.append_nil]
      exact hprefix.trans (List.prefix_append _ _)

end ChatServer

end Torinet
