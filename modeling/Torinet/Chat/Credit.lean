import Torinet.Chat.Frames
import Torinet.Chat.Relay
import Torinet.Lib.CString

/-!
# What a chat message is credited with

`nfMessage` takes the length of the text in the session's buffer, of which a message has only replaced the first
`bodyLength` bytes. So it is the length of the message's own text iff that text ends inside the message, or the byte
after the message happens to be zero (`credited_iff`). What a step sends to Redis depends on the message in the buffer
alone (`commands_step`).
-/

namespace Torinet

open Lib

/-! ## Lengths of texts -/

section Texts

variable {bs rest old : List UInt8} {k : Nat}

/-- `strlen` of a text that is followed by something: its own length iff it has a terminator, or gets one there. -/
theorem strlen_append_iff : strlen (bs ++ rest) = some (cString bs).length ↔ 0 ∈ bs ∨ rest.head? = some 0 := by
  induction bs with
  | nil =>
    cases rest with
    | nil => simp [strlen]
    | cons b rest =>
      by_cases hb : b = 0 <;> simp [strlen, List.findIdx?_cons, hb]
  | cons b bs ih =>
    by_cases hb : b = 0
    · subst hb
      simp [strlen, List.findIdx?_cons]
    · have hlen : strlen (b :: (bs ++ rest)) = (strlen (bs ++ rest)).map (· + 1) := by
        simp [strlen, List.findIdx?_cons, hb]
      rw [List.cons_append, hlen, cString_cons_of_ne hb, List.length_cons, Option.map_eq_some_iff]
      simp only [Nat.add_right_cancel_iff, exists_eq_right, ih, List.mem_cons, Ne.symm hb, false_or]

/-- The same in a buffer whose start has been replaced. -/
theorem strlen_overwrite_iff (h : bs.length ≤ old.length) :
    strlen (overwrite old bs) = some (cString bs).length ↔ 0 ∈ bs ∨ old[bs.length]? = some 0 := by
  rw [overwrite, List.take_of_length_le h, strlen_append_iff, List.head?_drop]

end Texts

namespace ChatServer

variable {config : ServerConfig} {s s' : ChatServer} {e : Event} {es : List Event} {out o : List Out}
  {t t' : TcpServer} {r i n : Nat} {p : TcpSession} {b : List UInt8}

/-! ## Commands -/

/-- The commands sent to Redis. -/
def commands (out : List Out) : List (Option RedisCommand) := out.filterMap fun
  | .redis cmd => some cmd
  | _ => none

/-- What is sent to Redis for the message in the buffer of a session. -/
def commandsFor (p : TcpSession) : List (Option RedisCommand) :=
  if p.msg.msgId = MsgId.rqCreateUser.val then [some (.zadd "user:ranking" 0 (member p))]
  else if p.msg.msgId = MsgId.nfMessage.val then
    [(strlen p.msg.body.bytes).map fun n => .zincrby "user:ranking" n (member p)]
  else []

@[simp] theorem commands_append (out o : List Out) : commands (out ++ o) = commands out ++ commands o := by
  simp [commands]

@[simp] theorem commands_map (o : List TcpServer.Out) : commands (o.map .server) = [] := by
  simp [commands, List.filterMap_map]

/-- The message handler sends what is sent for the message in the buffer. -/
theorem commands_messageHandler {o : List Out} (hp : s.server.objs[r]? = some p)
    (h : s.messageHandler r = some (s', o)) : commands o = commandsFor p := by
  simp only [messageHandler, hp] at h
  unfold commandsFor
  split at h
  · rename_i hid
    obtain ⟨rfl, rfl⟩ := Prod.mk.inj (Option.some.inj h)
    rw [if_pos hid]
    rfl
  · rename_i hid
    rw [if_neg hid]
    split at h
    · rename_i hid'
      obtain ⟨⟨u, outs⟩, hx, heq⟩ := Option.map_eq_some_iff.1 h
      obtain ⟨rfl, rfl⟩ := Prod.mk.inj heq
      rw [if_pos hid']
      exact congrArg (List.cons _) (commands_map outs)
    · rename_i hid'
      obtain ⟨rfl, rfl⟩ := Prod.mk.inj (Option.some.inj h)
      rw [if_neg hid']
      rfl

/-- **What a step sends to Redis**: nothing, unless it delivers a message. -/
theorem commands_step (hs : s.step e = some (s', o)) :
    (∃ t outs, s.server.step e.toServer = some (t, outs) ∧ (∀ r m, (r, .message m) ∉ outs) ∧ commands o = []) ∨
    ∃ t r i b p, e = .readDone r i (.ok b) ∧
      s.server.step e.toServer = some (t, [(r, .message p.msg), (r, .asyncRead (.header hdrLength))]) ∧
      t.objs[r]? = some p ∧ commands o = commandsFor p := by
  obtain ⟨⟨t, outs⟩, hstep, hc⟩ := Option.bind_eq_some_iff.1 hs
  by_cases hm : ∃ r m, (r, .message m) ∈ outs
  · obtain ⟨r, m, hm⟩ := hm
    obtain ⟨i, b, p, he, hp, rfl, rfl⟩ := TcpServer.outs_of_message hstep hm
    have he : ∃ i, e = .readDone r i (.ok b) := by
      cases e <;> simp [Event.toServer] at he
      exact ⟨_, by rw [he.1, he.2.2]⟩
    obtain ⟨i, rfl⟩ := he
    rw [callHandlers_message] at hc
    obtain ⟨⟨u, o'⟩, hmh, heq⟩ := Option.map_eq_some_iff.1 hc
    obtain ⟨rfl, rfl⟩ := Prod.mk.inj heq
    refine Or.inr ⟨t, r, i, b, p, rfl, hstep, hp, ?_⟩
    rw [← commands_messageHandler hp hmh]
    have hread : commands [.server (r, .asyncRead (.header hdrLength))] = [] := rfl
    rw [commands_append, hread, List.append_nil]
    rfl
  · push Not at hm
    rw [callHandlers_of_not_message hm] at hc
    obtain ⟨rfl, rfl⟩ := Prod.mk.inj (Option.some.inj hc)
    exact Or.inl ⟨t, outs, hstep, hm, commands_map outs⟩

/-! ## Chat messages that are received in full -/

/-- In a run, the registry holds sessions that have been accepted. -/
theorem registry_of_run (hr : machine.Run ((new config).start true) es s out) :
    ∃ outs, TcpServer.Registry config s.server outs := by
  obtain ⟨fs, t, outs, hn, hR⟩ := mirrors_run hr
  obtain rfl := hR.server
  exact ⟨outs, TcpServer.registry_run hn hR.running⟩

/-- The message handler is always defined in a run. -/
theorem messageHandler_isSome (hp : t.objs[r]? = some p) (hnd : (registered t).Nodup)
    (hreg : ∀ q ∈ registered t, ∃ p, t.objs[q]? = some p) :
    ∃ s' o, (⟨t⟩ : ChatServer).messageHandler r = some (s', o) := by
  simp only [messageHandler, hp]
  split
  · exact ⟨_, _, rfl⟩
  · split
    · obtain ⟨t', outs, hx, -⟩ := exec_sends p.msg (hnd.filter fun it => r ≠ it) fun q hq =>
        hreg q (List.mem_filter.1 hq).1
      exact ⟨_, _, by rw [nfMessage, sends, hx, Option.map_some]⟩
    · exact ⟨_, _, rfl⟩

/-- A body received in full is handled, whatever the message. -/
theorem step_of_body (hr : machine.Run ((new config).start true) es s out) (hp : s.server.objs[r]? = some p)
    (hreads : p.reads = [.body n]) (hb : b.length = n) (hn : n ≤ maxCpMsgData) :
    ∃ s' o p', s.step (.readDone r 0 (.ok b)) = some (s', o) ∧ p'.msg = p.msg.storeBody b ∧ p'.id = p.id ∧
      commands o = commandsFor p' := by
  obtain ⟨outs, hreg⟩ := registry_of_run hr
  obtain ⟨rx, hps⟩ := TcpSession.step_body p b hreads hb hn
  generalize hp' : ({ p with msg := p.msg.storeBody b, rx := rx, reads := [.header hdrLength] } : TcpSession) = p' at hps
  have hlt := (List.getElem?_eq_some_iff.1 hp).1
  have hstep : s.server.step (.session r (.readDone 0 (.ok b))) = some (s.server.setObj r p',
      [(r, .message (p.msg.storeBody b)), (r, .asyncRead (.header hdrLength))]) := by
    simp [TcpServer.step, TcpServer.sessionStep, hp, hps, TcpServer.callHandler, TcpServer.setObj]
  have hobj : (s.server.setObj r p').objs[r]? = some p' := List.getElem?_set_self hlt
  have hmem : ∀ q ∈ registered (s.server.setObj r p'), ∃ p, (s.server.setObj r p').objs[q]? = some p := by
    intro q hq
    obtain ⟨id, hid⟩ := mem_registered.1 hq
    have hlt' : q < (s.server.setObj r p').objs.length :=
      (TcpServer.lt_of_sessionId (hreg.key id q hid)).trans_eq List.length_set.symm
    exact ⟨_, List.getElem?_eq_getElem hlt'⟩
  obtain ⟨s', o, hm⟩ := messageHandler_isSome hobj hreg.nodup_values hmem
  refine ⟨s', .server (r, .message (p.msg.storeBody b)) :: o ++ [.server (r, .asyncRead (.header hdrLength))], p', ?_,
    by rw [← hp'], by rw [← hp'], ?_⟩
  · rw [step, Event.toServer, hstep, Option.bind_some, callHandlers_message, hm, Option.map_some]
  · rw [← commands_messageHandler hobj hm, commands_append]
    exact List.append_nil _

/-- **When a message is credited by its own bytes**: in any state of a chat server, for a chat message whose header has
been read and whose body of `n` bytes arrives in full, the increment is the length of the message's text, iff the
message has a zero byte, or the byte after it in the buffer is zero. -/
theorem credited_iff (hr : machine.Run ((new config).start true) es s out) (hp : s.server.objs[r]? = some p)
    (hreads : p.reads = [.body n]) (hid : p.msg.msgId = MsgId.nfMessage.val) (hn : n ≤ maxCpMsgData)
    (hb : b.length = n) :
    ∃ s' o, s.step (.readDone r 0 (.ok b)) = some (s', o) ∧
      (commands o = [some (.zincrby "user:ranking" (cString b).length (member p))] ↔
        0 ∈ b ∨ p.msg.body.bytes[n]? = some 0) := by
  obtain ⟨s', o, p', hs, hmsg, hpid, hcmd⟩ := step_of_body hr hp hreads hb hn
  have hid' : p'.msg.msgId = MsgId.nfMessage.val := by
    rw [hmsg]
    exact hid
  have hne : p'.msg.msgId ≠ MsgId.rqCreateUser.val := by
    rw [hid']
    decide
  have hmember : member p' = member p := by rw [member, hpid, member]
  refine ⟨s', o, hs, ?_⟩
  rw [hcmd, commandsFor, if_neg hne, if_pos hid', hmember, hmsg, ← hb,
    ← strlen_overwrite_iff (by rw [Block.length_bytes, hb]; exact hn)]
  simp only [List.cons.injEq, and_true, Msg.storeBody, Block.bytes_store]
  cases strlen (overwrite p.msg.body.bytes b) <;> simp

/-- A client says "hello" and then "hi", without terminators. -/
def helloHi : List Event :=
  [.accept (.ok .loopback), .readDone 0 0 (.ok [1, 0, 5, 0, 3, 0, 0, 0]), .readDone 0 0 (.ok [104, 101, 108, 108, 111]),
    .readDone 0 0 (.ok [1, 0, 2, 0, 3, 0, 0, 0])]

/-- For "hi" it is credited with "hillo". -/
theorem helloHi_not_credited : ∃ (s : ChatServer) (out : List Out) (p : TcpSession) (s' : ChatServer) (o : List Out),
    machine.Run ((new ⟨1⟩).start true) helloHi s out ∧ s.server.objs[0]? = some p ∧ p.reads = [.body 2] ∧
      p.msg.msgId = MsgId.nfMessage.val ∧ s.step (.readDone 0 0 (.ok [104, 105])) = some (s', o) ∧
      (cString [104, 105]).length = 2 ∧ commands o = [some (.zincrby "user:ranking" 5 "session_1")] :=
  ⟨_, _, _, _, _, Machine.run_of_exec rfl, rfl, rfl, rfl, rfl, rfl, by decide +kernel⟩

theorem credited_iff_helloHi : ∃ (s s' : ChatServer) (out o : List Out),
    machine.Run ((new ⟨1⟩).start true) helloHi s out ∧ s.step (.readDone 0 0 (.ok [104, 0])) = some (s', o) ∧
      commands o = [some (.zincrby "user:ranking" 1 "session_1")] := by
  have hr : ∃ (s : ChatServer) (out : List Out) (p : TcpSession), machine.Run ((new ⟨1⟩).start true) helloHi s out ∧
      s.server.objs[0]? = some p ∧ p.reads = [.body 2] ∧ p.msg.msgId = MsgId.nfMessage.val ∧ member p = "session_1" :=
    ⟨_, _, _, Machine.run_of_exec rfl, rfl, rfl, rfl, by decide⟩
  obtain ⟨s, out, p, hr, hp, hreads, hid, hmember⟩ := hr
  obtain ⟨s', o, hs, hiff⟩ := credited_iff (b := [104, 0]) hr hp hreads hid (by decide) rfl
  exact ⟨s, s', out, o, hr, hs, hmember ▸ hiff.2 (Or.inl (by decide))⟩

end ChatServer

end Torinet
