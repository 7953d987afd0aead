import Torinet.ChatProgram
import Torinet.Client.Acts
import Torinet.Server.Sessions
import Torinet.Session.Send

/-!
# All clients of a program say the same

A line makes every client of a program send the same bytes, `frame`, whatever is in the memory of the messages
(`readLine_spec`). So each of them has handed to its socket the frames of the lines that were read, in order, up to the
first one whose write has not completed (`same_frames`): whenever it was started, and whatever happens to the others.
-/

namespace Torinet

open Lib

namespace ChatClient

open TcpServer (sessionOuts)
open Torinet.System (Act act)

variable {s s' : ChatClient} {boostSplit : List UInt8 → SplitVector} {mem : Nat → Msg} {str word : List UInt8}
  {f : Nat → Client → Option (Client × List TcpSession.Out)} {outs : List Out} {client : Client} {m : Msg}

/-! ## What a line makes a client send -/

/-- The body that is sent for what a line asks for. -/
def body : Act → MsgId × List UInt8
  | .create => (.rqCreateUser, (RqCreateUser.new.id.store (ascii "0" ++ [0])).bytes)
  | .say text => (.nfMessage, (chatBody text).bytes)

/-- The bytes that are sent for what a line asks for. -/
def frame (a : Act) : List UInt8 := (Msg.header (body a).1 .noneCode (body a).2.length).toBytes ++ (body a).2

example : frame .create = [1, 0, 36, 0, 1, 0, 0, 0] ++ 48 :: List.replicate 35 0 := by decide +kernel

/-- A body structure is sent as its frame. -/
theorem wire_of_block {n : Nat} (b : Block n) (hn : n ≤ maxCpMsgData) (msgId : MsgId) (mem : Msg)
    (he : mem.encodeMsgNoResult msgId (some b.bytes) n = some m) :
    m.wire = (Msg.header msgId .noneCode b.bytes.length).toBytes ++ b.bytes := by
  obtain ⟨m', he', hin, hhdr, hp⟩ := Msg.encode_block b hn msgId mem
  obtain rfl := Option.some.inj (he.symm.trans he')
  rw [Msg.wire_eq hin, hhdr, hp, b.length_bytes]

theorem createUser_spec (mem : Msg) (client : Client) :
    ∃ m, createUser mem client = some (client.send m) ∧ m.wire = frame .create := by
  obtain ⟨m, hm, -⟩ := createUser_eq mem client
  refine ⟨m, hm, ?_⟩
  have hid : ascii (toString client.session.id) = ascii "0" := by
    rw [client.id_eq]
    rfl
  have hcpy : (RqCreateUser.new.id).strcpy (ascii "0") = some (RqCreateUser.new.id.store (ascii "0" ++ [0])) := by
    rw [Block.strcpy, if_pos (by decide)]
    rfl
  unfold createUser at hm
  simp only [hid, hcpy, Option.bind_some] at hm
  obtain ⟨m', he, hsend⟩ := Option.map_eq_some_iff.1 hm
  obtain rfl : m' = m := System.sendRef_inj (congrArg (fun x => x.1.session) hsend)
  exact wire_of_block _ (by decide) .rqCreateUser mem he

theorem sendMessge_spec {split : SplitVector} (hword : split[1]? = some word)
    {r : Client × List TcpSession.Out} {mem : Msg} (hs : sendMessge split mem client = some r) :
    ∃ m, r = client.send m ∧ m.wire = frame (.say (cString word)) := by
  unfold sendMessge at hs
  simp only [hword] at hs
  obtain ⟨b, hb, hs⟩ := Option.bind_eq_some_iff.1 hs
  obtain ⟨m, he, rfl⟩ := Option.map_eq_some_iff.1 hs
  refine ⟨m, rfl, ?_⟩
  unfold Block.strcpy at hb
  simp only [Option.ite_none_right_eq_some, Option.some.injEq] at hb
  obtain ⟨-, rfl⟩ := hb
  exact wire_of_block _ (by decide) .nfMessage mem he

/-- **The loop over the clients** does with each of them what its body does. -/
theorem eachClient_spec : ∀ {i : Nat} {clients clients' : List Client} {outs : List Out},
    eachClient f i clients = some (clients', outs) → clients'.length = clients.length ∧
      (∀ k < i, sessionOuts k outs = []) ∧ ∀ j c, clients[j]? = some c → ∃ c', clients'[j]? = some c' ∧
        f (i + j) c = some (c', sessionOuts (i + j) outs)
  | i, [], clients', outs, h => by
    obtain ⟨rfl, rfl⟩ := Prod.mk.inj (Option.some.inj h)
    exact ⟨rfl, fun _ _ => rfl, fun j c hj => by simp at hj⟩
  | i, client :: clients, clients', outs, h => by
    obtain ⟨⟨c₁, o₁⟩, h₁, h⟩ := Option.bind_eq_some_iff.1 h
    obtain ⟨⟨cs, os⟩, h₂, heq⟩ := Option.map_eq_some_iff.1 h
    obtain ⟨rfl, rfl⟩ := Prod.mk.inj heq
    obtain ⟨hlen, hbefore, hall⟩ := eachClient_spec h₂
    refine ⟨by simp [hlen], fun k hk => ?_, fun j c hj => ?_⟩
    · rw [TcpServer.sessionOuts_append, TcpServer.sessionOuts_map_ne (by omega), hbefore k (by omega)]
      rfl
    · cases j with
      | zero =>
        obtain rfl : client = c := by simpa using hj
        refine ⟨c₁, rfl, ?_⟩
        rw [Nat.add_zero, TcpServer.sessionOuts_append, TcpServer.sessionOuts_map_self, hbefore i (by omega),
          List.append_nil]
        exact h₁
      | succ j =>
        obtain ⟨c', hc', hf⟩ := hall j c (by simpa using hj)
        refine ⟨c', by simpa using hc', ?_⟩
        rw [show i + (j + 1) = i + 1 + j by omega, TcpServer.sessionOuts_append,
          TcpServer.sessionOuts_map_ne (by omega), List.nil_append]
        exact hf

/-- What a client has done for a line that asks for the given. -/
def Did (a : Option Act) (c c' : Client) (outs : List TcpSession.Out) : Prop :=
  match a with
  | none => c'.session = c.session ∧ outs = []
  | some a => ∃ m : Msg, m.wire = frame a ∧ c'.session = (c.session.sendRef m).1 ∧ outs = (c.session.sendRef m).2

theorem lookup_create {w : List UInt8} (h : table.lookup w = some .cmdCreateUser) : w = ascii "create" := by
  by_contra hcreate
  simp only [table, List.lookup_cons, beq_eq_false_iff_ne.2 hcreate, List.lookup_nil] at h
  split at h
  · cases h
  · split at h <;> cases h

/-- A line that asks for nothing leaves the sessions of the clients alone. -/
theorem readLine_none (h : Tokens isBlank str (boostSplit str)) (hcreate : name str ≠ ascii "create")
    (hsend : name str ≠ ascii "send") (hr : s.readLine boostSplit mem str = some (s', outs)) : outs = [] ∧
      s'.clientVec.length = s.clientVec.length ∧
      ∀ (i : Nat) (c : Client), s.clientVec[i]? = some c →
        ∃ c', s'.clientVec[i]? = some c' ∧ c'.session = c.session := by
  rcases readLine_cases s mem h with ⟨b, hr', -⟩ | ⟨command, hlookup, hr'⟩
  · obtain ⟨rfl, rfl⟩ := Prod.mk.inj (Option.some.inj (hr'.symm.trans hr))
    exact ⟨rfl, rfl, fun i c hi => ⟨c, hi, rfl⟩⟩
  · cases command with
    | cmdCreateUser => exact absurd (lookup_create hlookup) hcreate
    | cmdSendMessge => exact absurd (lookup_send hlookup) hsend
    | cmdStop =>
      obtain ⟨rfl, rfl⟩ := Prod.mk.inj (Option.some.inj (hr'.symm.trans hr))
      refine ⟨rfl, List.length_map _, fun i c hi => ⟨c.stop, ?_, rfl⟩⟩
      rw [List.getElem?_map, hi]
      rfl

/-- **What a line does**: every client sends what it asks for. -/
theorem readLine_spec (h : Tokens isBlank str (boostSplit str)) (hr : s.readLine boostSplit mem str = some (s', outs)) :
    s'.clientVec.length = s.clientVec.length ∧
      ∀ (i : Nat) (c : Client), s.clientVec[i]? = some c →
        ∃ c', s'.clientVec[i]? = some c' ∧ Did (act str) c c' (sessionOuts i outs) := by
  by_cases hcreate : name str = ascii "create"
  · have hact : act str = some .create := if_pos hcreate
    have hlookup : table.lookup (name str) = some .cmdCreateUser := by
      rw [hcreate]
      decide
    rw [readLine_of_lookup h hlookup] at hr
    obtain ⟨⟨clients, outs⟩, heach, heq⟩ := Option.map_eq_some_iff.1 hr
    obtain ⟨rfl, rfl⟩ := Prod.mk.inj heq
    obtain ⟨hlen, -, hall⟩ := eachClient_spec heach
    refine ⟨hlen, ?_⟩
    intro i c hi
    obtain ⟨c', hc', hf⟩ := hall i c hi
    obtain ⟨m, hm, hwire⟩ := createUser_spec (mem (0 + i)) c
    obtain ⟨rfl, houts⟩ := Prod.mk.inj (Option.some.inj (hm.symm.trans hf))
    rw [Nat.zero_add] at houts
    rw [hact, ← houts]
    exact ⟨_, hc', m, hwire, rfl, rfl⟩
  · by_cases hsend : name str = ascii "send"
    · have hact : act str = some (.say (cString (argument str))) := by
        have hsaid : System.said str = some (cString (argument str)) := if_pos hsend
        rw [act, if_neg hcreate, hsaid]
        rfl
      rw [readLine_of_send h hsend] at hr
      obtain ⟨⟨clients, outs⟩, heach, heq⟩ := Option.map_eq_some_iff.1 hr
      obtain ⟨rfl, rfl⟩ := Prod.mk.inj heq
      obtain ⟨hlen, -, hall⟩ := eachClient_spec heach
      refine ⟨hlen, ?_⟩
      intro i c hi
      obtain ⟨c', hc', hf⟩ := hall i c hi
      obtain ⟨word, hword, -⟩ := (sendMessge_isSome_iff (mem (0 + i)) c).1 ⟨_, hf⟩
      obtain ⟨m, hm, hwire⟩ := sendMessge_spec hword hf
      obtain ⟨rfl, houts⟩ := Prod.mk.inj hm
      have hargument : word = argument str := by
        rw [(words_of_tokens h).2] at hword
        split at hword
        · cases hword
        · exact (Option.some.inj hword).symm
      rw [Nat.zero_add] at houts
      rw [hact, houts]
      exact ⟨_, hc', m, by rw [hwire, hargument], rfl, rfl⟩
    · have hact : act str = none := by
        rw [act, if_neg hcreate, System.said, if_neg hsend]
        rfl
      obtain ⟨rfl, hlen, hall⟩ := readLine_none h hcreate hsend hr
      refine ⟨hlen, ?_⟩
      intro i c hi
      obtain ⟨c', hc', hsession⟩ := hall i c hi
      rw [hact]
      exact ⟨c', hc', hsession, rfl⟩

end ChatClient

namespace ChatProgram

open ChatClient (frame)
open TcpServer (sessionOuts)
open TcpSession (sentMsgs written)
open Torinet.System (act)

variable {boostSplit : List UInt8 → SplitVector} {s s' : ChatProgram} {e : Event} {es : List Event}
  {out o : List ChatClient.Out} {i : Nat} {ep : Endpoint} {mem : TcpSession.Memory} {mems : List TcpSession.Memory}
  {c c' : Client}

/-- The frames of the lines that are read. -/
def frames (es : List Event) : List (List UInt8) := es.filterMap fun
  | .readLine _ str => (act str).map frame
  | _ => none

@[simp] theorem frames_append (es es' : List Event) : frames (es ++ es') = frames es ++ frames es' := by
  simp [frames]

/-- The client `i` has sent the frames of the lines, in a run of its session. -/
def Follows (ep : Endpoint) (mem : TcpSession.Memory) (es : List Event) (s : ChatProgram) (out : List ChatClient.Out)
    (i : Nat) : Prop :=
  ∃ c evs, s.chat.clientVec[i]? = some c ∧
    TcpSession.machine.Run (.new 0 ep mem) evs c.session (sessionOuts i out) ∧
    (sentMsgs evs).map Msg.wire = frames es

theorem follows_new (hi : mems[i]? = some mem) : Follows ep mem [] (new ep mems) [] i := by
  refine ⟨Client.new ep mem, [], ?_, Machine.Run.nil, rfl⟩
  show (mems.map (Client.new ep))[i]? = _
  rw [List.getElem?_map, hi]
  rfl

/-- Nothing has happened to the client, and no line has been read. -/
theorem Follows.frame (h : Follows ep mem es s out i) (hc : s'.chat.clientVec[i]? = s.chat.clientVec[i]?)
    (hout : sessionOuts i o = []) (he : frames [e] = []) : Follows ep mem (es ++ [e]) s' (out ++ o) i := by
  obtain ⟨c, evs, hi, hr, hsent⟩ := h
  refine ⟨c, evs, hc.trans hi, ?_, ?_⟩
  · rwa [TcpServer.sessionOuts_append, hout, List.append_nil]
  · rw [frames_append, he, List.append_nil, hsent]

/-- Something has happened to the client, but it has sent nothing. -/
theorem Follows.snoc {ev : TcpSession.Event} {outs : List TcpSession.Out} (h : Follows ep mem es s out i)
    (hi : s.chat.clientVec[i]? = some c) (hs : c.session.step ev = some (c'.session, outs))
    (hi' : s'.chat.clientVec[i]? = some c') (hout : sessionOuts i o = outs) (he : frames [e] = [])
    (hev : sentMsgs [ev] = []) : Follows ep mem (es ++ [e]) s' (out ++ o) i := by
  obtain ⟨c₁, evs, hi₁, hr, hsent⟩ := h
  obtain rfl := Option.some.inj (hi₁.symm.trans hi)
  refine ⟨c', evs ++ [ev], hi', ?_, ?_⟩
  · rw [TcpServer.sessionOuts_append, hout]
    exact hr.snoc hs
  · have hmsgs : sentMsgs (evs ++ [ev]) = sentMsgs evs ++ sentMsgs [ev] := List.filterMap_append
    rw [hmsgs, hev, frames_append, he, List.append_nil, List.append_nil, hsent]

theorem session_stopIdle (c : Client) : (stopIdle c).session = c.session := by
  unfold stopIdle
  split
  · rfl
  · rfl

/-- A step of one client. -/
theorem Follows.set {k : Nat} {b : Nat → Bool} {ev : TcpSession.Event} {outs : List TcpSession.Out} {c'' : Client}
    (h : Follows ep mem es s out i) (hk : s.chat.clientVec[k]? = some c)
    (hs : c.sessionStep ev = some (c', outs)) (hc : c''.session = c'.session) (he : frames [e] = [])
    (hev : sentMsgs [ev] = []) :
    Follows ep mem (es ++ [e]) { s.setClient k c'' with started := b } (out ++ outs.map fun x => (k, x)) i := by
  by_cases hik : k = i
  · subst hik
    have hstep : c.session.step ev = some (c''.session, outs) := by
      rw [hc]
      exact (Client.sessionStep_iff.1 hs).1
    refine h.snoc hk hstep ?_ (TcpServer.sessionOuts_map_self outs) he hev
    exact List.getElem?_set_self (List.getElem?_eq_some_iff.1 hk).1
  · exact h.frame (List.getElem?_set_ne hik) (TcpServer.sessionOuts_map_ne hik outs) he

/-- A handler runs. -/
theorem Follows.handle {k : Nat} {ev : TcpSession.Event} (h : Follows ep mem es s out i)
    (hs : s.handle k ev = some (s', o)) (he : frames [e] = []) (hev : sentMsgs [ev] = []) :
    Follows ep mem (es ++ [e]) s' (out ++ o) i := by
  obtain ⟨c, hk, hs⟩ := Option.bind_eq_some_iff.1 hs
  simp only [Option.ite_none_right_eq_some] at hs
  obtain ⟨⟨c', outs⟩, hstep, heq⟩ := Option.map_eq_some_iff.1 hs.2
  obtain ⟨rfl, rfl⟩ := Prod.mk.inj heq
  exact h.set hk hstep (session_stopIdle c') he hev

/-- A line is read. -/
theorem Follows.readLine {m : Nat → Msg} {str : List UInt8} {chat : ChatClient} (h : Follows ep mem es s out i)
    (hsplit : Tokens ChatClient.isBlank str (boostSplit str))
    (hs : s.chat.readLine boostSplit m str = some (chat, o)) :
    Follows ep mem (es ++ [.readLine m str]) { s with chat := chat } (out ++ o) i := by
  obtain ⟨c, evs, hi, hr, hsent⟩ := h
  obtain ⟨-, hall⟩ := ChatClient.readLine_spec hsplit hs
  obtain ⟨c', hi', hdid⟩ := hall i c hi
  have h : Follows ep mem es s out i := ⟨c, evs, hi, hr, hsent⟩
  cases hact : act str with
  | none =>
    rw [hact] at hdid
    obtain ⟨hsession, houts⟩ := hdid
    refine ⟨c', evs, hi', ?_, ?_⟩
    · rwa [TcpServer.sessionOuts_append, houts, List.append_nil, hsession]
    · rw [frames_append, hsent]
      simp [frames, hact]
  | some a =>
    rw [hact] at hdid
    obtain ⟨msg, hwire, hsession, houts⟩ := hdid
    refine ⟨c', evs ++ [.send .ref msg], hi', ?_, ?_⟩
    · rw [TcpServer.sessionOuts_append, houts, hsession]
      exact hr.snoc rfl
    · have hmsgs : sentMsgs (evs ++ [.send .ref msg]) = sentMsgs evs ++ [msg] := by simp [sentMsgs]
      rw [hmsgs, frames_append, List.map_append, hsent]
      simp [frames, hact, hwire]

/-- **A step keeps it.** -/
theorem Follows.step (hsplit : ∀ str, Tokens ChatClient.isBlank str (boostSplit str)) (h : Follows ep mem es s out i)
    (hs : s.step boostSplit e = some (s', o)) : Follows ep mem (es ++ [e]) s' (out ++ o) i := by
  cases e with
  | startRx k =>
    simp only [ChatProgram.step, ChatProgram.startRx, Option.ite_none_left_eq_some] at hs
    obtain ⟨c, hk, hs⟩ := Option.bind_eq_some_iff.1 hs.2
    obtain ⟨⟨c', outs⟩, hstep, heq⟩ := Option.map_eq_some_iff.1 hs
    obtain ⟨rfl, rfl⟩ := Prod.mk.inj heq
    exact h.set hk hstep rfl rfl rfl
  | readLine m str =>
    simp only [ChatProgram.step, Option.ite_none_left_eq_some] at hs
    obtain ⟨⟨chat, outs⟩, hr, heq⟩ := Option.map_eq_some_iff.1 hs.2
    obtain ⟨rfl, rfl⟩ := Prod.mk.inj heq
    exact h.readLine (hsplit str) hr
  | connectDone k ec => exact h.handle hs rfl rfl
  | readDone k j res => exact h.handle hs rfl rfl
  | writeDone k j ec => exact h.handle hs rfl rfl

theorem follows_run (hsplit : ∀ str, Tokens ChatClient.isBlank str (boostSplit str)) (hi : mems[i]? = some mem)
    (hr : (machine boostSplit).Run (new ep mems) es s out) : Follows ep mem es s out i := by
  induction hr with
  | nil => exact follows_new hi
  | snoc _ hs ih => exact ih.step hsplit hs

/-- **All clients say the same**: in every run of a program, whatever connects, completes or fails, each client has
handed to its socket the frames of the lines that were read, in order, up to the first one whose write has not
completed; those behind the completed ones are its queue. -/
theorem same_frames (hsplit : ∀ str, Tokens ChatClient.isBlank str (boostSplit str))
    (hr : (machine boostSplit).Run (new ep mems) es s out) (hi : i < mems.length) :
    ∃ c, s.chat.clientVec[i]? = some c ∧
      written (sessionOuts i out) = ((frames es).take (c.session.front + 1)).flatten ∧
      c.session.sendQue.map Msg.wire = (frames es).drop c.session.front := by
  obtain ⟨c, evs, hc, hrun, hsent⟩ := follows_run hsplit (List.getElem?_eq_getElem hi) hr
  have hsends := TcpSession.sends_run hrun
  have hmsgs := TcpSession.sent_outbox evs
  refine ⟨c, hc, ?_, ?_⟩
  · rw [hsends.bytes, hsends.front, ← hsent, ← hmsgs, Outbox.handed, List.flatMap_def, List.map_take]
  · rw [hsends.queue, hsends.front, ← hsent, ← hmsgs, Outbox.queue, List.map_drop]

/-- Two clients, one of which starts late and cannot connect. -/
def twoStart : List Event :=
  [.startRx 0, .connectDone 0 none, .readLine (fun _ => .zero) (ascii "create"), .writeDone 0 0 none,
    .readLine (fun _ => .zero) (ascii "send hi"), .startRx 1, .connectDone 1 (some (.other 111)),
    .readLine (fun _ => .zero) (ascii "quit")]

theorem same_frames_twoStart : ∃ s out c,
    (machine (split ChatClient.isBlank)).Run (new ⟨"127.0.0.1", 20000⟩ [.zero, .zero]) twoStart s out ∧
    s.chat.clientVec[0]? = some c ∧ written (sessionOuts 0 out) = (frames twoStart).flatten := by
  have hsome : ((machine (split ChatClient.isBlank)).exec (new ⟨"127.0.0.1", 20000⟩ [.zero, .zero]) twoStart).map
      (fun x => x.1.chat.clientVec.map fun c => c.session.front) = some [1, 0] := by
    decide +kernel
  obtain ⟨⟨s, out⟩, hx, hfronts⟩ := Option.map_eq_some_iff.1 hsome
  have hr := Machine.run_of_exec hx
  obtain ⟨c, hc, hwritten, -⟩ := same_frames (i := 0) (tokens_split _) hr (by decide)
  have hfront : c.session.front = 1 := by
    have hmap := congrArg (fun l => l[0]?) hfronts
    simpa [hc] using hmap
  refine ⟨s, out, c, hr, hc, ?_⟩
  rw [hwritten, hfront, List.take_of_length_le (by decide)]

end ChatProgram

end Torinet
