import Torinet.ChatClient
import Torinet.Lib.Tokens
import Torinet.Message.Codes

/-!
# The command line is total

Of the commands only `send` takes an argument, which it takes for granted: a line is safe iff no client is there to send
it, or its first word is not `send`, or there is a second one whose text, with its terminator, fits into `NfMessage`
(`total_iff`). The words are those of the line (`Lib/Tokens.lean`), whatever its blanks.
-/

namespace Torinet

open Lib

/-! ## Encoding a body structure -/

/-- A body structure is encoded whole. -/
theorem Msg.encode_block {n : Nat} (b : Block n) (hn : n ≤ maxCpMsgData) (msgId : MsgId) (mem : Msg) :
    ∃ m, mem.encodeMsgNoResult msgId (some b.bytes) n = some m ∧ m.InRange ∧ m.hdr = header msgId .noneCode n ∧
      m.payload = b.bytes := by
  have hlen := b.length_bytes
  obtain ⟨m, he, hhdr, -, hp⟩ := Content.encode_spec ⟨msgId, .noneCode, b.bytes, by omega⟩ mem
  have hin := (Content.wire_encode he).1
  simp only [Content.encode, hlen] at he hhdr
  exact ⟨m, he, hin, hhdr, hp⟩

namespace ChatClient

variable {s : ChatClient} {client : Client} {boostSplit : List UInt8 → SplitVector} {mem : Nat → Msg}
  {f : Nat → Client → Option (Client × List TcpSession.Out)} {str : List UInt8} {splitVec : SplitVector}

/-- Blanks separate the words of a line. -/
def isBlank (c : UInt8) : Bool := c = 32

/-- The first word of a line. -/
def name (str : List UInt8) : List UInt8 := str.takeWhile fun c => !isBlank c

/-- What follows the first word of a line. -/
def afterName (str : List UInt8) : List UInt8 := str.dropWhile fun c => !isBlank c

/-- The second word of a line that has one. -/
def argument (str : List UInt8) : List UInt8 := ((afterName str).dropWhile isBlank).takeWhile fun c => !isBlank c

/-- The arguments of a line fit: after `send` there is a second word, whose text fits into `NfMessage`. -/
def Fits (str : List UInt8) : Prop :=
  name str = ascii "send" → afterName str ≠ [] ∧ (cString (argument str)).length < 256

/-- The line is handled without anything undefined, and refused if its arguments do not fit. -/
def Total (boostSplit : List UInt8 → SplitVector) (mem : Nat → Msg) (s : ChatClient) (str : List UInt8) : Prop :=
  (∃ r, s.readLine boostSplit mem str = some r) ∧ (¬ Fits str → s.readLine boostSplit mem str = some (s, []))

/-! ## The handlers -/

/-- The loop over the clients is defined iff its body is, for each of them. -/
theorem eachClient_isSome_iff : ∀ {i : Nat} {clients : List Client},
    (∃ r, eachClient f i clients = some r) ↔ ∀ j client, clients[j]? = some client → ∃ r, f (i + j) client = some r
  | i, [] => by simp [eachClient]
  | i, client :: clients => by
    have ih : (∃ r, eachClient f (i + 1) clients = some r) ↔ _ := eachClient_isSome_iff
    constructor
    · rintro ⟨r, hr⟩ j client' hj
      obtain ⟨r₁, h₁, hr⟩ := Option.bind_eq_some_iff.1 hr
      obtain ⟨r₂, h₂, -⟩ := Option.map_eq_some_iff.1 hr
      cases j with
      | zero =>
        obtain rfl : client = client' := by simpa using hj
        exact ⟨r₁, h₁⟩
      | succ j =>
        rw [show i + (j + 1) = i + 1 + j by omega]
        exact ih.1 ⟨r₂, h₂⟩ j client' (by simpa using hj)
    · intro h
      obtain ⟨r₁, h₁⟩ := h 0 client rfl
      obtain ⟨r₂, h₂⟩ := ih.2 fun j client' hj => by
        have := h (j + 1) client' (by simpa using hj)
        rwa [show i + (j + 1) = i + 1 + j by omega] at this
      exact ⟨_, by rw [eachClient, show f i client = some r₁ from h₁, Option.bind_some, h₂, Option.map_some]⟩

/-- The id of a client always fits, and is sent as a whole `RqCreateUser`. -/
theorem createUser_eq (mem : Msg) (client : Client) : ∃ m, createUser mem client = some (client.send m) ∧ m.InRange ∧
    m.hdr = Msg.header .rqCreateUser .noneCode 36 := by
  have hid : ascii (toString client.session.id) = [48] := by
    rw [client.id_eq]
    decide
  have hcpy : (RqCreateUser.new.id).strcpy [48] = some (RqCreateUser.new.id.store [48, 0]) := by
    rw [Block.strcpy, if_pos (by decide)]
    rfl
  obtain ⟨m, he, hin, hhdr, -⟩ := Msg.encode_block (RqCreateUser.new.id.store [48, 0]) (by decide) .rqCreateUser mem
  have he : mem.encodeMsgNoResult .rqCreateUser (some (RqCreateUser.new.id.store [48, 0]).bytes) 36 = some m := he
  exact ⟨m, by simp only [createUser, hid, hcpy, Option.bind_some, he, Option.map_some], hin, hhdr⟩

theorem createUser_isSome (mem : Msg) (client : Client) : ∃ r, createUser mem client = some r := by
  obtain ⟨m, hm, -⟩ := createUser_eq mem client
  exact ⟨_, hm⟩

/-- The message with a text in it. -/
def chatBody (text : List UInt8) : Block 256 := NfMessage.new.message.store (text ++ [0])

theorem bytes_chatBody {text : List UInt8} (h : text.length < 256) :
    ∃ rest, (chatBody text).bytes = text ++ 0 :: rest := by
  refine ⟨(List.replicate 256 (0 : UInt8)).drop (text.length + 1), ?_⟩
  have hle : (text ++ [0]).length ≤ 256 := by
    simp only [List.length_append, List.length_singleton]
    omega
  show overwrite (List.replicate 256 0) (text ++ [0]) = _
  rw [overwrite, List.length_replicate, List.take_of_length_le hle, List.length_append, List.append_assoc]
  rfl

/-- A word that fits is sent, as a whole `NfMessage`. -/
theorem sendMessge_of_fits {word : List UInt8} (hword : splitVec[1]? = some word) (hlen : (cString word).length < 256)
    (mem : Msg) (client : Client) : ∃ m, sendMessge splitVec mem client = some (client.send m) ∧ m.InRange ∧
      m.hdr = Msg.header .nfMessage .noneCode 256 ∧ m.payload = (chatBody (cString word)).bytes := by
  have hcpy : NfMessage.new.message.strcpy word = some (chatBody (cString word)) := if_pos hlen
  obtain ⟨m, he, hin, hhdr, hp⟩ := Msg.encode_block (chatBody (cString word)) (by decide) .nfMessage mem
  have he : mem.encodeMsgNoResult .nfMessage (some (chatBody (cString word)).bytes) 256 = some m := he
  refine ⟨m, ?_, hin, hhdr, hp⟩
  simp only [sendMessge, hword, hcpy, Option.bind_some, he, Option.map_some]

/-- The second word has to be there, and to fit. -/
theorem sendMessge_isSome_iff (mem : Msg) (client : Client) : (∃ r, sendMessge splitVec mem client = some r) ↔
    ∃ word, splitVec[1]? = some word ∧ (cString word).length < 256 := by
  constructor
  · rintro ⟨r, hr⟩
    unfold sendMessge at hr
    split at hr
    · cases hr
    · rename_i word hword
      obtain ⟨b, hb, -⟩ := Option.bind_eq_some_iff.1 hr
      refine ⟨word, hword, ?_⟩
      by_contra hlen
      rw [Block.strcpy_eq_none_iff.2 (by omega)] at hb
      cases hb
  · rintro ⟨word, hword, hlen⟩
    obtain ⟨m, hm, -⟩ := sendMessge_of_fits hword hlen mem client
    exact ⟨_, hm⟩

/-- A handler whose loop does not depend on the client. -/
theorem handle_isSome_iff {P : Prop} (hf : ∀ i client, (∃ r, f i client = some r) ↔ P) :
    (∃ r, eachClient f 0 s.clientVec = some r) ↔ s.clientVec = [] ∨ P := by
  rw [eachClient_isSome_iff]
  constructor
  · intro h
    cases hvec : s.clientVec with
    | nil => exact Or.inl rfl
    | cons client clients => exact Or.inr ((hf _ _).1 (h 0 client (by rw [hvec]; rfl)))
  · rintro (hnil | hP) j client hj
    · simp [hnil] at hj
    · exact (hf _ _).2 hP

/-! ## The command line -/

/-- The words of a line. -/
theorem words_of_tokens (h : Tokens isBlank str splitVec) : splitVec[0]? = some (name str) ∧
    splitVec[1]? = if afterName str = [] then none else some (argument str) :=
  ⟨List.head?_eq_getElem? ▸ h.head, h.second⟩

theorem lookup_send {w : List UInt8} (h : table.lookup w = some .cmdSendMessge) : w = ascii "send" := by
  by_contra hsend
  simp only [table, List.lookup_cons, beq_eq_false_iff_ne.2 hsend, List.lookup_nil] at h
  split at h
  · cases h
  · split at h <;> cases h

/-- A line does nothing, or runs the handler of the command that its first word names. -/
theorem readLine_cases (s : ChatClient) (mem : Nat → Msg) (h : Tokens isBlank str (boostSplit str)) :
    (∃ b, s.readLine boostSplit mem str = some ({ s with bTerm := b }, []) ∧ name str ≠ ascii "send") ∨
      ∃ command, table.lookup (name str) = some command ∧
        s.readLine boostSplit mem str = Command.handle mem s (boostSplit str) command := by
  unfold readLine
  split_ifs with hlen hquit hother
  · exact Or.inl ⟨true, rfl, by rw [hquit]; decide⟩
  · refine Or.inl ⟨s.bTerm, rfl, ?_⟩
    rcases hother with rfl | rfl <;> decide
  · simp only [(words_of_tokens h).1]
    cases hlookup : table.lookup (name str) with
    | some command => exact Or.inr ⟨command, rfl, rfl⟩
    | none =>
      refine Or.inl ⟨s.bTerm, rfl, fun hsend => ?_⟩
      rw [hsend] at hlookup
      revert hlookup
      decide
  · obtain rfl : str = [] := List.eq_nil_of_length_eq_zero (Nat.le_zero.1 (not_lt.1 hlen))
    exact Or.inl ⟨s.bTerm, rfl, by decide⟩

/-- A line that begins with `send` runs its handler. -/
theorem readLine_of_send (h : Tokens isBlank str (boostSplit str)) (hsend : name str = ascii "send") :
    s.readLine boostSplit mem str = Command.handle mem s (boostSplit str) .cmdSendMessge := by
  rcases readLine_cases s mem h with ⟨b, -, hne⟩ | ⟨command, hlookup, hr⟩
  · exact absurd hsend hne
  · rw [hsend] at hlookup
    have hcommand : table.lookup (ascii "send") = some .cmdSendMessge := by decide
    obtain rfl := Option.some.inj (hcommand.symm.trans hlookup)
    exact hr

/-- Any other line is handled, whatever follows its first word. -/
theorem readLine_of_other (h : Tokens isBlank str (boostSplit str)) (hsend : name str ≠ ascii "send") :
    ∃ r, s.readLine boostSplit mem str = some r := by
  rcases readLine_cases s mem h with ⟨b, hr, -⟩ | ⟨command, hlookup, hr⟩
  · exact ⟨_, hr⟩
  · rw [hr]
    cases command with
    | cmdCreateUser =>
      obtain ⟨r, hr⟩ := (handle_isSome_iff (s := s) fun i client =>
        iff_true_intro (createUser_isSome (mem i) client)).2 (Or.inr trivial)
      exact ⟨_, by rw [Command.handle, hr, Option.map_some]⟩
    | cmdSendMessge => exact absurd (lookup_send hlookup) hsend
    | cmdStop => exact ⟨_, rfl⟩

/-- **When the command line is total**: with any clients, a line is handled without anything undefined, and refused if
its arguments do not fit, iff there are no clients or its arguments fit. -/
theorem total_iff (h : Tokens isBlank str (boostSplit str)) :
    Total boostSplit mem s str ↔ s.clientVec = [] ∨ Fits str := by
  by_cases hsend : name str = ascii "send"
  · have hword := (words_of_tokens h).2
    have hhandle : (∃ r, eachClient (fun i => sendMessge (boostSplit str) (mem i)) 0 s.clientVec = some r) ↔
        s.clientVec = [] ∨ ∃ word, (boostSplit str)[1]? = some word ∧ (cString word).length < 256 :=
      handle_isSome_iff fun i => sendMessge_isSome_iff (mem i)
    have hfits : Fits str ↔ ∃ word, (boostSplit str)[1]? = some word ∧ (cString word).length < 256 := by
      rw [hword, Fits]
      by_cases hafter : afterName str = [] <;> simp [hsend, hafter]
    rw [hfits, ← hhandle, Total, readLine_of_send h hsend, Command.handle]
    constructor
    · rintro ⟨⟨r, hr⟩, -⟩
      obtain ⟨r', hr', -⟩ := Option.map_eq_some_iff.1 hr
      exact ⟨r', hr'⟩
    · rintro ⟨r, hr⟩
      refine ⟨⟨_, by rw [hr, Option.map_some]⟩, fun hn => ?_⟩
      -- nothing fits, so there are no clients
      rcases hhandle.1 ⟨r, hr⟩ with hnil | hword
      · obtain ⟨clients, b⟩ := s
        obtain rfl : clients = [] := hnil
        rfl
      · exact absurd (hfits.2 hword) hn
  · have hfits : Fits str := fun hs => absurd hs hsend
    exact iff_of_true ⟨readLine_of_other h hsend, fun hn => absurd hfits hn⟩ (Or.inr hfits)

/-- The command `send` without a text, in a program with one client. -/
theorem send_not_total : ¬ Total (split isBlank) (fun _ => .zero) ⟨[.new ⟨"127.0.0.1", 20000⟩ .zero], false⟩
    (ascii "send") ∧ (split isBlank (ascii "send")).length = 1 := by
  refine ⟨fun h => ?_, by decide⟩
  obtain ⟨r, hr⟩ := h.1
  cases hr

/-- With blanks around it and between its words. -/
theorem total_iff_sendHi : Tokens isBlank (ascii "send   hi ") (split isBlank (ascii "send   hi ")) ∧
    Total (split isBlank) (fun _ => .zero) ⟨[.new ⟨"127.0.0.1", 20000⟩ .zero], false⟩ (ascii "send   hi ") := by
  have h := tokens_split isBlank (ascii "send   hi ")
  exact ⟨h, (total_iff h).2 (Or.inr fun _ => ⟨by decide, by decide⟩)⟩

end ChatClient

end Torinet
