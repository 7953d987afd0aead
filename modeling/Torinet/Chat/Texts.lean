import Torinet.Chat.Credit
import Torinet.Lib.Tokens

/-!
# The texts of the commands

The message handlers build their commands as texts (`RedisCommand.text`), which hiredis takes for formats and splits at
blanks. The numbers in them are decimals, and nothing in them is a blank or a directive; so Redis gets from the texts of
a run the commands of the model, in order (`readOff_texts`).
-/

namespace Torinet

open Lib

/-! ## Decimals -/

/-- The number that a decimal stands for. -/
def number (cs : List Char) : Option Nat :=
  if cs.isEmpty = false ∧ cs.all Char.isDigit = true then some (Nat.ofDigitChars 10 cs 0) else none

theorem isDigit_of_mem_toString {n : Nat} {c : Char} (hc : c ∈ (toString n).toList) : c.isDigit = true := by
  have htoList : (toString n).toList = Nat.toDigits 10 n := Nat.toList_repr
  rw [htoList] at hc
  exact Nat.isDigit_of_mem_toDigits (by decide) (by decide) hc

/-- A decimal stands for its number. -/
theorem number_toString (n : Nat) : number (toString n).toList = some n := by
  have htoList : (toString n).toList = Nat.toDigits 10 n := Nat.toList_repr
  have hne : (toString n).toList.isEmpty = false := by
    rw [htoList, List.isEmpty_eq_false_iff]
    exact Nat.toDigits_ne_nil
  have hdigits : (toString n).toList.all Char.isDigit = true :=
    List.all_eq_true.2 fun c hc => isDigit_of_mem_toString hc
  unfold number
  rw [if_pos ⟨hne, hdigits⟩, htoList, Nat.ofDigitChars_toDigits (by decide) (by decide)]

/-! ## Words -/

/-- Blanks separate the words of a command. -/
def isSpace (c : Char) : Bool := c = ' '

/-- A word of a command: it is not empty, and has no blank and no directive in it. -/
structure Plain (w : List Char) : Prop where
  ne_nil : w ≠ []
  space : ∀ c ∈ w, isSpace c = false
  percent : '%' ∉ w

/-- A given word can be checked. -/
theorem plain_of_all {w : List Char} (hne : w.isEmpty = false)
    (hall : (w.all fun c => !isSpace c && c != '%') = true) : Plain w := by
  rw [List.all_eq_true] at hall
  refine ⟨fun hnil => ?_, fun c hc => ?_, fun hp => ?_⟩
  · rw [hnil] at hne
    cases hne
  · have hchar := hall c hc
    rw [Bool.and_eq_true, Bool.not_eq_true'] at hchar
    exact hchar.1
  · cases hall '%' hp

theorem Plain.head {w rest : List Char} (h : Plain w) : ∀ c ∈ (w ++ rest).head?, isSpace c = false := by
  obtain ⟨a, w, rfl⟩ := List.exists_cons_of_ne_nil h.ne_nil
  rintro c ⟨⟩
  exact h.space _ (by simp)

/-- A word of digits. -/
theorem plain_of_digits {w : List Char} (hne : w ≠ []) (hw : ∀ c ∈ w, c.isDigit = true) : Plain w where
  ne_nil := hne
  space c hc := by
    have hdigit := hw c hc
    by_contra hspace
    obtain rfl : c = ' ' := by simpa [isSpace] using hspace
    revert hdigit
    decide
  percent hp := by
    have hdigit := hw _ hp
    revert hdigit
    decide

theorem plain_toString (n : Nat) : Plain (toString n).toList := by
  refine plain_of_digits ?_ fun c hc => isDigit_of_mem_toString hc
  have htoList : (toString n).toList = Nat.toDigits 10 n := Nat.toList_repr
  rw [htoList]
  exact Nat.toDigits_ne_nil

theorem Plain.append {w w' : List Char} (h : Plain w) (h' : Plain w') : Plain (w ++ w') where
  ne_nil := by simp [h.ne_nil]
  space c hc := (List.mem_append.1 hc).elim (h.space c) (h'.space c)
  percent hc := (List.mem_append.1 hc).elim h.percent h'.percent

/-- The id of a session is a word. -/
theorem plain_toString_int (id : Int) : Plain (toString id).toList := by
  cases id with
  | ofNat n => exact plain_toString n
  | negSucc n =>
    have hrepr : (toString (Int.negSucc n)).toList = "-".toList ++ (toString (n + 1)).toList := by
      rw [← String.toList_append]
      rfl
    rw [hrepr]
    refine Plain.append (plain_of_all rfl rfl) (plain_toString _)

/-! ## Texts -/

/-- The text of a command. -/
def RedisCommand.text : RedisCommand → String
  | .zadd key score member => "zadd " ++ key ++ " " ++ toString score ++ " " ++ member
  | .zincrby key increment member => "zincrby " ++ key ++ " " ++ toString increment ++ " " ++ member

/-- The command that Redis reads off some words. -/
def RedisCommand.ofWords : List (List Char) → Option RedisCommand
  | [name, key, n, member] => (number n).bind fun n =>
    if name = "zadd".toList then some (.zadd (String.ofList key) n (String.ofList member))
    else if name = "zincrby".toList then some (.zincrby (String.ofList key) n (String.ofList member))
    else none
  | _ => none

/-- How `redisCommand` takes a format apart that has no directives and no blanks at its ends: at the blanks. -/
def FormatWords (redisWords : List Char → List (List Char)) : Prop :=
  ∀ l, '%' ∉ l → (∀ c ∈ l.head?, isSpace c = false) → (∀ c ∈ l.getLast?, isSpace c = false) →
    Tokens isSpace l (redisWords l)

/-- Four words with single blanks between them are taken apart. -/
theorem FormatWords.four {redisWords : List Char → List (List Char)} (h : FormatWords redisWords)
    {w₁ w₂ w₃ w₄ : List Char} (h₁ : Plain w₁) (h₂ : Plain w₂) (h₃ : Plain w₃) (h₄ : Plain w₄) :
    redisWords (w₁ ++ ' ' :: (w₂ ++ ' ' :: (w₃ ++ ' ' :: w₄))) = [w₁, w₂, w₃, w₄] := by
  have hlast : ∀ x ∈ (w₁ ++ ' ' :: (w₂ ++ ' ' :: (w₃ ++ ' ' :: w₄))).getLast?, isSpace x = false := by
    obtain ⟨w, x, rfl⟩ := (List.eq_nil_or_concat w₄).resolve_left h₄.ne_nil
    intro y hy
    have hassoc : w₁ ++ ' ' :: (w₂ ++ ' ' :: (w₃ ++ ' ' :: (w ++ [x]))) =
        (w₁ ++ ' ' :: (w₂ ++ ' ' :: (w₃ ++ ' ' :: w))) ++ [x] := by simp
    rw [List.concat_eq_append, hassoc, List.getLast?_concat, Option.mem_some_iff] at hy
    exact hy ▸ h₄.space x (by simp)
  have hblank : isSpace ' ' = true := rfl
  have hhead : ∀ x ∈ w₄.head?, isSpace x = false := by
    have happend : ∀ x ∈ (w₄ ++ []).head?, isSpace x = false := h₄.head
    rwa [List.append_nil] at happend
  have htokens := h _ (by simp [h₁.percent, h₂.percent, h₃.percent, h₄.percent]) h₁.head hlast
  obtain ⟨ts₁, heq₁, htokens₁⟩ := htokens.eq_cons h₁.space hblank h₂.head
  obtain ⟨ts₂, heq₂, htokens₂⟩ := htokens₁.eq_cons h₂.space hblank h₃.head
  obtain ⟨ts₃, heq₃, htokens₃⟩ := htokens₂.eq_cons h₃.space hblank hhead
  rw [heq₁, heq₂, heq₃, htokens₃.eq_single h₄.space]

/-- Key and member of a command are words. -/
def RedisCommand.Words : RedisCommand → Prop
  | .zadd key _ member => Plain key.toList ∧ Plain member.toList
  | .zincrby key _ member => Plain key.toList ∧ Plain member.toList

/-- **A command comes back** from its text. -/
theorem ofWords_text {redisWords : List Char → List (List Char)} (h : FormatWords redisWords) {cmd : RedisCommand}
    (hcmd : cmd.Words) : RedisCommand.ofWords (redisWords cmd.text.toList) = some cmd := by
  cases cmd with
  | zadd key score member =>
    have htext : (RedisCommand.zadd key score member).text.toList =
        "zadd".toList ++ ' ' :: (key.toList ++ ' ' :: ((toString score).toList ++ ' ' :: member.toList)) := by
      simp [RedisCommand.text]
    rw [htext, h.four (plain_of_all rfl rfl) hcmd.1 (plain_toString score) hcmd.2]
    simp only [RedisCommand.ofWords, number_toString, Option.bind_some, if_true, String.ofList_toList]
  | zincrby key increment member =>
    have htext : (RedisCommand.zincrby key increment member).text.toList =
        "zincrby".toList ++ ' ' :: (key.toList ++ ' ' :: ((toString increment).toList ++ ' ' :: member.toList)) := by
      simp [RedisCommand.text]
    have hname : "zincrby".toList ≠ "zadd".toList := by decide
    rw [htext, h.four (plain_of_all rfl rfl) hcmd.1 (plain_toString increment) hcmd.2]
    simp only [RedisCommand.ofWords, number_toString, Option.bind_some, if_neg hname, if_true, String.ofList_toList]

namespace ChatServer

variable {redisWords : List Char → List (List Char)} {s s' s₀ : ChatServer} {e : Event} {es : List Event}
  {out o : List Out} {p : TcpSession} {cmd : RedisCommand}

/-- The texts sent to Redis, nothing being known of one whose length scan leaves the body. -/
def texts (out : List Out) : List (Option String) := (commands out).map fun cmd => cmd.map RedisCommand.text

theorem words_commandsFor (h : some cmd ∈ commandsFor p) : cmd.Words := by
  have hkey : Plain "user:ranking".toList := plain_of_all rfl rfl
  have hmember : Plain (member p).toList := by
    have htext : (member p).toList = "session_".toList ++ (toString p.id).toList := String.toList_append
    rw [htext]
    exact Plain.append (plain_of_all rfl rfl) (plain_toString_int p.id)
  unfold commandsFor at h
  split at h
  · obtain rfl := Option.some.inj (List.mem_singleton.1 h)
    exact ⟨hkey, hmember⟩
  · split at h
    · obtain ⟨n, -, rfl⟩ := Option.map_eq_some_iff.1 (List.mem_singleton.1 h).symm
      exact ⟨hkey, hmember⟩
    · cases h

/-- The commands of a run have words for key and member. -/
theorem words_run (hr : machine.Run s₀ es s out) : ∀ cmd, some cmd ∈ commands out → cmd.Words := by
  induction hr with
  | nil => simp [commands]
  | snoc _ hs ih =>
    intro cmd hcmd
    rw [commands_append] at hcmd
    rcases List.mem_append.1 hcmd with hcmd | hcmd
    · exact ih cmd hcmd
    · rcases commands_step hs with ⟨t, outs, -, -, hnone⟩ | ⟨t, r, i, b, p, -, -, -, hfor⟩
      · rw [hnone] at hcmd
        cases hcmd
      · exact words_commandsFor (hfor ▸ hcmd)

/-- **Redis gets what is meant**: in every run of the chat server, the commands that Redis reads off the texts that are
sent to it are the commands of the run, in order. -/
theorem readOff_texts (hwords : FormatWords redisWords) (hr : machine.Run s₀ es s out) :
    ((texts out).map fun text => text.bind fun text => RedisCommand.ofWords (redisWords text.toList)) =
      commands out := by
  rw [texts, List.map_map]
  conv_rhs => rw [← List.map_id (commands out)]
  apply List.map_congr_left
  intro cmd hcmd
  cases cmd with
  | none => rfl
  | some cmd => exact ofWords_text hwords (words_run hr cmd hcmd)

/-- A user is created, and says "hi". -/
def createsAndSays : List Event :=
  [.accept (.ok .loopback), .readDone 0 0 (.ok [1, 0, 0, 0, 1, 0, 0, 0]), .readDone 0 0 (.ok []),
    .readDone 0 0 (.ok [1, 0, 3, 0, 3, 0, 0, 0]), .readDone 0 0 (.ok [104, 105, 0])]

theorem readOff_texts_createsAndSays : ∃ (s : ChatServer) (out : List Out),
    machine.Run ((new ⟨1⟩).start true) createsAndSays s out ∧ FormatWords (split isSpace) ∧
    texts out = [some "zadd user:ranking 0 session_1", some "zincrby user:ranking 2 session_1"] ∧
    ((texts out).map fun text => text.bind fun text => RedisCommand.ofWords (split isSpace text.toList)) =
      commands out := by
  have hr : ∃ (s : ChatServer) (out : List Out), machine.Run ((new ⟨1⟩).start true) createsAndSays s out ∧
      commands out = [some (.zadd "user:ranking" 0 "session_1"), some (.zincrby "user:ranking" 2 "session_1")] :=
    ⟨_, _, Machine.run_of_exec rfl, by decide +kernel⟩
  obtain ⟨s, out, hr, hcommands⟩ := hr
  have hwords : FormatWords (split isSpace) := fun l _ _ _ => tokens_split isSpace l
  refine ⟨s, out, hr, hwords, ?_, readOff_texts hwords hr⟩
  rw [texts, hcommands]
  decide +kernel

end ChatServer

end Torinet
