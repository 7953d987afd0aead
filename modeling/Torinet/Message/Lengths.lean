import Torinet.Msg

/-!
# Lengths of messages

`setBodyLength` and both overloads of `encodeMsg` take an `int` length and store it in 16 bits before they look at it;
`encodeMsg` then copies as much as was asked for. A sequence of such calls leaves every message in range, its length
clamped and its body holding the data, iff the lengths are in range to begin with, but for some that are so far off that
they wrap to a length that is right by chance (`represents_call_iff`, `represented_iff`).
-/

namespace Torinet

open Lib

namespace Msg

variable {m m' : Msg} {msgId : MsgId} {result : ResponseCode}

/-- A length, and source memory of at least that length. -/
structure Source where
  dataLength : Int32
  data : List UInt8
  le_length : dataLength.toInt ≤ data.length

/-- A call on a message. -/
inductive Call
  | setBodyLength (length : Int32)
  | encodeMsg (msgId : MsgId) (result : ResponseCode) (src : Source)
  | encodeMsgNoResult (msgId : MsgId) (src : Source)

namespace Call

def length : Call → Int
  | setBodyLength length => length.toInt
  | encodeMsg _ _ src => src.dataLength.toInt
  | encodeMsgNoResult _ src => src.dataLength.toInt

/-- What is to be encoded. -/
def source : Call → Option Source
  | setBodyLength _ => none
  | encodeMsg _ _ src => some src
  | encodeMsgNoResult _ src => some src

end Call

def call (m : Msg) : Call → Option Msg
  | .setBodyLength length => some (m.setBodyLength length.toInt)
  | .encodeMsg msgId result src => m.encodeMsg msgId result (some src.data) src.dataLength.toInt
  | .encodeMsgNoResult msgId src => m.encodeMsgNoResult msgId (some src.data) src.dataLength.toInt

/-- The call is refused: it leaves any message as it is. -/
def Call.Refused (c : Call) : Prop := ∀ m : Msg, m.call c = some m

/-- A call leaves the message in range, its length the given one, clamped, unless the call was refused; and what was
encoded passes the check and holds its part of the data. -/
structure Represents (m : Msg) (c : Call) : Prop where
  inRange : m.InRange
  length : 8 ≤ m.length ∧ m.length ≤ 1032
  clamped : m.bodyLength = max 0 (min c.length maxCpMsgData) ∨ c.Refused
  encoded : ∀ src, c.source = some src → m.checkHeader = true ∧ m.payload = src.data.take m.bodyLength.toNat

/-- Each of the calls, one after the other, is defined, no byte being copied outside the body, and represents. -/
def Represented : Msg → List Call → Prop
  | _, [] => True
  | m, c :: cs => ∃ m', m.call c = some m' ∧ m'.Represents c ∧ m'.Represented cs

/-- The 16 bits a length is stored in. -/
def narrow (length : Int) : Int := (Int16.ofInt length).toInt

/-- The length can be stored; or it is negative and wraps to 0; or it is too large, and for `setBodyLength`, and wraps
to one that is still too large, or just not. -/
def Call.Fits (c : Call) : Prop :=
  0 ≤ c.length ∧ c.length ≤ maxCpMsgData ∨ c.length < 0 ∧ narrow c.length = 0 ∨
    c.source.isNone ∧ c.length > maxCpMsgData ∧ narrow c.length ≥ maxCpMsgData

instance (c : Call) : Decidable c.Fits := inferInstanceAs (Decidable (_ ∨ _ ∨ _))

/-! ## Narrowing -/

/-- Narrowing takes away a multiple of `2 ^ 16`. -/
theorem narrow_spec (n : Int) : -32768 ≤ narrow n ∧ narrow n < 32768 ∧ ∃ q, n = narrow n + 65536 * q := by
  refine ⟨(Int16.ofInt n).le_toInt, (Int16.ofInt n).toInt_lt, Int.bdiv n 65536, ?_⟩
  rw [narrow, Int16.toInt_ofInt]
  exact (Int.bmod_add_bdiv n 65536).symm

theorem narrow_of_le {n : Int} (h₀ : 0 ≤ n) (h₁ : n ≤ maxCpMsgData) : narrow n = n := by
  simp only [maxCpMsgData] at h₁
  exact Int16.toInt_ofInt_of_le (by omega) (by omega)

/-- An `int` that is out of range gives a size that no body has. -/
theorem toSizeT_le_iff (n : Int32) : toSizeT n.toInt ≤ maxCpMsgData ↔ 0 ≤ n.toInt ∧ n.toInt ≤ maxCpMsgData := by
  have hlt := n.toInt_lt
  have hle := n.le_toInt
  simp only [maxCpMsgData]
  by_cases hneg : n.toInt < 0
  · have := toSizeT_of_neg hneg (by omega)
    omega
  · have := toSizeT_of_nonneg (n := n.toInt) (by omega) (by omega)
    omega

/-! ## The functions -/

theorem bodyLength_setBodyLength (m : Msg) (n : Int) :
    (m.setBodyLength n).bodyLength = min (narrow n) maxCpMsgData := by
  have hmax : (Int16.ofInt maxCpMsgData).toInt = maxCpMsgData := by decide
  by_cases h : narrow n > maxCpMsgData
  · have hset : m.setBodyLength n = ⟨{ m.hdr with bodyLength := Int16.ofInt maxCpMsgData }, m.body⟩ := if_pos h
    rw [hset, bodyLength, hmax, min_eq_right h.le]
  · have hset : m.setBodyLength n = ⟨{ m.hdr with bodyLength := Int16.ofInt n }, m.body⟩ := if_neg h
    rw [hset, bodyLength, min_eq_left (not_lt.1 h)]
    rfl

/-- `encodeMsg` with a length that is positive once it is stored: what is copied is what was asked for. -/
theorem encodeMsg_of_pos (m : Msg) (msgId : MsgId) (result : ResponseCode) {src : Source}
    (h : 0 < narrow src.dataLength.toInt) {m' : Msg} :
    m.encodeMsg msgId result (some src.data) src.dataLength.toInt = some m' ↔
      0 ≤ src.dataLength.toInt ∧ src.dataLength.toInt ≤ maxCpMsgData ∧
        m' = ⟨header msgId result src.dataLength.toInt, m.body.store (src.data.take src.dataLength.toInt.toNat)⟩ := by
  have henc : m.encodeMsg msgId result (some src.data) src.dataLength.toInt =
      (m.body.memcpy src.data (toSizeT src.dataLength.toInt)).map
        fun body => ⟨header msgId result src.dataLength.toInt, body⟩ := if_pos h
  have hle := src.le_length
  rw [henc, Block.memcpy]
  by_cases hin : 0 ≤ src.dataLength.toInt ∧ src.dataLength.toInt ≤ maxCpMsgData
  · have hn : toSizeT src.dataLength.toInt = src.dataLength.toInt.toNat :=
      toSizeT_of_nonneg hin.1 (by have := src.dataLength.toInt_lt; omega)
    rw [if_pos ⟨(toSizeT_le_iff _).2 hin, by omega⟩, hn, Option.map_some, Option.some.injEq, eq_comm]
    simp [hin]
  · rw [if_neg fun hc => hin ((toSizeT_le_iff _).1 hc.1)]
    constructor
    · intro h
      cases h
    · exact fun h => absurd ⟨h.1, h.2.1⟩ hin

/-- With another length nothing is copied. -/
theorem encodeMsg_of_not_pos (m : Msg) (msgId : MsgId) (result : ResponseCode) {n : Int} (data : List UInt8)
    (h : ¬ 0 < narrow n) : m.encodeMsg msgId result (some data) n = some ⟨header msgId result n, m.body⟩ := if_neg h

/-- No call is ever refused: some message has another length, or another version, than every call leaves behind. -/
theorem not_refused (c : Call) : ¬ c.Refused := by
  intro h
  cases c with
  | setBodyLength n =>
    have h₀ := congrArg bodyLength (Option.some.inj (h ⟨⟨0, 0, 0, 0⟩, .zero _⟩))
    have h₁ := congrArg bodyLength (Option.some.inj (h ⟨⟨0, 0, 1, 0⟩, .zero _⟩))
    rw [bodyLength_setBodyLength] at h₀ h₁
    exact absurd (h₀.symm.trans h₁) (by decide)
  | encodeMsg msgId result src =>
    have hs : zero.encodeMsg msgId result (some src.data) src.dataLength.toInt = some zero := h zero
    have hv : (0 : Int8) = 1 := congrArg CpMsgHeader.version (hdr_encodeMsg hs)
    exact absurd hv (by decide)
  | encodeMsgNoResult msgId src =>
    have hs : zero.encodeMsg msgId .noneCode (some src.data) src.dataLength.toInt = some zero := h zero
    have hv : (0 : Int8) = 1 := congrArg CpMsgHeader.version (hdr_encodeMsg hs)
    exact absurd hv (by decide)

/-! ## Which calls represent -/

/-- A message in range whose length is that of a call, clamped, is all that is asked of `setBodyLength`. -/
theorem represents_setBodyLength_iff {n : Int32} :
    (m.setBodyLength n.toInt).Represents (.setBodyLength n) ↔ (Call.setBodyLength n).Fits := by
  obtain ⟨hge, hlt, q, hq⟩ := narrow_spec n.toInt
  have hlen := bodyLength_setBodyLength m n.toInt
  simp only [maxCpMsgData, Nat.cast_ofNat] at hlen
  constructor
  · intro h
    have hclamped := h.clamped.resolve_right (not_refused _)
    have hrange := h.inRange
    simp only [InRange, Call.length, maxCpMsgData, Nat.cast_ofNat] at hclamped hrange
    simp only [Call.Fits, Call.length, Call.source, maxCpMsgData, Nat.cast_ofNat, Option.isNone_none, true_and]
    omega
  · intro h
    simp only [Call.Fits, Call.length, Call.source, maxCpMsgData, Nat.cast_ofNat, Option.isNone_none, true_and] at h
    have hclamped : (m.setBodyLength n.toInt).bodyLength = max 0 (min n.toInt 1024) := by omega
    refine ⟨⟨?_, ?_⟩, ?_, Or.inl hclamped, fun src hsrc => by cases hsrc⟩
    · omega
    · simp only [maxCpMsgData, Nat.cast_ofNat]
      omega
    · simp only [length_eq]
      omega

/-- An encoded message whose stored length is in range, and the given one, clamped, and whose body holds its part of the
data. -/
theorem represents_of_hdr {c : Call} {n : Int} (hhdr : m.hdr = header msgId result n)
    (hn : narrow n = max 0 (min c.length maxCpMsgData))
    (hp : ∀ src, c.source = some src → m.body.bytes.take (narrow n).toNat = src.data.take (narrow n).toNat) :
    m.Represents c := by
  have hlen : m.bodyLength = narrow n := by rw [bodyLength, hhdr]; rfl
  have hrange : 0 ≤ m.bodyLength ∧ m.bodyLength ≤ 1024 := by
    simp only [maxCpMsgData] at hn
    omega
  refine ⟨hrange, ?_, Or.inl (hlen.trans hn), fun src hsrc => ⟨(checkHeader_iff m).2 ⟨?_, hrange.2⟩, ?_⟩⟩
  · rw [length_eq]
    omega
  · rw [hhdr]
    rfl
  · rw [payload, hlen]
    exact hp src hsrc

/-- **Which encodings represent**, of either overload. -/
theorem represents_encode_iff {c : Call} {src : Source} (hc : c.source = some src)
    (hcall : m.call c = m.encodeMsg msgId result (some src.data) src.dataLength.toInt) :
    (∃ m', m.call c = some m' ∧ m'.Represents c) ↔ c.Fits := by
  have hlength : c.length = src.dataLength.toInt := by
    cases c <;> cases hc <;> rfl
  obtain ⟨hge, hlt, q, hq⟩ := narrow_spec src.dataLength.toInt
  simp only [Call.Fits, hlength, hc, Option.isNone_some, Bool.false_eq_true, false_and, or_false]
  by_cases hpos : 0 < narrow src.dataLength.toInt
  · simp only [hcall, encodeMsg_of_pos m msgId result hpos]
    constructor
    · rintro ⟨m', ⟨h₀, h₁, -⟩, -⟩
      exact Or.inl ⟨h₀, h₁⟩
    · intro h
      have hin : 0 ≤ src.dataLength.toInt ∧ src.dataLength.toInt ≤ maxCpMsgData := by omega
      have hn := narrow_of_le hin.1 hin.2
      refine ⟨_, ⟨hin.1, hin.2, rfl⟩, represents_of_hdr rfl ?_ fun src' hsrc => ?_⟩
      · rw [hn, hlength]
        omega
      · obtain rfl : src = src' := Option.some.inj (hc.symm.trans hsrc)
        have hle := src.le_length
        have htake : (src.data.take src.dataLength.toInt.toNat).length = src.dataLength.toInt.toNat := by
          rw [List.length_take]
          omega
        have hover : (overwrite m.body.bytes (src.data.take src.dataLength.toInt.toNat)).take
            (src.data.take src.dataLength.toInt.toNat).length = src.data.take src.dataLength.toInt.toNat :=
          take_overwrite (by
            rw [htake, Block.length_bytes]
            omega)
        rw [htake] at hover
        rwa [hn]
  · simp only [hcall, encodeMsg_of_not_pos m msgId result src.data hpos, Option.some.injEq]
    constructor
    · rintro ⟨m', rfl, h⟩
      have hclamped := h.clamped.resolve_right (not_refused _)
      have hlen : (⟨header msgId result src.dataLength.toInt, m.body⟩ : Msg).bodyLength =
          narrow src.dataLength.toInt := rfl
      rw [hlen, hlength] at hclamped
      simp only [maxCpMsgData, Nat.cast_ofNat] at hclamped ⊢
      omega
    · intro h
      have hzero : narrow src.dataLength.toInt = 0 := by
        simp only [maxCpMsgData, Nat.cast_ofNat] at h
        omega
      refine ⟨_, rfl, represents_of_hdr rfl ?_ fun src' _ => ?_⟩
      · rw [hzero, hlength]
        simp only [maxCpMsgData, Nat.cast_ofNat] at h ⊢
        omega
      · rw [hzero]
        rfl

/-- **Which calls represent**, whatever the message. -/
theorem represents_call_iff (m : Msg) (c : Call) : (∃ m', m.call c = some m' ∧ m'.Represents c) ↔ c.Fits := by
  cases c with
  | setBodyLength n =>
    rw [← represents_setBodyLength_iff (m := m)]
    simp [call]
  | encodeMsg msgId result src => exact represents_encode_iff rfl rfl
  | encodeMsgNoResult msgId src => exact represents_encode_iff rfl rfl

/-- **When a sequence of calls keeps a message well formed**: iff the length of every call fits. -/
theorem represented_iff : ∀ (cs : List Call) (m : Msg), m.Represented cs ↔ ∀ c ∈ cs, c.Fits
  | [], _ => by simp [Represented]
  | c :: cs, m => by
    rw [Represented, List.forall_mem_cons]
    constructor
    · rintro ⟨m', hs, hm', hcs⟩
      exact ⟨(represents_call_iff m c).1 ⟨m', hs, hm'⟩, (represented_iff cs m').1 hcs⟩
    · rintro ⟨hc, hcs⟩
      obtain ⟨m', hs, hm'⟩ := (represents_call_iff m c).2 hc
      exact ⟨m', hs, hm', (represented_iff cs m').2 hcs⟩

/-- A length of 40000 is stored as -25536, which is not too large. -/
theorem setBodyLength_40000_not_represented : ¬ zero.Represented [.setBodyLength 40000] := by
  rintro ⟨m', hs, h, -⟩
  obtain rfl := Option.some.inj hs
  exact absurd h.inRange.1 (by decide)

end Msg

end Torinet
