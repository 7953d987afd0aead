import Torinet.Lib.Bytes
import Mathlib.Data.List.GetD

/-!
# Messages

`include/Msg.h` and `include/MsgId.h`: a message is an 8-byte header and a body of 1024 bytes, laid out without
padding on a little-endian machine. `CpMsgHeader.toBytes` and `CpMsgHeader.ofBytes` are the two readings of the
header's memory (`ofBytes_toBytes`, `toBytes_ofBytes`); `Msg.image` is the memory of a whole message and `Msg.wire`
the part of it that is sent, its first `length()` bytes.

A message is in range (`Msg.InRange`) when its `bodyLength` says what a body can hold; then its wire image is the
header followed by the first `bodyLength` bytes of the body (`Msg.wire_eq`).
-/

namespace Torinet

open Lib

/-! ## Message ids and result codes -/

inductive MsgId
  | noneMsgId
  | rqCreateUser
  | rsCreateUser
  | nfMessage
  | maxMsgId
deriving DecidableEq

/-- The value of a `MsgId_t`. -/
def MsgId.val : MsgId → Nat
  | .noneMsgId => 0
  | .rqCreateUser => 1
  | .rsCreateUser => 2
  | .nfMessage => 3
  | .maxMsgId => 4

inductive ResponseCode
  | noneCode
  | character
  | createUserSuccess
  | loginSuccess
  | createPartySuccess
  | joinUserSuccess
  | notifyMessage
  | error
  | createUserFail
  | loginFail
  | createPartyFail
  | joinUserFail
  | invalidMsg
  | endResCode
deriving DecidableEq

/-- The value of a `ResponseCode_t`. -/
def ResponseCode.val : ResponseCode → Int
  | .noneCode => 0x0000
  | .character => 0x1000
  | .createUserSuccess => 0x1001
  | .loginSuccess => 0x1002
  | .createPartySuccess => 0x1003
  | .joinUserSuccess => 0x1004
  | .notifyMessage => 0x1005
  | .error => 0x2000
  | .createUserFail => 0x2001
  | .loginFail => 0x2002
  | .createPartyFail => 0x2003
  | .joinUserFail => 0x2004
  | .invalidMsg => 0x2005
  | .endResCode => 0xFFFF

/-! ## The header -/

/-- `MAX_CP_MSG_DATA`, the size of a body. -/
def maxCpMsgData : Nat := 1024

/-- `Msg::hdrLength`, the size of a header. -/
def hdrLength : Nat := 8

structure CpMsgHeader where
  version : Int8
  result : Int8
  bodyLength : Int16
  msgId : UInt32
deriving DecidableEq

namespace CpMsgHeader

/-- The memory of a header. -/
def toBytes (h : CpMsgHeader) : List UInt8 :=
  h.version.toUInt8 :: h.result.toUInt8 :: (leBytes 2 h.bodyLength.toUInt16.toNat ++ leBytes 4 h.msgId.toNat)

/-- The header that a piece of memory holds. -/
def ofBytes (bs : List UInt8) : CpMsgHeader where
  version := (bs.getD 0 0).toInt8
  result := (bs.getD 1 0).toInt8
  bodyLength := (UInt16.ofNat (leNat ((bs.drop 2).take 2))).toInt16
  msgId := UInt32.ofNat (leNat ((bs.drop 4).take 4))

@[simp] theorem length_toBytes (h : CpMsgHeader) : h.toBytes.length = hdrLength := by
  simp [toBytes, hdrLength]

@[simp] theorem ofBytes_toBytes (h : CpMsgHeader) : ofBytes h.toBytes = h := by
  have hlen : ((h.toBytes.drop 2).take 2) = leBytes 2 h.bodyLength.toUInt16.toNat := by
    simp only [toBytes, List.drop_succ_cons, List.drop_zero]
    exact List.take_left' (length_leBytes _ _)
  have hid : ((h.toBytes.drop 4).take 4) = leBytes 4 h.msgId.toNat := by
    simp only [toBytes, List.drop_succ_cons]
    rw [List.drop_left' (length_leBytes _ _), List.take_of_length_le (by simp)]
  have hbl := h.bodyLength.toUInt16.toNat_lt
  have hmi := h.msgId.toNat_lt
  cases h
  simp only [ofBytes, hlen, hid, leNat_leBytes, CpMsgHeader.mk.injEq]
  refine ⟨rfl, rfl, ?_, ?_⟩
  · rw [Nat.mod_eq_of_lt (by simpa using hbl)]
    simp
  · rw [Nat.mod_eq_of_lt (by simpa using hmi)]
    simp

/-- Eight bytes are the memory of the header they hold. -/
theorem toBytes_ofBytes {bs : List UInt8} (h : bs.length = hdrLength) : (ofBytes bs).toBytes = bs := by
  match bs, h with
  | [b₀, b₁, b₂, b₃, b₄, b₅, b₆, b₇], _ =>
    have h₂ : leBytes 2 (leNat [b₂, b₃]) = [b₂, b₃] := leBytes_leNat rfl
    have h₄ : leBytes 4 (leNat [b₄, b₅, b₆, b₇]) = [b₄, b₅, b₆, b₇] := leBytes_leNat rfl
    have hlt₂ := leNat_lt [b₂, b₃]
    have hlt₄ := leNat_lt [b₄, b₅, b₆, b₇]
    simp only [List.length_cons, List.length_nil] at hlt₂ hlt₄
    simp only [ofBytes, toBytes, List.getD_cons_zero, List.getD_cons_succ, List.drop_succ_cons, List.drop_zero,
      List.take_succ_cons, List.take_zero, UInt16.toUInt16_toInt16, UInt8.toUInt8_toInt8, UInt16.toNat_ofNat',
      UInt32.toNat_ofNat']
    rw [Nat.mod_eq_of_lt (by simpa using hlt₂), Nat.mod_eq_of_lt (by simpa using hlt₄), h₂, h₄]
    rfl

end CpMsgHeader

/-! ## Messages -/

structure Msg where
  hdr : CpMsgHeader
  body : Block maxCpMsgData
deriving DecidableEq

namespace Msg

/-- `enum { version = 1 }`. -/
def version : Int8 := 1

/-- `bodyLength()`: the 16-bit field as an `int`. -/
def bodyLength (m : Msg) : Int := m.hdr.bodyLength.toInt

/-- `length()`. -/
def length (m : Msg) : Int := hdrLength + m.hdr.bodyLength.toInt

/-- `msgId()`: the unsigned field as an `int`. -/
def msgId (m : Msg) : Int := m.hdr.msgId.toInt32.toInt

/-- `setBodyLength`: the assignment narrows to 16 bits, the clamp looks at the narrowed value. -/
def setBodyLength (m : Msg) (length : Int) : Msg :=
  let hdr := { m.hdr with bodyLength := Int16.ofInt length }
  if hdr.bodyLength.toInt > (maxCpMsgData : Int) then
    { m with hdr := { hdr with bodyLength := Int16.ofInt maxCpMsgData } }
  else { m with hdr := hdr }

/-- `checkHeader`: the fields are promoted to `int` before they are compared. -/
def checkHeader (m : Msg) : Bool :=
  if m.hdr.version ≠ version then false
  else if m.hdr.bodyLength.toInt > maxCpMsgData then false
  else if m.hdr.result.toInt > ResponseCode.error.val then false
  else true

/-- `encodeMsg(msgId, result, data, dataLength)`; `data` is null or the bytes it points at. Whether to copy is decided
on the narrowed length, how much on the given one; a copy that leaves the body or the data is undefined. -/
def encodeMsg (m : Msg) (msgId : MsgId) (result : ResponseCode) (data : Option (List UInt8)) (dataLength : Int) :
    Option Msg :=
  let hdr : CpMsgHeader :=
    { version := version
      msgId := UInt32.ofNat msgId.val
      result := Int8.ofInt result.val
      bodyLength := Int16.ofInt dataLength }
  match data with
  | some data =>
    if hdr.bodyLength.toInt > 0 then (m.body.memcpy data (toSizeT dataLength)).map fun body => ⟨hdr, body⟩
    else some ⟨hdr, m.body⟩
  | none => some ⟨hdr, m.body⟩

/-- `encodeMsg(msgId, data, dataLength)`. -/
def encodeMsgNoResult (m : Msg) (msgId : MsgId) (data : Option (List UInt8)) (dataLength : Int) : Option Msg :=
  m.encodeMsg msgId .noneCode data dataLength

/-- The memory of a message, from `data()` on. -/
def image (m : Msg) : List UInt8 := m.hdr.toBytes ++ m.body.bytes

/-- What is sent of a message: `length()` bytes from `data()` on. -/
def wire (m : Msg) : List UInt8 := m.image.take (toSizeT m.length)

/-- The first `bodyLength` bytes of the body. -/
def payload (m : Msg) : List UInt8 := m.body.bytes.take m.bodyLength.toNat

/-- The message's length field says what a body can hold. -/
def InRange (m : Msg) : Prop := 0 ≤ m.bodyLength ∧ m.bodyLength ≤ maxCpMsgData

/-- Zeroed memory. -/
def zero : Msg := ⟨⟨0, 0, 0, 0⟩, .zero maxCpMsgData⟩

/-- The text "hi". -/
def hello : Msg := ⟨⟨version, 0, 2, 3⟩, (Block.zero maxCpMsgData).store [104, 105]⟩

instance (m : Msg) : Decidable m.InRange := inferInstanceAs (Decidable (_ ∧ _))

/-- Bytes read from the network stored at `head()`. -/
def storeHead (m : Msg) (bs : List UInt8) : Msg := { m with hdr := .ofBytes (overwrite m.hdr.toBytes bs) }

/-- Bytes read from the network stored at `body()`. -/
def storeBody (m : Msg) (bs : List UInt8) : Msg := { m with body := m.body.store bs }

@[simp] theorem length_image (m : Msg) : m.image.length = 1032 := by
  simp [image, hdrLength, maxCpMsgData]

/-! ### Lengths -/

theorem bodyLength_le (m : Msg) : m.bodyLength ≤ 32767 := by
  have := m.hdr.bodyLength.toInt_lt
  simp only [bodyLength]
  omega

theorem le_bodyLength (m : Msg) : -32768 ≤ m.bodyLength := m.hdr.bodyLength.le_toInt

theorem length_eq (m : Msg) : m.length = 8 + m.bodyLength := rfl

theorem InRange.toSizeT_bodyLength {m : Msg} (h : m.InRange) : toSizeT m.bodyLength = m.bodyLength.toNat :=
  toSizeT_of_nonneg h.1 (by have := m.bodyLength_le; omega)

theorem InRange.toSizeT_length {m : Msg} (h : m.InRange) : toSizeT m.length = 8 + m.bodyLength.toNat := by
  have hle := m.bodyLength_le
  have h₀ := h.1
  rw [length_eq, toSizeT_of_nonneg (by omega) (by omega)]
  omega

theorem InRange.bodyLength_toNat_le {m : Msg} (h : m.InRange) : m.bodyLength.toNat ≤ maxCpMsgData := by
  have := h.2
  omega

/-- A length that gives a size that fits is no negative one. -/
theorem inRange_of_toSizeT_le {m : Msg} (h : toSizeT m.bodyLength ≤ maxCpMsgData) : m.InRange := by
  have hle := m.bodyLength_le
  have hge := m.le_bodyLength
  simp only [maxCpMsgData] at h
  by_cases hneg : m.bodyLength < 0
  · have := toSizeT_of_neg hneg (by omega)
    omega
  · have := toSizeT_of_nonneg (n := m.bodyLength) (by omega) (by omega)
    refine ⟨by omega, ?_⟩
    simp only [maxCpMsgData]
    omega

/-- In range, the wire image is the header and the payload. -/
theorem wire_eq {m : Msg} (h : m.InRange) : m.wire = m.hdr.toBytes ++ m.payload := by
  rw [wire, image, h.toSizeT_length, payload]
  have hh : m.hdr.toBytes.length = 8 := m.hdr.length_toBytes
  rw [List.take_append, hh, List.take_of_length_le (by omega), Nat.add_sub_cancel_left]

example : hello.wire = [1, 0, 2, 0, 3, 0, 0, 0, 104, 105] := by decide +kernel

theorem length_payload {m : Msg} (h : m.InRange) : m.payload.length = m.bodyLength.toNat := by
  have := h.bodyLength_toNat_le
  simp only [payload, List.length_take, Block.length_bytes]
  omega

/-! ### Storing -/

/-- A complete header replaces the one in the buffer. -/
theorem storeHead_toBytes (m : Msg) (h : CpMsgHeader) : m.storeHead h.toBytes = ⟨h, m.body⟩ := by
  simp only [storeHead]
  rw [overwrite_full (by simp), CpMsgHeader.ofBytes_toBytes]

/-- A body received in full is the payload of the message. -/
theorem payload_storeBody {m : Msg} {bs : List UInt8} (hm : m.InRange) (hlen : bs.length = toSizeT m.bodyLength) :
    (m.storeBody bs).payload = bs := by
  have hn := hm.toSizeT_bodyLength
  have hle := hm.bodyLength_toNat_le
  show (overwrite m.body.bytes bs).take m.bodyLength.toNat = bs
  rw [← hn, ← hlen, take_overwrite (by simp; omega)]

/-! ### `encodeMsg` -/

/-- The header `encodeMsg` writes. -/
def header (msgId : MsgId) (result : ResponseCode) (dataLength : Int) : CpMsgHeader where
  version := version
  result := Int8.ofInt result.val
  bodyLength := Int16.ofInt dataLength
  msgId := UInt32.ofNat msgId.val

theorem hdr_encodeMsg {m m' : Msg} {msgId : MsgId} {result : ResponseCode} {data : Option (List UInt8)}
    {dataLength : Int} (h : m.encodeMsg msgId result data dataLength = some m') :
    m'.hdr = header msgId result dataLength := by
  unfold encodeMsg at h
  cases data with
  | none =>
    obtain rfl := Option.some.inj h
    rfl
  | some data =>
    simp only at h
    split at h
    · obtain ⟨body, -, rfl⟩ := Option.map_eq_some_iff.1 h
      rfl
    · obtain rfl := Option.some.inj h
      rfl

/-! ### `checkHeader` -/

/-- The comparison of an 8-bit `result` with `ERROR` never fails. -/
theorem result_le_error (m : Msg) : ¬ m.hdr.result.toInt > ResponseCode.error.val := by
  have := m.hdr.result.toInt_lt
  simp only [ResponseCode.val]
  omega

/-- What `checkHeader` checks: the version, and one side of the length. -/
theorem checkHeader_iff (m : Msg) : m.checkHeader = true ↔ m.hdr.version = version ∧ m.bodyLength ≤ maxCpMsgData := by
  have hr := result_le_error m
  simp only [checkHeader, if_neg hr, bodyLength]
  split_ifs with hv hl
  · simp [hv]
  · simp [hl]
  · push Not at hv hl
    simp [hv, hl]

end Msg

end Torinet
