import Torinet.Message.Lengths

/-!
# Codes of messages

A result is a 16-bit code, and its field in the header has 8 bits. Everything else that `encodeMsg` is given comes back
from the wire image (`readBack_encode`); the result does only if it is `noneCode` (`faithful_iff`). Codes whose lowest
8 bits agree cannot be told apart, which the codes of a failure and of the matching success do.
-/

namespace Torinet

open Lib

namespace Msg

variable {m m' m₀ : Msg}

/-- What is encoded. -/
structure Content where
  msgId : MsgId
  result : ResponseCode
  data : List UInt8
  length_data : data.length ≤ maxCpMsgData

namespace Content

/-- `encodeMsg` of all the data. -/
def encode (x : Content) (m : Msg) : Option Msg := m.encodeMsg x.msgId x.result (some x.data) x.data.length

/-- The two would be the same but for their results, of which only the lowest 8 bits agree. -/
def Collide (x y : Content) : Prop :=
  x.msgId = y.msgId ∧ x.data = y.data ∧ x.result ≠ y.result ∧ Int8.ofInt x.result.val = Int8.ofInt y.result.val

end Content

/-- A wire image stored in a buffer, the header first. -/
def readBack (m : Msg) (bs : List UInt8) : Msg := (m.storeHead (bs.take hdrLength)).storeBody (bs.drop hdrLength)

/-- What is read back is what was encoded, and the check rejects it iff its result is above `error`. -/
structure Faithful (x : Content) (m : Msg) : Prop where
  msgId : m.hdr.msgId.toNat = x.msgId.val
  result : m.hdr.result.toInt = x.result.val
  bodyLength : m.bodyLength = x.data.length
  payload : m.payload = x.data
  checkHeader : m.checkHeader = false ↔ x.result.val > ResponseCode.error.val

/-- The content is encoded over `m₀`, and read back faithfully into `m₁` from the wire image. -/
def Content.ReadsBack (x : Content) (m₀ m₁ : Msg) : Prop := ∃ m, x.encode m₀ = some m ∧ Faithful x (m₁.readBack m.wire)

/-- Equal wire images are those of one content. -/
def Content.ToldApart (x y : Content) (m₀ : Msg) : Prop :=
  ∀ m m', x.encode m₀ = some m → y.encode m₀ = some m' → m.wire = m'.wire → x = y

/-- Encoding what a body can hold. -/
theorem Content.encode_spec (x : Content) (m₀ : Msg) : ∃ m, x.encode m₀ = some m ∧
    m.hdr = header x.msgId x.result x.data.length ∧ m.bodyLength = x.data.length ∧ m.payload = x.data := by
  have hle := x.length_data
  simp only [maxCpMsgData] at hle
  have hint : (Int32.ofInt x.data.length).toInt = x.data.length := Int32.toInt_ofInt_of_le (by omega) (by omega)
  let src : Source := ⟨.ofInt x.data.length, x.data, hint.le⟩
  have hfits : (Call.encodeMsg x.msgId x.result src).Fits := by
    refine Or.inl ⟨?_, ?_⟩
    · simp [Call.length, src, hint]
    · simp only [Call.length, src, hint, maxCpMsgData]
      omega
  obtain ⟨m, hs, hm⟩ := (represents_call_iff m₀ _).2 hfits
  have hs : x.encode m₀ = some m := by rwa [call, hint] at hs
  have hlen : m.bodyLength = x.data.length := by
    rw [bodyLength, hdr_encodeMsg hs]
    exact narrow_of_le (by omega) (by simp only [maxCpMsgData]; omega)
  refine ⟨m, hs, hdr_encodeMsg hs, hlen, ?_⟩
  rw [(hm.encoded src rfl).2, hlen, Int.toNat_natCast, List.take_length]

/-- Its wire image is the header and the data. -/
theorem Content.wire_encode {x : Content} (he : x.encode m₀ = some m) :
    m.InRange ∧ m.wire = (header x.msgId x.result x.data.length).toBytes ++ x.data := by
  obtain ⟨m', he', hhdr, hlen, hp⟩ := x.encode_spec m₀
  obtain rfl : m = m' := Option.some.inj (he.symm.trans he')
  have hle := x.length_data
  have hin : m.InRange := ⟨by omega, by omega⟩
  exact ⟨hin, by rw [wire_eq hin, hhdr, hp]⟩

/-- **What is encoded comes back**, but for the upper bits of the result. -/
theorem readBack_encode {x : Content} (he : x.encode m₀ = some m) (m₁ : Msg) :
    (m₁.readBack m.wire).hdr = header x.msgId x.result x.data.length ∧
      (m₁.readBack m.wire).bodyLength = x.data.length ∧ (m₁.readBack m.wire).payload = x.data := by
  obtain ⟨hin, hwire⟩ := x.wire_encode he
  have hle := x.length_data
  have hlen : (⟨header x.msgId x.result x.data.length, m₁.body⟩ : Msg).bodyLength = x.data.length :=
    narrow_of_le (by omega) (by omega)
  have hback : m₁.readBack m.wire = (⟨header x.msgId x.result x.data.length, m₁.body⟩ : Msg).storeBody x.data := by
    rw [hwire, readBack, List.take_left' (by simp), List.drop_left' (by simp), storeHead_toBytes]
  have hin₁ : (⟨header x.msgId x.result x.data.length, m₁.body⟩ : Msg).InRange := ⟨by omega, by omega⟩
  rw [hback]
  refine ⟨rfl, hlen, payload_storeBody hin₁ ?_⟩
  rw [hin₁.toSizeT_bodyLength, hlen, Int.toNat_natCast]

/-- Ids fit into their field. -/
theorem toNat_msgId (msgId : MsgId) : (UInt32.ofNat msgId.val).toNat = msgId.val := by
  cases msgId <;> rfl

theorem val_injective {i j : MsgId} (h : i.val = j.val) : i = j := by
  cases i <;> cases j <;> first | rfl | cases h

/-- The only result that fits into its field is `noneCode`. -/
theorem toInt_result_iff (result : ResponseCode) :
    (Int8.ofInt result.val).toInt = result.val ↔ result = .noneCode := by
  cases result <;> decide

/-- Wire images agree when ids, data and the lowest 8 bits of the results do. -/
theorem wire_eq_iff {x y : Content} (hx : x.encode m₀ = some m) (hy : y.encode m₀ = some m') : m.wire = m'.wire ↔
    x.msgId = y.msgId ∧ x.data = y.data ∧ Int8.ofInt x.result.val = Int8.ofInt y.result.val := by
  rw [(Content.wire_encode hx).2, (Content.wire_encode hy).2]
  constructor
  · intro h
    obtain ⟨hhead, hdata⟩ := List.append_inj h (by simp)
    have hhdr : header x.msgId x.result x.data.length = header y.msgId y.result y.data.length := by
      rw [← CpMsgHeader.ofBytes_toBytes (header x.msgId _ _), hhead, CpMsgHeader.ofBytes_toBytes]
    have hid := congrArg (fun h => h.msgId.toNat) hhdr
    refine ⟨val_injective ?_, hdata, congrArg CpMsgHeader.result hhdr⟩
    simpa only [header, toNat_msgId] using hid
  · rintro ⟨hid, hdata, hres⟩
    rw [header, header, hid, hdata, hres]

/-- Only `noneCode` comes back. -/
theorem readsBack_iff (x : Content) (m₀ m₁ : Msg) : x.ReadsBack m₀ m₁ ↔ x.result = .noneCode := by
  obtain ⟨m, he, -⟩ := x.encode_spec m₀
  obtain ⟨hhdr, hlen, hp⟩ := readBack_encode he m₁
  constructor
  · rintro ⟨m', he', h⟩
    obtain rfl : m = m' := Option.some.inj (he.symm.trans he')
    have hres := h.result
    rw [hhdr] at hres
    exact (toInt_result_iff _).1 hres
  · intro hres
    refine ⟨m, he, ?_, ?_, hlen, hp, ?_⟩
    · rw [hhdr]
      exact toNat_msgId _
    · rw [hhdr]
      exact (toInt_result_iff _).2 hres
    · have hle := x.length_data
      have hck : (m₁.readBack m.wire).checkHeader = true := by
        refine (checkHeader_iff _).2 ⟨by rw [hhdr]; rfl, ?_⟩
        rw [hlen]
        exact_mod_cast hle
      simp [hck, hres, ResponseCode.val]

/-- Only contents that collide are not told apart. -/
theorem toldApart_iff (x y : Content) (m₀ : Msg) : x.ToldApart y m₀ ↔ ¬ x.Collide y := by
  obtain ⟨m, hx, -⟩ := x.encode_spec m₀
  obtain ⟨m', hy, -⟩ := y.encode_spec m₀
  constructor
  · rintro h ⟨hid, hdata, hne, hres⟩
    exact hne (congrArg Content.result (h m m' hx hy ((wire_eq_iff hx hy).2 ⟨hid, hdata, hres⟩)))
  · intro h m m' hx hy hwire
    obtain ⟨hid, hdata, hres⟩ := (wire_eq_iff hx hy).1 hwire
    have hcode : x.result = y.result := by_contra fun hne => h ⟨hid, hdata, hne, hres⟩
    cases x
    cases y
    simp only at hid hdata hcode
    subst hid hdata hcode
    rfl

/-- **When encoding is faithful**: a content is read back as it was encoded, and is rejected for its result when it is
to be, iff the result is `noneCode`; and two contents are told apart unless they collide. -/
theorem faithful_iff (x y : Content) (m₀ m₁ : Msg) :
    (x.ReadsBack m₀ m₁ ↔ x.result = .noneCode) ∧ (x.ToldApart y m₀ ↔ ¬ x.Collide y) :=
  ⟨readsBack_iff x m₀ m₁, toldApart_iff x y m₀⟩

/-- That a user was created, or not. -/
def userCreated : Content := ⟨.rsCreateUser, .createUserSuccess, [], by decide⟩

def userNotCreated : Content := ⟨.rsCreateUser, .createUserFail, [], by decide⟩

/-- Both are the same message, which has neither result, and which is not rejected. -/
theorem userNotCreated_not_readsBack : ¬ userNotCreated.ReadsBack .zero .zero ∧
    ¬ userCreated.ToldApart userNotCreated .zero := by
  constructor
  · rintro ⟨m, he, h⟩
    obtain rfl := Option.some.inj he
    exact absurd h.result (by decide +kernel)
  · intro h
    exact absurd (congrArg Content.result (h _ _ rfl rfl rfl)) (by decide)

end Msg

end Torinet
