import Mathlib
import TinyCLR.Network.BitArrayAgreement
import TinyCLR.Network.Frame

/-!
# Fragments

A message of the 802.15.4 stack is sent in fragments. A header of 16 bits stands before the number
of fragments and the index of one, or before the last number that was received and the table of
the fragments that are missing.
-/

namespace TinyCLR.Network

open PackedBits

inductive FragmentType where
  /-- 0 -/
  | data
  /-- 1 -/
  | ack
  deriving DecidableEq, Repr

@[ext] structure FragmentHeader where
  type : FragmentType
  messageSeqNumber : Byte
  isAckRequired : Bool
  fragmentSeqNumber : Byte
  deriving DecidableEq

namespace FragmentHeader

/-- `Encode`: the type is bit 0, the flag bit 1, six bits are left for the number of the fragment,
the number of the message is the high byte. -/
def encode (header : FragmentHeader) : BitVec 16 :=
  let utype : BitVec 16 := match header.type with
    | .data => 0
    | .ack => 1
  (utype &&& 0x0001#16) <<< 0 |||
    header.messageSeqNumber.setWidth 16 <<< 8 |||
    (header.fragmentSeqNumber.setWidth 16 &&& 0x003F#16) <<< 2 |||
    (if header.isAckRequired then 0x0001#16 <<< 1 else 0)

def decode (value : BitVec 16) : FragmentHeader where
  type := if (value >>> 0) &&& 0x0001#16 = 0 then .data else .ack
  isAckRequired := decide (0 < value &&& 0x0001#16 <<< 1)
  messageSeqNumber := ((value >>> 8) &&& 0x00FF#16).setWidth 8
  fragmentSeqNumber := ((value >>> 2) &&& 0x003F#16).setWidth 8

end FragmentHeader

/-- `Fragment.CreateAckFragmentFrame`. -/
def createAckFragmentFrame (messageSeqNumber fragmentSeqNumber : Byte) (pduSize : ℤ)
    (reservedTail reservedHead : ℕ) (lastFragmentSeqNumberReceived : Byte)
    (fragmentMissingTable : BitArray) : Except Exception Frame := do
  let byteArray := fragmentMissingTable.toByteArray
  if pduSize < 2 + 1 + byteArray.length + 1 then throw .argument
  let header : FragmentHeader := ⟨.ack, messageSeqNumber, false, fragmentSeqNumber⟩
  let frame := Frame.getFrame (reservedHead + reservedTail + 2 + 1 + byteArray.length + 1)
  let frame := frame.reserveHeader reservedHead
  let serializedHdr := header.encode
  let frame ← frame.allocBack 4
  let frame ← frame.writeUInt16 0 serializedHdr
  let frame ← frame.write 2 lastFragmentSeqNumberReceived
  let frame ← frame.write 3 (BitVec.ofNat 8 fragmentMissingTable.size)
  frame.appendToBack byteArray 0 byteArray.length

/-- `Fragment.CreateDataFrame`. -/
def createDataFrame (messageSeqNumber fragmentSeqNumber : Byte) (requireAck : Bool) (pduSize : ℤ)
    (reservedTail reservedHead : ℕ) (nbFragments fragmentIndex : Byte) (payloadData : Frame)
    (indexPayloadData nbBytes : ℕ) : Except Exception Frame := do
  if pduSize < 2 + 2 + nbBytes then throw .argument
  let header : FragmentHeader := ⟨.data, messageSeqNumber, requireAck, fragmentSeqNumber⟩
  let frame := Frame.getFrame (reservedHead + reservedTail + 2 + 2 + nbBytes)
  let frame := frame.reserveHeader reservedHead
  let serializedHdr := header.encode
  let frame ← frame.allocBack 4
  let frame ← frame.writeUInt16 0 serializedHdr
  let frame ← frame.write 2 nbFragments
  let frame ← frame.write 3 fragmentIndex
  frame.appendFrameToBack payloadData indexPayloadData nbBytes

/-- `Fragment.DecodeAckPayload`. -/
def decodeAckPayload (payload : Frame) : Except Exception (Byte × BitArray) := do
  if payload.lenData < 2 then throw .argument
  let lastFragmentSeqNumberReceived ← payload.readByte 0
  let nbFragments ← payload.readByte 1
  let byteArray ← payload.readBytes 2 (payload.lenData - 2)
  let fragmentMissingTable ← BitArray.fromByteArray nbFragments.toNat byteArray
  return (lastFragmentSeqNumberReceived, fragmentMissingTable)

/-- `Fragment.DecodeDataPayload`. -/
def decodeDataPayload (payload : Frame) : Except Exception (Byte × Byte × Frame) := do
  if payload.lenData < 2 then throw .argument
  let nbFragments ← payload.readByte 0
  let fragmentIndex ← payload.readByte 1
  if nbFragments = 0 then throw .argumentOutOfRange
  if nbFragments ≤ fragmentIndex then throw .argumentOutOfRange
  let data ← payload.deleteFromFront 2
  return (nbFragments, fragmentIndex, data)

/-- What is done with a frame that is received, before its payload is decoded. -/
def takeHeader (sdu : Frame) : Except Exception (FragmentHeader × Frame) := do
  let value ← sdu.readUInt16 0
  let payload ← sdu.deleteFromFront 2
  return (FragmentHeader.decode value, payload)

def decodeAckFrame (frame : Frame) : Except Exception (FragmentHeader × Byte × BitArray) := do
  let (header, payload) ← takeHeader frame
  let (lastFragmentSeqNumberReceived, fragmentMissingTable) ← decodeAckPayload payload
  return (header, lastFragmentSeqNumberReceived, fragmentMissingTable)

def decodeDataFrame (frame : Frame) :
    Except Exception (FragmentHeader × Byte × Byte × Frame) := do
  let (header, payload) ← takeHeader frame
  let (nbFragments, fragmentIndex, data) ← decodeDataPayload payload
  return (header, nbFragments, fragmentIndex, data)

section Header

theorem getLsbD_lowByte (val : BitVec 16) {i : ℕ} (hi : i < 8) :
    ((val &&& 0xFF#16).setWidth 8).getLsbD i = val.getLsbD i := by
  have hones : (0xFF#16).getLsbD i = true := by interval_cases i <;> rfl
  rw [BitVec.getLsbD_setWidth, decide_eq_true hi, Bool.true_and, BitVec.getLsbD_and, hones,
    Bool.and_true]

theorem getLsbD_widen (y : Byte) {i : ℕ} (hi : i < 16) :
    (y.setWidth 16).getLsbD i = y.getLsbD i := by
  rw [BitVec.getLsbD_setWidth, decide_eq_true hi, Bool.true_and]

/-- The two bytes of a number make it up. -/
theorem setWidth_bytes (val : BitVec 16) :
    ((val >>> 8).setWidth 8).setWidth 16 <<< 8 ||| ((val &&& 0xFF#16).setWidth 8).setWidth 16 =
      val := by
  apply BitVec.eq_of_getLsbD_eq
  intro i hi
  rw [BitVec.getLsbD_or, BitVec.getLsbD_shiftLeft, getLsbD_widen _ hi, decide_eq_true hi]
  by_cases h : i < 8
  · rw [decide_eq_true h, getLsbD_lowByte val h]
    rfl
  · rw [decide_eq_false h, getLsbD_widen _ (by omega), BitVec.getLsbD_setWidth,
      decide_eq_true (show i - 8 < 8 by omega), BitVec.getLsbD_ushiftRight,
      show 8 + (i - 8) = i by omega,
      BitVec.getLsbD_of_ge ((val &&& 0xFF#16).setWidth 8) i (by omega), Bool.or_false]
    rfl

theorem FragmentHeader.getLsbD_encode (h : FragmentHeader) {i : ℕ} (hi : i < 16) :
    h.encode.getLsbD i =
      if i = 0 then decide (h.type = .ack) else if i = 1 then h.isAckRequired
      else if i < 8 then h.fragmentSeqNumber.getLsbD (i - 2)
      else h.messageSeqNumber.getLsbD (i - 8) := by
  obtain ⟨type, m, a, f⟩ := h
  cases type <;> cases a <;> interval_cases i <;>
    simp [FragmentHeader.encode]

theorem FragmentHeader.type_decode (value : BitVec 16) :
    (decode value).type = if value.getLsbD 0 then .ack else .data := by
  have hbit : (value >>> 0) &&& 0x0001#16 = 0 ↔ value.getLsbD 0 = false := by
    constructor
    · intro h
      have := congrArg (fun x : BitVec 16 => x.getLsbD 0) h
      simpa using this
    · intro h
      apply BitVec.eq_of_getLsbD_eq
      intro i hi
      rw [BitVec.getLsbD_and, BitVec.getLsbD_ushiftRight, Nat.zero_add]
      interval_cases i
      · rw [h]
        rfl
      all_goals exact Bool.and_false _
  rw [FragmentHeader.decode]
  dsimp only
  cases h : value.getLsbD 0 with
  | false => rw [if_pos (hbit.mpr h), if_neg Bool.false_ne_true]
  | true =>
      rw [if_neg (fun hzero => by rw [hbit.mp hzero] at h; cases h), if_pos rfl]

theorem FragmentHeader.isAckRequired_decode (value : BitVec 16) :
    (decode value).isAckRequired = value.getLsbD 1 := meets_flag value (by omega)

theorem FragmentHeader.messageSeqNumber_decode (value : BitVec 16) {i : ℕ} (hi : i < 8) :
    (decode value).messageSeqNumber.getLsbD i = value.getLsbD (8 + i) := by
  interval_cases i <;> simp [decode]

theorem FragmentHeader.fragmentSeqNumber_decode (value : BitVec 16) {i : ℕ} (hi : i < 8) :
    (decode value).fragmentSeqNumber.getLsbD i = (decide (i < 6) && value.getLsbD (2 + i)) := by
  interval_cases i <;> simp [decode]

/-- A header comes back except for the two high bits of the fragment's number. -/
theorem FragmentHeader.decode_encode (h : FragmentHeader) :
    decode h.encode = { h with fragmentSeqNumber := h.fragmentSeqNumber &&& 0x3F#8 } := by
  apply FragmentHeader.ext
  · rw [type_decode, h.getLsbD_encode (by omega), if_pos rfl]
    cases h.type <;> rfl
  · apply BitVec.eq_of_getLsbD_eq
    intro i hi
    rw [messageSeqNumber_decode _ hi, h.getLsbD_encode (by omega), if_neg (by omega),
      if_neg (by omega), if_neg (by omega), Nat.add_sub_cancel_left]
  · rw [isAckRequired_decode, h.getLsbD_encode (by omega)]
    rfl
  · apply BitVec.eq_of_getLsbD_eq
    intro i hi
    have hmask : (0x3F#8).getLsbD i = decide (i < 6) := by interval_cases i <;> rfl
    rw [fragmentSeqNumber_decode _ hi, BitVec.getLsbD_and, hmask, Bool.and_comm]
    by_cases hlow : i < 6
    · rw [h.getLsbD_encode (by omega), if_neg (by omega), if_neg (by omega), if_pos (by omega),
        Nat.add_sub_cancel_left]
    · rw [decide_eq_false hlow, Bool.and_false, Bool.and_false]

theorem and_mask_eq_iff (f : Byte) : f &&& 0x3F#8 = f ↔ f.toNat < 64 := by
  have hmod : (f &&& 0x3F#8).toNat = f.toNat % 64 := by
    rw [BitVec.toNat_and]
    exact Nat.and_two_pow_sub_one_eq_mod f.toNat 6
  rw [← BitVec.toNat_inj, hmod]
  omega

end Header

section Frames

variable {front back : List Byte} {f : Frame}

theorem bind_ok {α β : Type} {r : Except Exception α} {a : α} (h : r = .ok a)
    (g : α → Except Exception β) : (r >>= g) = g a := by
  rw [h]
  rfl

/-- A new frame with four bytes written and others appended. -/
def build (size reservedHead : ℕ) (serializedHdr : BitVec 16) (byte2 byte3 : Byte)
    (byteArray : List Byte) (index nbBytes : ℕ) : Except Exception Frame := do
  let frame ← ((Frame.getFrame size).reserveHeader reservedHead).allocBack 4
  let frame ← frame.writeUInt16 0 serializedHdr
  let frame ← frame.write 2 byte2
  let frame ← frame.write 3 byte3
  frame.appendToBack byteArray index nbBytes

theorem build_shows (reservedHead reservedTail : ℕ) (serializedHdr : BitVec 16)
    (byte2 byte3 : Byte) {byteArray : List Byte} {index nbBytes : ℕ}
    (hinside : index + nbBytes ≤ byteArray.length) (size : ℕ)
    (hsize : size = reservedHead + reservedTail + 4 + nbBytes) :
    ∃ frame, build size reservedHead serializedHdr byte2 byte3 byteArray index nbBytes =
        .ok frame ∧
      frame.Shows (List.replicate reservedHead 0)
        ((serializedHdr >>> 8).setWidth 8 :: (serializedHdr &&& 0xFF#16).setWidth 8 :: byte2 ::
          byte3 :: (byteArray.drop index).take nbBytes) (List.replicate reservedTail 0) := by
  have hrest : List.replicate (4 + (nbBytes + reservedTail)) (0 : Byte) =
      List.replicate 4 0 ++ (List.replicate nbBytes 0 ++ List.replicate reservedTail 0) := by
    rw [← List.replicate_add, ← List.replicate_add]
  have h₀ := shows_getFrame reservedHead (4 + (nbBytes + reservedTail))
  rw [hrest, show reservedHead + (4 + (nbBytes + reservedTail)) = size by omega] at h₀
  obtain ⟨f₁, hf₁, h₁⟩ := h₀.allocBack
  obtain ⟨f₂, hf₂, h₂⟩ := h₁.writeUInt16 (show 0 + 1 < 4 by omega) serializedHdr
  obtain ⟨f₃, hf₃, h₃⟩ := h₂.write (show 2 < 4 by omega) byte2
  obtain ⟨f₄, hf₄, h₄⟩ := h₃.write (show 3 < 4 by omega) byte3
  obtain ⟨f₅, hf₅, h₅⟩ := h₄.appendToBack
    (show index + (List.replicate nbBytes (0 : Byte)).length ≤ byteArray.length by
      rwa [List.length_replicate])
  rw [List.length_replicate] at hf₁ hf₅ h₅
  refine ⟨f₅, ?_, h₅⟩
  rw [build, bind_ok hf₁, bind_ok hf₂, bind_ok hf₃, bind_ok hf₄, hf₅]

theorem takeHeader_shows {header : FragmentHeader} {rest : List Byte}
    (h : f.Shows front ((header.encode >>> 8).setWidth 8 ::
      (header.encode &&& 0xFF#16).setWidth 8 :: rest) back) :
    ∃ payload front', takeHeader f = .ok (FragmentHeader.decode header.encode, payload) ∧
      payload.Shows front' rest back := by
  have hread := h.readUInt16 (i := 0) rfl rfl
  rw [setWidth_bytes] at hread
  obtain ⟨payload, hdelete, hshows⟩ := Frame.Shows.deleteFromFront
    (x := [(header.encode >>> 8).setWidth 8, (header.encode &&& 0xFF#16).setWidth 8]) h
  have htwo : f.deleteFromFront 2 = .ok payload := hdelete
  refine ⟨payload, _, ?_, hshows⟩
  rw [takeHeader, bind_ok hread, bind_ok htwo]
  rfl

/-- A payload of less than two bytes is refused. -/
theorem decode_short (h : f.lenData < 2) :
    decodeDataPayload f = .error .argument ∧ decodeAckPayload f = .error .argument := by
  constructor
  · rw [decodeDataPayload, if_pos h]
    rfl
  · rw [decodeAckPayload, if_pos h]
    rfl

theorem decodeDataPayload_shows {nbFragments fragmentIndex : Byte} {bytes : List Byte}
    (h : f.Shows front (nbFragments :: fragmentIndex :: bytes) back) :
    (nbFragments ≤ fragmentIndex ∧ decodeDataPayload f = .error .argumentOutOfRange) ∨
    (fragmentIndex < nbFragments ∧ ∃ data,
      decodeDataPayload f = .ok (nbFragments, fragmentIndex, data) ∧ data.data = bytes) := by
  have hlength : ¬f.lenData < 2 := by
    rw [h.lenData, List.length_cons, List.length_cons]
    omega
  obtain ⟨data, hdelete, hshows⟩ :=
    Frame.Shows.deleteFromFront (x := [nbFragments, fragmentIndex]) h
  rw [decodeDataPayload, if_neg hlength]
  change (_ ∧ (f.readByte 0 >>= _) = _) ∨ _ ∧ ∃ data, (f.readByte 0 >>= _) = _ ∧ _
  rw [bind_ok (h.readByte (i := 0) rfl), bind_ok (h.readByte (i := 1) rfl)]
  by_cases hle : nbFragments ≤ fragmentIndex
  · refine .inl ⟨hle, ?_⟩
    by_cases hzero : nbFragments = 0
    · rw [if_pos hzero]
      rfl
    · rw [if_neg hzero, if_pos hle]
      rfl
  · have hlt : fragmentIndex < nbFragments := BitVec.not_le.mp hle
    have hzero : nbFragments ≠ 0 := fun hzero => by
      rw [hzero] at hlt
      exact absurd hlt (by simp)
    refine .inr ⟨hlt, data, ?_, hshows.data_eq⟩
    rw [if_neg hzero, if_neg hle]
    exact bind_ok hdelete _

theorem decodeAckPayload_shows {lastFragmentSeqNumberReceived nbFragments : Byte}
    {bytes : List Byte}
    (h : f.Shows front (lastFragmentSeqNumberReceived :: nbFragments :: bytes) back) :
    decodeAckPayload f = (BitArray.fromByteArray nbFragments.toNat bytes).map fun table =>
      (lastFragmentSeqNumberReceived, table) := by
  have hlenData : f.lenData = bytes.length + 2 := by
    rw [h.lenData, List.length_cons, List.length_cons]
  have hbytes := h.readBytes (i := 2) (n := bytes.length) (by
    rw [List.length_cons, List.length_cons]
    omega)
  rw [List.drop_succ_cons, List.drop_succ_cons, List.drop_zero, List.take_length] at hbytes
  rw [decodeAckPayload, if_neg (by omega)]
  change (f.readByte 0 >>= _) = _
  rw [bind_ok (h.readByte (i := 0) rfl), bind_ok (h.readByte (i := 1) rfl), hlenData,
    Nat.add_sub_cancel, bind_ok hbytes]
  cases BitArray.fromByteArray nbFragments.toNat bytes <;> rfl

end Frames

section RoundTrips

/-- The bytes that a data fragment takes from a payload. -/
def Frame.part (payloadData : Frame) (indexPayloadData nbBytes : ℕ) : List Byte :=
  (payloadData.data.drop indexPayloadData).take nbBytes

theorem Frame.Valid.part {payloadData : Frame} (h : payloadData.Valid)
    {indexPayloadData nbBytes : ℕ} (hinside : indexPayloadData + nbBytes ≤ payloadData.lenData) :
    (payloadData.buf.drop (payloadData.lenOffset + indexPayloadData)).take nbBytes =
      payloadData.part indexPayloadData nbBytes := by
  have hread := h.shows.readBytes (i := indexPayloadData) (n := nbBytes) (by
    rwa [← h.shows.lenData])
  have hbuf : ¬payloadData.buf.length < payloadData.lenOffset + indexPayloadData + nbBytes := by
    rw [Frame.Valid] at h
    omega
  rw [Frame.readBytes, if_neg (by omega), if_neg hbuf] at hread
  exact Except.ok.inj hread

theorem ackFrame_decoded (messageSeqNumber fragmentSeqNumber : Byte) {pduSize : ℤ}
    (reservedTail reservedHead : ℕ) (lastFragmentSeqNumberReceived : Byte)
    {fragmentMissingTable : BitArray} (hsize : fragmentMissingTable.size < 256)
    (hpdu : 4 + (((fragmentMissingTable.size + 7) / 8 : ℕ) : ℤ) ≤ pduSize) :
    ∃ frame table, createAckFragmentFrame messageSeqNumber fragmentSeqNumber pduSize reservedTail
        reservedHead lastFragmentSeqNumberReceived fragmentMissingTable = .ok frame ∧
      decodeAckFrame frame = .ok (⟨.ack, messageSeqNumber, false, fragmentSeqNumber &&& 0x3F#8⟩,
        lastFragmentSeqNumberReceived, table) ∧
      table.toList = fragmentMissingTable.toList ∧
      frame.lenOffset = reservedHead ∧
      frame.buf.length = reservedHead + frame.lenData + reservedTail := by
  have hlength := fragmentMissingTable.length_toByteArray
  obtain ⟨frame, hbuild, hshows⟩ := build_shows reservedHead reservedTail
    (FragmentHeader.encode ⟨.ack, messageSeqNumber, false, fragmentSeqNumber⟩)
    lastFragmentSeqNumberReceived (BitVec.ofNat 8 fragmentMissingTable.size)
    (Nat.zero_add fragmentMissingTable.toByteArray.length).le
    (reservedHead + reservedTail + 2 + 1 + fragmentMissingTable.toByteArray.length + 1) (by omega)
  obtain ⟨payload, front', htake, hpayload⟩ := takeHeader_shows hshows
  have hdecode := decodeAckPayload_shows hpayload
  obtain ⟨table, htable, hlist⟩ := fromByteArray_toByteArray fragmentMissingTable
  have hnumber : (BitVec.ofNat 8 fragmentMissingTable.size).toNat = fragmentMissingTable.size := by
    rw [BitVec.toNat_ofNat, Nat.mod_eq_of_lt hsize]
  rw [hnumber, List.drop_zero, List.take_length, htable] at hdecode
  refine ⟨frame, table, ?_, ?_, hlist, ?_, ?_⟩
  · rw [createAckFragmentFrame]
    dsimp only
    rw [if_neg (by omega)]
    exact hbuild
  · rw [decodeAckFrame, bind_ok htake]
    dsimp only
    rw [bind_ok hdecode, FragmentHeader.decode_encode]
    rfl
  · rw [hshows.lenOffset, List.length_replicate]
  · rw [hshows.length, hshows.lenOffset, List.length_replicate, List.length_replicate]

theorem ackFrame_decoded_sample : ∃ b, BitArray.new 35 true = .ok b ∧ ∃ frame table,
    createAckFragmentFrame 7 12 127 2 3 11 b = .ok frame ∧
      decodeAckFrame frame = .ok (⟨.ack, 7, false, 12⟩, 11, table) ∧
      table.toList = b.toList ∧ frame.lenOffset = 3 ∧
      frame.buf.length = 3 + frame.lenData + 2 :=
  ⟨_, rfl, ackFrame_decoded 7 12 2 3 11 (by decide) (by decide)⟩

end RoundTrips

section Received

/-- More bytes behind the number of fragments than the words of the table have room for. -/
def Overlong : List Byte → Prop
  | _ :: nbFragments :: bytes => nbFragments.toNat ≠ 0 ∧ nbFragments.toNat ≤ bytes.length * 8 ∧
      4 * requiredUInt32ArraySize nbFragments.toNat < bytes.length
  | _ => False

/-- A value that a sender could have meant. -/
def AckPayload (data : List Byte) (lastFragmentSeqNumberReceived : Byte) (table : BitArray) :
    Prop :=
  table.size < 256 ∧ ∃ bytes,
    data = lastFragmentSeqNumberReceived :: BitVec.ofNat 8 table.size :: bytes ∧
      table.toList = (unpack bytes).take table.size

/-- The first two bytes of a payload that has them. -/
theorem Frame.Valid.two_bytes {payload : Frame} (h : payload.Valid) (hlong : ¬payload.lenData < 2) :
    ∃ b₀ b₁ bytes, payload.data = b₀ :: b₁ :: bytes := by
  rw [h.shows.lenData] at hlong
  cases hdata : payload.data with
  | nil => simp [hdata] at hlong
  | cons b₀ l =>
      cases l with
      | nil => simp [hdata] at hlong
      | cons b₁ bytes => exact ⟨b₀, b₁, bytes, rfl⟩

theorem Overlong.long {data : List Byte} (h : Overlong data) : 2 ≤ data.length := by
  cases data with
  | nil => exact h.elim
  | cons b₀ l =>
      cases l with
      | nil => exact h.elim
      | cons b₁ bytes => simp

theorem ackPayload_received {payload : Frame} (hvalid : payload.Valid) :
    (¬Overlong payload.data ∧ ((∃ last table, decodeAckPayload payload = .ok (last, table) ∧
      AckPayload payload.data last table) ∨
      ∃ e, e.isArgument = true ∧ decodeAckPayload payload = .error e)) ∨
    (Overlong payload.data ∧ decodeAckPayload payload = .error .indexOutOfRange) := by
  have hshows := hvalid.shows
  by_cases hshort : payload.lenData < 2
  · refine .inl ⟨fun hlong => ?_, .inr ⟨.argument, rfl, (decode_short hshort).2⟩⟩
    have := hlong.long
    rw [hshows.lenData] at hshort
    omega
  · obtain ⟨last, nbFragments, bytes, hdata⟩ := hvalid.two_bytes hshort
    rw [hdata] at hshows ⊢
    rw [decodeAckPayload_shows hshows]
    rcases fromByteArray_cases nbFragments.toNat bytes with ⟨hfew, h⟩ | ⟨hzero, h⟩ |
      ⟨hne, hbits, hlong, h⟩ | ⟨hne, hbits, hroom, table, h, hsize, hlist⟩
    · rw [h]
      exact .inl ⟨fun hlong => absurd hlong.2.1 (by omega), .inr ⟨.argument, rfl, rfl⟩⟩
    · rw [h]
      exact .inl ⟨fun hlong => hlong.1 hzero, .inr ⟨.argumentOutOfRange, rfl, rfl⟩⟩
    · rw [h]
      exact .inr ⟨⟨hne, hbits, hlong⟩, rfl⟩
    · rw [h]
      refine .inl ⟨fun hlong => absurd hlong.2.2 (by omega),
        .inl ⟨last, table, rfl, ?_, bytes, ?_, ?_⟩⟩
      · rw [hsize]
        exact nbFragments.isLt
      · rw [hsize, BitVec.ofNat_toNat, BitVec.setWidth_eq]
      · rw [hsize, hlist]

theorem dataPayload_received {payload : Frame} (hvalid : payload.Valid) :
    (∃ nbFragments fragmentIndex data,
      decodeDataPayload payload = .ok (nbFragments, fragmentIndex, data) ∧
      fragmentIndex < nbFragments ∧ payload.data = nbFragments :: fragmentIndex :: data.data) ∨
    ∃ e, e.isArgument = true ∧ decodeDataPayload payload = .error e := by
  have hshows := hvalid.shows
  by_cases hshort : payload.lenData < 2
  · exact .inr ⟨.argument, rfl, (decode_short hshort).1⟩
  · obtain ⟨nbFragments, fragmentIndex, bytes, hdata⟩ := hvalid.two_bytes hshort
    rw [hdata] at hshows ⊢
    rcases decodeDataPayload_shows hshows with ⟨-, h⟩ | ⟨hlt, data, h, hbytes⟩
    · exact .inr ⟨.argumentOutOfRange, rfl, h⟩
    · exact .inl ⟨nbFragments, fragmentIndex, data, h, hlt, by rw [hbytes]⟩

end Received

end TinyCLR.Network
