import Mathlib
import TinyCLR.Support.CRC

/-!
# Packets of the wire protocol

A packet header is a structure of 32 bytes. The CRC of the header is computed over the structure
with its own CRC field set to zero.
-/

namespace TinyCLR.WireProtocol

open Support

abbrev Byte := BitVec 8

/-- `MARKER_DEBUGGER_V1`, the string `MSdbgV1` with its terminator. -/
def markerDebuggerV1 : List Byte := [0x4D, 0x53, 0x64, 0x62, 0x67, 0x56, 0x31, 0x00]

/-- `MARKER_PACKET_V1`, the string `MSpktV1` with its terminator. -/
def markerPacketV1 : List Byte := [0x4D, 0x53, 0x70, 0x6B, 0x74, 0x56, 0x31, 0x00]

def markers : List (List Byte) := [markerDebuggerV1, markerPacketV1]

theorem length_marker {marker : List Byte} (h : marker ∈ markers) : marker.length = 8 := by
  fin_cases h <;> rfl

namespace Flags

def nonCritical : BitVec 32 := 0x0001
def reply : BitVec 32 := 0x0002
def badHeader : BitVec 32 := 0x0004
def badPayload : BitVec 32 := 0x0008
def nack : BitVec 32 := 0x4000

end Flags

/-- `WP_Packet` -/
structure Packet where
  signature : List Byte
  crcHeader : BitVec 32
  crcData : BitVec 32
  cmd : BitVec 32
  seq : BitVec 16
  seqReply : BitVec 16
  flags : BitVec 32
  size : BitVec 32
  deriving DecidableEq

/-- `sizeof(WP_Packet)` -/
def sizeofPacket : Nat := 32

/-- `sizeof(m_header.m_signature)` -/
def sizeofSignature : Nat := 8

def halfBytes (w : BitVec 16) : List Byte := [w.extractLsb' 0 8, w.extractLsb' 8 8]

/-- The word that is stored from the given byte on. -/
def wordAt (bytes : List Byte) (i : Nat) : BitVec 32 :=
  bytes.getD (i + 3) 0 ++ bytes.getD (i + 2) 0 ++ bytes.getD (i + 1) 0 ++ bytes.getD i 0

def halfAt (bytes : List Byte) (i : Nat) : BitVec 16 :=
  bytes.getD (i + 1) 0 ++ bytes.getD i 0

theorem word_of_wordBytes (w : BitVec 32) :
    w.extractLsb' 24 8 ++ w.extractLsb' 16 8 ++ w.extractLsb' 8 8 ++ w.extractLsb' 0 8 = w := by
  apply BitVec.eq_of_getLsbD_eq
  intro i hi
  simp only [BitVec.getLsbD_append, BitVec.getLsbD_extractLsb']
  grind

theorem half_of_halfBytes (w : BitVec 16) : w.extractLsb' 8 8 ++ w.extractLsb' 0 8 = w := by
  apply BitVec.eq_of_getLsbD_eq
  intro i hi
  simp only [BitVec.getLsbD_append, BitVec.getLsbD_extractLsb']
  grind

namespace Packet

/-- The structure as it lies in memory. -/
def bytes (p : Packet) : List Byte :=
  p.signature ++ (wordBytes p.crcHeader ++ (wordBytes p.crcData ++ (wordBytes p.cmd ++
    (halfBytes p.seq ++ (halfBytes p.seqReply ++ (wordBytes p.flags ++ wordBytes p.size))))))

/-- The structure that the bytes of a header buffer hold. -/
def ofBytes (buf : List Byte) : Packet where
  signature := buf.take sizeofSignature
  crcHeader := wordAt buf 8
  crcData := wordAt buf 12
  cmd := wordAt buf 16
  seq := halfAt buf 20
  seqReply := halfAt buf 22
  flags := wordAt buf 24
  size := wordAt buf 28

theorem length_bytes (p : Packet) (h : p.signature.length = sizeofSignature) :
    p.bytes.length = sizeofPacket := by
  simp only [bytes, List.length_append, h]
  rfl

/-- A structure is read back from the bytes in which it is stored. -/
theorem ofBytes_bytes (p : Packet) (h : p.signature.length = sizeofSignature) :
    ofBytes p.bytes = p := by
  obtain ⟨signature, crcHeader, crcData, cmd, seq, seqReply, flags, size⟩ := p
  match signature, h with
  | [s₀, s₁, s₂, s₃, s₄, s₅, s₆, s₇], _ =>
      show Packet.mk [s₀, s₁, s₂, s₃, s₄, s₅, s₆, s₇] _ _ _ _ _ _ _ = _
      congr 1
      · exact word_of_wordBytes crcHeader
      · exact word_of_wordBytes crcData
      · exact word_of_wordBytes cmd
      · exact half_of_halfBytes seq
      · exact half_of_halfBytes seqReply
      · exact word_of_wordBytes flags
      · exact word_of_wordBytes size

/-- The CRC of a header, with the CRC field set to zero. -/
def computeHeaderCRC (p : Packet) : BitVec 32 :=
  computeCRC { p with crcHeader := 0 }.bytes 0

/-- `VerifyHeader` -/
def verifyHeader (p : Packet) : Bool := p.computeHeaderCRC == p.crcHeader

/-- `VerifyPayload`; a buffer that is absent has no bytes. -/
def verifyPayload (p : Packet) (payload : Option (List Byte)) : Bool :=
  if payload = none ∧ p.size ≠ 0 then false else computeCRC (payload.getD []) 0 == p.crcData

end Packet

/-- The fields of `WP_Controller` that messages use, with the state of the application. -/
structure Controller (σ : Type*) where
  szMarker : Option (List Byte)
  lastOutboundMessage : BitVec 16
  state : σ

namespace Controller

variable {σ : Type*} (c : Controller σ)

def outboundMarker : List Byte := c.szMarker.getD markerPacketV1

/-- What `PrepareRequest` and `PrepareReply` have in common. -/
def prepare (cmd : BitVec 32) (seqReply : BitVec 16) (flags : BitVec 32) (payload : List Byte) :
    Packet × Controller σ :=
  let header : Packet :=
    { signature := c.outboundMarker
      crcHeader := 0
      crcData := computeCRC payload 0
      cmd := cmd
      seq := c.lastOutboundMessage
      seqReply := seqReply
      flags := flags
      size := BitVec.ofNat 32 payload.length }
  ({ header with crcHeader := computeCRC header.bytes 0 },
    { c with lastOutboundMessage := c.lastOutboundMessage + 1 })

def prepareRequest (cmd flags : BitVec 32) (payload : List Byte) : Packet × Controller σ :=
  c.prepare cmd 0 flags payload

def prepareReply (req : Packet) (flags : BitVec 32) (payload : List Byte) : Packet × Controller σ :=
  c.prepare req.cmd req.seq (flags ||| Flags.reply) payload

end Controller

/-! ## Frames -/

/-- A header together with its payload. -/
structure Frame where
  header : Packet
  payload : List Byte

/-- A frame that a receiver can accept. -/
structure Frame.Valid (f : Frame) : Prop where
  signature : f.header.signature ∈ markers
  header : f.header.verifyHeader = true
  size : f.header.size.toNat = f.payload.length
  payload : computeCRC f.payload 0 = f.header.crcData

namespace Frame

def bytes (f : Frame) : List Byte := f.header.bytes ++ f.payload

variable {f : Frame}

theorem Valid.length_signature (h : f.Valid) : f.header.signature.length = sizeofSignature :=
  length_marker h.signature

theorem Valid.startsWithMarker (h : f.Valid) : ∃ marker ∈ markers, marker <+: f.bytes :=
  ⟨f.header.signature, h.signature,
    (List.prefix_append _ _).trans (List.prefix_append f.header.bytes f.payload)⟩

end Frame

variable {σ : Type*}

theorem Controller.prepare_valid (c : Controller σ) (hmarker : c.outboundMarker ∈ markers)
    (cmd : BitVec 32) (seqReply : BitVec 16) (flags : BitVec 32) {payload : List Byte}
    (hsize : payload.length < 2 ^ 32) :
    Frame.Valid ⟨(c.prepare cmd seqReply flags payload).1, payload⟩ where
  signature := hmarker
  header := beq_self_eq_true _
  size := Nat.mod_eq_of_lt hsize
  payload := rfl

/-- What a controller with one of the two markers sends, by `PrepareRequest` or by
`PrepareReply`. -/
inductive Sent : Frame → Prop where
  | request (c : Controller σ) (cmd flags : BitVec 32) (payload : List Byte) :
      c.outboundMarker ∈ markers → payload.length < 2 ^ 32 →
        Sent ⟨(c.prepareRequest cmd flags payload).1, payload⟩
  | reply (c : Controller σ) (req : Packet) (flags : BitVec 32) (payload : List Byte) :
      c.outboundMarker ∈ markers → payload.length < 2 ^ 32 →
        Sent ⟨(c.prepareReply req flags payload).1, payload⟩

theorem Sent.valid {f : Frame} (h : Sent (σ := σ) f) : f.Valid := by
  cases h with
  | request c cmd flags payload hmarker hsize => exact c.prepare_valid hmarker cmd 0 flags hsize
  | reply c req flags payload hmarker hsize =>
      exact c.prepare_valid hmarker req.cmd req.seq (flags ||| Flags.reply) hsize

end TinyCLR.WireProtocol
