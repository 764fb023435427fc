import Mathlib
import TinyCLR.Network.BitArray

/-!
# Frames

A frame is a buffer with room kept at its front. The bytes behind that room, as many as are used,
are its data; numbers are written with their high byte first.
-/

namespace TinyCLR.Network

structure Frame where
  buf : List Byte
  /-- The start of the data. -/
  lenOffset : ℕ
  lenData : ℕ
  deriving DecidableEq

namespace Frame

/-- `new Frame(size)`. -/
def getFrame (size : ℕ) : Frame := ⟨List.replicate size 0, 0, 0⟩

variable (f : Frame)

def reserveHeader (len : ℕ) : Frame := { f with lenOffset := len, lenData := 0 }

/-- `AppendToBack` for an array, with `Array.Copy`. -/
def appendToBack (byteArray : List Byte) (index nbBytes : ℕ) : Except Exception Frame :=
  if f.buf.length < f.lenOffset + f.lenData + nbBytes then .error .argumentOutOfRange
  else if byteArray.length < index + nbBytes then .error .indexOutOfRange
  else .ok
    { f with
      buf := f.buf.take (f.lenOffset + f.lenData) ++ (byteArray.drop index).take nbBytes ++
        f.buf.drop (f.lenOffset + f.lenData + nbBytes)
      lenData := f.lenData + nbBytes }

/-- `AppendToBack` for a frame. -/
def appendFrameToBack (srcFrame : Frame) (index nbBytes : ℕ) : Except Exception Frame :=
  f.appendToBack srcFrame.buf (srcFrame.lenOffset + index) nbBytes

def allocBack (nbBytes : ℕ) : Except Exception Frame :=
  if f.buf.length < f.lenOffset + f.lenData + nbBytes then .error .argumentOutOfRange
  else .ok { f with lenData := f.lenData + nbBytes }

def deleteFromFront (nbBytes : ℕ) : Except Exception Frame :=
  if f.lenData < nbBytes then .error .argumentOutOfRange
  else .ok { f with lenData := f.lenData - nbBytes, lenOffset := f.lenOffset + nbBytes }

/-- `buf[i]`. -/
def byteAt (i : ℕ) : Except Exception Byte :=
  match f.buf[i]? with
  | none => .error .indexOutOfRange
  | some byte => .ok byte

/-- `buf[i] = byte`. -/
def put (i : ℕ) (byte : Byte) : Except Exception Frame :=
  if f.buf.length ≤ i then .error .indexOutOfRange
  else .ok { f with buf := f.buf.set i byte }

def readByte (indexFrame : ℕ) : Except Exception Byte :=
  if f.lenData < 1 + indexFrame then .error .argumentOutOfRange
  else f.byteAt (f.lenOffset + indexFrame)

def readUInt16 (indexFrame : ℕ) : Except Exception (BitVec 16) :=
  if f.lenData < 2 + indexFrame then .error .argumentOutOfRange
  else do
    let high ← f.byteAt (f.lenOffset + indexFrame)
    let low ← f.byteAt (f.lenOffset + indexFrame + 1)
    return high.setWidth 16 <<< 8 ||| low.setWidth 16

/-- `ReadBytes` into a new array of `nbBytes` bytes. -/
def readBytes (indexFrame nbBytes : ℕ) : Except Exception (List Byte) :=
  if f.lenData < nbBytes + indexFrame then .error .argumentOutOfRange
  else if f.buf.length < f.lenOffset + indexFrame + nbBytes then .error .indexOutOfRange
  else .ok ((f.buf.drop (f.lenOffset + indexFrame)).take nbBytes)

/-- `Write` for a byte. -/
def write (indexFrame : ℕ) (val : Byte) : Except Exception Frame :=
  if f.lenData < 1 + indexFrame then .error .argumentOutOfRange
  else f.put (f.lenOffset + indexFrame) val

/-- `Write` for a number of 16 bits. -/
def writeUInt16 (indexFrame : ℕ) (val : BitVec 16) : Except Exception Frame :=
  if f.lenData < 2 + indexFrame then .error .argumentOutOfRange
  else do
    let f ← f.put (f.lenOffset + indexFrame) ((val >>> 8).setWidth 8)
    f.put (f.lenOffset + indexFrame + 1) ((val &&& 0xFF#16).setWidth 8)

/-- The bytes of the frame. -/
def data : List Byte := (f.buf.drop f.lenOffset).take f.lenData

/-- The data are inside the buffer. -/
def Valid : Prop := f.lenOffset + f.lenData ≤ f.buf.length

/-- The parts of the buffer. -/
structure Shows (front data back : List Byte) : Prop where
  buf : f.buf = front ++ data ++ back
  lenOffset : f.lenOffset = front.length
  lenData : f.lenData = data.length

end Frame

section Parts

variable {f : Frame} {front data back : List Byte}

theorem Frame.Valid.shows (h : f.Valid) :
    f.Shows (f.buf.take f.lenOffset) f.data (f.buf.drop (f.lenOffset + f.lenData)) := by
  rw [Frame.Valid] at h
  refine ⟨?_, ?_, ?_⟩
  · rw [Frame.data, List.append_assoc, ← List.drop_drop, List.take_append_drop,
      List.take_append_drop]
  · rw [List.length_take]
    omega
  · rw [Frame.data, List.length_take, List.length_drop]
    omega

theorem Frame.Shows.data_eq (h : f.Shows front data back) : f.data = data := by
  rw [Frame.data, h.buf, h.lenOffset, h.lenData, List.append_assoc, List.drop_left, List.take_left]

theorem Frame.Shows.length (h : f.Shows front data back) :
    f.buf.length = f.lenOffset + f.lenData + back.length := by
  rw [h.buf, h.lenOffset, h.lenData, List.length_append, List.length_append]

theorem Frame.Shows.valid (h : f.Shows front data back) : f.Valid := by
  rw [Frame.Valid, h.length]
  omega

theorem shows_getFrame (head tail : ℕ) : ((Frame.getFrame (head + tail)).reserveHeader head).Shows
    (List.replicate head 0) [] (List.replicate tail 0) := by
  refine ⟨?_, ?_, rfl⟩
  · rw [List.append_nil, ← List.replicate_add]
    rfl
  · rw [List.length_replicate]
    rfl

theorem Frame.Shows.allocBack {x : List Byte} (h : f.Shows front data (x ++ back)) :
    ∃ f', f.allocBack x.length = .ok f' ∧ f'.Shows front (data ++ x) back := by
  have hlength := h.length
  rw [List.length_append] at hlength
  refine ⟨{ f with lenData := f.lenData + x.length },
    by rw [Frame.allocBack, if_neg (by omega)], ?_, h.lenOffset, ?_⟩
  · rw [h.buf, List.append_assoc, List.append_assoc, List.append_assoc]
  · rw [List.length_append, ← h.lenData]

theorem Frame.Shows.put (h : f.Shows front data back) {i : ℕ} (hi : i < data.length)
    (byte : Byte) :
    ∃ f', f.put (f.lenOffset + i) byte = .ok f' ∧ f'.Shows front (data.set i byte) back := by
  have hlength := h.length
  have hdata := h.lenData
  refine ⟨{ f with buf := f.buf.set (f.lenOffset + i) byte },
    by rw [Frame.put, if_neg (by omega)], ?_, h.lenOffset, ?_⟩
  · dsimp only
    rw [h.buf, h.lenOffset, List.append_assoc, List.set_append_right _ _ (by omega),
      Nat.add_sub_cancel_left, List.set_append_left _ _ hi, List.append_assoc]
  · rw [List.length_set, ← h.lenData]

theorem Frame.Shows.write (h : f.Shows front data back) {i : ℕ} (hi : i < data.length)
    (byte : Byte) :
    ∃ f', f.write i byte = .ok f' ∧ f'.Shows front (data.set i byte) back := by
  rw [Frame.write, h.lenData, if_neg (by omega)]
  exact h.put hi byte

theorem Frame.Shows.writeUInt16 (h : f.Shows front data back) {i : ℕ} (hi : i + 1 < data.length)
    (val : BitVec 16) :
    ∃ f', f.writeUInt16 i val = .ok f' ∧ f'.Shows front
      ((data.set i ((val >>> 8).setWidth 8)).set (i + 1) ((val &&& 0xFF#16).setWidth 8)) back := by
  obtain ⟨f₁, hput₁, hshows₁⟩ := h.put (i := i) (by omega) ((val >>> 8).setWidth 8)
  obtain ⟨f₂, hput₂, hshows₂⟩ := hshows₁.put (i := i + 1) (by rwa [List.length_set])
    ((val &&& 0xFF#16).setWidth 8)
  refine ⟨f₂, ?_, hshows₂⟩
  rw [Frame.writeUInt16, h.lenData, if_neg (by omega), hput₁, ← hput₂]
  rfl

theorem Frame.Shows.appendToBack {room : List Byte} (h : f.Shows front data (room ++ back))
    {byteArray : List Byte} {index : ℕ} (hinside : index + room.length ≤ byteArray.length) :
    ∃ f', f.appendToBack byteArray index room.length = .ok f' ∧
      f'.Shows front (data ++ (byteArray.drop index).take room.length) back := by
  have hlength := h.length
  rw [List.length_append] at hlength
  refine ⟨{ f with
    buf := f.buf.take (f.lenOffset + f.lenData) ++ (byteArray.drop index).take room.length ++
      f.buf.drop (f.lenOffset + f.lenData + room.length)
    lenData := f.lenData + room.length },
    by rw [Frame.appendToBack, if_neg (by omega), if_neg (by omega)], ?_, h.lenOffset, ?_⟩
  · have hsum : f.lenOffset + f.lenData = (front ++ data).length := by
      rw [h.lenOffset, h.lenData, List.length_append]
    have hback : f.buf.drop (f.lenOffset + f.lenData + room.length) = back := by
      rw [h.buf, hsum, ← List.length_append, ← List.append_assoc, List.drop_left]
    dsimp only
    rw [hback, h.buf, hsum, List.take_left]
    simp only [List.append_assoc]
  · rw [List.length_append, List.length_take, List.length_drop, ← h.lenData,
      Nat.min_eq_left (by omega)]

theorem Frame.Shows.byteAt (h : f.Shows front data back) {i : ℕ} {byte : Byte}
    (hbyte : data[i]? = some byte) : f.byteAt (f.lenOffset + i) = .ok byte := by
  have hi : i < data.length := (List.getElem?_eq_some_iff.mp hbyte).1
  have hbuf : f.buf[f.lenOffset + i]? = some byte := by
    rw [h.buf, h.lenOffset, List.append_assoc, List.getElem?_append_right (by omega),
      Nat.add_sub_cancel_left, List.getElem?_append_left hi, hbyte]
  rw [Frame.byteAt, hbuf]

theorem Frame.Shows.readByte (h : f.Shows front data back) {i : ℕ} {byte : Byte}
    (hbyte : data[i]? = some byte) : f.readByte i = .ok byte := by
  have hi : i < data.length := (List.getElem?_eq_some_iff.mp hbyte).1
  rw [Frame.readByte, h.lenData, if_neg (by omega)]
  exact h.byteAt hbyte

theorem Frame.Shows.readUInt16 (h : f.Shows front data back) {i : ℕ} {high low : Byte}
    (hhigh : data[i]? = some high) (hlow : data[i + 1]? = some low) :
    f.readUInt16 i = .ok (high.setWidth 16 <<< 8 ||| low.setWidth 16) := by
  have hi : i + 1 < data.length := (List.getElem?_eq_some_iff.mp hlow).1
  have hnext := h.byteAt hlow
  rw [← Nat.add_assoc] at hnext
  rw [Frame.readUInt16, h.lenData, if_neg (by omega), h.byteAt hhigh, hnext]
  rfl

theorem Frame.Shows.readBytes (h : f.Shows front data back) {i n : ℕ} (hn : i + n ≤ data.length) :
    f.readBytes i n = .ok ((data.drop i).take n) := by
  have hlength := h.length
  rw [h.lenData] at hlength
  rw [Frame.readBytes, h.lenData, if_neg (by omega), if_neg (by omega), h.buf, h.lenOffset,
    ← List.drop_drop, List.append_assoc, List.drop_left, List.drop_append_of_le_length (by omega),
    List.take_append_of_le_length (by rw [List.length_drop]; omega)]

theorem Frame.Shows.deleteFromFront {x : List Byte} (h : f.Shows front (x ++ data) back) :
    ∃ f', f.deleteFromFront x.length = .ok f' ∧ f'.Shows (front ++ x) data back := by
  have hdata := h.lenData
  rw [List.length_append] at hdata
  refine ⟨{ f with lenData := f.lenData - x.length, lenOffset := f.lenOffset + x.length },
    by rw [Frame.deleteFromFront, if_neg (by omega)], ?_, ?_, ?_⟩
  · rw [h.buf, List.append_assoc, List.append_assoc, List.append_assoc, List.append_assoc]
  · rw [List.length_append, ← h.lenOffset]
  · dsimp only
    omega

end Parts

end TinyCLR.Network
