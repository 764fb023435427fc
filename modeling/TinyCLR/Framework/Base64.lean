import Mathlib
import TinyCLR.Library.Blocks

/-!
# Base64

`Convert.ToBase64String` and `Convert.FromBase64CharArray`. Characters are code units of UTF-16.
The objects of the heap are far smaller than `2 ^ 30` bytes, so that lengths do not wrap.
-/

namespace TinyCLR.Framework.Base64

section Source

inductive Exception where
  | argument
  | argumentOutOfRange
  | indexOutOfRange
  deriving DecidableEq, Repr

def codeUnits (text : List Char) : List UInt16 := text.map fun c => UInt16.ofNat c.toNat

def rgchBase64EncodingDefault : List UInt16 := codeUnits
  ['A', 'B', 'C', 'D', 'E', 'F', 'G', 'H', 'I', 'J', 'K', 'L',
   'M', 'N', 'O', 'P', 'Q', 'R', 'S', 'T', 'U', 'V', 'W', 'X',
   'Y', 'Z', 'a', 'b', 'c', 'd', 'e', 'f', 'g', 'h', 'i', 'j',
   'k', 'l', 'm', 'n', 'o', 'p', 'q', 'r', 's', 't', 'u', 'v',
   'w', 'x', 'y', 'z', '0', '1', '2', '3', '4', '5', '6', '7',
   '8', '9', '!', '*']

def rgchBase64EncodingRFC4648 : List UInt16 := codeUnits
  ['A', 'B', 'C', 'D', 'E', 'F', 'G', 'H', 'I', 'J', 'K', 'L',
   'M', 'N', 'O', 'P', 'Q', 'R', 'S', 'T', 'U', 'V', 'W', 'X',
   'Y', 'Z', 'a', 'b', 'c', 'd', 'e', 'f', 'g', 'h', 'i', 'j',
   'k', 'l', 'm', 'n', 'o', 'p', 'q', 'r', 's', 't', 'u', 'v',
   'w', 'x', 'y', 'z', '0', '1', '2', '3', '4', '5', '6', '7',
   '8', '9', '+', '/']

/-- `s_rgchBase64Encoding`, as `UseRFC4648Encoding` sets it. -/
def rgchBase64Encoding (useRFC4648Encoding : Bool) : List UInt16 :=
  if useRFC4648Encoding then rgchBase64EncodingRFC4648 else rgchBase64EncodingDefault

def rgbBase64Decode : List UInt8 :=
  [0x00, 0x00, 0x00, 0x00, 0x00, 0x00, 0x00, 0x00,
   0x00, 0x00, 0x00, 0x00, 0x00, 0x00, 0x00, 0x00,
   0x00, 0x00, 0x00, 0x00, 0x00, 0x00, 0x00, 0x00,
   0x00, 0x00, 0x00, 0x00, 0x00, 0x00, 0x00, 0x00,
   0x00, 0x3E, 0x00, 0x00, 0x00, 0x00, 0x00, 0x00,
   0x00, 0x00, 0x3f, 0x3e, 0x00, 0x00, 0x00, 0x3f,
   0x34, 0x35, 0x36, 0x37, 0x38, 0x39, 0x3a, 0x3b,
   0x3c, 0x3d, 0x00, 0x00, 0x00, 0x00, 0x00, 0x00,
   0x00, 0x00, 0x01, 0x02, 0x03, 0x04, 0x05, 0x06,
   0x07, 0x08, 0x09, 0x0a, 0x0b, 0x0c, 0x0d, 0x0e,
   0x0f, 0x10, 0x11, 0x12, 0x13, 0x14, 0x15, 0x16,
   0x17, 0x18, 0x19, 0x00, 0x00, 0x00, 0x00, 0x00,
   0x00, 0x1a, 0x1b, 0x1c, 0x1d, 0x1e, 0x1f, 0x20,
   0x21, 0x22, 0x23, 0x24, 0x25, 0x26, 0x27, 0x28,
   0x29, 0x2a, 0x2b, 0x2c, 0x2d, 0x2e, 0x2f, 0x30,
   0x31, 0x32, 0x33, 0x00, 0x00, 0x00, 0x00, 0x00]

/-- The padding character `=`. -/
def padding : UInt16 := 61

def getBase64EncodedLength (binaryLen : ℕ) : ℕ :=
  (binaryLen / 3 + if binaryLen % 3 ≠ 0 then 1 else 0) * 4

/-- An element of an array, whose index is checked. -/
def item {α : Type} (array : List α) (index : ℕ) : Except Exception α :=
  (array[index]?).elim (.error .indexOutOfRange) .ok

def sextet0 (uc0 : UInt8) : UInt8 := uc0 >>> 2
def sextet1 (uc0 uc1 : UInt8) : UInt8 :=
  (uc0 <<< 4 &&& (0x30 : UInt8)) ||| (uc1 >>> 4 &&& (0xf : UInt8))
def sextet2 (uc1 uc2 : UInt8) : UInt8 :=
  (uc1 <<< 2 &&& (0x3c : UInt8)) ||| (uc2 >>> 6 &&& (0x3 : UInt8))
def sextet3 (uc2 : UInt8) : UInt8 := uc2 &&& 0x3f

/-- The four indices into the alphabet for a trio of bytes. -/
def sextets (uc0 uc1 uc2 : UInt8) : List UInt8 :=
  [sextet0 uc0, sextet1 uc0 uc1, sextet2 uc1 uc2, sextet3 uc2]

/-- The four assignments of a trio to `outArray`. -/
def writeQuartet (useRFC4648Encoding : Bool) (outArray : List UInt16) (iOutput : ℕ)
    (uc0 uc1 uc2 : UInt8) : Except Exception (List UInt16) := do
  let cs ← (sextets uc0 uc1 uc2).mapM fun v => item (rgchBase64Encoding useRFC4648Encoding) v.toNat
  if outArray.length < iOutput + 4 then .error .indexOutOfRange
  else .ok (outArray.splice iOutput cs)

/-- The loop over all trios but the last. -/
def encodeTrios (useRFC4648Encoding : Bool) (inArray : List UInt8) (iInputEnd iInput iOutput : ℕ)
    (outArray : List UInt16) : Except Exception (ℕ × ℕ × List UInt16) :=
  if iInput < iInputEnd then do
    let uc0 ← item inArray iInput
    let uc1 ← item inArray (iInput + 1)
    let uc2 ← item inArray (iInput + 2)
    let outArray ← writeQuartet useRFC4648Encoding outArray iOutput uc0 uc1 uc2
    encodeTrios useRFC4648Encoding inArray iInputEnd (iInput + 3) (iOutput + 4) outArray
  else .ok (iInput, iOutput, outArray)
  termination_by iInputEnd - iInput

/-- A byte of the last trio, which is zero behind the end. -/
def itemOrZero (inArray : List UInt8) (inputEnd index : ℕ) : Except Exception UInt8 :=
  if index < inputEnd then item inArray index else .ok 0

def toBase64String (useRFC4648Encoding : Bool) (inArray : List UInt8) (offset length : ℕ) :
    Except Exception (List UInt16) :=
  if length = 0 then .ok []
  else if inArray.length < offset + length then .error .argumentOutOfRange
  else do
    let outArrayLen := getBase64EncodedLength length
    let iInputEnd := offset + (outArrayLen / 4 - 1) * 3
    let (iInput, iOutput, outArray) ←
      encodeTrios useRFC4648Encoding inArray iInputEnd offset 0 (List.replicate outArrayLen 0)
    let uc0 ← item inArray iInput
    let uc1 ← itemOrZero inArray (offset + length) (iInput + 1)
    let uc2 ← itemOrZero inArray (offset + length) (iInput + 2)
    let outArray ← writeQuartet useRFC4648Encoding outArray iOutput uc0 uc1 uc2
    let outArray := if length % 3 = 1 then outArray.set (outArrayLen - 2) padding else outArray
    .ok (if length % 3 = 1 ∨ length % 3 = 2 then outArray.set (outArrayLen - 1) padding
      else outArray)

/-- The loop over `ibDest`: the index at which it ends, and `rgbOutput`. -/
def readQuartet (inString : List UInt16) (start : ℕ) (final : Bool) :
    ℕ → ℕ → List UInt8 → Except Exception (ℕ × List UInt8)
  | 0, ibDest, rgbOutput => .ok (ibDest, rgbOutput)
  | n + 1, ibDest, rgbOutput =>
      (item inString (start + ibDest)).bind fun c =>
        if c = padding then
          if ibDest < 2 ∨ final = false then .error .argument else .ok (ibDest, rgbOutput)
        else
          (item rgbBase64Decode c.toNat).bind fun v =>
            readQuartet inString start final n (ibDest + 1) (rgbOutput.set ibDest v)

/-- `retArray` with the position from which it is filled downwards. -/
structure Output where
  outCurPos : ℕ
  retArray : List UInt8
  deriving DecidableEq, Repr

/-- `retArray[ --outCurPos ] = b` -/
def Output.put (o : Output) (b : UInt8) : Except Exception Output :=
  if o.outCurPos = 0 ∨ o.retArray.length < o.outCurPos then .error .indexOutOfRange
  else .ok ⟨o.outCurPos - 1, o.retArray.set (o.outCurPos - 1) b⟩

def byte0 (v0 v1 : UInt8) : UInt8 := (v0 <<< 2) ||| ((v1 &&& 0x30) >>> 4)
def byte1 (v1 v2 : UInt8) : UInt8 := ((v1 &&& 0x0F) <<< 4) ||| ((v2 &&& 0x3C) >>> 2)
def byte2 (v2 v3 : UInt8) : UInt8 := ((v2 &&& 0x03) <<< 6) ||| v3

/-- The `switch` over `ibDest`, whose cases fall through to the next. -/
def writeTrio (ibDest : ℕ) (rgbOutput : List UInt8) (o : Output) : Except Exception Output := do
  let v := fun i => rgbOutput.getD i 0
  let o ← if ibDest ≠ 3 ∧ ibDest ≠ 2 then o.put (byte2 (v 2) (v 3)) else .ok o
  let o ← if ibDest ≠ 2 then o.put (byte1 (v 1) (v 2)) else .ok o
  o.put (byte0 (v 0) (v 1))

/-- The loop over the quartets, from the last one to the first. -/
def decodeQuartets (inString : List UInt16) (offset inLength inCurPos : ℕ)
    (rgbOutput : List UInt8) (o : Output) : Except Exception (List UInt8) :=
  if offset < inCurPos then do
    let (ibDest, rgbOutput) ← readQuartet inString (inCurPos - 4)
      (inCurPos = offset + inLength) 4 0 rgbOutput
    let o ← writeTrio ibDest rgbOutput o
    decodeQuartets inString offset inLength (inCurPos - 4) rgbOutput o
  else .ok o.retArray
  termination_by inCurPos - offset

/-- The number of bytes, by the last two characters. -/
def outputLength (inString : List UInt16) (offset inLength : ℕ) : Except Exception ℕ := do
  let outCurPos := (inLength + 3) / 4 * 3
  if (← item inString (offset + inLength - 1)) = padding then
    if (← item inString (offset + inLength - 2)) = padding then .ok (outCurPos - 1 - 1)
    else .ok (outCurPos - 1)
  else .ok outCurPos

def fromBase64CharArray (inString : List UInt16) (offset length : ℕ) :
    Except Exception (List UInt8) :=
  if length = 0 then .ok []
  else if length % 4 ≠ 0 then .error .argument
  else do
    let outCurPos ← outputLength inString offset length
    decodeQuartets inString offset length (offset + length) (List.replicate 4 0)
      ⟨outCurPos, List.replicate outCurPos 0⟩

def fromBase64String (inString : List UInt16) : Except Exception (List UInt8) :=
  fromBase64CharArray inString 0 inString.length

end Source

section Alphabets

/-- The character after `!` is read as `+` and `*` as `/`. -/
def normal (c : UInt16) : UInt16 := if c = 33 then 43 else if c = 42 then 47 else c

def InAlphabet (c : UInt16) : Prop :=
  c ∈ rgchBase64EncodingDefault ∨ c ∈ rgchBase64EncodingRFC4648

instance (c : UInt16) : Decidable (InAlphabet c) := by unfold InAlphabet; infer_instance

/-- The value of a character. -/
def value (c : UInt16) : UInt8 := rgbBase64Decode.getD c.toNat 0

/-- The character of a value. -/
def symbol (useRFC4648Encoding : Bool) (v : UInt8) : UInt16 :=
  (rgchBase64Encoding useRFC4648Encoding).getD v.toNat 0

/-- What the tables hold, element by element. -/
theorem table_facts :
    (∀ e, ∀ n < 64, (symbol e (UInt8.ofNat n)).toNat < 128 ∧
      symbol e (UInt8.ofNat n) ≠ padding ∧ symbol e (UInt8.ofNat n) ∈ rgchBase64Encoding e ∧
      value (symbol e (UInt8.ofNat n)) = UInt8.ofNat n ∧
      normal (symbol e (UInt8.ofNat n)) = symbol true (UInt8.ofNat n)) ∧
    (∀ n < 128, (value (UInt16.ofNat n)).toNat < 64 ∧
      (InAlphabet (UInt16.ofNat n) → UInt16.ofNat n ≠ padding ∧
        symbol true (value (UInt16.ofNat n)) = normal (UInt16.ofNat n))) ∧
    (∀ e, (rgchBase64Encoding e).length = 64 ∧
      (rgchBase64Encoding e).all (fun d => d.toNat < 128) = true) ∧
    rgbBase64Decode.length = 128 ∧ InAlphabet 33 ∧ InAlphabet 42 ∧
    value 43 = value 33 ∧ value 47 = value 42 := by
  decide +kernel

theorem length_rgbBase64Decode : rgbBase64Decode.length = 128 := table_facts.2.2.2.1

theorem length_rgchBase64Encoding (e : Bool) : (rgchBase64Encoding e).length = 64 :=
  (table_facts.2.2.1 e).1

variable {e : Bool} {v : UInt8} {c : UInt16}

theorem symbol_lt (hv : v.toNat < 64) : (symbol e v).toNat < 128 := by
  simpa using (table_facts.1 e v.toNat hv).1

theorem symbol_ne_padding (hv : v.toNat < 64) : symbol e v ≠ padding := by
  simpa using (table_facts.1 e v.toNat hv).2.1

theorem symbol_mem (hv : v.toNat < 64) : symbol e v ∈ rgchBase64Encoding e := by
  simpa using (table_facts.1 e v.toNat hv).2.2.1

theorem value_symbol (hv : v.toNat < 64) : value (symbol e v) = v := by
  simpa using (table_facts.1 e v.toNat hv).2.2.2.1

theorem normal_symbol (hv : v.toNat < 64) : normal (symbol e v) = symbol true v := by
  simpa using (table_facts.1 e v.toNat hv).2.2.2.2

theorem item_ok {α : Type} {array : List α} {i : ℕ} {x : α} (h : array[i]? = some x) :
    item array i = .ok x := by
  rw [item, h]
  rfl

theorem item_symbol (hv : v.toNat < 64) :
    item (rgchBase64Encoding e) v.toNat = .ok (symbol e v) := by
  rw [item, symbol, List.getD_eq_getElem?_getD,
    List.getElem?_eq_getElem (by rw [length_rgchBase64Encoding]; exact hv)]
  rfl

theorem value_lt (hc : c.toNat < 128) : (value c).toNat < 64 := by
  simpa using (table_facts.2.1 c.toNat hc).1

theorem item_value (hc : c.toNat < 128) : item rgbBase64Decode c.toNat = .ok (value c) := by
  rw [item, value, List.getD_eq_getElem?_getD,
    List.getElem?_eq_getElem (by rw [length_rgbBase64Decode]; exact hc)]
  rfl

theorem item_value_error (hc : 128 ≤ c.toNat) :
    item rgbBase64Decode c.toNat = .error .indexOutOfRange := by
  rw [item, List.getElem?_eq_none (by rw [length_rgbBase64Decode]; exact hc)]
  rfl

theorem inAlphabet_symbol (hv : v.toNat < 64) : InAlphabet (symbol e v) := by
  have h := symbol_mem (e := e) hv
  cases e with
  | false => exact Or.inl h
  | true => exact Or.inr h

theorem encoding_lt (e : Bool) (h : c ∈ rgchBase64Encoding e) : c.toNat < 128 := by
  simpa using List.all_eq_true.mp (table_facts.2.2.1 e).2 c h

theorem inAlphabet_lt (h : InAlphabet c) : c.toNat < 128 := by
  rcases h with h | h
  · exact encoding_lt false h
  · exact encoding_lt true h

theorem inAlphabet_ne_padding (h : InAlphabet c) : c ≠ padding := by
  simpa using ((table_facts.2.1 c.toNat (inAlphabet_lt h)).2 (by simpa using h)).1

theorem symbol_value (h : InAlphabet c) : symbol true (value c) = normal c := by
  simpa using ((table_facts.2.1 c.toNat (inAlphabet_lt h)).2 (by simpa using h)).2

theorem inAlphabet_of_normal (h : InAlphabet (normal c)) : InAlphabet c := by
  unfold normal at h
  split_ifs at h with h33 h42
  · rw [h33]
    exact table_facts.2.2.2.2.1
  · rw [h42]
    exact table_facts.2.2.2.2.2.1
  · exact h

theorem value_normal (c : UInt16) : value (normal c) = value c := by
  obtain ⟨h33, h42⟩ := table_facts.2.2.2.2.2.2
  unfold normal
  split_ifs with hc hc'
  · rw [hc, h33]
  · rw [hc', h42]
  · rfl

theorem normal_eq_padding (c : UInt16) : normal c = padding ↔ c = padding := by
  unfold normal padding
  split_ifs with hc hc'
  · rw [hc]
    decide
  · rw [hc']
    decide
  · rfl

/-- The characters that stand for a value, up to the two alphabets. -/
theorem normal_symbol_eq_iff (hv : v.toNat < 64) :
    normal (symbol e v) = normal c ↔ InAlphabet c ∧ value c = v := by
  rw [normal_symbol hv]
  constructor
  · intro h
    refine ⟨inAlphabet_of_normal (h ▸ inAlphabet_symbol hv), ?_⟩
    rw [← value_normal, ← h, value_symbol hv]
  · rintro ⟨h, rfl⟩
    exact symbol_value h

end Alphabets

section Bytes

theorem forall_byte {P : UInt8 → Prop} (h : ∀ n < 256, P (UInt8.ofNat n)) (b : UInt8) : P b := by
  have hb := h b.toNat b.toNat_lt
  rwa [UInt8.ofNat_toNat] at hb

/-- The shifts and masks, byte by byte. -/
theorem byte_facts : ∀ b : UInt8, ((sextet0 b).toNat = b.toNat / 4 ∧
    (sextet3 b).toNat = b.toNat % 64) ∧
    (b <<< 4 &&& (0x30 : UInt8)).toNat = 2 ^ 4 * (b.toNat % 4) ∧
    (b >>> 4 &&& (0xf : UInt8)).toNat = b.toNat / 16 ∧
    (b <<< 2 &&& (0x3c : UInt8)).toNat = 2 ^ 2 * (b.toNat % 16) ∧
    (b >>> 6 &&& (0x3 : UInt8)).toNat = b.toNat / 64 := by
  apply forall_byte
  decide +kernel

theorem sextet_facts : ∀ b : UInt8, b.toNat < 64 → (b <<< 2).toNat = 2 ^ 2 * b.toNat ∧
    ((b &&& 0x30) >>> 4).toNat = b.toNat / 16 ∧
    ((b &&& 0x0F) <<< 4).toNat = 2 ^ 4 * (b.toNat % 16) ∧
    ((b &&& 0x3C) >>> 2).toNat = b.toNat / 4 ∧
    ((b &&& 0x03) <<< 6).toNat = 2 ^ 6 * (b.toNat % 4) := by
  apply forall_byte
  decide +kernel

theorem sextet0_toNat (b : UInt8) : (sextet0 b).toNat = b.toNat / 4 := (byte_facts b).1.1

theorem sextet3_toNat (b : UInt8) : (sextet3 b).toNat = b.toNat % 64 := (byte_facts b).1.2

theorem or_toNat_of_lt (x y : UInt8) (i m : ℕ) (hx : x.toNat = 2 ^ i * m) (hy : y.toNat < 2 ^ i) :
    (x ||| y).toNat = x.toNat + y.toNat := by
  rw [UInt8.toNat_or, hx, Nat.two_pow_add_eq_or_of_lt hy]

theorem sextet1_toNat (a b : UInt8) :
    (sextet1 a b).toNat = 16 * (a.toNat % 4) + b.toNat / 16 := by
  obtain ⟨-, ha, -⟩ := byte_facts a
  obtain ⟨-, -, hb, -⟩ := byte_facts b
  have hlt := b.toNat_lt
  rw [sextet1, or_toNat_of_lt _ _ 4 _ ha (by omega), ha, hb]
  rfl

theorem sextet2_toNat (b c : UInt8) :
    (sextet2 b c).toNat = 4 * (b.toNat % 16) + c.toNat / 64 := by
  obtain ⟨-, -, -, hb, -⟩ := byte_facts b
  obtain ⟨-, -, -, -, hc⟩ := byte_facts c
  have hlt := c.toNat_lt
  rw [sextet2, or_toNat_of_lt _ _ 2 _ hb (by omega), hb, hc]
  rfl

theorem byte0_toNat {v0 v1 : UInt8} (h0 : v0.toNat < 64) (h1 : v1.toNat < 64) :
    (byte0 v0 v1).toNat = 4 * v0.toNat + v1.toNat / 16 := by
  obtain ⟨hx, -⟩ := sextet_facts v0 h0
  obtain ⟨-, hy, -⟩ := sextet_facts v1 h1
  rw [byte0, or_toNat_of_lt _ _ 2 _ hx (by omega), hx, hy]
  rfl

theorem byte1_toNat {v1 v2 : UInt8} (h1 : v1.toNat < 64) (h2 : v2.toNat < 64) :
    (byte1 v1 v2).toNat = 16 * (v1.toNat % 16) + v2.toNat / 4 := by
  obtain ⟨-, -, hx, -⟩ := sextet_facts v1 h1
  obtain ⟨-, -, -, hy, -⟩ := sextet_facts v2 h2
  rw [byte1, or_toNat_of_lt _ _ 4 _ hx (by omega), hx, hy]
  rfl

theorem byte2_toNat {v2 v3 : UInt8} (h2 : v2.toNat < 64) (h3 : v3.toNat < 64) :
    (byte2 v2 v3).toNat = 64 * (v2.toNat % 4) + v3.toNat := by
  obtain ⟨-, -, -, -, hx⟩ := sextet_facts v2 h2
  rw [byte2, or_toNat_of_lt _ _ 6 _ hx (by omega), hx]
  rfl

end Bytes

section Encoding

variable {e : Bool} {x : List UInt8} {offset length : ℕ}

/-- The characters of trio `j`, in which bytes that are missing count as zero. -/
def quartetOf (e : Bool) (x : List UInt8) (j : ℕ) : List UInt16 :=
  (sextets (x.getD (3 * j) 0) (x.getD (3 * j + 1) 0) (x.getD (3 * j + 2) 0)).map (symbol e)

/-- The number of padding characters for a number of bytes. -/
def pads (length : ℕ) : ℕ := (3 - length % 3) % 3

/-- The text of some bytes. -/
def encodeText (e : Bool) (x : List UInt8) : List UInt16 :=
  let n := (x.length + 2) / 3
  (List.blocks (quartetOf e x) n).take (4 * n - pads x.length) ++
    List.replicate (pads x.length) padding

theorem sextets_lt (a b c : UInt8) : ∀ v ∈ sextets a b c, v.toNat < 64 := by
  intro v hv
  have ha := a.toNat_lt
  have hb := b.toNat_lt
  have hc := c.toNat_lt
  simp only [sextets, List.mem_cons, List.not_mem_nil, or_false] at hv
  rcases hv with rfl | rfl | rfl | rfl
  · rw [sextet0_toNat]
    omega
  · rw [sextet1_toNat]
    omega
  · rw [sextet2_toNat]
    omega
  · rw [sextet3_toNat]
    omega

theorem length_quartetOf (e : Bool) (x : List UInt8) (j : ℕ) : (quartetOf e x j).length = 4 := rfl

theorem length_blocks_quartetOf (e : Bool) (x : List UInt8) (n : ℕ) :
    (List.blocks (quartetOf e x) n).length = 4 * n :=
  List.length_blocks fun j _ => length_quartetOf e x j

theorem writeQuartet_blocks (f : ℕ → List UInt16) (hf : ∀ j, (f j).length = 4) (n r : ℕ)
    (a b c : UInt8) (hnext : f n = (sextets a b c).map (symbol e)) :
    writeQuartet e (List.blocks f n ++ List.replicate (4 * (r + 1)) 0) (4 * n) a b c =
      .ok (List.blocks f (n + 1) ++ List.replicate (4 * r) 0) := by
  have hlt := sextets_lt a b c
  simp only [sextets, List.mem_cons, List.not_mem_nil, or_false, forall_eq_or_imp, forall_eq]
    at hlt
  have hlength : (List.blocks f n).length = 4 * n := List.length_blocks fun j _ => hf j
  have hitems : ((sextets a b c).mapM fun v => item (rgchBase64Encoding e) v.toNat) =
      .ok (f n) := by
    rw [hnext]
    simp only [sextets, List.mapM_cons, List.mapM_nil, item_symbol hlt.1, item_symbol hlt.2.1,
      item_symbol hlt.2.2.1, item_symbol hlt.2.2.2, bind, Except.bind, pure, Except.pure,
      List.map_cons, List.map_nil]
  rw [writeQuartet, hitems]
  simp only [bind, Except.bind]
  have hdrop : (List.blocks f n ++ List.replicate (4 * (r + 1)) (0 : UInt16)).drop (4 * n + 4) =
      List.replicate (4 * r) 0 := by
    rw [← hlength, List.drop_length_add_append, List.drop_replicate]
    rfl
  rw [if_neg (by rw [List.length_append, List.length_replicate, hlength]; omega), List.splice,
    List.take_left' hlength, hf, hdrop, List.blocks_succ, List.append_assoc]

theorem getD_window {i : ℕ} (hi : i < length) :
    (x.window offset length).getD i 0 = x.getD (offset + i) 0 := by
  rw [List.getD_eq_getElem?_getD, List.getElem?_window, if_pos hi, List.getD_eq_getElem?_getD]

theorem getD_beyond_window {i : ℕ} (hi : length ≤ i) : (x.window offset length).getD i 0 = 0 := by
  rw [List.getD_eq_getElem?_getD, List.getElem?_window, if_neg (by omega)]
  rfl

theorem item_getD {i : ℕ} (hi : i < x.length) : item x i = .ok (x.getD i 0) := by
  rw [item_ok (List.getElem?_eq_getElem hi), List.getD_eq_getElem?_getD,
    List.getElem?_eq_getElem hi]
  rfl

/-- The loop over all trios but the last, from trio `j` on. -/
theorem encodeTrios_spec (n : ℕ) (hinside : offset + length ≤ x.length) (hn : 3 * n < length)
    {j r : ℕ} (hj : j + r = n) :
    encodeTrios e x (offset + n * 3) (offset + 3 * j) (4 * j)
        (List.blocks (quartetOf e (x.window offset length)) j ++ List.replicate (4 * (r + 1)) 0) =
      .ok (offset + 3 * n, 4 * n,
        List.blocks (quartetOf e (x.window offset length)) n ++ List.replicate 4 0) := by
  induction r generalizing j with
  | zero =>
      have hjn : j = n := hj
      rw [encodeTrios, if_neg (by omega), hjn]
  | succ r ih =>
      rw [encodeTrios, if_pos (by omega), item_getD (show offset + 3 * j < x.length by omega),
        item_getD (show offset + 3 * j + 1 < x.length by omega),
        item_getD (show offset + 3 * j + 2 < x.length by omega)]
      simp only [bind, Except.bind]
      rw [writeQuartet_blocks _ (length_quartetOf e _) j (r + 1)]
      · exact @ih (j + 1) (by omega)
      · rw [quartetOf, getD_window (by omega), getD_window (by omega), getD_window (by omega)]
        simp only [Nat.add_assoc]

theorem set_padding (l : List UInt16) (h : 2 ≤ l.length) :
    (l.set (l.length - 2) padding).set (l.length - 1) padding =
      l.take (l.length - 2) ++ List.replicate 2 padding := by
  apply List.ext_getElem?
  intro i
  simp only [List.getElem?_set, List.length_set, List.getElem?_append, List.length_take,
    List.getElem?_take, List.getElem?_replicate]
  grind

theorem set_padding_last (l : List UInt16) (h : 1 ≤ l.length) :
    l.set (l.length - 1) padding = l.take (l.length - 1) ++ List.replicate 1 padding := by
  apply List.ext_getElem?
  intro i
  simp only [List.getElem?_set, List.getElem?_append, List.length_take,
    List.getElem?_take, List.getElem?_replicate]
  grind

theorem toBase64String_eq (hinside : offset + length ≤ x.length) :
    toBase64String e x offset length = .ok (encodeText e (x.window offset length)) := by
  have hwindow := List.length_window hinside
  by_cases hzero : length = 0
  · rw [toBase64String, if_pos hzero, encodeText, hwindow, hzero]
    rfl
  · have hn : getBase64EncodedLength length = 4 * ((length + 2) / 3) := by
      unfold getBase64EncodedLength
      split_ifs <;> omega
    obtain ⟨n, hn'⟩ : ∃ n, (length + 2) / 3 = n + 1 := ⟨(length + 2) / 3 - 1, by omega⟩
    have hloop := @encodeTrios_spec e x offset length n hinside (by omega) 0 n (Nat.zero_add n)
    rw [Nat.mul_zero, Nat.add_zero, List.blocks_zero, List.nil_append] at hloop
    have hlast := writeQuartet_blocks (quartetOf e (x.window offset length))
      (length_quartetOf e _) n 0 _ _ _ rfl
    rw [Nat.mul_zero, List.replicate_zero, List.append_nil] at hlast
    have htrailing (i : ℕ) : itemOrZero x (offset + length) (offset + 3 * n + i) =
        .ok ((x.window offset length).getD (3 * n + i) 0) := by
      unfold itemOrZero
      split_ifs with h
      · rw [item_getD (by omega), getD_window (by omega), Nat.add_assoc]
      · rw [getD_beyond_window (by omega)]
    rw [toBase64String, if_neg hzero, if_neg (by omega), hn, hn']
    dsimp only
    rw [show 4 * (n + 1) / 4 - 1 = n by omega, hloop]
    simp only [bind, Except.bind]
    rw [item_getD (by omega), ← getD_window (show 3 * n < length by omega), htrailing,
      htrailing]
    simp only []
    rw [Nat.mul_one] at hlast
    rw [hlast]
    have hlength := length_blocks_quartetOf e (x.window offset length) (n + 1)
    simp only []
    rw [encodeText, hwindow, hn']
    rcases (by omega : length % 3 = 0 ∨ length % 3 = 1 ∨ length % 3 = 2) with h | h | h
    · have hp : pads length = 0 := by rw [pads, h]
      rw [hp, if_neg (by omega), if_neg (by omega), Nat.sub_zero,
        List.take_of_length_le (by omega), List.replicate_zero, List.append_nil]
    · have hp : pads length = 2 := by rw [pads, h]
      rw [hp, if_pos h, if_pos (.inl h), ← hlength, set_padding _ (by omega)]
    · have hp : pads length = 1 := by rw [pads, h]
      rw [hp, if_neg (show ¬length % 3 = 1 by omega), if_pos (.inr h), ← hlength,
        set_padding_last _ (by omega)]

end Encoding

end TinyCLR.Framework.Base64
