import TinyCLR.Library.TransitionSystem
import TinyCLR.Text.StreamReader
import TinyCLR.Text.UTF8

/-!
# A text is read as it is

A reader stands in the text that the bytes in its buffer and those of its stream encode. Each
call, where it works, gives the next characters and moves on behind them.
-/

namespace TinyCLR.Text

open TransitionSystem

/-! ## The property -/

def isLineEnd (c : Nat) : Bool := c == 13 || c == 10

/-- What is left of a text behind its first line. -/
def afterLine (text : List Nat) : List Nat :=
  match text.dropWhile (!isLineEnd ·) with
  | 13 :: 10 :: rest => rest
  | _ :: rest => rest
  | [] => []

/-- What a call is to give in a text. -/
def Delivers (text : List Nat) : Call → Outcome → Prop
  | .read, .char c => c = text.head?
  | .peek, .char c => c = text.head?
  | .readBuffer buffer index count, .chars returned stored =>
      index + count ≤ buffer.length ∧ returned ≤ min count text.length ∧
        stored = text.take returned ∧ (returned = 0 → count = 0 ∨ text = [])
  | .readBuffer buffer index count, .threw => buffer.length < index + count
  | .readLine, .line line =>
      line = if text = [] then none else some (text.takeWhile (!isLineEnd ·))
  | .readToEnd, .text rest => rest = text
  | _, _ => False

/-- What is left of the text behind a call. -/
def advance (text : List Nat) : Call → Outcome → List Nat
  | .read, _ => text.tail
  | .readBuffer _ _ _, .chars returned _ => text.drop returned
  | .readLine, _ => afterLine text
  | .readToEnd, _ => []
  | _, _ => text

/-- All that the calls gave is the text. -/
def Explained (text : List Nat) : List (Call × Outcome) → Prop
  | [] => True
  | (call, outcome) :: history =>
      Delivers text call outcome ∧ Explained (advance text call outcome) history

/-! ## The condition -/

namespace StreamReader

variable (r : StreamReader)

/-- The bytes that the stream still gives. -/
def rest : List UInt8 := r.stream.pieces.rest

def flat : List UInt8 := r.available ++ r.rest

/-- The bytes to peek at are in the buffer, or it is empty and is filled anew. -/
def PeekWorks : Prop :=
  2 ≤ r.available.length ∧
      (r.buffer.getD (r.curBufPos + 1) 0 < 0x80 ∨ 4 ≤ r.available.length) ∨
    r.available.length = 0 ∧ r.curBufPos + 1 < bufferSize ∧
      (r.curBufPos = 0 ∨ 0x80 ≤ r.buffer.getD (r.curBufPos + 1) 0)

instance : Decidable r.PeekWorks := inferInstanceAs (Decidable (_ ∧ (_ ∨ _) ∨ _ ∧ _ ∧ (_ ∨ _)))

/-- All characters come in one turn of the loop of `Read(buffer, index, count)`: enough of them
are complete in the buffer, or the stream has ended, or there is none and so many bytes more
satisfy this. -/
def atOnce : Nat → List UInt8 → List UInt8 → Nat → Bool
  | 0, _, _, _ => true
  | fuel + 1, available, rest, count =>
      let chars := (convertFromUTF8 available count).1
      let more := min count (bufferSize - available.length)
      chars.length == count || rest.isEmpty ||
        chars.isEmpty && atOnce fuel (available ++ rest.take more) (rest.drop more) count

def AtOnce (count : Nat) : Prop := atOnce (r.rest.length + 1) r.available r.rest count = true

/-- How many characters `ReadLine` looks at. -/
def lineSpan (text : List Char) : Nat :=
  (text.takeWhile (!isLineEnd ·.toNat)).length +
    match text.dropWhile (!isLineEnd ·.toNat) with
    | c :: _ => if c.toNat = 13 then 2 else 1
    | [] => 0

/-- The line with its end fits into the buffer of `ReadLine`, which is enlarged step by step. -/
def LineFits (text : List Char) : Prop :=
  (text.takeWhile (!isLineEnd ·.toNat)).length +
    min 1 (text.dropWhile (!isLineEnd ·.toNat)).length ≤ 65024

/-- The state behind so many calls of `Read()`. -/
def afterReads : Nat → StreamReader → StreamReader
  | 0, r => r
  | n + 1, r =>
      match r.read with
      | .ok (_, r) => afterReads n r
      | .error _ => r

/-- Where `ReadLine` peeks, behind a carriage return, it works. -/
def LineWorks (text : List Char) : Prop :=
  ∀ c ∈ (text.dropWhile (!isLineEnd ·.toNat)).head?, c.toNat = 13 →
    (afterReads ((text.takeWhile (!isLineEnd ·.toNat)).length + 1) r).PeekWorks

/-- So many buffers that `ReadNonSeekableStream` reads come at once. -/
def BuffersAtOnce : Nat → StreamReader → Prop
  | 0, _ => True
  | n + 1, r => r.AtOnce bufferSize ∧
      match r.readBuffer (List.replicate bufferSize 0) bufferSize with
      | .ok (_, _, r) => BuffersAtOnce n r
      | .error _ => True

/-- The last buffer that `ReadNonSeekableStream` reads is not empty, or it is the only one. -/
def EndFits (text : List Char) : Prop := text.length % bufferSize = 0 → text = []

/-- The condition on a call, in the text in which the reader stands. -/
def AdmittedIn (text : List Char) : Call → Prop
  | .read => ∀ c ∈ text.take 1, Basic c
  | .peek => (∀ c ∈ text.take 1, Basic c) ∧ r.PeekWorks
  | .readBuffer buffer index count => index + count ≤ buffer.length →
      (∀ c ∈ text.take count, Basic c) ∧ r.AtOnce count ∧ (index = 0 ∨ count = 0 ∨ text = [])
  | .readLine => (∀ c ∈ text.take (lineSpan text), Basic c) ∧ LineFits text ∧ r.LineWorks text
  | .readToEnd => (∀ c ∈ text, Basic c) ∧
      (r.stream.canSeek = false → BuffersAtOnce (text.length + 1) r ∧ EndFits text)

/-- The condition on a call, in the state in which it is made. -/
def Admitted (call : Call) : Prop := ∀ text, r.flat = encode text → r.AdmittedIn text call

instance (count : Nat) : Decidable (r.AtOnce count) := inferInstanceAs (Decidable (_ = true))

instance (text : List Char) : Decidable (LineFits text) := inferInstanceAs (Decidable (_ ≤ _))

instance (text : List Char) : Decidable (r.LineWorks text) :=
  have : Decidable (∀ c ∈ (text.dropWhile (!isLineEnd ·.toNat)).head?, c.toNat = 13 →
      (afterReads ((text.takeWhile (!isLineEnd ·.toNat)).length + 1) r).PeekWorks) :=
    Option.decidableForallMem _
  this

instance BuffersAtOnce.decidable : (n : Nat) → (r : StreamReader) → Decidable (BuffersAtOnce n r)
  | 0, _ => .isTrue trivial
  | n + 1, r =>
      have : Decidable (match r.readBuffer (List.replicate bufferSize 0) bufferSize with
          | .ok (_, _, r) => BuffersAtOnce n r
          | .error _ => True) :=
        match r.readBuffer (List.replicate bufferSize 0) bufferSize with
        | .ok (_, _, r) => BuffersAtOnce.decidable n r
        | .error _ => .isTrue trivial
      inferInstanceAs (Decidable (_ ∧ _))

instance (text : List Char) : Decidable (EndFits text) := inferInstanceAs (Decidable (_ → _))

instance (text : List Char) : (call : Call) → Decidable (r.AdmittedIn text call)
  | .read => inferInstanceAs (Decidable (∀ c ∈ text.take 1, Basic c))
  | .peek => inferInstanceAs (Decidable ((∀ c ∈ text.take 1, Basic c) ∧ r.PeekWorks))
  | .readBuffer buffer index count => inferInstanceAs (Decidable (index + count ≤ buffer.length →
      (∀ c ∈ text.take count, Basic c) ∧ r.AtOnce count ∧ (index = 0 ∨ count = 0 ∨ text = [])))
  | .readLine => inferInstanceAs (Decidable ((∀ c ∈ text.take (lineSpan text), Basic c) ∧
      LineFits text ∧ r.LineWorks text))
  | .readToEnd => inferInstanceAs (Decidable ((∀ c ∈ text, Basic c) ∧
      (r.stream.canSeek = false → BuffersAtOnce (text.length + 1) r ∧ EndFits text)))

end StreamReader

def Session.Admitted (s : Session) (call : Call) : Prop := s.reader.Admitted call

/-- A reader of which nothing was read, on a stream that is the encoding of a text. -/
structure Initial (text : List Char) (s : Session) : Prop where
  rest : s.reader.rest = encode text
  nonzero : ∀ c ∈ text, c.toNat ≠ 0
  total : s.reader.stream.canSeek = true → s.reader.stream.total = (encode text).length
  buffer : s.reader.buffer.length = bufferSize
  position : s.reader.curBufPos = 0 ∧ s.reader.curBufLen = 0
  history : s.history = []
  failed : s.failed = false

/-! ## The buffer -/

section Overwrite

variable {α : Type*} (array items items' : List α) (position : Nat)

theorem length_overwrite (h : position + items.length ≤ array.length) :
    (overwrite array position items).length = array.length := by
  simp only [overwrite, List.length_append, List.length_take, List.length_drop]
  omega

theorem take_overwrite (h : position ≤ array.length) :
    (overwrite array position items).take (position + items.length) =
      array.take position ++ items := by
  have hlength : (array.take position).length = position := by
    rw [List.length_take]
    omega
  rw [overwrite, ← List.append_assoc, List.take_left']
  rw [List.length_append, hlength]

theorem drop_overwrite (h : position ≤ array.length) :
    (overwrite array position items).drop (position + items.length) =
      array.drop (position + items.length) := by
  have hlength : (array.take position).length = position := by
    rw [List.length_take]
    omega
  rw [overwrite, ← List.append_assoc, List.drop_left']
  rw [List.length_append, hlength]

/-- Two writes one behind the other are one. -/
theorem overwrite_overwrite (h : position ≤ array.length) :
    overwrite (overwrite array position items) (position + items.length) items' =
      overwrite array position (items ++ items') := by
  have hdrop : (overwrite array position items).drop (position + items.length + items'.length) =
      array.drop (position + items.length + items'.length) := by
    rw [← List.drop_drop, drop_overwrite _ _ _ h, List.drop_drop]
  rw [overwrite, take_overwrite _ _ _ h, hdrop, overwrite, List.length_append, Nat.add_assoc,
    List.append_assoc, List.append_assoc]

end Overwrite

namespace StreamReader

variable {r r' : StreamReader} {text : List Char}

/-- The positions lie in the buffer. -/
structure Shape (r : StreamReader) : Prop where
  buffer : r.buffer.length = bufferSize
  position : r.curBufPos ≤ r.curBufLen
  length : r.curBufLen ≤ bufferSize

theorem Shape.length_available (h : r.Shape) :
    r.available.length = r.curBufLen - r.curBufPos := by
  rw [available, List.length_drop, List.length_take, h.buffer, Nat.min_eq_left h.length]

/-- The reader stands in a text. -/
structure Holds (r : StreamReader) (text : List Char) : Prop where
  shape : r.Shape
  flat : r.flat = encode text
  nonzero : ∀ c ∈ text, c.toNat ≠ 0
  total : r.stream.canSeek = true → (encode text).length ≤ r.stream.total

theorem Holds.available (h : r.Holds text) :
    r.available = (encode text).take r.available.length := by
  rw [← h.flat, StreamReader.flat, List.take_left']
  rfl

theorem Holds.decoded (h : r.Holds text) {room : Nat} (hbasic : ∀ c ∈ text.take room, Basic c) :
    convertFromUTF8 r.available room =
      ((text.take (min room (complete text r.available.length))).map Char.toNat,
        (encode (text.take (min room (complete text r.available.length)))).length) := by
  have hconvert := convert_spec text h.nonzero r.available.length room hbasic
  rw [← h.available] at hconvert
  exact hconvert

/-- A call of the decoder takes the characters that are complete. -/
theorem Holds.convert (h : r.Holds text) (room : Nat) (hbasic : ∀ c ∈ text.take room, Basic c) :
    let n := min room (complete text r.available.length)
    ∃ r', r.convert room = .ok ((text.take n).map Char.toNat, r') ∧ r'.Holds (text.drop n) ∧
      r' = { r with curBufPos := r.curBufPos + (encode (text.take n)).length } ∧
      r.available = encode (text.take n) ++ r'.available := by
  intro n
  have hconvert := h.decoded hbasic
  have hused : (encode (text.take n)).length ≤ r.available.length :=
    length_encode_take_le (Nat.min_le_right _ _)
  have hlength := h.shape.length_available
  have hposition := h.shape.position
  let r' : StreamReader := { r with curBufPos := r.curBufPos + (encode (text.take n)).length }
  have hsplit : encode text = encode (text.take n) ++ encode (text.drop n) := by
    rw [← encode_append, List.take_append_drop]
  have havailable' : r'.available = r.available.drop (encode (text.take n)).length := by
    rw [StreamReader.available, StreamReader.available, List.drop_drop]
  have havailable : r.available = encode (text.take n) ++ r'.available := by
    rw [havailable']
    conv_lhs => rw [← List.take_append_drop (encode (text.take n)).length r.available]
    congr 1
    rw [h.available, List.take_take, Nat.min_eq_left hused, hsplit, List.take_left']
    rfl
  refine ⟨r', ?_, ?_, rfl, havailable⟩
  · rw [StreamReader.convert, if_neg (by omega), hconvert]
  · constructor
    · exact ⟨h.shape.buffer, by show r.curBufPos + _ ≤ r.curBufLen; omega, h.shape.length⟩
    · have hflat := h.flat
      rw [StreamReader.flat, havailable, hsplit, List.append_assoc] at hflat
      exact List.append_cancel_left hflat
    · intro c hc
      exact h.nonzero c (List.mem_of_mem_drop hc)
    · intro hseek
      have htotal := h.total hseek
      rw [hsplit, List.length_append] at htotal
      exact (Nat.le_add_left _ _).trans htotal

/-! ## Filling the buffer -/

/-- Bytes of the stream were put behind those in the buffer. -/
structure Filled (r r' : StreamReader) (n : Nat) : Prop where
  shape : r'.Shape
  available : r'.available = r.available ++ r.rest.take n
  rest : r'.rest = r.rest.drop n
  position : r'.curBufPos = r.curBufPos
  stream : r'.stream.canSeek = r.stream.canSeek ∧ r'.stream.total = r.stream.total

theorem Filled.flat {n : Nat} (h : Filled r r' n) : r'.flat = r.flat := by
  rw [StreamReader.flat, StreamReader.flat, h.available, h.rest, List.append_assoc,
    List.take_append_drop]

theorem Filled.holds {n : Nat} (h : Filled r r' n) (hr : r.Holds text) : r'.Holds text := by
  constructor
  · exact h.shape
  · rw [h.flat, hr.flat]
  · exact hr.nonzero
  · rw [h.stream.1, h.stream.2]
    exact hr.total

theorem Filled.refl (h : r.Shape) : Filled r r 0 :=
  ⟨h, by simp, by simp, rfl, rfl, rfl⟩

theorem Filled.trans {r'' : StreamReader} {n n' : Nat} (h : Filled r r' n)
    (h' : Filled r' r'' n') : Filled r r'' (n + n') := by
  constructor
  · exact h'.shape
  · rw [h'.available, h.available, h.rest, List.append_assoc, List.take_add]
  · rw [h'.rest, h.rest, List.drop_drop]
  · rw [h'.position, h.position]
  · exact ⟨h'.stream.1.trans h.stream.1, h'.stream.2.trans h.stream.2⟩

/-- A read of the stream that goes behind the bytes in the buffer. -/
theorem Shape.readInto (h : r.Shape) {count : Nat} (hcount : count ≤ bufferSize - r.curBufLen) :
    ∃ n ≤ count, (0 < count → 0 < r.rest.length → 0 < n) ∧ n ≤ r.rest.length ∧
      (r.readInto r.curBufLen count).1.length = n ∧
      Filled r { (r.readInto r.curBufLen count).2 with curBufLen := r.curBufLen + n } n := by
  have hbuffer := h.buffer
  have hlength := h.length
  have hposition := h.position
  let bytes := (r.stream.pieces.read count).1
  have hbytes : bytes.length ≤ count := r.stream.pieces.length_read_le count
  have htake : bytes = r.rest.take bytes.length := by
    rw [StreamReader.rest, ← r.stream.pieces.read_append count, List.take_left']
    rfl
  have hdrop : (r.stream.pieces.read count).2.rest = r.rest.drop bytes.length := by
    rw [StreamReader.rest, ← r.stream.pieces.read_append count, List.drop_left']
    rfl
  refine ⟨bytes.length, hbytes, ?_, ?_, rfl, ?_⟩
  · intro hcount hrest
    have hnil := (r.stream.pieces.read_eq_nil_iff count hcount).not.mpr
      (List.length_pos_iff.mp hrest)
    exact List.length_pos_iff.mpr hnil
  · rw [htake, List.length_take]
    exact Nat.min_le_right _ _
  · constructor
    · constructor
      · show (overwrite r.buffer r.curBufLen bytes).length = bufferSize
        rw [length_overwrite _ _ _ (by omega), hbuffer]
      · show r.curBufPos ≤ r.curBufLen + bytes.length
        omega
      · show r.curBufLen + bytes.length ≤ bufferSize
        omega
    · show ((overwrite r.buffer r.curBufLen bytes).take (r.curBufLen + bytes.length)).drop
        r.curBufPos = r.available ++ r.rest.take bytes.length
      rw [take_overwrite _ _ _ (by omega), List.drop_append_of_le_length, ← htake]
      · rfl
      · rw [List.length_take]
        omega
    · exact hdrop
    · rfl
    · exact ⟨rfl, rfl⟩

/-- The loop fills the buffer as far as it is asked for and there is something. -/
theorem Shape.fillLoop (h : r.Shape) {fuel : Nat} (count : Nat) (hfuel : count ≤ fuel)
    (totalRead : Nat) :
    let n := min (min count (bufferSize - r.curBufLen)) r.rest.length
    ∃ r', StreamReader.fillLoop fuel count totalRead r = (totalRead + n, r') ∧ Filled r r' n := by
  induction fuel generalizing count totalRead r with
  | zero =>
      obtain rfl : count = 0 := by omega
      intro n
      have hn : n = 0 := by simp [n]
      rw [hn]
      exact ⟨r, rfl, .refl h⟩
  | succ fuel ih =>
      intro n
      rw [StreamReader.fillLoop]
      by_cases hturn : 0 < count ∧ r.curBufLen < bufferSize
      · rw [if_pos hturn]
        obtain ⟨k, hk, hsome, hrest, hbytes, hfilled⟩ :=
          h.readInto (Nat.min_le_right count (bufferSize - r.curBufLen))
        simp only [hbytes]
        by_cases hzero : k = 0
        · rw [if_pos hzero]
          have hn : n = 0 := by omega
          rw [hn]
          rw [hzero] at hfilled
          exact ⟨_, rfl, hfilled⟩
        · rw [if_neg hzero]
          obtain ⟨r', hr', hfilled'⟩ := ih hfilled.shape
            (min count (bufferSize - r.curBufLen) - k) (by omega) (totalRead + k)
          have hrest' := congrArg List.length hfilled.rest
          rw [List.length_drop] at hrest'
          have hn : k + min (min (min count (bufferSize - r.curBufLen) - k)
              (bufferSize - (r.curBufLen + k)))
              (StreamReader.rest { (r.readInto r.curBufLen
                (min count (bufferSize - r.curBufLen))).2 with
                  curBufLen := r.curBufLen + k }).length = n := by
            rw [hrest']
            omega
          refine ⟨r', ?_, ?_⟩
          · rw [← hn, ← Nat.add_assoc]
            exact hr'
          · rw [← hn]
            exact hfilled.trans hfilled'
      · rw [if_neg hturn]
        have hn : n = 0 := by omega
        rw [hn]
        exact ⟨r, rfl, .refl h⟩

/-- The bytes in the buffer were moved to its front and bytes of the stream put behind them. -/
structure Refilled (r r' : StreamReader) (n : Nat) : Prop where
  shape : r'.Shape
  available : r'.available = r.available ++ r.rest.take n
  rest : r'.rest = r.rest.drop n
  position : r'.curBufPos = 0
  stream : r'.stream.canSeek = r.stream.canSeek ∧ r'.stream.total = r.stream.total

theorem Refilled.holds {n : Nat} (h : Refilled r r' n) (hr : r.Holds text) : r'.Holds text := by
  constructor
  · exact h.shape
  · rw [StreamReader.flat, h.available, h.rest, List.append_assoc, List.take_append_drop]
    exact hr.flat
  · exact hr.nonzero
  · rw [h.stream.1, h.stream.2]
    exact hr.total

/-- `Reset`, where the position is not the front. -/
theorem Shape.reset (h : r.Shape) :
    ∃ r', (if r.curBufPos ≠ 0 then r.reset else .ok r) = .ok r' ∧ Refilled r r' 0 ∧
      r'.curBufLen = r.available.length := by
  have hlength := h.length_available
  by_cases hposition : r.curBufPos ≠ 0
  · refine ⟨{ r with
      buffer := overwrite r.buffer 0 r.available, curBufPos := 0
      curBufLen := r.available.length }, ?_, ?_, rfl⟩
    · rw [if_pos hposition, StreamReader.reset, if_neg]
      exact Nat.not_lt.mpr h.position
    · have hbuffer := h.buffer
      have hend := h.length
      constructor
      · constructor
        · show (overwrite r.buffer 0 r.available).length = bufferSize
          rw [length_overwrite _ _ _ (by omega), hbuffer]
        · exact Nat.zero_le _
        · show r.available.length ≤ bufferSize
          omega
      · show ((overwrite r.buffer 0 r.available).take r.available.length).drop 0 = _
        have htake := take_overwrite r.buffer r.available 0 (Nat.zero_le _)
        rw [Nat.zero_add] at htake
        simp [htake]
      · rfl
      · rfl
      · exact ⟨rfl, rfl⟩
  · rw [if_neg hposition]
    rw [Decidable.not_not] at hposition
    exact ⟨r, rfl, ⟨h, by simp, by simp, hposition, rfl, rfl⟩, by omega⟩

theorem Shape.fillBufferAndReset (h : r.Shape) (count : Nat) :
    let n := min (min count (bufferSize - r.available.length)) r.rest.length
    ∃ r', r.fillBufferAndReset count = .ok (n, r') ∧ Refilled r r' n := by
  intro n
  obtain ⟨r₀, hreset, hmoved, hlength⟩ := h.reset
  obtain ⟨r', hfill, hfilled⟩ := hmoved.shape.fillLoop count (Nat.le_refl count) 0
  have hrest : r₀.rest = r.rest := by rw [hmoved.rest, List.drop_zero]
  rw [hlength, hrest, Nat.zero_add] at hfill
  rw [hlength, hrest] at hfilled
  refine ⟨r', ?_, ?_⟩
  · rw [StreamReader.fillBufferAndReset, hreset, Except.map, hfill]
  · constructor
    · exact hfilled.shape
    · rw [hfilled.available, hmoved.available, hrest, List.take_zero, List.append_nil]
    · rw [hfilled.rest, hrest]
    · rw [hfilled.position, hmoved.position]
    · exact ⟨hfilled.stream.1.trans hmoved.stream.1, hfilled.stream.2.trans hmoved.stream.2⟩

/-! ## One character -/

theorem Holds.length (h : r.Holds text) :
    r.available.length + r.rest.length = (encode text).length := by
  rw [← h.flat, StreamReader.flat, List.length_append]

theorem Holds.nil_iff (h : r.Holds text) : text = [] ↔ r.available.length + r.rest.length = 0 := by
  rw [h.length, List.length_eq_zero_iff, encode_eq_nil_iff]

theorem length_encode_cons (c : Char) (text : List Char) :
    (encode (c :: text)).length = size c + (encode text).length := by
  rw [encode_cons, List.length_append, size]

/-- A reader that stands before a character moves on behind it. -/
theorem Holds.behind {c : Char} (h : r.Holds (c :: text)) (hsize : size c ≤ r.available.length) :
    { r with curBufPos := r.curBufPos + size c }.Holds text := by
  have hlength := h.shape.length_available
  have hposition := h.shape.position
  have havailable : ({ r with curBufPos := r.curBufPos + size c } : StreamReader).available =
      r.available.drop (size c) := by
    rw [StreamReader.available, StreamReader.available, List.drop_drop]
  constructor
  · exact ⟨h.shape.buffer, by show r.curBufPos + size c ≤ r.curBufLen; omega, h.shape.length⟩
  · rw [StreamReader.flat, havailable]
    have hflat := congrArg (List.drop (size c)) h.flat
    rw [StreamReader.flat, List.drop_append_of_le_length hsize, encode_cons,
      List.drop_left' (i := size c) rfl] at hflat
    exact hflat
  · intro d hd
    exact h.nonzero d (List.mem_cons_of_mem _ hd)
  · intro hseek
    have htotal := h.total hseek
    rw [length_encode_cons] at htotal
    exact (Nat.le_add_left _ _).trans htotal

/-- What a call of `Read()` does before a character: where the character is not complete in the
buffer, the buffer is filled first. -/
structure ReadsChar (r : StreamReader) (c : Char) (text : List Char) (r₁ : StreamReader) :
    Prop where
  holds : r₁.Holds (c :: text)
  complete : size c ≤ r₁.available.length
  here : size c ≤ r.available.length → r₁ = r
  front : r.curBufPos = 0 → r₁.curBufPos = 0
  stream : r₁.stream.canSeek = r.stream.canSeek ∧ r₁.stream.total = r.stream.total

theorem Holds.readLoop {c : Char} (h : r.Holds (c :: text)) (hbasic : Basic c) {fuel : Nat}
    (hfuel : r.rest.length < fuel) :
    ∃ r₁, StreamReader.readLoop fuel r =
      .ok (some c.toNat, { r₁ with curBufPos := r₁.curBufPos + size c }) ∧
        ReadsChar r c text r₁ := by
  induction fuel generalizing r with
  | zero => omega
  | succ fuel ih =>
      obtain ⟨r', hconvert, hholds, hr', -⟩ := h.convert 1 (by simpa using hbasic)
      rw [StreamReader.readLoop, hconvert, Except.bind]
      by_cases hsize : size c ≤ r.available.length
      · have hn : min 1 (complete (c :: text) r.available.length) = 1 := by
          rw [complete, if_pos hsize]
          omega
        rw [hn] at hr' ⊢
        refine ⟨r, ?_, h, hsize, fun _ => rfl, id, rfl, rfl⟩
        rw [hr', List.take_succ_cons, List.take_zero, List.map_cons, encode_cons, encode_nil,
          List.append_nil, size]
      · have hn : min 1 (complete (c :: text) r.available.length) = 0 := by
          rw [complete, if_neg hsize, Nat.min_zero]
        rw [hn] at hr' ⊢
        have heq : r' = r := by rw [hr']; simp
        rw [heq]
        have hlength := h.length
        rw [length_encode_cons] at hlength
        have hsmall := size_le_of_basic hbasic
        rw [List.take_zero, List.map_nil]
        simp only
        generalize hcount : (if min bufferSize r.stream.length = 0 then 1
          else min bufferSize r.stream.length) = count
        have hpos : 0 < count := by
          split at hcount <;> omega
        obtain ⟨r₀, hfill, hrefilled⟩ := h.shape.fillBufferAndReset count
        have hsome : 0 < min (min count (bufferSize - r.available.length)) r.rest.length := by
          rw [bufferSize]
          omega
        rw [hfill, Except.bind]
        simp only
        rw [if_neg hsome.ne']
        have hrest := congrArg List.length hrefilled.rest
        rw [List.length_drop] at hrest
        obtain ⟨r₁, hread, hreads⟩ := ih (hrefilled.holds h) (by omega)
        refine ⟨r₁, hread, hreads.holds, hreads.complete, fun hc => absurd hc hsize, ?_, ?_⟩
        · intro _
          exact hreads.front hrefilled.position
        · exact ⟨hreads.stream.1.trans hrefilled.stream.1,
            hreads.stream.2.trans hrefilled.stream.2⟩

theorem Holds.read {c : Char} (h : r.Holds (c :: text)) (hbasic : Basic c) :
    ∃ r₁, r.read = .ok (some c.toNat, { r₁ with curBufPos := r₁.curBufPos + size c }) ∧
      ReadsChar r c text r₁ :=
  h.readLoop hbasic (Nat.lt_succ_self _)

/-- At the end of the text nothing is read. -/
theorem Holds.read_nil (h : r.Holds []) :
    ∃ r', r.read = .ok (none, r') ∧ r'.Holds [] ∧
      (r.curBufPos = 0 → r'.curBufPos = 0) ∧
        r'.stream.canSeek = r.stream.canSeek ∧ r'.stream.total = r.stream.total := by
  have hlength := h.nil_iff.mp rfl
  have hempty : r.available = [] := List.length_eq_zero_iff.mp (by omega)
  obtain ⟨r', hconvert, hholds, hr', -⟩ := h.convert 1 (by simp)
  rw [StreamReader.read, StreamReader.readLoop, hconvert, Except.bind]
  have heq : r' = r := by rw [hr']; simp
  rw [heq, List.take_nil, List.map_nil]
  simp only
  generalize hcount : (if min bufferSize r.stream.length = 0 then 1
    else min bufferSize r.stream.length) = count
  obtain ⟨r₀, hfill, hrefilled⟩ := h.shape.fillBufferAndReset count
  have hnone : min (min count (bufferSize - r.available.length)) r.rest.length = 0 := by omega
  rw [hnone] at hfill hrefilled
  rw [hfill, Except.bind]
  exact ⟨r₀, rfl, hrefilled.holds h, fun _ => hrefilled.position, hrefilled.stream⟩

/-! ## The next character -/

/-- Bytes of the stream were put behind those in the buffer, which are not looked at yet. -/
structure Peeked (r r' : StreamReader) (totRead n : Nat) : Prop where
  buffer : r'.buffer.length = bufferSize
  length : n ≤ bufferSize
  flat : r'.buffer.take n ++ r'.rest = r.buffer.take totRead ++ r.rest
  stream : r'.stream.canSeek = r.stream.canSeek ∧ r'.stream.total = r.stream.total

theorem peekLoop_spec (fuel totRead : Nat) (hbuffer : r.buffer.length = bufferSize)
    (htotRead : totRead ≤ bufferSize) :
    ∃ n r', StreamReader.peekLoop fuel totRead r = (n, r') ∧ Peeked r r' totRead n := by
  induction fuel generalizing totRead r with
  | zero => exact ⟨totRead, r, rfl, hbuffer, htotRead, rfl, rfl, rfl⟩
  | succ fuel ih =>
      rw [StreamReader.peekLoop]
      by_cases hturn : 0 < r.stream.length ∧ totRead < bufferSize
      · rw [if_pos hturn]
        generalize hcount : min (bufferSize - totRead) r.stream.length = count
        have hbytes := r.stream.pieces.length_read_le count
        have hparts := r.stream.pieces.read_append count
        have hroom : totRead + (r.stream.pieces.read count).1.length ≤ r.buffer.length := by omega
        by_cases hzero : (r.stream.pieces.read count).1.length = 0
        · have hnil := List.length_eq_zero_iff.mp hzero
          refine ⟨totRead, (r.readInto totRead count).2, ?_, ?_⟩
          · simp [StreamReader.readInto, hzero]
          · rw [hnil, List.nil_append] at hparts
            constructor
            · show (overwrite r.buffer totRead (r.stream.pieces.read count).1).length = bufferSize
              rw [length_overwrite _ _ _ hroom, hbuffer]
            · exact htotRead
            · show (overwrite r.buffer totRead (r.stream.pieces.read count).1).take totRead ++
                (r.stream.pieces.read count).2.rest = _
              rw [hnil, hparts]
              have htake := take_overwrite r.buffer [] totRead (by omega)
              rw [List.length_nil, Nat.add_zero, List.append_nil] at htake
              rw [htake]
              rfl
            · exact ⟨rfl, rfl⟩
        · obtain ⟨n, r', hr', hpeeked⟩ := ih (r := (r.readInto totRead count).2)
            (totRead + (r.stream.pieces.read count).1.length)
            (by
              show (overwrite r.buffer totRead (r.stream.pieces.read count).1).length = bufferSize
              rw [length_overwrite _ _ _ hroom, hbuffer]) (by omega)
          refine ⟨n, r', ?_, hpeeked.buffer, hpeeked.length, ?_, hpeeked.stream⟩
          · simp only [StreamReader.readInto, hzero, if_false]
            exact hr'
          · rw [hpeeked.flat]
            show (overwrite r.buffer totRead (r.stream.pieces.read count).1).take _ ++
              (r.stream.pieces.read count).2.rest = _
            rw [take_overwrite _ _ _ (by omega), List.append_assoc, hparts]
            rfl
      · rw [if_neg hturn]
        exact ⟨totRead, r, rfl, hbuffer, htotRead, rfl, rfl, rfl⟩

/-- An empty buffer is filled anew. -/
theorem Holds.peekRefill (h : r.Holds text) (hempty : r.available.length = 0) :
    r.peekRefill.Holds text ∧ r.peekRefill.curBufPos = 0 ∧
      r.peekRefill.stream.canSeek = r.stream.canSeek ∧
        r.peekRefill.stream.total = r.stream.total := by
  have hnil := List.length_eq_zero_iff.mp hempty
  have hbuffer := h.shape.buffer
  obtain ⟨n, r', hr', hpeeked⟩ := peekLoop_spec (r := r) bufferSize 0 hbuffer (Nat.zero_le _)
  have heq : r.peekRefill = { r' with curBufPos := 0, curBufLen := n } := by
    simp only [StreamReader.peekRefill, hnil, List.take_nil, List.length_nil, overwrite,
      List.take_zero, List.nil_append, Nat.add_zero, List.drop_zero]
    rw [hr']
  rw [heq]
  refine ⟨⟨⟨hpeeked.buffer, Nat.zero_le _, hpeeked.length⟩, ?_, h.nonzero, ?_⟩, rfl,
    hpeeked.stream⟩
  · have hflat := hpeeked.flat
    rw [List.take_zero, List.nil_append] at hflat
    have hrest := h.flat
    rw [StreamReader.flat, hnil, List.nil_append] at hrest
    rw [← hrest, ← hflat]
    rfl
  · show r'.stream.canSeek = true → _ ≤ r'.stream.total
    rw [hpeeked.stream.1, hpeeked.stream.2]
    exact h.total

/-- In the basic plane only a character of one byte is followed by one that begins with one. -/
theorem size_eq_one_of_next {c : Char} (hbasic : Basic c) {b b' : UInt8} {bytes : List UInt8}
    (h : encode (c :: text) = b :: b' :: bytes) (hnext : b' < 0x80) : size c = 1 := by
  rw [size]
  rw [encode_cons] at h
  rw [UInt8.lt_iff_toNat_lt] at hnext
  have hnext : b'.toNat < 128 := hnext
  unfold Basic at hbasic
  rcases encodeChar_cases hbasic with ⟨-, hcode⟩ | ⟨hlow, hhigh, hcode⟩ | ⟨hlow, hcode⟩
  · rw [hcode, List.length_singleton]
  · rw [hcode, List.cons_append, List.cons_append, List.cons.injEq, List.cons.injEq] at h
    have hvalue : (UInt8.ofNat (c.toNat % 64 + 0x80)).toNat = c.toNat % 64 + 0x80 :=
      toNat_ofNat (by omega)
    rw [h.2.1] at hvalue
    omega
  · rw [hcode, List.cons_append, List.cons_append, List.cons.injEq, List.cons.injEq] at h
    have hvalue : (UInt8.ofNat (c.toNat / 64 % 64 + 0x80)).toNat = c.toNat / 64 % 64 + 0x80 :=
      toNat_ofNat (by omega)
    rw [h.2.1] at hvalue
    omega

/-- What `Peek` does in a text: it gives the first character and leaves the reader before it. -/
structure Peeks (r : StreamReader) (text : List Char) (r' : StreamReader) : Prop where
  result : r.peek = .ok (text.head?.map Char.toNat, r')
  holds : r'.Holds text
  stream : r'.stream.canSeek = r.stream.canSeek ∧ r'.stream.total = r.stream.total

/-- Where enough bytes are there, nothing is moved. -/
theorem Holds.peek_here {c : Char} (h : r.Holds (c :: text)) (hbasic : Basic c)
    (htwo : 2 ≤ r.available.length)
    (hnext : r.buffer.getD (r.curBufPos + 1) 0 < 0x80 ∨ 4 ≤ r.available.length) :
    Peeks r (c :: text) r := by
  have hlength := h.shape.length_available
  have hbuffer := h.shape.buffer
  have hend := h.shape.length
  have hindex : r.curBufPos + 1 < r.buffer.length := by omega
  obtain ⟨b', hb'⟩ : ∃ b', r.buffer[r.curBufPos + 1]? = some b' :=
    ⟨_, List.getElem?_eq_getElem hindex⟩
  rw [List.getD_eq_getElem?_getD, hb', Option.getD_some] at hnext
  have hneeds : r.peekNeedsRefill = .ok false := by
    rw [StreamReader.peekNeedsRefill, if_neg (by omega), hb']
    simp only [Except.ok.injEq, Bool.and_eq_false_iff, decide_eq_false_iff_not]
    rcases hnext with hnext | hnext
    · exact .inl (UInt8.not_le.mpr hnext)
    · exact .inr (by omega)
  have hcomplete : size c ≤ r.available.length := by
    rcases hnext with hnext | hnext
    · obtain ⟨b, bytes, hbytes⟩ : ∃ b bytes, r.available = b :: b' :: bytes := by
        have hsecond : r.available[1]? = some b' := by
          rw [StreamReader.available, List.getElem?_drop, List.getElem?_take, if_pos (by omega), hb']
        cases hav : r.available with
        | nil => simp [hav] at htwo
        | cons b tail =>
            cases tail with
            | nil => simp [hav] at htwo
            | cons b₁ bytes =>
                rw [hav, List.getElem?_cons_succ, List.getElem?_cons_zero,
                  Option.some.injEq] at hsecond
                exact ⟨b, bytes, by rw [hsecond]⟩
      have hflat := h.flat
      rw [StreamReader.flat, hbytes, List.cons_append, List.cons_append] at hflat
      rw [size_eq_one_of_next hbasic hflat.symm hnext]
      omega
    · exact (size_le c).trans hnext
  obtain ⟨r₁, hread, hreads⟩ := h.read hbasic
  have heq := hreads.here hcomplete
  refine ⟨?_, h, rfl, rfl⟩
  rw [StreamReader.peek, hneeds, Except.bind]
  simp only [Bool.false_eq_true, if_false]
  rw [hread, Except.map, heq]
  rfl

/-- A reader with its position at the front gives the next character and takes it back. -/
theorem Holds.read_front (h : r.Holds text) (hbasic : ∀ c ∈ text.take 1, Basic c)
    (hfront : r.curBufPos = 0) :
    ∃ r₁, r.read = .ok (text.head?.map Char.toNat, r₁) ∧
      { r₁ with curBufPos := 0 }.Holds text ∧
        r₁.stream.canSeek = r.stream.canSeek ∧ r₁.stream.total = r.stream.total := by
  cases text with
  | nil =>
      obtain ⟨r', hread, hholds, hposition, hstream⟩ := h.read_nil
      refine ⟨r', hread, ?_, hstream⟩
      rw [← hposition hfront]
      exact hholds
  | cons c text =>
      obtain ⟨r₁, hread, hreads⟩ := h.read (hbasic c (by simp))
      refine ⟨_, hread, ?_, hreads.stream⟩
      have hposition := hreads.front hfront
      rw [← hposition]
      exact hreads.holds

theorem Holds.peek (h : r.Holds text) (hbasic : ∀ c ∈ text.take 1, Basic c)
    (hworks : r.PeekWorks) : ∃ r', Peeks r text r' := by
  rcases hworks with ⟨htwo, hnext⟩ | ⟨hempty, hposition, hmoved⟩
  · cases text with
    | nil =>
        have hlength := h.nil_iff.mp rfl
        omega
    | cons c text => exact ⟨r, h.peek_here (hbasic c (by simp)) htwo hnext⟩
  · have hlength := h.shape.length_available
    have hend := h.shape.position
    have hbuffer := h.shape.buffer
    have hneeds : r.peekNeedsRefill =
        .ok (decide (0x80 ≤ r.buffer.getD (r.curBufPos + 1) 0)) := by
      have hindex : r.curBufPos + 1 < r.buffer.length := by omega
      rw [StreamReader.peekNeedsRefill, if_neg (by omega), List.getElem?_eq_getElem hindex,
        List.getD_eq_getElem?_getD, List.getElem?_eq_getElem hindex]
      have hfew : r.curBufLen ≤ r.curBufPos + 3 := by omega
      simp [hfew]
    by_cases hrefill : 0x80 ≤ r.buffer.getD (r.curBufPos + 1) 0
    · obtain ⟨hholds, hfront, hstream⟩ := h.peekRefill hempty
      obtain ⟨r₁, hread, hholds₁, hstream₁⟩ := hholds.read_front hbasic hfront
      refine ⟨_, ?_, hholds₁, hstream₁.1.trans hstream.1, hstream₁.2.trans hstream.2⟩
      rw [StreamReader.peek, hneeds, Except.bind]
      simp only [hrefill, decide_true, if_true]
      rw [hread, Except.map]
    · have hfront := hmoved.resolve_right hrefill
      obtain ⟨r₁, hread, hholds₁, hstream₁⟩ := h.read_front hbasic hfront
      refine ⟨_, ?_, hholds₁, hstream₁⟩
      rw [StreamReader.peek, hneeds, Except.bind]
      simp only [hrefill, decide_false, Bool.false_eq_true, if_false]
      rw [hread, Except.map, hfront]

/-! ## Several characters -/

/-- Where the decoder stops before the room is used up, less than a character is left. -/
theorem left_over {n : Nat} (hn : n = complete text r.available.length)
    (hsplit : r.available = encode (text.take n) ++ r'.available) :
    ∀ c ∈ (text.drop n).head?, r'.available.length < size c := by
  have hlength := congrArg List.length hsplit
  rw [List.length_append] at hlength
  have hnone := complete_drop hn.le
  rw [hn, Nat.sub_self, ← hn] at hnone
  rw [← complete_eq_zero, ← hnone]
  congr 1
  omega

/-- The loop stores the characters, and all of them in one turn where they come at once. -/
theorem Holds.readBufferLoop (h : r.Holds text) (buffer : List Nat) (offset count : Nat)
    (hbasic : ∀ c ∈ text.take count, Basic c) (hroom : offset + count ≤ buffer.length)
    {fuel : Nat} (hfuel : r.rest.length < fuel) :
    ∃ returned r', StreamReader.readBufferLoop fuel offset count buffer r =
        .ok (returned, overwrite buffer offset ((text.take count).map Char.toNat), r') ∧
      r'.Holds (text.drop count) ∧
      (r'.stream.canSeek = r.stream.canSeek ∧ r'.stream.total = r.stream.total) ∧
      (∀ g, r.rest.length < g → atOnce g r.available r.rest count = true →
        returned = min count text.length) := by
  induction fuel generalizing r text count offset buffer with
  | zero => omega
  | succ fuel ih =>
      have hdecoded := h.decoded hbasic
      obtain ⟨r₁, hconvert, hholds, hr₁, hsplit⟩ := h.convert count hbasic
      generalize hn : min count (complete text r.available.length) = n at *
      have htext : n ≤ text.length := by
        have := complete_le text r.available.length
        omega
      have hrest₁ : r₁.rest = r.rest := by rw [hr₁]; rfl
      have hlength : ((text.take n).map Char.toNat).length = n := by
        rw [List.length_map, List.length_take, Nat.min_eq_left htext]
      rw [StreamReader.readBufferLoop, hconvert, Except.bind]
      simp only [hlength]
      by_cases hdone : count - n = 0
      · rw [if_pos hdone]
        obtain rfl : n = count := by omega
        refine ⟨n, r₁, rfl, hholds, ?_, fun _ _ _ => (Nat.min_eq_left htext).symm⟩
        rw [hr₁]
        exact ⟨rfl, rfl⟩
      · rw [if_neg hdone]
        have hall : n = complete text r.available.length := by omega
        have hleft := left_over hall hsplit
        have hfew : r₁.available.length < 4 := by
          cases hdrop : text.drop n with
          | nil =>
              rw [hdrop] at hholds
              have := hholds.nil_iff.mp rfl
              omega
          | cons c tail => exact (hleft c (by simp [hdrop])).trans_le (size_le c)
        obtain ⟨r₂, hfill, hrefilled⟩ := hholds.shape.fillBufferAndReset (count - n)
        rw [hfill, Except.bind]
        simp only
        by_cases hend : r.rest.length = 0
        · have hnone : min (min (count - n) (bufferSize - r₁.available.length)) r₁.rest.length =
              0 := by
            rw [hrest₁]
            omega
          rw [hnone] at hrefilled ⊢
          rw [if_pos rfl]
          have hdrop : text.drop n = [] := by
            cases hdrop : text.drop n with
            | nil => rfl
            | cons c tail =>
                have hsmall := hleft c (by simp [hdrop])
                rw [hdrop] at hholds
                have hbytes := hholds.length
                rw [length_encode_cons, hrest₁] at hbytes
                omega
          have hlast : text.length ≤ n := List.drop_eq_nil_iff.mp hdrop
          refine ⟨n, r₂, ?_, ?_, ?_, fun _ _ _ => by omega⟩
          · rw [List.take_of_length_le hlast, List.take_of_length_le (by omega)]
          · rw [List.drop_eq_nil_of_le (by omega), ← hdrop]
            exact hrefilled.holds hholds
          · rw [hrefilled.stream.1, hrefilled.stream.2, hr₁]
            exact ⟨rfl, rfl⟩
        · have hsome : 0 < min (min (count - n) (bufferSize - r₁.available.length))
              r₁.rest.length := by
            rw [hrest₁, bufferSize]
            omega
          rw [if_neg hsome.ne']
          have htake : text.take count = text.take n ++ (text.drop n).take (count - n) := by
            rw [← List.take_add]
            congr 1
            omega
          have hrest₂ := congrArg List.length hrefilled.rest
          rw [List.length_drop, hrest₁] at hrest₂
          rw [hrest₁] at hsome
          obtain ⟨returned, r', hloop, hholds', hstream, hatOnce⟩ := ih
            (hrefilled.holds hholds) (overwrite buffer offset ((text.take n).map Char.toNat))
            (offset + n) (count - n)
            (fun c hc => hbasic c (by rw [htake]; exact List.mem_append_right _ hc))
            (by rw [length_overwrite _ _ _ (by omega)]; omega) (by omega)
          refine ⟨returned, r', ?_, ?_, ?_, ?_⟩
          · rw [hloop]
            have hjoin := overwrite_overwrite buffer ((text.take n).map Char.toNat)
              (((text.drop n).take (count - n)).map Char.toNat) offset (by omega)
            rw [hlength] at hjoin
            rw [hjoin, ← List.map_append, ← htake]
          · rw [List.drop_drop] at hholds'
            rwa [Nat.add_sub_cancel' (by omega)] at hholds'
          · rw [hstream.1, hstream.2, hrefilled.stream.1, hrefilled.stream.2, hr₁]
            exact ⟨rfl, rfl⟩
          · intro g hg hat
            cases g with
            | zero => omega
            | succ g =>
                rw [atOnce, hdecoded] at hat
                simp only [hlength, Bool.or_eq_true, beq_iff_eq, Bool.and_eq_true,
                  List.isEmpty_iff] at hat
                rcases hat with (hat | hat) | ⟨hempty, hat⟩
                · omega
                · rw [hat] at hend
                  exact absurd rfl hend
                · have hzero : n = 0 := by
                    rw [← hlength, hempty, List.length_nil]
                  subst hzero
                  have heq : r₁ = r := by rw [hr₁]; simp
                  rw [heq] at hrefilled
                  have hreturned := hatOnce g (by omega)
                  rw [hrefilled.available, hrefilled.rest, ← List.take_eq_take_min,
                    ← List.drop_eq_drop_min] at hreturned
                  exact hreturned hat

/-- `Read(buffer, index, count)` stores the characters at the front of the array. -/
theorem Holds.readBuffer (h : r.Holds text) (buffer : List Nat) (count : Nat)
    (hbasic : ∀ c ∈ text.take count, Basic c) (hroom : count ≤ buffer.length) :
    ∃ returned r', r.readBuffer buffer count =
        .ok (returned, overwrite buffer 0 ((text.take count).map Char.toNat), r') ∧
      r'.Holds (text.drop count) ∧
      (r'.stream.canSeek = r.stream.canSeek ∧ r'.stream.total = r.stream.total) ∧
      (r.AtOnce count → returned = min count text.length) := by
  rw [StreamReader.readBuffer]
  by_cases hempty : r.curBufLen = 0
  · have hlength := h.shape.length_available
    have hnil : r.available = [] := List.length_eq_zero_iff.mp (by omega)
    have hdecoded := h.decoded hbasic
    obtain ⟨r₀, hfill, hrefilled⟩ := h.shape.fillBufferAndReset count
    rw [if_pos hempty, hfill, Except.map, Except.bind]
    obtain ⟨returned, r', hloop, hholds, hstream, hatOnce⟩ :=
      (hrefilled.holds h).readBufferLoop buffer 0 count hbasic (by omega)
        (Nat.lt_succ_self _)
    refine ⟨returned, r', hloop, hholds, ⟨hstream.1.trans hrefilled.stream.1,
      hstream.2.trans hrefilled.stream.2⟩, ?_⟩
    intro hat
    have hrest := congrArg List.length hrefilled.rest
    rw [List.length_drop] at hrest
    by_cases hnone : count = 0 ∨ r.rest = []
    · refine hatOnce _ (Nat.lt_succ_self _) ?_
      rw [atOnce]
      rcases hnone with rfl | hnone
      · simp [(hrefilled.holds h).decoded hbasic]
      · have hempty' : r₀.rest = [] := by rw [hrefilled.rest, hnone, List.drop_nil]
        simp [hempty']
    · rw [not_or, ← List.length_eq_zero_iff] at hnone
      have hsome : 0 < min (min count (bufferSize - r.available.length)) r.rest.length := by
        rw [bufferSize]
        omega
      have hreturned := hatOnce r.rest.length (by omega)
      rw [hrefilled.available, hrefilled.rest, ← List.take_eq_take_min,
        ← List.drop_eq_drop_min] at hreturned
      apply hreturned
      rw [AtOnce, atOnce, hnil] at hat
      simp only [Bool.or_eq_true, beq_iff_eq, Bool.and_eq_true, List.isEmpty_iff] at hat
      rcases hat with (hat | hat) | ⟨-, hat⟩
      · have hnothing : (convertFromUTF8 [] count).1 = [] := by cases count <;> rfl
        rw [hnothing, List.length_nil] at hat
        exact absurd hat.symm hnone.1
      · rw [hat] at hnone
        exact absurd rfl hnone.2
      · rw [hnil]
        exact hat
  · rw [if_neg hempty, Except.bind]
    obtain ⟨returned, r', hloop, hholds, hstream, hatOnce⟩ :=
      h.readBufferLoop buffer 0 count hbasic (by omega) (Nat.lt_succ_self _)
    exact ⟨returned, r', hloop, hholds, hstream, hatOnce _ (Nat.lt_succ_self _)⟩

/-! ## A line -/

theorem afterLine_lf (text : List Nat) : afterLine (10 :: text) = text := rfl

theorem afterLine_cr (text : List Nat) :
    afterLine (13 :: text) = if text.head? = some 10 then text.tail else text := by
  have hdrop : (13 :: text).dropWhile (!isLineEnd ·) = 13 :: text := rfl
  rw [afterLine, hdrop]
  split
  case h_1 rest heq =>
      obtain rfl : text = 10 :: rest := List.tail_eq_of_cons_eq heq
      rfl
  case h_2 rest hne heq =>
      obtain rfl : text = rest := List.tail_eq_of_cons_eq heq
      rw [if_neg]
      intro hhead
      obtain ⟨tail, rfl⟩ := List.head?_eq_some_iff.mp hhead
      exact hne tail (List.head_eq_of_cons_eq heq).symm rfl
  case h_3 heq => exact absurd heq (List.cons_ne_nil _ _)

theorem afterLine_cons {c : Nat} (h : isLineEnd c = false) (text : List Nat) :
    afterLine (c :: text) = afterLine text := by
  rw [afterLine, afterLine, List.dropWhile_cons_of_pos (by simp [h])]

theorem units_cons {c : Char} (h : Basic c) (text : List Char) :
    units (c :: text) = c.toNat :: units text := by
  rw [units, List.flatMap_cons, charUnits_basic h]
  rfl

theorem length_le_encode (text : List Char) : text.length ≤ (encode text).length := by
  induction text with
  | nil => exact Nat.le_refl 0
  | cons c text ih =>
      have hsize := size_pos c
      rw [length_encode_cons, List.length_cons]
      omega

theorem lineSpan_cons {c : Char} (h : isLineEnd c.toNat = false) (text : List Char) :
    lineSpan (c :: text) = lineSpan text + 1 := by
  rw [lineSpan, lineSpan, List.takeWhile_cons_of_pos (by simp [h]),
    List.dropWhile_cons_of_pos (by simp [h]), List.length_cons]
  omega

theorem lineSpan_end {c : Char} (h : isLineEnd c.toNat = true) (text : List Char) :
    lineSpan (c :: text) = if c.toNat = 13 then 2 else 1 := by
  rw [lineSpan, List.takeWhile_cons_of_neg (by simp [h]), List.dropWhile_cons_of_neg (by simp [h]),
    List.length_nil, Nat.zero_add]

/-- The loop appends what is left of the line, and the reader stands behind the line. -/
theorem Holds.readLineLoop (h : r.Holds text)
    (hbasic : ∀ c ∈ text.take (lineSpan text), Basic c)
    (hworks : ∀ c ∈ (text.dropWhile (!isLineEnd ·.toNat)).head?, c.toNat = 13 →
      (afterReads ((text.takeWhile (!isLineEnd ·.toNat)).length + 1) r).PeekWorks)
    {fuel k : Nat} (hfuel : text.length < fuel) (line : List Nat)
    (hline : line.length ≤ bufferSize * k) (hmax : bufferSize * k ≤ 65024)
    (hfits : line.length + (text.takeWhile (!isLineEnd ·.toNat)).length +
      min 1 (text.dropWhile (!isLineEnd ·.toNat)).length ≤ 65024) :
    ∃ text' r', StreamReader.readLineLoop fuel line (bufferSize * k) r =
        .ok (if line = [] ∧ text = [] then none
          else some (line ++ (units text).takeWhile (!isLineEnd ·)), r') ∧
      r'.Holds text' ∧ units text' = afterLine (units text) ∧
      r'.stream.canSeek = r.stream.canSeek ∧ r'.stream.total = r.stream.total := by
  induction text generalizing r fuel line k with
  | nil =>
      cases fuel with
      | zero => exact absurd hfuel (Nat.not_lt_zero _)
      | succ fuel =>
          obtain ⟨r', hread, hholds, -, hstream⟩ := h.read_nil
          refine ⟨[], r', ?_, hholds, rfl, hstream⟩
          rw [StreamReader.readLineLoop, hread, Except.bind]
          simp [units]
  | cons c text ih =>
      cases fuel with
      | zero => exact absurd hfuel (Nat.not_lt_zero _)
      | succ fuel =>
          have hc : Basic c := by
            apply hbasic c
            cases hend : isLineEnd c.toNat with
            | false => simp [lineSpan_cons hend]
            | true =>
                rw [lineSpan_end hend]
                split <;> simp
          obtain ⟨r₁, hread, hreads⟩ := h.read hc
          have hholds := hreads.holds.behind hreads.complete
          have hstream : ({ r₁ with curBufPos := r₁.curBufPos + size c } : StreamReader).stream =
            r₁.stream := rfl
          generalize hr₂ : ({ r₁ with curBufPos := r₁.curBufPos + size c } : StreamReader) = r₂ at *
          have hroom : ¬(line.length = bufferSize * k ∧
              maxReadLineLen < bufferSize * k + bufferSize) := by
            rw [bufferSize] at hmax ⊢
            rw [maxReadLineLen]
            have hpos : 1 ≤ (List.takeWhile (!isLineEnd ·.toNat) (c :: text)).length +
                min 1 (List.dropWhile (!isLineEnd ·.toNat) (c :: text)).length := by
              cases hend : isLineEnd c.toNat with
              | false =>
                  rw [List.takeWhile_cons_of_pos (by simp [hend]), List.length_cons]
                  omega
              | true =>
                  rw [List.dropWhile_cons_of_neg (by simp [hend]), List.length_cons]
                  omega
            omega
          rw [StreamReader.readLineLoop, hread, Except.bind, units_cons hc]
          simp only
          have hsome : ¬(line = [] ∧ c :: text = []) := by simp
          rw [if_neg hroom, if_neg hsome]
          by_cases hlf : c.toNat = 10
          · refine ⟨text, r₂, ?_, hholds, ?_, ?_⟩
            · rw [if_pos hlf, hlf, List.takeWhile_cons_of_neg (by decide), List.append_nil]
            · rw [hlf, afterLine_lf]
            · rw [← hr₂]
              exact hreads.stream
          · rw [if_neg hlf]
            by_cases hcr : c.toNat = 13
            · have hend : isLineEnd c.toNat = true := by rw [hcr]; rfl
              have hnext : ∀ d ∈ text.take 1, Basic d := by
                rw [lineSpan_end hend, if_pos hcr, List.take_succ_cons] at hbasic
                exact fun d hd => hbasic d (List.mem_cons_of_mem _ hd)
              have hpeek : r₂.PeekWorks := by
                have hwork := hworks c (by simp [hend]) hcr
                rw [List.takeWhile_cons_of_neg (by simp [hend]), List.length_nil, Nat.zero_add,
                  afterReads, hread] at hwork
                exact hwork
              obtain ⟨r₃, hpeeks⟩ := hholds.peek hnext hpeek
              have hstream₃ : r₃.stream.canSeek = r.stream.canSeek ∧
                  r₃.stream.total = r.stream.total := by
                rw [hpeeks.stream.1, hpeeks.stream.2, ← hr₂]
                exact hreads.stream
              rw [if_pos hcr, hpeeks.result, Except.bind, hcr, afterLine_cr,
                List.takeWhile_cons_of_neg (by decide), List.append_nil]
              simp only
              cases text with
              | nil => exact ⟨[], r₃, by simp, hpeeks.holds, by simp [units], hstream₃⟩
              | cons d text =>
                  have hd : Basic d := hnext d (by simp)
                  rw [units_cons hd]
                  by_cases hten : d.toNat = 10
                  · obtain ⟨r₄, hread₄, hreads₄⟩ := hpeeks.holds.read hd
                    refine ⟨text, _, ?_, hreads₄.holds.behind hreads₄.complete, ?_, ?_⟩
                    · rw [if_pos (by simp [hten]), hread₄, Except.map]
                    · simp [hten]
                    · exact ⟨hreads₄.stream.1.trans hstream₃.1, hreads₄.stream.2.trans hstream₃.2⟩
                  · refine ⟨d :: text, r₃, ?_, hpeeks.holds, ?_, hstream₃⟩
                    · rw [if_neg (by simp [hten])]
                    · rw [if_neg (by simp [hten]), units_cons hd]
            · have hend : isLineEnd c.toNat = false := by simp [isLineEnd, hlf, hcr]
              have hbasic' : ∀ d ∈ text.take (lineSpan text), Basic d := by
                rw [lineSpan_cons hend, List.take_succ_cons] at hbasic
                exact fun d hd => hbasic d (List.mem_cons_of_mem _ hd)
              rw [List.dropWhile_cons_of_pos (by simp [hend]),
                List.takeWhile_cons_of_pos (by simp [hend]), List.length_cons, afterReads,
                hread] at hworks
              rw [List.dropWhile_cons_of_pos (by simp [hend]),
                List.takeWhile_cons_of_pos (by simp [hend]), List.length_cons] at hfits
              rw [if_neg hcr, afterLine_cons hend, List.takeWhile_cons_of_pos (by simp [hend])]
              obtain ⟨k', hk', hline', hmax'⟩ : ∃ k', (if line.length = bufferSize * k then
                  bufferSize * k + bufferSize else bufferSize * k) = bufferSize * k' ∧
                  (line ++ [c.toNat]).length ≤ bufferSize * k' ∧ bufferSize * k' ≤ 65024 := by
                rw [List.length_append, List.length_singleton]
                by_cases hfull : line.length = bufferSize * k
                · refine ⟨k + 1, by rw [if_pos hfull, Nat.mul_succ], ?_, ?_⟩
                  · rw [hfull, Nat.mul_succ, bufferSize]
                    omega
                  · rw [maxReadLineLen] at hroom
                    rw [bufferSize] at hroom hfull ⊢
                    omega
                · exact ⟨k, if_neg hfull, by omega, hmax⟩
              obtain ⟨text', r', hloop, hholds', hafter, hstream'⟩ := ih hholds hbasic' hworks
                (Nat.lt_of_succ_lt_succ hfuel) _ hline' hmax'
                (by rw [List.length_append, List.length_singleton]; omega)
              refine ⟨text', r', ?_, hholds', hafter, ?_⟩
              · rw [hk', hloop, if_neg (by simp), List.append_assoc]
                rfl
              · rw [hstream'.1, hstream'.2, ← hr₂]
                exact hreads.stream

/-- `ReadLine` gives the line, and the reader stands behind it. -/
theorem Holds.readLine (h : r.Holds text)
    (hbasic : ∀ c ∈ text.take (lineSpan text), Basic c) (hworks : r.LineWorks text)
    (hfits : LineFits text) :
    ∃ text' r', r.readLine = .ok (if text = [] then none
        else some ((units text).takeWhile (!isLineEnd ·)), r') ∧
      r'.Holds text' ∧ units text' = afterLine (units text) ∧
      r'.stream.canSeek = r.stream.canSeek ∧ r'.stream.total = r.stream.total := by
  have hfuel : text.length < r.available.length + r.stream.pieces.rest.length + 1 := by
    have hbytes := length_le_encode text
    rw [← h.length] at hbytes
    exact Nat.lt_succ_of_le hbytes
  obtain ⟨text', r', hloop, hrest⟩ := h.readLineLoop hbasic hworks hfuel (k := 1) []
    (Nat.zero_le _) (by decide) (by simpa [LineFits] using hfits)
  refine ⟨text', r', ?_, hrest⟩
  rw [StreamReader.readLine]
  simpa using hloop

/-! ## All that is left -/

theorem overwrite_replicate (items : List Nat) (n : Nat) :
    overwrite (List.replicate n 0) 0 items =
      items ++ List.replicate (n - items.length) 0 := by
  rw [overwrite, List.take_zero, List.nil_append, Nat.zero_add, List.drop_replicate]

/-- No zero of a text ends the string that is made of it. -/
theorem newString_append (hzero : ∀ c ∈ text, c.toNat ≠ 0) (n : Nat) :
    newString (text.map Char.toNat ++ List.replicate n 0) = text.map Char.toNat := by
  have hall : ∀ c ∈ text.map Char.toNat, (decide (c ≠ 0)) = true := by
    intro c hc
    obtain ⟨d, hd, rfl⟩ := List.mem_map.mp hc
    simpa using hzero d hd
  rw [newString, List.takeWhile_append_of_pos hall, List.takeWhile_replicate]
  simp

theorem joinBuffers_flatten (buffers : List (List Nat)) :
    joinBuffers buffers buffers.flatten.length = .ok buffers.flatten := by
  rw [joinBuffers, if_neg (Nat.lt_irrefl _), overwrite_replicate, Nat.sub_self,
    List.replicate_zero, List.append_nil, ite_self]

theorem Holds.readSeekableStream (h : r.Holds text) (hbasic : ∀ c ∈ text, Basic c)
    (hseek : r.stream.canSeek = true) :
    ∃ r', r.readSeekableStream = .ok (text.map Char.toNat ++
        List.replicate (r.stream.total - text.length) 0, r') ∧ r'.Holds [] ∧
      r'.stream.canSeek = r.stream.canSeek ∧ r'.stream.total = r.stream.total := by
  have hlength : r.stream.length = r.stream.total := by rw [Stream.length, if_pos hseek]
  have henough : text.length ≤ r.stream.total := (length_le_encode text).trans (h.total hseek)
  obtain ⟨returned, r', hread, hholds, hstream, -⟩ := h.readBuffer
    (List.replicate r.stream.total 0) r.stream.total
    (fun c hc => hbasic c (List.mem_of_mem_take hc)) (by rw [List.length_replicate])
  rw [List.drop_eq_nil_of_le henough] at hholds
  refine ⟨r', ?_, hholds, hstream⟩
  rw [StreamReader.readSeekableStream, hlength, hread, Except.map,
    List.take_of_length_le henough, overwrite_replicate, List.length_map]

theorem Holds.readNonSeekableLoop (h : r.Holds text) (hbasic : ∀ c ∈ text, Basic c)
    (fuel n : Nat) (hfuel : text.length < fuel) (hn : text.length < n)
    (hatOnce : BuffersAtOnce n r) (buffers : List (List Nat)) (lastBuffer : List Nat)
    (hlast : text.length % bufferSize = 0 → text = [] ∧ buffers = [] ∧ lastBuffer = []) :
    ∃ r', StreamReader.readNonSeekableLoop fuel buffers lastBuffer buffers.flatten.length r =
        .ok (buffers.flatten ++ text.map Char.toNat, r') ∧ r'.Holds [] ∧
      r'.stream.canSeek = r.stream.canSeek ∧ r'.stream.total = r.stream.total := by
  induction fuel generalizing r text n buffers lastBuffer with
  | zero => exact absurd hfuel (Nat.not_lt_zero _)
  | succ fuel ih =>
      cases n with
      | zero => exact absurd hn (Nat.not_lt_zero _)
      | succ n =>
          rw [BuffersAtOnce] at hatOnce
          obtain ⟨returned, r', hread, hholds, hstream, hreturned⟩ := h.readBuffer
            (List.replicate bufferSize 0) bufferSize
            (fun c hc => hbasic c (List.mem_of_mem_take hc)) (by rw [List.length_replicate])
          have hreturned := hreturned hatOnce.1
          have hnext := hatOnce.2
          rw [hread] at hnext
          rw [StreamReader.readNonSeekableLoop, hread, Except.bind, overwrite_replicate]
          simp only
          by_cases hfew : text.length < bufferSize
          · have htake : text.take bufferSize = text := List.take_of_length_le hfew.le
            have hall : returned = text.length := by omega
            rw [List.drop_eq_nil_of_le hfew.le] at hholds
            refine ⟨r', ?_, hholds, hstream⟩
            rw [if_pos (by omega), htake, List.take_left' (by rw [List.length_map, hall])]
            cases text with
            | nil =>
                obtain ⟨-, rfl, rfl⟩ := hlast rfl
                subst hall
                rfl
            | cons c text =>
                have hjoin := joinBuffers_flatten (buffers ++ [(c :: text).map Char.toNat])
                rw [List.flatten_concat, List.length_append, List.length_map] at hjoin
                rw [if_pos (by rw [hall]; exact Nat.succ_pos _), hall, hjoin]
                rfl
          · have hfull : returned = bufferSize := by omega
            have hlength : ((text.take bufferSize).map Char.toNat).length = bufferSize := by
              rw [List.length_map, List.length_take]
              omega
            rw [if_neg (by omega), hlength, Nat.sub_self, List.replicate_zero, List.append_nil]
            have hflatten : buffers.flatten.length + returned =
                (buffers ++ [(text.take bufferSize).map Char.toNat]).flatten.length := by
              rw [List.flatten_concat, List.length_append, hlength, hfull]
            have hdrop : (text.drop bufferSize).length = text.length - bufferSize :=
              List.length_drop
            have hpos : 0 < bufferSize := by decide
            rw [hflatten]
            obtain ⟨r'', hloop, hholds', hstream'⟩ := ih hholds
              (fun c hc => hbasic c (List.mem_of_mem_drop hc)) n (by omega) (by omega) hnext
              (buffers ++ [(text.take bufferSize).map Char.toNat])
              ((text.take bufferSize).map Char.toNat) (by
                intro hmod
                rw [hdrop, ← Nat.mod_eq_sub_mod (by omega)] at hmod
                rw [(hlast hmod).1] at hfew
                exact absurd hpos hfew)
            refine ⟨r'', ?_, hholds', hstream'.1.trans hstream.1, hstream'.2.trans hstream.2⟩
            rw [hloop, List.flatten_concat, List.append_assoc, ← List.map_append,
              List.take_append_drop]

/-- `ReadToEnd` gives all that is left. -/
theorem Holds.readToEnd (h : r.Holds text) (hbasic : ∀ c ∈ text, Basic c)
    (hworks : r.stream.canSeek = false → BuffersAtOnce (text.length + 1) r ∧ EndFits text) :
    ∃ r', r.readToEnd = .ok (text.map Char.toNat, r') ∧ r'.Holds [] ∧
      r'.stream.canSeek = r.stream.canSeek ∧ r'.stream.total = r.stream.total := by
  rw [StreamReader.readToEnd]
  cases hseek : r.stream.canSeek with
  | true =>
      obtain ⟨r', hread, hrest⟩ := h.readSeekableStream hbasic hseek
      rw [hseek] at hrest
      refine ⟨r', ?_, hrest⟩
      rw [if_pos rfl, hread, Except.map]
      simp only [newString_append h.nonzero]
  | false =>
      obtain ⟨hatOnce, hfits⟩ := hworks hseek
      have hbytes := length_le_encode text
      obtain ⟨r', hloop, hrest⟩ := h.readNonSeekableLoop hbasic
        (r.available.length + r.stream.pieces.rest.length + 1) (text.length + 1)
        (by
          rw [← h.length] at hbytes
          exact Nat.lt_succ_of_le hbytes)
        (Nat.lt_succ_self _) hatOnce [] []
        (fun hmod => ⟨hfits hmod, rfl, rfl⟩)
      rw [hseek] at hrest
      refine ⟨r', ?_, hrest⟩
      have hstring := newString_append h.nonzero 0
      rw [List.replicate_zero, List.append_nil] at hstring
      rw [if_neg (by decide), StreamReader.readNonSeekableStream]
      rw [List.flatten_nil, List.length_nil, List.nil_append] at hloop
      rw [hloop, Except.map]
      simp only [hstring]

end StreamReader

/-! ## Runs -/

/-- What is left of the text behind some calls. -/
def behind (text : List Nat) (history : List (Call × Outcome)) : List Nat :=
  history.foldl (fun text entry => advance text entry.1 entry.2) text

theorem explained_append (text : List Nat) (history : List (Call × Outcome)) (call : Call)
    (outcome : Outcome) : Explained text (history ++ [(call, outcome)]) ↔
      Explained text history ∧ Delivers (behind text history) call outcome := by
  induction history generalizing text with
  | nil => simp [Explained, behind]
  | cons entry history ih =>
      rw [List.cons_append, Explained, Explained, ih, and_assoc]
      rfl

theorem behind_append (text : List Nat) (history : List (Call × Outcome)) (call : Call)
    (outcome : Outcome) : behind text (history ++ [(call, outcome)]) =
      advance (behind text history) call outcome := by
  rw [behind, List.foldl_append]
  rfl

theorem units_split {text : List Char} {n : Nat} (h : ∀ c ∈ text.take n, Basic c) :
    units text = (text.take n).map Char.toNat ++ units (text.drop n) := by
  rw [← units_basic h, units, units, units, ← List.flatMap_append, List.take_append_drop]

theorem units_eq_nil_iff {text : List Char} : units text = [] ↔ text = [] := by
  cases text with
  | nil => simp [units]
  | cons c text =>
      simp only [units, List.flatMap_cons, List.append_eq_nil_iff, reduceCtorEq, iff_false]
      rintro ⟨hc, -⟩
      rw [charUnits] at hc
      split at hc <;> cases hc

/-- A reader that stands in a text gives what it is to give, and moves on. -/
theorem StreamReader.Holds.call {r : StreamReader} {text : List Char} (h : r.Holds text)
    {c : Call} (hadm : r.Admitted c) :
    ∃ outcome r' text', r.call c = .ok (outcome, r') ∧ Delivers (units text) c outcome ∧
      r'.Holds text' ∧ units text' = advance (units text) c outcome := by
  have hadm := hadm text h.flat
  cases c with
  | read =>
      have hbasic : ∀ c ∈ text.take 1, Basic c := hadm
      cases text with
      | nil =>
          obtain ⟨r', hread, hholds, -⟩ := h.read_nil
          exact ⟨.char none, r', [], by rw [StreamReader.call, hread, Except.map], rfl, hholds, rfl⟩
      | cons c text =>
          have hc := hbasic c (by simp)
          obtain ⟨r₁, hread, hreads⟩ := h.read hc
          refine ⟨.char (some c.toNat), _, text, by rw [StreamReader.call, hread, Except.map], ?_,
            hreads.holds.behind hreads.complete, ?_⟩
          · rw [units_cons hc]
            rfl
          · rw [units_cons hc]
            rfl
  | peek =>
      obtain ⟨hbasic, hworks⟩ := hadm
      obtain ⟨r', hpeeks⟩ := h.peek hbasic hworks
      refine ⟨.char (text.head?.map Char.toNat), r', text, ?_, ?_, hpeeks.holds, rfl⟩
      · rw [StreamReader.call, hpeeks.result, Except.map]
      · cases text with
        | nil => rfl
        | cons c text =>
            rw [units_cons (hbasic c (by simp))]
            rfl
  | readBuffer buffer index count =>
      rw [StreamReader.call]
      by_cases hroom : buffer.length < index + count
      · rw [if_pos hroom]
        exact ⟨.threw, r, text, rfl, hroom, h, rfl⟩
      · rw [if_neg hroom]
        obtain ⟨hbasic, hatOnce, hindex⟩ := hadm (Nat.not_lt.mp hroom)
        obtain ⟨returned, r', hread, hholds, -, hreturned⟩ := h.readBuffer
          buffer count hbasic (by omega)
        have hreturned := hreturned hatOnce
        have hunits := units_split hbasic
        have hlength : ((text.take count).map Char.toNat).length = returned := by
          rw [List.length_map, List.length_take, hreturned]
        refine ⟨.chars returned (((overwrite buffer 0 ((text.take count).map Char.toNat)).drop
          index).take returned), r', text.drop count, by rw [hread, Except.map],
          ⟨Nat.not_lt.mp hroom, ?_, ?_, ?_⟩, hholds, ?_⟩
        · rw [hunits, List.length_append, hlength]
          omega
        · rw [hunits, List.take_left' hlength]
          rcases hindex with rfl | hnothing
          · rw [List.drop_zero, overwrite, List.take_zero, List.nil_append, List.take_left' hlength]
          · have hzero : returned = 0 := by
              rcases hnothing with rfl | hnil
              · simpa using hreturned
              · simpa [hnil] using hreturned
            rw [hzero] at hlength ⊢
            rw [List.take_zero, List.length_eq_zero_iff.mp hlength]
        · intro hzero
          rw [units_eq_nil_iff, ← List.length_eq_zero_iff]
          omega
        · show units (text.drop count) = (units text).drop returned
          rw [hunits, List.drop_left' hlength]
  | readLine =>
      obtain ⟨hbasic, hfits, hworks⟩ := hadm
      obtain ⟨text', r', hread, hholds, hafter, -⟩ := h.readLine hbasic hworks hfits
      refine ⟨.line _, r', text', by rw [StreamReader.call, hread, Except.map], ?_, hholds, hafter⟩
      simp only [Delivers, units_eq_nil_iff]
  | readToEnd =>
      obtain ⟨hall, hworks⟩ := hadm
      obtain ⟨r', hread, hholds, -⟩ := h.readToEnd hall hworks
      refine ⟨.text _, r', [], by rw [StreamReader.call, hread, Except.map], ?_, hholds, rfl⟩
      exact (units_basic hall).symm

/-- What holds in every state: no call failed, all that was given is the text, and the reader
stands in what is left of it. -/
structure Faithful (text : List Char) (s : Session) : Prop where
  explained : Explained (units text) s.history
  holds : ∃ rest, s.reader.Holds rest ∧ units rest = behind (units text) s.history

theorem Initial.faithful {text : List Char} {s : Session} (h : Initial text s) :
    Faithful text s := by
  have havailable : s.reader.available = [] := by
    rw [StreamReader.available, h.position.2, List.take_zero, List.drop_nil]
  constructor
  · rw [h.history]
    trivial
  · refine ⟨text, ⟨⟨h.buffer, ?_, ?_⟩, ?_, h.nonzero, ?_⟩, ?_⟩
    · rw [h.position.1]
      exact Nat.zero_le _
    · rw [h.position.2]
      exact Nat.zero_le _
    · rw [StreamReader.flat, havailable, List.nil_append]
      exact h.rest
    · exact fun hseek => (h.total hseek).ge
    · rw [h.history]
      rfl

theorem Faithful.step {text : List Char} {s s' : Session} {c : Call} (h : Faithful text s)
    (hadm : s.Admitted c) (hstep : step s c = some s') : Faithful text s' := by
  obtain ⟨rest, hholds, hrest⟩ := h.holds
  obtain ⟨outcome, r', rest', hcall, hdelivers, hholds', hrest'⟩ := hholds.call hadm
  rw [Text.step] at hstep
  split at hstep
  · cases hstep
  · rw [hcall] at hstep
    obtain rfl := Option.some.inj hstep
    rw [hrest] at hdelivers hrest'
    exact ⟨(explained_append _ _ _ _).mpr ⟨h.explained, hdelivers⟩, rest', hholds',
      by rw [behind_append, hrest']⟩

/-- Every run of calls that meet the condition reads the text as it is. -/
theorem text_delivered (text : List Char) {s : Session}
    (h : Reachable step (Initial text) Session.Admitted s) : Explained (units text) s.history :=
  (h.invariant (Faithful text) (fun _ hinit => hinit.faithful)
    fun _ _ _ hfaithful hadm hstep => hfaithful.step hadm hstep).explained

section Sample

/-- The condition, for a reader that stands somewhere in a text. -/
def Session.AdmittedWithin (text : List Char) (s : Session) (call : Call) : Prop :=
  ∃ i < text.length + 1, s.reader.flat = encode (text.drop i) ∧
    s.reader.AdmittedIn (text.drop i) call

instance (text : List Char) (s : Session) (call : Call) :
    Decidable (s.AdmittedWithin text call) :=
  inferInstanceAs (Decidable (∃ i < text.length + 1, s.reader.flat = encode (text.drop i) ∧
    s.reader.AdmittedIn (text.drop i) call))

theorem Session.AdmittedWithin.admitted {text : List Char} {s : Session} {call : Call}
    (h : s.AdmittedWithin text call) : s.Admitted call := by
  obtain ⟨i, -, hflat, hadm⟩ := h
  intro text' hflat'
  rw [hflat] at hflat'
  rw [← encode_injective hflat']
  exact hadm

def sampleText : List Char := ['é', '\r', '\n', 'a', 'b', 'c', '€', 'd']

/-- A reader on a stream that cannot seek and gives a byte or two at first. -/
def sampleSession (text : List Char) : Session :=
  { reader :=
      { stream := { pieces := { rest := encode text, plan := [(1, 1), (1, 2)] }
                    canSeek := false
                    total := 0 }
        buffer := List.replicate bufferSize 0
        curBufPos := 0
        curBufLen := 0 }
    history := []
    failed := false }

theorem sampleSession_initial (text : List Char) (h : ∀ c ∈ text, c.toNat ≠ 0) :
    Initial text (sampleSession text) := by
  refine ⟨rfl, h, ?_, ?_, ⟨rfl, rfl⟩, rfl, rfl⟩
  · intro hseek
    cases hseek
  · exact List.length_replicate

/-- A run with every call. -/
theorem text_delivered_sample : ∃ s, Reachable step (Initial sampleText) Session.Admitted s ∧
    s.history = [(.peek, .char (some 233)), (.readLine, .line (some [233])),
      (.readBuffer [0, 0] 0 2, .chars 2 [97, 98]), (.read, .char (some 99)),
      (.readToEnd, .text [8364, 100])] ∧ Explained (units sampleText) s.history := by
  have hrun : (run step (sampleSession sampleText) [.peek, .readLine, .readBuffer [0, 0] 0 2, .read,
      .readToEnd]).map (·.history) = some [(.peek, .char (some 233)),
      (.readLine, .line (some [233])), (.readBuffer [0, 0] 0 2, .chars 2 [97, 98]),
      (.read, .char (some 99)), (.readToEnd, .text [8364, 100])] := by
    decide +kernel
  have hadm : AdmittedRun step (Session.AdmittedWithin sampleText) (sampleSession sampleText)
      [.peek, .readLine, .readBuffer [0, 0] 0 2, .read, .readToEnd] := by
    decide +kernel
  obtain ⟨s, hs, hhistory⟩ := Option.map_eq_some_iff.mp hrun
  have hreach := (Reachable.start (sampleSession_initial sampleText (by simp [sampleText]))).run
    (hadm.mono fun _ _ h => h.admitted) hs
  exact ⟨s, hreach, hhistory, text_delivered sampleText hreach⟩

/-- `Peek` goes back to a position in a buffer that was moved meanwhile. -/
theorem not_text_delivered_sample :
    ¬∀ (text : List Char) (s : Session), Reachable step (Initial text) (fun _ _ => True) s →
      Explained (units text) s.history := by
  intro hall
  have hrun : (run step (sampleSession ['a', 'b']) [.read, .peek, .read]).map (·.history) =
      some [(.read, .char (some 97)), (.peek, .char (some 98)), (.read, .char none)] := by
    decide +kernel
  obtain ⟨s, hs, hhistory⟩ := Option.map_eq_some_iff.mp hrun
  have hinit := sampleSession_initial ['a', 'b'] (by simp)
  have hexplained := hall ['a', 'b'] s ((Reachable.start hinit).run_of_some hs)
  rw [hhistory] at hexplained
  cases hexplained.2.2.1

end Sample

end TinyCLR.Text
