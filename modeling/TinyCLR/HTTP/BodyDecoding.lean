import TinyCLR.HTTP.ChunkHeaders
import TinyCLR.Library.TransitionSystem

/-!
# A body is read as it was sent

What the reads give is the data of the body, in order and whole, whatever they ask for and however
it arrives. With chunks that holds of the streams whose headers the parser takes for what they
are, without of reads that do not reach over the end of the body.
-/

namespace TinyCLR.HTTP

open TransitionSystem

/-! ## The property -/

/-- How the end of a body is found. -/
inductive Framing where
  | chunked
  | length (n : Nat)
  | untilClose
  deriving DecidableEq

/-- The stream begins with a body that carries the data, and what is behind the body follows. -/
def Framing.Carries (stream data behind : List UInt8) : Framing → Prop
  | .chunked => Body true stream data behind
  | .length n => data = stream.take n ∧ behind = stream.drop n
  | .untilClose => data = stream ∧ behind = []

namespace InputNetworkStreamWrapper

/-- The bytes that are still to be read. -/
def flat (s : InputNetworkStreamWrapper) : List UInt8 := s.buffered ++ s.stream.rest

end InputNetworkStreamWrapper

namespace Reader

/-- A body that is well formed is delivered in order, no read gives nothing before it is whole, no
read throws, and nothing behind it is taken. Of one that is not, no more is delivered than the
chunks at its front carry, and no read pretends that it ends. -/
structure Faithful (framing : Framing) (stream : List UInt8) (r : Reader) : Prop where
  wellFormed : ∀ data behind, framing.Carries stream data behind → r.failed = false ∧
    r.delivered <+: data ∧ (r.ended = true → r.delivered = data) ∧ behind <:+ r.wrapper.flat
  malformed : (¬ ∃ data behind, framing.Carries stream data behind) →
    r.ended = false ∧ Leads true stream r.delivered

end Reader

/-! ## The condition -/

/-- The streams that are decoded right: a body whose headers the parser reads, or one that it
refuses where it ceases to be well formed. -/
inductive Decodable : Bool → List UInt8 → Prop where
  | last {first : Bool} {header trailer behind : List UInt8} : SimpleHeader header 0 →
      Trailer trailer →
      Decodable first (separator first ++ (header ++ (crlf ++ (trailer ++ (crlf ++ behind)))))
  | chunk {first : Bool} {header data stream : List UInt8} : SimpleHeader header data.length →
      data ≠ [] → Decodable false stream →
      Decodable first (separator first ++ (header ++ (crlf ++ (data ++ stream))))
  | refused {first : Bool} {stream : List UInt8} : ¬ Accepts stream →
      (¬ ∃ data behind, Body first stream data behind) → Decodable first stream

namespace InputNetworkStreamWrapper

variable (s : InputNetworkStreamWrapper) (size : Nat)

/-- A read cannot reach behind the end of the body. -/
def Contained : Prop :=
  s.bytesLeftInResponse = -1 ∨ (size : Int) ≤ s.bytesLeftInResponse ∨
    (s.flat.length : Int) ≤ s.bytesLeftInResponse ∨
      s.bytesLeftInResponse = 0 ∧ s.buffered = []

/-- A read copies what is buffered and then finds that the connection was closed. -/
def Loses : Prop :=
  0 < s.buffered.length ∧ s.buffered.length < size ∧ s.stream.rest = [] ∧
    size - s.buffered.length < readBufferSize ∧
      (s.bytesLeftInResponse = -1 ∨ (s.buffered.length : Int) < s.bytesLeftInResponse)

instance : Decidable (s.Contained size) := inferInstanceAs (Decidable (_ ∨ _ ∨ _ ∨ _ ∧ _))

instance : Decidable (s.Loses size) := inferInstanceAs (Decidable (_ ∧ _ ∧ _ ∧ _ ∧ (_ ∨ _)))

end InputNetworkStreamWrapper

/-- The condition on a read, in the state in which it is made. -/
def Reader.Admitted (r : Reader) : Action → Prop
  | .read size => r.wrapper.enableChunkedDecoding = false →
      r.wrapper.Contained size ∧ ¬ r.wrapper.Loses size

instance (r : Reader) : (a : Action) → Decidable (r.Admitted a)
  | .read _ => inferInstanceAs (Decidable (_ → _ ∧ ¬ _))

/-- A stream of which nothing was read, part of which may be buffered. -/
structure Initial (framing : Framing) (stream : List UInt8) (r : Reader) : Prop where
  flat : r.wrapper.flat = stream
  chunk : r.wrapper.chunk = none
  chunked : r.wrapper.enableChunkedDecoding = decide (framing = .chunked)
  length : ∀ n : Nat, framing = .length n → r.wrapper.bytesLeftInResponse = n
  untilClose : framing = .untilClose → r.wrapper.bytesLeftInResponse = -1
  delivered : r.delivered = []
  ended : r.ended = false
  failed : r.failed = false

/-- The condition on a stream with chunks: it is decodable, and a content length that is set as
well does not cut it off. -/
def Reader.Suits (framing : Framing) (stream : List UInt8) (r : Reader) : Prop :=
  framing = .chunked → Decodable true stream ∧ (r.wrapper.bytesLeftInResponse = -1 ∨
    ∀ data, Leads true stream data → (data.length : Int) ≤ r.wrapper.bytesLeftInResponse)

/-! ## What a read within the body gives -/

namespace InputNetworkStreamWrapper

variable {s s' : InputNetworkStreamWrapper} {size : Nat}

/-- Nothing but the position in the stream changes. -/
structure Moves (s s' : InputNetworkStreamWrapper) : Prop where
  chunked : s'.enableChunkedDecoding = s.enableChunkedDecoding
  chunk : s'.chunk = s.chunk
  bytesLeft : s'.bytesLeftInResponse = s.bytesLeftInResponse

theorem Moves.trans {s'' : InputNetworkStreamWrapper} (h : s.Moves s') (h' : s'.Moves s'') :
    s.Moves s'' :=
  ⟨h'.chunked.trans h.chunked, h'.chunk.trans h.chunk, h'.bytesLeft.trans h.bytesLeft⟩

/-- How many bytes the internal buffer is refilled with at most. -/
theorem refillInternalBuffer_spec (h : s.buffered = []) :
    s.Moves s.refillInternalBuffer.2 ∧ s.refillInternalBuffer.2.flat = s.flat ∧
      s.refillInternalBuffer.1 = s.refillInternalBuffer.2.buffered.length ∧
      (s.refillInternalBuffer.2.buffered = [] ↔ s.stream.rest = []) := by
  refine ⟨⟨rfl, rfl, rfl⟩, ?_, rfl, ?_⟩
  · rw [flat, flat, h]
    exact Pieces.read_append _ _
  · apply Pieces.read_eq_nil_iff
    unfold readBufferSize
    split_ifs <;> omega

theorem readByte_spec (b : UInt8) (rest : List UInt8) (h : s.flat = b :: rest) :
    ∃ s', s.readByte = .ok (b, s') ∧ s'.flat = rest ∧ s.Moves s' := by
  cases hbuffered : s.buffered with
  | cons c buffered =>
      have hcons : c :: (buffered ++ s.stream.rest) = b :: rest := by
        rw [← h, flat, hbuffered]
        rfl
      obtain ⟨rfl, rfl⟩ := List.cons.inj hcons
      refine ⟨{ s with buffered := buffered }, ?_, rfl, ⟨rfl, rfl, rfl⟩⟩
      rw [readByte, hbuffered]
  | nil =>
      obtain ⟨hmoves, hflat, -, hnil⟩ := refillInternalBuffer_spec hbuffered
      cases hrefilled : s.refillInternalBuffer.2.buffered with
      | nil =>
          have hrest := hnil.mp hrefilled
          rw [flat, hbuffered, hrest] at h
          cases h
      | cons c buffered =>
          have hcons : c :: (buffered ++ s.refillInternalBuffer.2.stream.rest) = b :: rest := by
            rw [← h, ← hflat, flat, hrefilled]
            rfl
          obtain ⟨rfl, rfl⟩ := List.cons.inj hcons
          refine ⟨{ s.refillInternalBuffer.2 with buffered := buffered }, ?_, rfl, ?_⟩
          · simp only [readByte, hbuffered, hrefilled]
          · exact ⟨hmoves.chunked, hmoves.chunk, hmoves.bytesLeft⟩

theorem readByte_eof (h : s.flat = []) : s.readByte = .error .connectionAborted := by
  obtain ⟨hbuffered, hrest⟩ := List.append_eq_nil_iff.mp h
  obtain ⟨-, -, -, hnil⟩ := refillInternalBuffer_spec hbuffered
  simp only [readByte, hbuffered, hnil.mpr hrest]

/-- The loop is the parser over the bytes to come. -/
theorem getChunkLoop_spec (fuel : Nat) (p : ChunkParser) (s : InputNetworkStreamWrapper)
    (hfuel : s.flat.length < fuel) :
    match parseChunk p s.flat with
    | .error e => getChunkLoop fuel p s = .error e
    | .ok (size, rest) => ∃ s', getChunkLoop fuel p s = .ok (size, s') ∧ s'.flat = rest ∧
        s.Moves s' := by
  induction fuel generalizing p s with
  | zero => omega
  | succ fuel ih =>
      cases hflat : s.flat with
      | nil =>
          simp only [parseChunk, getChunkLoop, readByte_eof hflat]
          rfl
      | cons b rest =>
          obtain ⟨s', hread, hrest, hmoves⟩ := readByte_spec b rest hflat
          rw [hflat, List.length_cons] at hfuel
          simp only [parseChunk, getChunkLoop, hread, Except.bind]
          cases hnext : p.next b with
          | error e => rfl
          | ok out =>
              obtain ⟨p', parsing⟩ := out
              cases parsing with
              | false => exact ⟨s', rfl, hrest, hmoves⟩
              | true =>
                  have hrec := ih p' s' (by rw [hrest]; omega)
                  rw [hrest] at hrec
                  simp only [if_true]
                  cases hparse : parseChunk p' rest with
                  | error e =>
                      rw [hparse] at hrec
                      exact hrec
                  | ok out =>
                      rw [hparse] at hrec
                      obtain ⟨s'', hloop, hrest', hmoves'⟩ := hrec
                      exact ⟨s'', hloop, hrest', hmoves.trans hmoves'⟩

theorem getChunk_error {e : Error} (h : parseChunk .start s.flat = .error e) :
    s.getChunk = .error e := by
  have := getChunkLoop_spec (s.buffered.length + s.stream.rest.length + 1) .start s
    (by simp [flat])
  rw [h] at this
  exact this

theorem getChunk_ok {rest : List UInt8} (h : parseChunk .start s.flat = .ok (size, rest)) :
    ∃ s', s.getChunk = .ok (size, s') ∧ s'.flat = rest ∧ s.Moves s' := by
  have := getChunkLoop_spec (s.buffered.length + s.stream.rest.length + 1) .start s
    (by simp [flat])
  rw [h] at this
  exact this

/-! ### `ReadInternal` -/

/-- Some bytes are given, all others are still there. -/
structure Gives (s : InputNetworkStreamWrapper) (size : Nat) (bytes : List UInt8)
    (s' : InputNetworkStreamWrapper) : Prop where
  flat : bytes ++ s'.flat = s.flat
  length_le : bytes.length ≤ size
  left_le : 0 ≤ s.bytesLeftInResponse → (bytes.length : Int) ≤ s.bytesLeftInResponse
  bytesLeft : s'.bytesLeftInResponse =
    if s.bytesLeftInResponse = -1 then -1 else s.bytesLeftInResponse - bytes.length
  chunked : s'.enableChunkedDecoding = s.enableChunkedDecoding
  chunk : s'.chunk = s.chunk
  progress : 0 < size → bytes = [] → s.flat = [] ∨ s.bytesLeftInResponse = 0

/-- The bytes left are counted down, where all that was given was left. -/
theorem updateBytesLeft_eq {retVal : Nat} (hleft : -1 ≤ s.bytesLeftInResponse)
    (hle : 0 ≤ s.bytesLeftInResponse → (retVal : Int) ≤ s.bytesLeftInResponse) :
    (s.updateBytesLeft retVal).bytesLeftInResponse =
      if s.bytesLeftInResponse = -1 then -1 else s.bytesLeftInResponse - retVal := by
  unfold updateBytesLeft
  split
  · simp only
    split <;> omega
  · split <;> omega

theorem updateBytesLeft_same (s : InputNetworkStreamWrapper) (retVal : Nat) :
    (s.updateBytesLeft retVal).flat = s.flat ∧
      (s.updateBytesLeft retVal).enableChunkedDecoding = s.enableChunkedDecoding ∧
      (s.updateBytesLeft retVal).chunk = s.chunk := by
  unfold updateBytesLeft
  split <;> exact ⟨rfl, rfl, rfl⟩

theorem gives_updateBytesLeft {bytes : List UInt8} {t : InputNetworkStreamWrapper}
    (hleft : -1 ≤ s.bytesLeftInResponse) (hmoves : s.Moves t) (hflat : bytes ++ t.flat = s.flat)
    (hlength : bytes.length ≤ size)
    (hle : 0 ≤ s.bytesLeftInResponse → (bytes.length : Int) ≤ s.bytesLeftInResponse)
    (hprogress : 0 < size → bytes = [] → s.flat = [] ∨ s.bytesLeftInResponse = 0) :
    s.Gives size bytes (t.updateBytesLeft bytes.length) := by
  obtain ⟨hsame, hchunked, hchunk⟩ := updateBytesLeft_same t bytes.length
  rw [← hmoves.bytesLeft] at hleft hle
  have hcount := updateBytesLeft_eq hleft hle
  rw [hmoves.bytesLeft] at hcount hle
  exact ⟨by rw [hsame, hflat], hlength, hle, hcount, hchunked.trans hmoves.chunked,
    hchunk.trans hmoves.chunk, hprogress⟩

/-- What a copy from the internal buffer does. -/
structure Copies (s : InputNetworkStreamWrapper) (size : Nat) (copied : List UInt8)
    (t : InputNetworkStreamWrapper) : Prop where
  moves : s.Moves t
  flat : copied ++ t.flat = s.flat
  length : copied.length = min size s.buffered.length
  stream : t.stream = s.stream
  all : copied.length < size → t.buffered = []

theorem copyBuffered_spec (s : InputNetworkStreamWrapper) (size : Nat) :
    s.Copies size (s.copyBuffered size).1 (s.copyBuffered size).2 := by
  refine ⟨⟨rfl, rfl, rfl⟩, ?_, List.length_take, rfl, ?_⟩
  · simp only [copyBuffered, flat]
    rw [← List.append_assoc, List.take_append_drop]
  · simp only [copyBuffered, List.length_take]
    intro h
    exact List.drop_of_length_le (by omega)

/-- What is given of a read that is contained is left in the response. -/
theorem Contained.length_le (h : s.Contained size) {bytes rest : List UInt8}
    (hflat : bytes ++ rest = s.flat) (hlength : bytes.length ≤ size)
    (hzero : s.bytesLeftInResponse = 0 → s.buffered = [] → bytes = [])
    (hleft : 0 ≤ s.bytesLeftInResponse) : (bytes.length : Int) ≤ s.bytesLeftInResponse := by
  have htotal : bytes.length ≤ s.flat.length := by
    rw [← hflat, List.length_append]
    exact Nat.le_add_right _ _
  rcases h with h | h | h | ⟨h, hbuffered⟩
  · omega
  · omega
  · omega
  · rw [hzero h hbuffered, h]
    exact le_rfl

section Exits

variable {copied : List UInt8} {t : InputNetworkStreamWrapper}
  (hleft : -1 ≤ s.bytesLeftInResponse) (hcontained : s.Contained size)
  (hcopies : s.Copies size copied t)
include hleft hcontained hcopies

/-- What was buffered is enough, or all that is left. -/
theorem gives_copied (henough : ¬ (0 < size - copied.length ∧
      (s.bytesLeftInResponse = -1 ∨ (copied.length : Int) < s.bytesLeftInResponse))) :
    s.Gives size copied (t.updateBytesLeft copied.length) := by
  have hlength := hcopies.length
  have hle : copied.length ≤ size := by omega
  apply gives_updateBytesLeft hleft hcopies.moves hcopies.flat hle
  · apply hcontained.length_le hcopies.flat hle
    intro _ hbuffered
    rw [hbuffered, List.length_nil, Nat.min_zero] at hlength
    exact List.length_eq_zero_iff.mp hlength
  · intro hsize hnone
    subst hnone
    right
    simp only [List.length_nil] at henough hlength
    omega

variable (hmore : 0 < size - copied.length ∧
  (s.bytesLeftInResponse = -1 ∨ (copied.length : Int) < s.bytesLeftInResponse))
include hmore

/-- More is read, into the internal buffer or not. -/
theorem gives_more {more : List UInt8} {u : InputNetworkStreamWrapper} (hmoves : t.Moves u)
    (hflat : more ++ u.flat = t.flat) (hlength : more.length ≤ size - copied.length)
    (hprogress : more = [] → t.flat = []) :
    s.Gives size (copied ++ more) (u.updateBytesLeft (copied ++ more).length) := by
  have htotal : (copied ++ more) ++ u.flat = s.flat := by
    rw [List.append_assoc, hflat, hcopies.flat]
  have hle : (copied ++ more).length ≤ size := by
    rw [List.length_append]
    omega
  apply gives_updateBytesLeft hleft (hcopies.moves.trans hmoves) htotal hle
  · apply hcontained.length_le htotal hle
    intro hzero
    omega
  · intro _ hnone
    obtain ⟨rfl, rfl⟩ := List.append_eq_nil_iff.mp hnone
    left
    rw [← hcopies.flat, hprogress rfl]
    rfl

omit hleft hcontained in
/-- The connection was closed, and nothing was copied, for else it would be lost. -/
theorem gives_nothing (hloses : ¬ s.Loses size) {t' : InputNetworkStreamWrapper}
    (hmoves : t.Moves t') (hflat : t'.flat = t.flat) (hrest : t.stream.rest = [])
    (hsmall : size - copied.length < readBufferSize) : s.Gives size [] t' := by
  have hlength := hcopies.length
  rw [hcopies.stream] at hrest
  have hcopied : copied = [] := by
    rw [← List.length_eq_zero_iff]
    by_contra hne
    have hall : copied.length = s.buffered.length := by omega
    rw [hall] at hmore hne hsmall
    exact hloses ⟨by omega, by omega, hrest, hsmall, hmore.2⟩
  have hempty : s.flat = [] := by
    rw [← hcopies.flat, hcopied, List.nil_append, flat, hcopies.stream, hrest,
      hcopies.all (by omega)]
    rfl
  refine ⟨?_, Nat.zero_le _, fun h => h, ?_, ?_, ?_, fun _ _ => .inl hempty⟩
  · rw [hflat, ← hcopies.flat, hcopied]
  · rw [hmoves.bytesLeft, hcopies.moves.bytesLeft]
    split
    · assumption
    · simp
  · exact hmoves.chunked.trans hcopies.moves.chunked
  · exact hmoves.chunk.trans hcopies.moves.chunk

end Exits

theorem readInternal_spec (s : InputNetworkStreamWrapper) (size : Nat)
    (hleft : -1 ≤ s.bytesLeftInResponse) (hcontained : s.Contained size)
    (hloses : ¬ s.Loses size) :
    s.Gives size (s.readInternal size).1 (s.readInternal size).2 := by
  have hcopies := copyBuffered_spec s size
  rw [readInternal]
  generalize s.copyBuffered size = out at *
  obtain ⟨copied, t⟩ := out
  simp only at hcopies
  simp only [hcopies.moves.bytesLeft]
  split
  case isFalse henough => exact gives_copied hleft hcontained hcopies henough
  case isTrue hmore =>
    have hbuffered : t.buffered = [] := hcopies.all (by omega)
    split
    case isTrue hsmall =>
      obtain ⟨hmoves, hflat, hcount, hnil⟩ := refillInternalBuffer_spec hbuffered
      generalize t.refillInternalBuffer = refilled at *
      obtain ⟨n, t'⟩ := refilled
      simp only at *
      split
      case isTrue hzero =>
        have hrest := hnil.mp (List.length_eq_zero_iff.mp (hcount.symm.trans hzero))
        exact gives_nothing hcopies hmore hloses hmoves hflat hrest hsmall
      case isFalse hsome =>
        have hcopies' := copyBuffered_spec t' (size - copied.length)
        generalize t'.copyBuffered (size - copied.length) = out at *
        obtain ⟨more, t''⟩ := out
        simp only at *
        have hlength := hcopies'.length
        rw [← List.length_append]
        apply gives_more hleft hcontained hcopies hmore (hmoves.trans hcopies'.moves)
          (hcopies'.flat.trans hflat) (by omega)
        intro hnone
        rw [hnone, List.length_nil] at hlength
        omega
    case isFalse =>
      have hread := t.stream.read_append (size - copied.length)
      have hlength := t.stream.length_read_le (size - copied.length)
      have hnil := t.stream.read_eq_nil_iff (size - copied.length) hmore.1
      generalize t.stream.read (size - copied.length) = out at *
      obtain ⟨more, stream⟩ := out
      simp only at *
      rw [← List.length_append]
      apply gives_more hleft hcontained hcopies hmore
        (u := { t with stream := stream, bytesLeftInResponse := s.bytesLeftInResponse })
        ⟨rfl, rfl, hcopies.moves.bytesLeft.symm⟩ _ hlength
      · intro hnone
        rw [flat, hbuffered, hnil.mp hnone]
        rfl
      · rw [flat, flat, hbuffered]
        exact hread

end InputNetworkStreamWrapper

/-! ## Without chunks -/

/-- The number of bytes that the response is known to have. -/
def Framing.initialLeft : Framing → Int
  | .length n => n
  | _ => -1

/-- What was delivered and what is still there make up the stream. -/
structure PlainInv (framing : Framing) (stream : List UInt8) (r : Reader) : Prop where
  chunked : r.wrapper.enableChunkedDecoding = false
  failed : r.failed = false
  flat : r.delivered ++ r.wrapper.flat = stream
  left : r.wrapper.bytesLeftInResponse =
    if framing.initialLeft = -1 then -1 else framing.initialLeft - r.delivered.length
  le : framing.initialLeft ≠ -1 → (r.delivered.length : Int) ≤ framing.initialLeft
  ended : r.ended = true → r.wrapper.flat = [] ∨ r.wrapper.bytesLeftInResponse = 0

theorem Framing.initialLeft_ge (framing : Framing) : -1 ≤ framing.initialLeft := by
  cases framing <;> simp [initialLeft]

section Plain

variable {framing : Framing} {stream : List UInt8} {r r' : Reader}

theorem PlainInv.of_initial (h : Initial framing stream r) (hframing : framing ≠ .chunked) :
    PlainInv framing stream r where
  chunked := by rw [h.chunked, decide_eq_false hframing]
  failed := h.failed
  flat := by rw [h.delivered, h.flat, List.nil_append]
  left := by
    rw [h.delivered]
    cases framing with
    | chunked => exact absurd rfl hframing
    | length n =>
        rw [h.length n rfl, Framing.initialLeft, List.length_nil]
        split <;> simp_all
    | untilClose => exact h.untilClose rfl
  le hleft := by
    have := framing.initialLeft_ge
    rw [h.delivered, List.length_nil]
    omega
  ended hended := by
    rw [h.ended] at hended
    cases hended

theorem PlainInv.step (h : PlainInv framing stream r) {size : Nat}
    (hadm : r.Admitted (.read size)) (hstep : step r (.read size) = some r') :
    PlainInv framing stream r' := by
  obtain ⟨hcontained, hloses⟩ := hadm h.chunked
  have hinitial := framing.initialLeft_ge
  have hleft : -1 ≤ r.wrapper.bytesLeftInResponse := by
    have := h.le
    rw [h.left]
    split <;> omega
  have hgives := r.wrapper.readInternal_spec size hleft hcontained hloses
  simp only [HTTP.step, h.failed, InputNetworkStreamWrapper.read, h.chunked, Bool.not_false,
    Bool.false_eq_true, if_true, if_false, Option.some.injEq] at hstep
  subst hstep
  generalize r.wrapper.readInternal size = out at *
  obtain ⟨bytes, wrapper⟩ := out
  simp only at hgives
  have hle := h.le
  have hcount := h.left
  have hgiven := hgives.left_le
  constructor
  · exact hgives.chunked.trans h.chunked
  · rfl
  · rw [List.append_assoc, hgives.flat, h.flat]
  · rw [hgives.bytesLeft, List.length_append]
    push_cast
    split_ifs at * <;> omega
  · intro hknown
    rw [List.length_append]
    push_cast
    rw [if_neg hknown] at hcount
    have := hle hknown
    omega
  · intro hended
    have hover : r.wrapper.flat = [] ∨ r.wrapper.bytesLeftInResponse = 0 := by
      rcases (Bool.or_eq_true _ _).mp hended with hended | hnothing
      · exact h.ended hended
      · simp only [Bool.and_eq_true, decide_eq_true_eq, List.isEmpty_iff] at hnothing
        exact hgives.progress hnothing.1 hnothing.2
    have hflat := hgives.flat
    rcases hover with hempty | hzero
    · rw [hempty] at hflat
      exact .inl (List.append_eq_nil_iff.mp hflat).2
    · have := hgiven (by omega)
      right
      rw [hgives.bytesLeft, hzero]
      omega

theorem PlainInv.faithful (h : PlainInv framing stream r) (hframing : framing ≠ .chunked) :
    r.Faithful framing stream where
  wellFormed data behind hcarries := by
    have hle := h.le
    have hflat := h.flat
    have hleft := h.left
    cases framing with
    | chunked => exact absurd rfl hframing
    | length n =>
        obtain ⟨rfl, rfl⟩ := hcarries
        have hle : r.delivered.length ≤ n := by
          simpa [Framing.initialLeft] using hle (by simp [Framing.initialLeft])
        have htake : r.delivered ++ r.wrapper.flat.take (n - r.delivered.length) =
            stream.take n := by
          rw [← hflat, List.take_append, List.take_of_length_le hle]
        refine ⟨h.failed, ⟨_, htake⟩, ?_, ?_⟩
        · intro hended
          rw [← htake]
          rcases h.ended hended with hempty | hzero
          · rw [hempty, List.take_nil, List.append_nil]
          · simp only [Framing.initialLeft] at hleft
            have : n - r.delivered.length = 0 := by
              split_ifs at hleft <;> omega
            rw [this, List.take_zero, List.append_nil]
        · rw [← hflat, List.drop_append, List.drop_of_length_le hle, List.nil_append]
          exact List.drop_suffix _ _
    | untilClose =>
        obtain ⟨rfl, rfl⟩ := hcarries
        refine ⟨h.failed, ⟨_, hflat⟩, ?_, List.nil_suffix⟩
        intro hended
        rcases h.ended hended with hempty | hzero
        · rw [← hflat, hempty, List.append_nil]
        · have hknown : Framing.untilClose.initialLeft = -1 := rfl
          rw [hleft, if_pos hknown] at hzero
          cases hzero
  malformed hnone := by
    cases framing with
    | chunked => exact absurd rfl hframing
    | length n => exact absurd ⟨_, _, rfl, rfl⟩ hnone
    | untilClose => exact absurd ⟨_, _, rfl, rfl⟩ hnone

end Plain

/-! ## With chunks -/

section Chunked

variable {stream done header data rest u : List UInt8} {first : Bool} {size : Nat}

theorem Body.suffix {behind : List UInt8} (h : Body first stream data behind) :
    behind <:+ stream := by
  induction h with
  | last =>
      exact ((((List.suffix_append _ _).trans (List.suffix_append _ _)).trans
        (List.suffix_append _ _)).trans (List.suffix_append _ _)).trans (List.suffix_append _ _)
  | chunk _ _ _ ih =>
      exact (((ih.trans (List.suffix_append _ _)).trans (List.suffix_append _ _)).trans
        (List.suffix_append _ _)).trans (List.suffix_append _ _)

/-- Of the stream some chunks were read, with this data, and the rest is to come. -/
structure Prior (stream done : List UInt8) (first : Bool) (rest : List UInt8) : Prop where
  body : ∀ data behind, Body true stream data behind →
    ∃ data', data = done ++ data' ∧ Body first rest data' behind
  rebuild : ∀ data' behind, Body first rest data' behind → ∃ data, Body true stream data behind
  leads : ∀ data', Leads first rest data' → Leads true stream (done ++ data')

theorem Prior.start : Prior stream [] true stream where
  body data _ h := ⟨data, rfl, h⟩
  rebuild data' _ h := ⟨data', h⟩
  leads _ h := h

theorem Prior.chunk
    (h : Prior stream done first (separator first ++ (header ++ (crlf ++ (data ++ rest)))))
    (hheader : ChunkHeader header data.length) (hdata : data ≠ []) :
    Prior stream (done ++ data) false rest where
  body data' behind hbody := by
    obtain ⟨data'', rfl, hrest⟩ := h.body data' behind hbody
    obtain ⟨data', rfl, hbody'⟩ := hrest.of_chunk hheader hdata
    exact ⟨data', (List.append_assoc _ _ _).symm, hbody'⟩
  rebuild data' behind hbody := h.rebuild _ _ (.chunk hheader hdata hbody)
  leads data' hleads := by
    rw [List.append_assoc]
    exact h.leads _ (.chunk hheader hleads)

/-- Where the reads are in a stream with chunks. -/
inductive Phase (stream : List UInt8) (r : Reader) : Prop where
  | header (first : Bool) : r.failed = false → r.ended = false → r.wrapper.chunk = none →
      Prior stream r.delivered first r.wrapper.flat → Decodable first r.wrapper.flat →
      Phase stream r
  | data (first : Bool) (done header taken left rest : List UInt8) : r.failed = false →
      r.ended = false → r.wrapper.chunk = some ⟨(taken ++ left).length, taken.length⟩ →
      left ≠ [] → r.wrapper.flat = left ++ rest → r.delivered = done ++ taken →
      SimpleHeader header (taken ++ left).length →
      Prior stream done first (separator first ++ (header ++ (crlf ++ ((taken ++ left) ++ rest)))) →
      Decodable false rest → Phase stream r
  | finished (first : Bool) (header : List UInt8) (behind : List UInt8) : r.failed = false →
      r.wrapper.chunk = some ⟨0, 0⟩ → SimpleHeader header 0 →
      Prior stream r.delivered first (separator first ++ (header ++ (crlf ++ r.wrapper.flat))) →
      Body first (separator first ++ (header ++ (crlf ++ r.wrapper.flat))) [] behind →
      Phase stream r
  | refused : r.failed = true → r.ended = false → (¬ ∃ data behind, Body true stream data behind) →
      Leads true stream r.delivered → Phase stream r

/-- The response has room for all that the chunks carry. -/
def Reader.Room (r : Reader) (stream : List UInt8) : Prop :=
  r.wrapper.bytesLeftInResponse = -1 ∨ ∀ data, Leads true stream data →
    (data.length : Int) ≤ r.delivered.length + r.wrapper.bytesLeftInResponse

structure ChunkedInv (stream : List UInt8) (r : Reader) : Prop where
  chunked : r.wrapper.enableChunkedDecoding = true
  phase : Phase stream r
  room : r.Room stream

variable {r r' : Reader}

theorem ChunkedInv.of_initial (h : Initial .chunked stream r) (hsuits : r.Suits .chunked stream) :
    ChunkedInv stream r where
  chunked := h.chunked
  phase := by
    apply Phase.header true h.failed h.ended h.chunk
    · rw [h.delivered, h.flat]
      exact Prior.start
    · rw [h.flat]
      exact (hsuits rfl).1
  room := by
    rcases (hsuits rfl).2 with hnone | hroom
    · exact .inl hnone
    · refine .inr fun data hdata => ?_
      have := hroom data hdata
      rw [h.delivered, List.length_nil]
      omega

theorem Phase.faithful (h : Phase stream r) : r.Faithful .chunked stream := by
  cases h with
  | header first hfailed hended hchunk hprior hdecodable =>
      constructor
      · intro data behind hbody
        obtain ⟨data', rfl, hrest⟩ := hprior.body data behind hbody
        refine ⟨hfailed, List.prefix_append _ _, ?_, hrest.suffix⟩
        rw [hended]
        exact fun h => by cases h
      · intro _
        exact ⟨hended, by simpa using hprior.leads [] .nil⟩
  | data first done header taken left rest hfailed hended hchunk hleft hflat hdelivered hheader
      hprior hdecodable =>
      constructor
      · intro data behind hbody
        obtain ⟨data', rfl, hrest⟩ := hprior.body data behind hbody
        obtain ⟨data'', rfl, hbody'⟩ := hrest.of_chunk hheader.chunkHeader
          (fun h => hleft (List.append_eq_nil_iff.mp h).2)
        refine ⟨hfailed, ?_, ?_, ?_⟩
        · rw [hdelivered]
          exact ⟨left ++ data'', by simp⟩
        · rw [hended]
          exact fun h => by cases h
        · rw [hflat]
          exact hbody'.suffix.trans (List.suffix_append _ _)
      · intro _
        refine ⟨hended, ?_⟩
        rw [hdelivered]
        apply hprior.leads
        rw [List.append_assoc taken]
        exact .part hheader.chunkHeader (by simp)
  | finished first header behind hfailed hchunk hheader hprior hbody =>
      constructor
      · intro data behind' hbody'
        obtain ⟨data', rfl, hrest⟩ := hprior.body data behind' hbody'
        obtain ⟨rfl, hsuffix⟩ := hrest.of_last hheader.chunkHeader
        rw [List.append_nil]
        exact ⟨hfailed, List.prefix_refl _, fun _ => rfl, hsuffix⟩
      · intro hnone
        obtain ⟨data, hwhole⟩ := hprior.rebuild [] behind hbody
        exact absurd ⟨data, behind, hwhole⟩ hnone
  | refused hfailed hended hnone hleads =>
      constructor
      · intro data behind hbody
        exact absurd ⟨data, behind, hbody⟩ hnone
      · intro _
        exact ⟨hended, hleads⟩

theorem ChunkedInv.readChunk {r : Reader} {done header rest : List UInt8} {first : Bool}
    (taken left : List UInt8) (size : Nat)
    (hchunked : r.wrapper.enableChunkedDecoding = true) (hroom : r.Room stream) (hleft : left ≠ [])
    (hflat : r.wrapper.flat = left ++ rest) (hdelivered : r.delivered = done ++ taken)
    (hheader : SimpleHeader header (taken ++ left).length)
    (hprior : Prior stream done first
      (separator first ++ (header ++ (crlf ++ ((taken ++ left) ++ rest)))))
    (hdecodable : Decodable false rest) :
    let out := r.wrapper.readChunk ⟨(taken ++ left).length, taken.length⟩ size
    ChunkedInv stream
      ⟨out.2, r.delivered ++ out.1, decide (0 < size) && out.1.isEmpty, false⟩ := by
  have hpositive := List.length_pos_iff.mpr hleft
  obtain ⟨k, hk'⟩ : ∃ k, k = min size ((taken ++ left).length - taken.length) := ⟨_, rfl⟩
  have hk : k = min size left.length := by simpa using hk'
  -- what is asked for is left in the response
  have hleads : Leads true stream (done ++ (taken ++ left.take k)) := by
    apply hprior.leads
    have hpart : Leads first (separator first ++ (header ++ (crlf ++ ((taken ++ left.take k) ++
        (left.drop k ++ rest))))) (taken ++ left.take k) :=
      .part hheader.chunkHeader (by simp)
    have hrest : (taken ++ left.take k) ++ (left.drop k ++ rest) = (taken ++ left) ++ rest := by
      rw [List.append_assoc, ← List.append_assoc (left.take k), List.take_append_drop,
        List.append_assoc]
    rwa [hrest] at hpart
  have hbytes : r.wrapper.bytesLeftInResponse = -1 ∨ (k : Int) ≤ r.wrapper.bytesLeftInResponse := by
    rcases hroom with hnone | hroom
    · exact .inl hnone
    · have := hroom _ hleads
      rw [hdelivered] at this
      simp only [List.length_append, List.length_take] at this
      right
      omega
  have hloses : ¬ r.wrapper.Loses k := by
    rintro ⟨-, hshort, hrest, -, -⟩
    have hlength := congrArg List.length hflat
    rw [InputNetworkStreamWrapper.flat, hrest] at hlength
    simp only [List.length_append, List.length_nil] at hlength
    omega
  have hgives := r.wrapper.readInternal_spec k (by omega)
    (hbytes.imp_right Or.inl) hloses
  have hread : r.wrapper.readChunk ⟨(taken ++ left).length, taken.length⟩ size =
      let out := r.wrapper.readInternal k
      (out.1, { out.2 with chunk := if taken.length + out.1.length = (taken ++ left).length
        then none else some ⟨(taken ++ left).length, taken.length + out.1.length⟩ }) := by
    have hsize : (taken ++ left).length ≠ 0 := by
      rw [List.length_append]
      omega
    rw [InputNetworkStreamWrapper.readChunk, if_neg hsize, hk']
  simp only [hread]
  generalize r.wrapper.readInternal k = out at *
  obtain ⟨bytes, s⟩ := out
  simp only at hgives
  have hprefix : bytes <+: left := by
    have hwhole : bytes <+: left ++ rest := ⟨s.flat, hgives.flat.trans hflat⟩
    have := hgives.length_le
    exact List.prefix_of_prefix_length_le hwhole (List.prefix_append _ _) (by omega)
  obtain ⟨left', rfl⟩ := hprefix
  have hflat' : s.flat = left' ++ rest := by
    have := hgives.flat.trans hflat
    rw [List.append_assoc] at this
    exact List.append_cancel_left this
  have hroom' : Reader.Room ⟨s, r.delivered ++ bytes, false, false⟩ stream := by
    rcases hroom with hnone | hroom
    · left
      rw [hgives.bytesLeft, if_pos hnone]
    · by_cases hnone : r.wrapper.bytesLeftInResponse = -1
      · left
        rw [hgives.bytesLeft, if_pos hnone]
      · refine .inr fun data hdata => ?_
        have := hroom data hdata
        rw [hgives.bytesLeft, if_neg hnone, List.length_append]
        push_cast
        omega
  have hprogress : (decide (0 < size) && bytes.isEmpty) = false := by
    rw [Bool.and_eq_false_iff, decide_eq_false_iff_not]
    by_contra hnothing
    simp only [not_or, not_not, Bool.not_eq_false, List.isEmpty_iff] at hnothing
    rcases hgives.progress (by omega) hnothing.2 with hempty | hzero
    · rw [hempty] at hflat
      exact hleft (List.append_eq_nil_iff.mp hflat.symm).1
    · omega
  refine ⟨hgives.chunked.trans hchunked, ?_, hroom'⟩
  by_cases hcomplete : left' = []
  · subst hcomplete
    have hdone : r.delivered ++ bytes = done ++ (taken ++ bytes) := by
      rw [hdelivered, List.append_assoc]
    rw [List.append_nil] at *
    rw [List.nil_append] at hflat'
    apply Phase.header false rfl hprogress
    · simp
    · change Prior stream (r.delivered ++ bytes) false s.flat
      rw [hdone, hflat']
      exact hprior.chunk hheader.chunkHeader (by simp [hleft])
    · change Decodable false s.flat
      rwa [hflat']
  · apply Phase.data first done header (taken ++ bytes) left' rest rfl hprogress _ hcomplete hflat'
    · rw [hdelivered, List.append_assoc]
    · rwa [List.append_assoc]
    · rwa [List.append_assoc taken]
    · exact hdecodable
    · have hne : taken.length + bytes.length ≠ (taken ++ (bytes ++ left')).length := by
        have := List.length_pos_iff.mpr hcomplete
        simp only [List.length_append]
        omega
      apply (if_neg hne).trans
      simp only [List.length_append, Nat.add_assoc]

/-- The step of a read that does not throw. -/
theorem step_of_read {bytes : List UInt8} {s : InputNetworkStreamWrapper}
    (hfailed : r.failed = false) (hread : r.wrapper.read size = .ok (bytes, s)) (hstep : step r (.read size) = some r') :
    r' = ⟨s, r.delivered ++ bytes, r.ended || (decide (0 < size) && bytes.isEmpty), false⟩ := by
  simp only [step, hfailed, hread, Bool.false_eq_true, if_false, Option.some.injEq] at hstep
  exact hstep.symm

theorem read_of_chunk {chunk : Chunk} (hchunked : r.wrapper.enableChunkedDecoding = true)
    (hchunk : r.wrapper.chunk = some chunk) :
    r.wrapper.read size = .ok (r.wrapper.readChunk chunk size) := by
  simp only [InputNetworkStreamWrapper.read, hchunked, hchunk, Bool.not_true, Bool.false_eq_true,
    if_false]

theorem read_of_header {s : InputNetworkStreamWrapper} {n : Nat} (size : Nat)
    (hchunked : r.wrapper.enableChunkedDecoding = true) (hchunk : r.wrapper.chunk = none)
    (hget : r.wrapper.getChunk = .ok (n, s)) :
    r.wrapper.read size = .ok (s.readChunk ⟨n, 0⟩ size) := by
  simp only [InputNetworkStreamWrapper.read, hchunked, hchunk, hget, Bool.not_true,
    Bool.false_eq_true, if_false]
  rfl

theorem ChunkedInv.step_header (h : ChunkedInv stream r) (hfailed : r.failed = false)
    (hended : r.ended = false) (hchunk : r.wrapper.chunk = none)
    (hprior : Prior stream r.delivered first r.wrapper.flat)
    (hdecodable : Decodable first r.wrapper.flat) (hstep : step r (.read size) = some r') :
    ChunkedInv stream r' := by
  generalize hu : r.wrapper.flat = u at hdecodable hprior
  cases hdecodable with
  | @last _ header trailer behind hheader htrailer =>
      have hparse := parseChunk_header hheader first (trailer ++ (crlf ++ behind))
      rw [← hu] at hparse
      obtain ⟨s, hget, hflat, hmoves⟩ := InputNetworkStreamWrapper.getChunk_ok hparse
      have hread : r.wrapper.read size = .ok ([], { s with chunk := some ⟨0, 0⟩ }) :=
        read_of_header size h.chunked hchunk hget
      obtain rfl := step_of_read hfailed hread hstep
      rw [List.append_nil]
      refine ⟨hmoves.chunked.trans h.chunked, ?_, ?_⟩
      · apply Phase.finished first header behind rfl rfl hheader
        · change Prior stream r.delivered first (separator first ++ (header ++ (crlf ++ s.flat)))
          rwa [hflat]
        · change Body first (separator first ++ (header ++ (crlf ++ s.flat))) [] behind
          rw [hflat]
          exact .last hheader.chunkHeader htrailer
      · have := h.room
        rwa [Reader.Room, ← hmoves.bytesLeft] at this
  | @chunk _ header data rest hheader hdata hrest =>
      have hparse := parseChunk_header hheader first (data ++ rest)
      rw [← hu] at hparse
      obtain ⟨s, hget, hflat, hmoves⟩ := InputNetworkStreamWrapper.getChunk_ok hparse
      have hread := read_of_header size h.chunked hchunk hget
      obtain rfl := step_of_read hfailed hread hstep
      have hroom : Reader.Room ⟨s, r.delivered, false, false⟩ stream := by
        have := h.room
        rwa [Reader.Room, ← hmoves.bytesLeft] at this
      have hinv := ChunkedInv.readChunk (r := ⟨s, r.delivered, false, false⟩) [] data size (hmoves.chunked.trans h.chunked) hroom hdata hflat
        (List.append_nil _).symm hheader hprior hrest
      rw [hended]
      exact hinv
  | refused haccepts hnone =>
      have hthrows : ∃ e, r.wrapper.read size = .error e := by
        cases hparse : parseChunk .start u with
        | ok out => exact absurd (accepts_of_parseChunk hparse) haccepts
        | error e =>
            rw [← hu] at hparse
            refine ⟨e, ?_⟩
            simp only [InputNetworkStreamWrapper.read, h.chunked, hchunk,
              InputNetworkStreamWrapper.getChunk_error hparse, Bool.not_true, Bool.false_eq_true,
              if_false]
            rfl
      obtain ⟨e, hread⟩ := hthrows
      simp only [step, hfailed, hread, Bool.false_eq_true, if_false, Option.some.injEq] at hstep
      subst hstep
      refine ⟨h.chunked, ?_, h.room⟩
      apply Phase.refused (r := { r with failed := true }) rfl hended
      · rintro ⟨data, behind, hbody⟩
        obtain ⟨data', -, hrest⟩ := hprior.body data behind hbody
        exact hnone ⟨data', behind, hrest⟩
      · simpa using hprior.leads [] .nil

theorem ChunkedInv.step (h : ChunkedInv stream r) (hstep : step r (.read size) = some r') :
    ChunkedInv stream r' := by
  cases h.phase with
  | header first hfailed hended hchunk hprior hdecodable =>
      exact h.step_header hfailed hended hchunk hprior hdecodable hstep
  | data first done header taken left rest hfailed hended hchunk hleft hflat hdelivered hheader
      hprior hdecodable =>
      obtain rfl := step_of_read hfailed (read_of_chunk h.chunked hchunk) hstep
      rw [hended]
      exact ChunkedInv.readChunk taken left size h.chunked h.room hleft hflat hdelivered hheader hprior
        hdecodable
  | finished first header behind hfailed hchunk hheader hprior hbody =>
      have hread : r.wrapper.read size = .ok ([], { r.wrapper with chunk := some ⟨0, 0⟩ }) :=
        read_of_chunk h.chunked hchunk
      obtain rfl := step_of_read hfailed hread hstep
      rw [List.append_nil]
      exact ⟨h.chunked, .finished first header behind rfl rfl hheader hprior hbody, h.room⟩
  | refused hfailed _ _ _ =>
      rw [HTTP.step, if_pos hfailed] at hstep
      cases hstep

end Chunked

/-! ## The result -/

/-- Whatever the reads ask for and however the stream arrives, they give the data of the body. -/
theorem body_decoded (framing : Framing) (stream : List UInt8) {r : Reader}
    (h : Reachable step (fun r => Initial framing stream r ∧ r.Suits framing stream)
      Reader.Admitted r) : r.Faithful framing stream := by
  by_cases hframing : framing = .chunked
  · subst hframing
    have hinv : ChunkedInv stream r := h.invariant (ChunkedInv stream)
      (fun _ hinit => .of_initial hinit.1 hinit.2) fun _ a _ hinv _ hstep => by
        cases a with
        | read size => exact hinv.step hstep
    exact hinv.phase.faithful
  · have hinv : PlainInv framing stream r := h.invariant (PlainInv framing stream)
      (fun _ hinit => .of_initial hinit.1 hframing) fun _ a _ hinv hadm hstep => by
        cases a with
        | read size => exact hinv.step hadm hstep
    exact hinv.faithful hframing

/-! ## Two short streams -/

/-- One chunk of two bytes and the last chunk, which arrive in pieces. -/
def smallChunked : Reader where
  wrapper :=
    { stream := ⟨[50, 13, 10, 7, 8, 13, 10, 48, 13, 10, 13, 10], [(0, 1), (3, 2)]⟩
      buffered := []
      enableChunkedDecoding := true
      chunk := none
      bytesLeftInResponse := -1 }
  delivered := []
  ended := false
  failed := false

theorem smallChunked_initial : Initial .chunked smallChunked.wrapper.flat smallChunked where
  flat := rfl
  chunk := rfl
  chunked := rfl
  length _ h := by cases h
  untilClose h := by cases h
  delivered := rfl
  ended := rfl
  failed := rfl

theorem smallChunked_suits : smallChunked.Suits .chunked smallChunked.wrapper.flat := by
  intro _
  refine ⟨?_, .inl rfl⟩
  have hdigit (b : UInt8) (h : isHexDigit b = true) : SimpleHeader [b] (digitValue b) := by
    have := SimpleHeader.plain (List.cons_ne_nil b []) (by simp) (by simpa using h)
    simpa [hexValue] using this
  have hlast : Decodable false (separator false ++ ([48] ++ (crlf ++ ([] ++ (crlf ++ []))))) :=
    .last (hdigit 48 (by decide)) ⟨[], by simp, rfl⟩
  have hchunk : Decodable true (separator true ++ ([50] ++ (crlf ++ ([7, 8] ++
      (separator false ++ ([48] ++ (crlf ++ ([] ++ (crlf ++ []))))))))) :=
    .chunk (hdigit 50 (by decide)) (List.cons_ne_nil 7 [8]) hlast
  exact hchunk

theorem body_decoded_sample :
    ∃ r ∈ run step smallChunked [.read 1, .read 9, .read 9],
      r.delivered = [7, 8] ∧ r.ended = true ∧ r.Faithful .chunked smallChunked.wrapper.flat := by
  have hend : (run step smallChunked [.read 1, .read 9, .read 9]).map
      (fun r => (r.delivered, r.ended)) = some ([7, 8], true) := by decide
  obtain ⟨r, hr, hend⟩ := Option.map_eq_some_iff.mp hend
  obtain ⟨hdelivered, hended⟩ := Prod.mk.inj hend
  have hadm : AdmittedRun step Reader.Admitted smallChunked [.read 1, .read 9, .read 9] := by
    decide
  exact ⟨r, hr, hdelivered, hended, body_decoded .chunked _
    (.run (.start ⟨smallChunked_initial, smallChunked_suits⟩) hadm hr)⟩

/-- A body of one byte, and a byte behind it that is buffered as well. -/
def smallPlain : Reader where
  wrapper :=
    { stream := ⟨[], []⟩
      buffered := [7, 8]
      enableChunkedDecoding := false
      chunk := none
      bytesLeftInResponse := 1 }
  delivered := []
  ended := false
  failed := false

theorem not_body_decoded_sample : ∃ r, Reachable step (Initial (.length 1) [7, 8])
    (fun _ _ => True) r ∧ ¬ r.Faithful (.length 1) [7, 8] := by
  have hinit : Initial (.length 1) [7, 8] smallPlain :=
    ⟨rfl, rfl, rfl, fun n h => (by cases h; rfl), fun h => (by cases h), rfl, rfl, rfl⟩
  have hend : (run step smallPlain [.read 2]).map (·.delivered) = some [7, 8] := by decide
  obtain ⟨r, hr, hdelivered⟩ := Option.map_eq_some_iff.mp hend
  refine ⟨r, .run_of_some (.start hinit) hr, fun h => ?_⟩
  have hprefix := (h.wellFormed [7] [8] ⟨rfl, rfl⟩).2.1
  rw [hdelivered] at hprefix
  exact absurd hprefix.length_le (by decide)

end TinyCLR.HTTP
