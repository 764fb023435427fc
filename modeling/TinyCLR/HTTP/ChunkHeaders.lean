import TinyCLR.HTTP.ChunkedGrammar
import TinyCLR.HTTP.InputNetworkStreamWrapper

/-!
# What the parser of chunk headers accepts

The parser sees the bytes of the internal buffer and then those of the network, one after the
other, so that it is a function of them. It reads the headers that have at most one extension,
with a value, and it also accepts headers that are none.
-/

namespace TinyCLR.HTTP

open Text

/-! ## The headers that are read -/

/-- A header with at most one extension, with a value, that the buffers of the parser hold. -/
inductive SimpleHeader : List UInt8 → Nat → Prop where
  | plain {digits : List UInt8} : digits ≠ [] → digits.length ≤ 8 →
      (∀ b ∈ digits, isHexDigit b = true) → SimpleHeader digits (hexValue digits)
  | valued {digits name value : List UInt8} : digits ≠ [] → digits.length ≤ 8 →
      (∀ b ∈ digits, isHexDigit b = true) → Token name → name.length ≤ 1024 →
      ExtensionValue value → 59 ∉ value → 61 ∉ value → value.length ≤ 1024 →
      SimpleHeader (digits ++ 59 :: (name ++ 61 :: value)) (hexValue digits)

theorem SimpleHeader.chunkHeader {header : List UInt8} {size : Nat} (h : SimpleHeader header size) :
    ChunkHeader header size := by
  cases h with
  | plain hne _ hdigits =>
      have hheader : ChunkHeader (_ ++ List.flatten []) _ := .intro hne hdigits (by simp)
      simpa using hheader
  | @valued digits name value hne _ hdigits hname _ hvalue =>
      have hheader : ChunkHeader (digits ++ [59 :: (name ++ 61 :: value)].flatten) _ :=
        .intro hne hdigits (by simpa using Extension.valued hname hvalue)
      simpa using hheader

/-- No byte that means something to the parser. -/
def Plain (bytes : List UInt8) : Prop := ∀ b ∈ bytes, b ≠ 13 ∧ b ≠ 10 ∧ b ≠ 59 ∧ b ≠ 61

/-- What may follow the size: nothing, or a name and a value. -/
def AcceptedExtension (extension : List UInt8) : Prop :=
  extension = [] ∨ ∃ name value, extension = 59 :: (name ++ 61 :: value) ∧ Plain name ∧
    name.length ≤ 1024 ∧ Plain value ∧ value.length ≤ 1024

/-- The streams at whose front the parser finds a header: any carriage returns, a line feed if
there is one, a text that is read as a size, and perhaps a name and a value. -/
def Accepts (stream : List UInt8) : Prop :=
  ∃ n lineFeed text extension rest,
    stream = List.replicate n 13 ++ (lineFeed ++ (text ++ (extension ++ (crlf ++ rest)))) ∧
      (lineFeed = [] ∧ text ≠ [] ∨ lineFeed = [10]) ∧ Plain text ∧ text.length ≤ 1024 ∧
      (parseSize text).isOk = true ∧ AcceptedExtension extension

/-! ## The size of a chunk -/

theorem isHexDigit_iff {b : UInt8} : isHexDigit b = true ↔
    48 ≤ b.toNat ∧ b.toNat ≤ 57 ∨ 65 ≤ b.toNat ∧ b.toNat ≤ 70 ∨ 97 ≤ b.toNat ∧ b.toNat ≤ 102 := by
  simp [isHexDigit, UInt8.le_iff_toNat_le, or_assoc]

theorem hexDigit_toUpper {b : UInt8} (h : isHexDigit b = true) :
    hexDigit (toUpper b.toNat) = some (digitValue b) := by
  rw [isHexDigit_iff] at h
  simp only [hexDigit, toUpper, digitValue, UInt8.le_iff_toNat_le, UInt8.reduceToNat]
  grind

section ASCII

variable {bytes : List UInt8} (h : ∀ b ∈ bytes, b ≠ 0 ∧ b < 0x80)
include h

theorem countNumberOfCharacters_eq_length : countNumberOfCharacters bytes = some bytes.length := by
  induction bytes with
  | nil => rfl
  | cons b bytes ih =>
      obtain ⟨hzero, hlow⟩ := h b List.mem_cons_self
      rw [countNumberOfCharacters_ascii hzero hlow, ih fun b hb => h b (List.mem_cons_of_mem _ hb)]
      rfl

theorem convertFromUTF8_eq_map :
    (convertFromUTF8 bytes bytes.length).1 = bytes.map UInt8.toNat := by
  induction bytes with
  | nil => rfl
  | cons b bytes ih =>
      obtain ⟨hzero, hlow⟩ := h b List.mem_cons_self
      rw [List.length_cons, convertFromUTF8_ascii hzero hlow, List.map_cons,
        ih fun b hb => h b (List.mem_cons_of_mem _ hb)]

end ASCII

theorem trim_eq {text : List Nat} (h : 32 ∉ text) : trim text = text := by
  have hdrop : text.dropWhile (· == 32) = text := by
    cases text with
    | nil => rfl
    | cons c text => exact List.dropWhile_cons_of_neg (by simp; exact fun hc => h (hc ▸ List.mem_cons_self))
  rw [trim, hdrop, List.rdropWhile_eq_self_iff]
  intro hne hlast
  exact h (beq_iff_eq.mp hlast ▸ List.getLast_mem hne)

theorem trimSentinel_eq {digits : List Nat} (h : ∀ d ∈ digits, d ≠ 88) :
    trimSentinel digits = digits := by
  unfold trimSentinel
  split
  · exact absurd rfl (h 88 (by simp))
  · rfl

theorem parseSize_digits {digits : List UInt8} (hlength : digits.length ≤ 8)
    (hdigits : ∀ b ∈ digits, isHexDigit b = true) : parseSize digits = .ok (hexValue digits) := by
  have hascii : ∀ b ∈ digits, b ≠ 0 ∧ b < 0x80 := by
    intro b hb
    have := isHexDigit_iff.mp (hdigits b hb)
    rw [UInt8.lt_iff_toNat_lt, ne_eq, ← UInt8.toNat_inj]
    simp only [UInt8.reduceToNat]
    omega
  have hnat : ∀ c ∈ digits.map UInt8.toNat, 48 ≤ c ∧ c ≤ 102 := by
    intro c hc
    obtain ⟨b, hb, rfl⟩ := List.mem_map.mp hc
    have := isHexDigit_iff.mp (hdigits b hb)
    omega
  have htext : (digits.map UInt8.toNat).takeWhile (· ≠ 0) = digits.map UInt8.toNat := by
    rw [List.takeWhile_eq_self_iff]
    intro c hc
    have := hnat c hc
    simp only [decide_eq_true_eq]
    omega
  have htrim : trimSentinel ((trim (digits.map UInt8.toNat)).map toUpper) =
      (digits.map UInt8.toNat).map toUpper := by
    rw [trim_eq fun hmem => by have := hnat 32 hmem; omega]
    apply trimSentinel_eq
    intro d hd
    obtain ⟨c, hc, rfl⟩ := List.mem_map.mp hd
    obtain ⟨b, hb, rfl⟩ := List.mem_map.mp hc
    have := isHexDigit_iff.mp (hdigits b hb)
    unfold toUpper
    split <;> omega
  have hvalues : ((digits.map UInt8.toNat).map toUpper).mapM hexDigit =
      some (digits.map digitValue) := by
    rw [List.map_map]
    clear htext htrim hnat hascii hlength
    induction digits with
    | nil => rfl
    | cons b digits ih =>
        rw [List.map_cons, List.mapM_cons, Function.comp_apply,
          hexDigit_toUpper (hdigits b List.mem_cons_self),
          ih fun b hb => hdigits b (List.mem_cons_of_mem _ hb)]
        rfl
  rw [parseSize, countNumberOfCharacters_eq_length hascii]
  simp only [convertFromUTF8_eq_map hascii, htext, toInt32, htrim, List.length_map, hvalues,
    Nat.not_lt.mpr hlength, if_false, Option.map_some, List.foldl_map]
  rfl

/-! ## The parser over the bytes to come -/

def parseChunk (p : ChunkParser) : List UInt8 → Except Error (Nat × List UInt8)
  | [] => .error .connectionAborted
  | b :: stream =>
      (p.next b).bind fun (p, parsing) =>
        if parsing then parseChunk p stream else .ok (p.chunkSize, stream)

variable {p : ChunkParser} {state : ChunkState} {buffer bytes stream rest : List UInt8}
  {size size' : Nat} {b : UInt8}

/-- The states in which bytes are gathered. -/
def ChunkState.Gathers (state : ChunkState) : Prop := state ≠ .lf ∧ state ≠ .initialLF

theorem next_plain (buffer : List UInt8) (size : Nat) (hstate : state.Gathers) (hb : b ≠ 13 ∧ b ≠ 10 ∧ b ≠ 59 ∧ b ≠ 61) :
    ChunkParser.next ⟨state, buffer, size⟩ b =
      if buffer.length < 1024 then .ok (⟨state, buffer ++ [b], size⟩, true)
      else .error .indexOutOfRange := by
  obtain ⟨hlf, hinitial⟩ := hstate
  simp only [ChunkParser.next, hb, ChunkParser.store, if_false]
  cases state
  case lf => exact absurd rfl hlf
  case initialLF => exact absurd rfl hinitial
  all_goals split <;> rfl

theorem parseChunk_plain {bytes : List UInt8} (buffer : List UInt8) (hstate : state.Gathers) (hbytes : Plain bytes)
    (hlength : buffer.length + bytes.length ≤ 1024) :
    parseChunk ⟨state, buffer, size⟩ (bytes ++ stream) =
      parseChunk ⟨state, buffer ++ bytes, size⟩ stream := by
  induction bytes generalizing buffer with
  | nil => simp
  | cons b bytes ih =>
      rw [List.length_cons] at hlength
      have hplain : Plain bytes := fun c hc => hbytes c (List.mem_cons_of_mem _ hc)
      have hnext := next_plain buffer size hstate (hbytes b List.mem_cons_self)
      rw [if_pos (by omega)] at hnext
      rw [List.cons_append, parseChunk, hnext]
      have := ih (buffer ++ [b]) hplain (by simp; omega)
      simpa [Except.bind] using this

/-- A gathering state is left with a byte that means something. -/
theorem parseChunk_gathered (buffer : List UInt8) (hstate : state.Gathers)
    (h : parseChunk ⟨state, buffer, size⟩ stream = .ok (size', rest))
    (hbuffer : buffer.length ≤ 1024) :
    ∃ bytes b stream', stream = bytes ++ b :: stream' ∧ Plain bytes ∧
      buffer.length + bytes.length ≤ 1024 ∧ ¬ (b ≠ 13 ∧ b ≠ 10 ∧ b ≠ 59 ∧ b ≠ 61) ∧
      parseChunk ⟨state, buffer ++ bytes, size⟩ (b :: stream') = .ok (size', rest) := by
  induction stream generalizing buffer with
  | nil => cases h
  | cons b stream ih =>
      by_cases hb : b ≠ 13 ∧ b ≠ 10 ∧ b ≠ 59 ∧ b ≠ 61
      · rw [parseChunk, next_plain buffer size hstate hb] at h
        by_cases hlength : buffer.length < 1024
        · rw [if_pos hlength] at h
          obtain ⟨bytes, c, stream', rfl, hplain, hlong, hc, hrest⟩ :=
            ih (buffer ++ [b]) (by simpa [Except.bind] using h) (by simp; omega)
          refine ⟨b :: bytes, c, stream', rfl, ?_, ?_, hc, by simpa using hrest⟩
          · exact List.forall_mem_cons.mpr ⟨hb, hplain⟩
          · simp at hlong ⊢
            omega
        · rw [if_neg hlength] at h
          cases h
      · exact ⟨[], b, stream, rfl, by simp [Plain], by simpa using hbuffer, hb, by simpa using h⟩

/-! ### Headers that are read -/

theorem parseChunk_lineEnd :
    parseChunk ⟨.value, buffer, size⟩ (crlf ++ stream) = .ok (size, stream) := rfl

theorem parseChunk_size (h : parseSize buffer = .ok size') :
    parseChunk ⟨.size, buffer, size⟩ (crlf ++ stream) = .ok (size', stream) := by
  simp only [crlf, List.cons_append, parseChunk, ChunkParser.next, h]
  rfl

theorem parseChunk_extension (h : parseSize buffer = .ok size') :
    parseChunk ⟨.size, buffer, size⟩ (59 :: stream) = parseChunk ⟨.name, [], size'⟩ stream := by
  simp only [parseChunk, ChunkParser.next, h]
  rfl

theorem parseChunk_value :
    parseChunk ⟨.name, buffer, size⟩ (61 :: stream) = parseChunk ⟨.value, [], size⟩ stream := rfl

/-- The line end of the chunk before, if there is one, is passed over. -/
theorem parseChunk_separator (first : Bool) (hb : b ≠ 13 ∧ b ≠ 10 ∧ b ≠ 59 ∧ b ≠ 61) :
    parseChunk .start (separator first ++ b :: stream) =
      parseChunk ⟨.size, [], 0⟩ (b :: stream) := by
  cases first
  case false => rfl
  case true => simp [separator, parseChunk, ChunkParser.start, ChunkParser.next, hb]

theorem Token.plain (h : Token bytes) : Plain bytes := fun b hb => isTokenChar_ne b (h.2 b hb)

theorem QuotedText.no_lf (h : QuotedText bytes) : 10 ∉ bytes := by
  induction h with
  | nil => exact List.not_mem_nil
  | char hb _ _ _ ih =>
      simp only [List.mem_cons, not_or]
      exact ⟨(isTextChar_ne _ hb).2.symm, ih⟩
  | pair hb _ ih =>
      simp only [List.mem_cons, not_or]
      exact ⟨by decide, (isTextChar_ne _ hb).2.symm, ih⟩

theorem ExtensionValue.plain (h : ExtensionValue bytes) (hsemicolon : 59 ∉ bytes)
    (hequals : 61 ∉ bytes) : Plain bytes := by
  have hlf : 10 ∉ bytes := by
    cases h with
    | token h => exact fun hmem => (h.plain 10 hmem).2.1 rfl
    | quoted h => simpa using h.no_lf
  intro b hb
  refine ⟨?_, ?_, ?_, ?_⟩ <;> rintro rfl
  · exact h.no_cr hb
  · exact hlf hb
  · exact hsemicolon hb
  · exact hequals hb

/-- The parser reads a header with at most one extension, with a value. -/
theorem parseChunk_header {header : List UInt8} (h : SimpleHeader header size) (first : Bool)
    (stream : List UInt8) :
    parseChunk .start (separator first ++ (header ++ (crlf ++ stream))) = .ok (size, stream) := by
  have hstart {digits rest : List UInt8} (hne : digits ≠ []) (hlength : digits.length ≤ 8)
      (hdigits : ∀ b ∈ digits, isHexDigit b = true) :
      parseChunk .start (separator first ++ (digits ++ rest)) =
        parseChunk ⟨.size, digits, 0⟩ rest := by
    have hplain : Plain digits := fun b hb => isHexDigit_ne b (hdigits b hb)
    obtain ⟨b, digits', rfl⟩ := List.exists_cons_of_ne_nil hne
    rw [List.cons_append, parseChunk_separator first (hplain b List.mem_cons_self),
      ← List.cons_append]
    exact parseChunk_plain [] ⟨by decide, by decide⟩ hplain (by simp at hlength ⊢; omega)
  cases h with
  | plain hne hlength hdigits =>
      rw [hstart hne hlength hdigits]
      exact parseChunk_size (parseSize_digits hlength hdigits)
  | @valued digits name value hne hlength hdigits hname hnameLength hvalue hsemicolon hequals
      hvalueLength =>
      rw [List.append_assoc, hstart hne hlength hdigits, List.cons_append,
        parseChunk_extension (parseSize_digits hlength hdigits), List.append_assoc,
        parseChunk_plain [] ⟨by decide, by decide⟩ hname.plain (by simpa using hnameLength),
        List.cons_append, parseChunk_value,
        parseChunk_plain [] ⟨by decide, by decide⟩ (hvalue.plain hsemicolon hequals)
          (by simpa using hvalueLength)]
      exact parseChunk_lineEnd

/-! ### What is accepted -/

theorem parseChunk_lf (h : parseChunk ⟨.lf, buffer, size⟩ stream = .ok (size', rest)) :
    stream = 10 :: rest := by
  cases stream with
  | nil => cases h
  | cons b stream =>
      by_cases hb : b = 10
      · subst hb
        cases h
        rfl
      · simp only [parseChunk, ChunkParser.next, hb, ChunkParser.store, if_false] at h
        split_ifs at h <;> cases h

/-- A byte that means something but is none of the others. -/
theorem special_cases (hb : ¬ (b ≠ 13 ∧ b ≠ 10 ∧ b ≠ 59 ∧ b ≠ 61)) :
    b = 13 ∨ b = 10 ∨ b = 59 ∨ b = 61 := by tauto

theorem accepted_value (h : parseChunk ⟨.value, [], size⟩ stream = .ok (size', rest)) :
    ∃ value, stream = value ++ (crlf ++ rest) ∧ Plain value ∧ value.length ≤ 1024 := by
  obtain ⟨value, b, stream, rfl, hplain, hlength, hb, hnext⟩ :=
    parseChunk_gathered [] ⟨by decide, by decide⟩ h (by simp)
  rcases special_cases hb with rfl | rfl | rfl | rfl
  · obtain rfl := parseChunk_lf hnext
    exact ⟨value, rfl, hplain, by simpa using hlength⟩
  all_goals cases hnext

theorem accepted_name (h : parseChunk ⟨.name, [], size⟩ stream = .ok (size', rest)) :
    ∃ name value, stream = name ++ 61 :: (value ++ (crlf ++ rest)) ∧ Plain name ∧
      name.length ≤ 1024 ∧ Plain value ∧ value.length ≤ 1024 := by
  obtain ⟨name, b, stream, rfl, hplain, hlength, hb, hnext⟩ :=
    parseChunk_gathered [] ⟨by decide, by decide⟩ h (by simp)
  rcases special_cases hb with rfl | rfl | rfl | rfl
  case inr.inr.inr =>
    obtain ⟨value, rfl, hvalue, hvalueLength⟩ := accepted_value hnext
    exact ⟨name, value, rfl, hplain, by simpa using hlength, hvalue, hvalueLength⟩
  all_goals cases hnext

theorem accepted_size (size : Nat) (h : parseChunk ⟨.size, [], size⟩ stream = .ok (size', rest)) :
    ∃ text extension, stream = text ++ (extension ++ (crlf ++ rest)) ∧ Plain text ∧
      text.length ≤ 1024 ∧ (parseSize text).isOk = true ∧ AcceptedExtension extension := by
  obtain ⟨text, b, stream, rfl, hplain, hlength, hb, hnext⟩ :=
    parseChunk_gathered [] ⟨by decide, by decide⟩ h (by simp)
  rw [List.nil_append] at hnext
  have hlength : text.length ≤ 1024 := by simpa using hlength
  rcases special_cases hb with rfl | rfl | rfl | rfl
  · cases hsize : parseSize text with
    | error e =>
        simp only [parseChunk, ChunkParser.next, hsize] at hnext
        cases hnext
    | ok n =>
        have hlf : parseChunk ⟨.lf, [], n⟩ stream = .ok (size', rest) := by
          simp only [parseChunk, ChunkParser.next, hsize] at hnext
          exact hnext
        obtain rfl := parseChunk_lf hlf
        exact ⟨text, [], rfl, hplain, hlength, by rw [hsize]; rfl, .inl rfl⟩
  · cases hnext
  · cases hsize : parseSize text with
    | error e =>
        simp only [parseChunk, ChunkParser.next, hsize] at hnext
        cases hnext
    | ok n =>
        rw [parseChunk_extension hsize] at hnext
        obtain ⟨name, value, rfl, hname, hnameLength, hvalue, hvalueLength⟩ := accepted_name hnext
        refine ⟨text, 59 :: (name ++ 61 :: value), by simp, hplain, hlength, by rw [hsize]; rfl, ?_⟩
        exact .inr ⟨name, value, rfl, hname, hnameLength, hvalue, hvalueLength⟩
  · cases hnext

theorem accepts_of_parseChunk (h : parseChunk .start stream = .ok (size, rest)) :
    Accepts stream := by
  induction stream with
  | nil => cases h
  | cons b stream ih =>
      by_cases hcr : b = 13
      · subst hcr
        obtain ⟨n, lineFeed, text, extension, rest', rfl, hrest⟩ := ih h
        exact ⟨n + 1, lineFeed, text, extension, rest', rfl, hrest⟩
      by_cases hlf : b = 10
      · subst hlf
        obtain ⟨text, extension, rfl, hplain⟩ := accepted_size 0 h
        exact ⟨0, [10], text, extension, rest, rfl, .inr rfl, hplain⟩
      by_cases hb : b ≠ 13 ∧ b ≠ 10 ∧ b ≠ 59 ∧ b ≠ 61
      · have hsize : parseChunk ⟨.size, [], 0⟩ (b :: stream) = .ok (size, rest) :=
          (parseChunk_separator true hb).symm.trans h
        obtain ⟨text, extension, heq, hplain, haccepted⟩ := accepted_size 0 hsize
        refine ⟨0, [], text, extension, rest, heq, .inl ⟨rfl, ?_⟩, hplain, haccepted⟩
        -- a text that is empty would leave a byte that means something
        rintro rfl
        rcases haccepted.2.2 with rfl | ⟨name, value, rfl, -⟩
        · exact hb.1 (List.cons.inj heq).1
        · exact hb.2.2.1 (List.cons.inj heq).1
      · rcases special_cases hb with rfl | rfl | rfl | rfl
        · exact absurd rfl hcr
        · exact absurd rfl hlf
        all_goals cases h

end TinyCLR.HTTP
