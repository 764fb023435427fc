import TinyCLR.Text.UTF8

/-!
# Between UTF-16 and UTF-8

The two conversions of the helper with their budgets: how many characters and bytes may be read,
and how much room is left for what is written. A terminator stands behind the input; `none` stands
for a run that moves on behind it.
-/

namespace TinyCLR.Text

namespace UnicodeHelper

/-- What a conversion leaves: what it returns, what it wrote, the rest of its input and the room
that is left. -/
structure Converted (α β : Type) where
  res : Bool
  output : List α
  input : List β
  size : Nat
  deriving DecidableEq

variable {α β : Type}

/-- Something was written before. -/
def Converted.after (output : List α) (r : Converted α β) : Converted α β :=
  { r with output := output ++ r.output }

/-- The end of a conversion, where a terminator is written. -/
def finish (fJustMove : Bool) (input : List β) (size : Nat) : Converted α β :=
  ⟨fJustMove || decide (1 ≤ size), [], input, size⟩

/-- What a conversion does with some input: it writes something, where there is room for it, and
goes on, or it leaves. -/
def write (fJustMove : Bool) (output : List α) (input : List β) (size : Nat)
    (next : Nat → Option (Converted α β)) : Option (Converted α β) :=
  if fJustMove then next size
  else if size < output.length then some ⟨false, [], input, size⟩
  else (next (size - output.length)).map (Converted.after output)

/-- A sequence that the terminator cuts short. -/
def cutShort (fJustMove : Bool) (output : Nat) (input : List β) (size : Nat) :
    Option (Converted α β) :=
  if fJustMove || decide (output ≤ size) then none else some ⟨false, [], input, size⟩

/-- The loop of `ConvertFromUTF8`. -/
def convertFromUTF8Loop (fJustMove : Bool) :
    List UInt8 → Int → Int → Nat → Option (Converted Nat UInt8)
  | [], iMaxChars, iMaxBytes, size =>
      if 0 < iMaxChars ∧ 0 < iMaxBytes then some ⟨false, [], [], size⟩
      else some (finish fJustMove [] size)
  | ch :: src, iMaxChars, iMaxBytes, size =>
      if ¬(0 < iMaxChars ∧ 0 < iMaxBytes) then some (finish fJustMove (ch :: src) size)
      else if ch == 0 then some ⟨false, [], ch :: src, size⟩
      else if ch < 0x80 then
        write fJustMove [ch.toNat] (ch :: src) size
          fun size => convertFromUTF8Loop fJustMove src (iMaxChars - 1) (iMaxBytes - 1) size
      else if ch < 0xC0 then some ⟨false, [], src, size⟩
      else if ch < 0xE0 then
        if ch < 0xC2 then some ⟨false, [], ch :: src, size⟩
        else if iMaxBytes < 2 then some ⟨false, [], ch :: src, size⟩
        else
          match src with
          | c₁ :: src =>
              write fJustMove [loadLowpart c₁ (ch.toNat % 32)] (ch :: c₁ :: src) size
                fun size => convertFromUTF8Loop fJustMove src (iMaxChars - 1) (iMaxBytes - 2) size
          | _ => cutShort fJustMove 1 (ch :: src) size
      else if ch < 0xF0 then
        if iMaxBytes < 3 then some ⟨false, [], ch :: src, size⟩
        else
          match src with
          | c₁ :: c₂ :: src =>
              write fJustMove [loadLowpart c₂ (loadLowpart c₁ (ch.toNat % 16))]
                (ch :: c₁ :: c₂ :: src) size
                fun size => convertFromUTF8Loop fJustMove src (iMaxChars - 1) (iMaxBytes - 3) size
          | _ => cutShort fJustMove 1 (ch :: src) size
      else if 0xF5 ≤ ch then some ⟨false, [], ch :: src, size⟩
      else if iMaxBytes < 4 then some ⟨false, [], ch :: src, size⟩
      else
        match src with
        | c₁ :: c₂ :: c₃ :: src =>
            let ch2 := loadLowpart c₃ (loadLowpart c₂ (loadLowpart c₁ (ch.toNat % 8)))
            write fJustMove [ch2 / 1024 + 0xD800, ch2 % 1024 + 0xDC00]
              (ch :: c₁ :: c₂ :: c₃ :: src) size
              fun size => convertFromUTF8Loop fJustMove src (iMaxChars - 2) (iMaxBytes - 4) size
        | _ => cutShort fJustMove 2 (ch :: src) size

/-- `iMaxChars * 3` -/
def defaultBytes (iMaxChars : Int) : Int := (iMaxChars * 3).bmod (2 ^ 32)

theorem defaultBytes_zero : defaultBytes 0 = 0 := Int.zero_bmod

/-- `ConvertFromUTF8` -/
def convertFromUTF8 (inputUTF8 : List UInt8) (iMaxChars : Int) (fJustMove : Bool)
    (iMaxBytes : Int) (outputUTF16_size : Nat) : Option (Converted Nat UInt8) :=
  convertFromUTF8Loop fJustMove inputUTF8 iMaxChars
    (if iMaxBytes = -1 then defaultBytes iMaxChars else iMaxBytes) outputUTF16_size

/-- The low six bits with the mark of a byte that continues a sequence. -/
def lowpart (ch : Nat) : UInt8 := UInt8.ofNat (ch % 64 + 0x80)

/-- `ConvertToUTF8`. A pair of surrogates does not count as a character. -/
def convertToUTF8 (fJustMove : Bool) : List Nat → Nat → Nat → Option (Converted UInt8 Nat)
  | inputUTF16, 0, size => some (finish fJustMove inputUTF16 size)
  | [], _ + 1, size => some (finish fJustMove [] size)
  | ch :: src, iMaxChars + 1, size =>
      if ch < 0x80 then
        if ch = 0 then some (finish fJustMove src size)
        else write fJustMove [UInt8.ofNat ch] src size
          fun size => convertToUTF8 fJustMove src iMaxChars size
      else if ch < 0x800 then
        write fJustMove [UInt8.ofNat (ch / 64 % 32 + 0xC0), lowpart ch] src size
          fun size => convertToUTF8 fJustMove src iMaxChars size
      else if 0xD800 ≤ ch ∧ ch ≤ 0xDBFF then
        match src with
        | low :: src =>
            let ch := (0x10000 + (ch - 0xD800) * 1024 + low + 2 ^ 32 - 0xDC00) % 2 ^ 32
            write fJustMove [UInt8.ofNat (ch / 262144 % 8 + 0xF0), lowpart (ch / 4096),
              lowpart (ch / 64), lowpart ch] src size
              fun size => convertToUTF8 fJustMove src (iMaxChars + 1) size
        | [] => cutShort fJustMove 4 [] size
      else
        write fJustMove [UInt8.ofNat (ch / 4096 % 16 + 0xE0), lowpart (ch / 64), lowpart ch] src
          size fun size => convertToUTF8 fJustMove src iMaxChars size

/-! ## One character -/

theorem write_of_le {output : List α} {size : Nat} (h : output.length ≤ size) (input : List β)
    (next : Nat → Option (Converted α β)) :
    write false output input size next =
      (next (size - output.length)).map (Converted.after output) := by
  rw [write, if_neg Bool.false_ne_true, if_neg (Nat.not_lt.mpr h)]

/-- What `ConvertFromUTF8` makes of a character. -/
def decodedUnits (c : Char) : List Nat :=
  if c.toNat < 0x10000 then [c.toNat] else [c.toNat / 1024 + 0xD800, c.toNat % 1024 + 0xDC00]

theorem decodedUnits_basic {c : Char} (h : Basic c) : decodedUnits c = charUnits c := by
  unfold Basic at h
  rw [decodedUnits, charUnits, if_pos h, if_pos h]

theorem length_decodedUnits (c : Char) : (decodedUnits c).length = (charUnits c).length := by
  by_cases h : c.toNat < 0x10000
  · rw [decodedUnits, charUnits, if_pos h, if_pos h]
  · rw [decodedUnits, charUnits, if_neg h, if_neg h, List.length_cons, List.length_cons,
      List.length_cons, List.length_cons]

/-- A character outside the basic plane is not decoded to its own units. -/
theorem decodedUnits_eq_iff (c : Char) : decodedUnits c = charUnits c ↔ Basic c := by
  constructor
  · intro h
    by_contra hbasic
    unfold Basic at hbasic
    rw [decodedUnits, charUnits, if_neg hbasic, if_neg hbasic, List.cons.injEq] at h
    omega
  · exact decodedUnits_basic

theorem toNat_not_surrogate (c : Char) : c.toNat < 0xD800 ∨ 0xDFFF < c.toNat ∧ c.toNat < 0x110000 :=
  c.valid

theorem encodeChar_supplementary {c : Char} (h : ¬Basic c) : String.utf8EncodeChar c =
    [UInt8.ofNat (c.toNat / 262144 % 8 + 0xF0), lowpart (c.toNat / 4096), lowpart (c.toNat / 64),
      lowpart c.toNat] := by
  have hval : c.val.toNat = c.toNat := rfl
  rw [Basic] at h
  unfold String.utf8EncodeChar
  simp only [hval]
  rw [if_neg (by omega), if_neg (by omega), if_neg (by omega)]
  rfl

/-- `ConvertToUTF8` encodes a character. -/
theorem convertToUTF8_char {c : Char} (hzero : c.toNat ≠ 0) (src : List Nat) (iMaxChars : Nat)
    {room : Nat} (hroom : Text.size c ≤ room) :
    convertToUTF8 false (charUnits c ++ src) (iMaxChars + 1) room =
      (convertToUTF8 false src (if Basic c then iMaxChars else iMaxChars + 1)
        (room - Text.size c)).map (Converted.after (String.utf8EncodeChar c)) := by
  rw [Text.size] at hroom ⊢
  have hvalid := toNat_not_surrogate c
  by_cases hbasic : Basic c
  · rw [if_pos hbasic, charUnits_basic hbasic, List.singleton_append, convertToUTF8.eq_def]
    unfold Basic at hbasic
    rcases encodeChar_cases hbasic with ⟨h, hcode⟩ | ⟨hlow, hhigh, hcode⟩ | ⟨hlow, hcode⟩ <;>
      rw [hcode] at hroom ⊢ <;> simp only
    · rw [if_pos h, if_neg hzero, write_of_le hroom]
    · rw [if_neg (by omega), if_pos hhigh]
      exact write_of_le hroom _ _
    · rw [if_neg (by omega), if_neg (by omega), if_neg (by omega)]
      exact write_of_le hroom _ _
  · rw [if_neg hbasic, encodeChar_supplementary hbasic] at *
    rw [Basic] at hbasic
    have hhigh : (c.toNat - 0x10000) / 1024 + 0xD800 ≤ 0xDBFF := by omega
    have hvalue : (0x10000 + ((c.toNat - 0x10000) / 1024 + 0xD800 - 0xD800) * 1024 +
        ((c.toNat - 0x10000) % 1024 + 0xDC00) + 2 ^ 32 - 0xDC00) % 2 ^ 32 = c.toNat := by
      omega
    rw [charUnits, if_neg hbasic, List.cons_append, List.singleton_append, convertToUTF8.eq_def]
    simp only
    rw [if_neg (by omega), if_neg (by omega), if_pos ⟨by omega, hhigh⟩, hvalue]
    exact write_of_le hroom _ _

/-- A turn of `ConvertFromUTF8` at a character. -/
theorem convertFromUTF8Loop_encoded {c : Char} (hzero : c.toNat ≠ 0) (src : List UInt8)
    {iMaxChars iMaxBytes : Int} (hturn : 0 < iMaxChars ∧ 0 < iMaxBytes) (room : Nat) :
    convertFromUTF8Loop false (String.utf8EncodeChar c ++ src) iMaxChars iMaxBytes room =
      if iMaxBytes < Text.size c then some ⟨false, [], String.utf8EncodeChar c ++ src, room⟩
      else
        write false (decodedUnits c) (String.utf8EncodeChar c ++ src) room fun room =>
          convertFromUTF8Loop false src (iMaxChars - (charUnits c).length)
            (iMaxBytes - Text.size c) room := by
  rw [Text.size]
  by_cases hbasic : Basic c
  · rw [decodedUnits_basic hbasic, charUnits_basic hbasic]
    unfold Basic at hbasic
    rcases encodeChar_cases hbasic with ⟨h, hcode⟩ | ⟨hlow, hhigh, hcode⟩ | ⟨hlow, hcode⟩ <;>
      rw [hcode, List.cons_append, convertFromUTF8Loop.eq_def] <;>
      simp only [beq_iff_eq, ← UInt8.toNat_inj, UInt8.lt_iff_toNat_lt, UInt8.reduceToNat] <;>
      rw [if_neg (not_not.mpr hturn)]
    · have hb : (UInt8.ofNat c.toNat).toNat = c.toNat := toNat_ofNat (by omega)
      rw [hb, if_neg hzero, if_pos h, if_neg]
      · rfl
      · rw [List.length_singleton, Nat.cast_one]
        omega
    · have hb : (UInt8.ofNat (c.toNat / 64 % 32 + 0xC0)).toNat = c.toNat / 64 % 32 + 0xC0 :=
        toNat_ofNat (by omega)
      have hb₁ : (UInt8.ofNat (c.toNat % 64 + 0x80)).toNat = c.toNat % 64 + 0x80 :=
        toNat_ofNat (by omega)
      have hvalue : loadLowpart (UInt8.ofNat (c.toNat % 64 + 0x80))
          ((c.toNat / 64 % 32 + 0xC0) % 32) = c.toNat := by
        rw [loadLowpart, hb₁]
        omega
      rw [hb, if_neg (by omega), if_neg (by omega), if_neg (by omega), if_pos (by omega),
        if_neg (by omega)]
      simp only [List.cons_append, List.nil_append, hvalue]
      rfl
    · have hb : (UInt8.ofNat (c.toNat / 4096 % 16 + 0xE0)).toNat = c.toNat / 4096 % 16 + 0xE0 :=
        toNat_ofNat (by omega)
      have hb₁ : (UInt8.ofNat (c.toNat / 64 % 64 + 0x80)).toNat = c.toNat / 64 % 64 + 0x80 :=
        toNat_ofNat (by omega)
      have hb₂ : (UInt8.ofNat (c.toNat % 64 + 0x80)).toNat = c.toNat % 64 + 0x80 :=
        toNat_ofNat (by omega)
      have hvalue : loadLowpart (UInt8.ofNat (c.toNat % 64 + 0x80))
          (loadLowpart (UInt8.ofNat (c.toNat / 64 % 64 + 0x80))
            ((c.toNat / 4096 % 16 + 0xE0) % 16)) = c.toNat := by
        rw [loadLowpart, loadLowpart, hb₁, hb₂]
        omega
      rw [hb, if_neg (by omega), if_neg (by omega), if_neg (by omega), if_neg (by omega),
        if_pos (by omega)]
      simp only [List.cons_append, List.nil_append, hvalue]
      rfl
  · rw [encodeChar_supplementary hbasic]
    unfold Basic at hbasic
    have hvalid := toNat_not_surrogate c
    have hb : (UInt8.ofNat (c.toNat / 262144 % 8 + 0xF0)).toNat = c.toNat / 262144 % 8 + 0xF0 :=
      toNat_ofNat (by omega)
    have hb₁ : (lowpart (c.toNat / 4096)).toNat = c.toNat / 4096 % 64 + 0x80 :=
      toNat_ofNat (by omega)
    have hb₂ : (lowpart (c.toNat / 64)).toNat = c.toNat / 64 % 64 + 0x80 :=
      toNat_ofNat (by omega)
    have hb₃ : (lowpart c.toNat).toNat = c.toNat % 64 + 0x80 := toNat_ofNat (by omega)
    have hvalue : loadLowpart (lowpart c.toNat) (loadLowpart (lowpart (c.toNat / 64))
        (loadLowpart (lowpart (c.toNat / 4096)) ((c.toNat / 262144 % 8 + 0xF0) % 8))) =
          c.toNat := by
      rw [loadLowpart, loadLowpart, loadLowpart, hb₁, hb₂, hb₃]
      omega
    rw [List.cons_append, convertFromUTF8Loop.eq_def]
    simp only [beq_iff_eq, ← UInt8.toNat_inj, UInt8.lt_iff_toNat_lt, UInt8.le_iff_toNat_le,
      UInt8.reduceToNat, hb]
    rw [if_neg (not_not.mpr hturn), if_neg (by omega), if_neg (by omega), if_neg (by omega),
      if_neg (by omega), if_neg (by omega), if_neg (by omega), decodedUnits, charUnits,
      if_neg hbasic, if_neg hbasic]
    simp only [List.cons_append, List.nil_append, hvalue]
    rfl

/-- A character for which the budgets last is decoded. -/
theorem convertFromUTF8Loop_char {c : Char} (hzero : c.toNat ≠ 0) (src : List UInt8)
    {iMaxChars iMaxBytes : Int} {room : Nat} (hchars : 0 < iMaxChars)
    (hbytes : (Text.size c : Int) ≤ iMaxBytes) (hroom : (charUnits c).length ≤ room) :
    convertFromUTF8Loop false (String.utf8EncodeChar c ++ src) iMaxChars iMaxBytes room =
      (convertFromUTF8Loop false src (iMaxChars - (charUnits c).length) (iMaxBytes - Text.size c)
        (room - (charUnits c).length)).map (Converted.after (decodedUnits c)) := by
  have hpos := size_pos c
  rw [convertFromUTF8Loop_encoded hzero src ⟨hchars, by omega⟩, if_neg (not_lt.mpr hbytes),
    write_of_le (by rwa [length_decodedUnits]), length_decodedUnits]

/-- Where the budget of bytes ends inside a character, nothing more is written. -/
theorem convertFromUTF8Loop_short {c : Char} (hzero : c.toNat ≠ 0) (src : List UInt8)
    {iMaxChars iMaxBytes : Int} {room : Nat} (hbytes : iMaxBytes < Text.size c)
    {r : Converted Nat UInt8} (h : convertFromUTF8Loop false (String.utf8EncodeChar c ++ src)
      iMaxChars iMaxBytes room = some r) : r.output = [] := by
  by_cases hturn : 0 < iMaxChars ∧ 0 < iMaxBytes
  · rw [convertFromUTF8Loop_encoded hzero src hturn, if_pos hbytes] at h
    exact congrArg Converted.output (Option.some.inj h).symm
  · cases hcode : String.utf8EncodeChar c with
    | nil =>
        have hpos := size_pos c
        rw [Text.size, hcode] at hpos
        exact absurd hpos (Nat.lt_irrefl 0)
    | cons ch tail =>
        rw [hcode, List.cons_append, convertFromUTF8Loop.eq_def] at h
        simp only at h
        rw [if_pos hturn] at h
        exact congrArg Converted.output (Option.some.inj h).symm

/-! ## Texts -/

theorem units_cons_append (c : Char) (text : List Char) :
    units (c :: text) = charUnits c ++ units text := List.flatMap_cons

theorem length_charUnits_pos (c : Char) : 0 < (charUnits c).length := by
  by_cases h : c.toNat < 0x10000
  · rw [charUnits, if_pos h, List.length_singleton]
    exact Nat.one_pos
  · rw [charUnits, if_neg h, List.length_cons]
    exact Nat.succ_pos _

/-- `ConvertToUTF8` encodes a text. -/
theorem convertToUTF8_units {text : List Char} (hzero : ∀ c ∈ text, c.toNat ≠ 0)
    (iMaxChars room : Nat) (hchars : (units text).length ≤ iMaxChars)
    (hroom : (encode text).length < room) :
    ∃ left, convertToUTF8 false (units text) iMaxChars room =
      some ⟨true, encode text, [], left⟩ := by
  induction text generalizing iMaxChars room with
  | nil =>
      refine ⟨room, ?_⟩
      have hone : 1 ≤ room := Nat.one_le_of_lt hroom
      cases iMaxChars <;> simp [units, convertToUTF8, finish, hone]
  | cons c text ih =>
      have hpos := length_charUnits_pos c
      rw [units_cons_append, List.length_append] at hchars
      rw [encode_cons, List.length_append] at hroom
      obtain ⟨n, rfl⟩ : ∃ n, iMaxChars = n + 1 := ⟨iMaxChars - 1, by omega⟩
      rw [units_cons_append, convertToUTF8_char (hzero c List.mem_cons_self) _ _
        (by rw [Text.size]; omega)]
      obtain ⟨left, hleft⟩ := ih (fun d hd => hzero d (List.mem_cons_of_mem _ hd))
        (if Basic c then n else n + 1) (room - Text.size c)
        (by split <;> omega) (by rw [Text.size]; omega)
      exact ⟨left, by rw [hleft]; rfl⟩

/-- `ConvertFromUTF8` decodes a text for which its budgets last. -/
theorem convertFromUTF8Loop_encode {text : List Char} (hzero : ∀ c ∈ text, c.toNat ≠ 0)
    (iMaxBytes : Int) (room : Nat) (hbytes : ((encode text).length : Int) ≤ iMaxBytes)
    (hroom : (units text).length < room) :
    ∃ left, convertFromUTF8Loop false (encode text) (units text).length iMaxBytes room =
      some ⟨true, text.flatMap decodedUnits, [], left⟩ := by
  induction text generalizing iMaxBytes room with
  | nil =>
      refine ⟨room, ?_⟩
      have hone : 1 ≤ room := Nat.one_le_of_lt hroom
      simp [units, convertFromUTF8Loop, finish, hone]
  | cons c text ih =>
      have hpos := length_charUnits_pos c
      rw [encode_cons, List.length_append, ← Text.size, Nat.cast_add] at hbytes
      rw [units_cons_append, List.length_append] at hroom ⊢
      obtain ⟨left, hleft⟩ := ih (fun d hd => hzero d (List.mem_cons_of_mem _ hd))
        (iMaxBytes - Text.size c) (room - (charUnits c).length) (by omega) (by omega)
      refine ⟨left, ?_⟩
      rw [encode_cons, convertFromUTF8Loop_char (hzero c List.mem_cons_self) _ (by omega)
        (by omega) (by omega), Nat.cast_add, add_sub_cancel_left, hleft]
      rfl

/-- Where it gives the units of the text, the budget of bytes lasted and no character lies outside
the basic plane. -/
theorem convertFromUTF8Loop_units {text : List Char} (hzero : ∀ c ∈ text, c.toNat ≠ 0)
    (iMaxBytes : Int) (room : Nat) (hroom : (units text).length < room)
    {r : Converted Nat UInt8} (h : convertFromUTF8Loop false (encode text) (units text).length
      iMaxBytes room = some r) (houtput : r.output = units text) :
    (∀ c ∈ text, Basic c) ∧ (text = [] ∨ ((encode text).length : Int) ≤ iMaxBytes) := by
  induction text generalizing iMaxBytes room r with
  | nil => exact ⟨fun c hc => absurd hc List.not_mem_nil, .inl rfl⟩
  | cons c text ih =>
      have hpos := length_charUnits_pos c
      have hc := hzero c List.mem_cons_self
      rw [units_cons_append, List.length_append] at hroom
      by_cases hbytes : iMaxBytes < Text.size c
      · have hnone := convertFromUTF8Loop_short hc (encode text) hbytes h
        rw [hnone, units_cons_append] at houtput
        rw [(List.append_eq_nil_iff.mp houtput.symm).1] at hpos
        exact absurd hpos (Nat.lt_irrefl 0)
      · rw [units_cons_append, List.length_append, encode_cons, convertFromUTF8Loop_char hc _ (by omega)
          (not_lt.mp hbytes) (by omega), Nat.cast_add, add_sub_cancel_left] at h
        obtain ⟨r', hr', hafter⟩ := Option.map_eq_some_iff.mp h
        rw [← hafter, units_cons_append] at houtput
        obtain ⟨hchar, hrest⟩ := List.append_inj houtput (length_decodedUnits c)
        obtain ⟨hbasic, henough⟩ := ih (fun d hd => hzero d (List.mem_cons_of_mem _ hd)) _ _
          (by omega) hr' hrest
        constructor
        · intro d hd
          rcases List.mem_cons.mp hd with rfl | hd
          · exact (decodedUnits_eq_iff d).mp hchar
          · exact hbasic d hd
        · right
          rw [encode_cons, List.length_append, ← Text.size, Nat.cast_add]
          rcases henough with rfl | henough
          · rw [encode_nil, List.length_nil]
            omega
          · omega

/-! ## Round trips -/

/-- The budgets of a conversion of so many characters from so many bytes. -/
structure Budgets (text : List Char) (iMaxBytes : Int) (outputUTF16_size outputUTF8_size : Nat) :
    Prop where
  bytes : iMaxBytes = -1 ∨ ((encode text).length : Int) ≤ iMaxBytes
  utf16 : (units text).length < outputUTF16_size
  utf8 : (encode text).length < outputUTF8_size

/-- The units of the text come back from the bytes that are made of them. -/
def ThroughUTF8 (text : List Char) : Prop :=
  ∀ iMaxChars iMaxBytes outputUTF16_size outputUTF8_size, (units text).length ≤ iMaxChars →
    Budgets text iMaxBytes outputUTF16_size outputUTF8_size →
    ∃ bytes, convertToUTF8 false (units text) iMaxChars outputUTF8_size = some bytes ∧
      bytes.res = true ∧
      ∃ chars, convertFromUTF8 bytes.output (units text).length false iMaxBytes
          outputUTF16_size = some chars ∧
        chars.res = true ∧ chars.output = units text

/-- The bytes of the text come back from the units that are made of them. -/
def ThroughUTF16 (text : List Char) : Prop :=
  ∀ iMaxChars iMaxBytes outputUTF16_size outputUTF8_size, (units text).length ≤ iMaxChars →
    Budgets text iMaxBytes outputUTF16_size outputUTF8_size →
    ∃ chars, convertFromUTF8 (encode text) (units text).length false iMaxBytes
        outputUTF16_size = some chars ∧
      chars.res = true ∧
      ∃ bytes, convertToUTF8 false chars.output iMaxChars outputUTF8_size = some bytes ∧
        bytes.res = true ∧ bytes.output = encode text

/-- No character lies outside the basic plane, and the product by which the budget of bytes is
taken by default does not wrap below their number. -/
def InBudget (text : List Char) : Prop :=
  (∀ c ∈ text, Basic c) ∧ ((encode text).length : Int) ≤ defaultBytes (units text).length

instance (text : List Char) : Decidable (InBudget text) := inferInstanceAs (Decidable (_ ∧ _))

theorem flatMap_decodedUnits {text : List Char} (h : ∀ c ∈ text, Basic c) :
    text.flatMap decodedUnits = units text := by
  induction text with
  | nil => rw [units, List.flatMap_nil, List.flatMap_nil]
  | cons c text ih =>
      rw [List.flatMap_cons, units_cons_append, decodedUnits_basic (h c List.mem_cons_self),
        ih fun d hd => h d (List.mem_cons_of_mem _ hd)]

theorem InBudget.convertFromUTF8 {text : List Char} (h : InBudget text)
    (hzero : ∀ c ∈ text, c.toNat ≠ 0) {iMaxBytes : Int} {outputUTF16_size outputUTF8_size : Nat}
    (hbudgets : Budgets text iMaxBytes outputUTF16_size outputUTF8_size) :
    ∃ left, UnicodeHelper.convertFromUTF8 (encode text) (units text).length false iMaxBytes
      outputUTF16_size = some ⟨true, units text, [], left⟩ := by
  have hbytes : ((encode text).length : Int) ≤
      if iMaxBytes = -1 then defaultBytes (units text).length else iMaxBytes := by
    split
    · exact h.2
    · exact hbudgets.bytes.resolve_left ‹_›
  obtain ⟨left, hleft⟩ := convertFromUTF8Loop_encode hzero _ _ hbytes hbudgets.utf16
  rw [flatMap_decodedUnits h.1] at hleft
  exact ⟨left, hleft⟩

/-- Both round trips are the identity for exactly the texts of the basic plane. -/
theorem conversions_inverse_iff (text : List Char) (hzero : ∀ c ∈ text, c.toNat ≠ 0) :
    ThroughUTF8 text ∧ ThroughUTF16 text ↔ InBudget text := by
  constructor
  · rintro ⟨hthrough, -⟩
    obtain ⟨bytes, hbytes, -, chars, hchars, -, houtput⟩ := hthrough (units text).length (-1)
      ((units text).length + 1) ((encode text).length + 1) le_rfl
      ⟨.inl rfl, Nat.lt_succ_self _, Nat.lt_succ_self _⟩
    obtain ⟨left, hleft⟩ := convertToUTF8_units hzero (units text).length
      ((encode text).length + 1) le_rfl (Nat.lt_succ_self _)
    rw [hleft, Option.some.injEq] at hbytes
    rw [← hbytes, UnicodeHelper.convertFromUTF8, if_pos rfl] at hchars
    obtain ⟨hbasic, henough⟩ := convertFromUTF8Loop_units hzero _ _ (Nat.lt_succ_self _) hchars
      houtput
    refine ⟨hbasic, ?_⟩
    rcases henough with hnil | henough
    · rw [hnil]
      exact defaultBytes_zero.ge
    · exact henough
  · intro h
    constructor
    · intro iMaxChars iMaxBytes outputUTF16_size outputUTF8_size hchars hbudgets
      obtain ⟨left, hbytes⟩ := convertToUTF8_units hzero iMaxChars outputUTF8_size hchars
        hbudgets.utf8
      obtain ⟨left', hback⟩ := h.convertFromUTF8 hzero hbudgets
      exact ⟨_, hbytes, rfl, _, hback, rfl, rfl⟩
    · intro iMaxChars iMaxBytes outputUTF16_size outputUTF8_size hchars hbudgets
      obtain ⟨left, hunits⟩ := h.convertFromUTF8 hzero hbudgets
      obtain ⟨left', hback⟩ := convertToUTF8_units hzero iMaxChars outputUTF8_size hchars
        hbudgets.utf8
      exact ⟨_, hunits, rfl, _, hback, rfl, rfl⟩

theorem conversions_inverse_sample : (∀ c ∈ ['a', 'é', '€'], c.toNat ≠ 0) ∧
    (ThroughUTF8 ['a', 'é', '€'] ∧ ThroughUTF16 ['a', 'é', '€']) :=
  ⟨by simp, (conversions_inverse_iff ['a', 'é', '€'] (by simp)).mpr (by decide)⟩

/-- The pair of surrogates of a character outside the basic plane comes back as another. -/
theorem not_conversions_inverse_sample : ¬∀ text : List Char, (∀ c ∈ text, c.toNat ≠ 0) →
    ThroughUTF8 text ∧ ThroughUTF16 text := by
  intro hall
  obtain ⟨hthrough, -⟩ := hall ['😀'] (by simp)
  obtain ⟨bytes, hbytes, -, chars, hchars, -, houtput⟩ := hthrough 2 (-1) 3 5 (by decide)
    ⟨.inl rfl, by decide, by decide⟩
  have hencoded : convertToUTF8 false (units ['😀']) 2 5 =
      some ⟨true, [0xF0, 0x9F, 0x98, 0x80], [], 1⟩ := by decide +kernel
  have hdecoded : convertFromUTF8 [0xF0, 0x9F, 0x98, 0x80] (units ['😀']).length false (-1) 3 =
      some ⟨true, [0xD87D, 0xDE00], [], 1⟩ := by decide +kernel
  obtain rfl := Option.some.inj (hencoded.symm.trans hbytes)
  obtain rfl := Option.some.inj (hdecoded.symm.trans hchars)
  exact absurd houtput (by decide)

end UnicodeHelper

end TinyCLR.Text
