import Mathlib

/-!
# The chunked transfer coding

The grammar of HTTP/1.1. The line end behind the data of a chunk is read together with the next
header, as the program does: the header of the first chunk stands alone, that of each other one
has a line end in front.
-/

namespace TinyCLR.HTTP

def crlf : List UInt8 := [13, 10]

def isHexDigit (b : UInt8) : Bool :=
  (48 ≤ b && b ≤ 57) || (65 ≤ b && b ≤ 70) || (97 ≤ b && b ≤ 102)

def digitValue (b : UInt8) : Nat :=
  if b ≤ 57 then b.toNat - 48 else if b ≤ 70 then b.toNat - 55 else b.toNat - 87

def hexValue (digits : List UInt8) : Nat :=
  digits.foldl (fun value b => value * 16 + digitValue b) 0

/-- A visible character. -/
def isVisible (b : UInt8) : Bool := 33 ≤ b && b ≤ 126

/-- `tchar`: a visible character that is no delimiter. -/
def isTokenChar (b : UInt8) : Bool :=
  isVisible b && !([34, 40, 41, 44, 47, 58, 59, 60, 61, 62, 63, 64, 91, 92, 93, 123, 125] :
    List UInt8).contains b

def Token (text : List UInt8) : Prop := text ≠ [] ∧ ∀ b ∈ text, isTokenChar b = true

/-- Text of fields and of quoted pairs: tabs, spaces, visible characters and those above. -/
def isTextChar (b : UInt8) : Bool := b == 9 || b == 32 || isVisible b || 128 ≤ b

/-- What stands between the quotes of a quoted string. -/
inductive QuotedText : List UInt8 → Prop where
  | nil : QuotedText []
  | char {b : UInt8} {text : List UInt8} : isTextChar b = true → b ≠ 34 → b ≠ 92 →
      QuotedText text → QuotedText (b :: text)
  | pair {b : UInt8} {text : List UInt8} : isTextChar b = true →
      QuotedText text → QuotedText (92 :: b :: text)

inductive ExtensionValue : List UInt8 → Prop where
  | token {value : List UInt8} : Token value → ExtensionValue value
  | quoted {text : List UInt8} : QuotedText text → ExtensionValue (34 :: (text ++ [34]))

/-- An extension of a chunk, with and without a value. -/
inductive Extension : List UInt8 → Prop where
  | bare {name : List UInt8} : Token name → Extension (59 :: name)
  | valued {name value : List UInt8} : Token name → ExtensionValue value →
      Extension (59 :: (name ++ 61 :: value))

/-- The header of a chunk, without its line end, and the size it gives. -/
inductive ChunkHeader : List UInt8 → Nat → Prop where
  | intro {digits : List UInt8} {extensions : List (List UInt8)} : digits ≠ [] →
      (∀ b ∈ digits, isHexDigit b = true) → (∀ e ∈ extensions, Extension e) →
      ChunkHeader (digits ++ extensions.flatten) (hexValue digits)

inductive TrailerField : List UInt8 → Prop where
  | intro {name value : List UInt8} : Token name → (∀ b ∈ value, isTextChar b = true) →
      TrailerField (name ++ 58 :: value)

/-- The trailer, with the line ends of its fields. -/
def Trailer (trailer : List UInt8) : Prop :=
  ∃ fields : List (List UInt8), (∀ f ∈ fields, TrailerField f) ∧
    trailer = (fields.map (· ++ crlf)).flatten

/-- What stands in front of a header. -/
def separator (first : Bool) : List UInt8 := if first then [] else crlf

/-- `Body first stream data behind`: the stream begins with a body that carries the data, and
what is behind the body follows. -/
inductive Body : Bool → List UInt8 → List UInt8 → List UInt8 → Prop where
  | last {first : Bool} {header trailer behind : List UInt8} : ChunkHeader header 0 →
      Trailer trailer →
      Body first (separator first ++ (header ++ (crlf ++ (trailer ++ (crlf ++ behind))))) [] behind
  | chunk {first : Bool} {header data stream data' behind : List UInt8} :
      ChunkHeader header data.length → data ≠ [] → Body false stream data' behind →
      Body first (separator first ++ (header ++ (crlf ++ (data ++ stream)))) (data ++ data') behind

/-- The data that the chunks at the front of a stream carry, and a part of it. -/
inductive Leads : Bool → List UInt8 → List UInt8 → Prop where
  | nil {first : Bool} {stream : List UInt8} : Leads first stream []
  | part {first : Bool} {header data stream : List UInt8} {size : Nat} : ChunkHeader header size →
      data.length ≤ size →
      Leads first (separator first ++ (header ++ (crlf ++ (data ++ stream)))) data
  | chunk {first : Bool} {header data stream data' : List UInt8} :
      ChunkHeader header data.length → Leads false stream data' →
      Leads first (separator first ++ (header ++ (crlf ++ (data ++ stream)))) (data ++ data')

/-! ## Headers are read in one way -/

theorem isTextChar_ne (b : UInt8) (h : isTextChar b = true) : b ≠ 13 ∧ b ≠ 10 := by
  constructor <;> rintro rfl <;> exact absurd h (by decide)

theorem isTokenChar_ne (b : UInt8) (h : isTokenChar b = true) :
    b ≠ 13 ∧ b ≠ 10 ∧ b ≠ 59 ∧ b ≠ 61 := by
  refine ⟨?_, ?_, ?_, ?_⟩ <;> rintro rfl <;> exact absurd h (by decide)

theorem isHexDigit_ne (b : UInt8) (h : isHexDigit b = true) :
    b ≠ 13 ∧ b ≠ 10 ∧ b ≠ 59 ∧ b ≠ 61 := by
  refine ⟨?_, ?_, ?_, ?_⟩ <;> rintro rfl <;> exact absurd h (by decide)

theorem QuotedText.no_cr {text : List UInt8} (h : QuotedText text) : 13 ∉ text := by
  induction h with
  | nil => exact List.not_mem_nil
  | char hb _ _ _ ih =>
      simp only [List.mem_cons, not_or]
      exact ⟨(isTextChar_ne _ hb).1.symm, ih⟩
  | pair hb _ ih =>
      simp only [List.mem_cons, not_or]
      exact ⟨by decide, (isTextChar_ne _ hb).1.symm, ih⟩

theorem Token.no_cr {text : List UInt8} (h : Token text) : 13 ∉ text :=
  fun hmem => (isTokenChar_ne 13 (h.2 13 hmem)).1 rfl

theorem ExtensionValue.no_cr {value : List UInt8} (h : ExtensionValue value) : 13 ∉ value := by
  cases h with
  | token h => exact h.no_cr
  | quoted h => simpa using h.no_cr

theorem Extension.no_cr {extension : List UInt8} (h : Extension extension) : 13 ∉ extension := by
  cases h with
  | bare hname => simpa using hname.no_cr
  | valued hname hvalue => simpa using ⟨hname.no_cr, hvalue.no_cr⟩

theorem ChunkHeader.no_cr {header : List UInt8} {size : Nat} (h : ChunkHeader header size) :
    13 ∉ header := by
  cases h with
  | intro _ hdigits hextensions =>
      rw [List.mem_append, List.mem_flatten, not_or]
      constructor
      · exact fun hmem => (isHexDigit_ne 13 (hdigits 13 hmem)).1 rfl
      · rintro ⟨e, he, hmem⟩
        exact (hextensions e he).no_cr hmem

/-- A list is cut before the first carriage return in one way. -/
theorem append_crlf_inj {a a' rest rest' : List UInt8} (ha : 13 ∉ a) (ha' : 13 ∉ a')
    (h : a ++ (crlf ++ rest) = a' ++ (crlf ++ rest')) : a = a' ∧ rest = rest' := by
  induction a generalizing a' with
  | nil =>
      cases a' with
      | nil => exact ⟨rfl, List.append_cancel_left h⟩
      | cons b a' => exact absurd ((List.cons.inj h).1 ▸ List.mem_cons_self) ha'
  | cons b a ih =>
      cases a' with
      | nil => exact absurd ((List.cons.inj h).1 ▸ List.mem_cons_self) ha
      | cons b' a' =>
          obtain ⟨hb, htail⟩ := List.cons.inj h
          have := ih (fun hmem => ha (List.mem_cons_of_mem _ hmem))
            (fun hmem => ha' (List.mem_cons_of_mem _ hmem)) htail
          exact ⟨by rw [hb, this.1], this.2⟩

theorem extensions_head {extensions : List (List UInt8)} (h : ∀ e ∈ extensions, Extension e)
    (b : UInt8) (hb : b ∈ extensions.flatten.head?) : b = 59 := by
  cases extensions with
  | nil => cases hb
  | cons e extensions =>
      cases h e List.mem_cons_self <;> simpa using hb.symm

/-- The digits of a header are those bytes at its front that are digits. -/
theorem takeWhile_header {digits : List UInt8} {extensions : List (List UInt8)}
    (hdigits : ∀ b ∈ digits, isHexDigit b = true) (h : ∀ e ∈ extensions, Extension e) :
    (digits ++ extensions.flatten).takeWhile isHexDigit = digits := by
  rw [List.takeWhile_append_of_pos hdigits]
  have hnil : extensions.flatten.takeWhile isHexDigit = [] := by
    cases hflat : extensions.flatten with
    | nil => rfl
    | cons b rest =>
        have hb := extensions_head h b (by rw [hflat]; rfl)
        rw [hb]
        rfl
  rw [hnil, List.append_nil]

theorem ChunkHeader.unique {header : List UInt8} {size size' : Nat} (h : ChunkHeader header size)
    (h' : ChunkHeader header size') : size' = size := by
  have hvalue {size : Nat} (h : ChunkHeader header size) :
      size = hexValue (header.takeWhile isHexDigit) := by
    cases h with
    | intro _ hdigits hextensions => rw [takeWhile_header hdigits hextensions]
  rw [hvalue h, hvalue h']

/-! ## Bodies after their first header -/

variable {first : Bool} {header stream data data' behind : List UInt8} {size : Nat}

/-- A body after a last chunk has its trailer. -/
theorem Body.of_last (hheader : ChunkHeader header 0)
    (h : Body first (separator first ++ (header ++ (crlf ++ stream))) data behind) :
    data = [] ∧ behind <:+ stream := by
  generalize hs : separator first ++ (header ++ (crlf ++ stream)) = s at h
  cases h with
  | last hheader' =>
      obtain ⟨-, rfl⟩ := append_crlf_inj hheader.no_cr hheader'.no_cr (List.append_cancel_left hs)
      exact ⟨rfl, (List.suffix_append _ _).trans (List.suffix_append _ _)⟩
  | chunk hheader' hdata =>
      obtain ⟨rfl, -⟩ := append_crlf_inj hheader.no_cr hheader'.no_cr (List.append_cancel_left hs)
      exact absurd (List.length_eq_zero_iff.mp (hheader.unique hheader')) hdata

/-- A body after a chunk has the data of the chunk, and goes on. -/
theorem Body.of_chunk (hheader : ChunkHeader header data.length) (hdata : data ≠ [])
    (h : Body first (separator first ++ (header ++ (crlf ++ (data ++ stream)))) data' behind) :
    ∃ rest, data' = data ++ rest ∧ Body false stream rest behind := by
  generalize hs : separator first ++ (header ++ (crlf ++ (data ++ stream))) = s at h
  cases h with
  | last hheader' =>
      obtain ⟨rfl, -⟩ := append_crlf_inj hheader.no_cr hheader'.no_cr (List.append_cancel_left hs)
      exact absurd (List.length_eq_zero_iff.mp (hheader'.unique hheader)) hdata
  | chunk hheader' _ hbody =>
      obtain ⟨rfl, hrest⟩ := append_crlf_inj hheader.no_cr hheader'.no_cr
        (List.append_cancel_left hs)
      obtain ⟨rfl, rfl⟩ := List.append_inj hrest (hheader'.unique hheader)
      exact ⟨_, rfl, hbody⟩

end TinyCLR.HTTP
