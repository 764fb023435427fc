import Mathlib
import TinyCLR.HeapBlock.BitStream

/-!
# Compressed integers

`WriteCompressedUnsigned` writes a number as one, two or four bytes, the number of all ones as one;
`ReadCompressedUnsigned` finds the length in the top bits of the first byte.
-/

namespace TinyCLR.Serialization

namespace BinaryFormatter

open TinyCLR.HeapBlock TinyCLR.HeapBlock.MemoryStream

/-- The value with its prefix, and the number of bits to write; `none` is out of range. -/
def compress (val : UInt32) : Option (UInt32 × Nat) :=
  if val = 0xFFFFFFFF then some (val, 8)
  else if val < 0x80 then some (val, 8)
  else if val < 0x3F00 then some (val ||| 0x8000, 16)
  else if val < 0x3F000000 then some (val ||| 0xC0000000, 32)
  else none

def writeCompressedUnsigned (C : Cache) (val : UInt32) (stream : MemoryStream) : Result Unit :=
  match compress val with
  | none => .error (.outOfRange, stream)
  | some (val, bits) => stream.writeBits C val.toNat bits

/-- The bits behind a first byte. -/
def extraBits (val : UInt32) : Nat :=
  if val &&& 0xC0 = 0x80 then 8 else if val &&& 0xC0 = 0xC0 then 24 else 0

def readCompressedUnsigned (stream : MemoryStream) : Option (Result UInt32) :=
  match stream.readBits 8 with
  | none => none
  | some (.error e) => some (.error e)
  | some (.ok (val, stream)) =>
      let val := UInt32.ofNat val
      if val = 0xFF then some (.ok (0xFFFFFFFF, stream))
      else
        let bits := extraBits val
        if bits = 0 then some (.ok (val, stream))
        else
          match stream.readBits bits with
          | none => none
          | some (.error e) => some (.error e)
          | some (.ok (extra, stream)) =>
              some (.ok (((val &&& ~~~0xC0) <<< UInt32.ofNat bits) ||| UInt32.ofNat extra, stream))

/-- The bits of a number. -/
def compressed (val : UInt32) : List Bool :=
  (compress val).elim [] fun code => Bits.ofNat code.2 code.1.toNat

theorem extraBits_ofNat : ∀ b < 256, extraBits (UInt32.ofNat b) =
    if b < 128 then 0 else if b < 192 then 8 else 24 := by
  decide +kernel

theorem and_not_prefix : ∀ b < 256, (UInt32.ofNat b &&& ~~~0xC0).toNat = b % 64 := by
  decide +kernel

/-- What the reader makes of the byte `b` and `n` bits behind it. -/
theorem join_bits {b n extra : Nat} (hb : b < 256) (hn : n ≤ 24) (hextra : extra < 2 ^ n) :
    (((UInt32.ofNat b &&& ~~~0xC0) <<< UInt32.ofNat n) ||| UInt32.ofNat extra).toNat =
      b % 64 * 2 ^ n + extra := by
  have hpow : 2 ^ n ≤ 2 ^ 24 := Nat.pow_le_pow_right (by decide) hn
  have hsmall : b % 64 * 2 ^ n < 2 ^ 32 := by
    calc b % 64 * 2 ^ n ≤ 63 * 2 ^ 24 := Nat.mul_le_mul (by omega) hpow
      _ < 2 ^ 32 := by decide
  have hshift : ((UInt32.ofNat b &&& ~~~0xC0) <<< UInt32.ofNat n).toNat = (b % 64) <<< n := by
    rw [UInt32.toNat_shiftLeft, and_not_prefix b hb,
      UInt32.toNat_ofNat_of_lt' (show n < 2 ^ 32 by omega),
      Nat.mod_eq_of_lt (show n < 32 by omega), Nat.shiftLeft_eq, Nat.mod_eq_of_lt hsmall]
  rw [UInt32.toNat_or, hshift, UInt32.toNat_ofNat_of_lt' (show extra < 2 ^ 32 by omega),
    ← Nat.shiftLeft_add_eq_or_of_lt hextra, Nat.shiftLeft_eq]

/-- The reader at a first byte with `n` bits behind it. -/
theorem read_of_remaining {source : MemoryStream} (hs : source.Valid) {b extra n : Nat}
    {left : List Bool} (hb : b < 255) (hn : n = extraBits (UInt32.ofNat b))
    (hextra : extra < 2 ^ n)
    (hremaining : source.remaining = Bits.ofNat 8 b ++ (Bits.ofNat n extra ++ left)) :
    ∃ source', readCompressedUnsigned source =
        some (.ok (if n = 0 then UInt32.ofNat b else UInt32.ofNat (b % 64 * 2 ^ n + extra),
          source')) ∧ source'.Valid ∧ source'.remaining = left := by
  have hle : n ≤ 24 := by
    rw [hn, extraBits_ofNat b (by omega)]
    split
    · decide
    · split <;> decide
  obtain ⟨s₁, hread, hvalid, hrest⟩ := (readBits_spec hs 8).1 (by simp [hremaining])
  rw [hremaining, List.take_left' (Bits.length_ofNat 8 b), Bits.toNat_ofNat,
    Nat.mod_eq_of_lt (show b < 2 ^ 8 by omega)] at hread
  rw [hremaining, List.drop_left' (Bits.length_ofNat 8 b)] at hrest
  have hne : UInt32.ofNat b ≠ 0xFF := by
    intro h
    have := congrArg UInt32.toNat h
    rw [UInt32.toNat_ofNat_of_lt' (show b < 2 ^ 32 by omega)] at this
    exact hb.ne this
  rw [readCompressedUnsigned, hread]
  dsimp only
  rw [if_neg hne, ← hn]
  by_cases hzero : n = 0
  · refine ⟨s₁, ?_, hvalid, ?_⟩
    · rw [if_pos hzero, if_pos hzero]
    · rw [hrest, hzero, Bits.ofNat_zero, List.nil_append]
  · obtain ⟨s₂, hread₂, hvalid₂, hrest₂⟩ := (readBits_spec hvalid n).1 (by simp [hrest])
    rw [hrest, List.take_left' (Bits.length_ofNat n extra), Bits.toNat_ofNat,
      Nat.mod_eq_of_lt hextra] at hread₂
    rw [hrest, List.drop_left' (Bits.length_ofNat n extra)] at hrest₂
    refine ⟨s₂, ?_, hvalid₂, hrest₂⟩
    rw [if_neg hzero, if_neg hzero, hread₂]
    dsimp only
    rw [← join_bits (by omega) hle hextra, UInt32.ofNat_toNat]

/-- The byte of all ones is the escape. -/
theorem read_escape {source : MemoryStream} (hs : source.Valid) {left : List Bool}
    (hremaining : source.remaining = Bits.ofNat 8 255 ++ left) :
    ∃ source', readCompressedUnsigned source = some (.ok (0xFFFFFFFF, source')) ∧
      source'.Valid ∧ source'.remaining = left := by
  obtain ⟨s₁, hread, hvalid, hrest⟩ := (readBits_spec hs 8).1 (by simp [hremaining])
  rw [hremaining, List.take_left' (Bits.length_ofNat 8 255), Bits.toNat_ofNat] at hread
  rw [hremaining, List.drop_left' (Bits.length_ofNat 8 255)] at hrest
  refine ⟨s₁, ?_, hvalid, hrest⟩
  rw [readCompressedUnsigned, hread]
  rfl

/-- A first byte other than the escape, and the bits behind it. -/
structure Form (val : UInt32) (b extra : Nat) : Prop where
  lt : b < 255
  extra_lt : extra < 2 ^ extraBits (UInt32.ofNat b)
  bits : compressed val = Bits.ofNat 8 b ++ Bits.ofNat (extraBits (UInt32.ofNat b)) extra
  value : (if extraBits (UInt32.ofNat b) = 0 then UInt32.ofNat b
    else UInt32.ofNat (b % 64 * 2 ^ extraBits (UInt32.ofNat b) + extra)) = val

theorem compressed_eq {val code : UInt32} {n : Nat} (h : compress val = some (code, 8 + n)) :
    compressed val = Bits.ofNat 8 (code.toNat / 2 ^ n) ++ Bits.ofNat n (code.toNat % 2 ^ n) := by
  have hlow : Bits.ofNat n code.toNat = Bits.ofNat n (code.toNat % 2 ^ n) := by
    apply Bits.ofNat_congr
    intro i hi
    rw [Nat.testBit_mod_two_pow, decide_eq_true hi, Bool.true_and]
  rw [compressed, h, Option.elim_some, Bits.ofNat_add, Nat.shiftRight_eq_div_pow, hlow]

theorem toNat_or_prefix {val : UInt32} {i k : Nat} (h : val.toNat < 2 ^ i)
    (hk : k * 2 ^ i < 2 ^ 32) :
    (val ||| UInt32.ofNat (k * 2 ^ i)).toNat = k * 2 ^ i + val.toNat := by
  rw [UInt32.toNat_or, UInt32.toNat_ofNat_of_lt' hk, Nat.or_comm, ← Nat.shiftLeft_eq,
    Nat.shiftLeft_add_eq_or_of_lt h]

/-- A number in one of the three ranges has a form of its own. -/
theorem exists_form {val : UInt32} (hrange : val < 0x3F000000) :
    ∃ b extra, Form val b extra := by
  have hval : val ≠ 0xFFFFFFFF := fun h => by
    rw [h] at hrange
    exact absurd hrange (by decide)
  have hrange' : val.toNat < 0x3F000000 := UInt32.lt_iff_toNat_lt.mp hrange
  by_cases h1 : val < 0x80
  · have hlt : val.toNat < 0x80 := UInt32.lt_iff_toNat_lt.mp h1
    have hcode : compress val = some (val, 8 + 0) := by
      rw [compress, if_neg hval, if_pos h1]
    have hextra : extraBits (UInt32.ofNat val.toNat) = 0 := by
      rw [extraBits_ofNat _ (by omega), if_pos hlt]
    refine ⟨val.toNat, 0, by omega, by positivity, ?_, ?_⟩
    · rw [compressed_eq hcode, hextra, pow_zero, Nat.div_one, Nat.mod_one]
    · rw [if_pos hextra, UInt32.ofNat_toNat]
  · have hge : 0x80 ≤ val.toNat := by
      rw [UInt32.lt_iff_toNat_lt, not_lt] at h1
      exact h1
    by_cases h2 : val < 0x3F00
    · have hlt : val.toNat < 0x3F00 := UInt32.lt_iff_toNat_lt.mp h2
      have hcode : compress val = some (val ||| 0x8000, 8 + 8) := by
        rw [compress, if_neg hval, if_neg h1, if_pos h2]
      have hor : (val ||| 0x8000).toNat = 0x8000 + val.toNat :=
        toNat_or_prefix (i := 15) (k := 1) (by omega) (by decide)
      have hextra : extraBits (UInt32.ofNat ((val ||| 0x8000).toNat / 2 ^ 8)) = 8 := by
        rw [extraBits_ofNat _ (by omega), if_neg (by omega), if_pos (by omega)]
      refine ⟨(val ||| 0x8000).toNat / 2 ^ 8, (val ||| 0x8000).toNat % 2 ^ 8, by omega, ?_, ?_, ?_⟩
      · rw [hextra]
        exact Nat.mod_lt _ (by decide)
      · rw [compressed_eq hcode, hextra]
      · have hjoin : (val ||| 0x8000).toNat / 2 ^ 8 % 64 * 2 ^ 8 + (val ||| 0x8000).toNat % 2 ^ 8 =
            val.toNat := by omega
        rw [hextra, if_neg (by decide), hjoin, UInt32.ofNat_toNat]
    · have hge2 : 0x3F00 ≤ val.toNat := by
        rw [UInt32.lt_iff_toNat_lt, not_lt] at h2
        exact h2
      have hcode : compress val = some (val ||| 0xC0000000, 8 + 24) := by
        rw [compress, if_neg hval, if_neg h1, if_neg h2, if_pos hrange]
      have hor : (val ||| 0xC0000000).toNat = 0xC0000000 + val.toNat :=
        toNat_or_prefix (i := 30) (k := 3) (by omega) (by decide)
      have hextra : extraBits (UInt32.ofNat ((val ||| 0xC0000000).toNat / 2 ^ 24)) = 24 := by
        rw [extraBits_ofNat _ (by omega), if_neg (by omega), if_neg (by omega)]
      refine ⟨(val ||| 0xC0000000).toNat / 2 ^ 24, (val ||| 0xC0000000).toNat % 2 ^ 24,
        by omega, ?_, ?_, ?_⟩
      · rw [hextra]
        exact Nat.mod_lt _ (by decide)
      · rw [compressed_eq hcode, hextra]
      · have hjoin : (val ||| 0xC0000000).toNat / 2 ^ 24 % 64 * 2 ^ 24 +
            (val ||| 0xC0000000).toNat % 2 ^ 24 = val.toNat := by omega
        rw [hextra, if_neg (by decide), hjoin, UInt32.ofNat_toNat]

theorem compress_eq_none_iff (val : UInt32) :
    compress val = none ↔ 0x3F000000 ≤ val ∧ val ≠ 0xFFFFFFFF := by
  rw [compress]
  split
  · simp_all
  · split
    · simp_all [UInt32.lt_iff_toNat_lt, UInt32.le_iff_toNat_le]
      omega
    · split
      · simp_all [UInt32.lt_iff_toNat_lt, UInt32.le_iff_toNat_le]
        omega
      · split
        · simp_all [UInt32.lt_iff_toNat_lt, UInt32.le_iff_toNat_le]
        · simp_all [UInt32.lt_iff_toNat_lt, UInt32.le_iff_toNat_le]

theorem compressed_escape : compressed 0xFFFFFFFF = Bits.ofNat 8 255 := by decide

/-- The reader takes exactly the bits of the number. -/
theorem read_compressed {val : UInt32} (h : compress val ≠ none) {source : MemoryStream}
    (hs : source.Valid) {left : List Bool}
    (hremaining : source.remaining = compressed val ++ left) :
    ∃ source', readCompressedUnsigned source = some (.ok (val, source')) ∧
      source'.Valid ∧ source'.remaining = left := by
  rw [Ne, compress_eq_none_iff, not_and, not_not] at h
  by_cases hescape : val = 0xFFFFFFFF
  · subst hescape
    rw [compressed_escape] at hremaining
    exact read_escape hs hremaining
  · obtain ⟨b, extra, hform⟩ := exists_form (UInt32.not_le.mp fun hle => hescape (h hle))
    rw [hform.bits, List.append_assoc] at hremaining
    rw [← hform.value]
    exact read_of_remaining hs hform.lt rfl hform.extra_lt hremaining

theorem compress_bits {val code : UInt32} {bits : Nat} (h : compress val = some (code, bits)) :
    bits = 8 ∨ bits = 16 ∨ bits = 32 := by
  rw [compress] at h
  split at h
  · simp_all
  · split at h
    · simp_all
    · split at h
      · simp_all
      · split at h
        · simp_all
        · cases h

theorem byte_injective {b b' : Nat} (hb : b < 256) (hb' : b' < 256)
    (h : Bits.ofNat 8 b = Bits.ofNat 8 b') : b = b' := by
  have := congrArg Bits.toNat h
  rw [Bits.toNat_ofNat, Bits.toNat_ofNat] at this
  omega

/-- No number has bits with which those of another begin. -/
theorem compressed_prefix {val val' : UInt32} (h : compress val ≠ none) (h' : compress val' ≠ none)
    {left left' : List Bool} (hsame : compressed val ++ left = compressed val' ++ left') :
    val = val' := by
  rw [Ne, compress_eq_none_iff, not_and, not_not] at h h'
  have hform : val ≠ 0xFFFFFFFF → ∃ b extra, Form val b extra := fun hne =>
    exists_form (UInt32.not_le.mp fun hle => hne (h hle))
  have hform' : val' ≠ 0xFFFFFFFF → ∃ b extra, Form val' b extra := fun hne =>
    exists_form (UInt32.not_le.mp fun hle => hne (h' hle))
  by_cases hescape : val = 0xFFFFFFFF
  · by_cases hescape' : val' = 0xFFFFFFFF
    · rw [hescape, hescape']
    · obtain ⟨b, extra, hf⟩ := hform' hescape'
      rw [hescape, compressed_escape, hf.bits, List.append_assoc] at hsame
      have hbyte := (List.append_inj hsame (by simp)).1
      have := hf.lt
      have := byte_injective (by decide) (by omega) hbyte
      omega
  · obtain ⟨b, extra, hf⟩ := hform hescape
    have hlt := hf.lt
    by_cases hescape' : val' = 0xFFFFFFFF
    · rw [hescape', compressed_escape, hf.bits, List.append_assoc] at hsame
      have hbyte := (List.append_inj hsame (by simp)).1
      have := byte_injective (by omega) (by decide) hbyte
      omega
    · obtain ⟨b', extra', hf'⟩ := hform' hescape'
      have hlt' := hf'.lt
      rw [hf.bits, hf'.bits, List.append_assoc, List.append_assoc] at hsame
      obtain ⟨hbyte, hrest⟩ := List.append_inj hsame (by simp)
      have hb := byte_injective (by omega) (by omega) hbyte
      subst hb
      have hextra := congrArg Bits.toNat (List.append_inj hrest (by simp)).1
      rw [Bits.toNat_ofNat, Bits.toNat_ofNat, Nat.mod_eq_of_lt hf.extra_lt,
        Nat.mod_eq_of_lt hf'.extra_lt] at hextra
      rw [← hf.value, ← hf'.value, hextra]

/-- The bits are emitted, and read back with any bits behind them. -/
def RoundTripsCompressed (val : UInt32) : Prop :=
  ((compressed val).length = 8 ∨ (compressed val).length = 16 ∨ (compressed val).length = 32) ∧
  (∀ (C : Cache) (stream : MemoryStream), (∀ n, C.room n = true) →
    ∃ stream', writeCompressedUnsigned C val stream = .ok ((), stream')) ∧
  (∀ (C : Cache) (stream stream' : MemoryStream) (bits : List Bool), Written stream bits →
    stream.avail < 8 → writeCompressedUnsigned C val stream = .ok ((), stream') →
    Written stream' (bits ++ compressed val) ∧ stream'.avail < 8) ∧
  ∀ (source : MemoryStream) (left : List Bool), source.Valid →
    source.remaining = compressed val ++ left →
    ∃ source', readCompressedUnsigned source = some (.ok (val, source')) ∧
      source'.Valid ∧ source'.remaining = left

theorem roundTripsCompressed {val : UInt32} (h : compress val ≠ none) :
    RoundTripsCompressed val := by
  obtain ⟨⟨code, bits⟩, hcode⟩ := Option.ne_none_iff_exists'.mp h
  have hbits := compress_bits hcode
  refine ⟨?_, ?_, ?_, fun source left hs => read_compressed h hs⟩
  · rw [compressed, hcode, Option.elim_some, Bits.length_ofNat]
    exact hbits
  · intro C stream hroom
    rw [writeCompressedUnsigned, hcode]
    dsimp only
    rw [writeBits, if_neg (by omega)]
    exact writeLoop_ok hroom stream _ _
  · intro C stream stream' written hs hfull hwrite
    rw [writeCompressedUnsigned, hcode] at hwrite
    have hdone := writeBits_spec (by omega) hs hfull hwrite
    rw [compressed, hcode]
    exact hdone

/-- A number is out of range, or it is emitted and read back; no two numbers collide. -/
theorem compressedUnsigned_round_trip :
    (∀ val, (∀ (C : Cache) (stream : MemoryStream),
        writeCompressedUnsigned C val stream = .error (.outOfRange, stream)) ∧
        0x3F000000 ≤ val ∧ val ≠ 0xFFFFFFFF ∨ RoundTripsCompressed val) ∧
      ∀ val val' : UInt32, RoundTripsCompressed val → RoundTripsCompressed val' →
        ∀ left left', compressed val ++ left = compressed val' ++ left' → val = val' := by
  have hsome : ∀ val, RoundTripsCompressed val → compress val ≠ none := by
    intro val h hnone
    have hlength := h.1
    rw [compressed, hnone, Option.elim_none, List.length_nil] at hlength
    omega
  constructor
  · intro val
    by_cases hnone : compress val = none
    · refine Or.inl ⟨fun C stream => ?_, (compress_eq_none_iff val).mp hnone⟩
      rw [writeCompressedUnsigned, hnone]
    · exact Or.inr (roundTripsCompressed hnone)
  · exact fun val val' h h' left left' => compressed_prefix (hsome val h) (hsome val' h')

end BinaryFormatter

end TinyCLR.Serialization
