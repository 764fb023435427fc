import TinyCLR.HeapBlock.BitStream
import TinyCLR.Library.Word64

/-!
# The binary formatter

How numbers are written: `EmitValue` takes a bias off, divides by a scale and writes the lowest bits
of what is left, if it is not too large for them; `ReadValue` goes the other way.
-/

namespace TinyCLR.Serialization

namespace BinaryFormatter

open Word64 TinyCLR.HeapBlock TinyCLR.HeapBlock.MemoryStream

/-- A type of numbers: what `GetSizeOfType` and `GetSignOfType` tell of it. Dates have 64 bits
without a sign, and spans of time have a sign. -/
structure NumericType where
  bits : Nat
  fSigned : Bool
  pos : 0 < bits
  le : bits ≤ 64

/-- `SerializationHintsAttribute`, as far as it is about numbers. -/
structure Hints where
  bitPacked : Nat
  rangeBias : BitVec 64
  scale : BitVec 64
  le : bitPacked ≤ 64

/-- How many bits are written. -/
def fieldBits (type : NumericType) (hints : Hints) : Nat :=
  if hints.bitPacked ≠ 0 then hints.bitPacked else type.bits

def scaleDown (fSigned : Bool) (scale val : BitVec 64) : BitVec 64 :=
  if scale ≠ 0 then if fSigned then val.sdiv scale else val / scale else val

/-- The range check; 64 bits are enough for everything. -/
def Exceeds (fSigned : Bool) (bits : Nat) (val : BitVec 64) : Prop :=
  bits ≠ 64 ∧
    if fSigned = true then
      let maxVal : Int := 2 ^ (bits - 1) - 1
      val.toInt < -maxVal - 1 ∨ maxVal < val.toInt
    else
      let maxVal : Nat := 2 ^ bits - 1
      maxVal < val.toNat

instance (fSigned : Bool) (bits : Nat) (val : BitVec 64) : Decidable (Exceeds fSigned bits val) := by
  unfold Exceeds
  infer_instance

/-- What of a value is written; `none` where it does not fit. -/
def field (type : NumericType) (hints : Hints) (val : BitVec 64) : Option (BitVec 64) :=
  let val := extend type.fSigned type.bits val
  let val := scaleDown type.fSigned hints.scale (val - hints.rangeBias)
  if Exceeds type.fSigned (fieldBits type hints) val then none else some val

/-- `CLR_E_SERIALIZATION_VIOLATION`, or the failure of the stream. -/
inductive EmitError where
  | serializationViolation
  | stream (e : HResult)

/-- `EmitValue` of a number. -/
def emitValue (C : Cache) (type : NumericType) (hints : Hints) (val : BitVec 64)
    (stream : MemoryStream) : Except EmitError MemoryStream :=
  match field type hints val with
  | none => .error .serializationViolation
  | some val =>
      match stream.writeBits C val.toNat (fieldBits type hints) with
      | .error (e, _) => .error (.stream e)
      | .ok (_, stream) => .ok stream

/-- What `ReadValue` makes of the bits that it has read. -/
def restore (type : NumericType) (hints : Hints) (val : BitVec 64) : BitVec 64 :=
  let val := extend type.fSigned (fieldBits type hints) val
  let val := if hints.scale ≠ 0 then val * hints.scale else val
  val + hints.rangeBias

/-- `ReadValue` of a number. -/
def readValue (type : NumericType) (hints : Hints) (stream : MemoryStream) :
    Option (Result (BitVec 64)) :=
  (stream.readBits (fieldBits type hints)).map fun r =>
    match r with
    | .error e => .error e
    | .ok (val, stream) => .ok (restore type hints (BitVec.ofNat 64 val), stream)

/-! ## Numbers -/

/-- The number that is written. -/
def value (type : NumericType) (val : BitVec 64) : Int :=
  num type.fSigned (extend type.fSigned type.bits val)

/-- The scale as it is meant, and as a number of the sign of the type. -/
def Hints.step (hints : Hints) : Int := if hints.scale = 0 then 1 else hints.scale.toNat

def Hints.divisor (hints : Hints) (fSigned : Bool) : Int :=
  if hints.scale = 0 then 1 else num fSigned hints.scale

/-- Division as the type has it. -/
def quotient (fSigned : Bool) (x d : Int) : Int := if fSigned then x.tdiv d else x / d

def remainder (fSigned : Bool) (x d : Int) : Int := if fSigned then x.tmod d else x % d

/-- The number without its bias. -/
def biased (type : NumericType) (hints : Hints) (val : BitVec 64) : Int :=
  value type val - hints.rangeBias.toInt

/-- The number without its bias, as 64 bits hold it. -/
def wrapped (type : NumericType) (hints : Hints) (val : BitVec 64) : Int :=
  reduce type.fSigned (biased type hints val)

theorem fieldBits_pos (type : NumericType) (hints : Hints) : 0 < fieldBits type hints := by
  rw [fieldBits]
  split
  · exact Nat.pos_of_ne_zero ‹_›
  · exact type.pos

theorem fieldBits_le (type : NumericType) (hints : Hints) : fieldBits type hints ≤ 64 := by
  rw [fieldBits]
  split
  · exact hints.le
  · exact type.le

theorem quotient_add_remainder (fSigned : Bool) (x d : Int) :
    quotient fSigned x d * d + remainder fSigned x d = x := by
  cases fSigned with
  | true => exact Int.tdiv_mul_add_tmod x d
  | false => exact Int.ediv_mul_add_emod x d

theorem num_scaleDown (fSigned : Bool) (hints : Hints) (val : BitVec 64) :
    num fSigned (scaleDown fSigned hints.scale val) =
      reduce fSigned (quotient fSigned (num fSigned val) (hints.divisor fSigned)) := by
  rw [scaleDown, Hints.divisor]
  by_cases hscale : hints.scale = 0
  · rw [if_neg (not_not.mpr hscale), if_pos hscale]
    have hone : quotient fSigned (num fSigned val) 1 = num fSigned val := by
      cases fSigned with
      | true => exact Int.tdiv_one _
      | false => exact Int.ediv_one _
    rw [hone, reduce_of_inWidth (inWidth_num val)]
  · rw [if_pos hscale, if_neg hscale]
    cases fSigned with
    | true => exact BitVec.toInt_sdiv val hints.scale
    | false =>
        have hquotient : quotient false (num false val) (num false hints.scale) =
            num false (val / hints.scale) := by
          rw [num_false, num_false, num_false, BitVec.toNat_udiv, Int.natCast_ediv]
          rfl
        rw [hquotient, reduce_of_inWidth (inWidth_num _)]
        rfl

theorem not_exceeds_iff {fSigned : Bool} {bits : Nat} {val : BitVec 64} :
    ¬Exceeds fSigned bits val ↔ InWidth fSigned bits (num fSigned val) := by
  by_cases hbits : bits = 64
  · subst hbits
    exact iff_of_true (fun h => h.1 rfl) (inWidth_num val)
  · cases fSigned with
    | true =>
        simp only [Exceeds, InWidth, num_true, if_true]
        omega
    | false =>
        have hpos : 0 < 2 ^ bits := by positivity
        have hcast : ((2 ^ bits : Nat) : Int) = 2 ^ bits := by push_cast; rfl
        simp only [Exceeds, InWidth, num_false, Bool.false_eq_true, if_false, ← hcast]
        omega

/-- The number that goes into the field, if it fits. -/
def fieldNumber (type : NumericType) (hints : Hints) (val : BitVec 64) : Int :=
  reduce type.fSigned
    (quotient type.fSigned (wrapped type hints val) (hints.divisor type.fSigned))

theorem num_field (type : NumericType) (hints : Hints) (val : BitVec 64) :
    num type.fSigned (scaleDown type.fSigned hints.scale
      (extend type.fSigned type.bits val - hints.rangeBias)) = fieldNumber type hints val := by
  rw [num_scaleDown, num_sub true]
  rfl

theorem field_eq (type : NumericType) (hints : Hints) (val : BitVec 64) :
    field type hints val =
      if InWidth type.fSigned (fieldBits type hints) (fieldNumber type hints val) then
        some (BitVec.ofInt 64 (fieldNumber type hints val))
      else none := by
  rw [field, ← num_field, ofInt_num]
  by_cases h : Exceeds type.fSigned (fieldBits type hints) (scaleDown type.fSigned hints.scale
      (extend type.fSigned type.bits val - hints.rangeBias))
  · rw [if_pos h, if_neg (mt not_exceeds_iff.mpr (not_not.mpr h))]
  · rw [if_neg h, if_pos (not_exceeds_iff.mp h)]

theorem restore_ofInt {type : NumericType} {hints : Hints} {x : Int}
    (h : InWidth type.fSigned (fieldBits type hints) x) :
    restore type hints
      (BitVec.ofNat 64 ((BitVec.ofInt 64 x).toNat % 2 ^ fieldBits type hints)) =
      BitVec.ofInt 64 (x * hints.divisor type.fSigned + hints.rangeBias.toInt) := by
  rw [restore, extend_field (fieldBits_pos type hints) (fieldBits_le type hints) h, Hints.divisor,
    BitVec.ofInt_add, BitVec.ofInt_mul, BitVec.ofInt_toInt]
  by_cases hscale : hints.scale = 0
  · rw [if_neg (not_not.mpr hscale), if_pos hscale]
    simp
  · rw [if_pos hscale, if_neg hscale, ofInt_num]

/-- What the division leaves. -/
def rest (type : NumericType) (hints : Hints) (val : BitVec 64) : Int :=
  remainder type.fSigned (wrapped type hints val) (hints.divisor type.fSigned)

/-- What is read back differs from what was written by the remainder. -/
theorem num_restore {type : NumericType} {hints : Hints} {val : BitVec 64}
    (h : InWidth type.fSigned (fieldBits type hints) (fieldNumber type hints val)) :
    num type.fSigned (restore type hints (BitVec.ofNat 64
      ((BitVec.ofInt 64 (fieldNumber type hints val)).toNat % 2 ^ fieldBits type hints))) =
      reduce type.fSigned (value type val - rest type hints val) := by
  rw [restore_ofInt h, num_ofInt]
  apply reduce_congr
  have hquotient := @dvd_reduce_sub type.fSigned
    (quotient type.fSigned (wrapped type hints val) (hints.divisor type.fSigned))
  have hwrapped := @dvd_reduce_sub type.fSigned (biased type hints val)
  have hsplit := quotient_add_remainder type.fSigned (wrapped type hints val)
    (hints.divisor type.fSigned)
  have hdifference : fieldNumber type hints val * hints.divisor type.fSigned +
      hints.rangeBias.toInt - (value type val - rest type hints val) =
      (fieldNumber type hints val - quotient type.fSigned (wrapped type hints val)
        (hints.divisor type.fSigned)) * hints.divisor type.fSigned +
      (wrapped type hints val - biased type hints val) := by
    rw [rest, biased]
    linarith
  rw [hdifference]
  exact dvd_add (Dvd.dvd.mul_right hquotient _) hwrapped

/-! ## The remainder -/

theorem Hints.step_pos (hints : Hints) : 0 < hints.step := by
  rw [Hints.step]
  split
  · decide
  · have hne : hints.scale.toNat ≠ 0 := by
      intro h
      exact ‹¬hints.scale = 0› (BitVec.eq_of_toNat_eq h)
    omega

theorem Hints.step_lt (hints : Hints) : hints.step < 2 ^ 64 := by
  rw [Hints.step]
  split
  · decide
  · exact Int.ofNat_lt.mpr hints.scale.isLt

theorem Hints.divisor_false (hints : Hints) : hints.divisor false = hints.step := rfl

theorem Hints.divisor_true (hints : Hints) : hints.divisor true = hints.step.bmod (2 ^ 64) := by
  rw [Hints.divisor, Hints.step]
  split
  · rfl
  · exact BitVec.toInt_eq_toNat_bmod hints.scale

/-- A remainder is smaller than the scale, and than what is left of the whole range. -/
theorem abs_tmod_bmod {x step : Int} (hpos : 0 < step) (hlt : step < 2 ^ 64) :
    |x.tmod (step.bmod (2 ^ 64))| < step ∧ |x.tmod (step.bmod (2 ^ 64))| + step ≤ 2 ^ 64 := by
  have habs : |x.tmod (step.bmod (2 ^ 64))| = ((x.natAbs % (step.bmod (2 ^ 64)).natAbs : Nat) : Int) := by
    rw [Int.abs_eq_natAbs, Int.natAbs_tmod]
  by_cases hhalf : step < 2 ^ 63
  · have hsame : step.bmod (2 ^ 64) = step := Int.bmod_eq_of_le (by omega) (by omega)
    rw [hsame] at habs ⊢
    have hless := Nat.mod_lt x.natAbs (show 0 < step.natAbs by omega)
    omega
  · have hless := Nat.mod_lt x.natAbs (show 0 < (step.bmod (2 ^ 64)).natAbs by
      rw [Int.bmod_def]
      split <;> omega)
    have hwrap : (step.bmod (2 ^ 64)).natAbs = (2 ^ 64 - step).toNat := by
      rw [Int.bmod_def]
      split <;> omega
    omega

theorem rest_unsigned {type : NumericType} (h : type.fSigned = false) (hints : Hints)
    (val : BitVec 64) : 0 ≤ rest type hints val ∧ rest type hints val < hints.step := by
  rw [rest, h, hints.divisor_false]
  exact ⟨Int.emod_nonneg _ hints.step_pos.ne', Int.emod_lt_of_pos _ hints.step_pos⟩

theorem rest_signed {type : NumericType} (h : type.fSigned = true) (hints : Hints)
    (val : BitVec 64) : |rest type hints val| < hints.step ∧
      |rest type hints val| + hints.step ≤ 2 ^ 64 := by
  rw [rest, h, hints.divisor_true]
  exact abs_tmod_bmod hints.step_pos hints.step_lt

/-- What is read back stays close to what was written: it does not wrap around, or so far that it
comes close again. -/
def Stays (type : NumericType) (hints : Hints) (val : BitVec 64) : Prop :=
  InWidth type.fSigned 64 (value type val - rest type hints val) ∨
    type.fSigned = false ∧ 2 ^ 64 < rest type hints val + hints.step

theorem close_iff (type : NumericType) (hints : Hints) (val : BitVec 64) :
    |value type val - reduce type.fSigned (value type val - rest type hints val)| < hints.step ↔
      Stays type hints val := by
  have hvalue := @inWidth_num type.fSigned (extend type.fSigned type.bits val)
  have hreduced := @inWidth_reduce type.fSigned (value type val - rest type hints val)
  obtain ⟨k, hk⟩ := @dvd_reduce_sub type.fSigned (value type val - rest type hints val)
  change InWidth type.fSigned 64 (value type val) at hvalue
  rw [Stays]
  by_cases hin : InWidth type.fSigned 64 (value type val - rest type hints val)
  · rw [reduce_of_inWidth hin, sub_sub_cancel]
    apply iff_of_true
    · cases hsigned : type.fSigned with
      | true => exact (rest_signed hsigned hints val).1
      | false =>
          obtain ⟨hnonneg, hlt⟩ := rest_unsigned hsigned hints val
          rwa [abs_of_nonneg hnonneg]
    · exact .inl hin
  · generalize reduce type.fSigned (value type val - rest type hints val) = reduced
      at hreduced hk ⊢
    have hk0 : k ≠ 0 := by
      rintro rfl
      rw [mul_zero, sub_eq_zero] at hk
      exact hin (hk ▸ hreduced)
    rw [or_iff_right hin]
    cases hsigned : type.fSigned with
    | true =>
        obtain ⟨-, hsum⟩ := rest_signed hsigned hints val
        have hfar : ¬|value type val - reduced| < hints.step := by
          have hstep := hints.step_lt
          rcases abs_cases (rest type hints val) with ⟨h, hsign⟩ | ⟨h, hsign⟩ <;>
            rcases abs_cases (value type val - reduced) with ⟨h', hsign'⟩ | ⟨h', hsign'⟩ <;> omega
        exact iff_of_false hfar fun h => Bool.noConfusion h.1
    | false =>
        obtain ⟨hnonneg, hlt⟩ := rest_unsigned hsigned hints val
        rw [hsigned] at hvalue hreduced hin
        rw [inWidth_unsigned] at hvalue hreduced hin
        have hstep := hints.step_lt
        have hone : k = 1 := by omega
        rw [abs_of_neg (by omega), and_iff_right rfl]
        omega

/-! ## Values through a stream -/

/-- The biased and scaled number is one that the field can hold. -/
def Fits (type : NumericType) (hints : Hints) (val : BitVec 64) : Prop :=
  InWidth type.fSigned (fieldBits type hints)
    (quotient type.fSigned (biased type hints val) hints.step)

/-- The value is refused. -/
def Refused (type : NumericType) (hints : Hints) (val : BitVec 64) : Prop :=
  ¬InWidth type.fSigned (fieldBits type hints) (fieldNumber type hints val)

theorem emitValue_refused {C : Cache} {type : NumericType} {hints : Hints} {val : BitVec 64}
    (h : Refused type hints val) (stream : MemoryStream) :
    emitValue C type hints val stream = .error .serializationViolation := by
  rw [emitValue, field_eq, if_neg h]

theorem emitValue_fails_iff {C : Cache} {type : NumericType} {hints : Hints} {val : BitVec 64}
    {stream : MemoryStream} :
    emitValue C type hints val stream = .error .serializationViolation ↔
      Refused type hints val := by
  constructor
  · intro h
    by_contra hnot
    rw [emitValue, field_eq, if_pos (not_not.mp hnot)] at h
    simp only at h
    split at h <;> cases h
  · exact fun h => emitValue_refused h stream

/-- What is read of the bits that a value was written as. -/
def back (type : NumericType) (hints : Hints) (val : BitVec 64) : BitVec 64 :=
  restore type hints (BitVec.ofNat 64
    ((BitVec.ofInt 64 (fieldNumber type hints val)).toNat % 2 ^ fieldBits type hints))

/-- The bits that a value is written as. -/
def payload (type : NumericType) (hints : Hints) (val : BitVec 64) : List Bool :=
  Bits.ofNat (fieldBits type hints) (BitVec.ofInt 64 (fieldNumber type hints val)).toNat

theorem emitValue_spec {C : Cache} {type : NumericType} {hints : Hints} {val : BitVec 64}
    {stream stream' : MemoryStream} {bits : List Bool} (hs : Written stream bits)
    (hfull : stream.avail < 8) (h : emitValue C type hints val stream = .ok stream') :
    Written stream' (bits ++ payload type hints val) ∧ stream'.avail < 8 := by
  rw [emitValue, field_eq] at h
  split at h
  · cases h
  · next w hw =>
      obtain ⟨-, hw⟩ := (Option.ite_none_right_eq_some).mp hw
      cases hw
      split at h
      · cases h
      · next hwrite =>
          cases h
          exact writeBits_spec (fieldBits_le type hints) hs hfull hwrite

theorem readValue_spec {type : NumericType} {hints : Hints} {val : BitVec 64}
    {stream : MemoryStream} (hs : stream.Valid) {bits : List Bool}
    (hremaining : stream.remaining = payload type hints val ++ bits) :
    ∃ stream', readValue type hints stream = some (.ok (back type hints val, stream')) ∧
      stream'.Valid ∧ stream'.remaining = bits := by
  have hlength : (payload type hints val).length = fieldBits type hints := Bits.length_ofNat _ _
  obtain ⟨stream', hread, hvalid, hrest⟩ := (readBits_spec hs (fieldBits type hints)).1 (by
    rw [hremaining, List.length_append, hlength]
    omega)
  rw [hremaining, List.take_append_of_le_length hlength.ge, List.take_of_length_le hlength.le,
    payload, Bits.toNat_ofNat] at hread
  refine ⟨stream', ?_, hvalid, ?_⟩
  · rw [readValue, hread]
    rfl
  · rw [hrest, hremaining, List.drop_left' hlength]

/-- With room in the cache, every value that is not refused is written. -/
theorem emitValue_ok {C : Cache} (hroom : ∀ n, C.room n = true) {type : NumericType} {hints : Hints}
    {val : BitVec 64} (h : ¬Refused type hints val) (stream : MemoryStream) :
    ∃ stream', emitValue C type hints val stream = .ok stream' := by
  obtain ⟨stream', hwrite⟩ := writeAll_ok hroom stream
    [.bits (UInt64.ofBitVec (BitVec.ofInt 64 (fieldNumber type hints val)))
      (fieldBits type hints) ⟨fieldBits_pos type hints, fieldBits_le type hints⟩]
  refine ⟨stream', ?_⟩
  rw [writeAll, write] at hwrite
  rw [emitValue, field_eq, if_pos (not_not.mp h)]
  simp only at hwrite ⊢
  split at hwrite
  · cases hwrite
  · next s hs =>
      cases hwrite
      change stream.writeBits C (BitVec.ofInt 64 (fieldNumber type hints val)).toNat
        (fieldBits type hints) = _ at hs
      rw [hs]

/-! ## The claims of a round trip -/

/-- A value that is written is read back up to a difference smaller than the scale, and exactly
where its distance from the bias is a multiple of the scale. -/
def RoundTrips (type : NumericType) (hints : Hints) (val : BitVec 64) : Prop :=
  ∀ (C : Cache) (stream stream' : MemoryStream) (bits : List Bool), Written stream bits →
    stream.avail < 8 → emitValue C type hints val stream = .ok stream' →
    ∃ emitted, Written stream' (bits ++ emitted) ∧ stream'.avail < 8 ∧
      ∀ (source : MemoryStream) (left : List Bool), source.Valid →
        source.remaining = emitted ++ left →
        ∃ val' source', readValue type hints source = some (.ok (val', source')) ∧
          source'.Valid ∧ source'.remaining = left ∧
          |value type val - num type.fSigned val'| < hints.step ∧
          (hints.step ∣ biased type hints val → num type.fSigned val' = value type val)

/-- A number that does not fit is refused. -/
def RefusesMisfits (type : NumericType) (hints : Hints) (val : BitVec 64) : Prop :=
  ¬Fits type hints val → ∀ (C : Cache) (stream : MemoryStream),
    emitValue C type hints val stream = .error .serializationViolation

/-- The value is refused, or it fits and taking the bias off does no harm: what is read back stays
close, and multiples of the scale are still multiples of it. -/
def Regular (type : NumericType) (hints : Hints) (val : BitVec 64) : Prop :=
  Refused type hints val ∨
    Fits type hints val ∧ Stays type hints val ∧
      (hints.step ∣ biased type hints val → rest type hints val = 0)

theorem num_back {type : NumericType} {hints : Hints} {val : BitVec 64}
    (h : ¬Refused type hints val) : num type.fSigned (back type hints val) =
      reduce type.fSigned (value type val - rest type hints val) := num_restore (not_not.mp h)

/-- The value itself is read back where nothing is left over. -/
theorem back_eq_iff {type : NumericType} {hints : Hints} {val : BitVec 64}
    (h : ¬Refused type hints val) : num type.fSigned (back type hints val) = value type val ↔
      rest type hints val = 0 := by
  have hvalue := @inWidth_num type.fSigned (extend type.fSigned type.bits val)
  change InWidth type.fSigned 64 (value type val) at hvalue
  rw [num_back h]
  constructor
  · intro hsame
    obtain ⟨k, hk⟩ := @dvd_reduce_sub type.fSigned (value type val - rest type hints val)
    rw [hsame, sub_sub_cancel] at hk
    have hstep := hints.step_lt
    have hpos := hints.step_pos
    cases hsigned : type.fSigned with
    | true =>
        obtain ⟨hlt, -⟩ := rest_signed hsigned hints val
        rcases abs_cases (rest type hints val) with ⟨h, hsign⟩ | ⟨h, hsign⟩ <;> omega
    | false =>
        obtain ⟨hnonneg, hlt⟩ := rest_unsigned hsigned hints val
        omega
  · intro hzero
    rw [hzero, sub_zero, reduce_of_inWidth hvalue]

theorem refused_unsigned_iff {type : NumericType} (hsigned : type.fSigned = false) {hints : Hints}
    {val : BitVec 64} (h : InWidth type.fSigned 64 (biased type hints val)) :
    Refused type hints val ↔ ¬Fits type hints val := by
  rw [Refused, Fits, fieldNumber, wrapped, reduce_of_inWidth h]
  rw [hsigned] at h ⊢
  have hle : biased type hints val / hints.step ≤ biased type hints val :=
    Int.ediv_le_self _ h.1
  have hquotient : InWidth false 64 (quotient false (biased type hints val) hints.step) :=
    ⟨Int.ediv_nonneg h.1 hints.step_pos.le, lt_of_le_of_lt hle h.2⟩
  rw [hints.divisor_false, reduce_of_inWidth hquotient]

/-- A quotient by a positive number is not longer. -/
theorem inWidth_tdiv {x d : Int} (h : InWidth true 64 x) (hpos : 0 < d) :
    InWidth true 64 (x.tdiv d) := by
  obtain ⟨hlow, hhigh⟩ := h
  have habs := Int.natAbs_tdiv_le_natAbs x d
  rcases le_or_gt 0 x with hx | hx
  · have hnonneg := Int.tdiv_nonneg hx hpos.le
    constructor <;> omega
  · have hnonpos : x.tdiv d ≤ 0 := by
      have hneg := Int.tdiv_nonneg (neg_nonneg.mpr hx.le) hpos.le
      rw [Int.neg_tdiv] at hneg
      omega
    constructor <;> omega

/-- By the largest scales a number of 64 bits is divided to nothing, or to minus one. -/
theorem large_step {x d : Int} (h : InWidth true 64 x) (hd : 2 ^ 63 ≤ d) :
    (x = -2 ^ 63 ∧ d = 2 ^ 63) ∨ x.natAbs < d.natAbs := by
  obtain ⟨hlow, hhigh⟩ := h
  omega

theorem fits_signed {type : NumericType} (hsigned : type.fSigned = true) {hints : Hints}
    {val : BitVec 64} (h : InWidth type.fSigned 64 (biased type hints val))
    (hrefused : ¬Refused type hints val) : Fits type hints val := by
  rw [Refused, not_not, fieldNumber, wrapped, reduce_of_inWidth h, hsigned, hints.divisor_true]
    at hrefused
  rw [Fits]
  rw [hsigned] at h ⊢
  have hpos := hints.step_pos
  by_cases hhalf : hints.step < 2 ^ 63
  · have hsame : hints.step.bmod (2 ^ 64) = hints.step := Int.bmod_eq_of_le (by omega) (by omega)
    have hquotient : InWidth true 64 (quotient true (biased type hints val) hints.step) :=
      inWidth_tdiv h hpos
    rw [hsame, reduce_of_inWidth hquotient] at hrefused
    exact hrefused
  · have hunit : (0 : Int) < 2 ^ (fieldBits type hints - 1) := by positivity
    rcases large_step h (not_lt.mp hhalf) with ⟨hx, hd⟩ | hless
    · have hminus : quotient true (biased type hints val) hints.step = -1 := by
        rw [hx, hd]
        decide
      rw [hminus]
      exact ⟨by omega, by omega⟩
    · have hzero : quotient true (biased type hints val) hints.step = 0 := by
        apply Int.natAbs_eq_zero.mp
        show ((biased type hints val).tdiv hints.step).natAbs = 0
        rw [Int.natAbs_tdiv]
        exact Nat.div_eq_of_lt hless
      rw [hzero]
      exact ⟨by omega, hunit⟩

/-- A remainder lies between zero and the number. -/
theorem tmod_between (x d : Int) : (0 ≤ x → 0 ≤ x.tmod d ∧ x.tmod d ≤ x) ∧
    (x ≤ 0 → x ≤ x.tmod d ∧ x.tmod d ≤ 0) := by
  have habs : (x.tmod d).natAbs ≤ x.natAbs := by
    rw [Int.natAbs_tmod]
    exact Nat.mod_le _ _
  constructor
  · intro hx
    have hnonneg := Int.tmod_nonneg d hx
    omega
  · intro hx
    have hnonpos : x.tmod d ≤ 0 := by
      have h := Int.tmod_nonneg d (neg_nonneg.mpr hx)
      rw [Int.neg_tmod] at h
      omega
    omega

/-- A value whose distance from the bias is itself a number of 64 bits of its sign is regular,
unless it is an unsigned one that would be brought below zero. -/
theorem regular_of_inWidth {type : NumericType} {hints : Hints} {val : BitVec 64}
    (h : InWidth type.fSigned 64 (biased type hints val))
    (hzero : type.fSigned = false → rest type hints val ≤ value type val) :
    Regular type hints val := by
  by_cases hrefused : Refused type hints val
  · exact .inl hrefused
  have hvalue := @inWidth_num type.fSigned (extend type.fSigned type.bits val)
  change InWidth type.fSigned 64 (value type val) at hvalue
  have hrest : rest type hints val =
      remainder type.fSigned (biased type hints val) (hints.divisor type.fSigned) := by
    rw [rest, wrapped, reduce_of_inWidth h]
  right
  cases hsigned : type.fSigned with
  | true =>
      refine ⟨fits_signed hsigned h hrefused, .inl ?_, ?_⟩
      · have hbias : InWidth true 64 hints.rangeBias.toInt := inWidth_num hints.rangeBias
        have hsplit : value type val = biased type hints val + hints.rangeBias.toInt := by
          rw [biased, sub_add_cancel]
        rw [hsigned] at hvalue hrest ⊢
        obtain ⟨hlow, hhigh⟩ := hvalue
        obtain ⟨hlow', hhigh'⟩ := hbias
        obtain ⟨hup, hdown⟩ := tmod_between (biased type hints val) (hints.divisor true)
        change rest type hints val = (biased type hints val).tmod (hints.divisor true) at hrest
        rw [hrest]
        rcases le_total 0 (biased type hints val) with hx | hx
        · obtain ⟨hx₁, hx₂⟩ := hup hx
          constructor <;> omega
        · obtain ⟨hx₁, hx₂⟩ := hdown hx
          constructor <;> omega
      · intro hdvd
        rw [hsigned] at h hrest
        rw [hrest, hints.divisor_true]
        have hpos := hints.step_pos
        by_cases hhalf : hints.step < 2 ^ 63
        · have hsame : hints.step.bmod (2 ^ 64) = hints.step :=
            Int.bmod_eq_of_le (by omega) (by omega)
          rw [hsame]
          exact Int.tmod_eq_zero_of_dvd hdvd
        · rcases large_step h (not_lt.mp hhalf) with ⟨hx, hd⟩ | hless
          · rw [hx, hd]
            decide
          · have hnone : biased type hints val = 0 := Int.eq_zero_of_dvd_of_natAbs_lt_natAbs hdvd hless
            rw [hnone]
            exact Int.zero_tmod _
  | false =>
      obtain ⟨hnonneg, hlt⟩ := rest_unsigned hsigned hints val
      refine ⟨?_, .inl ?_, ?_⟩
      · exact not_not.mp (mt (refused_unsigned_iff hsigned h).mpr hrefused)
      · have hle := hzero hsigned
        rw [hsigned] at hvalue ⊢
        exact ⟨by omega, lt_of_le_of_lt (by omega) hvalue.2⟩
      · intro hdvd
        rw [hrest, hsigned]
        exact Int.emod_eq_zero_of_dvd hdvd

/-- Values go through the stream for exactly the regular ones. -/
theorem scaled_values_iff (type : NumericType) (hints : Hints) (val : BitVec 64) :
    RoundTrips type hints val ∧ RefusesMisfits type hints val ↔ Regular type hints val := by
  constructor
  · rintro ⟨htrip, hmisfit⟩
    by_cases hrefused : Refused type hints val
    · exact .inl hrefused
    right
    obtain ⟨stream', hemit⟩ := @emitValue_ok sampleCache (fun _ => rfl) type hints val hrefused
      emptyStream
    have hempty : Written emptyStream [] ∧ emptyStream.avail < 8 :=
      @written_createInstance sampleCache emptyStream rfl
    obtain ⟨emitted, hwritten, -, hread⟩ := htrip sampleCache emptyStream stream' [] hempty.1
      hempty.2 hemit
    obtain ⟨hvalid, hremaining⟩ := hwritten.rewind
    obtain ⟨val', source', hval', -, -, hclose, hexact⟩ := hread _ _ hvalid hremaining
    have hpayload := (emitValue_spec hempty.1 hempty.2 hemit).1.rewind.2
    obtain ⟨source'', hback, -⟩ := readValue_spec hvalid hpayload
    obtain rfl : back type hints val = val' := by
      rw [hback] at hval'
      cases hval'
      rfl
    refine ⟨?_, ?_, fun hdvd => (back_eq_iff hrefused).mp (hexact hdvd)⟩
    · by_contra hnot
      exact hrefused (emitValue_fails_iff.mp (hmisfit hnot sampleCache emptyStream))
    · rwa [num_back hrefused, close_iff] at hclose
  · intro hregular
    constructor
    · intro C stream stream' bits hs hfull hemit
      by_cases hrefused : Refused type hints val
      · rw [emitValue_refused hrefused] at hemit
        cases hemit
      obtain ⟨-, hstays, hexact⟩ := hregular.resolve_left hrefused
      obtain ⟨hwritten, hfull'⟩ := emitValue_spec hs hfull hemit
      refine ⟨payload type hints val, hwritten, hfull', ?_⟩
      intro source left hvalid hremaining
      obtain ⟨source', hread, hvalid', hrest⟩ := readValue_spec hvalid hremaining
      refine ⟨back type hints val, source', hread, hvalid', hrest, ?_, ?_⟩
      · rw [num_back hrefused, close_iff]
        exact hstays
      · exact fun hdvd => (back_eq_iff hrefused).mpr (hexact hdvd)
    · intro hnot C stream
      apply emitValue_refused
      by_contra hrefused
      exact hnot (hregular.resolve_left hrefused).1

/-- An unsigned value of 64 bits, five less and in steps of three. -/
def bySteps : NumericType × Hints :=
  (⟨64, false, by decide, le_rfl⟩, ⟨0, 5, 3, by decide⟩)

/-- Two is brought below zero by the bias and written all the same; it is read back as one. -/
theorem not_scaled_values_sample : ¬∀ (type : NumericType) (hints : Hints) (val : BitVec 64),
    RoundTrips type hints val ∧ RefusesMisfits type hints val := by
  intro hall
  obtain ⟨-, hmisfit⟩ := hall bySteps.1 bySteps.2 2
  have hnot : ¬Fits bySteps.1 bySteps.2 2 := by
    unfold Fits
    decide +kernel
  have hrefused : Refused bySteps.1 bySteps.2 2 :=
    emitValue_fails_iff.mp (hmisfit hnot sampleCache emptyStream)
  revert hrefused
  unfold Refused
  decide +kernel

end BinaryFormatter

end TinyCLR.Serialization
