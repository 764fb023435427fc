import TinyCLR.Text.UTF16

/-!
# Counts and conversions

What `CountNumberOfCharacters` and `CountNumberOfBytes` accept, and what the conversions make of it
when they are given that much room. The count of characters takes lead bytes that the conversion
refuses.
-/

namespace TinyCLR.Text

namespace UnicodeHelper

/-- `CountNumberOfBytes`, over the units before the terminator; `none` for `-1`. -/
def countNumberOfBytes : List Nat → Option Nat
  | [] => some 0
  | ch :: src =>
      if ch = 0 then some 0
      else if ch < 0x80 then (countNumberOfBytes src).map (· + 1)
      else if ch < 0x800 then (countNumberOfBytes src).map (· + 2)
      else if 0xDC00 ≤ ch ∧ ch ≤ 0xDFFF then none
      else if 0xD800 ≤ ch ∧ ch ≤ 0xDBFF then
        match src with
        | low :: src =>
            if 0xDC00 ≤ low ∧ low ≤ 0xDFFF then (countNumberOfBytes src).map (· + 4) else none
        | [] => none
      else (countNumberOfBytes src).map (· + 3)

/-- A byte that continues a sequence. -/
def Low (ch : UInt8) : Prop := 0x80 ≤ ch.toNat ∧ ch.toNat ≤ 0xBF

/-- Sequences of bytes by their lead bytes, and the number of characters that they stand for. -/
inductive Sequences : List UInt8 → Nat → Prop where
  | nil : Sequences [] 0
  | one {ch : UInt8} {src : List UInt8} {n : Nat} (hpos : 0 < ch.toNat) (hlt : ch.toNat < 0x80)
      (h : Sequences src n) : Sequences (ch :: src) (n + 1)
  | two {ch c₁ : UInt8} {src : List UInt8} {n : Nat} (hle : 0xC0 ≤ ch.toNat)
      (hlt : ch.toNat < 0xE0) (h₁ : Low c₁) (h : Sequences src n) :
      Sequences (ch :: c₁ :: src) (n + 1)
  | three {ch c₁ c₂ : UInt8} {src : List UInt8} {n : Nat} (hle : 0xE0 ≤ ch.toNat)
      (hlt : ch.toNat < 0xF0) (h₁ : Low c₁) (h₂ : Low c₂) (h : Sequences src n) :
      Sequences (ch :: c₁ :: c₂ :: src) (n + 1)
  | four {ch c₁ c₂ c₃ : UInt8} {src : List UInt8} {n : Nat} (hle : 0xF0 ≤ ch.toNat)
      (h₁ : Low c₁) (h₂ : Low c₂) (h₃ : Low c₃) (h : Sequences src n) :
      Sequences (ch :: c₁ :: c₂ :: c₃ :: src) (n + 2)

theorem badLowpart_eq_false {ch : UInt8} (h : badLowpart ch = false) : Low ch := by
  simp only [badLowpart, Bool.or_eq_false_iff, decide_eq_false_iff_not, gt_iff_lt,
    UInt8.lt_iff_toNat_lt, UInt8.reduceToNat] at h
  exact ⟨by omega, by omega⟩

/-- What is counted are sequences. -/
theorem sequences_of_count {src : List UInt8} {n : Nat} (hzero : ∀ b ∈ src, b ≠ 0)
    (h : countNumberOfCharacters src = some n) : Sequences src n := by
  fun_induction countNumberOfCharacters src generalizing n with
  | case1 =>
      cases h
      exact .nil
  | case2 ch src hch => exact absurd (beq_iff_eq.mp hch) (hzero ch List.mem_cons_self)
  | case3 ch src hch hlt ih =>
      obtain ⟨m, hm, rfl⟩ := Option.map_eq_some_iff.mp h
      rw [beq_iff_eq, ← UInt8.toNat_inj] at hch
      rw [UInt8.lt_iff_toNat_lt] at hlt
      exact .one (Nat.pos_of_ne_zero hch) hlt (ih (fun b hb => hzero b (by simp [hb])) hm)
  | case6 ch hch _ hle hlt c₁ src hlow ih =>
      obtain ⟨m, hm, rfl⟩ := Option.map_eq_some_iff.mp h
      rw [UInt8.lt_iff_toNat_lt] at hle hlt
      exact .two (Nat.le_of_not_lt hle) hlt (badLowpart_eq_false (by simpa using hlow))
        (ih (fun b hb => hzero b (by simp [hb])) hm)
  | case9 ch hch _ _ hle hlt c₁ c₂ src hlow ih =>
      obtain ⟨m, hm, rfl⟩ := Option.map_eq_some_iff.mp h
      simp only [Bool.or_eq_true, not_or, Bool.not_eq_true] at hlow
      rw [UInt8.lt_iff_toNat_lt] at hle hlt
      exact .three (Nat.le_of_not_lt hle) hlt (badLowpart_eq_false hlow.1)
        (badLowpart_eq_false hlow.2) (ih (fun b hb => hzero b (by simp [hb])) hm)
  | case12 ch hch _ _ _ hle c₁ c₂ c₃ src hlow ih =>
      obtain ⟨m, hm, rfl⟩ := Option.map_eq_some_iff.mp h
      simp only [Bool.or_eq_true, not_or, Bool.not_eq_true] at hlow
      rw [UInt8.lt_iff_toNat_lt] at hle
      exact .four (Nat.le_of_not_lt hle) (badLowpart_eq_false hlow.1.1)
        (badLowpart_eq_false hlow.1.2) (badLowpart_eq_false hlow.2)
        (ih (fun b hb => hzero b (by simp [hb])) hm)
  | case4 => cases h
  | case5 => cases h
  | case7 => cases h
  | case8 => cases h
  | case10 => cases h
  | case11 => cases h
  | case13 => cases h

/-- A sequence has at most three bytes for each character, and at least one. -/
theorem Sequences.length {src : List UInt8} {n : Nat} (h : Sequences src n) :
    n ≤ src.length ∧ src.length ≤ 3 * n := by
  induction h with
  | nil => exact ⟨le_rfl, le_rfl⟩
  | one _ _ _ ih =>
      simp only [List.length_cons]
      omega
  | two _ _ _ _ ih =>
      simp only [List.length_cons]
      omega
  | three _ _ _ _ _ ih =>
      simp only [List.length_cons]
      omega
  | four _ _ _ _ _ ih =>
      simp only [List.length_cons]
      omega

/-! ## From UTF-8 -/

/-- A byte that the conversion does not refuse as the first one of a sequence. -/
def Lead (ch : UInt8) : Prop := ch.toNat ≠ 0xC0 ∧ ch.toNat ≠ 0xC1 ∧ ch.toNat < 0xF5

theorem Low.lead {ch : UInt8} (h : Low ch) : Lead ch := by
  obtain ⟨hle, hlt⟩ := h
  exact ⟨by omega, by omega, by omega⟩

section Steps

variable {ch c₁ c₂ c₃ : UInt8} {src : List UInt8} {iMaxChars iMaxBytes : Int} (size : Nat)

theorem loop_one (hpos : 0 < ch.toNat) (hlt : ch.toNat < 0x80) (hchars : 0 < iMaxChars)
    (hbytes : 0 < iMaxBytes) :
    convertFromUTF8Loop false (ch :: src) iMaxChars iMaxBytes size =
      write false [ch.toNat] (ch :: src) size
        fun size => convertFromUTF8Loop false src (iMaxChars - 1) (iMaxBytes - 1) size := by
  rw [convertFromUTF8Loop.eq_def]
  simp only [beq_iff_eq, ← UInt8.toNat_inj, UInt8.lt_iff_toNat_lt, UInt8.reduceToNat]
  rw [if_neg (not_not.mpr ⟨hchars, hbytes⟩), if_neg (by omega), if_pos hlt]

theorem loop_two (hle : 0xC0 ≤ ch.toNat) (hlt : ch.toNat < 0xE0) (hlead : Lead ch)
    (hchars : 0 < iMaxChars) (hbytes : 2 ≤ iMaxBytes) :
    convertFromUTF8Loop false (ch :: c₁ :: src) iMaxChars iMaxBytes size =
      write false [loadLowpart c₁ (ch.toNat % 32)] (ch :: c₁ :: src) size
        fun size => convertFromUTF8Loop false src (iMaxChars - 1) (iMaxBytes - 2) size := by
  obtain ⟨hzero, hone, -⟩ := hlead
  rw [convertFromUTF8Loop.eq_def]
  simp only [beq_iff_eq, ← UInt8.toNat_inj, UInt8.lt_iff_toNat_lt, UInt8.reduceToNat]
  rw [if_neg (not_not.mpr ⟨hchars, by omega⟩), if_neg (by omega), if_neg (by omega),
    if_neg (by omega), if_pos hlt, if_neg (by omega), if_neg (by omega)]

theorem loop_three (hle : 0xE0 ≤ ch.toNat) (hlt : ch.toNat < 0xF0) (hchars : 0 < iMaxChars)
    (hbytes : 3 ≤ iMaxBytes) :
    convertFromUTF8Loop false (ch :: c₁ :: c₂ :: src) iMaxChars iMaxBytes size =
      write false [loadLowpart c₂ (loadLowpart c₁ (ch.toNat % 16))] (ch :: c₁ :: c₂ :: src) size
        fun size => convertFromUTF8Loop false src (iMaxChars - 1) (iMaxBytes - 3) size := by
  rw [convertFromUTF8Loop.eq_def]
  simp only [beq_iff_eq, ← UInt8.toNat_inj, UInt8.lt_iff_toNat_lt, UInt8.reduceToNat]
  rw [if_neg (not_not.mpr ⟨hchars, by omega⟩), if_neg (by omega), if_neg (by omega),
    if_neg (by omega), if_neg (by omega), if_pos hlt, if_neg (by omega)]

theorem loop_four (hle : 0xF0 ≤ ch.toNat) (hlead : Lead ch) (hchars : 0 < iMaxChars)
    (hbytes : 4 ≤ iMaxBytes) : ∃ high low,
    convertFromUTF8Loop false (ch :: c₁ :: c₂ :: c₃ :: src) iMaxChars iMaxBytes size =
      write false [high, low] (ch :: c₁ :: c₂ :: c₃ :: src) size
        fun size => convertFromUTF8Loop false src (iMaxChars - 2) (iMaxBytes - 4) size := by
  obtain ⟨-, -, hlt⟩ := hlead
  let ch2 := loadLowpart c₃ (loadLowpart c₂ (loadLowpart c₁ (ch.toNat % 8)))
  refine ⟨ch2 / 1024 + 0xD800, ch2 % 1024 + 0xDC00, ?_⟩
  rw [convertFromUTF8Loop.eq_def]
  simp only [beq_iff_eq, ← UInt8.toNat_inj, UInt8.lt_iff_toNat_lt, UInt8.le_iff_toNat_le,
    UInt8.reduceToNat]
  rw [if_neg (not_not.mpr ⟨hchars, by omega⟩), if_neg (by omega), if_neg (by omega),
    if_neg (by omega), if_neg (by omega), if_neg (by omega), if_neg (by omega), if_neg (by omega)]

end Steps

/-- The conversion has read all of its input, and written so much. -/
def ReadAll (o : Option (Converted Nat UInt8)) (n : Nat) (res : Prop) : Prop :=
  ∃ r, o = some r ∧ r.input = [] ∧ r.output.length = n ∧ (res → r.res = true)

/-- A conversion that goes on after something has been written. -/
theorem ReadAll.write {output : List Nat} {size n n' : Nat} (input : List UInt8)
    {next : Nat → Option (Converted Nat UInt8)} {res res' : Prop} (hsize : output.length ≤ size)
    (h : ReadAll (next (size - output.length)) n res) (hn : n + output.length = n')
    (hmono : res' → res) : ReadAll (write false output input size next) n' res' := by
  obtain ⟨r, hnext, hinput, hlength, hres⟩ := h
  refine ⟨r.after output, ?_, hinput, ?_, fun h => hres (hmono h)⟩
  · rw [write_of_le hsize, hnext]
    rfl
  · rw [Converted.after, List.length_append, hlength, Nat.add_comm, hn]

/-- Where one that writes something reads everything, it has gone on. -/
theorem ReadAll.next {output : List Nat} {size n : Nat} {ch : UInt8} {input : List UInt8}
    {next : Nat → Option (Converted Nat UInt8)} {res : Prop}
    (h : ReadAll (UnicodeHelper.write false output (ch :: input) size next) n res) :
    ∃ size n, ReadAll (next size) n res := by
  obtain ⟨r, hwrite, hinput, -, hres⟩ := h
  rw [UnicodeHelper.write, if_neg Bool.false_ne_true] at hwrite
  split at hwrite
  · cases hwrite
    cases hinput
  · obtain ⟨r', hnext, rfl⟩ := Option.map_eq_some_iff.mp hwrite
    exact ⟨_, _, r', hnext, hinput, rfl, hres⟩

/-- With enough room the conversion reads all sequences, unless it refuses a lead byte. -/
theorem Sequences.converted {src : List UInt8} {n : Nat} (h : Sequences src n)
    (hlead : ∀ b ∈ src, Lead b) (iMaxChars iMaxBytes : Int) (size : Nat)
    (hchars : (n : Int) ≤ iMaxChars) (hbytes : (src.length : Int) ≤ iMaxBytes) (hsize : n < size) :
    ReadAll (convertFromUTF8Loop false src iMaxChars iMaxBytes size) n (iMaxChars = n) := by
  induction h generalizing iMaxChars iMaxBytes size with
  | nil =>
      rw [convertFromUTF8Loop.eq_def]
      by_cases hmore : 0 < iMaxChars ∧ 0 < iMaxBytes
      · refine ⟨_, if_pos hmore, rfl, rfl, ?_⟩
        intro hzero
        omega
      · refine ⟨_, if_neg hmore, rfl, rfl, ?_⟩
        intro _
        exact decide_eq_true (Nat.succ_le_of_lt hsize)
  | one hpos hlt h ih =>
      rw [List.forall_mem_cons] at hlead
      rw [List.length_cons] at hbytes
      have hrest := ih hlead.2 (iMaxChars - 1) (iMaxBytes - 1) (size - 1) (by omega) (by omega)
        (by omega)
      rw [loop_one size hpos hlt (by omega) (by omega)]
      exact hrest.write _ (Nat.one_le_of_lt hsize) rfl (by omega)
  | two hle hlt h₁ h ih =>
      rw [List.forall_mem_cons, List.forall_mem_cons] at hlead
      rw [List.length_cons, List.length_cons] at hbytes
      have hrest := ih hlead.2.2 (iMaxChars - 1) (iMaxBytes - 2) (size - 1) (by omega) (by omega)
        (by omega)
      rw [loop_two size hle hlt hlead.1 (by omega) (by omega)]
      exact hrest.write _ (Nat.one_le_of_lt hsize) rfl (by omega)
  | three hle hlt h₁ h₂ h ih =>
      rw [List.forall_mem_cons, List.forall_mem_cons, List.forall_mem_cons] at hlead
      rw [List.length_cons, List.length_cons, List.length_cons] at hbytes
      have hrest := ih hlead.2.2.2 (iMaxChars - 1) (iMaxBytes - 3) (size - 1) (by omega)
        (by omega) (by omega)
      rw [loop_three size hle hlt (by omega) (by omega)]
      exact hrest.write _ (Nat.one_le_of_lt hsize) rfl (by omega)
  | four hle h₁ h₂ h₃ h ih =>
      rw [List.forall_mem_cons, List.forall_mem_cons, List.forall_mem_cons,
        List.forall_mem_cons] at hlead
      rw [List.length_cons, List.length_cons, List.length_cons, List.length_cons] at hbytes
      have hrest := ih hlead.2.2.2.2 (iMaxChars - 2) (iMaxBytes - 4) (size - 2) (by omega)
        (by omega) (by omega)
      have hsome : 0 < iMaxChars := by omega
      have hfour : 4 ≤ iMaxBytes := by omega
      obtain ⟨high, low, hloop⟩ := loop_four size hle hlead.1 hsome hfour
      rw [hloop]
      exact hrest.write _ (by rw [List.length_cons, List.length_singleton]; omega) rfl (by omega)

section Refusals

variable {ch c₁ : UInt8} {src : List UInt8} {iMaxChars iMaxBytes : Int} {size n : Nat} {res : Prop}

/-- Nothing is read without a budget. -/
theorem ReadAll.budgets
    (h : ReadAll (convertFromUTF8Loop false (ch :: src) iMaxChars iMaxBytes size) n res) :
    0 < iMaxChars ∧ 0 < iMaxBytes := by
  by_contra hnone
  obtain ⟨r, hr, hinput, -, -⟩ := h
  rw [convertFromUTF8Loop.eq_def] at hr
  simp only at hr
  rw [if_pos hnone, Option.some.injEq] at hr
  rw [← hr] at hinput
  cases hinput

/-- An overlong form of two bytes is refused. -/
theorem ReadAll.two (hle : 0xC0 ≤ ch.toNat) (hlt : ch.toNat < 0xE0)
    (h : ReadAll (convertFromUTF8Loop false (ch :: src) iMaxChars iMaxBytes size) n res) :
    Lead ch ∧ 2 ≤ iMaxBytes := by
  have hbudgets := h.budgets
  obtain ⟨r, hr, hinput, -, -⟩ := h
  by_contra hnot
  unfold Lead at hnot
  rw [convertFromUTF8Loop.eq_def] at hr
  simp only [beq_iff_eq, ← UInt8.toNat_inj, UInt8.lt_iff_toNat_lt, UInt8.reduceToNat] at hr
  rw [if_neg (not_not.mpr hbudgets), if_neg (by omega), if_neg (by omega), if_neg (by omega),
    if_pos hlt] at hr
  split_ifs at hr
  · cases hr
    cases hinput
  · cases hr
    cases hinput
  · omega

theorem ReadAll.three (hle : 0xE0 ≤ ch.toNat) (hlt : ch.toNat < 0xF0)
    (h : ReadAll (convertFromUTF8Loop false (ch :: src) iMaxChars iMaxBytes size) n res) :
    3 ≤ iMaxBytes := by
  have hbudgets := h.budgets
  obtain ⟨r, hr, hinput, -, -⟩ := h
  by_contra hnot
  rw [convertFromUTF8Loop.eq_def] at hr
  simp only [beq_iff_eq, ← UInt8.toNat_inj, UInt8.lt_iff_toNat_lt, UInt8.reduceToNat] at hr
  rw [if_neg (not_not.mpr hbudgets), if_neg (by omega), if_neg (by omega), if_neg (by omega),
    if_neg (by omega), if_pos hlt, if_pos (by omega)] at hr
  cases hr
  cases hinput

/-- A lead byte of no character is refused. -/
theorem ReadAll.four (hle : 0xF0 ≤ ch.toNat)
    (h : ReadAll (convertFromUTF8Loop false (ch :: src) iMaxChars iMaxBytes size) n res) :
    Lead ch ∧ 4 ≤ iMaxBytes := by
  have hbudgets := h.budgets
  obtain ⟨r, hr, hinput, -, -⟩ := h
  by_contra hnot
  unfold Lead at hnot
  rw [convertFromUTF8Loop.eq_def] at hr
  simp only [beq_iff_eq, ← UInt8.toNat_inj, UInt8.lt_iff_toNat_lt, UInt8.le_iff_toNat_le,
    UInt8.reduceToNat] at hr
  rw [if_neg (not_not.mpr hbudgets), if_neg (by omega), if_neg (by omega), if_neg (by omega),
    if_neg (by omega), if_neg (by omega)] at hr
  split_ifs at hr
  · cases hr
    cases hinput
  · cases hr
    cases hinput
  · omega

end Refusals

/-- Where the conversion reads all sequences, it refuses none of their lead bytes, and its budget
lasts. -/
theorem Sequences.of_converted {src : List UInt8} {n : Nat} (h : Sequences src n)
    {iMaxChars iMaxBytes : Int} {size m : Nat} {res : Prop}
    (hread : ReadAll (convertFromUTF8Loop false src iMaxChars iMaxBytes size) m res) :
    (∀ b ∈ src, Lead b) ∧ (src = [] ∨ (src.length : Int) ≤ iMaxBytes) := by
  induction h generalizing iMaxChars iMaxBytes size m with
  | nil => exact ⟨fun b hb => absurd hb List.not_mem_nil, .inl rfl⟩
  | @one ch src n hpos hlt h ih =>
      obtain ⟨hchars, hbytes⟩ := hread.budgets
      rw [loop_one size hpos hlt hchars hbytes] at hread
      obtain ⟨size', m', hnext⟩ := hread.next
      obtain ⟨hlead, hlength⟩ := ih hnext
      rw [List.forall_mem_cons]
      refine ⟨⟨⟨by omega, by omega, by omega⟩, hlead⟩, .inr ?_⟩
      rw [List.length_cons]
      rcases hlength with rfl | hlength
      · rw [List.length_nil]
        omega
      · omega
  | @two ch c₁ src n hle hlt h₁ h ih =>
      obtain ⟨hchars, -⟩ := hread.budgets
      obtain ⟨hgood, hbytes⟩ := hread.two hle hlt
      rw [loop_two size hle hlt hgood hchars hbytes] at hread
      obtain ⟨size', m', hnext⟩ := hread.next
      obtain ⟨hlead, hlength⟩ := ih hnext
      rw [List.forall_mem_cons, List.forall_mem_cons]
      refine ⟨⟨hgood, h₁.lead, hlead⟩, .inr ?_⟩
      rw [List.length_cons, List.length_cons]
      rcases hlength with rfl | hlength
      · rw [List.length_nil]
        omega
      · omega
  | @three ch c₁ c₂ src n hle hlt h₁ h₂ h ih =>
      obtain ⟨hchars, -⟩ := hread.budgets
      have hbytes := hread.three hle hlt
      rw [loop_three size hle hlt hchars hbytes] at hread
      obtain ⟨size', m', hnext⟩ := hread.next
      obtain ⟨hlead, hlength⟩ := ih hnext
      rw [List.forall_mem_cons, List.forall_mem_cons, List.forall_mem_cons]
      refine ⟨⟨⟨by omega, by omega, by omega⟩, h₁.lead, h₂.lead, hlead⟩, .inr ?_⟩
      rw [List.length_cons, List.length_cons, List.length_cons]
      rcases hlength with rfl | hlength
      · rw [List.length_nil]
        omega
      · omega
  | @four ch c₁ c₂ c₃ src n hle h₁ h₂ h₃ h ih =>
      obtain ⟨hchars, -⟩ := hread.budgets
      obtain ⟨hgood, hbytes⟩ := hread.four hle
      obtain ⟨high, low, hloop⟩ := loop_four size hle hgood hchars hbytes
      rw [hloop] at hread
      obtain ⟨size', m', hnext⟩ := hread.next
      obtain ⟨hlead, hlength⟩ := ih hnext
      rw [List.forall_mem_cons, List.forall_mem_cons, List.forall_mem_cons, List.forall_mem_cons]
      refine ⟨⟨hgood, h₁.lead, h₂.lead, h₃.lead, hlead⟩, .inr ?_⟩
      rw [List.length_cons, List.length_cons, List.length_cons, List.length_cons]
      rcases hlength with rfl | hlength
      · rw [List.length_nil]
        omega
      · omega

/-! ## To UTF-8 -/

/-- The conversion has read all units, and written so many bytes. -/
def WroteAll (o : Option (Converted UInt8 Nat)) (n : Nat) : Prop :=
  ∃ r, o = some r ∧ r.res = true ∧ r.input = [] ∧ r.output.length = n

theorem WroteAll.write {output : List UInt8} {size n : Nat} (input : List Nat)
    {next : Nat → Option (Converted UInt8 Nat)} (hsize : output.length ≤ size)
    (h : WroteAll (next (size - output.length)) n) :
    WroteAll (write false output input size next) (n + output.length) := by
  obtain ⟨r, hnext, hres, hinput, hlength⟩ := h
  refine ⟨r.after output, ?_, hres, hinput, ?_⟩
  · rw [write_of_le hsize, hnext]
    rfl
  · rw [Converted.after, List.length_append, hlength, Nat.add_comm]

/-- A conversion to UTF-8 with room for the bytes that are counted reads all units. -/
theorem convertToUTF8_counted {inputUTF16 : List Nat} {n : Nat} (hzero : ∀ ch ∈ inputUTF16, ch ≠ 0)
    (h : countNumberOfBytes inputUTF16 = some n) (iMaxChars size : Nat)
    (hchars : inputUTF16.length ≤ iMaxChars) (hsize : n < size) :
    WroteAll (convertToUTF8 false inputUTF16 iMaxChars size) n := by
  fun_induction countNumberOfBytes inputUTF16 generalizing n iMaxChars size with
  | case1 =>
      cases h
      have hres : decide (1 ≤ size) = true := decide_eq_true hsize
      cases iMaxChars with
      | zero => exact ⟨_, rfl, hres, rfl, rfl⟩
      | succ iMaxChars => exact ⟨_, rfl, hres, rfl, rfl⟩
  | case2 src => exact absurd rfl (hzero 0 List.mem_cons_self)
  | case3 ch src hch hlt ih =>
      obtain ⟨m, hm, rfl⟩ := Option.map_eq_some_iff.mp h
      obtain ⟨chars, rfl⟩ := Nat.exists_eq_add_of_le' (Nat.one_le_of_lt hchars)
      rw [List.forall_mem_cons] at hzero
      rw [convertToUTF8.eq_def]
      simp only
      rw [if_pos hlt, if_neg hch]
      apply WroteAll.write
      · exact Nat.one_le_of_lt hsize
      · exact ih hzero.2 hm _ _ (Nat.le_of_succ_le_succ hchars) (Nat.lt_sub_of_add_lt hsize)
  | case4 ch src hch hlow hlt ih =>
      obtain ⟨m, hm, rfl⟩ := Option.map_eq_some_iff.mp h
      obtain ⟨chars, rfl⟩ := Nat.exists_eq_add_of_le' (Nat.one_le_of_lt hchars)
      rw [List.forall_mem_cons] at hzero
      rw [convertToUTF8.eq_def]
      simp only
      rw [if_neg hlow, if_pos hlt]
      apply WroteAll.write
      · exact Nat.le_of_add_left_le hsize.le
      · exact ih hzero.2 hm _ _ (Nat.le_of_succ_le_succ hchars) (Nat.lt_sub_of_add_lt hsize)
  | case6 ch hch hlow hlt hsecond hfirst low src hpair ih =>
      obtain ⟨m, hm, rfl⟩ := Option.map_eq_some_iff.mp h
      obtain ⟨chars, rfl⟩ := Nat.exists_eq_add_of_le' (Nat.one_le_of_lt hchars)
      rw [List.forall_mem_cons, List.forall_mem_cons] at hzero
      rw [convertToUTF8.eq_def]
      simp only
      rw [if_neg hlow, if_neg hlt, if_pos hfirst]
      apply WroteAll.write
      · exact Nat.le_of_add_left_le hsize.le
      · rw [List.length_cons, List.length_cons] at hchars
        exact ih hzero.2.2 hm _ _ (by omega) (Nat.lt_sub_of_add_lt hsize)
  | case9 ch src hch hlow hlt hsecond hfirst ih =>
      obtain ⟨m, hm, rfl⟩ := Option.map_eq_some_iff.mp h
      obtain ⟨chars, rfl⟩ := Nat.exists_eq_add_of_le' (Nat.one_le_of_lt hchars)
      rw [List.forall_mem_cons] at hzero
      rw [convertToUTF8.eq_def]
      simp only
      rw [if_neg hlow, if_neg hlt, if_neg hfirst]
      apply WroteAll.write
      · exact Nat.le_of_add_left_le hsize.le
      · exact ih hzero.2 hm _ _ (Nat.le_of_succ_le_succ hchars) (Nat.lt_sub_of_add_lt hsize)
  | case5 => cases h
  | case7 => cases h
  | case8 => cases h

/-! ## The counts -/

/-- What is counted is read by a conversion with room for that many characters and the terminator,
and by one with a larger budget. -/
def CharactersAgree (src : List UInt8) : Prop :=
  ∀ n, countNumberOfCharacters src = some n → n < 2 ^ 31 →
    (∃ r, convertFromUTF8 src n false (-1) (n + 1) = some r ∧ r.res = true ∧ r.input = [] ∧
      r.output.length = n) ∧
    ∀ (iMaxChars iMaxBytes : Int) (size : Nat), (n : Int) ≤ iMaxChars →
      (src.length : Int) ≤ iMaxBytes → n < size →
      ∃ r, convertFromUTF8 src iMaxChars false iMaxBytes size = some r ∧ r.input = [] ∧
        r.output.length = n

def BytesAgree (inputUTF16 : List Nat) : Prop :=
  ∀ n, countNumberOfBytes inputUTF16 = some n → ∀ iMaxChars size, inputUTF16.length ≤ iMaxChars →
    n < size →
    ∃ r, convertToUTF8 false inputUTF16 iMaxChars size = some r ∧ r.res = true ∧ r.input = [] ∧
      r.output.length = n

/-- No byte that is counted is refused, and three bytes for each character can be counted. -/
def Convertible (src : List UInt8) : Prop :=
  ∀ n, countNumberOfCharacters src = some n → n < 2 ^ 31 →
    (∀ b ∈ src, Lead b) ∧ 3 * n < 2 ^ 31

theorem defaultBytes_of_lt {n : Nat} (h : 3 * n < 2 ^ 31) : defaultBytes n = 3 * n := by
  rw [defaultBytes, Int.bmod_eq_of_le (by omega) (by omega), mul_comm]

theorem defaultBytes_lt {n : Nat} (hlt : n < 2 ^ 31) (h : ¬3 * n < 2 ^ 31) :
    defaultBytes n < n := by
  have hwrap : (n : Int) * 3 / ((2 ^ 32 : Nat) : Int) = 0 ∨
      (n : Int) * 3 / ((2 ^ 32 : Nat) : Int) = 1 := by
    omega
  rw [defaultBytes, Int.bmod_def]
  rcases hwrap with hwrap | hwrap
  · split <;> omega
  · split <;> omega

/-- The counts of characters agree with the conversion for exactly the texts without a lead byte
that the conversion refuses, and short of a third of all integers. -/
theorem counts_agree_iff (src : List UInt8) (inputUTF16 : List Nat) (hbytes : ∀ b ∈ src, b ≠ 0)
    (hunits : ∀ ch ∈ inputUTF16, ch ≠ 0) :
    CharactersAgree src ∧ BytesAgree inputUTF16 ↔ Convertible src := by
  constructor
  · rintro ⟨hcharacters, -⟩ n hn hint
    obtain ⟨⟨r, hr, hres, hinput, -⟩, -⟩ := hcharacters n hn hint
    have hsequences := sequences_of_count hbytes hn
    obtain ⟨hlead, hbudget⟩ := hsequences.of_converted ⟨r, hr, hinput, rfl, fun _ : True => hres⟩
    refine ⟨hlead, ?_⟩
    by_contra hmany
    have hwrap := defaultBytes_lt hint hmany
    have hlength := hsequences.length.1
    rcases hbudget with rfl | hbudget
    · rw [List.length_nil] at hlength
      omega
    · rw [if_pos rfl] at hbudget
      omega
  · intro hconvertible
    constructor
    · intro n hn hint
      obtain ⟨hlead, hthird⟩ := hconvertible n hn hint
      have hsequences := sequences_of_count hbytes hn
      constructor
      · obtain ⟨r, hr, hinput, hlength, hres⟩ := hsequences.converted hlead n (defaultBytes n)
          (n + 1) le_rfl (by have := hsequences.length.2; rw [defaultBytes_of_lt hthird]; omega)
          (Nat.lt_succ_self n)
        refine ⟨r, ?_, hres rfl, hinput, hlength⟩
        rw [convertFromUTF8, if_pos rfl]
        exact hr
      · intro iMaxChars iMaxBytes size hchars hbudget hsize
        have hnonneg : iMaxBytes ≠ -1 := by omega
        obtain ⟨r, hr, hinput, hlength, -⟩ := hsequences.converted hlead iMaxChars iMaxBytes size
          hchars hbudget hsize
        refine ⟨r, ?_, hinput, hlength⟩
        rw [convertFromUTF8, if_neg hnonneg]
        exact hr
    · intro n hn iMaxChars size hchars hsize
      exact convertToUTF8_counted hunits hn iMaxChars size hchars hsize

theorem counts_agree_sample : (∀ b ∈ ([0xC3, 0xA9] : List UInt8), b ≠ 0) ∧
    (CharactersAgree [0xC3, 0xA9] ∧ BytesAgree [0xE9]) := by
  refine ⟨by simp, (counts_agree_iff [0xC3, 0xA9] [0xE9] (by simp) (by simp)).mpr ?_⟩
  intro n hn _
  obtain rfl : 1 = n := Option.some.inj hn
  exact ⟨by simp [Lead], by norm_num⟩

/-- A zero in two bytes counts as a character, and the conversion stops before it. -/
theorem not_counts_agree_sample : ¬∀ (src : List UInt8) (inputUTF16 : List Nat),
    (∀ b ∈ src, b ≠ 0) → (∀ ch ∈ inputUTF16, ch ≠ 0) →
    CharactersAgree src ∧ BytesAgree inputUTF16 := by
  intro hall
  obtain ⟨hcharacters, -⟩ := hall [0xC0, 0x80] [] (by simp) (by simp)
  obtain ⟨⟨r, hr, hres, -⟩, -⟩ := hcharacters 1 rfl (by norm_num)
  have hstop : convertFromUTF8 [0xC0, 0x80] 1 false (-1) 2 = some ⟨false, [], [0xC0, 0x80], 2⟩ := by
    decide +kernel
  obtain rfl := Option.some.inj (hstop.symm.trans hr)
  cases hres

end UnicodeHelper

end TinyCLR.Text
