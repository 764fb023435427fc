import TinyCLR.Update.MFUpdate

/-!
# Missing packets

`MFUpdate_GetMissingPackets` walks over the packets of an update, word by word of a bitmap and bit
by bit of a word. A packet whose bytes are erased is missing. `*pCount++` moves the pointer instead
of the count, and the bits of packets that are there are cleared even where there is no bitmap.
-/

namespace TinyCLR.Update

variable {World : Type}

/-- The sum of two numbers of type `INT32`; there is none where it overflows. -/
def add32 (a b : ℤ) : Option ℤ :=
  if -2 ^ 31 ≤ a + b ∧ a + b < 2 ^ 31 then some (a + b) else none

/-- `INT32` of a field of type `UINT32`. -/
def toInt32 (x : UInt32) : ℤ := x.toBitVec.toInt

/-- The bits of a bitmap in memory, word by word. -/
abbrev Words := List (BitVec 32)

/-- `pPacketBits[partIdx] |= 1u << i`, or `&= ~(1u << i)`; `none` outside the bitmap. -/
def putBit (words : Words) (partIdx i : ℕ) (bit : Bool) : Option Words :=
  if partIdx < words.length then
    let word := words.getD partIdx 0
    some (words.set partIdx (if bit then word ||| 1#32 <<< i else word &&& ~~~(1#32 <<< i)))
  else none

structure Walk where
  offset : ℤ
  pktSize : ℤ
  pPacketBits : Option Words

/-- The file of an update: its size, and `IsErased` of its storage provider, for an offset and a
length. -/
structure File where
  updateSize : ℤ
  isErased : Option (ℤ → ℤ → Bool)

namespace File

variable (f : File)

/-- What is stored for a packet. `*pCount++` comes here and changes nothing that is read later. -/
def store (erased : Bool) (partIdx i : ℕ) (pPacketBits : Option Words) : Option (Option Words) :=
  match pPacketBits with
  | some words => (putBit words partIdx i erased).map some
  | none => if erased then some none else none

/-- The size of a packet that would end at `stop`. -/
def pktSize (w : Walk) (stop : ℤ) : Option ℤ :=
  if f.updateSize < stop then add32 f.updateSize (-w.offset) else some w.pktSize

/-- `IsErased`, if there is one. -/
def erased (offset len : ℤ) : Bool :=
  match f.isErased with
  | some isErased => isErased offset len
  | none => false

/-- The body of the inner loop. -/
def visit (partIdx i : ℕ) (w : Walk) : Option Walk := do
  let stop ← add32 w.offset w.pktSize
  let pktSize ← f.pktSize w stop
  let pPacketBits ← store (f.erased w.offset pktSize) partIdx i w.pPacketBits
  let offset ← add32 w.offset pktSize
  return ⟨offset, pktSize, pPacketBits⟩

/-- The inner loop, with the number of bits that are left of the word. -/
def word (partIdx : ℕ) : ℕ → Walk → Option Walk
  | 0, w => some w
  | left + 1, w =>
      if w.offset < f.updateSize then
        (f.visit partIdx (32 - (left + 1)) w).bind (word partIdx left)
      else some w

/-- The outer loop, with the number of words that are left. -/
def words : ℕ → ℕ → Walk → Option Walk
  | 0, _, w => some w
  | left + 1, partIdx, w =>
      if w.offset < f.updateSize then (f.word partIdx 32 w).bind (words left (partIdx + 1))
      else some w

/-- The walk for a size of packets, and a bitmap or the number of words that `*pCount` gives. What
comes of it is `*pCount` and the bitmap. -/
def getMissingPackets (packetSize : ℤ) (pPacketBits : Option Words) (pCount : ℤ) :
    Option (ℤ × Option Words) := do
  let cnt ← match pPacketBits with
    | none => (add32 f.updateSize 31).map (· / 2 ^ 5)
    | some _ => some pCount
  let w ← f.words cnt.toNat 0 ⟨0, packetSize, pPacketBits⟩
  return (0, w.pPacketBits)

end File

/-- `MFUpdate_GetMissingPackets`, with `IsErased` of the storage providers by their addresses:
`FALSE`, or `TRUE` with `*pCount` and the bitmap. -/
def getMissingPackets (packages : List (IUpdatePackage World)) (s : State World)
    (isErased : ℕ → Option (Int → ℤ → ℤ → Bool)) (handle : Int) (pPacketBits : Option Words)
    (pCount : Option ℤ) : Option (Option (ℤ × Option Words)) :=
  match pCount, s.getUpdate handle with
  | some pCount, some (_, update) =>
      (packageOf packages update).bind fun package =>
        match package.storage with
        | none => some none
        | some storage =>
            if !update.flags.authenticated then some none
            else
              (File.getMissingPackets ⟨toInt32 update.header.updateSize,
                (isErased storage.address).map (· update.storageHandle)⟩
                (toInt32 update.header.packetSize) pPacketBits pCount).map some
  | _, _ => some none

/-! ## Packets -/

/-- The bytes of a file of some size, which are erased or not, as packets of some size. -/
structure Packets where
  updateSize : ℕ
  packetSize : ℕ
  erased : ℕ → Bool
  updateSize_lt : updateSize < 2 ^ 31
  packetSize_pos : 1 ≤ packetSize
  packetSize_lt : packetSize < 2 ^ 31

namespace Packets

variable (p : Packets)

/-- The number of packets; the last one may be shorter. -/
def count : ℕ := (p.updateSize + p.packetSize - 1) / p.packetSize

/-- All bytes of the packet are erased. -/
def Missing (i : ℕ) : Prop :=
  ∀ b, i * p.packetSize ≤ b → b < min ((i + 1) * p.packetSize) p.updateSize → p.erased b = true

instance (i : ℕ) : Decidable (p.Missing i) :=
  decidable_of_iff
    (∀ b < min ((i + 1) * p.packetSize) p.updateSize, i * p.packetSize ≤ b → p.erased b = true)
    ⟨fun h b hlow hhigh => h b hhigh hlow, fun h b hhigh hlow => h b hlow hhigh⟩

/-- The missing ones among the first packets. -/
def missingAmong (n : ℕ) : ℕ := (List.range (min p.count n)).countP fun i => decide (p.Missing i)

/-- `IsErased` of the storage, if there is one, tells of every range inside the file whether its
bytes are erased. -/
def ToldBy (isErased : ℤ → ℤ → Bool) : Prop :=
  ∀ offset len : ℕ, offset + len ≤ p.updateSize →
    (isErased offset len = true ↔ ∀ b, offset ≤ b → b < offset + len → p.erased b = true)

end Packets

/-- The bit of a packet. -/
def bitAt (words : Words) (i : ℕ) : Bool := (words.getD (i / 32) 0).getLsbD (i % 32)

/-- What `GetMissingPackets` is to give: the number of the missing packets that have a bit, and in
the bitmap the bits of the missing ones and no others of the update. Without a bitmap all missing
packets are counted. -/
def Reported (p : Packets) (pPacketBits : Option Words) (result : Option (ℤ × Option Words)) :
    Prop :=
  match pPacketBits with
  | some words => ∃ words', result = some ((p.missingAmong (32 * words.length) : ℤ), some words') ∧
      words'.length = words.length ∧ ∀ i < 32 * words.length,
        bitAt words' i = if i < p.count then decide (p.Missing i) else bitAt words i
  | none => result = some ((p.missingAmong p.count : ℤ), none)

/-- With a bitmap, none of the packets that have a bit is missing, and the end of the last one, if
it were as long as the others, is below 2^31, if it has a bit. Without, the update is empty. -/
def Complete (p : Packets) (pPacketBits : Option Words) : Prop :=
  match pPacketBits with
  | some words => (∀ i < min p.count (32 * words.length), ¬p.Missing i) ∧
      (p.count ≤ 32 * words.length → p.count * p.packetSize < 2 ^ 31)
  | none => p.updateSize = 0

/-! ## The bitmap -/

section Bitmap

variable {words : Words} {partIdx i : ℕ}

theorem putBit_spec (hpart : partIdx < words.length) (hi : i < 32) (bit : Bool) :
    ∃ words', putBit words partIdx i bit = some words' ∧ words'.length = words.length ∧
      ∀ k, bitAt words' k = if k = 32 * partIdx + i then bit else bitAt words k := by
  refine ⟨_, if_pos hpart, List.length_set, fun k => ?_⟩
  have hlt : k % 32 < 32 := Nat.mod_lt _ (by decide)
  rw [bitAt, bitAt, List.getD_eq_getElem?_getD, List.getElem?_set]
  by_cases hsame : k = 32 * partIdx + i
  · have hword : partIdx = k / 32 := by omega
    have hbit : i = k % 32 := by omega
    rw [@if_pos (k = 32 * partIdx + i) _ hsame, if_pos hword, if_pos hpart, hbit]
    cases bit <;> simp [hlt]
  · rw [@if_neg (k = 32 * partIdx + i) _ hsame]
    by_cases hword : partIdx = k / 32
    · rw [if_pos hword, if_pos hpart, hword]
      cases bit <;> simp [hlt] <;> omega
    · rw [if_neg hword, List.getD_eq_getElem?_getD]

end Bitmap

/-! ## The walk -/

namespace File

variable (f : File)

/-- The packets from one on are visited until the file ends. -/
def visits : ℕ → ℕ → Walk → Option Walk
  | 0, _, w => some w
  | left + 1, k, w =>
      if w.offset < f.updateSize then (f.visit (k / 32) (k % 32) w).bind (visits left (k + 1))
      else some w

variable {f} {w : Walk}

theorem visits_done (h : ¬w.offset < f.updateSize) (n k : ℕ) : f.visits n k w = some w := by
  cases n with
  | zero => rfl
  | succ n => rw [visits, if_neg h]

theorem visits_add (m n k : ℕ) (w : Walk) :
    f.visits (m + n) k w = (f.visits m k w).bind (f.visits n (k + m)) := by
  induction m generalizing k w with
  | zero => rw [Nat.zero_add, visits, Option.bind_some, Nat.add_zero]
  | succ m ih =>
      by_cases h : w.offset < f.updateSize
      · rw [Nat.add_right_comm, visits, if_pos h, visits, if_pos h, Option.bind_assoc]
        congr 1
        funext w'
        rw [ih, Nat.add_right_comm, Nat.add_assoc]
      · rw [visits_done h, visits_done h, Option.bind_some, visits_done h]

theorem word_eq_visits (partIdx : ℕ) {left : ℕ} (hleft : left ≤ 32) (w : Walk) :
    f.word partIdx left w = f.visits left (32 * partIdx + (32 - left)) w := by
  induction left generalizing w with
  | zero => rfl
  | succ left ih =>
      have hdiv : (32 * partIdx + (32 - (left + 1))) / 32 = partIdx := by omega
      have hmod : (32 * partIdx + (32 - (left + 1))) % 32 = 32 - (left + 1) := by omega
      have hnext : 32 * partIdx + (32 - (left + 1)) + 1 = 32 * partIdx + (32 - left) := by omega
      rw [word, visits, hdiv, hmod, hnext]
      congr 2
      funext w'
      exact ih (by omega) w'

/-- Words and bits are counted on as packets. -/
theorem words_eq_visits (left partIdx : ℕ) (w : Walk) :
    f.words left partIdx w = f.visits (32 * left) (32 * partIdx) w := by
  induction left generalizing partIdx w with
  | zero => rfl
  | succ left ih =>
      by_cases h : w.offset < f.updateSize
      · have hlength : 32 * (left + 1) = 32 + 32 * left := by omega
        rw [words, if_pos h, word_eq_visits partIdx le_rfl, hlength, visits_add]
        congr 1
        funext w'
        rw [ih]
        congr 1
      · rw [words, if_neg h, visits_done h]

end File

/-! ## The packets -/

namespace Packets

variable (p : Packets) {k : ℕ}

theorem lt_count_iff : k < p.count ↔ k * p.packetSize < p.updateSize := by
  have hpos := p.packetSize_pos
  rw [count, Nat.lt_iff_add_one_le, Nat.le_div_iff_mul_le (by omega), Nat.add_one_mul]
  omega

theorem updateSize_le : p.updateSize ≤ p.count * p.packetSize := by
  have h := p.lt_count_iff (k := p.count)
  omega

theorem missingAmong_eq_zero {n : ℕ} :
    p.missingAmong n = 0 ↔ ∀ i < min p.count n, ¬p.Missing i := by
  simp [missingAmong, List.countP_eq_zero]

/-- What the code learns of a packet. -/
def told (isErased : Option (ℤ → ℤ → Bool)) (i : ℕ) : Bool :=
  match isErased with
  | some isErased =>
      isErased (i * p.packetSize : ℕ)
        (min ((i + 1) * p.packetSize) p.updateSize - i * p.packetSize : ℕ)
  | none => false

theorem told_iff {isErased : ℤ → ℤ → Bool} (h : p.ToldBy isErased) (hk : k < p.count) :
    p.told (some isErased) k = true ↔ p.Missing k := by
  have hlt := p.lt_count_iff.mp hk
  have hle : k * p.packetSize ≤ (k + 1) * p.packetSize := Nat.mul_le_mul_right _ (by omega)
  have hend : k * p.packetSize + (min ((k + 1) * p.packetSize) p.updateSize - k * p.packetSize) =
      min ((k + 1) * p.packetSize) p.updateSize := by omega
  rw [told, h _ _ (by omega), hend]
  rfl

variable (isErased : Option (ℤ → ℤ → Bool)) (words : Words)

/-- The file of the packets. -/
def file : File := ⟨p.updateSize, isErased⟩

/-- The first packets are done, and their bits are what the code has learnt. -/
structure Done (k : ℕ) (w : Walk) : Prop where
  le : k ≤ p.count
  offset : w.offset = (min (k * p.packetSize) p.updateSize : ℕ)
  pktSize : k < p.count → w.pktSize = p.packetSize
  bits : ∃ words', w.pPacketBits = some words' ∧ words'.length = words.length ∧
    ∀ i, bitAt words' i = if i < k then p.told isErased i else bitAt words i

@[simp] theorem updateSize_file : (p.file isErased).updateSize = p.updateSize := rfl

variable {p isErased words} {w : Walk}

theorem Done.going_on (h : p.Done isErased words k w) :
    w.offset < (p.file isErased).updateSize ↔ k < p.count := by
  rw [h.offset, lt_count_iff, updateSize_file]
  omega

theorem Done.offset_eq (h : p.Done isErased words k w) (hk : k < p.count) :
    w.offset = (k * p.packetSize : ℕ) := by
  have hlt := p.lt_count_iff.mp hk
  rw [h.offset, Nat.min_eq_left hlt.le]

/-- The end of the packet, were it as long as the others. -/
theorem Done.stop (h : p.Done isErased words k w) (hk : k < p.count) :
    add32 w.offset w.pktSize =
      if (k + 1) * p.packetSize < 2 ^ 31 then some (((k + 1) * p.packetSize : ℕ) : ℤ) else none := by
  have hsum : w.offset + w.pktSize = ((k + 1) * p.packetSize : ℕ) := by
    rw [h.offset_eq hk, h.pktSize hk, Nat.add_one_mul]
    push_cast
    rfl
  rw [add32, hsum]
  split_ifs <;> first | rfl | omega

theorem Done.overflow (h : p.Done isErased words k w) (hk : k < p.count)
    (hlarge : 2 ^ 31 ≤ (k + 1) * p.packetSize) (partIdx i : ℕ) :
    (p.file isErased).visit partIdx i w = none := by
  rw [File.visit, h.stop hk, if_neg (by omega)]
  rfl

theorem Done.visit (h : p.Done isErased words k w) (hk : k < p.count)
    (hroom : k < 32 * words.length) (hsmall : (k + 1) * p.packetSize < 2 ^ 31) :
    ∃ w', (p.file isErased).visit (k / 32) (k % 32) w = some w' ∧
      p.Done isErased words (k + 1) w' := by
  obtain ⟨words', hwords, hlength, hbits⟩ := h.bits
  have hlt := p.lt_count_iff.mp hk
  have hsize := p.updateSize_lt
  have hnext : (k + 1) * p.packetSize = k * p.packetSize + p.packetSize := Nat.add_one_mul _ _
  -- the last packet may be shorter
  have hpkt : (p.file isErased).pktSize w ((k + 1) * p.packetSize : ℕ) =
      some ((min ((k + 1) * p.packetSize) p.updateSize - k * p.packetSize : ℕ) : ℤ) := by
    rw [File.pktSize, updateSize_file, h.offset_eq hk, h.pktSize hk]
    by_cases hlast : (p.updateSize : ℤ) < (((k + 1) * p.packetSize : ℕ) : ℤ)
    · rw [if_pos hlast, add32, if_pos (by omega)]
      congr 1
      omega
    · rw [if_neg hlast]
      congr 1
      omega
  have hoffset : add32 w.offset
      ((min ((k + 1) * p.packetSize) p.updateSize - k * p.packetSize : ℕ) : ℤ) =
      some ((min ((k + 1) * p.packetSize) p.updateSize : ℕ) : ℤ) := by
    rw [h.offset_eq hk, add32, if_pos (by omega)]
    congr 1
    omega
  obtain ⟨words'', hput, hlength', hbits'⟩ := putBit_spec
    (show k / 32 < words'.length by omega) (show k % 32 < 32 from Nat.mod_lt _ (by decide))
    (p.told isErased k)
  refine ⟨⟨(min ((k + 1) * p.packetSize) p.updateSize : ℕ),
    (min ((k + 1) * p.packetSize) p.updateSize - k * p.packetSize : ℕ), some words''⟩, ?_, hk, rfl,
    ?_, words'', rfl, hlength'.trans hlength, ?_⟩
  · have htold : (p.file isErased).erased w.offset
        ((min ((k + 1) * p.packetSize) p.updateSize - k * p.packetSize : ℕ) : ℤ) =
        p.told isErased k := by
      rw [h.offset_eq hk]
      rfl
    rw [File.visit, h.stop hk, if_pos hsmall]
    simp only [Option.bind_eq_bind, Option.bind_some, hpkt, htold, hwords, File.store, hput,
      Option.map_some, hoffset]
    rfl
  · intro hmore
    have hlater := p.lt_count_iff.mp hmore
    simp only
    omega
  · intro i
    rw [hbits' i, hbits i]
    have hplace : i = 32 * (k / 32) + k % 32 ↔ i = k := by omega
    by_cases hi : i = k
    · rw [if_pos (by omega), if_pos (by omega), hi]
    · rw [if_neg (by omega)]
      by_cases hlow : i < k
      · rw [if_pos hlow, if_pos (by omega)]
      · rw [if_neg hlow, if_neg (by omega)]

/-- No packet but the last one ends behind the file. -/
theorem small_of_next (hk : k + 1 < p.count) : (k + 1) * p.packetSize < 2 ^ 31 := by
  have hlt := p.lt_count_iff.mp hk
  have hsize := p.updateSize_lt
  omega

theorem Done.visits (h : p.Done isErased words k w) {n : ℕ} (hroom : k + n ≤ 32 * words.length)
    (hsmall : p.count ≤ k + n → p.count * p.packetSize < 2 ^ 31) :
    ∃ w', (p.file isErased).visits n k w = some w' ∧
      p.Done isErased words (min p.count (k + n)) w' := by
  induction n generalizing k w with
  | zero => exact ⟨w, rfl, by rwa [Nat.add_zero, Nat.min_eq_right h.le]⟩
  | succ n ih =>
      by_cases hk : k < p.count
      · have hend : (k + 1) * p.packetSize < 2 ^ 31 := by
          rcases Nat.lt_or_eq_of_le hk with hmore | hlast
          · exact small_of_next hmore
          · rw [show k + 1 = p.count from hlast]
            exact hsmall (by omega)
        obtain ⟨w', hvisit, hdone⟩ := h.visit hk (by omega) hend
        obtain ⟨w'', hrest, hdone'⟩ := ih hdone (by omega) (by omega)
        refine ⟨w'', ?_, by rwa [Nat.add_right_comm, Nat.add_assoc] at hdone'⟩
        rw [File.visits, if_pos (h.going_on.mpr hk), hvisit, Option.bind_some, hrest]
      · refine ⟨w, File.visits_done (by rwa [h.going_on]) _ _, ?_⟩
        have hle := h.le
        have hall : min p.count (k + (n + 1)) = k := by omega
        rwa [hall]

theorem Done.visits_overflow (h : p.Done isErased words k w) {n : ℕ} (hk : k < p.count)
    (hroom : k + n ≤ 32 * words.length) (hlast : p.count ≤ k + n)
    (hlarge : 2 ^ 31 ≤ p.count * p.packetSize) : (p.file isErased).visits n k w = none := by
  induction n generalizing k w with
  | zero => omega
  | succ n ih =>
      rw [File.visits, if_pos (h.going_on.mpr hk)]
      rcases Nat.lt_or_eq_of_le hk with hmore | heq
      · obtain ⟨w', hvisit, hdone⟩ := h.visit hk (by omega) (small_of_next hmore)
        rw [hvisit, Option.bind_some]
        exact ih hdone hmore (by omega) (by omega)
      · rw [h.overflow hk (by rwa [show k + 1 = p.count from heq])]
        rfl

theorem done_start (p : Packets) (isErased : Option (ℤ → ℤ → Bool)) (words : Words) :
    p.Done isErased words 0 ⟨0, p.packetSize, some words⟩ where
  le := Nat.zero_le _
  offset := by simp
  pktSize := fun _ => rfl
  bits := ⟨words, rfl, rfl, fun i => by rw [if_neg (by omega)]⟩

/-- Every packet that is not missing is found to be so. -/
theorem told_of_not_missing (htold : ∀ e ∈ isErased, p.ToldBy e) (hk : k < p.count)
    (h : ¬p.Missing k) : p.told isErased k = false := by
  cases isErased with
  | none => rfl
  | some e =>
      rw [← Bool.not_eq_true, told_iff p (htold e rfl) hk]
      exact h

variable (p isErased words)

/-- With a bitmap, the walk over its words. -/
theorem getMissingPackets_some (pCount : ℤ) (hcount : pCount = words.length) :
    (p.file isErased).getMissingPackets p.packetSize (some words) pCount =
      ((p.file isErased).visits (32 * words.length) 0 ⟨0, p.packetSize, some words⟩).map
        fun w => (0, w.pPacketBits) := by
  rw [File.getMissingPackets, hcount]
  simp only [Option.bind_eq_bind, Option.bind_some, Int.toNat_natCast, File.words_eq_visits,
    Nat.mul_zero]
  rw [Option.map_eq_bind]
  rfl

variable {p isErased words}

theorem reported_some_iff (htold : ∀ e ∈ isErased, p.ToldBy e) {pCount : ℤ}
    (hcount : pCount = words.length) :
    Reported p (some words)
        ((p.file isErased).getMissingPackets p.packetSize (some words) pCount) ↔
      Complete p (some words) := by
  rw [getMissingPackets_some p isErased words pCount hcount]
  have hstart := done_start p isErased words
  constructor
  · rintro ⟨words', hresult, -, -⟩
    obtain ⟨w, hvisits, hw⟩ := Option.map_eq_some_iff.mp hresult
    have hzero : p.missingAmong (32 * words.length) = 0 := by
      have h := congrArg Prod.fst hw
      simp only at h
      omega
    refine ⟨p.missingAmong_eq_zero.mp hzero, fun hlast => ?_⟩
    by_contra hlarge
    have hpos : 0 < p.count := by
      by_contra hnone
      rw [Nat.eq_zero_of_not_pos hnone] at hlarge
      omega
    rw [hstart.visits_overflow hpos (by omega) (by omega) (by omega)] at hvisits
    cases hvisits
  · rintro ⟨hpresent, hsmall⟩
    obtain ⟨w, hvisits, hdone⟩ := hstart.visits (n := 32 * words.length) (by omega)
      (by rwa [Nat.zero_add])
    obtain ⟨words', hwords, hlength, hbits⟩ := hdone.bits
    refine ⟨words', ?_, hlength, ?_⟩
    · rw [hvisits, Option.map_some, hwords, p.missingAmong_eq_zero.mpr hpresent]
      rfl
    · intro i hi
      rw [hbits i, Nat.zero_add]
      by_cases hcount : i < p.count
      · have hmissing := hpresent i (by omega)
        rw [if_pos (by omega), if_pos hcount, told_of_not_missing htold hcount hmissing,
          decide_eq_false hmissing]
      · rw [if_neg (by omega), if_neg hcount]

/-- Without a bitmap the bit of a packet that is there is cleared at address 0. -/
theorem missing_of_visit_none (htold : ∀ e ∈ isErased, p.ToldBy e) (hpos : 0 < p.count)
    {w : Walk} (h : (p.file isErased).visit 0 0 ⟨0, p.packetSize, none⟩ = some w) :
    p.Missing 0 := by
  have hsize := p.lt_count_iff.mp hpos
  have hsmall := p.packetSize_lt
  have hpacket := p.packetSize_pos
  have hstop : add32 0 p.packetSize = some (p.packetSize : ℤ) := by
    rw [add32, if_pos (by omega), Int.zero_add]
  have hpkt : (p.file isErased).pktSize ⟨0, p.packetSize, none⟩ p.packetSize =
      some ((min p.packetSize p.updateSize : ℕ) : ℤ) := by
    have hlt := p.updateSize_lt
    rw [File.pktSize, updateSize_file]
    by_cases hlast : (p.updateSize : ℤ) < p.packetSize
    · have hmin : min p.packetSize p.updateSize = p.updateSize := by omega
      rw [if_pos hlast, hmin]
      dsimp only
      rw [Int.neg_zero, add32, if_pos (by omega), Int.add_zero]
    · have hmin : min p.packetSize p.updateSize = p.packetSize := by omega
      rw [if_neg hlast, hmin]
  rw [File.visit] at h
  simp only [hstop, hpkt, Option.bind_eq_bind, Option.bind_some] at h
  have hfound : (p.file isErased).erased 0 ((min p.packetSize p.updateSize : ℕ) : ℤ) = true := by
    by_contra hnot
    rw [Bool.not_eq_true] at hnot
    simp only [hnot, File.store, Bool.false_eq_true, if_false, Option.bind_none] at h
    cases h
  cases isErased with
  | none => cases hfound
  | some e =>
      have hrange := htold e rfl 0 (min p.packetSize p.updateSize) (by omega)
      rw [Nat.zero_add] at hrange
      intro b _ hb
      rw [Nat.zero_add, Nat.one_mul] at hb
      exact hrange.mp hfound b (Nat.zero_le b) hb

theorem reported_none_iff (htold : ∀ e ∈ isErased, p.ToldBy e) (pCount : ℤ) :
    Reported p none ((p.file isErased).getMissingPackets p.packetSize none pCount) ↔
      Complete p none := by
  have hsize := p.updateSize_lt
  rw [File.getMissingPackets, updateSize_file]
  constructor
  · intro h
    simp only [Reported, Option.bind_eq_bind] at h
    obtain ⟨cnt, hcnt, h⟩ := Option.bind_eq_some_iff.mp h
    obtain ⟨w, hwords, hresult⟩ := Option.bind_eq_some_iff.mp h
    have hzero : p.missingAmong p.count = 0 := by
      have hfst := congrArg (Option.map Prod.fst) hresult
      simp only [Option.map_some] at hfst
      have hfst' : (0 : ℤ) = p.missingAmong p.count := by simpa using hfst
      omega
    rw [Complete]
    by_contra hne
    have hpos : 0 < p.count := p.lt_count_iff.mpr (by omega)
    have hcount : cnt = (p.updateSize + 31) / 2 ^ 5 := by
      rw [add32] at hcnt
      split_ifs at hcnt with hfits
      · simpa using hcnt.symm
      · cases hcnt
    obtain ⟨n, hn⟩ : ∃ n, cnt.toNat = n + 1 := ⟨cnt.toNat - 1, by omega⟩
    rw [hn, File.words, if_pos (by rw [updateSize_file]; simp only; omega)] at hwords
    obtain ⟨w', hword, -⟩ := Option.bind_eq_some_iff.mp hwords
    rw [File.word, if_pos (by rw [updateSize_file]; simp only; omega)] at hword
    obtain ⟨w'', hvisit, -⟩ := Option.bind_eq_some_iff.mp hword
    exact (p.missingAmong_eq_zero.mp hzero) 0 (by omega) (missing_of_visit_none htold hpos hvisit)
  · intro hempty
    rw [Complete] at hempty
    have hnone : p.count = 0 := by
      by_contra hpos
      have hlt := p.lt_count_iff.mp (Nat.pos_of_ne_zero hpos)
      omega
    have hzero : p.missingAmong p.count = 0 := by
      rw [p.missingAmong_eq_zero]
      intro i hi
      omega
    rw [Reported, hempty, hzero]
    rfl

end Packets

/-- For every authenticated update, the missing packets are reported if and only if no packet that
is asked for is missing, and the last one ends below 2^31; without a bitmap only for an update
without bytes. -/
theorem missingPackets_iff (packages : List (IUpdatePackage World)) (s : State World)
    (isErased : ℕ → Option (Int → ℤ → ℤ → Bool)) {handle : Int} {i : ℕ} {update : MFUpdate}
    {package : IUpdatePackage World} {storage : IUpdateStorageProvider World}
    (hupdate : s.getUpdate handle = some (i, update))
    (hpackage : packageOf packages update = some package)
    (hstorage : package.storage = some storage) (hauthenticated : update.flags.authenticated = true)
    (p : Packets) (hsize : toInt32 update.header.updateSize = p.updateSize)
    (hpacket : toInt32 update.header.packetSize = p.packetSize)
    (htold : ∀ e ∈ isErased storage.address, p.ToldBy (e update.storageHandle))
    (pPacketBits : Option Words) (pCount : ℤ)
    (hcount : ∀ words ∈ pPacketBits, pCount = words.length) :
    Reported p pPacketBits
        (getMissingPackets packages s isErased handle pPacketBits (some pCount)).join ↔
      Complete p pPacketBits := by
  have hrun : (getMissingPackets packages s isErased handle pPacketBits (some pCount)).join =
      (p.file ((isErased storage.address).map (· update.storageHandle))).getMissingPackets
        p.packetSize pPacketBits pCount := by
    simp only [getMissingPackets, hupdate, hpackage, Option.bind_some, hstorage, hauthenticated,
      hsize, hpacket]
    rw [Bool.not_true, if_neg Bool.false_ne_true]
    have hjoin : ∀ x : Option (ℤ × Option Words), (x.map some).join = x := by
      intro x
      cases x <;> rfl
    exact hjoin _
  have htold' : ∀ e ∈ (isErased storage.address).map (· update.storageHandle), p.ToldBy e := by
    intro e he
    obtain ⟨e', he', rfl⟩ := Option.mem_map.mp he
    exact htold e' he'
  rw [hrun]
  cases pPacketBits with
  | some words => exact Packets.reported_some_iff htold' (hcount words rfl)
  | none => exact Packets.reported_none_iff htold' pCount

/-! ## Samples -/

theorem four_pos : 0 < 4 := by decide

theorem four_lt : 4 < 2 ^ 31 := by decide

/-- An update of four bytes in one packet, that are erased or not. -/
def onePacket (erased : Bool) : Packets where
  updateSize := 4
  packetSize := 4
  erased := fun _ => erased
  updateSize_lt := four_lt
  packetSize_pos := four_pos
  packetSize_lt := four_lt

def onePacketUpdate : MFUpdate where
  header := ⟨0, ⟨0, 0, 0, 0⟩, 0, 0, 4, 4⟩
  storageHandle := 0
  flags := ⟨true, false, true, false⟩
  providers := some 0

def onePacketStorage : IUpdateStorageProvider Unit where
  address := 0
  create := fun header _ w => ((0, header), w)
  openFile := fun _ _ _ w => (0, w)
  close := none
  delete := none
  write := fun _ _ _ w => (0, w)
  getHeader := fun _ w => ((true, onePacketUpdate.header), w)

def onePacketPackages : List (IUpdatePackage Unit) := [⟨none, none, none, some onePacketStorage⟩]

def onePacketState : State Unit := ⟨fun _ => onePacketUpdate, true, (), []⟩

theorem toldBy_onePacket (erased : Bool) :
    (onePacket erased).ToldBy fun _ len => erased || decide (len = 0) := by
  intro offset len _
  cases erased with
  | true => simp [onePacket]
  | false =>
      simp only [onePacket, Bool.false_or, decide_eq_true_eq, Bool.false_eq_true]
      constructor
      · intro hlen b hb hlt
        omega
      · intro h
        by_contra hne
        exact h offset le_rfl (by omega)

theorem missingPackets_iff_written :
    Reported (onePacket false) (some [7#32])
      (getMissingPackets onePacketPackages onePacketState
        (fun _ => some fun _ _ len => false || decide (len = 0)) 0 (some [7#32]) (some 1)).join := by
  apply (missingPackets_iff onePacketPackages onePacketState _ rfl rfl rfl rfl (onePacket false)
    (by decide) (by decide) _ (some [7#32]) 1 _).mpr
  · constructor
    · decide +kernel
    · intro _
      decide +kernel
  · intro e he
    obtain rfl := Option.some.inj he
    exact toldBy_onePacket false
  · intro words hwords
    obtain rfl := Option.some.inj hwords
    rfl

/-- The packet is missing, and 0 missing packets are counted. -/
theorem not_reported_erased :
    ¬Reported (onePacket true) (some [0#32])
      (getMissingPackets onePacketPackages onePacketState
        (fun _ => some fun _ _ len => true || decide (len = 0)) 0 (some [0#32]) (some 1)).join := by
  rintro ⟨words', hresult, -⟩
  have hcount : (onePacket true).missingAmong 32 = 1 := by decide +kernel
  have hrun : (getMissingPackets onePacketPackages onePacketState
      (fun _ => some fun _ _ len => true || decide (len = 0)) 0 (some [0#32]) (some 1)).join =
      some (0, some [1#32]) := by
    decide +kernel
  rw [hrun] at hresult
  have hfst := congrArg (Option.map Prod.fst) hresult
  simp only [Option.map_some, List.length_singleton, Nat.mul_one, hcount] at hfst
  cases hfst

end TinyCLR.Update
