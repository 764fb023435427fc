import Mathlib
import TinyCLR.FAT.EntryRun

/-!
# Entries that are written and read

`Create` fills a run of entries: the long ones from the highest order down, and then the short one.
What it writes is what `Parse`, `IsFileName` and `CopyFileName` find there.
-/

namespace TinyCLR.FAT

open LittleEndian EntryEnumerator

namespace MountedDisk

variable {d d' : MountedDisk} {index index' : EntryIndex} {run : List EntryIndex}

/-! ## Contents of entries -/

/-- The entry consists of these bytes. -/
def Holds (d : MountedDisk) (index : EntryIndex) (bytes : List (BitVec 8)) : Prop :=
  ∀ i < 32, d.entry index i = bytes.getD i 0

theorem entry_setEntryBytes {i k : Nat} {bytes : List (BitVec 8)} :
    (d.setEntryBytes index i bytes).entry index k =
      if i ≤ k ∧ k < i + bytes.length then bytes.getD (k - i) 0 else d.entry index k := by
  rw [entry, setEntryBytes, sectors_setSector_same, putBytes, entry]
  have hle : index.2 + i ≤ index.2 + k ↔ i ≤ k := by omega
  have hlt : index.2 + k < index.2 + i + bytes.length ↔ k < i + bytes.length := by omega
  simp only [hle, hlt, Nat.add_sub_add_left]

theorem entry_setField {i width value k : Nat} :
    (d.setField index i width value).entry index k =
      if i ≤ k ∧ k < i + width then BitVec.ofNat 8 (value / 256 ^ (k - i))
      else d.entry index k := by
  have hle : index.2 + i ≤ index.2 + k ↔ i ≤ k := by omega
  have hlt : index.2 + k < index.2 + i + width ↔ k < i + width := by omega
  rw [entry, setField_sectors, entry]
  simp only [true_and, hle, hlt, Nat.add_sub_add_left]

theorem holds_setEntryBytes {bytes : List (BitVec 8)} (h : bytes.length = 32) :
    (d.setEntryBytes index 0 bytes).Holds index bytes := by
  intro i hi
  rw [entry_setEntryBytes, if_pos (by omega), Nat.sub_zero]

theorem OnlyAt.holds (h : OnlyAt run d d') (haligned : ∀ index ∈ run, index.2 % 32 = 0)
    (haligned' : index'.2 % 32 = 0) (hne : index' ∉ run) {bytes : List (BitVec 8)}
    (hholds : d.Holds index' bytes) : d'.Holds index' bytes := by
  intro i hi
  rw [h.entry haligned haligned' hne hi]
  exact hholds i hi

theorem get_shift (m : Memory) (a i width : Nat) :
    get m (a + i) width = get (fun k => m (a + k)) i width := by
  induction width generalizing i with
  | zero => rfl
  | succ width ih => rw [LittleEndian.get, LittleEndian.get, Nat.add_assoc, ih]

/-- A field is read from the bytes of its entry. -/
theorem Holds.field {bytes : List (BitVec 8)} (h : d.Holds index bytes) (i width : Nat)
    (hle : i + width ≤ 32) : d.field index i width = get (fun k => bytes.getD k 0) i width := by
  rw [MountedDisk.field, get_shift]
  apply get_congr
  intro k hk hlt
  exact h k (by omega)

/-! ## Long entries -/

/-- The bytes of the long entry with order `i`. -/
def longEntry (name : WString) (count chksum i : Nat) : List (BitVec 8) :=
  let chars := LDIR.setName (namePortion name count i)
  let word (c : Nat) : List (BitVec 8) := [BitVec.ofNat 8 c, BitVec.ofNat 8 (c / 256)]
  let ord := if i = count then i ||| 0x40 else i
  [BitVec.ofNat 8 ord] ++ (chars.take 5).flatMap word ++
    [BitVec.ofNat 8 attrLongName, 0, BitVec.ofNat 8 chksum] ++
    ((chars.drop 5).take 6).flatMap word ++ [0, 0] ++ (chars.drop 11).flatMap word

/-- The long entries of a name stand at these places, the one with the highest order first. -/
def HoldsLong (d : MountedDisk) (name : WString) (count chksum : Nat) : List EntryIndex → Prop
  | [] => True
  | index :: run =>
      d.Holds index (longEntry name count chksum (run.length + 1)) ∧ HoldsLong d name count chksum run

theorem exists_chars {chars : List Nat} (h : chars.length = 13) :
    ∃ f : Nat → Nat, (∀ i < 13, f i ∈ chars) ∧
      chars = [f 0, f 1, f 2, f 3, f 4, f 5, f 6, f 7, f 8, f 9, f 10, f 11, f 12] := by
  refine ⟨fun i => chars.getD i 0, ?_, ?_⟩
  · intro i hi
    simp [h, hi]
  · have hrange : chars = (List.range 13).map (fun i => chars.getD i 0) := by
      apply List.ext_getElem
      · simp [h]
      · intro i hi _
        simp [hi]
    exact hrange

theorem length_longEntry (name : WString) (count chksum i : Nat) :
    (longEntry name count chksum i).length = 32 := by
  obtain ⟨f, -, hchars⟩ := exists_chars (LDIR.length_setName (namePortion name count i))
  simp [longEntry, hchars]

/-- The characters that `SetName` has stored. -/
theorem Holds.longChars {name : WString} (hwide : ∀ c ∈ name, c < 2 ^ 16) {count chksum i : Nat}
    (h : d.Holds index (longEntry name count chksum i)) :
    d.longChars index = LDIR.setName (namePortion name count i) := by
  have hlt := @LDIR.setName_lt (namePortion name count i) fun c hc =>
    hwide c (List.mem_of_mem_drop (List.mem_of_mem_take hc))
  obtain ⟨f, hmem, hchars⟩ := exists_chars (LDIR.length_setName (namePortion name count i))
  have hfield (k : Nat) (hk : k + 2 ≤ 32) := h.field k 2 hk
  have hword {c : Nat} (hc : c < 2 ^ 16) : c % 256 + 256 * (c / 256 % 256) = c := by omega
  have hbound (j : Nat) (hj : j < 13) := hword (hlt (f j) (hmem j hj))
  rw [MountedDisk.longChars, hchars]
  simp only [List.map_cons, List.map_nil, hfield 1 (by decide), hfield 3 (by decide),
    hfield 5 (by decide), hfield 7 (by decide), hfield 9 (by decide), hfield 14 (by decide),
    hfield 16 (by decide), hfield 18 (by decide), hfield 20 (by decide), hfield 22 (by decide),
    hfield 24 (by decide), hfield 28 (by decide), hfield 30 (by decide)]
  simp [LittleEndian.get, longEntry, hchars, hbound]

/-! ## The loops over a run -/

/-- A run of places that are all different and outside of the FAT. -/
structure Apart (d : MountedDisk) (run : List EntryIndex) : Prop extends d.Outside run where
  nodup : run.Nodup

theorem Apart.congr (h : d.Apart run) (hsame : d.SameVolume d') : d'.Apart run :=
  ⟨h.toOutside.congr hsame, h.nodup⟩

theorem Apart.tail (h : d.Apart (index :: run)) : d.Apart run :=
  ⟨h.toOutside.tail, h.nodup.of_cons⟩

theorem Apart.head (h : d.Apart (index :: run)) : d.Outside [index] := by
  constructor
  · intro i hi
    rw [List.mem_singleton.mp hi]
    exact h.aligned index (by simp)
  · intro i hi
    rw [List.mem_singleton.mp hi]
    exact h.notTable index (by simp)

theorem writeLong_cons {name : WString} {count chksum i : Nat} {e e' : EntryEnumerator}
    (hnext : e.next d = (some index, e')) :
    writeLong name count chksum (i + 1) e d =
      writeLong name count chksum i e' (d.setEntryBytes index 0
        (longEntry name count chksum (i + 1))) := by
  rw [writeLong, hnext]
  rfl

/-- The loop of `Create` over the long entries fills the run that lies before it. -/
theorem writeLong_spec (name : WString) (count chksum : Nat) {e e' : EntryEnumerator}
    (hextend : e.extend = false) (hapart : d.Apart run) (hwalk : Walk d e run e') :
    ∃ d', writeLong name count chksum run.length e d = (some e', d') ∧ OnlyAt run d d' ∧
      d'.HoldsLong name count chksum run := by
  induction run generalizing d e with
  | nil =>
      cases hwalk
      exact ⟨d, rfl, .refl [] d, trivial⟩
  | cons index run ih =>
      cases hwalk with
      | cons hnext hwalk =>
        rename_i e₁
        have hlength := length_longEntry name count chksum (run.length + 1)
        have hwrite := onlyAt_setEntryBytes d index (Nat.zero_add _ |>.trans hlength).le
        have hextend₁ : e₁.extend = false := by
          have hkept := next_extend (d := d) hextend
          rwa [hnext] at hkept
        obtain ⟨d', hrest, honly, hholds⟩ := ih hextend₁ (hapart.tail.congr hwrite.same)
          (hwalk.congr hwrite hapart.head hextend₁)
        have hnotMem : index ∉ run := (List.nodup_cons.mp hapart.nodup).1
        refine ⟨d', (writeLong_cons hnext).trans hrest, ?_, ?_, hholds⟩
        · exact (hwrite.mono (by simp)).trans (honly.mono (by simp))
        · apply honly.holds hapart.tail.aligned (hapart.aligned index (by simp)) hnotMem
          exact holds_setEntryBytes hlength

/-- The long entries stay when another entry is written. -/
theorem HoldsLong.congr {name : WString} {count chksum : Nat}
    (h : d.HoldsLong name count chksum run) (honly : OnlyAt [index'] d d')
    (haligned : index'.2 % 32 = 0) (hrun : ∀ index ∈ run, index.2 % 32 = 0)
    (hne : index' ∉ run) : d'.HoldsLong name count chksum run := by
  induction run with
  | nil => trivial
  | cons index run ih =>
      have hindex : index ∉ [index'] := by
        simp only [List.mem_singleton]
        rintro rfl
        exact hne (by simp)
      have haligned' : ∀ i ∈ [index'], i.2 % 32 = 0 := by
        intro i hi
        rw [List.mem_singleton.mp hi]
        exact haligned
      constructor
      · exact honly.holds haligned' (hrun index (by simp)) hindex h.1
      · exact ih h.2 (fun i hi => hrun i (by simp [hi])) (fun hmem => hne (by simp [hmem]))

/-- `DeleteDirectoryEntry` marks the entries of the run, and those only. -/
theorem deleteEntries_spec {e e' : EntryEnumerator} (hextend : e.extend = false)
    (hapart : d.Apart run) (hwalk : Walk d e run e') :
    deleteEntries run.length e d =
      (true, run.foldl (fun d index => d.setEntryBytes index 0 [0xE5]) d) := by
  induction run generalizing d e with
  | nil => rfl
  | cons index run ih =>
      cases hwalk with
      | cons hnext hwalk =>
        rename_i e₁
        have hwrite := onlyAt_setEntryBytes d index
          (show 0 + [(0xE5 : BitVec 8)].length ≤ 32 by decide)
        have hextend₁ : e₁.extend = false := by
          have hkept := next_extend (d := d) hextend
          rwa [hnext] at hkept
        rw [List.length_cons, deleteEntries, hnext]
        exact ih hextend₁ (hapart.tail.congr hwrite.same)
          (hwalk.congr hwrite hapart.head hextend₁)

/-! ## The short entry -/

theorem onlyAt_writeShort (d : MountedDisk) (index : EntryIndex) {dirName : ShortName}
    (h : dirName.length = 11) (attributes fstClus : Nat) (now : FATTime) :
    OnlyAt [index] d (d.writeShort index dirName attributes fstClus now) := by
  have hname : 0 + (dirName.map fun c => BitVec.ofNat 8 c).length ≤ 32 := by simp [h]
  unfold writeShort setFstClus setCreationTime setWriteTime setLstAccDate
  apply OnlyAt.trans _ (onlyAt_setField (by decide) _)
  apply OnlyAt.trans _ (onlyAt_setField (by decide) _)
  apply OnlyAt.trans _ (onlyAt_setField (by decide) _)
  apply OnlyAt.trans _ (onlyAt_setField (by decide) _)
  apply OnlyAt.trans _ (onlyAt_setField (by decide) _)
  apply OnlyAt.trans _ (onlyAt_setField (by decide) _)
  apply OnlyAt.trans _ (onlyAt_setEntryBytes _ _ hname)
  apply OnlyAt.trans _ (onlyAt_setField (by decide) _)
  apply OnlyAt.trans _ (onlyAt_setField (by decide) _)
  apply OnlyAt.trans _ (onlyAt_setField (by decide) _)
  exact onlyAt_setEntryBytes _ _ (by simp)

/-- Name and attributes of the short entry. -/
theorem entry_writeShort (d : MountedDisk) (index : EntryIndex) {dirName : ShortName}
    (h : dirName.length = 11) (attributes fstClus : Nat) (now : FATTime) {i : Nat}
    (hi : i ≤ 11) :
    (d.writeShort index dirName attributes fstClus now).entry index i =
      BitVec.ofNat 8 (if i = 11 then attributes else dirName.getD i 0) := by
  unfold writeShort setFstClus setCreationTime setWriteTime setLstAccDate
  simp only [entry_setField, entry_setEntryBytes, List.length_map, h]
  by_cases hattr : i = 11
  · subst hattr
    rw [if_neg (by omega), if_neg (by omega), if_neg (by omega), if_neg (by omega),
      if_neg (by omega), if_neg (by omega), if_neg (by omega), if_neg (by omega),
      if_neg (by omega), if_pos (by omega), if_pos rfl, Nat.sub_self, pow_zero, Nat.div_one]
  · have hlt : i < 11 := by omega
    have hget : (dirName.map fun c => BitVec.ofNat 8 c).getD i 0 =
        BitVec.ofNat 8 (dirName.getD i 0) := by
      simp [h, hlt]
    rw [if_neg (by omega), if_neg (by omega), if_neg (by omega), if_neg (by omega),
      if_neg (by omega), if_neg (by omega), if_pos (by omega), Nat.sub_zero, hget, if_neg hattr]

theorem dirName_writeShort {dirName : ShortName} (h : dirName.length = 11)
    (attributes fstClus : Nat) (now : FATTime) :
    (d.writeShort index dirName attributes fstClus now).dirName index = dirName.map (· % 256) := by
  unfold MountedDisk.dirName
  apply List.ext_getElem
  · simp [h]
  · intro i hi hi'
    simp only [List.length_map, List.length_range] at hi
    have hentry := entry_writeShort d index h attributes fstClus now (show i ≤ 11 by omega)
    simp only [List.getElem_map, List.getElem_range, hentry, BitVec.toNat_ofNat]
    rw [if_neg (by omega), List.getD_eq_getElem _ _ (by omega)]

theorem dirAttr_writeShort {dirName : ShortName} (h : dirName.length = 11)
    (attributes fstClus : Nat) (now : FATTime) :
    (d.writeShort index dirName attributes fstClus now).dirAttr index = attributes % 256 := by
  have hentry := entry_writeShort d index h attributes fstClus now (le_refl 11)
  unfold entry at hentry
  simp [MountedDisk.dirAttr, MountedDisk.field, LittleEndian.get, hentry]

end MountedDisk

end TinyCLR.FAT
