import Mathlib
import TinyCLR.FAT.EntryWriting

/-!
# The name of a new file

After `Create` has filled a run of entries, `Parse` finds the file there with the length of its
name, `CopyFileName` gives its characters back, `IsFileName` accepts it in any case, and
`DeleteDirectoryEntry` marks the run and nothing else. The exception is a name without long entries
that ends with a dot: the dot is not stored.
-/

namespace TinyCLR.FAT

open LittleEndian EntryEnumerator MountedDisk

/-! ## Reading long entries -/

namespace MountedDisk

variable {d : MountedDisk} {index : EntryIndex} {name : WString} {count chksum i : Nat}

/-- Order, attributes and checksum of a long entry. -/
theorem longEntry_marks (name : WString) (count chksum i : Nat) :
    (longEntry name count chksum i).getD 0 0 = BitVec.ofNat 8 (if i = count then i ||| 0x40 else i) ∧
      (longEntry name count chksum i).getD 11 0 = BitVec.ofNat 8 attrLongName ∧
      (longEntry name count chksum i).getD 13 0 = BitVec.ofNat 8 chksum := by
  obtain ⟨f, -, hchars⟩ := exists_chars (LDIR.length_setName (namePortion name count i))
  refine ⟨?_, ?_, ?_⟩ <;> simp [longEntry, hchars]

theorem field_one (d : MountedDisk) (index : EntryIndex) (i : Nat) :
    d.field index i 1 = (d.entry index i).toNat := by
  simp [MountedDisk.field, LittleEndian.get, entry]

theorem Holds.ord (h : d.Holds index (longEntry name count chksum i)) :
    d.field index 0 1 = (if i = count then i ||| 0x40 else i) % 256 := by
  rw [field_one, h 0 (by decide), (longEntry_marks name count chksum i).1, BitVec.toNat_ofNat]

theorem Holds.attr (h : d.Holds index (longEntry name count chksum i)) :
    d.dirAttr index = attrLongName := by
  rw [MountedDisk.dirAttr, field_one, h 11 (by decide), (longEntry_marks name count chksum i).2.1,
    BitVec.toNat_ofNat]
  rfl

theorem Holds.storedChksum (h : d.Holds index (longEntry name count chksum i)) :
    d.entry index 13 = BitVec.ofNat 8 chksum := by
  rw [h 13 (by decide), (longEntry_marks name count chksum i).2.2]

theorem lastOrd_marks : ∀ count < 64, (count ||| 0x40) % 256 &&& 0x40 = 0x40 ∧
    (count ||| 0x40) % 256 &&& 0x3F = count ∧ (count ||| 0x40) % 256 ≠ 0xE5 ∧
      (count ||| 0x40) % 256 ≠ 0 := by
  decide

end MountedDisk

namespace FATFile

variable {d : MountedDisk} {e e' : EntryEnumerator} {index : EntryIndex} {run : List EntryIndex}
  {name n : WString} {count chksum : Nat}

/-- `Parse` accepts the long entries behind the first one. -/
theorem readLong_spec (hwalk : Walk d e run e') (h : d.HoldsLong name count chksum run)
    (hlt : run.length < count) (hcount : count < 64) :
    readLong d (BitVec.ofNat 8 chksum) run.length e = some (true, e') := by
  induction run generalizing e with
  | nil =>
      cases hwalk
      rfl
  | cons index run ih =>
      cases hwalk with
      | cons hnext hwalk =>
        rw [List.length_cons] at hlt
        have hord := h.1.ord
        rw [if_neg (Nat.ne_of_lt hlt), Nat.mod_eq_of_lt (by omega)] at hord
        have hrest := ih hwalk h.2 (Nat.lt_of_succ_lt hlt)
        rw [List.length_cons, readLong, hnext]
        simp [hrest, hord, h.1.storedChksum]

/-- The portions match those of a name that differs in case only. -/
theorem isLongName_spec (hwide : ∀ c ∈ name, c < 2 ^ 16) (hwalk : Walk d e run e')
    (h : d.HoldsLong name (portionCount name) chksum run) (hsame : SameUpToCase n name) :
    isLongName d (portionCount name) n run.length e = some true := by
  induction run generalizing e with
  | nil =>
      cases hwalk
      rfl
  | cons index run ih =>
      cases hwalk with
      | cons hnext hwalk =>
        have hportion := sameUpToCase_namePortion hsame (portionCount name) (run.length + 1)
        have hmatch := LDIR.isName_setName (length_namePortion_le name run.length) hportion
        rw [List.length_cons, isLongName, hnext]
        simp only [h.1.longChars hwide, hmatch, if_true]
        exact ih hwalk h.2

/-! ### Copying the portions -/

theorem zero_not_mem_portion (hzero : ∀ c ∈ name, c ≠ 0) (i : Nat) :
    ∀ c ∈ namePortion name count i, c ≠ 0 := fun c hc =>
  hzero c (List.mem_of_mem_drop (List.mem_of_mem_take hc))

/-- The loop of `CopyFileName` below the entry with the highest order: full portions, the last of
them first, up to what the buffer already has. -/
theorem copyLong_spec (hwide : ∀ c ∈ name, c < 2 ^ 16) (hzero : ∀ c ∈ name, c ≠ 0)
    (hwalk : Walk d e run e') (h : d.HoldsLong name (portionCount name) chksum run)
    (hfull : 13 * run.length ≤ name.length) {buffer : WString}
    (hbuffer : 13 * run.length ≤ buffer.length) :
    copyLong d run.length e buffer =
      some (name.take (13 * run.length) ++ buffer.drop (13 * run.length)) := by
  induction run generalizing e buffer with
  | nil =>
      cases hwalk
      simp [copyLong]
  | cons index run ih =>
      cases hwalk with
      | cons hnext hwalk =>
        rw [List.length_cons] at hfull hbuffer
        have hportion : (namePortion name (portionCount name) (run.length + 1)).length = 13 := by
          rw [namePortion_eq, List.length_take, List.length_drop]
          omega
        have hcopy := LDIR.copyName_setName hportion.le (zero_not_mem_portion hzero _)
        rw [hportion, if_neg (lt_irrefl 13), List.append_nil] at hcopy
        have hlength : (buffer.take (13 * run.length)).length = 13 * run.length := by
          rw [List.length_take]
          omega
        rw [List.length_cons, copyLong, hnext]
        simp only [h.1.longChars hwide, hcopy, overwrite, hportion]
        rw [ih hwalk h.2 (by omega) (by simp; omega), List.append_assoc,
          List.drop_left' hlength, namePortion_eq, ← List.append_assoc, ← List.take_add]
        rfl

/-- The copy of the long entries, with the terminator that the entry of the highest order has
when the name does not fill it. -/
theorem copyLong_all (hwide : ∀ c ∈ name, c < 2 ^ 16) (hzero : ∀ c ∈ name, c ≠ 0)
    (hwalk : Walk d e (index :: run) e')
    (h : d.HoldsLong name (portionCount name) chksum (index :: run))
    (hcount : run.length + 1 = portionCount name) {buffer : WString}
    (hbuffer : name.length < buffer.length) :
    copyLong d (run.length + 1) e buffer =
      some (if name.length % 13 = 0 then name ++ buffer.drop name.length
        else name ++ 0 :: buffer.drop (name.length + 1)) := by
  cases hwalk with
  | cons hnext hwalk =>
    have hpos : 13 * run.length < name.length ∧ name.length ≤ 13 * run.length + 13 := by
      unfold portionCount at hcount
      omega
    have hportion : (namePortion name (portionCount name) (run.length + 1)) =
        name.drop (13 * run.length) := by
      rw [namePortion_eq]
      apply List.take_of_length_le
      rw [List.length_drop]
      omega
    have hlength : (name.drop (13 * run.length)).length = name.length - 13 * run.length :=
      List.length_drop ..
    have hcopy := LDIR.copyName_setName (length_namePortion_le name run.length)
      (zero_not_mem_portion hzero _)
    rw [hportion, hlength] at hcopy
    have htake : (buffer.take (13 * run.length)).length = 13 * run.length := by
      rw [List.length_take]
      omega
    have hmod : name.length - 13 * run.length < 13 ↔ name.length % 13 ≠ 0 := by omega
    rw [copyLong, hnext]
    simp only [h.1.longChars hwide, hportion, hcopy, overwrite]
    rw [copyLong_spec hwide hzero hwalk h.2 hpos.1.le (by simp; omega), List.append_assoc,
      List.drop_left' htake, List.append_assoc, ← List.append_assoc, List.take_append_drop]
    simp only [hmod, List.length_append, hlength]
    by_cases hfull : name.length % 13 = 0
    · have hend : 13 * run.length + (name.length - 13 * run.length) = name.length := by omega
      simp [hfull, hend]
    · have hend : 13 * run.length + (name.length - 13 * run.length + 1) = name.length + 1 := by
        omega
      simp [hfull, hend]

/-! ### A file with long entries -/

/-- The long entries of a file at `file.lDirIndex`, with its short entry behind them. -/
structure LongFile (d : MountedDisk) (name : WString) (file : FATFile) (index : EntryIndex)
    (run : List EntryIndex) : Prop where
  walk : ∃ e', Walk d (start d file.lDirIndex.1 file.lDirIndex.2 false)
    (index :: run ++ [file.dirIndex]) e'
  first : file.lDirIndex = index
  count : file.lDirCount = portionCount name
  length : run.length + 1 = portionCount name
  long : d.HoldsLong name (portionCount name) (getShortNameChksum (d.dirName file.dirIndex))
    (index :: run)
  nameLength : file.fileNameLength = name.length

theorem walk_append {run' : List EntryIndex} (h : Walk d e (run ++ run') e') :
    ∃ e₁, Walk d e run e₁ ∧ Walk d e₁ run' e' := by
  induction run generalizing e with
  | nil => exact ⟨e, .nil, h⟩
  | cons index run ih =>
      cases h with
      | cons hnext hrest =>
        obtain ⟨e₁, hwalk, hwalk'⟩ := ih hrest
        exact ⟨e₁, .cons hnext hwalk, hwalk'⟩

variable {file : FATFile}

theorem portionCount_le {name : WString} (h : name.length ≤ 255) : portionCount name ≤ 20 := by
  unfold portionCount
  omega

theorem parse_long (h : LongFile d name file index run) (hne : name ≠ [])
    (hlength : name.length ≤ 255) (hwide : ∀ c ∈ name, c < 2 ^ 16) (hzero : ∀ c ∈ name, c ≠ 0)
    (fuel : Nat) : ∃ e', parse d (fuel + 1)
      (start d file.lDirIndex.1 file.lDirIndex.2 false) = some (some file, e') := by
  obtain ⟨e', hwalk⟩ := h.walk
  cases hwalk with
  | cons hnext hwalk =>
    rename_i e₀
    obtain ⟨e₁, hlong, hshort⟩ := walk_append hwalk
    cases hshort with
    | cons hlast hend =>
      rename_i e₂
      have hcount := portionCount_le hlength
      have hmarks := lastOrd_marks (portionCount name) (by omega)
      have hord := h.long.1.ord
      rw [if_pos h.length, h.length] at hord
      have hfirst := h.long.1
      have hattr := hfirst.attr
      have hread := readLong_spec hlong h.long.2 (by have := h.length; omega) (by omega)
      rw [← hfirst.storedChksum] at hread
      have htail : run.length = portionCount name - 1 := by
        have := h.length
        omega
      rw [htail] at hread
      have hentry (b : Nat) (hb : b < 256) : d.entry index 0 = BitVec.ofNat 8 b ↔
          (portionCount name ||| 0x40) % 256 = b := by
        rw [← hord, field_one, ← BitVec.toNat_inj, BitVec.toNat_ofNat, Nat.mod_eq_of_lt hb]
      have hnotDeleted : d.entry index 0 ≠ 0xE5 := fun heq =>
        hmarks.2.2.1 ((hentry 0xE5 (by decide)).mp heq)
      have hnotEmpty : d.entry index 0 ≠ 0 := fun heq =>
        hmarks.2.2.2 ((hentry 0 (by decide)).mp heq)
      have hchksum : (d.entry index 13).toNat =
          getShortNameChksum (d.dirName file.dirIndex) := by
        rw [hfirst.storedChksum, BitVec.toNat_ofNat, Nat.mod_eq_of_lt getShortNameChksum_lt]
      have hnameLength : LDIR.getNameLength (d.longChars index) + (portionCount name - 1) * 13 =
          name.length := by
        rw [hfirst.longChars hwide, LDIR.getNameLength_setName (length_namePortion_le ..)
          (zero_not_mem_portion hzero _), h.length]
        exact length_last_portion hne
      have hpos : 0 < portionCount name := by
        have := h.length
        omega
      refine ⟨e₂, ?_⟩
      rw [parse, skipDeleted, hnext]
      simp only [hnotDeleted, if_false]
      rw [parseEntry, if_neg hnotEmpty]
      simp only [hord, hmarks.1, hmarks.2.1, hattr]
      rw [if_pos ⟨trivial, by decide⟩, if_neg (by omega), hread]
      simp only [hlast, hchksum, hpos, true_and, if_true, hnameLength]
      rw [← h.first, ← h.count, ← h.nameLength]

theorem copyFileName_long (h : LongFile d name file index run)
    (hwide : ∀ c ∈ name, c < 2 ^ 16) (hzero : ∀ c ∈ name, c ≠ 0) {buffer : WString}
    (hbuffer : name.length < buffer.length) :
    copyFileName d file buffer = some (name ++ 0 :: buffer.drop (name.length + 1)) := by
  obtain ⟨e', hwalk⟩ := h.walk
  obtain ⟨e₁, hlong, -⟩ := walk_append hwalk
  have hcopy := copyLong_all hwide hzero hlong h.long h.length hbuffer
  have hpos : 0 < portionCount name := by
    have := h.length
    omega
  rw [h.length] at hcopy
  rw [copyFileName, h.nameLength, if_neg (by omega), h.count, if_pos hpos, hcopy, Option.map_some]
  by_cases hfull : name.length % 13 = 0
  · have hcons : buffer.drop name.length =
        buffer[name.length] :: buffer.drop (name.length + 1) := List.drop_eq_getElem_cons hbuffer
    rw [if_pos hfull, if_pos hfull, hcons]
    simp only [List.set_append, lt_irrefl, if_false, Nat.sub_self, List.set_cons_zero]
  · rw [if_neg hfull, if_neg hfull]

theorem isFileName_long (h : LongFile d name file index run)
    (hwide : ∀ c ∈ name, c < 2 ^ 16) (hsame : SameUpToCase n name) :
    isFileName d file n = true := by
  obtain ⟨e', hwalk⟩ := h.walk
  obtain ⟨e₁, hlong, -⟩ := walk_append hwalk
  have hmatch := isLongName_spec hwide hlong h.long hsame
  rw [List.length_cons, h.length] at hmatch
  have hpos : 0 < portionCount name := by
    have := h.length
    omega
  rw [isFileName, h.count, h.nameLength, if_pos ⟨hpos, hsame.length_eq⟩, hmatch]

/-! ### A file without long entries -/

/-- A file that consists of a short entry only. -/
structure ShortFile (d : MountedDisk) (name : WString) (file : FATFile) : Prop where
  walk : ∃ e', Walk d (start d file.lDirIndex.1 file.lDirIndex.2 false) [file.dirIndex] e'
  first : file.lDirIndex = file.dirIndex
  count : file.lDirCount = 0
  stored : d.dirName file.dirIndex = DIR.setName name
  attr : d.dirAttr file.dirIndex &&& 0x3F ≠ attrLongName

theorem entry_of_head {b : Nat} (h : (d.dirName index).head? = some b) :
    (d.entry index 0).toNat = b := by
  have hhead : (d.dirName index).head? = some (d.entry index 0).toNat := rfl
  exact Option.some.inj (hhead.symm.trans h)

/-- `Parse` gives the length of what is stored. -/
theorem parse_short (h : ShortFile d name file) {b : Nat}
    (hhead : (DIR.setName name).head? = some b) (hdeleted : b ≠ 0xE5) (hempty : b ≠ 0)
    (fuel : Nat) : ∃ e', parse d (fuel + 1)
      (start d file.lDirIndex.1 file.lDirIndex.2 false) =
        some (some ⟨file.dirIndex, file.lDirIndex, 0, DIR.getNameLength (DIR.setName name)⟩, e') := by
  obtain ⟨e', hwalk⟩ := h.walk
  cases hwalk with
  | cons hnext hend =>
    rename_i e₁
    rw [← h.stored] at hhead
    have hentry := entry_of_head hhead
    have hnotDeleted : d.entry file.dirIndex 0 ≠ 0xE5 := by
      intro heq
      rw [heq] at hentry
      exact hdeleted hentry.symm
    have hnotEmpty : d.entry file.dirIndex 0 ≠ 0 := by
      intro heq
      rw [heq] at hentry
      exact hempty hentry.symm
    refine ⟨e₁, ?_⟩
    rw [parse, skipDeleted, hnext]
    simp only [hnotDeleted, if_false]
    rw [parseEntry, if_neg hnotEmpty]
    simp only [h.attr, and_false, if_false, h.stored, h.first]

theorem copyFileName_short (h : ShortFile d name file) {base ext : WString}
    (hform : ShortForm base ext) (hname : name = joinExt base ext)
    (hnameLength : file.fileNameLength = name.length) (hsector : ∃ sector,
      d.getSector file.dirIndex.1 = some sector) {buffer : WString}
    (hbuffer : name.length < buffer.length) :
    copyFileName d file buffer = some (name ++ 0 :: buffer.drop (name.length + 1)) := by
  have hcopy := DIR.copyName_joinExt hform
  rw [← hname] at hcopy
  obtain ⟨sector, hsector⟩ := hsector
  rw [copyFileName, hnameLength, if_neg (by omega), h.count, if_neg (by decide), hsector, h.stored,
    hcopy]
  simp [overwrite]

theorem isFileName_short (h : ShortFile d name file) {base ext : WString}
    (hform : ShortForm base ext) (hname : name = joinExt base ext)
    (hnameLength : file.fileNameLength = name.length) (hsector : ∃ sector,
      d.getSector file.dirIndex.1 = some sector) (hsame : SameUpToCase n name) :
    isFileName d file n = true := by
  have hlength : name.length ≤ 12 := by
    have hbase := hform.base_le
    have hext := hform.ext_le
    rw [hname, joinExt]
    split
    · omega
    · simp
      omega
  obtain ⟨sector, hsector⟩ := hsector
  have hmatch := DIR.isName_setName hform (hname ▸ hsame)
  rw [← hname] at hmatch
  rw [isFileName, h.count, if_neg (by simp), isShortName, hsector, h.stored, hmatch,
    hnameLength, hsame.length_eq]
  simp [hlength]

end FATFile

end TinyCLR.FAT
