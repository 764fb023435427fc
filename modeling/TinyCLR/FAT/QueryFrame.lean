import Mathlib
import TinyCLR.FAT.Path

/-!
# What queries leave on the disk

`GetFileInfo`, `GetAttributes` and `FindNext` leave the disk as it is. `FindOpen` goes through the
creating branches of `GetFile`, since the bits of `GetFile__GET_DIRECTORY_ONLY` contain those of
`GetFile__CREATE_DIRECTORY` and `GetFile__CREATE_PATH`: it leaves everything but access dates alone
exactly when the walk along the path is quiet.
-/

namespace TinyCLR.FAT

open LittleEndian

/-! ## Bytes of the times in an entry -/

/-- Whether a byte of an entry belongs to the creation time or to the write time. -/
def isStamp (k : Nat) : Prop := (13 ≤ k ∧ k < 18) ∨ (22 ≤ k ∧ k < 26)

instance : DecidablePred isStamp := fun k =>
  inferInstanceAs (Decidable ((13 ≤ k ∧ k < 18) ∨ (22 ≤ k ∧ k < 26)))

/-- The byte that belongs there at some time. -/
def stampByte (now : FATTime) (k : Nat) : BitVec 8 :=
  if 22 ≤ k ∧ k < 24 then BitVec.ofNat 8 (now.time / 256 ^ (k - 22))
  else if 24 ≤ k ∧ k < 26 then BitVec.ofNat 8 (now.date / 256 ^ (k - 24))
  else if 13 ≤ k ∧ k < 14 then BitVec.ofNat 8 (now.timeTenth / 256 ^ (k - 13))
  else if 14 ≤ k ∧ k < 16 then BitVec.ofNat 8 (now.time / 256 ^ (k - 14))
  else BitVec.ofNat 8 (now.date / 256 ^ (k - 16))

namespace MountedDisk

variable {d d' : MountedDisk} {index : EntryIndex} {now : FATTime}

theorem setField_sectors (d : MountedDisk) (index : EntryIndex) (i width value s a : Nat) :
    (d.setField index i width value).sectors s a =
      if s = index.1 ∧ index.2 + i ≤ a ∧ a < index.2 + i + width then
        BitVec.ofNat 8 (value / 256 ^ (a - (index.2 + i)))
      else d.sectors s a := by
  by_cases hs : s = index.1
  · subst hs
    simp [setField, setSector, put]
  · simp [setField, setSector, hs]

/-- Creation and write time are all that `setCreationTime` and `setWriteTime` write. -/
theorem setTimes_sectors (d : MountedDisk) (index : EntryIndex) (now : FATTime) (s a : Nat) :
    ((d.setCreationTime index now).setWriteTime index now).sectors s a =
      if s = index.1 ∧ index.2 ≤ a ∧ isStamp (a - index.2) then stampByte now (a - index.2)
      else d.sectors s a := by
  simp only [setCreationTime, setWriteTime, setField_sectors]
  by_cases hs : s = index.1
  · by_cases ha : index.2 ≤ a
    · obtain ⟨k, rfl⟩ := Nat.exists_eq_add_of_le ha
      simp only [hs, true_and, Nat.add_sub_add_left, Nat.add_sub_cancel_left, isStamp, stampByte,
        Nat.le_add_right]
      split_ifs <;> first | rfl | omega
    · simp only [hs, ha, true_and, false_and, if_false]
      split_ifs <;> first | rfl | omega
  · simp [hs]

theorem setLstAccDate_stamp {s a : Nat} (haligned : index.2 % 32 = 0) (hstamp : isStamp (a % 32)) :
    (d.setLstAccDate index now).sectors s a = d.sectors s a := by
  rw [setLstAccDate, setField_sectors]
  apply if_neg
  unfold isStamp at hstamp
  omega

/-! ## Access dates -/

/-- An entry already has the time `now` as its creation and its write time. -/
def Current (d : MountedDisk) (index : EntryIndex) (now : FATTime) : Prop :=
  (d.setCreationTime index now).setWriteTime index now = d

/-- The disk after the access dates of some files have been updated. -/
inductive Accessed (fuel : Nat) (now : FATTime) (d : MountedDisk) : MountedDisk → Prop where
  | refl : Accessed fuel now d d
  | step {d' : MountedDisk} {clusIndex : Nat} {name : WString} {file : FATFile} :
      Accessed fuel now d d' →
      d'.searchCurDir name fuel (EntryEnumerator.start d' (d'.clusToSect clusIndex) 0 false) =
        some (some file) →
      Accessed fuel now d (d'.setLstAccDate file.dirIndex now)

/-- Creation and write times of all entries are the same on both disks. -/
def SameStamps (d d' : MountedDisk) : Prop :=
  ∀ s a, isStamp (a % 32) → d'.sectors s a = d.sectors s a

/-- A byte of a creation or write time stands at `now`. -/
def StampedAt (d : MountedDisk) (now : FATTime) (s a : Nat) : Prop :=
  d.sectors s a = stampByte now (a % 32)

end MountedDisk

/-! ## Entries are aligned -/

namespace EntryEnumerator

variable {d : MountedDisk} {e e' : EntryEnumerator} {index : EntryIndex}

/-- The enumerator stands at the start of an entry. -/
def Aligned (e : EntryEnumerator) : Prop := e.dataIndex % 32 = 0

theorem start_aligned (d : MountedDisk) (sectIndex : Nat) (extend : Bool) :
    (start d sectIndex 0 extend).Aligned := rfl

theorem current_eq_some (h : e.current d = some index) : index = e.getIndices := by
  unfold current at h
  cases hsector : d.getSector e.sectIndex with
  | none => simp [hsector] at h
  | some sector => simpa [hsector, eq_comm] using h

theorem getNext_aligned (haligned : e.Aligned) : (e.getNext d).2.1.Aligned := by
  unfold Aligned at haligned ⊢
  unfold getNext
  split_ifs
  · exact haligned
  · exact haligned
  · simpa using haligned
  · cases hnext : d.getNextSect e.clusIndex e.sectIndex e.extend e.extend with
    | mk found d' =>
      cases found with
      | none => simpa using haligned
      | some place => rfl

theorem next_aligned (haligned : e.Aligned) : (e.next d).2.Aligned := getNext_aligned haligned

theorem getNext_index (h : (e.getNext d).1 = some index) :
    index = (e.getNext d).2.1.getIndices := by
  unfold getNext at h ⊢
  split_ifs at h ⊢
  · exact current_eq_some h
  · exact current_eq_some h
  · cases hnext : d.getNextSect e.clusIndex e.sectIndex e.extend e.extend with
    | mk found d' =>
      rw [hnext] at h
      cases found with
      | none => cases h
      | some place => exact current_eq_some h

theorem next_index_aligned (haligned : e.Aligned) (h : e.next d = (some index, e')) :
    index.2 % 32 = 0 ∧ e'.Aligned := by
  have hfound : (e.getNext d).1 = some index := congrArg Prod.fst h
  have hrest : (e.getNext d).2.1 = e' := congrArg Prod.snd h
  have he' : e'.Aligned := hrest ▸ getNext_aligned haligned
  rw [getNext_index hfound, hrest]
  exact ⟨he', he'⟩

end EntryEnumerator

namespace FATFile

variable {d : MountedDisk} {e e' : EntryEnumerator} {file : FATFile}

theorem skipDeleted_aligned {index : EntryIndex} {fuel : Nat} (haligned : e.Aligned)
    (h : skipDeleted d fuel e = some (some index, e')) : index.2 % 32 = 0 ∧ e'.Aligned := by
  induction fuel generalizing e with
  | zero => cases h
  | succ fuel ih =>
      rw [skipDeleted] at h
      cases hnext : e.next d with
      | mk found e₁ =>
        rw [hnext] at h
        cases found with
        | none => simp at h
        | some index₁ =>
            have hnow := EntryEnumerator.next_index_aligned haligned hnext
            simp only at h
            split_ifs at h
            · exact ih hnow.2 h
            · cases h
              exact hnow

theorem readLong_aligned {checksum : BitVec 8} {i : Nat} {inOrder : Bool} (haligned : e.Aligned)
    (h : readLong d checksum i e = some (inOrder, e')) : e'.Aligned := by
  induction i generalizing e inOrder with
  | zero =>
      cases h
      exact haligned
  | succ i ih =>
      rw [readLong] at h
      cases hnext : e.next d with
      | mk found e₁ =>
        rw [hnext] at h
        cases found with
        | none => cases h
        | some index =>
            simp only at h
            cases hrest : readLong d checksum i e₁ with
            | none => simp [hrest] at h
            | some rest =>
                simp only [hrest, Option.map_some, Option.some.injEq, Prod.mk.injEq] at h
                exact ih (EntryEnumerator.next_index_aligned haligned hnext).2
                  (hrest.trans (congrArg some (Prod.ext rfl h.2)))

theorem parseEntry_aligned {index : EntryIndex} (hindex : index.2 % 32 = 0) (haligned : e.Aligned)
    (h : parseEntry d index e = (some file, e')) : file.dirIndex.2 % 32 = 0 ∧ e'.Aligned := by
  unfold parseEntry at h
  simp only at h
  split_ifs at h
  · cases h
  · cases h
  · cases hlong : readLong d (d.entry index 13) ((d.field index 0 1 &&& 0x3F) - 1) e with
    | none => simp [hlong] at h
    | some rest =>
        have hrest := readLong_aligned haligned hlong
        rw [hlong] at h
        cases hnext : rest.2.next d with
        | mk found e₁ =>
          simp only [hnext] at h
          cases found with
          | none => cases h
          | some index' =>
              have hnow := EntryEnumerator.next_index_aligned hrest hnext
              simp only at h
              split_ifs at h
              · cases h
                exact hnow
              · cases h
                exact hnow
  · cases h
    exact ⟨hindex, haligned⟩

theorem parse_aligned {fuel : Nat} (haligned : e.Aligned)
    (h : parse d fuel e = some (some file, e')) : file.dirIndex.2 % 32 = 0 ∧ e'.Aligned := by
  unfold parse at h
  cases hskip : skipDeleted d fuel e with
  | none => simp [hskip] at h
  | some skipped =>
      obtain ⟨found, e₁⟩ := skipped
      cases found with
      | none => simp [hskip] at h
      | some index =>
          have hindex := skipDeleted_aligned haligned hskip
          simp only [hskip, Option.some.injEq] at h
          exact parseEntry_aligned hindex.1 hindex.2 h

end FATFile

namespace MountedDisk

variable {d d' : MountedDisk} {index : EntryIndex} {now : FATTime} {fuel : Nat}

theorem searchCurDir_aligned {name : WString} {e : EntryEnumerator} {file : FATFile}
    (haligned : e.Aligned) (h : d.searchCurDir name fuel e = some (some file)) :
    file.dirIndex.2 % 32 = 0 := by
  induction fuel generalizing e with
  | zero => cases h
  | succ fuel ih =>
      rw [searchCurDir] at h
      cases hparse : FATFile.parse d (fuel + 1) e with
      | none => simp [hparse] at h
      | some parsed =>
          obtain ⟨found, e₁⟩ := parsed
          cases found with
          | none => simp [hparse] at h
          | some file₁ =>
              have hnow := FATFile.parse_aligned haligned hparse
              simp only [hparse] at h
              split_ifs at h
              · cases h
                exact hnow.1
              · exact ih hnow.2 h

/-! ## One component of a query -/

/-- The search for a component in the directory at a cluster. -/
def lookup (d : MountedDisk) (fuel clusIndex : Nat) (name : WString) : Option (Option FATFile) :=
  d.searchCurDir name fuel (EntryEnumerator.start d (d.clusToSect clusIndex) 0 false)

theorem lookup_aligned {clusIndex : Nat} {name : WString} {file : FATFile}
    (h : d.lookup fuel clusIndex name = some (some file)) : file.dirIndex.2 % 32 = 0 :=
  searchCurDir_aligned (EntryEnumerator.start_aligned d _ false) h

theorem touch_getFileNone (d : MountedDisk) (index : EntryIndex) (now : FATTime) :
    d.touch index getFileNone now = d := rfl

/-- All bits that create are among those of `GetFile__GET_DIRECTORY_ONLY`, and so the times of a
new file are written as well. -/
theorem touch_getDirectoryOnly (d : MountedDisk) (index : EntryIndex) (now : FATTime) :
    d.touch index getFileGetDirectoryOnly now =
      ((d.setCreationTime index now).setWriteTime index now).setLstAccDate index now := by
  rw [touch, if_neg (by decide), if_pos (by decide)]

theorem creationAttributes_getDirectoryOnly (isLast : Bool) :
    creationAttributes getFileGetDirectoryOnly isLast = some attrDirectory := by
  cases isLast <;> decide

theorem creationAttributes_getFileNone (isLast : Bool) :
    creationAttributes getFileNone isLast = none := by
  cases isLast <;> decide

theorem creationAttributes_createFile (isLast : Bool) :
    creationAttributes getFileCreateFile isLast =
      if isLast then some attrArchive else none := by
  cases isLast <;> decide

theorem creationAttributes_move (isLast : Bool) :
    creationAttributes (getFileCreateFile ||| getFileFailIfExists) isLast =
      if isLast then some attrArchive else none := by
  cases isLast <;> decide

theorem creationAttributes_createDirectory (isLast : Bool) :
    creationAttributes (getFileCreatePath ||| getFileCreateDirectory) isLast =
      some attrDirectory := by
  cases isLast <;> decide

/-! ## Steps of the loop of `GetFile` -/

/-- How the loop goes on from the file of a component. -/
inductive Resumed (fuel flags : Nat) (now : FATTime) (names : List WString) (file : FATFile)
    (d : MountedDisk) : Option FATFile × MountedDisk × List Creation → Prop where
  | unreadable : d.getSector file.dirIndex.1 = none →
      Resumed fuel flags now names file d (none, d, [])
  | notDirectory : d.getSector file.dirIndex.1 ≠ none →
      (d.touch file.dirIndex flags now).dirAttr file.dirIndex &&& attrDirectory ≠ attrDirectory →
      Resumed fuel flags now names file d (none, d.touch file.dirIndex flags now, [])
  | next {walk : Option FATFile × MountedDisk × List Creation} :
      d.getSector file.dirIndex.1 ≠ none →
      (names.isEmpty = false ∨ flags &&& getFileGetDirectoryOnly ≠ 0 →
        (d.touch file.dirIndex flags now).dirAttr file.dirIndex &&& attrDirectory =
          attrDirectory) →
      (d.touch file.dirIndex flags now).getFileLoop fuel flags now names
        ((d.touch file.dirIndex flags now).getFstClus file.dirIndex) (some file) = some walk →
      Resumed fuel flags now names file d walk

/-- What one turn of the loop can do. -/
inductive Turn (fuel flags : Nat) (now : FATTime) (name : WString) (names : List WString)
    (clusIndex : Nat) (d : MountedDisk) :
    Option FATFile × MountedDisk × List Creation → Prop where
  | missing : d.lookup fuel clusIndex name = some none →
      creationAttributes flags names.isEmpty = none →
      Turn fuel flags now name names clusIndex d (none, d, [])
  | createFails {attributes : Nat} {d' : MountedDisk} :
      d.lookup fuel clusIndex name = some none →
      creationAttributes flags names.isEmpty = some attributes →
      d.create fuel clusIndex name (if names.isEmpty then terminator else separator) attributes
        now = some (none, d') →
      Turn fuel flags now name names clusIndex d (none, d', [])
  | creates {attributes : Nat} {file : FATFile} {d' : MountedDisk}
      {walk : Option FATFile × MountedDisk × List Creation} :
      d.lookup fuel clusIndex name = some none →
      creationAttributes flags names.isEmpty = some attributes →
      d.create fuel clusIndex name (if names.isEmpty then terminator else separator) attributes
        now = some (some file, d') →
      Resumed fuel flags now names file d' walk →
      Turn fuel flags now name names clusIndex d
        (walk.1, walk.2.1, ⟨d, clusIndex, name, attributes⟩ :: walk.2.2)
  | alreadyExists {file : FATFile} : d.lookup fuel clusIndex name = some (some file) →
      names.isEmpty = true ∧ flags &&& getFileFailIfExists ≠ 0 →
      Turn fuel flags now name names clusIndex d (none, d, [])
  | found {file : FATFile} {walk : Option FATFile × MountedDisk × List Creation} :
      d.lookup fuel clusIndex name = some (some file) →
      ¬(names.isEmpty = true ∧ flags &&& getFileFailIfExists ≠ 0) →
      Resumed fuel flags now names file d walk →
      Turn fuel flags now name names clusIndex d walk

/-- The second half of a turn, behind the file of the component. -/
theorem resumed_of_eq_some {flags : Nat} {names : List WString} {file : FATFile}
    {created : List Creation} {walk : Option FATFile × MountedDisk × List Creation}
    (h : (match d.getSector file.dirIndex.1 with
      | none => some (none, d, created)
      | some _ =>
          if (names.isEmpty = false ∨ flags &&& getFileGetDirectoryOnly ≠ 0) ∧
              (d.touch file.dirIndex flags now).dirAttr file.dirIndex &&& attrDirectory ≠
                attrDirectory then
            some (none, d.touch file.dirIndex flags now, created)
          else
            ((d.touch file.dirIndex flags now).getFileLoop fuel flags now names
              ((d.touch file.dirIndex flags now).getFstClus file.dirIndex) (some file)).map
                fun rest => (rest.1, rest.2.1, created ++ rest.2.2)) = some walk) :
    ∃ rest, Resumed fuel flags now names file d rest ∧
      walk = (rest.1, rest.2.1, created ++ rest.2.2) := by
  cases hsector : d.getSector file.dirIndex.1 with
  | none =>
      rw [hsector] at h
      cases h
      exact ⟨_, .unreadable hsector, by simp⟩
  | some sector =>
      have hreadable : d.getSector file.dirIndex.1 ≠ none := by simp [hsector]
      simp only [hsector] at h
      split_ifs at h with hkind
      · cases h
        exact ⟨_, .notDirectory hreadable hkind.2, by simp⟩
      · obtain ⟨rest, hrest, rfl⟩ := Option.map_eq_some_iff.mp h
        refine ⟨rest, .next hreadable (fun hneeds => ?_) hrest, rfl⟩
        by_contra hattr
        exact hkind ⟨hneeds, hattr⟩

theorem getFileLoop_turn {flags clusIndex : Nat} {name : WString} {names : List WString}
    {previous : Option FATFile} {walk : Option FATFile × MountedDisk × List Creation}
    (h : d.getFileLoop fuel flags now (name :: names) clusIndex previous = some walk) :
    Turn fuel flags now name names clusIndex d walk := by
  rw [getFileLoop] at h
  obtain ⟨step, hstep, hrest⟩ := Option.bind_eq_some_iff.mp h
  rw [getComponent] at hstep
  obtain ⟨found, hfound, hstep⟩ := Option.bind_eq_some_iff.mp hstep
  have hlookup : d.lookup fuel clusIndex name = some found := hfound
  cases found with
  | some file =>
      simp only [Option.some.injEq] at hstep
      subst hstep
      by_cases hexists : names.isEmpty = true ∧ flags &&& getFileFailIfExists ≠ 0
      · simp only [if_pos hexists, Option.some.injEq] at hrest
        subst hrest
        exact .alreadyExists hlookup hexists
      · simp only [if_neg hexists] at hrest
        obtain ⟨rest, hresumed, rfl⟩ := resumed_of_eq_some hrest
        exact .found hlookup hexists hresumed
  | none =>
      cases hattributes : creationAttributes flags names.isEmpty with
      | none =>
          simp only [hattributes, Option.some.injEq] at hstep
          subst hstep
          cases hrest
          exact .missing hlookup hattributes
      | some attributes =>
          simp only [hattributes] at hstep
          obtain ⟨⟨made, d'⟩, hcreate, rfl⟩ := Option.map_eq_some_iff.mp hstep
          cases made with
          | none =>
              cases hrest
              exact .createFails hlookup hattributes hcreate
          | some file =>
              simp only [Option.isSome_some, if_true] at hrest
              obtain ⟨rest, hresumed, rfl⟩ := resumed_of_eq_some hrest
              exact .creates hlookup hattributes hcreate hresumed

/-! ## A walk that is quiet -/

/-- The walk of `FindOpen` along the components writes nothing but access dates: the components it
comes to are there with current times, and one that is missing cannot be created. -/
def Quiet (fuel : Nat) (now : FATTime) : List WString → Nat → MountedDisk → Prop
  | [], _, _ => True
  | name :: names, clusIndex, d =>
      match d.lookup fuel clusIndex name with
      | none => True
      | some none =>
          ∀ created, d.create fuel clusIndex name (if names.isEmpty then terminator else separator)
            attrDirectory now = some created → created = (none, d)
      | some (some file) =>
          d.getSector file.dirIndex.1 = none ∨
            d.Current file.dirIndex now ∧
              ((d.setLstAccDate file.dirIndex now).dirAttr file.dirIndex &&& attrDirectory =
                attrDirectory →
                Quiet fuel now names
                  ((d.setLstAccDate file.dirIndex now).getFstClus file.dirIndex)
                  (d.setLstAccDate file.dirIndex now))

/-- A missing component whose creation fails leaves the disk as it was. -/
def CleanFailure (fuel : Nat) (now : FATTime) : List WString → Nat → MountedDisk → Prop
  | [], _, _ => True
  | name :: names, clusIndex, d =>
      match d.lookup fuel clusIndex name with
      | none => True
      | some none =>
          ∀ d', d.create fuel clusIndex name (if names.isEmpty then terminator else separator)
            attrDirectory now = some (none, d') → d' = d
      | some (some file) =>
          CleanFailure fuel now names
            ((d.touch file.dirIndex getFileGetDirectoryOnly now).getFstClus file.dirIndex)
            (d.touch file.dirIndex getFileGetDirectoryOnly now)

/-- All components are there, and they are directories. -/
def NamesDirectory (fuel : Nat) (now : FATTime) : List WString → Nat → MountedDisk → Prop
  | [], _, _ => True
  | name :: names, clusIndex, d =>
      ∃ file, d.lookup fuel clusIndex name = some (some file) ∧
        (d.setLstAccDate file.dirIndex now).dirAttr file.dirIndex &&& attrDirectory =
          attrDirectory ∧
        NamesDirectory fuel now names
          ((d.setLstAccDate file.dirIndex now).getFstClus file.dirIndex)
          (d.setLstAccDate file.dirIndex now)

theorem touch_of_current (h : d.Current index now) :
    d.touch index getFileGetDirectoryOnly now = d.setLstAccDate index now := by
  rw [touch_getDirectoryOnly, h]

theorem Accessed.trans {d₁ d₂ d₃ : MountedDisk} (h : Accessed fuel now d₁ d₂)
    (h' : Accessed fuel now d₂ d₃) : Accessed fuel now d₁ d₃ := by
  induction h' with
  | refl => exact h
  | step _ hfound ih => exact .step ih hfound

theorem Accessed.of_lookup {clusIndex : Nat} {name : WString} {file : FATFile}
    (h : d.lookup fuel clusIndex name = some (some file)) :
    Accessed fuel now d (d.setLstAccDate file.dirIndex now) := .step .refl h

/-- A quiet walk keeps the frame. -/
theorem getFileLoop_of_quiet {clusIndex : Nat} {names : List WString} {previous : Option FATFile}
    {walk : Option FATFile × MountedDisk × List Creation}
    (h : d.getFileLoop fuel getFileGetDirectoryOnly now names clusIndex previous = some walk)
    (hquiet : Quiet fuel now names clusIndex d) :
    Accessed fuel now d walk.2.1 ∧ walk.2.2 = [] ∧
      (walk.1.isSome → NamesDirectory fuel now names clusIndex d) := by
  induction names generalizing clusIndex previous d walk with
  | nil =>
      cases h
      exact ⟨.refl, rfl, fun _ => trivial⟩
  | cons name names ih =>
      cases getFileLoop_turn h with
      | missing hlookup hattributes => exact ⟨.refl, rfl, fun h => by cases h⟩
      | createFails hlookup hattributes hcreate =>
          rw [creationAttributes_getDirectoryOnly] at hattributes
          cases hattributes
          simp only [Quiet, hlookup] at hquiet
          cases hquiet _ hcreate
          exact ⟨.refl, rfl, fun h => by cases h⟩
      | creates hlookup hattributes hcreate hresumed =>
          rw [creationAttributes_getDirectoryOnly] at hattributes
          cases hattributes
          simp only [Quiet, hlookup] at hquiet
          cases hquiet _ hcreate
      | alreadyExists hlookup _ => exact ⟨.refl, rfl, fun h => by cases h⟩
      | found hlookup _ hresumed =>
          simp only [Quiet, hlookup] at hquiet
          cases hresumed with
          | unreadable _ => exact ⟨.refl, rfl, fun h => by cases h⟩
          | notDirectory hreadable _ =>
              obtain ⟨hcurrent, _⟩ := hquiet.resolve_left hreadable
              rw [touch_of_current hcurrent]
              exact ⟨.of_lookup hlookup, rfl, fun h => by cases h⟩
          | next hreadable hkind hrest =>
              obtain ⟨hcurrent, hquiet⟩ := hquiet.resolve_left hreadable
              rw [touch_of_current hcurrent] at hkind hrest
              have hattr := hkind (.inr (by decide))
              obtain ⟨haccessed, hcreated, hnames⟩ := ih hrest (hquiet hattr)
              exact ⟨(Accessed.of_lookup hlookup).trans haccessed, hcreated,
                fun h => ⟨_, hlookup, hattr, hnames h⟩⟩

/-! ## A walk that keeps the frame is quiet -/

theorem SameStamps.refl (d : MountedDisk) : SameStamps d d := fun _ _ _ => rfl

theorem Accessed.sameStamps (h : Accessed fuel now d d') : SameStamps d d' := by
  induction h with
  | refl => exact .refl d
  | step _ hfound ih =>
      intro s a hstamp
      rw [setLstAccDate_stamp (lookup_aligned hfound) hstamp]
      exact ih s a hstamp

/-- Within an aligned entry the offset of a byte is its address modulo the size of entries. -/
theorem isStamp_offset {k : Nat} (haligned : index.2 % 32 = 0) (hstamp : isStamp k) :
    (index.2 + k) % 32 = k := by
  unfold isStamp at hstamp
  omega

theorem touch_stamped {s a : Nat} (haligned : index.2 % 32 = 0) (hstamp : isStamp (a % 32))
    (h : d.StampedAt now s a) :
    (d.touch index getFileGetDirectoryOnly now).StampedAt now s a := by
  rw [touch_getDirectoryOnly, StampedAt, setLstAccDate_stamp haligned hstamp, setTimes_sectors]
  split_ifs with hin
  · obtain ⟨_, hle, hk⟩ := hin
    obtain ⟨k, rfl⟩ := Nat.exists_eq_add_of_le hle
    rw [Nat.add_sub_cancel_left] at hk ⊢
    rw [isStamp_offset haligned hk]
  · exact h

theorem touch_self_stamped {k : Nat} (haligned : index.2 % 32 = 0) (hk : isStamp k) :
    (d.touch index getFileGetDirectoryOnly now).StampedAt now index.1 (index.2 + k) := by
  have hoffset := isStamp_offset haligned hk
  rw [touch_getDirectoryOnly, StampedAt, setLstAccDate_stamp haligned (by rwa [hoffset]),
    setTimes_sectors, if_pos ⟨rfl, Nat.le_add_right _ _, by rwa [Nat.add_sub_cancel_left]⟩,
    Nat.add_sub_cancel_left, hoffset]

theorem current_of_stamped (h : ∀ k, isStamp k → d.sectors index.1 (index.2 + k) =
    stampByte now k) : d.Current index now := by
  unfold Current
  have hsectors : ((d.setCreationTime index now).setWriteTime index now).sectors = d.sectors := by
    funext s a
    rw [setTimes_sectors]
    split_ifs with hin
    · obtain ⟨rfl, hle, hk⟩ := hin
      rw [← h _ hk, Nat.add_sub_cancel' hle]
    · rfl
  exact congrArg (fun sectors => { d with sectors := sectors }) hsectors

/-- Bytes that stand at `now` do so at the end of a walk that creates nothing. -/
theorem getFileLoop_stamped {clusIndex s a : Nat} {names : List WString}
    {previous : Option FATFile} {walk : Option FATFile × MountedDisk × List Creation}
    (h : d.getFileLoop fuel getFileGetDirectoryOnly now names clusIndex previous = some walk)
    (hclean : CleanFailure fuel now names clusIndex d) (hcreated : walk.2.2 = [])
    (hstamp : isStamp (a % 32)) (hstamped : d.StampedAt now s a) :
    walk.2.1.StampedAt now s a := by
  induction names generalizing clusIndex previous d walk with
  | nil =>
      cases h
      exact hstamped
  | cons name names ih =>
      cases getFileLoop_turn h with
      | missing _ _ => exact hstamped
      | alreadyExists _ _ => exact hstamped
      | createFails hlookup hattributes hcreate =>
          rw [creationAttributes_getDirectoryOnly] at hattributes
          cases hattributes
          simp only [CleanFailure, hlookup] at hclean
          cases hclean _ hcreate
          exact hstamped
      | creates _ _ _ _ => cases hcreated
      | found hlookup _ hresumed =>
          simp only [CleanFailure, hlookup] at hclean
          have htouched := touch_stamped (lookup_aligned hlookup) hstamp hstamped
          cases hresumed with
          | unreadable _ => exact hstamped
          | notDirectory _ _ => exact htouched
          | next _ _ hrest => exact ih hrest hclean hcreated htouched

/-- When a walk has created nothing and kept all creation and write times, it was quiet. -/
theorem quiet_of_getFileLoop {clusIndex : Nat} {names : List WString} {previous : Option FATFile}
    {walk : Option FATFile × MountedDisk × List Creation}
    (h : d.getFileLoop fuel getFileGetDirectoryOnly now names clusIndex previous = some walk)
    (hclean : CleanFailure fuel now names clusIndex d) (hcreated : walk.2.2 = [])
    (hsame : SameStamps d walk.2.1) : Quiet fuel now names clusIndex d := by
  induction names generalizing clusIndex previous d walk with
  | nil => trivial
  | cons name names ih =>
      cases getFileLoop_turn h with
      | missing hlookup hattributes =>
          rw [creationAttributes_getDirectoryOnly] at hattributes
          cases hattributes
      | alreadyExists _ hflags => exact absurd hflags.2 (by decide)
      | createFails hlookup hattributes hcreate =>
          rw [creationAttributes_getDirectoryOnly] at hattributes
          cases hattributes
          simp only [CleanFailure, hlookup] at hclean
          cases hclean _ hcreate
          simp only [Quiet, hlookup]
          intro created hcreated'
          exact Option.some.inj (hcreated'.symm.trans hcreate)
      | creates _ _ _ _ => cases hcreated
      | found hlookup _ hresumed =>
          have haligned := lookup_aligned hlookup
          simp only [CleanFailure, hlookup] at hclean
          simp only [Quiet, hlookup]
          cases hresumed with
          | unreadable hsector => exact .inl hsector
          | notDirectory _ hattr =>
              have hcurrent : d.Current _ now := current_of_stamped fun k hk => by
                have hmod := isStamp_offset haligned hk
                rw [← hsame _ _ (by rwa [hmod]), touch_self_stamped haligned hk, hmod]
              rw [touch_of_current hcurrent] at hattr
              exact .inr ⟨hcurrent, fun h => absurd h hattr⟩
          | next _ _ hrest =>
              have hcurrent : d.Current _ now := current_of_stamped fun k hk => by
                have hmod := isStamp_offset haligned hk
                rw [← hsame _ _ (by rwa [hmod]),
                  getFileLoop_stamped hrest hclean hcreated (by rwa [hmod])
                    (touch_self_stamped haligned hk), hmod]
              rw [touch_of_current hcurrent] at hrest hclean
              refine .inr ⟨hcurrent, fun _ => ih hrest hclean hcreated fun s a hstamp => ?_⟩
              rw [hsame s a hstamp, setLstAccDate_stamp haligned hstamp]

/-! ## What the operations create -/

/-- The components that are missing when the loop comes to them. -/
def missing (fuel flags : Nat) (now : FATTime) : List WString → Nat → MountedDisk → List WString
  | [], _, _ => []
  | name :: names, clusIndex, d =>
      let rest :=
        match d.getComponent fuel clusIndex name names.isEmpty flags now with
        | some (some file, d, _) =>
            missing fuel flags now names ((d.touch file.dirIndex flags now).getFstClus file.dirIndex)
              (d.touch file.dirIndex flags now)
        | _ => []
      match d.lookup fuel clusIndex name with
      | some none => name :: rest
      | _ => rest

def missingComponents (fuel flags : Nat) (now : FATTime) (path : WString) (d : MountedDisk) :
    List WString :=
  if path = [separator] then []
  else missing fuel flags now (components path) (d.volume.sectToClus d.volume.rootSectorStart) d

/-- A component that is created was missing in its directory just before, and the flags ask for
it. -/
def Made (fuel flags : Nat) (names : List WString) (c : Creation) : Prop :=
  c.before.lookup fuel c.clusIndex c.fileName = some none ∧
    ∃ isLast, creationAttributes flags isLast = some c.attributes ∧
      (isLast = true → names.getLast? = some c.fileName)

theorem Made.cons {flags : Nat} {names : List WString} {c : Creation} (name : WString)
    (h : Made fuel flags names c) : Made fuel flags (name :: names) c := by
  obtain ⟨hbefore, isLast, hattributes, hlast⟩ := h
  refine ⟨hbefore, isLast, hattributes, fun h => ?_⟩
  rw [List.getLast?_cons, hlast h]
  rfl

theorem made_head {flags clusIndex attributes : Nat} {name : WString} {names : List WString}
    (hlookup : d.lookup fuel clusIndex name = some none)
    (hattributes : creationAttributes flags names.isEmpty = some attributes) :
    Made fuel flags (name :: names) ⟨d, clusIndex, name, attributes⟩ := by
  refine ⟨hlookup, names.isEmpty, hattributes, fun h => ?_⟩
  rw [List.isEmpty_iff.mp h]
  rfl

/-- What the rest of a walk creates, whatever holds of it when the walk is quiet. -/
theorem Resumed.created {flags : Nat} {names : List WString} {file : FATFile}
    {walk : Option FATFile × MountedDisk × List Creation} {P : List Creation → Prop}
    (h : Resumed fuel flags now names file d walk) (hnil : P [])
    (hrest : ∀ {d' : MountedDisk} {clusIndex : Nat} {walk},
      d'.getFileLoop fuel flags now names clusIndex (some file) = some walk → P walk.2.2) :
    P walk.2.2 := by
  cases h with
  | unreadable _ => exact hnil
  | notDirectory _ _ => exact hnil
  | next _ _ h => exact hrest h

theorem getFileLoop_made {flags clusIndex : Nat} {names : List WString}
    {previous : Option FATFile} {walk : Option FATFile × MountedDisk × List Creation}
    (h : d.getFileLoop fuel flags now names clusIndex previous = some walk) :
    (∀ c ∈ walk.2.2, Made fuel flags names c) ∧
      (walk.2.2.map Creation.fileName).Sublist names := by
  induction names generalizing clusIndex previous d walk with
  | nil =>
      cases h
      exact ⟨by simp, by simp⟩
  | cons name names ih =>
      cases getFileLoop_turn h with
      | missing _ _ => exact ⟨by simp, by simp⟩
      | alreadyExists _ _ => exact ⟨by simp, by simp⟩
      | createFails _ _ _ => exact ⟨by simp, by simp⟩
      | creates hlookup hattributes _ hresumed =>
          have hrest := hresumed.created
            (P := fun created => (∀ c ∈ created, Made fuel flags names c) ∧
              (created.map Creation.fileName).Sublist names) ⟨by simp, by simp⟩ ih
          refine ⟨fun c hc => ?_, hrest.2.cons_cons name⟩
          rcases List.mem_cons.mp hc with rfl | hc
          · exact made_head hlookup hattributes
          · exact (hrest.1 c hc).cons name
      | found _ _ hresumed =>
          have hrest := hresumed.created
            (P := fun created => (∀ c ∈ created, Made fuel flags names c) ∧
              (created.map Creation.fileName).Sublist names) ⟨by simp, by simp⟩ ih
          exact ⟨fun c hc => (hrest.1 c hc).cons name, hrest.2.cons name⟩

/-- Without a flag for the components of the path at most the last one is created. -/
theorem getFileLoop_length {flags clusIndex : Nat} {names : List WString}
    {previous : Option FATFile} {walk : Option FATFile × MountedDisk × List Creation}
    (hflags : creationAttributes flags false = none)
    (h : d.getFileLoop fuel flags now names clusIndex previous = some walk) :
    walk.2.2.length ≤ 1 := by
  induction names generalizing clusIndex previous d walk with
  | nil =>
      cases h
      exact Nat.zero_le 1
  | cons name names ih =>
      cases getFileLoop_turn h with
      | missing _ _ => exact Nat.zero_le 1
      | alreadyExists _ _ => exact Nat.zero_le 1
      | createFails _ _ _ => exact Nat.zero_le 1
      | creates hlookup hattributes _ hresumed =>
          cases names with
          | cons name' names =>
              rw [List.isEmpty_cons, hflags] at hattributes
              cases hattributes
          | nil =>
              have hnil := hresumed.created (P := fun created => created = []) rfl
                fun h => by cases h; rfl
              simp [hnil]
      | found _ _ hresumed =>
          exact hresumed.created (P := fun created => created.length ≤ 1) (Nat.zero_le 1) ih

theorem getComponent_created {flags clusIndex attributes : Nat} {name : WString} {isLast : Bool}
    {file : FATFile} (hlookup : d.lookup fuel clusIndex name = some none)
    (hattributes : creationAttributes flags isLast = some attributes)
    (hcreate : d.create fuel clusIndex name (if isLast then terminator else separator) attributes
      now = some (some file, d')) :
    d.getComponent fuel clusIndex name isLast flags now =
      some (some file, d', [⟨d, clusIndex, name, attributes⟩]) := by
  rw [lookup] at hlookup
  simp only [getComponent, hlookup, Option.bind_some, hattributes, hcreate, Option.map_some,
    Option.isSome_some, if_true]

theorem getComponent_found {flags clusIndex : Nat} {name : WString} {isLast : Bool}
    {file : FATFile} (hlookup : d.lookup fuel clusIndex name = some (some file))
    (hexists : ¬(isLast = true ∧ flags &&& getFileFailIfExists ≠ 0)) :
    d.getComponent fuel clusIndex name isLast flags now = some (some file, d, []) := by
  rw [lookup] at hlookup
  simp only [getComponent, hlookup, Option.bind_some, if_neg hexists]

/-- A walk that succeeds has created exactly what was missing. -/
theorem getFileLoop_exact {flags clusIndex : Nat} {names : List WString} {file : FATFile}
    {previous : Option FATFile} {walk : Option FATFile × MountedDisk × List Creation}
    (h : d.getFileLoop fuel flags now names clusIndex previous = some walk)
    (hfile : walk.1 = some file) :
    walk.2.2.map Creation.fileName = missing fuel flags now names clusIndex d := by
  induction names generalizing clusIndex previous d walk with
  | nil =>
      cases h
      rfl
  | cons name names ih =>
      cases getFileLoop_turn h with
      | missing _ _ => cases hfile
      | alreadyExists _ _ => cases hfile
      | createFails _ _ _ => cases hfile
      | creates hlookup hattributes hcreate hresumed =>
          cases hresumed with
          | unreadable _ => cases hfile
          | notDirectory _ _ => cases hfile
          | next _ _ hrest =>
              have hstep := getComponent_created hlookup hattributes hcreate
              simp only [missing, hstep, hlookup, List.map_cons, ih hrest hfile]
      | found hlookup hexists hresumed =>
          cases hresumed with
          | unreadable _ => cases hfile
          | notDirectory _ _ => cases hfile
          | next _ _ hrest =>
              have hstep : d.getComponent fuel clusIndex name names.isEmpty flags now = _ :=
                getComponent_found hlookup hexists
              simp only [missing, hstep, hlookup, ih hrest hfile]

/-- Without flags a walk leaves the disk as it is. -/
theorem getFileLoop_getFileNone {clusIndex : Nat} {names : List WString}
    {previous : Option FATFile} {walk : Option FATFile × MountedDisk × List Creation}
    (h : d.getFileLoop fuel getFileNone now names clusIndex previous = some walk) :
    walk.2.1 = d ∧ walk.2.2 = [] := by
  induction names generalizing clusIndex previous d walk with
  | nil =>
      cases h
      exact ⟨rfl, rfl⟩
  | cons name names ih =>
      cases getFileLoop_turn h with
      | missing _ _ => exact ⟨rfl, rfl⟩
      | alreadyExists _ _ => exact ⟨rfl, rfl⟩
      | createFails _ hattributes _ => cases hattributes.symm.trans (creationAttributes_getFileNone _)
      | creates _ hattributes _ _ => cases hattributes.symm.trans (creationAttributes_getFileNone _)
      | found _ _ hresumed =>
          cases hresumed with
          | unreadable _ => exact ⟨rfl, rfl⟩
          | notDirectory _ _ => exact ⟨rfl, rfl⟩
          | next _ _ hrest =>
              have hrest := ih hrest
              exact hrest

/-! ## Operations -/

/-- The cluster of the root directory, where each walk starts. -/
def rootClus (d : MountedDisk) : Nat := d.volume.sectToClus d.volume.rootSectorStart

/-- The walk of `FindOpen` along a path is quiet. -/
def QuietPath (fuel : Nat) (now : FATTime) (path : WString) (d : MountedDisk) : Prop :=
  maxPathLength ≤ path.length ∨ path = [separator] ∨
    Quiet fuel now (components path) d.rootClus d

/-- All that an operation did on the disk is to update access dates, and it fails for what is no
directory. -/
structure KeepsFrame {α : Type} (fuel : Nat) (now : FATTime) (path : WString) (d : MountedDisk)
    (o : Outcome α) : Prop where
  accessed : Accessed fuel now d o.disk
  created : o.created = []
  named : (∃ result, o.result = .ok result) →
    path = [separator] ∨ NamesDirectory fuel now (components path) d.rootClus d

/-- What is created are the components that were missing. -/
structure CreatesMissing {α : Type} (fuel flags : Nat) (now : FATTime) (path : WString)
    (d : MountedDisk) (o : Outcome α) : Prop where
  made : ∀ c ∈ o.created, Made fuel flags (components path) c
  sublist : (o.created.map Creation.fileName).Sublist (components path)
  exact : (∃ result, o.result = .ok result) →
    o.created.map Creation.fileName = missingComponents fuel flags now path d

/-- Only the last component is created, as a file. -/
def CreatesFile {α : Type} (fuel flags : Nat) (now : FATTime) (path : WString) (d : MountedDisk)
    (o : Outcome α) : Prop :=
  CreatesMissing fuel flags now path d o ∧ o.created.length ≤ 1 ∧
    ∀ c ∈ o.created, c.attributes = attrArchive ∧
      (components path).getLast? = some c.fileName

theorem getFile_getFileNone {path : WString}
    {walk : Option FATFile × MountedDisk × List Creation}
    (h : d.getFile fuel path getFileNone now = some walk) : walk.2.1 = d ∧ walk.2.2 = [] := by
  unfold getFile at h
  split_ifs at h
  · cases h
    exact ⟨rfl, rfl⟩
  · exact getFileLoop_getFileNone h

theorem getFileInfo_frame {path : WString} {o : Outcome (Option FileInfo)}
    (h : d.getFileInfo fuel path now = some o) : o.disk = d ∧ o.created = [] := by
  unfold getFileInfo at h
  split_ifs at h
  · cases h
    exact ⟨rfl, rfl⟩
  · cases h
    exact ⟨rfl, rfl⟩
  · obtain ⟨walk, hwalk, rfl⟩ := Option.map_eq_some_iff.mp h
    exact getFile_getFileNone hwalk

theorem getAttributes_frame {path : WString} {o : Outcome Nat}
    (h : d.getAttributes fuel path now = some o) : o.disk = d ∧ o.created = [] := by
  unfold getAttributes at h
  split_ifs at h
  · cases h
    exact ⟨rfl, rfl⟩
  · cases h
    exact ⟨rfl, rfl⟩
  · obtain ⟨walk, hwalk, rfl⟩ := Option.map_eq_some_iff.mp h
    exact getFile_getFileNone hwalk

theorem findNext_frame {e e' : EntryEnumerator} {o : Outcome (Option (FATFile × FileInfo))}
    (h : d.findNext fuel e = some (o, e')) : o.disk = d ∧ o.created = [] := by
  induction fuel generalizing e with
  | zero => cases h
  | succ fuel ih =>
      rw [findNext] at h
      cases hparse : FATFile.parse d (fuel + 1) e with
      | none => simp [hparse] at h
      | some parsed =>
          obtain ⟨found, e₁⟩ := parsed
          cases found with
          | none =>
              simp only [hparse] at h
              cases h
              exact ⟨rfl, rfl⟩
          | some file =>
              simp only [hparse] at h
              split_ifs at h
              · exact ih h
              · cases h
                exact ⟨rfl, rfl⟩

/-- `FindOpen` on a path that is too long or on the root directory, and otherwise by its walk. -/
theorem findOpen_cases {path : WString} {hasHandle : Bool} {o : Outcome EntryEnumerator}
    (h : d.findOpen fuel path now hasHandle = some o) :
    (maxPathLength ≤ path.length ∧ o = ⟨.error .pathTooLong, d, []⟩) ∨
      (path = [separator] ∧ o.disk = d ∧ o.created = []) ∨
      ∃ walk, d.getFileLoop fuel getFileGetDirectoryOnly now (components path) d.rootClus none =
          some walk ∧ ¬(maxPathLength ≤ path.length ∨ path = [separator]) ∧
          o.disk = walk.2.1 ∧ o.created = walk.2.2 ∧
          ((∃ result, o.result = .ok result) → walk.1.isSome) := by
  rw [findOpen] at h
  by_cases hlong : maxPathLength ≤ path.length
  · rw [if_pos hlong] at h
    cases h
    exact .inl ⟨hlong, rfl⟩
  rw [if_neg hlong] at h
  by_cases hroot : path = [separator]
  · rw [if_pos hroot] at h
    cases h
    exact .inr (.inl ⟨hroot, rfl, rfl⟩)
  rw [if_neg hroot, getFile, if_neg hroot] at h
  obtain ⟨walk, hwalk, rfl⟩ := Option.map_eq_some_iff.mp h
  refine .inr (.inr ⟨walk, hwalk, not_or.mpr ⟨hlong, hroot⟩, ?_⟩)
  obtain ⟨file, d', created⟩ := walk
  cases file with
  | none => exact ⟨rfl, rfl, fun ⟨_, hresult⟩ => by cases hresult⟩
  | some file => exact ⟨rfl, rfl, fun _ => rfl⟩

theorem findOpen_of_quiet {path : WString} {hasHandle : Bool} {o : Outcome EntryEnumerator}
    (h : d.findOpen fuel path now hasHandle = some o) (hquiet : QuietPath fuel now path d) :
    KeepsFrame fuel now path d o := by
  rcases findOpen_cases h with ⟨_, rfl⟩ | ⟨hroot, hdisk, hcreated⟩ |
    ⟨walk, hwalk, hpath, hdisk, hcreated, hok⟩
  · exact ⟨.refl, rfl, fun ⟨_, hresult⟩ => by cases hresult⟩
  · exact ⟨hdisk ▸ .refl, hcreated, fun _ => .inl hroot⟩
  · have hquiet : Quiet fuel now (components path) d.rootClus d :=
      (or_assoc.mpr hquiet).resolve_left hpath
    obtain ⟨haccessed, hnil, hnames⟩ := getFileLoop_of_quiet hwalk hquiet
    exact ⟨hdisk ▸ haccessed, hcreated.trans hnil, fun hresult => .inr (hnames (hok hresult))⟩

theorem quiet_of_findOpen {path : WString} {hasHandle : Bool} {o : Outcome EntryEnumerator}
    (h : d.findOpen fuel path now hasHandle = some o)
    (hclean : CleanFailure fuel now (components path) d.rootClus d)
    (hframe : KeepsFrame fuel now path d o) : QuietPath fuel now path d := by
  rcases findOpen_cases h with ⟨hlong, _⟩ | ⟨hroot, _⟩ | ⟨walk, hwalk, _, hdisk, hcreated, _⟩
  · exact .inl hlong
  · exact .inr (.inl hroot)
  · apply Or.inr
    apply Or.inr
    apply quiet_of_getFileLoop hwalk hclean
    · exact hcreated.symm.trans hframe.created
    · exact hdisk ▸ hframe.accessed.sameStamps

/-- A walk that `GetFile` makes for an operation that creates. -/
theorem createsMissing_of_getFile {α : Type} {flags : Nat} {path : WString} {o : Outcome α}
    {walk : Option FATFile × MountedDisk × List Creation}
    (h : d.getFile fuel path flags now = some walk) (hcreated : o.created = walk.2.2)
    (hok : (∃ result, o.result = .ok result) → walk.1.isSome) :
    CreatesMissing fuel flags now path d o := by
  rw [getFile] at h
  by_cases hroot : path = [separator]
  · rw [if_pos hroot] at h
    cases h
    exact ⟨by simp [hcreated], by simp [hcreated], fun hresult => by cases hok hresult⟩
  · rw [if_neg hroot] at h
    obtain ⟨hmade, hsublist⟩ := getFileLoop_made h
    refine ⟨hcreated ▸ hmade, hcreated ▸ hsublist, fun hresult => ?_⟩
    obtain ⟨file, hfile⟩ := Option.isSome_iff_exists.mp (hok hresult)
    rw [hcreated, missingComponents, if_neg hroot]
    exact getFileLoop_exact h hfile

theorem createsFile_of_getFile {α : Type} {flags : Nat} {path : WString} {o : Outcome α}
    {walk : Option FATFile × MountedDisk × List Creation}
    (hflags : ∀ isLast, creationAttributes flags isLast = if isLast then some attrArchive else none)
    (h : d.getFile fuel path flags now = some walk) (hcreated : o.created = walk.2.2)
    (hok : (∃ result, o.result = .ok result) → walk.1.isSome) :
    CreatesFile fuel flags now path d o := by
  have hmissing : CreatesMissing fuel flags now path d o :=
    createsMissing_of_getFile h hcreated hok
  refine ⟨hmissing, ?_, fun c hc => ?_⟩
  · rw [getFile] at h
    by_cases hroot : path = [separator]
    · rw [if_pos hroot] at h
      cases h
      simp [hcreated]
    · rw [if_neg hroot] at h
      rw [hcreated]
      exact getFileLoop_length (hflags false) h
  · obtain ⟨_, isLast, hattributes, hlast⟩ := hmissing.made c hc
    rw [hflags] at hattributes
    cases isLast with
    | false => cases hattributes
    | true => exact ⟨(Option.some.inj hattributes).symm, hlast rfl⟩

theorem openFile_creates {path : WString} {o : Outcome (FATFile × Nat)}
    (h : d.openFile fuel path now = some o) :
    CreatesFile fuel getFileCreateFile now path d o := by
  rw [openFile] at h
  by_cases hlong : maxPathLength ≤ path.length
  · rw [if_pos hlong] at h
    cases h
    exact ⟨⟨by simp, by simp, fun ⟨_, hresult⟩ => by cases hresult⟩, by simp, by simp⟩
  · rw [if_neg hlong] at h
    obtain ⟨walk, hwalk, rfl⟩ := Option.map_eq_some_iff.mp h
    obtain ⟨file, d', created⟩ := walk
    cases file with
    | none => exact createsFile_of_getFile creationAttributes_createFile hwalk rfl
                fun ⟨_, hresult⟩ => by cases hresult
    | some file => exact createsFile_of_getFile creationAttributes_createFile hwalk rfl fun _ => rfl

theorem createDirectory_creates {path : WString} {o : Outcome Unit}
    (h : d.createDirectory fuel path now = some o) :
    CreatesMissing fuel (getFileCreatePath ||| getFileCreateDirectory) now path d o ∧
      ∀ c ∈ o.created, c.attributes = attrDirectory := by
  suffices hmissing :
      CreatesMissing fuel (getFileCreatePath ||| getFileCreateDirectory) now path d o by
    refine ⟨hmissing, fun c hc => ?_⟩
    obtain ⟨_, isLast, hattributes, _⟩ := hmissing.made c hc
    rw [creationAttributes_createDirectory] at hattributes
    exact (Option.some.inj hattributes).symm
  rw [createDirectory] at h
  by_cases hlong : maxDirectoryLength ≤ path.length
  · rw [if_pos hlong] at h
    cases h
    exact ⟨by simp, by simp, fun ⟨_, hresult⟩ => by cases hresult⟩
  rw [if_neg hlong] at h
  by_cases hroot : path = [separator]
  · rw [if_pos hroot] at h
    cases h
    exact ⟨by simp, by simp, fun _ => by rw [missingComponents, if_pos hroot]; rfl⟩
  · rw [if_neg hroot] at h
    obtain ⟨walk, hwalk, rfl⟩ := Option.map_eq_some_iff.mp h
    obtain ⟨file, d', created⟩ := walk
    cases file with
    | none => exact createsMissing_of_getFile hwalk rfl fun ⟨_, hresult⟩ => by cases hresult
    | some file => exact createsMissing_of_getFile hwalk rfl fun _ => rfl

/-- `Move` creates its destination only. -/
theorem move_creates {oldPath newPath : WString} {o : Outcome Unit}
    (h : d.move fuel oldPath newPath now = some o) :
    CreatesFile fuel (getFileCreateFile ||| getFileFailIfExists) now newPath d o := by
  rw [move] at h
  split_ifs at h with hlong
  · cases h
    exact ⟨⟨by simp, by simp, fun ⟨_, hresult⟩ => by cases hresult⟩, by simp, by simp⟩
  obtain ⟨⟨srcFile, d₁, created⟩, hsource, hdest⟩ := Option.bind_eq_some_iff.mp h
  obtain ⟨hsame, hnil⟩ : d₁ = d ∧ created = [] := getFile_getFileNone hsource
  rw [hsame, hnil] at hdest
  cases srcFile with
  | none =>
      cases hdest
      exact ⟨⟨by simp, by simp, fun ⟨_, hresult⟩ => by cases hresult⟩, by simp, by simp⟩
  | some srcFile =>
      obtain ⟨walk, hwalk, rfl⟩ := Option.map_eq_some_iff.mp hdest
      obtain ⟨file, d', created⟩ := walk
      cases file with
      | none =>
          exact createsFile_of_getFile creationAttributes_move hwalk rfl
            fun ⟨_, hresult⟩ => by cases hresult
      | some file =>
          exact createsFile_of_getFile creationAttributes_move hwalk rfl fun _ => rfl

/-- Queries create nothing, but for `FindOpen`, which keeps the frame when its walk is quiet and,
as long as failing creations undo themselves, only then; what the other operations create are the
components that were missing. -/
theorem queries_keep_frame (d : MountedDisk) (fuel : Nat) (path newPath : WString)
    (now : FATTime) :
    (∀ o, d.getFileInfo fuel path now = some o → o.disk = d ∧ o.created = []) ∧
      (∀ o, d.getAttributes fuel path now = some o → o.disk = d ∧ o.created = []) ∧
      (∀ e o e', d.findNext fuel e = some (o, e') → o.disk = d ∧ o.created = []) ∧
      (∀ hasHandle o, d.findOpen fuel path now hasHandle = some o →
        (QuietPath fuel now path d → KeepsFrame fuel now path d o) ∧
          (CleanFailure fuel now (components path) d.rootClus d →
            (KeepsFrame fuel now path d o ↔ QuietPath fuel now path d))) ∧
      (∀ o, d.openFile fuel path now = some o →
        CreatesFile fuel getFileCreateFile now path d o) ∧
      (∀ o, d.createDirectory fuel path now = some o →
        CreatesMissing fuel (getFileCreatePath ||| getFileCreateDirectory) now path d o ∧
          ∀ c ∈ o.created, c.attributes = attrDirectory) ∧
      ∀ o, d.move fuel path newPath now = some o →
        CreatesFile fuel (getFileCreateFile ||| getFileFailIfExists) now newPath d o := by
  refine ⟨fun _ => getFileInfo_frame, fun _ => getAttributes_frame, fun _ _ _ => findNext_frame,
    fun hasHandle o h => ⟨findOpen_of_quiet h, fun hclean => ⟨?_, findOpen_of_quiet h⟩⟩,
    fun _ => openFile_creates, fun _ => createDirectory_creates, fun _ => move_creates⟩
  exact quiet_of_findOpen h hclean

/-! ## An empty volume -/

/-- An empty FAT16 volume of 5000 clusters of one sector each. -/
def emptyDisk : MountedDisk where
  volume :=
    { baseAddress := 0, diskSize := 512 * 5073, isFAT16 := true, bytesPerSector := 512
      sectorsPerCluster := 1, entriesPerSector := 256, sectorCount := 5073
      fatBaseSector := (1, 21), firstDataSector := 73, totalClusterCount := 5000
      totalSectorCount := 5073, sectorFSInfo := 0, rootSectorStart := 41 }
  freeCount := 5000
  nextFree := 2
  readable := fun _ => true
  sectors := fun s i => if (s = 1 ∨ s = 21) ∧ i < 4 then (if i = 0 then 0xF8 else 0xFF) else 0

/-- `FindOpen` of `\x`, which does not exist, creates a directory and takes a cluster. -/
theorem not_keeps_frame_sample : ¬ ∀ (d : MountedDisk) (fuel : Nat) (path : WString) (now : FATTime)
    (hasHandle : Bool) (o : Outcome EntryEnumerator), d.findOpen fuel path now hasHandle = some o →
        KeepsFrame fuel now path d o := by
  intro h
  have hrun : (emptyDisk.findOpen 4 [separator, 120] ⟨0x5021, 0, 0⟩ true).map
      (fun o => (o.created.length, o.disk.freeCount)) = some (1, 4999) := by
    decide +kernel
  obtain ⟨o, ho, hcounts⟩ := Option.map_eq_some_iff.mp hrun
  have hlength : o.created.length = 1 := congrArg Prod.fst hcounts
  rw [(h _ _ _ _ _ _ ho).created] at hlength
  cases hlength

end MountedDisk

end TinyCLR.FAT
