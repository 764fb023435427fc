import Mathlib
import TinyCLR.FAT.NameRoundTrip

/-!
# Creating a file under a name

`Create` looks for free entries, makes the directory if it is to be one, and writes the entries.
The round trip of the name holds for every run of entries that are all different and lie outside of
the FAT, whatever sectors and clusters they cross.
-/

namespace TinyCLR.FAT

open LittleEndian EntryEnumerator MountedDisk

/-- The number of entries that `Create` fills. -/
def entryCount (name : WString) : Nat :=
  if isFileLongName name then 1 + portionCount name else 1

namespace MountedDisk

variable {d d₀ d₁ : MountedDisk} {fuel clusIndex attributes fstClus next : Nat} {name : WString}
  {shortName : ShortName} {first index : EntryIndex} {now : FATTime} {run : List EntryIndex}

/-- `Create` has a short name, free entries from `first` on and the first cluster of the file; the
disk is `d₀` before the entries are written. -/
structure Placed (d : MountedDisk) (fuel clusIndex : Nat) (name : WString) (attributes : Nat)
    (shortName : ShortName) (first : EntryIndex) (fstClus : Nat) (d₀ : MountedDisk) : Prop where
  shortName : (if isFileLongName name then
      (FATFile.dirNames d fuel clusIndex).map (longToShortName name)
    else some (DIR.setName name)) = some shortName
  directory : ∃ d', d.getNextFreeEntry (entryCount name) fuel
      (EntryEnumerator.start d (d.clusToSect clusIndex) 0 true) 0 (0, 0) = some (some first, d') ∧
    (if attributes &&& attrDirectory = attrDirectory then d'.createNewDirectory clusIndex
      else (some 0, d')) = (some fstClus, d₀)

/-- The entries that an enumerator gives from `first` on; they are all different and no part of
the FAT. -/
structure EntryRun (d : MountedDisk) (first : EntryIndex) (run : List EntryIndex) : Prop where
  walk : ∃ e', Walk d (start d first.1 first.2 false) run e'
  nodup : run.Nodup
  notTable : ∀ index ∈ run, ¬d.IsTable index.1

theorem create_of_placed (hvalid : isFileNameValid name next = true)
    (hplaced : d.Placed fuel clusIndex name attributes shortName first fstClus d₀)
    {e₁ e₂ : EntryEnumerator}
    (hwrite : d₀.writeLong name (entryCount name - 1) (getShortNameChksum shortName)
      (entryCount name - 1) (start d₀ first.1 first.2 false) = (some e₁, d₁))
    (hnext : e₁.next d₁ = (some index, e₂)) :
    d.create fuel clusIndex name next attributes now =
      some (some ⟨index, first, entryCount name - 1, name.length⟩,
        d₁.writeShort index shortName attributes fstClus now) := by
  obtain ⟨d', hfree, hdirectory⟩ := hplaced.directory
  have hcount : (if isFileLongName name then 1 + (name.length + 12) / 13 else 1) =
      entryCount name := rfl
  rw [create, if_neg (by simp [hvalid])]
  simp only [hplaced.shortName, Option.bind_some, hcount, hfree, Option.map_some, hdirectory,
    hwrite, hnext]

/-! ## Where free entries are found -/

theorem getNextFreeEntry_aligned {count num : Nat} {e : EntryEnumerator} {found : EntryIndex}
    (haligned : e.Aligned) (hfound : found.2 % 32 = 0)
    (h : d.getNextFreeEntry count fuel e num found = some (some first, d₁)) :
    first.2 % 32 = 0 := by
  induction fuel generalizing d e num found with
  | zero => cases h
  | succ fuel ih =>
      have hnow := getNext_aligned (d := d) haligned
      rw [getNextFreeEntry] at h
      cases hnext : e.getNext d with
      | mk place rest =>
        rw [hnext] at h hnow
        cases rest with
        | mk e₁ d' =>
          cases place with
          | none => simp at h
          | some index =>
              have hfound' : (if num = 0 then e₁.getIndices else found).2 % 32 = 0 := by
                split
                · exact hnow
                · exact hfound
              simp only at h hnow
              generalize (if num = 0 then e₁.getIndices else found) = found' at h hfound'
              split_ifs at h
              · cases h
                exact hfound'
              · exact ih hnow hfound' h
              · exact ih hnow hfound h

theorem walk_aligned {e e' : EntryEnumerator} (haligned : e.Aligned) (hwalk : Walk d e run e') :
    ∀ index ∈ run, index.2 % 32 = 0 := by
  induction hwalk with
  | nil => simp
  | cons hnext _ ih =>
      have hnow := next_index_aligned haligned hnext
      intro index hindex
      cases List.mem_cons.mp hindex with
      | inl heq => exact heq ▸ hnow.1
      | inr hmem => exact ih hnow.2 index hmem

theorem Placed.apart (hplaced : d.Placed fuel clusIndex name attributes shortName first fstClus d₀)
    (hrun : d₀.EntryRun first run) : d₀.Apart run := by
  obtain ⟨d', hfree, -⟩ := hplaced.directory
  have hfirst := getNextFreeEntry_aligned (start_aligned d _ true) rfl hfree
  have haligned : (start d₀ first.1 first.2 false).Aligned := hfirst
  obtain ⟨e', hwalk⟩ := hrun.walk
  exact ⟨⟨walk_aligned haligned hwalk, hrun.notTable⟩, hrun.nodup⟩

/-- The sector of an entry that an enumerator gives can be read. -/
theorem getSector_of_next {e e' : EntryEnumerator} (hextend : e.extend = false)
    (hnext : e.next d = (some index, e')) : ∃ sector, d.getSector index.1 = some sector := by
  have hcurrent {e : EntryEnumerator} (h : e.current d = some index) :
      ∃ sector, d.getSector index.1 = some sector := by
    rw [current_eq_some h]
    unfold current at h
    cases hsector : d.getSector e.sectIndex with
    | none => simp [hsector] at h
    | some sector => exact ⟨sector, hsector⟩
  have hfound : (e.getNext d).1 = some index := congrArg Prod.fst hnext
  unfold getNext at hfound
  simp only [hextend] at hfound
  split_ifs at hfound
  · exact hcurrent hfound
  · exact hcurrent hfound
  · have hdisk := getNextSect_disk d e.clusIndex e.sectIndex false
    cases hsect : d.getNextSect e.clusIndex e.sectIndex false false with
    | mk found d' =>
      rw [hsect] at hfound hdisk
      subst hdisk
      cases found with
      | none => cases hfound
      | some place => exact hcurrent hfound

theorem walk_extend {e e' : EntryEnumerator} (hextend : e.extend = false)
    (hwalk : Walk d e run e') : e'.extend = false := by
  induction hwalk with
  | nil => exact hextend
  | cons hnext _ ih =>
      apply ih
      have hkept := next_extend (d := d) hextend
      rwa [hnext] at hkept

theorem walk_start {e' : EntryEnumerator}
    (hwalk : Walk d (start d first.1 first.2 false) (index :: run) e') : index = first := by
  cases hwalk with
  | cons hnext _ =>
    have hfound : ((start d first.1 first.2 false).getNext d).1 = some index :=
      congrArg Prod.fst hnext
    exact getNext_index hfound

theorem start_congr (h : d.SameVolume d₁) (first : EntryIndex) :
    start d₁ first.1 first.2 false = start d first.1 first.2 false := by
  rw [start, start, h.volume]

/-! ## The round trip -/

/-- What is known after `Create` has filled the entries of `run` for a name: `Parse` gives the file
with the length of its name, the name can be copied and is found in any case, and the entries that
a deletion marks are those that differ from the disk before. -/
structure RoundTrips (d₀ : MountedDisk) (run : List EntryIndex) (name : WString) (file : FATFile)
    (d : MountedDisk) : Prop where
  parses : ∀ fuel, ∃ e', FATFile.parse d (fuel + 1)
    (start d file.lDirIndex.1 file.lDirIndex.2 false) = some (some file, e')
  nameLength : file.fileNameLength = name.length
  copies : ∀ buffer : WString, name.length < buffer.length →
    FATFile.copyFileName d file buffer = some (name ++ 0 :: buffer.drop (name.length + 1))
  matchesName : ∀ n, SameUpToCase n name → FATFile.isFileName d file n = true
  writes : OnlyAt run d₀ d
  long : d.HoldsLong name file.lDirCount (getShortNameChksum (d.dirName file.dirIndex)) run.dropLast
  short : run.getLast? = some file.dirIndex
  deletes : d.deleteDirectoryEntry file =
    (true, run.foldl (fun d index => d.setEntryBytes index 0 [0xE5]) d)

theorem deletes_run {file : FATFile} {e' : EntryEnumerator} (happart : d.Apart run)
    (hwalk : Walk d (start d file.lDirIndex.1 file.lDirIndex.2 false) run e')
    (hcount : file.lDirCount + 1 = run.length) : d.deleteDirectoryEntry file =
      (true, run.foldl (fun d index => d.setEntryBytes index 0 [0xE5]) d) := by
  rw [deleteDirectoryEntry, hcount]
  exact deleteEntries_spec rfl happart hwalk

/-! ## What `Create` leaves -/

/-- The entries of `run` hold the long entries of a name and the short one behind them. -/
structure Filled (d₀ : MountedDisk) (run : List EntryIndex) (name : WString)
    (shortName : ShortName) (attributes : Nat) (file : FATFile) (long : List EntryIndex)
    (d : MountedDisk) : Prop where
  run_eq : run = long ++ [file.dirIndex]
  writes : OnlyAt run d₀ d
  long : d.HoldsLong name (entryCount name - 1) (getShortNameChksum shortName) long
  dirName : d.dirName file.dirIndex = shortName.map (· % 256)
  dirAttr : d.dirAttr file.dirIndex = attributes % 256
  walk : ∃ e', Walk d (start d file.lDirIndex.1 file.lDirIndex.2 false) run e'
  apart : d.Apart run

theorem length_of_placed (hvalid : isFileNameValid name next = true) (hne : name ≠ [])
    (hplaced : d.Placed fuel clusIndex name attributes shortName first fstClus d₀) :
    shortName.length = 11 := by
  have hshort := hplaced.shortName
  by_cases hlong : isFileLongName name = true
  · rw [if_pos hlong] at hshort
    obtain ⟨names, -, hnames⟩ := Option.map_eq_some_iff.mp hshort
    rw [← hnames]
    exact length_longToShortName name names
  · rw [if_neg hlong, Option.some.injEq] at hshort
    rw [← hshort]
    exact DIR.length_setName hne hvalid (Bool.not_eq_true _ ▸ hlong)

theorem create_fills (now : FATTime) (hvalid : isFileNameValid name next = true) (hne : name ≠ [])
    (hplaced : d.Placed fuel clusIndex name attributes shortName first fstClus d₀)
    (hrun : d₀.EntryRun first run) (hcount : run.length = entryCount name) :
    ∃ long last d', d.create fuel clusIndex name next attributes now =
        some (some ⟨last, first, entryCount name - 1, name.length⟩, d') ∧
      Filled d₀ run name shortName attributes ⟨last, first, entryCount name - 1, name.length⟩ long
        d' := by
  have hlength := length_of_placed hvalid hne hplaced
  have happart := hplaced.apart hrun
  obtain ⟨e', hwalk⟩ := hrun.walk
  have hpos : 0 < entryCount name := by
    unfold entryCount
    split <;> omega
  -- the last place of the run is the one of the short entry
  obtain ⟨long, last, rfl⟩ : ∃ long last, run = long ++ [last] := by
    cases List.eq_nil_or_concat run with
    | inl hnil =>
        rw [hnil, List.length_nil] at hcount
        omega
    | inr hconcat =>
        obtain ⟨long, last, hrun⟩ := hconcat
        exact ⟨long, last, by simpa using hrun⟩
  have hlong : long.length = entryCount name - 1 := by
    rw [← hcount, List.length_append, List.length_singleton, Nat.add_sub_cancel]
  have hnodup := List.nodup_append.mp happart.nodup
  have hnotMem : last ∉ long := fun hmem =>
    hnodup.2.2 last hmem last (List.mem_singleton_self last) rfl
  have happartLong : d₀.Apart long :=
    ⟨⟨fun i hi => happart.aligned i (List.mem_append_left _ hi),
      fun i hi => happart.notTable i (List.mem_append_left _ hi)⟩, hnodup.1⟩
  obtain ⟨e₁, hwalkLong, hwalkShort⟩ := FATFile.walk_append hwalk
  obtain ⟨d₁, hwrite, honly, hholds⟩ := writeLong_spec name (entryCount name - 1)
    (getShortNameChksum shortName) rfl happartLong hwalkLong
  rw [hlong] at hwrite
  cases hwalkShort with
  | cons hlast _ =>
    have hnext := (next_congr honly happartLong.toOutside (walk_extend rfl hwalkLong)).trans hlast
    have honlyShort := onlyAt_writeShort d₁ last hlength attributes fstClus now
    have hwrites : OnlyAt (long ++ [last]) d₀
        (d₁.writeShort last shortName attributes fstClus now) :=
      (honly.mono (by simp)).trans (honlyShort.mono (by simp))
    refine ⟨long, last, _, create_of_placed hvalid hplaced hwrite hnext, rfl, hwrites, ?_, ?_, ?_,
      ?_, happart.congr hwrites.same⟩
    · exact hholds.congr honlyShort (happart.aligned last (by simp)) happartLong.aligned hnotMem
    · exact dirName_writeShort hlength attributes fstClus now
    · exact dirAttr_writeShort hlength attributes fstClus now
    · rw [start_congr hwrites.same first]
      exact ⟨e', hwalk.congr hwrites happart.toOutside rfl⟩

theorem zero_not_mem (hvalid : isFileNameValid name next = true) : ∀ c ∈ name, c ≠ 0 := by
  unfold isFileNameValid at hvalid
  simp only [Bool.and_eq_true, List.all_eq_true, decide_eq_true_eq] at hvalid
  intro c hc
  have hlow := (hvalid.2 c hc).1
  omega

variable {file : FATFile} {long : List EntryIndex} {d' : MountedDisk}

/-- A name with long entries. -/
theorem roundTrips_long (hvalid : isFileNameValid name next = true) (hne : name ≠ [])
    (hlength : name.length ≤ 255) (hwide : ∀ c ∈ name, c < 2 ^ 16)
    (hfilled : Filled d₀ run name shortName attributes file long d')
    (hcount : run.length = entryCount name) (hfile : file.lDirCount = entryCount name - 1)
    (hname : file.fileNameLength = name.length) (hlong : isFileLongName name = true) :
    RoundTrips d₀ run name file d' := by
  have hentries : entryCount name = 1 + portionCount name := if_pos hlong
  have hrun := hfilled.run_eq
  have hholds := hfilled.long
  obtain ⟨e', hwalk⟩ := hfilled.walk
  rw [hrun, List.length_append, List.length_singleton, hentries] at hcount
  rw [hentries, Nat.add_sub_cancel_left] at hfile hholds
  have hchksum : getShortNameChksum shortName =
      getShortNameChksum (d'.dirName file.dirIndex) := by
    rw [hfilled.dirName, getShortNameChksum_bytes]
  rw [hchksum] at hholds
  cases hplaces : long with
  | nil =>
      have hpos := List.length_pos_of_ne_nil hne
      rw [hplaces, List.length_nil, portionCount] at hcount
      omega
  | cons index rest =>
      rw [hplaces, List.length_cons] at hcount
      rw [hplaces] at hholds hrun
      have hwalk' := hwalk
      rw [hrun] at hwalk'
      have hlongFile : FATFile.LongFile d' name file index rest :=
        ⟨⟨e', hwalk'⟩, (walk_start hwalk').symm, hfile, by omega, hholds, hname⟩
      constructor
      · exact FATFile.parse_long hlongFile hne hlength hwide (zero_not_mem hvalid)
      · exact hname
      · intro buffer hbuffer
        exact FATFile.copyFileName_long hlongFile hwide (zero_not_mem hvalid) hbuffer
      · intro n hsame
        exact FATFile.isFileName_long hlongFile hwide hsame
      · exact hfilled.writes
      · rw [hrun, List.dropLast_concat, hfile]
        exact hholds
      · rw [hrun]
        exact List.getLast?_concat
      · apply deletes_run hfilled.apart hwalk
        rw [hrun, List.length_append, List.length_cons, List.length_singleton]
        omega

/-- The file of a name without long entries. -/
theorem shortFile_of_filled (hfilled : Filled d₀ run name (DIR.setName name) attributes file long d')
    (hattr : attributes &&& 0x3F ≠ attrLongName) (hcount : run.length = 1)
    (hfile : file.lDirCount = 0) (hbytes : ∀ b ∈ DIR.setName name, b < 256) :
    FATFile.ShortFile d' name file ∧ run = [file.dirIndex] := by
  have hrun := hfilled.run_eq
  have hlong : long = [] := by
    rw [hrun, List.length_append, List.length_singleton] at hcount
    exact List.length_eq_zero_iff.mp (by omega)
  rw [hlong, List.nil_append] at hrun
  obtain ⟨e', hwalk⟩ := hfilled.walk
  rw [hrun] at hwalk
  have hmap : (DIR.setName name).map (· % 256) = DIR.setName name := by
    calc (DIR.setName name).map (· % 256) = (DIR.setName name).map id :=
          List.map_congr_left fun b hb => Nat.mod_eq_of_lt (hbytes b hb)
      _ = DIR.setName name := List.map_id _
  refine ⟨⟨⟨e', hwalk⟩, (walk_start hwalk).symm, hfile, hfilled.dirName.trans hmap, ?_⟩, hrun⟩
  have hmask (x : Nat) : x &&& 0x3F = x % 64 := Nat.and_two_pow_sub_one_eq_mod x 6
  rw [hfilled.dirAttr, hmask, Nat.mod_mod_of_dvd _ (by decide), ← hmask]
  exact hattr

theorem roundTrips_short (hfilled : Filled d₀ run name (DIR.setName name) attributes file long d')
    (hattr : attributes &&& 0x3F ≠ attrLongName) (hcount : run.length = 1)
    (hfile : file.lDirCount = 0) (hname : file.fileNameLength = name.length) {base ext : WString}
    (hform : ShortForm base ext) (hjoin : name = joinExt base ext) :
    RoundTrips d₀ run name file d' := by
  have hbytes : ∀ b ∈ DIR.setName name, b < 256 := hjoin ▸ DIR.setName_lt hform
  obtain ⟨hshort, hrun⟩ := shortFile_of_filled hfilled hattr hcount hfile hbytes
  obtain ⟨e', hwalk⟩ := hshort.walk
  have hsector : ∃ sector, d'.getSector file.dirIndex.1 = some sector := by
    cases hwalk with
    | cons hnext _ => exact getSector_of_next rfl hnext
  have hlength := DIR.getNameLength_joinExt hform
  rw [← hjoin, ← hname] at hlength
  obtain ⟨b, hhead, hdeleted, hempty⟩ := DIR.head_setName hform
  rw [← hjoin] at hhead
  constructor
  · intro fuel
    have hparse := FATFile.parse_short hshort hhead hdeleted hempty fuel
    rw [hlength, ← hfile] at hparse
    exact hparse
  · exact hname
  · intro buffer hbuffer
    exact FATFile.copyFileName_short hshort hform hjoin hname hsector hbuffer
  · intro n hsame
    exact FATFile.isFileName_short hshort hform hjoin hname hsector hsame
  · exact hfilled.writes
  · rw [hrun]
    trivial
  · rw [hrun]
    rfl
  · rw [hrun]
    apply deletes_run (hrun ▸ hfilled.apart) hwalk
    rw [hfile, List.length_singleton]

/-- A name that loses its dot is not read back. -/
theorem not_roundTrips_dot
    (hfilled : Filled d₀ run name (DIR.setName name) attributes file long d')
    (hattr : attributes &&& 0x3F ≠ attrLongName) (hcount : run.length = 1)
    (hfile : file.lDirCount = 0) {base : WString} (hform : ShortForm base [])
    (hlt : base.length < 8) (hdot : name = base ++ [46]) : ¬RoundTrips d₀ run name file d' := by
  intro hround
  have hsame := DIR.setName_dot hform hlt
  have hjoin : joinExt base [] = base := if_pos rfl
  have hbytes := DIR.setName_lt hform
  obtain ⟨b, hhead, hdeleted, hempty⟩ := DIR.head_setName hform
  rw [hjoin, ← hsame, ← hdot] at hbytes hhead
  have hshort := (shortFile_of_filled hfilled hattr hcount hfile hbytes).1
  obtain ⟨e₁, hparse₁⟩ := FATFile.parse_short hshort hhead hdeleted hempty 0
  obtain ⟨e₂, hparse₂⟩ := hround.parses 0
  rw [hparse₁] at hparse₂
  simp only [Option.some.injEq, Prod.mk.injEq] at hparse₂
  have hlength : DIR.getNameLength (DIR.setName name) = name.length :=
    (congrArg FATFile.fileNameLength hparse₂.1).trans hround.nameLength
  rw [hdot] at hlength
  exact DIR.getNameLength_dot hform hlt hlength

theorem entryRun_emptyDisk {count : Nat} (hcount : count ≤ 2) :
    emptyDisk.EntryRun (41, 0) ([(41, 0), (41, 32)].take count) := by
  have hroot : ¬emptyDisk.IsTable 41 := by
    rintro (⟨c, hc, hsector⟩ | ⟨c, hc, hsector⟩ | ⟨htype, -⟩)
    · simp only [emptyDisk, Volume.maxCluster, Volume.tableSector, clusterStart] at hc hsector
      omega
    · simp only [emptyDisk, Volume.maxCluster, Volume.tableSector, clusterStart] at hc hsector
      omega
    · cases htype
  constructor
  · interval_cases count
    · exact ⟨_, .nil⟩
    · exact ⟨_, .cons rfl .nil⟩
    · exact ⟨_, .cons rfl (.cons rfl .nil)⟩
  · exact List.Nodup.sublist (List.take_sublist count _) (by decide)
  · intro index hindex
    have hplace : index.1 = 41 := by
      have hmem := List.mem_of_mem_take hindex
      simp only [List.mem_cons, List.not_mem_nil, or_false] at hmem
      cases hmem with
      | inl h => rw [h]
      | inr h => rw [h]
    rw [hplace]
    exact hroot

theorem placed_emptyDisk_long : emptyDisk.Placed 4 0 [97, 46] attrArchive
    [65, 126, 49, 32, 32, 32, 32, 32, 32, 32, 32] (41, 0) 0 emptyDisk :=
  ⟨by decide +kernel, emptyDisk, rfl, rfl⟩

theorem placed_emptyDisk_short : emptyDisk.Placed 4 0 [65, 46] attrArchive
    [65, 32, 32, 32, 32, 32, 32, 32, 32, 32, 32] (41, 0) 0 emptyDisk :=
  ⟨by decide +kernel, emptyDisk, rfl, rfl⟩

end MountedDisk

end TinyCLR.FAT
