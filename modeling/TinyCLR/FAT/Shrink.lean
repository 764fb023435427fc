import TinyCLR.FAT.SeekChain

/-!
# Making a file shorter

`SetLength` for a length below the size of a file. The loop that is to go along the chain until
the last cluster to keep stays on the first one, so that the new end mark is written there.
-/

namespace TinyCLR.FAT

open LittleEndian

namespace OpenFile

/-- A file with its clusters on a volume where FAT, entry and data lie apart. -/
structure StoredFile (f : OpenFile) (chain : List Nat) : Prop where
  ready : f.disk.Ready
  regular : f.disk.volume.Regular
  table : ∀ sectorIndex, f.disk.IsTable sectorIndex → sectorIndex < f.disk.volume.firstDataSector
  entry_read : f.disk.CanRead f.handle.file.dirIndex.1
  entry_outside : ¬f.disk.IsTable f.handle.file.dirIndex.1
  entry_apart : ∀ c ∈ chain, ∀ k < f.disk.volume.sectorsPerCluster,
    f.disk.clusToSect c + k ≠ f.handle.file.dirIndex.1
  linked : f.disk.ClusterChain chain
  start : chain.head? = some f.fstClus
  covers : f.dirFileSize ≤
    chain.length * (f.disk.volume.bytesPerSector * f.disk.volume.sectorsPerCluster)
  data_le : f.handle.dataIndex ≤ f.disk.volume.bytesPerSector

/-- The clusters that `length` bytes take. -/
def clustersFor (f : OpenFile) (length : Nat) : Nat :=
  (length + f.disk.volume.bytesPerSector * f.disk.volume.sectorsPerCluster - 1) /
    (f.disk.volume.bytesPerSector * f.disk.volume.sectorsPerCluster)

/-- A byte of the file whose clusters are given. -/
def byteAt (f : OpenFile) (chain : List Nat) (i : Nat) : BitVec 8 :=
  let v := f.disk.volume
  let inside := i % (v.bytesPerSector * v.sectorsPerCluster)
  f.disk.sectors
    (f.disk.clusToSect (chain.getD (i / (v.bytesPerSector * v.sectorsPerCluster)) 0) +
      inside / v.bytesPerSector) (inside % v.bytesPerSector)

/-- What a shorter file is: the clusters that it needs are linked as before, the others are free,
and what it holds has stayed. -/
structure Shrunk (f : OpenFile) (chain : List Nat) (length : Nat) (f' : OpenFile) : Prop where
  size : f'.dirFileSize = length
  start : f'.fstClus = f.fstClus
  kept : f'.disk.ClusterChain (chain.take (f.clustersFor length))
  freed : ∀ c ∈ chain.drop (f.clustersFor length), f'.disk.link₁ c = 0 ∧ f'.disk.link₂ c = 0
  others : ∀ c < f.disk.volume.maxCluster, c ∉ chain →
    f'.disk.link₁ c = f.disk.link₁ c ∧ f'.disk.link₂ c = f.disk.link₂ c
  bytes : ∀ i < length, f'.byteAt (chain.take (f.clustersFor length)) i = f.byteAt chain i

/-- When `SetLength` keeps what it is to keep: one cluster is enough and the file has no more than
its size needs, or the size is so near to 4 GB that the sum of the cluster count wraps around and
there is nothing to free, or the step back to the new end goes over the first cluster and fails. -/
def CutsRight (f : OpenFile) (chain : List Nat) (length : Nat) : Prop :=
  if f.clusCount f.dirFileSize = 0 then chain.length = f.clustersFor length
  else if f.clusCount length = 1 then chain.length = f.clusCount f.dirFileSize
  else length < 2 ^ 31 ∧ (length + f.handle.dataIndex : Int) < min f.handle.position f.dirFileSize

variable {f : OpenFile} {chain : List Nat} {length : Nat}

theorem hasEntry_of_canRead (h : f.disk.CanRead f.handle.file.dirIndex.1) : f.hasEntry = true := by
  rw [hasEntry, MountedDisk.getSector_of_canRead h]
  rfl

theorem dirFileSize_lt : f.dirFileSize < 2 ^ 32 := get_lt _ _ 4

/-! ## Seeking back -/

/-- A step back inside a file whose chain has `rest` behind its first cluster. -/
theorem seekTo_back (hd : f.disk.Ready) (hv : f.disk.volume.Regular) {rest : List Nat}
    (hread : f.disk.CanRead f.handle.file.dirIndex.1)
    (hchain : f.disk.ClusterChain (f.fstClus :: rest)) (hle : (length : Int) ≤ f.handle.position) :
    ∃ r, f.seekTo length = some r ∧ r.file.disk = f.disk ∧
      r.file.handle.file = f.handle.file ∧
      (r.result.isOk = true ↔ f.handle.position - length ≤ f.handle.dataIndex ∨
        (toInt32 length).toNat ≤ (rest.length + 1) *
          (f.disk.volume.bytesPerSector * f.disk.volume.sectorsPerCluster)) := by
  rw [seekTo]
  by_cases hback : (length : Int) - f.handle.position < 0
  · rw [if_pos hback]
    by_cases hnear : -((length : Int) - f.handle.position) ≤ f.handle.dataIndex
    · rw [if_pos hnear]
      refine ⟨_, rfl, rfl, rfl, ?_⟩
      simp only [Except.isOk, Except.toBool, true_iff]
      left
      omega
    · rw [if_neg hnear, if_pos (hasEntry_of_canRead hread)]
      have hat : (f.restart f.fstClus).At f.fstClus 0 :=
        ⟨rfl, rfl, hv.sectors_pos, Nat.zero_le _⟩
      have hroom : (f.restart f.fstClus).room 0 rest = (rest.length + 1) *
          (f.disk.volume.bytesPerSector * f.disk.volume.sectorsPerCluster) := by
        obtain ⟨m, hm⟩ := Nat.exists_eq_succ_of_ne_zero hv.sectors_pos.ne'
        dsimp only [room, restart]
        rw [hm]
        simp only [Nat.succ_eq_add_one, Nat.sub_zero, Nat.add_sub_cancel]
        ring
      obtain ⟨r, hrun, hok, hdisk, hfile⟩ := seekHelper_spec ((toInt32 length).toNat + 1)
        (f := f.restart f.fstClus) hd hv hchain hat (Nat.lt_succ_self _) []
      have hwalk : (f.restart f.fstClus).readWriteSeek .seek none (toInt32 length) = some r := hrun
      dsimp only
      rw [hwalk]
      refine ⟨_, rfl, hdisk, hfile, ?_⟩
      rw [hroom] at hok
      have hmap : (r.result.map fun _ => ()).isOk = r.result.isOk := by
        cases r.result <;> rfl
      rw [hmap, hok]
      have hnot : ¬f.handle.position - length ≤ f.handle.dataIndex := by omega
      simp [hnot]
  · rw [if_neg hback, show (length : Int) - f.handle.position = 0 by omega]
    refine ⟨_, rfl, rfl, rfl, ?_⟩
    simp only [Except.isOk, Except.toBool, Except.map, true_iff]
    left
    omega

theorem seek_back (hd : f.disk.Ready) (hv : f.disk.volume.Regular) {rest : List Nat}
    (hread : f.disk.CanRead f.handle.file.dirIndex.1)
    (hchain : f.disk.ClusterChain (f.fstClus :: rest)) (hlt : length < f.dirFileSize)
    (hle : (length : Int) ≤ f.handle.position)
    (setLength : Int → OpenFile → Option (Attempt Unit)) :
    ∃ r, f.seek setLength length 0 = some r ∧ r.file.disk = f.disk ∧
      r.file.handle.file = f.handle.file ∧
      (r.result.isOk = true ↔ min f.handle.position f.dirFileSize - length ≤ f.handle.dataIndex ∨
        (toInt32 length).toNat ≤ (rest.length + 1) *
          (f.disk.volume.bytesPerSector * f.disk.volume.sectorsPerCluster)) := by
  have hinside : ¬(f.clip.dirFileSize : Int) < length := by
    rw [not_lt, Int.ofNat_le]
    exact hlt.le
  have hclip : (length : Int) ≤ f.clip.handle.position := le_min hle (by omega)
  rw [seek, if_pos (hasEntry_of_canRead hread)]
  dsimp only
  rw [newPosition, if_pos rfl]
  dsimp only
  rw [if_neg hinside, if_neg (by omega)]
  exact seekTo_back (f := f.clip) hd hv hread hchain hclip

/-! ## The run of `SetLength` -/

/-- Whether the step back to the new end succeeds, on a chain of so many clusters. -/
def StepsBack (f : OpenFile) (length clusters : Nat) : Prop :=
  f.handle.position < length ∨
    min f.handle.position f.dirFileSize - length ≤ f.handle.dataIndex ∨
    (toInt32 length).toNat ≤ clusters *
      (f.disk.volume.bytesPerSector * f.disk.volume.sectorsPerCluster)

theorem setFileSize_of_pos (h : f.hasEntry = true) (hpos : 0 < length) (startClus : Nat) :
    f.setFileSize length startClus =
      ⟨.ok (), { f with disk := f.disk.setField f.handle.file.dirIndex 28 4 length }⟩ := by
  rw [setFileSize, if_pos h]
  dsimp only
  rw [if_neg hpos.ne']

/-- After the loop the handle goes back to the new end and the entry gets the size. -/
theorem shrink_run (hd : (f.afterLoop length).disk.Ready)
    (hv : (f.afterLoop length).disk.volume.Regular) {rest : List Nat}
    (hread : (f.afterLoop length).disk.CanRead f.handle.file.dirIndex.1)
    (hchain : (f.afterLoop length).disk.ClusterChain ((f.afterLoop length).fstClus :: rest))
    (hpos : 0 < length) (hlt : length < (f.afterLoop length).dirFileSize)
    (setLength : Int → OpenFile → Option (Attempt Unit)) :
    ∃ r, f.shrink setLength length = some r ∧
      (r.result.isOk = true ↔ (f.afterLoop length).StepsBack length (rest.length + 1)) ∧
      (r.result.isOk = true → r.file.handle.file = f.handle.file ∧ r.file.disk =
        (f.afterLoop length).disk.setField f.handle.file.dirIndex 28 4 length) := by
  rw [shrink]
  by_cases hle : (length : Int) ≤ (f.afterLoop length).handle.position
  · obtain ⟨r, hrun, hdisk, hfile, hok⟩ := seek_back hd hv hread hchain hlt hle setLength
    rw [if_pos hle, hrun]
    refine ⟨_, rfl, ?_⟩
    obtain ⟨result, file⟩ := r
    cases result with
    | error e =>
        constructor
        · have hnot := mt hok.mpr Bool.false_ne_true
          simp only [StepsBack, Except.isOk, Except.toBool, Bool.false_eq_true, false_iff]
          rintro (hbefore | hback)
          · omega
          · exact hnot hback
        · intro hfalse
          cases hfalse
    | ok value =>
        have hentry : file.hasEntry = true := by
          apply hasEntry_of_canRead
          rw [hfile, hdisk]
          exact hread
        dsimp only at hdisk hfile ⊢
        rw [setFileSize_of_pos hentry hpos]
        refine ⟨iff_of_true rfl (.inr (hok.mp rfl)), fun _ => ⟨hfile, ?_⟩⟩
        dsimp only
        rw [hdisk, hfile]
        rfl
  · rw [if_neg hle, setFileSize_of_pos (hasEntry_of_canRead hread) hpos]
    exact ⟨_, rfl, iff_of_true rfl (.inl (not_le.mp hle)), fun _ => ⟨rfl, rfl⟩⟩

theorem setLength_of_lt (hread : f.disk.CanRead f.handle.file.dirIndex.1) (hpos : 0 < length)
    (hlt : length < f.dirFileSize) (now : FATTime) (depth : Nat) :
    setLength now (depth + 1) length f = f.shrink (setLength now depth) length := by
  have hsize := dirFileSize_lt (f := f)
  rw [setLength, if_neg (by omega), if_pos (hasEntry_of_canRead hread)]
  dsimp only
  rw [Int.toNat_natCast, if_neg (by omega), if_pos hlt.le]

/-! ## The file afterwards -/

/-- Some entries of the FAT have changed, the file's entry has got its size, and nothing else. -/
structure Resized (f : OpenFile) (entry : Nat → Option Nat) (length : Nat) (f' : OpenFile) : Prop
    where
  same : f.disk.SameVolume f'.disk
  link₁ : ∀ c < f.disk.volume.maxCluster, f'.disk.link₁ c = (entry c).getD (f.disk.link₁ c)
  link₂ : ∀ c < f.disk.volume.maxCluster, f'.disk.link₂ c = (entry c).getD (f.disk.link₂ c)
  size : f'.dirFileSize = length
  start : f'.fstClus = f.fstClus
  outside : ∀ sectorIndex, ¬f.disk.IsTable sectorIndex →
    sectorIndex ≠ f.handle.file.dirIndex.1 →
      f'.disk.sectors sectorIndex = f.disk.sectors sectorIndex

theorem resized_of_changed (hf : f.StoredFile chain) {entry : Nat → Option Nat} {d : MountedDisk}
    {f' : OpenFile} (hchange : MountedDisk.Changed f.disk entry d) (hlength : length < 2 ^ 32)
    (hfile : f'.handle.file = f.handle.file)
    (hdisk : f'.disk = d.setField f.handle.file.dirIndex 28 4 length) :
    f.Resized entry length f' := by
  have hsame : d.SameVolume f'.disk := hdisk ▸ MountedDisk.sameVolume_setSector ..
  have hentry := hchange.outside _ hf.entry_outside
  have hsector : f'.disk.sectors f.handle.file.dirIndex.1 =
      put (f.disk.sectors f.handle.file.dirIndex.1) (f.handle.file.dirIndex.2 + 28) 4 length := by
    rw [hdisk, MountedDisk.setField, MountedDisk.sectors_setSector_same, hentry]
  have hother {sectorIndex : Nat} (hne : sectorIndex ≠ f.handle.file.dirIndex.1) :
      f'.disk.sectors sectorIndex = d.sectors sectorIndex := by
    rw [hdisk, MountedDisk.setField]
    exact MountedDisk.sectors_setSector_of_ne hne _
  have hvolume := hchange.same.volume
  constructor
  · exact hchange.same.trans hsame
  · intro c hc
    rw [← hchange.link₁ c hc]
    have htable := MountedDisk.isTable₁ hc
    rw [MountedDisk.link₁, MountedDisk.link₁, hsame.volume]
    apply MountedDisk.link_congr hsame.volume
    apply hother
    rw [hvolume]
    exact fun heq => hf.entry_outside (heq ▸ htable)
  · intro c hc
    rw [← hchange.link₂ c hc]
    have htable := MountedDisk.isTable₂ hc
    rw [MountedDisk.link₂, MountedDisk.link₂, hsame.volume]
    apply MountedDisk.link_congr hsame.volume
    apply hother
    rw [hvolume]
    exact fun heq => hf.entry_outside (heq ▸ htable)
  · rw [dirFileSize, hfile, MountedDisk.dirFileSize, MountedDisk.field, hsector, get_put_same]
    exact Nat.mod_eq_of_lt hlength
  · rw [fstClus, fstClus, hfile, MountedDisk.getFstClus, MountedDisk.getFstClus, MountedDisk.field,
      MountedDisk.field, MountedDisk.field, MountedDisk.field, hsector,
      get_put_disjoint (by omega), get_put_disjoint (by omega)]
  · intro sectorIndex htable hne
    rw [hother hne]
    exact hchange.outside sectorIndex htable

theorem div_lt_clusters {i length size : Nat} (hi : i < length) (hsize : 0 < size) :
    i / size < (length + size - 1) / size := by
  apply (Nat.le_div_iff_mul_le hsize).mpr
  have hle := Nat.div_mul_le_self i size
  rw [Nat.succ_mul]
  omega

/-- The sectors of the file hold neither entries of the FAT nor the file's own entry. -/
theorem StoredFile.data_sector (hf : f.StoredFile chain) {c k : Nat} (hmem : c ∈ chain)
    (hk : k < f.disk.volume.sectorsPerCluster) :
    ¬f.disk.IsTable (f.disk.clusToSect c + k) ∧
      f.disk.clusToSect c + k ≠ f.handle.file.dirIndex.1 := by
  have hc := hf.linked.mem c hmem
  refine ⟨fun htable => ?_, hf.entry_apart c hmem k hk⟩
  have hlt := hf.table _ htable
  rw [MountedDisk.clusToSect_eq hf.regular hc] at hlt
  omega

/-- The bytes of the file lie in sectors that have not been written. -/
theorem Resized.bytes (hf : f.StoredFile chain) {entry : Nat → Option Nat} {f' : OpenFile}
    (h : f.Resized entry length f') (hlt : length < f.dirFileSize) :
    ∀ i < length, f'.byteAt (chain.take (f.clustersFor length)) i = f.byteAt chain i := by
  intro i hi
  have hbytes := hf.regular.bytes_pos
  have hsize := Nat.mul_pos hbytes hf.regular.sectors_pos
  have hcovers := hf.covers
  have hfor : i / (f.disk.volume.bytesPerSector * f.disk.volume.sectorsPerCluster) <
      f.clustersFor length := div_lt_clusters hi hsize
  have hlen : i / (f.disk.volume.bytesPerSector * f.disk.volume.sectorsPerCluster) <
      chain.length := by
    apply (Nat.div_lt_iff_lt_mul hsize).mpr
    omega
  have hmem : chain.getD (i / (f.disk.volume.bytesPerSector * f.disk.volume.sectorsPerCluster)) 0 ∈
      chain := by
    rw [List.getD_eq_getElem _ _ hlen]
    exact List.getElem_mem hlen
  have hsector : i % (f.disk.volume.bytesPerSector * f.disk.volume.sectorsPerCluster) /
      f.disk.volume.bytesPerSector < f.disk.volume.sectorsPerCluster := by
    apply (Nat.div_lt_iff_lt_mul hbytes).mpr
    rw [Nat.mul_comm f.disk.volume.sectorsPerCluster]
    exact Nat.mod_lt i hsize
  have hdata := hf.data_sector hmem hsector
  have htake : (chain.take (f.clustersFor length)).getD
      (i / (f.disk.volume.bytesPerSector * f.disk.volume.sectorsPerCluster)) 0 =
        chain.getD (i / (f.disk.volume.bytesPerSector * f.disk.volume.sectorsPerCluster)) 0 := by
    rw [List.getD_eq_getElem?_getD, List.getElem?_take_of_lt hfor, List.getD_eq_getElem?_getD]
  have hplace : f'.disk.clusToSect = f.disk.clusToSect := by
    funext c
    rw [MountedDisk.clusToSect, MountedDisk.clusToSect, h.same.volume]
  rw [byteAt, byteAt, h.same.volume, hplace]
  rw [htake, h.outside _ hdata.1 hdata.2]

/-- What is left to say of a file that has got its new size. -/
theorem Resized.shrunk_iff (hf : f.StoredFile chain) {entry : Nat → Option Nat} {f' : OpenFile}
    (h : f.Resized entry length f') (hlt : length < f.dirFileSize) :
    f.Shrunk chain length f' ↔
      f'.disk.ClusterChain (chain.take (f.clustersFor length)) ∧
        (∀ c ∈ chain.drop (f.clustersFor length), f'.disk.link₁ c = 0 ∧ f'.disk.link₂ c = 0) ∧
        ∀ c < f.disk.volume.maxCluster, c ∉ chain →
          f'.disk.link₁ c = f.disk.link₁ c ∧ f'.disk.link₂ c = f.disk.link₂ c :=
  ⟨fun hs => ⟨hs.kept, hs.freed, hs.others⟩,
    fun hs => ⟨h.size, h.start, hs.1, hs.2.1, hs.2.2, h.bytes hf hlt⟩⟩

/-! ## Counting clusters -/

theorem clusterSize_eq (hv : f.disk.volume.Regular) :
    f.clusterSize = f.disk.volume.bytesPerSector * f.disk.volume.sectorsPerCluster :=
  Nat.mod_eq_of_lt hv.clusterSize

/-- The sum of the cluster count wraps around, or the count is that of the clusters needed. -/
theorem clusCount_cases (hv : f.disk.volume.Regular) {size : Nat} (hpos : 0 < size)
    (hlt : size < 2 ^ 32) :
    (2 ^ 32 ≤ size + f.clusterSize - 1 ∧ f.clusCount size = 0) ∨
      (size + f.clusterSize - 1 < 2 ^ 32 ∧ f.clusCount size = f.clustersFor size ∧
        0 < f.clustersFor size) := by
  have hsize := Nat.mul_pos hv.bytes_pos hv.sectors_pos
  have hsmall := hv.clusterSize
  rw [clusCount, clusterSize_eq hv, u32, clustersFor]
  generalize f.disk.volume.bytesPerSector * f.disk.volume.sectorsPerCluster = n at hsize hsmall
  by_cases hwrap : 2 ^ 32 ≤ size + n - 1
  · left
    refine ⟨hwrap, Nat.div_eq_of_lt ?_⟩
    omega
  · right
    have hsum : size + n - 1 < 2 ^ 32 := not_le.mp hwrap
    rw [Nat.mod_eq_of_lt hsum]
    exact ⟨hsum, rfl, Nat.div_pos (by omega) hsize⟩

theorem clustersFor_le (hv : f.disk.volume.Regular) {n : Nat}
    (h : length ≤ n * (f.disk.volume.bytesPerSector * f.disk.volume.sectorsPerCluster)) :
    f.clustersFor length ≤ n := by
  have hsize := Nat.mul_pos hv.bytes_pos hv.sectors_pos
  rw [clustersFor]
  apply Nat.le_of_lt_succ
  apply (Nat.div_lt_iff_lt_mul hsize).mpr
  rw [Nat.succ_mul]
  omega

theorem le_clustersFor_mul (hv : f.disk.volume.Regular) :
    length ≤ f.clustersFor length *
      (f.disk.volume.bytesPerSector * f.disk.volume.sectorsPerCluster) := by
  have hsize := Nat.mul_pos hv.bytes_pos hv.sectors_pos
  rw [clustersFor]
  generalize f.disk.volume.bytesPerSector * f.disk.volume.sectorsPerCluster = n at hsize
  have hdiv := Nat.div_add_mod (length + n - 1) n
  have hmod := Nat.mod_lt (length + n - 1) hsize
  rw [Nat.mul_comm] at hdiv
  omega

theorem clustersFor_mono (h : length ≤ f.dirFileSize) :
    f.clustersFor length ≤ f.clustersFor f.dirFileSize :=
  Nat.div_le_div_right (by omega)

/-- From 2 GB on the distance of a seek is negative as an `int`. -/
theorem toInt32_toNat {n : Nat} (h : n < 2 ^ 32) :
    (toInt32 n).toNat = if n < 2 ^ 31 then n else 0 := by
  rw [toInt32]
  split <;> omega

/-! ## What the loop leaves -/

/-- The entries that the loop changes, when there are clusters behind the first one. -/
def loopEntry (f : OpenFile) (rest : List Nat) (length c : Nat) : Option Nat :=
  if f.clusCount f.dirFileSize = 0 then none
  else if c = f.fstClus then some (f.disk.stored clustEof)
  else if c ∈ rest.take (f.clusCount f.dirFileSize - f.clusCount length) then some 0
  else none

variable {rest : List Nat}

theorem clusCount_pos (hv : f.disk.volume.Regular) (hpos : 0 < length) (hlt : length < f.dirFileSize)
    (hcount : f.clusCount f.dirFileSize ≠ 0) :
    f.clusCount f.dirFileSize = f.clustersFor f.dirFileSize ∧
      f.clusCount length = f.clustersFor length ∧ 0 < f.clustersFor length := by
  have hsize := dirFileSize_lt (f := f)
  rcases clusCount_cases hv (hpos.trans hlt) hsize with ⟨_, hzero⟩ | ⟨hsum, hfile, _⟩
  · exact absurd hzero hcount
  · rcases clusCount_cases hv hpos (hlt.trans hsize) with ⟨hwrap, _⟩ | ⟨_, hlength, hfor⟩
    · omega
    · exact ⟨hfile, hlength, hfor⟩

theorem changed_afterLoop (hf : f.StoredFile (f.fstClus :: rest)) (hpos : 0 < length)
    (hlt : length < f.dirFileSize) :
    MountedDisk.Changed f.disk (f.loopEntry rest length) (f.afterLoop length).disk := by
  by_cases hcount : f.clusCount f.dirFileSize = 0
  · have hsame : (f.afterLoop length).disk = f.disk := by
      rw [afterLoop, hcount]
      rfl
    rw [hsame]
    apply MountedDisk.Changed.refl.of_eq
    intro c
    exact (if_pos hcount).symm
  · obtain ⟨hold, hnew, hfor⟩ := clusCount_pos hf.regular hpos hlt hcount
    have hle := clustersFor_mono hlt.le
    have hnewpos : 0 < f.clusCount length := hnew ▸ hfor
    have hcounts : f.clusCount length ≤ f.clusCount f.dirFileSize := by omega
    have hloop := MountedDisk.cutChain_spec hf.ready hf.regular hf.linked hnewpos hcounts
    apply hloop.of_eq
    intro c
    exact (if_neg hcount).symm

/-- The chain from the first cluster on, after the loop. -/
theorem chain_afterLoop (hf : f.StoredFile (f.fstClus :: rest)) (hpos : 0 < length)
    (hlt : length < f.dirFileSize) :
    (f.afterLoop length).disk.ClusterChain
      (f.fstClus :: if f.clusCount f.dirFileSize = 0 then rest else []) := by
  have hchange := changed_afterLoop hf hpos hlt
  by_cases hcount : f.clusCount f.dirFileSize = 0
  · rw [if_pos hcount]
    exact hf.linked.of_changed hchange fun c _ => if_pos hcount
  · have hc := hf.linked.head
    have hentry : f.loopEntry rest length f.fstClus = some (f.disk.stored clustEof) := by
      rw [loopEntry, if_neg hcount, if_pos rfl]
    rw [if_neg hcount]
    refine ⟨hchange.same.volume ▸ hc, ?_, ?_⟩
    · rw [hchange.same.getClusType, hchange.link₁ _ hc.2, hentry]
      exact MountedDisk.getClusType_stored_eof
    · rw [hchange.same.getClusType, hchange.link₂ _ hc.2, hentry]
      exact MountedDisk.getClusType_stored_eof

/-- The run of `SetLength`: when it succeeds, and what it leaves. -/
theorem setLength_run (hf : f.StoredFile (f.fstClus :: rest)) (hpos : 0 < length)
    (hlt : length < f.dirFileSize) (now : FATTime) (depth : Nat) :
    ∃ r, setLength now (depth + 1) length f = some r ∧
      (r.result.isOk = true ↔
        f.StepsBack length ((if f.clusCount f.dirFileSize = 0 then rest else []).length + 1)) ∧
      (r.result.isOk = true → f.Resized (f.loopEntry rest length) length r.file) := by
  have hchange := changed_afterLoop hf hpos hlt
  have hchain := chain_afterLoop hf hpos hlt
  have hvolume := hchange.same.volume
  have hsector := hchange.outside _ hf.entry_outside
  have hsize : (f.afterLoop length).dirFileSize = f.dirFileSize := by
    rw [dirFileSize, dirFileSize, MountedDisk.dirFileSize, MountedDisk.dirFileSize,
      MountedDisk.field, MountedDisk.field]
    exact congrArg (get · _ 4) hsector
  have hstart : (f.afterLoop length).fstClus = f.fstClus := by
    rw [fstClus, fstClus, MountedDisk.getFstClus, MountedDisk.getFstClus, MountedDisk.field,
      MountedDisk.field, MountedDisk.field, MountedDisk.field]
    exact congrArg (fun sector => get sector _ 2 * 2 ^ 16 + get sector _ 2) hsector
  have hread := (hchange.same.canRead _).mpr hf.entry_read
  rw [← hstart] at hchain
  obtain ⟨r, hrun, hok, hfile⟩ := shrink_run (hf.ready.congr hchange.same)
    (hvolume ▸ hf.regular) hread hchain hpos (hsize ▸ hlt) (setLength now depth)
  rw [setLength_of_lt hf.entry_read hpos hlt]
  refine ⟨r, hrun, ?_, fun hsuccess => ?_⟩
  · rw [hok, StepsBack, StepsBack, hsize, hvolume]
    rfl
  · have hlength : length < 2 ^ 32 := hlt.trans dirFileSize_lt
    exact resized_of_changed hf hchange hlength (hfile hsuccess).1 (hfile hsuccess).2

/-! ## When the right clusters stay -/

/-- A cluster that the loop leaves alone is not free when it was the last one. -/
theorem Resized.not_freed (hf : f.StoredFile chain) {entry : Nat → Option Nat} {f' : OpenFile}
    (h : f.Resized entry length f') {k : Nat} (hk : k < chain.length)
    (hlast : ∀ hne : chain ≠ [], entry (chain.getLast hne) = none) :
    ¬∀ c ∈ chain.drop k, f'.disk.link₁ c = 0 ∧ f'.disk.link₂ c = 0 := by
  intro hfreed
  have hne : chain ≠ [] := List.ne_nil_of_length_pos (Nat.zero_lt_of_lt hk)
  have hdrop : chain.drop k ≠ [] := by
    rw [ne_eq, List.drop_eq_nil_iff, not_le]
    exact hk
  have hmem := List.getLast_mem hdrop
  rw [List.getLast_drop hdrop] at hmem
  have hzero := (hfreed _ hmem).1
  have hlt := (hf.linked.mem _ (List.getLast_mem hne)).2
  have heos := hf.linked.getLast hne
  rw [h.link₁ _ hlt, hlast hne, Option.getD_none] at hzero
  rw [hzero, MountedDisk.getClusType_zero] at heos
  cases heos

theorem getLast_not_mem_take {l : List Nat} (h : l.Nodup) (hne : l ≠ []) {k : Nat}
    (hk : k < l.length) : l.getLast hne ∉ l.take k := by
  intro hmem
  have hdrop : l.drop k ≠ [] := by
    rw [ne_eq, List.drop_eq_nil_iff, not_le]
    exact hk
  have hlast := List.getLast_mem hdrop
  rw [List.getLast_drop hdrop] at hlast
  exact List.disjoint_take_drop h le_rfl hmem hlast

/-- Where the cluster count wraps around nothing is cut. -/
theorem Resized.shrunk_of_wrap (hf : f.StoredFile (f.fstClus :: rest)) {f' : OpenFile}
    (h : f.Resized (f.loopEntry rest length) length f') (hlt : length < f.dirFileSize)
    (hcount : f.clusCount f.dirFileSize = 0) :
    f.Shrunk (f.fstClus :: rest) length f' ↔
      (f.fstClus :: rest).length = f.clustersFor length := by
  have hnone (c : Nat) : f.loopEntry rest length c = none := if_pos hcount
  have hle : f.clustersFor length ≤ (f.fstClus :: rest).length :=
    clustersFor_le hf.regular (hlt.le.trans hf.covers)
  rw [h.shrunk_iff hf hlt]
  constructor
  · intro hs
    by_contra hne
    exact h.not_freed hf (lt_of_le_of_ne hle (Ne.symm hne)) (fun _ => hnone _) hs.2.1
  · intro hlength
    have hlink {c : Nat} (hc : c < f.disk.volume.maxCluster) :
        f'.disk.link₁ c = f.disk.link₁ c ∧ f'.disk.link₂ c = f.disk.link₂ c := by
      rw [h.link₁ c hc, h.link₂ c hc, hnone]
      exact ⟨rfl, rfl⟩
    rw [List.take_of_length_le hlength.le, List.drop_of_length_le hlength.le]
    refine ⟨?_, fun c hmem => absurd hmem List.not_mem_nil, fun c hc _ => hlink hc⟩
    exact hf.linked.congr h.same fun c hmem => hlink (hf.linked.mem c hmem).2

/-- A file that needs one cluster. -/
theorem Resized.shrunk_of_one (hf : f.StoredFile (f.fstClus :: rest)) {f' : OpenFile}
    (h : f.Resized (f.loopEntry rest length) length f') (hlt : length < f.dirFileSize)
    (hcount : f.clusCount f.dirFileSize ≠ 0) (hone : f.clusCount length = 1)
    (hfor : f.clustersFor length = 1)
    (hle : f.clusCount f.dirFileSize ≤ (f.fstClus :: rest).length) :
    f.Shrunk (f.fstClus :: rest) length f' ↔
      (f.fstClus :: rest).length = f.clusCount f.dirFileSize := by
  have hnodup := hf.linked.nodup hf.regular
  have hhead := hf.linked.head
  have hcons := List.nodup_cons.mp hnodup
  rw [h.shrunk_iff hf hlt, hfor]
  constructor
  · intro hs
    by_contra hne
    have hlen : (f.fstClus :: rest).length = rest.length + 1 := List.length_cons
    have hrest : rest ≠ [] := by
      apply List.ne_nil_of_length_pos
      omega
    apply h.not_freed hf (k := 1) (by omega) _ hs.2.1
    intro hne'
    have hlast : rest.getLast hrest ∉
        rest.take (f.clusCount f.dirFileSize - f.clusCount length) := by
      apply getLast_not_mem_take hcons.2
      omega
    have hne : rest.getLast hrest ≠ f.fstClus := fun heq =>
      hcons.1 (heq ▸ List.getLast_mem hrest)
    rw [List.getLast_cons hrest, loopEntry, if_neg hcount, if_neg hne, if_neg hlast]
  · intro hlength
    have htake : rest.take (f.clusCount f.dirFileSize - f.clusCount length) = rest := by
      apply List.take_of_length_le
      rw [List.length_cons] at hlength
      omega
    have hentry {c : Nat} : f.loopEntry rest length c =
        if c = f.fstClus then some (f.disk.stored clustEof) else if c ∈ rest then some 0 else none := by
      rw [loopEntry, if_neg hcount, htake]
    refine ⟨⟨h.same.volume ▸ hhead, ?_, ?_⟩, ?_, ?_⟩
    · rw [h.same.getClusType, h.link₁ _ hhead.2, hentry, if_pos rfl]
      exact MountedDisk.getClusType_stored_eof
    · rw [h.same.getClusType, h.link₂ _ hhead.2, hentry, if_pos rfl]
      exact MountedDisk.getClusType_stored_eof
    · intro c hmem
      change c ∈ rest at hmem
      have hc := (hf.linked.mem c (List.mem_cons_of_mem _ hmem)).2
      have hne : c ≠ f.fstClus := fun heq => hcons.1 (heq ▸ hmem)
      rw [h.link₁ c hc, h.link₂ c hc, hentry, if_neg hne, if_pos hmem]
      exact ⟨rfl, rfl⟩
    · intro c hc hmem
      have hne : c ≠ f.fstClus := fun heq => hmem (heq ▸ List.mem_cons_self ..)
      have hnot : c ∉ rest := fun hrest => hmem (List.mem_cons_of_mem _ hrest)
      rw [h.link₁ c hc, h.link₂ c hc, hentry, if_neg hne, if_neg hnot]
      exact ⟨rfl, rfl⟩

/-- A file that needs more than one loses all but the first. -/
theorem Resized.not_shrunk_of_more (hf : f.StoredFile (f.fstClus :: rest)) {f' : OpenFile}
    (h : f.Resized (f.loopEntry rest length) length f') (hlt : length < f.dirFileSize)
    (hcount : f.clusCount f.dirFileSize ≠ 0) (hmore : 1 < f.clustersFor length) :
    ¬f.Shrunk (f.fstClus :: rest) length f' := by
  intro hs
  have hle : f.clustersFor length ≤ (f.fstClus :: rest).length :=
    clustersFor_le hf.regular (hlt.le.trans hf.covers)
  have hkept := hs.kept
  obtain ⟨k, hk⟩ := Nat.exists_eq_add_of_lt hmore
  cases rest with
  | nil => exact absurd hle (Nat.not_le.mpr hmore)
  | cons c' rest =>
      have htake : (f.fstClus :: c' :: rest).take (f.clustersFor length) =
          f.fstClus :: c' :: rest.take k := by
        rw [show f.clustersFor length = k + 2 by omega]
        rfl
      rw [htake] at hkept
      have hhead := hf.linked.head
      have hdata := MountedDisk.getClusType_data hf.regular hf.linked.2.2.head.2
      have hlink := hkept.2.1.1
      rw [h.link₁ _ hhead.2, loopEntry, if_neg hcount, if_pos rfl, Option.getD_some] at hlink
      rw [← hlink, MountedDisk.getClusType_stored_eof] at hdata
      cases hdata

/-- In one cluster, or in the whole chain where nothing is cut, the step back succeeds. -/
theorem stepsBack_of_le (hlt : length < 2 ^ 32) {clusters : Nat}
    (hle : length ≤ clusters * (f.disk.volume.bytesPerSector * f.disk.volume.sectorsPerCluster)) :
    f.StepsBack length clusters := by
  right
  right
  rw [toInt32_toNat hlt]
  split <;> omega

/-- Behind the end mark it fails, unless it stays in its sector or is too long for an `int`. -/
theorem stepsBack_one_iff (hlt : length < 2 ^ 32) (hsize : length < f.dirFileSize)
    (hmore : f.disk.volume.bytesPerSector * f.disk.volume.sectorsPerCluster < length) :
    ¬f.StepsBack length 1 ↔
      length < 2 ^ 31 ∧ (length + f.handle.dataIndex : Int) < min f.handle.position f.dirFileSize := by
  rw [StepsBack, toInt32_toNat hlt]
  split <;> omega

/-- A shorter file keeps the right clusters under `CutsRight`, and only then. -/
theorem setLength_shrinks_iff (hf : f.StoredFile chain) (hpos : 0 < length)
    (hlt : length < f.dirFileSize) (now : FATTime) (depth : Nat) :
    ∃ r, setLength now (depth + 1) length f = some r ∧
      ((r.result.isOk = true → f.Shrunk chain length r.file) ↔ f.CutsRight chain length) := by
  have hlt32 : length < 2 ^ 32 := hlt.trans dirFileSize_lt
  cases chain with
  | nil => exact hf.linked.elim
  | cons c rest =>
      have hc : c = f.fstClus := Option.some.inj hf.start
      subst hc
      obtain ⟨r, hrun, hok, hresized⟩ := setLength_run hf hpos hlt now depth
      refine ⟨r, hrun, ?_⟩
      rw [CutsRight]
      by_cases hcount : f.clusCount f.dirFileSize = 0
      · rw [if_pos hcount] at hok ⊢
        have hsuccess := hok.mpr (stepsBack_of_le hlt32 (hlt.le.trans hf.covers))
        rw [forall_prop_of_true hsuccess]
        exact (hresized hsuccess).shrunk_of_wrap hf hlt hcount
      · obtain ⟨hold, hnew, hfor⟩ := clusCount_pos hf.regular hpos hlt hcount
        have hneeds := @le_clustersFor_mul f length hf.regular
        rw [if_neg hcount] at hok ⊢
        by_cases hone : f.clusCount length = 1
        · rw [if_pos hone]
          rw [hone] at hnew
          rw [← hnew] at hneeds
          have hsuccess := hok.mpr (stepsBack_of_le hlt32 hneeds)
          rw [forall_prop_of_true hsuccess]
          exact (hresized hsuccess).shrunk_of_one hf hlt hcount hone hnew.symm
            (hold ▸ clustersFor_le hf.regular hf.covers)
        · have hmore : 1 < f.clustersFor length := by omega
          have hover : f.disk.volume.bytesPerSector * f.disk.volume.sectorsPerCluster < length := by
            by_contra hle
            have hone' : length ≤
                1 * (f.disk.volume.bytesPerSector * f.disk.volume.sectorsPerCluster) := by omega
            have hle' := clustersFor_le hf.regular hone'
            omega
          rw [if_neg hone, ← stepsBack_one_iff hlt32 hlt hover]
          have hnot (hsuccess : r.result.isOk = true) :
              ¬f.Shrunk (f.fstClus :: rest) length r.file :=
            (hresized hsuccess).not_shrunk_of_more hf hlt hcount hmore
          constructor
          · exact fun hs hback => hnot (hok.mpr hback) (hs (hok.mpr hback))
          · exact fun hback hsuccess => absurd (hok.mp hsuccess) hback

/-! A file of two clusters of 512 bytes: 600 bytes of it need both of them. -/

def sampleDisk : MountedDisk where
  volume :=
    { baseAddress := 0
      diskSize := 51200
      isFAT16 := true
      bytesPerSector := 512
      sectorsPerCluster := 1
      entriesPerSector := 256
      sectorCount := 100
      fatBaseSector := (1, 2)
      firstDataSector := 4
      totalClusterCount := 10
      totalSectorCount := 14
      sectorFSInfo := 0
      rootSectorStart := 3 }
  freeCount := 8
  nextFree := 4
  readable := fun _ => true
  sectors := fun sectorIndex i =>
    if sectorIndex = 1 ∨ sectorIndex = 2 then
      if i = 4 then 3 else if i = 6 ∨ i = 7 then 0xff else 0
    else if sectorIndex = 3 then if i = 26 then 2 else if i = 29 then 4 else 0
    else 0

def sampleFile : OpenFile where
  handle := ⟨⟨(3, 0), (3, 0), 0, 0⟩, 2, 4, 0, 0⟩
  disk := sampleDisk

theorem isTable_sampleDisk {sectorIndex : Nat} (h : sampleDisk.IsTable sectorIndex) :
    sectorIndex = 1 ∨ sectorIndex = 2 := by
  rcases h with ⟨c, hc, rfl⟩ | ⟨c, hc, rfl⟩ | ⟨hfalse, _⟩
  · left
    have hlt : c < 12 := hc
    change 1 + c / 256 = 1
    omega
  · right
    have hlt : c < 12 := hc
    change 2 + c / 256 = 2
    omega
  · cases hfalse

theorem storedFile_sampleFile : sampleFile.StoredFile [2, 3] where
  ready :=
    { entries_pos := by decide
      reads := by
        intro sectorIndex htable
        rintro (hbehind | hfalse)
        · have hlt : 100 < sectorIndex := hbehind
          have := isTable_sampleDisk htable
          omega
        · cases hfalse
      copies := by
        intro c hc c' hc'
        have hlt : c < 12 := hc
        have hlt' : c' < 12 := hc'
        change 1 + c / 256 ≠ 2 + c' / 256
        omega
      fsInfo := by
        intro hfalse
        cases hfalse }
  regular :=
    { bytes_pos := by decide
      sectors_pos := by decide
      clusterSize := by decide
      sectors := by decide
      clusters := by decide }
  table := by
    intro sectorIndex htable
    have := isTable_sampleDisk htable
    change sectorIndex < 4
    omega
  entry_read := by
    rintro (hbehind | hfalse)
    · exact absurd hbehind (by decide)
    · cases hfalse
  entry_outside := by
    intro htable
    have : 3 = 1 ∨ 3 = 2 := isTable_sampleDisk htable
    omega
  entry_apart := by decide
  linked := by decide +kernel
  start := by decide +kernel
  covers := by decide +kernel
  data_le := by decide

/-- Its run to 100 bytes, with no call of `Seek` that could make it longer. -/
theorem setLength_sample :
    ∃ r, setLength ⟨0, 0, 0⟩ 1 100 sampleFile = some r ∧
      ((r.result.isOk = true → sampleFile.Shrunk [2, 3] 100 r.file) ↔
        sampleFile.CutsRight [2, 3] 100) :=
  setLength_shrinks_iff storedFile_sampleFile (by decide) (by decide +kernel) ⟨0, 0, 0⟩ 0

theorem not_setLength_sample :
    ¬∀ (f : OpenFile) (chain : List Nat) (length : Nat), f.StoredFile chain → 0 < length →
      length < f.dirFileSize → ∀ now depth, ∃ r, setLength now (depth + 1) length f = some r ∧
        (r.result.isOk = true → f.Shrunk chain length r.file) := by
  intro h
  obtain ⟨r, hrun, hshrunk⟩ := h sampleFile [2, 3] 600 storedFile_sampleFile (by decide)
    (by decide +kernel) ⟨0, 0, 0⟩ 0
  have hlast : (setLength ⟨0, 0, 0⟩ (0 + 1) (600 : Nat) sampleFile).map (fun r =>
      (r.result.isOk, r.file.disk.link₁ 2)) = some (true, 0xffff) := by
    decide +kernel
  rw [hrun] at hlast
  have hvalues := Prod.mk.inj (Option.some.inj hlast)
  have hkept := (hshrunk hvalues.1).kept
  have hlink : r.file.disk.link₁ 2 = 3 := hkept.2.1.1
  rw [hvalues.2] at hlink
  exact absurd hlink (by decide)

end OpenFile

end TinyCLR.FAT
