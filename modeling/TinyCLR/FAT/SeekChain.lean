import TinyCLR.FAT.ClusterChain

/-!
# Seeking along a chain

From a place in the chain of a file `ReadWriteSeekHelper` comes as far as the chain has sectors,
and neither the disk nor the file's entry is another one afterwards.
-/

namespace TinyCLR.FAT

namespace Volume

variable {v : Volume}

theorem Regular.sector_lt (hv : v.Regular) {c : Nat} (hc : clusterStart ≤ c ∧ c < v.maxCluster) :
    v.firstDataSector + (c - clusterStart) * v.sectorsPerCluster + v.sectorsPerCluster < 2 ^ 32 := by
  have hle : (c - clusterStart + 1) * v.sectorsPerCluster ≤
      v.totalClusterCount * v.sectorsPerCluster := by
    apply Nat.mul_le_mul_right
    have := hc.2
    rw [maxCluster] at this
    omega
  have hsectors := hv.sectors
  rw [Nat.succ_mul] at hle
  omega

end Volume

namespace MountedDisk

variable {d : MountedDisk}

theorem clusToSect_eq (hv : d.volume.Regular) {c : Nat}
    (hc : clusterStart ≤ c ∧ c < d.volume.maxCluster) :
    d.clusToSect c =
      d.volume.firstDataSector + (c - clusterStart) * d.volume.sectorsPerCluster := by
  have hlt := hv.sector_lt hc
  rw [clusToSect, FAT.clusToSect, if_neg (Nat.not_lt.mpr hc.1), u32]
  exact Nat.mod_eq_of_lt (by omega)

/-- A sector behind the first one of a cluster belongs to it or to the next one. -/
theorem sectToClus_add (hv : d.volume.Regular) {c : Nat}
    (hc : clusterStart ≤ c ∧ c < d.volume.maxCluster) (k : Nat) :
    d.volume.sectToClus (d.clusToSect c + k) = c + k / d.volume.sectorsPerCluster := by
  have hnotlt : ¬d.clusToSect c + k < d.volume.firstDataSector := by
    rw [clusToSect_eq hv hc]
    omega
  have hsub : d.clusToSect c + k - d.volume.firstDataSector =
      k + (c - clusterStart) * d.volume.sectorsPerCluster := by
    rw [clusToSect_eq hv hc]
    omega
  rw [Volume.sectToClus, if_neg hnotlt, hsub, Nat.add_mul_div_right _ _ hv.sectors_pos]
  omega

/-- The sector after one of a cluster. -/
theorem u32_sector (hv : d.volume.Regular) {c k : Nat}
    (hc : clusterStart ≤ c ∧ c < d.volume.maxCluster) (hk : k < d.volume.sectorsPerCluster) :
    u32 (d.clusToSect c + k + 1) = d.clusToSect c + (k + 1) := by
  have hlt := hv.sector_lt hc
  rw [clusToSect_eq hv hc, u32]
  exact Nat.mod_eq_of_lt (by omega)

/-- The next sector of the same cluster. -/
theorem getNextSect_inside (hv : d.volume.Regular) {c k : Nat}
    (hc : clusterStart ≤ c ∧ c < d.volume.maxCluster) (hk : k + 1 < d.volume.sectorsPerCluster)
    (create clear : Bool) :
    d.getNextSect c (d.clusToSect c + k) create clear =
      (some (c, d.clusToSect c + (k + 1)), d) := by
  have hclus : d.volume.sectToClus (d.clusToSect c + (k + 1)) = c := by
    rw [sectToClus_add hv hc, Nat.div_eq_of_lt hk]
    exact Nat.add_zero c
  rw [getNextSect, u32_sector hv hc (by omega), if_neg (Nat.not_lt.mpr hc.1), if_pos hclus]

/-- Behind the last sector of a cluster the FAT says how it goes on. -/
theorem getNextSect_last (hd : d.Ready) (hv : d.volume.Regular) {c : Nat}
    (hc : clusterStart ≤ c ∧ c < d.volume.maxCluster) :
    d.getNextSect c (d.clusToSect c + (d.volume.sectorsPerCluster - 1)) false false =
      if d.getClusType (d.link₁ c) ≠ .data ∨ d.link₁ c < clusterStart then (none, d)
      else (some (d.link₁ c, d.clusToSect (d.link₁ c)), d) := by
  have hpos := hv.sectors_pos
  have hclus := sectToClus_add hv hc d.volume.sectorsPerCluster
  have hnext := u32_sector hv hc (k := d.volume.sectorsPerCluster - 1) (by omega)
  rw [Nat.div_self hpos] at hclus
  rw [Nat.sub_add_cancel hpos] at hnext
  rw [getNextSect, hnext, if_neg (Nat.not_lt.mpr hc.1), hclus, if_neg (Nat.succ_ne_self c),
    readFAT_eq hd hc.2]
  by_cases hdata : d.getClusType (d.link₁ c) = .data
  · by_cases hstart : d.link₁ c < clusterStart <;> simp [hdata, hstart]
  · simp [hdata]

end MountedDisk

namespace OpenFile

/-- The handle stands in sector `k` of a cluster. -/
structure At (f : OpenFile) (c k : Nat) : Prop where
  clus : f.handle.clusIndex = c
  sect : f.handle.sectIndex = f.disk.clusToSect c + k
  sector_lt : k < f.disk.volume.sectorsPerCluster
  data_le : f.handle.dataIndex ≤ f.disk.volume.bytesPerSector

/-- The bytes from a place in sector `k` of a cluster to the end of the chain. -/
def room (f : OpenFile) (k : Nat) (rest : List Nat) : Nat :=
  f.disk.volume.bytesPerSector - f.handle.dataIndex +
    (f.disk.volume.sectorsPerCluster - 1 - k) * f.disk.volume.bytesPerSector +
    rest.length * (f.disk.volume.bytesPerSector * f.disk.volume.sectorsPerCluster)

variable {f : OpenFile}

/-- What a page of the next sector leaves as it is. -/
structure Paged (f f' : OpenFile) (c k : Nat) (rest : List Nat) : Prop where
  disk : f'.disk = f.disk
  file : f'.handle.file = f.handle.file
  chain : f.disk.ClusterChain (c :: rest)
  place : f'.At c k
  start : f'.handle.dataIndex < f.disk.volume.bytesPerSector

theorem pageIn_seek (hd : f.disk.Ready) (hv : f.disk.volume.Regular) {c k : Nat} {rest : List Nat}
    (hchain : f.disk.ClusterChain (c :: rest)) (hat : f.At c k) :
    (f.pageIn .seek = ⟨.error .fileError, f⟩ ∧ f.room k rest = 0) ∨
      ∃ f' c' k' rest', f.pageIn .seek = ⟨.ok (), f'⟩ ∧ Paged f f' c' k' rest' ∧
        f'.room k' rest' = f.room k rest := by
  have hc := hchain.head
  have hpos := hv.bytes_pos
  have hk := hat.sector_lt
  rw [pageIn]
  by_cases hend : f.handle.dataIndex = f.disk.volume.bytesPerSector
  · rw [if_pos hend, hat.clus, hat.sect]
    by_cases hinside : k + 1 < f.disk.volume.sectorsPerCluster
    · right
      have hnext := MountedDisk.getNextSect_inside hv hc hinside
        (decide (Helper.seek = Helper.write)) false
      rw [hnext]
      refine ⟨_, c, k + 1, rest, rfl, ⟨rfl, rfl, hchain, ⟨rfl, rfl, hinside, Nat.zero_le _⟩, hpos⟩, ?_⟩
      obtain ⟨m, hm⟩ := Nat.exists_eq_add_of_lt hinside
      have hbefore : f.disk.volume.sectorsPerCluster - 1 - k = m + 1 := by omega
      have hbehind : f.disk.volume.sectorsPerCluster - 1 - (k + 1) = m := by omega
      dsimp only [room]
      rw [hend, hbefore, hbehind, Nat.succ_mul]
      omega
    · have hlast : k = f.disk.volume.sectorsPerCluster - 1 := by omega
      have hnext := MountedDisk.getNextSect_last hd hv hc
      rw [show decide (Helper.seek = Helper.write) = false from rfl, hlast, hnext]
      cases rest with
      | nil =>
          left
          have heos := hchain.2.1
          rw [if_pos (.inl (by rw [heos]; decide))]
          refine ⟨rfl, ?_⟩
          rw [room, hend]
          simp
      | cons c' rest =>
          right
          have hc' := hchain.2.2.head
          have hdata := MountedDisk.getClusType_data hv hc'.2
          have hnot : ¬(f.disk.getClusType c' ≠ .data ∨ c' < clusterStart) := by
            rw [hdata]
            simp only [ne_eq, not_true_eq_false, false_or]
            exact Nat.not_lt.mpr hc'.1
          rw [hchain.2.1.1, if_neg hnot]
          refine ⟨_, c', 0, rest, rfl,
            ⟨rfl, rfl, hchain.2.2, ⟨rfl, rfl, hv.sectors_pos, Nat.zero_le _⟩, hpos⟩, ?_⟩
          obtain ⟨m, hm⟩ := Nat.exists_eq_succ_of_ne_zero hv.sectors_pos.ne'
          dsimp only [room]
          rw [hend, hm, List.length_cons]
          simp only [Nat.succ_eq_add_one, Nat.sub_self, Nat.sub_zero, Nat.add_sub_cancel]
          ring
  · right
    rw [if_neg hend]
    refine ⟨f, c, k, rest, rfl, ⟨rfl, rfl, hchain, hat, ?_⟩, rfl⟩
    exact lt_of_le_of_ne hat.data_le hend

theorem room_advance {f : OpenFile} {count : Nat}
    (h : count ≤ f.disk.volume.bytesPerSector - f.handle.dataIndex) (k : Nat) (rest : List Nat) :
    (f.advance count).room k rest + count = f.room k rest := by
  simp only [room, advance]
  omega

/-- Seeking comes to its end within the bytes there are, and fails behind them. -/
theorem seekHelper_spec (fuel : Nat) (hd : f.disk.Ready) (hv : f.disk.volume.Regular) {c k : Nat}
    {rest : List Nat} (hchain : f.disk.ClusterChain (c :: rest)) (hat : f.At c k)
    {size : Nat} (hfuel : size < fuel) (done : List (BitVec 8)) :
    ∃ r, f.readWriteSeekHelper .seek fuel none size done = some r ∧
      (r.result.isOk = true ↔ size ≤ f.room k rest) ∧ r.file.disk = f.disk ∧
      r.file.handle.file = f.handle.file := by
  induction fuel generalizing f c k rest size done with
  | zero => exact absurd hfuel (Nat.not_lt_zero _)
  | succ fuel ih =>
      rw [readWriteSeekHelper]
      by_cases hsize : size = 0
      · rw [if_pos hsize]
        refine ⟨_, rfl, ?_, rfl, rfl⟩
        simp [Except.isOk, Except.toBool, hsize]
      · rw [if_neg hsize]
        rcases pageIn_seek hd hv hchain hat with ⟨hpage, hroom⟩ |
          ⟨f', c', k', rest', hpage, hf', hroom⟩
        · rw [hpage]
          refine ⟨_, rfl, ?_, rfl, rfl⟩
          simp [Except.isOk, Except.toBool, hroom, hsize]
        · rw [hpage]
          have hdisk := hf'.disk
          have hstart := hf'.start
          have hle := hf'.place.data_le
          dsimp only [transfer, Option.map_none]
          generalize hcount : min size (f'.disk.volume.bytesPerSector - f'.handle.dataIndex) = count
          have hcount_le : count ≤ f'.disk.volume.bytesPerSector - f'.handle.dataIndex := by omega
          have hcount_pos : 0 < count := by
            rw [← hdisk] at hstart
            omega
          have hplace : (f'.advance count).At c' k' := by
            refine ⟨hf'.place.clus, hf'.place.sect, hf'.place.sector_lt, ?_⟩
            dsimp only [advance]
            omega
          have hchain' : (f'.advance count).disk.ClusterChain (c' :: rest') := by
            exact hdisk ▸ hf'.chain
          have hless : size - count < fuel := by omega
          obtain ⟨r, hrun, hok, hrdisk, hrfile⟩ := ih (f := f'.advance count) (hdisk ▸ hd)
            (hdisk ▸ hv) hchain' hplace hless (done ++ [])
          refine ⟨r, hrun, ?_, hrdisk.trans hdisk, hrfile.trans hf'.file⟩
          have hadvance := room_advance hcount_le k' rest'
          rw [hok, ← hroom]
          omega

end OpenFile

end TinyCLR.FAT
