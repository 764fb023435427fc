import TinyCLR.FAT.LogicDisk

/-!
# The table of clusters

What `WriteFAT` does to the two copies of the FAT on a volume where they lie apart: one entry is
changed in both, and nothing else but the FSINFO sector.
-/

namespace TinyCLR.FAT

open LittleEndian

namespace Volume

variable (v : Volume)

/-- One more than the last cluster. -/
def maxCluster : Nat := v.totalClusterCount + clusterStart

/-- The sector with the entry of a cluster, in the copy of the FAT that starts at `base`. -/
def tableSector (base clusIndex : Nat) : Nat := base + clusIndex / v.entriesPerSector

/-- An entry of the FAT without the bits that are reserved. -/
def link (fat : Sector) (clusIndex : Nat) : Nat :=
  let data := v.fatEntry fat (clusIndex % v.entriesPerSector)
  if v.isFAT16 then data else fat32Mask data

end Volume

namespace MountedDisk

variable (d : MountedDisk)

def CanRead (sectorIndex : Nat) : Prop :=
  ¬(d.volume.sectorCount < sectorIndex ∨ d.readable sectorIndex = false)

/-- The entry of a cluster in the copy of the FAT that starts at `base`. -/
def link (base clusIndex : Nat) : Nat :=
  d.volume.link (d.sectors (d.volume.tableSector base clusIndex)) clusIndex

/-- The entry of a cluster in the first copy of the FAT, and in the second one. -/
def link₁ (clusIndex : Nat) : Nat := d.link d.volume.fatBaseSector.1 clusIndex

def link₂ (clusIndex : Nat) : Nat := d.link d.volume.fatBaseSector.2 clusIndex

/-- The sectors that hold the entries of clusters, or what is known about them. -/
def IsTable (sectorIndex : Nat) : Prop :=
  (∃ c < d.volume.maxCluster, sectorIndex = d.volume.tableSector d.volume.fatBaseSector.1 c) ∨
    (∃ c < d.volume.maxCluster, sectorIndex = d.volume.tableSector d.volume.fatBaseSector.2 c) ∨
    d.volume.isFAT16 = false ∧ sectorIndex = d.volume.sectorFSInfo

/-- The copies of the FAT and the FSINFO sector lie apart and can be read. -/
structure Ready : Prop where
  entries_pos : 0 < d.volume.entriesPerSector
  reads : ∀ sectorIndex, d.IsTable sectorIndex → d.CanRead sectorIndex
  copies : ∀ c < d.volume.maxCluster, ∀ c' < d.volume.maxCluster,
    d.volume.tableSector d.volume.fatBaseSector.1 c ≠
      d.volume.tableSector d.volume.fatBaseSector.2 c'
  fsInfo : d.volume.isFAT16 = false → ∀ c < d.volume.maxCluster,
    d.volume.sectorFSInfo ≠ d.volume.tableSector d.volume.fatBaseSector.1 c ∧
      d.volume.sectorFSInfo ≠ d.volume.tableSector d.volume.fatBaseSector.2 c

/-- The same volume on the same device. -/
structure SameVolume (d' : MountedDisk) : Prop where
  volume : d'.volume = d.volume
  readable : d'.readable = d.readable

/-- What an entry is after a value has been written. -/
def stored (value : Nat) : Nat :=
  if d.volume.isFAT16 then d.fatValue value % 2 ^ 16 else fat32Mask (d.fatValue value)

variable {d} {d' d'' : MountedDisk}

theorem SameVolume.refl : d.SameVolume d := ⟨rfl, rfl⟩

theorem SameVolume.trans (h : d.SameVolume d') (h' : d'.SameVolume d'') : d.SameVolume d'' :=
  ⟨h'.volume.trans h.volume, h'.readable.trans h.readable⟩

theorem SameVolume.isTable (h : d.SameVolume d') (sectorIndex : Nat) :
    d'.IsTable sectorIndex ↔ d.IsTable sectorIndex := by
  rw [IsTable, IsTable, h.volume]

theorem SameVolume.canRead (h : d.SameVolume d') (sectorIndex : Nat) :
    d'.CanRead sectorIndex ↔ d.CanRead sectorIndex := by
  rw [CanRead, CanRead, h.volume, h.readable]

theorem SameVolume.stored (h : d.SameVolume d') (value : Nat) : d'.stored value = d.stored value := by
  rw [MountedDisk.stored, MountedDisk.stored, fatValue, fatValue, h.volume]

theorem SameVolume.getClusType (h : d.SameVolume d') (data : Nat) :
    d'.getClusType data = d.getClusType data := by
  rw [MountedDisk.getClusType, MountedDisk.getClusType, h.volume]

theorem Ready.congr (hd : d.Ready) (h : d.SameVolume d') : d'.Ready := by
  constructor
  · rw [h.volume]
    exact hd.entries_pos
  · intro sectorIndex htable
    exact (h.canRead sectorIndex).mpr (hd.reads sectorIndex ((h.isTable sectorIndex).mp htable))
  · rw [h.volume]
    exact hd.copies
  · rw [h.volume]
    exact hd.fsInfo

theorem getSector_of_canRead {sectorIndex : Nat} (h : d.CanRead sectorIndex) :
    d.getSector sectorIndex = some (d.sectors sectorIndex) := if_neg h

theorem isTable₁ {c : Nat} (hc : c < d.volume.maxCluster) :
    d.IsTable (d.volume.tableSector d.volume.fatBaseSector.1 c) := .inl ⟨c, hc, rfl⟩

theorem isTable₂ {c : Nat} (hc : c < d.volume.maxCluster) :
    d.IsTable (d.volume.tableSector d.volume.fatBaseSector.2 c) := .inr (.inl ⟨c, hc, rfl⟩)

/-- `ReadFAT` reads the first copy. -/
theorem readFAT_eq (hd : d.Ready) {c : Nat} (hc : c < d.volume.maxCluster) :
    d.readFAT c = d.link₁ c := by
  have hread := getSector_of_canRead (hd.reads _ (isTable₁ hc))
  have hlt : ¬d.volume.totalClusterCount + clusterStart ≤ c := Nat.not_le.mpr hc
  rw [Volume.tableSector] at hread
  rw [readFAT, if_neg hlt, hread]
  rfl

theorem writeFAT_outside {c : Nat} (hc : ¬c < d.volume.maxCluster) (value : Nat) :
    d.writeFAT c value = (clustError, d) := if_pos (Nat.not_lt.mp hc)

/-! ## One entry of a sector -/

theorem mod_of_reserved {old value : Nat} (h : old < 2 ^ 32) :
    (fat32Mask value + (old - fat32Mask old)) % 2 ^ 32 % 2 ^ 28 = fat32Mask value := by
  rw [fat32Mask, fat32Mask]
  omega

/-- The entry that is written. -/
theorem link_setEntry_same (fat : Sector) (c value : Nat) :
    d.volume.link (d.setEntry fat (c % d.volume.entriesPerSector) value) c =
      if d.volume.isFAT16 then value % 2 ^ 16 else fat32Mask value := by
  rw [Volume.link, Volume.fatEntry, setEntry]
  cases d.volume.isFAT16 with
  | true => exact get_put_same _ _ _ _
  | false =>
      simp only [Bool.false_eq_true, if_false]
      rw [get_put_same]
      exact mod_of_reserved (get_lt _ _ 4)

/-- The other entries of the sector. -/
theorem link_setEntry_of_ne {fat : Sector} {c c' : Nat}
    (h : c' % d.volume.entriesPerSector ≠ c % d.volume.entriesPerSector) (value : Nat) :
    d.volume.link (d.setEntry fat (c % d.volume.entriesPerSector) value) c' =
      d.volume.link fat c' := by
  rw [Volume.link, Volume.link, Volume.fatEntry, Volume.fatEntry, setEntry]
  cases d.volume.isFAT16 with
  | true =>
      simp only [if_true]
      rw [get_put_disjoint (by omega)]
  | false =>
      simp only [Bool.false_eq_true, if_false]
      rw [get_put_disjoint (by omega)]

theorem eq_of_place {n c c' : Nat} (hdiv : c' / n = c / n) (hmod : c' % n = c % n) : c' = c := by
  rw [← Nat.div_add_mod c' n, ← Nat.div_add_mod c n, hdiv, hmod]

/-! ## Writing an entry -/

/-- One entry of both copies has been written, and beside them nothing but the FSINFO sector. -/
structure Wrote (d : MountedDisk) (c value : Nat) (d' : MountedDisk) : Prop where
  same : d.SameVolume d'
  link₁ : ∀ c' < d.volume.maxCluster, d'.link₁ c' = if c' = c then d.stored value else d.link₁ c'
  link₂ : ∀ c' < d.volume.maxCluster, d'.link₂ c' = if c' = c then d.stored value else d.link₂ c'
  outside : ∀ sectorIndex, ¬d.IsTable sectorIndex → d'.sectors sectorIndex = d.sectors sectorIndex
  nextFree : d'.nextFree = if value = 0 ∧ c < d.nextFree then c else d.nextFree

theorem sameVolume_setSector (sectorIndex : Nat) (sector : Sector) :
    d.SameVolume (d.setSector sectorIndex sector) := ⟨rfl, rfl⟩

theorem sectors_setSector_same (sectorIndex : Nat) (sector : Sector) :
    (d.setSector sectorIndex sector).sectors sectorIndex = sector :=
  Function.update_self ..

theorem sectors_setSector_of_ne {sectorIndex sectorIndex' : Nat} (h : sectorIndex' ≠ sectorIndex)
    (sector : Sector) :
    (d.setSector sectorIndex sector).sectors sectorIndex' = d.sectors sectorIndex' :=
  Function.update_of_ne h ..

theorem link_congr {base c : Nat} (hvolume : d'.volume = d.volume)
    (hsector : d'.sectors (d.volume.tableSector base c) = d.sectors (d.volume.tableSector base c)) :
    d'.link base c = d.link base c := by
  rw [link, link, hvolume, hsector]

/-- The disk after an entry of one copy of the FAT has been written. -/
def putEntry (d : MountedDisk) (base c value : Nat) : MountedDisk :=
  d.setSector (d.volume.tableSector base c)
    (d.setEntry (d.sectors (d.volume.tableSector base c)) (c % d.volume.entriesPerSector) value)

theorem writeEntry_eq {base c : Nat} (h : d.CanRead (d.volume.tableSector base c)) (value : Nat) :
    d.writeEntry base c value = some (d.link base c, d.putEntry base c value) := by
  have hread := getSector_of_canRead h
  rw [Volume.tableSector] at hread
  rw [writeEntry, hread]
  rfl

theorem sameVolume_putEntry (base c value : Nat) : d.SameVolume (d.putEntry base c value) :=
  sameVolume_setSector ..

theorem sectors_putEntry_of_ne {base c sectorIndex : Nat}
    (h : sectorIndex ≠ d.volume.tableSector base c) (value : Nat) :
    (d.putEntry base c value).sectors sectorIndex = d.sectors sectorIndex :=
  sectors_setSector_of_ne h _

/-- The copy of the FAT that has been written. -/
theorem link_putEntry (base c c' value : Nat) :
    (d.putEntry base c value).link base c' =
      if c' = c then if d.volume.isFAT16 then value % 2 ^ 16 else fat32Mask value
      else d.link base c' := by
  by_cases hc : c' = c
  · rw [if_pos hc, hc, link, (sameVolume_putEntry base c value).volume, putEntry,
      sectors_setSector_same]
    exact link_setEntry_same _ _ _
  · rw [if_neg hc]
    by_cases hsector : d.volume.tableSector base c' = d.volume.tableSector base c
    · have hdiv : c' / d.volume.entriesPerSector = c / d.volume.entriesPerSector :=
        Nat.add_left_cancel hsector
      rw [link, link, (sameVolume_putEntry base c value).volume, hsector, putEntry,
        sectors_setSector_same]
      exact link_setEntry_of_ne (fun hmod => hc (eq_of_place hdiv hmod)) value
    · exact link_congr (sameVolume_putEntry base c value).volume
        (sectors_putEntry_of_ne hsector value)

/-- The other copy. -/
theorem link_putEntry_of_ne {base base' c c' : Nat}
    (h : d.volume.tableSector base' c' ≠ d.volume.tableSector base c) (value : Nat) :
    (d.putEntry base c value).link base' c' = d.link base' c' :=
  link_congr (sameVolume_putEntry base c value).volume (sectors_putEntry_of_ne h value)

theorem fatValue_eq_zero (value : Nat) : d.fatValue value = 0 ↔ value = 0 := by
  rw [fatValue, clustEof]
  split
  · split <;> omega
  · rfl

/-- The disk with another hint and another free count. -/
def withFree (d : MountedDisk) (nextFree freeCount : Nat) : MountedDisk :=
  { d with
    nextFree := nextFree
    freeCount := freeCount }

theorem sameVolume_withFree (nextFree freeCount : Nat) :
    d.SameVolume (d.withFree nextFree freeCount) := ⟨rfl, rfl⟩

theorem sectors_withFree (nextFree freeCount : Nat) :
    (d.withFree nextFree freeCount).sectors = d.sectors := rfl

/-- What `WriteFAT` makes of the hint; no proof looks at the free count. -/
theorem updateFree_eq (c oldValue value : Nat) :
    ∃ freeCount, d.updateFree c oldValue value =
      d.withFree (if value = 0 ∧ c < d.nextFree then c else d.nextFree) freeCount := by
  have hold : ∃ count, (if oldValue = 0 then { d with freeCount := sub32 d.freeCount 1 } else d) =
      d.withFree d.nextFree count := by
    generalize sub32 d.freeCount 1 = count
    by_cases hold : oldValue = 0
    · exact ⟨count, if_pos hold⟩
    · exact ⟨d.freeCount, if_neg hold⟩
  cases hold with
  | intro count hold =>
      rw [updateFree, hold]
      by_cases hvalue : value = 0
      · rw [if_pos hvalue]
        generalize u32 ((d.withFree d.nextFree count).freeCount + 1) = count'
        refine ⟨count', ?_⟩
        simp only [hvalue, true_and]
        rfl
      · rw [if_neg hvalue]
        refine ⟨count, ?_⟩
        simp only [hvalue, false_and, if_false]

/-- Both copies of the entry, before the free count. -/
def putEntries (d : MountedDisk) (c value : Nat) : MountedDisk :=
  (d.putEntry d.volume.fatBaseSector.1 c value).putEntry d.volume.fatBaseSector.2 c value

theorem link_withFree (base c nextFree freeCount : Nat) :
    (d.withFree nextFree freeCount).link base c = d.link base c := rfl

theorem sameVolume_putEntries (c value : Nat) : d.SameVolume (d.putEntries c value) :=
  (sameVolume_putEntry ..).trans (sameVolume_putEntry ..)

theorem nextFree_setSector (sectorIndex : Nat) (sector : Sector) :
    (d.setSector sectorIndex sector).nextFree = d.nextFree := rfl

theorem nextFree_putEntries (c value : Nat) : (d.putEntries c value).nextFree = d.nextFree :=
  (nextFree_setSector ..).trans (nextFree_setSector ..)

theorem link₁_putEntries (hd : d.Ready) {c c' : Nat} (hc : c < d.volume.maxCluster)
    (hc' : c' < d.volume.maxCluster) (value : Nat) :
    (d.putEntries c value).link₁ c' =
      if c' = c then if d.volume.isFAT16 then value % 2 ^ 16 else fat32Mask value
      else d.link₁ c' := by
  have hsame := sameVolume_putEntry (d := d) d.volume.fatBaseSector.1 c value
  have hcopies := hd.copies c' hc' c hc
  rw [← hsame.volume] at hcopies
  rw [link₁, (sameVolume_putEntries c value).volume, putEntries]
  exact (link_putEntry_of_ne hcopies value).trans (link_putEntry ..)

theorem link₂_putEntries (hd : d.Ready) {c c' : Nat} (hc : c < d.volume.maxCluster)
    (hc' : c' < d.volume.maxCluster) (value : Nat) :
    (d.putEntries c value).link₂ c' =
      if c' = c then if d.volume.isFAT16 then value % 2 ^ 16 else fat32Mask value
      else d.link₂ c' := by
  have hother := link_putEntry_of_ne (hd.copies c hc c' hc').symm value
  have hsame := sameVolume_putEntry (d := d) d.volume.fatBaseSector.1 c value
  rw [link₂, (sameVolume_putEntries c value).volume, putEntries, link_putEntry, hsame.volume, hother,
    link₂]

theorem sectors_putEntries (c value : Nat) {sectorIndex : Nat}
    (hfirst : sectorIndex ≠ d.volume.tableSector d.volume.fatBaseSector.1 c)
    (hsecond : sectorIndex ≠ d.volume.tableSector d.volume.fatBaseSector.2 c) :
    (d.putEntries c value).sectors sectorIndex = d.sectors sectorIndex := by
  have hsame := sameVolume_putEntry (d := d) d.volume.fatBaseSector.1 c value
  have hsecond' : sectorIndex ≠ (d.putEntry d.volume.fatBaseSector.1 c value).volume.tableSector
      d.volume.fatBaseSector.2 c := by
    rwa [hsame.volume]
  exact (sectors_putEntry_of_ne hsecond' value).trans (sectors_putEntry_of_ne hfirst value)

theorem wrote_putEntries (hd : d.Ready) {c : Nat} (hc : c < d.volume.maxCluster)
    (value freeCount : Nat) :
    Wrote d c value ((d.putEntries c (d.fatValue value)).withFree
      (if value = 0 ∧ c < d.nextFree then c else d.nextFree) freeCount) := by
  constructor
  · exact (sameVolume_putEntries ..).trans (sameVolume_withFree ..)
  · intro c' hc'
    exact link₁_putEntries hd hc hc' (d.fatValue value)
  · intro c' hc'
    exact link₂_putEntries hd hc hc' (d.fatValue value)
  · intro sectorIndex htable
    rw [sectors_withFree]
    apply sectors_putEntries
    · rintro rfl
      exact htable (isTable₁ hc)
    · rintro rfl
      exact htable (isTable₂ hc)
  · rfl

/-- The FSINFO sector holds no entry of the FAT. -/
theorem Wrote.setSector_fsInfo (hd : d.Ready) {c value : Nat} (h : Wrote d c value d')
    (htype : d.volume.isFAT16 = false) (sector : Sector) :
    Wrote d c value (d'.setSector d.volume.sectorFSInfo sector) := by
  have hlink {base c' : Nat}
      (hne : d.volume.sectorFSInfo ≠ d.volume.tableSector base c') :
      (d'.setSector d.volume.sectorFSInfo sector).link base c' = d'.link base c' := by
    apply link_congr (sameVolume_setSector ..).volume
    apply sectors_setSector_of_ne
    rw [h.same.volume]
    exact hne.symm
  constructor
  · exact h.same.trans (sameVolume_setSector ..)
  · intro c' hc'
    rw [← h.link₁ c' hc']
    apply hlink
    rw [(sameVolume_setSector ..).volume, h.same.volume]
    exact (hd.fsInfo htype c' hc').1
  · intro c' hc'
    rw [← h.link₂ c' hc']
    apply hlink
    rw [(sameVolume_setSector ..).volume, h.same.volume]
    exact (hd.fsInfo htype c' hc').2
  · intro sectorIndex htable
    rw [← h.outside sectorIndex htable]
    apply sectors_setSector_of_ne
    rintro rfl
    exact htable (.inr (.inr ⟨htype, rfl⟩))
  · exact h.nextFree

/-- The last step of `WriteFAT`: the free count goes to the FSINFO sector. -/
def putFreeCount (d : MountedDisk) (oldValue : Nat) : Nat × MountedDisk :=
  if d.volume.isFAT16 then (oldValue, d)
  else
    match d.getSector d.volume.sectorFSInfo with
    | none => (clustError, d)
    | some fsInfo => (oldValue, d.setSector d.volume.sectorFSInfo (put fsInfo 488 4 d.freeCount))

theorem writeFAT_of_writeEntry {c value x oldValue : Nat} {d₁ d₂ : MountedDisk}
    (hc : c < d.volume.maxCluster)
    (hfirst : d.writeEntry d.volume.fatBaseSector.1 c (d.fatValue value) = some (x, d₁))
    (hvolume : d₁.volume = d.volume)
    (hsecond : d₁.writeEntry d.volume.fatBaseSector.2 c (d.fatValue value) = some (oldValue, d₂)) :
    d.writeFAT c value = (d₂.updateFree c oldValue (d.fatValue value)).putFreeCount oldValue := by
  have hlt : ¬d.volume.totalClusterCount + clusterStart ≤ c := Nat.not_le.mpr hc
  rw [writeFAT, if_neg hlt]
  simp only [hfirst, hvolume, hsecond]
  rfl

theorem putFreeCount_spec (hd : d.Ready) {c value : Nat} (h : Wrote d c value d') (oldValue : Nat) :
    (d'.putFreeCount oldValue).1 = oldValue ∧ Wrote d c value (d'.putFreeCount oldValue).2 := by
  rw [putFreeCount, h.same.volume]
  cases htype : d.volume.isFAT16 with
  | true => exact ⟨rfl, h⟩
  | false =>
      have hread := (h.same.canRead _).mpr (hd.reads _ (.inr (.inr ⟨htype, rfl⟩)))
      rw [if_neg Bool.false_ne_true, getSector_of_canRead hread]
      exact ⟨rfl, h.setSector_fsInfo hd htype _⟩

/-- `WriteFAT` gives the old entry of the second copy. -/
theorem writeFAT_spec (hd : d.Ready) {c : Nat} (hc : c < d.volume.maxCluster) (value : Nat) :
    (d.writeFAT c value).1 = d.link₂ c ∧ Wrote d c value (d.writeFAT c value).2 := by
  have hsame := sameVolume_putEntry (d := d) d.volume.fatBaseSector.1 c (d.fatValue value)
  have hfirst := writeEntry_eq (hd.reads _ (isTable₁ hc)) (d.fatValue value)
  have hsecond := writeEntry_eq ((hsame.canRead _).mpr (hd.reads _ (isTable₂ hc)))
    (d.fatValue value)
  have hother := link_putEntry_of_ne (hd.copies c hc c hc).symm (d.fatValue value)
  have hfree := updateFree_eq (d := d.putEntries c (d.fatValue value)) c (d.link₂ c)
    (d.fatValue value)
  cases hfree with
  | intro freeCount hfree =>
      simp only [fatValue_eq_zero, nextFree_putEntries] at hfree
      rw [hother] at hsecond
      have hwrite := writeFAT_of_writeEntry hc hfirst hsame.volume hsecond
      rw [← putEntries, ← link₂, hfree] at hwrite
      rw [hwrite]
      exact putFreeCount_spec hd (wrote_putEntries hd hc value freeCount) (d.link₂ c)

end MountedDisk

end TinyCLR.FAT
