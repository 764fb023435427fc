import Mathlib
import TinyCLR.WearLeveling.Metadata

/-!
# The search for a free sector

`GetNextFreeSector` walks a block from its last sector downwards.
-/

namespace TinyCLR.WearLeveling

open Word32

namespace Config

variable (config : Config) (device : Device)

/-- The loop of `GetNextFreeSector`, with the addresses whose metadata it reads; `none` is a loop
that has not ended. -/
def searchFreeSector (phyBlockAddress : Nat) : Nat → Nat → Option (Option Nat × List Nat)
  | 0, _ => none
  | fuel + 1, nextFree =>
      if phyBlockAddress ≤ nextFree then
        if (getSectorMetadataInternal device nextFree).any SectorMetadata.isSectorFree then
          some (some nextFree, [nextFree])
        else
          (searchFreeSector phyBlockAddress fuel (sub32 nextFree config.bytesPerSector)).map
            fun r => (r.1, nextFree :: r.2)
      else some (none, [])

def getNextFreeSector (fuel phyAddress : Nat) : Option (Option Nat × List Nat) :=
  let phyBlockAddress := config.getBlockStartAddress phyAddress
  config.searchFreeSector device phyBlockAddress fuel
    (sub32 (u32 (phyBlockAddress + config.bytesPerBlock)) config.bytesPerSector)

/-! ## What the search is for -/

/-- Blocks are made of whole sectors. -/
structure WholeSectors : Prop where
  sector_pos : 0 < config.bytesPerSector
  block_pos : 0 < config.bytesPerBlock
  block_lt : config.bytesPerBlock < 2 ^ 32
  dvd : config.bytesPerSector ∣ config.bytesPerBlock

def sectorsPerBlock : Nat := config.bytesPerBlock / config.bytesPerSector

/-- An address of one of the sectors of a block. -/
def InBlock (start address : Nat) : Prop :=
  ∃ i < config.sectorsPerBlock, address = start + i * config.bytesPerSector

def Free (address : Nat) : Prop := ∃ m, device address = some m ∧ m.isSectorFree = true

/-- The search ends, sees each sector of the block at most once and none of another block, and
finds a free sector when there is one. -/
def FindsFreeSector (phyAddress : Nat) : Prop :=
  let start := config.getBlockStartAddress phyAddress
  ∃ fuel result visited, config.getNextFreeSector device fuel phyAddress = some (result, visited) ∧
    visited.Nodup ∧ (∀ a ∈ visited, config.InBlock start a) ∧
    match result with
    | some a => config.InBlock start a ∧ Free device a
    | none => ∀ a, config.InBlock start a → ¬Free device a

/-! ## The walk through a block -/

variable {config device}

theorem sub32_u32 (a b : Nat) : sub32 (u32 a) b = sub32 a b := by
  rw [sub32, sub32, u32, u32, u32, Nat.mod_add_mod]

theorem sub32_of_le_top {a b : Nat} (hpos : 0 < b) (hle : b ≤ a) (ha : a ≤ 2 ^ 32)
    (hb : b < 2 ^ 32) : sub32 a b = a - b := by
  rw [sub32, u32, Nat.mod_eq_of_lt hb]
  omega

theorem free_iff {a : Nat} :
    (getSectorMetadataInternal device a).any SectorMetadata.isSectorFree = true ↔ Free device a := by
  rw [getSectorMetadataInternal_eq, Free]
  cases device a <;> simp

namespace WholeSectors

variable {start k fuel : Nat}

theorem block_eq (h : config.WholeSectors) :
    config.sectorsPerBlock * config.bytesPerSector = config.bytesPerBlock :=
  Nat.div_mul_cancel h.dvd

theorem sector_lt (h : config.WholeSectors) : config.bytesPerSector < 2 ^ 32 :=
  lt_of_le_of_lt (Nat.le_of_dvd h.block_pos h.dvd) h.block_lt

theorem sector_le (h : config.WholeSectors) (hk : k < config.sectorsPerBlock) :
    k * config.bytesPerSector + config.bytesPerSector ≤ config.bytesPerBlock := by
  rw [← h.block_eq, ← Nat.succ_mul]
  exact Nat.mul_le_mul_right _ hk

/-- The address that the walk comes to when the sectors from number `k` on have been seen. -/
theorem next_eq (h : config.WholeSectors) (hend : start + config.bytesPerBlock ≤ 2 ^ 32)
    (hk : k < config.sectorsPerBlock) :
    sub32 (start + (k + 1) * config.bytesPerSector) config.bytesPerSector =
      start + k * config.bytesPerSector := by
  have hle := h.sector_le hk
  rw [Nat.succ_mul, sub32_of_le_top h.sector_pos (by omega) (by omega) h.sector_lt]
  omega

/-- One turn of the loop inside the block. -/
theorem search_succ (h : config.WholeSectors) (hend : start + config.bytesPerBlock ≤ 2 ^ 32)
    (hk : k < config.sectorsPerBlock) :
    (Free device (start + k * config.bytesPerSector) →
      config.searchFreeSector device start (fuel + 1)
          (sub32 (start + (k + 1) * config.bytesPerSector) config.bytesPerSector) =
        some (some (start + k * config.bytesPerSector), [start + k * config.bytesPerSector])) ∧
    (¬Free device (start + k * config.bytesPerSector) →
      config.searchFreeSector device start (fuel + 1)
          (sub32 (start + (k + 1) * config.bytesPerSector) config.bytesPerSector) =
        (config.searchFreeSector device start fuel
          (sub32 (start + k * config.bytesPerSector) config.bytesPerSector)).map
            fun r => (r.1, (start + k * config.bytesPerSector) :: r.2)) := by
  rw [h.next_eq hend hk, searchFreeSector, if_pos (Nat.le_add_right _ _)]
  constructor
  · intro hfree
    rw [if_pos (free_iff.mpr hfree)]
  · intro hfree
    rw [if_neg (mt free_iff.mp hfree)]

theorem search_of_free (h : config.WholeSectors) (hend : start + config.bytesPerBlock ≤ 2 ^ 32)
    (hk : k ≤ config.sectorsPerBlock)
    (hfree : ∃ i < k, Free device (start + i * config.bytesPerSector)) :
    ∃ i visited, config.searchFreeSector device start k
        (sub32 (start + k * config.bytesPerSector) config.bytesPerSector) =
          some (some (start + i * config.bytesPerSector), visited) ∧
      i < k ∧ Free device (start + i * config.bytesPerSector) ∧ visited.Nodup ∧
      ∀ a ∈ visited, ∃ j < k, a = start + j * config.bytesPerSector := by
  induction k with
  | zero =>
      obtain ⟨i, hi, _⟩ := hfree
      exact absurd hi (Nat.not_lt_zero i)
  | succ k ih =>
      have hturn := @search_succ config device start k k h hend hk
      by_cases hlast : Free device (start + k * config.bytesPerSector)
      · refine ⟨k, _, hturn.1 hlast, Nat.lt_succ_self k, hlast, List.nodup_singleton _, ?_⟩
        intro a ha
        exact ⟨k, Nat.lt_succ_self k, List.mem_singleton.mp ha⟩
      · have hbelow : ∃ i < k, Free device (start + i * config.bytesPerSector) := by
          obtain ⟨i, hi, hfree⟩ := hfree
          have hne : i ≠ k := by
            rintro rfl
            exact hlast hfree
          exact ⟨i, by omega, hfree⟩
        obtain ⟨i, visited, hrun, hi, hfound, hnodup, hseen⟩ := ih (by omega) hbelow
        refine ⟨i, _, (hturn.2 hlast).trans (congrArg _ hrun), by omega, hfound, ?_, ?_⟩
        · apply List.nodup_cons.mpr
          refine ⟨fun hmem => ?_, hnodup⟩
          obtain ⟨j, hj, heq⟩ := hseen _ hmem
          have hlt := Nat.mul_lt_mul_of_pos_right hj h.sector_pos
          omega
        · intro a ha
          rcases List.mem_cons.mp ha with rfl | ha
          · exact ⟨k, Nat.lt_succ_self k, rfl⟩
          · obtain ⟨j, hj, heq⟩ := hseen a ha
            exact ⟨j, by omega, heq⟩

/-- Without a free sector the walk leaves the block downwards. -/
theorem search_of_full (h : config.WholeSectors) (hend : start + config.bytesPerBlock ≤ 2 ^ 32)
    (hk : k ≤ config.sectorsPerBlock)
    (hfull : ∀ i < k, ¬Free device (start + i * config.bytesPerSector)) :
    ∃ seen : List Nat, seen.Nodup ∧ (∀ a ∈ seen, ∃ j < k, a = start + j * config.bytesPerSector) ∧
      ∀ fuel, config.searchFreeSector device start (fuel + k)
          (sub32 (start + k * config.bytesPerSector) config.bytesPerSector) =
        (config.searchFreeSector device start fuel (sub32 start config.bytesPerSector)).map
          fun r => (r.1, seen ++ r.2) := by
  induction k with
  | zero =>
      refine ⟨[], List.nodup_nil, nofun, fun fuel => ?_⟩
      rw [Nat.zero_mul]
      exact Option.map_id'.symm
  | succ k ih =>
      have hlast := hfull k (Nat.lt_succ_self k)
      obtain ⟨seen, hnodup, hseen, hrun⟩ := ih (by omega) fun i hi => hfull i (by omega)
      refine ⟨(start + k * config.bytesPerSector) :: seen, ?_, ?_, fun fuel => ?_⟩
      · apply List.nodup_cons.mpr
        refine ⟨fun hmem => ?_, hnodup⟩
        obtain ⟨j, hj, heq⟩ := hseen _ hmem
        have hlt := Nat.mul_lt_mul_of_pos_right hj h.sector_pos
        omega
      · intro a ha
        rcases List.mem_cons.mp ha with rfl | ha
        · exact ⟨k, Nat.lt_succ_self k, rfl⟩
        · obtain ⟨j, hj, heq⟩ := hseen a ha
          exact ⟨j, by omega, heq⟩
      · rw [← Nat.add_assoc, (h.search_succ hend hk).2 hlast, hrun fuel, Option.map_map]
        rfl

theorem search_unfinished (h : config.WholeSectors) (hend : start + config.bytesPerBlock ≤ 2 ^ 32)
    (hk : k ≤ config.sectorsPerBlock)
    (hfull : ∀ i < k, ¬Free device (start + i * config.bytesPerSector)) (hfuel : fuel ≤ k) :
    config.searchFreeSector device start fuel
      (sub32 (start + k * config.bytesPerSector) config.bytesPerSector) = none := by
  induction k generalizing fuel with
  | zero =>
      rw [Nat.le_zero.mp hfuel]
      rfl
  | succ k ih =>
      cases fuel with
      | zero => rfl
      | succ fuel =>
          rw [(h.search_succ hend hk).2 (hfull k (Nat.lt_succ_self k)),
            ih (by omega) (fun i hi => hfull i (by omega)) (by omega)]
          rfl

end WholeSectors

/-- An address at which the loop does not end is read. -/
theorem mem_of_search {start next fuel : Nat} {result : Option Nat} {visited : List Nat}
    (hle : start ≤ next)
    (hrun : config.searchFreeSector device start (fuel + 1) next = some (result, visited)) :
    next ∈ visited := by
  rw [searchFreeSector, if_pos hle] at hrun
  split at hrun
  · cases hrun
    exact List.mem_singleton_self next
  · obtain ⟨r, -, hr⟩ := Option.map_eq_some_iff.mp hrun
    cases hr
    exact List.mem_cons_self

/-- Where the walk begins. -/
theorem getNextFreeSector_eq (h : config.WholeSectors) (fuel phyAddress : Nat) :
    config.getNextFreeSector device fuel phyAddress =
      config.searchFreeSector device (config.getBlockStartAddress phyAddress) fuel
        (sub32 (config.getBlockStartAddress phyAddress +
          config.sectorsPerBlock * config.bytesPerSector) config.bytesPerSector) := by
  rw [getNextFreeSector, sub32_u32, h.block_eq]

/-- In a block without a free sector the walk goes on below the first one, and must not wrap
there. -/
theorem sector_le_start (h : config.WholeSectors) {phyAddress : Nat}
    (hend : config.getBlockStartAddress phyAddress + config.bytesPerBlock ≤ 2 ^ 32)
    (hfull : ∀ i < config.sectorsPerBlock,
      ¬Free device (config.getBlockStartAddress phyAddress + i * config.bytesPerSector))
    (hfinds : config.FindsFreeSector device phyAddress) :
    config.bytesPerSector ≤ config.getBlockStartAddress phyAddress := by
  obtain ⟨fuel, result, visited, hresult, -, hvisited, -⟩ := hfinds
  rw [getNextFreeSector_eq h] at hresult
  generalize config.getBlockStartAddress phyAddress = start at *
  obtain ⟨seen, -, -, hrun⟩ := h.search_of_full hend le_rfl hfull
  by_contra hlow
  have hlong : config.sectorsPerBlock < fuel := by
    by_contra hshort
    rw [h.search_unfinished hend le_rfl hfull (not_lt.mp hshort)] at hresult
    exact absurd hresult nofun
  obtain ⟨fuel, rfl⟩ := Nat.exists_eq_add_of_lt hlong
  rw [show config.sectorsPerBlock + fuel + 1 = fuel + 1 + config.sectorsPerBlock by omega,
    hrun] at hresult
  obtain ⟨r, hr, heq⟩ := Option.map_eq_some_iff.mp hresult
  cases heq
  have hsector := h.sector_lt
  have hwrap : sub32 start config.bytesPerSector = 2 ^ 32 + start - config.bytesPerSector := by
    rw [sub32, u32, Nat.mod_eq_of_lt hsector]
    omega
  have houtside : start ≤ sub32 start config.bytesPerSector := by omega
  have hmem := List.mem_append_right seen (mem_of_search houtside hr)
  obtain ⟨i, hi, heq⟩ := hvisited _ hmem
  have hle := h.sector_le hi
  have hblock := h.block_lt
  omega

theorem finds_of_free (h : config.WholeSectors) {phyAddress : Nat}
    (hend : config.getBlockStartAddress phyAddress + config.bytesPerBlock ≤ 2 ^ 32)
    (hfree : ∃ a, config.InBlock (config.getBlockStartAddress phyAddress) a ∧ Free device a) :
    config.FindsFreeSector device phyAddress := by
  obtain ⟨a, ⟨i, hi, rfl⟩, hfree⟩ := hfree
  obtain ⟨j, visited, hrun, hj, hfound, hnodup, hseen⟩ :=
    h.search_of_free hend le_rfl ⟨i, hi, hfree⟩
  rw [← getNextFreeSector_eq h] at hrun
  exact ⟨_, _, visited, hrun, hnodup, hseen, ⟨j, hj, rfl⟩, hfound⟩

theorem finds_of_full (h : config.WholeSectors) {phyAddress : Nat}
    (hend : config.getBlockStartAddress phyAddress + config.bytesPerBlock ≤ 2 ^ 32)
    (hfull : ∀ i < config.sectorsPerBlock,
      ¬Free device (config.getBlockStartAddress phyAddress + i * config.bytesPerSector))
    (hlow : config.bytesPerSector ≤ config.getBlockStartAddress phyAddress) :
    config.FindsFreeSector device phyAddress := by
  obtain ⟨seen, hnodup, hseen, hrun⟩ := h.search_of_full hend le_rfl hfull
  have hpos := h.sector_pos
  have hsector := h.sector_lt
  have hbelow : sub32 (config.getBlockStartAddress phyAddress) config.bytesPerSector =
      config.getBlockStartAddress phyAddress - config.bytesPerSector :=
    sub32_of_le_top hpos hlow (by omega) hsector
  refine ⟨1 + config.sectorsPerBlock, none, seen, ?_, hnodup, hseen, ?_⟩
  · rw [getNextFreeSector_eq h, hrun, hbelow, searchFreeSector, if_neg (by omega),
      Option.map_some, List.append_nil]
  · rintro a ⟨i, hi, rfl⟩
    exact hfull i hi

/-- The search does its task just when there is a free sector or room for one sector in front of
the block: below the first sector the address must not wrap. -/
theorem findsFreeSector_iff (config : Config) (device : Device) (phyAddress : Nat)
    (h : config.WholeSectors)
    (hend : config.getBlockStartAddress phyAddress + config.bytesPerBlock ≤ 2 ^ 32) :
    config.FindsFreeSector device phyAddress ↔
      (∃ a, config.InBlock (config.getBlockStartAddress phyAddress) a ∧ Free device a) ∨
        config.bytesPerSector ≤ config.getBlockStartAddress phyAddress := by
  by_cases hfree : ∃ a, config.InBlock (config.getBlockStartAddress phyAddress) a ∧ Free device a
  · exact iff_of_true (finds_of_free h hend hfree) (.inl hfree)
  · have hfull : ∀ i < config.sectorsPerBlock,
        ¬Free device (config.getBlockStartAddress phyAddress + i * config.bytesPerSector) :=
      fun i hi hf => hfree ⟨_, ⟨i, hi, rfl⟩, hf⟩
    rw [or_iff_right hfree]
    exact ⟨sector_le_start h hend hfull, finds_of_full h hend hfull⟩

/-- A device of one block of two sectors at address 0, none of them free. -/
def fullAtZero : Config where
  bytesPerSector := 512
  bytesPerBlock := 1024
  baseAddress := 0
  size := 1024

theorem fullAtZero_wholeSectors : fullAtZero.WholeSectors where
  sector_pos := by decide
  block_pos := by decide
  block_lt := by decide
  dvd := by decide

def usedSectors : Device := fun _ => some { SectorMetadata.erased with sectorFlags := 0 }

theorem not_findsFreeSector_zero :
    ¬∀ (config : Config) (device : Device) (phyAddress : Nat), config.WholeSectors →
      config.getBlockStartAddress phyAddress + config.bytesPerBlock ≤ 2 ^ 32 →
      config.FindsFreeSector device phyAddress := by
  intro h
  have hused : ∀ a, ¬Free usedSectors a := by
    rintro a ⟨m, hm, hfree⟩
    cases hm
    exact absurd hfree (by decide)
  have hfinds := h fullAtZero usedSectors 0 fullAtZero_wholeSectors (by decide)
  exact absurd (sector_le_start fullAtZero_wholeSectors (by decide) (fun _ _ => hused _) hfinds)
    (by decide)

theorem findsFreeSector_second :
    fullAtZero.FindsFreeSector usedSectors 1024 ↔
      (∃ a, fullAtZero.InBlock (fullAtZero.getBlockStartAddress 1024) a ∧ Free usedSectors a) ∨
        fullAtZero.bytesPerSector ≤ fullAtZero.getBlockStartAddress 1024 :=
  findsFreeSector_iff fullAtZero usedSectors 1024 fullAtZero_wholeSectors (by decide)

end Config

end TinyCLR.WearLeveling
