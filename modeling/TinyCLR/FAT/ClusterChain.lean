import TinyCLR.FAT.Table
import TinyCLR.FAT.FileHandle

/-!
# Chains of clusters

The clusters of a file, linked to each other in both copies of the FAT, and what the loop of
`SetLength` does to them.
-/

namespace TinyCLR.FAT

open LittleEndian

/-- The layout of a volume: its sectors have numbers of 32 bits, its clusters are behind the FAT,
and none of their numbers is one of the marks. -/
structure Volume.Regular (v : Volume) : Prop where
  bytes_pos : 0 < v.bytesPerSector
  sectors_pos : 0 < v.sectorsPerCluster
  clusterSize : v.bytesPerSector * v.sectorsPerCluster < 2 ^ 32
  sectors : v.firstDataSector + v.totalClusterCount * v.sectorsPerCluster < 2 ^ 32
  clusters : v.maxCluster ≤ if v.isFAT16 then 0xfff7 else 0x0ffffff7

namespace MountedDisk

variable {d d' d'' : MountedDisk}

/-- The clusters of a file one after the other; the last one has an end mark. -/
def ClusterChain (d : MountedDisk) : List Nat → Prop
  | [] => False
  | [c] => (clusterStart ≤ c ∧ c < d.volume.maxCluster) ∧
      d.getClusType (d.link₁ c) = .eos ∧ d.getClusType (d.link₂ c) = .eos
  | c :: c' :: rest => (clusterStart ≤ c ∧ c < d.volume.maxCluster) ∧
      (d.link₁ c = c' ∧ d.link₂ c = c') ∧ ClusterChain d (c' :: rest)

instance decidableClusterChain (d : MountedDisk) :
    (chain : List Nat) → Decidable (d.ClusterChain chain)
  | [] => isFalse id
  | [c] => inferInstanceAs (Decidable ((clusterStart ≤ c ∧ c < d.volume.maxCluster) ∧
      d.getClusType (d.link₁ c) = .eos ∧ d.getClusType (d.link₂ c) = .eos))
  | c :: c' :: rest =>
      have := decidableClusterChain d (c' :: rest)
      inferInstanceAs (Decidable ((clusterStart ≤ c ∧ c < d.volume.maxCluster) ∧
        (d.link₁ c = c' ∧ d.link₂ c = c') ∧ d.ClusterChain (c' :: rest)))

theorem getClusType_data (hv : d.volume.Regular) {c : Nat} (hc : c < d.volume.maxCluster) :
    d.getClusType c = .data := by
  have hmarks := hv.clusters
  rw [getClusType, clustError]
  cases htype : d.volume.isFAT16 with
  | true =>
      rw [htype] at hmarks
      simp only [if_true] at hmarks ⊢
      rw [if_neg (by omega), if_neg (by omega), if_neg (by omega)]
  | false =>
      rw [htype] at hmarks
      simp only [Bool.false_eq_true, if_false] at hmarks ⊢
      rw [if_neg (by omega), if_neg (by omega), if_neg (by omega)]

theorem getClusType_stored_eof : d.getClusType (d.stored clustEof) = .eos := by
  rw [stored, fatValue, getClusType]
  cases d.volume.isFAT16 <;> decide

theorem stored_zero : d.stored 0 = 0 := by
  have hvalue : d.fatValue 0 = 0 := (fatValue_eq_zero 0).mpr rfl
  rw [stored, hvalue]
  cases d.volume.isFAT16 <;> rfl

theorem getClusType_zero : d.getClusType 0 = .data := by
  rw [getClusType]
  cases d.volume.isFAT16 <;> decide

namespace ClusterChain

theorem head {c : Nat} {rest : List Nat} (h : d.ClusterChain (c :: rest)) :
    clusterStart ≤ c ∧ c < d.volume.maxCluster := by
  cases rest with
  | nil => exact h.1
  | cons c' rest => exact h.1

theorem mem {chain : List Nat} (h : d.ClusterChain chain) :
    ∀ c ∈ chain, clusterStart ≤ c ∧ c < d.volume.maxCluster := by
  induction chain with
  | nil => exact h.elim
  | cons c rest ih =>
      intro c' hmem
      cases List.mem_cons.mp hmem with
      | inl heq => exact heq ▸ h.head
      | inr hrest =>
          cases rest with
          | nil => cases hrest
          | cons _ _ => exact ih h.2.2 c' hrest

/-- A cluster has one chain. -/
theorem unique (hv : d.volume.Regular) {c : Nat} {rest rest' : List Nat}
    (h : d.ClusterChain (c :: rest)) (h' : d.ClusterChain (c :: rest')) : rest = rest' := by
  induction rest generalizing c rest' with
  | nil =>
      cases rest' with
      | nil => rfl
      | cons c' rest' =>
          have hdata := getClusType_data hv h'.2.2.head.2
          rw [← h'.2.1.1, h.2.1] at hdata
          cases hdata
  | cons c₁ rest ih =>
      cases rest' with
      | nil =>
          have hdata := getClusType_data hv h.2.2.head.2
          rw [← h.2.1.1, h'.2.1] at hdata
          cases hdata
      | cons c₂ rest' =>
          have heq : c₁ = c₂ := h.2.1.1.symm.trans h'.2.1.1
          subst heq
          rw [ih h.2.2 h'.2.2]

theorem suffix {before : List Nat} {c : Nat} {rest : List Nat}
    (h : d.ClusterChain (before ++ c :: rest)) : d.ClusterChain (c :: rest) := by
  induction before with
  | nil => exact h
  | cons b before ih =>
      cases before with
      | nil => exact h.2.2
      | cons b' before => exact ih h.2.2

/-- No cluster comes twice. -/
theorem nodup (hv : d.volume.Regular) {chain : List Nat} (h : d.ClusterChain chain) :
    chain.Nodup := by
  induction chain with
  | nil => exact List.nodup_nil
  | cons c rest ih =>
      apply List.nodup_cons.mpr
      constructor
      · intro hmem
        cases List.append_of_mem hmem with
        | intro before hbefore =>
            cases hbefore with
            | intro behind hsplit =>
                rw [hsplit] at h
                have hagain : d.ClusterChain (c :: behind) := @suffix d (c :: before) c behind h
                have hlength := congrArg List.length (unique hv h hagain)
                rw [List.length_append, List.length_cons] at hlength
                omega
      · cases rest with
        | nil => exact List.nodup_nil
        | cons _ _ => exact ih h.2.2

theorem congr {chain : List Nat} (hsame : d.SameVolume d') (h : d.ClusterChain chain)
    (hlink : ∀ c ∈ chain, d'.link₁ c = d.link₁ c ∧ d'.link₂ c = d.link₂ c) :
    d'.ClusterChain chain := by
  induction chain with
  | nil => exact h
  | cons c rest ih =>
      have hc := hlink c (List.mem_cons_self ..)
      cases rest with
      | nil =>
          rw [ClusterChain, hsame.volume, hsame.getClusType, hsame.getClusType, hc.1, hc.2]
          exact h
      | cons c' rest =>
          rw [ClusterChain, hsame.volume, hc.1, hc.2]
          exact ⟨h.1, h.2.1, ih h.2.2 fun x hx => hlink x (List.mem_cons_of_mem _ hx)⟩

/-- The last cluster has the end mark. -/
theorem getLast {chain : List Nat} (h : d.ClusterChain chain) (hne : chain ≠ []) :
    d.getClusType (d.link₁ (chain.getLast hne)) = .eos := by
  induction chain with
  | nil => exact h.elim
  | cons c rest ih =>
      cases rest with
      | nil => exact h.2.1
      | cons c' rest =>
          rw [List.getLast_cons (List.cons_ne_nil c' rest)]
          exact ih h.2.2 _

end ClusterChain

/-! ## Entries that change -/

/-- The entries of some clusters have changed in both copies, and beside them nothing but the
FSINFO sector. -/
structure Changed (d : MountedDisk) (entry : Nat → Option Nat) (d' : MountedDisk) : Prop where
  same : d.SameVolume d'
  link₁ : ∀ c < d.volume.maxCluster, d'.link₁ c = (entry c).getD (d.link₁ c)
  link₂ : ∀ c < d.volume.maxCluster, d'.link₂ c = (entry c).getD (d.link₂ c)
  outside : ∀ sectorIndex, ¬d.IsTable sectorIndex → d'.sectors sectorIndex = d.sectors sectorIndex

theorem Changed.refl : Changed d (fun _ => none) d :=
  ⟨.refl, fun _ _ => rfl, fun _ _ => rfl, fun _ _ => rfl⟩

theorem Wrote.changed {c value : Nat} (h : Wrote d c value d') :
    Changed d (fun c' => if c' = c then some (d.stored value) else none) d' := by
  constructor
  · exact h.same
  · intro c' hc'
    rw [h.link₁ c' hc']
    split <;> rfl
  · intro c' hc'
    rw [h.link₂ c' hc']
    split <;> rfl
  · exact h.outside

theorem Changed.trans {entry entry' : Nat → Option Nat} (h : Changed d entry d')
    (h' : Changed d' entry' d'') : Changed d (fun c => (entry' c).or (entry c)) d'' := by
  constructor
  · exact h.same.trans h'.same
  · intro c hc
    rw [h'.link₁ c (h.same.volume ▸ hc), h.link₁ c hc]
    cases entry' c <;> rfl
  · intro c hc
    rw [h'.link₂ c (h.same.volume ▸ hc), h.link₂ c hc]
    cases entry' c <;> rfl
  · intro sectorIndex htable
    rw [h'.outside sectorIndex (mt (h.same.isTable sectorIndex).mp htable)]
    exact h.outside sectorIndex htable

theorem Changed.of_eq {entry entry' : Nat → Option Nat} (h : Changed d entry d')
    (heq : ∀ c, entry c = entry' c) : Changed d entry' d' :=
  (funext heq : entry = entry') ▸ h

/-- A chain whose clusters have not changed. -/
theorem ClusterChain.of_changed {entry : Nat → Option Nat} {chain : List Nat}
    (h : d.ClusterChain chain) (hchange : Changed d entry d') (hnone : ∀ c ∈ chain, entry c = none) :
    d'.ClusterChain chain := by
  apply h.congr hchange.same
  intro c hmem
  have hc := (h.mem c hmem).2
  rw [hchange.link₁ c hc, hchange.link₂ c hc, hnone c hmem]
  exact ⟨rfl, rfl⟩

/-! ## The loop that shortens a chain -/

/-- Until the number of clusters to keep is reached the loop stays where it started. -/
theorem cutChain_skip (hv : d.volume.Regular) {c : Nat} (hc : c < d.volume.maxCluster)
    (newClusCount m todo clusNum : Nat) (hlt : clusNum + m < newClusCount) :
    OpenFile.cutChain newClusCount (m + todo) clusNum c d =
      OpenFile.cutChain newClusCount todo (clusNum + m) c d := by
  induction m generalizing clusNum with
  | zero => rw [Nat.zero_add, Nat.add_zero]
  | succ m ih =>
      have hdata : ¬d.getClusType c ≠ .data := not_not_intro (getClusType_data hv hc)
      rw [show m + 1 + todo = m + todo + 1 by omega, OpenFile.cutChain,
        if_neg (by omega : ¬clusNum + 1 = newClusCount),
        if_neg (by omega : ¬newClusCount < clusNum + 1)]
      dsimp only
      rw [if_neg hdata, ih (clusNum + 1) (by omega)]
      congr 1
      omega

/-- Behind the cluster with the new end mark the loop frees one cluster after the other. -/
theorem cutChain_free (hd : d.Ready) (hv : d.volume.Regular) {c : Nat} {rest : List Nat}
    (h : d.ClusterChain (c :: rest)) (newClusCount todo clusNum : Nat)
    (hle : newClusCount ≤ clusNum) :
    Changed d (fun x => if x ∈ (c :: rest).take todo then some 0 else none)
      (OpenFile.cutChain newClusCount todo clusNum c d) := by
  induction todo generalizing d c rest clusNum with
  | zero => exact .refl
  | succ todo ih =>
      have hc := h.head
      have hspec := writeFAT_spec hd hc.2 0
      have hchange := hspec.2.changed
      rw [stored_zero] at hchange
      rw [OpenFile.cutChain, if_neg (by omega : ¬clusNum + 1 = newClusCount),
        if_pos (by omega : newClusCount < clusNum + 1)]
      rw [hspec.1, hchange.same.getClusType]
      cases rest with
      | nil =>
          rw [if_pos (by rw [h.2.2]; decide)]
          apply hchange.of_eq
          simp
      | cons c' rest =>
          have hdata := getClusType_data hv h.2.2.head.2
          have hnodup := List.nodup_cons.mp (h.nodup hv)
          have hrest : (d.writeFAT c 0).2.ClusterChain (c' :: rest) := by
            apply h.2.2.of_changed hchange
            intro x hx
            have hne : x ≠ c := fun heq => hnodup.1 (heq ▸ hx)
            exact if_neg hne
          rw [h.2.1.2, if_neg (not_not_intro hdata)]
          have hrun := ih (hd.congr hchange.same) (hchange.same.volume ▸ hv) hrest (clusNum + 1)
            (by omega)
          apply (hchange.trans hrun).of_eq
          intro x
          by_cases hx : x = c
          · subst hx
            have hnot : x ∉ (c' :: rest).take todo := fun hmem =>
              hnodup.1 (List.mem_of_mem_take hmem)
            simp [hnot]
          · by_cases hmem : x ∈ (c' :: rest).take todo <;> simp [hx, hmem]

/-- The loop of `SetLength`: the first cluster becomes the last one, and of the others as many are
freed as the file has more clusters than it is to keep. -/
theorem cutChain_spec (hd : d.Ready) (hv : d.volume.Regular) {newClusCount oldClusCount : Nat}
    {c : Nat} {rest : List Nat} (h : d.ClusterChain (c :: rest)) (hpos : 0 < newClusCount)
    (hle : newClusCount ≤ oldClusCount) :
    Changed d (fun x => if x = c then some (d.stored clustEof)
        else if x ∈ rest.take (oldClusCount - newClusCount) then some 0 else none)
      (OpenFile.cutChain newClusCount oldClusCount 0 c d) := by
  have hc := h.head
  have hspec := writeFAT_spec hd hc.2 clustEof
  have hchange := hspec.2.changed
  have hskip := cutChain_skip hv hc.2 newClusCount (newClusCount - 1)
    (oldClusCount - newClusCount + 1) 0 (by omega)
  rw [show newClusCount - 1 + (oldClusCount - newClusCount + 1) = oldClusCount by omega] at hskip
  rw [hskip, OpenFile.cutChain,
    if_pos (by omega : 0 + (newClusCount - 1) + 1 = newClusCount)]
  rw [hspec.1, hchange.same.getClusType]
  cases rest with
  | nil =>
      rw [if_pos (by rw [h.2.2]; decide)]
      apply hchange.of_eq
      simp
  | cons c' rest =>
      have hdata := getClusType_data hv h.2.2.head.2
      have hnodup := List.nodup_cons.mp (h.nodup hv)
      have hrest : (d.writeFAT c clustEof).2.ClusterChain (c' :: rest) := by
        apply h.2.2.of_changed hchange
        intro x hx
        have hne : x ≠ c := fun heq => hnodup.1 (heq ▸ hx)
        exact if_neg hne
      rw [h.2.1.2, if_neg (not_not_intro hdata)]
      have hrun := cutChain_free (hd.congr hchange.same) (hchange.same.volume ▸ hv) hrest
        newClusCount (oldClusCount - newClusCount) (0 + (newClusCount - 1) + 1)
        (by omega)
      apply (hchange.trans hrun).of_eq
      intro x
      by_cases hx : x = c
      · subst hx
        have hnot : x ∉ (c' :: rest).take (oldClusCount - newClusCount) := fun hmem =>
          hnodup.1 (List.mem_of_mem_take hmem)
        simp [hnot]
      · by_cases hmem : x ∈ (c' :: rest).take (oldClusCount - newClusCount) <;> simp [hx, hmem]

end MountedDisk

end TinyCLR.FAT
