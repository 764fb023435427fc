import Mathlib
import TinyCLR.FAT.NameForms
import TinyCLR.FAT.QueryFrame
import TinyCLR.FAT.Table

/-!
# Runs of entries

An enumerator goes through the places of entries one after the other. Writing entries outside of
the FAT does not change where it goes, so all functions that start at the same entry see the same
run, across sectors and clusters as well.
-/

namespace TinyCLR.FAT

open LittleEndian

namespace MountedDisk

variable {d d' d'' : MountedDisk} {index index' : EntryIndex} {run run' : List EntryIndex}

/-! ## What a write leaves alone -/

/-- Nothing but the entries at some places differs. -/
structure OnlyAt (run : List EntryIndex) (d d' : MountedDisk) : Prop where
  same : d.SameVolume d'
  sectors : ∀ s a, (∀ index ∈ run, ¬(s = index.1 ∧ index.2 ≤ a ∧ a < index.2 + 32)) →
    d'.sectors s a = d.sectors s a

/-- The places are starts of entries that lie outside of the FAT. -/
structure Outside (d : MountedDisk) (run : List EntryIndex) : Prop where
  aligned : ∀ index ∈ run, index.2 % 32 = 0
  notTable : ∀ index ∈ run, ¬d.IsTable index.1

theorem OnlyAt.refl (run : List EntryIndex) (d : MountedDisk) : OnlyAt run d d :=
  ⟨.refl, fun _ _ _ => rfl⟩

theorem OnlyAt.trans (h : OnlyAt run d d') (h' : OnlyAt run d' d'') : OnlyAt run d d'' :=
  ⟨h.same.trans h'.same, fun s a hout => (h'.sectors s a hout).trans (h.sectors s a hout)⟩

theorem OnlyAt.mono (h : OnlyAt run d d') (hsub : run ⊆ run') : OnlyAt run' d d' :=
  ⟨h.same, fun s a hout => h.sectors s a fun index hindex => hout index (hsub hindex)⟩

theorem Outside.congr (h : d.Outside run) (hsame : d.SameVolume d') : d'.Outside run :=
  ⟨h.aligned, fun index hindex htable =>
    h.notTable index hindex ((hsame.isTable _).mp htable)⟩

theorem Outside.tail (h : d.Outside (index :: run)) : d.Outside run :=
  ⟨fun _ hindex => h.aligned _ (List.mem_cons_of_mem _ hindex),
    fun _ hindex => h.notTable _ (List.mem_cons_of_mem _ hindex)⟩

/-- The entries at other places stay as they are. -/
theorem OnlyAt.entry (h : OnlyAt run d d') (haligned : ∀ index ∈ run, index.2 % 32 = 0)
    (haligned' : index'.2 % 32 = 0) (hne : index' ∉ run) {i : Nat} (hi : i < 32) :
    d'.entry index' i = d.entry index' i := by
  apply h.sectors
  intro index hindex hin
  have haligned := haligned index hindex
  have hoffset : index'.2 = index.2 := by omega
  exact hne (Prod.ext hin.1 hoffset ▸ hindex)

theorem onlyAt_setEntryBytes (d : MountedDisk) (index : EntryIndex) {i : Nat}
    {bytes : List (BitVec 8)} (h : i + bytes.length ≤ 32) :
    OnlyAt [index] d (d.setEntryBytes index i bytes) := by
  constructor
  · exact sameVolume_setSector ..
  · intro s a hout
    have hout := hout index (List.mem_singleton_self index)
    by_cases hs : s = index.1
    · subst hs
      rw [setEntryBytes, sectors_setSector_same]
      apply if_neg
      omega
    · rw [setEntryBytes, sectors_setSector_of_ne hs]

theorem onlyAt_setField {i width : Nat} (h : i + width ≤ 32) (value : Nat) :
    OnlyAt [index] d (d.setField index i width value) := by
  constructor
  · exact sameVolume_setSector ..
  · intro s a hout
    have hout := hout index (List.mem_singleton_self index)
    rw [setField_sectors]
    apply if_neg
    omega

theorem OnlyAt.table (h : OnlyAt run d d') (hout : d.Outside run) {s : Nat} (hs : d.IsTable s) :
    d'.sectors s = d.sectors s := by
  funext a
  apply h.sectors
  rintro index hindex ⟨rfl, -⟩
  exact hout.notTable index hindex hs

theorem OnlyAt.getSector (h : OnlyAt run d d') {s : Nat} (hs : d'.sectors s = d.sectors s) :
    d'.getSector s = d.getSector s := by
  rw [MountedDisk.getSector, MountedDisk.getSector, h.same.volume, h.same.readable, hs]

theorem OnlyAt.readFAT (h : OnlyAt run d d') (hout : d.Outside run) (c : Nat) :
    d'.readFAT c = d.readFAT c := by
  rw [MountedDisk.readFAT, MountedDisk.readFAT, h.same.volume]
  by_cases hc : d.volume.totalClusterCount + clusterStart ≤ c
  · rw [if_pos hc, if_pos hc]
  · have htable := h.table hout (isTable₁ (Nat.not_le.mp hc))
    rw [Volume.tableSector] at htable
    rw [h.getSector htable]

end MountedDisk

/-! ## Where an enumerator goes -/

namespace EntryEnumerator

variable {d d' : MountedDisk} {e e' : EntryEnumerator} {index : EntryIndex} {run : List EntryIndex}

/-- The enumerator gives the places of `run` one after the other. -/
inductive Walk (d : MountedDisk) : EntryEnumerator → List EntryIndex → EntryEnumerator → Prop where
  | nil {e : EntryEnumerator} : Walk d e [] e
  | cons {e e' e'' : EntryEnumerator} {index : EntryIndex} {run : List EntryIndex} :
      e.next d = (some index, e') → Walk d e' run e'' → Walk d e (index :: run) e''

theorem getNextSect_disk (d : MountedDisk) (clusIndex sectIndex : Nat) (clear : Bool) :
    (d.getNextSect clusIndex sectIndex false clear).2 = d := by
  unfold MountedDisk.getNextSect
  simp only [Bool.false_eq_true, if_false]
  split_ifs <;> rfl

theorem next_extend (h : e.extend = false) : (e.next d).2.extend = false := by
  unfold next getNext
  simp only [h]
  split_ifs
  · rfl
  · exact h
  · rfl
  · cases hnext : d.getNextSect e.clusIndex e.sectIndex false false with
    | mk found d' =>
      cases found with
      | none => rfl
      | some place => rfl

theorem getNextSect_congr (h : MountedDisk.OnlyAt run d d') (hout : d.Outside run)
    (clusIndex sectIndex : Nat) :
    (d'.getNextSect clusIndex sectIndex false false).1 =
      (d.getNextSect clusIndex sectIndex false false).1 := by
  unfold MountedDisk.getNextSect
  simp only [h.same.volume, h.readFAT hout, h.same.getClusType, MountedDisk.clusToSect,
    Bool.false_eq_true, if_false]
  split_ifs <;> rfl

theorem current_congr (h : MountedDisk.OnlyAt run d d') (e : EntryEnumerator) :
    e.current d' = e.current d := by
  unfold current MountedDisk.getSector
  rw [h.same.volume, h.same.readable]
  split_ifs <;> rfl

/-- Entries that are written outside of the FAT do not lead an enumerator elsewhere. -/
theorem next_congr (h : MountedDisk.OnlyAt run d d') (hout : d.Outside run)
    (hextend : e.extend = false) : e.next d' = e.next d := by
  have hsect := getNextSect_congr h hout e.clusIndex e.sectIndex
  unfold next getNext
  simp only [hextend, current_congr h, h.same.volume]
  split_ifs
  · rfl
  · rfl
  · rfl
  · have hdisk := getNextSect_disk d e.clusIndex e.sectIndex false
    have hdisk' := getNextSect_disk d' e.clusIndex e.sectIndex false
    cases hnext : d.getNextSect e.clusIndex e.sectIndex false false with
    | mk found d₁ =>
      cases hnext' : d'.getNextSect e.clusIndex e.sectIndex false false with
      | mk found' d₂ =>
        rw [hnext, hnext'] at hsect
        rw [hnext] at hdisk
        rw [hnext'] at hdisk'
        subst hsect hdisk hdisk'
        cases found' with
        | none => rfl
        | some place => simp only [current_congr h]

theorem Walk.congr (h : MountedDisk.OnlyAt run d d') (hout : d.Outside run) {places : List EntryIndex}
    (hextend : e.extend = false) (hwalk : Walk d e places e') : Walk d' e places e' := by
  induction hwalk with
  | nil => exact .nil
  | cons hnext _ ih =>
      apply Walk.cons ((next_congr h hout hextend).trans hnext)
      apply ih
      have hkept := next_extend (d := d) hextend
      rwa [hnext] at hkept

end EntryEnumerator

end TinyCLR.FAT
