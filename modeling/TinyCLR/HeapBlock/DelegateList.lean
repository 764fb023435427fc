import TinyCLR.HeapBlock.Array

/-!
# Lists of delegates

`CLR_RT_HeapBlock_Delegate_List`: what a multicast delegate invokes. `Change` combines a value with
a delegate or removes one from it, and goes through a list of delegates one after the other. An
entry of a weak list whose delegate was collected is null.
-/

namespace TinyCLR.HeapBlock

abbrev DelegateId := Nat

/-- `CLR_RT_HeapBlock_Delegate` -/
structure Delegate where
  cls : Nat
  ftn : Nat
  object : Option Nat
  deriving DecidableEq

/-- `CLR_RT_HeapBlock_Delegate_List`, with all entries it was allocated with. -/
structure DelegateList where
  cls : Nat
  length : Nat
  slots : List (Option DelegateId)
  weak : Bool

/-- What a reference to a delegate refers to. -/
inductive DelegateRef where
  | null
  | delegate (dlg : DelegateId)
  | list (dlgs : DelegateList)

/-- An argument; only objects are delegates. -/
inductive DelegateBlock where
  | object (ref : DelegateRef)
  | other

def DelegateRef.ofEntry : Option DelegateId → DelegateRef
  | none => .null
  | some dlg => .delegate dlg

namespace DelegateList

/-- `GetDelegates`, up to `m_length`. -/
def delegates (dlgs : DelegateList) : List (Option DelegateId) := dlgs.slots.take dlgs.length

/-- `CreateInstance`, where there is room for lists of some lengths. -/
def createInstance (room : Nat → Bool) (length : Nat) : Except HResult DelegateList :=
  if room length then
    .ok { cls := 0, length := length, slots := List.replicate length none, weak := false }
  else .error .outOfMemory

/-- `CopyAndCompress`, with the place behind the last entry that was copied. -/
def copyAndCompress : List (Option DelegateId) → DelegateList → Nat → DelegateList × Nat
  | [], dlgs, dst => (dlgs, dst)
  | some dlg :: src, dlgs, dst =>
      copyAndCompress src { dlgs with slots := dlgs.slots.set dst (some dlg) } (dst + 1)
  | none :: src, dlgs, dst => copyAndCompress src { dlgs with length := dlgs.length - 1 } dst

end DelegateList

namespace DelegateRef

/-- `oldDlgs`, and `oldNum` is their number. -/
def oldDlgs : DelegateRef → List (Option DelegateId)
  | null => []
  | delegate dlg => [some dlg]
  | list dlgs => dlgs.delegates

/-- `c_Weak` among `m_flags` of a list. -/
def weak : DelegateRef → Bool
  | list dlgs => dlgs.weak
  | _ => false

end DelegateRef

variable (D : DelegateId → Delegate) (room : Nat → Bool)

/-- Two delegates of the same method and the same object. -/
def sameDelegate (dlg ptr : DelegateId) : Bool :=
  (D ptr).ftn = (D dlg).ftn ∧ (D ptr).object = (D dlg).object

/-- The test of an entry against the delegate that is to be removed. -/
def matchesEntry (dlg : DelegateId) (entry : Option DelegateId) : Bool :=
  entry.any (sameDelegate D dlg)

/-- `Change`, with a single delegate. -/
def changeDelegate (src : DelegateRef) (dlg : DelegateId) (fCombine fWeak : Bool) :
    Except HResult DelegateRef :=
  let oldDlgs := src.oldDlgs
  let oldNum := oldDlgs.length
  let weak := (decide (1 < oldNum) && src.weak) || fWeak
  if fCombine then
    if oldNum = 0 ∧ fWeak = false then .ok (.delegate dlg)
    else
      match DelegateList.createInstance room (oldNum + 1) with
      | .error e => .error e
      | .ok dlgListDst =>
          let r := DelegateList.copyAndCompress oldDlgs { dlgListDst with cls := (D dlg).cls } 0
          .ok (.list { r.1 with slots := r.1.slots.set r.2 (some dlg), weak := weak })
  else
    match oldDlgs.findIdx? (matchesEntry D dlg) with
    | none => .ok src
    | some num =>
        if oldNum = 2 ∧ src.weak = false then .ok (.ofEntry (oldDlgs[1 - num]?).join)
        else if oldNum = 1 then .ok .null
        else
          match DelegateList.createInstance room (oldNum - 1) with
          | .error e => .error e
          | .ok dlgListDst =>
              let r := DelegateList.copyAndCompress (oldDlgs.take num)
                { dlgListDst with cls := (D dlg).cls } 0
              let r := DelegateList.copyAndCompress (oldDlgs.drop (num + 1)) r.1 r.2
              .ok (.list { r.1 with weak := weak })

/-- `Change`, with the delegates of a list: the loop, from what it has so far and what the
reference is. -/
def changeList (fCombine fWeak : Bool) : List (Option DelegateId) → DelegateRef → DelegateRef →
    Except HResult DelegateRef
  | [], _, reference => .ok reference
  | none :: newDlgs, intermediate, reference =>
      changeList fCombine fWeak newDlgs intermediate reference
  | some dlg :: newDlgs, intermediate, _ =>
      match changeDelegate D room intermediate dlg fCombine fWeak with
      | .error e => .error e
      | .ok reference => changeList fCombine fWeak newDlgs reference reference

/-- `Change` -/
def change (delegateSrc delegateTarget : DelegateBlock) (fCombine fWeak : Bool) :
    Except HResult DelegateRef :=
  match delegateSrc, delegateTarget with
  | .object src, .object .null => .ok src
  | .object src, .object (.list dlgs) =>
      changeList D room fCombine fWeak dlgs.delegates src .null
  | .object src, .object (.delegate dlg) => changeDelegate D room src dlg fCombine fWeak
  | _, _ => .error .wrongType

/-- `Combine` -/
def combine (delegateSrc delegateNew : DelegateBlock) (fWeak : Bool) : Except HResult DelegateRef :=
  change D room delegateSrc delegateNew true fWeak

/-- `Remove` -/
def remove (delegateSrc delegateOld : DelegateBlock) : Except HResult DelegateRef :=
  change D room delegateSrc delegateOld false false

/-! ## What a value invokes -/

/-- The delegates that were not collected. -/
def DelegateRef.live (ref : DelegateRef) : List DelegateId := ref.oldDlgs.reduceOption

/-- The first delegate that is the same as another is removed. -/
def removeFirst (l : List DelegateId) (dlg : DelegateId) : List DelegateId :=
  l.eraseP (sameDelegate D dlg)

/-- One delegate of the target after the other is appended or removed. -/
def changed (fCombine : Bool) (l : List DelegateId) (dlg : DelegateId) : List DelegateId :=
  if fCombine then l ++ [dlg] else removeFirst D l dlg

theorem foldl_changed_combine (l news : List DelegateId) :
    news.foldl (changed D true) l = l ++ news := by
  induction news generalizing l with
  | nil => rw [List.foldl_nil, List.append_nil]
  | cons dlg news ih =>
      rw [List.foldl_cons, ih]
      show l ++ [dlg] ++ news = l ++ dlg :: news
      rw [List.append_assoc, List.singleton_append]

theorem foldl_changed_remove (l olds : List DelegateId) :
    olds.foldl (changed D false) l = olds.foldl (removeFirst D) l := rfl

variable {D : DelegateId → Delegate} {room : Nat → Bool}

theorem matchesEntry_none (dlg : DelegateId) : matchesEntry D dlg none = false := rfl

theorem matchesEntry_some (dlg ptr : DelegateId) :
    matchesEntry D dlg (some ptr) = sameDelegate D dlg ptr := rfl

/-- Nothing matches: nothing is removed. -/
theorem removeFirst_of_findIdx?_none {entries : List (Option DelegateId)} {dlg : DelegateId}
    (h : entries.findIdx? (matchesEntry D dlg) = none) :
    removeFirst D entries.reduceOption dlg = entries.reduceOption := by
  apply List.eraseP_of_forall_not
  intro ptr hptr hsame
  have hentry := List.findIdx?_eq_none_iff.mp h (some ptr) (List.reduceOption_mem_iff.mp hptr)
  rw [matchesEntry_some] at hentry
  rw [hentry] at hsame
  cases hsame

/-- The entry that matches first is left out. -/
theorem removeFirst_of_findIdx?_some {entries : List (Option DelegateId)} {dlg : DelegateId}
    {num : Nat} (h : entries.findIdx? (matchesEntry D dlg) = some num) :
    removeFirst D entries.reduceOption dlg =
      (entries.take num).reduceOption ++ (entries.drop (num + 1)).reduceOption := by
  induction entries generalizing num with
  | nil => cases h
  | cons entry entries ih =>
      rw [List.findIdx?_cons] at h
      cases hentry : matchesEntry D dlg entry with
      | true =>
          rw [hentry, if_pos rfl] at h
          cases h
          cases entry with
          | none => cases hentry
          | some ptr =>
              have hsame : sameDelegate D dlg ptr = true := hentry
              rw [List.reduceOption_cons_of_some, removeFirst, List.eraseP_cons_of_pos hsame]
              rfl
      | false =>
          rw [hentry, if_neg Bool.false_ne_true] at h
          obtain ⟨num', hnum, rfl⟩ := Option.map_eq_some_iff.mp h
          cases entry with
          | none =>
              rw [List.reduceOption_cons_of_none, List.take_succ_cons,
                List.reduceOption_cons_of_none, List.drop_succ_cons]
              exact ih hnum
          | some ptr =>
              rw [List.reduceOption_cons_of_some, List.take_succ_cons,
                List.reduceOption_cons_of_some, List.drop_succ_cons, removeFirst,
                List.eraseP_cons_of_neg (by
                  rw [matchesEntry_some] at hentry
                  rw [hentry]
                  exact Bool.false_ne_true), List.cons_append]
              exact congrArg _ (ih hnum)

namespace DelegateList

/-- The entries that are left are moved together, and the length is reduced by the others. -/
theorem copyAndCompress_eq (src : List (Option DelegateId)) (dlgs : DelegateList) (dst : Nat)
    (hroom : dst + src.reduceOption.length ≤ dlgs.slots.length) :
    copyAndCompress src dlgs dst =
      ({ dlgs with
          length := dlgs.length - (src.length - src.reduceOption.length)
          slots := dlgs.slots.splice dst (src.reduceOption.map some) },
        dst + src.reduceOption.length) := by
  induction src generalizing dlgs dst with
  | nil => simp [copyAndCompress, List.reduceOption_nil]
  | cons entry src ih =>
      cases entry with
      | none =>
          have hle := List.reduceOption_length_le src
          rw [List.reduceOption_cons_of_none] at hroom ⊢
          rw [copyAndCompress, ih { dlgs with length := dlgs.length - 1 } dst hroom,
            List.length_cons, Nat.sub_sub, Nat.add_comm 1, Nat.sub_add_comm hle]
      | some dlg =>
          rw [List.reduceOption_cons_of_some, List.length_cons] at hroom
          have hspliced := @List.splice_set_head _ dlgs.slots (src.reduceOption.map some) dst (by
            rw [List.length_map]
            omega) (some dlg)
          rw [copyAndCompress,
            ih { dlgs with slots := dlgs.slots.set dst (some dlg) } (dst + 1) (by
              rw [List.length_set]
              omega),
            List.reduceOption_cons_of_some, List.length_cons, List.length_cons,
            Nat.add_sub_add_right, List.map_cons, hspliced, Nat.add_assoc, Nat.add_comm 1]

/-- A list whose first entries were written, and which is as long as they are. -/
theorem live_of_splice {cls length : Nat} {slots : List (Option DelegateId)} {weak : Bool}
    {items : List DelegateId} (hlength : length = items.length) :
    (DelegateRef.list
      { cls := cls, length := length, slots := slots.splice 0 (items.map some), weak := weak }).live =
      items := by
  have hentries : (slots.splice 0 (items.map some)).take length = items.map some := by
    rw [hlength, ← @List.length_map _ _ items some]
    exact List.take_splice_zero
  show ((slots.splice 0 (items.map some)).take length).reduceOption = items
  rw [hentries, List.reduceOption, List.filterMap_map]
  exact List.filterMap_some

/-- The list `Combine` makes. -/
theorem live_combined (oldDlgs : List (Option DelegateId)) (dlg : DelegateId) (cls : Nat)
    (weak : Bool) :
    let r := copyAndCompress oldDlgs
      ⟨cls, oldDlgs.length + 1, List.replicate (oldDlgs.length + 1) none, false⟩ 0
    (DelegateRef.list { r.1 with slots := r.1.slots.set r.2 (some dlg), weak := weak }).live =
      oldDlgs.reduceOption ++ [dlg] := by
  have hle := List.reduceOption_length_le oldDlgs
  have hset := @List.set_splice_last _ (List.replicate (oldDlgs.length + 1) none)
    (oldDlgs.reduceOption.map some) 0 (by
      rw [List.length_map, List.length_replicate]
      omega) (some dlg)
  rw [List.length_map, ← List.map_singleton, ← List.map_append] at hset
  rw [copyAndCompress_eq _ _ _ (by
    rw [List.length_replicate]
    omega)]
  simp only [hset]
  apply live_of_splice
  rw [List.length_append, List.length_singleton]
  omega

/-- The list `Remove` makes. -/
theorem live_removed (oldDlgs : List (Option DelegateId)) {num : Nat} (hnum : num < oldDlgs.length)
    (cls : Nat) (weak : Bool) :
    let r := copyAndCompress (oldDlgs.take num)
      ⟨cls, oldDlgs.length - 1, List.replicate (oldDlgs.length - 1) none, false⟩ 0
    let r := copyAndCompress (oldDlgs.drop (num + 1)) r.1 r.2
    (DelegateRef.list { r.1 with weak := weak }).live =
      (oldDlgs.take num).reduceOption ++ (oldDlgs.drop (num + 1)).reduceOption := by
  have htake := List.reduceOption_length_le (oldDlgs.take num)
  have hdrop := List.reduceOption_length_le (oldDlgs.drop (num + 1))
  rw [List.length_take_of_le hnum.le] at htake
  rw [List.length_drop] at hdrop
  have hspliced := @List.splice_splice _ (List.replicate (oldDlgs.length - 1) none)
    ((oldDlgs.take num).reduceOption.map some) 0
    ((oldDlgs.drop (num + 1)).reduceOption.map some) (by
      rw [List.length_map, List.length_map, List.length_replicate]
      omega)
  rw [List.length_map, ← List.map_append] at hspliced
  rw [copyAndCompress_eq _ _ _ (by
    rw [List.length_replicate]
    omega)]
  simp only
  rw [copyAndCompress_eq _ _ _ (by
    simp only
    rw [List.length_splice (by
      rw [List.length_map, List.length_replicate]
      omega), List.length_replicate]
    omega)]
  simp only [hspliced]
  apply live_of_splice
  rw [List.length_append, List.length_take_of_le hnum.le, List.length_drop]
  omega

end DelegateList

/-- What a change by one delegate does. -/
theorem changeDelegate_live {src ref : DelegateRef} {dlg : DelegateId} {fCombine fWeak : Bool}
    (h : changeDelegate D room src dlg fCombine fWeak = .ok ref) :
    ref.live = changed D fCombine src.live dlg := by
  rw [changeDelegate] at h
  simp only [DelegateList.createInstance] at h
  cases fCombine with
  | true =>
      rw [if_pos rfl] at h
      show ref.live = src.live ++ [dlg]
      split at h
      · next hempty =>
          cases h
          rw [DelegateRef.live, DelegateRef.live, List.length_eq_zero_iff.mp hempty.1]
          rfl
      · split at h
        · cases h
        · next hcreate =>
            split at hcreate
            · cases hcreate
              cases h
              exact DelegateList.live_combined src.oldDlgs dlg (D dlg).cls _
            · cases hcreate
  | false =>
      rw [if_neg Bool.false_ne_true] at h
      show ref.live = removeFirst D src.live dlg
      split at h
      · next hnone =>
          cases h
          exact (removeFirst_of_findIdx?_none hnone).symm
      · next num hnum =>
          have hlt := (List.findIdx?_eq_some_iff_getElem.mp hnum).1
          rw [DelegateRef.live, DelegateRef.live, removeFirst_of_findIdx?_some hnum]
          split at h
          · next htwo =>
              cases h
              obtain ⟨a, b, hab⟩ := List.length_eq_two.mp htwo.1
              rw [hab] at hlt ⊢
              have hcases : num = 0 ∨ num = 1 := by
                simp only [List.length_cons, List.length_nil] at hlt
                omega
              rcases hcases with rfl | rfl
              · cases b <;> rfl
              · cases a <;> rfl
          · split at h
            · next hone =>
                cases h
                obtain ⟨a, ha⟩ := List.length_eq_one_iff.mp hone
                rw [ha] at hlt ⊢
                obtain rfl : num = 0 := by
                  simp only [List.length_cons, List.length_nil] at hlt
                  omega
                rfl
            · split at h
              · cases h
              · next hcreate =>
                  split at hcreate
                  · cases hcreate
                    cases h
                    exact DelegateList.live_removed src.oldDlgs hlt (D dlg).cls _
                  · cases hcreate

/-- A change fails only for want of room. -/
theorem changeDelegate_error {src : DelegateRef} {dlg : DelegateId} {fCombine fWeak : Bool}
    {e : HResult} (h : changeDelegate D room src dlg fCombine fWeak = .error e) :
    e = .outOfMemory ∧ ∃ n, room n = false := by
  have hcreate : ∀ n, DelegateList.createInstance room n = .error e →
      e = .outOfMemory ∧ ∃ n, room n = false := by
    intro n hn
    rw [DelegateList.createInstance] at hn
    split at hn
    · cases hn
    · next hroom =>
        cases hn
        exact ⟨rfl, n, Bool.eq_false_iff.mpr hroom⟩
  rw [changeDelegate] at h
  simp only at h
  split at h
  · split at h
    · cases h
    · split at h
      · next hr =>
          cases h
          exact hcreate _ hr
      · cases h
  · split at h
    · cases h
    · split at h
      · cases h
      · split at h
        · cases h
        · split at h
          · next hr =>
              cases h
              exact hcreate _ hr
          · cases h

/-- The loop over a list, where there is a delegate to go through or the reference is what the loop
starts with. -/
theorem changeList_live {fCombine fWeak : Bool} {newDlgs : List (Option DelegateId)}
    {intermediate reference ref : DelegateRef}
    (hstart : reference = intermediate ∨ newDlgs.reduceOption ≠ [])
    (h : changeList D room fCombine fWeak newDlgs intermediate reference = .ok ref) :
    ref.live = newDlgs.reduceOption.foldl (changed D fCombine) intermediate.live := by
  induction newDlgs generalizing intermediate reference with
  | nil =>
      cases h
      rcases hstart with rfl | hne
      · rfl
      · exact absurd rfl hne
  | cons entry newDlgs ih =>
      cases entry with
      | none => exact ih hstart h
      | some dlg =>
          rw [changeList] at h
          split at h
          · cases h
          · next reference' hchange =>
              rw [List.reduceOption_cons_of_some, List.foldl_cons, ← changeDelegate_live hchange]
              exact ih (.inl rfl) h

theorem changeList_error {fCombine fWeak : Bool} {newDlgs : List (Option DelegateId)}
    {intermediate reference : DelegateRef} {e : HResult}
    (h : changeList D room fCombine fWeak newDlgs intermediate reference = .error e) :
    e = .outOfMemory ∧ ∃ n, room n = false := by
  induction newDlgs generalizing intermediate reference with
  | nil => cases h
  | cons entry newDlgs ih =>
      cases entry with
      | none => exact ih h
      | some dlg =>
          rw [changeList] at h
          split at h
          · next hchange =>
              cases h
              exact changeDelegate_error hchange
          · exact ih h

/-- Over a list without delegates the loop does nothing, and the reference stays as it was. -/
theorem changeList_of_dead {fCombine fWeak : Bool} {newDlgs : List (Option DelegateId)}
    {intermediate reference : DelegateRef} (h : newDlgs.reduceOption = []) :
    changeList D room fCombine fWeak newDlgs intermediate reference = .ok reference := by
  induction newDlgs with
  | nil => rfl
  | cons entry newDlgs ih =>
      cases entry with
      | none => exact ih h
      | some dlg =>
          rw [List.reduceOption_cons_of_some] at h
          cases h

/-! ## Combining and removing -/

/-- A change does what it is to do, however much room there is: it leaves the source where the
target has no delegate, and fails only for want of room. -/
structure ChangeSound (src target : DelegateRef) (expected : List DelegateId)
    (result : (Nat → Bool) → Except HResult DelegateRef) : Prop where
  live : ∀ room ref, result room = .ok ref → ref.live = expected
  unchanged : target.live = [] → ∀ room ref, result room = .ok ref → ref = src
  fails : ∀ room e, result room = .error e → e = .outOfMemory ∧ ∃ n, room n = false

/-- The target is a list, and all its delegates were collected. -/
def DelegateRef.Dead (target : DelegateRef) : Prop := ∃ dlgs, target = .list dlgs ∧ target.live = []

theorem change_sound {src target : DelegateRef} (fCombine fWeak : Bool)
    (h : target.Dead → src = .null) :
    ChangeSound src target (target.live.foldl (changed D fCombine) src.live)
      fun room => change D room (.object src) (.object target) fCombine fWeak := by
  cases target with
  | null =>
      constructor
      · rintro room ref ⟨⟩
        rfl
      · rintro - room ref ⟨⟩
        rfl
      · rintro room e ⟨⟩
  | delegate dlg =>
      constructor
      · intro room ref hchange
        exact changeDelegate_live hchange
      · intro hlive
        cases hlive
      · intro room e hchange
        exact changeDelegate_error hchange
  | list dlgs =>
      have hdead : dlgs.delegates.reduceOption = [] → src = .null := fun hlive => h ⟨dlgs, rfl, hlive⟩
      constructor
      · intro room ref hchange
        refine changeList_live ?_ hchange
        by_cases hlive : dlgs.delegates.reduceOption = []
        · exact .inl (hdead hlive).symm
        · exact .inr hlive
      · intro hlive room ref hchange
        have hnull := (changeList_of_dead hlive).symm.trans hchange
        cases hnull
        exact (hdead hlive).symm
      · intro room e hchange
        exact changeList_error hchange

theorem null_of_change_sound {src target : DelegateRef} {fCombine fWeak : Bool}
    {expected : List DelegateId}
    (h : ChangeSound src target expected fun room =>
      change D room (.object src) (.object target) fCombine fWeak) (hdead : target.Dead) :
    src = .null := by
  obtain ⟨dlgs, rfl, hlive⟩ := hdead
  exact (h.unchanged hlive (fun _ => true) .null (changeList_of_dead hlive)).symm

/-- Multicast delegates are lists, except that a list whose delegates were all collected takes
everything away. -/
theorem multicast_iff (D : DelegateId → Delegate) (src target : DelegateRef) (fWeak : Bool) :
    ChangeSound src target (src.live ++ target.live)
        (fun room => combine D room (.object src) (.object target) fWeak) ∧
      ChangeSound src target (target.live.foldl (removeFirst D) src.live)
        (fun room => remove D room (.object src) (.object target)) ↔
    (target.Dead → src = .null) := by
  constructor
  · rintro ⟨hcombine, -⟩ hdead
    exact null_of_change_sound hcombine hdead
  · intro h
    have hcombine := change_sound (D := D) true fWeak h
    rw [foldl_changed_combine] at hcombine
    exact ⟨hcombine, change_sound false false h⟩

/-- A delegate combined with a list whose only delegate was collected. -/
theorem not_multicast_sample :
    ¬∀ (D : DelegateId → Delegate) (src target : DelegateRef) (fWeak : Bool),
      ChangeSound src target (src.live ++ target.live)
        (fun room => combine D room (.object src) (.object target) fWeak) := by
  intro hall
  have h := hall (fun _ => ⟨0, 0, none⟩) (.delegate 0) (.list ⟨0, 1, [none], true⟩) false
  have hlive := h.live (fun _ => true) .null (by rfl)
  cases hlive

end TinyCLR.HeapBlock
