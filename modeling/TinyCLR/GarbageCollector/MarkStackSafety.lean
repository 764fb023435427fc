import TinyCLR.GarbageCollector.MarkStack
import TinyCLR.Library.Splice
import TinyCLR.Library.TransitionSystem

/-!
# Accesses to the mark stack

The segments are one stack of ranges, and the elements that are accessed lie in their buffers, as
long as no segment is entered again that exists already, and no segment is allocated that only has
room for the sentinel.
-/

namespace TinyCLR.GarbageCollector

open TransitionSystem

/-- A segment up to its top: the sentinel, and ranges that are not empty. -/
structure MarkStack.Proper (m : MarkStack) (top : Nat) : Prop where
  length : m.elements.length = m.last + 1
  pos_last : 0 < m.last
  top_le : top ≤ m.last
  sentinel : ∀ e, m.elements[0]? = some e → e.num = 0
  pending : ∀ k e, 0 < k → k ≤ top → m.elements[k]? = some e → e.num ≠ 0

/-- The earlier segments are full, and the locals point into the current one. -/
structure Inside (c : Collector) (f : Frame) : Prop where
  markStack : c.markStack = f.stackList
  current : ∃ m, c.markStackList[f.stackList]? = some m ∧ f.stackLast = m.last ∧ m.Proper f.stack
  below : ∀ i, i < f.stackList →
    ∃ m, c.markStackList[i]? = some m ∧ m.top = m.last ∧ m.Proper m.last

/-- The ranges on a segment, and those on the whole stack. -/
def MarkStack.ranges (m : MarkStack) (top : Nat) : List MarkStackElement := m.elements.window 1 top

def ranges (c : Collector) (f : Frame) : List MarkStackElement :=
  (c.markStackList.take f.stackList).flatMap (fun m => m.ranges m.top) ++
    (c.markStackList[f.stackList]?).elim [] (·.ranges f.stack)

/-- What is left of a range when its first block has been taken. -/
def MarkStackElement.rest (e : MarkStackElement) : List MarkStackElement :=
  if e.num - 1 = 0 then [] else [⟨e.ptr + 1, e.num - 1⟩]

/-- The heap and the list of weak delegates are the same. -/
structure SameHeap (c c' : Collector) : Prop where
  data : c'.data = c.data
  alive : c'.alive = c.alive
  weak : c'.weakDelegatesReachable = c.weakDelegatesReachable
  outOfStack : c'.outOfStackSpaceForGC = c.outOfStackSpaceForGC

variable {c : Collector} {f : Frame} {allocate : Nat → Bool}

theorem SameHeap.refl (c : Collector) : SameHeap c c := ⟨rfl, rfl, rfl, rfl⟩

theorem SameHeap.trans {c₁ c₂ c₃ : Collector} (h : SameHeap c₁ c₂) (h' : SameHeap c₂ c₃) :
    SameHeap c₁ c₃ :=
  ⟨h'.data.trans h.data, h'.alive.trans h.alive, h'.weak.trans h.weak,
    h'.outOfStack.trans h.outOfStack⟩

/-- Only the stack matters. -/
theorem Inside.of_stack_eq (h : Inside c f) {c' : Collector} {f' : Frame}
    (hlist : c'.markStackList = c.markStackList) (hmark : c'.markStack = c.markStack)
    (hstackList : f'.stackList = f.stackList) (hstack : f'.stack = f.stack)
    (hlast : f'.stackLast = f.stackLast) : Inside c' f' := by
  constructor
  · rw [hmark, hstackList]
    exact h.markStack
  · rw [hlist, hstackList, hstack, hlast]
    exact h.current
  · rw [hlist, hstackList]
    exact h.below

/-! ## One segment -/

namespace MarkStack

variable {m : MarkStack} {top k : Nat} {e : MarkStackElement}

theorem Proper.getElem? (h : m.Proper top) (hk : k ≤ m.last) :
    ∃ e, m.elements[k]? = some e := by
  have hlength := h.length
  have hlt : k < m.elements.length := by omega
  exact ⟨m.elements[k], List.getElem?_eq_getElem hlt⟩

/-- A segment that has been left or entered. -/
theorem Proper.of_elements (h : m.Proper top) (top' : Nat) :
    MarkStack.Proper { m with top := top' } top :=
  ⟨h.length, h.pos_last, h.top_le, h.sentinel, h.pending⟩

/-- The topmost range is replaced by a shorter one. -/
theorem Proper.set_top (h : m.Proper top) (htop : 0 < top) (he : e.num ≠ 0) :
    MarkStack.Proper { m with elements := m.elements.set top e } top := by
  constructor
  · rw [List.length_set]
    exact h.length
  · exact h.pos_last
  · exact h.top_le
  · intro e' he'
    rw [List.getElem?_set_ne (by omega)] at he'
    exact h.sentinel e' he'
  · intro k e' hk hle he'
    rw [List.getElem?_set] at he'
    by_cases hktop : top = k
    · rw [if_pos hktop] at he'
      split at he'
      · cases he'
        exact he
      · cases he'
    · rw [if_neg hktop] at he'
      exact h.pending k e' hk hle he'

/-- The topmost range is removed; its element may hold anything. -/
theorem Proper.remove_top (h : m.Proper (k + 1)) (e : MarkStackElement) :
    MarkStack.Proper { m with elements := m.elements.set (k + 1) e } k := by
  constructor
  · rw [List.length_set]
    exact h.length
  · exact h.pos_last
  · exact (Nat.le_succ k).trans h.top_le
  · intro e' he'
    rw [List.getElem?_set_ne (by omega)] at he'
    exact h.sentinel e' he'
  · intro j e' hj hle he'
    rw [List.getElem?_set_ne (by omega)] at he'
    exact h.pending j e' hj (by omega) he'

/-- A range is put on the segment. -/
theorem Proper.add_top (h : m.Proper k) (hk : k < m.last) (he : e.num ≠ 0) :
    MarkStack.Proper { m with elements := m.elements.set (k + 1) e } (k + 1) := by
  constructor
  · rw [List.length_set]
    exact h.length
  · exact h.pos_last
  · exact hk
  · intro e' he'
    rw [List.getElem?_set_ne (by omega)] at he'
    exact h.sentinel e' he'
  · intro j e' hj hle he'
    rw [List.getElem?_set] at he'
    by_cases hjk : k + 1 = j
    · rw [if_pos hjk] at he'
      split at he'
      · cases he'
        exact he
      · cases he'
    · rw [if_neg hjk] at he'
      exact h.pending j e' hj (by omega) he'

/-- The ranges of a segment end with the topmost one. -/
theorem ranges_succ (he : m.elements[k + 1]? = some e) :
    m.ranges (k + 1) = m.ranges k ++ [e] := by
  apply List.window_succ
  rwa [Nat.add_comm]

theorem ranges_set (m : MarkStack) (k : Nat) (e : MarkStackElement) :
    MarkStack.ranges { m with elements := m.elements.set (k + 1) e } k = m.ranges k :=
  List.window_set (Nat.add_comm 1 k).le e

/-- The topmost range after it has been written. -/
theorem Proper.ranges_set_succ (h : m.Proper top) (hk : k < m.last) (e : MarkStackElement) :
    MarkStack.ranges { m with elements := m.elements.set (k + 1) e } (k + 1) =
      m.ranges k ++ [e] := by
  have hlength := h.length
  rw [MarkStack.ranges_succ (e := e), ranges_set]
  exact List.getElem?_set_self (by omega)

/-- A segment with room for a range. -/
theorem initialized_proper {n : Nat} (hn : 2 ≤ n) : MarkStack.Proper (.initialized n) 0 := by
  constructor
  · simp only [MarkStack.initialized, List.length_replicate]
    omega
  · simp only [MarkStack.initialized]
    omega
  · exact Nat.zero_le _
  · intro e he
    rw [List.eq_of_mem_replicate (List.mem_of_getElem? he)]
  · intro k e hk hle
    omega

end MarkStack

/-! ## The segments -/

theorem take_modify {α : Type} (l : List α) (i : Nat) (g : α → α) :
    (l.modify i g).take i = l.take i := by
  apply List.ext_getElem?
  intro j
  rw [List.getElem?_take, List.getElem?_take]
  by_cases hj : j < i
  · rw [if_pos hj, if_pos hj, List.getElem?_modify_ne _ _ (by omega)]
  · rw [if_neg hj, if_neg hj]

variable {m : MarkStack}

theorem element_of_current (hm : c.markStackList[f.stackList]? = some m) (k : Nat) :
    c.element f.stackList k = m.elements[k]? := by
  rw [Collector.element, hm, Option.bind_some]

theorem ranges_of_current (hm : c.markStackList[f.stackList]? = some m) :
    ranges c f =
      (c.markStackList.take f.stackList).flatMap (fun m => m.ranges m.top) ++ m.ranges f.stack := by
  rw [ranges, hm]
  rfl

theorem getElem?_setElement (hm : c.markStackList[f.stackList]? = some m) (k : Nat)
    (e : MarkStackElement) : (c.setElement f.stackList k e).markStackList[f.stackList]? =
      some { m with elements := m.elements.set k e } := by
  rw [Collector.setElement, List.getElem?_modify_eq, hm]
  rfl

/-- An element of the current segment is written. -/
theorem Inside.setElement (h : Inside c f) (hm : c.markStackList[f.stackList]? = some m)
    {k top : Nat} {e : MarkStackElement}
    (hproper : MarkStack.Proper { m with elements := m.elements.set k e } top) :
    Inside (c.setElement f.stackList k e) { f with stack := top } ∧
      ranges (c.setElement f.stackList k e) { f with stack := top } =
        (c.markStackList.take f.stackList).flatMap (fun m => m.ranges m.top) ++
          MarkStack.ranges { m with elements := m.elements.set k e } top := by
  have hcurrent := getElem?_setElement hm k e
  obtain ⟨m', hm', hlast, -⟩ := h.current
  rw [hm, Option.some.injEq] at hm'
  subst hm'
  refine ⟨⟨h.markStack, ⟨_, hcurrent, hlast, hproper⟩, ?_⟩, ?_⟩
  · intro i hi
    obtain ⟨m', hm', hrest⟩ := h.below i hi
    refine ⟨m', ?_, hrest⟩
    rw [Collector.setElement, List.getElem?_modify_ne _ _ (Nat.ne_of_gt hi), hm']
  · have htake : (c.setElement f.stackList k e).markStackList.take f.stackList =
        c.markStackList.take f.stackList := take_modify _ _ _
    rw [ranges, hcurrent]
    simp only
    rw [htake]
    rfl

/-- Taking a block from the topmost range. -/
theorem takeBlock_spec (h : Inside c f) {e : MarkStackElement}
    (he : c.element f.stackList f.stack = some e) (hnum : e.num ≠ 0) :
    ∃ c' f', takeBlock c f = .visiting c' f' e.ptr ∧ Inside c' f' ∧ SameHeap c c' ∧
      ∃ l, ranges c f = l ++ [e] ∧ ranges c' f' = l ++ e.rest := by
  obtain ⟨m, hm, hlast, hproper⟩ := h.current
  have helement := he
  rw [element_of_current hm] at he
  cases hstack : f.stack with
  | zero =>
      rw [hstack] at he
      exact absurd (hproper.sentinel e he) hnum
  | succ k =>
      rw [hstack] at he hproper
      have hbefore : ranges c f =
          ((c.markStackList.take f.stackList).flatMap (fun m => m.ranges m.top) ++ m.ranges k) ++
            [e] := by
        rw [ranges_of_current hm, hstack, MarkStack.ranges_succ he, List.append_assoc]
      by_cases hone : e.num - 1 = 0
      · obtain ⟨hinside, hranges⟩ := h.setElement hm
          (hproper.remove_top ⟨e.ptr + 1, e.num - 1⟩)
        refine ⟨_, _, ?_, hinside, ⟨rfl, rfl, rfl, rfl⟩, _, hbefore, ?_⟩
        · rw [takeBlock, helement]
          simp only [if_pos hone, hstack]
        · rw [hranges, MarkStack.ranges_set, MarkStackElement.rest, if_pos hone, List.append_nil]
      · obtain ⟨hinside, hranges⟩ := h.setElement hm
          (hproper.set_top (e := ⟨e.ptr + 1, e.num - 1⟩) (Nat.succ_pos k) hone)
        refine ⟨_, _, ?_, hinside, ⟨rfl, rfl, rfl, rfl⟩, _, hbefore, ?_⟩
        · rw [takeBlock, helement]
          simp only [if_neg hone, hstack]
          rw [← hstack]
        · rw [hranges, hproper.ranges_set_succ (by have := hproper.top_le; omega),
            MarkStackElement.rest, if_neg hone, List.append_assoc]

/-! ## Leaving and entering segments -/

/-- The current segment when the locals have been saved. -/
theorem getElem?_saveState (h : Inside c f) (hm : c.markStackList[f.stackList]? = some m) :
    (c.saveState f).markStackList[f.stackList]? =
      some { m with
        last := f.stackLast
        top := f.stack } := by
  simp only [Collector.saveState, h.markStack]
  rw [List.getElem?_modify_eq, hm]
  rfl

theorem loadState_of_getElem? (hm : c.markStackList[c.markStack]? = some m) (lst : Address)
    (num : UInt32) : c.loadState lst num = ⟨c.markStack, m.top, m.last, lst, num⟩ := by
  rw [Collector.loadState, hm]

/-- What is saved is loaded again. -/
theorem loadState_saveState (h : Inside c f) (lst : Address) (num : UInt32) :
    (c.saveState f).loadState lst num = ⟨f.stackList, f.stack, f.stackLast, lst, num⟩ := by
  obtain ⟨m, hm, -⟩ := h.current
  exact loadState_of_getElem? (getElem?_saveState h hm) lst num

theorem inside_saveState (h : Inside c f) : Inside (c.saveState f) f := by
  obtain ⟨m, hm, hlast, hproper⟩ := h.current
  refine ⟨rfl, ⟨_, getElem?_saveState h hm, rfl, ?_⟩, ?_⟩
  · rw [hlast]
    exact hproper.of_elements f.stack
  · intro i hi
    obtain ⟨m', hm', hrest⟩ := h.below i hi
    refine ⟨m', ?_, hrest⟩
    simp only [Collector.saveState, h.markStack]
    rw [List.getElem?_modify_ne _ _ (Nat.ne_of_gt hi), hm']

theorem take_saveState (h : Inside c f) :
    (c.saveState f).markStackList.take f.stackList = c.markStackList.take f.stackList := by
  simp only [Collector.saveState, h.markStack]
  exact take_modify _ _ _

theorem ranges_saveState (h : Inside c f) : ranges (c.saveState f) f = ranges c f := by
  obtain ⟨m, hm, -⟩ := h.current
  rw [ranges_of_current hm, ranges_of_current (getElem?_saveState h hm), take_saveState h]
  rfl

/-- An exhausted segment is left for the one before. -/
theorem leave_spec (h : Inside c f) {previous : Nat} (hprevious : f.stackList = previous + 1)
    (hempty : m.ranges f.stack = []) (hm : c.markStackList[f.stackList]? = some m) :
    ∃ e, Inside { c.saveState f with markStack := previous }
        (Collector.loadState { c.saveState f with markStack := previous } f.lst f.num) ∧
      ranges { c.saveState f with markStack := previous }
        (Collector.loadState { c.saveState f with markStack := previous } f.lst f.num) =
          ranges c f ∧
      Collector.element { c.saveState f with markStack := previous }
        (Collector.loadState { c.saveState f with markStack := previous } f.lst f.num).stackList
        (Collector.loadState { c.saveState f with markStack := previous } f.lst f.num).stack =
          some e ∧ e.num ≠ 0 := by
  have hsaved := inside_saveState h
  obtain ⟨m', hm', htop, hproper⟩ := hsaved.below previous (by omega)
  have hload : Collector.loadState { c.saveState f with markStack := previous } f.lst f.num =
      ⟨previous, m'.top, m'.last, f.lst, f.num⟩ := loadState_of_getElem? hm' _ _
  obtain ⟨e, he⟩ := hproper.getElem? le_rfl
  refine ⟨e, ?_, ?_, ?_, hproper.pending _ e hproper.pos_last le_rfl he⟩
  · rw [hload]
    exact ⟨rfl, ⟨m', hm', rfl, htop ▸ hproper⟩,
      fun i hi => hsaved.below i (by simp only at hi; omega)⟩
  · have hsplit : c.markStackList.take (previous + 1) =
        (c.saveState f).markStackList.take previous ++ [m'] := by
      rw [← hprevious, ← take_saveState h, hprevious, List.take_add_one, hm']
      rfl
    rw [hload, ranges_of_current hm, hempty, List.append_nil, hprevious, hsplit,
      List.flatMap_append, List.flatMap_singleton]
    exact ranges_of_current hm'
  · rw [hload]
    simp only [Collector.element, htop]
    rw [hm', Option.bind_some, he]

/-- Nothing is at hand: marking ends when no range is left, or goes on with the topmost one. -/
theorem pop_spec (h : Inside c f) :
    (ranges c f = [] ∧ pop c f = .finished (c.saveState f)) ∨
      ∃ c' f' e l, pop c f = .visiting c' f' e.ptr ∧ Inside c' f' ∧ SameHeap c c' ∧
        ranges c f = l ++ [e] ∧ ranges c' f' = l ++ e.rest ∧ e.num ≠ 0 := by
  obtain ⟨m, hm, -, hproper⟩ := h.current
  obtain ⟨e, he⟩ := hproper.getElem? hproper.top_le
  have helement := element_of_current hm f.stack
  rw [he] at helement
  by_cases hzero : e.num = 0
  · have hstack : f.stack = 0 := by
      by_contra hne
      exact hproper.pending _ e (Nat.pos_of_ne_zero hne) le_rfl he hzero
    have hempty : m.ranges f.stack = [] := by
      rw [hstack]
      exact List.window_zero
    cases hlist : f.stackList with
    | zero =>
        left
        constructor
        · rw [ranges_of_current hm, hempty, hlist]
          rfl
        · rw [pop, helement]
          simp only [if_pos hzero, hlist]
    | succ previous =>
        right
        obtain ⟨e', hinside, hranges, hget, hnum⟩ := leave_spec h hlist hempty hm
        obtain ⟨c', f', htake, hnext, hsame, l, hbefore, hafter⟩ := takeBlock_spec hinside hget hnum
        have hleft : SameHeap c { c.saveState f with markStack := previous } :=
          ⟨rfl, rfl, rfl, rfl⟩
        refine ⟨c', f', e', l, ?_, hnext, hleft.trans hsame, hranges.symm.trans hbefore, hafter,
          hnum⟩
        rw [pop, helement]
        simp only [if_pos hzero, hlist]
        exact htake
  · right
    obtain ⟨c', f', htake, hnext, hsame, l, hbefore, hafter⟩ := takeBlock_spec h helement hzero
    refine ⟨c', f', e, l, ?_, hnext, hsame, hbefore, hafter, hzero⟩
    rw [pop, helement]
    simp only [if_neg hzero]
    exact htake

/-! ## Room for a range -/

/-- There is room for a range without entering an existing segment, and not only for a sentinel. -/
def HasRoom (allocate : Nat → Bool) (c : Collector) (f : Frame) : Prop :=
  f.stack = f.stackLast → f.stackList + 1 = c.markStackList.length ∧
    (c.outOfStackSpaceForGC = false → firstFit allocate ≠ some 1)

theorem stackList_lt (h : Inside c f) : f.stackList < c.markStackList.length := by
  obtain ⟨m, hm, -⟩ := h.current
  exact (List.getElem?_eq_some_iff.mp hm).1

theorem pos_of_firstFit {cElement : Nat} (h : firstFit allocate = some cElement) :
    0 < cElement := by
  have hmem := List.mem_of_find?_eq_some h
  have hall : ∀ n ∈ segmentSizes, 0 < n := by decide
  exact hall cElement hmem

/-- A segment is appended and becomes the current one. -/
def extended (c : Collector) (f : Frame) (cElement : Nat) : Collector :=
  { c.saveState f with
    markStackList := (c.saveState f).markStackList ++ [.initialized cElement]
    markStack := (c.saveState f).markStackList.length }

theorem length_saveState : (c.saveState f).markStackList.length = c.markStackList.length := by
  simp only [Collector.saveState, List.length_modify]

theorem getElem?_extended (cElement : Nat) :
    (extended c f cElement).markStackList[c.markStackList.length]? =
      some (.initialized cElement) := by
  simp only [extended]
  rw [List.getElem?_append_right length_saveState.le, length_saveState, Nat.sub_self]
  rfl

theorem loadState_extended (cElement : Nat) (lst : Address) (num : UInt32) :
    (extended c f cElement).loadState lst num =
      ⟨c.markStackList.length, 0, cElement - 1, lst, num⟩ := by
  have hcurrent : (extended c f cElement).markStack = c.markStackList.length := length_saveState
  have hget := getElem?_extended (c := c) (f := f) cElement
  rw [← hcurrent] at hget
  rw [loadState_of_getElem? hget, hcurrent]
  rfl

theorem extended_spec (h : Inside c f) (hfull : f.stack = f.stackLast)
    (hend : f.stackList + 1 = c.markStackList.length) {cElement : Nat} (hlong : 2 ≤ cElement)
    (lst : Address) (num : UInt32) :
    Inside (extended c f cElement) ⟨c.markStackList.length, 0, cElement - 1, lst, num⟩ ∧
      ranges (extended c f cElement) ⟨c.markStackList.length, 0, cElement - 1, lst, num⟩ =
        ranges c f := by
  obtain ⟨m, hm, hmlast, hproper⟩ := h.current
  have hleft := getElem?_saveState h hm
  have hlow : ∀ i, i < c.markStackList.length →
      (extended c f cElement).markStackList[i]? = (c.saveState f).markStackList[i]? := by
    intro i hi
    simp only [extended]
    rw [List.getElem?_append_left (by rwa [length_saveState])]
  refine ⟨⟨length_saveState, ⟨_, getElem?_extended cElement, rfl,
    MarkStack.initialized_proper hlong⟩, ?_⟩,
    ?_⟩
  · intro i hi
    rw [hlow i hi]
    by_cases hbelow : i < f.stackList
    · exact (inside_saveState h).below i hbelow
    · -- The segment that is left is full.
      obtain rfl : i = f.stackList := by
        simp only at hi
        omega
      rw [hfull.trans hmlast] at hproper
      refine ⟨_, hleft, hfull, ?_⟩
      rw [hmlast]
      exact hproper.of_elements f.stack
  · have htake : (extended c f cElement).markStackList.take c.markStackList.length =
        c.markStackList.take f.stackList ++ [{ m with last := f.stackLast, top := f.stack }] := by
      have hall : (c.saveState f).markStackList =
          (c.saveState f).markStackList.take (f.stackList + 1) := by
        rw [hend, ← @length_saveState c f, List.take_length]
      simp only [extended]
      rw [List.take_left' length_saveState, hall, List.take_add_one, hleft, take_saveState h]
      rfl
    rw [ranges_of_current (getElem?_extended cElement), htake, ranges_of_current hm,
      List.flatMap_append, List.flatMap_singleton]
    exact List.append_nil _

/-- Where there is room, the locals point to a place behind which a range fits. -/
theorem makeRoom_spec (h : Inside c f) (hroom : HasRoom allocate c f) :
    makeRoom allocate c f = none ∨
      ∃ c' f', makeRoom allocate c f = some (c', f') ∧ Inside c' f' ∧ SameHeap c c' ∧
        ranges c' f' = ranges c f ∧ f'.stack < f'.stackLast ∧ f'.lst = f.lst ∧
          f'.num = f.num := by
  by_cases hfull : f.stack = f.stackLast
  · obtain ⟨hend, hfit⟩ := hroom hfull
    rw [makeRoom, if_pos hfull, if_neg (by omega)]
    by_cases hout : c.outOfStackSpaceForGC = true
    · left
      rw [if_pos hout]
    · rw [if_neg hout]
      cases hfirst : firstFit allocate with
      | none => exact .inl rfl
      | some cElement =>
          right
          have hone : cElement ≠ 1 := fun heq => hfit (by simpa using hout) (heq ▸ hfirst)
          have hpos := pos_of_firstFit hfirst
          obtain ⟨hinside, hranges⟩ := @extended_spec c f h hfull hend cElement (by omega) f.lst f.num
          refine ⟨extended c f cElement, ⟨c.markStackList.length, 0, cElement - 1, f.lst, f.num⟩,
            ?_, hinside, ⟨rfl, rfl, rfl, rfl⟩, hranges, ?_, rfl, rfl⟩
          · rw [← loadState_extended]
            rfl
          · show 0 < cElement - 1
            omega
  · right
    obtain ⟨m, hm, hmlast, hproper⟩ := h.current
    have htop := hproper.top_le
    exact ⟨c, f, by rw [makeRoom, if_neg hfull], h, .refl c, rfl, by omega, rfl, rfl⟩

theorem sub_one_ne_zero {num : UInt32} (h : 1 < num) : num - 1 ≠ 0 := by
  intro hzero
  have hone : num = 1 := by
    rw [← UInt32.sub_add_cancel num 1, hzero]
    rfl
  rw [hone] at h
  exact absurd h (by decide)

/-- A range of several blocks is left out, or all but its first block are put on the stack. -/
theorem push_spec (h : Inside c f) (hnum : 1 < f.num) (hroom : HasRoom allocate c f) :
    (push allocate c f = .dropped { c with outOfStackSpaceForGC := true }
      { f with
        lst := 0
        num := 0 }) ∨
      ∃ c' f', push allocate c f = .visiting c' f' f.lst ∧ Inside c' f' ∧ SameHeap c c' ∧
        ranges c' f' = ranges c f ++ [⟨f.lst + 1, f.num - 1⟩] := by
  rcases makeRoom_spec h hroom with
    hnone | ⟨c', f', hsome, hinside, hsame, hranges, hlt, hlst, hnumEq⟩
  · left
    rw [push, hnone]
  · right
    obtain ⟨m, hm, hmlast, hproper⟩ := hinside.current
    rw [hmlast] at hlt
    obtain ⟨e, he⟩ := hproper.getElem? (Nat.succ_le_of_lt hlt)
    rw [← element_of_current hm] at he
    have hrest : f'.num - 1 ≠ 0 := by
      rw [hnumEq]
      exact sub_one_ne_zero hnum
    obtain ⟨hinside', hranges'⟩ := hinside.setElement hm
      (hproper.add_top (e := ⟨f'.lst + 1, f'.num - 1⟩) hlt hrest)
    refine ⟨_, _, ?_, hinside', hsame.trans ⟨rfl, rfl, rfl, rfl⟩, ?_⟩
    · rw [push, hsome]
      simp only [he, hlst]
    · rw [hranges', hproper.ranges_set_succ hlt, ← hranges, ranges_of_current hm, List.append_assoc,
        hlst, hnumEq]

/-- Where there is not, an element behind the last one is written. -/
theorem push_outside (h : Inside c f) (hroom : ¬HasRoom allocate c f) :
    push allocate c f = .outside := by
  have hlt := stackList_lt h
  obtain ⟨m, hm, hmlast, hproper⟩ := h.current
  have hlength := hproper.length
  rw [HasRoom, Classical.not_imp] at hroom
  obtain ⟨hfull, hbad⟩ := hroom
  by_cases hend : f.stackList + 1 < c.markStackList.length
  · have hroomEq : makeRoom allocate c f =
        some (c.saveState f, ⟨f.stackList, f.stack, f.stackLast, f.lst, f.num⟩) := by
      rw [makeRoom, if_pos hfull, if_pos hend]
      simp only
      rw [loadState_saveState h]
    have hnone : (c.saveState f).element f.stackList (f.stack + 1) = none := by
      rw [element_of_current (getElem?_saveState h hm)]
      exact List.getElem?_eq_none (by simp only; omega)
    rw [push, hroomEq]
    simp only [hnone]
  · have hone : c.outOfStackSpaceForGC = false ∧ firstFit allocate = some 1 := by
      by_contra hnot
      apply hbad
      exact ⟨by omega, fun hout hfit => hnot ⟨hout, hfit⟩⟩
    have hroomEq : makeRoom allocate c f =
        some (extended c f 1, ⟨c.markStackList.length, 0, 0, f.lst, f.num⟩) := by
      rw [makeRoom, if_pos hfull, if_neg hend, hone.1, hone.2]
      simp only [Bool.false_eq_true, if_false]
      rw [← loadState_extended 1]
      rfl
    have hnone : (extended c f 1).element c.markStackList.length (0 + 1) = none := by
      rw [Collector.element, getElem?_extended]
      rfl
    rw [push, hroomEq]
    simp only [hnone]

end TinyCLR.GarbageCollector
