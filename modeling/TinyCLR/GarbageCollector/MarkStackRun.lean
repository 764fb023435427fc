import TinyCLR.GarbageCollector.MarkStackSafety

/-!
# Runs on the mark stack

Calls for any ranges of any heap graphs, one after the other, with any outcome of the allocation of
segments. Every element that is accessed lies in the buffer of a segment, exactly as long as there
is room whenever a range is put on the stack.
-/

namespace TinyCLR.GarbageCollector

open TransitionSystem

variable {c : Collector} {f : Frame} {allocate : Nat → Bool}

theorem visit_markStackList (c : Collector) (ptr : Address) :
    (visit c ptr).1.markStackList = c.markStackList := by
  unfold visit
  simp only
  split <;> rfl

theorem visit_markStack (c : Collector) (ptr : Address) :
    (visit c ptr).1.markStack = c.markStack := by
  unfold visit
  simp only
  split <;> rfl

/-- A turn ends the call, with what is loaded by the next one, or leads to the next turn. -/
theorem iterate_spec (h : Inside c f) (hroom : 1 < f.num → HasRoom allocate c f) :
    iterate allocate c f = .finished (c.saveState f) ∨
      ∃ c' f', iterate allocate c f = .running c' f' ∧ Inside c' f' := by
  have hvisit : ∀ c' f' ptr, advance allocate c f = .visiting c' f' ptr → Inside c' f' →
      ∃ c' f', iterate allocate c f = .running c' f' ∧ Inside c' f' := by
    intro c' f' ptr hadvance hinside
    refine ⟨(visit c' ptr).1, { f' with lst := (visit c' ptr).2.1, num := (visit c' ptr).2.2 },
      ?_, ?_⟩
    · rw [iterate, hadvance]
    · exact hinside.of_stack_eq (visit_markStackList c' ptr) (visit_markStack c' ptr) rfl rfl rfl
  by_cases hzero : f.num = 0
  · have hadvance : advance allocate c f = pop c f := by
      rw [advance, if_pos hzero]
    rcases pop_spec h with ⟨-, hpop⟩ | ⟨c', f', e, -, hpop, hinside, -⟩
    · left
      rw [iterate, hadvance, hpop]
    · right
      exact hvisit c' f' e.ptr (hadvance.trans hpop) hinside
  · right
    by_cases hseveral : 1 < f.num
    · have hadvance : advance allocate c f = push allocate c f := by
        rw [advance, if_neg hzero, if_pos hseveral]
      rcases push_spec h hseveral (hroom hseveral) with hpush | ⟨c', f', hpush, hinside, -⟩
      · refine ⟨{ c with outOfStackSpaceForGC := true }, { f with lst := 0, num := 0 }, ?_,
          h.of_stack_eq rfl rfl rfl rfl rfl⟩
        rw [iterate, hadvance, hpush]
      · exact hvisit c' f' f.lst (hadvance.trans hpush) hinside
    · apply hvisit c f f.lst _ h
      rw [advance, if_neg hzero, if_neg hseveral]

theorem iterate_outside (h : Inside c f) (hseveral : 1 < f.num) (hroom : ¬HasRoom allocate c f) :
    iterate allocate c f = .outside := by
  have hzero : f.num ≠ 0 := by
    rintro hzero
    rw [hzero] at hseveral
    exact absurd hseveral (by decide)
  rw [iterate, advance, if_neg hzero, if_pos hseveral, push_outside h hroom]

/-! ## Runs -/

/-- The collector during `Mark`, between calls or within one. -/
structure State where
  collector : Collector
  frame : Option Frame

/-- A call finds the heap as other code has left it. -/
inductive Action where
  | call (data : Address → Data) (alive : Address → Bool) (lst : Address) (num : UInt32)
  | iterate (allocate : Nat → Bool)
  /-- `MarkSlow` starts another pass. -/
  | resetOutOfStackSpace

def step (s : State) : Action → Option State
  | .call data alive lst num =>
      match s.frame with
      | none =>
          let c := { s.collector with
            data := data
            alive := alive }
          some ⟨c, some (c.loadState lst num)⟩
      | some _ => none
  | .iterate allocate =>
      match s.frame with
      | none => none
      | some f =>
          match GarbageCollector.iterate allocate s.collector f with
          | .finished c => some ⟨c, none⟩
          | .outside => none
          | .running c f => some ⟨c, some f⟩
  | .resetOutOfStackSpace =>
      match s.frame with
      | none => some ⟨{ s.collector with outOfStackSpaceForGC := false }, none⟩
      | some _ => none

def Initial (s : State) : Prop := ∃ data alive, s = ⟨.start data alive, none⟩

/-- There is room for each range that is put on the stack. -/
def FindsRoom (s : State) : Action → Prop
  | .iterate allocate =>
      ∀ f, s.frame = some f → 1 < f.num → HasRoom allocate s.collector f
  | _ => True

/-- The next turn accesses elements of segments only. -/
def StaysInside (s : State) (allocate : Nat → Bool) : Prop :=
  ∀ f, s.frame = some f → iterate allocate s.collector f ≠ .outside

/-- Within a call by its locals, between calls by those that the next one loads. -/
def Sound (s : State) : Prop :=
  Inside s.collector (s.frame.getD (s.collector.loadState 0 0))

theorem loadState_stack_eq {c c' : Collector} (hlist : c'.markStackList = c.markStackList)
    (hmark : c'.markStack = c.markStack) (lst lst' : Address) (num num' : UInt32)
    (h : Inside c (c.loadState lst num)) : Inside c' (c'.loadState lst' num') := by
  apply h.of_stack_eq hlist hmark
  all_goals
    simp only [Collector.loadState, hlist, hmark]
    cases c.markStackList[c.markStack]? <;> rfl

theorem sound_of_initial {s : State} (h : Initial s) : Sound s := by
  obtain ⟨data, alive, rfl⟩ := h
  refine ⟨rfl, ⟨.initialized c_minimumSpaceForGC, rfl, rfl,
    MarkStack.initialized_proper (by decide)⟩, ?_⟩
  intro i hi
  exact absurd hi (Nat.not_lt_zero i)

theorem sound_of_step {s s' : State} {a : Action} (h : Sound s) (hroom : FindsRoom s a)
    (hstep : step s a = some s') : Sound s' := by
  cases a with
  | call data alive lst num =>
      cases hframe : s.frame with
      | some f =>
          simp only [step, hframe] at hstep
          cases hstep
      | none =>
          rw [Sound, hframe, Option.getD_none] at h
          simp only [step, hframe, Option.some.injEq] at hstep
          subst hstep
          apply loadState_stack_eq _ _ 0 lst 0 num h
          · rfl
          · rfl
  | iterate allocate =>
      cases hframe : s.frame with
      | none =>
          simp only [step, hframe] at hstep
          cases hstep
      | some f =>
          rw [Sound, hframe, Option.getD_some] at h
          rcases iterate_spec h (hroom f hframe) with hfinished | ⟨c', f', hrunning, hinside⟩
          · simp only [step, hframe] at hstep
            rw [hfinished] at hstep
            cases hstep
            show Inside (s.collector.saveState f) ((s.collector.saveState f).loadState 0 0)
            rw [loadState_saveState h]
            exact (inside_saveState h).of_stack_eq rfl rfl rfl rfl rfl
          · simp only [step, hframe] at hstep
            rw [hrunning] at hstep
            cases hstep
            exact hinside
  | resetOutOfStackSpace =>
      cases hframe : s.frame with
      | some f =>
          simp only [step, hframe] at hstep
          cases hstep
      | none =>
          rw [Sound, hframe, Option.getD_none] at h
          simp only [step, hframe, Option.some.injEq] at hstep
          subst hstep
          apply loadState_stack_eq _ _ 0 0 0 0 h
          · rfl
          · rfl

theorem sound_of_reachable {s : State} (h : Reachable step Initial FindsRoom s) : Sound s :=
  h.invariant Sound (fun _ hs => sound_of_initial hs) fun _ _ _ hs hroom hstep =>
    sound_of_step hs hroom hstep

/-- After a run in which there was always room, a turn stays inside exactly if there is room. -/
theorem stays_inside_iff {s : State} (h : Reachable step Initial FindsRoom s)
    (allocate : Nat → Bool) : StaysInside s allocate ↔ FindsRoom s (.iterate allocate) := by
  have hsound := sound_of_reachable h
  constructor
  · intro hinside f hframe hseveral
    by_contra hroom
    rw [Sound, hframe, Option.getD_some] at hsound
    exact hinside f hframe (iterate_outside hsound hseveral hroom)
  · intro hroom f hframe houtside
    rw [Sound, hframe, Option.getD_some] at hsound
    rcases iterate_spec hsound (hroom f hframe) with hfinished | ⟨c', f', hrunning, -⟩
    · have heq := hfinished.symm.trans houtside
      cases heq
    · have heq := hrunning.symm.trans houtside
      cases heq

/-! ## Samples -/

/-- A list of 128 objects of three fields each, which are the next object, an object of two fields
that they all share, and a number. The last object has neither. -/
def sharingList : Address → Data := fun a =>
  if a < 512 then
    match a % 4 with
    | 0 => .fields 3
    | 1 => .object (if a = 509 then none else some (a + 3))
    | 2 => .object (if a = 510 then none else some 512)
    | _ => .other
  else if a = 512 then .fields 2
  else .other

def beforeMark : State := ⟨.start (fun _ => .other) fun _ => false, none⟩

def markList : Action := .call sharingList (fun _ => false) 0 1

/-- The first object is at hand. -/
def duringMark : State := (step beforeMark markList).getD beforeMark

theorem stays_inside_sample : StaysInside duringMark (fun _ => true) ↔
    FindsRoom duringMark (.iterate fun _ => true) := by
  have hstart : Reachable step Initial FindsRoom beforeMark := .start ⟨_, _, rfl⟩
  have hstep : step beforeMark markList = some duringMark := rfl
  exact stays_inside_iff (hstart.next (a := markList) trivial hstep) fun _ => true

/-- The next turn accesses an element outside a segment. -/
def leaves (s : Option State) (allocate : Nat → Bool) : Bool :=
  match s with
  | some ⟨c, some f⟩ =>
      match iterate allocate c f with
      | .outside => true
      | _ => false
  | _ => false

theorem not_staysInside_of_leaves {s : Option State} (h : leaves s allocate = true) :
    ∃ s', s = some s' ∧ ¬StaysInside s' allocate := by
  cases s with
  | none => cases h
  | some s =>
      obtain ⟨c, frame⟩ := s
      cases frame with
      | none => cases h
      | some f =>
          refine ⟨_, rfl, fun hinside => hinside f rfl ?_⟩
          simp only [leaves] at h
          cases hturn : iterate allocate c f with
          | outside => rfl
          | finished c' =>
              rw [hturn] at h
              cases h
          | running c' f' =>
              rw [hturn] at h
              cases h

/-- The stack has grown into a second segment and shrunk again when the shared object is reached. -/
theorem not_stays_inside_sample : ¬∀ s, Reachable step Initial (fun _ _ => True) s →
    ∀ allocate, StaysInside s allocate := by
  intro hall
  have hleaves : leaves (run step beforeMark
      (markList :: List.replicate 260 (.iterate fun _ => true))) (fun _ => true) = true := by
    decide +kernel
  obtain ⟨s, hrun, hnot⟩ := not_staysInside_of_leaves hleaves
  have hstart : Reachable step Initial (fun _ _ => True) beforeMark := .start ⟨_, _, rfl⟩
  exact hnot (hall s (hstart.run_of_some hrun) _)

end TinyCLR.GarbageCollector
