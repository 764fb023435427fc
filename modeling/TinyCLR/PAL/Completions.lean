import Mathlib
import TinyCLR.Library.TransitionSystem

/-!
# The queue of the hardware timer

Completions wait in a list that is sorted by their times. The compare register decides when the
timer interrupt runs the first one. `WaitForInterrupts` borrows the register while the processor
sleeps, and interrupts may change the list during the sleep.
-/

namespace TinyCLR.HardwareTimer

open TransitionSystem

abbrev Completion := Nat

/-- `HAL_Completion_IdleValue` -/
def idleValue : Nat := 0x0000FFFFFFFFFFFF

/-- The list of the linked completions, the field `EventTimeTicks` of all completions and the
compare register. -/
structure Queue where
  list : List Completion
  eventTimeTicks : Completion → Nat
  compare : Nat

namespace Queue

variable (q : Queue)

def setCompare (value : Nat) : Queue := { q with compare := value }

/-- The time of the first completion, or the idle value. -/
def firstTicks : Nat :=
  match q.list with
  | [] => idleValue
  | c :: _ => q.eventTimeTicks c

/-- `InsertBeforeNode` -/
def insertBefore (node new : Completion) : List Completion → List Completion
  | [] => []
  | c :: cs => if c = node then new :: c :: cs else c :: insertBefore node new cs

/-- `EnqueueTicks` -/
def enqueueTicks (c : Completion) (ticks : Nat) : Queue :=
  let eventTimeTicks := Function.update q.eventTimeTicks c ticks
  let list :=
    match q.list.find? fun c' => decide (ticks < eventTimeTicks c') with
    | some node => insertBefore node c (q.list.erase c)
    | none => q.list.erase c ++ [c]
  { list := list
    eventTimeTicks := eventTimeTicks
    compare := if list.head? = some c then ticks else q.compare }

/-- `Abort` -/
def abort (c : Completion) : Queue :=
  let unlinked := { q with list := q.list.erase c }
  if q.list.head? = some c then unlinked.setCompare unlinked.firstTicks else unlinked

/-- `DequeueAndExec`, with the completion that it executes. -/
def dequeueAndExec : Option Completion × Queue :=
  match q.list with
  | [] => (none, q)
  | c :: cs =>
      let unlinked := { q with list := cs }
      (some c, unlinked.setCompare unlinked.firstTicks)

end Queue

/-- What `WaitForInterrupts` remembers while it sleeps. -/
inductive WaitState where
  | nilCompare
  | resetCompare
  | unchanged
  deriving DecidableEq

namespace Queue

variable (q : Queue)

/-- `WaitForInterrupts` up to the sleep. -/
def beforeSleep (expire : Nat) : WaitState × Queue :=
  match q.list with
  | [] => (.nilCompare, q.setCompare expire)
  | c :: _ =>
      if expire < q.eventTimeTicks c then (.resetCompare, q.setCompare expire) else (.unchanged, q)

/-- `WaitForInterrupts` behind the sleep. Of an empty list it reads the field behind the list
itself, `tailTicks`. -/
def afterSleep (state : WaitState) (tailTicks : Nat) : Queue :=
  match state with
  | .nilCompare => q.setCompare idleValue
  | .resetCompare => q.setCompare (if q.list = [] then tailTicks else q.firstTicks)
  | .unchanged => q

end Queue

/-! ## The system -/

/-- An execution of a completion: its time and the time when it ran. -/
structure Execution where
  completion : Completion
  eventTimeTicks : Nat
  ranAt : Nat

/-- The queue, the current time, the sleep that is going on, and what has happened so far: for
each completion how often it was enqueued, moved while linked, and aborted while linked. -/
structure System where
  queue : Queue
  now : Nat
  wait : Option WaitState
  log : List Execution
  enqueued : Completion → Nat
  moved : Completion → Nat
  aborted : Completion → Nat

/-- The operations; between `sleep` and `wake` they come from interrupts. -/
inductive Action where
  | enqueueTicks (c : Completion) (ticks : Nat)
  | abort (c : Completion)
  | interrupt
  | advance (ticks : Nat)
  | sleep (expire : Nat)
  | wake (tailTicks : Nat)

def count (f : Completion → Nat) (c : Completion) (linked : Bool) : Completion → Nat :=
  if linked then Function.update f c (f c + 1) else f

/-- The timer interrupt runs `DequeueAndExec` once the compare register is reached. -/
def step (s : System) : Action → Option System
  | .enqueueTicks c ticks =>
      some { s with
        queue := s.queue.enqueueTicks c ticks
        enqueued := count s.enqueued c true
        moved := count s.moved c (s.queue.list.contains c) }
  | .abort c =>
      some { s with
        queue := s.queue.abort c
        aborted := count s.aborted c (s.queue.list.contains c) }
  | .interrupt =>
      if s.queue.compare ≤ s.now then
        let (executed, queue) := s.queue.dequeueAndExec
        some { s with
          queue := queue
          log := s.log ++ executed.toList.map fun c => ⟨c, s.queue.eventTimeTicks c, s.now⟩ }
      else none
  | .advance ticks => some { s with now := s.now + ticks }
  | .sleep expire =>
      if s.wait = none then
        let (state, queue) := s.queue.beforeSleep expire
        some { s with queue := queue, wait := some state }
      else none
  | .wake tailTicks =>
      s.wait.map fun state => { s with queue := s.queue.afterSleep state tailTicks, wait := none }

/-- `InitializeList`, with the timer that has been set up. -/
def start (eventTimeTicks : Completion → Nat) (now : Nat) : System where
  queue := ⟨[], eventTimeTicks, idleValue⟩
  now := now
  wait := none
  log := []
  enqueued := fun _ => 0
  moved := fun _ => 0
  aborted := fun _ => 0

/-- The compare register belongs to the list: no sleep has borrowed it. -/
def Owned (s : System) : Prop := s.wait = none ∨ s.wait = some .unchanged

/-- What the queue promises: it is sorted, and the compare register stands at its first
completion. -/
structure Ordered (s : System) : Prop where
  sorted : s.queue.list.Pairwise fun c c' => s.queue.eventTimeTicks c ≤ s.queue.eventTimeTicks c'
  nodup : s.queue.list.Nodup
  compare : Owned s → s.queue.compare = s.queue.firstTicks

/-- The steps that do not leave the register behind. -/
def Kept (s : System) : Action → Prop
  | .enqueueTicks c ticks =>
      -- the first completion stays first, or the next one has its time
      Owned s → ∀ c' cs, s.queue.list = c :: c' :: cs →
        ticks < s.queue.eventTimeTicks c' ∨
          s.queue.eventTimeTicks c' = s.queue.eventTimeTicks c
  | .abort _ => True
  | .interrupt => ∀ c cs, s.queue.list = c :: cs → s.queue.eventTimeTicks c ≤ s.now
  | .advance _ => True
  | .sleep _ => True
  | .wake tailTicks =>
      (s.wait = some .nilCompare → s.queue.firstTicks = idleValue) ∧
        (s.wait = some .resetCompare → s.queue.list = [] → tailTicks = idleValue)

/-! ## The list -/

variable {q : Queue} {s s' : System} {c c' : Completion} {ticks : Nat}
  {l : List Completion}

/-- Insertion by time: behind all completions that are not later. -/
def place (time : Completion → Nat) (c : Completion) (l : List Completion) : List Completion :=
  l.orderedInsert (fun c c' => time c < time c') c

theorem insertBefore_eq_place {time : Completion → Nat} {l : List Completion} :
    (match l.find? fun c' => decide (time c < time c') with
      | some node => Queue.insertBefore node c l
      | none => l ++ [c]) = place time c l := by
  induction l with
  | nil => rfl
  | cons c' l ih =>
      rw [List.find?_cons, place, List.orderedInsert]
      by_cases hlt : time c < time c'
      · simp [hlt, Queue.insertBefore]
      · rw [decide_eq_false hlt, if_neg hlt, ← place, ← ih]
        cases hfind : l.find? fun c' => decide (time c < time c') with
        | none => rfl
        | some node =>
            have hnode : c' ≠ node := by
              rintro rfl
              exact hlt (by simpa using List.find?_some hfind)
            simp [Queue.insertBefore, hnode]

/-- A linked completion is never found itself, so that it can be taken out first. -/
theorem find?_erase {time : Completion → Nat} (l : List Completion) :
    (l.erase c).find? (fun c' => decide (time c < time c')) =
      l.find? fun c' => decide (time c < time c') := by
  induction l with
  | nil => rfl
  | cons c' l ih =>
      by_cases heq : c' = c
      · subst heq
        simp
      · rw [List.erase_cons_tail (by simpa using heq), List.find?_cons, List.find?_cons, ih]

theorem enqueueTicks_list (q : Queue) (c : Completion) (ticks : Nat) :
    (q.enqueueTicks c ticks).list =
      place (Function.update q.eventTimeTicks c ticks) c (q.list.erase c) := by
  have hticks : Function.update q.eventTimeTicks c ticks c = ticks := Function.update_self ..
  rw [← insertBefore_eq_place, find?_erase, hticks]
  rfl

theorem place_perm (time : Completion → Nat) (c : Completion) (l : List Completion) :
    (place time c l).Perm (c :: l) := List.perm_orderedInsert _ _ _

theorem place_sorted {time : Completion → Nat} {l : List Completion}
    (h : l.Pairwise fun c c' => time c ≤ time c') :
    (place time c l).Pairwise fun c c' => time c ≤ time c' := by
  induction l with
  | nil => exact List.pairwise_singleton _ _
  | cons c' l ih =>
      obtain ⟨hc', hl⟩ := List.pairwise_cons.mp h
      rw [place, List.orderedInsert]
      split_ifs with hlt
      · apply List.pairwise_cons.mpr
        refine ⟨fun c'' hmem => ?_, h⟩
        rcases List.mem_cons.mp hmem with rfl | hmem
        · exact hlt.le
        · exact hlt.le.trans (hc' c'' hmem)
      · apply List.pairwise_cons.mpr
        refine ⟨fun c'' hmem => ?_, ih hl⟩
        rcases List.mem_cons.mp ((place_perm time c l).mem_iff.mp hmem) with rfl | hmem
        · exact Nat.le_of_not_lt hlt
        · exact hc' c'' hmem

/-- The head of the list after an insertion. -/
theorem place_head (time : Completion → Nat) (c : Completion) (l : List Completion) :
    place time c l = c :: l ∨ ∃ c' l', l = c' :: l' ∧ ¬time c < time c' ∧
      place time c l = c' :: place time c l' := by
  cases l with
  | nil => exact .inl rfl
  | cons c' l =>
      rw [place, List.orderedInsert]
      split_ifs with hlt
      · exact .inl rfl
      · exact .inr ⟨c', l, rfl, hlt, rfl⟩

/-! ## One step -/

theorem firstTicks_eq {q : Queue} (h : q.list = c :: l) : q.firstTicks = q.eventTimeTicks c := by
  rw [Queue.firstTicks, h]

theorem Ordered.enqueueTicks (h : Ordered s) (hkept : Kept s (.enqueueTicks c ticks))
    (hstep : step s (.enqueueTicks c ticks) = some s') : Ordered s' := by
  cases hstep
  have hlist := enqueueTicks_list s.queue c ticks
  have hother : ∀ c' ∈ s.queue.list.erase c,
      Function.update s.queue.eventTimeTicks c ticks c' = s.queue.eventTimeTicks c' := fun c' hc' =>
    Function.update_of_ne (h.nodup.mem_erase_iff.mp hc').1 ..
  have hself : Function.update s.queue.eventTimeTicks c ticks c = ticks := Function.update_self ..
  constructor
  · show (s.queue.enqueueTicks c ticks).list.Pairwise _
    rw [hlist]
    apply place_sorted
    apply (h.sorted.sublist List.erase_sublist).imp_of_mem
    intro a b ha hb hle
    show Function.update s.queue.eventTimeTicks c ticks a ≤
      Function.update s.queue.eventTimeTicks c ticks b
    rwa [hother a ha, hother b hb]
  · show (s.queue.enqueueTicks c ticks).list.Nodup
    rw [hlist, (place_perm _ _ _).nodup_iff]
    exact List.nodup_cons.mpr ⟨fun hmem => (h.nodup.mem_erase_iff.mp hmem).1 rfl, h.nodup.erase c⟩
  · intro howned
    have howned : Owned s := howned
    have hcompare := h.compare howned
    show (if (s.queue.enqueueTicks c ticks).list.head? = some c then ticks else s.queue.compare) =
      (s.queue.enqueueTicks c ticks).firstTicks
    rcases place_head (Function.update s.queue.eventTimeTicks c ticks) c (s.queue.list.erase c) with
      hfirst | ⟨c', l, herase, hlt, hfirst⟩
    · rw [← hlist] at hfirst
      rw [firstTicks_eq hfirst, hfirst, List.head?_cons, if_pos rfl]
      exact hself.symm
    · have hne : c' ≠ c := (h.nodup.mem_erase_iff.mp (herase ▸ List.mem_cons_self)).1
      have hc' := hother c' (herase ▸ List.mem_cons_self)
      rw [← hlist] at hfirst
      rw [firstTicks_eq hfirst, hfirst, List.head?_cons, if_neg (by simpa using hne), hcompare]
      show s.queue.firstTicks = Function.update s.queue.eventTimeTicks c ticks c'
      rw [hc']
      rw [hself, hc'] at hlt
      -- the head of the old list is the new one, or the completion that has moved
      cases hold : s.queue.list with
      | nil => simp [hold] at herase
      | cons c₀ cs =>
          rw [firstTicks_eq hold]
          by_cases heq : c₀ = c
          · subst heq
            rw [hold, List.erase_cons_head] at herase
            rw [herase] at hold
            exact ((hkept howned c' l hold).resolve_left hlt).symm
          · rw [hold, List.erase_cons_tail (by simpa using heq)] at herase
            cases herase
            rfl

theorem Ordered.abort (h : Ordered s) (hstep : step s (.abort c) = some s') : Ordered s' := by
  cases hstep
  have hlist : (s.queue.abort c).list = s.queue.list.erase c := by
    rw [Queue.abort]
    split_ifs <;> rfl
  have htime : (s.queue.abort c).eventTimeTicks = s.queue.eventTimeTicks := by
    rw [Queue.abort]
    split_ifs <;> rfl
  constructor
  · show (s.queue.abort c).list.Pairwise fun a b =>
      (s.queue.abort c).eventTimeTicks a ≤ (s.queue.abort c).eventTimeTicks b
    rw [hlist, htime]
    exact h.sorted.sublist List.erase_sublist
  · show (s.queue.abort c).list.Nodup
    rw [hlist]
    exact h.nodup.erase c
  · intro howned
    have hcompare := h.compare howned
    show (s.queue.abort c).compare = (s.queue.abort c).firstTicks
    rw [Queue.abort]
    by_cases hhead : s.queue.list.head? = some c
    · rw [if_pos hhead]
      rfl
    · rw [if_neg hhead]
      show s.queue.compare = _
      rw [hcompare]
      cases hold : s.queue.list with
      | nil => simp [Queue.firstTicks, hold]
      | cons c₀ cs =>
          have hne : c₀ ≠ c := by simpa [hold] using hhead
          rw [firstTicks_eq hold, firstTicks_eq (c := c₀) (l := cs.erase c)]
          exact List.erase_cons_tail (by simpa using hne)

/-- The system after the first completion `c` has run and `l` is left. -/
def ran (s : System) (c : Completion) (l : List Completion) : System :=
  { s with
    queue := ({ s.queue with list := l } : Queue).setCompare
      ({ s.queue with list := l } : Queue).firstTicks
    log := s.log ++ [⟨c, s.queue.eventTimeTicks c, s.now⟩] }

theorem interrupt_cons (hcompare : s.queue.compare ≤ s.now) (hlist : s.queue.list = c :: l) :
    step s .interrupt = some (ran s c l) := by
  simp only [step, if_pos hcompare, Queue.dequeueAndExec, hlist, Option.toList_some, List.map_cons,
    List.map_nil, ran]

theorem interrupt_nil (hcompare : s.queue.compare ≤ s.now) (hlist : s.queue.list = []) :
    step s .interrupt = some s := by
  simp [step, hcompare, Queue.dequeueAndExec, hlist]

theorem interrupt_enabled (h : step s .interrupt = some s') : s.queue.compare ≤ s.now := by
  by_contra hcompare
  simp [step, hcompare] at h

theorem Ordered.interrupt (h : Ordered s) (hstep : step s .interrupt = some s') : Ordered s' := by
  have hcompare := interrupt_enabled hstep
  cases hlist : s.queue.list with
  | nil =>
      rw [interrupt_nil hcompare hlist] at hstep
      cases hstep
      exact h
  | cons c l =>
      rw [interrupt_cons hcompare hlist] at hstep
      cases hstep
      have hsorted := h.sorted
      have hnodup := h.nodup
      rw [hlist] at hsorted hnodup
      exact ⟨(List.pairwise_cons.mp hsorted).2, (List.nodup_cons.mp hnodup).2, fun _ => rfl⟩

theorem Ordered.sleep {expire : Nat} (h : Ordered s) (hstep : step s (.sleep expire) = some s') :
    Ordered s' := by
  rw [step] at hstep
  split_ifs at hstep with hawake
  have hcompare := h.compare (.inl hawake)
  cases hlist : s.queue.list with
  | nil =>
      simp only [Queue.beforeSleep, hlist] at hstep
      cases hstep
      exact ⟨h.sorted, h.nodup, fun howned => by simp [Owned] at howned⟩
  | cons c l =>
      simp only [Queue.beforeSleep, hlist] at hstep
      split_ifs at hstep with hlt
      · cases hstep
        exact ⟨h.sorted, h.nodup, fun howned => by simp [Owned] at howned⟩
      · cases hstep
        exact ⟨h.sorted, h.nodup, fun _ => hcompare⟩

theorem Ordered.wake {tailTicks : Nat} (h : Ordered s) (hkept : Kept s (.wake tailTicks))
    (hstep : step s (.wake tailTicks) = some s') : Ordered s' := by
  obtain ⟨state, hwait, rfl⟩ := Option.map_eq_some_iff.mp hstep
  cases state with
  | nilCompare => exact ⟨h.sorted, h.nodup, fun _ => (hkept.1 hwait).symm⟩
  | resetCompare =>
      refine ⟨h.sorted, h.nodup, fun _ => ?_⟩
      show (if s.queue.list = [] then tailTicks else s.queue.firstTicks) = s.queue.firstTicks
      split_ifs with hnil
      · rw [hkept.2 hwait hnil, Queue.firstTicks, hnil]
      · rfl
  | unchanged => exact ⟨h.sorted, h.nodup, fun _ => h.compare (.inr hwait)⟩

theorem Ordered.step {action : Action} (h : Ordered s) (hkept : Kept s action)
    (hstep : step s action = some s') : Ordered s' := by
  cases action with
  | enqueueTicks c ticks => exact h.enqueueTicks hkept hstep
  | abort c => exact h.abort hstep
  | interrupt => exact h.interrupt hstep
  | advance ticks =>
      cases hstep
      exact ⟨h.sorted, h.nodup, h.compare⟩
  | sleep expire => exact h.sleep hstep
  | wake tailTicks => exact h.wake hkept hstep

/-! ## What has happened to the completions -/

/-- Each request of a completion has been executed, aborted or replaced, or it is still linked;
and nothing ran before its time. -/
structure Accounted (s : System) : Prop where
  conserved : ∀ c, s.enqueued c =
    (s.log.filter fun e => e.completion = c).length + s.aborted c + s.moved c +
      if c ∈ s.queue.list then 1 else 0
  onTime : ∀ e ∈ s.log, e.eventTimeTicks ≤ e.ranAt

theorem count_self (f : Completion → Nat) (c : Completion) (linked : Bool) :
    count f c linked c = f c + if linked then 1 else 0 := by
  cases linked <;> simp [count]

theorem count_of_ne (f : Completion → Nat) (linked : Bool) (hne : c' ≠ c) :
    count f c linked c' = f c' := by
  cases linked <;> simp [count, Function.update_of_ne hne]

theorem mem_enqueueTicks (hnodup : q.list.Nodup) :
    c' ∈ (q.enqueueTicks c ticks).list ↔ c' = c ∨ c' ∈ q.list := by
  rw [enqueueTicks_list, (place_perm _ _ _).mem_iff, List.mem_cons, hnodup.mem_erase_iff]
  tauto

theorem Accounted.enqueueTicks (h : Accounted s) (hnodup : s.queue.list.Nodup)
    (hstep : HardwareTimer.step s (.enqueueTicks c ticks) = some s') : Accounted s' := by
  cases hstep
  refine ⟨fun c' => ?_, h.onTime⟩
  have hc' := h.conserved c'
  show count s.enqueued c true c' = _ + _ + count s.moved c _ c' +
    if c' ∈ (s.queue.enqueueTicks c ticks).list then 1 else 0
  by_cases heq : c' = c
  · subst heq
    rw [count_self, count_self, if_pos rfl, hc', if_pos ((mem_enqueueTicks hnodup).mpr (.inl rfl))]
    by_cases hmem : c' ∈ s.queue.list
    · simp only [hmem, List.contains_eq_mem, decide_true, if_true]
      omega
    · simp only [hmem, List.contains_eq_mem, decide_false, if_false, Bool.false_eq_true]
      omega
  · rw [count_of_ne _ _ heq, count_of_ne _ _ heq, hc']
    simp only [mem_enqueueTicks hnodup, heq, false_or]

theorem Accounted.abort (h : Accounted s) (hnodup : s.queue.list.Nodup)
    (hstep : HardwareTimer.step s (.abort c) = some s') : Accounted s' := by
  cases hstep
  have hlist : (s.queue.abort c).list = s.queue.list.erase c := by
    rw [Queue.abort]
    split_ifs <;> rfl
  refine ⟨fun c' => ?_, h.onTime⟩
  have hc' := h.conserved c'
  show s.enqueued c' = _ + count s.aborted c _ c' + _ +
    if c' ∈ (s.queue.abort c).list then 1 else 0
  rw [hlist, hc']
  simp only [hnodup.mem_erase_iff]
  by_cases heq : c' = c
  · subst heq
    rw [count_self]
    by_cases hmem : c' ∈ s.queue.list
    · simp only [hmem, List.contains_eq_mem, decide_true, if_true, ne_eq, not_true_eq_false,
        false_and, if_false]
      omega
    · simp [hmem]
  · simp [count_of_ne _ _ heq, heq]

theorem Accounted.interrupt (h : Accounted s) (hnodup : s.queue.list.Nodup)
    (hkept : Kept s .interrupt) (hstep : HardwareTimer.step s .interrupt = some s') :
    Accounted s' := by
  have hcompare := interrupt_enabled hstep
  cases hlist : s.queue.list with
  | nil =>
      rw [interrupt_nil hcompare hlist] at hstep
      cases hstep
      exact h
  | cons c l =>
      rw [interrupt_cons hcompare hlist] at hstep
      cases hstep
      rw [hlist] at hnodup
      have hc := (List.nodup_cons.mp hnodup).1
      refine ⟨fun c' => ?_, fun e he => ?_⟩
      · have hc' := h.conserved c'
        rw [hlist] at hc'
        show s.enqueued c' = (List.filter _ (s.log ++ [_])).length + s.aborted c' + s.moved c' +
          if c' ∈ l then 1 else 0
        rw [hc', List.filter_append, List.length_append]
        by_cases heq : c' = c
        · subst heq
          simp [hc]
          omega
        · simp [heq, Ne.symm heq]
      · rcases List.mem_append.mp he with he | he
        · exact h.onTime e he
        · rw [List.mem_singleton.mp he]
          exact hkept c l hlist

theorem Accounted.step {action : Action} (h : Accounted s) (hordered : Ordered s)
    (hkept : Kept s action) (hstep : HardwareTimer.step s action = some s') : Accounted s' := by
  cases action with
  | enqueueTicks c ticks => exact h.enqueueTicks hordered.nodup hstep
  | abort c => exact h.abort hordered.nodup hstep
  | interrupt => exact h.interrupt hordered.nodup hkept hstep
  | advance ticks =>
      cases hstep
      exact ⟨h.conserved, h.onTime⟩
  | sleep expire =>
      rw [HardwareTimer.step] at hstep
      split_ifs at hstep
      cases hstep
      have hlist : (s.queue.beforeSleep expire).2.list = s.queue.list := by
        rw [Queue.beforeSleep]
        split
        · rfl
        · split_ifs <;> rfl
      refine ⟨fun c => ?_, h.onTime⟩
      show s.enqueued c = _ + _ + _ + if c ∈ (s.queue.beforeSleep expire).2.list then 1 else 0
      rw [hlist]
      exact h.conserved c
  | wake tailTicks =>
      obtain ⟨state, _, rfl⟩ := Option.map_eq_some_iff.mp hstep
      have hlist : (s.queue.afterSleep state tailTicks).list = s.queue.list := by
        cases state <;> rfl
      exact ⟨fun c => by simpa only [hlist] using h.conserved c, h.onTime⟩

/-- Once a completion is due, the timer interrupt runs it behind all that are before it. -/
theorem run_interrupts {r : List Completion} (h : Ordered s) (howned : Owned s)
    (hlist : s.queue.list = l ++ c :: r) (hdue : s.queue.eventTimeTicks c ≤ s.now) :
    ∃ s', run HardwareTimer.step s (List.replicate (l.length + 1) .interrupt) = some s' ∧
      s'.queue.list = r ∧
      s'.log = s.log ++
        (l ++ [c]).map fun c => ⟨c, s.queue.eventTimeTicks c, s.now⟩ := by
  induction l generalizing s with
  | nil =>
      have hcompare : s.queue.compare ≤ s.now := by
        rwa [h.compare howned, firstTicks_eq hlist]
      have hstep := interrupt_cons hcompare hlist
      refine ⟨ran s c r, ?_, rfl, rfl⟩
      rw [List.length_nil, Nat.zero_add, List.replicate_one, run_cons, hstep]
      rfl
  | cons c₀ l ih =>
      have hsorted := h.sorted
      rw [hlist] at hsorted
      have hle := (List.pairwise_cons.mp hsorted).1 c (by simp)
      have hcompare : s.queue.compare ≤ s.now := by
        rw [h.compare howned, firstTicks_eq hlist]
        exact hle.trans hdue
      have hstep := interrupt_cons hcompare hlist
      obtain ⟨s', hrun, hrest, hlog⟩ := ih (h.interrupt hstep) howned rfl hdue
      refine ⟨s', ?_, hrest, ?_⟩
      · rw [List.length_cons, List.replicate_succ, run_cons, hstep]
        exact hrun
      · rw [hlog, ran, List.append_assoc]
        rfl

/-- In every run whose steps keep the register with the list, the list is sorted, the register
stands at the first completion, every request is executed once or aborted or replaced or still
linked, nothing runs early, and what is due runs next, in order. -/
theorem timer_sound (eventTimeTicks : Completion → Nat) (now : Nat) {s : System}
    (h : Reachable step (fun s => s = start eventTimeTicks now) Kept s) :
    Ordered s ∧ Accounted s ∧
      (Owned s → ∀ l c r, s.queue.list = l ++ c :: r → s.queue.eventTimeTicks c ≤ s.now →
        ∃ s', run step s (List.replicate (l.length + 1) .interrupt) = some s' ∧
          s'.queue.list = r ∧
          s'.log = s.log ++
            (l ++ [c]).map fun c => ⟨c, s.queue.eventTimeTicks c, s.now⟩) := by
  have hinv : Ordered s ∧ Accounted s := by
    apply h.invariant fun s => Ordered s ∧ Accounted s
    · rintro s rfl
      exact ⟨⟨List.Pairwise.nil, List.nodup_nil, fun _ => rfl⟩, fun _ => rfl, by simp [start]⟩
    · rintro s action s' ⟨hordered, haccounted⟩ hkept hstep
      exact ⟨hordered.step hkept hstep, haccounted.step hordered hkept hstep⟩
  exact ⟨hinv.1, hinv.2, fun howned l c r hlist hdue => run_interrupts hinv.1 howned hlist hdue⟩

/-- Two completions, the second one earlier. -/
theorem timer_sound_sample : ∃ s : System, s.queue.list = [2, 1] ∧ s.queue.compare = 30 ∧
    Ordered s ∧ Accounted s := by
  have hfirst : Kept (start (fun _ => 0) 0) (.enqueueTicks 1 50) := fun _ _ _ hlist => nomatch hlist
  obtain ⟨s, hs⟩ : ∃ s, step (start (fun _ => 0) 0) (.enqueueTicks 1 50) = some s := ⟨_, rfl⟩
  have hsecond : Kept s (.enqueueTicks 2 30) := fun _ _ _ hlist => by
    cases hs
    exact nomatch hlist
  obtain ⟨s', hs'⟩ : ∃ s', step s (.enqueueTicks 2 30) = some s' := ⟨_, rfl⟩
  obtain ⟨hordered, haccounted, _⟩ :=
    timer_sound (fun _ => 0) 0 (.next (.next (.start rfl) hfirst hs) hsecond hs')
  refine ⟨s', ?_, ?_, hordered, haccounted⟩
  · cases hs
    cases hs'
    rfl
  · cases hs
    cases hs'
    rfl

/-- A completion that is enqueued while `WaitForInterrupts` sleeps on an empty list is lost: behind
the sleep the register stands at the idle value. -/
theorem not_timer_sound_sample : ¬ ∀ (eventTimeTicks : Completion → Nat) (now : Nat) (s : System),
    Reachable step (fun s => s = start eventTimeTicks now) (fun _ _ => True) s → Ordered s := by
  intro h
  obtain ⟨s, hrun, hawake, hcompare, hfirst⟩ :
      ∃ s, run step (start (fun _ => 0) 0) [.sleep 100, .enqueueTicks 1 50, .wake 0] = some s ∧
        s.wait = none ∧ s.queue.compare = idleValue ∧ s.queue.firstTicks = 50 :=
    ⟨_, rfl, rfl, rfl, rfl⟩
  have hordered := h _ _ s (Reachable.run_of_some (.start rfl) hrun)
  have := hordered.compare (.inl hawake)
  rw [hcompare, hfirst] at this
  exact absurd this (by decide)

end TinyCLR.HardwareTimer
