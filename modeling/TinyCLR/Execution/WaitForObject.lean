import TinyCLR.Execution.Engine
import TinyCLR.Library.TransitionSystem

/-!
# Waiting for signals

`CLR_RT_HeapBlock_WaitForObject`: a thread waits for one or for all of its objects, and
`SignalObject` walks the waiting list and wakes the threads whose wait the signal completes.
A thread that is suspended when its wait completes becomes ready but goes back to the end of
the waiting list, where it keeps its `m_waitForObject` until `Resume` moves it.
The model carries a history of the waits: which of them was settled, by which signal, and which
flags that consumed.
-/

namespace TinyCLR

open Engine TransitionSystem

/-- The end of one wait: satisfied, with the flags it consumed, or timed out. -/
structure WaitOutcome where
  /-- The number of the wait, in the order in which the waits started. -/
  serial : Nat
  objects : List ObjectId
  result : WaitResult
  consumed : List ObjectId
  /-- The `SignalObject` calls it used up: the one whose walk satisfied it, and those that had
  set the flags it consumed. -/
  signals : List Nat
  deriving DecidableEq, Repr

structure SignalSystem where
  engine : Engine
  /-- `HB_Signaled` and `HB_SignalAutoReset` of the objects. -/
  signaled : ObjectId → Bool
  autoReset : ObjectId → Bool
  /-- `TINYCLR_ENABLE_SOURCELEVELDEBUGGING`. -/
  sourceLevelDebugging : Bool
  waitCount : Nat
  /-- The last wait each thread has started. -/
  serial : ThreadId → Nat
  signalCount : Nat
  /-- The `SignalObject` call that set the flag of an object last. -/
  signalOf : ObjectId → Option Nat
  outcomes : List WaitOutcome

namespace SignalSystem

/-- Phase 1 of a satisfied wait for all objects: the auto-reset flags are cleared. -/
def resetSignaled (autoReset : ObjectId → Bool) (signaled : ObjectId → Bool) :
    List ObjectId → ObjectId → Bool
  | [] => signaled
  | obj :: objects =>
      resetSignaled autoReset
        (if autoReset obj then Function.update signaled obj false else signaled) objects

/-- The search of a wait for any object, from index `i` on. -/
def firstSignaled (autoReset : ObjectId → Bool) (signaled : ObjectId → Bool) (i : Nat) :
    List ObjectId → Option ((ObjectId → Bool) × WaitResult)
  | [] => none
  | obj :: objects =>
      if signaled obj then
        some (if autoReset obj then Function.update signaled obj false else signaled, .handle i)
      else firstSignaled autoReset signaled (i + 1) objects

/-- `TryWaitForSignal(caller, objects, cObjects, fWaitAll)`: the new flags and the result, or
`none` when the wait is not satisfied. -/
def tryWaitForSignal (autoReset : ObjectId → Bool) (signaled : ObjectId → Bool)
    (objects : List ObjectId) (waitAll : Bool) : Option ((ObjectId → Bool) × WaitResult) :=
  if waitAll then
    if objects.all signaled then some (resetSignaled autoReset signaled objects, .handleAll)
    else none
  else firstSignaled autoReset signaled 0 objects

/-- The flags among these objects that a step has cleared. -/
def consumed (before after : ObjectId → Bool) (objects : List ObjectId) : List ObjectId :=
  objects.dedup.filter fun o => before o && !after o

def setResult (e : Engine) (t : ThreadId) (result : WaitResult) : Engine :=
  e.modifyThread t fun th => { th with waitForObjectResult := result }

/-- `TryWaitForSignal(th)`: retries the pending wait of a thread and wakes it on success. -/
def tryWaitForSignalThread (s : SignalSystem) (t : ThreadId) (signal : Nat) : SignalSystem :=
  match (s.engine.thread t).waitForObject with
  | none => s
  | some wait =>
      match tryWaitForSignal s.autoReset s.signaled wait.objects wait.waitAll with
      | none => s
      | some (signaled, result) =>
          { s with
            engine := (setResult s.engine t result).restart t true
            signaled := signaled
            outcomes := s.outcomes ++
              [{ serial := s.serial t, objects := wait.objects, result := result,
                 consumed := consumed s.signaled signaled wait.objects,
                 signals := signal ::
                   (consumed s.signaled signaled wait.objects).filterMap s.signalOf }] }

/-- The node behind `t`, `none` at the tail. -/
def nextWaiting (t : ThreadId) (threads : List ThreadId) : Option ThreadId :=
  (threads.dropWhile (· ≠ t)).tail.head?

/-- The walk of `SignalObject` over the waiting list. The successor is read before the body, which
may move the thread; the fuel bounds the number of nodes visited. -/
def signalWalk (obj : ObjectId) (signal : Nat) :
    Nat → Option ThreadId → SignalSystem → Option SignalSystem
  | _, none, s => some s
  | 0, some _, _ => none
  | fuel + 1, some t, s =>
      let next := nextWaiting t s.engine.threadsWaiting
      let s' := s.tryWaitForSignalThread t signal
      if s'.signaled obj then signalWalk obj signal fuel next s' else some s'

def setSignaled (s : SignalSystem) (obj : ObjectId) : SignalSystem :=
  { s with
    signaled := Function.update s.signaled obj true
    signalOf := Function.update s.signalOf obj (some s.signalCount)
    signalCount := s.signalCount + 1 }

def signalObject (s : SignalSystem) (obj : ObjectId) (fuel : Nat) : Option SignalSystem :=
  signalWalk obj s.signalCount fuel s.engine.threadsWaiting.head? (s.setSignaled obj)

/-- `CreateInstance`, together with the `PutInProperList` that follows when the caller's quantum
ends because it has to wait. -/
def startWait (e : Engine) (t : ThreadId) (wait : WaitForObject) : Engine :=
  (e.modifyThread t fun th =>
    { th with
      waitForObject := some wait
      status := .waiting
      waitForObjectResult := .init }).putInProperList t

/-- `WaitForSignal` of the running thread. More than 64 objects are refused. -/
def waitForSignal (s : SignalSystem) (t : ThreadId) (timeExpire : Int) (objects : List ObjectId)
    (waitAll : Bool) : SignalSystem :=
  if objects.length > 64 then s
  else
    match tryWaitForSignal s.autoReset s.signaled objects waitAll with
    | some (signaled, result) =>
        { s with
          engine := setResult s.engine t result
          signaled := signaled
          waitCount := s.waitCount + 1
          serial := Function.update s.serial t s.waitCount
          outcomes := s.outcomes ++
            [{ serial := s.waitCount, objects := objects, result := result,
               consumed := consumed s.signaled signaled objects,
               signals := (consumed s.signaled signaled objects).filterMap s.signalOf }] }
    | none =>
        { s with
          engine := startWait s.engine t
            { timeExpire := timeExpire, objects := objects, waitAll := waitAll }
          waitCount := s.waitCount + 1
          serial := Function.update s.serial t s.waitCount }

/-- The part of `CheckThreads` for an expired wait of one thread of the waiting list. -/
def checkWaitExpired (s : SignalSystem) (t : ThreadId) (wait : WaitForObject) : SignalSystem :=
  { s with
    engine := (setResult s.engine t .timeout).restart t true
    outcomes := s.outcomes ++
      [{ serial := s.serial t, objects := wait.objects, result := .timeout, consumed := [],
         signals := [] }] }

inductive Action where
  | waitForSignal (t : ThreadId) (timeExpire : Int) (objects : List ObjectId) (waitAll : Bool)
  | signalObject (obj : ObjectId) (fuel : Nat)
  | resetEvent (obj : ObjectId)
  | timeout (t : ThreadId)
  | suspend (t : ThreadId)
  | resume (t : ThreadId)

def step (s : SignalSystem) : Action → Option SignalSystem
  | .waitForSignal t timeExpire objects waitAll =>
      -- The caller is executing, so it is ready and linked in the ready list.
      if (s.engine.thread t).status = .ready ∧ t ∈ s.engine.threadsReady then
        some (s.waitForSignal t timeExpire objects waitAll)
      else none
  | .signalObject obj fuel => s.signalObject obj fuel
  | .resetEvent obj => some { s with signaled := Function.update s.signaled obj false }
  | .timeout t =>
      match (s.engine.thread t).waitForObject with
      | none => none
      | some wait =>
          if t ∈ s.engine.threadsWaiting ∧
              (s.sourceLevelDebugging → (s.engine.thread t).suspended = false) then
            some (s.checkWaitExpired t wait)
          else none
  | .suspend t => some { s with engine := s.engine.suspend t }
  | .resume t => some { s with engine := s.engine.resume t }

/-- Any set of threads none of which waits yet, and any auto-reset events. -/
def Initial (s : SignalSystem) : Prop :=
  s.engine.linked.Nodup ∧ (∀ t, (s.engine.thread t).waitForObject = none) ∧
    (∀ o, s.autoReset o = true) ∧ (∀ o, s.signalOf o = none) ∧ s.outcomes = []

/-- The objects whose signals a satisfied wait uses up. -/
def claimed (objects : List ObjectId) : WaitResult → List ObjectId
  | .handleAll => objects
  | .handle i => objects[i]?.toList
  | _ => []

/-- The books of waits and signals: every wait is settled at most once, a satisfied wait has
consumed exactly its own auto-reset events, and no signal serves two waits. -/
structure Conserved (s : SignalSystem) : Prop where
  settledOnce : (s.outcomes.map WaitOutcome.serial).Nodup
  consumedExactly : ∀ w ∈ s.outcomes, ∀ o,
    o ∈ w.consumed ↔ o ∈ claimed w.objects w.result ∧ s.autoReset o = true
  signalOnce : s.outcomes.Pairwise fun a b => a.signals.Disjoint b.signals

def satisfied (signaled : ObjectId → Bool) (wait : WaitForObject) : Bool :=
  if wait.waitAll then wait.objects.all signaled else wait.objects.any signaled

def waitSatisfied (e : Engine) (signaled : ObjectId → Bool) (t : ThreadId) : Bool :=
  (e.thread t).waitForObject.any (satisfied signaled)

/-- The first thread of the waiting list whose wait is complete once `obj` is signaled. -/
def firstSatisfied (s : SignalSystem) (obj : ObjectId) : Option ThreadId :=
  s.engine.threadsWaiting.find?
    (waitSatisfied s.engine (Function.update s.signaled obj true))

/-- A signal or a timeout ends the wait of a thread that is still waiting, not of one that is
ready and only held back by its suspension. -/
def SettlesWaiting (s : SignalSystem) : Action → Prop
  | .signalObject obj _ => ∀ t ∈ s.firstSatisfied obj, (s.engine.thread t).status = .waiting
  | .timeout t => (s.engine.thread t).status = .waiting
  | _ => True

instance (s : SignalSystem) : (a : Action) → Decidable (s.SettlesWaiting a)
  | .signalObject _ _ => inferInstanceAs (Decidable (∀ t ∈ s.firstSatisfied _, _))
  | .timeout _ => inferInstanceAs (Decidable (_ = _))
  | .waitForSignal .. | .resetEvent _ | .suspend _ | .resume _ => .isTrue trivial

/-! ## The test of one wait -/

private theorem resetSignaled_apply (autoReset signaled : ObjectId → Bool)
    (objects : List ObjectId) (o : ObjectId) :
    resetSignaled autoReset signaled objects o =
      (signaled o && !(decide (o ∈ objects) && autoReset o)) := by
  induction objects generalizing signaled with
  | nil => simp [resetSignaled]
  | cons obj objects ih =>
      rw [resetSignaled, ih]
      by_cases ho : o = obj
      · subst ho
        cases hr : autoReset o <;> simp
      · cases hr : autoReset obj <;> simp [ho]

/-- What a successful search for any object has found. -/
private theorem firstSignaled_some {autoReset signaled signaled' : ObjectId → Bool} {i : Nat}
    {objects : List ObjectId} {result : WaitResult}
    (h : firstSignaled autoReset signaled i objects = some (signaled', result)) :
    ∃ j o, objects[j]? = some o ∧ signaled o = true ∧ result = .handle (i + j) ∧
      signaled' = if autoReset o then Function.update signaled o false else signaled := by
  induction objects generalizing i with
  | nil => simp [firstSignaled] at h
  | cons obj objects ih =>
      simp only [firstSignaled] at h
      split at h
      next hobj =>
        simp only [Option.some.injEq, Prod.mk.injEq] at h
        exact ⟨0, obj, rfl, hobj, h.2.symm, h.1.symm⟩
      next =>
        obtain ⟨j, o, hj, ho, hres, hsig⟩ := ih h
        exact ⟨j + 1, o, by simpa using hj, ho, by rw [hres]; congr 1; omega, hsig⟩

private theorem firstSignaled_isSome (autoReset signaled : ObjectId → Bool) (i : Nat)
    (objects : List ObjectId) :
    (firstSignaled autoReset signaled i objects).isSome = objects.any signaled := by
  induction objects generalizing i with
  | nil => rfl
  | cons obj objects ih =>
      simp only [firstSignaled, List.any_cons]
      split
      next hobj => simp [hobj]
      next hobj => simp [hobj, ih]

theorem tryWaitForSignal_isSome (autoReset signaled : ObjectId → Bool)
    (wait : WaitForObject) :
    (tryWaitForSignal autoReset signaled wait.objects wait.waitAll).isSome =
      satisfied signaled wait := by
  unfold tryWaitForSignal satisfied
  split
  · cases h : wait.objects.all signaled <;> simp
  · exact firstSignaled_isSome autoReset signaled 0 wait.objects

/-- A satisfied wait clears the auto-reset flags of the objects it claims, which were all set, and
no other flag. -/
theorem tryWaitForSignal_some {autoReset signaled signaled' : ObjectId → Bool}
    {objects : List ObjectId} {waitAll : Bool} {result : WaitResult}
    (h : tryWaitForSignal autoReset signaled objects waitAll = some (signaled', result)) :
    claimed objects result ⊆ objects ∧ (∀ o ∈ claimed objects result, signaled o = true) ∧
      (waitAll = true → claimed objects result = objects) ∧
      (waitAll = false → claimed objects result ≠ []) ∧
      ∀ o, signaled' o = (signaled o && !(decide (o ∈ claimed objects result) && autoReset o)) := by
  unfold tryWaitForSignal at h
  split at h
  next hall =>
    split at h
    next hsig =>
      simp only [Option.some.injEq, Prod.mk.injEq] at h
      obtain ⟨rfl, rfl⟩ := h
      refine ⟨fun _ ho => ho, ?_, fun _ => rfl, fun hf => ?_, ?_⟩
      · intro o ho
        exact List.all_eq_true.mp hsig o ho
      · rw [hall] at hf
        cases hf
      · intro o
        exact resetSignaled_apply autoReset signaled objects o
    next => cases h
  next hany =>
    obtain ⟨j, obj, hj, hobj, rfl, rfl⟩ := firstSignaled_some h
    have hclaimed : claimed objects (.handle (0 + j)) = [obj] := by
      simp [claimed, hj]
    rw [hclaimed]
    refine ⟨?_, ?_, fun ht => absurd ht hany, fun _ => by simp, ?_⟩
    · intro o ho
      rw [List.mem_singleton.mp ho]
      exact List.mem_of_getElem? hj
    · intro o ho
      rw [List.mem_singleton.mp ho]
      exact hobj
    · intro o
      by_cases ho : o = obj
      · subst ho
        cases hr : autoReset o <;> simp
      · cases hr : autoReset obj <;> simp [ho]

private theorem mem_consumed {autoReset signaled signaled' : ObjectId → Bool}
    {objects : List ObjectId} {waitAll : Bool} {result : WaitResult}
    (h : tryWaitForSignal autoReset signaled objects waitAll = some (signaled', result))
    (o : ObjectId) :
    o ∈ consumed signaled signaled' objects ↔
      o ∈ claimed objects result ∧ autoReset o = true := by
  obtain ⟨hsub, hset, -, -, hflags⟩ := tryWaitForSignal_some h
  simp only [consumed, List.mem_filter, List.mem_dedup, hflags o]
  constructor
  · rintro ⟨-, hcond⟩
    cases hs : signaled o <;> simp_all
  · rintro ⟨hmem, hauto⟩
    exact ⟨hsub hmem, by simp [hset o hmem, hmem, hauto]⟩

/-- Only the event just signaled can complete a wait, so completing it consumes that event. -/
private theorem consumed_of_newly_satisfied {autoReset signaled signaled' : ObjectId → Bool}
    {wait : WaitForObject} {result : WaitResult} {obj : ObjectId}
    (hauto : autoReset obj = true) (hbefore : satisfied signaled wait = false)
    (h : tryWaitForSignal autoReset (Function.update signaled obj true) wait.objects wait.waitAll =
      some (signaled', result)) : signaled' obj = false := by
  obtain ⟨hsub, hset, hall, hany, hflags⟩ := tryWaitForSignal_some h
  suffices hmem : obj ∈ claimed wait.objects result by
    simp [hflags obj, hmem, hauto]
  by_contra hmem
  -- Otherwise everything the wait claims was set before.
  have hold : ∀ o ∈ claimed wait.objects result, signaled o = true := by
    intro o ho
    have hne : o ≠ obj := fun heq => hmem (heq ▸ ho)
    simpa [hne] using hset o ho
  have hsat : satisfied signaled wait = true := by
    unfold satisfied
    split
    next hw =>
      rw [hall hw] at hold
      exact List.all_eq_true.mpr hold
    next hw =>
      obtain ⟨o, ho⟩ := List.exists_mem_of_ne_nil _ (hany (by simpa using hw))
      exact List.any_eq_true.mpr ⟨o, hsub ho, hold o ho⟩
  rw [hbefore] at hsat
  cases hsat

private theorem satisfied_mono {signaled signaled' : ObjectId → Bool} {wait : WaitForObject}
    (hle : ∀ o, signaled' o = true → signaled o = true) (h : satisfied signaled wait = false) :
    satisfied signaled' wait = false := by
  cases hs : satisfied signaled' wait with
  | false => rfl
  | true =>
      rw [← h]
      unfold satisfied at hs ⊢
      split at hs
      next hw =>
        rw [if_pos hw]
        exact (List.all_eq_true.mpr fun o ho => hle o (List.all_eq_true.mp hs o ho)).symm
      next hw =>
        rw [if_neg hw]
        obtain ⟨o, ho, hso⟩ := List.any_eq_true.mp hs
        exact (List.any_eq_true.mpr ⟨o, ho, hle o hso⟩).symm

/-! ## The books -/

private structure Books (autoReset signaled : ObjectId → Bool) (signalOf : ObjectId → Option Nat)
    (signalCount waitCount : Nat) (outcomes : List WaitOutcome) : Prop where
  settledOnce : (outcomes.map WaitOutcome.serial).Nodup
  consumedExactly : ∀ w ∈ outcomes, ∀ o,
    o ∈ w.consumed ↔ o ∈ claimed w.objects w.result ∧ autoReset o = true
  signalOnce : outcomes.Pairwise fun a b => a.signals.Disjoint b.signals
  serialLt : ∀ w ∈ outcomes, w.serial < waitCount
  signalsLt : ∀ w ∈ outcomes, ∀ k ∈ w.signals, k < signalCount
  /-- The signal that set a flag which is still set has not been used. -/
  unused : ∀ o k, signaled o = true → signalOf o = some k →
    k < signalCount ∧ ∀ w ∈ outcomes, k ∉ w.signals
  unique : ∀ o o' k, signaled o = true → signaled o' = true → signalOf o = some k →
    signalOf o' = some k → o = o'

private theorem Books.append {autoReset signaled signaled' : ObjectId → Bool}
    {signalOf : ObjectId → Option Nat} {signalCount waitCount : Nat}
    {outcomes : List WaitOutcome}
    (h : Books autoReset signaled signalOf signalCount waitCount outcomes) (w : WaitOutcome)
    (hserial : w.serial < waitCount) (hnew : w.serial ∉ outcomes.map WaitOutcome.serial)
    (hconsumed : ∀ o, o ∈ w.consumed ↔ o ∈ claimed w.objects w.result ∧ autoReset o = true)
    (hle : ∀ o, signaled' o = true → signaled o = true)
    (hsignals : ∀ k ∈ w.signals, ∃ o, signaled o = true ∧ signaled' o = false ∧
      signalOf o = some k) :
    Books autoReset signaled' signalOf signalCount waitCount (outcomes ++ [w]) := by
  have hsplit : ∀ {x : WaitOutcome}, x ∈ outcomes ++ [w] → x ∈ outcomes ∨ x = w := by
    intro x hx
    simpa using hx
  refine ⟨?_, ?_, ?_, ?_, ?_, ?_, ?_⟩
  · rw [List.map_append, List.nodup_append]
    refine ⟨h.settledOnce, by simp, ?_⟩
    intro a ha b hb heq
    simp only [List.map_cons, List.map_nil, List.mem_singleton] at hb
    exact hnew (hb ▸ heq ▸ ha)
  · intro x hx
    rcases hsplit hx with hx | rfl
    · exact h.consumedExactly x hx
    · exact hconsumed
  · rw [List.pairwise_append]
    refine ⟨h.signalOnce, by simp, ?_⟩
    intro a ha b hb k hka hkb
    rw [List.mem_singleton.mp hb] at hkb
    obtain ⟨o, ho, -, hk⟩ := hsignals k hkb
    exact (h.unused o k ho hk).2 a ha hka
  · intro x hx
    rcases hsplit hx with hx | rfl
    · exact h.serialLt x hx
    · exact hserial
  · intro x hx k hk
    rcases hsplit hx with hx | rfl
    · exact h.signalsLt x hx k hk
    · obtain ⟨o, ho, -, hok⟩ := hsignals k hk
      exact (h.unused o k ho hok).1
  · intro o k ho hk
    obtain ⟨hlt, hun⟩ := h.unused o k (hle o ho) hk
    refine ⟨hlt, ?_⟩
    intro x hx hkx
    rcases hsplit hx with hx | rfl
    · exact hun x hx hkx
    · obtain ⟨o', ho', hcleared, hk'⟩ := hsignals k hkx
      have : o = o' := h.unique o o' k (hle o ho) ho' hk hk'
      rw [this, hcleared] at ho
      cases ho
  · intro o o' k ho ho'
    exact h.unique o o' k (hle o ho) (hle o' ho')

private theorem Books.waitCount_le {autoReset signaled : ObjectId → Bool}
    {signalOf : ObjectId → Option Nat} {signalCount waitCount waitCount' : Nat}
    {outcomes : List WaitOutcome} (hle : waitCount ≤ waitCount')
    (h : Books autoReset signaled signalOf signalCount waitCount outcomes) :
    Books autoReset signaled signalOf signalCount waitCount' outcomes :=
  { h with serialLt := fun w hw => Nat.lt_of_lt_of_le (h.serialLt w hw) hle }

private theorem Books.reset {autoReset signaled : ObjectId → Bool}
    {signalOf : ObjectId → Option Nat} {signalCount waitCount : Nat}
    {outcomes : List WaitOutcome} (obj : ObjectId)
    (h : Books autoReset signaled signalOf signalCount waitCount outcomes) :
    Books autoReset (Function.update signaled obj false) signalOf signalCount waitCount
      outcomes := by
  have hle : ∀ o, Function.update signaled obj false o = true → signaled o = true := by
    intro o ho
    by_cases hobj : o = obj
    · simp [hobj] at ho
    · simpa [hobj] using ho
  exact { h with
    unused := fun o k ho => h.unused o k (hle o ho)
    unique := fun o o' k ho ho' => h.unique o o' k (hle o ho) (hle o' ho') }

/-- A new signal has a number of its own. -/
private theorem Books.set {autoReset signaled : ObjectId → Bool}
    {signalOf : ObjectId → Option Nat} {signalCount waitCount : Nat}
    {outcomes : List WaitOutcome} (obj : ObjectId)
    (h : Books autoReset signaled signalOf signalCount waitCount outcomes) :
    Books autoReset (Function.update signaled obj true)
      (Function.update signalOf obj (some signalCount)) (signalCount + 1) waitCount outcomes := by
  refine { h with signalsLt := ?_, unused := ?_, unique := ?_ }
  · intro w hw k hk
    have := h.signalsLt w hw k hk
    omega
  · intro o k ho hk
    by_cases hobj : o = obj
    · simp only [hobj, Function.update_self, Option.some.injEq] at hk
      subst hk
      refine ⟨by omega, ?_⟩
      intro w hw hk
      have := h.signalsLt w hw _ hk
      omega
    · simp only [Function.update_of_ne hobj] at ho hk
      obtain ⟨hlt, hun⟩ := h.unused o k ho hk
      exact ⟨by omega, hun⟩
  · intro o o' k ho ho' hk hk'
    by_cases hobj : o = obj <;> by_cases hobj' : o' = obj
    · rw [hobj, hobj']
    · simp only [hobj, Function.update_self, Option.some.injEq] at hk
      simp only [Function.update_of_ne hobj'] at ho' hk'
      have := (h.unused o' k ho' hk').1
      omega
    · simp only [hobj', Function.update_self, Option.some.injEq] at hk'
      simp only [Function.update_of_ne hobj] at ho hk
      have := (h.unused o k ho hk).1
      omega
    · simp only [Function.update_of_ne hobj, Function.update_of_ne hobj'] at ho ho' hk hk'
      exact h.unique o o' k ho ho' hk hk'

/-! ## The threads -/

/-- What is known of a thread that holds a wait. Either it still waits and nothing has settled
its wait, or it is a ready thread that its suspension keeps in the waiting list. -/
private structure Pending (e : Engine) (signaled : ObjectId → Bool) (serial : ThreadId → Nat)
    (waitCount : Nat) (outcomes : List WaitOutcome) (t : ThreadId) (wait : WaitForObject) :
    Prop where
  listed : t ∈ e.threadsWaiting
  unsatisfied : satisfied signaled wait = false
  serialLt : serial t < waitCount
  settled :
    ((e.thread t).status = .waiting ∧ serial t ∉ outcomes.map WaitOutcome.serial) ∨
    ((e.thread t).status = .ready ∧ (e.thread t).suspended = true ∧
      serial t ∈ outcomes.map WaitOutcome.serial)

private structure Threads (e : Engine) (signaled : ObjectId → Bool) (serial : ThreadId → Nat)
    (waitCount : Nat) (outcomes : List WaitOutcome) : Prop where
  nodup : e.linked.Nodup
  pending : ∀ t wait, (e.thread t).waitForObject = some wait →
    Pending e signaled serial waitCount outcomes t wait
  distinct : ∀ t u, (e.thread t).waitForObject ≠ none → (e.thread u).waitForObject ≠ none →
    serial t = serial u → t = u

/-- A step that changes one thread and adds outcomes for that thread alone. -/
private theorem Threads.update {e e' : Engine} {signaled signaled' : ObjectId → Bool}
    {serial serial' : ThreadId → Nat} {waitCount waitCount' : Nat}
    {outcomes outcomes' : List WaitOutcome}
    (h : Threads e signaled serial waitCount outcomes) (t : ThreadId)
    (hnodup : e'.linked.Nodup)
    (hthread : ∀ u, u ≠ t → e'.thread u = e.thread u)
    (hlist : ∀ u, u ≠ t → u ∈ e.threadsWaiting → u ∈ e'.threadsWaiting)
    (hle : ∀ o, signaled' o = true → signaled o = true)
    (hcount : waitCount ≤ waitCount')
    (hserial : ∀ u, u ≠ t → serial' u = serial u)
    (houtcomes : ∀ u, u ≠ t → (e.thread u).waitForObject ≠ none →
      (serial u ∈ outcomes'.map WaitOutcome.serial ↔ serial u ∈ outcomes.map WaitOutcome.serial))
    (hself : ∀ wait, (e'.thread t).waitForObject = some wait →
      Pending e' signaled' serial' waitCount' outcomes' t wait ∧
        ∀ u, u ≠ t → (e.thread u).waitForObject ≠ none → serial' t ≠ serial u) :
    Threads e' signaled' serial' waitCount' outcomes' := by
  refine ⟨hnodup, ?_, ?_⟩
  · intro u wait hwait
    by_cases hu : u = t
    · subst hu
      exact (hself wait hwait).1
    · rw [hthread u hu] at hwait
      obtain ⟨hlisted, hunsat, hlt, hsettled⟩ := h.pending u wait hwait
      have hne : (e.thread u).waitForObject ≠ none := by simp [hwait]
      refine ⟨hlist u hu hlisted, satisfied_mono hle hunsat, ?_, ?_⟩
      · rw [hserial u hu]
        omega
      · rw [hthread u hu, hserial u hu, houtcomes u hu hne]
        exact hsettled
  · intro u v hu hv heq
    by_cases hut : u = t <;> by_cases hvt : v = t
    · rw [hut, hvt]
    · subst hut
      rw [hthread v hvt] at hv
      obtain ⟨wait, hwait⟩ := Option.ne_none_iff_exists'.mp hu
      rw [hserial v hvt] at heq
      exact absurd heq ((hself wait hwait).2 v hvt hv)
    · subst hvt
      rw [hthread u hut] at hu
      obtain ⟨wait, hwait⟩ := Option.ne_none_iff_exists'.mp hv
      rw [hserial u hut] at heq
      exact absurd heq.symm ((hself wait hwait).2 u hut hu)
    · rw [hthread u hut] at hu
      rw [hthread v hvt] at hv
      rw [hserial u hut, hserial v hvt] at heq
      exact h.distinct u v hu hv heq

/-- Ending the wait of a thread, by a signal or by a timeout. -/
private theorem Threads.settle {e : Engine} {signaled signaled' : ObjectId → Bool}
    {serial : ThreadId → Nat} {waitCount : Nat} {outcomes : List WaitOutcome}
    (h : Threads e signaled serial waitCount outcomes) {t : ThreadId} {wait : WaitForObject}
    (hwait : (e.thread t).waitForObject = some wait)
    (hle : ∀ o, signaled' o = true → signaled o = true) (result : WaitResult)
    {w : WaitOutcome} (hw : w.serial = serial t) :
    Threads ((setResult e t result).restart t true) signaled' serial waitCount
      (outcomes ++ [w]) := by
  have hpending := h.pending t wait hwait
  have hnone : (e.thread t).waitForObject ≠ none := by simp [hwait]
  refine h.update t ?_ ?_ ?_ hle (Nat.le_refl _) (fun _ _ => rfl) ?_ ?_
  · exact putInProperList_nodup (e := (setResult e t result).setStatus t .ready) t h.nodup
  · intro u hu
    rw [restart_thread_of_ne _ _ hu]
    exact modifyThread_of_ne e _ hu
  · intro u hu hmem
    rw [mem_waiting_restart _ _ hu]
    exact hmem
  · intro u hu hune
    have hne : serial u ≠ w.serial := by
      rw [hw]
      exact fun heq => hu (h.distinct u t hune hnone heq)
    simp [hne]
  · intro wait' hwait'
    cases hsus : (e.thread t).suspended with
    | false =>
        have hsus' : ((setResult e t result).thread t).suspended = false := by
          simp [setResult, hsus]
        rw [restart_runnable _ _ hsus'] at hwait'
        simp [clearEvents, clearWait] at hwait'
    | true =>
        have hsus' : ((setResult e t result).thread t).suspended = true := by
          simp [setResult, hsus]
        rw [restart_suspended _ _ hsus'] at hwait' ⊢
        have heq : wait = wait' := by
          simpa [clearEvents, setStatus, setResult, hwait] using hwait'
        subst heq
        refine ⟨⟨by simp, satisfied_mono hle hpending.unsatisfied, hpending.serialLt, .inr ?_⟩, ?_⟩
        · simp [clearEvents, setStatus, setResult, hsus, hw]
        · intro u hu hune heq
          exact hu (h.distinct u t hune hnone heq.symm)

/-- `Suspend` and `Resume`: the flag changes and the thread is queued again. -/
private theorem Threads.setSuspended {e : Engine} {signaled : ObjectId → Bool}
    {serial : ThreadId → Nat} {waitCount : Nat} {outcomes : List WaitOutcome}
    (h : Threads e signaled serial waitCount outcomes) (t : ThreadId) (suspended : Bool)
    (hflip : (e.thread t).suspended = !suspended) :
    Threads ((e.modifyThread t fun th => { th with suspended := suspended }).putInProperList t)
      signaled serial waitCount outcomes := by
  set e₁ := e.modifyThread t fun th => { th with suspended := suspended } with he₁
  have hthread : ∀ u, u ≠ t → e₁.thread u = e.thread u := fun u hu => modifyThread_of_ne e _ hu
  refine h.update t (putInProperList_nodup t h.nodup) ?_ ?_ (fun _ ho => ho) (Nat.le_refl _)
    (fun _ _ => rfl) (fun _ _ _ => Iff.rfl) ?_
  · intro u hu
    rw [putInProperList_thread_of_ne _ hu, hthread u hu]
  · intro u hu hmem
    rw [mem_waiting_putInProperList _ hu]
    exact hmem
  · intro wait hwait
    have hwait₁ := putInProperList_waitForObject hwait
    have hwait₀ : (e.thread t).waitForObject = some wait := by simpa [he₁] using hwait₁
    obtain ⟨hlisted, hunsat, hlt, hsettled⟩ := h.pending t wait hwait₀
    rcases hsettled with ⟨hstatus, hnew⟩ | ⟨hstatus, hsus, hold⟩
    · have hput := putInProperList_waiting e₁ (t := t) (by simpa [he₁] using hstatus)
      rw [hput]
      refine ⟨⟨by simp, hunsat, hlt, .inl ⟨by simpa [he₁] using hstatus, hnew⟩⟩, ?_⟩
      intro u hu hune heq
      exact hu (h.distinct u t hune (by simp [hwait₀]) heq.symm)
    · -- A ready thread in the waiting list was suspended, so this is `Resume`.
      have hput := putInProperList_ready e₁ (t := t) (by simpa [he₁] using hstatus)
        (by simp [he₁]; simpa [hsus] using hflip)
      rw [hput] at hwait
      simp [clearWait] at hwait

private theorem Threads.suspend {e : Engine} {signaled : ObjectId → Bool}
    {serial : ThreadId → Nat} {waitCount : Nat} {outcomes : List WaitOutcome}
    (h : Threads e signaled serial waitCount outcomes) (t : ThreadId) :
    Threads (e.suspend t) signaled serial waitCount outcomes := by
  unfold Engine.suspend
  split
  next hcond => exact h.setSuspended t true (by simp [hcond.1])
  next => exact h

private theorem Threads.resume {e : Engine} {signaled : ObjectId → Bool}
    {serial : ThreadId → Nat} {waitCount : Nat} {outcomes : List WaitOutcome}
    (h : Threads e signaled serial waitCount outcomes) (t : ThreadId) :
    Threads (e.resume t) signaled serial waitCount outcomes := by
  unfold Engine.resume
  split
  next hcond => exact h.setSuspended t false (by simp [hcond.1])
  next => exact h

/-- Starting a wait that is not satisfied at once, under a number of its own. -/
private theorem Threads.startWait {e : Engine} {signaled : ObjectId → Bool}
    {serial : ThreadId → Nat} {waitCount : Nat} {outcomes : List WaitOutcome}
    (h : Threads e signaled serial waitCount outcomes) (t : ThreadId)
    (hother : ∀ u, (e.thread u).waitForObject ≠ none → serial u < waitCount)
    (hfresh : waitCount ∉ outcomes.map WaitOutcome.serial) {wait : WaitForObject}
    (hunsat : satisfied signaled wait = false) :
    Threads (SignalSystem.startWait e t wait) signaled (Function.update serial t waitCount)
      (waitCount + 1) outcomes := by
  set e₁ := e.modifyThread t fun th =>
    { th with waitForObject := some wait, status := .waiting, waitForObjectResult := .init }
    with he₁
  have hput : SignalSystem.startWait e t wait = e₁.linkWaitingAtBack t :=
    putInProperList_waiting e₁ (by simp [he₁])
  refine h.update t (putInProperList_nodup t h.nodup) ?_ ?_ (fun _ ho => ho) (Nat.le_succ _)
    (fun u hu => Function.update_of_ne hu _ _) (fun _ _ _ => Iff.rfl) ?_
  · intro u hu
    rw [hput, linkWaitingAtBack_thread, he₁, modifyThread_of_ne e _ hu]
  · intro u hu hmem
    exact (mem_waiting_putInProperList e₁ hu).mpr hmem
  · intro wait' hwait'
    rw [hput] at hwait' ⊢
    have heq : wait = wait' := by simpa [he₁] using hwait'
    subst heq
    refine ⟨⟨by simp, hunsat, by simp, .inl ⟨by simp [he₁], by simpa using hfresh⟩⟩, ?_⟩
    intro u hu hune
    have := hother u hune
    simp only [Function.update_self]
    omega

/-! ## One step -/

private structure Inv (s : SignalSystem) : Prop where
  autoReset : ∀ o, s.autoReset o = true
  books : Books s.autoReset s.signaled s.signalOf s.signalCount s.waitCount s.outcomes
  threads : Threads s.engine s.signaled s.serial s.waitCount s.outcomes

private theorem Inv.conserved {s : SignalSystem} (h : s.Inv) : s.Conserved :=
  ⟨h.books.settledOnce, h.books.consumedExactly, h.books.signalOnce⟩

private theorem consumed_flag {signaled signaled' : ObjectId → Bool} {objects : List ObjectId}
    {o : ObjectId} (h : o ∈ consumed signaled signaled' objects) :
    signaled o = true ∧ signaled' o = false := by
  simp only [consumed, List.mem_filter, Bool.and_eq_true, Bool.not_eq_true'] at h
  exact h.2

private theorem tryWaitForSignal_le {autoReset signaled signaled' : ObjectId → Bool}
    {objects : List ObjectId} {waitAll : Bool} {result : WaitResult}
    (h : tryWaitForSignal autoReset signaled objects waitAll = some (signaled', result)) :
    ∀ o, signaled' o = true → signaled o = true := by
  obtain ⟨-, -, -, -, hflags⟩ := tryWaitForSignal_some h
  intro o ho
  rw [hflags o] at ho
  exact (Bool.and_eq_true_iff.mp ho).1

private theorem Inv.waitForSignal {s : SignalSystem} (h : s.Inv) {t : ThreadId}
    (hready : t ∈ s.engine.threadsReady) (timeExpire : Int) (objects : List ObjectId)
    (waitAll : Bool) : (s.waitForSignal t timeExpire objects waitAll).Inv := by
  have hnowait : (s.engine.thread t).waitForObject = none := by
    by_contra hne
    obtain ⟨wait, hwait⟩ := Option.ne_none_iff_exists'.mp hne
    exact not_mem_waiting_of_ready h.threads.nodup hready (h.threads.pending t wait hwait).listed
  have hfresh : s.waitCount ∉ s.outcomes.map WaitOutcome.serial := by
    intro hmem
    obtain ⟨w, hw, heq⟩ := List.mem_map.mp hmem
    have := h.books.serialLt w hw
    omega
  have hother : ∀ u, (s.engine.thread u).waitForObject ≠ none → s.serial u < s.waitCount := by
    intro u hu
    obtain ⟨wait, hwait⟩ := Option.ne_none_iff_exists'.mp hu
    exact (h.threads.pending u wait hwait).serialLt
  unfold SignalSystem.waitForSignal
  split
  · exact h
  · split
    next signaled result htry =>
      have hle := tryWaitForSignal_le htry
      refine ⟨h.autoReset, ?_, ?_⟩
      · refine (h.books.waitCount_le (Nat.le_succ _)).append _ (Nat.lt_succ_self _) hfresh
          (mem_consumed htry) hle ?_
        intro k hk
        obtain ⟨o, ho, hok⟩ := List.mem_filterMap.mp hk
        exact ⟨o, (consumed_flag ho).1, (consumed_flag ho).2, hok⟩
      · refine h.threads.update t h.threads.nodup ?_ (fun _ _ hmem => hmem) hle
          (Nat.le_succ _) (fun u hu => Function.update_of_ne hu _ _) ?_ ?_
        · intro u hu
          exact modifyThread_of_ne s.engine (fun th => { th with waitForObjectResult := result }) hu
        · intro u _ hune
          have := hother u hune
          have hne : s.serial u ≠ s.waitCount := by omega
          simp [hne]
        · intro wait hwait
          simp [setResult, hnowait] at hwait
    next htry =>
      refine ⟨h.autoReset, h.books.waitCount_le (Nat.le_succ _), ?_⟩
      refine h.threads.startWait t hother hfresh ?_
      rw [← tryWaitForSignal_isSome s.autoReset, htry]
      rfl

theorem nextWaiting_append (t : ThreadId) (before behind : List ThreadId)
    (ht : t ∉ before) : nextWaiting t (before ++ t :: behind) = behind.head? := by
  unfold nextWaiting
  rw [List.dropWhile_append_of_pos (by
    intro u hu
    have hne : u ≠ t := fun heq => ht (heq ▸ hu)
    simp [hne])]
  simp

theorem tryWaitForSignalThread_of_not {s : SignalSystem} {t : ThreadId} {signal : Nat}
    (h : waitSatisfied s.engine s.signaled t = false) :
    s.tryWaitForSignalThread t signal = s := by
  unfold tryWaitForSignalThread
  split
  next => rfl
  next wait hwait =>
    have hnone : tryWaitForSignal s.autoReset s.signaled wait.objects wait.waitAll = none := by
      rw [← Option.not_isSome_iff_eq_none, tryWaitForSignal_isSome]
      simpa [waitSatisfied, hwait] using h
    rw [hnone]

/-- The successful branch of `TryWaitForSignal(th)`. -/
theorem tryWaitForSignalThread_of_satisfied {s : SignalSystem} {t : ThreadId}
    (signal : Nat) (h : waitSatisfied s.engine s.signaled t = true) :
    ∃ wait signaled result, (s.engine.thread t).waitForObject = some wait ∧
      tryWaitForSignal s.autoReset s.signaled wait.objects wait.waitAll =
        some (signaled, result) ∧
      s.tryWaitForSignalThread t signal =
        { s with
          engine := (setResult s.engine t result).restart t true
          signaled := signaled
          outcomes := s.outcomes ++
            [{ serial := s.serial t, objects := wait.objects, result := result,
               consumed := consumed s.signaled signaled wait.objects,
               signals := signal ::
                 (consumed s.signaled signaled wait.objects).filterMap s.signalOf }] } := by
  unfold waitSatisfied at h
  cases hwait : (s.engine.thread t).waitForObject with
  | none => simp [hwait] at h
  | some wait =>
      rw [hwait, Option.any_some, ← tryWaitForSignal_isSome s.autoReset] at h
      obtain ⟨⟨signaled, result⟩, htry⟩ := Option.isSome_iff_exists.mp h
      refine ⟨wait, signaled, result, rfl, htry, ?_⟩
      simp only [tryWaitForSignalThread, hwait, htry]

/-- The walk serves the first satisfied thread and stops there, since that thread consumes the
event. -/
private theorem signalWalk_eq {obj : ObjectId} {signal fuel : Nat} {s s' : SignalSystem}
    (hobj : s.signaled obj = true) (before rest : List ThreadId)
    (hlist : s.engine.threadsWaiting = before ++ rest)
    (hnodup : s.engine.threadsWaiting.Nodup)
    (hconsume : ∀ t ∈ rest, waitSatisfied s.engine s.signaled t = true →
      (s.tryWaitForSignalThread t signal).signaled obj = false)
    (h : signalWalk obj signal fuel rest.head? s = some s') :
    s' = match rest.find? (waitSatisfied s.engine s.signaled) with
      | none => s
      | some t => s.tryWaitForSignalThread t signal := by
  induction rest generalizing before fuel with
  | nil =>
      rw [List.head?_nil, signalWalk] at h
      exact (Option.some.inj h).symm
  | cons t rest ih =>
      cases fuel with
      | zero => simp [signalWalk] at h
      | succ fuel =>
          have hbefore : t ∉ before := by
            intro hmem
            rw [hlist] at hnodup
            exact (List.nodup_append.mp hnodup).2.2 t hmem t (by simp) rfl
          simp only [List.head?_cons, signalWalk, hlist,
            nextWaiting_append t before rest hbefore] at h
          cases hsat : waitSatisfied s.engine s.signaled t with
          | false =>
              simp only [tryWaitForSignalThread_of_not hsat, hobj, if_true] at h
              rw [List.find?_cons_of_neg (by simp [hsat])]
              exact ih (before ++ [t]) (by simpa using hlist)
                (fun u hu => hconsume u (List.mem_cons_of_mem t hu)) h
          | true =>
              rw [hconsume t (by simp) hsat] at h
              simp only [Bool.false_eq_true, if_false, Option.some.injEq] at h
              rw [List.find?_cons_of_pos hsat]
              exact h.symm

/-- `SignalObject` either leaves the flag set, because it completes no wait, or ends the wait of
the first thread it completes. -/
private theorem Inv.signalObject_eq {s s' : SignalSystem} (h : s.Inv) {obj : ObjectId}
    {fuel : Nat} (hs : s.signalObject obj fuel = some s') :
    s' = match s.firstSatisfied obj with
      | none => s.setSignaled obj
      | some t => (s.setSignaled obj).tryWaitForSignalThread t s.signalCount := by
  refine signalWalk_eq (s := s.setSignaled obj) (by simp [setSignaled]) []
    s.engine.threadsWaiting rfl (waiting_nodup h.threads.nodup) ?_ hs
  intro t ht hsat
  obtain ⟨wait, signaled, result, hwait, htry, heq⟩ :=
    tryWaitForSignalThread_of_satisfied s.signalCount hsat
  rw [heq]
  exact consumed_of_newly_satisfied (h.autoReset obj)
    (h.threads.pending t wait hwait).unsatisfied htry

private theorem find_waiting {s : SignalSystem} {obj : ObjectId} {t : ThreadId}
    (h : s.firstSatisfied obj = some t) :
    waitSatisfied s.engine (Function.update s.signaled obj true) t = true :=
  List.find?_some h

/-- A signal keeps the books when the wait it completes has not been settled before. -/
private theorem Inv.signalObject {s s' : SignalSystem} (h : s.Inv) {obj : ObjectId} {fuel : Nat}
    (hok : ∀ t ∈ s.firstSatisfied obj, (s.engine.thread t).status = .waiting)
    (hs : s.signalObject obj fuel = some s') : s'.Inv := by
  have hs' := h.signalObject_eq hs
  cases hfirst : s.firstSatisfied obj with
  | none =>
      simp only [hfirst] at hs'
      subst hs'
      refine ⟨h.autoReset, h.books.set obj, h.threads.nodup, ?_, h.threads.distinct⟩
      intro t wait hwait
      have hp := h.threads.pending t wait hwait
      have hunsat := List.find?_eq_none.mp hfirst t hp.listed
      rw [waitSatisfied, show (s.engine.thread t).waitForObject = some wait from hwait,
        Option.any_some, Bool.not_eq_true] at hunsat
      exact { hp with unsatisfied := hunsat }
  | some t =>
      simp only [hfirst] at hs'
      obtain ⟨wait, signaled, result, hwait, htry, heq⟩ :=
        tryWaitForSignalThread_of_satisfied (s := s.setSignaled obj) (t := t) s.signalCount
          (find_waiting hfirst)
      replace hwait : (s.engine.thread t).waitForObject = some wait := hwait
      rw [heq] at hs'
      subst hs'
      have hp := h.threads.pending t wait hwait
      have hnew : s.serial t ∉ s.outcomes.map WaitOutcome.serial := by
        rcases hp.settled with hwaiting | ⟨hready, -, -⟩
        · exact hwaiting.2
        · rw [hok t hfirst] at hready
          cases hready
      have hobj : signaled obj = false :=
        consumed_of_newly_satisfied (h.autoReset obj) hp.unsatisfied htry
      have hle₁ := tryWaitForSignal_le htry
      have hle : ∀ o, signaled o = true → s.signaled o = true := by
        intro o ho
        have hne : o ≠ obj := by
          rintro rfl
          rw [hobj] at ho
          cases ho
        have := hle₁ o ho
        simpa [setSignaled, hne] using this
      refine ⟨h.autoReset, ?_, ?_⟩
      · refine (h.books.set obj).append _ hp.serialLt hnew (mem_consumed htry) hle₁ ?_
        intro k hk
        rcases List.mem_cons.mp hk with rfl | hk
        · exact ⟨obj, by simp, hobj, by simp⟩
        · obtain ⟨o, ho, hok⟩ := List.mem_filterMap.mp hk
          exact ⟨o, (consumed_flag ho).1, (consumed_flag ho).2, hok⟩
      · exact h.threads.settle hwait hle result rfl

private theorem Inv.timeout {s : SignalSystem} (h : s.Inv) {t : ThreadId} {wait : WaitForObject}
    (hwait : (s.engine.thread t).waitForObject = some wait)
    (hok : (s.engine.thread t).status = .waiting) : (s.checkWaitExpired t wait).Inv := by
  have hp := h.threads.pending t wait hwait
  have hnew : s.serial t ∉ s.outcomes.map WaitOutcome.serial := by
    rcases hp.settled with hwaiting | ⟨hready, -, -⟩
    · exact hwaiting.2
    · rw [hok] at hready
      cases hready
  refine ⟨h.autoReset, ?_, h.threads.settle hwait (fun _ ho => ho) .timeout rfl⟩
  exact h.books.append _ hp.serialLt hnew (fun o => by simp [claimed]) (fun _ ho => ho)
    (fun k hk => by simp at hk)

private theorem step_inv {s s' : SignalSystem} {a : Action} (h : s.Inv)
    (hok : s.SettlesWaiting a) (hs : s.step a = some s') : s'.Inv := by
  cases a with
  | waitForSignal t timeExpire objects waitAll =>
      simp only [step] at hs
      split at hs
      next hcond =>
        cases hs
        exact h.waitForSignal hcond.2 timeExpire objects waitAll
      next => cases hs
  | signalObject obj fuel => exact h.signalObject hok hs
  | resetEvent obj =>
      cases hs
      refine ⟨h.autoReset, h.books.reset obj, h.threads.nodup, ?_, h.threads.distinct⟩
      intro t wait hwait
      have hp := h.threads.pending t wait hwait
      refine { hp with unsatisfied := satisfied_mono ?_ hp.unsatisfied }
      intro o ho
      by_cases hobj : o = obj
      · simp [hobj] at ho
      · simpa [hobj] using ho
  | timeout t =>
      simp only [step] at hs
      split at hs
      next => cases hs
      next wait hwait =>
        split at hs
        next =>
          cases hs
          exact h.timeout hwait hok
        next => cases hs
  | suspend t =>
      cases hs
      exact ⟨h.autoReset, h.books, h.threads.suspend t⟩
  | resume t =>
      cases hs
      exact ⟨h.autoReset, h.books, h.threads.resume t⟩

/-- Settling a wait that is settled already enters its number in the books a second time. -/
private theorem settled_twice {s : SignalSystem} (h : s.Inv) {t : ThreadId}
    {wait : WaitForObject} (hwait : (s.engine.thread t).waitForObject = some wait)
    (hstatus : (s.engine.thread t).status ≠ .waiting) {s' : SignalSystem} {w : WaitOutcome}
    (hw : w.serial = s.serial t) (hout : s'.outcomes = s.outcomes ++ [w]) : ¬ s'.Conserved := by
  intro hcons
  have honce := hcons.settledOnce
  rw [hout, List.map_append, List.nodup_append] at honce
  rcases (h.threads.pending t wait hwait).settled with ⟨hwaiting, -⟩ | ⟨-, -, hold⟩
  · exact hstatus hwaiting
  · exact honce.2.2 _ hold w.serial (by simp) hw.symm

private theorem settlesWaiting_of_conserved {s s' : SignalSystem} {a : Action} (h : s.Inv)
    (hs : s.step a = some s') (hcons : s'.Conserved) : s.SettlesWaiting a := by
  cases a with
  | signalObject obj fuel =>
      intro t ht
      by_contra hstatus
      have hs' := h.signalObject_eq hs
      simp only [Option.mem_def.mp ht] at hs'
      obtain ⟨wait, signaled, result, hwait, htry, heq⟩ :=
        tryWaitForSignalThread_of_satisfied (s := s.setSignaled obj) (t := t) s.signalCount
          (find_waiting ht)
      rw [heq] at hs'
      refine settled_twice h hwait hstatus (w := _) ?_ (congrArg outcomes hs') hcons
      rfl
  | timeout t =>
      by_contra hstatus
      simp only [step] at hs
      split at hs
      next => cases hs
      next wait hwait =>
        split at hs
        next =>
          cases hs
          refine settled_twice h hwait hstatus (w := _) ?_ rfl hcons
          rfl
        next => cases hs
  | waitForSignal t timeExpire objects waitAll => trivial
  | resetEvent obj => trivial
  | suspend t => trivial
  | resume t => trivial

/-! ## Runs -/

private theorem initial_inv {s : SignalSystem} (h : s.Initial) : s.Inv := by
  obtain ⟨hnodup, hwait, hauto, hsignal, hout⟩ := h
  refine ⟨hauto, ?_, hnodup, ?_, ?_⟩
  · rw [hout]
    constructor <;> simp [hsignal]
  · intro t wait ht
    rw [hwait t] at ht
    cases ht
  · intro t u ht
    exact absurd (hwait t) ht

/-- Signals are conserved in every run whose signals and timeouts only reach threads that are
still waiting, and the next step breaks the books exactly when it reaches another one. -/
theorem signals_conserved_iff {s : SignalSystem}
    (h : Reachable step Initial SettlesWaiting s) :
    s.Conserved ∧ ∀ a s', s.step a = some s' → (s'.Conserved ↔ s.SettlesWaiting a) := by
  have hinv : s.Inv := h.invariant Inv (fun _ => initial_inv) fun _ _ _ => step_inv
  refine ⟨hinv.conserved, ?_⟩
  intro a s' hs
  exact ⟨settlesWaiting_of_conserved hinv hs, fun hok => (step_inv hinv hok hs).conserved⟩

/-- A ready thread that has not waited yet. -/
def runnableThread : Thread where
  status := .ready
  suspended := false
  system := false
  executionCounter := 0
  waitForEvents := 0
  waitForEventsTimeout := timeoutInfinite
  waitForObject := none
  waitForObjectResult := .init
  locks := []
  lockRequestsCount := 0
  subThreads := []

/-- Two ready threads and events that are all auto-reset and not signaled. -/
def twoThreads : SignalSystem where
  engine :=
    { thread := fun _ => runnableThread
      subThread := fun _ => { owningThread := 0, priority := 0, lockRequestsCount := 0 }
      threadsReady := [1, 2], threadsWaiting := [], threadsZombie := []
      globalExecutionCounter := 0, cctorThread := none }
  signaled := fun _ => false
  autoReset := fun _ => true
  sourceLevelDebugging := true
  waitCount := 0
  serial := fun _ => 0
  signalCount := 0
  signalOf := fun _ => none
  outcomes := []

theorem twoThreads_initial : twoThreads.Initial :=
  ⟨by decide, fun _ => rfl, fun _ => rfl, fun _ => rfl, rfl⟩

/-- Both threads wait for event 7, the first one is suspended; two signals serve one wait each. -/
theorem signals_conserved_two_waits :
    ∃ s, run step twoThreads [.waitForSignal 1 100 [7] false, .waitForSignal 2 100 [7, 8] false,
        .suspend 1, .signalObject 7 2, .resume 1, .signalObject 7 2] = some s ∧
      s.outcomes.map WaitOutcome.serial = [1, 0] ∧ s.Conserved := by
  have hadm : AdmittedRun step SettlesWaiting twoThreads
      [.waitForSignal 1 100 [7] false, .waitForSignal 2 100 [7, 8] false,
        .suspend 1, .signalObject 7 2, .resume 1, .signalObject 7 2] := by
    decide
  refine ⟨_, rfl, by decide, ?_⟩
  exact (signals_conserved_iff ((Reachable.start twoThreads_initial).run hadm rfl)).1

/-- The suspended thread takes the second signal as well, for the wait the first one satisfied. -/
theorem suspended_thread_takes_two_signals :
    ¬ ∀ s, Reachable step Initial (fun _ _ => True) s → s.Conserved := by
  have hadm : AdmittedRun step (fun _ _ => True) twoThreads
      [.waitForSignal 1 100 [7] false, .suspend 1, .signalObject 7 1, .signalObject 7 1] := by
    decide
  intro h
  have hcons := h _ ((Reachable.start twoThreads_initial).run hadm rfl)
  have honce := hcons.settledOnce
  revert honce
  decide

end SignalSystem

end TinyCLR
