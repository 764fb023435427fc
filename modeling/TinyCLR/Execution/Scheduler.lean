import TinyCLR.Execution.Engine
import TinyCLR.Library.TransitionSystem

/-!
# The thread scheduler

`ScheduleThreads` runs the head of the ready list for one quantum at a time. The running thread
stays linked while it runs, with a counter that is already debited, and whatever happens during
its quantum may queue other threads. The list is kept in the order of `GetExecutionCounter`,
the priority of a thread plus its `m_executionCounter`.
-/

namespace TinyCLR

open Engine TransitionSystem

/-- The outcome of `Execute`: a success code, or one of the failures `ScheduleThreads` tells
apart. -/
inductive ExecuteResult where
  | success
  | reschedule
  | threadWaiting
  | failure
  deriving DecidableEq, Repr

/-- The engine together with the thread that `ScheduleThreads` is executing. -/
structure Scheduler where
  engine : Engine
  running : Option ThreadId

namespace Scheduler

/-- `EXECUTION_COUNTER_MAXIMUM` and `EXECUTION_COUNTER_ADJUSTMENT`. -/
def executionCounterMaximum : Int := 0x70000000

def executionCounterAdjustment : Int := 0x60000000

def createInstance (e : Engine) (t : ThreadId) (sth : SubThreadId) (priority : Int)
    (system : Bool) : Engine :=
  { e with
    thread := Function.update e.thread t
      { status := .unstarted, suspended := false, system := system, executionCounter := 0,
        waitForEvents := 0, waitForEventsTimeout := timeoutInfinite, waitForObject := none,
        waitForObjectResult := .init, locks := [], lockRequestsCount := 0, subThreads := [sth] }
    subThread := Function.update e.subThread sth
      { owningThread := t, priority := priority, lockRequestsCount := 0 } }

def pushThreadProcDelegate (e : Engine) (t : ThreadId) : Engine :=
  (e.setStatus t .ready).putInProperList t

/-- `NewThread`: a thread with a delegate is queued twice, by `PushThreadProcDelegate` and again
by `NewThread` itself. -/
def newThread (e : Engine) (t : ThreadId) (sth : SubThreadId) (priority : Int)
    (system delegate : Bool) : Engine :=
  let e' := createInstance e t sth priority system
  (if delegate then pushThreadProcDelegate e' t else e').putInProperList t

def adjustExecutionCounter (e : Engine) (threads : List ThreadId) (update : Int) : Engine :=
  threads.foldl (fun e t => e.modifyThread t fun th =>
    bringExecCounterToDate e.globalExecutionCounter
      { th with executionCounter := th.executionCounter + update }) e

/-- The rebase of all counters at the entry of `ScheduleThreads`. -/
def adjust (e : Engine) : Engine :=
  if e.globalExecutionCounter < -executionCounterMaximum then
    let e := { e with
      globalExecutionCounter := e.globalExecutionCounter + executionCounterAdjustment }
    let e := adjustExecutionCounter e e.threadsReady executionCounterAdjustment
    let e := adjustExecutionCounter e e.threadsWaiting executionCounterAdjustment
    adjustExecutionCounter e e.threadsZombie executionCounterAdjustment
  else e

/-- The thread that runs next: the static constructor thread if there is one and it can run,
otherwise the first ready thread. -/
def pickThread (e : Engine) : Option ThreadId :=
  match e.cctorThread with
  | none => e.threadsReady.head?
  | some c =>
      if (e.thread c).status = .ready ∧ (e.thread c).suspended = false then some c else none

/-- The accounting of `ScheduleThreads` for the thread it is about to execute. -/
def debit (e : Engine) (t : ThreadId) : Engine :=
  let e' := e.modifyThread t fun th =>
    let th' := bringExecCounterToDate e.globalExecutionCounter th
    { th' with executionCounter := th'.executionCounter - e.getQuantumDebit t }
  { e' with
    globalExecutionCounter := min e'.globalExecutionCounter (e'.thread t).executionCounter }

/-- `UpdateToLowestExecutionCounter`, by which `Sleep(0)` makes the running thread the last. -/
def updateToLowestExecutionCounter (e : Engine) (t : ThreadId) : Engine :=
  e.modifyThread t fun th => { th with executionCounter := e.globalExecutionCounter - 1 }

def statusAfter (result : ExecuteResult) (status : ThreadStatus) : ThreadStatus :=
  match result with
  | .success => status
  | .reschedule => status
  | .threadWaiting => .waiting
  | .failure => .terminated

/-- What may happen, between the context switches and while a thread is executing. -/
inductive Action where
  | newThread (t : ThreadId) (sth : SubThreadId) (priority : Int) (system delegate : Bool)
  | restart (t : ThreadId) (deleteEvent : Bool)
  | suspend (t : ThreadId)
  | resume (t : ThreadId)
  | setCctorThread (t : Option ThreadId)
  | adjust
  | schedule
  | sleepZero
  | setRunningStatus (status : ThreadStatus)
  | endQuantum (result : ExecuteResult)

/-- The allocator hands out a thread and a sub-thread that are not in use. -/
def Fresh (s : Scheduler) (t : ThreadId) (sth : SubThreadId) : Prop :=
  ∀ u ∈ s.running.toList ++ s.engine.linked, u ≠ t ∧ s.engine.currentSubThread u ≠ sth

instance (s : Scheduler) (t : ThreadId) (sth : SubThreadId) : Decidable (s.Fresh t sth) :=
  inferInstanceAs (Decidable (∀ u ∈ _, _))

def step (s : Scheduler) : Action → Option Scheduler
  | .newThread t sth priority system delegate =>
      if s.Fresh t sth then
        some { s with engine := newThread s.engine t sth priority system delegate }
      else none
  | .restart t deleteEvent => some { s with engine := s.engine.restart t deleteEvent }
  | .suspend t => some { s with engine := s.engine.suspend t }
  | .resume t => some { s with engine := s.engine.resume t }
  | .setCctorThread t => some { s with engine := { s.engine with cctorThread := t } }
  | .adjust =>
      match s.running with
      | none => some { s with engine := adjust s.engine }
      | some _ => none
  | .schedule =>
      match s.running with
      | none =>
          match pickThread s.engine with
          | some t => some { engine := debit s.engine t, running := some t }
          | none => some s
      | some _ => none
  | .sleepZero =>
      match s.running with
      | some r => some { s with engine := updateToLowestExecutionCounter s.engine r }
      | none => none
  | .setRunningStatus status =>
      match s.running with
      | some r => some { s with engine := s.engine.setStatus r status }
      | none => none
  | .endQuantum result =>
      match s.running with
      | some r =>
          let e := s.engine.setStatus r (statusAfter result (s.engine.thread r).status)
          some { engine := e.putInProperList r, running := none }
      | none => none

/-- The engine after `ExecutionEngine_Initialize`. -/
def Initial (s : Scheduler) : Prop :=
  s.running = none ∧ s.engine.threadsReady = [] ∧ s.engine.threadsWaiting = [] ∧
    s.engine.threadsZombie = [] ∧ s.engine.globalExecutionCounter = 0 ∧ s.engine.cctorThread = none

/-! ## The order of the ready list -/

/-- A list of threads with non-increasing keys. -/
def Ordered (key : ThreadId → Int) (threads : List ThreadId) : Prop :=
  threads.Pairwise fun a b => key b ≤ key a

instance (key : ThreadId → Int) (threads : List ThreadId) : Decidable (Ordered key threads) :=
  inferInstanceAs (Decidable (List.Pairwise _ _))

/-- The threads that stand behind `r`. -/
def queuedBehind (r : ThreadId) (threads : List ThreadId) : List ThreadId :=
  (threads.dropWhile (· ≠ r)).tail

/-- The ready list without the running thread, whose counter is already debited. -/
def queued (s : Scheduler) : List ThreadId :=
  match s.running with
  | none => s.engine.threadsReady
  | some r => s.engine.threadsReady.erase r

/-- A thread with this key does not go in front of the running thread while a thread queued
behind the running one has a larger key. -/
def InsertionKeepsOrder (s : Scheduler) (t : ThreadId) (key : Int) : Prop :=
  ∀ r ∈ s.running, r ≠ t → s.engine.getExecutionCounter r < key →
    ∀ u ∈ queuedBehind r (s.engine.threadsReady.erase t), s.engine.getExecutionCounter u ≤ key

/-- The largest counter that `BringExecCounterToDate` leaves. -/
def counterLimit (e : Engine) : Int := e.globalExecutionCounter + (2 ^ systemHighest.toNat + 1)

/-- Where the rebase cuts the counter of a ready thread, no thread behind it overtakes it. -/
def AdjustKeepsOrder (e : Engine) : Prop :=
  e.globalExecutionCounter < -executionCounterMaximum →
    e.threadsReady.Pairwise fun a b =>
      counterLimit e < (e.thread a).executionCounter →
        e.getThreadPriority b + min (e.thread b).executionCounter (counterLimit e) ≤
          e.getThreadPriority a + counterLimit e

/-- The steps that do not put a thread in front of the running one against the order, and whose
rebase does not reorder the keys. -/
def KeepsOrder (s : Scheduler) : Action → Prop
  | .newThread t _ priority _ delegate => delegate = true → s.InsertionKeepsOrder t priority
  | .restart t _ =>
      (s.engine.thread t).suspended = false →
        s.InsertionKeepsOrder t (s.engine.getExecutionCounter t)
  | .resume t =>
      (s.engine.thread t).status = .ready →
        s.InsertionKeepsOrder t (s.engine.getExecutionCounter t)
  | .adjust => AdjustKeepsOrder s.engine
  | _ => True

instance (s : Scheduler) (t : ThreadId) (key : Int) : Decidable (s.InsertionKeepsOrder t key) :=
  inferInstanceAs (Decidable (∀ r ∈ s.running, _))

instance (e : Engine) : Decidable (AdjustKeepsOrder e) :=
  inferInstanceAs (Decidable (_ → List.Pairwise _ _))

instance (s : Scheduler) : (a : Action) → Decidable (s.KeepsOrder a)
  | .newThread .. => inferInstanceAs (Decidable (_ → InsertionKeepsOrder _ _ _))
  | .restart .. => inferInstanceAs (Decidable (_ → InsertionKeepsOrder _ _ _))
  | .resume _ => inferInstanceAs (Decidable (_ → InsertionKeepsOrder _ _ _))
  | .adjust => inferInstanceAs (Decidable (AdjustKeepsOrder _))
  | .suspend _ | .setCctorThread _ | .schedule | .sleepZero | .setRunningStatus _
  | .endQuantum _ => .isTrue trivial

private theorem insertBefore_erase_self (key : ThreadId → Int) (t : ThreadId)
    (l : List ThreadId) (ht : t ∉ l) : (insertBefore key t l).erase t = l := by
  induction l with
  | nil => simp [insertBefore]
  | cons a l ih =>
      simp only [List.mem_cons, not_or] at ht
      simp only [insertBefore]
      split
      · simp
      · rw [List.erase_cons_tail (by simpa using Ne.symm ht.1), ih ht.2]

private theorem insertBefore_ordered (key : ThreadId → Int) (t : ThreadId) (l : List ThreadId)
    (hl : Ordered key l) : Ordered key (insertBefore key t l) := by
  induction l with
  | nil => simp [insertBefore, Ordered]
  | cons a l ih =>
      obtain ⟨ha, hl'⟩ := List.pairwise_cons.mp hl
      simp only [insertBefore]
      split
      next hlt =>
        refine List.pairwise_cons.mpr ⟨?_, hl⟩
        intro b hb
        rcases List.mem_cons.mp hb with rfl | hb
        · omega
        · have := ha b hb
          omega
      next hge =>
        refine List.pairwise_cons.mpr ⟨?_, ih hl'⟩
        intro b hb
        rcases List.mem_cons.mp ((insertBefore_perm key t l).mem_iff.mp hb) with rfl | hb
        · omega
        · exact ha b hb

private theorem queuedBehind_cons_self (r : ThreadId) (l : List ThreadId) :
    queuedBehind r (r :: l) = l := by
  simp [queuedBehind]

private theorem queuedBehind_cons_of_ne {r a : ThreadId} (l : List ThreadId) (h : a ≠ r) :
    queuedBehind r (a :: l) = queuedBehind r l := by
  simp [queuedBehind, h]

private theorem queuedBehind_subset_erase (r : ThreadId) (l : List ThreadId) :
    queuedBehind r l ⊆ l.erase r := by
  induction l with
  | nil => simp [queuedBehind]
  | cons a l ih =>
      by_cases h : a = r
      · subst h
        simp [queuedBehind_cons_self]
      · rw [queuedBehind_cons_of_ne l h, List.erase_cons_tail (by simpa using h)]
        exact fun u hu => List.mem_cons_of_mem a (ih hu)

/-- Inserting past a debited thread keeps the order of the others exactly when the target does
not jump over a larger key that is queued behind it. -/
private theorem insertBefore_erase_ordered_iff (key : ThreadId → Int) {t r : ThreadId}
    (hrt : r ≠ t) (l : List ThreadId) (hl : Ordered key (l.erase r)) :
    Ordered key ((insertBefore key t l).erase r) ↔
      (key r < key t → ∀ u ∈ queuedBehind r l, key u ≤ key t) := by
  induction l with
  | nil => simp [insertBefore, queuedBehind, Ordered, hrt.symm]
  | cons a l ih =>
      by_cases har : a = r
      · subst har
        rw [List.erase_cons_head] at hl
        rw [queuedBehind_cons_self]
        simp only [insertBefore]
        split
        next hlt =>
          rw [List.erase_cons_tail (by simpa using hrt.symm), List.erase_cons_head, Ordered,
            List.pairwise_cons]
          exact ⟨fun h _ => h.1, fun h => ⟨h hlt, hl⟩⟩
        next hge =>
          rw [List.erase_cons_head]
          exact ⟨fun _ h => absurd h hge, fun _ => insertBefore_ordered key t l hl⟩
      · rw [List.erase_cons_tail (by simpa using har)] at hl
        obtain ⟨ha, hl'⟩ := List.pairwise_cons.mp hl
        rw [queuedBehind_cons_of_ne l har]
        simp only [insertBefore]
        split
        next hlt =>
          -- The scan stops in front of the running thread: both sides hold.
          have hbelow : ∀ u ∈ l.erase r, key u ≤ key t := fun u hu => by
            have := ha u hu
            omega
          rw [List.erase_cons_tail (by simpa using hrt.symm),
            List.erase_cons_tail (by simpa using har)]
          refine ⟨fun _ _ u hu => hbelow u (queuedBehind_subset_erase r l hu), fun _ => ?_⟩
          refine List.pairwise_cons.mpr ⟨?_, hl⟩
          intro b hb
          rcases List.mem_cons.mp hb with rfl | hb
          · omega
          · exact hbelow b hb
        next hge =>
          rw [List.erase_cons_tail (by simpa using har), ← ih hl', Ordered,
            List.pairwise_cons]
          refine ⟨fun h => h.2, fun h => ⟨?_, h⟩⟩
          intro b hb
          have hperm := (insertBefore_perm key t l).erase r
          rw [List.erase_cons_tail (by simpa using hrt.symm)] at hperm
          rcases List.mem_cons.mp (hperm.mem_iff.mp hb) with rfl | hbl
          · omega
          · exact ha b hbl

/-! ## One step -/

/-- What a queue operation on `t` does to the ready list: `t` leaves it, or moves to the place
its key gives it. No key changes. -/
private structure Requeued (e : Engine) (t : ThreadId) (e' : Engine) : Prop where
  nodup : e.linked.Nodup → e'.linked.Nodup
  key : e'.getExecutionCounter = e.getExecutionCounter
  ready : e'.threadsReady = e.threadsReady.erase t ∨
    ((e.thread t).status = .ready ∧ (e.thread t).suspended = false ∧
      e'.threadsReady = insertBefore e.getExecutionCounter t (e.threadsReady.erase t))

private theorem putInProperList_key (e : Engine) (t : ThreadId) :
    (e.putInProperList t).getExecutionCounter = e.getExecutionCounter := by
  unfold putInProperList
  split
  · split
    · rfl
    · exact getExecutionCounter_modifyThread (e.unlink t) t clearWait rfl rfl
  · rfl
  · exact getExecutionCounter_modifyThread (e.linkZombieAtFront t) t passivated rfl rfl
  · rfl

private theorem putInProperList_requeued (e : Engine) (t : ThreadId) :
    Requeued e t (e.putInProperList t) := by
  refine ⟨putInProperList_nodup t, putInProperList_key e t, ?_⟩
  unfold putInProperList
  split
  next hready =>
    split
    next => exact .inl rfl
    next hsus => exact .inr ⟨hready, by simpa using hsus, rfl⟩
  next => exact .inl rfl
  next => exact .inl rfl
  next => exact .inl rfl

private theorem Requeued.erase {e e' : Engine} {t : ThreadId} (h : Requeued e t e')
    (hnd : e.linked.Nodup) : e'.threadsReady.erase t = e.threadsReady.erase t := by
  have ht : t ∉ e.threadsReady.erase t := (ready_nodup hnd).not_mem_erase
  rcases h.ready with hr | ⟨-, -, hr⟩
  · rw [hr, List.erase_of_not_mem ht]
  · rw [hr, insertBefore_erase_self _ _ _ ht]

private structure Inv (s : Scheduler) : Prop where
  nodup : s.engine.linked.Nodup
  ordered : Ordered s.engine.getExecutionCounter s.queued

private theorem queued_subset (s : Scheduler) : s.queued ⊆ s.engine.threadsReady := by
  unfold queued
  split
  · exact List.Subset.refl _
  · exact List.erase_subset

/-- A step that relinks nothing keeps the invariant if it keeps the keys of the queued threads. -/
private theorem Inv.congr {s s' : Scheduler} (h : s.Inv) (hlinked : s'.engine.linked = s.engine.linked)
    (hqueued : List.Sublist s'.queued s.queued)
    (hkey : ∀ u ∈ s'.queued,
      s'.engine.getExecutionCounter u = s.engine.getExecutionCounter u) : s'.Inv := by
  refine ⟨hlinked ▸ h.nodup, (h.ordered.sublist hqueued).imp_of_mem ?_⟩
  intro a b ha hb hab
  rwa [hkey a ha, hkey b hb]

/-- Requeueing the running thread at the end of its quantum. -/
private theorem Inv.requeue_running {s : Scheduler} (h : s.Inv) {r : ThreadId} {e' : Engine}
    (hrun : s.running = some r) (hq : Requeued s.engine r e') :
    Inv { engine := e', running := none } := by
  have hord : Ordered e'.getExecutionCounter (s.engine.threadsReady.erase r) := by
    have := h.ordered
    simp only [queued, hrun] at this
    rwa [hq.key]
  refine ⟨hq.nodup h.nodup, ?_⟩
  rcases hq.ready with hr | ⟨-, -, hr⟩
  · simpa only [queued, hr] using hord
  · simp only [queued, hr]
    rw [← hq.key]
    exact insertBefore_ordered _ _ _ hord

private theorem Inv.requeue {s : Scheduler} (h : s.Inv) {t : ThreadId} {e' : Engine}
    (hq : Requeued s.engine t e')
    (hok : (s.engine.thread t).status = .ready → (s.engine.thread t).suspended = false →
      s.InsertionKeepsOrder t (s.engine.getExecutionCounter t)) :
    Inv { s with engine := e' } := by
  have ht : t ∉ s.engine.threadsReady.erase t := (ready_nodup h.nodup).not_mem_erase
  -- Taking `t` out of the list keeps the order of the rest.
  have hout : ∀ l, List.Sublist l s.queued → Ordered e'.getExecutionCounter l := by
    intro l hl
    rw [hq.key]
    exact h.ordered.sublist hl
  refine ⟨hq.nodup h.nodup, ?_⟩
  rcases hq.ready with hr | ⟨hready, hsus, hr⟩
  · cases hrun : s.running with
    | none => exact hout _ (by simpa [queued, hrun, hr] using List.erase_sublist)
    | some r =>
        refine hout _ ?_
        simp only [queued, hrun, hr]
        rw [List.erase_comm]
        exact List.erase_sublist
  · cases hrun : s.running with
    | none =>
        have hl : Ordered e'.getExecutionCounter (s.engine.threadsReady.erase t) :=
          hout _ (by simpa [queued, hrun] using List.erase_sublist)
        simp only [queued, hr, ← hq.key]
        exact insertBefore_ordered _ _ _ hl
    | some r =>
        simp only [queued, hr, ← hq.key]
        by_cases hrt : r = t
        · subst hrt
          rw [insertBefore_erase_self _ _ _ ht]
          exact hout _ (by simp [queued, hrun])
        · refine (insertBefore_erase_ordered_iff _ hrt _ ?_).mpr ?_
          · rw [List.erase_comm]
            exact hout _ (by simpa [queued, hrun] using List.erase_sublist)
          · rw [hq.key]
            exact hok hready hsus r hrun hrt

private theorem setStatus_key (e : Engine) (t : ThreadId) (status : ThreadStatus) :
    (e.setStatus t status).getExecutionCounter = e.getExecutionCounter :=
  getExecutionCounter_modifyThread e t _ rfl rfl

/-- Making a thread ready, or setting its suspended flag, before it is queued. -/
private theorem Inv.requeue_modified {s : Scheduler} (h : s.Inv) (t : ThreadId)
    (f : Thread → Thread)
    (hcounter : (f (s.engine.thread t)).executionCounter = (s.engine.thread t).executionCounter)
    (hsub : (f (s.engine.thread t)).subThreads = (s.engine.thread t).subThreads)
    (hok : (f (s.engine.thread t)).status = .ready → (f (s.engine.thread t)).suspended = false →
      s.InsertionKeepsOrder t (s.engine.getExecutionCounter t)) :
    Inv { s with engine := (s.engine.modifyThread t f).putInProperList t } := by
  have hkey := getExecutionCounter_modifyThread s.engine t f hcounter hsub
  have hmod : Inv { s with engine := s.engine.modifyThread t f } :=
    h.congr rfl (List.Sublist.refl _) fun u _ => congrFun hkey u
  refine hmod.requeue (putInProperList_requeued _ t) ?_
  intro hready hsus
  simp only [modifyThread_self] at hready hsus
  have := hok hready hsus
  simpa only [InsertionKeepsOrder, hkey, modifyThread_threadsReady] using this

private theorem Inv.restart {s : Scheduler} (h : s.Inv) (t : ThreadId) (deleteEvent : Bool)
    (hok : (s.engine.thread t).suspended = false →
      s.InsertionKeepsOrder t (s.engine.getExecutionCounter t)) :
    Inv { s with engine := s.engine.restart t deleteEvent } := by
  have hput : Inv { s with engine := (s.engine.setStatus t .ready).putInProperList t } :=
    h.requeue_modified t _ rfl rfl fun _ hsus => hok hsus
  unfold Engine.restart
  cases deleteEvent with
  | false => exact hput
  | true =>
      exact hput.congr rfl (List.Sublist.refl _) fun u _ =>
        congrFun (getExecutionCounter_modifyThread _ t clearEvents rfl rfl) u

private theorem Inv.suspend {s : Scheduler} (h : s.Inv) (t : ThreadId) :
    Inv { s with engine := s.engine.suspend t } := by
  unfold Engine.suspend
  split
  · exact h.requeue_modified t _ rfl rfl fun _ hsus => absurd hsus (by simp)
  · exact h

private theorem Inv.resume {s : Scheduler} (h : s.Inv) (t : ThreadId)
    (hok : (s.engine.thread t).status = .ready →
      s.InsertionKeepsOrder t (s.engine.getExecutionCounter t)) :
    Inv { s with engine := s.engine.resume t } := by
  unfold Engine.resume
  split
  · exact h.requeue_modified t _ rfl rfl fun hready _ => hok hready
  · exact h

private theorem mem_linked_of_queued {s : Scheduler} {u : ThreadId} (hu : u ∈ s.queued) :
    u ∈ s.engine.linked := by
  simp [linked, queued_subset s hu]

/-- Creating a thread does not touch the keys of the threads that are in use. -/
private theorem createInstance_key {s : Scheduler} {t : ThreadId} {sth : SubThreadId}
    (hfresh : s.Fresh t sth) (priority : Int) (system : Bool) {u : ThreadId}
    (hu : u ∈ s.running.toList ++ s.engine.linked) :
    (createInstance s.engine t sth priority system).getExecutionCounter u =
      s.engine.getExecutionCounter u := by
  obtain ⟨hut, husth⟩ := hfresh u hu
  have hcur : (createInstance s.engine t sth priority system).currentSubThread u =
      s.engine.currentSubThread u := by
    simp [currentSubThread, createInstance, hut]
  simp only [getExecutionCounter, getThreadPriority, hcur]
  simp [createInstance, hut, husth]

private theorem createInstance_key_self (e : Engine) (t : ThreadId) (sth : SubThreadId)
    (priority : Int) (system : Bool) :
    (createInstance e t sth priority system).getExecutionCounter t = priority := by
  simp [getExecutionCounter, getThreadPriority, currentSubThread, createInstance]

private theorem Inv.newThread {s : Scheduler} (h : s.Inv) {t : ThreadId} {sth : SubThreadId}
    (hfresh : s.Fresh t sth) (priority : Int) (system delegate : Bool)
    (hok : delegate = true → s.InsertionKeepsOrder t priority) :
    Inv { s with engine := newThread s.engine t sth priority system delegate } := by
  set e₀ := createInstance s.engine t sth priority system with he₀
  have hkey : ∀ u ∈ s.running.toList ++ s.engine.linked,
      e₀.getExecutionCounter u = s.engine.getExecutionCounter u :=
    fun u hu => createInstance_key hfresh priority system hu
  have h₀ : Inv { s with engine := e₀ } :=
    h.congr rfl (List.Sublist.refl _) fun u hu =>
      hkey u (List.mem_append_right _ (mem_linked_of_queued hu))
  have hself : e₀.getExecutionCounter t = priority :=
    createInstance_key_self s.engine t sth priority system
  have hstatus : (e₀.thread t).status = .unstarted := by simp [he₀, createInstance]
  unfold Scheduler.newThread
  cases delegate with
  | false =>
      refine h₀.requeue (putInProperList_requeued e₀ t) ?_
      intro hready
      rw [hstatus] at hready
      cases hready
  | true =>
      have hnew : InsertionKeepsOrder { s with engine := e₀ } t (e₀.getExecutionCounter t) := by
        intro r hr hrt hlt u hu
        have hrmem : r ∈ s.running.toList ++ s.engine.linked := by simp [show s.running = some r from hr]
        have humem : u ∈ s.running.toList ++ s.engine.linked := by
          have := List.mem_of_mem_erase (List.mem_of_mem_erase (queuedBehind_subset_erase _ _ hu))
          refine List.mem_append_right _ ?_
          simp [linked, show u ∈ s.engine.threadsReady from this]
        simp only [hkey r hrmem, hkey u humem, hself] at hlt ⊢
        exact hok rfl r hr hrt hlt u hu
      have h₁ : Inv { s with engine := pushThreadProcDelegate e₀ t } :=
        h₀.requeue_modified t _ rfl rfl fun _ _ => hnew
      have hq : Requeued (e₀.setStatus t .ready) t (pushThreadProcDelegate e₀ t) :=
        putInProperList_requeued _ t
      refine h₁.requeue (putInProperList_requeued _ t) ?_
      intro _ _
      -- The second insertion finds the list the first one found.
      have hready : (pushThreadProcDelegate e₀ t).threadsReady.erase t =
          e₀.threadsReady.erase t := hq.erase h₀.nodup
      have hkeys : (pushThreadProcDelegate e₀ t).getExecutionCounter = e₀.getExecutionCounter :=
        hq.key.trans (setStatus_key e₀ t .ready)
      simpa only [InsertionKeepsOrder, hready, hkeys] using hnew

/-- The rebased counter of one thread. -/
private def rebased (globalCounter update : Int) (th : Thread) : Thread :=
  bringExecCounterToDate globalCounter { th with executionCounter := th.executionCounter + update }

private theorem adjustExecutionCounter_eq (e : Engine) (l : List ThreadId) (update : Int)
    (hnd : l.Nodup) :
    adjustExecutionCounter e l update =
      { e with thread := fun u =>
          if u ∈ l then rebased e.globalExecutionCounter update (e.thread u) else e.thread u } := by
  induction l generalizing e with
  | nil => simp [adjustExecutionCounter]
  | cons a l ih =>
      obtain ⟨ha, hnd'⟩ := List.nodup_cons.mp hnd
      have hstep : adjustExecutionCounter e (a :: l) update =
          adjustExecutionCounter (e.modifyThread a (rebased e.globalExecutionCounter update)) l
            update := rfl
      rw [hstep, ih _ hnd']
      simp only [modifyThread, Engine.mk.injEq, and_self, and_true]
      funext u
      by_cases hu : u = a
      · subst hu
        simp [ha]
      · simp [hu]

private theorem rebased_executionCounter (globalCounter update : Int) (th : Thread) :
    (rebased globalCounter update th).executionCounter =
      min (th.executionCounter + update) (globalCounter + (2 ^ systemHighest.toNat + 1)) := by
  unfold rebased bringExecCounterToDate
  split
  next h =>
    simp only at h ⊢
    omega
  next h =>
    simp only at h ⊢
    omega

private theorem rebased_subThreads (globalCounter update : Int) (th : Thread) :
    (rebased globalCounter update th).subThreads = th.subThreads := by
  unfold rebased bringExecCounterToDate
  split <;> rfl

/-- The rebase as one update: every linked thread is rebased once. -/
private theorem adjust_eq (e : Engine) (hnd : e.linked.Nodup) :
    adjust e =
      if e.globalExecutionCounter < -executionCounterMaximum then
        { e with
          globalExecutionCounter := e.globalExecutionCounter + executionCounterAdjustment
          thread := fun u =>
            if u ∈ e.linked then
              rebased (e.globalExecutionCounter + executionCounterAdjustment)
                executionCounterAdjustment (e.thread u)
            else e.thread u }
      else e := by
  obtain ⟨hrw, hz, hdisj⟩ := List.nodup_append.mp hnd
  obtain ⟨hr, hw, hdisj'⟩ := List.nodup_append.mp hrw
  unfold adjust
  split
  · dsimp only
    rw [adjustExecutionCounter_eq _ e.threadsReady _ hr]
    dsimp only
    rw [adjustExecutionCounter_eq _ e.threadsWaiting _ hw]
    dsimp only
    rw [adjustExecutionCounter_eq _ e.threadsZombie _ hz]
    simp only [Engine.mk.injEq, and_self, and_true]
    funext u
    by_cases hur : u ∈ e.threadsReady
    · have huw : u ∉ e.threadsWaiting := fun h => hdisj' u hur u h rfl
      have huz : u ∉ e.threadsZombie := fun h => hdisj u (by simp [hur]) u h rfl
      simp [linked, hur, huw, huz]
    · by_cases huw : u ∈ e.threadsWaiting
      · have huz : u ∉ e.threadsZombie := fun h => hdisj u (by simp [huw]) u h rfl
        simp [linked, hur, huw, huz]
      · simp [linked, hur, huw]
  · rfl

private theorem Inv.adjust {s : Scheduler} (h : s.Inv) (hrun : s.running = none)
    (hok : AdjustKeepsOrder s.engine) : Inv { s with engine := adjust s.engine } := by
  rw [adjust_eq s.engine h.nodup]
  split
  next hlow =>
    refine ⟨h.nodup, ?_⟩
    have hord := h.ordered
    simp only [queued, hrun] at hord ⊢
    refine (hord.and (hok hlow)).imp_of_mem ?_
    intro a b ha hb hab
    obtain ⟨hkey, hcut⟩ := hab
    have hal : a ∈ s.engine.linked := by simp [linked, ha]
    have hbl : b ∈ s.engine.linked := by simp [linked, hb]
    simp only [getExecutionCounter, getThreadPriority, currentSubThread, counterLimit, hal, hbl,
      if_true, rebased_executionCounter, rebased_subThreads] at hkey hcut ⊢
    omega
  next => exact h

private theorem debit_key_of_ne (e : Engine) {t u : ThreadId} (hu : u ≠ t) :
    (debit e t).getExecutionCounter u = e.getExecutionCounter u := by
  simp only [getExecutionCounter, getThreadPriority, currentSubThread, debit,
    modifyThread_of_ne e _ hu]
  rfl

private theorem Inv.schedule {s : Scheduler} (h : s.Inv) (hrun : s.running = none)
    (t : ThreadId) : Inv { engine := debit s.engine t, running := some t } := by
  have hnot : t ∉ s.engine.threadsReady.erase t := (ready_nodup h.nodup).not_mem_erase
  refine h.congr rfl ?_ ?_
  · have hsub : List.Sublist (s.engine.threadsReady.erase t) s.engine.threadsReady :=
      List.erase_sublist
    simp only [queued, hrun]
    exact hsub
  · intro u hu
    have hut : u ≠ t := fun heq => hnot (heq ▸ hu)
    exact debit_key_of_ne s.engine hut

private theorem Inv.sleepZero {s : Scheduler} (h : s.Inv) {r : ThreadId}
    (hrun : s.running = some r) :
    Inv { s with engine := updateToLowestExecutionCounter s.engine r } := by
  have hnot : r ∉ s.engine.threadsReady.erase r := (ready_nodup h.nodup).not_mem_erase
  refine h.congr rfl (List.Sublist.refl _) ?_
  intro u hu
  have hur : u ≠ r := by
    rintro rfl
    simp only [queued, hrun] at hu
    exact hnot hu
  simp only [getExecutionCounter, getThreadPriority, currentSubThread,
    updateToLowestExecutionCounter, modifyThread_of_ne s.engine _ hur]
  rfl

private theorem step_inv {s s' : Scheduler} {a : Action} (h : s.Inv) (hok : s.KeepsOrder a)
    (hstep : s.step a = some s') : s'.Inv := by
  cases a with
  | newThread t sth priority system delegate =>
      simp only [step] at hstep
      split at hstep
      next hfresh =>
        cases hstep
        exact h.newThread hfresh priority system delegate hok
      next => cases hstep
  | restart t deleteEvent =>
      cases hstep
      exact h.restart t deleteEvent hok
  | suspend t =>
      cases hstep
      exact h.suspend t
  | resume t =>
      cases hstep
      exact h.resume t hok
  | setCctorThread t =>
      cases hstep
      exact h.congr rfl (List.Sublist.refl _) fun _ _ => rfl
  | adjust =>
      cases hrun : s.running with
      | some r => simp [step, hrun] at hstep
      | none =>
          simp only [step, hrun, Option.some.injEq] at hstep
          rw [← hstep, ← hrun]
          exact h.adjust hrun hok
  | schedule =>
      cases hrun : s.running with
      | some r => simp [step, hrun] at hstep
      | none =>
          simp only [step, hrun] at hstep
          split at hstep
          next t _ =>
            cases hstep
            exact h.schedule hrun t
          next =>
            cases hstep
            exact h
  | sleepZero =>
      cases hrun : s.running with
      | none => simp [step, hrun] at hstep
      | some r =>
          simp only [step, hrun, Option.some.injEq] at hstep
          rw [← hstep, ← hrun]
          exact h.sleepZero hrun
  | setRunningStatus status =>
      cases hrun : s.running with
      | none => simp [step, hrun] at hstep
      | some r =>
          simp only [step, hrun, Option.some.injEq] at hstep
          rw [← hstep, ← hrun]
          exact h.congr rfl (List.Sublist.refl _) fun u _ =>
            congrFun (setStatus_key s.engine r status) u
  | endQuantum result =>
      cases hrun : s.running with
      | none => simp [step, hrun] at hstep
      | some r =>
          simp only [step, hrun, Option.some.injEq] at hstep
          rw [← hstep]
          set status := statusAfter result (s.engine.thread r).status
          have hset : Inv { s with engine := s.engine.setStatus r status } :=
            h.congr rfl (List.Sublist.refl _) fun u _ =>
              congrFun (setStatus_key s.engine r status) u
          exact hset.requeue_running hrun (putInProperList_requeued _ r)

/-! ## Runs -/

private theorem initial_inv {s : Scheduler} (h : s.Initial) : s.Inv := by
  obtain ⟨hrun, hready, hwaiting, hzombie, -, -⟩ := h
  constructor
  · simp [linked, hready, hwaiting, hzombie]
  · simp [queued, hrun, hready, Ordered]

/-- The engine at boot, with blank records for the threads that do not exist yet. -/
def boot : Scheduler where
  engine :=
    { thread := fun _ =>
        { status := .unstarted, suspended := false, system := false, executionCounter := 0,
          waitForEvents := 0, waitForEventsTimeout := timeoutInfinite, waitForObject := none,
          waitForObjectResult := .init, locks := [], lockRequestsCount := 0, subThreads := [] }
      subThread := fun _ => { owningThread := 0, priority := 0, lockRequestsCount := 0 }
      threadsReady := [], threadsWaiting := [], threadsZombie := []
      globalExecutionCounter := 0, cctorThread := none }
  running := none

theorem boot_initial : boot.Initial := ⟨rfl, rfl, rfl, rfl, rfl, rfl⟩

end Scheduler

end TinyCLR
