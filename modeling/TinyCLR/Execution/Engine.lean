import Mathlib

/-!
# Threads and their queues

The part of `CLR_RT_ExecutionEngine` that queues threads: the thread and sub-thread records, the
ready, waiting and zombie lists, and the operations that move a thread between them.
The counters are 32-bit in the source; the rebase in `ScheduleThreads` keeps them far from the
ends of that range, so they are integers here.
-/

namespace TinyCLR

abbrev ThreadId := Nat
abbrev SubThreadId := Nat
abbrev ObjectId := Nat
abbrev LockId := Nat

/-- `TH_S_Ready`, `TH_S_Waiting`, `TH_S_Terminated` and `TH_S_Unstarted`. -/
inductive ThreadStatus where
  | ready
  | waiting
  | terminated
  | unstarted
  deriving DecidableEq, Repr

/-- `TH_WAIT_RESULT_INIT`, `_HANDLE_0 + i`, `_TIMEOUT` and `_HANDLE_ALL`. -/
inductive WaitResult where
  | init
  | handle (i : Nat)
  | timeout
  | handleAll
  deriving DecidableEq, Repr

/-- `CLR_RT_HeapBlock_WaitForObject`: the objects a thread waits for. -/
structure WaitForObject where
  timeExpire : Int
  objects : List ObjectId
  waitAll : Bool
  deriving DecidableEq, Repr

/-- `CLR_RT_SubThread`, whose owner is the thread in whose `subThreads` it is linked. -/
structure SubThread where
  owningThread : ThreadId
  priority : Int
  lockRequestsCount : Nat
  deriving DecidableEq, Repr

def timeoutInfinite : Int := 0x7FFFFFFFFFFFFFFF

/-- `CLR_RT_Thread`, less its stack and its exception state. -/
structure Thread where
  status : ThreadStatus
  suspended : Bool
  system : Bool
  executionCounter : Int
  waitForEvents : Nat
  waitForEventsTimeout : Int
  waitForObject : Option WaitForObject
  waitForObjectResult : WaitResult
  locks : List LockId
  lockRequestsCount : Nat
  subThreads : List SubThreadId
  deriving DecidableEq, Repr

structure Engine where
  thread : ThreadId → Thread
  subThread : SubThreadId → SubThread
  threadsReady : List ThreadId
  threadsWaiting : List ThreadId
  threadsZombie : List ThreadId
  globalExecutionCounter : Int
  /-- The thread of the running static constructors, if there is one. -/
  cctorThread : Option ThreadId

/-- The priorities of `ThreadPriority`, from `Lowest` to `System_Highest`. -/
def systemHighest : Int := 5

namespace Engine

def modifyThread (e : Engine) (t : ThreadId) (f : Thread → Thread) : Engine :=
  { e with thread := Function.update e.thread t (f (e.thread t)) }

/-- `CurrentSubThread`: the last sub-thread of the list. -/
def currentSubThread (e : Engine) (t : ThreadId) : SubThreadId :=
  (e.thread t).subThreads.getLastD 0

def getThreadPriority (e : Engine) (t : ThreadId) : Int :=
  (e.subThread (e.currentSubThread t)).priority

/-- The key that orders the ready list. -/
def getExecutionCounter (e : Engine) (t : ThreadId) : Int :=
  e.getThreadPriority t + (e.thread t).executionCounter

def getQuantumDebit (e : Engine) (t : ThreadId) : Int :=
  2 ^ (systemHighest - e.getThreadPriority t).toNat

/-- `BringExecCounterToDate`; its debit argument is not used by the source. -/
def bringExecCounterToDate (globalCounter : Int) (th : Thread) : Thread :=
  if th.executionCounter - globalCounter > 2 ^ systemHighest.toNat + 1 then
    { th with executionCounter := globalCounter + (2 ^ systemHighest.toNat + 1) }
  else th

/-- The threads that are linked in one of the lists. -/
def linked (e : Engine) : List ThreadId :=
  e.threadsReady ++ e.threadsWaiting ++ e.threadsZombie

/-- Removes a thread from the list in which it is linked. -/
def unlink (e : Engine) (t : ThreadId) : Engine :=
  { e with
    threadsReady := e.threadsReady.erase t
    threadsWaiting := e.threadsWaiting.erase t
    threadsZombie := e.threadsZombie.erase t }

/-- The scan of `InsertThreadRoundRobin`: the target goes before the first thread whose
execution counter is smaller, or to the tail. -/
def insertBefore (key : ThreadId → Int) (target : ThreadId) : List ThreadId → List ThreadId
  | [] => [target]
  | th :: threads =>
      if key th < key target then target :: th :: threads
      else th :: insertBefore key target threads

def clearEvents (th : Thread) : Thread :=
  { th with waitForEvents := 0, waitForEventsTimeout := timeoutInfinite }

/-- Drops the wait of a thread: `m_waitForEvents`, its timeout and `m_waitForObject`. -/
def clearWait (th : Thread) : Thread :=
  { clearEvents th with waitForObject := none }

def insertThreadRoundRobin (e : Engine) (t : ThreadId) : Engine :=
  let e' := (e.unlink t).modifyThread t clearWait
  { e' with threadsReady := insertBefore e.getExecutionCounter t e'.threadsReady }

def linkWaitingAtBack (e : Engine) (t : ThreadId) : Engine :=
  let e' := e.unlink t
  { e' with threadsWaiting := e'.threadsWaiting ++ [t] }

def linkZombieAtFront (e : Engine) (t : ThreadId) : Engine :=
  let e' := e.unlink t
  { e' with threadsZombie := t :: e'.threadsZombie }

/-- The record `Passivate` leaves: no flags, no wait, and the status of a dead thread, which is
`Unstarted` for the reusable system threads. -/
def passivated (th : Thread) : Thread :=
  { clearWait th with
    suspended := false
    status := if th.system then .unstarted else .terminated }

/-- `Passivate` up to `OnThreadTerminated`, whose release of the sub-threads and their locks is
modelled with the locks. -/
def passivate (e : Engine) (t : ThreadId) : Engine :=
  (e.linkZombieAtFront t).modifyThread t passivated

def putInProperList (e : Engine) (t : ThreadId) : Engine :=
  match (e.thread t).status with
  | .ready =>
      if (e.thread t).suspended then e.linkWaitingAtBack t
      else e.insertThreadRoundRobin t
  | .waiting => e.linkWaitingAtBack t
  | .terminated => e.passivate t
  | .unstarted => e.linkZombieAtFront t

def setStatus (e : Engine) (t : ThreadId) (status : ThreadStatus) : Engine :=
  e.modifyThread t fun th => { th with status := status }

/-- `Restart`: wake up and queue. -/
def restart (e : Engine) (t : ThreadId) (deleteEvent : Bool) : Engine :=
  let e' := (e.setStatus t .ready).putInProperList t
  if deleteEvent then e'.modifyThread t clearEvents else e'

def suspend (e : Engine) (t : ThreadId) : Engine :=
  if (e.thread t).suspended = false ∧ (e.thread t).status ≠ .terminated then
    (e.modifyThread t fun th => { th with suspended := true }).putInProperList t
  else e

def resume (e : Engine) (t : ThreadId) : Engine :=
  if (e.thread t).suspended = true ∧ (e.thread t).status ≠ .terminated then
    (e.modifyThread t fun th => { th with suspended := false }).putInProperList t
  else e

/-! ## What the queue operations leave alone -/

@[simp] theorem modifyThread_threadsReady (e : Engine) (t : ThreadId) (f : Thread → Thread) :
    (e.modifyThread t f).threadsReady = e.threadsReady := rfl

@[simp] theorem modifyThread_threadsWaiting (e : Engine) (t : ThreadId) (f : Thread → Thread) :
    (e.modifyThread t f).threadsWaiting = e.threadsWaiting := rfl

@[simp] theorem modifyThread_threadsZombie (e : Engine) (t : ThreadId) (f : Thread → Thread) :
    (e.modifyThread t f).threadsZombie = e.threadsZombie := rfl

@[simp] theorem modifyThread_linked (e : Engine) (t : ThreadId) (f : Thread → Thread) :
    (e.modifyThread t f).linked = e.linked := rfl

@[simp] theorem modifyThread_self (e : Engine) (t : ThreadId) (f : Thread → Thread) :
    (e.modifyThread t f).thread t = f (e.thread t) := by
  simp [modifyThread]

@[simp] theorem modifyThread_of_ne (e : Engine) {t u : ThreadId} (f : Thread → Thread)
    (h : u ≠ t) : (e.modifyThread t f).thread u = e.thread u := by
  simp [modifyThread, h]

/-- The key of a thread only reads its counter, its sub-threads and their priorities. -/
theorem getExecutionCounter_modifyThread (e : Engine) (t : ThreadId) (f : Thread → Thread)
    (hcounter : (f (e.thread t)).executionCounter = (e.thread t).executionCounter)
    (hsub : (f (e.thread t)).subThreads = (e.thread t).subThreads) :
    (e.modifyThread t f).getExecutionCounter = e.getExecutionCounter := by
  funext u
  by_cases h : u = t
  · subst h
    simp [getExecutionCounter, getThreadPriority, currentSubThread, hcounter, hsub]
    rfl
  · simp [getExecutionCounter, getThreadPriority, currentSubThread, h]
    rfl

theorem insertBefore_perm (key : ThreadId → Int) (t : ThreadId) (l : List ThreadId) :
    (insertBefore key t l).Perm (t :: l) := by
  induction l with
  | nil => rfl
  | cons a l ih =>
      simp only [insertBefore]
      split
      · rfl
      · exact (ih.cons a).trans (List.Perm.swap t a l)

theorem unlink_linked_sublist (e : Engine) (t : ThreadId) :
    List.Sublist (e.unlink t).linked e.linked :=
  (List.erase_sublist.append List.erase_sublist).append List.erase_sublist

theorem ready_nodup {e : Engine} (hnd : e.linked.Nodup) : e.threadsReady.Nodup :=
  (List.nodup_append.mp (List.nodup_append.mp hnd).1).1

theorem waiting_nodup {e : Engine} (hnd : e.linked.Nodup) : e.threadsWaiting.Nodup :=
  (List.nodup_append.mp (List.nodup_append.mp hnd).1).2.1

theorem not_mem_waiting_of_ready {e : Engine} (hnd : e.linked.Nodup) {t : ThreadId}
    (ht : t ∈ e.threadsReady) : t ∉ e.threadsWaiting := fun hw =>
  (List.nodup_append.mp (List.nodup_append.mp hnd).1).2.2 t ht t hw rfl

theorem not_mem_unlink {e : Engine} (t : ThreadId) (hnd : e.linked.Nodup) :
    t ∉ (e.unlink t).linked := by
  have hab := List.nodup_append.mp hnd
  have ha := List.nodup_append.mp hab.1
  simp only [unlink, linked, List.mem_append, not_or]
  exact ⟨⟨ha.1.not_mem_erase, ha.2.1.not_mem_erase⟩, hab.2.1.not_mem_erase⟩

theorem linkWaitingAtBack_linked (e : Engine) (t : ThreadId) :
    (e.linkWaitingAtBack t).linked.Perm (t :: (e.unlink t).linked) := by
  simp only [linkWaitingAtBack, linked, List.append_assoc]
  exact (List.perm_middle.append_left _).trans List.perm_middle

theorem linkZombieAtFront_linked (e : Engine) (t : ThreadId) :
    (e.linkZombieAtFront t).linked.Perm (t :: (e.unlink t).linked) := by
  simp only [linkZombieAtFront, linked]
  exact List.perm_middle

theorem insertThreadRoundRobin_linked (e : Engine) (t : ThreadId) :
    (e.insertThreadRoundRobin t).linked.Perm (t :: (e.unlink t).linked) := by
  simp only [insertThreadRoundRobin, linked]
  rw [List.append_assoc, List.append_assoc]
  exact (insertBefore_perm _ _ _).append_right _

/-- Wherever the thread goes, it ends up in exactly one list and no other thread moves. -/
theorem putInProperList_linked (e : Engine) (t : ThreadId) :
    (e.putInProperList t).linked.Perm (t :: (e.unlink t).linked) := by
  unfold putInProperList
  split
  · split
    · exact linkWaitingAtBack_linked e t
    · exact insertThreadRoundRobin_linked e t
  · exact linkWaitingAtBack_linked e t
  · exact linkZombieAtFront_linked e t
  · exact linkZombieAtFront_linked e t

theorem putInProperList_nodup {e : Engine} (t : ThreadId) (hnd : e.linked.Nodup) :
    (e.putInProperList t).linked.Nodup := by
  rw [(putInProperList_linked e t).nodup_iff, List.nodup_cons]
  exact ⟨not_mem_unlink t hnd, hnd.sublist (unlink_linked_sublist e t)⟩

theorem putInProperList_thread_of_ne (e : Engine) {t u : ThreadId} (h : u ≠ t) :
    (e.putInProperList t).thread u = e.thread u := by
  unfold putInProperList
  split
  · split
    · rfl
    · exact modifyThread_of_ne (e.unlink t) clearWait h
  · rfl
  · exact modifyThread_of_ne (e.linkZombieAtFront t) passivated h
  · rfl

/-- Queueing a thread may drop its wait but never makes one up. -/
theorem putInProperList_waitForObject {e : Engine} {t : ThreadId} {wait : WaitForObject}
    (h : ((e.putInProperList t).thread t).waitForObject = some wait) :
    (e.thread t).waitForObject = some wait := by
  unfold putInProperList at h
  split at h
  · split at h
    · exact h
    · simp [insertThreadRoundRobin, clearWait] at h
  · exact h
  · simp [passivate, passivated, clearWait] at h
  · exact h

theorem mem_waiting_putInProperList (e : Engine) {t u : ThreadId} (h : u ≠ t) :
    u ∈ (e.putInProperList t).threadsWaiting ↔ u ∈ e.threadsWaiting := by
  unfold putInProperList
  split
  · split
    · simp [linkWaitingAtBack, unlink, h]
    · simp [insertThreadRoundRobin, unlink, h]
  · simp [linkWaitingAtBack, unlink, h]
  · simp [passivate, linkZombieAtFront, unlink, h]
  · simp [linkZombieAtFront, unlink, h]

theorem mem_ready_putInProperList (e : Engine) {t u : ThreadId} (h : u ≠ t) :
    u ∈ (e.putInProperList t).threadsReady ↔ u ∈ e.threadsReady := by
  unfold putInProperList
  split
  · split
    · simp [linkWaitingAtBack, unlink, h]
    · have hmem := (insertBefore_perm e.getExecutionCounter t (e.threadsReady.erase t)).mem_iff (a := u)
      simp only [List.mem_cons, h, false_or, List.mem_erase_of_ne h] at hmem
      simpa [insertThreadRoundRobin, unlink] using hmem
  · simp [linkWaitingAtBack, unlink, h]
  · simp [passivate, linkZombieAtFront, unlink, h]
  · simp [linkZombieAtFront, unlink, h]

theorem mem_insertThreadRoundRobin (e : Engine) (t : ThreadId) :
    t ∈ (e.insertThreadRoundRobin t).threadsReady :=
  (insertBefore_perm _ _ _).mem_iff.mpr List.mem_cons_self

theorem putInProperList_waiting (e : Engine) {t : ThreadId} (h : (e.thread t).status = .waiting) :
    e.putInProperList t = e.linkWaitingAtBack t := by
  simp only [putInProperList, h]

theorem putInProperList_suspended (e : Engine) {t : ThreadId}
    (h : (e.thread t).status = .ready) (hsus : (e.thread t).suspended = true) :
    e.putInProperList t = e.linkWaitingAtBack t := by
  simp only [putInProperList, h, hsus, if_true]

theorem putInProperList_ready (e : Engine) {t : ThreadId}
    (h : (e.thread t).status = .ready) (hsus : (e.thread t).suspended = false) :
    e.putInProperList t = e.insertThreadRoundRobin t := by
  simp [putInProperList, h, hsus]

@[simp] theorem mem_linkWaitingAtBack (e : Engine) (t : ThreadId) :
    t ∈ (e.linkWaitingAtBack t).threadsWaiting := by
  simp [linkWaitingAtBack]

@[simp] theorem linkWaitingAtBack_thread (e : Engine) (t : ThreadId) :
    (e.linkWaitingAtBack t).thread = e.thread := rfl

@[simp] theorem insertThreadRoundRobin_thread_self (e : Engine) (t : ThreadId) :
    (e.insertThreadRoundRobin t).thread t = clearWait (e.thread t) :=
  modifyThread_self (e.unlink t) t clearWait

theorem restart_suspended (e : Engine) {t : ThreadId} (deleteEvent : Bool)
    (hsus : (e.thread t).suspended = true) :
    e.restart t deleteEvent =
      if deleteEvent then ((e.setStatus t .ready).linkWaitingAtBack t).modifyThread t clearEvents
      else (e.setStatus t .ready).linkWaitingAtBack t := by
  have hput := putInProperList_suspended (e.setStatus t .ready) (t := t) (by simp [setStatus])
    (by simp [setStatus, hsus])
  rw [restart, hput]

theorem restart_runnable (e : Engine) {t : ThreadId} (deleteEvent : Bool)
    (hsus : (e.thread t).suspended = false) :
    e.restart t deleteEvent =
      if deleteEvent then
        ((e.setStatus t .ready).insertThreadRoundRobin t).modifyThread t clearEvents
      else (e.setStatus t .ready).insertThreadRoundRobin t := by
  have hput := putInProperList_ready (e.setStatus t .ready) (t := t) (by simp [setStatus])
    (by simp [setStatus, hsus])
  rw [restart, hput]

theorem restart_thread_of_ne (e : Engine) (deleteEvent : Bool) {t u : ThreadId} (h : u ≠ t) :
    (e.restart t deleteEvent).thread u = e.thread u := by
  have hput : ((e.setStatus t .ready).putInProperList t).thread u = e.thread u := by
    rw [putInProperList_thread_of_ne _ h]
    exact modifyThread_of_ne e _ h
  cases deleteEvent with
  | false => exact hput
  | true => exact (modifyThread_of_ne _ clearEvents h).trans hput

theorem mem_waiting_restart (e : Engine) (deleteEvent : Bool) {t u : ThreadId} (h : u ≠ t) :
    u ∈ (e.restart t deleteEvent).threadsWaiting ↔ u ∈ e.threadsWaiting := by
  have hput := mem_waiting_putInProperList (e.setStatus t .ready) h
  cases deleteEvent with
  | false => exact hput
  | true => exact hput

/-- A field of all threads after one thread was modified. -/
theorem modifyThread_field {α : Type} (field : Thread → α) (e : Engine) (t : ThreadId)
    (f : Thread → Thread) :
    (fun u => field ((e.modifyThread t f).thread u)) =
      Function.update (fun u => field (e.thread u)) t (field (f (e.thread t))) := by
  funext u
  by_cases h : u = t
  · subst h
    simp
  · simp [h]

theorem modifyThread_field_same {α : Type} (field : Thread → α) (e : Engine) (t : ThreadId)
    (f : Thread → Thread) (h : field (f (e.thread t)) = field (e.thread t)) :
    (fun u => field ((e.modifyThread t f).thread u)) = fun u => field (e.thread u) := by
  rw [modifyThread_field, h]
  exact Function.update_eq_self t _

/-- Queueing a thread only touches its wait, its flags and its status. -/
theorem putInProperList_field {α : Type} (field : Thread → α)
    (hclear : ∀ th, field (clearWait th) = field th)
    (hpassive : ∀ th, field (passivated th) = field th) (e : Engine) (t : ThreadId) :
    (fun u => field ((e.putInProperList t).thread u)) = fun u => field (e.thread u) := by
  unfold putInProperList
  split
  · split
    · rfl
    · exact modifyThread_field_same field (e.unlink t) t clearWait (hclear _)
  · rfl
  · exact modifyThread_field_same field (e.linkZombieAtFront t) t passivated (hpassive _)
  · rfl

theorem restart_field {α : Type} (field : Thread → α)
    (hstatus : ∀ th status, field { th with status := status } = field th)
    (hevents : ∀ th, field (clearEvents th) = field th)
    (hclear : ∀ th, field (clearWait th) = field th)
    (hpassive : ∀ th, field (passivated th) = field th) (e : Engine) (t : ThreadId)
    (deleteEvent : Bool) :
    (fun u => field ((e.restart t deleteEvent).thread u)) = fun u => field (e.thread u) := by
  have hput : (fun u => field (((e.setStatus t .ready).putInProperList t).thread u)) =
      fun u => field (e.thread u) :=
    (putInProperList_field field hclear hpassive _ t).trans
      (modifyThread_field_same field e t _ (hstatus _ _))
  cases deleteEvent with
  | false => exact hput
  | true => exact (modifyThread_field_same field _ t clearEvents (hevents _)).trans hput

@[simp] theorem putInProperList_subThread (e : Engine) (t : ThreadId) :
    (e.putInProperList t).subThread = e.subThread := by
  unfold putInProperList
  split
  · split <;> rfl
  · rfl
  · rfl
  · rfl

@[simp] theorem restart_subThread (e : Engine) (t : ThreadId) (deleteEvent : Bool) :
    (e.restart t deleteEvent).subThread = e.subThread := by
  have hput : ((e.setStatus t .ready).putInProperList t).subThread = e.subThread :=
    putInProperList_subThread _ t
  cases deleteEvent with
  | false => exact hput
  | true => exact hput

/-- The thread can still run or be woken: it stands in the ready or in the waiting list. -/
def Listed (e : Engine) (t : ThreadId) : Prop :=
  t ∈ e.threadsReady ∨ t ∈ e.threadsWaiting

instance (e : Engine) (t : ThreadId) : Decidable (e.Listed t) :=
  inferInstanceAs (Decidable (_ ∨ _))

theorem Listed.putInProperList {e : Engine} {u : ThreadId} (h : e.Listed u) {t : ThreadId}
    (hstatus : (e.thread t).status = .ready ∨ (e.thread t).status = .waiting) :
    (e.putInProperList t).Listed u := by
  by_cases hu : u = t
  · subst hu
    rcases hstatus with hready | hwaiting
    · cases hsus : (e.thread u).suspended with
      | true =>
          rw [putInProperList_suspended e hready hsus]
          exact .inr (mem_linkWaitingAtBack e u)
      | false =>
          rw [putInProperList_ready e hready hsus]
          exact .inl (mem_insertThreadRoundRobin e u)
    · rw [putInProperList_waiting e hwaiting]
      exact .inr (mem_linkWaitingAtBack e u)
  · exact h.imp (mem_ready_putInProperList e hu).mpr (mem_waiting_putInProperList e hu).mpr

theorem Listed.restart {e : Engine} {u : ThreadId} (h : e.Listed u) (t : ThreadId)
    (deleteEvent : Bool) : (e.restart t deleteEvent).Listed u := by
  have hput : ((e.setStatus t .ready).putInProperList t).Listed u :=
    Listed.putInProperList (e := e.setStatus t .ready) h (.inl (by simp [setStatus]))
  cases deleteEvent with
  | false => exact hput
  | true => exact hput

end Engine

end TinyCLR
