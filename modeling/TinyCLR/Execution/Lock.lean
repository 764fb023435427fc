import TinyCLR.Execution.Engine
import TinyCLR.Library.TransitionSystem

/-!
# Monitors

`CLR_RT_HeapBlock_Lock`: a lock is owned by the sub-threads of one thread and keeps a queue of
lock requests. The functions below follow the source: acquiring and releasing, the hand-over in
`ChangeOwner`, the expiry of requests in `CheckThreads`, and `CLR_RT_SubThread::DestroyInstance`.
The event cache always has a node to hand out.
-/

namespace TinyCLR

open Engine TransitionSystem

/-- `CLR_RT_HeapBlock_Lock::Owner`. -/
structure LockOwner where
  subThread : SubThreadId
  recursion : Nat
  deriving DecidableEq, Repr

/-- `CLR_RT_HeapBlock_LockRequest`, numbered in the order of the requests. -/
structure LockRequest where
  number : Nat
  subThread : SubThreadId
  timeExpire : Int
  force : Bool
  deriving DecidableEq, Repr

structure Lock where
  owningThread : ThreadId
  resource : ObjectId
  owners : List LockOwner
  requests : List LockRequest
  deriving DecidableEq, Repr

structure LockSystem where
  engine : Engine
  /-- The locks that are allocated. -/
  lockIds : List LockId
  lock : LockId → Lock
  /-- `ObjectLock`, for the classes and value types, whose header can hold a lock. -/
  objectLock : ObjectId → Option LockId
  hasHeader : ObjectId → Bool
  nextLock : LockId
  nextRequest : Nat
  nextSubThread : SubThreadId
  /-- The requests that were granted, with their locks. -/
  grants : List (LockId × Nat)

namespace LockSystem

def modifyLock (s : LockSystem) (l : LockId) (f : Lock → Lock) : LockSystem :=
  { s with lock := Function.update s.lock l (f (s.lock l)) }

def modifyThread (s : LockSystem) (t : ThreadId) (f : Thread → Thread) : LockSystem :=
  { s with engine := s.engine.modifyThread t f }

def owningThread (s : LockSystem) (sth : SubThreadId) : ThreadId :=
  (s.engine.subThread sth).owningThread

/-- `m_lockRequestsCount += diff`, for the sub-thread and for its thread. -/
def addLockRequestCount (s : LockSystem) (sth : SubThreadId) (diff : Int) : LockSystem :=
  let e := s.engine.modifyThread (s.owningThread sth) fun th =>
    { th with lockRequestsCount := (th.lockRequestsCount + diff).toNat }
  { s with
    engine :=
      { e with
        subThread := Function.update e.subThread sth
          { e.subThread sth with
            lockRequestsCount := ((e.subThread sth).lockRequestsCount + diff).toNat } } }

/-- `ChangeLockRequestCount`: a thread without pending requests is restarted. -/
def changeLockRequestCount (s : LockSystem) (sth : SubThreadId) (diff : Int) :
    LockSystem × Bool :=
  let t := s.owningThread sth
  let s' := s.addLockRequestCount sth diff
  if (s'.engine.thread t).lockRequestsCount = 0 then
    ({ s' with engine := s'.engine.restart t false }, true)
  else ({ s' with engine := s'.engine.setStatus t .waiting }, false)

/-- Takes a request out of its queue. -/
def unlinkRequest (s : LockSystem) (l : LockId) (req : LockRequest) : LockSystem :=
  s.modifyLock l fun lock => { lock with requests := lock.requests.erase req }

/-- `CLR_RT_HeapBlock_LockRequest::CreateInstance`. -/
def createRequest (s : LockSystem) (l : LockId) (sth : SubThreadId) (timeExpire : Int)
    (force : Bool) : LockSystem :=
  let req :=
    { number := s.nextRequest, subThread := sth, timeExpire := timeExpire, force := force }
  let s' := { s with nextRequest := s.nextRequest + 1 }.modifyLock l fun lock =>
    { lock with requests := lock.requests ++ [req] }
  (s'.changeLockRequestCount sth 1).1

/-- The owner entry of the sub-thread with its recursion count raised, if there is one. -/
def raiseRecursion (sth : SubThreadId) : List LockOwner → Option (List LockOwner)
  | [] => none
  | owner :: owners =>
      if owner.subThread = sth then
        some ({ owner with recursion := owner.recursion + 1 } :: owners)
      else (raiseRecursion sth owners).map (owner :: ·)

/-- The owner entry of the sub-thread with its recursion count lowered, and removed at zero. -/
def lowerRecursion (sth : SubThreadId) : List LockOwner → Option (List LockOwner)
  | [] => none
  | owner :: owners =>
      if owner.subThread = sth then
        if owner.recursion - 1 = 0 then some owners
        else some ({ owner with recursion := owner.recursion - 1 } :: owners)
      else (lowerRecursion sth owners).map (owner :: ·)

/-- `IncrementOwnership`; the flag tells `CLR_E_THREAD_WAITING` from `S_OK`. -/
def incrementOwnership (s : LockSystem) (l : LockId) (sth : SubThreadId) (timeExpire : Int)
    (force : Bool) : LockSystem × Bool :=
  if (s.lock l).owningThread = s.owningThread sth then
    match raiseRecursion sth (s.lock l).owners with
    | some owners => (s.modifyLock l fun lock => { lock with owners := owners }, false)
    | none =>
        (s.modifyLock l fun lock =>
          { lock with owners := { subThread := sth, recursion := 1 } :: lock.owners }, false)
  else (s.createRequest l sth timeExpire force, true)

/-- `SetObjectLock`, for the objects whose header can hold a lock. -/
def setObjectLock (s : LockSystem) (obj : ObjectId) (l : Option LockId) : LockSystem :=
  if s.hasHeader obj then { s with objectLock := Function.update s.objectLock obj l } else s

/-- `CLR_RT_HeapBlock_Lock::CreateInstance`. -/
def createInstance (s : LockSystem) (t : ThreadId) (obj : ObjectId) : LockSystem :=
  let l := s.nextLock
  let s' :=
    { s with
      nextLock := s.nextLock + 1
      lockIds := l :: s.lockIds
      lock := Function.update s.lock l
        { owningThread := t, resource := obj, owners := [], requests := [] } }
  (s'.setObjectLock obj (some l)).modifyThread t fun th => { th with locks := th.locks ++ [l] }

/-- The end of `ChangeOwner` when nobody waits: the lock leaves its object and is freed. -/
def release (s : LockSystem) (l : LockId) : LockSystem :=
  let t := (s.lock l).owningThread
  let s' := s.setObjectLock (s.lock l).resource none
  { s' with lockIds := s'.lockIds.erase l }.modifyThread t fun th =>
    { th with locks := th.locks.erase l }

/-- `th->m_locks.LinkAtBack( this ); m_owningThread = th`. -/
def moveLock (s : LockSystem) (l : LockId) (t : ThreadId) : LockSystem :=
  let s' := s.modifyThread (s.lock l).owningThread fun th => { th with locks := th.locks.erase l }
  (s'.modifyThread t fun th => { th with locks := th.locks ++ [l] }).modifyLock l fun lock =>
    { lock with owningThread := t }

/-- The body of the loop in `ChangeOwner`, which serves the first request and returns. -/
def serveRequest (s : LockSystem) (l : LockId) (req : LockRequest) : LockSystem :=
  let t := s.owningThread req.subThread
  let s := ((s.unlinkRequest l req).changeLockRequestCount req.subThread (-1)).1
  let s := { s.moveLock l t with grants := s.grants ++ [(l, req.number)] }
  (s.incrementOwnership l req.subThread timeoutInfinite false).1

/-- `ChangeOwner`: the first requester becomes the owner. -/
def changeOwner (s : LockSystem) (l : LockId) : LockSystem :=
  let s := s.modifyLock l fun lock => { lock with owners := [] }
  match (s.lock l).requests with
  | [] => s.release l
  | req :: _ => s.serveRequest l req

/-- `DecrementOwnership`, `false` for `CLR_E_LOCK_SYNCHRONIZATION_EXCEPTION`. -/
def decrementOwnership (s : LockSystem) (l : Option LockId) (sth : SubThreadId) :
    LockSystem × Bool :=
  match l with
  | none => (s, false)
  | some l =>
      if (s.lock l).owningThread = s.owningThread sth then
        match lowerRecursion sth (s.lock l).owners with
        | none => (s, false)
        | some owners =>
            let s' := s.modifyLock l fun lock => { lock with owners := owners }
            (if owners = [] then s'.changeOwner l else s', true)
      else (s, false)

/-- `DestroyOwner`. -/
def destroyOwner (s : LockSystem) (l : LockId) (sth : SubThreadId) : LockSystem :=
  let owners := (s.lock l).owners.filter (·.subThread ≠ sth)
  let s' := s.modifyLock l fun lock => { lock with owners := owners }
  if owners = [] then s'.changeOwner l else s'

/-- The search of `FindLockObject` through the locks of a list of threads. -/
def findLockAmong (s : LockSystem) (threads : List ThreadId) (obj : ObjectId) : Option LockId :=
  (threads.flatMap fun t => (s.engine.thread t).locks).find? fun l => (s.lock l).resource = obj

def findLockObject (s : LockSystem) (obj : ObjectId) : Option LockId :=
  if s.hasHeader obj then s.objectLock obj
  else
    match s.findLockAmong s.engine.threadsReady obj with
    | some l => some l
    | none => s.findLockAmong s.engine.threadsWaiting obj

/-- `LockObject` for an executing sub-thread. When it has to wait, its quantum ends and its thread
is queued. -/
def lockObject (s : LockSystem) (obj : ObjectId) (sth : SubThreadId) (timeExpire : Int)
    (force : Bool) : LockSystem :=
  let found :=
    match s.findLockObject obj with
    | some l => (s, l)
    | none => (s.createInstance (s.owningThread sth) obj, s.nextLock)
  match found.1.incrementOwnership found.2 sth timeExpire force with
  | (s', true) => { s' with engine := s'.engine.putInProperList (s'.owningThread sth) }
  | (s', false) => s'

def unlockObject (s : LockSystem) (obj : ObjectId) (sth : SubThreadId) : LockSystem :=
  (s.decrementOwnership (s.findLockObject obj) sth).1

/-- One request: it leaves its queue and the books. -/
def deleteRequest (s : LockSystem) (l : LockId) (req : LockRequest) : LockSystem × Bool :=
  (s.unlinkRequest l req).changeLockRequestCount req.subThread (-1)

/-- The requests of one lock; the walk ends when the last request of a thread is gone. -/
def deleteLockRequestsOf (sthTarget : SubThreadId) (l : LockId) :
    List LockRequest → LockSystem → LockSystem × Bool
  | [], s => (s, false)
  | req :: reqs, s =>
      if req.subThread = sthTarget then
        match s.deleteRequest l req with
        | (s', true) => (s', true)
        | (s', false) => deleteLockRequestsOf sthTarget l reqs s'
      else deleteLockRequestsOf sthTarget l reqs s

/-- The locks of one list of threads. -/
def deleteLockRequestsAmong (sthTarget : SubThreadId) :
    List LockId → LockSystem → LockSystem × Bool
  | [], s => (s, false)
  | l :: locks, s =>
      match deleteLockRequestsOf sthTarget l (s.lock l).requests s with
      | (s', true) => (s', true)
      | (s', false) => deleteLockRequestsAmong sthTarget locks s'

/-- `DeleteLockRequests( NULL, sth )`. The return in the middle of a walk only leaves the walk over
the ready threads or that over the waiting threads. -/
def deleteLockRequests (s : LockSystem) (sthTarget : SubThreadId) : LockSystem :=
  if (s.engine.subThread sthTarget).lockRequestsCount = 0 then s
  else
    let s' := (deleteLockRequestsAmong sthTarget
      (s.engine.threadsReady.flatMap fun t => (s.engine.thread t).locks) s).1
    (deleteLockRequestsAmong sthTarget
      (s'.engine.threadsWaiting.flatMap fun t => (s'.engine.thread t).locks) s').1

/-- The node behind `l`, `none` at the tail. -/
def nextInList (l : LockId) (locks : List LockId) : Option LockId :=
  (locks.dropWhile (· ≠ l)).tail.head?

/-- The walk of `DestroyInstance` over the locks of the thread. The successor is read before
`DestroyOwner`, which may hand the lock to another thread or to the end of the same list. -/
def destroyOwnerWalk (t : ThreadId) (sth : SubThreadId) :
    Nat → Option LockId → LockSystem → Option LockSystem
  | _, none, s => some s
  | 0, some _, _ => none
  | fuel + 1, some l, s =>
      destroyOwnerWalk t sth fuel (nextInList l (s.engine.thread t).locks) (s.destroyOwner l sth)

/-- `g_CLR_RT_EventCache.Append_Node( sth )`. -/
def freeSubThread (s : LockSystem) (t : ThreadId) (sth : SubThreadId) : LockSystem :=
  s.modifyThread t fun th => { th with subThreads := th.subThreads.erase sth }

/-- `CLR_RT_SubThread::DestroyInstance`, for at most `count` sub-threads. Popping the frames of a
sub-thread unlocks the objects of its synchronized methods. -/
def destroyInstance (t : ThreadId) (sthBase : Option SubThreadId) (includeSelf : Bool)
    (synchronized : SubThreadId → List ObjectId) (fuel : Nat) :
    Nat → LockSystem → Option LockSystem
  | 0, s => some s
  | count + 1, s =>
      match (s.engine.thread t).subThreads.getLast? with
      | none => some s
      | some sth =>
          let s := (synchronized sth).foldl (fun s obj => s.unlockObject obj sth) s
          match destroyOwnerWalk t sth fuel (s.engine.thread t).locks.head? s with
          | none => none
          | some s =>
              let s := s.deleteLockRequests sth
              if some sth = sthBase ∧ includeSelf = false then some s
              else if some sth = sthBase then some (s.freeSubThread t sth)
              else
                destroyInstance t sthBase includeSelf synchronized fuel count
                  (s.freeSubThread t sth)

/-- `DestroyInstance` of a live thread from `sthBase` on. -/
def destroyFrom (s : LockSystem) (t : ThreadId) (sthBase : SubThreadId) (includeSelf : Bool)
    (synchronized : SubThreadId → List ObjectId) (fuel : Nat) : Option LockSystem :=
  destroyInstance t (some sthBase) includeSelf synchronized fuel
    (s.engine.thread t).subThreads.length s

/-- `Passivate` and `OnThreadTerminated` of a thread that is not a system thread. -/
def terminateThread (s : LockSystem) (t : ThreadId) (synchronized : SubThreadId → List ObjectId)
    (fuel : Nat) : Option LockSystem :=
  destroyInstance t none false synchronized fuel (s.engine.thread t).subThreads.length
    { s with engine := s.engine.passivate t }

inductive Action where
  | createSubThread (t : ThreadId) (priority : Int)
  | lockObject (obj : ObjectId) (sth : SubThreadId) (timeExpire : Int) (force : Bool)
  | unlockObject (obj : ObjectId) (sth : SubThreadId)
  | requestExpired (l : LockId) (req : LockRequest)
  | constraintExpired (t : ThreadId) (sth : SubThreadId)
      (synchronized : SubThreadId → List ObjectId) (fuel : Nat)
  | popSubThread (t : ThreadId) (sth : SubThreadId)
      (synchronized : SubThreadId → List ObjectId) (fuel : Nat)
  | terminate (t : ThreadId) (synchronized : SubThreadId → List ObjectId) (fuel : Nat)
  | abort (t : ThreadId)

/-- The thread that executes: it is ready and stands in the ready list. -/
def Executing (s : LockSystem) (sth : SubThreadId) : Prop :=
  sth ∈ (s.engine.thread (s.owningThread sth)).subThreads ∧
    (s.engine.thread (s.owningThread sth)).status = .ready ∧
    s.owningThread sth ∈ s.engine.threadsReady

instance (s : LockSystem) (sth : SubThreadId) : Decidable (s.Executing sth) :=
  inferInstanceAs (Decidable (_ ∧ _ ∧ _))

def step (s : LockSystem) : Action → Option LockSystem
  | .createSubThread t priority =>
      let sth := s.nextSubThread
      let s' := { s with
        nextSubThread := sth + 1
        engine :=
          { s.engine with
            subThread := Function.update s.engine.subThread sth
              { owningThread := t, priority := priority, lockRequestsCount := 0 } } }
      some (s'.modifyThread t fun th => { th with subThreads := th.subThreads ++ [sth] })
  | .lockObject obj sth timeExpire force =>
      if s.Executing sth then some (s.lockObject obj sth timeExpire force) else none
  | .unlockObject obj sth => if s.Executing sth then some (s.unlockObject obj sth) else none
  | .requestExpired l req =>
      -- `CheckThreads` walks the locks of the listed threads.
      if l ∈ s.lockIds ∧ s.engine.Listed (s.lock l).owningThread ∧ req ∈ (s.lock l).requests then
        some (s.deleteRequest l req).1
      else none
  | .constraintExpired t sth synchronized fuel =>
      if sth ∈ (s.engine.thread t).subThreads ∧ s.engine.Listed t then
        (s.destroyFrom t sth false synchronized fuel).map fun s' =>
          { s' with engine := s'.engine.restart t true }
      else none
  | .popSubThread t sth synchronized fuel =>
      if sth ∈ (s.engine.thread t).subThreads ∧ s.engine.Listed t then
        s.destroyFrom t sth true synchronized fuel
      else none
  | .terminate t synchronized fuel =>
      if (s.engine.thread t).system = false then s.terminateThread t synchronized fuel else none
  | .abort t =>
      if (s.engine.thread t).status ≠ .terminated then
        some { s with engine := s.engine.restart t true }
      else none

/-! ## The books of the locks -/

/-- How many pending requests satisfy `p`, over all locks. -/
def requestCount (s : LockSystem) (p : LockRequest → Bool) : Nat :=
  (s.lockIds.map fun l => (s.lock l).requests.countP p).sum

structure Consistent (s : LockSystem) : Prop where
  oneLock : ∀ l ∈ s.lockIds, ∀ l' ∈ s.lockIds, (s.lock l).resource = (s.lock l').resource → l = l'
  owned : ∀ l ∈ s.lockIds, (s.lock l).owners ≠ []
  ownersBelong : ∀ l ∈ s.lockIds, ∀ owner ∈ (s.lock l).owners,
    owner.subThread ∈ (s.engine.thread (s.lock l).owningThread).subThreads
  /-- A request is in one queue only, and once. -/
  oneQueue : ∀ l ∈ s.lockIds, ∀ l' ∈ s.lockIds, ∀ req ∈ (s.lock l).requests,
    ∀ req' ∈ (s.lock l').requests, req.number = req'.number → l = l'
  queueNodup : ∀ l ∈ s.lockIds, ((s.lock l).requests.map LockRequest.number).Nodup
  subThreadCount : ∀ t, ∀ sth ∈ (s.engine.thread t).subThreads,
    (s.engine.subThread sth).lockRequestsCount = s.requestCount fun req => req.subThread = sth
  threadCount : ∀ t, (s.engine.thread t).lockRequestsCount =
    s.requestCount fun req => s.owningThread req.subThread = t
  /-- The grants of a lock are in the order of the requests, before all that still wait. -/
  grantsInOrder : ∀ l, ((s.grants.filter (·.1 = l)).map Prod.snd).Pairwise (· < ·)
  grantsFirst : ∀ l ∈ s.lockIds, ∀ req ∈ (s.lock l).requests, ∀ n, (l, n) ∈ s.grants → n < req.number
  /-- The header of an object refers to its lock, and to none when there is no lock. -/
  header : ∀ obj, s.hasHeader obj = true → ∀ l,
    s.objectLock obj = some l ↔ l ∈ s.lockIds ∧ (s.lock l).resource = obj

/-- The sub-threads that `DestroyInstance` frees. -/
def freed (s : LockSystem) (t : ThreadId) (sthBase : SubThreadId) (includeSelf : Bool) :
    List SubThreadId :=
  let rest := (s.engine.thread t).subThreads.dropWhile (· ≠ sthBase)
  if includeSelf then rest else rest.tail

/-- None of these sub-threads waits for a lock that its own thread holds. -/
def NoSelfRequest (s : LockSystem) (t : ThreadId) (sths : List SubThreadId) : Prop :=
  ∀ l ∈ (s.engine.thread t).locks, ∀ req ∈ (s.lock l).requests, req.subThread ∉ sths

instance (s : LockSystem) (t : ThreadId) (sths : List SubThreadId) :
    Decidable (s.NoSelfRequest t sths) :=
  inferInstanceAs (Decidable (∀ l ∈ _, ∀ req ∈ _, _))

/-- The steps that free no sub-thread which still waits for a lock of its own thread. -/
def FreesNoRequester (s : LockSystem) : Action → Prop
  | .constraintExpired t sth _ _ => s.NoSelfRequest t (s.freed t sth false)
  | .popSubThread t sth _ _ => s.NoSelfRequest t (s.freed t sth true)
  | .terminate t _ _ => s.NoSelfRequest t (s.engine.thread t).subThreads
  | _ => True

instance (s : LockSystem) : (a : Action) → Decidable (s.FreesNoRequester a)
  | .constraintExpired .. | .popSubThread .. | .terminate .. =>
      inferInstanceAs (Decidable (s.NoSelfRequest _ _))
  | .createSubThread .. | .lockObject .. | .unlockObject .. | .requestExpired .. | .abort _ =>
      .isTrue trivial

/-- No locks yet; every sub-thread stands in the list of its thread. -/
def Initial (s : LockSystem) : Prop :=
  s.lockIds = [] ∧ s.grants = [] ∧ (∀ obj, s.objectLock obj = none) ∧
    (∀ t, (s.engine.thread t).locks = [] ∧ (s.engine.thread t).lockRequestsCount = 0 ∧
      (s.engine.thread t).subThreads.Nodup ∧
      ∀ sth ∈ (s.engine.thread t).subThreads, sth < s.nextSubThread ∧
        s.engine.subThread sth = { s.engine.subThread sth with
          owningThread := t, lockRequestsCount := 0 })

end LockSystem

end TinyCLR
