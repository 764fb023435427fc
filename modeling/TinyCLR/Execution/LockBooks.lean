import TinyCLR.Execution.Lock

/-!
# The books of the monitors

What the locks see of the engine: the lock table and the locks, sub-threads and request counts of
each thread, without the queues of the scheduler. Every operation on locks acts on the books by
one of a few updates, and each update keeps the invariant of the books.
-/

namespace TinyCLR

open Engine

namespace LockSystem

/-- The lock table and the parts of the threads that belong to it. -/
structure Books where
  lockIds : List LockId
  lock : LockId → Lock
  objectLock : ObjectId → Option LockId
  hasHeader : ObjectId → Bool
  nextLock : LockId
  nextRequest : Nat
  nextSubThread : SubThreadId
  grants : List (LockId × Nat)
  locks : ThreadId → List LockId
  lockRequestsCount : ThreadId → Nat
  subThreads : ThreadId → List SubThreadId
  owningThread : SubThreadId → ThreadId
  subThreadRequests : SubThreadId → Nat

def books (s : LockSystem) : Books where
  lockIds := s.lockIds
  lock := s.lock
  objectLock := s.objectLock
  hasHeader := s.hasHeader
  nextLock := s.nextLock
  nextRequest := s.nextRequest
  nextSubThread := s.nextSubThread
  grants := s.grants
  locks := fun t => (s.engine.thread t).locks
  lockRequestsCount := fun t => (s.engine.thread t).lockRequestsCount
  subThreads := fun t => (s.engine.thread t).subThreads
  owningThread := s.owningThread
  subThreadRequests := fun sth => (s.engine.subThread sth).lockRequestsCount

namespace Books

def setOwners (b : Books) (l : LockId) (owners : List LockOwner) : Books :=
  { b with lock := Function.update b.lock l { b.lock l with owners := owners } }

def setRequests (b : Books) (l : LockId) (requests : List LockRequest) : Books :=
  { b with lock := Function.update b.lock l { b.lock l with requests := requests } }

def addCount (b : Books) (sth : SubThreadId) (diff : Int) : Books :=
  { b with
    lockRequestsCount := Function.update b.lockRequestsCount (b.owningThread sth)
      (b.lockRequestsCount (b.owningThread sth) + diff).toNat
    subThreadRequests := Function.update b.subThreadRequests sth
      (b.subThreadRequests sth + diff).toNat }

def drop (b : Books) (l : LockId) (req : LockRequest) : Books :=
  (b.setRequests l ((b.lock l).requests.erase req)).addCount req.subThread (-1)

def add (b : Books) (l : LockId) (req : LockRequest) : Books :=
  ({ b with nextRequest := b.nextRequest + 1 }.setRequests l ((b.lock l).requests ++ [req])).addCount
    req.subThread 1

def create (b : Books) (t : ThreadId) (obj : ObjectId) : Books :=
  { b with
    nextLock := b.nextLock + 1
    lockIds := b.nextLock :: b.lockIds
    lock := Function.update b.lock b.nextLock
      { owningThread := t, resource := obj, owners := [], requests := [] }
    objectLock :=
      if b.hasHeader obj then Function.update b.objectLock obj (some b.nextLock) else b.objectLock
    locks := Function.update b.locks t (b.locks t ++ [b.nextLock]) }

def release (b : Books) (l : LockId) : Books :=
  { b with
    lockIds := b.lockIds.erase l
    objectLock :=
      if b.hasHeader (b.lock l).resource then
        Function.update b.objectLock (b.lock l).resource none
      else b.objectLock
    locks := Function.update b.locks (b.lock l).owningThread
      ((b.locks (b.lock l).owningThread).erase l) }

/-- The hand-over of a lock to a sub-thread of `t`. -/
def transfer (b : Books) (l : LockId) (t : ThreadId) (number : Nat) : Books :=
  let locks := Function.update b.locks (b.lock l).owningThread
    ((b.locks (b.lock l).owningThread).erase l)
  { b with
    lock := Function.update b.lock l { b.lock l with owningThread := t }
    locks := Function.update locks t (locks t ++ [l])
    grants := b.grants ++ [(l, number)] }

def freeSubThread (b : Books) (t : ThreadId) (sth : SubThreadId) : Books :=
  { b with subThreads := Function.update b.subThreads t ((b.subThreads t).erase sth) }

def createSubThread (b : Books) (t : ThreadId) : Books :=
  { b with
    nextSubThread := b.nextSubThread + 1
    subThreads := Function.update b.subThreads t (b.subThreads t ++ [b.nextSubThread])
    owningThread := Function.update b.owningThread b.nextSubThread t
    subThreadRequests := Function.update b.subThreadRequests b.nextSubThread 0 }

end Books

theorem books_engine {s : LockSystem} {e : Engine}
    (hlocks : (fun u => (e.thread u).locks) = fun u => (s.engine.thread u).locks)
    (hcount : (fun u => (e.thread u).lockRequestsCount) =
      fun u => (s.engine.thread u).lockRequestsCount)
    (hsubs : (fun u => (e.thread u).subThreads) = fun u => (s.engine.thread u).subThreads)
    (hsub : e.subThread = s.engine.subThread) :
    ({ s with engine := e } : LockSystem).books = s.books := by
  simp only [books, hlocks, hcount, hsubs, Books.mk.injEq, true_and]
  constructor
  · funext sth
    simp only [owningThread, hsub]
  · rw [hsub]

theorem books_restart (s : LockSystem) (t : ThreadId) (deleteEvent : Bool) :
    ({ s with engine := s.engine.restart t deleteEvent } : LockSystem).books = s.books :=
  books_engine
    (restart_field Thread.locks (fun _ _ => rfl) (fun _ => rfl) (fun _ => rfl) (fun _ => rfl) _ t _)
    (restart_field Thread.lockRequestsCount (fun _ _ => rfl) (fun _ => rfl) (fun _ => rfl)
      (fun _ => rfl) _ t _)
    (restart_field Thread.subThreads (fun _ _ => rfl) (fun _ => rfl) (fun _ => rfl)
      (fun _ => rfl) _ t _)
    (restart_subThread _ t _)

theorem books_putInProperList (s : LockSystem) (t : ThreadId) :
    ({ s with engine := s.engine.putInProperList t } : LockSystem).books = s.books :=
  books_engine
    (putInProperList_field Thread.locks (fun _ => rfl) (fun _ => rfl) _ t)
    (putInProperList_field Thread.lockRequestsCount (fun _ => rfl) (fun _ => rfl) _ t)
    (putInProperList_field Thread.subThreads (fun _ => rfl) (fun _ => rfl) _ t)
    (putInProperList_subThread _ t)

theorem books_setStatus (s : LockSystem) (t : ThreadId) (status : ThreadStatus) :
    ({ s with engine := s.engine.setStatus t status } : LockSystem).books = s.books :=
  books_engine (modifyThread_field_same Thread.locks _ t _ rfl)
    (modifyThread_field_same Thread.lockRequestsCount _ t _ rfl)
    (modifyThread_field_same Thread.subThreads _ t _ rfl) rfl

theorem books_passivate (s : LockSystem) (t : ThreadId) :
    ({ s with engine := s.engine.passivate t } : LockSystem).books = s.books :=
  books_engine (modifyThread_field_same Thread.locks _ t _ rfl)
    (modifyThread_field_same Thread.lockRequestsCount _ t _ rfl)
    (modifyThread_field_same Thread.subThreads _ t _ rfl) rfl

theorem books_addLockRequestCount (s : LockSystem) (sth : SubThreadId) (diff : Int) :
    (s.addLockRequestCount sth diff).books = s.books.addCount sth diff := by
  simp only [addLockRequestCount, books, Books.addCount, Books.mk.injEq, true_and]
  refine ⟨modifyThread_field_same Thread.locks _ _ _ rfl,
    modifyThread_field Thread.lockRequestsCount _ _ _,
    modifyThread_field_same Thread.subThreads _ _ _ rfl, ?_, ?_⟩
  · funext u
    by_cases h : u = sth
    · subst h
      simp [owningThread, Engine.modifyThread]
    · simp [owningThread, Engine.modifyThread, h]
  · funext u
    by_cases h : u = sth
    · subst h
      simp [Engine.modifyThread]
    · simp [Engine.modifyThread, h]

theorem books_changeLockRequestCount (s : LockSystem) (sth : SubThreadId) (diff : Int) :
    (s.changeLockRequestCount sth diff).1.books = s.books.addCount sth diff := by
  rw [← books_addLockRequestCount]
  simp only [changeLockRequestCount]
  split
  · exact books_restart _ _ _
  · exact books_setStatus _ _ _

theorem books_modifyLock (s : LockSystem) (l : LockId) (f : Lock → Lock) :
    (s.modifyLock l f).books = { s.books with lock := Function.update s.lock l (f (s.lock l)) } :=
  rfl

theorem books_deleteRequest (s : LockSystem) (l : LockId) (req : LockRequest) :
    (s.deleteRequest l req).1.books = s.books.drop l req :=
  books_changeLockRequestCount _ _ _

theorem books_createRequest (s : LockSystem) (l : LockId) (sth : SubThreadId)
    (timeExpire : Int) (force : Bool) :
    (s.createRequest l sth timeExpire force).books =
      s.books.add l { number := s.nextRequest, subThread := sth, timeExpire := timeExpire,
                      force := force } :=
  books_changeLockRequestCount _ _ _

theorem books_createInstance (s : LockSystem) (t : ThreadId) (obj : ObjectId) :
    (s.createInstance t obj).books = s.books.create t obj := by
  simp only [createInstance, setObjectLock]
  cases h : s.hasHeader obj <;>
    simp only [books, Books.create, modifyThread, h, if_true, Bool.false_eq_true, if_false,
      Books.mk.injEq, true_and] <;>
    exact ⟨modifyThread_field Thread.locks _ _ _,
      modifyThread_field_same Thread.lockRequestsCount _ _ _ rfl,
      modifyThread_field_same Thread.subThreads _ _ _ rfl, rfl, rfl⟩

theorem books_release (s : LockSystem) (l : LockId) :
    (s.release l).books = s.books.release l := by
  simp only [release, setObjectLock]
  cases h : s.hasHeader (s.lock l).resource <;>
    simp only [books, Books.release, modifyThread, h, if_true, Bool.false_eq_true, if_false,
      Books.mk.injEq, true_and] <;>
    exact ⟨modifyThread_field Thread.locks _ _ _,
      modifyThread_field_same Thread.lockRequestsCount _ _ _ rfl,
      modifyThread_field_same Thread.subThreads _ _ _ rfl, rfl, rfl⟩

theorem books_transfer (s : LockSystem) (l : LockId) (t : ThreadId) (number : Nat) :
    ({ s.moveLock l t with grants := s.grants ++ [(l, number)] } : LockSystem).books =
      s.books.transfer l t number := by
  simp only [moveLock, modifyLock, books, Books.transfer, modifyThread, Books.mk.injEq, true_and]
  refine ⟨?_, ?_, ?_, rfl, rfl⟩
  · rw [modifyThread_field Thread.locks, modifyThread_field Thread.locks]
    congr 1
    rw [show ∀ f, ((s.engine.modifyThread (s.lock l).owningThread f).thread t).locks =
      (fun u => ((s.engine.modifyThread (s.lock l).owningThread f).thread u).locks) t from
        fun _ => rfl, modifyThread_field Thread.locks]
  · rw [modifyThread_field_same Thread.lockRequestsCount _ _ _ rfl,
      modifyThread_field_same Thread.lockRequestsCount _ _ _ rfl]
  · rw [modifyThread_field_same Thread.subThreads _ _ _ rfl,
      modifyThread_field_same Thread.subThreads _ _ _ rfl]

theorem books_freeSubThread (s : LockSystem) (t : ThreadId) (sth : SubThreadId) :
    (s.freeSubThread t sth).books = s.books.freeSubThread t sth := by
  simp only [LockSystem.freeSubThread, books, Books.freeSubThread, modifyThread, Books.mk.injEq,
    true_and]
  exact ⟨modifyThread_field_same Thread.locks _ _ _ rfl,
    modifyThread_field_same Thread.lockRequestsCount _ _ _ rfl,
    modifyThread_field Thread.subThreads _ _ _, rfl, rfl⟩

/-! ## The invariant of the books -/

namespace Books

/-- How many pending requests satisfy `p`, over all locks. -/
def requestCount (b : Books) (p : LockRequest → Bool) : Nat :=
  (b.lockIds.map fun l => (b.lock l).requests.countP p).sum

/-- The lock table agrees with the lists of the threads and with the headers of the objects. -/
structure Table (b : Books) : Prop where
  nodup : b.lockIds.Nodup
  lockLt : ∀ l ∈ b.lockIds, l < b.nextLock
  linked : ∀ t l, l ∈ b.locks t ↔ l ∈ b.lockIds ∧ (b.lock l).owningThread = t
  locksNodup : ∀ t, (b.locks t).Nodup
  oneLock : ∀ l ∈ b.lockIds, ∀ l' ∈ b.lockIds, (b.lock l).resource = (b.lock l').resource → l = l'
  header : ∀ obj, b.hasHeader obj = true → ∀ l,
    b.objectLock obj = some l ↔ l ∈ b.lockIds ∧ (b.lock l).resource = obj

/-- Every lock has owners of its thread, except for a lock in the middle of a hand-over. -/
structure Owners (hole : Option LockId) (b : Books) : Prop where
  owned : ∀ l ∈ b.lockIds, hole ≠ some l → (b.lock l).owners ≠ []
  belong : ∀ l ∈ b.lockIds, ∀ owner ∈ (b.lock l).owners,
    owner.subThread ∈ b.subThreads (b.lock l).owningThread

structure Queues (b : Books) : Prop where
  belong : ∀ l ∈ b.lockIds, ∀ req ∈ (b.lock l).requests,
    req.subThread ∈ b.subThreads (b.owningThread req.subThread)
  numberLt : ∀ l ∈ b.lockIds, ∀ req ∈ (b.lock l).requests, req.number < b.nextRequest
  sorted : ∀ l ∈ b.lockIds, (b.lock l).requests.Pairwise fun r r' => r.number < r'.number
  oneQueue : ∀ l ∈ b.lockIds, ∀ l' ∈ b.lockIds, ∀ req ∈ (b.lock l).requests,
    ∀ req' ∈ (b.lock l').requests, req.number = req'.number → l = l'
  grantsInOrder : ∀ l, ((b.grants.filter (·.1 = l)).map Prod.snd).Pairwise (· < ·)
  grantsFirst : ∀ l ∈ b.lockIds, ∀ req ∈ (b.lock l).requests, ∀ n,
    (l, n) ∈ b.grants → n < req.number
  grantsLt : ∀ g ∈ b.grants, g.2 < b.nextRequest

structure Counts (b : Books) : Prop where
  subThread : ∀ t, ∀ sth ∈ b.subThreads t,
    b.subThreadRequests sth = b.requestCount fun req => req.subThread = sth
  thread : ∀ t, b.lockRequestsCount t =
    b.requestCount fun req => b.owningThread req.subThread = t

structure SubThreads (b : Books) : Prop where
  owner : ∀ t, ∀ sth ∈ b.subThreads t, b.owningThread sth = t
  nodup : ∀ t, (b.subThreads t).Nodup
  lt : ∀ t, ∀ sth ∈ b.subThreads t, sth < b.nextSubThread

structure Inv (hole : Option LockId) (b : Books) : Prop where
  table : b.Table
  owners : b.Owners hole
  queues : b.Queues
  counts : b.Counts
  subs : b.SubThreads

theorem Table.of_eq {b b' : Books} (h : b.Table) (hids : b'.lockIds = b.lockIds)
    (hnext : b'.nextLock = b.nextLock)
    (howning : ∀ l, (b'.lock l).owningThread = (b.lock l).owningThread)
    (hres : ∀ l, (b'.lock l).resource = (b.lock l).resource)
    (hobj : b'.objectLock = b.objectLock) (hheader : b'.hasHeader = b.hasHeader)
    (hlocks : b'.locks = b.locks) : b'.Table := by
  obtain ⟨h1, h2, h3, h4, h5, h6⟩ := h
  constructor <;> simpa only [hids, hnext, howning, hres, hobj, hheader, hlocks]

theorem Owners.of_eq {hole : Option LockId} {b b' : Books} (h : b.Owners hole)
    (hids : b'.lockIds = b.lockIds)
    (howning : ∀ l, (b'.lock l).owningThread = (b.lock l).owningThread)
    (howners : ∀ l, (b'.lock l).owners = (b.lock l).owners)
    (hsubs : b'.subThreads = b.subThreads) : b'.Owners hole := by
  obtain ⟨h1, h2⟩ := h
  constructor <;> simpa only [hids, howning, howners, hsubs]

theorem Queues.of_eq {b b' : Books} (h : b.Queues) (hids : b'.lockIds = b.lockIds)
    (hreqs : ∀ l, (b'.lock l).requests = (b.lock l).requests)
    (hnext : b'.nextRequest = b.nextRequest) (hgrants : b'.grants = b.grants)
    (hsubs : b'.subThreads = b.subThreads) (howner : b'.owningThread = b.owningThread) :
    b'.Queues := by
  obtain ⟨h1, h2, h3, h4, h5, h6, h7⟩ := h
  constructor <;> simpa only [hids, hreqs, hnext, hgrants, hsubs, howner]

theorem Counts.of_eq {b b' : Books} (h : b.Counts) (hids : b'.lockIds = b.lockIds)
    (hreqs : ∀ l, (b'.lock l).requests = (b.lock l).requests)
    (hsubs : b'.subThreads = b.subThreads) (howner : b'.owningThread = b.owningThread)
    (hcount : b'.lockRequestsCount = b.lockRequestsCount)
    (hsubCount : b'.subThreadRequests = b.subThreadRequests) : b'.Counts := by
  obtain ⟨h1, h2⟩ := h
  constructor <;>
    simpa only [requestCount, hids, hreqs, hsubs, howner, hcount, hsubCount] using by assumption

theorem SubThreads.of_eq {b b' : Books} (h : b.SubThreads) (hsubs : b'.subThreads = b.subThreads)
    (howner : b'.owningThread = b.owningThread) (hnext : b'.nextSubThread = b.nextSubThread) :
    b'.SubThreads := by
  obtain ⟨h1, h2, h3⟩ := h
  constructor <;> simpa only [hsubs, howner, hnext]

/-! ### The owners of one lock -/

theorem setOwners_lock (b : Books) (l k : LockId) (owners : List LockOwner) :
    ((b.setOwners l owners).lock k).owningThread = (b.lock k).owningThread ∧
      ((b.setOwners l owners).lock k).resource = (b.lock k).resource ∧
      ((b.setOwners l owners).lock k).requests = (b.lock k).requests ∧
      ((b.setOwners l owners).lock k).owners = if k = l then owners else (b.lock k).owners := by
  by_cases h : k = l
  · subst h
    simp [setOwners]
  · simp [setOwners, h]

/-- Replacing the owners of a lock by sub-threads of the same thread. -/
theorem Inv.setOwners {hole hole' : Option LockId} {b : Books} (h : b.Inv hole) (l : LockId)
    (owners : List LockOwner)
    (howned : hole' = some l ∨ owners ≠ []) (hhole : ∀ k, k ≠ l → hole = some k → hole' = some k)
    (hbelong : l ∈ b.lockIds → ∀ owner ∈ owners,
      owner.subThread ∈ b.subThreads (b.lock l).owningThread) :
    (b.setOwners l owners).Inv hole' := by
  have hlock := fun k => b.setOwners_lock l k owners
  refine ⟨h.table.of_eq rfl rfl (fun k => (hlock k).1) (fun k => (hlock k).2.1) rfl rfl rfl, ?_,
    h.queues.of_eq rfl (fun k => (hlock k).2.2.1) rfl rfl rfl rfl,
    h.counts.of_eq rfl (fun k => (hlock k).2.2.1) rfl rfl rfl rfl, h.subs.of_eq rfl rfl rfl⟩
  constructor
  · intro k hk hne
    rw [(hlock k).2.2.2]
    split
    next heq =>
      rcases howned with hh | hh
      · exact absurd (heq ▸ hh) hne
      · exact hh
    next heq => exact h.owners.owned k hk fun hh => hne (hhole k heq hh)
  · intro k hk owner howner
    rw [(hlock k).2.2.2] at howner
    rw [(hlock k).1]
    split at howner
    next heq =>
      subst heq
      exact hbelong hk owner howner
    next => exact h.owners.belong k hk owner howner

/-! ### One request more or less -/

theorem setRequests_lock (b : Books) (l k : LockId) (requests : List LockRequest) :
    ((b.setRequests l requests).lock k).owningThread = (b.lock k).owningThread ∧
      ((b.setRequests l requests).lock k).resource = (b.lock k).resource ∧
      ((b.setRequests l requests).lock k).owners = (b.lock k).owners ∧
      ((b.setRequests l requests).lock k).requests =
        if k = l then requests else (b.lock k).requests := by
  by_cases h : k = l
  · subst h
    simp [setRequests]
  · simp [setRequests, h]

/-- Replacing the queue of one lock moves the count by the difference of the two queues. -/
theorem requestCount_setRequests (b : Books) (hnd : b.lockIds.Nodup) {l : LockId}
    (hl : l ∈ b.lockIds) (requests : List LockRequest) (p : LockRequest → Bool) :
    (b.setRequests l requests).requestCount p + (b.lock l).requests.countP p =
      b.requestCount p + requests.countP p := by
  have hlock := fun k => (b.setRequests_lock l k requests).2.2.2
  have hold := List.sum_map_erase (fun k => (b.lock k).requests.countP p) hl
  have hnew := List.sum_map_erase
    (fun k => ((b.setRequests l requests).lock k).requests.countP p) hl
  have hrest : (b.lockIds.erase l).map
      (fun k => ((b.setRequests l requests).lock k).requests.countP p) =
      (b.lockIds.erase l).map fun k => (b.lock k).requests.countP p := by
    refine List.map_congr_left ?_
    intro k hk
    have hne : k ≠ l := (hnd.mem_erase_iff.mp hk).1
    rw [hlock k, if_neg hne]
  rw [hrest, hlock l, if_pos rfl] at hnew
  simp only [requestCount, setRequests] at hold hnew ⊢
  omega

theorem requestCount_pos {b : Books} {l : LockId} (hl : l ∈ b.lockIds) {req : LockRequest}
    (hreq : req ∈ (b.lock l).requests) {p : LockRequest → Bool} (hp : p req = true) :
    0 < b.requestCount p := by
  have hcount : 0 < (b.lock l).requests.countP p := List.countP_pos_iff.mpr ⟨req, hreq, hp⟩
  have hsum := List.sum_map_erase (fun k => (b.lock k).requests.countP p) hl
  simp only [requestCount] at hsum ⊢
  omega

/-- The counts follow when a queue grows or shrinks by one request of `sth`. -/
theorem Counts.addCount {b b' : Books} (h : b.Counts) {sth : SubThreadId} {diff : Int}
    (howner : b'.owningThread = b.owningThread) (hsubs : b'.subThreads = b.subThreads)
    (hcount : b'.lockRequestsCount = b.lockRequestsCount)
    (hsubCount : b'.subThreadRequests = b.subThreadRequests)
    (hrequests : ∀ p : LockRequest → Bool, ∀ v : Bool,
      (∀ req : LockRequest, req.subThread = sth → p req = v) →
        (b'.requestCount p : Int) = b.requestCount p + if v then diff else 0) :
    (b'.addCount sth diff).Counts := by
  constructor
  · intro t u hu
    have hsub : b.subThreadRequests u = b.requestCount fun req => req.subThread = u :=
      h.subThread t u (by simpa [Books.addCount, hsubs] using hu)
    have hreq := hrequests (fun req => req.subThread = u) (decide (sth = u)) (by
      intro req hreq
      simp [hreq])
    have hgoal : (b'.addCount sth diff).requestCount (fun req => req.subThread = u) =
        b'.requestCount fun req => req.subThread = u := rfl
    rw [hgoal]
    by_cases hus : u = sth
    · subst hus
      simp only [Books.addCount, Function.update_self, hsubCount, decide_true, if_true] at hreq ⊢
      omega
    · simp only [Books.addCount, Function.update_of_ne hus, hsubCount, Ne.symm hus, decide_false,
        Bool.false_eq_true, if_false] at hreq ⊢
      omega
  · intro t
    have hthread := h.thread t
    have hreq := hrequests (fun req => b.owningThread req.subThread = t)
      (decide (b.owningThread sth = t)) (by
        intro req hreq
        simp [hreq])
    have hgoal : (b'.addCount sth diff).requestCount
        (fun req => (b'.addCount sth diff).owningThread req.subThread = t) =
        b'.requestCount fun req => b.owningThread req.subThread = t := by
      rw [← howner]
      rfl
    rw [hgoal]
    by_cases hts : t = b.owningThread sth
    · subst hts
      simp only [Books.addCount, howner, hcount, Function.update_self, decide_true, if_true]
        at hreq ⊢
      omega
    · simp only [Books.addCount, howner, hcount, Function.update_of_ne hts, Ne.symm hts,
        decide_false, Bool.false_eq_true, if_false] at hreq ⊢
      omega

/-- A pending request leaves its queue and the counts. -/
theorem Inv.drop {hole : Option LockId} {b : Books} (h : b.Inv hole) {l : LockId}
    (hl : l ∈ b.lockIds) {req : LockRequest} (hreq : req ∈ (b.lock l).requests) :
    (b.drop l req).Inv hole := by
  have hlock := fun k => b.setRequests_lock l k ((b.lock l).requests.erase req)
  have hsub : ∀ k, List.Sublist ((b.setRequests l ((b.lock l).requests.erase req)).lock k).requests
      (b.lock k).requests := by
    intro k
    rw [(hlock k).2.2.2]
    split
    next heq => rw [heq]; exact List.erase_sublist
    next => exact List.Sublist.refl _
  refine ⟨h.table.of_eq rfl rfl (fun k => (hlock k).1) (fun k => (hlock k).2.1) rfl rfl rfl,
    h.owners.of_eq rfl (fun k => (hlock k).1) (fun k => (hlock k).2.2.1) rfl, ?_, ?_,
    h.subs.of_eq rfl rfl rfl⟩
  · obtain ⟨hbelong, hlt, hsorted, hone, horder, hfirst, hgrants⟩ := h.queues
    exact {
      belong := fun k hk r hr => hbelong k hk r ((hsub k).subset hr)
      numberLt := fun k hk r hr => hlt k hk r ((hsub k).subset hr)
      sorted := fun k hk => (hsorted k hk).sublist (hsub k)
      oneQueue := fun k hk k' hk' r hr r' hr' =>
        hone k hk k' hk' r ((hsub k).subset hr) r' ((hsub k').subset hr')
      grantsInOrder := horder
      grantsFirst := fun k hk r hr => hfirst k hk r ((hsub k).subset hr)
      grantsLt := hgrants }
  · refine h.counts.addCount rfl rfl rfl rfl ?_
    intro p v hv
    have hset := b.requestCount_setRequests h.table.nodup hl ((b.lock l).requests.erase req) p
    have herase := (List.perm_cons_erase hreq).countP_eq p
    rw [List.countP_cons, hv req rfl] at herase
    cases v with
    | false =>
        simp only [Bool.false_eq_true, if_false] at herase ⊢
        omega
    | true =>
        simp only [if_true] at herase ⊢
        omega

/-- A new request goes to the back of a queue. -/
theorem Inv.add {hole : Option LockId} {b : Books} (h : b.Inv hole) {l : LockId}
    (hl : l ∈ b.lockIds) {req : LockRequest} (hnumber : req.number = b.nextRequest)
    (hsub : req.subThread ∈ b.subThreads (b.owningThread req.subThread)) :
    (b.add l req).Inv hole := by
  have hlock := fun k => ({ b with nextRequest := b.nextRequest + 1 } : Books).setRequests_lock l k
    ((b.lock l).requests ++ [req])
  have hmem : ∀ k, ∀ r ∈ ((b.add l req).lock k).requests,
      r ∈ (b.lock k).requests ∨ (k = l ∧ r = req) := by
    intro k r hr
    rw [show ((b.add l req).lock k).requests = _ from (hlock k).2.2.2] at hr
    split at hr
    next heq =>
      rcases List.mem_append.mp hr with hr | hr
      · exact .inl (heq ▸ hr)
      · exact .inr ⟨heq, List.mem_singleton.mp hr⟩
    next => exact .inl hr
  obtain ⟨hbelong, hlt, hsorted, hone, horder, hfirst, hgrants⟩ := h.queues
  refine ⟨h.table.of_eq rfl rfl (fun k => (hlock k).1) (fun k => (hlock k).2.1) rfl rfl rfl,
    h.owners.of_eq rfl (fun k => (hlock k).1) (fun k => (hlock k).2.2.1) rfl, ?_, ?_,
    h.subs.of_eq rfl rfl rfl⟩
  · refine ⟨?_, ?_, ?_, ?_, horder, ?_, ?_⟩
    · intro k hk r hr
      rcases hmem k r hr with hr | ⟨-, rfl⟩
      · exact hbelong k hk r hr
      · exact hsub
    · intro k hk r hr
      show r.number < b.nextRequest + 1
      rcases hmem k r hr with hr | ⟨-, rfl⟩
      · have := hlt k hk r hr
        omega
      · omega
    · intro k hk
      rw [show ((b.add l req).lock k).requests = _ from (hlock k).2.2.2]
      split
      next heq =>
        subst heq
        rw [List.pairwise_append]
        refine ⟨hsorted k hk, by simp, ?_⟩
        intro r hr r' hr'
        rw [List.mem_singleton.mp hr', hnumber]
        exact hlt k hk r hr
      next => exact hsorted k hk
    · intro k hk k' hk' r hr r' hr' heq
      rcases hmem k r hr with hold | ⟨hkl, hreq⟩
      · rcases hmem k' r' hr' with hold' | ⟨-, hreq'⟩
        · exact hone k hk k' hk' r hold r' hold' heq
        · have := hlt k hk r hold
          rw [heq, hreq', hnumber] at this
          omega
      · rcases hmem k' r' hr' with hold' | ⟨hkl', -⟩
        · have := hlt k' hk' r' hold'
          rw [← heq, hreq, hnumber] at this
          omega
        · rw [hkl, hkl']
    · intro k hk r hr n hn
      rcases hmem k r hr with hr | ⟨-, rfl⟩
      · exact hfirst k hk r hr n hn
      · have := hgrants (k, n) hn
        simp only at this
        omega
    · intro g hg
      have := hgrants g hg
      exact Nat.lt_succ_of_lt this
  · refine Counts.addCount (b := b) h.counts rfl rfl rfl rfl ?_
    intro p v hv
    have hset := ({ b with nextRequest := b.nextRequest + 1 } : Books).requestCount_setRequests
      h.table.nodup hl ((b.lock l).requests ++ [req]) p
    have hsame : ({ b with nextRequest := b.nextRequest + 1 } : Books).requestCount p =
        b.requestCount p := rfl
    have hpv := hv req rfl
    simp only [List.countP_append, List.countP_singleton, hpv, hsame] at hset
    cases v with
    | false =>
        simp only [Bool.false_eq_true, if_false] at hset ⊢
        omega
    | true =>
        simp only [if_true] at hset ⊢
        omega

theorem requestCount_congr {b b' : Books} {p p' : LockRequest → Bool}
    (hids : b'.lockIds = b.lockIds)
    (hreqs : ∀ l ∈ b.lockIds, (b'.lock l).requests = (b.lock l).requests)
    (hp : ∀ l ∈ b.lockIds, ∀ req ∈ (b.lock l).requests, p' req = p req) :
    b'.requestCount p' = b.requestCount p := by
  simp only [requestCount, hids]
  refine congrArg List.sum (List.map_congr_left ?_)
  intro l hl
  rw [hreqs l hl]
  exact List.countP_congr fun req hreq => by rw [hp l hl req hreq]

/-! ### Locks that come and go -/

theorem create_lock (b : Books) (t : ThreadId) (obj : ObjectId) {k : LockId}
    (hk : k ≠ b.nextLock) : (b.create t obj).lock k = b.lock k :=
  Function.update_of_ne hk _ _

theorem create_lock_self (b : Books) (t : ThreadId) (obj : ObjectId) :
    (b.create t obj).lock b.nextLock =
      { owningThread := t, resource := obj, owners := [], requests := [] } :=
  Function.update_self _ _ _

/-- A new lock for an object without one. It gets its owner next. -/
theorem Inv.create {b : Books} (h : b.Inv none) (t : ThreadId) {obj : ObjectId}
    (hobj : ∀ l ∈ b.lockIds, (b.lock l).resource ≠ obj) :
    (b.create t obj).Inv (some b.nextLock) := by
  have hfresh : b.nextLock ∉ b.lockIds := fun hmem => Nat.lt_irrefl _ (h.table.lockLt _ hmem)
  have hne : ∀ k ∈ b.lockIds, k ≠ b.nextLock := fun k hk heq => hfresh (heq ▸ hk)
  have hold : ∀ k ∈ b.lockIds, (b.create t obj).lock k = b.lock k :=
    fun k hk => b.create_lock t obj (hne k hk)
  have hself := b.create_lock_self t obj
  have hmem : ∀ k, k ∈ (b.create t obj).lockIds ↔ k = b.nextLock ∨ k ∈ b.lockIds :=
    fun k => List.mem_cons
  -- The queue of the new lock is empty, so every request is an old one.
  have hqueue : ∀ k ∈ (b.create t obj).lockIds, ∀ req ∈ ((b.create t obj).lock k).requests,
      k ∈ b.lockIds ∧ req ∈ (b.lock k).requests := by
    intro k hk req hreq
    rcases (hmem k).mp hk with rfl | hk
    · rw [hself] at hreq
      cases hreq
    · rw [hold k hk] at hreq
      exact ⟨hk, hreq⟩
  have hcount : ∀ p, (b.create t obj).requestCount p = b.requestCount p := by
    intro p
    have hrest : b.lockIds.map (fun k => ((b.create t obj).lock k).requests.countP p) =
        b.lockIds.map fun k => (b.lock k).requests.countP p :=
      List.map_congr_left fun k hk => by rw [hold k hk]
    have hids : (b.create t obj).lockIds = b.nextLock :: b.lockIds := rfl
    rw [requestCount, hids, List.map_cons, List.sum_cons, hself, hrest]
    simp [requestCount]
  obtain ⟨hnd, hlt, hlinked, hlocks, hone, hheader⟩ := h.table
  refine ⟨⟨List.nodup_cons.mpr ⟨hfresh, hnd⟩, ?_, ?_, ?_, ?_, ?_⟩, ⟨?_, ?_⟩, ?_, ⟨?_, ?_⟩, ?_⟩
  · intro k hk
    rcases (hmem k).mp hk with rfl | hk
    · exact Nat.lt_succ_self _
    · exact Nat.lt_succ_of_lt (hlt k hk)
  · intro u k
    have hlocks' : (b.create t obj).locks u =
        if u = t then b.locks t ++ [b.nextLock] else b.locks u := by
      by_cases hu : u = t
      · subst hu
        simp [Books.create]
      · simp [Books.create, hu]
    rw [hlocks', hmem k]
    by_cases hk : k = b.nextLock
    · subst hk
      rw [hself]
      have hnot : ∀ v, b.nextLock ∉ b.locks v := fun v hv => hfresh ((hlinked v _).mp hv).1
      split
      next heq => simp [heq]
      next heq => simp [hnot u, Ne.symm heq]
    · rw [b.create_lock t obj hk]
      have hequiv : k ∈ (if u = t then b.locks t ++ [b.nextLock] else b.locks u) ↔
          k ∈ b.locks u := by
        split
        next heq => simp [heq, hk]
        next => rfl
      rw [hequiv, hlinked u k]
      simp [hk]
  · intro u
    by_cases hu : u = t
    · subst hu
      have hnot : b.nextLock ∉ b.locks u := fun hv => hfresh ((hlinked u _).mp hv).1
      have : (b.locks u ++ [b.nextLock]).Nodup :=
        List.nodup_append.mpr ⟨hlocks u, by simp, fun a ha c hc heq =>
          hnot (List.mem_singleton.mp hc ▸ heq ▸ ha)⟩
      simpa [Books.create] using this
    · simpa [Books.create, hu] using hlocks u
  · intro k hk k' hk' heq
    rcases (hmem k).mp hk with rfl | hk <;> rcases (hmem k').mp hk' with rfl | hk'
    · rfl
    · rw [hself, hold k' hk'] at heq
      exact absurd heq.symm (hobj k' hk')
    · rw [hself, hold k hk] at heq
      exact absurd heq (hobj k hk)
    · rw [hold k hk, hold k' hk'] at heq
      exact hone k hk k' hk' heq
  · intro o ho k
    have ho' : b.hasHeader o = true := ho
    have hobjLock : (b.create t obj).objectLock o =
        if o = obj then some b.nextLock else b.objectLock o := by
      by_cases heq : o = obj
      · subst heq
        simp [Books.create, ho']
      · cases hh : b.hasHeader obj <;> simp [Books.create, hh, heq]
    rw [hobjLock, hmem k]
    split
    next heq =>
      subst heq
      constructor
      · intro hk
        have hk' : b.nextLock = k := Option.some.inj hk
        subst hk'
        exact ⟨.inl rfl, by rw [hself]⟩
      · rintro ⟨rfl | hk, hres⟩
        · rfl
        · rw [hold k hk] at hres
          exact absurd hres (hobj k hk)
    next heq =>
      rw [hheader o ho' k]
      constructor
      · rintro ⟨hk, hres⟩
        exact ⟨.inr hk, by rw [hold k hk]; exact hres⟩
      · rintro ⟨rfl | hk, hres⟩
        · rw [hself] at hres
          exact absurd hres.symm heq
        · rw [hold k hk] at hres
          exact ⟨hk, hres⟩
  · intro k hk hhole
    rcases (hmem k).mp hk with rfl | hk
    · exact absurd rfl hhole
    · rw [hold k hk]
      exact h.owners.owned k hk (by simp)
  · intro k hk owner howner
    rcases (hmem k).mp hk with rfl | hk
    · rw [hself] at howner
      cases howner
    · rw [hold k hk] at howner ⊢
      exact h.owners.belong k hk owner howner
  · obtain ⟨hbelong, hnumber, hsorted, hone', horder, hfirst, hgrants⟩ := h.queues
    refine ⟨?_, ?_, ?_, ?_, horder, ?_, hgrants⟩
    · intro k hk req hreq
      obtain ⟨hk', hreq'⟩ := hqueue k hk req hreq
      exact hbelong k hk' req hreq'
    · intro k hk req hreq
      obtain ⟨hk', hreq'⟩ := hqueue k hk req hreq
      exact hnumber k hk' req hreq'
    · intro k hk
      rcases (hmem k).mp hk with rfl | hk
      · rw [hself]
        exact List.Pairwise.nil
      · rw [hold k hk]
        exact hsorted k hk
    · intro k hk k' hk' req hreq req' hreq'
      obtain ⟨hk, hreq⟩ := hqueue k hk req hreq
      obtain ⟨hk', hreq'⟩ := hqueue k' hk' req' hreq'
      exact hone' k hk k' hk' req hreq req' hreq'
    · intro k hk req hreq
      obtain ⟨hk', hreq'⟩ := hqueue k hk req hreq
      exact hfirst k hk' req hreq'
  · intro u sth hsth
    rw [hcount]
    exact h.counts.subThread u sth hsth
  · intro u
    rw [hcount]
    exact h.counts.thread u
  · exact h.subs.of_eq rfl rfl rfl

/-- A lock without requests and without owners leaves the table. -/
theorem Inv.release {b : Books} {l : LockId} (h : b.Inv (some l)) (hl : l ∈ b.lockIds)
    (hempty : (b.lock l).requests = []) : (b.release l).Inv none := by
  obtain ⟨hnd, hlt, hlinked, hlocks, hone, hheader⟩ := h.table
  have hmem : ∀ k, k ∈ (b.release l).lockIds ↔ k ≠ l ∧ k ∈ b.lockIds :=
    fun k => hnd.mem_erase_iff
  have hsub : (b.release l).lockIds ⊆ b.lockIds := fun k hk => ((hmem k).mp hk).2
  have hcount : ∀ p, (b.release l).requestCount p = b.requestCount p := by
    intro p
    have hsum := List.sum_map_erase (fun k => (b.lock k).requests.countP p) hl
    simp only [hempty, List.countP_nil] at hsum
    simp only [requestCount, Books.release]
    omega
  refine ⟨⟨hnd.erase l, fun k hk => hlt k (hsub hk), ?_, ?_, ?_, ?_⟩, ⟨?_, ?_⟩, ?_, ⟨?_, ?_⟩, ?_⟩
  · intro u k
    have hlocks' : (b.release l).locks u =
        if u = (b.lock l).owningThread then (b.locks u).erase l else b.locks u := by
      by_cases hu : u = (b.lock l).owningThread
      · subst hu
        simp [Books.release]
      · simp [Books.release, hu]
    rw [hlocks', hmem k]
    have hlock : (b.release l).lock = b.lock := rfl
    rw [hlock]
    split
    next heq =>
      rw [(hlocks u).mem_erase_iff, hlinked u k]
      tauto
    next heq =>
      rw [hlinked u k]
      constructor
      · rintro ⟨hk, how⟩
        refine ⟨⟨?_, hk⟩, how⟩
        rintro rfl
        exact heq how.symm
      · rintro ⟨⟨-, hk⟩, how⟩
        exact ⟨hk, how⟩
  · intro u
    by_cases hu : u = (b.lock l).owningThread
    · subst hu
      simpa [Books.release] using (hlocks _).erase l
    · simpa [Books.release, hu] using hlocks u
  · exact fun k hk k' hk' => hone k (hsub hk) k' (hsub hk')
  · intro o ho k
    have ho' : b.hasHeader o = true := ho
    have hobjLock : (b.release l).objectLock o =
        if o = (b.lock l).resource then none else b.objectLock o := by
      by_cases heq : o = (b.lock l).resource
      · rw [if_pos heq]
        simp only [Books.release]
        rw [← heq, ho', if_pos rfl]
        exact Function.update_self _ _ _
      · cases hh : b.hasHeader (b.lock l).resource <;> simp [Books.release, hh, heq]
    rw [hobjLock, hmem k]
    have hlock : (b.release l).lock = b.lock := rfl
    rw [hlock]
    split
    next heq =>
      simp only [reduceCtorEq, false_iff, not_and]
      rintro ⟨hne, hk⟩ hres
      exact hne (hone k hk l hl (hres.trans heq))
    next heq =>
      rw [hheader o ho' k]
      constructor
      · rintro ⟨hk, hres⟩
        refine ⟨⟨?_, hk⟩, hres⟩
        rintro rfl
        exact heq hres.symm
      · rintro ⟨⟨-, hk⟩, hres⟩
        exact ⟨hk, hres⟩
  · intro k hk _
    obtain ⟨hne, hk'⟩ := (hmem k).mp hk
    exact h.owners.owned k hk' fun heq => hne (Option.some.inj heq).symm
  · exact fun k hk => h.owners.belong k (hsub hk)
  · obtain ⟨hbelong, hnumber, hsorted, hone', horder, hfirst, hgrants⟩ := h.queues
    exact {
      belong := fun k hk => hbelong k (hsub hk)
      numberLt := fun k hk => hnumber k (hsub hk)
      sorted := fun k hk => hsorted k (hsub hk)
      oneQueue := fun k hk k' hk' => hone' k (hsub hk) k' (hsub hk')
      grantsInOrder := horder
      grantsFirst := fun k hk => hfirst k (hsub hk)
      grantsLt := hgrants }
  · intro u sth hsth
    rw [hcount]
    exact h.counts.subThread u sth hsth
  · intro u
    rw [hcount]
    exact h.counts.thread u
  · exact h.subs.of_eq rfl rfl rfl

/-! ### Hand-over -/

theorem transfer_lock (b : Books) (l k : LockId) (t : ThreadId) (number : Nat) :
    ((b.transfer l t number).lock k).owningThread =
        (if k = l then t else (b.lock k).owningThread) ∧
      ((b.transfer l t number).lock k).resource = (b.lock k).resource ∧
      ((b.transfer l t number).lock k).owners = (b.lock k).owners ∧
      ((b.transfer l t number).lock k).requests = (b.lock k).requests := by
  by_cases h : k = l
  · subst h
    simp [transfer]
  · simp [transfer, h]

theorem transfer_locks (b : Books) (l : LockId) (t u : ThreadId) (number : Nat) :
    (b.transfer l t number).locks u =
      if u = t then
        (if u = (b.lock l).owningThread then (b.locks u).erase l else b.locks u) ++ [l]
      else if u = (b.lock l).owningThread then (b.locks u).erase l else b.locks u := by
  by_cases ht : u = t
  · subst ht
    by_cases ho : u = (b.lock l).owningThread
    · subst ho
      simp [transfer]
    · simp [transfer, ho]
  · by_cases ho : u = (b.lock l).owningThread
    · subst ho
      simp [transfer, ht]
    · simp [transfer, ht, ho]

/-- A lock without owners moves to the thread of a request that came before all that wait. -/
theorem Inv.transfer {b : Books} {l : LockId} (h : b.Inv (some l)) (hl : l ∈ b.lockIds)
    (hempty : (b.lock l).owners = []) (t : ThreadId) {number : Nat}
    (hlast : ∀ n, (l, n) ∈ b.grants → n < number)
    (hfirst : ∀ req ∈ (b.lock l).requests, number < req.number)
    (hnumber : number < b.nextRequest) : (b.transfer l t number).Inv (some l) := by
  have hlock := fun k => b.transfer_lock l k t number
  obtain ⟨hnd, hlt, hlinked, hlocks, hone, hheader⟩ := h.table
  have hids : (b.transfer l t number).lockIds = b.lockIds := rfl
  have hout : ∀ u k, k ∈ (if u = (b.lock l).owningThread then (b.locks u).erase l else b.locks u) ↔
      k ≠ l ∧ k ∈ b.locks u := by
    intro u k
    split
    next => exact (hlocks u).mem_erase_iff
    next heq =>
      refine ⟨fun hk => ⟨?_, hk⟩, fun hk => hk.2⟩
      rintro rfl
      exact heq ((hlinked u k).mp hk).2.symm
  refine ⟨⟨hnd, hlt, ?_, ?_, ?_, ?_⟩, ⟨?_, ?_⟩, ?_, ?_, h.subs.of_eq rfl rfl rfl⟩
  · intro u k
    rw [transfer_locks, hids, (hlock k).1]
    by_cases hk : k = l
    · subst hk
      by_cases hu : u = t
      · simp [hu, hl]
      · simp only [if_neg hu, hout u k, if_pos]
        simp [Ne.symm hu]
    · rw [if_neg hk, ← hlinked u k]
      split
      · simp only [List.mem_append, hout u k, List.mem_singleton, hk, or_false]
        simp [hk]
      · simp [hout u k, hk]
  · intro u
    have hbase : (if u = (b.lock l).owningThread then (b.locks u).erase l else b.locks u).Nodup := by
      split
      · exact (hlocks u).erase l
      · exact hlocks u
    rw [transfer_locks]
    split
    next =>
      refine List.nodup_append.mpr ⟨hbase, by simp, ?_⟩
      intro k hk k' hk' heq
      exact ((hout u k).mp hk).1 (heq.trans (List.mem_singleton.mp hk'))
    next => exact hbase
  · intro k hk k' hk' heq
    rw [(hlock k).2.1, (hlock k').2.1] at heq
    exact hone k hk k' hk' heq
  · intro o ho k
    rw [(hlock k).2.1]
    exact hheader o ho k
  · intro k hk hne
    rw [(hlock k).2.2.1]
    exact h.owners.owned k hk hne
  · intro k hk owner howner
    rw [(hlock k).2.2.1] at howner
    rw [(hlock k).1]
    split
    next heq =>
      rw [heq, hempty] at howner
      cases howner
    next => exact h.owners.belong k hk owner howner
  · obtain ⟨hbelong, hnum, hsorted, hone', horder, hgfirst, hgrants⟩ := h.queues
    have hreq : ∀ k, ((b.transfer l t number).lock k).requests = (b.lock k).requests :=
      fun k => (hlock k).2.2.2
    have hmem : ∀ {g : LockId × Nat}, g ∈ (b.transfer l t number).grants →
        g ∈ b.grants ∨ g = (l, number) := by
      intro g hg
      simpa [Books.transfer] using hg
    refine ⟨?_, ?_, ?_, ?_, ?_, ?_, ?_⟩
    · intro k hk req hk'
      rw [hreq k] at hk'
      exact hbelong k hk req hk'
    · intro k hk req hk'
      rw [hreq k] at hk'
      exact hnum k hk req hk'
    · intro k hk
      rw [hreq k]
      exact hsorted k hk
    · intro k hk k' hk' req hr req' hr'
      rw [hreq k] at hr
      rw [hreq k'] at hr'
      exact hone' k hk k' hk' req hr req' hr'
    · intro k
      have hgr : (b.transfer l t number).grants = b.grants ++ [(l, number)] := rfl
      rw [hgr, List.filter_append, List.map_append, List.pairwise_append]
      refine ⟨horder k, ?_, ?_⟩
      · by_cases hk : l = k <;> simp [hk]
      · intro n hn m hm
        by_cases hk : l = k
        · subst hk
          obtain ⟨⟨k', n'⟩, hg, rfl⟩ := List.mem_map.mp hn
          obtain ⟨hgrant, hk'⟩ := List.mem_filter.mp hg
          simp only [decide_eq_true_eq] at hk'
          subst hk'
          have hm' : m = number := by simpa using hm
          rw [hm']
          exact hlast n' hgrant
        · simp [hk] at hm
    · intro k hk req hr n hn
      rw [hreq k] at hr
      rcases hmem hn with hn | hn
      · exact hgfirst k hk req hr n hn
      · obtain ⟨rfl, rfl⟩ := Prod.mk.inj hn
        exact hfirst req hr
    · intro g hg
      rcases hmem hg with hg | rfl
      · exact hgrants g hg
      · exact hnumber
  · exact h.counts.of_eq rfl (fun k => (hlock k).2.2.2) rfl rfl rfl rfl

/-! ### Sub-threads that come and go -/

/-- A sub-thread that owns no lock and waits for none can be freed. -/
theorem Inv.freeSubThread {hole : Option LockId} {b : Books} (h : b.Inv hole) (t : ThreadId)
    {sth : SubThreadId}
    (howners : ∀ l ∈ b.lockIds, ∀ owner ∈ (b.lock l).owners, owner.subThread ≠ sth)
    (hrequests : ∀ l ∈ b.lockIds, ∀ req ∈ (b.lock l).requests, req.subThread ≠ sth) :
    (b.freeSubThread t sth).Inv hole := by
  have hmem : ∀ u v, v ∈ (b.freeSubThread t sth).subThreads u → v ∈ b.subThreads u := by
    intro u v hv
    by_cases hu : u = t
    · subst hu
      simp only [Books.freeSubThread, Function.update_self] at hv
      exact List.mem_of_mem_erase hv
    · simpa [Books.freeSubThread, hu] using hv
  have hkeep : ∀ u v, v ≠ sth → v ∈ b.subThreads u → v ∈ (b.freeSubThread t sth).subThreads u := by
    intro u v hv hm
    by_cases hu : u = t
    · subst hu
      simpa [Books.freeSubThread, List.mem_erase_of_ne hv] using hm
    · simpa [Books.freeSubThread, hu] using hm
  refine ⟨h.table.of_eq rfl rfl (fun _ => rfl) (fun _ => rfl) rfl rfl rfl,
    ⟨h.owners.owned, ?_⟩, ?_, ⟨?_, h.counts.thread⟩, ⟨?_, ?_, ?_⟩⟩
  · intro l hl owner howner
    exact hkeep _ _ (howners l hl owner howner) (h.owners.belong l hl owner howner)
  · exact { h.queues with
      belong := fun l hl req hreq =>
        hkeep _ _ (hrequests l hl req hreq) (h.queues.belong l hl req hreq) }
  · exact fun u v hv => h.counts.subThread u v (hmem u v hv)
  · exact fun u v hv => h.subs.owner u v (hmem u v hv)
  · intro u
    by_cases hu : u = t
    · subst hu
      simpa [Books.freeSubThread] using (h.subs.nodup u).erase sth
    · simpa [Books.freeSubThread, hu] using h.subs.nodup u
  · exact fun u v hv => h.subs.lt u v (hmem u v hv)

theorem Inv.createSubThread {hole : Option LockId} {b : Books} (h : b.Inv hole) (t : ThreadId) :
    (b.createSubThread t).Inv hole := by
  set n := b.nextSubThread with hn
  have hfresh : ∀ u, n ∉ b.subThreads u := fun u hu => Nat.lt_irrefl _ (h.subs.lt u n hu)
  have hmem : ∀ u v, v ∈ (b.createSubThread t).subThreads u ↔
      v ∈ b.subThreads u ∨ (u = t ∧ v = n) := by
    intro u v
    by_cases hu : u = t
    · subst hu
      simp [Books.createSubThread, hn]
    · simp [Books.createSubThread, hu]
  have howner : ∀ v, v ≠ n → (b.createSubThread t).owningThread v = b.owningThread v :=
    fun v hv => Function.update_of_ne hv _ _
  have hself : (b.createSubThread t).owningThread n = t := Function.update_self _ _ _
  have hold : ∀ l ∈ b.lockIds, ∀ req ∈ (b.lock l).requests, req.subThread ≠ n := by
    intro l hl req hreq heq
    exact hfresh _ (heq ▸ h.queues.belong l hl req hreq)
  refine ⟨h.table.of_eq rfl rfl (fun _ => rfl) (fun _ => rfl) rfl rfl rfl,
    ⟨h.owners.owned, ?_⟩, ?_, ⟨?_, ?_⟩, ⟨?_, ?_, ?_⟩⟩
  · intro l hl owner ho
    exact (hmem _ _).mpr (.inl (h.owners.belong l hl owner ho))
  · exact { h.queues with
      belong := by
        intro l hl req hreq
        rw [howner _ (hold l hl req hreq)]
        exact (hmem _ _).mpr (.inl (h.queues.belong l hl req hreq)) }
  · intro u v hv
    rcases (hmem u v).mp hv with hv | ⟨rfl, rfl⟩
    · have hne : v ≠ n := fun heq => hfresh u (heq ▸ hv)
      have hcount : (b.createSubThread t).subThreadRequests v = b.subThreadRequests v :=
        Function.update_of_ne hne _ _
      rw [hcount]
      exact h.counts.subThread u v hv
    · have hcount : (b.createSubThread u).subThreadRequests n = 0 := Function.update_self _ _ _
      have hzero : (b.createSubThread u).requestCount (fun req => req.subThread = n) =
          b.requestCount fun _ => false :=
        requestCount_congr rfl (fun _ _ => rfl) fun l hl req hreq => by simp [hold l hl req hreq]
      rw [hcount, hzero]
      simp [requestCount]
  · intro u
    have hsame : (b.createSubThread t).requestCount
        (fun req => (b.createSubThread t).owningThread req.subThread = u) =
        b.requestCount fun req => b.owningThread req.subThread = u :=
      requestCount_congr rfl (fun _ _ => rfl) fun l hl req hreq => by
        rw [howner _ (hold l hl req hreq)]
    rw [hsame]
    exact h.counts.thread u
  · intro u v hv
    rcases (hmem u v).mp hv with hv | ⟨rfl, rfl⟩
    · rw [howner v fun heq => hfresh u (heq ▸ hv)]
      exact h.subs.owner u v hv
    · exact hself
  · intro u
    by_cases hu : u = t
    · subst hu
      have : (b.subThreads u ++ [n]).Nodup :=
        List.nodup_append.mpr ⟨h.subs.nodup u, by simp, fun a ha c hc heq =>
          hfresh u (List.mem_singleton.mp hc ▸ heq ▸ ha)⟩
      simpa [Books.createSubThread, hn] using this
    · simpa [Books.createSubThread, hu] using h.subs.nodup u
  · intro u v hv
    rcases (hmem u v).mp hv with hv | ⟨-, rfl⟩
    · exact Nat.lt_succ_of_lt (h.subs.lt u v hv)
    · exact Nat.lt_succ_self _

end Books

end LockSystem

end TinyCLR
