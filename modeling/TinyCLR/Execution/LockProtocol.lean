import TinyCLR.Execution.LockBooks

/-!
# The monitor protocol

Each operation on locks keeps the books, first one request or one lock at a time, then the walks
of `DeleteLockRequests` and `DestroyInstance`, then whole runs. While a thread is being destroyed
it is in neither of the lists that the walks search, so the invariant allows for one such thread.
-/

namespace TinyCLR

open Engine TransitionSystem

namespace LockSystem

def ListedOr (exempt : Option ThreadId) (s : LockSystem) (t : ThreadId) : Prop :=
  s.engine.Listed t ∨ exempt = some t

/-- The books are kept, and every lock and every request belongs to a listed thread or to the
exempt thread. -/
structure Inv (exempt : Option ThreadId) (hole : Option LockId) (s : LockSystem) : Prop where
  books : s.books.Inv hole
  listed : ∀ l ∈ s.lockIds, s.ListedOr exempt (s.lock l).owningThread
  requesters : ∀ l ∈ s.lockIds, ∀ req ∈ (s.lock l).requests,
    s.ListedOr exempt (s.owningThread req.subThread)

/-- A step after which there are fewer requests, and nothing else changed in the lock table. -/
structure Fewer (s s' : LockSystem) : Prop where
  lockIds : s'.lockIds = s.lockIds
  owningThread : ∀ l, (s'.lock l).owningThread = (s.lock l).owningThread
  resource : ∀ l, (s'.lock l).resource = (s.lock l).resource
  owners : ∀ l, (s'.lock l).owners = (s.lock l).owners
  requests : ∀ l, List.Sublist (s'.lock l).requests (s.lock l).requests
  locks : ∀ t, (s'.engine.thread t).locks = (s.engine.thread t).locks
  subThreads : ∀ t, (s'.engine.thread t).subThreads = (s.engine.thread t).subThreads
  owner : ∀ sth, s'.owningThread sth = s.owningThread sth
  listed : ∀ t, s.engine.Listed t → s'.engine.Listed t

theorem Fewer.refl (s : LockSystem) : Fewer s s :=
  ⟨rfl, fun _ => rfl, fun _ => rfl, fun _ => rfl, fun _ => List.Sublist.refl _, fun _ => rfl,
    fun _ => rfl, fun _ => rfl, fun _ h => h⟩

theorem Fewer.trans {s s' s'' : LockSystem} (h : Fewer s s') (h' : Fewer s' s'') : Fewer s s'' where
  lockIds := h'.lockIds.trans h.lockIds
  owningThread := fun l => (h'.owningThread l).trans (h.owningThread l)
  resource := fun l => (h'.resource l).trans (h.resource l)
  owners := fun l => (h'.owners l).trans (h.owners l)
  requests := fun l => (h'.requests l).trans (h.requests l)
  locks := fun t => (h'.locks t).trans (h.locks t)
  subThreads := fun t => (h'.subThreads t).trans (h.subThreads t)
  owner := fun sth => (h'.owner sth).trans (h.owner sth)
  listed := fun t ht => h'.listed t (h.listed t ht)

/-- After a step with fewer requests only the books need to be looked at. -/
theorem Inv.of_fewer {exempt : Option ThreadId} {hole : Option LockId} {s s' : LockSystem}
    (h : s.Inv exempt hole) (hfewer : Fewer s s') (hbooks : s'.books.Inv hole) :
    s'.Inv exempt hole := by
  refine ⟨hbooks, ?_, ?_⟩
  · intro l hl
    rw [hfewer.lockIds] at hl
    rw [hfewer.owningThread l]
    exact (h.listed l hl).imp_left (hfewer.listed _)
  · intro l hl req hreq
    rw [hfewer.lockIds] at hl
    rw [hfewer.owner]
    exact (h.requesters l hl req ((hfewer.requests l).subset hreq)).imp_left (hfewer.listed _)

/-! ## One request -/

theorem changeLockRequestCount_listed (s : LockSystem) (sth : SubThreadId) (diff : Int)
    {t : ThreadId} (h : s.engine.Listed t) :
    (s.changeLockRequestCount sth diff).1.engine.Listed t := by
  have hadd : (s.addLockRequestCount sth diff).engine.Listed t := h
  simp only [changeLockRequestCount]
  split
  · exact hadd.restart _ false
  · exact hadd

/-- Without a restart the thread only changes its status. -/
theorem changeLockRequestCount_lists {s s' : LockSystem} {sth : SubThreadId} {diff : Int}
    (h : s.changeLockRequestCount sth diff = (s', false)) :
    s'.engine.threadsReady = s.engine.threadsReady ∧
      s'.engine.threadsWaiting = s.engine.threadsWaiting := by
  simp only [changeLockRequestCount] at h
  split at h
  next => cases h
  next =>
    cases h
    exact ⟨rfl, rfl⟩

/-- With a restart the thread has no pending request left. -/
theorem changeLockRequestCount_zero {s s' : LockSystem} {sth : SubThreadId} {diff : Int}
    (h : s.changeLockRequestCount sth diff = (s', true)) :
    s'.books.lockRequestsCount (s.owningThread sth) = 0 := by
  have hbooks := books_changeLockRequestCount s sth diff
  rw [h] at hbooks
  rw [hbooks, ← books_addLockRequestCount]
  simp only [changeLockRequestCount] at h
  split at h
  next hzero => exact hzero
  next => cases h

theorem deleteRequest_fewer (s : LockSystem) (l : LockId) (req : LockRequest) :
    Fewer s (s.deleteRequest l req).1 := by
  have hbooks := books_deleteRequest s l req
  have hlock := fun k => s.books.setRequests_lock l k ((s.lock l).requests.erase req)
  have hlock' : ∀ k, (s.deleteRequest l req).1.lock k =
      (s.books.setRequests l ((s.lock l).requests.erase req)).lock k :=
    fun k => congrFun (congrArg Books.lock hbooks) k
  refine ⟨congrArg Books.lockIds hbooks, ?_, ?_, ?_, ?_,
    fun t => congrFun (congrArg Books.locks hbooks) t,
    fun t => congrFun (congrArg Books.subThreads hbooks) t,
    fun sth => congrFun (congrArg Books.owningThread hbooks) sth, ?_⟩
  · exact fun k => by rw [hlock' k]; exact (hlock k).1
  · exact fun k => by rw [hlock' k]; exact (hlock k).2.1
  · exact fun k => by rw [hlock' k]; exact (hlock k).2.2.1
  · intro k
    rw [hlock' k, (hlock k).2.2.2]
    split
    next heq => rw [heq]; exact List.erase_sublist
    next => exact List.Sublist.refl _
  · exact fun t ht => changeLockRequestCount_listed _ req.subThread (-1) ht

theorem deleteRequest_requests (s : LockSystem) (l : LockId) (req : LockRequest) :
    ((s.deleteRequest l req).1.lock l).requests = (s.lock l).requests.erase req := by
  have hbooks := books_deleteRequest s l req
  have hlock := s.books.setRequests_lock l l ((s.lock l).requests.erase req)
  rw [show (s.deleteRequest l req).1.lock l = _ from congrFun (congrArg Books.lock hbooks) l]
  exact hlock.2.2.2.trans (if_pos rfl)

theorem Inv.deleteRequest {exempt : Option ThreadId} {hole : Option LockId} {s : LockSystem}
    (h : s.Inv exempt hole) {l : LockId} (hl : l ∈ s.lockIds) {req : LockRequest}
    (hreq : req ∈ (s.lock l).requests) : (s.deleteRequest l req).1.Inv exempt hole := by
  refine h.of_fewer (deleteRequest_fewer s l req) ?_
  rw [books_deleteRequest]
  exact h.books.drop hl hreq

/-! ## The walk of `DeleteLockRequests` -/

/-- No lock has a request of the sub-thread in its queue. -/
def NoRequest (s : LockSystem) (sth : SubThreadId) : Prop :=
  ∀ l ∈ s.lockIds, ∀ req ∈ (s.lock l).requests, req.subThread ≠ sth

theorem Fewer.noRequest {s s' : LockSystem} (h : Fewer s s') {sth : SubThreadId}
    (hno : s.NoRequest sth) : s'.NoRequest sth := by
  intro l hl req hreq
  rw [h.lockIds] at hl
  exact hno l hl req ((h.requests l).subset hreq)

/-- A count of zero means that no request is pending. -/
theorem Inv.noRequest_of_thread {exempt : Option ThreadId} {hole : Option LockId} {s : LockSystem}
    (h : s.Inv exempt hole) {sth : SubThreadId}
    (hzero : s.books.lockRequestsCount (s.owningThread sth) = 0) : s.NoRequest sth := by
  intro l hl req hreq heq
  have hcount := h.books.counts.thread (s.owningThread sth)
  rw [hzero] at hcount
  have hpos := Books.requestCount_pos (b := s.books) hl hreq
    (p := fun req => s.books.owningThread req.subThread = s.owningThread sth)
    (by simp only [heq, decide_eq_true_eq]; rfl)
  omega

theorem Inv.noRequest_of_subThread {exempt : Option ThreadId} {hole : Option LockId}
    {s : LockSystem} (h : s.Inv exempt hole) {sth : SubThreadId} {t : ThreadId}
    (hsth : sth ∈ (s.engine.thread t).subThreads)
    (hzero : (s.engine.subThread sth).lockRequestsCount = 0) : s.NoRequest sth := by
  intro l hl req hreq heq
  have hcount := h.books.counts.subThread t sth hsth
  rw [show s.books.subThreadRequests sth = 0 from hzero] at hcount
  have hpos := Books.requestCount_pos (b := s.books) hl hreq
    (p := fun req => req.subThread = sth) (by simp [heq])
  omega

/-- The outcome of a walk over some queues: the invariant holds, and either the walk was cut
short, when nothing is left to find, or it went through without moving a thread. -/
structure Searched (exempt : Option ThreadId) (hole : Option LockId) (sth : SubThreadId)
    (queues : List LockId) (s : LockSystem) (r : LockSystem × Bool) : Prop where
  inv : r.1.Inv exempt hole
  fewer : Fewer s r.1
  cut : r.2 = true → r.1.NoRequest sth
  through : r.2 = false → r.1.engine.threadsReady = s.engine.threadsReady ∧
    r.1.engine.threadsWaiting = s.engine.threadsWaiting ∧
    ∀ l ∈ queues, ∀ req ∈ (r.1.lock l).requests, req.subThread ≠ sth

theorem deleteLockRequestsOf_searched {exempt : Option ThreadId} {hole : Option LockId}
    {l : LockId} (sth : SubThreadId) (reqs : List LockRequest) {s : LockSystem}
    (h : s.Inv exempt hole) (hl : l ∈ s.lockIds)
    (hreqs : List.Sublist reqs (s.lock l).requests)
    (hrest : ∀ req ∈ (s.lock l).requests, req.subThread = sth → req ∈ reqs) :
    Searched exempt hole sth [l] s (deleteLockRequestsOf sth l reqs s) := by
  induction reqs generalizing s with
  | nil =>
      refine ⟨h, Fewer.refl s, nofun, fun _ => ⟨rfl, rfl, ?_⟩⟩
      intro k hk req hreq heq
      rw [List.mem_singleton.mp hk] at hreq
      exact absurd (hrest req hreq heq) (by simp)
  | cons req reqs ih =>
      have hnd : (s.lock l).requests.Nodup :=
        (h.books.queues.sorted l hl).imp fun hlt heq => by
          rw [heq] at hlt
          exact Nat.lt_irrefl _ hlt
      have hreq : req ∈ (s.lock l).requests := hreqs.subset List.mem_cons_self
      have hnot : req ∉ reqs := (List.nodup_cons.mp (hnd.sublist hreqs)).1
      rw [deleteLockRequestsOf]
      split
      next hsth =>
        have hinv := h.deleteRequest hl hreq
        have hfewer := deleteRequest_fewer s l req
        have herase := deleteRequest_requests s l req
        split
        next s' hdel =>
          rw [hdel] at hinv hfewer
          refine ⟨hinv, hfewer, fun _ => ?_, nofun⟩
          have hzero := changeLockRequestCount_zero hdel
          rw [hsth] at hzero
          refine hinv.noRequest_of_thread ?_
          rw [show s'.owningThread sth = s.owningThread sth from hfewer.owner sth]
          exact hzero
        next s' hdel =>
          rw [hdel] at hinv hfewer herase
          have hlists := changeLockRequestCount_lists hdel
          have hrec := ih hinv (hfewer.lockIds ▸ hl) ?_ ?_
          · refine ⟨hrec.inv, hfewer.trans hrec.fewer, hrec.cut, fun hf => ?_⟩
            obtain ⟨hready, hwaiting, hdone⟩ := hrec.through hf
            exact ⟨hready.trans hlists.1, hwaiting.trans hlists.2, hdone⟩
          · rw [herase]
            have := hreqs.erase req
            rwa [List.erase_cons_head] at this
          · intro r hr heq
            rw [herase] at hr
            obtain ⟨hne, hmem⟩ := hnd.mem_erase_iff.mp hr
            exact (List.mem_cons.mp (hrest r hmem heq)).resolve_left hne
      next hsth =>
        refine ih h hl ((List.sublist_cons_self req reqs).trans hreqs) ?_
        intro r hr heq
        refine (List.mem_cons.mp (hrest r hr heq)).resolve_left ?_
        rintro rfl
        exact hsth heq

theorem deleteLockRequestsAmong_searched {exempt : Option ThreadId} {hole : Option LockId}
    (sth : SubThreadId) (queues : List LockId) {s : LockSystem}
    (h : s.Inv exempt hole) (hqueues : ∀ l ∈ queues, l ∈ s.lockIds) :
    Searched exempt hole sth queues s (deleteLockRequestsAmong sth queues s) := by
  induction queues generalizing s with
  | nil =>
      exact ⟨h, Fewer.refl s, nofun, fun _ => ⟨rfl, rfl, by simp⟩⟩
  | cons l queues ih =>
      have hl := hqueues l List.mem_cons_self
      have hone := deleteLockRequestsOf_searched sth (s.lock l).requests h hl
        (List.Sublist.refl _) fun _ hr _ => hr
      rw [deleteLockRequestsAmong]
      split
      next s' heq =>
        rw [heq] at hone
        exact ⟨hone.inv, hone.fewer, hone.cut, nofun⟩
      next s' heq =>
        rw [heq] at hone
        have hrec := ih hone.inv fun k hk => by
          rw [hone.fewer.lockIds]
          exact hqueues k (List.mem_cons_of_mem l hk)
        refine ⟨hrec.inv, hone.fewer.trans hrec.fewer, hrec.cut, fun hf => ?_⟩
        obtain ⟨hready, hwaiting, hdone⟩ := hone.through rfl
        obtain ⟨hready', hwaiting', hdone'⟩ := hrec.through hf
        refine ⟨hready'.trans hready, hwaiting'.trans hwaiting, ?_⟩
        intro k hk req hreq
        rcases List.mem_cons.mp hk with rfl | hk
        · exact hdone k (by simp) req ((hrec.fewer.requests k).subset hreq)
        · exact hdone' k hk req hreq

/-- `DeleteLockRequests` removes every request of the sub-thread from the locks of the listed
threads. -/
theorem Inv.deleteLockRequests {exempt : Option ThreadId} {hole : Option LockId} {s : LockSystem}
    (h : s.Inv exempt hole) {sth : SubThreadId} {t : ThreadId}
    (hsth : sth ∈ (s.engine.thread t).subThreads) :
    (s.deleteLockRequests sth).Inv exempt hole ∧ Fewer s (s.deleteLockRequests sth) ∧
      ∀ l ∈ s.lockIds, s.engine.Listed (s.lock l).owningThread →
        ∀ req ∈ ((s.deleteLockRequests sth).lock l).requests, req.subThread ≠ sth := by
  unfold LockSystem.deleteLockRequests
  split
  next hzero =>
    exact ⟨h, Fewer.refl s, fun l hl _ => h.noRequest_of_subThread hsth hzero l hl⟩
  next =>
    have hids : ∀ {s : LockSystem}, s.Inv exempt hole → ∀ threads : List ThreadId,
        ∀ l ∈ threads.flatMap (fun u => (s.engine.thread u).locks), l ∈ s.lockIds := by
      intro s h threads l hl
      obtain ⟨u, -, hl⟩ := List.mem_flatMap.mp hl
      exact ((h.books.table.linked u l).mp hl).1
    have hready := deleteLockRequestsAmong_searched sth _ h
      (hids h s.engine.threadsReady)
    set r := deleteLockRequestsAmong sth
      (s.engine.threadsReady.flatMap fun u => (s.engine.thread u).locks) s with hr
    have hwaiting := deleteLockRequestsAmong_searched sth _ hready.inv
      (hids hready.inv r.1.engine.threadsWaiting)
    set r' := deleteLockRequestsAmong sth
      (r.1.engine.threadsWaiting.flatMap fun u => (r.1.engine.thread u).locks) r.1 with hr'
    refine ⟨hwaiting.inv, hready.fewer.trans hwaiting.fewer, ?_⟩
    intro l hl hlisted req hreq
    have hl' : l ∈ r'.1.lockIds := by
      rw [hwaiting.fewer.lockIds, hready.fewer.lockIds]
      exact hl
    have hlinked : l ∈ (s.engine.thread (s.lock l).owningThread).locks :=
      (h.books.table.linked _ l).mpr ⟨hl, rfl⟩
    cases hcut' : r'.2 with
    | true => exact hwaiting.cut hcut' l hl' req hreq
    | false =>
        cases hcut : r.2 with
        | true => exact hwaiting.fewer.noRequest (hready.cut hcut) l hl' req hreq
        | false =>
            obtain ⟨-, hsame, hdone⟩ := hready.through hcut
            obtain ⟨-, -, hdone'⟩ := hwaiting.through hcut'
            rcases hlisted with hmem | hmem
            · refine hdone l ?_ req ((hwaiting.fewer.requests l).subset hreq)
              exact List.mem_flatMap.mpr ⟨_, hmem, hlinked⟩
            · refine hdone' l ?_ req hreq
              refine List.mem_flatMap.mpr ⟨_, hsame ▸ hmem, ?_⟩
              rw [hready.fewer.locks]
              exact hlinked

/-! ## One lock -/

/-- A step on one lock, which stays, changes hands or is freed. -/
structure ActsOn (l : LockId) (s s' : LockSystem) : Prop where
  others : ∀ k, k ≠ l → s'.lock k = s.lock k
  ids : ∀ k, k ≠ l → (k ∈ s'.lockIds ↔ k ∈ s.lockIds)
  self : l ∈ s'.lockIds → l ∈ s.lockIds
  requests : (s'.lock l).requests ⊆ (s.lock l).requests
  locks : ∀ t, (s'.engine.thread t).locks = (s.engine.thread t).locks ∨
    (s'.engine.thread t).locks = (s.engine.thread t).locks.erase l ∨
    (s'.engine.thread t).locks = (s.engine.thread t).locks.erase l ++ [l]
  subThreads : ∀ t, (s'.engine.thread t).subThreads = (s.engine.thread t).subThreads
  owner : ∀ sth, s'.owningThread sth = s.owningThread sth
  listed : ∀ t, s.engine.Listed t → s'.engine.Listed t

theorem Inv.setOwners {exempt : Option ThreadId} {hole hole' : Option LockId} {s : LockSystem}
    (h : s.Inv exempt hole) (l : LockId) (owners : List LockOwner)
    (howned : hole' = some l ∨ owners ≠ []) (hhole : ∀ k, k ≠ l → hole = some k → hole' = some k)
    (hbelong : l ∈ s.lockIds → ∀ owner ∈ owners,
      owner.subThread ∈ (s.engine.thread (s.lock l).owningThread).subThreads) :
    (s.modifyLock l fun lock => { lock with owners := owners }).Inv exempt hole' := by
  have hlock := fun k => s.books.setOwners_lock l k owners
  refine ⟨h.books.setOwners l owners howned hhole hbelong, ?_, ?_⟩
  · intro k hk
    have := h.listed k hk
    rwa [← show _ = (s.lock k).owningThread from (hlock k).1] at this
  · intro k hk req hreq
    rw [show ((s.modifyLock l fun lock => { lock with owners := owners }).lock k).requests = _ from
      (hlock k).2.2.1] at hreq
    exact h.requesters k hk req hreq

/-- The books after a request was served on a lock without owners. -/
theorem books_serveRequest {s : LockSystem} {l : LockId} {req : LockRequest}
    (howners : (s.lock l).owners = []) :
    (s.serveRequest l req).books =
      ((s.books.drop l req).transfer l (s.owningThread req.subThread) req.number).setOwners l
        [{ subThread := req.subThread, recursion := 1 }] := by
  set t := s.owningThread req.subThread with ht
  set s₁ := (s.deleteRequest l req).1 with hs₁
  set s₂ : LockSystem := { s₁.moveLock l t with grants := s₁.grants ++ [(l, req.number)] } with hs₂
  have hfewer := deleteRequest_fewer s l req
  have hbooks₂ : s₂.books = (s.books.drop l req).transfer l t req.number := by
    rw [hs₂, books_transfer, hs₁, books_deleteRequest]
  have hlock := s₁.books.transfer_lock l l t req.number
  have hlock₂ : s₂.lock l = (s₁.books.transfer l t req.number).lock l := by
    rw [← books_transfer]
    rfl
  have hempty : (s₂.lock l).owners = [] := by
    rw [hlock₂, hlock.2.2.1]
    exact (hfewer.owners l).trans howners
  have howning : (s₂.lock l).owningThread = s₂.owningThread req.subThread := by
    rw [hlock₂, hlock.1, if_pos rfl, ht]
    exact (hfewer.owner req.subThread).symm
  have hserve : s.serveRequest l req =
      s₂.modifyLock l fun lock =>
        { lock with owners := { subThread := req.subThread, recursion := 1 } :: lock.owners } := by
    show (s₂.incrementOwnership l req.subThread timeoutInfinite false).1 = _
    rw [incrementOwnership, if_pos howning, hempty, raiseRecursion]
  rw [hserve, books_modifyLock, ← hbooks₂, hempty]
  rfl

theorem serveRequest_listed (s : LockSystem) (l : LockId) (req : LockRequest) {t : ThreadId}
    (h : s.engine.Listed t) : (s.serveRequest l req).engine.Listed t := by
  have hdel : (s.deleteRequest l req).1.engine.Listed t :=
    (deleteRequest_fewer s l req).listed t h
  simp only [serveRequest, incrementOwnership]
  split
  · split
    · exact hdel
    · exact hdel
  · exact changeLockRequestCount_listed _ _ _ hdel

theorem changeOwner_nil {s : LockSystem} {l : LockId} (h : (s.lock l).requests = []) :
    s.changeOwner l = (s.modifyLock l fun lock => { lock with owners := [] }).release l := by
  have h' : ((s.modifyLock l fun lock => { lock with owners := [] }).lock l).requests = [] := by
    simpa [modifyLock] using h
  simp only [changeOwner, h']

theorem changeOwner_cons {s : LockSystem} {l : LockId} {req : LockRequest}
    {reqs : List LockRequest} (h : (s.lock l).requests = req :: reqs) :
    s.changeOwner l =
      (s.modifyLock l fun lock => { lock with owners := [] }).serveRequest l req := by
  have h' : ((s.modifyLock l fun lock => { lock with owners := [] }).lock l).requests =
      req :: reqs := by
    simpa [modifyLock] using h
  simp only [changeOwner, h']

/-- `ChangeOwner` on a lock whose owners do not matter any more. -/
theorem Inv.changeOwner {exempt : Option ThreadId} {l : LockId} {s : LockSystem}
    (h : s.Inv exempt (some l)) (hl : l ∈ s.lockIds) :
    (s.changeOwner l).Inv exempt none ∧ ActsOn l s (s.changeOwner l) ∧
      (l ∈ (s.changeOwner l).lockIds → ∀ owner ∈ ((s.changeOwner l).lock l).owners,
        ∃ req ∈ (s.lock l).requests, req.subThread = owner.subThread) := by
  set s₀ := s.modifyLock l fun lock => { lock with owners := [] } with hs₀
  have h₀ : s₀.Inv exempt (some l) := h.setOwners l [] (.inl rfl) (fun _ _ hk => hk) (by simp)
  have hlock₀ := fun k => s.books.setOwners_lock l k []
  have hempty : (s₀.lock l).owners = [] := (hlock₀ l).2.2.2.trans (if_pos rfl)
  have hreq₀ : ∀ k, (s₀.lock k).requests = (s.lock k).requests := fun k => (hlock₀ k).2.2.1
  have hne₀ : ∀ k, k ≠ l → s₀.lock k = s.lock k := fun k hk => Function.update_of_ne hk _ _
  cases hreqs : (s₀.lock l).requests with
  | nil =>
      have heq : s.changeOwner l = s₀.release l := changeOwner_nil (hreq₀ l ▸ hreqs)
      have hbooks : (s.changeOwner l).books = s₀.books.release l := by
        rw [heq, books_release]
      have hmem : ∀ k, k ∈ (s.changeOwner l).lockIds ↔ k ≠ l ∧ k ∈ s.lockIds := by
        intro k
        rw [show (s.changeOwner l).lockIds = s₀.lockIds.erase l from
          congrArg Books.lockIds hbooks]
        exact h.books.table.nodup.mem_erase_iff
      have hlock : (s.changeOwner l).lock = s₀.lock := congrArg Books.lock hbooks
      have hlisted : ∀ t, s.engine.Listed t → (s.changeOwner l).engine.Listed t := by
        intro t ht
        rw [heq]
        simp only [LockSystem.release, setObjectLock]
        split <;> exact ht
      have howner : ∀ sth, (s.changeOwner l).owningThread sth = s.owningThread sth :=
        fun sth => congrFun (congrArg Books.owningThread hbooks) sth
      refine ⟨⟨?_, ?_, ?_⟩, ⟨?_, ?_, ?_, ?_, ?_, ?_, howner, hlisted⟩, ?_⟩
      · rw [hbooks]
        exact h₀.books.release hl hreqs
      · intro k hk
        obtain ⟨hne, hk⟩ := (hmem k).mp hk
        rw [hlock, hne₀ k hne]
        exact (h.listed k hk).imp_left (hlisted _)
      · intro k hk req hreq
        obtain ⟨hne, hk⟩ := (hmem k).mp hk
        rw [hlock, hne₀ k hne] at hreq
        rw [howner]
        exact (h.requesters k hk req hreq).imp_left (hlisted _)
      · intro k hk
        rw [hlock, hne₀ k hk]
      · intro k hk
        rw [hmem k]
        simp [hk]
      · exact fun hmem' => absurd rfl ((hmem l).mp hmem').1
      · rw [hlock, hreq₀ l]
        exact List.Subset.refl _
      · intro t
        have hlocks : (s.changeOwner l).books.locks = (s₀.books.release l).locks :=
          congrArg Books.locks hbooks
        have ht := congrFun hlocks t
        by_cases hu : t = (s₀.books.lock l).owningThread
        · right; left
          rw [show ((s.changeOwner l).engine.thread t).locks = _ from ht]
          subst hu
          simp only [Books.release, Function.update_self]
          rfl
        · left
          rw [show ((s.changeOwner l).engine.thread t).locks = _ from ht]
          simp only [Books.release, Function.update_of_ne hu]
          rfl
      · exact fun t => congrFun (congrArg Books.subThreads hbooks) t
      · exact fun hmem' => absurd rfl ((hmem l).mp hmem').1
  | cons req reqs =>
      have hreq : req ∈ (s₀.lock l).requests := by
        rw [hreqs]
        exact List.mem_cons_self
      set t := s.owningThread req.subThread with ht
      set s₁ := (s₀.deleteRequest l req).1 with hs₁
      have h₁ : s₁.Inv exempt (some l) := h₀.deleteRequest hl hreq
      have hfewer := deleteRequest_fewer s₀ l req
      have hrest : (s₁.lock l).requests = reqs := by
        rw [hs₁, deleteRequest_requests, hreqs, List.erase_cons_head]
      have hsorted := h₀.books.queues.sorted l hl
      rw [show (s₀.books.lock l).requests = _ from hreqs, List.pairwise_cons] at hsorted
      have heq : s.changeOwner l = s₀.serveRequest l req := changeOwner_cons (hreq₀ l ▸ hreqs)
      have hbooks : (s.changeOwner l).books =
          (s₁.books.transfer l t req.number).setOwners l
            [{ subThread := req.subThread, recursion := 1 }] := by
        rw [heq, books_serveRequest hempty, hs₁, books_deleteRequest]
        rfl
      have hbooks₁ : s₁.books = s₀.books.drop l req := books_deleteRequest s₀ l req
      have hids₁ : s₁.books.lockIds = s.lockIds := hfewer.lockIds
      have hgrants₁ : s₁.books.grants = s₀.books.grants := by
        rw [hbooks₁]
        rfl
      have hnext₁ : s₁.books.nextRequest = s₀.books.nextRequest := by
        rw [hbooks₁]
        rfl
      have htransfer := h₁.books.transfer (hids₁ ▸ hl) ((hfewer.owners l).trans hempty) t
        (fun n hn => h₀.books.queues.grantsFirst l hl req hreq n (hgrants₁ ▸ hn))
        (fun r hr => hsorted.1 r (by rwa [show (s₁.books.lock l).requests = _ from hrest] at hr))
        (hnext₁ ▸ h₀.books.queues.numberLt l hl req hreq)
      have hlt := fun k => s₁.books.transfer_lock l k t req.number
      have hlo := fun k => (s₁.books.transfer l t req.number).setOwners_lock l k
        [{ subThread := req.subThread, recursion := 1 }]
      have hlock : ∀ k, (s.changeOwner l).lock k = _ := fun k =>
        congrFun (congrArg Books.lock hbooks) k
      have hids : (s.changeOwner l).lockIds = s.lockIds :=
        (congrArg Books.lockIds hbooks).trans hids₁
      have howner : ∀ sth, (s.changeOwner l).owningThread sth = s.owningThread sth := fun sth =>
        (congrFun (congrArg Books.owningThread hbooks) sth).trans (hfewer.owner sth)
      have hlisted : ∀ u, s.engine.Listed u → (s.changeOwner l).engine.Listed u := by
        intro u hu
        rw [heq]
        exact serveRequest_listed s₀ l req hu
      have hrequests : ∀ k, ((s.changeOwner l).lock k).requests = (s₁.lock k).requests := by
        intro k
        rw [hlock k, (hlo k).2.2.1, (hlt k).2.2.2]
        rfl
      have hsub : ∀ k, ((s.changeOwner l).lock k).requests ⊆ (s.lock k).requests := by
        intro k
        rw [hrequests k, ← hreq₀ k]
        exact (hfewer.requests k).subset
      have hother : ∀ k, k ≠ l → (s.changeOwner l).lock k = s.lock k := by
        intro k hk
        rw [hlock k]
        simp only [Books.setOwners, Function.update_of_ne hk, Books.transfer]
        rw [hbooks₁]
        simp only [Books.drop, Books.addCount, Books.setRequests, Function.update_of_ne hk]
        exact hne₀ k hk
      refine ⟨⟨?_, ?_, ?_⟩, ⟨hother, fun k _ => by rw [hids], fun _ => hl, hsub l, ?_, ?_, howner,
        hlisted⟩, ?_⟩
      · rw [hbooks]
        refine htransfer.setOwners l _ (.inr (by simp)) (fun k hk hh => ?_) (fun _ owner ho => ?_)
        · exact absurd (Option.some.inj hh).symm hk
        · rw [List.mem_singleton.mp ho, (hlt l).1, if_pos rfl]
          show req.subThread ∈ (s₁.engine.thread t).subThreads
          rw [hfewer.subThreads t]
          exact h₀.books.queues.belong l hl req hreq
      · intro k hk
        rw [hids] at hk
        by_cases hkl : k = l
        · subst hkl
          rw [hlock k, (hlo k).1, (hlt k).1, if_pos rfl]
          exact (h₀.requesters k hl req hreq).imp_left (hlisted t)
        · rw [hother k hkl]
          exact (h.listed k hk).imp_left (hlisted _)
      · intro k hk r hr
        rw [hids] at hk
        rw [howner]
        exact (h.requesters k hk r (hsub k hr)).imp_left (hlisted _)
      · intro u
        have hu : ((s.changeOwner l).engine.thread u).locks = (s₁.books.transfer l t req.number).locks u :=
          congrFun (congrArg Books.locks hbooks) u
        have hold : s₁.books.locks u = (s.engine.thread u).locks := hfewer.locks u
        have hnot : u ≠ (s₁.books.lock l).owningThread → (s.engine.thread u).locks =
            (s.engine.thread u).locks.erase l := by
          intro hne
          refine (List.erase_of_not_mem fun hmem => hne ?_).symm
          rw [← hold] at hmem
          exact ((h₁.books.table.linked u l).mp hmem).2.symm
        rw [hu, Books.transfer_locks, hold]
        split
        · right; right
          split
          next => rfl
          next hne => rw [← hnot hne]
        · split
          next => right; left; rfl
          next => left; rfl
      · intro u
        exact (congrFun (congrArg Books.subThreads hbooks) u).trans (hfewer.subThreads u)
      · intro _ owner ho
        rw [hlock l, (hlo l).2.2.2, if_pos rfl] at ho
        refine ⟨req, by rw [← hreq₀ l]; exact hreq, ?_⟩
        rw [List.mem_singleton.mp ho]

theorem ActsOn.refl (l : LockId) (s : LockSystem) : ActsOn l s s :=
  ⟨fun _ _ => rfl, fun _ _ => Iff.rfl, id, List.Subset.refl _, fun _ => .inl rfl, fun _ => rfl,
    fun _ => rfl, fun _ h => h⟩

/-- Replacing the owners first makes no difference to the rest of the table. -/
theorem ActsOn.of_setOwners {l : LockId} {s s' : LockSystem} {owners : List LockOwner}
    (h : ActsOn l (s.modifyLock l fun lock => { lock with owners := owners }) s') :
    ActsOn l s s' where
  others := fun k hk => (h.others k hk).trans (Function.update_of_ne hk _ _)
  ids := h.ids
  self := h.self
  requests := by
    have hlock := s.books.setOwners_lock l l owners
    have hreq : ((s.modifyLock l fun lock => { lock with owners := owners }).lock l).requests =
        (s.lock l).requests := hlock.2.2.1
    rw [← hreq]
    exact h.requests
  locks := h.locks
  subThreads := h.subThreads
  owner := h.owner
  listed := h.listed

theorem ActsOn.setOwners (l : LockId) (s : LockSystem) (owners : List LockOwner) :
    ActsOn l s (s.modifyLock l fun lock => { lock with owners := owners }) :=
  ActsOn.of_setOwners (ActsOn.refl l _)

/-- `DestroyOwner`: the sub-thread owns the lock afterwards only if it was waiting for it. -/
theorem Inv.destroyOwner {exempt : Option ThreadId} {l : LockId} {s : LockSystem}
    (h : s.Inv exempt none) (hl : l ∈ s.lockIds) (sth : SubThreadId) :
    (s.destroyOwner l sth).Inv exempt none ∧ ActsOn l s (s.destroyOwner l sth) ∧
      (l ∈ (s.destroyOwner l sth).lockIds → ∀ owner ∈ ((s.destroyOwner l sth).lock l).owners,
        owner.subThread = sth → ∃ req ∈ (s.lock l).requests, req.subThread = sth) := by
  set owners := (s.lock l).owners.filter (·.subThread ≠ sth) with howners
  set s' := s.modifyLock l fun lock => { lock with owners := owners } with hs'
  have hbelong : l ∈ s.lockIds → ∀ owner ∈ owners,
      owner.subThread ∈ (s.engine.thread (s.lock l).owningThread).subThreads :=
    fun hl owner ho => h.books.owners.belong l hl owner (List.mem_of_mem_filter ho)
  have hlock := s.books.setOwners_lock l l owners
  have heq : s.destroyOwner l sth = if owners = [] then s'.changeOwner l else s' := rfl
  rw [heq]
  split
  next hempty =>
    have hinv : s'.Inv exempt (some l) := h.setOwners l owners (.inl rfl) (by simp) hbelong
    obtain ⟨hinv', hacts, hnew⟩ := hinv.changeOwner hl
    refine ⟨hinv', hacts.of_setOwners, fun hmem owner ho heq => ?_⟩
    obtain ⟨req, hreq, hsub⟩ := hnew hmem owner ho
    rw [show (s'.lock l).requests = (s.lock l).requests from hlock.2.2.1] at hreq
    exact ⟨req, hreq, hsub.trans heq⟩
  next hne =>
    refine ⟨h.setOwners l owners (.inr hne) (by simp) hbelong, ActsOn.setOwners l s owners, ?_⟩
    intro _ owner ho heq
    rw [show (s'.lock l).owners = owners from hlock.2.2.2.trans (if_pos rfl)] at ho
    have := (List.mem_filter.mp ho).2
    simp [heq] at this

theorem lowerRecursion_owners {sth : SubThreadId} {owners owners' : List LockOwner}
    (h : lowerRecursion sth owners = some owners') :
    ∀ owner ∈ owners', ∃ owner' ∈ owners, owner'.subThread = owner.subThread := by
  induction owners generalizing owners' with
  | nil => cases h
  | cons owner owners ih =>
      rw [lowerRecursion] at h
      split at h
      next =>
        split at h
        next =>
          cases h
          exact fun o ho => ⟨o, List.mem_cons_of_mem owner ho, rfl⟩
        next =>
          cases h
          intro o ho
          rcases List.mem_cons.mp ho with rfl | ho
          · exact ⟨owner, List.mem_cons_self, rfl⟩
          · exact ⟨o, List.mem_cons_of_mem owner ho, rfl⟩
      next =>
        obtain ⟨rest, hrest, rfl⟩ := Option.map_eq_some_iff.mp h
        intro o ho
        rcases List.mem_cons.mp ho with rfl | ho
        · exact ⟨o, List.mem_cons_self, rfl⟩
        · obtain ⟨o', ho', heq⟩ := ih hrest o ho
          exact ⟨o', List.mem_cons_of_mem owner ho', heq⟩

theorem raiseRecursion_owners {sth : SubThreadId} {owners owners' : List LockOwner}
    (h : raiseRecursion sth owners = some owners') :
    owners' ≠ [] ∧ ∀ owner ∈ owners', ∃ owner' ∈ owners, owner'.subThread = owner.subThread := by
  induction owners generalizing owners' with
  | nil => cases h
  | cons owner owners ih =>
      rw [raiseRecursion] at h
      split at h
      next =>
        cases h
        refine ⟨by simp, fun o ho => ?_⟩
        rcases List.mem_cons.mp ho with rfl | ho
        · exact ⟨owner, List.mem_cons_self, rfl⟩
        · exact ⟨o, List.mem_cons_of_mem owner ho, rfl⟩
      next =>
        obtain ⟨rest, hrest, rfl⟩ := Option.map_eq_some_iff.mp h
        refine ⟨by simp, fun o ho => ?_⟩
        rcases List.mem_cons.mp ho with rfl | ho
        · exact ⟨o, List.mem_cons_self, rfl⟩
        · obtain ⟨o', ho', heq⟩ := (ih hrest).2 o ho
          exact ⟨o', List.mem_cons_of_mem owner ho', heq⟩

/-- `DecrementOwnership` acts on the lock only when the thread of the sub-thread holds it. -/
theorem Inv.decrementOwnership {exempt : Option ThreadId} {s : LockSystem}
    (h : s.Inv exempt none) {found : Option LockId} (hfound : ∀ l ∈ found, l ∈ s.lockIds)
    (sth : SubThreadId) :
    (s.decrementOwnership found sth).1.Inv exempt none ∧
      ((s.decrementOwnership found sth).1 = s ∨ ∃ l ∈ s.lockIds,
        (s.lock l).owningThread = s.owningThread sth ∧
          ActsOn l s (s.decrementOwnership found sth).1) := by
  cases found with
  | none => exact ⟨h, .inl rfl⟩
  | some l =>
      have hl := hfound l rfl
      unfold LockSystem.decrementOwnership
      dsimp only
      split
      next howning =>
        split
        next => exact ⟨h, .inl rfl⟩
        next owners howners =>
          have hbelong : l ∈ s.lockIds → ∀ owner ∈ owners,
              owner.subThread ∈ (s.engine.thread (s.lock l).owningThread).subThreads := by
            intro hl owner ho
            obtain ⟨owner', ho', heq⟩ := lowerRecursion_owners howners owner ho
            exact heq ▸ h.books.owners.belong l hl owner' ho'
          dsimp only
          split
          next =>
            have hinv : (s.modifyLock l fun lock => { lock with owners := owners }).Inv exempt
                (some l) := h.setOwners l owners (.inl rfl) (by simp) hbelong
            obtain ⟨hinv', hacts, -⟩ := hinv.changeOwner hl
            exact ⟨hinv', .inr ⟨l, hl, howning, hacts.of_setOwners⟩⟩
          next hne =>
            exact ⟨h.setOwners l owners (.inr hne) (by simp) hbelong,
              .inr ⟨l, hl, howning, ActsOn.setOwners l s owners⟩⟩
      next => exact ⟨h, .inl rfl⟩

/-! ## The lock of an object -/

theorem findLockAmong_some {s : LockSystem} {threads : List ThreadId} {obj : ObjectId}
    {l : LockId} (h : s.findLockAmong threads obj = some l) :
    (∃ t, l ∈ (s.engine.thread t).locks) ∧ (s.lock l).resource = obj := by
  have hmem := List.mem_of_find?_eq_some h
  have hres := List.find?_some h
  obtain ⟨t, -, ht⟩ := List.mem_flatMap.mp hmem
  exact ⟨⟨t, ht⟩, by simpa using hres⟩

theorem findLockAmong_none {s : LockSystem} {threads : List ThreadId} {obj : ObjectId}
    (h : s.findLockAmong threads obj = none) {t : ThreadId} (ht : t ∈ threads) {l : LockId}
    (hl : l ∈ (s.engine.thread t).locks) : (s.lock l).resource ≠ obj := by
  have := List.find?_eq_none.mp h l (List.mem_flatMap.mpr ⟨t, ht, hl⟩)
  simpa using this

/-- `FindLockObject` finds the lock of the object. -/
theorem Inv.findLockObject_some {exempt : Option ThreadId} {s : LockSystem}
    (h : s.Inv exempt none) {obj : ObjectId} {l : LockId} (hfound : s.findLockObject obj = some l) :
    l ∈ s.lockIds ∧ (s.lock l).resource = obj := by
  unfold LockSystem.findLockObject at hfound
  split at hfound
  next hheader => exact (h.books.table.header obj hheader l).mp hfound
  next =>
    have hsome : ∃ threads, s.findLockAmong threads obj = some l := by
      split at hfound
      next k hk => exact ⟨_, hk.trans hfound⟩
      next => exact ⟨_, hfound⟩
    obtain ⟨threads, hsome⟩ := hsome
    obtain ⟨⟨t, ht⟩, hres⟩ := findLockAmong_some hsome
    exact ⟨((h.books.table.linked t l).mp ht).1, hres⟩

/-- When it finds none, the object has no lock. -/
theorem Inv.findLockObject_none {s : LockSystem} (h : s.Inv none none) {obj : ObjectId}
    (hfound : s.findLockObject obj = none) : ∀ l ∈ s.lockIds, (s.lock l).resource ≠ obj := by
  intro l hl hres
  unfold LockSystem.findLockObject at hfound
  split at hfound
  next hheader =>
    have hsome := (h.books.table.header obj hheader l).mpr ⟨hl, hres⟩
    rw [show s.books.objectLock obj = none from hfound] at hsome
    cases hsome
  next =>
    have hlinked : l ∈ (s.engine.thread (s.lock l).owningThread).locks :=
      (h.books.table.linked _ l).mpr ⟨hl, rfl⟩
    split at hfound
    next => cases hfound
    next hready =>
      rcases h.listed l hl with hlisted | hexempt
      · rcases hlisted with hmem | hmem
        · exact findLockAmong_none hready hmem hlinked hres
        · exact findLockAmong_none hfound hmem hlinked hres
      · cases hexempt

theorem Inv.unlockObject {exempt : Option ThreadId} {s : LockSystem} (h : s.Inv exempt none)
    (obj : ObjectId) (sth : SubThreadId) :
    (s.unlockObject obj sth).Inv exempt none ∧
      ((s.unlockObject obj sth) = s ∨ ∃ l ∈ s.lockIds,
        (s.lock l).owningThread = s.owningThread sth ∧ ActsOn l s (s.unlockObject obj sth)) :=
  h.decrementOwnership (fun _ hl => (h.findLockObject_some hl).1) sth

/-! ## Acquiring -/

/-- A step that moves threads between lists only. -/
theorem Fewer.of_books {s s' : LockSystem} (h : s'.books = s.books)
    (hlisted : ∀ t, s.engine.Listed t → s'.engine.Listed t) : Fewer s s' := by
  have hlock : s'.lock = s.lock := congrArg Books.lock h
  refine ⟨congrArg Books.lockIds h, fun l => by rw [hlock], fun l => by rw [hlock],
    fun l => by rw [hlock], fun l => ?_, fun t => congrFun (congrArg Books.locks h) t,
    fun t => congrFun (congrArg Books.subThreads h) t,
    fun sth => congrFun (congrArg Books.owningThread h) sth, hlisted⟩
  rw [hlock]

theorem Inv.of_books {exempt : Option ThreadId} {hole : Option LockId} {s s' : LockSystem}
    (h : s.Inv exempt hole) (hbooks : s'.books = s.books)
    (hlisted : ∀ t, s.engine.Listed t → s'.engine.Listed t) : s'.Inv exempt hole :=
  h.of_fewer (Fewer.of_books hbooks hlisted) (hbooks ▸ h.books)

theorem Inv.restart {exempt : Option ThreadId} {hole : Option LockId} {s : LockSystem}
    (h : s.Inv exempt hole) (t : ThreadId) (deleteEvent : Bool) :
    ({ s with engine := s.engine.restart t deleteEvent } : LockSystem).Inv exempt hole :=
  h.of_books (books_restart s t deleteEvent) fun _ hu => hu.restart t deleteEvent

/-- A new request puts the thread to wait. -/
theorem createRequest_status (s : LockSystem) (l : LockId) (sth : SubThreadId)
    (timeExpire : Int) (force : Bool) :
    ((s.createRequest l sth timeExpire force).engine.thread (s.owningThread sth)).status =
      .waiting := by
  simp only [createRequest, changeLockRequestCount]
  split
  next hzero =>
    simp [addLockRequestCount, modifyLock, LockSystem.owningThread, Engine.modifyThread] at hzero
  next =>
    simp [setStatus, LockSystem.owningThread, modifyLock, Engine.modifyThread]

theorem Inv.createRequest {exempt : Option ThreadId} {hole : Option LockId} {s : LockSystem}
    (h : s.Inv exempt hole) {l : LockId} (hl : l ∈ s.lockIds) {sth : SubThreadId}
    (hsth : sth ∈ (s.engine.thread (s.owningThread sth)).subThreads)
    (hlisted : s.engine.Listed (s.owningThread sth)) (timeExpire : Int) (force : Bool) :
    (s.createRequest l sth timeExpire force).Inv exempt hole := by
  set req : LockRequest :=
    { number := s.nextRequest, subThread := sth, timeExpire := timeExpire, force := force }
    with hreq
  have hbooks : (s.createRequest l sth timeExpire force).books = s.books.add l req :=
    books_createRequest s l sth timeExpire force
  have hlist : ∀ t, s.engine.Listed t →
      (s.createRequest l sth timeExpire force).engine.Listed t :=
    fun t ht => changeLockRequestCount_listed _ _ _ ht
  have howner : ∀ v, (s.createRequest l sth timeExpire force).owningThread v = s.owningThread v :=
    fun v => congrFun (congrArg Books.owningThread hbooks) v
  have hlock : ∀ k, (s.createRequest l sth timeExpire force).lock k = _ :=
    fun k => congrFun (congrArg Books.lock hbooks) k
  have hset := fun k => ({ s.books with nextRequest := s.nextRequest + 1 } : Books).setRequests_lock
    l k ((s.lock l).requests ++ [req])
  have hids : (s.createRequest l sth timeExpire force).lockIds = s.lockIds :=
    congrArg Books.lockIds hbooks
  refine ⟨?_, ?_, ?_⟩
  · rw [hbooks]
    exact h.books.add hl rfl hsth
  · intro k hk
    rw [hids] at hk
    rw [hlock k, show ((s.books.add l req).lock k).owningThread = _ from (hset k).1]
    exact (h.listed k hk).imp_left (hlist _)
  · intro k hk r hr
    rw [hids] at hk
    rw [howner]
    rw [hlock k, show ((s.books.add l req).lock k).requests = _ from (hset k).2.2.2] at hr
    split at hr
    next heq =>
      rcases List.mem_append.mp hr with hr | hr
      · exact (h.requesters l hl r hr).imp_left (hlist _)
      · rw [List.mem_singleton.mp hr]
        exact .inl (hlist _ hlisted)
    next => exact (h.requesters k hk r hr).imp_left (hlist _)

/-- `IncrementOwnership` fills the hole of a lock that was just created. -/
theorem Inv.incrementOwnership {hole : Option LockId} {s : LockSystem} {l : LockId}
    (h : s.Inv none hole) (hl : l ∈ s.lockIds) (hhole : ∀ k, hole = some k → k = l)
    {sth : SubThreadId} (hsth : sth ∈ (s.engine.thread (s.owningThread sth)).subThreads)
    (hlisted : s.engine.Listed (s.owningThread sth))
    (hnew : hole = some l → (s.lock l).owningThread = s.owningThread sth)
    (timeExpire : Int) (force : Bool) :
    (s.incrementOwnership l sth timeExpire force).1.Inv none none ∧
      ((s.incrementOwnership l sth timeExpire force).2 = true →
        ((s.incrementOwnership l sth timeExpire force).1.engine.thread
          ((s.incrementOwnership l sth timeExpire force).1.owningThread sth)).status = .waiting) := by
  have hother : ∀ k, k ≠ l → hole = some k → (none : Option LockId) = some k :=
    fun k hk heq => absurd (hhole k heq) hk
  unfold LockSystem.incrementOwnership
  split
  next howning =>
    split
    next owners howners =>
      obtain ⟨hne, hfrom⟩ := raiseRecursion_owners howners
      refine ⟨h.setOwners l owners (.inr hne) hother fun hl owner ho => ?_, nofun⟩
      obtain ⟨owner', ho', heq⟩ := hfrom owner ho
      exact heq ▸ h.books.owners.belong l hl owner' ho'
    next =>
      refine ⟨h.setOwners l _ (.inr (by simp)) hother fun hl owner ho => ?_, nofun⟩
      rcases List.mem_cons.mp ho with rfl | ho
      · exact howning ▸ hsth
      · exact h.books.owners.belong l hl owner ho
  next howning =>
    have hnone : hole = none := by
      cases hole with
      | none => rfl
      | some k => exact absurd (hnew (hhole k rfl ▸ rfl)) howning
    subst hnone
    refine ⟨h.createRequest hl hsth hlisted timeExpire force, fun _ => ?_⟩
    have howner : (s.createRequest l sth timeExpire force).owningThread sth = s.owningThread sth :=
      congrFun (congrArg Books.owningThread (books_createRequest s l sth timeExpire force)) sth
    rw [howner]
    exact createRequest_status s l sth timeExpire force

theorem Inv.createInstance {s : LockSystem} (h : s.Inv none none) {t : ThreadId}
    (ht : s.engine.Listed t) {obj : ObjectId} (hobj : ∀ l ∈ s.lockIds, (s.lock l).resource ≠ obj) :
    (s.createInstance t obj).Inv none (some s.nextLock) := by
  have hbooks := books_createInstance s t obj
  have hfresh : s.nextLock ∉ s.lockIds := fun hmem =>
    Nat.lt_irrefl _ (h.books.table.lockLt _ hmem)
  have hold : ∀ k ∈ s.lockIds, (s.createInstance t obj).lock k = s.lock k := by
    intro k hk
    rw [show (s.createInstance t obj).lock k = _ from congrFun (congrArg Books.lock hbooks) k]
    exact Books.create_lock s.books t obj fun heq => by
      rw [heq] at hk
      exact hfresh hk
  have hself : (s.createInstance t obj).lock s.nextLock = _ :=
    (congrFun (congrArg Books.lock hbooks) s.nextLock).trans (Books.create_lock_self s.books t obj)
  have hids : (s.createInstance t obj).lockIds = s.nextLock :: s.lockIds :=
    congrArg Books.lockIds hbooks
  have hlist : ∀ u, s.engine.Listed u → (s.createInstance t obj).engine.Listed u := by
    intro u hu
    simp only [LockSystem.createInstance, setObjectLock]
    split <;> exact hu
  refine ⟨?_, ?_, ?_⟩
  · rw [hbooks]
    exact h.books.create t hobj
  · intro k hk
    rcases List.mem_cons.mp (hids ▸ hk) with rfl | hk
    · rw [hself]
      exact .inl (hlist t ht)
    · rw [hold k hk]
      exact (h.listed k hk).imp_left (hlist _)
  · intro k hk req hreq
    rcases List.mem_cons.mp (hids ▸ hk) with rfl | hk
    · rw [hself] at hreq
      cases hreq
    · rw [hold k hk] at hreq
      rw [show (s.createInstance t obj).owningThread req.subThread = _ from
        congrFun (congrArg Books.owningThread hbooks) _]
      exact (h.requesters k hk req hreq).imp_left (hlist _)

/-- A thread that has to wait is queued. -/
theorem Inv.queueWaiting {s : LockSystem} (h : s.Inv none none) {t : ThreadId}
    (hstatus : (s.engine.thread t).status = .waiting) :
    ({ s with engine := s.engine.putInProperList t } : LockSystem).Inv none none :=
  h.of_books (books_putInProperList s t) fun _ hu => hu.putInProperList (.inr hstatus)

theorem Inv.lockObject {s : LockSystem} (h : s.Inv none none) {sth : SubThreadId}
    (hexec : s.Executing sth) (obj : ObjectId) (timeExpire : Int) (force : Bool) :
    (s.lockObject obj sth timeExpire force).Inv none none := by
  obtain ⟨hsth, -, hready⟩ := hexec
  unfold LockSystem.lockObject
  cases hfound : s.findLockObject obj with
  | some l =>
      have hinc := h.incrementOwnership (h.findLockObject_some hfound).1 nofun hsth
        (.inl hready) nofun timeExpire force
      dsimp only
      generalize s.incrementOwnership l sth timeExpire force = r at hinc ⊢
      obtain ⟨s', waits⟩ := r
      cases waits with
      | false => exact hinc.1
      | true => exact hinc.1.queueWaiting (hinc.2 rfl)
  | none =>
      have hbooks := books_createInstance s (s.owningThread sth) obj
      have hnew := h.createInstance (.inl hready) (h.findLockObject_none hfound)
      have hids : (s.createInstance (s.owningThread sth) obj).lockIds = s.nextLock :: s.lockIds :=
        congrArg Books.lockIds hbooks
      have howner : (s.createInstance (s.owningThread sth) obj).owningThread sth =
          s.owningThread sth := congrFun (congrArg Books.owningThread hbooks) sth
      have hsubs : ((s.createInstance (s.owningThread sth) obj).engine.thread
          (s.owningThread sth)).subThreads = (s.engine.thread (s.owningThread sth)).subThreads :=
        congrFun (congrArg Books.subThreads hbooks) _
      have hlist : (s.createInstance (s.owningThread sth) obj).engine.Listed
          (s.owningThread sth) := by
        simp only [LockSystem.createInstance, setObjectLock]
        split <;> exact .inl hready
      have hself := (congrFun (congrArg Books.lock hbooks) s.nextLock).trans
        (Books.create_lock_self s.books (s.owningThread sth) obj)
      have hinc := hnew.incrementOwnership (l := s.nextLock) (by simp [hids])
        (fun k hk => (Option.some.inj hk).symm) (by rwa [howner, hsubs]) (by rwa [howner])
        (fun _ => by rw [howner]; exact congrArg Lock.owningThread hself) timeExpire force
      dsimp only
      generalize (s.createInstance (s.owningThread sth) obj).incrementOwnership s.nextLock sth
        timeExpire force = r at hinc ⊢
      obtain ⟨s', waits⟩ := r
      cases waits with
      | false => exact hinc.1
      | true => exact hinc.1.queueWaiting (hinc.2 rfl)

end LockSystem

end TinyCLR
