import TinyCLR.Execution.LockProtocol

/-!
# Destroying sub-threads

`DestroyInstance` walks the locks of a thread while `DestroyOwner` moves them between the lists.
A sub-thread that waits for no lock of its own thread owns nothing behind the cursor of the walk,
so nothing refers to it when it is freed. With that every run keeps the books of the monitors.
-/

namespace TinyCLR

open Engine TransitionSystem

namespace LockSystem

/-- What the thread `t` keeps while its sub-threads give up their locks. -/
structure Kept (t : ThreadId) (s s' : LockSystem) : Prop where
  subThreads : ∀ u, (s'.engine.thread u).subThreads = (s.engine.thread u).subThreads
  owner : ∀ sth, s'.owningThread sth = s.owningThread sth
  listed : ∀ u, s.engine.Listed u → s'.engine.Listed u
  noSelf : ∀ sths, s.NoSelfRequest t sths → s'.NoSelfRequest t sths

theorem Kept.refl (t : ThreadId) (s : LockSystem) : Kept t s s :=
  ⟨fun _ => rfl, fun _ => rfl, fun _ h => h, fun _ h => h⟩

theorem Kept.trans {t : ThreadId} {s s' s'' : LockSystem} (h : Kept t s s') (h' : Kept t s' s'') :
    Kept t s s'' where
  subThreads := fun u => (h'.subThreads u).trans (h.subThreads u)
  owner := fun sth => (h'.owner sth).trans (h.owner sth)
  listed := fun u hu => h'.listed u (h.listed u hu)
  noSelf := fun sths hs => h'.noSelf sths (h.noSelf sths hs)

theorem Fewer.kept {s s' : LockSystem} (h : Fewer s s') (t : ThreadId) : Kept t s s' where
  subThreads := h.subThreads
  owner := h.owner
  listed := h.listed
  noSelf := by
    intro sths hs l hl req hreq
    rw [h.locks t] at hl
    exact hs l hl req ((h.requests l).subset hreq)

/-- A step on a lock of the thread adds no lock to it and no request to its locks. -/
theorem ActsOn.kept {l : LockId} {t : ThreadId} {s s' : LockSystem} (h : ActsOn l s s')
    (hl : l ∈ (s.engine.thread t).locks) : Kept t s s' where
  subThreads := h.subThreads
  owner := h.owner
  listed := h.listed
  noSelf := by
    intro sths hs k hk req hreq
    have hold : k ∈ (s.engine.thread t).locks := by
      rcases h.locks t with heq | heq | heq
      · exact heq ▸ hk
      · rw [heq] at hk
        exact List.mem_of_mem_erase hk
      · rw [heq] at hk
        rcases List.mem_append.mp hk with hk | hk
        · exact List.mem_of_mem_erase hk
        · exact List.mem_singleton.mp hk ▸ hl
    by_cases hkl : k = l
    · subst hkl
      exact hs k hl req (h.requests hreq)
    · rw [h.others k hkl] at hreq
      exact hs k hold req hreq

/-! ## The walk over the locks -/

def Owns (s : LockSystem) (sth : SubThreadId) (l : LockId) : Prop :=
  l ∈ s.lockIds ∧ ∃ owner ∈ (s.lock l).owners, owner.subThread = sth

theorem nextInList_append {A rest : List LockId} {l : LockId} (h : (A ++ l :: rest).Nodup) :
    nextInList l (A ++ l :: rest) = rest.head? := by
  have hA : ∀ a ∈ A, decide (a ≠ l) = true := by
    intro a ha
    have := (List.nodup_append.mp h).2.2 a ha l List.mem_cons_self
    simpa using this
  rw [nextInList, List.dropWhile_append_of_pos hA, List.dropWhile_cons_of_neg (by simp),
    List.tail_cons]

/-- One stop of the walk: the cursor moves to the lock behind. If the sub-thread is `free` of
requests to its own thread, what it owns stays behind the cursor. -/
theorem walk_next {free : Prop} {t : ThreadId} {sth : SubThreadId} {s s' : LockSystem} {A rest : List LockId}
    {l : LockId} (hacts : ActsOn l s s')
    (hnew : l ∈ s'.lockIds → ∀ owner ∈ (s'.lock l).owners, owner.subThread = sth →
      ∃ req ∈ (s.lock l).requests, req.subThread = sth)
    (hlocks : A ++ l :: rest = (s.engine.thread t).locks)
    (hnodup : (A ++ l :: rest).Nodup)
    (hfree : free → s.NoSelfRequest t [sth])
    (howns : free → ∀ k, s.Owns sth k → k ∈ l :: rest) :
    ∃ A' rest', A' ++ rest' = (s'.engine.thread t).locks ∧ rest'.head? = rest.head? ∧
      (free → ∀ k, s'.Owns sth k → k ∈ rest') := by
  have hl : l ∈ (s.engine.thread t).locks := hlocks ▸ by simp
  have herase : (A ++ l :: rest).erase l = A ++ rest := by
    have hA : l ∉ A := fun hmem => (List.nodup_append.mp hnodup).2.2 l hmem l List.mem_cons_self rfl
    rw [List.erase_append_right _ hA, List.erase_cons_head]
  have hrest : free → ∀ k, s'.Owns sth k → k ∈ rest := by
    rintro hno k ⟨hk, owner, ho, heq⟩
    by_cases hkl : k = l
    · subst hkl
      obtain ⟨req, hreq, hsub⟩ := hnew hk owner ho heq
      exact absurd (List.mem_singleton.mpr hsub) (hfree hno k hl req hreq)
    · rw [hacts.others k hkl] at ho
      have := howns hno k ⟨(hacts.ids k hkl).mp hk, owner, ho, heq⟩
      exact (List.mem_cons.mp this).resolve_left hkl
  rcases hacts.locks t with heq | heq | heq
  · refine ⟨A ++ [l], rest, ?_, rfl, hrest⟩
    rw [heq, ← hlocks]
    simp
  · refine ⟨A, rest, ?_, rfl, hrest⟩
    rw [heq, ← hlocks, herase]
  · rw [← hlocks, herase] at heq
    cases rest with
    | nil => exact ⟨A ++ [l], [], by simpa using heq.symm, rfl, hrest⟩
    | cons k rest =>
        refine ⟨A, (k :: rest) ++ [l], by simp [heq], rfl, fun hno j hj => ?_⟩
        exact List.mem_append_left [l] (hrest hno j hj)

theorem destroyOwnerWalk_spec {free : Prop} {exempt : Option ThreadId} {t : ThreadId} {sth : SubThreadId}
    {fuel : Nat} {cursor : Option LockId} {s s' : LockSystem}
    (hwalk : destroyOwnerWalk t sth fuel cursor s = some s') (h : s.Inv exempt none)
    {A rest : List LockId} (hlocks : A ++ rest = (s.engine.thread t).locks)
    (hcursor : cursor = rest.head?)
    (hfree : free → s.NoSelfRequest t [sth])
    (howns : free → ∀ k, s.Owns sth k → k ∈ rest) :
    s'.Inv exempt none ∧ Kept t s s' ∧ (free → ∀ k, ¬ s'.Owns sth k) := by
  induction fuel generalizing cursor s A rest with
  | zero =>
      cases rest with
      | nil =>
          subst hcursor
          rw [List.head?_nil, destroyOwnerWalk, Option.some.injEq] at hwalk
          subst hwalk
          exact ⟨h, Kept.refl t s, fun hno k hk => List.not_mem_nil (howns hno k hk)⟩
      | cons l rest =>
          subst hcursor
          cases hwalk
  | succ fuel ih =>
      cases rest with
      | nil =>
          subst hcursor
          rw [List.head?_nil, destroyOwnerWalk, Option.some.injEq] at hwalk
          subst hwalk
          exact ⟨h, Kept.refl t s, fun hno k hk => List.not_mem_nil (howns hno k hk)⟩
      | cons l rest =>
          subst hcursor
          have hmem : l ∈ (s.engine.thread t).locks := hlocks ▸ by simp
          have hl : l ∈ s.lockIds := ((h.books.table.linked t l).mp hmem).1
          have hnodup : (A ++ l :: rest).Nodup := by
            rw [hlocks]
            exact h.books.table.locksNodup t
          obtain ⟨hinv, hacts, hnew⟩ := h.destroyOwner hl sth
          obtain ⟨A', rest', hlocks', hhead, howns'⟩ :=
            walk_next hacts hnew hlocks hnodup hfree howns
          have hkept := hacts.kept hmem
          rw [List.head?_cons, destroyOwnerWalk, ← hlocks, nextInList_append hnodup, ← hhead]
            at hwalk
          obtain ⟨hinv', hkept', hnone⟩ :=
            ih hwalk hinv hlocks' rfl (fun hf => hkept.noSelf _ (hfree hf)) howns'
          exact ⟨hinv', hkept.trans hkept', hnone⟩

/-! ## The sub-threads that are freed -/

theorem Inv.unlockObjects {exempt : Option ThreadId} {t : ThreadId} {sth : SubThreadId}
    (objs : List ObjectId) {s : LockSystem} (h : s.Inv exempt none)
    (howner : s.owningThread sth = t) :
    (objs.foldl (fun s obj => s.unlockObject obj sth) s).Inv exempt none ∧
      Kept t s (objs.foldl (fun s obj => s.unlockObject obj sth) s) := by
  induction objs generalizing s with
  | nil => exact ⟨h, Kept.refl t s⟩
  | cons obj objs ih =>
      obtain ⟨hinv, hacts⟩ := h.unlockObject obj sth
      have hkept : Kept t s (s.unlockObject obj sth) := by
        rcases hacts with heq | ⟨l, hl, howning, hacts⟩
        · rw [heq]
          exact Kept.refl t s
        · apply hacts.kept
          exact (h.books.table.linked t l).mpr ⟨hl, howning.trans howner⟩
      obtain ⟨hinv', hkept'⟩ := ih hinv ((hkept.owner sth).trans howner)
      exact ⟨hinv', hkept.trans hkept'⟩

/-- One sub-thread before it is freed. Without requests for locks of its own thread, nothing
refers to it any more. -/
theorem Inv.giveUp {free : Prop} {exempt : Option ThreadId} {t : ThreadId} {sth : SubThreadId}
    {s s₁ s₂ : LockSystem} {objs : List ObjectId} {fuel : Nat} (h : s.Inv exempt none)
    (hexempt : ∀ u, exempt = some u → u = t) (hsth : sth ∈ (s.engine.thread t).subThreads)
    (hs₁ : objs.foldl (fun s obj => s.unlockObject obj sth) s = s₁)
    (hwalk : destroyOwnerWalk t sth fuel (s₁.engine.thread t).locks.head? s₁ = some s₂)
    (hfree : free → s.NoSelfRequest t [sth]) :
    (s₂.deleteLockRequests sth).Inv exempt none ∧ Kept t s (s₂.deleteLockRequests sth) ∧
      (free → (∀ l, ¬ (s₂.deleteLockRequests sth).Owns sth l) ∧
        (s₂.deleteLockRequests sth).NoRequest sth) := by
  obtain ⟨h₁, hkept₁⟩ := h.unlockObjects objs (h.books.subs.owner t sth hsth)
  rw [hs₁] at h₁ hkept₁
  have howner₁ : s₁.owningThread sth = t := (hkept₁.owner sth).trans (h.books.subs.owner t sth hsth)
  have howns : ∀ k, s₁.Owns sth k → k ∈ (s₁.engine.thread t).locks := by
    rintro k ⟨hk, owner, ho, rfl⟩
    apply (h₁.books.table.linked t k).mpr
    refine ⟨hk, ?_⟩
    have hbelong := h₁.books.owners.belong k hk owner ho
    exact (h₁.books.subs.owner _ _ hbelong).symm.trans howner₁
  obtain ⟨h₂, hkept₂, hnone⟩ := destroyOwnerWalk_spec (A := []) hwalk h₁ rfl rfl
    (fun hf => hkept₁.noSelf _ (hfree hf)) fun _ => howns
  have hkept := hkept₁.trans hkept₂
  obtain ⟨h₃, hfewer, hdeleted⟩ := h₂.deleteLockRequests (hkept.subThreads t ▸ hsth)
  have hkept₃ := hkept.trans (hfewer.kept t)
  refine ⟨h₃, hkept₃, fun hf => ⟨?_, ?_⟩⟩
  · rintro l ⟨hl, owner, ho, heq⟩
    rw [hfewer.lockIds] at hl
    rw [hfewer.owners] at ho
    exact hnone hf l ⟨hl, owner, ho, heq⟩
  · intro l hl req hreq
    have hl₂ : l ∈ s₂.lockIds := hfewer.lockIds ▸ hl
    rcases h₂.listed l hl₂ with hlisted | hex
    · exact hdeleted l hl₂ hlisted req hreq
    · have hmem : l ∈ ((s₂.deleteLockRequests sth).engine.thread t).locks := by
        rw [hfewer.locks]
        exact (h₂.books.table.linked t l).mpr ⟨hl₂, hexempt _ hex⟩
      have hnot := hkept₃.noSelf _ (hfree hf) l hmem req hreq
      simpa using hnot

theorem Inv.freeSubThread {exempt : Option ThreadId} {s : LockSystem} (h : s.Inv exempt none)
    (t : ThreadId) {sth : SubThreadId} (howns : ∀ l, ¬ s.Owns sth l) (hno : s.NoRequest sth) :
    (s.freeSubThread t sth).Inv exempt none := by
  have hbooks := books_freeSubThread s t sth
  have hlist : ∀ u, s.engine.Listed u → (s.freeSubThread t sth).engine.Listed u := fun _ hu => hu
  refine ⟨?_, ?_, ?_⟩
  · rw [hbooks]
    apply h.books.freeSubThread t
    · exact fun l hl owner ho heq => howns l ⟨hl, owner, ho, heq⟩
    · exact hno
  · exact fun l hl => (h.listed l hl).imp_left (hlist _)
  · exact fun l hl req hreq => (h.requesters l hl req hreq).imp_left (hlist _)

theorem NoSelfRequest.mono {s : LockSystem} {t : ThreadId} {sths sths' : List SubThreadId}
    (h : s.NoSelfRequest t sths) (hsub : sths' ⊆ sths) : s.NoSelfRequest t sths' :=
  fun l hl req hreq hmem => h l hl req hreq (hsub hmem)

/-- The sub-threads that are freed, from `sthBase` on or all of them. -/
def freedFrom (sthBase : Option SubThreadId) (includeSelf : Bool) (sths : List SubThreadId) :
    List SubThreadId :=
  match sthBase with
  | none => sths
  | some sth =>
      let rest := sths.dropWhile (· ≠ sth)
      if includeSelf then rest else rest.tail

/-- The last sub-thread is freed first, the others as if it had not been there. -/
theorem freedFrom_append {sthBase : Option SubThreadId} {includeSelf : Bool}
    {sths : List SubThreadId} {sth : SubThreadId} (hne : some sth ≠ sthBase)
    (hbase : ∀ b, sthBase = some b → b ∈ sths) :
    freedFrom sthBase includeSelf (sths ++ [sth]) = freedFrom sthBase includeSelf sths ++ [sth] := by
  cases sthBase with
  | none => rfl
  | some b =>
      have hdrop : sths.dropWhile (· ≠ b) ≠ [] := by
        intro hnil
        have := List.dropWhile_eq_nil_iff.mp hnil b (hbase b rfl)
        simp at this
      have happ : (sths ++ [sth]).dropWhile (· ≠ b) = sths.dropWhile (· ≠ b) ++ [sth] := by
        rw [List.dropWhile_append, if_neg (by simpa using hdrop)]
      simp only [freedFrom, happ]
      cases includeSelf with
      | true => rfl
      | false =>
          simp only [Bool.false_eq_true, if_false]
          exact List.tail_append_of_ne_nil hdrop

/-- The last sub-thread is freed unless it is the base and stays. -/
theorem mem_freedFrom_last {sthBase : Option SubThreadId} {includeSelf : Bool}
    {sths : List SubThreadId} {sth : SubThreadId} (hnodup : (sths ++ [sth]).Nodup)
    (hstays : ¬(some sth = sthBase ∧ includeSelf = false))
    (hbase : ∀ b, sthBase = some b → b ∈ sths ++ [sth]) :
    sth ∈ freedFrom sthBase includeSelf (sths ++ [sth]) := by
  by_cases heq : some sth = sthBase
  · subst heq
    have hself : includeSelf = true := by
      cases includeSelf with
      | true => rfl
      | false => exact absurd ⟨rfl, rfl⟩ hstays
    have hnot : ∀ v ∈ sths, decide (v ≠ sth) = true := by
      intro v hv
      have := (List.nodup_append.mp hnodup).2.2 v hv sth (by simp)
      simpa using this
    simp only [freedFrom, hself, if_true, List.dropWhile_append_of_pos hnot]
    simp
  · rw [freedFrom_append heq]
    · simp
    · intro b hb
      rcases List.mem_append.mp (hbase b hb) with hmem | hmem
      · exact hmem
      · exact absurd (List.mem_singleton.mp hmem ▸ hb.symm) heq

/-- `DestroyInstance` keeps the books when no sub-thread that it frees waits for a lock of its own
thread. -/
theorem destroyInstance_inv {exempt : Option ThreadId} {t : ThreadId}
    {sthBase : Option SubThreadId} {includeSelf : Bool} {synchronized : SubThreadId → List ObjectId}
    {fuel count : Nat} {s s' : LockSystem} (h : s.Inv exempt none)
    (hexempt : ∀ u, exempt = some u → u = t)
    (hcount : (s.engine.thread t).subThreads.length ≤ count)
    (hbase : ∀ b, sthBase = some b → b ∈ (s.engine.thread t).subThreads)
    (hno : s.NoSelfRequest t (freedFrom sthBase includeSelf (s.engine.thread t).subThreads))
    (hdestroy : destroyInstance t sthBase includeSelf synchronized fuel count s = some s') :
    s'.Inv exempt none ∧ (∀ u, s.engine.Listed u → s'.engine.Listed u) ∧
      (sthBase = none → (s'.engine.thread t).subThreads = []) := by
  induction count generalizing s with
  | zero =>
      rw [destroyInstance, Option.some.injEq] at hdestroy
      subst hdestroy
      exact ⟨h, fun _ hu => hu, fun _ => List.eq_nil_of_length_eq_zero (Nat.le_zero.mp hcount)⟩
  | succ count ih =>
      rw [destroyInstance] at hdestroy
      cases hlast : (s.engine.thread t).subThreads.getLast? with
      | none =>
          rw [hlast, Option.some.injEq] at hdestroy
          subst hdestroy
          exact ⟨h, fun _ hu => hu, fun _ => List.getLast?_eq_none_iff.mp hlast⟩
      | some sth =>
          obtain ⟨sths, hsths⟩ := List.getLast?_eq_some_iff.mp hlast
          have hnodup : (sths ++ [sth]).Nodup := by
            rw [← hsths]
            exact h.books.subs.nodup t
          have hsth : sth ∈ (s.engine.thread t).subThreads := hsths ▸ by simp
          rw [hlast] at hdestroy
          dsimp only at hdestroy
          generalize hs₁ : (synchronized sth).foldl (fun s obj => s.unlockObject obj sth) s = s₁
            at hdestroy
          cases hwalk : destroyOwnerWalk t sth fuel (s₁.engine.thread t).locks.head? s₁ with
          | none =>
              rw [hwalk] at hdestroy
              cases hdestroy
          | some s₂ =>
              rw [hwalk] at hdestroy
              dsimp only at hdestroy
              have hfree : ¬(some sth = sthBase ∧ includeSelf = false) →
                  s.NoSelfRequest t [sth] := by
                intro hstays
                apply hno.mono
                intro v hv
                rw [List.mem_singleton.mp hv, hsths]
                exact mem_freedFrom_last hnodup hstays (hsths ▸ hbase)
              obtain ⟨h₃, hkept, hnone⟩ := h.giveUp hexempt hsth hs₁ hwalk hfree
              set s₃ := s₂.deleteLockRequests sth with hs₃
              by_cases hstays : some sth = sthBase ∧ includeSelf = false
              · rw [if_pos hstays, Option.some.injEq] at hdestroy
                subst hdestroy
                exact ⟨h₃, hkept.listed, fun hb => by simp [hb] at hstays⟩
              · obtain ⟨howns, hrequests⟩ := hnone hstays
                have h₄ := h₃.freeSubThread t howns hrequests
                rw [if_neg hstays] at hdestroy
                by_cases heq : some sth = sthBase
                · rw [if_pos heq, Option.some.injEq] at hdestroy
                  subst hdestroy
                  exact ⟨h₄, hkept.listed, fun hb => by simp [hb] at heq⟩
                · rw [if_neg heq] at hdestroy
                  have hrest : ((s₃.freeSubThread t sth).engine.thread t).subThreads = sths := by
                    have hsub := congrFun (congrArg Books.subThreads (books_freeSubThread s₃ t sth)) t
                    have hs : s₃.books.subThreads t = sths ++ [sth] :=
                      (hkept.subThreads t).trans hsths
                    rw [show ((s₃.freeSubThread t sth).engine.thread t).subThreads = _ from hsub]
                    simp only [Books.freeSubThread, Function.update_self, hs]
                    have hnot : sth ∉ sths := fun hmem =>
                      (List.nodup_append.mp hnodup).2.2 sth hmem sth (by simp) rfl
                    rw [List.erase_append_right _ hnot, List.erase_cons_head, List.append_nil]
                  have hbase' : ∀ b, sthBase = some b → b ∈ sths := by
                    intro b hb
                    rcases List.mem_append.mp (hsths ▸ hbase b hb) with hmem | hmem
                    · exact hmem
                    · exact absurd (List.mem_singleton.mp hmem ▸ hb.symm) heq
                  have hno' : (s₃.freeSubThread t sth).NoSelfRequest t
                      (freedFrom sthBase includeSelf sths) := by
                    have hno₃ : s₃.NoSelfRequest t (freedFrom sthBase includeSelf sths) := by
                      apply hkept.noSelf
                      apply hno.mono
                      rw [hsths, freedFrom_append heq hbase']
                      exact List.subset_append_left _ _
                    intro l hl
                    apply hno₃ l
                    have hlocks : ((s₃.freeSubThread t sth).engine.thread t).locks =
                        (s₃.engine.thread t).locks :=
                      congrFun (congrArg Books.locks (books_freeSubThread s₃ t sth)) t
                    exact hlocks ▸ hl
                  obtain ⟨h₅, hlisted, hempty⟩ := ih h₄ (by
                    rw [hrest]
                    rw [hsths, List.length_append] at hcount
                    exact Nat.le_of_succ_le_succ hcount) (hrest ▸ hbase') (hrest ▸ hno') hdestroy
                  exact ⟨h₅, fun u hu => hlisted u (hkept.listed u hu), hempty⟩

/-! ## Whole runs -/

/-- A thread without sub-threads holds no lock and waits for none. -/
theorem Inv.without_exempt {t : ThreadId} {s : LockSystem} (h : s.Inv (some t) none)
    (hempty : (s.engine.thread t).subThreads = []) : s.Inv none none := by
  refine ⟨h.books, ?_, ?_⟩
  · intro l hl
    rcases h.listed l hl with hlisted | hex
    · exact .inl hlisted
    · have hne := h.books.owners.owned l hl nofun
      obtain ⟨owner, ho⟩ := List.exists_mem_of_ne_nil _ hne
      have hbelong : owner.subThread ∈ (s.engine.thread (s.lock l).owningThread).subThreads :=
        h.books.owners.belong l hl owner ho
      rw [← Option.some.inj hex, hempty] at hbelong
      cases hbelong
  · intro l hl req hreq
    rcases h.requesters l hl req hreq with hlisted | hex
    · exact .inl hlisted
    · have hbelong : req.subThread ∈
          (s.engine.thread (s.owningThread req.subThread)).subThreads :=
        h.books.queues.belong l hl req hreq
      rw [← Option.some.inj hex, hempty] at hbelong
      cases hbelong

/-- Only the thread that is passivated leaves the lists. -/
theorem Inv.passivate {s : LockSystem} (h : s.Inv none none) (t : ThreadId) :
    ({ s with engine := s.engine.passivate t } : LockSystem).Inv (some t) none := by
  have hbooks := books_passivate s t
  have hlist : ∀ u, s.ListedOr none u →
      ({ s with engine := s.engine.passivate t } : LockSystem).ListedOr (some t) u := by
    intro u hu
    by_cases heq : u = t
    · exact .inr (heq ▸ rfl)
    · rcases hu with hmem | hex
      · left
        rcases hmem with hmem | hmem
        · exact .inl ((List.mem_erase_of_ne heq).mpr hmem)
        · exact .inr ((List.mem_erase_of_ne heq).mpr hmem)
      · cases hex
  have howner := congrArg Books.owningThread hbooks
  refine ⟨hbooks ▸ h.books, fun l hl => hlist _ (h.listed l hl), fun l hl req hreq => ?_⟩
  rw [show ({ s with engine := s.engine.passivate t } : LockSystem).owningThread req.subThread = _
    from congrFun howner _]
  exact hlist _ (h.requesters l hl req hreq)

/-- The books of a new sub-thread. -/
theorem Inv.createSubThread {s s' : LockSystem} (h : s.Inv none none) {t : ThreadId}
    {priority : Int} (hstep : step s (.createSubThread t priority) = some s') :
    s'.Inv none none := by
  rw [step, Option.some.injEq] at hstep
  subst hstep
  set s₁ : LockSystem := { s with
    nextSubThread := s.nextSubThread + 1
    engine :=
      { s.engine with
        subThread := Function.update s.engine.subThread s.nextSubThread
          { owningThread := t, priority := priority, lockRequestsCount := 0 } } } with hs₁
  set s₂ := s₁.modifyThread t fun th => { th with subThreads := th.subThreads ++ [s.nextSubThread] }
    with hs₂
  have hbooks : s₂.books = s.books.createSubThread t := by
    simp only [hs₂, hs₁, LockSystem.books, Books.createSubThread, LockSystem.modifyThread, Books.mk.injEq,
      true_and]
    refine ⟨modifyThread_field_same Thread.locks _ _ _ rfl,
      modifyThread_field_same Thread.lockRequestsCount _ _ _ rfl,
      modifyThread_field Thread.subThreads _ _ _, ?_, ?_⟩
    · funext u
      by_cases hu : u = s.nextSubThread
      · subst hu
        simp [LockSystem.owningThread, Engine.modifyThread]
      · simp [LockSystem.owningThread, Engine.modifyThread, hu]
    · funext u
      by_cases hu : u = s.nextSubThread
      · subst hu
        simp [Engine.modifyThread]
      · simp [Engine.modifyThread, hu]
  refine ⟨hbooks ▸ h.books.createSubThread t, h.listed, fun l hl req hreq => ?_⟩
  have hold : req.subThread ≠ s.nextSubThread := by
    intro heq
    have := h.books.subs.lt _ _ (h.books.queues.belong l hl req hreq)
    rw [heq] at this
    exact Nat.lt_irrefl _ this
  have howner : s₂.owningThread req.subThread = s.owningThread req.subThread := by
    have := congrFun (congrArg Books.owningThread hbooks) req.subThread
    exact this.trans (Function.update_of_ne hold _ _)
  rw [howner]
  exact h.requesters l hl req hreq

theorem Inv.destroyFrom {s s' : LockSystem} (h : s.Inv none none) {t : ThreadId}
    {sth : SubThreadId} {includeSelf : Bool} {synchronized : SubThreadId → List ObjectId}
    {fuel : Nat} (hsth : sth ∈ (s.engine.thread t).subThreads)
    (hno : s.NoSelfRequest t (s.freed t sth includeSelf))
    (hdestroy : s.destroyFrom t sth includeSelf synchronized fuel = some s') :
    s'.Inv none none :=
  (destroyInstance_inv h nofun (Nat.le_refl _) (fun _ hb => Option.some.inj hb ▸ hsth) hno
    hdestroy).1

theorem Inv.terminateThread {s s' : LockSystem} (h : s.Inv none none) {t : ThreadId}
    {synchronized : SubThreadId → List ObjectId} {fuel : Nat}
    (hno : s.NoSelfRequest t (s.engine.thread t).subThreads)
    (hterminate : s.terminateThread t synchronized fuel = some s') : s'.Inv none none := by
  have hbooks := books_passivate s t
  have hlocks : ((s.engine.passivate t).thread t).locks = (s.engine.thread t).locks :=
    congrFun (congrArg Books.locks hbooks) t
  have hsubs : ((s.engine.passivate t).thread t).subThreads = (s.engine.thread t).subThreads :=
    congrFun (congrArg Books.subThreads hbooks) t
  unfold LockSystem.terminateThread at hterminate
  have hspec := destroyInstance_inv (h.passivate t) (fun u hu => (Option.some.inj hu).symm)
    (Nat.le_of_eq (congrArg List.length hsubs)) ?_ ?_ hterminate
  · exact hspec.1.without_exempt (hspec.2.2 rfl)
  · exact fun _ hb => nomatch hb
  · intro l hl req hreq hmem
    exact hno l (hlocks ▸ hl) req hreq (hsubs ▸ hmem)

theorem step_inv {s s' : LockSystem} {a : Action} (h : s.Inv none none) (hfree : s.FreesNoRequester a)
    (hstep : step s a = some s') : s'.Inv none none := by
  cases a with
  | createSubThread t priority => exact h.createSubThread hstep
  | lockObject obj sth timeExpire force =>
      obtain ⟨hexec, heq⟩ := Option.ite_none_right_eq_some.mp hstep
      rw [← Option.some.inj heq]
      exact h.lockObject hexec obj timeExpire force
  | unlockObject obj sth =>
      obtain ⟨-, heq⟩ := Option.ite_none_right_eq_some.mp hstep
      rw [← Option.some.inj heq]
      exact (h.unlockObject obj sth).1
  | requestExpired l req =>
      obtain ⟨⟨hl, -, hreq⟩, heq⟩ := Option.ite_none_right_eq_some.mp hstep
      rw [← Option.some.inj heq]
      exact h.deleteRequest hl hreq
  | constraintExpired t sth synchronized fuel =>
      obtain ⟨⟨hsth, -⟩, heq⟩ := Option.ite_none_right_eq_some.mp hstep
      obtain ⟨s₁, hdestroy, rfl⟩ := Option.map_eq_some_iff.mp heq
      exact (h.destroyFrom hsth hfree hdestroy).restart t true
  | popSubThread t sth synchronized fuel =>
      obtain ⟨⟨hsth, -⟩, hdestroy⟩ := Option.ite_none_right_eq_some.mp hstep
      exact h.destroyFrom hsth hfree hdestroy
  | terminate t synchronized fuel =>
      obtain ⟨-, hterminate⟩ := Option.ite_none_right_eq_some.mp hstep
      exact h.terminateThread hfree hterminate
  | abort t =>
      obtain ⟨-, heq⟩ := Option.ite_none_right_eq_some.mp hstep
      rw [← Option.some.inj heq]
      exact h.restart t true

theorem initial_inv {s : LockSystem} (h : s.Initial) : s.Inv none none := by
  obtain ⟨hids, hgrants, hheader, hthreads⟩ := h
  have hids' : s.books.lockIds = [] := hids
  have hzero : ∀ p, s.books.requestCount p = 0 := by
    intro p
    simp [Books.requestCount, hids']
  have hsub : ∀ t, ∀ sth ∈ (s.engine.thread t).subThreads,
      s.owningThread sth = t ∧ (s.engine.subThread sth).lockRequestsCount = 0 := by
    intro t sth hsth
    obtain ⟨-, heq⟩ := (hthreads t).2.2.2 sth hsth
    exact ⟨congrArg SubThread.owningThread heq, congrArg SubThread.lockRequestsCount heq⟩
  have hnone : ∀ {P : LockId → Prop}, ∀ l ∈ s.books.lockIds, P l := by
    intro P l hl
    rw [hids'] at hl
    cases hl
  refine ⟨⟨⟨?_, hnone, ?_, ?_, hnone, ?_⟩, ⟨hnone, hnone⟩,
    ⟨hnone, hnone, hnone, hnone, ?_, hnone, ?_⟩, ⟨?_, ?_⟩, ⟨?_, ?_, ?_⟩⟩, hnone, hnone⟩
  · rw [hids']
    exact List.nodup_nil
  · intro t l
    rw [show s.books.locks t = [] from (hthreads t).1, hids']
    simp
  · intro t
    rw [show s.books.locks t = [] from (hthreads t).1]
    exact List.nodup_nil
  · intro obj _ l
    rw [show s.books.objectLock obj = none from hheader obj, hids']
    simp
  · intro l
    rw [show s.books.grants = [] from hgrants]
    exact List.Pairwise.nil
  · intro g hg
    rw [show s.books.grants = [] from hgrants] at hg
    cases hg
  · intro t sth hsth
    rw [hzero]
    exact (hsub t sth hsth).2
  · intro t
    rw [hzero]
    exact (hthreads t).2.1
  · exact fun t sth hsth => (hsub t sth hsth).1
  · exact fun t => (hthreads t).2.2.1
  · exact fun t sth hsth => ((hthreads t).2.2.2 sth hsth).1

theorem Inv.consistent {s : LockSystem} (h : s.Inv none none) : s.Consistent where
  oneLock := h.books.table.oneLock
  owned := fun l hl => h.books.owners.owned l hl nofun
  ownersBelong := h.books.owners.belong
  oneQueue := h.books.queues.oneQueue
  queueNodup := by
    intro l hl
    apply List.pairwise_map.mpr
    exact (h.books.queues.sorted l hl).imp fun hlt => Nat.ne_of_lt hlt
  subThreadCount := h.books.counts.subThread
  threadCount := h.books.counts.thread
  grantsInOrder := h.books.queues.grantsInOrder
  grantsFirst := h.books.queues.grantsFirst
  header := h.books.table.header

/-- Along every run that frees no sub-thread still waiting for a lock of its own thread, the books
of the monitors agree. -/
theorem monitors_consistent {s : LockSystem} (h : Reachable step Initial FreesNoRequester s) :
    s.Consistent :=
  (h.invariant (Inv none none) (fun _ => initial_inv) fun _ _ _ => step_inv).consistent

/-- Two ready threads, each with one sub-thread. -/
def twoLockers : LockSystem where
  engine :=
    { thread := fun t =>
        { status := .ready, suspended := false, system := false, executionCounter := 0,
          waitForEvents := 0, waitForEventsTimeout := timeoutInfinite, waitForObject := none,
          waitForObjectResult := .init, locks := [], lockRequestsCount := 0,
          subThreads := if t = 1 then [10] else if t = 2 then [20] else [] }
      subThread := fun sth =>
        { owningThread := sth / 10, priority := 0, lockRequestsCount := 0 }
      threadsReady := [1, 2], threadsWaiting := [], threadsZombie := []
      globalExecutionCounter := 0, cctorThread := none }
  lockIds := []
  lock := fun _ => { owningThread := 0, resource := 0, owners := [], requests := [] }
  objectLock := fun _ => none
  hasHeader := fun _ => true
  nextLock := 0
  nextRequest := 0
  nextSubThread := 30
  grants := []

theorem twoLockers_initial : twoLockers.Initial := by
  refine ⟨rfl, rfl, fun _ => rfl, fun t => ⟨rfl, rfl, ?_, ?_⟩⟩
  · by_cases h1 : t = 1
    · subst h1
      decide
    · by_cases h2 : t = 2
      · subst h2
        decide
      · simp [twoLockers, h1, h2]
  · intro sth hsth
    by_cases h1 : t = 1
    · subst h1
      rw [show (twoLockers.engine.thread 1).subThreads = [10] from rfl] at hsth
      rw [List.mem_singleton.mp hsth]
      exact ⟨by decide, rfl⟩
    · by_cases h2 : t = 2
      · subst h2
        rw [show (twoLockers.engine.thread 2).subThreads = [20] from rfl] at hsth
        rw [List.mem_singleton.mp hsth]
        exact ⟨by decide, rfl⟩
      · simp [twoLockers, h1, h2] at hsth

/-- The second sub-thread of thread 1 waits for the lock of thread 2, is granted it, and is
destroyed with it. -/
theorem monitors_consistent_handed_over :
    ∃ s, run step twoLockers [.lockObject 5 20 100 false, .createSubThread 1 0,
        .lockObject 5 30 100 false, .unlockObject 5 20, .lockObject 6 30 100 false,
        .popSubThread 1 30 (fun _ => []) 5] = some s ∧
      s.lockIds = [] ∧ s.grants = [(0, 0)] ∧ s.Consistent := by
  have hadm : AdmittedRun step FreesNoRequester twoLockers
      [.lockObject 5 20 100 false, .createSubThread 1 0, .lockObject 5 30 100 false,
        .unlockObject 5 20, .lockObject 6 30 100 false, .popSubThread 1 30 (fun _ => []) 5] := by
    decide
  refine ⟨_, rfl, by decide, by decide, ?_⟩
  exact monitors_consistent ((Reachable.start twoLockers_initial).run hadm rfl)

/-- A constraint expiry restarts thread 1 while its request is pending, and it asks for the same
lock again. When the sub-thread is destroyed, the lock is handed back to it, at the place in the
list that the walk has left behind, and the freed sub-thread owns the lock. -/
theorem freed_subThread_owns_lock :
    ¬ ∀ s, Reachable step Initial (fun _ _ => True) s → s.Consistent := by
  have hrun : ∃ s ∈ run step twoLockers
      [.lockObject 5 20 100 false, .createSubThread 1 0, .createSubThread 1 0,
        .lockObject 5 30 100 false, .constraintExpired 1 31 (fun _ => []) 5,
        .lockObject 5 30 100 false, .unlockObject 5 20,
        .constraintExpired 1 31 (fun _ => []) 5, .popSubThread 1 30 (fun _ => []) 5],
      0 ∈ s.lockIds ∧ ∃ owner ∈ (s.lock 0).owners,
        owner.subThread ∉ (s.engine.thread (s.lock 0).owningThread).subThreads := by
    decide +kernel
  obtain ⟨s, hs, hmem, owner, howner, hfreed⟩ := hrun
  intro h
  have hcons := h s ((Reachable.start twoLockers_initial).run_of_some hs)
  exact hfreed (hcons.ownersBelong 0 hmem owner howner)

end LockSystem

end TinyCLR
