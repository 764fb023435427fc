import TinyCLR.Execution.WaitForObject

/-!
# The walk of `SignalObject`

A thread that is suspended goes back to the end of the list that is being walked, with its wait, so
the walk comes to it again. Where its wait is complete then as well, it is woken again and goes back
again: with two such threads the walk does not end.
-/

namespace TinyCLR.SignalSystem

open Engine

/-- The walk of `SignalObject`, with the threads it wakes. -/
def signalTrace (obj : ObjectId) (signal : Nat) :
    Nat → Option ThreadId → SignalSystem → Option (List ThreadId × SignalSystem)
  | _, none, s => some ([], s)
  | 0, some _, _ => none
  | fuel + 1, some t, s =>
      let next := nextWaiting t s.engine.threadsWaiting
      let woken := if waitSatisfied s.engine s.signaled t then [t] else []
      let s' := s.tryWaitForSignalThread t signal
      if s'.signaled obj then
        (signalTrace obj signal fuel next s').map fun r => (woken ++ r.1, r.2)
      else some (woken, s')

theorem signalWalk_eq_trace (obj : ObjectId) (signal fuel : Nat) (t : Option ThreadId)
    (s : SignalSystem) :
    signalWalk obj signal fuel t s = (signalTrace obj signal fuel t s).map Prod.snd := by
  induction fuel generalizing t s with
  | zero => cases t <;> rfl
  | succ fuel ih =>
      cases t with
      | none => rfl
      | some t =>
          simp only [signalWalk, signalTrace]
          split
          · rw [ih, Option.map_map]
            rfl
          · rfl

/-! ## One pass -/

/-- The flags after the wait of a thread is completed, where they complete it. -/
def completed (s : SignalSystem) (flags : ObjectId → Bool) (t : ThreadId) :
    Option (ObjectId → Bool) :=
  (s.engine.thread t).waitForObject.bind fun wait =>
    (tryWaitForSignal s.autoReset flags wait.objects wait.waitAll).map Prod.fst

/-- The threads whose waits are complete when it is their turn, in one pass as long as the object
is signaled, and the flags that are left. -/
def served (s : SignalSystem) (obj : ObjectId) :
    List ThreadId → (ObjectId → Bool) → List ThreadId × (ObjectId → Bool)
  | [], flags => ([], flags)
  | t :: threads, flags =>
      match s.completed flags t with
      | none => s.served obj threads flags
      | some flags' =>
          if flags' obj then (t :: (s.served obj threads flags').1, (s.served obj threads flags').2)
          else ([t], flags')

/-- The pass over all threads that wait when an object is signaled. -/
def servedBy (s : SignalSystem) (obj : ObjectId) : List ThreadId × (ObjectId → Bool) :=
  s.served obj s.engine.threadsWaiting (Function.update s.signaled obj true)

/-- The walk ends and has woken each thread of the pass once, and no other. -/
def SignalsOnce (s : SignalSystem) (obj : ObjectId) : Prop :=
  ∃ fuel woken s', signalTrace obj s.signalCount fuel s.engine.threadsWaiting.head?
      (s.setSignaled obj) = some (woken, s') ∧
    woken.Nodup ∧ ∀ t, t ∈ woken ↔ t ∈ (s.servedBy obj).1

/-- No thread that is suspended is left with a wait that is still complete: the signal is used up,
or what was completed is not complete any more, or there is no other node behind it. -/
def NoneLeft (s : SignalSystem) (obj : ObjectId) : Prop :=
  (s.servedBy obj).2 obj = false ∨
    (∀ t ∈ (s.servedBy obj).1, (s.engine.thread t).suspended = true →
      waitSatisfied s.engine (s.servedBy obj).2 t = false) ∨
    ∀ t ∈ (s.servedBy obj).1, (s.engine.thread t).suspended = true →
      s.engine.threadsWaiting.getLast? = some t

theorem completed_isSome (s : SignalSystem) (flags : ObjectId → Bool) (t : ThreadId) :
    (s.completed flags t).isSome = waitSatisfied s.engine flags t := by
  rw [completed, waitSatisfied]
  cases (s.engine.thread t).waitForObject with
  | none => rfl
  | some wait =>
      rw [Option.bind_some, Option.isSome_map, tryWaitForSignal_isSome]
      rfl

theorem completed_of_not {s : SignalSystem} {flags : ObjectId → Bool} {t : ThreadId}
    (h : waitSatisfied s.engine flags t = false) : s.completed flags t = none := by
  rw [← Option.not_isSome_iff_eq_none, completed_isSome, h]
  exact Bool.false_ne_true

theorem mem_served {s : SignalSystem} {obj : ObjectId} {threads : List ThreadId}
    {flags : ObjectId → Bool} {t : ThreadId} (h : t ∈ (s.served obj threads flags).1) :
    t ∈ threads := by
  induction threads generalizing flags with
  | nil => cases h
  | cons u threads ih =>
      rw [served] at h
      split at h
      · exact List.mem_cons_of_mem u (ih h)
      · split at h
        · rcases List.mem_cons.mp h with rfl | h
          · exact List.mem_cons_self
          · exact List.mem_cons_of_mem u (ih h)
        · rw [List.mem_singleton.mp h]
          exact List.mem_cons_self

theorem nodup_served {s : SignalSystem} {obj : ObjectId} {threads : List ThreadId}
    (flags : ObjectId → Bool) (hnodup : threads.Nodup) : (s.served obj threads flags).1.Nodup := by
  induction threads generalizing flags with
  | nil => exact List.nodup_nil
  | cons u threads ih =>
      obtain ⟨hu, hthreads⟩ := List.nodup_cons.mp hnodup
      rw [served]
      split
      · exact ih _ hthreads
      · split
        · exact List.nodup_cons.mpr ⟨fun h => hu (mem_served h), ih _ hthreads⟩
        · exact List.nodup_singleton u

/-- A pass over two lists, one after the other. -/
theorem served_append (s : SignalSystem) (obj : ObjectId) (front rest : List ThreadId)
    (flags : ObjectId → Bool) (h : (s.served obj front flags).2 obj = true) :
    s.served obj (front ++ rest) flags =
      ((s.served obj front flags).1 ++ (s.served obj rest (s.served obj front flags).2).1,
        (s.served obj rest (s.served obj front flags).2).2) := by
  induction front generalizing flags with
  | nil => rfl
  | cons u front ih =>
      rw [List.cons_append, served, served]
      rw [served] at h
      split
      · next hnone =>
          simp only [hnone] at h
          rw [ih flags h]
      · next flags' hsome =>
          simp only [hsome] at h
          split
          · next hobj =>
              rw [if_pos hobj] at h
              rw [ih flags' h]
              rfl
          · next hobj =>
              rw [if_neg hobj] at h
              exact absurd h hobj

/-- Once the signal is used up, the rest of the list plays no part. -/
theorem served_append_of_used {s : SignalSystem} {obj : ObjectId} {front : List ThreadId}
    (rest : List ThreadId) {flags : ObjectId → Bool} (hobj : flags obj = true)
    (h : (s.served obj front flags).2 obj = false) :
    s.served obj (front ++ rest) flags = s.served obj front flags := by
  induction front generalizing flags with
  | nil =>
      have hused : flags obj = false := h
      rw [hobj] at hused
      cases hused
  | cons u front ih =>
      rw [List.cons_append, served, served]
      rw [served] at h
      split
      · next hnone =>
          simp only [hnone] at h
          exact ih hobj h
      · next flags' hsome =>
          simp only [hsome] at h
          split
          · next hobj' =>
              rw [if_pos hobj'] at h
              rw [ih hobj' h]
          · rfl

/-! ## One turn of the walk -/

variable {s s₀ : SignalSystem} {obj : ObjectId} {signal : Nat} {before after : List ThreadId}
  {t : ThreadId}

/-- A turn at a thread whose wait is not complete only passes it. -/
theorem signalTrace_of_not (hlist : s.engine.threadsWaiting = before ++ t :: after)
    (hnodup : s.engine.threadsWaiting.Nodup) (hobj : s.signaled obj = true)
    (h : waitSatisfied s.engine s.signaled t = false) (fuel : Nat) :
    signalTrace obj signal (fuel + 1) (some t) s = signalTrace obj signal fuel after.head? s := by
  have ht : t ∉ before := by
    intro hmem
    rw [hlist] at hnodup
    exact (List.nodup_append.mp hnodup).2.2 t hmem t List.mem_cons_self rfl
  simp only [signalTrace, h, tryWaitForSignalThread_of_not h, hobj, if_true, hlist,
    nextWaiting_append t before after ht, List.nil_append, Bool.false_eq_true, if_false]
  exact Option.map_id'

/-- The list after a thread was woken: a thread that is suspended goes to its end. -/
def requeued (e : Engine) (t : ThreadId) : List ThreadId :=
  if (e.thread t).suspended then [t] else []

/-- What a turn does at a thread whose wait is complete. -/
structure Woken (s : SignalSystem) (t : ThreadId) (before after : List ThreadId)
    (flags : ObjectId → Bool) (s' : SignalSystem) : Prop where
  signaled : s'.signaled = flags
  autoReset : s'.autoReset = s.autoReset
  list : s'.engine.threadsWaiting = before ++ after ++ requeued s.engine t
  others : ∀ u, u ≠ t → s'.engine.thread u = s.engine.thread u
  waitForObject : (s.engine.thread t).suspended = true →
    (s'.engine.thread t).waitForObject = (s.engine.thread t).waitForObject
  suspended : (s.engine.thread t).suspended = true → (s'.engine.thread t).suspended = true

theorem woken_tryWaitForSignalThread (signal : Nat) (hlist : s.engine.threadsWaiting = before ++ t :: after)
    (hnodup : s.engine.threadsWaiting.Nodup)
    (h : waitSatisfied s.engine s.signaled t = true) :
    ∃ flags, s.completed s.signaled t = some flags ∧
      Woken s t before after flags (s.tryWaitForSignalThread t signal) := by
  obtain ⟨wait, signaled, result, hwait, htry, heq⟩ := tryWaitForSignalThread_of_satisfied signal h
  have hcompleted : s.completed s.signaled t = some signaled := by
    rw [completed, hwait, Option.bind_some, htry]
    rfl
  have ht : t ∉ before := by
    intro hmem
    rw [hlist] at hnodup
    exact (List.nodup_append.mp hnodup).2.2 t hmem t List.mem_cons_self rfl
  have herase : (before ++ t :: after).erase t = before ++ after := by
    rw [List.erase_append_right _ ht, List.erase_cons_head]
  refine ⟨signaled, hcompleted, ?_⟩
  rw [heq]
  have hothers : ∀ u, u ≠ t →
      ((setResult s.engine t result).restart t true).thread u = s.engine.thread u := by
    intro u hu
    rw [restart_thread_of_ne _ _ hu]
    exact modifyThread_of_ne s.engine _ hu
  cases hsus : (s.engine.thread t).suspended with
  | true =>
      have hrestart := restart_suspended (setResult s.engine t result) (t := t) true
        (by rw [setResult, modifyThread_self]; exact hsus)
      refine ⟨rfl, rfl, ?_, hothers, ?_, ?_⟩
      · rw [requeued, hsus, if_pos rfl, hrestart, if_pos rfl]
        show s.engine.threadsWaiting.erase t ++ [t] = _
        rw [hlist, herase]
      · intro _
        rw [hrestart, if_pos rfl, modifyThread_self, linkWaitingAtBack_thread, setStatus,
          modifyThread_self, setResult, modifyThread_self]
        rfl
      · intro _
        rw [hrestart, if_pos rfl, modifyThread_self, linkWaitingAtBack_thread, setStatus,
          modifyThread_self, setResult, modifyThread_self]
        exact hsus
  | false =>
      have hrestart := restart_runnable (setResult s.engine t result) (t := t) true
        (by rw [setResult, modifyThread_self]; exact hsus)
      refine ⟨rfl, rfl, ?_, hothers, ?_, ?_⟩
      · rw [requeued, hsus, if_neg Bool.false_ne_true, hrestart, if_pos rfl]
        show s.engine.threadsWaiting.erase t = _
        rw [hlist, herase, List.append_nil]
      · intro hsus'
        rw [hsus] at hsus'
        cases hsus'
      · intro hsus'
        rw [hsus] at hsus'
        cases hsus'

theorem signalTrace_of_satisfied (obj : ObjectId) (signal : Nat) (hlist : s.engine.threadsWaiting = before ++ t :: after)
    (hnodup : s.engine.threadsWaiting.Nodup)
    (h : waitSatisfied s.engine s.signaled t = true) (fuel : Nat) :
    signalTrace obj signal (fuel + 1) (some t) s =
      if (s.tryWaitForSignalThread t signal).signaled obj then
        (signalTrace obj signal fuel after.head? (s.tryWaitForSignalThread t signal)).map
          fun r => (t :: r.1, r.2)
      else some ([t], s.tryWaitForSignalThread t signal) := by
  have ht : t ∉ before := by
    intro hmem
    rw [hlist] at hnodup
    exact (List.nodup_append.mp hnodup).2.2 t hmem t List.mem_cons_self rfl
  simp only [signalTrace, h, if_true, hlist, nextWaiting_append t before after ht]
  rfl

theorem signalTrace_more {fuel : Nat} {start : Option ThreadId} {r : List ThreadId × SignalSystem}
    (h : signalTrace obj signal fuel start s = some r) (n : Nat) :
    signalTrace obj signal (fuel + n) start s = some r := by
  induction fuel generalizing start s r with
  | zero =>
      cases start with
      | none =>
          cases h
          rw [signalTrace]
      | some t => cases h
  | succ fuel ih =>
      cases start with
      | none =>
          cases h
          rw [signalTrace]
      | some t =>
          rw [Nat.add_right_comm]
          simp only [signalTrace] at h ⊢
          split at h
          · next hobj =>
              obtain ⟨r', hr', heq⟩ := Option.map_eq_some_iff.mp h
              rw [if_pos hobj, ih hr', Option.map_some, heq]
          · next hobj => rw [if_neg hobj, h]

/-! ## The walk over the threads that waited -/

theorem nodup_requeued (e : Engine) (h : (before ++ t :: after).Nodup) :
    (before ++ after ++ requeued e t).Nodup := by
  rw [requeued]
  split
  · have hperm : (before ++ after ++ [t]).Perm (before ++ t :: after) := by
      rw [List.append_assoc]
      exact (List.perm_append_singleton t after).append_left before
    exact hperm.nodup_iff.mpr h
  · rw [List.append_nil]
    exact h.sublist ((List.sublist_cons_self t after).append_left before)

/-- Where the walk stands behind some threads, of which it has woken some. -/
structure Passed (s₀ s : SignalSystem) (woken after : List ThreadId) (flags : ObjectId → Bool)
    (s' : SignalSystem) : Prop where
  signaled : s'.signaled = flags
  autoReset : s'.autoReset = s.autoReset
  list : ∃ before, s'.engine.threadsWaiting =
    before ++ after ++ woken.filter fun t => (s₀.engine.thread t).suspended
  nodup : s'.engine.threadsWaiting.Nodup
  others : ∀ t, t ∉ woken → s'.engine.thread t = s.engine.thread t
  waitForObject : ∀ t ∈ woken, (s₀.engine.thread t).suspended = true →
    (s'.engine.thread t).waitForObject = (s₀.engine.thread t).waitForObject

theorem completed_congr {flags : ObjectId → Bool}
    (hwait : (s.engine.thread t).waitForObject = (s₀.engine.thread t).waitForObject)
    (hauto : s.autoReset = s₀.autoReset) : s.completed flags t = s₀.completed flags t := by
  rw [completed, completed, hwait, hauto]

theorem waitSatisfied_congr {flags : ObjectId → Bool}
    (hwait : (s.engine.thread t).waitForObject = (s₀.engine.thread t).waitForObject) :
    waitSatisfied s.engine flags t = waitSatisfied s₀.engine flags t := by
  rw [waitSatisfied, waitSatisfied, hwait]

/-- The walk over the threads in front of others does what the pass says. -/
theorem signalTrace_front (front : List ThreadId) (hafter : after ≠ [])
    (hlist : s.engine.threadsWaiting = before ++ front ++ after)
    (hnodup : s.engine.threadsWaiting.Nodup) (hobj : s.signaled obj = true)
    (hsame : ∀ t ∈ front, s.engine.thread t = s₀.engine.thread t)
    (hauto : s.autoReset = s₀.autoReset) :
    ((s₀.served obj front s.signaled).2 obj = false → ∃ s', ∀ fuel,
      signalTrace obj signal (fuel + front.length) (front ++ after).head? s =
        some ((s₀.served obj front s.signaled).1, s')) ∧
    ((s₀.served obj front s.signaled).2 obj = true → ∃ s',
      Passed s₀ s (s₀.served obj front s.signaled).1 after (s₀.served obj front s.signaled).2 s' ∧
      ∀ fuel, signalTrace obj signal (fuel + front.length) (front ++ after).head? s =
        (signalTrace obj signal fuel after.head? s').map
          fun r => ((s₀.served obj front s.signaled).1 ++ r.1, r.2)) := by
  induction front generalizing s before after with
  | nil =>
      constructor
      · intro hused
        have hfalse : s.signaled obj = false := hused
        rw [hobj] at hfalse
        cases hfalse
      · intro _
        refine ⟨s, ⟨rfl, rfl, ⟨before, ?_⟩, hnodup, fun _ _ => rfl, ?_⟩, ?_⟩
        · rw [hlist, List.append_nil]
          exact (List.append_nil _).symm
        · intro t ht
          cases ht
        · intro fuel
          exact Option.map_id'.symm
  | cons u front ih =>
      have hlist' : s.engine.threadsWaiting = before ++ u :: (front ++ after) := by
        rw [hlist, List.append_assoc, List.cons_append]
      have hwait := congrArg Thread.waitForObject (hsame u List.mem_cons_self)
      have hcompleted : s.completed s.signaled u = s₀.completed s.signaled u :=
        completed_congr hwait hauto
      rw [served]
      cases hsat : waitSatisfied s.engine s.signaled u with
      | false =>
          have hturn : ∀ fuel, signalTrace obj signal (fuel + 1) (some u) s =
              signalTrace obj signal fuel (front ++ after).head? s :=
            signalTrace_of_not hlist' hnodup hobj hsat
          rw [← hcompleted, completed_of_not hsat]
          obtain ⟨hused, hleft⟩ := @ih s (before ++ [u]) after hafter
            (by rw [hlist', List.append_assoc, List.append_assoc, List.singleton_append]) hnodup hobj
            (fun t ht => hsame t (List.mem_cons_of_mem u ht)) hauto
          constructor
          · intro h
            obtain ⟨s', hs'⟩ := hused h
            exact ⟨s', fun fuel => (hturn (fuel + front.length)).trans (hs' fuel)⟩
          · intro h
            obtain ⟨s', hpassed, hs'⟩ := hleft h
            exact ⟨s', hpassed, fun fuel => (hturn (fuel + front.length)).trans (hs' fuel)⟩
      | true =>
          obtain ⟨flags, hflags, hwoken⟩ :=
            woken_tryWaitForSignalThread signal hlist' hnodup hsat
          have hturn := signalTrace_of_satisfied obj signal hlist' hnodup hsat
          rw [hwoken.signaled] at hturn
          rw [← hcompleted, hflags]
          cases hkeep : flags obj with
          | false =>
              simp only [hkeep, Bool.false_eq_true, if_false]
              constructor
              · intro _
                refine ⟨s.tryWaitForSignalThread u signal, fun fuel => ?_⟩
                have hturn' := hturn (fuel + front.length)
                rw [hkeep] at hturn'
                exact hturn'
              · intro h
                cases h
          | true =>
              simp only [hkeep, if_true]
              have hu : u ∉ front := by
                rw [hlist'] at hnodup
                intro hmem
                have hnodup' := (List.nodup_append.mp hnodup).2.1
                exact (List.nodup_cons.mp hnodup').1 (List.mem_append_left after hmem)
              have hrequeued : s.engine.thread u = s₀.engine.thread u := hsame u List.mem_cons_self
              obtain ⟨hused, hleft⟩ := @ih (s.tryWaitForSignalThread u signal) before
                (after ++ requeued s.engine u)
                (List.append_ne_nil_of_left_ne_nil hafter _)
                (by rw [hwoken.list, ← List.append_assoc, ← List.append_assoc])
                (by
                  rw [hwoken.list]
                  exact nodup_requeued s.engine (hlist' ▸ hnodup))
                (by rw [hwoken.signaled, hkeep])
                (fun t ht => (hwoken.others t (fun heq => hu (heq ▸ ht))).trans
                  (hsame t (List.mem_cons_of_mem u ht)))
                (hwoken.autoReset.trans hauto)
              have hhead : (front ++ (after ++ requeued s.engine u)).head? =
                  (front ++ after).head? := by
                rw [← List.append_assoc, List.head?_append_of_ne_nil _
                  (List.append_ne_nil_of_right_ne_nil _ hafter)]
              rw [hwoken.signaled, hhead] at hused hleft
              have hturn' : ∀ fuel, signalTrace obj signal (fuel + (u :: front).length)
                  (u :: front ++ after).head? s =
                  (signalTrace obj signal (fuel + front.length) (front ++ after).head?
                    (s.tryWaitForSignalThread u signal)).map fun r => (u :: r.1, r.2) := by
                intro fuel
                have hfuel := hturn (fuel + front.length)
                rw [hkeep] at hfuel
                exact hfuel
              constructor
              · intro h
                obtain ⟨s', hs'⟩ := hused h
                refine ⟨s', fun fuel => ?_⟩
                rw [hturn', hs']
                rfl
              · intro h
                obtain ⟨s', hpassed, hs'⟩ := hleft h
                have hnot : u ∉ (s₀.served obj front flags).1 := fun hmem => hu (mem_served hmem)
                refine ⟨s', ⟨hpassed.signaled, hpassed.autoReset.trans hwoken.autoReset, ?_,
                  hpassed.nodup, ?_, ?_⟩, ?_⟩
                · obtain ⟨before', hbefore'⟩ := hpassed.list
                  refine ⟨before', ?_⟩
                  rw [hbefore', List.filter_cons, requeued, hrequeued]
                  split <;> simp
                · intro t ht
                  rw [List.mem_cons, not_or] at ht
                  rw [hpassed.others t ht.2, hwoken.others t ht.1]
                · intro t ht hsus
                  rcases List.mem_cons.mp ht with rfl | ht
                  · rw [hpassed.others t hnot,
                      hwoken.waitForObject (by rw [hrequeued]; exact hsus), hrequeued]
                  · exact hpassed.waitForObject t ht hsus
                · intro fuel
                  rw [hturn', hs', Option.map_map]
                  have hhead' : (after ++ requeued s.engine u).head? = after.head? :=
                    List.head?_append_of_ne_nil _ hafter
                  rw [hhead']
                  rfl

/-- Where no wait is complete, the rest of the walk wakes nobody. -/
theorem signalTrace_rest_of_not (rest : List ThreadId)
    (hlist : s.engine.threadsWaiting = before ++ rest) (hnodup : s.engine.threadsWaiting.Nodup)
    (hobj : s.signaled obj = true)
    (h : ∀ t ∈ rest, waitSatisfied s.engine s.signaled t = false) (fuel : Nat) :
    signalTrace obj signal (fuel + rest.length) rest.head? s = some ([], s) := by
  induction rest generalizing before with
  | nil =>
      show signalTrace obj signal fuel none s = some ([], s)
      rw [signalTrace]
  | cons u rest ih =>
      rw [List.length_cons, ← Nat.add_assoc, List.head?_cons,
        signalTrace_of_not hlist hnodup hobj (h u List.mem_cons_self)]
      exact @ih (before ++ [u])
        (by rw [hlist, List.append_assoc, List.singleton_append])
        fun t ht => h t (List.mem_cons_of_mem u ht)

/-- Where some wait is complete, the rest of the walk wakes such a thread, if it ends. -/
theorem signalTrace_rest_of_satisfied (rest : List ThreadId)
    (hlist : s.engine.threadsWaiting = before ++ rest) (hnodup : s.engine.threadsWaiting.Nodup)
    (hobj : s.signaled obj = true)
    (h : ∃ t ∈ rest, waitSatisfied s.engine s.signaled t = true) {fuel : Nat}
    {r : List ThreadId × SignalSystem}
    (hwalk : signalTrace obj signal fuel rest.head? s = some r) : ∃ t ∈ rest, t ∈ r.1 := by
  induction rest generalizing before fuel with
  | nil =>
      obtain ⟨t, ht, -⟩ := h
      cases ht
  | cons u rest ih =>
      cases fuel with
      | zero => cases hwalk
      | succ fuel =>
          rw [List.head?_cons] at hwalk
          cases hsat : waitSatisfied s.engine s.signaled u with
          | false =>
              rw [signalTrace_of_not hlist hnodup hobj hsat] at hwalk
              obtain ⟨t, ht, htsat⟩ := h
              have hrest : t ∈ rest := by
                rcases List.mem_cons.mp ht with rfl | ht
                · rw [hsat] at htsat
                  cases htsat
                · exact ht
              obtain ⟨v, hv, hvr⟩ := @ih (before ++ [u])
                (by rw [hlist, List.append_assoc, List.singleton_append]) ⟨t, hrest, htsat⟩ fuel hwalk
              exact ⟨v, List.mem_cons_of_mem u hv, hvr⟩
          | true =>
              refine ⟨u, List.mem_cons_self, ?_⟩
              rw [signalTrace_of_satisfied obj signal hlist hnodup hsat] at hwalk
              split at hwalk
              · obtain ⟨r', -, rfl⟩ := Option.map_eq_some_iff.mp hwalk
                exact List.mem_cons_self
              · cases hwalk
                exact List.mem_cons_self

/-- A walk that has woken the threads of the pass, and goes on with those it has sent to the end of
the list, is the pass exactly if none of their waits is complete. -/
theorem once_iff_of_rest {s' : SignalSystem} {start : Option ThreadId} {n : Nat}
    {woken rest : List ThreadId} (hwoken : woken.Nodup) (hrest : ∀ t ∈ rest, t ∈ woken)
    (hlist : s'.engine.threadsWaiting = before ++ rest) (hnodup : s'.engine.threadsWaiting.Nodup)
    (hobj : s'.signaled obj = true)
    (hwalk : ∀ fuel, signalTrace obj signal (fuel + n) start s =
      (signalTrace obj signal fuel rest.head? s').map fun r => (woken ++ r.1, r.2)) :
    (∃ fuel woken' s'', signalTrace obj signal fuel start s = some (woken', s'') ∧
      woken'.Nodup ∧ ∀ t, t ∈ woken' ↔ t ∈ woken) ↔
    ∀ t ∈ rest, waitSatisfied s'.engine s'.signaled t = false := by
  constructor
  · rintro ⟨fuel, woken', s'', htrace, hnodup', -⟩ t ht
    by_contra hsat
    have hmore := hwalk fuel
    rw [signalTrace_more htrace n] at hmore
    obtain ⟨r, hr, heq⟩ := Option.map_eq_some_iff.mp hmore.symm
    obtain ⟨v, hv, hvr⟩ := signalTrace_rest_of_satisfied rest hlist hnodup hobj
      ⟨t, ht, Bool.not_eq_false _ ▸ hsat⟩ hr
    cases heq
    exact (List.nodup_append.mp hnodup').2.2 v (hrest v hv) v hvr rfl
  · intro h
    refine ⟨0 + rest.length + n, woken ++ [], s', ?_, ?_, ?_⟩
    · rw [hwalk, signalTrace_rest_of_not rest hlist hnodup hobj h]
      rfl
    · rwa [List.append_nil]
    · intro t
      rw [List.append_nil]

/-- The pass over the node at the end of the list. -/
theorem served_singleton (s : SignalSystem) (obj : ObjectId) (t : ThreadId)
    (flags : ObjectId → Bool) :
    s.served obj [t] flags =
      match s.completed flags t with
      | none => ([], flags)
      | some flags' => ([t], flags') := by
  rw [served]
  cases s.completed flags t with
  | none => rfl
  | some flags' =>
      simp only [served]
      split <;> rfl

/-- A thread that is suspended stays behind the last node only if it is that node. -/
theorem noneLeft_iff {front : List ThreadId} {last : ThreadId}
    (hfront : s.engine.threadsWaiting = front ++ [last]) (hlast : last ∉ front)
    (hobj : (s.servedBy obj).2 obj = true) :
    s.NoneLeft obj ↔
      (∀ t ∈ (s.servedBy obj).1, (s.engine.thread t).suspended = true → t ∉ front) ∨
        ∀ t ∈ (s.servedBy obj).1, (s.engine.thread t).suspended = true →
          waitSatisfied s.engine (s.servedBy obj).2 t = false := by
  have hgetLast : s.engine.threadsWaiting.getLast? = some last := by
    rw [hfront, List.getLast?_append, List.getLast?_singleton, Option.some_or]
  rw [NoneLeft, hobj, hgetLast]
  constructor
  · rintro (h | h | h)
    · cases h
    · exact .inr h
    · left
      intro t ht hsus hmem
      obtain rfl := Option.some.inj (h t ht hsus)
      exact hlast hmem
  · rintro (h | h)
    · right; right
      intro t ht hsus
      have hmem : t ∈ s.engine.threadsWaiting := mem_served ht
      rw [hfront, List.mem_append, List.mem_singleton] at hmem
      rcases hmem with hmem | rfl
      · exact absurd hmem (h t ht hsus)
      · rfl
    · exact .inr (.inl h)

/-- The walk stands at the last node, and the object is still signaled. -/
structure AtLast (s : SignalSystem) (obj : ObjectId) (front : List ThreadId) (last : ThreadId)
    (woken : List ThreadId) (flags : ObjectId → Bool) (s' : SignalSystem) : Prop where
  waiting : s.engine.threadsWaiting = front ++ [last]
  not_mem : last ∉ front
  subset : ∀ t ∈ woken, t ∈ front
  passed : Passed s (s.setSignaled obj) woken [last] flags s'
  keep : flags obj = true
  served : s.servedBy obj =
    (woken ++ (s.served obj [last] flags).1, (s.served obj [last] flags).2)
  nodup : (s.servedBy obj).1.Nodup
  walk : ∀ fuel, signalTrace obj s.signalCount (fuel + front.length) (front ++ [last]).head?
    (s.setSignaled obj) =
      (signalTrace obj s.signalCount fuel (some last) s').map fun r => (woken ++ r.1, r.2)

namespace AtLast

variable {front woken : List ThreadId} {last : ThreadId} {flags : ObjectId → Bool}
  {s' : SignalSystem}

theorem list (h : AtLast s obj front last woken flags s') : ∃ before,
    s'.engine.threadsWaiting =
      before ++ last :: woken.filter fun t => (s.engine.thread t).suspended := by
  obtain ⟨before, hbefore⟩ := h.passed.list
  refine ⟨before, ?_⟩
  rw [hbefore, List.append_assoc, List.singleton_append]

theorem thread_last (h : AtLast s obj front last woken flags s') :
    s'.engine.thread last = s.engine.thread last :=
  h.passed.others last fun hmem => h.not_mem (h.subset last hmem)

theorem signaled (h : AtLast s obj front last woken flags s') : s'.signaled obj = true := by
  rw [h.passed.signaled, h.keep]

theorem completed_last (h : AtLast s obj front last woken flags s') :
    s'.completed s'.signaled last = s.completed flags last := by
  have hauto : s'.autoReset = s.autoReset := h.passed.autoReset
  rw [completed_congr (congrArg Thread.waitForObject h.thread_last) hauto, h.passed.signaled]

/-- The last thread is only passed. -/
theorem once_iff_of_not (h : AtLast s obj front last woken flags s')
    (hsat : waitSatisfied s'.engine s'.signaled last = false) :
    s.SignalsOnce obj ↔ s.NoneLeft obj := by
  obtain ⟨before, hlist⟩ := h.list
  have hserved : s.servedBy obj = (woken, flags) := by
    rw [h.served, served_singleton, ← h.completed_last, completed_of_not hsat]
    simp only [List.append_nil]
  have hnodup := h.nodup
  rw [hserved] at hnodup
  rw [noneLeft_iff h.waiting h.not_mem (hserved ▸ h.keep), SignalsOnce, h.waiting, hserved]
  have honce := @once_iff_of_rest (s.setSignaled obj) obj s.signalCount (before ++ [last]) s'
    (front ++ [last]).head? (1 + front.length) woken
    (woken.filter fun t => (s.engine.thread t).suspended) hnodup
    (fun t ht => (List.mem_filter.mp ht).1)
    (by rw [hlist, List.append_assoc, List.singleton_append]) h.passed.nodup h.signaled (by
      intro fuel
      rw [← Nat.add_assoc, h.walk, signalTrace_of_not hlist h.passed.nodup h.signaled hsat])
  rw [honce]
  have hcongr : ∀ t ∈ woken, (s.engine.thread t).suspended = true →
      waitSatisfied s'.engine s'.signaled t = waitSatisfied s.engine flags t := by
    intro t ht hsus
    rw [waitSatisfied_congr (h.passed.waitForObject t ht hsus), h.passed.signaled]
  constructor
  · intro hnone
    right
    intro t ht hsus
    rw [← hcongr t ht hsus]
    exact hnone t (List.mem_filter.mpr ⟨ht, hsus⟩)
  · intro hnone t hmem
    obtain ⟨ht, hsus⟩ := List.mem_filter.mp hmem
    rcases hnone with hnone | hnone
    · exact absurd (h.subset t ht) (hnone t ht hsus)
    · rw [hcongr t ht hsus]
      exact hnone t ht hsus

/-- The last thread is woken as well. -/
theorem once_iff_of_satisfied (h : AtLast s obj front last woken flags s')
    (hsat : waitSatisfied s'.engine s'.signaled last = true) :
    s.SignalsOnce obj ↔ s.NoneLeft obj := by
  obtain ⟨before, hlist⟩ := h.list
  obtain ⟨flags', hflags, hturn⟩ :=
    woken_tryWaitForSignalThread s.signalCount hlist h.passed.nodup hsat
  have hserved : s.servedBy obj = (woken ++ [last], flags') := by
    rw [h.served, served_singleton, ← h.completed_last, hflags]
  have hnodup := h.nodup
  rw [hserved] at hnodup
  have hwalk : ∀ fuel, signalTrace obj s.signalCount (fuel + (1 + front.length))
      (front ++ [last]).head? (s.setSignaled obj) =
      if flags' obj then
        (signalTrace obj s.signalCount fuel
          (woken.filter fun t => (s.engine.thread t).suspended).head?
          (s'.tryWaitForSignalThread last s.signalCount)).map fun r => (woken ++ [last] ++ r.1, r.2)
      else some (woken ++ [last], s'.tryWaitForSignalThread last s.signalCount) := by
    intro fuel
    rw [← Nat.add_assoc, h.walk,
      signalTrace_of_satisfied obj s.signalCount hlist h.passed.nodup hsat, hturn.signaled]
    split
    · rw [Option.map_map]
      congr 1
      funext r
      simp
    · rfl
  cases hkeep : flags' obj with
  | false =>
      rw [hkeep] at hwalk
      rw [SignalsOnce, h.waiting, NoneLeft, hserved]
      exact iff_of_true ⟨_, _, _, hwalk 0, hnodup, fun _ => Iff.rfl⟩ (.inl hkeep)
  | true =>
      rw [hkeep] at hwalk
      simp only [if_true] at hwalk
      rw [noneLeft_iff h.waiting h.not_mem (hserved ▸ hkeep), SignalsOnce, h.waiting, hserved]
      by_cases hempty : (woken.filter fun t => (s.engine.thread t).suspended) = []
      · -- Nothing was sent to the end before the last node: there is no node behind it.
        rw [hempty] at hwalk
        refine iff_of_true ⟨0 + (1 + front.length), woken ++ [last] ++ [], _,
          (hwalk 0).trans rfl, ?_, ?_⟩ (.inl ?_)
        · rwa [List.append_nil]
        · intro t
          rw [List.append_nil]
        · intro t ht hsus
          rcases List.mem_append.mp ht with ht | ht
          · have hmem : t ∈ woken.filter fun t => (s.engine.thread t).suspended :=
              List.mem_filter.mpr ⟨ht, hsus⟩
            rw [hempty] at hmem
            cases hmem
          · rw [List.mem_singleton.mp ht]
            exact h.not_mem
      · have hrequeued : requeued s'.engine last = requeued s.engine last := by
          rw [requeued, requeued, h.thread_last]
        have hlist' : (s'.tryWaitForSignalThread last s.signalCount).engine.threadsWaiting =
            before ++ ((woken.filter fun t => (s.engine.thread t).suspended) ++
              requeued s.engine last) := by
          rw [hturn.list, hrequeued, List.append_assoc]
        have hnodup' := nodup_requeued s'.engine (hlist ▸ h.passed.nodup)
        rw [← hturn.list] at hnodup'
        have hmem : ∀ t, t ∈ (woken.filter fun t => (s.engine.thread t).suspended) ++
            requeued s.engine last ↔
            t ∈ woken ++ [last] ∧ (s.engine.thread t).suspended = true := by
          intro t
          rw [List.mem_append, List.mem_append, List.mem_filter, List.mem_singleton, requeued]
          by_cases hsus : (s.engine.thread last).suspended = true
          · rw [if_pos hsus, List.mem_singleton]
            constructor
            · rintro (⟨ht, hsus'⟩ | rfl)
              · exact ⟨.inl ht, hsus'⟩
              · exact ⟨.inr rfl, hsus⟩
            · rintro ⟨ht | rfl, hsus'⟩
              · exact .inl ⟨ht, hsus'⟩
              · exact .inr rfl
          · rw [if_neg hsus]
            constructor
            · rintro (⟨ht, hsus'⟩ | ht)
              · exact ⟨.inl ht, hsus'⟩
              · cases ht
            · rintro ⟨ht | rfl, hsus'⟩
              · exact .inl ⟨ht, hsus'⟩
              · exact absurd hsus' hsus
        have hcongr : ∀ t ∈ woken ++ [last], (s.engine.thread t).suspended = true →
            waitSatisfied (s'.tryWaitForSignalThread last s.signalCount).engine
              (s'.tryWaitForSignalThread last s.signalCount).signaled t =
            waitSatisfied s.engine flags' t := by
          intro t ht hsus
          rw [hturn.signaled]
          apply waitSatisfied_congr
          by_cases hlast : t = last
          · subst hlast
            rw [hturn.waitForObject (by rw [h.thread_last]; exact hsus), h.thread_last]
          · rw [hturn.others t hlast]
            rcases List.mem_append.mp ht with ht | ht
            · exact h.passed.waitForObject t ht hsus
            · exact absurd (List.mem_singleton.mp ht) hlast
        have honce := @once_iff_of_rest (s.setSignaled obj) obj s.signalCount before
          (s'.tryWaitForSignalThread last s.signalCount) (front ++ [last]).head?
          (1 + front.length) (woken ++ [last]) _ hnodup (fun t ht => ((hmem t).mp ht).1) hlist'
          hnodup' (by rw [hturn.signaled, hkeep]) (by
            intro fuel
            rw [hwalk, List.head?_append_of_ne_nil _ hempty])
        rw [honce]
        constructor
        · intro hnone
          right
          intro t ht hsus
          rw [← hcongr t ht hsus]
          exact hnone t ((hmem t).mpr ⟨ht, hsus⟩)
        · intro hnone t ht'
          obtain ⟨ht, hsus⟩ := (hmem t).mp ht'
          rcases hnone with hnone | hnone
          · obtain ⟨u, hu⟩ := List.exists_mem_of_ne_nil _ hempty
            obtain ⟨hwoken, hsus'⟩ := List.mem_filter.mp hu
            exact absurd (h.subset u hwoken) (hnone u (List.mem_append_left _ hwoken) hsus')
          · rw [hcongr t ht hsus]
            exact hnone t ht hsus

end AtLast

/-- The walk of `SignalObject` ends, and has woken every thread whose wait is complete when it is
its turn exactly once, if and only if it leaves no suspended thread behind. -/
theorem signalsOnce_iff (s : SignalSystem) (obj : ObjectId)
    (hnodup : s.engine.threadsWaiting.Nodup) : s.SignalsOnce obj ↔ s.NoneLeft obj := by
  have hservedNodup : (s.servedBy obj).1.Nodup := nodup_served _ hnodup
  rcases List.eq_nil_or_concat s.engine.threadsWaiting with hnil | ⟨front, last, hfront⟩
  · have hserved : (s.servedBy obj).1 = [] := by
      rw [servedBy, hnil]
      rfl
    refine iff_of_true ⟨0, [], s.setSignaled obj, ?_, List.nodup_nil, ?_⟩ (.inr (.inr ?_))
    · rw [hnil]
      rfl
    · intro t
      rw [hserved]
    · intro t ht
      rw [hserved] at ht
      cases ht
  · rw [List.concat_eq_append] at hfront
    have hobj : (s.setSignaled obj).signaled obj = true := Function.update_self ..
    have hfrontNodup : (front ++ [last]).Nodup := hfront ▸ hnodup
    have hlast : last ∉ front := fun hmem =>
      (List.nodup_append.mp hfrontNodup).2.2 last hmem last List.mem_cons_self rfl
    obtain ⟨hused, hleft⟩ := @signalTrace_front (s.setSignaled obj) s obj s.signalCount [] [last]
      front (List.cons_ne_nil last []) hfront hnodup hobj (fun _ _ => rfl) rfl
    have hservedBy : s.servedBy obj =
        s.served obj (front ++ [last]) (s.setSignaled obj).signaled := by
      rw [servedBy, hfront]
      rfl
    generalize hr : s.served obj front (s.setSignaled obj).signaled = r at hused hleft
    cases hkeep : r.2 obj with
    | false =>
        -- The signal is used up before the walk comes to the last node.
        rw [served_append_of_used [last] hobj (by rw [hr, hkeep]), hr] at hservedBy
        obtain ⟨s', hs'⟩ := hused hkeep
        rw [SignalsOnce, hfront]
        refine iff_of_true ⟨_, _, s', hs' 0, hservedBy ▸ hservedNodup, fun t => ?_⟩ (.inl ?_)
        · rw [hservedBy]
        · rw [hservedBy, hkeep]
    | true =>
        obtain ⟨s', hpassed, hs'⟩ := hleft hkeep
        rw [served_append s obj front [last] _ (by rw [hr, hkeep]), hr] at hservedBy
        have hat : AtLast s obj front last r.1 r.2 s' :=
          ⟨hfront, hlast, fun t ht => mem_served (hr ▸ ht), hpassed, hkeep, hservedBy,
            hservedNodup, hs'⟩
        cases hsat : waitSatisfied s'.engine s'.signaled last with
        | false => exact hat.once_iff_of_not hsat
        | true => exact hat.once_iff_of_satisfied hsat

/-! ## Events that stay signaled -/

/-- Events that are reset by hand stay signaled when a wait is completed. -/
theorem completed_of_manual {flags flags' : ObjectId → Bool}
    (hmanual : ∀ o, s.autoReset o = false) (h : s.completed flags t = some flags') :
    flags' = flags := by
  obtain ⟨wait, -, h⟩ := Option.bind_eq_some_iff.mp h
  obtain ⟨r, hr, rfl⟩ := Option.map_eq_some_iff.mp h
  obtain ⟨-, -, -, -, hflags⟩ := tryWaitForSignal_some hr
  funext o
  rw [hflags, hmanual, Bool.and_false, Bool.not_false, Bool.and_true]

/-- A thread that goes to the end of the list whenever the walk comes to it. -/
def Requeues (s : SignalSystem) (t : ThreadId) : Prop :=
  (s.engine.thread t).suspended = true ∧ waitSatisfied s.engine s.signaled t = true

/-- Two such threads ahead keep the walk going: one of them is always behind the other. -/
theorem signalTrace_endless (fuel : Nat) (rest : List ThreadId) {t u : ThreadId}
    (hlist : s.engine.threadsWaiting = before ++ rest) (hnodup : s.engine.threadsWaiting.Nodup)
    (hobj : s.signaled obj = true) (hmanual : ∀ o, s.autoReset o = false) (hne : t ≠ u)
    (ht : t ∈ rest) (hu : u ∈ rest) (htwait : s.Requeues t) (huwait : s.Requeues u) :
    signalTrace obj signal fuel rest.head? s = none := by
  induction fuel generalizing s before rest with
  | zero =>
      cases rest with
      | nil => cases ht
      | cons v rest => rfl
  | succ fuel ih =>
      cases rest with
      | nil => cases ht
      | cons v rest =>
          rw [List.head?_cons]
          cases hsat : waitSatisfied s.engine s.signaled v with
          | false =>
              have hbehind : ∀ w ∈ v :: rest, s.Requeues w → w ∈ rest := by
                intro w hw hwait
                rcases List.mem_cons.mp hw with rfl | hw
                · have htrue := hwait.2
                  rw [hsat] at htrue
                  cases htrue
                · exact hw
              rw [signalTrace_of_not hlist hnodup hobj hsat]
              exact @ih s (before ++ [v]) rest
                (by rw [hlist, List.append_assoc, List.singleton_append]) hnodup hobj hmanual
                (hbehind t ht htwait) (hbehind u hu huwait) htwait huwait
          | true =>
              obtain ⟨flags, hflags, hwoken⟩ := woken_tryWaitForSignalThread signal hlist hnodup hsat
              obtain rfl := completed_of_manual hmanual hflags
              have hkeeps : ∀ w, s.Requeues w →
                  (s.tryWaitForSignalThread v signal).Requeues w := by
                intro w hw
                by_cases hwv : w = v
                · subst hwv
                  refine ⟨hwoken.suspended hw.1, ?_⟩
                  rw [hwoken.signaled, waitSatisfied_congr (hwoken.waitForObject hw.1)]
                  exact hw.2
                · have hthread := hwoken.others w hwv
                  refine ⟨by rw [hthread]; exact hw.1, ?_⟩
                  rw [hwoken.signaled,
                    waitSatisfied_congr (congrArg Thread.waitForObject hthread)]
                  exact hw.2
              have hbehind : ∀ w ∈ v :: rest, s.Requeues w → w ∈ rest ++ requeued s.engine v := by
                intro w hw hwait
                rcases List.mem_cons.mp hw with rfl | hw
                · apply List.mem_append_right
                  rw [requeued, if_pos hwait.1]
                  exact List.mem_singleton_self w
                · exact List.mem_append_left _ hw
              have hrest : rest ≠ [] := by
                rintro rfl
                rw [List.mem_singleton] at ht hu
                exact hne (ht.trans hu.symm)
              have hnodup' := nodup_requeued s.engine (hlist ▸ hnodup)
              rw [← hwoken.list] at hnodup'
              have hnext := @ih (s.tryWaitForSignalThread v signal) before
                (rest ++ requeued s.engine v) (by rw [hwoken.list, List.append_assoc]) hnodup'
                (by rw [hwoken.signaled, hobj]) (by rw [hwoken.autoReset]; exact hmanual)
                (hbehind t ht htwait) (hbehind u hu huwait) (hkeeps t htwait) (hkeeps u huwait)
              rw [List.head?_append_of_ne_nil _ hrest] at hnext
              rw [signalTrace_of_satisfied obj signal hlist hnodup hsat, hwoken.signaled, hobj,
                if_pos rfl, hnext]
              rfl

/-- `SignalObject` does not end if two suspended threads wait for an event that is reset by hand. -/
theorem signalObject_endless {t u : ThreadId} (hnodup : s.engine.threadsWaiting.Nodup)
    (hmanual : ∀ o, s.autoReset o = false) (hne : t ≠ u)
    (ht : t ∈ s.engine.threadsWaiting) (hu : u ∈ s.engine.threadsWaiting)
    (htwait : (s.setSignaled obj).Requeues t) (huwait : (s.setSignaled obj).Requeues u)
    (fuel : Nat) : s.signalObject obj fuel = none := by
  rw [signalObject, signalWalk_eq_trace, @signalTrace_endless (s.setSignaled obj) obj
    s.signalCount [] fuel s.engine.threadsWaiting t u rfl hnodup (Function.update_self ..) hmanual
    hne ht hu htwait huwait]
  rfl

/-- Both threads wait for event 7, which is reset by hand, and were suspended since. -/
def twoSuspended : SignalSystem where
  engine :=
    { thread := fun _ =>
        { runnableThread with
          status := .waiting
          suspended := true
          waitForObject := some { timeExpire := 100, objects := [7], waitAll := false } }
      subThread := fun _ => { owningThread := 0, priority := 0, lockRequestsCount := 0 }
      threadsReady := [], threadsWaiting := [1, 2], threadsZombie := []
      globalExecutionCounter := 0, cctorThread := none }
  signaled := fun _ => false
  autoReset := fun _ => false
  sourceLevelDebugging := true
  waitCount := 2
  serial := fun t => t - 1
  signalCount := 0
  signalOf := fun _ => none
  outcomes := []

theorem not_signalsOnce_sample :
    ¬∀ (s : SignalSystem) (obj : ObjectId), s.engine.threadsWaiting.Nodup → s.SignalsOnce obj := by
  intro hall
  obtain ⟨fuel, woken, s', htrace, -, -⟩ := hall twoSuspended 7 (by decide)
  have hwalk : twoSuspended.signalObject 7 fuel = some s' := by
    rw [signalObject, signalWalk_eq_trace, htrace]
    rfl
  rw [signalObject_endless (t := 1) (u := 2) (by decide) (fun _ => rfl) (by decide) (by decide)
    (by decide) ⟨rfl, by decide⟩ ⟨rfl, by decide⟩] at hwalk
  cases hwalk

/-- One of two waiting threads is suspended, but event 7 is used up by it. -/
theorem signalsOnce_sample :
    ({ twoSuspended with autoReset := fun _ => true } : SignalSystem).SignalsOnce 7 :=
  (signalsOnce_iff { twoSuspended with autoReset := fun _ => true } 7 (by decide)).mpr
    (.inl (by decide))

end TinyCLR.SignalSystem
