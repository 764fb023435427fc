import Mathlib

/-!
# Transition systems

Partial deterministic steps labelled by the actions of an environment. A state is reachable
when it ends a run that starts in an initial state and in which each action was admitted in
the state where it was taken. The rules below turn facts about one step into facts about runs.
-/

namespace TransitionSystem

variable {State Action : Type*}

/-- The state after a whole sequence of actions, `none` when one of them is not enabled. -/
def run (step : State → Action → Option State) (s : State) : List Action → Option State
  | [] => some s
  | a :: as => (step s a).bind fun s' => run step s' as

/-- The states of the runs whose every step is admitted. -/
inductive Reachable (step : State → Action → Option State) (init : State → Prop)
    (admitted : State → Action → Prop) : State → Prop where
  | start {s : State} : init s → Reachable step init admitted s
  | next {s s' : State} {a : Action} : Reachable step init admitted s → admitted s a →
      step s a = some s' → Reachable step init admitted s'

variable {step : State → Action → Option State} {init : State → Prop}
  {admitted : State → Action → Prop}

/-- What holds initially and survives every admitted step holds of every reachable state. -/
theorem Reachable.invariant (Inv : State → Prop) (hinit : ∀ s, init s → Inv s)
    (hstep : ∀ s a s', Inv s → admitted s a → step s a = some s' → Inv s') {s : State}
    (h : Reachable step init admitted s) : Inv s := by
  induction h with
  | start h₀ => exact hinit _ h₀
  | next _ hadm hs ih => exact hstep _ _ _ ih hadm hs

@[simp] theorem run_nil (s : State) : run step s [] = some s := rfl

theorem run_cons (s : State) (a : Action) (as : List Action) :
    run step s (a :: as) = (step s a).bind fun s' => run step s' as := rfl

/-- Every action of the sequence is enabled and admitted when its turn comes. -/
def AdmittedRun (step : State → Action → Option State) (admitted : State → Action → Prop)
    (s : State) : List Action → Prop
  | [] => True
  | a :: as => admitted s a ∧ ∃ s' ∈ step s a, AdmittedRun step admitted s' as

instance AdmittedRun.decidable [∀ s a, Decidable (admitted s a)] (s : State) :
    (as : List Action) → Decidable (AdmittedRun step admitted s as)
  | [] => .isTrue trivial
  | a :: as =>
      have : ∀ s', Decidable (AdmittedRun step admitted s' as) := fun s' =>
        AdmittedRun.decidable s' as
      inferInstanceAs (Decidable (admitted s a ∧ ∃ s' ∈ step s a, AdmittedRun step admitted s' as))

theorem AdmittedRun.mono {admitted' : State → Action → Prop}
    (h : ∀ s a, admitted s a → admitted' s a) {s : State} {as : List Action}
    (hadm : AdmittedRun step admitted s as) : AdmittedRun step admitted' s as := by
  induction as generalizing s with
  | nil => trivial
  | cons a as ih =>
      obtain ⟨hs, t, hst, hrest⟩ := hadm
      exact ⟨h _ _ hs, t, hst, ih hrest⟩

theorem Reachable.run {s s' : State} {as : List Action} (h : Reachable step init admitted s)
    (hadm : AdmittedRun step admitted s as) (hrun : TransitionSystem.run step s as = some s') :
    Reachable step init admitted s' := by
  induction as generalizing s with
  | nil =>
      simp only [run_nil, Option.some.injEq] at hrun
      exact hrun ▸ h
  | cons a as ih =>
      obtain ⟨hs, t, hst, hrest⟩ := hadm
      rw [run_cons, Option.mem_def.mp hst] at hrun
      exact ih (h.next hs hst) hrest hrun

/-- Where every action is admitted, a run only has to be enabled. -/
theorem Reachable.run_of_some {s s' : State} {as : List Action}
    (h : Reachable step init (fun _ _ => True) s)
    (hrun : TransitionSystem.run step s as = some s') :
    Reachable step init (fun _ _ => True) s' := by
  induction as generalizing s with
  | nil =>
      simp only [run_nil, Option.some.injEq] at hrun
      exact hrun ▸ h
  | cons a as ih =>
      obtain ⟨t, hst, hrest⟩ := Option.bind_eq_some_iff.mp hrun
      exact ih (h.next trivial hst) hrest

/-- A property of every step that a sequence of actions takes. -/
def EveryStep (step : State → Action → Option State) (P : State → Action → State → Prop)
    (s : State) : List Action → Prop
  | [] => True
  | a :: as => ∀ s', step s a = some s' → P s a s' ∧ EveryStep step P s' as

/-- Two properties that agree on the steps from states with an invariant agree on runs. -/
theorem EveryStep.congr {P Q : State → Action → State → Prop} (Inv : State → Prop)
    (hstep : ∀ s a s', Inv s → step s a = some s' → Inv s' ∧ (P s a s' ↔ Q s a s')) {s : State}
    (hs : Inv s) (as : List Action) : EveryStep step P s as ↔ EveryStep step Q s as := by
  induction as generalizing s with
  | nil => exact Iff.rfl
  | cons a as ih =>
      constructor
      · intro h s' hs'
        obtain ⟨hinv, hiff⟩ := hstep s a s' hs hs'
        exact ⟨hiff.mp (h s' hs').1, (ih hinv).mp (h s' hs').2⟩
      · intro h s' hs'
        obtain ⟨hinv, hiff⟩ := hstep s a s' hs hs'
        exact ⟨hiff.mpr (h s' hs').1, (ih hinv).mpr (h s' hs').2⟩

end TransitionSystem
