import Mathlib
import TinyCLR.Library.TransitionSystem

/-!
# Static constructors

`SpawnStaticConstructor` runs the static constructors of all assemblies on one system thread. It
first looks for the next constructor of the assembly whose constructor has just ended, then scans
the assembly table for an assembly without `c_StaticConstructorsExecuted`; the termination
callback of the thread calls it again. This is the build without application domains.
-/

namespace TinyCLR.StaticConstructors

open TransitionSystem

/-- What the scan reads of an assembly: the flag `MD_StaticConstructor` of each method, and the
slots of the assemblies that its references resolve to. -/
structure Assembly where
  staticConstructor : List Bool
  references : List Nat

/-- `m_assemblies` of the type system; references are resolved when the table is linked. -/
structure Table where
  slots : List (Option Assembly)
  resolved : ∀ a, some a ∈ slots → ∀ r ∈ a.references, ∃ b, slots[r]? = some (some b)

namespace Table

variable (t : Table)

def assembly (slot : Nat) : Option Assembly := t.slots[slot]?.join

theorem assembly_eq_some {t : Table} {slot : Nat} {a : Assembly} :
    t.assembly slot = some a ↔ t.slots[slot]? = some (some a) :=
  Option.join_eq_some_iff

end Table

/-- `FindNextStaticConstructor` from a method on. -/
def findNextStaticConstructor (a : Assembly) (method : Nat) : Option Nat :=
  (List.range' method (a.staticConstructor.length - method)).find? fun i =>
    a.staticConstructor.getD i false

/-- A static constructor, by the slot of its assembly and its method index. -/
structure Constructor where
  slot : Nat
  method : Nat
  deriving DecidableEq, Repr

/-- The flags of the assemblies, and the constructor thread: its delegate and whether it runs. -/
structure State where
  executed : Nat → Bool
  dlg : Option Constructor
  running : Bool

/-- Whether the delegate and the stack frame for a constructor of a slot can be had. -/
abbrev Memory := Nat → Bool

variable (t : Table)

/-- `SpawnStaticConstructorHelper`: true when a constructor was started. -/
def helper (memory : Memory) (s : State) (slot : Nat) (a : Assembly) (method : Nat) :
    Bool × State :=
  let failed := (false, { s with executed := Function.update s.executed slot true })
  match findNextStaticConstructor a method with
  | none => failed
  | some next =>
      if memory slot then (true, { s with dlg := some ⟨slot, next⟩, running := true })
      else failed

/-- The loop over the references of an assembly, which computes `fDepedenciesRun`. -/
def dependenciesRun (executed : Nat → Bool) : List Nat → Bool
  | [] => true
  | r :: rest =>
      -- the branch for a reference that has not been executed assigns `true` before it breaks
      if executed r = false then true else dependenciesRun executed rest

/-- The scan of the table; without a constructor left the thread is destroyed. -/
def scan (memory : Memory) : State → List Nat → State
  | s, [] => { s with dlg := none, running := false }
  | s, slot :: rest =>
      match t.assembly slot with
      | none => scan memory s rest
      | some a =>
          if s.executed slot then scan memory s rest
          else if dependenciesRun s.executed a.references then
            match helper memory s slot a 0 with
            | (true, s) => s
            | (false, s) => scan memory s rest
          else scan memory s rest

/-- The part of `SpawnStaticConstructor` for a thread that has just run a constructor. -/
def continueAssembly (memory : Memory) (s : State) : Bool × State :=
  match s.dlg with
  | none => (false, s)
  | some c =>
      match t.assembly c.slot with
      | none => (false, s)
      | some a => helper memory s c.slot a (c.method + 1)

def spawnStaticConstructor (memory : Memory) (s : State) : State :=
  match continueAssembly t memory s with
  | (true, s) => s
  | (false, s) => scan t memory s (List.range t.slots.length)

/-- A call from outside, which needs a thread that can be reused, and the end of the constructor
that runs. -/
inductive Action where
  | spawn (memory : Memory)
  | terminated (memory : Memory)

/-- After the callback `OnThreadTerminated` drops the delegate of a thread that does not run. -/
def step (s : State) : Action → Option State
  | .spawn memory => if s.running then none else some (spawnStaticConstructor t memory s)
  | .terminated memory =>
      if s.running then
        let s := spawnStaticConstructor t memory { s with running := false }
        some (if s.running then s else { s with dlg := none })
      else none

/-- The state when `Execute` calls `SpawnStaticConstructor`. -/
def boot (executed : Nat → Bool) : State := { executed := executed, dlg := none, running := false }

/-- A constructor that a step starts belongs to an assembly all of whose references have been
executed. -/
def Gated (_ : State) (_ : Action) (s' : State) : Prop :=
  s'.running = true → ∀ c a, s'.dlg = some c → t.assembly c.slot = some a →
    ∀ r ∈ a.references, s'.executed r = true

/-- Every assembly with a constructor to run comes in the table after the assemblies it refers
to, apart from those that have been executed. -/
def Ordered (executed : Nat → Bool) : Prop :=
  ∀ slot a, t.assembly slot = some a → executed slot = false →
    findNextStaticConstructor a 0 ≠ none → ∀ r ∈ a.references, executed r = true ∨ r < slot

section Gate

variable {t} (memory : Memory)

/-- What survives the steps of an ordered table: executed assemblies stay executed, and the
assembly of the delegate has its references executed. -/
structure Inv (t : Table) (s : State) : Prop where
  ordered : Ordered t s.executed
  delegate : ∀ c a, s.dlg = some c → t.assembly c.slot = some a →
    ∀ r ∈ a.references, s.executed r = true

theorem dependenciesRun_eq_true (executed : Nat → Bool) (references : List Nat) :
    dependenciesRun executed references = true := by
  induction references with
  | nil => rfl
  | cons r rest ih =>
      unfold dependenciesRun
      split
      · rfl
      · exact ih

theorem Ordered.mono {executed executed' : Nat → Bool}
    (hle : ∀ slot, executed slot = true → executed' slot = true) (h : Ordered t executed) :
    Ordered t executed' := by
  intro slot a ha hslot hfind r hr
  have hold : executed slot = false := by
    by_contra hne
    rw [hle slot (by simpa using hne)] at hslot
    cases hslot
  rcases h slot a ha hold hfind r hr with hrun | hlt
  · exact Or.inl (hle r hrun)
  · exact Or.inr hlt

theorem le_update (executed : Nat → Bool) (slot : Nat) :
    ∀ r, executed r = true → Function.update executed slot true r = true := by
  intro r hr
  by_cases heq : r = slot
  · rw [heq, Function.update_self]
  · rw [Function.update_of_ne heq, hr]

/-- Setting the flag of one more assembly. -/
theorem Inv.update {s : State} (h : Inv t s) (slot : Nat) :
    Inv t { s with executed := Function.update s.executed slot true } :=
  ⟨h.ordered.mono (le_update s.executed slot),
    fun c a hc ha r hr => le_update s.executed slot r (h.delegate c a hc ha r hr)⟩

/-- The helper, when the references of its assembly have been executed. -/
theorem Inv.helper {s : State} (h : Inv t s) {slot method : Nat} {a : Assembly}
    (ha : t.assembly slot = some a) (hrefs : findNextStaticConstructor a method ≠ none →
      ∀ r ∈ a.references, s.executed r = true) :
    Inv t (StaticConstructors.helper memory s slot a method).2 := by
  unfold StaticConstructors.helper
  cases hfind : findNextStaticConstructor a method with
  | none => exact h.update slot
  | some next =>
      dsimp only
      split
      · refine ⟨h.ordered, fun c b hc hb r hr => ?_⟩
        obtain rfl := Option.some.inj hc
        obtain rfl := Option.some.inj (ha.symm.trans hb)
        exact hrefs (by simp [hfind]) r hr
      · exact h.update slot

/-- A helper that starts nothing leaves its assembly executed. -/
theorem helper_failed {s : State} {slot method : Nat} {a : Assembly}
    (h : (helper memory s slot a method).1 = false) :
    (helper memory s slot a method).2 =
      { s with executed := Function.update s.executed slot true } := by
  unfold helper at h ⊢
  split
  · rfl
  · split <;> simp_all

/-- The scan from a slot on, when every assembly before it has been executed. -/
theorem Inv.scan {s : State} (h : Inv t s) (n : Nat) (slot : Nat)
    (hbefore : ∀ r a, r < slot → t.assembly r = some a → s.executed r = true) :
    Inv t (StaticConstructors.scan t memory s (List.range' slot n)) := by
  induction n generalizing s slot with
  | zero => exact ⟨h.ordered, fun c a hc => nomatch hc⟩
  | succ n ih =>
      rw [List.range'_succ, StaticConstructors.scan]
      cases ha : t.assembly slot with
      | none =>
          refine ih h (slot + 1) fun r a hr hra => ?_
          rcases Nat.lt_succ_iff_lt_or_eq.mp hr with hlt | rfl
          · exact hbefore r a hlt hra
          · rw [ha] at hra
            cases hra
      | some a =>
          dsimp only
          by_cases hslot : s.executed slot = true
          · rw [if_pos hslot]
            refine ih h (slot + 1) fun r b hr hrb => ?_
            rcases Nat.lt_succ_iff_lt_or_eq.mp hr with hlt | rfl
            · exact hbefore r b hlt hrb
            · exact hslot
          · rw [if_neg hslot, if_pos (dependenciesRun_eq_true _ _)]
            have hrefs : findNextStaticConstructor a 0 ≠ none →
                ∀ r ∈ a.references, s.executed r = true := by
              intro hfind r hr
              rcases h.ordered slot a ha (by simpa using hslot) hfind r hr with hrun | hlt
              · exact hrun
              · obtain ⟨b, hb⟩ := t.resolved a (List.mem_of_getElem?
                  (Table.assembly_eq_some.mp ha)) r hr
                exact hbefore r b hlt (Table.assembly_eq_some.mpr hb)
            have hhelper := h.helper memory ha hrefs
            rcases hcase : StaticConstructors.helper memory s slot a 0 with ⟨started, s'⟩
            rw [hcase] at hhelper
            cases started with
            | true => exact hhelper
            | false =>
                have hs' : s' = _ := congrArg Prod.snd hcase ▸
                  helper_failed memory (congrArg Prod.fst hcase)
                subst hs'
                refine ih hhelper (slot + 1) fun r b hr hrb => ?_
                rcases Nat.lt_succ_iff_lt_or_eq.mp hr with hlt | rfl
                · exact le_update s.executed slot r (hbefore r b hlt hrb)
                · exact Function.update_self ..

theorem Inv.spawnStaticConstructor {s : State} (h : Inv t s) :
    Inv t (StaticConstructors.spawnStaticConstructor t memory s) := by
  have hscan : ∀ {s : State}, Inv t s →
      Inv t (StaticConstructors.scan t memory s (List.range t.slots.length)) := by
    intro s hs
    rw [List.range_eq_range']
    exact hs.scan memory _ 0 fun r a hr => absurd hr (Nat.not_lt_zero r)
  have hcontinue : Inv t (continueAssembly t memory s).2 := by
    unfold continueAssembly
    split
    · exact h
    case h_2 c hc =>
      split
      · exact h
      case h_2 a ha => exact h.helper memory ha fun _ => h.delegate c a hc ha
  unfold StaticConstructors.spawnStaticConstructor
  rcases hcase : continueAssembly t memory s with ⟨started, s'⟩
  rw [hcase] at hcontinue
  cases started with
  | true => exact hcontinue
  | false => exact hscan hcontinue

theorem Inv.step {s s' : State} {a : Action} (h : Inv t s)
    (hstep : StaticConstructors.step t s a = some s') : Inv t s' := by
  cases a with
  | spawn memory =>
      simp only [StaticConstructors.step] at hstep
      split at hstep
      · cases hstep
      · obtain rfl := Option.some.inj hstep
        exact h.spawnStaticConstructor memory
  | terminated memory =>
      simp only [StaticConstructors.step] at hstep
      split at hstep
      · obtain rfl := Option.some.inj hstep
        have hspawn := Inv.spawnStaticConstructor memory
          (s := { s with running := false }) ⟨h.ordered, h.delegate⟩
        split
        · exact hspawn
        · exact ⟨hspawn.ordered, fun c b hc => nomatch hc⟩
      · cases hstep

theorem Inv.everyStep {s : State} (h : Inv t s) (as : List Action) :
    EveryStep (StaticConstructors.step t) (Gated t) s as := by
  induction as generalizing s with
  | nil => trivial
  | cons a as ih =>
      intro s' hstep
      have hs' := h.step hstep
      exact ⟨fun _ => hs'.delegate, ih hs'⟩

/-- When memory lasts for one assembly only, the scan starts its constructor, and no assembly
behind it has been touched by then. -/
theorem scan_only {slot next r : Nat} {a : Assembly} (ha : t.assembly slot = some a)
    (hnext : findNextStaticConstructor a 0 = some next) (hr : slot ≤ r) (n : Nat) {s : State}
    (first : Nat) (hfirst : first ≤ slot) (hlast : slot < first + n)
    (hslot : s.executed slot = false) (href : s.executed r = false) :
    ∃ s', scan t (fun i => decide (i = slot)) s (List.range' first n) = s' ∧ s'.running = true ∧
      s'.dlg = some ⟨slot, next⟩ ∧ s'.executed r = false := by
  induction n generalizing s first with
  | zero => omega
  | succ n ih =>
      rw [List.range'_succ, scan]
      rcases Nat.lt_or_eq_of_le hfirst with hlt | rfl
      · cases hb : t.assembly first with
        | none => exact ih (first + 1) (by omega) (by omega) hslot href
        | some b =>
            dsimp only
            by_cases hex : s.executed first = true
            · rw [if_pos hex]
              exact ih (first + 1) (by omega) (by omega) hslot href
            · rw [if_neg hex, if_pos (dependenciesRun_eq_true _ _)]
              have hfail : helper (fun i => decide (i = slot)) s first b 0 =
                  (false, { s with executed := Function.update s.executed first true }) := by
                unfold helper
                split
                · rfl
                · rw [if_neg (by simpa using hlt.ne)]
              rw [hfail]
              refine ih (first + 1) (by omega) (by omega) ?_ ?_
              · exact (Function.update_of_ne (by omega) _ _).trans hslot
              · exact (Function.update_of_ne (by omega) _ _).trans href
      · have hstart : helper (fun i => decide (i = first)) s first a 0 =
            (true, { s with dlg := some ⟨first, next⟩, running := true }) := by
          simp only [helper, hnext, decide_true, if_true]
        simp only [ha, hslot, Bool.false_eq_true, if_false, dependenciesRun_eq_true, if_true,
          hstart]
        exact ⟨_, rfl, rfl, rfl, href⟩

/-- Constructors are gated in every run from the start exactly when the table is ordered. -/
theorem gated_iff_ordered (t : Table) (executed : Nat → Bool) :
    (∀ as, EveryStep (StaticConstructors.step t) (Gated t) (boot executed) as) ↔
      Ordered t executed := by
  constructor
  · intro h slot a ha hslot hfind r hr
    by_contra hnot
    obtain ⟨hrun, hle⟩ := not_or.mp hnot
    obtain ⟨next, hnext⟩ := Option.ne_none_iff_exists'.mp hfind
    have hlen : slot < t.slots.length :=
      (List.getElem?_eq_some_iff.mp (Table.assembly_eq_some.mp ha)).1
    obtain ⟨s', hscan, hrunning, hdlg, hexec⟩ := scan_only (s := boot executed) (r := r) ha
      hnext (by omega) t.slots.length 0 (Nat.zero_le slot) (by omega) hslot (by simpa [boot] using hrun)
    have hstep : StaticConstructors.step t (boot executed)
        (.spawn fun i => decide (i = slot)) = some s' := by
      simp only [StaticConstructors.step, boot, Bool.false_eq_true, if_false]
      rw [← hscan, List.range_eq_range'.symm]
      rfl
    have hgated := (h [.spawn fun i => decide (i = slot)] s' hstep).1
    rw [hgated hrunning ⟨slot, next⟩ a hdlg ha r hr] at hexec
    cases hexec
  · intro h
    exact Inv.everyStep ⟨h, fun c a hc => nomatch hc⟩

/-- Two assemblies with a constructor each, the first of which refers to the second one. -/
def reversedTable : Table :=
  { slots := [some ⟨[true], [1]⟩, some ⟨[true], []⟩]
    resolved := by
      intro a ha r hr
      simp only [List.mem_cons, Option.some.injEq, List.not_mem_nil, or_false] at ha
      rcases ha with rfl | rfl
      · obtain rfl := List.mem_singleton.mp hr
        exact ⟨_, rfl⟩
      · cases hr }

/-- With memory for everything the constructor of the first assembly starts at once. -/
theorem not_gated_reversedTable :
    ¬ ∀ (t : Table) (executed : Nat → Bool) (as : List Action),
      EveryStep (StaticConstructors.step t) (Gated t) (boot executed) as := by
  intro h
  have hstep : StaticConstructors.step reversedTable (boot fun _ => false)
      (.spawn fun _ => true) =
      some { executed := fun _ => false, dlg := some ⟨0, 0⟩, running := true } := rfl
  have hgated := (h reversedTable (fun _ => false) [.spawn fun _ => true] _ hstep).1
  exact absurd (hgated rfl ⟨0, 0⟩ _ rfl rfl 1 (by simp)) (by decide)

end Gate

end TinyCLR.StaticConstructors
