import Mathlib
import TinyCLR.TypeSystem.VirtualMethod

/-!
# Casting

`CLR_RT_ExecutionEngine::IsInstanceOf` on type descriptors, and the rules of assignment that it is
to decide.
-/

namespace TinyCLR

/-- The values of `TD_Semantics_Mask`. -/
inductive Semantics where
  | «class»
  | valueType
  | interface
  | enum
  deriving DecidableEq

/-- What `IsInstanceOf` reads of a `CLR_RECORD_TYPEDEF`, with the references to other types
resolved. -/
structure ClassRecord where
  extendsType : Option TypeDefIndex
  interfaces : List TypeDefIndex
  semantics : Semantics
  dataType : Nat

/-- The types of the loaded assemblies: no type inherits from itself, only classes have heirs, and
the interfaces of a type are interfaces. -/
structure TypeHierarchy where
  typeDef : TypeDefIndex → ClassRecord
  array : TypeDefIndex
  object : TypeDefIndex
  iList : TypeDefIndex
  iCloneable : TypeDefIndex
  depth : TypeDefIndex → Nat
  extends_depth : ∀ cls parent, (typeDef cls).extendsType = some parent → depth parent < depth cls
  extends_class : ∀ cls parent, (typeDef cls).extendsType = some parent →
    (typeDef parent).semantics = .class
  interfaces_interface : ∀ cls, ∀ i ∈ (typeDef cls).interfaces, (typeDef i).semantics = .interface

/-- `CLR_RT_TypeDescriptor`: the class that handles the type, the levels of an array and the type
below them. -/
structure TypeDescriptor where
  handlerCls : TypeDefIndex
  levels : Nat
  type : TypeDefIndex

namespace TypeHierarchy

variable (ts : TypeHierarchy)

def initializeFromType (cls : TypeDefIndex) : TypeDescriptor := ⟨cls, 0, cls⟩

def convertToArray (desc : TypeDescriptor) : TypeDescriptor := { desc with handlerCls := ts.array }

/-- The descriptor that a reflection or a signature gives. -/
def descriptor (levels : Nat) (cls : TypeDefIndex) : TypeDescriptor :=
  if levels ≠ 0 then ts.convertToArray { initializeFromType cls with levels := levels }
  else initializeFromType cls

def getElementType (desc : TypeDescriptor) : TypeDescriptor :=
  match desc.levels with
  | 0 => desc
  | 1 => initializeFromType desc.type
  | n + 2 => { desc with levels := n + 1 }

theorem levels_getElementType (desc : TypeDescriptor) :
    (getElementType desc).levels = desc.levels - 1 := by
  rw [getElementType]
  split <;> simp_all [initializeFromType]

/-- The loop that takes levels from both sides. -/
def stripLevels (desc descTarget : TypeDescriptor) (fArray : Bool) :
    TypeDescriptor × TypeDescriptor × Bool :=
  if 0 < desc.levels ∧ 0 < descTarget.levels then
    stripLevels (getElementType desc) (getElementType descTarget) true
  else (desc, descTarget, fArray)
termination_by desc.levels
decreasing_by
  rw [levels_getElementType]
  omega

/-- The walk over the parents, with a look at the interfaces of each. -/
def scanParents (target : TypeDefIndex) (cls : TypeDefIndex) : Bool :=
  if cls = target then true
  else if (ts.typeDef target).semantics = .interface ∧
      target ∈ (ts.typeDef cls).interfaces then true
  else
    match _h : (ts.typeDef cls).extendsType with
    | none => false
    | some parent => scanParents target parent
termination_by ts.depth cls
decreasing_by exact ts.extends_depth cls parent _h

def isInstanceOf (desc descTarget : TypeDescriptor) : Bool :=
  let (desc, descTarget, fArray) := stripLevels desc descTarget false
  let inst := desc.handlerCls
  let instTarget := descTarget.handlerCls
  if desc.levels < descTarget.levels then false
  else if descTarget.levels < desc.levels ∧ descTarget.levels = 0 ∧
      (inst = ts.array ∨ inst = ts.object ∨ inst = ts.iList ∨ inst = ts.iCloneable) then true
  else if descTarget.levels < desc.levels ∧
      (ts.typeDef inst).dataType ≠ (ts.typeDef instTarget).dataType then false
  else if fArray = true ∧ (ts.typeDef inst).semantics ≠ (ts.typeDef instTarget).semantics then false
  else ts.scanParents instTarget inst

/-! ## The rules of assignment -/

/-- A class and its bases. -/
inductive Base : TypeDefIndex → TypeDefIndex → Prop where
  | refl (cls : TypeDefIndex) : Base cls cls
  | parent {cls parent base : TypeDefIndex} : (ts.typeDef cls).extendsType = some parent →
      Base parent base → Base cls base

/-- An interface in the list of a type, or inherited by one of these. -/
inductive Implements : TypeDefIndex → TypeDefIndex → Prop where
  | listed {cls i : TypeDefIndex} : i ∈ (ts.typeDef cls).interfaces → Implements cls i
  | inherited {cls i j : TypeDefIndex} : i ∈ (ts.typeDef cls).interfaces → Implements i j →
      Implements cls j

/-- The same class, a base, or an interface of one of these. -/
def ClassAssignable (cls target : TypeDefIndex) : Prop :=
  ∃ base, ts.Base cls base ∧ (base = target ∨ ts.Implements base target)

/-- Where an array goes that is not taken for an array of the other side. -/
def ArrayAssignable (target : TypeDefIndex) : Prop :=
  target = ts.array ∨ target = ts.object ∨ target = ts.iList ∨ target = ts.iCloneable ∨
    ts.ClassAssignable ts.array target

def IsReference (cls : TypeDefIndex) : Prop :=
  (ts.typeDef cls).semantics = .class ∨ (ts.typeDef cls).semantics = .interface

/-- The source, with its levels and its class, can be assigned to the target. -/
def Assignable : Nat → TypeDefIndex → Nat → TypeDefIndex → Prop
  | 0, cls, 0, target => ts.ClassAssignable cls target
  | 0, _, _ + 1, _ => False
  | _ + 1, _, 0, target => ts.ArrayAssignable target
  | k + 1, cls, l + 1, target =>
      (k = l ∧ cls = target) ∨ ((0 < k ∨ ts.IsReference cls) ∧ Assignable k cls l target)

/-- The target is found on the walk over the parents. -/
def Listed (cls target : TypeDefIndex) : Prop :=
  ∃ base, ts.Base cls base ∧ (base = target ∨ target ∈ (ts.typeDef base).interfaces)

/-- The casts that go right: from fewer levels, from more levels to a type that all arrays have,
and with equal levels unless the target is only inherited by an interface, or the elements are
assignable but of different kinds. -/
def DecidesCast (k : Nat) (cls : TypeDefIndex) (l : Nat) (target : TypeDefIndex) : Prop :=
  k < l ∨ (l < k ∧ ts.ArrayAssignable target) ∨
    (k = l ∧ (ts.ClassAssignable cls target → k = 0 ∨ ts.IsReference cls →
      ts.Listed cls target ∧
        (k = 0 ∨ (ts.typeDef cls).semantics = (ts.typeDef target).semantics)))

variable {ts}

theorem getElementType_descriptor (k : Nat) (cls : TypeDefIndex) :
    getElementType (ts.descriptor (k + 1) cls) = ts.descriptor k cls := by
  cases k <;> rfl

theorem levels_descriptor (k : Nat) (cls : TypeDefIndex) : (ts.descriptor k cls).levels = k := by
  cases k <;> rfl

/-- The levels that both sides have go away. -/
theorem stripLevels_descriptor (k l : Nat) (cls target : TypeDefIndex) (fArray : Bool) :
    stripLevels (ts.descriptor k cls) (ts.descriptor l target) fArray =
      (ts.descriptor (k - l) cls, ts.descriptor (l - k) target,
        fArray || decide (0 < k ∧ 0 < l)) := by
  induction k generalizing l fArray with
  | zero =>
      rw [stripLevels, levels_descriptor, if_neg (by omega)]
      simp
  | succ k ih =>
      cases l with
      | zero =>
          rw [stripLevels, levels_descriptor, levels_descriptor, if_neg (by omega)]
          simp
      | succ l =>
          rw [stripLevels, levels_descriptor, levels_descriptor, if_pos (by omega),
            getElementType_descriptor, getElementType_descriptor, ih]
          simp

/-- What a cast comes down to. -/
theorem isInstanceOf_descriptor (k l : Nat) (cls target : TypeDefIndex) :
    ts.isInstanceOf (ts.descriptor k cls) (ts.descriptor l target) =
      if k < l then false
      else if l < k then true
      else if 0 < k ∧ (ts.typeDef cls).semantics ≠ (ts.typeDef target).semantics then false
      else ts.scanParents target cls := by
  rw [isInstanceOf, stripLevels_descriptor]
  dsimp only
  rw [levels_descriptor, levels_descriptor]
  rcases Nat.lt_trichotomy k l with hlt | rfl | hgt
  · rw [if_pos (by omega), if_pos hlt]
  · have hlevel (c : TypeDefIndex) : (ts.descriptor 0 c).handlerCls = c := rfl
    rw [Nat.sub_self, if_neg (Nat.lt_irrefl 0), if_neg (fun h => Nat.lt_irrefl 0 h.1),
      if_neg (fun h => Nat.lt_irrefl 0 h.1), if_neg (Nat.lt_irrefl k), if_neg (Nat.lt_irrefl k),
      hlevel, hlevel]
    simp only [Bool.false_or, decide_eq_true_eq, and_self]
  · have harray : (ts.descriptor (k - l) cls).handlerCls = ts.array := by
      rw [descriptor, if_pos (by omega)]
      rfl
    rw [if_neg (by omega), if_pos ⟨by omega, by omega, .inl harray⟩, if_neg (by omega), if_pos hgt]

/-! ## The walk over the parents -/

theorem listed_iff (cls target : TypeDefIndex) : ts.Listed cls target ↔
    cls = target ∨ target ∈ (ts.typeDef cls).interfaces ∨
      ∃ parent, (ts.typeDef cls).extendsType = some parent ∧ ts.Listed parent target := by
  constructor
  · rintro ⟨base, hbase, htarget⟩
    cases hbase with
    | refl => exact htarget.imp_right .inl
    | parent hparent hbase => exact .inr (.inr ⟨_, hparent, base, hbase, htarget⟩)
  · rintro (heq | hmem | ⟨parent, hparent, base, hbase, htarget⟩)
    · exact ⟨cls, .refl cls, .inl heq⟩
    · exact ⟨cls, .refl cls, .inr hmem⟩
    · exact ⟨base, .parent hparent hbase, htarget⟩

theorem scanParents_iff (target cls : TypeDefIndex) :
    ts.scanParents target cls = true ↔ ts.Listed cls target := by
  induction hdepth : ts.depth cls using Nat.strong_induction_on generalizing cls with
  | _ n ih =>
      rw [scanParents, listed_iff]
      by_cases heq : cls = target
      · rw [if_pos heq]
        exact iff_of_true rfl (.inl heq)
      · by_cases hmem : target ∈ (ts.typeDef cls).interfaces
        · rw [if_neg heq, if_pos ⟨ts.interfaces_interface cls target hmem, hmem⟩]
          exact iff_of_true rfl (.inr (.inl hmem))
        · rw [if_neg heq, if_neg (fun h => hmem h.2), or_iff_right heq, or_iff_right hmem]
          split
          · rename_i hnone
            apply iff_of_false Bool.false_ne_true
            rintro ⟨parent, hparent, -⟩
            rw [hnone] at hparent
            cases hparent
          · rename_i parent hparent
            have hlt := ts.extends_depth cls parent hparent
            rw [ih (ts.depth parent) (by omega) parent rfl]
            constructor
            · exact fun h => ⟨parent, hparent, h⟩
            · rintro ⟨parent', hparent', h⟩
              rw [hparent] at hparent'
              cases hparent'
              exact h

theorem Listed.classAssignable {cls target : TypeDefIndex} (h : ts.Listed cls target) :
    ts.ClassAssignable cls target := by
  obtain ⟨base, hbase, htarget⟩ := h
  exact ⟨base, hbase, htarget.imp_right .listed⟩

/-- A type of one kind is found from a type of the same kind only when this is a reference type, or
the same. -/
theorem Listed.reference {cls target : TypeDefIndex} (h : ts.Listed cls target)
    (hsemantics : (ts.typeDef cls).semantics = (ts.typeDef target).semantics) :
    cls = target ∨ ts.IsReference cls := by
  obtain ⟨base, hbase, rfl | hmem⟩ := h
  · cases hbase with
    | refl => exact .inl rfl
    | parent hparent hbase =>
        right
        left
        rw [hsemantics]
        clear hsemantics
        induction hbase generalizing cls with
        | refl => exact ts.extends_class _ _ hparent
        | parent hnext _ ih => exact ih hnext
  · right
    right
    rw [hsemantics]
    exact ts.interfaces_interface base target hmem

/-! ## The rules by levels -/

theorem assignable_lower {k l : Nat} (h : k < l) (cls target : TypeDefIndex) :
    ¬ts.Assignable k cls l target := by
  induction k generalizing l with
  | zero =>
      cases l with
      | zero => omega
      | succ l => exact id
  | succ k ih =>
      cases l with
      | zero => omega
      | succ l =>
          rintro (⟨heq, -⟩ | ⟨-, hassign⟩)
          · omega
          · exact ih (by omega) hassign

theorem assignable_higher {k l : Nat} (h : l < k) (cls target : TypeDefIndex) :
    ts.Assignable k cls l target ↔ ts.ArrayAssignable target := by
  induction k generalizing l with
  | zero => omega
  | succ k ih =>
      cases l with
      | zero => exact Iff.rfl
      | succ l =>
          rw [Assignable, ih (by omega)]
          constructor
          · rintro (⟨heq, -⟩ | ⟨-, hassign⟩)
            · omega
            · exact hassign
          · exact fun hassign => .inr ⟨.inl (by omega), hassign⟩

theorem assignable_equal (k : Nat) (cls target : TypeDefIndex) :
    ts.Assignable (k + 1) cls (k + 1) target ↔
      cls = target ∨ (ts.IsReference cls ∧ ts.ClassAssignable cls target) := by
  induction k with
  | zero =>
      rw [Assignable]
      simp [Assignable]
  | succ k ih =>
      rw [Assignable, ih]
      simp

theorem Implements.interface {cls i : TypeDefIndex} (h : ts.Implements cls i) :
    (ts.typeDef i).semantics = .interface := by
  induction h with
  | listed hmem => exact ts.interfaces_interface _ _ hmem
  | inherited _ _ ih => exact ih

/-- `System.Object`, `System.Array`, its two interfaces, and one more class. -/
def sampleTypes : TypeHierarchy where
  typeDef cls :=
    if cls.type = 1 then ⟨some ⟨0, 0⟩, [⟨0, 2⟩, ⟨0, 3⟩], .class, 0⟩
    else if cls.type = 2 ∨ cls.type = 3 then ⟨none, [], .interface, 0⟩
    else if cls.type = 4 then ⟨some ⟨0, 0⟩, [], .class, 0⟩
    else ⟨none, [], .class, 0⟩
  object := ⟨0, 0⟩
  array := ⟨0, 1⟩
  iList := ⟨0, 2⟩
  iCloneable := ⟨0, 3⟩
  depth cls := if cls.type = 1 ∨ cls.type = 4 then 1 else 0
  extends_depth cls parent h := by
    split at h
    · cases h
      simp [*]
    · split at h
      · cases h
      · split at h
        · cases h
          simp [*]
        · cases h
  extends_class cls parent h := by
    split at h
    · cases h
      rfl
    · split at h
      · cases h
      · split at h
        · cases h
          rfl
        · cases h
  interfaces_interface cls i h := by
    split at h
    · rcases List.mem_cons.mp h with rfl | h
      · rfl
      · rcases List.mem_cons.mp h with rfl | h
        · rfl
        · cases h
    · split at h
      · cases h
      · split at h <;> cases h

end TypeHierarchy

end TinyCLR
