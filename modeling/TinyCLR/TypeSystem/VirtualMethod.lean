import Mathlib

/-!
# Virtual methods

The tables of the loaded assemblies as far as the dispatch of virtual methods reads them, and
`CLR_RT_TypeSystem::FindVirtualMethodDef`. A cleared index is `none`.
-/

namespace TinyCLR

/-- `CLR_RT_TypeDef_Index`; `m_data` holds both halves. -/
structure TypeDefIndex where
  assembly : UInt16
  type : UInt16
  deriving DecidableEq, Repr

structure MethodDefIndex where
  assembly : UInt16
  method : UInt16
  deriving DecidableEq, Repr

def TypeDefIndex.data (cls : TypeDefIndex) : Nat :=
  cls.assembly.toNat * 2 ^ 16 + cls.type.toNat

def MethodDefIndex.data (md : MethodDefIndex) : Nat :=
  md.assembly.toNat * 2 ^ 16 + md.method.toNat

theorem TypeDefIndex.data_inj {cls cls' : TypeDefIndex} : cls.data = cls'.data ↔ cls = cls' := by
  refine ⟨fun h => ?_, fun h => h ▸ rfl⟩
  obtain ⟨a, t⟩ := cls
  obtain ⟨a', t'⟩ := cls'
  have ht := t.toNat_lt
  have ht' := t'.toNat_lt
  simp only [data] at h
  simp only [mk.injEq, ← UInt16.toNat_inj]
  omega

theorem MethodDefIndex.data_inj {md md' : MethodDefIndex} : md.data = md'.data ↔ md = md' := by
  refine ⟨fun h => ?_, fun h => h ▸ rfl⟩
  obtain ⟨a, m⟩ := md
  obtain ⟨a', m'⟩ := md'
  have hm := m.toNat_lt
  have hm' := m'.toNat_lt
  simp only [data] at h
  simp only [mk.injEq, ← UInt16.toNat_inj]
  omega

/-- `CLR_RECORD_TYPEDEF`. -/
structure TypeDef where
  /-- What `BuildTypeName` writes. -/
  fullName : String
  isInterface : Bool
  /-- The parent, with the references to other assemblies resolved. -/
  extendsType : Option TypeDefIndex
  methodsFirst : UInt16
  vMethodsNum : Nat
  iMethodsNum : Nat

/-- `CLR_RECORD_METHODDEF`. -/
structure MethodDef where
  name : String
  numArgs : Nat
  isAbstract : Bool

/-- The virtual methods of a type and its instance methods, which stand in front of its static
methods. -/
def TypeDef.methods (td : TypeDef) : List UInt16 :=
  (List.range (td.vMethodsNum + td.iMethodsNum)).map fun i => td.methodsFirst + UInt16.ofNat i

/-- The loaded assemblies, with the rules of their metadata: a type has no two methods of one name
and signature, abstract methods are no static methods, the methods of an interface are abstract,
and no type inherits from itself. -/
structure TypeSystem where
  typeDef : TypeDefIndex → TypeDef
  methodDef : MethodDefIndex → MethodDef
  /-- The owner in `m_pCrossReference_MethodDef`. -/
  owner : MethodDefIndex → UInt16
  matchSignature : MethodDefIndex → MethodDefIndex → Bool
  depth : TypeDefIndex → Nat
  extends_depth : ∀ cls parent, (typeDef cls).extendsType = some parent → depth parent < depth cls
  abstract_mem : ∀ md, (methodDef md).isAbstract = true →
    md.method ∈ (typeDef ⟨md.assembly, owner md⟩).methods
  distinct : ∀ cls : TypeDefIndex, ∀ m ∈ (typeDef cls).methods, ∀ m' ∈ (typeDef cls).methods,
    (methodDef ⟨cls.assembly, m⟩).name = (methodDef ⟨cls.assembly, m'⟩).name →
    matchSignature ⟨cls.assembly, m⟩ ⟨cls.assembly, m'⟩ = true → m = m'
  interface_abstract : ∀ cls : TypeDefIndex, (typeDef cls).isInterface = true →
    ∀ m ∈ (typeDef cls).methods, (methodDef ⟨cls.assembly, m⟩).isAbstract = true

namespace TypeSystem

def ownerType (ts : TypeSystem) (md : MethodDefIndex) : TypeDefIndex :=
  ⟨md.assembly, ts.owner md⟩

/-- The loop of `FindVirtualMethodDef` over the methods of one type. -/
def findAmongMethods (ts : TypeSystem) (calleeMD : MethodDefIndex) (calleeName : String)
    (assembly : UInt16) : List UInt16 → Option MethodDefIndex
  | [] => none
  | m :: ms =>
      let target : MethodDefIndex := ⟨assembly, m⟩
      if target = calleeMD then some calleeMD
      else if (ts.methodDef target).numArgs = (ts.methodDef calleeMD).numArgs ∧
          (ts.methodDef target).isAbstract = false ∧ (ts.methodDef target).name = calleeName ∧
          ts.matchSignature calleeMD target = true then
        some target
      else findAmongMethods ts calleeMD calleeName assembly ms

/-- `FindVirtualMethodDef( cls, calleeMD, calleeName, idx )`. -/
def findVirtualMethodNamed (ts : TypeSystem) (cls : TypeDefIndex) (calleeMD : MethodDefIndex)
    (calleeName : String) : Option MethodDefIndex :=
  match ts.findAmongMethods calleeMD calleeName cls.assembly (ts.typeDef cls).methods with
  | some md => some md
  | none =>
      match _h : (ts.typeDef cls).extendsType with
      | none => none
      | some parent => findVirtualMethodNamed ts parent calleeMD calleeName
termination_by ts.depth cls
decreasing_by exact ts.extends_depth cls parent _h

/-- The name of an explicit implementation, as far as it fits the buffer of 512 characters. -/
def explicitName (ts : TypeSystem) (md : MethodDefIndex) : String :=
  let text := (ts.typeDef (ts.ownerType md)).fullName ++ "." ++ (ts.methodDef md).name
  String.ofList (text.toList.take 511)

/-- `FindVirtualMethodDef( cls, calleeMD, idx )`. -/
def findVirtualMethodDef (ts : TypeSystem) (cls : TypeDefIndex) (calleeMD : MethodDefIndex) :
    Option MethodDefIndex :=
  if (ts.typeDef (ts.ownerType calleeMD)).isInterface then
    match ts.findVirtualMethodNamed cls calleeMD (ts.explicitName calleeMD) with
    | some md => some md
    | none => ts.findVirtualMethodNamed cls calleeMD (ts.methodDef calleeMD).name
  else ts.findVirtualMethodNamed cls calleeMD (ts.methodDef calleeMD).name

/-- The lookup without a cache. -/
def resolve (ts : TypeSystem) (cls : TypeDefIndex) (mdVirtual : MethodDefIndex) :
    Option MethodDefIndex :=
  if cls = ts.ownerType mdVirtual ∧ (ts.methodDef mdVirtual).isAbstract = false then some mdVirtual
  else ts.findVirtualMethodDef cls mdVirtual

/-- The callee is found in its own place, when no other method of the type matches it. -/
theorem findAmongMethods_self {ts : TypeSystem} {md : MethodDefIndex} (name : String)
    {ms : List UInt16} (hmem : md.method ∈ ms)
    (hother : ∀ m ∈ ms, (ts.methodDef ⟨md.assembly, m⟩).isAbstract = false →
      (ts.methodDef ⟨md.assembly, m⟩).name = name →
      ts.matchSignature md ⟨md.assembly, m⟩ = true → m = md.method) :
    ts.findAmongMethods md name md.assembly ms = some md := by
  induction ms with
  | nil => cases hmem
  | cons m ms ih =>
      rw [findAmongMethods]
      by_cases heq : m = md.method
      · subst heq
        exact if_pos rfl
      · have hne : (⟨md.assembly, m⟩ : MethodDefIndex) ≠ md := by
          intro h
          exact heq (congrArg MethodDefIndex.method h)
        rw [if_neg hne, if_neg]
        · apply ih
          · exact (List.mem_cons.mp hmem).resolve_left (Ne.symm heq)
          · exact fun k hk => hother k (List.mem_cons_of_mem m hk)
        · rintro ⟨-, habs, hname, hmatch⟩
          exact heq (hother m List.mem_cons_self habs hname hmatch)

theorem findVirtualMethodNamed_self {ts : TypeSystem} {md : MethodDefIndex} {name : String}
    (h : ts.findAmongMethods md name md.assembly (ts.typeDef (ts.ownerType md)).methods = some md) :
    ts.findVirtualMethodNamed (ts.ownerType md) md name = some md := by
  rw [findVirtualMethodNamed]
  simp only [ownerType] at h ⊢
  rw [h]

/-- The owner of an abstract method resolves the method to itself. -/
theorem findVirtualMethodDef_owner (ts : TypeSystem) {md : MethodDefIndex}
    (habs : (ts.methodDef md).isAbstract = true) :
    ts.findVirtualMethodDef (ts.ownerType md) md = some md := by
  have hmem := ts.abstract_mem md habs
  rw [findVirtualMethodDef]
  split
  next hinterface =>
    have hself := findVirtualMethodNamed_self (findAmongMethods_self (ts.explicitName md)
      hmem fun m hm hconcrete => by
        have := ts.interface_abstract (ts.ownerType md) hinterface m hm
        rw [show (ts.ownerType md).assembly = md.assembly from rfl, hconcrete] at this
        cases this)
    rw [hself]
  next =>
    apply findVirtualMethodNamed_self
    apply findAmongMethods_self _ hmem
    intro m hm _ hname hmatch
    exact (ts.distinct (ts.ownerType md) md.method hmem m hm hname.symm hmatch).symm

/-- Whether or not the method is abstract, its owner resolves it to itself. -/
theorem resolve_owner (ts : TypeSystem) (md : MethodDefIndex) :
    ts.resolve (ts.ownerType md) md = some md := by
  rw [resolve]
  split
  next => rfl
  next hnot =>
    apply findVirtualMethodDef_owner
    cases habs : (ts.methodDef md).isAbstract with
    | true => rfl
    | false => exact absurd ⟨rfl, habs⟩ hnot

end TypeSystem

end TinyCLR
