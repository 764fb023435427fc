import Mathlib

/-!
# Names of types

`CLR_RT_TypeSystem::BuildTypeName` writes the full name of a type, and two overloads of
`FindTypeDef` look a type up by such a name. A name is the list of its characters without the
terminating null.
-/

namespace TinyCLR.TypeName

abbrev Text := List Char

/-- What the names need of `CLR_RECORD_TYPEDEF`. The metadata processor splits the name of every
type at its last dot into `nameSpace` and `name`; without a dot the namespace is the empty
string. The separators of the full name are no part of either. -/
structure TypeRecord where
  name : Text
  nameSpace : Text
  enclosingType : Option ℕ
  name_plain : ∀ c ∈ name, c ≠ '.' ∧ c ≠ '+' ∧ c ≠ '['
  nameSpace_plain : ∀ c ∈ nameSpace, c ≠ '+' ∧ c ≠ '['

structure Assembly where
  headerCRC : ℕ
  assemblyCRC : ℕ
  typeDefs : List TypeRecord

/-- The assemblies of the current application domain. -/
abbrev TypeSystem := List Assembly

/-- `CLR_RT_TypeDef_Index` -/
structure TypeIndex where
  assembly : ℕ
  type : ℕ
  deriving DecidableEq, Repr

/-- `CLR_RT_ReflectionDef_Index` of a type. -/
structure ReflectionIndex where
  levels : ℕ
  type : TypeIndex
  deriving DecidableEq, Repr

def maxTypeNameLen : ℕ := 256

/-! ## Building a name -/

/-- The namespace with its dot, which is left out for an empty namespace. -/
def TypeRecord.nameSpacePart (td : TypeRecord) : Text :=
  if td.nameSpace = [] then [] else td.nameSpace ++ ['.']

def brackets (levels : ℕ) : Text := (List.replicate levels ['[', ']']).flatten

def typeDef (ts : TypeSystem) (cls : TypeIndex) : Option TypeRecord :=
  ts[cls.assembly]?.bind fun assm => assm.typeDefs[cls.type]?

/-- `BuildTypeName` with `TYPENAME_FLAGS_FULL` and `TYPENAME_NESTED_SEPARATOR_DOT`, up to a depth
of nesting. -/
def buildTypeName (ts : TypeSystem) (fFullName separatorDot : Bool) :
    ℕ → TypeIndex → ℕ → Option Text
  | 0, _, _ => none
  | depth + 1, cls, levels =>
      (typeDef ts cls).bind fun td =>
        let own := (if fFullName then td.nameSpacePart else []) ++ td.name ++ brackets levels
        if fFullName then
          match td.enclosingType with
          | some enclosing =>
              (buildTypeName ts fFullName separatorDot depth ⟨cls.assembly, enclosing⟩ 0).map
                fun outer => outer ++ (if separatorDot then '.' else '+') :: own
          | none => some own
        else some own

/-! ## Looking a name up -/

/-- `IsSameAssembly` -/
def Assembly.isSameAssembly (assm other : Assembly) : Bool :=
  assm.headerCRC = other.headerCRC && assm.assemblyCRC = other.assemblyCRC

/-- `CLR_RT_Assembly::FindTypeDef( name, nameSpace )`, over the types that are not nested. -/
def Assembly.findTypeDef (assm : Assembly) (name nameSpace : Text) : Option ℕ :=
  assm.typeDefs.findIdx? fun td =>
    td.enclosingType = none ∧ td.name = name ∧ td.nameSpace = nameSpace

/-- `CLR_RT_Assembly::FindTypeDef( name, scope )`, over the types nested in one. -/
def Assembly.findNested (assm : Assembly) (name : Text) (scope : ℕ) : Option ℕ :=
  assm.typeDefs.findIdx? fun td => td.enclosingType = some scope ∧ td.name = name

def searchAssemblies (found : Assembly → Option ℕ) : ℕ → List Assembly → Option TypeIndex
  | _, [] => none
  | k, assm :: rest =>
      match found assm with
      | some i => some ⟨k, i⟩
      | none => searchAssemblies found (k + 1) rest

/-- `FindTypeDef( name, nameSpace, assm )` -/
def findByName (ts : TypeSystem) (assm : Option Assembly) (name nameSpace : Text) :
    Option TypeIndex :=
  searchAssemblies (fun a =>
    if assm.all (a.isSameAssembly ·) then a.findTypeDef name nameSpace else none) 0 ts

/-- Where the first loop over the name ends, and what it has seen. -/
structure Scan where
  lastDot : Option ℕ
  stop : ℕ
  subType : Bool
  arrayType : Bool

/-- The first loop, at a position of the name; only the reflection overload stops at `[]`. -/
def scan (reflection : Bool) : Text → ℕ → Option ℕ → Scan
  | [], pos, lastDot => ⟨lastDot, pos, false, false⟩
  | c :: rest, pos, lastDot =>
      if c = '.' then scan reflection rest (pos + 1) (some pos)
      else if c = '+' then ⟨lastDot, pos, true, false⟩
      else if reflection ∧ c = '[' ∧ rest.head? = some ']' then ⟨lastDot, pos, false, true⟩
      else scan reflection rest (pos + 1) lastDot

/-- The loop over the nested types: `rgName` grows up to the next separator. -/
def nestedLoop (assm : Assembly) : ℕ → Text → Text → Option ℕ
  | res, rgName, [] => assm.findNested rgName res
  | res, rgName, c :: rest =>
      if c = '+' then (assm.findNested rgName res).bind fun res => nestedLoop assm res [] rest
      else nestedLoop assm res (rgName ++ [c]) rest

/-- The containing type and the nested types in it. Without a dot the whole name is copied. -/
def resolve (ts : TypeSystem) (assm : Option Assembly) (szClass : Text) (s : Scan) :
    Option TypeIndex :=
  let res :=
    match s.lastDot with
    | some dot =>
        findByName ts assm ((szClass.drop (dot + 1)).take (s.stop - (dot + 1))) (szClass.take dot)
    | none => findByName ts assm szClass []
  res.bind fun res =>
    if s.subType then
      ts[res.assembly]?.bind fun inst =>
        (nestedLoop inst res.type [] (szClass.drop (s.stop + 1))).map fun i => ⟨res.assembly, i⟩
    else some res

/-- `FindTypeDef( szClass, assm, CLR_RT_TypeDef_Index& )` -/
def findTypeDef (ts : TypeSystem) (assm : Option Assembly) (szClass : Text) : Option TypeIndex :=
  if szClass.length < maxTypeNameLen then resolve ts assm szClass (scan false szClass 0 none)
  else none

/-- `FindTypeDef( szClass, assm, CLR_RT_ReflectionDef_Index& )` -/
def findReflection (ts : TypeSystem) (assm : Option Assembly) (szClass : Text) :
    Option ReflectionIndex :=
  if szClass.length < maxTypeNameLen then
    let s := scan true szClass 0 none
    (resolve ts assm szClass s).map fun res => ⟨if s.arrayType then 1 else 0, res⟩
  else none

/-! ## Full names -/

/-- The own part of a full name. -/
def TypeRecord.qualified (td : TypeRecord) : Text := td.nameSpacePart ++ td.name

/-- A type of an assembly lies in `root`, through the types of a path that ends with it. -/
inductive Nested (assm : Assembly) (root : TypeRecord) : ℕ → ℕ → List (ℕ × TypeRecord) → Prop
  | top {i} (h : assm.typeDefs[i]? = some root) (hout : root.enclosingType = none) :
      Nested assm root i i []
  | inner {r i j path td} (hpath : Nested assm root r j path)
      (h : assm.typeDefs[i]? = some td) (hin : td.enclosingType = some j) :
      Nested assm root r i (path ++ [(i, td)])

def fullName (root : TypeRecord) (path : List (ℕ × TypeRecord)) : Text :=
  root.qualified ++ path.flatMap fun t => '+' :: t.2.qualified

variable {ts : TypeSystem} {assm : Assembly} {root : TypeRecord} {path : List (ℕ × TypeRecord)}

theorem fullName_snoc (t : ℕ × TypeRecord) :
    fullName root (path ++ [t]) = fullName root path ++ '+' :: t.2.qualified := by
  simp [fullName]

theorem nested_of_buildTypeName {depth levels : ℕ} {cls : TypeIndex} {name : Text}
    (h : buildTypeName ts true false depth cls levels = some name) :
    ∃ assm root r path, ts[cls.assembly]? = some assm ∧ Nested assm root r cls.type path ∧
      name = fullName root path ++ brackets levels := by
  induction depth generalizing cls levels name with
  | zero => simp [buildTypeName] at h
  | succ depth ih =>
      rw [buildTypeName] at h
      obtain ⟨td, htd, h⟩ := Option.bind_eq_some_iff.mp h
      obtain ⟨assm, hassm, htype⟩ := Option.bind_eq_some_iff.mp htd
      cases henc : td.enclosingType with
      | none =>
          simp only [if_true, henc, Option.some.injEq] at h
          subst h
          exact ⟨assm, td, cls.type, [], hassm, .top htype henc, by
            simp [fullName, TypeRecord.qualified]⟩
      | some enclosing =>
          simp only [if_true, henc] at h
          obtain ⟨outer, houter, rfl⟩ := Option.map_eq_some_iff.mp h
          obtain ⟨assm', root, r, path, hassm', hpath, rfl⟩ := ih houter
          obtain rfl := Option.some.inj (hassm.symm.trans hassm')
          refine ⟨assm, root, r, path ++ [(cls.type, td)], hassm, .inner hpath htype henc, ?_⟩
          simp [fullName_snoc, brackets, TypeRecord.qualified]

theorem Nested.unique {root' : TypeRecord} {path' : List (ℕ × TypeRecord)} {r r' i : ℕ}
    (h : Nested assm root r i path) (h' : Nested assm root' r' i path') :
    root = root' ∧ r = r' ∧ path = path' := by
  induction h generalizing root' r' path' with
  | top hi hout =>
      cases h' with
      | top hi' _ => exact ⟨Option.some.inj (hi.symm.trans hi'), rfl, rfl⟩
      | inner _ hi' hin =>
          obtain rfl := Option.some.inj (hi.symm.trans hi')
          simp [hout] at hin
  | inner _ hi hin ih =>
      cases h' with
      | top hi' hout =>
          obtain rfl := Option.some.inj (hi.symm.trans hi')
          simp [hout] at hin
      | inner hpath' hi' hin' =>
          obtain rfl := Option.some.inj (hi.symm.trans hi')
          obtain rfl := Option.some.inj (hin.symm.trans hin')
          obtain ⟨rfl, rfl, rfl⟩ := ih hpath'
          exact ⟨rfl, rfl, rfl⟩

end TinyCLR.TypeName
