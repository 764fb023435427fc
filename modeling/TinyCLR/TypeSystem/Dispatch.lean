import Mathlib
import TinyCLR.TypeSystem.VirtualMethod

/-!
# Dispatch by the rules of the common language infrastructure

The slots of virtual methods and the implementations of interface methods, and where
`CLR_RT_TypeSystem::FindVirtualMethodDef` finds the method that these rules select.
-/

namespace TinyCLR

/-- The loaded assemblies with the metadata that the rules of dispatch read besides. Matching
compares the elements of two signatures for equality. -/
structure DispatchSystem extends TypeSystem where
  /-- `MD_NewSlot`: "Method always gets a new slot in the vtable." -/
  isNewSlot : MethodDefIndex → Bool
  isPublic : MethodDefIndex → Bool
  interfaces : TypeDefIndex → List TypeDefIndex
  extends_class : ∀ cls parent, (typeDef cls).extendsType = some parent →
    (typeDef parent).isInterface = false
  owner_eq : ∀ cls : TypeDefIndex, ∀ m ∈ (typeDef cls).methods,
    owner ⟨cls.assembly, m⟩ = cls.type
  match_symm : ∀ m t, matchSignature m t = true → matchSignature t m = true
  match_trans : ∀ m t s, matchSignature m t = true → matchSignature t s = true →
    matchSignature m s = true
  match_numArgs : ∀ m t, matchSignature m t = true →
    (methodDef t).numArgs = (methodDef m).numArgs

namespace TypeSystem

variable (ts : TypeSystem)

/-- The methods of a type that `FindVirtualMethodDef` looks at. -/
def methodsOf (cls : TypeDefIndex) : List MethodDefIndex :=
  (ts.typeDef cls).methods.map fun m => ⟨cls.assembly, m⟩

/-- The virtual methods stand in front. -/
def virtualMethodsOf (cls : TypeDefIndex) : List MethodDefIndex :=
  (ts.methodsOf cls).take (ts.typeDef cls).vMethodsNum

def chainFrom : ℕ → TypeDefIndex → List TypeDefIndex
  | 0, _ => []
  | n + 1, cls => cls :: ((ts.typeDef cls).extendsType.elim [] (chainFrom n))

/-- A class and those it inherits from, the most derived first. -/
def chain (cls : TypeDefIndex) : List TypeDefIndex :=
  ts.chainFrom (ts.depth cls + 1) cls

/-- A concrete method with this name and the signature of `m`. -/
def Answers (m : MethodDefIndex) (name : String) (t : MethodDefIndex) : Prop :=
  (ts.methodDef t).isAbstract = false ∧ (ts.methodDef t).name = name ∧
    ts.matchSignature m t = true

/-- What the loop of `FindVirtualMethodDef` stops at. -/
def Hit (m : MethodDefIndex) (name : String) (t : MethodDefIndex) : Prop :=
  t = m ∨ ((ts.methodDef t).numArgs = (ts.methodDef m).numArgs ∧
    (ts.methodDef t).isAbstract = false ∧ (ts.methodDef t).name = name ∧
    ts.matchSignature m t = true)

instance (m : MethodDefIndex) (name : String) : DecidablePred (ts.Answers m name) :=
  fun _ => inferInstanceAs (Decidable (_ ∧ _))

instance (m : MethodDefIndex) (name : String) : DecidablePred (ts.Hit m name) :=
  fun _ => inferInstanceAs (Decidable (_ ∨ _))

theorem findAmongMethods_eq (m : MethodDefIndex) (name : String) (assembly : UInt16)
    (ms : List UInt16) : ts.findAmongMethods m name assembly ms =
      (ms.map fun k => (⟨assembly, k⟩ : MethodDefIndex)).find? fun t => ts.Hit m name t := by
  induction ms with
  | nil => rfl
  | cons k ms ih =>
      rw [findAmongMethods, List.map_cons, List.find?_cons]
      by_cases hsame : (⟨assembly, k⟩ : MethodDefIndex) = m
      · have hhit : ts.Hit m name ⟨assembly, k⟩ := Or.inl hsame
        rw [if_pos hsame, decide_eq_true hhit, hsame]
      · rw [if_neg hsame]
        split
        · rename_i h
          have hhit : ts.Hit m name ⟨assembly, k⟩ := Or.inr h
          rw [decide_eq_true hhit]
        · rename_i h
          have hmiss : ¬ts.Hit m name ⟨assembly, k⟩ := not_or.mpr ⟨hsame, h⟩
          rw [decide_eq_false hmiss, ih]

theorem chainFrom_succ (n : ℕ) {cls parent : TypeDefIndex}
    (h : (ts.typeDef cls).extendsType = some parent) :
    ts.chainFrom (n + 1) cls = cls :: ts.chainFrom n parent := by
  rw [chainFrom, h, Option.elim_some]

theorem chainFrom_none (n : ℕ) {cls : TypeDefIndex} (h : (ts.typeDef cls).extendsType = none) :
    ts.chainFrom (n + 1) cls = [cls] := by
  rw [chainFrom, h, Option.elim_none]

/-- The length of a chain is bounded by the depth of its class. -/
theorem chainFrom_eq {n k : ℕ} {cls : TypeDefIndex} (hn : ts.depth cls < n)
    (hk : ts.depth cls < k) : ts.chainFrom n cls = ts.chainFrom k cls := by
  induction n generalizing k cls with
  | zero => exact absurd hn (Nat.not_lt_zero _)
  | succ n ih =>
      cases k with
      | zero => exact absurd hk (Nat.not_lt_zero _)
      | succ k =>
          cases h : (ts.typeDef cls).extendsType with
          | none => rw [chainFrom_none ts n h, chainFrom_none ts k h]
          | some parent =>
              have hlt := ts.extends_depth cls parent h
              rw [chainFrom_succ ts n h, chainFrom_succ ts k h]
              exact congrArg (cls :: ·) (ih (by omega) (by omega))

theorem chain_some {cls parent : TypeDefIndex} (h : (ts.typeDef cls).extendsType = some parent) :
    ts.chain cls = cls :: ts.chain parent := by
  have hlt := ts.extends_depth cls parent h
  rw [chain, chainFrom_succ ts _ h, chain, chainFrom_eq ts hlt (Nat.lt_succ_self _)]

theorem chain_none {cls : TypeDefIndex} (h : (ts.typeDef cls).extendsType = none) :
    ts.chain cls = [cls] := chainFrom_none ts _ h

/-- What holds of a class when it holds of its parent holds of every class. -/
theorem chain_induction {P : TypeDefIndex → Prop}
    (root : ∀ cls, (ts.typeDef cls).extendsType = none → P cls)
    (derived : ∀ cls parent, (ts.typeDef cls).extendsType = some parent → P parent → P cls)
    (cls : TypeDefIndex) : P cls := by
  induction hd : ts.depth cls using Nat.strong_induction_on generalizing cls with
  | _ d ih =>
      cases h : (ts.typeDef cls).extendsType with
      | none => exact root cls h
      | some parent =>
          apply derived cls parent h
          exact ih _ (hd ▸ ts.extends_depth cls parent h) parent rfl

theorem findVirtualMethodNamed_eq (cls : TypeDefIndex) (m : MethodDefIndex) (name : String) :
    ts.findVirtualMethodNamed cls m name =
      (ts.chain cls).findSome? fun d => (ts.methodsOf d).find? fun t => ts.Hit m name t := by
  induction cls using ts.chain_induction with
  | root cls h =>
      rw [findVirtualMethodNamed, chain_none ts h, findAmongMethods_eq, List.findSome?_singleton,
        methodsOf]
      split
      · rename_i hfound
        exact hfound.symm
      · rename_i hfound
        rw [hfound]
        split
        · rfl
        · rename_i hparent
          rw [h] at hparent
          cases hparent
  | derived cls parent h ih =>
      rw [findVirtualMethodNamed, chain_some ts h, findAmongMethods_eq, List.findSome?_cons,
        methodsOf]
      split
      · rename_i hfound
        rw [hfound]
      · rename_i hfound
        rw [hfound]
        split
        · rename_i hparent
          rw [h] at hparent
          cases hparent
        · rename_i parent' hparent
          rw [h, Option.some.injEq] at hparent
          rw [← hparent, ih]

/-- Each class of a chain is deeper than those behind it. -/
theorem chain_depth (cls : TypeDefIndex) :
    (ts.chain cls).Pairwise fun d e => ts.depth e < ts.depth d := by
  have hhead : ∀ cls, ∀ d ∈ ts.chain cls, ts.depth d ≤ ts.depth cls := by
    intro cls
    induction cls using ts.chain_induction with
    | root cls h => simp [chain_none ts h]
    | derived cls parent h ih =>
        intro d hd
        rw [chain_some ts h, List.mem_cons] at hd
        cases hd with
        | inl hd => exact hd ▸ le_rfl
        | inr hd => exact (ih d hd).trans (ts.extends_depth cls parent h).le
  induction cls using ts.chain_induction with
  | root cls h =>
      rw [chain_none ts h]
      exact List.pairwise_singleton _ _
  | derived cls parent h ih =>
      rw [chain_some ts h, List.pairwise_cons]
      exact ⟨fun d hd => (hhead parent d hd).trans_lt (ts.extends_depth cls parent h), ih⟩

end TypeSystem

namespace DispatchSystem

variable (ts : DispatchSystem)

/-- The method of a class that has the slot of `m` or one like it. -/
def slotMember (m : MethodDefIndex) (cls : TypeDefIndex) : Option MethodDefIndex :=
  (ts.virtualMethodsOf cls).find? fun t =>
    t = m ∨ ((ts.methodDef t).name = (ts.methodDef m).name ∧ ts.matchSignature m t = true)

def slotMembers (cls : TypeDefIndex) (m : MethodDefIndex) : List MethodDefIndex :=
  (ts.chain cls).filterMap (ts.slotMember m)

/-- The first of these methods, the most derived in front, is in the slot of `m`: neither it nor
one between them opens a new slot. -/
def inSlot (m : MethodDefIndex) : List MethodDefIndex → Bool
  | [] => false
  | t :: rest => t = m || (!ts.isNewSlot t && inSlot m rest)

/-- The most derived override. -/
def slotImplementation (m : MethodDefIndex) : List MethodDefIndex → Option MethodDefIndex
  | [] => none
  | t :: rest => if ts.inSlot m (t :: rest) then some t else slotImplementation m rest

/-- The compiler gives an explicit implementation this name; the metadata have no other mark. -/
def explicitFullName (m : MethodDefIndex) : String :=
  (ts.typeDef (ts.ownerType m)).fullName ++ "." ++ (ts.methodDef m).name

def explicitImplementation (cls : TypeDefIndex) (m : MethodDefIndex) : Option MethodDefIndex :=
  (ts.chain cls).findSome? fun d =>
    (ts.virtualMethodsOf d).find? fun t => ts.Answers m (ts.explicitFullName m) t

/-- The most derived class that lists the interface takes the first public virtual method with
this name and signature, its own or an inherited one. -/
def implicitImplementation (cls : TypeDefIndex) (m : MethodDefIndex) : Option MethodDefIndex :=
  ((ts.chain cls).dropWhile fun d => ts.ownerType m ∉ ts.interfaces d).findSome? fun d =>
    (ts.virtualMethodsOf d).find? fun t => ts.isPublic t ∧
      (ts.methodDef t).name = (ts.methodDef m).name ∧ ts.matchSignature m t = true

/-- The method that the rules select for a call of `m` on an object of class `cls`. -/
def selected (cls : TypeDefIndex) (m : MethodDefIndex) : Option MethodDefIndex :=
  if (ts.typeDef (ts.ownerType m)).isInterface then
    match ts.explicitImplementation cls m with
    | some t => some t
    | none => (ts.implicitImplementation cls m).bind fun t =>
        ts.slotImplementation t (ts.slotMembers cls t)
  else ts.slotImplementation m (ts.slotMembers cls m)

/-- A class more derived than that of `s` has an instance method, virtual or not, with this name
and the signature of `m`. -/
def Hidden (cls : TypeDefIndex) (m : MethodDefIndex) (name : String) (s : MethodDefIndex) : Prop :=
  ∃ d ∈ (ts.chain cls).takeWhile (· ≠ ts.ownerType s), ∃ t ∈ ts.methodsOf d, ts.Answers m name t

/-- Where `FindVirtualMethodDef` finds the selected method `s`. A buffer of 512 characters holds
the name of an explicit implementation. -/
def Meets (cls : TypeDefIndex) (m s : MethodDefIndex) : Prop :=
  if (ts.typeDef (ts.ownerType m)).isInterface then
    if (ts.methodDef s).name = ts.explicitFullName m then
      (ts.explicitFullName m).length ≤ 511 ∧ ¬ts.Hidden cls m (ts.explicitFullName m) s
    else
      (ts.explicitName m = (ts.methodDef m).name ∨
        ∀ d ∈ ts.chain cls, ∀ t ∈ ts.methodsOf d, ¬ts.Answers m (ts.explicitName m) t) ∧
      (ts.methodDef s).isAbstract = false ∧ ¬ts.Hidden cls m (ts.methodDef m).name s
  else
    (s = m ∨ (ts.methodDef s).isAbstract = false) ∧ ¬ts.Hidden cls m (ts.methodDef m).name s

variable {ts} {cls d : TypeDefIndex} {m t s : MethodDefIndex} {name : String}

theorem ownerType_of_mem (h : t ∈ ts.methodsOf d) : ts.ownerType t = d := by
  rw [TypeSystem.methodsOf, List.mem_map] at h
  obtain ⟨k, hk, rfl⟩ := h
  rw [TypeSystem.ownerType, ts.owner_eq d k hk]

theorem eq_of_match (ht : t ∈ ts.methodsOf d) (hs : s ∈ ts.methodsOf d)
    (hname : (ts.methodDef t).name = (ts.methodDef s).name)
    (hmatch : ts.matchSignature t s = true) : t = s := by
  rw [TypeSystem.methodsOf, List.mem_map] at ht hs
  obtain ⟨k, hk, rfl⟩ := ht
  obtain ⟨l, hl, rfl⟩ := hs
  rw [ts.distinct d k hk l hl hname hmatch]

theorem hit_iff : ts.Hit m name t ↔ t = m ∨ ts.Answers m name t := by
  apply or_congr_right
  constructor
  · exact fun h => h.2
  · exact fun h => ⟨ts.match_numArgs m t h.2.2, h⟩

/-- The loop over a class has one method to stop at. -/
theorem hit_unique (hname : m ∈ ts.methodsOf d → name = (ts.methodDef m).name)
    (ht : t ∈ ts.methodsOf d) (hs : s ∈ ts.methodsOf d) (hit : ts.Hit m name t)
    (his : ts.Hit m name s) : t = s := by
  rw [hit_iff] at hit his
  cases hit with
  | inl hit =>
      subst hit
      cases his with
      | inl his => exact his.symm
      | inr his => exact eq_of_match ht hs ((hname ht).symm.trans his.2.1.symm) his.2.2
  | inr hit =>
      cases his with
      | inl his =>
          subst his
          exact (eq_of_match hs ht ((hname hs).symm.trans hit.2.1.symm) hit.2.2).symm
      | inr his =>
          apply eq_of_match ht hs (hit.2.1.trans his.2.1.symm)
          exact ts.match_trans t m s (ts.match_symm m t hit.2.2) his.2.2

theorem hit_of_find (h : (ts.methodsOf d).find? (fun t => ts.Hit m name t) = some t) :
    t ∈ ts.methodsOf d ∧ ts.Hit m name t := by
  refine ⟨List.mem_of_find?_eq_some h, ?_⟩
  simpa using List.find?_some h

theorem findNamed_none : ts.findVirtualMethodNamed cls m name = none ↔
    ∀ d ∈ ts.chain cls, ∀ t ∈ ts.methodsOf d, ¬ts.Hit m name t := by
  rw [TypeSystem.findVirtualMethodNamed_eq, List.findSome?_eq_none_iff]
  simp only [List.find?_eq_none, decide_eq_true_eq]

theorem hit_of_findNamed (h : ts.findVirtualMethodNamed cls m name = some s) :
    ts.Hit m name s := by
  rw [TypeSystem.findVirtualMethodNamed_eq] at h
  obtain ⟨d, _, hd⟩ := List.exists_of_findSome?_eq_some h
  exact (hit_of_find hd).2

/-- A method that the loop stops at is found when no class in front of its own has another. -/
theorem findNamed_iff (hname : ∀ d ∈ ts.chain cls, m ∈ ts.methodsOf d →
      name = (ts.methodDef m).name)
    (howner : ts.ownerType s ∈ ts.chain cls) (hs : s ∈ ts.methodsOf (ts.ownerType s))
    (hit : ts.Hit m name s) :
    ts.findVirtualMethodNamed cls m name = some s ↔
      ∀ d ∈ (ts.chain cls).takeWhile (· ≠ ts.ownerType s), ∀ t ∈ ts.methodsOf d,
        ¬ts.Hit m name t := by
  have hown : (ts.methodsOf (ts.ownerType s)).find? (fun t => ts.Hit m name t) = some s := by
    have hsome : ((ts.methodsOf (ts.ownerType s)).find? fun t => ts.Hit m name t).isSome := by
      rw [List.find?_isSome]
      exact ⟨s, hs, decide_eq_true hit⟩
    obtain ⟨t, ht⟩ := Option.isSome_iff_exists.mp hsome
    rw [ht, hit_unique (hname _ howner) (hit_of_find ht).1 hs (hit_of_find ht).2 hit]
  rw [TypeSystem.findVirtualMethodNamed_eq]
  generalize ts.chain cls = chain at howner
  induction chain with
  | nil => cases howner
  | cons e chain ih =>
      rw [List.findSome?_cons, List.takeWhile_cons]
      by_cases he : e = ts.ownerType s
      · rw [he, hown, if_neg (by simp)]
        exact iff_of_true rfl fun d hd => absurd hd List.not_mem_nil
      · have hbehind : ts.ownerType s ∈ chain :=
          (List.mem_cons.mp howner).resolve_left (Ne.symm he)
        rw [if_pos (by simpa using he), List.forall_mem_cons]
        apply Iff.trans _ (and_congr_right' (ih hbehind))
        cases hfind : (ts.methodsOf e).find? fun t => ts.Hit m name t with
        | none =>
            simp only [List.find?_eq_none, decide_eq_true_eq] at hfind
            exact (and_iff_right hfind).symm
        | some t =>
            obtain ⟨hmem, hhit⟩ := hit_of_find hfind
            constructor
            · intro h
              cases h
              exact absurd (ownerType_of_mem hmem).symm he
            · exact fun h => absurd hhit (h.1 t hmem)

theorem mem_slotMembers (h : s ∈ ts.slotMembers cls m) :
    ts.ownerType s ∈ ts.chain cls ∧ s ∈ ts.methodsOf (ts.ownerType s) ∧
      (s = m ∨ ((ts.methodDef s).name = (ts.methodDef m).name ∧
        ts.matchSignature m s = true)) := by
  rw [slotMembers, List.mem_filterMap] at h
  obtain ⟨d, hd, hmember⟩ := h
  have hmem : s ∈ ts.methodsOf d := List.mem_of_mem_take (List.mem_of_find?_eq_some hmember)
  have howner := ownerType_of_mem hmem
  rw [howner]
  refine ⟨hd, hmem, ?_⟩
  simpa using List.find?_some hmember

theorem slotMembers_depth (cls : TypeDefIndex) (m : MethodDefIndex) :
    (ts.slotMembers cls m).Pairwise fun t u =>
      ts.depth (ts.ownerType u) < ts.depth (ts.ownerType t) := by
  apply (ts.chain_depth cls).filterMap
  intro d e hlt t ht u hu
  rw [ownerType_of_mem (List.mem_of_mem_take (List.mem_of_find?_eq_some ht)),
    ownerType_of_mem (List.mem_of_mem_take (List.mem_of_find?_eq_some hu))]
  exact hlt

theorem mem_of_inSlot {l : List MethodDefIndex} (h : ts.inSlot m l = true) : m ∈ l := by
  induction l with
  | nil => cases h
  | cons t rest ih =>
      rw [inSlot, Bool.or_eq_true, decide_eq_true_eq, Bool.and_eq_true] at h
      cases h with
      | inl h => exact h ▸ List.mem_cons_self
      | inr h => exact List.mem_cons_of_mem t (ih h.2)

/-- The method stands behind its most derived override. -/
theorem slotImplementation_split {l : List MethodDefIndex}
    (h : ts.slotImplementation m l = some s) :
    ∃ front rest, l = front ++ s :: rest ∧ m ∈ s :: rest := by
  induction l with
  | nil => cases h
  | cons t l ih =>
      rw [slotImplementation] at h
      split at h
      · rename_i hslot
        cases h
        exact ⟨[], l, rfl, mem_of_inSlot hslot⟩
      · obtain ⟨front, rest, hl, hm⟩ := ih h
        exact ⟨t :: front, rest, congrArg (t :: ·) hl, hm⟩

theorem slotImplementation_mem (h : ts.slotImplementation m (ts.slotMembers cls m) = some s) :
    s ∈ ts.slotMembers cls m := by
  obtain ⟨front, rest, hl, _⟩ := slotImplementation_split h
  rw [hl]
  exact List.mem_append_right front List.mem_cons_self

/-- The classes in front of a class of the chain are deeper. -/
theorem depth_of_front {e : TypeDefIndex} (he : e ∈ ts.chain cls)
    (hd : d ∈ (ts.chain cls).takeWhile (· ≠ e)) : ts.depth e < ts.depth d := by
  have hchain := ts.chain_depth cls
  generalize ts.chain cls = chain at he hd hchain
  induction chain with
  | nil => cases he
  | cons c chain ih =>
      rw [List.pairwise_cons] at hchain
      rw [List.takeWhile_cons] at hd
      split at hd
      · rename_i hne
        have he' : e ∈ chain := (List.mem_cons.mp he).resolve_left
          (Ne.symm (of_decide_eq_true hne))
        cases List.mem_cons.mp hd with
        | inl hd => exact hd ▸ hchain.1 e he'
        | inr hd => exact ih he' hd hchain.2
      · cases hd

/-- No class in front of an override has the overridden method. -/
theorem not_mem_front (h : ts.slotImplementation m (ts.slotMembers cls m) = some s)
    (hd : d ∈ (ts.chain cls).takeWhile (· ≠ ts.ownerType s)) : m ∉ ts.methodsOf d := by
  intro hm
  have hdeep := depth_of_front (mem_slotMembers (slotImplementation_mem h)).1 hd
  rw [← ownerType_of_mem hm] at hdeep
  obtain ⟨front, rest, hl, hmem⟩ := slotImplementation_split h
  have hpair : (ts.slotMembers cls m).Pairwise _ := slotMembers_depth cls m
  rw [hl, List.pairwise_append, List.pairwise_cons] at hpair
  cases List.mem_cons.mp hmem with
  | inl hmem =>
      rw [hmem] at hdeep
      exact lt_irrefl _ hdeep
  | inr hmem => exact lt_asymm hdeep (hpair.2.1.1 m hmem)

theorem front_iff (hfront : ∀ d ∈ (ts.chain cls).takeWhile (· ≠ ts.ownerType s),
      m ∉ ts.methodsOf d) :
    (∀ d ∈ (ts.chain cls).takeWhile (· ≠ ts.ownerType s), ∀ t ∈ ts.methodsOf d,
      ¬ts.Hit m name t) ↔ ¬ts.Hidden cls m name s := by
  rw [Hidden]
  push Not
  apply forall_congr'
  intro d
  apply forall_congr'
  intro hd
  apply forall_congr'
  intro t
  apply forall_congr'
  intro ht
  rw [hit_iff, or_iff_right]
  exact fun h => hfront d hd (h ▸ ht)

/-- For a class method the search is right unless the method is hidden or abstract. -/
theorem class_iff (hm : (ts.typeDef (ts.ownerType m)).isInterface = false)
    (h : ts.selected cls m = some s) :
    ts.findVirtualMethodDef cls m = some s ↔ ts.Meets cls m s := by
  rw [selected, if_neg (by simp [hm])] at h
  rw [TypeSystem.findVirtualMethodDef, if_neg (by simp [hm]), Meets, if_neg (by simp [hm])]
  obtain ⟨howner, hs, hrelated⟩ := mem_slotMembers (slotImplementation_mem h)
  have hhit : ts.Hit m (ts.methodDef m).name s ↔
      s = m ∨ (ts.methodDef s).isAbstract = false := by
    rw [hit_iff]
    cases hrelated with
    | inl hsame => exact iff_of_true (Or.inl hsame) (Or.inl hsame)
    | inr hrelated =>
        apply or_congr_right
        exact and_iff_left hrelated
  rw [← hhit, ← front_iff fun d hd => not_mem_front h hd]
  constructor
  · intro hfind
    have hit := hit_of_findNamed hfind
    exact ⟨hit, (findNamed_iff (fun _ _ _ => rfl) howner hs hit).mp hfind⟩
  · exact fun hmeets => (findNamed_iff (fun _ _ _ => rfl) howner hs hmeets.1).mpr hmeets.2

theorem chain_class (hclass : (ts.typeDef cls).isInterface = false) :
    ∀ d ∈ ts.chain cls, (ts.typeDef d).isInterface = false := by
  induction cls using ts.chain_induction with
  | root cls h => simpa [TypeSystem.chain_none ts.toTypeSystem h] using hclass
  | derived cls parent h ih =>
      rw [TypeSystem.chain_some ts.toTypeSystem h, List.forall_mem_cons]
      exact ⟨hclass, ih (ts.extends_class cls parent h)⟩

/-- No class has the methods of an interface. -/
theorem not_mem_class (hclass : (ts.typeDef cls).isInterface = false)
    (hm : (ts.typeDef (ts.ownerType m)).isInterface = true) :
    ∀ d ∈ ts.chain cls, m ∉ ts.methodsOf d := by
  intro d hd hmem
  have := chain_class hclass d hd
  rw [← ownerType_of_mem hmem, hm] at this
  cases this

theorem explicitName_eq (h : (ts.explicitFullName m).length ≤ 511) :
    ts.explicitName m = ts.explicitFullName m := by
  rw [explicitFullName] at h ⊢
  rw [TypeSystem.explicitName, List.take_of_length_le (by rwa [String.length_toList]),
    String.ofList_toList]

theorem length_explicitName_le : (ts.explicitName m).length ≤ 511 := by
  rw [TypeSystem.explicitName, String.length_ofList]
  exact List.length_take_le _ _

theorem name_ne_explicitFullName : (ts.methodDef m).name ≠ ts.explicitFullName m := by
  intro h
  have := congrArg String.length h
  rw [explicitFullName, String.length_append, String.length_append,
    show ".".length = 1 from rfl] at this
  omega

theorem findVirtualMethodDef_interface (hm : (ts.typeDef (ts.ownerType m)).isInterface = true) :
    ts.findVirtualMethodDef cls m =
      (ts.findVirtualMethodNamed cls m (ts.explicitName m)).or
        (ts.findVirtualMethodNamed cls m (ts.methodDef m).name) := by
  rw [TypeSystem.findVirtualMethodDef, if_pos hm]
  cases ts.findVirtualMethodNamed cls m (ts.explicitName m) <;> rfl

/-- An explicit implementation is found by its name. -/
theorem explicit_iff (hclass : (ts.typeDef cls).isInterface = false)
    (hm : (ts.typeDef (ts.ownerType m)).isInterface = true)
    (h : ts.explicitImplementation cls m = some s) :
    ts.findVirtualMethodDef cls m = some s ↔ ts.Meets cls m s := by
  obtain ⟨d, hd, hfirst⟩ := List.exists_of_findSome?_eq_some h
  have hs : s ∈ ts.methodsOf d := List.mem_of_mem_take (List.mem_of_find?_eq_some hfirst)
  have hanswers : ts.Answers m (ts.explicitFullName m) s := by
    simpa using List.find?_some hfirst
  have hno := not_mem_class hclass hm
  have hne : s ≠ m := fun h => hno d hd (h ▸ hs)
  rw [← ownerType_of_mem hs] at hd hs
  rw [findVirtualMethodDef_interface hm, Meets, if_pos hm, if_pos hanswers.2.1]
  by_cases hfits : (ts.explicitFullName m).length ≤ 511
  · have hhit : ts.Hit m (ts.explicitFullName m) s := hit_iff.mpr (Or.inr hanswers)
    have hsome : ts.findVirtualMethodNamed cls m (ts.explicitFullName m) ≠ none :=
      fun hnone => findNamed_none.mp hnone _ hd s hs hhit
    rw [explicitName_eq hfits, Option.or_of_isSome (Option.isSome_iff_ne_none.mpr hsome),
      findNamed_iff (fun e he hmem => absurd hmem (hno e he)) hd hs hhit,
      front_iff fun e he => hno e (List.takeWhile_subset _ he)]
    exact (and_iff_right hfits).symm
  · refine iff_of_false ?_ fun hmeets => hfits hmeets.1
    intro hfind
    have hname : (ts.methodDef s).name = ts.explicitName m ∨
        (ts.methodDef s).name = (ts.methodDef m).name := by
      cases Option.or_eq_some_iff.mp hfind with
      | inl hfind => exact Or.inl ((hit_iff.mp (hit_of_findNamed hfind)).resolve_left hne).2.1
      | inr hfind =>
          exact Or.inr ((hit_iff.mp (hit_of_findNamed hfind.2)).resolve_left hne).2.1
    rw [hanswers.2.1] at hname
    cases hname with
    | inl hname => exact hfits (hname ▸ length_explicitName_le)
    | inr hname => exact name_ne_explicitFullName hname.symm

/-- The override of an implicit implementation has the name and the signature of the interface
method. -/
theorem implicit_spec (h : ts.implicitImplementation cls m = some t)
    (hslot : ts.slotImplementation t (ts.slotMembers cls t) = some s) :
    (ts.methodDef s).name = (ts.methodDef m).name ∧ ts.matchSignature m s = true := by
  obtain ⟨d, _, hfirst⟩ := List.exists_of_findSome?_eq_some h
  have hfound : ts.isPublic t = true ∧ (ts.methodDef t).name = (ts.methodDef m).name ∧
      ts.matchSignature m t = true := by
    simpa using List.find?_some hfirst
  cases (mem_slotMembers (slotImplementation_mem hslot)).2.2 with
  | inl hsame => exact hsame ▸ hfound.2
  | inr hrelated =>
      exact ⟨hrelated.1.trans hfound.2.1, ts.match_trans m t s hfound.2.2 hrelated.2⟩

/-- An implicit implementation is found when no method has the explicit name, and it is neither
hidden nor abstract. -/
theorem implicit_iff (hclass : (ts.typeDef cls).isInterface = false)
    (hm : (ts.typeDef (ts.ownerType m)).isInterface = true)
    (h : ts.implicitImplementation cls m = some t)
    (hslot : ts.slotImplementation t (ts.slotMembers cls t) = some s) :
    ts.findVirtualMethodDef cls m = some s ↔ ts.Meets cls m s := by
  obtain ⟨howner, hs, _⟩ := mem_slotMembers (slotImplementation_mem hslot)
  have hrelated := implicit_spec h hslot
  have hno := not_mem_class hclass hm
  have hhit : ts.Hit m (ts.methodDef m).name s ↔ (ts.methodDef s).isAbstract = false := by
    rw [hit_iff, or_iff_right fun hsame : s = m => hno _ howner (hsame ▸ hs)]
    exact and_iff_left hrelated
  have hplain : ts.findVirtualMethodNamed cls m (ts.methodDef m).name = some s ↔
      (ts.methodDef s).isAbstract = false ∧ ¬ts.Hidden cls m (ts.methodDef m).name s := by
    rw [← hhit, ← front_iff fun d hd => hno d (List.takeWhile_subset _ hd)]
    constructor
    · intro hfind
      have hit := hit_of_findNamed hfind
      exact ⟨hit, (findNamed_iff (fun _ _ _ => rfl) howner hs hit).mp hfind⟩
    · exact fun hmeets => (findNamed_iff (fun _ _ _ => rfl) howner hs hmeets.1).mpr hmeets.2
  rw [findVirtualMethodDef_interface hm, Meets, if_pos hm,
    if_neg (hrelated.1 ▸ name_ne_explicitFullName), ← hplain]
  by_cases hsame : ts.explicitName m = (ts.methodDef m).name
  · rw [hsame, Option.or_self]
    exact (and_iff_right (Or.inl rfl)).symm
  · cases hfind : ts.findVirtualMethodNamed cls m (ts.explicitName m) with
    | none =>
        rw [Option.none_or]
        refine (and_iff_right (Or.inr fun d hd t ht hanswers => ?_)).symm
        exact findNamed_none.mp hfind d hd t ht (hit_iff.mpr (Or.inr hanswers))
    | some u =>
        rw [Option.some_or]
        have hit := hit_of_findNamed hfind
        rw [TypeSystem.findVirtualMethodNamed_eq] at hfind
        obtain ⟨d, hd, hfound⟩ := List.exists_of_findSome?_eq_some hfind
        have hu := (hit_of_find hfound).1
        have hanswers := (hit_iff.mp hit).resolve_left fun hsame => hno d hd (hsame ▸ hu)
        apply iff_of_false
        · intro hus
          cases hus
          exact hsame (hanswers.2.1.symm.trans hrelated.1)
        · exact fun hmeets => (hmeets.1.resolve_left hsame) d hd u hu hanswers

theorem selected_iff (hclass : (ts.typeDef cls).isInterface = false)
    (h : ts.selected cls m = some s) :
    ts.findVirtualMethodDef cls m = some s ↔ ts.Meets cls m s := by
  cases hm : (ts.typeDef (ts.ownerType m)).isInterface with
  | false => exact class_iff hm h
  | true =>
      rw [selected, if_pos hm] at h
      cases hexplicit : ts.explicitImplementation cls m with
      | some t =>
          rw [hexplicit] at h
          cases h
          exact explicit_iff hclass hm hexplicit
      | none =>
          rw [hexplicit] at h
          obtain ⟨t, ht, hslot⟩ := Option.bind_eq_some_iff.mp h
          exact implicit_iff hclass hm ht hslot

/-- A class with a virtual method, and a class that hides it by a method that is not virtual. -/
def hidingSystem : DispatchSystem where
  typeDef cls :=
    { fullName := if cls = ⟨1, 1⟩ then "B" else "A"
      isInterface := false
      extendsType := if cls = ⟨1, 1⟩ then some ⟨1, 0⟩ else none
      methodsFirst := cls.type
      vMethodsNum := if cls = ⟨1, 0⟩ then 1 else 0
      iMethodsNum := if cls = ⟨1, 1⟩ then 1 else 0 }
  methodDef _ := ⟨"F", 1, false⟩
  owner md := md.method
  matchSignature _ _ := true
  depth cls := if cls = ⟨1, 1⟩ then 1 else 0
  extends_depth cls parent h := by
    split at h
    · rename_i hcls
      cases h
      rw [if_pos hcls]
      decide
    · cases h
  abstract_mem _ h := by cases h
  distinct cls m hm m' hm' _ _ := by
    by_cases h0 : cls = ⟨1, 0⟩
    · subst h0
      simp_all [TypeDef.methods]
    · by_cases h1 : cls = ⟨1, 1⟩
      · subst h1
        simp_all [TypeDef.methods]
      · simp [TypeDef.methods, h0, h1] at hm
  interface_abstract _ h := by cases h
  isNewSlot md := md = ⟨1, 1⟩
  isPublic _ := true
  interfaces _ := []
  extends_class _ _ _ := rfl
  owner_eq cls m hm := by
    by_cases h0 : cls = ⟨1, 0⟩
    · subst h0
      simpa [TypeDef.methods] using hm
    · by_cases h1 : cls = ⟨1, 1⟩
      · subst h1
        simpa [TypeDef.methods] using hm
      · simp [TypeDef.methods, h0, h1] at hm
  match_symm _ _ _ := rfl
  match_trans _ _ _ _ _ := rfl
  match_numArgs _ _ _ := rfl

end DispatchSystem

end TinyCLR
