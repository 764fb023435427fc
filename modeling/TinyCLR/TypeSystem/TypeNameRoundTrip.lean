import Mathlib
import TinyCLR.TypeSystem.TypeName

/-!
# Names of types and back

Which full names lead back to the type that they were built from: names in a namespace, of a type
that is nested or an array of one level, but not both.
-/

namespace TinyCLR.TypeName

variable {ts : TypeSystem} {assm : Assembly} {root : TypeRecord} {path : List (ℕ × TypeRecord)}

section Scan

theorem scan_plain (reflection : Bool) {s : Text} (hs : ∀ c ∈ s, c ≠ '.' ∧ c ≠ '+' ∧ c ≠ '[')
    (rest : Text) (pos : ℕ) (dot : Option ℕ) :
    scan reflection (s ++ rest) pos dot = scan reflection rest (pos + s.length) dot := by
  induction s generalizing pos with
  | nil => rfl
  | cons c s ih =>
      obtain ⟨⟨hdot, hplus, hopen⟩, hs⟩ := List.forall_mem_cons.mp hs
      rw [List.cons_append, scan, if_neg hdot, if_neg hplus, if_neg (by tauto), ih hs]
      congr 1
      simp only [List.length_cons]
      omega

/-- Dots before the last one do not matter. -/
theorem scan_dot (reflection : Bool) {s : Text} (hs : ∀ c ∈ s, c ≠ '+' ∧ c ≠ '[')
    (rest : Text) (pos : ℕ) (dot : Option ℕ) :
    scan reflection (s ++ '.' :: rest) pos dot =
      scan reflection rest (pos + s.length + 1) (some (pos + s.length)) := by
  induction s generalizing pos dot with
  | nil => rfl
  | cons c s ih =>
      obtain ⟨⟨hplus, hopen⟩, hs⟩ := List.forall_mem_cons.mp hs
      rw [List.cons_append, scan]
      have hlen : pos + 1 + s.length = pos + (c :: s).length := by
        simp only [List.length_cons]
        omega
      by_cases hdot : c = '.'
      · rw [if_pos hdot, ih hs, hlen]
      · rw [if_neg hdot, if_neg hplus, if_neg (by tauto), ih hs, hlen]

def TypeRecord.dot (td : TypeRecord) : Option ℕ :=
  if td.nameSpace = [] then none else some td.nameSpace.length

theorem scan_qualified (reflection : Bool) (td : TypeRecord) (rest : Text) :
    scan reflection (td.qualified ++ rest) 0 none =
      scan reflection rest td.qualified.length td.dot := by
  unfold TypeRecord.qualified TypeRecord.nameSpacePart TypeRecord.dot
  by_cases hns : td.nameSpace = []
  · simp only [if_pos hns, List.nil_append]
    rw [scan_plain reflection td.name_plain, Nat.zero_add]
  · simp only [if_neg hns, List.append_assoc, List.cons_append, List.nil_append]
    rw [scan_dot reflection td.nameSpace_plain, scan_plain reflection td.name_plain]
    congr 1
    · simp only [List.length_append, List.length_cons]
      omega
    · simp

end Scan

section Lookup

theorem searchAssemblies_spec {found : Assembly → Option ℕ} {k : ℕ} {assms : List Assembly}
    {c : TypeIndex} (h : searchAssemblies found k assms = some c) :
    ∃ j assm, c.assembly = k + j ∧ assms[j]? = some assm ∧ found assm = some c.type := by
  induction assms generalizing k with
  | nil => simp [searchAssemblies] at h
  | cons a rest ih =>
      rw [searchAssemblies] at h
      cases ha : found a with
      | some i =>
          simp only [ha, Option.some.injEq] at h
          subst h
          exact ⟨0, a, rfl, rfl, ha⟩
      | none =>
          simp only [ha] at h
          obtain ⟨j, assm, hj, hassm, hfound⟩ := ih h
          exact ⟨j + 1, assm, by omega, hassm, hfound⟩

theorem searchAssemblies_isSome {found : Assembly → Option ℕ} {k j i : ℕ}
    {assms : List Assembly} (hassm : assms[j]? = some assm) (hfound : found assm = some i) :
    ∃ c, searchAssemblies found k assms = some c := by
  induction assms generalizing k j with
  | nil => simp at hassm
  | cons a rest ih =>
      rw [searchAssemblies]
      cases ha : found a with
      | some i => exact ⟨_, rfl⟩
      | none =>
          cases j with
          | zero =>
              obtain rfl : a = assm := by simpa using hassm
              simp [hfound] at ha
          | succ j => exact ih hassm

/-- What a lookup by name and namespace finds is not nested and has them. -/
theorem findByName_spec {name nameSpace : Text} {c : TypeIndex}
    (h : findByName ts none name nameSpace = some c) :
    ∃ td, typeDef ts c = some td ∧ td.enclosingType = none ∧ td.name = name ∧
      td.nameSpace = nameSpace := by
  obtain ⟨j, assm, hj, hassm, hfound⟩ := searchAssemblies_spec h
  simp only [Option.all_none, if_true, Assembly.findTypeDef] at hfound
  obtain ⟨hlt, hp, -⟩ := List.findIdx?_eq_some_iff_getElem.mp hfound
  refine ⟨assm.typeDefs[c.type], ?_, by simpa using hp⟩
  rw [typeDef, hj, Nat.zero_add, hassm]
  exact List.getElem?_eq_getElem hlt

theorem findByName_isSome {td : TypeRecord} {c : TypeIndex} (h : typeDef ts c = some td)
    (hout : td.enclosingType = none) :
    ∃ c', findByName ts none td.name td.nameSpace = some c' := by
  obtain ⟨assm, hassm, htype⟩ := Option.bind_eq_some_iff.mp h
  have hfound : ∃ i, assm.findTypeDef td.name td.nameSpace = some i := by
    apply Option.isSome_iff_exists.mp
    rw [Assembly.findTypeDef, List.findIdx?_isSome, List.any_eq_true]
    exact ⟨td, List.mem_of_getElem? htype, by simp [hout]⟩
  obtain ⟨i, hi⟩ := hfound
  exact searchAssemblies_isSome hassm (by simpa using hi)

/-- The full names of the types are unique. -/
def UniqueNames (ts : TypeSystem) : Prop :=
  ∀ cls cls' depth depth' name, buildTypeName ts true false depth cls 0 = some name →
    buildTypeName ts true false depth' cls' 0 = some name → cls = cls'

theorem buildTypeName_top {td : TypeRecord} {c : TypeIndex} (h : typeDef ts c = some td)
    (hout : td.enclosingType = none) :
    buildTypeName ts true false 1 c 0 = some td.qualified := by
  rw [buildTypeName, h]
  simp [hout, brackets, TypeRecord.qualified]

theorem findByName_self (hunique : UniqueNames ts) {td : TypeRecord} {c : TypeIndex}
    (h : typeDef ts c = some td) (hout : td.enclosingType = none) :
    findByName ts none td.name td.nameSpace = some c := by
  obtain ⟨c', hc'⟩ := findByName_isSome h hout
  obtain ⟨td', htd', hout', hname, hns⟩ := findByName_spec hc'
  have hsame : td'.qualified = td.qualified := by
    simp only [TypeRecord.qualified, TypeRecord.nameSpacePart, hname, hns]
  have hbuilt := buildTypeName_top htd' hout'
  rw [hsame] at hbuilt
  rw [hc', hunique c' c 1 1 _ hbuilt (buildTypeName_top h hout)]

/-- A separator is in no type's name. -/
theorem findByName_eq_none {name nameSpace : Text} (h : '+' ∈ name ∨ '[' ∈ name) :
    findByName ts none name nameSpace = none := by
  by_contra hne
  obtain ⟨c, hc⟩ := Option.ne_none_iff_exists'.mp hne
  obtain ⟨td, -, -, rfl, -⟩ := findByName_spec hc
  rcases h with h | h
  · exact (td.name_plain _ h).2.1 rfl
  · exact (td.name_plain _ h).2.2 rfl

end Lookup

section Resolve

variable {c : TypeIndex}

/-- With a namespace, the containing type is cut out of the name exactly. -/
theorem resolve_of_nameSpace (hunique : UniqueNames ts) (hc : typeDef ts c = some root)
    (hout : root.enclosingType = none) (hns : root.nameSpace ≠ []) (rest : Text)
    (sub array : Bool) :
    resolve ts none (root.qualified ++ rest) ⟨root.dot, root.qualified.length, sub, array⟩ =
      if sub then
        ts[c.assembly]?.bind fun inst =>
          (nestedLoop inst c.type [] (rest.drop 1)).map fun i => ⟨c.assembly, i⟩
      else some c := by
  have hq : root.qualified = root.nameSpace ++ '.' :: root.name := by
    simp [TypeRecord.qualified, TypeRecord.nameSpacePart, hns]
  have hlen : root.qualified.length - (root.nameSpace.length + 1) = root.name.length := by
    rw [hq]
    simp only [List.length_append, List.length_cons]
    omega
  have htake : (root.qualified ++ rest).take root.nameSpace.length = root.nameSpace := by
    rw [hq, List.append_assoc, List.take_left']
    rfl
  have hdrop : (root.qualified ++ rest).drop (root.nameSpace.length + 1) = root.name ++ rest := by
    rw [hq, List.append_assoc, ← List.drop_drop, List.drop_left']
    · rfl
    · rfl
  have hrest : (root.qualified ++ rest).drop (root.qualified.length + 1) = rest.drop 1 := by
    rw [← List.drop_drop, List.drop_left']
    rfl
  have hdot : root.dot = some root.nameSpace.length := if_neg hns
  simp only [resolve, hdot, htake, hdrop, hlen, hrest, List.take_left',
    findByName_self hunique hc hout, Option.bind_some]

/-- Without one, the whole name is looked up, the nested types and the brackets with it. -/
theorem resolve_of_no_nameSpace (hunique : UniqueNames ts) (hc : typeDef ts c = some root)
    (hout : root.enclosingType = none) (hns : root.nameSpace = []) {rest : Text}
    (hrest : rest = [] ∨ '+' ∈ rest ∨ '[' ∈ rest) (stop : ℕ) (sub array : Bool)
    (hsub : rest = [] → sub = false) :
    resolve ts none (root.qualified ++ rest) ⟨root.dot, stop, sub, array⟩ =
      if rest = [] then some c else none := by
  have hdot : root.dot = none := if_pos hns
  have hq : root.qualified = root.name := by
    simp [TypeRecord.qualified, TypeRecord.nameSpacePart, hns]
  by_cases hnil : rest = []
  · have hself := findByName_self hunique hc hout
    rw [hns] at hself
    simp [resolve, hdot, hq, hnil, hself, hsub hnil]
  · have hsep : '+' ∈ root.qualified ++ rest ∨ '[' ∈ root.qualified ++ rest := by
      simp only [List.mem_append]
      tauto
    simp [resolve, hdot, findByName_eq_none hsep, hnil]

end Resolve

section Path

theorem nestedLoop_segment {seg : Text} (hseg : '+' ∉ seg) (rest : Text) (res : ℕ)
    (rgName : Text) :
    nestedLoop assm res rgName (seg ++ rest) = nestedLoop assm res (rgName ++ seg) rest := by
  induction seg generalizing rgName with
  | nil => simp
  | cons c seg ih =>
      obtain ⟨hc, hseg⟩ := not_or.mp (mt List.mem_cons.mpr hseg)
      rw [List.cons_append, nestedLoop, if_neg (Ne.symm hc), ih hseg, List.append_assoc]
      rfl

/-- The nested types are looked up one after the other. -/
theorem nestedLoop_segments {segs : List Text} (hsegs : ∀ s ∈ segs, '+' ∉ s) {seg : Text}
    (hseg : '+' ∉ seg) (res : ℕ) :
    nestedLoop assm res [] (seg ++ segs.flatMap ('+' :: ·)) =
      (seg :: segs).foldlM (fun res s => assm.findNested s res) res := by
  induction segs generalizing seg res with
  | nil =>
      have hlast : nestedLoop assm res [] (seg ++ []) = nestedLoop assm res ([] ++ seg) [] :=
        nestedLoop_segment hseg [] res []
      simpa [nestedLoop] using hlast
  | cons s segs ih =>
      obtain ⟨hs, hsegs⟩ := List.forall_mem_cons.mp hsegs
      rw [nestedLoop_segment hseg, List.flatMap_cons, List.cons_append, nestedLoop, if_pos rfl,
        List.foldlM_cons, List.nil_append]
      congr 1
      funext r
      exact ih hsegs hs r

/-- A nested type that a lookup by its full name reaches: it has no namespace of its own, and no
type before it has its name in the same type. -/
def Assembly.Direct (assm : Assembly) (t : ℕ × TypeRecord) : Prop :=
  t.2.nameSpace = [] ∧ ∀ j < t.1, ∀ td ∈ assm.typeDefs[j]?,
    td.enclosingType = t.2.enclosingType → td.name ≠ t.2.name

theorem qualified_no_plus (td : TypeRecord) : '+' ∉ td.qualified := by
  intro h
  unfold TypeRecord.qualified TypeRecord.nameSpacePart at h
  rcases List.mem_append.mp h with h | h
  · split at h
    · simp at h
    · rcases List.mem_append.mp h with h | h
      · exact (td.nameSpace_plain _ h).1 rfl
      · simp at h
  · exact (td.name_plain _ h).2.1 rfl

theorem findNested_spec {name : Text} {scope i : ℕ} (h : assm.findNested name scope = some i) :
    ∃ td, assm.typeDefs[i]? = some td ∧ td.enclosingType = some scope ∧ td.name = name ∧
      ∀ j < i, ∀ td' ∈ assm.typeDefs[j]?, td'.enclosingType = some scope → td'.name ≠ name := by
  obtain ⟨hlt, hp, hfirst⟩ := List.findIdx?_eq_some_iff_getElem.mp h
  obtain ⟨hscope, hname⟩ := of_decide_eq_true hp
  refine ⟨assm.typeDefs[i], List.getElem?_eq_getElem hlt, hscope, hname, ?_⟩
  intro j hj td' htd' hscope' hname'
  have hj' := hfirst j hj
  obtain ⟨hjlt, rfl⟩ := List.getElem?_eq_some_iff.mp htd'
  simp [hscope', hname'] at hj'

theorem findNested_of_direct {td : TypeRecord} {scope i : ℕ} (h : assm.typeDefs[i]? = some td)
    (hin : td.enclosingType = some scope) (hdirect : assm.Direct (i, td)) :
    assm.findNested td.qualified scope = some i := by
  have hns : td.nameSpace = [] := hdirect.1
  have hq : td.qualified = td.name := by
    simp [TypeRecord.qualified, TypeRecord.nameSpacePart, hns]
  obtain ⟨hlt, rfl⟩ := List.getElem?_eq_some_iff.mp h
  rw [hq]
  apply List.findIdx?_eq_some_iff_getElem.mpr
  refine ⟨hlt, by simp [hin], fun j hj => ?_⟩
  have hother := hdirect.2 j hj _ (List.getElem?_eq_getElem (by omega))
  simpa [hin] using hother

/-- A namespace in the name of a nested type puts a dot into it, and no type has that name. -/
theorem direct_of_findNested {td : TypeRecord} {scope i : ℕ} (h : assm.typeDefs[i]? = some td)
    (hin : td.enclosingType = some scope)
    (hfound : assm.findNested td.qualified scope = some i) : assm.Direct (i, td) := by
  obtain ⟨td', htd', -, hname, hfirst⟩ := findNested_spec hfound
  obtain rfl := Option.some.inj (h.symm.trans htd')
  have hns : td.nameSpace = [] := by
    by_contra hne
    have hdot : '.' ∈ td.name := by
      rw [hname]
      simp [TypeRecord.qualified, TypeRecord.nameSpacePart, hne]
    exact (td.name_plain _ hdot).1 rfl
  refine ⟨hns, fun j hj td' htd' henc => ?_⟩
  rw [hname]
  exact hfirst j hj td' htd' (henc.trans hin)

/-- Walking the path from the containing type ends at the type exactly when each step is direct. -/
theorem walk_iff {r i : ℕ} (h : Nested assm root r i path) :
    (path.map fun t => t.2.qualified).foldlM (fun res s => assm.findNested s res) r = some i ↔
      ∀ t ∈ path, assm.Direct t := by
  induction h with
  | top => simp
  | @inner i j path td hpath hi hin ih =>
      rw [List.map_append, List.foldlM_append, List.forall_mem_append]
      constructor
      · intro hwalk
        obtain ⟨res, hres, hlast⟩ := Option.bind_eq_some_iff.mp hwalk
        have hlast : assm.findNested td.qualified res = some i := by simpa using hlast
        obtain ⟨td', htd', henc, -⟩ := findNested_spec hlast
        obtain rfl := Option.some.inj (hi.symm.trans htd')
        obtain rfl := Option.some.inj (hin.symm.trans henc)
        exact ⟨ih.mp hres, by simpa using direct_of_findNested hi hin hlast⟩
      · rintro ⟨hdirect, hlast⟩
        rw [ih.mpr hdirect]
        simpa using findNested_of_direct hi hin (hlast _ (by simp))

/-- A bracket is in no type's name. -/
theorem findNested_bracket {name : Text} (h : '[' ∈ name) (scope : ℕ) :
    assm.findNested name scope = none := by
  by_contra hne
  obtain ⟨i, hi⟩ := Option.ne_none_iff_exists'.mp hne
  obtain ⟨td, -, -, rfl, -⟩ := findNested_spec hi
  exact (td.name_plain _ h).2.2 rfl

end Path

section RoundTrip

theorem length_brackets (levels : ℕ) : (brackets levels).length = 2 * levels := by
  induction levels with
  | zero => rfl
  | succ n ih =>
      simp only [brackets, List.replicate_succ, List.flatten_cons, List.length_append,
        List.length_cons, List.length_nil] at ih ⊢
      omega

theorem brackets_succ (levels : ℕ) : brackets (levels + 1) = '[' :: ']' :: brackets levels := by
  simp [brackets, List.replicate_succ]

theorem Nested.eq_of_nil {r i : ℕ} (h : Nested assm root r i path) (hnil : path = []) : r = i := by
  cases h with
  | top => rfl
  | inner => simp at hnil

theorem Nested.root_spec {r i : ℕ} (h : Nested assm root r i path) :
    assm.typeDefs[r]? = some root ∧ root.enclosingType = none := by
  induction h with
  | top h hout => exact ⟨h, hout⟩
  | inner _ _ _ ih => exact ih

/-- The reflection overload gives back the type and its level, the plain one the type. -/
structure RoundTrips (ts : TypeSystem) (cls : TypeIndex) (levels : ℕ) : Prop where
  reflection : ∀ {depth name}, buildTypeName ts true false depth cls levels = some name →
    name.length < maxTypeNameLen → findReflection ts none name = some ⟨levels, cls⟩
  plain : ∀ {depth name}, buildTypeName ts true false depth cls 0 = some name →
    name.length < maxTypeNameLen → findTypeDef ts none name = some cls

/-- A type that is not nested, or an array of one level of it when it has a namespace; or a nested
type in one with a namespace, along direct steps. -/
def Resolvable (ts : TypeSystem) (cls : TypeIndex) (levels : ℕ) : Prop :=
  ∃ assm root r path, ts[cls.assembly]? = some assm ∧ Nested assm root r cls.type path ∧
    (path = [] ∧ (levels = 0 ∨ root.nameSpace ≠ [] ∧ levels = 1) ∨
      path ≠ [] ∧ root.nameSpace ≠ [] ∧ levels = 0 ∧ ∀ t ∈ path, assm.Direct t)

variable {a r i : ℕ}

theorem typeDef_root (hassm : ts[a]? = some assm) (hpath : Nested assm root r i path) :
    typeDef ts ⟨a, r⟩ = some root := by
  rw [typeDef, hassm]
  exact hpath.root_spec.1

/-- The first loop stops in front of the first nested type. -/
theorem scan_path (reflection : Bool) (rest : Text) :
    scan reflection (root.qualified ++ '+' :: rest) 0 none =
      ⟨root.dot, root.qualified.length, true, false⟩ := by
  rw [scan_qualified, scan, if_neg (by decide), if_pos rfl]

theorem resolve_path (hunique : UniqueNames ts) (hassm : ts[a]? = some assm)
    (hpath : Nested assm root r i path) (reflection : Bool) (rest : Text) :
    resolve ts none (root.qualified ++ '+' :: rest)
        (scan reflection (root.qualified ++ '+' :: rest) 0 none) =
      if root.nameSpace = [] then none else (nestedLoop assm r [] rest).map (⟨a, ·⟩) := by
  have hc := typeDef_root hassm hpath
  have hout := hpath.root_spec.2
  rw [scan_path]
  by_cases hns : root.nameSpace = []
  · rw [if_pos hns, resolve_of_no_nameSpace hunique hc hout hns (by simp) _ _ _ (by simp),
      if_neg (by simp)]
  · rw [if_neg hns, resolve_of_nameSpace hunique hc hout hns, if_pos rfl, hassm]
    rfl

theorem segments_eq (init : List (ℕ × TypeRecord)) (last : ℕ × TypeRecord) (suffix : Text) :
    (((init ++ [last]).flatMap fun t => '+' :: t.2.qualified) ++ suffix) =
      (init.map (·.2.qualified) ++ [last.2.qualified ++ suffix]).flatMap ('+' :: ·) := by
  simp [List.flatMap_append, List.flatMap_map]

/-- A full name of a nested type, with something behind it: the types of the path are looked up,
the last one together with what is behind it. -/
theorem resolve_nested (hunique : UniqueNames ts) (hassm : ts[a]? = some assm)
    {init : List (ℕ × TypeRecord)} {last : ℕ × TypeRecord}
    (hpath : Nested assm root r i (init ++ [last])) (reflection : Bool) {suffix : Text}
    (hsuffix : '+' ∉ suffix) :
    resolve ts none (fullName root (init ++ [last]) ++ suffix)
        (scan reflection (fullName root (init ++ [last]) ++ suffix) 0 none) =
      if root.nameSpace = [] then none
      else (((init.map (·.2.qualified)).foldlM (fun res s => assm.findNested s res) r).bind
        fun res => assm.findNested (last.2.qualified ++ suffix) res).map (⟨a, ·⟩) := by
  have hlast : '+' ∉ last.2.qualified ++ suffix := by
    simp [qualified_no_plus, hsuffix]
  obtain ⟨seg, segs, hsegs⟩ := List.exists_cons_of_ne_nil
    (show init.map (·.2.qualified) ++ [last.2.qualified ++ suffix] ≠ [] by simp)
  have hplain : ∀ s ∈ seg :: segs, '+' ∉ s := by
    rw [← hsegs]
    intro s hs
    rcases List.mem_append.mp hs with hs | hs
    · obtain ⟨t, -, rfl⟩ := List.mem_map.mp hs
      exact qualified_no_plus t.2
    · rw [List.mem_singleton.mp hs]
      exact hlast
  obtain ⟨hseg, hrest⟩ := List.forall_mem_cons.mp hplain
  have hname : fullName root (init ++ [last]) ++ suffix =
      root.qualified ++ '+' :: (seg ++ segs.flatMap ('+' :: ·)) := by
    rw [fullName, List.append_assoc, segments_eq, hsegs]
    rfl
  rw [hname, resolve_path hunique hassm hpath, nestedLoop_segments hrest hseg, ← hsegs,
    List.foldlM_append]
  simp

theorem scan_top (reflection : Bool) :
    scan reflection (fullName root []) 0 none = ⟨root.dot, root.qualified.length, false, false⟩ := by
  have h := scan_qualified reflection root []
  simpa [fullName, scan] using h

/-- Both overloads read a full name without brackets alike. -/
theorem resolve_fullName_iff (hunique : UniqueNames ts) (hassm : ts[a]? = some assm)
    (hpath : Nested assm root r i path) (reflection : Bool) :
    resolve ts none (fullName root path) (scan reflection (fullName root path) 0 none) =
        some ⟨a, i⟩ ↔
      path = [] ∨ root.nameSpace ≠ [] ∧ ∀ t ∈ path, assm.Direct t := by
  have hc := typeDef_root hassm hpath
  have hout := hpath.root_spec.2
  rcases List.eq_nil_or_concat path with rfl | ⟨init, last, rfl⟩
  · obtain rfl := hpath.eq_of_nil rfl
    rw [scan_top]
    have hname : fullName root [] = root.qualified ++ [] := by simp [fullName]
    rw [hname]
    by_cases hns : root.nameSpace = []
    · rw [resolve_of_no_nameSpace hunique hc hout hns (.inl rfl) _ _ _ (fun _ => rfl)]
      simp
    · rw [resolve_of_nameSpace hunique hc hout hns]
      simp
  · rw [List.concat_eq_append] at hpath ⊢
    have hresolve := resolve_nested hunique hassm hpath reflection (List.not_mem_nil (a := '+'))
    have hwalk := walk_iff hpath
    rw [List.append_nil] at hresolve
    rw [hresolve, ← hwalk, List.map_append, List.foldlM_append]
    by_cases hns : root.nameSpace = []
    · simp [hns]
    · have hmap {o : Option ℕ} : o.map (TypeIndex.mk a) = some ⟨a, i⟩ ↔ o = some i := by
        simp
      rw [if_neg hns, hmap]
      simp [hns]

theorem arrayType_fullName (reflection : Bool) :
    (scan reflection (fullName root path) 0 none).arrayType = false := by
  cases path with
  | nil => rw [scan_top]
  | cons t rest =>
      rw [fullName, List.flatMap_cons, List.cons_append, scan_path]

theorem findReflection_eq {name : Text} (h : name.length < maxTypeNameLen) :
    findReflection ts none name = (resolve ts none name (scan true name 0 none)).map fun res =>
      ⟨if (scan true name 0 none).arrayType then 1 else 0, res⟩ :=
  if_pos h

/-- Brackets are read only behind a containing type with a namespace, and only once. -/
theorem findReflection_array_iff (hunique : UniqueNames ts) (hassm : ts[a]? = some assm)
    (hpath : Nested assm root r i path) (n : ℕ)
    (hfits : (fullName root path ++ brackets (n + 1)).length < maxTypeNameLen) :
    findReflection ts none (fullName root path ++ brackets (n + 1)) = some ⟨n + 1, ⟨a, i⟩⟩ ↔
      path = [] ∧ root.nameSpace ≠ [] ∧ n = 0 := by
  have hc := typeDef_root hassm hpath
  have hout := hpath.root_spec.2
  have hopen : '[' ∈ brackets (n + 1) := by simp [brackets_succ]
  rw [findReflection_eq hfits]
  rcases List.eq_nil_or_concat path with rfl | ⟨init, last, rfl⟩
  · obtain rfl := hpath.eq_of_nil rfl
    have hname : fullName root [] ++ brackets (n + 1) = root.qualified ++ brackets (n + 1) := by
      simp [fullName]
    have hscan : scan true (root.qualified ++ brackets (n + 1)) 0 none =
        ⟨root.dot, root.qualified.length, false, true⟩ := by
      rw [scan_qualified, brackets_succ, scan, if_neg (by decide), if_neg (by decide),
        if_pos (by simp)]
    rw [hname, hscan]
    by_cases hns : root.nameSpace = []
    · rw [resolve_of_no_nameSpace hunique hc hout hns (.inr (.inr hopen)) _ _ _ (fun _ => rfl)]
      simp [hns, brackets_succ]
    · rw [resolve_of_nameSpace hunique hc hout hns]
      simp [hns]
  · rw [List.concat_eq_append] at hpath ⊢
    have hplus : '+' ∉ brackets (n + 1) := by
      simp [brackets, List.mem_flatten]
    have hnone (res : ℕ) : assm.findNested (last.2.qualified ++ brackets (n + 1)) res = none :=
      findNested_bracket (List.mem_append_right _ hopen) res
    rw [resolve_nested hunique hassm hpath true hplus]
    simp [hnone]

/-- A name that fits leads back to its type and level exactly for the resolvable ones. -/
theorem typeName_roundTrips_iff (hunique : UniqueNames ts) {depth levels : ℕ} {cls : TypeIndex}
    {name : Text} (hname : buildTypeName ts true false depth cls levels = some name)
    (hfits : name.length < maxTypeNameLen) :
    RoundTrips ts cls levels ↔ Resolvable ts cls levels := by
  obtain ⟨assm, root, r, path, hassm, hpath, rfl⟩ := nested_of_buildTypeName hname
  have hplainFits : (fullName root path).length < maxTypeNameLen := by
    rw [List.length_append] at hfits
    omega
  have hbuilt {depth' levels' : ℕ} {name' : Text}
      (h : buildTypeName ts true false depth' cls levels' = some name') :
      name' = fullName root path ++ brackets levels' := by
    obtain ⟨assm', root', r', path', hassm', hpath', rfl⟩ := nested_of_buildTypeName h
    obtain rfl := Option.some.inj (hassm.symm.trans hassm')
    obtain ⟨rfl, -, rfl⟩ := hpath.unique hpath'
    rfl
  have hreflection : findReflection ts none (fullName root path ++ brackets levels) =
        some ⟨levels, cls⟩ ↔
      path = [] ∧ (levels = 0 ∨ root.nameSpace ≠ [] ∧ levels = 1) ∨
        path ≠ [] ∧ root.nameSpace ≠ [] ∧ levels = 0 ∧ ∀ t ∈ path, assm.Direct t := by
    cases levels with
    | zero =>
        have hzero : fullName root path ++ brackets 0 = fullName root path := by simp [brackets]
        have hresolve := resolve_fullName_iff hunique hassm hpath true
        rw [hzero, findReflection_eq hplainFits]
        simp only [arrayType_fullName, Option.map_eq_some_iff, ReflectionIndex.mk.injEq]
        by_cases hnil : path = []
        · simp [hnil] at hresolve ⊢
          exact hresolve
        · simp [hnil] at hresolve ⊢
          exact hresolve
    | succ n =>
        rw [findReflection_array_iff hunique hassm hpath n hfits]
        simp
  have hresolvable : Resolvable ts cls levels ↔
      path = [] ∧ (levels = 0 ∨ root.nameSpace ≠ [] ∧ levels = 1) ∨
        path ≠ [] ∧ root.nameSpace ≠ [] ∧ levels = 0 ∧ ∀ t ∈ path, assm.Direct t := by
    constructor
    · rintro ⟨assm', root', r', path', hassm', hpath', h⟩
      obtain rfl := Option.some.inj (hassm.symm.trans hassm')
      obtain ⟨rfl, -, rfl⟩ := hpath.unique hpath'
      exact h
    · intro h
      exact ⟨assm, root, r, path, hassm, hpath, h⟩
  rw [hresolvable, ← hreflection]
  constructor
  · intro h
    exact h.reflection hname hfits
  · intro h
    constructor
    · intro depth' name' hname' _
      rw [hbuilt hname']
      exact h
    · intro depth' name' hname' hfits'
      have hzero : brackets 0 = [] := rfl
      rw [hbuilt hname', hzero, List.append_nil, findTypeDef, if_pos hplainFits]
      apply (resolve_fullName_iff hunique hassm hpath false).mpr
      rcases hreflection.mp h with ⟨hnil, -⟩ | ⟨-, hns, -, hdirect⟩
      · exact .inl hnil
      · exact .inr ⟨hns, hdirect⟩

/-- The type `N.O` and the type `I` nested in it. -/
def sampleTypes : TypeSystem :=
  [{ headerCRC := 0
     assemblyCRC := 0
     typeDefs :=
      [⟨['O'], ['N'], none, by simp, by simp⟩, ⟨['I'], [], some 0, by simp, by simp⟩] }]

theorem sampleTypes_names {depth : ℕ} {cls : TypeIndex} {name : Text}
    (h : buildTypeName sampleTypes true false depth cls 0 = some name) :
    cls = ⟨0, 0⟩ ∧ name.length = 3 ∨ cls = ⟨0, 1⟩ ∧ name.length = 5 := by
  obtain ⟨a, t⟩ := cls
  cases depth with
  | zero => simp [buildTypeName] at h
  | succ depth =>
      obtain ⟨td, htd, -⟩ := Option.bind_eq_some_iff.mp h
      obtain ⟨assm, hassm, htype⟩ := Option.bind_eq_some_iff.mp htd
      obtain rfl : a = 0 := by
        have hlt := (List.getElem?_eq_some_iff.mp hassm).1
        simp only [sampleTypes, List.length_singleton] at hlt
        omega
      obtain rfl := Option.some.inj hassm
      have hlt := (List.getElem?_eq_some_iff.mp htype).1
      simp only [List.length_cons, List.length_nil] at hlt
      obtain rfl | rfl : t = 0 ∨ t = 1 := by omega
      · left
        obtain rfl := Option.some.inj h
        exact ⟨rfl, rfl⟩
      · right
        obtain ⟨outer, houter, rfl⟩ := Option.map_eq_some_iff.mp h
        cases depth with
        | zero => cases houter
        | succ depth =>
            obtain rfl := Option.some.inj houter
            exact ⟨rfl, rfl⟩

theorem sampleTypes_unique : UniqueNames sampleTypes := by
  intro cls cls' depth depth' name h h'
  rcases sampleTypes_names h with ⟨rfl, hlen⟩ | ⟨rfl, hlen⟩ <;>
    rcases sampleTypes_names h' with ⟨rfl, hlen'⟩ | ⟨rfl, hlen'⟩ <;> first | rfl | omega

theorem typeName_roundTrips_nested : RoundTrips sampleTypes ⟨0, 1⟩ 0 := by
  have hname : buildTypeName sampleTypes true false 2 ⟨0, 1⟩ 0 =
      some ['N', '.', 'O', '+', 'I'] := rfl
  apply (typeName_roundTrips_iff sampleTypes_unique hname (by decide)).mpr
  have htop : Nested sampleTypes[0] _ 0 0 [] := .top rfl rfl
  refine ⟨_, _, 0, _, rfl, htop.inner rfl rfl, .inr ⟨?_, ?_, rfl, ?_⟩⟩
  · simp
  · simp
  · simp [Assembly.Direct]

/-- An array of two levels comes back as an array of one. -/
theorem not_roundTrips_levels : ¬∀ (ts : TypeSystem), UniqueNames ts → ∀ depth cls levels name,
    buildTypeName ts true false depth cls levels = some name → name.length < maxTypeNameLen →
    RoundTrips ts cls levels := by
  intro hall
  have hname : buildTypeName sampleTypes true false 1 ⟨0, 0⟩ 2 =
      some ['N', '.', 'O', '[', ']', '[', ']'] := rfl
  have h := hall sampleTypes sampleTypes_unique 1 ⟨0, 0⟩ 2 _ hname (by decide)
  have hfound := h.reflection hname (by decide)
  revert hfound
  decide +kernel

end RoundTrip

end TinyCLR.TypeName
