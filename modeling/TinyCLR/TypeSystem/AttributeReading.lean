import TinyCLR.TypeSystem.Attributes

/-!
# What is read of attributes

The enumeration visits the records of its owner in the order of the table, but that of a method
visits those of the field with the same index. The parser gives back the named fields of an
attribute that are numbers, enumerations and strings.
-/

namespace TinyCLR.Attributes

open HeapBlock (NumericType)

variable {md : Metadata}

/-! ## The attributes of an owner -/

/-- The table and the index by which records name an owner. -/
def Owner.recordKey : Owner → UInt16 × UInt16
  | .type idx => (tblTypeDef, idx)
  | .field idx => (tblFieldDef, idx)
  | .method idx => (tblMethodDef, idx)

/-- The places of the records with one owner, and with a constructor that passes the filter. -/
def recordsOf (md : Metadata) (assm : UInt16) (owner : UInt16 × UInt16) (filter : Filter) :
    List ℕ :=
  (List.range (md.assembly assm).attributes.length).filter fun i =>
    ((md.assembly assm).attributes[i]?).any fun r =>
      (r.ownerType == owner.1 && r.ownerIdx == owner.2) &&
        filter.passes md (resolveConstructor md assm r)

theorem key_eq_iff {a b c d : UInt16} : key a b = key c d ↔ a = c ∧ b = d := by
  have ha := a.toNat_lt
  have hc := c.toNat_lt
  simp only [key, ← UInt16.toNat_inj]
  omega

/-- The places of the records of a key among `num` records from `ptr` on. -/
def owned (attributes : List AttributeRecord) (k : ℕ) (ptr num : ℕ) : List ℕ :=
  (List.range' ptr num).filter fun i => (attributes[i]?).any fun r => r.key == k

theorem owned_succ {attributes : List AttributeRecord} {k ptr num : ℕ} {r : AttributeRecord}
    (hr : attributes[ptr]? = some r) :
    owned attributes k ptr (num + 1) =
      if r.key = k then ptr :: owned attributes k (ptr + 1) num
      else owned attributes k (ptr + 1) num := by
  rw [owned, List.range'_succ, List.filter_cons, hr, Option.any_some]
  simp only [beq_iff_eq]
  rfl

theorem advanceLoop_none {attributes : List AttributeRecord} {k num ptr : ℕ}
    (hlen : ptr + num = attributes.length) (h : owned attributes k ptr num = []) :
    (advanceLoop attributes k num ptr).2.2 = none := by
  induction num generalizing ptr with
  | zero => rfl
  | succ num ih =>
      have hr : attributes[ptr]? = some attributes[ptr] := List.getElem?_eq_getElem (by omega)
      rw [owned_succ hr] at h
      rw [advanceLoop, hr]
      dsimp only
      split at h
      · cases h
      · rename_i hne
        rw [if_neg hne]
        exact ih (by omega) h

theorem advanceLoop_some {attributes : List AttributeRecord} {k num ptr i : ℕ} {rest : List ℕ}
    (hlen : ptr + num = attributes.length) (h : owned attributes k ptr num = i :: rest) :
    ∃ r num', attributes[i]? = some r ∧
      advanceLoop attributes k num ptr = (i + 1, num', some r) ∧
      (i + 1) + num' = attributes.length ∧ owned attributes k (i + 1) num' = rest := by
  induction num generalizing ptr with
  | zero => cases h
  | succ num ih =>
      have hr : attributes[ptr]? = some attributes[ptr] := List.getElem?_eq_getElem (by omega)
      rw [owned_succ hr] at h
      rw [advanceLoop, hr]
      dsimp only
      split at h
      · rename_i hkey
        rw [List.cons.injEq] at h
        obtain ⟨rfl, hrest⟩ := h
        exact ⟨_, num, hr, by rw [if_pos hkey], by omega, hrest⟩
      · rename_i hne
        rw [if_neg hne]
        exact ih (by omega) h

namespace Enumerator

variable {en : Enumerator} {filter : Filter}

/-- The records that `Advance` has still to look at, from a place on. -/
def start (md : Metadata) (en : Enumerator) : ℕ × ℕ :=
  match en.ptr with
  | none => (0, (md.assembly en.assm).attributes.length)
  | some ptr => (ptr, en.num)

/-- The pointer and the number fit the table. -/
def Within (md : Metadata) (en : Enumerator) : Prop :=
  (en.start md).1 + (en.start md).2 = (md.assembly en.assm).attributes.length

/-- The records of the owner that are still to come. -/
def pending (md : Metadata) (en : Enumerator) : List ℕ :=
  owned (md.assembly en.assm).attributes (key en.ownerType en.ownerIdx) (en.start md).1
    (en.start md).2

theorem advance_eq : en.advance md =
    match advanceLoop (md.assembly en.assm).attributes (key en.ownerType en.ownerIdx)
        (en.start md).2 (en.start md).1 with
    | (ptr, num, none) => (false, { en with ptr := some ptr, num := num })
    | (ptr, num, some r) =>
        (true, { en with
          ptr := some ptr
          num := num
          found := resolveConstructor md en.assm r
          blob := (md.assembly en.assm).getSignature r.data }) :=
  rfl

theorem advance_done (hw : en.Within md) (h : en.pending md = []) : (en.advance md).1 = false := by
  have hnone := advanceLoop_none hw h
  rw [advance_eq]
  split
  · rfl
  · rename_i hsome
    rw [hsome] at hnone
    cases hnone

theorem advance_next (hw : en.Within md) {i : ℕ} {rest : List ℕ}
    (h : en.pending md = i :: rest) :
    ∃ r en', (md.assembly en.assm).attributes[i]? = some r ∧ en.advance md = (true, en') ∧
      en'.assm = en.assm ∧ en'.ptr = some (i + 1) ∧ en'.Within md ∧ en'.pending md = rest ∧
      en'.found = resolveConstructor md en.assm r := by
  obtain ⟨r, num, hr, hloop, hlen, hrest⟩ := advanceLoop_some hw h
  rw [advance_eq, hloop]
  exact ⟨r, _, hr, rfl, rfl, rfl, hlen, hrest, rfl⟩

/-- The constructor of the record at a place passes the filter. -/
def passesAt (md : Metadata) (assm : UInt16) (filter : Filter) (i : ℕ) : Bool :=
  ((md.assembly assm).attributes[i]?).any fun r =>
    filter.passes md (resolveConstructor md assm r)

theorem matchNext_done {n : ℕ} (hw : en.Within md)
    (h : (en.pending md).filter (passesAt md en.assm filter) = []) :
    (en.matchNext md filter n).1 = false := by
  induction n generalizing en with
  | zero => rfl
  | succ n ih =>
      rw [matchNext]
      cases hp : en.pending md with
      | nil =>
          have hdone := advance_done hw hp
          split
          · rfl
          · rename_i heq
            rw [heq] at hdone
            cases hdone
      | cons i rest =>
          obtain ⟨r, en', hr, hadv, hassm, -, hw', hrest, hfound⟩ := advance_next hw hp
          rw [hp, List.filter_cons] at h
          split at h
          · cases h
          · rename_i hnot
            rw [hadv]
            have hnpass : ¬ filter.passes md en'.found = true := by
              rw [hfound]
              rwa [passesAt, hr, Option.any_some] at hnot
            dsimp only
            rw [if_neg hnpass]
            apply ih hw'
            rw [hrest, hassm]
            exact h

theorem matchNext_next {n i : ℕ} {rest : List ℕ} (hw : en.Within md)
    (hn : (en.pending md).length < n)
    (h : (en.pending md).filter (passesAt md en.assm filter) = i :: rest) :
    ∃ en', en.matchNext md filter n = (true, en') ∧ en'.assm = en.assm ∧
      en'.ptr = some (i + 1) ∧ en'.Within md ∧ (en'.pending md).length < (en.pending md).length ∧
      (en'.pending md).filter (passesAt md en.assm filter) = rest := by
  induction n generalizing en with
  | zero => omega
  | succ n ih =>
      rw [matchNext]
      cases hp : en.pending md with
      | nil =>
          rw [hp] at h
          cases h
      | cons j others =>
          obtain ⟨r, en', hr, hadv, hassm, hptr, hw', hrest, hfound⟩ := advance_next hw hp
          rw [hp, List.filter_cons] at h
          rw [hp, List.length_cons] at hn
          rw [hadv]
          dsimp only
          have hiff : passesAt md en.assm filter j = filter.passes md en'.found := by
            rw [passesAt, hr, Option.any_some, hfound]
          rw [hiff] at h
          split at h
          · rename_i hpass
            rw [if_pos hpass]
            rw [List.cons.injEq] at h
            obtain ⟨rfl, htail⟩ := h
            exact ⟨en', rfl, hassm, hptr, hw', by rw [hrest, List.length_cons]; omega,
              by rw [hrest]; exact htail⟩
          · rename_i hpass
            rw [if_neg hpass]
            obtain ⟨en'', hmatch, hassm', hptr', hw'', hlt, hfilter⟩ := ih hw'
              (by rw [hrest]; omega) (by rw [hrest, hassm]; exact h)
            rw [hassm] at hfilter
            rw [hrest] at hlt
            exact ⟨en'', hmatch, hassm'.trans hassm, hptr', hw'', by rw [List.length_cons]; omega,
              hfilter⟩

/-- `MatchNext` stops at the records of the owner that pass the filter, in their order. -/
theorem visits_eq {n limit : ℕ} (hw : en.Within md) (hlimit : (en.pending md).length < limit)
    (hn : (en.pending md).length < n) :
    visits md filter limit n en = (en.pending md).filter (passesAt md en.assm filter) := by
  induction n generalizing en with
  | zero => omega
  | succ n ih =>
      rw [visits]
      cases hf : (en.pending md).filter (passesAt md en.assm filter) with
      | nil =>
          have hdone := matchNext_done (n := limit) hw hf
          split
          · rfl
          · rename_i heq
            rw [heq] at hdone
            cases hdone
      | cons i rest =>
          obtain ⟨en', hmatch, hassm, hptr, hw', hlt, hrest⟩ := matchNext_next hw hlimit hf
          rw [hmatch]
          dsimp only
          rw [ih hw' (by omega) (by omega), hptr, hassm, hrest]
          rfl

end Enumerator

/-- The key under which an owner is looked for. -/
def Owner.searchKey : Owner → UInt16 × UInt16
  | .type idx => (tblTypeDef, idx)
  | .field idx => (tblFieldDef, idx)
  | .method idx => (tblFieldDef, idx)

/-- All that an enumeration for an owner visits. -/
def visited (md : Metadata) (assm : UInt16) (owner : Owner) (filter : Filter) : List ℕ :=
  let n := (md.assembly assm).attributes.length + 1
  visits md filter n n (.initializeOwner assm owner)

theorem visited_eq (assm : UInt16) (owner : Owner) (filter : Filter) :
    visited md assm owner filter = recordsOf md assm owner.searchKey filter := by
  have hstart : (Enumerator.initializeOwner assm owner).start md =
      (0, (md.assembly assm).attributes.length) := by
    cases owner <;> rfl
  have hassm : (Enumerator.initializeOwner assm owner).assm = assm := by cases owner <;> rfl
  have hkey : key (Enumerator.initializeOwner assm owner).ownerType
      (Enumerator.initializeOwner assm owner).ownerIdx =
      key owner.searchKey.1 owner.searchKey.2 := by
    cases owner <;> rfl
  have hpending : (Enumerator.initializeOwner assm owner).pending md =
      owned (md.assembly assm).attributes (key owner.searchKey.1 owner.searchKey.2) 0
        (md.assembly assm).attributes.length := by
    rw [Enumerator.pending, hstart, hassm, hkey]
  have hlength : ((Enumerator.initializeOwner assm owner).pending md).length <
      (md.assembly assm).attributes.length + 1 := by
    rw [hpending, owned]
    have := List.length_filter_le (fun i => ((md.assembly assm).attributes[i]?).any fun r =>
      r.key == key owner.searchKey.1 owner.searchKey.2)
      (List.range' 0 (md.assembly assm).attributes.length)
    rw [List.length_range'] at this
    omega
  have hwithin : (Enumerator.initializeOwner assm owner).Within md := by
    rw [Enumerator.Within, hstart, hassm, Nat.zero_add]
  rw [visited, Enumerator.visits_eq hwithin hlength hlength, hpending, hassm, owned, recordsOf,
    List.filter_filter, List.range_eq_range']
  apply List.filter_congr
  intro i hi
  rw [Enumerator.passesAt]
  cases (md.assembly assm).attributes[i]? with
  | none => rfl
  | some r =>
      simp only [Option.any_some]
      rw [Bool.and_comm]
      congr 1
      rw [Bool.eq_iff_iff, beq_iff_eq, Bool.and_eq_true, beq_iff_eq, beq_iff_eq]
      exact key_eq_iff

/-- Neither the method nor the field with its index has an attribute that the filter lets pass. -/
def NoConfusion (md : Metadata) (assm : UInt16) (filter : Filter) : Owner → Prop
  | .method idx => ∀ r ∈ (md.assembly assm).attributes,
      filter.passes md (resolveConstructor md assm r) →
        ¬ (r.ownerType = tblMethodDef ∧ r.ownerIdx = idx) ∧
        ¬ (r.ownerType = tblFieldDef ∧ r.ownerIdx = idx)
  | _ => True

theorem mem_recordsOf {assm : UInt16} {owner : UInt16 × UInt16} {filter : Filter} {i : ℕ} :
    i ∈ recordsOf md assm owner filter ↔ ∃ r, (md.assembly assm).attributes[i]? = some r ∧
      (r.ownerType = owner.1 ∧ r.ownerIdx = owner.2) ∧
        filter.passes md (resolveConstructor md assm r) := by
  rw [recordsOf, List.mem_filter, List.mem_range]
  constructor
  · intro h
    obtain ⟨hi, hany⟩ := h
    rw [List.getElem?_eq_getElem hi, Option.any_some, Bool.and_eq_true, Bool.and_eq_true,
      beq_iff_eq, beq_iff_eq] at hany
    exact ⟨_, List.getElem?_eq_getElem hi, hany⟩
  · intro h
    obtain ⟨r, hr, howner, hpass⟩ := h
    have hi : i < (md.assembly assm).attributes.length := by
      by_contra hge
      rw [List.getElem?_eq_none (by omega)] at hr
      cases hr
    refine ⟨hi, ?_⟩
    rw [hr, Option.any_some, hpass, howner.1, howner.2]
    simp

/-- The attributes of types and fields are visited exactly; those of a method, when there is nothing
to confuse. -/
theorem visited_iff (assm : UInt16) (owner : Owner) (filter : Filter) :
    visited md assm owner filter = recordsOf md assm owner.recordKey filter ↔
      NoConfusion md assm filter owner := by
  rw [visited_eq]
  cases owner with
  | type idx => exact iff_of_true rfl trivial
  | field idx => exact iff_of_true rfl trivial
  | method idx =>
      have hne : tblFieldDef ≠ tblMethodDef := by decide
      constructor
      · intro h r hr hpass
        obtain ⟨i, hi⟩ := List.mem_iff_getElem?.mp hr
        have hiff : i ∈ recordsOf md assm (Owner.method idx).searchKey filter ↔
            i ∈ recordsOf md assm (Owner.method idx).recordKey filter := by rw [h]
        rw [mem_recordsOf, mem_recordsOf] at hiff
        constructor
        · intro howner
          obtain ⟨r', hr', howner', -⟩ := hiff.mpr ⟨r, hi, howner, hpass⟩
          rw [hi, Option.some.injEq] at hr'
          subst hr'
          exact hne (howner'.1.symm.trans howner.1)
        · intro howner
          obtain ⟨r', hr', howner', -⟩ := hiff.mp ⟨r, hi, howner, hpass⟩
          rw [hi, Option.some.injEq] at hr'
          subst hr'
          exact hne (howner.1.symm.trans howner'.1)
      · intro h
        have hnil : ∀ owner, (owner = (Owner.method idx).searchKey ∨
            owner = (Owner.method idx).recordKey) → recordsOf md assm owner filter = [] := by
          intro owner howner
          rw [List.eq_nil_iff_forall_not_mem]
          intro i hi
          obtain ⟨r, hr, hkey, hpass⟩ := mem_recordsOf.mp hi
          have := h r (List.mem_of_getElem? hr) hpass
          cases howner with
          | inl heq =>
              rw [heq] at hkey
              exact this.2 hkey
          | inr heq =>
              rw [heq] at hkey
              exact this.1 hkey
        rw [hnil _ (.inl rfl), hnil _ (.inr rfl)]

/-! ## The named arguments of an attribute -/

/-- A value as the blob holds it: a number or an enumeration, a string, or the name of a type. -/
inductive ArgumentValue where
  | numeric (bytes : List UInt8)
  | string (token : UInt16)
  | type (token : UInt16)

inductive NamedArgument where
  | field (name : UInt16) (tag : UInt8) (value : ArgumentValue)
  | property (name : UInt16) (bytes : List UInt8)

def putUInt16 (n : UInt16) : List UInt8 := [n.toUInt8, UInt8.ofNat (n.toNat / 2 ^ 8)]

def ArgumentValue.bytes : ArgumentValue → List UInt8
  | .numeric bytes => bytes
  | .string token => putUInt16 token
  | .type token => putUInt16 token

def NamedArgument.bytes : NamedArgument → List UInt8
  | .field name tag value => serializationTypeField :: (putUInt16 name ++ tag :: value.bytes)
  | .property name bytes => serializationTypeProperty :: (putUInt16 name ++ bytes)

/-- The blob of an attribute whose constructor takes no arguments. -/
def attributeBlob (args : List NamedArgument) : List UInt8 :=
  putUInt16 (UInt16.ofNat args.length) ++ args.flatMap NamedArgument.bytes

/-- A value of the field's type: a number has the size of its type. -/
def ArgumentValue.Fits : ArgumentValue → DataType → Prop
  | .numeric bytes, dt => ∃ t, dt = .numeric t ∧ bytes.length = (t.sizeInBits + 7) / 8
  | .string _, dt => dt = .string
  | .type _, dt => dt = .class

/-- A named field is one of the attribute's type or of a base, and the value is of its type. -/
def NamedArgument.WellTyped (md : Metadata) (fuel : ℕ) (assm : UInt16) (td : TypeDefIndex) :
    NamedArgument → Prop
  | .field name _ value => ∃ fd dt,
      findFieldDef md td ((md.assembly assm).getString name) = some fd ∧
      fieldType md fuel fd = some (.ok dt) ∧ value.Fits dt
  | .property _ _ => True

/-- The value that stands for an argument in the attribute. -/
def Delivers (md : Metadata) (assm : UInt16) (v : NamedValue) : NamedArgument → Prop
  | .field name _ (.numeric bytes) =>
      v.name = (md.assembly assm).getString name ∧ ∃ t, v.value = .numeric t bytes
  | .field name _ (.string token) =>
      v.name = (md.assembly assm).getString name ∧
        v.value = .string (some ((md.assembly assm).getString token))
  | _ => False

/-- The values of all the arguments, from position `k` on. -/
def DeliversFrom (md : Metadata) (assm : UInt16) : ℤ → List NamedArgument → List NamedValue → Prop
  | _, [], [] => True
  | k, arg :: args, v :: vs =>
      v.pos = k ∧ Delivers md assm v arg ∧ DeliversFrom md assm (k + 1) args vs
  | _, _, _ => False

/-- The parser gives the arguments in the order of the blob, then NULL at the end of the blob. -/
def ParsesExactly (md : Metadata) (fuel : ℕ) (allocated : ℤ → Bool) (en : Enumerator)
    (args : List NamedArgument) (rest : List UInt8) : Prop :=
  ∃ p vs q, Parser.initializeFrom md en = .ok p ∧
    p.values md fuel allocated (args.length + 1) = some (vs, .ok q) ∧ q.blob = rest ∧
    DeliversFrom md en.assm 0 args vs

/-- Every argument is a field with a number, an enumeration, or a string for which there is
memory. -/
def Readable (allocated : ℤ → Bool) : ℤ → List NamedArgument → Prop
  | _, [] => True
  | k, .field _ _ (.numeric _) :: args => Readable allocated (k + 1) args
  | k, .field _ _ (.string _) :: args => allocated k = true ∧ Readable allocated (k + 1) args
  | _, _ :: _ => False

theorem readUInt16_append (n : UInt16) (rest : List UInt8) :
    readUInt16 (putUInt16 n ++ rest) = some (n, rest) := by
  have hn := n.toNat_lt
  have hword : UInt16.ofNat
      (n.toUInt8.toNat + 2 ^ 8 * (UInt8.ofNat (n.toNat / 2 ^ 8)).toNat) = n := by
    apply UInt16.toNat_inj.mp
    rw [UInt16.toNat_ofNat', UInt8.toNat_ofNat', UInt16.toNat_toUInt8]
    omega
  rw [putUInt16, List.cons_append, List.cons_append, readUInt16, hword]
  rfl

namespace Parser

variable {fuel : ℕ} {p : Parser} {allocated : Bool} {rest : List UInt8}

variable (md fuel allocated) in
/-- A field whose value is a number. -/
theorem nextNamed_numeric {name : UInt16} {tag : UInt8} {bytes : List UInt8}
    (hwt : (NamedArgument.field name tag (.numeric bytes)).WellTyped md fuel p.assm p.td)
    (hblob : p.blob = (NamedArgument.field name tag (.numeric bytes)).bytes ++ rest) :
    ∃ t, p.nextNamed md fuel allocated =
      some (.ok (some ⟨p.currentPos, (md.assembly p.assm).getString name, .numeric t bytes⟩),
        { p with blob := rest, currentPos := p.currentPos + 1 }) := by
  obtain ⟨fd, dt, hfd, hdt, t, rfl, hlen⟩ := hwt
  refine ⟨t, ?_⟩
  have hread : readValue md p.assm allocated (.numeric t) (tag :: (bytes ++ rest)) =
      some (.ok (.numeric t bytes), rest) := by
    rw [readValue]
    rw [List.drop_succ_cons, List.drop_zero, ← hlen, if_neg (by simp), List.take_left,
      List.drop_left]
  rw [nextNamed, hblob, NamedArgument.bytes, ArgumentValue.bytes, List.cons_append, readUInt8,
    Option.bind_some]
  dsimp only
  rw [List.append_assoc, readUInt16_append, Option.bind_some]
  dsimp only
  rw [if_neg (by simp), hfd]
  dsimp only
  rw [hdt, Option.bind_some, List.cons_append]
  dsimp only
  rw [hread]
  rfl

variable (md fuel allocated) in
theorem nextNamed_string {name token : UInt16} {tag : UInt8}
    (hwt : (NamedArgument.field name tag (.string token)).WellTyped md fuel p.assm p.td)
    (hblob : p.blob = (NamedArgument.field name tag (.string token)).bytes ++ rest) :
    p.nextNamed md fuel allocated =
      some (.ok (some ⟨p.currentPos, (md.assembly p.assm).getString name,
          .string (if allocated then some ((md.assembly p.assm).getString token) else none)⟩),
        { p with blob := rest, currentPos := p.currentPos + 1 }) := by
  obtain ⟨fd, dt, hfd, hdt, rfl⟩ := hwt
  rw [nextNamed, hblob, NamedArgument.bytes, ArgumentValue.bytes, List.cons_append, readUInt8,
    Option.bind_some]
  dsimp only
  rw [List.append_assoc, readUInt16_append, Option.bind_some]
  dsimp only
  rw [if_neg (by simp), hfd]
  dsimp only
  rw [hdt, Option.bind_some, List.cons_append]
  dsimp only
  rw [readValue, List.drop_succ_cons, List.drop_zero, readUInt16_append]
  rfl

variable (md fuel allocated) in
/-- A type is no value that the parser can read. -/
theorem nextNamed_type {name token : UInt16} {tag : UInt8}
    (hwt : (NamedArgument.field name tag (.type token)).WellTyped md fuel p.assm p.td)
    (hblob : p.blob = (NamedArgument.field name tag (.type token)).bytes ++ rest) :
    ∃ q, p.nextNamed md fuel allocated = some (.error .wrongType, q) := by
  obtain ⟨fd, dt, hfd, hdt, rfl⟩ := hwt
  rw [nextNamed, hblob, NamedArgument.bytes, ArgumentValue.bytes, List.cons_append, readUInt8,
    Option.bind_some]
  dsimp only
  rw [List.append_assoc, readUInt16_append, Option.bind_some]
  dsimp only
  rw [if_neg (by simp), hfd]
  dsimp only
  rw [hdt, Option.bind_some]
  exact ⟨_, rfl⟩

variable (md fuel allocated) in
theorem nextNamed_property {name : UInt16} {bytes : List UInt8}
    (hblob : p.blob = (NamedArgument.property name bytes).bytes ++ rest) :
    ∃ q, p.nextNamed md fuel allocated = some (.error .notSupported, q) := by
  rw [nextNamed, hblob, NamedArgument.bytes, List.cons_append, readUInt8, Option.bind_some]
  dsimp only
  rw [List.append_assoc, readUInt16_append, Option.bind_some]
  dsimp only
  rw [if_pos (by decide)]
  exact ⟨_, rfl⟩

/-- Before argument `k` of `n`: the number of arguments is read before the first. -/
structure At (p : Parser) (k n : ℕ) (body : List UInt8) : Prop where
  fixedCount : p.fixedCount = 0
  currentPos : p.currentPos = k
  first : k = 0 → p.blob = putUInt16 (UInt16.ofNat n) ++ body
  later : k ≠ 0 → p.namedCount = n ∧ p.blob = body

variable (md fuel allocated) in
theorem next_eq {k n : ℕ} {body : List UInt8} (hat : p.At k n body) (hn : n < 2 ^ 16) :
    p.next md fuel allocated =
      if k < n then { p with namedCount := n, blob := body }.nextNamed md fuel allocated
      else some (.ok none, { p with namedCount := n, blob := body }) := by
  have hstart : (if p.currentPos = p.fixedCount then
      (readUInt16 p.blob).map fun r => { p with namedCount := r.1.toNat, blob := r.2 }
      else some p) = some { p with namedCount := n, blob := body } := by
    by_cases hk : k = 0
    · rw [if_pos (by rw [hat.currentPos, hat.fixedCount, hk]; rfl), hat.first hk,
        readUInt16_append, Option.map_some, UInt16.toNat_ofNat_of_lt' hn]
    · obtain ⟨hcount, hbody⟩ := hat.later hk
      rw [if_neg (by rw [hat.currentPos, hat.fixedCount]; omega), ← hcount, ← hbody]
  rw [next]
  rw [hstart, Option.bind_some]
  dsimp only
  rw [if_neg (by rw [hat.currentPos, hat.fixedCount]; omega), hat.currentPos, hat.fixedCount]
  by_cases hk : k < n
  · rw [if_pos (by omega), if_pos hk]
  · rw [if_neg (by omega), if_neg hk]

theorem values_of_next {p q : Parser} {allocated : ℤ → Bool} {v : NamedValue} {m : ℕ}
    (h : p.next md fuel (allocated p.currentPos) = some (.ok (some v), q)) :
    p.values md fuel allocated (m + 1) =
      (q.values md fuel allocated m).map fun vs => (v :: vs.1, vs.2) := by
  rw [values, h, Option.bind_some]

theorem values_of_error {p q : Parser} {allocated : ℤ → Bool} {x : HResult} {m : ℕ}
    (h : p.next md fuel (allocated p.currentPos) = some (.error x, q)) :
    p.values md fuel allocated (m + 1) = some ([], .error x) := by
  rw [values, h, Option.bind_some]

/-- What the parser returns for one argument is what it returns first. -/
theorem values_cons_iff {p q : Parser} {allocated : ℤ → Bool} {v : NamedValue} {m k : ℕ}
    {arg : NamedArgument} {args : List NamedArgument} {final : List UInt8}
    (h : p.next md fuel (allocated p.currentPos) = some (.ok (some v), q)) (hv : v.pos = k)
    (hassm : q.assm = p.assm) :
    (∃ vs r, p.values md fuel allocated (m + 1) = some (vs, .ok r) ∧ r.blob = final ∧
        DeliversFrom md p.assm k (arg :: args) vs) ↔
      Delivers md p.assm v arg ∧ ∃ vs r, q.values md fuel allocated m = some (vs, .ok r) ∧
        r.blob = final ∧ DeliversFrom md q.assm (k + 1 : ℕ) args vs := by
  rw [values_of_next h, hassm]
  constructor
  · intro hex
    obtain ⟨vs, r, hvalues, hblob, hdel⟩ := hex
    obtain ⟨r', hr', heq⟩ := Option.map_eq_some_iff.mp hvalues
    rw [Prod.mk.injEq] at heq
    obtain ⟨rfl, hok⟩ := heq
    rw [DeliversFrom] at hdel
    refine ⟨hdel.2.1, r'.1, r, ?_, hblob, ?_⟩
    · rw [hr', ← hok]
    · rw [Nat.cast_succ]
      exact hdel.2.2
  · intro hand
    obtain ⟨hd, vs, r, hvalues, hblob, hdel⟩ := hand
    refine ⟨v :: vs, r, ?_, hblob, ?_⟩
    · rw [hvalues]
      rfl
    · rw [DeliversFrom]
      rw [Nat.cast_succ] at hdel
      exact ⟨hv, hd, hdel⟩

theorem values_iff (allocated : ℤ → Bool) {k n m : ℕ} {args : List NamedArgument} {p : Parser}
    {final : List UInt8} (hat : p.At k n (args.flatMap NamedArgument.bytes ++ final))
    (hkn : k + args.length = n) (hn : n < 2 ^ 16) (hm : args.length < m)
    (hwt : ∀ arg ∈ args, arg.WellTyped md fuel p.assm p.td) :
    (∃ vs q, p.values md fuel allocated m = some (vs, .ok q) ∧ q.blob = final ∧
        DeliversFrom md p.assm k args vs) ↔ Readable allocated k args := by
  induction args generalizing k p m with
  | nil =>
      cases m with
      | zero => cases hm
      | succ m =>
          have hnext := next_eq md fuel (allocated p.currentPos) hat hn
          rw [List.length_nil] at hkn
          rw [if_neg (by omega)] at hnext
          refine iff_of_true ⟨[], { p with namedCount := n, blob := final }, ?_, rfl, trivial⟩
            trivial
          rw [values, hnext, Option.bind_some]
          rfl
  | cons arg args ih =>
      cases m with
      | zero => cases hm
      | succ m =>
          rw [List.length_cons] at hkn hm
          have hnext := next_eq md fuel (allocated p.currentPos) hat hn
          rw [if_pos (by omega), List.flatMap_cons, List.append_assoc] at hnext
          have hwtArg := hwt arg List.mem_cons_self
          have hrest : ∀ a ∈ args, a.WellTyped md fuel p.assm p.td := fun a ha =>
            hwt a (List.mem_cons_of_mem _ ha)
          have hlater : At { p with
              namedCount := n
              blob := args.flatMap NamedArgument.bytes ++ final
              currentPos := p.currentPos + 1 } (k + 1) n
              (args.flatMap NamedArgument.bytes ++ final) :=
            { fixedCount := hat.fixedCount
              currentPos := by
                rw [Nat.cast_succ, ← hat.currentPos]
              first := fun h => absurd h (Nat.succ_ne_zero k)
              later := fun _ => ⟨rfl, rfl⟩ }
          cases arg with
          | property name bytes =>
              obtain ⟨q, hq⟩ := nextNamed_property md fuel (allocated p.currentPos)
                (p := { p with
                  namedCount := n
                  blob := (NamedArgument.property name bytes).bytes ++
                    (args.flatMap NamedArgument.bytes ++ final) }) rfl
              rw [hq] at hnext
              refine iff_of_false ?_ id
              rw [values_of_error hnext]
              simp
          | field name tag value =>
              cases value with
              | type token =>
                  obtain ⟨q, hq⟩ := nextNamed_type md fuel (allocated p.currentPos)
                    (p := { p with
                      namedCount := n
                      blob := (NamedArgument.field name tag (.type token)).bytes ++
                        (args.flatMap NamedArgument.bytes ++ final) }) hwtArg rfl
                  rw [hq] at hnext
                  refine iff_of_false ?_ id
                  rw [values_of_error hnext]
                  simp
              | numeric bytes =>
                  obtain ⟨t, hq⟩ := nextNamed_numeric md fuel (allocated p.currentPos)
                    (p := { p with
                      namedCount := n
                      blob := (NamedArgument.field name tag (.numeric bytes)).bytes ++
                        (args.flatMap NamedArgument.bytes ++ final) }) hwtArg rfl
                  rw [hq] at hnext
                  rw [values_cons_iff hnext hat.currentPos rfl,
                    ih hlater (by omega) (by omega) hrest, Readable, Nat.cast_succ]
                  exact and_iff_right ⟨rfl, t, rfl⟩
              | string token =>
                  have hq := nextNamed_string md fuel (allocated p.currentPos)
                    (p := { p with
                      namedCount := n
                      blob := (NamedArgument.field name tag (.string token)).bytes ++
                        (args.flatMap NamedArgument.bytes ++ final) }) hwtArg rfl
                  rw [hq] at hnext
                  rw [values_cons_iff hnext hat.currentPos rfl,
                    ih hlater (by omega) (by omega) hrest, Readable, Nat.cast_succ,
                    hat.currentPos]
                  apply and_congr_left
                  intro _
                  rw [Delivers]
                  cases allocated k <;> simp

end Parser

/-- The attributes of an owner are visited exactly if the owner is a type or a field, or nothing is
confused; an attribute without constructor arguments is parsed exactly if its named arguments are
readable fields. -/
theorem attributes_iff (md : Metadata) (assm : UInt16) (owner : Owner) (filter : Filter)
    (fuel : ℕ) (allocated : ℤ → Bool) (en : Enumerator) (args : List NamedArgument)
    (rest : List UInt8) (hctor : en.found.data ≠ 0 ∧ md.numArgs en.found = 1)
    (hblob : en.blob = attributeBlob args ++ rest) (hcount : args.length < 2 ^ 16)
    (htyped : ∀ arg ∈ args, arg.WellTyped md fuel en.assm (declaringType md en.found)) :
    (visited md assm owner filter = recordsOf md assm owner.recordKey filter ↔
      NoConfusion md assm filter owner) ∧
    (ParsesExactly md fuel allocated en args rest ↔ Readable allocated 0 args) := by
  refine ⟨visited_iff assm owner filter, ?_⟩
  have hinit : Parser.initializeFrom md en = .ok
      { assm := en.assm, blob := en.blob, td := declaringType md en.found, currentPos := 0,
        fixedCount := 0, namedCount := -1 } := by
    rw [Parser.initializeFrom, if_neg hctor.1, hctor.2]
    rfl
  have hat : Parser.At
      { assm := en.assm, blob := en.blob, td := declaringType md en.found, currentPos := 0,
        fixedCount := 0, namedCount := -1 } 0 args.length
      (args.flatMap NamedArgument.bytes ++ rest) :=
    { fixedCount := rfl
      currentPos := rfl
      first := fun _ => by rw [← List.append_assoc]; exact hblob
      later := fun h => absurd rfl h }
  rw [ParsesExactly, hinit]
  have := Parser.values_iff allocated hat (Nat.zero_add _) hcount
    (Nat.lt_succ_self _) htyped
  rw [← Nat.cast_zero, ← this]
  constructor
  · intro h
    obtain ⟨p, vs, q, hp, hrest⟩ := h
    cases hp
    exact ⟨vs, q, hrest⟩
  · intro h
    obtain ⟨vs, q, hrest⟩ := h
    exact ⟨_, vs, q, rfl, hrest⟩

/-! ## A small assembly -/

/-- Type 0 is an attribute class with a constructor, method 0, and two fields: field 0, an `int`
named by string 1, and field 1, a string named by string 2. The method 1 has an attribute, and so
has field 1. -/
def sampleAssembly : Assembly where
  attributes := [⟨tblMethodDef, 1, 0, 2⟩, ⟨tblFieldDef, 1, 0, 4⟩]
  signatures := [6, 7, 0, 0] ++ [2, 0, 0x53, 1, 0, 8, 7, 0, 0, 0, 0x53, 2, 0, 14, 9, 0] ++ [6, 15]
  getString n := if n = 1 then "Flags" else if n = 2 then "Name" else "other"
  methodRef _ := ⟨0, 0⟩
  typeRef _ := ⟨0, 0⟩
  typeSpec _ := 0
  fieldDef i := if i = 0 then ⟨1, 0⟩ else ⟨2, 20⟩

def sampleMetadata : Metadata where
  assembly _ := sampleAssembly
  typeDef _ := ⟨none, false, 17, 0, 2, 0, 0⟩
  numArgs _ := 1
  owner _ := 0
  depth _ := 0
  parent_depth _ _ h := by cases h

/-- The attribute of field 1 of the small assembly: `Flags` is 7, `Name` is string 9. -/
def sampleArguments : List NamedArgument :=
  [.field 1 8 (.numeric [7, 0, 0, 0]), .field 2 14 (.string 9)]

def sampleEnumerator : Enumerator :=
  { (Enumerator.initializeOwner 1 (.field 1)) with
    found := ⟨1, 0⟩
    blob := sampleAssembly.getSignature 4 }

theorem attributes_iff_sample :
    (visited sampleMetadata 1 (.field 1) ⟨none, none⟩ =
        recordsOf sampleMetadata 1 (Owner.field 1).recordKey ⟨none, none⟩ ↔
      NoConfusion sampleMetadata 1 ⟨none, none⟩ (.field 1)) ∧
    (ParsesExactly sampleMetadata 5 (fun _ => true) sampleEnumerator sampleArguments [6, 15] ↔
      Readable (fun _ => true) 0 sampleArguments) :=
  attributes_iff sampleMetadata 1 (.field 1) ⟨none, none⟩ 5 (fun _ => true) sampleEnumerator
    sampleArguments [6, 15] ⟨by decide, rfl⟩ (by decide) (by decide) (by
      intro arg harg
      rw [sampleArguments, List.mem_cons, List.mem_singleton] at harg
      cases harg with
      | inl h =>
          subst h
          exact ⟨⟨1, 0⟩, .numeric .i4, by decide, by rfl, .i4, rfl, rfl⟩
      | inr h =>
          subst h
          exact ⟨⟨1, 1⟩, .string, by decide, by rfl, rfl⟩)

/-- For method 1 of the small assembly the record of field 1 is visited. -/
theorem not_visited_method :
    visited sampleMetadata 1 (.method 1) ⟨none, none⟩ ≠
      recordsOf sampleMetadata 1 (Owner.method 1).recordKey ⟨none, none⟩ := by
  decide

end TinyCLR.Attributes
