import Mathlib
import TinyCLR.FAT.FileName

/-!
# Names in both of their forms

What the writers of a name leave in the entries is what the other functions read there: the length,
the characters, and a match for every name that differs in case only. A short name has a base and an
extension without dots; a long name is put together from portions of thirteen characters.
-/

namespace TinyCLR.FAT

/-- Characters that a name without long entries may have, the dot aside. -/
def IsPlain (c : Nat) : Prop := 0x20 < c ∧ c ≤ 255 ∧ c ≠ 46

/-- A name with its extension behind a dot. -/
def joinExt (base ext : WString) : WString := if ext = [] then base else base ++ 46 :: ext

/-- The same name up to the case of its letters. -/
def SameUpToCase (n name : WString) : Prop := n.map towupper = name.map towupper

theorem SameUpToCase.length_eq {n name : WString} (h : SameUpToCase n name) :
    n.length = name.length := by
  simpa using congrArg List.length h

theorem towupper_eq_dot (c : Nat) : towupper c = 46 ↔ c = 46 := by
  unfold towupper
  split <;> omega

theorem towupper_plain {c n : Nat} (hc : IsPlain c) (h : towupper n = towupper c) : IsPlain n := by
  unfold IsPlain towupper at *
  split at h <;> split at h <;> omega

/-! ## The base and the extension of a short name -/

theorem getFileNameExt_of_dot (base : WString) {ext : WString} (hext : 46 ∉ ext) :
    getFileNameExt (base ++ 46 :: ext) = ext := by
  have hspan : (base ++ 46 :: ext).reverse.span (· != 46) = (ext.reverse, 46 :: base.reverse) := by
    rw [List.span_eq_takeWhile_dropWhile]
    have hall : ∀ c ∈ ext.reverse, (c != 46) = true := by
      intro c hc
      simp only [bne_iff_ne]
      rintro rfl
      exact hext (List.mem_reverse.mp hc)
    simp only [List.reverse_append, List.reverse_cons, List.append_assoc, List.singleton_append]
    rw [List.takeWhile_append_of_pos hall, List.dropWhile_append_of_pos hall]
    simp
  rw [getFileNameExt, hspan]
  exact List.reverse_reverse ext

theorem getFileNameExt_of_no_dot {name : WString} (h : 46 ∉ name) : getFileNameExt name = [] := by
  have hall : ∀ c ∈ name.reverse, (c != 46) = true := by
    intro c hc
    simp only [bne_iff_ne]
    rintro rfl
    exact h (List.mem_reverse.mp hc)
  have hdrop : name.reverse.dropWhile (· != 46) = [] := List.dropWhile_eq_nil_iff.mpr hall
  rw [getFileNameExt, List.span_eq_takeWhile_dropWhile, hdrop]

/-- A name that needs no long entries. -/
structure ShortForm (base ext : WString) : Prop where
  base_ne : base ≠ []
  base_le : base.length ≤ 8
  ext_le : ext.length ≤ 3
  base_plain : ∀ c ∈ base, IsPlain c
  ext_plain : ∀ c ∈ ext, IsPlain c

theorem plain_of_not_long {name : WString} {next : Nat} (hvalid : isFileNameValid name next = true)
    (hshort : isFileLongName name = false) {c : Nat} (hc : c ∈ name) (hdot : c ≠ 46) :
    IsPlain c := by
  unfold isFileNameValid at hvalid
  unfold isFileLongName at hshort
  simp only [Bool.and_eq_true, List.all_eq_true] at hvalid
  simp only [Bool.or_eq_false_iff, List.any_eq_false] at hshort
  have hlow := (hvalid.2 c hc).1
  have hkind := hshort.1.1.2 c hc
  simp only [decide_eq_true_eq] at hlow
  simp at hkind
  unfold IsPlain
  omega

/-- A short name is a base with an extension, unless it ends with a dot. -/
theorem shortForm_of_not_long {name : WString} {next : Nat} (hne : name ≠ [])
    (hvalid : isFileNameValid name next = true) (hshort : isFileLongName name = false) :
    (∃ base ext, ShortForm base ext ∧ name = joinExt base ext) ∨
      ∃ base, ShortForm base [] ∧ base.length < 8 ∧ name = base ++ [46] := by
  have hplain {c : Nat} := plain_of_not_long hvalid hshort (c := c)
  have hparts := hshort
  unfold isFileLongName at hparts
  simp only [Bool.or_eq_false_iff, decide_eq_false_iff_not, beq_eq_false_iff_ne] at hparts
  have hcount := hparts.1.2
  have hhead := hparts.2
  by_cases hdot : 46 ∈ name
  · obtain ⟨base, ext, hname⟩ := List.append_of_mem hdot
    subst hname
    have hcounts : (base ++ 46 :: ext).count 46 = base.count 46 + (ext.count 46 + 1) := by simp
    have hbase : 46 ∉ base := List.count_eq_zero.mp (by omega)
    have hext : 46 ∉ ext := List.count_eq_zero.mp (by omega)
    have hget := getFileNameExt_of_dot base hext
    have hlengths := hparts.1.1.1
    unfold baseNameLen at hlengths
    simp only [hget, List.length_append, List.length_cons] at hlengths
    have hbase_ne : base ≠ [] := by
      rintro rfl
      exact hhead rfl
    have hbase_plain : ∀ c ∈ base, IsPlain c := fun c hc =>
      hplain (by simp [hc]) (fun h => hbase (h ▸ hc))
    have hext_plain : ∀ c ∈ ext, IsPlain c := fun c hc =>
      hplain (by simp [hc]) (fun h => hext (h ▸ hc))
    cases ext with
    | nil =>
        simp only [List.length_nil, lt_irrefl, if_false] at hlengths
        exact .inr ⟨base, ⟨hbase_ne, by omega, by simp, hbase_plain, by simp⟩, by omega, rfl⟩
    | cons c ext =>
        simp only [List.length_cons, Nat.succ_pos, if_true] at hlengths
        refine .inl ⟨base, c :: ext, ⟨hbase_ne, ?_, ?_, hbase_plain, hext_plain⟩, ?_⟩
        · omega
        · simpa using hlengths.2
        · simp [joinExt]
  · have hlengths := hparts.1.1.1
    unfold baseNameLen at hlengths
    rw [getFileNameExt_of_no_dot hdot] at hlengths
    simp only [List.length_nil, lt_irrefl, if_false] at hlengths
    have hplain' : ∀ c ∈ name, IsPlain c := fun c hc => hplain hc (fun h => hdot (h ▸ hc))
    refine .inl ⟨name, [], ⟨hne, ?_, by simp, hplain', by simp⟩, by simp [joinExt]⟩
    omega

theorem getLast?_joinExt {base ext : WString} (h : ShortForm base ext) :
    (joinExt base ext).getLast? ≠ some 46 := by
  intro hlast
  by_cases hext : ext = []
  · rw [joinExt, if_pos hext] at hlast
    exact (h.base_plain 46 (List.mem_of_getLast? hlast)).2.2 rfl
  · have happend : base ++ 46 :: ext = (base ++ [46]) ++ ext := by simp
    rw [joinExt, if_neg hext, happend, List.getLast?_append_of_ne_nil _ hext] at hlast
    exact (h.ext_plain 46 (List.mem_of_getLast? hlast)).2.2 rfl

/-! ## The eleven bytes -/

namespace DIR

/-- A base name as it is stored: the first character must not be the mark of a free entry. -/
def storedBase : Bool → WString → List Nat
  | true, c :: base => (if c = 0xE5 then 0x05 else c) :: base
  | _, base => base

theorem length_storedBase (isFirst : Bool) (base : WString) :
    (storedBase isFirst base).length = base.length := by
  cases isFirst with
  | false => cases base <;> rfl
  | true => cases base <;> rfl

theorem storedBase_ne_blank {isFirst : Bool} {base : WString} (h : ∀ c ∈ base, IsPlain c) :
    ∀ b ∈ storedBase isFirst base, (b != whitespaceChar) = true := by
  intro b hb
  have hplain {c : Nat} (hc : IsPlain c) : (c != whitespaceChar) = true := by
    unfold IsPlain at hc
    simp only [whitespaceChar, bne_iff_ne]
    omega
  cases isFirst with
  | false => exact hplain (h b (by cases base <;> exact hb))
  | true =>
      cases base with
      | nil => cases hb
      | cons c base =>
          rw [storedBase, List.mem_cons] at hb
          cases hb with
          | inl hb =>
              rw [hb]
              split
              · rfl
              · exact hplain (h c (by simp))
          | inr hb => exact hplain (h b (by simp [hb]))

/-- What follows the base of a name: nothing, or a dot with an extension. -/
def IsRest (rest : WString) : Prop := rest = [] ∨ ∃ ext, rest = 46 :: ext

theorem takeBase_append (isFirst : Bool) {base rest : WString} {j : Nat}
    (hbase : ∀ c ∈ base, IsPlain c) (hlength : base.length ≤ j) (hrest : IsRest rest) :
    takeBase j isFirst (base ++ rest) =
      (storedBase isFirst base, if base.length = j then rest else rest.tail) := by
  induction base generalizing j isFirst with
  | nil =>
      have hstored : storedBase isFirst [] = [] := by cases isFirst <;> rfl
      cases j with
      | zero => simp [takeBase, hstored]
      | succ j =>
          cases hrest with
          | inl hrest => simp [hrest, takeBase, hstored]
          | inr hrest =>
              cases hrest with
              | intro ext hrest => simp [hrest, takeBase, hstored]
  | cons c base ih =>
      have hc : IsPlain c := hbase c (by simp)
      unfold IsPlain at hc
      cases j with
      | zero => simp at hlength
      | succ j =>
          have hmod : c % 256 = c := Nat.mod_eq_of_lt (by omega)
          have hbase' : ∀ c ∈ base, IsPlain c := fun c hc => hbase c (by simp [hc])
          have ih := ih false hbase' (Nat.le_of_succ_le_succ hlength)
          have hstored : storedBase false base = base := by cases base <;> rfl
          rw [List.cons_append, takeBase]
          simp only [hmod, hc.2.2, if_false, ih, hstored, List.length_cons,
            Nat.add_right_cancel_iff]
          cases isFirst with
          | false => simp [storedBase]
          | true => simp [storedBase]

theorem skipDot_plain {ext : WString} (h : ∀ c ∈ ext, IsPlain c) : skipDot ext = ext := by
  cases ext with
  | nil => rfl
  | cons c ext =>
      rw [skipDot, if_neg]
      exact (h c (by simp)).2.2

/-- The extension behind the base, whether the base fills its eight characters or not. -/
theorem skipDot_rest (base : WString) {ext : WString} (h : ∀ c ∈ ext, IsPlain c) (j : Nat) :
    skipDot (if base.length = j then if ext = [] then [] else 46 :: ext
      else (if ext = [] then [] else 46 :: ext).tail) = ext := by
  by_cases hext : ext = []
  · simp [hext, skipDot]
  · simp only [if_neg hext, List.tail_cons]
    split
    · rfl
    · exact skipDot_plain h

theorem isRest_ext (ext : WString) : IsRest (if ext = [] then [] else 46 :: ext) := by
  split
  · exact .inl rfl
  · exact .inr ⟨ext, rfl⟩

theorem joinExt_eq_append (base ext : WString) :
    joinExt base ext = base ++ if ext = [] then [] else 46 :: ext := by
  unfold joinExt
  split <;> simp

theorem setName_joinExt {base ext : WString} (h : ShortForm base ext) :
    setName (joinExt base ext) = padTo 8 (storedBase true base) ++ padTo 3 ext := by
  have htake : (ext.take 3).map (· % 256) = ext := by
    rw [List.take_of_length_le h.ext_le]
    calc ext.map (· % 256) = ext.map id := by
          apply List.map_congr_left
          intro c hc
          have hplain := h.ext_plain c hc
          unfold IsPlain at hplain
          exact Nat.mod_eq_of_lt (by omega)
      _ = ext := List.map_id ext
  rw [setName, joinExt_eq_append, takeBase_append true h.base_plain h.base_le (isRest_ext ext)]
  simp only [skipDot_rest base h.ext_plain, htake]

theorem length_padTo {n : Nat} {bytes : List Nat} (h : bytes.length ≤ n) :
    (padTo n bytes).length = n := by
  simp [padTo]
  omega

theorem length_stored {base : WString} (hbase : base.length ≤ 8) :
    (padTo 8 (storedBase true base)).length = 8 :=
  length_padTo (by rwa [length_storedBase])

theorem takeWhile_padTo {n : Nat} {bytes : List Nat}
    (h : ∀ b ∈ bytes, (b != whitespaceChar) = true) :
    (padTo n bytes).takeWhile (· != whitespaceChar) = bytes := by
  rw [padTo, List.takeWhile_append_of_pos h]
  cases n - bytes.length with
  | zero => simp
  | succ k => simp [List.replicate_succ]

theorem ne_blank_of_plain {ext : WString} (h : ∀ c ∈ ext, IsPlain c) :
    ∀ b ∈ ext, (b != whitespaceChar) = true := by
  intro b hb
  have hplain := h b hb
  unfold IsPlain at hplain
  simp only [whitespaceChar, bne_iff_ne]
  omega

/-- There is a dot in the name when the extension does not start with a blank. -/
theorem headD_padTo {ext : WString} (h : ∀ c ∈ ext, IsPlain c) :
    (padTo 3 ext).headD whitespaceChar = whitespaceChar ↔ ext = [] := by
  cases ext with
  | nil => simp [padTo, whitespaceChar, List.replicate_succ]
  | cons c ext =>
      have hc := h c (by simp)
      unfold IsPlain at hc
      simp only [padTo, List.cons_append, List.headD_cons, whitespaceChar, reduceCtorEq, iff_false]
      omega

theorem getNameLength_joinExt {base ext : WString} (h : ShortForm base ext) :
    getNameLength (setName (joinExt base ext)) = (joinExt base ext).length := by
  have hlength := length_stored h.base_le
  rw [setName_joinExt h, getNameLength, List.take_left' hlength, List.drop_left' hlength,
    takeWhile_padTo (storedBase_ne_blank h.base_plain),
    takeWhile_padTo (ne_blank_of_plain h.ext_plain), length_storedBase]
  simp only [headD_padTo h.ext_plain, joinExt]
  split
  · simp [*]
  · simp
    omega

/-- The name that a base without an extension leaves, when the dot behind it is lost. -/
theorem setName_dot {base : WString} (h : ShortForm base []) (hlt : base.length < 8) :
    setName (base ++ [46]) = setName base := by
  have hdot := takeBase_append true h.base_plain h.base_le (.inr ⟨[], rfl⟩)
  have hplain := takeBase_append true h.base_plain h.base_le (.inl rfl)
  rw [List.append_nil] at hplain
  rw [setName, setName, hdot, hplain, if_neg (Nat.ne_of_lt hlt), if_neg (Nat.ne_of_lt hlt)]
  rfl

theorem length_setName {name : WString} {next : Nat} (hne : name ≠ [])
    (hvalid : isFileNameValid name next = true) (hshort : isFileLongName name = false) :
    (setName name).length = 11 := by
  have hjoin {base ext : WString} (h : ShortForm base ext) :
      (setName (joinExt base ext)).length = 11 := by
    rw [setName_joinExt h, List.length_append, length_stored h.base_le, length_padTo h.ext_le]
  cases shortForm_of_not_long hne hvalid hshort with
  | inl hform =>
      obtain ⟨base, ext, hform, hname⟩ := hform
      rw [hname]
      exact hjoin hform
  | inr hform =>
      obtain ⟨base, hform, hlt, hname⟩ := hform
      rw [hname, setName_dot hform hlt]
      exact hjoin hform

theorem setName_lt {base ext : WString} (h : ShortForm base ext) :
    ∀ b ∈ setName (joinExt base ext), b < 256 := by
  have hplain {c : Nat} (hc : IsPlain c) : c < 256 := by
    unfold IsPlain at hc
    omega
  have hpad {n : Nat} {bytes : List Nat} (hbytes : ∀ b ∈ bytes, b < 256) :
      ∀ b ∈ padTo n bytes, b < 256 := by
    intro b hb
    simp only [padTo, List.mem_append, List.mem_replicate] at hb
    cases hb with
    | inl hb => exact hbytes b hb
    | inr hb => simp [hb.2, whitespaceChar]
  have hstored : ∀ b ∈ storedBase true base, b < 256 := by
    cases hbase : base with
    | nil => simp [storedBase]
    | cons c rest =>
        intro b hb
        rw [storedBase, List.mem_cons] at hb
        cases hb with
        | inl hb =>
            rw [hb]
            split
            · decide
            · exact hplain (h.base_plain c (by simp [hbase]))
        | inr hb => exact hplain (h.base_plain b (by simp [hbase, hb]))
  intro b hb
  rw [setName_joinExt h, List.mem_append] at hb
  cases hb with
  | inl hb => exact hpad hstored b hb
  | inr hb => exact hpad (fun c hc => hplain (h.ext_plain c hc)) b hb

/-- The first byte is not one that marks a free entry. -/
theorem head_setName {base ext : WString} (h : ShortForm base ext) :
    ∃ b, (setName (joinExt base ext)).head? = some b ∧ b ≠ 0xE5 ∧ b ≠ 0 := by
  rw [setName_joinExt h]
  cases hbase : base with
  | nil => exact absurd hbase h.base_ne
  | cons c rest =>
      have hc := h.base_plain c (by simp [hbase])
      unfold IsPlain at hc
      refine ⟨if c = 0xE5 then 0x05 else c, by simp [storedBase, padTo], ?_, ?_⟩
      · split <;> omega
      · split <;> omega

/-- The length of a name with a dot at its end is not read back. -/
theorem getNameLength_dot {base : WString} (h : ShortForm base []) (hlt : base.length < 8) :
    getNameLength (setName (base ++ [46])) ≠ (base ++ [46]).length := by
  have hlength := getNameLength_joinExt h
  rw [setName_dot h hlt]
  rw [joinExt, if_pos rfl] at hlength
  rw [hlength, List.length_append, List.length_singleton]
  omega

/-- The mark for `0xE5` cannot come from a character of a name. -/
theorem unstore_storedBase {base : WString} (h : ∀ c ∈ base, IsPlain c) :
    (if (storedBase true base).head? = some 0x05 then 0xE5 :: (storedBase true base).tail
      else storedBase true base) = base := by
  cases base with
  | nil => rfl
  | cons c base =>
      have hc := h c (by simp)
      unfold IsPlain at hc
      rw [storedBase]
      by_cases hE5 : c = 0xE5
      · simp [hE5]
      · have hne : c ≠ 5 := by omega
        simp [hE5, hne]

theorem copyName_joinExt {base ext : WString} (h : ShortForm base ext) :
    copyName (setName (joinExt base ext)) = joinExt base ext ++ [0] := by
  have hlength := length_stored h.base_le
  rw [setName_joinExt h, copyName, List.take_left' hlength, List.drop_left' hlength,
    takeWhile_padTo (storedBase_ne_blank h.base_plain),
    takeWhile_padTo (ne_blank_of_plain h.ext_plain)]
  simp only [unstore_storedBase h.base_plain, headD_padTo h.ext_plain, joinExt]
  split
  · simp [*]
  · simp

/-! ### The comparison -/

theorem matchExt_padTo {ext ext' : WString} (n : Nat) (h : ∀ c ∈ ext, IsPlain c)
    (hsame : SameUpToCase ext' ext) :
    matchExt (ext ++ List.replicate n whitespaceChar) ext' = true := by
  induction ext generalizing ext' with
  | nil =>
      have hnil : ext' = [] := List.length_eq_zero_iff.mp hsame.length_eq
      subst hnil
      cases n with
      | zero => rfl
      | succ n => simp [matchExt, List.replicate_succ]
  | cons c ext ih =>
      cases ext' with
      | nil => exact absurd hsame.length_eq (by simp)
      | cons c' ext' =>
          unfold SameUpToCase at hsame
          simp only [List.map_cons, List.cons.injEq] at hsame
          have hplain := towupper_plain (h c (by simp)) hsame.1
          unfold IsPlain at hplain
          have hmod : c' % 256 = c' := Nat.mod_eq_of_lt (by omega)
          have ih := ih (fun c hc => h c (by simp [hc])) hsame.2
          rw [List.cons_append, matchExt, ih, hmod, hsame.1]
          simp

theorem matchBase_append (isFirst : Bool) {base base' rest : WString} (n : Nat)
    (h : ∀ c ∈ base, IsPlain c) (hsame : SameUpToCase base' base) (hrest : IsRest rest) :
    matchBase (storedBase isFirst base ++ List.replicate n whitespaceChar) isFirst (base' ++ rest) =
      some (List.replicate n whitespaceChar, if n = 0 then rest else rest.tail) := by
  induction base generalizing base' isFirst with
  | nil =>
      have hstored : storedBase isFirst [] = [] := by cases isFirst <;> rfl
      have hnil : base' = [] := List.length_eq_zero_iff.mp hsame.length_eq
      subst hnil
      cases n with
      | zero => simp [hstored, matchBase]
      | succ n =>
          cases hrest with
          | inl hrest => simp [hrest, hstored, matchBase, List.replicate_succ]
          | inr hrest =>
              cases hrest with
              | intro ext hrest => simp [hrest, hstored, matchBase, List.replicate_succ]
  | cons c base ih =>
      cases base' with
      | nil => exact absurd hsame.length_eq (by simp)
      | cons c' base' =>
          unfold SameUpToCase at hsame
          simp only [List.map_cons, List.cons.injEq] at hsame
          have hplain := towupper_plain (h c (by simp)) hsame.1
          unfold IsPlain at hplain
          have hmod : c' % 256 = c' := Nat.mod_eq_of_lt (by omega)
          have ih := ih false (fun c hc => h c (by simp [hc])) hsame.2
          have hstored : storedBase false base = base := by cases base <;> rfl
          have hE5 : c' = 0xE5 ↔ c = 0xE5 := by
            have hcase := hsame.1
            unfold towupper at hcase
            split at hcase <;> split at hcase <;> omega
          rw [hstored] at ih
          cases isFirst with
          | false =>
              rw [storedBase, List.cons_append, List.cons_append, matchBase]
              · simp [hmod, hplain.2.2, hsame.1, ih]
              · simp
          | true =>
              rw [storedBase, List.cons_append, List.cons_append, matchBase]
              by_cases hc : c = 0xE5
              · simp [hE5.mpr hc, hc, ih]
              · simp [hmod, hplain.2.2, hE5, hc, hsame.1, ih]

/-- A name that differs in case only has the same parts. -/
theorem sameUpToCase_joinExt {base ext n : WString} (h : SameUpToCase n (joinExt base ext)) :
    ∃ base' ext', n = joinExt base' ext' ∧ SameUpToCase base' base ∧ SameUpToCase ext' ext := by
  unfold SameUpToCase at h
  by_cases hext : ext = []
  · rw [joinExt, if_pos hext] at h
    exact ⟨n, [], by simp [joinExt], h, by simp [SameUpToCase, hext]⟩
  · rw [joinExt, if_neg hext, List.map_append, List.map_cons] at h
    obtain ⟨base', rest, hn, hbase, hrest⟩ := List.map_eq_append_iff.mp h
    obtain ⟨c, ext', hcons, hc, hext'⟩ := List.map_eq_cons_iff.mp hrest
    have hdot : c = 46 := (towupper_eq_dot c).mp (hc.trans rfl)
    have hne : ext' ≠ [] := by
      rintro rfl
      exact hext (List.map_eq_nil_iff.mp hext'.symm)
    refine ⟨base', ext', ?_, hbase, hext'⟩
    rw [joinExt, if_neg hne, hn, hcons, hdot]

theorem isName_setName {base ext n : WString} (h : ShortForm base ext)
    (hsame : SameUpToCase n (joinExt base ext)) : isName (setName (joinExt base ext)) n = true := by
  obtain ⟨base', ext', hn, hbase, hext⟩ := sameUpToCase_joinExt hsame
  have hlength := length_stored h.base_le
  have hext_nil : ext' = [] ↔ ext = [] := by
    rw [← List.length_eq_zero_iff, ← List.length_eq_zero_iff, hext.length_eq]
  have hext_plain : ∀ c ∈ ext', IsPlain c := by
    intro c hc
    have hmem : towupper c ∈ ext.map towupper := hext ▸ List.mem_map_of_mem hc
    obtain ⟨c', hc', hcase⟩ := List.mem_map.mp hmem
    exact towupper_plain (h.ext_plain c' hc') hcase.symm
  have hzero : 8 - (storedBase true base).length = 0 ↔ base'.length = 8 := by
    have hbase_le := h.base_le
    rw [length_storedBase, hbase.length_eq]
    omega
  have hbytes := matchBase_append true (8 - (storedBase true base).length)
    h.base_plain hbase (isRest_ext ext')
  have hskip := skipDot_rest base' hext_plain 8
  rw [setName_joinExt h, isName, List.take_left' hlength, List.drop_left' hlength, hn,
    joinExt_eq_append base', padTo, hbytes]
  simp only [hzero, hskip, List.all_replicate, padTo]
  rw [matchExt_padTo _ h.ext_plain hext]
  simp [whitespaceChar]

end DIR

/-! ## Portions of a long name -/

namespace LDIR

theorem setName_eq_append {portion : WString} (h : portion.length ≤ 13) :
    setName portion = portion ++ if portion.length < 13 then
      0 :: List.replicate (12 - portion.length) 0xFFFF else [] := by
  unfold setName
  split
  · rfl
  · rw [List.take_of_length_le h, List.append_nil]

theorem length_setName (portion : WString) : (setName portion).length = 13 := by
  unfold setName
  split
  · simp
    omega
  · simp
    omega

theorem getNameLength_setName {portion : WString} (h : portion.length ≤ 13)
    (hzero : ∀ c ∈ portion, c ≠ 0) : getNameLength (setName portion) = portion.length := by
  have hall : ∀ c ∈ portion, (c != 0) = true := fun c hc => by simpa using hzero c hc
  rw [getNameLength, setName_eq_append h, List.takeWhile_append_of_pos hall]
  split <;> simp

theorem copyName_append {portion rest : WString} (hzero : ∀ c ∈ portion, c ≠ 0) :
    copyName (portion ++ rest) = portion ++ copyName rest := by
  induction portion with
  | nil => rfl
  | cons c portion ih =>
      have hc : c ≠ 0 := hzero c (by simp)
      rw [List.cons_append, copyName, if_neg hc, ih (fun c hc => hzero c (by simp [hc]))]
      rfl

theorem copyName_setName {portion : WString} (h : portion.length ≤ 13)
    (hzero : ∀ c ∈ portion, c ≠ 0) :
    copyName (setName portion) = portion ++ if portion.length < 13 then [0] else [] := by
  rw [setName_eq_append h, copyName_append hzero]
  split
  · simp [copyName]
  · rfl

theorem isName_append {portion n rest : WString} (hsame : SameUpToCase n portion)
    (hrest : rest = [] ∨ ∃ tail, rest = 0 :: tail) : isName (portion ++ rest) n = true := by
  induction portion generalizing n with
  | nil =>
      have hnil : n = [] := List.length_eq_zero_iff.mp hsame.length_eq
      subst hnil
      cases hrest with
      | inl hrest => simp [hrest, isName]
      | inr hrest =>
          cases hrest with
          | intro tail hrest => simp [hrest, isName]
  | cons c portion ih =>
      cases n with
      | nil => exact absurd hsame.length_eq (by simp)
      | cons c' n =>
          unfold SameUpToCase at hsame
          simp only [List.map_cons, List.cons.injEq] at hsame
          rw [List.cons_append, isName, ih hsame.2, hsame.1]
          simp

theorem isName_setName {portion n : WString} (h : portion.length ≤ 13)
    (hsame : SameUpToCase n portion) : isName (setName portion) n = true := by
  rw [setName_eq_append h]
  apply isName_append hsame
  split
  · exact .inr ⟨_, rfl⟩
  · exact .inl rfl

/-- What is stored fits into the two bytes of a character. -/
theorem setName_lt {portion : WString} (h : ∀ c ∈ portion, c < 2 ^ 16) :
    ∀ c ∈ setName portion, c < 2 ^ 16 := by
  intro c hc
  unfold setName at hc
  split at hc
  · simp only [List.mem_append, List.mem_cons, List.mem_replicate] at hc
    cases hc with
    | inl hc => exact h c hc
    | inr hc => omega
  · exact h c (List.mem_of_mem_take hc)

end LDIR

/-! ## All portions of a name -/

/-- The number of long entries that a name takes. -/
def portionCount (name : WString) : Nat := (name.length + 12) / 13

theorem namePortion_eq (name : WString) (i : Nat) :
    namePortion name (portionCount name) (i + 1) = (name.drop (13 * i)).take 13 := by
  unfold namePortion portionCount at *
  split
  · rw [Nat.add_sub_cancel]
    apply List.take_eq_take_iff.mpr
    rw [List.length_drop]
    omega
  · rfl

theorem length_namePortion_le (name : WString) (i : Nat) :
    (namePortion name (portionCount name) (i + 1)).length ≤ 13 := by
  rw [namePortion_eq]
  exact List.length_take_le ..

/-- Portions of names that differ in case only do so, too. -/
theorem sameUpToCase_namePortion {n name : WString} (h : SameUpToCase n name) (count i : Nat) :
    SameUpToCase (namePortion n count i) (namePortion name count i) := by
  unfold SameUpToCase namePortion at *
  rw [List.map_take, List.map_drop, List.map_take, List.map_drop, h]
  have hlength := congrArg List.length h
  simp only [List.length_map] at hlength
  rw [hlength]

/-- The length that the entry with the highest order adds to full portions. -/
theorem length_last_portion {name : WString} (hne : name ≠ []) :
    (namePortion name (portionCount name) (portionCount name)).length +
      (portionCount name - 1) * 13 = name.length := by
  have hpos := List.length_pos_of_ne_nil hne
  have hcount : portionCount name - 1 + 1 = portionCount name := by
    unfold portionCount
    omega
  have heq := namePortion_eq name (portionCount name - 1)
  rw [hcount] at heq
  rw [heq, List.length_take, List.length_drop]
  unfold portionCount at *
  omega

/-! ## Generated short names -/

theorem length_basisPart (room : Nat) (cs : WString) : (basisPart room cs).1.length ≤ room := by
  induction cs generalizing room with
  | nil => cases room <;> simp [basisPart]
  | cons c cs ih =>
      cases room with
      | zero => simp [basisPart]
      | succ room =>
          rw [basisPart]
          cases hc : setBasisNameChar c with
          | mk found needsTrail =>
              cases found with
              | none => exact ih (room + 1)
              | some b => exact Nat.succ_le_succ (ih room)

theorem length_generateBasisName (fileName : WString) :
    (generateBasisName fileName).1.length = 11 := by
  simp only [generateBasisName, List.length_append]
  rw [DIR.length_padTo (length_basisPart 8 _), DIR.length_padTo (length_basisPart 3 _)]

theorem firstFree_le (taken : List Nat) : firstFree taken ≤ conversionMapSize + 1 := by
  unfold firstFree
  cases hfound : ((List.range conversionMapSize).map (· + 1)).find?
      fun num => !taken.contains num with
  | none => exact Nat.le_refl _
  | some num =>
      have hmem := List.mem_of_find?_eq_some hfound
      simp only [List.mem_map, List.mem_range] at hmem
      simp only [Option.getD_some]
      omega

theorem length_attachNumTail {shortName : ShortName} {num : Nat} (h : shortName.length = 11)
    (hnum : num ≤ conversionMapSize + 1) : (attachNumTail shortName num).length = 11 := by
  have hdigits : (Nat.toDigits 10 num).length ≤ 3 :=
    (Nat.length_toDigits_le_iff (by decide) (by decide)).mpr
      (Nat.lt_of_le_of_lt hnum (by decide))
  have hbase : ((shortName.take (8 - ((Nat.toDigits 10 num).length + 1))).reverse.dropWhile
      (· == whitespaceChar)).length ≤ 8 - ((Nat.toDigits 10 num).length + 1) := by
    calc _ ≤ (shortName.take (8 - ((Nat.toDigits 10 num).length + 1))).reverse.length :=
          (List.dropWhile_sublist _).length_le
      _ ≤ _ := by simp
  rw [attachNumTail, List.length_append, List.length_drop, h, DIR.length_padTo]
  simp only [List.length_append, List.length_reverse, List.length_cons, List.length_map]
  omega

/-- A short name made from a long one has its eleven characters. -/
theorem length_longToShortName (longName : WString) (dirNames : List ShortName) :
    (longToShortName longName dirNames).length = 11 := by
  have hbasis := length_generateBasisName longName
  unfold longToShortName
  simp only
  split
  · exact length_attachNumTail hbasis (firstFree_le _)
  · exact hbasis

/-- The checksum looks at the low byte of each character. -/
theorem getShortNameChksum_bytes (shortName : ShortName) :
    getShortNameChksum (shortName.map (· % 256)) = getShortNameChksum shortName := by
  unfold getShortNameChksum
  rw [List.foldl_map]
  congr 1
  funext sum c
  rw [Nat.add_mod_mod]

theorem getShortNameChksum_lt {shortName : ShortName} : getShortNameChksum shortName < 256 := by
  unfold getShortNameChksum
  cases shortName using List.reverseRecOn with
  | nil => simp
  | append_singleton shortName c =>
      rw [List.foldl_append]
      exact Nat.mod_lt _ (by decide)

end TinyCLR.FAT
