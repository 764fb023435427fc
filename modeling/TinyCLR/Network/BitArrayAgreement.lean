import Mathlib
import TinyCLR.Network.BitArray

/-!
# Bit arrays and arrays of booleans

The operations of a bit array against the same operations on an array of booleans. Only an index
from -31 to -1 makes a difference: the bit array takes it for a bit of its first word.
-/

namespace TinyCLR.Network

open PackedBits

/-- The calls on a bit array. -/
inductive Call where
  | set (index : ℤ) (value : Bool)
  | get (index : ℤ)
  | setAll (value : Bool)
  | and (value : BitArray)
  | or (value : BitArray)
  | not
  | checkAllSet (value : Bool)
  | hasSameContent (other : BitArray)

inductive Answer where
  | done
  | bool (value : Bool)
  deriving DecidableEq, Repr

namespace BitArray

variable (b : BitArray)

/-- The answer of a change, and the array after it. -/
def changed (r : Except Exception BitArray) : Except Exception Answer × BitArray :=
  match r with
  | .error e => (.error e, b)
  | .ok b' => (.ok .done, b')

def step : Call → Except Exception Answer × BitArray
  | .set index value => b.changed (b.set index value)
  | .get index => ((b.get index).map .bool, b)
  | .setAll value => (.ok .done, b.setAll value)
  | .and value => b.changed (b.and value)
  | .or value => b.changed (b.or value)
  | .not => (.ok .done, b.not)
  | .checkAllSet value => (.ok (.bool (b.checkAllSet value)), b)
  | .hasSameContent other => (.ok (.bool (b.hasSameContent other)), b)

end BitArray

/-- The calls on an array of booleans; a call that throws has no answer and changes nothing. -/
def boolStep (l : List Bool) : Call → Option Answer × List Bool
  | .set index value =>
      if 0 ≤ index ∧ index < l.length then (some .done, l.set index.toNat value) else (none, l)
  | .get index => (if index < 0 then none else l[index.toNat]?.map .bool, l)
  | .setAll value => (some .done, l.map fun _ => value)
  | .and value =>
      if value.toList.length = l.length then (some .done, l.zipWith Bool.and value.toList)
      else (none, l)
  | .or value =>
      if value.toList.length = l.length then (some .done, l.zipWith Bool.or value.toList)
      else (none, l)
  | .not => (some .done, l.map Bool.not)
  | .checkAllSet value => (some (.bool (l.all (· == value))), l)
  | .hasSameContent other => (some (.bool (l == other.toList)), l)

/-- A call answers and changes what it does on an array of booleans. -/
def Agrees (b : BitArray) (call : Call) : Prop :=
  ((b.step call).1.toOption, (b.step call).2.toList) = boolStep b.toList call

/-- All calls of a run do so. -/
def AgreesRun (b : BitArray) : List Call → Prop
  | [] => True
  | call :: calls => Agrees b call ∧ AgreesRun (b.step call).2 calls

/-- The index of a call is not one of those that the test of an index misses. -/
def Call.Caught : Call → Prop
  | .set index _ | .get index => ¬(-32 < index ∧ index < 0)
  | _ => True

section Elements

variable {b : BitArray}

theorem le_requiredUInt32ArraySize (size : ℕ) : size ≤ 32 * requiredUInt32ArraySize size := by
  rw [requiredUInt32ArraySize]
  split_ifs <;> omega

theorem BitArray.size_le (b : BitArray) : b.size ≤ 32 * b.array.length :=
  b.length_array ▸ le_requiredUInt32ArraySize b.size

@[simp] theorem BitArray.length_toList (b : BitArray) : b.toList.length = b.size := by
  rw [BitArray.toList, List.length_take, length_unpack, Nat.min_eq_left b.size_le]

theorem getLsbD_fill (value : Bool) {i : ℕ} (hi : i < 32) :
    (BitArray.fill value).getLsbD i = value := by
  cases value with
  | false => exact BitVec.getLsbD_zero
  | true =>
      interval_cases i <;> rfl

/-- The word of an index inside, and the place of its bit. -/
theorem BitArray.word_inside {i : ℕ} (hi : i < b.size) :
    ∃ x, b.array[i / 32]? = some x ∧ b.word ((i : ℤ).tdiv 32) = some x ∧
      b.toList[i]? = some (x.getLsbD (i % 32)) := by
  have hle := b.size_le
  have hlt : i / 32 < b.array.length := by omega
  have hdiv : (i : ℤ).tdiv 32 = ((i / 32 : ℕ) : ℤ) := by
    rw [Int.tdiv_eq_ediv_of_nonneg (by omega)]
    rfl
  refine ⟨b.array[i / 32], List.getElem?_eq_getElem hlt, ?_, ?_⟩
  · rw [BitArray.word, hdiv, if_neg (by omega), Int.toNat_natCast, List.getElem?_eq_getElem hlt]
  · rw [BitArray.toList, List.getElem?_take, if_pos hi, getElem?_unpack (by omega),
      List.getElem?_eq_getElem hlt]
    rfl

theorem BitArray.flag_natCast (i : ℕ) : BitArray.flag i = 1#32 <<< (i % 32) := by
  have : (i : ℤ).tmod 32 % 32 = ((i % 32 : ℕ) : ℤ) := by
    rw [Int.tmod_eq_emod_of_nonneg (by omega), Int.emod_emod_of_dvd _ (dvd_refl _)]
    rfl
  rw [BitArray.flag, this, Int.toNat_natCast]

theorem BitArray.get_inside {i : ℕ} {c : Bool} (h : b.toList[i]? = some c) :
    b.get i = .ok c := by
  have hi : i < b.size := by
    have := (List.getElem?_eq_some_iff.mp h).1
    rwa [BitArray.length_toList] at this
  obtain ⟨x, -, hword, hbit⟩ := BitArray.word_inside hi
  rw [BitArray.get, if_neg (by omega), hword, BitArray.flag_natCast]
  dsimp only
  rw [meets_flag x (by omega), ← Option.some.inj (hbit.symm.trans h)]

theorem BitArray.set_inside {i : ℕ} (hi : i < b.size) (value : Bool) :
    ∃ b', b.set i value = .ok b' ∧ b'.toList = b.toList.set i value := by
  obtain ⟨x, hx, hword, -⟩ := BitArray.word_inside hi
  have hdiv : ((i : ℤ).tdiv 32).toNat = i / 32 := by
    rw [Int.tdiv_eq_ediv_of_nonneg (by omega)]
    rfl
  refine ⟨_, by rw [BitArray.set, if_neg (by omega)]; dsimp only; rw [hword], ?_⟩
  change ((unpack (b.array.set ((i : ℤ).tdiv 32).toNat _)).take b.size) = _
  rw [hdiv, BitArray.flag_natCast, unpack_set (b := value) (by omega) hx, BitArray.toList,
    List.take_set]
  · intro j hj
    cases value with
    | true =>
        rw [if_pos rfl, BitVec.getLsbD_or, getLsbD_one_shift hj]
        split_ifs with h
        · rw [decide_eq_true h, Bool.or_true]
        · rw [decide_eq_false h, Bool.or_false]
    | false =>
        rw [if_neg Bool.false_ne_true, BitVec.getLsbD_and, BitVec.getLsbD_not,
          decide_eq_true hj, Bool.true_and, getLsbD_one_shift hj]
        split_ifs with h
        · rw [decide_eq_true h, Bool.not_true, Bool.and_false]
        · rw [decide_eq_false h, Bool.not_false, Bool.and_true]

/-- An index at the end or behind it, or far below the start, is refused. -/
theorem BitArray.refuses {index : ℤ} (h : b.size ≤ index ∨ index ≤ -32) (value : Bool) :
    (∃ e, b.get index = .error e) ∧ ∃ e, b.set index value = .error e := by
  rcases h with h | h
  · exact ⟨⟨_, by rw [BitArray.get, if_pos h]⟩, ⟨_, by rw [BitArray.set, if_pos h]⟩⟩
  · obtain ⟨n, rfl⟩ : ∃ n : ℕ, index = -n := ⟨(-index).toNat, by omega⟩
    have hword : b.word ((-(n : ℤ)).tdiv 32) = none := by
      have hdiv : (-(n : ℤ)).tdiv 32 = -((n / 32 : ℕ) : ℤ) := by
        rw [Int.neg_tdiv, Int.tdiv_eq_ediv_of_nonneg (by omega)]
        rfl
      rw [BitArray.word, hdiv, if_pos (by omega)]
    have hsize : ¬(b.size : ℤ) ≤ -n := by omega
    refine ⟨⟨.indexOutOfRange, ?_⟩, ⟨.indexOutOfRange, ?_⟩⟩
    · rw [BitArray.get, if_neg hsize, hword]
    · rw [BitArray.set, if_neg hsize]
      dsimp only
      rw [hword]

/-- An index a little below the start is taken for a place of the first word. -/
theorem BitArray.accepts_negative {index : ℤ} (hlow : -32 < index) (hneg : index < 0)
    (value : Bool) : (∃ c, b.get index = .ok c) ∧ ∃ b', b.set index value = .ok b' := by
  obtain ⟨n, rfl⟩ : ∃ n : ℕ, index = -n := ⟨(-index).toNat, by omega⟩
  obtain ⟨x, hx, -⟩ := BitArray.word_inside b.size_pos
  have hword : b.word ((-(n : ℤ)).tdiv 32) = some x := by
    have hdiv : (-(n : ℤ)).tdiv 32 = 0 := by
      rw [Int.neg_tdiv, Int.tdiv_eq_ediv_of_nonneg (by omega)]
      omega
    rw [BitArray.word, hdiv]
    exact hx
  have hsize : ¬(b.size : ℤ) ≤ -n := by omega
  constructor
  · exact ⟨_, by rw [BitArray.get, if_neg hsize, hword]⟩
  · exact ⟨_, by rw [BitArray.set, if_neg hsize]; dsimp only; rw [hword]⟩

end Elements

section Words

variable {b : BitArray}

theorem BitArray.toList_setAll (value : Bool) :
    (b.setAll value).toList = b.toList.map fun _ => value := by
  change (unpack (b.array.map fun _ => fill value)).take b.size = _
  rw [unpack_map (g := fun _ => value) fun _ _ hi => getLsbD_fill value hi, BitArray.toList,
    List.map_take]

theorem BitArray.toList_not : b.not.toList = b.toList.map Bool.not := by
  change (unpack (b.array.map fun x => ~~~x)).take b.size = _
  rw [unpack_map (g := Bool.not), BitArray.toList, List.map_take]
  intro x i hi
  rw [BitVec.getLsbD_not, decide_eq_true hi, Bool.true_and]

@[simp] theorem BitArray.toList_clone : b.clone.toList = b.toList := rfl

theorem BitArray.combine_same {f : BitVec 32 → BitVec 32 → BitVec 32} {g : Bool → Bool → Bool}
    (h : ∀ x y, ∀ i < 32, (f x y).getLsbD i = g (x.getLsbD i) (y.getLsbD i)) {value : BitArray}
    (hsize : value.size = b.size) :
    ∃ b', b.combine f value = .ok b' ∧ b'.toList = b.toList.zipWith g value.toList := by
  refine ⟨_, by rw [BitArray.combine, dif_neg (not_not.mpr hsize)], ?_⟩
  change (unpack (b.array.zipWith f value.array)).take b.size = _
  rw [unpack_zipWith h (BitArray.length_eq_of_size hsize).symm, BitArray.toList, BitArray.toList,
    hsize, List.take_zipWith]

theorem BitArray.toList_new {size : ℤ} {value : Bool} (h : BitArray.new size value = .ok b) :
    b.toList = List.replicate size.toNat value := by
  rw [BitArray.new] at h
  split_ifs at h with hsize
  cases h
  change (unpack (List.replicate _ (fill value))).take size.toNat = _
  rw [unpack_replicate fun _ hi => getLsbD_fill value hi, List.take_replicate,
    Nat.min_eq_left (le_requiredUInt32ArraySize _)]

/-- The last word holds the last `r` elements, and the mask shows them. -/
theorem BitArray.last_spec (b : BitArray) : ∃ r, b.size = 32 * b.array.dropLast.length + r ∧
    b.array = b.array.dropLast ++ [b.last] ∧ ∀ i < 32, b.mask.getLsbD i = decide (i < r) := by
  have hpos := b.size_pos
  have hlength := b.length_array
  rw [requiredUInt32ArraySize] at hlength
  have hne : b.array ≠ [] := by
    intro h
    rw [h, List.length_nil] at hlength
    split_ifs at hlength
    omega
  refine ⟨b.size - 32 * b.array.dropLast.length, ?_, ?_, ?_⟩
  · rw [List.length_dropLast]
    split_ifs at hlength
    all_goals omega
  · have hlast : b.last = b.array.getLast hne := by
      rw [BitArray.last, List.getLastD_eq_getLast?, List.getLast?_eq_some_getLast hne]
      rfl
    rw [hlast, List.dropLast_append_getLast]
  · intro i hi
    rw [BitArray.mask, BitVec.getLsbD_ushiftRight, List.length_dropLast]
    have hones : ∀ j, (0xFFFFFFFF#32).getLsbD j = decide (j < 32) := by
      intro j
      exact BitVec.getLsbD_allOnes
    rw [hones, decide_eq_decide]
    split_ifs at hlength <;> omega

theorem BitArray.toList_eq {r : ℕ} (hsize : b.size = 32 * b.array.dropLast.length + r)
    (hlast : b.array = b.array.dropLast ++ [b.last]) :
    b.toList = unpack b.array.dropLast ++ (bits b.last).take r := by
  have hwords : unpack b.array = unpack b.array.dropLast ++ bits b.last := by
    conv_lhs => rw [hlast]
    rw [unpack_append, unpack_cons, unpack_nil, List.append_nil]
  rw [BitArray.toList, hsize, hwords, ← length_unpack, List.take_length_add_append]

theorem all_eq_iff {α : Type*} [DecidableEq α] {l : List α} {c : α} :
    l.all (· == c) = true ↔ l = List.replicate l.length c := by
  rw [List.all_eq_true, List.eq_replicate_iff]
  simp

theorem BitArray.checkAllSet_eq (value : Bool) :
    b.checkAllSet value = b.toList.all (· == value) := by
  obtain ⟨r, hsize, hlast, hmask⟩ := b.last_spec
  have hwords : b.array.dropLast.all (· == fill value) = (unpack b.array.dropLast).all (· == value)
      := by
    rw [Bool.eq_iff_iff, all_eq_iff, all_eq_iff, length_unpack, ← unpack_inj (by omega),
      unpack_replicate fun _ hi => getLsbD_fill value hi]
  have hbits : (fill value &&& b.mask == b.mask &&& b.last) =
      ((bits b.last).take r).all (· == value) := by
    have hfill : bits (fill value) = List.replicate 32 value := by
      have := unpack_replicate (fun _ hi => getLsbD_fill value hi) 1
      simpa using this
    rw [Bool.eq_iff_iff, beq_iff_eq, BitVec.and_comm, eq_comm, ← take_bits_eq_iff hmask, hfill,
      List.take_replicate, all_eq_iff, List.length_take, length_bits]
  rw [BitArray.checkAllSet, BitArray.toList_eq hsize hlast, List.all_append, hwords, hbits]

theorem all_zip_iff {α : Type*} [DecidableEq α] {l l' : List α} (h : l.length = l'.length) :
    (l.zip l').all (fun p => p.1 == p.2) = true ↔ l = l' := by
  induction l generalizing l' with
  | nil =>
      cases l' with
      | nil => simp
      | cons c l' => cases h
  | cons c l ih =>
      cases l' with
      | nil => cases h
      | cons c' l' =>
          rw [List.zip_cons_cons, List.all_cons, Bool.and_eq_true, ih (by simpa using h)]
          simp

theorem BitArray.hasSameContent_eq (other : BitArray) :
    b.hasSameContent other = (b.toList == other.toList) := by
  by_cases h : b.size = other.size
  · have hlength := BitArray.length_eq_of_size h.symm
    have hdrop : b.array.dropLast.length = other.array.dropLast.length := by
      rw [List.length_dropLast, List.length_dropLast, hlength]
    obtain ⟨r, hsize, hlast, hmask⟩ := b.last_spec
    obtain ⟨r', hsize', hlast', -⟩ := other.last_spec
    obtain rfl : r' = r := by omega
    rw [Bool.eq_iff_iff, BitArray.hasSameContent, Bool.and_eq_true, Bool.and_eq_true, beq_iff_eq,
      beq_iff_eq, beq_iff_eq, all_zip_iff hdrop, ← take_bits_eq_iff hmask,
      BitArray.toList_eq hsize hlast, BitArray.toList_eq hsize' hlast',
      ← unpack_inj (show 0 < 32 by omega)]
    constructor
    · rintro ⟨-, hwords, hbits⟩
      rw [hwords, hbits]
    · intro heq
      exact ⟨h, List.append_inj heq (by rw [length_unpack, length_unpack, hdrop])⟩
  · have hne : b.toList ≠ other.toList := fun heq => h <| by
      rw [← BitArray.length_toList b, heq, BitArray.length_toList]
    rw [BitArray.hasSameContent, beq_eq_false_iff_ne.mpr h, beq_eq_false_iff_ne.mpr hne,
      Bool.false_and]

end Words

section Runs

variable {b : BitArray}

theorem agrees_changed {r : Except Exception BitArray} {l : List Bool} {b' : BitArray}
    (hr : r = .ok b') (hl : b'.toList = l) :
    ((b.changed r).1.toOption, (b.changed r).2.toList) = (some Answer.done, l) := by
  rw [hr, ← hl]
  rfl

theorem agrees_set {index : ℤ} {value : Bool} :
    Agrees b (.set index value) ↔ ¬(-32 < index ∧ index < 0) := by
  have hstep : boolStep b.toList (.set index value) = if 0 ≤ index ∧ index < b.toList.length then
      (some .done, b.toList.set index.toNat value) else (none, b.toList) := rfl
  rw [BitArray.length_toList] at hstep
  rw [Agrees, hstep]
  change ((b.changed (b.set index value)).1.toOption,
    (b.changed (b.set index value)).2.toList) = _ ↔ _
  rcases lt_or_ge index 0 with hneg | hnonneg
  · rw [if_neg (by omega)]
    rcases le_or_gt index (-32) with hlow | hlow
    · obtain ⟨-, e, he⟩ := BitArray.refuses (b := b) (.inr hlow) value
      rw [he]
      exact iff_of_true rfl (by omega)
    · obtain ⟨-, b', hb'⟩ := BitArray.accepts_negative (b := b) hlow hneg value
      rw [hb']
      exact iff_of_false (fun h => by cases h) (by omega)
  · obtain ⟨i, rfl⟩ := Int.eq_ofNat_of_zero_le hnonneg
    refine iff_of_true ?_ (by omega)
    by_cases hi : i < b.size
    · obtain ⟨b', hb', hlist⟩ := BitArray.set_inside hi value
      rw [if_pos (by omega)]
      exact agrees_changed hb' hlist
    · obtain ⟨-, e, he⟩ := BitArray.refuses (show (b.size : ℤ) ≤ i ∨ (i : ℤ) ≤ -32 by omega) value
      rw [if_neg (by omega), he]
      rfl

theorem agrees_get {index : ℤ} : Agrees b (.get index) ↔ ¬(-32 < index ∧ index < 0) := by
  have hstep : boolStep b.toList (.get index) =
      (if index < 0 then none else b.toList[index.toNat]?.map .bool, b.toList) := rfl
  rw [Agrees, hstep]
  change (((b.get index).map Answer.bool).toOption, b.toList) = _ ↔ _
  rcases lt_or_ge index 0 with hneg | hnonneg
  · rw [if_pos hneg]
    rcases le_or_gt index (-32) with hlow | hlow
    · obtain ⟨⟨e, he⟩, -⟩ := BitArray.refuses (b := b) (.inr hlow) false
      rw [he]
      exact iff_of_true rfl (by omega)
    · obtain ⟨⟨c, hc⟩, -⟩ := BitArray.accepts_negative (b := b) hlow hneg false
      rw [hc]
      exact iff_of_false (fun h => by cases h) (by omega)
  · obtain ⟨i, rfl⟩ := Int.eq_ofNat_of_zero_le hnonneg
    refine iff_of_true ?_ (by omega)
    rw [if_neg (by omega)]
    change _ = ((b.toList[i]?).map Answer.bool, b.toList)
    cases hc : b.toList[i]? with
    | none =>
        rw [List.getElem?_eq_none_iff, BitArray.length_toList] at hc
        obtain ⟨⟨e, he⟩, -⟩ :=
          BitArray.refuses (show (b.size : ℤ) ≤ i ∨ (i : ℤ) ≤ -32 by omega) false
        rw [he]
        rfl
    | some c =>
        rw [BitArray.get_inside hc]
        rfl

theorem agrees_combine {f : BitVec 32 → BitVec 32 → BitVec 32} {g : Bool → Bool → Bool}
    (h : ∀ x y, ∀ i < 32, (f x y).getLsbD i = g (x.getLsbD i) (y.getLsbD i)) (value : BitArray) :
    ((b.changed (b.combine f value)).1.toOption, (b.changed (b.combine f value)).2.toList) =
      if value.toList.length = b.toList.length then
        (some Answer.done, b.toList.zipWith g value.toList) else (none, b.toList) := by
  rw [BitArray.length_toList, BitArray.length_toList]
  by_cases hsize : value.size = b.size
  · obtain ⟨b', hb', hlist⟩ := BitArray.combine_same h hsize
    rw [if_pos hsize]
    exact agrees_changed hb' hlist
  · rw [if_neg hsize, BitArray.combine, dif_pos hsize]
    rfl

/-- A call agrees with an array of booleans unless its index is missed by the test. -/
theorem agrees_iff (call : Call) : Agrees b call ↔ call.Caught := by
  cases call with
  | set index value => exact agrees_set
  | get index => exact agrees_get
  | setAll value =>
      refine iff_of_true ?_ trivial
      change (some Answer.done, (b.setAll value).toList) = _
      rw [BitArray.toList_setAll]
      rfl
  | and value =>
      refine iff_of_true ?_ trivial
      exact agrees_combine (g := Bool.and) (fun _ _ _ _ => BitVec.getLsbD_and) value
  | or value =>
      refine iff_of_true ?_ trivial
      exact agrees_combine (g := Bool.or) (fun _ _ _ _ => BitVec.getLsbD_or) value
  | not =>
      refine iff_of_true ?_ trivial
      change (some Answer.done, b.not.toList) = _
      rw [BitArray.toList_not]
      rfl
  | checkAllSet value =>
      refine iff_of_true ?_ trivial
      change (some (Answer.bool (b.checkAllSet value)), b.toList) = _
      rw [BitArray.checkAllSet_eq]
      rfl
  | hasSameContent other =>
      refine iff_of_true ?_ trivial
      change (some (Answer.bool (b.hasSameContent other)), b.toList) = _
      rw [BitArray.hasSameContent_eq]
      rfl

theorem agreesRun_iff (calls : List Call) : AgreesRun b calls ↔ ∀ call ∈ calls, call.Caught := by
  induction calls generalizing b with
  | nil => simp [AgreesRun]
  | cons call calls ih => rw [AgreesRun, agrees_iff, ih, List.forall_mem_cons]

end Runs

section Bytes

variable {b : BitArray}

theorem wordBytes_eq (j left : ℕ) (val : BitVec 32) :
    BitArray.wordBytes j left val =
      ((List.range j).map fun k => val.extractLsb' (8 * k) 8).take left := by
  induction j generalizing left val with
  | zero => rw [List.range_zero, List.map_nil, List.take_nil, BitArray.wordBytes]
  | succ j ih =>
      cases left with
      | zero => rfl
      | succ left =>
          rw [BitArray.wordBytes, ih, List.range_succ_eq_map, List.map_cons, List.map_map,
            List.take_succ_cons]
          congr 1
          · apply BitVec.eq_of_getLsbD_eq
            intro i hi
            have hones : (0x000000FF#32).getLsbD i = true := by interval_cases i <;> rfl
            rw [BitVec.getLsbD_setWidth, BitVec.getLsbD_and, hones, BitVec.getLsbD_extractLsb',
              decide_eq_true hi, Bool.and_true, Nat.mul_zero, Nat.zero_add]
          · congr 1
            apply List.map_congr_left
            intro k _
            apply BitVec.eq_of_getLsbD_eq
            intro i hi
            rw [Function.comp_apply, BitVec.getLsbD_extractLsb', BitVec.getLsbD_extractLsb',
              BitVec.getLsbD_ushiftRight, Nat.mul_succ]
            congr 2
            omega

theorem arrayBytes_eq (array : List (BitVec 32)) (left : ℕ) :
    BitArray.arrayBytes array left = (split 8 4 array).take left := by
  induction array generalizing left with
  | nil => cases left <;> rfl
  | cons val array ih =>
      cases left with
      | zero => rfl
      | succ left =>
          have hlength : ((List.range 4).map fun k => val.extractLsb' (8 * k) 8).length = 4 := rfl
          rw [BitArray.arrayBytes, wordBytes_eq, ih]
          conv_rhs => rw [split, List.flatMap_cons, List.take_append, hlength]
          rfl

theorem BitArray.byteArrayLength_eq (b : BitArray) : b.byteArrayLength = (b.size + 7) / 8 := by
  rw [BitArray.byteArrayLength]
  split_ifs <;> omega

theorem BitArray.length_toByteArray (b : BitArray) :
    b.toByteArray.length = (b.size + 7) / 8 := by
  have hle := b.size_le
  rw [BitArray.toByteArray, arrayBytes_eq, List.length_take, length_split, b.byteArrayLength_eq]
  omega

/-- The bytes hold the elements, the first element in the lowest bit of the first byte. -/
theorem BitArray.take_toByteArray (b : BitArray) :
    (unpack b.toByteArray).take b.size = b.toList := by
  rw [BitArray.toByteArray, arrayBytes_eq, unpack_take, unpack_split (by omega) rfl,
    b.byteArrayLength_eq, List.take_take, BitArray.toList, Nat.min_eq_left (by omega)]

/-- One byte is put into an array that is clear from its place on. -/
theorem unpack_orByte {array : List (BitVec 32)} {index : ℕ} {x : BitVec 32} (byte : Byte)
    (hx : array[index / 4]? = some x)
    (hclear : ∀ j, 8 * index ≤ j → j < 32 * array.length → (unpack array)[j]? = some false)
    {j : ℕ} (hj : j < 32 * array.length) :
    (unpack (array.set (index / 4) (x ||| byte.setWidth 32 <<< (index % 4 * 8))))[j]? =
      if 8 * index ≤ j ∧ j < 8 * index + 8 then some (byte.getLsbD (j - 8 * index))
      else (unpack array)[j]? := by
  have hlt : index / 4 < array.length := (List.getElem?_eq_some_iff.mp hx).1
  rw [getElem?_unpack (by omega), List.getElem?_set]
  by_cases hword : index / 4 = j / 32
  · have hold : (unpack array)[j]? = some (x.getLsbD (j % 32)) := by
      rw [getElem?_unpack (by omega), ← hword, hx]
      rfl
    have hmod : j % 32 < 32 := Nat.mod_lt j (by omega)
    rw [if_pos hword, if_pos hlt, Option.map_some, BitVec.getLsbD_or, BitVec.getLsbD_shiftLeft,
      BitVec.getLsbD_setWidth, decide_eq_true hmod, Bool.true_and]
    by_cases hlow : j < 8 * index
    · rw [if_neg (by omega), hold, decide_eq_true (show j % 32 < index % 4 * 8 by omega),
        Bool.not_true, Bool.false_and, Bool.or_false]
    · rw [decide_eq_false (show ¬j % 32 < index % 4 * 8 by omega), Bool.not_false, Bool.true_and,
        decide_eq_true (show j % 32 - index % 4 * 8 < 32 by omega), Bool.true_and,
        show j % 32 - index % 4 * 8 = j - 8 * index by omega]
      by_cases hhigh : j < 8 * index + 8
      · have hfalse := Option.some.inj (hold.symm.trans (hclear j (by omega) hj))
        rw [if_pos (by omega), hfalse, Bool.false_or]
      · rw [if_neg (by omega), hold, BitVec.getLsbD_of_ge byte (j - 8 * index) (by omega),
          Bool.or_false]
  · rw [if_neg hword, if_neg (by omega), getElem?_unpack (by omega)]

/-- Bytes that the words have room for follow the bits that are there. -/
theorem orBytes_fits {bytes : List Byte} {index : ℕ} {array : List (BitVec 32)}
    (hroom : index + bytes.length ≤ 4 * array.length)
    (hclear : ∀ j, 8 * index ≤ j → j < 32 * array.length → (unpack array)[j]? = some false) :
    ∃ array', BitArray.orBytes bytes index array = .ok array' ∧
      ∀ j < 32 * array.length, (unpack array')[j]? =
        if j < 8 * index then (unpack array)[j]?
        else some ((unpack bytes)[j - 8 * index]?.getD false) := by
  induction bytes generalizing index array with
  | nil =>
      refine ⟨array, rfl, fun j hj => ?_⟩
      split_ifs with hlow
      · rfl
      · rw [hclear j (by omega) hj]
        rfl
  | cons byte bytes ih =>
      rw [List.length_cons] at hroom
      have hlt : index / 4 < array.length := by omega
      have hx : array[index / 4]? = some array[index / 4] := List.getElem?_eq_getElem hlt
      have hput := fun j => unpack_orByte (j := j) byte hx hclear
      rw [BitArray.orBytes, hx]
      dsimp only
      have hlength : (array.set (index / 4)
          (array[index / 4] ||| byte.setWidth 32 <<< (index % 4 * 8))).length = array.length :=
        List.length_set
      revert hput hlength
      generalize array.set (index / 4)
        (array[index / 4] ||| byte.setWidth 32 <<< (index % 4 * 8)) = next
      intro hput hlength
      have hnext : ∀ j, 8 * (index + 1) ≤ j → j < 32 * next.length →
          (unpack next)[j]? = some false := by
        intro j hle hj
        rw [hlength] at hj
        rw [hput j hj, if_neg (by omega)]
        exact hclear j (by omega) hj
      obtain ⟨array', hfill, hspec⟩ := ih (by omega) hnext
      refine ⟨array', hfill, fun j hj => ?_⟩
      rw [hspec j (by omega)]
      by_cases hlow : j < 8 * index
      · rw [if_pos hlow, if_pos (by omega), hput j hj, if_neg (by omega)]
      · rw [if_neg hlow, unpack_cons]
        by_cases hbyte : j < 8 * index + 8
        · rw [if_pos (by omega), hput j hj, if_pos (by omega),
            List.getElem?_append_left (by rw [length_bits]; omega), getElem?_bits,
            if_pos (by omega)]
          rfl
        · rw [if_neg (by omega), List.getElem?_append_right (by rw [length_bits]; omega),
            length_bits, show j - 8 * index - 8 = j - 8 * (index + 1) by omega]

/-- More bytes than the words have room for leave them. -/
theorem orBytes_overruns {bytes : List Byte} {index : ℕ} {array : List (BitVec 32)}
    (hindex : index ≤ 4 * array.length) (hroom : 4 * array.length < index + bytes.length) :
    BitArray.orBytes bytes index array = .error .indexOutOfRange := by
  induction bytes generalizing index array with
  | nil =>
      rw [List.length_nil] at hroom
      omega
  | cons byte bytes ih =>
      rw [List.length_cons] at hroom
      rw [BitArray.orBytes]
      cases hx : array[index / 4]? with
      | none => rfl
      | some x =>
          have hlt : index / 4 < array.length := (List.getElem?_eq_some_iff.mp hx).1
          exact ih (by rw [List.length_set]; omega) (by rw [List.length_set]; omega)

/-- What becomes of bytes that are read back: too few bytes and no elements at all are refused as
arguments, more bytes than the words of the new array leave it. -/
theorem fromByteArray_cases (n : ℕ) (bytes : List Byte) :
    (bytes.length * 8 < n ∧ BitArray.fromByteArray n bytes = .error .argument) ∨
    (n = 0 ∧ BitArray.fromByteArray n bytes = .error .argumentOutOfRange) ∨
    (n ≠ 0 ∧ n ≤ bytes.length * 8 ∧ 4 * requiredUInt32ArraySize n < bytes.length ∧
      BitArray.fromByteArray n bytes = .error .indexOutOfRange) ∨
    (n ≠ 0 ∧ n ≤ bytes.length * 8 ∧ bytes.length ≤ 4 * requiredUInt32ArraySize n ∧
      ∃ b, BitArray.fromByteArray n bytes = .ok b ∧ b.size = n ∧
        b.toList = (unpack bytes).take n) := by
  by_cases hfew : bytes.length * 8 < n
  · exact .inl ⟨hfew, by rw [BitArray.fromByteArray, if_pos (by omega)]⟩
  rw [BitArray.fromByteArray, if_neg (by omega)]
  by_cases hzero : n = 0
  · refine .inr (.inl ⟨hzero, ?_⟩)
    rw [hzero]
    rfl
  obtain ⟨b, hb⟩ : ∃ b, BitArray.new n false = .ok b :=
    ⟨_, by rw [BitArray.new, dif_neg (by omega)]⟩
  have hwords : b.array = List.replicate (requiredUInt32ArraySize n) (BitArray.fill false) ∧
      b.size = n := by
    rw [BitArray.new, dif_neg (by omega)] at hb
    cases hb
    exact ⟨rfl, rfl⟩
  obtain ⟨harray, hsize⟩ := hwords
  have hlength : b.array.length = requiredUInt32ArraySize n := by
    rw [harray, List.length_replicate]
  have hclear : ∀ j, 8 * 0 ≤ j → j < 32 * b.array.length → (unpack b.array)[j]? = some false := by
    intro j _ hj
    rw [hlength] at hj
    rw [harray, unpack_replicate fun _ hi => getLsbD_fill false hi, List.getElem?_replicate,
      if_pos hj]
  rw [hb]
  dsimp only
  by_cases hmany : 4 * requiredUInt32ArraySize n < bytes.length
  · refine .inr (.inr (.inl ⟨hzero, by omega, hmany, ?_⟩))
    split
    · next e he =>
        rw [orBytes_overruns (by omega) (by omega)] at he
        rw [← Except.error.inj he]
    · next words h =>
        rw [orBytes_overruns (by omega) (by omega)] at h
        cases h
  · obtain ⟨array', hfill, hspec⟩ :=
      orBytes_fits (show 0 + bytes.length ≤ 4 * b.array.length by omega) hclear
    refine .inr (.inr (.inr ⟨hzero, by omega, by omega, ?_⟩))
    split
    · next e he =>
        rw [hfill] at he
        cases he
    · next words h =>
        obtain rfl : array' = words := by
          rw [hfill] at h
          exact Except.ok.inj h
        refine ⟨_, rfl, hsize, ?_⟩
        change (unpack array').take b.size = _
        rw [hsize]
        apply List.ext_getElem?
        intro j
        rw [List.getElem?_take, List.getElem?_take]
        split_ifs with hj
        · have hle := le_requiredUInt32ArraySize n
          have hin : j < (unpack bytes).length := by
            rw [length_unpack]
            omega
          rw [hspec j (by omega), if_neg (by omega), Nat.mul_zero, Nat.sub_zero,
            List.getElem?_eq_getElem hin]
          rfl
        · rfl

/-- The bytes of an array are read back as its elements. -/
theorem fromByteArray_toByteArray (b : BitArray) :
    ∃ b', BitArray.fromByteArray b.size b.toByteArray = .ok b' ∧ b'.toList = b.toList := by
  have hpos := b.size_pos
  have hlength := b.length_toByteArray
  have hle := le_requiredUInt32ArraySize b.size
  rcases fromByteArray_cases b.size b.toByteArray with ⟨h, -⟩ | ⟨h, -⟩ | ⟨-, -, h, -⟩ |
    ⟨-, -, -, b', hb', -, hlist⟩
  · omega
  · omega
  · omega
  · exact ⟨b', hb', hlist.trans b.take_toByteArray⟩

end Bytes

end TinyCLR.Network
