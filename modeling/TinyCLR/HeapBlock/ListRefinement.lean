import TinyCLR.HeapBlock.ArrayList
import TinyCLR.Library.TransitionSystem

/-!
# ArrayList and Stack as lists

Both hold the elements of a list in an array whose other elements are null. Each call answers what
the list says, or fails for want of memory and leaves everything as it was. The one exception is a
capacity whose array has a size that does not fit in 32 bits: the array is then longer than the
memory that it gets.
-/

namespace TinyCLR.HeapBlock

open TransitionSystem

variable {Ref : Type}

/-! ## Arrays of objects -/

/-- The longest array that the heap can give. -/
def maxLength : ℕ := 65533

theorem createInstance_refused {allocated : Bool} {n : ℕ}
    (h : allocated = false ∨ maxSize < arrayBlocks n) :
    createInstance allocated (n : ℤ) = some (.error .outOfMemory : Except _ (List (Option Ref))) := by
  rw [createInstance, if_neg (by omega), Int.toNat_natCast, if_pos (by tauto)]

theorem arrayBlocks_eq {n : ℕ} (hfits : n * 12 + 31 < 2 ^ 32) :
    arrayBlocks n = (n * 12 + 31) / 12 := by
  rw [arrayBlocks, Nat.mod_eq_of_lt (show 20 + n * 12 < 2 ^ 32 by omega),
    Nat.mod_eq_of_lt (by omega)]
  congr 1
  omega

theorem createInstance_granted {n : ℕ} (hmax : arrayBlocks n ≤ maxSize)
    (hfits : n * 12 + 31 < 2 ^ 32) :
    createInstance true (n : ℤ) = some (.ok (List.replicate n (none : Option Ref))) := by
  rw [createInstance, if_neg (by omega), Int.toNat_natCast, if_neg (by simp [hmax]), if_neg]
  rw [arrayBlocks_eq hfits]
  omega

/-- The size of the array wraps. -/
theorem createInstance_wrapped {n : ℕ} (hmax : arrayBlocks n ≤ maxSize)
    (hwraps : 2 ^ 32 ≤ n * 12 + 31) :
    createInstance true (n : ℤ) = (none : Option (Except HResult (List (Option Ref)))) := by
  rw [maxSize] at hmax
  rw [createInstance, if_neg (by omega), Int.toNat_natCast, if_neg (by simp [maxSize, hmax]),
    if_pos (by omega)]

theorem le_maxLength {n : ℕ} (hmax : arrayBlocks n ≤ maxSize) (hfits : n * 12 + 31 < 2 ^ 32) :
    n ≤ maxLength := by
  rw [arrayBlocks_eq hfits, maxSize] at hmax
  rw [maxLength]
  omega

theorem createInstance_ok {allocated : Bool} {n : ℕ} {items : List (Option Ref)}
    (h : createInstance allocated (n : ℤ) = some (.ok items)) :
    items = List.replicate n none ∧ n ≤ maxLength := by
  cases allocated with
  | false => simp [createInstance_refused] at h
  | true =>
      by_cases hmax : arrayBlocks n ≤ maxSize
      · by_cases hfits : n * 12 + 31 < 2 ^ 32
        · rw [createInstance_granted hmax hfits, Option.some.injEq, Except.ok.injEq] at h
          exact ⟨h.symm, le_maxLength hmax hfits⟩
        · rw [createInstance_wrapped hmax (by omega)] at h
          cases h
      · rw [createInstance_refused (.inr (by omega))] at h
        cases h

theorem setElement_append (front back : List (Option Ref)) (old value : Option Ref) :
    setElement (front ++ old :: back) front.length value = some (front ++ value :: back) := by
  rw [setElement, if_pos (by simp), List.set_append_right _ _ le_rfl, Nat.sub_self,
    List.set_cons_zero]

/-- Where the array ends, the new one has room. -/
theorem copyObjects_append (items back : List (Option Ref)) {n : ℕ} (hn : items.length ≤ n) :
    copyObjects (List.replicate n none) 0 (items ++ back) items.length =
      some (items ++ List.replicate (n - items.length) none) := by
  rw [copyObjects, if_pos (by simp [hn]), List.take_left, List.splice, List.take_zero,
    List.nil_append, List.drop_replicate, Nat.zero_add]

/-! ## ArrayList -/

namespace ArrayList

/-- The calls, with what the heap says if they need an array. -/
inductive Op (Ref : Type) where
  | getItem (index : Int32)
  | setItem (index : Int32) (value : Option Ref)
  | add (value : Option Ref) (allocated : Bool)
  | insert (index : Int32) (value : Option Ref) (allocated : Bool)
  | removeAt (index : Int32)
  | clear
  | setCapacity (newCapacity : Int32) (allocated : Bool)

inductive Answer (Ref : Type) where
  | done
  | value (ref : Option Ref)
  | index (index : ℕ)
  deriving DecidableEq

def exec (l : ArrayList Ref) : Op Ref → Reply Ref (Answer Ref)
  | .getItem index => (l.getItem index).map fun r => (r.1.map .value, r.2)
  | .setItem index value => (l.setItem index value).map fun r => (r.1.map fun _ => .done, r.2)
  | .add value allocated => (l.add value allocated).map fun r => (r.1.map .index, r.2)
  | .insert index value allocated =>
      (l.insert index value allocated).map fun r => (r.1.map fun _ => .done, r.2)
  | .removeAt index => (l.removeAt index).map fun r => (r.1.map fun _ => .done, r.2)
  | .clear => l.clear.map fun r => (r.1.map fun _ => .done, r.2)
  | .setCapacity newCapacity allocated =>
      (l.setCapacity newCapacity.toInt allocated).map fun r => (r.1.map fun _ => .done, r.2)

/-- What a list answers, and the list after the call. -/
def reference (items : List (Option Ref)) :
    Op Ref → Except HResult (Answer Ref) × List (Option Ref)
  | .getItem index =>
      if index.toInt < 0 ∨ items.length ≤ index.toInt then (.error .outOfRange, items)
      else (.ok (.value (items.getD index.toInt.toNat none)), items)
  | .setItem index value =>
      if index.toInt < 0 ∨ items.length ≤ index.toInt then (.error .outOfRange, items)
      else (.ok .done, items.set index.toInt.toNat value)
  | .add value _ => (.ok (.index items.length), items ++ [value])
  | .insert index value _ =>
      if index.toInt < 0 ∨ items.length < index.toInt then (.error .outOfRange, items)
      else (.ok .done, items.insertIdx index.toInt.toNat value)
  | .removeAt index =>
      if index.toInt < 0 ∨ items.length ≤ index.toInt then (.error .outOfRange, items)
      else (.ok .done, items.eraseIdx index.toInt.toNat)
  | .clear => (.ok .done, [])
  | .setCapacity newCapacity _ =>
      if newCapacity.toInt < items.length then (.error .outOfRange, items) else (.ok .done, items)

/-- The elements of the list, and behind them nothing. -/
def Holds (l : ArrayList Ref) (items : List (Option Ref)) : Prop :=
  l.size = items.length ∧ ∃ free, l.items = items ++ List.replicate free none

/-- The length that replaces that of a full array. -/
def grown (capacity : ℕ) : ℕ := max 4 (max (capacity + 1) (capacity * 3 / 2))

/-- The length of the array that a call needs, with what the heap says. -/
def wanted (l : ArrayList Ref) : Op Ref → Option (ℕ × Bool)
  | .add _ allocated =>
      if l.size = l.items.length then some (grown l.items.length, allocated) else none
  | .insert index _ allocated =>
      if 0 ≤ index.toInt ∧ index.toInt ≤ l.size ∧ l.size = l.items.length then
        some (grown l.items.length, allocated)
      else none
  | .setCapacity newCapacity allocated =>
      if newCapacity.toInt ≠ l.items.length ∧ l.size ≤ newCapacity.toInt then
        some (max 4 newCapacity.toInt.toNat, allocated)
      else none
  | _ => none

/-- The heap does not give the array, or its blocks are too many. -/
def Refused (l : ArrayList Ref) (op : Op Ref) : Prop :=
  ∃ n allocated, wanted l op = some (n, allocated) ∧
    (allocated = false ∨ maxSize < arrayBlocks n)

/-- The size in bytes of an array that is given fits in 32 bits, rounded up to blocks. -/
def Fits (l : ArrayList Ref) (op : Op Ref) : Prop :=
  ∀ n, wanted l op = some (n, true) → arrayBlocks n ≤ maxSize → n * 12 + 31 < 2 ^ 32

/-- The array, and the list that it should hold. -/
structure System (Ref : Type) where
  list : ArrayList Ref
  items : List (Option Ref)

/-- A call that succeeded where the array was full. -/
def Grew (l : ArrayList Ref) (op : Op Ref) (r : Except HResult (Answer Ref)) : Prop :=
  l.size = l.items.length ∧ (∃ answer, r = .ok answer) ∧
    ((∃ value allocated, op = .add value allocated) ∨
      ∃ index value allocated, op = .insert index value allocated)

/-- A call does what the list says, or fails for want of memory and changes nothing. -/
def Right (s : System Ref) (op : Op Ref) : Prop :=
  ∃ r l items, exec s.list op = some (r, l) ∧ Holds l items ∧
    ((r, items) = reference s.items op ∨
      r = .error .outOfMemory ∧ items = s.items ∧ Refused s.list op) ∧
    (Grew s.list op r → s.list.items.length < l.items.length)

/-- The list after a call, by what it answers. -/
def next (items : List (Option Ref)) (op : Op Ref) (r : Except HResult (Answer Ref)) :
    List (Option Ref) :=
  match r with
  | .ok _ => (reference items op).2
  | .error _ => items

def step (s : System Ref) (op : Op Ref) : Option (System Ref) :=
  (exec s.list op).map fun r => ⟨r.2, next s.items op r.1⟩

/-- A list without elements, in an array of at least one. -/
def Initial (s : System Ref) : Prop :=
  s.items = [] ∧ s.list.size = 0 ∧
    ∃ capacity : ℕ, 1 ≤ capacity ∧ createInstance true capacity = some (.ok s.list.items)

/-- In every run of admitted calls the list is one. -/
def Refines (admitted : System Ref → Op Ref → Prop) : Prop :=
  ∀ s, Reachable step Initial admitted s → ∀ op, admitted s op → Right s op

/-- The list holds the elements, in an array that the heap can give. -/
structure Represents (l : ArrayList Ref) (items : List (Option Ref)) : Prop where
  holds : Holds l items
  length_le : l.items.length ≤ maxLength

variable {l : ArrayList Ref} {items : List (Option Ref)}

/-- The list of some elements in an array with free places behind them. -/
def ofItems (items : List (Option Ref)) (free : ℕ) : ArrayList Ref :=
  ⟨items ++ List.replicate free none, items.length⟩

theorem holds_ofItems (items : List (Option Ref)) (free : ℕ) : Holds (ofItems items free) items :=
  ⟨rfl, free, rfl⟩

theorem represents_ofItems {free : ℕ} (h : items.length + free ≤ maxLength) :
    Represents (ofItems items free) items :=
  ⟨holds_ofItems items free, by simpa [ofItems] using h⟩

theorem Represents.exists_free (h : Represents l items) :
    ∃ free, l = ofItems items free ∧ items.length + free ≤ maxLength := by
  obtain ⟨⟨hsize, free, hitems⟩, hlength⟩ := h
  refine ⟨free, ?_, ?_⟩
  · rw [ofItems, ← hitems, ← hsize]
  · simpa [hitems] using hlength

@[simp] theorem size_ofItems (items : List (Option Ref)) (free : ℕ) :
    (ofItems items free).size = items.length := rfl

@[simp] theorem length_ofItems (items : List (Option Ref)) (free : ℕ) :
    (ofItems items free).items.length = items.length + free := by
  simp [ofItems]

/-! ### Room -/

section Room

variable {free : ℕ} {allocated : Bool} {n : ℤ}

/-- The array that `SetCapacity` asks for. -/
def asked (n : ℤ) : ℕ := max 4 n.toNat

theorem setCapacity_same (hn : n = items.length + free) :
    (ofItems items free).setCapacity n allocated = some (.ok (), ofItems items free) := by
  rw [setCapacity, if_neg]
  simp [hn]

theorem setCapacity_low (hn : n < items.length) :
    (ofItems items free).setCapacity n allocated = some (.error .outOfRange, ofItems items free) := by
  rw [setCapacity, if_pos (by rw [length_ofItems]; omega), if_pos (by simpa using hn)]

theorem setCapacity_new (hn : n ≠ items.length + free) (hlow : items.length ≤ n) :
    (ofItems items free).setCapacity n allocated =
      match createInstance allocated (asked n : ℤ) with
      | none => none
      | some (.error e) => some (.error e, ofItems items free)
      | some (.ok newItems) =>
          (copyObjects newItems 0 (ofItems items free).items items.length).map fun items' =>
            (.ok (), ⟨items', items.length⟩) := by
  have hasked : (if n < defaultCapacity then defaultCapacity else n) = (asked n : ℤ) := by
    rw [asked, defaultCapacity]
    split <;> omega
  rw [setCapacity, if_pos (by rw [length_ofItems]; omega), if_neg (by rw [size_ofItems]; omega)]
  simp only [hasked, size_ofItems]
  all_goals rfl

theorem setCapacity_refused (hn : n ≠ items.length + free) (hlow : items.length ≤ n)
    (h : allocated = false ∨ maxSize < arrayBlocks (asked n)) :
    (ofItems items free).setCapacity n allocated =
      some (.error .outOfMemory, ofItems items free) := by
  rw [setCapacity_new hn hlow, createInstance_refused h]

theorem setCapacity_granted (hn : n ≠ items.length + free) (hlow : items.length ≤ n)
    (hmax : arrayBlocks (asked n) ≤ maxSize) (hfits : asked n * 12 + 31 < 2 ^ 32) :
    (ofItems items free).setCapacity n true =
      some (.ok (), ofItems items (asked n - items.length)) := by
  rw [setCapacity_new hn hlow, createInstance_granted hmax hfits]
  simp only [ofItems]
  rw [copyObjects_append]
  · rfl
  · rw [asked]
    omega

theorem setCapacity_wrapped (hn : n ≠ items.length + free) (hlow : items.length ≤ n)
    (hmax : arrayBlocks (asked n) ≤ maxSize) (hwraps : 2 ^ 32 ≤ asked n * 12 + 31) :
    (ofItems items free).setCapacity n true = none := by
  rw [setCapacity_new hn hlow, createInstance_wrapped hmax hwraps]

/-- A full array is replaced by a longer one, if the heap gives it. -/
theorem ensureCapacity_full (hlength : items.length ≤ maxLength) :
    (ofItems items 0).ensureCapacity (items.length + 1) items.length allocated =
      (ofItems items 0).setCapacity (max (items.length + 1) (items.length * 3 / 2) : ℕ)
        allocated := by
  rw [maxLength] at hlength
  have hmod : ((items.length * 3 : ℤ)).bmod (2 ^ 32) = items.length * 3 := by
    apply Int.bmod_eq_of_le <;> omega
  have hdiv : (items.length * 3 : ℤ).tdiv 2 = (items.length * 3 / 2 : ℕ) := by
    rw [Int.tdiv_eq_ediv_of_nonneg (by omega)]
    omega
  have hmax : (if ((items.length * 3 / 2 : ℕ) : ℤ) < items.length + 1 then (items.length + 1 : ℤ)
      else (items.length * 3 / 2 : ℕ)) = (max (items.length + 1) (items.length * 3 / 2) : ℕ) := by
    split <;> omega
  rw [ensureCapacity, if_pos (by omega)]
  simp only [hmod, hdiv, hmax]

theorem asked_grown (capacity : ℕ) :
    asked (max (capacity + 1) (capacity * 3 / 2) : ℕ) = grown capacity := by
  rw [asked, grown, Int.toNat_natCast]

/-- There is room, or the array is full and there is none to be had. -/
theorem withRoom_cases (allocated : Bool) (hlength : items.length + free ≤ maxLength) :
    (∃ free', (ofItems items free).withRoom allocated = some (.ok (), ofItems items (free' + 1)) ∧
      items.length + (free' + 1) ≤ maxLength ∧ (free = 0 → free < free' + 1)) ∨
    (ofItems items free).withRoom allocated = some (.error .outOfMemory, ofItems items free) ∧
      free = 0 ∧ (allocated = false ∨ maxSize < arrayBlocks (grown items.length)) := by
  cases free with
  | succ free' =>
      left
      refine ⟨free', ?_, hlength, by omega⟩
      rw [withRoom, if_neg]
      simp
  | zero =>
      have hfull : (ofItems items 0).withRoom allocated =
          (ofItems items 0).setCapacity (max (items.length + 1) (items.length * 3 / 2) : ℕ)
            allocated := by
        rw [withRoom, if_pos (by simp), ← ensureCapacity_full hlength]
        simp
      have hgrown : items.length < grown items.length := by
        rw [grown]
        omega
      have hfits : grown items.length * 12 + 31 < 2 ^ 32 := by
        rw [maxLength] at hlength
        rw [grown]
        omega
      rw [hfull]
      by_cases hrefused : allocated = false ∨ maxSize < arrayBlocks (grown items.length)
      · right
        refine ⟨?_, rfl, hrefused⟩
        apply setCapacity_refused (by omega) (by omega)
        rwa [asked_grown]
      · left
        obtain ⟨hallocated, hmax⟩ := not_or.mp hrefused
        rw [Bool.not_eq_false] at hallocated
        rw [not_lt] at hmax
        have hlong := le_maxLength hmax hfits
        refine ⟨grown items.length - items.length - 1, ?_, by omega, by omega⟩
        rw [hallocated, setCapacity_granted (by omega) (by omega) (by rwa [asked_grown])
          (by rwa [asked_grown]), asked_grown]
        congr 3
        omega

end Room

/-! ### Moves -/

theorem moveUp_append (front : List (Option Ref)) (x : Option Ref) (block : List (Option Ref))
    (old : Option Ref) (back : List (Option Ref)) :
    moveUp front.length (front ++ x :: block ++ old :: back) (front.length + block.length + 1) =
      some (front ++ x :: x :: block ++ back) := by
  induction block using List.reverseRecOn generalizing old back with
  | nil =>
      have hset : setElement (front ++ [x] ++ old :: back) (front.length + 1) x =
          some (front ++ [x] ++ x :: back) := by
        simpa using setElement_append (front ++ [x]) back old x
      have hget : (front ++ [x] ++ old :: back)[front.length]? = some x := by simp
      rw [List.length_nil, Nat.add_zero, moveUp, List.getD, hget]
      simp only [Option.getD_some, hset]
      simp
  | append_singleton block last ih =>
      have hlength : front.length + (block ++ [last]).length = front.length + block.length + 1 := by
        simp
        omega
      have hset : setElement (front ++ x :: (block ++ [last]) ++ old :: back)
          (front.length + block.length + 1 + 1) last =
          some (front ++ x :: block ++ last :: (last :: back)) := by
        have happend := setElement_append (front ++ x :: (block ++ [last])) back old last
        simpa [Nat.add_assoc] using happend
      have hget : (front ++ x :: (block ++ [last]) ++ old :: back)[
          front.length + block.length + 1]? = some last := by
        have hindex : front.length + block.length + 1 = (front ++ x :: block).length := by
          rw [List.length_append, List.length_cons]
          omega
        have happend : front ++ x :: (block ++ [last]) ++ old :: back =
            (front ++ x :: block) ++ last :: old :: back := by simp
        rw [hindex, happend, List.getElem?_append_right le_rfl, Nat.sub_self,
          List.getElem?_cons_zero]
      rw [hlength, moveUp, List.getD, hget]
      simp only [Option.getD_some, hset]
      rw [if_neg (by omega), ih]
      simp

theorem moveDown_append (front : List (Option Ref)) (x : Option Ref) (block : List (Option Ref))
    (last : Option Ref) (back : List (Option Ref)) {steps : ℕ} (hsteps : block.length < steps) :
    moveDown (front.length + block.length + 1) (front ++ x :: (block ++ last :: back)) front.length
        steps = some (front ++ (block ++ last :: last :: back)) := by
  induction block generalizing front x steps with
  | nil =>
      obtain ⟨steps, rfl⟩ : ∃ n, steps = n + 1 := ⟨steps - 1, by simp at hsteps; omega⟩
      have hget : (front ++ x :: ([] ++ last :: back))[front.length + 1]? = some last := by simp
      rw [List.length_nil, moveDown, List.getD, hget]
      simp only [Option.getD_some, setElement_append]
      simp
  | cons y block ih =>
      rw [List.length_cons] at hsteps
      obtain ⟨steps, rfl⟩ : ∃ n, steps = n + 1 := ⟨steps - 1, by omega⟩
      have hget : (front ++ x :: (y :: block ++ last :: back))[front.length + 1]? = some y := by
        simp
      have hrest := ih (front ++ [y]) y (show block.length < steps by omega)
      have hstop : (front ++ [y]).length + block.length + 1 =
          front.length + (block.length + 1) + 1 := by
        rw [List.length_append, List.length_singleton]
        omega
      rw [hstop] at hrest
      rw [moveDown, List.getD, hget]
      simp only [Option.getD_some, setElement_append]
      rw [if_neg (by simp)]
      simpa using hrest

theorem insertIdx_length (front back : List (Option Ref)) (value : Option Ref) :
    (front ++ back).insertIdx front.length value = front ++ value :: back := by
  induction front with
  | nil => rfl
  | cons x front ih => simpa using ih

/-- A place for another element among those of the list. -/
theorem moved_up {n : ℕ} (hn : n ≤ items.length) (free : ℕ) :
    ∃ x, (if (n : ℤ) < items.length then
        moveUp n (ofItems items (free + 1)).items items.length
      else some (ofItems items (free + 1)).items) =
      some (items.take n ++ x :: (items.drop n ++ List.replicate free none)) := by
  have hfront : (items.take n).length = n := List.length_take_of_le hn
  cases hback : items.drop n with
  | nil =>
      have hlast : n = items.length := le_antisymm hn (List.drop_eq_nil_iff.mp hback)
      refine ⟨none, ?_⟩
      rw [if_neg (by omega), ofItems, hlast, List.take_length]
      rfl
  | cons x block =>
      have hlength := congrArg List.length hback
      rw [List.length_drop, List.length_cons] at hlength
      have hitems : items = items.take n ++ x :: block := by
        rw [← hback, List.take_append_drop]
      have harray : (ofItems items (free + 1)).items =
          items.take n ++ x :: block ++ none :: List.replicate free none := by
        rw [← hitems]
        rfl
      have hmoved := moveUp_append (items.take n) x block none (List.replicate free none)
      rw [hfront, ← harray] at hmoved
      refine ⟨x, ?_⟩
      have hsize : items.length = n + block.length + 1 := by omega
      rw [if_pos (by omega), hsize, hmoved]
      simp

/-- The array without an element of the list. -/
theorem moved_down {n : ℕ} (hn : n < items.length) (free : ℕ) :
    ∃ x, (if (n : ℤ) < (items.length : ℤ) - 1 then
        moveDown (items.length - 1) (ofItems items free).items n (ofItems items free).items.length
      else some (ofItems items free).items) =
      some (items.eraseIdx n ++ x :: List.replicate free none) := by
  have hfront : (items.take n).length = n := List.length_take_of_le hn.le
  have hitems : items = items.take n ++ items[n] :: items.drop (n + 1) := by
    rw [List.cons_getElem_drop_succ, List.take_append_drop]
  -- Is the element the last one?
  rw [List.eraseIdx_eq_take_drop_succ]
  cases hback : items.drop (n + 1) using List.reverseRecOn with
  | nil =>
      have hlast := List.drop_eq_nil_iff.mp hback
      refine ⟨items[n], ?_⟩
      rw [if_neg (by omega), ofItems, List.append_nil]
      conv_lhs => rw [hitems, hback, List.append_assoc]
      rfl
  | append_singleton block last =>
      have hlength := congrArg List.length hback
      rw [List.length_drop, List.length_append, List.length_singleton] at hlength
      have harray : (ofItems items free).items =
          items.take n ++ items[n] :: (block ++ last :: List.replicate free none) := by
        rw [ofItems]
        conv_lhs => rw [hitems, hback]
        simp
      have hmoved := moveDown_append (items.take n) items[n] block last
        (List.replicate free none) (show block.length < items.length + free by omega)
      rw [hfront, ← harray] at hmoved
      refine ⟨last, ?_⟩
      have hstop : items.length - 1 = n + block.length + 1 := by omega
      rw [if_pos (by omega), length_ofItems, hstop, hmoved]
      simp

/-! ### Calls -/

/-- What a call is to do, with the array that it leaves. -/
def Served (items : List (Option Ref)) (free : ℕ) (op : Op Ref) : Prop :=
  ∃ r items' free', exec (ofItems items free) op = some (r, ofItems items' free') ∧
    items'.length + free' ≤ maxLength ∧
    ((r, items') = reference items op ∨
      r = .error .outOfMemory ∧ items' = items ∧ Refused (ofItems items free) op) ∧
    (Grew (ofItems items free) op r → items.length + free < items'.length + free')

variable {free : ℕ}

/-- A call that cannot grow the array. -/
theorem served_of_reference {op : Op Ref} {r : Except HResult (Answer Ref)}
    {items' : List (Option Ref)} {free' : ℕ}
    (hexec : exec (ofItems items free) op = some (r, ofItems items' free'))
    (hlength : items'.length + free' ≤ maxLength) (hreference : reference items op = (r, items'))
    (hgrew : ¬Grew (ofItems items free) op r) : Served items free op :=
  ⟨r, items', free', hexec, hlength, .inl hreference.symm, fun h => absurd h hgrew⟩

theorem not_grew {l : ArrayList Ref} {op : Op Ref} {r : Except HResult (Answer Ref)}
    (hadd : ∀ value allocated, op ≠ .add value allocated)
    (hinsert : ∀ index value allocated, op ≠ .insert index value allocated) : ¬Grew l op r := by
  rintro ⟨-, -, ⟨value, allocated, h⟩ | ⟨index, value, allocated, h⟩⟩
  · exact hadd value allocated h
  · exact hinsert index value allocated h

theorem getElem?_ofItems {n : ℕ} (hn : n < items.length) :
    (ofItems items free).items[n]? = some (items.getD n none) := by
  rw [ofItems, List.getElem?_append_left hn, List.getElem?_eq_getElem hn,
    List.getD_eq_getElem _ _ hn]

theorem setElement_ofItems {n : ℕ} (hn : n < items.length) (value : Option Ref) :
    setElement (ofItems items free).items n value =
      some (items.set n value ++ List.replicate free none) := by
  rw [setElement, if_pos (by rw [length_ofItems]; omega), ofItems, List.set_append_left _ _ hn]

theorem served_getItem (h : items.length + free ≤ maxLength) (index : Int32) :
    Served items free (.getItem index) := by
  have hgrew : ∀ r : Except HResult (Answer Ref),
      ¬Grew (ofItems items free) (.getItem index) r := fun r =>
    not_grew (by simp) (by simp)
  by_cases hrange : index.toInt < 0 ∨ items.length ≤ index.toInt
  · apply served_of_reference _ h _ (hgrew (.error .outOfRange))
    · rw [exec, getItem, if_pos (by simpa using hrange)]
      rfl
    · rw [reference, if_pos hrange]
  · apply served_of_reference _ h _ (hgrew (.ok (.value (items.getD index.toInt.toNat none))))
    · rw [exec, getItem, if_neg (by simpa using hrange), getElem?_ofItems (by omega)]
      rfl
    · rw [reference, if_neg hrange]

theorem served_setItem (h : items.length + free ≤ maxLength) (index : Int32)
    (value : Option Ref) : Served items free (.setItem index value) := by
  have hgrew : ∀ r : Except HResult (Answer Ref),
      ¬Grew (ofItems items free) (.setItem index value) r := fun r =>
    not_grew (by simp) (by simp)
  by_cases hrange : index.toInt < 0 ∨ items.length ≤ index.toInt
  · apply served_of_reference _ h _ (hgrew (.error .outOfRange))
    · rw [exec, setItem, if_pos (by simpa using hrange)]
      rfl
    · rw [reference, if_pos hrange]
  · apply served_of_reference _ _ _ (hgrew (.ok .done))
    · exact items.set index.toInt.toNat value
    · exact free
    · rw [exec, setItem, if_neg (by simpa using hrange), setElement_ofItems (by omega)]
      simp only [Option.map_some, Except.map, ofItems, List.length_set]
    · rwa [List.length_set]
    · rw [reference, if_neg hrange]

theorem served_clear (h : items.length + free ≤ maxLength) : Served items free .clear := by
  apply served_of_reference _ _ _ (not_grew (by simp) (by simp) : ¬Grew _ _ (.ok .done))
  · exact []
  · exact items.length + free
  · have hclear : clearObjects (ofItems items free).items 0 (ofItems items free).size =
        some (List.replicate (items.length + free) none) := by
      rw [clearObjects, if_pos (by simp), List.splice, List.take_zero, List.nil_append,
        List.length_replicate, size_ofItems, Nat.zero_add, ofItems, List.drop_left,
        List.replicate_append_replicate]
    rw [exec, clear, hclear]
    rfl
  · simpa using h
  · rfl

theorem served_add (h : items.length + free ≤ maxLength) (value : Option Ref)
    (allocated : Bool) : Served items free (.add value allocated) := by
  rcases withRoom_cases allocated h with
    ⟨free', hroom, hlength, hlonger⟩ | ⟨hroom, hfull, hrefused⟩
  · refine ⟨.ok (.index items.length), items ++ [value], free', ?_, ?_, .inl rfl, ?_⟩
    · have hset : setElement (ofItems items (free' + 1)).items items.length value =
          some (items ++ [value] ++ List.replicate free' none) := by
        rw [ofItems, List.replicate_succ, setElement_append]
        simp
      rw [exec, add, hroom]
      simp only [size_ofItems, hset, Option.map_some, Except.map]
      rw [ofItems, List.length_append, List.length_singleton]
    · rw [List.length_append, List.length_singleton]
      omega
    · rintro ⟨hfull, -, -⟩
      rw [size_ofItems, length_ofItems] at hfull
      simp
      omega
  · refine ⟨.error .outOfMemory, items, free, ?_, h, .inr ⟨rfl, rfl, ?_⟩, ?_⟩
    · rw [exec, add, hroom]
      rfl
    · refine ⟨grown items.length, allocated, ?_, hrefused⟩
      rw [wanted, if_pos (by simp [hfull]), length_ofItems, hfull, Nat.add_zero]
    · rintro ⟨-, ⟨answer, hok⟩, -⟩
      cases hok

theorem served_insert (h : items.length + free ≤ maxLength) (index : Int32)
    (value : Option Ref) (allocated : Bool) : Served items free (.insert index value allocated) := by
  by_cases hrange : index.toInt < 0 ∨ items.length < index.toInt
  · refine ⟨.error .outOfRange, items, free, ?_, h, .inl ?_, ?_⟩
    · rw [exec, insert, if_pos (by simpa using hrange)]
      rfl
    · rw [reference, if_pos hrange]
    · rintro ⟨-, ⟨answer, hok⟩, -⟩
      cases hok
  · rcases withRoom_cases allocated h with
      ⟨free', hroom, hlength, hlonger⟩ | ⟨hroom, hfull, hrefused⟩
    · have hlengthInsert : (items.insertIdx index.toInt.toNat value).length = items.length + 1 :=
        List.length_insertIdx_of_le_length (by omega) value
      obtain ⟨n, hn⟩ : ∃ n : ℕ, index.toInt = n := ⟨index.toInt.toNat, by omega⟩
      rw [hn, Int.toNat_natCast] at hlengthInsert
      refine ⟨.ok .done, items.insertIdx n value, free', ?_, ?_, .inl ?_, ?_⟩
      · obtain ⟨x, hmoved⟩ := moved_up (show n ≤ items.length by omega) free'
        have hfront : (items.take n).length = n := List.length_take_of_le (by omega)
        have hset := setElement_append (items.take n) (items.drop n ++ List.replicate free' none)
          x value
        have hinsert := insertIdx_length (items.take n) (items.drop n) value
        rw [hfront] at hset hinsert
        rw [List.take_append_drop] at hinsert
        rw [exec, insert, if_neg (by simpa using hrange), hroom]
        simp only [size_ofItems, hn, Int.toNat_natCast, hmoved, hset]
        rw [Option.map_some, Option.map_some, ofItems, hlengthInsert, hinsert]
        simp [Except.map]
      · omega
      · rw [reference, if_neg hrange, hn, Int.toNat_natCast]
      · rintro ⟨hfull, -, -⟩
        rw [size_ofItems, length_ofItems] at hfull
        omega
    · refine ⟨.error .outOfMemory, items, free, ?_, h, .inr ⟨rfl, rfl, ?_⟩, ?_⟩
      · rw [exec, insert, if_neg (by simpa using hrange), hroom]
        rfl
      · refine ⟨grown items.length, allocated, ?_, hrefused⟩
        rw [wanted, if_pos (by rw [size_ofItems, length_ofItems]; omega), length_ofItems, hfull,
          Nat.add_zero]
      · rintro ⟨-, ⟨answer, hok⟩, -⟩
        cases hok

theorem served_removeAt (h : items.length + free ≤ maxLength) (index : Int32) :
    Served items free (.removeAt index) := by
  have hgrew : ∀ r : Except HResult (Answer Ref),
      ¬Grew (ofItems items free) (.removeAt index) r := fun r =>
    not_grew (by simp) (by simp)
  by_cases hrange : index.toInt < 0 ∨ items.length ≤ index.toInt
  · apply served_of_reference _ h _ (hgrew (.error .outOfRange))
    · rw [exec, removeAt, if_pos (by simpa using hrange)]
      rfl
    · rw [reference, if_pos hrange]
  · obtain ⟨n, hn⟩ : ∃ n : ℕ, index.toInt = n := ⟨index.toInt.toNat, by omega⟩
    have hlt : n < items.length := by omega
    have hlength : (items.eraseIdx n).length = items.length - 1 := List.length_eraseIdx_of_lt hlt
    apply served_of_reference _ _ _ (hgrew (.ok .done))
    · exact items.eraseIdx n
    · exact free + 1
    · obtain ⟨x, hmoved⟩ := moved_down hlt free
      have hset := setElement_append (items.eraseIdx n) (List.replicate free none) x none
      rw [hlength] at hset
      rw [exec, removeAt, if_neg (by simpa using hrange)]
      simp only [size_ofItems, hn, Int.toNat_natCast, hmoved, hset, Option.map_some]
      rw [ofItems, hlength]
      rfl
    · omega
    · rw [reference, if_neg hrange, hn, Int.toNat_natCast]

/-- A capacity for which the size of the array fits. -/
theorem served_setCapacity (h : items.length + free ≤ maxLength) {newCapacity : Int32}
    {allocated : Bool} (hfits : Fits (ofItems items free) (.setCapacity newCapacity allocated)) :
    Served items free (.setCapacity newCapacity allocated) := by
  have hgrew : ∀ r : Except HResult (Answer Ref),
      ¬Grew (ofItems items free) (.setCapacity newCapacity allocated) r := fun r =>
    not_grew (by simp) (by simp)
  by_cases hsame : newCapacity.toInt = items.length + free
  · apply served_of_reference _ h _ (hgrew (.ok .done))
    · rw [exec, setCapacity_same hsame]
      rfl
    · rw [reference, if_neg (by omega)]
  · by_cases hlow : newCapacity.toInt < items.length
    · apply served_of_reference _ h _ (hgrew (.error .outOfRange))
      · rw [exec, setCapacity_low hlow]
        rfl
      · rw [reference, if_pos hlow]
    · have hwanted : wanted (ofItems items free) (.setCapacity newCapacity allocated) =
          some (asked newCapacity.toInt, allocated) := by
        rw [wanted, if_pos (by rw [length_ofItems, size_ofItems]; omega)]
        rfl
      by_cases hrefused : allocated = false ∨ maxSize < arrayBlocks (asked newCapacity.toInt)
      · refine ⟨.error .outOfMemory, items, free, ?_, h, .inr ⟨rfl, rfl, ?_⟩,
          fun hgrow => absurd hgrow (hgrew _)⟩
        · rw [exec, setCapacity_refused hsame (by omega) hrefused]
          rfl
        · exact ⟨_, _, hwanted, hrefused⟩
      · obtain ⟨hallocated, hmax⟩ := not_or.mp hrefused
        rw [Bool.not_eq_false] at hallocated
        rw [not_lt] at hmax
        subst hallocated
        have hsmall := hfits _ hwanted hmax
        have hlong := le_maxLength hmax hsmall
        have hroom : items.length ≤ asked newCapacity.toInt := by
          rw [asked]
          omega
        apply served_of_reference _ _ _ (hgrew (.ok .done))
        · exact items
        · exact asked newCapacity.toInt - items.length
        · rw [exec, setCapacity_granted hsame (by omega) hmax hsmall]
          rfl
        · omega
        · rw [reference, if_neg hlow]

theorem served (h : items.length + free ≤ maxLength) {op : Op Ref}
    (hfits : Fits (ofItems items free) op) : Served items free op := by
  cases op with
  | getItem index => exact served_getItem h index
  | setItem index value => exact served_setItem h index value
  | add value allocated => exact served_add h value allocated
  | insert index value allocated => exact served_insert h index value allocated
  | removeAt index => exact served_removeAt h index
  | clear => exact served_clear h
  | setCapacity newCapacity allocated => exact served_setCapacity h hfits

/-! ### Runs -/

theorem fits_grown {l : ArrayList Ref} (h : l.items.length ≤ maxLength) :
    grown l.items.length * 12 + 31 < 2 ^ 32 := by
  rw [maxLength] at h
  rw [grown]
  omega

/-- Only `SetCapacity` asks for an array whose size does not fit. -/
theorem exists_setCapacity {op : Op Ref} (h : l.items.length ≤ maxLength) (hfits : ¬Fits l op) :
    ∃ newCapacity, op = .setCapacity newCapacity true ∧ newCapacity.toInt ≠ l.items.length ∧
      l.size ≤ newCapacity.toInt ∧ arrayBlocks (asked newCapacity.toInt) ≤ maxSize ∧
      2 ^ 32 ≤ asked newCapacity.toInt * 12 + 31 := by
  rw [Fits] at hfits
  push Not at hfits
  obtain ⟨n, hwanted, hmax, hlarge⟩ := hfits
  have hgrown := fits_grown h
  cases op with
  | setCapacity newCapacity allocated =>
      rw [wanted] at hwanted
      split at hwanted
      · next hcond =>
          simp only [Option.some.injEq, Prod.mk.injEq] at hwanted
          obtain ⟨rfl, rfl⟩ := hwanted
          exact ⟨newCapacity, rfl, hcond.1, hcond.2, hmax, hlarge⟩
      · cases hwanted
  | add value allocated =>
      rw [wanted] at hwanted
      split at hwanted
      · simp only [Option.some.injEq, Prod.mk.injEq] at hwanted
        omega
      · cases hwanted
  | insert index value allocated =>
      rw [wanted] at hwanted
      split at hwanted
      · simp only [Option.some.injEq, Prod.mk.injEq] at hwanted
        omega
      · cases hwanted
  | getItem index => cases hwanted
  | setItem index value => cases hwanted
  | removeAt index => cases hwanted
  | clear => cases hwanted

/-- The new array is written behind its memory. -/
theorem not_right_of_not_fits {s : System Ref} {op : Op Ref} (h : Represents s.list s.items)
    (hfits : ¬Fits s.list op) : ¬Right s op := by
  obtain ⟨newCapacity, rfl, hne, hlow, hmax, hwraps⟩ := exists_setCapacity h.length_le hfits
  obtain ⟨free, hlist, -⟩ := h.exists_free
  rw [hlist, length_ofItems] at hne
  rw [hlist, size_ofItems] at hlow
  rintro ⟨r, l, items, hexec, -⟩
  rw [hlist, exec, setCapacity_wrapped (by exact_mod_cast hne) hlow hmax hwraps] at hexec
  cases hexec

theorem right_of_served {s : System Ref} {op : Op Ref} {free : ℕ}
    (hlist : s.list = ofItems s.items free) (h : Served s.items free op) : Right s op := by
  obtain ⟨r, items, free', hexec, -, hanswer, hgrew⟩ := h
  refine ⟨r, ofItems items free', items, ?_, holds_ofItems items free', ?_, ?_⟩
  · rwa [hlist]
  · rwa [hlist]
  · rwa [hlist, length_ofItems, length_ofItems]

theorem next_of_answer {items items' : List (Option Ref)} {op : Op Ref}
    {r : Except HResult (Answer Ref)}
    (h : (r, items') = reference items op ∨ r = .error .outOfMemory ∧ items' = items) :
    next items op r = items' := by
  rcases h with hreference | ⟨rfl, rfl⟩
  · cases r with
    | ok answer => rw [next, ← hreference]
    | error e =>
        rw [next]
        cases op <;> simp only [reference] at hreference <;> (try split at hreference) <;>
          simp_all
  · rfl

theorem represents_of_served {s s' : System Ref} {op : Op Ref} {free : ℕ}
    (hlist : s.list = ofItems s.items free) (h : Served s.items free op)
    (hstep : step s op = some s') : Represents s'.list s'.items := by
  obtain ⟨r, items, free', hexec, hlength, hanswer, -⟩ := h
  rw [step, hlist, hexec, Option.map_some, Option.some.injEq] at hstep
  have hnext := next_of_answer (hanswer.imp_right fun h => ⟨h.1, h.2.1⟩)
  rw [← hstep]
  simp only [hnext]
  exact represents_ofItems hlength

theorem represents_of_initial {s : System Ref} (h : Initial s) : Represents s.list s.items := by
  obtain ⟨hitems, hsize, capacity, -, hcreate⟩ := h
  obtain ⟨harray, hlength⟩ := createInstance_ok hcreate
  constructor
  · exact ⟨by simp [hitems, hsize], capacity, by simp [hitems, harray]⟩
  · simpa [harray] using hlength

theorem represents_of_reachable {s : System Ref}
    (h : Reachable step Initial (fun s op => Fits s.list op) s) : Represents s.list s.items := by
  apply h.invariant (fun s => Represents s.list s.items)
  · intro s hs
    exact represents_of_initial hs
  · intro s op s' hs hfits hstep
    obtain ⟨free, hlist, hlength⟩ := hs.exists_free
    rw [hlist] at hfits
    exact represents_of_served hlist (served hlength hfits) hstep

theorem right_iff_fits {s : System Ref}
    (h : Reachable step Initial (fun s op => Fits s.list op) s) (op : Op Ref) :
    Right s op ↔ Fits s.list op := by
  have hrepresents := represents_of_reachable h
  constructor
  · intro hright
    by_contra hfits
    exact not_right_of_not_fits hrepresents hfits hright
  · intro hfits
    obtain ⟨free, hlist, hlength⟩ := hrepresents.exists_free
    rw [hlist] at hfits
    exact right_of_served hlist (served hlength hfits)

end ArrayList

/-! ## Stack -/

namespace Stack

/-- The calls, with what the heap says if `Push` needs an array. -/
inductive Op (Ref : Type) where
  | push (value : Option Ref) (allocated : Bool)
  | pop
  | peek
  | clear

inductive Answer (Ref : Type) where
  | done
  | value (ref : Option Ref)

def exec (s : Stack Ref) : Op Ref → Reply Ref (Answer Ref)
  | .push value allocated => (s.push value allocated).map fun r => (r.1.map fun _ => .done, r.2)
  | .pop => s.pop.map fun r => (r.1.map .value, r.2)
  | .peek => s.peek.map fun r => (r.1.map .value, r.2)
  | .clear => s.clear.map fun r => (r.1.map fun _ => .done, r.2)

/-- What a list answers whose first element was pushed last, and the list after the call. -/
def reference : List (Option Ref) → Op Ref → Except HResult (Answer Ref) × List (Option Ref)
  | items, .push value _ => (.ok .done, value :: items)
  | [], .pop => (.error .invalidOperation, [])
  | value :: items, .pop => (.ok (.value value), items)
  | [], .peek => (.error .invalidOperation, [])
  | value :: items, .peek => (.ok (.value value), value :: items)
  | _, .clear => (.ok .done, [])

/-- The elements of the list, and before them nothing. -/
def Holds (s : Stack Ref) (items : List (Option Ref)) : Prop :=
  s.size = items.length ∧ ∃ free, s.array = List.replicate free none ++ items

/-- The array that a full stack needs is not to be had. -/
def Refused (s : Stack Ref) (op : Op Ref) : Prop :=
  s.size = s.array.length ∧ ∃ value allocated, op = .push value allocated ∧
    (allocated = false ∨ maxSize < arrayBlocks (s.array.length * 2))

structure System (Ref : Type) where
  stack : Stack Ref
  items : List (Option Ref)

/-- A push onto a full stack that succeeded. -/
def Grew (s : Stack Ref) (op : Op Ref) (r : Except HResult (Answer Ref)) : Prop :=
  s.size = s.array.length ∧ (∃ answer, r = .ok answer) ∧ ∃ value allocated, op = .push value allocated

/-- A call does what the list says, or fails for want of memory and changes nothing. -/
def Right (s : System Ref) (op : Op Ref) : Prop :=
  ∃ r stack items, exec s.stack op = some (r, stack) ∧ Holds stack items ∧
    ((r, items) = reference s.items op ∨
      r = .error .outOfMemory ∧ items = s.items ∧ Refused s.stack op) ∧
    (Grew s.stack op r → s.stack.array.length < stack.array.length)

def next (items : List (Option Ref)) (op : Op Ref) (r : Except HResult (Answer Ref)) :
    List (Option Ref) :=
  match r with
  | .ok _ => (reference items op).2
  | .error _ => items

def step (s : System Ref) (op : Op Ref) : Option (System Ref) :=
  (exec s.stack op).map fun r => ⟨r.2, next s.items op r.1⟩

/-- A stack without elements, in an array of at least one. -/
def Initial (s : System Ref) : Prop :=
  s.items = [] ∧ s.stack.size = 0 ∧
    ∃ capacity : ℕ, 1 ≤ capacity ∧ createInstance true capacity = some (.ok s.stack.array)

/-- The stack of some elements in an array with free places before them. -/
def ofItems (free : ℕ) (items : List (Option Ref)) : Stack Ref :=
  ⟨List.replicate free none ++ items, items.length⟩

/-- The array is one that the heap can give, and has room for an element at least. -/
structure Possible (free : ℕ) (items : List (Option Ref)) : Prop where
  pos : 0 < free + items.length
  le : free + items.length ≤ maxLength

variable {free : ℕ} {items : List (Option Ref)}

@[simp] theorem size_ofItems (free : ℕ) (items : List (Option Ref)) :
    (ofItems free items).size = items.length := rfl

@[simp] theorem length_ofItems (free : ℕ) (items : List (Option Ref)) :
    (ofItems free items).array.length = free + items.length := by
  simp [ofItems]

@[simp] theorem top_ofItems (free : ℕ) (items : List (Option Ref)) :
    (ofItems free items).top = free := by
  simp [top]

theorem holds_ofItems (free : ℕ) (items : List (Option Ref)) :
    Holds (ofItems free items) items :=
  ⟨rfl, free, rfl⟩

theorem setElement_ofItems (free : ℕ) (old value : Option Ref) (items : List (Option Ref)) :
    setElement (ofItems free (old :: items)).array free value =
      some (List.replicate free none ++ value :: items) := by
  have hset := setElement_append (List.replicate free none) items old value
  rwa [List.length_replicate] at hset

/-- What a call is to do, with the array that it leaves. -/
def Served (free : ℕ) (items : List (Option Ref)) (op : Op Ref) : Prop :=
  ∃ r items' free', exec (ofItems free items) op = some (r, ofItems free' items') ∧
    Possible free' items' ∧
    ((r, items') = reference items op ∨
      r = .error .outOfMemory ∧ items' = items ∧ Refused (ofItems free items) op) ∧
    (Grew (ofItems free items) op r → free + items.length < free' + items'.length)

theorem not_grew {s : Stack Ref} {op : Op Ref} {r : Except HResult (Answer Ref)}
    (h : ∀ value allocated, op ≠ .push value allocated) : ¬Grew s op r := by
  rintro ⟨-, -, value, allocated, hop⟩
  exact h value allocated hop

/-- The place of the first element is given up. -/
theorem replicate_append_cons (free : ℕ) (items : List (Option Ref)) :
    List.replicate free none ++ none :: items = List.replicate (free + 1) none ++ items := by
  rw [List.replicate_succ', List.append_assoc, List.singleton_append]

theorem served_pop (h : Possible free items) : Served free items .pop := by
  cases items with
  | nil => exact ⟨.error .invalidOperation, [], free, rfl, h, .inl rfl,
      fun hgrew => absurd hgrew (not_grew (by simp))⟩
  | cons value items =>
      refine ⟨.ok (.value value), items, free + 1, ?_, ?_, .inl rfl,
        fun hgrew => absurd hgrew (not_grew (by simp))⟩
      · have hget : (ofItems free (value :: items)).array[free]? = some value := by
          simp [ofItems]
        rw [exec, pop, if_neg (by simp), top_ofItems, hget, setElement_ofItems]
        simp only [replicate_append_cons, size_ofItems, List.length_cons]
        rfl
      · constructor
        · omega
        · have hle := h.le
          rw [List.length_cons] at hle
          omega

theorem served_peek (h : Possible free items) : Served free items .peek := by
  cases items with
  | nil => exact ⟨.error .invalidOperation, [], free, rfl, h, .inl rfl,
      fun hgrew => absurd hgrew (not_grew (by simp))⟩
  | cons value items =>
      refine ⟨.ok (.value value), value :: items, free, ?_, h, .inl rfl,
        fun hgrew => absurd hgrew (not_grew (by simp))⟩
      have hget : (ofItems free (value :: items)).array[free]? = some value := by
        simp [ofItems]
      rw [exec, peek, if_neg (by simp), top_ofItems, hget]
      rfl

theorem served_clear (h : Possible free items) : Served free items .clear := by
  have hclear : clearObjects (ofItems free items).array free items.length =
      some (List.replicate (free + items.length) none) := by
    have htake : (List.replicate free none ++ items).take free = List.replicate free none := by
      simp
    rw [clearObjects, if_pos (by simp), ofItems, List.splice, htake,
      List.drop_of_length_le (by simp), List.append_nil, List.replicate_append_replicate]
  refine ⟨.ok .done, [], free + items.length, ?_, ⟨h.pos, h.le⟩, .inl ?_,
    fun hgrew => absurd hgrew (not_grew (by simp))⟩
  · rw [exec, clear, top_ofItems, size_ofItems, hclear, ofItems, List.append_nil]
    rfl
  · cases items <;> rfl

/-- There is a place before the first element. -/
theorem setElement_push (free : ℕ) (items : List (Option Ref)) (value : Option Ref) :
    setElement (ofItems (free + 1) items).array
        ((ofItems (free + 1) items).array.length - (items.length + 1)) value =
      some (List.replicate free none ++ value :: items) := by
  have hplace : (ofItems (free + 1) items).array.length - (items.length + 1) = free := by
    rw [length_ofItems]
    omega
  have hset := setElement_append (List.replicate free none) items none value
  rw [hplace, ofItems, ← replicate_append_cons]
  rwa [List.length_replicate] at hset

section Room

variable {allocated : Bool}

theorem withRoom_full (hlength : items.length ≤ maxLength) :
    (ofItems 0 items).withRoom allocated =
      (ofItems 0 items).replaceArray (items.length * 2 : ℕ) allocated := by
  have hmod : (items.length * 2 : ℤ).bmod (2 ^ 32) = (items.length * 2 : ℕ) := by
    rw [maxLength] at hlength
    push_cast
    apply Int.bmod_eq_of_le <;> omega
  rw [withRoom, if_pos (by simp), length_ofItems, Nat.zero_add, hmod]

/-- There is room, or the array is full and there is none to be had. -/
theorem withRoom_cases (allocated : Bool) (h : Possible free items) :
    (∃ free', (ofItems free items).withRoom allocated = some (.ok (), ofItems (free' + 1) items) ∧
      free' + 1 + items.length ≤ maxLength ∧ (free = 0 → free < free' + 1)) ∨
    (ofItems free items).withRoom allocated = some (.error .outOfMemory, ofItems free items) ∧
      free = 0 ∧ (allocated = false ∨ maxSize < arrayBlocks (items.length * 2)) := by
  have hpos := h.pos
  have hle := h.le
  cases free with
  | succ free' =>
      left
      refine ⟨free', ?_, hle, by omega⟩
      rw [withRoom, if_neg]
      simp
  | zero =>
      rw [Nat.zero_add] at hpos hle
      have hfits : items.length * 2 * 12 + 31 < 2 ^ 32 := by
        rw [maxLength] at hle
        omega
      rw [withRoom_full hle, replaceArray]
      by_cases hrefused : allocated = false ∨ maxSize < arrayBlocks (items.length * 2)
      · right
        rw [createInstance_refused hrefused]
        exact ⟨rfl, rfl, hrefused⟩
      · left
        obtain ⟨hallocated, hmax⟩ := not_or.mp hrefused
        rw [Bool.not_eq_false] at hallocated
        rw [not_lt] at hmax
        have hlong := le_maxLength hmax hfits
        have hcopy : copyObjects (List.replicate (items.length * 2) none) items.length items
            items.length = some (List.replicate items.length none ++ items) := by
          rw [copyObjects, if_pos (by simp; omega), List.take_length, List.splice,
            List.take_replicate, List.drop_of_length_le (by simp; omega), List.append_nil]
          congr 3
          omega
        refine ⟨items.length - 1, ?_, by omega, by omega⟩
        rw [hallocated, createInstance_granted hmax hfits, Nat.sub_add_cancel hpos]
        simp [ofItems, hcopy]

end Room

theorem served_push (h : Possible free items) (value : Option Ref) (allocated : Bool) :
    Served free items (.push value allocated) := by
  rcases withRoom_cases allocated h with
    ⟨free', hroom, hlength, hlonger⟩ | ⟨hroom, hfull, hrefused⟩
  · refine ⟨.ok .done, value :: items, free', ?_, ⟨by simp, ?_⟩, .inl rfl, ?_⟩
    · rw [exec, push, hroom]
      simp only [size_ofItems, setElement_push]
      rfl
    · rw [List.length_cons]
      omega
    · rintro ⟨hfull, -, -⟩
      rw [size_ofItems, length_ofItems] at hfull
      rw [List.length_cons]
      omega
  · refine ⟨.error .outOfMemory, items, free, ?_, h, .inr ⟨rfl, rfl, ?_, ?_⟩, ?_⟩
    · rw [exec, push, hroom]
      rfl
    · rw [size_ofItems, length_ofItems, hfull, Nat.zero_add]
    · exact ⟨value, allocated, rfl, by rwa [length_ofItems, hfull, Nat.zero_add]⟩
    · rintro ⟨-, ⟨answer, hok⟩, -⟩
      cases hok

theorem served (h : Possible free items) (op : Op Ref) : Served free items op := by
  cases op with
  | push value allocated => exact served_push h value allocated
  | pop => exact served_pop h
  | peek => exact served_peek h
  | clear => exact served_clear h

/-- The stack holds the elements of the list in such an array. -/
def Represents (s : System Ref) : Prop :=
  ∃ free, s.stack = ofItems free s.items ∧ Possible free s.items

theorem represents_of_initial {s : System Ref} (h : Initial s) : Represents s := by
  obtain ⟨hitems, hsize, capacity, hpos, hcreate⟩ := h
  obtain ⟨harray, hlength⟩ := createInstance_ok hcreate
  refine ⟨capacity, ?_, ?_, ?_⟩
  · rw [ofItems, hitems, List.append_nil, List.length_nil, ← harray, ← hsize]
  · omega
  · simpa [hitems] using hlength

theorem next_of_answer {items' : List (Option Ref)} {op : Op Ref}
    {r : Except HResult (Answer Ref)}
    (h : (r, items') = reference items op ∨ r = .error .outOfMemory ∧ items' = items) :
    next items op r = items' := by
  rcases h with hreference | ⟨rfl, rfl⟩
  · cases r with
    | ok answer => rw [next, ← hreference]
    | error e => cases op <;> cases items <;> simp_all [reference, next]
  · rfl

theorem represents_of_step {s s' : System Ref} {op : Op Ref} (h : Represents s)
    (hstep : step s op = some s') : Represents s' := by
  obtain ⟨free, hstack, hpossible⟩ := h
  obtain ⟨r, items, free', hexec, hpossible', hanswer, -⟩ := served hpossible op
  rw [step, hstack, hexec, Option.map_some, Option.some.injEq] at hstep
  have hnext := next_of_answer (hanswer.imp_right fun h => ⟨h.1, h.2.1⟩)
  rw [← hstep]
  refine ⟨free', ?_, ?_⟩
  · simp only [hnext]
  · simpa only [hnext] using hpossible'

theorem right_of_reachable {s : System Ref}
    (h : Reachable step Initial (fun _ _ => True) s) (op : Op Ref) : Right s op := by
  have hrepresents : Represents s := by
    apply h.invariant Represents
    · intro s hs
      exact represents_of_initial hs
    · intro s op s' hs _ hstep
      exact represents_of_step hs hstep
  obtain ⟨free, hstack, hpossible⟩ := hrepresents
  obtain ⟨r, items, free', hexec, -, hanswer, hgrew⟩ := served hpossible op
  refine ⟨r, ofItems free' items, items, ?_, holds_ofItems free' items, ?_, ?_⟩
  · rwa [hstack]
  · rwa [hstack]
  · rwa [hstack, length_ofItems, length_ofItems]

end Stack

end TinyCLR.HeapBlock
