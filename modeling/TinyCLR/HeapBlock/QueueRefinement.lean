import TinyCLR.HeapBlock.QueueCopy
import TinyCLR.Library.TransitionSystem

/-!
# Queues as lists

A queue beside the list of the elements that it should hold. Each call is to answer what the list
says, and to leave the queue with the elements of the next list. `Enqueue` fails to do so where it
replaces the array, and `CopyTo` where the target is an array of objects: the arguments of
`memcpy` are the wrong way round.
-/

namespace TinyCLR.HeapBlock.Queue

open TransitionSystem

variable {T : Types} (O : ObjectType T)

/-- The calls of a queue, with the array that is allocated if `Enqueue` needs one, and what other
code writes to arrays. -/
inductive Op (T : Types) where
  | enqueue (value : Option T.Ref) (fresh : Option ArrayId)
  | dequeue
  | peek
  | clear
  | copyTo (toArray : ArrayId) (index : Int32)
  | write (array : ArrayId) (content : Array T)

inductive Answer (T : Types) where
  | done
  | value (ref : Option T.Ref)

/-- The queue, the arrays, and the elements that the queue should hold. -/
structure System (T : Types) where
  queue : Queue
  heap : Heap T
  items : List (Option T.Ref)

def exec (q : Queue) (heap : Heap T) : Op T → Reply T (Answer T)
  | .enqueue value fresh =>
      (q.enqueue O heap value fresh).map fun r => (r.1.map fun _ => .done, r.2)
  | .dequeue => (q.dequeue heap).map fun r => (r.1.map .value, r.2)
  | .peek => (q.peek heap).map fun r => (r.1.map .value, r.2)
  | .clear => (q.clear heap).map fun r => (r.1.map fun _ => .done, r.2)
  | .copyTo toArray index =>
      (q.copyTo heap toArray index).map fun r => (r.1.map fun _ => .done, q, r.2)
  | .write array content => some (.ok .done, q, Function.update heap array content)

/-- The list after a call. -/
def next (items : List (Option T.Ref)) : Op T → Except HResult (Answer T) → List (Option T.Ref)
  | .enqueue value _, .ok _ => items ++ [value]
  | .dequeue, .ok _ => items.tail
  | .clear, .ok _ => []
  | _, _ => items

def step (s : System T) (op : Op T) : Option (System T) :=
  (exec O s.queue s.heap op).map fun r => ⟨r.2.1, r.2.2, next s.items op r.1⟩

/-- `new Queue()` -/
def Initial (s : System T) : Prop :=
  (s.queue.head = 0 ∧ s.queue.tail = 0 ∧ s.queue.size = 0) ∧
    s.heap s.queue.array = objects O 4 (by decide) ∧ s.items = []

/-- The first element of a list. -/
def front (items : List (Option T.Ref)) : Except HResult (Answer T) :=
  match items with
  | [] => .error .invalidOperation
  | ref :: _ => .ok (.value ref)

/-- What `CopyTo` does to the arrays: the elements stand in order from the index on, as elements
of the target, unless there is no room or one of them does not fit. -/
structure CopiedTo (heap : Heap T) (items : List (Option T.Ref)) (toArray : ArrayId)
    (index : Int32) (r : Except HResult (Answer T)) (heap' : Heap T) : Prop where
  others : ∀ a, a ≠ toArray → heap' a = heap a
  outside : ∀ p : Nat, ¬(index.toInt ≤ p ∧ p < index.toInt + items.length) →
    (heap' toArray).elements[p]? = (heap toArray).elements[p]?
  stored : r = .ok .done → ∀ (k : Nat) (ref : Option T.Ref), items[k]? = some ref →
    ∃ (p : Nat) (this e : T.Element), (p : Int) = index.toInt + k ∧
      (heap toArray).elements[p]? = some this ∧
      assign (heap toArray).reflection this (.direct ref) = .ok e ∧
      (heap' toArray).elements[p]? = some e
  answer : r = .ok .done ∨ ∃ error, r = .error error ∧
    (¬(0 ≤ index.toInt ∧ index.toInt + items.length ≤ (heap toArray).elements.length) ∨
      ∃ (k p : Nat) (ref : Option T.Ref) (this : T.Element), (p : Int) = index.toInt + k ∧
        items[k]? = some ref ∧ (heap toArray).elements[p]? = some this ∧
        assign (heap toArray).reflection this (.direct ref) = .error error)

/-- What a call answers, by the list. -/
def Answers (s : System T) (r : Except HResult (Answer T)) (heap' : Heap T) : Op T → Prop
  | .enqueue _ fresh => r = .ok .done ∨
      (∃ error, r = .error error) ∧ (fresh = none ∨ 2 ^ 30 ≤ s.items.length)
  | .dequeue => r = front s.items
  | .peek => r = front s.items
  | .clear => r = .ok .done
  | .copyTo toArray index => CopiedTo s.heap s.items toArray index r heap'
  | .write _ _ => r = .ok .done

/-- The queue holds the elements of the list. -/
def Holds (q : Queue) (heap : Heap T) (items : List (Option T.Ref)) : Prop :=
  (heap q.array).elements.ring q.head q.size = items.map .direct

/-- A call does what the list says, and the queue holds the next list. -/
def Right (s : System T) (op : Op T) : Prop :=
  ∃ r q heap', exec O s.queue s.heap op = some (r, q, heap') ∧ Answers s r heap' op ∧
    Holds q heap' (next s.items op r)

/-- An array is allocated where none is, and the array of a queue is private. -/
def Possible (s : System T) : Op T → Prop
  | .enqueue _ fresh => fresh ≠ some s.queue.array
  | .write array _ => array ≠ s.queue.array
  | _ => True

/-- No elements are copied between arrays of objects, or only such that are the same already. -/
def Kept (s : System T) : Op T → Prop
  | .enqueue _ fresh => s.queue.size < s.queue.capacity s.heap ∨ fresh = none ∨
      2 ^ 31 ≤ s.queue.capacity s.heap * 2 ∨ ∀ ref ∈ s.items, ref = none
  | .copyTo toArray index => T.ofObject (s.heap toArray).reflection = false ∨ s.items = [] ∨
      (s.heap toArray).numOfElements - index < Int32.ofNat s.queue.size ∨
      (0 ≤ index.toInt ∧ ∀ (k : Nat) (ref : Option T.Ref), s.items[k]? = some ref →
        (s.heap toArray).elements[index.toInt.toNat + k]? = some (.direct ref))
  | _ => True

/-- In every run of admitted steps the queue is a list. -/
def Refines (admitted : System T → Op T → Prop) : Prop :=
  ∀ s, Reachable (step O) (Initial O) admitted s → ∀ op, admitted s op → Right O s op

/-! ## The ring -/

/-- The queue is a ring in an array of objects, whose elements are those of the list. -/
structure Represents (q : Queue) (heap : Heap T) (items : List (Option T.Ref)) : Prop where
  ofObject : T.ofObject (heap q.array).reflection = true
  head_lt : q.head < q.capacity heap
  size_le : q.size ≤ q.capacity heap
  tail_eq : q.tail = (q.head + q.size) % q.capacity heap
  holds : Holds q heap items

namespace Represents

variable {q : Queue} {heap heap' : Heap T} {items : List (Option T.Ref)}

theorem length_items (h : Represents q heap items) : items.length = q.size := by
  have hlength := congrArg List.length h.holds
  rwa [List.length_ring h.size_le, List.length_map, eq_comm] at hlength

theorem getElem? (h : Represents q heap items) {k : Nat} {ref : Option T.Ref}
    (hk : items[k]? = some ref) :
    (heap q.array).elements[(q.head + k) % q.capacity heap]? = some (.direct ref) := by
  have hlt := (List.getElem?_eq_some_iff.mp hk).1
  rw [h.length_items] at hlt
  have hring := congrArg (fun l : List T.Element => l[k]?) h.holds
  simp only [List.getElem?_ring h.size_le, if_pos hlt, List.getElem?_map, hk] at hring
  exact hring

include O in
theorem kind_direct (h : Represents q heap items) (ref : Option T.Ref) :
    (Element.direct ref : T.Element).kind = T.kindOf (heap q.array).reflection :=
  (O.kindOf_of_ofObject _ h.ofObject).symm

/-- Other arrays do not matter. -/
theorem of_array_eq (h : Represents q heap items) (harray : heap' q.array = heap q.array) :
    Represents q heap' items := by
  have hcapacity : q.capacity heap' = q.capacity heap := by
    rw [capacity, harray, capacity]
  constructor
  · rw [harray]
    exact h.ofObject
  · rw [hcapacity]
    exact h.head_lt
  · rw [hcapacity]
    exact h.size_le
  · rw [hcapacity]
    exact h.tail_eq
  · rw [Holds, harray]
    exact h.holds

theorem items_eq_nil (h : Represents q heap items) (hsize : q.size = 0) : items = [] := by
  apply List.eq_nil_of_length_eq_zero
  rw [h.length_items, hsize]

/-- The first element is where the head is. -/
theorem exists_first (h : Represents q heap items) (hsize : q.size ≠ 0) :
    ∃ ref rest, items = ref :: rest ∧ (heap q.array).elements[q.head]? = some (.direct ref) := by
  cases hitems : items with
  | nil =>
      have hlength := h.length_items
      rw [hitems] at hlength
      exact absurd hlength.symm hsize
  | cons ref rest =>
      have hfirst : items[0]? = some ref := by
        rw [hitems]
        rfl
      have hget := h.getElem? hfirst
      rw [Nat.add_zero, Nat.mod_eq_of_lt h.head_lt] at hget
      exact ⟨ref, rest, rfl, hget⟩

end Represents

section Store

variable {heap : Heap T} {a : ArrayId} {j : Nat} {e : T.Element}

theorem reflection_store (h : e.kind = T.kindOf (heap a).reflection) :
    (heap.store a j e a).reflection = (heap a).reflection := by
  rw [store_of_kind a j h, Function.update_self]
  rfl

theorem elements_store (h : e.kind = T.kindOf (heap a).reflection) :
    (heap.store a j e a).elements = (heap a).elements.set j e := by
  rw [store_of_kind a j h, Function.update_self]
  rfl

end Store

variable {s : System T}

/-- A call that answers by the list and keeps the representation. -/
def Served (s : System T) (op : Op T) : Prop :=
  ∃ r q heap', exec O s.queue s.heap op = some (r, q, heap') ∧ Answers s r heap' op ∧
    Represents q heap' (next s.items op r)

theorem Served.right {op : Op T} (h : Served O s op) : Right O s op := by
  obtain ⟨r, q, heap', hexec, hanswers, hrepresents⟩ := h
  exact ⟨r, q, heap', hexec, hanswers, hrepresents.holds⟩

theorem served_peek (h : Represents s.queue s.heap s.items) : Served O s .peek := by
  by_cases hsize : s.queue.size = 0
  · refine ⟨.error .invalidOperation, s.queue, s.heap, ?_, ?_, h⟩
    · rw [exec, peek, if_pos hsize]
      rfl
    · rw [Answers, h.items_eq_nil hsize]
      rfl
  · obtain ⟨ref, rest, hitems, hfirst⟩ := h.exists_first hsize
    refine ⟨.ok (.value ref), s.queue, s.heap, ?_, ?_, h⟩
    · rw [exec, peek, if_neg hsize, hfirst]
      rfl
    · rw [Answers, hitems]
      rfl

theorem served_dequeue (h : Represents s.queue s.heap s.items) : Served O s .dequeue := by
  by_cases hsize : s.queue.size = 0
  · refine ⟨.error .invalidOperation, s.queue, s.heap, ?_, ?_, h⟩
    · rw [exec, dequeue, if_pos hsize]
      rfl
    · rw [Answers, h.items_eq_nil hsize]
      rfl
  · obtain ⟨ref, rest, hitems, hfirst⟩ := h.exists_first hsize
    have hkind := h.kind_direct O none
    have hcapacity : capacity ⟨s.queue.array, (s.queue.head + 1) % s.queue.capacity s.heap,
        s.queue.tail, s.queue.size - 1⟩
        (s.heap.store s.queue.array s.queue.head (.direct none)) = s.queue.capacity s.heap := by
      rw [capacity, elements_store hkind, List.length_set, capacity]
    have hsizeLe := h.size_le
    refine ⟨.ok (.value ref), ⟨s.queue.array, (s.queue.head + 1) % s.queue.capacity s.heap,
      s.queue.tail, s.queue.size - 1⟩, s.heap.store s.queue.array s.queue.head (.direct none),
      ?_, ?_, ?_⟩
    · rw [exec, dequeue, if_neg hsize, hfirst]
      rfl
    · rw [Answers, hitems]
      rfl
    · constructor
      · rw [reflection_store hkind]
        exact h.ofObject
      · rw [hcapacity]
        exact Nat.mod_lt _ (by have := h.head_lt; omega)
      · rw [hcapacity]
        exact (Nat.sub_le _ _).trans hsizeLe
      · rw [hcapacity, h.tail_eq]
        simp only
        rw [Nat.mod_add_mod]
        congr 1
        omega
      · have hpop := @List.ring_pop _ (s.heap s.queue.array).elements s.queue.head
          (s.queue.size - 1) h.head_lt (by rw [capacity] at hsizeLe; omega) (.direct none)
        have hsucc : s.queue.size - 1 + 1 = s.queue.size := by omega
        have hholds := h.holds
        rw [Holds] at hholds
        rw [hsucc, hholds, ← List.map_tail] at hpop
        rw [Holds, elements_store hkind]
        exact hpop

theorem served_write (h : Represents s.queue s.heap s.items) {a : ArrayId} {content : Array T}
    (ha : a ≠ s.queue.array) : Served O s (.write a content) :=
  ⟨.ok .done, s.queue, _, rfl, rfl, h.of_array_eq (Function.update_of_ne ha.symm _ _)⟩

/-! ## Clear and Enqueue -/

theorem clearElements_spec {heap : Heap T} {a : ArrayId} (index length : Nat)
    (hkind : T.kindOf (heap a).reflection = .reference)
    (hroom : index + length ≤ (heap a).elements.length) :
    ∃ heap', clearElements heap a index length = some (.ok (), heap') ∧
      (heap' a).reflection = (heap a).reflection ∧
      (heap' a).elements.length = (heap a).elements.length := by
  refine ⟨_, dif_pos ⟨hkind, hroom⟩, ?_, ?_⟩
  · rw [Function.update_self]
    rfl
  · rw [Function.update_self]
    exact List.length_splice (by rwa [List.length_replicate])

theorem served_clear (h : Represents s.queue s.heap s.items) : Served O s .clear := by
  have hhead := h.head_lt
  have hsize := h.size_le
  have htail := h.tail_eq
  rw [List.add_mod_of_lt hhead hsize] at htail
  have hkind := O.kindOf_of_ofObject _ h.ofObject
  -- The queue starts over in an array of the same type and length.
  have hserved : ∀ heap', (s.queue.clear s.heap) =
      some (.ok (), ⟨s.queue.array, 0, 0, 0⟩, heap') →
      (heap' s.queue.array).reflection = (s.heap s.queue.array).reflection →
      (heap' s.queue.array).elements.length = (s.heap s.queue.array).elements.length →
      Served O s .clear := by
    intro heap' hclear hreflection hlength
    refine ⟨.ok .done, ⟨s.queue.array, 0, 0, 0⟩, heap', ?_, rfl, ?_⟩
    · rw [exec, hclear]
      rfl
    · have hcapacity : capacity ⟨s.queue.array, 0, 0, 0⟩ heap' = s.queue.capacity s.heap := hlength
      constructor
      · rw [hreflection]
        exact h.ofObject
      · rw [hcapacity]
        exact Nat.zero_lt_of_lt hhead
      · exact Nat.zero_le _
      · exact (Nat.zero_mod _).symm
      · exact List.ring_zero _ _
  rw [capacity] at hhead hsize htail
  by_cases hzero : s.queue.size = 0
  · apply hserved s.heap
    · simp only [clear, if_pos hzero]
    · rfl
    · rfl
  · by_cases horder : s.queue.head < s.queue.tail
    · obtain ⟨heap', hcleared, hreflection, hlength⟩ := clearElements_spec
        s.queue.head s.queue.size hkind (by split at htail <;> omega)
      apply hserved heap' _ hreflection hlength
      simp only [clear, if_neg hzero, if_pos horder, hcleared]
    · obtain ⟨heap₁, hcleared, hreflection, hlength⟩ := clearElements_spec
        s.queue.head (s.queue.capacity s.heap - s.queue.head) hkind (by rw [capacity]; omega)
      obtain ⟨heap₂, hcleared', hreflection', hlength'⟩ := @clearElements_spec _ heap₁
        s.queue.array 0 s.queue.tail (by rw [hreflection]; exact hkind)
        (by rw [hlength]; split at htail <;> omega)
      apply hserved heap₂ _ (hreflection'.trans hreflection) (hlength'.trans hlength)
      simp only [clear, if_neg hzero, if_neg horder, hcleared, andThen, hcleared']

include O in
/-- There is a free place behind the last element. -/
theorem put_spec {q : Queue} {heap : Heap T} {items : List (Option T.Ref)}
    (h : Represents q heap items) (hfree : q.size < q.capacity heap) (value : Option T.Ref) :
    ∃ q' heap', q.put heap value = some (.ok (), q', heap') ∧
      Represents q' heap' (items ++ [value]) := by
  have hkind := h.kind_direct O value
  have htail : q.tail < q.capacity heap := by
    rw [h.tail_eq]
    exact Nat.mod_lt _ (Nat.zero_lt_of_lt hfree)
  have hcapacity : capacity ⟨q.array, q.head, (q.tail + 1) % q.capacity heap, q.size + 1⟩
      (heap.store q.array q.tail (.direct value)) = q.capacity heap := by
    rw [capacity, elements_store hkind, List.length_set, capacity]
  refine ⟨_, _, if_pos htail, ?_⟩
  constructor
  · rw [reflection_store hkind]
    exact h.ofObject
  · rw [hcapacity]
    exact h.head_lt
  · rw [hcapacity]
    exact hfree
  · rw [hcapacity, h.tail_eq, Nat.mod_add_mod, Nat.add_assoc]
  · have hpush := List.ring_push h.head_lt hfree (.direct value)
    have hplace := h.tail_eq
    have hholds := h.holds
    rw [capacity] at hplace
    rw [Holds] at hholds
    rw [Holds, elements_store hkind]
    simp only
    rw [hplace, hpush, hholds, List.map_append]
    rfl

/-! ## CopyTo -/

theorem toInt_sub_of_le {a b : Int32} (hb : 0 ≤ b.toInt) (h : b.toInt ≤ a.toInt) :
    (a - b).toInt = a.toInt - b.toInt := by
  have halt := a.toInt_lt
  rw [Int32.toInt_sub]
  exact Int.bmod_eq_of_le (by omega) (by omega)

theorem toInt_add_of_lt {a b : Int32} (ha : 0 ≤ a.toInt) (hb : 0 ≤ b.toInt)
    (h : a.toInt + b.toInt < 2 ^ 31) : (a + b).toInt = a.toInt + b.toInt := by
  rcases toInt_add_cases ha hb with ⟨-, heq⟩ | ⟨hge, -⟩
  · exact heq
  · omega

/-- The check of `CopyTo`, which lets some indexes below zero pass. -/
theorem room_of_not_lt {a : Array T} {index : Int32} {size : Nat} (hsize : size < 2 ^ 31)
    (h : ¬a.numOfElements - index < Int32.ofNat size) :
    index.toInt + size ≤ a.elements.length := by
  have hcount := toInt_numOfElements a
  have hlt := a.length_lt
  have hge := index.le_toInt
  have hle := index.toInt_lt
  rw [Int32.lt_iff_toInt_lt, Int32.toInt_sub, hcount, Int32.toInt_ofNat_of_lt hsize,
    Int.bmod_def] at h
  split at h <;> omega

theorem no_room_of_lt {a : Array T} {index : Int32} {size : Nat} (hsize : size < 2 ^ 31)
    (h : a.numOfElements - index < Int32.ofNat size) :
    ¬(0 ≤ index.toInt ∧ index.toInt + size ≤ a.elements.length) := by
  have hcount := toInt_numOfElements a
  rintro ⟨hindex, hroom⟩
  rw [Int32.lt_iff_toInt_lt, toInt_sub_of_le hindex (by omega), hcount,
    Int32.toInt_ofNat_of_lt hsize] at h
  omega

section CopyTo

variable {q : Queue} {heap : Heap T} {items : List (Option T.Ref)} {toArray : ArrayId}
  {index : Int32}

/-- One stretch or two, as the indexes of the calls. -/
structure Stretches (q : Queue) (heap : Heap T) (toArray : ArrayId) (index : Int32) : Prop where
  head : (Int32.ofNat q.head).toInt = q.head
  tail : (Int32.ofNat q.tail).toInt = q.tail
  size : (Int32.ofNat q.size).toInt = q.size
  firstPart : ((heap q.array).numOfElements - Int32.ofNat q.head).toInt =
    (q.capacity heap - q.head : Nat)
  order : (q.head < q.tail ∧ q.head + q.size ≤ q.capacity heap) ∨
    (¬q.head < q.tail ∧ q.capacity heap ≤ q.head + q.size ∧
      q.tail = q.head + q.size - q.capacity heap ∧
      (0 ≤ index.toInt → (index + ((heap q.array).numOfElements - Int32.ofNat q.head)).toInt =
        index.toInt + (q.capacity heap - q.head : Nat)))

theorem Represents.stretches (h : Represents q heap items) (hsize : q.size ≠ 0)
    (hroom : index.toInt + q.size ≤ (heap toArray).elements.length) :
    Stretches q heap toArray index := by
  have hlt : q.capacity heap < 2 ^ 31 := (heap q.array).length_lt
  have hhead := h.head_lt
  have hsizeLe := h.size_le
  have htail := h.tail_eq
  rw [List.add_mod_of_lt hhead hsizeLe] at htail
  have hheadInt : (Int32.ofNat q.head).toInt = q.head := Int32.toInt_ofNat_of_lt (by omega)
  have hcount : (heap q.array).numOfElements.toInt = q.capacity heap := toInt_numOfElements _
  have hfirst : ((heap q.array).numOfElements - Int32.ofNat q.head).toInt =
      (q.capacity heap - q.head : Nat) := by
    rw [toInt_sub_of_le (by omega) (by omega), hcount, hheadInt]
    omega
  have htarget := (heap toArray).length_lt
  refine ⟨hheadInt, ?_, ?_, hfirst, ?_⟩
  · exact Int32.toInt_ofNat_of_lt (by split at htail <;> omega)
  · exact Int32.toInt_ofNat_of_lt (by omega)
  · by_cases horder : q.head + q.size < q.capacity heap
    · rw [if_pos horder] at htail
      left
      omega
    · rw [if_neg horder] at htail
      right
      refine ⟨by omega, by omega, htail, ?_⟩
      intro hindex
      rw [toInt_add_of_lt hindex (by omega) (by omega), hfirst]

/-- The elements of the queue, where they do not go around the end of the array. -/
theorem Represents.map_eq_window (h : Represents q heap items)
    (horder : q.head + q.size ≤ q.capacity heap) :
    items.map .direct = (heap q.array).elements.window q.head q.size := by
  rw [← h.holds, List.ring_eq_window horder]

/-- Where they do. -/
theorem Represents.map_eq_windows (h : Represents q heap items)
    (horder : q.capacity heap ≤ q.head + q.size) :
    items.map .direct = (heap q.array).elements.window q.head (q.capacity heap - q.head) ++
      (heap q.array).elements.window 0 (q.head + q.size - q.capacity heap) := by
  rw [← h.holds, List.ring_eq_windows h.head_lt h.size_le horder]
  rfl

include O in
/-- To an array of another type. -/
theorem copyTo_assigned (h : Represents q heap items) (hsize : q.size ≠ 0)
    (hto : T.ofObject (heap toArray).reflection = false)
    (hcheck : ¬(heap toArray).numOfElements - index < Int32.ofNat q.size)
    (hindex : 0 ≤ index.toInt) (hroom : index.toInt + q.size ≤ (heap toArray).elements.length) :
    ∃ r heap', q.copyTo heap toArray index = some (r, heap') ∧
      Assigned heap toArray index.toInt.toNat (items.map .direct) r heap' := by
  have hreflection : (heap q.array).reflection ≠ (heap toArray).reflection := by
    intro heq
    rw [← heq, h.ofObject] at hto
    cases hto
  have hne : q.array ≠ toArray := fun heq => hreflection (heq ▸ rfl)
  have hkind := O.kindOf_of_ofObject _ h.ofObject
  have hstretches := h.stretches hsize hroom
  have hhead := h.head_lt
  have hcapacity : q.capacity heap = (heap q.array).elements.length := rfl
  simp only [copyTo, hto, Bool.false_eq_true, if_false, if_neg hcheck, if_neg hsize]
  rcases hstretches.order with ⟨horder, hfits⟩ | ⟨horder, hwraps, htail, hsum⟩
  · rw [if_pos horder, h.map_eq_window hfits]
    have hcopy := copy_assigned O (Int32.ofNat q.head) index (Int32.ofNat q.size) hne
      hreflection hkind ⟨by rw [hstretches.size]; omega,
        by rw [hstretches.head, hstretches.size]; omega, by rw [hstretches.size]; omega⟩
    rwa [hstretches.head, hstretches.size, Int.toNat_natCast, Int.toNat_natCast] at hcopy
  · rw [if_neg horder, h.map_eq_windows hwraps]
    have hfirst := copy_assigned O (Int32.ofNat q.head) index
      ((heap q.array).numOfElements - Int32.ofNat q.head) hne hreflection hkind
      ⟨by rw [hstretches.firstPart]; omega, by rw [hstretches.head, hstretches.firstPart]; omega,
        by rw [hstretches.firstPart]; omega⟩
    rw [hstretches.head, hstretches.firstPart, Int.toNat_natCast, Int.toNat_natCast] at hfirst
    obtain ⟨r, heap₁, hcopied, hassigned⟩ := hfirst
    rw [hcopied]
    cases r with
    | error error => exact ⟨.error error, heap₁, rfl, hassigned.append_error _⟩
    | ok _ =>
        have hsame := hassigned.others q.array hne
        have hwindow : ((heap q.array).elements.window q.head (q.capacity heap - q.head)).length =
          q.capacity heap - q.head := List.length_window (by omega)
        have hsecond := @copy_assigned _ heap₁ q.array toArray O 0
          (index + ((heap q.array).numOfElements - Int32.ofNat q.head)) (Int32.ofNat q.tail) hne
          (by rw [hsame, hassigned.reflection]; exact hreflection) (by rw [hsame]; exact hkind)
          ⟨by rw [hstretches.tail]; omega,
            by rw [Int32.toInt_zero, hstretches.tail, hsame]; omega,
            by rw [hsum hindex, hstretches.tail, hassigned.length]; omega⟩
        rw [hsum hindex, hstretches.tail, hsame, Int32.toInt_zero, htail, Int.toNat_natCast,
          Int.toNat_zero, Int.toNat_add hindex (by omega), Int.toNat_natCast] at hsecond
        obtain ⟨r, heap₂, hcopied', hassigned'⟩ := hsecond
        rw [← hwindow] at hassigned'
        rw [← htail] at hcopied'
        exact ⟨r, heap₂, hcopied', hassigned.append hassigned'⟩

include O in
theorem objArrayMemcpy_same {indexSrc indexDst length : Int32} {a b : ArrayId}
    (ha : T.ofObject (heap a).reflection = true) (hb : T.ofObject (heap b).reflection = true)
    (h : InRange heap a indexSrc.toInt b indexDst.toInt length.toInt)
    (hsame : (heap b).elements.window indexDst.toInt.toNat length.toInt.toNat =
      (heap a).elements.window indexSrc.toInt.toNat length.toInt.toNat) :
    objArrayMemcpy heap a indexSrc b indexDst length = some (.ok (), heap) := by
  obtain ⟨hlength, ⟨hsrc, hsrcEnd⟩, hdst, hdstEnd⟩ := h
  rw [objArrayMemcpy, if_neg]
  · exact memcpy_same (by rw [O.kindOf_of_ofObject _ ha, O.kindOf_of_ofObject _ hb]) (by omega)
      (by omega) hsame
  · simp only [Int32.lt_iff_toInt_lt, Int32.toInt_zero]
    omega

include O in
/-- To an array of objects that has the elements already. -/
theorem copyTo_same (h : Represents q heap items) (hsize : q.size ≠ 0)
    (hto : T.ofObject (heap toArray).reflection = true)
    (hcheck : ¬(heap toArray).numOfElements - index < Int32.ofNat q.size)
    (hindex : 0 ≤ index.toInt) (hroom : index.toInt + q.size ≤ (heap toArray).elements.length)
    (hsame : ∀ (k : Nat) (ref : Option T.Ref), items[k]? = some ref →
      (heap toArray).elements[index.toInt.toNat + k]? = some (.direct ref)) :
    q.copyTo heap toArray index = some (.ok (), heap) := by
  have hstretches := h.stretches hsize hroom
  have hhead := h.head_lt
  have hsizeLe := h.size_le
  have hcapacity : q.capacity heap = (heap q.array).elements.length := rfl
  have htarget : items.map .direct = (heap toArray).elements.window index.toInt.toNat q.size := by
    have hitems := h.length_items
    apply List.ext_getElem?
    intro k
    rw [List.getElem?_window, List.getElem?_map]
    cases hk : items[k]? with
    | none =>
        rw [List.getElem?_eq_none_iff] at hk
        rw [if_neg (by omega)]
        rfl
    | some ref =>
        have hlt := (List.getElem?_eq_some_iff.mp hk).1
        rw [if_pos (by omega), hsame k ref hk]
        rfl
  simp only [copyTo, hto, if_true, if_neg hcheck, if_neg hsize]
  rcases hstretches.order with ⟨horder, hfits⟩ | ⟨horder, hwraps, htail, hsum⟩
  · rw [if_pos horder]
    apply objArrayMemcpy_same O h.ofObject hto
    · exact ⟨by rw [hstretches.size]; omega, by rw [hstretches.head, hstretches.size]; omega,
        by rw [hstretches.size]; omega⟩
    · rw [hstretches.head, hstretches.size, Int.toNat_natCast, Int.toNat_natCast, ← htarget,
        h.map_eq_window hfits]
  · have hsplit : q.size = q.capacity heap - q.head + q.tail := by omega
    have hparts := h.map_eq_windows hwraps
    rw [htarget, ← htail, hsplit, List.window_add] at hparts
    obtain ⟨hfirst, hsecond⟩ := List.append_inj hparts (by
      rw [List.length_window (by omega), List.length_window (by omega)])
    rw [if_neg horder, objArrayMemcpy_same O h.ofObject hto, andThen]
    · apply objArrayMemcpy_same O h.ofObject hto
      · exact ⟨by rw [hstretches.tail]; omega,
          by rw [Int32.toInt_zero, hstretches.tail]; omega,
          by rw [hsum hindex, hstretches.tail]; omega⟩
      · rw [hsum hindex, hstretches.tail, Int32.toInt_zero, Int.toNat_natCast, Int.toNat_zero,
          Int.toNat_add hindex (by omega), Int.toNat_natCast, hsecond]
    · exact ⟨by rw [hstretches.firstPart]; omega,
        by rw [hstretches.head, hstretches.firstPart]; omega,
        by rw [hstretches.firstPart]; omega⟩
    · rw [hstretches.head, hstretches.firstPart, Int.toNat_natCast, Int.toNat_natCast, hfirst]

end CopyTo

/-- A negative index that passed the check is refused by `Copy`. -/
theorem copyTo_of_negative {q : Queue} {heap : Heap T} {items : List (Option T.Ref)}
    {toArray : ArrayId} {index : Int32} (h : Represents q heap items) (hsize : q.size ≠ 0)
    (hto : T.ofObject (heap toArray).reflection = false)
    (hcheck : ¬(heap toArray).numOfElements - index < Int32.ofNat q.size)
    (hindex : index.toInt < 0) :
    q.copyTo heap toArray index = some (.error .outOfRange, heap) := by
  have hstretches := h.stretches hsize (room_of_not_lt
    (h.size_le.trans_lt (heap q.array).length_lt) hcheck)
  have hhead := h.head_lt
  simp only [copyTo, hto, Bool.false_eq_true, if_false, if_neg hcheck, if_neg hsize]
  by_cases horder : q.head < q.tail
  · rw [if_pos horder]
    apply refused_of_detected
    exact ⟨by rw [hstretches.size]; omega, .inr (.inr (.inl hindex))⟩
  · rw [if_neg horder, refused_of_detected]
    · rfl
    · exact ⟨by rw [hstretches.firstPart]; omega, .inr (.inr (.inl hindex))⟩

namespace CopiedTo

variable {heap heap' : Heap T} {items : List (Option T.Ref)} {toArray : ArrayId} {index : Int32}

theorem of_no_room {error : HResult}
    (h : ¬(0 ≤ index.toInt ∧ index.toInt + items.length ≤ (heap toArray).elements.length)) :
    CopiedTo heap items toArray index (.error error) heap where
  others := fun _ _ => rfl
  outside := fun _ _ => rfl
  stored := fun hr => by cases hr
  answer := .inr ⟨error, rfl, .inl h⟩

include O in
/-- An element is assigned to an array of objects as it is. -/
theorem of_equal (hto : T.ofObject (heap toArray).reflection = true) (hindex : 0 ≤ index.toInt)
    (h : ∀ (k : Nat) (ref : Option T.Ref), items[k]? = some ref →
      (heap toArray).elements[index.toInt.toNat + k]? = some (.direct ref)) :
    CopiedTo heap items toArray index (.ok .done) heap where
  others := fun _ _ => rfl
  outside := fun _ _ => rfl
  answer := .inl rfl
  stored := fun _ k ref hk => by
    refine ⟨index.toInt.toNat + k, .direct ref, .direct ref, by omega, h k ref hk, ?_, h k ref hk⟩
    have hreference : T.kindOf (heap toArray).reflection ≠ .numeric := by
      rw [O.kindOf_of_ofObject _ hto]
      decide
    have hcast : checkCast (.direct ref) (heap toArray).reflection = .ok () := by
      cases ref with
      | none => rfl
      | some ref => rw [checkCast, if_pos (O.isInstanceOf_of_ofObject _ _ hto)]; simp
    rw [assign, hcast, if_neg hreference]
    rfl

end CopiedTo

theorem copiedTo_of_assigned {heap heap' : Heap T} {items : List (Option T.Ref)}
    {toArray : ArrayId} {index : Int32} {r : Except HResult Unit} (hindex : 0 ≤ index.toInt)
    (h : Assigned heap toArray index.toInt.toNat (items.map .direct) r heap') :
    CopiedTo heap items toArray index (r.map fun _ => .done) heap' := by
  constructor
  · exact h.others
  · intro p hp
    apply h.outside p
    rw [List.length_map]
    omega
  · intro hr k ref hk
    cases r with
    | error error => cases hr
    | ok _ =>
        obtain ⟨this, e, hthis, hassign, he⟩ := h.stored rfl k (.direct ref) (by
          rw [List.getElem?_map, hk]
          rfl)
        exact ⟨index.toInt.toNat + k, this, e, by omega, hthis, hassign, he⟩
  · cases r with
    | ok _ => exact .inl rfl
    | error error =>
        obtain ⟨k, value, this, hvalue, hthis, hassign⟩ := h.refused error rfl
        rw [List.getElem?_map, Option.map_eq_some_iff] at hvalue
        obtain ⟨ref, hk, rfl⟩ := hvalue
        exact .inr ⟨error, rfl, .inr ⟨k, index.toInt.toNat + k, ref, this, by omega, hk, hthis,
          hassign⟩⟩

theorem kept_copyTo {toArray : ArrayId} {index : Int32} (hkept : Kept s (.copyTo toArray index))
    (hto : T.ofObject (s.heap toArray).reflection = true)
    (h : Represents s.queue s.heap s.items) (hsize : s.queue.size ≠ 0)
    (hcheck : ¬(s.heap toArray).numOfElements - index < Int32.ofNat s.queue.size) :
    0 ≤ index.toInt ∧ ∀ (k : Nat) (ref : Option T.Ref), s.items[k]? = some ref →
      (s.heap toArray).elements[index.toInt.toNat + k]? = some (.direct ref) := by
  rcases hkept with hother | hnil | hroom | hequal
  · rw [hto] at hother
    cases hother
  · have hlength := h.length_items
    rw [hnil] at hlength
    exact absurd hlength.symm hsize
  · exact absurd hroom hcheck
  · exact hequal

theorem served_copyTo (h : Represents s.queue s.heap s.items) {toArray : ArrayId} {index : Int32}
    (hkept : Kept s (.copyTo toArray index)) : Served O s (.copyTo toArray index) := by
  have hlength := h.length_items
  have hsizeLt : s.queue.size < 2 ^ 31 := h.size_le.trans_lt (s.heap s.queue.array).length_lt
  -- Where nothing is changed only the answer matters.
  have hsame : ∀ r : Except HResult Unit,
      s.queue.copyTo s.heap toArray index = some (r, s.heap) →
      CopiedTo s.heap s.items toArray index (r.map fun _ => .done) s.heap →
      Served O s (.copyTo toArray index) := by
    intro r hcopy hcopied
    refine ⟨r.map fun _ => .done, s.queue, s.heap, ?_, hcopied, h⟩
    rw [exec, hcopy]
    rfl
  by_cases hcheck : (s.heap toArray).numOfElements - index < Int32.ofNat s.queue.size
  · apply hsame (.error .invalidParameter)
    · simp only [copyTo, if_pos hcheck]
    · apply CopiedTo.of_no_room
      rw [hlength]
      exact no_room_of_lt hsizeLt hcheck
  · have hroom := room_of_not_lt hsizeLt hcheck
    by_cases hsize : s.queue.size = 0
    · have hitems := h.items_eq_nil hsize
      apply hsame (.ok ())
      · simp only [copyTo, if_neg hcheck, if_pos hsize]
      · refine ⟨fun _ _ => rfl, fun _ _ => rfl, ?_, .inl rfl⟩
        intro _ k ref hk
        rw [hitems] at hk
        cases hk
    · cases hto : T.ofObject (s.heap toArray).reflection with
      | true =>
          obtain ⟨hindex, hequal⟩ := kept_copyTo hkept hto h hsize hcheck
          apply hsame (.ok ())
          · exact copyTo_same O h hsize hto hcheck hindex hroom hequal
          · exact .of_equal O hto hindex hequal
      | false =>
          by_cases hindex : 0 ≤ index.toInt
          · have hne : s.queue.array ≠ toArray := by
              intro heq
              rw [← heq, h.ofObject] at hto
              cases hto
            obtain ⟨r, heap', hcopy, hassigned⟩ :=
              copyTo_assigned O h hsize hto hcheck hindex hroom
            refine ⟨r.map fun _ => .done, s.queue, heap', ?_, copiedTo_of_assigned hindex hassigned,
              h.of_array_eq (hassigned.others _ hne)⟩
            rw [exec, hcopy]
            rfl
          · apply hsame (.error .outOfRange)
            · exact copyTo_of_negative h hsize hto hcheck (by omega)
            · exact .of_no_room fun hfits => hindex hfits.1

/-! ## Runs -/

/-- The queue in a new array, as far as its elements are the ones that are there. -/
theorem represents_objects {heap : Heap T} {items : List (Option T.Ref)} {array : ArrayId}
    {n size : Nat} {hn : n < 2 ^ 31} (harray : heap array = objects O n hn)
    (hitems : items = List.replicate size none) (hsize : size < n) :
    Represents ⟨array, 0, size, size⟩ heap items := by
  have hcapacity : capacity ⟨array, 0, size, size⟩ heap = n := by
    rw [capacity, harray]
    exact List.length_replicate
  constructor
  · rw [harray]
    exact O.ofObject_object
  · rw [hcapacity]
    exact Nat.zero_lt_of_lt hsize
  · rw [hcapacity]
    exact hsize.le
  · rw [hcapacity, Nat.zero_add, Nat.mod_eq_of_lt hsize]
  · have hlength : (List.replicate n (Element.direct none : T.Element)).length = n :=
      List.length_replicate
    rw [Holds, harray, hitems, List.map_replicate]
    simp only [objects]
    rw [List.ring_eq_window (by omega), List.window, List.drop_zero, List.take_replicate,
      Nat.min_eq_left hsize.le]

theorem served_enqueue (h : Represents s.queue s.heap s.items) {value : Option T.Ref}
    {fresh : Option ArrayId} (hpossible : Possible s (.enqueue value fresh))
    (hkept : Kept s (.enqueue value fresh)) : Served O s (.enqueue value fresh) := by
  have hlength := h.length_items
  have hsizeLe := h.size_le
  have hsizeLt : s.queue.size < 2 ^ 31 := hsizeLe.trans_lt (s.heap s.queue.array).length_lt
  by_cases hfull : s.queue.size = s.queue.capacity s.heap
  · by_cases hdouble : s.queue.capacity s.heap * 2 < 2 ^ 31
    · cases fresh with
      | none =>
          refine ⟨.error .outOfMemory, s.queue, s.heap, ?_, .inr ⟨⟨_, rfl⟩, .inl rfl⟩, h⟩
          rw [exec, enqueue, if_pos hfull, dif_pos hdouble]
          rfl
      | some a =>
          have hnull : ∀ ref ∈ s.items, ref = none := by
            rcases hkept with hfree | hnone | hlarge | hnull
            · omega
            · cases hnone
            · omega
            · exact hnull
          have ha : s.queue.array ≠ a := fun heq => hpossible (heq ▸ rfl)
          have hitems : s.items = List.replicate s.queue.size none :=
            List.eq_replicate_of_mem hnull |>.trans (by rw [hlength])
          have hhead := h.head_lt
          let heap := Function.update s.heap a (objects O (s.queue.capacity s.heap * 2) hdouble)
          have harray : heap a = objects O (s.queue.capacity s.heap * 2) hdouble :=
            Function.update_self _ _ _
          have hold : Represents s.queue heap s.items :=
            h.of_array_eq (Function.update_of_ne ha _ _)
          have htarget : (heap a).elements.length = s.queue.capacity s.heap * 2 := by
            rw [harray]
            exact List.length_replicate
          have hcopy : s.queue.copyTo heap a 0 = some (.ok (), heap) := by
            apply copyTo_same O hold (by omega)
            · rw [harray]
              exact O.ofObject_object
            · intro hlt
              apply no_room_of_lt hsizeLt hlt
              rw [Int32.toInt_zero]
              omega
            · rw [Int32.toInt_zero]
            · rw [Int32.toInt_zero]
              omega
            · intro k ref hk
              have hk' := (List.getElem?_eq_some_iff.mp hk).1
              rw [hnull ref (List.mem_of_getElem? hk), harray, Int32.toInt_zero, Int.toNat_zero,
                Nat.zero_add]
              exact List.getElem?_replicate_of_lt (by omega)
          have hnew : Represents ⟨a, 0, s.queue.size, s.queue.size⟩ heap s.items :=
            represents_objects O harray hitems (by omega)
          obtain ⟨q', heap', hput, hrepresents⟩ := put_spec O hnew
            (by rw [capacity, htarget]; simp only; omega) value
          refine ⟨.ok .done, q', heap', ?_, .inl rfl, hrepresents⟩
          rw [exec, enqueue, if_pos hfull, dif_pos hdouble]
          simp only [heap] at hcopy hput
          simp only [hcopy, hput]
          rfl
    · refine ⟨.error .outOfRange, s.queue, s.heap, ?_, .inr ⟨⟨_, rfl⟩, .inr (by omega)⟩, h⟩
      rw [exec, enqueue, if_pos hfull, dif_neg hdouble]
      rfl
  · obtain ⟨q', heap', hput, hrepresents⟩ := put_spec O h (by omega) value
    refine ⟨.ok .done, q', heap', ?_, .inl rfl, hrepresents⟩
    rw [exec, enqueue, if_neg hfull, hput]
    rfl

theorem served (h : Represents s.queue s.heap s.items) (op : Op T) (hpossible : Possible s op)
    (hkept : Kept s op) : Served O s op := by
  cases op with
  | enqueue value fresh => exact served_enqueue O h hpossible hkept
  | dequeue => exact served_dequeue O h
  | peek => exact served_peek O h
  | clear => exact served_clear O h
  | copyTo toArray index => exact served_copyTo O h hkept
  | write array content => exact served_write O h hpossible

theorem represents_of_initial (h : Initial O s) : Represents s.queue s.heap s.items := by
  obtain ⟨⟨hhead, htail, hsize⟩, harray, hitems⟩ := h
  have hqueue : s.queue = ⟨s.queue.array, s.queue.head, s.queue.tail, s.queue.size⟩ := rfl
  rw [hhead, htail, hsize] at hqueue
  rw [hqueue, hitems]
  exact represents_objects O harray rfl (by decide)

theorem represents_of_step {s' : System T} {op : Op T} (hserved : Served O s op)
    (hstep : step O s op = some s') : Represents s'.queue s'.heap s'.items := by
  obtain ⟨r, q, heap', hexec, -, hrepresents⟩ := hserved
  rw [step, hexec, Option.map_some, Option.some.injEq] at hstep
  rw [← hstep]
  exact hrepresents

theorem represents_of_reachable
    (h : Reachable (step O) (Initial O) (fun s op => Possible s op ∧ Kept s op) s) :
    Represents s.queue s.heap s.items := by
  apply h.invariant (fun s => Represents s.queue s.heap s.items)
  · intro s hs
    exact represents_of_initial O hs
  · intro s op s' hs hadmitted hstep
    exact represents_of_step O (served O hs op hadmitted.1 hadmitted.2) hstep

/-- Objects that are numbered. -/
def numbered : Types where
  Ref := Nat
  Content := Unit
  Reflection := Unit
  kindOf := fun _ => .reference
  ofObject := fun _ => true
  unbox := fun _ => none
  isInstanceOf := fun _ _ => true
  convert := fun _ _ => none

def numberedObject : ObjectType numbered where
  object := ()
  ofObject_object := rfl
  kindOf_of_ofObject := fun _ _ => rfl
  isInstanceOf_of_ofObject := fun _ _ _ => rfl
  kind_of_convert := fun _ _ _ h => by cases h

def emptyQueue : System numbered where
  queue := ⟨0, 0, 0, 0⟩
  heap := fun _ => objects numberedObject 4 (by decide)
  items := []

def fourCalls : List (Op numbered) := [.enqueue (some (1 : Nat)) none,
  .enqueue (some (2 : Nat)) none, .enqueue (some (3 : Nat)) none, .enqueue (some (4 : Nat)) none]

def fullQueue : System numbered :=
  (run (step numberedObject) emptyQueue fourCalls).getD emptyQueue

/-- The first element of the queue that a call leaves. -/
def firstAfter (s : System numbered) (op : Op numbered) : Option (Option numbered.Element) :=
  (exec numberedObject s.queue s.heap op).map fun r =>
    ((r.2.2 r.2.1.array).elements.ring r.2.1.head r.2.1.size)[0]?

end TinyCLR.HeapBlock.Queue
