import Mathlib
import TinyCLR.Library.Circular

/-!
# Queues of the HAL

`Hal_Queue_UnknownSize`: a ring of elements in a storage of any size. An operation gives a slot, or
a run of slots, that the caller fills or consumes. A sum of two places of a storage fits into
`size_t`, so that none of the additions wraps.
-/

namespace TinyCLR.PAL

/-- `Hal_Queue_UnknownSize`; its size is the one of the storage. -/
structure HalQueue (α : Type*) where
  writer : Nat
  reader : Nat
  full : Bool
  data : List α

namespace HalQueue

variable {α : Type*} (q : HalQueue α)

/-- `Initialize` -/
def empty (data : List α) : HalQueue α := ⟨0, 0, false, data⟩

def size : Nat := q.data.length

def numberOfElements : Nat :=
  if q.writer < q.reader then q.size + q.writer - q.reader
  else if q.full then q.size
  else q.writer - q.reader

def isEmpty : Bool := q.writer == q.reader && !q.full

def isFull : Bool := q.full

/-- `operator[]`: the slot of an element. -/
def slot (index : Int) : Option Nat :=
  if index < 0 ∨ q.numberOfElements ≤ index then none
  else some ((q.reader + index.toNat) % q.size)

/-- A place moved on by some elements, back to the start when it reaches the end. -/
def advance (place nElements : Nat) : Nat :=
  if place + nElements = q.size then 0 else place + nElements

/-- `Push()` -/
def push : Option Nat × HalQueue α :=
  if q.full then (none, q)
  else
    let writer := q.advance q.writer 1
    (some q.writer, { q with
      writer := writer
      full := decide (writer = q.reader) })

def peek : Option Nat := if q.isEmpty then none else some q.reader

/-- `Pop()` -/
def pop : Option Nat × HalQueue α :=
  if q.isEmpty then (none, q)
  else (some q.reader, { q with
    reader := q.advance q.reader 1
    full := false })

/-- The slots side by side from the writer on that have no unread element. -/
def room : Nat := if q.writer < q.reader then q.reader - q.writer else q.size - q.writer

/-- The unread elements side by side from the reader on. -/
def stretch : Nat := if q.writer ≤ q.reader then q.size - q.reader else q.writer - q.reader

/-- `Push(nElements)`: the first slot, the number of slots and the queue behind. -/
def pushBlock (nElements : Nat) : Option Nat × Nat × HalQueue α :=
  if q.full ∨ nElements = 0 then (none, 0, q)
  else
    let nElements := min q.room nElements
    let writer := q.advance q.writer nElements
    (some q.writer, nElements, { q with
      writer := writer
      full := decide (writer = q.reader) })

/-- `Pop(nElements)`; an empty queue starts over. -/
def popBlock (nElements : Nat) : Option Nat × Nat × HalQueue α :=
  if nElements = 0 then (none, 0, q)
  else if q.isEmpty then (none, 0, { q with reader := 0, writer := 0 })
  else
    let nElements := min q.stretch nElements
    (some q.reader, nElements, { q with
      reader := q.advance q.reader nElements
      full := false })

/-! ## A caller of the queue -/

/-- What a caller does; the slots that it is given are filled or consumed at once. -/
inductive Action (α : Type*) where
  | push (x : α)
  | pop
  | peek
  | pushBlock (xs : List α)
  | popBlock (nElements : Nat)

/-- The queue with the elements that went in and those that came out so far. -/
structure Run (α : Type*) where
  queue : HalQueue α
  pushed : List α
  popped : List α

def step (r : Run α) : Action α → Run α
  | .push x =>
      match r.queue.push with
      | (none, q) => { r with queue := q }
      | (some slot, q) => ⟨{ q with data := q.data.set slot x }, r.pushed ++ [x], r.popped⟩
  | .pop =>
      match r.queue.pop with
      | (none, q) => { r with queue := q }
      | (some slot, q) => ⟨q, r.pushed, r.popped ++ q.data.window slot 1⟩
  | .peek => r
  | .pushBlock xs =>
      match r.queue.pushBlock xs.length with
      | (none, _, q) => { r with queue := q }
      | (some slot, nElements, q) =>
          ⟨{ q with data := q.data.splice slot (xs.take nElements) },
            r.pushed ++ xs.take nElements, r.popped⟩
  | .popBlock nElements =>
      match r.queue.popBlock nElements with
      | (none, _, q) => { r with queue := q }
      | (some slot, nElements, q) => ⟨q, r.pushed, r.popped ++ q.data.window slot nElements⟩

def run (r : Run α) (actions : List (Action α)) : Run α := actions.foldl step r

/-! ## What a queue holds -/

/-- The unread elements. -/
def contents : List α := q.data.ring q.reader q.numberOfElements

/-- Both places lie in the storage, and only a queue with the two at one place is full. -/
structure Valid : Prop where
  writer : q.writer < q.size
  reader : q.reader < q.size
  full : q.full = true → q.writer = q.reader

/-- Slots side by side in the storage, none of which has an unread element. -/
structure Free (slot nElements : Nat) : Prop where
  inside : slot + nElements ≤ q.size
  unread : ∀ i < q.numberOfElements, ¬(slot ≤ (q.reader + i) % q.size ∧
    (q.reader + i) % q.size < slot + nElements)

variable {q}

theorem Valid.size_pos (h : q.Valid) : 0 < q.size := Nat.zero_lt_of_lt h.writer

theorem Valid.numberOfElements_le (h : q.Valid) : q.numberOfElements ≤ q.size := by
  have hwriter := h.writer
  have hreader := h.reader
  unfold numberOfElements
  split
  · omega
  · split <;> omega

/-- The writer stands behind the unread elements. -/
theorem Valid.writer_eq (h : q.Valid) : q.writer = (q.reader + q.numberOfElements) % q.size := by
  have hwriter := h.writer
  have hreader := h.reader
  have hfull := h.full
  rw [List.add_mod_of_lt hreader h.numberOfElements_le]
  unfold numberOfElements
  cases hq : q.full with
  | true =>
      have heq := hfull hq
      simp only [heq, lt_irrefl, if_false, if_true]
      split <;> omega
  | false =>
      simp only [Bool.false_eq_true, if_false]
      split <;> split <;> omega

theorem Valid.full_iff (h : q.Valid) : q.full = true ↔ q.numberOfElements = q.size := by
  have hwriter := h.writer
  have hreader := h.reader
  have hfull := h.full
  unfold numberOfElements
  cases hq : q.full with
  | true => simp [hfull hq]
  | false =>
      simp only [Bool.false_eq_true, if_false, false_iff]
      split <;> omega

theorem Valid.isEmpty_iff (h : q.Valid) : q.isEmpty = true ↔ q.numberOfElements = 0 := by
  have hwriter := h.writer
  have hreader := h.reader
  have hfull := h.full
  unfold isEmpty numberOfElements
  simp only [Bool.and_eq_true, beq_iff_eq, Bool.not_eq_true']
  cases hq : q.full with
  | true =>
      have heq := hfull hq
      simp only [heq, lt_irrefl, if_false, if_true]
      simp
      omega
  | false =>
      simp only [Bool.false_eq_true, if_false, and_true]
      split <;> omega

theorem Valid.length_contents (h : q.Valid) : q.contents.length = q.numberOfElements :=
  List.length_ring h.numberOfElements_le

/-- `operator[]` gives the elements in their order. -/
theorem Valid.slot_eq (h : q.Valid) (i : Nat) :
    ((q.slot i).bind fun slot => q.data[slot]?) = q.contents[i]? := by
  unfold slot contents
  rw [List.getElem?_ring h.numberOfElements_le]
  by_cases hi : i < q.numberOfElements
  · rw [if_neg (by omega), if_pos hi]
    rfl
  · rw [if_pos (by omega), if_neg hi]
    rfl

theorem Valid.peek_eq (h : q.Valid) :
    (q.peek.bind fun slot => q.data[slot]?) = q.contents.head? := by
  have hhead : q.contents.head? = q.contents[0]? := List.head?_eq_getElem?
  unfold peek
  rw [hhead, contents, List.getElem?_ring h.numberOfElements_le]
  cases hempty : q.isEmpty with
  | true => simp [h.isEmpty_iff.mp hempty]
  | false =>
      have hpos : 0 < q.numberOfElements := by
        have hne : q.numberOfElements ≠ 0 := by
          intro hzero
          rw [h.isEmpty_iff.mpr hzero] at hempty
          cases hempty
        omega
      have hmod : q.reader % q.data.length = q.reader := Nat.mod_eq_of_lt h.reader
      simp [hpos, hmod]

/-! ## Filling slots -/

/-- The queue after some slots from the writer on have been filled. -/
def fill (q : HalQueue α) (items : List α) : HalQueue α where
  writer := q.advance q.writer items.length
  reader := q.reader
  full := decide (q.advance q.writer items.length = q.reader)
  data := q.data.splice q.writer items

/-- The queue after some elements from the reader on have been consumed. -/
def consume (q : HalQueue α) (nElements : Nat) : HalQueue α :=
  { q with
    reader := q.advance q.reader nElements
    full := false }

theorem advance_cases (q : HalQueue α) (place nElements : Nat) (h : place + nElements ≤ q.size) :
    (q.advance place nElements = 0 ∧ place + nElements = q.size) ∨
      (q.advance place nElements = place + nElements ∧ place + nElements < q.size) := by
  unfold advance
  split <;> omega

theorem Valid.room_pos (h : q.Valid) : 0 < q.room := by
  have hwriter := h.writer
  unfold room
  split <;> omega

theorem Valid.writer_room (h : q.Valid) : q.writer + q.room ≤ q.size := by
  have hwriter := h.writer
  have hreader := h.reader
  unfold room
  split <;> omega

theorem Valid.room_le (h : q.Valid) (hfull : q.full = false) :
    q.numberOfElements + q.room ≤ q.size := by
  have hwriter := h.writer
  have hreader := h.reader
  unfold room numberOfElements
  simp only [hfull, Bool.false_eq_true, if_false]
  split <;> omega

theorem size_fill (q : HalQueue α) (items : List α) (hfits : q.writer + items.length ≤ q.size) :
    (q.fill items).size = q.size := List.length_splice hfits

theorem Valid.fill {items : List α} (h : q.Valid) (hle : items.length ≤ q.room) :
    (q.fill items).Valid := by
  have hwriter := h.writer
  have hroom := h.writer_room
  have hsize := size_fill q items (by omega)
  constructor
  · rw [hsize]
    change q.advance q.writer items.length < q.size
    unfold advance
    split <;> omega
  · rw [hsize]
    exact h.reader
  · exact fun hfull => of_decide_eq_true hfull

theorem Valid.numberOfElements_fill {items : List α} (h : q.Valid) (hfull : q.full = false)
    (hpos : 0 < items.length) (hle : items.length ≤ q.room) :
    (q.fill items).numberOfElements = q.numberOfElements + items.length := by
  have hwriter := h.writer
  have hreader := h.reader
  have hroom := h.writer_room
  have hsize := size_fill q items (by omega)
  have hadvance := advance_cases q q.writer items.length (by omega)
  have hvalues : (q.fill items).writer = q.advance q.writer items.length ∧
      (q.fill items).reader = q.reader ∧ ((q.fill items).full = true ↔
        q.advance q.writer items.length = q.reader) := ⟨rfl, rfl, decide_eq_true_iff⟩
  unfold numberOfElements
  rw [hvalues.1, hvalues.2.1, hsize]
  simp only [hvalues.2.2, hfull, Bool.false_eq_true, if_false]
  generalize q.advance q.writer items.length = place at hadvance
  unfold room at hle
  split at hle
  · split
    · omega
    · split <;> omega
  · split
    · omega
    · split <;> omega

theorem Valid.free_room {nElements : Nat} (h : q.Valid) (hfull : q.full = false)
    (hle : nElements ≤ q.room) : q.Free q.writer nElements := by
  have hwriter := h.writer
  have hreader := h.reader
  have hroom := h.writer_room
  have hnumber := h.room_le hfull
  constructor
  · omega
  · intro i hi
    rw [List.add_mod_of_lt hreader (by omega)]
    unfold room at hle
    unfold numberOfElements at hi
    simp only [hfull, Bool.false_eq_true, if_false] at hi
    split at hle <;> split at hi <;> split <;> omega

theorem Valid.contents_fill {items : List α} (h : q.Valid) (hfull : q.full = false)
    (hpos : 0 < items.length) (hle : items.length ≤ q.room) :
    (q.fill items).contents = q.contents ++ items := by
  have hroom := h.writer_room
  have hnumber := h.room_le hfull
  have hfits : q.writer + items.length ≤ q.data.length := hroom.trans' (by omega)
  rw [contents, h.numberOfElements_fill hfull hpos hle]
  exact List.ring_splice h.reader (hnumber.trans' (by omega)) h.writer_eq hfits

/-! ## Consuming slots -/

theorem Valid.stretch_pos (h : q.Valid) : 0 < q.stretch := by
  have hreader := h.reader
  unfold stretch
  split <;> omega

theorem Valid.stretch_le (h : q.Valid) (hne : q.isEmpty = false) :
    q.reader + q.stretch ≤ q.size ∧ q.stretch ≤ q.numberOfElements := by
  have hwriter := h.writer
  have hreader := h.reader
  have hfull := h.full
  unfold isEmpty at hne
  unfold stretch numberOfElements
  simp only [Bool.and_eq_false_iff, beq_eq_false_iff_ne, Bool.not_eq_false'] at hne
  cases hq : q.full with
  | true =>
      have heq := hfull hq
      simp only [heq, le_refl, lt_irrefl, if_false, if_true]
      omega
  | false =>
      rw [hq] at hne
      simp only [Bool.false_eq_true, or_false] at hne
      simp only [Bool.false_eq_true, if_false]
      split <;> split <;> omega

theorem Valid.consume {nElements : Nat} (h : q.Valid) (hne : q.isEmpty = false)
    (hle : nElements ≤ q.stretch) : (q.consume nElements).Valid := by
  have hreader := h.reader
  have hstretch := h.stretch_le hne
  constructor
  · exact h.writer
  · change q.advance q.reader nElements < q.size
    unfold advance
    split <;> omega
  · exact fun hfull => nomatch hfull

theorem Valid.numberOfElements_consume {nElements : Nat} (h : q.Valid) (hne : q.isEmpty = false)
    (hpos : 0 < nElements) (hle : nElements ≤ q.stretch) :
    (q.consume nElements).numberOfElements = q.numberOfElements - nElements := by
  have hwriter := h.writer
  have hreader := h.reader
  have hfull := h.full
  have hstretch := h.stretch_le hne
  have hadvance := advance_cases q q.reader nElements (by omega)
  have hvalues : (q.consume nElements).writer = q.writer ∧
      (q.consume nElements).reader = q.advance q.reader nElements ∧
      (q.consume nElements).full = false ∧ (q.consume nElements).size = q.size :=
    ⟨rfl, rfl, rfl, rfl⟩
  unfold isEmpty at hne
  simp only [Bool.and_eq_false_iff, beq_eq_false_iff_ne, Bool.not_eq_false'] at hne
  unfold numberOfElements
  rw [hvalues.1, hvalues.2.1, hvalues.2.2.1, hvalues.2.2.2]
  generalize q.advance q.reader nElements = place at hadvance
  unfold stretch at hle
  simp only [Bool.false_eq_true, if_false]
  cases hq : q.full with
  | true =>
      have heq := hfull hq
      simp only [heq, le_refl, lt_irrefl, if_true, if_false] at hle ⊢
      split <;> omega
  | false =>
      rw [hq] at hne
      simp only [Bool.false_eq_true, or_false] at hne
      simp only [Bool.false_eq_true, if_false]
      split at hle
      · split <;> split <;> omega
      · split <;> split <;> omega

theorem Valid.contents_consume {nElements : Nat} (h : q.Valid) (hne : q.isEmpty = false)
    (hpos : 0 < nElements) (hle : nElements ≤ q.stretch) :
    q.data.window q.reader nElements ++ (q.consume nElements).contents = q.contents := by
  have hreader := h.reader
  have hstretch := h.stretch_le hne
  have hplace : q.advance q.reader nElements = (q.reader + nElements) % q.size := by
    have hadvance := advance_cases q q.reader nElements (by omega)
    rw [List.add_mod_of_lt hreader (by omega)]
    split <;> omega
  have hfits : q.reader + nElements ≤ q.data.length := hstretch.1.trans' (by omega)
  have hring := List.window_append_ring (hle.trans hstretch.2) h.numberOfElements_le hfits
  rw [contents, h.numberOfElements_consume hne hpos hle]
  change q.data.window q.reader nElements ++
    q.data.ring (q.advance q.reader nElements) (q.numberOfElements - nElements) = q.contents
  rwa [hplace]

/-! ## One operation -/

theorem pushBlock_eq (hfull : q.full = false) {nElements : Nat} (hpos : 0 < nElements) :
    q.pushBlock nElements = (some q.writer, min q.room nElements,
      { q with
        writer := q.advance q.writer (min q.room nElements)
        full := decide (q.advance q.writer (min q.room nElements) = q.reader) }) := by
  have hnone : ¬(q.full = true ∨ nElements = 0) := by
    simp [hfull]
    omega
  rw [pushBlock, if_neg hnone]

theorem popBlock_eq (hne : q.isEmpty = false) {nElements : Nat} (hpos : 0 < nElements) :
    q.popBlock nElements =
      (some q.reader, min q.stretch nElements, q.consume (min q.stretch nElements)) := by
  rw [popBlock, if_neg (Nat.ne_of_gt hpos), hne, if_neg Bool.false_ne_true]
  rfl

theorem push_eq (hfull : q.full = false) :
    q.push = (some q.writer, { q with
      writer := q.advance q.writer 1
      full := decide (q.advance q.writer 1 = q.reader) }) := by
  rw [push, hfull, if_neg Bool.false_ne_true]

theorem pop_eq (hne : q.isEmpty = false) : q.pop = (some q.reader, q.consume 1) := by
  rw [pop, hne, if_neg Bool.false_ne_true]
  rfl

theorem Valid.startOver (h : q.Valid) (hempty : q.isEmpty = true) :
    Valid { q with reader := 0, writer := 0 } ∧
      contents { q with reader := 0, writer := 0 } = q.contents := by
  have hpos := h.size_pos
  have hnone : q.full = false := by
    unfold isEmpty at hempty
    simp only [Bool.and_eq_true, Bool.not_eq_true'] at hempty
    exact hempty.2
  have hnumber : numberOfElements { q with reader := 0, writer := 0 } = 0 := by
    simp [numberOfElements, hnone]
  constructor
  · exact ⟨hpos, hpos, fun _ => rfl⟩
  · rw [contents, hnumber, contents, h.isEmpty_iff.mp hempty, List.ring_zero, List.ring_zero]

/-- A run whose elements are accounted for: those that went in are those that came out, and the
unread ones behind them. -/
structure Accounted (size : Nat) (r : Run α) : Prop where
  valid : r.queue.Valid
  size : r.queue.size = size
  order : r.pushed = r.popped ++ r.queue.contents

theorem Accounted.fill {size : Nat} {r : Run α} (h : Accounted size r) {items : List α}
    (hfull : r.queue.full = false) (hpos : 0 < items.length) (hle : items.length ≤ r.queue.room) :
    Accounted size ⟨r.queue.fill items, r.pushed ++ items, r.popped⟩ := by
  have hroom := h.valid.writer_room
  constructor
  · exact h.valid.fill hle
  · exact (size_fill r.queue items (by omega)).trans h.size
  · rw [h.order, h.valid.contents_fill hfull hpos hle, List.append_assoc]

theorem Accounted.consume {size : Nat} {r : Run α} (h : Accounted size r) {nElements : Nat}
    (hne : r.queue.isEmpty = false) (hpos : 0 < nElements) (hle : nElements ≤ r.queue.stretch) :
    Accounted size ⟨r.queue.consume nElements, r.pushed,
      r.popped ++ r.queue.data.window r.queue.reader nElements⟩ := by
  constructor
  · exact h.valid.consume hne hle
  · exact h.size
  · rw [h.order, ← h.valid.contents_consume hne hpos hle, List.append_assoc]

theorem step_push {r : Run α} (h : r.queue.Valid) (hfull : r.queue.full = false) (x : α) :
    step r (.push x) = ⟨r.queue.fill [x], r.pushed ++ [x], r.popped⟩ := by
  have hset := @List.set_splice_last α r.queue.data [] r.queue.writer h.writer x
  rw [List.splice_nil] at hset
  rw [step, push_eq hfull, fill]
  exact congrArg (fun data => Run.mk (HalQueue.mk _ _ _ data) _ _) hset

theorem step_pushBlock {r : Run α} (hfull : r.queue.full = false) {xs : List α} (hxs : xs ≠ []) :
    step r (.pushBlock xs) = ⟨r.queue.fill (xs.take (min r.queue.room xs.length)),
      r.pushed ++ xs.take (min r.queue.room xs.length), r.popped⟩ := by
  have hlength : (xs.take (min r.queue.room xs.length)).length = min r.queue.room xs.length := by
    rw [List.length_take, Nat.min_assoc, Nat.min_self]
  rw [step, pushBlock_eq hfull (List.length_pos_of_ne_nil hxs), fill, hlength]

theorem step_pop {r : Run α} (hne : r.queue.isEmpty = false) :
    step r .pop = ⟨r.queue.consume 1, r.pushed,
      r.popped ++ r.queue.data.window r.queue.reader 1⟩ := by
  rw [step, pop_eq hne]
  rfl

theorem step_popBlock {r : Run α} (hne : r.queue.isEmpty = false) {nElements : Nat}
    (hpos : 0 < nElements) :
    step r (.popBlock nElements) = ⟨r.queue.consume (min r.queue.stretch nElements), r.pushed,
      r.popped ++ r.queue.data.window r.queue.reader (min r.queue.stretch nElements)⟩ := by
  rw [step, popBlock_eq hne hpos]
  rfl

theorem step_accounted {size : Nat} {r : Run α} (h : Accounted size r) (a : Action α) :
    Accounted size (step r a) := by
  cases a with
  | push x =>
      cases hfull : r.queue.full with
      | true =>
          rw [step, push, hfull, if_pos rfl]
          exact h
      | false =>
          rw [step_push h.valid hfull]
          exact h.fill hfull Nat.one_pos h.valid.room_pos
  | pop =>
      cases hempty : r.queue.isEmpty with
      | true =>
          rw [step, pop, hempty, if_pos rfl]
          exact h
      | false =>
          rw [step_pop hempty]
          exact h.consume hempty Nat.one_pos h.valid.stretch_pos
  | peek => exact h
  | pushBlock xs =>
      by_cases hxs : xs = []
      · rw [step, pushBlock, if_pos (.inr (by simp [hxs]))]
        exact h
      · cases hfull : r.queue.full with
        | true =>
            rw [step, pushBlock, hfull, if_pos (.inl rfl)]
            exact h
        | false =>
            have hroom := h.valid.room_pos
            have hlength := List.length_pos_of_ne_nil hxs
            rw [step_pushBlock hfull hxs]
            apply h.fill hfull
            · rw [List.length_take]
              omega
            · rw [List.length_take]
              omega
  | popBlock nElements =>
      by_cases hn : nElements = 0
      · rw [step, popBlock, if_pos hn]
        exact h
      · cases hempty : r.queue.isEmpty with
        | true =>
            have hstart := h.valid.startOver hempty
            rw [step, popBlock, if_neg hn, hempty, if_pos rfl]
            exact ⟨hstart.1, h.size, h.order.trans (congrArg _ hstart.2.symm)⟩
        | false =>
            have hstretch := h.valid.stretch_pos
            rw [step_popBlock hempty (Nat.pos_of_ne_zero hn)]
            exact h.consume hempty (by omega) (Nat.min_le_left ..)

theorem run_accounted {size : Nat} {r : Run α} (h : Accounted size r) (actions : List (Action α)) :
    Accounted size (run r actions) := by
  induction actions generalizing r with
  | nil => exact h
  | cons a actions ih => exact ih (step_accounted h a)

/-! ## Progress -/

/-- A block push that asks for slots either finds the queue full or adds elements. -/
theorem numberOfElements_pushBlock {r : Run α} (h : r.queue.Valid) {xs : List α} (hxs : xs ≠ []) :
    min r.queue.size (r.queue.numberOfElements + 1) ≤
      (step r (.pushBlock xs)).queue.numberOfElements := by
  cases hfull : r.queue.full with
  | true =>
      rw [step, pushBlock, hfull, if_pos (.inl rfl)]
      exact (Nat.min_le_left ..).trans (h.full_iff.mp hfull).ge
  | false =>
      have hroom := h.room_pos
      have hlength := List.length_pos_of_ne_nil hxs
      have htake : (xs.take (min r.queue.room xs.length)).length = min r.queue.room xs.length := by
        rw [List.length_take]
        omega
      rw [step_pushBlock hfull hxs, h.numberOfElements_fill hfull (by omega) (by omega), htake]
      omega

theorem numberOfElements_popBlock {r : Run α} (h : r.queue.Valid) {nElements : Nat}
    (hpos : 0 < nElements) :
    (step r (.popBlock nElements)).queue.numberOfElements ≤ r.queue.numberOfElements - 1 := by
  cases hempty : r.queue.isEmpty with
  | true =>
      have hstart := h.startOver hempty
      rw [step, popBlock, if_neg (Nat.ne_of_gt hpos), hempty, if_pos rfl]
      simp only
      rw [← hstart.1.length_contents, hstart.2, h.length_contents, h.isEmpty_iff.mp hempty]
  | false =>
      have hstretch := h.stretch_pos
      rw [step_popBlock hempty hpos, h.numberOfElements_consume hempty (by omega)
        (Nat.min_le_left ..)]
      omega

/-- Enough block pushes fill the queue, however little each one asks for. -/
theorem full_of_pushBlocks {size : Nat} {r : Run α} (h : Accounted size r)
    {requests : List (List α)} (hrequests : ∀ xs ∈ requests, xs ≠ [])
    (henough : size ≤ r.queue.numberOfElements + requests.length) :
    (run r (requests.map .pushBlock)).queue.full = true := by
  induction requests generalizing r with
  | nil =>
      have hle := h.valid.numberOfElements_le
      have hsize := h.size
      apply h.valid.full_iff.mpr
      rw [List.length_nil] at henough
      omega
  | cons xs requests ih =>
      have hxs := numberOfElements_pushBlock h.valid (hrequests xs (by simp))
      have hsize := h.size
      have hlast := (step_accounted h (.pushBlock xs)).valid.numberOfElements_le
      have hsize' := (step_accounted h (.pushBlock xs)).size
      rw [List.length_cons] at henough
      apply ih (step_accounted h (.pushBlock xs))
      · exact fun xs hmem => hrequests xs (by simp [hmem])
      · omega

theorem empty_of_popBlocks {size : Nat} {r : Run α} (h : Accounted size r) {requests : List Nat}
    (hrequests : ∀ n ∈ requests, 0 < n)
    (henough : r.queue.numberOfElements ≤ requests.length) :
    (run r (requests.map .popBlock)).queue.isEmpty = true := by
  induction requests generalizing r with
  | nil =>
      apply h.valid.isEmpty_iff.mpr
      rw [List.length_nil] at henough
      omega
  | cons n requests ih =>
      have hn := numberOfElements_popBlock h.valid (hrequests n (by simp))
      rw [List.length_cons] at henough
      apply ih (step_accounted h (.popBlock n))
      · exact fun n hmem => hrequests n (by simp [hmem])
      · omega

/-! ## The queue as a whole -/

/-- What holds of a queue of `size` slots after any run: the elements come out in the order in which
they went in, indices count the unread ones, slots that are given away are free, those that are
consumed hold the first elements, and block operations get the queue full or empty. -/
structure IsFifo (size : Nat) (r : Run α) : Prop where
  order : r.pushed = r.popped ++ r.queue.contents
  count : r.queue.numberOfElements + r.popped.length = r.pushed.length
  bounded : r.queue.numberOfElements ≤ size ∧ r.queue.size = size
  full : r.queue.isFull = true ↔ r.queue.numberOfElements = size
  empty : r.queue.isEmpty = true ↔ r.queue.numberOfElements = 0
  index : ∀ i : Int, ((r.queue.slot i).bind fun slot => r.queue.data[slot]?) =
    if i < 0 then none else r.queue.contents[i.toNat]?
  peek : (r.queue.peek.bind fun slot => r.queue.data[slot]?) = r.queue.contents.head?
  push : ∀ slot q, r.queue.push = (some slot, q) → r.queue.Free slot 1
  push_full : r.queue.push.1 = none ↔ r.queue.isFull = true
  pushBlock : ∀ n slot k q, r.queue.pushBlock n = (some slot, k, q) →
    (0 < k ∧ k ≤ n) ∧ r.queue.Free slot k
  pushBlock_none : ∀ n, (r.queue.pushBlock n).1 = none ↔ r.queue.isFull = true ∨ n = 0
  pop : ∀ slot q, r.queue.pop = (some slot, q) →
    r.queue.data.window slot 1 = r.queue.contents.take 1
  pop_none : r.queue.pop.1 = none ↔ r.queue.isEmpty = true
  popBlock : ∀ n slot k q, r.queue.popBlock n = (some slot, k, q) →
    (0 < k ∧ k ≤ n) ∧ slot + k ≤ size ∧ r.queue.data.window slot k = r.queue.contents.take k
  popBlock_none : ∀ n, (r.queue.popBlock n).1 = none ↔ r.queue.isEmpty = true ∨ n = 0
  fills : ∀ requests : List (List α), (∀ xs ∈ requests, xs ≠ []) →
    size ≤ r.queue.numberOfElements + requests.length →
      (run r (requests.map .pushBlock)).queue.isFull = true
  drains : ∀ requests : List Nat, (∀ n ∈ requests, 0 < n) →
    r.queue.numberOfElements ≤ requests.length →
      (run r (requests.map .popBlock)).queue.isEmpty = true

theorem Valid.slot_int (h : q.Valid) (i : Int) :
    ((q.slot i).bind fun slot => q.data[slot]?) = if i < 0 then none else q.contents[i.toNat]? := by
  by_cases hi : i < 0
  · rw [if_pos hi, slot, if_pos (.inl hi)]
    rfl
  · have hnat : ((i.toNat : Nat) : Int) = i := Int.toNat_of_nonneg (by omega)
    rw [if_neg hi, ← h.slot_eq, hnat]

/-- The slots that are consumed hold the first of the unread elements. -/
theorem Valid.window_eq (h : q.Valid) (hne : q.isEmpty = false) {nElements : Nat}
    (hpos : 0 < nElements) (hle : nElements ≤ q.stretch) :
    q.data.window q.reader nElements = q.contents.take nElements := by
  have hstretch := h.stretch_le hne
  have hlength : (q.data.window q.reader nElements).length = nElements :=
    List.length_window (hstretch.1.trans' (by omega))
  rw [← h.contents_consume hne hpos hle, List.take_left' hlength]

theorem isFifo_of_accounted {size : Nat} {r : Run α} (h : Accounted size r) : IsFifo size r := by
  have hvalid := h.valid
  have hsize := h.size
  have hroom := hvalid.room_pos
  have hstretch := hvalid.stretch_pos
  constructor
  · exact h.order
  · rw [h.order, List.length_append, hvalid.length_contents, Nat.add_comm]
  · exact ⟨hsize ▸ hvalid.numberOfElements_le, hsize⟩
  · exact hsize ▸ hvalid.full_iff
  · exact hvalid.isEmpty_iff
  · exact hvalid.slot_int
  · exact hvalid.peek_eq
  · intro slot q hpush
    cases hfull : r.queue.full with
    | true => simp [HalQueue.push, hfull] at hpush
    | false =>
        rw [push_eq hfull] at hpush
        cases hpush
        exact hvalid.free_room hfull hroom
  · cases hfull : r.queue.full with
    | true => simp [HalQueue.push, isFull, hfull]
    | false => simp [push_eq hfull, isFull, hfull]
  · intro n slot k q hpush
    by_cases hnone : r.queue.full = true ∨ n = 0
    · simp [HalQueue.pushBlock, hnone] at hpush
    · have hfull : r.queue.full = false := Bool.not_eq_true _ ▸ fun hfull => hnone (.inl hfull)
      have hn : 0 < n := Nat.pos_of_ne_zero fun hzero => hnone (.inr hzero)
      rw [pushBlock_eq hfull hn] at hpush
      cases hpush
      exact ⟨⟨by omega, Nat.min_le_right ..⟩, hvalid.free_room hfull (Nat.min_le_left ..)⟩
  · intro n
    by_cases hnone : r.queue.full = true ∨ n = 0
    · simp [HalQueue.pushBlock, isFull, hnone]
    · simp [HalQueue.pushBlock, isFull, hnone]
  · intro slot q hpop
    cases hempty : r.queue.isEmpty with
    | true => simp [HalQueue.pop, hempty] at hpop
    | false =>
        rw [pop_eq hempty] at hpop
        cases hpop
        exact hvalid.window_eq hempty Nat.one_pos hstretch
  · cases hempty : r.queue.isEmpty with
    | true => simp [HalQueue.pop, hempty]
    | false => simp [pop_eq hempty]
  · intro n slot k q hpop
    by_cases hn : n = 0
    · simp [HalQueue.popBlock, hn] at hpop
    · cases hempty : r.queue.isEmpty with
      | true => simp [HalQueue.popBlock, hn, hempty] at hpop
      | false =>
          have hlast := (hvalid.stretch_le hempty).1
          rw [popBlock_eq hempty (Nat.pos_of_ne_zero hn)] at hpop
          cases hpop
          refine ⟨⟨by omega, Nat.min_le_right ..⟩, by omega, ?_⟩
          exact hvalid.window_eq hempty (by omega) (Nat.min_le_left ..)
  · intro n
    by_cases hn : n = 0
    · simp [HalQueue.popBlock, hn]
    · cases hempty : r.queue.isEmpty with
      | true => simp [HalQueue.popBlock, hn, hempty]
      | false => simp [popBlock_eq hempty (Nat.pos_of_ne_zero hn), hn]
  · exact fun requests => full_of_pushBlocks h
  · exact fun requests => empty_of_popBlocks h

/-- A queue over any storage is a bounded FIFO, whatever is done with it. -/
theorem queue_isFifo (data : List α) (hsize : 0 < data.length) (actions : List (Action α)) :
    IsFifo data.length (run ⟨empty data, [], []⟩ actions) := by
  have hvalid : (empty data).Valid := ⟨hsize, hsize, fun _ => rfl⟩
  have hstart : Accounted data.length ⟨empty data, [], []⟩ :=
    ⟨hvalid, rfl, (List.ring_zero data 0).symm⟩
  exact isFifo_of_accounted (run_accounted hstart actions)

/-- Three slots, with pushes and pops around the end of the storage. -/
theorem queue_isFifo_three : IsFifo 3 (run ⟨empty [0, 0, 0], [], []⟩
    [.pushBlock [1, 2], .pop, .pushBlock [3, 4, 5], .push 6, .popBlock 9, .peek]) :=
  queue_isFifo [0, 0, 0] (by decide) _

end HalQueue

end TinyCLR.PAL
