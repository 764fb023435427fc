import Mathlib

/-!
# Ring buffers

A buffer of fixed size between a reader and a writer that chase each other. A full and an empty
buffer have the two at the same place and are told apart by a flag. Elements are also taken
several at a time, as far as they lie side by side.
-/

namespace RingBuffer

/-- `writer` and `reader` are places of the storage of `size` elements. -/
structure Buffer (α : Type*) where
  writer : Nat
  reader : Nat
  size : Nat
  full : Bool
  data : Nat → α

variable {α : Type*}

namespace Buffer

variable (q : Buffer α)

def numberOfElements : Nat :=
  if q.writer < q.reader then q.size + q.writer - q.reader
  else if q.full then q.size
  else q.writer - q.reader

def isEmpty : Bool := q.writer == q.reader && !q.full

/-- The place behind `n` elements from place `k` on, back at the start where the storage ends. -/
def ahead (k n : Nat) : Nat :=
  if k + n = q.size then 0 else k + n

/-- The longest stretch of free places from the writer on. -/
def room : Nat :=
  if q.writer < q.reader then q.reader - q.writer else q.size - q.writer

/-- The longest stretch of elements from the reader on. -/
def stretch : Nat :=
  if q.writer ≤ q.reader then q.size - q.reader else q.writer - q.reader

/-- Put elements in, as many as there is room for side by side. -/
def push (elements : List α) : Nat × Buffer α :=
  if q.full ∨ elements = [] then (0, q)
  else
    let n := min q.room elements.length
    let writer := q.ahead q.writer n
    (n, { q with
      writer := writer
      full := decide (writer = q.reader)
      data := fun k => if q.writer ≤ k ∧ k < q.writer + n
        then elements.getD (k - q.writer) (q.data k) else q.data k })

/-- Take up to `n` elements out, those that lie side by side. An empty buffer starts over. -/
def pop (n : Nat) : List α × Buffer α :=
  if n = 0 then ([], q)
  else if q.isEmpty then ([], { q with reader := 0, writer := 0 })
  else
    let k := min q.stretch n
    ((List.range k).map fun j => q.data (q.reader + j),
      { q with reader := q.ahead q.reader k, full := false })

/-- The places lie in the storage, and only a buffer with the two at one place is full. -/
structure Valid : Prop where
  writer : q.writer < q.size
  reader : q.reader < q.size
  full : q.full = true → q.writer = q.reader

variable {q} {n : Nat} {elements : List α}

theorem isEmpty_iff (h : q.Valid) : q.isEmpty = true ↔ q.numberOfElements = 0 := by
  have := h.writer
  have := h.reader
  have hfull := h.full
  rw [isEmpty, numberOfElements, Bool.and_eq_true, beq_iff_eq, Bool.not_eq_true']
  cases hq : q.full
  · simp only [Bool.false_eq_true, if_false, and_true]
    split <;> omega
  · have := hfull hq
    simp only [if_true, if_neg (show ¬ q.writer < q.reader by omega), Bool.true_eq_false,
      and_false, false_iff]
    omega

/-- The elements side by side are some of the elements, and not none where there are any. -/
theorem stretch_spec (h : q.Valid) (hne : q.isEmpty = false) :
    0 < q.stretch ∧ q.stretch ≤ q.numberOfElements := by
  have := h.writer
  have := h.reader
  have hfull := h.full
  rw [isEmpty, Bool.and_eq_false_iff, beq_eq_false_iff_ne, Bool.not_eq_false'] at hne
  rw [stretch, numberOfElements]
  rcases hne with hne | hq
  · split
    · rw [if_pos (by omega)]
      omega
    · rw [if_neg (by omega)]
      split <;> omega
  · have := hfull hq
    rw [if_pos (by omega), if_neg (by omega), if_pos hq]
    omega

theorem pop_zero : q.pop 0 = ([], q) := if_pos rfl

theorem pop_empty (hn : n ≠ 0) (hempty : q.isEmpty = true) :
    q.pop n = ([], { q with reader := 0, writer := 0 }) := by
  rw [pop, if_neg hn, if_pos hempty]

/-- Taking out takes at least one element where it can, and counts what it takes. -/
theorem pop_spec (h : q.Valid) (hn : n ≠ 0) (hne : q.isEmpty = false) :
    let k := min q.stretch n
    (q.pop n).1.length = k ∧ (q.pop n).2.Valid ∧
      (q.pop n).2.numberOfElements + k = q.numberOfElements ∧
        (q.pop n).2.size = q.size := by
  obtain ⟨hpos, hle⟩ := stretch_spec h hne
  have hw := h.writer
  have hr := h.reader
  have hfull := h.full
  rw [pop, if_neg hn, hne, if_neg Bool.false_ne_true]
  have hk : min q.stretch n ≤ q.stretch := min_le_left _ _
  have hkpos : 0 < min q.stretch n := lt_min hpos (Nat.pos_of_ne_zero hn)
  generalize min q.stretch n = k at hk hkpos ⊢
  dsimp only
  refine ⟨by rw [List.length_map, List.length_range], ⟨hw, ?_, fun hf => ?_⟩, ?_, rfl⟩
  · rw [stretch] at hk
    rw [ahead]
    dsimp only
    split at hk <;> split <;> omega
  · cases hf
  · rw [stretch] at hk
    rw [isEmpty, Bool.and_eq_false_iff, beq_eq_false_iff_ne, Bool.not_eq_false'] at hne
    simp only [numberOfElements, ahead, Bool.false_eq_true, if_false]
    cases hq : q.full
    · rw [hq] at hne
      simp only [Bool.false_eq_true, or_false] at hne
      simp only [Bool.false_eq_true, if_false]
      split at hk <;> repeat' split
      all_goals omega
    · have := hfull hq
      simp only [if_true]
      rw [if_pos (by omega)] at hk
      repeat' split
      all_goals omega

theorem pop_valid (h : q.Valid) (n : Nat) : (q.pop n).2.Valid := by
  rcases Nat.eq_zero_or_pos n with rfl | hn
  · rw [pop_zero]
    exact h
  · rcases hempty : q.isEmpty with _ | _
    · exact (pop_spec h hn.ne' hempty).2.1
    · rw [pop_empty hn.ne' hempty]
      have := h.writer
      exact ⟨by dsimp only; omega, by dsimp only; omega, fun _ => rfl⟩

theorem push_valid (h : q.Valid) (elements : List α) : (q.push elements).2.Valid := by
  have hw := h.writer
  have hr := h.reader
  rw [push]
  split
  · exact h
  · have hle : min q.room elements.length ≤ q.room := min_le_left _ _
    generalize min q.room elements.length = k at hle
    refine ⟨?_, hr, fun hf => of_decide_eq_true hf⟩
    rw [room] at hle
    dsimp only
    rw [ahead]
    split at hle <;> split <;> omega

/-- Putting in counts what it puts in. -/
theorem push_spec (h : q.Valid) (hfull : q.full = false) :
    (q.push elements).2.numberOfElements = q.numberOfElements + (q.push elements).1 := by
  have hw := h.writer
  have hr := h.reader
  rw [push]
  split
  · rfl
  · have hle : min q.room elements.length ≤ q.room := min_le_left _ _
    rename_i hnone
    have hpos : 0 < elements.length := by
      rw [List.length_pos_iff]
      exact fun heq => hnone (.inr heq)
    have hkpos : 0 < min q.room elements.length := by
      refine lt_min ?_ hpos
      rw [room]
      split <;> omega
    generalize min q.room elements.length = k at hle hkpos
    rw [room] at hle
    dsimp only [numberOfElements, ahead]
    simp only [hfull, decide_eq_true_eq, Bool.false_eq_true, if_false]
    split at hle <;> (repeat' split) <;> omega

theorem push_one (h : q.Valid) (hfull : q.full = false) (c : α) : (q.push [c]).1 = 1 := by
  have hw := h.writer
  have hr := h.reader
  rw [push, hfull, if_neg (by simp)]
  have hroom : 0 < q.room := by
    rw [room]
    split <;> omega
  exact min_eq_right hroom

end Buffer

end RingBuffer
