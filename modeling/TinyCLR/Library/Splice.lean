import Mathlib

/-!
# Copies within lists

A list whose elements from a position on are replaced by others, and what becomes of it when they
are written one after the other, upwards or downwards.
-/

variable {α : Type*}

namespace List

/-- The elements from a position on are replaced. -/
def splice (l : List α) (p : Nat) (items : List α) : List α :=
  l.take p ++ (items ++ l.drop (p + items.length))

variable {l items : List α} {p : Nat}

theorem length_splice (h : p + items.length ≤ l.length) :
    (l.splice p items).length = l.length := by
  simp only [splice, length_append, length_take, length_drop]
  omega

theorem getElem?_splice (h : p + items.length ≤ l.length) (j : Nat) :
    (l.splice p items)[j]? =
      if p ≤ j ∧ j < p + items.length then items[j - p]? else l[j]? := by
  have htake : (l.take p).length = p := by
    rw [length_take]
    omega
  rw [splice]
  by_cases hlow : j < p
  · rw [getElem?_append_left (by omega), getElem?_take_of_lt hlow, if_neg (by omega)]
  · rw [getElem?_append_right (by omega), htake]
    by_cases hhigh : j < p + items.length
    · rw [getElem?_append_left (by omega), if_pos ⟨by omega, hhigh⟩]
    · rw [getElem?_append_right (by omega), getElem?_drop, if_neg (by omega)]
      congr 1
      omega

@[simp] theorem splice_nil : l.splice p [] = l := by
  simp [splice]

/-- An element behind those that are replaced already. -/
theorem set_splice_last (h : p + items.length < l.length) (x : α) :
    (l.splice p items).set (p + items.length) x = l.splice p (items ++ [x]) := by
  apply ext_getElem?
  intro j
  have hlength : (items ++ [x]).length = items.length + 1 := length_append
  rw [getElem?_set, length_splice h.le, getElem?_splice h.le, getElem?_splice (by omega), hlength]
  by_cases hj : p + items.length = j
  · rw [if_pos hj, if_pos h, if_pos (by omega), getElem?_append_right (by omega)]
    have hzero : j - p - items.length = 0 := by omega
    rw [hzero, getElem?_cons_zero]
  · rw [if_neg hj]
    by_cases hin : p ≤ j ∧ j < p + items.length
    · rw [if_pos hin, if_pos (by omega), getElem?_append_left (by omega)]
    · rw [if_neg hin, if_neg (by omega)]

/-- An element before those that are replaced already. -/
theorem set_splice_head (h : p + 1 + items.length ≤ l.length) (x : α) :
    (l.splice (p + 1) items).set p x = l.splice p (x :: items) := by
  apply ext_getElem?
  intro j
  rw [getElem?_set, length_splice h, getElem?_splice h,
    getElem?_splice (by rw [length_cons]; omega), length_cons]
  by_cases hj : p = j
  · rw [if_pos hj, if_pos (by omega), if_pos (by omega)]
    have hzero : j - p = 0 := by omega
    rw [hzero, getElem?_cons_zero]
  · rw [if_neg hj]
    by_cases hin : p + 1 ≤ j ∧ j < p + 1 + items.length
    · obtain ⟨k, rfl⟩ : ∃ k, j = p + 1 + k := ⟨j - (p + 1), by omega⟩
      have hindex : p + 1 + k - p = k + 1 := by omega
      rw [if_pos hin, if_pos (by omega), hindex, getElem?_cons_succ, Nat.add_sub_cancel_left]
    · rw [if_neg hin, if_neg (by omega)]

/-- An element is replaced, and then those behind it. -/
theorem splice_set_head (h : p + 1 + items.length ≤ l.length) (x : α) :
    (l.set p x).splice (p + 1) items = l.splice p (x :: items) := by
  rw [← set_splice_head h]
  apply ext_getElem?
  intro j
  rw [getElem?_set, length_splice h, getElem?_splice h, getElem?_splice (by rwa [length_set]),
    getElem?_set]
  by_cases hj : p = j
  · rw [if_pos hj, if_pos hj, if_neg (by omega)]
  · rw [if_neg hj, if_neg hj]

theorem take_splice_zero : (l.splice 0 items).take items.length = items := by
  rw [splice, take_zero, nil_append, take_left]

/-- Two stretches that lie side by side. -/
theorem splice_splice {items' : List α} (h : p + items.length + items'.length ≤ l.length) :
    (l.splice p items).splice (p + items.length) items' = l.splice p (items ++ items') := by
  induction items' generalizing items with
  | nil => rw [splice_nil, append_nil]
  | cons x items' ih =>
      rw [length_cons] at h
      have hlength := @length_splice _ l items p (by omega)
      rw [← splice_set_head (by omega), set_splice_last (by omega)]
      have hnext := @ih (items ++ [x]) (by
        rw [length_append, length_singleton]
        omega)
      rw [length_append, length_singleton, ← Nat.add_assoc] at hnext
      rw [hnext, append_assoc]
      rfl

/-- Some elements from a position on. -/
def window (l : List α) (p n : Nat) : List α := (l.drop p).take n

variable {n : Nat}

theorem length_window (h : p + n ≤ l.length) : (l.window p n).length = n := by
  rw [window, length_take, length_drop]
  omega

theorem getElem?_window (j : Nat) : (l.window p n)[j]? = if j < n then l[p + j]? else none := by
  rw [window, getElem?_take, getElem?_drop]

@[simp] theorem window_zero : l.window p 0 = [] := take_zero

theorem window_succ {x : α} (h : l[p + n]? = some x) :
    l.window p (n + 1) = l.window p n ++ [x] := by
  rw [window, window, take_add_one, getElem?_drop, h]
  rfl

theorem window_succ_head {x : α} (h : l[p]? = some x) :
    l.window p (n + 1) = x :: l.window (p + 1) n := by
  obtain ⟨hp, hx⟩ := getElem?_eq_some_iff.mp h
  rw [window, window, drop_eq_getElem_cons hp, hx, take_succ_cons]

theorem window_add (m : Nat) : l.window p (n + m) = l.window p n ++ l.window (p + n) m := by
  rw [window, take_add, drop_drop, window, window]

theorem window_set {k : Nat} (h : p + n ≤ k) (x : α) : (l.set k x).window p n = l.window p n := by
  apply ext_getElem?
  intro j
  rw [getElem?_window, getElem?_window]
  by_cases hj : j < n
  · rw [if_pos hj, if_pos hj, getElem?_set_ne (by omega)]
  · rw [if_neg hj, if_neg hj]

theorem mem_of_mem_window {x : α} (h : x ∈ l.window p n) : x ∈ l :=
  mem_of_mem_drop (mem_of_mem_take h)

theorem mem_of_mem_splice {x : α} (h : x ∈ l.splice p items) : x ∈ l ∨ x ∈ items := by
  rcases mem_append.mp h with h | h
  · exact .inl (mem_of_mem_take h)
  · rcases mem_append.mp h with h | h
    · exact .inr h
    · exact .inl (mem_of_mem_drop h)

end List
