import TinyCLR.Library.Splice

/-!
# Circular stretches

Some elements of a list that follow each other from a position on, where the first element of the
list follows the last one.
-/

variable {α : Type*}

namespace List

/-- The elements from a position on, around the end of the list. -/
def ring (l : List α) (head size : Nat) : List α := (l.rotate head).take size

variable {l : List α} {head size : Nat}

theorem length_ring (hsize : size ≤ l.length) : (l.ring head size).length = size := by
  rw [ring, length_take, length_rotate, Nat.min_eq_left hsize]

theorem getElem?_ring (hsize : size ≤ l.length) (k : Nat) :
    (l.ring head size)[k]? = if k < size then l[(head + k) % l.length]? else none := by
  rw [ring, getElem?_take]
  by_cases hk : k < size
  · rw [if_pos hk, if_pos hk, getElem?_rotate (by omega), Nat.add_comm k head]
  · rw [if_neg hk, if_neg hk]

theorem ring_zero (l : List α) (head : Nat) : l.ring head 0 = [] := take_zero

/-- A place on a ring, which at most one turn leads to. -/
theorem add_mod_of_lt {a b n : Nat} (ha : a < n) (hb : b ≤ n) :
    (a + b) % n = if a + b < n then a + b else a + b - n := by
  by_cases h : a + b < n
  · rw [if_pos h, Nat.mod_eq_of_lt h]
  · rw [if_neg h, Nat.mod_eq_sub_mod (by omega), Nat.mod_eq_of_lt (by omega)]

theorem ring_place_ne {a b c n : Nat} (ha : a < n) (hbc : b < c) (hc : c < n) :
    (a + b) % n ≠ (a + c) % n := by
  rw [add_mod_of_lt ha (by omega), add_mod_of_lt ha hc.le]
  split <;> split <;> omega

/-- The ring without its first element starts at the next place. -/
theorem ring_next (hsize : size < l.length) :
    l.ring ((head + 1) % l.length) size = (l.ring head (size + 1)).tail := by
  apply ext_getElem?
  intro k
  rw [getElem?_tail, getElem?_ring hsize.le, getElem?_ring hsize]
  by_cases hk : k < size
  · rw [if_pos hk, if_pos (by omega), Nat.mod_add_mod, Nat.add_right_comm, Nat.add_assoc]
  · rw [if_neg hk, if_neg (by omega)]

/-- The place behind the ring is none of its own. -/
theorem ring_push (hhead : head < l.length) (hsize : size < l.length) (x : α) :
    (l.set ((head + size) % l.length) x).ring head (size + 1) = l.ring head size ++ [x] := by
  have hplace : (head + size) % l.length < l.length := Nat.mod_lt _ (by omega)
  have hlength : (l.ring head size).length = size := length_ring hsize.le
  apply ext_getElem?
  intro k
  rw [getElem?_ring (by rwa [length_set]), length_set]
  rcases lt_trichotomy k size with hk | rfl | hk
  · rw [if_pos (by omega), getElem?_set_ne (ring_place_ne hhead hk hsize).symm,
      getElem?_append_left (by omega), getElem?_ring hsize.le, if_pos hk]
  · rw [if_pos (by omega), getElem?_set_self hplace, getElem?_append_right (by omega), hlength,
      Nat.sub_self]
    rfl
  · rw [if_neg (by omega), getElem?_eq_none]
    rw [length_append, hlength, length_singleton]
    omega

/-- The first place is no longer one of the ring when its element has been taken. -/
theorem ring_pop (hhead : head < l.length) (hsize : size < l.length) (x : α) :
    (l.set head x).ring ((head + 1) % l.length) size = (l.ring head (size + 1)).tail := by
  rw [← ring_next hsize]
  apply ext_getElem?
  intro k
  rw [getElem?_ring (by rw [length_set]; exact hsize.le), length_set, getElem?_ring hsize.le]
  by_cases hk : k < size
  · have hplace := ring_place_ne (b := 0) (c := k + 1) hhead (by omega) (by omega)
    rw [Nat.add_zero, Nat.mod_eq_of_lt hhead, Nat.add_comm k 1, ← Nat.add_assoc,
      ← Nat.mod_add_mod] at hplace
    rw [if_pos hk, if_pos hk, getElem?_set_ne hplace]
  · rw [if_neg hk, if_neg hk]

/-- A ring that does not go around the end. -/
theorem ring_eq_window (h : head + size ≤ l.length) : l.ring head size = l.window head size := by
  apply ext_getElem?
  intro k
  rw [getElem?_ring (by omega), getElem?_window]
  by_cases hk : k < size
  · rw [if_pos hk, if_pos hk, Nat.mod_eq_of_lt (by omega)]
  · rw [if_neg hk, if_neg hk]

/-- A ring that does has a part up to the end and one from the start on. -/
theorem ring_eq_windows (hhead : head < l.length) (hsize : size ≤ l.length)
    (h : l.length ≤ head + size) :
    l.ring head size =
      l.window head (l.length - head) ++ l.window 0 (head + size - l.length) := by
  have hfirst : (l.window head (l.length - head)).length = l.length - head :=
    length_window (by omega)
  apply ext_getElem?
  intro k
  rw [getElem?_ring hsize]
  by_cases hk : k < l.length - head
  · rw [if_pos (by omega), getElem?_append_left (by omega), getElem?_window, if_pos hk,
      Nat.mod_eq_of_lt (by omega)]
  · rw [getElem?_append_right (by omega), hfirst, getElem?_window, Nat.zero_add]
    by_cases hlast : k < size
    · rw [if_pos hlast, if_pos (by omega), add_mod_of_lt hhead (by omega), if_neg (by omega)]
      congr 1
      omega
    · rw [if_neg hlast, if_neg (by omega)]

/-- Elements side by side from the place behind the ring on are its last elements. -/
theorem ring_splice {items : List α} {place : Nat} (hhead : head < l.length)
    (hsize : size + items.length ≤ l.length) (hplace : place = (head + size) % l.length)
    (hfits : place + items.length ≤ l.length) :
    (l.splice place items).ring head (size + items.length) = l.ring head size ++ items := by
  have hlength : (l.splice place items).length = l.length := length_splice hfits
  have hring : (l.ring head size).length = size := length_ring (by omega)
  rw [add_mod_of_lt hhead (by omega)] at hplace
  apply ext_getElem?
  intro k
  rw [getElem?_ring (by omega), hlength, getElem?_splice hfits]
  by_cases hk : k < size
  · have hadd := add_mod_of_lt (b := k) hhead (by omega)
    have hout : ¬(place ≤ (head + k) % l.length ∧ (head + k) % l.length < place + items.length) := by
      rw [hadd]
      split at hplace <;> split <;> omega
    rw [if_pos (by omega), if_neg hout, getElem?_append_left (by omega), getElem?_ring (by omega),
      if_pos hk]
  · rw [getElem?_append_right (by omega), hring]
    by_cases hlast : k < size + items.length
    · have hadd := add_mod_of_lt (b := k) hhead (by omega)
      have hin : (head + k) % l.length = place + (k - size) := by
        rw [hadd]
        split at hplace <;> split <;> omega
      rw [if_pos hlast, hin, if_pos (by omega), Nat.add_sub_cancel_left]
    · rw [if_neg hlast, getElem?_eq_none (by omega)]

/-- The first elements of a ring that lie side by side, and the ring behind them. -/
theorem window_append_ring {n : Nat} (hn : n ≤ size)
    (hsize : size ≤ l.length) (hfits : head + n ≤ l.length) :
    l.window head n ++ l.ring ((head + n) % l.length) (size - n) = l.ring head size := by
  have hwindow : (l.window head n).length = n := length_window hfits
  apply ext_getElem?
  intro k
  rw [getElem?_ring hsize]
  by_cases hk : k < n
  · rw [getElem?_append_left (by omega), getElem?_window, if_pos hk, if_pos (by omega),
      Nat.mod_eq_of_lt (by omega)]
  · have hplace : head + n + (k - n) = head + k := by omega
    rw [getElem?_append_right (by omega), hwindow, getElem?_ring (by omega), Nat.mod_add_mod, hplace]
    by_cases hlast : k < size
    · rw [if_pos (by omega), if_pos hlast]
    · rw [if_neg (by omega), if_neg hlast]

end List
