import Mathlib
import TinyCLR.Library.Splice

/-!
# Lists of blocks

The list of the first blocks of a sequence of blocks of one length.
-/

variable {α : Type*}

namespace List

/-- The first `n` blocks, one behind the other. -/
def blocks (f : Nat → List α) (n : Nat) : List α := (range n).flatMap f

variable {f g : Nat → List α} {m n : Nat}

@[simp] theorem blocks_zero : blocks f 0 = [] := rfl

theorem blocks_succ : blocks f (n + 1) = blocks f n ++ f n := by
  rw [blocks, blocks, range_succ, flatMap_append, flatMap_singleton]

theorem length_blocks (h : ∀ j < n, (f j).length = m) : (blocks f n).length = m * n := by
  induction n with
  | zero => rfl
  | succ n ih =>
      rw [blocks_succ, length_append, ih fun j hj => h j (by omega), h n (by omega), Nat.mul_succ]

theorem getElem?_blocks (h : ∀ j < n, (f j).length = m) {j i : Nat} (hj : j < n) (hi : i < m)
    (r : List α) : (blocks f n ++ r)[m * j + i]? = (f j)[i]? := by
  induction n generalizing r with
  | zero => exact absurd hj (Nat.not_lt_zero j)
  | succ n ih =>
      have hn : ∀ j < n, (f j).length = m := fun j hj => h j (by omega)
      rw [blocks_succ, append_assoc]
      by_cases hlt : j < n
      · exact ih hn hlt (f n ++ r)
      · have hjn : j = n := by omega
        rw [hjn, getElem?_append_right (by rw [length_blocks hn]; omega), length_blocks hn,
          Nat.add_sub_cancel_left, getElem?_append_left (by rw [h n (by omega)]; exact hi)]

theorem getElem?_after_blocks (h : ∀ j < n, (f j).length = m) (i : Nat) (r : List α) :
    (blocks f n ++ r)[m * n + i]? = r[i]? := by
  rw [getElem?_append_right (by rw [length_blocks h]; omega), length_blocks h,
    Nat.add_sub_cancel_left]

theorem blocks_congr (h : ∀ j < n, f j = g j) : blocks f n = blocks g n := by
  induction n with
  | zero => rfl
  | succ n ih => rw [blocks_succ, blocks_succ, ih fun j hj => h j (by omega), h n (by omega)]

/-- Blocks of one length are equal when all of them are. -/
theorem blocks_append_inj (hf : ∀ j < n, (f j).length = m) (hg : ∀ j < n, (g j).length = m)
    {r t : List α} : blocks f n ++ r = blocks g n ++ t ↔ (∀ j < n, f j = g j) ∧ r = t := by
  constructor
  · intro h
    induction n generalizing r t with
    | zero => exact ⟨fun j hj => absurd hj (Nat.not_lt_zero j), h⟩
    | succ n ih =>
        rw [blocks_succ, blocks_succ, append_assoc, append_assoc] at h
        obtain ⟨hall, hrest⟩ :=
          ih (fun j hj => hf j (by omega)) (fun j hj => hg j (by omega)) h
        have hlast := append_inj hrest (by rw [hf n (by omega), hg n (by omega)])
        refine ⟨fun j hj => ?_, hlast.2⟩
        by_cases hlt : j < n
        · exact hall j hlt
        · rw [show j = n by omega]
          exact hlast.1
  · rintro ⟨hall, rfl⟩
    rw [blocks_congr hall]

theorem map_blocks {β : Type*} (φ : α → β) :
    (blocks f n).map φ = blocks (fun j => (f j).map φ) n := by
  induction n with
  | zero => rfl
  | succ n ih => rw [blocks_succ, blocks_succ, map_append, ih]

/-- The windows of a list are its blocks. -/
theorem blocks_window (l : List α) : blocks (fun j => l.window (m * j) m) n = l.take (m * n) := by
  induction n with
  | zero => rfl
  | succ n ih =>
      have hstep := @window_add _ l 0 (m * n) m
      rw [Nat.zero_add] at hstep
      rw [blocks_succ, ih, Nat.mul_succ]
      exact hstep.symm

end List
