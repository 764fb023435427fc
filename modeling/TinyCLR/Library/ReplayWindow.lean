import Mathlib
import TinyCLR.Library.PackedBits

/-!
# Replay windows

A receiver remembers the highest position it has seen and, in a word, which of the positions below
it were seen. Bit `j` stands for the position `j + 1` below the highest one.
-/

namespace ReplayWindow

open PackedBits

variable {n : Nat}

/-- The window behind `top` shows which positions were seen, and none above `top` was. -/
structure Shows (seen : Nat → Prop) (top : Nat) (w : BitVec n) : Prop where
  highest : seen top
  le : ∀ p, seen p → p ≤ top
  bit : ∀ j < n, (w.getLsbD j = true ↔ j < top ∧ seen (top - (j + 1)))

variable {seen : Nat → Prop} {top : Nat} {w : BitVec n}

/-- The first position that is seen. -/
theorem Shows.first (p : Nat) : Shows (fun q => q = p) p (0 : BitVec n) := by
  refine ⟨rfl, fun q hq => hq.le, fun j _ => iff_of_false (by simp) ?_⟩
  rintro ⟨hlt, hq⟩
  omega

theorem Shows.congr (h : Shows seen top w) {seen' : Nat → Prop} (heq : ∀ p, seen' p ↔ seen p) :
    Shows seen' top w := by
  obtain rfl : seen' = seen := funext fun p => propext (heq p)
  exact h

/-- A position inside the window was seen when its bit is set. -/
theorem Shows.meets (h : Shows seen top w) {p d : Nat} (hd : 0 < d) (hn : d ≤ n)
    (hp : p + d = top) : 0#n < w &&& 1#n <<< (d - 1) ↔ seen p := by
  rw [← decide_eq_true_eq (p := 0#n < _), meets_flag w (by omega), h.bit (d - 1) (by omega),
    show top - (d - 1 + 1) = p by omega]
  exact and_iff_right (by omega)

/-- A position inside the window is marked. -/
theorem Shows.mark (h : Shows seen top w) {p d : Nat} (hd : 0 < d)
    (hp : p + d = top) : Shows (fun q => q = p ∨ seen q) top (w ||| 1#n <<< (d - 1)) := by
  refine ⟨.inr h.highest, ?_, fun j hj => ?_⟩
  · rintro q (rfl | hq)
    · omega
    · exact h.le q hq
  · rw [BitVec.getLsbD_or, Bool.or_eq_true, h.bit j hj, getLsbD_one_shift hj, decide_eq_true_eq]
    constructor
    · rintro (⟨hlt, hq⟩ | rfl)
      · exact ⟨hlt, .inr hq⟩
      · exact ⟨by omega, .inl (by omega)⟩
    · rintro ⟨hlt, hq | hq⟩
      · exact .inr (by omega)
      · exact .inl ⟨hlt, hq⟩

theorem getLsbD_advance {j : Nat} (hj : j < n) :
    ((w <<< 1) ||| 1#n).getLsbD j = if j = 0 then true else w.getLsbD (j - 1) := by
  rw [BitVec.getLsbD_or, BitVec.getLsbD_shiftLeft, decide_eq_true hj, Bool.true_and,
    BitVec.getLsbD_one]
  split_ifs with h
  · subst h
    simp [hj]
  · rw [decide_eq_false (show ¬j < 1 by omega), Bool.not_false, Bool.true_and,
      decide_eq_false (show ¬j = 0 by omega), Bool.and_false, Bool.or_false]

/-- A position above the highest one is seen: the old one enters the window, and the positions in
between enter it unseen. -/
theorem Shows.advance (h : Shows seen top w) {p d : Nat} (hd : 0 < d) (hp : top + d = p) :
    Shows (fun q => q = p ∨ seen q) p ((w <<< 1 ||| 1#n) <<< (d - 1)) := by
  refine ⟨.inl rfl, ?_, fun j hj => ?_⟩
  · rintro q (rfl | hq)
    · exact le_rfl
    · have := h.le q hq
      omega
  · rw [BitVec.getLsbD_shiftLeft, decide_eq_true hj, Bool.true_and]
    by_cases hlow : j < d - 1
    · rw [decide_eq_true hlow]
      refine iff_of_false (by simp) ?_
      rintro ⟨hlt, hq | hq⟩
      · omega
      · have := h.le _ hq
        omega
    · rw [decide_eq_false hlow, Bool.not_false, Bool.true_and, getLsbD_advance (by omega)]
      split_ifs with htop
      · refine iff_of_true rfl ⟨by omega, .inr ?_⟩
        rw [show p - (j + 1) = top by omega]
        exact h.highest
      · rw [h.bit _ (by omega), show top - (j - (d - 1) - 1 + 1) = p - (j + 1) by omega]
        constructor
        · rintro ⟨hlt, hq⟩
          exact ⟨by omega, .inr hq⟩
        · rintro ⟨hlt, hq | hq⟩
          · omega
          · refine ⟨?_, hq⟩
            by_contra hle
            omega

end ReplayWindow
