import Mathlib

/-!
# Sequences that arrive in pieces

What a peer sends is a list. A read takes some of its front, as much as a plan allows for it, but
never nothing where there is something to take. A plan says for each read how much it finds
waiting beforehand and how much it is given at most; after the plan everything is there.
-/

variable {α : Type*}

structure Pieces (α : Type*) where
  rest : List α
  plan : List (Nat × Nat)

namespace Pieces

variable (p : Pieces α)

/-- How much is waiting. -/
def available : Nat :=
  match p.plan with
  | [] => p.rest.length
  | (n, _) :: _ => min n p.rest.length

/-- How much a read of so much takes at most. -/
def share (n : Nat) : Nat :=
  match p.plan with
  | [] => n
  | (_, k) :: _ => min n (max 1 k)

def read (n : Nat) : List α × Pieces α :=
  (p.rest.take (p.share n), { rest := p.rest.drop (p.share n), plan := p.plan.tail })

variable (n : Nat)

theorem share_le : p.share n ≤ n := by
  unfold share
  split
  · exact Nat.le_refl n
  · exact Nat.min_le_left _ _

theorem share_pos (h : 0 < n) : 0 < p.share n := by
  unfold share
  split
  · exact h
  · simp [h]

theorem available_le : p.available ≤ p.rest.length := by
  unfold available
  split
  · exact Nat.le_refl _
  · exact Nat.min_le_right _ _

/-- A read neither loses nor invents anything. -/
theorem read_append : (p.read n).1 ++ (p.read n).2.rest = p.rest :=
  List.take_append_drop _ _

theorem length_read_le : (p.read n).1.length ≤ n :=
  (List.length_take_le _ _).trans (p.share_le n)

theorem read_eq_nil_iff (h : 0 < n) : (p.read n).1 = [] ↔ p.rest = [] := by
  have hpos := p.share_pos n h
  simp [read, List.take_eq_nil_iff, hpos.ne']

end Pieces
