import Mathlib
import TinyCLR.Library.LittleEndian

/-!
# Words of 32 bits

Sums and differences that wrap, and words in a memory of bytes.
-/

namespace Word32

open LittleEndian

/-- The value of a 32-bit register after a result that may not fit. -/
def u32 (n : Nat) : Nat := n % 2 ^ 32

def sub32 (a b : Nat) : Nat := u32 (a + (2 ^ 32 - b % 2 ^ 32))

theorem u32_lt (n : Nat) : u32 n < 2 ^ 32 := Nat.mod_lt _ (by norm_num)

theorem u32_of_lt {n : Nat} (h : n < 2 ^ 32) : u32 n = n := Nat.mod_eq_of_lt h

theorem sub32_of_le {a b : Nat} (hle : b ≤ a) (h : a < 2 ^ 32) : sub32 a b = a - b := by
  have hb : b % 2 ^ 32 = b := Nat.mod_eq_of_lt (by omega)
  rw [sub32, u32, hb]
  omega

def load (m : Memory) (a : Nat) : Nat := get m a 4

def store (m : Memory) (a v : Nat) : Memory := put m a 4 v

variable {m m' : Memory} {a b v : Nat}

theorem load_lt (m : Memory) (a : Nat) : load m a < 2 ^ 32 := get_lt m a 4

theorem load_congr (h : ∀ i, a ≤ i → i < a + 4 → m i = m' i) : load m a = load m' a :=
  get_congr h

theorem store_outside {i : Nat} (h : i < a ∨ a + 4 ≤ i) : store m a v i = m i := put_outside h

theorem load_store_same (h : v < 2 ^ 32) : load (store m a v) a = v := by
  rw [load, store, get_put_same]
  exact Nat.mod_eq_of_lt h

theorem load_store_of_disjoint (h : b + 4 ≤ a ∨ a + 4 ≤ b) : load (store m a v) b = load m b :=
  get_put_disjoint h

end Word32
