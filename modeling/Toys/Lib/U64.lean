import Mathlib

namespace Toys.Lib

/-!
# Library — unsigned 64-bit arithmetic on natural numbers

A 64-bit machine word is a natural number below `2 ^ 64`; sums and differences wrap.
The lemmas say when they do not, which is how a caller's bounds are used.
-/

namespace U64

/-- Wrapping addition. -/
def add (a b : Nat) : Nat := (a + b) % 2 ^ 64

/-- Wrapping subtraction. -/
def sub (a b : Nat) : Nat := (a + (2 ^ 64 - b % 2 ^ 64)) % 2 ^ 64

theorem add_eq {a b : Nat} (h : a + b < 2 ^ 64) : add a b = a + b := Nat.mod_eq_of_lt h

theorem sub_eq {a b : Nat} (hb : b ≤ a) (ha : a < 2 ^ 64) : sub a b = a - b := by
  unfold sub
  omega

theorem add_lt (a b : Nat) : add a b < 2 ^ 64 := Nat.mod_lt _ (by decide)

end U64

end Toys.Lib
