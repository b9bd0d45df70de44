import Mathlib
import Toys.Lib.ByteMemory

namespace Toys.Lib

/-!
# Library — tables of nibbles

The bytes of a table are read as half-bytes, the low one first.

* `nibble m i` — the half-byte `i`;
* `orNibble m i v` — the half-byte `i` is or-ed with `v`;
* `nibble_orNibble` — which changes no other one.
-/

/-- The half-byte `i` of a table. -/
def nibble (m : ByteMem) (i : Nat) : Nat :=
  if i % 2 = 0 then (m (i / 2)).toNat % 16 else (m (i / 2)).toNat / 16

/-- The half-byte `i` of a table is or-ed with `v`. -/
def orNibble (m : ByteMem) (i v : Nat) : ByteMem := fun j =>
  if j = i / 2 then m j ||| UInt8.ofNat (if i % 2 = 0 then v else v * 16) else m j

variable {m : ByteMem} {i j v : Nat}

/-- The other bytes stay. -/
theorem orNibble_of_ne (h : j ≠ i / 2) : orNibble m i v j = m j := if_neg h

/-- The byte of the nibble. -/
theorem orNibble_toNat (hv : v < 16) :
    (orNibble m i v (i / 2)).toNat =
      (m (i / 2)).toNat ||| (if i % 2 = 0 then v else v * 16) := by
  have hlt : (if i % 2 = 0 then v else v * 16) < 256 := by
    split_ifs
    all_goals omega
  rw [orNibble, if_pos rfl, UInt8.toNat_or, UInt8.toNat_ofNat_of_lt' hlt]

/-- The low nibble of a disjunction. -/
theorem or_mod_sixteen (a b : Nat) : (a ||| b) % 16 = a % 16 ||| b % 16 :=
  Nat.or_mod_two_pow (a := a) (b := b) (n := 4)

/-- The high nibble of a disjunction. -/
theorem or_div_sixteen (a b : Nat) : (a ||| b) / 16 = a / 16 ||| b / 16 := by
  have h : (a ||| b) >>> 4 = a >>> 4 ||| b >>> 4 := Nat.shiftRight_or_distrib
  simpa only [Nat.shiftRight_eq_div_pow] using h

/-- The half-byte `j` when the half-byte `i` is or-ed with `v`. -/
theorem nibble_orNibble (hv : v < 16) :
    nibble (orNibble m i v) j = if j = i then nibble m i ||| v else nibble m j := by
  by_cases hbyte : j / 2 = i / 2
  case neg =>
    -- they are in two bytes
    rw [if_neg fun h => hbyte (congrArg (· / 2) h), nibble, nibble, orNibble_of_ne hbyte]
  have hor := orNibble_toNat (m := m) (i := i) hv
  unfold nibble
  rw [hbyte, hor]
  rcases Nat.mod_two_eq_zero_or_one i with hi | hi
  · rw [if_pos hi, if_pos hi]
    by_cases hj : j = i
    · rw [if_pos hj, if_pos (hj ▸ hi), or_mod_sixteen, Nat.mod_eq_of_lt hv]
    · rw [if_neg hj, if_neg (show ¬ j % 2 = 0 by omega), or_div_sixteen, Nat.div_eq_of_lt hv,
        Nat.or_zero, if_neg (show ¬ j % 2 = 0 by omega)]
  · rw [if_neg (show ¬ i % 2 = 0 by omega), if_neg (show ¬ i % 2 = 0 by omega)]
    by_cases hj : j = i
    · rw [if_pos hj, if_neg (show ¬ j % 2 = 0 by omega), or_div_sixteen,
        Nat.mul_div_cancel _ (by decide)]
    · rw [if_neg hj, if_pos (show j % 2 = 0 by omega), or_mod_sixteen, Nat.mul_mod_left, Nat.or_zero,
        if_pos (show j % 2 = 0 by omega)]

end Toys.Lib
