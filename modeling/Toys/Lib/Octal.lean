import Mathlib

namespace Toys.Lib

/-!
# Library — octal numbers in a text

A number is printed in base 8, with leading zeros up to some width, and read back from its digits.

* `octal` — the conversions `%o` and `%0wo` of `printf`;
* `octalValue` — the number whose digits are in a text;
* `octalValue_octal` — the number that was printed;
* `length_octal_le`, `length_octal_eq` — the room that its digits take.
-/

/-- The character of a digit. -/
def digitChar (d : Nat) : UInt8 := UInt8.ofNat (48 + d)

/-- The digits of a number in base 8, at least `width` of them. -/
def octal (width n : Nat) : List UInt8 :=
  let digits := Nat.digits 8 n
  (digits ++ List.replicate (width - digits.length) 0).reverse.map digitChar

/-- The number whose digits in base 8 are in a text. -/
def octalValue (bs : List UInt8) : Nat := bs.foldl (fun v b => 8 * v + (b.toNat - 48)) 0

/-- A text made of digits in base 8. -/
def IsOctal (bs : List UInt8) : Prop := ∀ b ∈ bs, 48 ≤ b ∧ b ≤ 55

variable {d n k width : Nat} {ds : List Nat}

/-- The value of a digit. -/
theorem digitChar_toNat (h : d < 8) : (digitChar d).toNat = 48 + d :=
  UInt8.toNat_ofNat_of_lt' (show 48 + d < 256 by omega)

/-- A digit, after the ones before it. -/
theorem octalValue_concat (bs : List UInt8) (b : UInt8) :
    octalValue (bs ++ [b]) = 8 * octalValue bs + (b.toNat - 48) := by
  rw [octalValue, List.foldl_append]
  rfl

/-- The value of a text, from the list of its digits. -/
theorem octalValue_map (h : ∀ d ∈ ds, d < 8) :
    octalValue (ds.reverse.map digitChar) = Nat.ofDigits 8 ds := by
  induction ds with
  | nil => rfl
  | cons d ds ih =>
    have hd := digitChar_toNat (h d List.mem_cons_self)
    rw [List.reverse_cons, List.map_append, List.map_singleton, octalValue_concat, hd,
      ih fun d' hd' => h d' (List.mem_cons_of_mem _ hd'), Nat.ofDigits_cons]
    omega

/-- The digits that are printed. -/
theorem digits_lt (h : d ∈ Nat.digits 8 n ++ List.replicate k 0) : d < 8 := by
  rcases List.mem_append.mp h with h | h
  · exact Nat.digits_lt_base (by decide) h
  · rw [List.eq_of_mem_replicate h]
    decide

/-- The number that is printed is the one that is read. -/
theorem octalValue_octal : octalValue (octal width n) = n := by
  rw [octal, octalValue_map fun d hd => digits_lt hd, Nat.ofDigits_append, Nat.ofDigits_replicate_zero,
    Nat.mul_zero, Nat.add_zero, Nat.ofDigits_digits]

/-- What is printed are digits. -/
theorem isOctal_octal : IsOctal (octal width n) := by
  intro b hb
  obtain ⟨d, hd, rfl⟩ := List.mem_map.mp hb
  have hlt := digits_lt (List.mem_reverse.mp hd)
  have hvalue := digitChar_toNat hlt
  constructor
  · rw [UInt8.le_iff_toNat_le, hvalue]
    exact Nat.le_add_right 48 d
  · rw [UInt8.le_iff_toNat_le, hvalue]
    exact Nat.add_le_add_left (Nat.le_of_lt_succ hlt) 48

/-- The number of digits. -/
theorem length_octal : (octal width n).length = max width (Nat.digits 8 n).length := by
  rw [octal, List.length_map, List.length_reverse, List.length_append, List.length_replicate]
  omega

/-- A small number has few digits. -/
theorem length_octal_le (hw : width ≤ k) (h : n < 8 ^ k) : (octal width n).length ≤ k := by
  have hdigits := (Nat.digits_length_le_iff (by decide : 1 < 8) n).mpr h
  rw [length_octal]
  omega

/-- A small number takes the width that it was given. -/
theorem length_octal_eq (h : n < 8 ^ width) : (octal width n).length = width := by
  have hdigits := (Nat.digits_length_le_iff (by decide : 1 < 8) n).mpr h
  rw [length_octal]
  omega

end Toys.Lib
