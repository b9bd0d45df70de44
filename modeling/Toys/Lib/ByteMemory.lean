import Mathlib

namespace Toys.Lib

/-!
# Library — byte-addressed memory and little-endian words

A memory is a total function from addresses to bytes.  Words of any width are read
and written in little-endian order:

* `load m n a` / `store m n a v` — the `n`-byte word at `a`;
* `copyIn m a bs` — the bytes `bs` written from address `a` on;
* `slice m a n` — the `n` bytes from `a` on, as a list;
* `littleEndian n v` — the bytes of an `n`-byte word.

Every access comes with its read-back lemma and its frame lemma.
-/

/-- Byte-addressed memory. -/
abbrev ByteMem := Nat → UInt8

namespace ByteMem

/-- The little-endian word made of the `n` bytes from address `a` on. -/
def load (m : ByteMem) : (n a : Nat) → Nat
  | 0, _ => 0
  | n + 1, a => (m a).toNat + 256 * load m n (a + 1)

/-- Write the `n` low bytes of `v` from address `a` on, lowest byte first. -/
def store (m : ByteMem) (n a v : Nat) : ByteMem := fun i =>
  if a ≤ i ∧ i < a + n then UInt8.ofNat (v / 256 ^ (i - a)) else m i

/-- Write the bytes `bs` from address `a` on. -/
def copyIn (m : ByteMem) (a : Nat) (bs : List UInt8) : ByteMem := fun i =>
  if a ≤ i ∧ i < a + bs.length then bs.getD (i - a) 0 else m i

/-- The `n` bytes from address `a` on. -/
def slice (m : ByteMem) (a n : Nat) : List UInt8 := (List.range n).map fun k => m (a + k)

/-! ### Words -/

/-- A word of `n` bytes is smaller than `256 ^ n`. -/
theorem load_lt (m : ByteMem) (n a : Nat) : load m n a < 256 ^ n := by
  induction n generalizing a with
  | zero => simp [load]
  | succ n ih =>
    have h1 := ih (a + 1)
    have h2 : (m a).toNat < 256 := UInt8.toNat_lt _
    simp only [load, pow_succ]
    omega

theorem load_congr {m m' : ByteMem} {n a : Nat} (h : ∀ i, a ≤ i → i < a + n → m i = m' i) :
    load m n a = load m' n a := by
  induction n generalizing a with
  | zero => rfl
  | succ n ih =>
    simp only [load]
    rw [h a (le_refl a) (by omega), ih fun i hi hn => h i (by omega) (by omega)]

/-- Storing a word keeps the other bytes. -/
theorem store_of_not_mem {m : ByteMem} {n a v i : Nat} (h : i < a ∨ a + n ≤ i) :
    store m n a v i = m i := by
  unfold store
  rw [if_neg (by omega)]

/-- The last `j` bytes of a stored word read back as its high part. -/
private theorem load_store_suffix (m : ByteMem) (n a v j k : Nat) (h : k + j = n) :
    load (store m n a v) j (a + k) = v / 256 ^ k % 256 ^ j := by
  induction j generalizing k with
  | zero => simp [load, Nat.mod_one]
  | succ j ih =>
    have hbyte : (store m n a v (a + k)).toNat = v / 256 ^ k % 256 := by
      unfold store
      rw [if_pos (by omega), Nat.add_sub_cancel_left]
      simp
    have hrest := ih (k + 1) (by omega)
    simp only [load, hbyte]
    rw [show a + k + 1 = a + (k + 1) by omega, hrest]
    rw [pow_succ 256 k, ← Nat.div_div_eq_div_mul, pow_succ', Nat.mod_mul]

/-- A word that was stored is loaded again, but for the bytes that do not fit. -/
theorem load_store_self (m : ByteMem) (n a v : Nat) :
    load (store m n a v) n a = v % 256 ^ n := by
  simpa using load_store_suffix m n a v n 0 (by omega)

/-- The byte `k` of a word. -/
theorem load_div_mod {m : ByteMem} {n a k : Nat} (h : k < n) :
    load m n a / 256 ^ k % 256 = (m (a + k)).toNat := by
  induction n generalizing a k with
  | zero => omega
  | succ n ih =>
    have hbyte : (m a).toNat < 256 := UInt8.toNat_lt _
    simp only [load]
    cases k with
    | zero => simp
    | succ k =>
      rw [pow_succ', ← Nat.div_div_eq_div_mul, Nat.add_mul_div_left _ _ (by decide : 0 < 256),
        Nat.div_eq_of_lt hbyte, Nat.zero_add, ih (by omega), Nat.add_assoc, Nat.add_comm 1 k]

/-- Storing the word that is already there changes nothing. -/
theorem store_load (m : ByteMem) (n a : Nat) : store m n a (load m n a) = m := by
  funext i
  unfold store
  split
  · obtain ⟨k, rfl⟩ : ∃ k, i = a + k := ⟨i - a, by omega⟩
    have hbyte := load_div_mod (m := m) (n := n) (a := a) (k := k) (by omega)
    rw [Nat.add_sub_cancel_left]
    apply UInt8.toNat.inj
    rw [← hbyte]
    simp
  · rfl

/-- Storing a word keeps the words apart from it. -/
theorem load_store_of_disjoint {m : ByteMem} {n a v k b : Nat} (h : b + k ≤ a ∨ a + n ≤ b) :
    load (store m n a v) k b = load m k b :=
  load_congr fun i hi hk => store_of_not_mem (by omega)

/-! ### Byte strings -/

@[simp] theorem slice_length (m : ByteMem) (a n : Nat) : (slice m a n).length = n := by
  simp [slice]

@[simp] theorem slice_zero (m : ByteMem) (a : Nat) : slice m a 0 = [] := rfl

theorem slice_add (m : ByteMem) (a n k : Nat) :
    slice m a (n + k) = slice m a n ++ slice m (a + n) k := by
  simp only [slice, List.range_add, List.map_append, List.map_map]
  congr 1
  exact List.map_congr_left fun i _ => by simp [Nat.add_assoc]

theorem slice_congr {m m' : ByteMem} {a n : Nat} (h : ∀ i, a ≤ i → i < a + n → m i = m' i) :
    slice m a n = slice m' a n :=
  List.map_congr_left fun k hk => h _ (by omega) (by have := List.mem_range.mp hk; omega)

/-- Copying bytes keeps the others. -/
theorem copyIn_of_not_mem {m : ByteMem} {a i : Nat} {bs : List UInt8}
    (h : i < a ∨ a + bs.length ≤ i) : copyIn m a bs i = m i := by
  unfold copyIn
  rw [if_neg (by omega)]

/-- Bytes that were copied are read again. -/
theorem slice_copyIn_self (m : ByteMem) (a : Nat) (bs : List UInt8) :
    slice (copyIn m a bs) a bs.length = bs := by
  refine List.ext_getElem (by simp) fun i h1 h2 => ?_
  simp only [slice, List.getElem_map, List.getElem_range, copyIn]
  rw [if_pos (by omega), Nat.add_sub_cancel_left, List.getD_eq_getElem _ _ h2]

/-- Copying bytes keeps the slices apart from them. -/
theorem slice_copyIn_of_disjoint {m : ByteMem} {a b n : Nat} {bs : List UInt8}
    (h : b + n ≤ a ∨ a + bs.length ≤ b) : slice (copyIn m a bs) b n = slice m b n :=
  slice_congr fun i hi hn => copyIn_of_not_mem (by omega)

/-- Copying bytes keeps the words apart from them. -/
theorem load_copyIn_of_disjoint {m : ByteMem} {a b n : Nat} {bs : List UInt8}
    (h : b + n ≤ a ∨ a + bs.length ≤ b) : load (copyIn m a bs) n b = load m n b :=
  load_congr fun i hi hn => copyIn_of_not_mem (by omega)

/-- Storing a word keeps the slices apart from it. -/
theorem slice_store_of_disjoint {m : ByteMem} {a b n k v : Nat}
    (h : b + n ≤ a ∨ a + k ≤ b) : slice (store m k a v) b n = slice m b n :=
  slice_congr fun i hi hn => store_of_not_mem (by omega)

end ByteMem

/-- The `n` low bytes of a value. -/
def littleEndian (n v : Nat) : List UInt8 := (List.range n).map fun i => UInt8.ofNat (v / 256 ^ i)

@[simp] theorem littleEndian_length (n v : Nat) : (littleEndian n v).length = n := by
  simp [littleEndian]

end Toys.Lib
