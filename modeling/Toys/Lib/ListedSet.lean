import Mathlib

namespace Toys.Lib

/-!
# Library — a set listed by an array

The first elements of an array list a set, and each element of the set has its index.

* `Listed` — the array and the indices are inverses of each other;
* `Listed.append` — an element is added at the end;
* `Listed.remove` — an element is replaced with the last one.
-/

variable {α : Type} {S : Set α} {index index' : α → Nat} {elem elem' : Nat → α} {a : α} {i j n : Nat}

/-- The first `n` elements of the array are those of the set, each with its index. -/
structure Listed (S : Set α) (index : α → Nat) (elem : Nat → α) (n : Nat) : Prop where
  index_elem : ∀ i < n, index (elem i) = i
  mem : ∀ i < n, elem i ∈ S
  exists_index : ∀ a ∈ S, ∃ i < n, elem i = a

/-- The elements of the list are different. -/
theorem Listed.injective (h : Listed S index elem n) (hi : i < n) (hj : j < n)
    (heq : elem i = elem j) : i = j := by
  rw [← h.index_elem i hi, heq, h.index_elem j hj]

/-- The index of an element is in the list. -/
theorem Listed.index_lt (h : Listed S index elem n) (ha : a ∈ S) : index a < n := by
  rcases h.exists_index a ha with ⟨i, hi, rfl⟩
  rwa [h.index_elem i hi]

/-- The element at its index. -/
theorem Listed.elem_index (h : Listed S index elem n) (ha : a ∈ S) : elem (index a) = a := by
  rcases h.exists_index a ha with ⟨i, hi, rfl⟩
  rw [h.index_elem i hi]

/-- Only the indices of the elements of the set count. -/
theorem Listed.congr (h : Listed S index elem n) (hindex : ∀ a ∈ S, index' a = index a) :
    Listed S index' elem n where
  index_elem i hi := (hindex _ (h.mem i hi)).trans (h.index_elem i hi)
  mem := h.mem
  exists_index := h.exists_index

/-- An element is added at the end of the array. -/
theorem Listed.append (h : Listed S index elem n) (ha : index' a = n)
    (hindex : ∀ b ∈ S, index' b = index b) (helem : ∀ i < n, elem' i = elem i) (hn : elem' n = a) :
    Listed (insert a S) index' elem' (n + 1) := by
  constructor
  · intro i hi
    rcases Nat.lt_succ_iff_lt_or_eq.mp hi with hi | rfl
    · rw [helem i hi, hindex _ (h.mem i hi), h.index_elem i hi]
    · rw [hn, ha]
  · intro i hi
    rcases Nat.lt_succ_iff_lt_or_eq.mp hi with hi | rfl
    · rw [helem i hi]
      exact Set.mem_insert_of_mem a (h.mem i hi)
    · rw [hn]
      exact Set.mem_insert a S
  · intro b hb
    rcases Set.mem_insert_iff.mp hb with rfl | hb
    · exact ⟨n, Nat.lt_succ_self n, hn⟩
    · rcases h.exists_index b hb with ⟨i, hi, rfl⟩
      exact ⟨i, Nat.lt_succ_of_lt hi, helem i hi⟩

/-- An element that is not the last one is replaced with the last one, which is removed. -/
theorem Listed.remove (h : Listed S index elem (n + 1)) (ha : a ∈ S) (hlast : a ≠ elem n)
    (hindex : ∀ b ∈ S, b ≠ a → b ≠ elem n → index' b = index b)
    (hmoved : index' (elem n) = index a) (helem : ∀ i < n, i ≠ index a → elem' i = elem i)
    (helem' : elem' (index a) = elem n) : Listed (S \ {a}) index' elem' n := by
  have hlt : index a < n := by
    have hle := h.index_lt ha
    have hne : index a ≠ n := by
      rintro heq
      rw [← heq, h.elem_index ha] at hlast
      exact hlast rfl
    omega
  -- the elements before the last one, but the one that is removed
  have hother : ∀ i < n, i ≠ index a → elem i ≠ a ∧ elem i ≠ elem n := by
    intro i hi hne
    constructor
    · rintro rfl
      exact hne (h.index_elem i (by omega)).symm
    · intro heq
      have hin := h.injective (by omega) (by omega) heq
      omega
  constructor
  · intro i hi
    by_cases heq : i = index a
    · rw [heq, helem', hmoved]
    · rcases hother i hi heq with ⟨hne, hne'⟩
      rw [helem i hi heq, hindex _ (h.mem i (by omega)) hne hne', h.index_elem i (by omega)]
  · intro i hi
    by_cases heq : i = index a
    · rw [heq, helem']
      exact ⟨h.mem n (Nat.lt_succ_self n), fun hmem => hlast hmem.symm⟩
    · rw [helem i hi heq]
      exact ⟨h.mem i (by omega), (hother i hi heq).1⟩
  · rintro b ⟨hb, hne⟩
    rcases h.exists_index b hb with ⟨i, hi, rfl⟩
    by_cases hin : i = n
    · exact ⟨index a, hlt, by rw [helem', hin]⟩
    · have hia : i ≠ index a := by
        rintro rfl
        exact hne (h.elem_index ha)
      exact ⟨i, by omega, helem i (by omega) hia⟩

end Toys.Lib
