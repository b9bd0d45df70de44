import Mathlib
import Toys.Lib.ByteMemory
import Toys.Lib.U64

namespace Toys.Edit

open Toys.Lib

/-!
# Editor — copying memory

`mem_copy` copies words of 8 bytes, then bytes, forwards or backwards according to the order of
the two ranges, which can overlap.

* `memCopy` — the function of the source;
* `Copied` — the state of the memory when a part of the bytes were copied;
* `memCopy_spec` — the memory at the end;
* `memCopy_overlapping` — the same for machine words, and `copyWordsForward_none` for the lengths
  for which `i + 8` wraps.

A loop that does not end within `bound` iterations gives `none`.
-/

variable {m m₀ m' : ByteMem} {src dst n i j k lo hi bound : Nat}

/-! ### The function -/

/-- The loop that copies words forwards, and the value of `i` at its end. -/
def copyWordsForward (src dst n : Nat) : (bound : Nat) → ByteMem → (i : Nat) → Option (ByteMem × Nat)
  | 0, _, _ => none
  | bound + 1, m, i =>
    if U64.add i 8 ≤ n then
      copyWordsForward src dst n bound
        (m.store 8 (U64.add dst i) (m.load 8 (U64.add src i))) (U64.add i 8)
    else some (m, i)

/-- The loop that copies bytes forwards. -/
def copyBytesForward (src dst n : Nat) : (bound : Nat) → ByteMem → (i : Nat) → Option ByteMem
  | 0, _, _ => none
  | bound + 1, m, i =>
    if i < n then
      copyBytesForward src dst n bound
        (m.store 1 (U64.add dst i) (m.load 1 (U64.add src i))) (U64.add i 1)
    else some m

/-- The loop that copies words backwards, and the value of `i` at its end. -/
def copyWordsBackward (src dst : Nat) : (bound : Nat) → ByteMem → (i : Nat) → Option (ByteMem × Nat)
  | 0, _, _ => none
  | bound + 1, m, i =>
    if i ≥ 8 then
      let i := U64.sub i 8
      copyWordsBackward src dst bound (m.store 8 (U64.add dst i) (m.load 8 (U64.add src i))) i
    else some (m, i)

/-- The loop that copies bytes backwards. -/
def copyBytesBackward (src dst : Nat) : (bound : Nat) → ByteMem → (i : Nat) → Option ByteMem
  | 0, _, _ => none
  | bound + 1, m, i =>
    if i > 0 then
      let i := U64.sub i 1
      copyBytesBackward src dst bound (m.store 1 (U64.add dst i) (m.load 1 (U64.add src i))) i
    else some m

/-- `mem_copy`. -/
def memCopy (bound : Nat) (m : ByteMem) (src dst n : Nat) : Option ByteMem :=
  if dst < src then
    match copyWordsForward src dst n bound m 0 with
    | none => none
    | some (m, i) => copyBytesForward src dst n bound m i
  else
    match copyWordsBackward src dst bound m n with
    | none => none
    | some (m, i) => copyBytesBackward src dst bound m i

/-! ### The invariant -/

/-- The bytes `lo` to `hi` were copied, from the memory `m₀`. -/
structure Copied (m₀ : ByteMem) (src dst lo hi : Nat) (m : ByteMem) : Prop where
  copied : ∀ j, lo ≤ j → j < hi → m (dst + j) = m₀ (src + j)
  frame : ∀ a, (a < dst + lo ∨ dst + hi ≤ a) → m a = m₀ a

theorem Copied.start : Copied m src dst k k m where
  copied := fun _ h1 h2 => absurd h1 (by omega)
  frame := fun _ _ => rfl

/-- A word of `k` bytes that is read is the one of the memory `m₀`. -/
theorem load_source (hsource : ∀ j, i ≤ j → j < i + k → m (src + j) = m₀ (src + j)) :
    m.load k (src + i) = m₀.load k (src + i) := by
  refine ByteMem.load_congr fun a h1 h2 => ?_
  have h := hsource (a - src) (by omega) (by omega)
  rwa [Nat.add_sub_cancel' (by omega)] at h

/-- The bytes of a word that is stored. -/
theorem store_load_apply (h1 : i ≤ j) (h2 : j < i + k) :
    m.store k (dst + i) (m₀.load k (src + i)) (dst + j) = m₀ (src + j) := by
  unfold ByteMem.store
  rw [if_pos (by omega)]
  have hbyte := ByteMem.load_div_mod (m := m₀) (n := k) (a := src + i) (k := j - i) (by omega)
  rw [show src + i + (j - i) = src + j by omega] at hbyte
  rw [show dst + j - (dst + i) = j - i by omega]
  apply UInt8.toNat.inj
  rw [← hbyte]
  simp

/-- What remains to be read, from a lower destination, is after the bytes that were written. -/
theorem Copied.forward (h : Copied m₀ src dst 0 i m) (hlt : dst < src) :
    Copied m₀ src dst 0 (i + k) (m.store k (dst + i) (m.load k (src + i))) := by
  have hload : m.load k (src + i) = m₀.load k (src + i) :=
    load_source fun j h1 h2 => h.frame _ (Or.inr (by omega))
  rw [hload]
  refine ⟨fun j h1 h2 => ?_, fun a ha => ?_⟩
  · by_cases hj : j < i
    · rw [ByteMem.store_of_not_mem (Or.inl (by omega))]
      exact h.copied j h1 hj
    · exact store_load_apply (by omega) h2
  · rw [ByteMem.store_of_not_mem (by omega)]
    exact h.frame a (by omega)

/-- What remains to be read, from a higher destination, is before the bytes that were written. -/
theorem Copied.backward (h : Copied m₀ src dst (i + k) n m) (hle : src ≤ dst) (hn : i + k ≤ n) :
    Copied m₀ src dst i n (m.store k (dst + i) (m.load k (src + i))) := by
  have hload : m.load k (src + i) = m₀.load k (src + i) :=
    load_source fun j h1 h2 => h.frame _ (Or.inl (by omega))
  rw [hload]
  refine ⟨fun j h1 h2 => ?_, fun a ha => ?_⟩
  · by_cases hj : j < i + k
    · exact store_load_apply h1 hj
    · rw [ByteMem.store_of_not_mem (Or.inr (by omega))]
      exact h.copied j (by omega) h2
  · rw [ByteMem.store_of_not_mem (by omega)]
    exact h.frame a (by omega)

/-! ### The loops -/

/-- Two ranges of `n` bytes in the address space. -/
structure InRange (src dst n : Nat) : Prop where
  src_le : src + n ≤ 2 ^ 64
  dst_le : dst + n ≤ 2 ^ 64

/-- The loop over the words, from the first one, keeps `Copied` and ends. -/
theorem copyWordsForward_spec (hr : InRange src dst n) (hlt : dst < src) (hn : n < 2 ^ 64 - 8)
    (h : Copied m₀ src dst 0 i m) (hi : i ≤ n) (hbound : n - i < bound) :
    ∃ m' i', copyWordsForward src dst n bound m i = some (m', i') ∧ i' ≤ n ∧
      Copied m₀ src dst 0 i' m' := by
  obtain ⟨hsrc, hdst⟩ := hr
  induction bound generalizing m i with
  | zero => omega
  | succ bound ih =>
    rw [copyWordsForward, U64.add_eq (show i + 8 < 2 ^ 64 by omega)]
    split_ifs with hword
    · rw [U64.add_eq (by omega), U64.add_eq (by omega)]
      exact ih (h.forward hlt) hword (by omega)
    · exact ⟨m, i, rfl, hi, h⟩

/-- The loop over the bytes that remain ends with the whole copy. -/
theorem copyBytesForward_spec (hr : InRange src dst n) (hlt : dst < src)
    (h : Copied m₀ src dst 0 i m) (hi : i ≤ n) (hbound : n - i < bound) :
    ∃ m', copyBytesForward src dst n bound m i = some m' ∧ Copied m₀ src dst 0 n m' := by
  obtain ⟨hsrc, hdst⟩ := hr
  induction bound generalizing m i with
  | zero => omega
  | succ bound ih =>
    rw [copyBytesForward]
    split_ifs with hbyte
    · rw [U64.add_eq (by omega), U64.add_eq (by omega), U64.add_eq (by omega)]
      exact ih (h.forward hlt) hbyte (by omega)
    · obtain rfl : i = n := by omega
      exact ⟨m, rfl, h⟩

/-- The loop over the words, from the last one, keeps `Copied` and ends. -/
theorem copyWordsBackward_spec (hr : InRange src dst n) (hle : src ≤ dst) (hn : n < 2 ^ 64)
    (h : Copied m₀ src dst i n m) (hi : i ≤ n) (hbound : i < bound) :
    ∃ m' i', copyWordsBackward src dst bound m i = some (m', i') ∧ i' ≤ n ∧ i' < bound ∧
      Copied m₀ src dst i' n m' := by
  obtain ⟨hsrc, hdst⟩ := hr
  induction bound generalizing m i with
  | zero => omega
  | succ bound ih =>
    rw [copyWordsBackward]
    split_ifs with hword
    · simp only [U64.sub_eq hword (by omega)]
      rw [U64.add_eq (by omega), U64.add_eq (by omega)]
      have hstep : Copied m₀ src dst (i - 8) n (m.store 8 (dst + (i - 8)) (m.load 8 (src + (i - 8)))) := by
        apply Copied.backward _ hle (by omega)
        rwa [Nat.sub_add_cancel hword]
      obtain ⟨m', i', heq, hle', hlt', h'⟩ := ih hstep (by omega) (by omega)
      exact ⟨m', i', heq, hle', by omega, h'⟩
    · exact ⟨m, i, rfl, hi, hbound, h⟩

/-- The loop over the bytes that remain ends with the whole copy. -/
theorem copyBytesBackward_spec (hr : InRange src dst n) (hle : src ≤ dst) (hn : n < 2 ^ 64)
    (h : Copied m₀ src dst i n m) (hi : i ≤ n) (hbound : i < bound) :
    ∃ m', copyBytesBackward src dst bound m i = some m' ∧ Copied m₀ src dst 0 n m' := by
  obtain ⟨hsrc, hdst⟩ := hr
  induction bound generalizing m i with
  | zero => omega
  | succ bound ih =>
    rw [copyBytesBackward]
    split_ifs with hbyte
    · simp only [U64.sub_eq (show 1 ≤ i from hbyte) (by omega)]
      rw [U64.add_eq (by omega), U64.add_eq (by omega)]
      have hstep : Copied m₀ src dst (i - 1) n (m.store 1 (dst + (i - 1)) (m.load 1 (src + (i - 1)))) := by
        apply Copied.backward _ hle (by omega)
        rwa [Nat.sub_add_cancel hbyte]
      exact ih hstep (by omega) (by omega)
    · obtain rfl : i = 0 := by omega
      exact ⟨m, rfl, h⟩

/-- The bytes at `dst` are those that were at `src`, and the other ones are as they were. -/
theorem memCopy_spec (hr : InRange src dst n) (hn : n < 2 ^ 64)
    (hforward : dst < src → n < 2 ^ 64 - 8) (hbound : n < bound) :
    ∃ m', memCopy bound m src dst n = some m' ∧ Copied m src dst 0 n m' := by
  unfold memCopy
  split_ifs with hlt
  · obtain ⟨m₁, i, heq, hi, h₁⟩ :=
      copyWordsForward_spec hr hlt (hforward hlt) Copied.start (Nat.zero_le n) (by omega)
    rw [heq]
    exact copyBytesForward_spec hr hlt h₁ hi (by omega)
  · have hle : src ≤ dst := not_lt.mp hlt
    obtain ⟨m₁, i, heq, hi, hi', h₁⟩ :=
      copyWordsBackward_spec hr hle hn Copied.start (le_refl n) hbound
    rw [heq]
    exact copyBytesBackward_spec hr hle hn h₁ hi hi'

/-- With a length of almost the whole address space `i + 8` wraps to 0, and the loop does not end. -/
theorem copyWordsForward_none (hn : 2 ^ 64 - 8 ≤ n) (hdvd : 8 ∣ i) (hi : i < 2 ^ 64) :
    copyWordsForward src dst n bound m i = none := by
  induction bound generalizing m i with
  | zero => rfl
  | succ bound ih =>
    have hnext : 8 ∣ U64.add i 8 := by
      unfold U64.add
      omega
    have hle : U64.add i 8 ≤ n := by
      have hlt := U64.add_lt i 8
      omega
    rw [copyWordsForward, if_pos hle]
    exact ih hnext (U64.add_lt i 8)

/-- The copy of the bytes of a range to another one that can overlap it. -/
theorem memCopy_overlapping (m : ByteMem) (src dst n : UInt64)
    (hr : InRange src.toNat dst.toNat n.toNat) (hforward : dst < src → n.toNat < 2 ^ 64 - 8)
    (hbound : n.toNat < bound) :
    ∃ m', memCopy bound m src.toNat dst.toNat n.toNat = some m' ∧
      (∀ j < n.toNat, m' (dst.toNat + j) = m (src.toNat + j)) ∧
      ∀ a, (a < dst.toNat ∨ dst.toNat + n.toNat ≤ a) → m' a = m a := by
  have hn : n.toNat < 2 ^ 64 := n.toNat_lt
  rcases memCopy_spec (m := m) hr hn hforward hbound with ⟨m', heq, hcopied, hframe⟩
  refine ⟨m', heq, fun j hj => hcopied j (Nat.zero_le j) hj, fun a ha => ?_⟩
  apply hframe
  rwa [Nat.add_zero]

/-- Two ranges of 12 bytes whose distance is less than 8. -/
theorem memCopy_overlapping_near :
    ∃ m', memCopy 13 UInt8.ofNat (100 : UInt64).toNat (97 : UInt64).toNat (12 : UInt64).toNat =
        some m' ∧
      (∀ j < (12 : UInt64).toNat, m' ((97 : UInt64).toNat + j) =
        UInt8.ofNat ((100 : UInt64).toNat + j)) ∧
      ∀ a, (a < (97 : UInt64).toNat ∨ (97 : UInt64).toNat + (12 : UInt64).toNat ≤ a) →
        m' a = UInt8.ofNat a :=
  memCopy_overlapping UInt8.ofNat 100 97 12 ⟨by decide, by decide⟩ (fun _ => by decide) (by decide)

/-- The copy of almost the whole address space to the address before it does not end. -/
theorem not_memCopy_returns :
    ¬ ∀ (m : ByteMem) (src dst n : UInt64), InRange src.toNat dst.toNat n.toNat →
      ∃ bound m', memCopy bound m src.toNat dst.toNat n.toNat = some m' := by
  intro h
  have hr : InRange (1 : UInt64).toNat (0 : UInt64).toNat (18446744073709551608 : UInt64).toNat :=
    ⟨by decide, by decide⟩
  rcases h (fun _ => 0) 1 0 18446744073709551608 hr with ⟨bound, m', heq⟩
  have hnone : copyWordsForward (1 : UInt64).toNat (0 : UInt64).toNat
      (18446744073709551608 : UInt64).toNat bound (fun _ => 0) 0 = none :=
    copyWordsForward_none (by decide) (Nat.dvd_zero 8) (by decide)
  rw [memCopy, if_pos (by decide), hnone] at heq
  cases heq

end Toys.Edit
