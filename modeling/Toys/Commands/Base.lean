import Mathlib
import Toys.Os.SystemCalls

namespace Toys.Commands

open Toys.Lib Toys.Os

/-!
# Commands — the functions of all the programs

The functions of `src/base.toy` that the commands use.  A system call is the function of the kernel
that handles it.

* `shReadToken` — the next word of a text;
* `shReadToken_cases` — a word is in the text, and is not empty;
* `status` — the status of the result of a system call;
* `ProgramMemory` — where the arguments of a program are.
-/

/-- The space character. -/
def BLANK : UInt8 := 32

/-- `while src < src_end && p(load8(src)) { src = src + 1; }`, when `n` bytes remain. -/
def skipBytes (p : UInt8 → Bool) (m : ByteMem) : (n src : Nat) → Nat
  | 0, src => src
  | n + 1, src => if p (m src) then skipBytes p m n (src + 1) else src

/-- `sh_read_token`: the word or `null`, and the variables `*length` and `*src_p`. -/
def shReadToken (m : ByteMem) (src srcEnd length : Nat) : Nat × Nat × Nat :=
  let token := skipBytes (· == BLANK) m (srcEnd - src) src
  if srcEnd ≤ token then (0, length, src)
  else
    let src := skipBytes (· != BLANK) m (srcEnd - token) token
    (token, src - token, src)

/-- `status`: `result >> 56`. -/
def status (result : Nat) : Nat := result / 2 ^ 56

/-- The memory of a program, as `os_spawn` and `entry` arrange it: the arguments, and the heap after
    them. -/
structure ProgramMemory (p : Process) (args argsEnd heap heapLimit : Nat) : Prop where
  begin_le : p.begin ≤ args
  args_le : args ≤ argsEnd
  argsEnd_le : argsEnd ≤ heap
  heap_le : heap ≤ heapLimit
  heapLimit_lt : heapLimit < p.end_

variable {p : UInt8 → Bool} {m : ByteMem} {n src srcEnd length : Nat}

/-- The bytes that are skipped, and the first one that is not. -/
theorem skipBytes_spec (p : UInt8 → Bool) (m : ByteMem) (n src : Nat) :
    src ≤ skipBytes p m n src ∧ skipBytes p m n src ≤ src + n ∧
      (∀ j, src ≤ j → j < skipBytes p m n src → p (m j) = true) ∧
      (skipBytes p m n src < src + n → p (m (skipBytes p m n src)) = false) := by
  induction n generalizing src with
  | zero =>
    refine ⟨le_refl _, le_refl _, ?_, ?_⟩
    · intro j h1 h2
      exact absurd h1 (not_le.mpr h2)
    · intro hlt
      exact absurd hlt (lt_irrefl _)
  | succ n ih =>
    rw [skipBytes]
    split_ifs with hp
    · rcases ih (src + 1) with ⟨hge, hle, hskipped, hstop⟩
      refine ⟨by omega, by omega, ?_, fun hlt => hstop (by omega)⟩
      intro j h1 h2
      rcases Nat.eq_or_lt_of_le h1 with rfl | h1
      · exact hp
      · exact hskipped j h1 h2
    · refine ⟨le_refl _, by omega, ?_, fun _ => eq_false_of_ne_true hp⟩
      intro j h1 h2
      exact absurd h1 (not_le.mpr h2)

/-- Either there is no word left, or the first one is returned. -/
theorem shReadToken_cases (m : ByteMem) (src srcEnd length : Nat) :
    ((∀ j, src ≤ j → j < srcEnd → m j = BLANK) ∧ shReadToken m src srcEnd length = (0, length, src)) ∨
    ∃ token size, shReadToken m src srcEnd length = (token, size, token + size) ∧
      src ≤ token ∧ 1 ≤ size ∧ token + size ≤ srcEnd ∧
      (∀ j, src ≤ j → j < token → m j = BLANK) ∧
      (∀ j, token ≤ j → j < token + size → m j ≠ BLANK) ∧
      (token + size < srcEnd → m (token + size) = BLANK) := by
  rcases skipBytes_spec (· == BLANK) m (srcEnd - src) src with ⟨hge, hle, hblanks, hstop⟩
  unfold shReadToken
  dsimp only
  by_cases hend : srcEnd ≤ skipBytes (· == BLANK) m (srcEnd - src) src
  · rw [if_pos hend]
    refine .inl ⟨fun j h1 h2 => ?_, rfl⟩
    exact beq_iff_eq.mp (hblanks j h1 (by omega))
  · rw [if_neg hend]
    generalize htoken : skipBytes (· == BLANK) m (srcEnd - src) src = token at *
    rcases skipBytes_spec (· != BLANK) m (srcEnd - token) token with ⟨hge', hle', hword, hstop'⟩
    have hfirst : m token ≠ BLANK := fun h => by
      have hne := hstop (by omega)
      rw [h, beq_self_eq_true] at hne
      cases hne
    -- the first byte of the word is not a blank
    have hpos : skipBytes (· != BLANK) m (srcEnd - token) token ≠ token := fun h => by
      have hne := hstop' (by omega)
      rw [h] at hne
      exact hfirst (bne_eq_false_iff_eq.mp hne)
    refine .inr ⟨token, skipBytes (· != BLANK) m (srcEnd - token) token - token, ?_, hge, by omega,
      by omega, fun j h1 h2 => beq_iff_eq.mp (hblanks j h1 h2), fun j h1 h2 => ?_, fun hlt => ?_⟩
    · rw [Nat.add_sub_cancel' hge']
    · exact bne_iff_ne.mp (hword j h1 (by omega))
    · rw [Nat.add_sub_cancel' hge'] at hlt ⊢
      exact bne_eq_false_iff_eq.mp (hstop' (by omega))

/-- A small result has the status `OK`. -/
@[simp] theorem status_of_lt {r : Nat} (h : r < 2 ^ 56) : status r = OK := Nat.div_eq_of_lt h

/-- The result of a call that failed does not have the status `OK`. -/
theorem status_ne_ok {r : Nat} (h : 2 ^ 56 ≤ r) : status r ≠ OK := by
  have hpos := Nat.div_pos h (by norm_num)
  exact Nat.pos_iff_ne_zero.mp hpos

end Toys.Commands
