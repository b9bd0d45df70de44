import Mathlib
import Toys.Lib.Linked
import Toys.Toyc.Backend

namespace Toys.Toyc

open Toys.Lib

/-!
# The compiler — placeholders

The slots of the jumps whose target is not known yet are linked: each one contains its distance to
the one before it.

* `nextSlot` — the slot that `tc_fill_placeholders` visits after a slot;
* `fillSlots` — the code when some slots are filled;
* `PlaceholderRun` — the runs that extend and fill some lists, with other code in between;
* `Linked` — what holds in these runs;
* `tcFillPlaceholders_registered` — a list is filled, and nothing else changes.
-/

variable {env : Env} {b b' : Backend} {m : ByteMem} {K : List Nat} {head value p : Nat}

/-! ### One list -/

/-- The slot after a slot, or null. -/
def nextSlot (m : ByteMem) (p : Nat) : Nat :=
  if m.load 4 p = 0 then 0 else U64.sub p (m.load 4 p)

/-- The slots do not overlap, and the last one that was written is the first one. -/
def Descending (K : List Nat) : Prop := K.Pairwise fun p q => q + 4 ≤ p

/-- The code when some slots are filled. -/
def fillSlots (value : Nat) (m : ByteMem) (K : List Nat) : ByteMem :=
  K.foldl (fun m p => m.store 4 p (U64.sub value (p + 4))) m

/-- The next placeholder depends on the bytes of its slot only. -/
theorem nextSlot_congr {m' : ByteMem} (h : ∀ a, p ≤ a → a < p + 4 → m' a = m a) :
    nextSlot m' p = nextSlot m p := by
  unfold nextSlot
  rw [ByteMem.load_congr h]

/-- A store in another slot keeps it. -/
theorem nextSlot_store {q v : Nat} (h : q + 4 ≤ p ∨ p + 4 ≤ q) :
    nextSlot (m.store 4 p v) q = nextSlot m q := by
  unfold nextSlot
  rw [ByteMem.load_store_of_disjoint (by omega)]

/-- Filling the slots keeps the other bytes. -/
theorem fillSlots_apply {a : Nat} (h : ∀ p ∈ K, a < p ∨ p + 4 ≤ a) : fillSlots value m K a = m a := by
  induction K generalizing m with
  | nil => rfl
  | cons p K ih =>
    have hrest := ih (m := m.store 4 p (U64.sub value (p + 4)))
      fun q hq => h q (List.mem_cons_of_mem p hq)
    exact hrest.trans (ByteMem.store_of_not_mem (h p List.mem_cons_self))

/-- Filling the slots keeps the words apart from them. -/
theorem fillSlots_load_of_disjoint {q : Nat} (h : ∀ p ∈ K, q + 4 ≤ p ∨ p + 4 ≤ q) :
    (fillSlots value m K).load 4 q = m.load 4 q := by
  apply ByteMem.load_congr
  intro a hle hlt
  apply fillSlots_apply
  intro p hp
  have hdisjoint := h p hp
  omega

/-- Each slot gets the offset of the value. -/
theorem fillSlots_load (hK : Descending K) (hp : p ∈ K) :
    (fillSlots value m K).load 4 p = U64.sub value (p + 4) % 2 ^ 32 := by
  induction K generalizing m with
  | nil => cases hp
  | cons q K ih =>
    rcases List.pairwise_cons.mp hK with ⟨hq, hrest⟩
    rcases List.mem_cons.mp hp with rfl | hp
    · -- the slot is filled first, and the other ones are below it
      have hload := @fillSlots_load_of_disjoint
        (m.store 4 p (U64.sub value (p + 4))) K value p fun q hq' => .inr (hq q hq')
      exact hload.trans (ByteMem.load_store_self m 4 p _)
    · exact ih hrest hp

/-- There are fewer slots than addresses. -/
theorem Descending.length_le (hK : Descending K) {n : Nat} (hn : ∀ p ∈ K, 0 < p ∧ p ≤ n) :
    K.length ≤ n := by
  induction K generalizing n with
  | nil => exact Nat.zero_le n
  | cons p K ih =>
    rcases List.pairwise_cons.mp hK with ⟨hp, hrest⟩
    have hbound := hn p List.mem_cons_self
    have hlength := ih hrest (n := n - 1) fun q hq => by
      have hpos := hn q (List.mem_cons_of_mem p hq)
      have hlt := hp q hq
      omega
    rw [List.length_cons]
    omega

/-- The loop fills the slots of a list, and stops at its end. -/
theorem tcFillPlaceholdersLoop_path {n : Nat} (hpath : Path 0 (nextSlot b.code) head K 0)
    (hK : Descending K) (hcode : ∀ p ∈ K, inCode env p 4) (hn : K.length < n) :
    tcFillPlaceholdersLoop env value n head b =
      .ok ⟨⟩ { b with code := fillSlots value b.code K } := by
  induction K generalizing b head n with
  | nil =>
    cases hpath
    cases n with
    | zero => cases hn
    | succ n => rfl
  | cons p K ih =>
    cases n with
    | zero => cases hn
    | succ n =>
      rcases path_cons.mp hpath with ⟨rfl, hne, hnext⟩
      rcases List.pairwise_cons.mp hK with ⟨hp, hrest⟩
      have hin := hcode head List.mem_cons_self
      -- the value is stored after the offset is read
      let b₁ : Backend := { b with code := b.code.store 4 head (U64.sub value (head + 4)) }
      have hloop : tcFillPlaceholdersLoop env value (n + 1) head b =
          if b.code.load 4 head = 0 then .ok ⟨⟩ b₁
          else tcFillPlaceholdersLoop env value n (U64.sub head (b.code.load 4 head)) b₁ := by
        rw [tcFillPlaceholdersLoop]
        simp only [if_neg hne, load32, storeCode, if_pos hin, bind_apply, get_apply, pure_apply,
          modify_apply]
        split_ifs
        all_goals rfl
      have hpath₁ : Path 0 (nextSlot b₁.code) (nextSlot b.code head) K 0 :=
        hnext.congr fun q hq => nextSlot_store (.inl (hp q hq))
      have hnext₁ := ih (b := b₁) hpath₁ hrest (fun q hq => hcode q (List.mem_cons_of_mem head hq))
        (Nat.lt_of_succ_lt_succ hn)
      rw [hloop]
      by_cases hoffset : b.code.load 4 head = 0
      · -- the offset of the last slot is zero
        have hend : K = [] := by
          rw [nextSlot, if_pos hoffset] at hnext
          cases K with
          | nil => rfl
          | cons q K =>
            rcases path_cons.mp hnext with ⟨rfl, hq, _⟩
            exact absurd rfl hq
        rw [if_pos hoffset, hend]
        rfl
      · rw [if_neg hoffset]
        rw [nextSlot, if_neg hoffset] at hnext₁
        exact hnext₁

/-! ### Several lists -/

section
variable {ι : Type} {heads : ι → Nat} {slots : ι → List Nat} {i : ι}

/-- Each list leads to its slots, and all the slots are apart. -/
structure Linked (env : Env) (heads : ι → Nat) (slots : ι → List Nat) (b : Backend) : Prop where
  path : ∀ i, Path 0 (nextSlot b.code) (heads i) (slots i) 0
  descending : ∀ i, Descending (slots i)
  inCode : ∀ i, ∀ p ∈ slots i, inCode env p 4
  below : ∀ i, ∀ p ∈ slots i, p + 4 ≤ b.dst
  apart : ∀ i j, i ≠ j → ∀ p ∈ slots i, ∀ q ∈ slots j, p + 4 ≤ q ∨ q + 4 ≤ p

/-- The lists depend on the bytes of their slots only. -/
theorem Linked.congr (h : Linked env heads slots b)
    (hcode : ∀ i, ∀ p ∈ slots i, ∀ a, p ≤ a → a < p + 4 → b'.code a = b.code a)
    (hdst : ∀ i, ∀ p ∈ slots i, p + 4 ≤ b'.dst) : Linked env heads slots b' where
  path i := (h.path i).congr fun p hp => nextSlot_congr (hcode i p hp)
  descending := h.descending
  inCode := h.inCode
  below := hdst
  apart := h.apart

/-- What `tc_fill_placeholders` does to a list. -/
theorem Linked.fill_eq (h : Linked env heads slots b) (i : ι) (value : Nat) :
    tcFillPlaceholders env (heads i) value b =
      .ok ⟨⟩ { b with code := fillSlots value b.code (slots i) } := by
  apply tcFillPlaceholdersLoop_path (h.path i) (h.descending i) (h.inCode i)
  -- the head is the last slot that was written
  cases hslots : slots i with
  | nil => exact Nat.succ_pos _
  | cons p K =>
    have hpath := h.path i
    have hdescending := h.descending i
    have hcode := h.inCode i
    rw [hslots] at hpath hdescending hcode
    have hhead := (path_cons.mp hpath).1
    have hle : (p :: K).length ≤ heads i := by
      apply hdescending.length_le
      intro q hq
      have hpos := (hcode q hq).1
      have hstart := env.codeStart_pos
      refine ⟨by omega, ?_⟩
      rcases List.mem_cons.mp hq with rfl | hq
      · exact hhead.ge
      · have hlt := (List.pairwise_cons.mp hdescending).1 q hq
        omega
    omega

variable [DecidableEq ι]

/-- A slot is added to a list. -/
theorem Linked.place (h : Linked env heads slots b) (hspan : ∀ q ∈ slots i, b.dst < q + 2 ^ 32)
    (hplace : Placeholder env (heads i) b p b') :
    Linked env (Function.update heads i p) (Function.update slots i (p :: slots i)) b' := by
  rcases hplace with ⟨hw, rfl⟩
  have hdst : b'.dst = b.dst + 4 := by
    rw [hw.dst, littleEndian_length]
  have hin : Toyc.inCode env b.dst 4 := by
    have hcode := hw.inCode (List.ne_nil_of_length_pos (by simp))
    rwa [hdst] at hcode
  have hload : b'.code.load 4 b.dst = placeholderWord (heads i) b.dst % 2 ^ 32 :=
    load_of_slice (by rw [← hw.slice, littleEndian_length])
  have hsame : Linked env heads slots b' := by
    apply h.congr
    · intro j p hp a _ hlt
      have hle := h.below j p hp
      exact hw.code a (by omega)
    · intro j p hp
      have hle := h.below j p hp
      omega
  have hpos := env.codeStart_pos
  have hlimit := env.dstLimit_lt
  have hnext : nextSlot b'.code b.dst = heads i := by
    cases hslots : slots i with
    | nil =>
      -- the first slot contains zero
      have hnull : heads i = 0 := by
        have hpath := h.path i
        rwa [hslots] at hpath
      rw [hnull, placeholderWord, if_pos rfl] at hload
      have hzero : U64.sub b.dst b.dst % 2 ^ 32 = 0 := by
        rw [U64.sub_eq (le_refl _) (by have := hin.2; omega), Nat.sub_self, Nat.zero_mod]
      rw [nextSlot, if_pos (hload.trans hzero), hnull]
    | cons q K =>
      have hmem : q ∈ slots i := by
        rw [hslots]
        exact List.mem_cons_self
      have hq := h.path i
      rw [hslots] at hq
      rcases path_cons.mp hq with ⟨hhead, hne, _⟩
      have hle := h.below i q hmem
      have hlt := hspan q hmem
      have hb := hin.2
      rw [hhead, placeholderWord, if_neg hne, U64.sub_eq (by omega) (by omega),
        Nat.mod_eq_of_lt (by omega)] at hload
      rw [nextSlot, hload, if_neg (by omega), U64.sub_eq (by omega) (by omega), hhead]
      omega
  refine ⟨fun j => ?_, fun j => ?_, fun j => ?_, fun j => ?_, fun j k hjk => ?_⟩
  · by_cases hj : j = i
    · subst hj
      rw [Function.update_self, Function.update_self]
      apply path_cons.mpr
      refine ⟨rfl, ?_, ?_⟩
      · have hle := hin.1
        omega
      · rw [hnext]
        exact hsame.path j
    · rw [Function.update_of_ne hj, Function.update_of_ne hj]
      exact hsame.path j
  · by_cases hj : j = i
    · subst hj
      rw [Function.update_self]
      apply List.pairwise_cons.mpr
      exact ⟨h.below j, h.descending j⟩
    · rw [Function.update_of_ne hj]
      exact h.descending j
  · intro p hp
    by_cases hj : j = i
    · subst hj
      rw [Function.update_self] at hp
      rcases List.mem_cons.mp hp with rfl | hp
      · exact hin
      · exact h.inCode j p hp
    · rw [Function.update_of_ne hj] at hp
      exact h.inCode j p hp
  · intro p hp
    by_cases hj : j = i
    · subst hj
      rw [Function.update_self] at hp
      rcases List.mem_cons.mp hp with rfl | hp
      · exact hdst.ge
      · exact hsame.below j p hp
    · rw [Function.update_of_ne hj] at hp
      exact hsame.below j p hp
  · -- the new slot is above the other ones
    intro p hp q hq
    have hbelow : ∀ (k : ι) (q : Nat), q ∈ Function.update slots i (b.dst :: slots i) k →
        q ∈ slots k ∨ k = i ∧ q = b.dst := by
      intro k q hq
      by_cases hk : k = i
      · subst hk
        rw [Function.update_self] at hq
        rcases List.mem_cons.mp hq with rfl | hq
        · exact .inr ⟨rfl, rfl⟩
        · exact .inl hq
      · rw [Function.update_of_ne hk] at hq
        exact .inl hq
    rcases hbelow j p hp with hp' | ⟨rfl, rfl⟩
    · rcases hbelow k q hq with hq' | ⟨rfl, rfl⟩
      · exact h.apart j k hjk p hp' q hq'
      · exact .inl (h.below j p hp')
    · rcases hbelow k q hq with hq' | ⟨rfl, rfl⟩
      · exact .inr (h.below k q hq')
      · exact absurd rfl hjk

/-- A list is filled: it is empty, and the other ones are kept. -/
theorem Linked.fill (h : Linked env heads slots b) (i : ι) (value : Nat) :
    Linked env (Function.update heads i 0) (Function.update slots i [])
      { b with code := fillSlots value b.code (slots i) } := by
  have hkept : ∀ j, ∀ p ∈ Function.update slots i [] j, j ≠ i ∧ p ∈ slots j := by
    intro j p hp
    by_cases hj : j = i
    · subst hj
      rw [Function.update_self] at hp
      cases hp
    · rw [Function.update_of_ne hj] at hp
      exact ⟨hj, hp⟩
  refine ⟨fun j => ?_, fun j => ?_, fun j p hp => ?_, fun j p hp => ?_, fun j k hjk p hp q hq => ?_⟩
  · by_cases hj : j = i
    · subst hj
      rw [Function.update_self, Function.update_self]
      exact path_nil.mpr rfl
    · rw [Function.update_of_ne hj, Function.update_of_ne hj]
      apply (h.path j).congr
      intro p hp
      apply nextSlot_congr
      intro a hle hlt
      -- the slots of the other lists are apart from those that are filled
      apply fillSlots_apply
      intro q hq
      have hapart := h.apart j i hj p hp q hq
      omega
  · by_cases hj : j = i
    · subst hj
      rw [Function.update_self]
      exact List.Pairwise.nil
    · rw [Function.update_of_ne hj]
      exact h.descending j
  · exact h.inCode j p (hkept j p hp).2
  · exact h.below j p (hkept j p hp).2
  · exact h.apart j k hjk p (hkept j p hp).2 q (hkept k q hq).2

/-- The lists, the slots that are not filled, and the state after some steps.  Each list starts with a
    null pointer.  The distance between the slots of a list fits in 32 bits, and other code is written
    neither over a slot nor from an address before its end. -/
inductive PlaceholderRun (env : Env) : (ι → Nat) → (ι → List Nat) → Backend → Prop
  | start (b : Backend) : PlaceholderRun env (fun _ => 0) (fun _ => []) b
  | place {heads : ι → Nat} {slots : ι → List Nat} {b b' : Backend} {p : Nat} (i : ι)
      (h : PlaceholderRun env heads slots b) (hspan : ∀ q ∈ slots i, b.dst < q + 2 ^ 32)
      (hplace : tcWritePlaceholder env (heads i) b = .ok p b') :
      PlaceholderRun env (Function.update heads i p) (Function.update slots i (p :: slots i)) b'
  | other {heads : ι → Nat} {slots : ι → List Nat} {b b' : Backend}
      (h : PlaceholderRun env heads slots b)
      (hcode : ∀ i, ∀ p ∈ slots i, ∀ a, p ≤ a → a < p + 4 → b'.code a = b.code a)
      (hdst : ∀ i, ∀ p ∈ slots i, p + 4 ≤ b'.dst) : PlaceholderRun env heads slots b'
  | fill {heads : ι → Nat} {slots : ι → List Nat} {b b' : Backend} (i : ι) (value : Nat)
      (h : PlaceholderRun env heads slots b)
      (hfill : tcFillPlaceholders env (heads i) value b = .ok ⟨⟩ b') :
      PlaceholderRun env (Function.update heads i 0) (Function.update slots i []) b'

/-- Whatever is written in between, the lists are linked in the code. -/
theorem PlaceholderRun.linked (h : PlaceholderRun env heads slots b) : Linked env heads slots b := by
  induction h with
  | start b =>
    refine ⟨fun _ => path_nil.mpr rfl, fun _ => List.Pairwise.nil, ?_, ?_, ?_⟩
    · intro _ p hp
      cases hp
    · intro _ p hp
      cases hp
    · intro _ _ _ p hp
      cases hp
  | place i _ hspan hplace ih => exact ih.place hspan ((tcWritePlaceholder_post _).of_ok hplace)
  | other _ hcode hdst ih => exact ih.congr hcode hdst
  | fill i value _ hfill ih =>
    rw [ih.fill_eq] at hfill
    cases hfill
    exact ih.fill i value

/-- Each slot of the list gets the relative address of the value, and no other byte changes, those of
    the slots of the other lists in particular. -/
theorem tcFillPlaceholders_registered (h : PlaceholderRun env heads slots b) (i : ι) (value : Nat) :
    ∃ b', tcFillPlaceholders env (heads i) value b = .ok ⟨⟩ b' ∧
      (∀ p ∈ slots i, b'.code.load 4 p = U64.sub value (p + 4) % 2 ^ 32) ∧
      (∀ a, (∀ p ∈ slots i, a < p ∨ p + 4 ≤ a) → b'.code a = b.code a) ∧
      (∀ j, j ≠ i → ∀ p ∈ slots j, b'.code.load 4 p = b.code.load 4 p) ∧
      b' = { b with code := b'.code } := by
  have hlinked := h.linked
  refine ⟨_, hlinked.fill_eq i value, ?_, ?_, ?_, rfl⟩
  · intro p hp
    exact fillSlots_load (hlinked.descending i) hp
  · intro a ha
    exact fillSlots_apply ha
  · intro j hj p hp
    apply fillSlots_load_of_disjoint
    intro q hq
    exact hlinked.apart j i hj p hp q hq

end

/-- A buffer of 4096 bytes. -/
def smallEnv : Env where
  codeStart := 4096
  dstLimit := 8192
  codeStart_pos := by decide
  dstLimit_lt := by decide

/-- The state in which no code is written. -/
def startBackend : Backend := ⟨fun _ => 0, 4096, 4096, 0, 0⟩

/-- The state with some code. -/
def codeBackend (code : ByteMem) (dst : Nat) : Backend := { startBackend with code := code, dst := dst }

/-- Two slots of a list, and one of another list between them. -/
def threeSlots : ByteMem :=
  ((startBackend.code.store 4 4096 0).store 4 4100 0).store 4 4104 8

/-- The heads of two lists. -/
def threeHeads : Bool → Nat
  | true => 4104
  | false => 4100

/-- The slots of the two lists, interleaved in the code. -/
def threeLists : Bool → List Nat
  | true => [4104, 4096]
  | false => [4100]

/-- The run that makes them. -/
theorem threeSlots_run :
    PlaceholderRun smallEnv threeHeads threeLists (codeBackend threeSlots 4108) := by
  have hfirst : tcWritePlaceholder smallEnv 0 startBackend =
      .ok 4096 (codeBackend (startBackend.code.store 4 4096 0) 4100) := rfl
  have hother : tcWritePlaceholder smallEnv 0 (codeBackend (startBackend.code.store 4 4096 0) 4100) =
      .ok 4100 (codeBackend ((startBackend.code.store 4 4096 0).store 4 4100 0) 4104) := rfl
  have hsecond : tcWritePlaceholder smallEnv 4096
      (codeBackend ((startBackend.code.store 4 4096 0).store 4 4100 0) 4104) =
        .ok 4104 (codeBackend threeSlots 4108) := rfl
  have hrun := (((PlaceholderRun.start startBackend).place true (by simp) hfirst).place false
    (by simp) hother).place true (by decide) hsecond
  convert hrun using 1
  · ext i
    cases i
    all_goals rfl
  · ext1 i
    cases i
    all_goals rfl

/-- The theorem, for these two lists. -/
theorem tcFillPlaceholders_registered_three :
    ∃ b', tcFillPlaceholders smallEnv (threeHeads true) 5000 (codeBackend threeSlots 4108) =
        .ok ⟨⟩ b' ∧
      (∀ p ∈ threeLists true, b'.code.load 4 p = U64.sub 5000 (p + 4) % 2 ^ 32) ∧
      (∀ a, (∀ p ∈ threeLists true, a < p ∨ p + 4 ≤ a) →
        b'.code a = (codeBackend threeSlots 4108).code a) ∧
      (∀ j, j ≠ true → ∀ p ∈ threeLists j,
        b'.code.load 4 p = (codeBackend threeSlots 4108).code.load 4 p) ∧
      b' = { codeBackend threeSlots 4108 with code := b'.code } :=
  tcFillPlaceholders_registered threeSlots_run true 5000

end Toys.Toyc
