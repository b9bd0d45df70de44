import Mathlib
import Toys.Os.Nesting

namespace Toys.Os.Paging

open Toys.Lib

/-!
# Kernel — page tables

The functions of `src/toys/processes.toy` that make the pages of a process accessible to
programs.  They walk 4 levels of tables, from the one at the address in CR3, and set or clear
the User/Supervisor bit of one entry of each.  An entry of an upper level is shared by many
pages, so a pass that hides the pages of a parent also hides others.

* `setPageEntryUserMode`, ..., `osSetCurrentProcess` — the functions;
* `PagesSet` — what they do to the entries of the tables;
* `Isolated` — the invariant of the switches from one process to another;
* `pages_isolated` — the pages that are accessible are the ones of the current process;
* `userPages_refines` — which is what the kernel model assumes of its `userPages`.
-/

/-- The bits of the physical address in an entry of a page table. -/
def PAGE_PHYSICAL_ADDRESS_MASK : Nat := 4503599627366400

/-- The bits of the offset of an entry in its table. -/
def OFFSET_MASK : Nat := 4088

/-- `not`. -/
def u64Not (x : Nat) : Nat := U64.sub 0 (U64.add x 1)

/-- `set_page_entry_user_mode`: the memory, and the address that is returned. -/
def setPageEntryUserMode (m : ByteMem) (entryP enabled : Nat) : ByteMem × Nat :=
  let m :=
    if enabled = 1 then m.store 8 entryP (m.load 8 entryP ||| 4)
    else m.store 8 entryP (m.load 8 entryP &&& u64Not 4)
  let m := m.store 8 entryP (m.load 8 entryP &&& u64Not (1 <<< 63))
  (m, m.load 8 entryP &&& PAGE_PHYSICAL_ADDRESS_MASK)

/-- `set_page_user_mode`, when CR3 is `cr3`. -/
def setPageUserMode (cr3 : Nat) (m : ByteMem) (address enabled : Nat) : ByteMem :=
  let table4 := cr3
  let (m, table3) :=
    setPageEntryUserMode m (U64.add table4 ((address >>> 36) &&& OFFSET_MASK)) enabled
  let (m, table2) :=
    setPageEntryUserMode m (U64.add table3 ((address >>> 27) &&& OFFSET_MASK)) enabled
  let (m, table1) :=
    setPageEntryUserMode m (U64.add table2 ((address >>> 18) &&& OFFSET_MASK)) enabled
  (setPageEntryUserMode m (U64.add table1 ((address >>> 9) &&& OFFSET_MASK)) enabled).1

/-- `set_pages_user_mode`.  Its last statement, which reloads CR3, does not change the memory. -/
def setPagesUserMode : (n cr3 : Nat) → (m : ByteMem) → (beginPage endPage enabled : Nat) →
    Option ByteMem
  | 0, _, _, _, _, _ => none
  | n + 1, cr3, m, beginPage, endPage, enabled =>
    if beginPage < endPage then
      setPagesUserMode n cr3 (setPageUserMode cr3 m beginPage enabled) (U64.add beginPage 4096)
        endPage enabled
    else some m

/-- The memory, page tables included, and the field `current_process` of the kernel. -/
structure Machine where
  memory : ByteMem
  currentProcess : Nat

/-- `os_set_current_process`, on the page tables. -/
def osSetCurrentProcess (n cr3 : Nat) (m : ByteMem) (process : Nat) : Option Machine :=
  let parent := (readProcess m process).parent
  let hidden :=
    if parent ≠ 0 then
      setPagesUserMode n cr3 m (readProcess m parent).begin (readProcess m parent).end_ 0
    else some m
  hidden.bind fun m =>
    (setPagesUserMode n cr3 m (readProcess m process).begin (readProcess m process).end_ 1).map
      fun m => ⟨m, process⟩

/-! ### The tree of tables -/

/-- The address bits of the entry at address `p`. -/
def physicalAddress (m : ByteMem) (p : Nat) : Nat := m.load 8 p &&& PAGE_PHYSICAL_ADDRESS_MASK

/-- The User/Supervisor bit of the entry at address `p`. -/
def userBit (m : ByteMem) (p : Nat) : Bool := (m.load 8 p).testBit 2

/-- The offset, in its table, of the entry of depth `d` for the address `a`. -/
def entryOffset (a d : Nat) : Nat := (a >>> (36 - 9 * d)) &&& OFFSET_MASK

/-- The address of the table of depth `d` for the address `a`; the root has depth 0. -/
def pageTable (m : ByteMem) (cr3 a : Nat) : Nat → Nat
  | 0 => cr3
  | d + 1 => physicalAddress m (pageTable m cr3 a d + entryOffset a d)

/-- The address of the entry of depth `d` on the path of the address `a`. -/
def pathEntry (m : ByteMem) (cr3 a d : Nat) : Nat := pageTable m cr3 a d + entryOffset a d

/-- Programs can access the page at address `a`: the bit is set in the 4 entries of its path. -/
def UserAccessible (m : ByteMem) (cr3 a : Nat) : Prop :=
  ∀ d < 4, userBit m (pathEntry m cr3 a d) = true

/-- A page of the Toys range `[lo, hi)`. -/
structure IsPage (lo hi a : Nat) : Prop where
  ge : lo ≤ a
  lt : a < hi
  aligned : a % 4096 = 0

/-- The tables map each page of the Toys range `[lo, hi)` to itself, in 4 levels.  Two tables
    are distinct, unless they are the same one of the tree, and outside of the Toys range. -/
structure PageTree (m : ByteMem) (cr3 lo hi : Nat) : Prop where
  root_aligned : cr3 % 4096 = 0
  root_lt : cr3 < 2 ^ 52
  identity : ∀ a, IsPage lo hi a → physicalAddress m (pathEntry m cr3 a 3) = a
  distinct : ∀ a b d d', IsPage lo hi a → IsPage lo hi b → d < 4 → d' < 4 →
    pageTable m cr3 a d = pageTable m cr3 b d' →
      d = d' ∧ a % 2 ^ 48 / 2 ^ (48 - 9 * d) = b % 2 ^ 48 / 2 ^ (48 - 9 * d)
  outside : ∀ a d, IsPage lo hi a → d < 4 →
    pageTable m cr3 a d + 4096 ≤ lo ∨ hi ≤ pageTable m cr3 a d

variable {n cr3 lo hi a b d d' p en : Nat} {m₀ m m' m'' : ByteMem}

/-- An entry is in its table. -/
theorem entryOffset_le : entryOffset a d ≤ 4088 := Nat.and_le_right

theorem entryOffset_mod : entryOffset a d % 8 = 0 := by
  have hmod := Nat.and_mod_two_pow (a := a >>> (36 - 9 * d)) (b := OFFSET_MASK) (n := 3)
  rw [show OFFSET_MASK % 2 ^ 3 = 0 by rfl, Nat.and_zero] at hmod
  exact hmod

/-- A physical address has 52 bits. -/
theorem physicalAddress_lt : physicalAddress m p < 2 ^ 52 :=
  Nat.lt_of_le_of_lt Nat.and_le_right (by decide)

theorem physicalAddress_mod : physicalAddress m p % 4096 = 0 := by
  have hmod := Nat.and_mod_two_pow (a := m.load 8 p) (b := PAGE_PHYSICAL_ADDRESS_MASK) (n := 12)
  rw [show PAGE_PHYSICAL_ADDRESS_MASK % 2 ^ 12 = 0 by rfl, Nat.and_zero] at hmod
  exact hmod

/-- Each table starts at a page. -/
theorem PageTree.table_mod (h : PageTree m cr3 lo hi) : pageTable m cr3 a d % 4096 = 0 := by
  cases d with
  | zero => exact h.root_aligned
  | succ d => exact physicalAddress_mod

theorem PageTree.table_lt (h : PageTree m cr3 lo hi) : pageTable m cr3 a d < 2 ^ 52 := by
  cases d with
  | zero => exact h.root_lt
  | succ d => exact physicalAddress_lt

/-- The sum of the source does not wrap. -/
theorem PageTree.add_eq (h : PageTree m cr3 lo hi) :
    U64.add (pageTable m cr3 a d) (entryOffset a d) = pathEntry m cr3 a d := by
  have hlt := h.table_lt (a := a) (d := d)
  have hle := entryOffset_le (a := a) (d := d)
  exact U64.add_eq (by omega)

/-- Two entries at the same address are in the same table, and at the same depth. -/
theorem PageTree.depth_eq (h : PageTree m cr3 lo hi) (ha : IsPage lo hi a) (hb : IsPage lo hi b)
    (hd : d < 4) (hd' : d' < 4) (heq : pathEntry m cr3 a d = pathEntry m cr3 b d') : d = d' := by
  have h1 := h.table_mod (a := a) (d := d)
  have h2 := h.table_mod (a := b) (d := d')
  have h3 := entryOffset_le (a := a) (d := d)
  have h4 := entryOffset_le (a := b) (d := d')
  unfold pathEntry at heq
  exact (h.distinct a b d d' ha hb hd hd' (by omega)).1

/-- The entry of the last level belongs to one page. -/
theorem PageTree.leaf_eq (h : PageTree m cr3 lo hi) (ha : IsPage lo hi a) (hb : IsPage lo hi b)
    (hd : d < 4) (heq : pathEntry m cr3 a 3 = pathEntry m cr3 b d) : a = b := by
  obtain rfl := h.depth_eq ha hb (by omega) hd heq
  rw [← h.identity a ha, ← h.identity b hb, heq]

/-! ### One page -/

/-- The bits of a complement. -/
theorem u64Not_testBit {x i : Nat} (h : x < 2 ^ 64) :
    (u64Not x).testBit i = (decide (i < 64) && !x.testBit i) := by
  have heq : u64Not x = 2 ^ 64 - (x + 1) := by
    unfold u64Not U64.sub U64.add
    omega
  rw [heq, Nat.testBit_two_pow_sub_succ h]

/-- The bits of the mask. -/
theorem mask_testBit {i : Nat} :
    PAGE_PHYSICAL_ADDRESS_MASK.testBit i = (decide (12 ≤ i) && decide (i - 12 < 40)) := by
  rw [show PAGE_PHYSICAL_ADDRESS_MASK = (2 ^ 40 - 1) <<< 12 by rfl, Nat.testBit_shiftLeft,
    Nat.testBit_two_pow_sub_one]

/-- The word that `setPageEntryUserMode` stores. -/
def updatedEntry (v enabled : Nat) : Nat :=
  (if enabled = 1 then v ||| 4 else v &&& u64Not 4) &&& u64Not (1 <<< 63)

/-- The User bit of an entry that was changed. -/
theorem updatedEntry_user {v : Nat} : (updatedEntry v en).testBit 2 = decide (en = 1) := by
  have hfour : (4 : Nat).testBit 2 = true := rfl
  have hhigh : (1 <<< 63 : Nat).testBit 2 = false := rfl
  unfold updatedEntry
  rw [Nat.testBit_and, u64Not_testBit (by decide), hhigh]
  split_ifs with hen
  · simp [hen, hfour]
  · rw [Nat.testBit_and, u64Not_testBit (by decide), hfour]
    simp [hen]

/-- The address of an entry that was changed. -/
theorem updatedEntry_address {v : Nat} :
    updatedEntry v en &&& PAGE_PHYSICAL_ADDRESS_MASK = v &&& PAGE_PHYSICAL_ADDRESS_MASK := by
  have hfour : ∀ i, 12 ≤ i → (4 : Nat).testBit i = false := fun i hi =>
    Nat.testBit_lt_two_pow (lt_of_lt_of_le (by decide : 4 < 2 ^ 12) (Nat.pow_le_pow_right (by decide) hi))
  have hhigh : ∀ i, i < 63 → (1 <<< 63 : Nat).testBit i = false := by
    intro i hi
    rw [Nat.testBit_shiftLeft]
    simp [Nat.not_le.mpr hi]
  apply Nat.eq_of_testBit_eq
  intro i
  rw [Nat.testBit_and, Nat.testBit_and, mask_testBit]
  by_cases hi : 12 ≤ i ∧ i - 12 < 40
  · -- neither bit 2 nor bit 63
    have h64 : i < 64 := by omega
    unfold updatedEntry
    rw [Nat.testBit_and, u64Not_testBit (by decide), hhigh i (by omega)]
    split_ifs
    · simp [hfour i hi.1, h64]
    · rw [Nat.testBit_and, u64Not_testBit (by decide), hfour i hi.1]
      simp [h64]
  · have hmask : (decide (12 ≤ i) && decide (i - 12 < 40)) = false := by
      simp only [Bool.and_eq_false_iff, decide_eq_false_iff_not]
      omega
    simp [hmask]

/-- `set_page_entry_user_mode` changes its entry. -/
theorem setPageEntryUserMode_load :
    (setPageEntryUserMode m p en).1.load 8 p = updatedEntry (m.load 8 p) en := by
  have hv : m.load 8 p < 2 ^ 64 := ByteMem.load_lt m 8 p
  have hor : m.load 8 p ||| 4 < 2 ^ 64 := Nat.or_lt_two_pow hv (by decide)
  have hand : m.load 8 p &&& u64Not 4 < 2 ^ 64 := lt_of_le_of_lt Nat.and_le_left hv
  unfold setPageEntryUserMode updatedEntry
  simp only [load_store_eq]
  split_ifs
  · rw [load_store_eq, Nat.mod_eq_of_lt hor, Nat.mod_eq_of_lt (lt_of_le_of_lt Nat.and_le_left hor)]
  · rw [load_store_eq, Nat.mod_eq_of_lt hand, Nat.mod_eq_of_lt (lt_of_le_of_lt Nat.and_le_left hand)]

/-- `set_page_entry_user_mode` keeps the rest of the memory. -/
theorem setPageEntryUserMode_of_not_mem {j : Nat} (h : j < p ∨ p + 8 ≤ j) :
    (setPageEntryUserMode m p en).1 j = m j := by
  unfold setPageEntryUserMode
  split_ifs <;> simp only [ByteMem.store_of_not_mem h]

/-- The address returned is the one that was in the entry. -/
theorem setPageEntryUserMode_snd : (setPageEntryUserMode m p en).2 = physicalAddress m p := by
  have hsnd : (setPageEntryUserMode m p en).2 =
      (setPageEntryUserMode m p en).1.load 8 p &&& PAGE_PHYSICAL_ADDRESS_MASK := rfl
  rw [hsnd, setPageEntryUserMode_load, updatedEntry_address]
  rfl

/-! ### Passes over the entries -/

/-- `p` is an entry of a table of the tree. -/
def IsEntry (m₀ : ByteMem) (cr3 lo hi p : Nat) : Prop :=
  ∃ a d i, IsPage lo hi a ∧ d < 4 ∧ i < 512 ∧ p = pageTable m₀ cr3 a d + 8 * i

/-- The entries have the address bits that they have in the tree. -/
def KeepsAddresses (m₀ : ByteMem) (cr3 lo hi : Nat) (m : ByteMem) : Prop :=
  ∀ p, IsEntry m₀ cr3 lo hi p → physicalAddress m p = physicalAddress m₀ p

/-- The entries of `S` get the User bit `en`, and nothing else changes in the tables, nor in
    the Toys range. -/
structure PagesSet (m₀ : ByteMem) (cr3 lo hi : Nat) (S : Nat → Prop) (en : Nat) (m m' : ByteMem) :
    Prop where
  user : ∀ p, IsEntry m₀ cr3 lo hi p → S p → userBit m' p = decide (en = 1)
  other : ∀ p, IsEntry m₀ cr3 lo hi p → ¬ S p → m'.load 8 p = m.load 8 p
  address : ∀ p, IsEntry m₀ cr3 lo hi p → physicalAddress m' p = physicalAddress m p
  frame : ∀ j, lo ≤ j → j < hi → m' j = m j

variable {S S' : Nat → Prop}

/-- No entry is changed. -/
theorem PagesSet.refl : PagesSet m₀ cr3 lo hi (fun _ => False) en m m where
  user := fun _ _ h => h.elim
  other := fun _ _ _ => rfl
  address := fun _ _ => rfl
  frame := fun _ _ _ => rfl

/-- Changes after changes. -/
theorem PagesSet.trans (h : PagesSet m₀ cr3 lo hi S en m m')
    (h' : PagesSet m₀ cr3 lo hi S' en m' m'') :
    PagesSet m₀ cr3 lo hi (fun p => S p ∨ S' p) en m m'' where
  user := by
    intro p hp hS
    by_cases hS' : S' p
    · exact h'.user p hp hS'
    · have hload := h'.other p hp hS'
      rw [userBit, hload]
      exact h.user p hp (hS.resolve_right hS')
  other := by
    intro p hp hS
    rw [h'.other p hp fun hS' => hS (Or.inr hS'), h.other p hp fun hS' => hS (Or.inl hS')]
  address := fun p hp => (h'.address p hp).trans (h.address p hp)
  frame := fun j h1 h2 => (h'.frame j h1 h2).trans (h.frame j h1 h2)

/-- The changes depend on the set of the entries only. -/
theorem PagesSet.congr (h : PagesSet m₀ cr3 lo hi S en m m') (hS : ∀ p, S p ↔ S' p) :
    PagesSet m₀ cr3 lo hi S' en m m' := by
  obtain rfl : S = S' := funext fun p => propext (hS p)
  exact h

/-- The changes keep the addresses of the tables. -/
theorem PagesSet.keeps (h : PagesSet m₀ cr3 lo hi S en m m')
    (hkeep : KeepsAddresses m₀ cr3 lo hi m) : KeepsAddresses m₀ cr3 lo hi m' :=
  fun p hp => (h.address p hp).trans (hkeep p hp)

/-- The entries on the path to a page are entries. -/
theorem pathEntry_isEntry (ha : IsPage lo hi a) (hd : d < 4) :
    IsEntry m₀ cr3 lo hi (pathEntry m₀ cr3 a d) := by
  have hle := entryOffset_le (a := a) (d := d)
  have hmod := entryOffset_mod (a := a) (d := d)
  exact ⟨a, d, entryOffset a d / 8, ha, hd, by omega, by unfold pathEntry; omega⟩

/-- An entry is aligned. -/
theorem PageTree.entry_mod (h : PageTree m₀ cr3 lo hi) (hp : IsEntry m₀ cr3 lo hi p) : p % 8 = 0 := by
  obtain ⟨a, d, i, -, -, -, rfl⟩ := hp
  have hmod := h.table_mod (a := a) (d := d)
  omega

/-- No entry is in the memory of the programs. -/
theorem PageTree.entry_outside (h : PageTree m₀ cr3 lo hi) (hp : IsEntry m₀ cr3 lo hi p) :
    p + 8 ≤ lo ∨ hi ≤ p := by
  obtain ⟨a, d, i, ha, hd, hi, rfl⟩ := hp
  have hout := h.outside a d ha hd
  omega

/-- The walk of the tables follows the address bits. -/
theorem KeepsAddresses.pathEntry_eq (h : KeepsAddresses m₀ cr3 lo hi m) (ha : IsPage lo hi a)
    (hd : d < 4) : pathEntry m cr3 a d = pathEntry m₀ cr3 a d := by
  induction d with
  | zero => rfl
  | succ d ih =>
    have hprev := ih (by omega)
    have htable : pageTable m cr3 a (d + 1) = pageTable m₀ cr3 a (d + 1) := by
      show physicalAddress m (pathEntry m cr3 a d) = physicalAddress m₀ (pathEntry m₀ cr3 a d)
      rw [hprev]
      exact h _ (pathEntry_isEntry ha (by omega))
    unfold pathEntry
    rw [htable]

/-- Changing one entry. -/
theorem setPageEntryUserMode_pagesSet (h : PageTree m₀ cr3 lo hi) (hp : IsEntry m₀ cr3 lo hi p) :
    PagesSet m₀ cr3 lo hi (fun q => q = p) en m (setPageEntryUserMode m p en).1 := by
  have hmod := h.entry_mod hp
  -- the other entries do not overlap this one
  have hother : ∀ q, IsEntry m₀ cr3 lo hi q → q ≠ p →
      (setPageEntryUserMode m p en).1.load 8 q = m.load 8 q := by
    intro q hq hne
    have hmod' := h.entry_mod hq
    exact ByteMem.load_congr fun j h1 h2 => setPageEntryUserMode_of_not_mem (by omega)
  refine ⟨?_, hother, ?_, ?_⟩
  · rintro q - rfl
    rw [userBit, setPageEntryUserMode_load]
    exact updatedEntry_user
  · intro q hq
    by_cases hne : q = p
    · rw [hne, physicalAddress, setPageEntryUserMode_load]
      exact updatedEntry_address
    · rw [physicalAddress, hother q hq hne]
      rfl
  · intro j h1 h2
    have hout := h.entry_outside hp
    exact setPageEntryUserMode_of_not_mem (by omega)

/-- The entries of the path of a page. -/
theorem setPageUserMode_pagesSet (h : PageTree m₀ cr3 lo hi) (hkeep : KeepsAddresses m₀ cr3 lo hi m)
    (ha : IsPage lo hi a) :
    PagesSet m₀ cr3 lo hi (fun p => ∃ d < 4, p = pathEntry m₀ cr3 a d) en m
      (setPageUserMode cr3 m a en) := by
  have hadd : ∀ d, U64.add (pageTable m₀ cr3 a d) (entryOffset a d) = pathEntry m₀ cr3 a d :=
    fun d => h.add_eq
  -- one level of the tables: the entry is set, and gives the table of the next level
  have hstep : ∀ {m : ByteMem} (d : Nat), d < 4 → KeepsAddresses m₀ cr3 lo hi m →
      PagesSet m₀ cr3 lo hi (fun p => p = pathEntry m₀ cr3 a d) en m
        (setPageEntryUserMode m (pathEntry m₀ cr3 a d) en).1 ∧
      (setPageEntryUserMode m (pathEntry m₀ cr3 a d) en).2 = pageTable m₀ cr3 a (d + 1) := by
    intro m d hd hkeep
    have hentry : IsEntry m₀ cr3 lo hi (pathEntry m₀ cr3 a d) := pathEntry_isEntry ha hd
    refine ⟨setPageEntryUserMode_pagesSet h hentry, ?_⟩
    rw [setPageEntryUserMode_snd]
    exact hkeep _ hentry
  obtain ⟨h4, hp3⟩ := hstep 0 (by omega) hkeep
  obtain ⟨h3, hp2⟩ := hstep 1 (by omega) (h4.keeps hkeep)
  obtain ⟨h2, hp1⟩ := hstep 2 (by omega) (h3.keeps (h4.keeps hkeep))
  obtain ⟨h1, -⟩ := hstep 3 (by omega) (h2.keeps (h3.keeps (h4.keeps hkeep)))
  have heq : setPageUserMode cr3 m a en = (setPageEntryUserMode
      (setPageEntryUserMode (setPageEntryUserMode (setPageEntryUserMode m
        (pathEntry m₀ cr3 a 0) en).1 (pathEntry m₀ cr3 a 1) en).1
        (pathEntry m₀ cr3 a 2) en).1 (pathEntry m₀ cr3 a 3) en).1 := by
    have h0 : U64.add cr3 ((a >>> 36) &&& OFFSET_MASK) = pathEntry m₀ cr3 a 0 := hadd 0
    have h1 : ∀ t, t = pageTable m₀ cr3 a 1 →
        U64.add t ((a >>> 27) &&& OFFSET_MASK) = pathEntry m₀ cr3 a 1 := fun t ht => ht ▸ hadd 1
    have h2 : ∀ t, t = pageTable m₀ cr3 a 2 →
        U64.add t ((a >>> 18) &&& OFFSET_MASK) = pathEntry m₀ cr3 a 2 := fun t ht => ht ▸ hadd 2
    have h3 : ∀ t, t = pageTable m₀ cr3 a 3 →
        U64.add t ((a >>> 9) &&& OFFSET_MASK) = pathEntry m₀ cr3 a 3 := fun t ht => ht ▸ hadd 3
    unfold setPageUserMode
    simp only [h0, h1 _ hp3, h2 _ hp2, h3 _ hp1]
  rw [heq]
  refine (((h4.trans h3).trans h2).trans h1).congr fun p => ⟨?_, ?_⟩
  · rintro (((h | h) | h) | h)
    · exact ⟨0, by omega, h⟩
    · exact ⟨1, by omega, h⟩
    · exact ⟨2, by omega, h⟩
    · exact ⟨3, by omega, h⟩
  · rintro ⟨d, hd, rfl⟩
    interval_cases d <;> simp

/-- The entries on the paths of the pages of `[b, e)`. -/
def OnPath (m₀ : ByteMem) (cr3 b e p : Nat) : Prop :=
  ∃ a d, b ≤ a ∧ a < e ∧ a % 4096 = 0 ∧ d < 4 ∧ p = pathEntry m₀ cr3 a d

/-- `set_pages_user_mode` changes the entries on the paths to the pages of its range. -/
theorem setPagesUserMode_pagesSet {b e : Nat} (h : PageTree m₀ cr3 lo hi)
    (hkeep : KeepsAddresses m₀ cr3 lo hi m) (hb : b % 4096 = 0) (he : e % 4096 = 0) (hlo : lo ≤ b)
    (hhi : e ≤ hi) (hlt : e < 2 ^ 64) (hrun : setPagesUserMode n cr3 m b e en = some m') :
    PagesSet m₀ cr3 lo hi (OnPath m₀ cr3 b e) en m m' := by
  induction n generalizing b m with
  | zero => cases hrun
  | succ n ih =>
    unfold setPagesUserMode at hrun
    split_ifs at hrun with hbe
    · have hpage : PagesSet m₀ cr3 lo hi (fun p => ∃ d < 4, p = pathEntry m₀ cr3 b d) en m
          (setPageUserMode cr3 m b en) := setPageUserMode_pagesSet h hkeep ⟨hlo, by omega, hb⟩
      rw [U64.add_eq (by omega)] at hrun
      have hrest := ih (hpage.keeps hkeep) (by omega) (by omega) hrun
      refine (hpage.trans hrest).congr fun p => ⟨?_, ?_⟩
      · rintro (⟨d, hd, rfl⟩ | ⟨a, d, h1, h2, h3, hd, rfl⟩)
        · exact ⟨b, d, le_rfl, hbe, hb, hd, rfl⟩
        · exact ⟨a, d, by omega, h2, h3, hd, rfl⟩
      · rintro ⟨a, d, h1, h2, h3, hd, rfl⟩
        rcases Nat.eq_or_lt_of_le h1 with rfl | h1
        · exact Or.inl ⟨d, hd, rfl⟩
        · exact Or.inr ⟨a, d, by omega, h2, h3, hd, rfl⟩
    · cases hrun
      refine PagesSet.refl.congr fun p => ⟨False.elim, ?_⟩
      rintro ⟨a, d, h1, h2, -⟩
      omega

/-- The loop ends. -/
theorem setPagesUserMode_isSome {b e : Nat} (hb : b % 4096 = 0) (he : e % 4096 = 0)
    (hlt : e < 2 ^ 64) (hn : e ≤ b + 4096 * n) :
    (setPagesUserMode (n + 1) cr3 m b e en).isSome := by
  induction n generalizing b m with
  | zero =>
    unfold setPagesUserMode
    rw [if_neg (by omega)]
    rfl
  | succ n ih =>
    unfold setPagesUserMode
    split_ifs with hbe
    · rw [U64.add_eq (by omega)]
      exact ih (by omega) (by omega)
    · rfl

/-! ### Switches -/

/-- The memory of a process. -/
structure PageRange where
  begin : Nat
  end_ : Nat

/-- The addresses of a range. -/
instance : Membership Nat PageRange := ⟨fun r a => r.begin ≤ a ∧ a < r.end_⟩

/-- Whether an address is in a range can be decided. -/
instance {a : Nat} {r : PageRange} : Decidable (a ∈ r) :=
  inferInstanceAs (Decidable (r.begin ≤ a ∧ a < r.end_))

/-- `r` is a part of `r'`. -/
def PageRange.Within (r r' : PageRange) : Prop := r'.begin ≤ r.begin ∧ r.end_ ≤ r'.end_

/-- The ranges, from the one of the current process to the one of the first process, are made of
    whole pages of the Toys range, not empty, and nested. -/
structure NestedPages (lo hi : Nat) (rs : List PageRange) : Prop where
  aligned : ∀ r ∈ rs, r.begin % 4096 = 0 ∧ r.end_ % 4096 = 0
  nonempty : ∀ r ∈ rs, r.begin < r.end_
  inside : ∀ r ∈ rs, lo ≤ r.begin ∧ r.end_ ≤ hi
  nested : rs.IsChain PageRange.Within

/-- The records of the parent chain, from the one of `p` on, are in the Toys range, and have the
    ranges `rs`. -/
def ProcessChain (m : ByteMem) (lo hi : Nat) : Nat → List PageRange → Prop
  | p, [] => p = 0
  | p, r :: rs => p ≠ 0 ∧ lo ≤ p ∧ p + 80 ≤ hi ∧ (readProcess m p).begin = r.begin ∧
      (readProcess m p).end_ = r.end_ ∧ ProcessChain m lo hi (readProcess m p).parent rs

/-- The tables have the same bytes in `m` and in `m'`. -/
def SameTables (m₀ : ByteMem) (cr3 lo hi : Nat) (m m' : ByteMem) : Prop :=
  ∀ a d j, IsPage lo hi a → d < 4 → pageTable m₀ cr3 a d ≤ j → j < pageTable m₀ cr3 a d + 4096 →
    m' j = m j

/-- The calls of `os_set_current_process` that a successful `os_spawn` or `os_exit` can make next,
    with the memory `m` and the process `p`: the rest of the memory can change in between. -/
inductive NextCall (m₀ : ByteMem) (cr3 lo hi : Nat) (k : Machine) :
    List PageRange → ByteMem → Nat → List PageRange → Prop
  | spawn {rs : List PageRange} {m : ByteMem} {p : Nat} {r : PageRange}
      (htables : SameTables m₀ cr3 lo hi k.memory m) (hchain : ProcessChain m lo hi p (r :: rs))
      (hparent : (readProcess m p).parent = k.currentProcess)
      (hnested : NestedPages lo hi (r :: rs)) : NextCall m₀ cr3 lo hi k rs m p (r :: rs)
  | exit {rs : List PageRange} {m : ByteMem} {r r' : PageRange}
      (htables : SameTables m₀ cr3 lo hi k.memory m)
      (hchain : ProcessChain m lo hi k.currentProcess (r :: r' :: rs)) :
      NextCall m₀ cr3 lo hi k (r :: r' :: rs) m (readProcess m k.currentProcess).parent (r' :: rs)

/-- The states after the calls of `os_set_current_process`, from the memory `m₀` on, and the
    ranges of the processes of the parent chain. -/
inductive Switches (m₀ : ByteMem) (cr3 lo hi : Nat) : Machine → List PageRange → Prop
  | start : Switches m₀ cr3 lo hi ⟨m₀, 0⟩ []
  | call {n : Nat} {k k' : Machine} {rs rs' : List PageRange} {m : ByteMem} {p : Nat}
      (h : Switches m₀ cr3 lo hi k rs) (hcall : NextCall m₀ cr3 lo hi k rs m p rs')
      (hrun : osSetCurrentProcess n cr3 m p = some k') : Switches m₀ cr3 lo hi k' rs'

/-- Initially, each page of the Toys range that is not in `first` has a clear User bit in an entry
    that is not on the path of a page of `first`. -/
def Protected (m₀ : ByteMem) (cr3 lo hi : Nat) (first : PageRange) : Prop :=
  ∀ a, IsPage lo hi a → a ∉ first →
    ∃ d < 4, ¬ OnPath m₀ cr3 first.begin first.end_ (pathEntry m₀ cr3 a d) ∧
      userBit m₀ (pathEntry m₀ cr3 a d) = false

/-- The User bits, after a call. -/
structure Isolated (m₀ : ByteMem) (cr3 lo hi : Nat) (m : ByteMem) (rs : List PageRange) : Prop where
  nested : NestedPages lo hi rs
  address : KeepsAddresses m₀ cr3 lo hi m
  /-- The entries that no page of the first process uses are not changed. -/
  others : ∀ p, IsEntry m₀ cr3 lo hi p →
    (∀ first ∈ rs.getLast?, ¬ OnPath m₀ cr3 first.begin first.end_ p) → userBit m p = userBit m₀ p
  /-- At the last level, only the entries of the current process have the bit. -/
  leaf : ∀ first ∈ rs.getLast?, ∀ a, IsPage lo hi a → a ∈ first →
    userBit m (pathEntry m₀ cr3 a 3) = true → ∀ r ∈ rs.head?, a ∈ r
  user : ∀ r ∈ rs.head?, ∀ a, a % 4096 = 0 → a ∈ r → ∀ d < 4,
    userBit m (pathEntry m₀ cr3 a d) = true

variable {k k' : Machine} {q r first : PageRange} {rs rs' rest : List PageRange}

/-- The addresses of a range are between its bounds. -/
theorem PageRange.mem_iff : a ∈ r ↔ r.begin ≤ a ∧ a < r.end_ := Iff.rfl

/-- A range has the addresses of the ranges in it. -/
theorem PageRange.Within.mem (h : r.Within q) (ha : a ∈ r) : a ∈ q :=
  ⟨le_trans h.1 ha.1, lt_of_lt_of_le ha.2 h.2⟩

/-- Ranges are nested transitively. -/
instance : IsTrans PageRange PageRange.Within :=
  ⟨fun _ _ _ h h' => ⟨le_trans h'.1 h.1, le_trans h.2 h'.2⟩⟩

/-- The ranges of the ancestors are nested. -/
theorem NestedPages.tail (h : NestedPages lo hi (r :: rs)) : NestedPages lo hi rs where
  aligned := fun r hr => h.aligned r (List.mem_cons_of_mem _ hr)
  nonempty := fun r hr => h.nonempty r (List.mem_cons_of_mem _ hr)
  inside := fun r hr => h.inside r (List.mem_cons_of_mem _ hr)
  nested := h.nested.tail

/-- All the ranges are in the first one. -/
theorem NestedPages.within_last (h : NestedPages lo hi rs) (hr : r ∈ rs)
    (hfirst : first ∈ rs.getLast?) : r.Within first := by
  obtain ⟨init, rfl⟩ := List.getLast?_eq_some_iff.mp hfirst
  rcases List.mem_append.mp hr with hr | hr
  · have hpairwise := List.isChain_iff_pairwise.mp h.nested
    exact (List.pairwise_append.mp hpairwise).2.2 r hr first (List.mem_singleton_self _)
  · rw [List.mem_singleton.mp hr]
    exact ⟨le_rfl, le_rfl⟩

/-- The entries of a part of a range. -/
theorem OnPath.mono {b e b' e' : Nat} (h : OnPath m₀ cr3 b e p) (hb : b' ≤ b) (he : e ≤ e') :
    OnPath m₀ cr3 b' e' p := by
  obtain ⟨a, d, h1, h2, h3, hd, rfl⟩ := h
  exact ⟨a, d, by omega, by omega, h3, hd, rfl⟩

/-- Programs that store in their pages keep the entries. -/
theorem SameTables.load_eq (h : SameTables m₀ cr3 lo hi m m') (hp : IsEntry m₀ cr3 lo hi p) :
    m'.load 8 p = m.load 8 p := by
  obtain ⟨a, d, i, ha, hd, hi, rfl⟩ := hp
  exact ByteMem.load_congr fun j h1 h2 => h a d j ha hd (by omega) (by omega)

/-- What is not in the tables does not matter. -/
theorem Isolated.sameTables (h : Isolated m₀ cr3 lo hi m rs)
    (htables : SameTables m₀ cr3 lo hi m m') : Isolated m₀ cr3 lo hi m' rs := by
  have hbit : ∀ p, IsEntry m₀ cr3 lo hi p → userBit m' p = userBit m p := by
    intro p hp
    rw [userBit, htables.load_eq hp]
    rfl
  refine ⟨h.nested, fun p hp => ?_, fun p hp hfirst => ?_, fun first hfirst a ha hmem huser => ?_,
    fun r hr a ha hmem d hd => ?_⟩
  · rw [physicalAddress, htables.load_eq hp]
    exact h.address p hp
  · rw [hbit p hp]
    exact h.others p hp hfirst
  · rw [hbit _ (pathEntry_isEntry ha (by omega))] at huser
    exact h.leaf first hfirst a ha hmem huser
  · obtain ⟨hlo, hhi⟩ := h.nested.inside r (List.mem_of_mem_head? hr)
    have hpage : IsPage lo hi a := ⟨le_trans hlo hmem.1, lt_of_lt_of_le hmem.2 hhi, ha⟩
    rw [hbit _ (pathEntry_isEntry hpage hd)]
    exact h.user r hr a ha hmem d hd

/-- The two passes of the function. -/
theorem osSetCurrentProcess_pagesSet (h : PageTree m₀ cr3 lo hi)
    (hkeep : KeepsAddresses m₀ cr3 lo hi m) (hchain : ProcessChain m lo hi p (q :: rest))
    (hnested : NestedPages lo hi (q :: rest)) (hrun : osSetCurrentProcess n cr3 m p = some k) :
    k.currentProcess = p ∧ ∃ m₁,
      PagesSet m₀ cr3 lo hi (fun p => ∃ g ∈ rest.head?, OnPath m₀ cr3 g.begin g.end_ p) 0 m m₁ ∧
      PagesSet m₀ cr3 lo hi (OnPath m₀ cr3 q.begin q.end_) 1 m₁ k.memory := by
  obtain ⟨hp, hlo, hhi, hbegin, hend, hparent⟩ := hchain
  obtain ⟨m₁, hhidden, hshown⟩ := Option.bind_eq_some_iff.mp hrun
  obtain ⟨m₂, hset, rfl⟩ := Option.map_eq_some_iff.mp hshown
  have hfirst : PagesSet m₀ cr3 lo hi
      (fun p => ∃ g ∈ rest.head?, OnPath m₀ cr3 g.begin g.end_ p) 0 m m₁ := by
    cases rest with
    | nil =>
      have hnull : (readProcess m p).parent = 0 := hparent
      rw [if_neg (not_not.mpr hnull)] at hhidden
      cases hhidden
      exact PagesSet.refl.congr fun p => ⟨False.elim, by simp⟩
    | cons g rest =>
      obtain ⟨hne, -, -, hgbegin, hgend, -⟩ := hparent
      rw [if_pos hne, hgbegin, hgend] at hhidden
      have hg : g ∈ q :: g :: rest := by simp
      obtain ⟨ha, hb⟩ := hnested.aligned g hg
      obtain ⟨hglo, hghi⟩ := hnested.inside g hg
      have hlt : g.end_ < 2 ^ 64 := hgend ▸ (readProcess_fits _ _).end_
      refine (setPagesUserMode_pagesSet h hkeep ha hb hglo hghi hlt hhidden).congr fun p => ?_
      simp
  -- the record of the process is not in the tables
  have hread : readProcess m₁ p = readProcess m p :=
    readProcess_congr fun j h1 h2 => hfirst.frame j (by omega) (by omega)
  rw [hread, hbegin, hend] at hset
  have hq : q ∈ q :: rest := List.mem_cons_self
  obtain ⟨ha, hb⟩ := hnested.aligned q hq
  obtain ⟨hqlo, hqhi⟩ := hnested.inside q hq
  have hlt : q.end_ < 2 ^ 64 := hend ▸ (readProcess_fits m p).end_
  exact ⟨rfl, m₁, hfirst,
    setPagesUserMode_pagesSet h (hfirst.keeps hkeep) ha hb hqlo hqhi hlt hset⟩

/-- A call keeps the invariant, when the pages of the previous process are in the range of the new
    one or of its parent. -/
theorem Isolated.switch {m₁ : ByteMem} (htree : PageTree m₀ cr3 lo hi)
    (h : Isolated m₀ cr3 lo hi m rs) (hnested : NestedPages lo hi (q :: rest))
    (hlast : rs = [] ∧ rest = [] ∨ (q :: rest).getLast? = rs.getLast?)
    (hold : ∀ r ∈ rs.head?, r.Within q ∨ ∃ g ∈ rest.head?, r.Within g)
    (hhide : PagesSet m₀ cr3 lo hi
      (fun p => ∃ g ∈ rest.head?, OnPath m₀ cr3 g.begin g.end_ p) 0 m m₁)
    (hshow : PagesSet m₀ cr3 lo hi (OnPath m₀ cr3 q.begin q.end_) 1 m₁ m') :
    Isolated m₀ cr3 lo hi m' (q :: rest) where
  nested := hnested
  address := hshow.keeps (hhide.keeps h.address)
  others := by
    intro p hp hfirst
    obtain ⟨first, hmem⟩ : ∃ first, first ∈ (q :: rest).getLast? :=
      ⟨_, List.getLast?_eq_some_getLast (List.cons_ne_nil _ _)⟩
    -- the pages of the passes are in the range of the first process
    have hq := hnested.within_last List.mem_cons_self hmem
    have hnot : ¬ OnPath m₀ cr3 q.begin q.end_ p := fun hpath =>
      hfirst first hmem (hpath.mono hq.1 hq.2)
    have hnot' : ¬ ∃ g ∈ rest.head?, OnPath m₀ cr3 g.begin g.end_ p := by
      rintro ⟨g, hg, hpath⟩
      have hg' := hnested.within_last (List.mem_cons_of_mem q (List.mem_of_mem_head? hg)) hmem
      exact hfirst first hmem (hpath.mono hg'.1 hg'.2)
    have hsame : userBit m' p = userBit m p := by
      rw [userBit, hshow.other p hp hnot, hhide.other p hp hnot']
      rfl
    rw [hsame]
    refine h.others p hp fun first' hfirst' => ?_
    rcases hlast with ⟨rfl, -⟩ | hlast
    · cases hfirst'
    · exact hfirst first' (hlast ▸ hfirst')
  leaf := by
    intro first hfirst a ha hmem huser
    have hentry : IsEntry m₀ cr3 lo hi (pathEntry m₀ cr3 a 3) := pathEntry_isEntry ha (by decide)
    simp only [List.head?_cons, Option.mem_def, Option.some.injEq, forall_eq']
    by_contra hq
    -- the entry of a page is only on the path of this page
    have hpath : ∀ {r : PageRange}, r ∈ q :: rest → a ∉ r →
        ¬ OnPath m₀ cr3 r.begin r.end_ (pathEntry m₀ cr3 a 3) := by
      rintro r hr hnot ⟨b, d, h1, h2, h3, hd, heq⟩
      obtain ⟨hlo, hhi⟩ := hnested.inside r hr
      have hb : IsPage lo hi b := ⟨by omega, by omega, h3⟩
      rw [htree.leaf_eq ha hb hd heq] at hnot
      exact hnot ⟨h1, h2⟩
    rw [userBit, hshow.other _ hentry (hpath List.mem_cons_self hq)] at huser
    by_cases hg : ∃ g ∈ rest.head?, a ∈ g
    · obtain ⟨g, hg, hag⟩ := hg
      have hclear := hhide.user _ hentry ⟨g, hg, a, 3, hag.1, hag.2, ha.aligned, by decide, rfl⟩
      rw [userBit, huser] at hclear
      exact absurd hclear (by decide)
    · have hnot : ¬ ∃ g ∈ rest.head?, OnPath m₀ cr3 g.begin g.end_ (pathEntry m₀ cr3 a 3) := by
        rintro ⟨g, hgmem, hgpath⟩
        exact hpath (List.mem_cons_of_mem q (List.mem_of_mem_head? hgmem))
          (fun hag => hg ⟨g, hgmem, hag⟩) hgpath
      rw [hhide.other _ hentry hnot] at huser
      rcases hlast with ⟨rfl, rfl⟩ | hlast
      · simp only [List.getLast?_singleton, Option.mem_def, Option.some.injEq] at hfirst
        exact hq (hfirst ▸ hmem)
      · cases rs with
        | nil => simp at hlast
        | cons r rs =>
          have har := h.leaf first (hlast ▸ hfirst) a ha hmem huser r rfl
          rcases hold r rfl with hin | ⟨g, hgmem, hin⟩
          · exact hq (hin.mem har)
          · exact hg ⟨g, hgmem, hin.mem har⟩
  user := by
    intro r hr a ha hmem d hd
    obtain rfl : q = r := by simpa using hr
    obtain ⟨hlo, hhi⟩ := hnested.inside q List.mem_cons_self
    have hpage : IsPage lo hi a := ⟨le_trans hlo hmem.1, lt_of_lt_of_le hmem.2 hhi, ha⟩
    exact hshow.user _ (pathEntry_isEntry hpage hd) ⟨a, d, hmem.1, hmem.2, ha, hd, rfl⟩

/-- What the two kinds of calls have in common. -/
theorem NextCall.switch (h : Isolated m₀ cr3 lo hi k.memory rs)
    (hcall : NextCall m₀ cr3 lo hi k rs m p rs') :
    ∃ q rest, rs' = q :: rest ∧ Isolated m₀ cr3 lo hi m rs ∧ ProcessChain m lo hi p (q :: rest) ∧
      NestedPages lo hi (q :: rest) ∧
      (rs = [] ∧ rest = [] ∨ (q :: rest).getLast? = rs.getLast?) ∧
      ∀ r ∈ rs.head?, r.Within q ∨ ∃ g ∈ rest.head?, r.Within g := by
  cases hcall with
  | @spawn rs m p q htables hchain hparent hnested =>
    refine ⟨q, rs, rfl, h.sameTables htables, hchain, hnested, ?_, fun r hr => ?_⟩
    · cases rs with
      | nil => exact Or.inl ⟨rfl, rfl⟩
      | cons g rs => exact Or.inr (List.getLast?_cons_cons)
    · exact Or.inr ⟨r, hr, le_rfl, le_rfl⟩
  | @exit rs m r r' htables hchain =>
    refine ⟨r', rs, rfl, h.sameTables htables, hchain.2.2.2.2.2, h.nested.tail, ?_, ?_⟩
    · exact Or.inr List.getLast?_cons_cons.symm
    · intro r₁ hr₁
      obtain rfl : r = r₁ := by simpa using hr₁
      exact Or.inl (List.isChain_cons_cons.mp h.nested.nested).1

/-- The invariant of the runs: after each switch, the pages are those of the current process. -/
theorem Switches.isolated (htree : PageTree m₀ cr3 lo hi) (h : Switches m₀ cr3 lo hi k rs) :
    Isolated m₀ cr3 lo hi k.memory rs := by
  induction h with
  | start =>
    refine ⟨⟨by simp, by simp, by simp, by simp⟩, fun _ _ => rfl, fun _ _ _ => rfl, ?_, ?_⟩
    · simp
    · simp
  | call h hcall hrun ih =>
    obtain ⟨q, rest, rfl, hm, hchain, hnested, hlast, hold⟩ := hcall.switch ih
    obtain ⟨-, m₁, hhide, hshow⟩ :=
      osSetCurrentProcess_pagesSet htree hm.address hchain hnested hrun
    exact hm.switch htree hnested hlast hold hhide hshow

/-- The pages that programs can access. -/
theorem Isolated.accessible_iff (h : Isolated m₀ cr3 lo hi m rs) (hr : r ∈ rs.head?)
    (hfirst : first ∈ rs.getLast?) (hprotected : Protected m₀ cr3 lo hi first)
    (ha : IsPage lo hi a) : UserAccessible m cr3 a ↔ a ∈ r := by
  have hpath : ∀ d < 4, pathEntry m cr3 a d = pathEntry m₀ cr3 a d := fun d hd =>
    h.address.pathEntry_eq ha hd
  constructor
  · intro haccess
    by_cases hmem : a ∈ first
    · have hleaf := haccess 3 (by decide)
      rw [hpath 3 (by decide)] at hleaf
      exact h.leaf first hfirst a ha hmem hleaf r hr
    · obtain ⟨d, hd, hnot, hclear⟩ := hprotected a ha hmem
      have hbit := haccess d hd
      rw [hpath d hd, h.others _ (pathEntry_isEntry ha hd), hclear] at hbit
      · exact absurd hbit (by decide)
      · intro first' hfirst'
        obtain rfl : first = first' := Option.some.inj (hfirst.symm.trans hfirst')
        exact hnot
  · intro hmem d hd
    rw [hpath d hd]
    exact h.user r hr a ha.aligned hmem d hd

/-- Each call ends. -/
theorem osSetCurrentProcess_ends (htree : PageTree m₀ cr3 lo hi)
    (hkeep : KeepsAddresses m₀ cr3 lo hi m) (hchain : ProcessChain m lo hi p (q :: rest))
    (hnested : NestedPages lo hi (q :: rest)) (hn : 2 ^ 64 ≤ n) :
    ∃ k, osSetCurrentProcess n cr3 m p = some k := by
  obtain ⟨n, rfl⟩ : ∃ j, n = j + 1 := ⟨n - 1, by omega⟩
  have hends : ∀ (m : ByteMem) (r : PageRange) (en : Nat), r ∈ q :: rest → r.end_ < 2 ^ 64 →
      ∃ m', setPagesUserMode (n + 1) cr3 m r.begin r.end_ en = some m' := by
    intro m r en hr hlt
    obtain ⟨hb, he⟩ := hnested.aligned r hr
    exact Option.isSome_iff_exists.mp (setPagesUserMode_isSome hb he hlt (by omega))
  obtain ⟨hp, hlo, hhi, hbegin, hend, hparent⟩ := hchain
  have hq : q ∈ q :: rest := List.mem_cons_self
  have hqlt : q.end_ < 2 ^ 64 := hend ▸ (readProcess_fits m p).end_
  -- the first pass leaves the record of the process as it is
  obtain ⟨m₁, hhide, hread⟩ : ∃ m₁, (if (readProcess m p).parent ≠ 0 then
      setPagesUserMode (n + 1) cr3 m (readProcess m (readProcess m p).parent).begin
        (readProcess m (readProcess m p).parent).end_ 0 else some m) = some m₁ ∧
      readProcess m₁ p = readProcess m p := by
    cases rest with
    | nil =>
      have hnull : (readProcess m p).parent = 0 := hparent
      exact ⟨m, if_neg (not_not.mpr hnull), rfl⟩
    | cons g rest =>
      obtain ⟨hne, -, -, hgbegin, hgend, -⟩ := hparent
      have hg : g ∈ q :: g :: rest := by simp
      have hlt : g.end_ < 2 ^ 64 := hgend ▸ (readProcess_fits _ _).end_
      obtain ⟨m₁, hm₁⟩ := hends m g 0 hg hlt
      obtain ⟨ha, hb⟩ := hnested.aligned g hg
      obtain ⟨hglo, hghi⟩ := hnested.inside g hg
      have hset := setPagesUserMode_pagesSet htree hkeep ha hb hglo hghi hlt hm₁
      refine ⟨m₁, ?_, readProcess_congr fun j h1 h2 => hset.frame j (by omega) (by omega)⟩
      rw [if_pos hne, hgbegin, hgend, hm₁]
  obtain ⟨m₂, hm₂⟩ := hends m₁ q 1 hq hqlt
  refine ⟨⟨m₂, p⟩, ?_⟩
  unfold osSetCurrentProcess
  simp only [hhide, Option.bind_some, hread, hbegin, hend, hm₂, Option.map_some]

/-- After each call, the pages of the Toys range that programs can access are the ones of the
    current process, the entries of the tables have the address bits that they had, and the
    next call ends. -/
theorem pages_isolated (htree : PageTree m₀ cr3 lo hi) (h : Switches m₀ cr3 lo hi k rs) :
    (∀ r first, rs.head? = some r → rs.getLast? = some first → Protected m₀ cr3 lo hi first →
      ∀ a, IsPage lo hi a → (UserAccessible k.memory cr3 a ↔ a ∈ r)) ∧
    (∀ p, IsEntry m₀ cr3 lo hi p → physicalAddress k.memory p = physicalAddress m₀ p) ∧
    ∀ m p rs', NextCall m₀ cr3 lo hi k rs m p rs' →
      ∃ N, ∀ n ≥ N, ∃ k', osSetCurrentProcess n cr3 m p = some k' := by
  have hisolated := h.isolated htree
  refine ⟨fun r first hr hfirst hprotected a ha => ?_, hisolated.address, fun m p rs' hcall => ?_⟩
  · exact hisolated.accessible_iff hr hfirst hprotected ha
  · obtain ⟨q, rest, rfl, hm, hchain, hnested, -, -⟩ := hcall.switch hisolated
    exact ⟨2 ^ 64, fun n hn => osSetCurrentProcess_ends htree hm.address hchain hnested hn⟩

/-! ### The User bits of the kernel model -/

/-- The model of the kernel, which has one bit for each page instead of the tables, sees the same
    pages as accessible after a call when it does before. -/
theorem userPages_refines {n : Nat} {K : Kernel} (htree : PageTree m₀ cr3 lo hi)
    (h : Switches m₀ cr3 lo hi k rs) (hcall : NextCall m₀ cr3 lo hi k rs K.memory p rs')
    (hrun : osSetCurrentProcess n cr3 K.memory p = some k') (hfirst : first ∈ rs'.getLast?)
    (hprotected : Protected m₀ cr3 lo hi first)
    (hpages : ∀ a, IsPage lo hi a → (K.userPages (a / 4096) = true ↔ UserAccessible k.memory cr3 a))
    (ha : IsPage lo hi a) :
    (Os.osSetCurrentProcess K p).userPages (a / 4096) = true ↔ UserAccessible k'.memory cr3 a := by
  have hbefore := h.isolated htree
  have hafter := (h.call hcall hrun).isolated htree
  obtain ⟨q, rest, rfl, -, hchain, hnested, hlast, hold⟩ := hcall.switch hbefore
  rw [hafter.accessible_iff rfl hfirst hprotected ha]
  have hpage : 4096 * (a / 4096) = a := by
    have := ha.aligned
    omega
  obtain ⟨hp, hlo, hhi, hbegin, hend, hparent⟩ := hchain
  obtain ⟨hq, -⟩ := hnested.aligned q List.mem_cons_self
  -- a page that was accessible is in the new range or is hidden
  have hmem : K.userPages (a / 4096) = true → a ∈ q ∨ ∃ g ∈ rest.head?, a ∈ g := by
    intro huser
    have haccess := (hpages a ha).mp huser
    rcases hlast with ⟨rfl, rfl⟩ | hlast
    · obtain rfl : q = first := by simpa using hfirst
      by_contra hnot
      obtain ⟨d, hd, -, hclear⟩ := hprotected a ha fun hin => hnot (Or.inl hin)
      have hbit := haccess d hd
      rw [hbefore.address.pathEntry_eq ha hd, hbefore.others _ (pathEntry_isEntry ha hd) (by simp),
        hclear] at hbit
      exact absurd hbit (by decide)
    · cases rs with
      | nil => simp at hlast
      | cons r rs =>
        have hin := (hbefore.accessible_iff rfl (hlast ▸ hfirst) hprotected ha).mp haccess
        rcases hold r rfl with hr | ⟨g, hg, hr⟩
        · exact Or.inl (hr.mem hin)
        · exact Or.inr ⟨g, hg, hr.mem hin⟩
  have hshow : (Os.osSetCurrentProcess K p).userPages (a / 4096) =
      if a ∈ q then true else
        if (K.process p).parent ≠ 0 then
          Os.setPagesUserMode K.userPages (K.process (K.process p).parent).begin
            (K.process (K.process p).parent).end_ false (a / 4096)
        else K.userPages (a / 4096) := by
    have hbegin' : (K.process p).begin = q.begin := hbegin
    have hend' : (K.process p).end_ = q.end_ := hend
    unfold Os.osSetCurrentProcess
    simp only [hbegin', hend']
    rw [setPagesUserMode_of_aligned hq, hpage]
    simp only [PageRange.mem_iff]
    split_ifs <;> rfl
  rw [hshow]
  by_cases haq : a ∈ q
  · simp [haq]
  · rw [if_neg haq, iff_false_right haq]
    cases rest with
    | nil =>
      have hnull : (K.process p).parent = 0 := hparent
      rw [if_neg (not_not.mpr hnull)]
      intro huser
      rcases hmem huser with hin | ⟨g, hg, -⟩
      · exact haq hin
      · cases hg
    | cons g rest =>
      obtain ⟨hne, -, -, hgbegin, hgend, -⟩ := hparent
      obtain ⟨hg, -⟩ := hnested.aligned g (by simp)
      have hgbegin' : (K.process (K.process p).parent).begin = g.begin := hgbegin
      have hgend' : (K.process (K.process p).parent).end_ = g.end_ := hgend
      rw [if_pos hne, hgbegin', hgend', setPagesUserMode_of_aligned hg, hpage]
      by_cases hag : a ∈ g
      · rw [if_pos (PageRange.mem_iff.mp hag)]
        decide
      · rw [if_neg (mt PageRange.mem_iff.mpr hag)]
        intro huser
        rcases hmem huser with hin | ⟨g', hg', hin⟩
        · exact haq hin
        · obtain rfl : g = g' := by simpa using hg'
          exact hag hin

/-! ### Small Toys ranges -/

/-- Whether a page is accessible can be decided. -/
instance : Decidable (UserAccessible m cr3 a) :=
  inferInstanceAs (Decidable (∀ d < 4, userBit m (pathEntry m cr3 a d) = true))

/-- A Toys range of two pages, at 32768: a page of the kernel, with the record of a process, and
    the page of this process.  The 4 tables are before the range.  Only the entry of the page of
    the kernel has the `flags`: the User bit is clear in the upper levels. -/
def twoPages (flags : Nat) : ByteMem :=
  let m : ByteMem := fun _ => 0
  let m := m.store 8 4096 (8192 + 3)
  let m := m.store 8 8192 (12288 + 3)
  let m := m.store 8 12288 (16384 + 3)
  let m := m.store 8 (16384 + 64) (32768 + flags)
  let m := m.store 8 (16384 + 72) (36864 + 3)
  let m := m.store 8 (32768 + 8) 36864
  m.store 8 (32768 + 16) 40960

/-- The memory after the first call, when the User bit of the page of the kernel is set. -/
def openPagesSwitched : Machine :=
  (osSetCurrentProcess 2 4096 (twoPages 7) 32768).get (by decide +kernel)

/-- The two pages. -/
theorem isPage_twoPages (ha : IsPage 32768 40960 a) : a = 32768 ∨ a = 36864 := by
  have hge := ha.ge
  have hlt := ha.lt
  have haligned := ha.aligned
  omega

/-- Four tables, at the addresses 4096 to 16384, for a range of pages at 32768. -/
theorem PageTree.of_tables (hhi : hi ≤ 2 ^ 21)
    (htables : ∀ a, IsPage 32768 hi a → (∀ d < 4, pageTable m 4096 a d = 4096 * (d + 1)) ∧
      physicalAddress m (pathEntry m 4096 a 3) = a) : PageTree m 4096 32768 hi := by
  refine ⟨rfl, by decide, fun a ha => (htables a ha).2, fun a b d d' ha hb hd hd' heq => ?_,
    fun a d ha hd => ?_⟩
  · rw [(htables a ha).1 d hd, (htables b hb).1 d' hd'] at heq
    obtain rfl : d = d' := by omega
    refine ⟨rfl, ?_⟩
    have hlt : ∀ a, IsPage 32768 hi a → a % 2 ^ 48 / 2 ^ (48 - 9 * d) = 0 := by
      intro a ha
      have hpow : 2 ^ 21 ≤ 2 ^ (48 - 9 * d) := Nat.pow_le_pow_right (by decide) (by omega)
      have := ha.lt
      exact Nat.div_eq_of_lt (by omega)
    rw [hlt a ha, hlt b hb]
  · rw [(htables a ha).1 d hd]
    omega

/-- The tables of the two pages are well-formed. -/
theorem twoPages_tree {flags : Nat} (hflags : flags = 3 ∨ flags = 7) :
    PageTree (twoPages flags) 4096 32768 40960 := by
  have hpages : ∀ flags ∈ [3, 7], ∀ a ∈ [32768, 36864],
      (∀ d < 4, pageTable (twoPages flags) 4096 a d = 4096 * (d + 1)) ∧
      physicalAddress (twoPages flags) (pathEntry (twoPages flags) 4096 a 3) = a := by
    decide +kernel
  have hmem : flags ∈ [3, 7] := by simpa using hflags
  refine PageTree.of_tables (by decide) fun a ha => hpages flags hmem a ?_
  rcases isPage_twoPages ha with rfl | rfl
  · exact List.mem_cons_self
  · exact List.mem_cons_of_mem _ List.mem_cons_self

/-- The first call, for the process of the second page. -/
theorem twoPages_nextCall {flags : Nat}
    (hrecord : (readProcess (twoPages flags) 32768).parent = 0 ∧
      (readProcess (twoPages flags) 32768).begin = 36864 ∧
      (readProcess (twoPages flags) 32768).end_ = 40960) :
    NextCall (twoPages flags) 4096 32768 40960 ⟨twoPages flags, 0⟩ [] (twoPages flags) 32768
      [⟨36864, 40960⟩] := by
  obtain ⟨hparent, hbegin, hend⟩ := hrecord
  refine NextCall.spawn (fun _ _ _ _ _ _ _ => rfl) ?_ hparent ?_
  · exact ⟨by decide, by decide, by decide, hbegin, hend, hparent⟩
  · constructor <;> simp

/-- The first switch of processes. -/
theorem openPages_switches :
    Switches (twoPages 7) 4096 32768 40960 openPagesSwitched [⟨36864, 40960⟩] :=
  Switches.start.call (twoPages_nextCall (by decide +kernel)) (Option.some_get _).symm

/-- A Toys range of four pages, at 32768: a page of the kernel, with the records of a process and of its
    child, and the pages of the process, the second one of which is the page of the child. -/
def fourPages : ByteMem :=
  let m : ByteMem := fun _ => 0
  let m := m.store 8 4096 (8192 + 3)
  let m := m.store 8 8192 (12288 + 3)
  let m := m.store 8 12288 (16384 + 3)
  let m := m.store 8 (16384 + 64) (32768 + 3)
  let m := m.store 8 (16384 + 72) (36864 + 3)
  let m := m.store 8 (16384 + 80) (40960 + 3)
  let m := m.store 8 (16384 + 88) (45056 + 3)
  let m := m.store 8 (32768 + 8) 36864
  let m := m.store 8 (32768 + 16) 49152
  let m := m.store 8 32848 32768
  let m := m.store 8 (32848 + 8) 40960
  m.store 8 (32848 + 16) 45056

/-- The memory when the process starts. -/
def processStarted : Machine :=
  (osSetCurrentProcess 4 4096 fourPages 32768).get (by decide +kernel)

/-- The memory when its child starts. -/
def childStarted : Machine :=
  (osSetCurrentProcess 4 4096 processStarted.memory 32848).get (by decide +kernel)

/-- The memory when its child has ended. -/
def childEnded : Machine :=
  (osSetCurrentProcess 4 4096 childStarted.memory 32768).get (by decide +kernel)

theorem isPage_fourPages (ha : IsPage 32768 49152 a) : a ∈ [32768, 36864, 40960, 45056] := by
  have hge := ha.ge
  have hlt := ha.lt
  have haligned := ha.aligned
  simp only [List.mem_cons, List.not_mem_nil, or_false]
  omega

theorem fourPages_tree : PageTree fourPages 4096 32768 49152 := by
  have hpages : ∀ a ∈ [32768, 36864, 40960, 45056],
      (∀ d < 4, pageTable fourPages 4096 a d = 4096 * (d + 1)) ∧
      physicalAddress fourPages (pathEntry fourPages 4096 a 3) = a := by
    decide +kernel
  exact PageTree.of_tables (by decide) fun a ha => hpages a (isPage_fourPages ha)

/-- The ranges of the child and of the process. -/
theorem fourPages_nested : NestedPages 32768 49152 [⟨40960, 45056⟩, ⟨36864, 49152⟩] where
  aligned := by decide
  nonempty := by decide
  inside := by decide
  nested := List.isChain_pair.mpr ⟨by decide, by decide⟩

/-- The chain of the process. -/
theorem fourPages_chain (h : (readProcess m 32768).begin = 36864 ∧ (readProcess m 32768).end_ = 49152 ∧
    (readProcess m 32768).parent = 0) : ProcessChain m 32768 49152 32768 [⟨36864, 49152⟩] :=
  ⟨by decide, by decide, by decide, h.1, h.2.1, h.2.2⟩

/-- The process starts, and then its child. -/
theorem childStarted_switches :
    Switches fourPages 4096 32768 49152 childStarted [⟨40960, 45056⟩, ⟨36864, 49152⟩] := by
  have hfirst : NextCall fourPages 4096 32768 49152 ⟨fourPages, 0⟩ [] fourPages 32768 [⟨36864, 49152⟩] := by
    exact NextCall.spawn (fun _ _ _ _ _ _ _ => rfl) (fourPages_chain (by decide +kernel))
      (by decide +kernel) fourPages_nested.tail
  have hsecond : NextCall fourPages 4096 32768 49152 processStarted [⟨36864, 49152⟩] processStarted.memory
      32848 [⟨40960, 45056⟩, ⟨36864, 49152⟩] := by
    refine NextCall.spawn (fun _ _ _ _ _ _ _ => rfl) ?_ (by decide +kernel) fourPages_nested
    refine ⟨by decide, by decide, by decide, by decide +kernel, by decide +kernel, ?_⟩
    have hparent : (readProcess processStarted.memory 32848).parent = 32768 := by decide +kernel
    rw [hparent]
    exact fourPages_chain (by decide +kernel)
  exact (Switches.start.call hfirst (Option.some_get _).symm).call hsecond (Option.some_get _).symm

/-- The child ends. -/
theorem childEnded_switches : Switches fourPages 4096 32768 49152 childEnded [⟨36864, 49152⟩] := by
  have hcurrent : childStarted.currentProcess = 32848 := by decide +kernel
  have hparent : (readProcess childStarted.memory 32848).parent = 32768 := by decide +kernel
  have hcall : NextCall fourPages 4096 32768 49152 childStarted [⟨40960, 45056⟩, ⟨36864, 49152⟩]
      childStarted.memory (readProcess childStarted.memory childStarted.currentProcess).parent
      [⟨36864, 49152⟩] := by
    refine NextCall.exit (fun _ _ _ _ _ _ _ => rfl) ?_
    rw [hcurrent]
    refine ⟨by decide, by decide, by decide, by decide +kernel, by decide +kernel, ?_⟩
    rw [hparent]
    exact fourPages_chain (by decide +kernel)
  rw [hcurrent, hparent] at hcall
  exact childStarted_switches.call hcall (Option.some_get _).symm

/-- The User bit of the page of the kernel is clear in its own entry. -/
theorem fourPages_protected : Protected fourPages 4096 32768 49152 ⟨36864, 49152⟩ := by
  intro a ha hnot
  have hge := ha.ge
  have hlt := ha.lt
  obtain rfl : a = 32768 := by
    have haligned := ha.aligned
    by_contra hne
    exact hnot ⟨show 36864 ≤ a by omega, hlt⟩
  refine ⟨3, by decide, ?_, by decide +kernel⟩
  rintro ⟨b, d, h1, h2, h3, hd, heq⟩
  have hge' : 36864 ≤ b := h1
  have hb : IsPage 32768 49152 b := ⟨by omega, h2, h3⟩
  have hsame := fourPages_tree.leaf_eq ha hb hd heq
  omega

/-- The pages that are accessible when the child starts, and when it has ended. -/
theorem pages_isolated_fourPages :
    (∀ a, IsPage 32768 49152 a →
      (UserAccessible childStarted.memory 4096 a ↔ a ∈ PageRange.mk 40960 45056)) ∧
    (∀ a, IsPage 32768 49152 a →
      (UserAccessible childEnded.memory 4096 a ↔ a ∈ PageRange.mk 36864 49152)) ∧
    (∀ p, IsEntry fourPages 4096 32768 49152 p →
      physicalAddress childEnded.memory p = physicalAddress fourPages p) ∧
    ∀ m p rs', NextCall fourPages 4096 32768 49152 childEnded [⟨36864, 49152⟩] m p rs' →
      ∃ N, ∀ n ≥ N, ∃ k', osSetCurrentProcess n 4096 m p = some k' := by
  obtain ⟨hstarted, -⟩ := pages_isolated fourPages_tree childStarted_switches
  obtain ⟨hended, hrest⟩ := pages_isolated fourPages_tree childEnded_switches
  exact ⟨hstarted _ _ rfl rfl fourPages_protected, hended _ _ rfl rfl fourPages_protected, hrest⟩

/-- It is not enough that no page of the Toys range is accessible initially: when the User bit of
    a page of the kernel is clear in the upper levels only, the first call sets it there. -/
theorem not_pages_isolated :
    ¬ ∀ (m₀ : ByteMem) (cr3 lo hi : Nat) (k : Machine) (r : PageRange) (rest : List PageRange),
      PageTree m₀ cr3 lo hi → (∀ a, IsPage lo hi a → ¬ UserAccessible m₀ cr3 a) →
      Switches m₀ cr3 lo hi k (r :: rest) →
      ∀ a, IsPage lo hi a → (UserAccessible k.memory cr3 a ↔ a ∈ r) := by
  intro hall
  have hclosed : ∀ a, IsPage 32768 40960 a → ¬ UserAccessible (twoPages 7) 4096 a := by
    intro a ha haccess
    -- the entry of the root
    have hroot := haccess 0 (by decide)
    rcases isPage_twoPages ha with rfl | rfl <;> revert hroot <;> decide +kernel
  have hiff := hall _ _ _ _ _ _ _ (twoPages_tree (Or.inr rfl)) hclosed openPages_switches 32768
    ⟨le_rfl, by decide, rfl⟩
  have haccess : UserAccessible openPagesSwitched.memory 4096 32768 := by decide +kernel
  have hmem := hiff.mp haccess
  exact absurd hmem.1 (by decide)

end Toys.Os.Paging
