import Mathlib
import Toys.Commands.Base
import Toys.FileSystem.Entries
import Toys.Os.FailedCalls
import Toys.Os.Transfers

namespace Toys.Commands

open Toys.Lib Toys.FileSystem Toys.Os

/-!
# Commands — list

The program `list`, from `src/list/list.toy`.  It reads the names of the files one after the other, and
writes the first component that follows the path, unless it is the one that it has just written.

* `listMain` — the program;
* `listItems` — the components that it writes, from the names that it reads;
* `Lists` — what it should write;
* `lists_iff` — it does if and only if the components fit in its buffers;
* `listMain_iff` — the same, for the program.
-/

/-- The separator of the components of a name. -/
def SLASH : UInt8 := 47

/-- The size of the buffers of the names. -/
def MAX_NAME_LENGTH : Nat := 256

/-- The static data `SEPARATOR`. -/
def SEPARATOR : List UInt8 := [32, 32]

/-! ### Components -/

/-- The first component of a name, with the `/` that ends it. -/
def firstComponent : List UInt8 → List UInt8
  | [] => []
  | c :: name => if c = SLASH then [c] else c :: firstComponent name

/-- The name strictly extends the path. -/
def Extends (path name : List UInt8) : Prop :=
  path.length < name.length ∧ name.take path.length = path

/-- Whether a name extends the path can be decided. -/
instance (path name : List UInt8) : Decidable (Extends path name) :=
  inferInstanceAs (Decidable (_ ∧ _))

/-- What follows the path in a name, up to the next `/`. -/
def component (path name : List UInt8) : List UInt8 := firstComponent (name.drop path.length)

/-- The components of the names that extend the path. -/
def components (path : List UInt8) (names : List (List UInt8)) : List (List UInt8) :=
  (names.filter fun name => Extends path name).map (component path)

/-- The items that are written for the names that are read, when `last` is the last one. -/
def listItems (path : List UInt8) : List (List UInt8) → List UInt8 → List (List UInt8)
  | [], _ => []
  | name :: names, last =>
    if Extends path name then
      let item := component path name
      if item ≠ last then item :: listItems path names item else listItems path names last
    else listItems path names last

/-- The items are the components of the names, each one once, in the order of the names. -/
structure Lists (path : List UInt8) (names items : List (List UInt8)) : Prop where
  nodup : items.Nodup
  mem : ∀ item, item ∈ items ↔ ∃ name ∈ names, Extends path name ∧ component path name = item
  order : items.Sublist (components path names)

variable {path name name' last item : List UInt8} {names items : List (List UInt8)} {k : Nat}

/-- A name that is not empty has a first component. -/
theorem firstComponent_ne_nil (h : name ≠ []) : firstComponent name ≠ [] := by
  cases name with
  | nil => exact absurd rfl h
  | cons c name =>
    rw [firstComponent]
    split_ifs
    all_goals exact List.cons_ne_nil _ _

/-- The first component of a name that is cut is cut, too. -/
theorem firstComponent_take (k : Nat) (name : List UInt8) :
    firstComponent (name.take k) = (firstComponent name).take k := by
  induction name generalizing k with
  | nil => simp [firstComponent]
  | cons c name ih =>
    cases k with
    | zero => rfl
    | succ k =>
      rw [List.take_succ_cons, firstComponent, firstComponent]
      split_ifs
      · rw [List.take_succ_cons, List.take_nil]
      · rw [List.take_succ_cons, ih]

/-- A name that extends the path has a component after it. -/
theorem Extends.component_ne_nil (h : Extends path name) : component path name ≠ [] := by
  apply firstComponent_ne_nil
  intro hnil
  have hlength := congrArg List.length hnil
  rw [List.length_drop, List.length_nil] at hlength
  have hlt := h.1
  omega

/-- A name that is truncated. -/
theorem extends_take_iff : Extends path (name.take k) ↔ Extends path name ∧ path.length < k := by
  unfold Extends
  rw [List.length_take]
  constructor
  · rintro ⟨hlt, htake⟩
    have hk := (lt_min_iff.mp hlt).1
    rw [List.take_take, min_eq_left hk.le] at htake
    exact ⟨⟨(lt_min_iff.mp hlt).2, htake⟩, hk⟩
  · rintro ⟨⟨hlt, htake⟩, hk⟩
    rw [List.take_take, min_eq_left hk.le]
    exact ⟨lt_min hk hlt, htake⟩

/-- The component of a name that is cut is cut, too. -/
theorem component_take : component path (name.take k) = (component path name).take (k - path.length) := by
  rw [component, List.drop_take, firstComponent_take]
  rfl

/-- The components are those of the names that extend the path. -/
theorem mem_components :
    item ∈ components path names ↔ ∃ name ∈ names, Extends path name ∧ component path name = item := by
  simp [components, and_assoc]

/-! ### The order of the components -/

/-- Two names with the same prefix compare as what follows it. -/
theorem compareNames_append : compareNames (path ++ name) (path ++ name') = compareNames name name' := by
  induction path with
  | nil => rfl
  | cons c path ih =>
    rw [List.cons_append, List.cons_append, compareNames, if_neg (UInt8.lt_irrefl c), if_neg (UInt8.lt_irrefl c), ih]

/-- The first components are in the same order as the names. -/
theorem firstComponent_le (h : NameLt name name') : firstComponent name = firstComponent name' ∨
    NameLt (firstComponent name) (firstComponent name') := by
  unfold NameLt at h ⊢
  induction name generalizing name' with
  | nil =>
    cases name' with
    | nil => cases h
    | cons c name' =>
      right
      rcases List.exists_cons_of_ne_nil (firstComponent_ne_nil (List.cons_ne_nil c name')) with
        ⟨_, _, heq⟩
      rw [heq]
      rfl
  | cons c name ih =>
    cases name' with
    | nil => cases h
    | cons c' name' =>
      rw [compareNames] at h
      have hcases : c < c' ∨ c = c' ∨ c > c' := by grind
      rcases hcases with hlt | rfl | hgt
      · -- the components differ by their first bytes
        right
        rw [firstComponent, firstComponent]
        split_ifs
        all_goals rw [compareNames, if_pos hlt]
      · rw [if_neg (UInt8.lt_irrefl c), if_neg (UInt8.lt_irrefl c)] at h
        rw [firstComponent, firstComponent]
        split_ifs with hc
        · exact .inl rfl
        · rcases ih h with heq | hlt
          · exact .inl (by rw [heq])
          · right
            rw [compareNames, if_neg (UInt8.lt_irrefl c), if_neg (UInt8.lt_irrefl c), hlt]
      · rw [if_neg (UInt8.lt_asymm hgt), if_pos hgt] at h
        cases h

/-- The components of two names in order are in order, or equal. -/
theorem component_le (hname : Extends path name) (hname' : Extends path name') (h : NameLt name name') :
    component path name = component path name' ∨
      NameLt (component path name) (component path name') := by
  apply firstComponent_le
  have heq : path ++ name.drop path.length = name := by
    conv_lhs => rw [← hname.2]
    rw [List.length_take, min_eq_left (le_of_lt hname.1), List.take_append_drop]
  have heq' : path ++ name'.drop path.length = name' := by
    conv_lhs => rw [← hname'.2]
    rw [List.length_take, min_eq_left (le_of_lt hname'.1), List.take_append_drop]
  rw [NameLt, ← heq, ← heq', compareNames_append] at h
  exact h

/-- The components of a sorted list of names are sorted, with equal ones next to each other. -/
theorem components_pairwise (h : names.Pairwise NameLt) :
    (components path names).Pairwise fun x y => x = y ∨ NameLt x y := by
  rw [components, List.pairwise_map, List.pairwise_filter]
  apply h.imp
  intro name name' hlt hname hname'
  exact component_le (of_decide_eq_true hname) (of_decide_eq_true hname') hlt

/-! ### The items that are written -/

/-- Removing the repetitions of a list keeps its items. -/
theorem mem_destutter'_ne {x a : List UInt8} {l : List (List UInt8)} (h : x ∈ l) :
    x ∈ l.destutter' (· ≠ ·) a := by
  induction l generalizing a with
  | nil => cases h
  | cons b l ih =>
    by_cases hab : a ≠ b
    · rw [List.destutter'_cons_pos _ hab]
      rcases List.mem_cons.mp h with rfl | h
      · exact List.mem_cons_of_mem _ (List.mem_destutter' _ _ _)
      · exact List.mem_cons_of_mem _ (ih h)
    · rw [List.destutter'_cons_neg _ hab]
      rcases List.mem_cons.mp h with rfl | h
      · rw [← not_not.mp hab]
        exact List.mem_destutter' _ _ _
      · exact ih h

/-- Each item is different from the one before. -/
theorem listItems_eq (path : List UInt8) (names : List (List UInt8)) (last : List UInt8) :
    last :: listItems path names last = (components path names).destutter' (· ≠ ·) last := by
  induction names generalizing last with
  | nil => rfl
  | cons name names ih =>
    rw [listItems]
    by_cases hname : Extends path name
    · have hcons : components path (name :: names) = component path name :: components path names := by
        rw [components, List.filter_cons_of_pos (by simpa using hname), List.map_cons]
        rfl
      rw [if_pos hname, hcons]
      by_cases hne : component path name ≠ last
      · rw [List.destutter'_cons_pos _ (Ne.symm hne), ← ih]
        simp only [if_pos hne]
      · rw [List.destutter'_cons_neg _ (not_not_intro (not_not.mp hne).symm), ← ih]
        simp only [if_neg hne]
    · have hcons : components path (name :: names) = components path names := by
        rw [components, List.filter_cons_of_neg (by simpa using hname)]
        rfl
      rw [if_neg hname, hcons, ih]

/-- The items are some of the components. -/
theorem listItems_sublist (path : List UInt8) (names : List (List UInt8)) (last : List UInt8) :
    (listItems path names last).Sublist (components path names) := by
  have hsublist := List.destutter'_sublist (· ≠ ·) (l := components path names) last
  rw [← listItems_eq] at hsublist
  exact List.cons_sublist_cons.mp hsublist

/-- The items are the components of the names that extend the path. -/
theorem mem_listItems :
    item ∈ listItems path names [] ↔ ∃ name ∈ names, Extends path name ∧ component path name = item := by
  rw [← mem_components]
  constructor
  · exact (listItems_sublist path names []).mem
  · intro h
    have hmem : item ∈ [] :: listItems path names [] := by
      rw [listItems_eq]
      exact mem_destutter'_ne h
    -- no component is empty
    rcases List.mem_cons.mp hmem with rfl | hmem
    · rcases mem_components.mp h with ⟨name, -, hname, hnil⟩
      exact absurd hnil hname.component_ne_nil
    · exact hmem

/-- The same item is not written twice, since the names are sorted. -/
theorem listItems_nodup (h : names.Pairwise NameLt) : (listItems path names last).Nodup := by
  have hpairwise := (components_pairwise h).sublist (listItems_sublist path names last)
  have hchain : (listItems path names last).IsChain (· ≠ ·) := by
    have hchain := List.isChain_destutter' (· ≠ ·) (components path names) last
    rw [← listItems_eq] at hchain
    exact hchain.tail
  have hlt : (listItems path names last).IsChain NameLt := by
    apply List.isChain_iff_forall_rel_of_append_cons_cons.mpr
    intro x y before after heq
    have hne := List.isChain_iff_forall_rel_of_append_cons_cons.mp hchain heq
    have hle := List.isChain_iff_forall_rel_of_append_cons_cons.mp hpairwise.isChain heq
    exact hle.resolve_left hne
  apply (List.isChain_iff_pairwise.mp hlt).imp
  rintro x y hxy rfl
  exact irrefl x hxy

/-- On a sorted list of names, the items are each component once, in order. -/
theorem listItems_lists (h : names.Pairwise NameLt) : Lists path names (listItems path names []) :=
  ⟨listItems_nodup h, fun _ => mem_listItems, listItems_sublist path names []⟩

/-- Truncated names give the same items if the components are not truncated. -/
theorem listItems_take {size : Nat}
    (h : ∀ name ∈ names, Extends path name → path.length + (component path name).length ≤ size) :
    listItems path (names.map (·.take size)) last = listItems path names last := by
  induction names generalizing last with
  | nil => rfl
  | cons name names ih =>
    rcases List.forall_mem_cons.mp h with ⟨hname, hnames⟩
    rw [List.map_cons, listItems, listItems]
    by_cases hextends : Extends path name
    · have hfits := hname hextends
      have hpos := List.length_pos_of_ne_nil hextends.component_ne_nil
      have hcomponent : component path (name.take size) = component path name := by
        rw [component_take, List.take_of_length_le (by omega)]
      rw [if_pos hextends, if_pos (extends_take_iff.mpr ⟨hextends, by omega⟩), hcomponent]
      simp only [ih hnames]
    · rw [if_neg hextends, if_neg fun hc => hextends (extends_take_iff.mp hc).1, ih hnames]

/-- The names are read into a buffer of `size` bytes. -/
theorem lists_iff {size : Nat} (h : names.Pairwise NameLt) :
    Lists path names (listItems path (names.map (·.take size)) []) ↔
      ∀ name ∈ names, Extends path name → path.length + (component path name).length ≤ size := by
  constructor
  · intro hlists name hname hextends
    -- the component is written, so that it is one of the items of the truncated names
    have hmem := (hlists.mem (component path name)).mpr ⟨name, hname, hextends, rfl⟩
    rcases mem_listItems.mp hmem with ⟨name', hname', hextends', heq⟩
    rcases List.mem_map.mp hname' with ⟨name'', -, rfl⟩
    have hlt := (extends_take_iff.mp hextends').2
    have hlength := congrArg List.length heq
    rw [component_take, List.length_take] at hlength
    omega
  · intro hfits
    rw [listItems_take hfits]
    exact listItems_lists h

/-! ### The program -/

/-- The loop of `mem_compare`, when `n` bytes remain. -/
def memCompareLoop (m : ByteMem) (ptr1 ptr2 : Nat) : (n i : Nat) → Nat
  | 0, i => i
  | n + 1, i => if m (ptr1 + i) = m (ptr2 + i) then memCompareLoop m ptr1 ptr2 n (i + 1) else i

/-- `mem_compare`. -/
def memCompare (m : ByteMem) (ptr1 ptr2 size : Nat) : Nat := size - memCompareLoop m ptr1 ptr2 size 0

/-- `get_first_component_length`. -/
def getFirstComponentLength (m : ByteMem) (name length : Nat) : Nat :=
  let i := skipBytes (· != SLASH) m length name - name
  if i < length then i + 1 else i

/-- `mem_allocate`: the address or `null`, and the variable `*heap_p`. -/
def memAllocate (size heap heapLimit : Nat) : Nat × Nat :=
  if size > heapLimit ∨ heap > heapLimit - size then (0, heap) else (heap, heap + size)

/-- The static data `USAGE`. -/
def LIST_USAGE : List UInt8 :=
  [85, 115, 97, 103, 101, 58, 32, 108, 105, 115, 116, 32, 91, 112, 97, 116, 104, 47, 93]

/-- What the loop of `list` does not change. -/
structure ListLocals where
  path : Nat
  pathLength : Nat
  name : Nat
  lastItem : Nat
  stream : Nat

/-- The body of the loop of `main`, without its last line: the texts that are written, and the variable
    `last_length`. -/
def listItem (m : ByteMem) (v : ListLocals) (length lastLength : Nat) :
    ByteMem × List (List UInt8) × Nat :=
  if length > v.pathLength ∧ memCompare m v.name v.path v.pathLength = 0 then
    let item := v.name + v.pathLength
    let length := getFirstComponentLength m item (length - v.pathLength)
    if length ≠ lastLength ∨ memCompare m item v.lastItem length ≠ 0 then
      (memCopyNonOverlapping m item v.lastItem length, [m.slice item length, SEPARATOR], length)
    else (m, [], lastLength)
  else (m, [], lastLength)

/-- The loop of `main`.  The texts that are written to the output are in the result: what the output
    does with them, in the memory of the parent, is not modelled. -/
def listLoop (bound : Nat) (v : ListLocals) :
    (loops : Nat) → Kernel → (length lastLength : Nat) → Option (Kernel × List (List UInt8) × Nat)
  | 0, _, _, _ => none
  | loops + 1, k, length, lastLength =>
    if length = 0 then some (k, [], OK)
    else
      let (memory, texts, lastLength) := listItem k.memory v length lastLength
      match osRead bound { k with memory := memory } v.stream v.name MAX_NAME_LENGTH [] with
      | none => none
      | some (k, length) =>
        (listLoop bound v loops k length lastLength).map fun q => (q.1, texts ++ q.2.1, q.2.2)

/-- `main`. -/
def listMain (bound : Nat) (k : Kernel) (args argsEnd heap heapLimit : Nat) :
    Option (Kernel × List (List UInt8) × Nat) :=
  let (path, pathLength, _) := shReadToken k.memory args argsEnd 0
  if 0 < pathLength ∧ k.memory (path + pathLength - 1) ≠ SLASH then
    some (k, [LIST_USAGE], Status.invalidArgument.code)
  else
    let (name, heap) := memAllocate MAX_NAME_LENGTH heap heapLimit
    let (lastItem, _) := memAllocate MAX_NAME_LENGTH heap heapLimit
    if name = 0 ∨ lastItem = 0 then some (k, [], Status.outOfMemory.code)
    else
      match osOpen bound k name 0 MODE_READ with
      | none => none
      | some (k, stream) =>
        match osRead bound k stream name MAX_NAME_LENGTH [] with
        | none => none
        | some (k, length) => listLoop bound ⟨path, pathLength, name, lastItem, stream⟩ bound k length 0

variable {m : ByteMem} {ptr1 ptr2 n i : Nat}

/-! ### Comparing and copying bytes -/

/-- The bytes of a slice, the first one apart. -/
theorem slice_succ (m : ByteMem) (a n : Nat) : m.slice a (n + 1) = m a :: m.slice (a + 1) n := by
  rw [Nat.add_comm, ByteMem.slice_add]
  rfl

/-- The loop of `mem_compare` stops at the end exactly when the bytes are equal. -/
theorem memCompareLoop_spec (m : ByteMem) (ptr1 ptr2 n i : Nat) :
    memCompareLoop m ptr1 ptr2 n i ≤ i + n ∧ (memCompareLoop m ptr1 ptr2 n i = i + n ↔
      m.slice (ptr1 + i) n = m.slice (ptr2 + i) n) := by
  induction n generalizing i with
  | zero => exact ⟨le_refl _, iff_of_true rfl rfl⟩
  | succ n ih =>
    rcases ih (i + 1) with ⟨hle, hiff⟩
    rw [memCompareLoop, slice_succ, slice_succ, List.cons.injEq]
    split_ifs with heq
    · refine ⟨by omega, ?_⟩
      rw [show i + (n + 1) = i + 1 + n by omega, hiff]
      exact (and_iff_right heq).symm
    · refine ⟨by omega, iff_of_false (by omega) fun h => heq h.1⟩

/-- `mem_compare` returns 0 exactly when the bytes are equal. -/
theorem memCompare_eq_zero_iff {size : Nat} :
    memCompare m ptr1 ptr2 size = 0 ↔ m.slice ptr1 size = m.slice ptr2 size := by
  rcases memCompareLoop_spec m ptr1 ptr2 size 0 with ⟨hle, hiff⟩
  rw [Nat.zero_add] at hle hiff
  rw [memCompare]
  refine Iff.trans ⟨fun h => ?_, fun h => ?_⟩ hiff
  · omega
  · omega

/-- One step of `get_first_component_length`. -/
theorem getFirstComponentLength_succ (m : ByteMem) (name n : Nat) :
    getFirstComponentLength m name (n + 1) =
      if m name = SLASH then 1 else getFirstComponentLength m (name + 1) n + 1 := by
  by_cases hslash : m name = SLASH
  · have hskip : skipBytes (· != SLASH) m (n + 1) name = name := by
      rw [skipBytes, if_neg (by simp [hslash])]
    rw [if_pos hslash, getFirstComponentLength, hskip, Nat.sub_self]
    exact if_pos (Nat.succ_pos n)
  · have hskip : skipBytes (· != SLASH) m (n + 1) name = skipBytes (· != SLASH) m n (name + 1) := by
      rw [skipBytes, if_pos (by simpa using hslash)]
    have hge := (skipBytes_spec (· != SLASH) m n (name + 1)).1
    rw [if_neg hslash, getFirstComponentLength, getFirstComponentLength, hskip]
    split_ifs
    all_goals omega

/-- The first component is at the start of the name. -/
theorem slice_getFirstComponentLength (m : ByteMem) (name n : Nat) :
    getFirstComponentLength m name n ≤ n ∧
      m.slice name (getFirstComponentLength m name n) = firstComponent (m.slice name n) := by
  induction n generalizing name with
  | zero =>
    have h0 : getFirstComponentLength m name 0 = 0 := by simp [getFirstComponentLength, skipBytes]
    rw [h0]
    exact ⟨le_refl _, rfl⟩
  | succ n ih =>
    rcases ih (name + 1) with ⟨hle, heq⟩
    rw [getFirstComponentLength_succ, slice_succ, firstComponent]
    split_ifs with hslash
    · exact ⟨by omega, rfl⟩
    · exact ⟨by omega, by rw [slice_succ, heq]⟩

/-- The destination of a copy gets the bytes of the source. -/
theorem memCopyNonOverlapping_apply {src dst size j : Nat} (hsrc : src + size ≤ 2 ^ 64)
    (hdst : dst + size ≤ 2 ^ 64) (hdisjoint : src + size ≤ dst) (hj : j < size) :
    memCopyNonOverlapping m src dst size (dst + j) = m (src + j) := by
  induction size with
  | zero => exact absurd hj (Nat.not_lt_zero j)
  | succ n ih =>
    have hstep : memCopyNonOverlapping m src dst (n + 1) =
        Function.update (memCopyNonOverlapping m src dst n) (U64.add dst n)
          (memCopyNonOverlapping m src dst n (U64.add src n)) := by
      rw [memCopyNonOverlapping, List.range_succ, List.foldl_append, List.foldl_cons, List.foldl_nil]
      rfl
    rw [hstep, U64.add_eq (by omega), U64.add_eq (by omega)]
    rcases Nat.eq_or_lt_of_le (Nat.le_of_lt_succ hj) with rfl | hlt
    · rw [Function.update_self]
      exact memCopyNonOverlapping_of_not_mem (by omega) (.inl (by omega))
    · rw [Function.update_of_ne (by omega), ih (by omega) (by omega) (by omega) hlt]

/-- The destination of a copy gets the slice of the source. -/
theorem slice_memCopyNonOverlapping {src dst size : Nat} (hsrc : src + size ≤ 2 ^ 64)
    (hdst : dst + size ≤ 2 ^ 64) (hdisjoint : src + size ≤ dst) :
    (memCopyNonOverlapping m src dst size).slice dst size = m.slice src size := by
  apply List.map_congr_left
  intro j hj
  exact memCopyNonOverlapping_apply hsrc hdst hdisjoint (List.mem_range.mp hj)

/-! ### The loop -/

variable {base loops length : Nat} {k : Kernel} {f : Frame} {fs : List Frame} {L : Layout}
  {v : ListLocals} {after : List (List UInt8 × Nat)}

/-- The path and the last item are in memory, around the buffer for the names. -/
structure Buffers (limit : Nat) (v : ListLocals) (path last : List UInt8) (m : ByteMem) : Prop where
  limit_le : limit ≤ v.name
  path_length : v.pathLength = path.length
  path_eq : m.slice v.path v.pathLength = path
  path_apart : v.pathLength = 0 ∨ limit ≤ v.path ∧ v.path + v.pathLength ≤ v.name
  lastItem : v.lastItem = v.name + MAX_NAME_LENGTH
  lastItem_lt : v.lastItem + MAX_NAME_LENGTH ≤ 2 ^ 64
  last_eq : m.slice v.lastItem last.length = last
  last_le : last.length ≤ MAX_NAME_LENGTH

/-- The buffers only depend on the memory around the names. -/
theorem Buffers.congr {limit : Nat} {m' : ByteMem} (h : Buffers limit v path last m)
    (hm : ∀ j, limit ≤ j → (j < v.name ∨ v.name + MAX_NAME_LENGTH ≤ j) → m' j = m j) :
    Buffers limit v path last m' := by
  have hlast := h.lastItem
  have hlimit := h.limit_le
  refine { h with path_eq := ?_, last_eq := ?_ }
  · conv_rhs => rw [← h.path_eq]
    apply ByteMem.slice_congr
    intro j h1 h2
    rcases h.path_apart with h0 | ⟨hle, hlt⟩
    · omega
    · exact hm j (by omega) (.inl (by omega))
  · conv_rhs => rw [← h.last_eq]
    apply ByteMem.slice_congr
    intro j h1 h2
    exact hm j (by omega) (.inr (by omega))

/-- The item of a name, when it is written, becomes the last one. -/
theorem listItem_eq {limit : Nat} (h : Buffers limit v path last m) (hname : m.slice v.name length = name)
    (hlength : length ≤ MAX_NAME_LENGTH) :
    ∃ m' last' texts, listItem m v length last.length = (m', texts, last'.length) ∧
      Buffers limit v path last' m' ∧
      (∀ j, (j < v.lastItem ∨ v.lastItem + MAX_NAME_LENGTH ≤ j) → m' j = m j) ∧
      ∀ names, (listItems path (name :: names) last).flatMap (fun item => [item, SEPARATOR]) =
        texts ++ (listItems path names last').flatMap fun item => [item, SEPARATOR] := by
  have hnameLength : name.length = length := by rw [← hname, ByteMem.slice_length]
  have hlastItem := h.lastItem
  have hlt := h.lastItem_lt
  have hpathLength := h.path_length
  -- the comparison of the bytes is that of the names
  have hextends : (length > v.pathLength ∧ memCompare m v.name v.path v.pathLength = 0) ↔
      Extends path name := by
    rw [memCompare_eq_zero_iff, h.path_eq, Extends, ← hpathLength, hnameLength]
    apply and_congr_right
    intro hgt
    have hsplit := ByteMem.slice_add m v.name v.pathLength (length - v.pathLength)
    rw [Nat.add_sub_cancel' (le_of_lt hgt), hname] at hsplit
    rw [hsplit, List.take_left' (ByteMem.slice_length _ _ _)]
  unfold listItem
  by_cases hcond : Extends path name
  · rw [if_pos (hextends.mpr hcond)]
    have hgt := (hextends.mpr hcond).1
    rcases slice_getFirstComponentLength m (v.name + v.pathLength) (length - v.pathLength) with
      ⟨hle, hfirst⟩
    have hitem : m.slice (v.name + v.pathLength)
        (getFirstComponentLength m (v.name + v.pathLength) (length - v.pathLength)) =
        component path name := by
      have hsplit := ByteMem.slice_add m v.name v.pathLength (length - v.pathLength)
      rw [Nat.add_sub_cancel' (le_of_lt hgt), hname] at hsplit
      rw [hfirst, component, hsplit, ← hpathLength, List.drop_left' (ByteMem.slice_length _ _ _)]
    dsimp only
    generalize hsize : getFirstComponentLength m (v.name + v.pathLength) (length - v.pathLength) = size
      at hle hitem ⊢
    have hsize : size = (component path name).length := by rw [← hitem, ByteMem.slice_length]
    have hne : (size ≠ last.length ∨ memCompare m (v.name + v.pathLength) v.lastItem size ≠ 0) ↔
        component path name ≠ last := by
      rw [Ne, Ne, memCompare_eq_zero_iff, hitem]
      constructor
      · rintro (hne | hne) rfl
        · exact hne hsize
        · rw [hsize] at hne
          exact hne h.last_eq.symm
      · intro hne
        by_contra hc
        rw [not_or, not_not, not_not] at hc
        rw [hc.1, h.last_eq] at hc
        exact hne hc.2
    -- the item is written unless it is the last one, and the buffer of the last item changes with it
    by_cases hwrite : component path name ≠ last
    · rw [if_pos (hne.mpr hwrite), hitem, hsize]
      refine ⟨_, component path name, _, rfl, ?_, ?_, ?_⟩
      · have hcopied := @slice_memCopyNonOverlapping m (v.name + v.pathLength) v.lastItem size
          (by omega) (by omega) (by omega)
        rw [hitem] at hcopied
        rw [← hsize]
        refine { h with path_eq := ?_, last_eq := by rw [← hsize]; exact hcopied, last_le := by omega }
        conv_rhs => rw [← h.path_eq]
        apply ByteMem.slice_congr
        intro j h1 h2
        apply memCopyNonOverlapping_of_not_mem (by omega)
        rcases h.path_apart with h0 | ⟨-, hle⟩
        · omega
        · exact .inl (by omega)
      · intro j hj
        exact memCopyNonOverlapping_of_not_mem (by omega) (by omega)
      · intro names
        rw [listItems, if_pos hcond]
        simp only [if_pos hwrite]
        rfl
    · rw [if_neg fun hc => hwrite (hne.mp hc)]
      refine ⟨m, last, [], rfl, h, fun _ _ => rfl, fun names => ?_⟩
      rw [listItems, if_pos hcond]
      simp only [if_neg hwrite]
      rfl
  · rw [if_neg fun hc => hcond (hextends.mp hc)]
    refine ⟨m, last, [], rfl, h, fun _ _ => rfl, fun names => ?_⟩
    rw [listItems, if_neg hcond]
    rfl

/-- The invariant of the loop: the names in `after` are not read. -/
structure Scanning (n base : Nat) (f : Frame) (fs : List Frame) (i : Nat) (L : Layout) (v : ListLocals)
    (path last : List UInt8) (after : List (List UInt8 × Nat)) (k : Kernel) : Prop where
  framed : Framed k base (f :: fs)
  describes : Describes k.disk.io L
  readErrors : k.disk.io.readErrors = []
  streams : f.streams.length < n
  stream : ∃ s, f.streams[i]? = some s ∧ s.mode = MODE_LIST ∧ s.fileBlock = firstAddress 0 after
  entries : ∃ before, L.entries = before ++ after
  buffer : processContainsBuffer f.process v.name MAX_NAME_LENGTH = true
  buffers : Buffers k.heapLimit v path last k.memory

/-- The program changes its own memory. -/
theorem Scanning.memory {m : ByteMem} {last' : List UInt8}
    (h : Scanning n base f fs i L v path last after k) (hm : Buffers k.heapLimit v path last' m)
    (hframe : ∀ j, (j < v.lastItem ∨ v.lastItem + MAX_NAME_LENGTH ≤ j) → m j = k.memory j) :
    Scanning n base f fs i L v path last' after { k with memory := m } := by
  have hlimit := hm.limit_le
  have hlast := hm.lastItem
  have hheap := h.framed.heap_le
  have hframed : Framed { k with memory := m } base (f :: fs) :=
    @Framed.congr base k _ h.framed m k.disk fun j _ hlt => hframe j (.inl (by omega))
  exact ⟨hframed, h.describes, h.readErrors, h.streams, h.stream, h.entries, h.buffer, hm⟩

/-- A name is read. -/
theorem Scanning.read {x : List UInt8 × Nat} (h : Scanning n base f fs i L v path last (x :: after) k) :
    ∃ k' f', osRead n k (i + 4) v.name MAX_NAME_LENGTH [] = some (k', min MAX_NAME_LENGTH x.1.length) ∧
      k'.memory.slice v.name (min MAX_NAME_LENGTH x.1.length) = x.1.take MAX_NAME_LENGTH ∧
      k'.disk.io = k.disk.io ∧ Scanning n base f' fs i L v path last after k' := by
  rcases h.stream with ⟨s, hs, hmode, hblock⟩
  rcases h.entries with ⟨before, hentries⟩
  obtain ⟨k', s', hrun, hframed, hmode', hblock', hio, hlimit, hslice, hmem⟩ := @osRead_entry n base i k f
    fs L s v.name MAX_NAME_LENGTH [] x before after h.framed h.describes h.readErrors hs hmode hentries
    hblock h.streams (by decide) h.buffer
  refine ⟨k', f.setStream i s', hrun, hslice, hio, ?_⟩
  exact {
    framed := hframed
    describes := hio ▸ h.describes
    readErrors := hio ▸ h.readErrors
    streams := by
      rw [Frame.length_setStream]
      exact h.streams
    stream := ⟨s', Frame.getElem?_setStream hs, hmode', hblock'⟩
    entries := ⟨before ++ [x], by rw [hentries, List.append_assoc, List.singleton_append]⟩
    buffer := h.buffer
    buffers := by
      rw [hlimit]
      exact h.buffers.congr hmem }

/-- The loop writes the items of the names that remain. -/
theorem listLoop_eq (h : Scanning n base f fs i L v path last after k) (hstream : v.stream = i + 4)
    (hloops : after.length < loops) :
    ∃ k₁ length k', osRead n k (i + 4) v.name MAX_NAME_LENGTH [] = some (k₁, length) ∧
      listLoop n v loops k₁ length last.length = some (k',
        (listItems path (after.map fun x => x.1.take MAX_NAME_LENGTH) last).flatMap
          (fun item => [item, SEPARATOR]), OK) ∧ k'.disk.io = k.disk.io := by
  induction after generalizing f last k loops with
  | nil =>
    rcases h.stream with ⟨s, hs, hmode, hblock⟩
    obtain ⟨loops, rfl⟩ := Nat.exists_eq_succ_of_ne_zero (Nat.ne_of_gt (Nat.lt_of_le_of_lt (Nat.zero_le _)
      hloops))
    refine ⟨k, 0, k, osRead_listEnd h.framed hs hmode hblock h.streams (by decide) h.buffer, ?_, rfl⟩
    rw [listLoop, if_pos rfl]
    rfl
  | cons x after ih =>
    rcases h.read with ⟨k₁, f₁, hread, hslice, hio, hscanning⟩
    have hx : x ∈ L.entries := by
      rcases h.entries with ⟨before, hentries⟩
      rw [hentries]
      exact List.mem_append_right _ List.mem_cons_self
    have hpos := (h.describes.readEntry k.disk.blockBuffer h.readErrors hx).2.2.2.1
    obtain ⟨loops, rfl⟩ := Nat.exists_eq_succ_of_ne_zero (Nat.ne_of_gt (Nat.lt_of_le_of_lt (Nat.zero_le _)
      hloops))
    rcases listItem_eq hscanning.buffers hslice (Nat.min_le_left _ _) with
      ⟨m, last', texts, hitem, hbuffers, hframe, htexts⟩
    rw [List.length_cons] at hloops
    rcases ih (hscanning.memory hbuffers hframe) (Nat.lt_of_succ_lt_succ hloops) with
      ⟨k₂, length, k', hread', hloop, hio'⟩
    refine ⟨k₁, _, k', hread, ?_, hio'.trans hio⟩
    rw [listLoop, if_neg (by simp only [MAX_NAME_LENGTH]; omega), hitem]
    dsimp only
    rw [hstream, hread']
    dsimp only
    rw [hloop, Option.map_some, List.map_cons, htexts]

/-! ### The whole program -/

variable {args argsEnd args' heap heapLimit pathAddress pathLength : Nat}

/-- `list` returns `OK`, and writes the items of the names, each one truncated. -/
theorem listMain_eq (h : Reachable Event.KernelSafe k) (hL : Describes k.disk.io L)
    (hr : k.disk.io.readErrors = [])
    (hmemory : ProgramMemory (k.process k.currentProcess) args argsEnd heap heapLimit)
    (hbuffers : heap + 2 * MAX_NAME_LENGTH ≤ heapLimit)
    (hroom : k.heap + SIZEOF_FILE_STREAM ≤ k.heapLimit)
    (htoken : shReadToken k.memory args argsEnd 0 = (pathAddress, pathLength, args'))
    (hpath : pathLength = 0 ∨ k.memory (pathAddress + pathLength - 1) = SLASH) :
    ∃ N, ∀ n ≥ N, ∃ k', listMain n k args argsEnd heap heapLimit = some (k',
      (listItems (k.memory.slice pathAddress pathLength)
        ((L.entries.map Prod.fst).map (·.take MAX_NAME_LENGTH)) []).flatMap
          (fun item => [item, SEPARATOR]), OK) ∧ k'.disk.io = k.disk.io := by
  obtain ⟨base, f, fs, hframed⟩ := h.framed
  rw [hframed.process_eq] at hmemory
  have hbegin := hframed.begin_ge f List.mem_cons_self
  have hpos := hframed.base_pos
  have hbase := hframed.frames.base_le
  have hheapLe := hframed.heap_le
  have hend := hframed.fits.end_
  obtain ⟨hargs, hargsLe, hargsEnd, -, hlimit⟩ := hmemory
  simp only [MAX_NAME_LENGTH] at hbuffers
  refine ⟨f.streams.length + L.entries.length + 2, fun n hn => ?_⟩
  have hbuffer {size : Nat} (hsize : size ≤ MAX_NAME_LENGTH) :
      processContainsBuffer f.process heap size = true := by
    simp only [MAX_NAME_LENGTH] at hsize
    exact (processContainsBuffer_iff hframed.fits).mpr ⟨by omega, by omega, by omega⟩
  obtain ⟨k₁, i, s, hopen, hmode, hblock, hopens, hio⟩ := @osOpen_emptyName n base k f fs L heap hframed
    hL hr (by omega) hroom (hbuffer (Nat.zero_le _))
  obtain ⟨f', t, hf, ht, -, hframed₁⟩ := hopens.frame
  have hlength := hf.length_le
  have hbuffer' : processContainsBuffer f'.process heap MAX_NAME_LENGTH = true := by
    rw [hf.process_eq]
    exact hbuffer (le_refl _)
  have hpathApart : pathLength = 0 ∨ args ≤ pathAddress ∧ pathAddress + pathLength ≤ argsEnd := by
    rcases shReadToken_cases k.memory args argsEnd 0 with ⟨-, heq⟩ | ⟨token, size, heq, hge, -, hle, -⟩
    all_goals rw [htoken] at heq; obtain ⟨rfl, rfl, rfl⟩ := heq
    · exact .inl rfl
    · exact .inr ⟨hge, hle⟩
  have hkept : k₁.heapLimit = k.heapLimit := hopens.kept.heapLimit
  -- the loop starts with no last item, and all the files remain
  have hscanning : Scanning n base (f'.setStream i s) fs i L
      ⟨pathAddress, pathLength, heap, heap + MAX_NAME_LENGTH, i + 4⟩ (k.memory.slice pathAddress pathLength)
      [] L.entries k₁ := by
    refine ⟨hframed₁, hio ▸ hL, hio ▸ hr, ?_, ⟨s, Frame.getElem?_setStream ht, hmode, ?_⟩, ⟨[], rfl⟩, ?_,
      ?_⟩
    · rw [Frame.length_setStream]
      omega
    · rw [hblock, hL.firstFile_eq]
    · exact hbuffer'
    · simp only [MAX_NAME_LENGTH]
      refine ⟨by dsimp only; omega, by rw [ByteMem.slice_length], ?_, ?_, rfl, ?_, rfl, Nat.zero_le _⟩
      · apply ByteMem.slice_congr
        intro j h1 h2
        dsimp only at h1 h2
        apply hopens.kept.memory j
        omega
      · dsimp only
        omega
      · simp only [MAX_NAME_LENGTH]
        omega
  obtain ⟨k₂, length, k', hread, hloop, hio'⟩ := listLoop_eq hscanning rfl (show L.entries.length < n by
    omega)
  refine ⟨k', ?_, hio'.trans hio⟩
  have hcheck : ¬ (0 < pathLength ∧ k.memory (pathAddress + pathLength - 1) ≠ SLASH) := by
    rintro ⟨hlt, hne⟩
    rcases hpath with h0 | hslash
    · omega
    · exact hne hslash
  -- the two buffers are the first ones of the heap
  have hname : memAllocate MAX_NAME_LENGTH heap heapLimit = (heap, heap + MAX_NAME_LENGTH) := by
    simp only [memAllocate, MAX_NAME_LENGTH]
    exact if_neg (by omega)
  have hlast : memAllocate MAX_NAME_LENGTH (heap + MAX_NAME_LENGTH) heapLimit =
      (heap + MAX_NAME_LENGTH, heap + MAX_NAME_LENGTH + MAX_NAME_LENGTH) := by
    simp only [memAllocate, MAX_NAME_LENGTH]
    exact if_neg (by omega)
  rw [listMain, htoken]
  dsimp only
  rw [if_neg hcheck, hname]
  dsimp only
  rw [hlast]
  dsimp only
  rw [if_neg (by omega), hopen]
  dsimp only
  rw [hread]
  dsimp only
  rw [List.length_nil] at hloop
  rw [hloop, List.map_map]
  rfl

/-- The items can be read back from the texts that are written. -/
theorem flatMap_separator_inj {items items' : List (List UInt8)}
    (h : items.flatMap (fun item => [item, SEPARATOR]) = items'.flatMap fun item => [item, SEPARATOR]) :
    items = items' := by
  induction items generalizing items' with
  | nil =>
    cases items' with
    | nil => rfl
    | cons item' items' => cases h
  | cons item items ih =>
    cases items' with
    | nil => cases h
    | cons item' items' =>
      simp only [List.flatMap_cons, List.cons_append, List.nil_append, List.cons.injEq] at h
      rw [h.1, ih h.2.2]

/-- The program writes only one list of items. -/
theorem items_unique {items items' : List (List UInt8)} {io : BlockIo}
    (h : ∃ N, ∀ n ≥ N, ∃ k', listMain n k args argsEnd heap heapLimit =
      some (k', items.flatMap (fun item => [item, SEPARATOR]), OK))
    (h' : ∃ N, ∀ n ≥ N, ∃ k', listMain n k args argsEnd heap heapLimit =
      some (k', items'.flatMap (fun item => [item, SEPARATOR]), OK) ∧ k'.disk.io = io) :
    items = items' := by
  rcases h with ⟨N, hN⟩
  rcases h' with ⟨N', hN'⟩
  rcases hN (max N N') (le_max_left _ _) with ⟨k₁, h₁⟩
  rcases hN' (max N N') (le_max_right _ _) with ⟨k₂, h₂, -⟩
  rw [h₁, Option.some_inj, Prod.mk.injEq, Prod.mk.injEq] at h₂
  exact flatMap_separator_inj h₂.2.1

/-- A name of 300 bytes, longer than the buffers of the command. -/
def longName : List UInt8 := List.replicate 300 97

/-- A disk with two empty files, one of which has a name of 300 characters. -/
def longDisk : Disk where
  io :=
    { numBlocks := 3
      blocks := fun b =>
        if b = 0 then (DiskBlock.setNextBlock ⟨fun _ => 0⟩ 512).setNextFile 1
        else if b = 1 then newFileBlock ⟨fun _ => 0⟩ longName 2
        else newFileBlock ⟨fun _ => 0⟩ [115, 104, 101, 108, 108] 0
      readErrors := []
      size_le := three_blocks_le }
  blockBuffer := ⟨fun _ => 0⟩

/-- The layout of `longDisk`: the long name and the shell. -/
def longLayout : Layout := ⟨[], [⟨longName, 1, []⟩, ⟨[115, 104, 101, 108, 108], 2, []⟩]⟩

/-- `longDisk` is well-formed. -/
theorem longDisk_describes : Describes longDisk.io longLayout where
  super_lt := by decide
  free_path := by decide +kernel
  free_end := by decide +kernel
  files_path := by decide +kernel
  files_ok := by
    intro f hf
    rcases List.mem_pair.mp hf with rfl | rfl
    · exact {
        chain := by decide +kernel
        name_eq := by decide +kernel
        name_pos := by decide +kernel
        name_le := by decide +kernel
        name_chars := by decide +kernel
        size_ge := by decide +kernel
        size_le := by decide +kernel }
    · exact {
        chain := by decide +kernel
        name_eq := by decide +kernel
        name_pos := by decide
        name_le := by simp
        name_chars := by simp
        size_ge := by decide +kernel
        size_le := by decide +kernel }
  sorted := by decide +kernel
  partition := by decide +kernel

/-- The start of the kernel on this disk. -/
def longBoot : Option (Kernel × Nat) := osSpawnShell 3 (osInit 0 16 5 24576 longDisk shellMemory) 1000

theorem longBoot_eq : longBoot.isSome ∧ longBoot.map Prod.snd = some OK := by decide +kernel

/-- The system with this disk when its shell starts. -/
def longKernel : Kernel := (longBoot.get longBoot_eq.1).1

/-- `longKernel` is the kernel that starts. -/
theorem longKernel_boot :
    osSpawnShell 3 (osInit 0 16 5 24576 longDisk shellMemory) 1000 = some (longKernel, OK) :=
  boot_get longBoot_eq

/-- `longKernel` is reachable: no program has run. -/
theorem longKernel_reachable : Reachable Event.OutputSafe longKernel :=
  Reachable.boot ⟨0, 16, 5, 24576, longDisk, shellMemory, 3, 1000, by constructor <;> decide,
    longKernel_boot⟩

theorem longKernel_io : longKernel.disk.io = longDisk.io := osSpawnShell_io rfl longKernel_boot

/-- The disk of `longKernel` is described by `longLayout`. -/
theorem longKernel_describes : Describes longKernel.disk.io longLayout := by
  rw [longKernel_io]
  exact longDisk_describes

theorem longKernel_readErrors : longKernel.disk.io.readErrors = [] := by
  rw [longKernel_io]
  rfl

/-- There is room for one more stream. -/
theorem longKernel_room : longKernel.heap + SIZEOF_FILE_STREAM ≤ longKernel.heapLimit := by
  decide +kernel

/-- The program runs in the page of the shell. -/
theorem longKernel_memory :
    ProgramMemory (longKernel.process longKernel.currentProcess) 4096 4096 4096 5120 := by
  constructor
  all_goals decide +kernel

/-- The long name is in the list. -/
theorem longName_mem : longName ∈ longLayout.entries.map Prod.fst := by
  simp only [longLayout, Layout.entries, List.map_cons, List.mem_cons, true_or]

/-- The long name extends the empty path. -/
theorem longName_extends : Extends (longKernel.memory.slice 0 0) longName := by
  refine ⟨?_, List.take_zero⟩
  rw [ByteMem.slice_zero, longName, List.length_replicate, List.length_nil]
  decide

/-- A name without a slash is its first component. -/
theorem firstComponent_replicate {c : UInt8} (hc : c ≠ SLASH) (n : Nat) :
    firstComponent (List.replicate n c) = List.replicate n c := by
  induction n with
  | zero => rfl
  | succ n ih => rw [List.replicate_succ, firstComponent, if_neg hc, ih]

/-- The long name is its component. -/
theorem longName_component : component (longKernel.memory.slice 0 0) longName = longName :=
  firstComponent_replicate (by decide) 300

/-- The command has no argument: its path is empty. -/
theorem longKernel_token : shReadToken longKernel.memory 4096 4096 0 = (0, 0, 4096) := by
  decide +kernel

end Toys.Commands
