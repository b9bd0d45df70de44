import Mathlib

namespace Toys.Lib

/-!
# Library — null-terminated linked lists

A linked list is given by a successor function `next` on addresses and a null address.
`Path null next a l b` says that following `next` from `a` visits exactly the non-null
addresses `l`, in this order, and then arrives at `b`; a whole list is a path to `null`.

* `path_append` — paths compose;
* `Path.congr` — a path only depends on the successors of the addresses it visits;
* `Path.unique` / `Path.nodup` — a path to null is determined by its start and acyclic;
* `Path.insert` / `Path.erase` — relinking one address adds or removes the one after it.
-/

variable {α : Type*} {null : α} {next next' : α → α}

/-- Following `next` from `a` visits the non-null addresses `l`, then arrives at `b`. -/
def Path (null : α) (next : α → α) : α → List α → α → Prop
  | a, [], b => a = b
  | a, x :: l, b => a = x ∧ x ≠ null ∧ Path null next (next x) l b

@[simp] theorem path_nil {a b : α} : Path null next a [] b ↔ a = b := Iff.rfl

@[simp] theorem path_cons {a x b : α} {l : List α} :
    Path null next a (x :: l) b ↔ a = x ∧ x ≠ null ∧ Path null next (next x) l b := Iff.rfl

/-- Paths can be decided. -/
instance decidablePath [DecidableEq α] : ∀ (a : α) (l : List α) (b : α),
    Decidable (Path null next a l b)
  | a, [], b => inferInstanceAs (Decidable (a = b))
  | a, x :: l, b =>
    have := decidablePath (next x) l b
    inferInstanceAs (Decidable (a = x ∧ x ≠ null ∧ Path null next (next x) l b))

/-- A path in two parts. -/
theorem path_append {a b : α} {l₁ l₂ : List α} :
    Path null next a (l₁ ++ l₂) b ↔ ∃ c, Path null next a l₁ c ∧ Path null next c l₂ b := by
  induction l₁ generalizing a with
  | nil => simp
  | cons x l ih => simp only [List.cons_append, path_cons, ih]; grind

/-- A path depends on the links of its nodes only. -/
theorem Path.congr {a b : α} {l : List α} (h : Path null next a l b)
    (heq : ∀ x ∈ l, next' x = next x) : Path null next' a l b := by
  induction l generalizing a with
  | nil => exact h
  | cons x l ih =>
    obtain ⟨rfl, hx, h⟩ := h
    refine ⟨rfl, hx, ?_⟩
    rw [heq a (by simp)]
    exact ih h fun y hy => heq y (by simp [hy])

/-- The nodes of a path are not null. -/
theorem Path.ne_null {a b : α} {l : List α} (h : Path null next a l b) : ∀ x ∈ l, x ≠ null := by
  induction l generalizing a with
  | nil => simp
  | cons x l ih =>
    obtain ⟨rfl, hx, h⟩ := h
    simpa [hx] using ih h

/-- A path is non-empty exactly when it starts at an address other than null. -/
theorem Path.eq_nil_iff {a : α} {l : List α} (h : Path null next a l null) :
    l = [] ↔ a = null := by
  cases l with
  | nil => simpa using h
  | cons x l => obtain ⟨rfl, hx, -⟩ := h; simpa using hx

/-- The start of a path that ends at null. -/
theorem Path.eq_headD {a : α} {l : List α} (h : Path null next a l null) : a = l.headD null := by
  cases l with
  | nil => exact h
  | cons x l => exact h.1

/-- Of two paths to null from one address, neither is longer: they are the same. -/
theorem Path.unique {a : α} {l l' : List α} (h : Path null next a l null)
    (h' : Path null next a l' null) : l = l' := by
  induction l generalizing a l' with
  | nil => exact ((h'.eq_nil_iff).mpr h).symm
  | cons x l ih =>
    cases l' with
    | nil => exact absurd h' (by obtain ⟨rfl, hx, -⟩ := h; simpa using hx)
    | cons y l' =>
      obtain ⟨rfl, -, h⟩ := h
      obtain ⟨rfl, -, h'⟩ := h'
      rw [ih h h']

/-- A list that ends at null is acyclic: a repeated address would repeat forever. -/
theorem Path.nodup {a : α} {l : List α} (h : Path null next a l null) : l.Nodup := by
  induction l generalizing a with
  | nil => simp
  | cons x l ih =>
    obtain ⟨-, hx, h⟩ := h
    refine List.nodup_cons.mpr ⟨fun hmem => ?_, ih h⟩
    -- the suffix of `l` after the second `x` is itself the whole list from `next x`
    obtain ⟨l₁, l₂, rfl⟩ := List.append_of_mem hmem
    obtain ⟨c, -, -, -, hsuffix⟩ := path_append.mp h
    have := congrArg List.length (h.unique hsuffix)
    simp at this
    omega

/-- Only the last address of a list has no successor. -/
theorem Path.eq_getLast {a x : α} {l : List α} (h : Path null next a l null) (hx : x ∈ l)
    (h0 : next x = null) : l.getLast? = some x := by
  obtain ⟨l₁, l₂, rfl⟩ := List.append_of_mem hx
  obtain ⟨c, -, -, -, hsuffix⟩ := path_append.mp h
  obtain rfl : l₂ = [] := hsuffix.eq_nil_iff.mpr h0
  simp

/-! ### Relinking

The list is the one after a cell `s` that is not part of it (its head pointer), so that its
first address is inserted and removed like the others. -/

/-- The last cell of `s` followed by `l`. -/
abbrev lastFrom (s : α) (l : List α) : α := l.getLastD s

/-- The last node is the start or a node of the list. -/
theorem lastFrom_mem (s : α) (l : List α) : lastFrom s l ∈ s :: l := by
  cases l using List.reverseRecOn <;> simp

/-- The nodes before the last one, and the last one. -/
theorem dropLast_append_lastFrom (s : α) (l : List α) :
    (s :: l).dropLast ++ [lastFrom s l] = s :: l := by
  induction l generalizing s with
  | nil => rfl
  | cons x l ih =>
    rw [lastFrom, List.getLastD_cons, List.dropLast_cons_cons, List.cons_append, ih]

/-- A node out of the list is not the last one. -/
theorem lastFrom_ne {s x : α} {l : List α} (h : x ∉ s :: l) : lastFrom s l ≠ x := by
  rintro rfl
  exact h (lastFrom_mem s l)

/-- The last node of two lists. -/
theorem lastFrom_append (s : α) (l₁ l₂ : List α) :
    lastFrom s (l₁ ++ l₂) = lastFrom (lastFrom s l₁) l₂ := by
  cases l₂ using List.reverseRecOn with
  | nil => simp
  | append_singleton l x => simp only [lastFrom, ← List.append_assoc, List.getLastD_concat]

/-- The last cell of a prefix of a list links to the rest of the list. -/
theorem Path.next_lastFrom {s : α} {l₁ l₂ : List α}
    (h : Path null next (next s) (l₁ ++ l₂) null) : next (lastFrom s l₁) = l₂.headD null := by
  induction l₁ generalizing s with
  | nil =>
    cases l₂ with
    | nil => simpa using h
    | cons x l => simpa using h.1
  | cons y l ih =>
    obtain ⟨-, -, h⟩ := h
    simpa only [lastFrom, List.getLastD_cons] using ih h

/-- Linking `x` after the last cell of `l₁` inserts it between `l₁` and `l₂`. -/
theorem Path.insert {s x b : α} {l₁ l₂ : List α}
    (h : Path null next (next s) (l₁ ++ l₂) b) (hnd : (s :: (l₁ ++ l₂)).Nodup) (hx : x ≠ null)
    (hlast : next' (lastFrom s l₁) = x) (hnew : next' x = next (lastFrom s l₁))
    (hframe : ∀ y ∈ s :: (l₁ ++ l₂), y ≠ lastFrom s l₁ → next' y = next y) :
    Path null next' (next' s) (l₁ ++ x :: l₂) b := by
  induction l₁ generalizing s with
  | nil =>
    simp only [List.nil_append, lastFrom, List.getLastD_nil] at *
    refine ⟨hlast, hx, ?_⟩
    rw [hnew]
    refine h.congr fun y hy => hframe y (by simp [hy]) ?_
    rintro rfl
    exact (List.nodup_cons.mp hnd).1 hy
  | cons y l ih =>
    simp only [List.cons_append, lastFrom, List.getLastD_cons, path_cons] at *
    obtain ⟨hsy, hy, h⟩ := h
    have hs : s ≠ lastFrom y l := (lastFrom_ne fun hmem =>
      (List.nodup_cons.mp hnd).1 (by simp at hmem ⊢; tauto)).symm
    refine ⟨by rw [hframe s (by simp) hs, hsy], hy, ?_⟩
    exact ih h (List.nodup_cons.mp hnd).2 hlast hnew fun w hw => hframe w (by simp_all)

/-- Linking the last cell of `l₁` to the cell after `x` removes `x`. -/
theorem Path.erase {s x b : α} {l₁ l₂ : List α}
    (h : Path null next (next s) (l₁ ++ x :: l₂) b) (hnd : (s :: (l₁ ++ x :: l₂)).Nodup)
    (hlast : next' (lastFrom s l₁) = next x)
    (hframe : ∀ y ∈ s :: (l₁ ++ l₂), y ≠ lastFrom s l₁ → next' y = next y) :
    Path null next' (next' s) (l₁ ++ l₂) b := by
  induction l₁ generalizing s with
  | nil =>
    simp only [List.nil_append, lastFrom, List.getLastD_nil, path_cons] at *
    rw [hlast]
    refine h.2.2.congr fun y hy => hframe y (by simp [hy]) ?_
    rintro rfl
    exact (List.nodup_cons.mp hnd).1 (by simp [hy])
  | cons y l ih =>
    simp only [List.cons_append, lastFrom, List.getLastD_cons, path_cons] at *
    obtain ⟨hsy, hy, h⟩ := h
    have hs : s ≠ lastFrom y l := (lastFrom_ne fun hmem =>
      (List.nodup_cons.mp hnd).1 (by simp at hmem ⊢; tauto)).symm
    refine ⟨by rw [hframe s (by simp) hs, hsy], hy, ?_⟩
    exact ih h (List.nodup_cons.mp hnd).2 hlast fun w hw => hframe w (by simp_all)

/-- Linking the last cell of a list to the start of another one puts them end to end. -/
theorem Path.splice {a b c x : α} {l₁ l₂ : List α}
    (h₁ : Path null next a (x :: l₁) null) (h₂ : Path null next' c l₂ b)
    (hnd : (x :: l₁).Nodup) (hlast : next' (lastFrom x l₁) = c)
    (hframe : ∀ y ∈ x :: l₁, y ≠ lastFrom x l₁ → next' y = next y) :
    Path null next' a (x :: l₁ ++ l₂) b := by
  induction l₁ generalizing a x with
  | nil =>
    simp only [lastFrom, List.getLastD_nil] at hlast
    exact ⟨h₁.1, h₁.2.1, hlast ▸ h₂⟩
  | cons y l ih =>
    simp only [lastFrom, List.getLastD_cons] at hlast hframe
    have hx : x ≠ lastFrom y l := (lastFrom_ne (List.nodup_cons.mp hnd).1).symm
    refine ⟨h₁.1, h₁.2.1, ?_⟩
    rw [hframe x (by simp) hx]
    exact ih h₁.2.2 (List.nodup_cons.mp hnd).2 hlast fun w hw => hframe w (by simp_all)

end Toys.Lib
