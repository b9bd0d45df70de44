import Mathlib

namespace Toys.Lib

/-!
# Library — a text with a cursor

A text is edited at a cursor, which is between what is before it and what is after it.  The
cursor moves by one character, or to the start of a line.

* `TextCursor` — the text before and after the cursor, and its operations;
* `lineStart` — the position of the start of a line;
* `lineStart_append`, `lineStart_append_count` — and its lines in the two parts of a text.
-/

/-- A text with a cursor. -/
structure TextCursor (α : Type*) where
  before : List α
  after : List α

variable {α : Type*}

namespace TextCursor

/-- The whole text. -/
def text (t : TextCursor α) : List α := t.before ++ t.after

/-- The cursor at the position `p` of the text. -/
def goto (t : TextCursor α) (p : Nat) : TextCursor α := ⟨t.text.take p, t.text.drop p⟩

/-- The cursor moves one character to the left. -/
def left (t : TextCursor α) : TextCursor α := t.goto (t.before.length - 1)

/-- The cursor moves one character to the right. -/
def right (t : TextCursor α) : TextCursor α := t.goto (t.before.length + 1)

/-- A character is inserted before the cursor. -/
def insert (t : TextCursor α) (x : α) : TextCursor α := ⟨t.before ++ [x], t.after⟩

/-- Removes the character before the cursor. -/
def backspace (t : TextCursor α) : TextCursor α := ⟨t.before.dropLast, t.after⟩

@[simp] theorem text_goto (t : TextCursor α) (p : Nat) : (t.goto p).text = t.text :=
  List.take_append_drop p t.text

theorem length_text (t : TextCursor α) : t.text.length = t.before.length + t.after.length :=
  List.length_append

/-- The position of the cursor. -/
theorem length_before_goto (t : TextCursor α) {p : Nat} (h : p ≤ t.text.length) :
    (t.goto p).before.length = p := List.length_take_of_le h

theorem goto_length (t : TextCursor α) : t.goto t.before.length = t := by
  obtain ⟨before, after⟩ := t
  simp [goto, text]

end TextCursor

/-! ### Lines -/

variable [DecidableEq α] {newline : α} {l r : List α} {k : Nat}

/-- The position of the start of the line `k` of a text, or of the end of the text if there are
    less lines. -/
def lineStart (newline : α) : List α → Nat → Nat
  | _, 0 => 0
  | [], _ + 1 => 0
  | c :: l, k + 1 => 1 + if c = newline then lineStart newline l k else lineStart newline l (k + 1)

/-- The first line starts at 0. -/
@[simp] theorem lineStart_zero : lineStart newline l 0 = 0 := by
  cases l with
  | nil => rfl
  | cons c l => rfl

/-- A line starts in the text. -/
theorem lineStart_le : lineStart newline l k ≤ l.length := by
  induction l generalizing k with
  | nil =>
    cases k with
    | zero => exact le_refl 0
    | succ k => exact le_refl 0
  | cons c l ih =>
    cases k with
    | zero => exact Nat.zero_le _
    | succ k =>
      have h1 := ih (k := k)
      have h2 := ih (k := k + 1)
      rw [lineStart, List.length_cons]
      split_ifs
      · omega
      · omega

/-- The lines that start in the first part of a text. -/
theorem lineStart_append (h : k ≤ l.count newline) :
    lineStart newline (l ++ r) k = lineStart newline l k := by
  induction l generalizing k with
  | nil =>
    obtain rfl : k = 0 := by simpa using h
    simp
  | cons c l ih =>
    cases k with
    | zero => rfl
    | succ k =>
      rw [List.cons_append, lineStart, lineStart]
      by_cases hc : c = newline
      · rw [if_pos hc, if_pos hc]
        rw [hc, List.count_cons_self] at h
        rw [ih (by omega)]
      · rw [if_neg hc, if_neg hc]
        rw [List.count_cons_of_ne hc] at h
        rw [ih h]

/-- The lines that start in the second part of a text. -/
theorem lineStart_append_count :
    lineStart newline (l ++ r) (l.count newline + (k + 1)) =
      l.length + lineStart newline r (k + 1) := by
  induction l with
  | nil => simp
  | cons c l ih =>
    rw [List.cons_append, List.length_cons]
    by_cases hc : c = newline
    · rw [hc, List.count_cons_self, Nat.add_right_comm, lineStart, if_pos rfl, ih]
      omega
    · rw [List.count_cons_of_ne hc, ← Nat.add_assoc, lineStart, if_neg hc, Nat.add_assoc, ih]
      omega

/-- The last line of a text that ends with a newline is empty. -/
theorem lineStart_count_append :
    lineStart newline (l ++ [newline]) (l.count newline + 1) = l.length + 1 := by
  have h : lineStart newline (l ++ [newline]) (l.count newline + (0 + 1)) =
      l.length + lineStart newline [newline] (0 + 1) := lineStart_append_count
  simpa [lineStart] using h

namespace TextCursor

/-- The number of the line of the cursor. -/
def line (newline : α) (t : TextCursor α) : Nat := t.before.count newline

/-- The cursor moves to the start of the line that is `k` lines above, or of the text. -/
def up (newline : α) (k : Nat) (t : TextCursor α) : TextCursor α :=
  t.goto (lineStart newline t.text (t.line newline - k))

/-- The cursor moves to the start of the line that is `k` lines below, or to the end of the text. -/
def down (newline : α) (k : Nat) (t : TextCursor α) : TextCursor α :=
  t.goto (lineStart newline t.text (t.line newline + k))

end TextCursor

end Toys.Lib
