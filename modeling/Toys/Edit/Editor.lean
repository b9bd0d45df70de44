import Mathlib
import Toys.Lib.TextCursor
import Toys.Edit.MemCopy

namespace Toys.Edit

open Toys.Lib

/-!
# Editor — the gap buffer

The text is in a buffer with a gap at the cursor: the characters before the cursor are at the
start of the buffer, those after it are at the end.

* `textEditor` and what it calls — the functions of the source;
* `Edits` — the buffer holds a text with a cursor;
* `tedMoveBackward_spec`, `tedMoveForward_spec` — the lines are found;
* `Edits.key` — what a key does to the text;
* `textEditor_refines` — the text after any number of keys.

The addresses are the numbers of the bytes.  A loop that does not end within `bound` iterations
gives `none`.
-/

/-! ### The functions -/

/-- The key that moves the cursor one line down. -/
def ARROW_DOWN_KEY : Nat := 130

/-- The key that moves the cursor one character to the left. -/
def ARROW_LEFT_KEY : Nat := 132

/-- The key that moves the cursor one character to the right. -/
def ARROW_RIGHT_KEY : Nat := 131

/-- The key that moves the cursor one line up. -/
def ARROW_UP_KEY : Nat := 129

/-- The key that deletes the character before the cursor. -/
def BACKSPACE_KEY : Nat := 8

/-- The key that deletes the character after the cursor. -/
def DELETE_KEY : Nat := 127

/-- The key that inserts a new line. -/
def ENTER_KEY : Nat := 10

/-- The key that leaves the editor. -/
def ESCAPE_KEY : Nat := 151

/-- The key that moves the cursor one page down. -/
def PAGE_DOWN_KEY : Nat := 138

/-- The key that moves the cursor one page up. -/
def PAGE_UP_KEY : Nat := 137

/-- The key of the tabulation, which is drawn as two spaces. -/
def TAB_KEY : Nat := 9

/-- The color in which the text is drawn. -/
def GREEN : Nat := 2

/-- What the editor asks the kernel to draw. -/
inductive GpuCommand
  | clearScreen
  | setColor (color : Nat)
  | setCursor (col row : Nat)
  | drawChar (c : Nat)
  | drawCursor (col row : Nat)
  | switchBuffer
  deriving Repr, DecidableEq

/-- `ted_set_cursor`: the memory and the new cursor.  Its parameter `begin` is not used. -/
def tedSetCursor (bound : Nat) (m : ByteMem) (cursor gap newCursor : Nat) : Option (ByteMem × Nat) :=
  if newCursor > cursor then
    (memCopy bound m (U64.add cursor gap) cursor (U64.sub newCursor cursor)).map (·, newCursor)
  else
    (memCopy bound m newCursor (U64.add newCursor gap) (U64.sub cursor newCursor)).map (·, newCursor)

/-- The loop of `ted_move_backward`: the variables `ptr`, `*col` and `*row`. -/
def tedMoveBackwardLoop (m : ByteMem) (beginPtr lines : Nat) :
    (bound : Nat) → (ptr col row : Nat) → Option (Nat × Nat × Nat)
  | 0, _, _, _ => none
  | bound + 1, ptr, col, row =>
    if ptr > beginPtr then
      let c := m.load 1 (U64.sub ptr 1)
      if c = ENTER_KEY then
        if row = lines then some (ptr, col, row)
        else tedMoveBackwardLoop m beginPtr lines bound (U64.sub ptr 1) col (U64.add row 1)
      else if row = 0 then
        if c = TAB_KEY then
          tedMoveBackwardLoop m beginPtr lines bound (U64.sub ptr 1) (U64.add col 2) row
        else tedMoveBackwardLoop m beginPtr lines bound (U64.sub ptr 1) (U64.add col 1) row
      else tedMoveBackwardLoop m beginPtr lines bound (U64.sub ptr 1) col row
    else some (ptr, col, row)

/-- `ted_move_backward`, from a column and a row that are 0. -/
def tedMoveBackward (bound : Nat) (m : ByteMem) (beginPtr cursor lines : Nat) :
    Option (Nat × Nat × Nat) :=
  tedMoveBackwardLoop m beginPtr lines bound cursor 0 0

/-- `ted_move_forward`. -/
def tedMoveForward (m : ByteMem) (gap endPtr : Nat) :
    (bound : Nat) → (cursor lines : Nat) → Option Nat
  | 0, _, _ => none
  | bound + 1, cursor, lines =>
    if cursor = U64.sub endPtr gap then some cursor
    else if m.load 1 (U64.add cursor gap) = ENTER_KEY then
      if lines = 1 then some (U64.add cursor 1)
      else tedMoveForward m gap endPtr bound (U64.add cursor 1) (U64.sub lines 1)
    else tedMoveForward m gap endPtr bound (U64.add cursor 1) lines

/-- `ted_handle_key`. -/
def tedHandleKey (bound : Nat) (m : ByteMem) (beginPtr cursor gap endPtr c : Nat) : Option Nat :=
  if c = ARROW_LEFT_KEY ∧ cursor > beginPtr then some (U64.sub cursor 1)
  else if c = ARROW_RIGHT_KEY ∧ cursor < U64.sub endPtr gap then some (U64.add cursor 1)
  else if c = ARROW_UP_KEY then (tedMoveBackward bound m beginPtr cursor 1).map Prod.fst
  else if c = ARROW_DOWN_KEY then tedMoveForward m gap endPtr bound cursor 1
  else if c = PAGE_UP_KEY then (tedMoveBackward bound m beginPtr cursor 30).map Prod.fst
  else if c = PAGE_DOWN_KEY then tedMoveForward m gap endPtr bound cursor 30
  else some cursor

/-- The pointer after the gap, if it is at the gap. -/
def skipGap (cursor gap ptr : Nat) : Nat := if ptr = cursor then U64.add ptr gap else ptr

/-- The loop of `ted_draw`: the variables `ptr` and `r`, and what is drawn. -/
def tedDrawLoop (m : ByteMem) (cursor gap endPtr : Nat) :
    (bound : Nat) → (ptr r : Nat) → Option (List GpuCommand)
  | 0, _, _ => none
  | bound + 1, ptr, r =>
    if ptr < endPtr ∧ r < 30 then
      let c := m.load 1 ptr
      let next := skipGap cursor gap (U64.add ptr 1)
      if c = ENTER_KEY then
        let r := U64.add r 1
        (tedDrawLoop m cursor gap endPtr bound next r).map ([.setCursor 0 r] ++ ·)
      else if c = TAB_KEY then
        (tedDrawLoop m cursor gap endPtr bound next r).map
          ([.drawChar ' '.toNat, .drawChar ' '.toNat] ++ ·)
      else (tedDrawLoop m cursor gap endPtr bound next r).map ([.drawChar c] ++ ·)
    else some []

/-- `ted_draw`. -/
def tedDraw (bound : Nat) (m : ByteMem) (beginPtr cursor gap endPtr : Nat) :
    Option (List GpuCommand) :=
  match tedMoveBackward bound m beginPtr cursor 15 with
  | none => none
  | some (ptr, col, row) =>
    (tedDrawLoop m cursor gap endPtr bound (skipGap cursor gap ptr) 0).map fun commands =>
      [.clearScreen, .setCursor 0 0] ++ commands ++ [.drawCursor col row, .switchBuffer]

/-- The variables of `text_editor`, with the memory and what was drawn. -/
structure Editor where
  memory : ByteMem
  cursor : Nat
  gap : Nat
  gpu : List GpuCommand

/-- `ted_draw`, in the loop of `text_editor`. -/
def Editor.draw (bound beginPtr endPtr : Nat) (s : Editor) : Option Editor :=
  (tedDraw bound s.memory beginPtr s.cursor s.gap endPtr).map fun commands =>
    { s with gpu := s.gpu ++ commands }

/-- What the loop of `text_editor` does for a key `c` other than the escape key, before it draws. -/
def textEditorKey (bound beginPtr endPtr : Nat) (s : Editor) (c : Nat) : Option Editor :=
  if c = BACKSPACE_KEY then
    if s.cursor > beginPtr then
      some { s with cursor := U64.sub s.cursor 1, gap := U64.add s.gap 1 }
    else some s
  else if c < DELETE_KEY then
    if s.gap > 0 then
      some { s with
        memory := s.memory.store 1 s.cursor c
        cursor := U64.add s.cursor 1
        gap := U64.sub s.gap 1 }
    else some s
  else
    match tedHandleKey bound s.memory beginPtr s.cursor s.gap endPtr c with
    | none => none
    | some newCursor =>
      (tedSetCursor bound s.memory s.cursor s.gap newCursor).map fun (memory, cursor) =>
        { s with memory := memory, cursor := cursor }

/-- Where `text_editor` is when all the keys were read: it waits for another key, or it has
    returned. -/
inductive Session
  | waiting (s : Editor)
  | returned (memory : ByteMem)

/-- The loop of `text_editor`, for the keys that are read. -/
def textEditorLoop (bound buffer beginPtr endPtr : Nat) : (keys : List Nat) → Editor → Option Session
  | [], s => some (.waiting s)
  | c :: keys, s =>
    if c = ESCAPE_KEY then
      (tedSetCursor bound s.memory s.cursor s.gap (U64.sub endPtr s.gap)).map fun (memory, cursor) =>
        .returned (memory.store 8 buffer (U64.sub cursor beginPtr))
    else
      match textEditorKey bound beginPtr endPtr s c with
      | none => none
      | some s =>
        match s.draw bound beginPtr endPtr with
        | none => none
        | some s => textEditorLoop bound buffer beginPtr endPtr keys s

/-- `text_editor`. -/
def textEditor (bound : Nat) (m : ByteMem) (buffer offset maxLength : Nat) (keys : List Nat) :
    Option Session :=
  let length := m.load 8 buffer
  if length > maxLength then some (.returned m)
  else
    let beginPtr := U64.add buffer 8
    let cursor := U64.add beginPtr length
    let endPtr := U64.add beginPtr maxLength
    let gap := U64.sub endPtr cursor
    let offset := if offset > length then length else offset
    match tedSetCursor bound m cursor gap (U64.add beginPtr offset) with
    | none => none
    | some (memory, cursor) =>
      match (Editor.mk memory cursor gap [.setColor GREEN]).draw bound beginPtr endPtr with
      | none => none
      | some s => textEditorLoop bound buffer beginPtr endPtr keys s

/-! ### The text -/

variable {m₀ m : ByteMem} {buffer maxLength bound lines ptr col row k : Nat} {s s' : Editor}
  {t : TextCursor UInt8}

/-- The character that ends the lines. -/
def newline : UInt8 := 10

/-- The buffer holds the text `t`, with its gap at the cursor.  The rest of the memory is as in
    `m₀`. -/
structure Edits (m₀ : ByteMem) (buffer maxLength : Nat) (t : TextCursor UInt8) (s : Editor) : Prop where
  fits : buffer + 8 + maxLength < 2 ^ 64
  cursor_eq : s.cursor = buffer + 8 + t.before.length
  gap_eq : s.gap + t.text.length = maxLength
  before_eq : s.memory.slice (buffer + 8) t.before.length = t.before
  after_eq : s.memory.slice (s.cursor + s.gap) t.after.length = t.after
  frame : ∀ a, (a < buffer + 8 ∨ buffer + 8 + maxLength ≤ a) → s.memory a = m₀ a

/-- A slice of the memory, byte by byte. -/
theorem slice_eq_iff {l : List UInt8} {a : Nat} :
    m.slice a l.length = l ↔ ∀ (i : Nat) (hi : i < l.length), m (a + i) = l[i] := by
  constructor
  · intro h i hi
    have h' := List.getElem_of_eq h (by simpa using hi)
    simpa [ByteMem.slice] using h'
  · intro h
    refine List.ext_getElem (by simp) fun i h1 h2 => ?_
    rw [← h i h2]
    simp [ByteMem.slice]

/-- A byte before the cursor. -/
theorem Edits.before_byte (h : Edits m₀ buffer maxLength t s) {i : Nat} (hi : i < t.before.length) :
    s.memory (buffer + 8 + i) = t.before[i] := slice_eq_iff.mp h.before_eq i hi

/-- A byte after the cursor. -/
theorem Edits.after_byte (h : Edits m₀ buffer maxLength t s) {i : Nat} (hi : i < t.after.length) :
    s.memory (s.cursor + s.gap + i) = t.after[i] := slice_eq_iff.mp h.after_eq i hi

theorem load_one (m : ByteMem) (a : Nat) : m.load 1 a = (m a).toNat := by
  simp [ByteMem.load]

theorem toNat_eq_enter {x : UInt8} : x.toNat = ENTER_KEY ↔ x = newline := by
  rw [← UInt8.toNat_inj]
  rfl

/-! ### Moving by lines -/

/-- The loop of `ted_move_backward` on a text `l`, `k` lines above the one of its end. -/
theorem tedMoveBackwardLoop_spec {l : List UInt8} {beginPtr : Nat} (hlt : beginPtr + l.length < 2 ^ 64)
    (hl : m.slice beginPtr l.length = l) (hrow : row + k = lines) (hlines : lines < 2 ^ 64)
    (hbound : l.length < bound) :
    ∃ col' row', tedMoveBackwardLoop m beginPtr lines bound (beginPtr + l.length) col row =
      some (beginPtr + lineStart newline l (l.count newline - k), col', row') := by
  induction l using List.reverseRecOn generalizing bound col row k with
  | nil =>
    obtain ⟨bound, rfl⟩ : ∃ b, bound = b + 1 := ⟨bound - 1, by omega⟩
    refine ⟨col, row, ?_⟩
    rw [tedMoveBackwardLoop, if_neg (by simp)]
    simp
  | append_singleton l c ih =>
    rw [List.length_append, List.length_singleton] at hlt hl hbound ⊢
    obtain ⟨bound, rfl⟩ : ∃ b, bound = b + 1 := ⟨bound - 1, by omega⟩
    -- the last character of the text, and the text before it
    rw [ByteMem.slice_add] at hl
    obtain ⟨hbefore, hlast⟩ := List.append_inj hl (by simp)
    have hc : m (beginPtr + l.length) = c := by simpa [ByteMem.slice] using hlast
    rw [tedMoveBackwardLoop, if_pos (by omega), U64.sub_eq (by omega) (by omega),
      show beginPtr + (l.length + 1) - 1 = beginPtr + l.length by omega]
    simp only [load_one, hc]
    by_cases hnew : c = newline
    · subst hnew
      rw [if_pos (toNat_eq_enter.mpr rfl), List.count_append, List.count_singleton_self]
      by_cases hk : k = 0
      · -- the start of the line is found
        subst hk
        rw [if_pos (by omega)]
        refine ⟨col, row, ?_⟩
        rw [Nat.sub_zero, lineStart_count_append]
      · rw [if_neg (by omega), U64.add_eq (by omega)]
        obtain ⟨col', row', heq⟩ := @ih bound col (row + 1) (k - 1) (by omega) hbefore (by omega)
          (by omega)
        refine ⟨col', row', ?_⟩
        rw [heq, lineStart_append (by omega), show l.count newline + 1 - k = l.count newline - (k - 1)
          by omega]
    · rw [if_neg fun h => hnew (toNat_eq_enter.mp h), List.count_append,
        List.count_singleton, beq_false_of_ne hnew, if_neg Bool.false_ne_true, Nat.add_zero,
        lineStart_append (by omega)]
      split_ifs
      all_goals exact ih (by omega) hbefore hrow (by omega)

/-- `ted_move_backward` finds the start of the line that is `lines` lines above. -/
theorem tedMoveBackward_spec (h : Edits m₀ buffer maxLength t s) (hlines : lines < 2 ^ 64)
    (hbound : maxLength < bound) :
    ∃ col row, tedMoveBackward bound s.memory (buffer + 8) s.cursor lines =
      some (buffer + 8 + (t.up newline lines).before.length, col, row) := by
  have hlength := t.length_text
  have hgap := h.gap_eq
  have hfits := h.fits
  have hloop : ∃ col' row', tedMoveBackwardLoop s.memory (buffer + 8) lines bound s.cursor 0 0 =
      some (buffer + 8 + lineStart newline t.before (t.before.count newline - lines), col', row') := by
    rw [h.cursor_eq]
    exact tedMoveBackwardLoop_spec (by omega) h.before_eq (Nat.zero_add lines) hlines (by omega)
  rw [TextCursor.up, TextCursor.length_before_goto _ lineStart_le, TextCursor.line, TextCursor.text,
    lineStart_append (Nat.sub_le _ _)]
  exact hloop

/-- `ted_move_forward` on a text `l`. -/
theorem tedMoveForward_loop {l : List UInt8} {cursor gap endPtr : Nat} (hlt : endPtr < 2 ^ 64)
    (hend : cursor + gap + l.length = endPtr) (hl : m.slice (cursor + gap) l.length = l)
    (hk : k + 1 < 2 ^ 64) (hbound : l.length < bound) :
    tedMoveForward m gap endPtr bound cursor (k + 1) =
      some (cursor + lineStart newline l (k + 1)) := by
  induction l generalizing bound cursor k with
  | nil =>
    obtain ⟨bound, rfl⟩ : ∃ b, bound = b + 1 := ⟨bound - 1, by omega⟩
    rw [List.length_nil] at hend
    rw [tedMoveForward, U64.sub_eq (by omega) (by omega), if_pos (by omega)]
    rfl
  | cons c l ih =>
    rw [List.length_cons] at hend hl hbound
    obtain ⟨bound, rfl⟩ : ∃ b, bound = b + 1 := ⟨bound - 1, by omega⟩
    rw [Nat.add_comm l.length 1, ByteMem.slice_add] at hl
    obtain ⟨hc, hl⟩ : m.slice (cursor + gap) 1 = [c] ∧ m.slice (cursor + gap + 1) l.length = l := List.append_inj hl (by simp)
    have hc : m (cursor + gap) = c := by simpa [ByteMem.slice] using hc
    rw [Nat.add_right_comm] at hl
    rw [tedMoveForward, U64.sub_eq (by omega) (by omega), if_neg (by omega),
      U64.add_eq (by omega), U64.add_eq (by omega), load_one, hc, lineStart]
    have hend' : cursor + 1 + gap + l.length = endPtr := by omega
    by_cases hnew : c = newline
    · rw [if_pos (toNat_eq_enter.mpr hnew), if_pos hnew]
      cases k with
      | zero =>
        rw [if_pos rfl, lineStart_zero]
      | succ k =>
        rw [if_neg (by omega), U64.sub_eq (by omega) (by omega), Nat.add_sub_cancel,
          ih hend' hl (by omega) (by omega), Nat.add_assoc]
    · rw [if_neg fun h => hnew (toNat_eq_enter.mp h), if_neg hnew, ih hend' hl hk (by omega),
        Nat.add_assoc]

/-- `ted_move_forward` finds the start of the line that is `k + 1` lines below. -/
theorem tedMoveForward_spec (h : Edits m₀ buffer maxLength t s) (hk : k + 1 < 2 ^ 64)
    (hbound : maxLength < bound) :
    tedMoveForward s.memory s.gap (buffer + 8 + maxLength) bound s.cursor (k + 1) =
      some (buffer + 8 + (t.down newline (k + 1)).before.length) := by
  have hlength := t.length_text
  have hgap := h.gap_eq
  have hcursor := h.cursor_eq
  rw [tedMoveForward_loop h.fits (by omega) h.after_eq hk (by omega), TextCursor.down,
    TextCursor.length_before_goto _ lineStart_le, TextCursor.line, TextCursor.text,
    lineStart_append_count, hcursor, Nat.add_assoc]

/-! ### Moving the gap -/

/-- The byte `i` of the text is before the gap, or after it. -/
theorem Edits.text_byte (h : Edits m₀ buffer maxLength t s) {i : Nat} (hi : i < t.text.length) :
    s.memory (buffer + 8 + (if i < t.before.length then i else s.gap + i)) = t.text[i] := by
  have hlength := t.length_text
  have hcursor := h.cursor_eq
  by_cases hbefore : i < t.before.length
  · rw [if_pos hbefore, h.before_byte hbefore]
    exact (List.getElem_append_left hbefore).symm
  · rw [if_neg hbefore, show buffer + 8 + (s.gap + i) = s.cursor + s.gap + (i - t.before.length) by omega,
      h.after_byte (by omega)]
    exact (List.getElem_append_right (not_lt.mp hbefore)).symm

/-- The gap is at another position, with the same bytes of the text around it. -/
theorem Edits.goto {p : Nat} {m' : ByteMem} (h : Edits m₀ buffer maxLength t s) (hp : p ≤ t.text.length)
    (hbyte : ∀ (i : Nat) (hi : i < t.text.length),
      m' (buffer + 8 + (if i < p then i else s.gap + i)) = t.text[i])
    (hframe : ∀ a, (a < buffer + 8 ∨ buffer + 8 + maxLength ≤ a) → m' a = s.memory a) :
    Edits m₀ buffer maxLength (t.goto p) { s with memory := m', cursor := buffer + 8 + p } where
  fits := h.fits
  cursor_eq := by rw [TextCursor.length_before_goto t hp]
  gap_eq := by rw [TextCursor.text_goto, h.gap_eq]
  before_eq := by
    refine slice_eq_iff.mpr fun i hi => ?_
    rw [TextCursor.length_before_goto t hp] at hi
    have hi' := hbyte i (by omega)
    rw [if_pos hi] at hi'
    exact hi'.trans List.getElem_take.symm
  after_eq := by
    refine slice_eq_iff.mpr fun i hi => ?_
    have hi : i < (t.text.drop p).length := hi
    rw [List.length_drop] at hi
    have hi' := hbyte (p + i) (by omega)
    rw [if_neg (by omega)] at hi'
    simp only
    rw [show buffer + 8 + p + s.gap + i = buffer + 8 + (s.gap + (p + i)) by omega, hi']
    exact List.getElem_drop.symm
  frame := fun a ha => (hframe a ha).trans (h.frame a ha)

/-- `ted_set_cursor` moves the gap. -/
theorem Edits.setCursor {p : Nat} (h : Edits m₀ buffer maxLength t s) (hp : p ≤ t.text.length)
    (hbound : maxLength < bound) :
    ∃ m', tedSetCursor bound s.memory s.cursor s.gap (buffer + 8 + p) = some (m', buffer + 8 + p) ∧
      Edits m₀ buffer maxLength (t.goto p) { s with memory := m', cursor := buffer + 8 + p } := by
  have hlength := t.length_text
  have hgap := h.gap_eq
  have hcursor := h.cursor_eq
  have hfits := h.fits
  unfold tedSetCursor
  split_ifs with hlt
  · -- the bytes after the gap move to its start
    rw [U64.add_eq (by omega), U64.sub_eq (by omega) (by omega)]
    have hrange : InRange (s.cursor + s.gap) s.cursor (buffer + 8 + p - s.cursor) := ⟨by omega, by omega⟩
    obtain ⟨m', heq, hcopied⟩ := memCopy_spec (m := s.memory) hrange (by omega) (by omega)
      (show buffer + 8 + p - s.cursor < bound by omega)
    rw [heq]
    refine ⟨m', rfl, h.goto hp (fun i hi => ?_) fun a ha => hcopied.frame a (by omega)⟩
    rw [← h.text_byte hi]
    by_cases hi₁ : i < t.before.length
    · rw [if_pos hi₁, if_pos (by omega)]
      exact hcopied.frame _ (by omega)
    · rw [if_neg hi₁]
      by_cases hi₂ : i < p
      · rw [if_pos hi₂]
        have hbyte := hcopied.copied (i - t.before.length) (by omega) (by omega)
        rw [show buffer + 8 + i = s.cursor + (i - t.before.length) by omega, hbyte]
        congr 1
        omega
      · rw [if_neg hi₂]
        exact hcopied.frame _ (by omega)
  · -- the bytes before the gap move to its end
    rw [U64.add_eq (by omega), U64.sub_eq (by omega) (by omega)]
    have hrange : InRange (buffer + 8 + p) (buffer + 8 + p + s.gap) (s.cursor - (buffer + 8 + p)) :=
      ⟨by omega, by omega⟩
    obtain ⟨m', heq, hcopied⟩ := memCopy_spec (m := s.memory) hrange (by omega) (by omega)
      (show s.cursor - (buffer + 8 + p) < bound by omega)
    rw [heq]
    refine ⟨m', rfl, h.goto hp (fun i hi => ?_) fun a ha => hcopied.frame a (by omega)⟩
    rw [← h.text_byte hi]
    by_cases hi₁ : i < p
    · rw [if_pos hi₁, if_pos (by omega)]
      exact hcopied.frame _ (by omega)
    · rw [if_neg hi₁]
      by_cases hi₂ : i < t.before.length
      · rw [if_pos hi₂]
        have hbyte := hcopied.copied (i - p) (by omega) (by omega)
        rw [show buffer + 8 + (s.gap + i) = buffer + 8 + p + s.gap + (i - p) by omega, hbyte]
        congr 1
        omega
      · rw [if_neg hi₂]
        exact hcopied.frame _ (by omega)

/-! ### The keys -/

/-- What a key does to the text. -/
def editKey (maxLength : Nat) (t : TextCursor UInt8) (c : Nat) : TextCursor UInt8 :=
  if c = BACKSPACE_KEY then t.backspace
  else if c < DELETE_KEY then
    if t.text.length < maxLength then t.insert (UInt8.ofNat c) else t
  else if c = ARROW_LEFT_KEY then t.left
  else if c = ARROW_RIGHT_KEY then t.right
  else if c = ARROW_UP_KEY then t.up newline 1
  else if c = ARROW_DOWN_KEY then t.down newline 1
  else if c = PAGE_UP_KEY then t.up newline 30
  else if c = PAGE_DOWN_KEY then t.down newline 30
  else t

/-- `ted_handle_key` finds the new position of the cursor. -/
theorem Edits.handleKey {c : Nat} (h : Edits m₀ buffer maxLength t s) (hbound : maxLength < bound)
    (hc : ¬ c < DELETE_KEY) :
    ∃ p ≤ t.text.length, tedHandleKey bound s.memory (buffer + 8) s.cursor s.gap
      (buffer + 8 + maxLength) c = some (buffer + 8 + p) ∧ editKey maxLength t c = t.goto p := by
  have hlength := t.length_text
  have hgap := h.gap_eq
  have hcursor := h.cursor_eq
  have hfits := h.fits
  have hstay : t = t.goto t.before.length := t.goto_length.symm
  have hle : t.before.length ≤ t.text.length := by omega
  have hgoto : ∀ {p}, (t.goto (lineStart newline t.text p)).before.length ≤ t.text.length := by
    intro p
    rw [TextCursor.length_before_goto _ lineStart_le]
    exact lineStart_le
  have hgoto' : ∀ {p}, t.goto (lineStart newline t.text p) =
      t.goto (t.goto (lineStart newline t.text p)).before.length := by
    intro p
    rw [TextCursor.length_before_goto _ lineStart_le]
  have hback : ¬ c = BACKSPACE_KEY := fun h8 => hc (h8 ▸ by decide)
  rw [editKey, if_neg hback, if_neg hc, tedHandleKey]
  by_cases hleft : c = ARROW_LEFT_KEY
  · subst hleft
    rw [if_pos rfl]
    by_cases hbegin : s.cursor > buffer + 8
    · rw [if_pos ⟨rfl, hbegin⟩, U64.sub_eq (by omega) (by omega)]
      exact ⟨t.before.length - 1, by omega, by rw [hcursor]; congr 1; omega, rfl⟩
    · -- the cursor is at the start of the text
      rw [if_neg fun h => hbegin h.2, if_neg fun h => absurd h.1 (by decide), if_neg (by decide),
        if_neg (by decide), if_neg (by decide), if_neg (by decide)]
      refine ⟨t.before.length, hle, by rw [hcursor], ?_⟩
      rw [TextCursor.left, show t.before.length - 1 = t.before.length by omega]
  rw [if_neg fun h => hleft h.1, if_neg hleft]
  by_cases hright : c = ARROW_RIGHT_KEY
  · subst hright
    rw [if_pos rfl]
    have hsub : U64.sub (buffer + 8 + maxLength) s.gap = buffer + 8 + maxLength - s.gap :=
      U64.sub_eq (by omega) (by omega)
    by_cases hend : s.cursor < U64.sub (buffer + 8 + maxLength) s.gap
    · rw [if_pos ⟨rfl, hend⟩, U64.add_eq (by omega)]
      exact ⟨t.before.length + 1, by omega, by rw [hcursor, Nat.add_assoc], rfl⟩
    · -- the cursor is at the end of the text
      rw [if_neg fun h => hend h.2, if_neg (by decide), if_neg (by decide), if_neg (by decide),
        if_neg (by decide)]
      refine ⟨t.before.length, hle, by rw [hcursor], ?_⟩
      have hlast : t.text.length = t.before.length := by omega
      rw [TextCursor.right, TextCursor.goto, TextCursor.goto, List.take_of_length_le (by omega),
        List.drop_of_length_le (by omega), List.take_of_length_le (by omega),
        List.drop_of_length_le (by omega)]
  rw [if_neg fun h => hright h.1, if_neg hright]
  by_cases hup : c = ARROW_UP_KEY
  · obtain ⟨col, row, heq⟩ := tedMoveBackward_spec h (show 1 < 2 ^ 64 by decide) hbound
    rw [if_pos hup, if_pos hup, heq]
    exact ⟨_, hgoto, rfl, hgoto'⟩
  rw [if_neg hup, if_neg hup]
  by_cases hdown : c = ARROW_DOWN_KEY
  · rw [if_pos hdown, if_pos hdown, tedMoveForward_spec (k := 0) h (by decide) hbound]
    exact ⟨_, hgoto, rfl, hgoto'⟩
  rw [if_neg hdown, if_neg hdown]
  by_cases hpageUp : c = PAGE_UP_KEY
  · obtain ⟨col, row, heq⟩ := tedMoveBackward_spec h (show 30 < 2 ^ 64 by decide) hbound
    rw [if_pos hpageUp, if_pos hpageUp, heq]
    exact ⟨_, hgoto, rfl, hgoto'⟩
  rw [if_neg hpageUp, if_neg hpageUp]
  by_cases hpageDown : c = PAGE_DOWN_KEY
  · rw [if_pos hpageDown, if_pos hpageDown, tedMoveForward_spec (k := 29) h (by decide) hbound]
    exact ⟨_, hgoto, rfl, hgoto'⟩
  rw [if_neg hpageDown, if_neg hpageDown]
  exact ⟨t.before.length, hle, by rw [hcursor], hstay⟩

/-- The character before the cursor is removed: its byte becomes a part of the gap. -/
theorem Edits.backspace (h : Edits m₀ buffer maxLength t s) (hpos : 0 < t.before.length) :
    Edits m₀ buffer maxLength t.backspace { s with cursor := s.cursor - 1, gap := s.gap + 1 } where
  fits := h.fits
  cursor_eq := by
    have hcursor := h.cursor_eq
    simp only [TextCursor.backspace, List.length_dropLast]
    omega
  gap_eq := by
    have hgap := h.gap_eq
    rw [TextCursor.length_text] at hgap ⊢
    simp only [TextCursor.backspace, List.length_dropLast]
    omega
  before_eq := by
    refine slice_eq_iff.mpr fun i hi => ?_
    have hi' : i < t.before.length := by
      simp only [TextCursor.backspace, List.length_dropLast] at hi
      omega
    exact (h.before_byte hi').trans (List.getElem_dropLast _).symm
  after_eq := by
    have hcursor := h.cursor_eq
    have hafter := h.after_eq
    rwa [show s.cursor + s.gap = s.cursor - 1 + (s.gap + 1) by omega] at hafter
  frame := h.frame

/-- A character is inserted in the first byte of the gap. -/
theorem Edits.insert {c : Nat} (h : Edits m₀ buffer maxLength t s) (hpos : 0 < s.gap) :
    Edits m₀ buffer maxLength (t.insert (UInt8.ofNat c))
      { s with memory := s.memory.store 1 s.cursor c, cursor := s.cursor + 1, gap := s.gap - 1 } where
  fits := h.fits
  cursor_eq := by
    have hcursor := h.cursor_eq
    simp only [TextCursor.insert, List.length_append, List.length_singleton]
    omega
  gap_eq := by
    have hgap := h.gap_eq
    rw [TextCursor.length_text] at hgap ⊢
    simp only [TextCursor.insert, List.length_append, List.length_singleton]
    omega
  before_eq := by
    have hcursor := h.cursor_eq
    have hbyte : (s.memory.store 1 s.cursor c) s.cursor = UInt8.ofNat c := by
      simp [ByteMem.store]
    simp only [TextCursor.insert, List.length_append, List.length_singleton]
    rw [ByteMem.slice_add, ByteMem.slice_store_of_disjoint (by omega), h.before_eq]
    simp [ByteMem.slice, ← hcursor, hbyte]
  after_eq := by
    have hafter := h.after_eq
    simp only [TextCursor.insert]
    rw [show s.cursor + 1 + (s.gap - 1) = s.cursor + s.gap by omega,
      ByteMem.slice_store_of_disjoint (by omega)]
    exact hafter
  frame := by
    have hcursor := h.cursor_eq
    have hlength := t.length_text
    have hgap := h.gap_eq
    intro a ha
    exact (ByteMem.store_of_not_mem (by omega)).trans (h.frame a ha)

/-- The text after a key. -/
theorem Edits.key (h : Edits m₀ buffer maxLength t s) (c : Nat) (hbound : maxLength < bound) :
    ∃ s', textEditorKey bound (buffer + 8) (buffer + 8 + maxLength) s c = some s' ∧
      Edits m₀ buffer maxLength (editKey maxLength t c) s' := by
  have hlength := t.length_text
  have hgap := h.gap_eq
  have hcursor := h.cursor_eq
  have hfits := h.fits
  rw [textEditorKey]
  split_ifs with hback hbegin hchar hroom
  · -- backspace
    rw [U64.sub_eq (by omega) (by omega), U64.add_eq (by omega), editKey, if_pos hback]
    exact ⟨_, rfl, h.backspace (by omega)⟩
  · rw [editKey, if_pos hback]
    obtain ⟨before, after⟩ := t
    obtain rfl : before = [] := List.eq_nil_of_length_eq_zero (by simp only at hcursor; omega)
    exact ⟨s, rfl, h⟩
  · -- a character
    rw [U64.add_eq (by omega), U64.sub_eq (by omega) (by omega), editKey, if_neg hback, if_pos hchar,
      if_pos (by omega)]
    exact ⟨_, rfl, h.insert hroom⟩
  · rw [editKey, if_neg hback, if_pos hchar, if_neg (by omega)]
    exact ⟨s, rfl, h⟩
  · -- another position of the cursor
    obtain ⟨p, hp, heq, hkey⟩ := h.handleKey hbound hchar
    obtain ⟨m', heq', hedits⟩ := h.setCursor hp hbound
    simp only [heq, heq']
    rw [hkey]
    exact ⟨_, rfl, hedits⟩

/-! ### Drawing -/

/-- Drawing the text ends. -/
theorem tedDrawLoop_isSome {cursor gap endPtr ptr r : Nat} (hlt : endPtr < 2 ^ 64)
    (hgap : cursor + gap ≤ endPtr) (hptr : ptr ≤ endPtr) (hbound : endPtr - ptr < bound) :
    ∃ commands, tedDrawLoop m cursor gap endPtr bound ptr r = some commands := by
  induction bound generalizing ptr r with
  | zero => omega
  | succ bound ih =>
    rw [tedDrawLoop]
    by_cases hnext : ptr < endPtr ∧ r < 30
    case neg =>
      rw [if_neg hnext]
      exact ⟨[], rfl⟩
    rw [if_pos hnext, U64.add_eq (by omega)]
    have hskip : ptr + 1 ≤ skipGap cursor gap (ptr + 1) ∧ skipGap cursor gap (ptr + 1) ≤ endPtr := by
      unfold skipGap
      split_ifs
      · rw [U64.add_eq (by omega)]
        omega
      · omega
    have hrest : ∀ r', ∃ commands,
        tedDrawLoop m cursor gap endPtr bound (skipGap cursor gap (ptr + 1)) r' = some commands :=
      fun r' => ih (by omega) (by omega)
    obtain ⟨commands, heq⟩ := hrest r
    obtain ⟨commands', heq'⟩ := hrest (U64.add r 1)
    simp only [heq, heq']
    split_ifs
    all_goals exact ⟨_, rfl⟩

/-- `ted_draw` returns. -/
theorem Edits.draw (h : Edits m₀ buffer maxLength t s) (hbound : buffer + 8 + maxLength < bound) :
    ∃ s', s.draw bound (buffer + 8) (buffer + 8 + maxLength) = some s' ∧
      Edits m₀ buffer maxLength t s' := by
  have hlength := t.length_text
  have hgap := h.gap_eq
  have hcursor := h.cursor_eq
  have hfits := h.fits
  obtain ⟨col, row, heq⟩ := tedMoveBackward_spec h (show 15 < 2 ^ 64 by decide)
    (show maxLength < bound by omega)
  have hup : (t.up newline 15).before.length ≤ t.text.length := by
    rw [TextCursor.up, TextCursor.length_before_goto _ lineStart_le]
    exact lineStart_le
  have hptr : skipGap s.cursor s.gap (buffer + 8 + (t.up newline 15).before.length) ≤
      buffer + 8 + maxLength := by
    unfold skipGap
    split_ifs
    · rw [U64.add_eq (by omega)]
      omega
    · omega
  obtain ⟨commands, hdraw⟩ := tedDrawLoop_isSome (m := s.memory) (r := 0) hfits
    (show s.cursor + s.gap ≤ buffer + 8 + maxLength by omega) hptr
    (show _ < bound by omega)
  rw [Editor.draw, tedDraw]
  simp only [heq, hdraw]
  exact ⟨_, rfl, ⟨h.fits, h.cursor_eq, h.gap_eq, h.before_eq, h.after_eq, h.frame⟩⟩

/-! ### The editor -/

/-- The state of the editor after some keys, if it started with the memory `m₀` and the text `t`:
    the text with a cursor that the keys before the first escape key give. -/
def Session.Shows (m₀ : ByteMem) (buffer maxLength : Nat) (t : TextCursor UInt8) (keys : List Nat) :
    Session → Prop
  | .waiting s =>
    let t' := keys.foldl (editKey maxLength) t
    ESCAPE_KEY ∉ keys ∧ buffer + 8 ≤ s.cursor ∧ s.cursor + s.gap ≤ buffer + 8 + maxLength ∧
      s.memory.slice (buffer + 8) (s.cursor - (buffer + 8)) = t'.before ∧
      s.memory.slice (s.cursor + s.gap) (buffer + 8 + maxLength - (s.cursor + s.gap)) = t'.after ∧
      ∀ a, (a < buffer + 8 ∨ buffer + 8 + maxLength ≤ a) → s.memory a = m₀ a
  | .returned m =>
    let t' := (keys.takeWhile (· ≠ ESCAPE_KEY)).foldl (editKey maxLength) t
    ESCAPE_KEY ∈ keys ∧ m.load 8 buffer = t'.text.length ∧
      m.slice (buffer + 8) t'.text.length = t'.text ∧
      ∀ a, (a < buffer ∨ buffer + 8 + maxLength ≤ a) → m a = m₀ a

/-- The editor that waits for a key shows the text that it has. -/
theorem Edits.shows (h : Edits m₀ buffer maxLength t s) :
    (Session.waiting s).Shows m₀ buffer maxLength t [] := by
  have hlength := t.length_text
  have hgap := h.gap_eq
  have hcursor := h.cursor_eq
  refine ⟨List.not_mem_nil, by omega, by omega, ?_, ?_, h.frame⟩
  · rw [show s.cursor - (buffer + 8) = t.before.length by omega]
    exact h.before_eq
  · rw [show buffer + 8 + maxLength - (s.cursor + s.gap) = t.after.length by omega]
    exact h.after_eq

/-- The gap is moved to the end of the text when the editor returns. -/
theorem Edits.escape (h : Edits m₀ buffer maxLength t s) (keys : List Nat) (hbound : maxLength < bound) :
    ∃ m cursor, tedSetCursor bound s.memory s.cursor s.gap (U64.sub (buffer + 8 + maxLength) s.gap) =
      some (m, cursor) ∧ (Session.returned (m.store 8 buffer (U64.sub cursor (buffer + 8)))).Shows m₀
        buffer maxLength t (ESCAPE_KEY :: keys) := by
  have hlength := t.length_text
  have hgap := h.gap_eq
  have hfits := h.fits
  obtain ⟨m, heq, hedits⟩ := h.setCursor (le_refl _) hbound
  rw [U64.sub_eq (by omega) (by omega),
    show buffer + 8 + maxLength - s.gap = buffer + 8 + t.text.length by omega, heq]
  have hbefore := hedits.before_eq
  rw [TextCursor.length_before_goto t (le_refl _), TextCursor.goto, List.take_length] at hbefore
  refine ⟨m, _, rfl, List.mem_cons_self, ?_, ?_, fun a ha => ?_⟩
  · rw [U64.sub_eq (by omega) (by omega), ByteMem.load_store_self]
    show (buffer + 8 + t.text.length - (buffer + 8)) % 256 ^ 8 = t.text.length
    omega
  · rw [ByteMem.slice_store_of_disjoint (Or.inr (le_refl _))]
    exact hbefore
  · have hframe := hedits.frame a
    rw [ByteMem.store_of_not_mem (by omega)]
    exact hframe (by omega)

/-- The loop of the editor shows the text after each key, whatever the keys. -/
theorem textEditorLoop_shows (keys : List Nat) (h : Edits m₀ buffer maxLength t s)
    (hbound : buffer + 8 + maxLength < bound) :
    ∃ session, textEditorLoop bound buffer (buffer + 8) (buffer + 8 + maxLength) keys s = some session ∧
      session.Shows m₀ buffer maxLength t keys := by
  induction keys generalizing t s with
  | nil => exact ⟨_, rfl, h.shows⟩
  | cons c keys ih =>
    rw [textEditorLoop]
    by_cases hc : c = ESCAPE_KEY
    · obtain ⟨m, cursor, heq, hshows⟩ := h.escape keys (show maxLength < bound by omega)
      rw [if_pos hc, heq, hc]
      exact ⟨_, rfl, hshows⟩
    · rw [if_neg hc]
      obtain ⟨s₁, hkey, h₁⟩ := h.key c (show maxLength < bound by omega)
      obtain ⟨s₂, hdraw, h₂⟩ := h₁.draw hbound
      obtain ⟨session, hloop, hshows⟩ := ih h₂
      simp only [hkey, hdraw]
      refine ⟨session, hloop, ?_⟩
      cases session with
      | waiting s' =>
        obtain ⟨hescape, hrest⟩ := hshows
        exact ⟨fun hmem => (List.mem_cons.mp hmem).elim (fun h => hc h.symm) hescape, hrest⟩
      | returned m =>
        obtain ⟨hescape, hrest⟩ := hshows
        refine ⟨List.mem_cons_of_mem _ hescape, ?_⟩
        rw [List.takeWhile_cons_of_pos (by simpa using hc)]
        exact hrest

/-- The text at the start, with the cursor at its end. -/
theorem Edits.start (gpu : List GpuCommand) (hfits : buffer + 8 + maxLength < 2 ^ 64)
    (hlength : m.load 8 buffer ≤ maxLength) :
    Edits m buffer maxLength ⟨m.slice (buffer + 8) (m.load 8 buffer), []⟩
      ⟨m, buffer + 8 + m.load 8 buffer, maxLength - m.load 8 buffer, gpu⟩ where
  fits := hfits
  cursor_eq := by simp
  gap_eq := by
    simp only [TextCursor.text, List.append_nil, ByteMem.slice_length]
    omega
  before_eq := by simp
  after_eq := rfl
  frame := fun _ _ => rfl

/-- The editor applies each key to the text, and returns the text that the keys give. -/
theorem textEditor_refines {offset : Nat} {keys : List Nat} (hfits : buffer + 8 + maxLength < 2 ^ 64)
    (hlength : m.load 8 buffer ≤ maxLength) :
    ∃ N, ∀ bound ≥ N, ∃ session, textEditor bound m buffer offset maxLength keys = some session ∧
      session.Shows m buffer maxLength
        ((⟨m.slice (buffer + 8) (m.load 8 buffer), []⟩ : TextCursor UInt8).goto
          (min offset (m.load 8 buffer))) keys := by
  refine ⟨buffer + 8 + maxLength + 1, fun bound hbound => ?_⟩
  have hoffset : (if offset > m.load 8 buffer then m.load 8 buffer else offset) =
      min offset (m.load 8 buffer) := by
    split_ifs
    all_goals omega
  have hstart := Edits.start [.setColor GREEN] hfits hlength
  have hp : min offset (m.load 8 buffer) ≤
      (⟨m.slice (buffer + 8) (m.load 8 buffer), []⟩ : TextCursor UInt8).text.length := by
    simp only [TextCursor.text, List.append_nil, ByteMem.slice_length]
    exact min_le_right _ _
  obtain ⟨m₁, heq, h₁⟩ := hstart.setCursor hp (show maxLength < bound by omega)
  obtain ⟨s₂, hdraw, h₂⟩ := h₁.draw (show buffer + 8 + maxLength < bound by omega)
  obtain ⟨session, hloop, hshows⟩ := textEditorLoop_shows keys h₂
    (show buffer + 8 + maxLength < bound by omega)
  refine ⟨session, ?_, hshows⟩
  rw [textEditor, if_neg (not_lt.mpr hlength)]
  simp only [hoffset]
  rw [U64.add_eq (show buffer + 8 < 2 ^ 64 by omega),
    U64.add_eq (show buffer + 8 + m.load 8 buffer < 2 ^ 64 by omega), U64.add_eq hfits,
    U64.add_eq (show buffer + 8 + min offset (m.load 8 buffer) < 2 ^ 64 by omega),
    U64.sub_eq (by omega) hfits,
    show buffer + 8 + maxLength - (buffer + 8 + m.load 8 buffer) = maxLength - m.load 8 buffer by omega]
  simp only at heq hdraw
  rw [heq]
  simp only
  rw [hdraw]
  exact hloop

/-- A memory with a text of two characters, in a buffer at the address 100. -/
def abMemory : ByteMem := ByteMem.copyIn (fun _ => 0) 100 [2, 0, 0, 0, 0, 0, 0, 0, 97, 98]

/-- A character is inserted between them, and the cursor moves before it. -/
theorem textEditor_refines_ab :
    ∃ N, ∀ bound ≥ N, ∃ session,
      textEditor bound abMemory 100 1 4 [99, ARROW_LEFT_KEY, ESCAPE_KEY] = some session ∧
        session.Shows abMemory 100 4
          ((⟨abMemory.slice (100 + 8) (abMemory.load 8 100), []⟩ : TextCursor UInt8).goto
            (min 1 (abMemory.load 8 100))) [99, ARROW_LEFT_KEY, ESCAPE_KEY] :=
  textEditor_refines (by decide) (by decide)

end Toys.Edit
