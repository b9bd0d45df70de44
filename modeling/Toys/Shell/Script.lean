import Mathlib

namespace Toys.Shell

/-!
# Shell — scripts

A script is read one character at a time into the buffer of a command.

* `shRunScript` — the texts that `sh_run_script` passes to `sh_run`;
* `logicalLines` — the lines of the script, each one joined with the lines that continue it;
* `runLines` — the commands, from the lines instead of the characters;
* `Fits` — the condition on the lines;
* `shRunScript_iff` — the commands are the logical lines if and only if the condition holds.
-/

/-- The size of the buffer of a command. -/
def MAX_COMMAND_LENGTH : Nat := 196

/-- The character at the end of a line. -/
def NEW_LINE : UInt8 := 10

/-- The character `'\'`. -/
def BACKSLASH : UInt8 := 92

/-- The loop of `sh_run_script`, from the results of `read` (`none` when its status is not `OK`, and no
    more result at the end of the file) and the text between `src` and `src_end`.  The result is the
    list of the texts that are passed to `sh_run`. -/
def shRunScriptLoop : List (Option UInt8) → List UInt8 → List (List UInt8)
  | [], src => [src]
  | none :: _, _ => []
  | some c :: reads, src =>
    if c = NEW_LINE then
      if src.getLast? = some BACKSLASH then shRunScriptLoop reads src.dropLast
      else src :: shRunScriptLoop reads []
    else if src.length < MAX_COMMAND_LENGTH then shRunScriptLoop reads (src ++ [c])
    else shRunScriptLoop reads src

/-- `sh_run_script`, when the script is opened. -/
def shRunScript (reads : List (Option UInt8)) : List (List UInt8) := shRunScriptLoop reads []

/-! ### The lines of a script -/

/-- The lines of a script, of which the last one does not end with a line feed. -/
def linesOf (content : List UInt8) : List (List UInt8) := content.splitOn NEW_LINE

/-- A line that ends with a backslash goes on with the next one. -/
def Continued (line : List UInt8) : Prop := line.getLast? = some BACKSLASH

/-- Whether a line goes on can be decided. -/
instance (line : List UInt8) : Decidable (Continued line) :=
  inferInstanceAs (Decidable (line.getLast? = some BACKSLASH))

/-- The logical lines, when some text is joined with the first line.  A line that ends with a backslash
    is joined with the next one. -/
def logicalLines (joined : List UInt8) : List (List UInt8) → List (List UInt8)
  | [] => []
  | [line] => [joined ++ line]
  | line :: next :: lines =>
    if Continued line then logicalLines (joined ++ line.dropLast) (next :: lines)
    else (joined ++ line) :: logicalLines [] (next :: lines)

/-- Each line, with the text that is joined with it, fits in the buffer.  An empty line ends a logical
    line only if the text that is joined with it does not end with a backslash. -/
def Fits (joined : List UInt8) : List (List UInt8) → Prop
  | [] => True
  | [line] => (joined ++ line).length ≤ MAX_COMMAND_LENGTH
  | line :: next :: lines =>
    (joined ++ line).length ≤ MAX_COMMAND_LENGTH ∧
      if Continued line then Fits (joined ++ line.dropLast) (next :: lines)
      else ¬ Continued (joined ++ line) ∧ Fits [] (next :: lines)

/-- The commands, from the lines and the text in the buffer. -/
def runLines (src : List UInt8) : List (List UInt8) → List (List UInt8)
  | [] => []
  | [line] => [(src ++ line).take MAX_COMMAND_LENGTH]
  | line :: next :: lines =>
    let text := (src ++ line).take MAX_COMMAND_LENGTH
    if Continued text then runLines text.dropLast (next :: lines)
    else text :: runLines [] (next :: lines)

variable {src joined line next : List UInt8} {lines : List (List UInt8)} {c : UInt8}

/-! ### The loop -/

/-- One more character is kept if there is room for it. -/
theorem take_append_cons :
    (src ++ c :: line).take MAX_COMMAND_LENGTH =
      if src.length < MAX_COMMAND_LENGTH then (src ++ [c] ++ line).take MAX_COMMAND_LENGTH
      else (src ++ line).take MAX_COMMAND_LENGTH := by
  split_ifs with hlt
  · rw [List.append_assoc, List.singleton_append]
  · -- the buffer is full
    have hfull : MAX_COMMAND_LENGTH ≤ src.length := not_lt.mp hlt
    rw [List.take_append_of_le_length hfull, List.take_append_of_le_length hfull]

/-- One more character of the line is read. -/
theorem runLines_cons :
    runLines src ((c :: line) :: lines) =
      if src.length < MAX_COMMAND_LENGTH then runLines (src ++ [c]) (line :: lines)
      else runLines src (line :: lines) := by
  cases lines with
  | nil =>
    simp only [runLines, take_append_cons]
    split_ifs
    all_goals rfl
  | cons next lines =>
    simp only [runLines, take_append_cons]
    split_ifs
    all_goals rfl

/-- The loop treats the lines one after the other. -/
theorem shRunScriptLoop_eq (content : List UInt8) (hsrc : src.length ≤ MAX_COMMAND_LENGTH) :
    shRunScriptLoop (content.map some) src = runLines src (linesOf content) := by
  induction content generalizing src with
  | nil =>
    have htake : src.take MAX_COMMAND_LENGTH = src := List.take_of_length_le hsrc
    rw [linesOf, List.splitOn_nil, runLines, List.append_nil, htake]
    rfl
  | cons c content ih =>
    rcases List.exists_cons_of_ne_nil (List.splitOn_ne_nil NEW_LINE content) with ⟨line, lines, heq⟩
    have hlines : linesOf content = line :: lines := heq
    rw [List.map_cons, shRunScriptLoop, linesOf, List.splitOn_cons_eq_if_modifyHead, ← linesOf, hlines]
    by_cases hc : c = NEW_LINE
    · -- the end of a line
      have htake : (src ++ []).take MAX_COMMAND_LENGTH = src := by
        rw [List.append_nil, List.take_of_length_le hsrc]
      rw [if_pos hc, if_pos (beq_iff_eq.mpr hc), runLines]
      simp only [htake, Continued]
      split_ifs
      · rw [ih (by rw [List.length_dropLast]; omega), hlines]
      · rw [ih (Nat.zero_le _), hlines]
    · rw [if_neg hc, if_neg (fun h => hc (beq_iff_eq.mp h)), List.modifyHead_cons, runLines_cons]
      split_ifs with hlt
      · rw [ih (by rw [List.length_append, List.length_singleton]; omega), hlines]
      · rw [ih hsrc, hlines]

/-! ### The commands that are run -/

/-- No command is longer than the buffer. -/
theorem length_of_mem_runLines {text : List UInt8} (h : text ∈ runLines src lines) :
    text.length ≤ MAX_COMMAND_LENGTH := by
  induction lines generalizing src with
  | nil => cases h
  | cons line lines ih =>
    cases lines with
    | nil =>
      rw [runLines, List.mem_singleton] at h
      rw [h]
      exact List.length_take_le _ _
    | cons next lines =>
      rw [runLines] at h
      split_ifs at h
      · exact ih h
      · rcases List.mem_cons.mp h with rfl | h
        · exact List.length_take_le _ _
        · exact ih h

/-- A command that another one follows does not end with a backslash. -/
theorem not_continued_of_runLines {text text' : List UInt8} {texts : List (List UInt8)}
    (h : runLines src lines = text :: text' :: texts) : ¬ Continued text := by
  induction lines generalizing src with
  | nil => cases h
  | cons line lines ih =>
    cases lines with
    | nil =>
      rw [runLines, List.cons.injEq] at h
      cases h.2
    | cons next lines =>
      rw [runLines] at h
      split_ifs at h with hcontinued
      · exact ih h
      · rw [List.cons.injEq] at h
        rwa [← h.1]

/-! ### The logical lines -/

/-- The first logical line starts with the text that is joined with it. -/
theorem logicalLines_eq_cons (joined line : List UInt8) (lines : List (List UInt8)) : ∃ text texts,
    logicalLines joined (line :: lines) = (joined ++ text) :: texts := by
  induction lines generalizing joined line with
  | nil => exact ⟨line, [], rfl⟩
  | cons next lines ih =>
    rw [logicalLines]
    split_ifs
    · rcases ih (joined ++ line.dropLast) next with ⟨text, texts, heq⟩
      exact ⟨line.dropLast ++ text, texts, by rw [heq, List.append_assoc]⟩
    · exact ⟨line, _, rfl⟩

/-- A line goes on whatever was read before. -/
theorem continued_append (h : Continued line) : Continued (src ++ line) := by
  rw [Continued] at h ⊢
  rw [List.getLast?_append, h, Option.some_or]

/-- Removing the last character of a line, after what was read before. -/
theorem dropLast_append (h : Continued line) : (src ++ line).dropLast = src ++ line.dropLast := by
  apply List.dropLast_append_of_ne_nil
  rintro rfl
  cases h

/-- A line that ends with a backslash and contributes nothing is that backslash. -/
theorem eq_backslash (h : Continued line) (hdrop : line.dropLast = []) : line = [BACKSLASH] := by
  rcases List.getLast?_eq_some_iff.mp h with ⟨init, rfl⟩
  rw [List.dropLast_concat] at hdrop
  rw [hdrop, List.nil_append]

/-- The lines that follow contribute nothing to the first logical line. -/
theorem eq_nil_of_logicalLines {text : List UInt8} {texts : List (List UInt8)}
    (h : logicalLines (joined ++ text) (line :: lines) = joined :: texts) : text = [] := by
  rcases logicalLines_eq_cons (joined ++ text) line lines with ⟨text', _, heq⟩
  rw [heq, List.cons.injEq, List.append_assoc, List.append_right_eq_self] at h
  exact (List.append_eq_nil_iff.mp h.1).1

/-! ### The commands that are not the logical lines -/

/-- If a full buffer is run although the line continues, there is one more command. -/
theorem cons_runLines_ne : joined :: runLines [] (line :: lines) ≠ logicalLines joined (line :: lines) := by
  induction lines generalizing joined line with
  | nil =>
    intro heq
    have hlength := congrArg List.length heq
    simp [runLines, logicalLines] at hlength
  | cons next lines ih =>
    intro heq
    rw [logicalLines] at heq
    by_cases hline : Continued line
    · -- the line is a backslash, in both cases
      rw [if_pos hline] at heq
      have hdrop := eq_nil_of_logicalLines heq.symm
      have hbackslash := eq_backslash hline hdrop
      rw [hdrop, List.append_nil, hbackslash] at heq
      exact ih heq
    · -- the line is empty, and becomes the next command
      rw [if_neg hline, List.cons.injEq, List.self_eq_append_right] at heq
      have hempty := heq.1
      have hrest := heq.2
      rw [hempty] at hrest
      exact ih hrest

/-- If the backslash that is dropped is not the last one of the line, the command is shorter. -/
theorem runLines_of_logicalLines (hsrc : src.length + 1 = MAX_COMMAND_LENGTH)
    (h : logicalLines joined (line :: lines) = [joined]) : runLines src (line :: lines) = [src] := by
  induction lines generalizing joined line with
  | nil =>
    rw [logicalLines, List.cons.injEq, List.append_right_eq_self] at h
    rw [h.1, runLines, List.append_nil, List.take_of_length_le (by omega)]
  | cons next lines ih =>
    rw [logicalLines] at h
    by_cases hline : Continued line
    · rw [if_pos hline] at h
      have hdrop := eq_nil_of_logicalLines h
      have hbackslash := eq_backslash hline hdrop
      rw [hdrop, List.append_nil] at h
      have htake : (src ++ [BACKSLASH]).take MAX_COMMAND_LENGTH = src ++ [BACKSLASH] := by
        apply List.take_of_length_le
        rw [List.length_append, List.length_singleton]
        omega
      have hcontinued : Continued (src ++ [BACKSLASH]) := List.getLast?_concat
      rw [hbackslash, runLines, htake]
      simp only [if_pos hcontinued, List.dropLast_concat]
      exact ih h
    · rw [if_neg hline, List.cons.injEq] at h
      rcases logicalLines_eq_cons [] next lines with ⟨_, _, heq⟩
      rw [heq] at h
      cases h.2

/-- If a line that continues does not fit, the commands are not the logical lines. -/
theorem runLines_ne_of_long (hcontinued : Continued line)
    (hlong : MAX_COMMAND_LENGTH < (src ++ line).length) :
    runLines src (line :: next :: lines) ≠ logicalLines src (line :: next :: lines) := by
  intro heq
  rw [logicalLines, if_pos hcontinued, ← dropLast_append hcontinued] at heq
  rcases logicalLines_eq_cons (src ++ line).dropLast next lines with ⟨text, texts, hcons⟩
  -- the first logical line is not longer than a command, and is the full buffer
  have hmem : (src ++ line).dropLast ++ text ∈ runLines src (line :: next :: lines) := by
    rw [heq, hcons]
    exact List.mem_cons_self
  have hle := length_of_mem_runLines hmem
  rw [List.length_append, List.length_dropLast] at hle
  have hempty : text = [] := List.length_eq_zero_iff.mp (by omega)
  rw [hempty, List.append_nil] at hcons
  have hlength : (src ++ line).length = MAX_COMMAND_LENGTH + 1 := by omega
  have htake : (src ++ line).take MAX_COMMAND_LENGTH = (src ++ line).dropLast := by
    rw [List.dropLast_eq_take, hlength, Nat.add_sub_cancel]
  rw [runLines, htake] at heq
  by_cases hfull : Continued (src ++ line).dropLast
  · -- the backslash before the last one is dropped
    simp only [if_pos hfull] at heq
    have htexts : texts = [] := by
      cases texts with
      | nil => rfl
      | cons text' texts =>
        rw [hcons] at heq
        exact absurd hfull (not_continued_of_runLines heq)
    rw [htexts] at hcons
    have hdrop : (src ++ line).dropLast.length = MAX_COMMAND_LENGTH := by
      rw [List.length_dropLast, hlength, Nat.add_sub_cancel]
    have hsrc : (src ++ line).dropLast.dropLast.length + 1 = MAX_COMMAND_LENGTH := by
      rw [List.length_dropLast, hdrop]
      rfl
    rw [runLines_of_logicalLines hsrc hcons, hcons, List.cons.injEq] at heq
    have hsame := congrArg List.length heq.1
    omega
  · simp only [if_neg hfull] at heq
    exact cons_runLines_ne heq

/-! ### The condition -/

/-- If the lines fit, the commands are the logical lines. -/
theorem runLines_of_fits (h : Fits src (line :: lines)) :
    runLines src (line :: lines) = logicalLines src (line :: lines) := by
  induction lines generalizing src line with
  | nil => rw [runLines, logicalLines, List.take_of_length_le h]
  | cons next lines ih =>
    rw [Fits] at h
    rw [runLines, logicalLines, List.take_of_length_le h.1]
    by_cases hline : Continued line
    · have hrest := h.2
      rw [if_pos hline] at hrest
      simp only [if_pos (continued_append hline), if_pos hline, dropLast_append hline]
      exact ih hrest
    · have hrest := h.2
      rw [if_neg hline] at hrest
      simp only [if_neg hrest.1, if_neg hline, ih hrest.2]

/-- Only the lines that fit are run as they are. -/
theorem fits_of_runLines (h : runLines src (line :: lines) = logicalLines src (line :: lines)) :
    Fits src (line :: lines) := by
  induction lines generalizing src line with
  | nil =>
    have hmem : src ++ line ∈ runLines src [line] := by
      rw [h]
      exact List.mem_singleton_self _
    exact length_of_mem_runLines hmem
  | cons next lines ih =>
    rw [Fits]
    by_cases hline : Continued line
    · have hlength : (src ++ line).length ≤ MAX_COMMAND_LENGTH := by
        by_contra hlong
        exact runLines_ne_of_long hline (not_le.mp hlong) h
      rw [runLines, logicalLines, List.take_of_length_le hlength] at h
      simp only [if_pos (continued_append hline), if_pos hline, dropLast_append hline] at h
      rw [if_pos hline]
      exact ⟨hlength, ih h⟩
    · rw [if_neg hline]
      rw [logicalLines, if_neg hline] at h
      have hlength : (src ++ line).length ≤ MAX_COMMAND_LENGTH := by
        apply @length_of_mem_runLines src (line :: next :: lines)
        rw [h]
        exact List.mem_cons_self
      -- the command of an inner line does not end with a backslash
      have hend : ¬ Continued (src ++ line) := by
        rcases logicalLines_eq_cons [] next lines with ⟨_, _, hcons⟩
        rw [hcons] at h
        exact not_continued_of_runLines h
      rw [runLines, List.take_of_length_le hlength] at h
      simp only [if_neg hend, List.cons.injEq, true_and] at h
      exact ⟨hlength, hend, ih h⟩

/-- The commands are the logical lines, and none is only the beginning of its line. -/
structure RunsLines (commands lines : List (List UInt8)) : Prop where
  eq : commands = lines
  complete : ∀ (i : Nat) (command line : List UInt8), commands[i]? = some command → lines[i]? = some line →
    command <+: line → command = line

/-- The commands are the lines. -/
theorem RunsLines.of_eq {commands : List (List UInt8)} (h : commands = lines) :
    RunsLines commands lines where
  eq := h
  complete i command line hcommand hline _ := by
    rw [h, hline] at hcommand
    exact (Option.some_inj.mp hcommand).symm

/-- For any script, the shell runs its logical lines exactly when each of them fits in the buffer of
    the commands. -/
theorem shRunScript_iff (content : List UInt8) :
    RunsLines (shRunScript (content.map some)) (logicalLines [] (linesOf content)) ↔
      Fits [] (linesOf content) := by
  rcases List.exists_cons_of_ne_nil (List.splitOn_ne_nil NEW_LINE content) with ⟨line, lines, heq⟩
  have hlines : linesOf content = line :: lines := heq
  rw [shRunScript, shRunScriptLoop_eq content (Nat.zero_le _), hlines]
  constructor
  · intro h
    exact fits_of_runLines h.eq
  · intro h
    exact RunsLines.of_eq (runLines_of_fits h)

/-- A line that is longer than the buffer. -/
theorem not_shRunScript : ¬ ∀ content : List UInt8,
    RunsLines (shRunScript (content.map some)) (logicalLines [] (linesOf content)) := by
  intro h
  have heq := (h (List.replicate 197 97)).eq
  revert heq
  decide +kernel

end Toys.Shell
