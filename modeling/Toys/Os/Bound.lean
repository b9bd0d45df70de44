import Mathlib
import Toys.FileSystem.Bound
import Toys.Os.SystemCalls

namespace Toys.Os

open Toys.Lib Toys.FileSystem

/-!
# Kernel — the bound of the loops

A system call that returns within a bound returns the same result within every larger one, so its
result is that of the source, whatever the bound.

* `osOpen_mono`, `osRead_mono`, `osWrite_mono` — the calls that the programs make.
-/

variable {m : ByteMem} {k : Kernel} {n n' streamId buffer size mode fileBlock : Nat}

/-! ### Loops -/

/-- The search of a stream, within a larger bound. -/
theorem processGetFileStreamLoop_mono {stream id r : Nat} (hle : n ≤ n')
    (hrun : processGetFileStreamLoop m streamId n stream id = some r) :
    processGetFileStreamLoop m streamId n' stream id = some r := by
  induction n generalizing n' stream id with
  | zero => simp [processGetFileStreamLoop] at hrun
  | succ n ih =>
    obtain ⟨n', rfl⟩ : ∃ j, n' = j + 1 := ⟨n' - 1, by omega⟩
    rw [processGetFileStreamLoop] at hrun ⊢
    split
    · rw [if_pos ‹_›] at hrun
      exact ih (by omega) hrun
    · rw [if_neg ‹_›] at hrun
      exact hrun

/-- The search of an unused stream, within a larger bound. -/
theorem processGetUnusedFileStreamLoop_mono {streamPtr stream id : Nat} {r : Nat × Nat × Nat} (hle : n ≤ n')
    (hrun : processGetUnusedFileStreamLoop m n streamPtr stream id = some r) :
    processGetUnusedFileStreamLoop m n' streamPtr stream id = some r := by
  induction n generalizing n' streamPtr stream id with
  | zero => simp [processGetUnusedFileStreamLoop] at hrun
  | succ n ih =>
    obtain ⟨n', rfl⟩ : ∃ j, n' = j + 1 := ⟨n' - 1, by omega⟩
    rw [processGetUnusedFileStreamLoop] at hrun ⊢
    split
    · rw [if_pos ‹_›] at hrun
      exact ih (by omega) hrun
    · rw [if_neg ‹_›] at hrun
      exact hrun

/-- The check of the streams of a process, within a larger bound. -/
theorem streamsCanOpenLoop_mono {stream : Nat} {r : Bool} (hle : n ≤ n')
    (hrun : streamsCanOpenLoop m fileBlock mode n stream = some r) :
    streamsCanOpenLoop m fileBlock mode n' stream = some r := by
  induction n generalizing n' stream with
  | zero => simp [streamsCanOpenLoop] at hrun
  | succ n ih =>
    obtain ⟨n', rfl⟩ : ∃ j, n' = j + 1 := ⟨n' - 1, by omega⟩
    simp only [streamsCanOpenLoop] at hrun ⊢
    split_ifs at hrun ⊢
    · exact hrun
    · exact ih (by omega) hrun
    · exact hrun

/-- The check of the streams of all processes, within a larger bound. -/
theorem processCanOpenLoop_mono {process : Nat} {r : Bool} (hle : n ≤ n')
    (hrun : processCanOpenLoop m fileBlock mode n process = some r) :
    processCanOpenLoop m fileBlock mode n' process = some r := by
  induction n generalizing n' process with
  | zero => simp [processCanOpenLoop] at hrun
  | succ n ih =>
    obtain ⟨n', rfl⟩ : ∃ j, n' = j + 1 := ⟨n' - 1, by omega⟩
    rw [processCanOpenLoop] at hrun ⊢
    split
    · rw [if_pos ‹_›] at hrun
      cases hstreams : streamsCanOpenLoop m fileBlock mode n (readProcess m process).fileStreams with
      | none => simp only [hstreams, reduceCtorEq] at hrun
      | some b =>
        rw [streamsCanOpenLoop_mono (by omega) hstreams]
        rw [hstreams] at hrun
        cases b with
        | false => exact hrun
        | true => exact ih (by omega) hrun
    · rw [if_neg ‹_›] at hrun
      exact hrun

/-! ### System calls -/

/-- `process_get_unused_file_stream`, within a larger bound. -/
theorem processGetUnusedFileStream_mono {self : Nat} {r : Kernel × Nat × Nat} (hle : n ≤ n')
    (hrun : processGetUnusedFileStream n k self = some r) :
    processGetUnusedFileStream n' k self = some r := by
  rw [processGetUnusedFileStream] at hrun ⊢
  cases hloop : processGetUnusedFileStreamLoop k.memory n (self + 56) (k.process self).fileStreams
      FIRST_FILE_STREAM_ID with
  | none => simp only [hloop, reduceCtorEq] at hrun
  | some found =>
    rw [processGetUnusedFileStreamLoop_mono hle hloop]
    rw [hloop] at hrun
    exact hrun

/-- The part of `os_open` that opens a file, within a larger bound. -/
theorem osOpenFile_mono {process stream : Nat} {name : List UInt8} {r : Kernel × Status × Nat} (hle : n ≤ n')
    (hrun : osOpenFile n k process stream name mode = some r) :
    osOpenFile n' k process stream name mode = some r := by
  rw [osOpenFile] at hrun ⊢
  cases hfind : diskFindFile n k.disk name 0 with
  | none => simp only [hfind, reduceCtorEq] at hrun
  | some found =>
    rw [diskFindFile_mono hfind hle]
    obtain ⟨disk, file, previous⟩ := found
    simp only [hfind] at hrun ⊢
    by_cases hfile : file = 0
    · rw [if_pos hfile] at hrun ⊢
      split_ifs at hrun ⊢
      · exact hrun
      cases hcreate : diskCreateFile n disk name with
      | none => simp only [hcreate, reduceCtorEq] at hrun
      | some created =>
        rw [diskCreateFile_mono hcreate hle]
        rw [hcreate] at hrun
        exact hrun
    rw [if_neg hfile] at hrun ⊢
    cases hopens : processCanOpen n k.memory process file mode with
    | none => simp only [hopens, reduceCtorEq] at hrun
    | some opens =>
      have hopens' : processCanOpen n' k.memory process file mode = some opens :=
        processCanOpenLoop_mono hle hopens
      rw [hopens']
      rw [hopens] at hrun
      cases opens with
      | false => exact hrun
      | true =>
        dsimp only at hrun ⊢
        split_ifs at hrun ⊢
        · exact hrun
        cases hclear : diskClearFile n disk file with
        | none => simp only [hclear, reduceCtorEq] at hrun
        | some cleared =>
          rw [diskClearFile_mono hclear hle]
          rw [hclear] at hrun
          exact hrun

/-- `os_open`, within a larger bound. -/
theorem osOpen_mono {name length : Nat} {r : Kernel × Nat} (hle : n ≤ n')
    (hrun : osOpen n k name length mode = some r) : osOpen n' k name length mode = some r := by
  rw [osOpen] at hrun ⊢
  dsimp only at hrun ⊢
  split
  · rwa [if_pos ‹_›] at hrun
  rw [if_neg ‹_›] at hrun
  cases hunused : processGetUnusedFileStream n k k.currentProcess with
  | none => simp only [hunused, reduceCtorEq] at hrun
  | some unused =>
    rw [processGetUnusedFileStream_mono hle hunused]
    obtain ⟨k₁, stream, id⟩ := unused
    simp only [hunused] at hrun ⊢
    split_ifs at hrun ⊢
    · exact hrun
    · exact hrun
    · exact hrun
    · cases hfile : osOpenFile n { k₁ with disk := diskReadBlockBuffer k₁.disk SUPER_BLOCK } k.currentProcess
          stream (k₁.memory.slice name length) mode with
      | none => simp only [hfile, reduceCtorEq] at hrun
      | some opened =>
        rw [osOpenFile_mono hle hfile]
        rw [hfile] at hrun
        exact hrun

/-- `os_read`, within a larger bound. -/
theorem osRead_mono {keys : List (Option UInt32)} {r : Kernel × Nat} (hle : n ≤ n')
    (hrun : osRead n k streamId buffer size keys = some r) : osRead n' k streamId buffer size keys = some r := by
  rw [osRead] at hrun ⊢
  dsimp only at hrun ⊢
  split
  · rwa [if_pos ‹_›] at hrun
  rw [if_neg ‹_›] at hrun
  split
  · rwa [if_pos ‹_›] at hrun
  rw [if_neg ‹_›] at hrun
  cases hstream : processGetFileStream n k.memory k.currentProcess streamId with
  | none => simp only [hstream, reduceCtorEq] at hrun
  | some stream =>
    have hstream' : processGetFileStream n' k.memory k.currentProcess streamId = some stream :=
      processGetFileStreamLoop_mono hle hstream
    simp only [hstream, hstream'] at hrun ⊢
    split_ifs at hrun ⊢
    · exact hrun
    · exact hrun
    · exact hrun
    · exact hrun
    · cases hread : diskReadFile n k.disk (k.stream stream).currentBlock (k.stream stream).currentOffset size with
      | none => simp only [hread, reduceCtorEq] at hrun
      | some read =>
        rw [diskReadFile_mono hread hle]
        rw [hread] at hrun
        exact hrun

/-- `os_write`, within a larger bound. -/
theorem osWrite_mono {r : Kernel × Nat} (hle : n ≤ n')
    (hrun : osWrite n k streamId buffer size = some r) : osWrite n' k streamId buffer size = some r := by
  rw [osWrite] at hrun ⊢
  dsimp only at hrun ⊢
  split
  · rwa [if_pos ‹_›] at hrun
  rw [if_neg ‹_›] at hrun
  split
  · rwa [if_pos ‹_›] at hrun
  rw [if_neg ‹_›] at hrun
  cases hstream : processGetFileStream n k.memory k.currentProcess streamId with
  | none => simp only [hstream, reduceCtorEq] at hrun
  | some stream =>
    have hstream' : processGetFileStream n' k.memory k.currentProcess streamId = some stream :=
      processGetFileStreamLoop_mono hle hstream
    simp only [hstream, hstream'] at hrun ⊢
    split_ifs at hrun ⊢
    · exact hrun
    · exact hrun
    · cases hwrite : diskWriteFile n k.disk (k.stream stream).currentBlock (k.memory.slice buffer size) with
      | none => simp only [hwrite, reduceCtorEq] at hrun
      | some written =>
        rw [diskWriteFile_mono hwrite hle]
        rw [hwrite] at hrun
        exact hrun

end Toys.Os
