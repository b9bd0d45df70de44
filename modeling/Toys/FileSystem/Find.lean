import Mathlib
import Toys.FileSystem.Layout

namespace Toys.FileSystem

open Toys.Lib

/-!
# File system — reading blocks and searching the file list

When no read fails, reading and writing a block of the image are functional updates.  The
loops that search a name stop at the same place: after `filesBefore name`, the files with a
smaller name.

* `diskReadBlockBuffer_eq`, `diskWriteBlockBuffer_eq` — the two block accesses;
* `diskFindFileLoop_eq`, `diskCreateFileLoop_eq` — the two search loops;
* `diskFindFile_eq` — `disk_find_file` on an image with a known layout.
-/

variable {io : BlockIo} {buffer : DiskBlock} {block : Nat}

/-! ### Block accesses -/

@[simp] theorem BlockIo.set_numBlocks (bytes : DiskBlock) :
    (io.set block bytes).numBlocks = io.numBlocks := rfl

@[simp] theorem BlockIo.set_readErrors (bytes : DiskBlock) :
    (io.set block bytes).readErrors = io.readErrors := rfl

@[simp] theorem BlockIo.set_blocks (bytes : DiskBlock) :
    (io.set block bytes).blocks = Function.update io.blocks block bytes := rfl

/-- Only the blocks of the device change. -/
def SameDevice (io io' : BlockIo) : Prop :=
  io'.numBlocks = io.numBlocks ∧ io'.readErrors = io.readErrors

/-- Without read errors, the block that is read is in the buffer. -/
theorem diskReadBlockBuffer_eq (hr : io.readErrors = []) (hb : block < io.numBlocks) :
    diskReadBlockBuffer ⟨io, buffer⟩ block = ⟨io, io.blocks block⟩ := by
  obtain ⟨numBlocks, blocks, readErrors, size_le⟩ := io
  subst hr
  have : ¬ numBlocks ≤ block := by simpa using hb
  simp [diskReadBlockBuffer, this]

/-- The buffer is written to a block of the device. -/
theorem diskWriteBlockBuffer_eq (hb : block < io.numBlocks) :
    diskWriteBlockBuffer ⟨io, buffer⟩ block = ⟨io.set block buffer, buffer⟩ := by
  simp [diskWriteBlockBuffer, hb]

@[simp] theorem Disk.setBuffer_eq (bytes : DiskBlock) :
    Disk.setBuffer ⟨io, buffer⟩ bytes = ⟨io, bytes⟩ := rfl

/-! ### Where a name belongs in the file list -/

/-- The files before the place of `name`: those with a smaller name. -/
def filesBefore (name : List UInt8) (fs : List FileLayout) : List FileLayout :=
  fs.takeWhile fun f => compareNames f.name name = .smaller

/-- The files from the place of `name` on. -/
def filesFrom (name : List UInt8) (fs : List FileLayout) : List FileLayout :=
  fs.dropWhile fun f => compareNames f.name name = .smaller

/-- The files before a name and the others are all the files. -/
theorem filesBefore_append (name : List UInt8) (fs : List FileLayout) :
    filesBefore name fs ++ filesFrom name fs = fs := List.takeWhile_append_dropWhile

/-- The file called `name`, if it is where it belongs. -/
def fileAt (name : List UInt8) (fs : List FileLayout) : Option FileLayout :=
  (filesFrom name fs).head?.filter fun f => f.name = name

/-- The first block of the last file before the place of `name`, or `previousFile`. -/
def previousOf (name : List UInt8) (fs : List FileLayout) (previousFile : Nat) : Nat :=
  lastFrom previousFile ((filesBefore name fs).map (·.first))

section Search

variable {name : List UInt8} {fs : List FileLayout} {n file previousFile : Nat}

/-- A file with a smaller name is before. -/
theorem filesBefore_cons_of_smaller {f : FileLayout} (h : compareNames f.name name = .smaller) :
    filesBefore name (f :: fs) = f :: filesBefore name fs := by
  simp [filesBefore, h]

theorem filesFrom_cons_of_smaller {f : FileLayout} (h : compareNames f.name name = .smaller) :
    filesFrom name (f :: fs) = filesFrom name fs := by
  simp [filesFrom, h]

theorem fileAt_cons_of_smaller {f : FileLayout} (h : compareNames f.name name = .smaller) :
    fileAt name (f :: fs) = fileAt name fs := by
  simp only [fileAt, filesFrom_cons_of_smaller h]

/-- A file with a smaller name is before the place of the name. -/
theorem previousOf_cons_of_smaller {f : FileLayout} (h : compareNames f.name name = .smaller) :
    previousOf name (f :: fs) previousFile = previousOf name fs f.first := by
  simp only [previousOf, filesBefore_cons_of_smaller h, List.map_cons, List.getLastD_cons]

theorem filesBefore_cons_of_not {f : FileLayout} (h : compareNames f.name name ≠ .smaller) :
    filesBefore name (f :: fs) = [] := by
  simp [filesBefore, h]

theorem filesFrom_cons_of_not {f : FileLayout} (h : compareNames f.name name ≠ .smaller) :
    filesFrom name (f :: fs) = f :: fs := by
  simp [filesFrom, h]

theorem fileAt_cons_of_not {f : FileLayout} (h : compareNames f.name name ≠ .smaller) :
    fileAt name (f :: fs) = if f.name = name then some f else none := by
  simp only [fileAt, filesFrom_cons_of_not h, List.head?_cons, Option.filter]
  split <;> simp_all

/-- The loop of `disk_find_file` goes over the files before the place of `name`. -/
theorem diskFindFileLoop_eq (hr : io.readErrors = [])
    (hpath : Path 0 (nextFileOf io.blocks) file (fs.map (·.first)) 0)
    (hok : ∀ f ∈ fs, FileOk io.blocks f ∧ f.first < io.numBlocks) (hn : fs.length < n) :
    ∃ buffer', diskFindFileLoop name n ⟨io, buffer⟩ file previousFile =
      some (⟨io, buffer'⟩, ((fileAt name fs).map (·.first)).getD 0,
        previousOf name fs previousFile) := by
  induction fs generalizing n file previousFile buffer with
  | nil =>
    obtain ⟨n, rfl⟩ : ∃ k, n = k + 1 := ⟨n - 1, by simp at hn; omega⟩
    simp only [List.map_nil, path_nil] at hpath
    exact ⟨buffer, by simp [diskFindFileLoop, hpath, fileAt, filesFrom, previousOf, filesBefore]⟩
  | cons f fs ih =>
    obtain ⟨n, rfl⟩ : ∃ k, n = k + 1 := ⟨n - 1, by simp at hn; omega⟩
    obtain ⟨rfl, hne, hpath⟩ := hpath
    obtain ⟨hf, hlt⟩ := hok f (by simp)
    simp only [diskFindFileLoop, if_neg hne, diskReadBlockBuffer_eq hr hlt,
      diskCompareFileName_eq, hf.name_eq]
    cases hcmp : compareNames f.name name with
    | equal =>
      have hnot : compareNames f.name name ≠ .smaller := by simp [hcmp]
      refine ⟨io.blocks f.first, ?_⟩
      simp [fileAt_cons_of_not hnot, previousOf, filesBefore_cons_of_not hnot,
        compareNames_eq_equal.mp hcmp]
    | greater =>
      have hnot : compareNames f.name name ≠ .smaller := by simp [hcmp]
      have hneq : f.name ≠ name := fun h => by simp [compareNames_eq_equal.mpr h] at hcmp
      refine ⟨io.blocks f.first, ?_⟩
      simp [fileAt_cons_of_not hnot, previousOf, filesBefore_cons_of_not hnot, hneq]
    | smaller =>
      obtain ⟨buffer', h⟩ := ih (n := n)
        hpath (fun g hg => hok g (by simp [hg]))
        (by simp at hn; omega)
      refine ⟨buffer', ?_⟩
      simp only [nextFileOf] at h
      rw [h]
      rw [previousOf_cons_of_smaller hcmp, fileAt_cons_of_smaller hcmp]

/-- The loop of `disk_create_file` stops at the same place. -/
theorem diskCreateFileLoop_eq (hr : io.readErrors = [])
    (hpath : Path 0 (nextFileOf io.blocks) file (fs.map (·.first)) 0)
    (hok : ∀ f ∈ fs, FileOk io.blocks f ∧ f.first < io.numBlocks) (hn : fs.length < n) :
    ∃ buffer', diskCreateFileLoop name n ⟨io, buffer⟩ file previousFile =
      some (⟨io, buffer'⟩,
        if (fileAt name fs).isSome then .error .alreadyExists
        else .ok (((filesFrom name fs).map (·.first)).headD 0,
          previousOf name fs previousFile)) := by
  induction fs generalizing n file previousFile buffer with
  | nil =>
    obtain ⟨n, rfl⟩ : ∃ k, n = k + 1 := ⟨n - 1, by simp at hn; omega⟩
    simp only [List.map_nil, path_nil] at hpath
    exact ⟨buffer, by
      simp [diskCreateFileLoop, hpath, fileAt, filesFrom, previousOf, filesBefore]⟩
  | cons f fs ih =>
    obtain ⟨n, rfl⟩ : ∃ k, n = k + 1 := ⟨n - 1, by simp at hn; omega⟩
    obtain ⟨rfl, hne, hpath⟩ := hpath
    obtain ⟨hf, hlt⟩ := hok f (by simp)
    simp only [diskCreateFileLoop, if_neg hne, diskReadBlockBuffer_eq hr hlt,
      diskCompareFileName_eq, hf.name_eq]
    -- the files are in the order of their names, so that the loop stops at the first one that is not smaller
    cases hcmp : compareNames f.name name with
    | equal =>
      have hnot : compareNames f.name name ≠ .smaller := by simp [hcmp]
      refine ⟨io.blocks f.first, ?_⟩
      simp [fileAt_cons_of_not hnot, compareNames_eq_equal.mp hcmp]
    | greater =>
      have hnot : compareNames f.name name ≠ .smaller := by simp [hcmp]
      have hneq : f.name ≠ name := fun h => by simp [compareNames_eq_equal.mpr h] at hcmp
      refine ⟨io.blocks f.first, ?_⟩
      simp [fileAt_cons_of_not hnot, previousOf, filesFrom_cons_of_not hnot,
        filesBefore_cons_of_not hnot, hneq]
    | smaller =>
      obtain ⟨buffer', h⟩ := ih (n := n)
        hpath (fun g hg => hok g (by simp [hg]))
        (by simp at hn; omega)
      refine ⟨buffer', ?_⟩
      simp only [nextFileOf] at h
      rw [h]
      rw [previousOf_cons_of_smaller hcmp, fileAt_cons_of_smaller hcmp,
        filesFrom_cons_of_smaller hcmp]

/-- `disk_find_file` on an image with layout `L`. -/
theorem diskFindFile_eq {L : Layout} (h : Describes io L) (hr : io.readErrors = [])
    (hn : io.numBlocks ≤ n) (name : List UInt8) (previousFile : Nat) :
    ∃ buffer', diskFindFile n ⟨io, buffer⟩ name previousFile =
      some (⟨io, buffer'⟩, ((fileAt name L.files).map (·.first)).getD 0,
        previousOf name L.files previousFile) := by
  simp only [diskFindFile, diskReadBlockBuffer_eq hr h.super_lt]
  exact diskFindFileLoop_eq hr h.files_path
    (fun f hf => ⟨h.files_ok f hf, (h.first_lt hf).2⟩) (by have := h.files_length_lt; omega)

end Search

/-! ### Searching a sorted list -/

section Sorted

variable {name : List UInt8} {fs : List FileLayout}

/-- In a sorted list, the file called `name` is where it belongs. -/
theorem fileAt_eq_some_iff
    (hs : fs.Pairwise fun f g => compareNames f.name g.name = .smaller) {f : FileLayout} :
    fileAt name fs = some f ↔ f ∈ fs ∧ f.name = name := by
  induction fs with
  | nil => simp [fileAt, filesFrom]
  | cons g fs ih =>
    obtain ⟨hg, hs⟩ := List.pairwise_cons.mp hs
    by_cases hcmp : compareNames g.name name = .smaller
    · have hne : g.name ≠ name := fun h => by simp [compareNames_eq_equal.mpr h] at hcmp
      rw [fileAt_cons_of_smaller hcmp, ih hs, List.mem_cons]
      constructor
      · rintro ⟨hf, rfl⟩
        exact ⟨Or.inr hf, rfl⟩
      · rintro ⟨rfl | hf, rfl⟩
        · exact absurd rfl hne
        · exact ⟨hf, rfl⟩
    · rw [fileAt_cons_of_not hcmp, List.mem_cons]
      constructor
      · intro h
        split at h
        · next hname =>
          obtain rfl : g = f := by simpa using h
          exact ⟨Or.inl rfl, hname⟩
        · simp at h
      · rintro ⟨rfl | hf, rfl⟩
        · simp
        · exact absurd (hg f hf) hcmp

/-- The files from the place of a name on are not smaller. -/
theorem filesFrom_not_smaller
    (hs : fs.Pairwise fun f g => compareNames f.name g.name = .smaller) {f : FileLayout}
    (hf : f ∈ filesFrom name fs) : compareNames f.name name ≠ .smaller := by
  induction fs with
  | nil => simp [filesFrom] at hf
  | cons g fs ih =>
    obtain ⟨hg, hs⟩ := List.pairwise_cons.mp hs
    by_cases hcmp : compareNames g.name name = .smaller
    · rw [filesFrom_cons_of_smaller hcmp] at hf
      exact ih hs hf
    · rw [filesFrom_cons_of_not hcmp] at hf
      rcases List.mem_cons.mp hf with rfl | hf
      · exact hcmp
      · exact fun hlt => hcmp (compareNames_trans (hg f hf) hlt)

/-- A sorted list stays sorted when a file with a new name is put where it belongs. -/
theorem sorted_insert (hs : fs.Pairwise fun f g => compareNames f.name g.name = .smaller)
    {f : FileLayout} (hnew : fileAt f.name fs = none) :
    (filesBefore f.name fs ++ f :: filesFrom f.name fs).Pairwise
      fun f g => compareNames f.name g.name = .smaller := by
  induction fs with
  | nil => simp [filesBefore, filesFrom]
  | cons g fs ih =>
    have hs' := hs
    obtain ⟨hg, hs⟩ := List.pairwise_cons.mp hs
    by_cases hcmp : compareNames g.name f.name = .smaller
    · rw [filesBefore_cons_of_smaller hcmp, filesFrom_cons_of_smaller hcmp, List.cons_append]
      refine List.pairwise_cons.mpr ⟨fun k hk => ?_, ih hs ?_⟩
      · rcases List.mem_append.mp hk with hk | hk
        · exact hg k ((List.takeWhile_sublist _).subset hk)
        · rcases List.mem_cons.mp hk with rfl | hk
          · exact hcmp
          · exact hg k ((List.dropWhile_sublist _).subset hk)
      · rw [← hnew, fileAt_cons_of_smaller hcmp]
    · have hne : g.name ≠ f.name := by
        intro heq
        simp [fileAt_cons_of_not hcmp, heq] at hnew
      -- the first remaining file is greater, and so are those after it
      have hfg : compareNames f.name g.name = .smaller := by
        rw [compareNames_smaller_iff]
        cases h : compareNames g.name f.name with
        | equal => exact absurd (compareNames_eq_equal.mp h) hne
        | smaller => exact absurd h hcmp
        | greater => rfl
      rw [filesBefore_cons_of_not hcmp, filesFrom_cons_of_not hcmp, List.nil_append]
      refine List.pairwise_cons.mpr ⟨fun k hk => ?_, hs'⟩
      rcases List.mem_cons.mp hk with rfl | hk
      · exact hfg
      · exact compareNames_trans hfg (hg k hk)

/-- A file is found between the files before its name and those after it. -/
theorem filesFrom_of_fileAt {f : FileLayout} (h : fileAt name fs = some f) :
    ∃ after, filesFrom name fs = f :: after ∧ f.name = name := by
  unfold fileAt at h
  cases hfrom : filesFrom name fs with
  | nil => simp [hfrom] at h
  | cons g after =>
    simp only [hfrom, List.head?_cons, Option.filter] at h
    split at h
    · next hname =>
      obtain rfl : g = f := by simpa using h
      exact ⟨after, rfl, by simpa using hname⟩
    · simp at h

end Sorted

end Toys.FileSystem
