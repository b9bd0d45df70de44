import Mathlib
import Toys.FileSystem.Write
import Toys.FileSystem.Bound

namespace Toys.FileSystem

open Toys.Lib

/-!
# File system — well-formed images

Formatting gives a well-formed image, and every operation ends and keeps the image
well-formed, whether it succeeds or not.

* `diskFormat_describes` — the layout of a formatted image;
* `fileSystem_wellFormed` — formatting, creating, writing, clearing and deleting.
-/

variable {io : BlockIo} {buffer : DiskBlock} {n : Nat}

/-! ### Formatting -/

/-- The loop of the format links each block to the next one. -/
theorem foldl_diskFormatBlock (io : BlockIo) (buffer : DiskBlock) (hr : io.readErrors = [])
    (numBlocks : Nat) {l : List Nat} (hlt : ∀ i ∈ l, i < io.numBlocks) (hnd : l.Nodup) :
    ∃ io' buffer', l.foldl (diskFormatBlock numBlocks) ⟨io, buffer⟩ = ⟨io', buffer'⟩ ∧
      SameDevice io io' ∧
      (∀ i ∈ l, io'.blocks i = blockSetNext (io.blocks i) ((i + 1) % numBlocks)) ∧
      ∀ i, i ∉ l → io'.blocks i = io.blocks i := by
  induction l generalizing io buffer with
  | nil => exact ⟨io, buffer, rfl, ⟨rfl, rfl⟩, by simp, by simp⟩
  | cons x l ih =>
    obtain ⟨hx, hnd⟩ := List.nodup_cons.mp hnd
    have hxlt := hlt x (by simp)
    obtain ⟨io', buffer', heq, hdev, hin, hout⟩ := ih
      (io.set x (blockSetNext (io.blocks x) ((x + 1) % numBlocks)))
      (blockSetNext (io.blocks x) ((x + 1) % numBlocks)) hr
      (fun i hi => hlt i (by simp [hi])) hnd
    refine ⟨io', buffer', ?_, hdev, fun i hi => ?_, fun i hi => ?_⟩
    · simp only [List.foldl_cons, diskFormatBlock, diskReadBlockBuffer_eq hr hxlt,
        Disk.setBuffer_eq, diskWriteBlockBuffer_eq hxlt]
      exact heq
    · rcases List.mem_cons.mp hi with rfl | hil
      · rw [hout i hx, BlockIo.set_blocks, Function.update_self]
      · rw [hin i hil, BlockIo.set_blocks, Function.update_of_ne (by rintro rfl; exact hx hil)]
    · simp only [List.mem_cons, not_or] at hi
      rw [hout i hi.2, BlockIo.set_blocks, Function.update_of_ne hi.1]

/-- Each block but the last is followed by the next one. -/
theorem path_range' {next : Nat → Nat} {numBlocks a k : Nat} (ha : 1 ≤ a) (hk : a + k = numBlocks)
    (hnext : ∀ i, a ≤ i → i < numBlocks → next i = (i + 1) % numBlocks) :
    Path 0 next (a % numBlocks) (List.range' a k) 0 := by
  induction k generalizing a with
  | zero =>
    obtain rfl : a = numBlocks := hk
    exact Nat.mod_self a
  | succ k ih =>
    refine ⟨Nat.mod_eq_of_lt (by omega), by omega, ?_⟩
    rw [hnext a (le_refl a) (by omega)]
    exact ih (by omega) (by omega) fun i hi => hnext i (by omega)

/-- A formatted image has all its blocks in the free list. -/
theorem diskFormat_describes {numBlocks : Nat} (hr : io.readErrors = [])
    (hblocks : io.numBlocks = numBlocks) (hn : 2 ≤ numBlocks) :
    SameDevice io (diskFormat ⟨io, buffer⟩ numBlocks).io ∧
      Describes (diskFormat ⟨io, buffer⟩ numBlocks).io ⟨List.range' 1 (numBlocks - 1), []⟩ := by
  have hsuper : SUPER_BLOCK < io.numBlocks := by simp; omega
  have hlt : ∀ i < numBlocks, i + 512 < 2 ^ 64 := fun i hi => io.add_lt (by omega)
  obtain ⟨io', buffer', heq, hdev, hin, hout⟩ := foldl_diskFormatBlock
    (io.set SUPER_BLOCK ((blockSetNext (io.blocks SUPER_BLOCK) (SUPER_BLOCK + 1)).setNextFile 0))
    ((blockSetNext (io.blocks SUPER_BLOCK) (SUPER_BLOCK + 1)).setNextFile 0) hr numBlocks
    (l := List.range' 1 (numBlocks - 1))
    (fun i hi => by simp at hi; simp; omega) (List.nodup_range' ..)
  have hdisk : (diskFormat ⟨io, buffer⟩ numBlocks).io = io' := by
    simp only [diskFormat, diskReadBlockBuffer_eq hr hsuper, Disk.setBuffer_eq,
      diskWriteBlockBuffer_eq hsuper, heq]
  have hsuper' : io'.blocks SUPER_BLOCK =
      (blockSetNext (io.blocks SUPER_BLOCK) (SUPER_BLOCK + 1)).setNextFile 0 := by
    rw [hout SUPER_BLOCK (by simp), BlockIo.set_blocks, Function.update_self]
  have hblock : ∀ i, 1 ≤ i → i < numBlocks →
      (io'.blocks i).nextBlock = (i + 1) % numBlocks + 512 := by
    intro i h1 hi
    rw [hin i (by simp; omega)]
    exact nextBlock_blockSetNext (hlt _ (Nat.mod_lt _ (by omega)))
  -- the last block is followed by the superblock, whose index ends the list
  have hnext : ∀ i, 1 ≤ i → i < numBlocks → nextOf io'.blocks i = (i + 1) % numBlocks := by
    intro i h1 hi
    rw [nextOf, hin i (by simp; omega)]
    exact blockGetNext_blockSetNext (hlt _ (Nat.mod_lt _ (by omega)))
  rw [hdisk]
  refine ⟨hdev, hdev.1 ▸ hsuper, ?_, ?_, ?_, by simp, by simp, ?_⟩
  · have hfirst : nextOf io'.blocks SUPER_BLOCK = 1 % numBlocks := by
      rw [nextOf, hsuper', Nat.mod_eq_of_lt (by omega), blockGetNext,
        DiskBlock.nextBlock_setNextFile, nextBlock_blockSetNext (by decide)]
      rfl
    rw [hfirst]
    exact path_range' (le_refl 1) (by omega) hnext
  · have hlast : lastFrom SUPER_BLOCK (List.range' 1 (numBlocks - 1)) = numBlocks - 1 := by
      obtain ⟨k, rfl⟩ : ∃ k, numBlocks = k + 2 := ⟨numBlocks - 2, by omega⟩
      rw [show k + 2 - 1 = k + 1 by omega, List.range'_concat, lastFrom, List.getLastD_concat]
      omega
    rw [hlast, hblock _ (by omega) (by omega), show numBlocks - 1 + 1 = numBlocks by omega,
      Nat.mod_self]
  · show (io'.blocks SUPER_BLOCK).nextFile = 0
    rw [hsuper']
    exact DiskBlock.nextFile_setNextFile (by decide)
  · simp [hdev.1, hblocks]

/-! ### Operations -/

/-- The operations that change an image, with their arguments. -/
inductive Operation
  | createFile (name : List UInt8)
  | writeFile (block : Nat) (src : List UInt8)
  | clearFile (file : Nat)
  | deleteFile (file previousFile : Nat)

/-- The disk after an operation, whatever its result. -/
def Operation.run (bound : Nat) (self : Disk) : Operation → Option Disk
  | createFile name => (diskCreateFile bound self name).map (·.1)
  | writeFile block src => (diskWriteFile bound self block src).map (·.1)
  | clearFile file => diskClearFile bound self file
  | deleteFile file previousFile => diskDeleteFile bound self file previousFile

/-- `file` and `previousFile` are what `disk_find_file` returns for the name of a file, when
    the variable `*previous_file` is 0 before the call. -/
def FoundFile (io : BlockIo) (file previousFile : Nat) : Prop :=
  ∃ n buffer disk name, diskFindFile n ⟨io, buffer⟩ name 0 = some (disk, file, previousFile) ∧
    file ≠ 0

/-- `block` is the last block of a file. -/
def LastBlock (io : BlockIo) (block : Nat) : Prop :=
  ∃ L, Describes io L ∧ ∃ f ∈ L.files, f.last = block

/-- What the callers of an operation guarantee about its arguments. -/
def Operation.Allowed (io : BlockIo) : Operation → Prop
  | createFile _ => True
  | writeFile block _ => LastBlock io block
  | clearFile file => ∃ previousFile, FoundFile io file previousFile
  | deleteFile file previousFile => FoundFile io file previousFile

/-- A larger bound does not change the result of an operation. -/
theorem Operation.run_mono {op : Operation} {m : Nat} {self self' : Disk}
    (h : op.run n self = some self') (hnm : n ≤ m) : op.run m self = some self' := by
  cases op <;> simp only [Operation.run] at h ⊢
  case createFile name =>
    obtain ⟨r, hr, rfl⟩ := Option.map_eq_some_iff.mp h
    exact Option.map_eq_some_iff.mpr ⟨r, diskCreateFile_mono hr hnm, rfl⟩
  case writeFile block src =>
    obtain ⟨r, hr, rfl⟩ := Option.map_eq_some_iff.mp h
    exact Option.map_eq_some_iff.mpr ⟨r, diskWriteFile_mono hr hnm, rfl⟩
  case clearFile file => exact diskClearFile_mono h hnm
  case deleteFile file previousFile => exact diskDeleteFile_mono h hnm

/-- The file list around the file called `name`. -/
theorem files_split {name : List UInt8} {fs : List FileLayout} {f : FileLayout}
    (h : fileAt name fs = some f) :
    ∃ pre post, fs = pre ++ f :: post ∧ f.name = name ∧ previousOf name fs 0 = previousFirst pre := by
  obtain ⟨post, hfrom, hname⟩ := filesFrom_of_fileAt h
  refine ⟨filesBefore name fs, post, ?_, hname, rfl⟩
  rw [← hfrom, filesBefore_append]

/-- A found file is in the file list, after the one that starts with `previousFile`. -/
theorem FoundFile.split {L : Layout} {file previousFile : Nat} (h : Describes io L)
    (hr : io.readErrors = []) (hfound : FoundFile io file previousFile) :
    ∃ pre f post, L = ⟨L.free, pre ++ f :: post⟩ ∧ f.first = file ∧
      previousFirst pre = previousFile := by
  obtain ⟨n, buffer, disk, name, hfind, hne⟩ := hfound
  obtain ⟨buffer', heq⟩ := diskFindFile_eq (n := max n io.numBlocks) h hr
    (le_max_right ..) name 0
  rw [diskFindFile_mono hfind (le_max_left ..)] at heq
  simp only [Option.some.injEq, Prod.mk.injEq] at heq
  obtain ⟨-, hfile, hprevious⟩ := heq
  cases hat : fileAt name L.files with
  | none => rw [hat] at hfile; exact absurd hfile hne
  | some f =>
    obtain ⟨pre, post, hfiles, -, hpre⟩ := files_split hat
    refine ⟨pre, f, post, ?_, ?_, ?_⟩
    · rw [← hfiles]
    · rw [hfile, hat]; rfl
    · rw [hprevious, hpre]

/-- Every operation ends and keeps the image well-formed. -/
theorem Operation.run_wellFormed {op : Operation} (h : WellFormed io) (hr : io.readErrors = [])
    (hop : op.Allowed io) :
    ∃ io' buffer', (∀ n ≥ io.numBlocks, op.run n ⟨io, buffer⟩ = some ⟨io', buffer'⟩) ∧
      SameDevice io io' ∧ WellFormed io' := by
  obtain ⟨L, h⟩ := h
  have hbound : ∀ {io' buffer'}, op.run io.numBlocks ⟨io, buffer⟩ = some ⟨io', buffer'⟩ →
      ∀ n ≥ io.numBlocks, op.run n ⟨io, buffer⟩ = some ⟨io', buffer'⟩ :=
    fun heq n hn => Operation.run_mono heq hn
  -- one result for each operation, which gives the layout after it
  cases op with
  | createFile name =>
    rcases diskCreateFile_cases buffer h hr (le_refl _) name with
      ⟨buffer', status, -, heq⟩ | ⟨io', buffer', newFile, free, heq, -, -, -, hdev, hdesc, -⟩
    · exact ⟨io, buffer', hbound (by simp [Operation.run, heq]), ⟨rfl, rfl⟩, L, h⟩
    · exact ⟨io', buffer', hbound (by simp [Operation.run, heq]), hdev, _, hdesc⟩
  | writeFile block src =>
    obtain ⟨L, h, f, hf, rfl⟩ := hop
    obtain ⟨pre, post, hfiles⟩ := List.append_of_mem hf
    obtain ⟨free, files⟩ := L
    simp only at hfiles
    subst hfiles
    obtain ⟨io', buffer', new, free', status, heq, -, hdev, hdesc, -⟩ :=
      diskWriteFile_eq buffer src h hr (le_refl _)
    exact ⟨io', buffer', hbound (by simp [Operation.run, heq]), hdev, _, hdesc⟩
  | clearFile file =>
    obtain ⟨previousFile, hfound⟩ := hop
    obtain ⟨pre, f, post, hL, rfl, -⟩ := hfound.split h hr
    rw [hL] at h
    obtain ⟨io', buffer', heq, hdev, hdesc, -⟩ := diskClearFile_eq buffer h hr (le_refl _)
    exact ⟨io', buffer', hbound (by simp only [Operation.run, heq]), hdev, _, hdesc⟩
  | deleteFile file previousFile =>
    obtain ⟨pre, f, post, hL, rfl, rfl⟩ := FoundFile.split h hr hop
    rw [hL] at h
    obtain ⟨io', buffer', heq, hdev, hdesc, -⟩ := diskDeleteFile_eq buffer h hr (le_refl _)
    exact ⟨io', buffer', hbound (by simp only [Operation.run, heq]), hdev, _, hdesc⟩

/-- Formatting a device with at least two blocks gives a well-formed image, and each
    operation, with arguments that its callers can give, ends within a bound and leaves a
    well-formed image, whatever status it returns. -/
theorem fileSystem_wellFormed :
    (∀ io buffer, io.readErrors = [] → 2 ≤ io.numBlocks →
      WellFormed (diskFormat ⟨io, buffer⟩ io.numBlocks).io) ∧
    ∀ io buffer op, WellFormed io → io.readErrors = [] → Operation.Allowed io op →
      ∃ self', (∀ n ≥ io.numBlocks, op.run n ⟨io, buffer⟩ = some self') ∧ WellFormed self'.io := by
  refine ⟨fun io buffer hr hn => ⟨_, (diskFormat_describes hr rfl hn).2⟩, fun io buffer op h hr hop => ?_⟩
  obtain ⟨io', buffer', heq, -, hwf⟩ := Operation.run_wellFormed h hr hop
  exact ⟨_, heq, hwf⟩

/-- A device of two blocks whose bytes are all 0. -/
def blankIo : BlockIo where
  numBlocks := 2
  blocks := fun _ => ⟨fun _ => 0⟩
  readErrors := []
  size_le := by norm_num

/-- A block of data, whose bytes depend on their offset and on `k`. -/
def dataBlock (k : Nat) : DiskBlock := ⟨fun i => UInt8.ofNat (7 * i + k)⟩

/-- An image with the files "A", in the blocks 1 and 3, and "BC", in the block 2.  The blocks 4, 5 and
    6 are free. -/
def filesIo : BlockIo where
  numBlocks := 7
  blocks := fun b =>
    if b = 0 then (DiskBlock.setNextBlock ⟨fun _ => 0⟩ 516).setNextFile 1
    else if b = 1 then (newFileBlock (dataBlock 1) [65] 2).setNextBlock 515
    else if b = 2 then setBlockSize (newFileBlock (dataBlock 2) [66, 67] 0) 36
    else if b = 3 then setBlockSize (dataBlock 3) 100
    else if b = 4 then (dataBlock 4).setNextBlock 517
    else if b = 5 then (dataBlock 5).setNextBlock 518
    else (dataBlock 6).setNextBlock 512
  readErrors := []
  size_le := seven_blocks_le

/-- The layout of this image. -/
def filesLayout : Layout := ⟨[4, 5, 6], [⟨[65], 1, [3]⟩, ⟨[66, 67], 2, []⟩]⟩

/-- This image is well-formed. -/
theorem filesIo_describes : Describes filesIo filesLayout where
  super_lt := by decide
  free_path := by decide +kernel
  free_end := by decide +kernel
  files_path := by decide +kernel
  files_ok := by
    intro f hf
    rcases List.mem_pair.mp hf with rfl | rfl
    · exact {
        chain := by decide +kernel
        name_eq := by decide +kernel
        name_pos := by decide
        name_le := by simp
        name_chars := by simp
        size_ge := by decide +kernel
        size_le := by decide +kernel }
    · exact {
        chain := by decide +kernel
        name_eq := by decide +kernel
        name_pos := by decide
        name_le := by simp
        name_chars := by simp
        size_ge := by decide +kernel
        size_le := by decide +kernel }
  sorted := by decide +kernel
  partition := by decide +kernel

/-- The file "BC" is found after the one that starts with the block 1. -/
theorem filesIo_found : FoundFile filesIo 2 1 := by
  obtain ⟨buffer', h⟩ := diskFindFile_eq (n := 7) filesIo_describes rfl (le_refl _) [66, 67] 0
  exact ⟨7, ⟨fun _ => 0⟩, _, [66, 67], h, by decide⟩

/-- A new image, and the four operations on the image with two files: the write takes two blocks from
    the free list. -/
theorem fileSystem_wellFormed_files :
    WellFormed (diskFormat ⟨blankIo, ⟨fun _ => 0⟩⟩ 2).io ∧
      ∀ op ∈ [Operation.createFile [66], .writeFile 3 (List.replicate 1000 1), .clearFile 2, .deleteFile 2 1],
        ∃ self', (∀ n ≥ 7, op.run n ⟨filesIo, ⟨fun _ => 0⟩⟩ = some self') ∧ WellFormed self'.io := by
  refine ⟨fileSystem_wellFormed.1 blankIo _ rfl (le_refl _), fun op hop => ?_⟩
  refine fileSystem_wellFormed.2 filesIo _ op ⟨_, filesIo_describes⟩ rfl ?_
  simp only [List.mem_cons, List.not_mem_nil, or_false] at hop
  rcases hop with rfl | rfl | rfl | rfl
  · trivial
  · exact ⟨_, filesIo_describes, ⟨[65], 1, [3]⟩, List.mem_pair.mpr (.inl rfl), rfl⟩
  · exact ⟨1, filesIo_found⟩
  · exact filesIo_found

end Toys.FileSystem
