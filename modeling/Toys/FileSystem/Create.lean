import Mathlib
import Toys.FileSystem.Find

namespace Toys.FileSystem

open Toys.Lib

/-!
# File system — creating a file

`disk_create_file` takes the first free block, writes the header of an empty file in it and
links it where its name belongs.  `diskInsertFile_eq` gives the blocks it writes,
`Inserts.describes` the layout of the result, and `diskCreateFile_cases` what a call can do.
-/

variable {io : BlockIo} {buffer : DiskBlock} {n : Nat} {L : Layout} {name : List UInt8}

/-- The names `disk_create_file` accepts. -/
def ValidName (name : List UInt8) : Prop :=
  1 ≤ name.length ∧ name.length ≤ 488 ∧ ∀ c ∈ name, 33 ≤ c ∧ c ≤ 126

/-- The first block of a new file, written over the free block `b`. -/
def newFileBlock (b : DiskBlock) (name : List UInt8) (nextFile : Nat) : DiskBlock :=
  (((setBlockSize b (U64.add 24 name.length)).setNextFile nextFile).setNameLength
    name.length).write 24 name

section NewFileBlock

variable {b : DiskBlock} {nextFile : Nat}

/-- The first word of a new file is the size of its header. -/
theorem newFileBlock_nextBlock (nextFile : Nat) (h : name.length ≤ 488) :
    (newFileBlock b name nextFile).nextBlock = 24 + name.length := by
  simp only [newFileBlock, setBlockSize, DiskBlock.nextBlock_write (show 8 ≤ 24 by decide),
    DiskBlock.nextBlock_setNameLength, DiskBlock.nextBlock_setNextFile]
  rw [U64.add_eq (by omega), DiskBlock.nextBlock_setNextBlock (by omega)]

/-- A new file leads to the next one. -/
theorem newFileBlock_nextFile (h : nextFile < 2 ^ 64) :
    (newFileBlock b name nextFile).nextFile = nextFile := by
  simp only [newFileBlock, DiskBlock.nextFile_write (show 16 ≤ 24 by decide),
    DiskBlock.nextFile_setNameLength]
  exact DiskBlock.nextFile_setNextFile h

/-- A new file has its name. -/
theorem newFileBlock_fileName (h : name.length ≤ 488) :
    (newFileBlock b name nextFile).fileName = name := by
  have hlen : (newFileBlock b name nextFile).nameLength = name.length := by
    simp only [newFileBlock, DiskBlock.nameLength_write (le_refl 24)]
    exact DiskBlock.nameLength_setNameLength (by omega)
  rw [DiskBlock.fileName, hlen]
  exact DiskBlock.read_write_self (by omega)

/-- A new file is empty. -/
theorem newFileBlock_content (h : name.length ≤ 488) :
    blockContent (newFileBlock b name nextFile) (24 + name.length) = [] := by
  have hnext := newFileBlock_nextBlock (b := b) nextFile h
  have hused : usedSize (newFileBlock b name nextFile) = 24 + name.length := by
    rw [usedSize, if_pos (blockGetNext_of_le (by omega)), blockSize, hnext]
  simp [blockContent, hused, DiskBlock.read]

end NewFileBlock

/-- The blocks that `diskInsertFile` writes: the new file, the previous file (or the
    superblock, when there is none) and the superblock. -/
theorem diskInsertFile_eq (buffer : DiskBlock) {newFile file previousFile : Nat} (hr : io.readErrors = [])
    (hsuper : SUPER_BLOCK < io.numBlocks) (hnew : newFile < io.numBlocks) (hnew0 : newFile ≠ 0)
    (hprev : previousFile < io.numBlocks) (hne : previousFile ≠ newFile) :
    ∃ io' buffer', diskInsertFile ⟨io, buffer⟩ name newFile (io.blocks SUPER_BLOCK).nextFile file
        previousFile = ⟨io', buffer'⟩ ∧ SameDevice io io' ∧
      io'.blocks newFile = newFileBlock (io.blocks newFile) name file ∧
      io'.blocks SUPER_BLOCK = blockSetNext ((io.blocks SUPER_BLOCK).setNextFile
        (if previousFile ≠ 0 then (io.blocks SUPER_BLOCK).nextFile else newFile))
        (nextOf io.blocks newFile) ∧
      (previousFile ≠ 0 →
        io'.blocks previousFile = (io.blocks previousFile).setNextFile newFile) ∧
      ∀ b, b ≠ SUPER_BLOCK → b ≠ newFile → b ≠ previousFile → io'.blocks b = io.blocks b := by
  simp only [superBlock_eq] at *
  by_cases hp : previousFile = 0
  · subst hp
    simp only [diskInsertFile, ne_eq, not_true_eq_false, if_false, superBlock_eq, Disk.setBuffer_eq,
      diskReadBlockBuffer_eq hr hnew, diskWriteBlockBuffer_eq hnew, diskReadBlockBuffer_eq
        (show (io.set newFile _).readErrors = [] from hr) hsuper,
      diskWriteBlockBuffer_eq (show _ < (io.set newFile _).numBlocks from hsuper)]
    refine ⟨_, _, rfl, ⟨rfl, rfl⟩, ?_, ?_, fun h => h.elim, fun b h0 h1 _ => ?_⟩
    · simp [hnew0, newFileBlock]
    · simp [hne, nextOf]
    · simp [h0, h1]
  · simp only [diskInsertFile, ne_eq, hp, not_false_eq_true, if_true, superBlock_eq,
      Disk.setBuffer_eq, diskReadBlockBuffer_eq hr hprev, diskWriteBlockBuffer_eq hprev,
      diskReadBlockBuffer_eq (show (io.set previousFile _).readErrors = [] from hr) hnew,
      diskWriteBlockBuffer_eq (show _ < (io.set previousFile _).numBlocks from hnew),
      diskReadBlockBuffer_eq (show ((io.set previousFile _).set newFile _).readErrors = [] from hr) hsuper,
      diskWriteBlockBuffer_eq (show _ < ((io.set previousFile _).set newFile _).numBlocks from hsuper)]
    refine ⟨_, _, rfl, ⟨rfl, rfl⟩, ?_, ?_, fun _ => ?_, fun b h0 h1 h2 => ?_⟩
    · simp [hnew0, newFileBlock, Function.update_of_ne hne.symm]
    · simp [hnew0.symm, Ne.symm hp, hne.symm, nextOf]
    · simp [hp, hne]
    · simp [h0, h1, h2]

/-- The layout after creating the file `name` in the block `newFile`. -/
def Layout.insert (L : Layout) (name : List UInt8) (newFile : Nat) (free : List Nat) : Layout where
  free := free
  files := filesBefore name L.files ++ ⟨name, newFile, []⟩ :: filesFrom name L.files

/-- The place of a name is after the superblock or after a file of the list. -/
theorem previousOf_mem (name : List UInt8) (fs : List FileLayout) :
    previousOf name fs SUPER_BLOCK ∈ SUPER_BLOCK :: fs.map (·.first) := by
  have hsub : (filesBefore name fs).map (·.first) ⊆ fs.map (·.first) :=
    List.map_subset _ (List.takeWhile_sublist _).subset
  unfold previousOf
  cases h : (filesBefore name fs).map (·.first) using List.reverseRecOn with
  | nil => simp
  | append_singleton l x _ =>
    rw [h] at hsub
    simp only [lastFrom, List.getLastD_concat]
    exact List.mem_cons_of_mem _ (hsub (by simp))

/-- The blocks of `io'` are those of `io` with an empty file, in the first free block `newFile`, linked
    between the files before its name and the others. -/
structure Inserts (io io' : BlockIo) (L : Layout) (name : List UInt8) (newFile : Nat)
    (free : List Nat) : Prop where
  free_eq : L.free = newFile :: free
  absent : fileAt name L.files = none
  device : SameDevice io io'
  new : io'.blocks newFile =
    newFileBlock (io.blocks newFile) name (((filesFrom name L.files).map (·.first)).headD 0)
  super : io'.blocks SUPER_BLOCK = blockSetNext ((io.blocks SUPER_BLOCK).setNextFile
    (if previousOf name L.files SUPER_BLOCK ≠ 0 then (io.blocks SUPER_BLOCK).nextFile
      else newFile)) (nextOf io.blocks newFile)
  previous : previousOf name L.files SUPER_BLOCK ≠ 0 →
    io'.blocks (previousOf name L.files SUPER_BLOCK) =
      (io.blocks (previousOf name L.files SUPER_BLOCK)).setNextFile newFile
  frame : ∀ b, b ≠ SUPER_BLOCK → b ≠ newFile → b ≠ previousOf name L.files SUPER_BLOCK →
    io'.blocks b = io.blocks b

namespace Inserts

variable {io' : BlockIo} {newFile : Nat} {free : List Nat}

/-- The new block is a block of the disk, other than the superblock. -/
theorem newFile_lt (hi : Inserts io io' L name newFile free) (h : Describes io L) :
    1 ≤ newFile ∧ newFile < io.numBlocks :=
  h.free_lt (by simp [hi.free_eq])

/-- The new block belongs to no file. -/
theorem not_mem (hi : Inserts io io' L name newFile free) (h : Describes io L) {f : FileLayout}
    (hf : f ∈ L.files) : newFile ∉ f.blocks :=
  h.free_not_mem (by simp [hi.free_eq]) hf

/-- The chains only change at the superblock and at the new block. -/
theorem nextBlock_eq (hi : Inserts io io' L name newFile free) {b : Nat} (h0 : b ≠ SUPER_BLOCK)
    (h1 : b ≠ newFile) : (io'.blocks b).nextBlock = (io.blocks b).nextBlock := by
  rcases eq_or_ne b (previousOf name L.files SUPER_BLOCK) with rfl | hb
  · rw [hi.previous h0]; simp
  · rw [hi.frame b h0 h1 hb]

/-- The links of the chains only change there. -/
theorem nextOf_eq (hi : Inserts io io' L name newFile free) {b : Nat} (h0 : b ≠ SUPER_BLOCK)
    (h1 : b ≠ newFile) : nextOf io'.blocks b = nextOf io.blocks b := by
  simp [nextOf, blockGetNext, hi.nextBlock_eq h0 h1]

/-- The other files keep their blocks, but for the link of the previous one. -/
theorem fileFrame (hi : Inserts io io' L name newFile free) (h : Describes io L) {f : FileLayout}
    (hf : f ∈ L.files) : FileFrame io.blocks io'.blocks f := by
  have hfb : ∀ b ∈ f.blocks, b ≠ SUPER_BLOCK ∧ b ≠ newFile := fun b hb =>
    ⟨h.block_ne_super hf hb, fun hbn => hi.not_mem h hf (hbn ▸ hb)⟩
  constructor
  · obtain ⟨h0, h1⟩ := hfb f.first (by simp [FileLayout.blocks])
    by_cases hfp : f.first = previousOf name L.files SUPER_BLOCK
    · exact Or.inr ⟨newFile, by rw [hfp]; exact hi.previous (hfp ▸ h0)⟩
    · exact Or.inl (hi.frame _ h0 h1 hfp)
  · intro b hb
    obtain ⟨h0, h1⟩ := hfb b (by simp [FileLayout.blocks, hb])
    refine hi.frame b h0 h1 ?_
    rintro rfl
    rcases List.mem_cons.mp (previousOf_mem name L.files) with hp0 | hpm
    · exact h0 hp0
    · obtain ⟨g, hg, hgp⟩ := List.mem_map.mp hpm
      exact h.first_not_mem_rest hg hf (by rw [hgp]; exact hb)

/-! The free list continues after the block taken from it. -/

/-- The free blocks that remain follow the new block. -/
theorem path_free (hi : Inserts io io' L name newFile free) (h : Describes io L) :
    Path 0 (nextOf io.blocks) (nextOf io.blocks newFile) free 0 := by
  have hpath := h.free_path
  rw [hi.free_eq] at hpath
  exact hpath.2.2

/-- The new block is not free any more. -/
theorem not_mem_free (hi : Inserts io io' L name newFile free) (h : Describes io L) :
    newFile ∉ free := by
  have hnodup := h.nodup
  rw [hi.free_eq] at hnodup
  exact (List.nodup_cons.mp (List.nodup_append'.mp hnodup).1).1

/-- The superblock leads to the block after the new one. -/
theorem super_nextBlock (hi : Inserts io io' L name newFile free) (h : Describes io L) :
    (io'.blocks SUPER_BLOCK).nextBlock = nextOf io.blocks newFile + 512 := by
  have hpath := hi.path_free h
  have hlt : nextOf io.blocks newFile + 512 < 2 ^ 64 := by
    cases hf : free with
    | nil => rw [hf] at hpath; rw [path_nil.mp hpath]; decide
    | cons x l =>
      rw [hf] at hpath
      rw [hpath.1]
      exact io.add_lt (h.free_lt (by simp [hi.free_eq, hf])).2
  rw [hi.super, nextBlock_blockSetNext hlt]

/-- The free list starts after the new block. -/
theorem free_path (hi : Inserts io io' L name newFile free) (h : Describes io L) :
    Path 0 (nextOf io'.blocks) (nextOf io'.blocks SUPER_BLOCK) free 0 := by
  have hstart : nextOf io'.blocks SUPER_BLOCK = nextOf io.blocks newFile := by
    unfold nextOf blockGetNext
    rw [hi.super_nextBlock h]
    unfold nextOf blockGetNext
    split <;> split <;> omega
  have hpath := hi.path_free h
  rw [hstart]
  refine hpath.congr fun b hb => hi.nextOf_eq (hpath.ne_null b hb) ?_
  rintro rfl
  exact hi.not_mem_free h hb

/-- The last block of the free list keeps its mark. -/
theorem free_end (hi : Inserts io io' L name newFile free) (h : Describes io L) :
    (io'.blocks (lastFrom SUPER_BLOCK free)).nextBlock = 512 := by
  have hpath := hi.path_free h
  have hend := h.free_end
  rw [hi.free_eq, lastFrom, List.getLastD_cons] at hend
  cases hf : free using List.reverseRecOn with
  | nil =>
    rw [hf] at hpath
    rw [lastFrom, List.getLastD_nil, hi.super_nextBlock h, path_nil.mp hpath]
  | append_singleton l x _ =>
    rw [hf, List.getLastD_concat] at hend
    rw [lastFrom, List.getLastD_concat, hi.nextBlock_eq (b := x), hend]
    · exact hpath.ne_null x (by simp [hf])
    · rintro rfl
      exact hi.not_mem_free h (by simp [hf])

/-! The file list gets the new file after the files with a smaller name. -/

/-- The file before the new one, or the superblock, leads to it. -/
theorem previous_nextFile (hi : Inserts io io' L name newFile free) (h : Describes io L) :
    (io'.blocks (previousOf name L.files SUPER_BLOCK)).nextFile = newFile := by
  have hlt : newFile < 2 ^ 64 := by
    have := io.add_lt (hi.newFile_lt h).2
    omega
  by_cases hp0 : previousOf name L.files SUPER_BLOCK = 0
  · rw [hp0]
    show (io'.blocks SUPER_BLOCK).nextFile = newFile
    rw [hi.super, if_neg (not_not_intro hp0), blockSetNext, DiskBlock.nextFile_setNextBlock]
    exact DiskBlock.nextFile_setNextFile hlt
  · rw [hi.previous hp0]
    exact DiskBlock.nextFile_setNextFile hlt

/-- The new file leads to the next one. -/
theorem new_nextFile (hi : Inserts io io' L name newFile free) (h : Describes io L) :
    (io'.blocks newFile).nextFile = ((filesFrom name L.files).map (·.first)).headD 0 := by
  rw [hi.new, newFileBlock_nextFile]
  cases hf : filesFrom name L.files with
  | nil => simp
  | cons g l =>
    have hg : g ∈ L.files := by
      rw [← filesBefore_append name L.files, hf]
      simp
    have := io.add_lt (h.first_lt hg).2
    simp only [List.map_cons, List.headD_cons]
    omega

/-- The other links of the list stay. -/
theorem nextFile_eq (hi : Inserts io io' L name newFile free) (h : Describes io L) {b : Nat}
    (hb : b ∈ SUPER_BLOCK :: L.files.map (·.first)) (hbp : b ≠ previousOf name L.files SUPER_BLOCK) :
    (io'.blocks b).nextFile = (io.blocks b).nextFile := by
  rcases List.mem_cons.mp hb with rfl | hb
  · have hne : previousOf name L.files SUPER_BLOCK ≠ 0 := hbp.symm
    rw [hi.super, if_pos hne, blockSetNext, DiskBlock.nextFile_setNextBlock]
    exact DiskBlock.nextFile_setNextFile (DiskBlock.word_lt _ _)
  · obtain ⟨f, hf, rfl⟩ := List.mem_map.mp hb
    have hfirst : f.first ∈ f.blocks := by simp [FileLayout.blocks]
    rw [hi.frame f.first (h.block_ne_super hf hfirst) ?_ hbp]
    intro hbn
    exact hi.not_mem h hf (hbn ▸ hfirst)

/-- The files are linked in the order of the new layout. -/
theorem files_path (hi : Inserts io io' L name newFile free) (h : Describes io L) :
    Path 0 (nextFileOf io'.blocks) (nextFileOf io'.blocks SUPER_BLOCK)
      ((L.insert name newFile free).files.map (·.first)) 0 := by
  have hfp := h.files_path
  have hfirsts := h.firsts_nodup
  have hnew0 : newFile ≠ 0 := Nat.one_le_iff_ne_zero.mp (hi.newFile_lt h).1
  rw [← filesBefore_append name L.files, List.map_append] at hfp hfirsts
  simp only [Layout.insert, List.map_append, List.map_cons]
  refine hfp.insert hfirsts hnew0 (hi.previous_nextFile h) ?_ ?_
  · rw [hfp.next_lastFrom]
    exact hi.new_nextFile h
  · intro b hb hbp
    rw [← List.map_append, filesBefore_append] at hb
    exact hi.nextFile_eq h hb hbp

/-! The files. -/

/-- The new file is the empty file `name`. -/
theorem new_ok (hi : Inserts io io' L name newFile free) (hname : ValidName name) :
    FileOk io'.blocks ⟨name, newFile, []⟩ := by
  obtain ⟨hpos, hle, hchars⟩ := hname
  have hnext : (io'.blocks newFile).nextBlock = 24 + name.length := by
    rw [hi.new, newFileBlock_nextBlock _ hle]
  refine ⟨?_, ?_, hpos, hle, hchars, ?_, ?_⟩
  · show Path 0 _ (nextOf io'.blocks newFile) [] 0
    exact blockGetNext_of_le (by omega)
  · show (io'.blocks newFile).fileName = name
    rw [hi.new, newFileBlock_fileName hle]
  · show 24 + name.length ≤ blockSize (io'.blocks newFile)
    rw [blockSize, hnext]
  · show blockSize (io'.blocks newFile) ≤ 512
    rw [blockSize, hnext]
    omega

/-- All the files of the new layout are well-formed. -/
theorem files_ok (hi : Inserts io io' L name newFile free) (h : Describes io L)
    (hname : ValidName name) {f : FileLayout} (hf : f ∈ (L.insert name newFile free).files) :
    FileOk io'.blocks f := by
  have hold : ∀ g ∈ L.files, FileOk io'.blocks g := fun g hg =>
    (h.files_ok g hg).frame (hi.fileFrame h hg)
  rcases List.mem_append.mp hf with hf | hf
  · exact hold f ((List.takeWhile_sublist _).subset hf)
  rcases List.mem_cons.mp hf with rfl | hf
  · exact hi.new_ok hname
  · exact hold f ((List.dropWhile_sublist _).subset hf)

/-- The new block moves from the free list to the new file. -/
theorem partition (hi : Inserts io io' L name newFile free) (h : Describes io L) :
    ((L.insert name newFile free).free ++
      (L.insert name newFile free).files.flatMap FileLayout.blocks).Perm
        (List.range' 1 (io'.numBlocks - 1)) := by
  have hpart := h.partition
  rw [← filesBefore_append name L.files, hi.free_eq] at hpart
  rw [hi.device.1]
  refine List.Perm.trans ?_ hpart
  rw [List.perm_iff_count]
  intro a
  simp only [Layout.insert, FileLayout.blocks, List.flatMap_append, List.flatMap_cons,
    List.count_append, List.count_cons, List.cons_append, List.nil_append]
  omega

/-- Linking an empty file between the files before its name and the others keeps the image
    well-formed. -/
theorem describes (hi : Inserts io io' L name newFile free) (h : Describes io L)
    (hname : ValidName name) : Describes io' (L.insert name newFile free) where
  super_lt := by
    rw [hi.device.1]
    exact h.super_lt
  free_path := hi.free_path h
  free_end := hi.free_end h
  files_path := hi.files_path h
  files_ok _ hf := hi.files_ok h hname hf
  sorted := sorted_insert (f := ⟨name, newFile, []⟩) h.sorted hi.absent
  partition := hi.partition h

end Inserts

/-- What `disk_create_file` can do on a well-formed image: fail and leave it as it was, or
    create an empty file in the first free block. -/
theorem diskCreateFile_cases (buffer : DiskBlock) (h : Describes io L) (hr : io.readErrors = [])
    (hn : io.numBlocks ≤ n) (name : List UInt8) :
    (∃ buffer' status, status ≠ Status.ok ∧
      diskCreateFile n ⟨io, buffer⟩ name = some (⟨io, buffer'⟩, .error status)) ∨
    (∃ io' buffer' newFile free,
      diskCreateFile n ⟨io, buffer⟩ name = some (⟨io', buffer'⟩, .ok newFile) ∧
      L.free = newFile :: free ∧ ValidName name ∧ fileAt name L.files = none ∧
      SameDevice io io' ∧ Describes io' (L.insert name newFile free) ∧
      (∀ f ∈ L.files, FileFrame io.blocks io'.blocks f) ∧
      fileContent io'.blocks ⟨name, newFile, []⟩ = []) := by
  unfold diskCreateFile
  by_cases hlen : name.length = 0 ∨ name.length > 488
  · rw [if_pos hlen]
    exact Or.inl ⟨buffer, .invalidArgument, by simp, rfl⟩
  rw [if_neg hlen]
  by_cases hany : name.any fun c => c ≤ 32 || c ≥ 127
  · rw [if_pos hany]
    exact Or.inl ⟨buffer, .invalidArgument, by simp, rfl⟩
  rw [if_neg hany]
  have hvalid : ValidName name := by
    refine ⟨by omega, by omega, fun c hc => ?_⟩
    simp only [List.any_eq_true, not_exists, not_and, Bool.or_eq_true, decide_eq_true_eq,
      not_or] at hany
    have := hany c hc
    constructor <;> grind
  simp only [diskReadBlockBuffer_eq hr h.super_lt]
  by_cases hfree : blockGetNext (io.blocks SUPER_BLOCK) = 0
  · simp only [hfree, if_true]
    exact Or.inl ⟨_, .outOfMemory, by simp, rfl⟩
  simp only [hfree, if_false]
  obtain ⟨buffer', hloop⟩ := diskCreateFileLoop_eq (n := n)
    hr h.files_path
    (fun f hf => ⟨h.files_ok f hf, (h.first_lt hf).2⟩) (by have := h.files_length_lt; omega)
  simp only [nextFileOf] at hloop
  rw [hloop]
  by_cases hat : (fileAt name L.files).isSome
  · simp only [hat, if_true]
    exact Or.inl ⟨_, .alreadyExists, by simp, rfl⟩
  simp only [hat, Bool.false_eq_true, if_false]
  right
  obtain ⟨newFile, free, hL⟩ : ∃ newFile free, L.free = newFile :: free := by
    cases hf : L.free with
    | nil => have hp := h.free_path; rw [hf] at hp; exact absurd hp hfree
    | cons x l => exact ⟨x, l, rfl⟩
  have hfirst : blockGetNext (io.blocks SUPER_BLOCK) = newFile := by
    have hp := h.free_path
    rw [hL] at hp
    exact hp.1
  have hnew := h.free_lt (b := newFile) (by simp [hL])
  have hpmem := previousOf_mem name L.files
  -- the predecessor is the superblock or a file, and thus not the free block
  have hplt : previousOf name L.files 0 < io.numBlocks ∧ previousOf name L.files 0 ≠ newFile := by
    rcases List.mem_cons.mp hpmem with hp0 | hpm
    · have := h.super_lt
      simp only [superBlock_eq] at hp0 this
      omega
    · obtain ⟨f, hf, hfp⟩ := List.mem_map.mp hpm
      simp only [superBlock_eq] at hfp
      rw [← hfp]
      refine ⟨(h.first_lt hf).2, fun heq => ?_⟩
      exact h.free_not_mem (b := newFile) (by simp [hL]) hf (by simp [FileLayout.blocks, heq])
  obtain ⟨io', buffer'', heq, hdev, h1, h2, h3, h4⟩ := diskInsertFile_eq buffer'
    hr h.super_lt hnew.2 (by omega) hplt.1 hplt.2
  have hnone := Option.not_isSome_iff_eq_none.mp hat
  have hi : Inserts io io' L name newFile free := ⟨hL, hnone, hdev, h1, h2, h3, h4⟩
  refine ⟨io', buffer'', newFile, free, ?_, hL, hvalid, hnone, hdev, hi.describes h hvalid,
    fun f hf => hi.fileFrame h hf, ?_⟩
  · simp only [hfirst, heq]
  · simp only [fileContent, FileLayout.blocks, chainContent, List.append_nil]
    rw [h1, newFileBlock_content hvalid.2.1]

end Toys.FileSystem
