import Mathlib
import Toys.Lib.Linked
import Toys.FileSystem.Disk

namespace Toys.FileSystem

open Toys.Lib

/-!
# File system — layout and well-formed images

The *layout* of a disk image lists its blocks: the free list, and for each file, in the
order of the file list, its name and its chain of blocks.  `Describes io L` says that the
linked blocks of the image spell the layout `L`; an image is *well-formed* when it has a
layout.  The content of a file is read off its chain.

* `Describes` — the three kinds of lists, the header words and the partition of the blocks;
* `chainContent` — the bytes after the headers of a chain of blocks;
* `FileOk.frame` — a file and its content only depend on its own blocks, and not on the
  `next_file` word of the first of them.
-/

/-- A file: its name, its first block and the other blocks of its chain. -/
structure FileLayout where
  name : List UInt8
  first : Nat
  rest : List Nat

namespace FileLayout

/-- All the blocks of the file, in order. -/
def blocks (f : FileLayout) : List Nat := f.first :: f.rest

/-- The last block of the file. -/
def last (f : FileLayout) : Nat := f.rest.getLastD f.first

/-- The size of the header of the last block: the first block also stores the name. -/
def lastHeaderSize (f : FileLayout) : Nat := if f.rest = [] then 24 + f.name.length else 8

/-- The last block of a file is one of its blocks. -/
theorem last_mem (f : FileLayout) : f.last ∈ f.blocks := by
  unfold last blocks
  cases h : f.rest using List.reverseRecOn <;> simp

end FileLayout

/-- The blocks of a disk image: the free ones and those of each file. -/
structure Layout where
  free : List Nat
  files : List FileLayout

/-- The names and the first blocks of the files. -/
def Layout.entries (L : Layout) : List (List UInt8 × Nat) := L.files.map fun f => (f.name, f.first)

/-- The block after `b` in its chain. -/
def nextOf (B : Nat → DiskBlock) (b : Nat) : Nat := blockGetNext (B b)

/-- The first block of the file after the one that starts with block `b`; for the superblock,
    of the first file. -/
def nextFileOf (B : Nat → DiskBlock) (b : Nat) : Nat := (B b).nextFile

/-- The file `f` is stored in the blocks `B`. -/
structure FileOk (B : Nat → DiskBlock) (f : FileLayout) : Prop where
  chain : Path 0 (nextOf B) (nextOf B f.first) f.rest 0
  name_eq : (B f.first).fileName = f.name
  name_pos : 1 ≤ f.name.length
  name_le : f.name.length ≤ 488
  name_chars : ∀ c ∈ f.name, 33 ≤ c ∧ c ≤ 126
  size_ge : f.lastHeaderSize ≤ blockSize (B f.last)
  size_le : blockSize (B f.last) ≤ 512

/-- The image has the layout `L`. -/
structure Describes (io : BlockIo) (L : Layout) : Prop where
  super_lt : SUPER_BLOCK < io.numBlocks
  free_path : Path 0 (nextOf io.blocks) (nextOf io.blocks SUPER_BLOCK) L.free 0
  free_end : (io.blocks (lastFrom SUPER_BLOCK L.free)).nextBlock = 512
  files_path :
    Path 0 (nextFileOf io.blocks) (nextFileOf io.blocks SUPER_BLOCK) (L.files.map (·.first)) 0
  files_ok : ∀ f ∈ L.files, FileOk io.blocks f
  sorted : L.files.Pairwise fun f g => compareNames f.name g.name = .smaller
  partition :
    (L.free ++ L.files.flatMap FileLayout.blocks).Perm (List.range' 1 (io.numBlocks - 1))

/-- A well-formed disk image. -/
def WellFormed (io : BlockIo) : Prop := ∃ L, Describes io L

/-! ### Content -/

/-- The offset of the end of the data in a block. -/
def usedSize (b : DiskBlock) : Nat := if blockGetNext b = 0 then blockSize b else 512

/-- The data of a block with a header of `headerSize` bytes. -/
def blockContent (b : DiskBlock) (headerSize : Nat) : List UInt8 :=
  b.read headerSize (usedSize b - headerSize)

/-- The data of a chain of blocks whose first one has a header of `headerSize` bytes. -/
def chainContent (B : Nat → DiskBlock) : (headerSize : Nat) → List Nat → List UInt8
  | _, [] => []
  | headerSize, b :: bs => blockContent (B b) headerSize ++ chainContent B 8 bs

/-- The content of a file. -/
def fileContent (B : Nat → DiskBlock) (f : FileLayout) : List UInt8 :=
  chainContent B (24 + f.name.length) f.blocks

/-- The content depends on the blocks of the chain only. -/
theorem chainContent_congr {B B' : Nat → DiskBlock} {h : Nat} {bs : List Nat}
    (heq : ∀ b ∈ bs, B' b = B b) : chainContent B' h bs = chainContent B h bs := by
  induction bs generalizing h with
  | nil => rfl
  | cons b bs ih =>
    simp only [chainContent]
    rw [heq b (by simp), ih fun c hc => heq c (by simp [hc])]

/-- The content of two parts of a chain. -/
theorem chainContent_append (B : Nat → DiskBlock) (h : Nat) (bs cs : List Nat) :
    chainContent B h (bs ++ cs) =
      chainContent B h bs ++ chainContent B (if bs = [] then h else 8) cs := by
  induction bs generalizing h with
  | nil => simp [chainContent]
  | cons b bs ih =>
    simp only [List.cons_append, chainContent, ih, List.append_assoc, reduceCtorEq, if_false]
    cases bs <;> simp

/-! ### The frame of a file -/

/-- The blocks of `f` are the same in `B` and `B'`, up to the `next_file` word. -/
def FileFrame (B B' : Nat → DiskBlock) (f : FileLayout) : Prop :=
  (B' f.first = B f.first ∨ ∃ v, B' f.first = (B f.first).setNextFile v) ∧
    ∀ b ∈ f.rest, B' b = B b

/-- The data of a block end in the block. -/
theorem usedSize_le {b : DiskBlock} : usedSize b ≤ 512 := by
  unfold usedSize
  split
  · exact blockGetNext_eq_zero.mp ‹_›
  · exact le_refl _

/-- The link to the next file is not part of the content. -/
theorem blockContent_setNextFile {b : DiskBlock} {v h : Nat} (hh : 24 ≤ h) (hh' : h ≤ 512) :
    blockContent (b.setNextFile v) h = blockContent b h := by
  have hused : usedSize (b.setNextFile v) = usedSize b := by
    simp [usedSize, blockGetNext, blockSize]
  have hle := usedSize_le (b := b)
  unfold blockContent
  rw [hused, DiskBlock.read_setNextFile (by omega) hh]

/-- The link to the next file is not part of the name. -/
theorem fileName_setNextFile {b : DiskBlock} {v : Nat} (h : b.nameLength ≤ 488) :
    (b.setNextFile v).fileName = b.fileName := by
  unfold DiskBlock.fileName
  rw [DiskBlock.nameLength_setNextFile, DiskBlock.read_setNextFile (by omega) (le_refl _)]

/-- The link to the next block is not part of the name. -/
theorem fileName_setNextBlock {b : DiskBlock} {v : Nat} (h : b.nameLength ≤ 488) :
    (b.setNextBlock v).fileName = b.fileName := by
  unfold DiskBlock.fileName
  rw [DiskBlock.nameLength_setNextBlock, DiskBlock.read_setNextBlock (by omega) (by decide)]

/-- The link to the next block does not depend on the link to the next file. -/
theorem nextOf_congr {B B' : Nat → DiskBlock} {b : Nat}
    (h : B' b = B b ∨ ∃ v, B' b = (B b).setNextFile v) : nextOf B' b = nextOf B b := by
  rcases h with h | ⟨v, h⟩ <;> simp [nextOf, blockGetNext, h]

/-- The length of the name is in the header. -/
theorem FileOk.nameLength_eq {B : Nat → DiskBlock} {f : FileLayout} (h : FileOk B f) :
    (B f.first).nameLength = f.name.length := by
  rw [← h.name_eq, DiskBlock.fileName, DiskBlock.read_length]

/-- A file whose blocks are kept is still well-formed. -/
theorem FileOk.frame {B B' : Nat → DiskBlock} {f : FileLayout} (h : FileOk B f)
    (hf : FileFrame B B' f) : FileOk B' f := by
  obtain ⟨hfirst, hrest⟩ := hf
  have hname := h.nameLength_eq
  have hle := h.name_le
  have hlast : blockSize (B' f.last) = blockSize (B f.last) := by
    rcases List.mem_cons.mp f.last_mem with heq | hmem
    · rw [heq]
      rcases hfirst with hf | ⟨v, hf⟩ <;> simp [hf, blockSize]
    · rw [hrest _ hmem]
  refine ⟨?_, ?_, h.name_pos, h.name_le, h.name_chars, by rw [hlast]; exact h.size_ge,
    by rw [hlast]; exact h.size_le⟩
  · rw [nextOf_congr hfirst]
    exact h.chain.congr fun b hb => by simp [nextOf, hrest b hb]
  · rcases hfirst with hf | ⟨v, hf⟩
    · rw [hf, h.name_eq]
    · rw [hf, fileName_setNextFile (by omega), h.name_eq]

/-- A file whose blocks are kept has the same content. -/
theorem fileContent_frame {B B' : Nat → DiskBlock} {f : FileLayout} (h : FileOk B f)
    (hf : FileFrame B B' f) : fileContent B' f = fileContent B f := by
  obtain ⟨hfirst, hrest⟩ := hf
  have hle := h.name_le
  simp only [fileContent, FileLayout.blocks, chainContent]
  rw [chainContent_congr hrest]
  congr 1
  rcases hfirst with hf | ⟨v, hf⟩
  · rw [hf]
  · rw [hf, blockContent_setNextFile (by omega) (by omega)]

/-! ### Where the blocks of a layout are -/

section Blocks

variable {io : BlockIo} {L : Layout}

/-- The blocks of the free list and of the files are all different. -/
theorem Describes.nodup (h : Describes io L) :
    (L.free ++ L.files.flatMap FileLayout.blocks).Nodup :=
  h.partition.nodup_iff.mpr (List.nodup_range' ..)

/-- A block belongs to the free list or to a file exactly when it is a block of the image
    other than the superblock. -/
theorem Describes.mem_iff (h : Describes io L) {b : Nat} :
    (b ∈ L.free ∨ ∃ f ∈ L.files, b ∈ f.blocks) ↔ 1 ≤ b ∧ b < io.numBlocks := by
  have hmem := h.partition.mem_iff (a := b)
  have hsuper := h.super_lt
  simp only [List.mem_append, List.mem_flatMap, List.mem_range'_1, superBlock_eq] at hmem hsuper
  rw [hmem]
  omega

/-- A free block is a block of the image, other than the superblock. -/
theorem Describes.free_lt (h : Describes io L) {b : Nat} (hb : b ∈ L.free) :
    1 ≤ b ∧ b < io.numBlocks := h.mem_iff.mp (Or.inl hb)

/-- A block of a file is a block of the image, other than the superblock. -/
theorem Describes.block_lt (h : Describes io L) {f : FileLayout} (hf : f ∈ L.files) {b : Nat}
    (hb : b ∈ f.blocks) : 1 ≤ b ∧ b < io.numBlocks := h.mem_iff.mp (Or.inr ⟨f, hf, hb⟩)

theorem Describes.first_lt (h : Describes io L) {f : FileLayout} (hf : f ∈ L.files) :
    1 ≤ f.first ∧ f.first < io.numBlocks := h.block_lt hf (by simp [FileLayout.blocks])

/-- No file uses the superblock. -/
theorem Describes.block_ne_super (h : Describes io L) {f : FileLayout} (hf : f ∈ L.files) {b : Nat}
    (hb : b ∈ f.blocks) : b ≠ SUPER_BLOCK :=
  Nat.one_le_iff_ne_zero.mp (h.block_lt hf hb).1

theorem Describes.free_ne_super (h : Describes io L) {b : Nat} (hb : b ∈ L.free) :
    b ≠ SUPER_BLOCK := Nat.one_le_iff_ne_zero.mp (h.free_lt hb).1

/-- A block is not both free and part of a file. -/
theorem Describes.free_not_mem (h : Describes io L) {b : Nat} (hb : b ∈ L.free)
    {f : FileLayout} (hf : f ∈ L.files) : b ∉ f.blocks := fun hmem =>
  (List.nodup_append'.mp h.nodup).2.2 hb (List.mem_flatMap.mpr ⟨f, hf, hmem⟩)

/-- The blocks of a file are different. -/
theorem Describes.blocks_nodup (h : Describes io L) {f : FileLayout} (hf : f ∈ L.files) :
    f.blocks.Nodup :=
  (List.nodup_flatMap.mp (List.nodup_append'.mp h.nodup).2.1).1 f hf

/-- Two different files share no block. -/
theorem Describes.disjoint (h : Describes io L) {f g : FileLayout} (hf : f ∈ L.files)
    (hg : g ∈ L.files) (hne : f ≠ g) : f.blocks.Disjoint g.blocks :=
  haveI : Std.Symm (Function.onFun List.Disjoint FileLayout.blocks) :=
    ⟨fun _ _ hd => List.Disjoint.symm hd⟩
  (List.nodup_flatMap.mp (List.nodup_append'.mp h.nodup).2.1).2.forall hf hg hne

/-- A first block is in the chain of no other file. -/
theorem Describes.first_not_mem_rest (h : Describes io L) {f g : FileLayout} (hf : f ∈ L.files)
    (hg : g ∈ L.files) : f.first ∉ g.rest := by
  intro hmem
  rcases eq_or_ne f g with rfl | hne
  · exact (List.nodup_cons.mp (h.blocks_nodup hf)).1 hmem
  · exact h.disjoint hf hg hne List.mem_cons_self (List.mem_cons_of_mem _ hmem)

/-- The first block of a file is its last one only if it is the only one. -/
theorem Describes.rest_eq_nil (h : Describes io L) {f : FileLayout} (hf : f ∈ L.files)
    (heq : f.first = f.last) : f.rest = [] := by
  by_contra hne
  obtain ⟨l, x, hlx⟩ := List.eq_nil_or_concat f.rest |>.resolve_left hne
  exact h.first_not_mem_rest hf hf (by rw [heq]; simp [FileLayout.last, hlx])

theorem Describes.files_nodup (h : Describes io L) : L.files.Nodup :=
  h.sorted.imp fun {f g} hlt heq => by
    have := compareNames_eq_equal.mpr (congrArg FileLayout.name heq)
    simp [this] at hlt

/-- The first blocks of the files, with the superblock, are all different. -/
theorem Describes.firsts_nodup (h : Describes io L) :
    (SUPER_BLOCK :: L.files.map (·.first)).Nodup :=
  List.nodup_cons.mpr ⟨fun hmem => h.files_path.ne_null _ hmem rfl, h.files_path.nodup⟩

/-- A block number plus 512 fits in a 64-bit word. -/
theorem BlockIo.add_lt (io : BlockIo) {b : Nat} (hb : b < io.numBlocks) : b + 512 < 2 ^ 64 := by
  have := io.size_le
  omega

/-- The free list and the chains of the files have fewer blocks than the image. -/
theorem Describes.length_lt (h : Describes io L) :
    L.free.length + (L.files.flatMap FileLayout.blocks).length < io.numBlocks := by
  have := h.partition.length_eq
  have := h.super_lt
  simp only [List.length_append, List.length_range', superBlock_eq] at *
  omega

/-- There are fewer files than blocks. -/
theorem Describes.files_length_lt (h : Describes io L) : L.files.length < io.numBlocks := by
  have hlen : L.files.length ≤ (L.files.flatMap FileLayout.blocks).length := by
    rw [List.length_flatMap]
    calc L.files.length = (L.files.map fun _ => 1).sum := by simp
      _ ≤ (L.files.map fun f => f.blocks.length).sum :=
        List.sum_le_sum fun f _ => by simp [FileLayout.blocks]
  have := h.length_lt
  omega

/-- A file has fewer blocks than the image. -/
theorem Describes.blocks_length_lt (h : Describes io L) {f : FileLayout} (hf : f ∈ L.files) :
    f.blocks.length < io.numBlocks := by
  have hlen : f.blocks.length ≤ (L.files.flatMap FileLayout.blocks).length := by
    rw [List.length_flatMap]
    exact List.le_sum_of_mem (List.mem_map_of_mem hf)
  have := h.length_lt
  omega

/-- Replacing one file by another with the same name and first block keeps the image
    well-formed when the other files are framed. -/
theorem Describes.replace {io' : BlockIo} {free free' : List Nat} {pre post : List FileLayout}
    {f f' : FileLayout} (h : Describes io ⟨free, pre ++ f :: post⟩) (hname : f'.name = f.name)
    (hfirst : f'.first = f.first) (hblocks : io'.numBlocks = io.numBlocks)
    (hpath : Path 0 (nextOf io'.blocks) (nextOf io'.blocks SUPER_BLOCK) free' 0)
    (hend : (io'.blocks (lastFrom SUPER_BLOCK free')).nextBlock = 512)
    (hnext : ∀ b ∈ SUPER_BLOCK :: (pre ++ f :: post).map (·.first),
      nextFileOf io'.blocks b = nextFileOf io.blocks b)
    (hok : FileOk io'.blocks f') (hframe : ∀ g ∈ pre ++ post, FileFrame io.blocks io'.blocks g)
    (hperm : (free' ++ f'.blocks).Perm (free ++ f.blocks)) :
    Describes io' ⟨free', pre ++ f' :: post⟩ := by
  have hfirsts : (pre ++ f' :: post).map (·.first) = (pre ++ f :: post).map (·.first) := by
    simp [hfirst]
  refine ⟨hblocks ▸ h.super_lt, hpath, hend, ?_, ?_, ?_, ?_⟩
  · simp only [hfirsts]
    rw [hnext SUPER_BLOCK (by simp)]
    exact h.files_path.congr fun b hb => hnext b (List.mem_cons_of_mem _ hb)
  · intro g hg
    rcases List.mem_append.mp hg with hg | hg
    · exact (h.files_ok g (by simp [hg])).frame (hframe g (by simp [hg]))
    rcases List.mem_cons.mp hg with rfl | hg
    · exact hok
    · exact (h.files_ok g (by simp [hg])).frame (hframe g (by simp [hg]))
  · have hs := h.sorted
    simp only [List.pairwise_append, List.pairwise_cons, List.mem_cons, forall_eq_or_imp] at hs ⊢
    rw [hname]
    exact hs
  · rw [hblocks]
    refine List.Perm.trans ?_ h.partition
    rw [List.perm_iff_count] at hperm ⊢
    intro a
    have := hperm a
    simp only [List.flatMap_append, List.flatMap_cons, List.count_append] at this ⊢
    omega

/-- The other files are files. -/
theorem mem_of_mem_split {pre post : List FileLayout} {f g : FileLayout} (hg : g ∈ pre ++ post) :
    g ∈ pre ++ f :: post :=
  ((List.sublist_cons_self f post).append_left pre).subset hg

/-- A file is the one at the split or one of the others. -/
theorem mem_others {pre post : List FileLayout} {f g : FileLayout} (hg : g ∈ pre ++ f :: post)
    (hne : g ≠ f) : g ∈ pre ++ post := by
  simp only [List.mem_append, List.mem_cons] at hg ⊢
  tauto

/-- The entries do not depend on the blocks after the first ones. -/
theorem Layout.entries_replace {pre post : List FileLayout} {f f' : FileLayout}
    {free free' : List Nat} (hname : f'.name = f.name) (hfirst : f'.first = f.first) :
    Layout.entries ⟨free', pre ++ f' :: post⟩ = Layout.entries ⟨free, pre ++ f :: post⟩ := by
  simp [Layout.entries, hname, hfirst]

/-- The blocks of a file are different from the superblock, the free blocks and the blocks of
    the files before and after it. -/
theorem Describes.split_disjoint {free : List Nat} {pre post : List FileLayout} {f g : FileLayout}
    (h : Describes io ⟨free, pre ++ f :: post⟩) (hg : g ∈ pre ++ post) :
    f.blocks.Disjoint g.blocks := by
  refine h.disjoint (by simp) (mem_of_mem_split hg) ?_
  rintro rfl
  have := h.files_nodup
  simp only [List.nodup_append, List.nodup_cons] at this
  rcases List.mem_append.mp hg with hg | hg
  · exact this.2.2 f hg f (by simp) rfl
  · exact this.2.1.1 hg

end Blocks

/-! ### The file list of the abstract map -/

end Toys.FileSystem
