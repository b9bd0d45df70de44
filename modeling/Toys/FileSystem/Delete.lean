import Mathlib
import Toys.FileSystem.Create

namespace Toys.FileSystem

open Toys.Lib

/-!
# File system — clearing and deleting files

Both operations release a chain of blocks by putting it in front of the free list:
`disk_delete_file_blocks` links the end of the chain to the first free block, the caller
links the superblock to the start of the chain (`releasePath`).

* `diskClearFile_eq` — the other blocks of the file become free, the file is empty;
* `diskDeleteFile_eq` — all its blocks become free, the file list skips it.
-/

variable {io io' : BlockIo} {buffer : DiskBlock} {n : Nat}

/-! ### Releasing a chain -/

/-- The loop of `disk_delete_file_blocks` finds the end of the chain. -/
theorem diskLastBlockLoop_eq (hr : io.readErrors = []) {b : Nat} {rest : List Nat}
    (hpath : Path 0 (nextOf io.blocks) (nextOf io.blocks b) rest 0)
    (hlt : ∀ x ∈ rest, x < io.numBlocks) (hn : rest.length < n) :
    diskLastBlockLoop n ⟨io, io.blocks b⟩ b =
      some (⟨io, io.blocks (lastFrom b rest)⟩, lastFrom b rest) := by
  induction rest generalizing b n with
  | nil =>
    obtain ⟨n, rfl⟩ : ∃ k, n = k + 1 := ⟨n - 1, by simp at hn; omega⟩
    have hb : blockGetNext (io.blocks b) = 0 := hpath
    simp [diskLastBlockLoop, hb]
  | cons x rest ih =>
    obtain ⟨n, rfl⟩ : ∃ k, n = k + 1 := ⟨n - 1, by simp at hn; omega⟩
    obtain ⟨hx, hx0, hpath⟩ := hpath
    have hb : blockGetNext (io.blocks b) = x := hx
    simp only [diskLastBlockLoop, hb, ne_eq, hx0, not_false_eq_true, if_true,
      diskReadBlockBuffer_eq hr (hlt x (by simp)), lastFrom, List.getLastD_cons]
    exact ih hpath (fun y hy => hlt y (by simp [hy])) (by simp at hn; omega)

/-- `disk_delete_file_blocks` puts the blocks of the chain at the start of the free list. -/
theorem diskDeleteFileBlocks_eq (buffer : DiskBlock) (hr : io.readErrors = []) (hsuper : SUPER_BLOCK < io.numBlocks)
    {b : Nat} {rest : List Nat} (hpath : Path 0 (nextOf io.blocks) (nextOf io.blocks b) rest 0)
    (hlt : ∀ x ∈ b :: rest, x < io.numBlocks) (hn : rest.length < n) :
    ∃ buffer', diskDeleteFileBlocks n ⟨io, buffer⟩ b =
      some ⟨io.set (lastFrom b rest)
        (blockSetNext (io.blocks (lastFrom b rest)) (nextOf io.blocks SUPER_BLOCK)), buffer'⟩ := by
  have hlast : lastFrom b rest < io.numBlocks := hlt _ (lastFrom_mem b rest)
  simp only [diskDeleteFileBlocks, diskReadBlockBuffer_eq hr hsuper,
    diskReadBlockBuffer_eq hr (hlt b (by simp)),
    diskLastBlockLoop_eq hr hpath (fun x hx => hlt x (by simp [hx])) hn, Disk.setBuffer_eq,
    diskWriteBlockBuffer_eq hlast]
  exact ⟨_, rfl⟩

/-- The free list after the chain `b :: rest` has been put in front of it. -/
theorem releasePath {b : Nat} {rest free : List Nat}
    (hfree : Path 0 (nextOf io.blocks) (nextOf io.blocks SUPER_BLOCK) free 0)
    (hfreelt : ∀ x ∈ free, x < io.numBlocks)
    (hend : (io.blocks (lastFrom SUPER_BLOCK free)).nextBlock = 512)
    (hchain : Path 0 (nextOf io.blocks) (nextOf io.blocks b) rest 0) (hb0 : b ≠ 0)
    (hnd : (b :: rest ++ free).Nodup)
    (hstart : nextOf io'.blocks SUPER_BLOCK = b)
    (hlast : io'.blocks (lastFrom b rest) =
      blockSetNext (io.blocks (lastFrom b rest)) (nextOf io.blocks SUPER_BLOCK))
    (hframe : ∀ x ∈ b :: rest ++ free, x ≠ lastFrom b rest →
      (io'.blocks x).nextBlock = (io.blocks x).nextBlock) :
    Path 0 (nextOf io'.blocks) (nextOf io'.blocks SUPER_BLOCK) (b :: rest ++ free) 0 ∧
      (io'.blocks (lastFrom SUPER_BLOCK (b :: rest ++ free))).nextBlock = 512 := by
  have hnextlt : nextOf io.blocks SUPER_BLOCK + 512 < 2 ^ 64 := by
    cases hf : free with
    | nil => rw [hf] at hfree; rw [path_nil.mp hfree]; decide
    | cons x l => rw [hf] at hfree; rw [hfree.1]; exact io.add_lt (hfreelt x (by simp [hf]))
  have hmem := lastFrom_mem b rest
  have hnextOf : ∀ x ∈ b :: rest ++ free, x ≠ lastFrom b rest →
      nextOf io'.blocks x = nextOf io.blocks x :=
    fun x hx hne => by simp [nextOf, blockGetNext, hframe x hx hne]
  have hnd' := List.nodup_append'.mp hnd
  -- a free block is not the end of the chain
  have hfreene : ∀ x ∈ free, x ≠ lastFrom b rest := fun x hx heq =>
    hnd'.2.2 hmem (heq ▸ hx)
  constructor
  · rw [hstart]
    refine Path.splice ⟨rfl, hb0, hchain⟩ (hfree.congr fun x hx =>
      hnextOf x (List.mem_append_right _ hx) (hfreene x hx)) hnd'.1 ?_ ?_
    · show blockGetNext (io'.blocks (lastFrom b rest)) = _
      rw [hlast, blockGetNext_blockSetNext hnextlt]
    · exact fun x hx hne => hnextOf x (List.mem_append_left _ hx) hne
  · cases hf : free using List.reverseRecOn with
    | nil =>
      rw [hf] at hfree
      rw [lastFrom, List.append_nil, List.getLastD_cons, hlast, nextBlock_blockSetNext hnextlt,
        path_nil.mp hfree]
    | append_singleton l x _ =>
      rw [hf, lastFrom, List.getLastD_concat] at hend
      rw [lastFrom, ← List.append_assoc, List.getLastD_concat,
        hframe x (by simp [hf]) (hfreene x (by simp [hf])), hend]

/-! ### Clearing a file -/

/-- The first block of a file made empty. -/
def clearedBlock (b : DiskBlock) : DiskBlock := setBlockSize b (U64.add 24 b.nameLength)

/-- What `disk_clear_file` writes for a file with the chain `b :: rest`. -/
structure Cleared (io io' : BlockIo) (b : Nat) (rest : List Nat) : Prop where
  first : io'.blocks b = clearedBlock (io.blocks b)
  super_nil : rest = [] → io'.blocks SUPER_BLOCK = io.blocks SUPER_BLOCK
  super_cons : rest ≠ [] →
    io'.blocks SUPER_BLOCK = blockSetNext (io.blocks SUPER_BLOCK) (nextOf io.blocks b)
  last : rest ≠ [] → io'.blocks (lastFrom b rest) =
    blockSetNext (io.blocks (lastFrom b rest)) (nextOf io.blocks SUPER_BLOCK)
  frame : ∀ x, x ≠ b → x ≠ SUPER_BLOCK → x ≠ lastFrom b rest → io'.blocks x = io.blocks x

/-- `disk_clear_file` keeps the first block of the file and frees the others. -/
theorem diskClearFile_cleared (hr : io.readErrors = []) (hsuper : SUPER_BLOCK < io.numBlocks)
    {b : Nat} {rest : List Nat} (hpath : Path 0 (nextOf io.blocks) (nextOf io.blocks b) rest 0)
    (hlt : ∀ x ∈ b :: rest, x < io.numBlocks) (hnd : (SUPER_BLOCK :: b :: rest).Nodup)
    (hn : rest.length < n) :
    ∃ io' buffer', diskClearFile n ⟨io, buffer⟩ b = some ⟨io', buffer'⟩ ∧ SameDevice io io' ∧
      Cleared io io' b rest := by
  have hb := hlt b (by simp)
  have hb0 : b ≠ SUPER_BLOCK := by simp at hnd ⊢; omega
  cases rest with
  | nil =>
    have hnext : blockGetNext (io.blocks b) = 0 := hpath
    simp only [diskClearFile, diskReadBlockBuffer_eq hr hb, hnext, ne_eq, not_true_eq_false,
      if_false, Disk.setBuffer_eq, diskWriteBlockBuffer_eq hb]
    refine ⟨_, _, rfl, ⟨rfl, rfl⟩, ?_, fun _ => ?_, fun h => absurd rfl h, fun h => absurd rfl h,
      fun x h _ _ => ?_⟩
    · simp [clearedBlock]
    · simp only [BlockIo.set_blocks, Function.update_of_ne hb0.symm]
    · simp [h]
  | cons x rest =>
    obtain ⟨hx, hx0, hpath⟩ := hpath
    have hnext : blockGetNext (io.blocks b) = x := hx
    have hxlt := hlt x (by simp)
    obtain ⟨buffer₁, hdel⟩ := diskDeleteFileBlocks_eq (n := n) (io.blocks b) hr hsuper
      hpath (fun y hy => hlt y (List.mem_cons_of_mem _ hy)) (by simp at hn; omega)
    have hmem := lastFrom_mem x rest
    -- the three blocks that are written are distinct
    have hlast0 : lastFrom x rest ≠ SUPER_BLOCK := by
      intro heq
      exact (List.nodup_cons.mp hnd).1 (by rw [← heq]; exact List.mem_cons_of_mem _ hmem)
    have hlastb : lastFrom x rest ≠ b := by
      intro heq
      exact (List.nodup_cons.mp (List.nodup_cons.mp hnd).2).1 (heq ▸ hmem)
    simp only [diskClearFile, diskReadBlockBuffer_eq hr hb, hnext, ne_eq, hx0, not_false_eq_true,
      if_true, hdel, Disk.setBuffer_eq,
      diskReadBlockBuffer_eq (show (io.set (lastFrom x rest) _).readErrors = [] from hr) hsuper,
      diskWriteBlockBuffer_eq (show _ < (io.set (lastFrom x rest) _).numBlocks from hsuper),
      diskReadBlockBuffer_eq (show ((io.set (lastFrom x rest) _).set SUPER_BLOCK _).readErrors = [] from hr) hb,
      diskWriteBlockBuffer_eq (show _ < ((io.set (lastFrom x rest) _).set SUPER_BLOCK _).numBlocks from hb)]
    refine ⟨_, _, rfl, ⟨rfl, rfl⟩, ?_, fun h => absurd h (by simp), fun _ => ?_, fun _ => ?_,
      fun y h1 h2 h3 => ?_⟩
    · simp only [clearedBlock, BlockIo.set_blocks, Function.update_self,
        Function.update_of_ne hb0, Function.update_of_ne hlastb.symm]
    · simp only [BlockIo.set_blocks, Function.update_of_ne hb0.symm, Function.update_self,
        Function.update_of_ne hlast0.symm, nextOf, hnext]
    · simp only [lastFrom, List.getLastD_cons] at *
      simp only [BlockIo.set_blocks, Function.update_of_ne hlastb, Function.update_of_ne hlast0,
        Function.update_self]
    · simp only [lastFrom, List.getLastD_cons] at *
      simp only [BlockIo.set_blocks, Function.update_of_ne h1, Function.update_of_ne h2,
        Function.update_of_ne h3]

section Clear

variable {free : List Nat} {pre post : List FileLayout} {f : FileLayout}

/-- The superblock and the blocks of a file are all different. -/
theorem Describes.super_blocks_nodup {L : Layout} (h : Describes io L) (hf : f ∈ L.files) :
    (SUPER_BLOCK :: f.first :: f.rest).Nodup :=
  List.nodup_cons.mpr ⟨fun hmem => by have := h.block_lt hf hmem; simp at this,
    h.blocks_nodup hf⟩

/-- The first block of a cleared file keeps its name, and its size covers nothing else. -/
theorem clearedBlock_spec {b : DiskBlock} {name : List UInt8} (hname : b.fileName = name)
    (hle : name.length ≤ 488) :
    (clearedBlock b).nextBlock = 24 + name.length ∧ (clearedBlock b).fileName = name ∧
      blockContent (clearedBlock b) (24 + name.length) = [] := by
  have hlen : b.nameLength = name.length := by
    rw [← hname, DiskBlock.fileName, DiskBlock.read_length]
  have hsize : (clearedBlock b).nextBlock = 24 + name.length := by
    rw [clearedBlock, setBlockSize, hlen, U64.add_eq (by omega),
      DiskBlock.nextBlock_setNextBlock (by omega)]
  have hused : usedSize (clearedBlock b) = 24 + name.length := by
    rw [usedSize, if_pos (blockGetNext_of_le (by omega)), blockSize, hsize]
  refine ⟨hsize, ?_, ?_⟩
  · rw [clearedBlock, setBlockSize, fileName_setNextBlock (by omega), hname]
  · simp [blockContent, hused, DiskBlock.read]

variable (h : Describes io ⟨free, pre ++ f :: post⟩) (hc : Cleared io io' f.first f.rest)

include h hc

/-- Clearing a file leaves the blocks of the other files alone. -/
theorem Cleared.others {g : FileLayout} (hg : g ∈ pre ++ post) :
    FileFrame io.blocks io'.blocks g := by
  have hdisj := h.split_disjoint hg
  have hg' : g ∈ (Layout.mk free (pre ++ f :: post)).files := mem_of_mem_split hg
  have hsame : ∀ x ∈ g.blocks, io'.blocks x = io.blocks x := by
    intro x hx
    refine hc.frame x ?_ (h.block_ne_super hg' hx) ?_
    · rintro rfl; exact hdisj (by simp [FileLayout.blocks]) hx
    · rintro rfl; exact hdisj f.last_mem hx
  exact ⟨Or.inl (hsame _ (by simp [FileLayout.blocks])),
    fun x hx => hsame x (by simp [FileLayout.blocks, hx])⟩

/-- Clearing a file does not change the file list. -/
theorem Cleared.nextFile {b : Nat} (hb : b ∈ SUPER_BLOCK :: (pre ++ f :: post).map (·.first)) :
    nextFileOf io'.blocks b = nextFileOf io.blocks b := by
  have hf : f ∈ (Layout.mk free (pre ++ f :: post)).files := by simp
  rcases List.mem_cons.mp hb with rfl | hb
  · by_cases hrest : f.rest = []
    · simp only [nextFileOf, hc.super_nil hrest]
    · simp only [nextFileOf, hc.super_cons hrest, blockSetNext, DiskBlock.nextFile_setNextBlock]
  obtain ⟨g, hg, rfl⟩ := List.mem_map.mp hb
  have hg' : g ∈ (Layout.mk free (pre ++ f :: post)).files := hg
  by_cases hgf : g.first = f.first
  · simp only [nextFileOf, hgf, hc.first, clearedBlock, setBlockSize,
      DiskBlock.nextFile_setNextBlock]
  · -- the last block of `f` is not the first block of `g`
    have hgl : g.first ≠ lastFrom f.first f.rest := by
      intro heq
      refine h.first_not_mem_rest hg' hf ?_
      rw [heq]
      exact (List.mem_cons.mp f.last_mem).resolve_left (by
        show lastFrom f.first f.rest ≠ f.first
        rw [← heq]; exact hgf)
    have hg0 := h.block_ne_super hg' (b := g.first) (by simp [FileLayout.blocks])
    simp only [nextFileOf, hc.frame _ hgf hg0 hgl]

/-- The blocks of the file but the first are put in front of the free list. -/
theorem Cleared.release :
    Path 0 (nextOf io'.blocks) (nextOf io'.blocks SUPER_BLOCK) (f.rest ++ free) 0 ∧
      (io'.blocks (lastFrom SUPER_BLOCK (f.rest ++ free))).nextBlock = 512 := by
  have hf : f ∈ (Layout.mk free (pre ++ f :: post)).files := by simp
  have hpath : Path 0 (nextOf io.blocks) (nextOf io.blocks SUPER_BLOCK) free 0 := h.free_path
  have hend : (io.blocks (lastFrom SUPER_BLOCK free)).nextBlock = 512 := h.free_end
  have hnotfree : ∀ x ∈ free, x ∉ f.blocks := fun x hx => h.free_not_mem hx hf
  have hfree0 : ∀ x ∈ free, x ≠ SUPER_BLOCK := fun x hx => h.free_ne_super hx
  -- a file of one block frees nothing
  cases hrest : f.rest with
  | nil =>
    have hsame : ∀ x ∈ SUPER_BLOCK :: free, io'.blocks x = io.blocks x := by
      intro x hx
      rcases List.mem_cons.mp hx with rfl | hx
      · exact hc.super_nil hrest
      · refine hc.frame x ?_ (hfree0 x hx) ?_
        · rintro rfl; exact hnotfree _ hx (by simp [FileLayout.blocks])
        · rintro rfl; exact hnotfree _ hx f.last_mem
    refine ⟨?_, ?_⟩
    · rw [List.nil_append, show nextOf io'.blocks SUPER_BLOCK = nextOf io.blocks SUPER_BLOCK by
        simp only [nextOf, hsame SUPER_BLOCK (by simp)]]
      exact hpath.congr fun x hx => by simp only [nextOf, hsame x (by simp [hx])]
    · rw [List.nil_append, hsame, hend]
      cases free using List.reverseRecOn <;> simp
  | cons x rest =>
    have hne : f.rest ≠ [] := by simp [hrest]
    have hlast := hc.last hne
    have hchain := (h.files_ok f hf).chain
    have hnd := (List.nodup_cons.mp (h.super_blocks_nodup hf)).2
    have hxlt := h.block_lt hf (b := x) (by simp [FileLayout.blocks, hrest])
    have hrestmem : ∀ y ∈ x :: rest, y ∈ f.blocks := fun y hy => by
      rw [FileLayout.blocks, hrest]; exact List.mem_cons_of_mem _ hy
    rw [hrest] at hchain hlast hnd
    obtain ⟨hx, hx0, hchain⟩ := hchain
    simp only [lastFrom, List.getLastD_cons] at hlast
    -- the other blocks are put before the free ones
    refine releasePath hpath (fun y hy => (h.free_lt hy).2) hend hchain hx0 ?_ ?_ hlast ?_
    · exact List.nodup_append'.mpr ⟨(List.nodup_cons.mp hnd).2, (List.nodup_append'.mp h.nodup).1,
        fun y hy hyf => hnotfree y hyf (hrestmem y hy)⟩
    · rw [nextOf, hc.super_cons hne, hx, blockGetNext_blockSetNext (io.add_lt hxlt.2)]
    · intro y hy hyl
      have hyf : y ≠ f.first := by
        rintro rfl
        rcases List.mem_append.mp hy with hy | hy
        · exact (List.nodup_cons.mp hnd).1 hy
        · exact hnotfree _ hy (by simp [FileLayout.blocks])
      have hy0 : y ≠ SUPER_BLOCK := by
        rcases List.mem_append.mp hy with hy | hy
        · exact h.block_ne_super hf (hrestmem y hy)
        · exact hfree0 y hy
      rw [hc.frame y hyf hy0 (by simpa only [hrest, lastFrom, List.getLastD_cons] using hyl)]

omit h hc

/-- `disk_clear_file` empties a file and frees all its blocks but the first. -/
theorem diskClearFile_eq (buffer : DiskBlock) (h : Describes io ⟨free, pre ++ f :: post⟩)
    (hr : io.readErrors = []) (hn : io.numBlocks ≤ n) :
    ∃ io' buffer', diskClearFile n ⟨io, buffer⟩ f.first = some ⟨io', buffer'⟩ ∧
      SameDevice io io' ∧ Describes io' ⟨f.rest ++ free, pre ++ { f with rest := [] } :: post⟩ ∧
      (∀ g ∈ pre ++ post, FileFrame io.blocks io'.blocks g) ∧
      fileContent io'.blocks { f with rest := [] } = [] := by
  have hf : f ∈ (Layout.mk free (pre ++ f :: post)).files := by simp
  have hok := h.files_ok f hf
  have hlen := h.blocks_length_lt hf
  simp only [FileLayout.blocks, List.length_cons] at hlen
  obtain ⟨io', buffer', heq, hdev, hc⟩ := diskClearFile_cleared
    (n := n) hr h.super_lt hok.chain
    (fun x hx => (h.block_lt hf hx).2) (h.super_blocks_nodup hf) (by omega)
  obtain ⟨hsize, hfile, hcontent⟩ := clearedBlock_spec hok.name_eq hok.name_le
  have hle := hok.name_le
  rw [← hc.first] at hsize hfile hcontent
  refine ⟨io', buffer', heq, hdev, ?_, fun g hg => hc.others h hg, ?_⟩
  · refine h.replace rfl rfl hdev.1 (hc.release h).1 (hc.release h).2
      (fun b hb => hc.nextFile h hb) ?_ (fun g hg => hc.others h hg) ?_
    · refine ⟨?_, hfile, hok.name_pos, hle, hok.name_chars, ?_, ?_⟩
      · show blockGetNext (io'.blocks f.first) = 0
        exact blockGetNext_of_le (by omega)
      · show 24 + f.name.length ≤ blockSize (io'.blocks f.first)
        rw [blockSize, hsize]
      · show blockSize (io'.blocks f.first) ≤ 512
        rw [blockSize, hsize]; omega
    · rw [List.perm_iff_count]
      intro a
      simp only [FileLayout.blocks, List.count_append, List.count_cons, List.count_nil]
      omega
  · simp only [fileContent, FileLayout.blocks, chainContent, List.append_nil]
    exact hcontent

end Clear

/-! ### Deleting a file -/

/-- What `disk_delete_file` writes for a file with the chain `b :: rest`. -/
structure Deleted (io io' : BlockIo) (b : Nat) (rest : List Nat) (previousFile : Nat) : Prop where
  last : io'.blocks (lastFrom b rest) =
    blockSetNext (io.blocks (lastFrom b rest)) (nextOf io.blocks SUPER_BLOCK)
  previous : previousFile ≠ 0 → io'.blocks previousFile =
    (io.blocks previousFile).setNextFile (nextFileOf io.blocks b)
  super : io'.blocks SUPER_BLOCK = (blockSetNext (io.blocks SUPER_BLOCK) b).setNextFile
    (if previousFile ≠ 0 then nextFileOf io.blocks SUPER_BLOCK else nextFileOf io.blocks b)
  frame : ∀ x, x ≠ SUPER_BLOCK → x ≠ previousFile → x ≠ lastFrom b rest →
    io'.blocks x = io.blocks x

/-- `disk_delete_file` unlinks the file and frees its blocks. -/
theorem diskDeleteFile_deleted (hr : io.readErrors = []) (hsuper : SUPER_BLOCK < io.numBlocks)
    {b previousFile : Nat} {rest : List Nat}
    (hpath : Path 0 (nextOf io.blocks) (nextOf io.blocks b) rest 0)
    (hlt : ∀ x ∈ b :: rest, x < io.numBlocks) (hnd : (SUPER_BLOCK :: b :: rest).Nodup)
    (hprev : previousFile < io.numBlocks) (hne : previousFile ∉ b :: rest) (hn : rest.length < n) :
    ∃ io' buffer', diskDeleteFile n ⟨io, buffer⟩ b previousFile = some ⟨io', buffer'⟩ ∧
      SameDevice io io' ∧ Deleted io io' b rest previousFile := by
  have hb := hlt b (by simp)
  obtain ⟨buffer₁, hdel⟩ := diskDeleteFileBlocks_eq (n := n) (io.blocks SUPER_BLOCK) hr
    hsuper hpath hlt hn
  have hmem := lastFrom_mem b rest
  have hlast0 : lastFrom b rest ≠ SUPER_BLOCK := fun heq =>
    (List.nodup_cons.mp hnd).1 (heq ▸ hmem)
  have hlastp : lastFrom b rest ≠ previousFile := fun heq => hne (heq ▸ hmem)
  -- the first file is linked from the superblock, which also gives the free blocks
  by_cases hp : previousFile = 0
  · simp only [diskDeleteFile, diskReadBlockBuffer_eq hr hb, diskReadBlockBuffer_eq hr hsuper, hdel,
      hp, ne_eq, not_true_eq_false, if_false, Disk.setBuffer_eq,
      diskReadBlockBuffer_eq (show (io.set (lastFrom b rest) _).readErrors = [] from hr) hsuper,
      diskWriteBlockBuffer_eq (show _ < (io.set (lastFrom b rest) _).numBlocks from hsuper)]
    refine ⟨_, _, rfl, ⟨rfl, rfl⟩, ?_, fun h => absurd rfl h, ?_, fun x h0 _ hl => ?_⟩
    · simp only [BlockIo.set_blocks, Function.update_of_ne hlast0, Function.update_self]
    · simp only [BlockIo.set_blocks, Function.update_self, Function.update_of_ne hlast0.symm,
        ne_eq, not_true_eq_false, if_false, nextFileOf]
    · simp only [BlockIo.set_blocks, Function.update_of_ne h0, Function.update_of_ne hl]
  · have hp0 : previousFile ≠ SUPER_BLOCK := hp
    simp only [diskDeleteFile, diskReadBlockBuffer_eq hr hb, diskReadBlockBuffer_eq hr hsuper, hdel,
      hp, ne_eq, not_false_eq_true, if_true, Disk.setBuffer_eq,
      diskReadBlockBuffer_eq (show (io.set (lastFrom b rest) _).readErrors = [] from hr) hprev,
      diskWriteBlockBuffer_eq (show _ < (io.set (lastFrom b rest) _).numBlocks from hprev),
      diskReadBlockBuffer_eq (show ((io.set (lastFrom b rest) _).set previousFile _).readErrors = [] from hr) hsuper,
      diskWriteBlockBuffer_eq (show _ < ((io.set (lastFrom b rest) _).set previousFile _).numBlocks from hsuper)]
    refine ⟨_, _, rfl, ⟨rfl, rfl⟩, ?_, fun _ => ?_, ?_, fun x h0 h1 hl => ?_⟩
    · simp only [BlockIo.set_blocks, Function.update_of_ne hlast0, Function.update_of_ne hlastp,
        Function.update_self]
    · simp only [BlockIo.set_blocks, Function.update_of_ne hp0, Function.update_self,
        Function.update_of_ne hlastp.symm, nextFileOf]
    · simp only [BlockIo.set_blocks, Function.update_self, Function.update_of_ne hlast0.symm,
        Function.update_of_ne hp0.symm, ne_eq, hp, not_false_eq_true, if_true, nextFileOf]
    · simp only [BlockIo.set_blocks, Function.update_of_ne h0, Function.update_of_ne h1,
        Function.update_of_ne hl]

section DeleteFile

variable {free : List Nat} {pre post : List FileLayout} {f : FileLayout}

/-- The block that precedes the files after `pre` in the file list. -/
abbrev previousFirst (pre : List FileLayout) : Nat := lastFrom SUPER_BLOCK (pre.map (·.first))

/-- The block before the file is the superblock or the first block of another file. -/
theorem previousFirst_mem (pre : List FileLayout) :
    previousFirst pre = SUPER_BLOCK ∨ ∃ g ∈ pre, g.first = previousFirst pre := by
  cases pre using List.reverseRecOn with
  | nil => exact Or.inl rfl
  | append_singleton l g _ => exact Or.inr ⟨g, by simp, by simp⟩

variable (h : Describes io ⟨free, pre ++ f :: post⟩)
  (hd : Deleted io io' f.first f.rest (previousFirst pre))

include h

/-- The block before the file is no block of the file. -/
theorem previousFirst_not_mem : previousFirst pre ∉ f.blocks := by
  have hf : f ∈ (Layout.mk free (pre ++ f :: post)).files := by simp
  intro hmem
  rcases previousFirst_mem pre with h0 | ⟨g, hg, hgp⟩
  · exact h.block_ne_super hf hmem h0
  · rw [← hgp] at hmem
    exact h.split_disjoint (g := g) (by simp [hg]) hmem (by simp [FileLayout.blocks])

include hd

/-- The other files keep their blocks, but for the link of the previous one. -/
theorem Deleted.others {g : FileLayout} (hg : g ∈ pre ++ post) :
    FileFrame io.blocks io'.blocks g := by
  have hdisj := h.split_disjoint hg
  have hg' : g ∈ (Layout.mk free (pre ++ f :: post)).files := mem_of_mem_split hg
  have hlast : ∀ x ∈ g.blocks, x ≠ lastFrom f.first f.rest := by
    rintro x hx rfl; exact hdisj f.last_mem hx
  constructor
  · have hmem : g.first ∈ g.blocks := by simp [FileLayout.blocks]
    have hg0 := h.block_ne_super hg' hmem
    by_cases hgp : g.first = previousFirst pre
    · exact Or.inr ⟨_, by rw [hgp]; exact hd.previous (hgp ▸ hg0)⟩
    · exact Or.inl (hd.frame _ hg0 hgp (hlast _ hmem))
  · intro x hx
    have hmem : x ∈ g.blocks := by simp [FileLayout.blocks, hx]
    refine hd.frame x (h.block_ne_super hg' hmem) ?_ (hlast x hmem)
    rintro rfl
    rcases previousFirst_mem pre with h0 | ⟨k, hk, hkp⟩
    · exact h.block_ne_super hg' hmem h0
    · exact h.first_not_mem_rest (f := k) (by simp [hk]) hg' (hkp ▸ hx)

/-- The file list skips the deleted file. -/
theorem Deleted.filesPath :
    Path 0 (nextFileOf io'.blocks) (nextFileOf io'.blocks SUPER_BLOCK)
      ((pre ++ post).map (·.first)) 0 := by
  have hf : f ∈ (Layout.mk free (pre ++ f :: post)).files := by simp
  have hpath := h.files_path
  have hnd := h.firsts_nodup
  simp only [List.map_append, List.map_cons] at hpath hnd ⊢
  refine hpath.erase hnd ?_ ?_
  · show nextFileOf io'.blocks (previousFirst pre) = nextFileOf io.blocks f.first
    by_cases hp : previousFirst pre = 0
    · have hs := hd.super
      simp only [hp, ne_eq, not_true_eq_false, if_false] at hs
      rw [hp]
      show (io'.blocks SUPER_BLOCK).nextFile = _
      rw [hs]
      exact DiskBlock.nextFile_setNextFile (DiskBlock.word_lt _ _)
    · rw [nextFileOf, hd.previous hp]
      exact DiskBlock.nextFile_setNextFile (DiskBlock.word_lt _ _)
  · intro y hy hyp
    rcases List.mem_cons.mp hy with rfl | hy
    · rw [nextFileOf, hd.super, if_pos (fun hp => hyp hp.symm)]
      exact DiskBlock.nextFile_setNextFile (DiskBlock.word_lt _ _)
    · rw [← List.map_append] at hy
      obtain ⟨g, hg, rfl⟩ := List.mem_map.mp hy
      have hg' : g ∈ (Layout.mk free (pre ++ f :: post)).files := mem_of_mem_split hg
      have hmem : g.first ∈ g.blocks := by simp [FileLayout.blocks]
      rw [nextFileOf, hd.frame g.first (h.block_ne_super hg' hmem) hyp, nextFileOf]
      intro heq
      have hfl : lastFrom f.first f.rest ∈ f.blocks := f.last_mem
      exact h.split_disjoint hg (heq ▸ hfl) hmem

/-- All the blocks of the file are put in front of the free list. -/
theorem Deleted.release :
    Path 0 (nextOf io'.blocks) (nextOf io'.blocks SUPER_BLOCK) (f.blocks ++ free) 0 ∧
      (io'.blocks (lastFrom SUPER_BLOCK (f.blocks ++ free))).nextBlock = 512 := by
  have hf : f ∈ (Layout.mk free (pre ++ f :: post)).files := by simp
  have hnotfree : ∀ x ∈ free, x ∉ f.blocks := fun x hx => h.free_not_mem hx hf
  have hfirst := h.first_lt hf
  refine releasePath h.free_path (fun y hy => (h.free_lt hy).2) h.free_end (h.files_ok f hf).chain
    (by omega) ?_ ?_ hd.last ?_
  · exact List.nodup_append'.mpr ⟨h.blocks_nodup hf, (List.nodup_append'.mp h.nodup).1,
      fun y hy hyf => hnotfree y hyf hy⟩
  · have hnext : (io'.blocks SUPER_BLOCK).nextBlock = f.first + 512 := by
      rw [hd.super, DiskBlock.nextBlock_setNextFile, nextBlock_blockSetNext (io.add_lt hfirst.2)]
    unfold nextOf blockGetNext
    rw [hnext]
    split <;> omega
  · intro y hy hyl
    by_cases hyp : y = previousFirst pre
    · by_cases hp0 : previousFirst pre = 0
      · rcases List.mem_append.mp hy with hy | hy
        · exact absurd (hyp.trans hp0) (h.block_ne_super hf hy)
        · exact absurd (hyp.trans hp0) (h.free_ne_super hy)
      · rw [hyp, hd.previous hp0, DiskBlock.nextBlock_setNextFile]
    · rw [hd.frame y ?_ hyp hyl]
      rcases List.mem_append.mp hy with hy | hy
      · exact h.block_ne_super hf hy
      · exact h.free_ne_super hy

omit h hd

/-- `disk_delete_file` removes a file and frees all its blocks. -/
theorem diskDeleteFile_eq (buffer : DiskBlock) (h : Describes io ⟨free, pre ++ f :: post⟩)
    (hr : io.readErrors = []) (hn : io.numBlocks ≤ n) :
    ∃ io' buffer', diskDeleteFile n ⟨io, buffer⟩ f.first (previousFirst pre) =
        some ⟨io', buffer'⟩ ∧
      SameDevice io io' ∧ Describes io' ⟨f.blocks ++ free, pre ++ post⟩ ∧
      ∀ g ∈ pre ++ post, FileFrame io.blocks io'.blocks g := by
  have hf : f ∈ (Layout.mk free (pre ++ f :: post)).files := by simp
  have hlen := h.blocks_length_lt hf
  simp only [FileLayout.blocks, List.length_cons] at hlen
  have hprev : previousFirst pre < io.numBlocks := by
    rcases previousFirst_mem pre with h0 | ⟨g, hg, hgp⟩
    · rw [h0]; exact h.super_lt
    · rw [← hgp]; exact (h.first_lt (f := g) (by simp [hg])).2
  obtain ⟨io', buffer', heq, hdev, hd⟩ := diskDeleteFile_deleted (n := n) hr
    h.super_lt (h.files_ok f hf).chain (fun x hx => (h.block_lt hf hx).2)
    (h.super_blocks_nodup hf) hprev (previousFirst_not_mem h) (by omega)
  refine ⟨io', buffer', heq, hdev, ⟨hdev.1 ▸ h.super_lt, (hd.release h).1, (hd.release h).2,
    hd.filesPath h, fun g hg => ?_, ?_, ?_⟩, fun g hg => hd.others h hg⟩
  · exact (h.files_ok g (mem_of_mem_split hg)).frame (hd.others h hg)
  · exact h.sorted.sublist (by simp)
  · rw [hdev.1]
    refine List.Perm.trans ?_ h.partition
    rw [List.perm_iff_count]
    intro a
    simp only [List.flatMap_append, List.flatMap_cons, List.count_append]
    omega

end DeleteFile

end Toys.FileSystem
