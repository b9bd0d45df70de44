import Mathlib
import Toys.FileSystem.Delete

namespace Toys.FileSystem

open Toys.Lib

/-!
# File system — writing a file

`disk_write_file` fills the last block of the file and goes on in blocks it takes from the
free list, until the data or the free list is exhausted.  The loop is described by recursion
on the free list (`writeChain`):

* `writeChain_frame`, `writeChain_chain`, `writeChain_content` — which blocks it writes, how
  they are linked, and what they contain;
* `diskWriteFileLoop_eq` — the loop computes `writeChain`;
* `diskWriteFile_eq` — the layout and the contents after the call.
-/

variable {io : BlockIo} {buffer : DiskBlock} {n : Nat}

/-! ### Writing along the free list -/

/-- The blocks, the blocks taken from the free list, and the status after writing `src` at
    offset `used` of `block`, with the free list `free`. -/
def writeChain (B : Nat → DiskBlock) (block used : Nat) :
    List Nat → List UInt8 → (Nat → DiskBlock) × List Nat × Status
  | free, src =>
    if src.length ≤ 512 - used then
      (Function.update B block ((setBlockSize (B block) (used + src.length)).write used src), [], .ok)
    else
      match free with
      | [] => (B, [], .outOfMemory)
      | x :: free =>
        let r := writeChain
          (Function.update B block
            ((blockSetNext (B block) x).write used (src.take (512 - used)))) x 8 free
          (src.drop (512 - used))
        (r.1, x :: r.2.1, r.2.2)

section WriteChain

variable {B : Nat → DiskBlock} {block used : Nat} {free : List Nat} {src : List UInt8}

/-- Data that fit in the block are written in it. -/
theorem writeChain_of_le (h : src.length ≤ 512 - used) :
    writeChain B block used free src =
      (Function.update B block ((setBlockSize (B block) (used + src.length)).write used src), [],
        .ok) := by
  cases free <;> simp [writeChain, h]

/-- Data that do not fit are not written, without a free block. -/
theorem writeChain_nil (h : ¬ src.length ≤ 512 - used) :
    writeChain B block used [] src = (B, [], .outOfMemory) := by
  simp [writeChain, h]

/-- A full block, linked to the next one. -/
def filledBlock (b : DiskBlock) (used next : Nat) (src : List UInt8) : DiskBlock :=
  (blockSetNext b next).write used (src.take (512 - used))

/-- Otherwise the block is filled, and the rest goes to the free blocks. -/
theorem writeChain_cons (h : ¬ src.length ≤ 512 - used) (x : Nat) (free : List Nat) :
    writeChain B block used (x :: free) src =
      let r := writeChain (Function.update B block (filledBlock (B block) used x src)) x 8 free
        (src.drop (512 - used))
      (r.1, x :: r.2.1, r.2.2) := by
  rw [writeChain, if_neg h]
  rfl

/-- The blocks taken are the first ones of the free list. -/
theorem writeChain_taken : (writeChain B block used free src).2.1 <+: free := by
  induction free generalizing B block used src with
  | nil =>
    by_cases h : src.length ≤ 512 - used
    · simp [writeChain_of_le h]
    · simp [writeChain_nil h]
  | cons x free ih =>
    by_cases h : src.length ≤ 512 - used
    · simp [writeChain_of_le h]
    · rw [writeChain_cons h]
      exact (List.prefix_cons_inj x).mpr ih

/-- Only the block and those taken from the free list are written. -/
theorem writeChain_frame {y : Nat} (hy : y ≠ block)
    (hy' : y ∉ (writeChain B block used free src).2.1) :
    (writeChain B block used free src).1 y = B y := by
  induction free generalizing B block used src with
  | nil =>
    by_cases h : src.length ≤ 512 - used
    · simp [writeChain_of_le h, hy]
    · simp [writeChain_nil h]
  | cons x free ih =>
    by_cases h : src.length ≤ 512 - used
    · simp [writeChain_of_le h, hy]
    · rw [writeChain_cons h] at hy' ⊢
      simp only [List.mem_cons, not_or] at hy'
      rw [ih hy'.1 hy'.2, Function.update_of_ne hy]

/-- Everything in the first block before the written data, but its first word, is kept. -/
theorem writeChain_first (hused : 8 ≤ used) (hle : used ≤ 512) (hnd : (block :: free).Nodup) :
    ∃ v bs, v < 2 ^ 64 ∧ used + bs.length ≤ 512 ∧
      ((writeChain B block used free src).1 block = B block ∨
      (writeChain B block used free src).1 block = ((B block).setNextBlock v).write used bs) := by
  by_cases h : src.length ≤ 512 - used
  · refine ⟨used + src.length, src, by omega, by omega, Or.inr ?_⟩
    simp [writeChain_of_le h, setBlockSize]
  · cases free with
    | nil => exact ⟨0, [], by decide, by simpa using hle, Or.inl (by simp [writeChain_nil h])⟩
    | cons x free =>
      refine ⟨U64.add x 512, src.take (512 - used), U64.add_lt _ _, by simp; omega, Or.inr ?_⟩
      rw [writeChain_cons h]
      have hnd' := List.nodup_cons.mp hnd
      simp only [List.mem_cons, not_or] at hnd'
      rw [writeChain_frame hnd'.1.1 fun hmem => hnd'.1.2 (writeChain_taken.subset hmem)]
      simp [filledBlock, blockSetNext]

/-- A filled block points to the next one. -/
theorem filledBlock_next {b : DiskBlock} {x : Nat} (hused : 8 ≤ used) (hx : x + 512 < 2 ^ 64) :
    blockGetNext (filledBlock b used x src) = x := by
  have hnext : (filledBlock b used x src).nextBlock = (blockSetNext b x).nextBlock :=
    DiskBlock.nextBlock_write hused
  unfold blockGetNext
  rw [hnext]
  exact blockGetNext_blockSetNext hx

/-- A filled block is full of data. -/
theorem filledBlock_content {b : DiskBlock} {x : Nat} (hused : 8 ≤ used) (hle : used ≤ 512)
    (hx : x + 512 < 2 ^ 64) (hx0 : x ≠ 0) (h : ¬ src.length ≤ 512 - used) :
    blockContent (filledBlock b used x src) used = src.take (512 - used) := by
  have hlen : (src.take (512 - used)).length = 512 - used := by simp; omega
  rw [blockContent, usedSize, if_neg (by rw [filledBlock_next hused hx]; exact hx0)]
  conv_lhs => rw [← hlen]
  exact DiskBlock.read_write_self (by omega)

/-- The last block of a write that succeeds. -/
theorem lastBlock_spec (src : List UInt8) {b : DiskBlock} (hused : 8 ≤ used) (h : used + src.length ≤ 512) :
    ((setBlockSize b (used + src.length)).write used src).nextBlock = used + src.length ∧
      blockContent ((setBlockSize b (used + src.length)).write used src) used = src := by
  have hsize : ((setBlockSize b (used + src.length)).write used src).nextBlock =
      used + src.length := by
    rw [DiskBlock.nextBlock_write hused, setBlockSize, DiskBlock.nextBlock_setNextBlock (by omega)]
  refine ⟨hsize, ?_⟩
  rw [blockContent, usedSize, if_pos (blockGetNext_of_le (by omega)), blockSize, hsize,
    Nat.add_sub_cancel_left]
  exact DiskBlock.read_write_self h

/-- The blocks taken from the free list follow each other after the first block. -/
theorem writeChain_chain (src : List UInt8) (hlt : ∀ x ∈ free, x ≠ 0 ∧ x + 512 < 2 ^ 64)
    (hnd : (block :: free).Nodup) (hused : 8 ≤ used) (hle : used ≤ 512)
    (hend : blockGetNext (B (lastFrom block free)) = 0) :
    Path 0 (nextOf (writeChain B block used free src).1)
      (nextOf (writeChain B block used free src).1 block)
      (writeChain B block used free src).2.1 0 := by
  induction free generalizing B block used src with
  | nil =>
    by_cases h : src.length ≤ 512 - used
    · rw [writeChain_of_le h]
      have := (lastBlock_spec (b := B block) src hused (by omega)).1
      simp only [path_nil, nextOf, Function.update_self]
      exact blockGetNext_of_le (by omega)
    · rw [writeChain_nil h]
      exact hend
  | cons x free ih =>
    by_cases h : src.length ≤ 512 - used
    · rw [writeChain_of_le h]
      have := (lastBlock_spec (b := B block) src hused (by omega)).1
      simp only [path_nil, nextOf, Function.update_self]
      exact blockGetNext_of_le (by omega)
    · obtain ⟨hnot, hnd'⟩ := List.nodup_cons.mp hnd
      obtain ⟨hbx, hbfree⟩ : block ≠ x ∧ block ∉ free := by simpa using hnot
      rw [writeChain_cons h]
      have hlast : lastFrom x free ≠ block := lastFrom_ne hnot
      have hrest := ih (B := Function.update B block (filledBlock (B block) used x src))
        (src.drop (512 - used)) (fun y hy => hlt y (by simp [hy]))
        hnd' (le_refl 8) (by decide) (by
          rw [Function.update_of_ne hlast]
          simpa only [lastFrom, List.getLastD_cons] using hend)
      have hblock : nextOf (writeChain (Function.update B block (filledBlock (B block) used x src)) x 8
          free (src.drop (512 - used))).1 block = x := by
        rw [nextOf, writeChain_frame hbx fun hmem => hbfree (writeChain_taken.subset hmem),
          Function.update_self, filledBlock_next hused (hlt x (by simp)).2]
      simp only [path_cons]
      exact ⟨hblock, (hlt x (by simp)).1, hrest⟩

/-- The last block: of the right size when the write succeeds, untouched otherwise. -/
theorem writeChain_last (src : List UInt8) (hnd : (block :: free).Nodup) (hused : 8 ≤ used)
    (hle : used ≤ 512) :
    let r := writeChain B block used free src
    r.2.2 = .ok ∧ (r.1 (lastFrom block r.2.1)).nextBlock ≤ 512 ∧
        (if r.2.1 = [] then used else 8) ≤ (r.1 (lastFrom block r.2.1)).nextBlock ∨
      r.2.2 = .outOfMemory ∧ r.2.1 = free ∧
        r.1 (lastFrom block free) = B (lastFrom block free) := by
  induction free generalizing B block used src with
  | nil =>
    by_cases h : src.length ≤ 512 - used
    · rw [writeChain_of_le h]
      have := (lastBlock_spec (b := B block) src hused (by omega)).1
      refine Or.inl ⟨rfl, ?_, ?_⟩ <;>
        simp only [lastFrom, List.getLastD_nil, Function.update_self, this, if_true] <;> omega
    · rw [writeChain_nil h]
      exact Or.inr ⟨rfl, rfl, rfl⟩
  | cons x free ih =>
    by_cases h : src.length ≤ 512 - used
    · rw [writeChain_of_le h]
      have := (lastBlock_spec (b := B block) src hused (by omega)).1
      refine Or.inl ⟨rfl, ?_, ?_⟩ <;>
        simp only [lastFrom, List.getLastD_nil, Function.update_self, this, if_true] <;> omega
    · obtain ⟨hnot, hnd'⟩ := List.nodup_cons.mp hnd
      rw [writeChain_cons h]
      have hlast : lastFrom x free ≠ block := lastFrom_ne hnot
      simp only [lastFrom, List.getLastD_cons, reduceCtorEq, if_false]
      rcases ih (B := Function.update B block (filledBlock (B block) used x src))
        _ hnd' (le_refl 8) (by decide) with ⟨h1, h2, h3⟩ | ⟨h1, h2, h3⟩
      · exact Or.inl ⟨h1, h2, by simpa using h3⟩
      · refine Or.inr ⟨h1, by rw [h2], ?_⟩
        rw [h3, Function.update_of_ne hlast]

/-- When the write succeeds, the chain contains the written data from `used` on. -/
theorem writeChain_content (hlt : ∀ x ∈ free, x ≠ 0 ∧ x + 512 < 2 ^ 64)
    (hnd : (block :: free).Nodup) (hused : 8 ≤ used) (hle : used ≤ 512)
    (hok : (writeChain B block used free src).2.2 = .ok) :
    chainContent (writeChain B block used free src).1 used
      (block :: (writeChain B block used free src).2.1) = src := by
  induction free generalizing B block used src with
  | nil =>
    by_cases h : src.length ≤ 512 - used
    · rw [writeChain_of_le h]
      have := (lastBlock_spec (b := B block) src hused (by omega)).2
      simpa [chainContent] using this
    · simp [writeChain_nil h] at hok
  | cons x free ih =>
    by_cases h : src.length ≤ 512 - used
    · rw [writeChain_of_le h]
      have := (lastBlock_spec (b := B block) src hused (by omega)).2
      simpa [chainContent] using this
    · obtain ⟨hnot, hnd'⟩ := List.nodup_cons.mp hnd
      obtain ⟨hbx, hbfree⟩ : block ≠ x ∧ block ∉ free := by simpa using hnot
      rw [writeChain_cons h] at hok ⊢
      have hrest := ih (B := Function.update B block (filledBlock (B block) used x src))
        (fun y hy => hlt y (by simp [hy])) hnd' (le_refl 8)
        (by decide) hok
      obtain ⟨hx0, hxlt⟩ := hlt x (by simp)
      simp only
      rw [chainContent, hrest,
        writeChain_frame hbx fun hmem => hbfree (writeChain_taken.subset hmem), Function.update_self,
        filledBlock_content hused hle hxlt hx0 h, List.take_append_drop]

end WriteChain

/-! ### The loop and the call -/

/-- The loop of `disk_write_file` computes `writeChain`. -/
theorem diskWriteFileLoop_eq {block used : Nat} {free : List Nat} {src : List UInt8}
    (hr : io.readErrors = []) (hblock : block < io.numBlocks)
    (hfree : Path 0 (nextOf io.blocks) (free.headD 0) free 0)
    (hlt : ∀ x ∈ free, x < io.numBlocks) (hnd : (block :: free).Nodup) (hle : used ≤ 512)
    (hn : free.length < n) :
    ∃ io' buffer', diskWriteFileLoop n ⟨io, io.blocks block⟩ block (free.headD 0) used (512 - used)
        src = some (⟨io', buffer'⟩, lastFrom block (writeChain io.blocks block used free src).2.1,
          (free.drop (writeChain io.blocks block used free src).2.1.length).headD 0,
          (writeChain io.blocks block used free src).2.2) ∧
      SameDevice io io' ∧ io'.blocks = (writeChain io.blocks block used free src).1 := by
  induction free generalizing n io block used src with
  | nil =>
    obtain ⟨n, rfl⟩ : ∃ k, n = k + 1 := ⟨n - 1, by simp at hn; omega⟩
    by_cases h : src.length ≤ 512 - used
    · rw [writeChain_of_le h]
      simp only [diskWriteFileLoop, if_pos h, Disk.setBuffer_eq, diskWriteBlockBuffer_eq hblock,
        U64.add_eq (show used + src.length < 2 ^ 64 by omega)]
      exact ⟨_, _, rfl, ⟨rfl, rfl⟩, rfl⟩
    · rw [writeChain_nil h]
      simp only [diskWriteFileLoop, if_neg h, List.headD_nil, if_true]
      exact ⟨_, _, rfl, ⟨rfl, rfl⟩, rfl⟩
  | cons x free ih =>
    obtain ⟨n, rfl⟩ : ∃ k, n = k + 1 := ⟨n - 1, by simp at hn; omega⟩
    by_cases h : src.length ≤ 512 - used
    · rw [writeChain_of_le h]
      simp only [diskWriteFileLoop, if_pos h, Disk.setBuffer_eq, diskWriteBlockBuffer_eq hblock,
        U64.add_eq (show used + src.length < 2 ^ 64 by omega)]
      exact ⟨_, _, rfl, ⟨rfl, rfl⟩, rfl⟩
    · obtain ⟨hnot, hnd'⟩ := List.nodup_cons.mp hnd
      obtain ⟨hbx, hbfree⟩ : block ≠ x ∧ block ∉ free := by simpa using hnot
      obtain ⟨-, hx0, hfree⟩ := hfree
      have hxlt := hlt x (by simp)
      have hxfree : x ∉ free := (List.nodup_cons.mp hnd').1
      have hnext : blockGetNext (io.blocks x) = free.headD 0 := hfree.eq_headD
      rw [writeChain_cons h]
      -- the block that was filled is not free, so that the rest of the free list is the same
      have hfree' : Path 0
          (nextOf (io.set block (filledBlock (io.blocks block) used x src)).blocks)
          (free.headD 0) free 0 := by
        rw [← hnext]
        refine hfree.congr fun y hy => ?_
        simp only [nextOf, BlockIo.set_blocks]
        rw [Function.update_of_ne (fun heq : y = block => hbfree (heq ▸ hy))]
      obtain ⟨io', buffer', heq, hdev, hblocks⟩ := ih (n := n)
        (show (io.set block (filledBlock (io.blocks block) used x src)).readErrors = [] from hr)
        hxlt hfree' (fun y hy => hlt y (by simp [hy])) hnd'
        (show 8 ≤ 512 by decide) (by simp at hn; omega)
      refine ⟨io', buffer', ?_, hdev, hblocks⟩
      simp only [diskWriteFileLoop, if_neg h, List.headD_cons, if_neg hx0, Disk.setBuffer_eq,
        diskWriteBlockBuffer_eq hblock, diskReadBlockBuffer_eq
          (show (io.set block _).readErrors = [] from hr) hxlt]
      have hx : blockGetNext ((io.set block (filledBlock (io.blocks block) used x src)).blocks x) =
          free.headD 0 := by
        rw [BlockIo.set_blocks, Function.update_of_ne hbx.symm, hnext]
      simp only [filledBlock] at hx heq ⊢
      rw [hx, heq]
      simp only [lastFrom, List.getLastD_cons, List.length_cons, List.drop_succ_cons]
      rfl

/-- What `disk_write_file` writes: a chain of blocks and, if it took free blocks, the
    superblock. -/
structure Written (io io' : BlockIo) (block used : Nat) (free : List Nat) (src : List UInt8) :
    Prop where
  blocks : ∀ b, b ≠ SUPER_BLOCK → io'.blocks b = (writeChain io.blocks block used free src).1 b
  super_nil : (writeChain io.blocks block used free src).2.1 = [] →
    io'.blocks SUPER_BLOCK = io.blocks SUPER_BLOCK
  super_cons : (writeChain io.blocks block used free src).2.1 ≠ [] →
    io'.blocks SUPER_BLOCK = blockSetNext (io.blocks SUPER_BLOCK)
      ((free.drop (writeChain io.blocks block used free src).2.1.length).headD 0)

/-- `disk_write_file` writes the chain of free blocks after the last block. -/
theorem diskWriteFile_written {block : Nat} {free : List Nat} (src : List UInt8)
    (hr : io.readErrors = []) (hsuper : SUPER_BLOCK < io.numBlocks) (hblock : block < io.numBlocks)
    (hfree : Path 0 (nextOf io.blocks) (nextOf io.blocks SUPER_BLOCK) free 0)
    (hlt : ∀ x ∈ free, x < io.numBlocks) (hnd : (SUPER_BLOCK :: block :: free).Nodup)
    (hle : blockSize (io.blocks block) ≤ 512) (hn : free.length < n) :
    ∃ io' buffer', diskWriteFile n ⟨io, buffer⟩ block src =
        some (⟨io', buffer'⟩,
          lastFrom block (writeChain io.blocks block (blockSize (io.blocks block)) free src).2.1,
          (writeChain io.blocks block (blockSize (io.blocks block)) free src).2.2) ∧
      SameDevice io io' ∧ Written io io' block (blockSize (io.blocks block)) free src := by
  have hhead : blockGetNext (io.blocks SUPER_BLOCK) = free.headD 0 := hfree.eq_headD
  have hnd' := (List.nodup_cons.mp hnd).2
  have hfree' : Path 0 (nextOf io.blocks) (free.headD 0) free 0 := by
    rw [← hhead]; exact hfree
  obtain ⟨io', buffer', heq, hdev, hblocks⟩ := diskWriteFileLoop_eq (n := n)
    hr hblock hfree' hlt hnd' hle hn
  set W := writeChain io.blocks block (blockSize (io.blocks block)) free src with hW
  have hpre : W.2.1 <+: free := writeChain_taken
  have hsame : io'.blocks SUPER_BLOCK = io.blocks SUPER_BLOCK := by
    rw [hblocks]
    refine writeChain_frame ?_ fun hmem => ?_
    · intro heq0; exact (List.nodup_cons.mp hnd).1 (by simp [← heq0])
    · exact (List.nodup_cons.mp hnd).1 (List.mem_cons_of_mem _ (hpre.subset hmem))
  simp only [diskWriteFile, diskReadBlockBuffer_eq hr hsuper, diskReadBlockBuffer_eq hr hblock, hhead,
    U64.sub_eq hle (show 512 < 2 ^ 64 by decide), heq]
  by_cases hnew : W.2.1 = []
  · simp only [hnew, List.length_nil, List.drop_zero, ne_eq, not_true_eq_false, if_false]
    exact ⟨_, _, rfl, hdev, fun b _ => by rw [hblocks], fun _ => hsame,
      fun h => absurd hnew (by rw [← hW] at h; exact h)⟩
  · -- the superblock now points to a later block of the free list, or to none
    have hne : (free.drop W.2.1.length).headD 0 ≠ free.headD 0 := by
      obtain ⟨rest, hrest⟩ := hpre
      cases hw : W.2.1 with
      | nil => exact absurd hw hnew
      | cons x new =>
        rw [hw] at hrest
        have hx0 : x ≠ 0 := hfree.ne_null x (by simp [← hrest])
        have hxnd : x ∉ rest := by
          have := (List.nodup_cons.mp hnd').2
          rw [← hrest, List.cons_append, List.nodup_cons] at this
          exact fun hmem => this.1 (List.mem_append_right _ hmem)
        rw [← hrest, List.drop_left, List.cons_append, List.headD_cons]
        cases rest with
        | nil => exact hx0.symm
        | cons y rest => rintro rfl; exact hxnd (by simp)
    have hr' : io'.readErrors = [] := hdev.2.trans hr
    have hsuper' : SUPER_BLOCK < io'.numBlocks := by rw [hdev.1]; exact hsuper
    simp only [ne_eq, hne, not_false_eq_true, if_true, diskReadBlockBuffer_eq hr' hsuper',
      Disk.setBuffer_eq, diskWriteBlockBuffer_eq hsuper']
    refine ⟨_, _, rfl, ⟨hdev.1, hdev.2⟩, fun b hb => ?_, fun h => absurd h hnew, fun _ => ?_⟩
    · rw [BlockIo.set_blocks, Function.update_of_ne hb, hblocks]
    · rw [BlockIo.set_blocks, Function.update_self, hsame]

/-! ### The layout after a write -/

/-- Writing after the header of a block keeps what is before the written bytes. -/
theorem read_setNextBlock_write {b : DiskBlock} {v used off k : Nat} {bs : List UInt8}
    (hle : used + bs.length ≤ 512) (ho : 8 ≤ off) (hk : off + k ≤ used) :
    ((b.setNextBlock v).write used bs).read off k = b.read off k := by
  rw [DiskBlock.read_write_of_disjoint (by omega) (Or.inl hk),
    DiskBlock.read_setNextBlock (by omega) ho]

/-- When the superblock links to the part `free` of a free list `new ++ free`, this part is
    the new free list. -/
theorem freePath_of_taken {io io' : BlockIo} {new free : List Nat}
    (hpath : Path 0 (nextOf io.blocks) (nextOf io.blocks SUPER_BLOCK) (new ++ free) 0)
    (hend : (io.blocks (lastFrom SUPER_BLOCK (new ++ free))).nextBlock = 512)
    (hlt : ∀ x ∈ free, x + 512 < 2 ^ 64)
    (hnil : new = [] → io'.blocks SUPER_BLOCK = io.blocks SUPER_BLOCK)
    (hcons : new ≠ [] →
      io'.blocks SUPER_BLOCK = blockSetNext (io.blocks SUPER_BLOCK) (free.headD 0))
    (hframe : ∀ x ∈ free, io'.blocks x = io.blocks x) :
    Path 0 (nextOf io'.blocks) (nextOf io'.blocks SUPER_BLOCK) free 0 ∧
      (io'.blocks (lastFrom SUPER_BLOCK free)).nextBlock = 512 := by
  have hheadlt : free.headD 0 + 512 < 2 ^ 64 := by
    cases free with
    | nil => simp
    | cons y free => simpa only [List.headD_cons] using hlt y List.mem_cons_self
  have hhead : nextOf io'.blocks SUPER_BLOCK = free.headD 0 := by
    cases new with
    | nil => rw [nextOf, hnil rfl]; exact hpath.eq_headD
    | cons x new => rw [nextOf, hcons (List.cons_ne_nil _ _), blockGetNext_blockSetNext hheadlt]
  constructor
  · obtain ⟨c, -, hc⟩ := path_append.mp hpath
    rw [hhead, ← hc.eq_headD]
    exact hc.congr fun x hx => by simp only [nextOf, hframe x hx]
  · cases free using List.reverseRecOn with
    | nil =>
      cases new with
      | nil =>
        simp only [lastFrom, List.getLastD_nil, List.append_nil] at hend ⊢
        rw [hnil rfl, hend]
      | cons x new =>
        simp only [lastFrom, List.getLastD_nil]
        rw [hcons (List.cons_ne_nil _ _)]
        exact nextBlock_blockSetNext (by decide)
    | append_singleton l y =>
      simp only [← List.append_assoc, lastFrom, List.getLastD_concat] at hend ⊢
      rw [hframe y (by simp), hend]

section WriteFile

variable {free : List Nat} {pre post : List FileLayout} {f : FileLayout} {src : List UInt8}

/-- The blocks `disk_write_file` adds to the file `f`. -/
abbrev newBlocks (io : BlockIo) (f : FileLayout) (free : List Nat) (src : List UInt8) : List Nat :=
  (writeChain io.blocks f.last (blockSize (io.blocks f.last)) free src).2.1

/-- A header has at least one word. -/
theorem lastHeaderSize_ge (f : FileLayout) : 8 ≤ f.lastHeaderSize := by
  unfold FileLayout.lastHeaderSize
  split <;> omega

variable {io' : BlockIo} (h : Describes io ⟨free, pre ++ f :: post⟩)
  (hw : Written io io' f.last (blockSize (io.blocks f.last)) free src)

/-- The free blocks that are left are the rest of the free list. -/
theorem newBlocks_append (io : BlockIo) (f : FileLayout) (free : List Nat) (src : List UInt8) :
    newBlocks io f free src ++ free.drop (newBlocks io f free src).length = free :=
  (List.prefix_iff_eq_append.mp writeChain_taken)

include h

/-- The last block of a file is not free. -/
theorem Describes.last_nodup : (SUPER_BLOCK :: f.last :: free).Nodup := by
  have hf : f ∈ (Layout.mk free (pre ++ f :: post)).files := by simp
  refine List.nodup_cons.mpr ⟨fun hmem => ?_, List.nodup_cons.mpr ⟨fun hmem => ?_,
    (List.nodup_append'.mp h.nodup).1⟩⟩
  · rcases List.mem_cons.mp hmem with h0 | hmem
    · exact h.block_ne_super hf f.last_mem h0.symm
    · exact h.free_ne_super hmem rfl
  · exact h.free_not_mem hmem hf f.last_mem

/-- The last block of a file ends its chain. -/
theorem Describes.last_next : nextOf io.blocks f.last = 0 := by
  have hok := h.files_ok f (by simp)
  have hpath : Path 0 (nextOf io.blocks) (nextOf io.blocks f.first) (f.rest ++ []) 0 := by
    simpa using hok.chain
  exact Path.next_lastFrom hpath

/-- The last block of a file, or of the free list if there is one, has no successor. -/
theorem Describes.lastFrom_free : blockGetNext (io.blocks (lastFrom f.last free)) = 0 := by
  have hend := h.free_end
  cases free using List.reverseRecOn with
  | nil => exact h.last_next
  | append_singleton l x =>
    simp only [lastFrom, List.getLastD_concat] at hend ⊢
    exact blockGetNext_of_le (by omega)

include hw
omit h

/-- The blocks that are neither the last block of the file nor taken from the free list are
    not written. -/
theorem Written.frame {b : Nat} (hb0 : b ≠ SUPER_BLOCK) (hb : b ≠ f.last)
    (hbf : b ∉ newBlocks io f free src) : io'.blocks b = io.blocks b := by
  rw [hw.blocks b hb0]
  exact writeChain_frame hb hbf

include h

/-- Only the last block of the file and free blocks are written. -/
theorem Written.frame_file {g : FileLayout} (hg : g ∈ pre ++ f :: post) {b : Nat}
    (hb : b ∈ g.blocks) (hne : b ≠ f.last) : io'.blocks b = io.blocks b :=
  hw.frame (h.block_ne_super (f := g) hg hb) hne fun hmem =>
    h.free_not_mem (writeChain_taken.subset hmem) hg hb

/-- The other files keep their blocks. -/
theorem Written.others {g : FileLayout} (hg : g ∈ pre ++ post) :
    FileFrame io.blocks io'.blocks g := by
  have hdisj := h.split_disjoint hg
  have hg' : g ∈ (Layout.mk free (pre ++ f :: post)).files := mem_of_mem_split hg
  have hsame : ∀ x ∈ g.blocks, io'.blocks x = io.blocks x := by
    intro x hx
    refine hw.frame_file h hg' hx ?_
    rintro rfl; exact hdisj f.last_mem hx
  exact ⟨Or.inl (hsame _ (by simp [FileLayout.blocks])),
    fun x hx => hsame x (by simp [FileLayout.blocks, hx])⟩

/-- The last block keeps everything before its old end but its first word. -/
theorem Written.last : ∃ v bs, blockSize (io.blocks f.last) + bs.length ≤ 512 ∧
    (io'.blocks f.last = io.blocks f.last ∨ io'.blocks f.last =
      ((io.blocks f.last).setNextBlock v).write (blockSize (io.blocks f.last)) bs) := by
  have hf : f ∈ (Layout.mk free (pre ++ f :: post)).files := by simp
  have hok := h.files_ok f hf
  have hge := lastHeaderSize_ge f
  obtain ⟨v, bs, -, hle, hor⟩ := writeChain_first (B := io.blocks)
    (by have := hok.size_ge; omega)
    hok.size_le (List.nodup_cons.mp h.last_nodup).2
  rw [← hw.blocks f.last (h.block_ne_super hf f.last_mem)] at hor
  exact ⟨v, bs, hle, hor⟩

/-- A write does not change the file list. -/
theorem Written.nextFile {b : Nat} (hb : b ∈ SUPER_BLOCK :: (pre ++ f :: post).map (·.first)) :
    nextFileOf io'.blocks b = nextFileOf io.blocks b := by
  have hf : f ∈ (Layout.mk free (pre ++ f :: post)).files := by simp
  rcases List.mem_cons.mp hb with rfl | hb
  · by_cases hnew : newBlocks io f free src = []
    · simp only [nextFileOf, hw.super_nil hnew]
    · simp only [nextFileOf, hw.super_cons hnew, blockSetNext, DiskBlock.nextFile_setNextBlock]
  obtain ⟨g, hg, rfl⟩ := List.mem_map.mp hb
  have hg' : g ∈ (Layout.mk free (pre ++ f :: post)).files := hg
  have hgmem : g.first ∈ g.blocks := by simp [FileLayout.blocks]
  by_cases hgl : g.first = f.last
  · -- then `f` is `g` and has a single block, whose header is as long as its name requires
    have hgf : g = f := by
      by_contra hne
      exact h.disjoint hg' hf hne hgmem (hgl ▸ f.last_mem)
    have hrest : f.rest = [] := h.rest_eq_nil hf (by rw [← hgl, hgf])
    have hge := (h.files_ok f hf).size_ge
    rw [FileLayout.lastHeaderSize, if_pos hrest] at hge
    obtain ⟨v, bs, hle, hsame | hsame⟩ := hw.last h
    · simp only [nextFileOf, hgl, hsame]
    · simp only [nextFileOf, hgl, hsame]
      rw [DiskBlock.nextFile_write (by omega), DiskBlock.nextFile_setNextBlock]
  · simp only [nextFileOf, hw.frame_file h hg' hgmem hgl]

/-- The free list goes on after the blocks that were taken. -/
theorem Written.freePath :
    Path 0 (nextOf io'.blocks) (nextOf io'.blocks SUPER_BLOCK)
        (free.drop (newBlocks io f free src).length) 0 ∧
      (io'.blocks (lastFrom SUPER_BLOCK
        (free.drop (newBlocks io f free src).length))).nextBlock = 512 := by
  have hf : f ∈ (Layout.mk free (pre ++ f :: post)).files := by simp
  have happ := newBlocks_append io f free src
  have hpath := h.free_path
  have hend := h.free_end
  have hnd := (List.nodup_append'.mp h.nodup).1
  have hframe : ∀ x ∈ free.drop (newBlocks io f free src).length, io'.blocks x = io.blocks x := by
    intro x hx
    have hxfree := List.mem_of_mem_drop hx
    refine hw.frame (h.free_ne_super hxfree) (fun heq => h.free_not_mem hxfree hf
      (heq ▸ f.last_mem)) fun hmem => ?_
    simp only at hnd
    rw [← happ] at hnd
    exact (List.nodup_append'.mp hnd).2.2 hmem hx
  simp only at hpath hend
  rw [← happ] at hpath hend
  have hnil : newBlocks io f free src = [] →
      io'.blocks SUPER_BLOCK = io.blocks SUPER_BLOCK := hw.super_nil
  have hcons : newBlocks io f free src ≠ [] → io'.blocks SUPER_BLOCK =
      blockSetNext (io.blocks SUPER_BLOCK)
        ((free.drop (newBlocks io f free src).length).headD 0) := hw.super_cons
  have hlt : ∀ x ∈ free.drop (newBlocks io f free src).length, x + 512 < 2 ^ 64 := fun x hx =>
    io.add_lt (h.free_lt (List.mem_of_mem_drop hx)).2
  exact freePath_of_taken hpath hend hlt hnil hcons hframe

/-- The blocks that were taken are linked after the last block of the file. -/
theorem Written.chain :
    Path 0 (nextOf io'.blocks) (nextOf io'.blocks f.last) (newBlocks io f free src) 0 := by
  have hf : f ∈ (Layout.mk free (pre ++ f :: post)).files := by simp
  have hok := h.files_ok f hf
  have hge := lastHeaderSize_ge f
  have hpath := writeChain_chain (B := io.blocks) src
    (fun x hx => ⟨h.free_ne_super hx, io.add_lt (h.free_lt hx).2⟩)
    (List.nodup_cons.mp h.last_nodup).2 (by have := hok.size_ge; omega) hok.size_le h.lastFrom_free
  rw [nextOf, hw.blocks _ (h.block_ne_super hf f.last_mem)]
  refine hpath.congr fun x hx => ?_
  simp only [nextOf, hw.blocks x (h.free_ne_super (writeChain_taken.subset hx))]

/-- The file with the blocks that were taken. -/
abbrev extended (io : BlockIo) (f : FileLayout) (free : List Nat) (src : List UInt8) : FileLayout :=
  { f with rest := f.rest ++ newBlocks io f free src }

omit h hw in

/-- The last block of the file that was extended. -/
theorem extended_last :
    (extended io f free src).last = lastFrom f.last (newBlocks io f free src) :=
  lastFrom_append _ _ _

/-- The last block of the extended file: its header is not in its data. -/
theorem Written.lastSize :
    (extended io f free src).lastHeaderSize ≤ blockSize (io'.blocks (extended io f free src).last) ∧
      blockSize (io'.blocks (extended io f free src).last) ≤ 512 := by
  have hf : f ∈ (Layout.mk free (pre ++ f :: post)).files := by simp
  have hok := h.files_ok f hf
  have hge := lastHeaderSize_ge f
  have hsize := hok.size_ge
  have hend := h.free_end
  have hlast := writeChain_last (B := io.blocks) src
    (List.nodup_cons.mp h.last_nodup).2 (by omega) hok.size_le
  have hne : (extended io f free src).last ≠ SUPER_BLOCK := by
    rw [extended_last]
    rcases List.mem_cons.mp (lastFrom_mem f.last (newBlocks io f free src)) with heq | hmem
    · rw [heq]; exact h.block_ne_super hf f.last_mem
    · exact h.free_ne_super (writeChain_taken.subset hmem)
  rw [hw.blocks _ hne, extended_last]
  have hheader : (extended io f free src).lastHeaderSize =
      if newBlocks io f free src = [] then f.lastHeaderSize else 8 := by
    unfold FileLayout.lastHeaderSize extended
    by_cases hnew : newBlocks io f free src = [] <;> simp [hnew]
  rw [hheader]
  rcases hlast with ⟨-, h1, h2⟩ | ⟨-, h1, h2⟩
  · refine ⟨le_trans ?_ h2, h1⟩
    by_cases hnew : newBlocks io f free src = []
    · rw [if_pos hnew, if_pos hnew]; exact hsize
    · rw [if_neg hnew, if_neg hnew]
  · simp only [newBlocks, h1]
    rw [h2]
    cases free using List.reverseRecOn with
    | nil => exact ⟨hsize, hok.size_le⟩
    | append_singleton l x =>
      simp only [lastFrom, List.getLastD_concat] at hend ⊢
      simp [blockSize, hend]

/-- The file that was extended is well-formed. -/
theorem Written.fileOk : FileOk io'.blocks (extended io f free src) := by
  have hf : f ∈ (Layout.mk free (pre ++ f :: post)).files := by simp
  have hok := h.files_ok f hf
  have hle := hok.name_le
  have hname := hok.nameLength_eq
  refine ⟨?_, ?_, hok.name_pos, hle, hok.name_chars, (hw.lastSize h).1, (hw.lastSize h).2⟩
  · have hold : Path 0 (nextOf io.blocks) f.first (f.first :: f.rest) 0 :=
      ⟨rfl, h.block_ne_super hf (by simp [FileLayout.blocks]), hok.chain⟩
    have hnew := hold.splice (hw.chain h) (h.blocks_nodup hf) rfl fun y hy hyl => by
      simp only [nextOf, hw.frame_file h hf (b := y) hy hyl]
    exact hnew.2.2
  · by_cases heq : f.first = f.last
    · have hsize := hok.size_ge
      have hrest : f.rest = [] := h.rest_eq_nil hf heq
      rw [FileLayout.lastHeaderSize, if_pos hrest] at hsize
      have hsame : ∃ v bs, blockSize (io.blocks f.last) + bs.length ≤ 512 ∧
          (io'.blocks f.last = io.blocks f.last ∨ io'.blocks f.last =
            ((io.blocks f.last).setNextBlock v).write (blockSize (io.blocks f.last)) bs) := hw.last h
      obtain ⟨v, bs, hlen, hsame | hsame⟩ := hsame
      · show (io'.blocks f.first).fileName = f.name
        rw [heq, hsame, ← heq, hok.name_eq]
      · show (io'.blocks f.first).fileName = f.name
        rw [heq] at hname
        rw [heq, hsame, DiskBlock.fileName, DiskBlock.nameLength_write (by omega),
          DiskBlock.nameLength_setNextBlock, read_setNextBlock_write hlen (by decide) (by omega),
          ← hok.name_eq, heq]
        rfl
    · show (io'.blocks f.first).fileName = f.name
      rw [hw.frame_file h hf (by simp [FileLayout.blocks]) heq, hok.name_eq]

/-- The first written block keeps at least the data it had. -/
theorem Written.used_le : blockSize (io.blocks f.last) ≤ usedSize (io'.blocks f.last) := by
  have hf : f ∈ (Layout.mk free (pre ++ f :: post)).files := by simp
  have hfile := h.files_ok f hf
  have hge := lastHeaderSize_ge f
  have hsize := hfile.size_ge
  have hle := hfile.size_le
  have hnd := (List.nodup_cons.mp h.last_nodup).2
  have hlast := writeChain_last (B := io.blocks) src hnd (by omega) hle
  have hchain := hw.chain h
  unfold usedSize
  split
  · have hnil : newBlocks io f free src = [] := hchain.eq_nil_iff.mpr ‹_›
    rw [hw.blocks _ (h.block_ne_super hf f.last_mem)]
    simp only [newBlocks] at hnil
    rcases hlast with ⟨-, -, h2⟩ | ⟨-, h2, h3⟩
    · rw [if_pos hnil] at h2
      rw [hnil] at h2
      exact h2
    · -- no free block was left, and nothing was written
      have hfree : free = [] := h2.symm.trans hnil
      subst hfree
      have hsame : (writeChain io.blocks f.last (blockSize (io.blocks f.last)) [] src).1 f.last =
        io.blocks f.last := h3
      rw [hsame]
  · exact hle

/-- The content of the file after the write: the old one, then what the written blocks contain
    from the old end of the data on. -/
theorem Written.content_append :
    fileContent io'.blocks (extended io f free src) = fileContent io.blocks f ++
      chainContent (writeChain io.blocks f.last (blockSize (io.blocks f.last)) free src).1
        (blockSize (io.blocks f.last)) (f.last :: newBlocks io f free src) := by
  have hf : f ∈ (Layout.mk free (pre ++ f :: post)).files := by simp
  have hfile := h.files_ok f hf
  have hge := lastHeaderSize_ge f
  have hsize := hfile.size_ge
  have hle := hfile.size_le
  -- the chain without its last block, which is the only one that changes
  obtain ⟨init, hinit⟩ : ∃ init, init = (f.first :: f.rest).dropLast := ⟨_, rfl⟩
  have hblocks : f.blocks = init ++ [f.last] := by
    rw [hinit]; exact (dropLast_append_lastFrom f.first f.rest).symm
  have hextended : (extended io f free src).blocks =
      init ++ f.last :: newBlocks io f free src := by
    rw [show (extended io f free src).blocks = f.blocks ++ newBlocks io f free src from rfl, hblocks,
      List.append_assoc, List.singleton_append]
  have hheader : (if init = [] then 24 + f.name.length else 8) = f.lastHeaderSize := by
    unfold FileLayout.lastHeaderSize
    cases hr : f.rest <;> simp [hinit, hr]
  have hframe : ∀ b ∈ init, io'.blocks b = io.blocks b := by
    intro b hb
    refine hw.frame_file h hf (by rw [hblocks]; simp [hb]) ?_
    rintro rfl
    have := h.blocks_nodup hf
    rw [hblocks] at this
    exact (List.nodup_append'.mp this).2.2 hb (by simp)
  -- what is written from the old end of the data on
  have hnew : blockContent (io'.blocks f.last) (blockSize (io.blocks f.last)) ++
      chainContent io'.blocks 8 (newBlocks io f free src) =
        chainContent (writeChain io.blocks f.last (blockSize (io.blocks f.last)) free src).1
          (blockSize (io.blocks f.last)) (f.last :: newBlocks io f free src) := by
    rw [chainContent, hw.blocks _ (h.block_ne_super hf f.last_mem)]
    refine congrArg _ (chainContent_congr fun x hx => ?_)
    exact hw.blocks x (h.free_ne_super (writeChain_taken.subset hx))
  have hused := hw.used_le h
  have hold : (io'.blocks f.last).read f.lastHeaderSize
      (blockSize (io.blocks f.last) - f.lastHeaderSize) =
        blockContent (io.blocks f.last) f.lastHeaderSize := by
    have husedSize : usedSize (io.blocks f.last) = blockSize (io.blocks f.last) := by
      rw [usedSize, if_pos (show blockGetNext (io.blocks f.last) = 0 from h.last_next)]
    rw [blockContent, husedSize]
    have hsame : ∃ v bs, blockSize (io.blocks f.last) + bs.length ≤ 512 ∧
        (io'.blocks f.last = io.blocks f.last ∨ io'.blocks f.last =
          ((io.blocks f.last).setNextBlock v).write (blockSize (io.blocks f.last)) bs) := hw.last h
    obtain ⟨v, bs, hlen, hsame | hsame⟩ := hsame
    · rw [hsame]
    · rw [hsame, read_setNextBlock_write hlen (by omega) (by omega)]
  have hjoin : blockContent (io'.blocks f.last) f.lastHeaderSize =
      blockContent (io.blocks f.last) f.lastHeaderSize ++
        blockContent (io'.blocks f.last) (blockSize (io.blocks f.last)) := by
    rw [← hold, blockContent, blockContent]
    have husedle := usedSize_le (b := io'.blocks f.last)
    rw [show usedSize (io'.blocks f.last) - f.lastHeaderSize =
      (blockSize (io.blocks f.last) - f.lastHeaderSize) +
        (usedSize (io'.blocks f.last) - blockSize (io.blocks f.last)) by omega,
      DiskBlock.read_add,
      show f.lastHeaderSize + (blockSize (io.blocks f.last) - f.lastHeaderSize) =
        blockSize (io.blocks f.last) by omega]
  rw [← hnew]
  calc fileContent io'.blocks (extended io f free src)
      = chainContent io.blocks (24 + f.name.length) init ++
          (blockContent (io'.blocks f.last) f.lastHeaderSize ++
            chainContent io'.blocks 8 (newBlocks io f free src)) := by
        rw [fileContent, hextended, chainContent_append, hheader, chainContent_congr hframe]
        rfl
    _ = (chainContent io.blocks (24 + f.name.length) init ++
          blockContent (io.blocks f.last) f.lastHeaderSize) ++
            (blockContent (io'.blocks f.last) (blockSize (io.blocks f.last)) ++
              chainContent io'.blocks 8 (newBlocks io f free src)) := by
        rw [hjoin]
        simp only [List.append_assoc]
    _ = fileContent io.blocks f ++
            (blockContent (io'.blocks f.last) (blockSize (io.blocks f.last)) ++
              chainContent io'.blocks 8 (newBlocks io f free src)) := by
        rw [fileContent, hblocks, chainContent_append, hheader]
        simp [chainContent]

/-- When the write succeeds, the written bytes are added to the content. -/
theorem Written.content
    (hok : (writeChain io.blocks f.last (blockSize (io.blocks f.last)) free src).2.2 = .ok) :
    fileContent io'.blocks (extended io f free src) = fileContent io.blocks f ++ src := by
  have hfile := h.files_ok f (by simp)
  have hge := lastHeaderSize_ge f
  have hsize := hfile.size_ge
  have hsrc := writeChain_content (B := io.blocks)
    (fun x hx => ⟨h.free_ne_super hx, io.add_lt (h.free_lt hx).2⟩)
    (List.nodup_cons.mp h.last_nodup).2 (by omega) hfile.size_le hok
  rw [hw.content_append h]
  exact congrArg _ hsrc

omit h hw

/-- `disk_write_file` appends to a file, or fills all the free blocks. -/
theorem diskWriteFile_eq (buffer : DiskBlock) (src : List UInt8)
    (h : Describes io ⟨free, pre ++ f :: post⟩) (hr : io.readErrors = []) (hn : io.numBlocks ≤ n) :
    ∃ io' buffer' new free' status, diskWriteFile n ⟨io, buffer⟩ f.last src =
        some (⟨io', buffer'⟩, { f with rest := f.rest ++ new }.last, status) ∧
      free = new ++ free' ∧ SameDevice io io' ∧
      Describes io' ⟨free', pre ++ { f with rest := f.rest ++ new } :: post⟩ ∧
      (∀ g ∈ pre ++ post, FileFrame io.blocks io'.blocks g) ∧
      (status = .ok ∧
          fileContent io'.blocks { f with rest := f.rest ++ new } = fileContent io.blocks f ++ src ∨
        status = .outOfMemory ∧ free' = []) := by
  have hf : f ∈ (Layout.mk free (pre ++ f :: post)).files := by simp
  have hok := h.files_ok f hf
  have hge := lastHeaderSize_ge f
  have hsize := hok.size_ge
  have hlen := h.length_lt
  simp only at hlen
  have hpath : Path 0 (nextOf io.blocks) (nextOf io.blocks SUPER_BLOCK) free 0 := h.free_path
  obtain ⟨io', buffer', heq, hdev, hw⟩ := diskWriteFile_written (n := n) src hr
    h.super_lt (h.block_lt hf f.last_mem).2 hpath (fun x hx => (h.free_lt hx).2) h.last_nodup
    hok.size_le (by omega)
  refine ⟨io', buffer', newBlocks io f free src, free.drop (newBlocks io f free src).length,
    (writeChain io.blocks f.last (blockSize (io.blocks f.last)) free src).2.2, ?_, (newBlocks_append _ _ _ _).symm, hdev, ?_, fun g hg => hw.others h hg, ?_⟩
  · rw [heq, extended_last]
  · refine h.replace rfl rfl hdev.1 (hw.freePath h).1
      (hw.freePath h).2 (fun b hb => hw.nextFile h hb) (hw.fileOk h)
      (fun g hg => hw.others h hg) ?_
    -- the blocks that were taken go from the free list to the file
    have happ := newBlocks_append io f free src
    rw [List.perm_iff_count]
    intro a
    have hcount := congrArg (List.count a) happ
    simp only [FileLayout.blocks, List.count_append, List.count_cons] at hcount ⊢
    omega
  · have hnd := (List.nodup_cons.mp h.last_nodup).2
    rcases writeChain_last (B := io.blocks) src hnd
      (show 8 ≤ blockSize (io.blocks f.last) by omega) hok.size_le with ⟨h1, -, -⟩ | ⟨h1, h2, -⟩
    · exact Or.inl ⟨h1, hw.content h h1⟩
    · exact Or.inr ⟨h1, by simp only [newBlocks, h2, List.drop_length]⟩

end WriteFile

end Toys.FileSystem
