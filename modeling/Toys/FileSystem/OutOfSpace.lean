import Mathlib
import Toys.FileSystem.Refinement

namespace Toys.FileSystem

open Toys.Lib

/-!
# File system — writing on a full disk

`disk_write_file` takes a block from the free list before it knows that the rest of the data
fits.  When the list ends there, the header word of the last block taken is still the one of
a free block: 512, which is also the size of a full block.  What the block contained when it
was free is then part of the file.

* `roomFor` — the bytes that are written before the free list ends;
* `staleBytes` — what the last free block contained;
* `diskWriteFile_outOfMemory` — the files after the write.
-/

variable {io : BlockIo} {buffer : DiskBlock} {n : Nat}

/-- The free list of the image. -/
def FreeList (io : BlockIo) (free : List Nat) : Prop := ∃ files, Describes io ⟨free, files⟩

/-- How many bytes fit after the offset `used` of the last block of a file and in the free
    blocks, except the last one. -/
def roomFor (used : Nat) (free : List Nat) : Nat :=
  if free = [] then 0 else 512 - used + 504 * (free.length - 1)

/-- The data bytes of the last free block, if there is one. -/
def staleBytes (io : BlockIo) (free : List Nat) : List UInt8 :=
  match free.getLast? with
  | none => []
  | some b => (io.blocks b).read 8 504

section WriteChain

variable {B : Nat → DiskBlock} {block used : Nat} {free : List Nat} {src : List UInt8}

/-- The room in a chain, the first block apart. -/
theorem roomFor_cons {x : Nat} : roomFor used (x :: free) = 512 - used + roomFor 8 free := by
  unfold roomFor
  cases free with
  | nil => simp
  | cons y free =>
    simp only [reduceCtorEq, if_false, List.length_cons]
    omega

/-- The data is longer than what fits. -/
theorem writeChain_room_lt (h : (writeChain B block used free src).2.2 = .outOfMemory)
    (hne : free ≠ []) : roomFor used free < src.length := by
  induction free generalizing B block used src with
  | nil => exact absurd rfl hne
  | cons x free ih =>
    by_cases hsrc : src.length ≤ 512 - used
    · rw [writeChain_of_le hsrc] at h
      cases h
    rw [writeChain_cons hsrc] at h
    rw [roomFor_cons]
    cases free with
    | nil =>
      simp only [roomFor, if_true]
      omega
    | cons y free =>
      have hrest := ih h (List.cons_ne_nil _ _)
      rw [List.length_drop] at hrest
      omega

/-- What the chain contains when the free list ends: the first bytes of the data, and what
    was in the last block. -/
theorem writeChain_content_outOfMemory (hlt : ∀ x ∈ free, x ≠ 0 ∧ x + 512 < 2 ^ 64)
    (hnd : (block :: free).Nodup) (hused : 8 ≤ used) (hle : used ≤ 512)
    (h : (writeChain B block used free src).2.2 = .outOfMemory) :
    chainContent (writeChain B block used free src).1 used (block :: free) =
      src.take (roomFor used free) ++
        blockContent (B (lastFrom block free)) (if free = [] then used else 8) := by
  induction free generalizing B block used src with
  | nil =>
    by_cases hsrc : src.length ≤ 512 - used
    · rw [writeChain_of_le hsrc] at h
      cases h
    · simp [writeChain_nil hsrc, roomFor, chainContent, lastFrom]
  | cons x free ih =>
    by_cases hsrc : src.length ≤ 512 - used
    · rw [writeChain_of_le hsrc] at h
      cases h
    obtain ⟨hnot, hnd'⟩ := List.nodup_cons.mp hnd
    obtain ⟨hbx, hbfree⟩ : block ≠ x ∧ block ∉ free := by simpa using hnot
    obtain ⟨hx0, hxlt⟩ := hlt x (by simp)
    rw [writeChain_cons hsrc] at h ⊢
    have hrest := ih (B := Function.update B block (filledBlock (B block) used x src))
      (fun y hy => hlt y (by simp [hy])) hnd' (le_refl 8) (by decide) h
    have hlast : lastFrom x free ≠ block := lastFrom_ne hnot
    rw [Function.update_of_ne hlast] at hrest
    simp only
    rw [chainContent, hrest,
      writeChain_frame hbx fun hmem => hbfree (writeChain_taken.subset hmem), Function.update_self,
      filledBlock_content hused hle hxlt hx0 hsrc, roomFor_cons, List.take_add, List.append_assoc]
    simp only [lastFrom, List.getLastD_cons, ite_self, reduceCtorEq, if_false]

end WriteChain

section OutOfMemory

variable {m : Files} {name c src : List UInt8} {block block' : Nat} {free : List Nat} {self' : Disk}

/-- The data after the used part of the last block of the chain, when it was free or, if no
    block was free, part of the file. -/
theorem blockContent_stale {pre post : List FileLayout} {f : FileLayout}
    (h : Describes io ⟨free, pre ++ f :: post⟩) :
    blockContent (io.blocks (lastFrom f.last free))
      (if free = [] then blockSize (io.blocks f.last) else 8) = staleBytes io free := by
  have hend := h.free_end
  cases free using List.reverseRecOn with
  | nil =>
    have hlast : blockGetNext (io.blocks f.last) = 0 := h.last_next
    simp only [lastFrom, List.getLastD_nil, if_true, staleBytes, List.getLast?_nil]
    rw [blockContent, usedSize, if_pos hlast, Nat.sub_self]
    rfl
  | append_singleton free x =>
    simp only [lastFrom, List.getLastD_concat] at hend
    simp only [lastFrom, List.getLastD_concat, staleBytes, List.getLast?_concat,
      List.append_eq_nil_iff, List.cons_ne_self, and_false, if_false]
    -- the next block of a free block without successor is 0, and its size 512
    rw [blockContent, usedSize, if_pos (blockGetNext_of_le (by omega)), blockSize, hend]

/-- The files after a write that ends with the free list. -/
theorem diskWriteFile_outOfMemory (h : Represents io m) (hr : io.readErrors = [])
    (hfree : FreeList io free) (hblock : LastBlockOf io name block) (hc : m.lookup name = some c)
    (hrun : diskWriteFile n ⟨io, buffer⟩ block src = some (self', block', .outOfMemory)) :
    Represents self'.io (m.insert name
        (c ++ (src.take (roomFor (blockSize (io.blocks block)) free) ++ staleBytes io free))) ∧
      (free ≠ [] → roomFor (blockSize (io.blocks block)) free < src.length) := by
  obtain ⟨⟨free', files⟩, h, rfl⟩ := h
  obtain ⟨L, h', f, hf, rfl, rfl⟩ := hblock
  obtain rfl := h.unique h'
  obtain ⟨files', h''⟩ := hfree
  obtain ⟨rfl, rfl⟩ : free' = free ∧ files = files' := by simpa using h.unique h''
  obtain ⟨pre, post, rfl⟩ := List.append_of_mem hf
  rw [lookup_imageFiles h.namesNodup hf, Option.some_inj] at hc
  have hfile := h.files_ok f hf
  have hge := lastHeaderSize_ge f
  have hsize := hfile.size_ge
  have hlen := h.length_lt
  simp only at hlen
  have hnd := (List.nodup_cons.mp h.last_nodup).2
  have hrun := diskWriteFile_mono hrun (le_max_left n io.numBlocks)
  obtain ⟨io', buffer', heq, hdev, hw⟩ := @diskWriteFile_written _ buffer
    (max n io.numBlocks) _ _ src hr h.super_lt (h.block_lt hf f.last_mem).2 h.free_path
    (fun x hx => (h.free_lt hx).2) h.last_nodup hfile.size_le (by simp only; omega)
  rw [hrun, Option.some_inj, Prod.mk.injEq, Prod.mk.injEq] at heq
  obtain ⟨rfl, -, hstatus⟩ := heq
  -- every free block is taken
  have htaken : newBlocks io f free' src = free' := by
    have hlast := writeChain_last (B := io.blocks) src hnd
      (show 8 ≤ blockSize (io.blocks f.last) by omega) hfile.size_le
    rcases hlast with ⟨hok, -⟩ | ⟨-, htaken, -⟩
    · rw [hok] at hstatus
      cases hstatus
    · exact htaken
  have hdesc : Describes io' ⟨free'.drop (newBlocks io f free' src).length,
      pre ++ extended io f free' src :: post⟩ := by
    refine h.replace rfl rfl hdev.1 (hw.freePath h).1 (hw.freePath h).2
      (fun b hb => hw.nextFile h hb) (hw.fileOk h) (fun g hg => hw.others h hg) ?_
    rw [htaken, List.drop_length, extended, FileLayout.blocks, htaken]
    simp only [List.nil_append]
    rw [List.perm_iff_count]
    intro a
    simp only [FileLayout.blocks, List.count_append, List.count_cons]
    omega
  have hcontent : fileContent io'.blocks (extended io f free' src) =
      c ++ (src.take (roomFor (blockSize (io.blocks f.last)) free') ++ staleBytes io free') := by
    have hchain := writeChain_content_outOfMemory (B := io.blocks)
      (fun x hx => ⟨h.free_ne_super hx, io.add_lt (h.free_lt hx).2⟩) hnd
      (show 8 ≤ blockSize (io.blocks f.last) by omega) hfile.size_le hstatus.symm
    rw [hw.content_append h, hc, htaken, hchain, blockContent_stale h]
  refine ⟨⟨_, hdesc, ?_⟩, fun hne => writeChain_room_lt hstatus.symm hne⟩
  rw [← hcontent]
  exact imageFiles_replace _ h.namesNodup rfl fun g hg => fileContent_frame
    (h.files_ok g (mem_of_mem_split hg)) (hw.others h hg)

/-- The name of a file determines its content. -/
theorem insert_injective {d d' : List UInt8} (h : m.insert name d = m.insert name d') : d = d' := by
  have := congrArg (Finmap.lookup name) h
  rwa [Finmap.lookup_insert, Finmap.lookup_insert, Option.some_inj] at this

/-- A write that ends with the free list adds a prefix of the data to the file, and changes no
    other file, exactly when no block was free or the last free block contained the bytes of
    the data that come next. -/
theorem diskWriteFile_outOfMemory_iff (h : Represents io m) (hr : io.readErrors = [])
    (hfree : FreeList io free) (hblock : LastBlockOf io name block) (hc : m.lookup name = some c)
    (hrun : diskWriteFile n ⟨io, buffer⟩ block src = some (self', block', .outOfMemory)) :
    (∃ p, p <+: src ∧ Represents self'.io (m.insert name (c ++ p))) ↔
      free = [] ∨
        staleBytes io free <+: src.drop (roomFor (blockSize (io.blocks block)) free) := by
  obtain ⟨hfiles, hroom⟩ := diskWriteFile_outOfMemory h hr hfree hblock hc hrun
  constructor
  · rintro ⟨p, hp, hfiles'⟩
    refine or_iff_not_imp_left.mpr fun hne => ?_
    have hunique := WellFormed.existsUnique ⟨_, hfiles.choose_spec.1⟩
    have heq := insert_injective (hunique.unique hfiles' hfiles)
    rw [List.append_cancel_left_eq] at heq
    obtain ⟨q, rfl⟩ := hp
    -- the first bytes of `p` are the ones that fit, and the others are the stale ones
    have hlen : ((p ++ q).take (roomFor (blockSize (io.blocks block)) free)).length =
        roomFor (blockSize (io.blocks block)) free :=
      List.length_take_of_le (le_of_lt (hroom hne))
    refine ⟨q, ?_⟩
    conv_rhs => rw [heq, List.append_assoc]
    rw [List.drop_append_of_le_length (le_of_eq hlen.symm), List.drop_of_length_le (le_of_eq hlen),
      List.nil_append]
  · intro hcond
    refine ⟨_, ?_, hfiles⟩
    rcases hcond with hnil | ⟨q, hq⟩
    · rw [hnil]
      simp [staleBytes, roomFor]
    · refine ⟨q, ?_⟩
      rw [List.append_assoc, hq, List.take_append_drop]

end OutOfMemory

/-- Data that does not fit in `filesIo`, and in which the bytes of the last free block come next. -/
def staleData : List UInt8 := List.replicate 1420 66 ++ staleBytes filesIo [4, 5, 6] ++ [1, 2, 3]

/-- Writing to the file "A" of an image with three free blocks: the file gets the bytes of the last free
    block, which are or are not the ones of the data. -/
theorem diskWriteFile_outOfMemory_files :
    (∃ self' block' c, diskWriteFile 7 ⟨filesIo, ⟨fun _ => 0⟩⟩ 3 staleData =
        some (self', block', .outOfMemory) ∧ twoFiles.lookup [65] = some c ∧
      ∃ p, p <+: staleData ∧ Represents self'.io (twoFiles.insert [65] (c ++ p))) ∧
    ∃ self' block' c, diskWriteFile 7 ⟨filesIo, ⟨fun _ => 0⟩⟩ 3 (List.replicate 2000 66) =
        some (self', block', .outOfMemory) ∧ twoFiles.lookup [65] = some c ∧
      ¬ ∃ p, p <+: List.replicate 2000 66 ∧ Represents self'.io (twoFiles.insert [65] (c ++ p)) := by
  have hfree : FreeList filesIo [4, 5, 6] := ⟨_, filesIo_describes⟩
  have hlast : LastBlockOf filesIo [65] 3 :=
    ⟨_, filesIo_describes, ⟨[65], 1, [3]⟩, List.mem_pair.mpr (.inl rfl), rfl, rfl⟩
  have hroom : roomFor (blockSize (filesIo.blocks 3)) [4, 5, 6] = 1420 := by decide +kernel
  have hrun : ∀ src ∈ [staleData, List.replicate 2000 66], ∃ self' block',
      diskWriteFile 7 ⟨filesIo, ⟨fun _ => 0⟩⟩ 3 src = some (self', block', .outOfMemory) := by
    have hstatus : ∀ src ∈ [staleData, List.replicate 2000 66],
        (diskWriteFile 7 ⟨filesIo, ⟨fun _ => 0⟩⟩ 3 src).map (·.2.2) = some .outOfMemory := by
      decide +kernel
    intro src hsrc
    obtain ⟨⟨self', block', status⟩, heq, hstatus⟩ := Option.map_eq_some_iff.mp (hstatus src hsrc)
    obtain rfl : status = .outOfMemory := hstatus
    exact ⟨self', block', heq⟩
  obtain ⟨c, hc, -⟩ := twoFiles_lookup
  constructor
  · obtain ⟨self', block', heq⟩ := hrun staleData List.mem_cons_self
    refine ⟨self', block', c, heq, hc, ?_⟩
    apply (diskWriteFile_outOfMemory_iff filesIo_represents rfl hfree hlast hc heq).mpr
    refine .inr ⟨[1, 2, 3], ?_⟩
    rw [hroom, staleData, List.append_assoc]
    exact (List.drop_left' List.length_replicate).symm
  · obtain ⟨self', block', heq⟩ := hrun (List.replicate 2000 66) (List.mem_cons_of_mem _ List.mem_cons_self)
    refine ⟨self', block', c, heq, hc, fun hprefix => ?_⟩
    rcases (diskWriteFile_outOfMemory_iff filesIo_represents rfl hfree hlast hc heq).mp hprefix with
      hnil | hstale
    · cases hnil
    · have hne : ¬ staleBytes filesIo [4, 5, 6] <+: (List.replicate 2000 66).drop 1420 := by decide +kernel
      rw [hroom] at hstale
      exact hne hstale

/-- An image with one file, called "A", and one free block. -/
def freeBlockIo : BlockIo where
  numBlocks := 3
  blocks := fun b =>
    if b = 0 then (DiskBlock.setNextBlock ⟨fun _ => 0⟩ 514).setNextFile 1
    else if b = 1 then newFileBlock ⟨fun _ => 0⟩ [65] 0
    else DiskBlock.setNextBlock ⟨fun _ => 0⟩ 512
  readErrors := []
  size_le := by norm_num

/-- The image is well-formed: one file and one free block. -/
theorem freeBlockIo_describes : Describes freeBlockIo ⟨[2], [⟨[65], 1, []⟩]⟩ where
  super_lt := by decide
  free_path := by decide +kernel
  free_end := by decide +kernel
  files_path := by decide +kernel
  files_ok := by
    intro f hf
    obtain rfl : f = ⟨[65], 1, []⟩ := by simpa using hf
    exact {
      chain := by decide +kernel
      name_eq := by decide +kernel
      name_pos := by decide
      name_le := by simp
      name_chars := by simp
      size_ge := by decide +kernel
      size_le := by decide +kernel }
  sorted := by simp
  partition := by decide

/-- The files of this image. -/
def oneFile : Files := Finmap.singleton [65] []

/-- The file is empty. -/
theorem freeBlockIo_represents : Represents freeBlockIo oneFile := by
  refine ⟨_, freeBlockIo_describes, ?_⟩
  have hempty : fileContent freeBlockIo.blocks ⟨[65], 1, []⟩ = [] := by decide +kernel
  rw [imageFiles_cons, hempty]
  rfl

/-- Writing 992 bytes in an image with one free block: 487 bytes fit in the block of the file,
    and 504 null bytes of the free block follow them. -/
theorem not_outOfMemory_prefix :
    ¬ ∀ (io : BlockIo) (buffer : DiskBlock) (m : Files) (name c src : List UInt8)
        (block block' n : Nat) (self' : Disk),
      Represents io m → io.readErrors = [] → LastBlockOf io name block → m.lookup name = some c →
        diskWriteFile n ⟨io, buffer⟩ block src = some (self', block', .outOfMemory) →
        ∃ p, p <+: src ∧ Represents self'.io (m.insert name (c ++ p)) := by
  intro hall
  obtain ⟨⟨self', block', status⟩, hrun, hstatus⟩ : ∃ r,
      diskWriteFile 3 ⟨freeBlockIo, ⟨fun _ => 0⟩⟩ 1 (List.replicate 992 1) = some r ∧
        r.2.2 = .outOfMemory := by
    have : (diskWriteFile 3 ⟨freeBlockIo, ⟨fun _ => 0⟩⟩ 1 (List.replicate 992 1)).map (·.2.2) =
        some .outOfMemory := by decide +kernel
    exact Option.map_eq_some_iff.mp this
  obtain rfl : status = .outOfMemory := hstatus
  have hlast : LastBlockOf freeBlockIo [65] 1 :=
    ⟨_, freeBlockIo_describes, _, List.mem_singleton_self _, rfl, rfl⟩
  obtain ⟨p, hp, hfiles⟩ := hall _ _ _ [65] [] _ _ _ _ _ freeBlockIo_represents rfl hlast
    Finmap.lookup_singleton_eq hrun
  obtain ⟨hfiles', -⟩ := diskWriteFile_outOfMemory freeBlockIo_represents rfl
    ⟨_, freeBlockIo_describes⟩ hlast Finmap.lookup_singleton_eq hrun
  have hunique := WellFormed.existsUnique ⟨_, hfiles.choose_spec.1⟩
  have heq := insert_injective (hunique.unique hfiles hfiles')
  -- the data has no null byte, the stale bytes have
  have hmem : (0 : UInt8) ∈ p := by
    rw [List.nil_append, List.nil_append] at heq
    rw [heq]
    apply List.mem_append_right
    have hstale : staleBytes freeBlockIo [2] = List.replicate 504 0 := by decide +kernel
    rw [hstale]
    exact List.mem_replicate.mpr ⟨by decide, rfl⟩
  exact absurd (List.eq_of_mem_replicate (hp.subset hmem)) (by decide)

end Toys.FileSystem
