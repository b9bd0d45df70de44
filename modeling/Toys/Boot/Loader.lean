import Mathlib
import Toys.FileSystem.Refinement

namespace Toys.Boot

open Toys.Lib Toys.FileSystem

/-!
# Boot loader — loading the kernel

The boot loader looks for the file `bin/toys` and reads its blocks in memory, each one 504 bytes
after the previous one.  The 8 bytes of the header of a block thus overwrite the end of the data
of the previous block; they are saved before, and restored after.

* `main` — the function of the source;
* `findKernelLoop_spec` — the first block of the kernel is found;
* `loadKernelLoop_spec` — the content of a chain of blocks is contiguous in memory;
* `main_loads` — the kernel is loaded as `disk_read_file` would read it.

A loop that does not end within `bound` iterations gives `none`.
-/

/-! ### The function -/

/-- What the calls of the firmware return: whether the protocols are found, the memory pages, and
    the sectors of the disk. -/
structure Firmware where
  openLoadedImage : Bool
  openDevicePath : Bool
  locateBlockIo : Bool
  openBlockIo : Bool
  allocatePages : Option Nat
  readBlocks : Nat → Option DiskBlock

/-- Where `main` ends: in the kernel, with the arguments of `run`, or in the loop of `error`. -/
inductive BootResult
  | run (memory : ByteMem) (code heap numPages : Nat)
  | error (code : Char)

/-- The number of pages that the boot loader asks the firmware for. -/
def NUM_PAGES : Nat := 48

/-- The first sector of the file system on the disk of the firmware. -/
def FIRST_LOGICAL_BLOCK_ADDRESS : Nat := 16

/-- The static data `KERNEL_NAME`: "bin/toys". -/
def kernelName : List UInt8 := [98, 105, 110, 47, 116, 111, 121, 115]

/-- `*KERNEL_NAME`. -/
def kernelNameWord : Nat := ByteMem.load (ByteMem.copyIn (fun _ => 0) 0 kernelName) 8 0

/-- `sizeof(DiskBlock)`: the fields `next_block`, `next_file`, `name_length` and `name`. -/
def SIZEOF_DISK_BLOCK : Nat := 32

/-- A sector is read at the address `dst`. -/
def readSector (m : ByteMem) (dst : Nat) (sector : DiskBlock) : ByteMem :=
  m.copyIn dst (sector.read 0 512)

/-- The loop of `main` that looks for the kernel: the variable `block`. -/
def findKernelLoop (fw : Firmware) (ptr : Nat) :
    (bound : Nat) → ByteMem → (block : Nat) → Option (Except Char ByteMem)
  | 0, _, _ => none
  | bound + 1, m, block =>
    match fw.readBlocks (U64.add block FIRST_LOGICAL_BLOCK_ADDRESS) with
    | none => some (.error '6')
    | some sector =>
      let m := readSector m ptr sector
      if m.load 8 (ptr + 16) = 8 ∧ m.load 8 (ptr + 24) = kernelNameWord then some (.ok m)
      else findKernelLoop fw ptr bound m (m.load 8 (ptr + 8))

/-- The loop of `main` that loads the kernel: the variables `disk_block` and `block`. -/
def loadKernelLoop (fw : Firmware) :
    (bound : Nat) → ByteMem → (diskBlock block : Nat) → Option (Except Char (ByteMem × Nat × Nat))
  | 0, _, _, _ => none
  | bound + 1, m, diskBlock, block =>
    if block > 512 then
      let diskBlock := U64.add diskBlock 504
      let backup := m.load 8 diskBlock
      match fw.readBlocks (U64.add (U64.sub block 512) FIRST_LOGICAL_BLOCK_ADDRESS) with
      | none => some (.error '7')
      | some sector =>
        let m := readSector m diskBlock sector
        let block := m.load 8 diskBlock
        loadKernelLoop fw bound (m.store 8 diskBlock backup) diskBlock block
    else some (.ok (m, diskBlock, block))

/-- `main`. -/
def main (bound : Nat) (fw : Firmware) (m : ByteMem) : Option BootResult :=
  if ¬ fw.openLoadedImage then some (.error '1')
  else if ¬ fw.openDevicePath then some (.error '2')
  else if ¬ fw.locateBlockIo then some (.error '3')
  else if ¬ fw.openBlockIo then some (.error '4')
  else
    match fw.allocatePages with
    | none => some (.error '5')
    | some ptr =>
      match findKernelLoop fw ptr bound m SUPER_BLOCK with
      | none => none
      | some (.error code) => some (.error code)
      | some (.ok m) =>
        match loadKernelLoop fw bound m ptr (m.load 8 ptr) with
        | none => none
        | some (.error code) => some (.error code)
        | some (.ok (m, diskBlock, block)) =>
          some (.run m (U64.add ptr SIZEOF_DISK_BLOCK) (U64.add diskBlock block) NUM_PAGES)

/-! ### Sectors in memory -/

variable {io : BlockIo} {fw : Firmware} {m m' : ByteMem} {sector : DiskBlock} {L : Layout}
  {f : FileLayout} {fs pre post : List FileLayout} {rest : List Nat}
  {ptr dst off n b d headerSize bound : Nat}

/-- A sector is at its destination once it is read. -/
theorem readSector_apply {i : Nat} (hi : i < 512) : readSector m dst sector (dst + i) = sector.mem i := by
  rw [readSector, ByteMem.copyIn, DiskBlock.read_length, if_pos (by omega), Nat.add_sub_cancel_left,
    List.getD_eq_getElem _ _ (by simpa using hi)]
  simp [DiskBlock.read, ByteMem.slice]

/-- Reading a sector keeps the rest of the memory. -/
theorem readSector_of_not_mem {a : Nat} (h : a < dst ∨ dst + 512 ≤ a) :
    readSector m dst sector a = m a := by
  apply ByteMem.copyIn_of_not_mem
  rwa [DiskBlock.read_length]

/-- A word that was copied to another place has the same value there. -/
theorem load_shift {k : Nat} (h : ∀ i, off ≤ i → i < off + k → m (dst + i) = m' i) :
    m.load k (dst + off) = m'.load k off := by
  induction k generalizing off with
  | zero => rfl
  | succ k ih =>
    rw [ByteMem.load, ByteMem.load, h off (le_refl _) (by omega), Nat.add_assoc,
      ih fun i h1 h2 => h i (by omega) (by omega)]

/-- Bytes that were copied to another place are the same there. -/
theorem slice_shift {k : Nat} (h : ∀ i, off ≤ i → i < off + k → m (dst + i) = m' i) :
    m.slice (dst + off) k = m'.slice off k := by
  refine List.map_congr_left fun i hi => ?_
  rw [Nat.add_assoc]
  exact h _ (by omega) (by have := List.mem_range.mp hi; omega)

/-- The words and the bytes of a sector that was read. -/
theorem load_readSector (h : off + 8 ≤ 512) :
    (readSector m dst sector).load 8 (dst + off) = sector.word off :=
  load_shift fun _ _ h2 => readSector_apply (by omega)

/-- Two words with the same value have the same bytes. -/
theorem slice_eq_of_load_eq {a a' : Nat} (h : m.load 8 a = m'.load 8 a') :
    m.slice a 8 = m'.slice a' 8 := by
  refine List.map_congr_left fun k hk => ?_
  have hlt := List.mem_range.mp hk
  apply UInt8.toNat.inj
  rw [← ByteMem.load_div_mod hlt, ← ByteMem.load_div_mod hlt, h]

/-- The word after the header of a block is the name of the kernel exactly when the bytes are. -/
theorem word_eq_kernelNameWord : sector.word 24 = kernelNameWord ↔ sector.read 24 8 = kernelName := by
  constructor
  · intro h
    exact slice_eq_of_load_eq (h : sector.mem.load 8 24 = (ByteMem.copyIn (fun _ => 0) 0 kernelName).load 8 0)
  · intro h
    have hbyte : ∀ i, 24 ≤ i → i < 24 + 8 →
        sector.mem i = ByteMem.copyIn (fun _ => 0) 24 kernelName i := by
      intro i h1 h2
      have hi := List.getElem_of_eq h (i := i - 24) (by simp; omega)
      simp only [DiskBlock.read, ByteMem.slice, List.getElem_map, List.getElem_range] at hi
      rw [show 24 + (i - 24) = i by omega] at hi
      rw [hi, ByteMem.copyIn, if_pos ⟨h1, h2⟩, List.getD_eq_getElem]
    exact (ByteMem.load_congr hbyte).trans (by decide)

/-! ### Finding the kernel -/

/-- The sectors of the disk hold the blocks of the file system, and reading them succeeds. -/
def Firmware.Reads (fw : Firmware) (io : BlockIo) : Prop :=
  ∀ b < io.numBlocks, fw.readBlocks (FIRST_LOGICAL_BLOCK_ADDRESS + b) = some (io.blocks b)

/-- The firmware reads a block of the file system at its logical address. -/
theorem Firmware.Reads.read (h : fw.Reads io) (hb : b < io.numBlocks) :
    fw.readBlocks (U64.add b FIRST_LOGICAL_BLOCK_ADDRESS) = some (io.blocks b) := by
  have hlt := io.add_lt hb
  rw [U64.add_eq (by unfold FIRST_LOGICAL_BLOCK_ADDRESS; omega), Nat.add_comm]
  exact h b hb

/-- The blocks from which the search goes on. -/
def IsKernel (sector : DiskBlock) : Prop := sector.nameLength = 8 ∧ sector.word 24 = kernelNameWord

/-- The boot loader recognizes the kernel by its name. -/
theorem FileOk.isKernel_iff (h : FileOk io.blocks f) : IsKernel (io.blocks f.first) ↔ f.name = kernelName := by
  have hname := h.name_eq
  have hlength := h.nameLength_eq
  rw [IsKernel, word_eq_kernelNameWord]
  constructor
  · rintro ⟨h8, hread⟩
    rw [← hname, DiskBlock.fileName, h8, hread]
  · intro heq
    rw [heq] at hname hlength
    have h8 : (io.blocks f.first).nameLength = 8 := hlength
    rw [DiskBlock.fileName, h8] at hname
    exact ⟨h8, hname⟩

/-- The memory when the first block of the kernel was found. -/
structure Found (m : ByteMem) (ptr : Nat) (sector : DiskBlock) (m' : ByteMem) : Prop where
  byte : ∀ i < 512, m' (ptr + i) = sector.mem i
  frame : ∀ a, (a < ptr ∨ ptr + 512 ≤ a) → m' a = m a

/-- The search goes along the list of the files. -/
theorem findKernelLoop_spec (hreads : fw.Reads io) (hb : b < io.numBlocks)
    (hpath : Path 0 (nextFileOf io.blocks) (nextFileOf io.blocks b) ((pre ++ f :: post).map (·.first)) 0)
    (hlt : ∀ g ∈ pre ++ f :: post, g.first < io.numBlocks) (hstart : ¬ IsKernel (io.blocks b))
    (hpre : ∀ g ∈ pre, ¬ IsKernel (io.blocks g.first)) (hf : IsKernel (io.blocks f.first))
    (hbound : pre.length + 1 < bound) :
    ∃ m', findKernelLoop fw ptr bound m b = some (.ok m') ∧ Found m ptr (io.blocks f.first) m' := by
  induction pre generalizing b bound m with
  | nil =>
    obtain ⟨bound, rfl⟩ : ∃ k, bound = k + 2 := ⟨bound - 2, by simp at hbound; omega⟩
    obtain ⟨hnext, -, -⟩ := hpath
    have hfirst := hreads.read (hlt f (by simp))
    have hnot : ¬ ((io.blocks b).word 16 = 8 ∧ (io.blocks b).word 24 = kernelNameWord) := hstart
    have hyes : (io.blocks f.first).word 16 = 8 ∧ (io.blocks f.first).word 24 = kernelNameWord := hf
    have hword : (io.blocks b).word 8 = f.first := hnext
    simp only [findKernelLoop, hreads.read hb, load_readSector (show 16 + 8 ≤ 512 by decide),
      load_readSector (show 24 + 8 ≤ 512 by decide), load_readSector (show 8 + 8 ≤ 512 by decide), if_neg hnot, hword,
      hfirst, if_pos hyes]
    refine ⟨_, rfl, fun i hi => readSector_apply hi, fun a ha => ?_⟩
    rw [readSector_of_not_mem ha, readSector_of_not_mem ha]
  | cons g pre ih =>
    obtain ⟨bound, rfl⟩ : ∃ k, bound = k + 1 := ⟨bound - 1, by omega⟩
    obtain ⟨hnext, -, hpath⟩ := hpath
    have hnot : ¬ ((io.blocks b).word 16 = 8 ∧ (io.blocks b).word 24 = kernelNameWord) := hstart
    have hword : (io.blocks b).word 8 = g.first := hnext
    obtain ⟨m', heq, hfound⟩ := ih (m := readSector m ptr (io.blocks b))
      (hlt g (by simp)) hpath
      (fun g' hg' => hlt g' (List.mem_cons_of_mem _ hg')) (hpre g List.mem_cons_self)
      (fun g' hg' => hpre g' (List.mem_cons_of_mem _ hg'))
      (show pre.length + 1 < bound by rw [List.length_cons] at hbound; omega)
    simp only [findKernelLoop, hreads.read hb, load_readSector (show 16 + 8 ≤ 512 by decide),
      load_readSector (show 24 + 8 ≤ 512 by decide), load_readSector (show 8 + 8 ≤ 512 by decide), if_neg hnot, hword]
    refine ⟨m', heq, hfound.byte, fun a ha => ?_⟩
    rw [hfound.frame a ha, readSector_of_not_mem ha]

/-! ### Loading the kernel -/

/-- The chain `b :: rest`, whose first block is in memory at the address `d`, is loaded after it.
    The bytes of the first block that were in memory do not change. -/
theorem loadKernelLoop_spec (hreads : fw.Reads io) (h : ChainOk io headerSize b rest)
    (hheader : 8 ≤ headerSize) (hdata : ∀ i, headerSize ≤ i → i < 512 → m (d + i) = (io.blocks b).mem i)
    (hfits : d + 504 * rest.length + 512 ≤ 2 ^ 64) (hbound : rest.length < bound) :
    ∃ m' d' block', loadKernelLoop fw bound m d (io.blocks b).nextBlock = some (.ok (m', d', block')) ∧
      d' = d + 504 * rest.length ∧ block' ≤ 512 ∧ d + headerSize ≤ d' + block' ∧
      m'.slice (d + headerSize) (d' + block' - (d + headerSize)) =
        chainContent io.blocks headerSize (b :: rest) ∧
      ∀ a, (a < d + 512 ∨ d' + 512 ≤ a) → m' a = m a := by
  induction rest generalizing bound m d b headerSize with
  | nil =>
    obtain ⟨bound, rfl⟩ : ∃ k, bound = k + 1 := ⟨bound - 1, by omega⟩
    have hend : blockGetNext (io.blocks b) = 0 := h.path
    have hle : (io.blocks b).nextBlock ≤ 512 := blockGetNext_eq_zero.mp hend
    have hfirst := h.first
    rw [usedSize, if_pos hend] at hfirst
    have hsize : blockSize (io.blocks b) = (io.blocks b).nextBlock := rfl
    rw [loadKernelLoop, if_neg (not_lt.mpr hle)]
    refine ⟨m, d, _, rfl, rfl, hle, by omega, ?_, fun a _ => rfl⟩
    rw [Nat.add_sub_add_left, chainContent, chainContent, List.append_nil, blockContent, usedSize,
      if_pos hend]
    exact slice_shift fun i h1 h2 => hdata i h1 (by omega)
  | cons x rest ih =>
    obtain ⟨bound, rfl⟩ : ∃ k, bound = k + 1 := ⟨bound - 1, by omega⟩
    rw [List.length_cons] at hfits hbound ⊢
    obtain ⟨hnext, hx, -⟩ := h.path
    have hnext : blockGetNext (io.blocks b) = x := hnext
    have hused : usedSize (io.blocks b) = 512 := by rw [usedSize, if_neg (by rw [hnext]; exact hx)]
    have hfirst := h.first
    have hgt : 512 < (io.blocks b).nextBlock := by
      by_contra hle
      exact hx (hnext.symm.trans (blockGetNext_eq_zero.mpr (not_lt.mp hle)))
    have hblock : U64.sub (io.blocks b).nextBlock 512 = x := by
      rw [U64.sub_eq (le_of_lt hgt) (DiskBlock.word_lt _ _), ← hnext, blockGetNext,
        if_neg (not_le.mpr hgt)]
    have hread := hreads.read (h.lt x (by simp))
    rw [loadKernelLoop, if_pos hgt]
    simp only [hblock, hread, U64.add_eq (show d + 504 < 2 ^ 64 by omega)]
    have hword : (readSector m (d + 504) (io.blocks x)).load 8 (d + 504 + 0) = (io.blocks x).nextBlock :=
      load_readSector (by decide)
    rw [Nat.add_zero] at hword
    rw [hword]
    -- the header of the block is overwritten by the end of the data of the previous one
    have hrestored : ∀ a, a < d + 512 → ((readSector m (d + 504) (io.blocks x)).store 8 (d + 504)
        (m.load 8 (d + 504))) a = m a := by
      intro a ha
      by_cases hlow : a < d + 504
      · rw [ByteMem.store_of_not_mem (Or.inl hlow), readSector_of_not_mem (Or.inl hlow)]
      · have hbyte := ByteMem.load_div_mod (m := m) (n := 8) (a := d + 504) (k := a - (d + 504)) (by omega)
        rw [show d + 504 + (a - (d + 504)) = a by omega] at hbyte
        rw [ByteMem.store, if_pos (by omega)]
        apply UInt8.toNat.inj
        rw [← hbyte]
        simp
    have hdata' : ∀ i, 8 ≤ i → i < 512 → ((readSector m (d + 504) (io.blocks x)).store 8 (d + 504)
        (m.load 8 (d + 504))) (d + 504 + i) = (io.blocks x).mem i := by
      intro i h1 h2
      rw [ByteMem.store_of_not_mem (Or.inr (by omega)), readSector_apply h2]
    obtain ⟨m', d', block', heq, rfl, hle, hge, hslice, hframe⟩ :=
      ih h.tail (le_refl 8) hdata' (by omega) (show rest.length < bound by omega)
    refine ⟨m', _, block', heq, by omega, hle, by omega, ?_, fun a ha => ?_⟩
    · -- the data of the block, then those of the other blocks
      have hchain : chainContent io.blocks headerSize (b :: x :: rest) =
          blockContent (io.blocks b) headerSize ++ chainContent io.blocks 8 (x :: rest) := rfl
      have hsplit : d + 504 + 504 * rest.length + block' - (d + headerSize) =
          (512 - headerSize) + (d + 504 + 504 * rest.length + block' - (d + 504 + 8)) := by omega
      rw [hsplit, ByteMem.slice_add, show d + headerSize + (512 - headerSize) = d + 504 + 8 by omega,
        hslice, hchain, blockContent, hused]
      refine congrArg₂ List.append (slice_shift fun i h1 h2 => ?_) rfl
      rw [hframe _ (by omega), hrestored _ (by omega)]
      exact hdata i h1 (by omega)
    · rw [hframe a (by omega)]
      by_cases hlow : a < d + 512
      · exact hrestored a hlow
      · rw [ByteMem.store_of_not_mem (by omega), readSector_of_not_mem (by omega)]

/-! ### The boot loader -/

/-- The disk is well-formed, and has a file of `n` blocks. -/
def NumBlocks (io : BlockIo) (name : List UInt8) (n : Nat) : Prop :=
  ∃ L, Describes io L ∧ ∃ f ∈ L.files, f.name = name ∧ f.blocks.length = n

/-- All the calls of the firmware succeed, and the pages are at the address `ptr`. -/
structure Firmware.Succeeds (fw : Firmware) (io : BlockIo) (ptr : Nat) : Prop where
  openLoadedImage : fw.openLoadedImage = true
  openDevicePath : fw.openDevicePath = true
  locateBlockIo : fw.locateBlockIo = true
  openBlockIo : fw.openBlockIo = true
  allocatePages : fw.allocatePages = some ptr
  reads : fw.Reads io

/-- The kernel is in memory from the address `ptr + 32` to the address `heap`, and the memory outside
    of the pages is as it was. -/
structure Loaded (io : BlockIo) (m : ByteMem) (ptr heap : Nat) (m' : ByteMem) : Prop where
  code_le : ptr + SIZEOF_DISK_BLOCK ≤ heap
  heap_le : heap ≤ ptr + NUM_PAGES * 4096
  content : ∀ files c, Represents io files → files.lookup kernelName = some c →
    m'.slice (ptr + SIZEOF_DISK_BLOCK) (heap - (ptr + SIZEOF_DISK_BLOCK)) = c
  read : ∀ buffer file, FirstBlock io kernelName file → ∃ self' r,
    (∀ n ≥ io.numBlocks, diskReadFile n ⟨io, buffer⟩ file (24 + kernelName.length)
      (heap - (ptr + SIZEOF_DISK_BLOCK)) = some (self', r)) ∧ r.missing = 0 ∧
    r.data = m'.slice (ptr + SIZEOF_DISK_BLOCK) (heap - (ptr + SIZEOF_DISK_BLOCK))
  frame : ∀ a, (a < ptr ∨ ptr + NUM_PAGES * 4096 ≤ a) → m' a = m a

/-- The boot loader runs the kernel that it has loaded, if its blocks fit in the pages. -/
theorem main_loads {n : Nat} (hr : io.readErrors = [])
    (hsuper : (io.blocks SUPER_BLOCK).nameLength ≠ 8) (hfile : NumBlocks io kernelName n)
    (hfw : fw.Succeeds io ptr) (hpages : ptr + NUM_PAGES * 4096 ≤ 2 ^ 64 - 1)
    (hfits : 504 * (n - 1) + 512 ≤ NUM_PAGES * 4096) :
    ∃ N, ∀ bound ≥ N, ∃ m' heap,
      main bound fw m = some (.run m' (ptr + SIZEOF_DISK_BLOCK) heap NUM_PAGES) ∧
        Loaded io m ptr heap m' := by
  obtain ⟨L, h, f, hf, hname, rfl⟩ := hfile
  unfold NUM_PAGES at hpages hfits
  rw [FileLayout.blocks, List.length_cons, Nat.add_sub_cancel] at hfits
  obtain ⟨pre, post, hsplit⟩ := List.append_of_mem hf
  -- the files before the kernel have another name
  have hpre : ∀ g ∈ pre, ¬ IsKernel (io.blocks g.first) := by
    intro g hg hkernel
    have hgL : g ∈ L.files := hsplit ▸ List.mem_append_left _ hg
    have hgname := (FileOk.isKernel_iff (h.files_ok g hgL)).mp hkernel
    have hnames := h.namesNodup
    rw [NamesNodup, hsplit] at hnames
    simp only [List.map_append, List.map_cons, List.nodup_append] at hnames
    exact hnames.2.2 _ (List.mem_map_of_mem hg) _ List.mem_cons_self (hgname.trans hname.symm)
  refine ⟨pre.length + f.rest.length + 2, fun bound hbound => ?_⟩
  have hpath := h.files_path
  rw [hsplit] at hpath
  obtain ⟨m₁, hfind, hfound⟩ : ∃ m₁, findKernelLoop fw ptr bound m SUPER_BLOCK = some (.ok m₁) ∧
      Found m ptr (io.blocks f.first) m₁ := findKernelLoop_spec hfw.reads h.super_lt hpath
    (fun g hg => (h.first_lt (hsplit ▸ hg)).2) (fun hkernel => hsuper hkernel.1) hpre
    ((FileOk.isKernel_iff (h.files_ok f hf)).mpr hname) (show pre.length + 1 < bound by omega)
  have hnext : m₁.load 8 ptr = (io.blocks f.first).nextBlock :=
    load_shift fun i (_ : 0 ≤ i) hi => hfound.byte i (by omega)
  have hlength : f.name.length = 8 := by rw [hname]; rfl
  obtain ⟨m₂, d', block', hload, rfl, hle, hge, hslice, hframe⟩ := loadKernelLoop_spec (m := m₁) (d := ptr)
    hfw.reads (h.chainOk hf) (by omega) (fun i _ hi => hfound.byte i hi) (by omega)
    (show f.rest.length < bound by omega)
  rw [hlength] at hge hslice
  have hcontent : m₂.slice (ptr + SIZEOF_DISK_BLOCK)
      (ptr + 504 * f.rest.length + block' - (ptr + SIZEOF_DISK_BLOCK)) = fileContent io.blocks f := by
    unfold SIZEOF_DISK_BLOCK
    rw [fileContent, hlength]
    exact hslice
  have hsize : (fileContent io.blocks f).length =
      ptr + 504 * f.rest.length + block' - (ptr + SIZEOF_DISK_BLOCK) := by
    rw [← hcontent, ByteMem.slice_length]
  refine ⟨m₂, ptr + 504 * f.rest.length + block', ?_, ?_, ?_, fun files c hfiles hc => ?_,
    fun buffer file hfile => ?_, fun a ha => ?_⟩
  · simp only [main, hfw.openLoadedImage, hfw.openDevicePath, hfw.locateBlockIo, hfw.openBlockIo,
      hfw.allocatePages, hfind, hnext, hload, not_true_eq_false, if_false]
    rw [U64.add_eq (show ptr + SIZEOF_DISK_BLOCK < 2 ^ 64 by unfold SIZEOF_DISK_BLOCK; omega),
      U64.add_eq (by omega)]
  · exact hge
  · unfold NUM_PAGES
    omega
  · obtain ⟨L', h', rfl⟩ := hfiles
    obtain rfl := h.unique h'
    rw [← hname, lookup_imageFiles h.namesNodup hf, Option.some_inj] at hc
    rw [hcontent, hc]
  · have hlookup : (imageFiles io.blocks L.files).lookup kernelName = some (fileContent io.blocks f) := by
      rw [← hname]
      exact lookup_imageFiles h.namesNodup hf
    obtain ⟨buffer', r, heq, hdata, hmissing⟩ : ∃ buffer' r,
        diskReadFile io.numBlocks ⟨io, buffer⟩ file (24 + kernelName.length)
          (fileContent io.blocks f).length = some (⟨io, buffer'⟩, r) ∧
        r.data = fileContent io.blocks f ∧ r.missing = 0 :=
      diskReadFile_refines ⟨L, h, rfl⟩ hr hfile hlookup (le_refl io.numBlocks)
    rw [hsize] at heq
    exact ⟨_, r, fun k hk => diskReadFile_mono heq hk, hmissing, hdata.trans hcontent.symm⟩
  · unfold NUM_PAGES at ha
    rw [hframe a (by omega), hfound.frame a (by omega)]

/-! ### A small disk -/

/-- A disk with two files: `a`, in the blocks 1 and 3, and the kernel, in the blocks 2, 4 and 5.  The
    data of the kernel fill the blocks 2 and 4, and the first three bytes of the block 5; the block 6
    is free. -/
def kernelDisk : BlockIo where
  numBlocks := 7
  blocks := fun b =>
    if b = 0 then (DiskBlock.setNextBlock ⟨fun _ => 0⟩ 518).setNextFile 1
    else if b = 1 then (newFileBlock (dataBlock 1) [97] 2).setNextBlock 515
    else if b = 2 then (newFileBlock (dataBlock 2) kernelName 0).setNextBlock 516
    else if b = 3 then (dataBlock 3).setNextBlock 100
    else if b = 4 then (dataBlock 4).setNextBlock 517
    else if b = 5 then (dataBlock 5).setNextBlock 11
    else (dataBlock 6).setNextBlock 512
  readErrors := []
  size_le := seven_blocks_le

/-- The kernel on this disk. -/
def kernelFile : FileLayout := ⟨kernelName, 2, [4, 5]⟩

/-- The layout of this disk. -/
def kernelLayout : Layout := ⟨[6], [⟨[97], 1, [3]⟩, kernelFile]⟩

/-- The disk is well-formed. -/
theorem kernelDisk_describes : Describes kernelDisk kernelLayout where
  super_lt := by decide
  free_path := by decide +kernel
  free_end := by decide +kernel
  files_path := by decide +kernel
  files_ok := by
    intro f hf
    rcases List.mem_pair.mp hf with rfl | rfl
    · exact {
        chain := by decide +kernel
        name_eq := by decide +kernel
        name_pos := by decide
        name_le := by simp
        name_chars := by simp
        size_ge := by decide +kernel
        size_le := by decide +kernel }
    · exact {
        chain := by decide +kernel
        name_eq := by decide +kernel
        name_pos := by decide
        name_le := by decide
        name_chars := by simp [kernelFile, kernelName]
        size_ge := by decide +kernel
        size_le := by decide +kernel }
  sorted := by decide +kernel
  partition := by decide +kernel

/-- The firmware of a computer with this disk, whose pages are at the address 4096. -/
def kernelFirmware : Firmware :=
  ⟨true, true, true, true, some 4096, fun sector => some (kernelDisk.blocks (sector - 16))⟩

/-- The 987 bytes of the kernel are loaded from its three blocks, which are not contiguous. -/
theorem main_loads_kernelDisk :
    (fileContent kernelDisk.blocks kernelFile).length = 480 + 504 + 3 ∧
      ∃ N, ∀ bound ≥ N, ∃ m' heap,
        main bound kernelFirmware (fun _ => 0) = some (.run m' (4096 + SIZEOF_DISK_BLOCK) heap NUM_PAGES) ∧
          Loaded kernelDisk (fun _ => 0) 4096 heap m' :=
  ⟨by decide +kernel, main_loads rfl (by decide +kernel)
    ⟨_, kernelDisk_describes, kernelFile, List.mem_pair.mpr (.inr rfl), rfl, rfl⟩
    ⟨rfl, rfl, rfl, rfl, rfl, fun b _ => congrArg (fun i => some (kernelDisk.blocks i))
      (Nat.add_sub_cancel_left 16 b)⟩ (by decide) (by decide)⟩

end Toys.Boot
