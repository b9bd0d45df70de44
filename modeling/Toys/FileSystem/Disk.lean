import Mathlib
import Toys.FileSystem.Block

namespace Toys.FileSystem

open Toys.Lib

/-!
# File system — operations on the disk

The functions of the file system as the kernel (`src/toys/filesystem.toy`) and the image
tools (`tools/toys/filesystem.c`, `tools/maketoysfs.c`) compute them.  All of them go
through the one block buffer of the disk.

A pointer to a variable is an argument for the value before the call and a result for the
value after it; a pair of a byte pointer and a length is a list of bytes.  Each loop takes
a bound on its number of rounds and returns `none` when the bound is reached, so that
"the loop ends" is a statement about every large enough bound.
-/

/-- The status codes of the kernel, `OK` to `INTERNAL_ERROR`. -/
inductive Status
  | ok | invalidArgument | invalidState | notFound | alreadyExists | outOfMemory | internalError
  deriving DecidableEq, Repr

/-- The numeric value of a status. -/
def Status.code : Status → Nat
  | .ok => 0
  | .invalidArgument => 1
  | .invalidState => 2
  | .notFound => 3
  | .alreadyExists => 4
  | .outOfMemory => 5
  | .internalError => 6

/-- The block device, restricted to the file system's own blocks (on the Toys device block
    `b` is sector `16 + b`, in the image built by the tools it starts at byte `512 * b`).
    Its bytes have 64-bit addresses. -/
structure BlockIo where
  numBlocks : Nat
  blocks : Nat → DiskBlock
  /-- Which of the coming reads fail (`true`); reads past the end of the list succeed. -/
  readErrors : List Bool
  size_le : 512 * numBlocks ≤ 2 ^ 64

/-- The sizes of the small devices. -/
theorem two_blocks_le : 512 * 2 ≤ 2 ^ 64 := by norm_num

theorem three_blocks_le : 512 * 3 ≤ 2 ^ 64 := by norm_num

theorem seven_blocks_le : 512 * 7 ≤ 2 ^ 64 := by norm_num

/-- The device after a successful write of block `block`. -/
def BlockIo.set (io : BlockIo) (block : Nat) (bytes : DiskBlock) : BlockIo :=
  { io with blocks := Function.update io.blocks block bytes }

/-- The state of the file system: the device and the block buffer. -/
structure Disk where
  io : BlockIo
  blockBuffer : DiskBlock

/-- The block of the two lists. -/
def SUPER_BLOCK : Nat := 0

/-- The superblock is the block 0, which is the end of the lists, too. -/
@[simp] theorem superBlock_eq : SUPER_BLOCK = 0 := rfl

/-- The block buffer after a failed read: the three header words are cleared. -/
def clearHeader (buffer : DiskBlock) : DiskBlock :=
  ((buffer.setNextBlock 0).setNextFile 0).setNameLength 0

/-- `disk_read_block_buffer`.  Reading outside of the device is one of the errors. -/
def diskReadBlockBuffer (self : Disk) (block : Nat) : Disk :=
  let failed := self.io.readErrors.headD false || decide (self.io.numBlocks ≤ block)
  { io := { self.io with readErrors := self.io.readErrors.tail }
    blockBuffer := if failed then clearHeader self.blockBuffer else self.io.blocks block }

/-- `disk_write_block_buffer`.  A write outside of the device has no effect. -/
def diskWriteBlockBuffer (self : Disk) (block : Nat) : Disk :=
  if block < self.io.numBlocks then
    { self with io := self.io.set block self.blockBuffer }
  else self

/-- Assign to the block buffer. -/
def Disk.setBuffer (self : Disk) (buffer : DiskBlock) : Disk := { self with blockBuffer := buffer }

/-! ### Finding and reading files -/

/-- The loop of `disk_find_file`. -/
def diskFindFileLoop (name : List UInt8) :
    (bound : Nat) → Disk → (file previousFile : Nat) → Option (Disk × Nat × Nat)
  | 0, _, _, _ => none
  | n + 1, self, file, previousFile =>
    if file = 0 then some (self, 0, previousFile)
    else
      let self := diskReadBlockBuffer self file
      match diskCompareFileName self.blockBuffer name with
      | .equal => some (self, file, previousFile)
      | .greater => some (self, 0, previousFile)
      | .smaller => diskFindFileLoop name n self self.blockBuffer.nextFile file

/-- `disk_find_file`: the first block of the file called `name`, or 0, and the variable
    `*previous_file`. -/
def diskFindFile (bound : Nat) (self : Disk) (name : List UInt8) (previousFile : Nat) :
    Option (Disk × Nat × Nat) :=
  let self := diskReadBlockBuffer self SUPER_BLOCK
  diskFindFileLoop name bound self self.blockBuffer.nextFile previousFile

/-- The loop of `disk_get_file_size`. -/
def diskGetFileSizeLoop :
    (bound : Nat) → Disk → (fileSize headerSize : Nat) → Option (Disk × Nat)
  | 0, _, _, _ => none
  | n + 1, self, fileSize, headerSize =>
    if blockGetNext self.blockBuffer = 0 then
      some (self, U64.sub (U64.add fileSize (blockSize self.blockBuffer)) headerSize)
    else
      diskGetFileSizeLoop n (diskReadBlockBuffer self (blockGetNext self.blockBuffer))
        (U64.sub (U64.add fileSize 512) headerSize) 8

/-- `disk_get_file_size`. -/
def diskGetFileSize (bound : Nat) (self : Disk) (file : Nat) : Option (Disk × Nat) :=
  let self := diskReadBlockBuffer self file
  diskGetFileSizeLoop bound self 0 (U64.add 24 self.blockBuffer.nameLength)

/-- What `disk_read_file` leaves behind: the variables `*block` and `*offset`, the bytes
    copied to `dst`, and the number of bytes that could not be read. -/
structure ReadResult where
  block : Nat
  offset : Nat
  data : List UInt8
  missing : Nat

/-- `disk_read_file`, its loop; `data` is what was copied to the destination so far. -/
def diskReadFileLoop :
    (bound : Nat) → Disk → (block offset : Nat) → (data : List UInt8) → (size : Nat) →
      Option (Disk × ReadResult)
  | 0, _, _, _, _, _ => none
  | n + 1, self, block, offset, data, size =>
    let self := diskReadBlockBuffer self block
    let available :=
      if blockGetNext self.blockBuffer = 0 then U64.sub (blockSize self.blockBuffer) offset
      else U64.sub 512 offset
    if available ≥ size then
      some (self, ⟨block, U64.add offset size, data ++ self.blockBuffer.read offset size, 0⟩)
    else
      let data := data ++ self.blockBuffer.read offset available
      if blockGetNext self.blockBuffer = 0 then some (self, ⟨block, offset, data, size - available⟩)
      else diskReadFileLoop n self (blockGetNext self.blockBuffer) 8 data (size - available)

/-- `disk_read_file`. -/
def diskReadFile (bound : Nat) (self : Disk) (block offset size : Nat) :
    Option (Disk × ReadResult) :=
  diskReadFileLoop bound self block offset [] size

/-! ### Creating and writing files -/

/-- The loop of `disk_create_file`: where the new file goes in the list, or
    `ALREADY_EXISTS`. -/
def diskCreateFileLoop (name : List UInt8) :
    (bound : Nat) → Disk → (file previousFile : Nat) → Option (Disk × Except Status (Nat × Nat))
  | 0, _, _, _ => none
  | n + 1, self, file, previousFile =>
    if file = 0 then some (self, .ok (file, previousFile))
    else
      let self := diskReadBlockBuffer self file
      match diskCompareFileName self.blockBuffer name with
      | .equal => some (self, .error .alreadyExists)
      | .greater => some (self, .ok (file, previousFile))
      | .smaller => diskCreateFileLoop name n self self.blockBuffer.nextFile file

/-- The part of `disk_create_file` after its loop: link `newFile` between `previousFile` and
    `file`, write its header and take it out of the free list. -/
def diskInsertFile (self : Disk) (name : List UInt8) (newFile newFirstFile file previousFile : Nat) :
    Disk :=
  let self :=
    if previousFile ≠ 0 then
      let self := diskReadBlockBuffer self previousFile
      let self := self.setBuffer (self.blockBuffer.setNextFile newFile)
      diskWriteBlockBuffer self previousFile
    else self
  let newFirstFile := if previousFile ≠ 0 then newFirstFile else newFile
  let self := diskReadBlockBuffer self newFile
  let newFirstFreeBlock := blockGetNext self.blockBuffer
  let self := self.setBuffer (setBlockSize self.blockBuffer (U64.add 24 name.length))
  let self := self.setBuffer (self.blockBuffer.setNextFile file)
  let self := self.setBuffer (self.blockBuffer.setNameLength name.length)
  let self := self.setBuffer (self.blockBuffer.write 24 name)
  let self := diskWriteBlockBuffer self newFile
  let self := diskReadBlockBuffer self SUPER_BLOCK
  let self := self.setBuffer (self.blockBuffer.setNextFile newFirstFile)
  let self := self.setBuffer (blockSetNext self.blockBuffer newFirstFreeBlock)
  diskWriteBlockBuffer self SUPER_BLOCK

/-- `disk_create_file`: the first block of the new file, or the error. -/
def diskCreateFile (bound : Nat) (self : Disk) (name : List UInt8) :
    Option (Disk × Except Status Nat) :=
  if name.length = 0 ∨ name.length > 488 then some (self, .error .invalidArgument)
  else if name.any fun c => c ≤ 32 || c ≥ 127 then some (self, .error .invalidArgument)
  else
    let self := diskReadBlockBuffer self SUPER_BLOCK
    let newFile := blockGetNext self.blockBuffer
    if newFile = 0 then some (self, .error .outOfMemory)
    else
      let newFirstFile := self.blockBuffer.nextFile
      match diskCreateFileLoop name bound self self.blockBuffer.nextFile 0 with
      | none => none
      | some (self, .error status) => some (self, .error status)
      | some (self, .ok (file, previousFile)) =>
        some (diskInsertFile self name newFile newFirstFile file previousFile, .ok newFile)

/-- The loop of `disk_write_file`: the variables `*block` and `new_first_free_block` and the
    result when it ends. -/
def diskWriteFileLoop :
    (bound : Nat) → Disk → (block newFirstFreeBlock used free : Nat) → (src : List UInt8) →
      Option (Disk × Nat × Nat × Status)
  | 0, _, _, _, _, _, _ => none
  | n + 1, self, block, newFirstFreeBlock, used, free, src =>
    if src.length ≤ free then
      let self := self.setBuffer (setBlockSize self.blockBuffer (U64.add used src.length))
      let self := self.setBuffer (self.blockBuffer.write used src)
      some (diskWriteBlockBuffer self block, block, newFirstFreeBlock, .ok)
    else if newFirstFreeBlock = 0 then some (self, block, newFirstFreeBlock, .outOfMemory)
    else
      let self := self.setBuffer (blockSetNext self.blockBuffer newFirstFreeBlock)
      let self := self.setBuffer (self.blockBuffer.write used (src.take free))
      let self := diskWriteBlockBuffer self block
      let block := newFirstFreeBlock
      let self := diskReadBlockBuffer self block
      diskWriteFileLoop n self block (blockGetNext self.blockBuffer) 8 504 (src.drop free)

/-- `disk_write_file`: the variable `*block` and the status. -/
def diskWriteFile (bound : Nat) (self : Disk) (block : Nat) (src : List UInt8) :
    Option (Disk × Nat × Status) :=
  let self := diskReadBlockBuffer self SUPER_BLOCK
  let oldFirstFreeBlock := blockGetNext self.blockBuffer
  let self := diskReadBlockBuffer self block
  let used := blockSize self.blockBuffer
  match diskWriteFileLoop bound self block oldFirstFreeBlock used (U64.sub 512 used) src with
  | none => none
  | some (self, block, newFirstFreeBlock, status) =>
    if newFirstFreeBlock ≠ oldFirstFreeBlock then
      let self := diskReadBlockBuffer self SUPER_BLOCK
      let self := self.setBuffer (blockSetNext self.blockBuffer newFirstFreeBlock)
      some (diskWriteBlockBuffer self SUPER_BLOCK, block, status)
    else some (self, block, status)

/-! ### Clearing and deleting files -/

/-- The loop of `disk_delete_file_blocks`: the last block of the chain, left in the buffer. -/
def diskLastBlockLoop : (bound : Nat) → Disk → (lastBlock : Nat) → Option (Disk × Nat)
  | 0, _, _ => none
  | n + 1, self, lastBlock =>
    if blockGetNext self.blockBuffer ≠ 0 then
      let lastBlock := blockGetNext self.blockBuffer
      diskLastBlockLoop n (diskReadBlockBuffer self lastBlock) lastBlock
    else some (self, lastBlock)

/-- `disk_delete_file_blocks`: put the free list after the chain of `block`. -/
def diskDeleteFileBlocks (bound : Nat) (self : Disk) (block : Nat) : Option Disk :=
  let self := diskReadBlockBuffer self SUPER_BLOCK
  let firstFreeBlock := blockGetNext self.blockBuffer
  match diskLastBlockLoop bound (diskReadBlockBuffer self block) block with
  | none => none
  | some (self, lastBlock) =>
    let self := self.setBuffer (blockSetNext self.blockBuffer firstFreeBlock)
    some (diskWriteBlockBuffer self lastBlock)

/-- `disk_clear_file`. -/
def diskClearFile (bound : Nat) (self : Disk) (file : Nat) : Option Disk :=
  let self := diskReadBlockBuffer self file
  let newFirstFreeBlock := blockGetNext self.blockBuffer
  let cleared :=
    if newFirstFreeBlock ≠ 0 then
      match diskDeleteFileBlocks bound self newFirstFreeBlock with
      | none => none
      | some self =>
        let self := diskReadBlockBuffer self SUPER_BLOCK
        let self := self.setBuffer (blockSetNext self.blockBuffer newFirstFreeBlock)
        some (diskWriteBlockBuffer self SUPER_BLOCK)
    else some self
  match cleared with
  | none => none
  | some self =>
    let self := diskReadBlockBuffer self file
    let self := self.setBuffer
      (setBlockSize self.blockBuffer (U64.add 24 self.blockBuffer.nameLength))
    some (diskWriteBlockBuffer self file)

/-- `disk_delete_file`. -/
def diskDeleteFile (bound : Nat) (self : Disk) (file previousFile : Nat) : Option Disk :=
  let self := diskReadBlockBuffer self file
  let nextFile := self.blockBuffer.nextFile
  let self := diskReadBlockBuffer self SUPER_BLOCK
  let newFirstFile := self.blockBuffer.nextFile
  match diskDeleteFileBlocks bound self file with
  | none => none
  | some self =>
    let self :=
      if previousFile ≠ 0 then
        let self := diskReadBlockBuffer self previousFile
        let self := self.setBuffer (self.blockBuffer.setNextFile nextFile)
        diskWriteBlockBuffer self previousFile
      else self
    let newFirstFile := if previousFile ≠ 0 then newFirstFile else nextFile
    let self := diskReadBlockBuffer self SUPER_BLOCK
    let self := self.setBuffer (blockSetNext self.blockBuffer file)
    let self := self.setBuffer (self.blockBuffer.setNextFile newFirstFile)
    some (diskWriteBlockBuffer self SUPER_BLOCK)

/-! ### Formatting -/

/-- One round of the loop of `disk_format`. -/
def diskFormatBlock (numBlocks : Nat) (self : Disk) (i : Nat) : Disk :=
  let self := diskReadBlockBuffer self i
  let self := self.setBuffer (blockSetNext self.blockBuffer ((i + 1) % numBlocks))
  diskWriteBlockBuffer self i

/-- `disk_format` of `tools/maketoysfs.c`: a free list of all the blocks. -/
def diskFormat (self : Disk) (numBlocks : Nat) : Disk :=
  let self := diskReadBlockBuffer self SUPER_BLOCK
  let self := self.setBuffer (blockSetNext self.blockBuffer (SUPER_BLOCK + 1))
  let self := self.setBuffer (self.blockBuffer.setNextFile 0)
  let self := diskWriteBlockBuffer self SUPER_BLOCK
  (List.range' 1 (numBlocks - 1)).foldl (diskFormatBlock numBlocks) self

end Toys.FileSystem
