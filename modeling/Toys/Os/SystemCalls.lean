import Mathlib
import Toys.Os.Processes

namespace Toys.Os

open Toys.Lib Toys.FileSystem

/-!
# Kernel — system calls

The functions of `src/toys/systemcalls.toy`.  What the keyboard delivers is an argument of
the calls that wait for it; the screen is not modelled, and writing to it has no effect on
the kernel.
-/

/-! ### Streams -/

/-- The stream of the standard input. -/
def STANDARD_INPUT : Nat := 0

/-- The stream of the standard output. -/
def STANDARD_OUTPUT : Nat := 1

/-- The stream of the keyboard. -/
def KEYBOARD : Nat := 2

/-- The stream of the screen. -/
def GPU : Nat := 3

/-- The first stream of a file. -/
def FIRST_FILE_STREAM_ID : Nat := 4

/-- The loop of `process_get_file_stream`. -/
def processGetFileStreamLoop (m : ByteMem) (streamId : Nat) :
    (bound : Nat) → (stream id : Nat) → Option Nat
  | 0, _, _ => none
  | n + 1, stream, id =>
    if stream ≠ 0 ∧ id ≠ streamId then
      processGetFileStreamLoop m streamId n (readStream m stream).next (U64.add id 1)
    else some stream

/-- `process_get_file_stream`. -/
def processGetFileStream (bound : Nat) (m : ByteMem) (self streamId : Nat) : Option Nat :=
  processGetFileStreamLoop m streamId bound (readProcess m self).fileStreams FIRST_FILE_STREAM_ID

/-- The loop of `process_get_unused_file_stream`: the variables `stream_ptr`, `stream` and
    `*stream_id`. -/
def processGetUnusedFileStreamLoop (m : ByteMem) :
    (bound : Nat) → (streamPtr stream streamId : Nat) → Option (Nat × Nat × Nat)
  | 0, _, _, _ => none
  | n + 1, streamPtr, stream, streamId =>
    if stream ≠ 0 ∧ (readStream m stream).mode ≠ MODE_UNUSED then
      -- `next` is the first field of a stream
      processGetUnusedFileStreamLoop m n stream (readStream m stream).next (U64.add streamId 1)
    else some (streamPtr, stream, streamId)

/-- `process_get_unused_file_stream`: the stream and its id. -/
def processGetUnusedFileStream (bound : Nat) (k : Kernel) (self : Nat) :
    Option (Kernel × Nat × Nat) :=
  match processGetUnusedFileStreamLoop k.memory bound (self + 56) (k.process self).fileStreams
      FIRST_FILE_STREAM_ID with
  | none => none
  | some (streamPtr, stream, streamId) =>
    if stream = 0 ∧ U64.add k.heap SIZEOF_FILE_STREAM ≤ k.heapLimit then
      let stream := k.heap
      let memory := setNext k.memory stream 0
      let memory := setMode memory stream MODE_UNUSED
      let memory := setFileBlock memory stream 0
      let memory := memory.store 8 streamPtr stream
      some ({ k with heap := U64.add k.heap SIZEOF_FILE_STREAM, memory := memory }, stream, streamId)
    else some (k, stream, streamId)

/-- The inner loop of `process_can_open`: whether no stream of the list forbids to open. -/
def streamsCanOpenLoop (m : ByteMem) (fileBlock mode : Nat) : (bound : Nat) → (stream : Nat) →
    Option Bool
  | 0, _ => none
  | n + 1, stream =>
    if stream ≠ 0 then
      let s := readStream m stream
      if s.fileBlock = fileBlock ∧ s.mode ≠ MODE_LIST ∧ (s.mode = MODE_WRITE ∨ mode = MODE_WRITE) then
        some false
      else streamsCanOpenLoop m fileBlock mode n s.next
    else some true

/-- The outer loop of `process_can_open`. -/
def processCanOpenLoop (m : ByteMem) (fileBlock mode : Nat) : (bound : Nat) → (process : Nat) →
    Option Bool
  | 0, _ => none
  | n + 1, process =>
    if process ≠ 0 then
      match streamsCanOpenLoop m fileBlock mode n (readProcess m process).fileStreams with
      | some true => processCanOpenLoop m fileBlock mode n (readProcess m process).parent
      | result => result
    else some true

/-- `process_can_open`. -/
def processCanOpen (bound : Nat) (m : ByteMem) (self fileBlock mode : Nat) : Option Bool :=
  processCanOpenLoop m fileBlock mode bound self

/-! ### The keyboard -/

/-- `keyboard_get_char`, from the key that was pressed, if any. -/
def keyboardGetChar : Option Nat → Nat
  | none => 0
  | some key =>
    if key ≤ 23 then key + 128
    else if key / 2 ^ 16 = 13 then 10
    else key / 2 ^ 16

/-- `keyboard_wait_char`, from what `read_key_stroke` returns again and again. -/
def keyboardWaitChar : List (Option UInt32) → Option Nat
  | [] => none
  | key :: keys =>
    let c := keyboardGetChar (key.map UInt32.toNat)
    if c = 0 then keyboardWaitChar keys else some c

/-! ### The calls -/

/-- `os_stat`. -/
def osStat (bound : Nat) (k : Kernel) (name length : Nat) : Option (Kernel × Nat) :=
  let process := k.process k.currentProcess
  if ¬ processContainsBuffer process name length then some (k, errorResult .invalidArgument)
  else
    match diskFindFile bound k.disk (k.memory.slice name length) 0 with
    | none => none
    | some (disk, fileBlock, _) =>
      if fileBlock = 0 then some ({ k with disk := disk }, errorResult .notFound)
      else
        match diskGetFileSize bound disk fileBlock with
        | none => none
        | some (disk, size) => some ({ k with disk := disk }, size)

/-- The part of `os_open` that opens a file by its name: the status and the variable
    `file_block`. -/
def osOpenFile (bound : Nat) (k : Kernel) (process stream : Nat) (name : List UInt8) (mode : Nat) :
    Option (Kernel × Status × Nat) :=
  match diskFindFile bound k.disk name 0 with
  | none => none
  | some (disk, fileBlock, _) =>
    if fileBlock = 0 then
      if mode = MODE_READ then some ({ k with disk := disk }, .notFound, fileBlock)
      else
        match diskCreateFile bound disk name with
        | none => none
        | some (disk, .ok fileBlock) => some ({ k with disk := disk }, .ok, fileBlock)
        | some (disk, .error status) => some ({ k with disk := disk }, status, fileBlock)
    else
      match processCanOpen bound k.memory process fileBlock mode with
      | none => none
      | some true =>
        if mode = MODE_READ then
          let disk := diskReadBlockBuffer disk fileBlock
          some ({ k with disk := disk, memory :=
            setCurrentOffset k.memory stream (U64.add 24 disk.blockBuffer.nameLength) }, .ok, fileBlock)
        else
          match diskClearFile bound disk fileBlock with
          | none => none
          | some disk => some ({ k with disk := disk }, .ok, fileBlock)
      | some false => some ({ k with disk := disk }, .invalidState, fileBlock)

/-- The end of `os_open`. -/
def osOpenStream (k : Kernel) (stream streamId mode fileBlock : Nat) : Kernel × Nat :=
  let memory := setMode k.memory stream mode
  let memory := setFileBlock memory stream fileBlock
  let memory := setCurrentBlock memory stream fileBlock
  ({ k with memory := memory }, streamId)

/-- `os_open`. -/
def osOpen (bound : Nat) (k : Kernel) (name length mode : Nat) : Option (Kernel × Nat) :=
  let process := k.currentProcess
  if ¬ processContainsBuffer (k.process process) name length ∨
      mode ≠ MODE_READ ∧ mode ≠ MODE_WRITE then some (k, errorResult .invalidArgument)
  else
    match processGetUnusedFileStream bound k process with
    | none => none
    | some (k, stream, streamId) =>
      if stream = 0 then some (k, errorResult .outOfMemory)
      else
        let disk := diskReadBlockBuffer k.disk SUPER_BLOCK
        let k := { k with disk := disk }
        if length = 0 then
          if mode ≠ MODE_READ then some (k, errorResult .invalidArgument)
          else some (osOpenStream k stream streamId MODE_LIST disk.blockBuffer.nextFile)
        else
          match osOpenFile bound k process stream (k.memory.slice name length) mode with
          | none => none
          | some (k, status, fileBlock) =>
            if status ≠ .ok then some (k, errorResult status)
            else some (osOpenStream k stream streamId mode fileBlock)

/-- The part of `os_read` for the streams that are not files. -/
def osReadKeyboard (k : Kernel) (streamId buffer : Nat) (keys : List (Option UInt32)) :
    Option (Kernel × Nat) :=
  if streamId = STANDARD_INPUT then
    match keyboardWaitChar keys with
    | none => none
    | some c => some ({ k with memory := k.memory.store 8 buffer c }, 1)
  else if streamId = KEYBOARD then
    let c := keyboardGetChar ((keys.head?.join).map UInt32.toNat)
    some ({ k with memory := k.memory.store 8 buffer c }, 1)
  else some (k, errorResult .invalidState)

/-- `os_read`. -/
def osRead (bound : Nat) (k : Kernel) (streamId buffer size : Nat) (keys : List (Option UInt32)) :
    Option (Kernel × Nat) :=
  let process := k.currentProcess
  if size = 0 ∨ ¬ processContainsBuffer (k.process process) buffer size then
    some (k, errorResult .invalidArgument)
  else if streamId < FIRST_FILE_STREAM_ID then osReadKeyboard k streamId buffer keys
  else
    match processGetFileStream bound k.memory process streamId with
    | none => none
    | some stream =>
      let s := k.stream stream
      if stream = 0 ∨ s.mode = MODE_UNUSED then some (k, errorResult .notFound)
      else if s.mode = MODE_LIST then
        if s.fileBlock = 0 then some (k, 0)
        else
          let disk := diskReadBlockBuffer k.disk s.fileBlock
          let size := min size disk.blockBuffer.nameLength
          let memory := k.memory.copyIn buffer (disk.blockBuffer.read 24 size)
          let memory := setFileBlock memory stream disk.blockBuffer.nextFile
          some ({ k with disk := disk, memory := memory }, size)
      else if s.mode ≠ MODE_READ then some (k, errorResult .invalidState)
      else
        match diskReadFile bound k.disk s.currentBlock s.currentOffset size with
        | none => none
        | some (disk, r) =>
          let memory := k.memory.copyIn buffer r.data
          let memory := setCurrentBlock memory stream r.block
          let memory := setCurrentOffset memory stream r.offset
          some ({ k with disk := disk, memory := memory }, U64.sub size r.missing)

/-- The part of `os_write` for the streams that are not files. -/
def osWriteOutput (k : Kernel) (streamId buffer size : Nat) : Kernel × Nat :=
  let process := k.currentProcess
  if streamId = STANDARD_OUTPUT then
    let outputP := (k.process process).outputP
    let size := min size (U64.sub (k.process process).outputLimit (k.memory.load 8 outputP))
    let memory := memCopyNonOverlapping k.memory buffer (k.memory.load 8 outputP) size
    -- the copy may have changed the record of the process
    let outputP := (readProcess memory process).outputP
    let memory := memory.store 8 outputP (U64.add (memory.load 8 outputP) size)
    ({ k with memory := memory }, size)
  -- one register of the screen is set for every three bytes
  else if streamId = GPU then (k, size / 3 * 3)
  else (k, errorResult .invalidState)

/-- `os_write`. -/
def osWrite (bound : Nat) (k : Kernel) (streamId buffer size : Nat) : Option (Kernel × Nat) :=
  let process := k.currentProcess
  if ¬ processContainsBuffer (k.process process) buffer size then
    some (k, errorResult .invalidArgument)
  else if streamId < FIRST_FILE_STREAM_ID then some (osWriteOutput k streamId buffer size)
  else
    match processGetFileStream bound k.memory process streamId with
    | none => none
    | some stream =>
      let s := k.stream stream
      if stream = 0 ∨ s.mode = MODE_UNUSED then some (k, errorResult .notFound)
      else if s.mode ≠ MODE_WRITE then some (k, errorResult .invalidState)
      else
        match diskWriteFile bound k.disk s.currentBlock (k.memory.slice buffer size) with
        | none => none
        | some (disk, block, status) =>
          let k := { k with disk := disk, memory := setCurrentBlock k.memory stream block }
          some (k, if status ≠ .ok then errorResult status else size)

/-- `os_close`. -/
def osClose (bound : Nat) (k : Kernel) (streamId : Nat) : Option (Kernel × Nat) :=
  match processGetFileStream bound k.memory k.currentProcess streamId with
  | none => none
  | some stream =>
    if stream = 0 ∨ (k.stream stream).mode = MODE_UNUSED then some (k, errorResult .notFound)
    else
      let memory := setMode k.memory stream MODE_UNUSED
      let memory := setFileBlock memory stream 0
      some ({ k with memory := memory }, OK)

/-- The inner loop of `os_delete`: the streams that list `fileBlock` move on. -/
def streamsSkipFileLoop (fileBlock : Nat) : (bound : Nat) → Kernel → (stream : Nat) → Option Kernel
  | 0, _, _ => none
  | n + 1, k, stream =>
    if stream ≠ 0 then
      let s := k.stream stream
      let k :=
        if s.mode = MODE_LIST ∧ s.fileBlock = fileBlock then
          let disk := diskReadBlockBuffer k.disk fileBlock
          { k with disk := disk, memory := setFileBlock k.memory stream disk.blockBuffer.nextFile }
        else k
      streamsSkipFileLoop fileBlock n k (k.stream stream).next
    else some k

/-- The outer loop of `os_delete`. -/
def processesSkipFileLoop (fileBlock : Nat) : (bound : Nat) → Kernel → (process : Nat) →
    Option Kernel
  | 0, _, _ => none
  | n + 1, k, process =>
    if process ≠ 0 then
      match streamsSkipFileLoop fileBlock n k (k.process process).fileStreams with
      | none => none
      | some k => processesSkipFileLoop fileBlock n k (k.process process).parent
    else some k

/-- `os_delete`. -/
def osDelete (bound : Nat) (k : Kernel) (name length : Nat) : Option (Kernel × Nat) :=
  let process := k.currentProcess
  if ¬ processContainsBuffer (k.process process) name length then
    some (k, errorResult .invalidArgument)
  else
    match diskFindFile bound k.disk (k.memory.slice name length) 0 with
    | none => none
    | some (disk, fileBlock, previousFileBlock) =>
      let k := { k with disk := disk }
      if fileBlock = 0 then some (k, errorResult .notFound)
      else
        match processCanOpen bound k.memory process fileBlock MODE_WRITE with
        | none => none
        | some false => some (k, errorResult .invalidState)
        | some true =>
          match processesSkipFileLoop fileBlock bound k process with
          | none => none
          | some k =>
            match diskDeleteFile bound k.disk fileBlock previousFileBlock with
            | none => none
            | some disk => some ({ k with disk := disk }, OK)

end Toys.Os
