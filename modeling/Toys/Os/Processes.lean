import Mathlib
import Toys.Os.Records
import Toys.FileSystem.Disk

namespace Toys.Os

open Toys.Lib Toys.FileSystem

/-!
# Kernel — processes

The functions of `src/toys/processes.toy`.  The memory holds the objects on the kernel heap,
the memory of the processes, and one word of the kernel stack (at `stackPointer`, see
`osSpawnShell`); the `Kernel` object is a record of its own.  A page is accessible to
programs when its `userPages` bit is set.

As for the disk, a loop takes a bound on its number of rounds and is `none` when the bound
is reached.
-/

/-- The state of the kernel. -/
structure Kernel where
  stackPointer : Nat
  heap : Nat
  heapLimit : Nat
  memLimit : Nat
  disk : Disk
  currentProcess : Nat
  memory : ByteMem
  /-- The User/Supervisor bit of each page. -/
  userPages : Nat → Bool

/-- The record of a process. -/
abbrev Kernel.process (k : Kernel) (p : Nat) : Process := readProcess k.memory p

/-- The record of a file stream. -/
abbrev Kernel.stream (k : Kernel) (s : Nat) : FileStream := readStream k.memory s

/-- The result of a call that fails, with the status in its last byte. -/
def errorResult (error : Status) : Nat := error.code * 2 ^ 56

/-- `OK`, as the result of a system call. -/
def OK : Nat := Status.ok.code

/-- `(x >> 12) << 12`. -/
def pageDown (x : Nat) : Nat := x / 4096 * 4096

/-- `((x + 4095) >> 12) << 12`. -/
def pageUp (x : Nat) : Nat := pageDown (U64.add x 4095)

/-- `set_pages_user_mode`. -/
def setPagesUserMode (userPages : Nat → Bool) (beginPage endPage : Nat) (enabled : Bool) :
    Nat → Bool := fun page =>
  if beginPage / 4096 ≤ page ∧ beginPage + 4096 * (page - beginPage / 4096) < endPage then enabled
  else userPages page

/-- `os_set_current_process`. -/
def osSetCurrentProcess (k : Kernel) (process : Nat) : Kernel :=
  let p := k.process process
  let userPages :=
    if p.parent ≠ 0 then
      setPagesUserMode k.userPages (k.process p.parent).begin (k.process p.parent).end_ false
    else k.userPages
  { k with userPages := setPagesUserMode userPages p.begin p.end_ true, currentProcess := process }

/-- `process_contains_buffer`. -/
def processContainsBuffer (self : Process) (ptr size : Nat) : Bool :=
  if ptr < self.begin ∨ ptr ≥ self.end_ then false
  else if size > U64.sub self.end_ ptr then false
  else true

/-- `mem_copy_non_overlapping`: a byte by byte copy, from the lowest address on. -/
def memCopyNonOverlapping (m : ByteMem) (src dst size : Nat) : ByteMem :=
  (List.range size).foldl
    (fun m i => Function.update m (U64.add dst i) (m (U64.add src i))) m

/-- The checks that `os_spawn` makes on its arguments when it is called by a process. -/
def spawnArgumentsOk (memory : ByteMem) (parent : Process) (begin end_ dst name nameLength args
    argsLength outputP : Nat) : Bool :=
  if end_ < begin ∨ begin < parent.begin ∨ ¬ processContainsBuffer parent name nameLength ∨
      ¬ processContainsBuffer parent args argsLength then false
  else if U64.add args argsLength > begin ∧ args < end_ then false
  else if ¬ processContainsBuffer parent outputP 8 ∨ memory.load 8 outputP < parent.begin ∨
      memory.load 8 outputP > dst then false
  else true

/-- The part of `os_spawn` after its checks: load the program and create its process. -/
def osSpawnFile (bound : Nat) (k : Kernel) (begin end_ dst name nameLength args argsLength
    outputP : Nat) : Option (Kernel × Nat) :=
  match diskFindFile bound k.disk (k.memory.slice name nameLength) 0 with
  | none => none
  | some (disk, fileBlock, _) =>
    if fileBlock = 0 then some ({ k with disk := disk }, errorResult .notFound)
    else
      match diskGetFileSize bound disk fileBlock with
      | none => none
      | some (disk, codeSize) =>
        if codeSize > U64.sub end_ begin then
          some ({ k with disk := disk }, errorResult .outOfMemory)
        else
          let heap := U64.add begin codeSize
          let heapLimit := U64.sub end_ 1024
          if heapLimit < U64.add heap 8 ∨ argsLength > U64.sub (U64.sub heapLimit heap) 8 then
            some ({ k with disk := disk }, errorResult .outOfMemory)
          else
            match diskReadFile bound disk fileBlock (U64.add 24 nameLength) codeSize with
            | none => none
            | some (disk, r) =>
              let memory := k.memory.copyIn begin r.data
              let memory := memory.store 8 heap argsLength
              let memory := memCopyNonOverlapping memory args (U64.add heap 8) argsLength
              let process := k.heap
              let k := { k with disk := disk, heap := U64.add k.heap SIZEOF_PROCESS }
              let memory := writeProcess memory process
                { parent := k.currentProcess, begin := begin, end_ := end_, savedR8 := heap
                  savedR9 := heapLimit, savedStackPointer := end_, savedReturnAddress := begin
                  fileStreams := 0, outputP := outputP, outputLimit := dst }
              some (osSetCurrentProcess { k with memory := memory } process, OK)

/-- `os_spawn`. -/
def osSpawn (bound : Nat) (k : Kernel) (dst name nameLength args argsLength outputP : Nat) :
    Option (Kernel × Nat) :=
  if SIZEOF_PROCESS > U64.sub k.heapLimit k.heap then some (k, errorResult .outOfMemory)
  else
    let begin := pageUp dst
    let parent := k.process k.currentProcess
    let end_ := if k.currentProcess ≠ 0 then pageDown parent.savedStackPointer else k.memLimit
    if k.currentProcess ≠ 0 ∧
        ¬ spawnArgumentsOk k.memory parent begin end_ dst name nameLength args argsLength outputP then
      some (k, errorResult .invalidArgument)
    else osSpawnFile bound k begin end_ dst name nameLength args argsLength outputP

/-- `os_exit`. -/
def osExit (k : Kernel) (result : Nat) : Kernel × Nat :=
  let process := k.currentProcess
  if (k.process process).parent = 0 then (k, errorResult .invalidState)
  else if result ≥ 2 ^ 56 then (k, errorResult .invalidArgument)
  else
    let k := { k with heap := process }
    let process := (k.process process).parent
    (osSetCurrentProcess { k with memory := setSavedR8 k.memory process result } process, OK)

end Toys.Os
