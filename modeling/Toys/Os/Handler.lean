import Mathlib
import Toys.Os.SystemCalls

namespace Toys.Os

open Toys.Lib Toys.FileSystem

/-!
# Kernel — system call handler and runs

The functions of `src/toys/toys.toy` that start the system, dispatch the system calls and
handle the faults, and the transition system of the kernel: between two calls the current
program writes what it wants in the pages it can access.

* `syscallHandler`, `hardFaultHandler`, `osSpawnShell` — the entry points of the kernel;
* `Event`, `Step` — what a program can do, and what happens then;
* `Booted`, `Reachable` — the first state and the states of all the runs.
-/

/-! ### System calls -/

/-- The number of system calls. -/
def NUM_SYSTEM_CALLS : Nat := 10

/-- The number of arguments of each system call. -/
def SYSTEM_CALL_ARITY : List Nat := [6, 1, 1, 2, 3, 3, 3, 1, 2, 0]

/-- `CallArguments`. -/
structure CallArguments where
  arg0 : Nat
  arg1 : Nat
  arg2 : Nat
  arg3 : Nat
  arg4 : Nat
  arg5 : Nat

/-- The arguments of a call, read at `args`. -/
def readArguments (m : ByteMem) (args : Nat) : CallArguments where
  arg0 := m.load 8 args
  arg1 := m.load 8 (U64.add args 8)
  arg2 := m.load 8 (U64.add args 16)
  arg3 := m.load 8 (U64.add args 24)
  arg4 := m.load 8 (U64.add args 32)
  arg5 := m.load 8 (U64.add args 40)

/-- The call of `*function_p`, for an identifier less than `NUM_SYSTEM_CALLS`.  `os_reboot`
    does not return. -/
def call (bound : Nat) (k : Kernel) (id : Nat) (a : CallArguments) (keys : List (Option UInt32)) :
    Option (Kernel × Nat) :=
  match id with
  | 0 => osSpawn bound k a.arg0 a.arg1 a.arg2 a.arg3 a.arg4 a.arg5
  | 1 => some (osExit k a.arg0)
  | 2 => some (k, OK)
  | 3 => osStat bound k a.arg0 a.arg1
  | 4 => osOpen bound k a.arg0 a.arg1 a.arg2
  | 5 => osRead bound k a.arg0 a.arg1 a.arg2 keys
  | 6 => osWrite bound k a.arg0 a.arg1 a.arg2
  | 7 => osClose bound k a.arg0
  | 8 => osDelete bound k a.arg0 a.arg1
  | _ => none

/-- The kernel when `syscall_handler` has saved the context of the caller. -/
def saveContext (k : Kernel) (returnAddress stackPointer : Nat) : Kernel :=
  let memory := setSavedStackPointer k.memory k.currentProcess stackPointer
  { k with memory := setSavedReturnAddress memory k.currentProcess returnAddress }

/-- The call that `syscall_handler` makes, if it accepts the identifier and the arguments. -/
def dispatch (bound : Nat) (k : Kernel) (process id args : Nat) (keys : List (Option UInt32)) :
    Option (Kernel × Nat) :=
  if id < NUM_SYSTEM_CALLS ∧
      processContainsBuffer (k.process process) args (SYSTEM_CALL_ARITY.getD id 0 * 8) then
    call bound k id (readArguments k.memory args) keys
  else some (k, errorResult .invalidArgument)

/-- `syscall_handler`.  The result is stored in the record of the caller, even when it is not
    the current process any more. -/
def syscallHandler (bound : Nat) (k : Kernel) (id args returnAddress stackPointer : Nat)
    (keys : List (Option UInt32)) : Option Kernel :=
  let process := k.currentProcess
  let k := saveContext k returnAddress stackPointer
  match dispatch bound k process id args keys with
  | none => none
  | some (k, result) => some { k with memory := setSavedR8 k.memory process result }

/-- `hard_fault_handler`. -/
def hardFaultHandler (k : Kernel) : Kernel := (osExit k Status.internalError.code).1

/-- `os_spawn_shell`.  Its variable `dst` is the word at the kernel's stack pointer: it is the
    first one on the stack of `entry`, as the first argument of `os_init` was, and the system
    calls use the stack below. -/
def osSpawnShell (bound : Nat) (k : Kernel) (shell : Nat) : Option (Kernel × Nat) :=
  let k := { k with memory := k.memory.store 8 k.stackPointer k.heapLimit }
  osSpawn bound k k.heapLimit shell 5 0 0 k.stackPointer

/-! ### Runs -/

/-- What the current program does next.  The bound of a system call is one within which its
    loops end. -/
inductive Event
  /-- Programs change the memory that they can access. -/
  | user (memory : ByteMem)
  | syscall (bound : Nat) (id args returnAddress stackPointer : UInt64)
      (keys : List (Option UInt32))
  | fault

/-- One step of the system. -/
inductive Step : Kernel → Event → Kernel → Prop
  | user {k : Kernel} {memory : ByteMem}
      (h : ∀ a, memory a ≠ k.memory a → k.userPages (a / 4096) = true) :
      Step k (.user memory) { k with memory := memory }
  | syscall {k k' : Kernel} {bound : Nat} {id args returnAddress stackPointer : UInt64}
      {keys : List (Option UInt32)}
      (h : syscallHandler bound k id.toNat args.toNat returnAddress.toNat stackPointer.toNat keys =
        some k') :
      Step k (.syscall bound id args returnAddress stackPointer keys) k'
  | fault {k : Kernel} : Step k .fault (hardFaultHandler k)

/-- What `os_init` leaves: `heap` is its variable after the allocation of the kernel's
    objects. -/
def osInit (code heap numPages stackPointer : Nat) (disk : Disk) (memory : ByteMem) : Kernel where
  stackPointer := stackPointer
  heap := heap
  heapLimit := pageUp (U64.add heap 1024)
  memLimit := U64.add (pageDown code) (numPages * 4096)
  disk := disk
  currentProcess := 0
  memory := memory
  userPages := fun _ => false

/-- What the boot loader guarantees: the kernel and its heap fit in the allocated pages, and
    the stack is elsewhere. -/
structure Loaded (code heap numPages stackPointer : Nat) : Prop where
  heap_pos : 0 < heap
  heap_le : heap + 1024 ≤ pageDown code + numPages * 4096
  pages_lt : pageDown code + numPages * 4096 < 2 ^ 64
  stack_pos : 0 < stackPointer
  stack_lt : stackPointer < 2 ^ 64
  stack_disjoint : stackPointer + 8 ≤ heap ∨ pageDown code + numPages * 4096 + 8 ≤ stackPointer

/-- `k` is the state in which the shell starts. -/
def Booted (k : Kernel) : Prop :=
  ∃ code heap numPages stackPointer disk memory bound shell, Loaded code heap numPages stackPointer ∧
    osSpawnShell bound (osInit code heap numPages stackPointer disk memory) shell = some (k, OK)

/-- The states of the runs whose steps all meet the condition `C`. -/
inductive Reachable (C : Kernel → Event → Prop) : Kernel → Prop
  | boot {k : Kernel} (h : Booted k) : Reachable C k
  | step {k k' : Kernel} {e : Event} (h : Reachable C k) (hc : C k e) (hs : Step k e k') :
      Reachable C k'

end Toys.Os
