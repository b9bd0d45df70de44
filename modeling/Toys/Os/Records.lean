import Mathlib
import Toys.Lib.ByteMemory
import Toys.Lib.U64

namespace Toys.Os

open Toys.Lib

/-!
# Kernel — records in memory

The `Process` and `FileStream` objects live on the kernel heap, in the same memory as the
programs.  A record is read field by field, 8 bytes each, and every field has its setter.

* `readProcess`, `readStream` — the record at an address;
* `readProcess_congr`, `readStream_congr` — a record only depends on its own bytes;
* the simp lemmas — a setter changes its own field of its own record.
-/

/-! ### File streams -/

/-- The mode of a stream that is not used. -/
def MODE_UNUSED : Nat := 0

/-- The mode of a list of the files, `'l'`. -/
def MODE_LIST : Nat := 108

/-- The mode of a file that is read, `'r'`. -/
def MODE_READ : Nat := 114

/-- The mode of a file that is written, `'w'`. -/
def MODE_WRITE : Nat := 119

/-- The record of a stream. -/
structure FileStream where
  next : Nat
  mode : Nat
  fileBlock : Nat
  currentBlock : Nat
  currentOffset : Nat
  deriving DecidableEq

/-- `sizeof(FileStream)`. -/
def SIZEOF_FILE_STREAM : Nat := 40

@[simp] theorem sizeof_fileStream : SIZEOF_FILE_STREAM = 40 := rfl

/-- The record at address `a`. -/
def readStream (m : ByteMem) (a : Nat) : FileStream where
  next := m.load 8 a
  mode := m.load 8 (a + 8)
  fileBlock := m.load 8 (a + 16)
  currentBlock := m.load 8 (a + 24)
  currentOffset := m.load 8 (a + 32)

/-- Assign to the field `next`. -/
def setNext (m : ByteMem) (stream v : Nat) : ByteMem := m.store 8 stream v

/-- Assign to the field `mode`. -/
def setMode (m : ByteMem) (stream v : Nat) : ByteMem := m.store 8 (stream + 8) v

/-- Assign to the field `file_block`. -/
def setFileBlock (m : ByteMem) (stream v : Nat) : ByteMem := m.store 8 (stream + 16) v

/-- Assign to the field `current_block`. -/
def setCurrentBlock (m : ByteMem) (stream v : Nat) : ByteMem := m.store 8 (stream + 24) v

/-- Assign to the field `current_offset`. -/
def setCurrentOffset (m : ByteMem) (stream v : Nat) : ByteMem := m.store 8 (stream + 32) v

/-! ### Processes -/

/-- The record of a process. -/
structure Process where
  parent : Nat
  begin : Nat
  end_ : Nat
  savedR8 : Nat
  savedR9 : Nat
  savedStackPointer : Nat
  savedReturnAddress : Nat
  fileStreams : Nat
  outputP : Nat
  outputLimit : Nat
  deriving DecidableEq

/-- `sizeof(Process)`. -/
def SIZEOF_PROCESS : Nat := 80

@[simp] theorem sizeof_process : SIZEOF_PROCESS = 80 := rfl

/-- The record at address `a`. -/
def readProcess (m : ByteMem) (a : Nat) : Process where
  parent := m.load 8 a
  begin := m.load 8 (a + 8)
  end_ := m.load 8 (a + 16)
  savedR8 := m.load 8 (a + 24)
  savedR9 := m.load 8 (a + 32)
  savedStackPointer := m.load 8 (a + 40)
  savedReturnAddress := m.load 8 (a + 48)
  fileStreams := m.load 8 (a + 56)
  outputP := m.load 8 (a + 64)
  outputLimit := m.load 8 (a + 72)

/-- Assign to the field `saved_r8`. -/
def setSavedR8 (m : ByteMem) (process v : Nat) : ByteMem := m.store 8 (process + 24) v

/-- Assign to the field `saved_stack_pointer`. -/
def setSavedStackPointer (m : ByteMem) (process v : Nat) : ByteMem := m.store 8 (process + 40) v

/-- Assign to the field `saved_return_address`. -/
def setSavedReturnAddress (m : ByteMem) (process v : Nat) : ByteMem := m.store 8 (process + 48) v

/-- Assign to the field `file_streams`. -/
def setFileStreams (m : ByteMem) (process v : Nat) : ByteMem := m.store 8 (process + 56) v

/-- Assign all the fields of the record at address `process`. -/
def writeProcess (m : ByteMem) (process : Nat) (p : Process) : ByteMem :=
  let m := m.store 8 process p.parent
  let m := m.store 8 (process + 8) p.begin
  let m := m.store 8 (process + 16) p.end_
  let m := m.store 8 (process + 24) p.savedR8
  let m := m.store 8 (process + 32) p.savedR9
  let m := m.store 8 (process + 40) p.savedStackPointer
  let m := m.store 8 (process + 48) p.savedReturnAddress
  let m := m.store 8 (process + 56) p.fileStreams
  let m := m.store 8 (process + 64) p.outputP
  m.store 8 (process + 72) p.outputLimit

/-! ### Reading a record -/

variable {m m' : ByteMem} {a b v : Nat}

/-- The record of a stream depends on its bytes only. -/
theorem readStream_congr (h : ∀ i, a ≤ i → i < a + 40 → m i = m' i) :
    readStream m a = readStream m' a := by
  have hload : ∀ b, a ≤ b → b + 8 ≤ a + 40 → m.load 8 b = m'.load 8 b := fun b h1 h2 =>
    ByteMem.load_congr fun i hi hn => h i (by omega) (by omega)
  simp (disch := omega) only [readStream, hload]

/-- The record of a process depends on its bytes only. -/
theorem readProcess_congr (h : ∀ i, a ≤ i → i < a + 80 → m i = m' i) :
    readProcess m a = readProcess m' a := by
  have hload : ∀ b, a ≤ b → b + 8 ≤ a + 80 → m.load 8 b = m'.load 8 b := fun b h1 h2 =>
    ByteMem.load_congr fun i hi hn => h i (by omega) (by omega)
  simp (disch := omega) only [readProcess, hload]

/-- Writing a word outside of a stream does not change it. -/
theorem readStream_store (h : b + 8 ≤ a ∨ a + 40 ≤ b) :
    readStream (m.store 8 b v) a = readStream m a :=
  readStream_congr fun i h1 h2 => ByteMem.store_of_not_mem (by omega)

/-- Writing a word outside of a process does not change it. -/
theorem readProcess_store (h : b + 8 ≤ a ∨ a + 80 ≤ b) :
    readProcess (m.store 8 b v) a = readProcess m a :=
  readProcess_congr fun i h1 h2 => ByteMem.store_of_not_mem (by omega)

/-- A word that was stored is read back, modulo `2 ^ 64`. -/
theorem load_store_eq : (m.store 8 a v).load 8 a = v % 2 ^ 64 := by
  rw [ByteMem.load_store_self]
  rfl

/-! ### The setters -/

theorem readStream_setNext : readStream (setNext m a v) a = { readStream m a with next := v % 2 ^ 64 } := by
  simp (disch := omega) only [readStream, setNext, load_store_eq, ByteMem.load_store_of_disjoint]

theorem readStream_setMode : readStream (setMode m a v) a = { readStream m a with mode := v % 2 ^ 64 } := by
  simp (disch := omega) only [readStream, setMode, load_store_eq, ByteMem.load_store_of_disjoint]

theorem readStream_setFileBlock :
    readStream (setFileBlock m a v) a = { readStream m a with fileBlock := v % 2 ^ 64 } := by
  simp (disch := omega) only [readStream, setFileBlock, load_store_eq,
    ByteMem.load_store_of_disjoint]

theorem readStream_setCurrentBlock :
    readStream (setCurrentBlock m a v) a = { readStream m a with currentBlock := v % 2 ^ 64 } := by
  simp (disch := omega) only [readStream, setCurrentBlock, load_store_eq,
    ByteMem.load_store_of_disjoint]

theorem readStream_setCurrentOffset :
    readStream (setCurrentOffset m a v) a = { readStream m a with currentOffset := v % 2 ^ 64 } := by
  simp (disch := omega) only [readStream, setCurrentOffset, load_store_eq,
    ByteMem.load_store_of_disjoint]

theorem readProcess_setSavedR8 :
    readProcess (setSavedR8 m a v) a = { readProcess m a with savedR8 := v % 2 ^ 64 } := by
  simp (disch := omega) only [readProcess, setSavedR8, load_store_eq, ByteMem.load_store_of_disjoint]

theorem readProcess_setSavedStackPointer :
    readProcess (setSavedStackPointer m a v) a = { readProcess m a with savedStackPointer := v % 2 ^ 64 } := by
  simp (disch := omega) only [readProcess, setSavedStackPointer, load_store_eq,
    ByteMem.load_store_of_disjoint]

theorem readProcess_setSavedReturnAddress :
    readProcess (setSavedReturnAddress m a v) a =
      { readProcess m a with savedReturnAddress := v % 2 ^ 64 } := by
  simp (disch := omega) only [readProcess, setSavedReturnAddress, load_store_eq,
    ByteMem.load_store_of_disjoint]

theorem readProcess_setFileStreams :
    readProcess (setFileStreams m a v) a = { readProcess m a with fileStreams := v % 2 ^ 64 } := by
  simp (disch := omega) only [readProcess, setFileStreams, load_store_eq,
    ByteMem.load_store_of_disjoint]

/-- All the fields are 64-bit words. -/
structure Process.Fits (p : Process) : Prop where
  parent : p.parent < 2 ^ 64
  begin : p.begin < 2 ^ 64
  end_ : p.end_ < 2 ^ 64
  savedR8 : p.savedR8 < 2 ^ 64
  savedR9 : p.savedR9 < 2 ^ 64
  savedStackPointer : p.savedStackPointer < 2 ^ 64
  savedReturnAddress : p.savedReturnAddress < 2 ^ 64
  fileStreams : p.fileStreams < 2 ^ 64
  outputP : p.outputP < 2 ^ 64
  outputLimit : p.outputLimit < 2 ^ 64

/-- A record that was written is read back. -/
theorem readProcess_writeProcess {p : Process} (h : p.Fits) :
    readProcess (writeProcess m a p) a = p := by
  obtain ⟨h1, h2, h3, h4, h5, h6, h7, h8, h9, h10⟩ := h
  simp (disch := omega) only [readProcess, writeProcess, load_store_eq,
    ByteMem.load_store_of_disjoint, Nat.mod_eq_of_lt]

/-- Writing a record keeps the rest of the memory. -/
theorem writeProcess_of_not_mem {p : Process} {i : Nat} (h : i < a ∨ a + 80 ≤ i) :
    writeProcess m a p i = m i := by
  simp (disch := omega) only [writeProcess, ByteMem.store_of_not_mem]

/-- The fields of a record are 64-bit words. -/
theorem readProcess_fits (m : ByteMem) (a : Nat) : (readProcess m a).Fits := by
  constructor <;> exact ByteMem.load_lt m 8 _

end Toys.Os
