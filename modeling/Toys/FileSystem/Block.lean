import Mathlib
import Toys.Lib.ByteMemory
import Toys.Lib.U64

namespace Toys.FileSystem

open Toys.Lib

/-!
# File system — disk blocks

A disk block is 512 bytes.  Its header words are read and written in place:

* word 0 — `next_block`, a block number plus 512, or, when at most 512, a size;
* word 1 — `next_file`, word 2 — `name_length`, byte 24 on — the `name`.

Only the first block of a file has all four; in the others the file content starts
right after word 0.  Every accessor is a view of the same bytes, so that the file
content of one kind of block may lie where another kind keeps its header.
-/

/-- The bytes of a block on the disk, or of the block buffer. -/
structure DiskBlock where
  bytes : Fin 512 → UInt8

namespace DiskBlock

/-- The block as a byte memory (nothing is stored from offset 512 on). -/
def mem (b : DiskBlock) : ByteMem := fun i => if h : i < 512 then b.bytes ⟨i, h⟩ else 0

/-- The first 512 bytes of a memory, as a block. -/
def ofMem (m : ByteMem) : DiskBlock := ⟨fun i => m i⟩

/-- The bytes of a block that was copied from the memory. -/
theorem mem_ofMem {m : ByteMem} {i : Nat} (h : i < 512) : (ofMem m).mem i = m i := by
  simp [mem, ofMem, h]

/-- The 64-bit word at byte offset `off`. -/
def word (b : DiskBlock) (off : Nat) : Nat := b.mem.load 8 off

/-- Store the 64-bit word `v` at byte offset `off`. -/
def setWord (b : DiskBlock) (off v : Nat) : DiskBlock := ofMem (b.mem.store 8 off v)

/-- Store the bytes `bs` from byte offset `off` on. -/
def write (b : DiskBlock) (off : Nat) (bs : List UInt8) : DiskBlock := ofMem (b.mem.copyIn off bs)

/-- The `n` bytes from byte offset `off` on. -/
def read (b : DiskBlock) (off n : Nat) : List UInt8 := b.mem.slice off n

/-- The field `next_block`. -/
def nextBlock (b : DiskBlock) : Nat := b.word 0

/-- The field `next_file`. -/
def nextFile (b : DiskBlock) : Nat := b.word 8

/-- The field `name_length`. -/
def nameLength (b : DiskBlock) : Nat := b.word 16

/-- Assign to `next_block`. -/
def setNextBlock (b : DiskBlock) (v : Nat) : DiskBlock := b.setWord 0 v

/-- Assign to `next_file`. -/
def setNextFile (b : DiskBlock) (v : Nat) : DiskBlock := b.setWord 8 v

/-- Assign to `name_length`. -/
def setNameLength (b : DiskBlock) (v : Nat) : DiskBlock := b.setWord 16 v

end DiskBlock

/-- `block_get_next`: the block the first word points to, 0 when it is a size. -/
def blockGetNext (self : DiskBlock) : Nat :=
  if self.nextBlock ≤ 512 then 0 else self.nextBlock - 512

/-- `block_set_next`. -/
def blockSetNext (self : DiskBlock) (nextBlock : Nat) : DiskBlock :=
  self.setNextBlock (U64.add nextBlock 512)

/-- `*block_size(self)`: the same first word, read as a size. -/
def blockSize (self : DiskBlock) : Nat := self.nextBlock

/-- `*block_size(self) = size`. -/
def setBlockSize (self : DiskBlock) (size : Nat) : DiskBlock := self.setNextBlock size

/-- The results `EQUAL`, `SMALLER` and `GREATER` of a name comparison. -/
inductive NameOrder
  | equal | smaller | greater
  deriving DecidableEq, Repr

/-- The loop of `disk_compare_file_name` from index `i` on, `name` being what is left of
    the name from that index, and the length comparison after it. -/
def diskCompareFileNameLoop (file : DiskBlock) (length : Nat) : Nat → List UInt8 → NameOrder
  | i, c :: name =>
    if i < file.nameLength then
      if file.mem (24 + i) < c then .smaller
      else if file.mem (24 + i) > c then .greater
      else diskCompareFileNameLoop file length (i + 1) name
    else if file.nameLength < length then .smaller
    else if file.nameLength > length then .greater
    else .equal
  | _, [] =>
    if file.nameLength < length then .smaller
    else if file.nameLength > length then .greater
    else .equal

/-- `disk_compare_file_name`: the stored name of `file` compared with `name`. -/
def diskCompareFileName (file : DiskBlock) (name : List UInt8) : NameOrder :=
  diskCompareFileNameLoop file name.length 0 name

/-! ### Reading back what was written -/

namespace DiskBlock

variable {b : DiskBlock} {off off' n v : Nat} {bs : List UInt8}

/-- A word has 64 bits. -/
theorem word_lt (b : DiskBlock) (off : Nat) : b.word off < 2 ^ 64 := b.mem.load_lt 8 off

/-- The words of a block that was copied from the memory. -/
theorem word_ofMem {m : ByteMem} (h : off + 8 ≤ 512) : (ofMem m).word off = m.load 8 off :=
  ByteMem.load_congr fun i _ hi => mem_ofMem (by omega)

/-- The bytes of a block that was copied from the memory. -/
theorem read_ofMem {m : ByteMem} (h : off + n ≤ 512) : (ofMem m).read off n = m.slice off n :=
  ByteMem.slice_congr fun i _ hi => mem_ofMem (by omega)

/-- A word that was written is read back. -/
theorem word_setWord_self (h : off + 8 ≤ 512) (hv : v < 2 ^ 64) :
    (b.setWord off v).word off = v := by
  rw [setWord, word_ofMem h, ByteMem.load_store_self]
  exact Nat.mod_eq_of_lt hv

/-- Writing a word keeps the others. -/
theorem word_setWord_of_disjoint (h : off' + 8 ≤ 512) (hd : off' + 8 ≤ off ∨ off + 8 ≤ off') :
    (b.setWord off v).word off' = b.word off' := by
  rw [setWord, word_ofMem h, ByteMem.load_store_of_disjoint hd]; rfl

/-- Writing a word keeps the bytes outside of it. -/
theorem read_setWord_of_disjoint (h : off' + n ≤ 512) (hd : off' + n ≤ off ∨ off + 8 ≤ off') :
    (b.setWord off v).read off' n = b.read off' n := by
  rw [setWord, read_ofMem h, ByteMem.slice_store_of_disjoint hd]; rfl

/-- Writing bytes keeps the words outside of them. -/
theorem word_write_of_disjoint (h : off' + 8 ≤ 512)
    (hd : off' + 8 ≤ off ∨ off + bs.length ≤ off') :
    (b.write off bs).word off' = b.word off' := by
  rw [write, word_ofMem h, ByteMem.load_copyIn_of_disjoint hd]; rfl

/-- Writing bytes keeps the others. -/
theorem read_write_of_disjoint (h : off' + n ≤ 512)
    (hd : off' + n ≤ off ∨ off + bs.length ≤ off') :
    (b.write off bs).read off' n = b.read off' n := by
  rw [write, read_ofMem h, ByteMem.slice_copyIn_of_disjoint hd]; rfl

/-- Bytes that were written are read back. -/
theorem read_write_self (h : off + bs.length ≤ 512) :
    (b.write off bs).read off bs.length = bs := by
  rw [write, read_ofMem h, ByteMem.slice_copyIn_self]

@[simp] theorem read_length : (b.read off n).length = n := ByteMem.slice_length ..

/-- Bytes that follow each other are read together. -/
theorem read_add (b : DiskBlock) (off n k : Nat) :
    b.read off (n + k) = b.read off n ++ b.read (off + n) k := ByteMem.slice_add ..

/-! ### Header words after an update -/

/-- The first of some bytes that are read. -/
theorem take_read {b : DiskBlock} {off n k : Nat} (h : k ≤ n) :
    (b.read off n).take k = b.read off k := by
  obtain ⟨m, rfl⟩ := Nat.exists_eq_add_of_le h
  rw [read_add, List.take_left' read_length]

@[simp] theorem nextFile_setNextBlock : (b.setNextBlock v).nextFile = b.nextFile :=
  word_setWord_of_disjoint (by decide) (by decide)

@[simp] theorem nameLength_setNextBlock : (b.setNextBlock v).nameLength = b.nameLength :=
  word_setWord_of_disjoint (by decide) (by decide)

@[simp] theorem nextBlock_setNextFile : (b.setNextFile v).nextBlock = b.nextBlock :=
  word_setWord_of_disjoint (by decide) (by decide)

@[simp] theorem nameLength_setNextFile : (b.setNextFile v).nameLength = b.nameLength :=
  word_setWord_of_disjoint (by decide) (by decide)

@[simp] theorem nextBlock_setNameLength : (b.setNameLength v).nextBlock = b.nextBlock :=
  word_setWord_of_disjoint (by decide) (by decide)

@[simp] theorem nextFile_setNameLength : (b.setNameLength v).nextFile = b.nextFile :=
  word_setWord_of_disjoint (by decide) (by decide)

theorem nextBlock_setNextBlock (h : v < 2 ^ 64) : (b.setNextBlock v).nextBlock = v :=
  word_setWord_self (by decide) h

theorem nextFile_setNextFile (h : v < 2 ^ 64) : (b.setNextFile v).nextFile = v :=
  word_setWord_self (by decide) h

theorem nameLength_setNameLength (h : v < 2 ^ 64) : (b.setNameLength v).nameLength = v :=
  word_setWord_self (by decide) h

/-- The bytes after the first word do not change `next_block`. -/
theorem nextBlock_write (h : 8 ≤ off) : (b.write off bs).nextBlock = b.nextBlock :=
  word_write_of_disjoint (by decide) (Or.inl h)

/-- The bytes after the second word do not change `next_file`. -/
theorem nextFile_write (h : 16 ≤ off) : (b.write off bs).nextFile = b.nextFile :=
  word_write_of_disjoint (by decide) (Or.inl h)

/-- The bytes after the header do not change `name_length`. -/
theorem nameLength_write (h : 24 ≤ off) : (b.write off bs).nameLength = b.nameLength :=
  word_write_of_disjoint (by decide) (Or.inl h)

/-- Assigning to `next_block` keeps the bytes after it. -/
theorem read_setNextBlock (h : off + n ≤ 512) (ho : 8 ≤ off) :
    (b.setNextBlock v).read off n = b.read off n := read_setWord_of_disjoint h (Or.inr ho)

/-- Assigning to `next_file` keeps the bytes after the header. -/
theorem read_setNextFile (h : off + n ≤ 512) (ho : 24 ≤ off) :
    (b.setNextFile v).read off n = b.read off n := read_setWord_of_disjoint h (Or.inr (by omega))

end DiskBlock

/-- A block number fits in a pointer word when the block lies in an addressable image. -/
theorem blockGetNext_blockSetNext {b : DiskBlock} {n : Nat} (h : n + 512 < 2 ^ 64) :
    blockGetNext (blockSetNext b n) = n := by
  unfold blockGetNext blockSetNext
  rw [U64.add_eq h, DiskBlock.nextBlock_setNextBlock h]
  split <;> omega

/-- A block whose first word is a size is the last one. -/
theorem blockGetNext_of_le {b : DiskBlock} (h : b.nextBlock ≤ 512) : blockGetNext b = 0 := by
  simp [blockGetNext, h]

/-- A block is the last one exactly when its first word is a size. -/
theorem blockGetNext_eq_zero {b : DiskBlock} : blockGetNext b = 0 ↔ b.nextBlock ≤ 512 := by
  unfold blockGetNext
  split <;> omega

/-- The first word of a block that has a next one. -/
theorem nextBlock_blockSetNext {b : DiskBlock} {n : Nat} (h : n + 512 < 2 ^ 64) :
    (blockSetNext b n).nextBlock = n + 512 := by
  rw [blockSetNext, U64.add_eq h, DiskBlock.nextBlock_setNextBlock h]

/-! ### Names -/

/-- The name stored in the first block of a file. -/
def DiskBlock.fileName (b : DiskBlock) : List UInt8 := b.read 24 b.nameLength

/-- Lexicographic comparison of names, shorter prefixes first. -/
def compareNames : List UInt8 → List UInt8 → NameOrder
  | [], [] => .equal
  | [], _ :: _ => .smaller
  | _ :: _, [] => .greater
  | x :: xs, y :: ys =>
    if x < y then .smaller else if x > y then .greater else compareNames xs ys

/-- `compare_names` finds two names equal exactly when they are. -/
theorem compareNames_eq_equal {xs ys : List UInt8} : compareNames xs ys = .equal ↔ xs = ys := by
  induction xs generalizing ys with
  | nil => cases ys <;> simp [compareNames]
  | cons x xs ih =>
    cases ys with
    | nil => simp [compareNames]
    | cons y ys =>
      simp only [compareNames, List.cons.injEq]
      by_cases h1 : x < y
      · rw [if_pos h1]; grind
      · rw [if_neg h1]
        by_cases h2 : x > y
        · rw [if_pos h2]; grind
        · rw [if_neg h2, ih]
          have hxy : x = y := by grind
          simp [hxy]

/-- `compare_names` is antisymmetric. -/
theorem compareNames_smaller_iff {xs ys : List UInt8} :
    compareNames xs ys = .smaller ↔ compareNames ys xs = .greater := by
  induction xs generalizing ys with
  | nil => cases ys <;> simp [compareNames]
  | cons x xs ih =>
    cases ys with
    | nil => simp [compareNames]
    | cons y ys => simp only [compareNames]; grind

/-- `compare_names` is transitive. -/
theorem compareNames_trans {xs ys zs : List UInt8} (h1 : compareNames xs ys = .smaller)
    (h2 : compareNames ys zs = .smaller) : compareNames xs zs = .smaller := by
  induction xs generalizing ys zs with
  | nil =>
    cases ys with
    | nil => simp [compareNames] at h1
    | cons y ys => cases zs <;> simp_all [compareNames]
  | cons x xs ih =>
    cases ys with
    | nil => simp [compareNames] at h1
    | cons y ys =>
      cases zs with
      | nil => simp [compareNames] at h2
      | cons z zs => simp only [compareNames] at *; grind

/-- `disk_compare_file_name` compares the whole stored name, from any index on. -/
private theorem diskCompareFileNameLoop_eq (file : DiskBlock) (length i : Nat)
    (name : List UInt8) (hlen : length = i + name.length) (hi : i ≤ file.nameLength) :
    diskCompareFileNameLoop file length i name =
      compareNames (file.read (24 + i) (file.nameLength - i)) name := by
  induction name generalizing i with
  | nil =>
    simp only [List.length_nil, Nat.add_zero] at hlen
    rcases Nat.eq_or_lt_of_le hi with heq | hlt
    · simp [diskCompareFileNameLoop, hlen, heq, DiskBlock.read, compareNames]
    · obtain ⟨k, hk⟩ : ∃ k, file.nameLength - i = 1 + k := ⟨file.nameLength - i - 1, by omega⟩
      rw [hk, DiskBlock.read_add]
      simp only [DiskBlock.read, ByteMem.slice, List.range_one, List.map_cons, List.map_nil,
        List.singleton_append, compareNames, diskCompareFileNameLoop]
      rw [if_neg (by omega), if_pos (by omega)]
  | cons c name ih =>
    simp only [List.length_cons] at hlen
    simp only [diskCompareFileNameLoop]
    rcases Nat.eq_or_lt_of_le hi with heq | hlt
    · rw [if_neg (by omega), if_pos (by omega)]
      simp [heq, DiskBlock.read, compareNames]
    · obtain ⟨k, hk⟩ : ∃ k, file.nameLength - i = 1 + k := ⟨file.nameLength - i - 1, by omega⟩
      rw [if_pos hlt, ih (i + 1) (by omega) (by omega), hk, DiskBlock.read_add,
        show file.nameLength - (i + 1) = k by omega]
      simp only [DiskBlock.read, ByteMem.slice, List.range_one, List.map_cons, List.map_nil,
        List.singleton_append, compareNames, Nat.add_zero, Nat.add_assoc]

/-- `disk_compare_file_name` compares the stored name with `name` lexicographically. -/
theorem diskCompareFileName_eq (file : DiskBlock) (name : List UInt8) :
    diskCompareFileName file name = compareNames file.fileName name :=
  diskCompareFileNameLoop_eq file name.length 0 name (by simp) (Nat.zero_le _)

end Toys.FileSystem
