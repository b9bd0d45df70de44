import Mathlib
import Toys.FileSystem.Disk

namespace Toys.FileSystem

/-!
# File system — the bound of the loops

A function that returns within a bound returns the same result within every larger one, so
its result is that of the source, whatever the bound.
-/

/-! ### Loops -/

/-- A larger bound does not change the result of `diskFindFileLoop`. -/
theorem diskFindFileLoop_mono {name : List UInt8} {n m : Nat} {self : Disk} {file previousFile : Nat}
    {r : Disk × Nat × Nat} (h : diskFindFileLoop name n self file previousFile = some r)
    (hnm : n ≤ m) : diskFindFileLoop name m self file previousFile = some r := by
  induction n generalizing m self file previousFile with
  | zero => simp [diskFindFileLoop] at h
  | succ n ih =>
    obtain ⟨m, rfl⟩ : ∃ k, m = k + 1 := ⟨m - 1, by omega⟩
    simp only [diskFindFileLoop] at h ⊢
    split at h <;> simp_all
    split at h <;> simp_all

theorem diskGetFileSizeLoop_mono {n m : Nat} {self : Disk} {fileSize headerSize : Nat}
    {r : Disk × Nat} (h : diskGetFileSizeLoop n self fileSize headerSize = some r) (hnm : n ≤ m) :
    diskGetFileSizeLoop m self fileSize headerSize = some r := by
  induction n generalizing m self fileSize headerSize with
  | zero => simp [diskGetFileSizeLoop] at h
  | succ n ih =>
    obtain ⟨m, rfl⟩ : ∃ k, m = k + 1 := ⟨m - 1, by omega⟩
    simp only [diskGetFileSizeLoop] at h ⊢
    split at h <;> simp_all

theorem diskReadFileLoop_mono {n m : Nat} {self : Disk} {block offset size : Nat}
    {data : List UInt8} {r : Disk × ReadResult}
    (h : diskReadFileLoop n self block offset data size = some r) (hnm : n ≤ m) :
    diskReadFileLoop m self block offset data size = some r := by
  induction n generalizing m self block offset data size with
  | zero => simp [diskReadFileLoop] at h
  | succ n ih =>
    obtain ⟨m, rfl⟩ : ∃ k, m = k + 1 := ⟨m - 1, by omega⟩
    simp only [diskReadFileLoop] at h ⊢
    split_ifs at h ⊢
    all_goals first | exact h | exact ih h (by omega)

theorem diskCreateFileLoop_mono {name : List UInt8} {n m : Nat} {self : Disk}
    {file previousFile : Nat} {r : Disk × Except Status (Nat × Nat)}
    (h : diskCreateFileLoop name n self file previousFile = some r) (hnm : n ≤ m) :
    diskCreateFileLoop name m self file previousFile = some r := by
  induction n generalizing m self file previousFile with
  | zero => simp [diskCreateFileLoop] at h
  | succ n ih =>
    obtain ⟨m, rfl⟩ : ∃ k, m = k + 1 := ⟨m - 1, by omega⟩
    simp only [diskCreateFileLoop] at h ⊢
    split_ifs at h ⊢
    · exact h
    · cases hc : diskCompareFileName (diskReadBlockBuffer self file).blockBuffer name <;>
        simp only [hc] at h ⊢
      · exact h
      · exact ih h (by omega)
      · exact h

theorem diskWriteFileLoop_mono {n m : Nat} {self : Disk} {block newFirstFreeBlock used free : Nat}
    {src : List UInt8} {r : Disk × Nat × Nat × Status}
    (h : diskWriteFileLoop n self block newFirstFreeBlock used free src = some r) (hnm : n ≤ m) :
    diskWriteFileLoop m self block newFirstFreeBlock used free src = some r := by
  induction n generalizing m self block newFirstFreeBlock used free src with
  | zero => simp [diskWriteFileLoop] at h
  | succ n ih =>
    obtain ⟨m, rfl⟩ : ∃ k, m = k + 1 := ⟨m - 1, by omega⟩
    simp only [diskWriteFileLoop] at h ⊢
    split_ifs at h ⊢
    · exact h
    · exact h
    · exact ih h (by omega)

theorem diskLastBlockLoop_mono {n m : Nat} {self : Disk} {lastBlock : Nat} {r : Disk × Nat}
    (h : diskLastBlockLoop n self lastBlock = some r) (hnm : n ≤ m) :
    diskLastBlockLoop m self lastBlock = some r := by
  induction n generalizing m self lastBlock with
  | zero => simp [diskLastBlockLoop] at h
  | succ n ih =>
    obtain ⟨m, rfl⟩ : ∃ k, m = k + 1 := ⟨m - 1, by omega⟩
    simp only [diskLastBlockLoop] at h ⊢
    split_ifs at h ⊢
    · exact ih h (by omega)
    · exact h

/-! ### Functions -/

variable {n m : Nat} {self : Disk}

/-- A larger bound does not change the result of `disk_find_file`. -/
theorem diskFindFile_mono {name : List UInt8} {previousFile : Nat} {r : Disk × Nat × Nat}
    (h : diskFindFile n self name previousFile = some r) (hnm : n ≤ m) :
    diskFindFile m self name previousFile = some r :=
  diskFindFileLoop_mono h hnm

theorem diskGetFileSize_mono {file : Nat} {r : Disk × Nat}
    (h : diskGetFileSize n self file = some r) (hnm : n ≤ m) :
    diskGetFileSize m self file = some r :=
  diskGetFileSizeLoop_mono h hnm

theorem diskReadFile_mono {block offset size : Nat} {r : Disk × ReadResult}
    (h : diskReadFile n self block offset size = some r) (hnm : n ≤ m) :
    diskReadFile m self block offset size = some r :=
  diskReadFileLoop_mono h hnm

theorem diskCreateFile_mono {name : List UInt8} {r : Disk × Except Status Nat}
    (h : diskCreateFile n self name = some r) (hnm : n ≤ m) :
    diskCreateFile m self name = some r := by
  simp only [diskCreateFile] at h ⊢
  split_ifs at h ⊢
  · exact h
  · exact h
  · exact h
  · cases hl : diskCreateFileLoop name n (diskReadBlockBuffer self SUPER_BLOCK)
      (diskReadBlockBuffer self SUPER_BLOCK).blockBuffer.nextFile 0 with
    | none => simp only [hl, reduceCtorEq] at h
    | some q => rw [diskCreateFileLoop_mono hl hnm]; rwa [hl] at h

theorem diskWriteFile_mono {block : Nat} {src : List UInt8} {r : Disk × Nat × Status}
    (h : diskWriteFile n self block src = some r) (hnm : n ≤ m) :
    diskWriteFile m self block src = some r := by
  simp only [diskWriteFile] at h ⊢
  generalize diskReadBlockBuffer (diskReadBlockBuffer self SUPER_BLOCK) block = read at h ⊢
  cases hl : diskWriteFileLoop n read block
      (blockGetNext (diskReadBlockBuffer self SUPER_BLOCK).blockBuffer) (blockSize read.blockBuffer)
      (Lib.U64.sub 512 (blockSize read.blockBuffer)) src with
  | none => simp only [hl, reduceCtorEq] at h
  | some q => rw [diskWriteFileLoop_mono hl hnm]; rwa [hl] at h

theorem diskDeleteFileBlocks_mono {block : Nat} {r : Disk}
    (h : diskDeleteFileBlocks n self block = some r) (hnm : n ≤ m) :
    diskDeleteFileBlocks m self block = some r := by
  simp only [diskDeleteFileBlocks] at h ⊢
  cases hl : diskLastBlockLoop n
      (diskReadBlockBuffer (diskReadBlockBuffer self SUPER_BLOCK) block) block with
  | none => simp only [hl, reduceCtorEq] at h
  | some q => rw [diskLastBlockLoop_mono hl hnm]; rwa [hl] at h

theorem diskClearFile_mono {file : Nat} {r : Disk} (h : diskClearFile n self file = some r)
    (hnm : n ≤ m) : diskClearFile m self file = some r := by
  simp only [diskClearFile] at h ⊢
  split_ifs at h ⊢
  · cases hl : diskDeleteFileBlocks n (diskReadBlockBuffer self file)
      (blockGetNext (diskReadBlockBuffer self file).blockBuffer) with
    | none => simp only [hl, reduceCtorEq] at h
    | some q => rw [diskDeleteFileBlocks_mono hl hnm]; rwa [hl] at h
  · exact h

theorem diskDeleteFile_mono {file previousFile : Nat} {r : Disk}
    (h : diskDeleteFile n self file previousFile = some r) (hnm : n ≤ m) :
    diskDeleteFile m self file previousFile = some r := by
  simp only [diskDeleteFile] at h ⊢
  cases hl : diskDeleteFileBlocks n
      (diskReadBlockBuffer (diskReadBlockBuffer self file) SUPER_BLOCK) file with
  | none => simp only [hl, reduceCtorEq] at h
  | some q => rw [diskDeleteFileBlocks_mono hl hnm]; rwa [hl] at h

end Toys.FileSystem
