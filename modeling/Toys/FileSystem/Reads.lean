import Mathlib
import Toys.FileSystem.Disk

namespace Toys.FileSystem

open Toys.Lib

/-!
# File system — reads on any image

What holds of the functions that read blocks whatever the image contains, and even when
reads fail: they change nothing but the reads to come, and deliver no more bytes than asked.

* `AfterReads` — the image after some reads;
* `NextFileRead` — the `next_file` word of a block, read from the device;
* `diskFindFile_afterReads`, `diskGetFileSize_afterReads`, `diskReadFile_afterReads`.
-/

/-- The image after some reads. -/
structure AfterReads (io io' : BlockIo) : Prop where
  blocks : io'.blocks = io.blocks
  numBlocks : io'.numBlocks = io.numBlocks
  readErrors : io'.readErrors <:+ io.readErrors

theorem AfterReads.refl (io : BlockIo) : AfterReads io io := ⟨rfl, rfl, List.suffix_refl _⟩

theorem AfterReads.trans {io io' io'' : BlockIo} (h : AfterReads io io') (h' : AfterReads io' io'') :
    AfterReads io io'' :=
  ⟨h'.blocks.trans h.blocks, h'.numBlocks.trans h.numBlocks, h'.readErrors.trans h.readErrors⟩

/-- Reading a block takes one of the read errors. -/
theorem diskReadBlockBuffer_afterReads (self : Disk) (block : Nat) :
    AfterReads self.io (diskReadBlockBuffer self block).io :=
  ⟨rfl, rfl, List.tail_suffix _⟩

/-- `next` is what the `next_file` word of the block `file` can be once the block is in the
    buffer: 0 if it can't be read. -/
def NextFileRead (io : BlockIo) (file next : Nat) : Prop :=
  next = (io.blocks file).nextFile ∨ next = 0 ∧ (io.readErrors ≠ [] ∨ io.numBlocks ≤ file)

/-- The link to the next file, read from the device. -/
theorem nextFileRead_diskReadBlockBuffer (self : Disk) (file : Nat) :
    NextFileRead self.io file (diskReadBlockBuffer self file).blockBuffer.nextFile := by
  unfold diskReadBlockBuffer
  by_cases hfail : (self.io.readErrors.headD false || decide (self.io.numBlocks ≤ file)) = true
  · refine Or.inr ⟨?_, ?_⟩
    · simp only [hfail, if_true, clearHeader, DiskBlock.nextFile_setNameLength]
      exact DiskBlock.nextFile_setNextFile (by decide)
    · rcases Bool.or_eq_true_iff.mp hfail with herr | hlt
      · left; rintro h0; simp [h0] at herr
      · right; simpa using hlt
  · left; simp only [hfail, if_false, Bool.false_eq_true]

/-- What can be read later could be read before. -/
theorem NextFileRead.of_afterReads {io io' : BlockIo} {file next : Nat} (h : AfterReads io io')
    (hnext : NextFileRead io' file next) : NextFileRead io file next := by
  unfold NextFileRead at hnext ⊢
  rw [h.blocks, h.numBlocks] at hnext
  refine hnext.imp_right fun ⟨h0, hor⟩ => ⟨h0, hor.imp_left fun hne hnil => hne ?_⟩
  have := h.readErrors
  rw [hnil] at this
  exact List.eq_nil_of_suffix_nil this

/-- Without read errors, reads keep the device. -/
theorem AfterReads.eq {io io' : BlockIo} (h : AfterReads io io') (hr : io.readErrors = []) :
    io' = io := by
  have hnil : io'.readErrors = [] := List.eq_nil_of_suffix_nil (hr ▸ h.readErrors)
  obtain ⟨h1, h2, -⟩ := h
  obtain ⟨numBlocks, blocks, readErrors, size_le⟩ := io
  obtain ⟨numBlocks', blocks', readErrors', size_le'⟩ := io'
  simp only at h1 h2 hnil hr
  subst h1 h2 hnil hr
  rfl

/-! ### Functions that only read -/

theorem diskFindFileLoop_afterReads {name : List UInt8} {n : Nat} {self : Disk}
    {file previousFile : Nat} {r : Disk × Nat × Nat}
    (h : diskFindFileLoop name n self file previousFile = some r) : AfterReads self.io r.1.io := by
  induction n generalizing self file previousFile with
  | zero => simp [diskFindFileLoop] at h
  | succ n ih =>
    have hread := diskReadBlockBuffer_afterReads self file
    simp only [diskFindFileLoop] at h
    split_ifs at h
    · rw [← Option.some.inj h]
      exact AfterReads.refl _
    · cases hc : diskCompareFileName (diskReadBlockBuffer self file).blockBuffer name <;>
        simp only [hc] at h
      · rw [← Option.some.inj h]
        exact hread
      · exact hread.trans (ih h)
      · rw [← Option.some.inj h]
        exact hread

theorem diskFindFile_afterReads {name : List UInt8} {n : Nat} {self : Disk} {previousFile : Nat}
    {r : Disk × Nat × Nat} (h : diskFindFile n self name previousFile = some r) :
    AfterReads self.io r.1.io :=
  (diskReadBlockBuffer_afterReads self SUPER_BLOCK).trans (diskFindFileLoop_afterReads h)

theorem diskGetFileSizeLoop_afterReads {n : Nat} {self : Disk} {fileSize headerSize : Nat}
    {r : Disk × Nat} (h : diskGetFileSizeLoop n self fileSize headerSize = some r) :
    AfterReads self.io r.1.io := by
  induction n generalizing self fileSize headerSize with
  | zero => simp [diskGetFileSizeLoop] at h
  | succ n ih =>
    simp only [diskGetFileSizeLoop] at h
    split_ifs at h
    · rw [← Option.some.inj h]
      exact AfterReads.refl _
    · exact (diskReadBlockBuffer_afterReads self _).trans (ih h)

theorem diskGetFileSize_afterReads {n : Nat} {self : Disk} {file : Nat} {r : Disk × Nat}
    (h : diskGetFileSize n self file = some r) : AfterReads self.io r.1.io :=
  (diskReadBlockBuffer_afterReads self file).trans (diskGetFileSizeLoop_afterReads h)

/-- The loop of `disk_read_file` delivers the bytes it was asked for, less the missing ones. -/
theorem diskReadFileLoop_afterReads {n : Nat} {self : Disk} {block offset size : Nat}
    {data : List UInt8} {r : Disk × ReadResult}
    (h : diskReadFileLoop n self block offset data size = some r) :
    AfterReads self.io r.1.io ∧ r.2.data.length + r.2.missing = data.length + size := by
  induction n generalizing self block offset data size with
  | zero => simp [diskReadFileLoop] at h
  | succ n ih =>
    have hread := diskReadBlockBuffer_afterReads self block
    simp only [diskReadFileLoop] at h
    generalize diskReadBlockBuffer self block = self' at h hread
    generalize (if blockGetNext self'.blockBuffer = 0 then U64.sub (blockSize self'.blockBuffer) offset
      else U64.sub 512 offset) = available at h
    split_ifs at h
    · rw [← Option.some.inj h]
      exact ⟨hread, by simp⟩
    · rw [← Option.some.inj h]
      exact ⟨hread, by simp; omega⟩
    · obtain ⟨hreads, hlen⟩ := ih h
      refine ⟨hread.trans hreads, ?_⟩
      simp only [List.length_append, DiskBlock.read_length] at hlen
      omega

theorem diskReadFile_afterReads {n : Nat} {self : Disk} {block offset size : Nat}
    {r : Disk × ReadResult} (h : diskReadFile n self block offset size = some r) :
    AfterReads self.io r.1.io :=
  (diskReadFileLoop_afterReads h).1

/-- `disk_read_file` reads no more than the size. -/
theorem diskReadFile_length {n : Nat} {self : Disk} {block offset size : Nat}
    {r : Disk × ReadResult} (h : diskReadFile n self block offset size = some r) :
    r.2.data.length ≤ size := by
  have := (diskReadFileLoop_afterReads h).2
  simp at this
  omega

theorem diskCreateFileLoop_afterReads {name : List UInt8} {n : Nat} {self : Disk}
    {file previousFile : Nat} {r : Disk × Except Status (Nat × Nat)}
    (h : diskCreateFileLoop name n self file previousFile = some r) : AfterReads self.io r.1.io := by
  induction n generalizing self file previousFile with
  | zero => simp [diskCreateFileLoop] at h
  | succ n ih =>
    have hread := diskReadBlockBuffer_afterReads self file
    simp only [diskCreateFileLoop] at h
    split_ifs at h
    · rw [← Option.some.inj h]
      exact AfterReads.refl _
    · cases hc : diskCompareFileName (diskReadBlockBuffer self file).blockBuffer name <;>
        simp only [hc] at h
      · rw [← Option.some.inj h]
        exact hread
      · exact hread.trans (ih h)
      · rw [← Option.some.inj h]
        exact hread

/-- `disk_create_file` makes all its checks before it writes a block. -/
theorem diskCreateFile_error_afterReads {name : List UInt8} {n : Nat} {self self' : Disk}
    {status : Status} (h : diskCreateFile n self name = some (self', .error status)) :
    AfterReads self.io self'.io := by
  have hread := diskReadBlockBuffer_afterReads self SUPER_BLOCK
  simp only [diskCreateFile] at h
  split_ifs at h
  · rw [Option.some.injEq, Prod.mk.injEq] at h
    rw [← h.1]
    exact AfterReads.refl _
  · rw [Option.some.injEq, Prod.mk.injEq] at h
    rw [← h.1]
    exact AfterReads.refl _
  · rw [Option.some.injEq, Prod.mk.injEq] at h
    rw [← h.1]
    exact hread
  · cases hl : diskCreateFileLoop name n (diskReadBlockBuffer self SUPER_BLOCK)
      (diskReadBlockBuffer self SUPER_BLOCK).blockBuffer.nextFile 0 with
    | none => simp only [hl, reduceCtorEq] at h
    | some q =>
      obtain ⟨disk, result⟩ := q
      have hloop := hread.trans (diskCreateFileLoop_afterReads hl)
      simp only [hl] at h
      cases result with
      | error status =>
        simp only [Option.some.injEq, Prod.mk.injEq] at h
        rw [← h.1]
        exact hloop
      | ok q => simp at h

/-- `disk_create_file` does not report an error with the status `OK`. -/
theorem diskCreateFile_ne_ok {n : Nat} {self self' : Disk} {name : List UInt8} :
    diskCreateFile n self name ≠ some (self', .error .ok) := by
  have hloop : ∀ {n : Nat} {self self' : Disk} {file previousFile : Nat},
      diskCreateFileLoop name n self file previousFile ≠ some (self', .error .ok) := by
    intro n
    induction n with
    | zero => intros; simp [diskCreateFileLoop]
    | succ n ih =>
      intro self self' file previousFile h
      simp only [diskCreateFileLoop] at h
      split_ifs at h
      · simp at h
      · cases hc : diskCompareFileName (diskReadBlockBuffer self file).blockBuffer name <;>
          simp only [hc] at h
        · simp at h
        · exact ih h
        · simp at h
  intro h
  simp only [diskCreateFile] at h
  split_ifs at h
  · simp at h
  · simp at h
  · simp at h
  · cases hl : diskCreateFileLoop name n (diskReadBlockBuffer self SUPER_BLOCK)
      (diskReadBlockBuffer self SUPER_BLOCK).blockBuffer.nextFile 0 with
    | none => simp only [hl, reduceCtorEq] at h
    | some q =>
      obtain ⟨disk, result⟩ := q
      simp only [hl] at h
      cases result with
      | error status =>
        simp only [Option.some.injEq, Prod.mk.injEq, Except.error.injEq] at h
        exact hloop (by rw [hl, h.2])
      | ok q => simp at h

end Toys.FileSystem
