import Mathlib
import Toys.Os.Traversal

namespace Toys.Os

open Toys.Lib Toys.FileSystem

/-!
# Kernel — what a system call does

Each system call that returns has one of a few effects on the frames, the disk and the
memory (`Effect`), which the functions on streams and on the disk determine.

* `StreamEffect`, `OpenEffect`, `Effect` — the effects, with all that they change;
* `ReadOutcome`, `osRead_cases`, `OpenPath`, `osOpen_cases` — all that `os_read` and `os_open` can do;
* `osClose_effect`, `osRead_effect`, ... — one lemma for each call;
* `call_effect` — the effect of any call.
-/

/-! ### Effects -/

/-- How a call on an open stream changes it, and the disk. -/
inductive StreamEffect (n : Nat) (disk : Disk) : Disk → StreamState → StreamState → Prop
  | close {s : StreamState} :
      StreamEffect n disk disk s { s with mode := MODE_UNUSED, fileBlock := 0 }
  | list {s : StreamState} (h : s.mode = MODE_LIST) :
      StreamEffect n disk (diskReadBlockBuffer disk s.fileBlock) s
        { s with fileBlock := (diskReadBlockBuffer disk s.fileBlock).blockBuffer.nextFile }
  | read {s : StreamState} {disk' : Disk} {size : Nat} {r : ReadResult} (h : s.mode = MODE_READ)
      (hread : diskReadFile n disk s.currentBlock s.currentOffset size = some (disk', r)) :
      StreamEffect n disk disk' s
        { s with currentBlock := r.block % 2 ^ 64, currentOffset := r.offset % 2 ^ 64 }
  | write {s : StreamState} {disk' : Disk} {src : List UInt8} {block : Nat} {status : Status}
      (h : s.mode = MODE_WRITE)
      (hwrite : diskWriteFile n disk s.currentBlock src = some (disk', block, status)) :
      StreamEffect n disk disk' s { s with currentBlock := block % 2 ^ 64 }

/-- How opening an unused stream changes it, and the disk. -/
inductive OpenEffect (n : Nat) (disk : Disk) (frames : List Frame) :
    Disk → StreamState → StreamState → Prop
  | list {s : StreamState} {disk' : Disk} {file : Nat} (h : AfterReads disk.io disk'.io) :
      OpenEffect n disk frames disk' s
        { s with mode := MODE_LIST, fileBlock := file % 2 ^ 64, currentBlock := file % 2 ^ 64 }
  | read {s : StreamState} {disk₁ disk₂ : Disk} {name : List UInt8} {file previous : Nat}
      (h : AfterReads disk.io disk₁.io)
      (hfind : diskFindFile n disk₁ name 0 = some (disk₂, file, previous)) (hfile : file ≠ 0)
      (hallows : ∀ f ∈ frames, ∀ t ∈ f.streams, t.Allows file MODE_READ) :
      OpenEffect n disk frames (diskReadBlockBuffer disk₂ file) s
        ⟨MODE_READ, file % 2 ^ 64, file % 2 ^ 64,
          U64.add 24 (diskReadBlockBuffer disk₂ file).blockBuffer.nameLength % 2 ^ 64⟩
  | clear {s : StreamState} {disk₁ disk₂ disk' : Disk} {name : List UInt8} {file previous : Nat}
      (h : AfterReads disk.io disk₁.io)
      (hfind : diskFindFile n disk₁ name 0 = some (disk₂, file, previous)) (hfile : file ≠ 0)
      (hallows : ∀ f ∈ frames, ∀ t ∈ f.streams, t.Allows file MODE_WRITE)
      (hclear : diskClearFile n disk₂ file = some disk') :
      OpenEffect n disk frames disk' s
        { s with mode := MODE_WRITE, fileBlock := file % 2 ^ 64, currentBlock := file % 2 ^ 64 }
  | create {s : StreamState} {disk₁ disk' : Disk} {name : List UInt8} {file : Nat}
      (h : AfterReads disk.io disk₁.io)
      (hcreate : diskCreateFile n disk₁ name = some (disk', .ok file)) :
      OpenEffect n disk frames disk' s
        { s with mode := MODE_WRITE, fileBlock := file % 2 ^ 64, currentBlock := file % 2 ^ 64 }

/-- The frame of a process that looked for an unused stream. -/
def Frame.Extends (f f' : Frame) : Prop :=
  f' = f ∨ ∃ s, s.mode = MODE_UNUSED ∧ f' = f.addStream s

/-- The memory changes only on the kernel heap and in the memory of the process. -/
def ProcessMemory (base : Nat) (k : Kernel) (f : Frame) (memory : ByteMem) : Prop :=
  ∀ j, (j < base ∨ k.heapLimit ≤ j) → (j < f.process.begin ∨ f.process.end_ ≤ j) →
    memory j = k.memory j

/-- The process that `os_spawn` creates. -/
structure SpawnedProcess (k : Kernel) (f : Frame) (a : CallArguments) (p : Process) : Prop where
  parent : p.parent = f.address
  begin : p.begin = pageUp a.arg0
  end_ : p.end_ = pageDown f.process.savedStackPointer
  fileStreams : p.fileStreams = 0
  outputP : p.outputP = a.arg5
  outputLimit : p.outputLimit = a.arg0
  checked : spawnArgumentsOk k.memory f.process p.begin p.end_ a.arg0 a.arg1 a.arg2 a.arg3 a.arg4
    a.arg5 = true

/-- The effect of a system call that returns: the state and the frames after it. -/
inductive Effect (n base : Nat) (k : Kernel) (f : Frame) (fs : List Frame) (id : Nat)
    (a : CallArguments) : Kernel → Nat → List Frame → Prop
  /-- Only blocks are read. -/
  | quiet {disk : Disk} {r : Nat} (hr : r = OK → id ≠ 0 ∧ id ≠ 1 ∧ id ≠ 8)
      (h : AfterReads k.disk.io disk.io) :
      Effect n base k f fs id a { k with disk := disk } r (f :: fs)
  /-- A key is stored. -/
  | key {c : Nat} (hid : id = 5) (hstream : a.arg0 < FIRST_FILE_STREAM_ID)
      (hbuffer : processContainsBuffer f.process a.arg1 a.arg2) :
      Effect n base k f fs id a { k with memory := k.memory.store 8 a.arg1 c } 1 (f :: fs)
  /-- Bytes are written to the standard output. -/
  | output (hid : id = 6) (hstream : a.arg0 = STANDARD_OUTPUT)
      (hbuffer : processContainsBuffer f.process a.arg1 a.arg2) :
      Effect n base k f fs id a (osWriteOutput k a.arg0 a.arg1 a.arg2).1
        (osWriteOutput k a.arg0 a.arg1 a.arg2).2 (f :: fs)
  /-- An open stream changes. -/
  | stream {disk : Disk} {memory : ByteMem} {i r : Nat} {s s' : StreamState}
      (hid : id = 5 ∨ id = 6 ∨ id = 7) (harg : a.arg0 = i + 4) (hs : f.streams[i]? = some s)
      (h : StreamEffect n k.disk disk s s') (hmem : ProcessMemory base k f memory) :
      Effect n base k f fs id a { k with disk := disk, memory := memory } r (f.setStream i s' :: fs)
  /-- A stream is opened. -/
  | opened {disk : Disk} {memory : ByteMem} {heap i r : Nat} {s s' : StreamState} {f' : Frame}
      (hid : id = 4) (hf : f.Extends f') (hs : f'.streams[i]? = some s) (hmode : s.mode = MODE_UNUSED)
      (h : OpenEffect n k.disk (f' :: fs) disk s s') (hmem : ProcessMemory base k f memory) :
      Effect n base k f fs id a { k with heap := heap, disk := disk, memory := memory } r
        (f'.setStream i s' :: fs)
  /-- A stream could not be opened. -/
  | openFailed {disk₁ disk : Disk} {memory : ByteMem} {heap r : Nat} {f' : Frame}
      (hid : id = 4) (hf : f.Extends f') (h : AfterReads k.disk.io disk₁.io)
      (hdisk : disk = disk₁ ∨
        ∃ name status, diskCreateFile n disk₁ name = some (disk, .error status))
      (hmem : ProcessMemory base k f memory) :
      Effect n base k f fs id a { k with heap := heap, disk := disk, memory := memory } r (f' :: fs)
  /-- A file is deleted. -/
  | delete {disk₁ disk₂ disk : Disk} {memory : ByteMem} {file previous : Nat}
      {frames : List Frame} (hid : id = 8)
      (hfind : diskFindFile n k.disk (k.memory.slice a.arg0 a.arg1) 0 = some (disk₁, file, previous))
      (hfile : file ≠ 0) (hallows : ∀ g ∈ f :: fs, ∀ t ∈ g.streams, t.Allows file MODE_WRITE)
      (hskips : List.Forall₂ (Frame.Skips disk₁.io file) (f :: fs) frames)
      (hreads : AfterReads disk₁.io disk₂.io)
      (hdelete : diskDeleteFile n disk₂ file previous = some disk)
      (hmem : ProcessMemory base k f memory) :
      Effect n base k f fs id a { k with disk := disk, memory := memory } OK frames
  /-- A process is spawned. -/
  | spawn {disk : Disk} {memory : ByteMem} {p : Process} (hid : id = 0)
      (hreads : AfterReads k.disk.io disk.io) (hp : SpawnedProcess k f a p)
      (hmem : ∀ j, (j < base ∨ k.heapLimit ≤ j) → (j < p.begin ∨ p.end_ ≤ j) →
        memory j = k.memory j) :
      Effect n base k f fs id a
        (osSetCurrentProcess { k with heap := k.heap + 80, disk := disk, memory := memory } k.heap)
        OK (⟨k.heap, p, []⟩ :: f :: fs)
  /-- The process exits. -/
  | exit {g : Frame} {gs : List Frame} (hid : id = 1) (hfs : fs = g :: gs) (hr : a.arg0 < 2 ^ 56) :
      Effect n base k f fs id a (osExit k a.arg0).1 OK
        ({ g with process := { g.process with savedR8 := a.arg0 } } :: gs)

/-! ### Checks -/

section Checks

variable {p : Process} {ptr size : Nat}

/-- The check of a buffer, for bounds that fit. -/
theorem processContainsBuffer_iff (h : p.Fits) :
    processContainsBuffer p ptr size = true ↔
      p.begin ≤ ptr ∧ ptr < p.end_ ∧ ptr + size ≤ p.end_ := by
  have hend := h.end_
  unfold processContainsBuffer
  by_cases hptr : ptr < p.begin ∨ ptr ≥ p.end_
  · rw [if_pos hptr]
    simp only [Bool.false_eq_true, false_iff]
    omega
  · rw [if_neg hptr, U64.sub_eq (by omega) hend]
    split
    · simp only [Bool.false_eq_true, false_iff]
      omega
    · simp only [true_iff]
      omega

end Checks

variable {n base r : Nat} {k k' : Kernel} {f : Frame} {fs : List Frame}

/-- The process of the first frame is the current process. -/
theorem Framed.process_eq (h : Framed k base (f :: fs)) : k.process k.currentProcess = f.process := by
  rw [h.current]
  exact h.frames.2.1.process

/-- The bounds of a process fit. -/
theorem Framed.fits (h : Framed k base (f :: fs)) : f.process.Fits := by
  rw [← h.process_eq]
  exact readProcess_fits _ _

/-- Changes outside of the kernel heap do not change the frames. -/
theorem Framed.congr (h : Framed k base fs) {memory : ByteMem} {disk : Disk}
    (hmem : ∀ j, base ≤ j → j < k.heap → memory j = k.memory j) :
    Framed { k with disk := disk, memory := memory } base fs :=
  ⟨h.frames.congr hmem, h.current, h.base_pos, h.heap_le, h.begin_ge, h.limit_lt⟩

/-- Changing a stream of the current process. -/
theorem Framed.setStream (h : Framed k base (f :: fs)) {memory : ByteMem} {disk : Disk} {i : Nat}
    {s s' : StreamState} (hs : f.streams[i]? = some s)
    (hread : ∀ next, readStream k.memory (f.streamAddress i) = s.record next →
      readStream memory (f.streamAddress i) = s'.record next)
    (hframe : ∀ j, base ≤ j → j < k.heap →
      (j < f.streamAddress i ∨ f.streamAddress i + 40 ≤ j) → memory j = k.memory j) :
    Framed { k with disk := disk, memory := memory } base (f.setStream i s' :: fs) :=
  ⟨h.frames.setStream hs hread hframe, h.current, h.base_pos, h.heap_le,
    List.forall_mem_cons.mpr (List.forall_mem_cons.mp h.begin_ge), h.limit_lt⟩

/-- The streams of the current process are on the kernel heap. -/
theorem Framed.streamAddress_bounds (h : Framed k base (f :: fs)) {i : Nat} {s : StreamState}
    (hs : f.streams[i]? = some s) :
    base ≤ f.streamAddress i ∧ f.streamAddress i + 40 ≤ k.heap := by
  have hi := Frame.streamAddress_lt (List.getElem?_eq_some_iff.mp hs).1
  have hend := h.frames.endAddress_le f (by simp)
  have hge := h.frames.address_ge f (by simp)
  unfold Frame.streamAddress at hi ⊢
  omega

/-- The stream at the address of the stream `i`. -/
theorem Framed.read (h : Framed k base (f :: fs)) {i : Nat} {s : StreamState}
    (hs : f.streams[i]? = some s) :
    ∃ next, k.stream (f.streamAddress i) = s.record next :=
  ⟨_, h.frames.2.1.streams.read hs⟩

/-- A call that changes nothing. -/
theorem Framed.quiet (h : Framed k base (f :: fs)) {id : Nat} {a : CallArguments} (hk : k = k')
    (hr : r = OK → id ≠ 0 ∧ id ≠ 1 ∧ id ≠ 8 := by exact fun _ => by decide) :
    ∃ fs', Framed k' base fs' ∧ Effect n base k f fs id a k' r fs' := by
  subst hk
  exact ⟨f :: fs, h, Effect.quiet hr (AfterReads.refl _)⟩

/-! ### Calls on open streams -/

/-- A call on a stream either finds no stream or finds one of the current process. -/
theorem Framed.getFileStream (h : Framed k base (f :: fs)) {streamId stream : Nat}
    (hget : processGetFileStream n k.memory k.currentProcess streamId = some stream)
    (hne : stream ≠ 0) : ∃ i s next, f.streams[i]? = some s ∧ stream = f.streamAddress i ∧
      k.stream stream = s.record next ∧ streamId = i + 4 := by
  have hheap := h.heap_le
  have hlimit := h.limit_lt
  rw [h.current] at hget
  rcases processGetFileStream_spec h.frames (by omega) hget with h0 | ⟨i, s, hs, rfl, hi⟩
  · exact absurd h0 hne
  · obtain ⟨next, hread⟩ := h.read hs
    exact ⟨i, s, next, hs, rfl, hread, hi⟩

/-- The effect of `os_close`. -/
theorem osClose_effect {a : CallArguments} (h : Framed k base (f :: fs))
    (hrun : osClose n k a.arg0 = some (k', r)) :
    ∃ fs', Framed k' base fs' ∧ Effect n base k f fs 7 a k' r fs' := by
  unfold osClose at hrun
  cases hget : processGetFileStream n k.memory k.currentProcess a.arg0 with
  | none => simp [hget] at hrun
  | some stream =>
    simp only [hget] at hrun
    by_cases hc : stream = 0 ∨ (k.stream stream).mode = MODE_UNUSED
    · rw [if_pos hc, Option.some.injEq, Prod.mk.injEq] at hrun
      exact h.quiet hrun.1
    rw [if_neg hc, Option.some.injEq, Prod.mk.injEq] at hrun
    obtain ⟨rfl, -⟩ := hrun
    obtain ⟨i, s, next, hs, rfl, hread, hi⟩ := h.getFileStream hget fun h0 => hc (Or.inl h0)
    obtain ⟨hge, hle⟩ := h.streamAddress_bounds hs
    have hheap := h.heap_le
    have hframe : ∀ j, (j < f.streamAddress i ∨ f.streamAddress i + 40 ≤ j) →
        setFileBlock (setMode k.memory (f.streamAddress i) MODE_UNUSED) (f.streamAddress i) 0 j =
          k.memory j := fun j hj => by
      simp (disch := omega) only [setFileBlock, setMode, ByteMem.store_of_not_mem]
    refine ⟨f.setStream i { s with mode := MODE_UNUSED, fileBlock := 0 } :: fs,
      h.setStream hs (fun next hnext => ?_) (fun j h1 h2 h3 => hframe j h3),
      Effect.stream (by simp) hi hs StreamEffect.close fun j h1 h2 => hframe j (by omega)⟩
    rw [readStream_setFileBlock, readStream_setMode, hnext]
    rfl

/-- The effect of `os_write`, if it stores nothing in the records of the kernel. -/
theorem osWrite_effect {a : CallArguments} (h : Framed k base (f :: fs))
    (hout : ∀ m', m' = (osWriteOutput k a.arg0 a.arg1 a.arg2).1.memory →
      a.arg0 = STANDARD_OUTPUT → processContainsBuffer f.process a.arg1 a.arg2 →
      ∀ j, base ≤ j → j < k.heap → m' j = k.memory j)
    (hrun : osWrite n k a.arg0 a.arg1 a.arg2 = some (k', r)) :
    ∃ fs', Framed k' base fs' ∧ Effect n base k f fs 6 a k' r fs' := by
  simp only [osWrite, h.process_eq] at hrun
  by_cases hbuffer : processContainsBuffer f.process a.arg1 a.arg2 = true
  case neg =>
    rw [if_pos hbuffer, Option.some.injEq, Prod.mk.injEq] at hrun
    exact h.quiet hrun.1
  rw [if_neg (not_not_intro hbuffer)] at hrun
  -- a stream that is not that of a file: only the standard output is written to
  by_cases hid : a.arg0 < FIRST_FILE_STREAM_ID
  · rw [if_pos hid, Option.some.injEq] at hrun
    by_cases hstdout : a.arg0 = STANDARD_OUTPUT
    · have hmem := hout _ rfl hstdout hbuffer
      obtain rfl : (osWriteOutput k a.arg0 a.arg1 a.arg2).1 = k' := by rw [hrun]
      obtain rfl : (osWriteOutput k a.arg0 a.arg1 a.arg2).2 = r := by rw [hrun]
      have hk : (osWriteOutput k a.arg0 a.arg1 a.arg2).1 =
          { k with memory := (osWriteOutput k a.arg0 a.arg1 a.arg2).1.memory } := by
        simp [osWriteOutput, hstdout]
      refine ⟨f :: fs, ?_, Effect.output rfl hstdout hbuffer⟩
      rw [hk]
      exact h.congr hmem
    · have hk : (osWriteOutput k a.arg0 a.arg1 a.arg2).1 = k := by
        unfold osWriteOutput
        rw [if_neg hstdout]
        split <;> rfl
      exact h.quiet (hk.symm.trans (congrArg Prod.fst hrun))
  rw [if_neg hid] at hrun
  cases hget : processGetFileStream n k.memory k.currentProcess a.arg0 with
  | none => simp [hget] at hrun
  | some stream =>
    simp only [hget] at hrun
    by_cases hc : stream = 0 ∨ (k.stream stream).mode = MODE_UNUSED
    · rw [if_pos hc, Option.some.injEq, Prod.mk.injEq] at hrun
      exact h.quiet hrun.1
    rw [if_neg hc] at hrun
    obtain ⟨i, s, next, hs, rfl, hread, hi⟩ := h.getFileStream hget fun h0 => hc (Or.inl h0)
    rw [hread] at hrun
    by_cases hmode : (s.record next).mode = MODE_WRITE
    case neg =>
      rw [if_pos hmode, Option.some.injEq, Prod.mk.injEq] at hrun
      exact h.quiet hrun.1
    rw [if_neg (not_not_intro hmode)] at hrun
    cases hwrite : diskWriteFile n k.disk (s.record next).currentBlock
        (k.memory.slice a.arg1 a.arg2) with
    | none => simp [hwrite] at hrun
    | some q =>
      obtain ⟨disk, block, status⟩ := q
      simp only [hwrite, Option.some.injEq, Prod.mk.injEq] at hrun
      obtain ⟨rfl, -⟩ := hrun
      obtain ⟨hge, hle⟩ := h.streamAddress_bounds hs
      have hheap := h.heap_le
      -- only the current block of the stream is stored
      have hframe : ∀ j, (j < f.streamAddress i ∨ f.streamAddress i + 40 ≤ j) →
          setCurrentBlock k.memory (f.streamAddress i) block j = k.memory j := fun j hj =>
        ByteMem.store_of_not_mem (by omega)
      refine ⟨f.setStream i { s with currentBlock := block % 2 ^ 64 } :: fs,
        h.setStream hs (fun next hnext => ?_) (fun j h1 h2 h3 => hframe j h3),
        Effect.stream (by simp) hi hs (StreamEffect.write hmode hwrite) fun j h1 h2 => hframe j (by omega)⟩
      rw [readStream_setCurrentBlock, hnext]
      rfl

/-! ### Reading from a stream -/

/-- The key that `os_read` stores, on the two streams of the keyboard. -/
def keyRead (streamId : Nat) (keys : List (Option UInt32)) : Option Nat :=
  if streamId = STANDARD_INPUT then keyboardWaitChar keys
  else if streamId = KEYBOARD then some (keyboardGetChar ((keys.head?.join).map UInt32.toNat))
  else none

/-- Only the first streams read a key. -/
theorem keyRead_lt {streamId c : Nat} {keys : List (Option UInt32)} (h : keyRead streamId keys = some c) :
    streamId < FIRST_FILE_STREAM_ID := by
  unfold keyRead at h
  split at h
  · rename_i h0
    rw [h0]
    decide
  · split at h
    · rename_i h2
      rw [h2]
      decide
    · cases h

/-- The state and the result of a call of `os_read` by the process of the frame `f`. -/
inductive ReadOutcome (n : Nat) (k : Kernel) (f : Frame) (streamId buffer size : Nat)
    (keys : List (Option UInt32)) : Kernel → Nat → Prop
  | failed {status : Status} (h : status ≠ .ok) :
      ReadOutcome n k f streamId buffer size keys k (errorResult status)
  | key {c : Nat} (hsize : 1 ≤ size) (hbuffer : processContainsBuffer f.process buffer size = true)
      (hc : keyRead streamId keys = some c) :
      ReadOutcome n k f streamId buffer size keys { k with memory := k.memory.store 8 buffer c } 1
  | listEnd {i : Nat} {s : StreamState} (hid : streamId = i + 4) (hs : f.streams[i]? = some s)
      (hmode : s.mode = MODE_LIST) (h0 : s.fileBlock = 0)
      (hbuffer : processContainsBuffer f.process buffer size = true) :
      ReadOutcome n k f streamId buffer size keys k 0
  | list {i : Nat} {s : StreamState} {disk : Disk} (hid : streamId = i + 4)
      (hs : f.streams[i]? = some s) (hmode : s.mode = MODE_LIST) (h0 : s.fileBlock ≠ 0)
      (hbuffer : processContainsBuffer f.process buffer size = true)
      (hdisk : disk = diskReadBlockBuffer k.disk s.fileBlock) :
      ReadOutcome n k f streamId buffer size keys
        { k with
          disk := disk
          memory := setFileBlock (k.memory.copyIn buffer
            (disk.blockBuffer.read 24 (min size disk.blockBuffer.nameLength)))
              (f.streamAddress i) disk.blockBuffer.nextFile }
        (min size disk.blockBuffer.nameLength)
  | file {i : Nat} {s : StreamState} {disk : Disk} {result : ReadResult} (hid : streamId = i + 4)
      (hs : f.streams[i]? = some s) (hmode : s.mode = MODE_READ)
      (hbuffer : processContainsBuffer f.process buffer size = true)
      (hread : diskReadFile n k.disk s.currentBlock s.currentOffset size = some (disk, result)) :
      ReadOutcome n k f streamId buffer size keys
        { k with
          disk := disk
          memory := setCurrentOffset (setCurrentBlock (k.memory.copyIn buffer result.data)
            (f.streamAddress i) result.block) (f.streamAddress i) result.offset }
        result.data.length

/-- All that `os_read` can do. -/
theorem osRead_cases {streamId buffer size : Nat} {keys : List (Option UInt32)} (h : Framed k base (f :: fs))
    (hrun : osRead n k streamId buffer size keys = some (k', r)) :
    ReadOutcome n k f streamId buffer size keys k' r := by
  simp only [osRead, h.process_eq] at hrun
  by_cases hc : size = 0 ∨ ¬ processContainsBuffer f.process buffer size = true
  · rw [if_pos hc, Option.some.injEq, Prod.mk.injEq] at hrun
    obtain ⟨rfl, rfl⟩ := hrun
    exact ReadOutcome.failed (by decide)
  rw [if_neg hc] at hrun
  obtain ⟨hsize, hbuffer⟩ := not_or.mp hc
  rw [not_not] at hbuffer
  by_cases hid : streamId < FIRST_FILE_STREAM_ID
  · rw [if_pos hid] at hrun
    unfold osReadKeyboard at hrun
    split_ifs at hrun with h0 h2
    · -- the standard input
      cases hwait : keyboardWaitChar keys with
      | none => simp [hwait] at hrun
      | some c =>
        simp only [hwait, Option.some.injEq, Prod.mk.injEq] at hrun
        obtain ⟨rfl, rfl⟩ := hrun
        exact ReadOutcome.key (by omega) hbuffer (by rw [keyRead, if_pos h0, hwait])
    · -- the keyboard
      rw [Option.some.injEq, Prod.mk.injEq] at hrun
      obtain ⟨rfl, rfl⟩ := hrun
      exact ReadOutcome.key (by omega) hbuffer (by rw [keyRead, if_neg h0, if_pos h2])
    · rw [Option.some.injEq, Prod.mk.injEq] at hrun
      obtain ⟨rfl, rfl⟩ := hrun
      exact ReadOutcome.failed (by decide)
  rw [if_neg hid] at hrun
  cases hget : processGetFileStream n k.memory k.currentProcess streamId with
  | none => simp [hget] at hrun
  | some stream =>
    simp only [hget] at hrun
    by_cases hc : stream = 0 ∨ (k.stream stream).mode = MODE_UNUSED
    · rw [if_pos hc, Option.some.injEq, Prod.mk.injEq] at hrun
      obtain ⟨rfl, rfl⟩ := hrun
      exact ReadOutcome.failed (by decide)
    rw [if_neg hc] at hrun
    obtain ⟨i, s, next, hs, rfl, hread, hstream⟩ := h.getFileStream hget fun h0 => hc (Or.inl h0)
    rw [hread] at hrun
    by_cases hlist : (s.record next).mode = MODE_LIST
    · rw [if_pos hlist] at hrun
      by_cases h0 : (s.record next).fileBlock = 0
      · rw [if_pos h0, Option.some.injEq, Prod.mk.injEq] at hrun
        obtain ⟨rfl, rfl⟩ := hrun
        exact ReadOutcome.listEnd hstream hs hlist h0 hbuffer
      · rw [if_neg h0, Option.some.injEq, Prod.mk.injEq] at hrun
        obtain ⟨rfl, rfl⟩ := hrun
        exact ReadOutcome.list hstream hs hlist h0 hbuffer rfl
    rw [if_neg hlist] at hrun
    by_cases hmode : (s.record next).mode = MODE_READ
    case neg =>
      rw [if_pos hmode, Option.some.injEq, Prod.mk.injEq] at hrun
      obtain ⟨rfl, rfl⟩ := hrun
      exact ReadOutcome.failed (by decide)
    rw [if_neg (not_not_intro hmode)] at hrun
    cases hfile : diskReadFile n k.disk (s.record next).currentBlock (s.record next).currentOffset
        size with
    | none => simp [hfile] at hrun
    | some q =>
      obtain ⟨disk, result⟩ := q
      simp only [hfile, Option.some.injEq, Prod.mk.injEq] at hrun
      obtain ⟨rfl, rfl⟩ := hrun
      -- the result is the number of bytes delivered
      have hlength := (diskReadFileLoop_afterReads hfile).2
      obtain ⟨-, -, hend⟩ := (processContainsBuffer_iff h.fits).mp hbuffer
      have hend64 := h.fits.end_
      simp only [List.length_nil] at hlength
      have hresult : U64.sub size result.missing = result.data.length := by
        rw [U64.sub_eq (by omega) (by omega)]
        omega
      rw [hresult]
      exact ReadOutcome.file hstream hs hmode hbuffer hfile

/-- Storing bytes in the memory of the process does not change its streams. -/
theorem Framed.copyIn (h : Framed k base (f :: fs)) {buffer : Nat} {bs : List UInt8}
    (hbuffer : f.process.begin ≤ buffer) {j : Nat} (hj : j < k.heapLimit) :
    k.memory.copyIn buffer bs j = k.memory j := by
  have := h.begin_ge f (by simp)
  exact ByteMem.copyIn_of_not_mem (by omega)

/-- The end of a read from a file: the bytes are in the memory of the process, and the position
    in the stream. -/
theorem Framed.readFile (h : Framed k base (f :: fs)) {buffer i : Nat} {s : StreamState}
    (disk : Disk) (r : ReadResult) (hs : f.streams[i]? = some s) (hbuffer : f.process.begin ≤ buffer) :
    Framed { k with
        disk := disk
        memory := setCurrentOffset (setCurrentBlock (k.memory.copyIn buffer r.data)
          (f.streamAddress i) r.block) (f.streamAddress i) r.offset } base
      (f.setStream i { s with
        currentBlock := r.block % 2 ^ 64, currentOffset := r.offset % 2 ^ 64 } :: fs) ∧
      ∀ j, (j < base ∨ k.heapLimit ≤ j) → (j < buffer ∨ buffer + r.data.length ≤ j) →
        setCurrentOffset (setCurrentBlock (k.memory.copyIn buffer r.data)
          (f.streamAddress i) r.block) (f.streamAddress i) r.offset j = k.memory j := by
  have hheap := h.heap_le
  have hbegin := h.begin_ge f (by simp)
  obtain ⟨hsge, hsle⟩ := h.streamAddress_bounds hs
  refine ⟨h.setStream hs (fun next hnext => ?_) (fun j h1 h2 h3 => ?_), fun j h1 h2 => ?_⟩
  · rw [readStream_setCurrentOffset, readStream_setCurrentBlock,
      readStream_congr fun j h1 h2 => h.copyIn hbuffer (by omega), hnext]
    rfl
  · rw [setCurrentOffset, setCurrentBlock, ByteMem.store_of_not_mem (by omega),
      ByteMem.store_of_not_mem (by omega), h.copyIn hbuffer (by omega)]
  · rw [setCurrentOffset, setCurrentBlock, ByteMem.store_of_not_mem (by omega),
      ByteMem.store_of_not_mem (by omega), ByteMem.copyIn_of_not_mem (by omega)]

/-- The end of a read from a list of files: the name is in the memory of the process, and the next
    file in the stream. -/
theorem Framed.readList (h : Framed k base (f :: fs)) {buffer i : Nat} {s : StreamState}
    (disk : Disk) (size : Nat) (hs : f.streams[i]? = some s) (hbuffer : f.process.begin ≤ buffer) :
    Framed { k with
        disk := disk
        memory := setFileBlock (k.memory.copyIn buffer (disk.blockBuffer.read 24 size))
          (f.streamAddress i) disk.blockBuffer.nextFile } base
      (f.setStream i { s with fileBlock := disk.blockBuffer.nextFile } :: fs) ∧
      ∀ j, (j < base ∨ k.heapLimit ≤ j) → (j < buffer ∨ buffer + size ≤ j) →
        setFileBlock (k.memory.copyIn buffer (disk.blockBuffer.read 24 size))
          (f.streamAddress i) disk.blockBuffer.nextFile j = k.memory j := by
  have hheap := h.heap_le
  have hbegin := h.begin_ge f (by simp)
  obtain ⟨hsge, hsle⟩ := h.streamAddress_bounds hs
  have hnext : disk.blockBuffer.nextFile < 2 ^ 64 := DiskBlock.word_lt _ _
  refine ⟨h.setStream hs (fun next hnext' => ?_) (fun j h1 h2 h3 => ?_), fun j h1 h2 => ?_⟩
  · rw [readStream_setFileBlock, Nat.mod_eq_of_lt hnext,
      readStream_congr fun j h1 h2 => h.copyIn hbuffer (by omega), hnext']
    rfl
  · rw [setFileBlock, ByteMem.store_of_not_mem (by omega), h.copyIn hbuffer (by omega)]
  · rw [setFileBlock, ByteMem.store_of_not_mem (by omega),
      ByteMem.copyIn_of_not_mem (by rw [DiskBlock.read_length]; exact h2)]

/-- The effect of `os_read`. -/
theorem osRead_effect {a : CallArguments} {keys : List (Option UInt32)}
    (h : Framed k base (f :: fs)) (hrun : osRead n k a.arg0 a.arg1 a.arg2 keys = some (k', r)) :
    ∃ fs', Framed k' base fs' ∧ Effect n base k f fs 5 a k' r fs' := by
  have hheap := h.heap_le
  have hbegin := h.begin_ge f (by simp)
  cases osRead_cases h hrun with
  | failed => exact h.quiet rfl
  | listEnd => exact h.quiet rfl
  | key hsize hbuffer hc =>
    obtain ⟨hge, -, -⟩ := (processContainsBuffer_iff h.fits).mp hbuffer
    exact ⟨f :: fs, h.congr fun j h1 h2 => ByteMem.store_of_not_mem (by omega),
      Effect.key rfl (keyRead_lt hc) hbuffer⟩
  | @list i s disk hid hs hmode h0 hbuffer hdisk =>
    obtain ⟨hge, -, hle⟩ := (processContainsBuffer_iff h.fits).mp hbuffer
    subst hdisk
    have hsize := Nat.min_le_left a.arg2 (diskReadBlockBuffer k.disk s.fileBlock).blockBuffer.nameLength
    obtain ⟨hframed, hmem⟩ := h.readList (diskReadBlockBuffer k.disk s.fileBlock)
      (min a.arg2 (diskReadBlockBuffer k.disk s.fileBlock).blockBuffer.nameLength) hs hge
    exact ⟨_, hframed, Effect.stream (by simp) hid hs (StreamEffect.list hmode)
      fun j h1 h2 => hmem j (by omega) (by omega)⟩
  | @file i s disk result hid hs hmode hbuffer hread =>
    obtain ⟨hge, -, hle⟩ := (processContainsBuffer_iff h.fits).mp hbuffer
    have hlen := diskReadFile_length hread
    simp only at hlen
    obtain ⟨hframed, hmem⟩ := h.readFile _ result hs hge
    exact ⟨_, hframed, Effect.stream (by simp) hid hs (StreamEffect.read hmode hread)
      fun j h1 h2 => hmem j (by omega) (by omega)⟩

/-! ### Opening a file -/

/-- Looking for an unused stream may allocate one. -/
theorem Framed.unusedFileStream (h : Framed k base (f :: fs)) {q : Kernel × Nat × Nat}
    (hget : processGetUnusedFileStream n k k.currentProcess = some q) :
    ∃ heap memory f', q.1 = { k with heap := heap, memory := memory } ∧
      Framed q.1 base (f' :: fs) ∧ f.Extends f' ∧
      (∀ j, (j < base ∨ k.heapLimit ≤ j) → memory j = k.memory j) ∧
      (q.2.1 = 0 ∨ ∃ i s, f'.streams[i]? = some s ∧ s.mode = MODE_UNUSED ∧
        q.2.1 = f'.streamAddress i ∧ q.2.2 = i + 4) := by
  rw [h.current] at hget
  have hid := processGetUnusedFileStream_id h hget
  -- the identifier is the one of the stream at this address
  have hid' : ∀ i, q.2.1 = f.streamAddress i → q.2.1 ≠ 0 → q.2.2 = i + 4 := by
    intro i hi hne
    obtain ⟨i', hi', hid⟩ := hid hne
    unfold Frame.streamAddress at hi hi'
    omega
  have hpos : ∀ i, f.streamAddress i ≠ 0 := by
    intro i
    have := h.base_pos
    have := h.frames.address_ge f (by simp)
    unfold Frame.streamAddress
    omega
  rcases processGetUnusedFileStream_spec h hget with ⟨hk, i, s, hs, hmode, hr⟩ |
      ⟨memory, s, hk, hmode, hframed, hr, hmem⟩ | ⟨hk, h0⟩
  · exact ⟨k.heap, k.memory, f, hk, hk ▸ h, Or.inl rfl, fun _ _ => rfl,
      Or.inr ⟨i, s, hs, hmode, hr, hid' i hr (hr ▸ hpos i)⟩⟩
  · refine ⟨_, memory, f.addStream s, hk, hframed, Or.inr ⟨s, hmode, rfl⟩, hmem,
      Or.inr ⟨f.streams.length, s, ?_, hmode, hr, hid' _ hr (hr ▸ hpos _)⟩⟩
    simp [Frame.addStream]
  · exact ⟨k.heap, k.memory, f, hk, hk ▸ h, Or.inl rfl, fun _ _ => rfl, Or.inl h0⟩

/-- The end of `os_open` sets three fields of the stream. -/
theorem Framed.openStream (h : Framed k base (f :: fs)) {i streamId file : Nat} (mode : Nat)
    {s : StreamState} (hs : f.streams[i]? = some s) (hmode : mode < 2 ^ 64) :
    ∃ memory, osOpenStream k (f.streamAddress i) streamId mode file =
        ({ k with memory := memory }, streamId) ∧
      Framed { k with memory := memory } base (f.setStream i { s with
        mode := mode, fileBlock := file % 2 ^ 64, currentBlock := file % 2 ^ 64 } :: fs) ∧
      ∀ j, (j < base ∨ k.heapLimit ≤ j) → memory j = k.memory j := by
  obtain ⟨hge, hle⟩ := h.streamAddress_bounds hs
  have hheap := h.heap_le
  have hframe : ∀ j, (j < f.streamAddress i ∨ f.streamAddress i + 40 ≤ j) →
      setCurrentBlock (setFileBlock (setMode k.memory (f.streamAddress i) mode)
        (f.streamAddress i) file) (f.streamAddress i) file j = k.memory j := fun j hj => by
    simp (disch := omega) only [setCurrentBlock, setFileBlock, setMode, ByteMem.store_of_not_mem]
  refine ⟨_, rfl, h.setStream hs (fun next hnext => ?_) (fun j h1 h2 h3 => hframe j h3),
    fun j hj => hframe j (by omega)⟩
  rw [readStream_setCurrentBlock, readStream_setFileBlock, readStream_setMode, hnext,
    Nat.mod_eq_of_lt hmode]
  rfl

/-- Opening a file by its name fails or determines the new state of the stream. -/
theorem osOpenFile_spec (h : Framed k base (f :: fs)) {i mode file : Nat} {s : StreamState}
    {name : List UInt8} {status : Status} (hs : f.streams[i]? = some s)
    (hmode : mode = MODE_READ ∨ mode = MODE_WRITE)
    (hrun : osOpenFile n k k.currentProcess (f.streamAddress i) name mode =
      some (k', status, file)) :
    (status ≠ .ok ∧ ∃ disk₁ disk, k' = { k with disk := disk } ∧
      AfterReads k.disk.io disk₁.io ∧ (disk = disk₁ ∨
        ∃ name status, diskCreateFile n disk₁ name = some (disk, .error status))) ∨
      status = .ok ∧ ∃ disk memory s₁, k' = { k with disk := disk, memory := memory } ∧
        Framed k' base (f.setStream i s₁ :: fs) ∧
        (∀ j, (j < base ∨ k.heapLimit ≤ j) → memory j = k.memory j) ∧
        OpenEffect n k.disk (f :: fs) disk s { s₁ with
          mode := mode, fileBlock := file % 2 ^ 64, currentBlock := file % 2 ^ 64 } := by
  obtain ⟨hge, hle⟩ := h.streamAddress_bounds hs
  have hheap := h.heap_le
  have hsame : f.setStream i s = f := by
    obtain ⟨hlt, rfl⟩ := List.getElem?_eq_some_iff.mp hs
    simp [Frame.setStream]
  have hframed : ∀ disk, Framed { k with disk := disk } base (f.setStream i s :: fs) := fun disk => by
    rw [hsame]; exact h.congr fun _ _ _ => rfl
  unfold osOpenFile at hrun
  cases hfind : diskFindFile n k.disk name 0 with
  | none => simp [hfind] at hrun
  | some q =>
    obtain ⟨disk₁, found, previous⟩ := q
    have hreads := diskFindFile_afterReads hfind
    simp only [hfind] at hrun
    -- the file does not exist: only a file that is written is created
    by_cases h0 : found = 0
    · rw [if_pos h0] at hrun
      by_cases hread : mode = MODE_READ
      · rw [if_pos hread] at hrun
        simp only [Option.some.injEq, Prod.mk.injEq] at hrun
        obtain ⟨rfl, rfl, -⟩ := hrun
        exact Or.inl ⟨by simp, disk₁, disk₁, rfl, hreads, Or.inl rfl⟩
      rw [if_neg hread] at hrun
      cases hcreate : diskCreateFile n disk₁ name with
      | none => simp [hcreate] at hrun
      | some q =>
        obtain ⟨disk, result⟩ := q
        cases result with
        | error e =>
          simp only [hcreate, Option.some.injEq, Prod.mk.injEq] at hrun
          obtain ⟨rfl, rfl, -⟩ := hrun
          by_cases hok : e = .ok
          · exact absurd hcreate (by rw [hok]; exact diskCreateFile_ne_ok)
          · exact Or.inl ⟨hok, disk₁, disk, rfl, hreads, Or.inr ⟨name, e, hcreate⟩⟩
        | ok new =>
          simp only [hcreate, Option.some.injEq, Prod.mk.injEq] at hrun
          obtain ⟨rfl, rfl, rfl⟩ := hrun
          rw [hmode.resolve_left hread]
          exact Or.inr ⟨rfl, disk, k.memory, s, rfl, hframed _, fun _ _ => rfl,
            OpenEffect.create hreads hcreate⟩
    rw [if_neg h0] at hrun
    -- the file exists: it is opened if no other stream forbids it, and cleared if it is written
    cases hopen : processCanOpen n k.memory k.currentProcess found mode with
    | none => simp [hopen] at hrun
    | some b =>
      cases b with
      | false =>
        simp only [hopen, Option.some.injEq, Prod.mk.injEq] at hrun
        obtain ⟨rfl, rfl, -⟩ := hrun
        exact Or.inl ⟨by simp, disk₁, disk₁, rfl, hreads, Or.inl rfl⟩
      | true =>
        have hallows := (processCanOpen_spec h.frames h.base_pos (by rw [← h.current]; exact hopen)).mp rfl
        simp only [hopen] at hrun
        by_cases hread : mode = MODE_READ
        · rw [if_pos hread, Option.some.injEq, Prod.mk.injEq, Prod.mk.injEq] at hrun
          obtain ⟨rfl, rfl, rfl⟩ := hrun
          subst hread
          obtain ⟨offset, hoffset⟩ : ∃ offset, offset = U64.add 24
              (diskReadBlockBuffer disk₁ found).blockBuffer.nameLength % 2 ^ 64 := ⟨_, rfl⟩
          have heffect := OpenEffect.read (s := s) (AfterReads.refl _) hfind h0 hallows
          rw [← hoffset] at heffect
          refine Or.inr ⟨rfl, _, _, { s with currentOffset := offset }, rfl,
            h.setStream hs (fun next hnext => ?_) (fun j h1 h2 h3 => ?_), fun j hj => ?_, heffect⟩
          · rw [readStream_setCurrentOffset, hnext, hoffset]
            rfl
          · exact ByteMem.store_of_not_mem (by omega)
          · exact ByteMem.store_of_not_mem (by omega)
        · rw [if_neg hread] at hrun
          cases hclear : diskClearFile n disk₁ found with
          | none => simp [hclear] at hrun
          | some disk =>
            simp only [hclear, Option.some.injEq, Prod.mk.injEq] at hrun
            obtain ⟨rfl, rfl, rfl⟩ := hrun
            have hwrite := hmode.resolve_left hread
            subst hwrite
            exact Or.inr ⟨rfl, disk, k.memory, s, rfl, hframed _, fun _ _ => rfl,
              OpenEffect.clear (AfterReads.refl _) hfind h0 hallows hclear⟩

/-- The effect of opening a stream, after reads of the disk. -/
theorem OpenEffect.of_afterReads {disk disk₀ disk' : Disk} {s s' : StreamState}
    (hreads : AfterReads disk.io disk₀.io) (h : OpenEffect n disk₀ fs disk' s s') :
    OpenEffect n disk fs disk' s s' := by
  cases h with
  | list h => exact OpenEffect.list (hreads.trans h)
  | read h hfind hfile hallows => exact OpenEffect.read (hreads.trans h) hfind hfile hallows
  | clear h hfind hfile hallows hclear =>
    exact OpenEffect.clear (hreads.trans h) hfind hfile hallows hclear
  | create h hcreate => exact OpenEffect.create (hreads.trans h) hcreate

/-- The last change of a stream remains. -/
@[simp] theorem Frame.setStream_setStream {i : Nat} {s s' : StreamState} :
    (f.setStream i s).setStream i s' = f.setStream i s' := by
  simp [Frame.setStream]

/-- The stream that was changed. -/
theorem Frame.getElem?_setStream {i : Nat} {s s' : StreamState} (h : f.streams[i]? = some s) :
    (f.setStream i s').streams[i]? = some s' := by
  simp [Frame.setStream, (List.getElem?_eq_some_iff.mp h).1]

/-- A change of a stream keeps the addresses. -/
theorem Frame.streamAddress_setStream {i j : Nat} {s : StreamState} :
    (f.setStream i s).streamAddress j = f.streamAddress j := rfl

/-- The heap, the memory and the frame of the current process, after the search of a stream that is
    not used. -/
structure SearchesStream (base : Nat) (k : Kernel) (f : Frame) (fs : List Frame) (heap : Nat)
    (memory : ByteMem) (f' : Frame) : Prop where
  extended : f.Extends f'
  framed : Framed { k with heap := heap, memory := memory } base (f' :: fs)
  kept : ∀ j, (j < base ∨ k.heapLimit ≤ j) → memory j = k.memory j

/-- The search does not depend on the disk. -/
theorem SearchesStream.framed_disk {heap : Nat} {memory : ByteMem} {f' : Frame}
    (h : SearchesStream base k f fs heap memory f') (disk : Disk) :
    Framed { k with heap := heap, memory := memory, disk := disk } base (f' :: fs) :=
  h.framed.congr fun _ _ _ => rfl

/-- The search found the stream `s`, of index `i`. -/
structure FindsStream (base : Nat) (k : Kernel) (f : Frame) (fs : List Frame) (heap : Nat)
    (memory : ByteMem) (f' : Frame) (i : Nat) (s : StreamState) : Prop
    extends SearchesStream base k f fs heap memory f' where
  stream : f'.streams[i]? = some s
  unused : s.mode = MODE_UNUSED

/-- A stream was found, and `osOpenFile` looks for the file with the result `result`. -/
structure OpensFile (n base : Nat) (k : Kernel) (f : Frame) (fs : List Frame) (name length mode : Nat)
    (heap : Nat) (memory : ByteMem) (f' : Frame) (i : Nat) (s : StreamState)
    (result : Option (Kernel × Status × Nat)) : Prop
    extends FindsStream base k f fs heap memory f' i s where
  named : length ≠ 0
  buffer : processContainsBuffer f.process name length = true
  mode_valid : mode = MODE_READ ∨ mode = MODE_WRITE
  run : osOpenFile n { k with
      heap := heap, memory := memory, disk := diskReadBlockBuffer k.disk SUPER_BLOCK }
    k.currentProcess (f'.streamAddress i) (k.memory.slice name length) mode = result

/-- The paths through `os_open`, each with its result: `none` on the paths that do not end. -/
inductive OpenPath (n base : Nat) (k : Kernel) (f : Frame) (fs : List Frame) (name length mode : Nat) :
    Option (Kernel × Nat) → Prop
  | rejected (hcheck : ¬ processContainsBuffer f.process name length = true ∨
        mode ≠ MODE_READ ∧ mode ≠ MODE_WRITE) :
      OpenPath n base k f fs name length mode (some (k, errorResult .invalidArgument))
  | lost (hget : processGetUnusedFileStream n k k.currentProcess = none) :
      OpenPath n base k f fs name length mode none
  | full {k₁ : Kernel} {heap streamId : Nat} {memory : ByteMem} {f' : Frame}
      (hget : processGetUnusedFileStream n k k.currentProcess = some (k₁, 0, streamId))
      (h : SearchesStream base k f fs heap memory f') :
      OpenPath n base k f fs name length mode
        (some ({ k with heap := heap, memory := memory }, errorResult .outOfMemory))
  | listWritten {heap : Nat} {memory : ByteMem} {f' : Frame} (hlength : length = 0)
      (hmode : mode ≠ MODE_READ) (h : SearchesStream base k f fs heap memory f') :
      OpenPath n base k f fs name length mode (some ({ k with
        heap := heap, memory := memory, disk := diskReadBlockBuffer k.disk SUPER_BLOCK },
        errorResult .invalidArgument))
  | list {disk : Disk} {heap i : Nat} {memory memory' : ByteMem} {f' : Frame} {s : StreamState}
      (hlength : length = 0) (hmode : mode = MODE_READ)
      (h : FindsStream base k f fs heap memory f' i s)
      (hdisk : diskReadBlockBuffer k.disk SUPER_BLOCK = disk)
      (hframed : Framed { k with heap := heap, memory := memory', disk := disk } base
        (f'.setStream i { s with
          mode := MODE_LIST
          fileBlock := disk.blockBuffer.nextFile
          currentBlock := disk.blockBuffer.nextFile } :: fs))
      (hkept : ∀ j, (j < base ∨ k.heapLimit ≤ j) → memory' j = k.memory j) :
      OpenPath n base k f fs name length mode
        (some ({ k with heap := heap, memory := memory', disk := disk }, i + 4))
  | fileLost {heap i : Nat} {memory : ByteMem} {f' : Frame} {s : StreamState}
      (h : OpensFile n base k f fs name length mode heap memory f' i s none) :
      OpenPath n base k f fs name length mode none
  | failed {k₁ : Kernel} {heap i file : Nat} {memory : ByteMem} {f' : Frame} {s : StreamState}
      {status : Status} (hstatus : status ≠ .ok)
      (h : OpensFile n base k f fs name length mode heap memory f' i s (some (k₁, status, file))) :
      OpenPath n base k f fs name length mode (some (k₁, errorResult status))
  | opened {k₁ : Kernel} {result : Kernel × Nat} {heap i file : Nat} {memory : ByteMem} {f' : Frame}
      {s : StreamState}
      (h : OpensFile n base k f fs name length mode heap memory f' i s (some (k₁, .ok, file)))
      (hresult : osOpenStream k₁ (f'.streamAddress i) (i + 4) mode file = result) :
      OpenPath n base k f fs name length mode (some result)

/-- All that `os_open` can do. -/
theorem osOpen_cases {name length mode : Nat} {o : Option (Kernel × Nat)}
    (h : Framed k base (f :: fs)) (hrun : osOpen n k name length mode = o) :
    OpenPath n base k f fs name length mode o := by
  subst hrun
  simp only [osOpen, h.process_eq]
  by_cases hcheck : ¬ processContainsBuffer f.process name length = true ∨
      mode ≠ MODE_READ ∧ mode ≠ MODE_WRITE
  · rw [if_pos hcheck]
    exact OpenPath.rejected hcheck
  rw [if_neg hcheck]
  have hmode : mode = MODE_READ ∨ mode = MODE_WRITE := by
    by_contra hc
    exact hcheck (Or.inr (not_or.mp hc))
  have hbuffer : processContainsBuffer f.process name length = true := by
    by_contra hc
    exact hcheck (Or.inl hc)
  -- a stream is found or created first, even if the file cannot be opened
  cases hget : processGetUnusedFileStream n k k.currentProcess with
  | none => exact OpenPath.lost hget
  | some q =>
    obtain ⟨k₁, stream, streamId⟩ := q
    obtain ⟨heap, memory, f', hk₁, hframed, hf, hmem, hstream⟩ := h.unusedFileStream hget
    simp only at hk₁ hstream hframed ⊢
    subst hk₁
    have hsearch : SearchesStream base k f fs heap memory f' := ⟨hf, hframed, hmem⟩
    by_cases h0 : stream = 0
    · subst h0
      rw [if_pos rfl]
      exact OpenPath.full hget hsearch
    rw [if_neg h0]
    obtain ⟨i, s, hs, hunused, rfl, rfl⟩ := hstream.resolve_left h0
    have hfind : FindsStream base k f fs heap memory f' i s := ⟨hsearch, hs, hunused⟩
    -- an empty name is that of the list of the files, which can only be read
    by_cases hlength : length = 0
    · rw [if_pos hlength]
      by_cases hread : mode = MODE_READ
      · rw [if_neg (not_not_intro hread)]
        obtain ⟨disk, hdisk⟩ : ∃ disk, diskReadBlockBuffer k.disk SUPER_BLOCK = disk := ⟨_, rfl⟩
        rw [hdisk]
        obtain ⟨memory', hk', hframed', hmem'⟩ := @Framed.openStream _ _ _ _
          (hsearch.framed_disk disk) i (i + 4) disk.blockBuffer.nextFile MODE_LIST s hs (by decide)
        have hnext : disk.blockBuffer.nextFile < 2 ^ 64 := DiskBlock.word_lt _ _
        rw [Nat.mod_eq_of_lt hnext] at hframed'
        rw [hk']
        exact OpenPath.list hlength hread hfind hdisk hframed'
          fun j hj => (hmem' j hj).trans (hmem j hj)
      · rw [if_pos hread]
        exact OpenPath.listWritten hlength hread hsearch
    rw [if_neg hlength]
    -- the name is in the memory of the process, which does not change
    have hslice : memory.slice name length = k.memory.slice name length := by
      obtain ⟨hge, -, hend⟩ := (processContainsBuffer_iff h.fits).mp hbuffer
      have hbegin := h.begin_ge f List.mem_cons_self
      exact ByteMem.slice_congr fun j h1 h2 => hmem j (Or.inr (by omega))
    rw [hslice]
    cases hopen : osOpenFile n { k with
        heap := heap, memory := memory, disk := diskReadBlockBuffer k.disk SUPER_BLOCK }
        k.currentProcess (f'.streamAddress i) (k.memory.slice name length) mode with
    | none => exact OpenPath.fileLost ⟨hfind, hlength, hbuffer, hmode, hopen⟩
    | some q =>
      obtain ⟨k₂, status, file⟩ := q
      simp only
      by_cases hstatus : status = .ok
      · subst hstatus
        rw [if_neg (not_not_intro rfl)]
        exact OpenPath.opened ⟨hfind, hlength, hbuffer, hmode, hopen⟩ rfl
      · rw [if_pos hstatus]
        exact OpenPath.failed hstatus ⟨hfind, hlength, hbuffer, hmode, hopen⟩

/-- The effect of `os_open`. -/
theorem osOpen_effect {a : CallArguments} (h : Framed k base (f :: fs))
    (hrun : osOpen n k a.arg0 a.arg1 a.arg2 = some (k', r)) :
    ∃ fs', Framed k' base fs' ∧ Effect n base k f fs 4 a k' r fs' := by
  have hreads := diskReadBlockBuffer_afterReads k.disk SUPER_BLOCK
  cases osOpen_cases h hrun with
  | rejected => exact h.quiet rfl
  | @full k₁ heap streamId memory f' hget hsearch =>
    exact ⟨f' :: fs, hsearch.framed, Effect.openFailed rfl hsearch.extended (AfterReads.refl _)
      (Or.inl rfl) fun j h1 _ => hsearch.kept j h1⟩
  | @listWritten heap memory f' hlength hmode hsearch =>
    exact ⟨f' :: fs, hsearch.framed_disk _, Effect.openFailed rfl hsearch.extended hreads
      (Or.inl rfl) fun j h1 _ => hsearch.kept j h1⟩
  | @list disk heap i memory memory' f' s hlength hmode hfind hdisk hframed hkept =>
    have hnext : disk.blockBuffer.nextFile < 2 ^ 64 := DiskBlock.word_lt _ _
    rw [← Nat.mod_eq_of_lt hnext] at hframed
    rw [hdisk] at hreads
    exact ⟨_, hframed, Effect.opened rfl hfind.extended hfind.stream hfind.unused
      (OpenEffect.list hreads) fun j h1 _ => hkept j h1⟩
  | @failed k₁ heap i file memory f' s status hstatus hopen =>
    rcases osOpenFile_spec (hopen.framed_disk _) hopen.stream hopen.mode_valid hopen.run with
      ⟨-, disk₁, disk, rfl, hreads₁, hdisk⟩ | ⟨hok, -⟩
    · exact ⟨f' :: fs, hopen.framed_disk _, Effect.openFailed rfl hopen.extended
        (hreads.trans hreads₁) hdisk fun j h1 _ => hopen.kept j h1⟩
    · exact absurd hok hstatus
  | @opened k₁ result heap i file memory f' s hopen hresult =>
    rcases osOpenFile_spec (hopen.framed_disk _) hopen.stream hopen.mode_valid hopen.run with
      ⟨hstatus, -⟩ | ⟨-, disk, memory₁, s₁, rfl, hframed₁, hmem₁, heffect⟩
    · exact absurd rfl hstatus
    · obtain ⟨memory', hk', hframed', hmem'⟩ := @Framed.openStream _ _ _ _ hframed₁ i (i + 4) file
        a.arg2 _ (Frame.getElem?_setStream hopen.stream)
        (by rcases hopen.mode_valid with hm | hm <;> rw [hm] <;> decide)
      rw [Frame.setStream_setStream] at hframed'
      obtain ⟨rfl, rfl⟩ := Prod.mk.inj (hk'.symm.trans hresult)
      exact ⟨_, hframed', Effect.opened rfl hopen.extended hopen.stream hopen.unused
        (heffect.of_afterReads hreads)
        fun j h1 _ => (hmem' j h1).trans ((hmem₁ j h1).trans (hopen.kept j h1))⟩

/-! ### Reading the disk, deleting a file -/

/-- The effect of `os_stat`. -/
theorem osStat_effect {a : CallArguments} (h : Framed k base (f :: fs))
    (hrun : osStat n k a.arg0 a.arg1 = some (k', r)) :
    ∃ fs', Framed k' base fs' ∧ Effect n base k f fs 3 a k' r fs' := by
  have hquiet : ∀ disk r', AfterReads k.disk.io disk.io →
      some (({ k with disk := disk } : Kernel), r') = some (k', r) →
      ∃ fs', Framed k' base fs' ∧ Effect n base k f fs 3 a k' r fs' := by
    intro disk r' hreads heq
    rw [Option.some.injEq, Prod.mk.injEq] at heq
    obtain ⟨rfl, rfl⟩ := heq
    exact ⟨f :: fs, h.congr fun _ _ _ => rfl, Effect.quiet (fun _ => by decide) hreads⟩
  simp only [osStat] at hrun
  split at hrun
  · exact hquiet k.disk _ (AfterReads.refl _) hrun
  cases hfind : diskFindFile n k.disk (k.memory.slice a.arg0 a.arg1) 0 with
  | none => simp [hfind] at hrun
  | some q =>
    obtain ⟨disk, file, previous⟩ := q
    have hreads := diskFindFile_afterReads hfind
    simp only [hfind] at hrun
    split at hrun
    · exact hquiet disk _ hreads hrun
    cases hsize : diskGetFileSize n disk file with
    | none => simp [hsize] at hrun
    | some q =>
      obtain ⟨disk', size⟩ := q
      simp only [hsize] at hrun
      exact hquiet disk' _ (hreads.trans (diskGetFileSize_afterReads hsize)) hrun

/-- The effect of `os_delete`. -/
theorem osDelete_effect {a : CallArguments} (h : Framed k base (f :: fs))
    (hrun : osDelete n k a.arg0 a.arg1 = some (k', r)) :
    ∃ fs', Framed k' base fs' ∧ Effect n base k f fs 8 a k' r fs' := by
  simp only [osDelete] at hrun
  split at hrun
  · rw [Option.some.injEq, Prod.mk.injEq] at hrun
    exact h.quiet hrun.1 (by rw [← hrun.2]; decide)
  cases hfind : diskFindFile n k.disk (k.memory.slice a.arg0 a.arg1) 0 with
  | none => simp [hfind] at hrun
  | some q =>
    obtain ⟨disk₁, file, previous⟩ := q
    have hreads := diskFindFile_afterReads hfind
    have hframed₁ : Framed { k with disk := disk₁ } base (f :: fs) := h.congr fun _ _ _ => rfl
    simp only [hfind] at hrun
    by_cases h0 : file = 0
    · rw [if_pos h0, Option.some.injEq, Prod.mk.injEq] at hrun
      obtain ⟨rfl, rfl⟩ := hrun
      exact ⟨f :: fs, hframed₁, Effect.quiet (by decide) hreads⟩
    rw [if_neg h0] at hrun
    cases hopen : processCanOpen n k.memory k.currentProcess file MODE_WRITE with
    | none => simp [hopen] at hrun
    | some b =>
      cases b with
      | false =>
        simp only [hopen, Option.some.injEq, Prod.mk.injEq] at hrun
        obtain ⟨rfl, rfl⟩ := hrun
        exact ⟨f :: fs, hframed₁, Effect.quiet (by decide) hreads⟩
      | true =>
        have hallows := (processCanOpen_spec h.frames h.base_pos (by rw [← h.current]; exact hopen)).mp rfl
        simp only [hopen] at hrun
        -- the streams of all the processes skip the file before it is deleted
        cases hskip : processesSkipFileLoop file n { k with disk := disk₁ } k.currentProcess with
        | none => simp [hskip] at hrun
        | some k₂ =>
          obtain ⟨frames, memory, disk₂, rfl, hreads₂, hat, hskips, hframe⟩ :=
            processesSkipFileLoop_spec hframed₁.frames h.base_pos (by rw [← h.current]; exact hskip)
          simp only [hskip] at hrun
          cases hdelete : diskDeleteFile n disk₂ file previous with
          | none => simp [hdelete] at hrun
          | some disk =>
            simp only [hdelete, Option.some.injEq, Prod.mk.injEq] at hrun
            obtain ⟨rfl, rfl⟩ := hrun
            have hheap := h.heap_le
            refine ⟨frames, ⟨hat, ?_, h.base_pos, h.heap_le, ?_, h.limit_lt⟩,
              Effect.delete rfl hfind h0 hallows hskips hreads₂ hdelete
                fun j h1 _ => hframe j (h1.imp_right fun hj => h.heap_le.trans hj)⟩
            · cases hskips with
              | cons hf _ => exact h.current.trans hf.address.symm
            · intro g hg
              obtain ⟨g', hg', hskip'⟩ : ∃ g' ∈ f :: fs, g'.Skips disk₁.io file g := by
                obtain ⟨i, hi, rfl⟩ := List.getElem_of_mem hg
                have hlen := hskips.length_eq
                exact ⟨(f :: fs)[i], List.getElem_mem _, hskips.get (by omega) hi⟩
              rw [hskip'.process]
              exact h.begin_ge g' hg'

/-! ### Spawning a process, and its end -/

section Spawn

variable {dst name nameLength args argsLength outputP begin end_ : Nat}

/-- An address rounded down is a multiple of the size of a page. -/
theorem pageDown_mod (x : Nat) : pageDown x % 4096 = 0 := Nat.mul_mod_left _ _

theorem pageUp_mod (x : Nat) : pageUp x % 4096 = 0 := pageDown_mod _

/-- Rounding down does not increase an address. -/
theorem pageDown_le (x : Nat) : pageDown x ≤ x := Nat.div_mul_le_self _ _

/-- A copy keeps the bytes that are not in the destination. -/
theorem memCopyNonOverlapping_of_ne {m : ByteMem} {src size j : Nat}
    (h : ∀ i < size, U64.add dst i ≠ j) : memCopyNonOverlapping m src dst size j = m j := by
  unfold memCopyNonOverlapping
  induction size with
  | zero => rfl
  | succ n ih =>
    rw [List.range_succ, List.foldl_append, List.foldl_cons, List.foldl_nil,
      Function.update_of_ne (h n (by omega)).symm]
    exact ih fun i hi => h i (by omega)

/-- A copy to a destination that does not wrap around keeps the other bytes. -/
theorem memCopyNonOverlapping_of_not_mem {m : ByteMem} {src size j : Nat}
    (hlt : dst + size ≤ 2 ^ 64) (hj : j < dst ∨ dst + size ≤ j) :
    memCopyNonOverlapping m src dst size j = m j :=
  memCopyNonOverlapping_of_ne fun i hi => by
    rw [U64.add_eq (by omega)]
    omega

/-- The record of the current process is on the heap. -/
theorem FramesAt.topAddress_le {m : ByteMem} {heap : Nat} (h : FramesAt m base heap fs) :
    topAddress fs ≤ heap := by
  cases fs with
  | nil => exact Nat.zero_le _
  | cons f fs =>
    have := f.address_lt
    rw [h.1, topAddress]
    omega

/-- The process that the end of `os_spawn` creates. -/
structure LoadedProcess (parent begin end_ dst outputP : Nat) (p : Process) : Prop where
  parent : p.parent = parent
  begin : p.begin = begin
  end_ : p.end_ = end_
  fileStreams : p.fileStreams = 0
  outputP : p.outputP = outputP
  outputLimit : p.outputLimit = dst

/-- The end of `os_spawn` fails, or loads the program in `[begin, end_)` and pushes a frame. -/
theorem osSpawnFile_spec (h : Framed k base fs) (hroom : k.heap + 80 ≤ k.heapLimit)
    (hbegin : k.heapLimit ≤ begin) (hle : begin ≤ end_) (hend : end_ < 2 ^ 64)
    (haligned : end_ % 4096 = 0) (hdst : dst < 2 ^ 64) (hout : outputP < 2 ^ 64)
    (hrun : osSpawnFile n k begin end_ dst name nameLength args argsLength outputP = some (k', r)) :
    (∃ disk, k' = { k with disk := disk } ∧ AfterReads k.disk.io disk.io ∧ r ≠ OK) ∨
      ∃ disk memory p,
        k' = osSetCurrentProcess { k with heap := k.heap + 80, disk := disk, memory := memory } k.heap ∧
        r = OK ∧ AfterReads k.disk.io disk.io ∧
        LoadedProcess (topAddress fs) begin end_ dst outputP p ∧
        FramesAt memory base (k.heap + 80) (⟨k.heap, p, []⟩ :: fs) ∧
        ∀ j, (j < base ∨ k.heapLimit ≤ j) → (j < begin ∨ end_ ≤ j) → memory j = k.memory j := by
  have hpos := h.base_pos
  have hbase := h.frames.base_le
  have hlimit := h.limit_lt
  have htop := h.frames.topAddress_le
  unfold osSpawnFile at hrun
  cases hfind : diskFindFile n k.disk (k.memory.slice name nameLength) 0 with
  | none => simp [hfind] at hrun
  | some q =>
    obtain ⟨disk₁, file, previous⟩ := q
    have hreads := diskFindFile_afterReads hfind
    simp only [hfind] at hrun
    by_cases h0 : file = 0
    · rw [if_pos h0, Option.some.injEq, Prod.mk.injEq] at hrun
      exact Or.inl ⟨disk₁, hrun.1.symm, hreads, by rw [← hrun.2]; decide⟩
    rw [if_neg h0] at hrun
    cases hsize : diskGetFileSize n disk₁ file with
    | none => simp [hsize] at hrun
    | some q =>
      obtain ⟨disk₂, codeSize⟩ := q
      replace hreads := hreads.trans (diskGetFileSize_afterReads hsize)
      simp only [hsize] at hrun
      by_cases hbig : codeSize > U64.sub end_ begin
      · rw [if_pos hbig, Option.some.injEq, Prod.mk.injEq] at hrun
        exact Or.inl ⟨disk₂, hrun.1.symm, hreads, by rw [← hrun.2]; decide⟩
      rw [if_neg hbig] at hrun
      rw [U64.sub_eq hle hend] at hbig
      have hheap : U64.add begin codeSize = begin + codeSize := U64.add_eq (by omega)
      have hheapLimit : U64.sub end_ 1024 = end_ - 1024 := U64.sub_eq (by omega) hend
      have hheap8 : U64.add (begin + codeSize) 8 = begin + codeSize + 8 := U64.add_eq (by omega)
      rw [hheap, hheapLimit, hheap8] at hrun
      split at hrun
      · rw [Option.some.injEq, Prod.mk.injEq] at hrun
        exact Or.inl ⟨disk₂, hrun.1.symm, hreads, by rw [← hrun.2]; decide⟩
      rename_i hargs
      rw [U64.sub_eq (a := end_ - 1024) (by omega) (by omega), U64.sub_eq (by omega) (by omega)]
        at hargs
      cases hread : diskReadFile n disk₂ file (U64.add 24 nameLength) codeSize with
      | none => simp [hread] at hrun
      | some q =>
        obtain ⟨disk₃, result⟩ := q
        replace hreads := hreads.trans (diskReadFile_afterReads hread)
        have hlen : result.data.length ≤ codeSize := diskReadFile_length hread
        have hadd : U64.add k.heap SIZEOF_PROCESS = k.heap + 80 :=
          U64.add_eq (by rw [sizeof_process]; omega)
        simp only [hread, hadd, Option.some.injEq, Prod.mk.injEq] at hrun
        obtain ⟨hk', hr⟩ := hrun
        -- the memory when the program and its arguments are loaded
        obtain ⟨m₁, hm₁⟩ : ∃ m₁, m₁ = memCopyNonOverlapping ((k.memory.copyIn begin
          result.data).store 8 (begin + codeSize) argsLength) args (begin + codeSize + 8)
            argsLength := ⟨_, rfl⟩
        have hframe : ∀ j, (j < begin ∨ end_ ≤ j) → m₁ j = k.memory j := fun j hj => by
          rw [hm₁, memCopyNonOverlapping_of_not_mem (by omega) (by omega),
            ByteMem.store_of_not_mem (by omega), ByteMem.copyIn_of_not_mem (by omega)]
        obtain ⟨p, hp⟩ : ∃ p : Process, p =
          { parent := k.currentProcess, begin := begin, end_ := end_, savedR8 := begin + codeSize
            savedR9 := end_ - 1024, savedStackPointer := end_, savedReturnAddress := begin
            fileStreams := 0, outputP := outputP, outputLimit := dst } := ⟨_, rfl⟩
        rw [← hm₁, ← hp] at hk'
        have hfits : p.Fits := by
          rw [hp]
          constructor <;> simp only [h.current] <;> omega
        refine Or.inr ⟨disk₃, writeProcess m₁ k.heap p, p, hk'.symm, hr.symm, hreads,
          ⟨by rw [hp, h.current], by rw [hp], by rw [hp], by rw [hp], by rw [hp], by rw [hp]⟩,
          h.frames.push (fun j h1 h2 => ?_) (readProcess_writeProcess hfits) (by rw [hp, h.current])
            (by rw [hp]), fun j h1 h2 => ?_⟩
        · rw [writeProcess_of_not_mem (by omega), hframe j (by omega)]
        · rw [writeProcess_of_not_mem (by omega), hframe j h2]

@[simp] theorem osSetCurrentProcess_memory {p : Nat} :
    (osSetCurrentProcess k p).memory = k.memory := rfl
@[simp] theorem osSetCurrentProcess_heap {p : Nat} : (osSetCurrentProcess k p).heap = k.heap := rfl
@[simp] theorem osSetCurrentProcess_heapLimit {p : Nat} :
    (osSetCurrentProcess k p).heapLimit = k.heapLimit := rfl
@[simp] theorem osSetCurrentProcess_stackPointer {p : Nat} :
    (osSetCurrentProcess k p).stackPointer = k.stackPointer := rfl
@[simp] theorem osSetCurrentProcess_memLimit {p : Nat} :
    (osSetCurrentProcess k p).memLimit = k.memLimit := rfl
@[simp] theorem osSetCurrentProcess_disk {p : Nat} : (osSetCurrentProcess k p).disk = k.disk := rfl
@[simp] theorem osSetCurrentProcess_currentProcess {p : Nat} :
    (osSetCurrentProcess k p).currentProcess = p := rfl

/-- The bounds of a child that passed the checks. -/
theorem spawnArgumentsOk_bounds {m : ByteMem} {p : Process}
    (h : spawnArgumentsOk m p begin end_ dst name nameLength args argsLength outputP = true) :
    begin ≤ end_ ∧ p.begin ≤ begin := by
  unfold spawnArgumentsOk at h
  split at h
  · simp at h
  · omega

/-- The address of its output, too. -/
theorem spawnArgumentsOk_output {m : ByteMem} {p : Process}
    (h : spawnArgumentsOk m p begin end_ dst name nameLength args argsLength outputP = true) :
    processContainsBuffer p outputP 8 = true ∧ p.begin ≤ m.load 8 outputP ∧ m.load 8 outputP ≤ dst := by
  unfold spawnArgumentsOk at h
  split at h
  · simp at h
  · split at h
    · simp at h
    · split at h
      · simp at h
      · rename_i hc
        simp only [not_or, not_not, not_lt] at hc
        exact hc

/-- The effect of `os_spawn`. -/
theorem osSpawn_effect {a : CallArguments} (h : Framed k base (f :: fs)) (hdst : a.arg0 < 2 ^ 64)
    (hout : a.arg5 < 2 ^ 64)
    (hrun : osSpawn n k a.arg0 a.arg1 a.arg2 a.arg3 a.arg4 a.arg5 = some (k', r)) :
    ∃ fs', Framed k' base fs' ∧ Effect n base k f fs 0 a k' r fs' := by
  have hheap := h.heap_le
  have hlimit := h.limit_lt
  have hbase := h.frames.base_le
  have hpos := h.base_pos
  have hcurrent : k.currentProcess ≠ 0 := by
    have := h.frames.address_ge f (by simp)
    rw [h.current, topAddress]
    omega
  simp only [osSpawn, h.process_eq] at hrun
  split at hrun
  · rw [Option.some.injEq, Prod.mk.injEq] at hrun
    exact h.quiet hrun.1 (by rw [← hrun.2]; decide)
  rename_i hroom
  rw [sizeof_process, U64.sub_eq hheap (by omega)] at hroom
  by_cases hok : spawnArgumentsOk k.memory f.process (pageUp a.arg0)
      (pageDown f.process.savedStackPointer) a.arg0 a.arg1 a.arg2 a.arg3 a.arg4 a.arg5 = true
  case neg =>
    rw [if_pos ⟨hcurrent, hok⟩, Option.some.injEq, Prod.mk.injEq] at hrun
    exact h.quiet hrun.1 (by rw [← hrun.2]; decide)
  rw [if_neg fun hc => hc.2 hok] at hrun
  obtain ⟨hle, hbegin⟩ := spawnArgumentsOk_bounds hok
  have hsp := h.fits.savedStackPointer
  have hpage := pageDown_le f.process.savedStackPointer
  -- the program is not found, or the new process is the first one of the chain
  rcases osSpawnFile_spec h (by omega) ((h.begin_ge f (by simp)).trans hbegin) hle (by omega)
      (pageDown_mod _) hdst hout hrun with
    ⟨disk, rfl, hreads, hr⟩ | ⟨disk, memory, p, rfl, rfl, hreads, hp, hat, hframe⟩
  · exact ⟨f :: fs, h.congr fun _ _ _ => rfl, Effect.quiet (fun h0 => absurd h0 hr) hreads⟩
  · refine ⟨⟨k.heap, p, []⟩ :: f :: fs, ⟨hat, rfl, hpos, ?_, ?_, hlimit⟩, Effect.spawn rfl hreads
      ⟨hp.parent, hp.begin, hp.end_, hp.fileStreams, hp.outputP, hp.outputLimit, ?_⟩ ?_⟩
    · rw [osSetCurrentProcess_heap, osSetCurrentProcess_heapLimit]
      simp only
      omega
    · refine List.forall_mem_cons.mpr ⟨?_, h.begin_ge⟩
      rw [hp.begin]
      exact (h.begin_ge f (by simp)).trans hbegin
    · rw [hp.begin, hp.end_]
      exact hok
    · rw [hp.begin, hp.end_]
      exact hframe

/-- The end of the current process, when it has a parent `g`. -/
theorem osExit_eq {g : Frame} {result : Nat} (h : Framed k base (f :: g :: fs))
    (hresult : result < 2 ^ 56) :
    osExit k result = (osSetCurrentProcess
      { k with heap := f.address, memory := setSavedR8 k.memory g.address result } g.address, OK) := by
  have hparent : f.process.parent = g.address := h.frames.2.1.parent
  have hge := h.frames.address_ge g (by simp)
  have hpos := h.base_pos
  have hcurrent : k.currentProcess = f.address := h.current
  simp only [osExit, h.process_eq, hparent]
  rw [if_neg (by omega), if_neg (by omega), hcurrent]

/-- The frames after the current process ended. -/
theorem Framed.exit {g : Frame} {result : Nat} (h : Framed k base (f :: g :: fs))
    (hresult : result < 2 ^ 56) :
    Framed (osExit k result).1 base
      ({ g with process := { g.process with savedR8 := result } } :: fs) := by
  have hheap := h.heap_le
  have hend := h.frames.endAddress_le f (by simp)
  have hlt := f.address_lt
  have hstored : readProcess k.memory g.address = g.process := h.frames.2.2.2.1.process
  rw [osExit_eq h hresult]
  refine ⟨?_, rfl, h.base_pos, ?_, ?_, h.limit_lt⟩
  · refine h.frames.2.2.setProcess rfl rfl ?_ fun i h1 h2 h3 => ByteMem.store_of_not_mem (by omega)
    show readProcess (setSavedR8 k.memory g.address result) g.address = _
    rw [readProcess_setSavedR8, hstored, Nat.mod_eq_of_lt (by omega)]
  · show f.address ≤ k.heapLimit
    omega
  · exact List.forall_mem_cons.mpr ⟨h.begin_ge g (by simp), fun g' hg' => h.begin_ge g' (by simp [hg'])⟩

/-- The effect of `os_exit`. -/
theorem osExit_effect {a : CallArguments} (h : Framed k base (f :: fs))
    (hrun : some (osExit k a.arg0) = some (k', r)) :
    ∃ fs', Framed k' base fs' ∧ Effect n base k f fs 1 a k' r fs' := by
  rw [Option.some.injEq] at hrun
  cases fs with
  | nil =>
    have hparent : f.process.parent = 0 := h.frames.2.1.parent
    simp only [osExit, h.process_eq, hparent, if_true, Prod.mk.injEq] at hrun
    exact h.quiet hrun.1 (by rw [← hrun.2]; decide)
  | cons g gs =>
    by_cases hresult : a.arg0 < 2 ^ 56
    · have hk' : (osExit k a.arg0).1 = k' := congrArg Prod.fst hrun
      obtain rfl : OK = r := (congrArg Prod.snd (osExit_eq h hresult)).symm.trans
        (congrArg Prod.snd hrun)
      subst hk'
      exact ⟨_, h.exit hresult, Effect.exit rfl rfl hresult⟩
    · have hparent : f.process.parent = g.address := h.frames.2.1.parent
      have hge := h.frames.address_ge g (by simp)
      have hpos := h.base_pos
      simp only [osExit, h.process_eq, hparent] at hrun
      rw [if_neg (by omega), if_pos (by omega), Prod.mk.injEq] at hrun
      exact h.quiet hrun.1 (by rw [← hrun.2]; decide)

end Spawn

/-! ### Any call -/

/-- The arguments are 64-bit words. -/
structure CallArguments.Fits (a : CallArguments) : Prop where
  arg0 : a.arg0 < 2 ^ 64
  arg5 : a.arg5 < 2 ^ 64

/-- The arguments of a call are 64-bit words. -/
theorem readArguments_fits (m : ByteMem) (args : Nat) : (readArguments m args).Fits :=
  ⟨ByteMem.load_lt m 8 _, ByteMem.load_lt m 8 _⟩

/-- A write to the standard output does not change the kernel heap. -/
def OutputSafe (k : Kernel) (base : Nat) (p : Process) (id : Nat) (a : CallArguments) : Prop :=
  id = 6 → a.arg0 = STANDARD_OUTPUT → processContainsBuffer p a.arg1 a.arg2 →
    ∀ j, base ≤ j → j < k.heap → (osWriteOutput k a.arg0 a.arg1 a.arg2).1.memory j = k.memory j

/-- The effect of any call. -/
theorem call_effect {id : Nat} {a : CallArguments} {keys : List (Option UInt32)}
    (h : Framed k base (f :: fs)) (ha : a.Fits) (hout : OutputSafe k base f.process id a)
    (hrun : call n k id a keys = some (k', r)) :
    ∃ fs', Framed k' base fs' ∧ Effect n base k f fs id a k' r fs' := by
  unfold call at hrun
  split at hrun
  · exact osSpawn_effect h ha.arg0 ha.arg5 hrun
  · exact osExit_effect h hrun
  · rw [Option.some.injEq, Prod.mk.injEq] at hrun
    exact h.quiet hrun.1
  · exact osStat_effect h hrun
  · exact osOpen_effect h hrun
  · exact osRead_effect h hrun
  · exact osWrite_effect h (fun m' hm' h1 h2 => hm' ▸ hout rfl h1 h2) hrun
  · exact osClose_effect h hrun
  · exact osDelete_effect h hrun
  · simp at hrun

end Toys.Os
