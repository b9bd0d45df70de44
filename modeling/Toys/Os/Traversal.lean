import Mathlib
import Toys.Os.Frames
import Toys.FileSystem.Reads

namespace Toys.Os

open Toys.Lib Toys.FileSystem

/-!
# Kernel — the loops over processes and streams

Each loop of the system calls goes through the streams of one frame, or of all the frames.
When it ends, its result is read off the frames.

* `Framed` — a kernel whose heap spells the frames `fs`;
* `processGetFileStream_spec`, `processGetUnusedFileStream_spec` — the stream that is found;
* `processCanOpen_spec` — which streams forbid to open a file;
* `processesSkipFile_spec` — the streams that move on before a file is deleted.
-/

/-- The heap of the kernel spells the frames `fs`, the first of which is the one of the
    current process. -/
structure Framed (k : Kernel) (base : Nat) (fs : List Frame) : Prop where
  frames : FramesAt k.memory base k.heap fs
  current : k.currentProcess = topAddress fs
  base_pos : 0 < base
  heap_le : k.heap ≤ k.heapLimit
  begin_ge : ∀ f ∈ fs, k.heapLimit ≤ f.process.begin
  limit_lt : k.heapLimit + 4096 ≤ 2 ^ 64

variable {m : ByteMem} {a n : Nat} {ss : List StreamState} {k k' : Kernel} {base : Nat}
  {f : Frame} {fs : List Frame}

/-! ### Finding a stream -/

/-- The loop finds the stream with the identifier, or none. -/
theorem processGetFileStreamLoop_spec {streamId id r : Nat} (h : StreamsAt m a ss) (ha : 0 < a)
    (hlt : id + ss.length < 2 ^ 64)
    (hrun : processGetFileStreamLoop m streamId n (streamsPtr a ss) id = some r) :
    r = 0 ∨ ∃ i s, ss[i]? = some s ∧ r = a + 40 * i ∧ streamId = id + i := by
  induction n generalizing a ss id with
  | zero => simp [processGetFileStreamLoop] at hrun
  | succ n ih =>
    rw [processGetFileStreamLoop] at hrun
    cases ss with
    | nil =>
      simp only [streamsPtr_nil, ne_eq, not_true_eq_false, false_and, if_false,
        Option.some.injEq] at hrun
      exact Or.inl hrun.symm
    | cons s ss =>
      rw [List.length_cons] at hlt
      rw [streamsPtr_cons] at hrun
      split at hrun
      · rw [h.1, U64.add_eq (by omega)] at hrun
        rcases ih h.2 (by omega) (by omega) hrun with h0 | ⟨i, t, ht, hr, hid⟩
        · exact Or.inl h0
        · exact Or.inr ⟨i + 1, t, by simpa using ht, by omega, by omega⟩
      · rename_i hc
        obtain rfl : a = r := by simpa using hrun
        exact Or.inr ⟨0, s, rfl, rfl, by omega⟩

/-- The stream that `process_get_file_stream` finds is a stream of the current process. -/
theorem processGetFileStream_spec {streamId r heap : Nat} (h : FramesAt m base heap (f :: fs))
    (hlt : heap < 2 ^ 64) (hrun : processGetFileStream n m f.address streamId = some r) :
    r = 0 ∨ ∃ i s, f.streams[i]? = some s ∧ r = f.streamAddress i ∧ streamId = i + 4 := by
  obtain ⟨hheap, hstored, -⟩ := h
  have hid : FIRST_FILE_STREAM_ID = 4 := rfl
  unfold Frame.endAddress at hheap
  rw [processGetFileStream, hstored.process, hstored.fileStreams] at hrun
  rcases processGetFileStreamLoop_spec hstored.streams (by omega) (by omega) hrun with
    h0 | ⟨i, s, hs, hr, hi⟩
  · exact Or.inl h0
  · exact Or.inr ⟨i, s, hs, hr, by omega⟩

/-- The loop counts the streams from `id` on. -/
theorem processGetFileStreamLoop_eq {streamId id : Nat} (h : StreamsAt m a ss) (ha : 0 < a)
    (hid : id ≤ streamId) (hlt : id + ss.length < 2 ^ 64) (hn : ss.length < n) :
    processGetFileStreamLoop m streamId n (streamsPtr a ss) id =
      some (if streamId < id + ss.length then a + 40 * (streamId - id) else 0) := by
  induction n generalizing a ss id with
  | zero => omega
  | succ n ih =>
    rw [processGetFileStreamLoop]
    cases ss with
    | nil =>
      rw [streamsPtr_nil, if_neg (fun hc => hc.1 rfl), if_neg (by simp; omega)]
    | cons s ss =>
      rw [List.length_cons] at hlt hn ⊢
      rw [streamsPtr_cons]
      by_cases heq : id = streamId
      · rw [if_neg (fun hc => hc.2 heq), if_pos (by omega), heq, Nat.sub_self, Nat.mul_zero,
          Nat.add_zero]
      · have hnext : (readStream m a).next = streamsPtr (a + 40) ss := by rw [h.1]; rfl
        have hadd : U64.add id 1 = id + 1 := U64.add_eq (by omega)
        rw [if_pos ⟨by omega, heq⟩, hnext, hadd, ih h.2 (by omega) (by omega) (by omega) (by omega)]
        by_cases hc : streamId < id + 1 + ss.length
        · rw [if_pos hc, if_pos (by omega)]
          congr 1
          omega
        · rw [if_neg hc, if_neg (by omega)]

/-- The streams of a frame have the identifiers from 4 on. -/
theorem processGetFileStream_eq {i heap : Nat} (h : FramesAt m base heap (f :: fs))
    (hpos : 0 < base) (hlt : heap < 2 ^ 64) (hi : i < f.streams.length) (hn : f.streams.length < n) :
    processGetFileStream n m f.address (i + 4) = some (f.streamAddress i) := by
  obtain ⟨hheap, hstored, hrest⟩ := h
  have hge := hrest.base_le
  have hid : FIRST_FILE_STREAM_ID = 4 := rfl
  unfold Frame.endAddress at hheap
  rw [processGetFileStream, hstored.process, hstored.fileStreams,
    processGetFileStreamLoop_eq hstored.streams (by omega) (by omega) (by omega) hn,
    if_pos (by omega), hid, Nat.add_sub_cancel]
  rfl

/-- The identifier that `process_get_unused_file_stream` returns with a stream. -/
theorem processGetUnusedFileStreamLoop_id {ptr id : Nat} {r : Nat × Nat × Nat}
    (h : StreamsAt m a ss) (ha : 0 < a) (hlt : id + ss.length < 2 ^ 64)
    (hrun : processGetUnusedFileStreamLoop m n ptr (streamsPtr a ss) id = some r) :
    (∃ i, i < ss.length ∧ r.2.1 = a + 40 * i ∧ r.2.2 = id + i) ∨
      r.2.1 = 0 ∧ r.2.2 = id + ss.length := by
  induction n generalizing a ss ptr id with
  | zero => simp [processGetUnusedFileStreamLoop] at hrun
  | succ n ih =>
    rw [processGetUnusedFileStreamLoop] at hrun
    cases ss with
    | nil =>
      simp only [streamsPtr_nil, ne_eq, not_true_eq_false, false_and, if_false,
        Option.some.injEq] at hrun
      exact Or.inr (by simp [← hrun])
    | cons s ss =>
      rw [List.length_cons] at hlt ⊢
      rw [streamsPtr_cons, h.1] at hrun
      by_cases hmode : s.mode = MODE_UNUSED
      · rw [if_neg (fun hc => hc.2 hmode), Option.some_inj] at hrun
        subst hrun
        exact Or.inl ⟨0, by omega, rfl, rfl⟩
      · rw [if_pos ⟨by omega, hmode⟩, U64.add_eq (by omega)] at hrun
        rcases ih h.2 (by omega) (by omega) hrun with ⟨i, hi, hr, hid⟩ | ⟨h0, hid⟩
        · exact Or.inl ⟨i + 1, by omega, by omega, by omega⟩
        · exact Or.inr ⟨h0, by omega⟩

/-- The identifier of the stream that is found. -/
theorem processGetUnusedFileStream_id {r : Kernel × Nat × Nat} (h : Framed k base (f :: fs))
    (hrun : processGetUnusedFileStream n k f.address = some r) (hne : r.2.1 ≠ 0) :
    ∃ i, r.2.1 = f.streamAddress i ∧ r.2.2 = i + 4 := by
  obtain ⟨hheap, hstored, hrest⟩ := h.frames
  have hge := hrest.base_le
  have hpos := h.base_pos
  have hle := h.heap_le
  have hlimit := h.limit_lt
  unfold Frame.endAddress at hheap
  rw [processGetUnusedFileStream, Kernel.process, hstored.process, hstored.fileStreams] at hrun
  cases hloop : processGetUnusedFileStreamLoop k.memory n (f.address + 56)
      (streamsPtr (f.address + 80) f.streams) FIRST_FILE_STREAM_ID with
  | none => simp [hloop] at hrun
  | some q =>
    obtain ⟨ptr, stream, id⟩ := q
    have hid : FIRST_FILE_STREAM_ID = 4 := rfl
    have hcases := processGetUnusedFileStreamLoop_id hstored.streams (by omega) (by omega) hloop
    simp only [hloop] at hrun hcases
    rcases hcases with ⟨i, hi, hstream, hi4⟩ | ⟨h0, hi4⟩
    · rw [if_neg (by omega), Option.some_inj] at hrun
      rw [← hrun]
      exact ⟨i, hstream, by simp only; omega⟩
    · split at hrun
      · -- the new stream is after the others
        rw [Option.some_inj] at hrun
        rw [← hrun]
        exact ⟨f.streams.length, hheap, by simp only; omega⟩
      · rw [Option.some_inj] at hrun
        rw [← hrun] at hne
        exact absurd h0 hne

/-- The loop finds an unused stream, or the end of the list. -/
theorem processGetUnusedFileStreamLoop_spec {ptr id : Nat} {r : Nat × Nat × Nat}
    (h : StreamsAt m a ss) (ha : 0 < a)
    (hrun : processGetUnusedFileStreamLoop m n ptr (streamsPtr a ss) id = some r) :
    (∃ i s, ss[i]? = some s ∧ s.mode = MODE_UNUSED ∧ r.2.1 = a + 40 * i) ∨
      r.2.1 = 0 ∧ r.1 = if ss = [] then ptr else a + 40 * (ss.length - 1) := by
  induction n generalizing a ss ptr id with
  | zero => simp [processGetUnusedFileStreamLoop] at hrun
  | succ n ih =>
    rw [processGetUnusedFileStreamLoop] at hrun
    cases ss with
    | nil =>
      simp only [streamsPtr_nil, ne_eq, not_true_eq_false, false_and, if_false,
        Option.some.injEq] at hrun
      exact Or.inr (by simp [← hrun])
    | cons s ss =>
      rw [streamsPtr_cons, h.1] at hrun
      by_cases hmode : s.mode = MODE_UNUSED
      case neg =>
        rw [if_pos ⟨by omega, hmode⟩] at hrun
        rcases ih h.2 (by omega) hrun with ⟨i, t, ht, hmode, hr⟩ | ⟨h0, hptr⟩
        · exact Or.inl ⟨i + 1, t, by simpa using ht, hmode, by omega⟩
        · refine Or.inr ⟨h0, ?_⟩
          cases ss with
          | nil => simpa using hptr
          | cons t ss => simp at hptr ⊢; omega
      case pos =>
        rw [if_neg (fun hc => hc.2 hmode)] at hrun
        obtain rfl : (ptr, a, id) = r := by simpa using hrun
        exact Or.inl ⟨0, s, rfl, hmode, rfl⟩

/-- `process_get_unused_file_stream` finds an unused stream, or allocates one, or fails. -/
theorem processGetUnusedFileStream_spec {r : Kernel × Nat × Nat} (h : Framed k base (f :: fs))
    (hrun : processGetUnusedFileStream n k f.address = some r) :
    (r.1 = k ∧ ∃ i s, f.streams[i]? = some s ∧ s.mode = MODE_UNUSED ∧ r.2.1 = f.streamAddress i) ∨
      (∃ memory s, r.1 = { k with heap := k.heap + 40, memory := memory } ∧ s.mode = MODE_UNUSED ∧
        Framed r.1 base (f.addStream s :: fs) ∧ r.2.1 = f.streamAddress f.streams.length ∧
        ∀ j, (j < base ∨ k.heapLimit ≤ j) → memory j = k.memory j) ∨
      r.1 = k ∧ r.2.1 = 0 := by
  have hframes := h.frames
  obtain ⟨hheap, hstored, hrest⟩ := hframes
  have hle := hrest.base_le
  have hlimit := h.heap_le
  have hlt := h.limit_lt
  have hpos := h.base_pos
  rw [processGetUnusedFileStream, Kernel.process, hstored.process, hstored.fileStreams] at hrun
  cases hloop : processGetUnusedFileStreamLoop k.memory n (f.address + 56)
      (streamsPtr (f.address + 80) f.streams) FIRST_FILE_STREAM_ID with
  | none => simp [hloop] at hrun
  | some q =>
    obtain ⟨ptr, stream, id⟩ := q
    simp only [hloop] at hrun
    rcases processGetUnusedFileStreamLoop_spec hstored.streams (by omega) hloop with
      ⟨i, s, hs, hmode, hr⟩ | ⟨h0, hptr⟩
    · simp only at hr
      rw [if_neg (by omega), Option.some.injEq] at hrun
      exact Or.inl (by rw [← hrun]; exact ⟨rfl, i, s, hs, hmode, hr⟩)
    · simp only at h0 hptr
      subst h0
      by_cases hfit : U64.add k.heap SIZEOF_FILE_STREAM ≤ k.heapLimit
      · have hlastPtr : ptr = f.lastPtr := by
          rw [hptr]; rfl
        have hadd : k.heap + 40 ≤ k.heapLimit ∧ U64.add k.heap SIZEOF_FILE_STREAM = k.heap + 40 := by
          unfold U64.add at hfit ⊢
          simp only [sizeof_fileStream] at hfit ⊢
          omega
        rw [if_pos ⟨rfl, hfit⟩, Option.some.injEq] at hrun
        refine Or.inr (Or.inl ?_)
        -- the memory once the new stream is initialised
        obtain ⟨m₁, hm₁⟩ : ∃ m₁, m₁ = setFileBlock (setMode (setNext k.memory k.heap 0) k.heap
          MODE_UNUSED) k.heap 0 := ⟨_, rfl⟩
        have hout : ∀ j, (j < k.heap ∨ k.heap + 40 ≤ j) → m₁ j = k.memory j := by
          intro j hj
          rw [hm₁]
          simp (disch := omega) only [setFileBlock, setMode, setNext, ByteMem.store_of_not_mem]
        have hread : readStream m₁ k.heap = StreamState.record ⟨MODE_UNUSED, 0,
            (readStream k.memory k.heap).currentBlock,
            (readStream k.memory k.heap).currentOffset⟩ 0 := by
          rw [hm₁, readStream_setFileBlock, readStream_setMode, readStream_setNext]
          rfl
        refine ⟨m₁.store 8 f.lastPtr k.heap, ⟨MODE_UNUSED, 0, (readStream k.memory k.heap).currentBlock,
          (readStream k.memory k.heap).currentOffset⟩, ?_, rfl, ?_, ?_, ?_⟩
        · rw [← hrun, hm₁, hlastPtr, hadd.2]
        · rw [← hrun]
          refine ⟨?_, h.current, hpos, by simp only [hadd.2]; exact hadd.1, ?_, hlt⟩
          · simp only [hadd.2, hlastPtr, ← hm₁]
            exact h.frames.addStream (by omega) (fun j _ hj => hout j (Or.inl hj)) hread
          · exact List.forall_mem_cons.mpr (List.forall_mem_cons.mp h.begin_ge)
        · rw [← hrun]
          simp only [hheap, Frame.endAddress, Frame.streamAddress]
        · intro j hj
          obtain ⟨h40, -⟩ := hadd
          have haddress := f.address_lt
          have hbounds : base ≤ f.lastPtr ∧ f.lastPtr + 8 ≤ k.heapLimit := by
            unfold Frame.lastPtr
            unfold Frame.endAddress at hheap
            split
            · omega
            · have := List.length_pos_of_ne_nil ‹¬ f.streams = []›
              unfold Frame.streamAddress
              omega
          rw [ByteMem.store_of_not_mem (by omega), hout j (by omega)]
      · rw [if_neg (fun hc => hfit hc.2), Option.some.injEq] at hrun
        exact Or.inr (Or.inr (by rw [← hrun]; exact ⟨rfl, rfl⟩))

/-! ### Whether a file can be opened -/

/-- The stream does not forbid to open the file `fileBlock` in mode `mode`. -/
def StreamState.Allows (s : StreamState) (fileBlock mode : Nat) : Prop :=
  ¬ (s.fileBlock = fileBlock ∧ s.mode ≠ MODE_LIST ∧ (s.mode = MODE_WRITE ∨ mode = MODE_WRITE))

/-- The loop over the streams of a process checks each of them. -/
theorem streamsCanOpenLoop_spec {fileBlock mode : Nat} {b : Bool} (h : StreamsAt m a ss)
    (ha : 0 < a) (hrun : streamsCanOpenLoop m fileBlock mode n (streamsPtr a ss) = some b) :
    b = true ↔ ∀ s ∈ ss, s.Allows fileBlock mode := by
  induction n generalizing a ss with
  | zero => simp [streamsCanOpenLoop] at hrun
  | succ n ih =>
    rw [streamsCanOpenLoop] at hrun
    cases ss with
    | nil =>
      simp only [streamsPtr_nil, ne_eq, not_true_eq_false, if_false, Option.some.injEq] at hrun
      simp [← hrun]
    | cons s ss =>
      rw [streamsPtr_cons, if_pos (by omega), h.1] at hrun
      obtain ⟨next, hnext⟩ : ∃ next, next = streamsPtr (a + 40) ss := ⟨_, rfl⟩
      rw [← hnext] at hrun
      by_cases hc : (s.record next).fileBlock = fileBlock ∧ (s.record next).mode ≠ MODE_LIST ∧
          ((s.record next).mode = MODE_WRITE ∨ mode = MODE_WRITE)
      · rw [if_pos hc, Option.some.injEq] at hrun
        simp only [← hrun, Bool.false_eq_true, false_iff]
        exact fun hall => hall s (by simp) hc
      · rw [if_neg hc, show (s.record next).next = next from rfl, hnext] at hrun
        rw [ih h.2 (by omega) hrun, List.forall_mem_cons]
        exact ⟨fun hall => ⟨hc, hall⟩, fun hall => hall.2⟩

/-- The loop over the processes checks all their streams. -/
theorem processCanOpenLoop_spec {fileBlock mode heap : Nat} {b : Bool}
    (h : FramesAt m base heap fs) (hbase : 0 < base)
    (hrun : processCanOpenLoop m fileBlock mode n (topAddress fs) = some b) :
    b = true ↔ ∀ f ∈ fs, ∀ s ∈ f.streams, s.Allows fileBlock mode := by
  induction n generalizing heap fs with
  | zero => simp [processCanOpenLoop] at hrun
  | succ n ih =>
    rw [processCanOpenLoop] at hrun
    cases fs with
    | nil =>
      simp only [topAddress, ne_eq, not_true_eq_false, if_false, Option.some.injEq] at hrun
      simp [← hrun]
    | cons f fs =>
      obtain ⟨rfl, hstored, hrest⟩ := h
      have hle := hrest.base_le
      rw [topAddress, if_pos (by omega), hstored.process, hstored.fileStreams,
        hstored.parent] at hrun
      rw [List.forall_mem_cons]
      cases hstreams : streamsCanOpenLoop m fileBlock mode n
          (streamsPtr (f.address + 80) f.streams) with
      | none => simp [hstreams] at hrun
      | some c =>
        have hspec := streamsCanOpenLoop_spec hstored.streams (by omega) hstreams
        cases c with
        | true =>
          simp only [hstreams] at hrun
          rw [ih hrest hrun]
          exact ⟨fun hall => ⟨hspec.mp rfl, hall⟩, fun hall => hall.2⟩
        | false =>
          simp only [hstreams, Option.some.injEq] at hrun
          simp only [← hrun, Bool.false_eq_true, false_iff, not_and_or]
          exact Or.inl fun hall => by simpa using hspec.mpr hall

/-- `process_can_open` checks the streams of all the processes. -/
theorem processCanOpen_spec {fileBlock mode heap : Nat} {b : Bool} (h : FramesAt m base heap fs)
    (hbase : 0 < base) (hrun : processCanOpen n m (topAddress fs) fileBlock mode = some b) :
    b = true ↔ ∀ f ∈ fs, ∀ s ∈ f.streams, s.Allows fileBlock mode :=
  processCanOpenLoop_spec h hbase hrun

/-! ### Moving on before a file is deleted -/

/-- A stream that lists the file `file` moves on to the next one. -/
def StreamState.Skips (io : BlockIo) (file : Nat) (s s' : StreamState) : Prop :=
  if s.mode = MODE_LIST ∧ s.fileBlock = file then
    ∃ next, NextFileRead io file next ∧ s' = { s with fileBlock := next }
  else s' = s

/-- The streams of a frame that list the file `file` move on to the next one. -/
structure Frame.Skips (io : BlockIo) (file : Nat) (f f' : Frame) : Prop where
  address : f'.address = f.address
  process : f'.process = f.process
  streams : List.Forall₂ (StreamState.Skips io file) f.streams f'.streams

/-- A deletion after reads of the disk. -/
theorem StreamState.Skips.of_afterReads {io io' : BlockIo} {file : Nat} {s s' : StreamState}
    (h : AfterReads io io') (hs : s.Skips io' file s') : s.Skips io file s' := by
  unfold StreamState.Skips at hs ⊢
  split at hs
  · obtain ⟨next, hnext, heq⟩ := hs
    rw [if_pos ‹_›]
    exact ⟨next, hnext.of_afterReads h, heq⟩
  · rw [if_neg ‹_›]
    exact hs

theorem streamsPtr_congr {ss' : List StreamState} (h : ss'.length = ss.length) :
    streamsPtr a ss' = streamsPtr a ss := by
  cases ss <;> cases ss' <;> simp_all

/-- The loop over the streams of a process skips the file in each of them. -/
theorem streamsSkipFileLoop_spec {file : Nat} (h : StreamsAt k.memory a ss) (ha : 0 < a)
    (hrun : streamsSkipFileLoop file n k (streamsPtr a ss) = some k') :
    ∃ ss' memory disk, k' = { k with memory := memory, disk := disk } ∧
      AfterReads k.disk.io disk.io ∧ StreamsAt memory a ss' ∧
      List.Forall₂ (StreamState.Skips k.disk.io file) ss ss' ∧
      ∀ j, (j < a ∨ a + 40 * ss.length ≤ j) → memory j = k.memory j := by
  induction n generalizing k a ss with
  | zero => simp [streamsSkipFileLoop] at hrun
  | succ n ih =>
    rw [streamsSkipFileLoop] at hrun
    cases ss with
    | nil =>
      simp only [streamsPtr_nil, ne_eq, not_true_eq_false, if_false, Option.some.injEq] at hrun
      exact ⟨[], k.memory, k.disk, hrun.symm, AfterReads.refl _, trivial, List.Forall₂.nil,
        fun _ _ => rfl⟩
    | cons s ss =>
      rw [streamsPtr_cons, if_pos (by omega)] at hrun
      have hread : k.stream a = s.record (streamsPtr (a + 40) ss) := h.1
      simp only [hread, StreamState.record] at hrun
      -- the state after this stream: it has moved on, or not
      obtain ⟨s', memory₁, disk₁, hk₁, hreads, hread₁, hskips, hframe⟩ :
          ∃ s' memory₁ disk₁,
            (if s.mode = MODE_LIST ∧ s.fileBlock = file then
              { k with
                disk := diskReadBlockBuffer k.disk file
                memory := setFileBlock k.memory a
                  (diskReadBlockBuffer k.disk file).blockBuffer.nextFile }
            else k) = { k with memory := memory₁, disk := disk₁ } ∧
            AfterReads k.disk.io disk₁.io ∧
            readStream memory₁ a = s'.record (streamsPtr (a + 40) ss) ∧
            s.Skips k.disk.io file s' ∧
            ∀ j, (j < a ∨ a + 40 ≤ j) → memory₁ j = k.memory j := by
        by_cases hc : s.mode = MODE_LIST ∧ s.fileBlock = file
        · refine ⟨{ s with fileBlock := (diskReadBlockBuffer k.disk file).blockBuffer.nextFile },
            _, _, by rw [if_pos hc], diskReadBlockBuffer_afterReads _ _, ?_, ?_, fun j hj => ?_⟩
          · have hlt : (diskReadBlockBuffer k.disk file).blockBuffer.nextFile < 2 ^ 64 :=
              DiskBlock.word_lt _ _
            rw [readStream_setFileBlock, Nat.mod_eq_of_lt hlt, h.1]
            rfl
          · rw [StreamState.Skips, if_pos hc]
            exact ⟨_, nextFileRead_diskReadBlockBuffer _ _, rfl⟩
          · exact ByteMem.store_of_not_mem (by omega)
        · refine ⟨s, k.memory, k.disk, by rw [if_neg hc], AfterReads.refl _, h.1, ?_, fun _ _ => rfl⟩
          rw [StreamState.Skips, if_neg hc]
      rw [hk₁] at hrun
      simp only [Kernel.stream, hread₁, StreamState.record] at hrun
      obtain ⟨ss', memory, disk, hk', hreads', hat, hall, hframe'⟩ := ih
        (h.2.congr fun j h1 h2 => hframe j (by omega)) (by omega) hrun
      refine ⟨s' :: ss', memory, disk, hk', hreads.trans hreads', ⟨?_, hat⟩,
        List.Forall₂.cons hskips (hall.imp fun _ _ hs => hs.of_afterReads hreads), fun j hj => ?_⟩
      · rw [readStream_congr fun j h1 h2 => hframe' j (by omega), hread₁,
          streamsPtr_congr hall.length_eq.symm]
      · simp only [List.length_cons] at hj
        rw [hframe' j (by omega)]
        exact hframe j (by omega)

/-- The loop over the processes skips the file in all their streams. -/
theorem processesSkipFileLoop_spec {file heap : Nat} (h : FramesAt k.memory base heap fs)
    (hbase : 0 < base) (hrun : processesSkipFileLoop file n k (topAddress fs) = some k') :
    ∃ fs' memory disk, k' = { k with memory := memory, disk := disk } ∧
      AfterReads k.disk.io disk.io ∧ FramesAt memory base heap fs' ∧
      List.Forall₂ (Frame.Skips k.disk.io file) fs fs' ∧
      ∀ j, (j < base ∨ heap ≤ j) → memory j = k.memory j := by
  induction n generalizing k heap fs with
  | zero => simp [processesSkipFileLoop] at hrun
  | succ n ih =>
    rw [processesSkipFileLoop] at hrun
    cases fs with
    | nil =>
      simp only [topAddress, ne_eq, not_true_eq_false, if_false, Option.some.injEq] at hrun
      exact ⟨[], k.memory, k.disk, hrun.symm, AfterReads.refl _, h, List.Forall₂.nil, fun _ _ => rfl⟩
    | cons f fs =>
      obtain ⟨rfl, hstored, hrest⟩ := h
      have hle := hrest.base_le
      rw [topAddress, if_pos (by omega), Kernel.process, hstored.process,
        hstored.fileStreams] at hrun
      cases hstreams : streamsSkipFileLoop file n k
          (streamsPtr (f.address + 80) f.streams) with
      | none => simp [hstreams] at hrun
      | some k₁ =>
        -- the streams of the first process, and then those of its ancestors, which are before it in memory
        obtain ⟨ss', memory₁, disk₁, rfl, hreads, hat, hall, hframe⟩ :=
          streamsSkipFileLoop_spec hstored.streams (by omega) hstreams
        have hlen := hall.length_eq
        have hprocess : readProcess memory₁ f.address = f.process := by
          rw [← hstored.process]
          exact readProcess_congr fun j h1 h2 => hframe j (by omega)
        simp only [hstreams, Kernel.process, hprocess, hstored.parent] at hrun
        obtain ⟨fs', memory, disk, hk', hreads', hat', hall', hframe'⟩ := ih
          (hrest.congr fun j h1 h2 => hframe j (by omega)) hrun
        have hend : ({ f with streams := ss' } : Frame).endAddress = f.endAddress := by
          simp [Frame.endAddress, hlen]
        have htop : topAddress fs' = topAddress fs := by
          cases hall' with
          | nil => rfl
          | cons hf _ => exact hf.address
        refine ⟨{ f with streams := ss' } :: fs', memory, disk, hk', hreads.trans hreads',
          ⟨hend.symm, ⟨?_, ?_, ?_, ?_⟩, hat'⟩,
          List.Forall₂.cons ⟨rfl, rfl, hall⟩ (hall'.imp fun _ _ hf => ⟨hf.address, hf.process,
            hf.streams.imp fun _ _ hs => hs.of_afterReads hreads⟩), fun j hj => ?_⟩
        · refine Eq.trans (readProcess_congr fun j h1 h2 => hframe' j (Or.inr h1)) hprocess
        · rw [htop]; exact hstored.parent
        · show f.process.fileStreams = _
          rw [streamsPtr_congr hlen.symm]
          exact hstored.fileStreams
        · exact hat.congr fun j h1 h2 => hframe' j (Or.inr (le_trans (Nat.le_add_right _ _) h1))
        · unfold Frame.endAddress at hj
          rw [hframe' j (by omega)]
          exact hframe j (by omega)

end Toys.Os
