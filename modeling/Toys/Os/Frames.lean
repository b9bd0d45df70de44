import Mathlib
import Toys.Os.Handler

namespace Toys.Os

open Toys.Lib Toys.FileSystem

/-!
# Kernel — the stack of frames on the kernel heap

The kernel heap is a stack.  The *frame* of a process is its `Process` object followed by its
`FileStream` objects, one after the other, and the frame of a child follows the one of its
parent.  The two kinds of linked lists, of the parents and of the streams, visit these objects
in order, so that the memory between the start of the heap and its end spells a list of
frames, from the current process to the shell.

* `Frame`, `FramesAt`, `Framed` — the frames that the heap spells;
* `FramesAt.congr` — they only depend on the memory of the heap;
* `FramesAt.setProcess`, `FramesAt.setStream`, `FramesAt.addStream`, `FramesAt.push` — how the
  stores of the kernel change them.
-/

/-! ### Streams -/

/-- The fields of a stream other than its link. -/
structure StreamState where
  mode : Nat
  fileBlock : Nat
  currentBlock : Nat
  currentOffset : Nat
  deriving DecidableEq

/-- The record of a stream. -/
def StreamState.record (s : StreamState) (next : Nat) : FileStream :=
  ⟨next, s.mode, s.fileBlock, s.currentBlock, s.currentOffset⟩

/-- The pointer to the streams `ss`, the first of which is at `a`. -/
def streamsPtr (a : Nat) (ss : List StreamState) : Nat := if ss = [] then 0 else a

/-- The streams `ss` are stored one after the other from `a` on, and linked. -/
def StreamsAt (m : ByteMem) : (a : Nat) → List StreamState → Prop
  | _, [] => True
  | a, s :: ss =>
    readStream m a = s.record (streamsPtr (a + 40) ss) ∧ StreamsAt m (a + 40) ss

section Streams

variable {m m' : ByteMem} {a v : Nat} {ss : List StreamState}

@[simp] theorem streamsPtr_nil : streamsPtr a [] = 0 := rfl

@[simp] theorem streamsPtr_cons {s : StreamState} : streamsPtr a (s :: ss) = a := rfl

/-- The list of the streams depends on its records only. -/
theorem StreamsAt.congr (h : StreamsAt m a ss)
    (heq : ∀ i, a ≤ i → i < a + 40 * ss.length → m' i = m i) : StreamsAt m' a ss := by
  induction ss generalizing a with
  | nil => trivial
  | cons s ss ih =>
    simp only [List.length_cons] at heq
    refine ⟨?_, ih h.2 fun i h1 h2 => heq i (by omega) (by omega)⟩
    rw [← h.1]
    exact readStream_congr fun i h1 h2 => heq i h1 (by omega)

/-- The record of a stream is at its address. -/
theorem StreamsAt.read {i : Nat} {s : StreamState} (h : StreamsAt m a ss) (hs : ss[i]? = some s) :
    readStream m (a + 40 * i) = s.record (streamsPtr (a + 40 * (i + 1)) (ss.drop (i + 1))) := by
  induction ss generalizing a i with
  | nil => simp at hs
  | cons t ss ih =>
    cases i with
    | zero =>
      obtain rfl : t = s := by simpa using hs
      simpa using h.1
    | succ i =>
      have := ih h.2 (by simpa using hs)
      rw [show a + 40 * (i + 1) = a + 40 + 40 * i by omega, this,
        show a + 40 + 40 * (i + 1) = a + 40 * (i + 1 + 1) by omega, List.drop_succ_cons]

/-- Changing the fields of the stream `i`, but not its link. -/
theorem StreamsAt.set {i : Nat} {s s' : StreamState} (h : StreamsAt m a ss) (hs : ss[i]? = some s)
    (hframe : ∀ j, a ≤ j → j < a + 40 * ss.length → (j < a + 40 * i ∨ a + 40 * i + 40 ≤ j) →
      m' j = m j)
    (hread : ∀ next, readStream m (a + 40 * i) = s.record next →
      readStream m' (a + 40 * i) = s'.record next) :
    StreamsAt m' a (ss.set i s') := by
  induction ss generalizing a i with
  | nil => simp at hs
  | cons t ss ih =>
    simp only [List.length_cons] at hframe
    cases i with
    | zero =>
      obtain rfl : t = s := by simpa using hs
      exact ⟨hread _ h.1, h.2.congr fun j h1 h2 => hframe j (by omega) (by omega) (by omega)⟩
    | succ i =>
      have hptr : streamsPtr (a + 40) (ss.set i s') = streamsPtr (a + 40) ss := by
        simp [streamsPtr, List.set_eq_nil_iff]
      rw [show a + 40 * (i + 1) = a + 40 + 40 * i by omega] at hframe hread
      refine ⟨?_, ih h.2 (by simpa using hs)
        (fun j h1 h2 h3 => hframe j (by omega) (by omega) h3) hread⟩
      rw [hptr, ← h.1]
      exact readStream_congr fun j h1 h2 => hframe j h1 (by omega) (by omega)

/-- Linking a new stream after the last one. -/
theorem StreamsAt.concat {s : StreamState} (h : StreamsAt m a ss)
    (hnew : readStream m' (a + 40 * ss.length) = s.record 0)
    (hlast : ∀ t ∈ ss.getLast?, ∀ next, readStream m (a + 40 * (ss.length - 1)) = t.record next →
      readStream m' (a + 40 * (ss.length - 1)) = t.record (a + 40 * ss.length))
    (hframe : ∀ j, a ≤ j → j < a + 40 * (ss.length - 1) → m' j = m j) :
    StreamsAt m' a (ss ++ [s]) := by
  induction ss generalizing a with
  | nil => exact ⟨hnew, trivial⟩
  | cons t ss ih =>
    cases ss with
    | nil =>
      refine ⟨?_, hnew, trivial⟩
      exact hlast t (by simp) _ h.1
    | cons u ss =>
      simp only [List.length_cons] at hnew hlast hframe ih
      have hlen : a + 40 * (ss.length + 1 + 1) = a + 40 + 40 * (ss.length + 1) := by omega
      rw [hlen] at hnew hlast
      refine ⟨?_, ih h.2 hnew ?_ fun j h1 h2 => hframe j (by omega) (by omega)⟩
      · refine Eq.trans (readStream_congr fun j h1 h2 => hframe j (by omega) (by omega)) h.1
      · intro t' ht' next
        have := hlast t' (by simpa [List.getLast?_cons_cons] using ht') next
        rwa [show a + 40 * (ss.length + 1 + 1 - 1) = a + 40 + 40 * (ss.length + 1 - 1) by omega]
          at this

end Streams

/-! ### Frames -/

/-- A process and its streams. -/
structure Frame where
  address : Nat
  process : Process
  streams : List StreamState

/-- The address after the objects of the frame. -/
def Frame.endAddress (f : Frame) : Nat := f.address + 80 + 40 * f.streams.length

/-- The address of the stream `i` of the frame. -/
def Frame.streamAddress (f : Frame) (i : Nat) : Nat := f.address + 80 + 40 * i

/-- The objects of the frame `f` are in the memory. -/
structure Frame.Stored (m : ByteMem) (parent : Nat) (f : Frame) : Prop where
  process : readProcess m f.address = f.process
  parent : f.process.parent = parent
  fileStreams : f.process.fileStreams = streamsPtr (f.address + 80) f.streams
  streams : StreamsAt m (f.address + 80) f.streams

/-- The address of the process of the first frame. -/
def topAddress : List Frame → Nat
  | [] => 0
  | f :: _ => f.address

/-- The memory from `base` to `heap` spells the frames `fs`, from the last one to the first
    one. -/
def FramesAt (m : ByteMem) (base : Nat) : (heap : Nat) → List Frame → Prop
  | heap, [] => heap = base
  | heap, f :: fs =>
    heap = f.endAddress ∧ f.Stored m (topAddress fs) ∧ FramesAt m base f.address fs

section Frames

variable {m m' : ByteMem} {base heap v : Nat} {f : Frame} {fs : List Frame}

/-- The record of the process is in its frame. -/
theorem Frame.address_lt (f : Frame) : f.address + 80 ≤ f.endAddress := by
  unfold endAddress; omega

/-- The records of the streams are in the frame. -/
theorem Frame.streamAddress_lt {i : Nat} (h : i < f.streams.length) :
    f.streamAddress i + 40 ≤ f.endAddress := by
  unfold streamAddress endAddress; omega

/-- A frame depends on its bytes only. -/
theorem Frame.Stored.congr {parent : Nat} (h : f.Stored m parent)
    (heq : ∀ i, f.address ≤ i → i < f.endAddress → m' i = m i) : f.Stored m' parent := by
  unfold Frame.endAddress at heq
  refine ⟨?_, h.parent, h.fileStreams, h.streams.congr fun i h1 h2 => heq i (by omega) (by omega)⟩
  rw [← h.process]
  exact readProcess_congr fun i h1 h2 => heq i h1 (by omega)

/-- The frames are on the heap. -/
theorem FramesAt.base_le (h : FramesAt m base heap fs) : base ≤ heap := by
  induction fs generalizing heap with
  | nil => exact le_of_eq h.symm
  | cons f fs ih =>
    have := ih h.2.2
    have := f.address_lt
    rw [h.1]
    omega

/-- The frames only depend on the memory of the heap. -/
theorem FramesAt.congr (h : FramesAt m base heap fs)
    (heq : ∀ i, base ≤ i → i < heap → m' i = m i) : FramesAt m' base heap fs := by
  induction fs generalizing heap with
  | nil => exact h
  | cons f fs ih =>
    obtain ⟨rfl, hstored, hrest⟩ := h
    have hle := hrest.base_le
    have := f.address_lt
    exact ⟨rfl, hstored.congr fun i h1 h2 => heq i (by omega) h2,
      ih hrest fun i h1 h2 => heq i h1 (by omega)⟩

/-- A frame starts at the base or after it. -/
theorem FramesAt.address_ge (h : FramesAt m base heap fs) : ∀ f ∈ fs, base ≤ f.address := by
  induction fs generalizing heap with
  | nil => simp
  | cons f fs ih =>
    intro g hg
    rcases List.mem_cons.mp hg with rfl | hg
    · exact h.2.2.base_le
    · exact ih h.2.2 g hg

/-- The objects of a frame are on the heap. -/
theorem FramesAt.endAddress_le (h : FramesAt m base heap fs) : ∀ f ∈ fs, f.endAddress ≤ heap := by
  induction fs generalizing heap with
  | nil => simp
  | cons f fs ih =>
    intro g hg
    rcases List.mem_cons.mp hg with rfl | hg
    · exact le_of_eq h.1.symm
    · have := ih h.2.2 g hg
      have := f.address_lt
      rw [h.1]
      omega

/-- Changing the process of the first frame, but not its links. -/
theorem FramesAt.setProcess {p : Process} (h : FramesAt m base heap (f :: fs))
    (hparent : p.parent = f.process.parent) (hstreams : p.fileStreams = f.process.fileStreams)
    (hread : readProcess m' f.address = p)
    (hframe : ∀ i, base ≤ i → i < heap → (i < f.address ∨ f.address + 80 ≤ i) → m' i = m i) :
    FramesAt m' base heap ({ f with process := p } :: fs) := by
  obtain ⟨rfl, hstored, hrest⟩ := h
  have hle := hrest.base_le
  have hlt := f.address_lt
  refine ⟨rfl, ⟨hread, ?_, ?_, ?_⟩, ?_⟩
  · rw [hparent, hstored.parent]
  · rw [hstreams, hstored.fileStreams]
  · exact hstored.streams.congr fun i h1 h2 => hframe i (by omega) (by unfold Frame.endAddress; omega)
      (Or.inr h1)
  · exact hrest.congr fun i h1 h2 => hframe i h1 (by omega) (Or.inl h2)

/-- The frame with another state for its stream `i`. -/
def Frame.setStream (f : Frame) (i : Nat) (s : StreamState) : Frame :=
  { f with streams := f.streams.set i s }

/-- Changing a stream of the first frame, but not its link. -/
theorem FramesAt.setStream {i : Nat} {s s' : StreamState} (h : FramesAt m base heap (f :: fs))
    (hs : f.streams[i]? = some s)
    (hread : ∀ next, readStream m (f.streamAddress i) = s.record next →
      readStream m' (f.streamAddress i) = s'.record next)
    (hframe : ∀ j, base ≤ j → j < heap →
      (j < f.streamAddress i ∨ f.streamAddress i + 40 ≤ j) → m' j = m j) :
    FramesAt m' base heap (f.setStream i s' :: fs) := by
  obtain ⟨rfl, hstored, hrest⟩ := h
  have hle := hrest.base_le
  have hi := Frame.streamAddress_lt (List.getElem?_eq_some_iff.mp hs).1
  unfold Frame.streamAddress Frame.endAddress at *
  have hptr : streamsPtr (f.address + 80) (f.streams.set i s') =
      streamsPtr (f.address + 80) f.streams := by
    simp [streamsPtr, List.set_eq_nil_iff]
  refine ⟨by simp [Frame.endAddress, Frame.setStream], ⟨?_, hstored.parent, ?_, ?_⟩, ?_⟩
  · show readProcess m' f.address = f.process
    rw [← hstored.process]
    exact readProcess_congr fun j h1 h2 => hframe j (by omega) (by omega) (by omega)
  · show f.process.fileStreams = streamsPtr (f.address + 80) (f.streams.set i s')
    rw [hptr, hstored.fileStreams]
  · exact hstored.streams.set hs (fun j h1 h2 h3 => hframe j (by omega) h2 h3) hread
  · exact hrest.congr fun j h1 h2 => hframe j h1 (by omega) (by omega)

/-- The frame with a new stream. -/
def Frame.addStream (f : Frame) (s : StreamState) : Frame :=
  { f with
    process := { f.process with fileStreams := f.address + 80 }
    streams := f.streams ++ [s] }

/-- The address of the pointer to the stream after the last one. -/
def Frame.lastPtr (f : Frame) : Nat :=
  if f.streams = [] then f.address + 56 else f.streamAddress (f.streams.length - 1)

/-- Allocating a stream at the end of the heap and linking it. -/
theorem FramesAt.addStream {m₁ : ByteMem} {s : StreamState} (h : FramesAt m base heap (f :: fs))
    (hheap : heap < 2 ^ 64) (hframe : ∀ j, base ≤ j → j < heap → m₁ j = m j)
    (hnew : readStream m₁ heap = s.record 0) :
    FramesAt (m₁.store 8 f.lastPtr heap) base (heap + 40) (f.addStream s :: fs) := by
  obtain ⟨rfl, hstored, hrest⟩ := h.congr hframe
  have hle := hrest.base_le
  have hlast : f.streams = [] → f.lastPtr = f.address + 56 := fun h0 => if_pos h0
  have hlast' : f.streams ≠ [] → f.lastPtr = f.streamAddress (f.streams.length - 1) ∧
      0 < f.streams.length := fun h0 => ⟨if_neg h0, List.length_pos_of_ne_nil h0⟩
  -- the pointer to the new stream is a field of the process, or of its last stream
  have hbounds : f.address + 56 ≤ f.lastPtr ∧ f.lastPtr + 8 ≤ f.endAddress := by
    unfold Frame.endAddress
    by_cases h0 : f.streams = []
    · rw [hlast h0]; omega
    · obtain ⟨h1, h2⟩ := hlast' h0
      rw [h1]; unfold Frame.streamAddress; omega
  have hend : (f.addStream s).endAddress = f.endAddress + 40 := by
    simp [Frame.endAddress, Frame.addStream]; omega
  refine ⟨hend.symm, ⟨?_, hstored.parent, ?_, ?_⟩, ?_⟩
  · show readProcess _ f.address = { f.process with fileStreams := f.address + 80 }
    by_cases h0 : f.streams = []
    · have hread := readProcess_setFileStreams (m := m₁) (a := f.address) (v := f.endAddress)
      rw [hlast h0]
      rw [hstored.process, Nat.mod_eq_of_lt hheap] at hread
      rw [show f.endAddress = f.address + 80 by simp [Frame.endAddress, h0]] at hread ⊢
      exact hread
    · obtain ⟨h1, h2⟩ := hlast' h0
      rw [readProcess_store (by rw [h1]; unfold Frame.streamAddress; omega), hstored.process,
        ← (hstored.fileStreams.trans (if_neg h0))]
  · simp [Frame.addStream, streamsPtr]
  · show StreamsAt _ (f.address + 80) (f.streams ++ [s])
    refine hstored.streams.concat ?_ ?_ ?_
    · rw [readStream_store (Or.inl (by unfold Frame.endAddress at hbounds; omega))]
      exact hnew
    · intro t ht next hnext
      have h0 : f.streams ≠ [] := by rintro h0; simp [h0] at ht
      obtain ⟨h1, h2⟩ := hlast' h0
      rw [h1]
      have hread := readStream_setNext (m := m₁)
        (a := f.address + 80 + 40 * (f.streams.length - 1)) (v := f.endAddress)
      rw [hnext, Nat.mod_eq_of_lt hheap] at hread
      exact hread
    · intro j h1 h2
      refine ByteMem.store_of_not_mem ?_
      by_cases h0 : f.streams = []
      · simp [h0] at h2; omega
      · rw [(hlast' h0).1]; unfold Frame.streamAddress; omega
  · exact hrest.congr fun j h1 h2 => ByteMem.store_of_not_mem (by omega)

/-- A new process at the end of the heap. -/
theorem FramesAt.push {p : Process} (h : FramesAt m base heap fs)
    (hframe : ∀ j, base ≤ j → j < heap → m' j = m j) (hread : readProcess m' heap = p)
    (hparent : p.parent = topAddress fs) (hstreams : p.fileStreams = 0) :
    FramesAt m' base (heap + 80) (⟨heap, p, []⟩ :: fs) :=
  ⟨by simp [Frame.endAddress], ⟨hread, hparent, hstreams, trivial⟩, h.congr hframe⟩

end Frames

end Toys.Os
