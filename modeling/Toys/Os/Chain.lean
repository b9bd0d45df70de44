import Mathlib
import Toys.Lib.Linked
import Toys.Os.Steps

namespace Toys.Os

open Toys.Lib Toys.FileSystem

/-!
# Kernel — the parent chain in memory

The processes of the parent chain and the lists of their streams, as the kernel finds them:
by following the links in memory.  The frames on the heap give the objects of both kinds of
lists, which is how a result about frames becomes one about the memory.

* `Kernel.Chain`, `Kernel.Streams`, `Kernel.OnChain` — the linked lists;
* `Framed.chain`, `Framed.streams`, ... — the lists that the frames spell;
* `Framed.objects_disjoint` — the objects on the heap do not overlap.
-/

/-- The processes from the current one to the shell. -/
def Kernel.Chain (k : Kernel) (ps : List Nat) : Prop :=
  Path 0 (fun p => (k.process p).parent) k.currentProcess ps 0

/-- The streams of a process. -/
def Kernel.Streams (k : Kernel) (p : Nat) (ss : List Nat) : Prop :=
  Path 0 (fun s => (k.stream s).next) (k.process p).fileStreams ss 0

/-- `p` is a process of the parent chain. -/
def Kernel.OnChain (k : Kernel) (p : Nat) : Prop := ∃ ps, k.Chain ps ∧ p ∈ ps

/-- `s` is a stream of a process of the parent chain. -/
def Kernel.StreamOnChain (k : Kernel) (s : Nat) : Prop :=
  ∃ p, k.OnChain p ∧ ∃ ss, k.Streams p ss ∧ s ∈ ss

/-- The addresses of the streams of a frame. -/
def Frame.streamAddresses (f : Frame) : List Nat :=
  (List.range f.streams.length).map f.streamAddress

variable {m : ByteMem} {k : Kernel} {base heap : Nat} {f : Frame} {fs : List Frame}

/-! ### The lists of the frames -/

/-- The records of the processes are linked from the current one to the first. -/
theorem FramesAt.chain (h : FramesAt m base heap fs) (hbase : 0 < base) :
    Path 0 (fun p => (readProcess m p).parent) (topAddress fs) (fs.map Frame.address) 0 := by
  induction fs generalizing heap with
  | nil => rfl
  | cons f fs ih =>
    obtain ⟨rfl, hstored, hrest⟩ := h
    have hle := hrest.base_le
    refine ⟨rfl, by omega, ?_⟩
    simp only [hstored.process, hstored.parent]
    exact ih hrest

/-- The records of the streams of a process are linked in order. -/
theorem StreamsAt.path {a : Nat} {ss : List StreamState} (h : StreamsAt m a ss) (ha : 0 < a) :
    Path 0 (fun s => (readStream m s).next) (streamsPtr a ss)
      ((List.range ss.length).map fun i => a + 40 * i) 0 := by
  induction ss generalizing a with
  | nil => rfl
  | cons s ss ih =>
    rw [List.length_cons, List.range_succ_eq_map, List.map_cons, List.map_map]
    refine ⟨rfl, by omega, ?_⟩
    have hnext : (readStream m a).next = streamsPtr (a + 40) ss := by rw [h.1]; rfl
    simp only [Nat.mul_zero, Nat.add_zero, hnext]
    have hih := ih h.2 (by omega)
    have hmap : (List.range ss.length).map ((fun i => a + 40 * i) ∘ Nat.succ) =
        (List.range ss.length).map fun i => a + 40 + 40 * i :=
      List.map_congr_left fun i _ => by simp only [Function.comp]; omega
    rw [hmap]
    exact hih

/-- The processes of the frames are the chain of the kernel. -/
theorem Framed.chain (h : Framed k base fs) : k.Chain (fs.map Frame.address) := by
  unfold Kernel.Chain
  rw [h.current]
  exact h.frames.chain h.base_pos

/-- The record of a process is at the address of its frame. -/
theorem FramesAt.stored (h : FramesAt m base heap fs) (hf : f ∈ fs) : ∃ parent, f.Stored m parent := by
  induction fs generalizing heap with
  | nil => simp at hf
  | cons g fs ih =>
    rcases List.mem_cons.mp hf with rfl | hf
    · exact ⟨_, h.2.1⟩
    · exact ih h.2.2 hf

/-- The kernel reads the record of a process at its address. -/
theorem Framed.process (h : Framed k base fs) (hf : f ∈ fs) : k.process f.address = f.process :=
  (h.frames.stored hf).choose_spec.process

/-- The streams of a process are those of its frame. -/
theorem Framed.streams (h : Framed k base fs) (hf : f ∈ fs) :
    k.Streams f.address f.streamAddresses := by
  obtain ⟨parent, hstored⟩ := h.frames.stored hf
  have hpath := hstored.streams.path (by have := h.frames.address_ge f hf; omega)
  unfold Kernel.Streams
  rw [h.process hf, hstored.fileStreams]
  exact hpath

/-- The address of the stream after the stream `i`, or 0. -/
def Frame.nextStream (f : Frame) (i : Nat) : Nat :=
  streamsPtr (f.streamAddress (i + 1)) (f.streams.drop (i + 1))

/-- The kernel reads the record of a stream at its address. -/
theorem Framed.stream (h : Framed k base fs) (hf : f ∈ fs) {i : Nat} {s : StreamState}
    (hs : f.streams[i]? = some s) : k.stream (f.streamAddress i) = s.record (f.nextStream i) := by
  obtain ⟨parent, hstored⟩ := h.frames.stored hf
  exact hstored.streams.read hs

/-- The processes of the parent chain are the ones of the frames. -/
theorem Framed.chain_iff (h : Framed k base fs) {ps : List Nat} :
    k.Chain ps ↔ ps = fs.map Frame.address :=
  ⟨fun hps => Path.unique hps h.chain, fun hps => hps ▸ h.chain⟩

/-- The processes on the chain are those of the frames. -/
theorem Framed.onChain_iff (h : Framed k base fs) {p : Nat} :
    k.OnChain p ↔ ∃ f ∈ fs, f.address = p := by
  constructor
  · rintro ⟨ps, hps, hp⟩
    rw [h.chain_iff] at hps
    subst hps
    simpa using hp
  · rintro ⟨f, hf, rfl⟩
    exact ⟨_, h.chain, List.mem_map_of_mem hf⟩

/-- A process has no other list of streams. -/
theorem Framed.streams_iff (h : Framed k base fs) (hf : f ∈ fs) {ss : List Nat} :
    k.Streams f.address ss ↔ ss = f.streamAddresses :=
  ⟨fun hss => Path.unique hss (h.streams hf), fun hss => hss ▸ h.streams hf⟩

/-- The streams of the parent chain are the ones of the frames. -/
theorem Framed.streamOnChain_iff (h : Framed k base fs) {a : Nat} :
    k.StreamOnChain a ↔ ∃ f ∈ fs, ∃ i, i < f.streams.length ∧ f.streamAddress i = a := by
  constructor
  · rintro ⟨p, hp, ss, hss, ha⟩
    obtain ⟨f, hf, rfl⟩ := h.onChain_iff.mp hp
    rw [h.streams_iff hf] at hss
    subst hss
    obtain ⟨i, hi, rfl⟩ := List.mem_map.mp ha
    exact ⟨f, hf, i, List.mem_range.mp hi, rfl⟩
  · rintro ⟨f, hf, i, hi, rfl⟩
    exact ⟨f.address, h.onChain_iff.mpr ⟨f, hf, rfl⟩, _, h.streams hf,
      List.mem_map_of_mem (List.mem_range.mpr hi)⟩

/-! ### The objects -/

/-- The objects, as pairs of an address and a size, of processes with these streams. -/
def objects (ps : List Nat) (sss : List (List Nat)) : List (Nat × Nat) :=
  ps.map (·, SIZEOF_PROCESS) ++ sss.flatten.map (·, SIZEOF_FILE_STREAM)

/-- Two objects that do not overlap. -/
def Apart (x y : Nat × Nat) : Prop := x.1 + x.2 ≤ y.1 ∨ y.1 + y.2 ≤ x.1

/-- The streams of a process follow its record. -/
theorem mem_streamAddresses {a : Nat} (h : a ∈ f.streamAddresses) :
    f.address + 80 ≤ a ∧ a + 40 ≤ f.endAddress := by
  obtain ⟨i, hi, rfl⟩ := List.mem_map.mp h
  have := Frame.streamAddress_lt (List.mem_range.mp hi)
  exact ⟨by unfold Frame.streamAddress; omega, this⟩

/-- The streams of a process are apart. -/
theorem streamAddresses_apart :
    (f.streamAddresses.map (·, SIZEOF_FILE_STREAM)).Pairwise Apart := by
  unfold Frame.streamAddresses
  rw [List.map_map, List.pairwise_map]
  refine List.pairwise_lt_range.imp fun {i j} hij => Or.inl ?_
  simp only [Function.comp, sizeof_fileStream, Frame.streamAddress]
  omega

/-- All the records of the frames are apart. -/
theorem FramesAt.objects_apart (h : FramesAt m base heap fs) :
    (objects (fs.map Frame.address) (fs.map Frame.streamAddresses)).Pairwise Apart := by
  -- a process and its streams are after those of its parent
  induction fs generalizing heap with
  | nil => simp [objects]
  | cons f fs ih =>
    obtain ⟨rfl, hstored, hrest⟩ := h
    have hends := hrest.endAddress_le
    have hlt := f.address_lt
    have hih := ih hrest
    have hprocess : ∀ g ∈ fs, g.address + 80 ≤ f.address := fun g hg => by
      have := hends g hg
      have := g.address_lt
      omega
    have hstream : ∀ g ∈ fs, ∀ a ∈ g.streamAddresses, a + 40 ≤ f.address := fun g hg a ha => by
      have := hends g hg
      have := mem_streamAddresses ha
      omega
    unfold objects at hih ⊢
    rw [List.pairwise_append] at hih ⊢
    obtain ⟨hps, hss, hcross⟩ := hih
    simp only [List.map_cons, List.flatten_cons, List.map_append, List.pairwise_cons,
      List.pairwise_append, List.mem_map, List.mem_flatten, List.mem_cons, List.mem_append]
    refine ⟨⟨?_, hps⟩, ⟨streamAddresses_apart, hss, ?_⟩, ?_⟩
    · rintro _ ⟨_, ⟨g, hg, rfl⟩, rfl⟩
      exact Or.inr (hprocess g hg)
    · rintro _ ⟨a, ha, rfl⟩ _ ⟨b, ⟨_, ⟨g, hg, rfl⟩, hb⟩, rfl⟩
      have := mem_streamAddresses ha
      have := hstream g hg b hb
      exact Or.inr (show b + 40 ≤ a by omega)
    · rintro _ (rfl | ⟨_, ⟨g, hg, rfl⟩, rfl⟩) _ (⟨a, ha, rfl⟩ | ⟨b, ⟨_, ⟨g', hg', rfl⟩, hb⟩, rfl⟩)
      · exact Or.inl (mem_streamAddresses ha).1
      · exact Or.inr (hstream g' hg' b hb)
      · have := mem_streamAddresses ha
        have := hprocess g hg
        exact Or.inl (show g.address + 80 ≤ a by omega)
      · exact hcross _ (List.mem_map_of_mem (List.mem_map_of_mem hg)) _
          (List.mem_map_of_mem (List.mem_flatten.mpr ⟨_, List.mem_map_of_mem hg', hb⟩))

/-- The processes of the parent chain and their streams do not overlap. -/
def Kernel.Disjoint (k : Kernel) : Prop :=
  ∃ ps sss, k.Chain ps ∧ List.Forall₂ k.Streams ps sss ∧ (objects ps sss).Pairwise Apart

/-- All the records of the kernel are apart. -/
theorem Framed.objects_disjoint (h : Framed k base fs) : k.Disjoint := by
  refine ⟨fs.map Frame.address, fs.map Frame.streamAddresses, h.chain, ?_, h.frames.objects_apart⟩
  rw [List.forall₂_map_left_iff, List.forall₂_map_right_iff, List.forall₂_same]
  exact fun f hf => h.streams hf

end Toys.Os
