import Mathlib
import Toys.Os.ChildRun

namespace Toys.Os

open Toys.Lib Toys.FileSystem

/-!
# Kernel — nesting of the memory of processes

The memory of a child is a part of the memory of its parent, as long as no program calls
`os_spawn` with a stack pointer after its own memory, which is not checked, and as long as
the output of a process is not stored in the memory of the kernel.

* `Nested` — the ranges of the processes of the parent chain are nested;
* `Event.RangeSafe` — the steps that keep them so;
* `Confined` — the invariant: besides the ranges, the pages that programs can change are in
  the range of the current process, and the output of the shell is empty;
* `nested_of_rangeSafe` — the ranges are nested in the runs of such steps;
* `not_nested` — and not in all runs.
-/

/-- The parent chain ends, the ranges of its processes are aligned, in the memory for programs,
    and the range of a child is in the one of its parent. -/
def Nested (k : Kernel) : Prop :=
  (∃ ps, k.Chain ps) ∧ ∀ p, k.OnChain p →
    (k.process p).begin % 4096 = 0 ∧ (k.process p).end_ % 4096 = 0 ∧
    k.heapLimit ≤ (k.process p).begin ∧ (k.process p).begin ≤ (k.process p).end_ ∧
    (k.process p).end_ ≤ k.memLimit ∧
    ((k.process p).parent ≠ 0 →
      (k.process (k.process p).parent).begin ≤ (k.process p).begin ∧
      (k.process p).end_ ≤ (k.process (k.process p).parent).end_)

/-- The number of bytes that `os_write` stores for the standard output of `p`. -/
def outputSize (m : ByteMem) (p : Process) (size : Nat) : Nat :=
  min size (U64.sub p.outputLimit (m.load 8 p.outputP))

/-- When `os_spawn` accepts its arguments, the memory of the child ends in the one of its
    parent, and `os_write` stores the standard output in the memory for programs. -/
def Event.RangeSafe (k : Kernel) : Event → Prop
  | syscall _ id args returnAddress stackPointer _ =>
    let k := saveContext k returnAddress.toNat stackPointer.toNat
    let p := k.process k.currentProcess
    let a := readArguments k.memory args.toNat
    (id.toNat = 0 → spawnArgumentsOk k.memory p (pageUp a.arg0) (pageDown p.savedStackPointer) a.arg0
      a.arg1 a.arg2 a.arg3 a.arg4 a.arg5 → pageDown p.savedStackPointer ≤ p.end_) ∧
    (id.toNat = 6 → a.arg0 = STANDARD_OUTPUT → processContainsBuffer p a.arg1 a.arg2 →
      ∀ i < outputSize k.memory p a.arg2,
        k.heapLimit ≤ U64.add (k.memory.load 8 p.outputP) i ∧
        U64.add (k.memory.load 8 p.outputP) i < k.memLimit)
  | _ => True

/-! ### The invariant -/

/-- The memory of a process and its output. -/
structure Range where
  begin : Nat
  end_ : Nat
  outputP : Nat
  outputLimit : Nat

/-- The range of the memory of a process. -/
def Frame.range (f : Frame) : Range :=
  ⟨f.process.begin, f.process.end_, f.process.outputP, f.process.outputLimit⟩

/-- The range of a child and its output pointer are in the range of each of its ancestors. -/
structure Range.Inside (r r' : Range) : Prop where
  begin : r'.begin ≤ r.begin
  end_ : r.end_ ≤ r'.end_
  outputP_ge : r'.begin ≤ r.outputP
  outputP_le : r.outputP + 8 ≤ r'.end_

/-- A range of whole pages in the memory for programs. -/
structure Range.Ok (heapLimit memLimit : Nat) (r : Range) : Prop where
  begin_mod : r.begin % 4096 = 0
  end_mod : r.end_ % 4096 = 0
  begin_ge : heapLimit ≤ r.begin
  begin_le : r.begin ≤ r.end_
  end_le : r.end_ ≤ memLimit

/-- The ranges `rs`, from the one of the current process to the one of the shell, are nested. -/
structure Confined (k : Kernel) (base : Nat) (rs : List Range) : Prop where
  ok : ∀ r ∈ rs, r.Ok k.heapLimit k.memLimit
  inside : rs.Pairwise Range.Inside
  userPages : ∀ r ∈ rs.head?, ∀ page, k.userPages page = true →
    r.begin ≤ 4096 * page ∧ 4096 * page < r.end_
  shell : rs.getLast? = some ⟨k.heapLimit, k.memLimit, k.stackPointer, k.heapLimit⟩
  /-- The output of the shell is empty. -/
  output : k.memory.load 8 k.stackPointer = k.heapLimit
  stack_disjoint : k.stackPointer + 8 ≤ base ∨ k.memLimit + 8 ≤ k.stackPointer
  memLimit_lt : k.memLimit < 2 ^ 64

variable {n base r : Nat} {k k' : Kernel} {f : Frame} {fs fs' : List Frame} {rs : List Range}
  {e : Event}

/-- The shell is confined to its pages when it starts. -/
theorem Booting.confined {p : Process} (h : Booting base k p) :
    Confined k base [Frame.range ⟨base, p, []⟩] where
  ok := by
    simp only [List.mem_singleton, forall_eq, Frame.range]
    rw [h.begin, h.end_]
    exact ⟨h.aligned.1, h.aligned.2, le_rfl, h.limit_le, le_rfl⟩
  inside := by simp
  userPages := by
    simp only [List.head?_cons, Option.mem_def, Option.some.injEq, forall_eq', Frame.range]
    rw [h.begin, h.end_]
    exact h.userPages
  shell := by
    simp only [List.getLast?_singleton, Frame.range]
    rw [h.begin, h.end_, h.outputP, h.outputLimit]
  output := h.output
  stack_disjoint := h.stack_disjoint
  memLimit_lt := h.memLimit_lt

/-- The frame of the parent of a process. -/
theorem FramesAt.parent_mem {m : ByteMem} {heap : Nat} {R : Frame → Frame → Prop}
    (h : FramesAt m base heap fs) (hR : fs.Pairwise R) (hf : f ∈ fs) (hne : f.process.parent ≠ 0) :
    ∃ g ∈ fs, f.process.parent = g.address ∧ R f g := by
  induction fs generalizing heap with
  | nil => simp at hf
  | cons g fs ih =>
    obtain ⟨-, hstored, hrest⟩ := h
    rw [List.pairwise_cons] at hR
    rcases List.mem_cons.mp hf with rfl | hf
    · cases fs with
      | nil => exact absurd hstored.parent hne
      | cons g fs => exact ⟨g, by simp, hstored.parent, hR.1 g (by simp)⟩
    · obtain ⟨g', hg', hparent, hr⟩ := ih hrest hR.2 hf
      exact ⟨g', by simp [hg'], hparent, hr⟩

/-- The ranges of the invariant are the ones of the records in memory. -/
theorem Confined.nested (hk : Framed k base fs) (h : Confined k base (fs.map Frame.range)) :
    Nested k := by
  refine ⟨⟨_, hk.chain⟩, fun p hp => ?_⟩
  obtain ⟨f, hf, rfl⟩ := hk.onChain_iff.mp hp
  obtain ⟨hok, hinside, -⟩ := h
  have hr := hok f.range (List.mem_map_of_mem hf)
  rw [hk.process hf]
  refine ⟨hr.begin_mod, hr.end_mod, hr.begin_ge, hr.begin_le, hr.end_le, fun hparent => ?_⟩
  obtain ⟨g, hg, hparent, hpair⟩ := hk.frames.parent_mem (List.pairwise_map.mp hinside) hf hparent
  rw [hparent, hk.process hg]
  exact ⟨hpair.begin, hpair.end_⟩

/-! ### What a step stores -/

@[simp] theorem Frame.range_withResult {address : Nat} : (f.withResult address r).range = f.range := by
  unfold Frame.withResult; split <;> rfl

@[simp] theorem Event.range_caller : (e.caller f).range = f.range := by cases e <;> rfl

@[simp] theorem map_range_withResult {address : Nat} :
    (fs.map (Frame.withResult address r)).map Frame.range = fs.map Frame.range := by
  simp [Function.comp_def]

/-- The event is a system call whose identifier is `id` and whose arguments are `a`. -/
def Event.Calls (k : Kernel) (id : Nat) (a : CallArguments) (e : Event) : Prop :=
  match e with
  | syscall _ id' args _ _ _ => id'.toNat = id ∧ a = readArguments (e.calling k).memory args.toNat
  | _ => False

/-- A write to the standard output. -/
def Event.WritesOutput (k : Kernel) (a : CallArguments) (e : Event) : Prop :=
  e.Calls k 6 a ∧ a.arg0 = STANDARD_OUTPUT ∧
    processContainsBuffer ((e.calling k).process (e.calling k).currentProcess) a.arg1 a.arg2

/-- A read of the keyboard. -/
def Event.ReadsKeyboard (k : Kernel) (a : CallArguments) (e : Event) : Prop :=
  e.Calls k 5 a ∧ a.arg0 < FIRST_FILE_STREAM_ID ∧
    processContainsBuffer ((e.calling k).process (e.calling k).currentProcess) a.arg1 a.arg2

/-- The memory of a child that `os_spawn` creates is in the one of its parent. -/
theorem SpawnedProcess.range_le {k₀ : Kernel} {a : CallArguments} {p : Process}
    (hp : SpawnedProcess k₀ f a p)
    (hsafe : spawnArgumentsOk k₀.memory f.process (pageUp a.arg0)
      (pageDown f.process.savedStackPointer) a.arg0 a.arg1 a.arg2 a.arg3 a.arg4 a.arg5 →
      pageDown f.process.savedStackPointer ≤ f.process.end_) :
    f.process.begin ≤ p.begin ∧ p.begin ≤ p.end_ ∧ p.end_ ≤ f.process.end_ := by
  have hchecked := hp.checked
  obtain ⟨hle, hbegin⟩ := spawnArgumentsOk_bounds hchecked
  rw [hp.begin, hp.end_] at hchecked
  refine ⟨hbegin, hle, ?_⟩
  rw [hp.end_]
  exact hsafe hchecked

/-- Outside of the kernel heap and of the memory of the current process, a step stores the standard
    output, or nothing but a word read from the keyboard. -/
theorem StepEffect.memory_or (hk : Framed k base (f :: fs))
    (hc : Confined k base ((f :: fs).map Frame.range)) (hsafe : e.RangeSafe k)
    (h : StepEffect base k f fs e k' fs') :
    (∃ a, e.WritesOutput k a ∧ ∀ j, (j < base ∨ k.heapLimit ≤ j) →
      k'.memory j = (osWriteOutput (e.calling k) a.arg0 a.arg1 a.arg2).1.memory j) ∨
    ∀ j, (j < base ∨ k.heapLimit ≤ j) → (j < f.process.begin ∨ f.process.end_ ≤ j) →
      k'.memory j = k.memory j ∨ ∃ a, e.ReadsKeyboard k a ∧ a.arg1 ≤ j ∧ j < a.arg1 + 8 := by
  have hok := hc.ok f.range (by simp)
  cases h with
  | @user memory h =>
    refine Or.inr fun j hj hout => Or.inl ?_
    by_contra hne
    obtain ⟨h1, h2⟩ := hc.userPages f.range (by simp) _ (h j hne)
    have := hok.end_mod
    simp only [Frame.range] at h1 h2 this
    omega
  | @call n idWord args returnAddress stackPointer keys k₁ r fs₁ a ha hcall hframed heffect =>
    have hcurrent : k.currentProcess = f.address := hk.current
    have hcalling : ∀ j, (j < base ∨ k.heapLimit ≤ j) →
        (saveContext k returnAddress.toNat stackPointer.toNat).memory j = k.memory j := fun j hj =>
      Event.calling_memory (e := .syscall n idWord args returnAddress stackPointer keys) hk hj
    have hsaved := Event.calling_framed (e := .syscall n idWord args returnAddress stackPointer keys) hk
    have hresult : ∀ j, (j < base ∨ k.heapLimit ≤ j) →
        setSavedR8 k₁.memory f.address r j = k₁.memory j := fun j hj =>
      hk.setSavedR8_of_not_mem List.mem_cons_self hj
    simp only [Event.RangeSafe] at hsafe
    have hprocess := hsaved.process_eq
    simp only [Event.calling, Event.caller] at hprocess hsaved
    rw [hprocess, ← ha] at hsafe
    rw [← hcurrent] at hcall
    generalize hid : idWord.toNat = id at hcall heffect hsafe
    -- the keyboard and the output are the only calls that store outside of the range of the process
    cases heffect with
    | output h6 hstream hbuffer =>
      subst h6
      refine Or.inl ⟨a, ⟨⟨hid, ha⟩, hstream, ?_⟩, fun j hj => hresult j hj⟩
      rw [Event.calling, hprocess]
      exact hbuffer
    | quiet => exact Or.inr fun j hj _ => Or.inl ((hresult j hj).trans (hcalling j hj))
    | key h5 hstream hbuffer =>
      subst h5
      refine Or.inr fun j hj _ => ?_
      by_cases hmem : a.arg1 ≤ j ∧ j < a.arg1 + 8
      · refine Or.inr ⟨a, ⟨⟨hid, ha⟩, hstream, ?_⟩, hmem⟩
        rw [Event.calling, hprocess]
        exact hbuffer
      · left
        rw [← hcalling j hj]
        exact (hresult j hj).trans (ByteMem.store_of_not_mem (by omega))
    | stream _ _ _ _ hmem =>
      exact Or.inr fun j hj hout => Or.inl ((hresult j hj).trans ((hmem j hj hout).trans (hcalling j hj)))
    | opened _ _ _ _ _ hmem =>
      exact Or.inr fun j hj hout => Or.inl ((hresult j hj).trans ((hmem j hj hout).trans (hcalling j hj)))
    | openFailed _ _ _ _ hmem =>
      exact Or.inr fun j hj hout => Or.inl ((hresult j hj).trans ((hmem j hj hout).trans (hcalling j hj)))
    | delete _ _ _ _ _ _ _ hmem =>
      exact Or.inr fun j hj hout => Or.inl ((hresult j hj).trans ((hmem j hj hout).trans (hcalling j hj)))
    | spawn h0 hreads hp hmem =>
      obtain ⟨h1, h2, h3⟩ := hp.range_le (hsafe.1 h0)
      simp only [Frame.saved] at h1 h3
      refine Or.inr fun j hj hout => Or.inl ?_
      exact (hresult j hj).trans ((hmem j hj (by omega)).trans (hcalling j hj))
    | exit h1 hfs hr =>
      subst hfs
      rw [osExit_eq hsaved hr] at hresult ⊢
      refine Or.inr fun j hj _ => Or.inl ?_
      rw [← hcalling j hj]
      exact (hresult j hj).trans (hk.setSavedR8_of_not_mem (by simp) hj)
  | shellFault => exact Or.inr fun _ _ _ => Or.inl rfl
  | fault hfs =>
    subst hfs
    rw [osExit_eq hk (by decide)]
    exact Or.inr fun j hj _ => Or.inl (hk.setSavedR8_of_not_mem (by simp) hj)

/-- The byte at one address, after a step. -/
theorem StepEffect.memory_cases (hk : Framed k base (f :: fs))
    (hc : Confined k base ((f :: fs).map Frame.range)) (hsafe : e.RangeSafe k)
    (h : StepEffect base k f fs e k' fs') {j : Nat} (hj : j < base ∨ k.heapLimit ≤ j)
    (hout : j < f.process.begin ∨ f.process.end_ ≤ j) :
    k'.memory j = k.memory j ∨ (∃ a, e.ReadsKeyboard k a ∧ a.arg1 ≤ j ∧ j < a.arg1 + 8) ∨
      ∃ a, e.WritesOutput k a ∧
        k'.memory j = (osWriteOutput (e.calling k) a.arg0 a.arg1 a.arg2).1.memory j := by
  rcases h.memory_or hk hc hsafe with ⟨a, hw, hmem⟩ | hmem
  · exact Or.inr (Or.inr ⟨a, hw, hmem j hj⟩)
  · rcases hmem j hj hout with heq | hkey
    · exact Or.inl heq
    · exact Or.inr (Or.inl hkey)

/-! ### The standard output -/

section Output

variable {size buffer j : Nat}

/-- The memory after a write whose copy leaves the record of the process as it was. -/
theorem osWriteOutput_memory {p : Process} (hp : k.process k.currentProcess = p)
    (hcopied : (readProcess (memCopyNonOverlapping k.memory buffer (k.memory.load 8 p.outputP)
      (outputSize k.memory p size)) k.currentProcess).outputP = p.outputP) :
    (osWriteOutput k STANDARD_OUTPUT buffer size).1.memory =
      (memCopyNonOverlapping k.memory buffer (k.memory.load 8 p.outputP)
        (outputSize k.memory p size)).store 8 p.outputP
        (U64.add ((memCopyNonOverlapping k.memory buffer (k.memory.load 8 p.outputP)
          (outputSize k.memory p size)).load 8 p.outputP) (outputSize k.memory p size)) := by
  rw [outputSize] at hcopied ⊢
  simp only [osWriteOutput, hp, if_true, hcopied]

/-- A byte outside of the window of the output, and of the word of its end, is kept. -/
theorem osWriteOutput_memory_of_ne {p : Process} (hp : k.process k.currentProcess = p)
    (hwindow : ∀ i < outputSize k.memory p size, U64.add (k.memory.load 8 p.outputP) i ≠ j)
    (hrecord : ∀ i < outputSize k.memory p size,
      U64.add (k.memory.load 8 p.outputP) i < k.currentProcess ∨
        k.currentProcess + SIZEOF_PROCESS ≤ U64.add (k.memory.load 8 p.outputP) i)
    (hcell : j < p.outputP ∨ p.outputP + 8 ≤ j) :
    (osWriteOutput k STANDARD_OUTPUT buffer size).1.memory j = k.memory j := by
  have hcopied : readProcess (memCopyNonOverlapping k.memory buffer (k.memory.load 8 p.outputP)
      (outputSize k.memory p size)) k.currentProcess = p := by
    refine Eq.trans (readProcess_congr fun i h1 h2 => memCopyNonOverlapping_of_ne fun d hd heq => ?_) hp
    have hd := hrecord d hd
    rw [sizeof_process, heq] at hd
    omega
  rw [osWriteOutput_memory hp (congrArg Process.outputP hcopied), ByteMem.store_of_not_mem hcell,
    memCopyNonOverlapping_of_ne hwindow]

/-- Nothing is stored when the window of the output is empty. -/
theorem outputSize_of_empty {m : ByteMem} {p : Process} (h : m.load 8 p.outputP = p.outputLimit) :
    outputSize m p size = 0 := by
  have hlt : p.outputLimit < 2 ^ 64 := by
    rw [← h]
    exact ByteMem.load_lt _ _ _
  rw [outputSize, h, U64.sub_eq le_rfl hlt, Nat.sub_self, Nat.min_zero]

/-- The memory does not change when the window of the output is empty. -/
theorem osWriteOutput_memory_of_empty {p : Process} (hp : k.process k.currentProcess = p)
    (h : k.memory.load 8 p.outputP = p.outputLimit) :
    (osWriteOutput k STANDARD_OUTPUT buffer size).1.memory = k.memory := by
  have hlt : p.outputLimit < 2 ^ 64 := by
    rw [← h]
    exact ByteMem.load_lt _ _ _
  have hsize : outputSize k.memory p size = 0 := outputSize_of_empty h
  have hcopy : memCopyNonOverlapping k.memory buffer (k.memory.load 8 p.outputP) 0 = k.memory := rfl
  rw [osWriteOutput_memory hp (by rw [hsize, hcopy]; exact congrArg Process.outputP hp), hsize, hcopy,
    U64.add_eq (by rw [h]; exact hlt), Nat.add_zero, ByteMem.store_load]

end Output

/-- The window of the output of the shell is empty. -/
theorem Confined.shell_empty (hk : Framed k base [f]) (hc : Confined k base [f.range]) :
    (e.calling k).memory.load 8 (e.caller f).process.outputP = (e.caller f).process.outputLimit := by
  have hrange := Event.range_caller (e := e) (f := f)
  have hshell := hc.shell
  simp only [Frame.range, Range.mk.injEq] at hrange
  simp only [List.getLast?_singleton, Option.some.injEq, Frame.range, Range.mk.injEq] at hshell
  obtain ⟨-, -, houtputP, hlimit⟩ := hrange
  have hok := hc.ok f.range (by simp)
  have hok1 := hok.begin_ge
  have hok2 := hok.begin_le
  have hok3 := hok.end_le
  rw [houtputP, hlimit, hshell.2.2.1, hshell.2.2.2, ← hc.output]
  refine ByteMem.load_congr fun i h1 h2 => Event.calling_memory hk ?_
  have := hc.stack_disjoint
  omega

/-- The standard output is stored in the memory for programs. -/
theorem Confined.writesOutput (hk : Framed k base (f :: fs))
    (hc : Confined k base ((f :: fs).map Frame.range)) (hsafe : e.RangeSafe k) {a : CallArguments}
    (hw : e.WritesOutput k a) {j : Nat} (hj : j < k.heapLimit ∨ k.memLimit ≤ j) :
    (osWriteOutput (e.calling k) a.arg0 a.arg1 a.arg2).1.memory j = (e.calling k).memory j := by
  obtain ⟨hcalls, hstream, hbuffer⟩ := hw
  have hprocess : (e.calling k).process (e.calling k).currentProcess = (e.caller f).process :=
    (Event.calling_framed hk).process_eq
  have hrange := Event.range_caller (e := e) (f := f)
  simp only [Frame.range, Range.mk.injEq] at hrange
  obtain ⟨hbegin, hend, houtputP, hlimit⟩ := hrange
  rw [hstream]
  cases fs with
  | nil =>
    -- the shell
    rw [osWriteOutput_memory_of_empty hprocess (hc.shell_empty hk)]
  | cons g fs =>
    have hinside : f.range.Inside g.range :=
      List.rel_of_pairwise_cons hc.inside (by simp)
    have hok := hc.ok g.range (by simp)
    have h1 := hinside.outputP_ge
    have h2 := hinside.outputP_le
    have h3 := hok.begin_ge
    have h4 := hok.end_le
    simp only [Frame.range] at h1 h2 h3 h4
    cases e with
    | user => exact hcalls.elim
    | fault => exact hcalls.elim
    | syscall n' id' args' returnAddress stackPointer keys' =>
      obtain ⟨hid, rfl⟩ := hcalls
      simp only [Event.RangeSafe] at hsafe
      -- the record of the process is on the heap, below the window of the output
      have hcalling := Event.calling_framed (e := .syscall n' id' args' returnAddress stackPointer keys') hk
      have hcurrent : (Event.calling k _).currentProcess = (Event.caller f _).address := hcalling.current
      have hheap : k.heap = (Event.caller f _).endAddress := hcalling.frames.1
      have hrecord : (Event.calling k (.syscall n' id' args' returnAddress stackPointer keys')).currentProcess +
          SIZEOF_PROCESS ≤ k.heapLimit := by
        rw [hcurrent, sizeof_process]
        exact (Frame.address_lt _).trans (hheap ▸ hk.heap_le)
      simp only [Event.calling] at hprocess hbuffer hstream hrecord ⊢
      have hwindow := hsafe.2 hid hstream hbuffer
      rw [← hprocess] at houtputP
      refine osWriteOutput_memory_of_ne rfl (fun i hi heq => ?_) (fun i hi => ?_) (by rw [houtputP]; omega)
      · have h5 := hwindow i hi
        rw [heq] at h5
        change k.heapLimit ≤ j ∧ j < k.memLimit at h5
        omega
      · exact .inr (hrecord.trans (hwindow i hi).1)

/-! ### Steps -/

/-- Such steps do not change the memory of the kernel. -/
theorem Confined.kernelSafe (hk : Framed k base (f :: fs))
    (hc : Confined k base ((f :: fs).map Frame.range)) (hsafe : e.RangeSafe k) (hs : Step k e k') :
    e.KernelSafe k := by
  have hbegin := (hc.ok f.range (by simp)).begin_ge
  cases hs with
  | user hpages =>
    intro j hj
    by_contra hne
    have := (hc.userPages f.range (by simp) _ (hpages j hne)).1
    omega
  | syscall =>
    simp only [Event.KernelSafe]
    intro hid hstream hbuffer j hj
    have hwrite := hc.writesOutput hk hsafe ⟨⟨hid, rfl⟩, hstream, hbuffer⟩ (Or.inl hj)
    simpa only [Event.calling] using hwrite
  | fault => trivial

/-- `os_exit` keeps the limits of the kernel. -/
theorem osExit_limits : (osExit k r).1.stackPointer = k.stackPointer ∧
    (osExit k r).1.heapLimit = k.heapLimit ∧ (osExit k r).1.memLimit = k.memLimit := by
  simp only [osExit]
  split_ifs <;> simp

/-- The output of a process keeps the limits of the kernel. -/
theorem osWriteOutput_limits {streamId buffer size : Nat} :
    (osWriteOutput k streamId buffer size).1.stackPointer = k.stackPointer ∧
      (osWriteOutput k streamId buffer size).1.heapLimit = k.heapLimit ∧
      (osWriteOutput k streamId buffer size).1.memLimit = k.memLimit ∧
      (osWriteOutput k streamId buffer size).1.userPages = k.userPages := by
  simp only [osWriteOutput]
  split_ifs <;> simp

/-- Any step keeps the limits of the kernel. -/
theorem StepEffect.limits (h : StepEffect base k f fs e k' fs') :
    k'.stackPointer = k.stackPointer ∧ k'.heapLimit = k.heapLimit ∧ k'.memLimit = k.memLimit := by
  cases h with
  | call ha hcall hframed heffect =>
    cases heffect with
    | exit => simp only [osExit_limits, saveContext, and_self]
    | output => simp only [osWriteOutput_limits, saveContext, and_self]
    | _ => exact ⟨rfl, rfl, rfl⟩
  | fault => simp only [osExit_limits, and_self]
  | _ => exact ⟨rfl, rfl, rfl⟩

/-! ### The pages of the kernel -/

/-- The condition of `Event.KernelSafe` for the writes to the standard output. -/
def Event.OutputSafe (k : Kernel) : Event → Prop
  | syscall n id args returnAddress stackPointer keys =>
    KernelSafe k (syscall n id args returnAddress stackPointer keys)
  | _ => True

/-- A program that stores in its own memory writes no output. -/
theorem Event.outputSafe_user {memory : ByteMem} : Event.OutputSafe k (.user memory) := trivial

/-- A system call that is not a write meets the condition. -/
theorem Event.Returns.outputSafe {id : Nat} {a : CallArguments} (h : e.Returns k n id a r)
    (hid : id ≠ 6) : e.OutputSafe k := by
  cases e with
  | user => exact h.elim
  | fault => exact h.elim
  | syscall =>
    obtain ⟨-, rfl, -, -⟩ := h
    exact fun h6 => absurd h6 hid

/-- The pages that are made accessible are in the range, or were before. -/
theorem setPagesUserMode_true {userPages : Nat → Bool} {beginPage endPage page : Nat}
    (h : setPagesUserMode userPages beginPage endPage true page = true) :
    beginPage / 4096 ≤ page ∨ userPages page = true := by
  unfold setPagesUserMode at h
  split at h
  · rename_i hpage
    exact Or.inl hpage.1
  · exact Or.inr h

/-- The pages that remain accessible were before. -/
theorem setPagesUserMode_false {userPages : Nat → Bool} {beginPage endPage page : Nat}
    (h : setPagesUserMode userPages beginPage endPage false page = true) :
    userPages page = true := by
  unfold setPagesUserMode at h
  split at h
  · cases h
  · exact h

/-- The pages that a process gets are not below its memory, which is above the kernel heap. -/
theorem Framed.pages_ge {k₁ : Kernel} {p page : Nat}
    (h : Framed (osSetCurrentProcess k₁ p) base (f :: fs)) (hmod : k₁.heapLimit % 4096 = 0)
    (hold : k₁.userPages page = true → k₁.heapLimit ≤ 4096 * page)
    (hpage : (osSetCurrentProcess k₁ p).userPages page = true) : k₁.heapLimit ≤ 4096 * page := by
  have hread : (k₁.process p).begin = f.process.begin := congrArg Process.begin h.process_eq
  have hbegin : k₁.heapLimit ≤ f.process.begin := h.begin_ge f List.mem_cons_self
  simp only [osSetCurrentProcess] at hpage
  rcases setPagesUserMode_true hpage with hge | hpage
  · rw [hread] at hge
    omega
  · split at hpage
    · exact hold (setPagesUserMode_false hpage)
    · exact hold hpage

/-- No step gives a page of the kernel to the programs. -/
theorem StepEffect.pages_ge {page : Nat} (hk : Framed k base (f :: fs)) (hk' : Framed k' base fs')
    (h : StepEffect base k f fs e k' fs') (hmod : k.heapLimit % 4096 = 0)
    (hold : k.userPages page = true → k.heapLimit ≤ 4096 * page)
    (hpage : k'.userPages page = true) : k.heapLimit ≤ 4096 * page := by
  cases h with
  | user => exact hold hpage
  | @call n id args returnAddress stackPointer keys k₁ r fs₁ a ha hcall hframed heffect =>
    have hsaved := hk.saveContext (UInt64.toNat_lt returnAddress) (UInt64.toNat_lt stackPointer)
    cases heffect with
    | output =>
      apply hold
      rw [← hpage]
      simp only [osWriteOutput_limits, saveContext]
    | spawn => exact hframed.pages_ge hmod hold hpage
    | exit _ hfs hr =>
      subst hfs
      rw [osExit_eq hsaved hr] at hframed hpage
      exact hframed.pages_ge hmod hold hpage
    | _ => exact hold hpage
  | shellFault => exact hold hpage
  | fault hfs =>
    subst hfs
    rw [osExit_eq hk (by decide)] at hk' hpage
    exact hk'.pages_ge hmod hold hpage

/-- Programs can't change the memory of the kernel themselves. -/
theorem Event.OutputSafe.kernelSafe (hsafe : e.OutputSafe k) (hs : Step k e k')
    (hmod : k.heapLimit % 4096 = 0)
    (hpages : ∀ page, k.userPages page = true → k.heapLimit ≤ 4096 * page) : e.KernelSafe k := by
  cases hs with
  | user hstore =>
    -- a page that was changed is one of the programs
    intro j hj
    by_contra hne
    have := hpages _ (hstore j hne)
    omega
  | syscall => exact hsafe
  | fault => trivial

/-- If the output of the processes is not stored in the kernel, nothing is: the programs can't
    access its pages. -/
theorem Reachable.kernelSafe (h : Reachable Event.OutputSafe k) :
    Reachable Event.KernelSafe k ∧ ∃ base f fs, Framed k base (f :: fs) ∧
      k.heapLimit ≤ base + 5119 ∧ k.heapLimit % 4096 = 0 ∧
      ∀ page, k.userPages page = true → k.heapLimit ≤ 4096 * page := by
  induction h with
  | boot h =>
    obtain ⟨base, p, hboot⟩ := h.booting
    exact ⟨Reachable.boot h, base, _, _, hboot.framed, hboot.limit_le_base, hboot.aligned.1,
      fun page hpage => (hboot.userPages page hpage).1⟩
  | step h hsafe hs ih =>
    obtain ⟨hreach, base, f, fs, hframed, hroom, hmod, hpages⟩ := ih
    have hkernel := hsafe.kernelSafe hs hmod hpages
    obtain ⟨fs', hframed', heffect⟩ := step_effect hframed hkernel hs
    obtain ⟨f', fs', rfl⟩ := List.exists_cons_of_ne_nil heffect.ne_nil
    have hlimit := heffect.limits.2.1
    refine ⟨Reachable.step hreach hkernel hs, base, f', fs', hframed', ?_, ?_, fun page hpage => ?_⟩
    · rw [hlimit]
      exact hroom
    · rw [hlimit]
      exact hmod
    · rw [hlimit]
      exact heffect.pages_ge hframed hframed' hmod (hpages page) hpage

/-- The output of the shell stays empty. -/
theorem Confined.output_eq (hk : Framed k base (f :: fs))
    (hc : Confined k base ((f :: fs).map Frame.range)) (hsafe : e.RangeSafe k)
    (h : StepEffect base k f fs e k' fs') : k'.memory.load 8 k.stackPointer = k.heapLimit := by
  have hok := hc.ok f.range (by simp)
  have h1 := hok.begin_ge
  have h2 := hok.begin_le
  have h3 := hok.end_le
  have hbounds := hk.address_bounds (f := f) (by simp)
  have hstack := hc.stack_disjoint
  have hrange := Event.range_caller (e := e) (f := f)
  simp only [Frame.range] at h1 h2 h3
  rw [← hc.output]
  refine ByteMem.load_congr fun j hj1 hj2 => ?_
  rcases h.memory_cases hk hc hsafe (j := j) (by omega) (by omega) with
    heq | ⟨a, ⟨-, -, hbuffer⟩, ha1, ha2⟩ | ⟨a, hw, heq⟩
  · exact heq
  · -- a word read from the keyboard ends before the stack of the kernel
    have hcaller := Event.calling_framed (e := e) hk
    rw [hcaller.process_eq, processContainsBuffer_iff hcaller.fits] at hbuffer
    simp only [Frame.range, Range.mk.injEq] at hrange
    omega
  · rw [heq, hc.writesOutput hk hsafe hw (by omega), Event.calling_memory hk (by omega)]

/-- The pages that the new process can access are its own, or were accessible and not its parent's.
    -/
theorem osSetCurrentProcess_userPages {p page : Nat} (hp : (k.process p).begin % 4096 = 0)
    (hparent : (k.process p).parent ≠ 0 → (k.process (k.process p).parent).begin % 4096 = 0)
    (h : (osSetCurrentProcess k p).userPages page = true) :
    ((k.process p).begin ≤ 4096 * page ∧ 4096 * page < (k.process p).end_) ∨
      k.userPages page = true ∧ ((k.process p).parent ≠ 0 →
        ¬ ((k.process (k.process p).parent).begin ≤ 4096 * page ∧
          4096 * page < (k.process (k.process p).parent).end_)) := by
  simp only [osSetCurrentProcess] at h
  rw [setPagesUserMode_of_aligned hp] at h
  split at h
  · exact Or.inl (by assumption)
  · right
    split at h
    · rename_i hne
      rw [setPagesUserMode_of_aligned (hparent hne)] at h
      split at h
      · simp at h
      · exact ⟨h, fun _ => by assumption⟩
    · rename_i hne
      exact ⟨h, fun hne' => absurd hne' hne⟩


/-- The pages that programs can change when the current process is the first frame. -/
theorem Framed.userPages {k₁ : Kernel} {p page : Nat} (hk : Framed (osSetCurrentProcess k₁ p) base (f :: fs))
    (hok : ∀ g ∈ f :: fs, g.process.begin % 4096 = 0)
    (hpage : (osSetCurrentProcess k₁ p).userPages page = true) :
    (f.process.begin ≤ 4096 * page ∧ 4096 * page < f.process.end_) ∨
      k₁.userPages page = true ∧ ∀ g ∈ fs.head?,
        ¬ (g.process.begin ≤ 4096 * page ∧ 4096 * page < g.process.end_) := by
  have hp : p = f.address := hk.current
  have hread : k₁.process p = f.process := hp ▸ hk.process List.mem_cons_self
  have hparent : f.process.parent = topAddress fs := hk.frames.2.1.parent
  cases fs with
  | nil =>
    have h0 : f.process.parent = 0 := hparent
    rcases osSetCurrentProcess_userPages (by rw [hread]; exact hok f (by simp))
      (fun hne => absurd (by rw [hread]; exact h0) hne) hpage with h | ⟨h, -⟩
    · exact Or.inl (hread ▸ h)
    · exact Or.inr ⟨h, by simp⟩
  | cons g fs =>
    have hg : f.process.parent = g.address := hparent
    have hreadg : k₁.process g.address = g.process := hk.process (by simp)
    have hne := hk.frames.address_ge g (by simp)
    have hpos := hk.base_pos
    rcases osSetCurrentProcess_userPages (by rw [hread]; exact hok f (by simp))
      (fun _ => by rw [hread, hg, hreadg]; exact hok g (by simp)) hpage with h | ⟨h, hnot⟩
    · exact Or.inl (hread ▸ h)
    · rw [hread, hg, hreadg] at hnot
      refine Or.inr ⟨h, ?_⟩
      simp only [List.head?_cons, Option.mem_def, Option.some.injEq, forall_eq']
      exact hnot (by omega)

/-- The invariant is kept when a child is spawned in the memory of its parent. -/
theorem Confined.spawn {p : Frame} (hc : Confined k base (f.range :: rs))
    (hok : p.range.Ok k.heapLimit k.memLimit) (hinside : p.range.Inside f.range)
    (hlimits : k'.stackPointer = k.stackPointer ∧ k'.heapLimit = k.heapLimit ∧
      k'.memLimit = k.memLimit)
    (houtput : k'.memory.load 8 k.stackPointer = k.heapLimit)
    (hpages : ∀ page, k'.userPages page = true →
      p.range.begin ≤ 4096 * page ∧ 4096 * page < p.range.end_) :
    Confined k' base (p.range :: f.range :: rs) := by
  obtain ⟨h1, h2, h3⟩ := hlimits
  obtain ⟨hoks, hinsides, -, hshell, -, hstack, hlt⟩ := hc
  refine ⟨?_, ?_, by simpa using hpages, ?_, by rw [h1, h2, houtput], by rw [h1, h3]; exact hstack,
    by rw [h3]; exact hlt⟩
  · rw [h2, h3]
    exact List.forall_mem_cons.mpr ⟨hok, hoks⟩
  · refine List.pairwise_cons.mpr ⟨List.forall_mem_cons.mpr ⟨hinside, fun r hr => ?_⟩, hinsides⟩
    have hr' := List.rel_of_pairwise_cons hinsides hr
    exact ⟨hr'.begin.trans hinside.begin, hinside.end_.trans hr'.end_,
      hr'.begin.trans hinside.outputP_ge, hinside.outputP_le.trans hr'.end_⟩
  · rw [h1, h2, h3, List.getLast?_cons_cons]
    exact hshell

/-- The invariant is kept when the ranges do not change. -/
theorem Confined.congr (hc : Confined k base rs)
    (hlimits : k'.stackPointer = k.stackPointer ∧ k'.heapLimit = k.heapLimit ∧
      k'.memLimit = k.memLimit)
    (houtput : k'.memory.load 8 k.stackPointer = k.heapLimit) (hpages : k'.userPages = k.userPages) :
    Confined k' base rs := by
  obtain ⟨h1, h2, h3⟩ := hlimits
  obtain ⟨hoks, hinsides, huser, hshell, -, hstack, hlt⟩ := hc
  exact ⟨by rwa [h2, h3], hinsides, by rwa [hpages], by rwa [h1, h2, h3], by rw [h1, h2, houtput],
    by rwa [h1, h3], by rwa [h3]⟩

/-- The invariant is kept when the current process ends. -/
theorem Confined.exit (hc : Confined k base (f.range :: rs)) (hrs : rs ≠ [])
    (hlimits : k'.stackPointer = k.stackPointer ∧ k'.heapLimit = k.heapLimit ∧
      k'.memLimit = k.memLimit)
    (houtput : k'.memory.load 8 k.stackPointer = k.heapLimit)
    (hpages : ∀ r ∈ rs.head?, ∀ page, k'.userPages page = true →
      r.begin ≤ 4096 * page ∧ 4096 * page < r.end_) : Confined k' base rs := by
  obtain ⟨h1, h2, h3⟩ := hlimits
  obtain ⟨hoks, hinsides, -, hshell, -, hstack, hlt⟩ := hc
  refine ⟨?_, (List.pairwise_cons.mp hinsides).2, hpages, ?_, by rw [h1, h2, houtput],
    by rwa [h1, h3], by rwa [h3]⟩
  · rw [h2, h3]
    exact fun r hr => hoks r (by simp [hr])
  · obtain ⟨r, rs, rfl⟩ := List.exists_cons_of_ne_nil hrs
    rw [h1, h2, h3, ← hshell, List.getLast?_cons_cons]

/-- The range of a child that `os_spawn` creates. -/
theorem SpawnedProcess.range_ok {k₀ : Kernel} {a : CallArguments} {p : Process} {address : Nat}
    (hp : SpawnedProcess k₀ f a p) (hf : f.range.Ok k.heapLimit k.memLimit) (hfits : f.process.Fits)
    (hle : p.end_ ≤ f.process.end_) :
    (Frame.range ⟨address, p, []⟩).Ok k.heapLimit k.memLimit ∧
      (Frame.range ⟨address, p, []⟩).Inside f.range := by
  obtain ⟨h1, h2⟩ := spawnArgumentsOk_bounds hp.checked
  obtain ⟨houtput, -⟩ := spawnArgumentsOk_output hp.checked
  obtain ⟨h3, -, h4⟩ := (processContainsBuffer_iff hfits).mp houtput
  have hbegin := hf.begin_ge
  have hend := hf.end_le
  simp only [Frame.range] at hbegin hend
  refine ⟨⟨?_, ?_, hbegin.trans h2, h1, hle.trans hend⟩, ⟨h2, hle, ?_, ?_⟩⟩
  · simp only [Frame.range, hp.begin]
    exact pageUp_mod _
  · simp only [Frame.range, hp.end_]
    exact pageDown_mod _
  · simp only [Frame.range, hp.outputP]
    exact h3
  · simp only [Frame.range, hp.outputP]
    exact h4

/-- A new stream keeps the range of the process. -/
theorem Frame.Extends.range_eq {f' : Frame} (h : f.Extends f') : f'.range = f.range := by
  rcases h with rfl | ⟨s, -, rfl⟩ <;> rfl

/-- The deletion of a file keeps the ranges. -/
theorem Frame.Skips.map_range {io : BlockIo} {file : Nat}
    (h : List.Forall₂ (Frame.Skips io file) fs fs') : fs'.map Frame.range = fs.map Frame.range := by
  have hsame : List.Forall₂ (fun g g' => Frame.range g' = g.range) fs fs' :=
    h.imp fun g g' hs => by
      have hprocess := hs.process
      unfold Frame.range
      rw [hprocess]
  rw [← List.forall₂_eq_eq_eq, List.forall₂_map_left_iff, List.forall₂_map_right_iff]
  exact hsame.flip

/-- The ranges when the current process ends. -/
theorem Confined.exitProcess {g g' : Frame} {gs : List Frame} {k₁ : Kernel} {p : Nat}
    (hc : Confined k base ((f :: g :: gs).map Frame.range)) (hg : g'.range = g.range)
    (hk' : Framed (osSetCurrentProcess k₁ p) base (g' :: gs)) (hpages : k₁.userPages = k.userPages)
    (hk'' : k'.userPages = (osSetCurrentProcess k₁ p).userPages)
    (hlimits : k'.stackPointer = k.stackPointer ∧ k'.heapLimit = k.heapLimit ∧
      k'.memLimit = k.memLimit)
    (houtput : k'.memory.load 8 k.stackPointer = k.heapLimit) :
    Confined k' base ((g' :: gs).map Frame.range) := by
  rw [List.map_cons, hg]
  refine Confined.exit (f := f) hc (by simp) hlimits houtput ?_
  simp only [List.head?_cons, Option.mem_def, Option.some.injEq, forall_eq']
  intro page hpage
  have hinside : f.range.Inside g.range := List.rel_of_pairwise_cons hc.inside (by simp)
  rw [← hg] at hinside ⊢
  have hok : ∀ f' ∈ g' :: gs, f'.process.begin % 4096 = 0 := by
    refine List.forall_mem_cons.mpr ⟨?_, fun f' hf' => ?_⟩
    · have := (hc.ok g.range (by simp)).begin_mod
      rwa [← hg] at this
    · exact (hc.ok f'.range (List.mem_map_of_mem (by simp [hf']))).begin_mod
  rcases hk'.userPages hok (hk'' ▸ hpage) with h | ⟨h, -⟩
  · exact h
  · obtain ⟨h1, h2⟩ := hc.userPages f.range (by simp) page (hpages ▸ h)
    exact ⟨hinside.begin.trans h1, h2.trans_le hinside.end_⟩

/-- The invariant is kept by the steps that keep the ranges nested. -/
theorem StepEffect.confined (hk : Framed k base (f :: fs))
    (hc : Confined k base ((f :: fs).map Frame.range)) (hsafe : e.RangeSafe k) (hk' : Framed k' base fs')
    (h : StepEffect base k f fs e k' fs') : Confined k' base (fs'.map Frame.range) := by
  have hlimits := h.limits
  have houtput := hc.output_eq hk hsafe h
  cases h with
  | user => exact hc.congr hlimits houtput rfl
  | @call n idWord args returnAddress stackPointer keys k₁ r fs₁ a ha hcall hframed heffect =>
    have hsaved := Event.calling_framed (e := .syscall n idWord args returnAddress stackPointer keys) hk
    have hprocess := hsaved.process_eq
    simp only [Event.calling, Event.caller] at hsaved hprocess
    simp only [Event.RangeSafe] at hsafe
    rw [hprocess, ← ha] at hsafe
    rw [map_range_withResult]
    -- only a new process and the end of one change the list of the ranges
    cases heffect with
    | quiet => exact hc.congr hlimits houtput rfl
    | key => exact hc.congr hlimits houtput rfl
    | output =>
      refine hc.congr hlimits houtput ?_
      simp only [osWriteOutput_limits, saveContext]
    | stream => exact hc.congr hlimits houtput rfl
    | opened _ hf =>
      rw [List.map_cons, show (Frame.setStream _ _ _).range = f.range from hf.range_eq]
      exact hc.congr hlimits houtput rfl
    | openFailed _ hf =>
      rw [List.map_cons, hf.range_eq]
      exact hc.congr hlimits houtput rfl
    | delete _ _ _ _ hskips =>
      rw [Frame.Skips.map_range hskips]
      exact hc.congr hlimits houtput rfl
    | @spawn disk memory p h0 hreads hp hmem =>
      obtain ⟨-, -, hle⟩ := hp.range_le (hsafe.1 h0)
      have hok := hc.ok f.range (by simp)
      obtain ⟨hpok, hpinside⟩ := hp.range_ok (k := k) hok hsaved.fits hle
      refine Confined.spawn (p := ⟨k.heap, p, []⟩) hc hpok hpinside hlimits houtput fun page hpage => ?_
      have hframes : ∀ g ∈ (⟨k.heap, p, []⟩ : Frame) :: f.saved returnAddress.toNat stackPointer.toNat :: fs,
          g.process.begin % 4096 = 0 := by
        refine List.forall_mem_cons.mpr ⟨hpok.begin_mod, List.forall_mem_cons.mpr ⟨hok.begin_mod,
          fun g hg => ?_⟩⟩
        exact (hc.ok g.range (List.mem_map_of_mem (by simp [hg]))).begin_mod
      -- a page of the parent that is not in the range of the child is protected
      rcases hframed.userPages hframes hpage with h | ⟨h, hnot⟩
      · exact h
      · exact absurd (hc.userPages f.range (by simp) page h)
          (hnot (f.saved returnAddress.toNat stackPointer.toNat) rfl)
    | @exit g gs h1 hfs hr =>
      subst hfs
      have hexit := hframed
      rw [osExit_eq hsaved hr] at hexit
      exact Confined.exitProcess hc rfl hexit rfl (by rw [osExit_eq hsaved hr]) hlimits houtput
  | shellFault hfs =>
    subst hfs
    exact hc
  | fault hfs =>
    subst hfs
    have hexit := hk'
    rw [osExit_eq hk (by decide)] at hexit
    exact Confined.exitProcess hc rfl hexit rfl (by rw [osExit_eq hk (by decide)]) hlimits houtput

/-! ### Runs -/

/-- The invariant of the runs of such steps. -/
theorem Reachable.confined (h : Reachable Event.RangeSafe k) :
    ∃ base f fs, Framed k base (f :: fs) ∧ Confined k base ((f :: fs).map Frame.range) := by
  induction h with
  | boot h =>
    obtain ⟨base, p, hboot⟩ := h.booting
    exact ⟨base, _, _, hboot.framed, hboot.confined⟩
  | step h hsafe hs ih =>
    obtain ⟨base, f, fs, hframed, hc⟩ := ih
    obtain ⟨fs', hframed', heffect⟩ := step_effect hframed (hc.kernelSafe hframed hsafe hs) hs
    have hc' := heffect.confined hframed hc hsafe hframed'
    obtain ⟨f', fs', rfl⟩ := List.exists_cons_of_ne_nil heffect.ne_nil
    exact ⟨base, f', fs', hframed', hc'⟩

/-- The call of `os_spawn` with a stack pointer after the memory of the caller. -/
def overflowEvent : Event := .syscall 2 0 4104 4096 28672 []

/-- The small system after this call. -/
def overflowKernel : Kernel :=
  (syscallHandler 2 spawningKernel 0 4104 4096 28672 []).get
    (by decide +kernel)

/-- The shell spawns a child with a stack pointer after its own range. -/
theorem overflowKernel_step : Step spawningKernel overflowEvent overflowKernel :=
  Step.syscall (Option.some_get _).symm

end Toys.Os
