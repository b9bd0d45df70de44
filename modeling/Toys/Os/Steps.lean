import Mathlib
import Toys.FileSystem.Create
import Toys.Os.Effects

namespace Toys.Os

open Toys.Lib Toys.FileSystem

/-!
# Kernel — what a step does

The handler of the system calls saves the context of the caller before the call, and its
result after the call.  With the effect of the call itself this gives the effect of each step
of the system, as long as what is stored for the programs is not stored in the memory of the
kernel (`Event.KernelSafe`).

* `Frame.saved`, `Frame.withResult` — the frame of the caller, before and after the call;
* `StepEffect`, `step_effect` — the effect of a step on the frames;
* `Booted.framed` — the frames of the first state.
-/

variable {n base : Nat} {k k' : Kernel} {f : Frame} {fs fs' : List Frame} {e : Event}

/-! ### The context of the caller -/

/-- The frame when `syscall_handler` has saved the context of the caller. -/
def Frame.saved (f : Frame) (returnAddress stackPointer : Nat) : Frame :=
  { f with
    process := { f.process with
      savedStackPointer := stackPointer
      savedReturnAddress := returnAddress } }

/-- Saving the context of the caller keeps the frames. -/
theorem Framed.saveContext {returnAddress stackPointer : Nat} (h : Framed k base (f :: fs))
    (hr : returnAddress < 2 ^ 64) (hs : stackPointer < 2 ^ 64) :
    Framed (saveContext k returnAddress stackPointer) base
      (f.saved returnAddress stackPointer :: fs) := by
  have hcurrent : k.currentProcess = f.address := h.current
  refine ⟨h.frames.setProcess rfl rfl ?_ fun i h1 h2 h3 => ?_, h.current, h.base_pos, h.heap_le,
    List.forall_mem_cons.mpr (List.forall_mem_cons.mp h.begin_ge), h.limit_lt⟩
  · show readProcess (setSavedReturnAddress (setSavedStackPointer k.memory k.currentProcess
      stackPointer) k.currentProcess returnAddress) f.address = _
    rw [hcurrent, readProcess_setSavedReturnAddress, readProcess_setSavedStackPointer,
      h.frames.2.1.process, Nat.mod_eq_of_lt hr, Nat.mod_eq_of_lt hs]
  · show setSavedReturnAddress (setSavedStackPointer k.memory k.currentProcess stackPointer)
      k.currentProcess returnAddress i = _
    rw [hcurrent, setSavedReturnAddress, setSavedStackPointer,
      ByteMem.store_of_not_mem (by omega), ByteMem.store_of_not_mem (by omega)]

/-- Saving the context only changes the record of the caller. -/
theorem saveContext_memory {returnAddress stackPointer j : Nat}
    (h : j < k.currentProcess ∨ k.currentProcess + 80 ≤ j) :
    (saveContext k returnAddress stackPointer).memory j = k.memory j := by
  show setSavedReturnAddress (setSavedStackPointer k.memory k.currentProcess stackPointer)
    k.currentProcess returnAddress j = _
  rw [setSavedReturnAddress, setSavedStackPointer, ByteMem.store_of_not_mem (by omega),
    ByteMem.store_of_not_mem (by omega)]

/-- The frame when the result of a call is stored in the record at `address`. -/
def Frame.withResult (address result : Nat) (f : Frame) : Frame :=
  if f.address = address then
    { f with process := { f.process with savedR8 := result % 2 ^ 64 } }
  else f

@[simp] theorem Frame.withResult_address {address result : Nat} :
    (f.withResult address result).address = f.address := by
  unfold withResult; split <;> rfl

@[simp] theorem Frame.withResult_streams {address result : Nat} :
    (f.withResult address result).streams = f.streams := by
  unfold withResult; split <;> rfl

@[simp] theorem Frame.withResult_begin {address result : Nat} :
    (f.withResult address result).process.begin = f.process.begin := by
  unfold withResult; split <;> rfl

@[simp] theorem Frame.withResult_end {address result : Nat} :
    (f.withResult address result).process.end_ = f.process.end_ := by
  unfold withResult; split <;> rfl

/-- The result of a call does not change the other frames. -/
theorem Frame.withResult_of_ne {address result : Nat} (h : f.address ≠ address) :
    f.withResult address result = f := if_neg h

@[simp] theorem topAddress_map_withResult {address result : Nat} :
    topAddress (fs.map (Frame.withResult address result)) = topAddress fs := by
  cases fs <;> simp [topAddress]

/-- The record that receives the result is one of the frames, or was just freed. -/
theorem FramesAt.setResult {m : ByteMem} {heap address result : Nat} (h : FramesAt m base heap fs)
    (hmem : heap ≤ address ∨ ∃ g ∈ fs, g.address = address) :
    FramesAt (setSavedR8 m address result) base heap
      (fs.map (Frame.withResult address result)) := by
  induction fs generalizing heap with
  | nil => exact h
  | cons f fs ih =>
    obtain ⟨rfl, hstored, hrest⟩ := h
    have hlt := f.address_lt
    by_cases heq : f.address = address
    · subst heq
      -- the other processes are before this one in memory
      have hsame : fs.map (Frame.withResult f.address result) = fs := by
        refine List.map_congr_left (g := id) (fun g hg => ?_) |>.trans (List.map_id fs)
        have := hrest.endAddress_le g hg
        have := g.address_lt
        exact Frame.withResult_of_ne (by omega)
      rw [List.map_cons, hsame, Frame.withResult, if_pos rfl]
      refine FramesAt.setProcess ⟨rfl, hstored, hrest⟩ rfl rfl ?_
        fun i h1 h2 h3 => ByteMem.store_of_not_mem (by omega)
      rw [readProcess_setSavedR8, hstored.process]
    · have hmem' : f.endAddress ≤ address ∨ address + 80 ≤ f.address := by
        rcases hmem with hmem | ⟨g, hg, rfl⟩
        · exact Or.inl hmem
        · rcases List.mem_cons.mp hg with rfl | hg
          · exact absurd rfl heq
          · have := hrest.endAddress_le g hg
            have := g.address_lt
            exact Or.inr (by omega)
      have hrest' : FramesAt (setSavedR8 m address result) base f.address
          (fs.map (Frame.withResult address result)) := by
        refine ih hrest ?_
        rcases hmem with hmem | ⟨g, hg, hga⟩
        · exact Or.inl (by omega)
        · rcases List.mem_cons.mp hg with rfl | hg
          · exact absurd hga heq
          · exact Or.inr ⟨g, hg, hga⟩
      rw [List.map_cons, Frame.withResult_of_ne heq]
      refine ⟨rfl, ?_, hrest'⟩
      rw [topAddress_map_withResult]
      exact hstored.congr fun i h1 h2 => ByteMem.store_of_not_mem (by omega)

/-- The result of a call keeps the frames. -/
theorem Framed.setResult {address result : Nat} (h : Framed k base fs)
    (hmem : k.heap ≤ address ∨ ∃ g ∈ fs, g.address = address) :
    Framed { k with memory := setSavedR8 k.memory address result } base
      (fs.map (Frame.withResult address result)) := by
  refine ⟨h.frames.setResult hmem, h.current.trans topAddress_map_withResult.symm, h.base_pos,
    h.heap_le, fun g hg => ?_, h.limit_lt⟩
  obtain ⟨g', hg', rfl⟩ := List.mem_map.mp hg
  rw [Frame.withResult_begin]
  exact h.begin_ge g' hg'

/-- A new stream keeps the address of the process. -/
theorem Frame.Extends.address_eq {f' : Frame} (h : f.Extends f') : f'.address = f.address := by
  rcases h with rfl | ⟨s, -, rfl⟩ <;> rfl

/-- The caller of a system call is still there after it, unless it exits. -/
theorem Effect.caller_mem {id r : Nat} {a : CallArguments} (hk : Framed k base (f :: fs))
    (h : Effect n base k f fs id a k' r fs') :
    k'.heap ≤ f.address ∨ ∃ g ∈ fs', g.address = f.address := by
  cases h with
  | exit hid hfs hr =>
    subst hfs
    rw [osExit_eq hk hr]
    exact Or.inl le_rfl
  | opened _ hf => exact Or.inr ⟨_, List.mem_cons_self, hf.address_eq⟩
  | openFailed _ hf => exact Or.inr ⟨_, List.mem_cons_self, hf.address_eq⟩
  | spawn => exact Or.inr ⟨f, by simp, rfl⟩
  | delete _ _ _ _ hskips =>
    cases hskips with
    | cons hf _ => exact Or.inr ⟨_, List.mem_cons_self, hf.address⟩
  | stream => exact Or.inr ⟨_, List.mem_cons_self, rfl⟩
  | quiet => exact Or.inr ⟨f, List.mem_cons_self, rfl⟩
  | key => exact Or.inr ⟨f, List.mem_cons_self, rfl⟩
  | output => exact Or.inr ⟨f, List.mem_cons_self, rfl⟩

/-! ### Steps -/

/-- What programs store, and what the kernel stores for them in the memory of another
    program, does not change the memory of the kernel. -/
def Event.KernelSafe (k : Kernel) : Event → Prop
  | user memory => ∀ j < k.heapLimit, memory j = k.memory j
  | syscall _ id args returnAddress stackPointer _ =>
    let k := saveContext k returnAddress.toNat stackPointer.toNat
    let a := readArguments k.memory args.toNat
    id.toNat = 6 → a.arg0 = STANDARD_OUTPUT →
      processContainsBuffer (k.process k.currentProcess) a.arg1 a.arg2 →
      ∀ j < k.heapLimit, (osWriteOutput k a.arg0 a.arg1 a.arg2).1.memory j = k.memory j
  | fault => True

/-- The effect of a step: the state and the frames after it. -/
inductive StepEffect (base : Nat) (k : Kernel) (f : Frame) (fs : List Frame) :
    Event → Kernel → List Frame → Prop
  | user {memory : ByteMem} (h : ∀ j, memory j ≠ k.memory j → k.userPages (j / 4096) = true) :
      StepEffect base k f fs (.user memory) { k with memory := memory } (f :: fs)
  | call {n : Nat} {id args returnAddress stackPointer : UInt64} {keys : List (Option UInt32)}
      {k₁ : Kernel} {r : Nat} {fs₁ : List Frame} {a : CallArguments}
      (ha : a = readArguments (saveContext k returnAddress.toNat stackPointer.toNat).memory args.toNat)
      (hcall : dispatch n (saveContext k returnAddress.toNat stackPointer.toNat) f.address id.toNat
        args.toNat keys = some (k₁, r))
      (hframed : Framed k₁ base fs₁)
      (h : Effect n base (saveContext k returnAddress.toNat stackPointer.toNat)
        (f.saved returnAddress.toNat stackPointer.toNat) fs id.toNat a k₁ r fs₁) :
      StepEffect base k f fs (.syscall n id args returnAddress stackPointer keys)
        { k₁ with memory := setSavedR8 k₁.memory f.address r }
        (fs₁.map (Frame.withResult f.address r))
  | shellFault (h : fs = []) : StepEffect base k f fs .fault k [f]
  | fault {g : Frame} {gs : List Frame} (h : fs = g :: gs) :
      StepEffect base k f fs .fault (osExit k Status.internalError.code).1
        ({ g with process := { g.process with savedR8 := Status.internalError.code } } :: gs)

/-- The effect of a system call. -/
theorem syscallHandler_effect {id args returnAddress stackPointer : UInt64}
    {keys : List (Option UInt32)} (h : Framed k base (f :: fs))
    (hsafe : Event.KernelSafe k (.syscall n id args returnAddress stackPointer keys))
    (hrun : syscallHandler n k id.toNat args.toNat returnAddress.toNat stackPointer.toNat keys =
      some k') :
    ∃ fs', Framed k' base fs' ∧
      StepEffect base k f fs (.syscall n id args returnAddress stackPointer keys) k' fs' := by
  have hcurrent : k.currentProcess = f.address := h.current
  have hsaved := h.saveContext (UInt64.toNat_lt returnAddress) (UInt64.toNat_lt stackPointer)
  have hheap := hsaved.heap_le
  simp only [Event.KernelSafe] at hsafe
  simp only [syscallHandler, hcurrent] at hrun
  obtain ⟨a, ha⟩ : ∃ a, a = readArguments
    (Os.saveContext k returnAddress.toNat stackPointer.toNat).memory args.toNat := ⟨_, rfl⟩
  rw [hsaved.process_eq, ← ha] at hsafe
  cases hcall : dispatch n (Os.saveContext k returnAddress.toNat stackPointer.toNat) f.address id.toNat
      args.toNat keys with
  | none => simp [hcall] at hrun
  | some q =>
    obtain ⟨k₁, r⟩ := q
    simp only [hcall, Option.some.injEq] at hrun
    subst hrun
    obtain ⟨fs₁, hframed, heffect⟩ : ∃ fs₁, Framed k₁ base fs₁ ∧
        Effect n base (Os.saveContext k returnAddress.toNat stackPointer.toNat)
          (f.saved returnAddress.toNat stackPointer.toNat) fs id.toNat a k₁ r fs₁ := by
      have hdispatch := hcall
      unfold dispatch at hdispatch
      split at hdispatch
      · refine call_effect hsaved (ha ▸ readArguments_fits _ _) (fun h1 h2 h3 j _ hj => ?_)
          (ha ▸ hdispatch)
        exact hsafe h1 h2 h3 j (by omega)
      · rw [Option.some.injEq, Prod.mk.injEq] at hdispatch
        exact hsaved.quiet hdispatch.1 fun h0 => absurd (hdispatch.2.trans h0) (by decide)
    have hcaller : k₁.heap ≤ f.address ∨ ∃ g ∈ fs₁, g.address = f.address := by
      have := heffect.caller_mem hsaved
      exact this
    exact ⟨_, hframed.setResult hcaller, StepEffect.call ha hcall hframed heffect⟩

/-- A fault ends the current process, unless it is the shell. -/
theorem hardFaultHandler_effect (h : Framed k base (f :: fs)) :
    ∃ fs', Framed (hardFaultHandler k) base fs' ∧
      StepEffect base k f fs .fault (hardFaultHandler k) fs' := by
  cases fs with
  | nil =>
    have hparent : f.process.parent = 0 := h.frames.2.1.parent
    have hk : hardFaultHandler k = k := by
      simp only [hardFaultHandler, osExit, h.process_eq, hparent, if_true]
    rw [hk]
    exact ⟨[f], h, StepEffect.shellFault rfl⟩
  | cons g gs => exact ⟨_, h.exit (by decide), StepEffect.fault rfl⟩

/-- The effect of a step. -/
theorem step_effect (h : Framed k base (f :: fs)) (hsafe : e.KernelSafe k) (hs : Step k e k') :
    ∃ fs', Framed k' base fs' ∧ StepEffect base k f fs e k' fs' := by
  have hheap := h.heap_le
  cases hs with
  | user hpages =>
    exact ⟨f :: fs, h.congr fun j _ hj => hsafe j (by omega), StepEffect.user hpages⟩
  | syscall hrun => exact syscallHandler_effect h hsafe hrun
  | fault => exact hardFaultHandler_effect h

/-- There is always a current process. -/
theorem StepEffect.ne_nil (h : StepEffect base k f fs e k' fs') : fs' ≠ [] := by
  cases h with
  | call _ _ _ h =>
    cases h with
    | delete _ _ _ _ hskips => cases hskips; simp
    | _ => simp
  | _ => simp

/-! ### The first state -/

/-- The frame of the shell, when it starts. -/
structure Booting (base : Nat) (k : Kernel) (p : Process) : Prop where
  framed : Framed k base [⟨base, p, []⟩]
  aligned : k.heapLimit % 4096 = 0 ∧ k.memLimit % 4096 = 0
  memLimit_lt : k.memLimit < 2 ^ 64
  begin : p.begin = k.heapLimit
  end_ : p.end_ = k.memLimit
  limit_le : k.heapLimit ≤ k.memLimit
  /-- The kernel heap ends in the page after its first KB. -/
  limit_le_base : k.heapLimit ≤ base + 5119
  outputP : p.outputP = k.stackPointer
  outputLimit : p.outputLimit = k.heapLimit
  /-- The output of the shell is empty. -/
  output : k.memory.load 8 k.stackPointer = k.heapLimit
  stack_disjoint : k.stackPointer + 8 ≤ base ∨ k.memLimit + 8 ≤ k.stackPointer
  userPages : ∀ page, k.userPages page = true →
    k.heapLimit ≤ 4096 * page ∧ 4096 * page < k.memLimit

/-- The pages that change, for bounds that are addresses of pages. -/
theorem setPagesUserMode_of_aligned {userPages : Nat → Bool} {beginPage endPage page : Nat}
    {enabled : Bool} (h : beginPage % 4096 = 0) :
    setPagesUserMode userPages beginPage endPage enabled page =
      if beginPage ≤ 4096 * page ∧ 4096 * page < endPage then enabled else userPages page := by
  unfold setPagesUserMode
  refine if_congr ⟨fun hc => ?_, fun hc => ?_⟩ rfl rfl <;> omega

/-- Rounding up, if there is no overflow. -/
theorem pageUp_eq {x : Nat} (h : x + 4095 < 2 ^ 64) : pageUp x = (x + 4095) / 4096 * 4096 := by
  rw [pageUp, pageDown, U64.add_eq h]

/-- The state of the kernel when it has just started. -/
theorem Booted.booting (h : Booted k) : ∃ base p, Booting base k p := by
  obtain ⟨code, heap, numPages, stackPointer, disk, memory, bound, shell, hl, hrun⟩ := h
  obtain ⟨hpos, hle, hlt, -, hstack, hdisjoint⟩ := hl
  have hmod := pageDown_mod code
  have hmem : U64.add (pageDown code) (numPages * 4096) = pageDown code + numPages * 4096 :=
    U64.add_eq hlt
  have hadd : U64.add heap 1024 = heap + 1024 := U64.add_eq (by omega)
  obtain ⟨memLimit, hmemLimit⟩ : ∃ memLimit, memLimit = pageDown code + numPages * 4096 := ⟨_, rfl⟩
  have hmemMod : memLimit % 4096 = 0 := by omega
  rw [← hmemLimit] at hle hlt hmem hdisjoint
  obtain ⟨heapLimit, hheapLimit⟩ : ∃ heapLimit, heapLimit = pageUp (heap + 1024) := ⟨_, rfl⟩
  have hlimit : heapLimit % 4096 = 0 ∧ heap + 1024 ≤ heapLimit ∧ heapLimit ≤ memLimit ∧
      heapLimit ≤ heap + 5119 := by
    rw [hheapLimit, pageUp_eq (by omega)]
    omega
  -- the kernel after the store of the variable of `os_spawn_shell`
  obtain ⟨k₀, hk₀⟩ : ∃ k₀, k₀ = { osInit code heap numPages stackPointer disk memory with
      memory := memory.store 8 stackPointer heapLimit } := ⟨_, rfl⟩
  have hheap₀ : k₀.heap = heap := by rw [hk₀]; rfl
  have hlimit₀ : k₀.heapLimit = heapLimit := by
    rw [hk₀, hheapLimit, ← hadd]; rfl
  have hmemLimit₀ : k₀.memLimit = memLimit := by rw [hk₀, ← hmem]; rfl
  have hcurrent₀ : k₀.currentProcess = 0 := by rw [hk₀]; rfl
  have hstack₀ : k₀.stackPointer = stackPointer := by rw [hk₀]; rfl
  have hoSpawn : osSpawn bound k₀ heapLimit shell 5 0 0 stackPointer = some (k, OK) := by
    rw [← hrun, osSpawnShell, ← hlimit₀, ← hstack₀, hk₀]
    rw [hheapLimit, ← hadd]
    rfl
  have hroom : ¬ SIZEOF_PROCESS > U64.sub k₀.heapLimit k₀.heap := by
    rw [hheap₀, hlimit₀, sizeof_process, U64.sub_eq (by omega) (by omega)]
    omega
  have hupper : pageUp heapLimit = heapLimit := by
    rw [pageUp_eq (by omega)]
    omega
  have hframed₀ : Framed k₀ heap [] :=
    ⟨hheap₀, hcurrent₀, hpos, by omega, by simp, by omega⟩
  unfold osSpawn at hoSpawn
  rw [if_neg hroom] at hoSpawn
  simp only [hcurrent₀, ne_eq, not_true_eq_false, false_and, if_false, hupper] at hoSpawn
  rcases osSpawnFile_spec hframed₀ (by omega) (by omega) (by omega) (by omega) (by omega) (by omega)
      hstack hoSpawn with ⟨disk', -, -, hr⟩ | ⟨disk', m', p, rfl, -, -, hp, hat, hframe⟩
  · exact absurd rfl hr
  · rw [hheap₀] at hat
    have hpages : ∀ page, (osSetCurrentProcess { k₀ with
        heap := k₀.heap + 80, disk := disk', memory := m' } k₀.heap).userPages page = true →
        heapLimit ≤ 4096 * page ∧ 4096 * page < memLimit := by
      intro page
      have hprocess : readProcess m' k₀.heap = p := by
        rw [hheap₀]
        exact hat.2.1.process
      have huser : k₀.userPages = fun _ => false := by rw [hk₀]; rfl
      simp only [osSetCurrentProcess, Kernel.process, hprocess, hp.parent, topAddress, ne_eq,
        not_true_eq_false, if_false, hp.begin, hp.end_, hmemLimit₀, huser]
      rw [setPagesUserMode_of_aligned hlimit.1]
      split
      · intro _; assumption
      · simp
    have hword : m'.load 8 stackPointer = heapLimit := by
      rw [ByteMem.load_congr fun j h1 h2 => hframe j (by omega) (by omega), hk₀,
        ByteMem.load_store_self]
      exact Nat.mod_eq_of_lt (by omega)
    refine ⟨heap, p, ?_⟩
    exact {
      framed :=
        { frames := by
            show FramesAt m' heap (k₀.heap + 80) _
            rw [hheap₀]
            exact hat
          current := by rw [osSetCurrentProcess_currentProcess, hheap₀]; rfl
          base_pos := hpos
          heap_le := by show k₀.heap + 80 ≤ k₀.heapLimit; omega
          begin_ge := by simp [hp.begin, hlimit₀]
          limit_lt := by show k₀.heapLimit + 4096 ≤ 2 ^ 64; omega }
      aligned := by
        show k₀.heapLimit % 4096 = 0 ∧ k₀.memLimit % 4096 = 0
        rw [hlimit₀, hmemLimit₀]
        exact ⟨hlimit.1, hmemMod⟩
      memLimit_lt := by show k₀.memLimit < 2 ^ 64; omega
      begin := hp.begin.trans hlimit₀.symm
      end_ := hp.end_
      limit_le := by show k₀.heapLimit ≤ k₀.memLimit; omega
      limit_le_base := by show k₀.heapLimit ≤ heap + 5119; omega
      outputP := hp.outputP.trans hstack₀.symm
      outputLimit := hp.outputLimit.trans hlimit₀.symm
      output := by
        show m'.load 8 k₀.stackPointer = k₀.heapLimit
        rw [hstack₀, hlimit₀, hword]
      stack_disjoint := by
        show k₀.stackPointer + 8 ≤ heap ∨ k₀.memLimit + 8 ≤ k₀.stackPointer
        rw [hstack₀, hmemLimit₀]
        exact hdisjoint
      userPages := by
        show ∀ page, _ → k₀.heapLimit ≤ 4096 * page ∧ 4096 * page < k₀.memLimit
        rw [hlimit₀, hmemLimit₀]
        exact hpages }

/-- `os_spawn` only reads the disk. -/
theorem osSpawnFile_afterReads {begin end_ dst address nameLength args argsLength outputP : Nat}
    {q : Kernel × Nat}
    (hrun : osSpawnFile n k begin end_ dst address nameLength args argsLength outputP = some q) :
    AfterReads k.disk.io q.1.disk.io := by
  unfold osSpawnFile at hrun
  cases hfind : diskFindFile n k.disk (k.memory.slice address nameLength) 0 with
  | none => simp [hfind] at hrun
  | some q₁ =>
    obtain ⟨disk₁, file, previous⟩ := q₁
    have hreads := diskFindFile_afterReads hfind
    simp only [hfind] at hrun
    split at hrun
    · rw [← Option.some.inj hrun]
      exact hreads
    cases hsize : diskGetFileSize n disk₁ file with
    | none => simp [hsize] at hrun
    | some q₂ =>
      replace hreads := hreads.trans (diskGetFileSize_afterReads hsize)
      simp only [hsize] at hrun
      split at hrun
      · rw [← Option.some.inj hrun]
        exact hreads
      split at hrun
      · rw [← Option.some.inj hrun]
        exact hreads
      cases hread : diskReadFile n q₂.1 file (U64.add 24 nameLength) q₂.2 with
      | none => simp [hread] at hrun
      | some q₃ =>
        simp only [hread] at hrun
        rw [← Option.some.inj hrun]
        exact hreads.trans (diskReadFile_afterReads hread)

/-- `os_spawn` only reads the disk. -/
theorem osSpawn_afterReads {dst address nameLength args argsLength outputP : Nat} {q : Kernel × Nat}
    (hrun : osSpawn n k dst address nameLength args argsLength outputP = some q) :
    AfterReads k.disk.io q.1.disk.io := by
  unfold osSpawn at hrun
  by_cases hroom : SIZEOF_PROCESS > U64.sub k.heapLimit k.heap
  · rw [if_pos hroom] at hrun
    rw [← Option.some.inj hrun]
    exact AfterReads.refl _
  rw [if_neg hroom] at hrun
  simp only at hrun
  generalize (if k.currentProcess ≠ 0 then pageDown (k.process k.currentProcess).savedStackPointer
    else k.memLimit) = end_ at hrun
  split at hrun
  · rw [← Option.some.inj hrun]
    exact AfterReads.refl _
  · exact osSpawnFile_afterReads hrun

/-- The shell starts with the disk as it was. -/
theorem osSpawnShell_io {shell : Nat} (hio : k.disk.io.readErrors = [])
    (hrun : osSpawnShell n k shell = some (k', OK)) : k'.disk.io = k.disk.io :=
  (osSpawn_afterReads hrun).eq hio

/-! ### A small system -/

/-- A disk with one empty file, called "shell". -/
def shellDisk : Disk where
  io :=
    { numBlocks := 2
      blocks := fun b =>
        if b = 0 then (DiskBlock.setNextBlock ⟨fun _ => 0⟩ 512).setNextFile 1
        else newFileBlock ⟨fun _ => 0⟩ [115, 104, 101, 108, 108] 0
      readErrors := []
      size_le := two_blocks_le }
  blockBuffer := ⟨fun _ => 0⟩

/-- The disk is well-formed: the shell is its only file. -/
theorem shellDisk_describes :
    Describes shellDisk.io ⟨[], [⟨[115, 104, 101, 108, 108], 1, []⟩]⟩ where
  super_lt := by decide
  free_path := by decide +kernel
  free_end := by decide +kernel
  files_path := by decide +kernel
  files_ok := by
    intro f hf
    obtain rfl : f = ⟨[115, 104, 101, 108, 108], 1, []⟩ := by simpa using hf
    exact {
      chain := by decide +kernel
      name_eq := by decide +kernel
      name_pos := by decide
      name_le := by simp
      name_chars := by simp
      size_ge := by decide +kernel
      size_le := by decide +kernel }
  sorted := by simp
  partition := List.Perm.refl _

/-- The state after a boot that succeeds. -/
theorem boot_get {boot : Option (Kernel × Nat)} (h : boot.isSome ∧ boot.map Prod.snd = some OK) :
    boot = some ((boot.get h.1).1, OK) := by
  obtain ⟨hsome, hok⟩ := h
  obtain ⟨⟨k, r⟩, rfl, rfl⟩ := Option.map_eq_some_iff.mp hok
  rfl

/-- A memory with the name of the shell. -/
def shellMemory : ByteMem := ByteMem.copyIn (fun _ => 0) 1000 [115, 104, 101, 108, 108]

/-- The result of `os_spawn_shell` in a memory of 5 pages, the first of which is the one of the
    kernel. -/
def shellBoot : Option (Kernel × Nat) :=
  osSpawnShell 2 (osInit 0 16 5 24576 shellDisk shellMemory) 1000

theorem shellBoot_eq : shellBoot.isSome ∧ shellBoot.map Prod.snd = some OK := by decide +kernel

/-- The system when its shell starts. -/
def shellKernel : Kernel := (shellBoot.get shellBoot_eq.1).1

/-- `shellKernel` is the kernel that starts. -/
theorem shellKernel_boot :
    osSpawnShell 2 (osInit 0 16 5 24576 shellDisk shellMemory) 1000 = some (shellKernel, OK) :=
  boot_get shellBoot_eq

theorem shellKernel_booted : Booted shellKernel :=
  ⟨0, 16, 5, 24576, shellDisk, shellMemory, 2, 1000, by constructor <;> decide, shellKernel_boot⟩

/-- The bytes of a word. -/
def wordBytes (w : Nat) : List UInt8 := (List.range 8).map fun i => UInt8.ofNat (w / 256 ^ i)

/-- What a program stores at the start of the second page before it calls `os_spawn`: a word,
    the arguments of the call, and the name of the file. -/
def spawnBytes (dst outputP : Nat) : List UInt8 :=
  [4096, dst, 4152, 5, 4096, 0, outputP].flatMap wordBytes ++ [115, 104, 101, 108, 108]

/-- A program stores some bytes. -/
def Kernel.storeBytes (k : Kernel) (a : Nat) (bs : List UInt8) : Kernel :=
  { k with memory := k.memory.copyIn a bs }

@[simp] theorem Kernel.storeBytes_disk {a : Nat} {bs : List UInt8} :
    (k.storeBytes a bs).disk = k.disk := rfl

/-- A program stores bytes in its pages. -/
theorem Step.storeBytes {k : Kernel} {a : Nat} {bs : List UInt8}
    (h : ∀ page, a / 4096 ≤ page → page ≤ (a + bs.length) / 4096 → k.userPages page = true) :
    Step k (.user (k.memory.copyIn a bs)) (k.storeBytes a bs) := by
  refine Step.user fun j hj => ?_
  by_cases hmem : j < a ∨ a + bs.length ≤ j
  · exact absurd (ByteMem.copyIn_of_not_mem hmem) hj
  · exact h _ (by omega) (by omega)

end Toys.Os
