import Mathlib
import Toys.Os.FailedCalls

namespace Toys.Os

open Toys.Lib Toys.FileSystem

/-!
# Kernel — the standard output of a child

The output of a child goes to a window of the memory of its parent, from the address that the word at
`output_p` contains to `output_limit`.  The kernel checks this word when the child is spawned, and
not any more: the output stays in the window as long as the word is apart from the window and from
the memory of the child.

* `Event.OutputApart` — the condition on the calls of `os_spawn`;
* `OutputRun` — the runs, with the word of each child when it was spawned;
* `Range.Output`, `Outputs` — the invariant: the words of the children are in their windows;
* `outputConfined_of_outputApart` — the output is stored in the window in the runs of such calls;
* `not_outputConfined` — and not in all runs.
-/

variable {n base r w : Nat} {k k' k₁ : Kernel} {f : Frame} {fs fs' : List Frame} {ws : List Nat}
  {rs : List Range} {e : Event} {a : CallArguments} {m m' : ByteMem}

/-! ### Runs -/

/-- When `os_spawn` accepts its arguments, the memory of the child ends in the one of its parent, and
    the word at `output_p` is apart from the window of the output and from the memory of the child.
    The key that `os_read` stores can end 7 bytes after this memory. -/
def Event.OutputApart (k : Kernel) : Event → Prop
  | syscall _ id args returnAddress stackPointer _ =>
    let k := saveContext k returnAddress.toNat stackPointer.toNat
    let p := k.process k.currentProcess
    let a := readArguments k.memory args.toNat
    id.toNat = 0 → spawnArgumentsOk k.memory p (pageUp a.arg0) (pageDown p.savedStackPointer) a.arg0
      a.arg1 a.arg2 a.arg3 a.arg4 a.arg5 → pageDown p.savedStackPointer ≤ p.end_ ∧
      (k.memory.load 8 a.arg5 < a.arg0 → a.arg5 + 8 ≤ k.memory.load 8 a.arg5 ∨ a.arg0 ≤ a.arg5) ∧
      (a.arg5 + 8 ≤ pageUp a.arg0 ∨ pageDown p.savedStackPointer + 7 ≤ a.arg5)
  | _ => True

/-- The runs whose steps all meet the condition `C`, with the word at `output_p` when each process
    above the shell was spawned. -/
inductive OutputRun (C : Kernel → Event → Prop) : List Nat → Kernel → Prop
  | boot {k : Kernel} (h : Booted k) : OutputRun C [] k
  | spawn {n : Nat} {a : CallArguments} {ws : List Nat} {k k' : Kernel} {e : Event}
      (h : OutputRun C ws k) (hc : C k e) (hs : Step k e k') (hspawn : e.Returns k n 0 a OK) :
      OutputRun C ((e.calling k).memory.load 8 a.arg5 :: ws) k'
  | exit {r : Nat} {ws : List Nat} {k k' : Kernel} {e : Event} (h : OutputRun C ws k) (hc : C k e)
      (hs : Step k e k') (hexit : e.Exits k r) : OutputRun C ws.tail k'
  | other {ws : List Nat} {k k' : Kernel} {e : Event} (h : OutputRun C ws k) (hc : C k e)
      (hs : Step k e k') (hspawn : ¬ e.Spawns k) (hexit : ∀ r, ¬ e.Exits k r) : OutputRun C ws k'

/-- Each reachable state is the end of such a run. -/
theorem Reachable.outputRun {C : Kernel → Event → Prop} (h : Reachable C k) :
    ∃ ws, OutputRun C ws k := by
  induction h with
  | boot h => exact ⟨[], OutputRun.boot h⟩
  | @step k k' e _ hc hs ih =>
    obtain ⟨ws, hrun⟩ := ih
    by_cases hspawn : e.Spawns k
    · obtain ⟨n, a, hreturns⟩ := hspawn
      exact ⟨_, OutputRun.spawn hrun hc hs hreturns⟩
    · by_cases hexit : ∃ r, e.Exits k r
      · obtain ⟨r, hexit⟩ := hexit
        exact ⟨_, OutputRun.exit hrun hc hs hexit⟩
      · exact ⟨ws, OutputRun.other hrun hc hs hspawn (not_exists.mp hexit)⟩

/-- A program that runs. -/
theorem OutputRun.user {C : Kernel → Event → Prop} (h : OutputRun C ws k) (hc : C k (.user m))
    (hs : Step k (.user m) k') : OutputRun C ws k' := by
  refine h.other hc hs ?_ ?_
  · rintro ⟨n, a, hreturns⟩
    exact hreturns
  · rintro r (⟨n, a, hreturns, -⟩ | ⟨hfault, -⟩)
    · exact hreturns
    · cases hfault

/-! ### The invariant -/

/-- The word of a child is in its window, which starts at `w`, and apart from the window and from the
    memory that the child can change. -/
structure Range.Output (heapLimit : Nat) (m : ByteMem) (r : Range) (w : Nat) : Prop where
  outputP_ge : heapLimit ≤ r.outputP
  start_ge : heapLimit ≤ w
  start_le : w ≤ m.load 8 r.outputP
  word_le : m.load 8 r.outputP ≤ r.outputLimit
  limit_le : r.outputLimit ≤ r.begin
  apart_window : w < r.outputLimit → r.outputP + 8 ≤ w ∨ r.outputLimit ≤ r.outputP
  apart_memory : r.outputP + 8 ≤ r.begin ∨ r.end_ + 7 ≤ r.outputP

/-- The windows of the children above the shell, each one in the memory of all the ancestors. -/
inductive Outputs (heapLimit : Nat) (m : ByteMem) : List Nat → List Range → Prop
  | shell (r : Range) : Outputs heapLimit m [] [r]
  | child {w : Nat} {ws : List Nat} {r : Range} {rs : List Range} (h : r.Output heapLimit m w)
      (hge : ∀ r' ∈ rs, r'.begin ≤ w) (hrest : Outputs heapLimit m ws rs) :
      Outputs heapLimit m (w :: ws) (r :: rs)

/-- The window depends on the bytes of the word. -/
theorem Range.Output.congr {q : Range} {heapLimit : Nat} (h : q.Output heapLimit m w)
    (hkept : ∀ j, q.outputP ≤ j → j < q.outputP + 8 → m' j = m j) : q.Output heapLimit m' w := by
  have hword : m'.load 8 q.outputP = m.load 8 q.outputP := ByteMem.load_congr hkept
  obtain ⟨h1, h2, h3, h4, h5, h6, h7⟩ := h
  rw [← hword] at h3 h4
  exact ⟨h1, h2, h3, h4, h5, h6, h7⟩

/-- The windows depend on the bytes of the words. -/
theorem Outputs.congr {heapLimit : Nat} (h : Outputs heapLimit m ws rs)
    (hkept : ∀ q ∈ rs, ∀ w, q.Output heapLimit m w →
      ∀ j, q.outputP ≤ j → j < q.outputP + 8 → m' j = m j) : Outputs heapLimit m' ws rs := by
  induction h with
  | shell q => exact Outputs.shell q
  | child h hge _ ih =>
    refine Outputs.child (h.congr (hkept _ List.mem_cons_self _ h)) hge (ih fun q hq => ?_)
    exact hkept q (List.mem_cons_of_mem _ hq)

/-- The windows when the current process ends. -/
theorem Outputs.tail {heapLimit : Nat} {q : Range} (h : Outputs heapLimit m ws (q :: rs))
    (hrs : rs ≠ []) : Outputs heapLimit m ws.tail rs := by
  cases h with
  | shell => exact absurd rfl hrs
  | child _ _ hrest => exact hrest

/-! ### A write -/

/-- What a child stores on its output: some bytes from the word on, and the word itself. -/
structure Printed (k : Kernel) (p : Process) (k' : Kernel) (r : Nat) : Prop where
  memory : ∀ j, (j < k.memory.load 8 p.outputP ∨ k.memory.load 8 p.outputP + r ≤ j) →
    (j < p.outputP ∨ p.outputP + 8 ≤ j) → k'.memory j = k.memory j
  word : k'.memory.load 8 p.outputP = k.memory.load 8 p.outputP + r
  word_le : k'.memory.load 8 p.outputP ≤ p.outputLimit

/-- The output of a child whose window is apart from its record and from its word. -/
theorem Framed.osWriteOutput_printed {buffer size : Nat} (hk : Framed k base (f :: fs))
    (h : f.range.Output k.heapLimit k.memory w) :
    Printed k f.process (osWriteOutput k STANDARD_OUTPUT buffer size).1
      (osWriteOutput k STANDARD_OUTPUT buffer size).2 := by
  obtain ⟨hge, hstart, hword, hle, -, hwindow, -⟩ := h
  simp only [Frame.range] at hge hstart hword hle hwindow
  have hprocess : k.process k.currentProcess = f.process := hk.process_eq
  have hlimit : f.process.outputLimit < 2 ^ 64 := hk.fits.outputLimit
  have hcurrent : k.currentProcess = f.address := hk.current
  have hrecord := (hk.address_bounds (f := f) List.mem_cons_self).2
  generalize hload : k.memory.load 8 f.process.outputP = word at hword hle
  -- the size of what is stored is at most the room in the window
  obtain ⟨count, hcount⟩ : ∃ count, count = outputSize k.memory f.process size := ⟨_, rfl⟩
  have hroom : word + count ≤ f.process.outputLimit := by
    rw [hcount, outputSize, hload, U64.sub_eq hle hlimit]
    omega
  have hresult : (osWriteOutput k STANDARD_OUTPUT buffer size).2 = count := by
    rw [hcount, outputSize, ← hprocess]
    simp only [osWriteOutput, if_true]
  obtain ⟨copied, hcopied⟩ : ∃ copied, copied = memCopyNonOverlapping k.memory buffer word count :=
    ⟨_, rfl⟩
  have hcopy : ∀ j, (j < word ∨ word + count ≤ j) → copied j = k.memory j := by
    intro j hj
    rw [hcopied]
    apply memCopyNonOverlapping_of_not_mem
    · omega
    · exact hj
  have hkept : readProcess copied k.currentProcess = f.process := by
    rw [← hprocess]
    apply readProcess_congr
    intro i _ hi
    exact hcopy i (by omega)
  have hcell : copied.load 8 f.process.outputP = word := by
    rw [← hload]
    apply ByteMem.load_congr
    intro j hj hlt
    apply hcopy
    by_cases hzero : count = 0
    · omega
    · have hapart := hwindow (by omega)
      omega
  have hmemory : (osWriteOutput k STANDARD_OUTPUT buffer size).1.memory =
      copied.store 8 f.process.outputP (word + count) := by
    rw [osWriteOutput_memory hprocess, hload, ← hcount, ← hcopied, hcell, U64.add_eq (by omega)]
    rw [hload, ← hcount, ← hcopied, hkept]
  have hafter : (osWriteOutput k STANDARD_OUTPUT buffer size).1.memory.load 8 f.process.outputP =
      word + count := by
    rw [hmemory, load_store_eq, Nat.mod_eq_of_lt (by omega)]
  rw [hresult]
  refine ⟨?_, ?_, ?_⟩
  · intro j hj hout
    rw [hload] at hj
    rw [hmemory, ByteMem.store_of_not_mem hout, hcopy j hj]
  · rw [hafter, hload]
  · rw [hafter]
    exact hroom

/-! ### Steps -/

/-- Saving the context of the caller keeps the windows. -/
theorem Outputs.calling (hk : Framed k base (f :: fs)) (h : Outputs k.heapLimit k.memory ws rs) :
    Outputs k.heapLimit (e.calling k).memory ws rs :=
  h.congr fun _ _ _ hq _ hj _ => Event.calling_memory hk (Or.inr (hq.outputP_ge.trans hj))

/-- The output of the current process is stored in the memory for programs. -/
theorem Outputs.window (hk : Framed k base (f :: fs)) (hc : Confined k base ((f :: fs).map Frame.range))
    (ho : Outputs k.heapLimit k.memory ws ((f :: fs).map Frame.range)) (size i : Nat)
    (hi : i < outputSize (e.calling k).memory (e.caller f).process size) :
    k.heapLimit ≤ U64.add ((e.calling k).memory.load 8 (e.caller f).process.outputP) i ∧
      U64.add ((e.calling k).memory.load 8 (e.caller f).process.outputP) i < k.memLimit := by
  cases fs with
  | nil =>
    -- the output of the shell is empty
    rw [outputSize_of_empty (hc.shell_empty hk)] at hi
    exact absurd hi (Nat.not_lt_zero i)
  | cons g gs =>
    have hok := hc.ok f.range (by simp)
    have hlimit := (Event.calling_framed (e := e) hk).fits.outputLimit
    rw [← Event.range_caller (e := e)] at hok
    cases ho with
    | child hout _ _ =>
      have hcalled : f.range.Output k.heapLimit (e.calling k).memory _ := hout.congr fun j hj _ =>
        Event.calling_memory (e := e) hk (Or.inr (hout.outputP_ge.trans hj))
      rw [← Event.range_caller (e := e)] at hcalled
      obtain ⟨-, hstart, hword, hle, hbegin, -, -⟩ := hcalled
      have hend := hok.begin_le
      have hmax := hok.end_le
      simp only [Frame.range] at hword hle hbegin hend hmax
      rw [outputSize, U64.sub_eq hle hlimit] at hi
      rw [U64.add_eq (by omega)]
      omega

/-- Such steps keep the ranges nested. -/
theorem Event.OutputApart.rangeSafe (hk : Framed k base (f :: fs))
    (hc : Confined k base ((f :: fs).map Frame.range))
    (ho : Outputs k.heapLimit k.memory ws ((f :: fs).map Frame.range)) (h : e.OutputApart k) :
    e.RangeSafe k := by
  cases e with
  | user => trivial
  | fault => trivial
  | syscall n id args returnAddress stackPointer keys =>
    have hwindow := fun size i => ho.window (e := .syscall n id args returnAddress stackPointer keys)
      hk hc size i
    rw [← (Event.calling_framed hk).process_eq] at hwindow
    exact ⟨fun h0 hok => (h h0 hok).1, fun _ _ _ i hi => hwindow _ i hi⟩

/-- The ancestors have all the memory of the current process. -/
theorem Confined.inside_tail (hc : Confined k base ((f :: fs).map Frame.range)) {q : Range}
    (hq : q ∈ fs.map Frame.range) : f.range.Inside q :=
  List.rel_of_pairwise_cons hc.inside hq

/-- The output of the current process advances its word, and the words of its ancestors are out of
    its window. -/
theorem Outputs.printed (hk : Framed k base (f :: fs))
    (hc : Confined k base ((f :: fs).map Frame.range))
    (ho : Outputs k.heapLimit k.memory ws ((f :: fs).map Frame.range))
    (hmem : ∀ j, (j < base ∨ k.heapLimit ≤ j) →
      m j = (osWriteOutput (e.calling k) STANDARD_OUTPUT a.arg1 a.arg2).1.memory j) :
    Outputs k.heapLimit m ws ((f :: fs).map Frame.range) := by
  have hcaller := Event.calling_framed (e := e) hk
  have hbegin := (hc.ok f.range (by simp)).begin_le
  have hinside := fun q hq => hc.inside_tail (q := q) hq
  have hsame : ∀ j, k.heapLimit ≤ j → (e.calling k).memory j = k.memory j := fun j hj =>
    Event.calling_memory hk (Or.inr hj)
  rw [List.map_cons] at ho ⊢
  generalize fs.map Frame.range = rs at ho hinside ⊢
  cases ho with
  | shell => exact Outputs.shell _
  | @child w ws _ _ hout hge hrest =>
    have hcalled : (e.caller f).range.Output (e.calling k).heapLimit (e.calling k).memory w := by
      rw [Event.range_caller, Event.calling_heapLimit]
      exact hout.congr fun j hj _ => hsame j (hout.outputP_ge.trans hj)
    have hprinted : Printed (e.calling k) (e.caller f).process
        (osWriteOutput (e.calling k) STANDARD_OUTPUT a.arg1 a.arg2).1
        (osWriteOutput (e.calling k) STANDARD_OUTPUT a.arg1 a.arg2).2 :=
      hcaller.osWriteOutput_printed hcalled
    generalize osWriteOutput (e.calling k) STANDARD_OUTPUT a.arg1 a.arg2 = q at hmem hprinted
    have hrange := Event.range_caller (e := e) (f := f)
    simp only [Frame.range, Range.mk.injEq] at hrange
    obtain ⟨-, -, houtputP, hlimit⟩ := hrange
    obtain ⟨hmemory, hword, hle⟩ := hprinted
    rw [houtputP] at hmemory hword hle
    rw [hlimit] at hle
    have hbefore : (e.calling k).memory.load 8 f.process.outputP =
        k.memory.load 8 f.process.outputP :=
      ByteMem.load_congr fun j hj _ => hsame j (hout.outputP_ge.trans hj)
    have hafter : m.load 8 f.process.outputP = q.1.memory.load 8 f.process.outputP :=
      ByteMem.load_congr fun j hj _ => hmem j (Or.inr (hout.outputP_ge.trans hj))
    rw [hbefore] at hmemory hword
    obtain ⟨h1, h2, h3, h4, h5, h6, h7⟩ := hout
    simp only [Frame.range] at h1 h3 h4 h5 h6 h7 hbegin
    refine Outputs.child ⟨h1, h2, ?_, ?_, h5, h6, h7⟩ hge
      (hrest.congr fun r' hr' w' hout' j hj hlt => ?_)
    · show w ≤ m.load 8 f.process.outputP
      omega
    · show m.load 8 f.process.outputP ≤ f.process.outputLimit
      omega
    · -- the word of an ancestor is before `w`, or after the memory of this ancestor
      have hq := hinside r' hr'
      have hge' := hge r' hr'
      have h8 := hout'.outputP_ge
      have h9 := hout'.apart_memory
      have h10 := hq.end_
      have h11 := hq.outputP_ge
      have h12 := hq.outputP_le
      simp only [Frame.range] at h10 h11 h12
      rw [hmem j (Or.inr (by omega)), hmemory j (by omega) (by omega)]
      exact hsame j (by omega)

/-- The words are out of the memory of the current process, and a key that it reads ends at most
    7 bytes after this memory. -/
theorem Outputs.kept (hk : Framed k base (f :: fs))
    (hc : Confined k base ((f :: fs).map Frame.range))
    (ho : Outputs k.heapLimit k.memory ws ((f :: fs).map Frame.range))
    (hmem : ∀ j, (j < base ∨ k.heapLimit ≤ j) → (j < f.process.begin ∨ f.process.end_ ≤ j) →
      m j = k.memory j ∨ ∃ a, e.ReadsKeyboard k a ∧ a.arg1 ≤ j ∧ j < a.arg1 + 8) :
    Outputs k.heapLimit m ws ((f :: fs).map Frame.range) := by
  have hcaller := Event.calling_framed (e := e) hk
  have hbegin := (hc.ok f.range (by simp)).begin_le
  refine ho.congr fun q hq w' hout j hj hlt => ?_
  have hsub : q.begin ≤ f.process.begin ∧ f.process.end_ ≤ q.end_ := by
    rw [List.map_cons] at hq
    rcases List.mem_cons.mp hq with rfl | hq
    · exact ⟨le_rfl, le_rfl⟩
    · exact ⟨(hc.inside_tail hq).begin, (hc.inside_tail hq).end_⟩
  have hge := hout.outputP_ge
  have hapart := hout.apart_memory
  simp only [Frame.range] at hbegin
  rcases hmem j (Or.inr (by omega)) (by omega) with heq | ⟨a, ⟨-, -, hbuffer⟩, hkey⟩
  · exact heq
  · have hrange := Event.range_caller (e := e) (f := f)
    simp only [Frame.range, Range.mk.injEq] at hrange
    rw [hcaller.process_eq, processContainsBuffer_iff hcaller.fits] at hbuffer
    omega

/-- A step keeps the words of the children in their windows. -/
theorem StepEffect.outputs (hk : Framed k base (f :: fs))
    (hc : Confined k base ((f :: fs).map Frame.range))
    (ho : Outputs k.heapLimit k.memory ws ((f :: fs).map Frame.range)) (hsafe : e.RangeSafe k)
    (h : StepEffect base k f fs e k' fs') :
    Outputs k.heapLimit k'.memory ws ((f :: fs).map Frame.range) := by
  rcases h.memory_or hk hc hsafe with ⟨a, ⟨-, hstream, -⟩, hmem⟩ | hmem
  · rw [hstream] at hmem
    exact ho.printed hk hc hmem
  · exact ho.kept hk hc hmem

/-! ### Processes that start and end -/

/-- The address of the memory of a child is at least `dst`. -/
theorem le_pageUp {x : Nat} (hx : x < 2 ^ 64) (h : 0 < pageUp x) : x ≤ pageUp x := by
  unfold pageUp pageDown U64.add at h ⊢
  omega

/-- A successful `os_spawn`. -/
theorem StepEffect.spawned (hk : Framed k base (f :: fs)) (h : StepEffect base k f fs e k' fs')
    (hr : e.Returns k n 0 a OK) :
    ∃ p, SpawnedProcess (e.calling k) (e.caller f) a p ∧
      fs'.map Frame.range = Frame.range ⟨k.heap, p, []⟩ :: (f :: fs).map Frame.range ∧
      ∀ j, k.heapLimit ≤ j → (j < p.begin ∨ p.end_ ≤ j) → k'.memory j = k.memory j := by
  cases h with
  | user => exact hr.elim
  | shellFault => exact hr.elim
  | fault => exact hr.elim
  | @call m idWord args returnAddress stackPointer keys k₁ r fs₁ a' ha hcall hframed heffect =>
    obtain ⟨rfl, hid, ha', k₂, hcall'⟩ := hr
    obtain rfl := ha.trans ha'.symm
    have hcurrent : k.currentProcess = f.address := hk.current
    rw [hcurrent] at hcall'
    rw [hid] at hcall heffect
    have heq := hcall.symm.trans hcall'
    simp only [Option.some.injEq, Prod.mk.injEq] at heq
    have hok := heq.2
    cases heffect with
    | @spawn disk memory p _ hreads hp hmem =>
      refine ⟨p, hp, ?_, fun j hj hout => ?_⟩
      · rw [map_range_withResult]
        rfl
      · have hresult : setSavedR8 memory f.address OK j = memory j :=
          hk.setSavedR8_of_not_mem List.mem_cons_self (Or.inr hj)
        exact hresult.trans ((hmem j (Or.inr hj) hout).trans (Event.calling_memory
          (e := .syscall m idWord args returnAddress stackPointer keys) hk (Or.inr hj)))
    | quiet hquiet => exact absurd rfl (hquiet hok).1
    | _ => omega

/-- Another event keeps the ranges. -/
theorem StepEffect.map_range (hk : Framed k base (f :: fs)) (h : StepEffect base k f fs e k' fs')
    (hspawn : ¬ e.Spawns k) (hexit : ∀ r, ¬ e.Exits k r) :
    fs'.map Frame.range = (f :: fs).map Frame.range := by
  cases h with
  | user => rfl
  | @call n idWord args returnAddress stackPointer keys k₁ r fs₁ a ha hcall _ heffect =>
    have hcurrent : k.currentProcess = f.address := hk.current
    rw [← hcurrent] at hcall
    rw [map_range_withResult]
    generalize hid : idWord.toNat = id at hcall heffect
    cases heffect with
    | spawn h0 =>
      subst h0
      exact absurd ⟨_, _, rfl, hid, ha, _, hcall⟩ hspawn
    | exit h1 =>
      subst h1
      exact absurd (Or.inl ⟨_, _, ⟨rfl, hid, ha, _, hcall⟩, rfl⟩) (hexit _)
    | opened _ hf =>
      rw [List.map_cons, show (Frame.setStream _ _ _).range = f.range from hf.range_eq]
      rfl
    | openFailed _ hf =>
      rw [List.map_cons, hf.range_eq]
      rfl
    | delete _ _ _ _ hskips =>
      rw [Frame.Skips.map_range hskips]
      rfl
    | _ => rfl
  | shellFault hfs =>
    rw [hfs]
  | fault hfs =>
    subst hfs
    exact absurd (Or.inr ⟨rfl, congrArg Prod.snd (osExit_eq hk (by decide)), rfl⟩) (hexit _)

/-- The window of a new child. -/
theorem SpawnedProcess.output {p : Process} {address : Nat} {q : Frame} (hq : Framed k base (q :: fs))
    (hp : SpawnedProcess k q a p) (ha : a.arg0 < 2 ^ 64)
    (hwindow : k.memory.load 8 a.arg5 < a.arg0 →
      a.arg5 + 8 ≤ k.memory.load 8 a.arg5 ∨ a.arg0 ≤ a.arg5)
    (hapart : a.arg5 + 8 ≤ p.begin ∨ p.end_ + 7 ≤ a.arg5)
    (hmem : ∀ j, k.heapLimit ≤ j → (j < p.begin ∨ p.end_ ≤ j) → m j = k.memory j) :
    (Frame.range ⟨address, p, []⟩).Output k.heapLimit m (k.memory.load 8 a.arg5) := by
  obtain ⟨houtput, hstart, hle⟩ := spawnArgumentsOk_output hp.checked
  obtain ⟨-, hbegin⟩ := spawnArgumentsOk_bounds hp.checked
  rw [processContainsBuffer_iff hq.fits] at houtput
  have hparent := hq.begin_ge q List.mem_cons_self
  have hpos := hq.base_pos
  have hheap := (hq.address_bounds (f := q) List.mem_cons_self).2
  have hword : m.load 8 a.arg5 = k.memory.load 8 a.arg5 :=
    ByteMem.load_congr fun j hj hlt => hmem j (by omega) (by omega)
  have hdst : a.arg0 ≤ p.begin := by
    rw [hp.begin]
    apply le_pageUp ha
    rw [← hp.begin]
    omega
  unfold Frame.range
  rw [hp.outputP, hp.outputLimit]
  refine ⟨?_, ?_, hword.ge, hword.le.trans hle, hdst, hwindow, hapart⟩
  · show k.heapLimit ≤ a.arg5
    omega
  · omega

/-- What the condition says of a successful `os_spawn`. -/
theorem Event.OutputApart.of_spawned {p : Process} (h : e.OutputApart k)
    (hk : Framed k base (f :: fs)) (hr : e.Returns k n 0 a OK)
    (hp : SpawnedProcess (e.calling k) (e.caller f) a p) :
    ((e.calling k).memory.load 8 a.arg5 < a.arg0 →
      a.arg5 + 8 ≤ (e.calling k).memory.load 8 a.arg5 ∨ a.arg0 ≤ a.arg5) ∧
    (a.arg5 + 8 ≤ p.begin ∨ p.end_ + 7 ≤ a.arg5) := by
  have hprocess := (Event.calling_framed (e := e) hk).process_eq
  have hchecked := hp.checked
  rw [hp.begin, hp.end_, ← hprocess] at hchecked
  rw [hp.begin, hp.end_, ← hprocess]
  cases e with
  | user => exact hr.elim
  | fault => exact hr.elim
  | syscall m id args returnAddress stackPointer keys =>
    obtain ⟨-, hid, rfl, -⟩ := hr
    exact (h hid hchecked).2

/-! ### The invariant in a run -/

/-- In the runs of such steps, the ranges are nested and the words are in their windows. -/
theorem OutputRun.outputs (h : OutputRun Event.OutputApart ws k) :
    ∃ base f fs, Framed k base (f :: fs) ∧ Confined k base ((f :: fs).map Frame.range) ∧
      Outputs k.heapLimit k.memory ws ((f :: fs).map Frame.range) := by
  -- what each step keeps, whatever happens to the processes
  have hstep : ∀ {ws : List Nat} {k k' : Kernel} {e : Event} {base : Nat} {f : Frame}
      {fs : List Frame}, e.OutputApart k → Step k e k' → Framed k base (f :: fs) →
      Confined k base ((f :: fs).map Frame.range) →
      Outputs k.heapLimit k.memory ws ((f :: fs).map Frame.range) →
      ∃ f' fs', Framed k' base (f' :: fs') ∧ Confined k' base ((f' :: fs').map Frame.range) ∧
        StepEffect base k f fs e k' (f' :: fs') ∧ k'.heapLimit = k.heapLimit ∧
        Outputs k.heapLimit k'.memory ws ((f :: fs).map Frame.range) := by
    intro ws k k' e base f fs hsafe hs hk hc ho
    have hrange := hsafe.rangeSafe hk hc ho
    obtain ⟨fs', hk', heffect⟩ := step_effect hk (hc.kernelSafe hk hrange hs) hs
    have hc' := heffect.confined hk hc hrange hk'
    obtain ⟨f', fs', rfl⟩ := List.exists_cons_of_ne_nil heffect.ne_nil
    exact ⟨f', fs', hk', hc', heffect, heffect.limits.2.1, heffect.outputs hk hc ho hrange⟩
  induction h with
  | boot h =>
    obtain ⟨base, p, hboot⟩ := h.booting
    exact ⟨base, _, _, hboot.framed, hboot.confined, Outputs.shell _⟩
  | @spawn n a ws k k' e _ hsafe hs hspawn ih =>
    obtain ⟨base, f, fs, hk, hc, ho⟩ := ih
    obtain ⟨f', fs', hk', hc', heffect, hlimit, ho'⟩ := hstep hsafe hs hk hc ho
    obtain ⟨p, hp, hmap, hmem⟩ := heffect.spawned hk hspawn
    refine ⟨base, f', fs', hk', hc', ?_⟩
    rw [hmap, hlimit]
    have hcaller := Event.calling_framed (e := e) hk
    have hsame : ∀ j, (e.calling k).heapLimit ≤ j → (j < p.begin ∨ p.end_ ≤ j) →
        k'.memory j = (e.calling k).memory j := by
      intro j hj hout
      rw [Event.calling_heapLimit] at hj
      rw [hmem j hj hout]
      exact (Event.calling_memory hk (Or.inr hj)).symm
    obtain ⟨hwindow, hapart⟩ := hsafe.of_spawned hk hspawn hp
    have hstart := (spawnArgumentsOk_output hp.checked).2.1
    refine Outputs.child ?_ (fun q hq => ?_) ho'
    · have hout : (Frame.range ⟨k.heap, p, []⟩).Output (e.calling k).heapLimit k'.memory
          ((e.calling k).memory.load 8 a.arg5) :=
        hp.output hcaller hspawn.fits.arg0 hwindow hapart hsame
      rwa [Event.calling_heapLimit] at hout
    · have hbegin : (e.caller f).range.begin ≤ (e.calling k).memory.load 8 a.arg5 := hstart
      rw [Event.range_caller] at hbegin
      rw [List.map_cons] at hq
      rcases List.mem_cons.mp hq with rfl | hq
      · exact hbegin
      · exact (hc.inside_tail hq).begin.trans hbegin
  | exit _ hsafe hs hexit ih =>
    obtain ⟨base, f, fs, hk, hc, ho⟩ := ih
    obtain ⟨f', fs', hk', hc', heffect, hlimit, ho'⟩ := hstep hsafe hs hk hc ho
    obtain ⟨g, gs, rfl, heq⟩ := heffect.of_exits hk hexit
    refine ⟨base, f', fs', hk', hc', ?_⟩
    rw [heq, hlimit]
    exact ho'.tail (by simp)
  | other _ hsafe hs hspawn hexit ih =>
    obtain ⟨base, f, fs, hk, hc, ho⟩ := ih
    obtain ⟨f', fs', hk', hc', heffect, hlimit, ho'⟩ := hstep hsafe hs hk hc ho
    refine ⟨base, f', fs', hk', hc', ?_⟩
    rw [heffect.map_range hk hspawn hexit, hlimit]
    exact ho'

/-! ### The output of a child -/

/-- What `os_write` stores for the standard output of a child: only bytes of the window, which is in
    the memory of the parent, and the word, which advances by the number of bytes. -/
structure OutputConfined (k k' : Kernel) (w r : Nat) : Prop where
  stores : ∀ j, k'.memory j ≠ k.memory j →
    w ≤ j ∧ j < (k.process k.currentProcess).outputLimit ∨
      (k.process k.currentProcess).outputP ≤ j ∧ j < (k.process k.currentProcess).outputP + 8
  word : k'.memory.load 8 (k.process k.currentProcess).outputP =
      k.memory.load 8 (k.process k.currentProcess).outputP + r ∨
    k' = k ∧ r = errorResult .invalidArgument
  word_le : k'.memory.load 8 (k.process k.currentProcess).outputP ≤
    (k.process k.currentProcess).outputLimit
  window : (k.process (k.process k.currentProcess).parent).begin ≤ w ∧
    (k.process k.currentProcess).outputLimit ≤ (k.process (k.process k.currentProcess).parent).end_
  outputP : (k.process (k.process k.currentProcess).parent).begin ≤
      (k.process k.currentProcess).outputP ∧
    (k.process k.currentProcess).outputP + 8 ≤
      (k.process (k.process k.currentProcess).parent).end_

/-- Writing to the standard output is refused, or stores the bytes. -/
theorem osWrite_output {buffer size : Nat}
    (hrun : osWrite n k STANDARD_OUTPUT buffer size = some (k', r)) :
    (k' = k ∧ r = errorResult .invalidArgument) ∨
      (k', r) = osWriteOutput k STANDARD_OUTPUT buffer size := by
  simp only [osWrite] at hrun
  split at hrun
  · rw [Option.some.injEq, Prod.mk.injEq] at hrun
    exact Or.inl ⟨hrun.1.symm, hrun.2.symm⟩
  · rw [if_pos (by decide), Option.some.injEq] at hrun
    exact Or.inr hrun.symm

/-- A call of `os_write` for the standard output. -/
theorem Step.writes_output (hs : Step k e k') (hr : e.Returns k n 6 a r)
    (hstream : a.arg0 = STANDARD_OUTPUT) :
    ∃ k₁, k' = { k₁ with memory := setSavedR8 k₁.memory k.currentProcess r } ∧
      ((k₁ = e.calling k ∧ r = errorResult .invalidArgument) ∨
        (k₁, r) = osWriteOutput (e.calling k) STANDARD_OUTPUT a.arg1 a.arg2) := by
  obtain ⟨k₁, hk', hcall⟩ := hs.of_returns hr
  refine ⟨k₁, hk', ?_⟩
  rcases hcall with hcall | hcall
  · have hrun : osWrite n (e.calling k) a.arg0 a.arg1 a.arg2 = some (k₁, r) := hcall
    rw [hstream] at hrun
    exact osWrite_output hrun
  · exact Or.inl hcall

/-- The window of the current process, and the word of its end, are in the memory of its parent. -/
theorem Range.Output.confined {g : Frame} (hk : Framed k base (f :: g :: fs))
    (hin : f.range.Inside g.range) (hle : f.range.begin ≤ f.range.end_)
    (hout : f.range.Output k.heapLimit k.memory w) (hge : g.range.begin ≤ w)
    (hwrite : (k' = k ∧ r = errorResult .invalidArgument) ∨ Printed k f.process k' r) :
    OutputConfined k k' w r := by
  have hcurrent : k.process k.currentProcess = f.process := hk.process_eq
  have hparent : k.process f.process.parent = g.process := by
    rw [hk.frames.2.1.parent]
    exact hk.process (List.mem_cons_of_mem _ List.mem_cons_self)
  have hbegin := hin.begin
  have hend := hin.end_
  have hgeP := hin.outputP_ge
  have hleP := hin.outputP_le
  have hstart := hout.start_le
  have hword := hout.word_le
  have hlimit := hout.limit_le
  simp only [Frame.range] at hbegin hend hgeP hleP hstart hword hlimit hge hle
  constructor
  all_goals rw [hcurrent]
  · intro j hne
    rcases hwrite with ⟨rfl, -⟩ | hprinted
    · exact absurd rfl hne
    · by_contra hout
      apply hne
      have hword' := hprinted.word_le
      rw [hprinted.word] at hword'
      apply hprinted.memory
      · omega
      · omega
  · rcases hwrite with hsame | hprinted
    · exact Or.inr hsame
    · exact Or.inl hprinted.word
  · rcases hwrite with ⟨rfl, -⟩ | hprinted
    · exact hword
    · exact hprinted.word_le
  · rw [hparent]
    exact ⟨hge, hlimit.trans (hle.trans hend)⟩
  · rw [hparent]
    exact ⟨hgeP, hleP⟩

/-- What the shell stores before it spawns a child: the word that its `output_p` points to, the
    arguments of the call, and the name of the file. -/
def outputBytes : List UInt8 :=
  [4200, 8192, 4152, 5, 4096, 0, 4096].flatMap wordBytes ++ [115, 104, 101, 108, 108]

/-- The small system when its shell is about to spawn a child. -/
def outputKernel : Kernel := shellKernel.storeBytes 4096 outputBytes

/-- The shell writes the arguments of its call. -/
theorem outputKernel_step :
    Step shellKernel (.user (shellKernel.memory.copyIn 4096 outputBytes)) outputKernel :=
  Step.storeBytes fun page h1 h2 => by
    obtain rfl : page = 1 := le_antisymm (le_trans h2 (by decide +kernel)) h1
    decide +kernel

/-- The small system when the child starts. -/
def outputChild : Kernel :=
  (syscallHandler 2 outputKernel 0 4104 4096 20480 []).get
    (by decide +kernel)

/-- The shell spawns the child. -/
theorem outputChild_step : Step outputKernel spawnEvent outputChild :=
  Step.syscall (Option.some_get _).symm

/-- What the child stores: the arguments of its call, and a text. -/
def printBytes : List UInt8 :=
  [STANDARD_OUTPUT, 8216, 5].flatMap wordBytes ++ [104, 101, 108, 108, 111]

/-- The small system when the child is about to write the text. -/
def printingChild : Kernel := outputChild.storeBytes 8192 printBytes

/-- The child writes the arguments of its call. -/
theorem printingChild_step :
    Step outputChild (.user (outputChild.memory.copyIn 8192 printBytes)) printingChild :=
  Step.storeBytes fun page h1 h2 => by
    obtain rfl : page = 2 := le_antisymm (le_trans h2 (by decide +kernel)) h1
    decide +kernel

/-- The call of `os_write`. -/
def printEvent : Event := .syscall 2 6 8192 8192 20480 []

/-- The small system when the text is in the memory of the shell. -/
def printedKernel : Kernel :=
  (syscallHandler 2 printingChild 6 8192 8192 20480 []).get
    (by decide +kernel)

/-- The handler stores the result of a call in the record of the caller. -/
theorem memory_withResult {p j : Nat} (h : k' = { k₁ with memory := setSavedR8 k₁.memory p r })
    (hj : j < p + 24 ∨ p + 32 ≤ j) : k'.memory j = k₁.memory j := by
  rw [h]
  exact ByteMem.store_of_not_mem hj

end Toys.Os
