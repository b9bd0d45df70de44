import Mathlib
import Toys.Os.Nesting
import Toys.Os.ReadCall

namespace Toys.Os

open Toys.Lib Toys.FileSystem

/-!
# Kernel — the calls that fail

A system call that returns an error has changed nothing that a program can see: it makes its
checks before it writes a block, a record or the memory of a program.  The only trace that it
may leave is a stream which is allocated, but not open.

* `FailedCall` — what such a call leaves as it was;
* `FailedEffect`, `call_failed` — the same, in terms of the frames;
* `failedCall_of_outputSafe` — the calls that fail in a run.
-/

variable {n base r id : Nat} {k k' : Kernel} {f : Frame} {fs : List Frame} {e : Event}
  {a : CallArguments} {keys : List (Option UInt32)}

/-! ### What a failed call leaves -/

/-- The record and the streams of the process `p` are as they were, except for the context of the
    caller and perhaps a new stream `new` of the caller. -/
def KeepsProcess (k k' : Kernel) (p : Nat) : Prop :=
  ∃ ss new, k.Streams p ss ∧ k'.Streams p (ss ++ new) ∧
    (∀ s ∈ ss, k'.stream s = { k.stream s with next := (k'.stream s).next }) ∧
    (new = [] ∨ p = k.currentProcess ∧ ∃ s, new = [s] ∧ (k'.stream s).mode = MODE_UNUSED) ∧
    k'.process p =
      if p = k.currentProcess then
        { k.process p with
          savedR8 := (k'.process p).savedR8
          savedStackPointer := (k'.process p).savedStackPointer
          savedReturnAddress := (k'.process p).savedReturnAddress
          fileStreams := (k'.process p).fileStreams }
      else k.process p

/-- The states before and after a call that fails. -/
structure FailedCall (k k' : Kernel) : Prop where
  blocks : k'.disk.io.blocks = k.disk.io.blocks
  /-- The memory of the programs. -/
  memory : ∀ j, k.heapLimit ≤ j → k'.memory j = k.memory j
  userPages : k'.userPages = k.userPages
  current : k'.currentProcess = k.currentProcess
  chain : ∃ ps, k.Chain ps ∧ k'.Chain ps ∧ ∀ p ∈ ps, KeepsProcess k k' p

/-- The effect of a call that fails, by the process of the frame `f`. -/
inductive FailedEffect (base : Nat) (k : Kernel) (f : Frame) (fs : List Frame) :
    Kernel → Frame → Prop
  | mk {heap : Nat} {disk : Disk} {memory : ByteMem} {f' : Frame}
      (hreads : AfterReads k.disk.io disk.io) (hf : f.Extends f')
      (hframed : Framed { k with heap := heap, disk := disk, memory := memory } base (f' :: fs))
      (hmem : ∀ j, (j < base ∨ k.heapLimit ≤ j) → memory j = k.memory j) :
      FailedEffect base k f fs { k with heap := heap, disk := disk, memory := memory } f'

/-- A call that only reads blocks. -/
theorem FailedEffect.of_afterReads {disk : Disk} (h : Framed k base (f :: fs))
    (hreads : AfterReads k.disk.io disk.io) : FailedEffect base k f fs { k with disk := disk } f :=
  FailedEffect.mk hreads (Or.inl rfl) (h.congr fun _ _ _ => rfl) fun _ _ => rfl

/-! ### The calls -/

/-- `os_close` fails before it changes the stream. -/
theorem osClose_failed {streamId : Nat} (hr : 2 ^ 56 ≤ r)
    (hrun : osClose n k streamId = some (k', r)) : k' = k := by
  unfold osClose at hrun
  cases hget : processGetFileStream n k.memory k.currentProcess streamId with
  | none => simp [hget] at hrun
  | some stream =>
    simp only [hget] at hrun
    split at hrun
    · rw [Option.some.injEq, Prod.mk.injEq] at hrun
      exact hrun.1.symm
    · rw [Option.some.injEq, Prod.mk.injEq] at hrun
      exact absurd hr (by rw [← hrun.2]; decide)

/-- `os_read` fails before it stores a byte. -/
theorem osRead_failed {streamId buffer size : Nat} (h : Framed k base (f :: fs)) (hr : 2 ^ 56 ≤ r)
    (hsize : processContainsBuffer f.process buffer size → size < 2 ^ 56)
    (hrun : osRead n k streamId buffer size keys = some (k', r)) : k' = k := by
  cases osRead_cases h hrun with
  | failed => rfl
  | key => exact absurd hr (by decide)
  | listEnd => rfl
  | list _ _ _ _ hbuffer =>
    have hlt := hsize hbuffer
    exact absurd hr (by omega)
  | file _ _ _ hbuffer hread =>
    have hlen := diskReadFile_length hread
    have hlt := hsize hbuffer
    exact absurd hr (by simp only at hlen; omega)

/-- The identifiers of the streams are small: they are on the kernel heap. -/
theorem Framed.streamId_lt {i : Nat} {s : StreamState} (h : Framed k base (f :: fs))
    (hroom : k.heapLimit ≤ base + 5119) (hs : f.streams[i]? = some s) : i + 4 < 2 ^ 56 := by
  have hheap := h.heap_le
  have hge := h.frames.address_ge f List.mem_cons_self
  obtain ⟨-, hle⟩ := h.streamAddress_bounds hs
  unfold Frame.streamAddress at hle
  omega

/-- `os_open` fails before it writes a block or changes a stream. -/
theorem osOpen_failed {name length mode : Nat} (h : Framed k base (f :: fs))
    (hroom : k.heapLimit ≤ base + 5119) (hr : 2 ^ 56 ≤ r)
    (hrun : osOpen n k name length mode = some (k', r)) : ∃ f', FailedEffect base k f fs k' f' := by
  have hreads := diskReadBlockBuffer_afterReads k.disk SUPER_BLOCK
  cases osOpen_cases h hrun with
  | rejected => exact ⟨f, FailedEffect.of_afterReads h (AfterReads.refl _)⟩
  | @full k₁ heap streamId memory f' hget hsearch =>
    exact ⟨f', FailedEffect.mk (AfterReads.refl _) hsearch.extended hsearch.framed hsearch.kept⟩
  | @listWritten heap memory f' hlength hmode hsearch =>
    exact ⟨f', FailedEffect.mk hreads hsearch.extended (hsearch.framed_disk _) hsearch.kept⟩
  | list hlength hmode hfind =>
    exact absurd hr (not_le.mpr (hfind.framed.streamId_lt hroom hfind.stream))
  | @failed k₁ heap i file memory f' s status hstatus hopen =>
    rcases osOpenFile_spec (hopen.framed_disk _) hopen.stream hopen.mode_valid hopen.run with
      ⟨-, disk₁, disk, rfl, hreads₁, hdisk⟩ | ⟨hok, -⟩
    · -- the file was looked for, and perhaps `disk_create_file` failed
      have hreads₂ : AfterReads disk₁.io disk.io := by
        rcases hdisk with rfl | ⟨name', status', hcreate⟩
        · exact AfterReads.refl _
        · exact diskCreateFile_error_afterReads hcreate
      exact ⟨f', FailedEffect.mk ((hreads.trans hreads₁).trans hreads₂) hopen.extended
        (hopen.framed_disk _) hopen.kept⟩
    · exact absurd hok hstatus
  | opened hopen hresult =>
    rw [osOpenStream, Prod.mk.injEq] at hresult
    exact absurd (hresult.2 ▸ hr) (not_le.mpr (hopen.framed.streamId_lt hroom hopen.stream))

/-- The effect of a call that fails, other than `os_write`. -/
theorem call_failed (h : Framed k base (f :: fs)) (ha : a.Fits) (hroom : k.heapLimit ≤ base + 5119)
    (hid : id ≠ 6)
    (hsize : id = 5 → processContainsBuffer f.process a.arg1 a.arg2 → a.arg2 < 2 ^ 56) (hr : 2 ^ 56 ≤ r)
    (hrun : call n k id a keys = some (k', r)) : ∃ f', FailedEffect base k f fs k' f' := by
  have hsame : k' = k → ∃ f', FailedEffect base k f fs k' f' := by
    intro hk
    rw [hk]
    exact ⟨f, FailedEffect.of_afterReads h (AfterReads.refl _)⟩
  by_cases h4 : id = 4
  · subst h4
    have hrun : osOpen n k a.arg0 a.arg1 a.arg2 = some (k', r) := hrun
    exact osOpen_failed h hroom hr hrun
  by_cases h5 : id = 5
  · subst h5
    have hrun : osRead n k a.arg0 a.arg1 a.arg2 keys = some (k', r) := hrun
    exact hsame (osRead_failed h hr (hsize rfl) hrun)
  by_cases h7 : id = 7
  · subst h7
    have hrun : osClose n k a.arg0 = some (k', r) := hrun
    exact hsame (osClose_failed hr hrun)
  -- the other calls either return `OK` or only read blocks
  obtain ⟨fs', hframed, heffect⟩ := call_effect h ha (fun h6 => absurd h6 hid) hrun
  have hok : ¬ 2 ^ 56 ≤ OK := by decide
  cases heffect with
  | quiet _ hreads => exact ⟨f, FailedEffect.of_afterReads h hreads⟩
  | key h5' => exact absurd h5' h5
  | output h6 => exact absurd h6 hid
  | stream hid' => omega
  | opened h4' => exact absurd h4' h4
  | openFailed h4' => exact absurd h4' h4
  | delete => exact absurd hr hok
  | spawn => exact absurd hr hok
  | exit => exact absurd hr hok

/-! ### The memory after the call -/

/-- At most one stream is added, which is not used. -/
theorem Frame.Extends.streams_eq {f' : Frame} (h : f.Extends f') : ∃ new, f'.streams = f.streams ++ new ∧
    (new = [] ∨ ∃ s, new = [s] ∧ s.mode = MODE_UNUSED) := by
  rcases h with rfl | ⟨s, hmode, rfl⟩
  · exact ⟨[], (List.append_nil _).symm, Or.inl rfl⟩
  · exact ⟨[s], rfl, Or.inr ⟨s, rfl, hmode⟩⟩

/-- Only the list of the streams may change in the record of the process. -/
theorem Frame.Extends.process_eq {f' : Frame} (h : f.Extends f') :
    f'.process = { f.process with fileStreams := f'.process.fileStreams } := by
  rcases h with rfl | ⟨s, -, rfl⟩
  · rfl
  · rfl

/-- The addresses of the streams of a frame that has more of them. -/
theorem Frame.streamAddresses_append {f' : Frame} {new : List StreamState}
    (haddress : f'.address = f.address) (hstreams : f'.streams = f.streams ++ new) :
    f'.streamAddresses = f.streamAddresses ++
      (List.range new.length).map fun i => f.streamAddress (f.streams.length + i) := by
  have hsame : f'.streamAddress = f.streamAddress := by
    funext i
    unfold Frame.streamAddress
    rw [haddress]
  unfold Frame.streamAddresses
  rw [hsame, hstreams, List.length_append, List.range_add, List.map_append, List.map_map]
  rfl

/-- The streams that remain have kept their fields, and their addresses. -/
theorem Framed.stream_kept {f' : Frame} {fs' : List Frame} {new : List StreamState}
    (hk : Framed k base (f :: fs)) (hk' : Framed k' base (f' :: fs'))
    (haddress : f'.address = f.address) (hstreams : f'.streams = f.streams ++ new) {s : Nat}
    (hs : s ∈ f.streamAddresses) : k'.stream s = { k.stream s with next := (k'.stream s).next } := by
  obtain ⟨i, hi, rfl⟩ := List.mem_map.mp hs
  have hi : i < f.streams.length := List.mem_range.mp hi
  have hread := hk.stream List.mem_cons_self (List.getElem?_eq_getElem hi)
  have hi' : f'.streams[i]? = some f.streams[i] := by
    rw [hstreams, List.getElem?_append_left hi, List.getElem?_eq_getElem hi]
  have hread' := hk'.stream List.mem_cons_self hi'
  have hsame : f'.streamAddress i = f.streamAddress i := by
    unfold Frame.streamAddress
    rw [haddress]
  rw [hsame] at hread'
  rw [hread, hread']
  rfl

/-- The chain of the processes when the current one keeps its streams, and perhaps gets a new
    one. -/
theorem Framed.keeps_chain {f' : Frame} (hk : Framed k base (f :: fs))
    (hk' : Framed k' base (f' :: fs)) (haddress : f'.address = f.address)
    (hstreams : ∃ new, f'.streams = f.streams ++ new ∧
      (new = [] ∨ ∃ s, new = [s] ∧ s.mode = MODE_UNUSED))
    (hprocess : f'.process = { f.process with
      savedR8 := f'.process.savedR8
      savedStackPointer := f'.process.savedStackPointer
      savedReturnAddress := f'.process.savedReturnAddress
      fileStreams := f'.process.fileStreams }) :
    ∃ ps, k.Chain ps ∧ k'.Chain ps ∧ ∀ p ∈ ps, KeepsProcess k k' p := by
  have hcurrent : k.currentProcess = f.address := hk.current
  have hchain' := hk'.chain
  rw [List.map_cons, haddress] at hchain'
  refine ⟨(f :: fs).map Frame.address, hk.chain, hchain', fun p hp => ?_⟩
  obtain ⟨g, hg, rfl⟩ := List.mem_map.mp hp
  rcases List.mem_cons.mp hg with rfl | hg
  · -- the caller
    obtain ⟨new, hnew, hmode⟩ := hstreams
    have hread := hk.process List.mem_cons_self
    have hread' := hk'.process List.mem_cons_self
    rw [haddress] at hread'
    refine ⟨g.streamAddresses,
      (List.range new.length).map fun i => g.streamAddress (g.streams.length + i),
      hk.streams List.mem_cons_self, ?_, fun s hs => hk.stream_kept hk' haddress hnew hs, ?_, ?_⟩
    · have hss := hk'.streams List.mem_cons_self
      rw [haddress, Frame.streamAddresses_append haddress hnew] at hss
      exact hss
    · rcases hmode with rfl | ⟨s, rfl, hmode⟩
      · exact Or.inl rfl
      · refine Or.inr ⟨hcurrent.symm, g.streamAddress g.streams.length, rfl, ?_⟩
        have hlast : f'.streams[g.streams.length]? = some s := by simp [hnew]
        have hstream := hk'.stream List.mem_cons_self hlast
        have hsame : f'.streamAddress g.streams.length = g.streamAddress g.streams.length := by
          unfold Frame.streamAddress
          rw [haddress]
        rw [hsame] at hstream
        rw [hstream]
        exact hmode
    · rw [if_pos hcurrent.symm, hread, hread']
      exact hprocess
  · -- a process that waits for its child
    have hne : g.address ≠ k.currentProcess := by
      rw [hcurrent]
      have := hk.frames.2.2.endAddress_le g hg
      have := g.address_lt
      omega
    have hmem : g ∈ f :: fs := List.mem_cons_of_mem _ hg
    have hmem' : g ∈ f' :: fs := List.mem_cons_of_mem _ hg
    refine ⟨g.streamAddresses, [], hk.streams hmem, ?_, fun s hs => ?_, Or.inl rfl, ?_⟩
    · rw [List.append_nil]
      exact hk'.streams hmem'
    · obtain ⟨i, hi, rfl⟩ := List.mem_map.mp hs
      have hi : i < g.streams.length := List.mem_range.mp hi
      rw [hk.stream hmem (List.getElem?_eq_getElem hi), hk'.stream hmem' (List.getElem?_eq_getElem hi)]
    · rw [if_neg hne, hk.process hmem, hk'.process hmem']

/-- The result of a call is in the saved register of the caller. -/
theorem Frame.withResult_self {address result : Nat} (h : f.address = address) :
    f.withResult address result =
      { f with process := { f.process with savedR8 := result % 2 ^ 64 } } := if_pos h

/-- The handler saves the context of the caller, and stores the error. -/
theorem FailedEffect.failedCall {k₁ : Kernel} {f' : Frame} (hk : Framed k base (f :: fs))
    (h : FailedEffect base (e.calling k) (e.caller f) fs k₁ f') :
    FailedCall k { k₁ with memory := setSavedR8 k₁.memory f.address r } := by
  have hcurrent : k.currentProcess = f.address := hk.current
  have hdisk : (e.calling k).disk = k.disk := Event.calling_disk
  have hlimit : (e.calling k).heapLimit = k.heapLimit := Event.calling_heapLimit
  have hpages : (e.calling k).userPages = k.userPages := by cases e <;> rfl
  have hcurrent' : (e.calling k).currentProcess = k.currentProcess := Event.calling_currentProcess
  have hsaved : (e.caller f).process = { f.process with
      savedStackPointer := (e.caller f).process.savedStackPointer
      savedReturnAddress := (e.caller f).process.savedReturnAddress } := by cases e <;> rfl
  cases h with
  | mk hreads hf hframed hmem =>
    have haddress : f'.address = f.address := hf.address_eq.trans Event.caller_address
    have hresult := @Framed.setResult _ _ _ f.address r hframed
      (Or.inr ⟨f', List.mem_cons_self, haddress⟩)
    have hmap := hk.frames.map_withResult (r := r)
    rw [List.map_cons, hmap, Frame.withResult_self haddress] at hresult
    refine ⟨?_, fun j hj => ?_, hpages, hcurrent', hk.keeps_chain hresult haddress ?_ ?_⟩
    · rw [hdisk] at hreads
      exact hreads.blocks
    · rw [hlimit] at hmem
      show setSavedR8 _ f.address r j = k.memory j
      rw [hk.setSavedR8_of_not_mem List.mem_cons_self (Or.inr hj)]
      exact (hmem j (Or.inr hj)).trans (Event.calling_memory hk (Or.inr hj))
    · obtain ⟨new, hnew, hmode⟩ := hf.streams_eq
      rw [Event.caller_streams] at hnew
      exact ⟨new, hnew, hmode⟩
    · simp only
      rw [hf.process_eq, hsaved]

/-! ### Runs -/

/-- The arguments of a call are 64-bit words. -/
theorem Event.Returns.fits (h : e.Returns k n id a r) : a.Fits := by
  cases e with
  | user => exact h.elim
  | fault => exact h.elim
  | syscall =>
    obtain ⟨-, -, rfl, -⟩ := h
    exact readArguments_fits _ _

/-- A call other than `os_write` that returns an error changes nothing, in the states of the runs
    in which no output is written over the memory of the kernel, unless it is a read of so many
    bytes that their number looks like an error. -/
theorem failedCall_of_outputSafe (h : Reachable Event.OutputSafe k) (hs : Step k e k')
    (hr : e.Returns k n id a r) (hid : id ≠ 6)
    (hsize : id = 5 → processContainsBuffer (k.process k.currentProcess) a.arg1 a.arg2 → a.arg2 < 2 ^ 56)
    (hfail : r / 2 ^ 56 ≠ 0) : FailedCall k k' := by
  obtain ⟨-, base, f, fs, hframed, hroom, -⟩ := h.kernelSafe
  have hcurrent : k.currentProcess = f.address := hframed.current
  have hcaller := Event.calling_framed (e := e) hframed
  have hge : 2 ^ 56 ≤ r := by omega
  have hlimit : (e.calling k).heapLimit = k.heapLimit := Event.calling_heapLimit
  obtain ⟨k₁, rfl, hcall⟩ := hs.of_returns hr
  have hbuffer : processContainsBuffer (e.caller f).process a.arg1 a.arg2 =
      processContainsBuffer (k.process k.currentProcess) a.arg1 a.arg2 := by
    rw [hframed.process_eq]
    cases e
    all_goals rfl
  rw [← hbuffer] at hsize
  rw [hcurrent]
  rcases hcall with hcall | ⟨rfl, -⟩
  · obtain ⟨f', heffect⟩ := call_failed hcaller hr.fits (by rw [hlimit]; exact hroom) hid hsize hge hcall
    exact heffect.failedCall hframed
  · exact (FailedEffect.of_afterReads hcaller (AfterReads.refl _)).failedCall hframed

/-! ### A call that fails on the small system -/

/-- The small system when its shell is about to open a file that does not exist. -/
def missingKernel : Kernel :=
  shellKernel.storeBytes 4096 ([4120, 1, MODE_READ].flatMap wordBytes ++ [120])

/-- The shell that is about to open a missing file is reachable. -/
theorem missingKernel_reachable : Reachable Event.OutputSafe missingKernel := by
  refine Reachable.step (Reachable.boot shellKernel_booted) Event.outputSafe_user
    (Step.storeBytes fun page h1 h2 => ?_)
  obtain rfl : page = 1 := le_antisymm (le_trans h2 (by decide +kernel)) h1
  decide +kernel

/-- The call of `os_open`. -/
def missingEvent : Event := .syscall 2 4 4096 4096 20480 []

/-- The small system after the call: it has a new stream. -/
def afterMissingKernel : Kernel :=
  (syscallHandler 2 missingKernel 4 4096 4096 20480 []).get
    (by decide +kernel)

/-- The call of the shell changes nothing: the file does not exist. -/
theorem failedCall_missing : FailedCall missingKernel afterMissingKernel := by
  have hok : (dispatch 2 (missingEvent.calling missingKernel) missingKernel.currentProcess 4 4096
      []).map Prod.snd = some (errorResult .notFound) := by decide +kernel
  obtain ⟨⟨k', r⟩, heq, rfl⟩ := Option.map_eq_some_iff.mp hok
  have hs : Step missingKernel missingEvent afterMissingKernel := Step.syscall (Option.some_get _).symm
  exact failedCall_of_outputSafe missingKernel_reachable hs ⟨rfl, rfl, rfl, k', heq⟩ (by decide)
    (by decide) (by decide)

/-! ### A call that fails on a kernel whose records were overwritten -/

/-- What the child finds in its memory, at the address 12288: the word that its `output_p` points
    to, the arguments of a call of `os_write` and of a call of `os_open`, the word to write, which
    is the address of the next word, a stream, and a name. -/
def forgingBytes : List UInt8 :=
  [4096, 1, 12344, 8, 12392, 1, MODE_READ, 12352, 0, MODE_READ, 0, 0, 0].flatMap wordBytes ++ [120]

/-- The small system when its shell is about to spawn a child whose `output_p` is in the memory of
    the child. -/
def forgingKernel : Kernel :=
  (shellKernel.storeBytes 4096 (spawnBytes 8192 12288)).storeBytes 12288 forgingBytes

/-- The shell that is about to spawn the child is reachable. -/
theorem forgingKernel_reachable {C : Kernel → Event → Prop} (hC : ∀ k memory, C k (.user memory)) :
    Reachable C forgingKernel := by
  refine Reachable.step (Reachable.step (Reachable.boot shellKernel_booted) (hC _ _)
    (Step.storeBytes fun page h1 h2 => ?_)) (hC _ _) (Step.storeBytes fun page h1 h2 => ?_)
  · obtain rfl : page = 1 := le_antisymm (le_trans h2 (by decide +kernel)) h1
    decide +kernel
  · obtain rfl : page = 3 := le_antisymm (le_trans h2 (by decide +kernel)) h1
    decide +kernel

/-- The small system when the child starts. -/
def forgingChild : Kernel :=
  (syscallHandler 2 forgingKernel 0 4104 4096 20480 []).get
    (by decide +kernel)

/-- The shell spawns the child. -/
theorem forgingChild_step : Step forgingKernel spawnEvent forgingChild :=
  Step.syscall (Option.some_get _).symm

/-- The child has changed the word that its `output_p` points to: it is the address of the field
    `file_streams` of its record. -/
def forgedOutput : Kernel := forgingChild.storeBytes 12288 (wordBytes 152)

/-- The child changes the word of its `output_p`. -/
theorem forgedOutput_step :
    Step forgingChild (.user (forgingChild.memory.copyIn 12288 (wordBytes 152))) forgedOutput :=
  Step.storeBytes fun page h1 h2 => by
    obtain rfl : page = 3 := le_antisymm (le_trans h2 (by decide +kernel)) h1
    decide +kernel

/-- The call of `os_write` for the standard output. -/
def forgedWrite : Event := .syscall 2 6 12296 8192 20480 []

/-- The small system when the only stream of the child is in the memory of the child. -/
def forgedStream : Kernel :=
  (syscallHandler 2 forgedOutput 6 12296 8192 20480 []).get
    (by decide +kernel)

/-- The child writes to the standard output. -/
theorem forgedStream_step : Step forgedOutput forgedWrite forgedStream :=
  Step.syscall (Option.some_get _).symm

/-- The state with the forged stream is reachable, if the output is not safe. -/
theorem forgedStream_reachable : Reachable (fun _ _ => True) forgedStream :=
  Reachable.step (Reachable.step (Reachable.step (forgingKernel_reachable fun _ _ => trivial) trivial
    forgingChild_step) trivial forgedOutput_step) trivial forgedStream_step

/-- Writing to the standard output does not change the disk. -/
theorem osWrite_output_disk {buffer size : Nat}
    (hrun : osWrite n k STANDARD_OUTPUT buffer size = some (k', r)) : k'.disk = k.disk := by
  simp only [osWrite] at hrun
  split at hrun
  · rw [Option.some.injEq, Prod.mk.injEq] at hrun
    rw [hrun.1]
  · rw [if_pos (by decide), Option.some.injEq] at hrun
    rw [show k' = (osWriteOutput k STANDARD_OUTPUT buffer size).1 by rw [hrun], osWriteOutput,
      if_pos rfl]

/-- The disk after a system call whose function only reads it. -/
theorem Step.disk_afterReads {id args returnAddress stackPointer : UInt64} {k₀ : Kernel}
    (hs : Step k (.syscall n id args returnAddress stackPointer keys) k')
    (hk₀ : k₀ = saveContext k returnAddress.toNat stackPointer.toNat)
    (hcall : ∀ k₁ r, call n k₀ id.toNat (readArguments k₀.memory args.toNat) keys = some (k₁, r) →
      AfterReads k₀.disk.io k₁.disk.io) : AfterReads k.disk.io k'.disk.io := by
  obtain ⟨k₁, r, hrun, rfl⟩ := hs.of_syscall
  have hdisk : k₀.disk = k.disk := by rw [hk₀]; rfl
  rw [← hk₀] at hrun
  rw [← hdisk]
  unfold dispatch at hrun
  split at hrun
  · exact hcall k₁ r hrun
  · rw [Option.some.injEq, Prod.mk.injEq] at hrun
    rw [← hrun.1]
    exact AfterReads.refl _

/-- A call of `os_spawn` only reads the disk. -/
theorem Step.spawn_afterReads {args returnAddress stackPointer : UInt64}
    (hs : Step k (.syscall n 0 args returnAddress stackPointer keys) k') :
    AfterReads k.disk.io k'.disk.io :=
  hs.disk_afterReads rfl fun _ _ hcall => osSpawn_afterReads hcall

/-- A call of `os_write` for the standard output does not use the disk. -/
theorem Step.output_afterReads {args returnAddress stackPointer : UInt64} {k₀ : Kernel}
    (hs : Step k (.syscall n 6 args returnAddress stackPointer keys) k')
    (hk₀ : k₀ = saveContext k returnAddress.toNat stackPointer.toNat)
    (hstdout : (readArguments k₀.memory args.toNat).arg0 = STANDARD_OUTPUT) :
    AfterReads k.disk.io k'.disk.io := by
  refine hs.disk_afterReads hk₀ fun k₁ r hcall => ?_
  have hrun : osWrite n k₀ (readArguments k₀.memory args.toNat).arg0
    (readArguments k₀.memory args.toNat).arg1 (readArguments k₀.memory args.toNat).arg2 =
      some (k₁, r) := hcall
  rw [hstdout] at hrun
  rw [osWrite_output_disk hrun]
  exact AfterReads.refl _

/-- The disk stays as it was. -/
theorem forgedStream_io : forgedStream.disk.io = shellDisk.io := by
  have hboot : forgingKernel.disk.io = shellDisk.io := osSpawnShell_io rfl shellKernel_boot
  have hspawn : AfterReads forgingKernel.disk.io forgingChild.disk.io := forgingChild_step.spawn_afterReads
  have hstore : forgedOutput.disk = forgingChild.disk := Kernel.storeBytes_disk
  have hio : forgedOutput.disk.io = shellDisk.io := by
    rw [← hboot, hstore]
    apply hspawn.eq
    rw [hboot]
    rfl
  have hwrite : AfterReads forgedOutput.disk.io forgedStream.disk.io :=
    forgedStream_step.output_afterReads rfl (by decide +kernel)
  rw [← hio]
  apply hwrite.eq
  rw [hio]
  rfl

/-- The call of `os_open` for a file that does not exist. -/
def forgedOpen : Event := .syscall 2 4 12320 8192 20480 []

/-- The small system after the call: the kernel has linked a new stream to the one in the memory of
    the child. -/
def afterForgedOpen : Kernel :=
  (syscallHandler 2 forgedStream 4 12320 8192 20480 []).get
    (by decide +kernel)

/-- Once the output of a child is written over its own record, a failed call changes the memory
    of the child. -/
theorem not_failedCall : ¬ ∀ (k k' : Kernel) (e : Event) (n id r : Nat) (a : CallArguments),
    Reachable (fun _ _ => True) k → WellFormed k.disk.io → k.disk.io.readErrors = [] →
    Step k e k' → e.Returns k n id a r → id ≠ 6 → r / 2 ^ 56 ≠ 0 → FailedCall k k' := by
  intro hall
  have hok : (dispatch 2 (forgedOpen.calling forgedStream) forgedStream.currentProcess 4 12320
      []).map Prod.snd = some (errorResult .notFound) := by decide +kernel
  obtain ⟨⟨k₁, r⟩, heq, rfl⟩ := Option.map_eq_some_iff.mp hok
  have hs : Step forgedStream forgedOpen afterForgedOpen := Step.syscall (Option.some_get _).symm
  have hwf : WellFormed forgedStream.disk.io := by
    rw [forgedStream_io]
    exact ⟨_, shellDisk_describes⟩
  have hreads : forgedStream.disk.io.readErrors = [] := by
    rw [forgedStream_io]
    rfl
  have hfailed := hall _ _ _ _ _ _ _ forgedStream_reachable hwf hreads hs ⟨rfl, rfl, rfl, k₁, heq⟩
    (by decide) (by decide)
  have hsame := hfailed.memory 12352 (by decide +kernel)
  have hbefore : forgedStream.memory 12352 = 0 := by decide +kernel
  have hafter : afterForgedOpen.memory 12352 = 176 := by decide +kernel
  rw [hbefore, hafter] at hsame
  exact absurd hsame (by decide)

end Toys.Os
