import Mathlib
import Toys.Os.Nesting

namespace Toys.Os

open Toys.Lib Toys.FileSystem

/-!
# Kernel — what `os_read` stores

`os_read` checks that its buffer is in the memory of the process, for the number of bytes that
it is asked for, and then has four ways to fill it.  The two that read the keyboard store a
whole word for the one byte that they return.

* `ReadOutcome`, `osRead_cases` — all that `os_read` can do;
* `ReadConfined` — the call stores what it returns, and nothing else;
* `readConfined_iff` — which calls do.
-/

variable {n base r i streamId buffer size : Nat} {k k' : Kernel} {f : Frame} {fs : List Frame}
  {e : Event} {a : CallArguments} {keys : List (Option UInt32)}

/-! ### Which calls are confined -/

/-- A call of `os_read` by the process `p` returns at most what it was asked for, and what it
    changes in the memory from `limit` on is in the bytes that it returns, which are in the
    memory of the process. -/
structure ReadConfined (limit : Nat) (p : Process) (buffer size r : Nat) (before after : ByteMem) :
    Prop where
  le : r ≤ size
  memory : ∀ j, limit ≤ j → (j < buffer ∨ buffer + r ≤ j) → after j = before j
  begin : p.begin ≤ buffer
  end_ : buffer + r ≤ p.end_

/-- A file reads no key. -/
theorem keyRead_of_file {i : Nat} : keyRead (i + 4) keys = none := by
  unfold keyRead STANDARD_INPUT KEYBOARD
  rw [if_neg (by omega), if_neg (by omega)]

/-- A read that succeeds was given a buffer of the process. -/
theorem ReadOutcome.containsBuffer (ho : ReadOutcome n k f streamId buffer size keys k' r)
    (hr : r < 2 ^ 56) : processContainsBuffer f.process buffer size = true := by
  cases ho with
  | failed hstatus => exact absurd hr (not_lt.mpr (errorResult_ge hstatus))
  | key _ hbuffer => exact hbuffer
  | listEnd _ _ _ _ hbuffer => exact hbuffer
  | list _ _ _ _ hbuffer => exact hbuffer
  | file _ _ _ hbuffer => exact hbuffer

/-- A call is confined unless it stores the word of a key over other bytes. -/
theorem ReadOutcome.confined_iff (h : Framed k base (f :: fs)) (hr : r < 2 ^ 56)
    (ho : ReadOutcome n k f streamId buffer size keys k' r) :
    ReadConfined k.heapLimit f.process buffer size r k.memory k'.memory ↔
      ∀ c, keyRead streamId keys = some c → ∀ j, 1 ≤ j → j < 8 →
        k.memory (buffer + j) = UInt8.ofNat (c / 256 ^ j) := by
  have hbegin := h.begin_ge f (by simp)
  have hheap := h.heap_le
  cases ho with
  | failed hstatus => exact absurd hr (not_lt.mpr (errorResult_ge hstatus))
  | @key c hsize hbuffer hc =>
    obtain ⟨hge, hlt, hend⟩ := (processContainsBuffer_iff h.fits).mp hbuffer
    constructor
    · intro hconf c' hc' j h1 h8
      obtain rfl : c = c' := by rw [hc, Option.some_inj] at hc'; exact hc'
      rw [← hconf.memory (buffer + j) (by omega) (Or.inr (by omega))]
      show k.memory.store 8 buffer c (buffer + j) = _
      rw [ByteMem.store, if_pos (by omega), Nat.add_sub_cancel_left]
    · intro hbytes
      refine ⟨hsize, fun j h1 h2 => ?_, hge, by omega⟩
      by_cases hj : j < buffer ∨ buffer + 8 ≤ j
      · exact ByteMem.store_of_not_mem hj
      · -- one of the seven other bytes of the word
        have hbyte := hbytes c hc (j - buffer) (by omega) (by omega)
        rw [show buffer + (j - buffer) = j by omega] at hbyte
        show k.memory.store 8 buffer c j = _
        rw [ByteMem.store, if_pos (by omega), hbyte]
  | listEnd hid hs hmode h0 hbuffer =>
    obtain ⟨hge, hlt, hend⟩ := (processContainsBuffer_iff h.fits).mp hbuffer
    refine iff_of_true ⟨Nat.zero_le _, fun _ _ _ => rfl, hge, by omega⟩ fun c hc => ?_
    rw [hid, keyRead_of_file] at hc
    cases hc
  | @list i s disk hid hs hmode h0 hbuffer hdisk =>
    obtain ⟨hge, hlt, hend⟩ := (processContainsBuffer_iff h.fits).mp hbuffer
    obtain ⟨hsge, hsle⟩ := h.streamAddress_bounds hs
    refine iff_of_true ⟨Nat.min_le_left _ _, fun j h1 h2 => ?_, hge, ?_⟩ fun c hc => ?_
    · show setFileBlock _ _ _ j = _
      rw [setFileBlock, ByteMem.store_of_not_mem (by omega),
        ByteMem.copyIn_of_not_mem (by rw [DiskBlock.read_length]; exact h2)]
    · have := Nat.min_le_left size disk.blockBuffer.nameLength
      omega
    · rw [hid, keyRead_of_file] at hc
      cases hc
  | file hid hs hmode hbuffer hread =>
    obtain ⟨hge, hlt, hend⟩ := (processContainsBuffer_iff h.fits).mp hbuffer
    have hlen := diskReadFile_length hread
    refine iff_of_true ⟨hlen, fun j h1 h2 => ?_, hge, by simp only at hlen; omega⟩ fun c hc => ?_
    · exact (h.readFile k.disk _ hs hge).2 j (Or.inr h1) h2
    · rw [hid, keyRead_of_file] at hc
      cases hc

/-- A call of `os_read` that returns a count is confined, unless it stores the word of a key
    over bytes that are not those of this word. -/
theorem readConfined_iff (h : Reachable Event.OutputSafe k) (hs : Step k e k')
    (hr : e.Returns k n 5 a r) (hok : r < 2 ^ 56) :
    ReadConfined k.heapLimit (k.process k.currentProcess) a.arg1 a.arg2 r k.memory k'.memory ↔
      ∀ c, keyRead a.arg0 e.keys = some c → ∀ j, 1 ≤ j → j < 8 →
        k.memory (a.arg1 + j) = UInt8.ofNat (c / 256 ^ j) := by
  obtain ⟨-, base, f, fs, hframed, -⟩ := h.kernelSafe
  have hcaller := Event.calling_framed (e := e) hframed
  have hlimit : (e.calling k).heapLimit = k.heapLimit := Event.calling_heapLimit
  obtain ⟨k₁, rfl, hcall⟩ := hs.of_returns hr
  have hread : osRead n (e.calling k) a.arg0 a.arg1 a.arg2 e.keys = some (k₁, r) := by
    refine hcall.resolve_right fun hc => ?_
    rw [hc.2] at hok
    exact absurd hok (by decide)
  have hcases := osRead_cases hcaller hread
  have hiff := hcases.confined_iff hcaller hok
  -- the handler changes nothing in the memory of the programs
  have hbefore : ∀ j, k.heapLimit ≤ j → (e.calling k).memory j = k.memory j := fun j hj =>
    Event.calling_memory hframed (Or.inr hj)
  have hafter : ∀ j, k.heapLimit ≤ j → setSavedR8 k₁.memory k.currentProcess r j = k₁.memory j := by
    intro j hj
    have hcurrent : k.currentProcess = f.address := hframed.current
    rw [hcurrent]
    exact hframed.setSavedR8_of_not_mem List.mem_cons_self (Or.inr hj)
  have hbegin : (e.caller f).process.begin = f.process.begin := by cases e <;> rfl
  have hend : (e.caller f).process.end_ = f.process.end_ := by cases e <;> rfl
  rw [hframed.process_eq]
  rw [hlimit] at hiff
  have hconf : ReadConfined k.heapLimit (e.caller f).process a.arg1 a.arg2 r (e.calling k).memory
      k₁.memory ↔ ReadConfined k.heapLimit f.process a.arg1 a.arg2 r k.memory
        (setSavedR8 k₁.memory k.currentProcess r) := by
    constructor
    · intro hc
      exact ⟨hc.le, fun j h1 h2 => by rw [hafter j h1, hc.memory j h1 h2, hbefore j h1],
        hbegin ▸ hc.begin, hend ▸ hc.end_⟩
    · intro hc
      exact ⟨hc.le, fun j h1 h2 => by rw [← hafter j h1, hc.memory j h1 h2, hbefore j h1],
        hbegin ▸ hc.begin, hend ▸ hc.end_⟩
  have hge : k.heapLimit ≤ a.arg1 := by
    obtain ⟨hge, -⟩ := (processContainsBuffer_iff hcaller.fits).mp (hcases.containsBuffer hok)
    exact (hlimit ▸ hcaller.begin_ge _ List.mem_cons_self).trans hge
  rw [← hconf, hiff]
  refine forall_congr' fun c => forall_congr' fun _ => forall_congr' fun j => ?_
  rw [hbefore (a.arg1 + j) (by omega)]

/-! ### A key stored over other bytes -/

/-- A memory with the name of the shell, and a byte just after the memory of the system. -/
def edgeMemory : ByteMem := shellMemory.copyIn 20480 [1]

/-- The start of the kernel with this memory. -/
def edgeBoot : Option (Kernel × Nat) := osSpawnShell 2 (osInit 0 16 5 24576 shellDisk edgeMemory) 1000

theorem edgeBoot_eq : edgeBoot.isSome ∧ edgeBoot.map Prod.snd = some OK := by decide +kernel

/-- The system with this memory when its shell starts. -/
def edgeKernel : Kernel := (edgeBoot.get edgeBoot_eq.1).1

/-- `edgeKernel` is the kernel that starts. -/
theorem edgeKernel_boot :
    osSpawnShell 2 (osInit 0 16 5 24576 shellDisk edgeMemory) 1000 = some (edgeKernel, OK) :=
  boot_get edgeBoot_eq

theorem edgeKernel_booted : Booted edgeKernel :=
  ⟨0, 16, 5, 24576, shellDisk, edgeMemory, 2, 1000, by constructor <;> decide, edgeKernel_boot⟩

/-- The system when its shell is about to read a key into the last byte of its memory. -/
def keyKernel : Kernel := edgeKernel.storeBytes 4096 ([KEYBOARD, 20479, 1].flatMap wordBytes)

/-- The shell that is about to read a key is reachable. -/
theorem keyKernel_reachable : Reachable Event.OutputSafe keyKernel := by
  refine Reachable.step (e := .user (edgeKernel.memory.copyIn 4096 ([KEYBOARD, 20479, 1].flatMap
      wordBytes))) (Reachable.boot edgeKernel_booted) Event.outputSafe_user
    (Step.storeBytes fun page h1 h2 => ?_)
  obtain rfl : page = 1 := le_antisymm (le_trans h2 (by decide +kernel)) h1
  decide +kernel

/-- The call of `os_read`, while no key is pressed. -/
def keyEvent : Event := .syscall 2 5 4096 4096 20480 []

/-- The system after the call. -/
def afterKeyKernel : Kernel :=
  (syscallHandler 2 keyKernel 5 4096 4096 20480 []).get
    (by decide +kernel)

/-- The shell reads a key. -/
theorem afterKeyKernel_step : Step keyKernel keyEvent afterKeyKernel :=
  Step.syscall (Option.some_get _).symm

/-- The arguments of the call. -/
def keyArguments : CallArguments := readArguments (keyEvent.calling keyKernel).memory 4096

/-- The call returns 1. -/
theorem keyEvent_returns : keyEvent.Returns keyKernel 2 5 keyArguments 1 := by
  have hok : (dispatch 2 (keyEvent.calling keyKernel) keyKernel.currentProcess 5 4096 []).map
      Prod.snd = some 1 := by decide +kernel
  obtain ⟨⟨k', r⟩, heq, rfl⟩ := Option.map_eq_some_iff.mp hok
  exact ⟨rfl, rfl, rfl, k', heq⟩

/-- The theorem, for this read of a key in a buffer of one byte. -/
theorem readConfined_key :
    ReadConfined keyKernel.heapLimit (keyKernel.process keyKernel.currentProcess) keyArguments.arg1
        keyArguments.arg2 1 keyKernel.memory afterKeyKernel.memory ↔
      ∀ c, keyRead keyArguments.arg0 keyEvent.keys = some c → ∀ j, 1 ≤ j → j < 8 →
        keyKernel.memory (keyArguments.arg1 + j) = UInt8.ofNat (c / 256 ^ j) :=
  readConfined_iff keyKernel_reachable afterKeyKernel_step keyEvent_returns (by decide)

/-- Reading a key into the last byte of the memory of the system changes the byte after it. -/
theorem not_readConfined :
    ¬ ∀ (k k' : Kernel) (e : Event) (n r : Nat) (a : CallArguments), Reachable Event.OutputSafe k →
      WellFormed k.disk.io → Step k e k' → e.Returns k n 5 a r → r < 2 ^ 56 →
      ReadConfined k.heapLimit (k.process k.currentProcess) a.arg1 a.arg2 r k.memory k'.memory := by
  intro hall
  have hwf : WellFormed keyKernel.disk.io := by
    have hio : keyKernel.disk.io = shellDisk.io := osSpawnShell_io rfl edgeKernel_boot
    rw [hio]
    exact ⟨_, shellDisk_describes⟩
  have hconf := hall _ _ _ _ _ _ keyKernel_reachable hwf afterKeyKernel_step keyEvent_returns
    (by decide)
  have hsame := hconf.memory 20480 (by decide +kernel) (Or.inr (by decide +kernel))
  have hbefore : keyKernel.memory 20480 = 1 := by decide +kernel
  have hafter : afterKeyKernel.memory 20480 = 0 := by decide +kernel
  rw [hbefore, hafter] at hsame
  exact absurd hsame (by decide)

end Toys.Os
