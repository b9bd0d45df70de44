import Mathlib
import Toys.FileSystem.Cursor
import Toys.Os.Bound
import Toys.Os.ReadCall

namespace Toys.Os

open Toys.Lib Toys.FileSystem

/-!
# Kernel — reading a file through a stream

A process opens a file and reads it with successive calls of `os_read`, changing its own
memory as it wants between the calls.

* `Event.Opens`, `Event.Reads`, `ReadRun` — the file is opened, and read in several calls;
* `osOpen_read`, `osRead_file` — the two system calls, in the mode `MODE_READ`;
* `ReadRun.refines` — the run computes the reads of `readsFrom`;
* `sequentialReads_iff` — when the bytes delivered are those of the file, in order.
-/

/-! ### Runs of reads -/

/-- A call of `os_read`, with its result and the memory before and after it. -/
structure ReadCall where
  buffer : Nat
  size : Nat
  result : Nat
  before : ByteMem
  after : ByteMem

/-- The bytes that the call delivers. -/
def ReadCall.data (c : ReadCall) : List UInt8 := c.after.slice c.buffer c.result

/-- The call stores as many bytes as it returns, at most as many as it was asked for, and
    changes nothing else in the memory from `limit` on. -/
def ReadCall.Exact (limit : Nat) (c : ReadCall) : Prop :=
  c.result ≤ c.size ∧
    ∀ j, limit ≤ j → (j < c.buffer ∨ c.buffer + c.result ≤ j) → c.after j = c.before j

/-- The event opens the existing or new file `name` in mode `mode`, as the stream `streamId`. -/
def Event.Opens (k : Kernel) (mode : Nat) (name : List UInt8) (streamId : Nat) (e : Event) : Prop :=
  ∃ n a, e.Returns k n 4 a streamId ∧ streamId < 2 ^ 56 ∧ a.arg2 = mode ∧ a.arg1 ≠ 0 ∧
    name = (e.calling k).memory.slice a.arg0 a.arg1

/-- The event is a call of `os_read` on the stream `streamId`, with the arguments `a`, that
    asks for at least one byte in a buffer of the process. -/
def Event.Reads (k : Kernel) (streamId : Nat) (a : CallArguments) (e : Event) : Prop :=
  match e with
  | syscall _ id args _ _ _ => id = 5 ∧ a = readArguments (e.calling k).memory args.toNat ∧
      processContainsBuffer ((e.calling k).process k.currentProcess) args.toNat 24 ∧
      processContainsBuffer ((e.calling k).process k.currentProcess) a.arg1 a.arg2 ∧
      a.arg0 = streamId ∧ 1 ≤ a.arg2
  | _ => False

/-- The same event, with another bound for the loops of the kernel. -/
def Event.withBound (n : Nat) : Event → Event
  | syscall _ id args returnAddress stackPointer keys =>
    syscall n id args returnAddress stackPointer keys
  | e => e

/-- The runs from `k₁` of a process that reads the stream `streamId`. -/
inductive ReadRun (streamId : Nat) (k₁ : Kernel) : List ReadCall → Kernel → Prop
  | start : ReadRun streamId k₁ [] k₁
  | user {calls : List ReadCall} {k k' : Kernel} {memory : ByteMem} (h : ReadRun streamId k₁ calls k)
      (hs : Step k (.user memory) k') : ReadRun streamId k₁ calls k'
  | read {calls : List ReadCall} {k k' : Kernel} {e : Event} {n r : Nat} {a : CallArguments}
      (h : ReadRun streamId k₁ calls k) (hreads : e.Reads k streamId a) (hs : Step k e k')
      (hr : e.Returns k n 5 a r) :
      ReadRun streamId k₁ (calls ++ [⟨a.arg1, a.arg2, r, k.memory, k'.memory⟩]) k'

variable {n base i r : Nat} {k k' k₁ : Kernel} {f : Frame} {fs : List Frame} {e : Event}
  {L : Layout} {g : FileLayout} {name : List UInt8} {a : CallArguments}

/-! ### Opening a file -/

/-- Opening a file to read it finds it on the disk. -/
theorem osOpenFile_read {process stream file : Nat}
    (hrun : osOpenFile n k process stream name MODE_READ = some (k', .ok, file)) :
    ∃ disk previous, diskFindFile n k.disk name 0 = some (disk, file, previous) ∧ file ≠ 0 ∧
      k' = { k with
        disk := diskReadBlockBuffer disk file
        memory := setCurrentOffset k.memory stream
          (U64.add 24 (diskReadBlockBuffer disk file).blockBuffer.nameLength) } := by
  unfold osOpenFile at hrun
  cases hfind : diskFindFile n k.disk name 0 with
  | none => simp [hfind] at hrun
  | some q =>
    obtain ⟨disk, found, previous⟩ := q
    simp only [hfind, if_true] at hrun
    by_cases h0 : found = 0
    · rw [if_pos h0] at hrun
      simp at hrun
    rw [if_neg h0] at hrun
    cases hopen : processCanOpen n k.memory process found MODE_READ with
    | none => simp [hopen] at hrun
    | some b =>
      cases b with
      | false => simp [hopen] at hrun
      | true =>
        simp only [hopen, Option.some.injEq, Prod.mk.injEq, true_and] at hrun
        obtain ⟨hk, rfl⟩ := hrun
        exact ⟨disk, previous, rfl, h0, hk.symm⟩

/-- The stream of a file that was just opened. -/
def openedStream (g : FileLayout) : StreamState := ⟨MODE_READ, g.first, g.first, 24 + g.name.length⟩

/-- The end of `os_open` for a file that is read: its offset was set before. -/
theorem Framed.openStream_read {s : StreamState} (h : Framed k base (f :: fs))
    (hs : f.streams[i]? = some s) (hfirst : g.first < 2 ^ 64) (hname : 24 + g.name.length < 2 ^ 64) :
    ∃ memory, osOpenStream { k with
          memory := setCurrentOffset k.memory (f.streamAddress i) (24 + g.name.length) }
          (f.streamAddress i) (i + 4) MODE_READ g.first = ({ k with memory := memory }, i + 4) ∧
      Framed { k with memory := memory } base (f.setStream i (openedStream g) :: fs) ∧
      ∀ j, (j < base ∨ k.heapLimit ≤ j) → memory j = k.memory j := by
  obtain ⟨hge, hle⟩ := h.streamAddress_bounds hs
  have hheap := h.heap_le
  have hframed₁ : Framed { k with
      memory := setCurrentOffset k.memory (f.streamAddress i) (24 + g.name.length) } base
      (f.setStream i { s with currentOffset := 24 + g.name.length } :: fs) := by
    refine h.setStream hs (fun next hnext => ?_) fun j h1 h2 h3 => ?_
    · rw [readStream_setCurrentOffset, hnext, Nat.mod_eq_of_lt hname]
      rfl
    · exact ByteMem.store_of_not_mem (by omega)
  obtain ⟨memory, hk, hframed, hmem⟩ := @Framed.openStream _ _ _ _ hframed₁ i (i + 4) g.first
    MODE_READ _ (Frame.getElem?_setStream hs) (by decide)
  rw [Frame.streamAddress_setStream] at hk
  rw [Frame.setStream_setStream, Nat.mod_eq_of_lt hfirst] at hframed
  refine ⟨memory, hk, hframed, fun j hj => (hmem j hj).trans ?_⟩
  exact ByteMem.store_of_not_mem (by omega)

/-- Opening a file to read it gives a stream at the start of its content. -/
theorem osOpen_read {address length : Nat} {io : BlockIo} {block : DiskBlock}
    (h : Framed k base (f :: fs)) (hdisk : k.disk = ⟨io, block⟩) (hL : Describes io L)
    (hr : io.readErrors = [])
    (hrun : osOpen n k address length MODE_READ = some (k', r)) (hlength : length ≠ 0)
    (hok : r < 2 ^ 56) :
    ∃ i f' buffer g, r = i + 4 ∧ Framed k' base (f' :: fs) ∧ f'.address = f.address ∧
      k'.disk = ⟨io, buffer⟩ ∧ k'.heapLimit = k.heapLimit ∧ g ∈ L.files ∧
      g.name = k.memory.slice address length ∧ f'.streams[i]? = some (openedStream g) := by
  have herror : ∀ status, status ≠ .ok → ¬ errorResult status < 2 ^ 56 := fun status hstatus =>
    not_lt.mpr (errorResult_ge hstatus)
  cases osOpen_cases h hrun with
  | rejected => exact absurd hok (herror _ (by decide))
  | full => exact absurd hok (herror _ (by decide))
  | listWritten hempty => exact absurd hempty hlength
  | list hempty => exact absurd hempty hlength
  | failed hstatus => exact absurd hok (herror _ hstatus)
  | @opened k₁ result heap i first memory f' s hopen hresult =>
    obtain ⟨disk, previous, hfind, hfirst0, rfl⟩ := osOpenFile_read hopen.run
    simp only [hdisk, diskReadBlockBuffer_eq hr hL.super_lt] at hfind hresult
    -- the file is in the list
    have hfind := diskFindFile_mono hfind (le_max_left n io.numBlocks)
    obtain ⟨buffer', heq⟩ := @diskFindFile_eq _ (io.blocks SUPER_BLOCK) _ _ hL hr
      (le_max_right n io.numBlocks) (k.memory.slice address length) 0
    rw [heq, Option.some_inj, Prod.mk.injEq, Prod.mk.injEq] at hfind
    obtain ⟨rfl, rfl, -⟩ := hfind
    cases hat : fileAt (k.memory.slice address length) L.files with
    | none => exact absurd (by rw [hat]; rfl) hfirst0
    | some g =>
      obtain ⟨hg, hname⟩ := (fileAt_eq_some_iff hL.sorted).mp hat
      have hfirst := hL.first_lt hg
      simp only [hat, Option.map_some, Option.getD_some, diskReadBlockBuffer_eq hr hfirst.2,
        (hL.files_ok g hg).nameLength_eq] at hresult
      have hnameLe := (hL.files_ok g hg).name_le
      rw [U64.add_eq (by omega)] at hresult
      have hsize := io.size_le
      obtain ⟨memory', hk', hframed', -⟩ := (hopen.framed_disk ⟨io, io.blocks g.first⟩).openStream_read
        (g := g) hopen.stream (by omega) (by omega)
      rw [hk', Prod.mk.injEq] at hresult
      obtain ⟨rfl, rfl⟩ := hresult
      exact ⟨i, _, _, g, rfl, hframed', hopen.extended.address_eq, rfl, rfl, hg, hname,
        Frame.getElem?_setStream hopen.stream⟩

/-! ### Reading the file -/

/-- The stream that is found for the identifier of a stream of the current process. -/
theorem Framed.getFileStream_eq {stream : Nat} (h : Framed k base (f :: fs))
    (hi : i < f.streams.length)
    (hget : processGetFileStream n k.memory k.currentProcess (i + 4) = some stream) :
    stream = f.streamAddress i := by
  have hcurrent : k.currentProcess = f.address := h.current
  have hheap := h.heap_le
  have hlimit := h.limit_lt
  have heq := processGetFileStream_eq (n := max n (f.streams.length + 1)) h.frames h.base_pos
    (by omega) hi (by omega)
  have hmono : processGetFileStream (max n (f.streams.length + 1)) k.memory f.address (i + 4) =
      some stream := processGetFileStreamLoop_mono (by omega) (hcurrent ▸ hget)
  rw [heq, Option.some_inj] at hmono
  exact hmono.symm

/-- `os_read` ends only if it finds the stream. -/
theorem osRead_getFileStream {streamId buffer size : Nat} {keys : List (Option UInt32)}
    {q : Kernel × Nat} (hid : ¬ streamId < FIRST_FILE_STREAM_ID) (hsize : 1 ≤ size)
    (hbuffer : processContainsBuffer (k.process k.currentProcess) buffer size = true)
    (hrun : osRead n k streamId buffer size keys = some q) :
    ∃ stream, processGetFileStream n k.memory k.currentProcess streamId = some stream := by
  have hargs : ¬ (size = 0 ∨ ¬ processContainsBuffer (k.process k.currentProcess) buffer size = true) := by
    rintro (h0 | hc)
    · omega
    · exact hc hbuffer
  simp only [osRead] at hrun
  rw [if_neg hargs, if_neg hid] at hrun
  cases hget : processGetFileStream n k.memory k.currentProcess streamId with
  | none => simp [hget] at hrun
  | some stream => exact ⟨stream, rfl⟩

/-- `os_read` on a file. -/
theorem osRead_file {buffer size : Nat} {keys : List (Option UInt32)} {s : StreamState}
    (h : Framed k base (f :: fs)) (hs : f.streams[i]? = some s) (hmode : s.mode = MODE_READ)
    (hsize : 1 ≤ size) (hbuffer : processContainsBuffer f.process buffer size = true)
    (hget : processGetFileStream n k.memory k.currentProcess (i + 4) = some (f.streamAddress i)) :
    osRead n k (i + 4) buffer size keys =
      (diskReadFile n k.disk s.currentBlock s.currentOffset size).map fun q =>
        ({ k with
            disk := q.1
            memory := setCurrentOffset (setCurrentBlock (k.memory.copyIn buffer q.2.data)
              (f.streamAddress i) q.2.block) (f.streamAddress i) q.2.offset },
          U64.sub size q.2.missing) := by
  obtain ⟨next, hread⟩ := h.read hs
  obtain ⟨hge, -⟩ := h.streamAddress_bounds hs
  have hpos := h.base_pos
  have hid : ¬ i + 4 < FIRST_FILE_STREAM_ID := by
    unfold FIRST_FILE_STREAM_ID
    omega
  have hrecord : (s.record next).mode = MODE_READ := hmode
  have hargs : ¬ (size = 0 ∨ ¬ processContainsBuffer f.process buffer size = true) := by
    rintro (h0 | hc)
    · omega
    · exact hc hbuffer
  simp only [osRead, h.process_eq, hget, hread]
  rw [if_neg hargs, if_neg hid,
    if_neg (by rw [hrecord]; exact not_or.mpr ⟨by omega, by decide⟩),
    if_neg (by rw [hrecord]; decide), if_neg (not_not_intro hrecord)]
  have hblock : (s.record next).currentBlock = s.currentBlock := rfl
  have hoffset : (s.record next).currentOffset = s.currentOffset := rfl
  rw [hblock, hoffset]
  cases diskReadFile n k.disk s.currentBlock s.currentOffset size <;> rfl

/-- `os_read` on a file of which `rest` remains to be read. -/
theorem osRead_cursor {io : BlockIo} {block : DiskBlock} {buffer size : Nat}
    {keys : List (Option UInt32)} {s : StreamState} {rest : List UInt8} (hL : Describes io L)
    (hio : io.readErrors = []) (hg : g ∈ L.files) (h : Framed k base (f :: fs))
    (hdisk : k.disk = ⟨io, block⟩) (hs : f.streams[i]? = some s) (hmode : s.mode = MODE_READ)
    (hcursor : Cursor io g s.currentBlock s.currentOffset rest) (hsize : 1 ≤ size)
    (hbuffer : processContainsBuffer f.process buffer size = true)
    (hrun : osRead n k (i + 4) buffer size keys = some (k', r)) :
    ∃ s' block', Framed k' base (f.setStream i s' :: fs) ∧ s'.mode = MODE_READ ∧
      Cursor io g s'.currentBlock s'.currentOffset (readFrom (lastSize io g) rest size).2 ∧
      k'.disk = ⟨io, block'⟩ ∧ k'.heapLimit = k.heapLimit ∧
      r = (readFrom (lastSize io g) rest size).1.length ∧
      k'.memory.slice buffer r = (readFrom (lastSize io g) rest size).1 ∧
      ∀ j, k.heapLimit ≤ j → (j < buffer ∨ buffer + r ≤ j) → k'.memory j = k.memory j := by
  have hid : ¬ i + 4 < FIRST_FILE_STREAM_ID := by
    unfold FIRST_FILE_STREAM_ID
    omega
  have hlen := (List.getElem?_eq_some_iff.mp hs).1
  have hbuffer' : processContainsBuffer (k.process k.currentProcess) buffer size = true := by
    rw [h.process_eq]
    exact hbuffer
  obtain ⟨hge, -, hend⟩ := (processContainsBuffer_iff h.fits).mp hbuffer
  have hend64 := h.fits.end_
  obtain ⟨stream, hget⟩ := osRead_getFileStream hid hsize hbuffer' hrun
  obtain rfl := h.getFileStream_eq hlen hget
  rw [osRead_file h hs hmode hsize hbuffer hget, hdisk] at hrun
  obtain ⟨q, hread, heq⟩ := Option.map_eq_some_iff.mp hrun
  obtain ⟨buffer', result, hread', hdata, hmissing, hcursor'⟩ := hcursor.read block size
    hL hio hg (le_max_right n io.numBlocks)
  have hmono := diskReadFile_mono hread (le_max_left n io.numBlocks)
  rw [hread', Option.some_inj] at hmono
  subst hmono
  simp only [Prod.mk.injEq] at heq
  obtain ⟨rfl, hr⟩ := heq
  obtain ⟨hblock, hoffset⟩ := hcursor'.lt
  obtain ⟨hframed, hmem⟩ := h.readFile ⟨io, buffer'⟩ result hs hge
  rw [Nat.mod_eq_of_lt hblock, Nat.mod_eq_of_lt hoffset] at hframed
  -- the result is the number of bytes delivered
  have hr' : r = result.data.length := by
    have hlength := (diskReadFileLoop_afterReads hread').2
    simp only [List.length_nil] at hlength
    rw [← hr, hmissing, U64.sub_eq (by omega) (by omega), hdata, readFrom_fst, List.length_take]
    omega
  rw [← hdata]
  refine ⟨_, buffer', hframed, hmode, hcursor', rfl, rfl, hr', ?_, fun j h1 h2 => ?_⟩
  · have hbegin := h.begin_ge f (by simp)
    have hbounds := h.streamAddress_bounds hs
    have hheap := h.heap_le
    rw [hr']
    refine (ByteMem.slice_congr fun j h1 h2 => ?_).trans
      (ByteMem.slice_copyIn_self k.memory buffer result.data)
    show setCurrentOffset (setCurrentBlock _ _ _) _ _ j = _
    rw [setCurrentOffset, setCurrentBlock, ByteMem.store_of_not_mem (by omega),
      ByteMem.store_of_not_mem (by omega)]
  · exact hmem j (Or.inr h1) (by rw [← hr']; exact h2)

/-- The kernel `k` during a run of reads of the file `g` through the stream `i`: `rest` remains
    to be read. -/
structure Reading (io : BlockIo) (g : FileLayout) (limit base i : Nat) (rest : List UInt8)
    (k : Kernel) : Prop where
  disk : ∃ block, k.disk = ⟨io, block⟩
  heapLimit : k.heapLimit = limit
  framed : ∃ f fs s, Framed k base (f :: fs) ∧ f.streams[i]? = some s ∧ s.mode = MODE_READ ∧
    Cursor io g s.currentBlock s.currentOffset rest

/-- The system call `os_read` is the one that is dispatched. -/
theorem Event.Reads.dispatch_eq {streamId : Nat} {id args returnAddress stackPointer : UInt64}
    {keys : List (Option UInt32)} {m : Nat}
    (h : (Event.syscall m id args returnAddress stackPointer keys).Reads k streamId a) :
    dispatch n (saveContext k returnAddress.toNat stackPointer.toNat) k.currentProcess id.toNat
        args.toNat keys =
      osRead n (saveContext k returnAddress.toNat stackPointer.toNat) streamId a.arg1 a.arg2 keys := by
  obtain ⟨rfl, ha, hargs, -, rfl, -⟩ := h
  have hid : (5 : UInt64).toNat = 5 := rfl
  rw [hid, dispatch, if_pos ⟨by decide, hargs⟩, ha]
  rfl

/-- One call of `os_read` in a run of reads. -/
theorem Reading.read {io : BlockIo} {limit : Nat} {rest : List UInt8} (hL : Describes io L)
    (hio : io.readErrors = []) (hg : g ∈ L.files) (h : Reading io g limit base i rest k)
    (hreads : e.Reads k (i + 4) a) (hs : Step k e k') (hr : e.Returns k n 5 a r) :
    Reading io g limit base i (readFrom (lastSize io g) rest a.arg2).2 k' ∧
      ReadCall.data ⟨a.arg1, a.arg2, r, k.memory, k'.memory⟩ =
        (readFrom (lastSize io g) rest a.arg2).1 ∧
      ReadCall.Exact limit ⟨a.arg1, a.arg2, r, k.memory, k'.memory⟩ := by
  obtain ⟨⟨block, hdisk⟩, hlimit, f, fs, s, hframed, hstream, hmode, hcursor⟩ := h
  cases e with
  | user => exact hr.elim
  | fault => exact hr.elim
  | syscall m id args returnAddress stackPointer keys =>
    have hcaller := Event.calling_framed
      (e := .syscall m id args returnAddress stackPointer keys) hframed
    have hcalling := fun j hj => Event.calling_memory (j := j)
      (e := .syscall m id args returnAddress stackPointer keys) hframed (Or.inr hj)
    have hcurrent : k.currentProcess = f.address := hframed.current
    obtain ⟨k₁, r', hcall, rfl⟩ := hs.of_syscall
    obtain ⟨rfl, -, -, k₂, hcall'⟩ := hr
    rw [hreads.dispatch_eq] at hcall
    -- the result is the one of the event
    obtain rfl : r = r' := by
      have hdispatch := hreads.dispatch_eq (n := m)
      obtain ⟨rfl, -⟩ := hreads
      have := hcall.symm.trans (hdispatch.symm.trans hcall')
      simp only [Option.some.injEq, Prod.mk.injEq] at this
      exact this.2.symm
    obtain ⟨-, -, -, hbuffer, -, hsize⟩ := hreads
    rw [← Event.calling_currentProcess (e := .syscall m id args returnAddress stackPointer keys),
      hcaller.process_eq] at hbuffer
    obtain ⟨hge, -, hend⟩ := (processContainsBuffer_iff hcaller.fits).mp hbuffer
    have hbegin := hcaller.begin_ge _ List.mem_cons_self
    obtain ⟨s', block', hframed₁, hmode', hcursor', hdisk', hlimit', hr', hslice, hmem⟩ :=
      osRead_cursor hL hio hg hcaller hdisk hstream hmode hcursor hsize hbuffer hcall
    have hframed₂ := @Framed.setResult _ _ _ f.address r hframed₁
      (Or.inr ⟨_, List.mem_cons_self, rfl⟩)
    -- the result is stored in the memory of the kernel
    have hresult : ∀ j, limit ≤ j → setSavedR8 k₁.memory k.currentProcess r j = k₁.memory j := by
      intro j hj
      rw [hcurrent]
      exact hframed.setSavedR8_of_not_mem List.mem_cons_self (Or.inr (hlimit ▸ hj))
    have hle : limit ≤ a.arg1 := by
      rw [← hlimit]
      exact hbegin.trans hge
    refine ⟨⟨⟨block', hdisk'⟩, hlimit'.trans hlimit, _, _, s', hcurrent ▸ hframed₂, ?_, hmode', hcursor'⟩,
      ?_, ?_, fun j h1 h2 => ?_⟩
    · rw [Frame.withResult_streams]
      exact Frame.getElem?_setStream hstream
    · rw [← hslice]
      exact ByteMem.slice_congr fun j h1 h2 => hresult j (hle.trans h1)
    · rw [hr', readFrom_fst, List.length_take]
      exact Nat.min_le_left _ _
    · show setSavedR8 k₁.memory k.currentProcess r j = k.memory j
      rw [hresult j h1, hmem j (le_of_eq_of_le hlimit h1) h2, hcalling j (le_of_eq_of_le hlimit h1)]

/-- A program does not change what its stream reads. -/
theorem Reading.user {io : BlockIo} {limit : Nat} {rest : List UInt8} {memory : ByteMem}
    (h : Reading io g limit base i rest k) (hsafe : Event.KernelSafe k (.user memory))
    (hs : Step k (.user memory) k') : Reading io g limit base i rest k' := by
  obtain ⟨hdisk, hlimit, f, fs, s, hframed, hstream, hmode, hcursor⟩ := h
  have hheap := hframed.heap_le
  cases hs with
  | user =>
    exact ⟨hdisk, hlimit, f, fs, s, hframed.congr fun j _ hj => hsafe j (by omega), hstream, hmode,
      hcursor⟩

/-! ### The run -/

/-- The states of a run of reads are reachable. -/
theorem ReadRun.reachable {streamId : Nat} {calls : List ReadCall} (h : ReadRun streamId k₁ calls k)
    (hk : Reachable Event.OutputSafe k₁) : Reachable Event.OutputSafe k := by
  induction h with
  | start => exact hk
  | user _ hs ih => exact Reachable.step ih Event.outputSafe_user hs
  | read _ _ hs hr ih => exact Reachable.step ih (hr.outputSafe (by decide)) hs

/-- A run of reads delivers what the reads of `readsFrom` deliver. -/
theorem ReadRun.refines {io : BlockIo} {limit : Nat} {rest : List UInt8} {calls : List ReadCall}
    (hL : Describes io L) (hio : io.readErrors = []) (hg : g ∈ L.files)
    (h : ReadRun (i + 4) k₁ calls k) (hreach : Reachable Event.OutputSafe k₁)
    (hk : Reading io g limit base i rest k₁) :
    Reading io g limit base i (remaining (lastSize io g) rest (calls.map ReadCall.size)) k ∧
      calls.map ReadCall.data = readsFrom (lastSize io g) rest (calls.map ReadCall.size) ∧
      ∀ c ∈ calls, 1 ≤ c.size ∧ c.Exact limit := by
  induction h with
  | start => exact ⟨hk, rfl, by simp⟩
  | user h hs ih =>
    obtain ⟨hreading, hcalls⟩ := ih
    -- the pages of the kernel are not accessible
    obtain ⟨-, _, _, _, _, _, hmod, hpages⟩ := (h.reachable hreach).kernelSafe
    have hsafe := Event.outputSafe_user.kernelSafe hs hmod hpages
    exact ⟨hreading.user hsafe hs, hcalls⟩
  | @read calls k k' e n r a h hreads hs hr ih =>
    obtain ⟨hreading, hdata, hcalls⟩ := ih
    obtain ⟨hreading', hdata', hexact⟩ := hreading.read hL hio hg hreads hs hr
    have hsize : 1 ≤ a.arg2 := by
      cases e with
      | syscall => exact hreads.2.2.2.2.2
      | user => exact hr.elim
      | fault => exact hr.elim
    rw [List.map_append, List.map_append, List.map_singleton, List.map_singleton]
    refine ⟨?_, ?_, ?_⟩
    · rw [remaining_concat]
      exact hreading'
    · rw [readsFrom_concat, hdata, hdata']
    · intro c hc
      rcases List.mem_append.mp hc with hc | hc
      · exact hcalls c hc
      · obtain rfl := List.mem_singleton.mp hc
        exact ⟨hsize, hexact⟩

/-- `os_read` on a file ends, within any bound from a certain one on. -/
theorem osRead_ends {io : BlockIo} {block : DiskBlock} {buffer size : Nat}
    (keys : List (Option UInt32)) {s : StreamState} {rest : List UInt8} (hL : Describes io L)
    (hio : io.readErrors = []) (hg : g ∈ L.files) (h : Framed k base (f :: fs))
    (hdisk : k.disk = ⟨io, block⟩) (hs : f.streams[i]? = some s) (hmode : s.mode = MODE_READ)
    (hcursor : Cursor io g s.currentBlock s.currentOffset rest) (hsize : 1 ≤ size)
    (hbuffer : processContainsBuffer f.process buffer size = true)
    (hn : max io.numBlocks (f.streams.length + 1) ≤ n) :
    ∃ q, osRead n k (i + 4) buffer size keys = some q := by
  have hi := (List.getElem?_eq_some_iff.mp hs).1
  have hheap := h.heap_le
  have hlimit := h.limit_lt
  have hcurrent : k.currentProcess = f.address := h.current
  have hget := processGetFileStream_eq (n := n) h.frames h.base_pos (by omega) hi (by omega)
  rw [← hcurrent] at hget
  obtain ⟨buffer', r, hfile, -⟩ := hcursor.read block size hL hio hg
    ((le_max_left _ _).trans hn)
  rw [osRead_file h hs hmode hsize hbuffer hget, hdisk, hfile]
  exact ⟨_, rfl⟩

/-- A read of the stream ends. -/
theorem Reading.read_ends {io : BlockIo} {limit : Nat} {rest : List UInt8} (hL : Describes io L)
    (hio : io.readErrors = []) (hg : g ∈ L.files) (h : Reading io g limit base i rest k)
    (hreads : e.Reads k (i + 4) a) : ∃ N, ∀ n ≥ N, ∃ k', Step k (e.withBound n) k' := by
  obtain ⟨⟨block, hdisk⟩, -, f, fs, s, hframed, hstream, hmode, hcursor⟩ := h
  refine ⟨max io.numBlocks (f.streams.length + 1), fun n hn => ?_⟩
  cases e with
  | user => exact hreads.elim
  | fault => exact hreads.elim
  | syscall m id args returnAddress stackPointer keys =>
    have hcaller := Event.calling_framed
      (e := .syscall m id args returnAddress stackPointer keys) hframed
    have hdispatch := hreads.dispatch_eq (n := n)
    obtain ⟨-, -, -, hbuffer, -, hsize⟩ := hreads
    rw [← Event.calling_currentProcess (e := .syscall m id args returnAddress stackPointer keys),
      hcaller.process_eq] at hbuffer
    obtain ⟨q, hq⟩ := osRead_ends keys hL hio hg hcaller hdisk hstream hmode hcursor hsize
      hbuffer hn
    have hq' : osRead n (saveContext k returnAddress.toNat stackPointer.toNat) (i + 4) a.arg1 a.arg2
      keys = some q := hq
    refine ⟨{ q.1 with memory := setSavedR8 q.1.memory k.currentProcess q.2 }, Step.syscall ?_⟩
    simp only [syscallHandler, hdispatch, hq']

/-- The state in which a file was just opened to be read. -/
theorem Event.Opens.reading {io : BlockIo} {block : DiskBlock} {streamId : Nat} (hL : Describes io L)
    (hio : io.readErrors = []) (h : Framed k base (f :: fs)) (hdisk : k.disk = ⟨io, block⟩)
    (hs : Step k e k') (hopen : e.Opens k MODE_READ name streamId) :
    ∃ i g, streamId = i + 4 ∧ g ∈ L.files ∧ g.name = name ∧
      Reading io g k.heapLimit base i (fileContent io.blocks g) k' := by
  obtain ⟨n, a, hr, hok, hmode, hlength, rfl⟩ := hopen
  have hcaller := Event.calling_framed (e := e) h
  have hcurrent : k.currentProcess = f.address := h.current
  obtain ⟨k₁, rfl, hcall⟩ := hs.of_returns hr
  have hopen : osOpen n (e.calling k) a.arg0 a.arg1 MODE_READ = some (k₁, streamId) := by
    rw [← hmode]
    refine hcall.resolve_right fun hc => ?_
    rw [hc.2] at hok
    exact absurd hok (by decide)
  have hdisk' : (e.calling k).disk = ⟨io, block⟩ := by rw [Event.calling_disk, hdisk]
  obtain ⟨i, f', buffer, g, rfl, hframed, haddress, hdisk₁, hlimit, hg, hname, hstream⟩ :=
    osOpen_read hcaller hdisk' hL hio hopen hlength hok
  have hframed' := @Framed.setResult _ _ _ f'.address (i + 4) hframed
    (Or.inr ⟨_, List.mem_cons_self, rfl⟩)
  rw [haddress, Event.caller_address, ← hcurrent] at hframed'
  refine ⟨i, g, rfl, hg, hname, ⟨buffer, hdisk₁⟩, hlimit.trans Event.calling_heapLimit, _, _,
    openedStream g, hframed', ?_, rfl, Cursor.start hL hg⟩
  rw [Frame.withResult_streams]
  exact hstream

/-- Successive reads of a file that was just opened deliver its bytes in order, each of them
    once, exactly when no read follows one that reaches beyond the end of the file; every read
    ends, and returns the number of bytes that it delivers. -/
theorem sequentialReads_iff {k₂ : Kernel} {m : Files} {c : List UInt8} {last streamId : Nat}
    {calls : List ReadCall} (h : Reachable Event.OutputSafe k) (hm : Represents k.disk.io m)
    (hio : k.disk.io.readErrors = []) (hs : Step k e k₁) (hopen : e.Opens k MODE_READ name streamId)
    (hc : m.lookup name = some c) (hlast : LastSize k.disk.io name last)
    (hrun : ReadRun streamId k₁ calls k₂) :
    (((calls.map ReadCall.data).flatten = c.take (calls.map ReadCall.size).sum ∧
        ∀ call ∈ calls, call.Exact k.heapLimit) ↔
      ReadsFit last c.length (calls.map ReadCall.size)) ∧
    ∀ (e : Event) (a : CallArguments), e.Reads k₂ streamId a → ∃ N, ∀ n ≥ N, ∃ k₃, Step k₂ (e.withBound n) k₃ := by
  obtain ⟨-, base, f, fs, hframed, -⟩ := h.kernelSafe
  obtain ⟨L, hL, rfl⟩ := hm
  have hopened : e.OutputSafe k := by
    obtain ⟨n, a, hr, -⟩ := hopen
    exact hr.outputSafe (by decide)
  obtain ⟨i, g, rfl, hg, rfl, hreading⟩ := hopen.reading hL hio hframed rfl hs
  obtain ⟨L', hL', g', hg', hname, rfl⟩ := hlast
  obtain rfl := hL.unique hL'
  -- the name determines the file
  obtain rfl : g = g' := by
    have hat := (fileAt_eq_some_iff hL.sorted).mpr ⟨hg, rfl⟩
    have hat' := (fileAt_eq_some_iff hL.sorted).mpr ⟨hg', hname⟩
    rw [hat, Option.some_inj] at hat'
    exact hat'
  rw [lookup_imageFiles hL.namesNodup hg, Option.some_inj] at hc
  obtain ⟨hreading₂, hdata, hcalls⟩ := hrun.refines hL hio hg (Reachable.step h hopened hs) hreading
  refine ⟨?_, fun e a hreads => hreading₂.read_ends hL hio hg hreads⟩
  rw [hdata, hc, readsFrom_flatten_iff fun size hsize => ?_]
  · exact and_iff_left fun call hcall => (hcalls call hcall).2
  · obtain ⟨call, hcall, rfl⟩ := List.mem_map.mp hsize
    exact (hcalls call hcall).1

/-! ### A short read followed by another one -/

/-- A disk with one file of two bytes, called "shell". -/
def dataDisk : Disk where
  io :=
    { numBlocks := 2
      blocks := fun b =>
        if b = 0 then (DiskBlock.setNextBlock ⟨fun _ => 0⟩ 512).setNextFile 1
        else (setBlockSize (newFileBlock ⟨fun _ => 0⟩ [115, 104, 101, 108, 108] 0) 31).write 29 [7, 8]
      readErrors := []
      size_le := two_blocks_le }
  blockBuffer := ⟨fun _ => 0⟩

/-- The disk is well-formed: the shell is its only file. -/
theorem dataDisk_describes :
    Describes dataDisk.io ⟨[], [⟨[115, 104, 101, 108, 108], 1, []⟩]⟩ where
  super_lt := by decide
  free_path := by decide +kernel
  free_end := by decide +kernel
  files_path := by decide +kernel
  files_ok := by
    intro f hf
    obtain rfl : f = ⟨[115, 104, 101, 108, 108], 1, []⟩ := by simpa using hf
    exact {
      chain := by decide +kernel
      name_eq := by decide +kernel
      name_pos := by decide
      name_le := by simp
      name_chars := by simp
      size_ge := by decide +kernel
      size_le := by decide +kernel }
  sorted := by simp
  partition := List.Perm.refl _

/-- The start of the kernel on this disk. -/
def dataBoot : Option (Kernel × Nat) :=
  osSpawnShell 2 (osInit 0 16 5 24576 dataDisk shellMemory) 1000

theorem dataBoot_eq : dataBoot.isSome ∧ dataBoot.map Prod.snd = some OK := by decide +kernel

/-- The system with this disk when its shell starts. -/
def dataKernel : Kernel := (dataBoot.get dataBoot_eq.1).1

/-- `dataKernel` is the kernel that starts. -/
theorem dataKernel_boot :
    osSpawnShell 2 (osInit 0 16 5 24576 dataDisk shellMemory) 1000 = some (dataKernel, OK) :=
  boot_get dataBoot_eq

/-- The arguments of a call of `os_open` and of two calls of `os_read`, for 3 bytes and then
    for one byte, and the name of the file. -/
def readBytes : List UInt8 :=
  [4168, 5, MODE_READ, 4, 4200, 3, 4, 4208, 1].flatMap wordBytes ++ [115, 104, 101, 108, 108]

/-- The system when its shell is about to open the file. -/
def openingKernel : Kernel := dataKernel.storeBytes 4096 readBytes

theorem dataKernel_booted : Booted dataKernel :=
  ⟨0, 16, 5, 24576, dataDisk, shellMemory, 2, 1000, by constructor <;> decide, dataKernel_boot⟩

/-- The shell writes its arguments. -/
theorem openingKernel_step :
    Step dataKernel (.user (dataKernel.memory.copyIn 4096 readBytes)) openingKernel :=
  Step.storeBytes fun page h1 h2 => by
    obtain rfl : page = 1 := le_antisymm (le_trans h2 (by decide +kernel)) h1
    decide +kernel

/-- The shell that is about to open the file is reachable. -/
theorem openingKernel_reachable : Reachable Event.OutputSafe openingKernel :=
  Reachable.step (Reachable.boot dataKernel_booted) Event.outputSafe_user openingKernel_step

/-- Its disk is the one of the start. -/
theorem openingKernel_io : openingKernel.disk.io = dataDisk.io :=
  osSpawnShell_io rfl dataKernel_boot

/-- The call of `os_open`. -/
def openEvent : Event := .syscall 3 4 4096 4096 20480 []

/-- The call of `os_read` whose arguments are at the address `args`. -/
def readEvent (args : UInt64) : Event := .syscall 3 5 args 4096 20480 []

/-- The system when the file is open. -/
def openedKernel : Kernel :=
  (syscallHandler 3 openingKernel 4 4096 4096 20480 []).get
    (by decide +kernel)

theorem openedKernel_step : Step openingKernel openEvent openedKernel :=
  Step.syscall (Option.some_get _).symm

/-- The system after a read of 3 bytes. -/
def shortReadKernel : Kernel :=
  (syscallHandler 3 openedKernel 5 4120 4096 20480 []).get
    (by decide +kernel)

theorem shortReadKernel_step : Step openedKernel (readEvent 4120) shortReadKernel :=
  Step.syscall (Option.some_get _).symm

/-- The system after another read, of one byte. -/
def secondReadKernel : Kernel :=
  (syscallHandler 3 shortReadKernel 5 4144 4096 20480 []).get
    (by decide +kernel)

theorem secondReadKernel_step : Step shortReadKernel (readEvent 4144) secondReadKernel :=
  Step.syscall (Option.some_get _).symm

/-- The call opens the file as the stream 4. -/
theorem openEvent_opens :
    openEvent.Opens openingKernel MODE_READ [115, 104, 101, 108, 108] 4 := by
  refine ⟨3, _, ⟨rfl, rfl, rfl, ?_⟩, by decide, by decide +kernel, by decide +kernel, by decide +kernel⟩
  have hok : (dispatch 3 (openEvent.calling openingKernel) openingKernel.currentProcess 4 4096
      []).map Prod.snd = some 4 := by decide +kernel
  obtain ⟨⟨k', r⟩, heq, rfl⟩ := Option.map_eq_some_iff.mp hok
  exact ⟨k', heq⟩

/-- The calls of `os_read` in the run. -/
def shortReads : List ReadCall :=
  [⟨4200, 3, 2, openedKernel.memory, shortReadKernel.memory⟩,
    ⟨4208, 1, 1, shortReadKernel.memory, secondReadKernel.memory⟩]

/-- The two reads. -/
theorem shortReads_run : ReadRun 4 openedKernel shortReads secondReadKernel := by
  have hread : ∀ (k : Kernel) (args : UInt64) (r : Nat),
      (dispatch 3 ((readEvent args).calling k) k.currentProcess 5 args.toNat []).map Prod.snd = some r →
      (readEvent args).Returns k 3 5
        (readArguments ((readEvent args).calling k).memory args.toNat) r := by
    intro k args r hr
    obtain ⟨⟨k', r⟩, heq, rfl⟩ := Option.map_eq_some_iff.mp hr
    exact ⟨rfl, rfl, rfl, k', heq⟩
  have hfirst := hread openedKernel 4120 2 (by decide +kernel)
  have hsecond := hread shortReadKernel 4144 1 (by decide +kernel)
  have hreads : (readEvent 4120).Reads openedKernel 4
      (readArguments ((readEvent 4120).calling openedKernel).memory (4120 : UInt64).toNat) :=
    ⟨rfl, rfl, by decide +kernel, by decide +kernel, by decide +kernel, by decide +kernel⟩
  have hreads' : (readEvent 4144).Reads shortReadKernel 4
      (readArguments ((readEvent 4144).calling shortReadKernel).memory (4144 : UInt64).toNat) :=
    ⟨rfl, rfl, by decide +kernel, by decide +kernel, by decide +kernel, by decide +kernel⟩
  have hrun := (ReadRun.start.read hreads shortReadKernel_step hfirst).read hreads'
    secondReadKernel_step hsecond
  have hbuffer : (readArguments ((readEvent 4120).calling openedKernel).memory 4120).arg1 = 4200 := by
    decide +kernel
  have hsize : (readArguments ((readEvent 4120).calling openedKernel).memory 4120).arg2 = 3 := by
    decide +kernel
  have hbuffer' : (readArguments ((readEvent 4144).calling shortReadKernel).memory 4144).arg1 = 4208 := by
    decide +kernel
  have hsize' : (readArguments ((readEvent 4144).calling shortReadKernel).memory 4144).arg2 = 1 := by
    decide +kernel
  have h4120 : (4120 : UInt64).toNat = 4120 := rfl
  have h4144 : (4144 : UInt64).toNat = 4144 := rfl
  rw [h4120, h4144, hbuffer, hsize, hbuffer', hsize'] at hrun
  exact hrun

/-- The files of the disk. -/
def dataFiles : Files := imageFiles dataDisk.io.blocks [⟨[115, 104, 101, 108, 108], 1, []⟩]

/-- The disk represents the file. -/
theorem openingKernel_represents : Represents openingKernel.disk.io dataFiles := by
  rw [openingKernel_io]
  exact ⟨_, dataDisk_describes, rfl⟩

/-- The content of the file has two bytes. -/
theorem dataFiles_lookup : dataFiles.lookup [115, 104, 101, 108, 108] = some [7, 8] := by
  have hcontent : fileContent dataDisk.io.blocks ⟨[115, 104, 101, 108, 108], 1, []⟩ = [7, 8] := by
    decide +kernel
  rw [← hcontent]
  exact lookup_imageFiles dataDisk_describes.namesNodup (List.mem_singleton_self _)

/-- Both are in its last block. -/
theorem dataDisk_lastSize : LastSize openingKernel.disk.io [115, 104, 101, 108, 108] 2 := by
  rw [openingKernel_io]
  exact ⟨_, dataDisk_describes, _, List.mem_singleton_self _, rfl, by decide +kernel⟩

/-- The theorem, for these two reads: the second one starts at the end of the file. -/
theorem sequentialReads_shortReads :
    (((shortReads.map ReadCall.data).flatten = [7, 8].take (shortReads.map ReadCall.size).sum ∧
        ∀ call ∈ shortReads, call.Exact openingKernel.heapLimit) ↔
      ReadsFit 2 2 (shortReads.map ReadCall.size)) ∧
    ∀ (e : Event) (a : CallArguments), e.Reads secondReadKernel 4 a →
      ∃ N, ∀ n ≥ N, ∃ k₃, Step secondReadKernel (e.withBound n) k₃ :=
  sequentialReads_iff openingKernel_reachable openingKernel_represents (by rw [openingKernel_io]; rfl)
    openedKernel_step openEvent_opens dataFiles_lookup dataDisk_lastSize shortReads_run

/-- A file of two bytes, read with sizes 3 and 1: the second read delivers the first byte again. -/
theorem not_sequentialReads :
    ¬ ∀ (k k₁ k₂ : Kernel) (e : Event) (m : Files) (name c : List UInt8) (streamId : Nat)
        (calls : List ReadCall), Reachable Event.OutputSafe k → Represents k.disk.io m →
      k.disk.io.readErrors = [] → Step k e k₁ → e.Opens k MODE_READ name streamId →
      m.lookup name = some c → ReadRun streamId k₁ calls k₂ →
      (calls.map ReadCall.data).flatten = c.take (calls.map ReadCall.size).sum ∧
        ∀ call ∈ calls, call.Exact k.heapLimit := by
  intro hall
  obtain ⟨hdata, -⟩ := hall _ _ _ _ _ _ _ _ _ openingKernel_reachable openingKernel_represents
    (by rw [openingKernel_io]; rfl) openedKernel_step openEvent_opens dataFiles_lookup shortReads_run
  have hbytes : (shortReads.map ReadCall.data).flatten = [7, 8, 7] := by decide +kernel
  rw [hbytes] at hdata
  exact absurd hdata (by decide)

end Toys.Os
