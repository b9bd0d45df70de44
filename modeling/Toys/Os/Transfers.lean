import Mathlib
import Toys.FileSystem.Entries
import Toys.Os.Opening

namespace Toys.Os

open Toys.Lib Toys.FileSystem

/-!
# Kernel — the calls on the streams of the current process

`os_read` and `os_write` always return on these streams, and a file can be written while another one
is read.

* `osRead_position` — a read delivers the next bytes of its file;
* `osRead_entry` — or the name of the next file of a list;
* `osWrite_file`, `osWrite_appended` — a write appends to its file, and keeps the positions in the
  other files.
-/

variable {n base i j : Nat} {k : Kernel} {f : Frame} {fs : List Frame} {L : Layout} {m : Files}
  {s : StreamState} {name c rest : List UInt8} {buffer size : Nat}

/-- The stream `i` of the current process is found. -/
theorem Framed.getFileStream_isSome (h : Framed k base (f :: fs)) (hs : f.streams[i]? = some s)
    (hn : f.streams.length < n) :
    processGetFileStream n k.memory k.currentProcess (i + 4) = some (f.streamAddress i) := by
  have hi := (List.getElem?_eq_some_iff.mp hs).1
  have hheap := h.heap_le
  have hlimit := h.limit_lt
  rw [h.current]
  exact processGetFileStream_eq h.frames h.base_pos (by omega) hi hn

/-- The other streams do not change. -/
theorem Frame.getElem?_setStream_of_ne {t : StreamState} (hij : i ≠ j) :
    (f.setStream i t).streams[j]? = f.streams[j]? := by
  simp [Frame.setStream, hij]

theorem Frame.length_setStream {t : StreamState} :
    (f.setStream i t).streams.length = f.streams.length := by
  simp [Frame.setStream]

/-! ### Reading -/

/-- A buffer that is not in the memory of the process is refused. -/
theorem osRead_invalid {streamId buffer size : Nat} {keys : List (Option UInt32)}
    (h : Framed k base (f :: fs)) (hbuffer : ¬ processContainsBuffer f.process buffer size = true) :
    osRead n k streamId buffer size keys = some (k, errorResult .invalidArgument) := by
  simp only [osRead, h.process_eq]
  rw [if_pos (.inr hbuffer)]

/-- `os_read` returns, and delivers the next bytes of the file. -/
theorem osRead_position {keys : List (Option UInt32)} (h : Framed k base (f :: fs))
    (hs : f.streams[i]? = some s) (hmode : s.mode = MODE_READ)
    (hposition : Position k.disk.io name s.currentBlock s.currentOffset rest)
    (hr : k.disk.io.readErrors = []) (hn : k.disk.io.numBlocks ≤ n) (hlen : f.streams.length < n)
    (hsize : 1 ≤ size) (hbuffer : processContainsBuffer f.process buffer size = true) :
    ∃ k' s', osRead n k (i + 4) buffer size keys = some (k', min size rest.length) ∧
      Framed k' base (f.setStream i s' :: fs) ∧ s'.mode = MODE_READ ∧ k'.disk.io = k.disk.io ∧
      k'.memory.slice buffer (min size rest.length) = rest.take size ∧
      (size ≤ rest.length →
        Position k.disk.io name s'.currentBlock s'.currentOffset (rest.drop size)) := by
  have hget := h.getFileStream_isSome hs hlen
  obtain ⟨hge, -, hend⟩ := (processContainsBuffer_iff h.fits).mp hbuffer
  have hend64 := h.fits.end_
  rcases @diskReadFile_position _ k.disk.blockBuffer n _ _ _ _ hposition hr hn size with
    ⟨block, r, hread, hdata, hmissing, hnext⟩
  have hframed := h.readFile ⟨k.disk.io, block⟩ r hs hge
  have hresult : U64.sub size r.missing = min size rest.length := by
    rw [hmissing, U64.sub_eq (by omega) (by omega)]
    omega
  have hrun := @osRead_file n base i k f fs buffer size keys s h hs hmode hsize hbuffer hget
  have hdisk : diskReadFile n k.disk s.currentBlock s.currentOffset size =
      some (⟨k.disk.io, block⟩, r) := hread
  rw [hdisk, Option.map_some, hresult] at hrun
  refine ⟨_, _, hrun, hframed.1, hmode, rfl, ?_, fun hle => ?_⟩
  · have hbegin := h.begin_ge f List.mem_cons_self
    have hbounds := h.streamAddress_bounds hs
    have hheap := h.heap_le
    have hlength : r.data.length = min size rest.length := by rw [hdata, List.length_take]
    rw [← hlength, ← hdata]
    -- the position is stored on the heap of the kernel, which is below the buffer
    refine (ByteMem.slice_congr fun j h1 h2 => ?_).trans
      (ByteMem.slice_copyIn_self k.memory buffer r.data)
    show setCurrentOffset (setCurrentBlock _ _ _) _ _ j = _
    rw [setCurrentOffset, setCurrentBlock, ByteMem.store_of_not_mem (by omega),
      ByteMem.store_of_not_mem (by omega)]
  · have hposition' := hnext hle
    rcases hposition'.lt with ⟨hblock, hoffset⟩
    dsimp only
    rw [Nat.mod_eq_of_lt hblock, Nat.mod_eq_of_lt hoffset]
    exact hposition'

/-! ### Reading the names of the files -/

/-- `os_read` at the end of the list of the files. -/
theorem osRead_listEnd {keys : List (Option UInt32)} (h : Framed k base (f :: fs))
    (hs : f.streams[i]? = some s) (hmode : s.mode = MODE_LIST) (h0 : s.fileBlock = 0)
    (hlen : f.streams.length < n) (hsize : 1 ≤ size)
    (hbuffer : processContainsBuffer f.process buffer size = true) :
    osRead n k (i + 4) buffer size keys = some (k, 0) := by
  obtain ⟨next, hread⟩ := h.read hs
  obtain ⟨hge, -⟩ := h.streamAddress_bounds hs
  have hpos := h.base_pos
  have hid : ¬ i + 4 < FIRST_FILE_STREAM_ID := by
    unfold FIRST_FILE_STREAM_ID
    omega
  have hrecord : (s.record next).mode = MODE_LIST := hmode
  have hargs : ¬ (size = 0 ∨ ¬ processContainsBuffer f.process buffer size = true) := by
    rintro (hc | hc)
    · omega
    · exact hc hbuffer
  simp only [osRead, h.process_eq, h.getFileStream_isSome hs hlen, hread]
  rw [if_neg hargs, if_neg hid,
    if_neg (by rw [hrecord]; exact not_or.mpr ⟨by omega, by decide⟩), if_pos hrecord,
    if_pos (show (s.record next).fileBlock = 0 from h0)]

/-- `os_read` returns the name of the next file of the list. -/
theorem osRead_entry {keys : List (Option UInt32)} {x : List UInt8 × Nat}
    {before after : List (List UInt8 × Nat)} (h : Framed k base (f :: fs))
    (hL : Describes k.disk.io L) (hr : k.disk.io.readErrors = []) (hs : f.streams[i]? = some s)
    (hmode : s.mode = MODE_LIST) (heq : L.entries = before ++ x :: after) (hblock : s.fileBlock = x.2)
    (hlen : f.streams.length < n) (hsize : 1 ≤ size)
    (hbuffer : processContainsBuffer f.process buffer size = true) :
    ∃ k' s', osRead n k (i + 4) buffer size keys = some (k', min size x.1.length) ∧
      Framed k' base (f.setStream i s' :: fs) ∧ s'.mode = MODE_LIST ∧
      s'.fileBlock = firstAddress 0 after ∧ k'.disk.io = k.disk.io ∧ k'.heapLimit = k.heapLimit ∧
      k'.memory.slice buffer (min size x.1.length) = x.1.take size ∧
      ∀ j, k.heapLimit ≤ j → (j < buffer ∨ buffer + size ≤ j) → k'.memory j = k.memory j := by
  obtain ⟨next, hread⟩ := h.read hs
  obtain ⟨hsge, hsle⟩ := h.streamAddress_bounds hs
  obtain ⟨hge, -, hend⟩ := (processContainsBuffer_iff h.fits).mp hbuffer
  have hpos := h.base_pos
  have hheap := h.heap_le
  have hbegin := h.begin_ge f List.mem_cons_self
  have hx : x ∈ L.entries := by
    rw [heq]
    exact List.mem_append_right _ List.mem_cons_self
  obtain ⟨hdisk, hlength, hname, -, -⟩ := hL.readEntry k.disk.blockBuffer hr hx
  have hid : ¬ i + 4 < FIRST_FILE_STREAM_ID := by
    unfold FIRST_FILE_STREAM_ID
    omega
  have hrecord : (s.record next).mode = MODE_LIST := hmode
  have hfile : (s.record next).fileBlock = x.2 := hblock
  have hargs : ¬ (size = 0 ∨ ¬ processContainsBuffer f.process buffer size = true) := by
    rintro (hc | hc)
    · omega
    · exact hc hbuffer
  have hbuffer' : diskReadBlockBuffer k.disk x.2 = ⟨k.disk.io, k.disk.io.blocks x.2⟩ := hdisk
  have htake : (k.disk.io.blocks x.2).read 24 (min size x.1.length) = x.1.take size := by
    rw [← DiskBlock.take_read (Nat.min_le_right size x.1.length), hname, List.take_eq_take_iff]
    omega
  -- the name is copied, and the stream goes to the next file of the list
  have hrun : osRead n k (i + 4) buffer size keys = some ({ k with
      disk := ⟨k.disk.io, k.disk.io.blocks x.2⟩
      memory := setFileBlock (k.memory.copyIn buffer
        ((k.disk.io.blocks x.2).read 24 (min size x.1.length))) (f.streamAddress i)
        (k.disk.io.blocks x.2).nextFile }, min size x.1.length) := by
    simp only [osRead, h.process_eq, h.getFileStream_isSome hs hlen, hread]
    rw [if_neg hargs, if_neg hid,
      if_neg (by rw [hrecord]; exact not_or.mpr ⟨by omega, by decide⟩), if_pos hrecord, hfile,
      if_neg (hL.entries.ne_null x hx), hbuffer']
    simp only [hlength]
  obtain ⟨hframed, hmem⟩ := h.readList ⟨k.disk.io, k.disk.io.blocks x.2⟩ (min size x.1.length) hs hge
  refine ⟨_, _, hrun, hframed, hmode, hL.nextFile_eq heq, rfl, rfl, ?_, fun j h1 h2 => ?_⟩
  · have hbytes : (x.1.take size).length = min size x.1.length := List.length_take
    rw [htake, ← hbytes]
    refine (ByteMem.slice_congr fun j h1 h2 => ?_).trans
      (ByteMem.slice_copyIn_self k.memory buffer (x.1.take size))
    exact ByteMem.store_of_not_mem (by omega)
  · apply hmem j (.inr h1)
    omega

/-! ### Writing -/

/-- `os_write` on a file. -/
theorem osWrite_file (h : Framed k base (f :: fs)) (hs : f.streams[i]? = some s)
    (hmode : s.mode = MODE_WRITE) (hbuffer : processContainsBuffer f.process buffer size = true)
    (hlen : f.streams.length < n) :
    osWrite n k (i + 4) buffer size =
      (diskWriteFile n k.disk s.currentBlock (k.memory.slice buffer size)).map fun q =>
        ({ k with disk := q.1, memory := setCurrentBlock k.memory (f.streamAddress i) q.2.1 },
          if q.2.2 ≠ .ok then errorResult q.2.2 else size) := by
  obtain ⟨next, hread⟩ := h.read hs
  obtain ⟨hge, -⟩ := h.streamAddress_bounds hs
  have hpos := h.base_pos
  have hid : ¬ i + 4 < FIRST_FILE_STREAM_ID := by
    unfold FIRST_FILE_STREAM_ID
    omega
  have hrecord : (s.record next).mode = MODE_WRITE := hmode
  simp only [osWrite, h.process_eq, h.getFileStream_isSome hs hlen, hread]
  rw [if_neg (not_not_intro hbuffer), if_neg hid,
    if_neg (by rw [hrecord]; exact not_or.mpr ⟨by omega, by decide⟩),
    if_neg (not_not_intro hrecord)]
  have hblock : (s.record next).currentBlock = s.currentBlock := rfl
  rw [hblock]
  cases diskWriteFile n k.disk s.currentBlock (k.memory.slice buffer size)
  all_goals rfl

/-- `os_write` returns, and appends to the file if it returns the size. -/
theorem osWrite_appended (h : Framed k base (f :: fs)) (hs : f.streams[i]? = some s)
    (hmode : s.mode = MODE_WRITE) (hm : Represents k.disk.io m)
    (hblock : LastBlockOf k.disk.io name s.currentBlock) (hc : m.lookup name = some c)
    (hr : k.disk.io.readErrors = []) (hn : k.disk.io.numBlocks ≤ n) (hlen : f.streams.length < n)
    (hbuffer : processContainsBuffer f.process buffer size = true) :
    ∃ k' s' status, osWrite n k (i + 4) buffer size =
        some (k', if status ≠ .ok then errorResult status else size) ∧
      Framed k' base (f.setStream i s' :: fs) ∧ s'.mode = MODE_WRITE ∧
      SameDevice k.disk.io k'.disk.io ∧
      (status = .ok →
        Represents k'.disk.io (m.insert name (c ++ k.memory.slice buffer size)) ∧
        LastBlockOf k'.disk.io name s'.currentBlock) ∧
      ∀ {other : List UInt8} {b offset : Nat} {rest : List UInt8}, other ≠ name →
        Position k.disk.io other b offset rest → Position k'.disk.io other b offset rest := by
  rcases @diskWriteFile_appended _ k.disk.blockBuffer n _ _ _ _ hm hr hn hblock hc
    (k.memory.slice buffer size) with ⟨io', block, last, status, hwrite, hdev, hok, hposition⟩
  have hrun := osWrite_file h hs hmode hbuffer hlen
  have hdisk : diskWriteFile n k.disk s.currentBlock (k.memory.slice buffer size) =
      some (⟨io', block⟩, last, status) := hwrite
  rw [hdisk, Option.map_some] at hrun
  have hframed : Framed { k with
      disk := ⟨io', block⟩, memory := setCurrentBlock k.memory (f.streamAddress i) last } base
      (f.setStream i { s with currentBlock := last % 2 ^ 64 } :: fs) := by
    apply h.setStream hs
    · intro next hnext
      rw [readStream_setCurrentBlock, hnext]
      rfl
    · intro j _ _ hj
      exact ByteMem.store_of_not_mem (by omega)
  refine ⟨_, _, status, hrun, hframed, hmode, hdev, fun hstatus => ?_, hposition⟩
  rcases hok hstatus with ⟨hrep, hlast⟩
  dsimp only
  rw [Nat.mod_eq_of_lt hlast.lt]
  exact ⟨hrep, hlast⟩

end Toys.Os
