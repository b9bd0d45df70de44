import Mathlib
import Toys.FileSystem.Positions
import Toys.Os.OpenFiles
import Toys.Os.SequentialReads

namespace Toys.Os

open Toys.Lib Toys.FileSystem

/-!
# Kernel — opening a file

`os_open` always returns: its loops go through the frames and through the files.

* `Bounded` — a bound for the loops over the frames;
* `processGetUnusedFileStream_isSome`, `processCanOpen_isSome` — these loops end;
* `OpenOutcome`, `osOpen_outcome` — all that `os_open` can do, on a disk that can be read.
-/

variable {n base i r : Nat} {k k' : Kernel} {f f' : Frame} {fs : List Frame} {L : Layout}
  {io : BlockIo} {block : DiskBlock} {m : ByteMem} {a : Nat} {ss : List StreamState}
  {s : StreamState} {g : FileLayout} {name : List UInt8} {mode : Nat}

/-! ### The loops end -/

/-- The loops over the frames and their streams end within `n` steps. -/
structure Bounded (n : Nat) (fs : List Frame) : Prop where
  frames : fs.length < n
  streams : ∀ f ∈ fs, f.streams.length + fs.length < n

/-- The search of an unused stream ends. -/
theorem processGetUnusedFileStreamLoop_isSome {ptr id : Nat} (h : StreamsAt m a ss)
    (hn : ss.length < n) :
    ∃ r, processGetUnusedFileStreamLoop m n ptr (streamsPtr a ss) id = some r := by
  induction n generalizing a ss ptr id with
  | zero => exact absurd hn (Nat.not_lt_zero _)
  | succ n ih =>
    rw [processGetUnusedFileStreamLoop]
    split_ifs
    · cases ss with
      | nil => tauto
      | cons s ss =>
        rw [List.length_cons] at hn
        rw [streamsPtr_cons, h.1]
        exact ih h.2 (by omega)
    · exact ⟨_, rfl⟩

/-- `process_get_unused_file_stream` ends. -/
theorem processGetUnusedFileStream_isSome (h : Framed k base (f :: fs)) (hn : f.streams.length < n) :
    ∃ q, processGetUnusedFileStream n k f.address = some q := by
  have hstored := h.frames.2.1
  rcases @processGetUnusedFileStreamLoop_isSome n _ _ _ (f.address + 56) FIRST_FILE_STREAM_ID
    hstored.streams hn with ⟨q, hq⟩
  rw [processGetUnusedFileStream, Kernel.process, hstored.process, hstored.fileStreams, hq]
  dsimp only
  split_ifs
  all_goals exact ⟨_, rfl⟩

/-- The loop over the streams of a process ends. -/
theorem streamsCanOpenLoop_isSome {file : Nat} (h : StreamsAt m a ss) (hn : ss.length < n) :
    ∃ b, streamsCanOpenLoop m file mode n (streamsPtr a ss) = some b := by
  induction n generalizing a ss with
  | zero => exact absurd hn (Nat.not_lt_zero _)
  | succ n ih =>
    rw [streamsCanOpenLoop]
    split_ifs
    · cases ss with
      | nil => tauto
      | cons s ss =>
        rw [List.length_cons] at hn
        dsimp only
        split_ifs
        · exact ⟨_, rfl⟩
        · rw [streamsPtr_cons, h.1]
          exact ih h.2 (by omega)
    · exact ⟨_, rfl⟩

/-- The loop over the processes ends. -/
theorem processCanOpenLoop_isSome {file heap : Nat} (h : FramesAt m base heap fs)
    (hn : Bounded n fs) : ∃ b, processCanOpenLoop m file mode n (topAddress fs) = some b := by
  induction n generalizing heap fs with
  | zero => exact absurd hn.frames (Nat.not_lt_zero _)
  | succ n ih =>
    rw [processCanOpenLoop]
    split_ifs
    · cases fs with
      | nil => tauto
      | cons f fs =>
        rcases h with ⟨-, hstored, hrest⟩
        have hframes := hn.frames
        have hstreams := hn.streams
        rw [List.length_cons] at hframes hstreams
        have hlength := hstreams f List.mem_cons_self
        have hrest' : Bounded n fs := by
          refine ⟨by omega, fun g hg => ?_⟩
          have hlength := hstreams g (List.mem_cons_of_mem f hg)
          omega
        rcases @streamsCanOpenLoop_isSome n _ _ _ mode file hstored.streams (by omega) with ⟨b, hb⟩
        rw [topAddress, hstored.process, hstored.fileStreams, hb]
        cases b with
        | false => exact ⟨_, rfl⟩
        | true =>
          dsimp only
          rw [hstored.parent]
          exact ih hrest hrest'
    · exact ⟨_, rfl⟩

/-- A bound for all the loops, when two streams may be added to the current process. -/
theorem Bounded.of_lt {f' : Frame} (hn : (openStreams (f :: fs)).length + fs.length + 4 < n)
    (hf : f'.streams.length ≤ f.streams.length + 2) : Bounded n (f' :: fs) := by
  rw [openStreams_cons, List.length_append] at hn
  refine ⟨by rw [List.length_cons]; omega, fun g hg => ?_⟩
  rw [List.length_cons]
  rcases List.mem_cons.mp hg with rfl | hg
  · omega
  · rcases List.append_of_mem hg with ⟨pre, post, rfl⟩
    simp only [openStreams, List.flatMap_append, List.flatMap_cons, List.length_append] at hn ⊢
    omega

/-- At most one stream is added. -/
theorem Frame.Extends.length_le {f' : Frame} (h : f.Extends f') :
    f'.streams.length ≤ f.streams.length + 1 := by
  rcases h with rfl | ⟨s, -, rfl⟩
  · exact Nat.le_succ _
  · rw [Frame.addStream, List.length_append, List.length_singleton]

/-! ### The outcome -/

/-- What opening a file by its name does. -/
inductive OpenFileOutcome (k : Kernel) (frames : List Frame) (L : Layout) (stream : Nat)
    (name : List UInt8) (mode : Nat) : Kernel → Status → Nat → Prop
  | failed {block : DiskBlock} {status : Status} {file : Nat} (hstatus : status ≠ .ok) :
      OpenFileOutcome k frames L stream name mode { k with disk := ⟨k.disk.io, block⟩ } status file
  | read {block : DiskBlock} {g : FileLayout} (hg : g ∈ L.files) (hname : g.name = name)
      (hmode : mode = MODE_READ) :
      OpenFileOutcome k frames L stream name mode
        { k with
          disk := ⟨k.disk.io, block⟩
          memory := setCurrentOffset k.memory stream (24 + g.name.length) } .ok g.first
  | write {disk : Disk} {file : Nat} (hmode : mode = MODE_WRITE)
      (hallows : ∀ g ∈ L.files, g.name = name → ∀ f ∈ frames, ∀ t ∈ f.streams,
        t.Allows g.first MODE_WRITE)
      (hemptied : Emptied k.disk.io disk.io name file) :
      OpenFileOutcome k frames L stream name mode { k with disk := disk } .ok file

/-- Opening a file by its name ends. -/
theorem osOpenFile_outcome (h : Framed k base fs) (hdisk : k.disk = ⟨io, block⟩)
    (hL : Describes io L) (hr : io.readErrors = []) (hn : io.numBlocks ≤ n) (hb : Bounded n fs)
    (hmode : mode = MODE_READ ∨ mode = MODE_WRITE) (stream : Nat) (name : List UInt8) :
    ∃ k' status file, osOpenFile n k k.currentProcess stream name mode = some (k', status, file) ∧
      OpenFileOutcome k fs L stream name mode k' status file := by
  have hio : k.disk.io = io := by rw [hdisk]
  rcases @diskFindFile_eq _ block n _ hL hr hn name 0 with ⟨block₁, hfind⟩
  rw [osOpenFile, hdisk, hfind]
  cases hat : fileAt name L.files with
  | none =>
    have hnone : ∀ g ∈ L.files, g.name ≠ name := by
      intro g hg hname
      rw [(fileAt_eq_some_iff hL.sorted).mpr ⟨hg, hname⟩] at hat
      cases hat
    simp only [Option.map_none, Option.getD_none, if_true]
    rcases hmode with hmode | hmode
    · rw [if_pos hmode]
      refine ⟨_, _, _, rfl, ?_⟩
      rw [← hio]
      exact .failed (by decide)
    · rw [if_neg (hmode ▸ modeWrite_ne_modeRead)]
      rcases @diskCreateFile_emptied _ block₁ n _ hL hr hn name with
        ⟨block₂, status, hstatus, hcreate⟩ | ⟨io', block₂, file, hcreate, hemptied⟩
      · rw [hcreate]
        refine ⟨_, _, _, rfl, ?_⟩
        rw [← hio]
        exact .failed hstatus
      · rw [hcreate]
        refine ⟨_, _, _, rfl, .write hmode (fun g hg hname => absurd hname (hnone g hg)) ?_⟩
        rw [hio]
        exact hemptied
  | some g =>
    rcases (fileAt_eq_some_iff hL.sorted).mp hat with ⟨hg, hname⟩
    have hfirst := hL.first_lt hg
    simp only [Option.map_some, Option.getD_some]
    rw [if_neg (by omega)]
    rcases @processCanOpenLoop_isSome n base _ _ mode g.first _ h.frames hb with ⟨b, hb⟩
    have hcan : processCanOpen n k.memory k.currentProcess g.first mode = some b := by
      rw [h.current]
      exact hb
    rw [hcan]
    cases b with
    | false =>
      refine ⟨_, _, _, rfl, ?_⟩
      rw [← hio]
      exact .failed (by decide)
    | true =>
      have hallows := (processCanOpenLoop_spec h.frames h.base_pos hb).mp rfl
      dsimp only
      rcases hmode with hmode | hmode
      · have hnameLe := (hL.files_ok g hg).name_le
        rw [if_pos hmode, diskReadBlockBuffer_eq hr hfirst.2]
        simp only [(hL.files_ok g hg).nameLength_eq]
        rw [U64.add_eq (by omega)]
        refine ⟨_, _, _, rfl, ?_⟩
        rw [← hio]
        exact .read hg hname hmode
      · rw [if_neg (hmode ▸ modeWrite_ne_modeRead)]
        rcases @diskClearFile_emptied _ block₁ n _ g hL hr hn hg with ⟨io', block₂, hclear, hemptied⟩
        rw [hclear]
        refine ⟨_, _, _, rfl, .write hmode ?_ ?_⟩
        · -- the file is the only one with this name
          intro g' hg' hname'
          have hat' := (fileAt_eq_some_iff hL.sorted).mpr ⟨hg', hname'⟩
          rw [hat, Option.some_inj] at hat'
          rw [← hat', ← hmode]
          exact hallows
        · rw [hio, ← hname]
          exact hemptied

/-- What `os_open` keeps. -/
structure OpenKept (base : Nat) (k k' : Kernel) : Prop where
  heapLimit : k'.heapLimit = k.heapLimit
  memory : ∀ j, (j < base ∨ k.heapLimit ≤ j) → k'.memory j = k.memory j

/-- The unused stream `i` of the current process becomes `s`. -/
structure OpensStream (base : Nat) (k k' : Kernel) (f : Frame) (fs : List Frame) (i : Nat)
    (s : StreamState) : Prop where
  frame : ∃ f' t, f.Extends f' ∧ f'.streams[i]? = some t ∧ t.mode = MODE_UNUSED ∧
    Framed k' base (f'.setStream i s :: fs)
  kept : OpenKept base k k'

/-- What `os_open` does. -/
inductive OpenOutcome (base : Nat) (k : Kernel) (f : Frame) (fs : List Frame) (L : Layout)
    (name : List UInt8) (mode : Nat) : Kernel → Nat → Prop
  | failed {k' : Kernel} {f' : Frame} {status : Status} (hstatus : status ≠ .ok) (hf : f.Extends f')
      (hframed : Framed k' base (f' :: fs)) (hkept : OpenKept base k k')
      (hio : k'.disk.io = k.disk.io) : OpenOutcome base k f fs L name mode k' (errorResult status)
  | list {k' : Kernel} {i : Nat} {s : StreamState} (hname : name = []) (hmode : s.mode = MODE_LIST)
      (hfile : s.fileBlock = nextFileOf k.disk.io.blocks SUPER_BLOCK)
      (h : OpensStream base k k' f fs i s) (hio : k'.disk.io = k.disk.io) :
      OpenOutcome base k f fs L name mode k' (i + 4)
  | read {k' : Kernel} {i : Nat} {g : FileLayout} (hg : g ∈ L.files) (hname : g.name = name)
      (hmode : mode = MODE_READ) (h : OpensStream base k k' f fs i (openedStream g))
      (hio : k'.disk.io = k.disk.io) : OpenOutcome base k f fs L name mode k' (i + 4)
  | write {k' : Kernel} {i : Nat} {s : StreamState} (hmode : mode = MODE_WRITE)
      (hs : s.mode = MODE_WRITE)
      (hallows : ∀ g ∈ L.files, g.name = name → ∀ g' ∈ f :: fs, ∀ t ∈ g'.streams,
        t.Allows g.first MODE_WRITE)
      (hemptied : Emptied k.disk.io k'.disk.io name s.currentBlock)
      (h : OpensStream base k k' f fs i s) : OpenOutcome base k f fs L name mode k' (i + 4)

/-- The streams are still there. -/
theorem Frame.Extends.mem_streams {t : StreamState} (h : f.Extends f') (ht : t ∈ f.streams) :
    t ∈ f'.streams := by
  rcases h with rfl | ⟨s, -, rfl⟩
  · exact ht
  · exact List.mem_append_left _ ht

/-- Opening the file ends, on a disk that can be read. -/
theorem OpensFile.outcome {address length heap : Nat} {memory : ByteMem} {f' : Frame}
    {result : Option (Kernel × Status × Nat)}
    (h : OpensFile n base k f fs address length mode heap memory f' i s result)
    (hL : Describes k.disk.io L) (hr : k.disk.io.readErrors = []) (hn : k.disk.io.numBlocks ≤ n)
    (hb : Bounded n (f' :: fs)) :
    ∃ k₁ status file, result = some (k₁, status, file) ∧
      OpenFileOutcome { k with
          heap := heap, memory := memory, disk := ⟨k.disk.io, k.disk.io.blocks SUPER_BLOCK⟩ }
        (f' :: fs) L (f'.streamAddress i) (k.memory.slice address length) mode k₁ status file := by
  have hread : diskReadBlockBuffer k.disk SUPER_BLOCK = ⟨k.disk.io, k.disk.io.blocks SUPER_BLOCK⟩ :=
    diskReadBlockBuffer_eq hr hL.super_lt
  have hrun := h.run
  rw [hread] at hrun
  rw [← hrun]
  exact osOpenFile_outcome (h.framed_disk _) rfl hL hr hn hb h.mode_valid _ _

/-- `os_open` returns. -/
theorem osOpen_outcome {address length : Nat} (h : Framed k base (f :: fs))
    (hL : Describes k.disk.io L) (hr : k.disk.io.readErrors = []) (hn : k.disk.io.numBlocks ≤ n)
    (hb : ∀ f', f.Extends f' → Bounded n (f' :: fs)) :
    ∃ k' r, osOpen n k address length mode = some (k', r) ∧
      OpenOutcome base k f fs L (k.memory.slice address length) mode k' r := by
  -- the block that was read is only in the buffer
  have hread : diskReadBlockBuffer k.disk SUPER_BLOCK = ⟨k.disk.io, k.disk.io.blocks SUPER_BLOCK⟩ :=
    diskReadBlockBuffer_eq hr hL.super_lt
  have hio : (diskReadBlockBuffer k.disk SUPER_BLOCK).io = k.disk.io := by rw [hread]
  generalize hrun : osOpen n k address length mode = o
  cases osOpen_cases h hrun with
  | rejected => exact ⟨_, _, rfl, .failed (by decide) (.inl rfl) h ⟨rfl, fun _ _ => rfl⟩ rfl⟩
  | lost hget =>
    have hstreams := (hb f (.inl rfl)).streams f List.mem_cons_self
    rw [List.length_cons] at hstreams
    rcases @processGetUnusedFileStream_isSome n _ _ _ _ h (by omega) with ⟨q, hq⟩
    rw [show k.currentProcess = f.address from h.current, hq] at hget
    cases hget
  | full hget hsearch =>
    exact ⟨_, _, rfl, .failed (by decide) hsearch.extended hsearch.framed ⟨rfl, hsearch.kept⟩ rfl⟩
  | listWritten hlength hmode hsearch =>
    exact ⟨_, _, rfl, .failed (by decide) hsearch.extended (hsearch.framed_disk _)
      ⟨rfl, hsearch.kept⟩ hio⟩
  | @list disk heap i memory memory' f' s hlength hmode hfind hdisk hframed hkept =>
    rw [hread] at hdisk
    subst hdisk
    exact ⟨_, _, rfl, .list (by rw [hlength]; rfl) rfl rfl
      ⟨⟨f', s, hfind.extended, hfind.stream, hfind.unused, hframed⟩, rfl, hkept⟩ rfl⟩
  | fileLost hopen =>
    rcases hopen.outcome hL hr hn (hb _ hopen.extended) with ⟨k₁, status, file, hnone, -⟩
    cases hnone
  | @failed k₁ heap i file memory f' s status hstatus hopen =>
    rcases hopen.outcome hL hr hn (hb _ hopen.extended) with ⟨k₁, status, file, hsome, houtcome⟩
    cases hsome
    cases houtcome with
    | failed =>
      exact ⟨_, _, rfl, .failed hstatus hopen.extended (hopen.framed_disk _) ⟨rfl, hopen.kept⟩ rfl⟩
    | read => exact absurd rfl hstatus
    | write => exact absurd rfl hstatus
  | @opened k₁ result heap i file memory f' s hopen hresult =>
    rcases hopen.outcome hL hr hn (hb _ hopen.extended) with ⟨k₁, status, file, hsome, houtcome⟩
    cases hsome
    cases houtcome with
    | failed hstatus => exact absurd rfl hstatus
    | @read block g hg hname hmode =>
      have hnameLe := (hL.files_ok g hg).name_le
      have hsize := k.disk.io.size_le
      have hfirst := hL.first_lt hg
      obtain ⟨memory', hk', hframed', hmem'⟩ := (hopen.framed_disk ⟨k.disk.io, block⟩).openStream_read
        (g := g) hopen.stream (by omega) (by omega)
      rw [← hmode] at hk'
      rw [hk'] at hresult
      subst hresult
      exact ⟨_, _, rfl, .read hg hname hmode
        ⟨⟨f', s, hopen.extended, hopen.stream, hopen.unused, hframed'⟩, rfl,
          fun j hj => (hmem' j hj).trans (hopen.kept j hj)⟩ rfl⟩
    | @write disk file hmode hallows hemptied =>
      obtain ⟨memory', hk', hframed', hmem'⟩ := @Framed.openStream _ _ _ _ (hopen.framed_disk disk) i
        (i + 4) file mode s hopen.stream (by rw [hmode]; decide)
      rw [hk'] at hresult
      subst hresult
      refine ⟨_, _, rfl, ?_⟩
      rw [Nat.mod_eq_of_lt hemptied.last.lt, hmode] at hframed'
      refine .write hmode rfl ?_ hemptied
        ⟨⟨f', s, hopen.extended, hopen.stream, hopen.unused, hframed'⟩, rfl, ?_⟩
      · intro g hg hname g' hg' t ht
        rcases List.mem_cons.mp hg' with rfl | hg'
        · exact hallows g hg hname f' List.mem_cons_self t (hopen.extended.mem_streams ht)
        · exact hallows g hg hname g' (List.mem_cons_of_mem f' hg') t ht
      · intro j hj
        exact (hmem' j hj).trans (hopen.kept j hj)

/-- A stream is found, if there is room for one more. -/
theorem processGetUnusedFileStream_ne_zero {q : Kernel × Nat × Nat} (h : Framed k base (f :: fs))
    (hroom : k.heap + SIZEOF_FILE_STREAM ≤ k.heapLimit)
    (hget : processGetUnusedFileStream n k f.address = some q) : q.2.1 ≠ 0 := by
  have hlimit := h.limit_lt
  have hpos := h.base_pos
  have hheap := h.frames.base_le
  rw [sizeof_fileStream] at hroom
  rw [processGetUnusedFileStream] at hget
  cases hloop : processGetUnusedFileStreamLoop k.memory n (f.address + 56)
      (k.process f.address).fileStreams FIRST_FILE_STREAM_ID with
  | none => simp [hloop] at hget
  | some p =>
    have hadd : U64.add k.heap SIZEOF_FILE_STREAM = k.heap + 40 := U64.add_eq (by
      rw [sizeof_fileStream]
      omega)
    simp only [hloop, hadd] at hget
    split_ifs at hget with hnull
    · rw [← Option.some.inj hget]
      dsimp only
      omega
    · rw [← Option.some.inj hget]
      intro h0
      exact hnull ⟨h0, hroom⟩

/-- `os_open` opens a list of the files, if there is room for one more stream. -/
theorem osOpen_emptyName {address : Nat} (h : Framed k base (f :: fs)) (hL : Describes k.disk.io L)
    (hr : k.disk.io.readErrors = []) (hn : f.streams.length < n)
    (hroom : k.heap + SIZEOF_FILE_STREAM ≤ k.heapLimit)
    (hbuffer : processContainsBuffer f.process address 0 = true) :
    ∃ k' i s, osOpen n k address 0 MODE_READ = some (k', i + 4) ∧ s.mode = MODE_LIST ∧
      s.fileBlock = nextFileOf k.disk.io.blocks SUPER_BLOCK ∧ OpensStream base k k' f fs i s ∧
      k'.disk.io = k.disk.io := by
  have hcurrent : k.currentProcess = f.address := h.current
  rcases @processGetUnusedFileStream_isSome n _ _ _ _ h hn with ⟨q, hq⟩
  have hne := processGetUnusedFileStream_ne_zero h hroom hq
  rw [← hcurrent] at hq
  have hread : diskReadBlockBuffer k.disk SUPER_BLOCK = ⟨k.disk.io, k.disk.io.blocks SUPER_BLOCK⟩ :=
    diskReadBlockBuffer_eq hr hL.super_lt
  generalize hrun : osOpen n k address 0 MODE_READ = o
  cases osOpen_cases h hrun with
  | rejected hcheck =>
    rcases hcheck with hc | hc
    · exact absurd hbuffer hc
    · exact absurd rfl hc.1
  | lost hget => rw [hget] at hq; cases hq
  | full hget => rw [← Option.some.inj (hget.symm.trans hq)] at hne; exact absurd rfl hne
  | listWritten hlength hmode => exact absurd rfl hmode
  | @list disk heap i memory memory' f' s hlength hmode hfind hdisk hframed hkept =>
    rw [hread] at hdisk
    subst hdisk
    exact ⟨_, i, _, rfl, rfl, rfl,
      ⟨⟨f', s, hfind.extended, hfind.stream, hfind.unused, hframed⟩, rfl, hkept⟩, rfl⟩
  | fileLost hopen => exact absurd rfl hopen.named
  | failed hstatus hopen => exact absurd rfl hopen.named
  | opened hopen => exact absurd rfl hopen.named

end Toys.Os
