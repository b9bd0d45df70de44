import Mathlib
import Toys.Commands.Base
import Toys.Os.FailedCalls
import Toys.Os.Transfers

namespace Toys.Commands

open Toys.Lib Toys.FileSystem Toys.Os

/-!
# Commands — copy

The program `copy`, from `src/copy/copy.toy`.  It reads the source and writes the destination by turns,
through two streams of the same process.

* `copyMain` — the program;
* `Copying`, `copyLoop_copies` — the invariant of its loop;
* `Copies`, `copyMain_copies` — it returns, and has copied the file if it returns `OK`.
-/

/-- `write_error`. -/
def writeError (bound : Nat) (k : Kernel) (src1 length1 src2 length2 result : Nat) :
    Option (Kernel × Nat) :=
  match osWrite bound k STANDARD_OUTPUT src1 length1 with
  | none => none
  | some (k, _) =>
    match osWrite bound k STANDARD_OUTPUT src2 length2 with
    | none => none
    | some (k, _) => some (k, status result)

/-- The addresses of the static data of the program. -/
structure CopyStatics where
  usage : Nat
  cantOpen : Nat
  cantRead : Nat
  cantWrite : Nat

/-- What the loop of `copy` does not change. -/
structure CopyLocals where
  srcName : Nat
  srcLength : Nat
  dstName : Nat
  dstLength : Nat
  buffer : Nat
  bufferSize : Nat
  srcStream : Nat
  dstStream : Nat

/-- The loop of `main`. -/
def copyLoop (bound : Nat) (s : CopyStatics) (v : CopyLocals) :
    (loops : Nat) → Kernel → Option (Kernel × Nat)
  | 0, _ => none
  | loops + 1, k =>
    match osRead bound k v.srcStream v.buffer v.bufferSize [] with
    | none => none
    | some (k, n) =>
      if status n ≠ OK then writeError bound k s.cantRead 11 v.srcName v.srcLength n
      else
        match osWrite bound k v.dstStream v.buffer n with
        | none => none
        | some (k, result) =>
          if status result ≠ OK then writeError bound k s.cantWrite 12 v.dstName v.dstLength result
          else if n < v.bufferSize then some (k, OK)
          else copyLoop bound s v loops k

/-- `main`. -/
def copyMain (bound : Nat) (k : Kernel) (s : CopyStatics) (args argsEnd heap heapLimit : Nat) :
    Option (Kernel × Nat) :=
  let (srcName, srcLength, args) := shReadToken k.memory args argsEnd 0
  let (dstName, dstLength, _) := shReadToken k.memory args argsEnd 0
  if srcName = 0 ∨ dstName = 0 then
    match osWrite bound k STANDARD_OUTPUT s.usage 19 with
    | none => none
    | some (k, _) => some (k, Status.invalidArgument.code)
  else
    let buffer := heap
    let bufferSize := U64.sub heapLimit heap
    if bufferSize < 64 then some (k, Status.outOfMemory.code)
    else
      match osOpen bound k srcName srcLength MODE_READ with
      | none => none
      | some (k, srcStream) =>
        if status srcStream ≠ OK then writeError bound k s.cantOpen 11 srcName srcLength srcStream
        else
          match osOpen bound k dstName dstLength MODE_WRITE with
          | none => none
          | some (k, dstStream) =>
            if status dstStream ≠ OK then
              writeError bound k s.cantOpen 11 dstName dstLength dstStream
            else
              copyLoop bound s
                ⟨srcName, srcLength, dstName, dstLength, buffer, bufferSize, srcStream, dstStream⟩ bound k

variable {n base i j loops : Nat} {k : Kernel} {f : Frame} {fs : List Frame} {m : Files} {L : Layout}
  {s : CopyStatics} {v : CopyLocals} {src dst c rest : List UInt8}

/-! ### Errors -/

/-- Writing to the output does not change the disk. -/
theorem osWrite_output_isSome (n : Nat) (k : Kernel) (buffer size : Nat) :
    ∃ k' r, osWrite n k STANDARD_OUTPUT buffer size = some (k', r) ∧ k'.disk = k.disk := by
  have hwrite : ∃ k' r, osWrite n k STANDARD_OUTPUT buffer size = some (k', r) := by
    unfold osWrite
    dsimp only
    by_cases hbuffer : ¬ processContainsBuffer (k.process k.currentProcess) buffer size = true
    · rw [if_pos hbuffer]
      exact ⟨_, _, rfl⟩
    · rw [if_neg hbuffer, if_pos (by decide)]
      exact ⟨_, _, rfl⟩
  rcases hwrite with ⟨k', r, hwrite⟩
  exact ⟨k', r, hwrite, osWrite_output_disk hwrite⟩

/-- Writing an error does not change the disk. -/
theorem writeError_disk (n : Nat) (k : Kernel) (src1 length1 src2 length2 result : Nat) :
    ∃ k', writeError n k src1 length1 src2 length2 result = some (k', status result) ∧
      k'.disk = k.disk := by
  rcases osWrite_output_isSome n k src1 length1 with ⟨k₁, r₁, h₁, hdisk₁⟩
  rcases osWrite_output_isSome n k₁ src2 length2 with ⟨k₂, r₂, h₂, hdisk₂⟩
  refine ⟨k₂, ?_, hdisk₂.trans hdisk₁⟩
  rw [writeError, h₁]
  dsimp only
  rw [h₂]

/-! ### The loop -/

/-- The invariant of the loop: what was read is written, and `rest` remains. -/
structure Copying (n base : Nat) (f : Frame) (fs : List Frame) (i j : Nat) (src dst : List UInt8)
    (m : Files) (c rest : List UInt8) (k : Kernel) : Prop where
  framed : Framed k base (f :: fs)
  readErrors : k.disk.io.readErrors = []
  numBlocks : k.disk.io.numBlocks ≤ n
  streams : f.streams.length < n
  ne : src ≠ dst
  read : ∃ s, f.streams[i]? = some s ∧ s.mode = MODE_READ ∧
    Position k.disk.io src s.currentBlock s.currentOffset rest
  write : ∃ s, f.streams[j]? = some s ∧ s.mode = MODE_WRITE ∧ LastBlockOf k.disk.io dst s.currentBlock
  files : ∃ written, written ++ rest = c ∧ Represents k.disk.io (m.insert dst written)

/-- The two streams are not the same one. -/
theorem Copying.index_ne (h : Copying n base f fs i j src dst m c rest k) : i ≠ j := by
  rintro rfl
  rcases h.read with ⟨s, hs, hread, -⟩
  rcases h.write with ⟨t, ht, hwrite, -⟩
  rw [hs, Option.some_inj] at ht
  rw [ht, hwrite] at hread
  exact modeWrite_ne_modeRead hread

/-- Some bytes are read, and written. -/
theorem Copying.turn {buffer size : Nat} (h : Copying n base f fs i j src dst m c rest k)
    (hsize : 1 ≤ size) (hbuffer : processContainsBuffer f.process buffer size = true) :
    ∃ k₁ k₂ status, osRead n k (i + 4) buffer size [] = some (k₁, min size rest.length) ∧
      osWrite n k₁ (j + 4) buffer (min size rest.length) =
        some (k₂, if status ≠ .ok then errorResult status else min size rest.length) ∧
      (status = .ok →
        (∃ written, written ++ rest.drop size = c ∧ Represents k₂.disk.io (m.insert dst written)) ∧
        (size ≤ rest.length → ∃ f', f'.process = f.process ∧
          Copying n base f' fs i j src dst m c (rest.drop size) k₂)) := by
  have hne := h.index_ne
  rcases h.read with ⟨s, hs, hread, hposition⟩
  rcases h.write with ⟨t, ht, hwrite, hlast⟩
  rcases h.files with ⟨written, hwritten, hrep⟩
  obtain ⟨k₁, s₁, hrun₁, hframed₁, hread₁, hio₁, hslice, hnext⟩ :=
    @osRead_position n base i k f fs s src rest buffer size [] h.framed hs hread hposition
      h.readErrors h.numBlocks h.streams hsize hbuffer
  have ht₁ : (f.setStream i s₁).streams[j]? = some t := by
    rw [Frame.getElem?_setStream_of_ne hne]
    exact ht
  have hbuffer₁ : processContainsBuffer f.process buffer (min size rest.length) = true := by
    obtain ⟨h1, h2, h3⟩ := (processContainsBuffer_iff h.framed.fits).mp hbuffer
    exact (processContainsBuffer_iff h.framed.fits).mpr ⟨h1, h2, by omega⟩
  have hreadErrors := h.readErrors
  have hnumBlocks := h.numBlocks
  have hstreams : (f.setStream i s₁).streams.length < n := by
    rw [Frame.length_setStream]
    exact h.streams
  -- the device has not changed since the read, so that the written file is still the prefix
  rw [← hio₁] at hrep hlast hreadErrors hnumBlocks
  obtain ⟨k₂, t₂, status, hrun₂, hframed₂, hwrite₂, hdev, hok, hkept⟩ := osWrite_appended hframed₁ ht₁
    hwrite hrep hlast (Finmap.lookup_insert _) hreadErrors hnumBlocks hstreams hbuffer₁
  refine ⟨k₁, k₂, status, hrun₁, hrun₂, fun hstatus => ?_⟩
  rcases hok hstatus with ⟨hrep₂, hlast₂⟩
  rw [hslice, Finmap.insert_insert] at hrep₂
  have hwritten₂ : (written ++ rest.take size) ++ rest.drop size = c := by
    rw [List.append_assoc, List.take_append_drop, hwritten]
  have hdev₂ : SameDevice k.disk.io k₂.disk.io := hio₁ ▸ hdev
  have hlength : ((f.setStream i s₁).setStream j t₂).streams.length = f.streams.length := by
    rw [Frame.length_setStream, Frame.length_setStream]
  refine ⟨⟨_, hwritten₂, hrep₂⟩, fun hle => ⟨(f.setStream i s₁).setStream j t₂, rfl, ?_⟩⟩
  exact {
    framed := hframed₂
    readErrors := hdev₂.2.trans h.readErrors
    numBlocks := hdev₂.1 ▸ h.numBlocks
    streams := hlength.trans_lt h.streams
    ne := h.ne
    read := by
      refine ⟨s₁, ?_, hread₁, ?_⟩
      · rw [Frame.getElem?_setStream_of_ne (Ne.symm hne)]
        exact Frame.getElem?_setStream hs
      · apply hkept h.ne
        rw [hio₁]
        exact hnext hle
    write := ⟨t₂, Frame.getElem?_setStream ht₁, hwrite₂, hlast₂⟩
    files := ⟨_, hwritten₂, hrep₂⟩ }

/-- The loop ends, and has copied the file if it returns `OK`. -/
theorem copyLoop_copies (h : Copying n base f fs i j src dst m c rest k) (hsize : 1 ≤ v.bufferSize)
    (hsrc : v.srcStream = i + 4) (hdst : v.dstStream = j + 4) (hloops : rest.length < loops) :
    ∃ k' r, copyLoop n s v loops k = some (k', r) ∧
      (r = OK → Represents k'.disk.io (m.insert dst c)) := by
  induction loops generalizing f rest k with
  | zero => exact absurd hloops (Nat.not_lt_zero _)
  | succ loops ih =>
    rw [copyLoop, hsrc]
    by_cases hbuffer : processContainsBuffer f.process v.buffer v.bufferSize = true
    · rcases h.turn hsize hbuffer with ⟨k₁, k₂, result, hread, hwrite, hok⟩
      rw [hread]
      dsimp only
      by_cases hstatus : status (min v.bufferSize rest.length) ≠ OK
      · -- the number of bytes that were read looks like an error
        rcases writeError_disk n k₁ s.cantRead 11 v.srcName v.srcLength (min v.bufferSize rest.length)
          with ⟨k', heq, -⟩
        rw [if_pos hstatus]
        exact ⟨k', _, heq, fun hr => absurd hr hstatus⟩
      · rw [if_neg hstatus, hdst, hwrite]
        dsimp only
        by_cases hresult : result = .ok
        · rw [if_neg (not_not_intro hresult), if_neg hstatus]
          rcases hok hresult with ⟨⟨written, hwritten, hrep⟩, hnext⟩
          by_cases hshort : min v.bufferSize rest.length < v.bufferSize
          · -- the end of the source
            rw [if_pos hshort]
            refine ⟨k₂, OK, rfl, fun _ => ?_⟩
            rw [List.drop_of_length_le (by omega), List.append_nil] at hwritten
            rw [← hwritten]
            exact hrep
          · rw [if_neg hshort]
            rcases hnext (by omega) with ⟨f', -, hcopying⟩
            apply ih hcopying
            rw [List.length_drop]
            omega
        · rw [if_pos hresult, if_pos (status_ne_ok (errorResult_ge hresult))]
          rcases writeError_disk n k₂ s.cantWrite 12 v.dstName v.dstLength (errorResult result)
            with ⟨k', heq, -⟩
          exact ⟨k', _, heq, fun hr => absurd hr (status_ne_ok (errorResult_ge hresult))⟩
    · rw [osRead_invalid h.framed hbuffer]
      have hstatus : status (errorResult .invalidArgument) ≠ OK := status_ne_ok (errorResult_ge (by decide))
      dsimp only
      rw [if_pos hstatus]
      rcases writeError_disk n k s.cantRead 11 v.srcName v.srcLength (errorResult .invalidArgument)
        with ⟨k', heq, -⟩
      exact ⟨k', _, heq, fun hr => absurd hr hstatus⟩

/-! ### The program -/

/-- What `copy` does, when `io'` is the device after it and `r` its result. -/
structure Copies (m : Files) (src dst : List UInt8) (io' : BlockIo) (r : Nat) : Prop where
  ok : r = OK → ∃ c, m.lookup src = some c ∧ Represents io' (m.insert dst c)
  same : src = dst → r ≠ OK ∧ Represents io' m

/-- A copy that reports an error has nothing to prove but for equal names. -/
theorem Copies.of_ne_ok {io' : BlockIo} {r : Nat} (hr : r ≠ OK) (hio : src = dst → Represents io' m) :
    Copies m src dst io' r := ⟨fun h => absurd h hr, fun h => ⟨hr, hio h⟩⟩

/-- The source was opened, and then the destination. -/
theorem Copying.start {k₁ : Kernel} {f₁ f₂ : Frame} {g : FileLayout} {t u : StreamState}
    (hm : Represents k₁.disk.io m) (hr : k₁.disk.io.readErrors = [])
    (hn : k₁.disk.io.numBlocks ≤ n) (hL : Describes k₁.disk.io L) (hg : g ∈ L.files) (hname : g.name = src)
    (hs : f₁.streams[i]? = some (openedStream g)) (hf : f₁.Extends f₂)
    (ht : f₂.streams[j]? = some t) (hunused : t.mode = MODE_UNUSED) (hu : u.mode = MODE_WRITE)
    (hframed : Framed k base (f₂.setStream j u :: fs)) (hstreams : f₂.streams.length < n)
    (hallows : ∀ g' ∈ L.files, g'.name = dst → (openedStream g).Allows g'.first MODE_WRITE)
    (hemptied : Emptied k₁.disk.io k.disk.io dst u.currentBlock) :
    Copying n base (f₂.setStream j u) fs i j src dst m (fileContent k₁.disk.io.blocks g)
      (fileContent k₁.disk.io.blocks g) k := by
  -- the source is open, so that it is not the destination
  have hne : src ≠ dst := by
    intro heq
    apply hallows g hg (hname.trans heq)
    exact ⟨rfl, (by decide : MODE_READ ≠ MODE_LIST), .inr rfl⟩
  have hs₂ : f₂.streams[i]? = some (openedStream g) := by
    rcases hf with rfl | ⟨s, -, rfl⟩
    · exact hs
    · rw [Frame.addStream, List.getElem?_append_left (List.getElem?_eq_some_iff.mp hs).1]
      exact hs
  have hij : j ≠ i := by
    rintro rfl
    rw [hs₂, Option.some_inj] at ht
    rw [← ht] at hunused
    exact absurd hunused (by decide : MODE_READ ≠ MODE_UNUSED)
  exact {
    framed := hframed
    readErrors := hemptied.device.2.trans hr
    numBlocks := hemptied.device.1 ▸ hn
    streams := by
      rw [Frame.length_setStream]
      exact hstreams
    ne := hne
    read := by
      refine ⟨openedStream g, ?_, rfl, ?_⟩
      · rw [Frame.getElem?_setStream_of_ne hij]
        exact hs₂
      · apply hemptied.position hne
        exact ⟨L, hL, g, hg, hname, Cursor.start hL hg⟩
    write := ⟨u, Frame.getElem?_setStream ht, hu, hemptied.last⟩
    files := ⟨[], rfl, hemptied.files m hm⟩ }

variable {args argsEnd args' args'' heap heapLimit srcName srcLength dstName dstLength : Nat}

/-- The destination is opened after the source, and then the source is copied. -/
theorem copyMain_opened {k₁ : Kernel} {f₁ : Frame} {g : FileLayout} {dstAddress : Nat}
    (hframed : Framed k₁ base (f₁ :: fs)) (hm : Represents k₁.disk.io m)
    (hr : k₁.disk.io.readErrors = []) (hn : k₁.disk.io.numBlocks ≤ n) (hL : Describes k₁.disk.io L)
    (hg : g ∈ L.files) (hs : f₁.streams[i]? = some (openedStream g))
    (hb : ∀ f', f₁.Extends f' → Bounded n (f' :: fs)) (hsize : 1 ≤ v.bufferSize)
    (hsrc : v.srcStream = i + 4) (hlength : v.dstLength ≠ 0)
    (hdst : k₁.memory.slice dstAddress v.dstLength = dst)
    (hc : (fileContent k₁.disk.io.blocks g).length < n) :
    ∃ k₂ dstStream, osOpen n k₁ dstAddress v.dstLength MODE_WRITE = some (k₂, dstStream) ∧
      (status dstStream ≠ OK → g.name = dst → k₂.disk.io = k₁.disk.io) ∧
      (status dstStream = OK → ∃ k' r,
        copyLoop n s { v with dstStream := dstStream } n k₂ = some (k', r) ∧ g.name ≠ dst ∧
        (r = OK → Represents k'.disk.io (m.insert dst (fileContent k₁.disk.io.blocks g)))) := by
  obtain ⟨k₂, dstStream, hopen, houtcome⟩ := @osOpen_outcome n base k₁ f₁ fs L MODE_WRITE dstAddress
    v.dstLength hframed hL hr hn hb
  rw [hdst] at houtcome
  refine ⟨k₂, dstStream, hopen, ?_⟩
  cases houtcome with
  | failed hstatus _ _ _ hio =>
    exact ⟨fun _ _ => hio, fun hok => absurd hok (status_ne_ok (errorResult_ge hstatus))⟩
  | list hname =>
    -- the name is not empty
    rw [← hdst, ← List.length_eq_zero_iff, ByteMem.slice_length] at hname
    exact absurd hname hlength
  | read _ _ hmode => exact absurd hmode modeWrite_ne_modeRead
  | @write j u _ hu hallows hemptied hopens =>
    obtain ⟨f₂, t, hf, ht, hunused, hframed₂⟩ := hopens.frame
    have hstreams := (hb f₂ hf).streams f₂ List.mem_cons_self
    have hcopying := Copying.start hm hr hn hL hg rfl hs hf ht hunused hu hframed₂ (by omega)
      (fun g' hg' hname => hallows g' hg' hname f₁ List.mem_cons_self _ (List.mem_of_getElem? hs))
      hemptied
    refine ⟨fun _ hname => absurd hname hcopying.ne, fun _ => ?_⟩
    rcases @copyLoop_copies n base i j n k₂ _ fs m s { v with dstStream := j + 4 } _ _ _ _ hcopying
      hsize hsrc rfl hc with ⟨k', r, hloop, hok⟩
    exact ⟨k', r, hloop, hcopying.ne, hok⟩

/-- `copy` returns, and if it returns `OK` then the destination has the content of the source, and the
    other files are unchanged.  If the two names are the same one, it does not return `OK`, and no file
    is changed. -/
theorem copyMain_copies (h : Reachable Event.KernelSafe k) (hm : Represents k.disk.io m)
    (hr : k.disk.io.readErrors = []) (hargs : (k.process k.currentProcess).begin ≤ args)
    (hsrc : shReadToken k.memory args argsEnd 0 = (srcName, srcLength, args'))
    (hdst : shReadToken k.memory args' argsEnd 0 = (dstName, dstLength, args'')) :
    ∃ N, ∀ n ≥ N, ∃ k' r, copyMain n k s args argsEnd heap heapLimit = some (k', r) ∧
      Copies m (k.memory.slice srcName srcLength) (k.memory.slice dstName dstLength) k'.disk.io r := by
  obtain ⟨base, f, fs, hframed⟩ := h.framed
  rw [hframed.process_eq] at hargs
  have hbegin := hframed.begin_ge f List.mem_cons_self
  obtain ⟨L, hL, hfiles⟩ := hm
  have hm : Represents k.disk.io m := ⟨L, hL, hfiles⟩
  refine ⟨(openStreams (f :: fs)).length + fs.length + 5 + k.disk.io.numBlocks +
    ((m.lookup (k.memory.slice srcName srcLength)).getD []).length + 1, fun n hn => ?_⟩
  have hbounded {f' : Frame} (hf' : f'.streams.length ≤ f.streams.length + 2) : Bounded n (f' :: fs) :=
    Bounded.of_lt (by omega) hf'
  unfold copyMain
  rw [hsrc]
  dsimp only
  rw [hdst]
  dsimp only
  by_cases hnull : srcName = 0 ∨ dstName = 0
  · rw [if_pos hnull]
    rcases osWrite_output_isSome n k s.usage 19 with ⟨k', r, hwrite, hdisk⟩
    rw [hwrite]
    refine ⟨k', _, rfl, .of_ne_ok (by decide) fun _ => ?_⟩
    rw [hdisk]
    exact hm
  rw [if_neg hnull]
  by_cases hsmall : U64.sub heapLimit heap < 64
  · rw [if_pos hsmall]
    exact ⟨k, _, rfl, .of_ne_ok (by decide) fun _ => hm⟩
  rw [if_neg hsmall]
  -- the two names are not empty, and the second one is in the memory of the process
  have htoken₁ : 1 ≤ srcLength ∧ args ≤ args' := by
    rcases shReadToken_cases k.memory args argsEnd 0 with ⟨-, heq⟩ | ⟨token, size, heq, hge, hpos, -⟩
    all_goals rw [hsrc] at heq; obtain ⟨rfl, rfl, rfl⟩ := heq
    · exact absurd (.inl rfl) hnull
    · exact ⟨hpos, by omega⟩
  have htoken₂ : 1 ≤ dstLength ∧ args ≤ dstName := by
    rcases shReadToken_cases k.memory args' argsEnd 0 with ⟨-, heq⟩ | ⟨token, size, heq, hge, hpos, -⟩
    all_goals rw [hdst] at heq; obtain ⟨rfl, rfl, rfl⟩ := heq
    · exact absurd (.inr rfl) hnull
    · exact ⟨hpos, by omega⟩
  obtain ⟨k₁, srcStream, hopen, houtcome⟩ := @osOpen_outcome n base k f fs L MODE_READ srcName
    srcLength hframed hL hr (by omega) fun f' hf' => hbounded (by have := hf'.length_le; omega)
  rw [hopen]
  dsimp only
  have herror {k₁ : Kernel} {src1 length1 src2 length2 result : Nat} (hresult : status result ≠ OK)
      (hio : k.memory.slice srcName srcLength = k.memory.slice dstName dstLength →
        k₁.disk.io = k.disk.io) :
      ∃ k' r, writeError n k₁ src1 length1 src2 length2 result = some (k', r) ∧
        Copies m (k.memory.slice srcName srcLength) (k.memory.slice dstName dstLength) k'.disk.io r := by
    rcases writeError_disk n k₁ src1 length1 src2 length2 result with ⟨k', heq, hdisk⟩
    refine ⟨k', _, heq, .of_ne_ok hresult fun hsame => ?_⟩
    rw [hdisk, hio hsame]
    exact hm
  cases houtcome with
  | failed hstatus _ _ _ hio =>
    have hresult := status_ne_ok (errorResult_ge hstatus)
    rw [if_pos hresult]
    exact herror hresult fun _ => hio
  | list hname =>
    rw [← List.length_eq_zero_iff, ByteMem.slice_length] at hname
    omega
  | write hmode => exact absurd hmode.symm modeWrite_ne_modeRead
  | @read i g hg hname _ hopens hio =>
    by_cases hstatus : status (i + 4) ≠ OK
    · rw [if_pos hstatus]
      exact herror hstatus fun _ => hio
    rw [if_neg hstatus]
    obtain ⟨f', t, hf', ht, -, hframed₁⟩ := hopens.frame
    have hlength := hf'.length_le
    have hlookup : m.lookup (k.memory.slice srcName srcLength) =
        some (fileContent k.disk.io.blocks g) := by
      rw [← hfiles, ← hname]
      exact lookup_imageFiles hL.namesNodup hg
    rw [hlookup, Option.getD_some] at hn
    -- the opening of the source keeps the disk and the memory of the process
    have hslice : k₁.memory.slice dstName dstLength = k.memory.slice dstName dstLength :=
      ByteMem.slice_congr fun j h1 h2 => hopens.kept.memory j (.inr (by omega))
    rw [← hio] at hm hL hr hlookup hn
    rcases @copyMain_opened n base i fs m L s ⟨srcName, srcLength, dstName, dstLength, heap,
      U64.sub heapLimit heap, i + 4, 0⟩ _ k₁ _ g dstName hframed₁ hm hr (by omega) hL hg
      (Frame.getElem?_setStream ht)
      (fun f'' hf'' => hbounded (by
        have hlength' := hf''.length_le
        rw [Frame.length_setStream] at hlength'
        omega))
      (by dsimp only; omega) rfl (by dsimp only; omega) hslice (by omega)
      with ⟨k₂, dstStream, hopen₂, hfailed, hok⟩
    rw [hopen₂]
    dsimp only
    by_cases hstatus₂ : status dstStream ≠ OK
    · rw [if_pos hstatus₂]
      refine herror hstatus₂ fun hsame => ?_
      rw [hfailed hstatus₂ (hname.trans hsame), hio]
    · rw [if_neg hstatus₂]
      rcases hok (not_not.mp hstatus₂) with ⟨k', r, hloop, hne, hcopied⟩
      refine ⟨k', r, hloop, fun hr => ⟨_, hlookup, hcopied hr⟩, fun hsame => ?_⟩
      exact absurd (hname.trans hsame) hne

/-! ### The bound -/

/-- `write_error`, within a larger bound. -/
theorem writeError_mono {n n' src1 length1 src2 length2 result : Nat} {r : Kernel × Nat} (hle : n ≤ n')
    (hrun : writeError n k src1 length1 src2 length2 result = some r) :
    writeError n' k src1 length1 src2 length2 result = some r := by
  rw [writeError] at hrun ⊢
  cases hfirst : osWrite n k STANDARD_OUTPUT src1 length1 with
  | none => simp only [hfirst, reduceCtorEq] at hrun
  | some first =>
    rw [osWrite_mono hle hfirst]
    simp only [hfirst] at hrun ⊢
    cases hsecond : osWrite n first.1 STANDARD_OUTPUT src2 length2 with
    | none => simp only [hsecond, reduceCtorEq] at hrun
    | some second =>
      rw [osWrite_mono hle hsecond]
      rw [hsecond] at hrun
      exact hrun

/-- The loop of `copy`, within larger bounds. -/
theorem copyLoop_mono {n n' loops loops' : Nat} {v : CopyLocals} {r : Kernel × Nat} (hle : n ≤ n')
    (hloops : loops ≤ loops') (hrun : copyLoop n s v loops k = some r) :
    copyLoop n' s v loops' k = some r := by
  induction loops generalizing loops' k with
  | zero => cases hrun
  | succ loops ih =>
    obtain ⟨loops', rfl⟩ : ∃ j, loops' = j + 1 := ⟨loops' - 1, by omega⟩
    rw [copyLoop] at hrun ⊢
    cases hread : osRead n k v.srcStream v.buffer v.bufferSize [] with
    | none => simp only [hread, reduceCtorEq] at hrun
    | some read =>
      rw [osRead_mono hle hread]
      simp only [hread] at hrun ⊢
      by_cases hread_status : status read.2 ≠ OK
      · rw [if_pos hread_status] at hrun ⊢
        exact writeError_mono hle hrun
      rw [if_neg hread_status] at hrun ⊢
      cases hwrite : osWrite n read.1 v.dstStream v.buffer read.2 with
      | none => simp only [hwrite, reduceCtorEq] at hrun
      | some written =>
        rw [osWrite_mono hle hwrite]
        simp only [hwrite] at hrun ⊢
        split_ifs at hrun ⊢
        · exact writeError_mono hle hrun
        · exact hrun
        · exact ih (Nat.le_of_succ_le_succ hloops) hrun

/-- `copy` returns the same result within every larger bound. -/
theorem copyMain_mono {n n' : Nat} {r : Kernel × Nat} (hle : n ≤ n')
    (hrun : copyMain n k s args argsEnd heap heapLimit = some r) :
    copyMain n' k s args argsEnd heap heapLimit = some r := by
  rw [copyMain] at hrun ⊢
  dsimp only at hrun ⊢
  split_ifs at hrun ⊢
  · cases husage : osWrite n k STANDARD_OUTPUT s.usage 19 with
    | none => simp only [husage, reduceCtorEq] at hrun
    | some written =>
      rw [osWrite_mono hle husage]
      rw [husage] at hrun
      exact hrun
  · exact hrun
  · generalize shReadToken k.memory args argsEnd 0 = src at *
    generalize shReadToken k.memory src.2.2 argsEnd 0 = dst at *
    cases hsrc : osOpen n k src.1 src.2.1 MODE_READ with
    | none => simp only [hsrc, reduceCtorEq] at hrun
    | some source =>
      rw [osOpen_mono hle hsrc]
      simp only [hsrc] at hrun ⊢
      split_ifs at hrun ⊢
      · exact writeError_mono hle hrun
      cases hdst : osOpen n source.1 dst.1 dst.2.1 MODE_WRITE with
      | none => simp only [hdst, reduceCtorEq] at hrun
      | some destination =>
        rw [osOpen_mono hle hdst]
        simp only [hdst] at hrun ⊢
        split_ifs at hrun ⊢
        · exact writeError_mono hle hrun
        · exact copyLoop_mono hle hle hrun

/-! ### A file of two blocks -/

/-- The files of `systemDisk`. -/
def systemFiles : Files := imageFiles systemDisk.io.blocks systemLayout.files

/-- The system when its shell has stored the arguments of the program. -/
def copyingKernel (arguments : List UInt8) : Kernel := systemKernel.storeBytes 4096 arguments

/-- The names "shell" and "b". -/
def copyArguments : List UInt8 := [115, 104, 101, 108, 108, 32, 98]

/-- Twice the name "shell". -/
def sameArguments : List UInt8 := [115, 104, 101, 108, 108, 32, 115, 104, 101, 108, 108]

/-- The arguments are in the first page of the memory of the shell. -/
theorem copyingKernel_reachable {arguments : List UInt8} (hlength : arguments.length < 4096) :
    Reachable Event.KernelSafe (copyingKernel arguments) := by
  apply Reachable.step (e := .user (systemKernel.memory.copyIn 4096 arguments))
    (Reachable.boot systemKernel_booted)
  · intro j hj
    exact ByteMem.copyIn_of_not_mem (.inl (lt_of_lt_of_le hj (by decide +kernel)))
  · apply Step.storeBytes
    intro page h1 h2
    obtain rfl : page = 1 := by omega
    decide +kernel

/-- The arguments of the command are not on the disk. -/
theorem copyingKernel_io {arguments : List UInt8} : (copyingKernel arguments).disk.io = systemDisk.io :=
  systemKernel_io

/-- The system when the program has copied the file. -/
def copiedRun : Option (Kernel × Nat) :=
  copyMain 12 (copyingKernel copyArguments) ⟨0, 0, 0, 0⟩ 4096 4103 4128 4328

theorem copiedRun_eq : copiedRun.map Prod.snd = some OK := by decide +kernel

/-- The 520 bytes of "shell" are copied to the new file "b" through a buffer of 200 bytes.  The program
    refuses to copy "shell" to itself. -/
theorem copyMain_copies_shell :
    (∃ N, ∀ n ≥ N, ∃ k' c,
      copyMain n (copyingKernel copyArguments) ⟨0, 0, 0, 0⟩ 4096 4103 4128 4328 = some (k', OK) ∧
        systemFiles.lookup [115, 104, 101, 108, 108] = some c ∧ c.length = 520 ∧
        Represents k'.disk.io (systemFiles.insert [98] c)) ∧
    ∃ N, ∀ n ≥ N, ∃ k' r,
      copyMain n (copyingKernel sameArguments) ⟨0, 0, 0, 0⟩ 4096 4107 4128 4328 = some (k', r) ∧
        r ≠ OK ∧ Represents k'.disk.io systemFiles := by
  constructor
  · obtain ⟨N, hN⟩ := @copyMain_copies (copyingKernel copyArguments) systemFiles ⟨0, 0, 0, 0⟩ 4096 4103 4101 4103
      4128 4328 4096 5 4102 1 (copyingKernel_reachable (by decide))
      (by rw [copyingKernel_io]; exact ⟨_, systemDisk_describes, rfl⟩) (by rw [copyingKernel_io]; rfl)
      (by decide +kernel) (by decide +kernel) (by decide +kernel)
    refine ⟨max N 12, fun n hn => ?_⟩
    obtain ⟨k', r, hrun, hcopies⟩ := hN n (le_trans (le_max_left _ _) hn)
    -- the result is the one within the bound 12
    obtain ⟨⟨k₁, r₁⟩, hcopied, hok⟩ := Option.map_eq_some_iff.mp copiedRun_eq
    have hsame := hrun.symm.trans (copyMain_mono (le_trans (le_max_right _ _) hn) hcopied)
    rw [Option.some_inj, Prod.mk.injEq] at hsame
    obtain rfl : r = OK := hsame.2.trans hok
    obtain ⟨c, hc, hfiles⟩ := hcopies.ok rfl
    have hsrc : (copyingKernel copyArguments).memory.slice 4096 5 = [115, 104, 101, 108, 108] := by decide +kernel
    have hdst : (copyingKernel copyArguments).memory.slice 4102 1 = [98] := by decide +kernel
    rw [hsrc] at hc
    rw [hdst] at hfiles
    have hlength : (systemFiles.lookup [115, 104, 101, 108, 108]).map List.length = some 520 := by decide +kernel
    rw [hc, Option.map_some, Option.some_inj] at hlength
    exact ⟨k', c, hrun, hc, hlength, hfiles⟩
  · obtain ⟨N, hN⟩ := @copyMain_copies (copyingKernel sameArguments) systemFiles ⟨0, 0, 0, 0⟩ 4096 4107 4101 4107
      4128 4328 4096 5 4102 5 (copyingKernel_reachable (by decide))
      (by rw [copyingKernel_io]; exact ⟨_, systemDisk_describes, rfl⟩) (by rw [copyingKernel_io]; rfl)
      (by decide +kernel) (by decide +kernel) (by decide +kernel)
    refine ⟨N, fun n hn => ?_⟩
    obtain ⟨k', r, hrun, hcopies⟩ := hN n hn
    exact ⟨k', r, hrun, hcopies.same (by decide +kernel)⟩

end Toys.Commands
