import Mathlib
import Toys.FileSystem.Entries
import Toys.Os.FailedCalls
import Toys.Os.OpenFiles

namespace Toys.Os

open Toys.Lib Toys.FileSystem

/-!
# Kernel — listing the files

A process opens a list of the files and reads their names, one by one, while files are created
and deleted by itself and by its descendants.  The stream holds the first block of the next
file: `os_delete` moves it on before it frees this block.

* `ListRun` — the runs of a process that lists the files;
* `Listed` — the invariant: the stream is the cursor of a scan of the files;
* `StepEffect.listed`, `Listed.read` — what a step keeps, and what a read finds;
* `listing_of_outputSafe` — the names that are read, in the runs in which no output is written
  over the memory of the kernel;
* `not_listing` — and not in all runs.
-/

variable {n base r id i p : Nat} {k k' k₁ : Kernel} {f g : Frame} {fs fs' : List Frame} {e : Event}
  {a : CallArguments} {io io' : BlockIo} {L L' : Layout} {s s' : StreamState}
  {x : List UInt8 × Nat} {name : List UInt8} {found : List (List UInt8)}
  {kept kept' : List UInt8 → Prop} {ss : List StreamState}

/-! ### The stream of the list -/

/-- The stream `i` of the process `p` is `s`, which lists the files. -/
structure ListStream (p i : Nat) (s : StreamState) (fs : List Frame) : Prop where
  mode : s.mode = MODE_LIST
  stream : ∃ g ∈ fs, g.address = p ∧ g.streams[i]? = some s

/-- The stream of the list is one of a process below the current one, or another one of the
    current process. -/
theorem ListStream.replace {f' : Frame} (h : ListStream p i s (f :: fs))
    (haddress : f'.address = f.address)
    (hstream : f.address = p → f.streams[i]? = some s → f'.streams[i]? = some s) :
    ListStream p i s (f' :: fs) := by
  refine ⟨h.mode, ?_⟩
  obtain ⟨g, hg, hp, hs⟩ := h.stream
  rcases List.mem_cons.mp hg with rfl | hg
  · exact ⟨f', List.mem_cons_self, haddress.trans hp, hstream hp hs⟩
  · exact ⟨g, List.mem_cons_of_mem _ hg, hp, hs⟩

/-- The result of a child does not change the list of its parent. -/
theorem ListStream.withResult {address : Nat} (h : ListStream p i s fs) :
    ListStream p i s (fs.map (Frame.withResult address r)) := by
  refine ⟨h.mode, ?_⟩
  obtain ⟨g, hg, hp, hs⟩ := h.stream
  refine ⟨g.withResult address r, List.mem_map_of_mem hg, ?_, ?_⟩
  · rw [Frame.withResult_address, hp]
  · rw [Frame.withResult_streams, hs]

/-- The stream of the list is not one of a process that ends. -/
theorem ListStream.exit {result : Nat} (h : ListStream p i s (f :: g :: fs)) (hne : f.address ≠ p) :
    ListStream p i s ({ g with process := { g.process with savedR8 := result } } :: fs) := by
  obtain ⟨g', hg', hp, hs⟩ := h.stream
  have hmem : g' ∈ g :: fs := by
    refine (List.mem_cons.mp hg').resolve_left ?_
    rintro rfl
    exact hne hp
  have htail : ListStream p i s (g :: fs) := ⟨h.mode, g', hmem, hp, hs⟩
  exact htail.replace rfl fun _ hs => hs

/-- What is related to an element is at the same place. -/
theorem forall₂_getElem {α β : Type*} {R : α → β → Prop} {l : List α} {l' : List β}
    (h : List.Forall₂ R l l') {j : Nat} {x : α} (hx : l[j]? = some x) :
    ∃ y, l'[j]? = some y ∧ R x y := by
  obtain ⟨hj, rfl⟩ := List.getElem?_eq_some_iff.mp hx
  have hj' : j < l'.length := h.length_eq ▸ hj
  exact ⟨_, List.getElem?_eq_getElem hj', h.get hj hj'⟩

/-- The stream of the list when a file is deleted. -/
theorem ListStream.skips {frames : List Frame} {file : Nat} {next : BlockIo}
    (h : ListStream p i s fs) (hskips : List.Forall₂ (Frame.Skips next file) fs frames) :
    ∃ s', s.Skips next file s' ∧ ListStream p i s' frames := by
  obtain ⟨g, hg, hp, hs⟩ := h.stream
  obtain ⟨j, hj⟩ := List.mem_iff_getElem?.mp hg
  obtain ⟨g', hg', hskip⟩ := forall₂_getElem hskips hj
  obtain ⟨s', hs', hs''⟩ := forall₂_getElem hskip.streams hs
  refine ⟨s', hs'', ?_, g', List.mem_of_getElem? hg', hskip.address.trans hp, hs'⟩
  unfold StreamState.Skips at hs''
  split at hs''
  · obtain ⟨b, -, rfl⟩ := hs''
    exact h.mode
  · rw [hs'']
    exact h.mode

/-- A new stream does not change the others. -/
theorem Frame.Extends.stream_eq {f' : Frame} (h : f.Extends f') (hs : f.streams[i]? = some s) :
    f'.streams[i]? = some s := by
  rcases h with rfl | ⟨t, -, rfl⟩
  · exact hs
  · have hi := (List.getElem?_eq_some_iff.mp hs).1
    exact (List.getElem?_append_left hi).trans hs

/-- A change of the files, seen from a scan that is not at a file that is removed. -/
theorem EntriesChange.change {es es' : List (List UInt8 × Nat)} {c : Nat} (h : EntriesChange es es') :
    Change 0 es c es' c := by
  cases h with
  | kept => exact Change.kept
  | created h => exact Change.insert h

/-- How a step changes the stream of the list and the files. -/
structure ListChange (p i : Nat) (L : Layout) (s : StreamState) (io' : BlockIo) (fs' : List Frame) :
    Prop where
  exists_change : ∃ L' s', OpenFiles io' L' (openStreams fs') ∧ ListStream p i s' fs' ∧
    Change 0 L.entries s.fileBlock L'.entries s'.fileBlock

/-- A call changes the list as a scan can follow it, unless it is a call of the process `p` on the
    stream of the list or the end of this process. -/
theorem Effect.listed (h : Effect n base k f fs id a k' r fs')
    (ho : OpenFiles k.disk.io L (openStreams (f :: fs))) (hs : ListStream p i s (f :: fs))
    (hstream : f.address = p → id = 5 ∨ id = 6 ∨ id = 7 → a.arg0 ≠ i + 4)
    (hexit : f.address = p → id = 1 → r ≠ OK) : ListChange p i L s k'.disk.io fs' := by
  cases h with
  | quiet _ hreads => exact ⟨L, s, ho.of_afterReads hreads, hs, Change.kept⟩
  | key => exact ⟨L, s, ho, hs, Change.kept⟩
  | output =>
    have hdisk : (osWriteOutput k a.arg0 a.arg1 a.arg2).1.disk = k.disk := by
      unfold osWriteOutput
      split_ifs
      all_goals rfl
    rw [hdisk]
    exact ⟨L, s, ho, hs, Change.kept⟩
  | @stream disk memory j r t t' hid harg ht hchange =>
    obtain ⟨pre, post, heq, hset⟩ := openStreams_setStream fs ht
    rw [heq] at ho
    obtain ⟨L', hentries, ho'⟩ := hchange.openFiles ho
    refine ⟨L', s, by rw [hset]; exact ho', hs.replace rfl fun hp hget => ?_, hentries ▸ Change.kept⟩
    -- the call is on another stream
    have hne : j ≠ i := by
      rintro rfl
      exact hstream hp hid harg
    show (f.streams.set j t')[i]? = some s
    rw [List.getElem?_set_ne hne, hget]
  | @opened disk memory heap j r t t' f' hid hf ht hmode hopen =>
    obtain ⟨pre, post, heq, hset⟩ := openStreams_setStream fs ht
    replace ho := ho.extends hf
    rw [heq] at ho
    obtain ⟨L', hentries, ho'⟩ := hopen.openFiles heq ho
    refine ⟨L', s, by rw [hset]; exact ho', hs.replace hf.address_eq fun hp hget => ?_,
      hentries.change⟩
    have hget' : f'.streams[i]? = some s := hf.stream_eq hget
    -- the stream that is opened was unused
    have hne : j ≠ i := by
      rintro rfl
      rw [hget', Option.some_inj] at ht
      rw [← ht, hs.mode] at hmode
      exact absurd hmode (by decide)
    show (f'.streams.set j t')[i]? = some s
    rw [List.getElem?_set_ne hne, hget']
  | openFailed _ hf hreads hdisk =>
    have ho' := (ho.extends hf).of_afterReads hreads
    have hs' : ListStream p i s (_ :: fs) := hs.replace hf.address_eq fun _ hget => hf.stream_eq hget
    rcases hdisk with rfl | ⟨name, status, hcreate⟩
    · exact ⟨L, s, ho', hs', Change.kept⟩
    · exact ⟨L, s, ho'.of_afterReads (diskCreateFile_error_afterReads hcreate), hs', Change.kept⟩
  | @delete disk₁ disk₂ disk memory file previous frames _ hfind hfile hallows hskips hreads hdelete =>
    obtain ⟨hio, hfound, -⟩ := ho.found hfind hfile
    have ho₁ := ho.of_afterReads (diskFindFile_afterReads hfind)
    have ho₂ := ho₁.of_afterReads hreads
    rw [← hio, ← hreads.eq ho₁.readErrors] at hfound
    have hall : ∀ t ∈ openStreams (f :: fs), t.Allows file MODE_WRITE := by
      intro t ht
      obtain ⟨g, hg, ht⟩ := List.mem_flatMap.mp ht
      exact hallows g hg t ht
    obtain ⟨L', before, after, name, heq, heq', ho'⟩ :=
      ho₂.delete hfound hall (openStreams_skips hskips) hdelete
    obtain ⟨s', hskip, hs'⟩ := hs.skips hskips
    refine ⟨L', s', ho', hs', ?_⟩
    rw [heq']
    unfold StreamState.Skips at hskip
    split at hskip
    · rename_i hlist
      obtain ⟨next, hnext, rfl⟩ := hskip
      -- the stream moves on to the file after the one that is deleted
      have hblock : next = (disk₁.io.blocks file).nextFile := by
        refine hnext.resolve_right ?_
        rintro ⟨-, herror⟩
        have hmem : (name, file) ∈ L.entries := by rw [heq]; simp
        obtain ⟨g, hg, hgeq⟩ := List.mem_map.mp hmem
        have hlt : g.first < disk₁.io.numBlocks := (ho₁.describes.first_lt hg).2
        obtain ⟨-, rfl⟩ := Prod.mk.inj hgeq
        rcases herror with herror | herror
        · exact herror ho₁.readErrors
        · omega
      have hafter := ho₁.describes.nextFile_eq heq
      simp only [hblock]
      rw [show (disk₁.io.blocks file).nextFile = firstAddress 0 after from hafter]
      exact Change.skip heq hlist.2
    · rename_i hlist
      subst hskip
      exact Change.erase heq fun hc => hlist ⟨hs.mode, hc⟩
  | spawn _ hreads =>
    refine ⟨L, s, ho.of_afterReads hreads, ⟨hs.mode, ?_⟩, Change.kept⟩
    obtain ⟨g, hg, hg'⟩ := hs.stream
    exact ⟨g, List.mem_cons_of_mem _ hg, hg'⟩
  | exit hid hfs _ =>
    subst hfs
    rw [osExit_disk]
    have hne : f.address ≠ p := fun hp => hexit hp hid rfl
    exact ⟨L, s, ho.sublist (List.sublist_append_right _ _), hs.exit hne, Change.kept⟩

/-! ### The steps -/

/-- The event is neither the end of the process `p`, nor a successful `os_read` or `os_close` of its
    stream `streamId`. -/
def Event.KeepsList (k : Kernel) (p streamId : Nat) (e : Event) : Prop :=
  k.currentProcess = p → (∀ r, ¬ e.Exits k r) ∧
    ∀ n id a r, e.Returns k n id a r → id = 5 ∨ id = 7 → a.arg0 = streamId → 2 ^ 56 ≤ r

/-- The frames of the other processes are under the one of the current process. -/
theorem ListStream.current (hk : Framed k base (f :: fs)) (h : ListStream p i s (f :: fs))
    (hp : f.address = p) : f.streams[i]? = some s := by
  obtain ⟨g, hg, hgp, hs⟩ := h.stream
  rcases List.mem_cons.mp hg with rfl | hg
  · exact hs
  · have hend := hk.frames.2.2.endAddress_le g hg
    have hlt := g.address_lt
    omega

/-- `os_write` fails on a list of files. -/
theorem osWrite_list {buffer size : Nat} (h : Framed k base (f :: fs)) (hs : f.streams[i]? = some s)
    (hmode : s.mode = MODE_LIST) (hrun : osWrite n k (i + 4) buffer size = some (k', r)) : k' = k := by
  have hid : ¬ i + 4 < FIRST_FILE_STREAM_ID := by
    unfold FIRST_FILE_STREAM_ID
    omega
  simp only [osWrite, h.process_eq] at hrun
  by_cases hbuffer : processContainsBuffer f.process buffer size = true
  case neg =>
    rw [if_pos hbuffer, Option.some.injEq, Prod.mk.injEq] at hrun
    exact hrun.1.symm
  rw [if_neg (not_not_intro hbuffer), if_neg hid] at hrun
  cases hget : processGetFileStream n k.memory k.currentProcess (i + 4) with
  | none => simp [hget] at hrun
  | some stream =>
    simp only [hget] at hrun
    by_cases hc : stream = 0 ∨ (k.stream stream).mode = MODE_UNUSED
    · rw [if_pos hc, Option.some.injEq, Prod.mk.injEq] at hrun
      exact hrun.1.symm
    rw [if_neg hc] at hrun
    obtain ⟨j, t, next, ht, rfl, hread, hj⟩ := h.getFileStream hget fun h0 => hc (Or.inl h0)
    obtain rfl : i = j := by omega
    obtain rfl : s = t := Option.some.inj (hs.symm.trans ht)
    have hnot : (k.stream (f.streamAddress i)).mode ≠ MODE_WRITE := by
      rw [hread]
      show s.mode ≠ MODE_WRITE
      rw [hmode]
      decide
    rw [if_pos hnot, Option.some.injEq, Prod.mk.injEq] at hrun
    exact hrun.1.symm

/-- The calls on the stream of a list, other than a read or its end, change nothing. -/
theorem call_listed {keys : List (Option UInt32)} (h : Framed k base (f :: fs))
    (hs : f.streams[i]? = some s) (hmode : s.mode = MODE_LIST)
    (hname : s.fileBlock ≠ 0 →
      (diskReadBlockBuffer k.disk s.fileBlock).blockBuffer.nameLength < 2 ^ 56)
    (hid : id = 5 ∨ id = 6 ∨ id = 7) (harg : a.arg0 = i + 4) (hfail : id = 5 ∨ id = 7 → 2 ^ 56 ≤ r)
    (hrun : call n k id a keys = some (k', r)) : k' = k := by
  rcases hid with rfl | rfl | rfl
  · have hr := hfail (Or.inl rfl)
    have hread : osRead n k a.arg0 a.arg1 a.arg2 keys = some (k', r) := hrun
    cases osRead_cases h hread with
    | failed => rfl
    | listEnd => rfl
    | key => exact absurd hr (by decide)
    | @list j t disk hj ht hmode' h0 hbuffer hdisk =>
      obtain rfl : i = j := by omega
      obtain rfl : s = t := Option.some.inj (hs.symm.trans ht)
      have hlt := hname h0
      rw [hdisk] at hr
      omega
    | @file j t disk result hj ht hmode' =>
      obtain rfl : i = j := by omega
      obtain rfl : s = t := Option.some.inj (hs.symm.trans ht)
      exact absurd (hmode.symm.trans hmode') (by decide)
  · have hwrite : osWrite n k a.arg0 a.arg1 a.arg2 = some (k', r) := hrun
    rw [harg] at hwrite
    exact osWrite_list h hs hmode hwrite
  · have hclose : osClose n k a.arg0 = some (k', r) := hrun
    exact osClose_failed (hfail (Or.inr rfl)) hclose

/-- A step of the kernel changes a list as it changes the files. -/
theorem StepEffect.listed (hk : Framed k base (f :: fs)) (h : StepEffect base k f fs e k' fs')
    (ho : OpenFiles k.disk.io L (openStreams (f :: fs))) (hs : ListStream p i s (f :: fs))
    (hstream : f.address = p → ∀ n id a r, e.Returns k n id a r → id = 5 ∨ id = 6 ∨ id = 7 →
      a.arg0 ≠ i + 4)
    (hexit : f.address = p → ∀ r, ¬ e.Exits k r) : ListChange p i L s k'.disk.io fs' := by
  have hcurrent : k.currentProcess = f.address := hk.current
  cases h with
  | user => exact ⟨L, s, ho, hs, Change.kept⟩
  | @call n id args returnAddress stackPointer keys k₁ r fs₁ a ha hcall hframed heffect =>
    rw [← hcurrent] at hcall
    have hreturns : (Event.syscall n id args returnAddress stackPointer keys).Returns k n id.toNat a r :=
      ⟨rfl, rfl, ha, k₁, hcall⟩
    have hsaved : ListStream p i s (f.saved returnAddress.toNat stackPointer.toNat :: fs) :=
      hs.replace rfl fun _ hget => hget
    obtain ⟨L', s', ho', hs', hchange⟩ := heffect.listed (L := L) ho hsaved
      (fun hp hid => hstream hp _ _ _ _ hreturns hid) fun hp hid hok => by
        subst hok
        exact hexit hp _ (Or.inl ⟨n, a, hid ▸ hreturns, rfl⟩)
    refine ⟨L', s', ?_, hs'.withResult, hchange⟩
    rw [openStreams_withResult]
    exact ho'
  | shellFault hfs =>
    subst hfs
    exact ⟨L, s, ho, hs, Change.kept⟩
  | fault hfs =>
    subst hfs
    have hne : f.address ≠ p := fun hp =>
      hexit hp _ (Or.inr ⟨rfl, congrArg Prod.snd (osExit_eq hk (by decide)), rfl⟩)
    rw [osExit_disk]
    exact ⟨L, s, ho.sublist (List.sublist_append_right _ _), hs.exit hne, Change.kept⟩

/-- A step that is not a read of the list, nor its end. -/
theorem Step.listed (hk : Framed k base (f :: fs)) (hsafe : e.KernelSafe k) (hstep : Step k e k')
    (ho : OpenFiles k.disk.io L (openStreams (f :: fs))) (hs : ListStream p i s (f :: fs))
    (hname : s.fileBlock ≠ 0 →
      (diskReadBlockBuffer k.disk s.fileBlock).blockBuffer.nameLength < 2 ^ 56)
    (hkeep : e.KeepsList k p (i + 4)) :
    ∃ f' fs', Framed k' base (f' :: fs') ∧ ListChange p i L s k'.disk.io (f' :: fs') := by
  have hcurrent : k.currentProcess = f.address := hk.current
  by_cases hown : ∃ n id a r, f.address = p ∧ e.Returns k n id a r ∧ (id = 5 ∨ id = 6 ∨ id = 7) ∧
      a.arg0 = i + 4
  · -- a call of the process on the stream of the list
    obtain ⟨n, id, a, r, hp, hr, hid, harg⟩ := hown
    have hcaller := Event.calling_framed (e := e) hk
    have hget : (e.caller f).streams[i]? = some s := by
      rw [Event.caller_streams]
      exact hs.current hk hp
    obtain ⟨k₁, rfl, hcall⟩ := hstep.of_returns hr
    obtain rfl : k₁ = e.calling k := by
      rcases hcall with hcall | ⟨hk₁, -⟩
      · refine call_listed hcaller hget hs.mode ?_ hid harg ?_ hcall
        · rw [Event.calling_disk]
          exact hname
        · exact fun hid => (hkeep (hcurrent.trans hp)).2 n id a r hr hid harg
      · exact hk₁
    have hframed := @Framed.setResult _ _ _ k.currentProcess r hcaller
      (Or.inr ⟨_, List.mem_cons_self, Event.caller_address.trans hcurrent.symm⟩)
    have hsame : openStreams ((e.caller f :: fs).map (Frame.withResult k.currentProcess r)) =
        openStreams (f :: fs) := by
      rw [openStreams_withResult, openStreams_cons, openStreams_cons, Event.caller_streams]
    have hs' : ListStream p i s (e.caller f :: fs) :=
      hs.replace Event.caller_address fun _ hget => by rw [Event.caller_streams, hget]
    rw [List.map_cons] at hframed hsame
    refine ⟨_, _, hframed, L, s, ?_, hs'.withResult, Change.kept⟩
    rw [hsame]
    show OpenFiles (e.calling k).disk.io L _
    rw [Event.calling_disk]
    exact ho
  · obtain ⟨fs', hframed, heffect⟩ := step_effect hk hsafe hstep
    obtain ⟨f', fs', rfl⟩ := List.exists_cons_of_ne_nil heffect.ne_nil
    refine ⟨f', fs', hframed, heffect.listed hk ho hs ?_ fun hp => (hkeep (hcurrent.trans hp)).1⟩
    exact fun hp n id a r hr hid harg => hown ⟨n, id, a, r, hp, hr, hid, harg⟩

/-! ### Opening the list -/

/-- The event opens a list of the files, as the stream `streamId`. -/
def Event.OpensList (k : Kernel) (streamId : Nat) (e : Event) : Prop :=
  ∃ n a, e.Returns k n 4 a streamId ∧ streamId < 2 ^ 56 ∧ a.arg1 = 0

/-- `os_open` with an empty name. -/
theorem osOpen_list {address mode : Nat} (h : Framed k base (f :: fs))
    (ho : OpenFiles k.disk.io L (openStreams (f :: fs)))
    (hrun : osOpen n k address 0 mode = some (k', r)) (hok : r < 2 ^ 56) :
    ∃ i f' s, r = i + 4 ∧ Framed k' base (f' :: fs) ∧ f'.address = f.address ∧
      OpenFiles k'.disk.io L (openStreams (f' :: fs)) ∧ f'.streams[i]? = some s ∧
      s.mode = MODE_LIST ∧ s.fileBlock = firstAddress 0 L.entries := by
  have herror : ∀ status, status ≠ .ok → ¬ errorResult status < 2 ^ 56 := fun status hstatus =>
    not_lt.mpr (errorResult_ge hstatus)
  cases osOpen_cases h hrun with
  | rejected => exact absurd hok (herror _ (by decide))
  | full => exact absurd hok (herror _ (by decide))
  | listWritten => exact absurd hok (herror _ (by decide))
  | failed hstatus => exact absurd hok (herror _ hstatus)
  | opened hopen => exact absurd rfl hopen.named
  | @list disk heap i memory memory' f' s hlength hmode hfind hdisk hframed hkept =>
    have hreads := diskReadBlockBuffer_afterReads k.disk SUPER_BLOCK
    rw [hdisk] at hreads
    -- the superblock holds the first block of the first file
    have hfirst : disk.blockBuffer.nextFile = firstAddress 0 L.entries := by
      have hread : diskReadBlockBuffer ⟨k.disk.io, k.disk.blockBuffer⟩ SUPER_BLOCK =
          ⟨k.disk.io, k.disk.io.blocks SUPER_BLOCK⟩ :=
        diskReadBlockBuffer_eq ho.readErrors ho.describes.super_lt
      rw [← hdisk, show k.disk = ⟨k.disk.io, k.disk.blockBuffer⟩ from rfl, hread]
      exact ho.describes.firstFile_eq
    obtain ⟨pre, post, heq, hset⟩ := openStreams_setStream fs hfind.stream
    have ho' := (ho.extends hfind.extended).of_afterReads hreads
    rw [heq] at ho'
    refine ⟨i, _, _, rfl, hframed, hfind.extended.address_eq, ?_,
      Frame.getElem?_setStream hfind.stream, rfl, hfirst⟩
    rw [hset]
    exact ho'.close (StreamState.not_opened (Or.inr rfl))

/-! ### The invariant -/

/-- The stream `i` of the process `p` is a list of the files, of which `found` were read. -/
structure Listed (base p i : Nat) (found : List (List UInt8)) (kept : List UInt8 → Prop)
    (k : Kernel) : Prop where
  exists_scan : ∃ f fs L s, Framed k base (f :: fs) ∧ OpenFiles k.disk.io L (openStreams (f :: fs)) ∧
    ListStream p i s (f :: fs) ∧ Scan NameLt 0 L.entries s.fileBlock found kept

/-- A list that was just opened. -/
theorem Event.OpensList.listed {streamId : Nat} (hk : Framed k base (f :: fs))
    (ho : OpenFiles k.disk.io L (openStreams (f :: fs))) (hs : Step k e k')
    (hopen : e.OpensList k streamId) :
    ∃ i, streamId = i + 4 ∧ Listed base k.currentProcess i [] (HasFile k'.disk.io) k' := by
  obtain ⟨n, a, hr, hok, hlength⟩ := hopen
  have hcaller := Event.calling_framed (e := e) hk
  have hcurrent : k.currentProcess = f.address := hk.current
  obtain ⟨k₁, rfl, hcall⟩ := hs.of_returns hr
  have hopen : osOpen n (e.calling k) a.arg0 0 a.arg2 = some (k₁, streamId) := by
    rw [← hlength]
    refine hcall.resolve_right fun hc => ?_
    rw [hc.2] at hok
    exact absurd hok (by decide)
  have ho' : OpenFiles (e.calling k).disk.io L (openStreams (e.caller f :: fs)) := by
    rw [Event.calling_disk, openStreams_cons, Event.caller_streams]
    exact ho
  obtain ⟨i, f', s, rfl, hframed, haddress, ho₁, hget, hmode, hfirst⟩ :=
    osOpen_list hcaller ho' hopen hok
  have haddress' : f'.address = k.currentProcess := by rw [haddress, Event.caller_address, hcurrent]
  have hframed' := @Framed.setResult _ _ _ k.currentProcess (i + 4) hframed
    (Or.inr ⟨_, List.mem_cons_self, haddress'⟩)
  have hs' : ListStream k.currentProcess i s (f' :: fs) :=
    ⟨hmode, f', List.mem_cons_self, haddress', hget⟩
  rw [List.map_cons] at hframed'
  refine ⟨i, rfl, ⟨_, _, L, s, hframed', ?_, hs'.withResult, ?_⟩⟩
  · rw [← List.map_cons (f := Frame.withResult _ _), openStreams_withResult]
    exact ho₁
  · rw [hfirst]
    exact Scan.start fun name hname => ho₁.describes.hasFile_iff.mp hname

/-- A step that is not a read of the list keeps the scan, of the files that are still there. -/
theorem Listed.other (h : Listed base p i found kept k) (hsafe : e.KernelSafe k) (hstep : Step k e k')
    (hkeep : e.KeepsList k p (i + 4)) :
    Listed base p i found (fun name => kept name ∧ HasFile k'.disk.io name) k' := by
  obtain ⟨f, fs, L, s, hk, ho, hs, hscan⟩ := h.exists_scan
  have hname : s.fileBlock ≠ 0 →
      (diskReadBlockBuffer k.disk s.fileBlock).blockBuffer.nameLength < 2 ^ 56 := by
    intro h0
    obtain ⟨x, hx, hc⟩ := hscan.exists_entry h0
    obtain ⟨hread, hlength, -, -, hle⟩ := ho.describes.readEntry k.disk.blockBuffer ho.readErrors hx
    rw [hc, show k.disk = ⟨k.disk.io, k.disk.blockBuffer⟩ from rfl, hread]
    show (k.disk.io.blocks x.2).nameLength < 2 ^ 56
    omega
  obtain ⟨f', fs', hk', L', s', ho', hs', hchange⟩ := Step.listed hk hsafe hstep ho hs hname hkeep
  refine ⟨f', fs', L', s', hk', ho', hs', ?_⟩
  exact hscan.change ho.describes.entries ho'.describes.entries hchange (fun _ hname => hname.1)
    fun name hname => ho'.describes.hasFile_iff.mp hname.2

/-- What `os_read` does on the stream of a list. -/
theorem osRead_list {buffer size : Nat} {keys : List (Option UInt32)} (h : Framed k base (f :: fs))
    (ho : OpenFiles k.disk.io L (openStreams (f :: fs))) (hs : f.streams[i]? = some s)
    (hmode : s.mode = MODE_LIST) (hscan : Scan NameLt 0 L.entries s.fileBlock found kept)
    (hsize : 488 ≤ size) (hr : r < 2 ^ 56)
    (hrun : osRead n k (i + 4) buffer size keys = some (k', r)) :
    (r = 0 ∧ s.fileBlock = 0 ∧ k' = k) ∨ ∃ x ∈ L.entries, s.fileBlock = x.2 ∧ 0 < r ∧
      k'.memory.slice buffer r = x.1 ∧ k'.disk.io = k.disk.io ∧ k'.heapLimit = k.heapLimit ∧
      k.heapLimit ≤ buffer ∧ Framed k' base (f.setStream i { s with
        fileBlock := nextFileOf k.disk.io.blocks x.2 } :: fs) := by
  have hbegin := h.begin_ge f List.mem_cons_self
  cases osRead_cases h hrun with
  | failed hstatus => exact absurd hr (not_lt.mpr (errorResult_ge hstatus))
  | key _ _ hc =>
    have hlt := keyRead_lt hc
    unfold FIRST_FILE_STREAM_ID at hlt
    omega
  | @listEnd j t hj ht hmode' h0 =>
    obtain rfl : i = j := by omega
    obtain rfl : s = t := Option.some.inj (hs.symm.trans ht)
    exact Or.inl ⟨rfl, h0, rfl⟩
  | @list j t disk hj ht hmode' h0 hbuffer hdisk =>
    obtain rfl : i = j := by omega
    obtain rfl : s = t := Option.some.inj (hs.symm.trans ht)
    obtain ⟨x, hx, hc⟩ := hscan.exists_entry h0
    obtain ⟨hread, hlength, hname, hpos, hle⟩ :=
      ho.describes.readEntry k.disk.blockBuffer ho.readErrors hx
    obtain ⟨hge, -, -⟩ := (processContainsBuffer_iff h.fits).mp hbuffer
    obtain ⟨-, hsle⟩ := h.streamAddress_bounds hs
    have hheap := h.heap_le
    have heq : disk = ⟨k.disk.io, k.disk.io.blocks x.2⟩ := by rw [hdisk, hc]; exact hread
    have hmin : min size disk.blockBuffer.nameLength = x.1.length := by
      rw [heq]
      show min size (k.disk.io.blocks x.2).nameLength = x.1.length
      omega
    obtain ⟨hframed, -⟩ := h.readList disk (min size disk.blockBuffer.nameLength) hs hge
    rw [hmin] at hframed ⊢
    subst heq
    refine Or.inr ⟨x, hx, hc, hpos, ?_, rfl, rfl, by omega, hframed⟩
    -- the name is in the memory of the process
    show ByteMem.slice (setFileBlock (k.memory.copyIn buffer ((k.disk.io.blocks x.2).read 24 _)) _ _)
      buffer _ = x.1
    rw [hname]
    refine (ByteMem.slice_congr fun j h1 h2 => ?_).trans (ByteMem.slice_copyIn_self k.memory buffer x.1)
    exact ByteMem.store_of_not_mem (by omega)
  | @file j t disk result hj ht hmode' =>
    obtain rfl : i = j := by omega
    obtain rfl : s = t := Option.some.inj (hs.symm.trans ht)
    exact absurd (hmode.symm.trans hmode') (by decide)

/-- The call that the event makes, and the frame of the caller. -/
theorem Listed.call {f : Frame} (hk : Framed k base (f :: fs)) (hs : ListStream p i s (f :: fs))
    (hp : k.currentProcess = p) (hstep : Step k e k') (hr : e.Returns k n 5 a r) (hlt : r < 2 ^ 56)
    (harg : a.arg0 = i + 4) :
    (e.caller f).streams[i]? = some s ∧ ∃ k₁, k' = { k₁ with memory := setSavedR8 k₁.memory p r } ∧
      osRead n (e.calling k) (i + 4) a.arg1 a.arg2 e.keys = some (k₁, r) := by
  have hcurrent : k.currentProcess = f.address := hk.current
  refine ⟨?_, ?_⟩
  · rw [Event.caller_streams]
    exact hs.current hk (hcurrent.symm.trans hp)
  · obtain ⟨k₁, hk₁, hcall⟩ := hstep.of_returns hr
    have hread : osRead n (e.calling k) a.arg0 a.arg1 a.arg2 e.keys = some (k₁, r) := by
      refine hcall.resolve_right ?_
      rintro ⟨-, rfl⟩
      exact absurd hlt (by decide)
    rw [harg] at hread
    exact ⟨k₁, hp ▸ hk₁, hread⟩

/-- A read of the list finds the name of the next file. -/
theorem Listed.read (h : Listed base p i found kept k) (hp : k.currentProcess = p) (hstep : Step k e k')
    (hr : e.Returns k n 5 a r) (harg : a.arg0 = i + 4) (hsize : 488 ≤ a.arg2) (h0 : 0 < r)
    (hlt : r < 2 ^ 56) :
    HasFile k.disk.io (k'.memory.slice a.arg1 r) ∧ k'.disk.io = k.disk.io ∧
      Listed base p i (found ++ [k'.memory.slice a.arg1 r]) kept k' := by
  obtain ⟨f, fs, L, s, hk, ho, hs, hscan⟩ := h.exists_scan
  have hcaller := Event.calling_framed (e := e) hk
  obtain ⟨hget, k₁, rfl, hread⟩ := Listed.call hk hs hp hstep hr hlt harg
  have hcurrent : k.currentProcess = f.address := hk.current
  have haddress : (e.caller f).address = p := by rw [Event.caller_address, ← hcurrent, hp]
  have ho' : OpenFiles (e.calling k).disk.io L (openStreams (e.caller f :: fs)) := by
    rw [Event.calling_disk, openStreams_cons, Event.caller_streams]
    exact ho
  rcases osRead_list hcaller ho' hget hs.mode hscan hsize hlt hread with
    ⟨rfl, -, -⟩ | ⟨x, hx, hc, -, hslice, hio, hlimit, hbuffer, hframed⟩
  · exact absurd h0 (lt_irrefl 0)
  rw [Event.calling_disk] at hio hframed
  -- the result is stored in the memory of the kernel
  have hdata : ByteMem.slice (setSavedR8 k₁.memory p r) a.arg1 r = x.1 := by
    rw [← hslice]
    refine ByteMem.slice_congr fun j h1 h2 => ?_
    rw [Event.calling_heapLimit] at hbuffer
    rw [← hp, hcurrent]
    exact hk.setSavedR8_of_not_mem List.mem_cons_self (Or.inr (by omega))
  have hframed' := @Framed.setResult _ _ _ p r hframed (Or.inr ⟨_, List.mem_cons_self, haddress⟩)
  obtain ⟨before, after, heq, hscan'⟩ := hscan.advance ho.describes.entries hx hc
  obtain ⟨pre, post, hstreams, hset⟩ := openStreams_setStream fs hget
  rw [List.map_cons] at hframed'
  have hs' : ListStream p i { s with fileBlock := nextFileOf k.disk.io.blocks x.2 }
      ((e.caller f).setStream i { s with fileBlock := nextFileOf k.disk.io.blocks x.2 } :: fs) :=
    ⟨hs.mode, _, List.mem_cons_self, haddress, Frame.getElem?_setStream hget⟩
  refine ⟨?_, hio, ⟨_, _, L, _, hframed', ?_, hs'.withResult, ?_⟩⟩
  · show HasFile _ (ByteMem.slice (setSavedR8 k₁.memory p r) a.arg1 r)
    rw [hdata, ho.describes.hasFile_iff]
    exact List.mem_map_of_mem hx
  · show OpenFiles k₁.disk.io L _
    rw [Event.calling_disk, hstreams] at ho'
    rw [← List.map_cons (f := Frame.withResult _ _), openStreams_withResult, hset, hio]
    exact ho'.close (StreamState.not_opened (Or.inr hs.mode))
  · show Scan _ _ _ (nextFileOf k.disk.io.blocks x.2) (found ++ [ByteMem.slice (setSavedR8 _ p r) _ r]) _
    rw [hdata, ho.describes.nextFile_eq heq]
    exact hscan'

/-- A read of the list that returns 0 is at the end of the files. -/
theorem Listed.finish (h : Listed base p i found kept k) (hp : k.currentProcess = p)
    (hstep : Step k e k') (hr : e.Returns k n 5 a 0) (harg : a.arg0 = i + 4) (hsize : 488 ≤ a.arg2)
    (hkept : kept name) : found.count name = 1 := by
  obtain ⟨f, fs, L, s, hk, ho, hs, hscan⟩ := h.exists_scan
  have hcaller := Event.calling_framed (e := e) hk
  obtain ⟨hget, k₁, -, hread⟩ := Listed.call hk hs hp hstep hr (by decide) harg
  have ho' : OpenFiles (e.calling k).disk.io L (openStreams (e.caller f :: fs)) := by
    rw [Event.calling_disk, openStreams_cons, Event.caller_streams]
    exact ho
  rcases osRead_list hcaller ho' hget hs.mode hscan hsize (by decide) hread with
    ⟨-, hend, -⟩ | ⟨x, -, -, hpos, -⟩
  · rw [hend] at hscan
    exact hscan.count_eq_one ho.describes.entries hkept
  · exact absurd hpos (lt_irrefl 0)

/-! ### Runs -/

/-- The runs from the state `k₁`, in which the process `p` reads the list `streamId`: the states of
    the run, and the names that were read, each with the state before the read.  The steps between
    the reads meet the condition `C`. -/
inductive ListRun (C : Kernel → Event → Prop) (p streamId : Nat) (k₁ : Kernel) :
    List Kernel → List (Kernel × List UInt8) → Kernel → Prop
  | start : ListRun C p streamId k₁ [k₁] [] k₁
  | read {states : List Kernel} {reads : List (Kernel × List UInt8)} {k k' : Kernel} {e : Event}
      {n r : Nat} {a : CallArguments} (h : ListRun C p streamId k₁ states reads k)
      (hp : k.currentProcess = p) (hs : Step k e k') (hr : e.Returns k n 5 a r)
      (harg : a.arg0 = streamId) (hsize : 488 ≤ a.arg2) (h0 : 0 < r) (hlt : r < 2 ^ 56) :
      ListRun C p streamId k₁ (states ++ [k']) (reads ++ [(k, k'.memory.slice a.arg1 r)]) k'
  | other {states : List Kernel} {reads : List (Kernel × List UInt8)} {k k' : Kernel} {e : Event}
      (h : ListRun C p streamId k₁ states reads k) (hc : C k e) (hs : Step k e k')
      (hkeep : e.KeepsList k p streamId) : ListRun C p streamId k₁ (states ++ [k']) reads k'

/-- The names `reads` are the list of the files, as it is read in the states `states`, up to the
    state `k`. -/
structure Listing (p streamId : Nat) (states : List Kernel) (reads : List (Kernel × List UInt8))
    (k : Kernel) : Prop where
  sorted : (reads.map Prod.snd).Pairwise NameLt
  hasFile : ∀ q ∈ reads, HasFile q.1.disk.io q.2
  complete : ∀ n e a k', k.currentProcess = p → Step k e k' → e.Returns k n 5 a 0 →
    a.arg0 = streamId → 488 ≤ a.arg2 → ∀ name, (∀ q ∈ states, HasFile q.disk.io name) →
      (reads.map Prod.snd).count name = 1

/-- Fewer names may be asked for. -/
theorem Listed.mono (h : Listed base p i found kept k) (hkept : ∀ name, kept' name → kept name) :
    Listed base p i found kept' k := by
  obtain ⟨f, fs, L, s, hk, ho, hs, hscan⟩ := h.exists_scan
  exact ⟨f, fs, L, s, hk, ho, hs, hscan.mono hkept⟩

/-- The invariant of the runs. -/
theorem ListRun.listed {k₀ : Kernel} {states : List Kernel} {reads : List (Kernel × List UInt8)}
    (hboot : Booted k₀) (hrun : Run Event.OutputSafe k₀ k₁)
    (hlisted : Listed base p i [] (HasFile k₁.disk.io) k₁)
    (h : ListRun Event.OutputSafe p (i + 4) k₁ states reads k) :
    Run Event.OutputSafe k₀ k ∧
      Listed base p i (reads.map Prod.snd) (fun name => ∀ q ∈ states, HasFile q.disk.io name) k ∧
      ∀ q ∈ reads, HasFile q.1.disk.io q.2 := by
  induction h with
  | start =>
    refine ⟨hrun, hlisted.mono fun name hname => hname _ (List.mem_singleton_self _), ?_⟩
    intro q hq
    cases hq
  | @read states reads k k' e n r a _ hp hs hr harg hsize h0 hlt ih =>
    obtain ⟨hrun, hlisted, hreads⟩ := ih
    obtain ⟨hfile, -, hlisted'⟩ := hlisted.read hp hs hr harg hsize h0 hlt
    refine ⟨hrun.step (hr.outputSafe (by decide)) hs, ?_, ?_⟩
    · rw [List.map_append]
      exact hlisted'.mono fun name hname q hq => hname q (List.mem_append_left _ hq)
    · intro q hq
      rcases List.mem_append.mp hq with hq | hq
      · exact hreads q hq
      · rw [List.mem_singleton.mp hq]
        exact hfile
  | @other states reads k k' e _ hc hs hkeep ih =>
    obtain ⟨hrun, hlisted, hreads⟩ := ih
    obtain ⟨-, base', f, fs, -, -, hmod, hpages⟩ := (hrun.reachable hboot).kernelSafe
    have hsafe : e.KernelSafe k := hc.kernelSafe hs hmod hpages
    refine ⟨hrun.step hc hs, (hlisted.other hsafe hs hkeep).mono fun name hname => ⟨?_, ?_⟩, hreads⟩
    · exact fun q hq => hname q (List.mem_append_left _ hq)
    · exact hname _ (List.mem_append_right _ (List.mem_singleton_self _))

/-- A list of the files that is read while the processes run, over a well-formed disk, if no output
    is written over the memory of the kernel. -/
theorem listing_of_outputSafe {k₀ k₂ : Kernel} {streamId : Nat} {states : List Kernel}
    {reads : List (Kernel × List UInt8)} (hboot : Booted k₀) (hwf : WellFormed k₀.disk.io)
    (hr : k₀.disk.io.readErrors = []) (hrun : Run Event.OutputSafe k₀ k) (hs : Step k e k₁)
    (hopen : e.OpensList k streamId)
    (hlist : ListRun Event.OutputSafe k.currentProcess streamId k₁ states reads k₂) :
    Listing k.currentProcess streamId states reads k₂ := by
  obtain ⟨base, f, fs, L, hframed, ho⟩ := hrun.openFiles hboot hwf hr
  obtain ⟨i, rfl, hlisted⟩ := hopen.listed hframed ho hs
  obtain ⟨n, a, hreturns, -⟩ := hopen
  obtain ⟨-, hlisted', hreads⟩ :=
    hlist.listed hboot (hrun.step (hreturns.outputSafe (by decide)) hs) hlisted
  refine ⟨?_, hreads, ?_⟩
  · obtain ⟨_, _, _, _, -, -, -, hscan⟩ := hlisted'.exists_scan
    exact hscan.sorted
  · intro n e a k' hp hs hr harg hsize name hname
    exact hlisted'.finish hp hs hr harg hsize hname

/-! ### A list of three files -/

/-- What the shell finds in its memory: the arguments of a call of `os_open` with an empty name, of a
    call of `os_read`, and of a call of `os_open` for the new file "t". -/
def namesBytes : List UInt8 :=
  [4096, 0, MODE_READ, 4, 4224, 488, 4168, 1, MODE_WRITE].flatMap wordBytes ++ [116]

/-- The system with the files "a" and "shell" when its shell is about to list them. -/
def namesKernel : Kernel := systemKernel.storeBytes 4096 namesBytes

/-- The program of the small system writes its arguments. -/
theorem namesKernel_run : Run Event.OutputSafe systemKernel namesKernel := by
  refine Run.step Run.start Event.outputSafe_user (Step.storeBytes fun page h1 h2 => ?_)
  obtain rfl : page = 1 := le_antisymm (le_trans h2 (by decide +kernel)) h1
  decide +kernel

/-- The call of `os_open` for the list. -/
def openListEvent : Event := .syscall 8 4 4096 4096 20480 []

/-- The call of `os_read`. -/
def readNameEvent : Event := .syscall 8 5 4120 4096 20480 []

/-- The call of `os_open` that creates "t". -/
def createEvent : Event := .syscall 8 4 4144 4096 20480 []

/-- The system when the list is open. -/
def openListKernel : Kernel :=
  (syscallHandler 8 namesKernel 4 4096 4096 20480 []).get
    (by decide +kernel)

/-- The system when the name "a" was read. -/
def firstNameKernel : Kernel :=
  (syscallHandler 8 openListKernel 5 4120 4096 20480 []).get
    (by decide +kernel)

/-- The system when the file "t" was created. -/
def createdKernel : Kernel :=
  (syscallHandler 8 firstNameKernel 4 4144 4096 20480 []).get
    (by decide +kernel)

/-- The system when the name "shell" was read. -/
def secondNameKernel : Kernel :=
  (syscallHandler 8 createdKernel 5 4120 4096 20480 []).get
    (by decide +kernel)

/-- The system when the name "t" was read. -/
def thirdNameKernel : Kernel :=
  (syscallHandler 8 secondNameKernel 5 4120 4096 20480 []).get
    (by decide +kernel)

/-- The program opens the list. -/
theorem openListKernel_step : Step namesKernel openListEvent openListKernel :=
  Step.syscall (Option.some_get _).symm

/-- The program reads the first name. -/
theorem firstNameKernel_step : Step openListKernel readNameEvent firstNameKernel :=
  Step.syscall (Option.some_get _).symm

theorem createdKernel_step : Step firstNameKernel createEvent createdKernel :=
  Step.syscall (Option.some_get _).symm

theorem secondNameKernel_step : Step createdKernel readNameEvent secondNameKernel :=
  Step.syscall (Option.some_get _).symm

theorem thirdNameKernel_step : Step secondNameKernel readNameEvent thirdNameKernel :=
  Step.syscall (Option.some_get _).symm

/-- The call opens the list as the stream 4. -/
theorem openListEvent_opens : openListEvent.OpensList namesKernel 4 :=
  ⟨8, _, Event.returns_of_dispatch (by decide +kernel), by decide, by decide +kernel⟩

/-- Creating a file keeps the stream of the list. -/
theorem createEvent_keeps {p : Nat} : createEvent.KeepsList firstNameKernel p 4 := by
  refine fun _ => ⟨?_, ?_⟩
  · rintro r (⟨n, a, ⟨-, hid, -⟩, -⟩ | ⟨hfault, -⟩)
    · exact absurd hid (by decide)
    · cases hfault
  · rintro n id a r ⟨-, hid, -⟩ hc
    rw [← hid] at hc
    exact absurd hc (by decide)

/-- A file that is created while the files are listed. -/
theorem listing_names :
    Listing namesKernel.currentProcess 4
      [openListKernel, firstNameKernel, createdKernel, secondNameKernel, thirdNameKernel]
      [(openListKernel, [97]), (createdKernel, [115, 104, 101, 108, 108]), (secondNameKernel, [116])]
      thirdNameKernel := by
  have hfirst : readNameEvent.Returns openListKernel 8 5
      (readArguments (readNameEvent.calling openListKernel).memory 4120) 1 :=
    Event.returns_of_dispatch (by decide +kernel)
  have hsecond : readNameEvent.Returns createdKernel 8 5
      (readArguments (readNameEvent.calling createdKernel).memory 4120) 5 :=
    Event.returns_of_dispatch (by decide +kernel)
  have hthird : readNameEvent.Returns secondNameKernel 8 5
      (readArguments (readNameEvent.calling secondNameKernel).memory 4120) 1 :=
    Event.returns_of_dispatch (by decide +kernel)
  have hcreate : createEvent.OutputSafe firstNameKernel := fun h6 => absurd h6 (by decide)
  have hname₁ : firstNameKernel.memory.slice
      (readArguments (readNameEvent.calling openListKernel).memory 4120).arg1 1 = [97] := by decide +kernel
  have hname₂ : secondNameKernel.memory.slice
      (readArguments (readNameEvent.calling createdKernel).memory 4120).arg1 5 =
        [115, 104, 101, 108, 108] := by decide +kernel
  have hname₃ : thirdNameKernel.memory.slice
      (readArguments (readNameEvent.calling secondNameKernel).memory 4120).arg1 1 = [116] := by decide +kernel
  -- the first name, and then the creation of the file
  have hrun₁ := (@ListRun.start Event.OutputSafe namesKernel.currentProcess 4 openListKernel).read
    (by decide +kernel) firstNameKernel_step hfirst (by decide +kernel) (by decide +kernel) (by decide)
    (by decide)
  have hrun₂ := hrun₁.other hcreate createdKernel_step createEvent_keeps
  -- the other names
  have hrun₃ := hrun₂.read (by decide +kernel) secondNameKernel_step hsecond (by decide +kernel)
    (by decide +kernel) (by decide) (by decide)
  have hrun₄ := hrun₃.read (by decide +kernel) thirdNameKernel_step hthird (by decide +kernel)
    (by decide +kernel) (by decide) (by decide)
  rw [hname₁, hname₂, hname₃] at hrun₄
  exact listing_of_outputSafe systemKernel_booted
    (by rw [systemKernel_io]; exact ⟨_, systemDisk_describes⟩) (by rw [systemKernel_io]; rfl)
    namesKernel_run openListKernel_step openListEvent_opens hrun₄

/-! ### A list that ends too early -/

/-- What the shell finds in its memory, at the address 4160: the arguments of a call of `os_open`
    with an empty name, and of a call of `os_read`. -/
def listingBytes : List UInt8 := [4096, 0, MODE_READ, 4, 4224, 488].flatMap wordBytes

/-- What its child finds in its memory, at the address 12288: the word that its `output_p` points
    to, the arguments of a call of `os_write`, and the word to write. -/
def cursorBytes : List UInt8 := [4096, 1, 12320, 8, 0].flatMap wordBytes

/-- The small system when its shell is about to list the files, and to spawn a child whose
    `output_p` is in the memory of the child. -/
def listingKernel : Kernel :=
  ((shellKernel.storeBytes 4096 (spawnBytes 8192 12288)).storeBytes 4160 listingBytes).storeBytes
    12288 cursorBytes

/-- The programs write their arguments. -/
theorem listingKernel_run {C : Kernel → Event → Prop} (hC : ∀ k memory, C k (.user memory)) :
    Run C shellKernel listingKernel := by
  refine Run.step (Run.step (Run.step Run.start (hC _ _) (Step.storeBytes fun page h1 h2 => ?_))
    (hC _ _) (Step.storeBytes fun page h1 h2 => ?_)) (hC _ _) (Step.storeBytes fun page h1 h2 => ?_)
  · obtain rfl : page = 1 := le_antisymm (le_trans h2 (by decide +kernel)) h1
    decide +kernel
  · obtain rfl : page = 1 := le_antisymm (le_trans h2 (by decide +kernel)) h1
    decide +kernel
  · obtain rfl : page = 3 := le_antisymm (le_trans h2 (by decide +kernel)) h1
    decide +kernel

/-- The call of `os_open`. -/
def listEvent : Event := .syscall 3 4 4160 4096 20480 []

/-- The call of `os_read`. -/
def nameEvent : Event := .syscall 3 5 4184 4096 20480 []

/-- The small system when the list is open. -/
def listedKernel : Kernel :=
  (syscallHandler 3 listingKernel 4 4160 4096 20480 []).get
    (by decide +kernel)

theorem listedKernel_step : Step listingKernel listEvent listedKernel :=
  Step.syscall (Option.some_get _).symm

theorem listEvent_opens : listEvent.OpensList listingKernel 4 :=
  ⟨3, _, Event.returns_of_dispatch (by decide +kernel), by decide, by decide +kernel⟩

/-- The small system when the child starts. -/
def listingChild : Kernel :=
  (syscallHandler 3 listedKernel 0 4104 4096 20480 []).get
    (by decide +kernel)

/-- The call of `os_spawn`. -/
def childEvent : Event := .syscall 3 0 4104 4096 20480 []

/-- The shell spawns its child. -/
theorem listingChild_step : Step listedKernel childEvent listingChild :=
  Step.syscall (Option.some_get _).symm

/-- The child has changed the word that its `output_p` points to: it is the address of the field
    `file_block` of the stream of the list. -/
def cursorOutput : Kernel := listingChild.storeBytes 12288 (wordBytes 112)

/-- The child changes the word of its `output_p`. -/
theorem cursorOutput_step :
    Step listingChild (.user (listingChild.memory.copyIn 12288 (wordBytes 112))) cursorOutput :=
  Step.storeBytes fun page h1 h2 => by
    obtain rfl : page = 3 := le_antisymm (le_trans h2 (by decide +kernel)) h1
    decide +kernel

/-- The call of `os_write` for the standard output. -/
def cursorWrite : Event := .syscall 3 6 12296 8192 20480 []

/-- The small system when the stream of the list is at the end. -/
def endedKernel : Kernel :=
  (syscallHandler 3 cursorOutput 6 12296 8192 20480 []).get
    (by decide +kernel)

/-- The child writes to the standard output. -/
theorem endedKernel_step : Step cursorOutput cursorWrite endedKernel :=
  Step.syscall (Option.some_get _).symm

/-- The small system when the shell is about to read the first name. -/
def endedShell : Kernel := hardFaultHandler endedKernel

/-- The small system after this read. -/
def afterEndedShell : Kernel :=
  (syscallHandler 3 endedShell 5 4184 4096 20480 []).get
    (by decide +kernel)

/-- Opening a list of the files only reads the disk. -/
theorem osOpen_list_afterReads {address mode : Nat} (h : Framed k base (f :: fs))
    (hrun : osOpen n k address 0 mode = some (k', r)) : AfterReads k.disk.io k'.disk.io := by
  have hreads := diskReadBlockBuffer_afterReads k.disk SUPER_BLOCK
  cases osOpen_cases h hrun with
  | rejected => exact AfterReads.refl _
  | full => exact AfterReads.refl _
  | listWritten => exact hreads
  | list hlength hmode hfind hdisk => exact hdisk ▸ hreads
  | failed hstatus hopen => exact absurd rfl hopen.named
  | opened hopen => exact absurd rfl hopen.named

/-- A call that opens a list of the files only reads the disk. -/
theorem Step.list_afterReads {args returnAddress stackPointer : UInt64} {k₀ : Kernel}
    (h : Framed k base (f :: fs))
    (hs : Step k (.syscall n 4 args returnAddress stackPointer keys) k')
    (hk₀ : k₀ = saveContext k returnAddress.toNat stackPointer.toNat)
    (hlength : (readArguments k₀.memory args.toNat).arg1 = 0) :
    AfterReads k.disk.io k'.disk.io := by
  refine hs.disk_afterReads hk₀ fun k₁ r hcall => ?_
  have hrun : osOpen n k₀ (readArguments k₀.memory args.toNat).arg0
    (readArguments k₀.memory args.toNat).arg1 (readArguments k₀.memory args.toNat).arg2 =
      some (k₁, r) := hcall
  rw [hlength, hk₀] at hrun
  rw [hk₀]
  exact osOpen_list_afterReads (h.saveContext returnAddress.toNat_lt stackPointer.toNat_lt) hrun

/-- The disk stays as it was. -/
theorem afterReads_shellDisk (h : AfterReads io io') (hio : io = shellDisk.io) : io' = shellDisk.io := by
  subst hio
  exact h.eq rfl

/-- Opening the list keeps the disk. -/
theorem listedKernel_io : listedKernel.disk.io = shellDisk.io := by
  have hboot : listingKernel.disk.io = shellDisk.io := osSpawnShell_io rfl shellKernel_boot
  have hrun : Run Event.OutputSafe shellKernel listingKernel :=
    listingKernel_run fun _ _ => Event.outputSafe_user
  obtain ⟨base, f, fs, h⟩ := (hrun.reachable shellKernel_booted).kernelSafe.1.framed
  exact afterReads_shellDisk (listedKernel_step.list_afterReads h rfl (by decide +kernel)) hboot

theorem cursorOutput_io : cursorOutput.disk.io = shellDisk.io := by
  have hstore : cursorOutput.disk = listingChild.disk := Kernel.storeBytes_disk
  rw [hstore]
  exact afterReads_shellDisk listingChild_step.spawn_afterReads listedKernel_io

theorem endedKernel_io : endedKernel.disk.io = shellDisk.io :=
  afterReads_shellDisk (endedKernel_step.output_afterReads rfl (by decide +kernel)) cursorOutput_io

theorem endedShell_io : endedShell.disk.io = shellDisk.io := by
  rw [endedShell, hardFaultHandler, osExit_disk, endedKernel_io]

/-- The shell waits while its child overwrites the stream of the list. -/
theorem endedShell_run :
    ListRun (fun _ _ => True) listingKernel.currentProcess 4 listedKernel
      [listedKernel, listingChild, cursorOutput, endedKernel, endedShell] [] endedShell := by
  have hspawn : childEvent.KeepsList listedKernel listingKernel.currentProcess 4 := by
    refine fun _ => ⟨?_, ?_⟩
    · rintro r (⟨n, a, ⟨-, hid, -⟩, -⟩ | ⟨hfault, -⟩)
      · exact absurd hid (by decide)
      · cases hfault
    · rintro n id a r ⟨-, hid, -⟩ hc
      rw [← hid] at hc
      exact absurd hc (by decide)
  have hchild : ∀ {k : Kernel} {e : Event}, k.currentProcess ≠ listingKernel.currentProcess →
      e.KeepsList k listingKernel.currentProcess 4 := fun hne hp => absurd hp hne
  exact (((ListRun.start.other trivial listingChild_step hspawn).other trivial cursorOutput_step
    (hchild (by decide +kernel))).other trivial endedKernel_step (hchild (by decide +kernel))).other
      trivial Step.fault (hchild (by decide +kernel))

/-- Once the output of a child is written over the stream of a list, the list ends before its first
    file. -/
theorem not_listing :
    ¬ ∀ (k₀ k k₁ k₂ : Kernel) (e : Event) (streamId : Nat) (states : List Kernel)
        (reads : List (Kernel × List UInt8)), Booted k₀ → WellFormed k₀.disk.io →
      k₀.disk.io.readErrors = [] → Run (fun _ _ => True) k₀ k → Step k e k₁ →
      e.OpensList k streamId →
      ListRun (fun _ _ => True) k.currentProcess streamId k₁ states reads k₂ →
      Listing k.currentProcess streamId states reads k₂ := by
  intro hall
  have hboot : shellKernel.disk.io = shellDisk.io := osSpawnShell_io rfl shellKernel_boot
  have hlisting := hall _ _ _ _ _ _ _ _ shellKernel_booted
    (by rw [hboot]; exact ⟨_, shellDisk_describes⟩) (by rw [hboot]; rfl)
    (listingKernel_run fun _ _ => trivial) listedKernel_step listEvent_opens endedShell_run
  have hs : Step endedShell nameEvent afterEndedShell := Step.syscall (Option.some_get _).symm
  have hread : nameEvent.Returns endedShell 3 5
      (readArguments (nameEvent.calling endedShell).memory 4184) 0 :=
    Event.returns_of_dispatch (by decide +kernel)
  have hfile : HasFile shellDisk.io [115, 104, 101, 108, 108] :=
    ⟨_, shellDisk_describes, _, List.mem_singleton_self _, rfl⟩
  have hcount := hlisting.complete _ _ _ _ (by decide +kernel) hs hread (by decide +kernel)
    (by decide +kernel) [115, 104, 101, 108, 108] ?_
  · exact absurd hcount (by decide)
  · intro q hq
    have hio : q.disk.io = shellDisk.io := by
      simp only [List.mem_cons, List.not_mem_nil, or_false] at hq
      rcases hq with rfl | rfl | rfl | rfl | rfl
      · exact listedKernel_io
      · exact cursorOutput_io
      · exact cursorOutput_io
      · exact endedKernel_io
      · exact endedShell_io
    rw [hio]
    exact hfile

end Toys.Os
