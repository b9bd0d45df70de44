import Mathlib
import Toys.FileSystem.Cursor
import Toys.Os.Nesting
import Toys.Os.SequentialReads

namespace Toys.Os

open Toys.Lib Toys.FileSystem

/-!
# Kernel — the files that are open

The streams of all the processes of the chain refer to files of the disk: the ones that read
have a position in their file, the ones that write have its last block, and a file that is
written has no other stream.  Every system call keeps this, whatever it does to the disk.

* `OpenFiles` — the streams and the disk, together;
* `OpenFiles.write`, `OpenFiles.create`, ... — what the disk operations of the calls keep;
* `Effect.openFiles`, `Run.openFiles` — the invariant, for a call and for a run;
* `streams_valid` — the streams of the parent chain, in every reachable state.
-/

/-! ### The invariant -/

/-- The stream is open on a file. -/
def StreamState.Opened (s : StreamState) : Prop := s.mode = MODE_READ ∨ s.mode = MODE_WRITE

/-- Two streams on the same file both read it. -/
def StreamState.Shares (s t : StreamState) : Prop :=
  s.Opened → t.Opened → s.fileBlock = t.fileBlock → s.mode = MODE_READ ∧ t.mode = MODE_READ

/-- The blocks of the stream are those of a file. -/
structure StreamState.Valid (io : BlockIo) (files : List FileLayout) (s : StreamState) : Prop where
  read : s.mode = MODE_READ → ∃ g ∈ files, g.first = s.fileBlock ∧
    ∃ rest, Cursor io g s.currentBlock s.currentOffset rest
  write : s.mode = MODE_WRITE → ∃ g ∈ files, g.first = s.fileBlock ∧ g.last = s.currentBlock

/-- The streams `ss` refer to files of the image, whose layout is `L`. -/
structure OpenFiles (io : BlockIo) (L : Layout) (ss : List StreamState) : Prop where
  describes : Describes io L
  readErrors : io.readErrors = []
  valid : ∀ s ∈ ss, s.Valid io L.files
  shares : ss.Pairwise StreamState.Shares

variable {n base r id : Nat} {k k' : Kernel} {f : Frame} {fs fs' : List Frame} {e : Event}
  {a : CallArguments} {io io' : BlockIo} {L L' : Layout} {s s' t : StreamState}
  {pre post ss : List StreamState} {g : FileLayout}

/-- Sharing depends on the mode and the file only. -/
theorem StreamState.Shares.congr (h : s.Shares t) (hmode : s'.mode = s.mode)
    (hfile : s'.fileBlock = s.fileBlock) : s'.Shares t := by
  unfold StreamState.Shares StreamState.Opened at h ⊢
  rw [hmode, hfile]
  exact h

theorem StreamState.Shares.symm (h : s.Shares t) : t.Shares s := by
  intro ht hs heq
  exact (h hs ht heq.symm).symm

/-- A stream that is not open on a file. -/
theorem StreamState.valid_of_not_opened (h : ¬ s.Opened) : s.Valid io L.files :=
  ⟨fun hr => absurd (Or.inl hr) h, fun hw => absurd (Or.inr hw) h⟩

/-- A stream that is not open shares its file with all the others. -/
theorem StreamState.shares_of_not_opened (h : ¬ s.Opened) : s.Shares t := fun hs => absurd hs h

theorem modeWrite_ne_modeRead : MODE_WRITE ≠ MODE_READ := by decide

/-- An unused stream and a list are no open files. -/
theorem StreamState.not_opened (h : s.mode = MODE_UNUSED ∨ s.mode = MODE_LIST) : ¬ s.Opened := by
  rintro (hs | hs)
  · rw [hs] at h
    exact absurd h (by decide)
  · rw [hs] at h
    exact absurd h (by decide)

/-- The file of an open stream. -/
theorem StreamState.Valid.file (h : s.Valid io L.files) (hs : s.Opened) :
    ∃ g ∈ L.files, g.first = s.fileBlock := by
  rcases hs with hs | hs
  · obtain ⟨g, hg, hfirst, -⟩ := h.read hs
    exact ⟨g, hg, hfirst⟩
  · obtain ⟨g, hg, hfirst, -⟩ := h.write hs
    exact ⟨g, hg, hfirst⟩

/-- A stream is still valid when its file is kept. -/
theorem StreamState.Valid.frame (h : s.Valid io L.files) (hdev : SameDevice io io')
    (hkeep : s.Opened → ∀ g ∈ L.files, g.first = s.fileBlock →
      g ∈ L'.files ∧ FileFrame io.blocks io'.blocks g) : s.Valid io' L'.files := by
  constructor
  · intro hs
    obtain ⟨g, hg, hfirst, rest, hcursor⟩ := h.read hs
    obtain ⟨hg', hframe⟩ := hkeep (Or.inl hs) g hg hfirst
    exact ⟨g, hg', hfirst, rest, hcursor.frame hdev hframe⟩
  · intro hs
    obtain ⟨g, hg, hfirst, hlast⟩ := h.write hs
    obtain ⟨hg', -⟩ := hkeep (Or.inr hs) g hg hfirst
    exact ⟨g, hg', hfirst, hlast⟩

/-! ### One stream changes -/

/-- A symmetric relation holds for a list with another item in the middle, if it relates it to the
    others. -/
theorem pairwise_replace {α : Type*} {R : α → α → Prop} {pre post : List α} {x y : α}
    (hsymm : ∀ {x y}, R x y → R y x) (h : (pre ++ x :: post).Pairwise R)
    (hy : ∀ z ∈ pre ++ post, R y z) : (pre ++ y :: post).Pairwise R := by
  rw [List.pairwise_append, List.pairwise_cons] at h ⊢
  obtain ⟨hpre, ⟨-, hpost⟩, hcross⟩ := h
  refine ⟨hpre, ⟨fun z hz => hy z (List.mem_append_right _ hz), hpost⟩, fun z hz w hw => ?_⟩
  rcases List.mem_cons.mp hw with rfl | hw
  · exact hsymm (hy z (List.mem_append_left _ hz))
  · exact hcross z hz w (List.mem_cons_of_mem _ hw)

/-- A symmetric relation relates an item to the others. -/
theorem pairwise_middle {α : Type*} {R : α → α → Prop} {pre post : List α} {x : α}
    (hsymm : ∀ {x y}, R x y → R y x) (h : (pre ++ x :: post).Pairwise R) :
    ∀ z ∈ pre ++ post, R x z := by
  rw [List.pairwise_append, List.pairwise_cons] at h
  obtain ⟨-, ⟨hx, -⟩, hcross⟩ := h
  intro z hz
  rcases List.mem_append.mp hz with hz | hz
  · exact hsymm (hcross z hz x List.mem_cons_self)
  · exact hx z hz

/-- An item of the second list is related to one of the first. -/
theorem forall₂_mem_right {α β : Type*} {R : α → β → Prop} {l : List α} {l' : List β}
    (h : List.Forall₂ R l l') {b : β} (hb : b ∈ l') : ∃ a ∈ l, R a b := by
  induction h with
  | nil => cases hb
  | cons hab _ ih =>
    rcases List.mem_cons.mp hb with rfl | hb
    · exact ⟨_, List.mem_cons_self, hab⟩
    · obtain ⟨a, ha, hR⟩ := ih hb
      exact ⟨a, List.mem_cons_of_mem _ ha, hR⟩

/-- A relation between the items of a list holds for those of a related list. -/
theorem pairwise_forall₂ {α : Type*} {R P : α → α → Prop} {l l' : List α}
    (h : List.Forall₂ P l l') (hl : l.Pairwise R)
    (hR : ∀ {a b a' b'}, P a a' → P b b' → R a b → R a' b') : l'.Pairwise R := by
  induction h with
  | nil => exact List.Pairwise.nil
  | cons hab hrest ih =>
    obtain ⟨hhead, htail⟩ := List.pairwise_cons.mp hl
    refine List.pairwise_cons.mpr ⟨fun y hy => ?_, ih htail⟩
    obtain ⟨x, hx, hxy⟩ := forall₂_mem_right hrest hy
    exact hR hab hxy (hhead x hx)

theorem OpenFiles.others_mem (hz : t ∈ pre ++ post) : t ∈ pre ++ s :: post :=
  ((List.sublist_cons_self s post).append_left pre).subset hz

/-- One stream and the disk change; the other streams keep their files. -/
theorem OpenFiles.change (h : OpenFiles io L (pre ++ s :: post)) (hdesc : Describes io' L')
    (hdev : SameDevice io io') (hvalid : s'.Valid io' L'.files)
    (hshares : ∀ t ∈ pre ++ post, s'.Shares t)
    (hkeep : ∀ t ∈ pre ++ post, t.Opened → ∀ g ∈ L.files, g.first = t.fileBlock →
      g ∈ L'.files ∧ FileFrame io.blocks io'.blocks g) : OpenFiles io' L' (pre ++ s' :: post) := by
  refine ⟨hdesc, hdev.2.trans h.readErrors, ?_,
    pairwise_replace StreamState.Shares.symm h.shares hshares⟩
  have hothers : ∀ t ∈ pre ++ post, t.Valid io' L'.files := by
    intro t ht
    exact (h.valid t (OpenFiles.others_mem ht)).frame hdev (hkeep t ht)
  intro t ht
  rcases List.mem_append.mp ht with ht | ht
  · exact hothers t (List.mem_append_left _ ht)
  · rcases List.mem_cons.mp ht with rfl | ht
    · exact hvalid
    · exact hothers t (List.mem_append_right _ ht)

theorem FileFrame.refl : FileFrame io.blocks io.blocks g := ⟨Or.inl rfl, fun _ _ => rfl⟩

theorem SameDevice.refl : SameDevice io io := ⟨rfl, rfl⟩

/-- One stream changes, and not the disk. -/
theorem OpenFiles.setStream (h : OpenFiles io L (pre ++ s :: post)) (hvalid : s'.Valid io L.files)
    (hshares : ∀ t ∈ pre ++ post, s'.Shares t) : OpenFiles io L (pre ++ s' :: post) :=
  h.change h.describes SameDevice.refl hvalid hshares fun _ _ _ _ hg _ => ⟨hg, FileFrame.refl⟩

/-- A stream is closed, or opened to list the files. -/
theorem OpenFiles.close (h : OpenFiles io L (pre ++ s :: post)) (hs : ¬ s'.Opened) :
    OpenFiles io L (pre ++ s' :: post) :=
  h.setStream (StreamState.valid_of_not_opened hs) fun _ _ => StreamState.shares_of_not_opened hs

/-! ### The disk operations -/

/-- How a disk operation changes the names and the first blocks of the files. -/
inductive EntriesChange (es : List (List UInt8 × Nat)) : List (List UInt8 × Nat) → Prop
  | kept : EntriesChange es es
  | created {before after : List (List UInt8 × Nat)} {x : List UInt8 × Nat}
      (h : es = before ++ after) : EntriesChange es (before ++ x :: after)

section Operations

variable {buffer : DiskBlock} {disk disk' : Disk} {file block size previous : Nat} {status : Status}
  {src name : List UInt8}

/-- A read moves the position of the stream. -/
theorem OpenFiles.read {result : ReadResult} (h : OpenFiles io L (pre ++ s :: post))
    (hmode : s.mode = MODE_READ)
    (hread : diskReadFile n ⟨io, buffer⟩ s.currentBlock s.currentOffset size = some (disk', result)) :
    disk'.io = io ∧ OpenFiles io L (pre ++ { s with
      currentBlock := result.block % 2 ^ 64, currentOffset := result.offset % 2 ^ 64 } :: post) := by
  have hs := h.valid s (by simp)
  obtain ⟨g, hg, hfirst, rest, hcursor⟩ := hs.read hmode
  obtain ⟨buffer', result', heq, -, -, hcursor'⟩ :=
    hcursor.read buffer size h.describes h.readErrors hg (le_max_right n io.numBlocks)
  have hrun := (diskReadFile_mono hread (le_max_left n io.numBlocks)).symm.trans heq
  simp only [Option.some.injEq, Prod.mk.injEq] at hrun
  obtain ⟨rfl, rfl⟩ := hrun
  obtain ⟨hblock, hoffset⟩ := hcursor'.lt
  rw [Nat.mod_eq_of_lt hblock, Nat.mod_eq_of_lt hoffset]
  refine ⟨rfl, h.setStream ⟨fun _ => ⟨g, hg, hfirst, _, hcursor'⟩, fun hw => ?_⟩ ?_⟩
  · exact absurd (hmode.symm.trans hw) (by decide)
  · intro t ht
    exact (pairwise_middle StreamState.Shares.symm h.shares t ht).congr rfl rfl

/-- A write moves the stream to the new last block of the file. -/
theorem OpenFiles.write (h : OpenFiles io L (pre ++ s :: post)) (hmode : s.mode = MODE_WRITE)
    (hwrite : diskWriteFile n ⟨io, buffer⟩ s.currentBlock src = some (disk', block, status)) :
    ∃ L', L'.entries = L.entries ∧
      OpenFiles disk'.io L' (pre ++ { s with currentBlock := block % 2 ^ 64 } :: post) := by
  have hs := h.valid s (by simp)
  obtain ⟨g, hg, hfirst, hlast⟩ := hs.write hmode
  obtain ⟨free, files⟩ := L
  obtain ⟨before, after, rfl⟩ := List.append_of_mem hg
  obtain ⟨io', buffer', new, free', status', heq, -, hdev, hdesc, hframe, -⟩ :=
    diskWriteFile_eq buffer src h.describes h.readErrors (le_max_right n io.numBlocks)
  rw [← hlast] at hwrite
  have hrun := (diskWriteFile_mono hwrite (le_max_left n io.numBlocks)).symm.trans heq
  simp only [Option.some.injEq, Prod.mk.injEq] at hrun
  obtain ⟨rfl, rfl, -⟩ := hrun
  have hmiddle := pairwise_middle StreamState.Shares.symm h.shares
  have hmem : { g with rest := g.rest ++ new } ∈
      before ++ { g with rest := g.rest ++ new } :: after := by simp
  have hlt := (hdesc.block_lt hmem (FileLayout.last_mem _)).2
  have hsize := io'.size_le
  rw [Nat.mod_eq_of_lt (by omega)]
  have hentries : Layout.entries ⟨free', before ++ { g with rest := g.rest ++ new } :: after⟩ =
      Layout.entries ⟨free, before ++ g :: after⟩ := Layout.entries_replace rfl rfl
  refine ⟨_, hentries, h.change hdesc hdev ⟨fun hr => ?_, fun _ => ?_⟩
    (fun t ht => (hmiddle t ht).congr rfl rfl) fun t ht hopened g' hg' hfirst' => ?_⟩
  · exact absurd (hmode.symm.trans hr) (by decide)
  · exact ⟨_, hmem, hfirst, rfl⟩
  · -- another stream is not open on this file
    have hne : g' ≠ g := by
      rintro rfl
      have hboth := hmiddle t ht (Or.inr hmode) hopened (hfirst.symm.trans hfirst')
      exact absurd (hmode.symm.trans hboth.1) (by decide)
    have hg' := mem_others hg' hne
    exact ⟨mem_of_mem_split hg', hframe g' hg'⟩

/-- No stream is open on a file that can be opened to write. -/
theorem StreamState.Allows.fileBlock_ne (h : t.Allows file MODE_WRITE) (ht : t.Opened) :
    t.fileBlock ≠ file := by
  intro heq
  apply h
  refine ⟨heq, ?_, Or.inr rfl⟩
  rcases ht with ht | ht
  · rw [ht]; decide
  · rw [ht]; decide

/-- A file is cleared when it is opened to write. -/
theorem OpenFiles.clear (h : OpenFiles io L (pre ++ s :: post)) (hfound : FoundFile io file previous)
    (hallows : ∀ t ∈ pre ++ post, t.Allows file MODE_WRITE)
    (hclear : diskClearFile n ⟨io, buffer⟩ file = some disk') :
    ∃ L', L'.entries = L.entries ∧ OpenFiles disk'.io L' (pre ++ { s with
      mode := MODE_WRITE, fileBlock := file % 2 ^ 64, currentBlock := file % 2 ^ 64 } :: post) := by
  obtain ⟨before, g, after, hL, rfl, -⟩ := hfound.split h.describes h.readErrors
  rw [hL] at h ⊢
  obtain ⟨io', buffer', heq, hdev, hdesc, hframe, -⟩ :=
    diskClearFile_eq buffer h.describes h.readErrors (le_max_right n io.numBlocks)
  have hrun := (diskClearFile_mono hclear (le_max_left n io.numBlocks)).symm.trans heq
  obtain rfl : disk' = ⟨io', buffer'⟩ := by simpa using hrun
  have hmem : { g with rest := [] } ∈ before ++ { g with rest := [] } :: after := by simp
  have hlt := (hdesc.first_lt hmem).2
  have hsize := io'.size_le
  simp only at hlt
  rw [Nat.mod_eq_of_lt (by omega)]
  have hentries : Layout.entries ⟨g.rest ++ L.free, before ++ { g with rest := [] } :: after⟩ =
      Layout.entries ⟨L.free, before ++ g :: after⟩ := Layout.entries_replace rfl rfl
  refine ⟨_, hentries, h.change hdesc hdev ⟨fun hr => ?_, fun _ => ?_⟩
    (fun t ht _ hopened heq => ?_) fun t ht hopened g' hg' hfirst' => ?_⟩
  · exact absurd hr modeWrite_ne_modeRead
  · exact ⟨_, hmem, rfl, rfl⟩
  · exact absurd heq.symm ((hallows t ht).fileBlock_ne hopened)
  · have hne : g' ≠ g := by
      rintro rfl
      exact absurd hfirst'.symm ((hallows t ht).fileBlock_ne hopened)
    have hg' := mem_others hg' hne
    exact ⟨mem_of_mem_split hg', hframe g' hg'⟩

/-- A new file has no other stream. -/
theorem OpenFiles.create (h : OpenFiles io L (pre ++ s :: post))
    (hcreate : diskCreateFile n ⟨io, buffer⟩ name = some (disk', .ok file)) :
    ∃ L', EntriesChange L.entries L'.entries ∧ OpenFiles disk'.io L' (pre ++ { s with
      mode := MODE_WRITE, fileBlock := file % 2 ^ 64, currentBlock := file % 2 ^ 64 } :: post) := by
  have hrun := diskCreateFile_mono hcreate (le_max_left n io.numBlocks)
  rcases diskCreateFile_cases buffer h.describes h.readErrors (le_max_right n io.numBlocks) name with
    ⟨buffer', status, -, heq⟩ |
      ⟨io', buffer', newFile, free, heq, hfree, -, -, hdev, hdesc, hframe, -⟩
  · rw [hrun] at heq
    cases heq
  rw [hrun] at heq
  obtain ⟨rfl, rfl⟩ : disk' = ⟨io', buffer'⟩ ∧ file = newFile := by simpa using heq
  have hsplit := filesBefore_append name L.files
  have hmem : (⟨name, file, []⟩ : FileLayout) ∈ (L.insert name file free).files := by
    simp [Layout.insert]
  have hlt := (hdesc.first_lt hmem).2
  have hsize := io'.size_le
  simp only at hlt
  -- the block of the new file was free
  have hnew : ∀ t ∈ pre ++ post, t.Opened → t.fileBlock ≠ file := by
    intro t ht hopened heq
    obtain ⟨g, hg, hfirst⟩ := (h.valid t (OpenFiles.others_mem ht)).file hopened
    have hfile : file ∈ L.free := by rw [hfree]; exact List.mem_cons_self
    apply h.describes.free_not_mem hfile hg
    rw [← heq, ← hfirst]
    exact List.mem_cons_self
  rw [Nat.mod_eq_of_lt (by omega)]
  refine ⟨L.insert name file free, ?_, h.change hdesc hdev ⟨fun hr => ?_, fun _ => ?_⟩
    (fun t ht _ hopened heq => ?_) fun t ht hopened g hg hfirst => ⟨?_, hframe g hg⟩⟩
  · have hentries : L.entries = (filesBefore name L.files).map (fun g => (g.name, g.first)) ++
        (filesFrom name L.files).map fun g => (g.name, g.first) := by
      rw [← List.map_append, hsplit]
      rfl
    have hinsert : (L.insert name file free).entries =
        (filesBefore name L.files).map (fun g => (g.name, g.first)) ++ (name, file) ::
          (filesFrom name L.files).map fun g => (g.name, g.first) := by
      simp [Layout.entries, Layout.insert]
    rw [hinsert]
    exact EntriesChange.created hentries
  · exact absurd hr modeWrite_ne_modeRead
  · exact ⟨_, hmem, rfl, rfl⟩
  · exact absurd heq.symm (hnew t ht hopened)
  · rw [← hsplit] at hg
    simp only [Layout.insert, List.mem_append, List.mem_cons] at hg ⊢
    tauto

/-- A file is opened to be read. -/
theorem OpenFiles.openRead (h : OpenFiles io L (pre ++ s :: post)) (hg : g ∈ L.files)
    (hallows : ∀ t ∈ pre ++ post, t.Allows g.first MODE_READ) :
    OpenFiles io L (pre ++ ⟨MODE_READ, g.first, g.first, 24 + g.name.length⟩ :: post) := by
  refine h.setStream ⟨fun _ => ?_, fun hw => ?_⟩ fun t ht _ hopened heq => ⟨rfl, ?_⟩
  · exact ⟨g, hg, rfl, _, Cursor.start h.describes hg⟩
  · exact absurd hw.symm modeWrite_ne_modeRead
  · rcases hopened with hr | hw
    · exact hr
    · exfalso
      apply hallows t ht
      refine ⟨heq.symm, ?_, Or.inl hw⟩
      rw [hw]
      decide

/-- A file is deleted, when no stream is open on it. -/
theorem OpenFiles.delete {ss' : List StreamState} {next : BlockIo} (h : OpenFiles io L ss)
    (hfound : FoundFile io file previous) (hallows : ∀ t ∈ ss, t.Allows file MODE_WRITE)
    (hskips : List.Forall₂ (StreamState.Skips next file) ss ss')
    (hdelete : diskDeleteFile n ⟨io, buffer⟩ file previous = some disk') :
    ∃ L' before after name, L.entries = before ++ (name, file) :: after ∧
      L'.entries = before ++ after ∧ OpenFiles disk'.io L' ss' := by
  obtain ⟨before, g, after, hL, rfl, rfl⟩ := hfound.split h.describes h.readErrors
  rw [hL] at h ⊢
  obtain ⟨io', buffer', heq, hdev, hdesc, hframe⟩ :=
    diskDeleteFile_eq buffer h.describes h.readErrors (le_max_right n io.numBlocks)
  have hrun := (diskDeleteFile_mono hdelete (le_max_left n io.numBlocks)).symm.trans heq
  obtain rfl : disk' = ⟨io', buffer'⟩ := by simpa using hrun
  -- a stream that moves on is not open on a file
  have hopened : ∀ {t t' : StreamState}, t.Skips next g.first t' → t'.Opened → t' = t := by
    intro t t' hskip ht'
    unfold StreamState.Skips at hskip
    split at hskip
    · rename_i hlist
      obtain ⟨b, -, rfl⟩ := hskip
      exact absurd ht' (StreamState.not_opened (Or.inr hlist.1))
    · exact hskip
  refine ⟨_, before.map fun g => (g.name, g.first), after.map fun g => (g.name, g.first), g.name,
    by simp [Layout.entries], by simp [Layout.entries],
    hdesc, hdev.2.trans h.readErrors, fun t' ht' => ?_, ?_⟩
  · obtain ⟨t, ht, hskip⟩ := forall₂_mem_right hskips ht'
    by_cases hto : t'.Opened
    · obtain rfl := hopened hskip hto
      refine (h.valid t' ht).frame hdev fun _ g' hg' hfirst => ?_
      have hne : g' ≠ g := by
        rintro rfl
        exact absurd hfirst.symm ((hallows t' ht).fileBlock_ne hto)
      have hg' := mem_others hg' hne
      exact ⟨hg', hframe g' hg'⟩
    · exact StreamState.valid_of_not_opened hto
  · refine pairwise_forall₂ hskips h.shares fun hs ht hst hso hto heq => ?_
    obtain rfl := hopened hs hso
    obtain rfl := hopened ht hto
    exact hst hso hto heq

end Operations

/-! ### The calls -/

/-- The streams of all the processes. -/
def openStreams (fs : List Frame) : List StreamState := fs.flatMap Frame.streams

theorem openStreams_cons : openStreams (f :: fs) = f.streams ++ openStreams fs := List.flatMap_cons

/-- A stream of the current process, among all the streams. -/
theorem openStreams_setStream {i : Nat} (fs : List Frame) (hs : f.streams[i]? = some s) :
    ∃ pre post, openStreams (f :: fs) = pre ++ s :: post ∧
      ∀ s', openStreams (f.setStream i s' :: fs) = pre ++ s' :: post := by
  obtain ⟨hi, rfl⟩ := List.getElem?_eq_some_iff.mp hs
  refine ⟨f.streams.take i, f.streams.drop (i + 1) ++ openStreams fs, ?_, fun s' => ?_⟩
  · rw [openStreams_cons, ← List.cons_append, List.getElem_cons_drop, ← List.append_assoc,
      List.take_append_drop]
  · have hset : (f.setStream i s').streams = f.streams.set i s' := rfl
    rw [openStreams_cons, hset, List.set_eq_take_append_cons_drop, if_pos hi, List.append_assoc,
      List.cons_append]

/-- The result of a call does not change the streams. -/
theorem openStreams_withResult {address result : Nat} :
    openStreams (fs.map (Frame.withResult address result)) = openStreams fs := by
  unfold openStreams
  rw [List.flatMap_map]
  exact List.flatMap_congr fun g _ => Frame.withResult_streams

/-- A stream that is not open is allocated. -/
theorem OpenFiles.addStream (h : OpenFiles io L (pre ++ post)) (hs : ¬ s.Opened) :
    OpenFiles io L (pre ++ s :: post) := by
  refine ⟨h.describes, h.readErrors, fun t ht => ?_, ?_⟩
  · rcases List.mem_append.mp ht with ht | ht
    · exact h.valid t (List.mem_append_left _ ht)
    · rcases List.mem_cons.mp ht with rfl | ht
      · exact StreamState.valid_of_not_opened hs
      · exact h.valid t (List.mem_append_right _ ht)
  · have hshares := h.shares
    rw [List.pairwise_append] at hshares ⊢
    obtain ⟨hpre, hpost, hcross⟩ := hshares
    refine ⟨hpre, List.pairwise_cons.mpr ⟨fun t _ => StreamState.shares_of_not_opened hs, hpost⟩,
      fun t ht u hu => ?_⟩
    rcases List.mem_cons.mp hu with rfl | hu
    · exact (StreamState.shares_of_not_opened hs).symm
    · exact hcross t ht u hu

/-- A new stream opens no file. -/
theorem OpenFiles.extends {f' : Frame} (h : OpenFiles io L (openStreams (f :: fs)))
    (hf : f.Extends f') : OpenFiles io L (openStreams (f' :: fs)) := by
  rcases hf with rfl | ⟨s, hmode, rfl⟩
  · exact h
  · have hstreams : (f.addStream s).streams = f.streams ++ [s] := rfl
    rw [openStreams_cons] at h ⊢
    rw [hstreams, List.append_assoc, List.singleton_append]
    exact h.addStream (StreamState.not_opened (Or.inl hmode))

/-- The disk when only blocks were read. -/
theorem OpenFiles.of_afterReads (h : OpenFiles io L ss) (hreads : AfterReads io io') :
    OpenFiles io' L ss := by
  rw [hreads.eq h.readErrors]
  exact h

/-- A call on a stream keeps the invariant, and the entries of the disk. -/
theorem StreamEffect.openFiles {disk disk' : Disk} (h : StreamEffect n disk disk' s s')
    (ho : OpenFiles disk.io L (pre ++ s :: post)) :
    ∃ L', L'.entries = L.entries ∧ OpenFiles disk'.io L' (pre ++ s' :: post) := by
  cases h with
  | close => exact ⟨L, rfl, ho.close (StreamState.not_opened (Or.inl rfl))⟩
  | list hmode =>
    have hreads := diskReadBlockBuffer_afterReads disk s.fileBlock
    exact ⟨L, rfl, (ho.of_afterReads hreads).close (StreamState.not_opened (Or.inr hmode))⟩
  | read hmode hread =>
    obtain ⟨hio, ho'⟩ := ho.read hmode hread
    rw [← hio] at ho'
    exact ⟨L, rfl, ho'⟩
  | write hmode hwrite => exact ho.write hmode hwrite

/-- The streams other than the one that is opened allow it. -/
theorem openStreams_allows {frames : List Frame} {file mode : Nat}
    (hallows : ∀ g ∈ frames, ∀ t ∈ g.streams, t.Allows file mode)
    (heq : openStreams frames = pre ++ s :: post) : ∀ t ∈ pre ++ post, t.Allows file mode := by
  intro t ht
  have hmem : t ∈ openStreams frames := by
    rw [heq]
    exact OpenFiles.others_mem ht
  obtain ⟨g, hg, ht⟩ := List.mem_flatMap.mp hmem
  exact hallows g hg t ht

/-- The file that `disk_find_file` finds to be read. -/
theorem OpenFiles.found {disk disk' : Disk} {file previous : Nat} {name : List UInt8}
    (h : OpenFiles disk.io L ss) (hfind : diskFindFile n disk name 0 = some (disk', file, previous))
    (hfile : file ≠ 0) : disk'.io = disk.io ∧ FoundFile disk.io file previous ∧
      ∃ g ∈ L.files, g.first = file ∧
        (diskReadBlockBuffer disk' file).blockBuffer.nameLength = g.name.length := by
  have hio := (diskFindFile_afterReads hfind).eq h.readErrors
  have hfound : FoundFile disk.io file previous := ⟨n, disk.blockBuffer, disk', name, hfind, hfile⟩
  obtain ⟨before, g, after, hL, rfl, -⟩ := hfound.split h.describes h.readErrors
  have hg : g ∈ L.files := by rw [hL]; simp
  refine ⟨hio, hfound, g, hg, rfl, ?_⟩
  obtain ⟨io', buffer⟩ := disk'
  simp only at hio
  subst hio
  rw [diskReadBlockBuffer_eq h.readErrors (h.describes.first_lt hg).2]
  exact (h.describes.files_ok g hg).nameLength_eq

/-- Opening a stream keeps the invariant; it may add a file. -/
theorem OpenEffect.openFiles {disk disk' : Disk} {frames : List Frame}
    (h : OpenEffect n disk frames disk' s s') (hs : openStreams frames = pre ++ s :: post)
    (ho : OpenFiles disk.io L (pre ++ s :: post)) :
    ∃ L', EntriesChange L.entries L'.entries ∧ OpenFiles disk'.io L' (pre ++ s' :: post) := by
  cases h with
  | list hreads =>
    exact ⟨L, EntriesChange.kept, (ho.of_afterReads hreads).close (StreamState.not_opened (Or.inr rfl))⟩
  | @read _ disk₁ disk₂ name file previous hreads hfind hfile hallows =>
    have ho₁ := ho.of_afterReads hreads
    obtain ⟨hio, -, g, hg, rfl, hname⟩ := ho₁.found hfind hfile
    have hlt := (ho₁.describes.first_lt hg).2
    have hle := (ho₁.describes.files_ok g hg).name_le
    have hsize := disk₁.io.size_le
    have ho₂ := ho₁.of_afterReads ((diskFindFile_afterReads hfind).trans
      (diskReadBlockBuffer_afterReads disk₂ g.first))
    refine ⟨L, EntriesChange.kept, ?_⟩
    rw [hname, U64.add_eq (by omega), Nat.mod_eq_of_lt (by omega), Nat.mod_eq_of_lt (by omega)]
    exact ho₂.openRead hg (openStreams_allows hallows hs)
  | clear hreads hfind hfile hallows hclear =>
    have ho₁ := ho.of_afterReads hreads
    obtain ⟨hio, hfound, -⟩ := ho₁.found hfind hfile
    rw [← hio] at ho₁ hfound
    obtain ⟨L', hentries, ho'⟩ := ho₁.clear hfound (openStreams_allows hallows hs) hclear
    exact ⟨L', hentries ▸ EntriesChange.kept, ho'⟩
  | create hreads hcreate => exact (ho.of_afterReads hreads).create hcreate

/-- A deletion moves all the streams. -/
theorem openStreams_skips {frames : List Frame} {file : Nat} {next : BlockIo}
    (h : List.Forall₂ (Frame.Skips next file) fs frames) :
    List.Forall₂ (StreamState.Skips next file) (openStreams fs) (openStreams frames) := by
  induction h with
  | nil => exact List.Forall₂.nil
  | cons hf _ ih =>
    rw [openStreams_cons, openStreams_cons]
    exact List.rel_append hf.streams ih

/-- The streams that remain keep the invariant. -/
theorem OpenFiles.sublist {ss' : List StreamState} (h : OpenFiles io L ss) (hs : ss'.Sublist ss) :
    OpenFiles io L ss' :=
  ⟨h.describes, h.readErrors, fun t ht => h.valid t (hs.subset ht), h.shares.sublist hs⟩

/-- `os_exit` does not use the disk. -/
theorem osExit_disk : (osExit k r).1.disk = k.disk := by
  simp only [osExit]
  split_ifs
  all_goals rfl

/-- A call keeps the invariant. -/
theorem Effect.openFiles (h : Effect n base k f fs id a k' r fs')
    (ho : OpenFiles k.disk.io L (openStreams (f :: fs))) :
    ∃ L', OpenFiles k'.disk.io L' (openStreams fs') := by
  cases h with
  | quiet _ hreads => exact ⟨L, ho.of_afterReads hreads⟩
  | key => exact ⟨L, ho⟩
  | output =>
    have hdisk : (osWriteOutput k a.arg0 a.arg1 a.arg2).1.disk = k.disk := by
      unfold osWriteOutput
      split_ifs
      all_goals rfl
    rw [hdisk]
    exact ⟨L, ho⟩
  | stream _ _ hs hstream =>
    obtain ⟨pre, post, heq, hset⟩ := openStreams_setStream fs hs
    rw [heq] at ho
    obtain ⟨L', -, ho'⟩ := hstream.openFiles ho
    rw [hset]
    exact ⟨L', ho'⟩
  | opened _ hf hs _ hopen =>
    obtain ⟨pre, post, heq, hset⟩ := openStreams_setStream fs hs
    replace ho := ho.extends hf
    rw [heq] at ho
    obtain ⟨L', -, ho'⟩ := hopen.openFiles heq ho
    rw [hset]
    exact ⟨L', ho'⟩
  | openFailed _ hf hreads hdisk =>
    have ho' := (ho.extends hf).of_afterReads hreads
    rcases hdisk with rfl | ⟨name, status, hcreate⟩
    · exact ⟨L, ho'⟩
    · exact ⟨L, ho'.of_afterReads (diskCreateFile_error_afterReads hcreate)⟩
  | @delete disk₁ disk₂ disk memory file previous frames _ hfind hfile hallows hskips hreads hdelete =>
    obtain ⟨hio, hfound, -⟩ := ho.found hfind hfile
    have ho₁ := ho.of_afterReads (diskFindFile_afterReads hfind)
    have ho₂ := ho₁.of_afterReads hreads
    rw [← hio, ← hreads.eq ho₁.readErrors] at hfound
    -- no stream is open for the file, but the current position of a listing may be on it
    have hall : ∀ t ∈ openStreams (f :: fs), t.Allows file MODE_WRITE := by
      intro t ht
      obtain ⟨g, hg, ht⟩ := List.mem_flatMap.mp ht
      exact hallows g hg t ht
    obtain ⟨L', -, -, -, -, -, ho'⟩ := ho₂.delete hfound hall (openStreams_skips hskips) hdelete
    exact ⟨L', ho'⟩
  | spawn _ hreads => exact ⟨L, ho.of_afterReads hreads⟩
  | exit _ hfs _ =>
    subst hfs
    rw [osExit_disk]
    exact ⟨L, ho.sublist (List.sublist_append_right _ _)⟩

/-- Each step keeps the invariant. -/
theorem StepEffect.openFiles (hk : Framed k base (f :: fs)) (h : StepEffect base k f fs e k' fs')
    (ho : OpenFiles k.disk.io L (openStreams (f :: fs))) :
    ∃ L', OpenFiles k'.disk.io L' (openStreams fs') := by
  cases h with
  | user => exact ⟨L, ho⟩
  | call _ _ _ heffect =>
    obtain ⟨L', ho'⟩ := heffect.openFiles (L := L) ho
    rw [openStreams_withResult]
    exact ⟨L', ho'⟩
  | shellFault hfs =>
    subst hfs
    exact ⟨L, ho⟩
  | fault hfs =>
    subst hfs
    rw [osExit_disk]
    exact ⟨L, ho.sublist (List.sublist_append_right _ _)⟩

/-! ### Runs -/

/-- The states of the runs from `k₀` whose steps all meet the condition `C`. -/
inductive Run (C : Kernel → Event → Prop) (k₀ : Kernel) : Kernel → Prop
  | start : Run C k₀ k₀
  | step {k k' : Kernel} {e : Event} (h : Run C k₀ k) (hc : C k e) (hs : Step k e k') : Run C k₀ k'

/-- What a run reaches is reachable. -/
theorem Run.reachable {C : Kernel → Event → Prop} {k₀ : Kernel} (hboot : Booted k₀)
    (h : Run C k₀ k) : Reachable C k := by
  induction h with
  | start => exact Reachable.boot hboot
  | step _ hc hs ih => exact Reachable.step ih hc hs

/-- The runs in which no output is written over the memory of the kernel. -/
theorem Run.kernelSafe {k₀ : Kernel} (hboot : Booted k₀) (h : Run Event.OutputSafe k₀ k) :
    Run Event.KernelSafe k₀ k := by
  induction h with
  | start => exact Run.start
  | step h hsafe hs ih =>
    obtain ⟨-, base, f, fs, -, -, hmod, hpages⟩ := (h.reachable hboot).kernelSafe
    exact Run.step ih (hsafe.kernelSafe hs hmod hpages) hs

/-- The invariant holds in every state of a run. -/
theorem Run.openFiles {k₀ : Kernel} (hboot : Booted k₀) (hwf : WellFormed k₀.disk.io)
    (hr : k₀.disk.io.readErrors = []) (h : Run Event.OutputSafe k₀ k) :
    ∃ base f fs L, Framed k base (f :: fs) ∧ OpenFiles k.disk.io L (openStreams (f :: fs)) := by
  replace h := h.kernelSafe hboot
  induction h with
  | start =>
    obtain ⟨base, p, hbooting⟩ := hboot.booting
    obtain ⟨L, hL⟩ := hwf
    refine ⟨base, _, _, L, hbooting.framed, hL, hr, ?_, List.Pairwise.nil⟩
    intro t ht
    cases ht
  | step _ hsafe hs ih =>
    obtain ⟨base, f, fs, L, hframed, ho⟩ := ih
    obtain ⟨fs', hframed', heffect⟩ := step_effect hframed hsafe hs
    obtain ⟨L', ho'⟩ := heffect.openFiles hframed ho
    obtain ⟨f', fs', rfl⟩ := List.exists_cons_of_ne_nil heffect.ne_nil
    exact ⟨base, f', fs', L', hframed', ho'⟩

/-! ### The streams of the chain -/

/-- The size of the header of the block `b` of the file `g`. -/
def headerSize (g : FileLayout) (b : Nat) : Nat := if b = g.first then 24 + g.name.length else 8

/-- The parent chain and the lists of streams of its processes end, the streams refer to files of the
    disk, and a file that is written has one stream. -/
structure StreamsValid (k : Kernel) : Prop where
  chain : ∃ ps, k.Chain ps ∧ ∀ p ∈ ps, ∃ ss, k.Streams p ss
  exclusive : ∀ a b, k.StreamOnChain a → k.StreamOnChain b → a ≠ b →
    (k.stream a).mode = MODE_READ ∨ (k.stream a).mode = MODE_WRITE →
    (k.stream b).mode = MODE_READ ∨ (k.stream b).mode = MODE_WRITE →
    (k.stream a).fileBlock = (k.stream b).fileBlock →
      (k.stream a).mode = MODE_READ ∧ (k.stream b).mode = MODE_READ
  files : ∃ L, Describes k.disk.io L ∧ ∀ a, k.StreamOnChain a →
    ((k.stream a).mode = MODE_WRITE → ∃ g ∈ L.files, g.first = (k.stream a).fileBlock ∧
      g.last = (k.stream a).currentBlock) ∧
    ((k.stream a).mode = MODE_READ → ∃ g ∈ L.files, g.first = (k.stream a).fileBlock ∧
      (k.stream a).currentBlock ∈ g.blocks ∧
      headerSize g (k.stream a).currentBlock ≤ (k.stream a).currentOffset ∧
      (k.stream a).currentOffset ≤ usedSize (k.disk.io.blocks (k.stream a).currentBlock))

/-- A position in a file is in a block of the file, after its header. -/
theorem cursor_bounds {block offset : Nat} {rest : List UInt8} (h : Describes io L)
    (hg : g ∈ L.files) (hc : Cursor io g block offset rest) :
    block ∈ g.blocks ∧ headerSize g block ≤ offset ∧ offset ≤ usedSize (io.blocks block) := by
  obtain ⟨before, after, hblocks, hchain, -, hoffset⟩ := hc
  have hmem : block ∈ g.blocks := by
    rw [hblocks]
    simp
  refine ⟨hmem, ?_, hchain.first⟩
  cases before with
  | nil =>
    obtain ⟨rfl, -⟩ := List.cons.inj hblocks
    rw [headerSize, if_pos rfl]
    exact hoffset
  | cons x before =>
    have hrest : block ∈ g.rest := by
      rw [(List.cons.inj hblocks).2]
      simp
    have hne : block ≠ g.first := by
      rintro rfl
      exact h.first_not_mem_rest hg hg hrest
    rw [headerSize, if_neg hne]
    exact hoffset

/-- Two streams at different addresses share their file only to read it. -/
theorem openStreams_shares {g : Frame} {i j : Nat} (h : (openStreams fs).Pairwise StreamState.Shares)
    (hf : f ∈ fs) (hg : g ∈ fs) (hs : f.streams[i]? = some s) (ht : g.streams[j]? = some t)
    (hne : f.streamAddress i ≠ g.streamAddress j) : s.Shares t := by
  obtain ⟨hsame, hcross⟩ := List.pairwise_flatMap.mp h
  by_cases hfg : f = g
  · subst hfg
    obtain ⟨hi, rfl⟩ := List.getElem?_eq_some_iff.mp hs
    obtain ⟨hj, rfl⟩ := List.getElem?_eq_some_iff.mp ht
    have hpairs := List.pairwise_iff_getElem.mp (hsame f hf)
    rcases lt_trichotomy i j with hij | rfl | hij
    · exact hpairs i j hi hj hij
    · exact absurd rfl hne
    · exact (hpairs j i hj hi hij).symm
  · have : Std.Symm fun f g : Frame => ∀ s ∈ f.streams, ∀ t ∈ g.streams, s.Shares t :=
      ⟨fun f g hall s hs t ht => (hall t ht s hs).symm⟩
    exact hcross.forall hf hg hfg s (List.mem_of_getElem? hs) t (List.mem_of_getElem? ht)

/-- The invariant gives what is claimed of the streams. -/
theorem OpenFiles.streamsValid (hk : Framed k base fs) (h : OpenFiles k.disk.io L (openStreams fs)) :
    StreamsValid k := by
  have hstream : ∀ a, k.StreamOnChain a → ∃ f ∈ fs, ∃ i s, f.streams[i]? = some s ∧
      f.streamAddress i = a ∧ k.stream a = s.record (f.nextStream i) := by
    intro a ha
    obtain ⟨f, hf, i, hi, rfl⟩ := hk.streamOnChain_iff.mp ha
    have hs := List.getElem?_eq_getElem hi
    exact ⟨f, hf, i, _, hs, rfl, hk.stream hf hs⟩
  have hvalid : ∀ {f : Frame} {i : Nat} {s : StreamState}, f ∈ fs → f.streams[i]? = some s →
      s.Valid k.disk.io L.files := by
    intro f i s hf hs
    exact h.valid s (List.mem_flatMap.mpr ⟨f, hf, List.mem_of_getElem? hs⟩)
  refine ⟨⟨_, hk.chain, fun p hp => ?_⟩, fun a b ha hb hne hao hbo heq => ?_, L, h.describes,
    fun a ha => ?_⟩
  · obtain ⟨f, hf, rfl⟩ := List.mem_map.mp hp
    exact ⟨_, hk.streams hf⟩
  · obtain ⟨f, hf, i, s, hs, rfl, hreads⟩ := hstream a ha
    obtain ⟨g, hg, j, t, ht, rfl, hreadt⟩ := hstream b hb
    rw [hreads] at hao heq ⊢
    rw [hreadt] at hbo heq ⊢
    exact openStreams_shares h.shares hf hg hs ht hne hao hbo heq
  · obtain ⟨f, hf, i, s, hs, rfl, hread⟩ := hstream a ha
    rw [hread]
    refine ⟨(hvalid hf hs).write, fun hmode => ?_⟩
    obtain ⟨g, hg, hfirst, rest, hcursor⟩ := (hvalid hf hs).read hmode
    exact ⟨g, hg, hfirst, cursor_bounds h.describes hg hcursor⟩

/-- The streams of the parent chain, in every state of the runs over a well-formed disk in which
    no output is written over the memory of the kernel. -/
theorem streams_valid {k₀ : Kernel} (hboot : Booted k₀) (hwf : WellFormed k₀.disk.io)
    (hr : k₀.disk.io.readErrors = []) (h : Run Event.OutputSafe k₀ k) : StreamsValid k := by
  obtain ⟨base, f, fs, L, hframed, ho⟩ := h.openFiles hboot hwf hr
  exact ho.streamsValid hframed

/-! ### A system with several files -/

/-- The content of the first block of the file "shell", and, but for its length, of the second one. -/
def shellBytes : List UInt8 := (List.range 483).map fun i => UInt8.ofNat (3 * i + 1)

/-- A disk with the files "a", which is empty, and "shell", of 520 bytes in the blocks 1 and 5.  The
    blocks 3, 4 and 6 are free. -/
def systemDisk : Disk where
  io :=
    { numBlocks := 7
      blocks := fun b =>
        if b = 0 then (DiskBlock.setNextBlock ⟨fun _ => 0⟩ 515).setNextFile 2
        else if b = 1 then
          ((newFileBlock ⟨fun _ => 0⟩ [115, 104, 101, 108, 108] 0).setNextBlock 517).write 29 shellBytes
        else if b = 2 then newFileBlock ⟨fun _ => 0⟩ [97] 1
        else if b = 3 then DiskBlock.setNextBlock ⟨fun _ => 0⟩ 516
        else if b = 4 then DiskBlock.setNextBlock ⟨fun _ => 0⟩ 518
        else if b = 5 then (setBlockSize ⟨fun _ => 0⟩ 45).write 8 (shellBytes.take 37)
        else DiskBlock.setNextBlock ⟨fun _ => 0⟩ 512
      readErrors := []
      size_le := seven_blocks_le }
  blockBuffer := ⟨fun _ => 0⟩

/-- The layout of this disk. -/
def systemLayout : Layout := ⟨[3, 4, 6], [⟨[97], 2, []⟩, ⟨[115, 104, 101, 108, 108], 1, [5]⟩]⟩

/-- This disk is well-formed. -/
theorem systemDisk_describes : Describes systemDisk.io systemLayout where
  super_lt := by decide
  free_path := by decide +kernel
  free_end := by decide +kernel
  files_path := by decide +kernel
  files_ok := by
    intro f hf
    rcases List.mem_pair.mp hf with rfl | rfl
    · exact {
        chain := by decide +kernel
        name_eq := by decide +kernel
        name_pos := by decide
        name_le := by simp
        name_chars := by simp
        size_ge := by decide +kernel
        size_le := by decide +kernel }
    · exact {
        chain := by decide +kernel
        name_eq := by decide +kernel
        name_pos := by decide
        name_le := by simp
        name_chars := by simp
        size_ge := by decide +kernel
        size_le := by decide +kernel }
  sorted := by decide +kernel
  partition := by decide +kernel

/-- The result of `os_spawn_shell` with this disk. -/
def systemBoot : Option (Kernel × Nat) := osSpawnShell 7 (osInit 0 16 5 24576 systemDisk shellMemory) 1000

theorem systemBoot_eq : systemBoot.isSome ∧ systemBoot.map Prod.snd = some OK := by decide +kernel

/-- The system with this disk when its shell starts. -/
def systemKernel : Kernel := (systemBoot.get systemBoot_eq.1).1

/-- `systemKernel` is the kernel that starts. -/
theorem systemKernel_boot :
    osSpawnShell 7 (osInit 0 16 5 24576 systemDisk shellMemory) 1000 = some (systemKernel, OK) :=
  boot_get systemBoot_eq

theorem systemKernel_booted : Booted systemKernel :=
  ⟨0, 16, 5, 24576, systemDisk, shellMemory, 7, 1000, by constructor <;> decide, systemKernel_boot⟩

/-- The start of the kernel keeps the disk. -/
theorem systemKernel_io : systemKernel.disk.io = systemDisk.io := osSpawnShell_io rfl systemKernel_boot

/-- The state after some system calls of the shell, given by their identifiers and the addresses of
    their arguments, if none of them writes to the standard output. -/
def playCalls (n : Nat) (k : Kernel) : List (UInt64 × UInt64) → Option Kernel
  | [] => some k
  | (id, args) :: calls =>
    if id.toNat = 6 ∧ (readArguments (saveContext k 4096 20480).memory args.toNat).arg0 = STANDARD_OUTPUT then
      none
    else
      match syscallHandler n k id.toNat args.toNat 4096 20480 [] with
      | none => none
      | some k => playCalls n k calls

/-- These calls are steps of a run. -/
theorem playCalls_run {k₀ : Kernel} {calls : List (UInt64 × UInt64)} (hrun : Run Event.OutputSafe k₀ k)
    (h : playCalls n k calls = some k') : Run Event.OutputSafe k₀ k' := by
  induction calls generalizing k with
  | nil =>
    rw [playCalls, Option.some_inj] at h
    rwa [← h]
  | cons call calls ih =>
    obtain ⟨id, args⟩ := call
    rw [playCalls] at h
    split at h
    · cases h
    · rename_i hsafe
      split at h
      · cases h
      · rename_i k₁ hcall
        have hs : Step k (.syscall n id args 4096 20480 []) k₁ := Step.syscall hcall
        exact ih (hrun.step (fun h6 hout => absurd ⟨h6, hout⟩ hsafe) hs) h

/-- The arguments of three calls of `os_open`, of a call of `os_write` and of a call of `os_read`, and
    the names "shell" and "b". -/
def callBytes : List UInt8 :=
  [4216, 5, MODE_READ, 4221, 1, MODE_WRITE, 4096, 0, MODE_READ, 6, 4096, 600, 4, 8192, 300].flatMap wordBytes ++
    [115, 104, 101, 108, 108, 98]

/-- The system when its shell has stored these bytes. -/
def callingKernel : Kernel := systemKernel.storeBytes 4096 callBytes

/-- The shell writes its arguments. -/
theorem callingKernel_run : Run Event.OutputSafe systemKernel callingKernel := by
  refine Run.step Run.start Event.outputSafe_user (Step.storeBytes fun page h1 h2 => ?_)
  obtain rfl : page = 1 := le_antisymm (le_trans h2 (by decide +kernel)) h1
  decide +kernel

/-- The shell opens "shell" twice for reading, creates "b", opens a list of the files, writes 600 bytes
    to "b", and reads 600 bytes from the first stream. -/
def streamCalls : List (UInt64 × UInt64) :=
  [(4, 4096), (4, 4096), (4, 4120), (4, 4144), (6, 4168), (5, 4192), (5, 4192)]

/-- The calls open four streams, two of them of one file. -/
theorem streamCalls_modes : (playCalls 12 callingKernel streamCalls).any (fun k =>
    [96, 136, 176, 216].map (fun s => (k.stream s).mode) = [ MODE_READ, MODE_READ, MODE_WRITE, MODE_LIST]) := by
  decide +kernel

/-- The streams of a process that reads, writes and lists files. -/
theorem streams_valid_opened : ∃ k, StreamsValid k ∧
    [96, 136, 176, 216].map (fun s => (k.stream s).mode) = [ MODE_READ, MODE_READ, MODE_WRITE, MODE_LIST] := by
  obtain ⟨k, hk, hmodes⟩ := (Option.any_eq_true _ _).mp streamCalls_modes
  refine ⟨k, streams_valid systemKernel_booted ?_ ?_ (playCalls_run callingKernel_run hk), of_decide_eq_true hmodes⟩
  · rw [systemKernel_io]
    exact ⟨_, systemDisk_describes⟩
  · rw [systemKernel_io]
    rfl

end Toys.Os
