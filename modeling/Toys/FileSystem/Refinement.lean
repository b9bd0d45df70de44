import Mathlib
import Toys.FileSystem.WellFormed
import Toys.FileSystem.Read

namespace Toys.FileSystem

open Toys.Lib

/-!
# File system — an image is a finite map

A well-formed image stands for a finite map from names to contents.  On this map, creating
and clearing a file insert an empty content, writing appends, and deleting erases.

* `imageFiles`, `Represents` — the map of an image;
* `FirstBlock`, `LastBlockOf` — the blocks by which the operations refer to a file;
* `fileSystem_refines` — each operation computes the one on the map.
-/

variable {io : BlockIo} {buffer : DiskBlock} {n : Nat}

/-- Files by name. -/
abbrev Files := Finmap fun _ : List UInt8 => List UInt8

/-- The files of a layout. -/
def imageFiles (B : Nat → DiskBlock) (fs : List FileLayout) : Files :=
  (fs.map fun f => (⟨f.name, fileContent B f⟩ : Sigma fun _ : List UInt8 => List UInt8)).toFinmap

/-- The image stands for the files `m`. -/
def Represents (io : BlockIo) (m : Files) : Prop :=
  ∃ L, Describes io L ∧ imageFiles io.blocks L.files = m

/-- `block` is the first block of the file called `name`. -/
def FirstBlock (io : BlockIo) (name : List UInt8) (block : Nat) : Prop :=
  ∃ L, Describes io L ∧ ∃ f ∈ L.files, f.name = name ∧ f.first = block

/-- `block` is the last block of the file called `name`. -/
def LastBlockOf (io : BlockIo) (name : List UInt8) (block : Nat) : Prop :=
  ∃ L, Describes io L ∧ ∃ f ∈ L.files, f.name = name ∧ f.last = block

/-- `name'` is the greatest name of a file that is smaller than `name`. -/
def Precedes (m : Files) (name' name : List UInt8) : Prop :=
  name' ∈ m ∧ compareNames name' name = .smaller ∧
    ∀ k ∈ m, compareNames k name = .smaller → k = name' ∨ compareNames k name' = .smaller

/-! ### The layout of an image is unique -/

/-- Two lists of files with the same first blocks, chains and names are the same. -/
theorem files_unique {B : Nat → DiskBlock} {fs gs : List FileLayout}
    (hfirst : fs.map (·.first) = gs.map (·.first)) (hf : ∀ f ∈ fs, FileOk B f)
    (hg : ∀ g ∈ gs, FileOk B g) : fs = gs := by
  induction fs generalizing gs with
  | nil =>
    cases gs with
    | nil => rfl
    | cons g gs => simp at hfirst
  | cons f fs ih =>
    cases gs with
    | nil => simp at hfirst
    | cons g gs =>
      simp only [List.map_cons, List.cons.injEq] at hfirst
      obtain ⟨hfg, hfirst⟩ := hfirst
      have hfok := hf f (by simp)
      have hgok := hg g (by simp)
      obtain ⟨name, first, rest⟩ := f
      obtain ⟨name', first', rest'⟩ := g
      simp only at hfg
      subst hfg
      obtain rfl : name = name' := hfok.name_eq.symm.trans hgok.name_eq
      obtain rfl : rest = rest' := hfok.chain.unique hgok.chain
      rw [ih hfirst (fun k hk => hf k (by simp [hk])) fun k hk => hg k (by simp [hk])]

/-- An image has at most one layout. -/
theorem Describes.unique {L L' : Layout} (h : Describes io L) (h' : Describes io L') : L = L' := by
  obtain ⟨free, files⟩ := L
  obtain ⟨free', files'⟩ := L'
  obtain rfl : free = free' := h.free_path.unique h'.free_path
  obtain rfl : files = files' := files_unique (h.files_path.unique h'.files_path) h.files_ok h'.files_ok
  rfl

/-! ### Lookups -/

section Lookup

variable {B B' : Nat → DiskBlock} {fs : List FileLayout} {name : List UInt8}

/-- The map of the files, the first one apart. -/
theorem imageFiles_cons (f : FileLayout) (fs : List FileLayout) :
    imageFiles B (f :: fs) = (imageFiles B fs).insert f.name (fileContent B f) :=
  Finmap.toFinmap_cons ..

/-- The map has the names of the files. -/
theorem mem_imageFiles : name ∈ imageFiles B fs ↔ ∃ f ∈ fs, f.name = name := by
  induction fs with
  | nil => simp [imageFiles, Finmap.notMem_empty]
  | cons f fs ih =>
    rw [imageFiles_cons, Finmap.mem_insert, ih]
    simp only [List.mem_cons, exists_eq_or_imp]
    exact or_congr_left eq_comm

/-- The names of the files are all different. -/
def NamesNodup (fs : List FileLayout) : Prop := (fs.map (·.name)).Nodup

/-- The names of the files are different. -/
theorem Describes.namesNodup {L : Layout} (h : Describes io L) : NamesNodup L.files := by
  unfold NamesNodup List.Nodup
  rw [List.pairwise_map]
  refine h.sorted.imp fun {f g} hlt heq => ?_
  simp [compareNames_eq_equal.mpr heq] at hlt

/-- A name is mapped to the content of its file. -/
theorem lookup_imageFiles (hnd : NamesNodup fs) {f : FileLayout} (hf : f ∈ fs) :
    (imageFiles B fs).lookup f.name = some (fileContent B f) := by
  induction fs with
  | nil => simp at hf
  | cons g fs ih =>
    obtain ⟨hg, hnd⟩ := List.nodup_cons.mp hnd
    rw [imageFiles_cons]
    rcases List.mem_cons.mp hf with rfl | hf
    · rw [Finmap.lookup_insert]
    · rw [Finmap.lookup_insert_of_ne _ (fun heq => hg (List.mem_map.mpr ⟨f, hf, heq⟩)), ih hnd hf]

/-- The map only depends on the contents of the files. -/
theorem imageFiles_congr (h : ∀ f ∈ fs, fileContent B' f = fileContent B f) :
    imageFiles B' fs = imageFiles B fs := by
  induction fs with
  | nil => rfl
  | cons f fs ih =>
    rw [imageFiles_cons, imageFiles_cons, h f (by simp), ih fun g hg => h g (by simp [hg])]

/-- A file in the middle of the list is an insertion in the map. -/
theorem imageFiles_middle {pre post : List FileLayout} {f : FileLayout}
    (h : ∀ g ∈ pre, g.name ≠ f.name) :
    imageFiles B (pre ++ f :: post) =
      (imageFiles B (pre ++ post)).insert f.name (fileContent B f) := by
  induction pre with
  | nil => exact imageFiles_cons f post
  | cons g pre ih =>
    rw [List.cons_append, imageFiles_cons, ih fun k hk => h k (by simp [hk]), List.cons_append,
      imageFiles_cons, Finmap.insert_insert_of_ne _ (h g (by simp)).symm]

/-- The other files have other names. -/
theorem NamesNodup.pre_ne {pre post : List FileLayout} {f : FileLayout}
    (h : NamesNodup (pre ++ f :: post)) : ∀ g ∈ pre ++ post, g.name ≠ f.name := by
  unfold NamesNodup at h
  rw [List.map_append, List.map_cons, List.nodup_middle, List.nodup_cons, ← List.map_append] at h
  exact fun g hg heq => h.1 (List.mem_map.mpr ⟨g, hg, heq⟩)

/-- Changing the content of one file updates the map. -/
theorem imageFiles_replace {pre post : List FileLayout} {f : FileLayout} (f' : FileLayout)
    (hnd : NamesNodup (pre ++ f :: post)) (hname : f'.name = f.name)
    (h : ∀ g ∈ pre ++ post, fileContent B' g = fileContent B g) :
    imageFiles B' (pre ++ f' :: post) =
      (imageFiles B (pre ++ f :: post)).insert f.name (fileContent B' f') := by
  have hne := hnd.pre_ne
  rw [imageFiles_middle (fun g hg => hname ▸ hne g (by simp [hg])),
    imageFiles_middle (B := B) (fun g hg => hne g (by simp [hg])), imageFiles_congr h, hname,
    Finmap.insert_insert]

/-- Removing one file erases its name from the map. -/
theorem imageFiles_erase {pre post : List FileLayout} {f : FileLayout}
    (hnd : NamesNodup (pre ++ f :: post))
    (h : ∀ g ∈ pre ++ post, fileContent B' g = fileContent B g) :
    imageFiles B' (pre ++ post) = (imageFiles B (pre ++ f :: post)).erase f.name := by
  have hne := hnd.pre_ne
  have hnot : f.name ∉ imageFiles B (pre ++ post) := fun hmem => by
    obtain ⟨g, hg, hgf⟩ := mem_imageFiles.mp hmem
    exact hne g hg hgf
  rw [imageFiles_congr h, imageFiles_middle (fun g hg => hne g (by simp [hg]))]
  refine Finmap.ext_lookup fun name => ?_
  by_cases heq : name = f.name
  · rw [heq, Finmap.lookup_erase, Finmap.lookup_eq_none.mpr hnot]
  · rw [Finmap.lookup_erase_ne heq, Finmap.lookup_insert_of_ne _ heq]

end Lookup

/-! ### The place of a name -/

/-- The file before the place of a name has the greatest smaller name. -/
theorem previousOf_precedes {B : Nat → DiskBlock} {fs : List FileLayout} (name : List UInt8)
    (hs : fs.Pairwise fun f g => compareNames f.name g.name = .smaller) (previousFile : Nat) :
    (∃ f ∈ fs, f.first = previousOf name fs previousFile ∧
        Precedes (imageFiles B fs) f.name name) ∨
      (∀ k ∈ imageFiles B fs, compareNames k name ≠ .smaller) ∧
        previousOf name fs previousFile = previousFile := by
  have hsplit := filesBefore_append name fs
  have hbefore : ∀ f ∈ filesBefore name fs, compareNames f.name name = .smaller := fun f hf => by
    simpa using List.mem_takeWhile_imp hf
  have hfrom : ∀ f ∈ filesFrom name fs, compareNames f.name name ≠ .smaller := fun f hf =>
    filesFrom_not_smaller hs hf
  cases hb : filesBefore name fs using List.reverseRecOn with
  | nil =>
    refine Or.inr ⟨fun k hk => ?_, by simp [previousOf, hb]⟩
    obtain ⟨f, hf, rfl⟩ := mem_imageFiles.mp hk
    rw [hb, List.nil_append] at hsplit
    exact hfrom f (by rw [hsplit]; exact hf)
  | append_singleton init g _ =>
    have hg : g ∈ fs := by rw [← hsplit, hb]; simp
    refine Or.inl ⟨g, hg, by simp [previousOf, hb], mem_imageFiles.mpr ⟨g, hg, rfl⟩,
      hbefore g (by rw [hb]; simp), fun k hk hlt => ?_⟩
    obtain ⟨f, hf, rfl⟩ := mem_imageFiles.mp hk
    rw [← hsplit] at hf
    rcases List.mem_append.mp hf with hf | hf
    · rw [hb] at hf
      rcases List.mem_append.mp hf with hf | hf
      · rw [← hsplit, hb, List.append_assoc, List.pairwise_append] at hs
        exact Or.inr (hs.2.2 f hf g (by simp))
      · exact Or.inl (by rw [List.mem_singleton.mp hf])
    · exact absurd hlt (hfrom f hf)

/-! ### The operations on the map -/

section Operations

variable {m : Files} {name : List UInt8}

/-- A well-formed image stands for exactly one map. -/
theorem WellFormed.existsUnique (h : WellFormed io) : ∃! m, Represents io m := by
  obtain ⟨L, h⟩ := h
  refine ⟨_, ⟨L, h, rfl⟩, ?_⟩
  rintro m ⟨L', h', rfl⟩
  rw [h.unique h']

/-- What `*previous_file` is after a search of `name`: the first block of the file with the
    greatest smaller name, or its value before the search if there is none. -/
def PreviousFile (io : BlockIo) (m : Files) (name : List UInt8) (old new : Nat) : Prop :=
  (∃ name', Precedes m name' name ∧ FirstBlock io name' new) ∨
    (∀ k ∈ m, compareNames k name ≠ .smaller) ∧ new = old

/-- `disk_find_file` looks the name up, and finds the file before it. -/
theorem diskFindFile_refines (h : Represents io m) (hr : io.readErrors = [])
    (hn : io.numBlocks ≤ n) (name : List UInt8) (old : Nat) :
    ∃ buffer' file new, diskFindFile n ⟨io, buffer⟩ name old = some (⟨io, buffer'⟩, file, new) ∧
      (name ∈ m ∧ FirstBlock io name file ∨ name ∉ m ∧ file = 0) ∧ PreviousFile io m name old new := by
  obtain ⟨L, h, rfl⟩ := h
  obtain ⟨buffer', heq⟩ := diskFindFile_eq h hr hn name old
  refine ⟨buffer', _, _, heq, ?_, ?_⟩
  · cases hat : fileAt name L.files with
    | none =>
      refine Or.inr ⟨fun hmem => ?_, rfl⟩
      obtain ⟨f, hf, hname⟩ := mem_imageFiles.mp hmem
      rw [(fileAt_eq_some_iff h.sorted).mpr ⟨hf, hname⟩] at hat
      cases hat
    | some f =>
      have hf := (fileAt_eq_some_iff h.sorted).mp hat
      exact Or.inl ⟨mem_imageFiles.mpr ⟨f, hf⟩, L, h, f, hf.1, hf.2, rfl⟩
  · rcases previousOf_precedes (B := io.blocks) _ h.sorted old with
      ⟨f, hf, hfirst, hprec⟩ | hnone
    · exact Or.inl ⟨f.name, hprec, L, h, f, hf, rfl, hfirst⟩
    · exact Or.inr hnone

/-- `disk_create_file` adds a new name, with an empty content. -/
theorem diskCreateFile_refines {self' : Disk} {file : Nat} (h : Represents io m)
    (hr : io.readErrors = []) (hrun : diskCreateFile n ⟨io, buffer⟩ name = some (self', .ok file)) :
    ValidName name ∧ name ∉ m ∧ Represents self'.io (m.insert name []) ∧
      FirstBlock self'.io name file := by
  obtain ⟨L, h, rfl⟩ := h
  have hrun := diskCreateFile_mono hrun (le_max_left n io.numBlocks)
  rcases diskCreateFile_cases _ h hr (le_max_right n io.numBlocks) name with
    ⟨buffer', status, -, heq⟩ |
      ⟨io', buffer', newFile, free, heq, -, hvalid, hnone, hdev, hdesc, hframe, hempty⟩
  · rw [hrun] at heq; cases heq
  · rw [hrun] at heq
    obtain ⟨rfl, rfl⟩ : self' = ⟨io', buffer'⟩ ∧ file = newFile := by simpa using heq
    have hne : ∀ f ∈ L.files, f.name ≠ name := fun f hf hname => by
      rw [(fileAt_eq_some_iff h.sorted).mpr ⟨hf, hname⟩] at hnone
      cases hnone
    refine ⟨hvalid, fun hmem => ?_, ⟨_, hdesc, ?_⟩, _, hdesc, ⟨name, file, []⟩, ?_, rfl, rfl⟩
    · obtain ⟨f, hf, hname⟩ := mem_imageFiles.mp hmem
      exact hne f hf hname
    · have hsub : ∀ g ∈ filesBefore name L.files, g ∈ L.files := fun g hg =>
        (List.takeWhile_sublist _).subset hg
      simp only [Layout.insert]
      rw [imageFiles_middle (fun g hg => hne g (hsub g hg)), filesBefore_append, hempty]
      exact congrArg _ (imageFiles_congr fun f hf =>
        fileContent_frame (h.files_ok f hf) (hframe f hf))
    · simp [Layout.insert]

/-- The creation of a file returns, and leaves the image as it was if it fails. -/
theorem diskCreateFile_total (buffer : DiskBlock) (h : Represents io m) (hr : io.readErrors = []) (name : List UInt8) :
    ∃ self' result, diskCreateFile io.numBlocks ⟨io, buffer⟩ name = some (self', result) ∧
      ((∃ status, result = .error status ∧ self'.io = io) ∨
        ∃ file, result = .ok file ∧ ValidName name ∧ name ∉ m ∧
          Represents self'.io (m.insert name []) ∧ FirstBlock self'.io name file) := by
  have hrepresents := h
  obtain ⟨L, h, -⟩ := h
  rcases diskCreateFile_cases buffer h hr le_rfl name with
    ⟨buffer', status, -, heq⟩ | ⟨io', buffer', newFile, free, heq, -⟩
  · exact ⟨_, _, heq, .inl ⟨status, rfl, rfl⟩⟩
  · exact ⟨_, _, heq, .inr ⟨newFile, rfl, diskCreateFile_refines hrepresents hr heq⟩⟩

/-- `disk_write_file` appends the data to the content. -/
theorem diskWriteFile_refines {self' : Disk} {block block' : Nat} {c src : List UInt8}
    (h : Represents io m) (hr : io.readErrors = []) (hblock : LastBlockOf io name block)
    (hc : m.lookup name = some c)
    (hrun : diskWriteFile n ⟨io, buffer⟩ block src = some (self', block', .ok)) :
    Represents self'.io (m.insert name (c ++ src)) ∧ LastBlockOf self'.io name block' := by
  obtain ⟨⟨free, files⟩, h, rfl⟩ := h
  obtain ⟨L, h', f, hf, rfl, rfl⟩ := hblock
  obtain rfl := h.unique h'
  obtain ⟨pre, post, rfl⟩ := List.append_of_mem hf
  have hrun := diskWriteFile_mono hrun (le_max_left n io.numBlocks)
  obtain ⟨io', buffer', new, free', status, heq, -, hdev, hdesc, hframe, hstatus⟩ :=
    diskWriteFile_eq _ _ h hr (le_max_right n io.numBlocks)
  rw [hrun] at heq
  obtain ⟨rfl, rfl, rfl⟩ : self' = ⟨io', buffer'⟩ ∧
      block' = { f with rest := f.rest ++ new }.last ∧ Status.ok = status := by simpa using heq
  have hcontent := hstatus.resolve_right fun hoom => by cases hoom.1
  rw [lookup_imageFiles h.namesNodup hf, Option.some_inj] at hc
  refine ⟨⟨_, hdesc, ?_⟩, _, hdesc, { f with rest := f.rest ++ new }, by simp, rfl, rfl⟩
  rw [← hc, ← hcontent.2]
  exact imageFiles_replace _ h.namesNodup rfl fun g hg => fileContent_frame
    (h.files_ok g (mem_of_mem_split hg)) (hframe g hg)

/-- Writing to a file returns. -/
theorem diskWriteFile_total {block : Nat} (buffer : DiskBlock) (src : List UInt8)
    (hr : io.readErrors = []) (hblock : LastBlockOf io name block) :
    ∃ self' block' status,
      diskWriteFile io.numBlocks ⟨io, buffer⟩ block src = some (self', block', status) := by
  obtain ⟨⟨free, files⟩, h, f, hf, -, rfl⟩ := hblock
  obtain ⟨pre, post, rfl⟩ := List.append_of_mem hf
  obtain ⟨io', buffer', new, free', status, heq, -⟩ := diskWriteFile_eq buffer src h hr le_rfl
  exact ⟨_, _, _, heq⟩

/-- `disk_clear_file` makes the content empty. -/
theorem diskClearFile_refines {self' : Disk} {file : Nat} (h : Represents io m)
    (hr : io.readErrors = []) (hfile : FirstBlock io name file)
    (hrun : diskClearFile n ⟨io, buffer⟩ file = some self') :
    Represents self'.io (m.insert name []) ∧ FirstBlock self'.io name file := by
  obtain ⟨⟨free, files⟩, h, rfl⟩ := h
  obtain ⟨L, h', f, hf, rfl, rfl⟩ := hfile
  obtain rfl := h.unique h'
  obtain ⟨pre, post, rfl⟩ := List.append_of_mem hf
  have hrun := diskClearFile_mono hrun (le_max_left n io.numBlocks)
  obtain ⟨io', buffer', heq, hdev, hdesc, hframe, hempty⟩ :=
    diskClearFile_eq _ h hr (le_max_right n io.numBlocks)
  rw [hrun] at heq
  obtain rfl : self' = ⟨io', buffer'⟩ := by simpa using heq
  refine ⟨⟨_, hdesc, ?_⟩, _, hdesc, { f with rest := [] }, by simp, rfl, rfl⟩
  have hfiles := imageFiles_replace { f with rest := [] } h.namesNodup rfl fun g hg =>
    fileContent_frame (h.files_ok g (mem_of_mem_split hg)) (hframe g hg)
  rw [hempty] at hfiles
  exact hfiles

/-- Clearing a file returns. -/
theorem diskClearFile_total {file : Nat} (buffer : DiskBlock) (hr : io.readErrors = [])
    (hfile : FirstBlock io name file) :
    ∃ self', diskClearFile io.numBlocks ⟨io, buffer⟩ file = some self' := by
  obtain ⟨⟨free, files⟩, h, f, hf, -, rfl⟩ := hfile
  obtain ⟨pre, post, rfl⟩ := List.append_of_mem hf
  obtain ⟨io', buffer', heq, -⟩ := diskClearFile_eq buffer h hr le_rfl
  exact ⟨_, heq⟩

/-- Deleting a file. -/
theorem diskDeleteFile_refines {file previousFile : Nat} (buffer : DiskBlock) (h : Represents io m)
    (hr : io.readErrors = []) (hfile : FirstBlock io name file)
    (hprevious : PreviousFile io m name 0 previousFile) :
    ∃ self', diskDeleteFile io.numBlocks ⟨io, buffer⟩ file previousFile = some self' ∧
      Represents self'.io (m.erase name) := by
  obtain ⟨L, h, rfl⟩ := h
  obtain ⟨L', h', f, hf, rfl, rfl⟩ := hfile
  obtain rfl := h.unique h'
  obtain ⟨pre, post, hfiles, -, hpre⟩ := files_split ((fileAt_eq_some_iff h.sorted).mpr ⟨hf, rfl⟩)
  -- `previousFile` is determined by the map, so it is what `disk_find_file` computes
  have hprev : previousFile = previousFirst pre := by
    rw [← hpre]
    rcases previousOf_precedes (B := io.blocks) f.name h.sorted 0 with
      ⟨g, hg, hgfirst, hgmem, hglt, hgmax⟩ | ⟨hnone, h0⟩
    · rcases hprevious with ⟨name', ⟨hmem, hlt, hmax⟩, L', h'', k, hk, rfl, rfl⟩ | ⟨hnone, -⟩
      · obtain rfl := h.unique h''
        rw [← hgfirst]
        have hname : k.name = g.name := by
          rcases hgmax k.name hmem hlt with heq | hkg
          · exact heq
          rcases hmax g.name hgmem hglt with heq | hgk
          · exact heq.symm
          · have := compareNames_trans hkg hgk
            rw [compareNames_eq_equal.mpr rfl] at this
            cases this
        have hkat := (fileAt_eq_some_iff h.sorted).mpr ⟨hk, hname⟩
        have hgat := (fileAt_eq_some_iff h.sorted).mpr ⟨hg, rfl⟩
        rw [hkat, Option.some_inj] at hgat
        rw [hgat]
      · exact absurd hglt (hnone _ hgmem)
    · rcases hprevious with ⟨name', ⟨hmem, hlt, -⟩, -⟩ | ⟨-, hold⟩
      · exact absurd hlt (hnone _ hmem)
      · rw [h0, hold]
  obtain ⟨free, files⟩ := L
  simp only at hfiles
  subst hfiles
  obtain ⟨io', buffer', heq, hdev, hdesc, hframe⟩ := diskDeleteFile_eq buffer h hr le_rfl
  rw [← hprev] at heq
  exact ⟨_, heq, _, hdesc, imageFiles_erase h.namesNodup fun g hg => fileContent_frame
    (h.files_ok g (mem_of_mem_split hg)) (hframe g hg)⟩

/-- `disk_get_file_size` returns the length of the content. -/
theorem diskGetFileSize_refines {file : Nat} {c : List UInt8} (h : Represents io m)
    (hr : io.readErrors = []) (hfile : FirstBlock io name file) (hc : m.lookup name = some c)
    (hn : io.numBlocks ≤ n) :
    ∃ buffer', diskGetFileSize n ⟨io, buffer⟩ file = some (⟨io, buffer'⟩, c.length) := by
  obtain ⟨L, h, rfl⟩ := h
  obtain ⟨L', h', f, hf, rfl, rfl⟩ := hfile
  obtain rfl := h.unique h'
  rw [lookup_imageFiles h.namesNodup hf, Option.some_inj] at hc
  have hlen := h.blocks_length_lt hf
  have hsize := io.size_le
  have hle := (h.files_ok f hf).name_le
  have hlength : (io.blocks f.first).nameLength = f.name.length :=
    (h.files_ok f hf).nameLength_eq
  simp only [FileLayout.blocks, List.length_cons] at hlen
  obtain ⟨buffer', heq⟩ := diskGetFileSizeLoop_eq (n := n) 0 hr (h.chainOk hf)
    (by omega) (by omega)
  refine ⟨buffer', ?_⟩
  simp only [diskGetFileSize, diskReadBlockBuffer_eq hr (h.first_lt hf).2, hlength]
  rw [U64.add_eq (by omega), heq, Nat.zero_add, ← hc]
  rfl

/-- Reading a whole file from its start. -/
theorem diskReadFile_refines {file : Nat} {c : List UInt8} (h : Represents io m)
    (hr : io.readErrors = []) (hfile : FirstBlock io name file) (hc : m.lookup name = some c)
    (hn : io.numBlocks ≤ n) :
    ∃ buffer' r, diskReadFile n ⟨io, buffer⟩ file (24 + name.length) c.length =
      some (⟨io, buffer'⟩, r) ∧ r.data = c ∧ r.missing = 0 := by
  obtain ⟨L, h, rfl⟩ := h
  obtain ⟨L', h', f, hf, rfl, rfl⟩ := hfile
  obtain rfl := h.unique h'
  rw [lookup_imageFiles h.namesNodup hf, Option.some_inj] at hc
  have hlen := h.blocks_length_lt hf
  simp only [FileLayout.blocks, List.length_cons] at hlen
  obtain ⟨buffer', r, heq, hread⟩ := diskReadFileLoop_eq (n := n)
    hr (h.chainOk hf) (h.blocks_nodup hf) (by omega)
  have hcontent : chainContent io.blocks (24 + f.name.length) (f.first :: f.rest) = c := hc
  refine ⟨buffer', r, heq, ?_, ?_⟩
  · rw [hread.data_eq, hcontent, List.nil_append, List.take_length]
  · rw [hread.missing_eq, hcontent, Nat.sub_self]

end Operations

/-- On a well-formed image that stands for the files `m`, every operation returns, and computes the
    corresponding operation on `m` if it succeeds. -/
theorem fileSystem_refines {io : BlockIo} {buffer : DiskBlock} {m : Files} (h : Represents io m)
    (hr : io.readErrors = []) :
    (∀ name old, ∃ self' file new,
        (∀ n ≥ io.numBlocks, diskFindFile n ⟨io, buffer⟩ name old = some (self', file, new)) ∧
        self'.io = io ∧ (name ∈ m ∧ FirstBlock io name file ∨ name ∉ m ∧ file = 0) ∧
        PreviousFile io m name old new) ∧
      (∀ name, ∃ self' result,
        (∀ n ≥ io.numBlocks, diskCreateFile n ⟨io, buffer⟩ name = some (self', result)) ∧
        ((∃ status, result = .error status ∧ self'.io = io) ∨
          ∃ file, result = .ok file ∧ ValidName name ∧ name ∉ m ∧
            Represents self'.io (m.insert name []) ∧ FirstBlock self'.io name file)) ∧
      (∀ name block c src, LastBlockOf io name block → m.lookup name = some c →
        ∃ self' block' status,
          (∀ n ≥ io.numBlocks, diskWriteFile n ⟨io, buffer⟩ block src = some (self', block', status)) ∧
          (status = .ok →
            Represents self'.io (m.insert name (c ++ src)) ∧ LastBlockOf self'.io name block')) ∧
      (∀ name file, FirstBlock io name file →
        ∃ self', (∀ n ≥ io.numBlocks, diskClearFile n ⟨io, buffer⟩ file = some self') ∧
          Represents self'.io (m.insert name []) ∧ FirstBlock self'.io name file) ∧
      (∀ name file previousFile, FirstBlock io name file → PreviousFile io m name 0 previousFile →
        ∃ self', (∀ n ≥ io.numBlocks, diskDeleteFile n ⟨io, buffer⟩ file previousFile = some self') ∧
          Represents self'.io (m.erase name)) ∧
      (∀ name file c, FirstBlock io name file → m.lookup name = some c →
        ∃ self', (∀ n ≥ io.numBlocks,
          diskGetFileSize n ⟨io, buffer⟩ file = some (self', c.length)) ∧ self'.io = io) ∧
      ∀ name file c, FirstBlock io name file → m.lookup name = some c →
        ∃ self' r, (∀ n ≥ io.numBlocks,
            diskReadFile n ⟨io, buffer⟩ file (24 + name.length) c.length = some (self', r)) ∧
          self'.io = io ∧ r.data = c ∧ r.missing = 0 := by
  refine ⟨fun name old => ?_, fun name => ?_, fun name block c src hblock hc => ?_,
    fun name file hfile => ?_, fun name file previousFile hfile hprevious => ?_,
    fun name file c hfile hc => ?_, fun name file c hfile hc => ?_⟩
  · obtain ⟨buffer', file, new, heq, hfile, hnew⟩ :=
      diskFindFile_refines h hr (le_refl _) name old
    exact ⟨_, file, new, fun n hn => diskFindFile_mono heq hn, rfl, hfile, hnew⟩
  · obtain ⟨buffer', result, heq, hresult⟩ := diskCreateFile_total buffer h hr name
    exact ⟨_, result, fun n hn => diskCreateFile_mono heq hn, hresult⟩
  · obtain ⟨self', block', status, heq⟩ := diskWriteFile_total buffer src hr hblock
    refine ⟨self', block', status, fun n hn => diskWriteFile_mono heq hn, ?_⟩
    rintro rfl
    exact diskWriteFile_refines h hr hblock hc heq
  · obtain ⟨self', heq⟩ := diskClearFile_total buffer hr hfile
    exact ⟨self', fun n hn => diskClearFile_mono heq hn, diskClearFile_refines h hr hfile heq⟩
  · obtain ⟨self', heq, hrepresents⟩ := diskDeleteFile_refines buffer h hr hfile hprevious
    exact ⟨self', fun n hn => diskDeleteFile_mono heq hn, hrepresents⟩
  · obtain ⟨buffer', heq⟩ := diskGetFileSize_refines h hr hfile hc (le_refl _)
    exact ⟨_, fun n hn => diskGetFileSize_mono heq hn, rfl⟩
  · obtain ⟨buffer', r, heq, hdata, hmissing⟩ :=
      diskReadFile_refines h hr hfile hc (le_refl _)
    exact ⟨_, r, fun n hn => diskReadFile_mono heq hn, rfl, hdata, hmissing⟩

/-- The files of `filesIo`. -/
def twoFiles : Files := imageFiles filesIo.blocks filesLayout.files

/-- The small image represents its two files. -/
theorem filesIo_represents : Represents filesIo twoFiles := ⟨_, filesIo_describes, rfl⟩

/-- The content of "A" is in two blocks. -/
theorem twoFiles_lookup :
    ∃ c, twoFiles.lookup [65] = some c ∧ c.length = 579 := by
  have hlookup : (twoFiles.lookup [65]).map List.length = some 579 := by decide +kernel
  exact Option.map_eq_some_iff.mp hlookup

/-- The operations on an image with two files. -/
theorem fileSystem_refines_files :
    (∃ self', (∀ n ≥ 7, diskFindFile n ⟨filesIo, ⟨fun _ => 0⟩⟩ [66, 67] 0 = some (self', 2, 1)) ∧
        self'.io = filesIo) ∧
      (∃ self', (∀ n ≥ 7, diskCreateFile n ⟨filesIo, ⟨fun _ => 0⟩⟩ [66] = some (self', .ok 4)) ∧
        Represents self'.io (twoFiles.insert [66] [])) ∧
      (∃ self' c, (∀ n ≥ 7, diskWriteFile n ⟨filesIo, ⟨fun _ => 0⟩⟩ 3 (List.replicate 1000 1) =
          some (self', 5, .ok)) ∧ twoFiles.lookup [65] = some c ∧
        Represents self'.io (twoFiles.insert [65] (c ++ List.replicate 1000 1))) ∧
      (∃ self', (∀ n ≥ 7, diskClearFile n ⟨filesIo, ⟨fun _ => 0⟩⟩ 1 = some self') ∧
        Represents self'.io (twoFiles.insert [65] [])) ∧
      (∃ self', (∀ n ≥ 7, diskDeleteFile n ⟨filesIo, ⟨fun _ => 0⟩⟩ 1 0 = some self') ∧
        Represents self'.io (twoFiles.erase [65])) ∧
      (∃ self', ∀ n ≥ 7, diskGetFileSize n ⟨filesIo, ⟨fun _ => 0⟩⟩ 1 = some (self', 579)) ∧
      ∃ self' r c, (∀ n ≥ 7, diskReadFile n ⟨filesIo, ⟨fun _ => 0⟩⟩ 1 25 579 = some (self', r)) ∧
        twoFiles.lookup [65] = some c ∧ r.data = c := by
  obtain ⟨hfind, hcreate, hwrite, hclear, hdelete, hsize, hread⟩ :=
    @fileSystem_refines _ ⟨fun _ => 0⟩ _ filesIo_represents rfl
  obtain ⟨c, hc, hlength⟩ := twoFiles_lookup
  have hfirst : FirstBlock filesIo [65] 1 :=
    ⟨_, filesIo_describes, ⟨[65], 1, [3]⟩, List.mem_pair.mpr (.inl rfl), rfl, rfl⟩
  have hlast : LastBlockOf filesIo [65] 3 :=
    ⟨_, filesIo_describes, ⟨[65], 1, [3]⟩, List.mem_pair.mpr (.inl rfl), rfl, rfl⟩
  refine ⟨?_, ?_, ?_, ?_, ?_, ?_, ?_⟩
  · obtain ⟨self', file, new, hrun, hio, -⟩ := hfind [66, 67] 0
    have hresult : (diskFindFile 7 ⟨filesIo, ⟨fun _ => 0⟩⟩ [66, 67] 0).map Prod.snd = some (2, 1) := by
      decide +kernel
    rw [hrun 7 le_rfl, Option.map_some, Option.some_inj, Prod.mk.injEq] at hresult
    obtain ⟨rfl, rfl⟩ := hresult
    exact ⟨self', hrun, hio⟩
  · obtain ⟨self', result, hrun, hresult⟩ := hcreate [66]
    have hok : (diskCreateFile 7 ⟨filesIo, ⟨fun _ => 0⟩⟩ [66]).any (fun r => r.2.toOption = some 4) = true := by
      decide +kernel
    rw [hrun 7 le_rfl, Option.any_some] at hok
    rcases hresult with ⟨status, rfl, -⟩ | ⟨file, rfl, -, -, hfiles, -⟩
    · cases of_decide_eq_true hok
    · obtain rfl : file = 4 := Option.some_inj.mp (of_decide_eq_true hok)
      exact ⟨self', hrun, hfiles⟩
  · obtain ⟨self', block', status, hrun, hfiles⟩ := hwrite [65] 3 c (List.replicate 1000 1) hlast hc
    have hresult : (diskWriteFile 7 ⟨filesIo, ⟨fun _ => 0⟩⟩ 3 (List.replicate 1000 1)).map Prod.snd =
        some (5, .ok) := by decide +kernel
    rw [hrun 7 le_rfl, Option.map_some, Option.some_inj, Prod.mk.injEq] at hresult
    obtain ⟨rfl, rfl⟩ := hresult
    exact ⟨self', c, hrun, hc, (hfiles rfl).1⟩
  · obtain ⟨self', hrun, hfiles, -⟩ := hclear [65] 1 hfirst
    exact ⟨self', hrun, hfiles⟩
  · refine hdelete [65] 1 0 hfirst (.inr ⟨fun k hk => ?_, rfl⟩)
    -- there is no name before "A"
    obtain ⟨f, hf, rfl⟩ := mem_imageFiles.mp hk
    rcases List.mem_pair.mp hf with rfl | rfl
    · decide
    · decide
  · obtain ⟨self', hrun, -⟩ := hsize [65] 1 c hfirst hc
    rw [hlength] at hrun
    exact ⟨self', hrun⟩
  · obtain ⟨self', r, hrun, -, hdata, -⟩ := hread [65] 1 c hfirst hc
    rw [hlength] at hrun
    exact ⟨self', r, c, hrun, hc, hdata⟩

end Toys.FileSystem
