import Mathlib
import Toys.FileSystem.Positions
import Toys.FileSystem.Reads

namespace Toys.Tools

open Toys.Lib Toys.FileSystem

/-!
# Tools — the image of some files

`maketoysfs` formats an image, and writes the files of its command line in it.

* `makeToysFs` — the program;
* `Stores` — the image has the files of a list;
* `makeToysFsLoop_stores` — when it succeeds, the image has the files of the command line.
-/

/-! ### `maketoysfs` -/

/-- A file on the command line, which can be read. -/
structure InputFile where
  name : List UInt8
  content : List UInt8

/-- `BLOCK_SIZE`. -/
def BLOCK_SIZE : Nat := 512

/-- `IMAGE_SIZE`. -/
def IMAGE_SIZE : Nat := 1024 * 1024

/-- "bin/". -/
def binPrefix : List UInt8 := [98, 105, 110, 47]

/-- "bin/toys". -/
def binToys : List UInt8 := binPrefix ++ [116, 111, 121, 115]

/-- "LICENSE". -/
def license : List UInt8 := [76, 73, 67, 69, 78, 83, 69]

/-- "src/LICENSE". -/
def srcLicense : List UInt8 := [115, 114, 99, 47] ++ license

/-- The name in the image, which `main` computes from the name on the command line. -/
def storedName (name : List UInt8) : List UInt8 :=
  if name.length ≥ 4 ∧ name.take 4 = binPrefix then
    if name.length ≠ 8 ∨ name.take 8 ≠ binToys then name.drop 4 else name
  else if name.length = 7 ∧ name.take 7 = license then srcLicense
  else name

/-- The results of `fread` until `feof`: full buffers, and then a shorter one, maybe empty. -/
def freads (content : List UInt8) : List (List UInt8) :=
  (List.range (content.length / BLOCK_SIZE + 1)).map fun i =>
    (content.drop (i * BLOCK_SIZE)).take BLOCK_SIZE

/-- The loop of `main` that copies a file, for the results of `fread`. -/
def copyInputLoop (bound : Nat) : Disk → (fileBlockId : Nat) → List (List UInt8) → Option (Disk × Status)
  | disk, _, [] => some (disk, .ok)
  | disk, fileBlockId, buffer :: reads =>
    match diskWriteFile bound disk fileBlockId buffer with
    | none => none
    | some (disk, fileBlockId, status) =>
      if status ≠ .ok then some (disk, status) else copyInputLoop bound disk fileBlockId reads

/-- The loop of `main` over the input files. -/
def makeToysFsLoop (bound : Nat) : Disk → List InputFile → Option (Disk × Status)
  | disk, [] => some (disk, .ok)
  | disk, input :: inputs =>
    match diskCreateFile bound disk (storedName input.name) with
    | none => none
    | some (disk, .error status) => some (disk, status)
    | some (disk, .ok fileBlockId) =>
      match copyInputLoop bound disk fileBlockId (freads input.content) with
      | none => none
      | some (disk, status) =>
        if status ≠ .ok then some (disk, status) else makeToysFsLoop bound disk inputs

/-- The number of blocks of the image. -/
def NUM_BLOCKS : Nat := IMAGE_SIZE / BLOCK_SIZE

/-- The size of the image. -/
theorem image_blocks_le : 512 * NUM_BLOCKS ≤ 2 ^ 64 := by norm_num [NUM_BLOCKS, IMAGE_SIZE, BLOCK_SIZE]

/-- The static variable `image`. -/
def blankImage : BlockIo where
  numBlocks := NUM_BLOCKS
  blocks := fun _ => ⟨fun _ => 0⟩
  readErrors := []
  size_le := image_blocks_le

/-- `main` of `maketoysfs`, with at least one input file: the image, and `OK` if it is written. -/
def makeToysFs (bound : Nat) (inputs : List InputFile) : Option (Disk × Status) :=
  makeToysFsLoop bound (diskFormat ⟨blankImage, ⟨fun _ => 0⟩⟩ NUM_BLOCKS) inputs
/-! ### `maketoysfs` stores the files -/

variable {name content : List UInt8} {n block : Nat} {io : BlockIo} {disk disk' : Disk}
  {files : List (List UInt8 × List UInt8)} {inputs : List InputFile} {reads : List (List UInt8)}

/-- The buffers that are read make the content. -/
theorem freads_flatten (content : List UInt8) : (freads content).flatten = content := by
  have htake : ∀ k, ((List.range k).map fun i =>
      (content.drop (i * BLOCK_SIZE)).take BLOCK_SIZE).flatten = content.take (k * BLOCK_SIZE) := by
    intro k
    induction k with
    | zero => rw [Nat.zero_mul, List.take_zero]; rfl
    | succ k ih =>
      rw [List.range_succ, List.map_append, List.flatten_append, ih, List.map_singleton,
        List.flatten_singleton, Nat.succ_mul, List.take_add]
  rw [freads, htake]
  apply List.take_of_length_le
  unfold BLOCK_SIZE
  omega

/-- The map of some files. -/
def mapOf (files : List (List UInt8 × List UInt8)) : Files :=
  (files.map fun f => (⟨f.1, f.2⟩ : Sigma fun _ : List UInt8 => List UInt8)).toFinmap

/-- The image has the files of a list, and can be read. -/
structure Stores (io : BlockIo) (files : List (List UInt8 × List UInt8)) : Prop where
  represents : Represents io (mapOf files)
  nodup : (files.map Prod.fst).Nodup
  readErrors : io.readErrors = []
  numBlocks : io.numBlocks = NUM_BLOCKS

/-- One more file in the map. -/
theorem mapOf_cons (file : List UInt8 × List UInt8) :
    mapOf (file :: files) = (mapOf files).insert file.1 file.2 := Finmap.toFinmap_cons ..

/-- The names of the map. -/
theorem mem_mapOf : name ∈ mapOf files ↔ name ∈ files.map Prod.fst := by
  induction files with
  | nil => simp [mapOf, Finmap.notMem_empty]
  | cons file files ih =>
    rw [mapOf_cons, Finmap.mem_insert, ih, List.map_cons, List.mem_cons]

/-- A call of `disk_write_file` appends to a file. -/
theorem diskWriteFile_stores {src : List UInt8} {block' : Nat}
    (h : Stores disk.io ((name, content) :: files)) (hblock : LastBlockOf disk.io name block)
    (hrun : diskWriteFile n disk block src = some (disk', block', .ok)) :
    Stores disk'.io ((name, content ++ src) :: files) ∧ LastBlockOf disk'.io name block' := by
  obtain ⟨io, buffer⟩ := disk
  obtain ⟨hrep, hnodup, hr, hblocks⟩ := h
  have hlookup : (mapOf ((name, content) :: files)).lookup name = some content := by
    rw [mapOf_cons, Finmap.lookup_insert]
  obtain ⟨io', buffer', block'', status, hwrite, hdevice, happended, -⟩ :=
    @diskWriteFile_appended io buffer _ _ _ _ _ hrep hr (le_max_right n _) hblock hlookup src
  have hsame := (diskWriteFile_mono hrun (le_max_left n io.numBlocks)).symm.trans hwrite
  rw [Option.some_inj, Prod.mk.injEq, Prod.mk.injEq] at hsame
  obtain ⟨rfl, rfl, rfl⟩ := hsame
  obtain ⟨hrep', hblock'⟩ := happended rfl
  rw [mapOf_cons, Finmap.insert_insert] at hrep'
  refine ⟨⟨?_, hnodup, hdevice.2.trans hr, hdevice.1.trans hblocks⟩, hblock'⟩
  rw [mapOf_cons]
  exact hrep'

/-- A file is written by some calls of `disk_write_file`. -/
theorem copyInputLoop_stores (h : Stores disk.io ((name, content) :: files))
    (hblock : LastBlockOf disk.io name block)
    (hrun : copyInputLoop n disk block reads = some (disk', .ok)) :
    Stores disk'.io ((name, content ++ reads.flatten) :: files) := by
  induction reads generalizing disk block content with
  | nil =>
    rw [copyInputLoop, Option.some_inj, Prod.mk.injEq] at hrun
    rw [← hrun.1, List.flatten_nil, List.append_nil]
    exact h
  | cons src reads ih =>
    rw [copyInputLoop] at hrun
    cases hcall : diskWriteFile n disk block src with
    | none => simp only [hcall, reduceCtorEq] at hrun
    | some result =>
      obtain ⟨disk₁, block₁, status⟩ := result
      simp only [hcall] at hrun
      by_cases hok : status = .ok
      · subst hok
        rw [if_neg (not_not.mpr rfl)] at hrun
        obtain ⟨hstores, hblock₁⟩ := diskWriteFile_stores h hblock hcall
        rw [List.flatten_cons, ← List.append_assoc]
        exact ih hstores hblock₁ hrun
      · rw [if_pos hok, Option.some_inj, Prod.mk.injEq] at hrun
        exact absurd hrun.2 hok

/-- A call of `disk_create_file` makes an empty file with a new name. -/
theorem diskCreateFile_stores {file : Nat} (h : Stores disk.io files)
    (hrun : diskCreateFile n disk name = some (disk', .ok file)) :
    Stores disk'.io ((name, []) :: files) ∧ LastBlockOf disk'.io name file := by
  obtain ⟨io, buffer⟩ := disk
  obtain ⟨hrep, hnodup, hr, hblocks⟩ := h
  obtain ⟨-, hnew, hrep', -⟩ := diskCreateFile_refines hrep hr hrun
  obtain ⟨L, hL, -⟩ := hrep
  have hcall := diskCreateFile_mono hrun (le_max_left n io.numBlocks)
  rcases @diskCreateFile_emptied io buffer _ L hL hr (le_max_right n _) name with
    ⟨buffer', status, -, heq⟩ | ⟨io', buffer', file', heq, hemptied⟩
  · -- the call succeeds
    rw [heq] at hcall
    cases hcall
  have hsame := hcall.symm.trans heq
  rw [Option.some_inj, Prod.mk.injEq] at hsame
  obtain ⟨rfl, hfile⟩ := hsame
  obtain rfl : file = file' := Except.ok.inj hfile
  refine ⟨⟨?_, ?_, hemptied.device.2.trans hr, hemptied.device.1.trans hblocks⟩, hemptied.last⟩
  · rw [mapOf_cons]
    exact hrep'
  · exact List.nodup_cons.mpr ⟨fun hmem => hnew (mem_mapOf.mpr hmem), hnodup⟩

/-- The input files are created and written. -/
theorem makeToysFsLoop_stores (h : Stores disk.io files)
    (hrun : makeToysFsLoop n disk inputs = some (disk', .ok)) :
    Stores disk'.io ((inputs.map fun input => (storedName input.name, input.content)).reverse ++ files) := by
  induction inputs generalizing disk files with
  | nil =>
    rw [makeToysFsLoop, Option.some_inj, Prod.mk.injEq] at hrun
    rw [← hrun.1]
    exact h
  | cons input inputs ih =>
    rw [makeToysFsLoop] at hrun
    cases hcall : diskCreateFile n disk (storedName input.name) with
    | none => simp only [hcall, reduceCtorEq] at hrun
    | some result =>
      obtain ⟨disk₁, created⟩ := result
      cases created with
      | error status =>
        simp only [hcall, Option.some_inj, Prod.mk.injEq] at hrun
        exact absurd (hrun.2 ▸ hcall) diskCreateFile_ne_ok
      | ok file =>
        simp only [hcall] at hrun
        obtain ⟨hcreated, hblock⟩ := diskCreateFile_stores h hcall
        cases hcopy : copyInputLoop n disk₁ file (freads input.content) with
        | none => simp only [hcopy, reduceCtorEq] at hrun
        | some result =>
          obtain ⟨disk₂, status⟩ := result
          simp only [hcopy] at hrun
          by_cases hok : status = .ok
          · subst hok
            rw [if_neg (not_not.mpr rfl)] at hrun
            have hcopied := copyInputLoop_stores hcreated hblock hcopy
            rw [List.nil_append, freads_flatten] at hcopied
            rw [List.map_cons, List.reverse_cons, List.append_assoc]
            exact ih hcopied hrun
          · rw [if_pos hok, Option.some_inj, Prod.mk.injEq] at hrun
            exact absurd hrun.2 hok

/-- The formatted image has no file. -/
theorem diskFormat_stores : Stores (diskFormat ⟨blankImage, ⟨fun _ => 0⟩⟩ NUM_BLOCKS).io [] := by
  have hblocks : blankImage.numBlocks = NUM_BLOCKS := rfl
  have hreads : blankImage.readErrors = [] := rfl
  obtain ⟨hdevice, hdescribes⟩ := diskFormat_describes hreads hblocks (by decide)
  exact ⟨⟨_, hdescribes, rfl⟩, List.nodup_nil, hdevice.2.trans hreads, hdevice.1.trans hblocks⟩

/-- A file of an image, by its name. -/
def fileOf (io : BlockIo) (f : FileLayout) : List UInt8 × List UInt8 := (f.name, fileContent io.blocks f)

/-- The files of the image are those of the command line. -/
theorem Stores.perm (h : Stores io files) : ∃ L, Describes io L ∧ (L.files.map (fileOf io)).Perm files := by
  obtain ⟨⟨L, hL, hmap⟩, hnodup, -, -⟩ := h
  refine ⟨L, hL, ?_⟩
  have hkeys : (L.files.map fun f =>
      (⟨f.name, fileContent io.blocks f⟩ : Sigma fun _ : List UInt8 => List UInt8)).NodupKeys := by
    have hnames := hL.namesNodup
    unfold List.NodupKeys List.keys
    rw [List.map_map]
    exact hnames
  have hkeys' : (files.map fun f => (⟨f.1, f.2⟩ : Sigma fun _ : List UInt8 => List UInt8)).NodupKeys := by
    unfold List.NodupKeys List.keys
    rw [List.map_map]
    exact hnodup
  have hperm := List.lookup_ext hkeys hkeys' fun x y => by
    rw [← Finmap.dlookup_list_toFinmap, ← Finmap.dlookup_list_toFinmap]
    exact iff_of_eq (congrArg (fun m : Files => y ∈ m.lookup x) hmap)
  have hpairs := hperm.map fun s => (s.1, s.2)
  rw [List.map_map, List.map_map] at hpairs
  exact hpairs.trans (List.Perm.of_eq (List.map_id _))
/-! ### Three files -/

/-- The image after `disk_format`. -/
def formattedImage : BlockIo where
  numBlocks := NUM_BLOCKS
  blocks := fun b =>
    if b = 0 then (blockSetNext ⟨fun _ => 0⟩ 1).setNextFile 0
    else if b < NUM_BLOCKS then blockSetNext ⟨fun _ => 0⟩ ((b + 1) % NUM_BLOCKS)
    else ⟨fun _ => 0⟩
  readErrors := []
  size_le := image_blocks_le

/-- What `disk_format` computes. -/
theorem diskFormat_eq : ∃ buffer,
    diskFormat ⟨blankImage, ⟨fun _ => 0⟩⟩ NUM_BLOCKS = ⟨formattedImage, buffer⟩ := by
  have hsuper : SUPER_BLOCK < blankImage.numBlocks := by decide
  have hreads : blankImage.readErrors = [] := rfl
  have hlt : ∀ i ∈ List.range' 1 (NUM_BLOCKS - 1), i < NUM_BLOCKS := by
    intro i hi
    have hrange := List.mem_range'_1.mp hi
    omega
  obtain ⟨⟨numBlocks, blocks, readErrors, hsize⟩, buffer', heq, ⟨hnum, herrors⟩, hin, hout⟩ :=
    foldl_diskFormatBlock (blankImage.set SUPER_BLOCK ((blockSetNext ⟨fun _ => 0⟩ 1).setNextFile 0))
      ((blockSetNext ⟨fun _ => 0⟩ 1).setNextFile 0) hreads NUM_BLOCKS hlt List.nodup_range'
  have hdisk : diskFormat ⟨blankImage, ⟨fun _ => 0⟩⟩ NUM_BLOCKS =
      ⟨⟨numBlocks, blocks, readErrors, hsize⟩, buffer'⟩ := by
    rw [← heq]
    simp only [diskFormat, diskReadBlockBuffer_eq hreads hsuper, Disk.setBuffer_eq,
      diskWriteBlockBuffer_eq hsuper]
    rfl
  have hblocks : blocks = formattedImage.blocks := by
    funext b
    by_cases hb : b ∈ List.range' 1 (NUM_BLOCKS - 1)
    · have hrange := List.mem_range'_1.mp hb
      have hvalue := hin b hb
      simp only [BlockIo.set_blocks] at hvalue
      rw [Function.update_of_ne (show b ≠ SUPER_BLOCK from Nat.ne_of_gt hrange.1)] at hvalue
      simp only [formattedImage]
      rw [if_neg (Nat.ne_of_gt hrange.1), if_pos (hlt b hb)]
      exact hvalue
    · have hvalue := hout b hb
      have hrange : b = 0 ∨ NUM_BLOCKS ≤ b := by
        rw [List.mem_range'_1] at hb
        omega
      simp only [BlockIo.set_blocks] at hvalue
      simp only [formattedImage]
      rcases hrange with rfl | hge
      · rw [if_pos rfl]
        rw [superBlock_eq, Function.update_self] at hvalue
        exact hvalue
      · have hpos : 0 < NUM_BLOCKS := by decide
        rw [if_neg (by omega), if_neg (by omega)]
        rw [superBlock_eq, Function.update_of_ne (by omega)] at hvalue
        exact hvalue
  refine ⟨buffer', hdisk.trans ?_⟩
  subst hblocks
  obtain rfl : numBlocks = NUM_BLOCKS := hnum
  obtain rfl : readErrors = [] := herrors
  rfl

/-- The creation of a file with a valid name does not depend on the buffer. -/
theorem diskCreateFile_buffer {buffer buffer' : DiskBlock} (hr : io.readErrors = [])
    (hsuper : SUPER_BLOCK < io.numBlocks) (hlength : ¬ (name.length = 0 ∨ name.length > 488))
    (hchars : ¬ name.any fun c => c ≤ 32 || c ≥ 127) :
    diskCreateFile n ⟨io, buffer⟩ name = diskCreateFile n ⟨io, buffer'⟩ name := by
  simp only [diskCreateFile, if_neg hlength, if_neg hchars, diskReadBlockBuffer_eq hr hsuper]

/-- "bin/toys", "bin/a" and "LICENSE", whose contents take two blocks, three blocks and one block. -/
def threeInputs : List InputFile :=
  [⟨binToys, List.replicate 600 7⟩, ⟨binPrefix ++ [97], List.replicate 1024 8⟩, ⟨license, [71, 80, 76]⟩]

/-- The image of these files is made. -/
theorem makeToysFs_threeInputs : ∃ disk, makeToysFs 5 threeInputs = some (disk, .ok) := by
  obtain ⟨buffer, hformat⟩ := diskFormat_eq
  have hbuffer : makeToysFsLoop 5 ⟨formattedImage, buffer⟩ threeInputs =
      makeToysFsLoop 5 ⟨formattedImage, ⟨fun _ => 0⟩⟩ threeInputs := by
    rw [threeInputs, makeToysFsLoop, makeToysFsLoop,
      diskCreateFile_buffer rfl (by decide) (by decide) (by decide)]
  have hok : (makeToysFsLoop 5 ⟨formattedImage, ⟨fun _ => 0⟩⟩ threeInputs).map Prod.snd = some .ok := by
    decide +kernel
  obtain ⟨⟨disk, status⟩, hrun, rfl⟩ := Option.map_eq_some_iff.mp hok
  exact ⟨disk, by rw [makeToysFs, hformat, hbuffer, hrun]⟩

end Toys.Tools
