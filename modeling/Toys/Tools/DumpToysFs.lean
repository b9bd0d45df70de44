import Mathlib
import Toys.Lib.Octal
import Toys.FileSystem.Entries
import Toys.Tools.MakeToysFs
import Toys.Tools.MakeToysImg

namespace Toys.Tools

open Toys.Lib Toys.FileSystem

/-!
# Tools — the archive of an image

`dumptoysfs` writes the files of an image in a TAR archive.

* `dumpToysFs` — the program, in TAR mode;
* `TarEntry` — what is written for a file: its header and its content;
* `dumpToysFs_eq` — the archive of an image has the entries of its files;
* `dumpToysFs_makeToysFs` — the archive of the image of some files has one entry for each of them,
  in the order of their names.
-/

/-! ### `dumptoysfs` -/

/-- `TAR_BLOCK_SIZE`. -/
def TAR_BLOCK_SIZE : Nat := 512

/-- `tar_header_t`. -/
structure TarHeader where
  name : List UInt8
  mode : List UInt8
  owner : List UInt8
  group : List UInt8
  size : List UInt8
  mtime : List UInt8
  checksum : List UInt8
  type : UInt8
  linkname : List UInt8
  padding : List UInt8

/-- The bytes of a header. -/
def TarHeader.bytes (h : TarHeader) : List UInt8 :=
  h.name ++ h.mode ++ h.owner ++ h.group ++ h.size ++ h.mtime ++ h.checksum ++ [h.type] ++
    h.linkname ++ h.padding

/-- A string is written in a field, with the zero that ends it. -/
def writeString (field s : List UInt8) : List UInt8 := s ++ 0 :: field.drop (s.length + 1)

/-- The value of a `char`, which is signed, in a sum of 32 bits. -/
def charValue (c : UInt8) : Nat := if c < 128 then c.toNat else 2 ^ 32 - 256 + c.toNat

/-- The first value of `header` in `compute_tar_header`. -/
def initialTarHeader : TarHeader where
  name := zeros 100
  mode := [48, 48, 48, 48, 54, 54, 52, 0]
  owner := [48, 48, 48, 49, 55, 53, 48, 0]
  group := [48, 48, 48, 49, 55, 53, 48, 0]
  size := zeros 12
  mtime := List.replicate 11 48 ++ [0]
  checksum := List.replicate 8 32
  type := 48
  linkname := zeros 100
  padding := zeros 255

/-- `compute_tar_header`. -/
def computeTarHeader (name : List UInt8) (size : Nat) : TarHeader :=
  let header := initialTarHeader
  let header := { header with name := writeString header.name name }
  let header := { header with size := writeString header.size (octal 1 (size % 2 ^ 32)) }
  let checksum := (header.bytes.map charValue).sum % 2 ^ 32
  { header with checksum := writeString header.checksum (octal 6 checksum) }

/-- The loop of `main` that copies the content of a file: what it writes. -/
def dumpFileLoop (bound : Nat) :
    (rounds : Nat) → Disk → (block offset remaining : Nat) → Option (Disk × List UInt8)
  | 0, _, _, _, _ => none
  | rounds + 1, disk, block, offset, remaining =>
    if remaining > 0 then
      match diskReadFile bound disk block offset TAR_BLOCK_SIZE with
      | none => none
      | some (disk, r) =>
        let n := U64.sub TAR_BLOCK_SIZE r.missing
        let buffer := r.data ++ zeros (TAR_BLOCK_SIZE - n)
        match dumpFileLoop bound rounds disk r.block r.offset (U64.sub remaining n) with
        | none => none
        | some (disk, out) => some (disk, buffer ++ out)
    else some (disk, [])

/-- The loop of `main` over the files: what it writes. -/
def dumpToysFsLoop (bound : Nat) : (rounds : Nat) → Disk → (file : Nat) → Option (List UInt8)
  | 0, _, _ => none
  | rounds + 1, disk, file =>
    if file ≠ 0 then
      let block := file
      let disk := diskReadBlockBuffer disk file
      let file := disk.blockBuffer.nextFile
      let nameLength := disk.blockBuffer.nameLength % 2 ^ 32
      -- the name that `sprintf` copies ends at a byte 0
      let name := (disk.blockBuffer.read 24 nameLength).takeWhile (· ≠ 0)
      match diskGetFileSize bound disk block with
      | none => none
      | some (disk, size) =>
        if name.length > 99 then dumpToysFsLoop bound rounds disk file
        else
          match dumpFileLoop bound bound disk block (24 + nameLength) size with
          | none => none
          | some (disk, out) =>
            match dumpToysFsLoop bound rounds disk file with
            | none => none
            | some archive => some ((computeTarHeader name size).bytes ++ out ++ archive)
    else some []

/-- `main` of `dumptoysfs` in TAR mode: the archive. -/
def dumpToysFs (bound : Nat) (image : BlockIo) (blockBuffer : DiskBlock) : Option (List UInt8) :=
  let disk := diskReadBlockBuffer ⟨image, blockBuffer⟩ SUPER_BLOCK
  match dumpToysFsLoop bound bound disk disk.blockBuffer.nextFile with
  | none => none
  | some archive => some (archive ++ zeros (2 * TAR_BLOCK_SIZE))

/-! ### The entries of an archive -/

/-- The sum of the bytes of a header whose checksum is made of spaces. -/
def tarChecksum (header : List UInt8) : Nat :=
  ((header.take 148 ++ List.replicate 8 32 ++ header.drop 156).map UInt8.toNat).sum

/-- The entry of a file: its name, its size and the checksum are in the header, and its content,
    padded to a multiple of 512 bytes, follows. -/
structure TarEntry (file : List UInt8 × List UInt8) (entry : List UInt8) : Prop where
  name : entry.take 100 = file.1 ++ zeros (100 - file.1.length)
  size : ∃ digits, IsOctal digits ∧ octalValue digits = file.2.length ∧ digits.length ≤ 11 ∧
    (entry.drop 124).take 12 = digits ++ zeros (12 - digits.length)
  checksum : ∃ digits, IsOctal digits ∧ octalValue digits = tarChecksum (entry.take 512) ∧
    (entry.drop 148).take 8 = digits ++ [0, 32]
  content : ∃ k < 512, entry.drop 512 = file.2 ++ zeros k ∧ 512 ∣ file.2.length + k

variable {name s content : List UInt8} {n k size : Nat}

/-- The part of a list between two other ones. -/
theorem take_drop_middle {as bs cs : List UInt8} {i : Nat} (ha : as.length = i) (hb : bs.length = k) :
    ((as ++ bs ++ cs).drop i).take k = bs := by
  rw [List.append_assoc, List.drop_left' ha, List.take_left' hb]

/-- The number of zeros. -/
theorem length_zeros : (zeros n).length = n := List.length_replicate

/-- A string in a field of zeros. -/
theorem writeString_zeros (h : s.length < k) : writeString (zeros k) s = s ++ zeros (k - s.length) := by
  obtain ⟨j, rfl⟩ : ∃ j, k = s.length + 1 + j := ⟨k - (s.length + 1), by omega⟩
  have hdrop : (zeros (s.length + 1 + j)).drop (s.length + 1) = zeros j := by
    rw [zeros, List.drop_replicate, Nat.add_sub_cancel_left]
    rfl
  have hcons : zeros (s.length + 1 + j - s.length) = 0 :: zeros j := by
    rw [show s.length + 1 + j - s.length = j + 1 by omega]
    rfl
  rw [writeString, hdrop, hcons]

/-- The header before the checksum. -/
def headerStart (name : List UInt8) (size : Nat) : List UInt8 :=
  name ++ zeros (100 - name.length) ++ initialTarHeader.mode ++ initialTarHeader.owner ++
    initialTarHeader.group ++
    (octal 1 size ++ zeros (12 - (octal 1 size).length)) ++ initialTarHeader.mtime

/-- The header after the checksum. -/
def headerEnd : List UInt8 := [initialTarHeader.type] ++ initialTarHeader.linkname ++
  initialTarHeader.padding

/-- The size of a file has few digits. -/
theorem length_octal_size (hsize : size < 2 ^ 32) : (octal 1 size).length ≤ 11 :=
  length_octal_le (by decide) (lt_of_lt_of_le hsize (by decide))

/-- The first part of the header has 148 bytes. -/
theorem length_headerStart (hname : name.length ≤ 99) (hsize : size < 2 ^ 32) :
    (headerStart name size).length = 148 := by
  have hdigits := length_octal_size hsize
  simp only [headerStart, List.length_append, length_zeros, initialTarHeader, List.length_cons,
    List.length_nil, List.length_replicate]
  omega

/-- The last part of the header has 356 bytes. -/
theorem length_headerEnd : headerEnd.length = 356 := by
  simp only [headerEnd, List.length_append, initialTarHeader, length_zeros, List.length_singleton]

/-- The header with a checksum made of spaces. -/
def blankHeader (name : List UInt8) (size : Nat) : List UInt8 :=
  headerStart name size ++ List.replicate 8 32 ++ headerEnd

/-- A byte that is at most a character. -/
theorem char_lt {b c : UInt8} (h : b ≤ c) (hc : c.toNat < 128) : b < 128 :=
  UInt8.lt_iff_toNat_lt.mpr (lt_of_le_of_lt (UInt8.le_iff_toNat_le.mp h) hc)

/-- The bytes of the header before the checksum is computed are characters. -/
theorem blankHeader_lt (hchars : ∀ c ∈ name, c ≤ 126) : ∀ b ∈ blankHeader name size, b < 128 := by
  have hzeros : ∀ {k : Nat}, ∀ b ∈ zeros k, b < 128 := fun b hb => by
    rw [List.eq_of_mem_replicate hb]
    decide
  have hoctal : ∀ b ∈ octal 1 size, b < 128 := fun b hb =>
    char_lt (isOctal_octal b hb).2 (by decide)
  have hname : ∀ b ∈ name, b < 128 := fun b hb => char_lt (hchars b hb) (by decide)
  unfold blankHeader headerStart headerEnd
  simp only [List.forall_mem_append]
  have hfields : ∀ b ∈ initialTarHeader.mode ++ initialTarHeader.owner ++ initialTarHeader.group ++
      initialTarHeader.mtime ++ List.replicate 8 32 ++ [initialTarHeader.type], b < 128 := by
    decide +kernel
  simp only [List.forall_mem_append] at hfields
  obtain ⟨⟨⟨⟨⟨hmode, howner⟩, hgroup⟩, hmtime⟩, hspaces⟩, htype⟩ := hfields
  exact ⟨⟨⟨⟨⟨⟨⟨⟨hname, hzeros⟩, hmode⟩, howner⟩, hgroup⟩, hoctal, hzeros⟩, hmtime⟩, hspaces⟩,
    ⟨htype, hzeros⟩, hzeros⟩

/-- The header with some strings in its fields. -/
def headerWith (name size checksum : List UInt8) : TarHeader :=
  { initialTarHeader with
    name := writeString (zeros 100) name
    size := writeString (zeros 12) size
    checksum := checksum }

/-- The bytes of this header. -/
theorem headerWith_bytes {checksum : List UInt8} (hname : name.length ≤ 99) (hsize : size < 2 ^ 32) :
    (headerWith name (octal 1 size) checksum).bytes = headerStart name size ++ checksum ++ headerEnd := by
  have hdigits := length_octal_size hsize
  have hwrite : writeString (zeros 100) name = name ++ zeros (100 - name.length) :=
    writeString_zeros (by omega)
  have hwrite' : writeString (zeros 12) (octal 1 size) =
      octal 1 size ++ zeros (12 - (octal 1 size).length) := writeString_zeros (by omega)
  simp only [TarHeader.bytes, headerWith, hwrite, hwrite', headerStart, headerEnd, List.append_assoc]

/-- The checksum of a header. -/
def headerSum (name : List UInt8) (size : Nat) : Nat := ((blankHeader name size).map UInt8.toNat).sum

/-- The checksum has at most six digits. -/
theorem headerSum_lt (hname : name.length ≤ 99) (hchars : ∀ c ∈ name, c ≤ 126) (hsize : size < 2 ^ 32) :
    headerSum name size < 8 ^ 6 := by
  have hle : headerSum name size ≤ ((blankHeader name size).map UInt8.toNat).length • 127 := by
    refine List.sum_le_card_nsmul _ _ fun x hx => ?_
    obtain ⟨b, hb, rfl⟩ := List.mem_map.mp hx
    exact Nat.le_of_lt_succ (UInt8.lt_iff_toNat_lt.mp (blankHeader_lt hchars b hb))
  have hlength : (blankHeader name size).length = 512 := by
    rw [blankHeader, List.length_append, List.length_append, length_headerStart hname hsize,
      List.length_replicate, length_headerEnd]
  rw [List.length_map, hlength] at hle
  exact lt_of_le_of_lt hle (by norm_num)

/-- What `compute_tar_header` returns. -/
theorem computeTarHeader_bytes (hname : name.length ≤ 99) (hchars : ∀ c ∈ name, c ≤ 126)
    (hsize : size < 2 ^ 32) :
    (computeTarHeader name size).bytes =
      headerStart name size ++ (octal 6 (headerSum name size) ++ [0, 32]) ++ headerEnd := by
  have hsum := headerSum_lt hname hchars hsize
  have hblank : (headerWith name (octal 1 size) (List.replicate 8 32)).bytes = blankHeader name size :=
    headerWith_bytes hname hsize
  have hchecksum : ((blankHeader name size).map charValue).sum % 2 ^ 32 = headerSum name size := by
    have hmap : (blankHeader name size).map charValue = (blankHeader name size).map UInt8.toNat :=
      List.map_congr_left fun b hb => if_pos (blankHeader_lt hchars b hb)
    rw [hmap]
    exact Nat.mod_eq_of_lt (lt_of_lt_of_le hsum (by norm_num))
  have hdrop : writeString (List.replicate 8 32) (octal 6 (headerSum name size)) =
      octal 6 (headerSum name size) ++ [0, 32] := by
    rw [writeString, length_octal_eq hsum]
    rfl
  have hcompute : computeTarHeader name size = headerWith name (octal 1 (size % 2 ^ 32))
      (writeString (List.replicate 8 32) (octal 6 (((headerWith name (octal 1 (size % 2 ^ 32))
        (List.replicate 8 32)).bytes.map charValue).sum % 2 ^ 32))) := rfl
  rw [hcompute, Nat.mod_eq_of_lt hsize, hblank, hchecksum, hdrop]
  exact headerWith_bytes hname hsize

/-- The number of zeros after a content. -/
def padding (length : Nat) : Nat := (TAR_BLOCK_SIZE - length % TAR_BLOCK_SIZE) % TAR_BLOCK_SIZE

/-- The entry of a file. -/
def entryOf (file : List UInt8 × List UInt8) : List UInt8 :=
  (computeTarHeader file.1 file.2.length).bytes ++ (file.2 ++ zeros (padding file.2.length))

/-- The header of a file, and its content, make an entry. -/
theorem entryOf_tarEntry (hname : name.length ≤ 99) (hchars : ∀ c ∈ name, c ≤ 126)
    (hsize : content.length < 2 ^ 32) : TarEntry (name, content) (entryOf (name, content)) := by
  have hdigits := length_octal_size hsize
  have hsum := headerSum_lt hname hchars hsize
  have hstart := length_headerStart hname hsize
  have hbytes := computeTarHeader_bytes hname hchars hsize
  have hchecksum : (octal 6 (headerSum name content.length) ++ [0, 32]).length = 8 := by
    rw [List.length_append, length_octal_eq hsum]
    rfl
  have hlength : (computeTarHeader name content.length).bytes.length = 512 := by
    rw [hbytes, List.length_append, List.length_append, hstart, hchecksum, length_headerEnd]
  have hentry : entryOf (name, content) = headerStart name content.length ++
      (octal 6 (headerSum name content.length) ++ [0, 32]) ++
      (headerEnd ++ (content ++ zeros (padding content.length))) := by
    rw [entryOf, hbytes, List.append_assoc]
  constructor
  · rw [hentry, headerStart]
    simp only [List.append_assoc]
    rw [← List.append_assoc]
    apply List.take_left'
    rw [List.length_append, length_zeros]
    omega
  · refine ⟨octal 1 content.length, isOctal_octal, octalValue_octal, hdigits, ?_⟩
    have hsplit : entryOf (name, content) = name ++ zeros (100 - name.length) ++
        initialTarHeader.mode ++ initialTarHeader.owner ++ initialTarHeader.group ++
        (octal 1 content.length ++ zeros (12 - (octal 1 content.length).length)) ++
        (initialTarHeader.mtime ++ (octal 6 (headerSum name content.length) ++ [0, 32]) ++
          (headerEnd ++ (content ++ zeros (padding content.length)))) := by
      rw [hentry, headerStart]
      simp only [List.append_assoc]
    rw [hsplit]
    apply take_drop_middle
    · simp only [List.length_append, length_zeros, initialTarHeader, List.length_cons, List.length_nil]
      omega
    · rw [List.length_append, length_zeros]
      omega
  · refine ⟨octal 6 (headerSum name content.length), isOctal_octal, ?_, ?_⟩
    · rw [octalValue_octal]
      have htake : (entryOf (name, content)).take 512 = (computeTarHeader name content.length).bytes :=
        List.take_left' hlength
      have hdrop : (headerStart name content.length ++ (octal 6 (headerSum name content.length) ++
          [0, 32]) ++ headerEnd).drop 156 = headerEnd :=
        List.drop_left' (by rw [List.length_append, hstart, hchecksum])
      have hfirst : (headerStart name content.length ++ (octal 6 (headerSum name content.length) ++
          [0, 32]) ++ headerEnd).take 148 = headerStart name content.length := by
        rw [List.append_assoc]
        exact List.take_left' hstart
      rw [htake, hbytes, tarChecksum, hdrop, hfirst]
      rfl
    · rw [hentry]
      exact take_drop_middle hstart hchecksum
  · refine ⟨padding content.length, Nat.mod_lt _ (by decide), List.drop_left' hlength, ?_⟩
    show TAR_BLOCK_SIZE ∣ content.length + padding content.length
    unfold padding TAR_BLOCK_SIZE
    omega
/-! ### `dumptoysfs` writes the entries -/

variable {io : BlockIo} {buffer : DiskBlock} {L : Layout} {block offset rounds : Nat}
  {rest : List UInt8}

/-- A file is copied by blocks of 512 bytes, and the last one is padded. -/
theorem dumpFileLoop_eq (h : Position io name block offset rest) (hr : io.readErrors = [])
    (hn : io.numBlocks ≤ n) (hlt : rest.length < 2 ^ 64) (hrounds : rest.length / 512 + 1 < rounds)
    (buffer : DiskBlock) :
    ∃ buffer', dumpFileLoop n rounds ⟨io, buffer⟩ block offset rest.length =
      some (⟨io, buffer'⟩, rest ++ zeros (padding rest.length)) := by
  induction rounds generalizing block offset rest buffer with
  | zero => omega
  | succ rounds ih =>
    rw [dumpFileLoop]
    by_cases hpos : rest.length > 0
    case neg =>
      obtain rfl : rest = [] := List.length_eq_zero_iff.mp (by omega)
      exact ⟨buffer, by simp [padding, TAR_BLOCK_SIZE, zeros]⟩
    obtain ⟨buffer', r, hread, hdata, hmissing, hposition⟩ :=
      @diskReadFile_position io buffer _ _ _ _ _ h hr hn TAR_BLOCK_SIZE
    rw [if_pos hpos, hread]
    simp only [hdata, hmissing]
    by_cases hfull : TAR_BLOCK_SIZE ≤ rest.length
    · -- a full block, and the rest of the file
      have hsub : U64.sub TAR_BLOCK_SIZE (TAR_BLOCK_SIZE - rest.length) = TAR_BLOCK_SIZE := by
        rw [Nat.sub_eq_zero_of_le hfull, U64.sub_eq (Nat.zero_le _) (by decide), Nat.sub_zero]
      have hremaining : U64.sub rest.length TAR_BLOCK_SIZE = (rest.drop TAR_BLOCK_SIZE).length := by
        rw [U64.sub_eq hfull hlt, List.length_drop]
      have hlength : (rest.drop TAR_BLOCK_SIZE).length = rest.length - TAR_BLOCK_SIZE :=
        List.length_drop
      have hpadding : padding (rest.drop TAR_BLOCK_SIZE).length = padding rest.length := by
        rw [hlength, padding, padding, ← Nat.mod_eq_sub_mod hfull]
      have hblock : TAR_BLOCK_SIZE = 512 := rfl
      obtain ⟨buffer'', heq⟩ := ih (hposition hfull) (by omega) (by omega) buffer'
      refine ⟨buffer'', ?_⟩
      rw [hsub, hremaining, heq, hpadding, Nat.sub_self]
      simp only [zeros, List.replicate_zero, List.append_nil, ← List.append_assoc,
        List.take_append_drop]
    · -- the last block
      have hsub : U64.sub TAR_BLOCK_SIZE (TAR_BLOCK_SIZE - rest.length) = rest.length := by
        rw [U64.sub_eq (Nat.sub_le _ _) (by decide)]
        omega
      have hremaining : U64.sub rest.length rest.length = 0 := by
        rw [U64.sub_eq le_rfl hlt, Nat.sub_self]
      have hpadding : padding rest.length = TAR_BLOCK_SIZE - rest.length := by
        rw [padding, Nat.mod_eq_of_lt (not_le.mp hfull)]
        exact Nat.mod_eq_of_lt (by omega)
      obtain ⟨rounds, rfl⟩ : ∃ k, rounds = k + 1 := ⟨rounds - 1, by omega⟩
      refine ⟨buffer', ?_⟩
      rw [hsub, hremaining, hpadding, List.take_of_length_le (by omega), dumpFileLoop, if_neg (by decide)]
      simp only [List.append_nil]

/-- The content of some blocks. -/
theorem chainContent_length_le {B : Nat → DiskBlock} {header : Nat} {blocks : List Nat} :
    (chainContent B header blocks).length ≤ 512 * blocks.length := by
  induction blocks generalizing header with
  | nil => exact Nat.zero_le _
  | cons b blocks ih =>
    have hused := usedSize_le (b := B b)
    have hrest := @ih 8
    rw [chainContent, List.length_append, blockContent_length, List.length_cons]
    omega

/-- A file is smaller than the image. -/
theorem fileContent_length_lt (h : Describes io L) {f : FileLayout} (hf : f ∈ L.files) :
    (fileContent io.blocks f).length < 512 * io.numBlocks := by
  have hle : (fileContent io.blocks f).length ≤ 512 * f.blocks.length := chainContent_length_le
  have hlt := h.blocks_length_lt hf
  omega

/-- The entries of the files are written in the order of the list. -/
theorem dumpToysFsLoop_eq (h : Describes io L) (hr : io.readErrors = []) (hn : io.numBlocks < n)
    (hnames : ∀ f ∈ L.files, f.name.length ≤ 99) {pre post : List FileLayout}
    (hfiles : L.files = pre ++ post) (hrounds : post.length < rounds) (buffer : DiskBlock) :
    dumpToysFsLoop n rounds ⟨io, buffer⟩ (firstAddress 0 (post.map fun f => (f.name, f.first))) =
      some (post.map fun f => entryOf (fileOf io f)).flatten := by
  induction post generalizing pre rounds buffer with
  | nil =>
    obtain ⟨rounds, rfl⟩ : ∃ k, rounds = k + 1 := ⟨rounds - 1, by omega⟩
    rfl
  | cons f post ih =>
    obtain ⟨rounds, rfl⟩ : ∃ k, rounds = k + 1 := ⟨rounds - 1, by omega⟩
    have hf : f ∈ L.files := hfiles ▸ List.mem_append_right _ List.mem_cons_self
    have hentries : L.entries = (pre.map fun f => (f.name, f.first)) ++ (f.name, f.first) ::
        post.map fun f => (f.name, f.first) := by
      rw [Layout.entries, hfiles, List.map_append, List.map_cons]
    have hmem : (f.name, f.first) ∈ L.entries := hentries ▸ List.mem_append_right _ List.mem_cons_self
    obtain ⟨hread, hlength, hname, -, hle⟩ := h.readEntry buffer hr hmem
    simp only at hread hlength hname hle
    have hnext : (io.blocks f.first).nextFile = firstAddress 0 (post.map fun f => (f.name, f.first)) :=
      h.nextFile_eq hentries
    have hchars : f.name.takeWhile (· ≠ 0) = f.name := by
      rw [List.takeWhile_eq_self_iff]
      intro c hc
      have hge := (h.files_ok f hf).name_chars c hc
      exact decide_eq_true fun hzero => absurd hge.1 (by rw [hzero]; decide)
    have hlt := fileContent_length_lt h hf
    have hsize := io.size_le
    have hbytes : (fileContent io.blocks f).length / 512 < io.numBlocks := Nat.div_lt_of_lt_mul hlt
    obtain ⟨buffer₁, hfilesize⟩ := @diskGetFileSize_refines io (io.blocks f.first) _ _ _ _ _
      ⟨L, h, rfl⟩ hr ⟨L, h, f, hf, rfl, rfl⟩ (lookup_imageFiles h.namesNodup hf) hn.le
    have hposition : Position io f.name f.first (24 + f.name.length) (fileContent io.blocks f) :=
      ⟨L, h, f, hf, rfl, Cursor.start h hf⟩
    have hrounds' : (fileContent io.blocks f).length / 512 + 1 < n := by omega
    obtain ⟨buffer₂, hcopy⟩ := dumpFileLoop_eq hposition hr hn.le (by omega) hrounds' buffer₁
    have hfiles' : L.files = (pre ++ [f]) ++ post := by rw [hfiles, List.append_assoc]; rfl
    have hrest := ih hfiles' (Nat.lt_of_succ_lt_succ hrounds) buffer₂
    have hne : f.first ≠ 0 := Nat.ne_of_gt (h.first_lt hf).1
    have hmod : f.name.length % 2 ^ 32 = f.name.length := Nat.mod_eq_of_lt (by omega)
    rw [List.map_cons, firstAddress, dumpToysFsLoop, if_pos hne]
    simp only [hread, hlength, hmod, hname, hchars, hnext, hfilesize, hcopy, hrest,
      if_neg (not_lt.mpr (hnames f hf))]
    rw [List.map_cons, List.flatten_cons, entryOf]
    simp only [fileOf, List.append_assoc]

/-- The archive of an image. -/
theorem dumpToysFs_eq (h : Describes io L) (hr : io.readErrors = []) (hn : io.numBlocks < n)
    (hnames : ∀ f ∈ L.files, f.name.length ≤ 99) (buffer : DiskBlock) :
    dumpToysFs n io buffer =
      some ((L.files.map fun f => entryOf (fileOf io f)).flatten ++ zeros (2 * TAR_BLOCK_SIZE)) := by
  have hsuper : diskReadBlockBuffer ⟨io, buffer⟩ SUPER_BLOCK = ⟨io, io.blocks SUPER_BLOCK⟩ :=
    diskReadBlockBuffer_eq hr h.super_lt
  have hfirst : (io.blocks SUPER_BLOCK).nextFile = firstAddress 0 L.entries := h.firstFile_eq
  have hlength := h.files_length_lt
  have hfiles : L.files = [] ++ L.files := rfl
  have hrounds : L.files.length < n := by omega
  have hloop := dumpToysFsLoop_eq h hr hn hnames hfiles hrounds (io.blocks SUPER_BLOCK)
  rw [dumpToysFs, hsuper]
  simp only [hfirst]
  rw [show L.entries = L.files.map fun f => (f.name, f.first) from rfl, hloop]
/-! ### The image of some files -/

variable {disk : Disk} {inputs : List InputFile}

/-- The order of the names. -/
theorem compareNames_smaller {x y : List UInt8} (h : compareNames x y = .smaller) : x < y := by
  induction x generalizing y with
  | nil =>
    cases y with
    | nil => cases h
    | cons c y => exact List.nil_lt_cons c y
  | cons c x ih =>
    cases y with
    | nil => cases h
    | cons d y =>
      rw [compareNames] at h
      rw [List.cons_lt_cons_iff]
      split_ifs at h with hlt hgt
      · exact Or.inl hlt
      · exact Or.inr ⟨UInt8.le_antisymm (UInt8.not_lt.mp hgt) (UInt8.not_lt.mp hlt), ih h⟩
/-- When `maketoysfs` succeeds, `dumptoysfs` ends and writes one entry for each input file, in the
    order of their names, and two blocks of zeros. -/
theorem dumpToysFs_makeToysFs (hmake : makeToysFs n inputs = some (disk, .ok))
    (hnames : ∀ input ∈ inputs, (storedName input.name).length ≤ 99) :
    ∃ files entries, files.Perm (inputs.map fun input => (storedName input.name, input.content)) ∧
      files.Pairwise (fun x y => x.1 < y.1) ∧ List.Forall₂ TarEntry files entries ∧
      ∀ m > NUM_BLOCKS, ∀ buffer, dumpToysFs m disk.io buffer =
        some (entries.flatten ++ zeros (2 * TAR_BLOCK_SIZE)) := by
  have hstores := makeToysFsLoop_stores diskFormat_stores hmake
  rw [List.append_nil] at hstores
  obtain ⟨L, hL, hperm⟩ := hstores.perm
  have hperm := hperm.trans (List.reverse_perm _)
  have hlengths : ∀ f ∈ L.files, f.name.length ≤ 99 := by
    intro f hf
    have hmem := hperm.subset (List.mem_map_of_mem (f := fileOf disk.io) hf)
    obtain ⟨input, hinput, heq⟩ := List.mem_map.mp hmem
    have hname : storedName input.name = f.name := congrArg Prod.fst heq
    rw [← hname]
    exact hnames input hinput
  refine ⟨L.files.map (fileOf disk.io), L.files.map fun f => entryOf (fileOf disk.io f), hperm, ?_, ?_,
    fun m hm buffer => ?_⟩
  · exact List.pairwise_map.mpr (hL.sorted.imp compareNames_smaller)
  · rw [List.forall₂_map_left_iff, List.forall₂_map_right_iff, List.forall₂_same]
    intro f hf
    have hlt := fileContent_length_lt hL hf
    rw [hstores.numBlocks] at hlt
    exact entryOf_tarEntry (hlengths f hf) (fun c hc => ((hL.files_ok f hf).name_chars c hc).2)
      (hlt.trans (by decide))
  · apply dumpToysFs_eq hL hstores.readErrors
    · rw [hstores.numBlocks]
      exact hm
    · exact hlengths
/-- The archive has the entries of "a", "bin/toys" and "src/LICENSE". -/
theorem dumpToysFs_threeInputs : ∃ disk entries, makeToysFs 5 threeInputs = some (disk, .ok) ∧
    List.Forall₂ TarEntry [([97], List.replicate 1024 8), (binToys, List.replicate 600 7),
      (srcLicense, [71, 80, 76])] entries ∧
    ∀ m > NUM_BLOCKS, ∀ buffer, dumpToysFs m disk.io buffer =
      some (entries.flatten ++ zeros (2 * TAR_BLOCK_SIZE)) := by
  obtain ⟨disk, hmake⟩ := makeToysFs_threeInputs
  obtain ⟨files, entries, hperm, hsorted, htar, hdump⟩ := dumpToysFs_makeToysFs hmake (by decide)
  have hfiles : files = [([97], List.replicate 1024 8), (binToys, List.replicate 600 7),
      (srcLicense, [71, 80, 76])] := by
    refine List.Perm.eq_of_pairwise (fun x y _ _ hxy hyx => absurd hyx (List.lt_asymm hxy)) hsorted ?_
      (hperm.trans ?_)
    · decide +kernel
    · decide +kernel
  rw [hfiles] at htar
  exact ⟨disk, entries, hmake, htar, hdump⟩
end Toys.Tools
