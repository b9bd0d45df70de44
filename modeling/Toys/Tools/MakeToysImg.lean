import Mathlib
import Toys.Lib.ByteMemory
import Toys.Tools.MakeFatFs

namespace Toys.Tools

open Toys.Lib

/-!
# Tools — the disk image

`maketoysimg` writes the image of a disk with a GUID partition table, whose unique partition is the
input.

* `maketoysimg` — the image, if the size of the input is accepted;
* `WrittenAt` — the sector where a part of the image is written;
* `Image.Consistent` — the sectors that the headers declare are those where the parts are written;
* `maketoysimg_iff` — the image is consistent if and only if the input has at least 1981 sectors, and
  the number of sectors of the image fits in an `int`.
-/

/-! ### The structures -/

/-- `guid_t`. -/
abbrev Guid := Vector UInt8 16

/-- `master_boot_record_t`, without the fields that are 0. -/
structure MasterBootRecord where
  startingChs : Nat
  endingChsAndOsType : Nat
  startingLba : Nat
  sizeInLba : Nat
  signature : Nat

/-- `partition_table_header_t`, without the fields that are 0. -/
structure PartitionTableHeader where
  signature : List UInt8
  revision : Nat
  headerSize : Nat
  headerCrc32 : Nat
  myLba : Nat
  alternateLba : Nat
  firstUsableLba : Nat
  lastUsableLba : Nat
  diskGuid : Guid
  partitionEntryLba : Nat
  numberOfPartitionEntries : Nat
  sizeOfPartitionEntry : Nat
  partitionEntryArrayCrc32 : Nat

/-- `partition_entry_t`, without the fields that are 0. -/
structure PartitionEntry where
  partitionTypeGuid : Guid
  partitionGuid : Guid
  startingLba : Nat
  endingLba : Nat
  name : List UInt8

/-- `n` bytes that are 0. -/
def zeros (n : Nat) : List UInt8 := List.replicate n 0

/-- The bytes of the record. -/
def MasterBootRecord.bytes (r : MasterBootRecord) : List UInt8 :=
  zeros 446 ++ littleEndian 4 r.startingChs ++ littleEndian 4 r.endingChsAndOsType ++
    littleEndian 4 r.startingLba ++ littleEndian 4 r.sizeInLba ++ zeros 48 ++
    littleEndian 2 r.signature

/-- The bytes of the header, without the reserved ones at its end. -/
def PartitionTableHeader.headerBytes (h : PartitionTableHeader) : List UInt8 :=
  h.signature ++ littleEndian 4 h.revision ++ littleEndian 4 h.headerSize ++
    littleEndian 4 h.headerCrc32 ++ zeros 4 ++ littleEndian 8 h.myLba ++
    littleEndian 8 h.alternateLba ++ littleEndian 8 h.firstUsableLba ++
    littleEndian 8 h.lastUsableLba ++ h.diskGuid.toList ++ littleEndian 8 h.partitionEntryLba ++
    littleEndian 4 h.numberOfPartitionEntries ++ littleEndian 4 h.sizeOfPartitionEntry ++
    littleEndian 4 h.partitionEntryArrayCrc32

/-- The bytes of the header, up to the end of its sector. -/
def PartitionTableHeader.bytes (h : PartitionTableHeader) : List UInt8 := h.headerBytes ++ zeros 420

/-- The bytes of the entry. -/
def PartitionEntry.bytes (e : PartitionEntry) : List UInt8 :=
  e.partitionTypeGuid.toList ++ e.partitionGuid.toList ++ littleEndian 8 e.startingLba ++
    littleEndian 8 e.endingLba ++ zeros 8 ++ e.name ++ zeros (72 - e.name.length)

/-- `sizeof(partition_entry_t)`, and the number of entries of `partition_entries_t`. -/
def SIZEOF_PARTITION_ENTRY : Nat := 128

/-- The number of entries of the table. -/
def NUM_PARTITION_ENTRIES : Nat := 128

/-- `partition_entries_t`, with one entry that is not 0. -/
def entriesBytes (e : PartitionEntry) : List UInt8 :=
  e.bytes ++ zeros ((NUM_PARTITION_ENTRIES - 1) * SIZEOF_PARTITION_ENTRY)

/-! ### The program -/

/-- The type of the partition. -/
def EFI_SYSTEM_GUID : Guid :=
  #v[0x28, 0x73, 0x2A, 0xC1, 0x1F, 0xF8, 0xD2, 0x11, 0xBA, 0x4B, 0x00, 0xA0, 0xC9, 0x3E, 0xC9, 0x3B]

/-- One iteration of the inner loop of `crc32`. -/
def crc32Bit (crc : UInt32) : UInt32 :=
  let mask := 0 - (crc &&& 1)
  (crc >>> 1) ^^^ (0xEDB88320 &&& mask)

/-- `crc32`. -/
def crc32 (data : List UInt8) : UInt32 :=
  ~~~ data.foldl (fun crc byte => crc32Bit^[8] (crc ^^^ byte.toUInt32)) 0xFFFFFFFF

/-- A number as an `int` of 32 bits, which wraps. -/
def int (x : Int) : Int := Int.bmod x (2 ^ 32)

/-- An `int` as an argument of `to_u32` and of `to_u64`. -/
def toU32 (x : Int) : Nat := (x % 2 ^ 32).toNat

/-- The conversion to `uint64_t`. -/
def toU64 (x : Int) : Nat := (x % 2 ^ 64).toNat

/-- What is written by a call of `fwrite`. -/
inductive Part where
  | mbr
  | header
  | entries
  | input (j : Nat)
  | alternateEntries
  | alternateHeader
  deriving Repr, DecidableEq

/-- The image: its structures, and the bytes that are written, in order. -/
structure Image where
  mbr : MasterBootRecord
  header : PartitionTableHeader
  alternateHeader : PartitionTableHeader
  entry : PartitionEntry
  writes : List (Part × List UInt8)

/-- The loop of `main` that copies the input. -/
def inputWrites (input : List UInt8) (numSectors : Int) : List (Part × List UInt8) :=
  (List.range numSectors.toNat).map fun j =>
    (.input j, (input.drop (j * SECTOR_SIZE)).take SECTOR_SIZE)

/-- What `main` writes, for the bytes of the input, their number of sectors, and two results of
    `random_guid`. -/
def imageOf (input : List UInt8) (numPartitionSectors : Int) (diskGuid partitionGuid : Guid) :
    Image :=
  let numTableEntrySectors : Int := 32
  let numImageSectors := int (3 + 2 * numTableEntrySectors + numPartitionSectors)
  let numImageSectors := if numImageSectors < 2048 then 2048 else numImageSectors
  let headerSize := 96
  let numPartitions := 1
  let firstUsableLba := int (2 + numTableEntrySectors)
  let lastUsableLba := int (firstUsableLba + numPartitionSectors - 1)
  let mbr := {
    startingChs := 0x20000
    endingChsAndOsType := 0xFFFFFFEE
    startingLba := 1
    sizeInLba := toU32 (int (numImageSectors - 1))
    signature := 0xAA55 }
  let header : PartitionTableHeader := {
    -- the characters "EFI PART"
    signature := [0x45, 0x46, 0x49, 0x20, 0x50, 0x41, 0x52, 0x54]
    revision := 0x00010000
    headerSize := headerSize
    headerCrc32 := 0
    myLba := 1
    alternateLba := toU64 (int (numImageSectors - 1))
    firstUsableLba := toU64 firstUsableLba
    lastUsableLba := toU64 lastUsableLba
    diskGuid := diskGuid
    partitionEntryLba := 2
    numberOfPartitionEntries := numPartitions
    sizeOfPartitionEntry := SIZEOF_PARTITION_ENTRY
    partitionEntryArrayCrc32 := 0 }
  let entry := {
    partitionTypeGuid := EFI_SYSTEM_GUID
    partitionGuid := partitionGuid
    startingLba := toU64 firstUsableLba
    endingLba := toU64 lastUsableLba
    -- the characters "uefi"
    name := [0x75, 0, 0x65, 0, 0x66, 0, 0x69, 0] }
  let alternateHeader := { header with
    myLba := header.alternateLba
    alternateLba := header.myLba
    partitionEntryLba := toU64 (int (lastUsableLba + 1)) }
  let entriesCrc32 := (crc32 ((entriesBytes entry).take
    (numPartitions * SIZEOF_PARTITION_ENTRY))).toNat
  let header := { header with partitionEntryArrayCrc32 := entriesCrc32 }
  let header := { header with headerCrc32 := (crc32 (header.bytes.take headerSize)).toNat }
  let alternateHeader := { alternateHeader with partitionEntryArrayCrc32 := entriesCrc32 }
  let alternateHeader := { alternateHeader with
    headerCrc32 := (crc32 (alternateHeader.bytes.take headerSize)).toNat }
  {
    mbr := mbr
    header := header
    alternateHeader := alternateHeader
    entry := entry
    writes := [(.mbr, mbr.bytes), (.header, header.bytes), (.entries, entriesBytes entry)] ++
      inputWrites input numPartitionSectors ++
      [(.alternateEntries, entriesBytes entry), (.alternateHeader, alternateHeader.bytes)] }

/-- `main`. -/
def maketoysimg (input : List UInt8) (diskGuid partitionGuid : Guid) : Option Image :=
  let inputSize := input.length
  if inputSize % SECTOR_SIZE ≠ 0 then none
  else some (imageOf input (int (inputSize / SECTOR_SIZE : Nat)) diskGuid partitionGuid)

/-! ### Reading the image -/

/-- The number of bytes of some parts. -/
def bytesOf (writes : List (Part × List UInt8)) : Nat := (writes.map fun w => w.2.length).sum

/-- A part with some bytes is written from the start of a sector. -/
def WrittenAt (writes : List (Part × List UInt8)) (part : Part) (bytes : List UInt8) (sector : Nat) :
    Prop :=
  ∃ before after, writes = before ++ (part, bytes) :: after ∧ bytesOf before = sector * SECTOR_SIZE

/-- What the headers declare is where it is written. -/
structure Image.Consistent (image : Image) (input : List UInt8) : Prop where
  header : WrittenAt image.writes .header image.header.bytes 1 ∧ image.header.myLba = 1 ∧
    image.alternateHeader.alternateLba = 1
  alternateHeader : ∃ sector,
    WrittenAt image.writes .alternateHeader image.alternateHeader.bytes sector ∧
    image.alternateHeader.myLba = sector ∧ image.header.alternateLba = sector
  entries : ∀ h ∈ [image.header, image.alternateHeader], ∃ part ∈ [Part.entries, .alternateEntries],
    WrittenAt image.writes part (entriesBytes image.entry) h.partitionEntryLba
  input : ∀ j < input.length / SECTOR_SIZE, WrittenAt image.writes (.input j)
    ((input.drop (j * SECTOR_SIZE)).take SECTOR_SIZE) (image.entry.startingLba + j)
  partition : ∀ sector, (image.entry.startingLba ≤ sector ∧ sector ≤ image.entry.endingLba) ↔
    ∃ j bytes, WrittenAt image.writes (.input j) bytes sector
  size : bytesOf image.writes = (image.mbr.sizeInLba + 1) * SECTOR_SIZE

variable {input : List UInt8} {diskGuid partitionGuid : Guid} {image : Image}
variable {writes l before after : List (Part × List UInt8)} {part : Part} {bytes bytes' : List UInt8}
variable {sector j n : Nat}

/-! ### The sizes of the parts -/

@[simp] theorem zeros_length (n : Nat) : (zeros n).length = n := List.length_replicate

/-- The master boot record fills a sector. -/
theorem MasterBootRecord.bytes_length (r : MasterBootRecord) : r.bytes.length = SECTOR_SIZE := by
  simp [MasterBootRecord.bytes, SECTOR_SIZE]

/-- A header fills a sector. -/
theorem PartitionTableHeader.bytes_length {h : PartitionTableHeader} (hsig : h.signature.length = 8) :
    h.bytes.length = SECTOR_SIZE := by
  simp [PartitionTableHeader.bytes, headerBytes, SECTOR_SIZE, hsig]

/-- The entries fill 32 sectors. -/
theorem entriesBytes_length {e : PartitionEntry} (hname : e.name.length ≤ 72) :
    (entriesBytes e).length = 32 * SECTOR_SIZE := by
  simp only [entriesBytes, PartitionEntry.bytes, List.length_append, littleEndian_length,
    zeros_length, Vector.length_toList, SECTOR_SIZE, NUM_PARTITION_ENTRIES, SIZEOF_PARTITION_ENTRY]
  omega

@[simp] theorem bytesOf_nil : bytesOf [] = 0 := rfl

@[simp] theorem bytesOf_cons (w : Part × List UInt8) :
    bytesOf (w :: writes) = w.2.length + bytesOf writes := rfl

@[simp] theorem bytesOf_append : bytesOf (before ++ after) = bytesOf before + bytesOf after := by
  simp [bytesOf]

/-- The write of a sector of the input. -/
def inputWrite (input : List UInt8) (j : Nat) : Part × List UInt8 :=
  (.input j, (input.drop (j * SECTOR_SIZE)).take SECTOR_SIZE)

/-- The writes of the input, one for each sector. -/
theorem inputWrites_eq (numSectors : Int) :
    inputWrites input numSectors = (List.range numSectors.toNat).map (inputWrite input) := rfl

/-- Each write of the input has the size of a sector. -/
theorem bytesOf_inputWrite {js : List Nat} (hn : ∀ j ∈ js, (j + 1) * SECTOR_SIZE ≤ input.length) :
    bytesOf (js.map (inputWrite input)) = js.length * SECTOR_SIZE := by
  induction js with
  | nil => rfl
  | cons j js ih =>
    have hj := hn j List.mem_cons_self
    rw [List.map_cons, bytesOf_cons, ih fun i hi => hn i (List.mem_cons_of_mem j hi),
      List.length_cons]
    simp only [inputWrite, List.length_take, List.length_drop, SECTOR_SIZE] at hj ⊢
    omega

/-! ### The parts are written once -/

/-- What comes before a part that is written once. -/
theorem before_unique {before' after' : List (Part × List UInt8)}
    (hnodup : ((before ++ (part, bytes) :: after).map Prod.fst).Nodup)
    (heq : before ++ (part, bytes) :: after = before' ++ (part, bytes') :: after') :
    before' = before ∧ bytes' = bytes := by
  induction before generalizing before' with
  | nil =>
    cases before' with
    | nil =>
      simp only [List.nil_append, List.cons.injEq, Prod.mk.injEq] at heq
      exact ⟨rfl, heq.1.2.symm⟩
    | cons w before' =>
      -- the part would be written again
      simp only [List.nil_append, List.cons_append, List.cons.injEq] at heq
      rw [heq.2] at hnodup
      simp at hnodup
  | cons w before ih =>
    cases before' with
    | nil =>
      simp only [List.nil_append, List.cons_append, List.cons.injEq] at heq
      rw [heq.1] at hnodup
      simp at hnodup
    | cons w' before' =>
      simp only [List.cons_append, List.cons.injEq] at heq
      rw [List.cons_append, List.map_cons] at hnodup
      rcases ih hnodup.of_cons heq.2 with ⟨rfl, rfl⟩
      exact ⟨by rw [heq.1], rfl⟩

/-- A part that is written once is written after the parts before it. -/
theorem writtenAt_iff (hnodup : (writes.map Prod.fst).Nodup)
    (heq : writes = l ++ (part, bytes) :: after) :
    WrittenAt writes part bytes' sector ↔ bytes' = bytes ∧ bytesOf l = sector * SECTOR_SIZE := by
  subst heq
  constructor
  · rintro ⟨before', after', heq, hbefore⟩
    rcases before_unique hnodup heq with ⟨rfl, rfl⟩
    exact ⟨rfl, hbefore⟩
  · rintro ⟨rfl, hbefore⟩
    exact ⟨l, after, rfl, hbefore⟩

/-! ### The layout of the image -/

/-- The number of sectors of the image, as it is declared. -/
def declaredSectors (numPartitionSectors : Int) : Int :=
  let n := int (3 + 2 * 32 + numPartitionSectors)
  if n < 2048 then 2048 else n

/-- The fields of the image, and its parts, for a number of sectors of the input. -/
structure Image.Layout (image : Image) (input : List UInt8) (n : Int) : Prop where
  myLba : image.header.myLba = 1
  alternateLba : image.header.alternateLba = toU64 (int (declaredSectors n - 1))
  partitionEntryLba : image.header.partitionEntryLba = 2
  alternateMyLba : image.alternateHeader.myLba = toU64 (int (declaredSectors n - 1))
  alternateAlternateLba : image.alternateHeader.alternateLba = 1
  alternatePartitionEntryLba :
    image.alternateHeader.partitionEntryLba = toU64 (int (int (int (2 + 32) + n - 1) + 1))
  startingLba : image.entry.startingLba = 34
  endingLba : image.entry.endingLba = toU64 (int (int (2 + 32) + n - 1))
  sizeInLba : image.mbr.sizeInLba = toU32 (int (declaredSectors n - 1))
  signature : image.header.signature.length = 8
  alternateSignature : image.alternateHeader.signature.length = 8
  name : image.entry.name.length ≤ 72
  writes : image.writes = (.mbr, image.mbr.bytes) :: (.header, image.header.bytes) ::
    (.entries, entriesBytes image.entry) :: (inputWrites input n ++
    [(.alternateEntries, entriesBytes image.entry),
      (.alternateHeader, image.alternateHeader.bytes)])

/-- The image has the layout that is claimed of it. -/
theorem imageOf_layout (input : List UInt8) (n : Int) (diskGuid partitionGuid : Guid) :
    (imageOf input n diskGuid partitionGuid).Layout input n where
  myLba := rfl
  alternateLba := by
    simp only [imageOf, declaredSectors]
  partitionEntryLba := rfl
  alternateMyLba := by
    simp only [imageOf, declaredSectors]
  alternateAlternateLba := rfl
  alternatePartitionEntryLba := by
    simp only [imageOf]
  startingLba := show toU64 (int (2 + 32)) = 34 by decide
  endingLba := by
    simp only [imageOf]
  sizeInLba := by
    simp only [imageOf, declaredSectors]
  signature := rfl
  alternateSignature := rfl
  name := show 8 ≤ 72 by decide
  writes := by
    simp only [imageOf, List.cons_append, List.nil_append]

/-- Any image that is made has this layout. -/
theorem maketoysimg_layout (h : maketoysimg input diskGuid partitionGuid = some image) :
    input.length % SECTOR_SIZE = 0 ∧
      image.Layout input (int (input.length / SECTOR_SIZE : Nat)) := by
  unfold maketoysimg at h
  simp only at h
  split_ifs at h with hsize
  · cases h
    exact ⟨not_not.mp hsize, imageOf_layout _ _ _ _⟩

/-! ### The sectors of the parts -/

section
variable {k : Int} (h : image.Layout input k) (hk : k.toNat * SECTOR_SIZE ≤ input.length)
include h

/-- Each part is written once. -/
theorem Image.Layout.nodup : (image.writes.map Prod.fst).Nodup := by
  have hinputs : (inputWrites input k).map Prod.fst = (List.range k.toNat).map Part.input := by
    rw [inputWrites_eq, List.map_map]
    rfl
  have hinj : ((List.range k.toNat).map Part.input).Nodup :=
    List.nodup_range.map fun _ _ => Part.input.inj
  rw [h.writes]
  simp only [List.map_cons, List.map_append, hinputs, List.map_nil]
  simp [List.nodup_append, hinj]

/-- The header is in the sector 1. -/
theorem Image.Layout.header_iff :
    WrittenAt image.writes .header image.header.bytes sector ↔ sector = 1 := by
  rw [writtenAt_iff (l := [(.mbr, image.mbr.bytes)]) h.nodup h.writes]
  simp only [bytesOf_cons, bytesOf_nil, MasterBootRecord.bytes_length, SECTOR_SIZE, true_and]
  omega

/-- The entries start at the sector 2. -/
theorem Image.Layout.entries_iff :
    WrittenAt image.writes .entries (entriesBytes image.entry) sector ↔ sector = 2 := by
  rw [writtenAt_iff (l := [(.mbr, image.mbr.bytes), (.header, image.header.bytes)]) h.nodup
    h.writes]
  simp only [bytesOf_cons, bytesOf_nil, MasterBootRecord.bytes_length,
    PartitionTableHeader.bytes_length h.signature, SECTOR_SIZE, true_and]
  omega

/-- The parts before the input. -/
def Image.head (image : Image) : List (Part × List UInt8) :=
  [(.mbr, image.mbr.bytes), (.header, image.header.bytes), (.entries, entriesBytes image.entry)]

/-- The writes, in three parts. -/
theorem Image.Layout.writes_eq : image.writes = image.head ++ (inputWrites input k ++
    [(.alternateEntries, entriesBytes image.entry),
      (.alternateHeader, image.alternateHeader.bytes)]) := h.writes

/-- The size of what is before the input. -/
theorem Image.Layout.bytesOf_head : bytesOf image.head = 34 * SECTOR_SIZE := by
  simp only [Image.head, bytesOf_cons, bytesOf_nil, MasterBootRecord.bytes_length,
    PartitionTableHeader.bytes_length h.signature, entriesBytes_length h.name]
  rfl

omit h in
include hk in

/-- The size of some sectors of the input. -/
theorem bytesOf_inputs {js : List Nat} (hjs : ∀ j ∈ js, j < k.toNat) :
    bytesOf (js.map (inputWrite input)) = js.length * SECTOR_SIZE := by
  apply bytesOf_inputWrite
  intro j hj
  exact (Nat.mul_le_mul_right SECTOR_SIZE (hjs j hj)).trans hk

include hk

omit h in

/-- The size of the input. -/
theorem bytesOf_inputWrites :
    bytesOf (inputWrites input k) = k.toNat * SECTOR_SIZE := by
  rw [inputWrites_eq, bytesOf_inputs hk fun j hj => List.mem_range.mp hj, List.length_range]

/-- The alternate entries follow the input. -/
theorem Image.Layout.alternateEntries_iff :
    WrittenAt image.writes .alternateEntries (entriesBytes image.entry) sector ↔
      sector = 34 + k.toNat := by
  rw [writtenAt_iff (l := image.head ++ inputWrites input k) h.nodup
    (by rw [h.writes_eq, List.append_assoc]), bytesOf_append, h.bytesOf_head,
    bytesOf_inputWrites hk, ← Nat.add_mul]
  simp only [SECTOR_SIZE, true_and]
  omega

/-- The alternate header is in the last sector that is written. -/
theorem Image.Layout.alternateHeader_iff :
    WrittenAt image.writes .alternateHeader image.alternateHeader.bytes sector ↔
      sector = 66 + k.toNat := by
  have hwrites : image.writes = (image.head ++ (inputWrites input k ++
      [(.alternateEntries, entriesBytes image.entry)])) ++
        (.alternateHeader, image.alternateHeader.bytes) :: [] := by
    rw [h.writes_eq]
    simp
  rw [writtenAt_iff h.nodup hwrites, bytesOf_append, h.bytesOf_head, bytesOf_append,
    bytesOf_inputWrites hk, bytesOf_cons, entriesBytes_length h.name, bytesOf_nil, Nat.add_zero,
    ← Nat.add_mul, ← Nat.add_mul]
  simp only [SECTOR_SIZE, true_and]
  omega

/-- The size of the image. -/
theorem Image.Layout.bytesOf_writes : bytesOf image.writes = (67 + k.toNat) * SECTOR_SIZE := by
  rw [h.writes_eq, bytesOf_append, bytesOf_append, h.bytesOf_head, bytesOf_inputWrites hk,
    bytesOf_cons, bytesOf_cons, bytesOf_nil, entriesBytes_length h.name,
    PartitionTableHeader.bytes_length h.alternateSignature]
  simp only [SECTOR_SIZE]
  omega

/-- The sectors of the input start at the sector 34. -/
theorem Image.Layout.input_iff : WrittenAt image.writes (.input j) bytes sector ↔
    j < k.toNat ∧ bytes = (inputWrite input j).2 ∧ sector = 34 + j := by
  by_cases hj : j < k.toNat
  · have hrange : ∃ rest, List.range k.toNat = List.range j ++ j :: rest := by
      have hlt : j < (List.range k.toNat).length := by rwa [List.length_range]
      have hdrop := List.drop_eq_getElem_cons hlt
      have htake : (List.range k.toNat).take j = List.range j := by
        rw [List.take_range, Nat.min_eq_left hj.le]
      refine ⟨(List.range k.toNat).drop (j + 1), ?_⟩
      rw [List.getElem_range] at hdrop
      rw [← htake, ← hdrop, List.take_append_drop]
    rcases hrange with ⟨rest, hrange⟩
    have hwrites : image.writes = (image.head ++ (List.range j).map (inputWrite input)) ++
        (.input j, (inputWrite input j).2) :: (rest.map (inputWrite input) ++
          [(.alternateEntries, entriesBytes image.entry),
            (.alternateHeader, image.alternateHeader.bytes)]) := by
      rw [h.writes_eq, inputWrites_eq, hrange]
      simp [inputWrite]
    have hjs : ∀ i ∈ List.range j, i < k.toNat := fun i hi => (List.mem_range.mp hi).trans hj
    rw [writtenAt_iff h.nodup hwrites, bytesOf_append, h.bytesOf_head, bytesOf_inputs hk hjs,
      List.length_range, ← Nat.add_mul]
    simp only [SECTOR_SIZE, Nat.mul_left_inj (show (512 : Nat) ≠ 0 by decide), hj, true_and,
      eq_comm]
  · -- the part is not written
    refine ⟨?_, fun hwritten => absurd hwritten.1 hj⟩
    rintro ⟨before, after, heq, _⟩
    have hmem : Part.input j ∈ image.writes.map Prod.fst := by
      rw [heq]
      simp
    rw [h.writes_eq, inputWrites_eq] at hmem
    simp [Image.head, inputWrite] at hmem
    omega

end

/-! ### The consistency of the image -/

/-- How an `int` wraps. -/
theorem int_def (x : Int) : int x = if x % 4294967296 < 2147483648 then x % 4294967296
    else x % 4294967296 - 4294967296 := by
  rw [int, Int.bmod_def]
  norm_num

/-- A small number is an `int`. -/
theorem int_eq {x : Int} (h : 0 ≤ x) (h' : x < 2 ^ 31) : int x = x := by
  rw [int_def]
  split_ifs
  all_goals omega

/-- The conversion to `int` does not increase a number. -/
theorem int_le (n : Nat) : int n ≤ n ∧ int n < 2 ^ 31 := by
  rw [int_def]
  split_ifs
  all_goals omega

/-- The conversion of a small number to 64 bits. -/
theorem toU64_eq {x : Int} (h : 0 ≤ x) (h' : x < 2 ^ 31) : toU64 x = x.toNat := by
  unfold toU64
  omega

theorem toU32_eq {x : Int} (h : 0 ≤ x) (h' : x < 2 ^ 31) : toU32 x = x.toNat := by
  unfold toU32
  omega

/-- The number of sectors that is declared is the actual one. -/
theorem declaredSectors_eq {n : Int} (h : 1981 ≤ n) (h' : n + 67 < 2 ^ 31) :
    declaredSectors n = n + 67 := by
  simp only [declaredSectors]
  rw [int_eq (by omega) (by omega), if_neg (by omega)]
  omega

/-- What the headers declare is right if the numbers of sectors are numbers of an `int`. -/
theorem Image.Layout.consistent (h : image.Layout input n) (hn : input.length / SECTOR_SIZE = n)
    (hmin : 1981 ≤ n) (hmax : n + 67 < 2 ^ 31) : image.Consistent input := by
  have hk : (n : Int).toNat * SECTOR_SIZE ≤ input.length := by
    rw [Int.toNat_natCast, ← hn]
    exact Nat.div_mul_le_self _ _
  have hdeclared := declaredSectors_eq (n := n) (by omega) (by omega)
  -- the numbers of sectors do not wrap
  have hsectors : int (declaredSectors n - 1) = n + 66 := by
    rw [hdeclared, int_eq (by omega) (by omega)]
    omega
  have hfirst : int (2 + 32) = 34 := by decide
  have hlast : int (int (2 + 32) + n - 1) = n + 33 := by
    rw [hfirst, int_eq (by omega) (by omega)]
    omega
  have hend : int (int (int (2 + 32) + n - 1) + 1) = n + 34 := by
    rw [hlast, int_eq (by omega) (by omega)]
    omega
  have hending : image.entry.endingLba = n + 33 := by
    rw [h.endingLba, hlast, toU64_eq (by omega) (by omega)]
    omega
  have halternate : toU64 (int (declaredSectors n - 1)) = 66 + n := by
    rw [hsectors, toU64_eq (by omega) (by omega)]
    omega
  constructor
  · exact ⟨h.header_iff.mpr rfl, h.myLba, h.alternateAlternateLba⟩
  · refine ⟨66 + n, (h.alternateHeader_iff hk).mpr rfl, ?_, ?_⟩
    · rw [h.alternateMyLba, halternate]
    · rw [h.alternateLba, halternate]
  · intro t ht
    rcases List.mem_pair.mp ht with rfl | rfl
    · refine ⟨.entries, by simp, ?_⟩
      rw [h.partitionEntryLba]
      exact h.entries_iff.mpr rfl
    · refine ⟨.alternateEntries, by simp, ?_⟩
      rw [h.alternatePartitionEntryLba, hend, toU64_eq (by omega) (by omega)]
      apply (h.alternateEntries_iff hk).mpr
      omega
  · intro j hj
    rw [h.startingLba]
    apply (h.input_iff hk).mpr
    exact ⟨by omega, rfl, rfl⟩
  · intro sector
    rw [h.startingLba, hending]
    constructor
    · rintro ⟨hstart, hend⟩
      refine ⟨sector - 34, _, (h.input_iff hk).mpr ⟨?_, rfl, ?_⟩⟩
      all_goals omega
    · rintro ⟨j, bytes, hwritten⟩
      rcases (h.input_iff hk).mp hwritten with ⟨hj, _, rfl⟩
      omega
  · have hsize : 67 + (n : Int).toNat = ((n : Int) + 66).toNat + 1 := by omega
    rw [h.bytesOf_writes hk, h.sizeInLba, hsectors, toU32_eq (by omega) (by omega), hsize]

/-- The sectors of the input are all written, and the size that is declared is the right one. -/
theorem Image.Layout.bounds (h : image.Layout input (int n)) (hn : input.length / SECTOR_SIZE = n)
    (hc : image.Consistent input) : 1981 ≤ n ∧ n + 67 < 2 ^ 31 := by
  have hle := int_le n
  have hfits : (int n).toNat * SECTOR_SIZE ≤ input.length := by
    have hmul := Nat.mul_le_mul_right SECTOR_SIZE (show (int n).toNat ≤ n by omega)
    rw [← hn] at hmul ⊢
    exact hmul.trans (Nat.div_mul_le_self _ _)
  have hall : n ≤ (int n).toNat := by
    by_contra hlt
    have hwritten := hc.input (int n).toNat (by omega)
    exact lt_irrefl _ ((h.input_iff hfits).mp hwritten).1
  have hsize := hc.size
  rw [h.bytesOf_writes hfits, h.sizeInLba] at hsize
  have hsectors := Nat.eq_of_mul_eq_mul_right (by decide) hsize
  simp only [declaredSectors, toU32, int_def] at hsectors
  split_ifs at hsectors
  all_goals omega

/-- The image is consistent if and only if the input has at least 1981 sectors, and the number of
    sectors of the image fits in an `int`. -/
theorem maketoysimg_iff (h : maketoysimg input diskGuid partitionGuid = some image) :
    image.Consistent input ↔
      1981 ≤ input.length / SECTOR_SIZE ∧ input.length / SECTOR_SIZE + 67 < 2 ^ 31 := by
  have hlayout := (maketoysimg_layout h).2
  refine ⟨hlayout.bounds rfl, ?_⟩
  rintro ⟨hmin, hmax⟩
  rw [int_eq (by omega) (by omega)] at hlayout
  exact hlayout.consistent rfl hmin hmax

/-- An input of `n` sectors of zeros. -/
def zeroSectors (n : Nat) : List UInt8 := zeros (n * SECTOR_SIZE)

/-- The image of this input. -/
def zeroImage (n : Nat) : Image := imageOf (zeroSectors n) n (Vector.replicate 16 0) (Vector.replicate 16 0)

/-- The length of an input of `n` sectors. -/
theorem zeroSectors_length (n : Nat) : (zeroSectors n).length = n * SECTOR_SIZE := zeros_length _

/-- The image of an input of zeros. -/
theorem maketoysimg_zeros {n : Nat} (h : n < 2 ^ 31) :
    maketoysimg (zeroSectors n) (Vector.replicate 16 0) (Vector.replicate 16 0) = some (zeroImage n) := by
  have hdiv : n * SECTOR_SIZE / SECTOR_SIZE = n := Nat.mul_div_cancel n (by decide)
  have hint : int (n : Int) = n := int_eq (by omega) (by omega)
  simp only [maketoysimg, zeroSectors_length, hdiv, hint]
  exact if_neg (not_not_intro (Nat.mul_mod_left n SECTOR_SIZE))

/-- The smallest consistent image, and the previous one. -/
theorem maketoysimg_iff_zeros :
    (zeroImage 1981).Consistent (zeroSectors 1981) ∧ ¬ (zeroImage 1980).Consistent (zeroSectors 1980) := by
  have hlength : ∀ n, (zeroSectors n).length / SECTOR_SIZE = n := fun n => by
    rw [zeroSectors_length]
    exact Nat.mul_div_cancel n (by decide)
  constructor
  · apply (maketoysimg_iff (maketoysimg_zeros (by decide))).mpr
    rw [hlength]
    decide
  · intro h
    have hmin := ((maketoysimg_iff (maketoysimg_zeros (by decide))).mp h).1
    rw [hlength] at hmin
    exact absurd hmin (by decide)

/-- The alternate header of a small image is not in its declared sector. -/
theorem not_maketoysimg_consistent :
    ¬ ∀ (input : List UInt8) (diskGuid partitionGuid : Guid) (image : Image),
      maketoysimg input diskGuid partitionGuid = some image → image.Consistent input := by
  intro hall
  have hsector := @maketoysimg_zeros 1 (by decide)
  have hlayout := (maketoysimg_layout hsector).2
  have hmin := (hlayout.bounds rfl (hall _ _ _ _ hsector)).1
  rw [zeroSectors_length] at hmin
  exact absurd hmin (by decide)

end Toys.Tools
