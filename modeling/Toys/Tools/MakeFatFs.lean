import Mathlib
import Toys.Lib.Nibbles
import Toys.Lib.U64

namespace Toys.Tools

open Toys.Lib

/-!
# Tools — the FAT12 image

`makefatfs` writes an image with a boot loader of one cluster and the file TOYSFS.

* `makefatfs` — the partition that is written, if the sizes of the files are accepted;
* `clusterEntry`, `ClusterChain` — the file allocation table as it is read;
* `setChain_eq` — the entries that are set for a file;
* `fatEntry_setEntries` — the table when they were set;
* `makefatfs_iff` — the image is consistent if and only if TOYSFS has at most 677 clusters.
-/

/-- The size of a sector. -/
def SECTOR_SIZE : Nat := 512

/-- The size of a cluster. -/
def CLUSTER_SIZE : Nat := 2048

/-- The number of clusters of the boot loader. -/
def NUM_BOOT_LOADER_CLUSTERS : Nat := 1

/-! ### The file allocation table -/

/-- `set_nibble`, for a value between 0 and 15. -/
def setNibble (bytes : ByteMem) (nibbleIndex value : Nat) : ByteMem :=
  orNibble bytes nibbleIndex value

/-- `set_fat_entry`. -/
def setFatEntry (fat : ByteMem) (entryIndex : Nat) (value : Int) : ByteMem :=
  let fat := setNibble fat (3 * entryIndex) (value % 16).toNat
  let fat := setNibble fat (3 * entryIndex + 1) (value / 16 % 16).toNat
  setNibble fat (3 * entryIndex + 2) (value / 256 % 16).toNat

/-- The calls of `set_fat_entry` for a file: the loop on the variables `fat_entry` and `size`, and
    what follows it. -/
def setChain (fatEntry : Nat) (size : Int) : List (Nat × Int) :=
  if size > CLUSTER_SIZE then
    (fatEntry, (fatEntry : Int) + 1) :: setChain (fatEntry + 1) (size - CLUSTER_SIZE)
  else if size > 0 then [(fatEntry, -1)]
  else []
termination_by size.toNat
decreasing_by
  have hsize : size > (2048 : Nat) := ‹_›
  show (size - (2048 : Nat)).toNat < size.toNat
  omega

/-- The calls of `set_fat_entry` are made in order. -/
def setEntries (fat : ByteMem) (calls : List (Nat × Int)) : ByteMem :=
  calls.foldl (fun fat call => setFatEntry fat call.1 call.2) fat

/-! ### The partition -/

/-- A number as an `int` of 32 bits. -/
def toInt (n : Nat) : Int := Int.bmod n (2 ^ 32)

/-- The fields of the boot sector that describe the layout of the partition. -/
structure BootSector where
  bytesPerSector : Nat
  sectorsPerCluster : Nat
  reservedSectorCount : Nat
  tableCount : Nat
  rootEntryCount : Nat
  totalSectors16 : Nat
  tableSize16 : Nat
  deriving Repr, DecidableEq

/-- An entry of a directory. -/
structure DirectoryEntry where
  name : String
  attributes : Nat
  firstCluster : Nat
  fileSize : Nat
  deriving Repr, DecidableEq

/-- The size of a file allocation table, and of the other parts of the partition. -/
def TABLE_SIZE : Nat := 1024

/-- The size of an entry of a directory. -/
def DIRECTORY_ENTRY_SIZE : Nat := 32

/-- `sizeof(partition_t)`: the boot sector, the file allocation table, the root directory, the
    directories of the boot loader, and the boot loader. -/
def PARTITION_SIZE : Nat :=
  SECTOR_SIZE + TABLE_SIZE + SECTOR_SIZE + CLUSTER_SIZE + CLUSTER_SIZE +
    NUM_BOOT_LOADER_CLUSTERS * CLUSTER_SIZE

/-- What is written before the content of the file TOYSFS, with the calls of `set_fat_entry`.  The
    bytes of the table are followed by the ones of the other parts. -/
structure Partition where
  bootSector : BootSector
  fatCalls : List (Nat × Int)
  fat : ByteMem
  rootDirectory : List DirectoryEntry
  efiDirectory : List DirectoryEntry
  efiBootDirectory : List DirectoryEntry

/-- The media type of a fixed disk. -/
def FIXED_DISK_MEDIA_TYPE : UInt8 := 0xF8

/-- The bytes of the file allocation table at first: 2 reserved entries, and 2 directories. -/
def initialFat : ByteMem :=
  ByteMem.copyIn (fun _ => 0) 0 [FIXED_DISK_MEDIA_TYPE, 0xFF, 0xFF, 0xFF, 0xFF, 0xFF]

/-- The attribute of a directory. -/
def DIRECTORY_ENTRY : Nat := 0x10

/-- The attribute of a file. -/
def FILE_ENTRY : Nat := 0x20

/-- `main`, for files of `size₀` and `size₁` bytes: the partition, or nothing if there is an error.
    `fread` reads no boot loader of 0 bytes.  The sum that is compared with `max_clusters` is taken
    as not to overflow. -/
def makefatfs (size₀ size₁ : Nat) : Option Partition :=
  let numInputClusters := toInt (U64.add size₁ (CLUSTER_SIZE - 1) / CLUSTER_SIZE)
  let maxClusters : Int := TABLE_SIZE * 3 / 2
  if size₀ > NUM_BOOT_LOADER_CLUSTERS * CLUSTER_SIZE then none
  else if size₁ % SECTOR_SIZE ≠ 0 then none
  else if 4 + NUM_BOOT_LOADER_CLUSTERS + numInputClusters > maxClusters then none
  else if size₀ = 0 then none
  else
    let partitionSize := toInt (U64.add PARTITION_SIZE size₁)
    let fatCalls := setChain 4 (toInt size₀) ++ setChain (4 + NUM_BOOT_LOADER_CLUSTERS) (toInt size₁)
    some {
      bootSector := {
        bytesPerSector := SECTOR_SIZE
        sectorsPerCluster := CLUSTER_SIZE / SECTOR_SIZE
        reservedSectorCount := 1
        tableCount := 1
        rootEntryCount := SECTOR_SIZE / DIRECTORY_ENTRY_SIZE
        totalSectors16 := ((partitionSize.tdiv SECTOR_SIZE) % 2 ^ 16).toNat
        tableSize16 := TABLE_SIZE / SECTOR_SIZE }
      fatCalls := fatCalls
      fat := setEntries initialFat fatCalls
      rootDirectory := [
        ⟨"EFI        ", DIRECTORY_ENTRY, 2, 0⟩,
        ⟨"TOYSFS     ", FILE_ENTRY, 4 + NUM_BOOT_LOADER_CLUSTERS, size₁ % 2 ^ 32⟩]
      efiDirectory := [
        ⟨".          ", DIRECTORY_ENTRY, 2, 0⟩,
        ⟨"..         ", DIRECTORY_ENTRY, 0, 0⟩,
        ⟨"BOOT       ", DIRECTORY_ENTRY, 3, 0⟩]
      efiBootDirectory := [
        ⟨".          ", DIRECTORY_ENTRY, 3, 0⟩,
        ⟨"..         ", DIRECTORY_ENTRY, 2, 0⟩,
        ⟨"BOOTX64 EFI", FILE_ENTRY, 4, size₀ % 2 ^ 32⟩] }

/-- The sector where the sector `i` of the file TOYSFS is written. -/
def inputSector (i : Nat) : Nat := PARTITION_SIZE / SECTOR_SIZE + i

/-! ### Reading the image -/

/-- The entry of the cluster `c` in the bytes of a FAT12 table. -/
def clusterEntry (table : List UInt8) (c : Nat) : Option Nat :=
  match table[c + c / 2]?, table[c + c / 2 + 1]? with
  | some low, some high =>
    let w := low.toNat + 256 * high.toNat
    some (if c % 2 = 0 then w % 4096 else w / 16)
  | _, _ => none

/-- The last cluster of a file. -/
def END_OF_CHAIN : Nat := 0xFFF

/-- The clusters of a file, as they are linked by the table. -/
def ClusterChain (table : List UInt8) : List Nat → Prop
  | [] => False
  | [c] => clusterEntry table c = some END_OF_CHAIN
  | c :: c' :: cs => clusterEntry table c = some c' ∧ ClusterChain table (c' :: cs)

/-- The first sector of a cluster.  The first cluster is the number 2, it is after the tables and
    the root directory. -/
def BootSector.clusterSector (b : BootSector) (c : Nat) : Nat :=
  b.reservedSectorCount + b.tableCount * b.tableSize16 +
    (b.rootEntryCount * DIRECTORY_ENTRY_SIZE + b.bytesPerSector - 1) / b.bytesPerSector +
    (c - 2) * b.sectorsPerCluster

/-- The sectors of a list of clusters. -/
def BootSector.chainSectors (b : BootSector) (cs : List Nat) : List Nat :=
  cs.flatMap fun c => List.range' (b.clusterSector c) b.sectorsPerCluster

/-- The bytes of the table that is written. -/
def Partition.table (p : Partition) : List UInt8 := p.fat.slice 0 TABLE_SIZE

/-- The number of clusters of a file. -/
def numClusters (size : Nat) : Nat := (size + (CLUSTER_SIZE - 1)) / CLUSTER_SIZE

/-- The table is consistent with a file TOYSFS of `size` bytes. -/
structure Partition.Consistent (p : Partition) (size : Nat) : Prop where
  calls : ∀ call ∈ p.fatCalls, ∀ d < 3, (3 * call.1 + d) / 2 < TABLE_SIZE
  reserved : clusterEntry p.table 0 = some 0xFF8 ∧ clusterEntry p.table 1 = some 0xFFF
  directories : ∀ c ∈ [2, 3, 4], ClusterChain p.table [c]
  toysfs : ∃ e ∈ p.rootDirectory, e.name = "TOYSFS     " ∧ e.firstCluster = 5 ∧
    ClusterChain p.table (List.range' e.firstCluster (numClusters size)) ∧
    ∀ i < size / SECTOR_SIZE, (p.bootSector.chainSectors
      (List.range' e.firstCluster (numClusters size)))[i]? = some (inputSector i)
  sector : inputSector 0 = 16

variable {fat : ByteMem} {table : List UInt8} {calls : List (Nat × Int)} {a c d e n : Nat} {v : Int}

/-! ### The entries -/

/-- The entry of the cluster `c`, from its half-bytes. -/
def fatEntry (fat : ByteMem) (c : Nat) : Nat :=
  nibble fat (3 * c) + 16 * nibble fat (3 * c + 1) + 256 * nibble fat (3 * c + 2)

/-- An entry of the table, read from its two bytes. -/
theorem word_eq_fatEntry (fat : ByteMem) (c : Nat) :
    (if c % 2 = 0 then ((fat (c + c / 2)).toNat + 256 * (fat (c + c / 2 + 1)).toNat) % 4096
      else ((fat (c + c / 2)).toNat + 256 * (fat (c + c / 2 + 1)).toNat) / 16) = fatEntry fat c := by
  have hlow : (fat (c + c / 2)).toNat < 256 := UInt8.toNat_lt _
  have hhigh : (fat (c + c / 2 + 1)).toNat < 256 := UInt8.toNat_lt _
  unfold fatEntry nibble
  rcases Nat.mod_two_eq_zero_or_one c with hc | hc
  · rw [if_pos hc, if_pos (by omega), if_neg (by omega), if_pos (by omega),
      show 3 * c / 2 = c + c / 2 by omega, show (3 * c + 1) / 2 = c + c / 2 by omega,
      show (3 * c + 2) / 2 = c + c / 2 + 1 by omega]
    omega
  · rw [if_neg (by omega), if_neg (by omega), if_pos (by omega), if_neg (by omega),
      show 3 * c / 2 = c + c / 2 by omega, show (3 * c + 1) / 2 = c + c / 2 + 1 by omega,
      show (3 * c + 2) / 2 = c + c / 2 + 1 by omega]
    omega

/-- A table of 1024 bytes has 682 entries. -/
theorem clusterEntry_slice : clusterEntry (fat.slice 0 TABLE_SIZE) c =
    if c < 682 then some (fatEntry fat c) else none := by
  have hbyte : ∀ i, (fat.slice 0 TABLE_SIZE)[i]? = if i < TABLE_SIZE then some (fat i) else none := by
    intro i
    split_ifs with hi
    · rw [List.getElem?_eq_getElem (by simpa using hi)]
      simp [ByteMem.slice]
    · rw [List.getElem?_eq_none]
      simpa using hi
  rw [clusterEntry, hbyte, hbyte, TABLE_SIZE]
  by_cases hc : c < 682
  · rw [if_pos hc, if_pos (by omega), if_pos (by omega)]
    exact congrArg some (word_eq_fatEntry fat c)
  · rw [if_neg hc, if_neg (show ¬ c + c / 2 + 1 < 1024 by omega)]
    split
    · rename_i hhigh
      cases hhigh
    · rfl

/-- The half-byte `d` of a value. -/
def valueNibble (v : Int) (d : Nat) : Nat := (v / 16 ^ d % 16).toNat

theorem valueNibble_lt : valueNibble v d < 16 := by
  have hlt : v / 16 ^ d % 16 < 16 := Int.emod_lt_of_pos _ (by decide)
  unfold valueNibble
  omega

/-- The three nibbles of a value. -/
theorem sum_valueNibble (v : Int) :
    valueNibble v 0 + 16 * valueNibble v 1 + 256 * valueNibble v 2 = (v % 4096).toNat := by
  simp only [valueNibble, pow_zero, pow_one, Int.ediv_one]
  norm_num
  omega

/-- An entry that is set changes no other one. -/
theorem nibble_setFatEntry (hd : d < 3) :
    nibble (setFatEntry fat e v) (3 * c + d) =
      if c = e then nibble fat (3 * c + d) ||| valueNibble v d else nibble fat (3 * c + d) := by
  have h0 : (v % 16).toNat = valueNibble v 0 := by simp [valueNibble]
  have h1 : (v / 16 % 16).toNat = valueNibble v 1 := by simp [valueNibble]
  have h2 : (v / 256 % 16).toNat = valueNibble v 2 := by simp [valueNibble]
  unfold setFatEntry setNibble
  simp only [h0, h1, h2, nibble_orNibble valueNibble_lt]
  by_cases hc : c = e
  · subst hc
    interval_cases d
    all_goals simp
  · rw [if_neg hc, if_neg (by omega), if_neg (by omega), if_neg (by omega)]

/-- The nibbles of the other entries stay. -/
theorem nibble_setEntries_of_not_mem (hc : c ∉ calls.map Prod.fst) (hd : d < 3) :
    nibble (setEntries fat calls) (3 * c + d) = nibble fat (3 * c + d) := by
  induction calls generalizing fat with
  | nil => rfl
  | cons call calls ih =>
    rw [List.map_cons, List.mem_cons, not_or] at hc
    exact (ih hc.2).trans ((nibble_setFatEntry hd).trans (if_neg hc.1))

/-- The nibbles of an entry that is set once. -/
theorem nibble_setEntries_of_mem (hnodup : (calls.map Prod.fst).Nodup) (hmem : (c, v) ∈ calls)
    (hd : d < 3) (hzero : nibble fat (3 * c + d) = 0) :
    nibble (setEntries fat calls) (3 * c + d) = valueNibble v d := by
  induction calls generalizing fat with
  | nil => cases hmem
  | cons call calls ih =>
    rw [List.map_cons, List.nodup_cons] at hnodup
    rcases List.mem_cons.mp hmem with rfl | hmem
    · have hrest : nibble (setEntries (setFatEntry fat c v) calls) (3 * c + d) =
          nibble (setFatEntry fat c v) (3 * c + d) := nibble_setEntries_of_not_mem hnodup.1 hd
      rw [nibble_setFatEntry hd, if_pos rfl, hzero, Nat.zero_or] at hrest
      exact hrest
    · have hne : c ≠ call.1 := by
        rintro rfl
        exact hnodup.1 (List.mem_map.mpr ⟨_, hmem, rfl⟩)
      refine ih hnodup.2 hmem ?_
      rw [nibble_setFatEntry hd, if_neg hne, hzero]

/-- The entry of a cluster that is not set. -/
theorem fatEntry_of_not_mem (hc : c ∉ calls.map Prod.fst) :
    fatEntry (setEntries fat calls) c = fatEntry fat c := by
  have h0 : nibble (setEntries fat calls) (3 * c + 0) = nibble fat (3 * c + 0) :=
    nibble_setEntries_of_not_mem hc (by decide)
  have h1 : nibble (setEntries fat calls) (3 * c + 1) = nibble fat (3 * c + 1) :=
    nibble_setEntries_of_not_mem hc (by decide)
  have h2 : nibble (setEntries fat calls) (3 * c + 2) = nibble fat (3 * c + 2) :=
    nibble_setEntries_of_not_mem hc (by decide)
  unfold fatEntry
  rw [← h1, ← h2]
  rw [Nat.add_zero] at h0
  rw [h0]

/-- The entry of a cluster that is set, if it was 0. -/
theorem fatEntry_of_mem (hnodup : (calls.map Prod.fst).Nodup) (hmem : (c, v) ∈ calls)
    (hzero : fatEntry fat c = 0) : fatEntry (setEntries fat calls) c = (v % 4096).toNat := by
  unfold fatEntry at hzero
  have h0 := nibble_setEntries_of_mem hnodup hmem (show 0 < 3 by decide)
    (show nibble fat (3 * c + 0) = 0 by rw [Nat.add_zero]; omega)
  have h1 := nibble_setEntries_of_mem hnodup hmem (show 1 < 3 by decide)
    (show nibble fat (3 * c + 1) = 0 by omega)
  have h2 := nibble_setEntries_of_mem hnodup hmem (show 2 < 3 by decide)
    (show nibble fat (3 * c + 2) = 0 by omega)
  rw [Nat.add_zero] at h0
  rw [fatEntry, h0, h1, h2, sum_valueNibble]

/-! ### The chains -/

/-- The entries that are set for a file of `k + 1` clusters. -/
theorem setChain_eq {size k : Nat} (hk : k * 2048 < size) (hk' : size ≤ (k + 1) * 2048) :
    setChain a size =
      (List.range k).map (fun i => (a + i, ((a + i : Nat) : Int) + 1)) ++ [(a + k, -1)] := by
  induction k generalizing a size with
  | zero =>
    rw [setChain, CLUSTER_SIZE, if_neg (by omega), if_pos (by omega)]
    rfl
  | succ k ih =>
    have hle : CLUSTER_SIZE ≤ size := by
      unfold CLUSTER_SIZE
      omega
    have hgt : (size : Int) > CLUSTER_SIZE := by
      unfold CLUSTER_SIZE
      omega
    have hrest : k * 2048 < size - CLUSTER_SIZE ∧ size - CLUSTER_SIZE ≤ (k + 1) * 2048 := by
      unfold CLUSTER_SIZE
      omega
    rw [setChain, if_pos hgt, ← Nat.cast_sub hle, ih hrest.1 hrest.2,
      List.range_succ_eq_map, List.map_cons, List.map_map, List.cons_append]
    refine congrArg₂ List.cons rfl (congrArg₂ List.append ?_ ?_)
    · refine List.map_congr_left fun i _ => ?_
      simp only [Function.comp, Nat.succ_eq_add_one, show a + 1 + i = a + (i + 1) by omega]
    · rw [show a + 1 + k = a + (k + 1) by omega]

/-- Clusters that follow each other make a chain. -/
theorem clusterChain_range' (hn : 0 < n)
    (hnext : ∀ i, i + 1 < n → clusterEntry table (a + i) = some (a + i + 1))
    (hlast : clusterEntry table (a + (n - 1)) = some END_OF_CHAIN) :
    ClusterChain table (List.range' a n) := by
  induction n generalizing a with
  | zero => omega
  | succ n ih =>
    cases n with
    | zero => exact hlast
    | succ n =>
      refine ⟨hnext 0 (by omega), ih (by omega) (fun i hi => ?_) ?_⟩
      · rw [show a + 1 + i = a + (i + 1) by omega]
        exact hnext (i + 1) (by omega)
      · rw [show a + 1 + (n + 1 - 1) = a + (n + 1 + 1 - 1) by omega]
        exact hlast

/-- The clusters of a chain have an entry in the table. -/
theorem ClusterChain.isSome {cs : List Nat} (h : ClusterChain table cs) :
    ∀ c ∈ cs, (clusterEntry table c).isSome := by
  induction cs with
  | nil => exact h.elim
  | cons c cs ih =>
    intro c' hc'
    cases cs with
    | nil =>
      obtain rfl := List.mem_singleton.mp hc'
      rw [show clusterEntry table c' = some END_OF_CHAIN from h]
      rfl
    | cons c₁ cs =>
      rcases List.mem_cons.mp hc' with rfl | hc'
      · rw [h.1]
        rfl
      · exact ih h.2 c' hc'

/-- The clusters of a chain of consecutive clusters are contiguous sectors. -/
theorem chainSectors_range' {b : BootSector} (ha : 2 ≤ a) :
    b.chainSectors (List.range' a n) = List.range' (b.clusterSector a) (n * b.sectorsPerCluster) := by
  induction n generalizing a with
  | zero => simp [BootSector.chainSectors]
  | succ n ih =>
    have hnext : b.clusterSector (a + 1) = b.clusterSector a + b.sectorsPerCluster := by
      simp only [BootSector.clusterSector, show a + 1 - 2 = a - 2 + 1 by omega, Nat.add_mul, Nat.one_mul,
        Nat.add_assoc]
    have hrest := ih (a := a + 1) (by omega)
    unfold BootSector.chainSectors at hrest ⊢
    rw [List.range'_succ, List.flatMap_cons, hrest, hnext, Nat.add_mul, Nat.one_mul, Nat.add_comm (n * _),
      ← List.range'_append_1]

/-! ### The image -/

variable {p : Partition} {size₀ size₁ : Nat}

/-- A small number is an `int`. -/
theorem toInt_eq (h : n < 2 ^ 31) : toInt n = n := by
  unfold toInt
  rw [Int.bmod_eq_of_le (by omega) (by omega)]

/-- The partition of two files that are accepted. -/
theorem makefatfs_eq_some (h : makefatfs size₀ size₁ = some p) :
    0 < size₀ ∧ size₀ ≤ CLUSTER_SIZE ∧ size₁ % SECTOR_SIZE = 0 ∧
      p.fatCalls = setChain 4 (toInt size₀) ++ setChain 5 (toInt size₁) ∧
      p.fat = setEntries initialFat p.fatCalls ∧ p.bootSector.clusterSector 5 = 16 ∧
      p.bootSector.sectorsPerCluster = 4 ∧
      ∃ e, p.rootDirectory = [⟨"EFI        ", DIRECTORY_ENTRY, 2, 0⟩, e] ∧
        e.name = "TOYSFS     " ∧ e.firstCluster = 5 := by
  unfold makefatfs at h
  simp only at h
  split_ifs at h with hsize hsector hclusters hempty
  obtain rfl := Option.some.inj h
  refine ⟨Nat.pos_of_ne_zero hempty, ?_, not_not.mp hsector, rfl, rfl, ?_, rfl, _, rfl, rfl, rfl⟩
  · rw [NUM_BOOT_LOADER_CLUSTERS, Nat.one_mul] at hsize
    exact not_lt.mp hsize
  · simp [BootSector.clusterSector, TABLE_SIZE, SECTOR_SIZE, CLUSTER_SIZE, DIRECTORY_ENTRY_SIZE]

/-- The entries that are set, if TOYSFS has `k + 1` clusters. -/
theorem makefatfs_calls {k : Nat} (h : makefatfs size₀ size₁ = some p) (hk : k * 2048 < size₁)
    (hk' : size₁ ≤ (k + 1) * 2048) (hle : size₁ ≤ 677 * 2048) :
    p.fatCalls = (4, -1) ::
      ((List.range k).map (fun i => (5 + i, ((5 + i : Nat) : Int) + 1)) ++ [(5 + k, -1)]) := by
  obtain ⟨hpos, hsize, -, hcalls, -⟩ := makefatfs_eq_some h
  unfold CLUSTER_SIZE at hsize
  have hloader := setChain_eq (a := 4) (show 0 * 2048 < size₀ by omega) (show size₀ ≤ (0 + 1) * 2048 by omega)
  rw [hcalls, toInt_eq (by omega), toInt_eq (by omega), hloader, setChain_eq hk hk']
  rfl

/-- The clusters whose entries are set. -/
theorem makefatfs_entries {k : Nat} (h : makefatfs size₀ size₁ = some p) (hk : k * 2048 < size₁)
    (hk' : size₁ ≤ (k + 1) * 2048) (hle : size₁ ≤ 677 * 2048) :
    p.fatCalls.map Prod.fst = List.range' 4 (k + 2) := by
  have hmap : (List.range k).map (fun i => 5 + i) = List.range' 5 k := by
    rw [List.range'_eq_map_range]
  rw [makefatfs_calls h hk hk' hle, List.map_cons, List.map_append, List.map_map, List.range'_succ]
  refine congrArg₂ List.cons rfl ?_
  rw [List.range'_concat]
  exact congrArg₂ List.append hmap (by simp)

/-- The entries after the first ones are 0 at first. -/
theorem fatEntry_initialFat (hc : 4 ≤ c) : fatEntry initialFat c = 0 := by
  have hbyte : ∀ i, 6 ≤ i → initialFat i = 0 := fun i hi =>
    ByteMem.copyIn_of_not_mem (Or.inr (by simpa using hi))
  unfold fatEntry nibble
  rw [hbyte _ (by omega), hbyte _ (by omega), hbyte _ (by omega)]
  simp

/-- The image is consistent as long as the entries are in the table. -/
theorem makefatfs_consistent (h : makefatfs size₀ size₁ = some p) (hpos : 0 < size₁)
    (hle : size₁ ≤ 677 * 2048) : p.Consistent size₁ := by
  obtain ⟨-, -, hsector, -, hfat, hfirst, hper, e, hroot, hname, hcluster⟩ := makefatfs_eq_some h
  obtain ⟨k, hnum⟩ : ∃ k, numClusters size₁ = k + 1 := by
    refine ⟨numClusters size₁ - 1, ?_⟩
    unfold numClusters CLUSTER_SIZE
    omega
  have hk : k * 2048 < size₁ ∧ size₁ ≤ (k + 1) * 2048 ∧ k < 677 := by
    unfold numClusters CLUSTER_SIZE at hnum
    omega
  have hcalls := makefatfs_calls h hk.1 hk.2.1 hle
  have hentries := makefatfs_entries h hk.1 hk.2.1 hle
  have hnodup : (p.fatCalls.map Prod.fst).Nodup := hentries ▸ List.nodup_range'
  -- the entries of the clusters that are set, and of the other ones
  have hset : ∀ {c v}, (c, v) ∈ p.fatCalls → clusterEntry p.table c = some (v % 4096).toNat := by
    intro c v hmem
    have hc : c ∈ p.fatCalls.map Prod.fst := List.mem_map.mpr ⟨_, hmem, rfl⟩
    rw [hentries, List.mem_range'_1] at hc
    rw [Partition.table, clusterEntry_slice, if_pos (by omega), hfat,
      fatEntry_of_mem hnodup hmem (fatEntry_initialFat hc.1)]
  have hunset : ∀ {c}, c < 4 → clusterEntry p.table c = some (fatEntry initialFat c) := by
    intro c hc
    rw [Partition.table, clusterEntry_slice, if_pos (by omega), hfat, fatEntry_of_not_mem]
    rw [hentries, List.mem_range'_1]
    omega
  refine ⟨fun call hcall d hd => ?_, ⟨?_, ?_⟩, fun c hc => ?_, ⟨e, ?_, hname, hcluster, ?_, ?_⟩, rfl⟩
  · have hc : call.1 ∈ p.fatCalls.map Prod.fst := List.mem_map_of_mem hcall
    rw [hentries, List.mem_range'_1] at hc
    unfold TABLE_SIZE
    omega
  · exact hunset (by decide)
  · exact hunset (by decide)
  · simp only [List.mem_cons, List.not_mem_nil, or_false] at hc
    rcases hc with rfl | rfl | rfl
    · exact hunset (by decide)
    · exact hunset (by decide)
    · exact hset (v := -1) (by rw [hcalls]; exact List.mem_cons_self)
  · rw [hroot]
    simp
  · rw [hcluster, hnum]
    refine clusterChain_range' (Nat.succ_pos k) (fun i hi => ?_) ?_
    · have hmem : (5 + i, ((5 + i : Nat) : Int) + 1) ∈ p.fatCalls := by
        rw [hcalls]
        refine List.mem_cons_of_mem _ (List.mem_append_left _ (List.mem_map.mpr ⟨i, ?_, rfl⟩))
        exact List.mem_range.mpr (by omega)
      rw [hset hmem]
      refine congrArg some ?_
      omega
    · have hmem : (5 + k, (-1 : Int)) ∈ p.fatCalls := by
        rw [hcalls]
        exact List.mem_cons_of_mem _ (List.mem_append_right _ (List.mem_singleton_self _))
      exact hset hmem
  · intro i hi
    unfold SECTOR_SIZE at hi
    rw [hcluster, chainSectors_range' (by decide), hfirst, hper, hnum, List.getElem?_range' (by omega)]
    simp [inputSector, PARTITION_SIZE, SECTOR_SIZE, TABLE_SIZE, CLUSTER_SIZE, NUM_BOOT_LOADER_CLUSTERS]

/-- A file of more clusters has no chain in the table. -/
theorem Partition.Consistent.size_le (h : p.Consistent size₁) : size₁ ≤ 677 * 2048 := by
  obtain ⟨e, -, -, hcluster, hchain, -⟩ := h.toysfs
  by_contra hlt
  have hnum : 678 ≤ numClusters size₁ := by
    unfold numClusters CLUSTER_SIZE
    omega
  have hmem : 682 ∈ List.range' e.firstCluster (numClusters size₁) := by
    rw [hcluster, List.mem_range'_1]
    omega
  have hsome := hchain.isSome 682 hmem
  rw [Partition.table, clusterEntry_slice, if_neg (by omega)] at hsome
  cases hsome

/-- The image is consistent if and only if TOYSFS has at most 677 clusters. -/
theorem makefatfs_iff (h : makefatfs size₀ size₁ = some p) (hpos : 0 < size₁) :
    p.Consistent size₁ ↔ size₁ ≤ 677 * 2048 :=
  ⟨Partition.Consistent.size_le, makefatfs_consistent h hpos⟩

/-- The partition of a boot loader of 1200 bytes, when TOYSFS fills the clusters that the table can
    link. -/
def fullPartition : Partition := (makefatfs 1200 (677 * 2048)).get (by decide)

/-- The partition for one sector more. -/
def overfullPartition : Partition := (makefatfs 1200 (677 * 2048 + 512)).get (by decide)

/-- The largest consistent partition, and the next one. -/
theorem makefatfs_iff_full : fullPartition.Consistent (677 * 2048) ∧
    ¬ overfullPartition.Consistent (677 * 2048 + 512) :=
  ⟨(makefatfs_iff (h := (Option.some_get _).symm) (by decide)).mpr le_rfl,
    fun h => absurd ((makefatfs_iff (h := (Option.some_get _).symm) (by decide)).mp h) (by decide)⟩

/-- A file of 678 clusters is accepted. -/
theorem not_makefatfs_consistent :
    ¬ ∀ (size₀ size₁ : Nat) (p : Partition), makefatfs size₀ size₁ = some p → 0 < size₁ →
      p.Consistent size₁ := by
  intro hall
  have hsome : (makefatfs 1 (678 * 2048)).isSome := by decide
  obtain ⟨p, hp⟩ := Option.isSome_iff_exists.mp hsome
  have hle := (hall 1 (678 * 2048) p hp (by decide)).size_le
  exact absurd hle (by decide)

end Toys.Tools
