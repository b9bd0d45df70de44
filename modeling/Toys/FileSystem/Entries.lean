import Mathlib
import Toys.Lib.Scan
import Toys.FileSystem.Refinement

namespace Toys.FileSystem

open Toys.Lib

/-!
# File system — the list of the files

The files of a disk as a sorted list of entries, a name and the address of a first block each,
that is linked by the `next_file` words.

* `HasFile` — the names that are in the list;
* `Describes.entries` — the list is sorted, and its addresses are distinct;
* `Describes.firstFile_eq`, `Describes.nextFile_eq` — the links are those of the list;
* `Describes.readEntry` — the name that is read from a first block.
-/

/-- There is a file `name` on the disk. -/
def HasFile (io : BlockIo) (name : List UInt8) : Prop :=
  ∃ L, Describes io L ∧ ∃ g ∈ L.files, g.name = name

/-- The order of the names. -/
def NameLt (x y : List UInt8) : Prop := compareNames x y = .smaller

/-- No name is before itself. -/
instance : Std.Irrefl NameLt where
  irrefl := by
    intro x hx
    rw [NameLt, compareNames_eq_equal.mpr rfl] at hx
    cases hx

/-- Names are ordered. -/
instance : IsTrans (List UInt8) NameLt := ⟨fun _ _ _ => compareNames_trans⟩

variable {io : BlockIo} {L : Layout} {x : List UInt8 × Nat} {name : List UInt8}

/-- The names of the entries are those of the files. -/
theorem mem_entries_fst : name ∈ L.entries.map Prod.fst ↔ ∃ g ∈ L.files, g.name = name := by
  simp [Layout.entries]

/-- The files of a well-formed image are entries, in the order of their names. -/
theorem Describes.entries (h : Describes io L) : Entries NameLt 0 L.entries where
  sorted := List.pairwise_map.mpr h.sorted
  nodup := by
    rw [Layout.entries, List.map_map]
    exact (List.nodup_cons.mp h.firsts_nodup).2
  ne_null := by
    intro x hx
    obtain ⟨g, hg, rfl⟩ := List.mem_map.mp hx
    have hlt := (h.first_lt hg).1
    simp only
    omega

/-- A file exists exactly when its name is in the list. -/
theorem Describes.hasFile_iff (h : Describes io L) : HasFile io name ↔ name ∈ L.entries.map Prod.fst := by
  rw [mem_entries_fst]
  constructor
  · rintro ⟨L', hL', hname⟩
    rw [h.unique hL']
    exact hname
  · exact fun hname => ⟨L, h, hname⟩

/-- The address of the first entry. -/
theorem firstAddress_eq_headD {es : List (List UInt8 × Nat)} :
    firstAddress 0 es = (es.map Prod.snd).headD 0 := by
  cases es <;> rfl

/-- The superblock refers to the first file. -/
theorem Describes.firstFile_eq (h : Describes io L) :
    nextFileOf io.blocks SUPER_BLOCK = firstAddress 0 L.entries := by
  rw [firstAddress_eq_headD, Layout.entries, List.map_map]
  exact h.files_path.eq_headD

/-- The first block of a file refers to the next file. -/
theorem Describes.nextFile_eq {before after : List (List UInt8 × Nat)} (h : Describes io L)
    (heq : L.entries = before ++ x :: after) : nextFileOf io.blocks x.2 = firstAddress 0 after := by
  have hfirsts : L.files.map (·.first) = before.map Prod.snd ++ x.2 :: after.map Prod.snd := by
    have hmap := congrArg (List.map Prod.snd) heq
    rw [Layout.entries, List.map_map, List.map_append, List.map_cons] at hmap
    exact hmap
  have hpath := h.files_path
  rw [hfirsts, path_append] at hpath
  obtain ⟨c, -, -, -, hrest⟩ := hpath
  rw [firstAddress_eq_headD]
  exact hrest.eq_headD

/-- What the read of the first block of a file returns. -/
theorem Describes.readEntry (h : Describes io L) (buffer : DiskBlock) (hr : io.readErrors = [])
    (hx : x ∈ L.entries) : diskReadBlockBuffer ⟨io, buffer⟩ x.2 = ⟨io, io.blocks x.2⟩ ∧
      (io.blocks x.2).nameLength = x.1.length ∧ (io.blocks x.2).read 24 x.1.length = x.1 ∧
      1 ≤ x.1.length ∧ x.1.length ≤ 488 := by
  obtain ⟨g, hg, rfl⟩ := List.mem_map.mp hx
  have hok := h.files_ok g hg
  have hlength := hok.nameLength_eq
  have hname := hok.name_eq
  unfold DiskBlock.fileName at hname
  rw [hlength] at hname
  exact ⟨diskReadBlockBuffer_eq hr (h.first_lt hg).2, hlength, hname, hok.name_pos, hok.name_le⟩

end Toys.FileSystem
