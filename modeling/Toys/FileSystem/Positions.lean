import Mathlib
import Toys.FileSystem.Cursor

namespace Toys.FileSystem

open Toys.Lib

/-!
# File system — a file that is read while another one is written

A file is read through a position, and another file is emptied or extended in the meantime.

* `Position` — a position in the file with some name, and what remains from there;
* `Emptied` — a file was created, or cleared;
* `diskClearFile_emptied`, `diskCreateFile_emptied`, `diskWriteFile_appended` — the operations return,
  and keep the positions in the other files.
-/

variable {io io' : BlockIo} {buffer : DiskBlock} {n : Nat} {L : Layout} {m : Files}
variable {name other c src rest : List UInt8} {block offset : Nat}

/-- `rest` is what remains of the file called `name` from a position. -/
def Position (io : BlockIo) (name : List UInt8) (block offset : Nat) (rest : List UInt8) : Prop :=
  ∃ L, Describes io L ∧ ∃ g ∈ L.files, g.name = name ∧ Cursor io g block offset rest

/-- The file called `name` is empty, its only block is `file`, and the other files are kept. -/
structure Emptied (io io' : BlockIo) (name : List UInt8) (file : Nat) : Prop where
  device : SameDevice io io'
  files : ∀ m, Represents io m → Represents io' (m.insert name [])
  last : LastBlockOf io' name file
  position : ∀ {other : List UInt8} {block offset : Nat} {rest : List UInt8}, other ≠ name →
    Position io other block offset rest → Position io' other block offset rest

/-- The last block of a file is a 64-bit number. -/
theorem LastBlockOf.lt (h : LastBlockOf io name block) : block < 2 ^ 64 := by
  rcases h with ⟨L, hL, g, hg, -, rfl⟩
  have hlt := hL.block_lt hg g.last_mem
  have hsize := io.size_le
  omega

/-- A position in a file that is framed. -/
theorem Position.frame {L' : Layout} (h : Position io other block offset rest) (hL : Describes io L)
    (hL' : Describes io' L') (hdev : SameDevice io io') (hmem : ∀ g ∈ L.files, g.name = other →
      g ∈ L'.files ∧ FileFrame io.blocks io'.blocks g) : Position io' other block offset rest := by
  rcases h with ⟨L₁, hL₁, g, hg, hname, hcursor⟩
  rw [← hL.unique hL₁] at hg
  rcases hmem g hg hname with ⟨hg', hframe⟩
  exact ⟨L', hL', g, hg', hname, hcursor.frame hdev hframe⟩

/-- The files before and after a file have other names. -/
theorem mem_others_of_name {free : List Nat} {pre post : List FileLayout} {f g : FileLayout}
    (hg : g ∈ (Layout.mk free (pre ++ f :: post)).files) (hname : g.name ≠ f.name) :
    g ∈ pre ++ post := by
  apply mem_others hg
  rintro rfl
  exact hname rfl

/-- `disk_clear_file` empties an existing file. -/
theorem diskClearFile_emptied {g : FileLayout} (h : Describes io L) (hr : io.readErrors = [])
    (hn : io.numBlocks ≤ n) (hg : g ∈ L.files) :
    ∃ io' buffer', diskClearFile n ⟨io, buffer⟩ g.first = some ⟨io', buffer'⟩ ∧
      Emptied io io' g.name g.first := by
  obtain ⟨free, files⟩ := L
  obtain ⟨pre, post, rfl⟩ := List.append_of_mem hg
  rcases diskClearFile_eq buffer h hr hn with ⟨io', buffer', heq, hdev, hdesc, hframe, -⟩
  refine ⟨io', buffer', heq, hdev, fun m hm => ?_, ?_, fun hne hposition => ?_⟩
  · exact (diskClearFile_refines hm hr ⟨_, h, g, hg, rfl, rfl⟩ heq).1
  · exact ⟨_, hdesc, { g with rest := [] }, by simp, rfl, rfl⟩
  · apply hposition.frame h hdesc hdev
    intro g' hg' hname
    have hother := mem_others_of_name hg' (hname.trans_ne hne)
    exact ⟨mem_of_mem_split hother, hframe g' hother⟩

/-- `disk_create_file` fails and keeps the image, or makes an empty file. -/
theorem diskCreateFile_emptied (h : Describes io L) (hr : io.readErrors = []) (hn : io.numBlocks ≤ n)
    (name : List UInt8) :
    (∃ buffer' status, status ≠ Status.ok ∧
      diskCreateFile n ⟨io, buffer⟩ name = some (⟨io, buffer'⟩, .error status)) ∨
    ∃ io' buffer' file, diskCreateFile n ⟨io, buffer⟩ name = some (⟨io', buffer'⟩, .ok file) ∧
      Emptied io io' name file := by
  rcases diskCreateFile_cases buffer h hr hn name with
    hfailed | ⟨io', buffer', file, free, heq, -, -, -, hdev, hdesc, hframe, -⟩
  · exact .inl hfailed
  · refine .inr ⟨io', buffer', file, heq, hdev, fun m hm => ?_, ?_, fun _ hposition => ?_⟩
    · exact (diskCreateFile_refines hm hr heq).2.2.1
    · exact ⟨_, hdesc, ⟨name, file, []⟩, by simp [Layout.insert], rfl, rfl⟩
    · apply hposition.frame h hdesc hdev
      intro g hg _
      refine ⟨?_, hframe g hg⟩
      rw [← filesBefore_append name L.files] at hg
      rcases List.mem_append.mp hg with hg | hg
      · exact List.mem_append_left _ hg
      · exact List.mem_append_right _ (List.mem_cons_of_mem _ hg)

/-- `disk_write_file` returns, and appends to the file if it returns `OK`. -/
theorem diskWriteFile_appended (h : Represents io m) (hr : io.readErrors = []) (hn : io.numBlocks ≤ n)
    (hblock : LastBlockOf io name block) (hc : m.lookup name = some c) (src : List UInt8) :
    ∃ io' buffer' block' status,
      diskWriteFile n ⟨io, buffer⟩ block src = some (⟨io', buffer'⟩, block', status) ∧
      SameDevice io io' ∧
      (status = .ok → Represents io' (m.insert name (c ++ src)) ∧ LastBlockOf io' name block') ∧
      ∀ {other : List UInt8} {b offset : Nat} {rest : List UInt8}, other ≠ name →
        Position io other b offset rest → Position io' other b offset rest := by
  obtain ⟨⟨free, files⟩, hL, f, hf, rfl, rfl⟩ := hblock
  have hmem := hf
  obtain ⟨pre, post, rfl⟩ := List.append_of_mem hf
  rcases diskWriteFile_eq buffer src hL hr hn with
    ⟨io', buffer', new, free', status, heq, -, hdev, hdesc, hframe, -⟩
  refine ⟨io', buffer', _, status, heq, hdev, fun hstatus => ?_, fun hne hposition => ?_⟩
  · rw [hstatus] at heq
    exact diskWriteFile_refines h hr ⟨_, hL, f, hmem, rfl, rfl⟩ hc heq
  · apply hposition.frame hL hdesc hdev
    intro g hg hname
    have hother := mem_others_of_name hg (hname.trans_ne hne)
    exact ⟨mem_of_mem_split hother, hframe g hother⟩

/-- `disk_read_file` returns, and reads from the position. -/
theorem diskReadFile_position (h : Position io name block offset rest) (hr : io.readErrors = [])
    (hn : io.numBlocks ≤ n) (size : Nat) :
    ∃ buffer' r, diskReadFile n ⟨io, buffer⟩ block offset size = some (⟨io, buffer'⟩, r) ∧
      r.data = rest.take size ∧ r.missing = size - rest.length ∧
      (size ≤ rest.length → Position io name r.block r.offset (rest.drop size)) := by
  rcases h with ⟨L, hL, g, hg, hname, hcursor⟩
  rcases hcursor.read buffer size hL hr hg hn with ⟨buffer', r, heq, hdata, hmissing, hcursor'⟩
  refine ⟨buffer', r, heq, hdata.trans readFrom_fst, hmissing, fun hsize => ?_⟩
  rw [readFrom_of_le hsize] at hcursor'
  exact ⟨L, hL, g, hg, hname, hcursor'⟩

/-- A position is made of two 64-bit numbers. -/
theorem Position.lt (h : Position io name block offset rest) : block < 2 ^ 64 ∧ offset < 2 ^ 64 := by
  rcases h with ⟨_, _, g, _, _, hcursor⟩
  exact hcursor.lt

end Toys.FileSystem
