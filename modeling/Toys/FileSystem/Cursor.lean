import Mathlib
import Toys.FileSystem.Refinement

namespace Toys.FileSystem

open Toys.Lib

/-!
# File system — reading a file in several times

`disk_read_file` leaves its position in the variables `*block` and `*offset`.  When it delivers
all the bytes it was asked for, the position is after them.  When it reaches the end of the
file first, it returns without updating `*offset`: the position stays where it was in the last
block, or at the start of the data of this block if the read started in another one.

* `readFrom` — a read on what remains of a file: the bytes delivered, and what remains then;
* `Cursor` — a position in a file, with what remains of its content;
* `Cursor.read` — `disk_read_file` computes `readFrom`;
* `readsFrom_flatten_iff` — when a sequence of reads delivers the bytes in order.
-/

variable {io : BlockIo} {buffer : DiskBlock} {n : Nat}

/-! ### A sequence of reads -/

/-- A read of `size` bytes when `rest` remains, the last `last` bytes of which at most are in
    the last block: the bytes delivered, and what remains after it. -/
def readFrom (last : Nat) (rest : List UInt8) (size : Nat) : List UInt8 × List UInt8 :=
  if size ≤ rest.length then (rest.take size, rest.drop size)
  else (rest, rest.drop (rest.length - last))

/-- The bytes delivered by successive reads. -/
def readsFrom (last : Nat) : (rest : List UInt8) → (sizes : List Nat) → List (List UInt8)
  | _, [] => []
  | rest, size :: sizes =>
    (readFrom last rest size).1 :: readsFrom last (readFrom last rest size).2 sizes

/-- What remains after successive reads. -/
def remaining (last : Nat) (rest : List UInt8) (sizes : List Nat) : List UInt8 :=
  sizes.foldl (fun rest size => (readFrom last rest size).2) rest

/-- No read but the last one reaches beyond the end of a file of length `length`, unless
    nothing remains before it or the last block is empty. -/
def ReadsFit (last length : Nat) (sizes : List Nat) : Prop :=
  ∀ before size after, sizes = before ++ size :: after → after ≠ [] → before.sum < length →
    length < before.sum + size → last = 0

section Reads

variable {last size : Nat} {rest : List UInt8} {sizes : List Nat}

/-- A read inside of the file. -/
theorem readFrom_of_le (h : size ≤ rest.length) :
    readFrom last rest size = (rest.take size, rest.drop size) := if_pos h

/-- A read that reaches the end of the file. -/
theorem readFrom_of_lt (h : rest.length < size) :
    readFrom last rest size = (rest, rest.drop (rest.length - last)) := if_neg (by omega)

/-- A read delivers all the bytes it was asked for, or all that remains. -/
theorem readFrom_fst : (readFrom last rest size).1 = rest.take size := by
  rcases le_or_gt size rest.length with h | h
  · rw [readFrom_of_le h]
  · rw [readFrom_of_lt h, List.take_of_length_le (le_of_lt h)]

/-- One more read gets what the others left. -/
theorem readsFrom_concat :
    readsFrom last rest (sizes ++ [size]) =
      readsFrom last rest sizes ++ [(readFrom last (remaining last rest sizes) size).1] := by
  induction sizes generalizing rest with
  | nil => rfl
  | cons s sizes ih =>
    rw [List.cons_append, readsFrom, ih]
    rfl

/-- What remains after one more read. -/
theorem remaining_concat :
    remaining last rest (sizes ++ [size]) = (readFrom last (remaining last rest sizes) size).2 := by
  rw [remaining, List.foldl_append]
  rfl

/-- Nothing is read after the end. -/
theorem readsFrom_nil : (readsFrom last [] sizes).flatten = [] := by
  induction sizes with
  | nil => rfl
  | cons size sizes ih =>
    have hrest : (readFrom last [] size).2 = [] := by
      unfold readFrom
      split <;> simp
    rw [readsFrom, readFrom_fst, hrest, List.take_nil, List.flatten_cons, ih]
    rfl

/-- Reads of at least one byte deliver nothing only if nothing remains. -/
theorem readsFrom_eq_nil_iff (hne : sizes ≠ []) (hpos : ∀ size ∈ sizes, 1 ≤ size) :
    (readsFrom last rest sizes).flatten = [] ↔ rest = [] := by
  constructor
  · intro h
    cases sizes with
    | nil => exact absurd rfl hne
    | cons size sizes =>
      have hsize := hpos size (by simp)
      rw [readsFrom, List.flatten_cons, List.append_eq_nil_iff, readFrom_fst,
        List.take_eq_nil_iff] at h
      exact h.1.resolve_left (by omega)
  · rintro rfl
    exact readsFrom_nil

/-- A read inside of the file is no obstacle. -/
theorem ReadsFit.cons_of_le {length : Nat} (h : size ≤ length) :
    ReadsFit last length (size :: sizes) ↔ ReadsFit last (length - size) sizes := by
  constructor
  · intro hfit before s after hsizes hne h1 h2
    apply hfit (size :: before) s after (by rw [hsizes]; rfl) hne
    · rw [List.sum_cons]; omega
    · rw [List.sum_cons]; omega
  · intro hfit before s after hsizes hne h1 h2
    cases before with
    | nil =>
      -- the first read does not reach the end
      obtain ⟨rfl, rfl⟩ : size = s ∧ sizes = after := by simpa using hsizes
      simp only [List.sum_nil] at h2
      omega
    | cons s' before =>
      obtain ⟨rfl, heq⟩ := List.cons.inj hsizes
      rw [List.sum_cons] at h1 h2
      exact hfit before s after heq hne (by omega) (by omega)

/-- After a read that reaches the end there must be no data left to read again. -/
theorem ReadsFit.cons_of_lt {length : Nat} (h : length < size) :
    ReadsFit last length (size :: sizes) ↔ (sizes ≠ [] → 0 < length → last = 0) := by
  constructor
  · intro hfit hne hpos
    exact hfit [] size sizes rfl hne hpos (by simpa using h)
  · intro hfit before s after hsizes hne h1 h2
    cases before with
    | nil =>
      obtain ⟨rfl, rfl⟩ : size = s ∧ sizes = after := by simpa using hsizes
      exact hfit hne h1
    | cons s' before =>
      obtain ⟨rfl, hsizes⟩ := List.cons.inj hsizes
      rw [List.sum_cons] at h1
      omega

/-- A sequence of reads delivers the bytes in order, each of them once, exactly when no read
    follows one that reaches beyond the end. -/
theorem readsFrom_flatten_iff (hpos : ∀ size ∈ sizes, 1 ≤ size) :
    (readsFrom last rest sizes).flatten = rest.take sizes.sum ↔
      ReadsFit last rest.length sizes := by
  induction sizes generalizing rest with
  | nil => simp [readsFrom, ReadsFit]
  | cons size sizes ih =>
    have hpos' : ∀ s ∈ sizes, 1 ≤ s := fun s hs => hpos s (by simp [hs])
    rcases le_or_gt size rest.length with h | h
    · have hlen : (rest.drop size).length = rest.length - size := List.length_drop
      rw [readsFrom, readFrom_of_le h, List.flatten_cons, List.sum_cons, List.take_add,
        List.append_cancel_left_eq, ih hpos', hlen, ReadsFit.cons_of_le h]
    · rw [readsFrom, readFrom_of_lt h, List.flatten_cons, List.sum_cons,
        List.take_of_length_le (by omega), ReadsFit.cons_of_lt h]
      rw [List.append_right_eq_self]
      -- something is delivered again unless this is the last read
      by_cases hne : sizes = []
      · simp [hne, readsFrom]
      · rw [readsFrom_eq_nil_iff hne hpos', List.drop_eq_nil_iff]
        constructor
        · intro hle _ hpos
          omega
        · intro hlast
          rcases Nat.eq_zero_or_pos rest.length with h0 | h0
          · omega
          · rw [hlast hne h0]
            exact Nat.le_refl _

end Reads

/-! ### Positions in a file -/

/-- The number of data bytes in the last block of the file. -/
def lastSize (io : BlockIo) (f : FileLayout) : Nat := blockSize (io.blocks f.last) - f.lastHeaderSize

/-- `size` is the number of data bytes in the last block of the file called `name`. -/
def LastSize (io : BlockIo) (name : List UInt8) (size : Nat) : Prop :=
  ∃ L, Describes io L ∧ ∃ f ∈ L.files, f.name = name ∧ lastSize io f = size

/-- The position `offset` of the block `block` is in the file `f`, and `rest` is what remains of
    its content from there. -/
def Cursor (io : BlockIo) (f : FileLayout) (block offset : Nat) (rest : List UInt8) : Prop :=
  ∃ before after, f.blocks = before ++ block :: after ∧ ChainOk io offset block after ∧
    chainContent io.blocks offset (block :: after) = rest ∧
    (if before = [] then 24 + f.name.length else 8) ≤ offset

section Cursors

variable {L : Layout} {f : FileLayout} {block offset size : Nat} {rest : List UInt8}

/-- The position at which a file is opened. -/
theorem Cursor.start (h : Describes io L) (hf : f ∈ L.files) :
    Cursor io f f.first (24 + f.name.length) (fileContent io.blocks f) :=
  ⟨[], f.rest, rfl, h.chainOk hf, rfl, le_refl _⟩

/-- A position in a file fits in the fields of a stream. -/
theorem Cursor.lt (h : Cursor io f block offset rest) : block < 2 ^ 64 ∧ offset < 2 ^ 64 := by
  obtain ⟨before, after, -, hchain, -⟩ := h
  have hblock := hchain.lt block (by simp)
  have hoffset := hchain.first
  have hused := usedSize_le (b := io.blocks block)
  have hsize := io.size_le
  constructor <;> omega

/-- A file that is kept has blocks of the same size. -/
theorem usedSize_frame {B B' : Nat → DiskBlock} (h : FileFrame B B' f) {b : Nat} (hb : b ∈ f.blocks) :
    usedSize (B' b) = usedSize (B b) := by
  rcases List.mem_cons.mp hb with rfl | hb
  · rcases h.1 with heq | ⟨v, heq⟩
    · rw [heq]
    · simp [heq, usedSize, blockGetNext, blockSize]
  · rw [h.2 b hb]

/-- A position in a file is still one when the file is framed. -/
theorem Cursor.frame {io' : BlockIo} (hdev : SameDevice io io') (hframe : FileFrame io.blocks io'.blocks f)
    (hc : Cursor io f block offset rest) : Cursor io' f block offset rest := by
  obtain ⟨before, after, hblocks, hchain, hrest, hoffset⟩ := hc
  have hmem : ∀ x ∈ block :: after, x ∈ f.blocks := by
    intro x hx
    rw [hblocks]
    exact List.mem_append_right before hx
  have hnext : ∀ x ∈ block :: after, nextOf io'.blocks x = nextOf io.blocks x := by
    intro x hx
    rcases List.mem_cons.mp (hmem x hx) with rfl | hx
    · exact nextOf_congr hframe.1
    · rw [nextOf, nextOf, hframe.2 x hx]
  have hused : ∀ x ∈ block :: after, usedSize (io'.blocks x) = usedSize (io.blocks x) := by
    intro x hx
    exact usedSize_frame hframe (hmem x hx)
  refine ⟨before, after, hblocks, ⟨fun x hx => ?_, ?_, ?_, fun x hx => ?_⟩, ?_, hoffset⟩
  · rw [hdev.1]
    exact hchain.lt x hx
  · rw [hnext block List.mem_cons_self]
    exact hchain.path.congr fun x hx => hnext x (List.mem_cons_of_mem _ hx)
  · rw [hused block List.mem_cons_self]
    exact hchain.first
  · rw [hused x (List.mem_cons_of_mem _ hx)]
    exact hchain.others x hx
  · rw [← hrest]
    cases before with
    | cons y before =>
      -- the position is not in the first block
      have hafter : f.rest = before ++ block :: after := (List.cons.inj hblocks).2
      apply chainContent_congr
      intro x hx
      apply hframe.2
      rw [hafter]
      exact List.mem_append_right before hx
    | nil =>
      obtain ⟨rfl, rfl⟩ := List.cons.inj hblocks
      have hge : 24 + f.name.length ≤ offset := hoffset
      have hle := hchain.first.trans usedSize_le
      rw [chainContent, chainContent, chainContent_congr hframe.2]
      congr 1
      rcases hframe.1 with heq | ⟨v, heq⟩
      · rw [heq]
      · rw [heq, blockContent_setNextFile (by omega) hle]

/-- The last block of a chain is the one of the file. -/
theorem Cursor.last_eq {before after : List Nat} (h : f.blocks = before ++ block :: after) :
    f.last = lastFrom block after := by
  have hlast : f.last = lastFrom f.first f.rest := rfl
  cases before with
  | nil =>
    obtain ⟨hfirst, hrest⟩ := List.cons.inj h
    rw [hlast, hfirst, hrest]
  | cons x before =>
    have hrest : f.rest = before ++ block :: after := (List.cons.inj h).2
    rw [hlast, hrest, lastFrom_append]
    simp only [lastFrom, List.getLastD_cons]

/-- The data of the last block is the end of the content of a chain of several blocks. -/
theorem chainContent_eq_append_last {B : Nat → DiskBlock} {h b : Nat} {bs : List Nat}
    (hne : bs ≠ []) :
    ∃ start, chainContent B h (b :: bs) = start ++ blockContent (B (lastFrom b bs)) 8 := by
  obtain ⟨init, x, rfl⟩ := List.eq_nil_or_concat bs |>.resolve_left hne
  refine ⟨chainContent B h (b :: init), ?_⟩
  rw [List.concat_eq_append, ← List.cons_append, chainContent_append]
  simp [chainContent, lastFrom]

/-- The position that the loop of `disk_read_file` reaches. -/
theorem diskReadFileLoop_position {b offset size : Nat} {chain : List Nat} {data : List UInt8}
    {r : Disk × ReadResult} (hr : io.readErrors = []) (h : ChainOk io offset b chain)
    (hrun : diskReadFileLoop n ⟨io, buffer⟩ b offset data size = some r) :
    ∃ before after, b :: chain = before ++ r.2.block :: after ∧
      ChainOk io r.2.offset r.2.block after ∧ (if before = [] then offset else 8) ≤ r.2.offset ∧
      (size ≤ (chainContent io.blocks offset (b :: chain)).length →
        chainContent io.blocks r.2.offset (r.2.block :: after) =
          (chainContent io.blocks offset (b :: chain)).drop size) ∧
      ((chainContent io.blocks offset (b :: chain)).length < size →
        after = [] ∧ r.2.offset = if chain = [] then offset else 8) := by
  induction n generalizing b offset size data buffer chain with
  | zero => simp [diskReadFileLoop] at hrun
  | succ n ih =>
    have hfirst := h.first
    have hused := usedSize_le (b := io.blocks b)
    -- in both cases the bytes available are those of the block from the offset on
    have havail : (if blockGetNext (io.blocks b) = 0 then U64.sub (blockSize (io.blocks b)) offset
        else U64.sub 512 offset) = usedSize (io.blocks b) - offset := by
      unfold usedSize at hfirst hused ⊢
      split
      · rw [if_pos ‹_›] at hfirst hused
        exact U64.sub_eq hfirst (by omega)
      · rw [if_neg ‹_›] at hfirst
        exact U64.sub_eq hfirst (by decide)
    simp only [diskReadFileLoop, diskReadBlockBuffer_eq hr (h.lt b (by simp)), havail] at hrun
    have hcontent : chainContent io.blocks offset (b :: chain) =
      blockContent (io.blocks b) offset ++ chainContent io.blocks 8 chain := rfl
    have hlen : (blockContent (io.blocks b) offset).length = usedSize (io.blocks b) - offset :=
      blockContent_length
    by_cases hs : usedSize (io.blocks b) - offset ≥ size
    · -- the block has enough bytes: the offset moves on
      rw [if_pos hs, Option.some_inj] at hrun
      subst hrun
      have hadd : U64.add offset size = offset + size := U64.add_eq (by omega)
      have hdrop : blockContent (io.blocks b) (offset + size) =
          (blockContent (io.blocks b) offset).drop size := by
        have hsplit : usedSize (io.blocks b) - offset =
          size + (usedSize (io.blocks b) - (offset + size)) := by omega
        rw [blockContent, blockContent, hsplit, DiskBlock.read_add,
          List.drop_left' DiskBlock.read_length]
      simp only [hadd]
      refine ⟨[], chain, rfl, ⟨h.lt, h.path, by omega, h.others⟩, by simp, ?_, ?_⟩
      · intro _
        rw [hcontent, chainContent, hdrop, List.drop_append_of_le_length (by omega)]
      · rw [hcontent, List.length_append]
        omega
    rw [if_neg hs] at hrun
    cases chain with
    | nil =>
      -- the end of the file: the position does not change
      have hnext : blockGetNext (io.blocks b) = 0 := h.path
      rw [if_pos hnext, Option.some_inj] at hrun
      subst hrun
      refine ⟨[], [], rfl, h, by simp, ?_, fun _ => ⟨rfl, rfl⟩⟩
      rw [hcontent, List.length_append, hlen]
      simp only [chainContent, List.length_nil]
      omega
    | cons x chain =>
      obtain ⟨hnext, hx, -⟩ := h.path
      have hnext : blockGetNext (io.blocks b) = x := hnext
      rw [hnext, if_neg hx] at hrun
      obtain ⟨before, after, heq, hchain, hge, hle, hlt⟩ := ih h.tail hrun
      refine ⟨b :: before, after, by rw [heq]; rfl, hchain, ?_, ?_, ?_⟩
      · simpa using hge
      · intro hsize
        rw [hcontent, List.length_append, hlen] at hsize
        have hnone : (blockContent (io.blocks b) offset).drop size = [] :=
          List.drop_of_length_le (by rw [hlen]; omega)
        rw [hle (by omega), hcontent, List.drop_append, hlen, hnone, List.nil_append]
      · intro hsize
        rw [hcontent, List.length_append, hlen] at hsize
        obtain ⟨hafter, hoffset⟩ := hlt (by omega)
        exact ⟨hafter, by simpa using hoffset⟩

/-- What remains after a read that reaches the end is in the last block. -/
theorem Cursor.drop_last {before after : List Nat} {rest : List UInt8} (h : Describes io L)
    (hf : f ∈ L.files) (hblocks : f.blocks = before ++ block :: after)
    (hchain : ChainOk io offset block after)
    (hrest : chainContent io.blocks offset (block :: after) = rest)
    (hoffset : (if before = [] then 24 + f.name.length else 8) ≤ offset) :
    rest.drop (rest.length - lastSize io f) =
      blockContent (io.blocks f.last) (if after = [] then offset else 8) := by
  have hlast := Cursor.last_eq hblocks
  have husedSize : usedSize (io.blocks f.last) = blockSize (io.blocks f.last) := by
    obtain ⟨free, files⟩ := L
    obtain ⟨pre, post, rfl⟩ := List.append_of_mem hf
    have hnext : blockGetNext (io.blocks f.last) = 0 := h.last_next
    rw [usedSize, if_pos hnext]
  by_cases hnil : after = []
  · -- the read starts in the last block, and nothing is dropped
    subst hnil
    have hblock : f.last = block := hlast
    have hheader : f.lastHeaderSize ≤ offset := by
      unfold FileLayout.lastHeaderSize
      cases before with
      | nil =>
        obtain ⟨-, hfrest⟩ := List.cons.inj hblocks
        rw [if_pos hfrest]
        simpa using hoffset
      | cons x before =>
        obtain ⟨-, hfrest⟩ := List.cons.inj hblocks
        rw [if_neg (by rw [hfrest]; simp)]
        simpa using hoffset
    have hlen : rest.length ≤ lastSize io f := by
      rw [← hrest, lastSize, ← husedSize, hblock]
      simp only [chainContent, List.append_nil, blockContent_length]
      omega
    rw [Nat.sub_eq_zero_of_le hlen, List.drop_zero, ← hrest, hblock]
    simp [chainContent]
  · have hheader : f.lastHeaderSize = 8 := by
      have hne : f.rest ≠ [] := by
        intro hfrest
        have hlen := congrArg List.length hblocks
        simp only [FileLayout.blocks, hfrest, List.length_append, List.length_cons,
          List.length_nil] at hlen
        have := List.length_pos_of_ne_nil hnil
        omega
      exact if_neg hne
    obtain ⟨start, hstart⟩ := chainContent_eq_append_last (B := io.blocks) (h := offset) (b := block) hnil
    rw [← hlast] at hstart
    have hlen : (blockContent (io.blocks f.last) 8).length = lastSize io f := by
      rw [blockContent_length, lastSize, husedSize, hheader]
    rw [if_neg hnil, ← hrest, hstart, List.length_append, hlen, Nat.add_sub_cancel, List.drop_left]

/-- `disk_read_file` from a position in a file. -/
theorem Cursor.read (buffer : DiskBlock) (size : Nat) (h : Describes io L) (hr : io.readErrors = []) (hf : f ∈ L.files)
    (hc : Cursor io f block offset rest) (hn : io.numBlocks ≤ n) :
    ∃ buffer' r, diskReadFile n ⟨io, buffer⟩ block offset size = some (⟨io, buffer'⟩, r) ∧
      r.data = (readFrom (lastSize io f) rest size).1 ∧ r.missing = size - rest.length ∧
      Cursor io f r.block r.offset (readFrom (lastSize io f) rest size).2 := by
  obtain ⟨before, after, hblocks, hchain, hrest, hoffset⟩ := hc
  have hnd := h.blocks_nodup hf
  have hlen := h.blocks_length_lt hf
  rw [hblocks] at hnd hlen
  rw [List.length_append, List.length_cons] at hlen
  obtain ⟨buffer', r, heq, hread⟩ := @diskReadFileLoop_eq _ buffer n _ _ size _ [] hr hchain
    (List.nodup_append'.mp hnd).2.1 (by omega)
  obtain ⟨before', after', hsplit, hchain', hge, hle, hlt⟩ := diskReadFileLoop_position hr hchain heq
  refine ⟨buffer', r, heq, ?_, ?_, before ++ before', after', ?_, hchain', ?_, ?_⟩
  · rw [hread.data_eq, hrest, List.nil_append, readFrom_fst]
  · rw [hread.missing_eq, hrest]
  · rw [hblocks, hsplit, List.append_assoc]
  · rcases le_or_gt size rest.length with hs | hs
    · rw [readFrom_of_le hs, ← hrest]
      exact hle (by rw [hrest]; exact hs)
    · obtain ⟨rfl, hoff⟩ := hlt (by rw [hrest]; exact hs)
      have hblocks' : f.blocks = (before ++ before') ++ [r.block] := by
        rw [hblocks, hsplit, List.append_assoc]
      have hlast : f.last = r.block := Cursor.last_eq hblocks'
      rw [readFrom_of_lt hs, Cursor.drop_last h hf hblocks hchain hrest hoffset, ← hoff, hlast]
      simp [chainContent]
  · -- the offset is after the header
    cases before with
    | cons x before =>
      simp only [List.cons_append, reduceCtorEq, if_false] at hoffset hge ⊢
      split at hge <;> omega
    | nil =>
      simp only [List.nil_append, if_true] at hoffset hge ⊢
      split at hge
      · rw [if_pos ‹_›]; omega
      · rw [if_neg ‹_›]; omega

end Cursors

end Toys.FileSystem
