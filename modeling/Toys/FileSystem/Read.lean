import Mathlib
import Toys.FileSystem.Find

namespace Toys.FileSystem

open Toys.Lib

/-!
# File system — reading a file

The size of a file is computed by adding the sizes of the data of its blocks; reading goes
along the chain from a position in one of its blocks.

* `ChainOk` — a chain whose blocks have headers of the expected sizes;
* `diskGetFileSizeLoop_eq`, `diskGetFileSize_eq` — the size is the length of the content;
* `diskReadFileLoop_eq`, `diskReadFile_eq` — which bytes are read, and where the position is
  after the read.
-/

variable {io : BlockIo} {buffer : DiskBlock} {n : Nat}

/-- The blocks `b :: rest` are a chain, whose first block has at least `headerSize` used
    bytes and the others at least 8. -/
structure ChainOk (io : BlockIo) (headerSize b : Nat) (rest : List Nat) : Prop where
  lt : ∀ x ∈ b :: rest, x < io.numBlocks
  path : Path 0 (nextOf io.blocks) (nextOf io.blocks b) rest 0
  first : headerSize ≤ usedSize (io.blocks b)
  others : ∀ x ∈ rest, 8 ≤ usedSize (io.blocks x)

/-- The rest of a chain has the short headers. -/
theorem ChainOk.tail {headerSize b x : Nat} {rest : List Nat}
    (h : ChainOk io headerSize b (x :: rest)) : ChainOk io 8 x rest :=
  ⟨fun y hy => h.lt y (by simp_all), h.path.2.2, h.others x (by simp),
    fun y hy => h.others y (by simp [hy])⟩

/-- A block of a file other than the last one is full. -/
theorem Describes.usedSize_eq {L : Layout} (h : Describes io L) {f : FileLayout} (hf : f ∈ L.files)
    {x : Nat} (hx : x ∈ f.blocks) (hne : x ≠ f.last) : usedSize (io.blocks x) = 512 := by
  have hpath : Path 0 (nextOf io.blocks) f.first f.blocks 0 :=
    ⟨rfl, h.block_ne_super hf (by simp [FileLayout.blocks]), (h.files_ok f hf).chain⟩
  refine if_neg fun h0 => hne ?_
  have hlast := hpath.eq_getLast hx h0
  rw [FileLayout.blocks, List.getLast?_cons, Option.some_inj] at hlast
  rw [← hlast, FileLayout.last, List.getLastD_eq_getLast?]

/-- The last block of a file holds its header. -/
theorem Describes.usedSize_last {L : Layout} (h : Describes io L) {f : FileLayout}
    (hf : f ∈ L.files) : f.lastHeaderSize ≤ usedSize (io.blocks f.last) := by
  have hok := h.files_ok f hf
  have hle := hok.name_le
  unfold usedSize
  split
  · exact hok.size_ge
  · unfold FileLayout.lastHeaderSize
    split <;> omega

/-- The chain of a file. -/
theorem Describes.chainOk {L : Layout} (h : Describes io L) {f : FileLayout} (hf : f ∈ L.files) :
    ChainOk io (24 + f.name.length) f.first f.rest := by
  have hok := h.files_ok f hf
  have hle := hok.name_le
  have hlast := h.usedSize_last hf
  refine ⟨fun x hx => (h.block_lt hf hx).2, hok.chain, ?_, fun x hx => ?_⟩
  · by_cases heq : f.first = f.last
    · rw [FileLayout.lastHeaderSize, if_pos (h.rest_eq_nil hf heq)] at hlast
      rw [heq]; exact hlast
    · rw [h.usedSize_eq hf (by simp [FileLayout.blocks]) heq]
      omega
  · by_cases heq : x = f.last
    · rw [heq]; exact le_trans (by unfold FileLayout.lastHeaderSize; split <;> omega) hlast
    · rw [h.usedSize_eq hf (by simp [FileLayout.blocks, hx]) heq]
      omega

/-! ### The size of a file -/

/-- The size of the data of a block. -/
theorem blockContent_length {b : DiskBlock} {headerSize : Nat} :
    (blockContent b headerSize).length = usedSize b - headerSize := DiskBlock.read_length

/-- The loop of `disk_get_file_size` adds the size of what remains. -/
theorem diskGetFileSizeLoop_eq {headerSize b : Nat} (fileSize : Nat) {rest : List Nat}
    (hr : io.readErrors = []) (h : ChainOk io headerSize b rest) (hn : rest.length < n)
    (hsize : fileSize + 512 * (rest.length + 1) < 2 ^ 64) :
    ∃ buffer', diskGetFileSizeLoop n ⟨io, io.blocks b⟩ fileSize headerSize =
      some (⟨io, buffer'⟩, fileSize + (chainContent io.blocks headerSize (b :: rest)).length) := by
  induction rest generalizing n b headerSize fileSize with
  | nil =>
    obtain ⟨n, rfl⟩ : ∃ k, n = k + 1 := ⟨n - 1, by simp at hn; omega⟩
    have hnext : blockGetNext (io.blocks b) = 0 := h.path
    have hfirst := h.first
    have hused := usedSize_le (b := io.blocks b)
    rw [usedSize, if_pos hnext] at hfirst hused
    simp only [List.length_nil] at hsize
    have hlen : (chainContent io.blocks headerSize [b]).length =
        blockSize (io.blocks b) - headerSize := by
      simp only [chainContent, List.append_nil, blockContent_length, usedSize, if_pos hnext]
    have hadd : U64.add fileSize (blockSize (io.blocks b)) = fileSize + blockSize (io.blocks b) :=
      U64.add_eq (by omega)
    have hsub : U64.sub (fileSize + blockSize (io.blocks b)) headerSize =
        fileSize + (blockSize (io.blocks b) - headerSize) := by
      rw [U64.sub_eq (by omega) (by omega), Nat.add_sub_assoc hfirst]
    exact ⟨io.blocks b, by
      simp only [diskGetFileSizeLoop, hnext, if_true, hadd, hsub, hlen]⟩
  | cons x rest ih =>
    obtain ⟨n, rfl⟩ : ∃ k, n = k + 1 := ⟨n - 1, by simp at hn; omega⟩
    obtain ⟨hnext, hx, -⟩ := h.path
    have hnext : blockGetNext (io.blocks b) = x := hnext
    have hused : usedSize (io.blocks b) = 512 := by rw [usedSize, if_neg (by rw [hnext]; exact hx)]
    have hle : headerSize ≤ 512 := by rw [← hused]; exact h.first
    rw [List.length_cons] at hn
    rw [List.length_cons, Nat.mul_succ, ← Nat.add_assoc] at hsize
    obtain ⟨buffer', heq⟩ := ih (n := n) (fileSize + (512 - headerSize)) h.tail
      (by omega) (by have := Nat.sub_le 512 headerSize; linarith)
    -- no sum overflows, since the sizes of the remaining blocks are bounded
    have hadd : U64.add fileSize 512 = fileSize + 512 := U64.add_eq (by omega)
    have hsub : U64.sub (fileSize + 512) headerSize = fileSize + (512 - headerSize) := by
      rw [U64.sub_eq (by omega) (by omega), Nat.add_sub_assoc hle]
    have hlen : (chainContent io.blocks headerSize (b :: x :: rest)).length =
        512 - headerSize + (chainContent io.blocks 8 (x :: rest)).length := by
      rw [chainContent, List.length_append, blockContent_length, hused]
    refine ⟨buffer', ?_⟩
    simp only [diskGetFileSizeLoop, hnext, if_neg hx, diskReadBlockBuffer_eq hr (h.lt x (by simp)),
      hadd, hsub, heq, hlen, Nat.add_assoc]

/-! ### Reading -/

/-- What a read of `size` bytes from the offset `offset` of the block `b` of a chain gives:
    the first `size` bytes of the rest of the chain, or all of them, and a position in the
    chain. -/
structure ReadOk (io : BlockIo) (b offset : Nat) (rest : List Nat) (size : Nat)
    (data : List UInt8) (r : ReadResult) : Prop where
  data_eq : r.data = data ++ (chainContent io.blocks offset (b :: rest)).take size
  missing_eq : r.missing = size - (chainContent io.blocks offset (b :: rest)).length
  block_mem : r.block ∈ b :: rest
  offset_ge : (if r.block ∈ rest then 8 else offset) ≤ r.offset
  offset_le : r.offset ≤ usedSize (io.blocks r.block)

/-- The loop of `disk_read_file` reads what remains, up to the size. -/
theorem diskReadFileLoop_eq {b offset size : Nat} {rest : List Nat} {data : List UInt8}
    (hr : io.readErrors = []) (h : ChainOk io offset b rest) (hnd : (b :: rest).Nodup)
    (hn : rest.length < n) :
    ∃ buffer' r, diskReadFileLoop n ⟨io, buffer⟩ b offset data size = some (⟨io, buffer'⟩, r) ∧
      ReadOk io b offset rest size data r := by
  -- the induction is on the blocks that remain after the current one
  induction rest generalizing n b offset size data buffer with
  | nil =>
    obtain ⟨n, rfl⟩ : ∃ k, n = k + 1 := ⟨n - 1, by simp at hn; omega⟩
    have hnext : blockGetNext (io.blocks b) = 0 := h.path
    have hfirst := h.first
    have hle := usedSize_le (b := io.blocks b)
    have hused : usedSize (io.blocks b) = blockSize (io.blocks b) := by rw [usedSize, if_pos hnext]
    have havail : U64.sub (blockSize (io.blocks b)) offset = usedSize (io.blocks b) - offset := by
      rw [hused, U64.sub_eq (by omega) (by omega)]
    have hcontent : chainContent io.blocks offset [b] = blockContent (io.blocks b) offset := by
      simp [chainContent]
    simp only [diskReadFileLoop, diskReadBlockBuffer_eq hr (h.lt b (by simp)), hnext, if_true,
      havail]
    by_cases hs : size ≤ usedSize (io.blocks b) - offset
    · rw [if_pos hs, U64.add_eq (by omega)]
      refine ⟨_, _, rfl, ?_, ?_, by simp, by simp, by simp only; omega⟩
      · rw [hcontent, blockContent, DiskBlock.take_read hs]
      · rw [hcontent, blockContent_length]
        simp only
        omega
    · rw [if_neg hs]
      refine ⟨_, _, rfl, ?_, ?_, by simp, by simp, by omega⟩
      · rw [hcontent, List.take_of_length_le (by rw [blockContent_length]; omega)]
        rfl
      · rw [hcontent, blockContent_length]
  | cons x rest ih =>
    obtain ⟨n, rfl⟩ : ∃ k, n = k + 1 := ⟨n - 1, by simp at hn; omega⟩
    obtain ⟨hnext, hx, -⟩ := h.path
    have hnext : blockGetNext (io.blocks b) = x := hnext
    have hused : usedSize (io.blocks b) = 512 := by rw [usedSize, if_neg (by rw [hnext]; exact hx)]
    have hfirst := h.first
    obtain ⟨hnot, hnd'⟩ := List.nodup_cons.mp hnd
    have havail : U64.sub 512 offset = usedSize (io.blocks b) - offset := by
      rw [hused, U64.sub_eq (by omega) (by omega)]
    have hcontent : chainContent io.blocks offset (b :: x :: rest) =
      blockContent (io.blocks b) offset ++ chainContent io.blocks 8 (x :: rest) := rfl
    simp only [diskReadFileLoop, diskReadBlockBuffer_eq hr (h.lt b (by simp)), hnext, if_neg hx,
      havail]
    by_cases hs : size ≤ usedSize (io.blocks b) - offset
    · rw [if_pos hs, U64.add_eq (by omega)]
      refine ⟨_, _, rfl, ?_, ?_, by simp, ?_, by simp only; omega⟩
      · rw [hcontent, List.take_append_of_le_length (by rw [blockContent_length]; exact hs),
          blockContent, DiskBlock.take_read hs]
      · rw [hcontent, List.length_append, blockContent_length]
        simp only
        omega
      · simp only [if_neg hnot]
        omega
    · rw [if_neg hs]
      obtain ⟨buffer', r, heq, hdata, hmissing, hmem, hge, hle⟩ := ih (n := n)
        h.tail hnd' (by simp at hn; omega)
      refine ⟨buffer', r, heq, ?_, ?_, List.mem_cons_of_mem _ hmem, ?_, hle⟩
      · rw [hdata, hcontent, List.take_append, blockContent_length,
          List.take_of_length_le (l := blockContent _ _) (by rw [blockContent_length]; omega),
          List.append_assoc]
        rfl
      · rw [hmissing, hcontent, List.length_append, blockContent_length]
        omega
      · rw [if_pos hmem]
        split at hge
        · exact hge
        · exact hge

end Toys.FileSystem
