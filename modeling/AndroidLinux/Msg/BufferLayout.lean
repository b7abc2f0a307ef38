import AndroidLinux.Lib.Packing
import AndroidLinux.Msg.Buffer

/-!
# The layout of a fresh buffer pool

`MB_Init` multiplies and adds the sizes of a configuration in 32 bits, and its limits on
the numbers and the sizes of blocks let these results wrap.  They are exact, and the
blocks are packed in the allocation, exactly for the configurations whose total size is a
`size_t`.
-/

namespace AndroidLinux
namespace Msg

open Lib

namespace VtopMsgBuffer

variable (b : VtopMsgBuffer)

/-- The bytes of a level: the heads and the messages of its blocks. -/
def levelBytes (i : Nat) : Nat :=
  b.blockNum i * (mbHeadLen + b.blockSize i)

/-- The bytes of all levels. -/
def totalBytes : Nat :=
  ∑ i ∈ Finset.range b.bufLevel, b.levelBytes i

/-- Every block of every level, by level and number. -/
def everyBlock : Finset (Σ _ : Nat, Nat) :=
  (Finset.range b.bufLevel).sigma fun i => Finset.range (b.blockNum i)

theorem exactHead_eq_sum (i : Nat) :
    b.exactHead i = ∑ k ∈ Finset.range i, b.levelBytes k := by
  induction i with
  | zero => rfl
  | succ i ih => rw [Finset.sum_range_succ, exactHead, ih, levelBytes]

theorem exactHead_lt {b : VtopMsgBuffer} (hfit : b.totalBytes < sizeTBound) :
    b.exactHead b.bufLevel < sizeTBound := by
  rw [b.exactHead_eq_sum]
  exact hfit

theorem mem_everyBlock (i j : Nat) :
    ⟨i, j⟩ ∈ b.everyBlock ↔ i < b.bufLevel ∧ j < b.blockNum i := by
  simp [everyBlock]

theorem sum_everyBlock : ∑ ij ∈ b.everyBlock, (mbHeadLen + b.blockSize ij.1) = b.totalBytes := by
  rw [everyBlock, Finset.sum_sigma, totalBytes]
  simp [levelBytes]

theorem pMbHead_lt (i : Nat) : b.pMbHead i < sizeTBound := by
  cases i with
  | zero => simp [pMbHead, sizeTBound]
  | succ i => exact Nat.mod_lt _ (by simp [sizeTBound])

end VtopMsgBuffer

namespace MbContext

variable (c : MbContext) (b : VtopMsgBuffer)

/-- No product, no sum and no offset that `MB_Init` computes has wrapped. -/
structure NoWrap : Prop where
  product : ∀ i, i < b.bufLevel → (c.mb i).buffersize = b.levelBytes i
  sum : c.totalSize = b.totalBytes
  offset : ∀ i j, i < b.bufLevel → j < b.blockNum i →
    c.addr i j =
      ∑ k ∈ Finset.range i, b.levelBytes k + j * (mbHeadLen + b.blockSize i)

/-- The blocks of all levels, heads included, are packed in `s_pMsgBuf`. -/
def BlocksPacked : Prop :=
  Packed b.everyBlock (fun ij => c.addr ij.1 ij.2) (fun ij => mbHeadLen + b.blockSize ij.1)
    c.totalSize

end MbContext

section Fresh

variable {b : VtopMsgBuffer} {malloc : MbMalloc → Bool} {c : MbContext}

/-- The total size of a fresh pool is a `size_t`. -/
theorem totalSize_lt (h : mbInit b malloc = .ok c) : c.totalSize < sizeTBound := by
  rw [(inited_of_mbInit h).totalSize]
  exact b.pMbHead_lt _

theorem noWrap_of_fits (h : mbInit b malloc = .ok c) (hfit : b.totalBytes < sizeTBound) :
    c.NoWrap b := by
  obtain ⟨hacc, hlevel, -, htotal, -, -, -⟩ := inited_of_mbInit h
  have hexact := VtopMsgBuffer.exactHead_lt hfit
  constructor
  · intro i hi
    rw [hlevel i hi]
    exact VtopMsgBuffer.eachMbSize_eq hacc hexact hi
  · rw [htotal, VtopMsgBuffer.pMbHead_eq hacc hexact le_rfl, b.exactHead_eq_sum]
    rfl
  · intro i j hi hj
    unfold MbContext.addr
    rw [hlevel i hi, VtopMsgBuffer.pMsg_eq hacc hexact hi hj, b.exactHead_eq_sum]

theorem blocksPacked_of_fits (h : mbInit b malloc = .ok c)
    (hfit : b.totalBytes < sizeTBound) : c.BlocksPacked b := by
  have hexact := VtopMsgBuffer.exactHead_lt hfit
  have hlayout := mbInit_layout h hexact
  have hnoWrap := noWrap_of_fits h hfit
  obtain ⟨hacc, hlevel, -, -, -, hnum, -⟩ := inited_of_mbInit h
  have hblock : ∀ i j, ⟨i, j⟩ ∈ b.everyBlock → c.IsBlock i j ∧
      (c.mb i).blocksize = mbHeadLen + b.blockSize i := by
    intro i j hij
    obtain ⟨hi, hj⟩ := (b.mem_everyBlock i j).mp hij
    have hsize : (c.mb i).blocksize = mbHeadLen + b.blockSize i := by
      rw [hlevel i hi]
      exact VtopMsgBuffer.mbBlockSize_of_accepted hacc hi
    refine ⟨⟨by omega, ?_, ?_⟩, hsize⟩
    · rw [hnoWrap.product i hi, VtopMsgBuffer.levelBytes]
      exact Nat.mul_pos (by omega) (by simp [mbHeadLen])
    · rw [hlevel i hi]
      exact hj
  -- what a fresh pool has as its layout, for the blocks of every level
  constructor
  · rintro ⟨i, j⟩ hij
    obtain ⟨hb, hsize⟩ := hblock i j hij
    rw [← hsize]
    exact hlayout.inside i j hb
  · rintro ⟨i, j⟩ hij ⟨i', j'⟩ hij' hne
    obtain ⟨hb, hsize⟩ := hblock i j hij
    obtain ⟨hb', hsize'⟩ := hblock i' j' hij'
    rw [← hsize, ← hsize']
    refine hlayout.disjoint i j i' j' hb hb' ?_
    intro heq
    obtain ⟨rfl, rfl⟩ := Prod.mk.injEq .. ▸ heq
    exact hne rfl

/-- Packed blocks leave no room for a total size beyond `size_t`. -/
theorem fits_of_blocksPacked (h : mbInit b malloc = .ok c) (hpacked : c.BlocksPacked b) :
    b.totalBytes < sizeTBound := by
  calc b.totalBytes
      = ∑ ij ∈ b.everyBlock, (mbHeadLen + b.blockSize ij.1) := b.sum_everyBlock.symm
    _ ≤ c.totalSize := hpacked.sum_le
    _ < sizeTBound := totalSize_lt h

/-- A fresh pool is computed without a wrap, and its blocks are packed, exactly if the
total size is a `size_t`. -/
theorem mbInit_sound_iff (h : mbInit b malloc = .ok c) :
    (c.NoWrap b ↔ b.totalBytes < sizeTBound) ∧
      (c.BlocksPacked b ↔ b.totalBytes < sizeTBound) := by
  refine ⟨⟨fun hnoWrap => ?_, noWrap_of_fits h⟩,
    ⟨fits_of_blocksPacked h, blocksPacked_of_fits h⟩⟩
  rw [← hnoWrap.sum]
  exact totalSize_lt h

end Fresh

/-- One level with the largest number of blocks of the largest size. -/
def largestBuffer : VtopMsgBuffer where
  blockNum i := if i = 0 then msgMaxBlkNum else 0
  blockSize i := if i = 0 then msgMaxBlkSize else 0

/-- The default levels of the message buffers. -/
def usualBuffer : VtopMsgBuffer where
  blockNum i := [256, 128, 64, 16].getD i 0
  blockSize i := [256, 512, 1024, 4096].getD i 0

/-- The context that `MB_Init` returns when every allocation succeeds. -/
def poolOf (b : VtopMsgBuffer) : MbContext where
  mb i := if i < b.bufLevel then b.level i else ⟨fun _ => 0, 0, 0, 0, 0⟩
  totalSize := b.pMbHead b.bufLevel
  totalNum := ((List.range b.bufLevel).map b.blockNum).sum
  mbNum := b.bufLevel
  head := b.initHeads

theorem mbInit_usualBuffer : mbInit usualBuffer (fun _ => true) = .ok (poolOf usualBuffer) :=
  rfl

theorem mbInit_sound_usualBuffer :
    ((poolOf usualBuffer).NoWrap usualBuffer ↔ usualBuffer.totalBytes < sizeTBound) ∧
      ((poolOf usualBuffer).BlocksPacked usualBuffer ↔ usualBuffer.totalBytes < sizeTBound) :=
  mbInit_sound_iff mbInit_usualBuffer

theorem largestBuffer_overlaps :
    mbInit largestBuffer (fun _ => true) = .ok (poolOf largestBuffer) ∧
      ¬ (poolOf largestBuffer).NoWrap largestBuffer ∧
      ¬ (poolOf largestBuffer).BlocksPacked largestBuffer := by
  have hinit : mbInit largestBuffer (fun _ => true) = .ok (poolOf largestBuffer) := rfl
  have hlarge : ¬ largestBuffer.totalBytes < sizeTBound := by decide
  refine ⟨hinit, fun hnoWrap => hlarge ?_, fun hpacked => hlarge ?_⟩
  · rw [← hnoWrap.sum]
    exact totalSize_lt hinit
  · exact fits_of_blocksPacked hinit hpacked

end Msg
end AndroidLinux
