import AndroidLinux.Msg.Types

/-!
# Message buffer pools

The pools of `msg_buffer.c`.  A pool is one allocation `s_pMsgBuf` that is cut into
at most four levels of equally sized blocks.  Each block starts with an `MB_HEAD_S`
(the flag, the ids of the block and the queue node), and the message lies behind
it.  Addresses are offsets in `s_pMsgBuf`, and `size_t` has 32 bits.

`MbContext.Layout` says what the code relies on everywhere: different blocks do
not overlap, and every block lies inside the allocation.  `mbInit_layout` proves
it for every configuration whose total size fits in a `size_t`, and no later
operation changes it.
-/

namespace AndroidLinux
namespace Msg

/-- `MB_HEAD_LEN`: `flag`, `buffer_id`, `block_id`, `priv_data` and the two list
pointers, one word each. -/
def mbHeadLen : Nat := 24

/-- `VTOP_MSG_BL_BUTT`, the number of buffer levels. -/
def vtopMsgBlButt : Nat := 4

/-- `MSG_MAX_BLK_NUM`. -/
def msgMaxBlkNum : Nat := 16 * 1024

/-- `MSG_MAX_BLK_SIZE`. -/
def msgMaxBlkSize : Nat := 256 * 1024

/-- The values of a `size_t` are the numbers below this one. -/
def sizeTBound : Nat := 2 ^ 32

/-- `VTOP_MSG_S_Buffer`: the number and the size of the blocks of each level. -/
structure VtopMsgBuffer where
  blockNum : Nat → Nat
  blockSize : Nat → Nat

/-- `MSG_BUFFER_S`: one level of a pool. -/
structure MsgBuffer where
  pMsg : Nat → Nat
  blocksize : Nat
  blocknum : Nat
  buffersize : Nat
  used : UInt32

/-- `MB_HEAD_S` without the list pointers of its node, which are kept with the
list they belong to. -/
structure MbHead where
  flag : Int
  bufferId : Nat
  blockId : Nat
  privData : Nat
  deriving DecidableEq

/-- `MB_CONTEXT_S`, together with the block heads inside `s_pMsgBuf`. -/
structure MbContext where
  mb : Nat → MsgBuffer
  totalSize : Nat
  totalNum : Nat
  mbNum : Nat
  head : Nat → MbHead

/-- The allocations `MB_Init` makes. -/
inductive MbMalloc
  | context
  | msgBuf
  | level (i : Nat)

namespace VtopMsgBuffer

/-- The number of levels with a block size. -/
def bufLevel (b : VtopMsgBuffer) : Nat :=
  ((List.range vtopMsgBlButt).filter fun i => 0 < b.blockSize i).length

/-- The parameter checks of `MB_Init`; all of them fail with the same code. -/
def accepted (b : VtopMsgBuffer) : Bool :=
  ((List.range vtopMsgBlButt).all fun i => b.blockNum i ≤ msgMaxBlkNum) &&
  ((List.range vtopMsgBlButt).any fun i => b.blockNum i ≠ 0) &&
  ((List.range vtopMsgBlButt).all fun i => b.blockSize i ≤ msgMaxBlkSize) &&
  (b.bufLevel ≠ 0) &&
  ((List.range b.bufLevel).all fun i => b.blockSize i ≠ 0) &&
  ((List.range (b.bufLevel - 1)).all fun i => b.blockSize i < b.blockSize (i + 1))

/-- `MB_BLOCK_SIZE`. -/
def mbBlockSize (b : VtopMsgBuffer) (i : Nat) : Nat :=
  (mbHeadLen + b.blockSize i) % sizeTBound

/-- `each_mb_size`. -/
def eachMbSize (b : VtopMsgBuffer) (i : Nat) : Nat :=
  b.blockNum i * b.mbBlockSize i % sizeTBound

/-- `pMbHead`, the start of each level; at `bufLevel` it is `buffer_size`. -/
def pMbHead (b : VtopMsgBuffer) : Nat → Nat
  | 0 => 0
  | i + 1 => (pMbHead b i + b.eachMbSize i) % sizeTBound

/-- The level `MB_Init` sets up. -/
def level (b : VtopMsgBuffer) (i : Nat) : MsgBuffer where
  pMsg := fun j => (b.pMbHead i + j * b.mbBlockSize i) % sizeTBound
  blocksize := b.mbBlockSize i
  blocknum := b.blockNum i
  buffersize := b.eachMbSize i
  used := 0

/-- The blocks of the levels that have any, in the order of the loops. -/
def blocks (b : VtopMsgBuffer) : List (Nat × Nat) :=
  (List.range b.bufLevel).flatMap fun i =>
    if 0 < b.eachMbSize i then (List.range (b.blockNum i)).map fun j => (i, j) else []

/-- The block heads: all zero, then the ids of every block. -/
def initHeads (b : VtopMsgBuffer) : Nat → MbHead :=
  b.blocks.foldl
    (fun head ij =>
      let addr := (b.level ij.1).pMsg ij.2
      Function.update head addr
        { head addr with bufferId := ij.1, blockId := ij.2 })
    fun _ => ⟨0, 0, 0, 0⟩

end VtopMsgBuffer

/-- `MB_Init`.  `malloc` says which allocations succeed.  The two assertions at its
end compare sums that are computed from the same terms. -/
def mbInit (b : VtopMsgBuffer) (malloc : MbMalloc → Bool) : Except MsgErr MbContext :=
  if b.accepted = false then
    .error .invalidPara
  else if malloc .context = false then
    .error .nomem
  else if malloc .msgBuf = false then
    .error .nomem
  else if (List.range b.bufLevel).any fun i =>
      decide (0 < b.eachMbSize i) && !malloc (.level i) then
    .error .nomem
  else
    .ok
      { mb := fun i => if i < b.bufLevel then b.level i else ⟨fun _ => 0, 0, 0, 0, 0⟩
        totalSize := b.pMbHead b.bufLevel
        totalNum := ((List.range b.bufLevel).map b.blockNum).sum
        mbNum := b.bufLevel
        head := b.initHeads }

namespace MbContext

/-- Write one block head. -/
def setHead (c : MbContext) (a : Nat) (h : MbHead) : MbContext :=
  { c with head := Function.update c.head a h }

/-- Set the counter of used blocks of one level. -/
def setUsed (c : MbContext) (i : Nat) (used : UInt32) : MbContext :=
  { c with mb := Function.update c.mb i { c.mb i with used := used } }

/-- The address of a block. -/
def addr (c : MbContext) (i j : Nat) : Nat :=
  (c.mb i).pMsg j

/-- The test of the first loop of `MB_Alloc`. -/
def fits (c : MbContext) (size i : Nat) : Bool :=
  decide (0 < (c.mb i).buffersize) &&
    decide ((size + mbHeadLen) % sizeTBound ≤ (c.mb i).blocksize)

/-- The first loop of `MB_Alloc`: the level for a size. -/
def matchLevel (c : MbContext) (size : Nat) : Option Nat :=
  (List.range c.mbNum).find? (c.fits size)

/-- The second loop of `MB_Alloc`: the first unused block of a level. -/
def freeBlock (c : MbContext) (i : Nat) : Option Nat :=
  (List.range (c.mb i).blocknum).find? fun j => (c.head (c.addr i j)).flag == 0

/-- Mark the block at `a` of level `i` as used. -/
def taken (c : MbContext) (i a : Nat) : MbContext :=
  (c.setHead a { c.head a with flag := 1 }).setUsed i ((c.mb i).used + 1)

/-- Mark the block at `a` as unused. -/
def released (c : MbContext) (a : Nat) : MbContext :=
  (c.setHead a { c.head a with flag := 0 }).setUsed (c.head a).bufferId
    ((c.mb (c.head a).bufferId).used - 1)

/-- `MB_Alloc`.  Only the first level that fits is tried. -/
def mbAlloc (c : MbContext) (size : Nat) : Option (Nat × MbContext) :=
  match c.matchLevel size with
  | none => none
  | some i =>
      match c.freeBlock i with
      | none => none
      | some j => some (c.addr i j + mbHeadLen, c.taken i (c.addr i j))

/-- `MB_Free`.  `none` is the failed assertion on the flag, which ends the process. -/
def mbFree (c : MbContext) (p : Nat) : Option MbContext :=
  if (c.head (p - mbHeadLen)).flag = 1 then
    some (c.released (p - mbHeadLen))
  else
    none

/-- `MB_GetQNode`: the node of a message is named by the address of its block. -/
def mbGetQNode (pMbBody : Nat) : Nat :=
  pMbBody - mbHeadLen

/-- `(i, j)` names a block of the pool. -/
def IsBlock (c : MbContext) (i j : Nat) : Prop :=
  i < c.mbNum ∧ 0 < (c.mb i).buffersize ∧ j < (c.mb i).blocknum

/-- A block of `size` bytes, head included, starts at `a`. -/
def Block (c : MbContext) (a size : Nat) : Prop :=
  ∃ i j, c.IsBlock i j ∧ c.addr i j = a ∧ (c.mb i).blocksize = size

/-- Different blocks are disjoint, every block has room for its head and lies
inside the allocation. -/
structure Layout (c : MbContext) : Prop where
  disjoint : ∀ i j i' j', c.IsBlock i j → c.IsBlock i' j' → (i, j) ≠ (i', j') →
    c.addr i j + (c.mb i).blocksize ≤ c.addr i' j' ∨
      c.addr i' j' + (c.mb i').blocksize ≤ c.addr i j
  headFits : ∀ i j, c.IsBlock i j → mbHeadLen ≤ (c.mb i).blocksize
  inside : ∀ i j, c.IsBlock i j → c.addr i j + (c.mb i).blocksize ≤ c.totalSize

/-! ## Projections of the two elementary updates -/

variable (c : MbContext)

@[simp] theorem setHead_mb (a : Nat) (h : MbHead) : (c.setHead a h).mb = c.mb := rfl

@[simp] theorem setHead_head_self (a : Nat) (h : MbHead) : (c.setHead a h).head a = h := by
  simp [setHead]

theorem setHead_head_ne {a a' : Nat} (h : MbHead) (hne : a' ≠ a) :
    (c.setHead a h).head a' = c.head a' := by
  simp [setHead, hne]

@[simp] theorem setUsed_head (i : Nat) (used : UInt32) :
    (c.setUsed i used).head = c.head := rfl

@[simp] theorem setHead_isBlock (a : Nat) (h : MbHead) (i j : Nat) :
    (c.setHead a h).IsBlock i j ↔ c.IsBlock i j := Iff.rfl

@[simp] theorem setHead_addr (a : Nat) (h : MbHead) (i j : Nat) :
    (c.setHead a h).addr i j = c.addr i j := rfl

theorem setUsed_level (i k : Nat) (used : UInt32) :
    ((c.setUsed i used).mb k).pMsg = (c.mb k).pMsg ∧
    ((c.setUsed i used).mb k).blocksize = (c.mb k).blocksize ∧
    ((c.setUsed i used).mb k).blocknum = (c.mb k).blocknum ∧
    ((c.setUsed i used).mb k).buffersize = (c.mb k).buffersize := by
  by_cases hk : k = i
  · subst hk
    simp [setUsed]
  · simp [setUsed, hk]

@[simp] theorem setUsed_addr (i k j : Nat) (used : UInt32) :
    (c.setUsed i used).addr k j = c.addr k j := by
  unfold addr
  rw [(setUsed_level c i k used).1]

@[simp] theorem setUsed_blocksize (i k : Nat) (used : UInt32) :
    ((c.setUsed i used).mb k).blocksize = (c.mb k).blocksize :=
  (setUsed_level c i k used).2.1

@[simp] theorem setUsed_isBlock (i k j : Nat) (used : UInt32) :
    (c.setUsed i used).IsBlock k j ↔ c.IsBlock k j := by
  unfold IsBlock
  rw [(setUsed_level c i k used).2.2.1, (setUsed_level c i k used).2.2.2]
  rfl

@[simp] theorem setHead_block (a : Nat) (h : MbHead) (b size : Nat) :
    (c.setHead a h).Block b size ↔ c.Block b size := Iff.rfl

@[simp] theorem setUsed_block (i : Nat) (used : UInt32) (b size : Nat) :
    (c.setUsed i used).Block b size ↔ c.Block b size := by
  simp [Block]

@[simp] theorem taken_block (i a b size : Nat) :
    (c.taken i a).Block b size ↔ c.Block b size := by
  simp [taken]

@[simp] theorem released_block (a b size : Nat) :
    (c.released a).Block b size ↔ c.Block b size := by
  simp [released]

@[simp] theorem taken_head_self (i a : Nat) :
    (c.taken i a).head a = { c.head a with flag := 1 } := by
  simp [taken]

theorem taken_head_ne (i : Nat) {a b : Nat} (hne : b ≠ a) :
    (c.taken i a).head b = c.head b := by
  simp [taken, setHead_head_ne _ _ hne]

@[simp] theorem released_head_self (a : Nat) :
    (c.released a).head a = { c.head a with flag := 0 } := by
  simp [released]

theorem released_head_ne {a b : Nat} (hne : b ≠ a) :
    (c.released a).head b = c.head b := by
  simp [released, setHead_head_ne _ _ hne]

variable {c}

theorem Layout.setHead (hl : c.Layout) (a : Nat) (h : MbHead) : (c.setHead a h).Layout where
  disjoint := hl.disjoint
  headFits := hl.headFits
  inside := hl.inside

theorem Layout.setUsed (hl : c.Layout) (i : Nat) (used : UInt32) :
    (c.setUsed i used).Layout where
  disjoint := by
    intro k j k' j' hb hb' hne
    simp only [setUsed_isBlock, setUsed_addr, setUsed_blocksize] at hb hb' ⊢
    exact hl.disjoint k j k' j' hb hb' hne
  headFits := by
    intro k j hb
    simp only [setUsed_isBlock, setUsed_blocksize] at hb ⊢
    exact hl.headFits k j hb
  inside := by
    intro k j hb
    simp only [setUsed_isBlock, setUsed_addr, setUsed_blocksize] at hb ⊢
    exact hl.inside k j hb

theorem Layout.taken (hl : c.Layout) (i a : Nat) : (c.taken i a).Layout :=
  (hl.setHead a _).setUsed i _

theorem Layout.released (hl : c.Layout) (a : Nat) : (c.released a).Layout :=
  (hl.setHead a _).setUsed _ _

/-! ## Blocks by address -/

theorem Layout.head_le (hl : c.Layout) {a size : Nat} (hb : c.Block a size) :
    mbHeadLen ≤ size := by
  obtain ⟨i, j, hij, -, rfl⟩ := hb
  exact hl.headFits i j hij

/-- Blocks at different addresses do not overlap. -/
theorem Layout.block_disjoint (hl : c.Layout) {a a' size size' : Nat}
    (hb : c.Block a size) (hb' : c.Block a' size') (hne : a ≠ a') :
    a + size ≤ a' ∨ a' + size' ≤ a := by
  obtain ⟨i, j, hij, rfl, rfl⟩ := hb
  obtain ⟨i', j', hij', rfl, rfl⟩ := hb'
  refine hl.disjoint i j i' j' hij hij' ?_
  intro heq
  obtain ⟨rfl, rfl⟩ := Prod.mk.injEq .. ▸ heq
  exact hne rfl

/-! ## What the operations do -/

/-- Everything a successful `MB_Alloc` does. -/
theorem mbAlloc_eq_some {size p : Nat} {c' : MbContext} (h : c.mbAlloc size = some (p, c')) :
    ∃ i j, c.IsBlock i j ∧ (c.head (c.addr i j)).flag = 0 ∧
      (size + mbHeadLen) % sizeTBound ≤ (c.mb i).blocksize ∧
      p = c.addr i j + mbHeadLen ∧ c' = c.taken i (c.addr i j) := by
  unfold mbAlloc at h
  cases hi : c.matchLevel size with
  | none => simp [hi] at h
  | some i =>
      cases hj : c.freeBlock i with
      | none => simp [hi, hj] at h
      | some j =>
          simp only [hi, hj, Option.some.injEq, Prod.mk.injEq] at h
          obtain ⟨rfl, rfl⟩ := h
          have himem := List.mem_of_find?_eq_some hi
          have hfits := List.find?_some hi
          have hjmem := List.mem_of_find?_eq_some hj
          have hflag := List.find?_some hj
          simp only [fits, Bool.and_eq_true, decide_eq_true_eq] at hfits
          simp only [beq_iff_eq] at hflag
          exact ⟨i, j, ⟨List.mem_range.mp himem, hfits.1, List.mem_range.mp hjmem⟩, hflag,
            hfits.2, rfl, rfl⟩

/-- Everything `MB_Free` does to a block in use. -/
theorem mbFree_eq {a : Nat} (hflag : (c.head a).flag = 1) :
    c.mbFree (a + mbHeadLen) = some (c.released a) := by
  simp [mbFree, hflag]

end MbContext

/-! ## The layout of a fresh pool -/

namespace VtopMsgBuffer

/-- The start of each level in exact arithmetic. -/
def exactHead (b : VtopMsgBuffer) : Nat → Nat
  | 0 => 0
  | i + 1 => exactHead b i + b.blockNum i * (mbHeadLen + b.blockSize i)

variable {b : VtopMsgBuffer}

theorem exactHead_mono {i k : Nat} (hik : i ≤ k) : b.exactHead i ≤ b.exactHead k := by
  induction hik with
  | refl => exact le_rfl
  | step _ ih => exact ih.trans (Nat.le_add_right _ _)

theorem bufLevel_le (b : VtopMsgBuffer) : b.bufLevel ≤ vtopMsgBlButt := by
  have := List.length_filter_le (fun i => decide (0 < b.blockSize i)) (List.range vtopMsgBlButt)
  rwa [List.length_range] at this

theorem blockSize_le_of_accepted (h : b.accepted = true) {i : Nat} (hi : i < b.bufLevel) :
    b.blockSize i ≤ msgMaxBlkSize := by
  simp only [accepted, Bool.and_eq_true, List.all_eq_true, List.mem_range,
    decide_eq_true_eq] at h
  exact h.1.1.1.2 i (hi.trans_le (bufLevel_le b))

theorem mbBlockSize_of_accepted (h : b.accepted = true) {i : Nat} (hi : i < b.bufLevel) :
    b.mbBlockSize i = mbHeadLen + b.blockSize i := by
  have := blockSize_le_of_accepted h hi
  unfold mbBlockSize
  apply Nat.mod_eq_of_lt
  unfold msgMaxBlkSize at this
  unfold mbHeadLen sizeTBound
  omega

/-- When the whole pool fits, so does every level. -/
theorem level_end_lt (hfit : b.exactHead b.bufLevel < sizeTBound) {i : Nat}
    (hi : i < b.bufLevel) :
    b.exactHead i + b.blockNum i * (mbHeadLen + b.blockSize i) < sizeTBound := by
  have : b.exactHead (i + 1) ≤ b.exactHead b.bufLevel := exactHead_mono hi
  exact lt_of_le_of_lt this hfit

/-- Block `j` of a level, its end included, lies inside the level. -/
theorem block_end_le {i j : Nat} (hj : j < b.blockNum i) :
    j * (mbHeadLen + b.blockSize i) + (mbHeadLen + b.blockSize i) ≤
      b.blockNum i * (mbHeadLen + b.blockSize i) := by
  calc
    j * (mbHeadLen + b.blockSize i) + (mbHeadLen + b.blockSize i)
        = (j + 1) * (mbHeadLen + b.blockSize i) := by ring
    _ ≤ b.blockNum i * (mbHeadLen + b.blockSize i) := Nat.mul_le_mul_right _ hj

section NoOverflow

variable (hacc : b.accepted = true) (hfit : b.exactHead b.bufLevel < sizeTBound)
include hacc hfit

theorem eachMbSize_eq {i : Nat} (hi : i < b.bufLevel) :
    b.eachMbSize i = b.blockNum i * (mbHeadLen + b.blockSize i) := by
  have := level_end_lt hfit hi
  unfold eachMbSize
  rw [mbBlockSize_of_accepted hacc hi]
  apply Nat.mod_eq_of_lt
  omega

theorem pMbHead_eq {i : Nat} (hi : i ≤ b.bufLevel) : b.pMbHead i = b.exactHead i := by
  induction i with
  | zero => rfl
  | succ i ih =>
      have hlt : i < b.bufLevel := hi
      have hend := level_end_lt hfit hlt
      simp only [pMbHead, exactHead]
      rw [ih hlt.le, eachMbSize_eq hacc hfit hlt]
      exact Nat.mod_eq_of_lt hend

theorem pMsg_eq {i j : Nat} (hi : i < b.bufLevel) (hj : j < b.blockNum i) :
    (b.level i).pMsg j = b.exactHead i + j * (mbHeadLen + b.blockSize i) := by
  have hend := level_end_lt hfit hi
  have hblock := block_end_le hj
  simp only [level]
  rw [pMbHead_eq hacc hfit hi.le, mbBlockSize_of_accepted hacc hi]
  apply Nat.mod_eq_of_lt
  omega

end NoOverflow

/-- Writing the ids leaves every flag clear. -/
theorem initHeads_flag (b : VtopMsgBuffer) (a : Nat) : (b.initHeads a).flag = 0 := by
  unfold initHeads
  have hgen : ∀ (l : List (Nat × Nat)) (head : Nat → MbHead), (∀ a, (head a).flag = 0) →
      ∀ a, (l.foldl (fun head ij =>
        Function.update head ((b.level ij.1).pMsg ij.2)
          { head ((b.level ij.1).pMsg ij.2) with bufferId := ij.1, blockId := ij.2 })
        head a).flag = 0 := by
    intro l
    induction l with
    | nil => exact fun head h => h
    | cons ij l ih =>
        intro head h
        refine ih _ ?_
        intro a
        by_cases ha : a = (b.level ij.1).pMsg ij.2
        · subst ha
          simpa using h _
        · simpa [ha] using h a
  exact hgen b.blocks _ (fun _ => rfl) a

end VtopMsgBuffer

/-- What a successful `MB_Init` returns. -/
structure Inited (b : VtopMsgBuffer) (c : MbContext) : Prop where
  accepted : b.accepted = true
  level : ∀ i, i < b.bufLevel → c.mb i = b.level i
  beyond : ∀ i, b.bufLevel ≤ i → c.mb i = ⟨fun _ => 0, 0, 0, 0, 0⟩
  totalSize : c.totalSize = b.pMbHead b.bufLevel
  totalNum : c.totalNum = ((List.range b.bufLevel).map b.blockNum).sum
  mbNum : c.mbNum = b.bufLevel
  head : c.head = b.initHeads

theorem inited_of_mbInit {b : VtopMsgBuffer} {malloc : MbMalloc → Bool} {c : MbContext}
    (h : mbInit b malloc = .ok c) : Inited b c := by
  unfold mbInit at h
  split at h
  · cases h
  · rename_i hacc
    split at h
    · cases h
    · split at h
      · cases h
      · split at h
        · cases h
        · simp only [Except.ok.injEq] at h
          subst h
          refine ⟨by simpa using hacc, ?_, ?_, rfl, rfl, rfl, rfl⟩
          · intro i hi
            simp [hi]
          · intro i hi
            simp [Nat.not_lt.mpr hi]

/-- A fresh pool whose total size fits in a `size_t` is laid out soundly. -/
theorem mbInit_layout {b : VtopMsgBuffer} {malloc : MbMalloc → Bool} {c : MbContext}
    (h : mbInit b malloc = .ok c) (hfit : b.exactHead b.bufLevel < sizeTBound) :
    c.Layout := by
  obtain ⟨hacc, hlevel, -, htotal, -, hnum, -⟩ := inited_of_mbInit h
  -- a block in terms of the configuration
  have hblock : ∀ i j, c.IsBlock i j → i < b.bufLevel ∧ j < b.blockNum i ∧
      c.addr i j = b.exactHead i + j * (mbHeadLen + b.blockSize i) ∧
      (c.mb i).blocksize = mbHeadLen + b.blockSize i := by
    rintro i j ⟨hi, -, hj⟩
    rw [hnum] at hi
    rw [hlevel i hi] at hj
    refine ⟨hi, hj, ?_, ?_⟩
    · unfold MbContext.addr
      rw [hlevel i hi]
      exact VtopMsgBuffer.pMsg_eq hacc hfit hi hj
    · rw [hlevel i hi]
      exact VtopMsgBuffer.mbBlockSize_of_accepted hacc hi
  constructor
  · intro i j i' j' hb hb' hne
    obtain ⟨hi, hj, ha, hs⟩ := hblock i j hb
    obtain ⟨hi', hj', ha', hs'⟩ := hblock i' j' hb'
    rw [ha, hs, ha', hs']
    have hend := VtopMsgBuffer.block_end_le hj
    have hend' := VtopMsgBuffer.block_end_le hj'
    rcases lt_trichotomy i i' with hlt | rfl | hlt
    · have hstart : b.exactHead (i + 1) ≤ b.exactHead i' := VtopMsgBuffer.exactHead_mono hlt
      simp only [VtopMsgBuffer.exactHead] at hstart
      omega
    · have hjj : j ≠ j' := fun e => hne (by rw [e])
      rcases Nat.lt_or_gt_of_ne hjj with hlt | hlt
      · left
        have := Nat.mul_le_mul_right (mbHeadLen + b.blockSize i) (Nat.succ_le_of_lt hlt)
        rw [Nat.succ_mul] at this
        omega
      · right
        have := Nat.mul_le_mul_right (mbHeadLen + b.blockSize i) (Nat.succ_le_of_lt hlt)
        rw [Nat.succ_mul] at this
        omega
    · have hstart : b.exactHead (i' + 1) ≤ b.exactHead i := VtopMsgBuffer.exactHead_mono hlt
      simp only [VtopMsgBuffer.exactHead] at hstart
      omega
  · intro i j hb
    rw [(hblock i j hb).2.2.2]
    omega
  · intro i j hb
    obtain ⟨hi, hj, ha, hs⟩ := hblock i j hb
    have hend := VtopMsgBuffer.block_end_le hj
    have hnext : b.exactHead (i + 1) ≤ b.exactHead b.bufLevel :=
      VtopMsgBuffer.exactHead_mono hi
    simp only [VtopMsgBuffer.exactHead] at hnext
    rw [ha, hs, htotal, VtopMsgBuffer.pMbHead_eq hacc hfit le_rfl]
    omega

end Msg
end AndroidLinux
