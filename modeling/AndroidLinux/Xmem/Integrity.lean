import AndroidLinux.Lib.Align
import AndroidLinux.Lib.Tiling
import AndroidLinux.Xmem.Alloc

/-!
# Integrity of the allocator

The free nodes and the nodes in use tile the buffer.  A node is taken out of the free
list whole, or its end is cut off, or two nodes that touch become one, and each of these
keeps the tiling (`Lib.Tiling.perm`, `Lib.Tiling.split`, `Lib.Tiling.merge`).

The sums of the code are 32-bit sums.  In a buffer of less than `2 ^ 31` bytes none of
them wraps once a node with room for the request has been found.
-/

namespace AndroidLinux
namespace Xmem

open Lib

namespace AllocObj

/-- The bytes of a node, its header included. -/
def nodeSize (o : AllocObj) (node : Nat) : Nat :=
  contentSize.toNat + (o.len node).toNat

theorem areaEnd_eq (o : AllocObj) (node : Nat) : o.areaEnd node = node + o.nodeSize node := rfl

/-- The free nodes and the nodes `used` tile the buffer. -/
def Tiled (o : AllocObj) (used : List Nat) : Prop :=
  Tiling o.nodeSize o.bufLen.toNat (o.freeList ++ used)

end AllocObj

/-- The nodes whose addresses are live. -/
def State.used (s : State) : List Nat :=
  s.live.map fun addr => addr - contentSize.toNat

/-- What `x_alloc(size)` does in a state. -/
structure AllocSpec (s : State) (size : UInt32) : Prop where
  null : (s.obj.xAlloc size).1 = none ↔ ∀ node ∈ s.obj.freeList, s.obj.len node < size
  unchanged : (s.obj.xAlloc size).1 = none →
    (s.obj.xAlloc size).2.freeList = s.obj.freeList ∧ (s.obj.xAlloc size).2.len = s.obj.len
  large : ∀ addr, (s.obj.xAlloc size).1 = some addr →
    size ≤ (s.obj.xAlloc size).2.len (addr - contentSize.toNat)
  apart : ∀ addr, (s.obj.xAlloc size).1 = some addr → ∀ other ∈ s.live,
    addr + ((s.obj.xAlloc size).2.len (addr - contentSize.toNat)).toNat ≤
        other - contentSize.toNat ∨
      other + ((s.obj.xAlloc size).2.len (other - contentSize.toNat)).toNat ≤
        addr - contentSize.toNat

/-! ## Rounding -/

/-- The rounded size of a request that fits in some node. -/
theorem memAlignSize_bounds {len : UInt32} (h : len.toNat < 2 ^ 31) :
    len.toNat + 8 ≤ (memAlignSize (len + contentSize)).toNat ∧
      (memAlignSize (len + contentSize)).toNat ≤ len.toNat + 11 := by
  have hsum : (len + contentSize + 3).toNat = len.toNat + 11 := by
    rw [UInt32.toNat_add, UInt32.toNat_add]
    have h8 : contentSize.toNat = 8 := rfl
    have h3 : (3 : UInt32).toNat = 3 := rfl
    omega
  unfold memAlignSize
  rw [toNat_and_mask, hsum]
  omega

/-! ## The search -/

section Search

variable {o : AllocObj} {len : UInt32}

/-- A node the loop keeps has room beyond the first threshold. -/
def Kept (o : AllocObj) (len : UInt32) (newNode : Option Nat) : Prop :=
  ∀ best, newNode = some best → len ≤ o.len best ∧ ¬ o.len best ≤ len + garbageLenThreshold

/-- What the loop finds in `nodes`, with `newNode` kept before. -/
inductive SearchSpec (o : AllocObj) (len : UInt32) (nodes : List Nat) (newNode : Option Nat) :
    Found → Prop
  | fit {node : Nat} (hmem : node ∈ nodes) (hlen : len ≤ o.len node) :
      SearchSpec o len nodes newNode (.fit node)
  | nothing (hnone : newNode = none) (hall : ∀ node ∈ nodes, o.len node < len) :
      SearchSpec o len nodes newNode (.best none)
  | best {node : Nat} (hmem : node ∈ nodes ∨ newNode = some node)
      (hlen : len ≤ o.len node) (hlong : ¬ o.len node ≤ len + garbageLenThreshold) :
      SearchSpec o len nodes newNode (.best (some node))

/-- A node that is kept is one of the nodes. -/
theorem SearchSpec.keep {nodes : List Nat} {newNode newNode' : Option Nat} {a : Nat} {f : Found}
    (h : SearchSpec o len nodes newNode' f)
    (hkeep : newNode' = some a ∨ (newNode' = newNode ∧ newNode ≠ none)) :
    SearchSpec o len (a :: nodes) newNode f := by
  cases h with
  | fit hmem hlen => exact .fit (List.mem_cons_of_mem a hmem) hlen
  | nothing hnone hall =>
      rcases hkeep with heq | ⟨heq, hne⟩
      · rw [hnone] at heq
        cases heq
      · exact absurd (heq ▸ hnone) hne
  | best hmem hlen hlong =>
      refine .best ?_ hlen hlong
      rcases hmem with hmem | heq
      · exact Or.inl (List.mem_cons_of_mem a hmem)
      · rcases hkeep with hkept | ⟨hkept, -⟩
        · rw [hkept] at heq
          exact Or.inl (Option.some.inj heq ▸ List.mem_cons_self)
        · exact Or.inr (hkept ▸ heq)

/-- A node without room is passed over. -/
theorem SearchSpec.skip {nodes : List Nat} {newNode : Option Nat} {a : Nat} {f : Found}
    (h : SearchSpec o len nodes newNode f) (hshort : ¬ len ≤ o.len a) :
    SearchSpec o len (a :: nodes) newNode f := by
  cases h with
  | fit hmem hlen => exact .fit (List.mem_cons_of_mem a hmem) hlen
  | nothing hnone hall =>
      refine .nothing hnone ?_
      intro node hmem
      rcases List.mem_cons.mp hmem with rfl | hmem
      · exact UInt32.not_le.mp hshort
      · exact hall node hmem
  | best hmem hlen hlong =>
      exact .best (hmem.imp (List.mem_cons_of_mem a) id) hlen hlong

theorem search_spec (nodes : List Nat) {newNode : Option Nat} (hkept : Kept o len newNode) :
    SearchSpec o len nodes newNode (o.search len nodes newNode) := by
  induction nodes generalizing newNode with
  | nil =>
      cases newNode with
      | none => exact .nothing rfl (by simp)
      | some best => exact .best (Or.inr rfl) (hkept best rfl).1 (hkept best rfl).2
  | cons a rest ih =>
      unfold AllocObj.search
      split
      · rename_i hlen
        split
        · exact .fit List.mem_cons_self hlen
        · rename_i hlong
          have hnew : Kept o len (some a) := by
            intro best heq
            obtain rfl := Option.some.inj heq
            exact ⟨hlen, hlong⟩
          split
          · exact (ih hnew).keep (Or.inl rfl)
          · split
            · exact (ih hnew).keep (Or.inl rfl)
            · exact (ih hkept).keep (Or.inr ⟨rfl, by simp⟩)
      · rename_i hshort
        exact (ih hkept).skip hshort

end Search

/-! ## What the two functions on the free list do -/

section Content

variable {o : AllocObj}

/-- The first threshold for cutting a node: the rounded request and twice the garbage
length. -/
def Divides (o : AllocObj) (len : UInt32) (node : Nat) : Prop :=
  memAlignSize (len + contentSize) + 2 * garbageLenThreshold ≤ o.len node

/-- Everything `alloc_content` can do. -/
theorem allocContent_cases (o : AllocObj) (len : UInt32) :
    (o.allocContent len = none ∧ ∀ node ∈ o.freeList, o.len node < len) ∨
    ∃ node ∈ o.freeList, len ≤ o.len node ∧
      (o.allocContent len = some (node, o.unlink node) ∨
        (Divides o len node ∧
          o.allocContent len = some (o.divide node (memAlignSize (len + contentSize))))) := by
  have hkept : Kept o len none := by
    intro best heq
    cases heq
  have hspec := search_spec o.freeList hkept
  unfold AllocObj.allocContent
  generalize o.search len o.freeList none = found at hspec
  cases hspec with
  | @fit node hmem hlen => exact Or.inr ⟨node, hmem, hlen, Or.inl rfl⟩
  | nothing _ hall => exact Or.inl ⟨rfl, hall⟩
  | @best node hmem hlen _ =>
      have hin : node ∈ o.freeList := hmem.resolve_right (by simp)
      refine Or.inr ⟨node, hin, hlen, ?_⟩
      dsimp only
      split
      · rename_i hdiv
        exact Or.inr ⟨hdiv, rfl⟩
      · exact Or.inl rfl

/-- The node is joined to the free node `list` before it. -/
def joinLeft (o : AllocObj) (node list : Nat) : AllocObj :=
  { o with len := Function.update o.len list (o.len list + (contentSize + o.len node)) }

/-- The free node `list` is joined to the node before it, which takes its place in the
free list `xs ++ list :: ys`. -/
def joinRight (o : AllocObj) (node list : Nat) (xs ys : List Nat) : AllocObj :=
  { o with
    len := Function.update o.len node (o.len node + (contentSize + o.len list))
    freeList := xs ++ node :: ys }

/-- The length of a node after it was joined with the other one. -/
theorem joinLeft_nodeSize (o : AllocObj) (node list c : Nat) :
    (joinLeft o node list).nodeSize c =
      if c = list then contentSize.toNat + (o.len list + (contentSize + o.len node)).toNat
      else o.nodeSize c := by
  unfold AllocObj.nodeSize joinLeft
  dsimp only
  split
  · rename_i hc
    rw [hc, Function.update_self]
  · rename_i hc
    rw [Function.update_of_ne hc]

theorem joinRight_nodeSize (o : AllocObj) (node list : Nat) (xs ys : List Nat) (c : Nat) :
    (joinRight o node list xs ys).nodeSize c =
      if c = node then contentSize.toNat + (o.len node + (contentSize + o.len list)).toNat
      else o.nodeSize c := by
  unfold AllocObj.nodeSize joinRight
  dsimp only
  split
  · rename_i hc
    rw [hc, Function.update_self]
  · rename_i hc
    rw [Function.update_of_ne hc]

theorem defragLoop_cases (o : AllocObj) (node : Nat) (pre rest : List Nat) :
    (o.defragLoop node pre rest = none ∧
      ∀ list ∈ rest, o.areaEnd list ≠ node ∧ o.areaEnd node ≠ list) ∨
    (∃ list ∈ rest, o.areaEnd list = node ∧
      o.defragLoop node pre rest = some (joinLeft o node list)) ∨
    ∃ xs list ys, rest = xs ++ list :: ys ∧ o.areaEnd node = list ∧
      o.defragLoop node pre rest = some (joinRight o node list (pre ++ xs) ys) := by
  induction rest generalizing pre with
  | nil => exact Or.inl ⟨rfl, by simp⟩
  | cons a rest ih =>
      unfold AllocObj.defragLoop
      split
      · rename_i hleft
        exact Or.inr (Or.inl ⟨a, List.mem_cons_self, hleft, rfl⟩)
      · rename_i hleft
        split
        · rename_i hright
          exact Or.inr (Or.inr ⟨[], a, rest, rfl, hright, by rw [List.append_nil]; rfl⟩)
        · rename_i hright
          rcases ih (pre ++ [a]) with ⟨hnone, hall⟩ | ⟨list, hmem, hend, heq⟩ |
              ⟨xs, list, ys, hrest, hend, heq⟩
          · refine Or.inl ⟨hnone, ?_⟩
            intro list hmem
            rcases List.mem_cons.mp hmem with rfl | hmem
            · exact ⟨hleft, hright⟩
            · exact hall list hmem
          · exact Or.inr (Or.inl ⟨list, List.mem_cons_of_mem a hmem, hend, heq⟩)
          · refine Or.inr (Or.inr ⟨a :: xs, list, ys, by rw [hrest]; rfl, hend, ?_⟩)
            rw [heq, List.append_assoc, List.singleton_append]

/-- Everything `free_content` can do. -/
theorem freeContent_cases (o : AllocObj) (node : Nat) :
    (o.freeContent node = { o with freeList := node :: o.freeList } ∧
      ∀ list ∈ o.freeList, o.areaEnd list ≠ node ∧ o.areaEnd node ≠ list) ∨
    (∃ list ∈ o.freeList, o.areaEnd list = node ∧ o.freeContent node = joinLeft o node list) ∨
    ∃ xs list ys, o.freeList = xs ++ list :: ys ∧ o.areaEnd node = list ∧
      o.freeContent node = joinRight o node list xs ys := by
  unfold AllocObj.freeContent AllocObj.defragContent
  rcases defragLoop_cases o node [] o.freeList with ⟨hnone, hall⟩ | ⟨list, hmem, hend, heq⟩ |
      ⟨xs, list, ys, hrest, hend, heq⟩
  · rw [hnone]
    exact Or.inl ⟨rfl, hall⟩
  · rw [heq]
    exact Or.inr (Or.inl ⟨list, hmem, hend, rfl⟩)
  · rw [heq]
    exact Or.inr (Or.inr ⟨xs, list, ys, hrest, hend, rfl⟩)

end Content

/-! ## The tiling -/

section Tiled

variable {o : AllocObj} {used : List Nat}

theorem contentSize_toNat : contentSize.toNat = 8 := rfl

/-- A node ends inside the buffer. -/
theorem len_lt_of_tiled (h : o.Tiled used) (hbuf : o.bufLen.toNat < 2 ^ 31) {node : Nat}
    (hmem : node ∈ o.freeList ++ used) : node + 8 + (o.len node).toNat ≤ o.bufLen.toNat ∧
      (o.len node).toNat < 2 ^ 31 := by
  have hin := h.inside node hmem
  unfold AllocObj.nodeSize at hin
  rw [contentSize_toNat] at hin
  omega

theorem tiled_unlink (h : o.Tiled used) {node : Nat} (hmem : node ∈ o.freeList) :
    (o.unlink node).Tiled (node :: used) := by
  have hperm : (o.freeList.erase node ++ node :: used).Perm (o.freeList ++ used) := by
    refine List.perm_middle.trans ?_
    exact (List.perm_cons_erase hmem).symm.append_right used
  exact h.perm hperm

/-- The numbers of a cut: nothing wraps, and the two parts make up the node. -/
theorem divide_lengths {L len : UInt32} (hL : L.toNat < 2 ^ 31) (hlen : len ≤ L)
    (hdiv : memAlignSize (len + contentSize) + 2 * garbageLenThreshold ≤ L) :
    len.toNat + 8 ≤ (memAlignSize (len + contentSize)).toNat ∧
      (L - memAlignSize (len + contentSize)).toNat =
        L.toNat - (memAlignSize (len + contentSize)).toNat ∧
      (memAlignSize (len + contentSize)).toNat ≤ L.toNat ∧
      (memAlignSize (len + contentSize) - contentSize).toNat =
        (memAlignSize (len + contentSize)).toNat - 8 := by
  rw [UInt32.le_iff_toNat_le] at hlen
  have hsmall : len.toNat < 2 ^ 31 := by omega
  obtain ⟨hlo, hhi⟩ := memAlignSize_bounds hsmall
  rw [UInt32.le_iff_toNat_le, UInt32.toNat_add,
    show (2 * garbageLenThreshold).toNat = 40 from rfl] at hdiv
  have hle : (memAlignSize (len + contentSize)).toNat ≤ L.toNat := by omega
  refine ⟨hlo, ?_, hle, ?_⟩
  · exact UInt32.toNat_sub_of_le _ _ (UInt32.le_iff_toNat_le.mpr hle)
  · rw [UInt32.toNat_sub_of_le]
    · rfl
    · rw [UInt32.le_iff_toNat_le, contentSize_toNat]
      omega

theorem tiled_divide (h : o.Tiled used) (hbuf : o.bufLen.toNat < 2 ^ 31) {node : Nat}
    {len : UInt32} (hmem : node ∈ o.freeList) (hlen : len ≤ o.len node)
    (hdiv : Divides o len node) :
    (o.divide node (memAlignSize (len + contentSize))).2.Tiled
      ((o.divide node (memAlignSize (len + contentSize))).1 :: used) ∧
    len ≤ (o.divide node (memAlignSize (len + contentSize))).2.len
      (o.divide node (memAlignSize (len + contentSize))).1 ∧
    ∀ c ∈ used, (o.divide node (memAlignSize (len + contentSize))).2.len c = o.len c := by
  have hin : node ∈ o.freeList ++ used := List.mem_append_left used hmem
  have hL := (len_lt_of_tiled h hbuf hin).2
  obtain ⟨hlo, hrest, hle, hnew⟩ := divide_lengths hL hlen hdiv
  generalize hsize : memAlignSize (len + contentSize) = size at *
  generalize hcut : node + (contentSize.toNat + (o.len node - size).toNat) = newNode
  have hsum : newNode + size.toNat = node + o.nodeSize node := by
    unfold AllocObj.nodeSize
    rw [contentSize_toNat] at *
    omega
  have hgt : node < newNode := by
    rw [contentSize_toNat] at hcut
    omega
  -- a node that starts inside another one is not in the list
  have hfresh : newNode ∉ o.freeList ++ used := by
    intro hold
    have hdisj := h.disjoint_of_mem hold hin (by omega)
    have := h.pos newNode hold
    omega
  have hlenNew : (o.divide node size).2.len newNode = size - contentSize := by
    simp [AllocObj.divide, hcut]
  have hlenNode : (o.divide node size).2.len node = o.len node - size := by
    have hne : node ≠ newNode := by omega
    simp [AllocObj.divide, hcut, hne]
  have hlenOther : ∀ c ∈ o.freeList ++ used, c ≠ node →
      (o.divide node size).2.len c = o.len c := by
    intro c hc hne
    have hcn : c ≠ newNode := by
      rintro rfl
      exact hfresh hc
    simp [AllocObj.divide, hcut, hne, hcn]
  have hfirst : (o.divide node size).1 = newNode := hcut
  rw [hfirst]
  refine ⟨?_, ?_, ?_⟩
  · have hsplit : Tiling (o.divide node size).2.nodeSize o.bufLen.toNat
        (newNode :: (o.freeList ++ used)) := by
      apply h.split hin hgt
      · omega
      · unfold AllocObj.nodeSize
        rw [hlenNode]
        exact hcut
      · unfold AllocObj.nodeSize at hsum ⊢
        rw [hlenNew, hnew, contentSize_toNat] at *
        omega
      · intro c hc hne
        unfold AllocObj.nodeSize
        rw [hlenOther c hc hne]
    exact hsplit.perm List.perm_middle
  · rw [hlenNew, UInt32.le_iff_toNat_le, hnew]
    omega
  · intro c hc
    apply hlenOther c (List.mem_append_right _ hc)
    rintro rfl
    have hnodup := h.nodup
    exact List.disjoint_of_nodup_append hnodup hmem hc

/-- The sum of the lengths of two nodes that touch does not wrap. -/
theorem joined_length (h : o.Tiled used) (hbuf : o.bufLen.toNat < 2 ^ 31) {a b : Nat}
    (hb : b ∈ o.freeList ++ used) (htouch : o.areaEnd a = b) :
    contentSize.toNat + (o.len a + (contentSize + o.len b)).toNat =
      o.nodeSize a + o.nodeSize b := by
  have hin := (len_lt_of_tiled h hbuf hb).1
  unfold AllocObj.areaEnd at htouch
  unfold AllocObj.nodeSize
  rw [UInt32.toNat_add, UInt32.toNat_add, contentSize_toNat] at *
  omega

theorem tiled_joinLeft (h : o.Tiled used) (hbuf : o.bufLen.toNat < 2 ^ 31) {node list : Nat}
    {used' : List Nat} (hused : used.Perm (node :: used')) (hlist : list ∈ o.freeList)
    (htouch : o.areaEnd list = node) : (joinLeft o node list).Tiled used' := by
  have hnode : node ∈ o.freeList ++ used :=
    List.mem_append_right _ (hused.mem_iff.mpr List.mem_cons_self)
  have hperm : (node :: (o.freeList ++ used')).Perm (o.freeList ++ used) :=
    List.perm_middle.symm.trans (hused.symm.append_left o.freeList)
  refine (h.perm hperm).merge (List.mem_append_left used' hlist) htouch ?_ ?_
  · rw [joinLeft_nodeSize, if_pos rfl]
    exact joined_length h hbuf hnode htouch
  · intro c _ hne
    rw [joinLeft_nodeSize, if_neg hne]

theorem tiled_joinRight (h : o.Tiled used) (hbuf : o.bufLen.toNat < 2 ^ 31) {node list : Nat}
    {used' xs ys : List Nat} (hused : used.Perm (node :: used'))
    (hfree : o.freeList = xs ++ list :: ys) (htouch : o.areaEnd node = list) :
    (joinRight o node list xs ys).Tiled used' := by
  have hlist : list ∈ o.freeList ++ used := by
    rw [hfree]
    simp
  have hperm : (list :: ((xs ++ node :: ys) ++ used')).Perm (o.freeList ++ used) := by
    have hfront : (list :: (xs ++ node :: ys)).Perm (node :: o.freeList) := by
      rw [hfree]
      calc
        (list :: (xs ++ node :: ys)).Perm (list :: node :: (xs ++ ys)) :=
          List.perm_middle.cons list
        _ |>.Perm (node :: list :: (xs ++ ys)) := List.Perm.swap node list _
        _ |>.Perm (node :: (xs ++ list :: ys)) := List.perm_middle.symm.cons node
    calc
      (list :: ((xs ++ node :: ys) ++ used')).Perm ((node :: o.freeList) ++ used') :=
        hfront.append_right used'
      _ |>.Perm (o.freeList ++ node :: used') := List.perm_middle.symm
      _ |>.Perm (o.freeList ++ used) := hused.symm.append_left o.freeList
  have hmem : node ∈ (xs ++ node :: ys) ++ used' := by simp
  refine (h.perm hperm).merge hmem htouch ?_ ?_
  · rw [joinRight_nodeSize, if_pos rfl]
    exact joined_length h hbuf hlist htouch
  · intro c _ hne
    rw [joinRight_nodeSize, if_neg hne]

theorem tiled_freeContent (h : o.Tiled used) (hbuf : o.bufLen.toNat < 2 ^ 31) {node : Nat}
    {used' : List Nat} (hused : used.Perm (node :: used')) :
    (o.freeContent node).Tiled used' ∧ (o.freeContent node).bufLen = o.bufLen := by
  rcases freeContent_cases o node with ⟨heq, -⟩ | ⟨list, hmem, htouch, heq⟩ |
      ⟨xs, list, ys, hfree, htouch, heq⟩
  · rw [heq]
    refine ⟨h.perm ?_, rfl⟩
    exact List.perm_middle.symm.trans (hused.symm.append_left o.freeList)
  · rw [heq]
    exact ⟨tiled_joinLeft h hbuf hused hmem htouch, rfl⟩
  · rw [heq]
    exact ⟨tiled_joinRight h hbuf hused hfree htouch, rfl⟩

/-- The node `alloc_content` hands out is in the tiling, is large enough and leaves the
lengths of the nodes in use alone. -/
theorem tiled_allocContent (h : o.Tiled used) (hbuf : o.bufLen.toNat < 2 ^ 31) {len : UInt32}
    {node : Nat} {o' : AllocObj} (halloc : o.allocContent len = some (node, o')) :
    o'.Tiled (node :: used) ∧ o'.bufLen = o.bufLen ∧ len ≤ o'.len node ∧
      ∀ c ∈ used, o'.len c = o.len c := by
  rcases allocContent_cases o len with ⟨hnone, -⟩ | ⟨a, hmem, hlen, heq | ⟨hdiv, heq⟩⟩
  · rw [hnone] at halloc
    cases halloc
  · rw [heq, Option.some.injEq, Prod.mk.injEq] at halloc
    obtain ⟨rfl, rfl⟩ := halloc
    exact ⟨tiled_unlink h hmem, rfl, hlen, fun _ _ => rfl⟩
  · rw [heq, Option.some.injEq] at halloc
    obtain ⟨htiled, hlarge, hothers⟩ := tiled_divide h hbuf hmem hlen hdiv
    rw [halloc] at htiled hlarge hothers
    have hbufLen : (o.divide a (memAlignSize (len + contentSize))).2.bufLen = o.bufLen := rfl
    rw [halloc] at hbufLen
    exact ⟨htiled, hbufLen, hlarge, hothers⟩

end Tiled

/-! ## Runs -/

/-- The invariant of the runs. -/
structure Inv (bufLen : UInt32) (s : State) : Prop where
  bufLen_eq : s.obj.bufLen = bufLen
  room : contentSize.toNat ≤ bufLen.toNat
  tiled : s.obj.Tiled s.used
  addr : ∀ addr ∈ s.live, contentSize.toNat ≤ addr

theorem inv_init {bufLen : UInt32} {s : State} (h : (machine bufLen).init s) : Inv bufLen s := by
  obtain ⟨⟨mallocObj, mallocBuf, hinit⟩, hlive⟩ := h
  unfold xInitMem at hinit
  split at hinit
  · cases hinit
  rename_i hlen
  split at hinit
  · cases hinit
  split at hinit
  · cases hinit
  have hobj := Option.some.inj hinit
  rw [UInt32.not_lt, UInt32.le_iff_toNat_le, contentSize_toNat] at hlen
  refine ⟨by rw [← hobj], hlen, ?_, by simp [hlive]⟩
  have hused : s.used = [] := by
    unfold State.used
    rw [hlive]
    rfl
  unfold AllocObj.Tiled
  rw [hused, List.append_nil, ← hobj]
  apply Tiling.single
  · show 0 < bufLen.toNat
    omega
  · unfold AllocObj.nodeSize
    dsimp only
    rw [Function.update_self, UInt32.toNat_sub_of_le, contentSize_toNat]
    · omega
    · rw [UInt32.le_iff_toNat_le, contentSize_toNat]
      exact hlen

theorem Inv.small {bufLen : UInt32} {s : State} (hbuf : bufLen.toNat < 2 ^ 31)
    (hinv : Inv bufLen s) : s.obj.bufLen.toNat < 2 ^ 31 := by
  rw [hinv.bufLen_eq]
  exact hbuf

theorem State.used_erase {s : State} {addr : Nat} (hmem : addr ∈ s.live) (o : AllocObj) :
    s.used.Perm
      ((addr - contentSize.toNat) :: (⟨o, s.live.erase addr⟩ : State).used) :=
  (List.perm_cons_erase hmem).map _

theorem inv_step {bufLen : UInt32} (hbuf : bufLen.toNat < 2 ^ 31) {s s' : State} {a : Act}
    (hinv : Inv bufLen s) (hstep : step s a = some s') : Inv bufLen s' := by
  have hsmall := hinv.small hbuf
  obtain ⟨size, rfl, halloc, rfl⟩ | ⟨size, node, o', rfl, halloc, rfl⟩ | ⟨addr, rfl, hmem, rfl⟩ :=
    step_cases hstep
  · exact ⟨hinv.bufLen_eq, hinv.room, hinv.tiled, hinv.addr⟩
  · obtain ⟨htiled, hlen, -, -⟩ := tiled_allocContent hinv.tiled hsmall halloc
    refine ⟨hlen.trans hinv.bufLen_eq, hinv.room, ?_, ?_⟩
    · have hused : (⟨{ o' with allocTimes := o'.allocTimes + 1 },
          (node + contentSize.toNat) :: s.live⟩ : State).used = node :: s.used := by
        simp [State.used]
      rw [hused]
      exact htiled
    · intro addr hmem
      rcases List.mem_cons.mp hmem with rfl | hmem
      · exact Nat.le_add_left _ _
      · exact hinv.addr addr hmem
  · obtain ⟨htiled, hlen⟩ := tiled_freeContent hinv.tiled hsmall
      (State.used_erase hmem (s.obj.xFree addr))
    exact ⟨hlen.trans hinv.bufLen_eq, hinv.room, htiled,
      fun a ha => hinv.addr a (List.mem_of_mem_erase ha)⟩

theorem inv_of_reach {bufLen : UInt32} (hbuf : bufLen.toNat < 2 ^ 31) {s : State}
    (hreach : (machine bufLen).Reach s) : Inv bufLen s := by
  apply hreach.invariant
  · exact fun s hs => inv_init hs
  · exact fun s a s' hinv _ hs => inv_step hbuf hinv hs

theorem Inv.allocSpec {bufLen : UInt32} (hbuf : bufLen.toNat < 2 ^ 31) {s : State}
    (hinv : Inv bufLen s) (size : UInt32) : AllocSpec s size := by
  have hsmall := hinv.small hbuf
  cases halloc : s.obj.allocContent size with
  | none =>
      have hcall : s.obj.xAlloc size = (none, { s.obj with status := .unavailable }) := by
        simp only [AllocObj.xAlloc, halloc]
      constructor
      · -- without an area no node was large enough
        rcases allocContent_cases s.obj size with ⟨-, hall⟩ | ⟨a, hmem, hlen, heq | ⟨-, heq⟩⟩
        · simp only [hcall, true_iff]
          exact hall
        · rw [heq] at halloc
          cases halloc
        · rw [heq] at halloc
          cases halloc
      · intro _
        rw [hcall]
        exact ⟨rfl, rfl⟩
      · intro addr haddr
        rw [hcall] at haddr
        cases haddr
      · intro addr haddr
        rw [hcall] at haddr
        cases haddr
  | some res =>
      obtain ⟨node, o'⟩ := res
      have hcall : s.obj.xAlloc size =
          (some (node + contentSize.toNat), { o' with allocTimes := o'.allocTimes + 1 }) := by
        simp only [AllocObj.xAlloc, halloc]
      obtain ⟨htiled, -, hlarge, -⟩ := tiled_allocContent hinv.tiled hsmall halloc
      constructor
      · rcases allocContent_cases s.obj size with ⟨hnone, -⟩ | ⟨a, hmem, hlen, -⟩
        · rw [hnone] at halloc
          cases halloc
        · simp only [hcall, reduceCtorEq, false_iff]
          intro hall
          exact absurd (hall a hmem) (UInt32.not_lt.mpr hlen)
      · intro hnone
        rw [hcall] at hnone
        cases hnone
      · intro addr haddr
        rw [hcall] at haddr ⊢
        obtain rfl := Option.some.inj haddr
        simpa using hlarge
      · intro addr haddr other hother
        rw [hcall] at haddr ⊢
        obtain rfl := Option.some.inj haddr
        have hge := hinv.addr other hother
        have hmem : other - contentSize.toNat ∈ s.used := List.mem_map_of_mem hother
        have hnode : node ∈ o'.freeList ++ node :: s.used := by simp
        have hmem' : other - contentSize.toNat ∈ o'.freeList ++ node :: s.used := by simp [hmem]
        have hne : node ≠ other - contentSize.toNat := by
          rintro rfl
          have hnodup := (List.nodup_append.mp htiled.nodup).2.1
          exact (List.nodup_cons.mp hnodup).1 hmem
        -- two nodes of the tiling do not overlap
        have hdisj := htiled.disjoint_of_mem hnode hmem' hne
        unfold AllocObj.nodeSize at hdisj
        simp only [Nat.add_sub_cancel]
        omega

/-- In every state of every run the nodes tile the buffer, and `x_alloc` hands out a
large enough piece that nobody else uses, or finds no free node with room. -/
theorem xmem_integrity {bufLen : UInt32} (hbuf : bufLen.toNat < 2 ^ 31) {s : State}
    (hreach : (machine bufLen).Reach s) :
    Tiling s.obj.nodeSize bufLen.toNat (s.obj.freeList ++ s.used) ∧
      ∀ size, AllocSpec s size := by
  have hinv := inv_of_reach hbuf hreach
  refine ⟨?_, hinv.allocSpec hbuf⟩
  have htiled := hinv.tiled
  unfold AllocObj.Tiled at htiled
  rwa [hinv.bufLen_eq] at htiled

/-- A buffer of 256 bytes: the third piece takes a whole node, the fourth one finds no room,
and the first two become one free node. -/
theorem xmem_integrity_256 : ∃ s, (machine 256).Reach s ∧ s.live = [8] ∧
    s.obj.freeList = [100] ∧ s.obj.len 100 = 148 ∧
    Tiling s.obj.nodeSize 256 (s.obj.freeList ++ s.used) ∧ ∀ size, AllocSpec s size := by
  obtain ⟨o, ho⟩ : ∃ o, xInitMem 256 true true = some o := ⟨_, rfl⟩
  obtain ⟨s, hrun, hlive, hfree, hlen⟩ : ∃ s, (machine 256).run ⟨o, []⟩
      [.alloc 40, .alloc 100, .alloc 60, .alloc 10, .free 108, .free 216] = some s ∧
        s.live = [8] ∧ s.obj.freeList = [100] ∧ s.obj.len 100 = 148 := by
    rw [← Option.some.inj ho]
    exact ⟨_, rfl, rfl, rfl, rfl⟩
  have hreach : (machine 256).Reach s := Lib.Machine.reach_of_run _ ⟨⟨true, true, ho⟩, rfl⟩ hrun
  obtain ⟨htiling, hspec⟩ := xmem_integrity (by decide) hreach
  exact ⟨s, hreach, hlive, hfree, hlen, htiling, hspec⟩

end Xmem
end AndroidLinux
