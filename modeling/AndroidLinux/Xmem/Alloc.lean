import AndroidLinux.Lib.Transition

/-!
# The allocator of `xmem.c`

`x_init_mem` takes one buffer and cuts it into nodes.  Every node starts with a
`struct content_t` of eight bytes (the `next` pointer and the length of the area behind
it).  The unused nodes are linked in `free_list` in no particular order.

Nodes are named by their offset in the buffer, and the length fields of all nodes, used
or not, are one map.  The links of the free list are the order of a list: a node that is
unlinked is erased, a node that takes the place of another stands at its position.
Lengths and sizes are 32-bit numbers, with the arithmetic of `HI_U32`.
-/

namespace AndroidLinux
namespace Xmem

/-- `sizeof(struct content_t)`. -/
def contentSize : UInt32 := 8

/-- `GARBAGE_LEN_THRESHOLD`. -/
def garbageLenThreshold : UInt32 := 20

/-- `MEM_ALIGN_SIZE`. -/
def memAlignSize (size : UInt32) : UInt32 :=
  (size + 3) &&& 0xFFFFFFFC

/-- `XMEM_STATUS`. -/
inductive XmemStatus
  | unavailable
  | available
  deriving DecidableEq

/-- `ALLOC_OBJ_S` with the length fields of the nodes in its buffer. -/
structure AllocObj where
  bufLen : UInt32
  freeList : List Nat
  len : Nat → UInt32
  status : XmemStatus
  allocTimes : UInt32
  freeTimes : UInt32

/-- What the loop of `alloc_content` finds: a node that is taken at once, or the best of
the longer ones. -/
inductive Found
  | fit (node : Nat)
  | best (newNode : Option Nat)
  deriving DecidableEq

namespace AllocObj

/-- The offset behind the area of a node. -/
def areaEnd (o : AllocObj) (node : Nat) : Nat :=
  node + (contentSize.toNat + (o.len node).toNat)

/-- The loop of `alloc_content`; `newNode` is the shortest node so far that is longer
than the first threshold. -/
def search (o : AllocObj) (len : UInt32) : List Nat → Option Nat → Found
  | [], newNode => .best newNode
  | node :: rest, newNode =>
      if len ≤ o.len node then
        if o.len node ≤ len + garbageLenThreshold then
          .fit node
        else
          match newNode with
          | none => search o len rest (some node)
          | some best =>
              if o.len node < o.len best then search o len rest (some node)
              else search o len rest (some best)
      else
        search o len rest newNode

/-- Take a node out of the free list. -/
def unlink (o : AllocObj) (node : Nat) : AllocObj :=
  { o with freeList := o.freeList.erase node }

/-- Cut `size` bytes off the end of a node. -/
def divide (o : AllocObj) (node : Nat) (size : UInt32) : Nat × AllocObj :=
  let rest := o.len node - size
  let newNode := node + (contentSize.toNat + rest.toNat)
  (newNode,
    { o with
      len := Function.update (Function.update o.len node rest) newNode (size - contentSize) })

/-- `alloc_content`. -/
def allocContent (o : AllocObj) (len : UInt32) : Option (Nat × AllocObj) :=
  match o.search len o.freeList none with
  | .fit node => some (node, o.unlink node)
  | .best none => none
  | .best (some node) =>
      let size := memAlignSize (len + contentSize)
      if size + 2 * garbageLenThreshold ≤ o.len node then
        some (o.divide node size)
      else
        some (node, o.unlink node)

/-- The loop of `defrag_content`; `pre` are the nodes it has passed.  `none` stands for
`HI_FAILURE`. -/
def defragLoop (o : AllocObj) (node : Nat) : List Nat → List Nat → Option AllocObj
  | _, [] => none
  | pre, list :: rest =>
      if o.areaEnd list = node then
        some { o with
          len := Function.update o.len list (o.len list + (contentSize + o.len node)) }
      else if o.areaEnd node = list then
        some { o with
          len := Function.update o.len node (o.len node + (contentSize + o.len list))
          freeList := pre ++ node :: rest }
      else
        defragLoop o node (pre ++ [list]) rest

/-- `defrag_content`. -/
def defragContent (o : AllocObj) (node : Nat) : Option AllocObj :=
  o.defragLoop node [] o.freeList

/-- `free_content`, with `add_content_list` for a node that has no neighbour. -/
def freeContent (o : AllocObj) (node : Nat) : AllocObj :=
  match o.defragContent node with
  | some o' => o'
  | none => { o with freeList := node :: o.freeList }

/-- `x_alloc`: the address handed out, or `none` for `NULL`. -/
def xAlloc (o : AllocObj) (size : UInt32) : Option Nat × AllocObj :=
  match o.allocContent size with
  | none => (none, { o with status := .unavailable })
  | some (node, o') =>
      (some (node + contentSize.toNat), { o' with allocTimes := o'.allocTimes + 1 })

/-- `x_free` of an address that is not `NULL`. -/
def xFree (o : AllocObj) (addr : Nat) : AllocObj :=
  let o' := o.freeContent (addr - contentSize.toNat)
  { o' with status := .available, freeTimes := o'.freeTimes + 1 }

/-- `x_get_free_mem_info`: the bytes and the number of the free nodes. -/
def xGetFreeMemInfo (o : AllocObj) : UInt32 × UInt32 :=
  o.freeList.foldl (fun info node => (info.1 + o.len node, info.2 + 1)) (0, 0)

end AllocObj

/-- `x_init_mem` with a handle that is not `NULL`.  `mallocObj` and `mallocBuf` are the
outcomes of its two allocations, and `none` stands for `HI_FAILURE`. -/
def xInitMem (bufLen : UInt32) (mallocObj mallocBuf : Bool) : Option AllocObj :=
  if bufLen < contentSize then
    none
  else if mallocObj = false then
    none
  else if mallocBuf = false then
    none
  else
    some
      { bufLen := bufLen
        freeList := [0]
        len := Function.update (fun _ => 0) 0 (bufLen - contentSize)
        status := .available
        allocTimes := 0
        freeTimes := 0 }

/-! ## Runs -/

/-- An allocator and the addresses that were handed out and not freed since. -/
structure State where
  obj : AllocObj
  live : List Nat

/-- The two calls. -/
inductive Act
  | alloc (size : UInt32)
  | free (addr : Nat)

/-- One call.  Only an address that is live is freed. -/
def step (s : State) : Act → Option State
  | .alloc size =>
      match s.obj.xAlloc size with
      | (none, o) => some ⟨o, s.live⟩
      | (some addr, o) => some ⟨o, addr :: s.live⟩
  | .free addr =>
      if addr ∈ s.live then some ⟨s.obj.xFree addr, s.live.erase addr⟩ else none

/-- Runs of an allocator for a buffer of `bufLen` bytes. -/
def machine (bufLen : UInt32) : Lib.Machine State Act where
  init := fun s => (∃ mallocObj mallocBuf, xInitMem bufLen mallocObj mallocBuf = some s.obj) ∧
    s.live = []
  step := step

/-- What a call can do. -/
theorem step_cases {s s' : State} {a : Act} (hstep : step s a = some s') :
    (∃ size, a = .alloc size ∧ s.obj.allocContent size = none
        ∧ s' = ⟨{ s.obj with status := .unavailable }, s.live⟩)
      ∨ (∃ size node o, a = .alloc size ∧ s.obj.allocContent size = some (node, o)
        ∧ s' = ⟨{ o with allocTimes := o.allocTimes + 1 },
          (node + contentSize.toNat) :: s.live⟩)
      ∨ ∃ addr, a = .free addr ∧ addr ∈ s.live
        ∧ s' = ⟨s.obj.xFree addr, s.live.erase addr⟩ := by
  cases a with
  | alloc size =>
      simp only [step, AllocObj.xAlloc] at hstep
      cases halloc : s.obj.allocContent size with
      | none =>
          rw [halloc] at hstep
          exact .inl ⟨size, rfl, halloc, (Option.some.inj hstep).symm⟩
      | some res =>
          rw [halloc] at hstep
          exact .inr (.inl ⟨size, res.1, res.2, rfl, halloc, (Option.some.inj hstep).symm⟩)
  | free addr =>
      simp only [step] at hstep
      split at hstep
      · rename_i hmem
        exact .inr (.inr ⟨addr, rfl, hmem, (Option.some.inj hstep).symm⟩)
      · cases hstep

end Xmem
end AndroidLinux
