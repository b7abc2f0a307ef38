import AndroidLinux.Binder.ParcelRead
import AndroidLinux.Binder.ParcelWrite
import AndroidLinux.Lib.Transition

/-!
# Proxies of memory heaps

The proxies of one binder with its entry in the `HeapCache`.  `find_heap`, `free_heap` and
the sections of `mLock` are single steps; `calls` has the place of every call of
`assertMapped`.  A real heap goes, with its mapping, when neither the entry nor a call
refers to it.  `source` is the real heap that a proxy was mapped from.
-/

namespace AndroidLinux
namespace Binder

open Lib

/-- The descriptor and the words of the reply to `HEAP_ID`. -/
structure HeapReply where
  fd : Int32
  size : Int32
  flags : Int32
  offset : Int32
  deriving DecidableEq

/-- What `assertReallyMapped` reads from the reply. -/
def HeapReply.read (reply : Parcel) : HeapReply :=
  let fd := reply.readFileDescriptor
  let size := fd.2.readInt32
  let flags := size.2.readInt32
  let offset := flags.2.readInt32
  ⟨fd.1, size.1, flags.1, offset.1⟩

/-- `mBase` is `none` for `MAP_FAILED`. -/
structure BpMemoryHeap where
  mHeapId : Int32
  mBase : Option Nat
  mSize : UInt32
  mFlags : UInt32
  mOffset : UInt32
  mRealHeap : Bool
  deriving DecidableEq

namespace BpMemoryHeap

def fresh : BpMemoryHeap := ⟨-1, none, 0, 0, 0, false⟩

/-- The section of `assertReallyMapped`, with the answers of `dup` and `mmap`; `mmap` has
none for a bad descriptor. -/
def mapReal (p : BpMemoryHeap) (reply : HeapReply) (fd : Int32) (mmap : Option Nat) :
    BpMemoryHeap :=
  if p.mHeapId = -1 then
    let base := if fd = -1 then none else mmap
    let p := { p with mRealHeap := true, mBase := base }
    if base = none then p
    else { p with
      mSize := reply.size.toUInt32
      mFlags := reply.flags.toUInt32
      mOffset := reply.offset.toUInt32
      mHeapId := fd }
  else p

/-- The section of `assertMapped`, with the answer of `dup`. -/
def share (p heap : BpMemoryHeap) (fd : Int32) : BpMemoryHeap :=
  if p.mHeapId = -1 then
    { p with mBase := heap.mBase, mSize := heap.mSize, mOffset := heap.mOffset, mHeapId := fd }
  else p

def getSize (p : BpMemoryHeap) : UInt32 := p.mSize
def getFlags (p : BpMemoryHeap) : UInt32 := p.mFlags
def getOffset (p : BpMemoryHeap) : UInt32 := p.mOffset

end BpMemoryHeap

/-! ## The cache -/

structure HeapEntry where
  heap : Nat
  count : Int32
  deriving DecidableEq

structure HeapProxy where
  proxy : BpMemoryHeap
  alive : Bool
  source : Option Nat
  deriving DecidableEq

/-- The next step of a call of `assertMapped` on the proxy `p`. -/
inductive HeapCall
  | finding (p : Nat)
  | mapping (p h : Nat)
  | testing (p h : Nat)
  | locking (p h : Nat)
  | freeing (p h : Nat)
  | returned
  deriving DecidableEq

namespace HeapCall

def proxy : HeapCall → Option Nat
  | .finding p => some p
  | .mapping p _ => some p
  | .testing p _ => some p
  | .locking p _ => some p
  | .freeing p _ => some p
  | .returned => none

/-- The real heap that the call refers to. -/
def heap : HeapCall → Option Nat
  | .mapping _ h => some h
  | .testing _ h => some h
  | .locking _ h => some h
  | .freeing _ h => some h
  | _ => none

end HeapCall

structure HeapSystem where
  entry : Option HeapEntry
  heaps : List BpMemoryHeap
  proxies : List HeapProxy
  calls : List HeapCall
  deriving DecidableEq

/-- The answers of the server and the kernel. -/
structure HeapAnswers where
  reply : HeapReply
  fd : Int32
  mmap : Option Nat
  dup : Int32

namespace HeapSystem

def initial : HeapSystem := ⟨none, [], [], []⟩

def setCall (s : HeapSystem) (i : Nat) (c : HeapCall) : HeapSystem :=
  { s with calls := s.calls.set i c }

/-- `HeapCache::find_heap`. -/
def findHeap (s : HeapSystem) : Nat × HeapSystem :=
  match s.entry with
  | some e => (e.heap, { s with entry := some { e with count := e.count + 1 } })
  | none =>
      (s.heaps.length, { s with
        heaps := s.heaps ++ [BpMemoryHeap.fresh]
        entry := some ⟨s.heaps.length, 1⟩ })

/-- `HeapCache::free_heap`. -/
def freeHeap (s : HeapSystem) : HeapSystem :=
  match s.entry with
  | some e =>
      if e.count = 1 then { s with entry := none }
      else { s with entry := some { e with count := e.count - 1 } }
  | none => s

/-- The proxy after the section of `assertMapped`. -/
def shareProxy (p : HeapProxy) (h : Nat) (heap : BpMemoryHeap) (dup : Int32) : HeapProxy :=
  if p.proxy.mHeapId = -1 then { p with proxy := p.proxy.share heap dup, source := some h } else p

/-- One step of the call in place `i`. -/
def stepCall (s : HeapSystem) (i : Nat) (a : HeapAnswers) : HeapCall → Option HeapSystem
  | .finding p => some (s.findHeap.2.setCall i (.mapping p s.findHeap.1))
  | .mapping p h =>
      let heaps := s.heaps.modify h fun heap => heap.mapReal a.reply a.fd a.mmap
      some ({ s with heaps := heaps }.setCall i (.testing p h))
  | .testing p h =>
      (s.heaps[h]?).map fun heap =>
        s.setCall i (if heap.mBase = none then .freeing p h else .locking p h)
  | .locking p h =>
      (s.heaps[h]?).map fun heap =>
        { s with proxies := s.proxies.modify p fun q => shareProxy q h heap a.dup }.setCall i
          .returned
  | .freeing _ _ => some (s.freeHeap.setCall i .returned)
  | .returned => none

/-- `~BpMemoryHeap` of a proxy that is not a real heap. -/
def destroyProxy (s : HeapSystem) (p : Nat) (q : HeapProxy) : HeapSystem :=
  let s := if q.proxy.mHeapId = -1 then s else s.freeHeap
  { s with proxies := s.proxies.set p { q with alive := false } }

inductive Action
  | construct
  | assertMapped (p : Nat)
  | proceed (i : Nat) (a : HeapAnswers)
  | destroy (p : Nat)

/-- A proxy is destroyed when nobody refers to it, so that no call is in progress on it. -/
def step (s : HeapSystem) : Action → Option HeapSystem
  | .construct => some { s with proxies := s.proxies ++ [⟨.fresh, true, none⟩] }
  | .assertMapped p =>
      (s.proxies[p]?).bind fun q =>
        if q.alive then
          some (if q.proxy.mHeapId = -1 then { s with calls := s.calls ++ [.finding p] } else s)
        else none
  | .proceed i a => (s.calls[i]?).bind (s.stepCall i a)
  | .destroy p =>
      (s.proxies[p]?).bind fun q =>
        if q.alive ∧ ∀ c ∈ s.calls, c.proxy ≠ some p then some (s.destroyProxy p q) else none

def machine : Machine HeapSystem Action where
  init s := s = initial
  step := step

end HeapSystem
end Binder
end AndroidLinux
