import AndroidLinux.Binder.HeapReplies
import AndroidLinux.Lib.Tally

/-!
# What a client sees of a heap

`LooksLike` compares the getters of a mapped `BpMemoryHeap` with those of the server.  The
section of `assertMapped` copies the size and the offset of the real heap but not its
flags, so that a proxy that shares a mapping has the flags 0.  `BpMemory` is the other
client: its part of a heap never exceeds the heap.
-/

namespace AndroidLinux
namespace Binder

open Lib

/-- The getters return what those of the server return. -/
def BpMemoryHeap.LooksLike (p : BpMemoryHeap) (heap : MemoryHeap) : Prop :=
  p.getSize = heap.getSize ∧ p.getFlags = heap.getFlags ∧ p.getOffset = heap.getOffset

/-- Where `dup` and `mmap` succeed the reply is one without error from the server. -/
def HeapAnswers.FromServer (a : HeapAnswers) (heap : MemoryHeap) : Prop :=
  a.fd ≠ -1 → a.mmap ≠ none → ∃ (reply client : Parcel) (r : Parcel.Received),
    (heap.onTransact reply.initState).mError = noError ∧
      Parcel.Delivered (heap.onTransact reply.initState) r ∧
        a.reply = HeapReply.read (client.ipcSetDataReference r)

theorem HeapAnswers.FromServer.words {a : HeapAnswers} {heap : MemoryHeap}
    (h : a.FromServer heap) (hfd : a.fd ≠ -1) (hmmap : a.mmap ≠ none) :
    a.reply.size.toUInt32 = heap.getSize ∧ a.reply.flags.toUInt32 = heap.getFlags ∧
      a.reply.offset.toUInt32 = heap.getOffset := by
  obtain ⟨reply, client, r, herror, hdelivered, hread⟩ := h hfd hmmap
  obtain ⟨fd, hwords⟩ := Parcel.read_delivered heap reply client herror hdelivered
  rw [hread, hwords]
  exact ⟨rfl, rfl, rfl⟩

/-- What a real heap is before and after it is mapped. -/
def BpMemoryHeap.Real (p : BpMemoryHeap) (heap : MemoryHeap) : Prop :=
  p.mHeapId = -1 ∧ p.mBase = none ∨
    p.mHeapId ≠ -1 ∧ p.mBase ≠ none ∧ p.mRealHeap = true ∧ p.LooksLike heap

/-- What a sharing proxy is. -/
def BpMemoryHeap.Shared (p : BpMemoryHeap) (heap : MemoryHeap) : Prop :=
  p.mRealHeap = false ∧ p.mFlags = 0 ∧
    (p.mHeapId ≠ -1 → p.mSize = heap.getSize ∧ p.mOffset = heap.getOffset)

theorem BpMemoryHeap.Real.mapReal {p : BpMemoryHeap} {heap : MemoryHeap} (h : p.Real heap)
    {a : HeapAnswers} (ha : a.FromServer heap) :
    (p.mapReal a.reply a.fd a.mmap).Real heap ∧
      (p.mBase ≠ none → p.mapReal a.reply a.fd a.mmap = p) := by
  unfold BpMemoryHeap.mapReal
  rcases h with ⟨hid, hbase⟩ | hmapped
  · refine ⟨?_, fun hne => absurd hbase hne⟩
    rw [if_pos hid]
    dsimp only
    by_cases hfd : a.fd = -1
    · rw [if_pos hfd, if_pos rfl]
      exact .inl ⟨hid, rfl⟩
    · rw [if_neg hfd]
      by_cases hmmap : a.mmap = none
      · rw [if_pos hmmap]
        exact .inl ⟨hid, hmmap⟩
      · rw [if_neg hmmap]
        exact .inr ⟨hfd, hmmap, rfl, ha.words hfd hmmap⟩
  · rw [if_neg hmapped.1]
    exact ⟨.inr hmapped, fun _ => rfl⟩

theorem BpMemoryHeap.Shared.share {p real : BpMemoryHeap} {heap : MemoryHeap}
    (h : p.Shared heap) (hreal : real.Real heap) (hbase : real.mBase ≠ none) (dup : Int32) :
    (p.share real dup).Shared heap := by
  unfold BpMemoryHeap.share
  split
  · rcases hreal with ⟨-, hnone⟩ | ⟨-, -, -, hlooks⟩
    · exact absurd hnone hbase
    · exact ⟨h.1, h.2.1, fun _ => ⟨hlooks.1, hlooks.2.2⟩⟩
  · exact h

namespace HeapSystem

/-- The replies to `HEAP_ID` are those of one server. -/
def Serves (heap : MemoryHeap) (s : HeapSystem) : Action → Prop
  | .proceed i a => ∀ p h, s.calls[i]? = some (.mapping p h) → a.FromServer heap
  | _ => True

structure Views (heap : MemoryHeap) (s : HeapSystem) : Prop where
  real : ∀ p ∈ s.heaps, p.Real heap
  shared : ∀ q ∈ s.proxies, q.proxy.Shared heap
  locking : ∀ p h, .locking p h ∈ s.calls → ∃ real, s.heaps[h]? = some real ∧ real.mBase ≠ none

variable {heap : MemoryHeap} {s s' : HeapSystem}

theorem shared_shareProxy {q : HeapProxy} {real : BpMemoryHeap} (h : q.proxy.Shared heap)
    (hreal : real.Real heap) (hbase : real.mBase ≠ none) (k : Nat) (dup : Int32) :
    (shareProxy q k real dup).proxy.Shared heap := by
  unfold shareProxy
  split
  · exact h.share hreal hbase dup
  · exact h

/-- A new call, or one that goes on, is not in front of the section of `assertMapped`. -/
theorem Views.setCall (h : s.Views heap) {i : Nat} {new : HeapCall}
    (hnew : ∀ p k, new = .locking p k → ∃ real, s.heaps[k]? = some real ∧ real.mBase ≠ none) :
    (s.setCall i new).Views heap := by
  refine ⟨h.real, h.shared, fun p k hmem => ?_⟩
  rcases List.mem_or_eq_of_mem_set hmem with hmem | heq
  · exact h.locking p k hmem
  · exact hnew p k heq.symm

theorem Views.findHeap (h : s.Views heap) : s.findHeap.2.Views heap := by
  unfold HeapSystem.findHeap
  cases s.entry with
  | some e => exact ⟨h.real, h.shared, h.locking⟩
  | none =>
      refine ⟨fun p hp => ?_, h.shared, fun p k hmem => ?_⟩
      · rcases List.mem_append.mp hp with hp | hp
        · exact h.real p hp
        · rw [List.mem_singleton.mp hp]
          exact .inl ⟨rfl, rfl⟩
      · obtain ⟨real, hk, hbase⟩ := h.locking p k hmem
        have hlt := (List.getElem?_eq_some_iff.mp hk).1
        exact ⟨real, (List.getElem?_append_left hlt).trans hk, hbase⟩

theorem Views.freeHeap (h : s.Views heap) : s.freeHeap.Views heap := by
  unfold HeapSystem.freeHeap
  cases s.entry with
  | none => exact h
  | some e =>
      dsimp only
      split
      · exact ⟨h.real, h.shared, h.locking⟩
      · exact ⟨h.real, h.shared, h.locking⟩

theorem Views.mapping (h : s.Views heap) {a : HeapAnswers} (ha : a.FromServer heap) (k : Nat) :
    Views heap { s with
      heaps := s.heaps.modify k fun p => p.mapReal a.reply a.fd a.mmap } := by
  refine ⟨fun p hp => ?_, h.shared, fun p j hmem => ?_⟩
  · rcases mem_modify_cases hp with hp | ⟨real, hreal, rfl⟩
    · exact h.real p hp
    · exact ((h.real real (List.mem_of_getElem? hreal)).mapReal ha).1
  · obtain ⟨real, hreal, hbase⟩ := h.locking p j hmem
    refine ⟨real, ?_, hbase⟩
    rw [List.getElem?_modify, hreal]
    split
    · exact congrArg some (((h.real real (List.mem_of_getElem? hreal)).mapReal ha).2 hbase)
    · rfl

theorem Views.proceed (h : s.Views heap) {i : Nat} {a : HeapAnswers} {c : HeapCall}
    (hcall : s.calls[i]? = some c)
    (hserves : ∀ p k, s.calls[i]? = some (.mapping p k) → a.FromServer heap)
    (hstep : s.stepCall i a c = some s') : s'.Views heap := by
  cases c with
  | finding p =>
      cases hstep
      exact h.findHeap.setCall fun _ _ hne => (nomatch hne)
  | mapping p k =>
      cases hstep
      exact (h.mapping (hserves p k hcall) k).setCall fun _ _ hne => (nomatch hne)
  | testing p k =>
      obtain ⟨real, hreal, rfl⟩ := Option.map_eq_some_iff.mp hstep
      refine h.setCall fun p' k' heq => ?_
      by_cases hbase : real.mBase = none
      · rw [if_pos hbase] at heq
        cases heq
      · rw [if_neg hbase] at heq
        cases heq
        exact ⟨real, hreal, hbase⟩
  | locking p k =>
      obtain ⟨real, hreal, rfl⟩ := Option.map_eq_some_iff.mp hstep
      obtain ⟨real', hreal', hbase⟩ := h.locking p k (List.mem_of_getElem? hcall)
      obtain rfl : real = real' := Option.some.inj (hreal.symm.trans hreal')
      -- the view that is shared has been tested by this call
      have hviews : Views heap { s with
          proxies := s.proxies.modify p fun q => shareProxy q k real a.dup } := by
        refine ⟨h.real, fun q hq => ?_, h.locking⟩
        rcases mem_modify_cases hq with hq | ⟨q', hq', rfl⟩
        · exact h.shared q hq
        · exact shared_shareProxy (h.shared q' (List.mem_of_getElem? hq'))
            (h.real real (List.mem_of_getElem? hreal)) hbase k a.dup
      exact hviews.setCall fun _ _ hne => (nomatch hne)
  | freeing p k =>
      cases hstep
      exact h.freeHeap.setCall fun _ _ hne => (nomatch hne)
  | returned => cases hstep

theorem Views.destroyProxy (h : s.Views heap) {p : Nat} {q : HeapProxy}
    (hq : s.proxies[p]? = some q) : (s.destroyProxy p q).Views heap := by
  have hfreed : (if q.proxy.mHeapId = -1 then s else s.freeHeap).Views heap := by
    split
    · exact h
    · exact h.freeHeap
  refine ⟨hfreed.real, fun r hr => ?_, hfreed.locking⟩
  rcases List.mem_or_eq_of_mem_set hr with hr | rfl
  · exact hfreed.shared r hr
  · exact h.shared q (List.mem_of_getElem? hq)

theorem Views.step {a : Action} (h : s.Views heap) (hserves : s.Serves heap a)
    (hstep : s.step a = some s') : s'.Views heap := by
  cases a with
  | construct =>
      cases hstep
      refine ⟨h.real, fun q hq => ?_, h.locking⟩
      rcases List.mem_append.mp hq with hq | hq
      · exact h.shared q hq
      · rw [List.mem_singleton.mp hq]
        exact ⟨rfl, rfl, fun hne => absurd rfl hne⟩
  | assertMapped p =>
      obtain ⟨q, hq, hstep⟩ := Option.bind_eq_some_iff.mp hstep
      obtain ⟨-, ⟨⟩⟩ := Option.ite_none_right_eq_some.mp hstep
      split
      · refine ⟨h.real, h.shared, fun p' k hmem => ?_⟩
        rcases List.mem_append.mp hmem with hmem | hmem
        · exact h.locking p' k hmem
        · cases List.mem_singleton.mp hmem
      · exact h
  | proceed i a =>
      obtain ⟨c, hcall, hstep⟩ := Option.bind_eq_some_iff.mp hstep
      exact h.proceed hcall hserves hstep
  | destroy p =>
      obtain ⟨q, hq, hstep⟩ := Option.bind_eq_some_iff.mp hstep
      obtain ⟨-, ⟨⟩⟩ := Option.ite_none_right_eq_some.mp hstep
      exact h.destroyProxy hq

theorem views_of_reach (h : machine.ReachWhen (Serves heap) s) : s.Views heap := by
  refine Machine.ReachWhen.invariant (I := Views heap) ?_
    (fun s a s' hs hserves hstep => hs.step hserves hstep) h
  rintro s rfl
  exact ⟨fun _ hp => (nomatch hp), fun _ hq => (nomatch hq), fun _ _ hc => (nomatch hc)⟩

/-- `p` is mapped: the cached real heap, or a proxy that shares its mapping. -/
def HasMapped (s : HeapSystem) (p : BpMemoryHeap) : Prop :=
  p.mHeapId ≠ -1 ∧ (p ∈ s.heaps ∨ ∃ q ∈ s.proxies, q.proxy = p)

theorem Views.looksLike_iff (h : s.Views heap) {p : BpMemoryHeap} (hp : s.HasMapped p) :
    p.LooksLike heap ↔ p.mRealHeap = true ∨ heap.getFlags = 0 := by
  obtain ⟨hid, hreal | ⟨q, hq, rfl⟩⟩ := hp
  · rcases h.real p hreal with ⟨hunmapped, -⟩ | ⟨-, -, hrealHeap, hlooks⟩
    · exact absurd hunmapped hid
    · exact iff_of_true hlooks (.inl hrealHeap)
  · obtain ⟨hrealHeap, hflags, hmapped⟩ := h.shared q hq
    obtain ⟨hsize, hoffset⟩ := hmapped hid
    rw [hrealHeap]
    constructor
    · intro hlooks
      exact .inr (hlooks.2.1.symm.trans hflags)
    · rintro (hfalse | hzero)
      · cases hfalse
      · exact ⟨hsize, hflags.trans hzero.symm, hoffset⟩

end HeapSystem

/-! ## Parts of a heap -/

/-- The reply to `GET_MEMORY`; a binder is named by a number. -/
structure MemoryReply where
  heap : Option Nat
  offset : Int32
  size : Int32

structure BpMemory where
  mHeap : Option Nat
  mOffset : Int32
  mSize : UInt32
  deriving DecidableEq

namespace BpMemory

def fresh : BpMemory := ⟨none, 0, 0⟩

/-- `getMemory`, with the reply if `transact` succeeds and the `getSize` of the heaps. -/
def getMemory (m : BpMemory) (reply : Option MemoryReply) (getSize : Nat → UInt32) :
    BpMemory :=
  if m.mHeap = none then
    match reply with
    | none => m
    | some reply =>
        let o := reply.offset
        let s := reply.size.toUInt32
        match reply.heap with
        | none => m
        | some heap =>
            let heapSize := getSize heap
            if s ≤ heapSize ∧ 0 ≤ o ∧ o.toUInt32 ≤ heapSize - s then ⟨some heap, o, s⟩
            else ⟨some heap, 0, 0⟩
  else m

/-- The heap that `getMemory` returns. -/
def returned (m : BpMemory) : Option Nat :=
  if 0 < m.mSize then m.mHeap else none

end BpMemory

/-- A `BpMemory` and what `getSize` of each heap returns. -/
structure MemorySystem where
  memory : BpMemory
  getSize : Nat → UInt32

namespace MemorySystem

inductive Action
  | getMemory (reply : Option MemoryReply)
  | map (heap : Nat) (size : UInt32)

/-- The size of a heap is 0 until it is mapped, and does not change afterwards. -/
def step (s : MemorySystem) : Action → Option MemorySystem
  | .getMemory reply => some { s with memory := s.memory.getMemory reply s.getSize }
  | .map heap size =>
      if s.getSize heap = 0 then
        some { s with getSize := Function.update s.getSize heap size }
      else none

def machine : Machine MemorySystem Action where
  init s := s.memory = .fresh
  step := step

/-- The part of the heap that `getMemory` returns lies in it. -/
def Inside (s : MemorySystem) : Prop :=
  ∀ heap, s.memory.returned = some heap →
    0 ≤ s.memory.mOffset.toInt ∧
      s.memory.mOffset.toInt + s.memory.mSize.toNat ≤ (s.getSize heap).toNat

/-- A part is taken over from the reply only when it lies in the heap. -/
theorem getMemory_cases (m : BpMemory) (reply : Option MemoryReply) (getSize : Nat → UInt32) :
    m.getMemory reply getSize = m ∨ ∃ heap, m.getMemory reply getSize = ⟨some heap, 0, 0⟩ ∨
      ∃ o s, m.getMemory reply getSize = ⟨some heap, o, s⟩ ∧ s ≤ getSize heap ∧ 0 ≤ o ∧
        o.toUInt32 ≤ getSize heap - s := by
  unfold BpMemory.getMemory
  by_cases hnone : m.mHeap = none
  · rw [if_pos hnone]
    cases reply with
    | none => exact .inl rfl
    | some reply =>
        dsimp only
        cases reply.heap with
        | none => exact .inl rfl
        | some heap =>
            dsimp only
            by_cases htest : reply.size.toUInt32 ≤ getSize heap ∧ 0 ≤ reply.offset ∧
                reply.offset.toUInt32 ≤ getSize heap - reply.size.toUInt32
            · rw [if_pos htest]
              exact .inr ⟨heap, .inr ⟨_, _, rfl, htest⟩⟩
            · rw [if_neg htest]
              exact .inr ⟨heap, .inl rfl⟩
  · rw [if_neg hnone]
    exact .inl rfl

theorem inside_getMemory {s : MemorySystem} (h : s.Inside) (reply : Option MemoryReply) :
    Inside { s with memory := s.memory.getMemory reply s.getSize } := by
  rcases getMemory_cases s.memory reply s.getSize with
    hsame | ⟨heap, hzero | ⟨o, n, hpart, hsize, hpos, hoffset⟩⟩
  · rw [hsame]
    exact h
  · rw [hzero]
    intro heap' hreturned
    cases hreturned
  · rw [hpart]
    intro heap' hreturned
    obtain ⟨-, ⟨⟩⟩ := Option.ite_none_right_eq_some.mp hreturned
    have hnat : o.toUInt32.toNat = o.toInt.toNat := Int32.toNat_toUInt32_of_le hpos
    rw [UInt32.le_iff_toNat_le, UInt32.toNat_sub_of_le _ _ hsize, hnat] at hoffset
    rw [UInt32.le_iff_toNat_le] at hsize
    rw [Int32.le_iff_toInt_le] at hpos
    have hzero : (0 : Int32).toInt = 0 := rfl
    show 0 ≤ o.toInt ∧ o.toInt + (n.toNat : Int) ≤ (s.getSize heap).toNat
    omega

theorem inside_map {s : MemorySystem} (h : s.Inside) {heap : Nat} {size : UInt32}
    (hzero : s.getSize heap = 0) :
    Inside { s with getSize := Function.update s.getSize heap size } := by
  intro heap' hreturned
  obtain ⟨hpos, hend⟩ := h heap' hreturned
  have hlt : 0 < s.memory.mSize := (Option.ite_none_right_eq_some.mp hreturned).1
  rw [UInt32.lt_iff_toNat_lt] at hlt
  have hne : heap' ≠ heap := by
    rintro rfl
    rw [hzero] at hend
    have hnone : (0 : UInt32).toNat = 0 := rfl
    omega
  refine ⟨hpos, ?_⟩
  show _ ≤ ((Function.update s.getSize heap size heap').toNat : Int)
  rw [Function.update_of_ne hne]
  exact hend

theorem inside_of_reach {s : MemorySystem} (h : machine.Reach s) : s.Inside := by
  refine Machine.ReachWhen.invariant (I := Inside) ?_ (fun s a s' hs _ hstep => ?_) h
  · intro s hs heap hreturned
    rw [show s.memory = .fresh from hs] at hreturned
    cases hreturned
  · cases a with
    | getMemory reply =>
        cases hstep
        exact inside_getMemory hs reply
    | map heap size =>
        obtain ⟨hzero, ⟨⟩⟩ := Option.ite_none_right_eq_some.mp hstep
        exact inside_map hs hzero

end MemorySystem

/-! ## The views of one heap -/

/-- A mapped `BpMemoryHeap` returns what the server returns exactly when it is the cached
real heap or the flags of the server are 0; and the part of a heap that `getMemory`
returns lies in the heap. -/
theorem looksLocal_iff (heap : MemoryHeap) :
    (∀ s, HeapSystem.machine.ReachWhen (HeapSystem.Serves heap) s → ∀ p, s.HasMapped p →
      (p.LooksLike heap ↔ p.mRealHeap = true ∨ heap.getFlags = 0)) ∧
    ∀ s, MemorySystem.machine.Reach s → s.Inside :=
  ⟨fun _ h _ hp => (HeapSystem.views_of_reach h).looksLike_iff hp,
    fun _ h => MemorySystem.inside_of_reach h⟩

/-- A heap of 64 bytes that may only be read. -/
def readOnlyHeap : MemoryHeap := ⟨10, 64, 1, 0⟩

def readOnlyReply : Parcel := readOnlyHeap.onTransact (rawParcel roomyProcess).initState

def readOnlyReceived : Parcel.Received :=
  ⟨readOnlyReply.bytes, readOnlyReply.mDataSize, readOnlyReply.mObjects⟩

/-- Every system call succeeds. -/
def readOnlyAnswers : HeapAnswers :=
  ⟨HeapReply.read ((rawParcel roomyProcess).ipcSetDataReference readOnlyReceived), 11,
    some 0x1000, 12⟩

theorem fromServer_readOnly : readOnlyAnswers.FromServer readOnlyHeap := by
  have herror : readOnlyReply.mError = noError := by decide
  exact fun _ _ => ⟨_, _, readOnlyReceived, herror, ⟨rfl, rfl, fun _ _ _ _ => rfl⟩, rfl⟩

namespace HeapSystem

/-- A proxy is made and maps the heap. -/
def mapOne : List Action :=
  [.construct, .assertMapped 0, .proceed 0 readOnlyAnswers, .proceed 0 readOnlyAnswers,
    .proceed 0 readOnlyAnswers, .proceed 0 readOnlyAnswers]

def mappedOne : HeapSystem := (machine.run initial mapOne).get (by decide)

theorem serves_mapOne : ∀ a ∈ mapOne, ∀ s, Serves readOnlyHeap s a := by
  intro a ha s
  unfold mapOne at ha
  simp only [List.mem_cons, List.not_mem_nil, or_false] at ha
  rcases ha with rfl | rfl | rfl | rfl | rfl | rfl
  · trivial
  · trivial
  · exact fun _ _ _ => fromServer_readOnly
  · exact fun _ _ _ => fromServer_readOnly
  · exact fun _ _ _ => fromServer_readOnly
  · exact fun _ _ _ => fromServer_readOnly

theorem mappedOne_reach : machine.ReachWhen (Serves readOnlyHeap) mappedOne := by
  have hnext : ∀ s a s', machine.ReachWhen (Serves readOnlyHeap) s →
      (∀ s, Serves readOnlyHeap s a) → machine.step s a = some s' →
        machine.ReachWhen (Serves readOnlyHeap) s' :=
    fun s _ _ hs hserves hstep => .step hs (hserves s) hstep
  exact Machine.run_invariant hnext mapOne serves_mapOne (.init rfl) (Option.some_get _).symm

end HeapSystem

/-- The cached real heap has the flags of the server. -/
theorem readOnlyHeap_looksLocal :
    ∃ p, HeapSystem.mappedOne.HasMapped p ∧ p.LooksLike readOnlyHeap := by
  have hreal : ∃ p ∈ HeapSystem.mappedOne.heaps, p.mHeapId ≠ -1 ∧ p.mRealHeap = true := by
    decide
  obtain ⟨p, hp, hid, hrealHeap⟩ := hreal
  have hmapped : HeapSystem.mappedOne.HasMapped p := ⟨hid, .inl hp⟩
  exact ⟨p, hmapped,
    ((looksLocal_iff readOnlyHeap).1 _ HeapSystem.mappedOne_reach p hmapped).mpr (.inl hrealHeap)⟩

/-- The proxy that shares its mapping has not. -/
theorem flags_lost : ∃ s, HeapSystem.machine.ReachWhen (HeapSystem.Serves readOnlyHeap) s ∧
    ∃ p, s.HasMapped p ∧ p.getFlags = 0 ∧ ¬ p.LooksLike readOnlyHeap := by
  have hproxy : ∃ q ∈ HeapSystem.mappedOne.proxies, q.proxy.mHeapId ≠ -1 ∧
      q.proxy.getFlags = 0 := by
    decide
  obtain ⟨q, hq, hid, hflags⟩ := hproxy
  refine ⟨_, HeapSystem.mappedOne_reach, q.proxy, ⟨hid, .inr ⟨q, hq, rfl⟩⟩, hflags, ?_⟩
  rintro ⟨-, hlooks, -⟩
  rw [hflags] at hlooks
  exact absurd hlooks (by decide)

end Binder
end AndroidLinux
