import AndroidLinux.Lib.CString
import AndroidLinux.Lib.ListHead
import AndroidLinux.Lib.Transition

/-!
# The partition lists of `hi_udisk.c`

The disks stand in the list `m_UDisk_DiskListHead`, and the partitions of a disk in its
`part_list_head`.  `HI_UDISK_SetFullReport` and `UDISK_SetPartitionType` read a whole
node, its `list_head` included, in one section, and write it back in another one, where
the node is looked up again by its indices.

Any number of threads attach and detach disks and call the setters.  A step of a run is
one section of `UDISK_Lock` and `UDISK_UnLock`, or one access to a node outside of a
section.  `UDISK_DetachDisk` is one step: both of its callers hold the lock, which is
recursive.  What the files in `/dev` and `mount` answer is an argument of the steps.
Nodes are numbered in the order of their allocation and a number is used once; an access
to a node that has been freed sets `fault`.

`Report` is the purpose of the module as history: the disks and partitions that have been
attached and not detached, and every update that an operation has made, field by field.
-/

namespace AndroidLinux
namespace Udisk

open Lib

/-- `HI_UDISK_FSTYPE_E`. -/
inductive FsType
  | fat
  | fat32
  | ntfs
  | ext2
  | ext3
  | but
  deriving DecidableEq

/-- `HI_UDISK_PARTITIONINFO_S`. -/
structure PartitionInfo where
  bMounted : Bool
  enFSType : FsType
  u64TotalSize : UInt64
  u64AvailSize : UInt64
  szDevPath : CString
  szMntPath : CString
  deriving DecidableEq

/-- `UDISK_PartNode_S`, without `part_node`. -/
structure PartNode where
  bFullReport : Bool
  u64WaterLine : UInt64
  partInfo : PartitionInfo
  deriving DecidableEq

/-- Everything that has a `struct list_head`. -/
inductive Node
  | diskListHead
  | disk (d : Nat)
  | partListHead (d : Nat)
  | part (p : Nat)
  deriving DecidableEq

/-- `UDISK_PartNode_S` as it is copied. -/
structure PartCopy where
  next : Node
  prev : Node
  node : PartNode
  deriving DecidableEq

/-- The two setters, with what they set. -/
inductive SetOp
  | fullReport (bReport : Bool) (u64WaterLine : UInt64)
  | partitionType (enFSType : FsType)

/-- What a setter does to its copy. -/
def SetOp.apply : SetOp → PartNode → PartNode
  | .fullReport bReport u64WaterLine, n =>
      { n with bFullReport := bReport, u64WaterLine := u64WaterLine }
  | .partitionType enFSType, n => { n with partInfo := { n.partInfo with enFSType := enFSType } }

/-- `MAX_UDISK_NAME_LEN`. -/
def maxUdiskNameLen : Nat := 512

/-- `strncpy` of a path into a node. -/
def copyPath (path : CString) : CString :=
  path.strncpy (maxUdiskNameLen - 1)

/-- A partition node when `UDISK_AttachPart` links it. -/
def PartNode.mounted (enFSType : FsType) : PartNode where
  bFullReport := false
  u64WaterLine := 0
  partInfo := ⟨true, enFSType, 0, 0, CString.empty, CString.empty⟩

def PartNode.setDevPath (n : PartNode) (path : CString) : PartNode :=
  { n with partInfo := { n.partInfo with szDevPath := copyPath path } }

def PartNode.setMntPath (n : PartNode) (path : CString) : PartNode :=
  { n with partInfo := { n.partInfo with szMntPath := copyPath path } }

/-- What `UDISK_StatFs` writes; it may fail. -/
def PartNode.setSizes (n : PartNode) : Option (UInt64 × UInt64) → PartNode
  | none => n
  | some (total, avail) =>
      { n with partInfo := { n.partInfo with u64TotalSize := total, u64AvailSize := avail } }

/-- The disks and partitions that there are, and what has been stored for each. -/
structure Report where
  disks : List Nat
  parts : Nat → List Nat
  node : Nat → PartNode

/-- Where a setter is: it has not read yet, or it has read the node `p`. -/
inductive SetterPc
  | idle
  | got (u32DiskIndex u32PartitionIndex : UInt32) (op : SetOp) (p : Nat) (copy : PartCopy)

/-- Where `UDISK_AttachDisk` is: in front of its section, in the loop of
`UDISK_AttachPart`, after the section of this loop with one or both paths to be stored,
or in the loop of `UDISK_GetDiskInfo`. -/
inductive AttachPc
  | idle
  | add (pDevPath : CString)
  | parts (d : Nat)
  | devPath (d p : Nat) (szPartDevPath szPartMntPath : CString)
  | mntPath (d p : Nat) (szPartMntPath : CString)
  | stat (d : Nat) (pos : Node)

/-- The memory of the module and its threads. -/
structure Disks (ι : Type*) where
  links : Links Node
  diskPath : Nat → CString
  partNode : Nat → PartNode
  alive : Node → Bool
  allocated : Nat
  setter : ι → SetterPc
  attacher : ι → AttachPc
  fault : Bool
  report : Report

/-- The steps, each by the thread `t`. -/
inductive Act (ι : Type*)
  | get (t : ι) (u32DiskIndex u32PartitionIndex : UInt32) (op : SetOp)
  | set (t : ι)
  | attachFind (t : ι) (pDevPath : CString)
  | attachAdd (t : ι)
  | attachPart (t : ι) (enFSType : FsType) (szPartDevPath szPartMntPath : CString)
  | storePath (t : ι)
  | partsDone (t : ι)
  | statPart (t : ι) (stat : Option (UInt64 × UInt64))
  | detach (pDevPath : CString)

namespace Disks

variable {ι : Type*} [DecidableEq ι]

/-- The partition node at the indices, as the loops of `UDISK_GetSetPartition` find it. -/
def partAt (s : Disks ι) (u32DiskIndex u32PartitionIndex : UInt32) : Option Node :=
  match s.links.nth .diskListHead u32DiskIndex.toNat (s.links.next .diskListHead) with
  | some (.disk d) =>
      s.links.nth (.partListHead d) u32PartitionIndex.toNat (s.links.next (.partListHead d))
  | _ => none

/-- `memcpy` out of a node. -/
def copyOut (s : Disks ι) (p : Nat) : PartCopy :=
  ⟨s.links.next (.part p), s.links.prev (.part p), s.partNode p⟩

/-- `memcpy` into a node. -/
def copyIn (s : Disks ι) (p : Nat) (c : PartCopy) : Disks ι :=
  { s with
    links :=
      ⟨Function.update s.links.next (.part p) c.next,
        Function.update s.links.prev (.part p) c.prev⟩
    partNode := Function.update s.partNode p c.node }

def setSetter (s : Disks ι) (t : ι) (pc : SetterPc) : Disks ι :=
  { s with setter := Function.update s.setter t pc }

def setAttacher (s : Disks ι) (t : ι) (pc : AttachPc) : Disks ι :=
  { s with attacher := Function.update s.attacher t pc }

/-- An access to a node. -/
def access (s : Disks ι) (x : Node) (f : Disks ι) : Disks ι :=
  if s.alive x then f else { s with fault := true }

/-- An update of the history of one partition. -/
def note (s : Disks ι) (p : Nat) (f : PartNode → PartNode) : Disks ι :=
  { s with report :=
    { s.report with node := Function.update s.report.node p (f (s.report.node p)) } }

/-- The first section of a setter. -/
def get (s : Disks ι) (t : ι) (u32DiskIndex u32PartitionIndex : UInt32) (op : SetOp) :
    Option (Disks ι) :=
  match s.setter t with
  | .idle =>
      match s.partAt u32DiskIndex u32PartitionIndex with
      | some (.part p) =>
          some (s.access (.part p)
            (s.setSetter t (.got u32DiskIndex u32PartitionIndex op p (s.copyOut p))))
      | some _ => some { s with fault := true }
      | none => some s
  | _ => none

/-- The second section of a setter, with the history of a call that succeeds: the update
belongs to the node that had the indices when the call began. -/
def set (s : Disks ι) (t : ι) : Option (Disks ι) :=
  match s.setter t with
  | .got u32DiskIndex u32PartitionIndex op p copy =>
      match s.partAt u32DiskIndex u32PartitionIndex with
      | some (.part q) =>
          some (s.access (.part q)
            (((s.copyIn q { copy with node := op.apply copy.node }).note p op.apply).setSetter t
              .idle))
      | some _ => some { s with fault := true }
      | none => some (s.setSetter t .idle)
  | .idle => none

/-- The nodes of a list, when `list_for_each` gets to its end. -/
def nodesOf (s : Disks ι) (head : Node) : Option (List Node) :=
  let l := s.links.walk head (s.allocated + 1) (s.links.next head)
  if l.length ≤ s.allocated then some l else none

/-- `UDISK_FindDisk`. -/
def udiskFindDisk (s : Disks ι) (pDevPath : CString) : Option (Option Nat) :=
  (s.nodesOf .diskListHead).map fun l =>
    l.findSome? fun x =>
      match x with
      | .disk d =>
          if CString.strncmpEq maxUdiskNameLen pDevPath (s.diskPath d) then some d else none
      | _ => none

/-- The check at the start of `UDISK_AttachDisk`. -/
def attachFind (s : Disks ι) (t : ι) (pDevPath : CString) : Option (Disks ι) :=
  match s.attacher t, s.udiskFindDisk pDevPath with
  | .idle, some none => some (s.setAttacher t (.add pDevPath))
  | .idle, some (some _) => some s
  | _, _ => none

/-- The section of `UDISK_AttachDisk`, with the disk node that it links. -/
def attachAdd (s : Disks ι) (t : ι) : Option (Disks ι) :=
  match s.attacher t with
  | .add pDevPath =>
      let d := s.allocated
      some ({ s with
        links := (s.links.listInit (.partListHead d)).listAddTail (.disk d) .diskListHead
        diskPath := Function.update s.diskPath d (copyPath pDevPath)
        alive := Function.update (Function.update s.alive (.disk d) true) (.partListHead d) true
        allocated := d + 1
        report := { s.report with
          disks := s.report.disks ++ [d],
          parts := Function.update s.report.parts d [] } }.setAttacher t (.parts d))
  | _ => none

/-- One pass of the loop of `UDISK_AttachPart` whose `mount` succeeds, with its section. -/
def attachPart (s : Disks ι) (t : ι) (enFSType : FsType) (szPartDevPath szPartMntPath : CString) :
    Option (Disks ι) :=
  match s.attacher t with
  | .parts d =>
      let p := s.allocated
      some (s.access (.partListHead d) ({ s with
        links := (s.links.listInit (.part p)).listAddTail (.part p) (.partListHead d)
        partNode := Function.update s.partNode p (.mounted enFSType)
        alive := Function.update s.alive (.part p) true
        allocated := p + 1
        report := { s.report with
          parts := Function.update s.report.parts d (s.report.parts d ++ [p])
          node := Function.update s.report.node p (.mounted enFSType) } }.setAttacher t
        (.devPath d p szPartDevPath szPartMntPath)))
  | _ => none

/-- A write to a partition node outside of the lock. -/
def write (s : Disks ι) (p : Nat) (f : PartNode → PartNode) : Disks ι :=
  { s with partNode := Function.update s.partNode p (f (s.partNode p)) }.note p f

/-- The next of the two paths that `UDISK_AttachPart` stores after its section. -/
def storePath (s : Disks ι) (t : ι) : Option (Disks ι) :=
  match s.attacher t with
  | .devPath d p szPartDevPath szPartMntPath =>
      some (s.access (.part p)
        ((s.write p (·.setDevPath szPartDevPath)).setAttacher t (.mntPath d p szPartMntPath)))
  | .mntPath d p szPartMntPath =>
      some (s.access (.part p)
        ((s.write p (·.setMntPath szPartMntPath)).setAttacher t (.parts d)))
  | _ => none

/-- `UDISK_AttachPart` is done and `UDISK_GetDiskInfo` starts its loop. -/
def partsDone (s : Disks ι) (t : ι) : Option (Disks ι) :=
  match s.attacher t with
  | .parts d =>
      some (s.access (.partListHead d)
        (s.setAttacher t (.stat d (s.links.next (.partListHead d)))))
  | _ => none

/-- One pass of the loop of `UDISK_GetDiskInfo`, or its end. -/
def statPart (s : Disks ι) (t : ι) (stat : Option (UInt64 × UInt64)) : Option (Disks ι) :=
  match s.attacher t with
  | .stat d (.part p) =>
      some (s.access (.part p)
        ((s.write p (·.setSizes stat)).setAttacher t (.stat d (s.links.next (.part p)))))
  | .stat d pos =>
      if pos = .partListHead d then some (s.setAttacher t .idle)
      else some { s with fault := true }
  | _ => none

/-- `UDISK_DetachDisk`. -/
def udiskDetachDisk (s : Disks ι) (pDevPath : CString) : Option (Disks ι) :=
  (s.udiskFindDisk pDevPath).bind fun found =>
    found.elim (some s) fun d =>
      (Links.deleteAll (.partListHead d) s.allocated s.links
        (s.links.next (.partListHead d))).map fun r =>
        { s with
          links := r.1.listDel (.disk d)
          alive := fun x => s.alive x && x ≠ .disk d && x ≠ .partListHead d && x ∉ r.2
          report := { s.report with disks := s.report.disks.erase d } }

def step (s : Disks ι) : Act ι → Option (Disks ι)
  | .get t u32DiskIndex u32PartitionIndex op => s.get t u32DiskIndex u32PartitionIndex op
  | .set t => s.set t
  | .attachFind t pDevPath => s.attachFind t pDevPath
  | .attachAdd t => s.attachAdd t
  | .attachPart t enFSType szPartDevPath szPartMntPath =>
      s.attachPart t enFSType szPartDevPath szPartMntPath
  | .storePath t => s.storePath t
  | .partsDone t => s.partsDone t
  | .statPart t stat => s.statPart t stat
  | .detach pDevPath => s.udiskDetachDisk pDevPath

/-- The module when no disk has been attached and no call is in progress; the memory of
the nodes may hold anything. -/
def Initial (s : Disks ι) : Prop :=
  s.links.IsRing .diskListHead [] ∧ (∀ x, s.alive x = true ↔ x = .diskListHead) ∧
    s.allocated = 0 ∧ (∀ t, s.setter t = .idle) ∧ (∀ t, s.attacher t = .idle) ∧
    s.fault = false ∧ s.report.disks = []

/-- All interleavings of any number of threads. -/
def machine (ι : Type*) [DecidableEq ι] : Machine (Disks ι) (Act ι) where
  init := Initial
  step := step

end Disks
end Udisk
end AndroidLinux
