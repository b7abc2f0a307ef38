import Mathlib.Tactic
import AndroidLinux.Udisk.Partitions

/-!
# The file lists of `hi_udisk.c`

`UDISK_ScanDirForFileNum` counts the entries of a directory that a scan option lists,
`UDISK_ScanDir` lists them, and `UDISK_ScanDirWithIndex` lists a page of them.  All three
walk the directory and, for a recursive option, its subdirectories.

Strings are the bytes in front of their NUL.  A directory is what `readdir` returns for it,
with the subdirectories in place; it does not change during a call.  The answers of
`malloc` and of the callback that interrupts a scan are given in the order of the calls.
-/

namespace AndroidLinux
namespace Udisk

/-! ## Options, directories and the host -/

/-- `HI_UDISK_SCAN_S`, without the sort mode, which no scan reads. -/
structure ScanOpt where
  bRecursive : Bool
  enFilterType : UInt32
  pFileFilter : Option (List UInt8)

def udiskFltUpdir : UInt32 := 1

def udiskFltCurdir : UInt32 := 2

def udiskFltSubdir : UInt32 := 4

def udiskFltCasecare : UInt32 := 8

/-- `enFilterType & flag`. -/
def ScanOpt.has (opt : ScanOpt) (flag : UInt32) : Bool :=
  opt.enFilterType &&& flag != 0

/-- `UDISK_RESERVE_MAX_FILE_NUM`. -/
def udiskReserveMaxFileNum : Nat := 2048

/-- `d_type`, as far as the scans tell the types apart. -/
inductive DirentType
  | dir
  | reg
  | other
  deriving DecidableEq

/-- The entries that `readdir` still has to return.  An entry that is a directory has the
answer of `opendir` and its own entries. -/
inductive Entries
  | nil
  | cons (dName : List UInt8) (dType : DirentType) (opens : Bool) (sub rest : Entries)

/-- What the scans ask of the system: the root of the mounts, `stat64` with the size and
the time of change, and the answers of the calls of `malloc` and of the callback. -/
structure Host where
  mUDiskRoot : List UInt8
  stat64 : List UInt8 → Option (UInt64 × UInt32)
  malloc : Nat → Bool
  interrupted : Nat → Bool

/-! ## Names -/

/-- `'.'`. -/
def dot : UInt8 := 46

/-- `'/'`. -/
def slash : UInt8 := 47

/-- `strrchr`, as the rest of the string from there on. -/
def strrchr (c : UInt8) : List UInt8 → Option (List UInt8)
  | [] => none
  | b :: bs =>
      match strrchr c bs with
      | some rest => some rest
      | none => if b = c then some (b :: bs) else none

/-- `tolower`, in the C locale. -/
def toLower (b : UInt8) : UInt8 :=
  if 65 ≤ b ∧ b ≤ 90 then b + 32 else b

/-- The loop of `UDISK_CheckFILTER`: from one `'.'` of the filter to the next. -/
def checkFilterLoop (caseCare : Bool) (pSuffix : List UInt8) : List UInt8 → Bool
  | [] => false
  | b :: bs =>
      let same :=
        if caseCare then (b :: bs).take pSuffix.length == pSuffix
        else ((b :: bs).take pSuffix.length).map toLower == pSuffix.map toLower
      if b = dot ∧ same = true then true else checkFilterLoop caseCare pSuffix bs

/-- `UDISK_CheckFILTER`, as `HI_SUCCESS` or not. -/
def udiskCheckFilter (opt : ScanOpt) (filename : List UInt8) : Bool :=
  match opt.pFileFilter with
  | none => false
  | some filter =>
      if filter = [dot, 42] then true
      else
        match strrchr dot filename with
        | none => false
        | some pSuffix => checkFilterLoop (opt.has udiskFltCasecare) pSuffix filter

/-- `subFilePath`. -/
def subFilePath (pszDir dName : List UInt8) : List UInt8 :=
  pszDir ++ slash :: dName

/-- The directory above `pathname`, as `UDISK_AddFileToList` makes it of the last slash. -/
def upperDir (h : Host) (pathname : List UInt8) : List UInt8 :=
  if pathname = h.mUDiskRoot then pathname
  else if pathname = [slash] then pathname
  else
    match strrchr slash pathname with
    | none => pathname
    | some pos =>
        if pos.length = pathname.length then [slash]
        else pathname.take (pathname.length - pos.length)

/-- `pszFullName`. -/
def fullName (h : Host) (pathname filename : List UInt8) : List UInt8 :=
  if filename = [dot] then pathname
  else if filename = [dot, dot] then upperDir h pathname
  else subFilePath pathname filename

/-! ## What a scan does with an entry -/

/-- Why an entry is listed: it is `"."` or `".."`, a subdirectory or a regular file. -/
inductive Kind
  | dots
  | directory
  | file
  deriving DecidableEq

/-- The `u32Type` of a listed entry: 0 for directories and 1 for regular files. -/
def Kind.u32Type : Kind → Nat
  | .dots => 0
  | .directory => 0
  | .file => 1

/-- Whether an entry is listed, and whether its directory is scanned. -/
structure Plan where
  lists : Option Kind
  enters : Bool

/-- The tests that the three scans make for an entry, in their order. -/
def plan (opt : ScanOpt) (pszDir dName : List UInt8) (dType : DirentType) : Plan :=
  if dName = [dot] then
    ⟨if opt.has udiskFltCurdir then some .dots else none, false⟩
  else if dName = [dot, dot] then
    ⟨if opt.has udiskFltUpdir then some .dots else none, false⟩
  else if maxUdiskNameLen < pszDir.length + 1 + dName.length + 1 then
    ⟨none, false⟩
  else
    match dType with
    | .dir => ⟨if opt.has udiskFltSubdir then some .directory else none, opt.bRecursive⟩
    | .reg => ⟨if udiskCheckFilter opt dName then some .file else none, false⟩
    | .other => ⟨none, false⟩

/-! ## The list -/

/-- `HI_UDISK_FILEINFO_S`; the type is `none` until it is set. -/
structure FileInfo where
  u32Index : Nat
  u32Type : Option Nat
  u64Size : UInt64
  u32CTime : UInt32
  pszShortName : List UInt8
  pszFullName : List UInt8
  deriving DecidableEq

/-- One use of `ppFileList[pFileList->u32FileNum - 1]->u32Type`: the index, `u32FileNum`,
whether the entry has just been added, and the type before and after. -/
structure TypeWrite where
  index : Nat
  u32FileNum : Nat
  added : Bool
  before : Option Nat
  after : Nat
  deriving DecidableEq

/-- The list of a scan: the entries of `ppFileList` that are filled, whose number is
`u32FileNum`, the calls of `malloc` so far, and the writes of types as history. -/
structure FileList where
  files : List FileInfo
  mallocs : Nat
  writes : List TypeWrite

/-- A list to begin with. -/
def FileList.empty : FileList :=
  ⟨[], 0, []⟩

/-- The new node of `UDISK_AddFileToList`. -/
def newFile (h : Host) (pathname filename : List UInt8) (u32FileNum : Nat) : FileInfo where
  u32Index := u32FileNum
  u32Type := if filename = [dot] ∨ filename = [dot, dot] then some 0 else none
  u64Size := ((h.stat64 (fullName h pathname filename)).map Prod.fst).getD 0
  u32CTime := ((h.stat64 (fullName h pathname filename)).map Prod.snd).getD 0
  pszShortName := filename
  pszFullName := fullName h pathname filename

/-- `UDISK_AddFileToList`, as `HI_SUCCESS` or not, with the list it leaves. -/
def udiskAddFileToList (h : Host) (pathname filename : List UInt8) (l : FileList) :
    Bool × FileList :=
  if h.malloc l.mallocs = false then (false, { l with mallocs := l.mallocs + 1 })
  else if h.malloc (l.mallocs + 1) = false then (false, { l with mallocs := l.mallocs + 2 })
  else if h.malloc (l.mallocs + 2) = false then (false, { l with mallocs := l.mallocs + 3 })
  else if l.files.length < udiskReserveMaxFileNum then
    (true, { l with
      files := l.files ++ [newFile h pathname filename l.files.length]
      mallocs := l.mallocs + 3 })
  else (false, { l with mallocs := l.mallocs + 3 })

/-- `pFileList->ppFileList[pFileList->u32FileNum - 1]->u32Type = u32Type`.  An index outside
of the list changes nothing in the list. -/
def setType (u32Type : Nat) (added : Bool) (l : FileList) : FileList :=
  let index := (l.files.length + (2 ^ 32 - 1)) % 2 ^ 32
  { l with
    files := l.files.modify index fun f => { f with u32Type := some u32Type }
    writes := l.writes ++
      [⟨index, l.files.length, added, (l.files[index]?).bind FileInfo.u32Type, u32Type⟩] }

/-- List an entry: add it, and set the type of what is then the last entry of the list;
`UDISK_AddFileToList` itself sets the type of `"."` and `".."`. -/
def listEntry (h : Host) (pszDir dName : List UInt8) (k : Kind) (l : FileList) : FileList :=
  let r := udiskAddFileToList h pszDir dName l
  match k with
  | .dots => r.2
  | .directory => setType 0 r.1 r.2
  | .file => setType 1 r.1 r.2

/-- A scan under way: its list and the number of questions to the callback. -/
structure Scan where
  list : FileList
  queries : Nat

/-- List an entry if the tests say so, and if it is `wanted`. -/
def listPlanned (h : Host) (pszDir dName : List UInt8) (p : Plan) (wanted : Bool) (s : Scan) :
    Scan :=
  match p.lists with
  | some k => if wanted then { s with list := listEntry h pszDir dName k s.list } else s
  | none => s

/-- The results of the scans. -/
inductive ScanRet
  | success
  | failure
  | notExist
  deriving DecidableEq

/-! ## The three scans -/

/-- The loop of `UDISK_ScanDir`. -/
def scanDirLoop (h : Host) (opt : ScanOpt) (pszDir : List UInt8) :
    Entries → Scan → ScanRet × Scan
  | .nil, s => (.success, s)
  | .cons dName dType opens sub rest, s =>
      if udiskReserveMaxFileNum ≤ s.list.files.length then (.success, s)
      else if h.interrupted s.queries then (.failure, { s with queries := s.queries + 1 })
      else
        let p := plan opt pszDir dName dType
        let s := listPlanned h pszDir dName p true { s with queries := s.queries + 1 }
        -- `opendir` of the subdirectory, and the scan of its entries
        let s :=
          if p.enters && opens then (scanDirLoop h opt (subFilePath pszDir dName) sub s).2
          else s
        scanDirLoop h opt pszDir rest s

/-- `UDISK_ScanDir`. -/
def udiskScanDir (h : Host) (opt : ScanOpt) (pszDir : List UInt8) (opens : Bool)
    (entries : Entries) (s : Scan) : ScanRet × Scan :=
  if opens then scanDirLoop h opt pszDir entries s else (.notExist, s)

/-- The loop of `UDISK_ScanDirForFileNum`, with `*pu32FileNum`. -/
def fileNumLoop (opt : ScanOpt) (pszDir : List UInt8) : Entries → Nat → Nat
  | .nil, u32FileNum => u32FileNum
  | .cons dName dType opens sub rest, u32FileNum =>
      let p := plan opt pszDir dName dType
      let u32FileNum := if p.lists.isSome then (u32FileNum + 1) % 2 ^ 32 else u32FileNum
      let u32FileNum :=
        if p.enters && opens then fileNumLoop opt (subFilePath pszDir dName) sub u32FileNum
        else u32FileNum
      fileNumLoop opt pszDir rest u32FileNum

/-- `UDISK_ScanDirForFileNum`. -/
def udiskScanDirForFileNum (opt : ScanOpt) (pszDir : List UInt8) (opens : Bool)
    (entries : Entries) (u32FileNum : Nat) : ScanRet × Nat :=
  if opens then (.success, fileNumLoop opt pszDir entries u32FileNum)
  else (.notExist, u32FileNum)

/-- `u32FileIndex >= u32StartIndex && u32FileIndex <= u32MaxIndex`. -/
def inPage (u32FileCount u32StartIndex u32FileIndex : Nat) : Bool :=
  let u32MaxIndex := (u32StartIndex + u32FileCount + (2 ^ 32 - 1)) % 2 ^ 32
  decide (u32StartIndex ≤ u32FileIndex ∧ u32FileIndex ≤ u32MaxIndex)

/-- The loop of `UDISK_ScanDirWithIndex`, with `u32FileIndex`.  A subdirectory is scanned
with the index as its `u32StartIndex`, and with an index of its own. -/
def withIndexLoop (h : Host) (opt : ScanOpt) (u32FileCount : Nat) (pszDir : List UInt8)
    (u32StartIndex u32FileIndex : Nat) : Entries → Scan → ScanRet × Scan
  | .nil, s => (.success, s)
  | .cons dName dType opens sub rest, s =>
      if ¬ s.list.files.length < u32FileCount then (.success, s)
      else if udiskReserveMaxFileNum ≤ s.list.files.length then (.success, s)
      else if h.interrupted s.queries then (.failure, { s with queries := s.queries + 1 })
      else
        let p := plan opt pszDir dName dType
        let s := listPlanned h pszDir dName p (inPage u32FileCount u32StartIndex u32FileIndex)
          { s with queries := s.queries + 1 }
        let u32FileIndex :=
          if p.lists.isSome then (u32FileIndex + 1) % 2 ^ 32 else u32FileIndex
        let s :=
          if p.enters && opens then
            (withIndexLoop h opt u32FileCount (subFilePath pszDir dName) u32FileIndex 0 sub s).2
          else s
        withIndexLoop h opt u32FileCount pszDir u32StartIndex u32FileIndex rest s

/-- `UDISK_ScanDirWithIndex`. -/
def udiskScanDirWithIndex (h : Host) (opt : ScanOpt) (pszDir : List UInt8) (opens : Bool)
    (entries : Entries) (u32StartIndex u32FileCount : Nat) (s : Scan) : ScanRet × Scan :=
  if opens then withIndexLoop h opt u32FileCount pszDir u32StartIndex 0 entries s
  else (.notExist, s)

/-- `HI_UDISK_GetFileListWithIndex`, with the entries that it leaves in the list; the array
of the list is the first allocation. -/
def hiUdiskGetFileListWithIndex (h : Host) (opt : ScanOpt) (pszDir : List UInt8) (opens : Bool)
    (entries : Entries) (u32StartIndex u32FileCount : Nat) : ScanRet × List FileInfo :=
  if u32FileCount = 0 then (.failure, [])
  else if h.malloc 0 = false then (.failure, [])
  else
    let r := udiskScanDirWithIndex h opt pszDir opens entries u32StartIndex u32FileCount
      ⟨⟨[], 1, []⟩, 0⟩
    if r.1 = .success then (.success, r.2.list.files) else (r.1, [])

end Udisk
end AndroidLinux
