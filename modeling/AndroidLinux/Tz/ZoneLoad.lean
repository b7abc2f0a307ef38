import AndroidLinux.Tz.MakeTime
import AndroidLinux.Tz.ZoneFormat

/-!
# Local time from a zone file

`tzload_uncached` of `tztime.c`: the table of a file, which a text between two newlines behind it
extends.  Where there is no such text, `localsub` shows the times in the types of the file.

`tzload` keeps the last zones that it has loaded in a ring of four slots.  The ring holds the last
four names that were not found in it, without those that could not be loaded, and a call returns
what the file would give: the cache cannot be told from loading each time.  This is proved for
files without such a text, as all those are that go on with a part for a wider `time_t`; a text
would be parsed while a slot of the ring has no name.
-/

namespace AndroidLinux
namespace Tz

open Lib

/-- The text that `tzload_uncached` gives to `tzparse`: its last byte becomes a NUL. -/
def extensionText (buf : List UInt8) : Option (List UInt8) :=
  if 2 < buf.length ∧ buf.head? = some (ch '\n') ∧ buf.getLast? = some (ch '\n') then
    some (buf.tail.dropLast.takeWhile (· != 0))
  else none

/-- The bytes of `chars` that `tzparse` writes. -/
def ZoneState.chars (zone : ZoneState) : List UInt8 :=
  zone.stdname ++ 0 :: if zone.dstname = [] then [] else zone.dstname ++ [0]

/-- The transitions of the rules behind the last one of the file; `atsBefore` is what stands in
front of the transitions of a file that has none. -/
def newTransitions (sp : Loaded) (ts : ZoneState) (atsBefore : Int) : List (Int × Nat) :=
  let last := (sp.state.transitions.getLast?.map Prod.fst).getD atsBefore
  ((ts.state.transitions.dropWhile fun p => decide (p.1 ≤ last)).take
    (tzMaxTimes - sp.state.transitions.length)).map
      fun p => (p.1, sp.state.ttis.length + p.2)

theorem newTransitions_typed {sp : Loaded} {ts : ZoneState} {atsBefore : Int}
    (htwo : ts.state.ttis.length = 2) : ∀ p ∈ newTransitions sp ts atsBefore,
      p.2 < (sp.state.ttis ++ ts.state.ttis).length := by
  intro p hp
  obtain ⟨q, hq, rfl⟩ := List.mem_map.mp hp
  have hmem := (List.dropWhile_suffix _).subset (List.mem_of_mem_take hq)
  have htyped := ts.state.typed q hmem
  rw [List.length_append]
  dsimp only
  omega

def extend (sp : Loaded) (buf : List UInt8) (atsBefore : Int) (defRules : Option LeapSeconds) :
    Loaded :=
  match (extensionText buf).bind (tzparse · false defRules) with
  | none => sp
  | some ts =>
      if h : ts.state.ttis.length = 2 ∧ sp.state.ttis.length + 2 ≤ tzMaxTypes ∧
          sp.chars.length + ts.charcnt ≤ tzMaxChars then
        { sp with
          state :=
            { sp.state with
              transitions := sp.state.transitions ++ newTransitions sp ts atsBefore
              ttis := sp.state.ttis ++ ts.state.ttis
              typed := fun p hp => (List.mem_append.mp hp).elim
                (fun hp => (sp.state.typed p hp).trans_le (by simp))
                (newTransitions_typed h.1 p)
              nonempty := List.append_ne_nil_of_left_ne_nil sp.state.nonempty _ }
          chars := sp.chars ++ ts.chars
          abbrinds := sp.abbrinds ++ ts.state.ttis.map fun tt =>
            sp.chars.length + if tt.isdst = 1 then ts.stdname.length + 1 else 0 }
      else sp

/-- `tzload_uncached`, from the bytes of the file; `defRules` is what `tzparse` gets from the file
of the default rules. -/
def tzloadUncached (buf : List UInt8) (doextend : Bool) (lsisBefore atsBefore : Int)
    (defRules : Option LeapSeconds) : Option Loaded :=
  (tzloadPart buf lsisBefore).map fun r =>
    if doextend then extend r.1 r.2 atsBefore defRules else r.1

/-- Nothing between two newlines is left in the buffer. -/
theorem extend_eq_self {sp : Loaded} {buf : List UInt8} {atsBefore : Int}
    {defRules : Option LeapSeconds} (h : extensionText buf = none) :
    extend sp buf atsBefore defRules = sp := by
  unfold extend
  rw [h]
  rfl

/-! ## The order of the transitions -/

theorem sortedPart_eq_self {l : List (Int × Nat)} (h : l.Pairwise fun p q => p.1 ≤ q.1) :
    sortedPart l = l := by
  fun_induction sortedPart l with
  | case1 first second third rest hlt =>
      have hle := (List.pairwise_cons.mp h).1 second List.mem_cons_self
      omega
  | case2 first second third rest hnot ih => rw [ih (List.pairwise_cons.mp h).2]
  | case3 l hl => rfl

/-- The transitions of a file, and the type that they put in force. -/
def ZoneFile.inForce (f : ZoneFile) (t : Int) : Option TtInfo :=
  match (f.transitions.filter fun p => decide (p.1 ≤ t)).getLast? with
  | some p => (f.infos.map Prod.fst)[p.2]?
  | none =>
      ((f.infos.map Prod.fst).find? fun tt => decide (tt.isdst = 0)).or
        (f.infos.map Prod.fst).head?

/-- From the bytes of a file to local time: the file is loaded, and `localsub` shows each time in
the type that the transitions of the file have put in force, with its leap seconds. -/
theorem localsub_zoneFile {f : ZoneFile} (h : f.WellFormed)
    (hsorted : f.transitions.Pairwise fun p q => p.1 ≤ q.1) {tail : List UInt8}
    (hplain : extensionText (if f.version = 0 then f.encode ++ tail else tail) = none)
    (doextend : Bool) (lsisBefore atsBefore : Int) (defRules : Option LeapSeconds) :
    ∃ l, tzloadUncached (f.encode ++ tail) doextend lsisBefore atsBefore defRules = some l ∧
      l.state.lsis = f.lsis ∧ ∀ t tmp, -2 ^ 31 ≤ t → t < 2 ^ 31 → ∃ tt, f.inForce t = some tt ∧
        ((tt.gmtoff - correction f.lsis t).natAbs + 86400 ≤ 2 ^ 31 →
          ∃ hit tm, l.state.Hit t hit ∧ localsub t tmp l.state = some tm ∧ tm.Shown hit ∧
            tm.seconds = t + tt.gmtoff - correction f.lsis t + hit ∧
            tm.isdst = tt.isdst ∧ tm.gmtoff = tt.gmtoff) := by
  have hload : tzloadUncached (f.encode ++ tail) doextend lsisBefore atsBefore defRules =
      some (f.loaded h lsisBefore) := by
    unfold tzloadUncached
    rw [h.tzloadPart, Option.map_some]
    dsimp only
    rw [extend_eq_self hplain, ite_self]
  refine ⟨_, hload, rfl, fun t tmp hlo hhi => ?_⟩
  have htransitions : (f.loaded h lsisBefore).state.transitions = f.transitions :=
    sortedPart_eq_self hsorted
  have hforce : f.inForce t = (f.loaded h lsisBefore).state.inForce t := by
    unfold State.inForce
    rw [htransitions]
    rfl
  have hzone := @zone_eq_inForce (f.loaded h lsisBefore).state
    (by rw [htransitions]; exact hsorted) t
  obtain ⟨hcorr, hhit⟩ := (f.loaded h lsisBefore).state.leap_eq t
  refine ⟨_, hforce.trans hzone, fun hroom => ?_⟩
  obtain ⟨tm, htm⟩ := localsub_eq (f.loaded h lsisBefore).state tmp hlo hhi
    (by rw [hcorr]; exact hroom)
  rw [hcorr] at htm
  exact ⟨_, tm, hhit, htm⟩

/-- The file of a zone with one summer, and a leap second in it. -/
def summerFile : ZoneFile where
  magic := ['T', 'Z', 'i', 'f'].map ch
  version := 0
  reserved := List.replicate 15 0
  transitions := oneSummer.transitions
  infos := [(⟨3600, 0⟩, 0), (⟨7200, 1⟩, 4)]
  chars := ['C', 'E', 'T'].map ch ++ 0 :: (['C', 'E', 'S', 'T'].map ch ++ [0])
  lsis := [⟨1341100800, 1⟩]
  ttisstd := []
  ttisgmt := []

theorem summerFile_wellFormed : summerFile.WellFormed where
  magic := rfl
  reserved := rfl
  timecnt := by decide
  typecnt := by decide
  charcnt := by decide
  leapcnt := by decide
  ttisstd := .inr rfl
  ttisgmt := .inr rfl
  ats := by unfold Fits32; decide
  types := by decide
  infos := by unfold Fits32; decide
  lsis := by unfold Fits32; decide

theorem localsub_zoneFile_summer :
    ∃ l, tzloadUncached (summerFile.encode ++ []) true 0 0 none = some l ∧
      l.state.lsis = summerFile.lsis ∧ ∀ t tmp, -2 ^ 31 ≤ t → t < 2 ^ 31 →
        ∃ tt, summerFile.inForce t = some tt ∧
          ((tt.gmtoff - correction summerFile.lsis t).natAbs + 86400 ≤ 2 ^ 31 →
            ∃ hit tm, l.state.Hit t hit ∧ localsub t tmp l.state = some tm ∧ tm.Shown hit ∧
              tm.seconds = t + tt.gmtoff - correction summerFile.lsis t + hit ∧
              tm.isdst = tt.isdst ∧ tm.gmtoff = tt.gmtoff) :=
  localsub_zoneFile summerFile_wellFormed (by decide) (by decide) true 0 0 none

/-! ## The cache -/

/-- `CACHE_COUNT`. -/
def cacheCount : Nat := 4

/-- `g_cacheNames`, `g_cacheStates`, `g_lastCache` and, once `g_utcSet`, `g_utc`. -/
structure ZoneCache where
  names : Nat → Option String
  states : Nat → Loaded
  lastCache : Nat
  utc : Option Loaded

/-- The files, of which none has a text for `tzparse` behind its table: what `read` brings for a
name or for no name, and what is in front of the leap seconds in memory.  Of an attempt to load the
zone `UTC` the result is not looked at, and `utcLeft` is what one that fails leaves. -/
structure ZoneFiles where
  bytes : Option String → Option (List UInt8)
  lsisBefore : Int
  utcLeft : Loaded
  plain : ∀ name buf l rest, bytes name = some buf →
    tzloadPart buf lsisBefore = some (l, rest) → extensionText rest = none

variable (files : ZoneFiles)

/-- `tzload_uncached` for one of the files. -/
def ZoneFiles.load (name : Option String) : Option Loaded :=
  (files.bytes name).bind fun buf => (tzloadPart buf files.lsisBefore).map Prod.fst

/-- For these files `tzload_uncached` does not depend on the default rules. -/
theorem ZoneFiles.load_eq (name : Option String) (doextend : Bool) (atsBefore : Int)
    (defRules : Option LeapSeconds) :
    ((files.bytes name).bind fun buf =>
      tzloadUncached buf doextend files.lsisBefore atsBefore defRules) = files.load name := by
  unfold ZoneFiles.load
  refine Option.bind_congr fun buf hbytes => ?_
  unfold tzloadUncached
  cases hpart : tzloadPart buf files.lsisBefore with
  | none => rfl
  | some r =>
      have hplain := files.plain name buf r.1 r.2 hbytes hpart
      rw [Option.map_some, Option.map_some, extend_eq_self hplain, ite_self]

/-- What is in `g_utc` behind the first call for `UTC`. -/
def ZoneFiles.utc : Loaded := (files.load (some "UTC")).getD files.utcLeft

def ZoneCache.next (c : ZoneCache) : Nat :=
  if cacheCount ≤ c.lastCache + 1 then 0 else c.lastCache + 1

def tzload (c : ZoneCache) : Option String → Option Loaded × ZoneCache
  | none => (files.load none, c)
  | some name =>
      if name = "UTC" then
        (some (c.utc.getD files.utc), { c with utc := some (c.utc.getD files.utc) })
      else
        match (List.range cacheCount).find? fun i => decide (c.names i = some name) with
        | some i => (some (c.states i), c)
        | none =>
            match files.load (some name) with
            | some st =>
                (some st, { c with
                  names := Function.update c.names c.next (some name)
                  states := Function.update c.states c.next st
                  lastCache := c.next })
            | none =>
                (none, { c with
                  names := Function.update c.names c.next none
                  lastCache := c.next })

/-- What a call returns that loads each time. -/
def ZoneFiles.get : Option String → Option Loaded
  | none => files.load none
  | some name => if name = "UTC" then some files.utc else files.load (some name)

/-- Whether a call is answered from the last misses. -/
def Hit (recent : List String) (name : String) : Prop :=
  name ∈ recent ∧ (files.load (some name)).isSome = true

instance (recent : List String) (name : String) : Decidable (Hit files recent name) :=
  inferInstanceAs (Decidable (_ ∧ _))

/-- The last four misses, the last one first. -/
def recentStep (recent : List String) : Option String → List String
  | none => recent
  | some name =>
      if name = "UTC" ∨ Hit files recent name then recent else (name :: recent).take cacheCount

/-- The ring has the last misses in its slots, from the last slot backwards. -/
structure ZoneCache.Holds (c : ZoneCache) (recent : List String) : Prop where
  lastCache : c.lastCache < cacheCount
  length : recent.length ≤ cacheCount
  names : ∀ k < cacheCount, c.names ((c.lastCache + cacheCount - k) % cacheCount) =
    recent[k]?.bind fun name => if (files.load (some name)).isSome then some name else none
  states : ∀ i < cacheCount, ∀ name, c.names i = some name →
    files.load (some name) = some (c.states i)
  utc : ∀ st, c.utc = some st → st = files.utc

variable {files}

theorem ZoneCache.Holds.name_iff {c : ZoneCache} {recent : List String}
    (h : c.Holds files recent) (name : String) :
    (∃ i < cacheCount, c.names i = some name) ↔ Hit files recent name := by
  have hlast := h.lastCache
  have hlen := h.length
  unfold cacheCount at hlast hlen
  constructor
  · rintro ⟨i, hi, hname⟩
    unfold cacheCount at hi
    have hslot := h.names ((c.lastCache + 4 - i) % 4) (Nat.mod_lt _ (by decide))
    rw [show (c.lastCache + cacheCount - (c.lastCache + 4 - i) % 4) % cacheCount = i by
      unfold cacheCount; omega, hname] at hslot
    obtain ⟨name', hget, hsome⟩ := Option.bind_eq_some_iff.mp hslot.symm
    split at hsome
    next hloads =>
      obtain rfl := Option.some.inj hsome
      exact ⟨List.mem_of_getElem? hget, hloads⟩
    · cases hsome
  · rintro ⟨hmem, hloads⟩
    obtain ⟨k, hk, hget⟩ := List.mem_iff_getElem.mp hmem
    refine ⟨(c.lastCache + cacheCount - k) % cacheCount, Nat.mod_lt _ (by decide), ?_⟩
    rw [h.names k (by unfold cacheCount; omega), List.getElem?_eq_getElem hk, hget,
      Option.bind_some, if_pos hloads]

theorem ZoneCache.next_eq {c : ZoneCache} (h : c.lastCache < cacheCount) :
    c.next = (c.lastCache + 1) % cacheCount := by
  unfold ZoneCache.next
  unfold cacheCount at h ⊢
  split <;> omega

/-- A miss puts the new name into the slot of the oldest one. -/
theorem ZoneCache.Holds.miss {c : ZoneCache} {recent : List String}
    (h : c.Holds files recent) (name : String) (states : Nat → Loaded)
    (hnew : ∀ st, files.load (some name) = some st → states c.next = st)
    (hold : ∀ i, i ≠ c.next → states i = c.states i) :
    ZoneCache.Holds files ⟨Function.update c.names c.next
      (if (files.load (some name)).isSome then some name else none), states, c.next, c.utc⟩
        ((name :: recent).take cacheCount) := by
  have hlast := h.lastCache
  have hnext := ZoneCache.next_eq hlast
  refine ⟨?_, ?_, fun k hk => ?_, fun i hi name' hname => ?_, h.utc⟩
  · rw [hnext]
    exact Nat.mod_lt _ (by decide)
  · rw [List.length_take]
    exact Nat.min_le_left _ _
  · dsimp only
    rw [List.getElem?_take_of_lt hk]
    cases k with
    | zero =>
        rw [Nat.sub_zero, Nat.add_mod_right, Nat.mod_eq_of_lt (by
          rw [hnext]
          exact Nat.mod_lt _ (by decide)), Function.update_self, List.getElem?_cons_zero,
          Option.bind_some]
    | succ k =>
        have hslot : (c.next + cacheCount - (k + 1)) % cacheCount =
            (c.lastCache + cacheCount - k) % cacheCount := by
          rw [hnext]
          unfold cacheCount at hlast hk ⊢
          omega
        have hne : (c.lastCache + cacheCount - k) % cacheCount ≠ c.next := by
          rw [hnext]
          unfold cacheCount at hlast hk ⊢
          omega
        rw [hslot, Function.update_of_ne hne, h.names k (Nat.lt_of_succ_lt hk),
          List.getElem?_cons_succ]
  · dsimp only at hname ⊢
    by_cases hi' : i = c.next
    · rw [hi', Function.update_self] at hname
      split at hname
      next hloads =>
        obtain rfl := Option.some.inj hname
        obtain ⟨st, hst⟩ := Option.isSome_iff_exists.mp hloads
        rw [hi', hst, hnew st hst]
      · cases hname
    · rw [Function.update_of_ne hi'] at hname
      rw [hold i hi']
      exact h.states i hi name' hname

/-- One call returns what loading would give, and the ring follows the misses. -/
theorem ZoneCache.Holds.tzload {c : ZoneCache} {recent : List String}
    (h : c.Holds files recent) (name : Option String) :
    (tzload files c name).1 = files.get name ∧
      (tzload files c name).2.Holds files (recentStep files recent name) := by
  cases name with
  | none => exact ⟨rfl, h⟩
  | some name =>
      unfold Tz.tzload ZoneFiles.get recentStep
      dsimp only
      by_cases hutc : name = "UTC"
      · have hget : c.utc.getD files.utc = files.utc := by
          cases hset : c.utc with
          | none => rfl
          | some st => exact h.utc st hset
        rw [if_pos hutc, if_pos hutc, if_pos (Or.inl hutc), hget]
        refine ⟨rfl, h.lastCache, h.length, h.names, h.states, fun st hst => ?_⟩
        exact (Option.some.inj hst).symm
      · rw [if_neg hutc, if_neg hutc]
        cases hfind : (List.range cacheCount).find? fun i => decide (c.names i = some name) with
        | some i =>
            have hi := List.mem_range.mp (List.mem_of_find?_eq_some hfind)
            have hname : c.names i = some name := by
              have htest := List.find?_some hfind
              exact of_decide_eq_true htest
            dsimp only
            rw [if_pos (Or.inr ((h.name_iff name).mp ⟨i, hi, hname⟩))]
            exact ⟨(h.states i hi name hname).symm, h⟩
        | none =>
            have hmiss : ¬ (name = "UTC" ∨ Hit files recent name) := by
              rintro (heq | hhit)
              · exact hutc heq
              · obtain ⟨i, hi, hname⟩ := (h.name_iff name).mpr hhit
                exact List.find?_eq_none.mp hfind i (List.mem_range.mpr hi)
                  (decide_eq_true hname)
            dsimp only
            rw [if_neg hmiss]
            cases hload : files.load (some name) with
            | some st =>
                have hholds := h.miss name (Function.update c.states c.next st)
                  (fun st' hst' => by
                    rw [Function.update_self]
                    exact Option.some.inj (hload.symm.trans hst'))
                  (fun i hi => Function.update_of_ne hi _ _)
                rw [hload, Option.isSome_some, if_pos rfl] at hholds
                exact ⟨rfl, hholds⟩
            | none =>
                have hholds := h.miss name c.states
                  (fun st' hst' => by rw [hload] at hst'; cases hst') (fun _ _ => rfl)
                rw [hload, Option.isSome_none, if_neg Bool.false_ne_true] at hholds
                exact ⟨rfl, hholds⟩

/-! ## Local time -/

/-- `TZDEFRULES`. -/
def tzDefRules : String := "posixrules"

/-- What `gmtload` makes of the name `GMT` if there is no file for it, but for the leap seconds. -/
def gmtState : State := standardState 0

theorem tzparse_gmt (defRules : Option LeapSeconds) :
    (tzparse (['G', 'M', 'T'].map ch) true defRules).map ZoneState.state =
      some (gmtState.withLeaps defRules) := rfl

section calls

variable (files : ZoneFiles)

/-- The zone of a call: `tzload`, or else `gmtload`, of which `tzparse` loads the default rules. -/
def zoneOf (c : ZoneCache) (tz : Option String) : State × ZoneCache :=
  let r := tzload files c tz
  match r.1 with
  | some l => (l.state, r.2)
  | none =>
      let r := tzload files r.2 (some "GMT")
      match r.1 with
      | some l => (l.state, r.2)
      | none =>
          let r := tzload files r.2 (some tzDefRules)
          (gmtState.withLeaps (r.1.map fun l => l.state.leapSeconds), r.2)

inductive TzCall
  | localtimeTz (timep : Int) (tmp : Tm) (tz : Option String)
  | mktimeTz (tmp : Tm) (tz : Option String)

inductive TzResult
  | localtime (tmp : Option Tm)
  | time (t : Option (Int × Tm))

def tzCall (c : ZoneCache) : TzCall → TzResult × ZoneCache
  | .localtimeTz timep tmp tz =>
      let z := zoneOf files c tz
      (.localtime (localsub timep tmp z.1), z.2)
  | .mktimeTz tmp tz =>
      let z := zoneOf files c tz
      (.time (mktime tmp z.1), z.2)

/-- A sequence of calls. -/
def tzCalls (c : ZoneCache) : List TzCall → List TzResult × ZoneCache
  | [] => ([], c)
  | call :: rest =>
      let r := tzCall files c call
      let rs := tzCalls r.2 rest
      (r.1 :: rs.1, rs.2)

/-- The zone of a call that loads each time. -/
def ZoneFiles.zone (tz : Option String) : State :=
  match (files.get tz).or (files.get (some "GMT")) with
  | some l => l.state
  | none => gmtState.withLeaps ((files.get (some tzDefRules)).map fun l => l.state.leapSeconds)

/-- The result of a call that loads each time. -/
def plainCall : TzCall → TzResult
  | .localtimeTz timep tmp tz => .localtime (localsub timep tmp (files.zone tz))
  | .mktimeTz tmp tz => .time (mktime tmp (files.zone tz))

/-- The last misses after a zone has been looked for. -/
def recentZone (recent : List String) (tz : Option String) : List String :=
  if (files.get tz).isSome then recentStep files recent tz
  else
    let recent := recentStep files (recentStep files recent tz) (some "GMT")
    if (files.get (some "GMT")).isSome then recent else recentStep files recent (some tzDefRules)

/-- The last misses after a call. -/
def recentCall (recent : List String) : TzCall → List String
  | .localtimeTz _ _ tz | .mktimeTz _ tz => recentZone files recent tz

variable {files} {c : ZoneCache} {recent : List String}

theorem ZoneCache.Holds.zoneOf (h : c.Holds files recent) (tz : Option String) :
    (zoneOf files c tz).1 = files.zone tz ∧
      (zoneOf files c tz).2.Holds files (recentZone files recent tz) := by
  obtain ⟨hresult, hnext⟩ := h.tzload tz
  obtain ⟨hgmt, hbehind⟩ := hnext.tzload (some "GMT")
  obtain ⟨hrules, hlast⟩ := hbehind.tzload (some tzDefRules)
  unfold Tz.zoneOf ZoneFiles.zone recentZone
  dsimp only
  rw [hresult]
  cases hget : files.get tz with
  | some l => exact ⟨rfl, hnext⟩
  | none =>
      dsimp only
      rw [hgmt, Option.none_or]
      cases hfile : files.get (some "GMT") with
      | some l => exact ⟨rfl, hbehind⟩
      | none => exact ⟨by rw [hrules], hlast⟩

theorem ZoneCache.Holds.tzCall (h : c.Holds files recent) (call : TzCall) :
    (tzCall files c call).1 = plainCall files call ∧
      (tzCall files c call).2.Holds files (recentCall files recent call) := by
  cases call with
  | localtimeTz timep tmp tz =>
      obtain ⟨hzone, hholds⟩ := h.zoneOf tz
      exact ⟨congrArg (fun z => TzResult.localtime (localsub timep tmp z)) hzone, hholds⟩
  | mktimeTz tmp tz =>
      obtain ⟨hzone, hholds⟩ := h.zoneOf tz
      exact ⟨congrArg (fun z => TzResult.time (mktime tmp z)) hzone, hholds⟩

theorem ZoneCache.Holds.tzCalls (h : c.Holds files recent) (calls : List TzCall) :
    (tzCalls files c calls).1 = calls.map (plainCall files) ∧
      (tzCalls files c calls).2.Holds files (calls.foldl (recentCall files) recent) := by
  induction calls generalizing c recent with
  | nil => exact ⟨rfl, h⟩
  | cons call rest ih =>
      obtain ⟨hresult, hnext⟩ := h.tzCall call
      obtain ⟨hresults, hlast⟩ := ih hnext
      exact ⟨by rw [Tz.tzCalls, List.map_cons, ← hresult, ← hresults], hlast⟩

end calls

end Tz
end AndroidLinux
