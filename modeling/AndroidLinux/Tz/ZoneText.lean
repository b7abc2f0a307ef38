import AndroidLinux.Tz.RuleTable
import AndroidLinux.Tz.RuleText

/-!
# The text of a zone

`getzname`, `getqzname`, `getoffset` and `tzparse` of `tztime.c`.  What `tzparse` accepts is in a
grammar, `ZoneText`, and `localsub` follows the zone that it makes of it.

`tzparse` loads the file of the default rules, `posixrules`, and forgets its transitions.  If the
file can be loaded, its leap seconds stay in the state, and a text without rules gives a zone that
never leaves standard time; if it cannot, there are rules of the source for such a text.
-/

namespace AndroidLinux
namespace Tz

open Lib Lib.Calendar

def nameChar (c : UInt8) : Bool := !isDigit c && c != ch ',' && c != ch '-' && c != ch '+'

/-- The name in front of the pointer that `getzname` returns, and what is left there. -/
def getzname (strp : List UInt8) : List UInt8 × List UInt8 := strp.span nameChar

def getqzname (strp : List UInt8) (delim : UInt8) : List UInt8 × List UInt8 :=
  strp.span (· != delim)

/-- The name of standard time, or of daylight saving time. -/
def zoneName (name : List UInt8) : Option (List UInt8 × List UInt8) :=
  match skip (ch '<') name with
  | some name =>
      let r := getqzname name (ch '>')
      (skip (ch '>') r.2).map fun rest => (r.1, rest)
  | none => some (getzname name)

def getoffset (strp : List UInt8) : Option (Int × List UInt8) :=
  match skip (ch '-') strp with
  | some strp => (getsecs strp).map fun r => (-r.1, r.2)
  | none => getsecs ((skip (ch '+') strp).getD strp)

/-- The size of `chars` in `struct state`. -/
def charsSize : Nat := 512

/-- `TZDEFRULESTRING`. -/
def tzDefRuleString : List UInt8 :=
  [',', 'M', '4', '.', '1', '.', '0', ',', 'M', '1', '0', '.', '5', '.', '0'].map ch

/-- What `tzparse` writes: the names of `chars`, and the rest of the state. -/
structure ZoneState where
  stdname : List UInt8
  dstname : List UInt8
  state : State

/-- A zone that has standard time only. -/
def standardState (stdoffset : Int) : State where
  transitions := []
  ttis := [⟨-stdoffset, 0⟩]
  lsis := []
  lsisBefore := 0
  typed := nofun
  nonempty := List.cons_ne_nil _ _

/-- A zone that has daylight saving time, and no transitions. -/
def unruledState (stdoffset dstoffset : Int) : State where
  transitions := []
  ttis := [⟨-stdoffset, 0⟩, ⟨-dstoffset, 1⟩]
  lsis := []
  lsisBefore := 0
  typed := nofun
  nonempty := List.cons_ne_nil _ _

def ZoneState.charcnt (zone : ZoneState) : Nat :=
  zone.stdname.length + 1 + if zone.dstname.length ≠ 0 then zone.dstname.length + 1 else 0

/-- The names are copied if there is room for them. -/
def copyNames (zone : ZoneState) : Option ZoneState :=
  if charsSize < zone.charcnt then none else some zone

/-- The name of standard time, and its offset. -/
def standardPart (name : List UInt8) (lastditch : Bool) :
    Option (List UInt8 × Int × List UInt8) :=
  if lastditch then some (name.take (charsSize - 1), 0, [])
  else do
    let (stdname, name) ← zoneName name
    if name = [] then none
    else do
      let (stdoffset, name) ← getoffset name
      return (stdname, stdoffset, name)

/-- The offset of daylight saving time. -/
def daylightOffset (stdoffset : Int) (name : List UInt8) : Option (Int × List UInt8) :=
  match name with
  | [] => some (stdoffset - 3600, name)
  | c :: _ =>
      if c = ch ',' ∨ c = ch ';' then some (stdoffset - 3600, name) else getoffset name

/-- The two rules. -/
def rulesPart (name : List UInt8) : Option (Rule × Rule) :=
  match name with
  | [] => none
  | c :: name =>
      if c = ch ',' ∨ c = ch ';' then do
        let (start, name) ← getrule name
        let name ← skip (ch ',') name
        let (stop, name) ← getrule name
        if name = [] then some (start, stop) else none
      else none

/-- `tzparse`; `defRules` is what `tzload` has got from the file `TZDEFRULES`. -/
def tzparse (name : List UInt8) (lastditch : Bool) (defRules : Option LeapSeconds) :
    Option ZoneState := do
  let (stdname, stdoffset, name) ← standardPart name lastditch
  if name = [] then copyNames ⟨stdname, [], (standardState stdoffset).withLeaps defRules⟩
  else do
    let (dstname, name) ← zoneName name
    let (dstoffset, name) ← daylightOffset stdoffset name
    if name = [] ∧ defRules.isSome = true then
      copyNames ⟨stdname, dstname, (unruledState stdoffset dstoffset).withLeaps defRules⟩
    else do
      let (start, stop) ← rulesPart (if name = [] then tzDefRuleString else name)
      copyNames ⟨stdname, dstname,
        (ruleState ⟨start, stop, stdoffset, dstoffset⟩).withLeaps defRules⟩

/-! ## The grammar -/

inductive NameText : List UInt8 → List UInt8 → Prop
  | plain {name : List UInt8} (hchars : ∀ c ∈ name, nameChar c = true)
      (hfirst : ∀ c ∈ name.head?, c ≠ ch '<') : NameText name name
  | quoted {name : List UInt8} (hchars : ∀ c ∈ name, c ≠ ch '>') :
      NameText (ch '<' :: (name ++ [ch '>'])) name

inductive OffsetText : List UInt8 → Int → Prop
  | plain {text : List UInt8} {t : Int} (htime : TimeText text t) : OffsetText text t
  | west {text : List UInt8} {t : Int} (htime : TimeText text t) : OffsetText (ch '+' :: text) t
  | east {text : List UInt8} {t : Int} (htime : TimeText text t) :
      OffsetText (ch '-' :: text) (-t)

/-- An offset of daylight saving time can be left out: it is an hour less. -/
inductive DaylightText (stdoffset : Int) : List UInt8 → Int → Prop
  | given {text : List UInt8} {t : Int} (hoffset : OffsetText text t) :
      DaylightText stdoffset text t
  | hour : DaylightText stdoffset [] (stdoffset - 3600)

inductive RulesText : List UInt8 → Rule → Rule → Prop
  | given {c : UInt8} {first last : List UInt8} {start stop : Rule}
      (hsep : c = ch ',' ∨ c = ch ';') (hstart : RuleText first start)
      (hstop : RuleText last stop) :
      RulesText (c :: (first ++ ch ',' :: last)) start stop
  | fallback :
      RulesText [] ⟨.monthNthDayOfWeek, 0, 1, 4, 7200⟩ ⟨.monthNthDayOfWeek, 0, 5, 10, 7200⟩

/-- The texts of zones; only where the default rules have not been loaded, there are rules of the
source for a text that has none. -/
inductive ZoneText (defRules : Option LeapSeconds) : List UInt8 → ZoneState → Prop
  | standard {nt name ot : List UInt8} {stdoffset : Int} (hname : NameText nt name)
      (hoffset : OffsetText ot stdoffset) :
      ZoneText defRules (nt ++ ot) ⟨name, [], (standardState stdoffset).withLeaps defRules⟩
  | unruled {nt name ot dt dstname ot' : List UInt8} {stdoffset dstoffset : Int}
      (hname : NameText nt name) (hoffset : OffsetText ot stdoffset)
      (hdstname : NameText dt dstname) (hdstoffset : DaylightText stdoffset ot' dstoffset)
      (hloaded : defRules.isSome = true) :
      ZoneText defRules (nt ++ (ot ++ (dt ++ ot')))
        ⟨name, dstname, (unruledState stdoffset dstoffset).withLeaps defRules⟩
  | daylight {nt name ot dt dstname ot' rt : List UInt8} {z : ZoneRules} (hname : NameText nt name)
      (hoffset : OffsetText ot z.stdoffset) (hdstname : NameText dt dstname)
      (hdstoffset : DaylightText z.stdoffset ot' z.dstoffset)
      (hrules : RulesText rt z.start z.stop) (hfallback : rt = [] → defRules = none) :
      ZoneText defRules (nt ++ (ot ++ (dt ++ (ot' ++ rt))))
        ⟨name, dstname, (ruleState z).withLeaps defRules⟩

/-! ## Names and offsets -/

theorem skip_none {c : UInt8} {s : List UInt8} (h : skip c s = none) : ∀ b ∈ s.head?, b ≠ c := by
  rintro b hb rfl
  cases s with
  | nil => cases hb
  | cons d s =>
      obtain rfl := Option.some.inj hb
      rw [skip_cons] at h
      cases h

theorem head?_takeWhile {s : List UInt8} (p : UInt8 → Bool) :
    ∀ c ∈ (s.takeWhile p).head?, c ∈ s.head? := by
  intro c hc
  cases s with
  | nil => cases hc
  | cons d s =>
      rw [List.takeWhile_cons] at hc
      split at hc
      · exact hc
      · cases hc

theorem span_append {p : UInt8 → Bool} {text rest : List UInt8} (htext : ∀ c ∈ text, p c = true)
    (hrest : ∀ c ∈ rest.head?, p c = false) : (text ++ rest).span p = (text, rest) := by
  rw [List.span_eq_takeWhile_dropWhile, List.takeWhile_append_of_pos htext,
    List.dropWhile_append_of_pos htext]
  cases rest with
  | nil => rw [List.takeWhile_nil, List.append_nil, List.dropWhile_nil]
  | cons c rest =>
      have hc := hrest c rfl
      rw [List.takeWhile_cons_of_neg (by rw [hc]; exact Bool.false_ne_true), List.append_nil,
        List.dropWhile_cons_of_neg (by rw [hc]; exact Bool.false_ne_true)]

theorem zoneName_sound {s name rest : List UInt8} (h : zoneName s = some (name, rest)) :
    ∃ text, NameText text name ∧ s = text ++ rest := by
  unfold zoneName at h
  split at h
  next s₁ hopen =>
    obtain rfl := skip_eq_some.mp hopen
    obtain ⟨rest', hclose, heq⟩ := Option.map_eq_some_iff.mp h
    obtain ⟨rfl, rfl⟩ := Prod.mk.inj heq
    unfold getqzname at hclose ⊢
    rw [List.span_eq_takeWhile_dropWhile] at hclose ⊢
    dsimp only at hclose ⊢
    refine ⟨_, .quoted fun c hc => bne_iff_ne.mp (List.all_eq_true.mp List.all_takeWhile c hc), ?_⟩
    have hsplit := List.takeWhile_append_dropWhile (p := (· != ch '>')) (l := s₁)
    rw [skip_eq_some.mp hclose] at hsplit
    rw [List.cons_append, List.append_assoc, List.singleton_append, hsplit]
  next hopen =>
    unfold getzname at h
    rw [List.span_eq_takeWhile_dropWhile] at h
    obtain ⟨rfl, rfl⟩ := Prod.mk.inj (Option.some.inj h)
    exact ⟨_, .plain (List.all_eq_true.mp List.all_takeWhile)
      fun c hc => skip_none hopen c (head?_takeWhile _ c hc),
      List.takeWhile_append_dropWhile.symm⟩

theorem NameText.zoneName {text name rest : List UInt8} (h : NameText text name)
    (hrest : ∀ c ∈ rest.head?, nameChar c = false) :
    zoneName (text ++ rest) = some (name, rest) := by
  unfold Tz.zoneName
  cases h with
  | plain hchars hfirst =>
      have hopen : skip (ch '<') (text ++ rest) = none := by
        refine Tz.skip_eq_none fun c hc => ?_
        cases text with
        | nil =>
            rintro rfl
            exact absurd (hrest _ hc) (by decide)
        | cons d text => exact hfirst c hc
      rw [hopen]
      dsimp only
      rw [getzname, span_append hchars hrest]
  | quoted hchars =>
      rw [List.cons_append, skip_cons, List.append_assoc, List.singleton_append]
      dsimp only
      rw [getqzname, span_append (fun c hc => bne_iff_ne.mpr (hchars c hc))
        (by rintro c ⟨⟩; exact bne_self_eq_false _)]
      dsimp only
      rw [skip_cons, Option.map_some]

theorem getoffset_sound {s rest : List UInt8} {n : Int} (h : getoffset s = some (n, rest)) :
    ∃ text, OffsetText text n ∧ s = text ++ rest := by
  unfold getoffset at h
  split at h
  next s₁ hminus =>
    obtain rfl := skip_eq_some.mp hminus
    obtain ⟨⟨t, s₂⟩, hsecs, heq⟩ := Option.map_eq_some_iff.mp h
    obtain ⟨rfl, rfl⟩ := Prod.mk.inj heq
    obtain ⟨text, htext, rfl⟩ := getsecs_sound hsecs
    exact ⟨_, .east htext, rfl⟩
  next =>
    cases hplus : skip (ch '+') s with
    | none =>
        rw [hplus, Option.getD_none] at h
        obtain ⟨text, htext, rfl⟩ := getsecs_sound h
        exact ⟨_, .plain htext, rfl⟩
    | some s₁ =>
        rw [hplus, Option.getD_some] at h
        obtain rfl := skip_eq_some.mp hplus
        obtain ⟨text, htext, rfl⟩ := getsecs_sound h
        exact ⟨_, .west htext, rfl⟩

/-- A time begins with a digit. -/
theorem TimeText.head {text : List UInt8} {t : Int} (h : TimeText text t) (rest : List UInt8) :
    ∃ c, (text ++ rest).head? = some c ∧ isDigit c = true := by
  have hnumber {hh : List UInt8} {n : Int} (hhours : Number 0 (24 * 7 - 1) hh n)
      (rest : List UInt8) : ∃ c, (hh ++ rest).head? = some c ∧ isDigit c = true := by
    cases hh with
    | nil => exact absurd rfl hhours.nonempty
    | cons c hh => exact ⟨c, rfl, hhours.digits c List.mem_cons_self⟩
  cases h with
  | hours hhours => exact hnumber hhours rest
  | mins hhours hmins => simpa only [List.append_assoc] using hnumber hhours _
  | secs hhours hmins hsecs => simpa only [List.append_assoc] using hnumber hhours _

theorem OffsetText.getoffset {text rest : List UInt8} {n : Int} (h : OffsetText text n)
    (hrest : Ends rest) : getoffset (text ++ rest) = some (n, rest) := by
  unfold Tz.getoffset
  cases h with
  | plain htime =>
      obtain ⟨c, hhead, hdigit⟩ := htime.head rest
      have hsign {b : UInt8} (hb : isDigit b = false) : skip b (text ++ rest) = none := by
        refine Tz.skip_eq_none fun d hd => ?_
        rintro rfl
        rw [hhead] at hd
        obtain rfl := Option.some.inj hd
        exact absurd hdigit (by rw [hb]; exact Bool.false_ne_true)
      rw [hsign (by decide), hsign (by decide)]
      exact htime.getsecs hrest
  | west htime =>
      rw [List.cons_append, Tz.skip_eq_none (by rintro b ⟨⟩; decide), skip_cons]
      exact htime.getsecs hrest
  | east htime =>
      rw [List.cons_append, skip_cons]
      dsimp only
      rw [htime.getsecs hrest, Option.map_some]

/-- An offset begins with a byte that is not in a name, and does not separate the rules. -/
theorem OffsetText.head {text : List UInt8} {n : Int} (h : OffsetText text n)
    (rest : List UInt8) : ∃ c, (text ++ rest).head? = some c ∧ nameChar c = false ∧
      c ≠ ch ',' ∧ c ≠ ch ';' := by
  cases h with
  | plain htime =>
      obtain ⟨c, hhead, hdigit⟩ := htime.head rest
      refine ⟨c, hhead, ?_, ?_, ?_⟩
      · unfold nameChar
        rw [hdigit]
        rfl
      · rintro rfl
        exact absurd hdigit (by decide)
      · rintro rfl
        exact absurd hdigit (by decide)
  | west htime => exact ⟨_, rfl, by decide, by decide, by decide⟩
  | east htime => exact ⟨_, rfl, by decide, by decide, by decide⟩

theorem OffsetText.bounds {text : List UInt8} {n : Int} (h : OffsetText text n) :
    n.natAbs ≤ 604800 := by
  cases h with
  | plain htime | west htime | east htime =>
      have hbounds := htime.bounds
      omega

theorem DaylightText.bounds {text : List UInt8} {stdoffset n : Int}
    (h : DaylightText stdoffset text n) (hstd : stdoffset.natAbs ≤ 604800) :
    n.natAbs ≤ 608400 := by
  cases h with
  | given hoffset =>
      have hbounds := hoffset.bounds
      omega
  | hour => omega

/-! ## Rules -/

theorem rulesPart_sound {s : List UInt8} {start stop : Rule}
    (h : rulesPart s = some (start, stop)) : ∃ c first last, (c = ch ',' ∨ c = ch ';') ∧
      RuleText first start ∧ RuleText last stop ∧ s = c :: (first ++ ch ',' :: last) := by
  unfold rulesPart at h
  split at h
  · cases h
  next c s =>
    split at h
    next hsep =>
      obtain ⟨⟨start₁, s₁⟩, hstart, h₁⟩ := Option.bind_eq_some_iff.mp h
      obtain ⟨first, hfirst, rfl⟩ := getrule_sound hstart
      obtain ⟨s₂, hcomma, h₂⟩ := Option.bind_eq_some_iff.mp h₁
      obtain rfl := skip_eq_some.mp hcomma
      obtain ⟨⟨stop₁, s₃⟩, hstop, h₃⟩ := Option.bind_eq_some_iff.mp h₂
      obtain ⟨last, hlast, rfl⟩ := getrule_sound hstop
      dsimp only at h₃
      split at h₃
      next hend =>
        obtain ⟨rfl, rfl⟩ := Prod.mk.inj (Option.some.inj h₃)
        rw [hend, List.append_nil]
        exact ⟨c, first, last, hsep, hfirst, hlast, rfl⟩
      · cases h₃
    · cases h

theorem rulesText_of_rulesPart {s : List UInt8} {start stop : Rule}
    (h : rulesPart (if s = [] then tzDefRuleString else s) = some (start, stop)) :
    RulesText s start stop := by
  split at h
  next hs =>
    rw [show rulesPart tzDefRuleString = some (⟨.monthNthDayOfWeek, 0, 1, 4, 7200⟩,
      ⟨.monthNthDayOfWeek, 0, 5, 10, 7200⟩) from rfl] at h
    obtain ⟨rfl, rfl⟩ := Prod.mk.inj (Option.some.inj h)
    rw [hs]
    exact .fallback
  next =>
    obtain ⟨c, first, last, hsep, hstart, hstop, rfl⟩ := rulesPart_sound h
    exact .given hsep hstart hstop

theorem ends_nil : Ends [] :=
  ⟨by rintro c ⟨⟩, by rintro c ⟨⟩, by rintro c ⟨⟩⟩

theorem ends_comma (s : List UInt8) : Ends (ch ',' :: s) :=
  ⟨by rintro c ⟨⟩; decide, by rintro c ⟨⟩; decide, by rintro c ⟨⟩; decide⟩

theorem rulesPart_comma {first last : List UInt8} {start stop : Rule}
    (hstart : RuleText first start) (hstop : RuleText last stop) :
    rulesPart (ch ',' :: (first ++ ch ',' :: last)) = some (start, stop) := by
  have hlast := hstop.getrule ends_nil
  rw [List.append_nil] at hlast
  unfold rulesPart
  dsimp only
  rw [if_pos (Or.inl rfl), hstart.getrule (ends_comma last)]
  simp only [Option.bind_eq_bind, Option.bind_some, skip_cons, hlast, if_true]

theorem RulesText.valid {text : List UInt8} {start stop : Rule} (h : RulesText text start stop) :
    start.Valid ∧ stop.Valid := by
  cases h with
  | given hsep hstart hstop => exact ⟨hstart.valid, hstop.valid⟩
  | fallback => exact ⟨fallbackRules_yearly.start.1, fallbackRules_yearly.stop.1⟩

/-! ## Zones -/

/-- What can be in the state of a zone that has been read. -/
inductive ZoneState.Sound (defRules : Option LeapSeconds) (zone : ZoneState) : Prop
  | standard {stdoffset : Int} (hstate : zone.state = (standardState stdoffset).withLeaps defRules)
      (hstdoffset : stdoffset.natAbs ≤ 604800)
  | unruled {stdoffset dstoffset : Int}
      (hstate : zone.state = (unruledState stdoffset dstoffset).withLeaps defRules)
      (hstdoffset : stdoffset.natAbs ≤ 604800) (hdstoffset : dstoffset.natAbs ≤ 608400)
      (hloaded : defRules.isSome = true)
  | daylight {z : ZoneRules} (hstate : zone.state = (ruleState z).withLeaps defRules)
      (hstart : z.start.Valid) (hstop : z.stop.Valid) (hstdoffset : z.stdoffset.natAbs ≤ 604800)
      (hdstoffset : z.dstoffset.natAbs ≤ 608400)

variable {defRules : Option LeapSeconds}

theorem ZoneText.sound {text : List UInt8} {zone : ZoneState} (h : ZoneText defRules text zone) :
    zone.Sound defRules := by
  cases h with
  | standard hname hoffset => exact .standard rfl hoffset.bounds
  | unruled hname hoffset hdstname hdstoffset hloaded =>
      exact .unruled rfl hoffset.bounds (hdstoffset.bounds hoffset.bounds) hloaded
  | daylight hname hoffset hdstname hdstoffset hrules =>
      exact .daylight rfl hrules.valid.1 hrules.valid.2 hoffset.bounds
        (hdstoffset.bounds hoffset.bounds)

theorem copyNames_eq_some {zone zone' : ZoneState} (h : copyNames zone = some zone') :
    zone = zone' ∧ zone'.charcnt ≤ charsSize := by
  unfold copyNames at h
  split at h
  · cases h
  next hfits =>
    obtain rfl := Option.some.inj h
    exact ⟨rfl, Nat.not_lt.mp hfits⟩

theorem daylightOffset_sound {stdoffset n : Int} {s rest : List UInt8}
    (h : daylightOffset stdoffset s = some (n, rest)) :
    ∃ text, DaylightText stdoffset text n ∧ s = text ++ rest := by
  unfold daylightOffset at h
  split at h
  next =>
    obtain ⟨rfl, rfl⟩ := Prod.mk.inj (Option.some.inj h)
    exact ⟨[], .hour, rfl⟩
  next c s =>
    split at h
    · obtain ⟨rfl, rfl⟩ := Prod.mk.inj (Option.some.inj h)
      exact ⟨[], .hour, rfl⟩
    · obtain ⟨text, htext, hs⟩ := getoffset_sound h
      exact ⟨text, .given htext, hs⟩

theorem standardPart_sound {s name rest : List UInt8} {stdoffset : Int}
    (h : standardPart s false = some (name, stdoffset, rest)) :
    ∃ nt ot, NameText nt name ∧ OffsetText ot stdoffset ∧ s = nt ++ (ot ++ rest) := by
  unfold standardPart at h
  rw [if_neg Bool.false_ne_true] at h
  obtain ⟨⟨name₁, s₁⟩, hname, h₁⟩ := Option.bind_eq_some_iff.mp h
  obtain ⟨nt, hnt, rfl⟩ := zoneName_sound hname
  dsimp only at h₁
  split at h₁
  · cases h₁
  · obtain ⟨⟨offset, s₂⟩, hoffset, h₂⟩ := Option.bind_eq_some_iff.mp h₁
    obtain ⟨ot, hot, rfl⟩ := getoffset_sound hoffset
    obtain ⟨rfl, h₃⟩ := Prod.mk.inj (Option.some.inj h₂)
    obtain ⟨rfl, rfl⟩ := Prod.mk.inj h₃
    exact ⟨nt, ot, hnt, hot, rfl⟩

/-- What `tzparse` accepts is the text of a zone, and the names of the zone fit in the state. -/
theorem tzparse_sound {text : List UInt8} {zone : ZoneState}
    (h : tzparse text false defRules = some zone) :
    ZoneText defRules text zone ∧ zone.Sound defRules ∧ zone.charcnt ≤ charsSize := by
  unfold tzparse at h
  obtain ⟨⟨name, stdoffset, s₁⟩, hstandard, h₁⟩ := Option.bind_eq_some_iff.mp h
  obtain ⟨nt, ot, hname, hoffset, rfl⟩ := standardPart_sound hstandard
  dsimp only at h₁
  split at h₁
  next hend =>
    obtain ⟨rfl, hfits⟩ := copyNames_eq_some h₁
    rw [hend, List.append_nil]
    have htext : ZoneText defRules (nt ++ ot) _ := .standard hname hoffset
    exact ⟨htext, htext.sound, hfits⟩
  next =>
    obtain ⟨⟨dstname, s₂⟩, hdst, h₂⟩ := Option.bind_eq_some_iff.mp h₁
    obtain ⟨dt, hdstname, rfl⟩ := zoneName_sound hdst
    obtain ⟨⟨dstoffset, s₃⟩, hdaylight, h₃⟩ := Option.bind_eq_some_iff.mp h₂
    obtain ⟨ot', hdstoffset, rfl⟩ := daylightOffset_sound hdaylight
    dsimp only at h₃
    split at h₃
    next hunruled =>
      obtain ⟨rfl, hfits⟩ := copyNames_eq_some h₃
      rw [hunruled.1, List.append_nil]
      have htext : ZoneText defRules (nt ++ (ot ++ (dt ++ ot'))) _ :=
        .unruled hname hoffset hdstname hdstoffset hunruled.2
      exact ⟨htext, htext.sound, hfits⟩
    next hruled =>
      obtain ⟨⟨start, stop⟩, hrules, h₄⟩ := Option.bind_eq_some_iff.mp h₃
      obtain ⟨rfl, hfits⟩ := copyNames_eq_some h₄
      have htext : ZoneText defRules (nt ++ (ot ++ (dt ++ (ot' ++ s₃)))) _ :=
        .daylight (z := ⟨start, stop, stdoffset, dstoffset⟩) hname hoffset hdstname hdstoffset
          (rulesText_of_rulesPart hrules) fun hend =>
            Option.not_isSome_iff_eq_none.mp fun hloaded => hruled ⟨hend, hloaded⟩
      exact ⟨htext, htext.sound, hfits⟩

/-! ## From the text of a zone to local time -/

/-- A text with a name for daylight saving time that is not taken for a part of the offset in
front of it, and with rules behind a comma, or without rules where no default rules have been
loaded. -/
inductive PosixText (defRules : Option LeapSeconds) :
    List UInt8 → List UInt8 → List UInt8 → ZoneRules → Prop
  | mk {nt name ot dt dstname ot' rt : List UInt8} {z : ZoneRules} (hname : NameText nt name)
      (hoffset : OffsetText ot z.stdoffset) (hdstname : NameText dt dstname) (hdt : dt ≠ [])
      (hends : Ends dt) (hdstoffset : DaylightText z.stdoffset ot' z.dstoffset)
      (hrules : RulesText rt z.start z.stop) (hcomma : ∀ c ∈ rt.head?, c = ch ',')
      (hfallback : rt = [] → defRules = none) :
      PosixText defRules (nt ++ (ot ++ (dt ++ (ot' ++ rt)))) name dstname z

theorem Ends.append {text : List UInt8} (h : Ends text) (htext : text ≠ []) (rest : List UInt8) :
    Ends (text ++ rest) := by
  have hhead : (text ++ rest).head? = text.head? := List.head?_append_of_ne_nil text htext
  exact ⟨hhead ▸ h.digit, hhead ▸ h.colon, hhead ▸ h.slash⟩

theorem ends_of_comma {rt : List UInt8} (h : ∀ c ∈ rt.head?, c = ch ',') : Ends rt := by
  cases rt with
  | nil => exact ends_nil
  | cons c rt =>
      rw [h c rfl]
      exact ends_comma rt

theorem RulesText.rulesPart {rt : List UInt8} {start stop : Rule}
    (h : RulesText rt start stop) (hcomma : ∀ c ∈ rt.head?, c = ch ',') :
    rulesPart (if rt = [] then tzDefRuleString else rt) = some (start, stop) := by
  cases h with
  | given hsep hstart hstop =>
      rw [if_neg (List.cons_ne_nil _ _), hcomma _ rfl]
      exact rulesPart_comma hstart hstop
  | fallback => rfl

theorem DaylightText.daylightOffset {stdoffset n : Int} {text rt : List UInt8}
    (h : DaylightText stdoffset text n) (hcomma : ∀ c ∈ rt.head?, c = ch ',') :
    (∀ c ∈ (text ++ rt).head?, nameChar c = false) ∧
      daylightOffset stdoffset (text ++ rt) = some (n, rt) := by
  cases h with
  | given hoffset =>
      obtain ⟨c, hhead, hname, hc, hc'⟩ := hoffset.head rt
      have hget := hoffset.getoffset (ends_of_comma hcomma)
      refine ⟨fun d hd => ?_, ?_⟩
      · rw [hhead] at hd
        obtain rfl := Option.some.inj hd
        exact hname
      · obtain ⟨s, hs⟩ := List.head?_eq_some_iff.mp hhead
        rw [hs] at hget ⊢
        unfold Tz.daylightOffset
        dsimp only
        rw [if_neg (not_or.mpr ⟨hc, hc'⟩), hget]
  | hour =>
      cases rt with
      | nil => exact ⟨by rintro c ⟨⟩, rfl⟩
      | cons c rt =>
          obtain rfl := hcomma c rfl
          exact ⟨by rintro c ⟨⟩; decide, rfl⟩

theorem tzparse_posix {text name dstname : List UInt8} {z : ZoneRules}
    (h : PosixText defRules text name dstname z)
    (hfits : name.length + dstname.length + 2 ≤ charsSize) :
    tzparse text false defRules = some ⟨name, dstname, (ruleState z).withLeaps defRules⟩ := by
  cases h with
  | @mk nt _ ot dt _ ot' rt _ hname hoffset hdstname hdt hends hdstoffset hrules hcomma
      hfallback =>
      obtain ⟨hstop, hdaylight⟩ := hdstoffset.daylightOffset hcomma
      obtain ⟨c, hhead, hchar, -, -⟩ := hoffset.head (dt ++ (ot' ++ rt))
      have hfirst : zoneName (nt ++ (ot ++ (dt ++ (ot' ++ rt)))) =
          some (name, ot ++ (dt ++ (ot' ++ rt))) := by
        refine hname.zoneName fun d hd => ?_
        rw [hhead] at hd
        obtain rfl := Option.some.inj hd
        exact hchar
      have hne : ot ++ (dt ++ (ot' ++ rt)) ≠ [] := fun hnil => by
        rw [hnil] at hhead
        cases hhead
      have hne' : dt ++ (ot' ++ rt) ≠ [] := fun hnil => hdt (List.append_eq_nil_iff.mp hnil).1
      have hruled : ¬ (rt = [] ∧ defRules.isSome = true) := by
        rintro ⟨hend, hloaded⟩
        rw [hfallback hend] at hloaded
        cases hloaded
      have hroom : ¬ charsSize <
          ZoneState.charcnt ⟨name, dstname, (ruleState z).withLeaps defRules⟩ := by
        unfold ZoneState.charcnt
        dsimp only
        split <;> omega
      unfold tzparse standardPart
      rw [if_neg Bool.false_ne_true, hfirst]
      simp only [Option.bind_eq_bind, Option.bind_some, if_neg hne, Option.pure_def,
        hoffset.getoffset (hends.append hdt _), if_neg hne', hdstname.zoneName hstop, hdaylight,
        if_neg hruled, hrules.rulesPart hcomma, copyNames, if_neg hroom]

/-- From the second Sunday of March to the first one of November. -/
def newRules : ZoneRules where
  start := ⟨.monthNthDayOfWeek, 0, 2, 3, 7200⟩
  stop := ⟨.monthNthDayOfWeek, 0, 1, 11, 7200⟩
  stdoffset := 5 * 3600
  dstoffset := 5 * 3600 - 3600

def newRulesText : List UInt8 :=
  ['E', 'S', 'T', '5', 'E', 'D', 'T', ',', 'M', '3', '.', '2', '.', '0',
    ',', 'M', '1', '1', '.', '1', '.', '0'].map ch

theorem number_of_all {min max n : Int} {text : List UInt8} (hne : text ≠ [])
    (hall : text.all isDigit = true)
    (hvalue : text.foldl (fun num c => num * 10 + digit c) 0 = n) (hrange : min ≤ n ∧ n ≤ max) :
    Number min max text n :=
  ⟨hne, List.all_eq_true.mp hall, hvalue, hrange⟩

/-- A name of letters, with the first one given. -/
theorem nameText_of_all {c : UInt8} {name : List UInt8} (hc : c ≠ ch '<')
    (hall : (c :: name).all nameChar = true) : NameText (c :: name) (c :: name) := by
  refine .plain (List.all_eq_true.mp hall) fun d hd => ?_
  obtain rfl := Option.some.inj hd
  exact hc

theorem newRulesText_posix (defRules : Option LeapSeconds) :
    PosixText defRules newRulesText (['E', 'S', 'T'].map ch) (['E', 'D', 'T'].map ch) newRules := by
  have hstart : RuleText (['M', '3', '.', '2', '.', '0'].map ch) newRules.start :=
    .date (@DateText.monthNthDayOfWeek [ch '3'] [ch '2'] [ch '0'] 3 2 0
      (number_of_all (List.cons_ne_nil _ _) rfl rfl (by decide))
      (number_of_all (List.cons_ne_nil _ _) rfl rfl (by decide))
      (number_of_all (List.cons_ne_nil _ _) rfl rfl (by decide)))
  have hstop : RuleText (['M', '1', '1', '.', '1', '.', '0'].map ch) newRules.stop :=
    .date (@DateText.monthNthDayOfWeek [ch '1', ch '1'] [ch '1'] [ch '0'] 11 1 0
      (number_of_all (List.cons_ne_nil _ _) rfl rfl (by decide))
      (number_of_all (List.cons_ne_nil _ _) rfl rfl (by decide))
      (number_of_all (List.cons_ne_nil _ _) rfl rfl (by decide)))
  have hoffset : OffsetText [ch '5'] newRules.stdoffset :=
    .plain (.hours (number_of_all (List.cons_ne_nil _ _) rfl rfl (by decide)))
  have hname : NameText (['E', 'S', 'T'].map ch) (['E', 'S', 'T'].map ch) :=
    nameText_of_all (by decide) rfl
  have hdstname : NameText (['E', 'D', 'T'].map ch) (['E', 'D', 'T'].map ch) :=
    nameText_of_all (by decide) rfl
  have hends : Ends (['E', 'D', 'T'].map ch) :=
    ⟨by rintro c ⟨⟩; decide, by rintro c ⟨⟩; decide, by rintro c ⟨⟩; decide⟩
  exact .mk hname hoffset hdstname (List.cons_ne_nil _ _) hends .hour
    (.given (.inl rfl) hstart hstop) (by rintro c ⟨⟩; rfl) fun hnil => by cases hnil

/-- The leap second of June 2012. -/
def june2012 : LeapSeconds := ⟨[⟨1341100800, 1⟩], 0⟩

theorem tzparse_sound_newRules :
    ZoneText (some june2012) newRulesText ⟨['E', 'S', 'T'].map ch, ['E', 'D', 'T'].map ch,
        (ruleState newRules).withLeaps (some june2012)⟩ ∧
      ZoneState.Sound (some june2012) ⟨['E', 'S', 'T'].map ch, ['E', 'D', 'T'].map ch,
        (ruleState newRules).withLeaps (some june2012)⟩ ∧
      ZoneState.charcnt ⟨['E', 'S', 'T'].map ch, ['E', 'D', 'T'].map ch,
        (ruleState newRules).withLeaps (some june2012)⟩ ≤ charsSize :=
  tzparse_sound (tzparse_posix (newRulesText_posix _) (by decide))

end Tz
end AndroidLinux
