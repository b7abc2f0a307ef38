import AndroidLinux.Tz.Rules

/-!
# The text of a rule

`getnum`, `getsecs` and `getrule` of `tztime.c`.  A text is the list of its bytes in front of the
NUL, a call returns what is left of it, and `none` is the null pointer.  `getrule` accepts a
grammar: `RuleText`.
-/

namespace AndroidLinux
namespace Tz

open Lib Lib.Calendar
open Time (toS32)

def ch (c : Char) : UInt8 := c.toUInt8

/-- `is_digit`. -/
def isDigit (c : UInt8) : Bool := decide (48 ≤ c.toNat ∧ c.toNat ≤ 57)

def digit (c : UInt8) : Int := (c.toNat : Int) - 48

/-- The loop of `getnum`. -/
def getnumLoop (max : Int) : Int → List UInt8 → Option (Int × List UInt8)
  | num, [] => some (num, [])
  | num, c :: strp =>
      if isDigit c = true then
        if max < num * 10 + digit c then none else getnumLoop max (num * 10 + digit c) strp
      else some (num, c :: strp)

def getnum (min max : Int) (strp : List UInt8) : Option (Int × List UInt8) :=
  match strp with
  | [] => none
  | c :: _ =>
      if isDigit c = true then
        (getnumLoop max 0 strp).bind fun r => if r.1 < min then none else some r
      else none

/-- A byte that must be there, or may be. -/
def skip (c : UInt8) : List UInt8 → Option (List UInt8)
  | [] => none
  | b :: strp => if b = c then some strp else none

def getsecs (strp : List UInt8) : Option (Int × List UInt8) := do
  let (hours, strp) ← getnum 0 (24 * 7 - 1) strp
  match skip (ch ':') strp with
  | none => return (hours * 3600, strp)
  | some strp => do
      let (mins, strp) ← getnum 0 59 strp
      match skip (ch ':') strp with
      | none => return (hours * 3600 + mins * 60, strp)
      | some strp => do
          let (secs, strp) ← getnum 0 60 strp
          return (hours * 3600 + mins * 60 + secs, strp)

/-- The date of a rule, whose time is not set yet. -/
def getdate (strp : List UInt8) : Option (Rule × List UInt8) :=
  match skip (ch 'J') strp with
  | some strp => (getnum 1 365 strp).map fun r => (⟨.julianDay, r.1, 0, 0, 0⟩, r.2)
  | none =>
      match skip (ch 'M') strp with
      | some strp => do
          let (mon, strp) ← getnum 1 12 strp
          let strp ← skip (ch '.') strp
          let (week, strp) ← getnum 1 5 strp
          let strp ← skip (ch '.') strp
          let (day, strp) ← getnum 0 6 strp
          return (⟨.monthNthDayOfWeek, day, week, mon, 0⟩, strp)
      | none => (getnum 0 365 strp).map fun r => (⟨.dayOfYear, r.1, 0, 0, 0⟩, r.2)

def getrule (strp : List UInt8) : Option (Rule × List UInt8) :=
  (getdate strp).bind fun r =>
    match skip (ch '/') r.2 with
    | some strp => (getsecs strp).map fun s => ({ r.1 with time := s.1 }, s.2)
    | none => some ({ r.1 with time := 2 * 3600 }, r.2)

/-! ## The grammar -/

/-- Digits that stand for a number in a range. -/
structure Number (min max : Int) (text : List UInt8) (n : Int) : Prop where
  nonempty : text ≠ []
  digits : ∀ c ∈ text, isDigit c = true
  value : text.foldl (fun num c => num * 10 + digit c) 0 = n
  range : min ≤ n ∧ n ≤ max

inductive TimeText : List UInt8 → Int → Prop
  | hours {hh : List UInt8} {h : Int} (hhours : Number 0 (24 * 7 - 1) hh h) :
      TimeText hh (h * 3600)
  | mins {hh mm : List UInt8} {h m : Int} (hhours : Number 0 (24 * 7 - 1) hh h)
      (hmins : Number 0 59 mm m) :
      TimeText (hh ++ ch ':' :: mm) (h * 3600 + m * 60)
  | secs {hh mm ss : List UInt8} {h m s : Int} (hhours : Number 0 (24 * 7 - 1) hh h)
      (hmins : Number 0 59 mm m) (hsecs : Number 0 60 ss s) :
      TimeText (hh ++ ch ':' :: (mm ++ ch ':' :: ss)) (h * 3600 + m * 60 + s)

inductive DateText : List UInt8 → Rule → Prop
  | julianDay {dd : List UInt8} {d : Int} (hday : Number 1 365 dd d) :
      DateText (ch 'J' :: dd) ⟨.julianDay, d, 0, 0, 0⟩
  | dayOfYear {dd : List UInt8} {d : Int} (hday : Number 0 365 dd d) :
      DateText dd ⟨.dayOfYear, d, 0, 0, 0⟩
  | monthNthDayOfWeek {mm ww dd : List UInt8} {m w d : Int} (hmon : Number 1 12 mm m)
      (hweek : Number 1 5 ww w) (hday : Number 0 6 dd d) :
      DateText (ch 'M' :: (mm ++ ch '.' :: (ww ++ ch '.' :: dd)))
        ⟨.monthNthDayOfWeek, d, w, m, 0⟩

inductive RuleText : List UInt8 → Rule → Prop
  | date {date : List UInt8} {rule : Rule} (hdate : DateText date rule) :
      RuleText date { rule with time := 7200 }
  | time {date time : List UInt8} {rule : Rule} {t : Int} (hdate : DateText date rule)
      (htime : TimeText time t) : RuleText (date ++ ch '/' :: time) { rule with time := t }

/-- What can follow a rule without being taken for a part of it. -/
structure Ends (rest : List UInt8) : Prop where
  digit : ∀ c ∈ rest.head?, isDigit c = false
  colon : ∀ c ∈ rest.head?, c ≠ ch ':'
  slash : ∀ c ∈ rest.head?, c ≠ ch '/'

/-! ## Numbers -/

theorem digit_bounds {c : UInt8} (h : isDigit c = true) : 0 ≤ digit c ∧ digit c ≤ 9 := by
  unfold isDigit at h
  unfold digit
  have hbounds := of_decide_eq_true h
  omega

theorem le_foldl_digits (text : List UInt8) (hdigits : ∀ c ∈ text, isDigit c = true) {num : Int}
    (hnum : 0 ≤ num) : num ≤ text.foldl (fun num c => num * 10 + digit c) num := by
  induction text generalizing num with
  | nil => exact le_rfl
  | cons c text ih =>
      have hdigit := digit_bounds (hdigits c List.mem_cons_self)
      rw [List.foldl_cons]
      have hle := ih (fun c hc => hdigits c (List.mem_cons_of_mem _ hc))
        (show 0 ≤ num * 10 + digit c by omega)
      omega

theorem getnumLoop_iff {max : Int} (s : List UInt8) {num n : Int} {rest : List UInt8}
    (hnum : 0 ≤ num) (hmax : num ≤ max) : getnumLoop max num s = some (n, rest) ↔
      (∀ c ∈ rest.head?, isDigit c = false) ∧ ∃ text, s = text ++ rest ∧
        (∀ c ∈ text, isDigit c = true) ∧
        text.foldl (fun num c => num * 10 + digit c) num = n ∧ n ≤ max := by
  induction s generalizing num with
  | nil =>
      rw [getnumLoop, Option.some.injEq, Prod.mk.injEq]
      constructor
      · rintro ⟨rfl, rfl⟩
        exact ⟨nofun, [], rfl, nofun, rfl, hmax⟩
      · rintro ⟨-, text, htext, -, hvalue, -⟩
        obtain ⟨rfl, rfl⟩ := List.append_eq_nil_iff.mp htext.symm
        exact ⟨hvalue, rfl⟩
  | cons c s ih =>
      rw [getnumLoop]
      by_cases hdigit : isDigit c = true
      · have hbounds := digit_bounds hdigit
        rw [if_pos hdigit]
        by_cases hlarge : max < num * 10 + digit c
        · rw [if_pos hlarge]
          refine iff_of_false nofun ?_
          rintro ⟨hrest, text, htext, hdigits, hvalue, hle⟩
          cases text with
          | nil =>
              rw [List.nil_append] at htext
              subst htext
              exact absurd hdigit (by rw [hrest c rfl]; exact Bool.false_ne_true)
          | cons c' text =>
              obtain ⟨rfl, -⟩ := List.cons.inj htext
              rw [List.foldl_cons] at hvalue
              have hge := le_foldl_digits text
                (fun c hc => hdigits c (List.mem_cons_of_mem _ hc))
                (show 0 ≤ num * 10 + digit c by omega)
              omega
        · rw [if_neg hlarge, ih (by omega) (Int.not_lt.mp hlarge)]
          refine and_congr_right fun hrest => ⟨?_, ?_⟩
          · rintro ⟨text, rfl, hdigits, hvalue, hle⟩
            exact ⟨c :: text, rfl, List.forall_mem_cons.mpr ⟨hdigit, hdigits⟩, hvalue, hle⟩
          · rintro ⟨text, htext, hdigits, hvalue, hle⟩
            cases text with
            | nil =>
                rw [List.nil_append] at htext
                subst htext
                exact absurd hdigit (by rw [hrest c rfl]; exact Bool.false_ne_true)
            | cons c' text =>
                obtain ⟨rfl, rfl⟩ := List.cons.inj htext
                exact ⟨text, rfl, fun c hc => hdigits c (List.mem_cons_of_mem _ hc), hvalue, hle⟩
      · rw [if_neg hdigit, Option.some.injEq, Prod.mk.injEq]
        constructor
        · rintro ⟨rfl, rfl⟩
          refine ⟨fun c' hc' => ?_, [], rfl, nofun, rfl, hmax⟩
          obtain rfl := Option.some.inj hc'
          exact Bool.eq_false_iff.mpr hdigit
        · rintro ⟨-, text, htext, hdigits, hvalue, -⟩
          cases text with
          | nil => exact ⟨hvalue, htext⟩
          | cons c' text =>
              obtain ⟨rfl, -⟩ := List.cons.inj htext
              exact absurd (hdigits c List.mem_cons_self) hdigit

/-- `getnum` takes the digits that there are, if they stand for a number in the range. -/
theorem getnum_iff {min max : Int} (hmax : 0 ≤ max) {s rest : List UInt8} {n : Int} :
    getnum min max s = some (n, rest) ↔
      (∀ c ∈ rest.head?, isDigit c = false) ∧ ∃ text, Number min max text n ∧ s = text ++ rest := by
  cases s with
  | nil =>
      refine iff_of_false nofun ?_
      rintro ⟨-, text, hnumber, htext⟩
      exact hnumber.nonempty (List.append_eq_nil_iff.mp htext.symm).1
  | cons c s =>
      unfold getnum
      dsimp only
      by_cases hdigit : isDigit c = true
      · rw [if_pos hdigit, Option.bind_eq_some_iff]
        constructor
        · rintro ⟨⟨n', rest'⟩, hloop, hmin⟩
          split at hmin
          · cases hmin
          next hge =>
            obtain ⟨rfl, rfl⟩ := Prod.mk.inj (Option.some.inj hmin)
            obtain ⟨hrest, text, htext, hdigits, hvalue, hle⟩ :=
              (getnumLoop_iff _ le_rfl hmax).mp hloop
            refine ⟨hrest, text, ⟨?_, hdigits, hvalue, Int.not_lt.mp hge, hle⟩, htext⟩
            rintro rfl
            rw [List.nil_append] at htext
            subst htext
            exact absurd hdigit (by rw [hrest c rfl]; exact Bool.false_ne_true)
        · rintro ⟨hrest, text, hnumber, htext⟩
          refine ⟨(n, rest), (getnumLoop_iff _ le_rfl hmax).mpr
            ⟨hrest, text, htext, hnumber.digits, hnumber.value, hnumber.range.2⟩, ?_⟩
          exact if_neg (Int.not_lt.mpr hnumber.range.1)
      · rw [if_neg hdigit]
        refine iff_of_false nofun ?_
        rintro ⟨-, text, hnumber, htext⟩
        cases text with
        | nil => exact hnumber.nonempty rfl
        | cons c' text =>
            obtain ⟨rfl, -⟩ := List.cons.inj htext
            exact hdigit (hnumber.digits c List.mem_cons_self)

theorem getnum_sound {min max : Int} (hmax : 0 ≤ max) {s rest : List UInt8} {n : Int}
    (h : getnum min max s = some (n, rest)) : ∃ text, Number min max text n ∧ s = text ++ rest :=
  ((getnum_iff hmax).mp h).2

theorem Number.getnum {min max : Int} {text rest : List UInt8} {n : Int}
    (h : Number min max text n) (hmax : 0 ≤ max) (hrest : ∀ c ∈ rest.head?, isDigit c = false) :
    getnum min max (text ++ rest) = some (n, rest) :=
  (getnum_iff hmax).mpr ⟨hrest, text, h, rfl⟩

theorem skip_eq_some {c : UInt8} {s rest : List UInt8} : skip c s = some rest ↔ s = c :: rest := by
  cases s with
  | nil => exact iff_of_false nofun nofun
  | cons b s =>
      unfold skip
      dsimp only
      by_cases hb : b = c
      · rw [if_pos hb, hb, Option.some.injEq, List.cons.injEq, and_iff_right rfl]
      · rw [if_neg hb]
        exact iff_of_false nofun fun h => hb (List.cons.inj h).1

theorem skip_cons (c : UInt8) (s : List UInt8) : skip c (c :: s) = some s := skip_eq_some.mpr rfl

theorem skip_eq_none {c : UInt8} {s : List UInt8} (h : ∀ b ∈ s.head?, b ≠ c) : skip c s = none := by
  cases s with
  | nil => rfl
  | cons b s => exact if_neg (h b rfl)

/-- A digit is none of the other bytes of a rule. -/
theorem Number.skip_eq_none {min max : Int} {text rest : List UInt8} {n : Int}
    (h : Number min max text n) {c : UInt8} (hc : isDigit c = false) :
    skip c (text ++ rest) = none := by
  refine Tz.skip_eq_none fun b hb => ?_
  rintro rfl
  cases text with
  | nil => exact h.nonempty rfl
  | cons d text =>
      obtain rfl := Option.some.inj hb
      exact absurd (h.digits d List.mem_cons_self) (by rw [hc]; exact Bool.false_ne_true)

theorem head?_cons_ne_digit {c : UInt8} (hc : isDigit c = false) (s : List UInt8) :
    ∀ b ∈ (c :: s).head?, isDigit b = false := by
  intro b hb
  obtain rfl := Option.some.inj hb
  exact hc

/-! ## Times, dates and rules -/

theorem getsecs_sound {s rest : List UInt8} {n : Int} (h : getsecs s = some (n, rest)) :
    ∃ text, TimeText text n ∧ s = text ++ rest := by
  unfold getsecs at h
  obtain ⟨⟨hours, s₁⟩, hhours, h₁⟩ := Option.bind_eq_some_iff.mp h
  obtain ⟨hh, hnumber, rfl⟩ := getnum_sound (by decide) hhours
  dsimp only at h₁
  split at h₁
  next =>
    obtain ⟨rfl, rfl⟩ := Prod.mk.inj (Option.some.inj h₁)
    exact ⟨hh, .hours hnumber, rfl⟩
  next s₂ hcolon =>
    obtain rfl := skip_eq_some.mp hcolon
    obtain ⟨⟨mins, s₃⟩, hmins, h₂⟩ := Option.bind_eq_some_iff.mp h₁
    obtain ⟨mm, hnumber', rfl⟩ := getnum_sound (by decide) hmins
    dsimp only at h₂
    split at h₂
    next =>
      obtain ⟨rfl, rfl⟩ := Prod.mk.inj (Option.some.inj h₂)
      exact ⟨_, .mins hnumber hnumber', by simp⟩
    next s₄ hcolon' =>
      obtain rfl := skip_eq_some.mp hcolon'
      obtain ⟨⟨secs, s₅⟩, hsecs, h₃⟩ := Option.bind_eq_some_iff.mp h₂
      obtain ⟨ss, hnumber'', rfl⟩ := getnum_sound (by decide) hsecs
      obtain ⟨rfl, rfl⟩ := Prod.mk.inj (Option.some.inj h₃)
      exact ⟨_, .secs hnumber hnumber' hnumber'', by simp⟩

theorem TimeText.getsecs {text rest : List UInt8} {n : Int} (h : TimeText text n)
    (hrest : Ends rest) : getsecs (text ++ rest) = some (n, rest) := by
  have hcolon (s : List UInt8) := head?_cons_ne_digit (show isDigit (ch ':') = false by decide) s
  unfold Tz.getsecs
  cases h with
  | hours hhours =>
      rw [hhours.getnum (by decide) hrest.digit]
      simp only [Option.bind_eq_bind, Option.bind_some, Tz.skip_eq_none hrest.colon,
        Option.pure_def]
  | mins hhours hmins =>
      rw [List.append_assoc, List.cons_append, hhours.getnum (by decide) (hcolon _)]
      simp only [Option.bind_eq_bind, Option.bind_some, skip_cons,
        hmins.getnum (by decide) hrest.digit, Tz.skip_eq_none hrest.colon, Option.pure_def]
  | secs hhours hmins hsecs =>
      rw [List.append_assoc, List.cons_append, List.append_assoc, List.cons_append,
        hhours.getnum (by decide) (hcolon _)]
      simp only [Option.bind_eq_bind, Option.bind_some, skip_cons,
        hmins.getnum (by decide) (hcolon _), hsecs.getnum (by decide) hrest.digit, Option.pure_def]

theorem getdate_sound {s rest : List UInt8} {rule : Rule} (h : getdate s = some (rule, rest)) :
    ∃ text, DateText text rule ∧ s = text ++ rest := by
  unfold getdate at h
  split at h
  next s₁ hj =>
    obtain rfl := skip_eq_some.mp hj
    obtain ⟨⟨day, s₂⟩, hday, heq⟩ := Option.map_eq_some_iff.mp h
    obtain ⟨rfl, rfl⟩ := Prod.mk.inj heq
    obtain ⟨dd, hnumber, rfl⟩ := getnum_sound (by decide) hday
    exact ⟨_, .julianDay hnumber, rfl⟩
  next =>
    split at h
    next s₁ hm =>
      obtain rfl := skip_eq_some.mp hm
      obtain ⟨⟨mon, s₂⟩, hmon, h₁⟩ := Option.bind_eq_some_iff.mp h
      obtain ⟨mm, hnumber, rfl⟩ := getnum_sound (by decide) hmon
      obtain ⟨s₃, hdot, h₂⟩ := Option.bind_eq_some_iff.mp h₁
      obtain rfl := skip_eq_some.mp hdot
      obtain ⟨⟨week, s₄⟩, hweek, h₃⟩ := Option.bind_eq_some_iff.mp h₂
      obtain ⟨ww, hnumber', rfl⟩ := getnum_sound (by decide) hweek
      obtain ⟨s₅, hdot', h₄⟩ := Option.bind_eq_some_iff.mp h₃
      obtain rfl := skip_eq_some.mp hdot'
      obtain ⟨⟨day, s₆⟩, hday, h₅⟩ := Option.bind_eq_some_iff.mp h₄
      obtain ⟨dd, hnumber'', rfl⟩ := getnum_sound (by decide) hday
      obtain ⟨rfl, rfl⟩ := Prod.mk.inj (Option.some.inj h₅)
      exact ⟨_, .monthNthDayOfWeek hnumber hnumber' hnumber'', by simp⟩
    next =>
      obtain ⟨⟨day, s₂⟩, hday, heq⟩ := Option.map_eq_some_iff.mp h
      obtain ⟨rfl, rfl⟩ := Prod.mk.inj heq
      obtain ⟨dd, hnumber, rfl⟩ := getnum_sound (by decide) hday
      exact ⟨_, .dayOfYear hnumber, rfl⟩

theorem DateText.getdate {text rest : List UInt8} {rule : Rule} (h : DateText text rule)
    (hrest : ∀ c ∈ rest.head?, isDigit c = false) :
    getdate (text ++ rest) = some (rule, rest) := by
  have hdot (s : List UInt8) := head?_cons_ne_digit (show isDigit (ch '.') = false by decide) s
  unfold Tz.getdate
  cases h with
  | julianDay hday =>
      rw [List.cons_append, skip_cons]
      dsimp only
      rw [hday.getnum (by decide) hrest, Option.map_some]
  | dayOfYear hday =>
      rw [hday.skip_eq_none (by decide)]
      dsimp only
      rw [hday.skip_eq_none (by decide)]
      dsimp only
      rw [hday.getnum (by decide) hrest, Option.map_some]
  | monthNthDayOfWeek hmon hweek hday =>
      rw [List.cons_append, Tz.skip_eq_none (c := ch 'J') (by rintro b ⟨⟩; decide), skip_cons]
      dsimp only
      rw [List.append_assoc, List.cons_append, List.append_assoc, List.cons_append,
        hmon.getnum (by decide) (hdot _)]
      simp only [Option.bind_eq_bind, Option.bind_some, skip_cons,
        hweek.getnum (by decide) (hdot _), hday.getnum (by decide) hrest, Option.pure_def]

theorem getrule_sound {s rest : List UInt8} {rule : Rule} (h : getrule s = some (rule, rest)) :
    ∃ text, RuleText text rule ∧ s = text ++ rest := by
  unfold getrule at h
  obtain ⟨⟨rule₁, s₁⟩, hdate, h₁⟩ := Option.bind_eq_some_iff.mp h
  obtain ⟨date, hdatetext, rfl⟩ := getdate_sound hdate
  dsimp only at h₁
  split at h₁
  next s₂ hskip =>
    obtain rfl := skip_eq_some.mp hskip
    obtain ⟨⟨t, s₃⟩, htime, heq⟩ := Option.map_eq_some_iff.mp h₁
    obtain ⟨rfl, rfl⟩ := Prod.mk.inj heq
    obtain ⟨time, htimetext, rfl⟩ := getsecs_sound htime
    exact ⟨_, .time hdatetext htimetext, by simp⟩
  next =>
    obtain ⟨rfl, rfl⟩ := Prod.mk.inj (Option.some.inj h₁)
    exact ⟨date, .date hdatetext, rfl⟩

theorem RuleText.getrule {text rest : List UInt8} {rule : Rule} (h : RuleText text rule)
    (hrest : Ends rest) : getrule (text ++ rest) = some (rule, rest) := by
  have hslash (s : List UInt8) := head?_cons_ne_digit (show isDigit (ch '/') = false by decide) s
  unfold Tz.getrule
  cases h with
  | date hdate =>
      rw [hdate.getdate hrest.digit, Option.bind_some]
      dsimp only
      rw [Tz.skip_eq_none hrest.slash]
      rfl
  | time hdate htime =>
      rw [List.append_assoc, List.cons_append, hdate.getdate (hslash _), Option.bind_some]
      dsimp only
      rw [skip_cons]
      dsimp only
      rw [htime.getsecs hrest, Option.map_some]

/-- `getrule` accepts the texts of the grammar, and takes all that belongs to the rule. -/
theorem getrule_iff {s rest : List UInt8} {rule : Rule} (hrest : Ends rest) :
    getrule s = some (rule, rest) ↔ ∃ text, RuleText text rule ∧ s = text ++ rest := by
  refine ⟨getrule_sound, ?_⟩
  rintro ⟨text, htext, rfl⟩
  exact htext.getrule hrest

/-- The end of a rule for the start of daylight saving time. -/
theorem getrule_iff_comma :
    getrule (['M', '4', '.', '1', '.', '0', ','].map ch) =
        some (⟨.monthNthDayOfWeek, 0, 1, 4, 7200⟩, [ch ',']) ↔
      ∃ text, RuleText text ⟨.monthNthDayOfWeek, 0, 1, 4, 7200⟩ ∧
        ['M', '4', '.', '1', '.', '0', ','].map ch = text ++ [ch ','] :=
  getrule_iff ⟨by rintro c ⟨⟩; decide, by rintro c ⟨⟩; decide, by rintro c ⟨⟩; decide⟩

/-! ## From the text of a rule to its instants -/

theorem TimeText.bounds {text : List UInt8} {t : Int} (h : TimeText text t) :
    0 ≤ t ∧ t ≤ 167 * 3600 + 59 * 60 + 60 := by
  cases h with
  | hours hhours =>
      have h₁ := hhours.range
      omega
  | mins hhours hmins =>
      have h₁ := hhours.range
      have h₂ := hmins.range
      omega
  | secs hhours hmins hsecs =>
      have h₁ := hhours.range
      have h₂ := hmins.range
      have h₃ := hsecs.range
      omega

/-- The date of a rule is valid at any time of the day. -/
theorem DateText.valid {text : List UInt8} {rule : Rule} (h : DateText text rule) {t : Int}
    (ht : 0 ≤ t ∧ t ≤ 167 * 3600 + 59 * 60 + 60) : Rule.Valid { rule with time := t } := by
  cases h with
  | julianDay hday => exact ⟨fun _ => hday.range, nofun, nofun, ht⟩
  | dayOfYear hday => exact ⟨nofun, fun _ => hday.range, nofun, ht⟩
  | monthNthDayOfWeek hmon hweek hday =>
      exact ⟨nofun, nofun, fun _ => ⟨hmon.range, hweek.range, hday.range⟩, ht⟩

theorem RuleText.valid {text : List UInt8} {rule : Rule} (h : RuleText text rule) :
    rule.Valid := by
  cases h with
  | date hdate => exact hdate.valid (by decide)
  | time hdate htime => exact hdate.valid htime.bounds

/-- A rule that has been read takes effect, in every year, on the day that it says. -/
theorem transtime_of_getrule {s rest : List UInt8} {rule : Rule}
    (h : getrule s = some (rule, rest)) {year : Int} (hyear : 1 ≤ year) (offset : Int) :
    ∃ day, rule.On year day ∧ transtime (86400 * yearStart year) year rule offset =
      toS32 (86400 * day + rule.time + offset) := by
  obtain ⟨text, htext, -⟩ := getrule_sound h
  obtain ⟨day, hon, hday⟩ := ruleDay_eq htext.valid hyear
  exact ⟨day, hon, by rw [transtime, hday]⟩

/-- The sixtieth day of a leap year is the first of March. -/
theorem transtime_of_getrule_march : ∃ day,
    Rule.On ⟨.julianDay, 60, 0, 0, 7200⟩ 2012 day ∧
      transtime (86400 * yearStart 2012) 2012 ⟨.julianDay, 60, 0, 0, 7200⟩ 0 =
        toS32 (86400 * day + 7200 + 0) :=
  transtime_of_getrule (show getrule [ch 'J', ch '6', ch '0'] = some (_, []) from rfl)
    (by decide) 0

end Tz
end AndroidLinux
