import AndroidLinux.Lib.Serial
import AndroidLinux.Tz.ZoneText

/-!
# Zone files

`tzload_uncached` of `tztime.c`, from the bytes that it has read.  With a `time_t` of 32 bits it
uses the first part of a file only.  A part is accepted if it is the encoding of a table, and what
is loaded is the table up to the first transition that is earlier than the one in front of it,
where the last two are not compared.
-/

namespace AndroidLinux
namespace Tz

open Lib
open Time (toS32)

/-- `TZ_MAX_TYPES`. -/
def tzMaxTypes : Nat := 256

/-- `TZ_MAX_CHARS`. -/
def tzMaxChars : Nat := 50

/-- `TZ_MAX_LEAPS`. -/
def tzMaxLeaps : Nat := 50

def detzcode (codep : List UInt8) : Int :=
  (codep.take 4).foldl (fun result c => toS32 (result * 256 + c.toNat))
    (if 128 ≤ (codep.headD 0).toNat then -1 else 0)

/-- `struct tzhead`, with the counts decoded. -/
structure TzHead where
  version : UInt8
  ttisgmtcnt : Int
  ttisstdcnt : Int
  leapcnt : Int
  timecnt : Int
  typecnt : Int
  charcnt : Int

def readHead (buf : List UInt8) : TzHead where
  version := buf.getD 4 0
  ttisgmtcnt := detzcode (buf.drop 20)
  ttisstdcnt := detzcode (buf.drop 24)
  leapcnt := detzcode (buf.drop 28)
  timecnt := detzcode (buf.drop 32)
  typecnt := detzcode (buf.drop 36)
  charcnt := detzcode (buf.drop 40)

/-- The counts are within the limits. -/
def TzHead.Fits (h : TzHead) : Prop :=
  (0 ≤ h.leapcnt ∧ h.leapcnt ≤ tzMaxLeaps) ∧ (0 < h.typecnt ∧ h.typecnt ≤ tzMaxTypes) ∧
    (0 ≤ h.timecnt ∧ h.timecnt ≤ tzMaxTimes) ∧ (0 ≤ h.charcnt ∧ h.charcnt ≤ tzMaxChars) ∧
    (h.ttisstdcnt = h.typecnt ∨ h.ttisstdcnt = 0) ∧ (h.ttisgmtcnt = h.typecnt ∨ h.ttisgmtcnt = 0)

instance (h : TzHead) : Decidable h.Fits :=
  inferInstanceAs (Decidable (_ ∧ _))

/-- The bytes behind the header. -/
def TzHead.size (h : TzHead) : Int :=
  h.timecnt * 4 + h.timecnt + h.typecnt * 6 + h.charcnt + h.leapcnt * (4 + 4) + h.ttisstdcnt +
    h.ttisgmtcnt

/-! ## The loops over the words -/

def readAt (p : List UInt8) : Option (Int × List UInt8) := some (detzcode p, p.drop 4)

def readType (typecnt : Nat) (p : List UInt8) : Option (Nat × List UInt8) :=
  if typecnt ≤ (p.headD 0).toNat then none else some ((p.headD 0).toNat, p.drop 1)

/-- A type with the index of its abbreviation. -/
def readInfo (charcnt : Nat) (p : List UInt8) : Option ((TtInfo × Nat) × List UInt8) :=
  let gmtoff := detzcode p
  let isdst := ((p.drop 4).headD 0).toNat
  let abbrind := ((p.drop 5).headD 0).toNat
  if isdst ≠ 0 ∧ isdst ≠ 1 then none
  else if charcnt < abbrind then none
  else some ((⟨gmtoff, isdst⟩, abbrind), p.drop 6)

def readLeap (p : List UInt8) : Option (LsInfo × List UInt8) :=
  some (⟨detzcode p, detzcode (p.drop 4)⟩, p.drop 8)

def readFlag (p : List UInt8) : Option (Bool × List UInt8) :=
  let flag := (p.headD 0).toNat
  if flag ≠ 1 ∧ flag ≠ 0 then none else some (decide (flag = 1), p.drop 1)

/-- The flags of the types; they are not set if they are left out. -/
def readFlags (count : Int) (typecnt : Nat) (p : List UInt8) : Option (List Bool × List UInt8) :=
  if count = 0 then some (List.replicate typecnt false, p) else readMany readFlag typecnt p

/-- The transitions up to the first that is later than the next one; the last two are not
compared. -/
def sortedPart : List (Int × Nat) → List (Int × Nat)
  | first :: second :: third :: rest =>
      if second.1 < first.1 then [first] else first :: sortedPart (second :: third :: rest)
  | l => l

/-- What has been loaded. -/
structure Loaded where
  state : State
  chars : List UInt8
  abbrinds : List Nat
  ttisstd : List Bool
  ttisgmt : List Bool

/-- The pass over the first part of a file, and the bytes that are in the buffer behind it. -/
def tzloadPart (buf : List UInt8) (lsisBefore : Int) : Option (Loaded × List UInt8) :=
  let h := readHead buf
  if h.Fits then
    if (buf.length : Int) - 44 < h.size then none
    else do
      let (ats, p) ← readMany readAt h.timecnt.toNat (buf.drop 44)
      let (types, p) ← readMany (readType h.typecnt.toNat) h.timecnt.toNat p
      let (infos, p) ← readMany (readInfo h.charcnt.toNat) h.typecnt.toNat p
      let chars := p.take h.charcnt.toNat
      let (lsis, p) ← readMany readLeap h.leapcnt.toNat (p.drop h.charcnt.toNat)
      let (ttisstd, p) ← readFlags h.ttisstdcnt h.typecnt.toNat p
      let (ttisgmt, p) ← readFlags h.ttisgmtcnt h.typecnt.toNat p
      let transitions := sortedPart (ats.zip types)
      let ttis := infos.map Prod.fst
      -- the types have been checked when they were read
      if hstate : (∀ p ∈ transitions, p.2 < ttis.length) ∧ ttis ≠ [] then
        some (⟨⟨transitions, ttis, lsis, lsisBefore, hstate.1, hstate.2⟩, chars,
          infos.map Prod.snd, ttisstd, ttisgmt⟩, if h.version = 0 then buf else p)
      else none
  else none

/-! ## Codes -/

/-- The bytes of a code. -/
def entzcode (n : Int) : List UInt8 :=
  [UInt8.ofNat (n / 2 ^ 24 % 256).toNat, UInt8.ofNat (n / 2 ^ 16 % 256).toNat,
    UInt8.ofNat (n / 2 ^ 8 % 256).toNat, UInt8.ofNat (n % 256).toNat]

/-- A number that fits in a code. -/
def Fits32 (n : Int) : Prop := -2 ^ 31 ≤ n ∧ n < 2 ^ 31

theorem detzcode_cons (b₀ b₁ b₂ b₃ : UInt8) (rest : List UInt8) :
    detzcode (b₀ :: b₁ :: b₂ :: b₃ :: rest) =
      (b₀.toNat : Int) * 2 ^ 24 + b₁.toNat * 2 ^ 16 + b₂.toNat * 2 ^ 8 + b₃.toNat -
        if 128 ≤ b₀.toNat then 2 ^ 32 else 0 := by
  have h₀ := b₀.toNat_lt
  have h₁ := b₁.toNat_lt
  have h₂ := b₂.toNat_lt
  have h₃ := b₃.toNat_lt
  obtain ⟨r, hr⟩ : ∃ r : Int, (if 128 ≤ b₀.toNat then -1 else 0) = r := ⟨_, rfl⟩
  have hfold : detzcode (b₀ :: b₁ :: b₂ :: b₃ :: rest) =
      toS32 (toS32 (toS32 (toS32 ((if 128 ≤ b₀.toNat then -1 else 0) * 256 + b₀.toNat) * 256 +
        b₁.toNat) * 256 + b₂.toNat) * 256 + b₃.toNat) := rfl
  -- the sign is in the first byte, and nothing wraps around behind it
  have hfirst : -2 ^ 7 ≤ r * 256 + b₀.toNat ∧ r * 256 + b₀.toNat < 2 ^ 7 := by
    split at hr <;> omega
  rw [hfold, hr, Time.toS32_eq_self (show -2 ^ 31 ≤ r * 256 + (b₀.toNat : Int) by omega) (by omega),
    Time.toS32_eq_self (show -2 ^ 31 ≤ (r * 256 + b₀.toNat) * 256 + (b₁.toNat : Int) by omega)
      (by omega),
    Time.toS32_eq_self (show -2 ^ 31 ≤ ((r * 256 + b₀.toNat) * 256 + b₁.toNat) * 256 +
      (b₂.toNat : Int) by omega) (by omega), Time.toS32_eq_self (by omega) (by omega)]
  split at hr <;> split <;> omega

theorem toNat_ofNat_emod (n : Int) : ((UInt8.ofNat (n % 256).toNat).toNat : Int) = n % 256 := by
  rw [UInt8.toNat_ofNat']
  omega

theorem detzcode_entzcode {n : Int} (h : Fits32 n) (rest : List UInt8) :
    detzcode (entzcode n ++ rest) = n := by
  unfold Fits32 at h
  have h₀ := toNat_ofNat_emod (n / 2 ^ 24)
  have h₁ := toNat_ofNat_emod (n / 2 ^ 16)
  have h₂ := toNat_ofNat_emod (n / 2 ^ 8)
  have h₃ := toNat_ofNat_emod n
  unfold entzcode
  simp only [List.cons_append, List.nil_append]
  rw [detzcode_cons, h₀, h₁, h₂, h₃]
  split <;> omega

theorem detzcode_sound {s : List UInt8} (h : 4 ≤ s.length) :
    Fits32 (detzcode s) ∧ s = entzcode (detzcode s) ++ s.drop 4 := by
  obtain ⟨b₀, b₁, b₂, b₃, rest, rfl⟩ : ∃ b₀ b₁ b₂ b₃ rest, s = b₀ :: b₁ :: b₂ :: b₃ :: rest := by
    rcases s with _ | ⟨b₀, _ | ⟨b₁, _ | ⟨b₂, _ | ⟨b₃, rest⟩⟩⟩⟩
    · simp at h
    · simp at h
    · simp at h
    · simp at h
    · exact ⟨b₀, b₁, b₂, b₃, rest, rfl⟩
  have h₀ := b₀.toNat_lt
  have h₁ := b₁.toNat_lt
  have h₂ := b₂.toNat_lt
  have h₃ := b₃.toNat_lt
  have hvalue := detzcode_cons b₀ b₁ b₂ b₃ rest
  obtain ⟨n, hn⟩ : ∃ n, detzcode (b₀ :: b₁ :: b₂ :: b₃ :: rest) = n := ⟨_, rfl⟩
  rw [hn] at hvalue ⊢
  have hbyte {b : UInt8} {k : Int} (hk : (b.toNat : Int) = k % 256) :
      UInt8.ofNat (k % 256).toNat = b := by
    refine UInt8.toNat_inj.mp ?_
    have hround := toNat_ofNat_emod k
    omega
  refine ⟨?_, ?_⟩
  · unfold Fits32
    split at hvalue <;> omega
  · unfold entzcode
    rw [hbyte (b := b₀) (k := n / 2 ^ 24) (by split at hvalue <;> omega),
      hbyte (b := b₁) (k := n / 2 ^ 16) (by split at hvalue <;> omega),
      hbyte (b := b₂) (k := n / 2 ^ 8) (by split at hvalue <;> omega),
      hbyte (b := b₃) (k := n) (by split at hvalue <;> omega)]
    rfl

theorem entzcode_length (n : Int) : (entzcode n).length = 4 := rfl

theorem entzcode_drop (n : Int) (rest : List UInt8) : (entzcode n ++ rest).drop 4 = rest := rfl

theorem exists_cons {s : List UInt8} (h : 1 ≤ s.length) : ∃ b rest, s = b :: rest :=
  List.exists_cons_of_length_pos h

def codeSerial : Serial UInt8 Int where
  read := readAt
  write := entzcode
  legal := Fits32
  width := 4
  write_length := entzcode_length
  read_write n rest h := by rw [readAt, detzcode_entzcode h, entzcode_drop]
  read_sound s n rest hlen h := by
    obtain ⟨rfl, rfl⟩ := Prod.mk.inj (Option.some.inj h)
    exact detzcode_sound hlen

def typeSerial (typecnt : Nat) : Serial UInt8 Nat where
  read := readType typecnt
  write type := [UInt8.ofNat type]
  legal type := type < typecnt ∧ type < 256
  width := 1
  write_length _ := rfl
  read_write type rest h := by
    unfold readType
    rw [List.singleton_append, List.headD_cons, UInt8.toNat_ofNat', Nat.mod_eq_of_lt h.2,
      if_neg (Nat.not_le.mpr h.1)]
    rfl
  read_sound s type rest hlen h := by
    obtain ⟨b, s, rfl⟩ := exists_cons hlen
    unfold readType at h
    split at h
    · cases h
    next hlt =>
      obtain ⟨rfl, rfl⟩ := Prod.mk.inj (Option.some.inj h)
      exact ⟨⟨Nat.not_le.mp hlt, b.toNat_lt⟩, by rw [List.headD_cons, UInt8.ofNat_toNat]; rfl⟩

/-- A type that is no more than a flag for daylight saving time and an abbreviation. -/
def infoSerial (charcnt : Nat) : Serial UInt8 (TtInfo × Nat) where
  read := readInfo charcnt
  write i := entzcode i.1.gmtoff ++ [UInt8.ofNat i.1.isdst.toNat, UInt8.ofNat i.2]
  legal i := Fits32 i.1.gmtoff ∧ (i.1.isdst = 0 ∨ i.1.isdst = 1) ∧ i.2 ≤ charcnt ∧ i.2 < 256
  width := 6
  write_length _ := rfl
  read_write i rest h := by
    obtain ⟨⟨gmtoff, isdst⟩, abbrind⟩ := i
    obtain ⟨hcode, hisdst, hle, hlt⟩ := h
    dsimp only at hcode hisdst hle hlt
    have hdst : (UInt8.ofNat isdst.toNat).toNat = isdst.toNat := by
      rw [UInt8.toNat_ofNat']
      omega
    have habb : (UInt8.ofNat abbrind).toNat = abbrind := by
      rw [UInt8.toNat_ofNat', Nat.mod_eq_of_lt hlt]
    have hread (p : List UInt8) : readInfo charcnt (entzcode gmtoff ++
        UInt8.ofNat isdst.toNat :: UInt8.ofNat abbrind :: p) =
          if (UInt8.ofNat isdst.toNat).toNat ≠ 0 ∧ (UInt8.ofNat isdst.toNat).toNat ≠ 1 then none
          else if charcnt < (UInt8.ofNat abbrind).toNat then none
          else some ((⟨detzcode (entzcode gmtoff ++
            UInt8.ofNat isdst.toNat :: UInt8.ofNat abbrind :: p),
              (UInt8.ofNat isdst.toNat).toNat⟩, (UInt8.ofNat abbrind).toNat), p) := rfl
    rw [List.append_assoc, List.cons_append, List.singleton_append, hread, hdst, habb,
      if_neg (by omega), if_neg (by omega), detzcode_entzcode hcode, Int.toNat_of_nonneg (by omega)]
  read_sound s i rest hlen h := by
    obtain ⟨hcode, hs⟩ := detzcode_sound (s := s) (by omega)
    obtain ⟨b, c, p, hdrop⟩ : ∃ b c p, s.drop 4 = b :: c :: p := by
      obtain ⟨b, p, hb⟩ := exists_cons (s := s.drop 4) (by rw [List.length_drop]; omega)
      obtain ⟨c, q, hc⟩ := exists_cons (s := p) (by
        have hlen' := congrArg List.length hb
        rw [List.length_drop, List.length_cons] at hlen'
        omega)
      exact ⟨b, c, q, by rw [hb, hc]⟩
    have hdrop₅ : s.drop 5 = c :: p := by
      rw [show 5 = 4 + 1 from rfl, ← List.drop_drop, hdrop]
      rfl
    have hdrop₆ : s.drop 6 = p := by
      rw [show 6 = 4 + 2 from rfl, ← List.drop_drop, hdrop]
      rfl
    unfold readInfo at h
    rw [hdrop, hdrop₅, hdrop₆] at h
    dsimp only [List.headD_cons] at h
    split at h
    · cases h
    next hisdst =>
      split at h
      · cases h
      next habb =>
        obtain ⟨rfl, rfl⟩ := Prod.mk.inj (Option.some.inj h)
        refine ⟨⟨hcode, by dsimp only; omega, Nat.not_lt.mp habb, c.toNat_lt⟩, ?_⟩
        dsimp only
        rw [Int.toNat_natCast, UInt8.ofNat_toNat, UInt8.ofNat_toNat, List.append_assoc]
        exact hs.trans (by rw [hdrop]; rfl)

def leapSerial : Serial UInt8 LsInfo where
  read := readLeap
  write l := entzcode l.trans ++ entzcode l.corr
  legal l := Fits32 l.trans ∧ Fits32 l.corr
  width := 8
  write_length _ := rfl
  read_write l rest h := by
    rw [readLeap, List.append_assoc, detzcode_entzcode h.1, entzcode_drop, detzcode_entzcode h.2]
    rfl
  read_sound s l rest hlen h := by
    obtain ⟨rfl, rfl⟩ := Prod.mk.inj (Option.some.inj h)
    obtain ⟨htrans, hs⟩ := detzcode_sound (s := s) (by omega)
    obtain ⟨hcorr, hs'⟩ := detzcode_sound (s := s.drop 4) (by rw [List.length_drop]; omega)
    rw [List.drop_drop] at hs'
    exact ⟨⟨htrans, hcorr⟩, by rw [List.append_assoc, ← hs', ← hs]⟩

def flagSerial : Serial UInt8 Bool where
  read := readFlag
  write flag := [if flag then 1 else 0]
  legal _ := True
  width := 1
  write_length _ := rfl
  read_write flag rest _ := by cases flag <;> rfl
  read_sound s flag rest hlen h := by
    obtain ⟨b, s, rfl⟩ := exists_cons hlen
    unfold readFlag at h
    dsimp only [List.headD_cons] at h
    split at h
    · cases h
    next hflag =>
      obtain ⟨rfl, rfl⟩ := Prod.mk.inj (Option.some.inj h)
      refine ⟨trivial, ?_⟩
      by_cases hone : b.toNat = 1
      · have hb : b = 1 := UInt8.toNat_inj.mp hone
        rw [hb]
        rfl
      · have hb : b = 0 := UInt8.toNat_inj.mp (show b.toNat = 0 by omega)
        rw [hb]
        rfl

end Tz
end AndroidLinux
