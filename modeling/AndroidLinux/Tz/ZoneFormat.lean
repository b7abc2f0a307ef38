import AndroidLinux.Tz.ZoneFile

/-!
# The format of zone files

A `ZoneFile` is what the first part of a file says, and `tzloadPart` accepts the encodings of
those that are well formed: `tzloadPart_iff`.
-/

namespace AndroidLinux
namespace Tz

open Lib

structure ZoneFile where
  magic : List UInt8
  version : UInt8
  reserved : List UInt8
  transitions : List (Int × Nat)
  infos : List (TtInfo × Nat)
  chars : List UInt8
  lsis : List LsInfo
  ttisstd : List Bool
  ttisgmt : List Bool

namespace ZoneFile

structure WellFormed (f : ZoneFile) : Prop where
  magic : f.magic.length = 4
  reserved : f.reserved.length = 15
  timecnt : f.transitions.length ≤ tzMaxTimes
  typecnt : 0 < f.infos.length ∧ f.infos.length ≤ tzMaxTypes
  charcnt : f.chars.length ≤ tzMaxChars
  leapcnt : f.lsis.length ≤ tzMaxLeaps
  ttisstd : f.ttisstd.length = f.infos.length ∨ f.ttisstd.length = 0
  ttisgmt : f.ttisgmt.length = f.infos.length ∨ f.ttisgmt.length = 0
  ats : ∀ p ∈ f.transitions, Fits32 p.1
  types : ∀ p ∈ f.transitions, p.2 < f.infos.length
  infos : ∀ i ∈ f.infos, Fits32 i.1.gmtoff ∧ (i.1.isdst = 0 ∨ i.1.isdst = 1) ∧
    i.2 ≤ f.chars.length
  lsis : ∀ l ∈ f.lsis, Fits32 l.trans ∧ Fits32 l.corr

def head (f : ZoneFile) : TzHead where
  version := f.version
  ttisgmtcnt := f.ttisgmt.length
  ttisstdcnt := f.ttisstd.length
  leapcnt := f.lsis.length
  timecnt := f.transitions.length
  typecnt := f.infos.length
  charcnt := f.chars.length

end ZoneFile

/-- The six counts of a header. -/
def TzHead.codes (h : TzHead) : List UInt8 :=
  entzcode h.ttisgmtcnt ++ (entzcode h.ttisstdcnt ++ (entzcode h.leapcnt ++
    (entzcode h.timecnt ++ (entzcode h.typecnt ++ entzcode h.charcnt))))

namespace ZoneFile

def body (f : ZoneFile) : List UInt8 :=
  codeSerial.writeMany (f.transitions.map Prod.fst) ++
    ((typeSerial f.infos.length).writeMany (f.transitions.map Prod.snd) ++
      ((infoSerial f.chars.length).writeMany f.infos ++ (f.chars ++
        (leapSerial.writeMany f.lsis ++
          (flagSerial.writeMany f.ttisstd ++ flagSerial.writeMany f.ttisgmt)))))

def encode (f : ZoneFile) : List UInt8 :=
  f.magic ++ f.version :: (f.reserved ++ (f.head.codes ++ f.body))

end ZoneFile

/-- The flags that a list of flags stands for. -/
def spread (flags : List Bool) (typecnt : Nat) : List Bool :=
  if flags = [] then List.replicate typecnt false else flags

theorem sortedPart_subset (l : List (Int × Nat)) : sortedPart l ⊆ l := by
  fun_induction sortedPart l with
  | case1 first second third rest hlt => exact List.cons_subset_cons _ (List.nil_subset _)
  | case2 first second third rest hnot ih => exact List.cons_subset_cons _ ih
  | case3 l h => exact List.Subset.refl l

/-- What `tzload` makes of a file. -/
def ZoneFile.loaded (f : ZoneFile) (h : f.WellFormed) (lsisBefore : Int) : Loaded where
  state :=
    { transitions := sortedPart f.transitions
      ttis := f.infos.map Prod.fst
      lsis := f.lsis
      lsisBefore := lsisBefore
      typed := fun p hp => by
        rw [List.length_map]
        exact h.types p (sortedPart_subset _ hp)
      nonempty := fun hnil => by
        rw [List.map_eq_nil_iff] at hnil
        exact absurd h.typecnt.1 (by rw [hnil]; exact Nat.lt_irrefl 0) }
  chars := f.chars
  abbrinds := f.infos.map Prod.snd
  ttisstd := spread f.ttisstd f.infos.length
  ttisgmt := spread f.ttisgmt f.infos.length

/-! ## The header -/

theorem fits32_natCast {n : Nat} (h : n ≤ 1200) : Fits32 n := by
  unfold Fits32
  omega

/-- The header of six codes that fit. -/
theorem readHead_codes {magic reserved rest : List UInt8} {h : TzHead}
    (hmagic : magic.length = 4) (hreserved : reserved.length = 15) (h₁ : Fits32 h.ttisgmtcnt)
    (h₂ : Fits32 h.ttisstdcnt) (h₃ : Fits32 h.leapcnt) (h₄ : Fits32 h.timecnt)
    (h₅ : Fits32 h.typecnt) (h₆ : Fits32 h.charcnt) :
    readHead (magic ++ h.version :: (reserved ++ (h.codes ++ rest))) = h ∧
      (magic ++ h.version :: (reserved ++ (h.codes ++ rest))).drop 44 = rest := by
  obtain ⟨buf, hbuf⟩ : ∃ buf, magic ++ h.version :: (reserved ++ (h.codes ++ rest)) = buf :=
    ⟨_, rfl⟩
  have hversion : buf.getD 4 0 = h.version := by
    rw [← hbuf, List.getD_eq_getElem?_getD, List.getElem?_append_right (by omega), hmagic]
    rfl
  have hfirst : buf.drop 4 = h.version :: (reserved ++ (h.codes ++ rest)) := by
    rw [← hbuf, List.drop_left' hmagic]
  have hdrop (k : Nat) : buf.drop (20 + k) = (h.codes ++ rest).drop k := by
    rw [show 20 + k = 4 + (1 + (15 + k)) by omega, ← List.drop_drop, hfirst, ← List.drop_drop,
      List.drop_succ_cons, List.drop_zero, ← List.drop_drop, List.drop_left' hreserved]
  unfold TzHead.codes at hdrop
  simp only [List.append_assoc] at hdrop
  rw [hbuf]
  have hsix : buf.drop 44 = rest := hdrop 24
  refine ⟨?_, hsix⟩
  unfold readHead
  rw [hversion, show buf.drop 20 = _ from hdrop 0, show buf.drop 24 = _ from hdrop 4,
    show buf.drop 28 = _ from hdrop 8, show buf.drop 32 = _ from hdrop 12,
    show buf.drop 36 = _ from hdrop 16, show buf.drop 40 = _ from hdrop 20]
  obtain ⟨version, c₁, c₂, c₃, c₄, c₅, c₆⟩ := h
  congr 1
  · exact detzcode_entzcode h₁ _
  · exact detzcode_entzcode h₂ _
  · exact detzcode_entzcode h₃ _
  · exact detzcode_entzcode h₄ _
  · exact detzcode_entzcode h₅ _
  · exact detzcode_entzcode h₆ _

/-- A buffer with a whole header begins with its bytes. -/
theorem readHead_sound {buf : List UInt8} (hlen : 44 ≤ buf.length) :
    ∃ magic reserved, magic.length = 4 ∧ reserved.length = 15 ∧
      buf = magic ++ (readHead buf).version ::
        (reserved ++ ((readHead buf).codes ++ buf.drop 44)) := by
  have hcode (k : Nat) (hk : k + 4 ≤ 44) :
      buf.drop k = entzcode (detzcode (buf.drop k)) ++ buf.drop (k + 4) := by
    have hs := (detzcode_sound (s := buf.drop k) (by rw [List.length_drop]; omega)).2
    rwa [List.drop_drop] at hs
  have hcodes : buf.drop 20 = (readHead buf).codes ++ buf.drop 44 := by
    unfold TzHead.codes readHead
    simp only [List.append_assoc]
    rw [← hcode 40 (by omega), ← hcode 36 (by omega), ← hcode 32 (by omega), ← hcode 28 (by omega),
      ← hcode 24 (by omega), ← hcode 20 (by omega)]
  have hversion : buf.drop 4 = (readHead buf).version :: buf.drop 5 := by
    have hlt : 4 < buf.length := by omega
    unfold readHead
    rw [List.drop_eq_getElem_cons hlt, List.getD_eq_getElem?_getD,
      List.getElem?_eq_getElem hlt, Option.getD_some]
  refine ⟨buf.take 4, (buf.drop 5).take 15, ?_, ?_, ?_⟩
  · rw [List.length_take]
    omega
  · rw [List.length_take, List.length_drop]
    omega
  · rw [← hcodes, show 20 = 5 + 15 from rfl, ← List.drop_drop, List.take_append_drop, ← hversion,
      List.take_append_drop]

/-! ## The body -/

theorem readFlags_write {flags : List Bool} {typecnt : Nat} (htypecnt : 0 < typecnt)
    (hflags : flags.length = typecnt ∨ flags.length = 0) (rest : List UInt8) :
    readFlags (flags.length : Int) typecnt (flagSerial.writeMany flags ++ rest) =
      some (spread flags typecnt, rest) := by
  unfold readFlags spread
  rcases hflags with hlen | hlen
  · rw [if_neg (by omega), if_neg (List.ne_nil_of_length_pos (by omega)), ← hlen]
    exact flagSerial.readMany_write flags (fun _ _ => trivial) rest
  · rw [if_pos (by omega), if_pos (List.length_eq_zero_iff.mp hlen),
      List.length_eq_zero_iff.mp hlen]
    rfl

theorem readFlags_sound {count typecnt : Nat} {p rest : List UInt8} {flags : List Bool}
    (htypecnt : 0 < typecnt) (hcount : count = typecnt ∨ count = 0) (hlen : count ≤ p.length)
    (h : readFlags (count : Int) typecnt p = some (flags, rest)) :
    ∃ file : List Bool, file.length = count ∧ flags = spread file typecnt ∧
      p = flagSerial.writeMany file ++ rest := by
  unfold readFlags at h
  split at h
  next hzero =>
    obtain ⟨rfl, rfl⟩ := Prod.mk.inj (Option.some.inj h)
    exact ⟨[], by rw [List.length_nil]; omega, rfl, rfl⟩
  next hne =>
    obtain rfl : count = typecnt := by omega
    obtain ⟨hflags, -, hp⟩ := flagSerial.readMany_sound
      (show count * 1 ≤ p.length by omega) h
    refine ⟨flags, hflags, ?_, hp⟩
    rw [spread, if_neg (List.ne_nil_of_length_pos (by omega))]

namespace ZoneFile

variable {f : ZoneFile}

theorem WellFormed.fits (h : f.WellFormed) : f.head.Fits := by
  have htimecnt := h.timecnt
  have htypecnt := h.typecnt
  have hcharcnt := h.charcnt
  have hleapcnt := h.leapcnt
  have httisstd := h.ttisstd
  have httisgmt := h.ttisgmt
  unfold TzHead.Fits head
  dsimp only
  exact ⟨by omega, by omega, by omega, by omega, by omega, by omega⟩

theorem body_length (f : ZoneFile) : (f.body.length : Int) = f.head.size := by
  unfold body TzHead.size head
  simp only [List.length_append, Serial.writeMany_length, List.length_map]
  rw [show codeSerial.width = 4 from rfl, show (typeSerial f.infos.length).width = 1 from rfl,
    show (infoSerial f.chars.length).width = 6 from rfl, show leapSerial.width = 8 from rfl,
    show flagSerial.width = 1 from rfl]
  push_cast
  ring

theorem WellFormed.encode_length (h : f.WellFormed) :
    f.encode.length = 44 + f.body.length := by
  unfold encode
  rw [List.length_append, List.length_cons, List.length_append, List.length_append, h.magic,
    h.reserved, show f.head.codes.length = 24 from rfl]
  omega

theorem WellFormed.tzloadPart (h : f.WellFormed) (lsisBefore : Int) (tail : List UInt8) :
    tzloadPart (f.encode ++ tail) lsisBefore =
      some (f.loaded h lsisBefore, if f.version = 0 then f.encode ++ tail else tail) := by
  have htimecnt := h.timecnt
  have htypecnt := h.typecnt
  have hcharcnt := h.charcnt
  have hleapcnt := h.leapcnt
  have httisstd := h.ttisstd
  have httisgmt := h.ttisgmt
  unfold tzMaxTimes at htimecnt
  unfold tzMaxTypes at htypecnt
  unfold tzMaxChars at hcharcnt
  unfold tzMaxLeaps at hleapcnt
  obtain ⟨hhead, hdrop⟩ := @readHead_codes f.magic f.reserved (f.body ++ tail) f.head h.magic
    h.reserved (fits32_natCast (by omega)) (fits32_natCast (by omega)) (fits32_natCast (by omega))
    (fits32_natCast (by omega)) (fits32_natCast (by omega)) (fits32_natCast (by omega))
  have hencode : f.encode ++ tail =
      f.magic ++ f.head.version :: (f.reserved ++ (f.head.codes ++ (f.body ++ tail))) := by
    unfold encode
    simp only [List.append_assoc, List.cons_append]
    rfl
  rw [← hencode] at hhead hdrop
  have hlen : ¬ ((f.encode ++ tail).length : Int) - 44 < f.head.size := by
    have hsize := f.body_length
    have hlen' := h.encode_length
    rw [List.length_append]
    omega
  have hats (rest : List UInt8) : readMany readAt f.transitions.length
      (codeSerial.writeMany (f.transitions.map Prod.fst) ++ rest) =
        some (f.transitions.map Prod.fst, rest) := by
    have hread := codeSerial.readMany_write (f.transitions.map Prod.fst)
      (List.forall_mem_map.mpr h.ats) rest
    rwa [List.length_map] at hread
  have htypes (rest : List UInt8) : readMany (readType f.infos.length) f.transitions.length
      ((typeSerial f.infos.length).writeMany (f.transitions.map Prod.snd) ++ rest) =
        some (f.transitions.map Prod.snd, rest) := by
    have hread := (typeSerial f.infos.length).readMany_write (f.transitions.map Prod.snd)
      (List.forall_mem_map.mpr fun p hp => ⟨h.types p hp, by have := h.types p hp; omega⟩) rest
    rwa [List.length_map] at hread
  have hinfos (rest : List UInt8) : readMany (readInfo f.chars.length) f.infos.length
      ((infoSerial f.chars.length).writeMany f.infos ++ rest) = some (f.infos, rest) := by
    refine (infoSerial f.chars.length).readMany_write f.infos (fun i hi => ?_) rest
    have hinfo := h.infos i hi
    exact ⟨hinfo.1, hinfo.2.1, hinfo.2.2, by omega⟩
  have hlsis (rest : List UInt8) : readMany readLeap f.lsis.length
      (leapSerial.writeMany f.lsis ++ rest) = some (f.lsis, rest) :=
    leapSerial.readMany_write f.lsis h.lsis rest
  have hstate : (∀ p ∈ sortedPart f.transitions, p.2 < (f.infos.map Prod.fst).length) ∧
      f.infos.map Prod.fst ≠ [] :=
    ⟨(f.loaded h lsisBefore).state.typed, (f.loaded h lsisBefore).state.nonempty⟩
  unfold Tz.tzloadPart
  dsimp only
  rw [hhead, if_pos h.fits, if_neg hlen, hdrop]
  unfold body head
  simp only [List.append_assoc, Int.toNat_natCast, Option.bind_eq_bind, hats, htypes, hinfos,
    Option.bind_some, List.take_left', List.drop_left', hlsis,
    readFlags_write htypecnt.1 httisstd, readFlags_write htypecnt.1 httisgmt, List.zip_map',
    List.map_id']
  rw [dif_pos hstate]
  rfl

section Parts

variable {magic reserved chars : List UInt8} {version : UInt8} {ats : List Int}
  {types : List Nat} {infos : List (TtInfo × Nat)} {lsis : List LsInfo}
  {stdflags gmtflags : List Bool}

theorem wellFormed_of_parts (hmagic : magic.length = 4) (hreserved : reserved.length = 15)
    (hzip : ats.length = types.length) (htime : ats.length ≤ tzMaxTimes)
    (htype : 0 < infos.length ∧ infos.length ≤ tzMaxTypes) (hchar : chars.length ≤ tzMaxChars)
    (hleap : lsis.length ≤ tzMaxLeaps)
    (hstd : stdflags.length = infos.length ∨ stdflags.length = 0)
    (hgmt : gmtflags.length = infos.length ∨ gmtflags.length = 0)
    (hats : ∀ a ∈ ats, codeSerial.legal a)
    (htypes : ∀ t ∈ types, (typeSerial infos.length).legal t)
    (hinfos : ∀ i ∈ infos, (infoSerial chars.length).legal i)
    (hlsis : ∀ l ∈ lsis, leapSerial.legal l) :
    WellFormed ⟨magic, version, reserved, ats.zip types, infos, chars, lsis, stdflags,
      gmtflags⟩ where
  magic := hmagic
  reserved := hreserved
  timecnt := by
    rw [List.length_zip, ← hzip, Nat.min_self]
    exact htime
  typecnt := htype
  charcnt := hchar
  leapcnt := hleap
  ttisstd := hstd
  ttisgmt := hgmt
  ats := fun _ hp => hats _ (List.of_mem_zip hp).1
  types := fun _ hp => (htypes _ (List.of_mem_zip hp).2).1
  infos := fun i hi => ⟨(hinfos i hi).1, (hinfos i hi).2.1, (hinfos i hi).2.2.1⟩
  lsis := hlsis

/-- The header and the parts that have been read are the encoding of the file. -/
theorem encode_of_parts {hd : TzHead} (hzip : ats.length = types.length)
    (htime : hd.timecnt = ats.length) (htype : hd.typecnt = infos.length)
    (hchar : hd.charcnt = chars.length) (hleap : hd.leapcnt = lsis.length)
    (hstd : hd.ttisstdcnt = stdflags.length) (hgmt : hd.ttisgmtcnt = gmtflags.length) :
    encode ⟨magic, hd.version, reserved, ats.zip types, infos, chars, lsis, stdflags, gmtflags⟩ =
      magic ++ hd.version :: (reserved ++ (hd.codes ++ (codeSerial.writeMany ats ++
        ((typeSerial infos.length).writeMany types ++
          ((infoSerial chars.length).writeMany infos ++ (chars ++ (leapSerial.writeMany lsis ++
            (flagSerial.writeMany stdflags ++ flagSerial.writeMany gmtflags)))))))) := by
  have hhead : head ⟨magic, hd.version, reserved, ats.zip types, infos, chars, lsis, stdflags,
      gmtflags⟩ = hd := by
    unfold head
    rw [List.length_zip, ← hzip, Nat.min_self, ← htime, ← htype, ← hchar, ← hleap, ← hstd, ← hgmt]
  unfold encode body
  rw [hhead]
  dsimp only
  rw [List.map_fst_zip hzip.le, List.map_snd_zip hzip.ge]

end Parts

/-- What `tzloadPart` accepts is the encoding of a well-formed file. -/
theorem exists_of_tzloadPart {buf rest : List UInt8} {lsisBefore : Int} {l : Loaded}
    (h : tzloadPart buf lsisBefore = some (l, rest)) :
    ∃ (f : ZoneFile) (hf : f.WellFormed) (tail : List UInt8), buf = f.encode ++ tail ∧
      l = f.loaded hf lsisBefore ∧ rest = if f.version = 0 then buf else tail := by
  unfold Tz.tzloadPart at h
  dsimp only at h
  split at h
  swap
  · cases h
  next hfits =>
  split at h
  · cases h
  next hsize =>
  obtain ⟨hleap, htype, htime, hchar, hstd, hgmt⟩ := hfits
  unfold TzHead.size at hsize
  obtain ⟨magic, reserved, hmagic, hreserved, hbuf⟩ :=
    readHead_sound (show 44 ≤ buf.length by omega)
  obtain ⟨leapcnt, hleapcnt⟩ := Int.eq_ofNat_of_zero_le hleap.1
  obtain ⟨typecnt, htypecnt⟩ := Int.eq_ofNat_of_zero_le htype.1.le
  obtain ⟨timecnt, htimecnt⟩ := Int.eq_ofNat_of_zero_le htime.1
  obtain ⟨charcnt, hcharcnt⟩ := Int.eq_ofNat_of_zero_le hchar.1
  obtain ⟨ttisstdcnt, httisstdcnt⟩ :=
    Int.eq_ofNat_of_zero_le (show 0 ≤ (readHead buf).ttisstdcnt by omega)
  obtain ⟨ttisgmtcnt, httisgmtcnt⟩ :=
    Int.eq_ofNat_of_zero_le (show 0 ≤ (readHead buf).ttisgmtcnt by omega)
  rw [hleapcnt] at hleap hsize h
  rw [htypecnt] at htype hstd hgmt hsize h
  rw [htimecnt] at htime hsize h
  rw [hcharcnt] at hchar hsize h
  rw [httisstdcnt] at hstd hsize h
  rw [httisgmtcnt] at hgmt hsize h
  simp only [Int.toNat_natCast] at h
  have hp₀ : (buf.drop 44).length = buf.length - 44 := List.length_drop
  -- each loop takes its words from what the ones in front of it have left
  obtain ⟨⟨ats, p₁⟩, hats, h₁⟩ := Option.bind_eq_some_iff.mp h
  have hlen₁ : timecnt * 4 ≤ (buf.drop 44).length := by omega
  have hp₁ := codeSerial.length_of_readMany hlen₁ hats
  rw [show codeSerial.width = 4 from rfl] at hp₁
  obtain ⟨rfl, hatslegal, heq₁⟩ := codeSerial.readMany_sound hlen₁ hats
  obtain ⟨⟨types, p₂⟩, htypes, h₂⟩ := Option.bind_eq_some_iff.mp h₁
  have hlen₂ : ats.length * 1 ≤ p₁.length := by omega
  have hp₂ := (typeSerial typecnt).length_of_readMany hlen₂ htypes
  rw [show (typeSerial typecnt).width = 1 from rfl] at hp₂
  obtain ⟨hzip, htypeslegal, heq₂⟩ := (typeSerial typecnt).readMany_sound hlen₂ htypes
  obtain ⟨⟨infos, p₃⟩, hinfos, h₃⟩ := Option.bind_eq_some_iff.mp h₂
  have hlen₃ : typecnt * 6 ≤ p₂.length := by omega
  have hp₃ := (infoSerial charcnt).length_of_readMany hlen₃ hinfos
  rw [show (infoSerial charcnt).width = 6 from rfl] at hp₃
  obtain ⟨rfl, hinfoslegal, heq₃⟩ := (infoSerial charcnt).readMany_sound hlen₃ hinfos
  obtain ⟨chars, p₄, rfl, rfl⟩ : ∃ chars p₄, p₃ = chars ++ p₄ ∧ chars.length = charcnt :=
    ⟨p₃.take charcnt, p₃.drop charcnt, (List.take_append_drop charcnt p₃).symm,
      List.length_take_of_le (by omega)⟩
  rw [List.length_append] at hp₃
  simp only [List.take_left, List.drop_left] at h₃
  obtain ⟨⟨lsis, p₅⟩, hlsis, h₅⟩ := Option.bind_eq_some_iff.mp h₃
  have hlen₅ : leapcnt * 8 ≤ p₄.length := by omega
  have hp₅ := leapSerial.length_of_readMany hlen₅ hlsis
  rw [show leapSerial.width = 8 from rfl] at hp₅
  obtain ⟨rfl, hlsislegal, heq₅⟩ := leapSerial.readMany_sound hlen₅ hlsis
  obtain ⟨⟨ttisstd, p₆⟩, hstdflags, h₆⟩ := Option.bind_eq_some_iff.mp h₅
  obtain ⟨stdflags, rfl, rfl, heq₆⟩ :=
    readFlags_sound (by omega) (by omega) (show ttisstdcnt ≤ p₅.length by omega) hstdflags
  have hp₆ := congrArg List.length heq₆
  rw [List.length_append, Serial.writeMany_length, show flagSerial.width = 1 from rfl] at hp₆
  obtain ⟨⟨ttisgmt, p₇⟩, hgmtflags, h₇⟩ := Option.bind_eq_some_iff.mp h₆
  obtain ⟨gmtflags, rfl, rfl, heq₇⟩ :=
    readFlags_sound (by omega) (by omega) (show ttisgmtcnt ≤ p₆.length by omega) hgmtflags
  dsimp only at h₇
  split at h₇
  swap
  · cases h₇
  next hstate =>
  obtain ⟨rfl, rfl⟩ := Prod.mk.inj (Option.some.inj h₇)
  refine ⟨_, wellFormed_of_parts hmagic hreserved hzip.symm (Int.ofNat_le.mp htime.2)
    ⟨Int.natCast_pos.mp htype.1, Int.ofNat_le.mp htype.2⟩ (Int.ofNat_le.mp hchar.2)
    (Int.ofNat_le.mp hleap.2) (by omega) (by omega) hatslegal htypeslegal hinfoslegal hlsislegal,
    p₇, ?_, rfl, rfl⟩
  rw [encode_of_parts hzip.symm htimecnt htypecnt hcharcnt hleapcnt httisstdcnt httisgmtcnt]
  simp only [List.append_assoc, List.cons_append]
  rw [← heq₇, ← heq₆, ← heq₅, ← heq₃, ← heq₂, ← heq₁]
  exact hbuf

/-- `tzloadPart` accepts the encodings of well-formed files, and nothing else. -/
theorem tzloadPart_iff (buf rest : List UInt8) (lsisBefore : Int) (l : Loaded) :
    tzloadPart buf lsisBefore = some (l, rest) ↔
      ∃ (f : ZoneFile) (hf : f.WellFormed) (tail : List UInt8), buf = f.encode ++ tail ∧
        l = f.loaded hf lsisBefore ∧ rest = if f.version = 0 then buf else tail := by
  refine ⟨exists_of_tzloadPart, ?_⟩
  rintro ⟨f, hf, tail, rfl, rfl, rfl⟩
  exact hf.tzloadPart lsisBefore tail

end ZoneFile

end Tz
end AndroidLinux
