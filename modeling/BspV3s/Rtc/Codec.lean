import BspV3s.Lib.Bits
import BspV3s.Lib.Calendar
import BspV3s.Rtc.Driver

/-!
# Codec — register words as dates and times

`Regs.Holds` says which time a pair of register words stands for.  What the driver encodes stands for
the time it was given, and `rtc_valid_tm` accepts the decoded fields exactly when the words stand for
some time.
-/

namespace BspV3s

namespace Rtc

open Calendar

/-! ## What the registers stand for -/

/-- The date and time-of-day registers. -/
@[ext]
structure Regs where
  ymd : U32
  hms : U32
  deriving DecidableEq, Repr

/-- The months of the register count from 1. -/
structure DateHeld (ymd : U32) (d : Date) : Prop where
  day : (dateGetDayValue ymd).toNat = d.day
  month : (dateGetMonValue ymd).toNat = d.month + 1
  year : 1970 + ((dateGetYearValue ymd).toNat : ℤ) = d.year

structure TimeHeld (hms : U32) (t : DateTime) : Prop where
  sec : (timeGetSecValue hms).toNat = t.sec
  min : (timeGetMinValue hms).toNat = t.min
  hour : (timeGetHourValue hms).toNat = t.hour

/-- The registers hold time `t`. -/
structure Regs.Holds (r : Regs) (t : DateTime) : Prop where
  valid : t.Valid
  date : DateHeld r.ymd t.date
  time : TimeHeld r.hms t

/-- The `struct tm` of a time. -/
def Tm.ofDateTime (t : DateTime) : Tm where
  sec := t.sec
  min := t.min
  hour := t.hour
  mday := t.date.day
  mon := t.date.month
  year := t.date.year - 1900

theorem Tm.ofDateTime_injective {t t' : DateTime} (h : Tm.ofDateTime t = Tm.ofDateTime t') :
    t = t' := by
  simp only [Tm.ofDateTime, Tm.mk.injEq] at h
  rcases h with ⟨hsec, hmin, hhour, hday, hmon, hyear⟩
  exact DateTime.ext (Date.ext (by omega) (by omega) (by omega)) (by omega) (by omega) (by omega)

/-- The years that the date register can hold. -/
def InYears (d : Date) : Prop :=
  1970 ≤ d.year ∧ d.year ≤ 2033

instance (d : Date) : Decidable (InYears d) :=
  inferInstanceAs (Decidable (_ ∧ _))

/-! ## The macros as fields -/

theorem dateGetDayValue_eq (x : U32) : dateGetDayValue x = getField x 0 5 := by
  rw [dateGetDayValue, getField, BitVec.ushiftRight_zero]
  rfl

theorem dateGetMonValue_eq (x : U32) : dateGetMonValue x = getField x 8 4 := rfl

theorem dateGetYearValue_eq (x : U32) : dateGetYearValue x = getField x 16 6 := rfl

theorem leapGetValue_eq (x : U32) : leapGetValue x = getField x 22 1 := rfl

theorem timeGetSecValue_eq (x : U32) : timeGetSecValue x = getField x 0 6 := by
  rw [timeGetSecValue, getField, BitVec.ushiftRight_zero]
  rfl

theorem timeGetMinValue_eq (x : U32) : timeGetMinValue x = getField x 8 6 := rfl

theorem timeGetHourValue_eq (x : U32) : timeGetHourValue x = getField x 16 5 := rfl

theorem dateSetDayValue_eq (x : U32) : dateSetDayValue x = setField x 0 5 := by
  rw [dateSetDayValue, setField, BitVec.shiftLeft_zero]
  rfl

theorem dateSetMonValue_eq (x : U32) : dateSetMonValue x = setField x 8 4 := rfl

theorem dateSetYearValue_eq (x : U32) : dateSetYearValue x = setField x 16 6 := rfl

theorem leapSetValue_eq (x : U32) : leapSetValue x = setField x 22 1 := rfl

theorem timeSetSecValue_eq (x : U32) : timeSetSecValue x = setField x 0 6 := by
  rw [timeSetSecValue, setField, BitVec.shiftLeft_zero]
  rfl

theorem timeSetMinValue_eq (x : U32) : timeSetMinValue x = setField x 8 6 := rfl

theorem timeSetHourValue_eq (x : U32) : timeSetHourValue x = setField x 16 5 := rfl

theorem DateHeld.inYears {ymd : U32} {d : Date} (h : DateHeld ymd d) : InYears d := by
  have hyear := h.year
  have hlt := getField_lt ymd (show 16 + 6 ≤ 32 by omega)
  rw [← dateGetYearValue_eq] at hlt
  unfold InYears
  omega

/-! ## Encoding -/

/-- A field that fits reads back as it was put in. -/
theorem getField_setField_ofInt {x : ℤ} {lo width : ℕ} (h : lo + width ≤ 32) (hpos : 0 ≤ x)
    (hlt : x < 2 ^ width) :
    (getField (setField (BitVec.ofInt 32 x) lo width) lo width).toNat = x.toNat := by
  have hpow : (2 : ℤ) ^ width ≤ 2 ^ 32 := by
    exact_mod_cast Nat.pow_le_pow_right (by omega : 0 < 2) (by omega : width ≤ 32)
  have hnat : x.toNat < 2 ^ width := by
    have hcast : ((2 ^ width : ℕ) : ℤ) = 2 ^ width := by norm_cast
    omega
  have hword : (BitVec.ofInt 32 x).toNat = x.toNat := by
    rw [BitVec.toNat_ofInt]
    congr 1
    exact Int.emod_eq_of_lt hpos (by push_cast; omega)
  rw [getField_setField_self _ h, hword, Nat.mod_eq_of_lt hnat]

theorem getField_encodeDate (tm : Tm) (year : ℤ) (lo width : ℕ) :
    getField (encodeDate tm year) lo width =
      getField (setField (BitVec.ofInt 32 tm.mday) 0 5) lo width |||
        getField (setField (BitVec.ofInt 32 tm.mon) 8 4) lo width |||
        getField (setField (BitVec.ofInt 32 tm.year) 16 6) lo width |||
        getField (setField (if isLeapYear (unsigned year) then 1 else 0) 22 1) lo width := by
  unfold encodeDate
  rw [dateSetDayValue_eq, dateSetMonValue_eq, dateSetYearValue_eq, leapSetValue_eq]
  split
  · simp only [getField_or]
  · have hzero : setField 0 22 1 = 0 := rfl
    simp only [getField_or, hzero]
    simp [getField]

/-- The fields of `sun6i_rtc_settime` after it has rebased them. -/
def Tm.rebase (tm : Tm) : Tm :=
  { tm with year := tm.year - YEAR_OFF, mon := tm.mon + 1 }

theorem isLeapYear_unsigned {y : ℤ} (hpos : 0 ≤ y) (hlt : y < 2 ^ 32) :
    isLeapYear (unsigned y) = isLeap y := by
  have hy : ((unsigned y : ℕ) : ℤ) = y := by
    unfold unsigned
    omega
  have h4 : unsigned y % 4 = 0 ↔ y % 4 = 0 := by omega
  have h100 : unsigned y % 100 = 0 ↔ y % 100 = 0 := by omega
  have h400 : unsigned y % 400 = 0 ↔ y % 400 = 0 := by omega
  unfold isLeapYear isLeap
  simp only [h4, h100, h400, ne_eq]

section Encode

variable {t : DateTime} (h : t.Valid) (hy : InYears t.date)
include h

theorem encodeTime_held : TimeHeld (encodeTime (Tm.ofDateTime t).rebase) t := by
  have hsec := h.sec
  have hmin := h.min
  have hhour := h.hour
  have hread : ∀ lo width, getField (encodeTime (Tm.ofDateTime t).rebase) lo width =
      getField (setField (BitVec.ofInt 32 t.sec) 0 6) lo width |||
        getField (setField (BitVec.ofInt 32 t.min) 8 6) lo width |||
        getField (setField (BitVec.ofInt 32 t.hour) 16 5) lo width := by
    intro lo width
    unfold encodeTime
    rw [timeSetSecValue_eq, timeSetMinValue_eq, timeSetHourValue_eq]
    simp only [getField_or, Tm.rebase, Tm.ofDateTime]
  refine ⟨?_, ?_, ?_⟩
  · rw [timeGetSecValue_eq, hread]
    simp (disch := omega) only [getField_setField_of_disjoint, BitVec.or_zero]
    rw [getField_setField_ofInt (by omega) (by omega) (by omega), Int.toNat_natCast]
  · rw [timeGetMinValue_eq, hread]
    simp (disch := omega) only [getField_setField_of_disjoint, BitVec.or_zero, BitVec.zero_or]
    rw [getField_setField_ofInt (by omega) (by omega) (by omega), Int.toNat_natCast]
  · rw [timeGetHourValue_eq, hread]
    simp (disch := omega) only [getField_setField_of_disjoint, BitVec.or_zero, BitVec.zero_or]
    rw [getField_setField_ofInt (by omega) (by omega) (by omega), Int.toNat_natCast]

include hy

theorem encodeDate_held :
    DateHeld (encodeDate (Tm.ofDateTime t).rebase t.date.year) t.date := by
  have hday := h.date.day_le_31
  have hmonth := h.date.month
  rcases hy with ⟨hmin, hmax⟩
  have hmday : (Tm.ofDateTime t).rebase.mday = t.date.day := rfl
  have hmon : (Tm.ofDateTime t).rebase.mon = t.date.month + 1 := rfl
  have hyear : (Tm.ofDateTime t).rebase.year = t.date.year - 1970 := by
    simp only [Tm.rebase, Tm.ofDateTime, YEAR_OFF, YEAR_MIN]
    omega
  refine ⟨?_, ?_, ?_⟩
  · rw [dateGetDayValue_eq, getField_encodeDate, hmday]
    simp (disch := omega) only [getField_setField_of_disjoint, BitVec.or_zero]
    rw [getField_setField_ofInt (by omega) (by omega) (by omega), Int.toNat_natCast]
  · rw [dateGetMonValue_eq, getField_encodeDate, hmon]
    simp (disch := omega) only [getField_setField_of_disjoint, BitVec.or_zero, BitVec.zero_or]
    rw [getField_setField_ofInt (by omega) (by omega) (by omega)]
    omega
  · rw [dateGetYearValue_eq, getField_encodeDate, hyear]
    simp (disch := omega) only [getField_setField_of_disjoint, BitVec.or_zero, BitVec.zero_or]
    rw [getField_setField_ofInt (by omega) (by omega) (by omega)]
    omega

omit h in
theorem leapGetValue_encodeDate :
    leapGetValue (encodeDate (Tm.ofDateTime t).rebase t.date.year) = 1 ↔
      isLeap t.date.year = true := by
  rcases hy with ⟨hmin, hmax⟩
  rw [leapGetValue_eq, getField_encodeDate, isLeapYear_unsigned (by omega) (by omega)]
  simp (disch := omega) only [getField_setField_of_disjoint, BitVec.zero_or]
  cases isLeap t.date.year <;> decide

end Encode

/-! ## Decoding -/

theorem rtcMonthDays_eq {month : ℕ} (h : month < 12) {y : ℤ} (hpos : 0 ≤ y) (hlt : y < 2 ^ 32) :
    rtcMonthDays month (unsigned y) = some (daysInMonth (isLeap y) month : ℤ) := by
  have hall : ∀ leap : Bool, ∀ m < 12,
      (rtcDaysInMonth[m]?.map fun days => days + if leap && m = 1 then 1 else 0) =
        some (daysInMonth leap m : ℤ) := by
    decide
  unfold rtcMonthDays
  rw [isLeapYear_unsigned hpos hlt]
  exact hall _ month h

theorem unsigned_lt_iff {x : ℤ} {n : ℕ} (hmin : -2 ^ 31 ≤ x) (hmax : x < 2 ^ 31)
    (hn : n ≤ 2 ^ 31) : unsigned x < n ↔ 0 ≤ x ∧ x < n := by
  unfold unsigned
  omega

/-- Every field is in the range of an `int`. -/
structure Tm.IsInt (tm : Tm) : Prop where
  sec : -2 ^ 31 ≤ tm.sec ∧ tm.sec < 2 ^ 31
  min : -2 ^ 31 ≤ tm.min ∧ tm.min < 2 ^ 31
  hour : -2 ^ 31 ≤ tm.hour ∧ tm.hour < 2 ^ 31
  mday : -2 ^ 31 ≤ tm.mday ∧ tm.mday < 2 ^ 31
  mon : -2 ^ 31 ≤ tm.mon ∧ tm.mon < 2 ^ 31
  year : -2 ^ 31 ≤ tm.year ∧ tm.year < 2 ^ 31

/-- The fields name a date and a time of day. -/
def Tm.IsTime (tm : Tm) : Prop :=
  ∃ t : DateTime, t.Valid ∧ tm = Tm.ofDateTime t

theorem Tm.isTime_iff {tm : Tm} :
    tm.IsTime ↔ (0 ≤ tm.mon ∧ tm.mon < 12) ∧
      (1 ≤ tm.mday ∧ tm.mday ≤ daysInMonth (isLeap (tm.year + 1900)) tm.mon.toNat) ∧
      (0 ≤ tm.hour ∧ tm.hour < 24) ∧ (0 ≤ tm.min ∧ tm.min < 60) ∧ (0 ≤ tm.sec ∧ tm.sec < 60) := by
  constructor
  · rintro ⟨t, h, rfl⟩
    have hmonth := h.date.month
    have hday := h.date.day_pos
    have hdays := h.date.day_le
    have hhour := h.hour
    have hmin := h.min
    have hsec := h.sec
    have hyear : t.date.year - 1900 + 1900 = t.date.year := by omega
    simp only [Tm.ofDateTime, hyear, Int.toNat_natCast]
    omega
  -- The time is read off the fields, none of which is negative.
  · rintro ⟨hmon, hmday, hhour, hmin, hsec⟩
    refine ⟨⟨⟨tm.year + 1900, tm.mon.toNat, tm.mday.toNat⟩, tm.hour.toNat, tm.min.toNat,
      tm.sec.toNat⟩, ⟨⟨?_, ?_, ?_⟩, ?_, ?_, ?_⟩, ?_⟩
    · simp only
      omega
    · simp only
      omega
    · simp only
      omega
    · simp only
      omega
    · simp only
      omega
    · simp only
      omega
    · simp only [Tm.ofDateTime]
      ext <;> simp only <;> omega

/-- `rtc_valid_tm` never reads outside its table, and accepts the times from 1970 on. -/
theorem rtcValidTm_spec {tm : Tm} (h : tm.IsInt) :
    ∃ ret, rtcValidTm tm = some ret ∧ (ret = 0 ↔ 70 ≤ tm.year ∧ tm.IsTime) := by
  have hmon := unsigned_lt_iff h.mon.1 h.mon.2 (show 12 ≤ 2 ^ 31 by omega)
  have hhour := unsigned_lt_iff h.hour.1 h.hour.2 (show 24 ≤ 2 ^ 31 by omega)
  have hmin := unsigned_lt_iff h.min.1 h.min.2 (show 60 ≤ 2 ^ 31 by omega)
  have hsec := unsigned_lt_iff h.sec.1 h.sec.2 (show 60 ≤ 2 ^ 31 by omega)
  have hrejected : -EINVAL ≠ 0 := by decide
  -- The comparisons are unsigned, so that one bound refuses negative values too.
  rw [Tm.isTime_iff]
  unfold rtcValidTm
  split
  · exact ⟨_, rfl, iff_of_false hrejected (by omega)⟩
  · next hyear =>
      split
      · exact ⟨_, rfl, iff_of_false hrejected (by omega)⟩
      · next hm =>
          split
          · exact ⟨_, rfl, iff_of_false hrejected (by omega)⟩
          · next hd =>
              have hlt : unsigned tm.mon < 12 := by omega
              have hcast : unsigned tm.mon = tm.mon.toNat := by
                unfold unsigned
                omega
              rw [rtcMonthDays_eq hlt (by omega) (by have := h.year.2; omega), hcast]
              simp only
              split
              · exact ⟨_, rfl, iff_of_false hrejected (by omega)⟩
              · split
                · exact ⟨_, rfl, iff_of_false hrejected (by omega)⟩
                · split
                  · exact ⟨_, rfl, iff_of_false hrejected (by omega)⟩
                  · split
                    · exact ⟨_, rfl, iff_of_false hrejected (by omega)⟩
                    · exact ⟨0, rfl, iff_of_true rfl (by omega)⟩

section Decode

variable (r : Regs)

theorem decodeTm_isInt : (decodeTm r.ymd r.hms).IsInt := by
  have hbound : ∀ lo width : ℕ, lo + width ≤ 32 → width ≤ 6 → ∀ v : U32,
      (getField v lo width).toNat < 64 := by
    intro lo width hle hw v
    calc (getField v lo width).toNat
        < 2 ^ width := getField_lt v hle
      _ ≤ 2 ^ 6 := Nat.pow_le_pow_right (by omega) hw
  have hsec := hbound 0 6 (by omega) (by omega) r.hms
  have hmin := hbound 8 6 (by omega) (by omega) r.hms
  have hhour := hbound 16 5 (by omega) (by omega) r.hms
  have hday := hbound 0 5 (by omega) (by omega) r.ymd
  have hmon := hbound 8 4 (by omega) (by omega) r.ymd
  have hyear := hbound 16 6 (by omega) (by omega) r.ymd
  rw [← timeGetSecValue_eq] at hsec
  rw [← timeGetMinValue_eq] at hmin
  rw [← timeGetHourValue_eq] at hhour
  rw [← dateGetDayValue_eq] at hday
  rw [← dateGetMonValue_eq] at hmon
  rw [← dateGetYearValue_eq] at hyear
  constructor <;> simp only [decodeTm, YEAR_OFF, YEAR_MIN] <;> omega

variable {r}

theorem decodeTm_eq_iff {t : DateTime} :
    decodeTm r.ymd r.hms = Tm.ofDateTime t ↔ DateHeld r.ymd t.date ∧ TimeHeld r.hms t := by
  simp only [decodeTm, Tm.ofDateTime, Tm.mk.injEq, YEAR_OFF, YEAR_MIN]
  constructor
  · rintro ⟨hsec, hmin, hhour, hday, hmon, hyear⟩
    exact ⟨⟨by omega, by omega, by omega⟩, ⟨by omega, by omega, by omega⟩⟩
  · rintro ⟨hd, ht⟩
    have hday := hd.day
    have hmon := hd.month
    have hyear := hd.year
    have hsec := ht.sec
    have hmin := ht.min
    have hhour := ht.hour
    omega

theorem Regs.Holds.decodeTm {t : DateTime} (h : r.Holds t) :
    decodeTm r.ymd r.hms = Tm.ofDateTime t :=
  decodeTm_eq_iff.2 ⟨h.date, h.time⟩

theorem decodeTm_isTime_iff : (decodeTm r.ymd r.hms).IsTime ↔ ∃ t, r.Holds t := by
  constructor
  · rintro ⟨t, hvalid, heq⟩
    rcases decodeTm_eq_iff.1 heq with ⟨hd, ht⟩
    exact ⟨t, hvalid, hd, ht⟩
  · rintro ⟨t, h⟩
    exact ⟨t, h.valid, h.decodeTm⟩

theorem Regs.Holds.unique {t t' : DateTime} (h : r.Holds t) (h' : r.Holds t') : t = t' :=
  Tm.ofDateTime_injective (h.decodeTm.symm.trans h'.decodeTm)

/-- What the driver makes of any two words. -/
theorem rtcValidTm_decodeTm (r : Regs) :
    ∃ ret, rtcValidTm (decodeTm r.ymd r.hms) = some ret ∧
      (ret = 0 ↔ (decodeTm r.ymd r.hms).IsTime) := by
  rcases rtcValidTm_spec (decodeTm_isInt r) with ⟨ret, hret, hiff⟩
  refine ⟨ret, hret, hiff.trans ⟨And.right, fun h => ⟨?_, h⟩⟩⟩
  simp only [decodeTm, YEAR_OFF, YEAR_MIN]
  omega

end Decode

end Rtc

end BspV3s
