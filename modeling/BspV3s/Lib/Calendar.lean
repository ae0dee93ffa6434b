import Mathlib.Data.Int.Basic
import Mathlib.Logic.Function.Iterate
import Mathlib.Tactic.Ring

/-!
# Calendar — Gregorian dates and times, and counting seconds

Dates of the proleptic Gregorian calendar with months from 0 and days from 1, the successor of a date
and of a second, and the number of days and seconds since 1970.  Counting is faithful: the next date
counts one more, two valid dates that count the same are equal, and every number is the count of a
date.
-/

namespace BspV3s

namespace Calendar

/-! ## Dates -/

def isLeap (year : ℤ) : Bool :=
  (year % 4 = 0 && year % 100 ≠ 0) || year % 400 = 0

def daysInMonth (leap : Bool) (month : ℕ) : ℕ :=
  [31, 28, 31, 30, 31, 30, 31, 31, 30, 31, 30, 31].getD month 0 +
    if leap && month = 1 then 1 else 0

@[ext]
structure Date where
  year : ℤ
  month : ℕ
  day : ℕ
  deriving DecidableEq, Repr

structure Date.Valid (d : Date) : Prop where
  month : d.month < 12
  day_pos : 1 ≤ d.day
  day_le : d.day ≤ daysInMonth (isLeap d.year) d.month

instance (d : Date) : Decidable d.Valid :=
  decidable_of_iff (d.month < 12 ∧ 1 ≤ d.day ∧ d.day ≤ daysInMonth (isLeap d.year) d.month)
    ⟨fun h => ⟨h.1, h.2.1, h.2.2⟩, fun h => ⟨h.month, h.day_pos, h.day_le⟩⟩

def Date.next (d : Date) : Date :=
  if d.day < daysInMonth (isLeap d.year) d.month then { d with day := d.day + 1 }
  else if d.month < 11 then ⟨d.year, d.month + 1, 1⟩
  else ⟨d.year + 1, 0, 1⟩

def Date.prev (d : Date) : Date :=
  if 1 < d.day then { d with day := d.day - 1 }
  else if 0 < d.month then
    ⟨d.year, d.month - 1, daysInMonth (isLeap d.year) (d.month - 1)⟩
  else ⟨d.year - 1, 11, 31⟩

/-- The days of a year before a month. -/
def monthStart (leap : Bool) (month : ℕ) : ℕ :=
  ((List.range month).map (daysInMonth leap)).sum

/-- The leap years up to and including a year. -/
def leapsThrough (year : ℤ) : ℤ :=
  year / 4 - year / 100 + year / 400

/-- The first day of a year, counted from 1 January 1970. -/
def yearStart (year : ℤ) : ℤ :=
  365 * (year - 1970) + (leapsThrough (year - 1) - leapsThrough 1969)

/-- The days since 1 January 1970. -/
def Date.number (d : Date) : ℤ :=
  yearStart d.year + monthStart (isLeap d.year) d.month + (d.day - 1)

theorem daysInMonth_pos (leap : Bool) {month : ℕ} (h : month < 12) : 1 ≤ daysInMonth leap month := by
  have hall : ∀ leap : Bool, ∀ m < 12, 1 ≤ daysInMonth leap m := by decide
  exact hall leap month h

theorem Date.Valid.day_le_31 {d : Date} (h : d.Valid) : d.day ≤ 31 := by
  have hall : ∀ leap : Bool, ∀ m < 12, daysInMonth leap m ≤ 31 := by decide
  exact h.day_le.trans (hall _ _ h.month)

theorem monthStart_succ (leap : Bool) (month : ℕ) :
    monthStart leap (month + 1) = monthStart leap month + daysInMonth leap month := by
  rw [monthStart, List.range_succ, List.map_append, List.sum_append, monthStart]
  simp

theorem monthStart_mono (leap : Bool) {m m' : ℕ} (h : m ≤ m') :
    monthStart leap m ≤ monthStart leap m' := by
  induction m', h using Nat.le_induction with
  | base => exact le_rfl
  | succ n _ ih =>
      rw [monthStart_succ]
      omega

theorem monthStart_year (leap : Bool) : monthStart leap 12 = if leap then 366 else 365 := by
  cases leap <;> decide

theorem yearStart_succ (year : ℤ) :
    yearStart (year + 1) = yearStart year + monthStart (isLeap year) 12 := by
  have hleaps : leapsThrough year - leapsThrough (year - 1) = if isLeap year then 1 else 0 := by
    unfold leapsThrough isLeap
    by_cases h400 : year % 400 = 0
    · simp only [h400, decide_true, Bool.or_true, if_true]
      omega
    · by_cases h4 : year % 4 = 0
      · by_cases h100 : year % 100 = 0
        · simp only [h400, h4, h100, ne_eq, not_true_eq_false, decide_false, Bool.and_false,
            Bool.or_false, Bool.false_eq_true, if_false]
          omega
        · simp only [h400, h4, h100, ne_eq, not_false_eq_true, decide_true, Bool.and_true,
            Bool.true_or, if_true]
          omega
      · simp only [h400, h4, decide_false, Bool.false_and, Bool.or_false, Bool.false_eq_true,
          if_false]
        omega
  have hyear : year + 1 - 1 = year := by ring
  rw [yearStart, yearStart, hyear, monthStart_year]
  cases hl : isLeap year <;> simp only [hl, Bool.false_eq_true, if_false, if_true] at hleaps ⊢ <;>
    push_cast <;> omega

theorem yearStart_mono {y y' : ℤ} (h : y ≤ y') : yearStart y ≤ yearStart y' := by
  induction y', h using Int.leInduction with
  | base => exact le_rfl
  | succ n _ ih =>
      rw [yearStart_succ]
      omega

/-! ## The successor of a date -/

theorem Date.Valid.next {d : Date} (h : d.Valid) : d.next.Valid := by
  unfold Date.next
  split
  · next hday => exact ⟨h.month, Nat.succ_pos _, hday⟩
  · split
    · next hmonth =>
        have hlt : d.month + 1 < 12 := by omega
        exact ⟨hlt, le_rfl, daysInMonth_pos _ hlt⟩
    · exact ⟨by simp, le_rfl, daysInMonth_pos _ (by simp)⟩

theorem Date.Valid.prev {d : Date} (h : d.Valid) : d.prev.Valid := by
  have hday := h.day_le
  have hmonth := h.month
  unfold Date.prev
  split
  · next hone => exact ⟨h.month, by simp only []; omega, by simp only []; omega⟩
  · split
    · next hpos =>
        have hlt : d.month - 1 < 12 := by omega
        exact ⟨hlt, daysInMonth_pos _ hlt, le_rfl⟩
    · refine ⟨by simp, by simp, ?_⟩
      have hall : ∀ leap : Bool, 31 ≤ daysInMonth leap 11 := by decide
      exact hall _

theorem Date.number_next {d : Date} (h : d.Valid) : d.next.number = d.number + 1 := by
  have hday := h.day_le
  have hmonth := h.month
  unfold Date.next
  split
  · simp only [Date.number]
    push_cast
    ring
  · next hlast =>
      have heq : d.day = daysInMonth (isLeap d.year) d.month := by omega
      split
      · simp only [Date.number]
        rw [monthStart_succ, heq]
        push_cast
        ring
      · next hdec =>
          have h11 : d.month = 11 := by omega
          simp only [Date.number]
          rw [yearStart_succ, monthStart_succ, h11, heq, h11]
          have hzero : ∀ leap, monthStart leap 0 = 0 := fun _ => rfl
          rw [hzero]
          push_cast
          ring

theorem Date.number_prev {d : Date} (h : d.Valid) : d.prev.number = d.number - 1 := by
  have hpos := h.day_pos
  have hmonth := h.month
  unfold Date.prev
  split
  · simp only [Date.number]
    push_cast [Nat.cast_sub hpos]
    ring
  · next hfirst =>
      have hone : d.day = 1 := by omega
      split
      -- The day before the first of a month ends the month before it.
      · next hm =>
          obtain ⟨m, hm'⟩ : ∃ m, d.month = m + 1 := ⟨d.month - 1, by omega⟩
          simp only [Date.number, hm', Nat.add_sub_cancel, hone]
          rw [monthStart_succ]
          push_cast
          ring
      · next hm =>
          have hjan : d.month = 0 := by omega
          have hyear := yearStart_succ (d.year - 1)
          have hprev : d.year - 1 + 1 = d.year := by ring
          have hdec : ∀ leap : Bool, monthStart leap 12 = monthStart leap 11 + 31 := by decide
          rw [hprev, hdec] at hyear
          simp only [Date.number, hjan, hone]
          rw [hyear]
          have hzero : ∀ leap, monthStart leap 0 = 0 := fun _ => rfl
          rw [hzero]
          push_cast
          ring

/-! ## Counting -/

/-- A date lies in its month. -/
theorem Date.Valid.number_bounds {d : Date} (h : d.Valid) :
    yearStart d.year + monthStart (isLeap d.year) d.month ≤ d.number ∧
      d.number < yearStart d.year + monthStart (isLeap d.year) (d.month + 1) := by
  have hpos := h.day_pos
  have hle := h.day_le
  rw [monthStart_succ, Date.number]
  push_cast
  omega

/-- A date lies in its year. -/
theorem Date.Valid.number_year {d : Date} (h : d.Valid) :
    yearStart d.year ≤ d.number ∧ d.number < yearStart (d.year + 1) := by
  have hb := h.number_bounds
  have hm : monthStart (isLeap d.year) (d.month + 1) ≤ monthStart (isLeap d.year) 12 :=
    monthStart_mono _ h.month
  rw [yearStart_succ]
  omega

theorem Date.number_injective {d d' : Date} (h : d.Valid) (h' : d'.Valid)
    (heq : d.number = d'.number) : d = d' := by
  have hyear : d.year = d'.year := by
    have hd := h.number_year
    have hd' := h'.number_year
    rcases lt_trichotomy d.year d'.year with hlt | heq' | hgt
    · have := yearStart_mono (Int.add_one_le_of_lt hlt)
      omega
    · exact heq'
    · have := yearStart_mono (Int.add_one_le_of_lt hgt)
      omega
  have hb := h.number_bounds
  have hb' := h'.number_bounds
  rw [← hyear] at hb'
  have hmon : d.month = d'.month := by
    rcases lt_trichotomy d.month d'.month with hlt | heq' | hgt
    · have hm : monthStart (isLeap d.year) (d.month + 1) ≤ monthStart (isLeap d.year) d'.month :=
        monthStart_mono _ hlt
      omega
    · exact heq'
    · have hm : monthStart (isLeap d.year) (d'.month + 1) ≤ monthStart (isLeap d.year) d.month :=
        monthStart_mono _ hgt
      omega
  have hday : d.day = d'.day := by
    rw [Date.number, Date.number, ← hyear, ← hmon] at heq
    omega
  exact Date.ext hyear hmon hday

/-- Later dates are in later years. -/
theorem Date.year_mono {d d' : Date} (h : d.Valid) (h' : d'.Valid) (hle : d.number ≤ d'.number) :
    d.year ≤ d'.year := by
  by_contra hlt
  have hstart : yearStart (d'.year + 1) ≤ yearStart d.year := yearStart_mono (by omega)
  have hd := (h.number_year).1
  have hd' := (h'.number_year).2
  omega

/-- 1 January 1970. -/
def epoch : Date := ⟨1970, 0, 1⟩

/-- The date that is counted `n`. -/
def Date.ofNumber : ℤ → Date
  | .ofNat n => Date.next^[n] epoch
  | .negSucc n => Date.prev^[n + 1] epoch

theorem Date.ofNumber_spec (n : ℤ) : (Date.ofNumber n).Valid ∧ (Date.ofNumber n).number = n := by
  have hepoch : epoch.Valid ∧ epoch.number = 0 := by decide
  have hnext : ∀ k : ℕ, (Date.next^[k] epoch).Valid ∧ (Date.next^[k] epoch).number = k := by
    intro k
    induction k with
    | zero => exact hepoch
    | succ k ih =>
        rw [Function.iterate_succ_apply', Date.number_next ih.1, ih.2]
        exact ⟨ih.1.next, by push_cast; ring⟩
  have hprev : ∀ k : ℕ, (Date.prev^[k] epoch).Valid ∧ (Date.prev^[k] epoch).number = -k := by
    intro k
    induction k with
    | zero => exact hepoch
    | succ k ih =>
        rw [Function.iterate_succ_apply', Date.number_prev ih.1, ih.2]
        exact ⟨ih.1.prev, by push_cast; ring⟩
  cases n with
  | ofNat k => exact hnext k
  | negSucc k =>
      have h := hprev (k + 1)
      exact ⟨h.1, h.2.trans (Int.negSucc_eq k).symm⟩

/-! ## Times -/

@[ext]
structure DateTime where
  date : Date
  hour : ℕ
  min : ℕ
  sec : ℕ
  deriving DecidableEq, Repr

structure DateTime.Valid (t : DateTime) : Prop where
  date : t.date.Valid
  hour : t.hour < 24
  min : t.min < 60
  sec : t.sec < 60

/-- The seconds since midnight. -/
def DateTime.ofDay (t : DateTime) : ℕ :=
  3600 * t.hour + 60 * t.min + t.sec

/-- The seconds since the beginning of 1970. -/
def DateTime.number (t : DateTime) : ℤ :=
  86400 * t.date.number + t.ofDay

def DateTime.next (t : DateTime) : DateTime :=
  if t.sec < 59 then { t with sec := t.sec + 1 }
  else if t.min < 59 then { t with min := t.min + 1, sec := 0 }
  else if t.hour < 23 then { t with hour := t.hour + 1, min := 0, sec := 0 }
  else ⟨t.date.next, 0, 0, 0⟩

theorem DateTime.Valid.next {t : DateTime} (h : t.Valid) : t.next.Valid := by
  unfold DateTime.next
  split
  · exact ⟨h.date, h.hour, h.min, by simp only []; omega⟩
  · split
    · exact ⟨h.date, h.hour, by simp only []; omega, by simp⟩
    · split
      · exact ⟨h.date, by simp only []; omega, by simp, by simp⟩
      · exact ⟨h.date.next, by simp, by simp, by simp⟩

theorem DateTime.number_next {t : DateTime} (h : t.Valid) : t.next.number = t.number + 1 := by
  have hhour := h.hour
  have hmin := h.min
  have hsec := h.sec
  unfold DateTime.next
  split
  · simp only [DateTime.number, DateTime.ofDay]
    push_cast
    ring
  · split
    · simp only [DateTime.number, DateTime.ofDay]
      push_cast
      omega
    · split
      · simp only [DateTime.number, DateTime.ofDay]
        push_cast
        omega
      · simp only [DateTime.number, DateTime.ofDay]
        rw [Date.number_next h.date]
        push_cast
        omega

theorem DateTime.number_iterate {t : DateTime} (h : t.Valid) (n : ℕ) :
    (DateTime.next^[n] t).Valid ∧ (DateTime.next^[n] t).number = t.number + n := by
  induction n with
  | zero => exact ⟨h, by simp⟩
  | succ n ih =>
      rw [Function.iterate_succ_apply', DateTime.number_next ih.1, ih.2]
      exact ⟨ih.1.next, by push_cast; ring⟩

theorem DateTime.Valid.ofDay_lt {t : DateTime} (h : t.Valid) : t.ofDay < 86400 := by
  have hhour := h.hour
  have hmin := h.min
  have hsec := h.sec
  unfold DateTime.ofDay
  omega

theorem DateTime.Valid.ofDay_eq {t : DateTime} (h : t.Valid) : (t.ofDay : ℤ) = t.number % 86400 := by
  have hlt := h.ofDay_lt
  unfold DateTime.number
  omega

/-- The time of day goes round. -/
theorem DateTime.ofDay_iterate {t : DateTime} (h : t.Valid) (n : ℕ) :
    (DateTime.next^[n] t).ofDay = (t.ofDay + n) % 86400 := by
  have hnumber := DateTime.number_iterate h n
  have hday := hnumber.1.ofDay_eq
  have hlt := h.ofDay_lt
  rw [hnumber.2] at hday
  unfold DateTime.number at hday
  omega

theorem DateTime.year_mono {t t' : DateTime} (h : t.Valid) (h' : t'.Valid)
    (hle : t.number ≤ t'.number) : t.date.year ≤ t'.date.year := by
  have hlt := h.ofDay_lt
  have hlt' := h'.ofDay_lt
  unfold DateTime.number at hle
  exact Date.year_mono h.date h'.date (by omega)

theorem DateTime.number_injective {t t' : DateTime} (h : t.Valid) (h' : t'.Valid)
    (heq : t.number = t'.number) : t = t' := by
  have hlt := h.ofDay_lt
  have hlt' := h'.ofDay_lt
  unfold DateTime.number at heq
  have hdate : t.date = t'.date := Date.number_injective h.date h'.date (by omega)
  have hday : t.ofDay = t'.ofDay := by rw [hdate] at heq; omega
  have hmin := h.min
  have hmin' := h'.min
  have hsec := h.sec
  have hsec' := h'.sec
  unfold DateTime.ofDay at hday
  exact DateTime.ext hdate (by omega) (by omega) (by omega)

/-- The time that is counted `n`. -/
def DateTime.ofNumber (n : ℤ) : DateTime where
  date := Date.ofNumber (n / 86400)
  hour := ((n % 86400) / 3600).toNat
  min := ((n % 3600) / 60).toNat
  sec := (n % 60).toNat

theorem DateTime.ofNumber_spec (n : ℤ) :
    (DateTime.ofNumber n).Valid ∧ (DateTime.ofNumber n).number = n := by
  have hdate := Date.ofNumber_spec (n / 86400)
  refine ⟨⟨hdate.1, ?_, ?_, ?_⟩, ?_⟩
  · simp only [DateTime.ofNumber]
    omega
  · simp only [DateTime.ofNumber]
    omega
  · simp only [DateTime.ofNumber]
    omega
  · simp only [DateTime.number, DateTime.ofDay, DateTime.ofNumber, hdate.2]
    omega

end Calendar

end BspV3s
