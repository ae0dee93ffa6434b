import BspV3s.Rtc.RoundTrip

/-!
# Control — the clock device

`rt_rtc_control` drops what its two routines return and answers `RT_EOK` either way.  Setting the time
can fail at the year, at the access bits before the first write and at those before the second; a get
that follows then shows what is in the registers, which need not be the time that was set.

* `control_roundTrip_iff` : when a get after a set yields the time that was set;
* `control_hides_busy`    : with the access bits stuck it does not, though both calls answer `RT_EOK`.
-/

namespace BspV3s

namespace Rtc

open Calendar

/-- `localtime` and `mktime` are inverse: `localtime` on every time, and `mktime` on what the clock
can show. -/
structure Libc.Inverse {TimeT : Type} (L : Libc TimeT) : Prop where
  isTime : ∀ time, (L.localtime time).IsTime
  mktime_localtime : ∀ time, L.mktime (L.localtime time) = time
  localtime_mktime : ∀ tm : Tm, tm.IsTime → tm.InYears → L.localtime (L.mktime tm) = tm

section Device

variable {TimeT : Type} [Zero TimeT] {L : Libc TimeT}

/-- The registers amount to `time`: they are the fields of `time`, or they are no time at all and
`time` is the 0 that stands for that. -/
def Shows (L : Libc TimeT) (r : Regs) (time : TimeT) : Prop :=
  decodeTm r.ymd r.hms = L.localtime time ∨ (¬ (decodeTm r.ymd r.hms).IsTime ∧ time = 0)

variable {b : Answers}

/-! ## Getting -/

theorem decodeTm_inYears (r : Regs) : (decodeTm r.ymd r.hms).InYears := by
  have hlt := getField_lt r.ymd (show 16 + 6 ≤ 32 by omega)
  rw [← dateGetYearValue_eq] at hlt
  simp only [Tm.InYears, decodeTm, YEAR_OFF, YEAR_MIN, YEAR_MAX]
  omega

/-- The device answers `RT_EOK` whenever it answers. -/
theorem rtRtcControl_still {fuel : ℕ} {cmd : Cmd} {time : TimeT} {s s' : Still}
    {o : Option TimeT} (h : (dispatch L fuel cmd time).runOn b.access s = (o, s')) :
    (rtRtcControl L fuel cmd time).runOn b.access s = (o.map fun time => (RT_EOK, time), s') := by
  have htake : mutexTake.runOn b.access s = ((), s) := rfl
  rw [rtRtcControl, Prog.runOn_bind_of htake, Prog.runOn_bind_of h]
  cases o <;> rfl

theorem rtRtcControl_get (hL : L.Inverse) (fuel : ℕ) (s : Still) (time time' : TimeT) :
    ((rtRtcControl L (fuel + 1) .rtcGetTime time').runOn b.access s).1 = some (RT_EOK, time) ↔
      Shows L s.regs time := by
  rcases sun6iRtcGettime_still b s fuel with ⟨ret, hget, hiff⟩
  have hrtc : (rtcGettime L (fuel + 1)).runOn b.access s =
      (some (ret, if ret ≠ 0 then 0 else L.mktime (decodeTm s.regs.ymd s.regs.hms)), s) := by
    unfold rtcGettime
    rw [Prog.runOn_bind, hget]
    rfl
  have hdispatch : (dispatch L (fuel + 1) .rtcGetTime time').runOn b.access s =
      (some (if ret ≠ 0 then 0 else L.mktime (decodeTm s.regs.ymd s.regs.hms)), s) := by
    unfold dispatch
    simp only
    rw [Prog.runOn_bind, hrtc]
    rfl
  rw [rtRtcControl_still hdispatch]
  simp only [Option.map_some, Option.some.injEq, Prod.mk.injEq, true_and]
  unfold Shows
  -- The error of the driver is dropped on the way, and the time 0 stands for it.
  by_cases hzero : ret = 0
  · have htime := hiff.1 hzero
    rw [if_neg (not_not_intro hzero)]
    constructor
    · intro heq
      rw [← heq, hL.localtime_mktime _ htime (decodeTm_inYears s.regs)]
      exact .inl rfl
    · rintro (heq | ⟨hnot, -⟩)
      · rw [heq, hL.mktime_localtime]
      · exact absurd htime hnot
  · have hnot : ¬ (decodeTm s.regs.ymd s.regs.hms).IsTime := fun htime => hzero (hiff.2 htime)
    rw [if_pos hzero]
    constructor
    · intro heq
      exact .inr ⟨hnot, heq.symm⟩
    · rintro (heq | ⟨-, heq⟩)
      · rw [heq] at hnot
        exact absurd (hL.isTime time) hnot
      · exact heq.symm

/-! ## Setting -/

/-- When a set returns, `sun6i_rtc_settime` has returned one thing or another. -/
theorem rtRtcControl_set {fuel : ℕ} {r : Regs} {time : TimeT} {o : ℤ × TimeT} {s' : Still}
    (h : (rtRtcControl L fuel .rtcSetTime time).runOn b.access (.start r) = (some o, s')) :
    ∃ ret tm', (sun6iRtcSettime fuel (L.localtime time)).runOn b.access (.start r) =
      (some (ret, tm'), s') := by
  obtain ⟨c, s₁, hset⟩ : ∃ c s₁, (sun6iRtcSettime fuel (L.localtime time)).runOn b.access
      (.start r) = (c, s₁) := ⟨_, _, rfl⟩
  have hrtc : (rtcSettime L fuel time).runOn b.access (.start r) = (c.map Prod.fst, s₁) := by
    unfold rtcSettime
    rw [Prog.runOn_bind, hset]
    cases c <;> rfl
  have hdispatch : (dispatch L fuel .rtcSetTime time).runOn b.access (.start r) =
      ((c.map Prod.fst).map fun _ => time, s₁) := by
    unfold dispatch
    simp only
    rw [Prog.runOn_bind, hrtc]
    rfl
  rw [rtRtcControl_still hdispatch] at h
  cases c with
  | none => cases h
  | some got =>
      have hs : s₁ = s' := (Prod.ext_iff.1 h).2
      rw [← hs]
      exact ⟨got.1, got.2, hset⟩

/-- The set has stored the time, or what it found in the registers amounts to that time. -/
def Stored (L : Libc TimeT) (b : Answers) (r : Regs) (time : TimeT) : Prop :=
  let tm := L.localtime time
  (tm.InYears ∧ b.Settles LOSC_CTRL_ACC_MASK 0 ∧
      (b.Settles LOSC_CTRL_RTC_HMS_ACC 1 ∨ Shows L { r with hms := encodeTime tm.rebase } time)) ∨
    (¬ (tm.InYears ∧ b.Settles LOSC_CTRL_ACC_MASK 0) ∧ Shows L r time)

/-- After a set that answered `RT_EOK`, when a get answers `RT_EOK` and the same time. -/
theorem control_roundTrip_iff (hL : L.Inverse) {fuel : ℕ} (fuel' : ℕ) {r : Regs}
    {time out : TimeT} (time' : TimeT) {s' : Still}
    (hset : (rtRtcControl L fuel .rtcSetTime time).runOn b.access (.start r) =
      (some (RT_EOK, out), s')) :
    ((rtRtcControl L (fuel' + 1) .rtcGetTime time').runOn b.access s').1 = some (RT_EOK, time) ↔
      Stored L b r time := by
  rw [rtRtcControl_get hL]
  unfold Stored
  rcases rtRtcControl_set hset with ⟨ret, tm', hrun⟩
  rcases sun6iRtcSettime_still hrun with ⟨hyears, -, hregs⟩ | ⟨hyears, hwritten⟩
  · rw [hregs]
    simp only [hyears, false_and, false_or, not_false_eq_true, true_and]
  · generalize hregs : s'.regs = r' at hwritten
    cases hwritten with
    | busy hacc => simp only [hacc, false_and, and_false, false_or, not_false_eq_true, true_and]
    | late hacc hhms =>
        simp only [hyears, hacc, hhms, false_or, true_and, not_true_eq_false, false_and, or_false]
    | both hacc hhms hymd =>
        simp only [hyears, hacc, hhms, true_or, true_and, iff_true]
        rcases hL.isTime time with ⟨t, hvalid, htm⟩
        rw [htm] at hyears ⊢
        left
        rw [htm]
        exact (holds_encode hvalid (ofDateTime_inYears_iff.1 hyears)).decodeTm

end Device

/-! ## The configured zone -/

/-- The date and time that the fields name. -/
def Tm.toDateTime (tm : Tm) : DateTime :=
  ⟨⟨tm.year + 1900, tm.mon.toNat, tm.mday.toNat⟩, tm.hour.toNat, tm.min.toNat, tm.sec.toNat⟩

theorem toDateTime_ofDateTime (t : DateTime) : (Tm.ofDateTime t).toDateTime = t := by
  have hyear : t.date.year - 1900 + 1900 = t.date.year := by omega
  simp only [Tm.toDateTime, Tm.ofDateTime, hyear, Int.toNat_natCast]

/-- The C library in the zone CST-8, eight hours ahead of UTC, with a 32-bit `time_t`. -/
def cst : Libc (BitVec 32) where
  localtime time := Tm.ofDateTime (DateTime.ofNumber (time.toInt + 28800))
  mktime tm := BitVec.ofInt 32 (tm.toDateTime.number - 28800)

theorem number_inYears {t : DateTime} (h : t.Valid) (hy : InYears t.date) :
    0 ≤ t.number ∧ t.number < 86400 * 23376 := by
  have hlt := h.ofDay_lt
  have hdate := h.date.number_year
  have hfirst : yearStart 1970 ≤ yearStart t.date.year := yearStart_mono hy.1
  have hlast : yearStart (t.date.year + 1) ≤ yearStart 2034 := yearStart_mono (by have := hy.2; omega)
  have h1970 : yearStart 1970 = 0 := rfl
  have h2034 : yearStart 2034 = 23376 := rfl
  unfold DateTime.number
  omega

theorem cst_inverse : cst.Inverse where
  isTime time := ⟨_, (DateTime.ofNumber_spec _).1, rfl⟩
  mktime_localtime time := by
    simp only [cst, toDateTime_ofDateTime, (DateTime.ofNumber_spec _).2, Int.add_sub_cancel,
      BitVec.ofInt_toInt]
  localtime_mktime := by
    rintro tm ⟨t, hvalid, rfl⟩ hy
    have hrange := number_inYears hvalid (ofDateTime_inYears_iff.1 hy)
    have hint : (BitVec.ofInt 32 (t.number - 28800)).toInt = t.number - 28800 := by
      rw [BitVec.toInt_ofInt]
      exact Int.bmod_eq_of_le (by omega) (by omega)
    simp only [cst, toDateTime_ofDateTime, hint, Int.sub_add_cancel]
    rw [DateTime.number_injective (DateTime.ofNumber_spec t.number).1 hvalid
      (DateTime.ofNumber_spec t.number).2]

/-- The access bits stay clear. -/
def freed : Answers := ⟨fun _ _ => 0, fun _ _ => 0⟩

/-- The access bits stay set, and the timer reaches 50 ms. -/
def stuck : Answers := ⟨fun _ _ => LOSC_CTRL_ACC_MASK, fun _ _ => 50⟩

/-- A set and a get of 86400 on a clock that is not busy. -/
theorem control_roundTrip_freed :
    ((rtRtcControl cst 1 .rtcGetTime 0).runOn freed.access
      ((rtRtcControl cst 1 .rtcSetTime 86400).runOn freed.access (.start ⟨0, 0⟩)).2).1 =
      some (RT_EOK, 86400) := by
  have hset : (rtRtcControl cst 1 .rtcSetTime 86400).runOn freed.access (.start ⟨0, 0⟩) =
      (some (RT_EOK, 86400),
        ((rtRtcControl cst 1 .rtcSetTime 86400).runOn freed.access (.start ⟨0, 0⟩)).2) := rfl
  refine (control_roundTrip_iff cst_inverse 0 0 hset).2 (.inl ⟨by decide, ?_, .inl ?_⟩)
  · exact ⟨0, rfl, fun j hj => absurd hj (Nat.not_lt_zero j)⟩
  · exact ⟨0, rfl, fun j hj => absurd hj (Nat.not_lt_zero j)⟩

/-- A set of 86400 on a clock that stays busy answers `RT_EOK`, and a get then yields 0. -/
theorem control_hides_busy :
    ((rtRtcControl cst 1 .rtcSetTime 86400).runOn stuck.access (.start ⟨0, 0⟩)).1 =
        some (RT_EOK, 86400) ∧
      ((rtRtcControl cst 1 .rtcGetTime 0).runOn stuck.access
        ((rtRtcControl cst 1 .rtcSetTime 86400).runOn stuck.access (.start ⟨0, 0⟩)).2).1 =
        some (RT_EOK, 0) ∧
      (0 : BitVec 32) ≠ 86400 := by
  decide

end Rtc

end BspV3s
