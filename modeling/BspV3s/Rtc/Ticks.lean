import BspV3s.Rtc.RoundTrip

/-!
# Ticks — setting a clock that runs

The clock ticks whenever it likes between the accesses of `sun6i_rtc_settime`.  A tick advances the
date and the time of day together, but the routine writes the time of day first and the date up to
50 ms later: a midnight that falls between the two writes is taken back by the second one.

* `settime_ticks_iff`     : the clock shows the time that was set and what has gone by since exactly
  when no midnight falls between the writes, as long as the register can hold the year;
* `settime_loses_midnight`: one second before midnight, a tick between the writes loses a day.
-/

namespace BspV3s

namespace Rtc

open Calendar

/-! ## The running clock -/

/-- What one second does to the two registers.  The time of day goes on whatever the date register
holds, and a valid pair becomes the next second as long as the register can hold its year. -/
structure Clock where
  tick : Regs → Regs
  time : ∀ (r : Regs) (t : DateTime), t.Valid → TimeHeld r.hms t → TimeHeld (tick r).hms t.next
  date : ∀ (r : Regs) (t : DateTime), r.Holds t → InYears t.next.date →
    DateHeld (tick r).ymd t.next.date

/-- The registers with the ticks counted since the time of day was written, and those of them that
came before the date was. -/
structure Ticking where
  regs : Regs
  sinceHms : ℕ
  between : ℕ
  deriving DecidableEq, Repr

def Ticking.tick (C : Clock) (s : Ticking) : Ticking :=
  { s with regs := C.tick s.regs, sinceHms := s.sinceHms + 1 }

/-- What an access does; `v` is the answer of the control register or the timer. -/
def Ticking.after (v : U32) : (o : Op) → Ticking → o.Ret × Ticking
  | .readl .loscCtrl, s => (v, s)
  | .readl .ymd, s => (s.regs.ymd, s)
  | .readl .hms, s => (s.regs.hms, s)
  | .writel .loscCtrl _, s => ((), s)
  | .writel .ymd w, s => ((), { s with regs := { s.regs with ymd := w }, between := s.sinceHms })
  | .writel .hms w, s => ((), ⟨{ s.regs with hms := w }, 0, 0⟩)
  | .getTimer _, s => (v, s)
  | .udelay _, s => ((), s)
  | .mutexTake, s => ((), s)
  | .mutexRelease, s => ((), s)

def access : Prog.Sem Op Op.Ret Ticking :=
  fun o s r s' => ∃ v, (r, s') = Ticking.after v o s

def ticks (C : Clock) : Prog.Rely Op Ticking :=
  fun _ s s' => s' = s.tick C

/-! ## Waiting while the clock runs -/

/-- An access that stores nothing. -/
def Op.Quiet (o : Op) : Prop :=
  ∀ r v, o ≠ .writel r v

theorem Op.Quiet.after {o : Op} (h : o.Quiet) (v : U32) (s : Ticking) :
    (Ticking.after v o s).2 = s := by
  cases o with
  | readl r => cases r <;> rfl
  | writel r w => exact absurd rfl (h r w)
  | getTimer base => rfl
  | udelay usec => rfl
  | mutexTake => rfl
  | mutexRelease => rfl

theorem waitLoop_quiet (mask msTimeout start : U32) (fuel : ℕ) :
    Prog.Only Op.Quiet (waitLoop mask msTimeout start fuel) := by
  induction fuel with
  | zero => exact Prog.only_pure _
  | succ fuel ih =>
      refine Prog.Only.bind (Prog.only_op nofun) fun reg => ?_
      refine Prog.Only.ite (Prog.only_pure _) ?_
      refine Prog.Only.bind (Prog.only_op nofun) fun _ => ?_
      exact Prog.Only.bind (Prog.only_op nofun) fun t => Prog.Only.ite ih (Prog.only_pure _)

theorem sun6iRtcWait_quiet (mask msTimeout : U32) (fuel : ℕ) :
    Prog.Only Op.Quiet (sun6iRtcWait mask msTimeout fuel) :=
  Prog.Only.bind (Prog.only_op nofun) fun start => waitLoop_quiet mask msTimeout start fuel

section Wp

variable {C : Clock} {P : Ticking → Prop} {s : Ticking}

/-- No guarantee is asked of the driver. -/
def anything : Prog.Sem Op Op.Ret Ticking := fun _ _ _ _ => True

/-- A tick does not falsify `P`. -/
def Steady (C : Clock) (P : Ticking → Prop) : Prop :=
  ∀ s, P s → P (s.tick C)

theorem Steady.stable (h : Steady C P) (o : Option Op) : Prog.Stable (ticks C) o P := by
  rintro s s' hs rfl
  exact h s hs

/-- The rule for `whenReady`: what the ticks keep holds when it fails and when the rest begins. -/
theorem whenReady_wp {mask : U32} {err : ℤ} {fuel : ℕ} {rest : RtcM (Option ℤ)}
    {Q : Option ℤ → Ticking → Prop} (hP : Steady C P) (hs : P s)
    (hfail : ∀ o t, o ≠ some 0 → P t → Q o t) (herr : err ≠ 0)
    (hrest : ∀ t, P t → Prog.wp access (ticks C) anything rest Q t) :
    Prog.wp access (ticks C) anything (whenReady mask err fuel rest) Q s := by
  have hwait : Prog.wp access (ticks C) anything (sun6iRtcWait mask 50 fuel) (fun _ => P) s := by
    refine Prog.Only.wp (sun6iRtcWait_quiet mask 50 fuel) (fun o => hP.stable o) ?_ hs
    rintro o t r t' hquiet ht ⟨v, heq⟩
    have hsame := hquiet.after v t
    rw [← heq] at hsame
    have hsame' : t' = t := hsame
    rw [hsame']
    exact ⟨trivial, ht⟩
  refine Prog.wp_seq hwait ?_
  intro o t ht
  cases o with
  | none => exact Prog.wp_return (hP.stable none) ht fun t' ht' => hfail none t' nofun ht'
  | some late =>
      simp only
      split
      · refine Prog.wp_return (hP.stable none) ht fun t' ht' => hfail _ t' ?_ ht'
        intro h
        exact herr (Option.some.inj h)
      · exact hrest t ht

/-- The rule for a write. -/
theorem writel_wp {β : Type} {r : Reg} {v : U32} {rest : RtcM β} {Q : β → Ticking → Prop}
    (hP : Steady C P) (hs : P s)
    (hrest : ∀ t, P t →
      Prog.wp access (ticks C) anything rest Q (Ticking.after 0 (.writel r v) t).2) :
    Prog.wp access (ticks C) anything (writel r v >>= fun _ => rest) Q s := by
  refine Prog.wp_call (hP.stable _) hs ?_
  rintro t u t' ht ⟨w, heq⟩
  have hafter : Ticking.after w (.writel r v) t = Ticking.after 0 (.writel r v) t := by
    cases r <;> rfl
  rw [hafter] at heq
  have ht' : t' = (Ticking.after 0 (.writel r v) t).2 := congrArg Prod.snd heq
  rw [ht']
  exact ⟨trivial, hrest t ht⟩

end Wp

/-! ## What the two writes leave -/

/-- The date that was set, with the time of day `n` seconds on. -/
def resumed (t : DateTime) (n : ℕ) : DateTime :=
  { DateTime.next^[n] t with date := t.date }

section Set

variable {t : DateTime} (h : t.Valid)
include h

theorem resumed_valid (n : ℕ) : (resumed t n).Valid :=
  have hn := (DateTime.number_iterate h n).1
  ⟨h.date, hn.hour, hn.min, hn.sec⟩

theorem resumed_number (n : ℕ) :
    (resumed t n).number = 86400 * t.date.number + ((t.ofDay + n) % 86400 : ℕ) := by
  rw [← DateTime.ofDay_iterate h n]
  rfl

/-- Without a midnight the time of day and the date go on together. -/
theorem resumed_eq {n : ℕ} (hn : t.ofDay + n < 86400) : resumed t n = DateTime.next^[n] t := by
  have hiter := DateTime.number_iterate h n
  refine DateTime.number_injective (resumed_valid h n) hiter.1 ?_
  rw [resumed_number h n, hiter.2, Nat.mod_eq_of_lt hn]
  unfold DateTime.number
  push_cast
  ring

/-- The years go up. -/
theorem inYears_iterate (hmin : 1970 ≤ t.date.year) {n m : ℕ} (hnm : n ≤ m)
    (hm : InYears (DateTime.next^[m] t).date) : InYears (DateTime.next^[n] t).date := by
  have hn := DateTime.number_iterate h n
  have hm' := DateTime.number_iterate h m
  have hfirst := DateTime.year_mono h hn.1 (by rw [hn.2]; omega)
  have hlast := DateTime.year_mono hn.1 hm'.1 (by rw [hn.2, hm'.2]; omega)
  exact ⟨hmin.trans hfirst, hlast.trans hm.2⟩

end Set

/-- After the first write the register shows the time of day, going on. -/
def HmsSet (t : DateTime) (s : Ticking) : Prop :=
  TimeHeld s.regs.hms (DateTime.next^[s.sinceHms] t)

/-- After both writes the registers show the date and the time of day of the second one, going on. -/
def BothSet (t : DateTime) (s : Ticking) : Prop :=
  s.between ≤ s.sinceHms ∧
    (InYears (DateTime.next^[s.sinceHms - s.between] (resumed t s.between)).date →
      s.regs.Holds (DateTime.next^[s.sinceHms - s.between] (resumed t s.between)))

section Invariants

variable {C : Clock} {t : DateTime} (h : t.Valid)
include h

theorem steady_hmsSet : Steady C (HmsSet t) := by
  intro s hs
  unfold HmsSet Ticking.tick
  rw [Function.iterate_succ_apply']
  exact C.time s.regs _ (DateTime.number_iterate h _).1 hs

theorem steady_bothSet (hmin : 1970 ≤ t.date.year) : Steady C (BothSet t) := by
  rintro s ⟨hle, hheld⟩
  have hsucc : s.sinceHms + 1 - s.between = s.sinceHms - s.between + 1 := by omega
  refine ⟨Nat.le_succ_of_le hle, ?_⟩
  unfold Ticking.tick
  simp only
  rw [hsucc]
  intro hyears
  have hbefore := hheld (inYears_iterate (resumed_valid h _) hmin (Nat.le_succ _) hyears)
  rw [Function.iterate_succ_apply'] at hyears ⊢
  exact ⟨hbefore.valid.next, C.date s.regs _ hbefore hyears, C.time s.regs _ hbefore.valid hbefore.time⟩

/-- `sun6i_rtc_settime` while the clock runs. -/
theorem sun6iRtcSettime_wp (hy : InYears t.date) (fuel : ℕ) (s : Ticking) :
    Prog.wp access (ticks C) anything (sun6iRtcSettime fuel (Tm.ofDateTime t))
      (fun o s => ∀ tm', o = some (0, tm') → BothSet t s) s := by
  have hyears : ¬ ((Tm.ofDateTime t).year + 1900 < YEAR_MIN ∨
      (Tm.ofDateTime t).year + 1900 > YEAR_MAX) := by
    have := ofDateTime_inYears_iff.2 hy
    unfold Tm.InYears at this
    omega
  have hheld := holds_encode h hy
  have hwrite : Prog.wp access (ticks C) anything
      (writeClock fuel (encodeDate (Tm.ofDateTime t).rebase ((Tm.ofDateTime t).year + 1900))
        (encodeTime (Tm.ofDateTime t).rebase)) (fun o s => o = some 0 → BothSet t s) s := by
    have htrue : Steady C fun _ => True := fun _ _ => trivial
    refine whenReady_wp htrue trivial (fun o s ho _ h0 => absurd h0 ho) (by decide) fun s _ => ?_
    refine writel_wp htrue trivial fun s _ => ?_
    -- The time of day is set; ticks move it on while the access bit is waited for.
    refine whenReady_wp (steady_hmsSet h) hheld.time (fun o s ho _ h0 => absurd h0 ho) (by decide)
      fun s hs => ?_
    refine writel_wp (steady_hmsSet h) hs fun s hs => ?_
    have hboth : BothSet t (Ticking.after 0 (.writel .ymd (encodeDate (Tm.ofDateTime t).rebase
        ((Tm.ofDateTime t).year + 1900))) s).2 := by
      refine ⟨le_rfl, fun _ => ?_⟩
      simp only [Ticking.after, Nat.sub_self, Function.iterate_zero_apply]
      exact ⟨resumed_valid h _, ⟨hheld.date.day, hheld.date.month, hheld.date.year⟩,
        ⟨hs.sec, hs.min, hs.hour⟩⟩
    refine whenReady_wp (steady_bothSet h hy.1) hboth (fun o s ho _ h0 => absurd h0 ho) (by decide)
      fun s hs => ?_
    exact Prog.wp_return ((steady_bothSet h hy.1).stable none) hs fun s hs _ => hs
  unfold sun6iRtcSettime
  simp only [if_neg hyears]
  refine Prog.wp_seq hwrite fun o s hs => ?_
  have hsteady : Steady C fun s => o = some 0 → BothSet t s :=
    fun s hs h0 => steady_bothSet h hy.1 s (hs h0)
  refine Prog.wp_return (hsteady.stable none) hs fun s hs tm' hret => hs ?_
  rcases Option.map_eq_some_iff.1 hret with ⟨ret, ho, hpair⟩
  have hzero : ret = 0 := (Prod.ext_iff.1 hpair).1
  rw [ho, hzero]

end Invariants

/-! ## The time that is set -/

/-- Once both writes are made, the registers show the time that was set, advanced by the ticks since
the time of day was written, exactly when the time of day had not gone round before the date was
written and the date register can hold the year. -/
theorem BothSet.holds_iff {t : DateTime} (h : t.Valid) (hy : InYears t.date) {s : Ticking}
    (hs : BothSet t s) :
    s.regs.Holds (DateTime.next^[s.sinceHms] t) ↔
      t.ofDay + s.between < 86400 ∧ InYears (DateTime.next^[s.sinceHms] t).date := by
  rcases hs with ⟨hle, hheld⟩
  have hnow := DateTime.number_iterate h s.sinceHms
  have hresumed := resumed_valid h s.between
  have hshown := DateTime.number_iterate hresumed (s.sinceHms - s.between)
  have hnumber := resumed_number h s.between
  have hday : t.number = 86400 * t.date.number + t.ofDay := rfl
  have hadd : s.sinceHms - s.between + s.between = s.sinceHms := Nat.sub_add_cancel hle
  constructor
  · intro hholds
    have hyears : InYears (DateTime.next^[s.sinceHms] t).date := hholds.date.inYears
    -- The registers show no later a time than they should, so they hold that one as well.
    have hbehind : (DateTime.next^[s.sinceHms - s.between] (resumed t s.between)).number ≤
        (DateTime.next^[s.sinceHms] t).number := by
      rw [hshown.2, hnow.2, hnumber, hday]
      omega
    have hfirst : (resumed t s.between).date.year ≤
        (DateTime.next^[s.sinceHms - s.between] (resumed t s.between)).date.year :=
      DateTime.year_mono hresumed hshown.1 (by rw [hshown.2]; omega)
    have hshownYears : InYears
        (DateTime.next^[s.sinceHms - s.between] (resumed t s.between)).date :=
      ⟨hy.1.trans hfirst, (DateTime.year_mono hshown.1 hnow.1 hbehind).trans hyears.2⟩
    have heq := congrArg DateTime.number (hholds.unique (hheld hshownYears))
    rw [hshown.2, hnow.2, hnumber, hday] at heq
    exact ⟨by omega, hyears⟩
  · rintro ⟨hmidnight, hyears⟩
    have hshown_eq : DateTime.next^[s.sinceHms - s.between] (resumed t s.between) =
        DateTime.next^[s.sinceHms] t := by
      rw [resumed_eq h hmidnight, ← Function.iterate_add_apply, hadd]
    rw [hshown_eq] at hheld
    exact hheld hyears

/-- What the clock shows after `sun6i_rtc_settime` has returned 0. -/
theorem settime_ticks_iff (C : Clock) {t : DateTime} (h : t.Valid) (hy : InYears t.date) {fuel : ℕ}
    {s s' : Ticking} {tm' : Tm}
    (hrun : Relation.ReflTransGen (Prog.Step access (ticks C))
      (sun6iRtcSettime fuel (Tm.ofDateTime t), s) (.ret (some (0, tm')), s')) :
    s'.regs.Holds (DateTime.next^[s'.sinceHms] t) ↔
      t.ofDay + s'.between < 86400 ∧ InYears (DateTime.next^[s'.sinceHms] t).date := by
  have hwp := Prog.wp_steps (sun6iRtcSettime_wp (C := C) h hy fuel s) hrun
  exact (Prog.wp_ret hwp tm' rfl).holds_iff h hy

/-! ## A Gregorian clock -/

/-- The fields of the registers, read as a time whatever they hold. -/
def Regs.read (r : Regs) : DateTime where
  date := ⟨1970 + (dateGetYearValue r.ymd).toNat, (dateGetMonValue r.ymd).toNat - 1,
    (dateGetDayValue r.ymd).toNat⟩
  hour := (timeGetHourValue r.hms).toNat
  min := (timeGetMinValue r.hms).toNat
  sec := (timeGetSecValue r.hms).toNat

theorem Regs.Holds.read {r : Regs} {t : DateTime} (h : r.Holds t) : r.read = t := by
  have hmonth := h.date.month
  refine DateTime.ext (Date.ext h.date.year ?_ h.date.day) h.time.hour h.time.min h.time.sec
  simp only [Regs.read]
  omega

def gregorianTick (r : Regs) : Regs where
  ymd := encodeDate (Tm.ofDateTime r.read.next).rebase r.read.next.date.year
  hms := encodeTime (Tm.ofDateTime r.read.next).rebase

theorem gregorianTick_time (r : Regs) (t : DateTime) (h : t.Valid) (hheld : TimeHeld r.hms t) :
    TimeHeld (gregorianTick r).hms t.next := by
  have hread : r.read = { t with date := r.read.date } :=
    DateTime.ext rfl hheld.hour hheld.min hheld.sec
  have hnext : ∀ d : Date, ({ t with date := d } : DateTime).next.hour = t.next.hour ∧
      ({ t with date := d } : DateTime).next.min = t.next.min ∧
      ({ t with date := d } : DateTime).next.sec = t.next.sec := by
    intro d
    unfold DateTime.next
    split
    · exact ⟨rfl, rfl, rfl⟩
    · split
      · exact ⟨rfl, rfl, rfl⟩
      · split <;> exact ⟨rfl, rfl, rfl⟩
  rcases hnext r.read.date with ⟨hhour, hmin, hsec⟩
  have hencode : (gregorianTick r).hms = encodeTime (Tm.ofDateTime t.next).rebase := by
    unfold gregorianTick encodeTime
    rw [hread]
    simp only [Tm.rebase, Tm.ofDateTime, hhour, hmin, hsec]
  rw [hencode]
  exact encodeTime_held h.next

theorem gregorianTick_date (r : Regs) (t : DateTime) (h : r.Holds t) (hy : InYears t.next.date) :
    DateHeld (gregorianTick r).ymd t.next.date := by
  unfold gregorianTick
  rw [h.read]
  exact encodeDate_held h.valid.next hy

/-- The clock of the Gregorian calendar. -/
def gregorian : Clock := ⟨gregorianTick, gregorianTick_time, gregorianTick_date⟩

/-- One tick when the routine is about to look at the timer, if none has come since the last write of
the time of day. -/
def tickOnWait : Op → Ticking → Ticking
  | .getTimer _, s => if s.sinceHms = 0 then s.tick gregorian else s
  | _, s => s

theorem tickOnWait_run (p : RtcM (Option (ℤ × Tm))) (s : Ticking) :
    Relation.ReflTransGen (Prog.Step access (ticks gregorian)) (p, s)
      (.ret (p.runOn (fun o s => Ticking.after 0 o (tickOnWait o s)) s).1,
        (p.runOn (fun o s => Ticking.after 0 o (tickOnWait o s)) s).2) := by
  refine Prog.steps_runOn (f := Ticking.after 0) (fun o s => ?_) (fun o s => ⟨0, rfl⟩) p s
  cases o with
  | getTimer base =>
      by_cases hzero : s.sinceHms = 0
      · have htick : tickOnWait (.getTimer base) s = s.tick gregorian := if_pos hzero
        rw [htick]
        exact .single rfl
      · have hstay : tickOnWait (.getTimer base) s = s := if_neg hzero
        rw [hstay]
  | readl r => exact .refl
  | writel r v => exact .refl
  | udelay usec => exact .refl
  | mutexTake => exact .refl
  | mutexRelease => exact .refl

/-- Noon on 31 May 2020. -/
def noon : DateTime := ⟨⟨2020, 4, 31⟩, 12, 0, 0⟩

/-- The last second of 31 May 2020. -/
def lastSecond : DateTime := ⟨⟨2020, 4, 31⟩, 23, 59, 59⟩

/-- A tick between the writes does no harm at noon. -/
theorem settime_ticks_noon :
    ∃ s' tm', Relation.ReflTransGen (Prog.Step access (ticks gregorian))
        (sun6iRtcSettime 1 (Tm.ofDateTime noon), ⟨⟨0, 0⟩, 0, 0⟩) (.ret (some (0, tm')), s') ∧
      s'.between = 1 ∧ s'.regs.Holds (DateTime.next^[s'.sinceHms] noon) := by
  have hrun := tickOnWait_run (sun6iRtcSettime 1 (Tm.ofDateTime noon)) ⟨⟨0, 0⟩, 0, 0⟩
  have hvalid : noon.Valid := ⟨by decide, by decide, by decide, by decide⟩
  refine ⟨_, _, hrun, rfl, ?_⟩
  exact (settime_ticks_iff gregorian hvalid (by decide) hrun).2 (by decide)

/-- A tick between the writes at midnight: the clock is a day late. -/
theorem settime_loses_midnight :
    ∃ s' tm', Relation.ReflTransGen (Prog.Step access (ticks gregorian))
        (sun6iRtcSettime 1 (Tm.ofDateTime lastSecond), ⟨⟨0, 0⟩, 0, 0⟩) (.ret (some (0, tm')), s') ∧
      s'.sinceHms = 1 ∧ s'.regs.Holds ⟨⟨2020, 4, 31⟩, 0, 0, 0⟩ ∧
      ¬ s'.regs.Holds (DateTime.next^[s'.sinceHms] lastSecond) := by
  have hrun := tickOnWait_run (sun6iRtcSettime 1 (Tm.ofDateTime lastSecond)) ⟨⟨0, 0⟩, 0, 0⟩
  refine ⟨_, _, hrun, rfl, ?_, fun hholds => absurd hholds.date.day (by decide)⟩
  exact ⟨⟨by decide, by decide, by decide, by decide⟩, ⟨by decide, by decide, by decide⟩,
    ⟨by decide, by decide, by decide⟩⟩

end Rtc

end BspV3s
