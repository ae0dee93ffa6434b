import BspV3s.Rtc.Codec

/-!
# RoundTrip — the driver on registers that hold still

Between ticks the date and time registers keep what is written to them, while the access bits and the
millisecond timer may answer anything.  `Answers` is one way for those to answer and `access` runs the
driver against it.  Setting and then reading returns the fields that were set, and reading any
registers at all tells a time from what is none.
-/

namespace BspV3s

namespace Rtc

open Calendar

/-! ## Hardware between ticks -/

/-- What the control register and the timer answer: `losc n i` is read number `i` of the control
register after `n` register writes, and `timer n i` the same for the timer. -/
structure Answers where
  losc : ℕ → ℕ → U32
  timer : ℕ → ℕ → U32

/-- The registers, and how many accesses of each kind have been made. -/
@[ext]
structure Still where
  regs : Regs
  writes : ℕ
  reads : ℕ
  checks : ℕ
  deriving DecidableEq, Repr

def Still.start (r : Regs) : Still := ⟨r, 0, 0, 0⟩

/-- After a write the answers of the next stretch begin. -/
def Still.write (s : Still) (r : Regs) : Still := ⟨r, s.writes + 1, 0, 0⟩

def Answers.access (b : Answers) : (o : Op) → Still → o.Ret × Still
  | .readl .loscCtrl, s => (b.losc s.writes s.reads, { s with reads := s.reads + 1 })
  | .readl .ymd, s => (s.regs.ymd, s)
  | .readl .hms, s => (s.regs.hms, s)
  | .writel .loscCtrl _, s => ((), s.write s.regs)
  | .writel .ymd v, s => ((), s.write { s.regs with ymd := v })
  | .writel .hms v, s => ((), s.write { s.regs with hms := v })
  | .getTimer _, s => (b.timer s.writes s.checks, { s with checks := s.checks + 1 })
  | .udelay _, s => ((), s)
  | .mutexTake, s => ((), s)
  | .mutexRelease, s => ((), s)

/-- After `n` writes the bits of `mask` are seen clear before the timer is seen to have run for
50 ms. -/
def Answers.Settles (b : Answers) (mask : U32) (n : ℕ) : Prop :=
  ∃ i, b.losc n i &&& mask = 0 ∧ ∀ j < i, b.timer n (j + 1) < 50

section Run

variable (b : Answers) (s : Still)

/-! ## Reading -/

/-- The registers agree with themselves at the first attempt. -/
theorem readClock_still (fuel : ℕ) :
    (readClock (fuel + 1)).runOn b.access s = (some (s.regs.ymd, s.regs.hms), s) := by
  have hrun : (readClock (fuel + 1)).runOn b.access s =
      Prog.runOn b.access (if s.regs.ymd ≠ s.regs.ymd then readClock fuel else do
        let time' ← readl .hms
        if s.regs.hms ≠ time' then readClock fuel
        else pure (some (s.regs.ymd, s.regs.hms))) s := rfl
  have hread : Prog.runOn b.access (do
        let time' ← readl .hms
        if s.regs.hms ≠ time' then readClock fuel
        else pure (some (s.regs.ymd, s.regs.hms))) s =
      Prog.runOn b.access (if s.regs.hms ≠ s.regs.hms then readClock fuel
        else pure (some (s.regs.ymd, s.regs.hms))) s := rfl
  rw [hrun, if_neg (not_not_intro rfl), hread, if_neg (not_not_intro rfl)]
  rfl

theorem sun6iRtcGettime_still (fuel : ℕ) :
    ∃ ret, (sun6iRtcGettime (fuel + 1)).runOn b.access s =
        (some (ret, decodeTm s.regs.ymd s.regs.hms), s) ∧
      (ret = 0 ↔ (decodeTm s.regs.ymd s.regs.hms).IsTime) := by
  rcases rtcValidTm_decodeTm s.regs with ⟨ret, hret, hiff⟩
  refine ⟨ret, ?_, hiff⟩
  unfold sun6iRtcGettime
  rw [Prog.runOn_bind, readClock_still]
  simp only [hret, Option.map_some]
  rfl

/-! ## Waiting -/

variable {b s}

theorem waitLoop_still {mask start : U32} {fuel i : ℕ} {o : Option ℤ} {s' : Still}
    (hreads : s.reads = i) (hchecks : s.checks = i + 1)
    (hbusy : ∀ j < i, b.losc s.writes j &&& mask ≠ 0)
    (hearly : ∀ j < i, b.timer s.writes (j + 1) < 50)
    (h : (waitLoop mask 50 start fuel).runOn b.access s = (o, s')) :
    s'.regs = s.regs ∧ s'.writes = s.writes ∧
      ∀ ret, o = some ret → (ret = 0 ↔ b.Settles mask s.writes) := by
  induction fuel generalizing s i with
  | zero =>
      cases h
      exact ⟨rfl, rfl, fun ret hret => nomatch hret⟩
  | succ fuel ih =>
      have hrun : (waitLoop mask 50 start (fuel + 1)).runOn b.access s =
          Prog.runOn b.access (if b.losc s.writes s.reads &&& mask = 0 then pure (some 0) else do
            udelay 10
            let t ← getTimer start
            if t < 50 then waitLoop mask 50 start fuel else pure (some (-ETIMEDOUT)))
            { s with reads := s.reads + 1 } := rfl
      rw [hrun] at h
      split at h
      · next hclear =>
          cases h
          rw [hreads] at hclear
          refine ⟨rfl, rfl, fun ret hret => ?_⟩
          cases hret
          exact iff_of_true rfl ⟨i, hclear, hearly⟩
      · next hset =>
          rw [hreads] at hset
          -- What is known of the first `i` rounds is known of one more.
          have hbusy' : ∀ j < i + 1, b.losc s.writes j &&& mask ≠ 0 := by
            intro j hj
            rcases Nat.lt_succ_iff_lt_or_eq.1 hj with hlt | rfl
            · exact hbusy j hlt
            · exact hset
          have hcheck : Prog.runOn b.access (do
                udelay 10
                let t ← getTimer start
                if t < 50 then waitLoop mask 50 start fuel else pure (some (-ETIMEDOUT)))
                { s with reads := s.reads + 1 } =
              Prog.runOn b.access (if b.timer s.writes s.checks < 50 then
                  waitLoop mask 50 start fuel else pure (some (-ETIMEDOUT)))
                { s with reads := s.reads + 1, checks := s.checks + 1 } := rfl
          rw [hcheck, hchecks] at h
          split at h
          · next hlt =>
              have hearly' : ∀ j < i + 1, b.timer s.writes (j + 1) < 50 := by
                intro j hj
                rcases Nat.lt_succ_iff_lt_or_eq.1 hj with hlt' | rfl
                · exact hearly j hlt'
                · exact hlt
              exact ih (s := ⟨s.regs, s.writes, s.reads + 1, i + 1 + 1⟩) (i := i + 1)
                (congrArg (· + 1) hreads) rfl hbusy' hearly' h
          · next hlate =>
              cases h
              refine ⟨rfl, rfl, fun ret hret => ?_⟩
              cases hret
              refine iff_of_false (by decide) ?_
              rintro ⟨k, hclear, hbefore⟩
              rcases Nat.lt_or_ge i k with hik | hki
              · exact hlate (hbefore i hik)
              · exact hbusy' k (by omega) hclear

/-- A wait that ends says whether the bits have cleared in time. -/
theorem sun6iRtcWait_still {mask : U32} {fuel : ℕ} {o : Option ℤ} {s' : Still}
    (hreads : s.reads = 0) (hchecks : s.checks = 0)
    (h : (sun6iRtcWait mask 50 fuel).runOn b.access s = (o, s')) :
    s'.regs = s.regs ∧ s'.writes = s.writes ∧
      ∀ ret, o = some ret → (ret = 0 ↔ b.Settles mask s.writes) := by
  have hrun : (sun6iRtcWait mask 50 fuel).runOn b.access s =
      (waitLoop mask 50 (b.timer s.writes s.checks) fuel).runOn b.access
        { s with checks := s.checks + 1 } := rfl
  rw [hrun] at h
  exact waitLoop_still (s := { s with checks := s.checks + 1 }) hreads
    (congrArg (· + 1) hchecks) (fun j hj => absurd hj (Nat.not_lt_zero j))
    (fun j hj => absurd hj (Nat.not_lt_zero j)) h

/-- A step that waits first: it fails there, or goes on with the registers as they were. -/
theorem whenReady_still {mask : U32} {err : ℤ} {fuel : ℕ} {rest : RtcM (Option ℤ)} {ret : ℤ}
    {s' : Still} (hreads : s.reads = 0) (hchecks : s.checks = 0)
    (h : (whenReady mask err fuel rest).runOn b.access s = (some ret, s')) :
    ∃ s₁ : Still, s₁.regs = s.regs ∧ s₁.writes = s.writes ∧
      (¬ b.Settles mask s.writes ∧ ret = err ∧ s' = s₁ ∨
        b.Settles mask s.writes ∧ rest.runOn b.access s₁ = (some ret, s')) := by
  obtain ⟨o, s₁, hwait⟩ : ∃ o s₁, (sun6iRtcWait mask 50 fuel).runOn b.access s = (o, s₁) :=
    ⟨_, _, rfl⟩
  rcases sun6iRtcWait_still hreads hchecks hwait with ⟨hregs, hwrites, hret⟩
  unfold whenReady at h
  rw [Prog.runOn_bind, hwait] at h
  refine ⟨s₁, hregs, hwrites, ?_⟩
  cases o with
  | none => cases h
  | some late =>
      have hsettles := hret late rfl
      simp only at h
      split at h
      · next hlate =>
          cases h
          exact .inl ⟨fun hs => hlate (hsettles.2 hs), rfl, rfl⟩
      · next hready => exact .inr ⟨hsettles.1 (not_not.1 hready), h⟩

/-- Bits that are clear end the wait at once. -/
theorem whenReady_clear {mask : U32} {err : ℤ} {rest : RtcM (Option ℤ)}
    (hclear : b.losc s.writes s.reads &&& mask = 0) (fuel : ℕ) :
    (whenReady mask err (fuel + 1) rest).runOn b.access s =
      rest.runOn b.access { s with reads := s.reads + 1, checks := s.checks + 1 } := by
  have hwait : (sun6iRtcWait mask 50 (fuel + 1)).runOn b.access s =
      (some 0, { s with reads := s.reads + 1, checks := s.checks + 1 }) := by
    have hrun : (sun6iRtcWait mask 50 (fuel + 1)).runOn b.access s =
        Prog.runOn b.access (if b.losc s.writes s.reads &&& mask = 0 then pure (some 0) else do
            udelay 10
            let t ← getTimer (b.timer s.writes s.checks)
            if t < 50 then waitLoop mask 50 (b.timer s.writes s.checks) fuel
            else pure (some (-ETIMEDOUT)))
          { s with reads := s.reads + 1, checks := s.checks + 1 } := rfl
    rw [hrun, if_pos hclear]
    rfl
  rw [whenReady, Prog.runOn_bind_of hwait]
  rfl

/-! ## Setting -/

/-- The ways for the two writes to end: waiting in vain before the first or the second write, or
making both. -/
inductive Written (b : Answers) (date time : U32) (r : Regs) : ℤ → Regs → Prop
  | busy (hacc : ¬ b.Settles LOSC_CTRL_ACC_MASK 0) : Written b date time r (-EBUSY) r
  | late (hacc : b.Settles LOSC_CTRL_ACC_MASK 0) (hhms : ¬ b.Settles LOSC_CTRL_RTC_HMS_ACC 1) :
      Written b date time r (-ETIMEDOUT) { r with hms := time }
  | both {ret : ℤ} (hacc : b.Settles LOSC_CTRL_ACC_MASK 0)
      (hhms : b.Settles LOSC_CTRL_RTC_HMS_ACC 1)
      (hymd : ret = 0 ↔ b.Settles LOSC_CTRL_RTC_YMD_ACC 2) : Written b date time r ret ⟨date, time⟩

theorem Written.regs_of_zero {date time : U32} {r r' : Regs} {ret : ℤ}
    (h : Written b date time r ret r') (hret : ret = 0) : r' = ⟨date, time⟩ := by
  cases h with
  | busy => exact absurd hret (by decide)
  | late => exact absurd hret (by decide)
  | both => rfl

theorem writeClock_still {date time : U32} {fuel : ℕ} {r : Regs} {ret : ℤ} {s' : Still}
    (h : (writeClock fuel date time).runOn b.access (.start r) = (some ret, s')) :
    Written b date time r ret s'.regs := by
  rcases whenReady_still rfl rfl h with ⟨s₁, hregs₁, hwrites₁, ⟨hbusy, rfl, rfl⟩ | ⟨hacc, h₁⟩⟩
  · rw [hregs₁]
    exact .busy hbusy
  · have hw₁ : s₁.writes = 0 := hwrites₁
    have hr₁ : s₁.regs = r := hregs₁
    have h₁' : Prog.runOn b.access (whenReady LOSC_CTRL_RTC_HMS_ACC (-ETIMEDOUT) fuel do
        writel .ymd date
        whenReady LOSC_CTRL_RTC_YMD_ACC (-ETIMEDOUT) fuel (pure (some 0)))
        (s₁.write { s₁.regs with hms := time }) = (some ret, s') := h₁
    rw [hr₁] at h₁'
    rcases whenReady_still rfl rfl h₁' with ⟨s₂, hregs₂, hwrites₂, ⟨hlate, rfl, rfl⟩ | ⟨hhms, h₂⟩⟩
    · rw [hregs₂]
      rw [Still.write, hw₁] at hlate
      exact .late hacc hlate
    · have hw₂ : s₂.writes = 1 := by rw [hwrites₂, Still.write, hw₁]
      have hr₂ : s₂.regs = { r with hms := time } := hregs₂
      have h₂' : Prog.runOn b.access
          (whenReady LOSC_CTRL_RTC_YMD_ACC (-ETIMEDOUT) fuel (pure (some 0)))
          (s₂.write { s₂.regs with ymd := date }) = (some ret, s') := h₂
      rw [hr₂] at h₂'
      rw [Still.write, hw₁] at hhms
      have hwrite₂ : (s₂.write ⟨date, time⟩).writes = 2 := by rw [Still.write, hw₂]
      rcases whenReady_still rfl rfl h₂' with ⟨s₃, hregs₃, -, ⟨hlate, rfl, rfl⟩ | ⟨hymd, h₃⟩⟩
      · rw [hregs₃]
        rw [hwrite₂] at hlate
        exact .both hacc hhms (iff_of_false (by decide) hlate)
      · cases h₃
        rw [hwrite₂] at hymd
        rw [hregs₃]
        exact .both hacc hhms (iff_of_true rfl hymd)

/-- The years that `sun6i_rtc_settime` takes. -/
def Tm.InYears (tm : Tm) : Prop :=
  YEAR_MIN ≤ tm.year + 1900 ∧ tm.year + 1900 ≤ YEAR_MAX

instance (tm : Tm) : Decidable tm.InYears :=
  inferInstanceAs (Decidable (_ ∧ _))

theorem sun6iRtcSettime_still {tm tm' : Tm} {fuel : ℕ} {r : Regs} {ret : ℤ} {s' : Still}
    (h : (sun6iRtcSettime fuel tm).runOn b.access (.start r) = (some (ret, tm'), s')) :
    ¬ tm.InYears ∧ ret = -EINVAL ∧ s'.regs = r ∨
      tm.InYears ∧ Written b (encodeDate tm.rebase (tm.year + 1900)) (encodeTime tm.rebase) r ret
        s'.regs := by
  unfold sun6iRtcSettime at h
  simp only at h
  split at h
  · next hyear =>
      cases h
      refine .inl ⟨?_, rfl, rfl⟩
      unfold Tm.InYears
      omega
  · next hyear =>
      refine .inr ⟨by unfold Tm.InYears; omega, ?_⟩
      change Prog.runOn b.access (writeClock fuel (encodeDate tm.rebase (tm.year + 1900))
        (encodeTime tm.rebase) >>= fun ret =>
          pure (ret.map fun ret => (ret, tm.rebase))) _ = _ at h
      rw [Prog.runOn_bind] at h
      obtain ⟨o, s₁, hwrite⟩ : ∃ o s₁, (writeClock fuel (encodeDate tm.rebase (tm.year + 1900))
          (encodeTime tm.rebase)).runOn b.access (.start r) = (o, s₁) := ⟨_, _, rfl⟩
      rw [hwrite] at h
      cases o with
      | none => cases h
      | some ret' =>
          cases h
          exact writeClock_still hwrite

/-- With the access bits clear the writes are made at once. -/
theorem sun6iRtcSettime_idle {tm : Tm} (hy : tm.InYears)
    (hidle : ∀ n i, b.losc n i &&& LOSC_CTRL_ACC_MASK = 0) (fuel : ℕ) (r : Regs) :
    ((sun6iRtcSettime (fuel + 1) tm).runOn b.access (.start r)).1 = some (0, tm.rebase) := by
  have hclear : ∀ mask, LOSC_CTRL_ACC_MASK &&& mask = mask → ∀ n i, b.losc n i &&& mask = 0 := by
    intro mask hmask n i
    rw [← hmask, ← BitVec.and_assoc, hidle n i]
    exact BitVec.zero_and
  have hyear : ¬ (tm.year + 1900 < YEAR_MIN ∨ tm.year + 1900 > YEAR_MAX) := by
    unfold Tm.InYears at hy
    omega
  have hwrite : ∀ date time,
      ((writeClock (fuel + 1) date time).runOn b.access (.start r)).1 = some 0 := by
    intro date time
    unfold writeClock
    rw [whenReady_clear (hidle _ _)]
    change (Prog.runOn b.access (whenReady LOSC_CTRL_RTC_HMS_ACC (-ETIMEDOUT) (fuel + 1) _)
      (Still.write _ _)).1 = _
    rw [whenReady_clear (hclear _ (by decide) _ _)]
    change (Prog.runOn b.access (whenReady LOSC_CTRL_RTC_YMD_ACC (-ETIMEDOUT) (fuel + 1) _)
      (Still.write _ _)).1 = _
    rw [whenReady_clear (hclear _ (by decide) _ _)]
    rfl
  unfold sun6iRtcSettime
  simp only [if_neg hyear]
  rw [Prog.runOn_bind, hwrite]
  rfl

/-! ## The codec -/

theorem ofDateTime_inYears_iff {t : DateTime} : (Tm.ofDateTime t).InYears ↔ InYears t.date := by
  simp only [Tm.InYears, InYears, Tm.ofDateTime, YEAR_MIN, YEAR_MAX]
  omega

/-- What `sun6i_rtc_settime` writes for a time stands for that time. -/
theorem holds_encode {t : DateTime} (h : t.Valid) (hy : InYears t.date) :
    (Regs.mk (encodeDate (Tm.ofDateTime t).rebase ((Tm.ofDateTime t).year + 1900))
      (encodeTime (Tm.ofDateTime t).rebase)).Holds t := by
  have hyear : (Tm.ofDateTime t).year + 1900 = t.date.year := by
    simp only [Tm.ofDateTime]
    omega
  rw [hyear]
  exact ⟨h, encodeDate_held h hy, encodeTime_held h⟩

/-- Setting a time and reading it back, and reading any two register words. -/
theorem settime_gettime (b : Answers) (r : Regs) (fuel fuel' : ℕ) {tm : Tm} (htime : tm.IsTime)
    (hy : 1970 ≤ tm.year + 1900 ∧ tm.year + 1900 ≤ 2033) :
    ((∀ n i, b.losc n i &&& LOSC_CTRL_ACC_MASK = 0) →
        ∃ tm', ((sun6iRtcSettime (fuel + 1) tm).runOn b.access (.start r)).1 = some (0, tm')) ∧
      (∀ tm' s', (sun6iRtcSettime fuel tm).runOn b.access (.start r) = (some (0, tm'), s') →
        (leapGetValue s'.regs.ymd = 1 ↔ isLeap (tm.year + 1900) = true) ∧
          ((sun6iRtcGettime (fuel' + 1)).runOn b.access s').1 = some (0, tm)) ∧
      ∃ ret, ((sun6iRtcGettime (fuel' + 1)).runOn b.access (.start r)).1 =
          some (ret, decodeTm r.ymd r.hms) ∧
        (ret = 0 ↔ (decodeTm r.ymd r.hms).IsTime) := by
  refine ⟨fun hidle => ⟨_, sun6iRtcSettime_idle hy hidle fuel r⟩, ?_, ?_⟩
  · intro tm' s' hset
    rcases htime with ⟨t, hvalid, rfl⟩
    have hyears : InYears t.date := ofDateTime_inYears_iff.1 hy
    have hyear : (Tm.ofDateTime t).year + 1900 = t.date.year := by
      simp only [Tm.ofDateTime]
      omega
    -- A call that returns 0 has written the encoded time.
    have hregs : s'.regs = ⟨encodeDate (Tm.ofDateTime t).rebase ((Tm.ofDateTime t).year + 1900),
        encodeTime (Tm.ofDateTime t).rebase⟩ := by
      rcases sun6iRtcSettime_still hset with ⟨-, hret, -⟩ | ⟨-, hwritten⟩
      · exact absurd hret (by decide)
      · exact hwritten.regs_of_zero rfl
    have hholds : s'.regs.Holds t := by
      rw [hregs]
      exact holds_encode hvalid hyears
    refine ⟨?_, ?_⟩
    · rw [hregs, hyear]
      exact leapGetValue_encodeDate hyears
    · rcases sun6iRtcGettime_still b s' fuel' with ⟨ret, hget, hiff⟩
      -- What has been written is accepted when it is read.
      have hzero : ret = 0 := by
        rw [hiff, hholds.decodeTm]
        exact ⟨t, hvalid, rfl⟩
      rw [hget, hzero, hholds.decodeTm]
  · rcases sun6iRtcGettime_still b (.start r) fuel' with ⟨ret, hget, hiff⟩
    exact ⟨ret, congrArg Prod.fst hget, hiff⟩

/-- The access bits stay clear and the clock is set to 12:34:56 on 29 February 2000. -/
theorem settime_gettime_leapDay :
    ((sun6iRtcGettime 1).runOn (Answers.access ⟨fun _ _ => 0, fun _ _ => 0⟩)
        ((sun6iRtcSettime 1 ⟨56, 34, 12, 29, 1, 100⟩).runOn
          (Answers.access ⟨fun _ _ => 0, fun _ _ => 0⟩) (.start ⟨0, 0⟩)).2).1 =
      some (0, ⟨56, 34, 12, 29, 1, 100⟩) := by
  have htime : (Tm.mk 56 34 12 29 1 100).IsTime :=
    ⟨⟨⟨2000, 1, 29⟩, 12, 34, 56⟩, ⟨by decide, by decide, by decide, by decide⟩, rfl⟩
  have hrun := settime_gettime ⟨fun _ _ => 0, fun _ _ => 0⟩ ⟨0, 0⟩ 0 0 htime (by decide)
  have hset := (settime_gettime ⟨fun _ _ => 0, fun _ _ => 0⟩ ⟨0, 0⟩ 1 0 htime (by decide)).2.1
  rcases hrun.1 (fun _ _ => BitVec.zero_and) with ⟨tm', htm'⟩
  exact (hset tm' _ (Prod.ext htm' rfl)).2

end Run

end Rtc

end BspV3s
