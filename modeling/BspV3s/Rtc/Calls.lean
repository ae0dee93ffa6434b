import Mathlib.Order.Defs.Unbundled
import BspV3s.Rtc.Ticks

/-!
# Calls — one call of the driver while the clock ticks

Any number of ticks pass before each access.  `sun6i_rtc_gettime` reads the time between two reads of
the date, and a date that does not go back has stood still between two equal reads, so the pair that
it returns was held when the time was read.  `sun6i_rtc_settime` gives up at four places, and what the
registers hold then depends on how many of the two writes have been made, and on whether the last of them
has been finished, which the access bits tell and a timeout leaves open.

* `gettime_not_torn`     : the pair that is decoded was held by both registers at one instant;
* `settime_exits`        : where the registers and the writes stand at each way out;
* `settime_mixes`        : a timeout after the second write.
-/

namespace BspV3s

namespace Rtc

/-! ## Ticks before every access -/

/-- The registers, and the ticks so far. -/
structure Instant where
  regs : Regs
  ticks : ℕ
  deriving DecidableEq, Repr

variable {tick : Regs → Regs}

/-- `n` ticks later. -/
def Instant.pass (tick : Regs → Regs) (n : ℕ) (s : Instant) : Instant :=
  ⟨tick^[n] s.regs, s.ticks + n⟩

/-- An access; `v` is the answer of the control register or the timer. -/
def Instant.after (v : U32) : (o : Op) → Instant → o.Ret × Instant
  | .readl .loscCtrl, s => (v, s)
  | .readl .ymd, s => (s.regs.ymd, s)
  | .readl .hms, s => (s.regs.hms, s)
  | .writel .loscCtrl _, s => ((), s)
  | .writel .ymd w, s => ((), { s with regs := { s.regs with ymd := w } })
  | .writel .hms w, s => ((), { s with regs := { s.regs with hms := w } })
  | .getTimer _, s => (v, s)
  | .udelay _, s => ((), s)
  | .mutexTake, s => ((), s)
  | .mutexRelease, s => ((), s)

/-- Any number of ticks, and then the access with any answer. -/
def passing (tick : Regs → Regs) : Prog.Sem Op Op.Ret Instant :=
  fun o s r s' => ∃ n v, (r, s') = (s.pass tick n).after v o

/-- Nothing but ticks between two instants. -/
def Passed (tick : Regs → Regs) (s s' : Instant) : Prop :=
  ∃ n, s' = s.pass tick n

@[simp] theorem Instant.pass_zero (tick : Regs → Regs) (s : Instant) : s.pass tick 0 = s := rfl

theorem Instant.pass_pass (tick : Regs → Regs) (m n : ℕ) (s : Instant) :
    (s.pass tick m).pass tick n = s.pass tick (m + n) := by
  unfold Instant.pass
  rw [Nat.add_comm m n, Function.iterate_add_apply, Nat.add_assoc, Nat.add_comm m n]

theorem Passed.refl (s : Instant) : Passed tick s s :=
  ⟨0, rfl⟩

theorem Passed.trans {s s' s'' : Instant} (h : Passed tick s s') (h' : Passed tick s' s'') :
    Passed tick s s'' := by
  rcases h with ⟨m, rfl⟩
  rcases h' with ⟨n, rfl⟩
  exact ⟨m + n, s.pass_pass tick m n⟩

theorem Op.Quiet.afterInstant {o : Op} (h : o.Quiet) (v : U32) (s : Instant) :
    (s.after v o).2 = s := by
  cases o with
  | readl r => cases r <;> rfl
  | writel r w => exact absurd rfl (h r w)
  | getTimer base => rfl
  | udelay usec => rfl
  | mutexTake => rfl
  | mutexRelease => rfl

/-- A routine that stores nothing lets the clock tick. -/
theorem passed_of_quiet {α : Type} {p : RtcM α} (hp : Prog.Only Op.Quiet p) {s s' : Instant} {a : α}
    (h : Prog.Runs (passing tick) p s a s') : Passed tick s s' := by
  have hwp : Prog.wp (passing tick) Prog.still (fun _ _ _ _ => True) p
      (fun _ => Passed tick s) s := by
    refine Prog.Only.wp hp (fun _ => Prog.stable_still) ?_ (.refl s)
    rintro o t r t' hquiet ht ⟨n, v, heq⟩
    have ht' : t' = t.pass tick n := (congrArg Prod.snd heq).trans (hquiet.afterInstant v _)
    exact ⟨trivial, ht.trans ⟨n, ht'⟩⟩
  have hpassed := Prog.wp_runs hwp h
  exact hpassed

/-! ## Reading -/

/-- Ticks, and then the access: what it answers and leaves. -/
theorem runs_call {α : Type} {o : Op} {k : o.Ret → RtcM α} {s s' : Instant} {a : α}
    (h : Prog.Runs (passing tick) (.call o k) s a s') :
    ∃ n v, Prog.Runs (passing tick) (k ((s.pass tick n).after v o).1)
      ((s.pass tick n).after v o).2 a s' := by
  cases h with
  | call hsem hrest =>
      rcases hsem with ⟨n, v, heq⟩
      refine ⟨n, v, ?_⟩
      rw [← heq]
      exact hrest

theorem runs_readl_ymd {α : Type} {f : U32 → RtcM α} {s s' : Instant} {a : α}
    (h : Prog.Runs (passing tick) (readl .ymd >>= f) s a s') :
    ∃ n, Prog.Runs (passing tick) (f (s.pass tick n).regs.ymd) (s.pass tick n) a s' := by
  rcases @runs_call tick α (.readl .ymd) f s s' a h with ⟨n, _, hrest⟩
  exact ⟨n, hrest⟩

theorem runs_readl_hms {α : Type} {f : U32 → RtcM α} {s s' : Instant} {a : α}
    (h : Prog.Runs (passing tick) (readl .hms >>= f) s a s') :
    ∃ n, Prog.Runs (passing tick) (f (s.pass tick n).regs.hms) (s.pass tick n) a s' := by
  rcases @runs_call tick α (.readl .hms) f s s' a h with ⟨n, _, hrest⟩
  exact ⟨n, hrest⟩

/-- Up to tick `m`, no tick takes the date back; `earlier` is the order in which the words of the date
register count. -/
def Advancing (earlier : U32 → U32 → Prop) (tick : Regs → Regs) (r : Regs) (m : ℕ) : Prop :=
  ∀ n < m, (tick^[n + 1] r).ymd = (tick^[n] r).ymd ∨
    earlier (tick^[n] r).ymd (tick^[n + 1] r).ymd

namespace Advancing

variable {earlier : U32 → U32 → Prop} {r : Regs} {i j m n : ℕ}

theorem mono (h : Advancing earlier tick r n) (hmn : m ≤ n) : Advancing earlier tick r m :=
  fun k hk => h k (lt_of_lt_of_le hk hmn)

/-- What is left of the ticks after the first `m`. -/
theorem later (h : Advancing earlier tick r (m + n)) : Advancing earlier tick (tick^[m] r) n := by
  intro k hk
  have hstep := h (m + k) (Nat.add_lt_add_left hk m)
  rw [← Function.iterate_add_apply, ← Function.iterate_add_apply, Nat.add_right_comm,
    Nat.add_comm k m]
  exact hstep

variable [IsStrictOrder U32 earlier]

theorem le (h : Advancing earlier tick r m) (hij : i ≤ j) (hjm : j ≤ m) :
    (tick^[j] r).ymd = (tick^[i] r).ymd ∨ earlier (tick^[i] r).ymd (tick^[j] r).ymd := by
  induction j, hij using Nat.le_induction with
  | base => exact .inl rfl
  | succ j hij ih =>
      rcases ih (Nat.le_of_succ_le hjm) with hsame | hless <;> rcases h j hjm with hsame' | hless'
      · exact .inl (hsame'.trans hsame)
      · exact .inr (hsame ▸ hless')
      · exact .inr (hsame' ▸ hless)
      · exact .inr (trans_of earlier hless hless')

/-- A date that is the same twice has been the same in between. -/
theorem between (h : Advancing earlier tick r m) (hij : i ≤ j) (hjm : j ≤ m)
    (hsame : (tick^[m] r).ymd = (tick^[i] r).ymd) : (tick^[j] r).ymd = (tick^[i] r).ymd := by
  rcases h.le hij hjm with heq | hless
  · exact heq
  · have hback : earlier (tick^[i] r).ymd (tick^[i] r).ymd := by
      rcases h.le hjm (le_refl m) with heq' | hless'
      · rwa [← heq', hsame] at hless
      · exact trans_of earlier hless (hsame ▸ hless')
    exact absurd hback (irrefl _)

end Advancing

/-- The pair that the loop agrees on was held when the time was read. -/
theorem readClock_held {earlier : U32 → U32 → Prop} [IsStrictOrder U32 earlier] {fuel : ℕ}
    {s s' : Instant} {date time : U32}
    (hrun : Prog.Runs (passing tick) (readClock fuel) s (some (date, time)) s')
    (hclock : ∀ m, s' = s.pass tick m → Advancing earlier tick s.regs m) :
    ∃ n m, n ≤ m ∧ s' = s.pass tick m ∧ tick^[n] s.regs = ⟨date, time⟩ := by
  induction fuel generalizing s with
  | zero =>
      have hnone : Prog.Runs (passing tick) (.ret none) s (some (date, time)) s' := hrun
      cases hnone
  | succ fuel ih =>
      -- The loop after `n` ticks, if it goes around once more.
      have hagain : ∀ n, Prog.Runs (passing tick) (readClock fuel) (s.pass tick n)
          (some (date, time)) s' →
          ∃ n m, n ≤ m ∧ s' = s.pass tick m ∧ tick^[n] s.regs = ⟨date, time⟩ := by
        intro n hrest
        have hlater : ∀ m, s' = (s.pass tick n).pass tick m →
            Advancing earlier tick (s.pass tick n).regs m := by
          intro m hm
          rw [Instant.pass_pass] at hm
          exact (hclock (n + m) hm).later
        rcases ih hrest hlater with ⟨i, m, him, hs', hheld⟩
        rw [Instant.pass_pass] at hs'
        refine ⟨i + n, n + m, by omega, hs', ?_⟩
        rw [Function.iterate_add_apply]
        exact hheld
      rcases runs_readl_ymd hrun with ⟨n₁, h₁⟩
      rcases runs_readl_hms h₁ with ⟨n₂, h₂⟩
      rcases runs_readl_ymd h₂ with ⟨n₃, h₃⟩
      simp only [Instant.pass_pass] at h₃
      split at h₃
      · exact hagain _ h₃
      · next hdate =>
          have hdate := Decidable.of_not_not hdate
          rcases runs_readl_hms h₃ with ⟨n₄, h₄⟩
          simp only [Instant.pass_pass] at h₄
          split at h₄
          · exact hagain _ h₄
          · cases h₄
            refine ⟨n₁ + n₂, n₁ + n₂ + n₃ + n₄, by omega, rfl, ?_⟩
            -- The date was the same when the time was read.
            have hup : Advancing earlier tick s.regs (n₁ + n₂ + n₃) :=
              (hclock _ rfl).mono (Nat.le_add_right _ n₄)
            have hsame := hup.between (Nat.le_add_right n₁ n₂) (Nat.le_add_right _ n₃) hdate.symm
            exact congrArg (Regs.mk · (tick^[n₁ + n₂] s.regs).hms) hsame

/-- No reading is torn.  Whatever ticks fall between the reads and however often the loop goes around,
as long as the date does not go back during the call, both registers held the pair that is decoded at
one instant of the call. -/
theorem gettime_not_torn {earlier : U32 → U32 → Prop} [IsStrictOrder U32 earlier] {fuel : ℕ}
    {s s' : Instant} {ret : ℤ} {tm : Tm}
    (hrun : Prog.Runs (passing tick) (sun6iRtcGettime fuel) s (some (ret, tm)) s')
    (hclock : Advancing earlier tick s.regs (s'.ticks - s.ticks)) :
    ∃ n date time, s.ticks + n ≤ s'.ticks ∧ tick^[n] s.regs = ⟨date, time⟩ ∧
      tm = decodeTm date time ∧ rtcValidTm tm = some ret := by
  rcases Prog.runs_bind_inv hrun with ⟨o, s₁, hread, hrest⟩
  cases o with
  | none =>
      have hnone : Prog.Runs (passing tick) (.ret none) s₁ (some (ret, tm)) s' := hrest
      cases hnone
  | some pair =>
      rcases pair with ⟨date, time⟩
      have hdecode : Prog.Runs (passing tick)
          (.ret ((rtcValidTm (decodeTm date time)).map fun ret => (ret, decodeTm date time))) s₁
          (some (ret, tm)) s' := hrest
      generalize hvalue : (rtcValidTm (decodeTm date time)).map
        (fun ret => (ret, decodeTm date time)) = value at hdecode
      cases hdecode
      rcases Option.map_eq_some_iff.1 hvalue with ⟨ret', hvalid, hpair⟩
      cases hpair
      -- The clock moves only while the registers are read.
      have hticks : ∀ m, s' = s.pass tick m → Advancing earlier tick s.regs m := by
        rintro m rfl
        rwa [Instant.pass, Nat.add_sub_cancel_left] at hclock
      rcases readClock_held hread hticks with ⟨n, m, hnm, hs', hheld⟩
      refine ⟨n, date, time, ?_, hheld, rfl, hvalid⟩
      rw [hs']
      exact Nat.add_le_add_left hnm s.ticks

/-- The words of the date register as numbers, which orders the days of a year. -/
def wordBefore (v w : U32) : Prop := v.toNat < w.toNat

instance instStrictWordBefore : IsStrictOrder U32 wordBefore where
  irrefl v := Nat.lt_irrefl v.toNat
  trans _ _ _ := Nat.lt_trans

/-- One tick, before the first read of the time. -/
def tickOnTime (o : Op) (s : Instant) : o.Ret × Instant :=
  (s.pass gregorianTick (if s.ticks = 0 ∧ o = .readl .hms then 1 else 0)).after 0 o

/-- The registers at the last second of 31 May 2020. -/
def lastSecondRegs : Regs where
  ymd := encodeDate (Tm.ofDateTime lastSecond).rebase 2020
  hms := encodeTime (Tm.ofDateTime lastSecond).rebase

/-- Midnight falls between the first reads of the date and of the time. -/
theorem gettime_not_torn_midnight :
    ∃ s' ret tm, Prog.Runs (passing gregorianTick) (sun6iRtcGettime 2) ⟨lastSecondRegs, 0⟩
        (some (ret, tm)) s' ∧ s'.ticks = 1 ∧
      ∃ n date time, 0 + n ≤ s'.ticks ∧ gregorianTick^[n] lastSecondRegs = ⟨date, time⟩ ∧
        tm = decodeTm date time ∧ rtcValidTm tm = some ret := by
  have hsem : ∀ o s, passing gregorianTick o s (tickOnTime o s).1 (tickOnTime o s).2 :=
    fun o s => ⟨_, 0, rfl⟩
  have hrun := Prog.runs_runOn hsem (sun6iRtcGettime 2) ⟨lastSecondRegs, 0⟩
  have hresult : (sun6iRtcGettime 2).runOn tickOnTime ⟨lastSecondRegs, 0⟩ =
      (some (0, ⟨0, 0, 0, 1, 5, 120⟩), ⟨gregorianTick lastSecondRegs, 1⟩) := by decide
  rw [hresult] at hrun
  have hclock : Advancing wordBefore gregorianTick lastSecondRegs 1 := by
    intro n hn
    have hzero : n = 0 := Nat.lt_one_iff.1 hn
    subst hzero
    right
    unfold wordBefore
    decide
  exact ⟨_, _, _, hrun, rfl, gettime_not_torn hrun hclock⟩

/-! ## Setting -/

/-- The instant after a write. -/
def Instant.write (r : Reg) (v : U32) (s : Instant) : Instant :=
  (s.after 0 (.writel r v)).2

/-- A write takes a while: the words that have been handed over and are not in their registers yet. -/
structure Handed where
  now : Instant
  hms : Option U32
  ymd : Option U32
  deriving DecidableEq, Repr

namespace Handed

/-- Nothing is being written. -/
def idle (s : Instant) : Handed := ⟨s, none, none⟩

def after (v : U32) : (o : Op) → Handed → o.Ret × Handed
  | .writel .hms w, s => ((), { s with hms := some w })
  | .writel .ymd w, s => ((), { s with ymd := some w })
  | o, s => ((s.now.after v o).1, s)

/-- An access bit stays set until its write is finished. -/
def Admits (v : U32) (s : Handed) : Prop :=
  (v &&& LOSC_CTRL_RTC_HMS_ACC = 0 → s.hms = none) ∧ (v &&& LOSC_CTRL_RTC_YMD_ACC = 0 → s.ymd = none)

end Handed

/-- What the clock does by itself: it ticks, and it finishes writes. -/
inductive Moves (tick : Regs → Regs) : Handed → Handed → Prop
  | pass (s : Handed) : Moves tick s { s with now := s.now.pass tick 1 }
  | hms {s : Handed} {w : U32} (h : s.hms = some w) :
      Moves tick s { s with now := s.now.write .hms w, hms := none }
  | ymd {s : Handed} {w : U32} (h : s.ymd = some w) :
      Moves tick s { s with now := s.now.write .ymd w, ymd := none }

/-- Nothing but that between two states. -/
abbrev Waits (tick : Regs → Regs) : Handed → Handed → Prop := Relation.ReflTransGen (Moves tick)

/-- The clock goes on for any time, and then comes the access.  The control register and the timer
answer anything, but no access bit is clear too early. -/
def handing (tick : Regs → Regs) : Prog.Sem Op Op.Ret Handed :=
  fun o s r s' => ∃ s₁ v, Waits tick s s₁ ∧ (o = .readl .loscCtrl → s₁.Admits v) ∧ (r, s') = s₁.after v o

theorem Op.Quiet.afterHanded {o : Op} (h : o.Quiet) (v : U32) (s : Handed) : (s.after v o).2 = s := by
  cases o with
  | readl r => rfl
  | writel r w => exact absurd rfl (h r w)
  | getTimer base => rfl
  | udelay usec => rfl
  | mutexTake => rfl
  | mutexRelease => rfl

/-- While a routine hands over nothing, the clock goes on by itself. -/
theorem waits_of_quiet {α : Type} {p : RtcM α} {s s' : Handed} {a : α} (hp : Prog.Only Op.Quiet p)
    (h : Prog.Runs (handing tick) p s a s') : Waits tick s s' := by
  induction h with
  | ret => exact .refl
  | call hsem _ ih =>
      rcases Prog.only_call_iff.1 hp with ⟨hquiet, hrest⟩
      rcases hsem with ⟨s₁, v, hwaits, -, heq⟩
      obtain rfl := (congrArg Prod.snd heq).trans (hquiet.afterHanded v s₁)
      exact hwaits.trans (ih (hrest _))

theorem runs_handing {α : Type} {o : Op} {f : o.Ret → RtcM α} {s s' : Handed} {a : α}
    (h : Prog.Runs (handing tick) (Prog.op o >>= f) s a s') :
    ∃ s₁ v, Waits tick s s₁ ∧ (o = .readl .loscCtrl → s₁.Admits v) ∧
      Prog.Runs (handing tick) (f (s₁.after v o).1) (s₁.after v o).2 a s' := by
  cases h with
  | call hsem hrest =>
      rcases hsem with ⟨s₁, v, hwaits, hadmits, heq⟩
      refine ⟨s₁, v, hwaits, hadmits, ?_⟩
      rw [← heq]
      exact hrest

/-- A wait that ends well has seen the bits clear. -/
theorem waitLoop_clear {mask msTimeout start : U32} {fuel : ℕ} {s s' : Handed}
    (h : Prog.Runs (handing tick) (waitLoop mask msTimeout start fuel) s (some 0) s') :
    ∃ v, v &&& mask = 0 ∧ s'.Admits v := by
  induction fuel generalizing s with
  | zero =>
      have hnone : Prog.Runs (handing tick) (.ret none) s (some (0 : ℤ)) s' := h
      cases hnone
  | succ fuel ih =>
      rcases runs_handing h with ⟨s₁, v, -, hadmits, h₁⟩
      change Prog.Runs (handing tick) (if v &&& mask = 0 then pure (some 0) else _) s₁ _ s' at h₁
      split at h₁
      · next hclear =>
          cases h₁
          exact ⟨v, hclear, hadmits rfl⟩
      · rcases runs_handing h₁ with ⟨s₂, _, -, -, h₂⟩
        rcases runs_handing h₂ with ⟨s₃, t, -, -, h₃⟩
        change Prog.Runs (handing tick) (if t < msTimeout then _ else pure (some (-ETIMEDOUT))) s₃ _ s'
          at h₃
        split at h₃
        · exact ih h₃
        · generalize hlate : -ETIMEDOUT = late at h₃
          cases h₃
          exact absurd hlate (by decide)

/-- A step that waits first gives up there, or goes on with the bits seen clear. -/
theorem runs_whenReady {mask : U32} {err ret : ℤ} {fuel : ℕ} {rest : RtcM (Option ℤ)}
    {s s' : Handed} (h : Prog.Runs (handing tick) (whenReady mask err fuel rest) s (some ret) s') :
    ∃ s₁, Waits tick s s₁ ∧
      (ret = err ∧ s' = s₁ ∨
        (∃ v, v &&& mask = 0 ∧ s₁.Admits v) ∧ Prog.Runs (handing tick) rest s₁ (some ret) s') := by
  rcases Prog.runs_bind_inv h with ⟨o, s₁, hwait, hrest⟩
  refine ⟨s₁, waits_of_quiet (sun6iRtcWait_quiet mask 50 fuel) hwait, ?_⟩
  cases o with
  | none =>
      have hnone : Prog.Runs (handing tick) (.ret none) s₁ (some ret) s' := hrest
      cases hnone
  | some late =>
      simp only at hrest
      split at hrest
      · cases hrest
        exact .inl ⟨rfl, rfl⟩
      · next hzero =>
          obtain rfl := Decidable.of_not_not hzero
          rcases runs_handing hwait with ⟨_, _, -, -, hloop⟩
          exact .inr ⟨waitLoop_clear hloop, hrest⟩

/-! ## What has been handed over -/

section Writes

variable {i : Instant} {s s' : Handed} {w : U32}

/-- With nothing to finish the clock only ticks. -/
theorem waits_idle (h : Waits tick (.idle i) s') : ∃ n, s' = .idle (i.pass tick n) := by
  induction h with
  | refl => exact ⟨0, rfl⟩
  | tail _ hmove ih =>
      rcases ih with ⟨n, rfl⟩
      cases hmove with
      | pass => exact ⟨n + 1, congrArg Handed.idle (i.pass_pass tick n 1)⟩
      | hms h => cases h
      | ymd h => cases h

/-- A word that has been handed over is finished after some ticks, or not yet. -/
theorem waits_one {p : Instant → Handed} {r : Reg}
    (hmoves : ∀ {i t}, Moves tick (p i) t → t = p (i.pass tick 1) ∨ t = .idle (i.write r w))
    (h : Waits tick (p i) s') :
    (∃ n, s' = p (i.pass tick n)) ∨
      ∃ m n, s' = .idle (((i.pass tick m).write r w).pass tick n) := by
  induction h with
  | refl => exact .inl ⟨0, rfl⟩
  | tail _ hmove ih =>
      rcases ih with ⟨n, rfl⟩ | ⟨m, n, rfl⟩
      · rcases hmoves hmove with rfl | rfl
        · exact .inl ⟨n + 1, congrArg p (i.pass_pass tick n 1)⟩
        · exact .inr ⟨n, 0, rfl⟩
      · rcases waits_idle (.single hmove) with ⟨k, rfl⟩
        exact .inr ⟨m, n + k, congrArg Handed.idle (Instant.pass_pass ..)⟩

theorem waits_hms (h : Waits tick ⟨i, some w, none⟩ s') :
    (∃ n, s' = ⟨i.pass tick n, some w, none⟩) ∨
      ∃ m n, s' = .idle (((i.pass tick m).write .hms w).pass tick n) := by
  refine waits_one (p := fun i => ⟨i, some w, none⟩) (fun hmove => ?_) h
  cases hmove with
  | pass => exact .inl rfl
  | hms h =>
      cases h
      exact .inr rfl
  | ymd h => cases h

theorem waits_ymd (h : Waits tick ⟨i, none, some w⟩ s') :
    (∃ n, s' = ⟨i.pass tick n, none, some w⟩) ∨
      ∃ m n, s' = .idle (((i.pass tick m).write .ymd w).pass tick n) := by
  refine waits_one (p := fun i => ⟨i, none, some w⟩) (fun hmove => ?_) h
  cases hmove with
  | pass => exact .inl rfl
  | hms h => cases h
  | ymd h =>
      cases h
      exact .inr rfl

end Writes

/-- The ways out of `sun6i_rtc_settime`.  Before it hands over anything it waits until nothing is being
written, at the instant `i`. -/
inductive Exit (tick : Regs → Regs) (date time : U32) (s : Handed) : ℤ → Handed → Prop
  | untouched {ret : ℤ} {s' : Handed} (hret : ret = -EINVAL ∨ ret = -EBUSY) (hs' : Waits tick s s') :
      Exit tick date time s ret s'
  | timeOpen {i : Instant} (hi : Waits tick s (.idle i)) (n : ℕ) :
      Exit tick date time s (-ETIMEDOUT) ⟨i.pass tick n, some time, none⟩
  | timeIn {i : Instant} (hi : Waits tick s (.idle i)) (n : ℕ) :
      Exit tick date time s (-ETIMEDOUT) (.idle ((i.write .hms time).pass tick n))
  | dateOpen {i : Instant} (hi : Waits tick s (.idle i)) (n : ℕ) :
      Exit tick date time s (-ETIMEDOUT) ⟨(i.write .hms time).pass tick n, none, some date⟩
  | dateIn {ret : ℤ} (hret : ret = -ETIMEDOUT ∨ ret = 0) {i : Instant} (hi : Waits tick s (.idle i))
      (m n : ℕ) :
      Exit tick date time s ret (.idle ((((i.write .hms time).pass tick m).write .ymd date).pass tick n))

/-- Ticks before a write are ticks before the call hands anything over. -/
theorem Waits.pass {s : Handed} {i : Instant} (h : Waits tick s (.idle i)) (n : ℕ) :
    Waits tick s (.idle (i.pass tick n)) := by
  induction n with
  | zero => exact h
  | succ n ih =>
      have hstep : Moves tick (.idle (i.pass tick n)) (.idle (i.pass tick (n + 1))) := by
        rw [← i.pass_pass tick n 1]
        exact .pass _
      exact ih.tail hstep

/-- The second half of the call: the time of day is in, and the date comes. -/
theorem writeDate_exits {date time : U32} {fuel n : ℕ} {s s' : Handed} {i : Instant} {ret : ℤ}
    (hi : Waits tick s (.idle i))
    (h : Prog.Runs (handing tick)
      (writel .ymd date >>= fun _ => whenReady LOSC_CTRL_RTC_YMD_ACC (-ETIMEDOUT) fuel (pure (some 0)))
      (.idle ((i.write .hms time).pass tick n)) (some ret) s') : Exit tick date time s ret s' := by
  rcases runs_handing h with ⟨s₁, v, hs₁, -, h₁⟩
  rcases waits_idle hs₁ with ⟨k, rfl⟩
  rw [Instant.pass_pass] at h₁
  rcases runs_whenReady h₁ with ⟨s₂, hs₂, hend⟩
  -- The date has been handed over, and the access bit says whether it has got there.
  have hs₂ : Waits tick ⟨(i.write .hms time).pass tick (n + k), none, some date⟩ s₂ := hs₂
  rcases waits_ymd hs₂ with ⟨l, rfl⟩ | ⟨m, l, rfl⟩
  · rw [Instant.pass_pass] at hend
    rcases hend with ⟨rfl, rfl⟩ | ⟨⟨v, hv, hadmits⟩, -⟩
    · exact .dateOpen hi _
    · cases hadmits.2 hv
  · rw [Instant.pass_pass] at hend
    rcases hend with ⟨rfl, rfl⟩ | ⟨-, h₂⟩
    · exact .dateIn (.inl rfl) hi _ _
    · cases h₂
      exact .dateIn (.inr rfl) hi _ _

theorem writeClock_exits {date time : U32} {fuel : ℕ} {s s' : Handed} {ret : ℤ}
    (h : Prog.Runs (handing tick) (writeClock fuel date time) s (some ret) s') :
    Exit tick date time s ret s' := by
  rcases runs_whenReady h with ⟨s₀, hs₀, ⟨rfl, rfl⟩ | ⟨⟨v, hv, hadmits⟩, h₀⟩⟩
  · exact .untouched (.inr rfl) hs₀
  · -- The mask covers both access bits, so that nothing is being written.
    have hidle : s₀ = .idle s₀.now := by
      have hclear : ∀ b : U32, b &&& LOSC_CTRL_ACC_MASK = b → v &&& b = 0 := by
        intro b hb
        rw [← hb, BitVec.and_comm b, ← BitVec.and_assoc, hv]
        exact BitVec.zero_and
      rcases s₀ with ⟨i, hms, ymd⟩
      have hhms : hms = none := hadmits.1 (hclear _ (by decide))
      have hymd : ymd = none := hadmits.2 (hclear _ (by decide))
      rw [hhms, hymd]
      rfl
    rw [hidle] at hs₀ h₀
    rcases runs_handing h₀ with ⟨s₁, v, hs₁, -, h₁⟩
    rcases waits_idle hs₁ with ⟨k, rfl⟩
    have hi := Waits.pass hs₀ k
    rcases runs_whenReady h₁ with ⟨s₂, hs₂, ⟨rfl, rfl⟩ | ⟨⟨v, hv, hadmits⟩, h₂⟩⟩
    -- The wait has timed out.
    · rcases waits_hms hs₂ with ⟨n, rfl⟩ | ⟨m, n, rfl⟩
      · exact .timeOpen hi n
      · exact .timeIn (hi.pass m) n
    -- The wait has seen the bit clear, so the time of day is in.
    · rcases waits_hms hs₂ with ⟨n, rfl⟩ | ⟨m, n, rfl⟩
      · cases hadmits.1 hv
      · exact writeDate_exits (hi.pass m) h₂

/-- Where the registers and the writes stand at each way out, whatever the control register and the timer
answer, whatever ticks fall between the accesses, and however long a write takes. -/
theorem settime_exits {fuel : ℕ} {tm tm' : Tm} {s s' : Handed} {ret : ℤ}
    (hrun : Prog.Runs (handing tick) (sun6iRtcSettime fuel tm) s (some (ret, tm')) s') :
    Exit tick (encodeDate tm.rebase (tm.year + 1900)) (encodeTime tm.rebase) s ret s' := by
  unfold sun6iRtcSettime at hrun
  simp only at hrun
  split at hrun
  · cases hrun
    exact .untouched (.inl rfl) .refl
  · rcases Prog.runs_bind_inv hrun with ⟨o, s₁, hwrite, hrest⟩
    cases o with
    | none =>
        have hnone : Prog.Runs (handing tick) (.ret none) s₁ (some (ret, tm')) s' := hrest
        cases hnone
    | some ret' =>
        cases hrest
        exact writeClock_exits hwrite

/-- A clock that finishes the time of day before the next access and never the date, with a timer that is
always late. -/
def stuckDate (o : Op) (s : Handed) : o.Ret × Handed :=
  let s₁ := s.hms.elim s fun w => { s with now := s.now.write .hms w, hms := none }
  s₁.after (if s.ymd.isNone then 0 else LOSC_CTRL_RTC_YMD_ACC) o

/-- The registers at the first midnight of 1970. -/
def epochRegs : Regs := ⟨0x00000101, 0⟩

theorem handing_stuckDate (o : Op) (s : Handed) :
    handing gregorianTick o s (stuckDate o s).1 (stuckDate o s).2 := by
  refine ⟨s.hms.elim s fun w => { s with now := s.now.write .hms w, hms := none }, _, ?_, fun _ => ?_, rfl⟩
  · cases hhms : s.hms with
    | none => exact .refl
    | some w => exact .single (.hms hhms)
  · rcases s with ⟨i, hms, ymd⟩
    refine ⟨fun _ => ?_, fun hclear => ?_⟩
    · cases hms <;> rfl
    · cases ymd with
      | none => cases hms <;> rfl
      | some w =>
          have hset : ¬ LOSC_CTRL_RTC_YMD_ACC &&& LOSC_CTRL_RTC_YMD_ACC = 0 := by decide
          exact absurd hclear hset

/-- The clock is set to noon on 31 May 2020, and the second write never completes. -/
theorem stuckDate_run :
    Prog.Runs (handing gregorianTick) (sun6iRtcSettime 1 (Tm.ofDateTime noon)) (.idle ⟨epochRegs, 0⟩)
      (some (-ETIMEDOUT, (Tm.ofDateTime noon).rebase))
      ⟨⟨⟨epochRegs.ymd, encodeTime (Tm.ofDateTime noon).rebase⟩, 0⟩, none,
        some (encodeDate (Tm.ofDateTime noon).rebase 2020)⟩ := by
  have hrun := Prog.runs_runOn handing_stuckDate (sun6iRtcSettime 1 (Tm.ofDateTime noon))
    (.idle ⟨epochRegs, 0⟩)
  have hresult : (sun6iRtcSettime 1 (Tm.ofDateTime noon)).runOn stuckDate (.idle ⟨epochRegs, 0⟩) =
      (some (-ETIMEDOUT, (Tm.ofDateTime noon).rebase),
        ⟨⟨⟨epochRegs.ymd, encodeTime (Tm.ofDateTime noon).rebase⟩, 0⟩, none,
          some (encodeDate (Tm.ofDateTime noon).rebase 2020)⟩) := by
    decide
  rwa [hresult] at hrun

theorem settime_exits_late :
    Exit gregorianTick (encodeDate (Tm.ofDateTime noon).rebase 2020)
      (encodeTime (Tm.ofDateTime noon).rebase) (.idle ⟨epochRegs, 0⟩) (-ETIMEDOUT)
      ⟨⟨⟨epochRegs.ymd, encodeTime (Tm.ofDateTime noon).rebase⟩, 0⟩, none,
        some (encodeDate (Tm.ofDateTime noon).rebase 2020)⟩ :=
  settime_exits stuckDate_run

/-- The call fails after the first write has been finished and before the second is: no tick has gone by,
and the new time of day stands beside the old date. -/
theorem settime_mixes :
    ¬ ∀ (tick : Regs → Regs) (fuel : ℕ) (tm tm' : Tm) (i : Instant) (s' : Handed) (ret : ℤ),
      Prog.Runs (handing tick) (sun6iRtcSettime fuel tm) (.idle i) (some (ret, tm')) s' → ret ≠ 0 →
        Passed tick i s'.now := by
  intro hatomic
  rcases hatomic _ _ _ _ _ _ _ stuckDate_run (by decide) with ⟨n, hpass⟩
  have hnone : n = 0 := by
    have hticks : 0 = 0 + n := congrArg Instant.ticks hpass
    omega
  subst hnone
  have hhms : encodeTime (Tm.ofDateTime noon).rebase = 0 :=
    congrArg (fun s : Instant => s.regs.hms) hpass
  exact absurd hhms (by decide)

end Rtc

end BspV3s
