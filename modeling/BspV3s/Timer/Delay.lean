import Mathlib.Data.Set.Insert
import Mathlib.Order.Monotone.Basic
import BspV3s.Lib.Counter

/-!
# Delay — busy waiting on the tick timer

`udelay` polls timer 0, a down-counter reloaded from its interval register, until enough counts
have gone by.  This module embeds `tick_timer_init`, `tick_read_timer`, `__udelay` and `udelay`
over the instants at which the hardware register happens to be sampled, and settles when the delay
is long enough.

* `udelay_returns`      : polling always ends, whatever the samples are;
* `udelay_elapsed`      : where a round sees no count twice the delay is never short;
* `udelay_spacing_iff`  : which sample spacings make every delay long enough.
-/

namespace BspV3s

namespace Timer

/-- `ulong` and, read as a signed value, `long`. -/
abbrev Ulong := BitVec 32

/-- `TIMER_CLOCK`: the 24 MHz oscillator. -/
def TIMER_CLOCK : Int := 24 * 1000 * 1000

/-- `TIMER_MODE | TIMER_DIV | TIMER_SRC | TIMER_RELOAD | TIMER_EN`. -/
def timerCtl : Ulong :=
  (0x0 <<< 7) ||| (0x0 <<< 4) ||| (0x1 <<< 2) ||| (0x1 <<< 1) ||| (0x1 <<< 0)

def CONFIG_WD_PERIOD : Ulong := 10 * 1000 * 1000

def usecToCount (x : Ulong) : Ulong := x * 24

/-- The software's `TIMER_LOAD_VAL` and the registers of timer 0 that the driver writes. -/
structure TickTimer where
  loadVal : Ulong
  val : Ulong
  inter : Ulong
  ctl : Ulong
  tirqen : Ulong
  deriving DecidableEq, Repr

/-- `tick_timer_init`. -/
def tickTimerInit (tick : Int) : TickTimer :=
  let load : Ulong := BitVec.ofInt 32 (TIMER_CLOCK.tdiv tick)
  { loadVal := load
    val := load
    inter := load
    ctl := timerCtl
    tirqen := 1 <<< 0 }

/-- The down-counter read `t` counts after it was started: it runs from the interval value down
to 1 and is then reloaded. -/
def TickTimer.counter (T : TickTimer) (t : ℕ) : Ulong :=
  T.inter - BitVec.ofNat 32 (t % T.inter.toNat)

/-- `tick_read_timer`, with the register sampled at instant `t`. -/
def tickReadTimer (T : TickTimer) (t : ℕ) : Ulong :=
  T.loadVal - T.counter t

/-- The loop of `__udelay`.  `samp n` is the instant of the `n`-th sample; the result is the number
of samples taken when the loop ends, `none` if it has not ended after `fuel` of them. -/
def udelayLoop (T : TickTimer) (samp : ℕ → ℕ) : ℕ → Ulong → Ulong → ℕ → Option ℕ
  | fuel, tmo, last, n =>
      if (0 : Ulong).slt tmo then
        match fuel with
        | 0 => none
        | fuel + 1 =>
            let now := tickReadTimer T (samp n)
            let tmo' := if now > last then tmo - (now - last) else tmo - (T.loadVal - last + now)
            udelayLoop T samp fuel tmo' now (n + 1)
      else
        some n

/-- `__udelay`. -/
def _udelay (T : TickTimer) (samp : ℕ → ℕ) (fuel : ℕ) (usec : Ulong) (n : ℕ) : Option ℕ :=
  udelayLoop T samp fuel (usecToCount usec) (tickReadTimer T (samp n)) (n + 1)

/-- `kv` of `udelay`: the part of the delay that one round waits for. -/
def watchdogChunk (usec : Ulong) : Ulong :=
  if usec > CONFIG_WD_PERIOD then CONFIG_WD_PERIOD else usec

theorem watchdogChunk_toNat (usec : Ulong) :
    (watchdogChunk usec).toNat = min usec.toNat 10000000 := by
  have hwd : CONFIG_WD_PERIOD.toNat = 10000000 := rfl
  unfold watchdogChunk
  split
  · next h =>
      have hlt : CONFIG_WD_PERIOD.toNat < usec.toNat := h
      omega
  · next h =>
      have hle : ¬ CONFIG_WD_PERIOD.toNat < usec.toNat := h
      omega

theorem sub_watchdogChunk_toNat (usec : Ulong) :
    (usec - watchdogChunk usec).toNat = usec.toNat - min usec.toNat 10000000 := by
  have hle : watchdogChunk usec ≤ usec := by
    rw [BitVec.le_def, watchdogChunk_toNat]
    omega
  rw [BitVec.toNat_sub_of_le hle, watchdogChunk_toNat]

/-- `udelay`. -/
def udelay (T : TickTimer) (samp : ℕ → ℕ) (fuel : ℕ) (usec : Ulong) (n : ℕ) : Option ℕ :=
  match _udelay T samp fuel (watchdogChunk usec) n with
  | none => none
  | some n' =>
      if _h : usec - watchdogChunk usec ≠ 0 then
        udelay T samp fuel (usec - watchdogChunk usec) n'
      else
        some n'
termination_by usec.toNat
decreasing_by
  have hne : (usec - watchdogChunk usec).toNat ≠ 0 := by
    intro h0
    exact _h (BitVec.eq_of_toNat_eq h0)
  rw [sub_watchdogChunk_toNat] at hne ⊢
  omega

/-- The first samples of the rounds behind the first one.  No round compares such a sample with the
one before it. -/
def laterRounds (T : TickTimer) (samp : ℕ → ℕ) (fuel : ℕ) (usec : Ulong) (n : ℕ) : List ℕ :=
  match _udelay T samp fuel (watchdogChunk usec) n with
  | none => []
  | some n' =>
      if _h : usec - watchdogChunk usec ≠ 0 then
        n' :: laterRounds T samp fuel (usec - watchdogChunk usec) n'
      else
        []
termination_by usec.toNat
decreasing_by
  have hne : (usec - watchdogChunk usec).toNat ≠ 0 := by
    intro h0
    exact _h (BitVec.eq_of_toNat_eq h0)
  rw [sub_watchdogChunk_toNat] at hne ⊢
  omega

/-! ## The counter as software sees it -/

/-- A timer whose reload value and interval register both hold the period `L`. -/
structure TickTimer.Periodic (T : TickTimer) (L : ℕ) : Prop where
  loadVal : T.loadVal.toNat = L
  inter : T.inter.toNat = L
  pos : 0 < L
  le : L ≤ 24000000

theorem tickTimerInit_periodic {tick : Int} (hpos : 1 ≤ tick) (hle : tick ≤ 24000000) :
    (tickTimerInit tick).Periodic (24000000 / tick).toNat := by
  have hdiv : TIMER_CLOCK.tdiv tick = 24000000 / tick :=
    Int.tdiv_eq_ediv_of_nonneg (by decide)
  have hge : 1 ≤ (24000000 : Int) / tick := (Int.le_ediv_iff_mul_le (by omega)).2 (by omega)
  have hub : (24000000 : Int) / tick ≤ 24000000 := Int.ediv_le_self _ (by decide)
  have hload : (BitVec.ofInt 32 (TIMER_CLOCK.tdiv tick)).toNat = (24000000 / tick).toNat := by
    rw [hdiv, BitVec.toNat_ofInt]
    congr 1
    exact Int.emod_eq_of_lt (by omega) (by omega)
  exact ⟨hload, hload, by omega, by omega⟩

variable {T : TickTimer} {L : ℕ} {samp : ℕ → ℕ}

/-- Inverting the down-counter gives the instant modulo the period. -/
theorem tickReadTimer_toNat (hT : T.Periodic L) (t : ℕ) :
    (tickReadTimer T t).toNat = t % L := by
  have hlt : t % L < L := Nat.mod_lt t hT.pos
  have hle := hT.le
  have hload := hT.loadVal
  have hinter := hT.inter
  have hcount : (T.counter t).toNat = L - t % L := by
    unfold TickTimer.counter
    rw [hinter, BitVec.toNat_sub, BitVec.toNat_ofNat, hinter]
    omega
  unfold tickReadTimer
  rw [BitVec.toNat_sub, hcount, hload]
  omega

/-- What one round of the loop takes off `tmo`. -/
theorem udelayLoop_credit (hT : T.Periodic L) {tmo : Ulong} (htmo : 0 < tmo.toInt) (s s' : ℕ) :
    (if tickReadTimer T s' > tickReadTimer T s then
        tmo - (tickReadTimer T s' - tickReadTimer T s)
      else tmo - (T.loadVal - tickReadTimer T s + tickReadTimer T s')).toInt =
      tmo.toInt - Counter.credit L (s % L) (s' % L) := by
  have hs := tickReadTimer_toNat hT s
  have hs' := tickReadTimer_toNat hT s'
  have hlts : s % L < L := Nat.mod_lt s hT.pos
  have hlts' : s' % L < L := Nat.mod_lt s' hT.pos
  have hle := hT.le
  have hload := hT.loadVal
  have hbound : tmo.toNat < 2 ^ 31 := by
    rw [BitVec.toInt_eq_toNat_cond] at htmo
    split at htmo <;> omega
  -- Taking off at most one period cannot wrap a positive `long`.
  have hsub : ∀ c : Ulong, c.toNat ≤ L → (tmo - c).toInt = tmo.toInt - c.toNat := by
    intro c hc
    rw [BitVec.toInt_sub, BitVec.toInt_eq_toNat_of_lt (x := tmo) (by omega),
      BitVec.toInt_eq_toNat_of_lt (x := c) (by omega)]
    exact Int.bmod_eq_of_le (by omega) (by omega)
  unfold Counter.credit
  by_cases hlt : s % L < s' % L
  · have hgt : tickReadTimer T s' > tickReadTimer T s := by
      rw [gt_iff_lt, BitVec.lt_def, hs, hs']
      exact hlt
    have hc : (tickReadTimer T s' - tickReadTimer T s).toNat = s' % L - s % L := by
      rw [BitVec.toNat_sub, hs, hs']
      omega
    rw [if_pos hgt, if_pos hlt, hsub _ (by omega), hc]
  · have hngt : ¬ tickReadTimer T s' > tickReadTimer T s := by
      rw [gt_iff_lt, BitVec.lt_def, hs, hs']
      exact hlt
    have hc : (T.loadVal - tickReadTimer T s + tickReadTimer T s').toNat =
        L - s % L + s' % L := by
      rw [BitVec.toNat_add, BitVec.toNat_sub, hs, hs', hload]
      omega
    rw [if_neg hngt, if_neg hlt, hsub _ (by omega), hc]

theorem slt_zero_iff (tmo : Ulong) : (0 : Ulong).slt tmo = true ↔ 0 < tmo.toInt := by
  simp [BitVec.slt]

theorem udelayLoop_done {fuel : ℕ} {tmo last : Ulong} {n : ℕ} (h : ¬ 0 < tmo.toInt) :
    udelayLoop T samp fuel tmo last n = some n := by
  have hslt : ¬ (0 : Ulong).slt tmo = true := by rwa [slt_zero_iff]
  cases fuel <;> simp only [udelayLoop, if_neg hslt]

theorem udelayLoop_zero {tmo last : Ulong} {n : ℕ} (h : 0 < tmo.toInt) :
    udelayLoop T samp 0 tmo last n = none := by
  have hslt : (0 : Ulong).slt tmo = true := by rwa [slt_zero_iff]
  simp only [udelayLoop, if_pos hslt]

theorem udelayLoop_succ {fuel : ℕ} {tmo last : Ulong} {n : ℕ} (h : 0 < tmo.toInt) :
    udelayLoop T samp (fuel + 1) tmo last n =
      udelayLoop T samp fuel
        (if tickReadTimer T (samp n) > last then tmo - (tickReadTimer T (samp n) - last)
          else tmo - (T.loadVal - last + tickReadTimer T (samp n)))
        (tickReadTimer T (samp n)) (n + 1) := by
  have hslt : (0 : Ulong).slt tmo = true := by rwa [slt_zero_iff]
  simp only [udelayLoop, if_pos hslt]

theorem usecToCount_watchdogChunk_toInt (usec : Ulong) :
    (usecToCount (watchdogChunk usec)).toInt = (min usec.toNat 10000000 * 24 : ℕ) := by
  have hnat : (usecToCount (watchdogChunk usec)).toNat = min usec.toNat 10000000 * 24 := by
    unfold usecToCount
    rw [BitVec.toNat_mul, watchdogChunk_toNat]
    have h24 : (24 : Ulong).toNat = 24 := rfl
    rw [h24]
    omega
  rw [BitVec.toInt_eq_toNat_of_lt (by omega), hnat]

/-! ## Polling ends -/

/-- Every round credits at least one count, so `fuel` rounds use up a `tmo` of `fuel` counts. -/
theorem udelayLoop_returns (hT : T.Periodic L) :
    ∀ (fuel : ℕ) (tmo : Ulong) (n : ℕ), tmo.toInt ≤ fuel →
      ∃ m, udelayLoop T samp fuel tmo (tickReadTimer T (samp n)) (n + 1) = some m := by
  intro fuel
  induction fuel with
  | zero =>
      intro tmo n htmo
      exact ⟨n + 1, udelayLoop_done (by omega)⟩
  | succ fuel ih =>
      intro tmo n htmo
      by_cases hpos : 0 < tmo.toInt
      · have hcredit := udelayLoop_credit hT hpos (samp n) (samp (n + 1))
        have hcpos : 0 < Counter.credit L (samp n % L) (samp (n + 1) % L) :=
          Counter.credit_pos (Nat.mod_lt _ hT.pos)
        rw [udelayLoop_succ hpos]
        exact ih _ (n + 1) (by rw [hcredit]; omega)
      · exact ⟨n + 1, udelayLoop_done hpos⟩

/-- The longest round of `udelay` is `CONFIG_WD_PERIOD` microseconds, that is 240000000 counts. -/
theorem udelay_returns (hT : T.Periodic L) {fuel : ℕ} (hfuel : 240000000 ≤ fuel) (usec : Ulong)
    (n : ℕ) : ∃ m, udelay T samp fuel usec n = some m := by
  have hround : ∀ (usec : Ulong) (n : ℕ),
      ∃ m, _udelay T samp fuel (watchdogChunk usec) n = some m := by
    intro usec n
    refine udelayLoop_returns hT fuel _ n ?_
    rw [usecToCount_watchdogChunk_toInt]
    omega
  fun_induction udelay T samp fuel usec n with
  | case1 usec n hnone =>
      rcases hround usec n with ⟨m, hm⟩
      rw [hnone] at hm
      cases hm
  | case2 usec n n' hsome hrest ih => exact ih
  | case3 usec n n' hsome hrest => exact ⟨n', rfl⟩

/-! ## How long the delay is -/

theorem le_of_udelayLoop : ∀ (fuel : ℕ) (tmo last : Ulong) (n m : ℕ),
    udelayLoop T samp fuel tmo last n = some m → n ≤ m := by
  intro fuel
  induction fuel with
  | zero =>
      intro tmo last n m h
      by_cases hpos : 0 < tmo.toInt
      · rw [udelayLoop_zero hpos] at h
        cases h
      · rw [udelayLoop_done hpos] at h
        cases h
        exact le_rfl
  | succ fuel ih =>
      intro tmo last n m h
      by_cases hpos : 0 < tmo.toInt
      · rw [udelayLoop_succ hpos] at h
        exact Nat.le_of_succ_le (ih _ _ _ m h)
      · rw [udelayLoop_done hpos] at h
        cases h
        exact le_rfl

/-- The counts between the first and the last sample cover what the loop was asked for, if no two
samples that it compares fall on one count. -/
theorem udelayLoop_elapsed (hT : T.Periodic L) :
    ∀ (fuel : ℕ) (tmo : Ulong) (n m : ℕ),
      udelayLoop T samp fuel tmo (tickReadTimer T (samp n)) (n + 1) = some m →
        (∀ k, n ≤ k → k + 1 < m → samp k < samp (k + 1)) → tmo.toInt + samp n ≤ samp (m - 1) := by
  intro fuel
  induction fuel with
  | zero =>
      intro tmo n m h _
      by_cases hpos : 0 < tmo.toInt
      · rw [udelayLoop_zero hpos] at h
        cases h
      · rw [udelayLoop_done hpos] at h
        cases h
        rw [Nat.add_sub_cancel]
        omega
  | succ fuel ih =>
      intro tmo n m h hsamp
      by_cases hpos : 0 < tmo.toInt
      · rw [udelayLoop_succ hpos] at h
        have hlt := hsamp n le_rfl (le_of_udelayLoop _ _ _ _ _ h)
        -- What the loop takes off is never more than what has gone by.
        have hcredit := udelayLoop_credit hT hpos (samp n) (samp (n + 1))
        have hle := Counter.credit_le_elapsed hT.pos hlt
        have hrest := ih _ (n + 1) m h fun k hk => hsamp k (Nat.le_of_succ_le hk)
        rw [hcredit] at hrest
        omega
      · rw [udelayLoop_done hpos] at h
        cases h
        rw [Nat.add_sub_cancel]
        omega

theorem _udelay_elapsed (hT : T.Periodic L) {fuel : ℕ} {usec : Ulong} {n m : ℕ}
    (h : _udelay T samp fuel (watchdogChunk usec) n = some m)
    (hsamp : ∀ k, n ≤ k → k + 1 < m → samp k < samp (k + 1)) :
    min usec.toNat 10000000 * 24 + samp n ≤ samp (m - 1) := by
  have hle := udelayLoop_elapsed hT _ _ _ _ h hsamp
  rw [usecToCount_watchdogChunk_toInt] at hle
  omega

theorem lt_of_mem_laterRounds {fuel : ℕ} {usec : Ulong} {n k : ℕ}
    (hk : k ∈ laterRounds T samp fuel usec n) : n < k := by
  fun_induction laterRounds T samp fuel usec n with
  | case1 usec n hnone => cases hk
  | case2 usec n n' hsome hrest ih =>
      have hn' : n < n' := le_of_udelayLoop _ _ _ _ _ hsome
      rcases List.mem_cons.1 hk with rfl | hk
      · exact hn'
      · exact hn'.trans (ih hk)
  | case3 usec n n' hsome hrest => cases hk

/-- The delay is long enough if no round sees one count twice in a row.  Between two rounds nothing is
asked for. -/
theorem udelay_elapsed (hT : T.Periodic L) (hmono : Monotone samp) {fuel : ℕ} {usec : Ulong} {n m : ℕ}
    (h : udelay T samp fuel usec n = some m)
    (hsamp : ∀ k, n ≤ k → k + 1 < m → k + 1 ∉ laterRounds T samp fuel usec n → samp k < samp (k + 1)) :
    n < m ∧ usec.toNat * 24 + samp n ≤ samp (m - 1) := by
  fun_induction udelay T samp fuel usec n with
  | case1 usec n hnone => cases h
  | case2 usec n n' hsome hrest ih =>
      have hlater : laterRounds T samp fuel usec n =
          n' :: laterRounds T samp fuel (usec - watchdogChunk usec) n' := by
        rw [laterRounds, hsome]
        exact dif_pos hrest
      have hn' : n < n' := le_of_udelayLoop _ _ _ _ _ hsome
      rw [hlater] at hsamp
      have hnext : n' < m ∧ (usec - watchdogChunk usec).toNat * 24 + samp n' ≤ samp (m - 1) := by
        refine ih h fun k hk hkm hnot => hsamp k (hn'.le.trans hk) hkm ?_
        rw [List.mem_cons, not_or]
        exact ⟨by omega, hnot⟩
      have hround := _udelay_elapsed hT hsome fun k hk hkn' => by
        refine hsamp k hk (hkn'.trans hnext.1) fun hmem => ?_
        rcases List.mem_cons.1 hmem with heq | hmem
        · omega
        · exact absurd (lt_of_mem_laterRounds hmem) (by omega)
      -- The last sample of this round and the first of the next are not compared.
      have hbetween : samp (n' - 1) ≤ samp n' := hmono (Nat.sub_le n' 1)
      rw [sub_watchdogChunk_toNat] at hnext
      exact ⟨hn'.trans hnext.1, by omega⟩
  | case3 usec n n' hsome hrest =>
      cases h
      have hlater : laterRounds T samp fuel usec n = [] := by
        rw [laterRounds, hsome]
        exact dif_neg hrest
      have hround := _udelay_elapsed hT hsome fun k hk hkn' =>
        hsamp k hk hkn' (hlater ▸ List.not_mem_nil)
      have hzero : (usec - watchdogChunk usec).toNat = 0 := by
        rw [not_not] at hrest
        rw [hrest]
        rfl
      rw [sub_watchdogChunk_toNat] at hzero
      exact ⟨le_of_udelayLoop _ _ _ _ _ hsome, by omega⟩

/-- `udelay(usec)`, entered at the instant of its first sample, has waited long enough whenever it
returns. -/
def NeverEarly (tick : Int) (usec : Ulong) (samp : ℕ → ℕ) : Prop :=
  ∀ fuel m, udelay (tickTimerInit tick) samp fuel usec 0 = some m →
    usec.toNat * 24 ≤ samp (m - 1) - samp 0

/-- Successive samples are always some number of counts in `gaps` apart. -/
def Spaced (gaps : Set ℕ) (samp : ℕ → ℕ) : Prop :=
  ∀ n, ∃ g ∈ gaps, samp (n + 1) = samp n + g

/-- The same of the samples that a round of `udelay(usec)` compares, before the one with number `m`. -/
def SpacedInRounds (gaps : Set ℕ) (samp : ℕ → ℕ) (tick : Int) (usec : Ulong) (fuel m : ℕ) : Prop :=
  ∀ k, k + 1 < m → k + 1 ∉ laterRounds (tickTimerInit tick) samp fuel usec 0 →
    ∃ g ∈ gaps, samp (k + 1) = samp k + g

/-- A delay is long enough for every polling pattern with spacings in `gaps` exactly when two
successive samples cannot fall on the same count; a zero delay always is.  It is enough to know the
spacings of the samples that one round compares. -/
theorem udelay_spacing_iff (tick : Int) (usec : Ulong) (gaps : Set ℕ)
    (hpos : 1 ≤ tick) (hle : tick ≤ 24000000) :
    ((∀ samp, Spaced gaps samp →
        (∃ fuel m, udelay (tickTimerInit tick) samp fuel usec 0 = some m) ∧
          NeverEarly tick usec samp) ↔
      (0 ∉ gaps ∨ usec = 0)) ∧
    ((∀ samp, Monotone samp → ∀ fuel m, udelay (tickTimerInit tick) samp fuel usec 0 = some m →
        SpacedInRounds gaps samp tick usec fuel m → usec.toNat * 24 ≤ samp (m - 1) - samp 0) ↔
      (0 ∉ gaps ∨ usec = 0)) := by
  have hT := tickTimerInit_periodic hpos hle
  have hret : ∀ samp, ∃ fuel m, udelay (tickTimerInit tick) samp fuel usec 0 = some m :=
    fun samp => ⟨240000000, udelay_returns hT le_rfl usec 0⟩
  have hrounds : 0 ∉ gaps ∨ usec = 0 → ∀ samp, Monotone samp → ∀ fuel m,
      udelay (tickTimerInit tick) samp fuel usec 0 = some m →
        SpacedInRounds gaps samp tick usec fuel m → usec.toNat * 24 ≤ samp (m - 1) - samp 0 := by
    rintro (hgap | rfl) samp hmono fuel m hm hsp
    · have helapsed := udelay_elapsed hT hmono hm fun k _ hk hnot => by
        obtain ⟨g, hg, heq⟩ := hsp k hk hnot
        have hne : g ≠ 0 := ne_of_mem_of_not_mem hg hgap
        omega
      omega
    · exact Nat.zero_le _
  -- Samples that all fall on one count: nothing elapses, and the loop still ends.
  have hconst : usec.toNat * 24 ≤ 0 → usec = 0 := by
    intro hshort
    refine BitVec.eq_of_toNat_eq ?_
    change usec.toNat = 0
    omega
  refine ⟨⟨fun h => ?_, fun h samp hsp => ⟨hret samp, fun fuel m hm => ?_⟩⟩, ⟨fun h => ?_, hrounds⟩⟩
  · refine or_iff_not_imp_left.2 fun hzero => ?_
    obtain ⟨⟨fuel, m, hm⟩, hnever⟩ := h (fun _ => 0) fun _ => ⟨0, not_not.1 hzero, rfl⟩
    exact hconst (hnever fuel m hm)
  · have hmono : Monotone samp := monotone_nat_of_le_succ fun n => by
      obtain ⟨g, -, heq⟩ := hsp n
      omega
    exact hrounds h samp hmono fuel m hm fun k _ _ => hsp k
  · refine or_iff_not_imp_left.2 fun hzero => ?_
    obtain ⟨fuel, m, hm⟩ := hret fun _ => 0
    exact hconst (h _ monotone_const fuel m hm fun _ _ _ => ⟨0, not_not.1 hzero, rfl⟩)

/-- At the board's tick rate, a delay whose two samples fall on one count returns at once. -/
theorem udelay_early :
    ¬ ∀ (tick : Int) (usec : Ulong) (samp : ℕ → ℕ), 1 ≤ tick → tick ≤ 24000000 → Monotone samp →
      NeverEarly tick usec samp := by
  intro h
  have hT : (tickTimerInit 1000).Periodic _ := tickTimerInit_periodic (by decide) (by decide)
  have hret : ∃ m, udelay (tickTimerInit 1000) (fun _ => 0) 240000000 1 0 = some m :=
    udelay_returns hT le_rfl 1 0
  rcases hret with ⟨m, hm⟩
  have hshort : 24 ≤ 0 := h 1000 1 (fun _ => 0) (by decide) (by decide) monotone_const _ m hm
  exact absurd hshort (by decide)

/-- Samples one count apart keep a one-microsecond delay honest at the board's tick rate; samples that
may fall on one count do not. -/
theorem udelay_spacing_iff_board :
    (∀ samp, Spaced {1} samp →
        (∃ fuel m, udelay (tickTimerInit 1000) samp fuel 1 0 = some m) ∧ NeverEarly 1000 1 samp) ∧
      ¬ ∀ samp, Spaced {0, 1} samp →
        (∃ fuel m, udelay (tickTimerInit 1000) samp fuel 1 0 = some m) ∧ NeverEarly 1000 1 samp := by
  refine ⟨(udelay_spacing_iff 1000 1 {1} (by decide) (by decide)).1.2 (.inl (by simp)), fun h => ?_⟩
  rcases (udelay_spacing_iff 1000 1 {0, 1} (by decide) (by decide)).1.1 h with hgap | hzero
  · exact hgap (Set.mem_insert 0 {1})
  · exact absurd hzero (by decide)

end Timer

end BspV3s
