import Mathlib.Order.Bounds.Basic
import BspV3s.Lib.Bits
import BspV3s.Lib.Runs

/-!
# Interval — the watchdog's interval, from requested seconds to register code

`_wdt_control` takes a number of seconds, scales it to milliseconds, clamps it and keeps it; a later
start scales it back and looks its code up in `wdt_timeout_map`, which has holes.  The scaling comes
before the clamping and is done in 32 bits.

* `interval_iff`   : which requests the next start programs the right code for; everything else that
                     is expected of the commands holds after any of them;
* `fits_of_lt`     : requests whose milliseconds an `int` can hold are among them;
* `not_interval_of_wrap` : sixteen seconds asked for, one programmed.
-/

namespace BspV3s

namespace Wdt

abbrev U32 := BitVec 32

/-! ## The device -/

structure Regs where
  ctrl : U32
  cfg : U32
  mode : U32

def WDT_CTRL_RELOAD : U32 := (1 : U32) <<< 0 ||| (0x0a57 : U32) <<< 1
def WDT_MODE_EN : U32 := (1 : U32) <<< 0
def WDT_TIMEOUT_MASK : U32 := 0x0f
def WDT_TIMEOUT_SHIFT : ℕ := 4
def WDT_RESET_MASK : U32 := 0x03
def WDT_RESET_VAL : U32 := 0x01

/-- The codes of the intervals in seconds; an interval that the device does not have is 0. -/
def wdtTimeoutMap : List U32 :=
  [0, 0x1, 0x2, 0x3, 0x4, 0x5, 0x6, 0, 0x7, 0, 0x8, 0, 0x9, 0, 0xa, 0, 0xb]

def sunxiWdtPing (g : Regs) : Regs :=
  { g with ctrl := WDT_CTRL_RELOAD }

/-- Nothing when the map is read outside its bounds. -/
def sunxiWdtSetTimeout (timeout : ℕ) (g : Regs) : Option Regs := do
  let code ← wdtTimeoutMap[timeout]?
  let timeout := if code = 0 then timeout + 1 else timeout
  let reg := g.mode &&& ~~~(WDT_TIMEOUT_MASK <<< WDT_TIMEOUT_SHIFT)
  let code ← wdtTimeoutMap[timeout]?
  let reg := reg ||| code <<< WDT_TIMEOUT_SHIFT
  some (sunxiWdtPing { g with mode := reg })

def sunxiWdtStop (g : Regs) : Regs :=
  { g with mode := 0 }

def sunxiWdtStart (timeout : ℕ) (g : Regs) : Option Regs := do
  let g ← sunxiWdtSetTimeout timeout g
  let g := { g with cfg := g.cfg &&& ~~~WDT_RESET_MASK ||| WDT_RESET_VAL }
  some { g with mode := g.mode ||| WDT_MODE_EN }

/-! ## The driver -/

/-- `struct wdt_reset` with the device behind it. -/
structure WdtReset where
  msecs : Int
  regs : Regs

inductive Cmd
  | setTimeout (arg : U32)
  | start
  | stop
  | keepalive
  | other

/-- `*(int *)arg * 1000`. -/
def scale (arg : U32) : Int :=
  (arg.toInt * 1000).bmod (2 ^ 32)

def clampMsecs (msecs : Int) : Int :=
  if msecs < 1000 then 1000 else if msecs > 16000 then 16000 else msecs

/-- `_wdt_control`. -/
def wdtControl (cmd : Cmd) (w : WdtReset) : Option WdtReset :=
  match cmd with
  | .setTimeout arg => some { w with msecs := clampMsecs (scale arg) }
  | .start => do
      let g ← sunxiWdtStart (BitVec.ofInt 32 (w.msecs.tdiv 1000)).toNat w.regs
      some { w with regs := g }
  | .stop => some { w with regs := sunxiWdtStop w.regs }
  | .keepalive => some { w with regs := sunxiWdtPing w.regs }
  | .other => some w

/-- `rt_hw_wdt_init`. -/
def rtHwWdtInit (g : Regs) : WdtReset :=
  ⟨1000, sunxiWdtStop g⟩

/-! ## What is asked for -/

/-- The intervals that the device has. -/
def Supported (n : ℕ) : Prop :=
  ∃ code, wdtTimeoutMap[n]? = some code ∧ code ≠ 0

/-- The number of seconds to be programmed, after the last request if there was one. -/
def wanted : Option U32 → ℕ
  | none => 1
  | some arg => (max 1 (min arg.toInt 16)).toNat

/-- The driver beside the last request. -/
structure Sys where
  wdt : WdtReset
  last : Option U32

def Cmd.request (last : Option U32) : Cmd → Option U32
  | .setTimeout arg => some arg
  | _ => last

def Step (cmd : Cmd) (s s' : Sys) : Prop :=
  wdtControl cmd s.wdt = some s'.wdt ∧ s'.last = cmd.request s.last

def init (g : Regs) : Sys := ⟨rtHwWdtInit g, none⟩

/-- The interval whose code is in the mode register is the least one of at least `n` seconds. -/
def Programmed (n : ℕ) (g : Regs) : Prop :=
  ∃ m code, IsLeast {k | n ≤ k ∧ Supported k} m ∧ wdtTimeoutMap[m]? = some code ∧
    getField g.mode WDT_TIMEOUT_SHIFT 4 = code

def Enabled (g : Regs) : Prop := g.mode &&& WDT_MODE_EN ≠ 0

/-- A start in this state programs what was asked for. -/
def StartsRight (s : Sys) : Prop :=
  ∃ w, wdtControl .start s.wdt = some w ∧ Programmed (wanted s.last) w.regs ∧ Enabled w.regs

/-- What is expected in a state: a start programs what was asked for, no command reads outside the
map, a stop disables the watchdog and a keepalive leaves its interval alone. -/
structure Interval (s : Sys) : Prop where
  starts : StartsRight s
  inside : ∀ cmd, (wdtControl cmd s.wdt).isSome
  stops : ∀ w, wdtControl .stop s.wdt = some w → ¬ Enabled w.regs
  keeps : ∀ w, wdtControl .keepalive s.wdt = some w → w.regs.mode = s.wdt.regs.mode

/-- Scaled in 32 bits, the request ends up on its own side of the limits. -/
def Fits (arg : U32) : Prop :=
  (16 < arg.toInt → 15000 ≤ (arg.toInt * 1000).bmod (2 ^ 32)) ∧
    (arg.toInt < 1 → (arg.toInt * 1000).bmod (2 ^ 32) < 2000)

/-! ## The map -/

/-- The interval that is programmed when `t` seconds are looked up. -/
def roundUp (t : ℕ) : ℕ :=
  if wdtTimeoutMap.getD t 0 = 0 then t + 1 else t

theorem lt_of_supported {n : ℕ} (h : Supported n) : n < 17 := by
  rcases h with ⟨code, hcode, -⟩
  rcases List.getElem?_eq_some_iff.1 hcode with ⟨hlt, -⟩
  exact hlt

theorem supported_iff {n : ℕ} : Supported n ↔ wdtTimeoutMap.getD n 0 ≠ 0 := by
  unfold Supported
  rw [List.getD_eq_getElem?_getD]
  cases wdtTimeoutMap[n]? <;> simp

theorem isLeast_roundUp {t : ℕ} (h₁ : 1 ≤ t) (h₂ : t ≤ 16) :
    IsLeast {k | t ≤ k ∧ Supported k} (roundUp t) := by
  have hmem : ∀ t : Fin 17, 1 ≤ (t : ℕ) →
      (t : ℕ) ≤ roundUp t ∧ wdtTimeoutMap.getD (roundUp t) 0 ≠ 0 := by decide
  have hleast : ∀ t k : Fin 17, 1 ≤ (t : ℕ) → (t : ℕ) ≤ k → wdtTimeoutMap.getD k 0 ≠ 0 →
      roundUp t ≤ k := by decide
  have hlt : t < 17 := by omega
  refine ⟨⟨(hmem ⟨t, hlt⟩ h₁).1, supported_iff.2 (hmem ⟨t, hlt⟩ h₁).2⟩, ?_⟩
  rintro k ⟨hk, hsupported⟩
  exact hleast ⟨t, hlt⟩ ⟨k, lt_of_supported hsupported⟩ h₁ hk (supported_iff.1 hsupported)

/-- Different intervals have different codes. -/
theorem roundUp_code {n t : ℕ} (hn : 1 ≤ n ∧ n ≤ 16) (ht : 1 ≤ t ∧ t ≤ 16) :
    wdtTimeoutMap[roundUp n]? = some (wdtTimeoutMap.getD (roundUp t) 0) ↔
      roundUp n = roundUp t := by
  have hall : ∀ n t : Fin 17, 1 ≤ (n : ℕ) → 1 ≤ (t : ℕ) →
      (wdtTimeoutMap[roundUp n]? = some (wdtTimeoutMap.getD (roundUp t) 0) ↔
        roundUp n = roundUp t) := by decide
  exact hall ⟨n, by omega⟩ ⟨t, by omega⟩ hn.1 ht.1

/-! ## Starting -/

theorem lookup_eq {n : ℕ} (h : n < 17) :
    wdtTimeoutMap[n]? = some (wdtTimeoutMap.getD n 0) := by
  rw [List.getD_eq_getElem?_getD, List.getElem?_eq_getElem (by exact h), Option.getD_some]

theorem getField_code {t : ℕ} (h : t < 17) :
    getField (wdtTimeoutMap.getD t 0 <<< WDT_TIMEOUT_SHIFT) WDT_TIMEOUT_SHIFT 4 =
      wdtTimeoutMap.getD t 0 := by
  have hall : ∀ t : Fin 17, getField (wdtTimeoutMap.getD t 0 <<< WDT_TIMEOUT_SHIFT)
      WDT_TIMEOUT_SHIFT 4 = wdtTimeoutMap.getD t 0 := by decide +kernel
  exact hall ⟨t, h⟩

theorem setTimeout_eq {t : ℕ} (h₁ : 1 ≤ t) (h₂ : t ≤ 16) (g : Regs) :
    sunxiWdtSetTimeout t g = some (sunxiWdtPing { g with
      mode := g.mode &&& ~~~(WDT_TIMEOUT_MASK <<< WDT_TIMEOUT_SHIFT) |||
        wdtTimeoutMap.getD (roundUp t) 0 <<< WDT_TIMEOUT_SHIFT }) := by
  unfold sunxiWdtSetTimeout
  rw [lookup_eq (by omega : t < 17), Option.bind_eq_bind, Option.bind_some]
  -- The second lookup is that of the next entry where the first has found a hole.
  change (wdtTimeoutMap[roundUp t]? >>= fun code => some (sunxiWdtPing { g with
    mode := g.mode &&& ~~~(WDT_TIMEOUT_MASK <<< WDT_TIMEOUT_SHIFT) |||
      code <<< WDT_TIMEOUT_SHIFT })) = _
  rw [lookup_eq (lt_of_supported (isLeast_roundUp h₁ h₂).1.2), Option.bind_eq_bind,
    Option.bind_some]

theorem start_eq {t : ℕ} (h₁ : 1 ≤ t) (h₂ : t ≤ 16) (g : Regs) :
    ∃ g', sunxiWdtStart t g = some g' ∧ Enabled g' ∧
      getField g'.mode WDT_TIMEOUT_SHIFT 4 = wdtTimeoutMap.getD (roundUp t) 0 := by
  have hclear : getField (g.mode &&& ~~~(WDT_TIMEOUT_MASK <<< WDT_TIMEOUT_SHIFT))
      WDT_TIMEOUT_SHIFT 4 = 0 := by
    have hmask : fieldMask WDT_TIMEOUT_SHIFT 4 = WDT_TIMEOUT_MASK <<< WDT_TIMEOUT_SHIFT := by
      decide
    have hnone : g.mode &&& 0 = 0 := BitVec.and_zero
    rw [getField, hmask, BitVec.and_assoc, BitVec.not_and_self, hnone]
    exact BitVec.zero_ushiftRight
  have hen : getField WDT_MODE_EN WDT_TIMEOUT_SHIFT 4 = 0 := by decide
  refine ⟨_, congrArg (Option.bind · _) (setTimeout_eq h₁ h₂ g), ?_, ?_⟩
  · intro hzero
    have hbit := congrArg (BitVec.getLsbD · 0) hzero
    simp [WDT_MODE_EN] at hbit
  · change getField (g.mode &&& ~~~(WDT_TIMEOUT_MASK <<< WDT_TIMEOUT_SHIFT) |||
      wdtTimeoutMap.getD (roundUp t) 0 <<< WDT_TIMEOUT_SHIFT ||| WDT_MODE_EN) _ 4 = _
    rw [getField_or, getField_or, hclear, hen,
      getField_code (lt_of_supported (isLeast_roundUp h₁ h₂).1.2)]
    exact BitVec.or_zero.trans BitVec.zero_or

theorem programmed_iff {n t : ℕ} {g : Regs} (hn : 1 ≤ n ∧ n ≤ 16) (ht : 1 ≤ t ∧ t ≤ 16)
    (hg : getField g.mode WDT_TIMEOUT_SHIFT 4 = wdtTimeoutMap.getD (roundUp t) 0) :
    Programmed n g ↔ roundUp n = roundUp t := by
  have hleast := isLeast_roundUp hn.1 hn.2
  constructor
  · rintro ⟨m, code, hm, hcode, hfield⟩
    rw [hm.unique hleast, ← hfield, hg] at hcode
    exact (roundUp_code hn ht).1 hcode
  · intro h
    exact ⟨roundUp n, _, hleast, (roundUp_code hn ht).2 h, hg⟩

/-! ## Requests -/

/-- The milliseconds that are kept after the last request. -/
def kept : Option U32 → Int
  | none => 1000
  | some arg => clampMsecs (scale arg)

theorem clampMsecs_mem (msecs : Int) : 1000 ≤ clampMsecs msecs ∧ clampMsecs msecs ≤ 16000 := by
  unfold clampMsecs
  split_ifs <;> omega

theorem kept_mem (last : Option U32) : 1000 ≤ kept last ∧ kept last ≤ 16000 := by
  cases last with
  | none => exact ⟨by decide, by decide⟩
  | some arg => exact clampMsecs_mem _

theorem timeout_mem (last : Option U32) :
    1 ≤ ((kept last).tdiv 1000).toNat ∧ ((kept last).tdiv 1000).toNat ≤ 16 := by
  have h := kept_mem last
  rw [Int.tdiv_eq_ediv_of_nonneg (by omega)]
  omega

theorem wanted_mem (last : Option U32) : 1 ≤ wanted last ∧ wanted last ≤ 16 := by
  cases last with
  | none => exact ⟨le_rfl, by decide⟩
  | some arg =>
      unfold wanted
      dsimp only
      omega

theorem scale_of_lt {arg : U32} (h₁ : -2147484 < arg.toInt) (h₂ : arg.toInt < 2147484) :
    scale arg = arg.toInt * 1000 :=
  Int.bmod_eq_of_le (by omega) (by omega)

/-- Requests whose milliseconds an `int` can hold. -/
theorem fits_of_lt {arg : U32} (h₁ : -2147484 < arg.toInt) (h₂ : arg.toInt < 2147484) : Fits arg := by
  have hscale := scale_of_lt h₁ h₂
  unfold scale at hscale
  unfold Fits
  rw [hscale]
  omega

theorem roundUp_eq_iff (last : Option U32) :
    roundUp (wanted last) = roundUp ((kept last).tdiv 1000).toNat ↔ ∀ arg ∈ last, Fits arg := by
  have hhigh : ∀ t : Fin 17, 1 ≤ (t : ℕ) → (roundUp 16 = roundUp t ↔ 15 ≤ (t : ℕ)) := by decide
  have hlow : ∀ t : Fin 17, 1 ≤ (t : ℕ) → (roundUp 1 = roundUp t ↔ (t : ℕ) < 2) := by decide
  cases last with
  | none => simp [wanted, kept]
  | some arg =>
      have htime := timeout_mem (some arg)
      have hkept := kept_mem (some arg)
      have hdiv : (kept (some arg)).tdiv 1000 = kept (some arg) / 1000 :=
        Int.tdiv_eq_ediv_of_nonneg (by omega)
      have hclamp : kept (some arg) = clampMsecs (scale arg) := rfl
      have hlt : ((kept (some arg)).tdiv 1000).toNat < 17 := by omega
      -- The two comparisons below, with the division of what the clamp leaves.
      have hless : ((kept (some arg)).tdiv 1000).toNat < 2 ↔ scale arg < 2000 := by
        rw [hdiv, hclamp]
        unfold clampMsecs
        split_ifs <;> omega
      have hmost : 15 ≤ ((kept (some arg)).tdiv 1000).toNat ↔ 15000 ≤ scale arg := by
        rw [hdiv, hclamp]
        unfold clampMsecs
        split_ifs <;> omega
      simp only [Option.mem_some_iff, forall_eq']
      rcases lt_or_ge arg.toInt 1 with hneg | hpos
      · -- Too few: the right code is that of one second.
        have hwanted : wanted (some arg) = 1 := by
          unfold wanted
          dsimp only
          omega
        have hfits : Fits arg ↔ scale arg < 2000 := by
          unfold Fits scale
          omega
        rw [hwanted, hfits]
        exact (hlow ⟨_, hlt⟩ htime.1).trans hless
      · rcases lt_or_ge 16 arg.toInt with hmany | hfew
        · -- Too many: it is that of sixteen, which fifteen are rounded up to.
          have hwanted : wanted (some arg) = 16 := by
            unfold wanted
            dsimp only
            omega
          have hfits : Fits arg ↔ 15000 ≤ scale arg := by
            unfold Fits scale
            omega
          rw [hwanted, hfits]
          exact (hhigh ⟨_, hlt⟩ htime.1).trans hmost
        · have hscale := @scale_of_lt arg (by omega) (by omega)
          have hsame : ((kept (some arg)).tdiv 1000).toNat = wanted (some arg) := by
            rw [hdiv, hclamp, hscale]
            unfold clampMsecs wanted
            dsimp only
            split_ifs <;> omega
          rw [hsame]
          exact iff_of_true rfl (fits_of_lt (by omega) (by omega))

/-! ## Runs -/

theorem start_of_kept {w : WdtReset} {last : Option U32} (h : w.msecs = kept last) :
    ∃ g, wdtControl .start w = some { w with regs := g } ∧ Enabled g ∧
      getField g.mode WDT_TIMEOUT_SHIFT 4 =
        wdtTimeoutMap.getD (roundUp ((kept last).tdiv 1000).toNat) 0 := by
  have htime := timeout_mem last
  have hunsigned : (BitVec.ofInt 32 (w.msecs.tdiv 1000)).toNat = ((kept last).tdiv 1000).toNat := by
    rw [h, BitVec.toNat_ofInt]
    omega
  rcases start_eq htime.1 htime.2 w.regs with ⟨g, hstart, hen, hfield⟩
  refine ⟨g, ?_, hen, hfield⟩
  unfold wdtControl
  dsimp only
  rw [hunsigned, hstart]
  rfl

/-- One command: only a request changes the milliseconds. -/
theorem msecs_of_control {cmd : Cmd} {w w' : WdtReset} (h : wdtControl cmd w = some w')
    {last : Option U32} (hw : w.msecs = kept last) : w'.msecs = kept (cmd.request last) := by
  cases cmd with
  | setTimeout arg =>
      rw [← Option.some.inj h]
      rfl
  | start =>
      rcases start_of_kept hw with ⟨g, hstart, -⟩
      rw [← Option.some.inj (hstart.symm.trans h)]
      exact hw
  | stop =>
      rw [← Option.some.inj h]
      exact hw
  | keepalive =>
      rw [← Option.some.inj h]
      exact hw
  | other =>
      rw [← Option.some.inj h]
      exact hw

/-- After any commands the milliseconds are those of the last request. -/
theorem msecs_of_run {g : Regs} {s : Sys}
    (hrun : RunUnder Step (fun _ _ => True) (init g) s) : s.wdt.msecs = kept s.last := by
  refine RunUnder.invariant (I := fun s => s.wdt.msecs = kept s.last) ?_ rfl hrun
  rintro cmd s s' hs - ⟨hstep, hlast⟩
  rw [hlast]
  exact msecs_of_control hstep hs

theorem startsRight_iff {s : Sys} (h : s.wdt.msecs = kept s.last) :
    StartsRight s ↔ ∀ arg ∈ s.last, Fits arg := by
  rcases start_of_kept h with ⟨g, hstart, hen, hfield⟩
  rw [← roundUp_eq_iff, ← programmed_iff (wanted_mem s.last) (timeout_mem s.last) hfield]
  constructor
  · rintro ⟨w, hw, hprogrammed, -⟩
    rw [← Option.some.inj (hstart.symm.trans hw)] at hprogrammed
    exact hprogrammed
  · exact fun hprogrammed => ⟨_, hstart, hprogrammed, hen⟩

/-- The lookups stay inside the map whatever was asked for. -/
theorem isSome_control {w : WdtReset} {last : Option U32} (h : w.msecs = kept last) (cmd : Cmd) :
    (wdtControl cmd w).isSome := by
  cases cmd with
  | start =>
      rcases start_of_kept h with ⟨g, hstart, -⟩
      rw [hstart]
      rfl
  | setTimeout arg => rfl
  | stop => rfl
  | keepalive => rfl
  | other => rfl

theorem not_enabled_of_stop {w w' : WdtReset} (h : wdtControl .stop w = some w') :
    ¬ Enabled w'.regs := by
  rw [← Option.some.inj h]
  exact fun hen => hen (BitVec.zero_and (x := WDT_MODE_EN))

theorem mode_of_keepalive {w w' : WdtReset} (h : wdtControl .keepalive w = some w') :
    w'.regs.mode = w.regs.mode := by
  rw [← Option.some.inj h]
  rfl

/-- After any commands: the next start is right exactly when the last request fits, and the rest of
what is expected holds anyway. -/
theorem interval_iff {g : Regs} {s : Sys}
    (hrun : RunUnder Step (fun _ _ => True) (init g) s) :
    Interval s ↔ ∀ arg ∈ s.last, Fits arg := by
  have hmsecs := msecs_of_run hrun
  constructor
  · exact fun h => (startsRight_iff hmsecs).1 h.starts
  · intro hfits
    exact {
      starts := (startsRight_iff hmsecs).2 hfits
      inside := isSome_control hmsecs
      stops := fun _ => not_enabled_of_stop
      keeps := fun _ => mode_of_keepalive }

/-- Seven seconds are asked for after the watchdog was started. -/
theorem interval_iff_seven :
    Interval ⟨⟨7000, ⟨WDT_CTRL_RELOAD, 1, 0x11⟩⟩, some 7⟩ := by
  have hrun : RunUnder Step (fun _ _ => True) (init ⟨0, 0, 0⟩)
      ⟨⟨7000, ⟨WDT_CTRL_RELOAD, 1, 0x11⟩⟩, some 7⟩ := by
    have hstart : Step .start (init ⟨0, 0, 0⟩) ⟨⟨1000, ⟨WDT_CTRL_RELOAD, 1, 0x11⟩⟩, none⟩ :=
      ⟨rfl, rfl⟩
    exact .head trivial hstart (.head (l := .setTimeout 7) trivial ⟨rfl, rfl⟩ .refl)
  refine (interval_iff hrun).2 ?_
  rintro arg ⟨⟩
  exact fits_of_lt (by decide) (by decide)

/-- A request of more than 2147483 seconds becomes negative and is kept as one second. -/
theorem not_interval_of_wrap :
    RunUnder Step (fun _ _ => True) (init ⟨0, 0, 0⟩)
      ⟨⟨1000, ⟨0, 0, 0⟩⟩, some 2147484⟩ ∧
    ¬ Interval ⟨⟨1000, ⟨0, 0, 0⟩⟩, some 2147484⟩ := by
  have hrun : RunUnder Step (fun _ _ => True) (init ⟨0, 0, 0⟩)
      ⟨⟨1000, ⟨0, 0, 0⟩⟩, some 2147484⟩ :=
    RunUnder.head (l := .setTimeout 2147484) trivial ⟨rfl, rfl⟩ RunUnder.refl
  refine ⟨hrun, fun hinterval => ?_⟩
  have hfits := (startsRight_iff (msecs_of_run hrun)).1 hinterval.starts 2147484 rfl
  exact absurd (hfits.1 (by decide)) (by decide)

end Wdt

end BspV3s
