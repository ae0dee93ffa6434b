import Mathlib.Algebra.Order.Field.Rat
import BspV3s.Lib.Budget
import BspV3s.Lib.Division

/-!
# Divisor — the baud rate of a serial port

`uart_configure` divides the UART's 24 MHz by sixteen times the baud rate, to the nearest integer, and
hands the quotient to `NS16550_init`, which writes it into the two divisor latches.  Nothing is checked
on the way, and the call always reports success.

* `meets_uartConfigure` : what a call that gets past the division leaves in the latches;
* `uart_configure_iff`  : the baud rates that this is right for.
-/

namespace BspV3s

namespace Uart

open Prog

abbrev U32 := BitVec 32

abbrev Byte := BitVec 8

/-! ## The driver -/

/-- The registers of `struct NS16550` that are used here. -/
inductive Reg
  | rbr
  | ier
  | fcr
  | lcr
  | mcr
  | lsr
  deriving DecidableEq

abbrev dll : Reg := .rbr
abbrev dlm : Reg := .ier

def UART_LCR_BKSE : U32 := 0x80
def UART_LCR_8N1 : U32 := 0x03
def UART_LCRVAL : U32 := UART_LCR_8N1
def UART_MCRVAL : U32 := 0x01 ||| 0x02
def UART_FCRVAL : U32 := 0x01 ||| 0x02 ||| 0x04 ||| 0x80
def CONFIG_SYS_NS16550_IER : U32 := 0x00
def UART_LSR_TEMT : Byte := 0x40

inductive Op
  | serialIn (r : Reg)
  | serialOut (x : Byte) (r : Reg)

abbrev Op.Ret : Op → Type
  | .serialIn _ => Byte
  | .serialOut _ _ => Unit

abbrev UartM := Prog Op Op.Ret

def serialIn (r : Reg) : UartM Byte := Prog.op (Op.serialIn r)

/-- `writeb`: the low byte is written. -/
def serialOut (x : U32) (r : Reg) : UartM Unit := Prog.op (Op.serialOut (x.setWidth 8) r)

/-- `DIV_ROUND_CLOSEST` for an unsigned divisor; `none` is the division by zero. -/
def divRoundClosest (x d : U32) : Option U32 := if d = 0 then none else some ((x + d / 2) / d)

def ns16550CalcDivisor (clock baudrate : U32) : Option U32 :=
  let modeXDiv : U32 := 16
  divRoundClosest clock (modeXDiv * baudrate)

def ns16550Setbrg (baudDivisor : U32) : UartM Unit := do
  serialOut (UART_LCR_BKSE ||| UART_LCRVAL) .lcr
  serialOut (baudDivisor &&& 0xff) dll
  serialOut (baudDivisor >>> 8 &&& 0xff) dlm
  serialOut UART_LCRVAL .lcr

/-- The wait for the transmitter, with a budget of reads. -/
def waitEmpty : ℕ → UartM Bool
  | 0 => pure false
  | polls + 1 => do
      let lsr ← serialIn .lsr
      if lsr &&& UART_LSR_TEMT = 0 then waitEmpty polls else pure true

/-- `NS16550_init`; whether the wait has come to its end. -/
def ns16550Init (polls : ℕ) (baudDivisor : U32) : UartM Bool := do
  let empty ← waitEmpty polls
  if empty then do
    serialOut CONFIG_SYS_NS16550_IER .ier
    serialOut UART_MCRVAL .mcr
    serialOut UART_FCRVAL .fcr
    (if baudDivisor ≠ -1 then ns16550Setbrg baudDivisor else pure () : UartM Unit)
    pure true
  else pure false

def RT_EOK : Int := 0

/-- Why a call does not return. -/
inductive Fault
  | divideByZero
  | waiting
  deriving DecidableEq

def uartConfigure (polls : ℕ) (baudRate : U32) : UartM (Except Fault Int) :=
  match ns16550CalcDivisor 24000000 baudRate with
  | none => pure (.error .divideByZero)
  | some clockDivisor => do
      let done ← ns16550Init polls clockDivisor
      pure (if done then .ok RT_EOK else .error .waiting)

/-! ## The port -/

/-- The registers, and the divisor latches that lie behind the first two of them. -/
structure Port where
  reg : Reg → Byte
  latch : Byte × Byte
  time : ℕ

/-- The divisor in the latches. -/
def Port.divisor (p : Port) : ℕ := p.latch.1.toNat + 256 * p.latch.2.toNat

/-- A write: the top bit of the line control register selects the latches. -/
def Port.out (x : Byte) (r : Reg) (p : Port) : Port :=
  if (p.reg .lcr).getLsbD 7 = true ∧ r = dll then
    { p with latch := (x, p.latch.2), time := p.time + 1 }
  else if (p.reg .lcr).getLsbD 7 = true ∧ r = dlm then
    { p with latch := (p.latch.1, x), time := p.time + 1 }
  else { p with reg := Function.update p.reg r x, time := p.time + 1 }

/-- The line status register shows what it shows at the time. -/
def exec (lsr : ℕ → Byte) (o : Op) (p : Port) : o.Ret × Port :=
  match o with
  | .serialIn .lsr => (lsr p.time, { p with time := p.time + 1 })
  | .serialIn r => (p.reg r, { p with time := p.time + 1 })
  | .serialOut x r => ((), p.out x r)

/-- The transmitter empties in the end. -/
def Empties (lsr : ℕ → Byte) : Prop := ∀ t, ∃ t', t ≤ t' ∧ lsr t' &&& UART_LSR_TEMT ≠ 0

/-- With enough reads in the wait the routine ends in `Q`. -/
def Meets {α : Type} (lsr : ℕ → Byte) (p : ℕ → UartM α) (Q : α → Port → Prop) (port : Port) : Prop :=
  Ends (exec lsr) (fun _ _ => true) p Q port

variable {lsr : ℕ → Byte}

theorem out_lcr (x : Byte) (p : Port) :
    p.out x .lcr = { p with reg := Function.update p.reg .lcr x, time := p.time + 1 } := by
  rw [Port.out, if_neg fun h => absurd h.2 (by decide), if_neg fun h => absurd h.2 (by decide)]

theorem out_dll {x : Byte} {p : Port} (h : (p.reg .lcr).getLsbD 7 = true) :
    p.out x dll = { p with latch := (x, p.latch.2), time := p.time + 1 } :=
  if_pos ⟨h, rfl⟩

theorem out_dlm {x : Byte} {p : Port} (h : (p.reg .lcr).getLsbD 7 = true) :
    p.out x dlm = { p with latch := (p.latch.1, x), time := p.time + 1 } := by
  rw [Port.out, if_neg fun h => absurd h.2 (by decide), if_pos ⟨h, rfl⟩]

/-- Both bytes of the divisor reach their latches. -/
theorem runOn_ns16550Setbrg (baudDivisor : U32) (p : Port) :
    ((ns16550Setbrg baudDivisor).runOn (exec lsr) p).2.latch =
      ((baudDivisor &&& 0xff).setWidth 8, (baudDivisor >>> 8 &&& 0xff).setWidth 8) := by
  have hselect : ((UART_LCR_BKSE ||| UART_LCRVAL).setWidth 8).getLsbD 7 = true := by decide
  change (Port.out _ .lcr (Port.out _ dlm (Port.out _ dll (Port.out _ .lcr p)))).latch = _
  rw [out_lcr, out_lcr, out_dll, out_dlm]
  · exact hselect
  · exact hselect

/-- The divisor in the latches: its low 16 bits. -/
theorem divisor_bytes (d : U32) :
    ((d &&& 0xff).setWidth 8).toNat + 256 * ((d >>> 8 &&& 0xff).setWidth 8).toNat =
      d.toNat % 65536 := by
  have hmask : (0xff : U32).toNat = 2 ^ 8 - 1 := rfl
  rw [BitVec.toNat_setWidth, BitVec.toNat_setWidth, BitVec.toNat_and, BitVec.toNat_and, hmask,
    BitVec.toNat_ushiftRight, Nat.and_two_pow_sub_one_eq_mod, Nat.and_two_pow_sub_one_eq_mod,
    Nat.shiftRight_eq_div_pow]
  omega

theorem meets_waitEmpty (hempties : Empties lsr) (p : Port) :
    Meets lsr waitEmpty (fun ok _ => ok = true) p := by
  refine Ends.wait Port.time (fun _ => True) hempties ?_ p trivial
  rintro p - hnext
  refine Ends.of_rounds (fun _ => rfl) (Ends.bind (Ends.op rfl ?_))
  change Ends _ _ (fun n => if lsr p.time &&& UART_LSR_TEMT = 0 then _ else _) _ _
  -- The transmitter is still busy, or the wait is over.
  by_cases hnow : lsr p.time &&& UART_LSR_TEMT = 0
  · simp only [hnow, if_true]
    exact hnext (not_not.2 hnow) { p with time := p.time + 1 } trivial rfl
  · simp only [hnow, if_false]
    exact Ends.ret rfl

/-- A call that gets past the division: the latches hold the low half of the divisor. -/
theorem meets_uartConfigure (hempties : Empties lsr) {baudRate d : U32} (p : Port)
    (hd : ns16550CalcDivisor 24000000 baudRate = some d) (hne : d ≠ -1) :
    Meets lsr (fun polls => uartConfigure polls baudRate)
      (fun r p' => r = .ok RT_EOK ∧ p'.divisor = d.toNat % 65536) p := by
  have hinit : Meets lsr (fun polls => ns16550Init polls d)
      (fun done p' => done = true ∧ p'.divisor = d.toNat % 65536) p := by
    refine Ends.bind ((meets_waitEmpty hempties p).mono ?_)
    rintro _ p' rfl
    simp only [if_true, if_pos hne]
    refine Ends.bind (Ends.op rfl (Ends.bind (Ends.op rfl (Ends.bind (Ends.op rfl ?_)))))
    refine Ends.bind (Ends.of_runOn (checkOn_true _ _ _) (Ends.ret ⟨rfl, ?_⟩))
    rw [Port.divisor, runOn_ns16550Setbrg]
    exact divisor_bytes d
  unfold uartConfigure
  rw [hd]
  refine Ends.bind (hinit.mono ?_)
  rintro _ p' ⟨rfl, hdivisor⟩
  exact Ends.ret ⟨rfl, hdivisor⟩

/-! ## The baud rates -/

/-- The latches hold the divisor that was computed, uncut: at least 1, and the nearest to the exact
quotient. -/
structure Programmed (baudRate : U32) (p : Port) : Prop where
  uncut : (ns16550CalcDivisor 24000000 baudRate).map BitVec.toNat = some p.divisor
  pos : 1 ≤ p.divisor
  le : p.divisor ≤ 65535
  nearest : Nearest ((24000000 : ℕ) / (16 * baudRate.toNat : ℕ)) p.divisor

/-- A call is to return, and to program the divisor unless it reports a failure. -/
def Configures (lsr : ℕ → Byte) (baudRate : U32) (p : Port) : Prop :=
  Meets lsr (fun polls => uartConfigure polls baudRate)
    (fun r p' => ∃ ret, r = .ok ret ∧ (ret ≠ RT_EOK ∨ Programmed baudRate p')) p

/-- The baud rates that have a divisor. -/
theorem Programmed.range {baudRate : U32} {p : Port} (h : Programmed baudRate p) :
    23 ≤ baudRate.toNat ∧ baudRate.toNat ≤ 3000000 := by
  have hpos := h.pos
  have hle := h.le
  have hnearest := h.nearest
  rcases Nat.eq_zero_or_pos baudRate.toNat with hzero | hbaud
  · -- Over a baud rate of 0 there is no divisor at all.
    have hnone : baudRate = 0 := BitVec.eq_of_toNat_eq hzero
    have huncut := h.uncut
    subst hnone
    cases huncut
  · rw [nearest_div_iff (Nat.mul_pos (by decide) hbaud)] at hnearest
    rcases hnearest with ⟨hupper, hlower⟩
    generalize p.divisor = v at *
    constructor
    · have hbig : (2 * v + 1) * (16 * baudRate.toNat) ≤ 131071 * (16 * baudRate.toNat) :=
        Nat.mul_le_mul_right _ (by omega)
      omega
    · have hbig : 2 * 1 * (16 * baudRate.toNat) ≤ 2 * v * (16 * baudRate.toNat) :=
        Nat.mul_le_mul_right _ (Nat.mul_le_mul_left 2 hpos)
      omega

/-- A call that returns reports success. -/
theorem uartConfigure_ret {polls : ℕ} {baudRate : U32} {p p' : Port} {ret : Int}
    (h : (uartConfigure polls baudRate).runOn (exec lsr) p = (.ok ret, p')) : ret = RT_EOK := by
  unfold uartConfigure at h
  cases hd : ns16550CalcDivisor 24000000 baudRate with
  | none =>
      rw [hd] at h
      cases h
  | some d =>
      rw [hd] at h
      change ((ns16550Init polls d) >>= _).runOn (exec lsr) p = _ at h
      rw [runOn_bind] at h
      cases hdone : ((ns16550Init polls d).runOn (exec lsr) p).1 with
      | false =>
          rw [hdone] at h
          cases h
      | true =>
          rw [hdone] at h
          cases h
          rfl

theorem Configures.range {baudRate : U32} {p : Port} (h : Configures lsr baudRate p) :
    23 ≤ baudRate.toNat ∧ baudRate.toNat ≤ 3000000 := by
  rcases h with ⟨r, p', n, ⟨ret, rfl, hprogrammed⟩, hruns⟩
  have hrun := (hruns n (Nat.le_refl n)).1
  exact (hprogrammed.resolve_left (not_not.2 (uartConfigure_ret hrun))).range

/-- The divisor, for a baud rate whose sixteenfold does not wrap. -/
theorem calcDivisor_eq {baudRate : U32} (hpos : 0 < baudRate.toNat)
    (hlt : baudRate.toNat < 2 ^ 28) :
    ∃ d, ns16550CalcDivisor 24000000 baudRate = some d ∧
      d.toNat = (24000000 + 16 * baudRate.toNat / 2) / (16 * baudRate.toNat) := by
  have hmul : (16 * baudRate).toNat = 16 * baudRate.toNat := by
    rw [BitVec.toNat_mul]
    change 16 * baudRate.toNat % 2 ^ 32 = _
    exact Nat.mod_eq_of_lt (by omega)
  have hne : (16 * baudRate) ≠ 0 := by
    intro hzero
    rw [hzero] at hmul
    change 0 = 16 * baudRate.toNat at hmul
    omega
  refine ⟨_, if_neg hne, ?_⟩
  rw [BitVec.toNat_udiv, BitVec.toNat_add, BitVec.toNat_udiv, hmul]
  change (24000000 + 16 * baudRate.toNat / 2) % 2 ^ 32 / (16 * baudRate.toNat) = _
  rw [Nat.mod_eq_of_lt (by omega)]

/-- The call is right for the baud rates from 23 to 3000000. -/
theorem uart_configure_iff (hempties : Empties lsr) (baudRate : U32) (p : Port) :
    Configures lsr baudRate p ↔ 23 ≤ baudRate.toNat ∧ baudRate.toNat ≤ 3000000 := by
  refine ⟨Configures.range, ?_⟩
  rintro ⟨hlo, hhi⟩
  rcases @calcDivisor_eq baudRate (by omega) (by omega) with ⟨d, hd, hdiv⟩
  have hsixteen : 0 < 16 * baudRate.toNat := by omega
  have hpos : 1 ≤ d.toNat := by
    rw [hdiv, Nat.le_div_iff_mul_le hsixteen]
    omega
  have hle : d.toNat ≤ 65535 := by
    rw [hdiv, ← Nat.lt_succ_iff, Nat.div_lt_iff_lt_mul hsixteen]
    omega
  have hne : d ≠ -1 := by
    rintro rfl
    exact absurd hle (by decide)
  -- The divisor fits both latches, so nothing of it is cut off.
  refine (meets_uartConfigure hempties p hd hne).mono ?_
  rintro _ p' ⟨rfl, hdivisor⟩
  rw [Nat.mod_eq_of_lt (by omega)] at hdivisor
  refine ⟨RT_EOK, rfl, .inr ⟨?_, ?_, ?_, ?_⟩⟩
  · rw [hd, hdivisor]
    rfl
  · rw [hdivisor]
    exact hpos
  · rw [hdivisor]
    exact hle
  · rw [hdivisor, hdiv]
    exact nearest_add_half_div _ hsixteen

/-- A port whose transmitter is empty. -/
def idle : Port := ⟨fun _ => 0, (0, 0), 0⟩

theorem uart_configure_115200 : Configures (fun _ => UART_LSR_TEMT) 115200 idle :=
  (uart_configure_iff (fun t => ⟨t, le_refl t, by decide⟩) 115200 idle).2 (by decide)

/-- At 4000000 baud a divisor of 0 is programmed. -/
theorem uart_configure_zero :
    ¬ Configures (fun _ => UART_LSR_TEMT) 4000000 idle ∧
      ((uartConfigure 1 4000000).runOn (exec fun _ => UART_LSR_TEMT) idle).1 = .ok RT_EOK ∧
      ((uartConfigure 1 4000000).runOn (exec fun _ => UART_LSR_TEMT) idle).2.divisor = 0 := by
  refine ⟨fun h => absurd h.range (by decide), ?_, ?_⟩
  · rfl
  · rfl

end Uart

end BspV3s
