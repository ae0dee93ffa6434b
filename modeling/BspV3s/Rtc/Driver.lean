import Mathlib.Algebra.Group.Int.Defs
import BspV3s.Lib.Program

/-!
# Driver — the sun6i real-time clock

The clock keeps a date and a time of day in two registers.  `sun6i_rtc_settime` packs the fields of a
`struct tm` into them, waiting before and after each write for the access bits of the control register;
`sun6i_rtc_gettime` reads both until they agree with themselves, unpacks and checks the fields.
`rt_rtc_control` puts the two under the device interface of the RTOS.

The two loops of the driver wait for the hardware: they take the number of rounds they are granted,
and a routine whose loop is still going has no result.
-/

namespace BspV3s

namespace Rtc

abbrev U32 := BitVec 32

/-! ## Registers and accesses -/

inductive Reg
  | loscCtrl
  | ymd
  | hms
  deriving DecidableEq, Repr

/-- One access of the driver: a register, the millisecond timer, a delay, or the mutex of the device. -/
inductive Op
  | readl (r : Reg)
  | writel (r : Reg) (v : U32)
  | getTimer (base : U32)
  | udelay (usec : ℕ)
  | mutexTake
  | mutexRelease
  deriving DecidableEq, Repr

abbrev Op.Ret : Op → Type
  | .readl _ => U32
  | .getTimer _ => U32
  | _ => Unit

abbrev RtcM := Prog Op Op.Ret

def readl (r : Reg) : RtcM U32 := Prog.op (Op.readl r)
def writel (r : Reg) (v : U32) : RtcM Unit := Prog.op (Op.writel r v)
def getTimer (base : U32) : RtcM U32 := Prog.op (Op.getTimer base)
def udelay (usec : ℕ) : RtcM Unit := Prog.op (Op.udelay usec)
def mutexTake : RtcM Unit := Prog.op Op.mutexTake
def mutexRelease : RtcM Unit := Prog.op Op.mutexRelease

/-! ## Constants -/

def LOSC_CTRL_RTC_HMS_ACC : U32 := 1 <<< 8
def LOSC_CTRL_RTC_YMD_ACC : U32 := 1 <<< 7

/-- `GENMASK(9, 7)`. -/
def LOSC_CTRL_ACC_MASK : U32 := 0x380

def YEAR_MIN : ℤ := 1970
def YEAR_MAX : ℤ := 2033
def YEAR_OFF : ℤ := YEAR_MIN - 1900

def EBUSY : ℤ := 16
def EINVAL : ℤ := 22
def ETIMEDOUT : ℤ := 110

/-! ## Fields -/

/-- The fields of `struct tm` that the driver uses. -/
@[ext]
structure Tm where
  sec : ℤ
  min : ℤ
  hour : ℤ
  mday : ℤ
  mon : ℤ
  year : ℤ
  deriving DecidableEq, Repr

def dateGetDayValue (x : U32) : U32 := x &&& 0x0000001f
def dateGetMonValue (x : U32) : U32 := (x &&& 0x00000f00) >>> 8
def dateGetYearValue (x : U32) : U32 := (x &&& 0x003f0000) >>> 16
def leapGetValue (x : U32) : U32 := (x &&& 0x00400000) >>> 22

def timeGetSecValue (x : U32) : U32 := x &&& 0x0000003f
def timeGetMinValue (x : U32) : U32 := (x &&& 0x00003f00) >>> 8
def timeGetHourValue (x : U32) : U32 := (x &&& 0x001f0000) >>> 16

def dateSetDayValue (x : U32) : U32 := x &&& 0x0000001f
def dateSetMonValue (x : U32) : U32 := x <<< 8 &&& 0x00000f00
def dateSetYearValue (x : U32) : U32 := x <<< 16 &&& 0x003f0000
def leapSetValue (x : U32) : U32 := x <<< 22 &&& 0x00400000

def timeSetSecValue (x : U32) : U32 := x &&& 0x0000003f
def timeSetMinValue (x : U32) : U32 := x <<< 8 &&& 0x00003f00
def timeSetHourValue (x : U32) : U32 := x <<< 16 &&& 0x001f0000

/-! ## Validity -/

/-- An `int` as an `unsigned int`. -/
def unsigned (x : ℤ) : ℕ := (x % 2 ^ 32).toNat

def rtcDaysInMonth : List ℤ := [31, 28, 31, 30, 31, 30, 31, 31, 30, 31, 30, 31]

def isLeapYear (year : ℕ) : Bool :=
  (year % 4 = 0 && year % 100 ≠ 0) || year % 400 = 0

/-- `rtc_month_days`; nothing when the table is read outside its bounds. -/
def rtcMonthDays (month year : ℕ) : Option ℤ :=
  rtcDaysInMonth[month]?.map fun days => days + if isLeapYear year && month = 1 then 1 else 0

/-- `rtc_valid_tm`.  The checks are made in this order and the first that fails ends them, so the
table is only read when the month has passed. -/
def rtcValidTm (tm : Tm) : Option ℤ :=
  if tm.year < 70 then some (-EINVAL)
  else if unsigned tm.mon ≥ 12 then some (-EINVAL)
  else if tm.mday < 1 then some (-EINVAL)
  else
    match rtcMonthDays (unsigned tm.mon) (unsigned (tm.year + 1900)) with
    | none => none
    | some days =>
        if tm.mday > days then some (-EINVAL)
        else if unsigned tm.hour ≥ 24 then some (-EINVAL)
        else if unsigned tm.min ≥ 60 then some (-EINVAL)
        else if unsigned tm.sec ≥ 60 then some (-EINVAL)
        else some 0

/-! ## Reading the clock -/

/-- The `do` loop of `sun6i_rtc_gettime`. -/
def readClock : ℕ → RtcM (Option (U32 × U32))
  | 0 => pure none
  | fuel + 1 => do
      let date ← readl .ymd
      let time ← readl .hms
      let date' ← readl .ymd
      -- `||` leaves the second read of the time out when the date has changed.
      if date ≠ date' then
        readClock fuel
      else do
        let time' ← readl .hms
        if time ≠ time' then readClock fuel else pure (some (date, time))

/-- The fields that `sun6i_rtc_gettime` fills in. -/
def decodeTm (date time : U32) : Tm where
  sec := (timeGetSecValue time).toNat
  min := (timeGetMinValue time).toNat
  hour := (timeGetHourValue time).toNat
  mday := (dateGetDayValue date).toNat
  mon := (dateGetMonValue date).toNat - 1
  year := (dateGetYearValue date).toNat + YEAR_OFF

/-- The value returned and the fields left in `*rtc_tm`. -/
def sun6iRtcGettime (fuel : ℕ) : RtcM (Option (ℤ × Tm)) := do
  match ← readClock fuel with
  | none => pure none
  | some (date, time) =>
      let tm := decodeTm date time
      pure ((rtcValidTm tm).map fun ret => (ret, tm))

/-! ## Setting the clock -/

/-- The `do` loop of `sun6i_rtc_wait` on the control register. -/
def waitLoop (mask : U32) (msTimeout : U32) (start : U32) : ℕ → RtcM (Option ℤ)
  | 0 => pure none
  | fuel + 1 => do
      let reg ← readl .loscCtrl
      if reg &&& mask = 0 then
        pure (some 0)
      else do
        udelay 10
        let t ← getTimer start
        if t < msTimeout then waitLoop mask msTimeout start fuel else pure (some (-ETIMEDOUT))

/-- `sun6i_rtc_wait(base, SUN6I_LOSC_CTRL, mask, ms_timeout)`. -/
def sun6iRtcWait (mask : U32) (msTimeout : U32) (fuel : ℕ) : RtcM (Option ℤ) := do
  let start ← getTimer 0
  waitLoop mask msTimeout start fuel

/-- `date` of `sun6i_rtc_settime`, from the fields as it has rebased them. -/
def encodeDate (tm : Tm) (year : ℤ) : U32 :=
  let date := dateSetDayValue (BitVec.ofInt 32 tm.mday) |||
    dateSetMonValue (BitVec.ofInt 32 tm.mon) ||| dateSetYearValue (BitVec.ofInt 32 tm.year)
  if isLeapYear (unsigned year) then date ||| leapSetValue 1 else date

/-- `time` of `sun6i_rtc_settime`. -/
def encodeTime (tm : Tm) : U32 :=
  timeSetSecValue (BitVec.ofInt 32 tm.sec) ||| timeSetMinValue (BitVec.ofInt 32 tm.min) |||
    timeSetHourValue (BitVec.ofInt 32 tm.hour)

/-- `if (sun6i_rtc_wait(base, SUN6I_LOSC_CTRL, mask, 50)) return err;` -/
def whenReady (mask : U32) (err : ℤ) (fuel : ℕ) (rest : RtcM (Option ℤ)) : RtcM (Option ℤ) := do
  match ← sun6iRtcWait mask 50 fuel with
  | none => pure none
  | some late => if late ≠ 0 then pure (some err) else rest

/-- The two writes of `sun6i_rtc_settime`, each after the registers are seen to be writable. -/
def writeClock (fuel : ℕ) (date time : U32) : RtcM (Option ℤ) :=
  whenReady LOSC_CTRL_ACC_MASK (-EBUSY) fuel do
    writel .hms time
    whenReady LOSC_CTRL_RTC_HMS_ACC (-ETIMEDOUT) fuel do
      writel .ymd date
      whenReady LOSC_CTRL_RTC_YMD_ACC (-ETIMEDOUT) fuel (pure (some 0))

/-- The value returned and the fields left in `*rtc_tm`, which the routine rebases in place. -/
def sun6iRtcSettime (fuel : ℕ) (tm : Tm) : RtcM (Option (ℤ × Tm)) := do
  let year := tm.year + 1900
  if year < YEAR_MIN ∨ year > YEAR_MAX then
    pure (some (-EINVAL, tm))
  else do
    let tm := { tm with year := tm.year - YEAR_OFF, mon := tm.mon + 1 }
    let ret ← writeClock fuel (encodeDate tm year) (encodeTime tm)
    pure (ret.map fun ret => (ret, tm))

/-! ## The device -/

inductive Cmd
  | rtcGetTime
  | rtcSetTime
  | other
  deriving DecidableEq, Repr

def RT_EOK : ℤ := 0

/-- `localtime` and `mktime` of the C library. -/
structure Libc (TimeT : Type) where
  localtime : TimeT → Tm
  mktime : Tm → TimeT

section Device

variable {TimeT : Type} [Zero TimeT]

/-- `_rtc_gettime`: the value returned and `*time`. -/
def rtcGettime (L : Libc TimeT) (fuel : ℕ) : RtcM (Option (ℤ × TimeT)) := do
  match ← sun6iRtcGettime fuel with
  | none => pure none
  | some (ret, tm) => pure (some (ret, if ret ≠ 0 then 0 else L.mktime tm))

/-- `_rtc_settime`. -/
def rtcSettime (L : Libc TimeT) (fuel : ℕ) (time : TimeT) : RtcM (Option ℤ) := do
  match ← sun6iRtcSettime fuel (L.localtime time) with
  | none => pure none
  | some (ret, _) => pure (some ret)

/-- The cases of `rt_rtc_control`: what `*args` holds after them.  Both drop the value that their
routine returns. -/
def dispatch (L : Libc TimeT) (fuel : ℕ) (cmd : Cmd) (time : TimeT) : RtcM (Option TimeT) :=
  match cmd with
  | .rtcGetTime => do
      let got ← rtcGettime L fuel
      pure (got.map Prod.snd)
  | .rtcSetTime => do
      let set ← rtcSettime L fuel time
      pure (set.map fun _ => time)
  | .other => pure (some time)

/-- `rt_rtc_control`: the value returned and what `*args` holds then. -/
def rtRtcControl (L : Libc TimeT) (fuel : ℕ) (cmd : Cmd) (time : TimeT) :
    RtcM (Option (ℤ × TimeT)) := do
  mutexTake
  match ← dispatch L fuel cmd time with
  | none => pure none
  | some time => do
      mutexRelease
      pure (some (RT_EOK, time))

end Device

end Rtc

end BspV3s
