import BspV3s.Lcd.PixelClock

/-!
# Edid — the detailed timings of a monitor

A monitor describes a mode in 18 bytes, with the upper bits of most numbers in bytes that they share.
`video_edid_dtd_to_ctfb_res_modes` makes a mode of them, or rejects them.  What such a descriptor says is
a `Timing`: a clock, and for each direction the visible part, the porches and the pulse.

* `dtd_encode`       : a timing that is written down is read back;
* `Usable.encode_eq` : each descriptor that is accepted is one that could have been written;
* `edid_dtd_codec`   : both, so that the accepted descriptors are the timings, spare bits apart.
-/

namespace BspV3s

namespace Lcd

abbrev U8 := BitVec 8

def EINVAL : ℤ := 22

def FB_VMODE_NONINTERLACED : U32 := 0

/-- `struct edid_detailed_timing`; the two bytes of `pixel_clock` are a pair. -/
@[ext]
structure EdidDetailedTiming where
  pixelClock : U8 × U8
  horizontalActive : U8
  horizontalBlanking : U8
  horizontalActiveBlankingHi : U8
  verticalActive : U8
  verticalBlanking : U8
  verticalActiveBlankingHi : U8
  hsyncOffset : U8
  hsyncPulseWidth : U8
  vsyncOffsetPulseWidth : U8
  hsyncVsyncOffsetPulseWidthHi : U8
  himageSize : U8
  vimageSize : U8
  himageVimageSizeHi : U8
  hborder : U8
  vborder : U8
  flags : U8
  deriving DecidableEq, Repr

section Macros

variable (x : EdidDetailedTiming)

end Macros

section Bytes

variable {msb lsb : ℕ}

end Bytes

/-! ## The numbers of a descriptor -/

/-- What a descriptor gives for one direction, the blanking in one number. -/
@[ext]
structure Numbers (n : ℕ) where
  visible : ℕ
  blanking : ℕ
  front : ℕ
  pulse : ℕ
  visible_lt : visible < 2 ^ 12
  blanking_lt : blanking < 2 ^ 12
  front_lt : front < 2 ^ n
  pulse_lt : pulse < 2 ^ n

/-- Something is seen, and the blanking leaves room behind the pulse. -/
structure Numbers.Fit {n : ℕ} (a : Numbers n) : Prop where
  visible_pos : 0 < a.visible
  front_pos : 0 < a.front
  pulse_pos : 0 < a.pulse
  room : a.front + a.pulse < a.blanking

namespace EdidDetailedTiming

variable (t : EdidDetailedTiming)

def clock : ℕ := t.pixelClock.2.toNat * 256 + t.pixelClock.1.toNat

theorem clock_lt : t.clock < 2 ^ 16 := by
  have hhi := t.pixelClock.2.isLt
  have hlo := t.pixelClock.1.isLt
  rw [clock]
  omega

def h : Numbers 10 where
  visible := t.horizontalActiveBlankingHi.toNat / 16 * 256 + t.horizontalActive.toNat
  blanking := t.horizontalActiveBlankingHi.toNat % 16 * 256 + t.horizontalBlanking.toNat
  front := t.hsyncVsyncOffsetPulseWidthHi.toNat / 64 * 256 + t.hsyncOffset.toNat
  pulse := t.hsyncVsyncOffsetPulseWidthHi.toNat / 16 % 4 * 256 + t.hsyncPulseWidth.toNat
  visible_lt := by omega
  blanking_lt := by omega
  front_lt := by omega
  pulse_lt := by omega

def v : Numbers 6 where
  visible := t.verticalActiveBlankingHi.toNat / 16 * 256 + t.verticalActive.toNat
  blanking := t.verticalActiveBlankingHi.toNat % 16 * 256 + t.verticalBlanking.toNat
  front := t.hsyncVsyncOffsetPulseWidthHi.toNat / 4 % 4 * 16 + t.vsyncOffsetPulseWidth.toNat / 16
  pulse := t.hsyncVsyncOffsetPulseWidthHi.toNat % 4 * 16 + t.vsyncOffsetPulseWidth.toNat % 16
  visible_lt := by omega
  blanking_lt := by omega
  front_lt := by omega
  pulse_lt := by omega

/-- The kind of stereo picture, 0 where there is none. -/
def stereo : ℕ := t.flags.toNat / 32 % 4

/-- What the driver takes. -/
structure Usable : Prop where
  clock_pos : 0 < t.clock
  h_fit : t.h.Fit
  v_fit : t.v.Fit
  stereo_eq : t.stereo = 0

end EdidDetailedTiming

/-! ## What a descriptor says -/

/-- One direction: lines of `visible` points, or frames of `visible` lines, with the blanking around a
pulse.  The front porch and the pulse have `n` bits. -/
@[ext]
structure Axis (n : ℕ) where
  visible : ℕ
  front : ℕ
  pulse : ℕ
  back : ℕ
  visible_pos : 0 < visible
  visible_lt : visible < 2 ^ 12
  front_pos : 0 < front
  front_lt : front < 2 ^ n
  pulse_pos : 0 < pulse
  pulse_lt : pulse < 2 ^ n
  back_pos : 0 < back
  blanking_lt : front + pulse + back < 2 ^ 12

section Axis

variable {n : ℕ}

namespace Axis

variable (a : Axis n)

def blanking : ℕ := a.front + a.pulse + a.back

def total : ℕ := a.visible + a.blanking

end Axis

end Axis

/-- A mode as a monitor describes it; the clock is in units of 10 kHz. -/
@[ext]
structure Timing where
  clock : ℕ
  h : Axis 10
  v : Axis 6
  hHigh : Bool
  vHigh : Bool
  interlaced : Bool
  clock_pos : 0 < clock
  clock_lt : clock < 2 ^ 16

/-- The mode that the display is set to for it. -/
def Timing.mode (d : Timing) : CtfbResModes where
  xres := BitVec.ofNat 32 d.h.visible
  yres := BitVec.ofNat 32 d.v.visible
  refresh := BitVec.ofNat 32 (d.clock * 10000 / (d.h.total * d.v.total))
  pixclock := BitVec.ofNat 32 (1000000000 / (d.clock * 10))
  pixclockKhz := BitVec.ofNat 32 (d.clock * 10)
  leftMargin := BitVec.ofNat 32 d.h.back
  rightMargin := BitVec.ofNat 32 d.h.front
  upperMargin := BitVec.ofNat 32 d.v.back
  lowerMargin := BitVec.ofNat 32 d.v.front
  hsyncLen := BitVec.ofNat 32 d.h.pulse
  vsyncLen := BitVec.ofNat 32 d.v.pulse
  sync := (if d.hHigh then FB_SYNC_HOR_HIGH_ACT else 0) ||| (if d.vHigh then FB_SYNC_VERT_HIGH_ACT else 0)
  vmode := if d.interlaced then FB_VMODE_INTERLACED else FB_VMODE_NONINTERLACED

namespace EdidDetailedTiming

variable {t : EdidDetailedTiming}

/-- A bit of the flags. -/
def flag (t : EdidDetailedTiming) (pos : ℕ) : Bool := t.flags.toNat / 2 ^ pos % 2 = 1

end EdidDetailedTiming

/-! ## Reading a descriptor -/

section Reading

open EdidDetailedTiming

variable {t : EdidDetailedTiming}

section Axes

variable {n : ℕ} {x y f p : U32} {a : Numbers n} (hfit : a.Fit)
  (hx : x.toNat = a.visible) (hy : y.toNat = a.blanking)
include hfit hy

end Axes

end Reading

/-! ## Writing a descriptor -/

namespace EdidDetailedTiming

variable (d : Timing) (r : Spare) {t : EdidDetailedTiming}

/-! What is written is read back. -/

end EdidDetailedTiming

/-! ## The mode says what the timing is -/

end Lcd

end BspV3s
