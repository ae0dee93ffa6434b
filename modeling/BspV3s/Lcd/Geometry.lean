import BspV3s.Lib.Bits
import BspV3s.Lib.CString
import BspV3s.Lcd.Slots

/-!
# Geometry — pixel format, line pitch and buffer size of the display

The colour depth comes from an option string.  The bytes of a pixel are derived from it three times:
the composer compares the depth with 16 for the format and divides it by 8 for the pitch, and the
driver compares the byte that it has kept of it with 16 for the size of the buffer.

* `geometry_iff`     : for which modes and depths the three agree and a copy stays in its slot;
* `depth_of_fits`    : among depths below 2^19 these are 16 and 32 to 39;
* `not_agrees_depth24` : the board's own mode at depth 24.
-/

namespace BspV3s

namespace Lcd

open CStr (nul strlen strtoul)

/-! ## The option string -/

/-- The characters from a pointer on; a string in it ends at the first NUL. -/
abbrev CString := List Char

/-- `struct ctfb_res_modes`. -/
structure CtfbResModes where
  xres : U32
  yres : U32
  refresh : U32
  pixclock : U32
  pixclockKhz : U32
  leftMargin : U32
  rightMargin : U32
  upperMargin : U32
  lowerMargin : U32
  hsyncLen : U32
  vsyncLen : U32
  sync : U32
  vmode : U32

/-- The standard timings. -/
def resModeInit : List CtfbResModes :=
  [⟨640, 480, 60, 39683, 25200, 48, 16, 33, 10, 96, 2, 0, 0⟩,
    ⟨800, 600, 60, 25000, 40000, 88, 40, 23, 1, 128, 4, 3, 0⟩,
    ⟨1024, 768, 60, 15384, 65000, 160, 24, 29, 3, 136, 6, 0, 0⟩,
    ⟨960, 720, 75, 13468, 74250, 176, 72, 27, 1, 112, 2, 0, 0⟩,
    ⟨1152, 864, 75, 9259, 108000, 256, 64, 32, 1, 128, 3, 3, 0⟩,
    ⟨1280, 1024, 60, 9259, 108000, 248, 48, 38, 1, 112, 3, 3, 0⟩,
    ⟨1280, 720, 60, 13468, 74250, 220, 110, 20, 5, 40, 5, 3, 0⟩,
    ⟨1360, 768, 60, 11696, 85500, 256, 64, 17, 3, 112, 7, 0, 0⟩,
    ⟨1920, 1080, 60, 6734, 148500, 148, 88, 36, 4, 44, 5, 3, 0⟩,
    ⟨1920, 1200, 60, 6494, 154000, 80, 48, 26, 3, 32, 6, 1, 0⟩]

def RES_MODES_COUNT : Int := 10

def videoGetParamLen (start : CString) (sep : Char) : ℕ :=
  (start.takeWhile fun c => c ≠ nul ∧ c ≠ sep).length

/-- Nothing for -1; the search goes on past the end of the string by the length of `param`. -/
def videoSearchParam (start param : CString) : Option ℕ :=
  (List.range (param.length + strlen start)).find? fun i => param.isPrefixOf (start.drop i)

/-- `GET_OPTION`: the variable, or the number after the name if that stands at `p`. -/
def getOption (p name : CString) (var : U32) : U32 :=
  if name.isPrefixOf p then strtoul (p.drop name.length) else var

/-- The loop over the parameters of the string, up to an empty one. -/
def forParams {σ : Type} (body : σ → CString → σ) : ℕ → CString → σ → σ
  | 0, _, s => s
  | n + 1, p, s =>
      let i := videoGetParamLen p ','
      if i = 0 then s
      else
        let p' := p.drop i
        forParams body n (if p'.head? = some nul then p' else p'.drop 1) (body s p)

/-- Nothing when `res_mode_init` is read outside its bounds. -/
def videoGetParams (getenv : CString → Option CString) (penv : CString) :
    Option (CtfbResModes × U32) := do
  let s := (getenv penv).getD penv
  let s := (videoSearchParam s "video=ctfb:".toList).elim s fun i =>
    s.drop (i + "video=ctfb:".toList.length)
  let mode := forParams (fun mode p => getOption p "mode:".toList mode) s.length s 0
  let mode := if RES_MODES_COUNT ≤ mode.toInt then 0 else mode
  let par ← if mode.toInt < 0 then none else resModeInit[mode.toNat]?
  let bpp : U32 := 24 - mode % 3 * 8
  some (forParams (fun (par, bpp) p =>
    ({ xres := getOption p "x:".toList par.xres
       yres := getOption p "y:".toList par.yres
       refresh := getOption p "refresh:".toList par.refresh
       leftMargin := getOption p "le:".toList par.leftMargin
       rightMargin := getOption p "ri:".toList par.rightMargin
       upperMargin := getOption p "up:".toList par.upperMargin
       lowerMargin := getOption p "lo:".toList par.lowerMargin
       hsyncLen := getOption p "hs:".toList par.hsyncLen
       vsyncLen := getOption p "vs:".toList par.vsyncLen
       sync := getOption p "sync:".toList par.sync
       vmode := getOption p "vmode:".toList par.vmode
       pixclock := getOption p "pclk:".toList par.pixclock
       pixclockKhz := getOption p "pclk_khz:".toList par.pixclockKhz },
      getOption p "depth:".toList bpp)) s.length s (par, bpp))

/-! ## The display engine and the driver -/

/-- The registers of a UI layer that the composer writes. -/
structure DeUi where
  attr : U32
  size : U32
  coord : U32
  pitch : U32
  topLaddr : U32
  ovlSize : U32

def SUNXI_DE2_FORMAT_XRGB_8888 : U32 := 4
def SUNXI_DE2_FORMAT_RGB_565 : U32 := 10

def SUNXI_DE2_UI_CFG_ATTR_EN : U32 := (1 : U32) <<< 0
def SUNXI_DE2_UI_CFG_ATTR_ALPMOD (m : U32) : U32 := (m &&& 3) <<< 1
def SUNXI_DE2_UI_CFG_ATTR_FMT (f : U32) : U32 := (f &&& 0xf) <<< 8
def SUNXI_DE2_UI_CFG_ATTR_ALPHA (a : U32) : U32 := (a &&& 0xff) <<< 24

def SUNXI_DE2_WH (w h : U32) : U32 := (h - 1) <<< 16 ||| (w - 1)

/-- What `sunxi_composer_mode_set` writes to the layer. -/
def sunxiComposerModeSet (depth : U32) (mode : CtfbResModes) (address : U32) : DeUi :=
  let size := SUNXI_DE2_WH mode.xres mode.yres
  let data := SUNXI_DE2_UI_CFG_ATTR_EN ||| SUNXI_DE2_UI_CFG_ATTR_ALPMOD 1 |||
    SUNXI_DE2_UI_CFG_ATTR_ALPHA 0xff
  let data := if depth = 16 then data ||| SUNXI_DE2_UI_CFG_ATTR_FMT SUNXI_DE2_FORMAT_RGB_565
    else data ||| SUNXI_DE2_UI_CFG_ATTR_FMT SUNXI_DE2_FORMAT_XRGB_8888
  { attr := data
    size := size
    coord := 0
    pitch := depth / 8 * mode.xres
    topLaddr := address
    ovlSize := size }

inductive PixelFormat
  | rgb565
  | rgb888

/-- `struct rt_device_graphic_info`, without the frame buffer. -/
structure GraphicInfo where
  pixelFormat : PixelFormat
  bitsPerPixel : BitVec 8
  width : BitVec 16
  height : BitVec 16

/-- `struct lcdfb_device`. -/
structure Lcdfb where
  info : GraphicInfo
  index : U32
  bufsize : U32
  fbAddress : U32 × U32

/-- `sunxi_has_lcd`. -/
def sunxiHasLcd (lcdMode : CString) : Bool :=
  lcdMode.head?.getD nul ≠ nul

/-- What the display is set up with: the mode and the depth, the layer, and the driver. -/
structure Display where
  mode : CtfbResModes
  depth : U32
  ui : DeUi
  lcd : Lcdfb

/-- `video_hw_init_probe` for the LCD, the only monitor that is compiled in. -/
def videoHwInitProbe (getenv : CString → Option CString) (lcdMode : CString) (fbbase : U32) :
    Option (CtfbResModes × U32 × DeUi) := do
  if sunxiHasLcd lcdMode = false then none
  else do
    let (mode, depth) ← videoGetParams getenv lcdMode
    some (mode, depth, sunxiComposerModeSet depth mode (fbbase - CONFIG_SYS_SDRAM_BASE))

def RT_ALIGN (size align : U32) : U32 := (size + align - 1) &&& ~~~(align - 1)

/-- The driver's record, filled from what the probe has stored through its pointers. -/
def fillLcdfb (fbAddress : U32 × U32) (bitsPerPixel : BitVec 8) (width height : BitVec 16) : Lcdfb :=
  { info :=
      { pixelFormat := if bitsPerPixel = 16 then .rgb565 else .rgb888
        bitsPerPixel := bitsPerPixel
        width := width
        height := height }
    index := 0
    bufsize := RT_ALIGN (width.setWidth 32 * height.setWidth 32 *
      (if bitsPerPixel = 16 then 2 else 4)) 64
    fbAddress := fbAddress }

def rtHwLcdInit (getenv : CString → Option CString) (lcdMode : CString) : Option Display := do
  let fbAddress := fbAddresses
  let (mode, depth, ui) ← videoHwInitProbe getenv lcdMode fbAddress.1
  some ⟨mode, depth, ui,
    fillLcdfb fbAddress (depth.setWidth 8) (mode.xres.setWidth 16) (mode.yres.setWidth 16)⟩

/-! ## What should agree -/

/-- The bytes of a pixel in the format that a layer is set to. -/
def formatBytes (attr : U32) : ℕ :=
  if getField attr 8 4 = SUNXI_DE2_FORMAT_RGB_565 then 2 else 4

/-- The bytes of a line in the buffer that the driver allocates. -/
def Lcdfb.bytesPerPixel (lcd : Lcdfb) : ℕ :=
  if lcd.info.bitsPerPixel = 16 then 2 else 4

def Lcdfb.stride (lcd : Lcdfb) : ℕ := lcd.info.width.toNat * lcd.bytesPerPixel

/-- The least multiple of `align` that is not below `size`. -/
def roundUp (size align : ℕ) : ℕ := (size + align - 1) / align * align

structure Agrees (d : Display) : Prop where
  format : (d.ui.pitch.toNat : Int) = d.mode.xres.toInt * formatBytes d.ui.attr
  stride : d.ui.pitch.toNat = d.lcd.stride
  buffer : d.lcd.bufsize.toNat = roundUp (d.lcd.stride * d.lcd.info.height.toNat) 64
  slot : d.lcd.bufsize.toNat ≤ SLOT_SIZE.toNat

/-- The width fits its 16 bits; the depth is 16, or the division of the depth gives four bytes (in 32
bits); and the picture fits its slot. -/
structure Fits (mode : CtfbResModes) (depth : U32) : Prop where
  width : mode.xres.toNat < 2 ^ 16
  bytes : depth = 16 ∨ mode.xres = 0 ∨ depth.toNat % 256 ≠ 16 ∧ depth / 8 * mode.xres = 4 * mode.xres
  size : mode.xres.toNat * (mode.yres.toNat % 2 ^ 16) * (if depth.toNat % 256 = 16 then 2 else 4) ≤
    2 ^ 22

/-! ## When it does -/

theorem and_not_63 (y : U32) : (y &&& ~~~(64 - 1 : U32)).toNat = y.toNat / 64 * 64 := by
  have hmask : (64 - 1 : U32) = fieldMask 0 6 := by decide
  have hshift : y &&& ~~~(64 - 1 : U32) = y >>> 6 <<< 6 := by
    apply BitVec.eq_of_getLsbD_eq
    intro i hi
    rw [hmask, BitVec.getLsbD_and, BitVec.getLsbD_not, getLsbD_fieldMask, BitVec.getLsbD_shiftLeft,
      BitVec.getLsbD_ushiftRight]
    by_cases hlow : i < 6
    · simp [hi, hlow]
    · have hsplit : 6 + (i - 6) = i := by omega
      simp [hi, hlow, hsplit]
  have hlt : y.toNat / 64 * 64 < 2 ^ 32 := by omega
  rw [hshift, BitVec.toNat_shiftLeft, BitVec.toNat_ushiftRight, Nat.shiftRight_eq_div_pow,
    Nat.shiftLeft_eq, Nat.mod_eq_of_lt hlt]

/-- Rounding up in 32 bits, where the sum does not wrap. -/
theorem rtAlign_toNat {x : U32} (h : x.toNat ≤ 2 ^ 32 - 64) :
    (RT_ALIGN x 64).toNat = roundUp x.toNat 64 := by
  have hsum : (x + 64 - 1).toNat = x.toNat + 64 - 1 := by
    have h64 : (64 : U32).toNat = 64 := rfl
    have h1 : (1 : U32).toNat = 1 := rfl
    rw [BitVec.toNat_sub, BitVec.toNat_add, h64, h1]
    omega
  unfold RT_ALIGN roundUp
  rw [and_not_63, hsum]

theorem roundUp_le_iff {n : ℕ} : roundUp n 64 ≤ 2 ^ 22 ↔ n ≤ 2 ^ 22 := by
  unfold roundUp
  omega

theorem formatBytes_mode_set (depth : U32) (mode : CtfbResModes) (address : U32) :
    formatBytes (sunxiComposerModeSet depth mode address).attr = if depth = 16 then 2 else 4 := by
  unfold sunxiComposerModeSet
  dsimp only
  split_ifs
  · decide +kernel
  · decide +kernel

theorem pitch_mode_set (depth : U32) (mode : CtfbResModes) (address : U32) :
    (sunxiComposerModeSet depth mode address).pitch = depth / 8 * mode.xres := rfl

/-- When the pitch is right both by the format and by the buffer. -/
theorem pitch_iff (xres : U32) (D : ℕ) :
    ((D / 8 * xres.toNat % 2 ^ 32 : ℕ) : Int) = xres.toInt * (if D = 16 then 2 else 4 : ℕ) ∧
      D / 8 * xres.toNat % 2 ^ 32 = xres.toNat % 2 ^ 16 * (if D % 256 = 16 then 2 else 4) ↔
    xres.toNat < 2 ^ 16 ∧
      (D = 16 ∨ xres.toNat = 0 ∨ D % 256 ≠ 16 ∧ D / 8 * xres.toNat % 2 ^ 32 = 4 * xres.toNat) := by
  have hsign := BitVec.toInt_eq_toNat_cond xres
  have hlt := xres.isLt
  generalize xres.toNat = X at *
  have hzero : X = 0 → D / 8 * X % 2 ^ 32 = 0 := by
    rintro rfl
    rfl
  by_cases hD : D = 16
  · subst hD
    have hP : 16 / 8 * X % 2 ^ 32 = 2 * X % 2 ^ 32 := rfl
    rw [hP, if_pos rfl]
    constructor
    · rintro ⟨hformat, hstride⟩
      split_ifs at hsign <;> omega
    · rintro ⟨hX, -⟩
      rw [if_pos (by omega)] at hsign
      omega
  · rw [if_neg hD]
    generalize D / 8 * X % 2 ^ 32 = P at *
    constructor
    · rintro ⟨hformat, hstride⟩
      split_ifs at hsign hstride with hpos hlow hlow <;> omega
    · rintro ⟨hX, hbytes⟩
      rw [if_pos (by omega)] at hsign
      split_ifs with hlow <;> omega

section Fill

variable (fb : U32 × U32) (bitsPerPixel : BitVec 8) (width height : BitVec 16)

/-- The buffer holds the picture and fits its slot. -/
theorem bufsize_iff :
    let lcd := fillLcdfb fb bitsPerPixel width height
    lcd.bufsize.toNat = roundUp (lcd.stride * height.toNat) 64 ∧ lcd.bufsize.toNat ≤ 2 ^ 22 ↔
      lcd.stride * height.toNat ≤ 2 ^ 22 := by
  intro lcd
  have hbytes : (if bitsPerPixel = 16 then 2 else 4 : U32).toNat = lcd.bytesPerPixel := by
    change _ = if bitsPerPixel = 16 then 2 else 4
    split_ifs <;> rfl
  have hw : (width.setWidth 32).toNat = width.toNat := BitVec.toNat_setWidth_of_le (by decide)
  have hh : (height.setWidth 32).toNat = height.toNat := BitVec.toNat_setWidth_of_le (by decide)
  have harea : width.toNat * height.toNat < 2 ^ 16 * 2 ^ 16 :=
    Nat.mul_lt_mul'' width.isLt height.isLt
  have hswap : lcd.stride * height.toNat = width.toNat * height.toNat * lcd.bytesPerPixel :=
    Nat.mul_right_comm _ _ _
  constructor
  · rintro ⟨hbuffer, hslot⟩
    exact roundUp_le_iff.1 (hbuffer ▸ hslot)
  · intro hsize
    -- No product has wrapped.
    have hproduct : (width.setWidth 32 * height.setWidth 32 *
        (if bitsPerPixel = 16 then 2 else 4 : U32)).toNat = lcd.stride * height.toNat := by
      have hmod : width.toNat * height.toNat % 2 ^ 32 = width.toNat * height.toNat :=
        Nat.mod_eq_of_lt harea
      rw [BitVec.toNat_mul, BitVec.toNat_mul, hw, hh, hbytes, hmod, ← hswap]
      exact Nat.mod_eq_of_lt (by omega)
    have hbuffer : lcd.bufsize.toNat = roundUp (lcd.stride * height.toNat) 64 := by
      change (RT_ALIGN _ 64).toNat = _
      rw [rtAlign_toNat (by rw [hproduct]; omega), hproduct]
    exact ⟨hbuffer, hbuffer ▸ roundUp_le_iff.2 hsize⟩

end Fill

theorem bytesPerPixel_eq (fb : U32 × U32) (depth : U32) (width height : BitVec 16) :
    (fillLcdfb fb (depth.setWidth 8) width height).bytesPerPixel =
      if depth.toNat % 256 = 16 then 2 else 4 := by
  have hiff : depth.setWidth 8 = 16 ↔ depth.toNat % 256 = 16 := by
    rw [← BitVec.toNat_inj, BitVec.toNat_setWidth]
    exact Iff.rfl
  exact if_congr hiff rfl rfl

section Init

variable (mode : CtfbResModes) (depth address : U32) (fb : U32 × U32)

/-- The driver's record for a mode and a depth. -/
abbrev lcdfbOf : Lcdfb :=
  fillLcdfb fb (depth.setWidth 8) (mode.xres.setWidth 16) (mode.yres.setWidth 16)

theorem stride_lcdfbOf : (lcdfbOf mode depth fb).stride =
    mode.xres.toNat % 2 ^ 16 * if depth.toNat % 256 = 16 then 2 else 4 := by
  rw [← bytesPerPixel_eq fb depth (mode.xres.setWidth 16) (mode.yres.setWidth 16),
    ← BitVec.toNat_setWidth]
  rfl

theorem format_stride_iff :
    (((sunxiComposerModeSet depth mode address).pitch.toNat : Int) =
        mode.xres.toInt * formatBytes (sunxiComposerModeSet depth mode address).attr ∧
      (sunxiComposerModeSet depth mode address).pitch.toNat = (lcdfbOf mode depth fb).stride) ↔
    mode.xres.toNat < 2 ^ 16 ∧ (depth = 16 ∨ mode.xres = 0 ∨
      depth.toNat % 256 ≠ 16 ∧ depth / 8 * mode.xres = 4 * mode.xres) := by
  have hdepth : depth = 16 ↔ depth.toNat = 16 := BitVec.toNat_inj.symm
  have hxres : mode.xres = 0 ↔ mode.xres.toNat = 0 := BitVec.toNat_inj.symm
  have hmul : (depth / 8 * mode.xres).toNat = depth.toNat / 8 * mode.xres.toNat % 2 ^ 32 := by
    rw [BitVec.toNat_mul, BitVec.toNat_udiv]
    rfl
  have hfour : (4 * mode.xres).toNat = 4 * mode.xres.toNat % 2 ^ 32 := BitVec.toNat_mul _ _
  rw [formatBytes_mode_set, stride_lcdfbOf, pitch_mode_set, hmul, if_congr hdepth rfl rfl,
    pitch_iff]
  refine and_congr_right fun hwidth => ?_
  rw [hdepth, hxres, ← BitVec.toNat_inj (x := depth / 8 * mode.xres), hmul, hfour,
    Nat.mod_eq_of_lt (a := 4 * mode.xres.toNat) (by omega)]

theorem buffer_slot_iff (hwidth : mode.xres.toNat < 2 ^ 16) :
    ((lcdfbOf mode depth fb).bufsize.toNat =
        roundUp ((lcdfbOf mode depth fb).stride * (lcdfbOf mode depth fb).info.height.toNat) 64 ∧
      (lcdfbOf mode depth fb).bufsize.toNat ≤ SLOT_SIZE.toNat) ↔
    mode.xres.toNat * (mode.yres.toNat % 2 ^ 16) * (if depth.toNat % 256 = 16 then 2 else 4) ≤
      2 ^ 22 := by
  have hheight : (mode.yres.setWidth 16).toNat = mode.yres.toNat % 2 ^ 16 := BitVec.toNat_setWidth _ _
  have hsize := bufsize_iff fb (depth.setWidth 8) (mode.xres.setWidth 16) (mode.yres.setWidth 16)
  refine hsize.trans ?_
  rw [stride_lcdfbOf, hheight, Nat.mod_eq_of_lt hwidth, Nat.mul_right_comm]

theorem agrees_iff :
    Agrees ⟨mode, depth, sunxiComposerModeSet depth mode address, lcdfbOf mode depth fb⟩ ↔
      Fits mode depth := by
  constructor
  · rintro ⟨hformat, hstride, hbuffer, hslot⟩
    rcases (format_stride_iff mode depth address fb).1 ⟨hformat, hstride⟩ with ⟨hwidth, hbytes⟩
    exact ⟨hwidth, hbytes, (buffer_slot_iff mode depth fb hwidth).1 ⟨hbuffer, hslot⟩⟩
  · rintro ⟨hwidth, hbytes, hsize⟩
    rcases (format_stride_iff mode depth address fb).2 ⟨hwidth, hbytes⟩ with ⟨hformat, hstride⟩
    rcases (buffer_slot_iff mode depth fb hwidth).2 hsize with ⟨hbuffer, hslot⟩
    exact ⟨hformat, hstride, hbuffer, hslot⟩

end Init

theorem eq_of_init {getenv : CString → Option CString} {lcdMode : CString} {d : Display}
    (h : rtHwLcdInit getenv lcdMode = some d) :
    d = ⟨d.mode, d.depth,
      sunxiComposerModeSet d.depth d.mode (fbAddresses.1 - CONFIG_SYS_SDRAM_BASE),
      lcdfbOf d.mode d.depth fbAddresses⟩ := by
  unfold rtHwLcdInit at h
  rcases Option.bind_eq_some_iff.1 h with ⟨⟨mode, depth, ui⟩, hprobe, hd⟩
  have hui : ui = sunxiComposerModeSet depth mode (fbAddresses.1 - CONFIG_SYS_SDRAM_BASE) := by
    unfold videoHwInitProbe at hprobe
    split at hprobe
    · cases hprobe
    · rcases Option.bind_eq_some_iff.1 hprobe with ⟨⟨mode', depth'⟩, -, hset⟩
      cases hset
      rfl
  subst hui
  cases hd
  rfl

/-- For every option string that yields a mode and a depth, pitch, format and buffer agree and a
copy stays in its slot exactly when the two fit. -/
theorem geometry_iff {getenv : CString → Option CString} {lcdMode : CString} {d : Display}
    (h : rtHwLcdInit getenv lcdMode = some d) : Agrees d ↔ Fits d.mode d.depth := by
  rw [eq_of_init h]
  exact agrees_iff d.mode d.depth _ _

/-- Of the depths for which the division of the depth does not wrap, 16 and those of four bytes. -/
theorem depth_of_fits {mode : CtfbResModes} {depth : U32} (h : Fits mode depth)
    (hdepth : depth.toNat < 2 ^ 19) (hxres : mode.xres ≠ 0) :
    depth = 16 ∨ 32 ≤ depth.toNat ∧ depth.toNat < 40 := by
  rcases h.bytes with h16 | hzero | ⟨-, hfour⟩
  · exact .inl h16
  · exact absurd hzero hxres
  · have hpos : 0 < mode.xres.toNat :=
      Nat.pos_of_ne_zero fun hzero => hxres (BitVec.eq_of_toNat_eq hzero)
    have hwidth := h.width
    have hproduct : depth.toNat / 8 * mode.xres.toNat < 2 ^ 16 * 2 ^ 16 :=
      Nat.mul_lt_mul'' (by omega) hwidth
    have hnat : depth.toNat / 8 * mode.xres.toNat = 4 * mode.xres.toNat := by
      have hmod := congrArg BitVec.toNat hfour
      rw [BitVec.toNat_mul, BitVec.toNat_mul, BitVec.toNat_udiv] at hmod
      change depth.toNat / 8 * mode.xres.toNat % 2 ^ 32 = 4 * mode.xres.toNat % 2 ^ 32 at hmod
      omega
    have hdiv : depth.toNat / 8 = 4 := Nat.eq_of_mul_eq_mul_right hpos hnat
    omega

/-! ## The board's mode -/

def CONFIG_VIDEO_LCD_MODE : String :=
  "x:800,y:480,depth:16,pclk_khz:33000,le:87,ri:40,up:31,lo:13,hs:1,vs:1,sync:3,vmode:0"

/-- The board's own option string. -/
theorem geometry_iff_board :
    ∃ d, rtHwLcdInit (fun _ => none) CONFIG_VIDEO_LCD_MODE.toList = some d ∧ Agrees d := by
  have hmode : (rtHwLcdInit (fun _ => none) CONFIG_VIDEO_LCD_MODE.toList).map
      (fun d => (d.mode.xres, d.mode.yres, d.depth)) = some (800, 480, 16) := by decide +kernel
  rcases Option.map_eq_some_iff.1 hmode with ⟨d, hinit, hd⟩
  simp only [Prod.mk.injEq] at hd
  rcases hd with ⟨hxres, hyres, hdepth⟩
  refine ⟨d, hinit, (geometry_iff hinit).2 ⟨?_, .inl hdepth, ?_⟩⟩
  · rw [hxres]
    decide
  · rw [hxres, hyres, hdepth]
    decide

/-- The same with 24 bits: 2400 bytes a line where the format has 3200. -/
theorem not_agrees_depth24 :
    ∃ d, rtHwLcdInit (fun _ => none) "x:800,y:480,depth:24".toList = some d ∧ ¬ Agrees d := by
  have hmode : (rtHwLcdInit (fun _ => none) "x:800,y:480,depth:24".toList).map
      (fun d => (d.ui.pitch, d.mode.xres, formatBytes d.ui.attr)) = some (2400, 800, 4) := by
    decide +kernel
  rcases Option.map_eq_some_iff.1 hmode with ⟨d, hinit, hd⟩
  refine ⟨d, hinit, fun hagrees => ?_⟩
  have hformat := hagrees.format
  simp only [Prod.mk.injEq] at hd
  rw [hd.1, hd.2.1, hd.2.2] at hformat
  exact absurd hformat (by decide)

end Lcd

end BspV3s
