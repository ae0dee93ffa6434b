import BspV3s.Lcd.PixelClock
import BspV3s.Lcd.Render

/-!
# Timings — the registers that a panel is driven from

`sunxi_lcdc_tcon0_mode_set` packs the timings of a mode into registers of two halves each, unmasked: the
active size, the totals with the back porches, and the lengths of the synchronisation pulses, each less
one, the vertical total doubled.  They read back as they were exactly when the totals fit and nothing
that is counted from one is zero.

* `Drawable.shows` : the registers of a mode whose totals fit;
* `Shows.unique`   : they show one picture only, so that nothing is lost;
* `panel_shows`    : both, and the way from the option string to the registers.
-/

namespace BspV3s

namespace Lcd

open Gpio (Regs)

/-! ## The halves of a register -/

def upper (v : U32) : ℕ := v.toNat / 2 ^ 16

def lower (v : U32) : ℕ := v.toNat % 2 ^ 16

theorem upper_lt (v : U32) : upper v < 2 ^ 16 :=
  Nat.div_lt_of_lt_mul v.isLt

theorem lower_lt (v : U32) : lower v < 2 ^ 16 :=
  Nat.mod_lt _ (by decide)

/-- Two values that fit are packed without loss. -/
theorem halves {x y v : U32} {m n : ℕ} (hx : x.toNat = m) (hm : m < 2 ^ 16) (hy : y.toNat = n)
    (hn : n < 2 ^ 16) (hv : v = x <<< 16 ||| y <<< 0) : upper v = m ∧ lower v = n := by
  subst hx hy
  have hword : v.toNat = 2 ^ 16 * x.toNat + y.toNat := by
    rw [hv, BitVec.shiftLeft_zero, BitVec.toNat_or, BitVec.toNat_shiftLeft, Nat.shiftLeft_eq, Nat.mod_eq_of_lt (by omega),
      Nat.mul_comm, ← Nat.two_pow_add_eq_or_of_lt hn]
  rw [upper, lower, hword]
  omega

/-! ## The registers -/

/-- The registers read back as the timings of the mode. -/
structure Shows (r : Regs) (mode : CtfbResModes) : Prop where
  xres : upper (r tcon0TimingActive) + 1 = mode.xres.toNat
  yres : lower (r tcon0TimingActive) + 1 = mode.yres.toNat
  hTotal : upper (r tcon0TimingH) + 1 =
    mode.xres.toNat + mode.rightMargin.toNat + (mode.hsyncLen.toNat + mode.leftMargin.toNat)
  hBackPorch : lower (r tcon0TimingH) + 1 = mode.hsyncLen.toNat + mode.leftMargin.toNat
  vTotal : upper (r tcon0TimingV) =
    2 * (mode.yres.toNat + mode.lowerMargin.toNat + (mode.vsyncLen.toNat + mode.upperMargin.toNat))
  vBackPorch : lower (r tcon0TimingV) + 1 = mode.vsyncLen.toNat + mode.upperMargin.toNat
  hSync : upper (r tcon0TimingSync) + 1 = mode.hsyncLen.toNat
  vSync : lower (r tcon0TimingSync) + 1 = mode.vsyncLen.toNat
  hPolarity : r tcon0IoPolarity &&& SUNXI_LCDC_TCON_HSYNC_MASK = 0 ↔
    mode.sync &&& FB_SYNC_HOR_HIGH_ACT ≠ 0
  vPolarity : r tcon0IoPolarity &&& SUNXI_LCDC_TCON_VSYNC_MASK = 0 ↔
    mode.sync &&& FB_SYNC_VERT_HIGH_ACT ≠ 0

/-- The totals fit, and there are pixels, lines and pulses. -/
structure Drawable (mode : CtfbResModes) : Prop where
  xres : 0 < mode.xres.toNat
  yres : 0 < mode.yres.toNat
  hsync : 0 < mode.hsyncLen.toNat
  vsync : 0 < mode.vsyncLen.toNat
  hTotal : mode.xres.toNat + mode.rightMargin.toNat +
    (mode.hsyncLen.toNat + mode.leftMargin.toNat) ≤ 2 ^ 16
  vTotal : 2 * (mode.yres.toNat + mode.lowerMargin.toNat +
    (mode.vsyncLen.toNat + mode.upperMargin.toNat)) < 2 ^ 16

section Registers

variable {mode : CtfbResModes} {depth : U32} {r : Regs} {a : ℕ} {v : U32} {l : List (U32 × ℕ)}

/-- A register that is written once holds what has been written. -/
theorem runOn_writeAll_of_mem (hl : (l.map Prod.snd).Nodup) (h : (v, a) ∈ l) (r : Regs) :
    ((writeAll l).runOn Registers.access r).2 a = v := by
  induction l generalizing r with
  | nil => cases h
  | cons w l ih =>
      rw [List.map_cons, List.nodup_cons] at hl
      rcases List.mem_cons.1 h with rfl | h
      · calc ((writeAll ((v, a) :: l)).runOn Registers.access r).2 a
            = Function.update r a v a := runOn_writeAll_of_notMem hl.1 _
          _ = v := Function.update_self _ _ _
      · exact ih hl.2 h _

theorem nodup_panelWrites (depth : U32) (mode : CtfbResModes) :
    ((tcon0Timings mode ++ tcon0Frm depth ++ tcon0Polarity mode).map Prod.snd).Nodup := by
  have htimings : (tcon0Timings mode).map Prod.snd =
      [tcon0TimingActive, tcon0TimingH, tcon0TimingV, tcon0TimingSync, tcon0HvIntf,
        tcon0CpuIntf] := rfl
  have hpolarity : (tcon0Polarity mode).map Prod.snd = [tcon0IoPolarity, tcon0IoTristate] := rfl
  have hfrm : (tcon0Frm depth).map Prod.snd = [] ∨ (tcon0Frm depth).map Prod.snd =
      [tcon0FrmSeed 0, tcon0FrmSeed 1, tcon0FrmSeed 2, tcon0FrmSeed 3, tcon0FrmSeed 4,
        tcon0FrmSeed 5, tcon0FrmTable 0, tcon0FrmTable 1, tcon0FrmTable 2, tcon0FrmTable 3,
        tcon0FrmCtrl] := by
    unfold tcon0Frm
    split
    · exact .inr rfl
    · exact .inl rfl
  rw [List.map_append, List.map_append, htimings, hpolarity]
  rcases hfrm with hfrm | hfrm
  · rw [hfrm]
    decide
  · rw [hfrm]
    decide

/-- Each write of the panel's list stays: before the list the routine writes elsewhere, or is
overwritten. -/
theorem modeSet_of_mem (composite : Bool) (r : Regs)
    (h : (v, a) ∈ tcon0Timings mode ++ tcon0Frm depth ++ tcon0Polarity mode) :
    ((sunxiLcdcTcon0ModeSet composite depth mode).runOn Registers.access r).2 a = v := by
  rw [sunxiLcdcTcon0ModeSet, Prog.runOn_bind, Prog.runOn_bind,
    Prog.runOn_bind_of (runOn_clrsetbitsLe32 _ _ _ _), Prog.runOn_bind_of (Pll.runOn_writel _ _ _),
    Prog.runOn_bind_of (Pll.runOn_writel _ _ _)]
  exact runOn_writeAll_of_mem (nodup_panelWrites depth mode) h _

theorem toNat_pred {x : U32} (h : 0 < x.toNat) : (x - 1).toNat = x.toNat - 1 :=
  BitVec.toNat_sub_of_le (Nat.succ_le_of_lt h)

/-- The word of the polarities tells the two of them. -/
theorem polarity_bits (mode : CtfbResModes) :
    ∃ w, (w, tcon0IoPolarity) ∈ tcon0Polarity mode ∧
      (w &&& SUNXI_LCDC_TCON_HSYNC_MASK = 0 ↔ mode.sync &&& FB_SYNC_HOR_HIGH_ACT ≠ 0) ∧
      (w &&& SUNXI_LCDC_TCON_VSYNC_MASK = 0 ↔ mode.sync &&& FB_SYNC_VERT_HIGH_ACT ≠ 0) := by
  refine ⟨_, List.mem_cons_self, ?_⟩
  by_cases hhor : mode.sync &&& FB_SYNC_HOR_HIGH_ACT = 0
  · by_cases hvert : mode.sync &&& FB_SYNC_VERT_HIGH_ACT = 0
    · simp only [hhor, hvert, if_true, ne_eq, not_true_eq_false, iff_false]
      decide
    · simp only [hhor, hvert, if_true, if_false, ne_eq, not_true_eq_false, not_false_eq_true, iff_false,
        iff_true]
      decide
  · by_cases hvert : mode.sync &&& FB_SYNC_VERT_HIGH_ACT = 0
    · simp only [hhor, hvert, if_true, if_false, ne_eq, not_true_eq_false, not_false_eq_true, iff_false,
        iff_true]
      decide
    · simp only [hhor, hvert, if_false, ne_eq, not_false_eq_true, iff_true]
      decide

theorem Shows.drawable (h : Shows r mode) : Drawable mode where
  xres := by rw [← h.xres]; exact Nat.succ_pos _
  yres := by rw [← h.yres]; exact Nat.succ_pos _
  hsync := by rw [← h.hSync]; exact Nat.succ_pos _
  vsync := by rw [← h.vSync]; exact Nat.succ_pos _
  hTotal := by rw [← h.hTotal]; exact upper_lt _
  vTotal := by rw [← h.vTotal]; exact upper_lt _

/-- Where the totals fit no sum wraps around and no half runs over into the other. -/
theorem Drawable.shows (h : Drawable mode) (composite : Bool) (depth : U32) (r : Regs) :
    Shows ((sunxiLcdcTcon0ModeSet composite depth mode).runOn Registers.access r).2 mode := by
  have hx := h.xres
  have hy := h.yres
  have hhs := h.hsync
  have hvs := h.vsync
  have hht := h.hTotal
  have hvt := h.vTotal
  -- The sums, as words.
  have hhbp : (mode.hsyncLen + mode.leftMargin).toNat =
      mode.hsyncLen.toNat + mode.leftMargin.toNat := BitVec.toNat_add_of_lt (by omega)
  have hxr : (mode.xres + mode.rightMargin).toNat = mode.xres.toNat + mode.rightMargin.toNat :=
    BitVec.toNat_add_of_lt (by omega)
  have hhtotal : (mode.xres + mode.rightMargin + (mode.hsyncLen + mode.leftMargin)).toNat =
      mode.xres.toNat + mode.rightMargin.toNat + (mode.hsyncLen.toNat + mode.leftMargin.toNat) := by
    rw [BitVec.toNat_add_of_lt (by omega), hxr, hhbp]
  have hvbp : (mode.vsyncLen + mode.upperMargin).toNat =
      mode.vsyncLen.toNat + mode.upperMargin.toNat := BitVec.toNat_add_of_lt (by omega)
  have hyl : (mode.yres + mode.lowerMargin).toNat = mode.yres.toNat + mode.lowerMargin.toNat :=
    BitVec.toNat_add_of_lt (by omega)
  have hvtotal : (mode.yres + mode.lowerMargin + (mode.vsyncLen + mode.upperMargin)).toNat =
      mode.yres.toNat + mode.lowerMargin.toNat + (mode.vsyncLen.toNat + mode.upperMargin.toNat) := by
    rw [BitVec.toNat_add_of_lt (by omega), hyl, hvbp]
  have hdouble : ((mode.yres + mode.lowerMargin + (mode.vsyncLen + mode.upperMargin)) * 2).toNat =
      2 * (mode.yres.toNat + mode.lowerMargin.toNat +
        (mode.vsyncLen.toNat + mode.upperMargin.toNat)) := by
    rw [BitVec.toNat_mul, hvtotal]
    change _ * 2 % 2 ^ 32 = _
    omega
  -- What the five registers hold.
  have hwrites : ∀ v a, (v, a) ∈ tcon0Timings mode →
      ((sunxiLcdcTcon0ModeSet composite depth mode).runOn Registers.access r).2 a = v :=
    fun v a hw => modeSet_of_mem composite r (List.mem_append_left _ (List.mem_append_left _ hw))
  have hactive := hwrites _ tcon0TimingActive List.mem_cons_self
  have hH := hwrites _ tcon0TimingH (.tail _ List.mem_cons_self)
  have hV := hwrites _ tcon0TimingV (.tail _ (.tail _ List.mem_cons_self))
  have hS := hwrites _ tcon0TimingSync (.tail _ (.tail _ (.tail _ List.mem_cons_self)))
  rcases polarity_bits mode with ⟨w, hmem, hhor, hvert⟩
  have hP : ((sunxiLcdcTcon0ModeSet composite depth mode).runOn Registers.access r).2
      tcon0IoPolarity = w := modeSet_of_mem composite r (List.mem_append_right _ hmem)
  generalize ((sunxiLcdcTcon0ModeSet composite depth mode).runOn Registers.access r).2 = s at *
  have hactive := halves (toNat_pred hx) (by omega) (toNat_pred hy) (by omega) hactive
  have hH := halves ((toNat_pred (by omega)).trans (congrArg (· - 1) hhtotal)) (by omega)
    ((toNat_pred (by omega)).trans (congrArg (· - 1) hhbp)) (by omega) hH
  have hV := halves hdouble hvt ((toNat_pred (by omega)).trans (congrArg (· - 1) hvbp)) (by omega) hV
  have hS := halves (toNat_pred hhs) (by omega) (toNat_pred hvs) (by omega) hS
  exact
    { xres := by omega
      yres := by omega
      hTotal := by omega
      hBackPorch := by omega
      vTotal := hV.1
      vBackPorch := by omega
      hSync := by omega
      vSync := by omega
      hPolarity := by rw [hP]; exact hhor
      vPolarity := by rw [hP]; exact hvert }

/-- The two modes have one picture: the size, the margins, the pulses and their polarities. -/
structure SamePicture (m m' : CtfbResModes) : Prop where
  size : m.xres = m'.xres ∧ m.yres = m'.yres
  hMargins : m.leftMargin = m'.leftMargin ∧ m.rightMargin = m'.rightMargin
  vMargins : m.upperMargin = m'.upperMargin ∧ m.lowerMargin = m'.lowerMargin
  pulses : m.hsyncLen = m'.hsyncLen ∧ m.vsyncLen = m'.vsyncLen
  hPolarity : m.sync &&& FB_SYNC_HOR_HIGH_ACT = 0 ↔ m'.sync &&& FB_SYNC_HOR_HIGH_ACT = 0
  vPolarity : m.sync &&& FB_SYNC_VERT_HIGH_ACT = 0 ↔ m'.sync &&& FB_SYNC_VERT_HIGH_ACT = 0

/-- The margins are what the totals leave. -/
theorem Shows.unique {mode' : CtfbResModes} (h : Shows r mode) (h' : Shows r mode') :
    SamePicture mode mode' := by
  have hx := h.xres.symm.trans h'.xres
  have hy := h.yres.symm.trans h'.yres
  have hhs := h.hSync.symm.trans h'.hSync
  have hvs := h.vSync.symm.trans h'.vSync
  have hhbp := h.hBackPorch.symm.trans h'.hBackPorch
  have hvbp := h.vBackPorch.symm.trans h'.vBackPorch
  have hht := h.hTotal.symm.trans h'.hTotal
  have hvt := h.vTotal.symm.trans h'.vTotal
  exact
    { size := ⟨BitVec.eq_of_toNat_eq hx, BitVec.eq_of_toNat_eq hy⟩
      hMargins := ⟨BitVec.eq_of_toNat_eq (by omega), BitVec.eq_of_toNat_eq (by omega)⟩
      vMargins := ⟨BitVec.eq_of_toNat_eq (by omega), BitVec.eq_of_toNat_eq (by omega)⟩
      pulses := ⟨BitVec.eq_of_toNat_eq hhs, BitVec.eq_of_toNat_eq hvs⟩
      hPolarity := not_iff_not.1 (h.hPolarity.symm.trans h'.hPolarity)
      vPolarity := not_iff_not.1 (h.vPolarity.symm.trans h'.vPolarity) }

/-- The panel.  The registers read back as the timings of a mode exactly when its totals fit; they read
back as one picture only; and a string that describes such a mode ends in registers that show it, also
where it stands in memory behind `video=ctfb:` and nothing else is loaded. -/
theorem panel_shows :
    (∀ (composite : Bool) (depth : U32) (mode : CtfbResModes) (r : Regs),
      Shows ((sunxiLcdcTcon0ModeSet composite depth mode).runOn Registers.access r).2 mode ↔
        Drawable mode) ∧
    (∀ (r : Regs) (mode mode' : CtfbResModes), Shows r mode → Shows r mode' →
      SamePicture mode mode') ∧
    (∀ (l : List Assignment) (s : Setting) (composite : Bool) (r : Regs), Describes l s →
      Drawable s.1 → ∃ out, videoGetParams (fun _ => none) (render l) = some out ∧
        Shows ((sunxiLcdcTcon0ModeSet composite out.2 out.1).runOn Registers.access r).2 s.1) ∧
    ∀ (l : List Assignment) (s : Setting) (composite : Bool) (r : Regs) (mem : ℕ → Char) (p : ℕ),
      Describes l s → Drawable s.1 → CStr.At mem p ("video=ctfb:".toList ++ render l) →
        CStr.Reads mem p (p + ("video=ctfb:".toList ++ render l).length)
          (fun n => OptionReads.videoGetParams n (fun _ => none) p) fun got => ∃ out, got = some out ∧
            Shows ((sunxiLcdcTcon0ModeSet composite out.2 out.1).runOn Registers.access r).2 s.1 := by
  refine ⟨fun composite depth mode r => ⟨Shows.drawable, fun h => h.shows composite depth r⟩,
    fun r mode mode' => Shows.unique, fun l s composite r hl hs => ?_,
    fun l s composite r mem p hl hs hat => ?_⟩
  · refine ⟨s, ?_, hs.shows composite s.2 r⟩
    rw [videoGetParams_of_text _ (nul_notMem_render l) (optionText_render l).1 rfl,
      meaning_of_describes hl]
  · refine (reads_videoGetParams_render hat).mono fun got hgot => ?_
    rw [meaning_of_describes hl] at hgot
    exact ⟨s, hgot, hs.shows composite s.2 r⟩

/-- The panel of the board. -/
theorem panel_shows_board :
    Shows ((sunxiLcdcTcon0ModeSet false 16 lcdMode).runOn Registers.access fun _ => 0).2 lcdMode :=
  (panel_shows.1 false 16 lcdMode fun _ => 0).2
    { xres := by decide
      yres := by decide
      hsync := by decide
      vsync := by decide
      hTotal := by decide
      vTotal := by decide }

end Registers

end Lcd

end BspV3s
