import BspV3s.Lcd.OptionReads

/-!
# Render — option strings as they are written

The inverse of `video_get_params`: a list of assignments written out as an option string, each a name
with its colon and a decimal number, with commas between them.  Reading the string carries the
assignments out in their order on the chosen entry of the table, so that a string which names every
part of a setting, in whatever order and however often, is read as that setting.

* `fields_render`         : the fields of the text are the assignments;
* `optionValue_text`      : no name is taken for another;
* `videoGetParams_render` : what is read, as a function of the assignments.
-/

namespace BspV3s

namespace Lcd

open CStr (nul)

/-- What one field of an option string says. -/
inductive Assignment
  | mode (i : Fin resModeInit.length)
  | part (k : Key) (v : U32)

namespace Assignment

/-- Decimal digits. -/
def decimal (n : ℕ) : List Char := Nat.toDigits 10 n

/-- The field as it is written. -/
def text : Assignment → List Char
  | mode i => "mode:".toList ++ decimal i
  | part k v => k.name ++ decimal v.toNat

/-- What it does to a setting. -/
def apply (s : Setting) : Assignment → Setting
  | mode _ => s
  | part k v => Key.set s v k

/-- The entry that it chooses. -/
def entry? : Assignment → Option (Fin resModeInit.length)
  | mode i => some i
  | part _ _ => none

end Assignment

/-- An option string. -/
def render (l : List Assignment) : List Char := [','].intercalate (l.map Assignment.text)

/-- The entry that the last `mode` chooses, and otherwise the first. -/
def chosenEntry (l : List Assignment) : Fin resModeInit.length :=
  (l.filterMap Assignment.entry?).getLast?.getD ⟨0, by decide⟩

/-- The setting that the assignments make. -/
def meaning (l : List Assignment) : Setting := l.foldl Assignment.apply (entry (chosenEntry l))

/-! ## The characters of a field -/

section Text

variable {n : ℕ} {c : Char} {k j : Key} {a : Assignment} {l : List Assignment}

theorem isDigit_of_mem_decimal (h : c ∈ Assignment.decimal n) : c.isDigit = true :=
  Nat.isDigit_of_mem_toDigits (by decide) (le_refl 10) h

theorem notMem_decimal (hc : c.isDigit = false) : c ∉ Assignment.decimal n := by
  intro h
  rw [isDigit_of_mem_decimal h] at hc
  cases hc

/-- A name without its colon. -/
def Key.stem (k : Key) : List Char := k.name.dropLast

theorem Key.name_eq (k : Key) : k.name = k.stem ++ [':'] := by
  cases k <;> decide

theorem Key.colon_notMem_stem (k : Key) : ':' ∉ k.stem := by
  cases k <;> decide

theorem Key.stem_injective (h : Key.stem j = Key.stem k) : j = k :=
  List.inj_on_of_nodup_map (f := Key.stem) (l := Key.all) (by decide) j.mem_all k.mem_all h

/-- A name with its colon is found only where it has been written. -/
theorem prefix_stem_iff {x y ds : List Char} (hy : ':' ∉ y) (hds : ':' ∉ ds) :
    x ++ [':'] <+: y ++ [':'] ++ ds ↔ x = y := by
  constructor
  · rintro ⟨t, ht⟩
    rw [List.append_assoc, List.append_assoc] at ht
    exact ((List.append_cons_inj_of_notMem hy hds).1 ht.symm).1.symm
  · rintro rfl
    exact List.prefix_append _ _

theorem comma_notMem_text (a : Assignment) : ',' ∉ a.text := by
  cases a with
  | mode i => exact List.not_mem_append (by decide) (notMem_decimal rfl)
  | part k v => exact List.not_mem_append k.comma_notMem_name (notMem_decimal rfl)

theorem text_ne_nil (a : Assignment) : a.text ≠ [] := by
  cases a with
  | mode i => exact List.append_ne_nil_of_left_ne_nil (by decide) _
  | part k v => exact List.append_ne_nil_of_left_ne_nil (by cases k <;> decide) _

/-- The fields of the text are the assignments. -/
theorem fields_render (l : List Assignment) : fields (render l) = l.map Assignment.text := by
  rcases List.eq_nil_or_concat l with rfl | ⟨l', a', rfl⟩
  · rfl
  · have hne : (l'.concat a').map Assignment.text ≠ [] := by simp
    have hcomma : ∀ f, f ∈ (l'.concat a').map Assignment.text → ',' ∉ f := by
      intro f hf
      rcases List.mem_map.1 hf with ⟨a, -, rfl⟩
      exact comma_notMem_text a
    rw [fields, render, List.splitOn_intercalate ',' hcomma hne, List.takeWhile_eq_self_iff]
    intro f hf
    rcases List.mem_map.1 hf with ⟨a, -, rfl⟩
    exact decide_eq_true (text_ne_nil a)

theorem optionValue_decimal {name : List Char} (h : n < 2 ^ 32) :
    optionValue name (name ++ Assignment.decimal n) = some (BitVec.ofNat 32 n) := by
  rw [optionValue, if_pos (List.prefix_append _ _), List.drop_left, Assignment.decimal,
    CStr.strtoul_toDigits h]

/-- Each field gives its own part and no other. -/
theorem optionValue_text (k : Key) (a : Assignment) :
    optionValue k.name a.text = match a with
      | .mode _ => none
      | .part j v => if j = k then some v else none := by
  have hcolon : ∀ n, ':' ∉ Assignment.decimal n := fun _ => notMem_decimal rfl
  cases a with
  | mode i =>
      refine if_neg fun hpre => ?_
      rw [k.name_eq] at hpre
      have hmode : k.stem = "mode".toList :=
        (prefix_stem_iff (y := "mode".toList) (by decide) (hcolon i)).1 hpre
      cases k <;> exact absurd hmode (by decide)
  | part j v =>
      dsimp only [Assignment.text]
      by_cases hj : j = k
      · subst hj
        rw [if_pos rfl, optionValue_decimal v.isLt, BitVec.ofNat_toNat, BitVec.setWidth_eq]
      · rw [if_neg hj]
        refine if_neg fun hpre => ?_
        rw [k.name_eq, j.name_eq] at hpre
        exact hj (Key.stem_injective ((prefix_stem_iff j.colon_notMem_stem (hcolon _)).1 hpre).symm)

/-- The mode is given by the fields that choose one. -/
theorem optionValue_mode (a : Assignment) :
    optionValue "mode:".toList a.text = a.entry?.map fun i => BitVec.ofNat 32 i.val := by
  cases a with
  | mode i => exact optionValue_decimal (lt_trans i.isLt (by decide))
  | part k v =>
      refine if_neg fun hpre => ?_
      dsimp only [Assignment.text] at hpre
      rw [k.name_eq] at hpre
      have hmode : "mode".toList = k.stem :=
        (prefix_stem_iff (x := "mode".toList) k.colon_notMem_stem (notMem_decimal rfl)).1 hpre
      cases k <;> exact absurd hmode (by decide)

theorem Key.ext {s t : Setting} (h : ∀ k, Key.get s k = Key.get t k) : s = t := by
  rcases s with ⟨⟨⟩, _⟩
  rcases t with ⟨⟨⟩, _⟩
  have hx := h .x
  have hy := h .y
  have hrefresh := h .refresh
  have hle := h .le
  have hri := h .ri
  have hup := h .up
  have hlo := h .lo
  have hhs := h .hs
  have hvs := h .vs
  have hsync := h .sync
  have hvmode := h .vmode
  have hpclk := h .pclk
  have hpclkKhz := h .pclkKhz
  have hdepth := h .depth
  dsimp only [Key.get] at *
  subst_vars
  rfl

theorem applyField_text (s : Setting) (a : Assignment) : applyField s a.text = a.apply s := by
  refine Key.ext fun k => ?_
  rw [get_applyField, optionValue_text]
  cases a with
  | mode i => rfl
  | part j v =>
      dsimp only [Assignment.apply]
      by_cases hj : j = k
      · subst hj
        rw [if_pos rfl, Key.get_set_self]
        rfl
      · rw [if_neg hj, Key.get_set_of_ne _ _ (Ne.symm hj)]
        rfl

end Text

/-! ## Reading what has been written -/

section Reading

variable {l : List Assignment}

theorem lastValue_mode (l : List Assignment) :
    (lastValue "mode:".toList (l.map Assignment.text)).getD 0 = BitVec.ofNat 32 (chosenEntry l) := by
  have hmap : (l.map Assignment.text).filterMap (optionValue "mode:".toList) =
      (l.filterMap Assignment.entry?).map fun i => BitVec.ofNat 32 i.val := by
    rw [List.filterMap_map, List.map_filterMap]
    exact congrArg (List.filterMap · l) (funext optionValue_mode)
  rw [lastValue, hmap, List.getLast?_map, chosenEntry]
  cases (l.filterMap Assignment.entry?).getLast? <;> rfl

theorem modeOf_render {t : List Char} (ht : optionText t = render l) :
    (modeOf t).toInt = (chosenEntry l : ℤ) := by
  have hlt : (chosenEntry l : ℕ) < 10 := (chosenEntry l).isLt
  have hsmall : (BitVec.ofNat 32 (chosenEntry l)).toNat = chosenEntry l := by
    rw [BitVec.toNat_ofNat]
    omega
  rw [modeOf, ht, fields_render, lastValue_mode, BitVec.toInt_eq_toNat_of_lt (by omega), hsmall]

theorem foldl_text (l : List Assignment) (s : Setting) :
    (l.map Assignment.text).foldl applyField s = l.foldl Assignment.apply s := by
  rw [List.foldl_map]
  exact congrArg (fun f => l.foldl f s) (funext₂ applyField_text)

/-- A character that is in no field is not in the text either. -/
theorem notMem_render {c : Char} (hcomma : c ≠ ',') (h : ∀ a : Assignment, c ∉ a.text)
    (l : List Assignment) : c ∉ render l := by
  induction l with
  | nil => exact List.not_mem_nil
  | cons a l ih =>
      cases l with
      | nil =>
          rw [render, List.map_singleton, List.intercalate_singleton]
          exact h a
      | cons b l =>
          rw [render, List.map_cons, List.intercalate_cons_of_ne_nil (by simp)]
          exact List.not_mem_append (List.not_mem_append (h a) (List.mem_singleton.not.2 hcomma)) ih

theorem nul_notMem_text (a : Assignment) : nul ∉ a.text := by
  cases a with
  | mode i => exact List.not_mem_append (by decide) (notMem_decimal (by decide))
  | part k v => exact List.not_mem_append k.nul_notMem_name (notMem_decimal (by decide))

theorem equals_notMem_text (a : Assignment) : '=' ∉ a.text := by
  cases a with
  | mode i => exact List.not_mem_append (by decide) (notMem_decimal (by decide))
  | part k v => exact List.not_mem_append (by cases k <;> decide) (notMem_decimal (by decide))

/-- A written string without more is an option string, and so is one behind `video=ctfb:`. -/
theorem optionText_render (l : List Assignment) :
    optionText (render l) = render l ∧ optionText ("video=ctfb:".toList ++ render l) = render l := by
  constructor
  · have hnone : ¬ "video=ctfb:".toList <:+: render l := fun hpart =>
      notMem_render (by decide) equals_notMem_text l (hpart.subset (by decide))
    rw [optionText, behind_eq_none hnone]
    rfl
  · have hfound : behind "video=ctfb:".toList ("video=ctfb:".toList ++ render l) = some (render l) := by
      have hhere : "video=ctfb:".toList <+: ("video=ctfb:".toList ++ render l).drop 0 :=
        List.prefix_append _ _
      rw [behind_eq_some (by decide) hhere fun _ hj => absurd hj (Nat.not_lt_zero _), Nat.zero_add,
        List.drop_left]
    rw [optionText, hfound]
    rfl

theorem nul_notMem_render (l : List Assignment) : nul ∉ render l :=
  notMem_render (by decide) nul_notMem_text l

/-- The result for a string whose option text has been written out. -/
theorem videoGetParams_of_text (getenv : CString → Option CString) {t : List Char} (hnul : nul ∉ t)
    (ht : optionText t = render l) {penv : CString} (hget : (getenv penv).getD penv = t) :
    videoGetParams getenv penv = some (meaning l) := by
  have hmode : 0 ≤ (modeOf t).toInt := by
    rw [modeOf_render ht]
    exact Int.natCast_nonneg _
  rcases videoGetParams_spec hnul hget hmode with ⟨out, hout, i, hfrom⟩
  have hentry : i = chosenEntry l := by
    have hchosen := hfrom.chosen
    have hlt : ((chosenEntry l : ℕ) : ℤ) < RES_MODES_COUNT := Int.ofNat_lt.2 (chosenEntry l).isLt
    rw [modeIndex, modeOf_render ht, if_neg (Int.not_le.2 hlt)] at hchosen
    exact Fin.ext (Int.ofNat_inj.1 hchosen)
  rw [hout, hfrom.fold, ht, fields_render, foldl_text, hentry]
  rfl

/-- Every part of `s` is named, and nothing is said that is not so in `s`. -/
def Describes (l : List Assignment) (s : Setting) : Prop :=
  (∀ k, ∃ v, Assignment.part k v ∈ l) ∧ ∀ k v, Assignment.part k v ∈ l → v = Key.get s k

theorem Assignment.get_apply (s : Setting) (a : Assignment) (k : Key) :
    Key.get (a.apply s) k = Key.get s k ∨ ∃ v, a = .part k v ∧ Key.get (a.apply s) k = v := by
  cases a with
  | mode i => exact .inl rfl
  | part j v =>
      by_cases hj : j = k
      · subst hj
        exact .inr ⟨v, rfl, Key.get_set_self s v j⟩
      · exact .inl (Key.get_set_of_ne s v (Ne.symm hj))

/-- A part that is right already, or is named, is right in the end if nothing else is said of it. -/
theorem get_foldl_apply {s s₀ : Setting} {k : Key}
    (hsome : Key.get s₀ k = Key.get s k ∨ ∃ v, Assignment.part k v ∈ l)
    (hall : ∀ v, Assignment.part k v ∈ l → v = Key.get s k) :
    Key.get (l.foldl Assignment.apply s₀) k = Key.get s k := by
  induction l generalizing s₀ with
  | nil =>
      rcases hsome with hright | ⟨v, hv⟩
      · exact hright
      · cases hv
  | cons a l ih =>
      refine ih ?_ fun v hv => hall v (List.mem_cons_of_mem a hv)
      rcases a.get_apply s₀ k with hkept | ⟨v, rfl, hset⟩
      · rcases hsome with hright | ⟨v, hv⟩
        · exact .inl (hkept.trans hright)
        · rcases List.mem_cons.1 hv with rfl | hv
          · exact .inl ((Key.get_set_self s₀ v k).trans (hall v List.mem_cons_self))
          · exact .inr ⟨v, hv⟩
      · exact .inl (hset.trans (hall v List.mem_cons_self))

theorem meaning_of_describes {s : Setting} (h : Describes l s) : meaning l = s := by
  refine Key.ext fun k => ?_
  exact get_foldl_apply (.inr (h.1 k)) (h.2 k)

/-- Behind `video=ctfb:` the string is all that is loaded. -/
theorem reads_videoGetParams_render {mem : ℕ → Char} {p : ℕ}
    (hat : CStr.At mem p ("video=ctfb:".toList ++ render l)) :
    CStr.Reads mem p (p + ("video=ctfb:".toList ++ render l).length)
      (fun n => OptionReads.videoGetParams n (fun _ => none) p) (· = some (meaning l)) := by
  have hresult := videoGetParams_of_text (fun _ => none) hat.notMem (optionText_render l).2 rfl
  refine (OptionReads.reads_videoGetParams (CStr.Rest.of_at hat) (List.prefix_append _ _).isInfix).mono ?_
  rintro _ rfl
  exact hresult

/-- Whatever option string is written, bare or behind `video=ctfb:`, is read as what it says: the
assignments are carried out in their order on the entry that the last mode chooses, so a string that
describes a setting in full is read as that setting.  Behind `video=ctfb:` the loads stay within the
string; a bare string is searched beyond its end for these characters. -/
theorem videoGetParams_render (l : List Assignment) :
    videoGetParams (fun _ => none) (render l) = some (meaning l) ∧
      (∀ (mem : ℕ → Char) (p : ℕ), CStr.At mem p ("video=ctfb:".toList ++ render l) →
        CStr.Reads mem p (p + ("video=ctfb:".toList ++ render l).length)
          (fun n => OptionReads.videoGetParams n (fun _ => none) p) (· = some (meaning l))) ∧
      ∀ s, Describes l s → meaning l = s := by
  refine ⟨videoGetParams_of_text _ (nul_notMem_render l) (optionText_render l).1 rfl, fun mem p hat => ?_,
    fun s => meaning_of_describes⟩
  exact reads_videoGetParams_render hat

/-- The string of the board. -/
def boardOptions : List Assignment :=
  [.part .x 800, .part .y 480, .part .depth 16, .part .pclkKhz 33000, .part .le 87, .part .ri 40,
    .part .up 31, .part .lo 13, .part .hs 1, .part .vs 1, .part .sync 3, .part .vmode 0]

theorem render_boardOptions : render boardOptions = CONFIG_VIDEO_LCD_MODE.toList := by
  decide +kernel

theorem videoGetParams_render_board :
    videoGetParams (fun _ => none) CONFIG_VIDEO_LCD_MODE.toList = some (meaning boardOptions) := by
  rw [← render_boardOptions]
  exact (videoGetParams_render boardOptions).1

end Reading

end Lcd

end BspV3s
