import Mathlib.Data.List.Infix
import BspV3s.Lib.CString
import BspV3s.Lcd.Geometry

/-!
# Options — what an option string says

The text behind `video=ctfb:` is cut into fields at the commas, and the fields before the first empty
one are looked at twice: for the mode, which chooses an entry of the table, and for everything that
replaces a part of the entry.  A later field replaces what an earlier one of the same name has said.

* `forParams_eq`        : the loop over the parameters is a fold over the fields;
* `get_foldl`           : each part of the setting comes from the last field that names it;
* `videoGetParams_spec` : the result, for a mode that is not negative.
-/

namespace BspV3s

namespace Lcd

open CStr (nul)

/-! ## The parts of a setting -/

/-- The mode parameters and the depth. -/
abbrev Setting := CtfbResModes × U32

/-- The options of the second pass, in the order in which they are compared. -/
inductive Key
  | x
  | y
  | refresh
  | le
  | ri
  | up
  | lo
  | hs
  | vs
  | sync
  | vmode
  | pclk
  | pclkKhz
  | depth
  deriving DecidableEq

namespace Key

def all : List Key :=
  [x, y, refresh, le, ri, up, lo, hs, vs, sync, vmode, pclk, pclkKhz, depth]

def name : Key → List Char
  | x => "x:".toList
  | y => "y:".toList
  | refresh => "refresh:".toList
  | le => "le:".toList
  | ri => "ri:".toList
  | up => "up:".toList
  | lo => "lo:".toList
  | hs => "hs:".toList
  | vs => "vs:".toList
  | sync => "sync:".toList
  | vmode => "vmode:".toList
  | pclk => "pclk:".toList
  | pclkKhz => "pclk_khz:".toList
  | depth => "depth:".toList

def get (s : Setting) : Key → U32
  | x => s.1.xres
  | y => s.1.yres
  | refresh => s.1.refresh
  | le => s.1.leftMargin
  | ri => s.1.rightMargin
  | up => s.1.upperMargin
  | lo => s.1.lowerMargin
  | hs => s.1.hsyncLen
  | vs => s.1.vsyncLen
  | sync => s.1.sync
  | vmode => s.1.vmode
  | pclk => s.1.pixclock
  | pclkKhz => s.1.pixclockKhz
  | depth => s.2

def set (s : Setting) (v : U32) : Key → Setting
  | x => ({ s.1 with xres := v }, s.2)
  | y => ({ s.1 with yres := v }, s.2)
  | refresh => ({ s.1 with refresh := v }, s.2)
  | le => ({ s.1 with leftMargin := v }, s.2)
  | ri => ({ s.1 with rightMargin := v }, s.2)
  | up => ({ s.1 with upperMargin := v }, s.2)
  | lo => ({ s.1 with lowerMargin := v }, s.2)
  | hs => ({ s.1 with hsyncLen := v }, s.2)
  | vs => ({ s.1 with vsyncLen := v }, s.2)
  | sync => ({ s.1 with sync := v }, s.2)
  | vmode => ({ s.1 with vmode := v }, s.2)
  | pclk => ({ s.1 with pixclock := v }, s.2)
  | pclkKhz => ({ s.1 with pixclockKhz := v }, s.2)
  | depth => (s.1, v)

variable {j k : Key} {s t : Setting}

theorem get_set_self (s : Setting) (v : U32) (k : Key) : get (set s v k) k = v := by
  cases k <;> rfl

theorem get_set_of_ne (s : Setting) (v : U32) (h : j ≠ k) : get (set s v k) j = get s j := by
  cases k <;> cases j <;> first | rfl | exact absurd rfl h

theorem mem_all (k : Key) : k ∈ all := by
  cases k <;> decide

theorem nodup_all : all.Nodup := by
  decide

theorem comma_notMem_name (k : Key) : ',' ∉ k.name := by
  cases k <;> decide

theorem nul_notMem_name (k : Key) : nul ∉ k.name := by
  cases k <;> decide

end Key

/-! ## Fields -/

/-- The first field. -/
def field (u : List Char) : List Char := u.takeWhile (· ≠ ',')

/-- The fields of a text, up to the first empty one. -/
def fields (t : List Char) : List (List Char) := (t.splitOn ',').takeWhile (· ≠ [])

/-- The number in a field that begins with the name. -/
def optionValue (name f : List Char) : Option U32 :=
  if name <+: f then some (CStr.strtoul (f.drop name.length)) else none

/-- What the last field that begins with the name says. -/
def lastValue (name : List Char) (fs : List (List Char)) : Option U32 :=
  (fs.filterMap (optionValue name)).getLast?

/-- A field replaces what it names. -/
def applyField (s : Setting) (f : List Char) : Setting :=
  Key.all.foldl (fun s k => Key.set s ((optionValue k.name f).getD (Key.get s k)) k) s

/-- The text behind the first place where the name stands. -/
def behind (name : List Char) : List Char → Option (List Char)
  | [] => none
  | c :: s => if name <+: c :: s then some ((c :: s).drop name.length) else behind name s

def optionText (s : List Char) : List Char :=
  (behind "video=ctfb:".toList s).getD s

def modeOf (s : List Char) : U32 :=
  (lastValue "mode:".toList (fields (optionText s))).getD 0

/-- The mode whose entry is chosen: a number behind the end of the table stands for the first. -/
def modeIndex (s : List Char) : ℤ :=
  if RES_MODES_COUNT ≤ (modeOf s).toInt then 0 else (modeOf s).toInt

/-- An entry of the table with the depth that goes with it. -/
def entry (i : Fin resModeInit.length) : Setting :=
  (resModeInit.get i, 24 - BitVec.ofNat 32 (i % 3) * 8)

/-- The result as the fields of the string give it, part by part and as a whole, with the entry `i` of
the table for what they do not give. -/
structure FromEntry (s : List Char) (i : Fin resModeInit.length) (out : Setting) : Prop where
  chosen : (i : ℤ) = modeIndex s
  inTable : (i : ℤ) < RES_MODES_COUNT
  fold : out = (fields (optionText s)).foldl applyField (entry i)
  last : ∀ k, Key.get out k =
    (lastValue k.name (fields (optionText s))).getD (Key.get (entry i) k)

def Parsed (s : List Char) (out : Setting) : Prop := ∃ i, FromEntry s i out

/-! ## The first field -/

section Fields

variable {σ : Type} {name u s : List Char}

theorem field_append_dropWhile (u : List Char) : field u ++ u.dropWhile (· ≠ ',') = u :=
  List.takeWhile_append_dropWhile

theorem comma_notMem_field (u : List Char) : ',' ∉ field u := by
  intro h
  have hne := List.mem_takeWhile_imp (p := fun c => decide (c ≠ ',')) h
  exact of_decide_eq_true hne rfl

/-- Where a string stops to have characters other than the comma, it ends or has one. -/
theorem rest_of_field (u : List Char) :
    u = field u ∨ ∃ r, u = field u ++ ',' :: r := by
  have hu := field_append_dropWhile u
  cases hrest : u.dropWhile (· ≠ ',') with
  | nil =>
      rw [hrest, List.append_nil] at hu
      exact Or.inl hu.symm
  | cons c r =>
      have hc : c = ',' := by
        have hnot := List.head?_dropWhile_not (· ≠ ',') u
        rw [hrest] at hnot
        simpa using hnot
      rw [hrest, hc] at hu
      exact Or.inr ⟨r, hu.symm⟩

theorem fields_of_empty (h : field u = []) : fields u = [] := by
  rcases rest_of_field u with hu | ⟨r, hu⟩
  · rw [hu, h]
    rfl
  · rw [hu, h, fields, List.splitOn_append_cons_self_of_not_mem List.not_mem_nil]
    exact List.takeWhile_cons_of_neg (by simp)

/-- The first field, and the fields behind its comma. -/
theorem fields_cons (h : field u ≠ []) :
    fields u = field u :: fields ((u.drop (field u).length).drop 1) := by
  rcases rest_of_field u with hu | ⟨r, hu⟩
  · have hnone : ',' ∉ u := by
      rw [hu]
      exact comma_notMem_field u
    have hu' : u ≠ [] := fun hnil => h (by rw [hnil]; rfl)
    calc fields u
        = [u].takeWhile (· ≠ []) := by rw [fields, List.splitOn_eq_singleton hnone]
      _ = [u] := List.takeWhile_cons_of_pos (decide_eq_true hu')
      _ = u :: fields ((u.drop u.length).drop 1) := by rw [List.drop_length]; rfl
      _ = field u :: fields ((u.drop (field u).length).drop 1) := by rw [← hu]
  · have hdrop : (u.drop (field u).length).drop 1 = r := by
      calc (u.drop (field u).length).drop 1
          = ((field u ++ ',' :: r).drop (field u).length).drop 1 := by rw [← hu]
        _ = r := by rw [List.drop_left, List.drop_one, List.tail_cons]
    calc fields u
        = (field u :: r.splitOn ',').takeWhile (· ≠ []) := by
          rw [← List.splitOn_append_cons_self_of_not_mem (comma_notMem_field u), ← hu, fields]
      _ = field u :: fields r := List.takeWhile_cons_of_pos (decide_eq_true h)
      _ = field u :: fields ((u.drop (field u).length).drop 1) := by rw [hdrop]

/-- The length up to a comma or to the end of the string. -/
theorem videoGetParamLen_eq (hu : nul ∉ u) : videoGetParamLen u ',' = (field u).length := by
  induction u with
  | nil => rfl
  | cons c u ih =>
      rw [List.mem_cons, not_or] at hu
      have hc : c ≠ nul := fun h => hu.1 h.symm
      unfold videoGetParamLen field at ih ⊢
      by_cases hcomma : c = ','
      · rw [List.takeWhile_cons_of_neg (by simp [hcomma]),
          List.takeWhile_cons_of_neg (by simp [hcomma])]
      · rw [List.takeWhile_cons_of_pos (by simp [hcomma, hc]),
          List.takeWhile_cons_of_pos (by simp [hcomma]), List.length_cons, List.length_cons, ih hu.2]

theorem prefix_append_cons_iff {c : Char} {f r : List Char} (hname : c ∉ name) :
    name <+: f ++ c :: r ↔ name <+: f := by
  induction name generalizing f with
  | nil => exact iff_of_true (List.nil_prefix) (List.nil_prefix)
  | cons d name ih =>
      rw [List.mem_cons, not_or] at hname
      cases f with
      | nil =>
          refine iff_of_false (fun h => hname.1 ?_) fun h => ?_
          · exact (List.cons_prefix_cons.1 h).1.symm
          · exact List.cons_ne_nil _ _ (List.prefix_nil.1 h)
      | cons e f => rw [List.cons_append, List.cons_prefix_cons, List.cons_prefix_cons, ih hname.2]

/-- An option is looked for at the beginning of a field, and its number ends with the field. -/
theorem getOption_eq (hname : ',' ∉ name) (var : U32) :
    getOption u name var = (optionValue name (field u)).getD var := by
  have hget : ∀ f, getOption f name var = (optionValue name f).getD var := by
    intro f
    unfold getOption optionValue
    by_cases h : name <+: f
    · rw [if_pos h, if_pos (List.isPrefixOf_iff_prefix.2 h)]
      rfl
    · rw [if_neg h, if_neg fun hpre => h (List.isPrefixOf_iff_prefix.1 hpre)]
      rfl
  rcases rest_of_field u with hu | ⟨r, hu⟩
  · rw [← hu, hget]
  · generalize field u = f at hu ⊢
    subst hu
    rw [hget]
    congr 1
    unfold optionValue
    simp only [prefix_append_cons_iff hname]
    split
    · next h =>
        rw [List.drop_append_of_le_length h.length_le, CStr.strtoul_append (by decide)]
    · rfl

/-- The loop over the parameters is a fold over the fields. -/
theorem forParams_eq {body : σ → CString → σ} {step : σ → List Char → σ}
    (hbody : ∀ a u, body a u = step a (field u)) {n : ℕ} (hn : u.length ≤ n) (hu : nul ∉ u) (a : σ) :
    forParams body n u a = (fields u).foldl step a := by
  induction n generalizing u a with
  | zero =>
      cases List.length_eq_zero_iff.1 (Nat.le_zero.1 hn)
      rfl
  | succ n ih =>
      unfold forParams
      dsimp only
      rw [videoGetParamLen_eq hu]
      split
      · next hlen => rw [fields_of_empty (List.length_eq_zero_iff.1 hlen), List.foldl_nil]
      · next hlen =>
          have hrest : ∀ c, c ∈ u.drop (field u).length → c ∈ u := fun c => List.mem_of_mem_drop
          have hnul : (u.drop (field u).length).head? ≠ some nul := by
            intro h
            exact hu (hrest _ (List.mem_of_mem_head? h))
          rw [if_neg hnul, fields_cons (fun h => hlen (List.length_eq_zero_iff.2 h)), List.foldl_cons,
            hbody]
          refine ih ?_ (fun h => hu (hrest _ (List.mem_of_mem_drop h))) _
          rw [List.length_drop, List.length_drop]
          omega

end Fields

/-! ## The last field of a name -/

section Last

variable {α β : Type}

/-- Replacing again and again leaves the last one. -/
theorem foldl_getD (g : α → Option β) (fs : List α) (b : β) :
    fs.foldl (fun b f => (g f).getD b) b = (fs.filterMap g).getLast?.getD b := by
  induction fs generalizing b with
  | nil => rfl
  | cons f fs ih =>
      rw [List.foldl_cons, ih]
      cases hf : g f with
      | none => rw [List.filterMap_cons_none hf, Option.getD_none]
      | some c =>
          rw [List.filterMap_cons_some hf, List.getLast?_cons, Option.getD_some, Option.getD_some]

theorem get_foldl_set {g : Key → U32 → U32} {j : Key} (ks : List Key) (hks : ks.Nodup) (s : Setting) :
    Key.get (ks.foldl (fun s k => Key.set s (g k (Key.get s k)) k) s) j =
      if j ∈ ks then g j (Key.get s j) else Key.get s j := by
  induction ks generalizing s with
  | nil => rfl
  | cons k ks ih =>
      rw [List.nodup_cons] at hks
      rw [List.foldl_cons, ih hks.2]
      by_cases hj : j = k
      · subst hj
        rw [if_neg hks.1, if_pos List.mem_cons_self, Key.get_set_self]
      · simp only [Key.get_set_of_ne _ _ hj, List.mem_cons, hj, false_or]

theorem get_applyField (s : Setting) (f : List Char) (j : Key) :
    Key.get (applyField s f) j = (optionValue j.name f).getD (Key.get s j) :=
  (get_foldl_set Key.all Key.nodup_all s).trans (if_pos (Key.mem_all j))

/-- Each part of the setting comes from the last field that names it. -/
theorem get_foldl (fs : List (List Char)) (s : Setting) (k : Key) :
    Key.get (fs.foldl applyField s) k = (lastValue k.name fs).getD (Key.get s k) := by
  calc Key.get (fs.foldl applyField s) k
      = fs.foldl (fun v f => (optionValue k.name f).getD v) (Key.get s k) :=
        (List.foldl_hom (Key.get · k) fun s f => (get_applyField s f k).symm).symm
    _ = (lastValue k.name fs).getD (Key.get s k) := foldl_getD _ fs _

end Last

/-! ## The search -/

section Search

variable {name s : List Char} {i : ℕ}

/-- A name that stands somewhere ends there in the string. -/
theorem end_le (hname : name ≠ []) (h : name <+: s.drop i) : i + name.length ≤ s.length := by
  have hlen : name.length ≤ s.length - i := h.length_le.trans_eq List.length_drop
  have hpos := List.length_pos_iff.2 hname
  omega

theorem infix_iff_prefix_drop : name <:+: s ↔ ∃ i, name <+: s.drop i := by
  rw [List.infix_iff_prefix_suffix]
  constructor
  · rintro ⟨t, hpre, hsuffix⟩
    rw [List.suffix_iff_eq_drop.1 hsuffix] at hpre
    exact ⟨_, hpre⟩
  · rintro ⟨i, h⟩
    exact ⟨_, h, List.drop_suffix i s⟩

/-- The search finds the first place. -/
theorem videoSearchParam_eq_some (h : videoSearchParam s name = some i) :
    name <+: s.drop i ∧ ∀ j < i, ¬ name <+: s.drop j := by
  rcases List.find?_range_eq_some.1 h with ⟨hhere, -, hbefore⟩
  refine ⟨List.isPrefixOf_iff_prefix.1 hhere, fun j hj hpre => ?_⟩
  have hnot := hbefore j hj
  rw [List.isPrefixOf_iff_prefix.2 hpre] at hnot
  cases hnot

theorem videoSearchParam_eq_none_iff (hname : name ≠ []) (hs : nul ∉ s) :
    videoSearchParam s name = none ↔ ¬ name <:+: s := by
  unfold videoSearchParam
  rw [List.find?_range_eq_none, infix_iff_prefix_drop, not_exists]
  constructor
  · intro h i hpre
    have hend := end_le hname hpre
    have hpos := List.length_pos_iff.2 hname
    have hi : i < name.length + CStr.strlen s := by
      rw [CStr.strlen_eq hs]
      omega
    have hnot := h i hi
    rw [List.isPrefixOf_iff_prefix.2 hpre] at hnot
    cases hnot
  · intro h i hi
    rw [Bool.not_eq_true']
    exact Bool.eq_false_iff.2 fun hpre => h i (List.isPrefixOf_iff_prefix.1 hpre)

theorem behind_eq_some (hname : name ≠ []) (h : name <+: s.drop i)
    (hfirst : ∀ j < i, ¬ name <+: s.drop j) : behind name s = some (s.drop (i + name.length)) := by
  induction s generalizing i with
  | nil =>
      rw [List.drop_nil] at h
      exact absurd (List.prefix_nil.1 h) hname
  | cons c s ih =>
      unfold behind
      cases i with
      | zero =>
          have hhere : name <+: c :: s := h
          rw [if_pos hhere, Nat.zero_add]
      | succ i =>
          have hnot : ¬ name <+: c :: s := hfirst 0 (Nat.succ_pos i)
          rw [if_neg hnot, ih h fun j hj => hfirst (j + 1) (Nat.succ_lt_succ hj), Nat.add_right_comm,
            List.drop_succ_cons]

theorem behind_eq_none (h : ¬ name <:+: s) : behind name s = none := by
  induction s with
  | nil => rfl
  | cons c s ih =>
      unfold behind
      rw [if_neg fun hpre => h hpre.isInfix]
      exact ih fun hoccurs => h (hoccurs.trans (List.suffix_cons c s).isInfix)

/-- Where the options begin. -/
theorem elim_videoSearchParam (hname : name ≠ []) (hs : nul ∉ s) :
    (videoSearchParam s name).elim s (fun i => s.drop (i + name.length)) = (behind name s).getD s := by
  cases h : videoSearchParam s name with
  | none =>
      rw [behind_eq_none ((videoSearchParam_eq_none_iff hname hs).1 h)]
      rfl
  | some i =>
      rcases videoSearchParam_eq_some h with ⟨hhere, hfirst⟩
      rw [behind_eq_some hname hhere hfirst]
      rfl

theorem behind_suffix {t : List Char} (h : behind name s = some t) : t <:+ s := by
  induction s with
  | nil => cases h
  | cons c s ih =>
      unfold behind at h
      split at h
      · cases h
        exact List.drop_suffix _ _
      · exact (ih h).trans (List.suffix_cons c s)

theorem nul_notMem_optionText (hs : nul ∉ s) : nul ∉ optionText s := by
  unfold optionText
  cases h : behind "video=ctfb:".toList s with
  | none => exact hs
  | some t => exact fun hnul => hs ((behind_suffix h).subset hnul)

end Search

/-! ## The result -/

section Result

variable {getenv : CString → Option CString} {penv : CString} {s : List Char}

/-- The mode that the table is indexed with. -/
def modeUsed (s : List Char) : U32 :=
  if RES_MODES_COUNT ≤ (modeOf s).toInt then 0 else modeOf s

theorem modeIndex_eq (s : List Char) : modeIndex s = (modeUsed s).toInt := by
  unfold modeIndex modeUsed
  split
  · rfl
  · rfl

/-- The body of the second loop. -/
def applyOptions (s : Setting) (p : CString) : Setting :=
  Key.all.foldl (fun s k => Key.set s (getOption p k.name (Key.get s k)) k) s

theorem applyOptions_eq (s : Setting) (p : CString) : applyOptions s p = applyField s (field p) := by
  unfold applyOptions applyField
  simp only [getOption_eq (Key.comma_notMem_name _)]

/-- The two loops, where the options begin. -/
def twoPasses (t : CString) : Option Setting :=
  let mode := forParams (fun mode p => getOption p "mode:".toList mode) t.length t 0
  let mode := if RES_MODES_COUNT ≤ mode.toInt then 0 else mode
  if mode.toInt < 0 then none
  else (resModeInit[mode.toNat]?).bind fun par =>
    some (forParams applyOptions t.length t (par, 24 - mode % 3 * 8))

theorem videoGetParams_passes (getenv : CString → Option CString) (penv : CString) :
    videoGetParams getenv penv =
      twoPasses ((videoSearchParam ((getenv penv).getD penv) "video=ctfb:".toList).elim
        ((getenv penv).getD penv)
        fun i => ((getenv penv).getD penv).drop (i + "video=ctfb:".toList.length)) :=
  rfl

theorem videoGetParams_eq (hs : nul ∉ s) (hget : (getenv penv).getD penv = s) :
    videoGetParams getenv penv =
      if (modeUsed s).toInt < 0 then none
      else (resModeInit[(modeUsed s).toNat]?).bind fun par =>
        some ((fields (optionText s)).foldl applyField (par, 24 - modeUsed s % 3 * 8)) := by
  have htext : nul ∉ optionText s := nul_notMem_optionText hs
  have hmode : forParams (fun mode p => getOption p "mode:".toList mode) (optionText s).length
      (optionText s) 0 = modeOf s := by
    calc forParams (fun mode p => getOption p "mode:".toList mode) (optionText s).length
          (optionText s) 0
        = (fields (optionText s)).foldl (fun m f => (optionValue "mode:".toList f).getD m) 0 :=
          forParams_eq (fun m u => getOption_eq (by decide) m) (Nat.le_refl _) htext 0
      _ = modeOf s := foldl_getD _ _ _
  rw [videoGetParams_passes, hget, elim_videoSearchParam (by decide) hs, ← optionText]
  unfold twoPasses
  dsimp only
  rw [hmode, ← modeUsed]
  simp only [forParams_eq applyOptions_eq (Nat.le_refl _) htext]

/-- A mode that is not negative chooses an entry, and the options replace what they name. -/
theorem videoGetParams_spec (hs : nul ∉ s) (hget : (getenv penv).getD penv = s)
    (hmode : 0 ≤ (modeOf s).toInt) : ∃ out, videoGetParams getenv penv = some out ∧ Parsed s out := by
  have hused : 0 ≤ (modeUsed s).toInt ∧ (modeUsed s).toInt < RES_MODES_COUNT := by
    unfold modeUsed
    split
    · decide
    · next hlt => exact ⟨hmode, Int.not_le.1 hlt⟩
  -- A word that is not negative has one value, with sign and without.
  have hnat : ((modeUsed s).toNat : ℤ) = (modeUsed s).toInt := by
    have hsign := BitVec.toInt_eq_toNat_cond (modeUsed s)
    have hbits := (modeUsed s).isLt
    split_ifs at hsign
    · exact hsign.symm
    · omega
  have hlt : (modeUsed s).toNat < resModeInit.length := by
    refine Int.ofNat_lt.1 ?_
    rw [hnat]
    exact hused.2
  have hentry : ((resModeInit.get ⟨(modeUsed s).toNat, hlt⟩, 24 - modeUsed s % 3 * 8) : Setting) =
      entry ⟨(modeUsed s).toNat, hlt⟩ := by
    unfold entry
    rw [BitVec.umod_def]
    rfl
  -- The entry is the one that the code copies, and `get_foldl` gives its parts.
  refine ⟨(fields (optionText s)).foldl applyField (entry ⟨(modeUsed s).toNat, hlt⟩), ?_,
    ⟨(modeUsed s).toNat, hlt⟩, ?_⟩
  · rw [videoGetParams_eq hs hget, if_neg (Int.not_lt.2 hused.1), List.getElem?_eq_getElem hlt,
      ← hentry]
    rfl
  · exact
      { chosen := by rw [modeIndex_eq, hnat]
        inTable := by rw [hnat]; exact hused.2
        fold := rfl
        last := fun k => get_foldl _ _ k }

/-- A negative one reads the table outside its bounds. -/
theorem videoGetParams_none (hs : nul ∉ s) (hget : (getenv penv).getD penv = s)
    (hmode : ¬ 0 ≤ (modeOf s).toInt) : videoGetParams getenv penv = none := by
  have hused : modeUsed s = modeOf s := by
    refine if_neg fun h => hmode ?_
    exact Int.le_trans (by decide) h
  rw [videoGetParams_eq hs hget, hused, if_pos (Int.not_le.1 hmode)]

end Result

end Lcd

end BspV3s
