import BspV3s.Lcd.Options

/-!
# OptionReads — what is loaded of an option string

The routines that take the option string apart, one load after the other.  The search for
`video=ctfb:` tries every place of the string and some behind its end, so that a string in which it
does not occur is left; every other loop stops at the NUL.

* `reads_videoGetParams`     : where the search succeeds only the string is loaded;
* `not_stays_videoGetParams` : where it fails the loads go on behind the string;
* `right_iff`                : the strings for which everything is as it should be.
-/

namespace BspV3s

namespace Lcd

namespace OptionReads

open CStr (nul Reader load overrun Rest Reads Stays)

/-! ## The routines -/

/-- `video_get_param_len`. -/
def videoGetParamLen (n start : ℕ) (sep : Char) : Reader ℕ :=
  CStr.countWhile (fun c => c ≠ nul ∧ c ≠ sep) n start

/-- The loop of `video_search_param`, with `k` rounds to go. -/
def searchLoop (start : ℕ) (param : List Char) : ℕ → ℕ → Reader (Option ℕ)
  | 0, _ => pure none
  | k + 1, i => do
      let r ← CStr.strncmp (start + i) param
      if r = 0 then pure (some i) else searchLoop start param k (i + 1)

/-- `video_search_param`; the name is a constant. -/
def videoSearchParam (n start : ℕ) (param : List Char) : Reader (Option ℕ) := do
  let length ← CStr.readStrlen n start
  searchLoop start param (param.length + length) 0

/-- `GET_OPTION`. -/
def getOption (n p : ℕ) (name : List Char) (var : U32) : Reader U32 := do
  let r ← CStr.strncmp p name
  if r = 0 then CStr.readStrtoul n (p + name.length) else pure var

/-- One `GET_OPTION` after the other. -/
def getOptions (n p : ℕ) : List Key → Setting → Reader Setting
  | [], s => pure s
  | k :: ks, s => do
      let v ← getOption n p k.name (Key.get s k)
      getOptions n p ks (Key.set s v k)

/-- The loop over the parameters. -/
def forParams {σ : Type} (body : ℕ → ℕ → σ → Reader σ) : ℕ → ℕ → σ → Reader σ
  | 0, _, s => overrun s
  | n + 1, p, s => do
      let i ← videoGetParamLen n p ','
      if i = 0 then pure s
      else do
        let s ← body n p s
        let c ← load (p + i)
        forParams body n (if c ≠ nul then p + i + 1 else p + i) s

/-- The two loops of `video_get_params`; nothing when `res_mode_init` is read outside its bounds. -/
def twoPasses (n s : ℕ) : Reader (Option Setting) := do
  let mode ← forParams (fun n p mode => getOption n p "mode:".toList mode) n s 0
  let mode := if RES_MODES_COUNT ≤ mode.toInt then 0 else mode
  match (if mode.toInt < 0 then none else resModeInit[mode.toNat]?) with
  | none => pure none
  | some par => do
      -- The mode is not negative here, and the signed remainder is the unsigned one.
      let out ← forParams (fun n p out => getOptions n p Key.all out) n s (par, 24 - mode % 3 * 8)
      pure (some out)

/-- `video_get_params`. -/
def videoGetParams (n : ℕ) (getenv : ℕ → Option ℕ) (penv : ℕ) : Reader (Option Setting) := do
  let s := (getenv penv).getD penv
  let i ← videoSearchParam n s "video=ctfb:".toList
  twoPasses n (i.elim s fun i => s + i + "video=ctfb:".toList.length)

/-! ## Loads of the string only -/

section Loads

variable {σ : Type} {mem : ℕ → Char} {lo hi p i k : ℕ} {u name : List Char}

theorem reads_videoGetParamLen (hs : Rest mem lo hi p u) :
    Reads mem lo hi (fun n => videoGetParamLen n p ',') (· = Lcd.videoGetParamLen u ',') :=
  CStr.reads_countWhile (by decide) hs

theorem reads_getOption (hname : nul ∉ name) (hs : Rest mem lo hi p u) (var : U32) :
    Reads mem lo hi (fun n => getOption n p name var) (· = Lcd.getOption u name var) := by
  refine (CStr.reads_strncmp hname hs).seq fun r hr => ?_
  unfold Lcd.getOption
  by_cases h : name <+: u
  · simp only [hr.2 h, if_true, List.isPrefixOf_iff_prefix.2 h]
    exact CStr.reads_strtoul (hs.drop h.length_le)
  · have hzero : r ≠ 0 := fun hzero => h (hr.1 hzero)
    rw [if_neg fun hpre => h (List.isPrefixOf_iff_prefix.1 hpre)]
    simp only [hzero, if_false]
    exact Reads.ret rfl

theorem reads_getOptions (ks : List Key) (hs : Rest mem lo hi p u) (s : Setting) :
    Reads mem lo hi (fun n => getOptions n p ks s)
      (· = ks.foldl (fun s k => Key.set s (Lcd.getOption u k.name (Key.get s k)) k) s) := by
  induction ks generalizing s with
  | nil => exact Reads.ret rfl
  | cons k ks ih =>
      refine (reads_getOption k.nul_notMem_name hs _).seq ?_
      rintro _ rfl
      exact ih _

/-- The loop over the parameters, if each round stays within the string. -/
theorem reads_forParams {body : ℕ → ℕ → σ → Reader σ} {body' : σ → CString → σ}
    (hbody : ∀ p u a, Rest mem lo hi p u → Reads mem lo hi (fun n => body n p a) (· = body' a u))
    {m : ℕ} (hm : u.length ≤ m) (hs : Rest mem lo hi p u) (a : σ) :
    Reads mem lo hi (fun n => forParams body n p a) (· = Lcd.forParams body' m u a) := by
  induction m generalizing p u a with
  | zero =>
      cases List.length_eq_zero_iff.1 (Nat.le_zero.1 hm)
      refine Reads.of_rounds (fun _ => rfl) ((reads_videoGetParamLen hs).seq ?_)
      rintro _ rfl
      exact Reads.ret rfl
  | succ m ih =>
      refine Reads.of_rounds (fun _ => rfl) ((reads_videoGetParamLen hs).seq ?_)
      rintro _ rfl
      unfold Lcd.forParams
      dsimp only
      split
      · exact Reads.ret rfl
      · next hlen =>
          refine (hbody p u a hs).seq ?_
          rintro _ rfl
          have hle : Lcd.videoGetParamLen u ',' ≤ u.length := CStr.length_takeWhile_le _ u
          have hrest := hs.drop hle
          have hpos : 0 < Lcd.videoGetParamLen u ',' := Nat.pos_of_ne_zero hlen
          have hshort : (u.drop (Lcd.videoGetParamLen u ',')).length ≤ m := by
            rw [List.length_drop]
            omega
          refine Reads.load_bind hrest ?_
          -- The comma is skipped, and the NUL is not.
          generalize u.drop (Lcd.videoGetParamLen u ',') = r at hrest hshort ⊢
          cases r with
          | nil => exact ih hshort hrest _
          | cons c r =>
              have hc : c ≠ nul := hrest.here.2.1
              have hhead : (c :: r).head? ≠ some nul := fun h => hc (Option.some_inj.1 h)
              rw [if_neg hhead]
              simp only [List.headD_cons, hc, ne_eq, not_false_eq_true, if_true]
              exact ih (Nat.le_of_succ_le hshort) hrest.tail _

/-- The search stops where it has found the name. -/
theorem reads_searchLoop (hname : nul ∉ name) {start i j k : ℕ} (hs : Rest mem lo hi (start + i) u)
    (hhere : name <+: u.drop j) (hfirst : ∀ l < j, ¬ name <+: u.drop l) (hk : j < k) :
    Reads mem lo hi (fun _ => searchLoop start name k i) (· = some (i + j)) := by
  induction j generalizing u i k with
  | zero =>
      cases k with
      | zero => exact absurd hk (Nat.not_lt_zero 0)
      | succ k =>
          refine (CStr.reads_strncmp hname hs).seq fun r hr => ?_
          rw [if_pos (hr.2 hhere)]
          exact Reads.ret rfl
  | succ j ih =>
      cases k with
      | zero => exact absurd hk (Nat.not_lt_zero _)
      | succ k =>
          refine (CStr.reads_strncmp hname hs).seq fun r hr => ?_
          rw [if_neg fun hzero => hfirst 0 (Nat.succ_pos j) (hr.1 hzero)]
          cases u with
          | nil => exact absurd hhere (hfirst 0 (Nat.succ_pos j))
          | cons c u =>
              have hrest := ih (i := i + 1) hs.tail hhere
                (fun l hl => hfirst (l + 1) (Nat.succ_lt_succ hl)) (Nat.lt_of_succ_lt_succ hk)
              rwa [Nat.add_assoc, Nat.add_comm 1] at hrest

theorem reads_videoSearchParam (hname : nul ∉ name) (hne : name ≠ []) (hs : Rest mem lo hi p u)
    (hfound : name <:+: u) :
    Reads mem lo hi (fun n => videoSearchParam n p name) (· = Lcd.videoSearchParam u name) := by
  have hnul := hs.here.notMem
  cases h : Lcd.videoSearchParam u name with
  | none => exact absurd hfound ((videoSearchParam_eq_none_iff hne hnul).1 h)
  | some j =>
      rcases videoSearchParam_eq_some h with ⟨hhere, hfirst⟩
      have hj : j < name.length + u.length := by
        have hend := end_le hne hhere
        have hpos := List.length_pos_iff.2 hne
        omega
      refine (CStr.reads_strlen hs).seq ?_
      rintro _ rfl
      have hloop := reads_searchLoop (i := 0) hname hs hhere hfirst hj
      rwa [Nat.zero_add] at hloop

theorem reads_twoPasses (hs : Rest mem lo hi p u) :
    Reads mem lo hi (fun n => twoPasses n p) (· = Lcd.twoPasses u) := by
  have hbody : ∀ p u mode, Rest mem lo hi p u → Reads mem lo hi
      (fun n => getOption n p "mode:".toList mode) (· = Lcd.getOption u "mode:".toList mode) :=
    fun p u mode hu => reads_getOption (by decide) hu mode
  refine (reads_forParams hbody (Nat.le_refl _) hs 0).seq ?_
  rintro _ rfl
  unfold Lcd.twoPasses
  dsimp only
  generalize Lcd.forParams (fun mode p => Lcd.getOption p "mode:".toList mode) u.length u 0 = mode
  generalize (if RES_MODES_COUNT ≤ mode.toInt then 0 else mode) = mode
  by_cases hneg : mode.toInt < 0
  · simp only [hneg, if_true]
    exact Reads.ret rfl
  · simp only [hneg, if_false]
    cases resModeInit[mode.toNat]? with
    | none => exact Reads.ret rfl
    | some par =>
        refine (reads_forParams (fun p u a hu => reads_getOptions Key.all hu a) (Nat.le_refl _) hs
          (par, 24 - mode % 3 * 8)).seq ?_
        rintro _ rfl
        exact Reads.ret rfl

/-- Where the search succeeds only the string is loaded, and the result is that of the functions on
the characters. -/
theorem reads_videoGetParams {getenv : ℕ → Option ℕ} {penv : ℕ}
    (hs : Rest mem lo hi ((getenv penv).getD penv) u) (hfound : "video=ctfb:".toList <:+: u) :
    Reads mem lo hi (fun n => videoGetParams n getenv penv)
      (· = Lcd.videoGetParams (fun _ => none) u) := by
  have hne : "video=ctfb:".toList ≠ [] := by decide
  refine (reads_videoSearchParam (by decide) hne hs hfound).seq ?_
  rintro _ rfl
  rw [videoGetParams_passes, Option.getD_none]
  cases h : Lcd.videoSearchParam u "video=ctfb:".toList with
  | none => exact absurd hfound ((videoSearchParam_eq_none_iff hne hs.here.notMem).1 h)
  | some j =>
      have hrest := hs.drop (end_le hne (videoSearchParam_eq_some h).1)
      rw [← Nat.add_assoc] at hrest
      exact reads_twoPasses hrest

/-! ## Loads behind the string -/

/-- After a place where the name does not stand comes the next one. -/
theorem stays_next (hname : nul ∉ name) {start i k : ℕ} (hs : Rest mem lo hi (start + i) u)
    (hno : ¬ name <+: u) (h : Stays mem lo hi fun _ => searchLoop start name (k + 1) i) :
    Stays mem lo hi fun _ => searchLoop start name k (i + 1) := by
  rcases h.rest (CStr.reads_strncmp hname hs) with ⟨r, hr, hrest⟩
  have hdiffer : r ≠ 0 := fun hzero => hno (hr.1 hzero)
  simp only [hdiffer, if_false] at hrest
  exact hrest

/-- The name is looked for behind the end of a string in which it does not occur. -/
theorem not_stays_searchLoop (hname : nul ∉ name) (hne : name ≠ []) {start i k : ℕ}
    (hs : Rest mem lo hi (start + i) u) (hno : ¬ name <:+: u) (hk : u.length + 2 ≤ k) :
    ¬ Stays mem lo hi fun _ => searchLoop start name k i := by
  rcases Nat.exists_eq_add_of_le' hk with ⟨k, rfl⟩
  intro h
  have hrest := stays_next hname hs (fun hpre => hno hpre.isInfix) h
  induction u generalizing i with
  | nil =>
      -- The next place is the one behind the NUL.
      cases name with
      | nil => exact hne rfl
      | cons d name =>
          have hload : Stays mem lo hi fun _ => CStr.strncmp (start + (i + 1)) (d :: name) :=
            hrest.first
          have hinside := hload.load_inside.2
          rw [← hs.stop, List.length_nil] at hinside
          omega
  | cons c u ih =>
      have hno' : ¬ name <:+: u := fun hoccurs => hno (hoccurs.trans (List.suffix_cons c u).isInfix)
      have htail : Rest mem lo hi (start + (i + 1)) u := hs.tail
      exact ih htail hno' (Nat.le_add_left _ _) hrest
        (stays_next hname htail (fun hpre => hno' hpre.isInfix) hrest)

theorem not_stays_videoGetParams {getenv : ℕ → Option ℕ} {penv : ℕ}
    (hs : Rest mem lo hi ((getenv penv).getD penv) u) (hno : ¬ "video=ctfb:".toList <:+: u) :
    ¬ Stays mem lo hi fun n => videoGetParams n getenv penv := by
  intro h
  have hsearch : Stays mem lo hi fun n =>
      videoSearchParam n ((getenv penv).getD penv) "video=ctfb:".toList := h.first
  rcases hsearch.rest (CStr.reads_strlen hs) with ⟨_, rfl, hloop⟩
  have htwo : 2 ≤ "video=ctfb:".toList.length := by decide
  exact not_stays_searchLoop (i := 0) (by decide) (by decide) hs hno (by omega) hloop

end Loads

/-! ## The option string -/

/-- What `getenv` has under the name, or else the name itself. -/
def optionString (getenv : ℕ → Option ℕ) (penv : ℕ) : ℕ := (getenv penv).getD penv

/-- The routine loads the string only, up to its NUL, and returns what the fields say. -/
def Right (mem : ℕ → Char) (getenv : ℕ → Option ℕ) (penv : ℕ) (s : List Char) : Prop :=
  Reads mem (optionString getenv penv) (optionString getenv penv + s.length)
    (fun n => videoGetParams n getenv penv) fun r => ∃ out, r = some out ∧ Parsed s out

section OptionString

variable {mem : ℕ → Char} {getenv : ℕ → Option ℕ} {penv : ℕ} {s : List Char}

theorem not_right_of_not_infix (hs : CStr.At mem (optionString getenv penv) s)
    (hno : ¬ "video=ctfb:".toList <:+: s) : ¬ Right mem getenv penv s := fun h =>
  not_stays_videoGetParams (Rest.of_at hs) hno (Stays.of_reads h)

theorem not_right_of_negative (hs : CStr.At mem (optionString getenv penv) s)
    (hfound : "video=ctfb:".toList <:+: s) (hmode : ¬ 0 ≤ (modeOf s).toInt) :
    ¬ Right mem getenv penv s := by
  intro h
  rcases h.unique (reads_videoGetParams (Rest.of_at hs) hfound) with ⟨_, ⟨out, rfl, -⟩, hlist⟩
  rw [videoGetParams_none hs.notMem rfl hmode] at hlist
  cases hlist

/-- For every string, whatever stands behind it: the routine is right if and only if `video=ctfb:`
occurs in the string and the mode that it asks for is not negative. -/
theorem right_iff (hs : CStr.At mem (optionString getenv penv) s) :
    Right mem getenv penv s ↔ "video=ctfb:".toList <:+: s ∧ 0 ≤ (modeOf s).toInt := by
  constructor
  · intro h
    have hfound : "video=ctfb:".toList <:+: s := by
      by_contra hno
      exact not_right_of_not_infix hs hno h
    refine ⟨hfound, ?_⟩
    by_contra hmode
    exact not_right_of_negative hs hfound hmode h
  · rintro ⟨hfound, hmode⟩
    have hspec : ∃ out, Lcd.videoGetParams (fun _ => none) s = some out ∧ Parsed s out :=
      videoGetParams_spec hs.notMem rfl hmode
    rcases hspec with ⟨out, hout, hparsed⟩
    refine (reads_videoGetParams (Rest.of_at hs) hfound).mono ?_
    rintro _ rfl
    exact ⟨out, hout, hparsed⟩

end OptionString

/-- A memory that holds a string from 0 on. -/
def holding (s : List Char) (a : ℕ) : Char := s.getD a nul

theorem at_holding {s : List Char} (hs : nul ∉ s) :
    CStr.At (holding s) (optionString (fun _ => none) 0) s :=
  CStr.at_getD [] hs

theorem right_mode1 :
    Right (holding "video=ctfb:mode:1,x:800".toList) (fun _ => none) 0
      "video=ctfb:mode:1,x:800".toList :=
  (right_iff (at_holding (by decide))).2 ⟨infix_iff_prefix_drop.2 ⟨0, by decide⟩, by decide⟩

/-- Neither the string of the board, in which `video=ctfb:` does not occur, nor a mode of -1. -/
theorem not_right_board_minus_one :
    ¬ Right (holding CONFIG_VIDEO_LCD_MODE.toList) (fun _ => none) 0 CONFIG_VIDEO_LCD_MODE.toList ∧
      ¬ Right (holding "video=ctfb:mode:-1".toList) (fun _ => none) 0 "video=ctfb:mode:-1".toList := by
  constructor
  · refine not_right_of_not_infix (at_holding (by decide)) ?_
    exact (videoSearchParam_eq_none_iff (by decide) (by decide)).1 (by decide)
  · exact not_right_of_negative (at_holding (by decide)) (infix_iff_prefix_drop.2 ⟨0, by decide⟩)
      (by decide)

end OptionReads

end Lcd

end BspV3s
