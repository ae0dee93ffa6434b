import BspV3s.Lib.CString

/-!
# PinName — names of pins

A pin is named by the letter of its bank and its number in it, or by its number alone.  The two ranges
are checked with a comparison that lets their ends through, and the letter `a` is not taken for the
first of its alphabet.

* `parses_letter_iff` : a letter in front, the ends of its range and the letter `a`;
* `parses_iff`        : the strings that are read as they should be;
* `not_parses_PA32`   : a pin of the next bank.
-/

namespace BspV3s

namespace Gpio

open CStr (nul strtol Stops)

/-- The character at a pointer. -/
def deref (p : List Char) : Char := p.headD nul

/-- `sunxi_name_to_gpio`, on the characters from `name` on; a `char` is unsigned on this processor. -/
def sunxiNameToGpio (name : List Char) : ℤ :=
  let name := if deref name = 'P' ∨ deref name = 'p' then name.drop 1 else name
  let (group, groupsize, name) : ℤ × ℤ × List Char :=
    if 'A' ≤ deref name then
      -- The letters behind `a` are counted from there, and `a` itself from `A`.
      ((deref name).toNat - (if 'a' < deref name then 'a'.toNat else 'A'.toNat), 32, name.drop 1)
    else (0, 9 * 32, name)
  let (pin, eptr) := strtol name
  if deref name = nul ∨ deref eptr ≠ nul then -1
  -- A number that equals the size of the group passes.
  else if pin < 0 ∨ groupsize < pin ∨ 9 ≤ group then -1
  else group * 32 + pin

/-! ## What the names mean -/

/-- `P` or `p` may stand in front. -/
inductive Prefixed : List Char → List Char → Prop
  | bare (t : List Char) : Prefixed t t
  | upper (t : List Char) : Prefixed ('P' :: t) t
  | lower (t : List Char) : Prefixed ('p' :: t) t

/-- A number and nothing else. -/
def Numeral (w : List Char) (v : ℕ) : Prop := w ≠ [] ∧ strtol w = ((v : ℤ), [])

/-- The nine banks from A or a on. -/
def Bank (c : Char) (b : ℕ) : Prop :=
  b < 9 ∧ (c.toNat = 'A'.toNat + b ∨ c.toNat = 'a'.toNat + b)

inductive Form : List Char → ℕ → Prop
  | letter {c : Char} {b v : ℕ} {w : List Char} (bank : Bank c b) (number : Numeral w v)
      (small : v < 32) : Form (c :: w) (32 * b + v)
  | plain {v : ℕ} {w : List Char} (number : Numeral w v) (small : v < 288) : Form w v

/-- The string is a name of the pin. -/
def Names (s : List Char) (n : ℕ) : Prop := ∃ t, Prefixed s t ∧ Form t n

/-- A name gives its pin, and any other string -1. -/
structure Parses (s : List Char) (ret : ℤ) : Prop where
  pin : 0 ≤ ret ↔ ∃ n, Names s n
  named : ∀ n, Names s n → ret = n
  other : (∀ n, ¬ Names s n) → ret = -1

/-- The ends of the ranges, and the letter that is not recognised. -/
inductive Slip : List Char → Prop
  | bankEnd {c : Char} {b : ℕ} {w : List Char} (bank : Bank c b) (letter : c ≠ 'a')
      (number : Numeral w 32) : Slip (c :: w)
  | firstLower {v : ℕ} {w : List Char} (number : Numeral w v) (small : v < 32) : Slip ('a' :: w)
  | plainEnd {w : List Char} (number : Numeral w 288) : Slip w

def Slips (s : List Char) : Prop := ∃ t, Prefixed s t ∧ Slip t

/-! ## The string from the bank on -/

/-- What is left of a name behind the letter in front. -/
def strip (s : List Char) : List Char :=
  if deref s = 'P' ∨ deref s = 'p' then s.drop 1 else s

/-- The group of a letter, as the code counts it. -/
def letterGroup (c : Char) : ℤ :=
  c.toNat - (if 'a' < c then 'a'.toNat else 'A'.toNat)

/-- The number at `name`, checked against the group. -/
def located (group groupsize : ℤ) (name : List Char) : ℤ :=
  if deref name = nul ∨ deref (strtol name).2 ≠ nul then -1
  else if (strtol name).1 < 0 ∨ groupsize < (strtol name).1 ∨ 9 ≤ group then -1
  else group * 32 + (strtol name).1

section Names

variable {s t w junk : List Char} {c : Char} {n v u b : ℕ}

theorem sunxiNameToGpio_eq (s : List Char) :
    sunxiNameToGpio s = if 'A' ≤ deref (strip s) then
      located (letterGroup (deref (strip s))) 32 ((strip s).drop 1) else located 0 288 (strip s) := by
  unfold sunxiNameToGpio
  dsimp only
  rw [← strip]
  split
  · rfl
  · rfl

theorem deref_append (w junk : List Char) : deref (w ++ nul :: junk) = deref w := by
  cases w with
  | nil => rfl
  | cons c w => rfl

theorem deref_eq_nul_iff (hw : nul ∉ w) : deref w = nul ↔ w = [] := by
  cases w with
  | nil => exact iff_of_true rfl rfl
  | cons c w =>
      refine iff_of_false ?_ (List.cons_ne_nil c w)
      rintro rfl
      exact hw List.mem_cons_self

theorem strip_append (s junk : List Char) : strip (s ++ nul :: junk) = strip s ++ nul :: junk := by
  unfold strip
  rw [deref_append]
  split
  · next h =>
      cases s with
      | nil => exact absurd h (by decide)
      | cons c s => rfl
  · rfl

theorem notMem_strip (hs : nul ∉ s) : nul ∉ strip s := by
  unfold strip
  split
  · exact fun h => hs (List.mem_of_mem_drop h)
  · exact hs

/-- A number behind which the string ends. -/
theorem located_numeral (hw : nul ∉ w) (h : Numeral w v) (group groupsize : ℤ) :
    located group groupsize (w ++ nul :: junk) =
      if (v : ℤ) ≤ groupsize ∧ group < 9 then group * 32 + v else -1 := by
  have hhead : ¬ (deref w = nul ∨ deref ([] ++ nul :: junk) ≠ nul) := by
    rintro (hempty | hrest)
    · exact h.1 ((deref_eq_nul_iff hw).1 hempty)
    · exact hrest rfl
  unfold located
  rw [CStr.strtol_append CStr.stops_nul, h.2, deref_append, if_neg hhead]
  dsimp only
  split_ifs
  · omega
  · rfl
  · rfl
  · omega

/-- Anything else is refused. -/
theorem located_of_not_numeral (hw : nul ∉ w) (h : ∀ v, ¬ Numeral w v) (group groupsize : ℤ) :
    located group groupsize (w ++ nul :: junk) = -1 := by
  have hrest : nul ∉ (strtol w).2 := fun hnul => hw ((CStr.strtol_suffix w).subset hnul)
  unfold located
  simp only [CStr.strtol_append CStr.stops_nul, deref_append, Ne, deref_eq_nul_iff hw,
    deref_eq_nul_iff hrest]
  split
  · rfl
  · next hread =>
      -- The string is a number after all, unless that is negative.
      rw [not_or, not_not] at hread
      refine if_pos (Or.inl (lt_of_not_ge fun hpin => h (strtol w).1.toNat ⟨hread.1, ?_⟩))
      rw [Int.toNat_of_nonneg hpin, ← hread.2]

theorem Numeral.unique (h : Numeral w v) (h' : Numeral w u) : u = v := by
  have heq := h'.2.symm.trans h.2
  exact Int.ofNat_inj.1 (congrArg Prod.fst heq)

/-! ## Letters and names -/

theorem stops_of_letter (hc : 'A' ≤ c) : Stops c := by
  have hle : 65 ≤ c.toNat := hc
  have hne : ∀ d : Char, d.toNat < 65 → c ≠ d := by
    rintro d hd rfl
    exact Nat.not_le.2 hd hle
  have hspace : CStr.isspace c = false := by
    have hrange : ¬ c.toNat ≤ 13 := by omega
    simp [CStr.isspace, hne ' ' (by decide), hrange]
  have hdigit : c.isDigit = false := by
    have hnine : ¬ c.val ≤ '9'.val := Nat.not_le.2 (Nat.lt_of_lt_of_le (by decide) hle)
    simp only [Char.isDigit, hnine, decide_false, Bool.and_false]
  exact ⟨hspace, hdigit, hne '-' (by decide), hne '+' (by decide)⟩

/-- No number begins with a letter. -/
theorem not_numeral (hc : 'A' ≤ c) : ¬ Numeral (c :: w) v := by
  rintro ⟨-, hnumber⟩
  rw [CStr.strtol_cons (stops_of_letter hc)] at hnumber
  exact List.cons_ne_nil _ _ (congrArg Prod.snd hnumber)

theorem Bank.letter (h : Bank c b) : 'A' ≤ c := by
  have hA : 'A'.toNat = 65 := rfl
  have ha : 'a'.toNat = 97 := rfl
  have hle : 65 ≤ c.toNat := by
    rcases h.2 with h | h <;> omega
  exact hle

theorem not_bank (hc : c = 'P' ∨ c = 'p') : ¬ Bank c b := by
  rintro ⟨hb, hcode⟩
  have hA : 'A'.toNat = 65 := rfl
  have ha : 'a'.toNat = 97 := rfl
  have hP : c.toNat = 80 ∨ c.toNat = 112 := by
    rcases hc with rfl | rfl
    · exact Or.inl rfl
    · exact Or.inr rfl
  omega

/-- The group of the code is the bank, but for the first letter of the lower case. -/
theorem letterGroup_eq_iff (hne : c ≠ 'a') : letterGroup c = b ∧ b < 9 ↔ Bank c b := by
  have hA : 'A'.toNat = 65 := rfl
  have ha : 'a'.toNat = 97 := rfl
  have hcode : c.toNat ≠ 97 := fun h => hne (Char.toNat_inj.1 h)
  have hlt : 'a' < c ↔ 97 < c.toNat := Iff.rfl
  unfold letterGroup Bank
  simp only [hA, ha, hlt]
  split
  · omega
  · omega

theorem letterGroup_nonneg (h : 'A' ≤ c) : 0 ≤ letterGroup c := by
  have hle : 'A'.toNat ≤ c.toNat := h
  unfold letterGroup
  split
  · next hlower =>
      have hlt : 'a'.toNat < c.toNat := hlower
      omega
  · omega

theorem bank_lower_a : Bank 'a' b ↔ b = 0 := by
  constructor
  · rintro ⟨hb, h | h⟩
    · have ha : 'a'.toNat = 'A'.toNat + 32 := rfl
      omega
    · omega
  · rintro rfl
    exact ⟨by decide, Or.inr rfl⟩

theorem Bank.unique (h : Bank c b) {b' : ℕ} (h' : Bank c b') : b' = b := by
  by_cases hc : c = 'a'
  · subst hc
    rw [bank_lower_a.1 h, bank_lower_a.1 h']
  · have hgroup := ((letterGroup_eq_iff hc).2 h).1
    exact Int.ofNat_inj.1 (((letterGroup_eq_iff hc).2 h').1.symm.trans hgroup)

theorem form_plain_iff (h : ¬ 'A' ≤ deref t) : Form t n ↔ Numeral t n ∧ n < 288 := by
  constructor
  · rintro (⟨hbank, -, -⟩ | ⟨hnumber, hsmall⟩)
    · exact absurd hbank.letter h
    · exact ⟨hnumber, hsmall⟩
  · rintro ⟨hnumber, hsmall⟩
    exact Form.plain hnumber hsmall

theorem slip_plain_iff (h : ¬ 'A' ≤ deref t) : Slip t ↔ Numeral t 288 := by
  constructor
  · rintro (⟨hbank, -, -⟩ | - | hnumber)
    · exact absurd hbank.letter h
    · exact absurd (show 'A' ≤ 'a' by decide) h
    · exact hnumber
  · exact Slip.plainEnd

theorem form_letter_iff (h : 'A' ≤ c) (hw : Numeral w v) :
    Form (c :: w) n ↔ ∃ b, Bank c b ∧ v < 32 ∧ n = 32 * b + v := by
  constructor
  · intro hform
    cases hform with
    | letter hbank hnumber hsmall =>
        cases hnumber.unique hw
        exact ⟨_, hbank, hsmall, rfl⟩
    | plain hnumber => exact absurd hnumber (not_numeral h)
  · rintro ⟨b, hbank, hsmall, rfl⟩
    exact Form.letter hbank hw hsmall

theorem slip_letter_iff (h : 'A' ≤ c) (hw : Numeral w v) :
    Slip (c :: w) ↔ (∃ b, Bank c b) ∧ c ≠ 'a' ∧ v = 32 ∨ c = 'a' ∧ v < 32 := by
  constructor
  · intro hslip
    cases hslip with
    | bankEnd hbank hletter hnumber => exact Or.inl ⟨⟨_, hbank⟩, hletter, hnumber.unique hw⟩
    | firstLower hnumber hsmall => exact Or.inr ⟨rfl, hnumber.unique hw ▸ hsmall⟩
    | plainEnd hnumber => exact absurd hnumber (not_numeral h)
  · rintro (⟨⟨b, hbank⟩, hletter, rfl⟩ | ⟨rfl, hsmall⟩)
    · exact Slip.bankEnd hbank hletter hw
    · exact Slip.firstLower hw hsmall

/-- What begins with neither `P` nor `p` is found behind one. -/
theorem exists_prefixed_iff {F : List Char → Prop}
    (hF : ∀ c t, c = 'P' ∨ c = 'p' → ¬ F (c :: t)) : (∃ t, Prefixed s t ∧ F t) ↔ F (strip s) := by
  constructor
  · rintro ⟨t, hpre, ht⟩
    cases hpre with
    | bare =>
        have hno : ¬ (deref s = 'P' ∨ deref s = 'p') := by
          cases s with
          | nil => decide
          | cons c s => exact fun hc => hF c s hc ht
        rwa [strip, if_neg hno]
    | upper => exact ht
    | lower => exact ht
  · intro ht
    refine ⟨strip s, ?_, ht⟩
    unfold strip
    split
    · next h =>
        cases s with
        | nil => exact Prefixed.bare []
        | cons c s =>
            rcases h with rfl | rfl
            · exact Prefixed.upper s
            · exact Prefixed.lower s
    · exact Prefixed.bare s

theorem letter_of_P (hc : c = 'P' ∨ c = 'p') : 'A' ≤ c := by
  rcases hc with rfl | rfl
  · decide
  · decide

theorem names_iff : Names s n ↔ Form (strip s) n := by
  refine exists_prefixed_iff (F := fun t => Form t n) fun c t hc hform => ?_
  cases hform with
  | letter hbank => exact not_bank hc hbank
  | plain hnumber => exact not_numeral (letter_of_P hc) hnumber

theorem slips_iff : Slips s ↔ Slip (strip s) := by
  refine exists_prefixed_iff fun c t hc hslip => ?_
  cases hslip with
  | bankEnd hbank => exact not_bank hc hbank
  | firstLower => exact absurd hc (by decide)
  | plainEnd hnumber => exact not_numeral (letter_of_P hc) hnumber

/-! ## What the code makes of them -/

variable {ret : ℤ}

theorem parses_iff_of_names {p : Prop} (h : ∀ u, Names s u ↔ p ∧ u = n) :
    Parses s ret ↔ (p → ret = n) ∧ (¬ p → ret = -1) := by
  constructor
  · intro hparses
    refine ⟨fun hp => hparses.named n ((h n).2 ⟨hp, rfl⟩), fun hp => hparses.other ?_⟩
    exact fun u hu => hp ((h u).1 hu).1
  · rintro ⟨hname, hother⟩
    refine ⟨⟨fun hpin => ?_, ?_⟩, fun u hu => ?_, fun hno => ?_⟩
    · by_contra hno
      have hret := hother fun hp => hno ⟨n, (h n).2 ⟨hp, rfl⟩⟩
      rw [hret] at hpin
      exact absurd hpin (by decide)
    · rintro ⟨u, hu⟩
      rw [hname ((h u).1 hu).1]
      exact Int.natCast_nonneg n
    · obtain ⟨hp, rfl⟩ := (h u).1 hu
      exact hname hp
    · exact hother fun hp => hno n ((h n).2 ⟨hp, rfl⟩)

theorem parses_neg_one (h : ∀ u, ¬ Names s u) : Parses s (-1) := by
  refine (parses_iff_of_names (p := False) (n := 0) fun u => ?_).2 ⟨False.elim, fun _ => rfl⟩
  exact iff_of_false (h u) And.left

theorem parses_plain_iff (hs : nul ∉ s) (h : ¬ 'A' ≤ deref (strip s)) :
    Parses s (located 0 288 (strip s ++ nul :: junk)) ↔ ¬ Slips s := by
  have hstrip := notMem_strip hs
  rw [slips_iff, slip_plain_iff h]
  by_cases hnumber : ∃ v, Numeral (strip s) v
  · obtain ⟨v, hv⟩ := hnumber
    have hnames : ∀ u, Names s u ↔ v < 288 ∧ u = v := by
      intro u
      rw [names_iff, form_plain_iff h]
      constructor
      · rintro ⟨hu, hsmall⟩
        cases hv.unique hu
        exact ⟨hsmall, rfl⟩
      · rintro ⟨hsmall, rfl⟩
        exact ⟨hv, hsmall⟩
    have hslip : Numeral (strip s) 288 ↔ v = 288 := by
      refine ⟨fun h288 => (hv.unique h288).symm, ?_⟩
      rintro rfl
      exact hv
    rw [parses_iff_of_names hnames, located_numeral hstrip hv, hslip]
    split_ifs
    · omega
    · omega
  · rw [not_exists] at hnumber
    rw [located_of_not_numeral hstrip hnumber]
    refine iff_of_true (parses_neg_one fun u hu => ?_) (hnumber 288)
    exact hnumber u ((form_plain_iff h).1 (names_iff.1 hu)).1

/-- A letter that is no bank, or text that is no number: the code has no pin for it either. -/
theorem located_of_not_named (hw : nul ∉ w) (h : 'A' ≤ c)
    (hname : ¬ ∃ b v, Bank c b ∧ Numeral w v) :
    located (letterGroup c) 32 (w ++ nul :: junk) = -1 := by
  by_cases hnumber : ∃ v, Numeral w v
  · obtain ⟨v, hv⟩ := hnumber
    have hgroup : ¬ ((v : ℤ) ≤ 32 ∧ letterGroup c < 9) := by
      rintro ⟨-, hlt⟩
      -- A group below 9 is that of a bank, since that of `a` is 32.
      have hfirst : c ≠ 'a' := by
        rintro rfl
        exact absurd hlt (by decide)
      have hnat := Int.toNat_of_nonneg (letterGroup_nonneg h)
      refine hname ⟨(letterGroup c).toNat, v, (letterGroup_eq_iff hfirst).1 ⟨hnat.symm, ?_⟩, hv⟩
      omega
    rw [located_numeral hw hv, if_neg hgroup]
  · exact located_of_not_numeral hw (not_exists.1 hnumber) _ _

theorem not_form_of_not_named (h : 'A' ≤ c) (hname : ¬ ∃ b v, Bank c b ∧ Numeral w v) :
    ¬ Form (c :: w) n := by
  intro hform
  cases hform with
  | letter hbank hnumber => exact hname ⟨_, _, hbank, hnumber⟩
  | plain hnumber => exact not_numeral h hnumber

theorem not_slip_of_not_named (h : 'A' ≤ c) (hname : ¬ ∃ b v, Bank c b ∧ Numeral w v) :
    ¬ Slip (c :: w) := by
  intro hslip
  cases hslip with
  | bankEnd hbank _ hnumber => exact hname ⟨_, _, hbank, hnumber⟩
  | firstLower hnumber => exact hname ⟨0, _, bank_lower_a.2 rfl, hnumber⟩
  | plainEnd hnumber => exact not_numeral h hnumber

/-- A letter and a number name the pin of that number in the bank of that letter. -/
theorem names_letter_iff (hstrip : strip s = c :: w) (hbank : Bank c b) (hv : Numeral w v) :
    Names s n ↔ v < 32 ∧ n = 32 * b + v := by
  rw [names_iff, hstrip, form_letter_iff hbank.letter hv]
  constructor
  · rintro ⟨b', hb', hn⟩
    cases hbank.unique hb'
    exact hn
  · exact fun hn => ⟨b, hbank, hn⟩

/-- The code counts 32 letters from `A` to `a` and has no bank there. -/
theorem parses_lower_a_iff (hw : nul ∉ w) (hstrip : strip s = 'a' :: w) (hv : Numeral w v) :
    Parses s (located (letterGroup 'a') 32 (w ++ nul :: junk)) ↔ ¬ v < 32 := by
  have hgroup : ¬ ((v : ℤ) ≤ 32 ∧ letterGroup 'a' < 9) := fun hlt => absurd hlt.2 (by decide)
  rw [parses_iff_of_names fun _ => names_letter_iff hstrip (bank_lower_a.2 rfl) hv,
    located_numeral hw hv, if_neg hgroup]
  constructor
  · rintro ⟨hret, -⟩ hsmall
    have hneg := hret hsmall
    omega
  · exact fun hlarge => ⟨fun hsmall => absurd hsmall hlarge, fun _ => rfl⟩

/-- Behind any other letter of a bank the number 32 is let through. -/
theorem parses_bank_iff (hw : nul ∉ w) (hstrip : strip s = c :: w) (hbank : Bank c b)
    (hfirst : c ≠ 'a') (hv : Numeral w v) :
    Parses s (located (letterGroup c) 32 (w ++ nul :: junk)) ↔ ¬ v = 32 := by
  obtain ⟨hgroup, hb⟩ := (letterGroup_eq_iff hfirst).2 hbank
  rw [parses_iff_of_names fun _ => names_letter_iff hstrip hbank hv, located_numeral hw hv, hgroup]
  split_ifs
  · omega
  · omega

theorem parses_letter_iff (hs : nul ∉ s) (hstrip : strip s = c :: w) (h : 'A' ≤ c) :
    Parses s (located (letterGroup c) 32 (w ++ nul :: junk)) ↔ ¬ Slips s := by
  have hw : nul ∉ w := by
    have hmem := notMem_strip hs
    rw [hstrip] at hmem
    exact fun hnul => hmem (List.mem_cons_of_mem c hnul)
  rw [slips_iff, hstrip]
  by_cases hname : ∃ b v, Bank c b ∧ Numeral w v
  · obtain ⟨b, v, hbank, hv⟩ := hname
    rw [slip_letter_iff h hv]
    by_cases hfirst : c = 'a'
    · subst hfirst
      rw [parses_lower_a_iff hw hstrip hv]
      simp only [ne_eq, not_true_eq_false, false_and, and_false, false_or, true_and]
    · rw [parses_bank_iff hw hstrip hbank hfirst hv]
      simp only [hfirst, ne_eq, not_false_eq_true, true_and, false_and, or_false,
        show (∃ b, Bank c b) from ⟨b, hbank⟩]
  · rw [located_of_not_named hw h hname]
    refine iff_of_true (parses_neg_one fun u hu => ?_) (not_slip_of_not_named h hname)
    rw [names_iff, hstrip] at hu
    exact not_form_of_not_named h hname hu

/-- For every string, whatever stands behind it: the result is right unless the number is 32 behind a
letter or 288 alone, or the letter is `a`. -/
theorem parses_iff (hs : nul ∉ s) (junk : List Char) :
    Parses s (sunxiNameToGpio (s ++ nul :: junk)) ↔ ¬ Slips s := by
  rw [sunxiNameToGpio_eq, strip_append, deref_append]
  by_cases h : 'A' ≤ deref (strip s)
  · rw [if_pos h]
    cases hstrip : strip s with
    | nil =>
        rw [hstrip] at h
        exact absurd h (by decide)
    | cons c w =>
        rw [hstrip] at h
        exact parses_letter_iff hs hstrip h
  · rw [if_neg h]
    exact parses_plain_iff hs h

end Names

theorem parses_iff_PE6 : sunxiNameToGpio ['P', 'E', '6', nul] = 4 * 32 + 6 ∧
    (Parses ['P', 'E', '6'] (sunxiNameToGpio ['P', 'E', '6', nul]) ↔ ¬ Slips ['P', 'E', '6']) :=
  ⟨by decide, parses_iff (s := ['P', 'E', '6']) (by decide) []⟩

/-- `PA32` is taken for the first pin of bank B. -/
theorem not_parses_PA32 : sunxiNameToGpio ['P', 'A', '3', '2', nul] = 32 * 1 + 0 ∧
    ¬ Parses ['P', 'A', '3', '2'] (sunxiNameToGpio ['P', 'A', '3', '2', nul]) := by
  have hret : sunxiNameToGpio ['P', 'A', '3', '2', nul] = 32 := by decide
  have hnumber : Numeral ['3', '2'] 32 := ⟨by decide, by decide⟩
  rw [hret]
  refine ⟨rfl, fun hparses => ?_⟩
  obtain ⟨n, hn⟩ := hparses.pin.1 (by decide)
  obtain ⟨b, -, hsmall, -⟩ := (form_letter_iff (by decide) hnumber).1 (names_iff.1 hn)
  exact absurd hsmall (by decide)

end Gpio

end BspV3s
