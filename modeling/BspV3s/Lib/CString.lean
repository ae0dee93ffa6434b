import Mathlib.Data.BitVec
import Mathlib.Data.Int.Notation
import Mathlib.Data.List.TakeWhile
import BspV3s.Lib.Budget

/-!
# CString — strings in memory and the functions of the C library on them

A string is what stands in memory from a pointer on, up to the first NUL.  Its functions are given
twice: on the characters of the string, and as routines that load one character after the other.  The
loads are seen by a check, so that a routine can be said to stay within a string.

* `strtol_append`   : a number ends at the first character that does not belong to it;
* `reads_foldWhile` : a loop over the characters from a pointer on;
* `reads_strtoul`   : the number at a pointer, and what is loaded to find it.
-/

namespace BspV3s

namespace CStr

/-! ## Characters and numbers -/

def nul : Char := Char.ofNat 0

def isspace (c : Char) : Bool := c = ' ' || (9 ≤ c.toNat && c.toNat ≤ 13)

def digit (n : ℕ) (c : Char) : ℕ := 10 * n + (c.toNat - '0'.toNat)

/-- The number that digits stand for. -/
def value (ds : List Char) : ℕ := ds.foldl digit 0

/-- White space is skipped, and one sign. -/
def unsigned (s : List Char) : List Char :=
  let s := s.dropWhile isspace
  if s.head? = some '-' ∨ s.head? = some '+' then s.drop 1 else s

def negative (s : List Char) : Prop := (s.dropWhile isspace).head? = some '-'

instance instDecidableNegative (s : List Char) : Decidable (negative s) :=
  inferInstanceAs (Decidable (_ = _))

def LONG_MIN : ℤ := -0x80000000

def LONG_MAX : ℤ := 0x7fffffff

def digits (s : List Char) : List Char := (unsigned s).takeWhile Char.isDigit

/-- `strtol(s, &rest, 10)` for a `long` of 32 bits: without digits nothing is consumed, and a number
out of range is replaced by the nearest that is in it. -/
def strtol (s : List Char) : ℤ × List Char :=
  if digits s = [] then (0, s)
  else
    let n : ℤ := if negative s then -(value (digits s) : ℤ) else value (digits s)
    (max LONG_MIN (min n LONG_MAX), (unsigned s).dropWhile Char.isDigit)

/-- An unsigned number of 32 bits: the largest one for a number out of range. -/
def saturate (minus : Prop) [Decidable minus] (n : ℕ) : BitVec 32 :=
  if 2 ^ 32 ≤ n then 0xffffffff else if minus then -BitVec.ofNat 32 n else BitVec.ofNat 32 n

/-- `strtoul(s, NULL, 10)` for an `unsigned long` of 32 bits. -/
def strtoul (s : List Char) : BitVec 32 :=
  saturate (negative s) (value (digits s))

/-- `strlen`. -/
def strlen (s : List Char) : ℕ := (s.takeWhile (· ≠ nul)).length

/-- A character that ends a number wherever it stands. -/
def Stops (c : Char) : Prop :=
  isspace c = false ∧ c.isDigit = false ∧ c ≠ '-' ∧ c ≠ '+'

instance instDecidableStops (c : Char) : Decidable (Stops c) :=
  inferInstanceAs (Decidable (_ ∧ _ ∧ _ ∧ _))

section Scan

variable {q : Char → Bool} {c : Char} {s t : List Char}

theorem drop_length_takeWhile (q : Char → Bool) (s : List Char) :
    s.drop (s.takeWhile q).length = s.dropWhile q := by
  calc s.drop (s.takeWhile q).length
      = (s.takeWhile q ++ s.dropWhile q).drop (s.takeWhile q).length := by
        rw [List.takeWhile_append_dropWhile]
    _ = s.dropWhile q := List.drop_left

theorem length_takeWhile_le (q : Char → Bool) (s : List Char) : (s.takeWhile q).length ≤ s.length :=
  (List.takeWhile_prefix q).length_le

theorem dropWhile_append_cons (hq : q c = false) :
    (s ++ c :: t).dropWhile q = s.dropWhile q ++ c :: t := by
  induction s with
  | nil => exact List.dropWhile_cons_of_neg (by simp [hq])
  | cons d s ih =>
      rw [List.cons_append, List.dropWhile_cons, List.dropWhile_cons]
      split
      · exact ih
      · rfl

theorem takeWhile_append_cons (hq : q c = false) :
    (s ++ c :: t).takeWhile q = s.takeWhile q := by
  induction s with
  | nil => exact List.takeWhile_cons_of_neg (by simp [hq])
  | cons d s ih =>
      rw [List.cons_append, List.takeWhile_cons, List.takeWhile_cons, ih]

/-- The whole of a string stands before its NUL. -/
theorem takeWhile_ne_nul (hs : nul ∉ s) : s.takeWhile (fun c => decide (c ≠ nul)) = s := by
  rw [List.takeWhile_eq_self_iff]
  intro c hc
  refine decide_eq_true ?_
  rintro rfl
  exact hs hc

theorem strlen_eq (hs : nul ∉ s) : strlen s = s.length :=
  congrArg List.length (takeWhile_ne_nul hs)

theorem head?_append_cons_eq_iff {d : Char} (h : c ≠ d) :
    (s ++ c :: t).head? = some d ↔ s.head? = some d := by
  cases s with
  | nil => simp [h]
  | cons e s => exact Iff.rfl

theorem negative_append (hc : Stops c) : negative (s ++ c :: t) ↔ negative s := by
  rcases hc with ⟨hspace, -, hminus, -⟩
  rw [negative, dropWhile_append_cons hspace]
  exact head?_append_cons_eq_iff hminus

theorem unsigned_append (hc : Stops c) : unsigned (s ++ c :: t) = unsigned s ++ c :: t := by
  rcases hc with ⟨hspace, -, hminus, hplus⟩
  simp only [unsigned, dropWhile_append_cons hspace, head?_append_cons_eq_iff hminus,
    head?_append_cons_eq_iff hplus]
  split
  · next hsign =>
      cases hs : s.dropWhile isspace with
      | nil => simp [hs] at hsign
      | cons d r => rfl
  · rfl

theorem digits_append (hc : Stops c) : digits (s ++ c :: t) = digits s := by
  rw [digits, unsigned_append hc]
  exact takeWhile_append_cons hc.2.1

theorem strtoul_append (hc : Stops c) : strtoul (s ++ c :: t) = strtoul s := by
  simp only [strtoul, saturate, digits_append hc, negative_append hc]

theorem strtol_append (hc : Stops c) :
    strtol (s ++ c :: t) = ((strtol s).1, (strtol s).2 ++ c :: t) := by
  unfold strtol
  rw [digits_append hc, unsigned_append hc, dropWhile_append_cons hc.2.1]
  simp only [negative_append hc]
  split
  · rfl
  · rfl

end Scan

theorem stops_nul : Stops nul := by decide

/-- No number begins with a character that ends one. -/
theorem strtol_cons {c : Char} (hc : Stops c) (s : List Char) : strtol (c :: s) = (0, c :: s) :=
  strtol_append (s := []) hc

theorem isspace_of_isDigit {c : Char} (h : c.isDigit = true) : isspace c = false := by
  rw [Char.isDigit_iff_toNat] at h
  have hspace : c ≠ ' ' := by
    rintro rfl
    exact absurd h.1 (by decide)
  have hlow : ¬ c.toNat ≤ 13 := fun hle => absurd (le_trans h.1 hle) (by decide)
  simp [isspace, hspace, hlow]

/-- Digits alone are a number without white space and sign. -/
theorem digits_of_forall {ds : List Char} (h : ∀ c, c ∈ ds → c.isDigit = true) :
    digits ds = ds ∧ ¬ negative ds := by
  have hskip : ds.dropWhile isspace = ds := by
    cases ds with
    | nil => rfl
    | cons c ds =>
        exact List.dropWhile_cons_of_neg (by simp [isspace_of_isDigit (h c List.mem_cons_self)])
  have hsign : ∀ d, d.isDigit = false → ds.head? ≠ some d := by
    intro d hd hhead
    rw [h d (List.mem_of_mem_head? hhead)] at hd
    cases hd
  have hunsigned : unsigned ds = ds := by
    rw [unsigned, hskip]
    exact if_neg (not_or.2 ⟨hsign '-' rfl, hsign '+' rfl⟩)
  rw [digits, hunsigned, negative, hskip]
  exact ⟨List.takeWhile_eq_self_iff.2 h, hsign '-' rfl⟩

/-- A number that has been written in decimal is read back. -/
theorem strtoul_toDigits {n : ℕ} (h : n < 2 ^ 32) :
    strtoul (Nat.toDigits 10 n) = BitVec.ofNat 32 n := by
  have hdigits := digits_of_forall fun c hc =>
    Nat.isDigit_of_mem_toDigits (n := n) (by decide) (le_refl 10) hc
  have hvalue : value (digits (Nat.toDigits 10 n)) = n := by
    rw [hdigits.1]
    exact Nat.ofDigitChars_toDigits (by decide) (le_refl 10)
  rw [strtoul, hvalue, saturate, if_neg (Nat.not_le.2 h), if_neg hdigits.2]

/-- What is left of a string by a number is an end of it. -/
theorem strtol_suffix (s : List Char) : (strtol s).2 <:+ s := by
  have hunsigned : unsigned s <:+ s := by
    unfold unsigned
    dsimp only
    split
    · exact (List.drop_suffix 1 _).trans (List.dropWhile_suffix isspace)
    · exact List.dropWhile_suffix isspace
  unfold strtol
  split
  · exact List.suffix_rfl
  · exact (List.dropWhile_suffix Char.isDigit).trans hunsigned

/-! ## Loads -/

/-- A load of a character; a loop whose budget has run out. -/
inductive Op
  | load (a : ℕ)
  | overrun

def Op.Ret : Op → Type
  | .load _ => Char
  | .overrun => Unit

abbrev Reader := Prog Op Op.Ret

def load (a : ℕ) : Reader Char := Prog.op (Op.load a)

def overrun {α : Type} (a : α) : Reader α := do
  let _ ← (Prog.op Op.overrun : Reader Unit)
  pure a

def exec (o : Op) (mem : ℕ → Char) : o.Ret × (ℕ → Char) :=
  match o with
  | .load a => (mem a, mem)
  | .overrun => ((), mem)

/-- Loads from `lo` to `hi` only, and no loop that goes on for ever. -/
def within (lo hi : ℕ) : Op → (ℕ → Char) → Bool
  | .load a, _ => decide (lo ≤ a ∧ a ≤ hi)
  | .overrun, _ => false

/-- The string at `p`. -/
def At (mem : ℕ → Char) : ℕ → List Char → Prop
  | p, [] => mem p = nul
  | p, c :: s => mem p = c ∧ c ≠ nul ∧ At mem (p + 1) s

/-- What is left at `p` of a string that lies from `lo` to the NUL at `hi`. -/
structure Rest (mem : ℕ → Char) (lo hi p : ℕ) (s : List Char) : Prop where
  le : lo ≤ p
  stop : p + s.length = hi
  here : At mem p s

/-- With enough budget the routine loads from `lo` to `hi` only, and returns what is in `Q`. -/
def Reads {α : Type} (mem : ℕ → Char) (lo hi : ℕ) (p : ℕ → Reader α) (Q : α → Prop) : Prop :=
  Prog.Ends exec (within lo hi) p (fun a mem' => mem' = mem ∧ Q a) mem

variable {α β σ : Type} {mem : ℕ → Char} {lo hi p : ℕ} {c : Char} {s : List Char}

theorem At.notMem (h : At mem p s) : nul ∉ s := by
  induction s generalizing p with
  | nil => exact List.not_mem_nil
  | cons c s ih =>
      rcases h with ⟨-, hc, hrest⟩
      exact List.not_mem_cons_of_ne_of_not_mem hc.symm (ih hrest)

/-- A string in a memory that holds it and NULs behind it. -/
theorem at_getD (t : List Char) (hs : nul ∉ s) : At (fun a => (t ++ s).getD a nul) t.length s := by
  induction s generalizing t with
  | nil =>
      change (t ++ []).getD t.length nul = nul
      rw [List.append_nil, List.getD_eq_getElem?_getD, List.getElem?_eq_none (Nat.le_refl _)]
      rfl
  | cons c s ih =>
      rw [List.mem_cons, not_or] at hs
      have hrest := ih (t ++ [c]) hs.2
      rw [List.append_assoc, List.singleton_append, List.length_append, List.length_singleton] at hrest
      refine ⟨?_, Ne.symm hs.1, hrest⟩
      change (t ++ c :: s).getD t.length nul = c
      rw [List.getD_eq_getElem?_getD, List.getElem?_append_right (Nat.le_refl _), Nat.sub_self]
      rfl

namespace Rest

theorem of_at (h : At mem p s) : Rest mem p (p + s.length) p s where
  le := Nat.le_refl p
  stop := rfl
  here := h

theorem tail (h : Rest mem lo hi p (c :: s)) : Rest mem lo hi (p + 1) s where
  le := Nat.le_succ_of_le h.le
  stop := by
    rw [← h.stop, List.length_cons, Nat.add_assoc, Nat.add_comm 1]
  here := h.here.2.2

theorem drop (h : Rest mem lo hi p s) {k : ℕ} (hk : k ≤ s.length) :
    Rest mem lo hi (p + k) (s.drop k) := by
  induction k generalizing p s with
  | zero => exact h
  | succ k ih =>
      cases s with
      | nil => exact absurd hk (Nat.not_succ_le_zero k)
      | cons c s =>
          have hrest := ih h.tail (Nat.le_of_succ_le_succ hk)
          rwa [Nat.add_assoc, Nat.add_comm 1] at hrest

theorem inside (h : Rest mem lo hi p s) : within lo hi (.load p) mem = true :=
  decide_eq_true ⟨h.le, h.stop ▸ Nat.le_add_right p s.length⟩

end Rest

namespace Reads

variable {P : ℕ → Reader α} {Q Q' : α → Prop}

theorem ret {a : α} (h : Q a) : Reads mem lo hi (fun _ => pure a) Q :=
  Prog.Ends.ret ⟨rfl, h⟩

theorem bind {g : ℕ → α → Reader β} {Q : β → Prop}
    (h : Reads mem lo hi P fun a => Reads mem lo hi (fun n => g n a) Q) :
    Reads mem lo hi (fun n => P n >>= g n) Q := by
  refine Prog.Ends.bind (h.mono ?_)
  rintro a _ ⟨rfl, hrest⟩
  exact hrest

theorem mono (h : Reads mem lo hi P Q) (hQ : ∀ a, Q a → Q' a) : Reads mem lo hi P Q' :=
  Prog.Ends.mono (fun a _ hend => ⟨hend.1, hQ a hend.2⟩) h

/-- The routine goes on with what has been read. -/
theorem seq {g : ℕ → α → Reader β} {Q' : β → Prop} (h : Reads mem lo hi P Q)
    (hg : ∀ a, Q a → Reads mem lo hi (fun n => g n a) Q') :
    Reads mem lo hi (fun n => P n >>= g n) Q' :=
  bind (h.mono hg)

/-- A round of a loop. -/
theorem of_rounds {P' : ℕ → Reader α} (hP : ∀ n, P (n + 1) = P' n) (h : Reads mem lo hi P' Q) :
    Reads mem lo hi P Q :=
  Prog.Ends.of_rounds hP h

theorem load_bind {g : ℕ → Char → Reader α} (hs : Rest mem lo hi p s)
    (h : Reads mem lo hi (fun n => g n (s.headD nul)) Q) :
    Reads mem lo hi (fun n => load p >>= g n) Q := by
  have hhead : mem p = s.headD nul := by
    cases s with
    | nil => exact hs.here
    | cons c s => exact hs.here.1
  refine Prog.Ends.bind (Prog.Ends.op hs.inside ?_)
  change Prog.Ends exec (within lo hi) (fun n => g n (mem p)) _ mem
  rw [hhead]
  exact h

/-- There is one result. -/
theorem unique (h : Reads mem lo hi P Q) (h' : Reads mem lo hi P Q') : ∃ a, Q a ∧ Q' a := by
  rcases h with ⟨a, mem₁, n₁, ⟨-, hQ⟩, hruns⟩
  rcases h' with ⟨a', mem₂, n₂, ⟨-, hQ'⟩, hruns'⟩
  have hrun := (hruns _ (Nat.le_max_left n₁ n₂)).1
  have hrun' := (hruns' _ (Nat.le_max_right n₁ n₂)).1
  rw [hrun] at hrun'
  cases hrun'
  exact ⟨a, hQ, hQ'⟩

end Reads

/-- With enough budget the routine loads from `lo` to `hi` only. -/
def Stays {α : Type} (mem : ℕ → Char) (lo hi : ℕ) (p : ℕ → Reader α) : Prop :=
  ∃ n₀, ∀ n, n₀ ≤ n → (p n).checkOn exec (within lo hi) mem = true

namespace Stays

variable {P : ℕ → Reader α} {Q : α → Prop}

theorem of_reads (h : Reads mem lo hi P Q) : Stays mem lo hi P := by
  rcases h with ⟨a, mem', n₀, -, hruns⟩
  exact ⟨n₀, fun n hn => (hruns n hn).2⟩

theorem first {g : ℕ → α → Reader β} (h : Stays mem lo hi fun n => P n >>= g n) :
    Stays mem lo hi P := by
  rcases h with ⟨n₀, hcheck⟩
  refine ⟨n₀, fun n hn => ?_⟩
  have hboth := hcheck n hn
  rw [Prog.checkOn_bind, Bool.and_eq_true] at hboth
  exact hboth.1

/-- What comes behind a routine that has returned stays where the whole does. -/
theorem rest {g : ℕ → α → Reader β} (h : Stays mem lo hi fun n => P n >>= g n)
    (hP : Reads mem lo hi P Q) : ∃ a, Q a ∧ Stays mem lo hi fun n => g n a := by
  rcases h with ⟨n₀, hcheck⟩
  rcases hP with ⟨a, mem', n₁, ⟨rfl, hQ⟩, hruns⟩
  refine ⟨a, hQ, max n₀ n₁, fun n hn => ?_⟩
  have hboth := hcheck n (Nat.le_trans (Nat.le_max_left n₀ n₁) hn)
  have hrun := (hruns n (Nat.le_trans (Nat.le_max_right n₀ n₁) hn)).1
  rw [Prog.checkOn_bind, hrun, Bool.and_eq_true] at hboth
  exact hboth.2

/-- A load from outside. -/
theorem load_inside {a : ℕ} {g : ℕ → Char → Reader α}
    (h : Stays mem lo hi fun n => load a >>= g n) : lo ≤ a ∧ a ≤ hi := by
  rcases h with ⟨n₀, hcheck⟩
  have hboth := hcheck n₀ (Nat.le_refl n₀)
  rw [Prog.checkOn_bind, Bool.and_eq_true] at hboth
  have hload : within lo hi (.load a) mem = true := (Bool.and_eq_true_iff.1 hboth.1).1
  exact of_decide_eq_true hload

end Stays

/-! ## Loops over characters -/

/-- A loop that goes on while `q` holds of the character. -/
def foldWhile (q : Char → Bool) (step : σ → Char → σ) : ℕ → ℕ → σ → Reader σ
  | 0, _, a => overrun a
  | n + 1, p, a => do
      let c ← load p
      if q c then foldWhile q step n (p + 1) (step a c) else pure a

theorem reads_foldWhile {q : Char → Bool} (hq : q nul = false) (step : σ → Char → σ)
    (hs : Rest mem lo hi p s) (a : σ) :
    Reads mem lo hi (fun n => foldWhile q step n p a) (· = (s.takeWhile q).foldl step a) := by
  induction s generalizing p a with
  | nil =>
      refine Reads.of_rounds (fun _ => rfl) (Reads.load_bind hs ?_)
      simp only [List.headD_nil, hq, Bool.false_eq_true, if_false]
      exact Reads.ret rfl
  | cons c s ih =>
      refine Reads.of_rounds (fun _ => rfl) (Reads.load_bind hs ?_)
      rw [List.headD_cons, List.takeWhile_cons]
      split
      · exact ih hs.tail (step a c)
      · exact Reads.ret rfl

/-- How many characters `q` holds of. -/
def countWhile (q : Char → Bool) (n p : ℕ) : Reader ℕ :=
  foldWhile q (fun k _ => k + 1) n p 0

theorem foldl_count (s : List Char) (k : ℕ) : s.foldl (fun k _ => k + 1) k = k + s.length := by
  induction s generalizing k with
  | nil => rfl
  | cons c s ih =>
      rw [List.foldl_cons, ih, List.length_cons, Nat.add_assoc, Nat.add_comm 1]

theorem reads_countWhile {q : Char → Bool} (hq : q nul = false) (hs : Rest mem lo hi p s) :
    Reads mem lo hi (fun n => countWhile q n p) (· = (s.takeWhile q).length) := by
  refine (reads_foldWhile hq _ hs 0).mono ?_
  rintro _ rfl
  rw [foldl_count, Nat.zero_add]

/-- `strlen(p)`. -/
def readStrlen (n p : ℕ) : Reader ℕ := countWhile (fun c => decide (c ≠ nul)) n p

theorem reads_strlen (hs : Rest mem lo hi p s) :
    Reads mem lo hi (fun n => readStrlen n p) (· = s.length) := by
  refine (reads_countWhile (by decide) hs).mono ?_
  rintro _ rfl
  rw [takeWhile_ne_nul hs.here.notMem]

/-- `strncmp(p, name, strlen(name))`, for a constant `name`. -/
def strncmp (p : ℕ) : List Char → Reader ℤ
  | [] => pure 0
  | d :: name => do
      let c ← load p
      if c = d then strncmp (p + 1) name else pure (c.toNat - d.toNat)

theorem reads_strncmp {name : List Char} (hname : nul ∉ name) (hs : Rest mem lo hi p s) :
    Reads mem lo hi (fun _ => strncmp p name) (fun r => r = 0 ↔ name <+: s) := by
  induction name generalizing p s with
  | nil => exact Reads.ret (iff_of_true rfl s.nil_prefix)
  | cons d name ih =>
      rw [List.mem_cons, not_or] at hname
      refine Reads.load_bind hs ?_
      have hdiffer : ∀ c : Char, c ≠ d → ((c.toNat : ℤ) - d.toNat = 0 ↔ False) := by
        intro c hc
        refine iff_false_intro fun hzero => hc (Char.toNat_inj.1 ?_)
        exact Int.ofNat_inj.1 (Int.sub_eq_zero.1 hzero)
      cases s with
      | nil =>
          rw [List.headD_nil, if_neg hname.1]
          refine Reads.ret ((hdiffer _ hname.1).trans (iff_of_false id ?_))
          exact fun h => List.cons_ne_nil _ _ (List.prefix_nil.1 h)
      | cons c s =>
          rw [List.headD_cons]
          by_cases hc : c = d
          · subst hc
            rw [if_pos rfl]
            refine (ih hname.2 hs.tail).mono fun r hr => ?_
            rw [hr, List.cons_prefix_cons]
            exact ⟨fun h => ⟨rfl, h⟩, fun h => h.2⟩
          · rw [if_neg hc]
            refine Reads.ret ((hdiffer c hc).trans (iff_of_false id ?_))
            exact fun h => hc (List.cons_prefix_cons.1 h).1.symm

/-- `strtoul(p, NULL, 10)`. -/
def readStrtoul (n p : ℕ) : Reader (BitVec 32) := do
  let k ← countWhile isspace n p
  let c ← load (p + k)
  let k := if c = '-' ∨ c = '+' then k + 1 else k
  let v ← foldWhile Char.isDigit digit n (p + k) 0
  pure (saturate (c = '-') v)

theorem reads_strtoul (hs : Rest mem lo hi p s) :
    Reads mem lo hi (fun n => readStrtoul n p) (· = strtoul s) := by
  refine (reads_countWhile (by decide) hs).seq ?_
  rintro _ rfl
  have hnumber := hs.drop (length_takeWhile_le isspace s)
  rw [drop_length_takeWhile] at hnumber
  refine Reads.load_bind hnumber ?_
  -- Whether a sign has been loaded is seen from the string.
  have hsign : ∀ d : Char, d ≠ nul →
      ((s.dropWhile isspace).headD nul = d ↔ (s.dropWhile isspace).head? = some d) := by
    intro d hd
    cases s.dropWhile isspace with
    | nil => exact iff_of_false hd.symm nofun
    | cons c r => exact Option.some_inj.symm
  have hdigits : Rest mem lo hi
      (p + if (s.dropWhile isspace).head? = some '-' ∨ (s.dropWhile isspace).head? = some '+' then
        (s.takeWhile isspace).length + 1 else (s.takeWhile isspace).length) (unsigned s) := by
    unfold unsigned
    dsimp only
    split
    · next h =>
        have hlen : 1 ≤ (s.dropWhile isspace).length := by
          refine List.length_pos_iff.2 fun hnil => ?_
          rw [hnil] at h
          exact h.elim nofun nofun
        exact hnumber.drop hlen
    · exact hnumber
  simp only [hsign '-' (by decide), hsign '+' (by decide)]
  refine (reads_foldWhile (by decide) digit hdigits 0).seq ?_
  rintro _ rfl
  exact Reads.ret rfl

end CStr

end BspV3s
