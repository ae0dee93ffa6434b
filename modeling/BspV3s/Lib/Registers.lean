import BspV3s.Lib.Packing
import BspV3s.Lib.Program
import BspV3s.Lib.Runs

/-!
# Registers — changes of registers that several agents share

A change of a register is a read followed by a write of what was computed from it, and another
agent may write in between.  While no agent writes a register that another one has read and is about
to write back, every change acts as if it were a single step; agents that put values into fields of
their own then each see their fields as if they were alone.

* `pending_of_step` : one access, seen as one change or as none;
* `serial_of_run`   : a run without such writes is a run of whole changes;
* `owned_of_run`    : what the fields of one agent hold in it.
-/

namespace BspV3s

namespace Registers

variable {A W ι : Type}

inductive Op (A W : Type) where
  | read (a : A)
  | write (a : A) (v : W)

def Op.Ret : Op A W → Type
  | .read _ => W
  | .write _ _ => Unit

abbrev RegProg (A W α : Type) : Type := Prog (Op A W) Op.Ret α

def read (a : A) : RegProg A W W := Prog.op (Op.read a)

def write (a : A) (v : W) : RegProg A W Unit := Prog.op (Op.write a v)

def access [DecidableEq A] : (o : Op A W) → (A → W) → o.Ret × (A → W)
  | .read a, r => (r a, r)
  | .write a v, r => ((), Function.update r a v)

/-! ## Changes -/

structure Change (A W : Type) where
  addr : A
  f : W → W

def Change.prog (c : Change A W) : RegProg A W Unit := do
  let v ← read c.addr
  write c.addr (c.f v)

def changes : List (Change A W) → RegProg A W Unit
  | [] => pure ()
  | c :: l => c.prog >>= fun _ => changes l

theorem changes_append (l l' : List (Change A W)) :
    changes (l ++ l') = changes l >>= fun _ => changes l' := by
  induction l with
  | nil => rfl
  | cons c l ih =>
      change (c.prog >>= fun _ => changes (l ++ l')) = _
      rw [ih]
      exact (Prog.bind_assoc' _ _ _).symm

variable [DecidableEq A]

def Change.apply (c : Change A W) (r : A → W) : A → W :=
  Function.update r c.addr (c.f (r c.addr))

def applyAll (l : List (Change A W)) (r : A → W) : A → W :=
  l.foldl (fun r c => c.apply r) r

theorem runOn_changes (l : List (Change A W)) (r : A → W) :
    (changes l).runOn access r = ((), applyAll l r) := by
  induction l generalizing r with
  | nil => rfl
  | cons c l ih => exact ih (c.apply r)

/-- A register that no change addresses. -/
theorem applyAll_of_ne {l : List (Change A W)} {a : A} (h : ∀ c ∈ l, c.addr ≠ a) (r : A → W) :
    applyAll l r a = r a := by
  induction l generalizing r with
  | nil => rfl
  | cons c l ih =>
      have hc : a ≠ c.addr := (h c List.mem_cons_self).symm
      calc applyAll l (c.apply r) a
          = c.apply r a := ih (fun c' hc' => h c' (List.mem_cons_of_mem _ hc')) _
        _ = r a := Function.update_of_ne hc _ _

/-- The registers after each access of a routine that runs alone. -/
def visited {α : Type} : RegProg A W α → (A → W) → List (A → W)
  | .ret _, _ => []
  | .call o k, r => (access o r).2 :: visited (k (access o r).1) (access o r).2

/-! ## Agents -/

/-- Routines in progress and the registers that they share. -/
structure Agents (ι A W : Type) where
  prog : ι → RegProg A W Unit
  reg : A → W

/-- Agent `i` makes its next access. -/
def Step [DecidableEq ι] (i : ι) (s s' : Agents ι A W) : Prop :=
  ∃ o k, s.prog i = .call o k ∧
    s' = ⟨Function.update s.prog i (k (access o s.reg).1), (access o s.reg).2⟩

/-- What agent `i` is about to write, if anything, is not a register that another agent is about to
write as well. -/
def NoRace (i : ι) (s : Agents ι A W) : Prop :=
  ∀ j, j ≠ i → ∀ a v v', (s.prog i).next = some (.write a v) →
    (s.prog j).next ≠ some (.write a v')

/-- The routine has the changes `l` to make; it may have read the register of the first one, which
still holds what was read. -/
inductive Pending (r : A → W) : RegProg A W Unit → List (Change A W) → Prop
  | idle (l : List (Change A W)) : Pending r (changes l) l
  | held (c : Change A W) (l : List (Change A W)) :
      Pending r (.call (.write c.addr (c.f (r c.addr))) fun _ => changes l) (c :: l)

omit [DecidableEq A] in
theorem Pending.ret {r : A → W} {l : List (Change A W)} (h : Pending r (.ret ()) l) : l = [] := by
  generalize hp : (Prog.ret () : RegProg A W Unit) = p at h
  cases h with
  | idle l =>
      cases l with
      | nil => rfl
      | cons c l => cases hp
  | held c l => cases hp

/-- A write to another register leaves a pending change pending. -/
theorem Pending.update {r : A → W} {p : RegProg A W Unit} {l : List (Change A W)}
    (h : Pending r p l) {a : A} {w : W} (hne : ∀ v, p.next ≠ some (.write a v)) :
    Pending (Function.update r a w) p l := by
  cases h with
  | idle l => exact .idle l
  | held c l =>
      have haddr : c.addr ≠ a := by
        rintro rfl
        exact hne _ rfl
      have hsame : r c.addr = Function.update r a w c.addr :=
        (Function.update_of_ne haddr w r).symm
      rw [hsame]
      exact .held c l

/-! ## Whole changes -/

/-- The changes that each agent has left, and the registers. -/
structure Serial (ι A W : Type) where
  rest : ι → List (Change A W)
  reg : A → W

/-- Agent `i` makes a whole change. -/
def Serial.Step (i : ι) (t t' : Serial ι A W) : Prop :=
  ∃ c, t.rest i = c :: t'.rest i ∧ (∀ j, j ≠ i → t'.rest j = t.rest j) ∧ t'.reg = c.apply t.reg

variable [DecidableEq ι]

/-- The next access of a pending routine is the read of a change or its write. -/
theorem Pending.next {r : A → W} {o : Op A W} {k : o.Ret → RegProg A W Unit}
    {l : List (Change A W)} (h : Pending r (.call o k) l) :
    (access o r).2 = r ∧ Pending r (k (access o r).1) l ∨
      ∃ c l', l = c :: l' ∧ o = .write c.addr (c.f (r c.addr)) ∧ (access o r).2 = c.apply r ∧
        k (access o r).1 = changes l' := by
  generalize hp : (Prog.call o k : RegProg A W Unit) = p at h
  cases h with
  | idle l =>
      cases l with
      | nil => cases hp
      | cons c l =>
          cases hp
          exact .inl ⟨rfl, .held c l⟩
  | held c l =>
      cases hp
      exact .inr ⟨c, l, rfl, rfl, rfl, rfl⟩

/-- An access without a race: it is a read, which changes nothing, or the write of a change. -/
theorem pending_of_step {i : ι} {s s' : Agents ι A W} {rest : ι → List (Change A W)}
    (h : ∀ j, Pending s.reg (s.prog j) (rest j)) (hrace : NoRace i s) (hstep : Step i s s') :
    ∃ rest', (∀ j, Pending s'.reg (s'.prog j) (rest' j)) ∧
      (rest' = rest ∧ s'.reg = s.reg ∨
        Serial.Step i ⟨rest, s.reg⟩ ⟨rest', s'.reg⟩) := by
  rcases hstep with ⟨o, k, hprog, rfl⟩
  have hi := h i
  rw [hprog] at hi
  -- The access is a read, or it is the write that ends a change.
  rcases hi.next with ⟨hreg, hread⟩ | ⟨c, l, hl, rfl, hreg, hwrite⟩
  · refine ⟨rest, fun j => ?_, .inl ⟨rfl, hreg⟩⟩
    dsimp only
    rw [hreg]
    by_cases hj : j = i
    · subst hj
      rw [Function.update_self]
      exact hread
    · rw [Function.update_of_ne hj]
      exact h j
  · refine ⟨Function.update rest i l, fun j => ?_, .inr ⟨c, ?_, fun j hj => ?_, hreg⟩⟩
    · dsimp only
      rw [hreg, hwrite]
      by_cases hj : j = i
      · subst hj
        rw [Function.update_self, Function.update_self]
        exact .idle l
      · rw [Function.update_of_ne hj, Function.update_of_ne hj]
        -- The others have not read this register: nobody races.
        exact (h j).update fun v => hrace j hj _ _ v (congrArg Prog.next hprog)
    · dsimp only
      rw [Function.update_self]
      exact hl
    · exact Function.update_of_ne hj _ _

/-- A run without races is one of whole changes. -/
theorem serial_of_run {todo : ι → List (Change A W)} {r : A → W} {s : Agents ι A W}
    (hrun : RunUnder Step NoRace ⟨fun i => changes (todo i), r⟩ s) :
    ∃ rest, RunUnder Serial.Step (fun _ _ => True) ⟨todo, r⟩ ⟨rest, s.reg⟩ ∧
      ∀ i, Pending s.reg (s.prog i) (rest i) := by
  refine RunUnder.invariant (I := fun s => ∃ rest,
    RunUnder Serial.Step (fun _ _ => True) ⟨todo, r⟩ ⟨rest, s.reg⟩ ∧
      ∀ i, Pending s.reg (s.prog i) (rest i)) ?_ ?_ hrun
  · rintro i s s' ⟨rest, hserial, hpending⟩ hrace hstep
    rcases pending_of_step hpending hrace hstep with ⟨rest', hpending', hread | hchange⟩
    · rcases hread with ⟨rfl, hreg⟩
      refine ⟨rest', ?_, hpending'⟩
      rw [hreg]
      exact hserial
    · exact ⟨rest', hserial.tail trivial hchange, hpending'⟩
  · exact ⟨todo, .refl, fun i => .idle (todo i)⟩

/-! ## Schedules -/

/-- Both routines are about to write the same register. -/
def racing (p q : RegProg A W Unit) : Bool :=
  match p.next, q.next with
  | some (.write a _), some (.write b _) => decide (a = b)
  | _, _ => false

omit [DecidableEq ι] in
theorem noRace_of_racing {i : ι} {s : Agents ι A W}
    (h : ∀ j, j ≠ i → racing (s.prog i) (s.prog j) = false) : NoRace i s := by
  intro j hj a v v' hi hother
  have hrace := h j hj
  rw [racing, hi, hother] at hrace
  exact absurd rfl (of_decide_eq_false hrace)

namespace Agents

/-- The next access of agent `i`; a routine that has returned stays as it is. -/
def next (i : ι) (s : Agents ι A W) : Agents ι A W :=
  match s.prog i with
  | .ret _ => s
  | .call o k => ⟨Function.update s.prog i (k (access o s.reg).1), (access o s.reg).2⟩

def run (l : List ι) (s : Agents ι A W) : Agents ι A W :=
  l.foldl (fun s i => s.next i) s

/-- Every access of the schedule passes `check` in the state it is made in. -/
def passes (check : ι → Agents ι A W → Bool) : List ι → Agents ι A W → Bool
  | [], _ => true
  | i :: l, s => check i s && passes check l (s.next i)

variable {C : ι → Agents ι A W → Prop} {check : ι → Agents ι A W → Bool}

theorem run_of_passes (hC : ∀ i s, check i s = true → C i s) {l : List ι} {s : Agents ι A W}
    (h : passes check l s = true) : RunUnder Step C s (s.run l) := by
  induction l generalizing s with
  | nil => exact .refl
  | cons i l ih =>
      rw [passes, Bool.and_eq_true] at h
      have hrest : RunUnder Step C (s.next i) (s.run (i :: l)) := ih h.2
      cases hprog : s.prog i with
      | ret a =>
          have hidle : s.next i = s := by
            unfold next
            rw [hprog]
          rwa [hidle] at hrest
      | call o k =>
          have hnext : s.next i =
              ⟨Function.update s.prog i (k (access o s.reg).1), (access o s.reg).2⟩ := by
            unfold next
            rw [hprog]
          exact .head (hC i s h.1) ⟨o, k, hprog, hnext⟩ hrest

theorem run_any (l : List ι) (s : Agents ι A W) : RunUnder Step (fun _ _ => True) s (s.run l) := by
  have hpasses : ∀ l (s : Agents ι A W), passes (fun _ _ => true) l s = true := by
    intro l
    induction l with
    | nil => exact fun _ => rfl
    | cons i l ih => exact fun s => ih (s.next i)
  exact run_of_passes (fun _ _ _ => trivial) (hpasses l s)

end Agents

/-! ## Fields of several owners -/

section Owned

variable {K : Type} [DecidableEq K] (P : Packing K A)

/-- A value for the field of a key. -/
abbrev Put (K : Type) : Type := K × BitVec 32

def putChange (p : Put K) : Change A (BitVec 32) :=
  ⟨P.addr p.1, P.put p.1 p.2⟩

/-- What the puts make of the map that the registers hold. -/
def putAll (l : List (Put K)) (m : (k : K) → BitVec (P.width k)) : (k : K) → BitVec (P.width k) :=
  l.foldl (fun m p => Function.update m p.1 (p.2.setWidth (P.width p.1))) m

def Fit (p : Put K) : Prop := p.2.toNat < 2 ^ P.width p.1

variable {P}

theorem get_apply {p : Put K} (hp : Fit P p) (r : A → BitVec 32) :
    P.get ((putChange P p).apply r) =
      Function.update (P.get r) p.1 (p.2.setWidth (P.width p.1)) :=
  Packing.get_put hp

theorem get_applyAll {l : List (Put K)} (hl : ∀ p ∈ l, Fit P p) (r : A → BitVec 32) :
    P.get (applyAll (l.map (putChange P)) r) = putAll P l (P.get r) := by
  induction l generalizing r with
  | nil => rfl
  | cons p l ih =>
      calc P.get (applyAll (l.map (putChange P)) ((putChange P p).apply r))
          = putAll P l (P.get ((putChange P p).apply r)) :=
            ih (fun q hq => hl q (List.mem_cons_of_mem _ hq)) _
        _ = putAll P (p :: l) (P.get r) := by
            rw [get_apply (hl p List.mem_cons_self)]
            rfl

omit [DecidableEq A] in
theorem putAll_append (l l' : List (Put K)) (m : (k : K) → BitVec (P.width k)) :
    putAll P (l ++ l') m = putAll P l' (putAll P l m) :=
  List.foldl_append

section Optional

variable {c : Prop} [Decidable c] {k k' : K} {x : BitVec 32} {m : (k : K) → BitVec (P.width k)}

omit [DecidableEq A] in
/-- A put that is made on a condition, at its key. -/
theorem putAll_ite_self :
    putAll P (if c then [(k, x)] else []) m k = if c then x.setWidth (P.width k) else m k := by
  split_ifs
  · exact Function.update_self ..
  · rfl

omit [DecidableEq A] in
theorem putAll_ite_of_ne (h : k' ≠ k) : putAll P (if c then [(k, x)] else []) m k' = m k' := by
  split_ifs
  · exact Function.update_of_ne h _ _
  · rfl

end Optional

omit [DecidableEq A] in
/-- What the puts make of one key depends on what it held, and on no other key. -/
theorem putAll_congr {l : List (Put K)} {m m' : (k : K) → BitVec (P.width k)} {k : K}
    (h : m k = m' k) : putAll P l m k = putAll P l m' k := by
  induction l generalizing m m' with
  | nil => exact h
  | cons p l ih =>
      refine ih ?_
      dsimp only
      by_cases hk : k = p.1
      · subst hk
        rw [Function.update_self, Function.update_self]
      · rw [Function.update_of_ne hk, Function.update_of_ne hk, h]

/-- Every agent has puts left into keys of its own; those keys end as if it were alone, and keys
without an owner stay as they were. -/
structure Owned (P : Packing K A) (own : K → Option ι) (todo : ι → List (Put K))
    (r : A → BitVec 32) (left : ι → List (Put K)) (t : Serial ι A (BitVec 32)) : Prop where
  rest : ∀ i, t.rest i = (left i).map (putChange P)
  fit : ∀ i, ∀ p ∈ left i, Fit P p
  keys : ∀ i, ∀ p ∈ left i, own p.1 = some i
  owned : ∀ i k, own k = some i → putAll P (left i) (P.get t.reg) k = putAll P (todo i) (P.get r) k
  free : ∀ k, own k = none → P.get t.reg k = P.get r k

variable {own : K → Option ι} {todo left : ι → List (Put K)} {r : A → BitVec 32}

theorem Owned.step {i : ι} {t t' : Serial ι A (BitVec 32)} (h : Owned P own todo r left t)
    (hstep : Serial.Step i t t') : ∃ left', Owned P own todo r left' t' := by
  rcases hstep with ⟨c, hi, hothers, hreg⟩
  rw [h.rest i] at hi
  rcases List.map_eq_cons_iff.1 hi with ⟨p, l, hl, rfl, hrest⟩
  have hmem : ∀ j, ∀ q ∈ Function.update left i l j, q ∈ left j := by
    intro j q hq
    by_cases hj : j = i
    · subst hj
      rw [Function.update_self] at hq
      rw [hl]
      exact List.mem_cons_of_mem _ hq
    · rwa [Function.update_of_ne hj] at hq
  have hp : p ∈ left i := by
    rw [hl]
    exact List.mem_cons_self
  have hget : P.get t'.reg =
      Function.update (P.get t.reg) p.1 (p.2.setWidth (P.width p.1)) := by
    rw [hreg]
    exact get_apply (h.fit i p hp) t.reg
  -- A key of anybody else is not the one that is put.
  have hother : ∀ k, own k ≠ some i → P.get t'.reg k = P.get t.reg k := by
    intro k hk
    have hne : k ≠ p.1 := by
      rintro rfl
      exact hk (h.keys i p hp)
    rw [hget, Function.update_of_ne hne]
  refine ⟨Function.update left i l, fun j => ?_, fun j q hq => h.fit j q (hmem j q hq),
    fun j q hq => h.keys j q (hmem j q hq), fun j k hk => ?_, fun k hk => ?_⟩
  · by_cases hj : j = i
    · subst hj
      rw [Function.update_self]
      exact hrest.symm
    · rw [Function.update_of_ne hj, hothers j hj]
      exact h.rest j
  · rw [← h.owned j k hk]
    by_cases hj : j = i
    · subst hj
      rw [Function.update_self, hl, hget]
      rfl
    · rw [Function.update_of_ne hj]
      refine putAll_congr (hother k ?_)
      rw [hk]
      exact fun h => hj (Option.some.inj h)
  · rw [← h.free k hk]
    refine hother k ?_
    rw [hk]
    exact (Option.some_ne_none i).symm

/-- Agents that put values into fields of their own, without races: once an agent has returned, its
fields hold what they would if it had been alone. -/
theorem owned_of_run (hfit : ∀ i, ∀ p ∈ todo i, Fit P p)
    (hown : ∀ i, ∀ p ∈ todo i, own p.1 = some i) {s : Agents ι A (BitVec 32)}
    (hrun : RunUnder Step NoRace ⟨fun i => changes ((todo i).map (putChange P)), r⟩ s) :
    (∀ i, s.prog i = .ret () → ∀ k, own k = some i →
      P.get s.reg k = putAll P (todo i) (P.get r) k) ∧
      ∀ k, own k = none → P.get s.reg k = P.get r k := by
  rcases serial_of_run hrun with ⟨rest, hserial, hpending⟩
  have hinv : ∃ left, Owned P own todo r left ⟨rest, s.reg⟩ := by
    refine RunUnder.invariant (I := fun t => ∃ left, Owned P own todo r left t) ?_ ?_ hserial
    · rintro i t t' ⟨left, h⟩ - hstep
      exact h.step hstep
    · exact ⟨todo, fun _ => rfl, hfit, hown, fun _ _ _ => rfl, fun _ _ => rfl⟩
  rcases hinv with ⟨left, h⟩
  refine ⟨fun i hret k hk => ?_, h.free⟩
  have hnil := hpending i
  rw [hret] at hnil
  have hleft : left i = [] := List.map_eq_nil_iff.1 ((h.rest i).symm.trans hnil.ret)
  rw [← h.owned i k hk, hleft]
  rfl

end Owned

end Registers

end BspV3s
