import Mathlib.Data.Set.Insert
import Mathlib.Logic.Relation

/-!
# Hierarchy — several levels of write-back cache over one memory

What the caches hold for one address is a `Chain`: the levels from the processor down, each with at most
one copy in one of its slots, and the memory under them.  A `Move` is what the caches may do of their
own accord: fill a clean copy, drop one, write a dirty one back to the level below, which keeps it or
passes it on.

* `Move.view`, `Move.coherent` : moves never change what the processor reads;
* `Within q T`                 : every copy with `q` is in one of the places `T`;
* `Move.within`                : moves keep it when `T` is closed under sinking to lower levels;
* `Flush.empty`                : cleaning and invalidating a slot takes the slot out of `T`.

So a sweep over the slots of one level after another, from the top, shrinks the places in which a dirty
copy can be, whatever the caches do in the meantime; a sweep from the bottom would not.
-/

namespace BspV3s

/-- A copy at one level: its slot, whether it is newer than what is below it, and its value. -/
structure Copy (S V : Type) where
  slot : S
  dirty : Bool
  data : V

/-- The levels over one address, from the processor down. -/
inductive Chain (S V : Type)
  | memory (v : V)
  | level (e : Option (Copy S V)) (below : Chain S V)

namespace Chain

variable {S V : Type} {c c' : Chain S V} {v : V} {n k : ℕ} {s : S}

/-- What the processor reads: the first copy on the way down. -/
def view : Chain S V → V
  | .memory v => v
  | .level (some e) _ => e.data
  | .level none below => below.view

/-- What a bus master reads. -/
def mem : Chain S V → V
  | .memory v => v
  | .level _ below => below.mem

def depth : Chain S V → ℕ
  | .memory _ => 0
  | .level _ below => below.depth + 1

/-- A clean copy is worth what is below it. -/
def Coherent : Chain S V → Prop
  | .memory _ => True
  | .level e below => (∀ x ∈ e, x.dirty = false → x.data = below.view) ∧ below.Coherent

/-- Every copy with `q` is in one of the places `T`; the top level has number `n`. -/
def Within (q : Copy S V → Prop) (T : ℕ → S → Prop) : ℕ → Chain S V → Prop
  | _, .memory _ => True
  | n, .level e below => (∀ x ∈ e, q x → T n x.slot) ∧ Within q T (n + 1) below

/-- Memory holds a value in `W`, and so does every copy that may be written to it. -/
def Values (W : Set V) : Chain S V → Prop
  | .memory v => v ∈ W
  | .level e below => (∀ x ∈ e, x.dirty = true → x.data ∈ W) ∧ below.Values W

/-- No level holds a copy that is newer than what is below it. -/
def Clean (c : Chain S V) : Prop :=
  Within (fun x => x.dirty = true) (fun _ _ => False) 0 c

/-- No level holds a copy. -/
def Empty (c : Chain S V) : Prop :=
  Within (fun _ => True) (fun _ _ => False) 0 c

/-! ## What the caches do -/

section Moves

variable (slots : ℕ → Set S)

/-- `Push slots v n c c'`: the chain `c`, whose top level has number `n`, takes a write-back of `v`. -/
inductive Push (v : V) : ℕ → Chain S V → Chain S V → Prop
  | memory (n : ℕ) (w : V) : Push v n (.memory w) (.memory v)
  | hit (n : ℕ) (e : Copy S V) (below : Chain S V) :
      Push v n (.level (some e) below) (.level (some ⟨e.slot, true, v⟩) below)
  | through {n : ℕ} {e : Copy S V} {below below' : Chain S V} :
      Push v (n + 1) below below' →
        Push v n (.level (some e) below) (.level (some ⟨e.slot, false, v⟩) below')
  | allocate {n : ℕ} {s : S} (below : Chain S V) :
      s ∈ slots n → Push v n (.level none below) (.level (some ⟨s, true, v⟩) below)
  | pass {n : ℕ} {below below' : Chain S V} :
      Push v (n + 1) below below' → Push v n (.level none below) (.level none below')

/-- One thing that the caches may do of their own accord; `fills` tells whether they may allocate. -/
inductive Move (fills : Prop) : ℕ → Chain S V → Chain S V → Prop
  | fill {n : ℕ} {s : S} (below : Chain S V) :
      fills → s ∈ slots n → Move fills n (.level none below) (.level (some ⟨s, false, below.view⟩) below)
  | drop {n : ℕ} {e : Copy S V} (below : Chain S V) :
      e.dirty = false → Move fills n (.level (some e) below) (.level none below)
  | clean {n : ℕ} {e : Copy S V} {below below' : Chain S V} :
      e.dirty = true → Push slots e.data (n + 1) below below' →
        Move fills n (.level (some e) below) (.level (some ⟨e.slot, false, e.data⟩) below')
  | evict {n : ℕ} {e : Copy S V} {below below' : Chain S V} :
      e.dirty = true → Push slots e.data (n + 1) below below' →
        Move fills n (.level (some e) below) (.level none below')
  | lower {n : ℕ} (e : Option (Copy S V)) {below below' : Chain S V} :
      Move fills (n + 1) below below' → Move fills n (.level e below) (.level e below')

/-- Clean and invalidate slot `s` of level `k`. -/
inductive Flush (k : ℕ) (s : S) : ℕ → Chain S V → Chain S V → Prop
  | memory (n : ℕ) (v : V) : Flush k s n (.memory v) (.memory v)
  | other {n : ℕ} {e : Option (Copy S V)} (below : Chain S V) :
      n = k → (∀ x ∈ e, x.slot ≠ s) → Flush k s n (.level e below) (.level e below)
  | clean {n : ℕ} {e : Copy S V} (below : Chain S V) :
      n = k → e.slot = s → e.dirty = false → Flush k s n (.level (some e) below) (.level none below)
  | dirty {n : ℕ} {e : Copy S V} {below below' : Chain S V} :
      n = k → e.slot = s → e.dirty = true → Push slots e.data (n + 1) below below' →
        Flush k s n (.level (some e) below) (.level none below')
  | lower {n : ℕ} (e : Option (Copy S V)) {below below' : Chain S V} :
      n ≠ k → Flush k s (n + 1) below below' → Flush k s n (.level e below) (.level e below')

end Moves

/-- Invalidate slot `s` of level `k`: what it holds is lost. -/
def discard [DecidableEq S] (k : ℕ) (s : S) : ℕ → Chain S V → Chain S V
  | _, .memory v => .memory v
  | n, .level e below =>
      if n = k then .level (e.filter fun x => x.slot ≠ s) below
      else .level e (discard k s (n + 1) below)

/-! ## Places -/

namespace Within

variable {q q' : Copy S V → Prop} {T T' : ℕ → S → Prop}

theorem mono (hq : ∀ x, q' x → q x) (hT : ∀ i t, n ≤ i → i < n + c.depth → T i t → T' i t)
    (h : Within q T n c) : Within q' T' n c := by
  induction c generalizing n with
  | memory v => trivial
  | level e below ih =>
      refine ⟨fun x hx hqx => hT n x.slot (Nat.le_refl n) ?_ (h.1 x hx (hq x hqx)), ih ?_ h.2⟩
      · exact Nat.lt_add_of_pos_right (Nat.succ_pos _)
      · intro i t hle hlt
        refine hT i t (Nat.le_of_succ_le hle) ?_
        rw [depth]
        omega

theorem and (h : Within q T n c) (h' : Within q' T' n c) :
    Within (fun x => q x ∧ q' x) (fun i t => T i t ∧ T' i t) n c := by
  induction c generalizing n with
  | memory v => trivial
  | level e below ih =>
      exact ⟨fun x hx hqx => ⟨h.1 x hx hqx.1, h'.1 x hx hqx.2⟩, ih h.2 h'.2⟩

theorem of_forall (hT : ∀ i t, n ≤ i → T i t) : Within q T n c := by
  induction c generalizing n with
  | memory v => trivial
  | level e below ih =>
      exact ⟨fun x _ _ => hT n x.slot (Nat.le_refl n), ih fun i t hle => hT i t (Nat.le_of_succ_le hle)⟩

end Within

/-! ## Write-backs -/

variable {slots : ℕ → Set S} {fills : Prop}

/-- Every copy is in a slot that its level has. -/
abbrev Placed (slots : ℕ → Set S) (n : ℕ) (c : Chain S V) : Prop :=
  Within (fun _ => True) (fun i t => t ∈ slots i) n c

namespace Push

theorem view (h : Push slots v n c c') : c'.view = v := by
  induction h with
  | memory n w => rfl
  | hit n e below => rfl
  | through _ _ => rfl
  | allocate below _ => rfl
  | pass _ ih => exact ih

theorem depth (h : Push slots v n c c') : c'.depth = c.depth := by
  induction h with
  | memory n w => rfl
  | hit n e below => rfl
  | through _ ih => exact congrArg (· + 1) ih
  | allocate below _ => rfl
  | pass _ ih => exact congrArg (· + 1) ih

theorem coherent (h : Push slots v n c c') (hc : c.Coherent) : c'.Coherent := by
  induction h with
  | memory n w => trivial
  | hit n e below =>
      refine ⟨?_, hc.2⟩
      rintro x ⟨⟩ hdirty
      cases hdirty
  | through hpush ih =>
      refine ⟨?_, ih hc.2⟩
      rintro x ⟨⟩ -
      exact hpush.view.symm
  | allocate below _ =>
      refine ⟨?_, hc.2⟩
      rintro x ⟨⟩ hdirty
      cases hdirty
  | pass _ ih =>
      exact ⟨nofun, ih hc.2⟩

theorem placed (h : Push slots v n c c') (hc : Placed slots n c) : Placed slots n c' := by
  induction h with
  | memory n w => trivial
  | hit n e below =>
      refine ⟨?_, hc.2⟩
      rintro x ⟨⟩ -
      exact hc.1 e rfl trivial
  | @through n e _ _ _ ih =>
      refine ⟨?_, ih hc.2⟩
      rintro x ⟨⟩ -
      exact hc.1 e rfl trivial
  | allocate below hs =>
      refine ⟨?_, hc.2⟩
      rintro x ⟨⟩ -
      exact hs
  | pass _ ih =>
      exact ⟨nofun, ih hc.2⟩

theorem values {W : Set V} (h : Push slots v n c c') (hv : v ∈ W) (hc : c.Values W) : c'.Values W := by
  induction h with
  | memory n w => exact hv
  | hit n e below =>
      refine ⟨?_, hc.2⟩
      rintro x ⟨⟩ -
      exact hv
  | through _ ih =>
      refine ⟨?_, ih hc.2⟩
      rintro x ⟨⟩ hdirty
      cases hdirty
  | allocate below _ =>
      refine ⟨?_, hc.2⟩
      rintro x ⟨⟩ -
      exact hv
  | pass _ ih => exact ⟨nofun, ih hc.2⟩

/-- Every chain can take a write-back. -/
theorem exists_push (slots : ℕ → Set S) (v : V) (n : ℕ) (c : Chain S V) :
    ∃ c', Push slots v n c c' := by
  induction c generalizing n with
  | memory w => exact ⟨_, .memory n w⟩
  | level e below ih =>
      rcases e with _ | e
      · rcases ih (n + 1) with ⟨below', hpush⟩
        exact ⟨_, .pass hpush⟩
      · exact ⟨_, .hit n e below⟩

end Push

/-! ## Moves -/

namespace Move

theorem view (h : Move slots fills n c c') (hc : c.Coherent) : c'.view = c.view := by
  induction h with
  | fill below _ _ => rfl
  | @drop _ e below hclean => exact (hc.1 e rfl hclean).symm
  | clean _ _ => rfl
  | evict _ hpush => exact hpush.view
  | lower e _ ih =>
      rcases e with _ | e
      · exact ih hc.2
      · rfl

theorem depth (h : Move slots fills n c c') : c'.depth = c.depth := by
  induction h with
  | fill below _ _ => rfl
  | drop below _ => rfl
  | clean _ hpush => exact congrArg (· + 1) hpush.depth
  | evict _ hpush => exact congrArg (· + 1) hpush.depth
  | lower e _ ih => exact congrArg (· + 1) ih

theorem coherent (h : Move slots fills n c c') (hc : c.Coherent) : c'.Coherent := by
  induction h with
  | fill below _ _ =>
      refine ⟨?_, hc.2⟩
      rintro x ⟨⟩ -
      rfl
  | drop below _ =>
      exact ⟨nofun, hc.2⟩
  | clean _ hpush =>
      refine ⟨?_, hpush.coherent hc.2⟩
      rintro x ⟨⟩ -
      exact hpush.view.symm
  | evict _ hpush =>
      refine ⟨?_, hpush.coherent hc.2⟩
      rintro x ⟨⟩
  | lower e hmove ih =>
      refine ⟨fun x hx hclean => ?_, ih hc.2⟩
      rw [hmove.view hc.2]
      exact hc.1 x hx hclean

theorem placed (h : Move slots fills n c c') (hc : Placed slots n c) : Placed slots n c' := by
  induction h with
  | fill below _ hs =>
      refine ⟨?_, hc.2⟩
      rintro x ⟨⟩ -
      exact hs
  | drop below _ =>
      exact ⟨nofun, hc.2⟩
  | @clean n e _ _ _ hpush =>
      refine ⟨?_, hpush.placed hc.2⟩
      rintro x ⟨⟩ -
      exact hc.1 e rfl trivial
  | evict _ hpush =>
      refine ⟨?_, hpush.placed hc.2⟩
      rintro x ⟨⟩
  | lower e _ ih => exact ⟨hc.1, ih hc.2⟩

theorem values {W : Set V} (h : Move slots fills n c c') (hc : c.Values W) : c'.Values W := by
  induction h with
  | fill below _ _ =>
      refine ⟨?_, hc.2⟩
      rintro x ⟨⟩ hdirty
      cases hdirty
  | drop below _ => exact ⟨nofun, hc.2⟩
  | @clean _ e _ _ he hpush =>
      refine ⟨?_, hpush.values (hc.1 e rfl he) hc.2⟩
      rintro x ⟨⟩ hdirty
      cases hdirty
  | @evict _ e _ _ he hpush => exact ⟨nofun, hpush.values (hc.1 e rfl he) hc.2⟩
  | lower e _ ih => exact ⟨hc.1, ih hc.2⟩

/-- What sinks from a place in `T` stays in `T`. -/
def Sinks (slots : ℕ → Set S) (T : ℕ → S → Prop) : Prop :=
  ∀ i t, T i t → ∀ j t', i < j → t' ∈ slots j → T j t'

variable {q : Copy S V → Prop} {T : ℕ → S → Prop}

/-- Moves put no copy with `q` into a place outside `T`: a fill makes none, and what is written back
sinks. -/
theorem within (hfill : fills → ∀ t w, ¬ q ⟨t, false, w⟩) (hdirty : ∀ x, x.dirty = true → q x)
    (hT : Sinks slots T) (h : Move slots fills n c c') (hplaced : Placed slots n c)
    (hc : Within q T n c) : Within q T n c' := by
  induction h with
  | fill below hfills _ =>
      refine ⟨?_, hc.2⟩
      rintro x ⟨⟩ hqx
      exact absurd hqx (hfill hfills _ _)
  | drop below _ =>
      exact ⟨nofun, hc.2⟩
  | @clean n e _ _ he hpush =>
      have hplace := hc.1 e rfl (hdirty e he)
      refine ⟨?_, (hpush.placed hplaced.2).mono (fun _ _ => trivial) fun i t hle _ ht =>
        hT n e.slot hplace i t hle ht⟩
      rintro x ⟨⟩ -
      exact hplace
  | @evict n e _ _ he hpush =>
      have hplace := hc.1 e rfl (hdirty e he)
      refine ⟨?_, (hpush.placed hplaced.2).mono (fun _ _ => trivial) fun i t hle _ ht =>
        hT n e.slot hplace i t hle ht⟩
      rintro x ⟨⟩
  | lower e _ ih => exact ⟨hc.1, ih hplaced.2 hc.2⟩

end Move

/-! ## Maintenance of one slot -/

namespace Flush

/-- Cleaning and invalidating a slot is something the caches could do themselves. -/
theorem move (fills : Prop) (h : Flush slots k s n c c') : c' = c ∨ Move slots fills n c c' := by
  induction h with
  | memory n v => exact .inl rfl
  | other below _ _ => exact .inl rfl
  | clean below _ _ he => exact .inr (.drop below he)
  | dirty _ _ he hpush => exact .inr (.evict he hpush)
  | lower e _ _ ih =>
      rcases ih with rfl | hmove
      · exact .inl rfl
      · exact .inr (.lower e hmove)

/-- Afterwards the slot is empty. -/
theorem empty (h : Flush slots k s n c c') :
    Within (fun _ => True) (fun i t => ¬ (i = k ∧ t = s)) n c' := by
  have hlower : ∀ {m : ℕ} {d : Chain S V}, k < m →
      Within (fun _ => True) (fun i t => ¬ (i = k ∧ t = s)) m d := fun hm =>
    Within.of_forall fun i _ hle hplace => Nat.ne_of_gt (Nat.lt_of_lt_of_le hm hle) hplace.1
  induction h with
  | memory n v => trivial
  | other below hn hother =>
      exact ⟨fun x hx _ hplace => hother x hx hplace.2, hlower (Nat.lt_succ_of_le hn.ge)⟩
  | clean below hn _ _ =>
      refine ⟨?_, hlower (Nat.lt_succ_of_le hn.ge)⟩
      rintro x ⟨⟩
  | dirty hn _ _ _ =>
      refine ⟨?_, hlower (Nat.lt_succ_of_le hn.ge)⟩
      rintro x ⟨⟩
  | lower e hn _ ih => exact ⟨fun _ _ _ hplace => hn hplace.1, ih⟩

theorem exists_flush (slots : ℕ → Set S) (k : ℕ) (s : S) (n : ℕ) (c : Chain S V) :
    ∃ c', Flush slots k s n c c' := by
  induction c generalizing n with
  | memory v => exact ⟨_, .memory n v⟩
  | level e below ih =>
      by_cases hn : n = k
      · by_cases hother : ∀ x ∈ e, x.slot ≠ s
        · exact ⟨_, .other below hn hother⟩
        · push Not at hother
          rcases hother with ⟨x, hx, hs⟩
          obtain rfl : e = some x := hx
          rcases hdirty : x.dirty with _ | _
          · exact ⟨_, .clean below hn hs hdirty⟩
          · rcases Push.exists_push slots x.data (n + 1) below with ⟨below', hpush⟩
            exact ⟨_, .dirty hn hs hdirty hpush⟩
      · rcases ih (n + 1) with ⟨below', hflush⟩
        exact ⟨_, .lower e hn hflush⟩

/-- A slot that holds nothing of the chain is flushed without effect. -/
theorem eq_of_empty (h : Flush slots k s n c c')
    (hc : Within (fun _ => True) (fun i t => ¬ (i = k ∧ t = s)) n c) : c' = c := by
  induction h with
  | memory n v => rfl
  | other below _ _ => rfl
  | @clean n e below hn hs _ => exact absurd ⟨hn, hs⟩ (hc.1 e rfl trivial)
  | @dirty n e _ _ hn hs _ _ => exact absurd ⟨hn, hs⟩ (hc.1 e rfl trivial)
  | lower e _ _ ih => exact congrArg (Chain.level e) (ih hc.2)

end Flush

section Discard

variable [DecidableEq S]

theorem mem_discard (k : ℕ) (s : S) (n : ℕ) (c : Chain S V) : (discard k s n c).mem = c.mem := by
  induction c generalizing n with
  | memory v => rfl
  | level e below ih =>
      rw [discard]
      split
      · rfl
      · exact ih (n + 1)

theorem depth_discard (k : ℕ) (s : S) (n : ℕ) (c : Chain S V) : (discard k s n c).depth = c.depth := by
  induction c generalizing n with
  | memory v => rfl
  | level e below ih =>
      rw [discard]
      split
      · rfl
      · exact congrArg (· + 1) (ih (n + 1))

theorem values_discard {W : Set V} (k : ℕ) (s : S) (n : ℕ) (hc : c.Values W) :
    (discard k s n c).Values W := by
  induction c generalizing n with
  | memory v => exact hc
  | level e below ih =>
      rw [discard]
      split
      · exact ⟨fun x hx => hc.1 x (Option.mem_filter_iff.1 hx).1, hc.2⟩
      · exact ⟨hc.1, ih (n + 1) hc.2⟩

/-- Invalidating a slot adds no copy and takes those in the slot out. -/
theorem Within.discard {q : Copy S V → Prop} {T : ℕ → S → Prop} (h : Within q T n c) (k : ℕ) (s : S) :
    Within q (fun i t => T i t ∧ ¬ (i = k ∧ t = s)) n (Chain.discard k s n c) := by
  induction c generalizing n with
  | memory v => trivial
  | level e below ih =>
      rw [Chain.discard]
      split
      · next hn =>
          refine ⟨fun x hx hqx => ?_, h.2.mono (fun _ hqx => hqx) fun i t hle _ ht =>
            ⟨ht, fun hplace => ?_⟩⟩
          · rcases Option.mem_filter_iff.1 hx with ⟨hmem, hslot⟩
            exact ⟨h.1 x hmem hqx, fun hplace => of_decide_eq_true hslot hplace.2⟩
          · omega
      · next hn => exact ⟨fun x hx hqx => ⟨h.1 x hx hqx, fun hplace => hn hplace.1⟩, ih h.2⟩

end Discard

/-! ## A sweep over one level -/

/-- The places that a sweep from the top has still to reach: slots `T` of level `k`, and what is below. -/
def Front (k : ℕ) (T : Set S) (i : ℕ) (t : S) : Prop :=
  k < i ∨ i = k ∧ t ∈ T

theorem sinks_front (slots : ℕ → Set S) (k : ℕ) (T : Set S) : Move.Sinks slots (Front k T) := by
  rintro i t hplace j t' hij -
  rcases hplace with hlt | ⟨rfl, -⟩
  · exact .inl (Nat.lt_trans hlt hij)
  · exact .inl hij

theorem sinks_slots (slots : ℕ → Set S) : Move.Sinks slots fun i t => t ∈ slots i :=
  fun _ _ _ _ _ _ ht => ht

namespace Within

variable {q : Copy S V → Prop} {T : Set S}

theorem front_univ (h : Within q (fun i _ => k ≤ i) n c) : Within q (Front k Set.univ) n c := by
  refine h.mono (fun _ hqx => hqx) fun i t _ _ hle => ?_
  rcases Nat.eq_or_lt_of_le hle with rfl | hlt
  · exact .inr ⟨rfl, trivial⟩
  · exact .inl hlt

/-- Where no slot of the level is left, the sweep is through with it. -/
theorem front_done (h : Within q (Front k T) n c) (hplaced : Placed slots n c)
    (hT : ∀ t ∈ slots k, t ∉ T) : Within q (fun i _ => k + 1 ≤ i) n c := by
  refine (h.and hplaced).mono (fun _ hqx => ⟨hqx, trivial⟩) ?_
  rintro i t - - ⟨hlt | ⟨rfl, ht⟩, hslot⟩
  · exact hlt
  · exact absurd ht (hT t hslot)

theorem front_diff (h : Within q (fun i t => Front k T i t ∧ ¬ (i = k ∧ t = s)) n c) :
    Within q (Front k (T \ {s})) n c := by
  refine h.mono (fun _ hqx => hqx) ?_
  rintro i t - - ⟨hlt | ⟨rfl, ht⟩, hnot⟩
  · exact .inl hlt
  · exact .inr ⟨rfl, ht, fun hs => hnot ⟨rfl, hs⟩⟩

/-- A sweep that is through with all levels has left no copy with `q`. -/
theorem below_depth (h : Within q (fun i _ => c.depth ≤ i) 0 c) : Within q (fun _ _ => False) 0 c :=
  h.mono (fun _ hqx => hqx) fun _ _ _ hlt hle => absurd hle (Nat.not_le.2 (Nat.zero_add c.depth ▸ hlt))

end Within

/-! ## A single copy -/

/-- Empty levels over memory. -/
def bare (v : V) : ℕ → Chain S V
  | 0 => .memory v
  | n + 1 => .level none (bare v n)

/-- One copy, with `above` empty levels above it and `under` ones under it. -/
def lone (x : Copy S V) (v : V) (under : ℕ) : ℕ → Chain S V
  | 0 => .level (some x) (bare v under)
  | above + 1 => .level none (lone x v under above)

section Lone

variable {x : Copy S V} {under above : ℕ} {q : Copy S V → Prop} {T : ℕ → S → Prop}

theorem depth_bare (v : V) (n : ℕ) : (bare v n : Chain S V).depth = n := by
  induction n with
  | zero => rfl
  | succ n ih => exact congrArg (· + 1) ih

theorem coherent_bare (v : V) (n : ℕ) : (bare v n : Chain S V).Coherent := by
  induction n with
  | zero => trivial
  | succ n ih => exact ⟨nofun, ih⟩

theorem within_bare (v : V) (n m : ℕ) : Within q T m (bare v n) := by
  induction n generalizing m with
  | zero => trivial
  | succ n ih => exact ⟨nofun, ih (m + 1)⟩

theorem depth_lone (x : Copy S V) (v : V) (under above : ℕ) :
    (lone x v under above).depth = above + 1 + under := by
  induction above with
  | zero =>
      rw [lone, depth, depth_bare]
      omega
  | succ above ih =>
      rw [lone, depth, ih]
      omega

theorem coherent_lone (hx : x.dirty = true) : (lone x v under above).Coherent := by
  induction above with
  | zero =>
      refine ⟨?_, coherent_bare v under⟩
      rintro y ⟨⟩ hy
      rw [hx] at hy
      cases hy
  | succ above ih => exact ⟨nofun, ih⟩

theorem within_lone_iff : Within q T n (lone x v under above) ↔ (q x → T (n + above) x.slot) := by
  induction above generalizing n with
  | zero =>
      constructor
      · exact fun h => h.1 x rfl
      · intro h
        refine ⟨?_, within_bare v under (n + 1)⟩
        rintro y ⟨⟩
        exact h
  | succ above ih =>
      have hnext : n + (above + 1) = n + 1 + above := by omega
      rw [hnext, ← ih]
      exact ⟨fun h => h.2, fun h => ⟨nofun, h⟩⟩

end Lone

/-! ## Chains without copies -/

theorem Coherent.view_eq_mem (hc : c.Coherent)
    (h : Within (fun x => x.dirty = true) (fun _ _ => False) n c) : c.view = c.mem := by
  induction c generalizing n with
  | memory v => rfl
  | level e below ih =>
      rcases e with _ | e
      · exact ih hc.2 h.2
      · have hclean : e.dirty = false := Bool.eq_false_iff.2 (h.1 e rfl)
        exact (hc.1 e rfl hclean).trans (ih hc.2 h.2)

theorem view_eq_mem_of_empty (h : Within (fun _ => True) (fun _ _ => False) n c) : c.view = c.mem := by
  induction c generalizing n with
  | memory v => rfl
  | level e below ih =>
      rcases e with _ | e
      · exact ih h.2
      · exact absurd trivial (h.1 e rfl)

theorem Values.mem {W : Set V} (hc : c.Values W) : c.mem ∈ W := by
  induction c with
  | memory v => exact hc
  | level e below ih => exact ih hc.2

theorem values_univ (c : Chain S V) : c.Values Set.univ := by
  induction c with
  | memory v => trivial
  | level e below ih => exact ⟨fun _ _ _ => trivial, ih⟩

/-! ## All addresses -/

variable {A : Type}

/-- The caches make a move at one address. -/
def Stir (slots : ℕ → Set S) (fills : Prop) (m m' : A → Chain S V) : Prop :=
  ∃ a, Move slots fills 0 (m a) (m' a) ∧ ∀ b, b ≠ a → m' b = m b

theorem Stir.forall {m m' : A → Chain S V} (h : Stir slots fills m m') {I : A → Chain S V → Prop}
    (hI : ∀ a c c', I a c → Move slots fills 0 c c' → I a c') (hm : ∀ a, I a (m a)) (a : A) :
    I a (m' a) := by
  rcases h with ⟨b, hmove, hrest⟩
  by_cases hab : a = b
  · subst hab
    exact hI a _ _ (hm a) hmove
  · rw [hrest a hab]
    exact hm a

end Chain

end BspV3s
