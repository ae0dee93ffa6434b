import Mathlib.Data.List.Nodup
import Mathlib.Data.Nat.Notation
import Mathlib.Logic.Function.Basic

/-!
# Ring — circular doubly linked lists

Cells of some type, each with a successor and a predecessor.  `Arc L a xs b` says that the links lead
from `a` through `xs` to `b` and back again, and a ring is an arc from its head to itself that meets no
cell twice.  All changes of a ring are made of one: `join a b` makes `b` the cell after `a`.

* `Arc.setEnd`, `Arc.join_apart` : what joining two cells does to an arc;
* `Ring.insert`, `Ring.erase`    : an entry joins the ring, an entry leaves it;
* `Ring.findFrom_eq`             : a loop around the ring ends, and sees the entries in their order.
-/

namespace BspV3s

/-- The links of a heap of cells. -/
structure Links (α : Type) where
  next : α → α
  prev : α → α

namespace Links

variable {α : Type} {L : Links α} {a b c h n : α} {xs ys : List α}

/-- The links lead from `a` through `xs` to `b`, and back. -/
def Arc (L : Links α) : α → List α → α → Prop
  | a, [], b => L.next a = b ∧ L.prev b = a
  | a, x :: xs, b => (L.next a = x ∧ L.prev x = a) ∧ L.Arc x xs b

theorem arc_append_iff {y : α} :
    L.Arc a (xs ++ y :: ys) b ↔ L.Arc a xs y ∧ L.Arc y ys b := by
  induction xs generalizing a with
  | nil => exact Iff.rfl
  | cons x xs ih =>
      change (_ ∧ L.Arc x (xs ++ y :: ys) b) ↔ (_ ∧ L.Arc x xs y) ∧ _
      rw [ih]
      exact and_assoc.symm

theorem Arc.next_eq (h : L.Arc a xs b) : L.next a = xs.headD b := by
  cases xs with
  | nil => exact h.1
  | cons x xs => exact h.1.1

theorem Arc.prev_eq (h : L.Arc a xs b) : L.prev b = xs.getLastD a := by
  induction xs generalizing a with
  | nil => exact h.2
  | cons x xs ih =>
      rw [List.getLastD_cons]
      exact ih h.2

/-- An arc is a matter of the links between its cells. -/
theorem Arc.congr {L' : Links α} (h : L.Arc a xs b) (hnext : ∀ c ∈ a :: xs, L'.next c = L.next c)
    (hprev : ∀ c ∈ b :: xs, L'.prev c = L.prev c) : L'.Arc a xs b := by
  induction xs generalizing a with
  | nil =>
      exact ⟨(hnext a List.mem_cons_self).trans h.1, (hprev b List.mem_cons_self).trans h.2⟩
  | cons x xs ih =>
      have hx : x ∈ b :: x :: xs := List.mem_cons_of_mem _ List.mem_cons_self
      refine ⟨⟨(hnext a List.mem_cons_self).trans h.1.1, (hprev x hx).trans h.1.2⟩, ?_⟩
      refine ih h.2 (fun c hc => hnext c (List.mem_cons_of_mem _ hc)) fun c hc => hprev c ?_
      rcases List.mem_cons.1 hc with rfl | hmem
      · exact List.mem_cons_self
      · exact List.mem_cons_of_mem _ (List.mem_cons_of_mem _ hmem)

/-- The entries of the ring at `h`, in their order. -/
structure Ring (L : Links α) (h : α) (xs : List α) : Prop where
  arc : L.Arc h xs h
  nodup : (h :: xs).Nodup

namespace Ring

theorem head_notMem (hr : L.Ring h xs) : h ∉ xs :=
  (List.nodup_cons.1 hr.nodup).1

theorem nodup_entries (hr : L.Ring h xs) : xs.Nodup :=
  (List.nodup_cons.1 hr.nodup).2

theorem next_head (hr : L.Ring h xs) : L.next h = xs.headD h :=
  hr.arc.next_eq

theorem prev_head (hr : L.Ring h xs) : L.prev h = xs.getLastD h :=
  hr.arc.prev_eq

theorem congr {L' : Links α} (hr : L.Ring h xs)
    (heq : ∀ c ∈ h :: xs, L'.next c = L.next c ∧ L'.prev c = L.prev c) : L'.Ring h xs :=
  ⟨hr.arc.congr (fun c hc => (heq c hc).1) (fun c hc => (heq c hc).2), hr.nodup⟩

/-- The neighbours of an entry. -/
theorem neighbours (hr : L.Ring h (xs ++ n :: ys)) :
    L.prev n = xs.getLastD h ∧ L.next n = ys.headD h :=
  ⟨(arc_append_iff.1 hr.arc).1.prev_eq, (arc_append_iff.1 hr.arc).2.next_eq⟩

end Ring

/-! ## Joining -/

variable [DecidableEq α]

def join (L : Links α) (a b : α) : Links α where
  next := Function.update L.next a b
  prev := Function.update L.prev b a

@[simp] theorem join_next_self (L : Links α) (a b : α) : (L.join a b).next a = b :=
  Function.update_self ..

@[simp] theorem join_prev_self (L : Links α) (a b : α) : (L.join a b).prev b = a :=
  Function.update_self ..

theorem join_next_of_ne (L : Links α) (b : α) (h : c ≠ a) : (L.join a b).next c = L.next c :=
  Function.update_of_ne h ..

theorem join_prev_of_ne (L : Links α) (a : α) (h : c ≠ b) : (L.join a b).prev c = L.prev c :=
  Function.update_of_ne h ..

theorem arc_join : (L.join a b).Arc a [] b :=
  ⟨join_next_self .., join_prev_self ..⟩

/-- Joining cells beside an arc leaves it as it is. -/
theorem Arc.join_apart (h : L.Arc a xs b) (hc : c ∉ a :: xs) (hn : n ∉ b :: xs) :
    (L.join c n).Arc a xs b :=
  h.congr (fun _ hmem => join_next_of_ne L n fun heq => hc (heq ▸ hmem))
    (fun _ hmem => join_prev_of_ne L c fun heq => hn (heq ▸ hmem))

/-- The last cell of an arc is joined to another one. -/
theorem Arc.setEnd (h : L.Arc a xs b) (hnodup : (a :: xs).Nodup) (hc : c ∉ xs) :
    (L.join (xs.getLastD a) c).Arc a xs c := by
  induction xs generalizing a with
  | nil => exact arc_join
  | cons x xs ih =>
      have hlast : xs.getLastD x ∈ x :: xs := by
        exact List.getLastD_mem_cons ..
      have ha : a ≠ xs.getLastD x := fun heq => (List.nodup_cons.1 hnodup).1 (heq ▸ hlast)
      have hx : x ≠ c := fun heq => hc (heq ▸ List.mem_cons_self)
      rw [List.getLastD_cons]
      refine ⟨⟨(join_next_of_ne L c ha).trans h.1.1, (join_prev_of_ne L _ hx).trans h.1.2⟩, ?_⟩
      exact ih h.2 (List.nodup_cons.1 hnodup).2 fun hmem => hc (List.mem_cons_of_mem _ hmem)

/-! ## Entries come and go -/

namespace Ring

/-- A cell that is joined to itself is the ring of nothing. -/
theorem empty (L : Links α) (h : α) : (L.join h h).Ring h [] :=
  ⟨arc_join, by simp⟩

/-- A new entry between two neighbours. -/
theorem insert (hr : L.Ring h (xs ++ ys)) (hn : n ∉ h :: (xs ++ ys)) :
    ((L.join (xs.getLastD h) n).join n (ys.headD h)).Ring h (xs ++ n :: ys) := by
  have hnodup : (h :: (xs ++ n :: ys)).Nodup := by
    rw [← List.cons_append, List.nodup_middle]
    exact List.nodup_cons.2 ⟨hn, hr.nodup⟩
  have hnxs : n ∉ h :: xs := fun hmem => hn (List.mem_append_left ys hmem)
  have hfirst : (h :: xs).Nodup := (List.nodup_append.1 (List.cons_append ▸ hr.nodup)).1
  have hlast : xs.getLastD h ∈ h :: xs := List.getLastD_mem_cons ..
  refine ⟨arc_append_iff.2 ?_, hnodup⟩
  cases ys with
  | nil =>
      rw [List.append_nil] at hr hn
      refine ⟨?_, arc_join⟩
      refine (hr.arc.setEnd hfirst fun hmem => hnxs (List.mem_cons_of_mem _ hmem)).join_apart hnxs ?_
      exact List.not_mem_cons_of_ne_of_not_mem (fun heq => hnxs (heq ▸ List.mem_cons_self))
        hr.head_notMem
  | cons y ys =>
      rcases arc_append_iff.1 hr.arc with ⟨hleft, hright⟩
      -- No cell of the part before the new entry is met in the part behind it.
      have hapart : ∀ x ∈ h :: xs, x ∉ y :: ys := by
        intro x hx hmem
        exact (List.nodup_append.1 (List.cons_append ▸ hr.nodup)).2.2 x hx x hmem rfl
      have hny : n ∉ y :: ys := fun hmem => hn (List.mem_cons_of_mem _ (List.mem_append_right xs hmem))
      have hyxs : y ∉ h :: xs := fun hmem => hapart y hmem List.mem_cons_self
      have hyys : y ∉ ys :=
        (List.nodup_cons.1 (List.nodup_append.1 (List.cons_append ▸ hr.nodup)).2.1).1
      refine ⟨?_, ⟨⟨join_next_self .., join_prev_self ..⟩, ?_⟩⟩
      · refine (hleft.setEnd hfirst fun hmem => hnxs (List.mem_cons_of_mem _ hmem)).join_apart hnxs ?_
        exact List.not_mem_cons_of_ne_of_not_mem (fun heq => hny (heq ▸ List.mem_cons_self))
          fun hmem => hyxs (List.mem_cons_of_mem _ hmem)
      · refine (hright.join_apart (hapart _ hlast) ?_).join_apart hny ?_
        · exact List.not_mem_cons_of_ne_of_not_mem (fun heq => hnxs (heq ▸ List.mem_cons_self))
            fun hmem => hny (List.mem_cons_of_mem _ hmem)
        · exact List.not_mem_cons_of_ne_of_not_mem (fun heq => hyxs (heq ▸ List.mem_cons_self)) hyys

/-- An entry leaves the ring when its neighbours are joined. -/
theorem erase (hr : L.Ring h (xs ++ n :: ys)) :
    (L.join (L.prev n) (L.next n)).Ring h (xs ++ ys) := by
  have hall : n ∉ h :: xs ++ ys ∧ (h :: xs ++ ys).Nodup :=
    List.nodup_cons.1 (List.nodup_middle.1 (List.cons_append ▸ hr.nodup))
  have hfirst : (h :: xs).Nodup := (List.nodup_append.1 hall.2).1
  have hlast : xs.getLastD h ∈ h :: xs := List.getLastD_mem_cons ..
  rcases arc_append_iff.1 hr.arc with ⟨hleft, hright⟩
  rw [hr.neighbours.1, hr.neighbours.2]
  refine ⟨?_, hall.2⟩
  cases ys with
  | nil =>
      rw [List.append_nil]
      exact hleft.setEnd hfirst (List.nodup_cons.1 hfirst).1
  | cons y ys =>
      have hapart : ∀ x ∈ h :: xs, x ∉ y :: ys := by
        intro x hx hmem
        exact (List.nodup_append.1 hall.2).2.2 x hx x hmem rfl
      have hyys : y ∉ ys := (List.nodup_cons.1 (List.nodup_append.1 hall.2).2.1).1
      refine arc_append_iff.2 ⟨?_, ?_⟩
      · exact hleft.setEnd hfirst fun hmem => hapart y (List.mem_cons_of_mem _ hmem) List.mem_cons_self
      · refine hright.2.join_apart (hapart _ hlast) (List.not_mem_cons_of_ne_of_not_mem ?_ hyys)
        exact fun heq => hapart h List.mem_cons_self (heq ▸ List.mem_cons_self)

end Ring

/-! ## Around the ring -/

/-- The loop from `pos` on that stops at the first entry with `p`, or back at the head. -/
def findFrom (L : Links α) (h : α) (p : α → Bool) : ℕ → α → Option (Option α)
  | 0, _ => none
  | fuel + 1, pos =>
      if pos = h then some none
      else if p pos then some (some pos)
      else L.findFrom h p fuel (L.next pos)

theorem Arc.findFrom_eq {p : α → Bool} {fuel : ℕ} (harc : L.Arc a xs h) (hh : h ∉ xs)
    (hfuel : xs.length < fuel) : L.findFrom h p fuel (L.next a) = some (xs.find? p) := by
  induction xs generalizing a fuel with
  | nil =>
      rcases Nat.exists_eq_add_of_lt hfuel with ⟨k, rfl⟩
      rw [harc.1]
      exact if_pos rfl
  | cons x xs ih =>
      rcases Nat.exists_eq_add_of_lt hfuel with ⟨k, rfl⟩
      have hx : x ≠ h := fun heq => hh (heq ▸ List.mem_cons_self)
      rw [harc.1.1, findFrom, if_neg hx]
      by_cases hp : p x = true
      · rw [if_pos hp, List.find?_cons_of_pos hp]
      · rw [if_neg hp, List.find?_cons_of_neg hp]
        refine ih harc.2 (fun hmem => hh (List.mem_cons_of_mem _ hmem)) ?_
        rw [List.length_cons]
        omega

theorem Ring.findFrom_eq {p : α → Bool} {fuel : ℕ} (hr : L.Ring h xs) (hfuel : xs.length < fuel) :
    L.findFrom h p fuel (L.next h) = some (xs.find? p) :=
  hr.arc.findFrom_eq hr.head_notMem hfuel

end Links

end BspV3s
