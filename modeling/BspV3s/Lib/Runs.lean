import Mathlib.Logic.Relation

/-!
# Runs — labelled steps under a condition

A system of several agents is a step relation whose labels say which agent moves and how.
`RunUnder step C` are its runs in which every step meets condition `C` in the state it is taken
from; `C` may be the negation of a known race, or nothing at all.
-/

namespace BspV3s

variable {L S : Type} {step : L → S → S → Prop} {C C' : L → S → Prop} {I : S → Prop}
  {s s' s'' : S} {l : L}

def RunUnder (step : L → S → S → Prop) (C : L → S → Prop) : S → S → Prop :=
  Relation.ReflTransGen fun s s' => ∃ l, C l s ∧ step l s s'

namespace RunUnder

theorem refl : RunUnder step C s s :=
  Relation.ReflTransGen.refl

theorem trans (h : RunUnder step C s s') (h' : RunUnder step C s' s'') : RunUnder step C s s'' :=
  Relation.ReflTransGen.trans h h'

theorem tail (h : RunUnder step C s s') (hC : C l s') (hstep : step l s' s'') :
    RunUnder step C s s'' :=
  Relation.ReflTransGen.tail h ⟨l, hC, hstep⟩

theorem head (hC : C l s) (hstep : step l s s') (h : RunUnder step C s' s'') :
    RunUnder step C s s'' :=
  Relation.ReflTransGen.head ⟨l, hC, hstep⟩ h

theorem mono (hC : ∀ l s, C l s → C' l s) (h : RunUnder step C s s') : RunUnder step C' s s' := by
  refine Relation.ReflTransGen.mono ?_ _ _ h
  rintro s s' ⟨l, hl, hstep⟩
  exact ⟨l, hC l s hl, hstep⟩

/-- What holds at the start and survives every step that meets the condition holds throughout. -/
theorem invariant (hstep : ∀ l s s', I s → C l s → step l s s' → I s') (hs : I s)
    (h : RunUnder step C s s') : I s' := by
  induction h with
  | refl => exact hs
  | tail _ hl ih =>
      rcases hl with ⟨l, hC, hl⟩
      exact hstep l _ _ ih hC hl

end RunUnder

end BspV3s
