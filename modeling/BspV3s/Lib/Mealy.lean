/-!
# Mealy — machines that answer a symbol at a time

A Mealy machine answers every symbol with one of its own and moves on.  What it answers to a word
does not depend on how the word is cut into pieces, as long as each piece meets the state that the
one before has left.
-/

namespace BspV3s

/-- `step s x`: the answer to `x` in state `s`, and the next state. -/
structure Mealy (σ α β : Type) where
  step : σ → α → β × σ

namespace Mealy

variable {σ α β : Type} (M : Mealy σ α β)

def after : σ → List α → σ
  | s, [] => s
  | s, x :: xs => after (M.step s x).2 xs

def replies : σ → List α → List β
  | _, [] => []
  | s, x :: xs => (M.step s x).1 :: replies (M.step s x).2 xs

/-- Each symbol beside its answer. -/
def exchanges (s : σ) (xs : List α) : List (α × β) := xs.zip (M.replies s xs)

theorem exchanges_cons (s : σ) (x : α) (xs : List α) :
    M.exchanges s (x :: xs) = (x, (M.step s x).1) :: M.exchanges (M.step s x).2 xs := rfl

@[simp] theorem length_replies (s : σ) (xs : List α) : (M.replies s xs).length = xs.length := by
  induction xs generalizing s with
  | nil => rfl
  | cons x xs ih => exact congrArg (· + 1) (ih _)

/-! ## Words in pieces -/

theorem after_append (s : σ) (xs ys : List α) :
    M.after s (xs ++ ys) = M.after (M.after s xs) ys := by
  induction xs generalizing s with
  | nil => rfl
  | cons x xs ih => exact ih _

theorem replies_append (s : σ) (xs ys : List α) :
    M.replies s (xs ++ ys) = M.replies s xs ++ M.replies (M.after s xs) ys := by
  induction xs generalizing s with
  | nil => rfl
  | cons x xs ih => exact congrArg ((M.step s x).1 :: ·) (ih _)

theorem exchanges_append (s : σ) (xs ys : List α) :
    M.exchanges s (xs ++ ys) = M.exchanges s xs ++ M.exchanges (M.after s xs) ys := by
  induction xs generalizing s with
  | nil => rfl
  | cons x xs ih => exact congrArg ((x, (M.step s x).1) :: ·) (ih _)

end Mealy

end BspV3s
