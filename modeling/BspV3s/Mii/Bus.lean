import Mathlib.Data.BitVec
import Mathlib.Data.Int.Notation
import BspV3s.Lib.Program

/-!
# Bus — the management bus as the PHY library sees it

The library reaches its PHYs through the `read` and `write` callbacks of a `struct mii_dev`.  Here are
these accesses, and what they mean for the PHYs on a bus on which nothing fails: each read and write
takes place at some instant between its call and its return, and in between the PHYs go on by
themselves.
-/

namespace BspV3s

namespace Mii

abbrev U16 := BitVec 16

abbrev U32 := BitVec 32

/-- `bus->read`, `bus->write` and the delays of the library. -/
inductive Op
  | read (addr : ℕ) (devad : ℤ) (reg : ℕ)
  | write (addr : ℕ) (devad : ℤ) (reg : ℕ) (val : U16)
  | udelay (usec : ℕ)
  deriving DecidableEq

/-- An `int` is the word that holds it. -/
abbrev Op.Ret : Op → Type
  | .read _ _ _ => U32
  | .write _ _ _ _ => U32
  | .udelay _ => Unit

abbrev BusM := Prog Op Op.Ret

def busRead (addr : ℕ) (devad : ℤ) (reg : ℕ) : BusM U32 := Prog.op (Op.read addr devad reg)

def busWrite (addr : ℕ) (devad : ℤ) (reg : ℕ) (val : U16) : BusM U32 :=
  Prog.op (Op.write addr devad reg val)

def udelay (usec : ℕ) : BusM Unit := Prog.op (Op.udelay usec)

def MDIO_DEVAD_NONE : ℤ := -1

def PHY_MAX_ADDR : ℕ := 32

/-- The PHYs on a bus, and what reading and writing their registers does. -/
structure Phys (P : Type) where
  read : (addr reg : ℕ) → P → U16 × P
  write : (addr reg : ℕ) → U16 → P → P

/-- An access at some instant, with PHYs that also move by `R`. -/
inductive Sem {P : Type} (B : Phys P) (R : P → P → Prop) : Prog.Sem Op Op.Ret P
  | read {addr reg : ℕ} {devad : ℤ} {p p₁ p' : P} : Relation.ReflTransGen R p p₁ →
      Relation.ReflTransGen R (B.read addr reg p₁).2 p' →
      Sem B R (.read addr devad reg) p ((B.read addr reg p₁).1.setWidth 32) p'
  | write {addr reg : ℕ} {devad : ℤ} {val : U16} {p p₁ p' : P} : Relation.ReflTransGen R p p₁ →
      Relation.ReflTransGen R (B.write addr reg val p₁) p' →
      Sem B R (.write addr devad reg val) p 0 p'
  | udelay {usec : ℕ} {p p' : P} : Relation.ReflTransGen R p p' → Sem B R (.udelay usec) p () p'

theorem Sem.mono {P : Type} {B : Phys P} {R R' : P → P → Prop} (hR : ∀ p p', R p p' → R' p p')
    {o : Op} {p p' : P} {r : o.Ret} (h : Sem B R o p r p') : Sem B R' o p r p' := by
  have hstar : ∀ {p p'}, Relation.ReflTransGen R p p' → Relation.ReflTransGen R' p p' :=
    fun h => Relation.ReflTransGen.mono hR _ _ h
  cases h with
  | read hbefore hafter => exact .read (hstar hbefore) (hstar hafter)
  | write hbefore hafter => exact .write (hstar hbefore) (hstar hafter)
  | udelay hmoves => exact .udelay (hstar hmoves)

/-- The accesses that a bus can address. -/
def Op.Addressed : Op → Prop
  | .read addr _ reg => addr < 32 ∧ reg < 32
  | .write addr _ reg _ => addr < 32 ∧ reg < 32
  | .udelay _ => True

end Mii

end BspV3s
