import Mathlib.Data.Fintype.Basic
import BspV3s.Gpio.Registers

/-!
# Updates — contexts that set pins of their own at the same time

A setter reads a register, changes a field and writes the register back, and neither disables
interrupts nor takes a lock.  A context that sets other pins of the bank in between loses what it has
set; while no context writes a register that another one is about to write back, no context does.

* `updates_kept` : what the registers hold for the pins of a context that has returned;
* `update_lost`  : an interrupt between the read and the write of a thread.
-/

namespace BspV3s

namespace Gpio

open Registers (Agents Step NoRace)

variable {ι : Type}

/-- No two contexts call for the same pin. -/
def Disjoint (calls : ι → List Call) : Prop :=
  ∀ i j, i ≠ j → ∀ c ∈ calls i, ∀ d ∈ calls j, c.pin ≠ d.pin

/-- The contexts before their first access. -/
def begin (calls : ι → List Call) (r : Regs) : Agents ι ℕ U32 :=
  ⟨fun i => progs (calls i), r⟩

/-- A context that has returned finds its pins as its own calls have set them, and nobody has
touched the pins that no context calls for. -/
def Kept (calls : ι → List Call) (r : Regs) (s : Agents ι ℕ U32) : Prop :=
  (∀ i, s.prog i = .ret () → ∀ c ∈ calls i, ∀ a,
    pio.get s.reg (c.pin, a) = specAll (calls i) (pio.get r) (c.pin, a)) ∧
  ∀ k : Key, (∀ i, ∀ c ∈ calls i, c.pin ≠ k.1) → pio.get s.reg k = pio.get r k

/-- A call puts values into fields of its pin only. -/
theorem Call.pin_of_mem_puts {c : Call} {q : Registers.Put Key} (h : q ∈ c.puts) :
    q.1.1 = c.pin := by
  cases c with
  | setMode p mode =>
      simp only [Call.puts, List.mem_append] at h
      rcases h with (h | h) | h <;> split_ifs at h <;>
        first | (rw [List.mem_singleton.1 h]; rfl) | cases h
  | directionOutput p value =>
      rcases List.mem_cons.1 h with rfl | h
      · rfl
      · rw [List.mem_singleton.1 h]
        rfl
  | directionInput p => exact congrArg (·.1.1) (List.mem_singleton.1 h)
  | setValue p value => exact congrArg (·.1.1) (List.mem_singleton.1 h)
  | setCfgpin p val => exact congrArg (·.1.1) (List.mem_singleton.1 h)
  | setPull p val => exact congrArg (·.1.1) (List.mem_singleton.1 h)
  | setDrv p val => exact congrArg (·.1.1) (List.mem_singleton.1 h)

open Classical in
/-- The context that calls for the pin of a key. -/
noncomputable def owner (calls : ι → List Call) (k : Key) : Option ι :=
  if h : ∃ i, ∃ c ∈ calls i, c.pin = k.1 then some h.choose else none

theorem owner_of_mem {calls : ι → List Call} (hdisjoint : Disjoint calls) {i : ι} {c : Call}
    (hc : c ∈ calls i) {k : Key} (hk : k.1 = c.pin) : owner calls k = some i := by
  have hex : ∃ i, ∃ c ∈ calls i, c.pin = k.1 := ⟨i, c, hc, hk.symm⟩
  rw [owner, dif_pos hex]
  rcases hex.choose_spec with ⟨d, hd, hpin⟩
  by_contra hne
  exact hdisjoint _ i (fun h => hne (congrArg some h)) d hd c hc (hpin.trans hk)

theorem owner_eq_none {calls : ι → List Call} {k : Key} (h : ∀ i, ∀ c ∈ calls i, c.pin ≠ k.1) :
    owner calls k = none := by
  refine dif_neg ?_
  rintro ⟨i, c, hc, hk⟩
  exact h i c hc hk

variable [DecidableEq ι]

/-- Contexts that call for pins of their own, with every read and every write a step of its own: as
long as no context writes a register that another one is about to write back, no update is lost. -/
theorem updates_kept {calls : ι → List Call} (hvalid : ∀ i, ∀ c ∈ calls i, c.Valid)
    (hdisjoint : Disjoint calls) {r : Regs} {s : Agents ι ℕ U32}
    (hrun : RunUnder Step NoRace (begin calls r) s) : Kept calls r s := by
  have hbegin : begin calls r = ⟨fun i =>
      Registers.changes (((calls i).flatMap Call.puts).map (Registers.putChange pio)), r⟩ := by
    unfold begin
    congr 1
    funext i
    exact progs_eq (calls i)
  rw [hbegin] at hrun
  have hown : ∀ i, ∀ q ∈ (calls i).flatMap Call.puts, owner calls q.1 = some i := by
    intro i q hq
    rcases List.mem_flatMap.1 hq with ⟨c, hc, hq⟩
    exact owner_of_mem hdisjoint hc (Call.pin_of_mem_puts hq)
  have hkept := Registers.owned_of_run (fun i => fit_flatMap (hvalid i)) hown hrun
  refine ⟨fun i hret c hc a => ?_, fun k hk => hkept.2 k (owner_eq_none hk)⟩
  rw [← putAll_flatMap]
  exact hkept.1 i hret _ (owner_of_mem hdisjoint hc rfl)

/-! ## A thread and an interrupt -/

inductive Context
  | thread
  | interrupt
  deriving DecidableEq

instance : Fintype Context where
  elems := {.thread, .interrupt}
  complete i := by cases i <;> decide

/-- PB0 and PB1. -/
def Context.pin : Context → Pin
  | thread => ⟨32, by decide⟩
  | interrupt => ⟨33, by decide⟩

/-- Each of them raises its pin. -/
def raiseBoth (i : Context) : List Call := [.setValue i.pin 1]

theorem raiseBoth_valid : ∀ i, ∀ c ∈ raiseBoth i, c.Valid := by
  intro i c hc
  rw [List.mem_singleton.1 hc]
  trivial

theorem raiseBoth_disjoint : Disjoint raiseBoth := by
  have hpins : ∀ i j : Context, i ≠ j → i.pin ≠ j.pin := by decide
  intro i j hij c hc d hd
  rw [List.mem_singleton.1 hc, List.mem_singleton.1 hd]
  exact hpins i j hij

/-- The interrupt comes after the thread has written. -/
theorem updates_kept_in_turn :
    Kept raiseBoth (fun _ => 0) ((begin raiseBoth fun _ => 0).run [.thread, .thread, .interrupt, .interrupt]) := by
  refine updates_kept raiseBoth_valid raiseBoth_disjoint ?_
  refine Agents.run_of_passes (fun i s (h : decide (∀ j, j ≠ i →
    Registers.racing (s.prog i) (s.prog j) = false) = true) =>
      Registers.noRace_of_racing (of_decide_eq_true h)) ?_
  decide

/-- The interrupt comes after the thread has read: its pin is low again when the thread has
written. -/
theorem update_lost :
    RunUnder Step (fun _ _ => True) (begin raiseBoth fun _ => 0)
      ((begin raiseBoth fun _ => 0).run [.thread, .interrupt, .interrupt, .thread]) ∧
    ¬ Kept raiseBoth (fun _ => 0) ((begin raiseBoth fun _ => 0).run [.thread, .interrupt, .interrupt, .thread]) := by
  refine ⟨Agents.run_any _ _, fun hkept => ?_⟩
  have hlevel := hkept.1 .interrupt rfl (.setValue Context.interrupt.pin 1) (List.mem_singleton_self _) .level
  exact absurd hlevel (by decide)

end Gpio

end BspV3s
