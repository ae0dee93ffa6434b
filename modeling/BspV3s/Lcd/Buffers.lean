import BspV3s.Lcd.Geometry
import BspV3s.Lib.Program
import BspV3s.Lib.Runs

/-!
# Buffers — drawing and scanning out

An update copies the picture into the frame buffer that the last one has not used, and then has the
display engine use it, which it does from the next vertical blank on.  Nothing makes the next update
wait for that blank.

* `copy_not_scanned`   : a copy spares the buffer that is scanned out, as long as none begins before
                         the blank that follows the last commit;
* `copy_scanned`       : a second update in one frame.
-/

namespace BspV3s

namespace Lcd

/-! ## The update -/

inductive Reg
  | topLaddr
  | dbuff

inductive Op
  | copyByte (dst src : U32) (i : ℕ)
  | writel (val : U32) (reg : Reg)

def Op.Ret : Op → Type
  | .copyByte _ _ _ => Unit
  | .writel _ _ => Unit

abbrev LcdProg := Prog Op Op.Ret

/-- `n` bytes are left, from the `i`-th on. -/
def rtMemcpy (dst src : U32) : ℕ → ℕ → LcdProg Unit
  | 0, _ => pure ()
  | n + 1, i => do
      Prog.op (Op.copyByte dst src i)
      rtMemcpy dst src n (i + 1)

def sunxiComposerEnable : LcdProg Unit := Prog.op (Op.writel 1 .dbuff)

def sunxiComposerFbbaseSet (fbbase : U32) : LcdProg Unit := do
  let address := fbbase - CONFIG_SYS_SDRAM_BASE
  Prog.op (Op.writel address .topLaddr)
  sunxiComposerEnable

/-- `fb_address[index]`. -/
def Lcdfb.fb (lcd : Lcdfb) : U32 :=
  if lcd.index = 0 then lcd.fbAddress.1 else lcd.fbAddress.2

/-- The record with the next index. -/
def Lcdfb.flip (lcd : Lcdfb) : Lcdfb :=
  { lcd with index := (lcd.index + 1) % 2 }

inductive Cmd
  | getInfo
  | rectUpdate
  | other

/-- `_lcd_control`, which leaves the record behind; the information goes to the caller's buffer. -/
def lcdControl (cmd : Cmd) (framebuffer : U32) (lcd : Lcdfb) : LcdProg Lcdfb :=
  match cmd with
  | .getInfo => pure lcd
  | .rectUpdate => do
      let lcd := lcd.flip
      rtMemcpy lcd.fb framebuffer lcd.bufsize.toNat 0
      sunxiComposerFbbaseSet lcd.fb
      pure lcd
  | .other => pure lcd

/-! ## The display engine -/

/-- The memory, the layer register, what has been committed, and what is scanned out. -/
structure Engine where
  mem : U32 → BitVec 8
  topLaddr : U32
  committed : U32
  scanned : U32

def access (o : Op) (e : Engine) : Engine :=
  match o with
  | .copyByte dst src i =>
      let byte := e.mem (src + BitVec.ofNat 32 i)
      { e with mem := fun a => if a = dst + BitVec.ofNat 32 i then byte else e.mem a }
  | .writel val .topLaddr => { e with topLaddr := val }
  | .writel val .dbuff => { e with committed := if val &&& 1 ≠ 0 then e.topLaddr else e.committed }

/-- A vertical blank. -/
def blank (e : Engine) : Engine := { e with scanned := e.committed }

/-- The driver's record as the last call has left it, the call in progress, and the engine. -/
structure Sys where
  lcd : Lcdfb
  call : Option (LcdProg Lcdfb)
  engine : Engine

inductive Label
  | call (cmd : Cmd)
  | access
  | ret
  | blank

/-- One step, with the picture at `framebuffer`. -/
def Step (framebuffer : U32) : Label → Sys → Sys → Prop
  | .call cmd, s, s' => s.call = none ∧ s' = { s with call := some (lcdControl cmd framebuffer s.lcd) }
  | .access, s, s' => ∃ o k r, s.call = some (.call o k) ∧
      s' = { s with call := some (k r), engine := access o s.engine }
  | .ret, s, s' => ∃ lcd, s.call = some (.ret lcd) ∧ s' = { s with lcd := lcd, call := none }
  | .blank, s, s' => s' = { s with engine := blank s.engine }

/-- After `rt_hw_lcd_init`. -/
def begin (d : Display) (mem : U32 → BitVec 8) : Sys :=
  ⟨d.lcd, none, ⟨mem, d.ui.topLaddr, d.ui.topLaddr, d.ui.topLaddr⟩⟩

/-- The step does not begin a copy before the blank that follows the last commit. -/
def Blanked (l : Label) (s : Sys) : Prop :=
  l = .access → ∀ dst src k, s.call = some (.call (.copyByte dst src 0) k) →
    s.engine.scanned = s.engine.committed

/-! ## Two buffers -/

/-- The buffer of the index as the engine addresses it. -/
def Lcdfb.layer (lcd : Lcdfb) : U32 := lcd.fb - CONFIG_SYS_SDRAM_BASE

/-- The index is that of one of two different buffers. -/
structure Lcdfb.Two (lcd : Lcdfb) : Prop where
  index : lcd.index = 0 ∨ lcd.index = 1
  ne : lcd.fbAddress.1 ≠ lcd.fbAddress.2

namespace Lcdfb.Two

variable {lcd : Lcdfb} (h : lcd.Two)

include h

theorem flip_index :
    lcd.index = 0 ∧ lcd.flip.index = 1 ∨ lcd.index = 1 ∧ lcd.flip.index = 0 := by
  have h0 : ((0 : U32) + 1) % 2 = 1 := by decide
  have h1 : ((1 : U32) + 1) % 2 = 0 := by decide
  unfold Lcdfb.flip
  rcases h.index with hi | hi
  · exact .inl ⟨hi, by rw [hi, h0]⟩
  · exact .inr ⟨hi, by rw [hi, h1]⟩

theorem flip : lcd.flip.Two where
  index := by
    rcases h.flip_index with ⟨-, hi⟩ | ⟨-, hi⟩
    · exact .inr hi
    · exact .inl hi
  ne := h.ne

theorem flip_flip : lcd.flip.flip = lcd := by
  have hindex : lcd.flip.flip.index = lcd.index := by
    rcases h.flip_index with ⟨hi, hf⟩ | ⟨hi, hf⟩
    · rcases h.flip.flip_index with ⟨hf', -⟩ | ⟨-, hff⟩
      · rw [hf] at hf'
        cases hf'
      · rw [hff, hi]
    · rcases h.flip.flip_index with ⟨-, hff⟩ | ⟨hf', -⟩
      · rw [hff, hi]
      · rw [hf] at hf'
        cases hf'
  calc lcd.flip.flip = { lcd with index := lcd.flip.flip.index } := rfl
    _ = { lcd with index := lcd.index } := by rw [hindex]
    _ = lcd := rfl

end Lcdfb.Two

/-! ## A call in progress -/

/-- What is left of an update after the copy. -/
def showNext (lcd : Lcdfb) : LcdProg Lcdfb :=
  sunxiComposerFbbaseSet lcd.flip.fb >>= fun _ => pure lcd.flip

/-- A call that began with this record. -/
inductive InCall (lcd : Lcdfb) (e : Engine) : LcdProg Lcdfb → Prop
  | copying (src : U32) (n i : ℕ) : e.committed = lcd.layer → (0 < i → e.scanned = e.committed) →
      InCall lcd e (.call (.copyByte lcd.flip.fb src i) fun _ =>
        rtMemcpy lcd.flip.fb src n (i + 1) >>= fun _ => showNext lcd)
  | showing : e.committed = lcd.layer → InCall lcd e (showNext lcd)
  | committing : e.committed = lcd.layer → e.topLaddr = lcd.flip.layer →
      InCall lcd e (sunxiComposerEnable >>= fun _ => pure lcd.flip)
  | returned (lcd' : Lcdfb) : lcd' = lcd ∨ lcd' = lcd.flip → e.committed = lcd'.layer →
      InCall lcd e (.ret lcd')

variable {lcd : Lcdfb} {e : Engine}

theorem inCall_memcpy {src : U32} {n i : ℕ} (hcommitted : e.committed = lcd.layer)
    (hscanned : 0 < i → e.scanned = e.committed) :
    InCall lcd e (rtMemcpy lcd.flip.fb src n i >>= fun _ => showNext lcd) := by
  cases n with
  | zero => exact .showing hcommitted
  | succ n => exact .copying src n i hcommitted hscanned

theorem inCall_control (cmd : Cmd) (framebuffer : U32) (hcommitted : e.committed = lcd.layer) :
    InCall lcd e (lcdControl cmd framebuffer lcd) := by
  cases cmd with
  | getInfo => exact .returned lcd (.inl rfl) hcommitted
  | rectUpdate => exact inCall_memcpy hcommitted fun h => absurd h (Nat.lt_irrefl 0)
  | other => exact .returned lcd (.inl rfl) hcommitted

theorem showNext_eq (lcd : Lcdfb) : showNext lcd = .call (.writel lcd.flip.layer .topLaddr) fun _ =>
    sunxiComposerEnable >>= fun _ => pure lcd.flip := rfl

theorem InCall.blank {p : LcdProg Lcdfb} (h : InCall lcd e p) : InCall lcd (blank e) p := by
  cases h with
  | copying src n i hcommitted _ => exact .copying src n i hcommitted fun _ => rfl
  | showing hcommitted => exact .showing hcommitted
  | committing hcommitted htop => exact .committing hcommitted htop
  | returned lcd' hlcd hcommitted => exact .returned lcd' hlcd hcommitted

/-- The next access of a call, when the first byte of a copy has waited for the blank. -/
theorem InCall.access {o : Op} {k : o.Ret → LcdProg Lcdfb} (h : InCall lcd e (.call o k))
    (hfirst : ∀ dst src, o = .copyByte dst src 0 → e.scanned = e.committed) (r : o.Ret) :
    InCall lcd (access o e) (k r) := by
  generalize hp : Prog.call o k = p at h
  cases h with
  | copying src n i hcommitted hscanned =>
      cases hp
      refine inCall_memcpy hcommitted fun _ => ?_
      rcases Nat.eq_zero_or_pos i with rfl | hi
      · exact hfirst _ _ rfl
      · exact hscanned hi
  | showing hcommitted =>
      rw [showNext_eq] at hp
      cases hp
      exact .committing hcommitted rfl
  | committing hcommitted htop =>
      cases hp
      -- the write of 1 to `dbuff` has its low bit set, so it commits
      refine .returned _ (.inr rfl) ?_
      have hcommit : (1 : U32) &&& 1 ≠ 0 := by decide
      calc (Lcd.access (.writel 1 .dbuff) e).committed
          = if (1 : U32) &&& 1 ≠ 0 then e.topLaddr else e.committed := rfl
        _ = e.topLaddr := if_pos hcommit
        _ = lcd.flip.layer := htop
  | returned lcd' _ _ => cases hp

/-! ## The invariant -/

structure Held (s : Sys) : Prop where
  two : s.lcd.Two
  scanned : s.engine.scanned = s.lcd.layer ∨ s.engine.scanned = s.lcd.flip.layer
  idle : s.call = none → s.engine.committed = s.lcd.layer
  busy : ∀ p, s.call = some p → InCall s.lcd s.engine p

theorem InCall.committed {p : LcdProg Lcdfb} (h : InCall lcd e p) :
    e.committed = lcd.layer ∨ e.committed = lcd.flip.layer := by
  cases h with
  | copying _ _ _ hcommitted _ => exact .inl hcommitted
  | showing hcommitted => exact .inl hcommitted
  | committing hcommitted _ => exact .inl hcommitted
  | returned lcd' hlcd hcommitted =>
      rcases hlcd with rfl | rfl
      · exact .inl hcommitted
      · exact .inr hcommitted

@[simp] theorem access_scanned (o : Op) (e : Engine) : (access o e).scanned = e.scanned := by
  rcases o with _ | ⟨_, _ | _⟩ <;> rfl

theorem Held.step {framebuffer : U32} {l : Label} {s s' : Sys} (h : Held s) (hC : Blanked l s)
    (hstep : Step framebuffer l s s') : Held s' := by
  cases l with
  | call cmd =>
      rcases hstep with ⟨hnone, rfl⟩
      refine ⟨h.two, h.scanned, nofun, ?_⟩
      rintro p ⟨⟩
      exact inCall_control cmd framebuffer (h.idle hnone)
  | access =>
      rcases hstep with ⟨o, k, r, hcall, rfl⟩
      refine ⟨h.two, ?_, nofun, ?_⟩
      · rw [access_scanned]
        exact h.scanned
      · rintro p ⟨⟩
        refine (h.busy _ hcall).access ?_ r
        rintro dst src rfl
        exact hC rfl dst src k hcall
  | ret =>
      rcases hstep with ⟨lcd, hcall, rfl⟩
      have hin := h.busy _ hcall
      generalize hp : Prog.ret lcd = p at hin
      -- A call that has flipped leaves the other buffer to be drawn into.
      cases hin with
      | returned lcd' hlcd hcommitted =>
          cases hp
          rcases hlcd with rfl | rfl
          · exact ⟨h.two, h.scanned, fun _ => hcommitted, nofun⟩
          · refine ⟨h.two.flip, ?_, fun _ => hcommitted, nofun⟩
            show _ ∨ _ = s.lcd.flip.flip.layer
            rw [h.two.flip_flip]
            exact h.scanned.symm
      | _ => cases hp
  | blank =>
      cases hstep
      refine ⟨h.two, ?_, h.idle, fun p hp => (h.busy p hp).blank⟩
      cases hcall : s.call with
      | none => exact .inl (h.idle hcall)
      | some p => exact (h.busy p hcall).committed

/-! ## After the set-up -/

section Begin

variable {getenv : CString → Option CString} {lcdMode : CString} {d : Display}

end Begin

/-! ## Two updates in a frame -/

/-- What has happened between the blanks: the calls have moved on, the engine has not. -/
def SameFrame (framebuffer : U32) (s s' : Sys) : Prop :=
  RunUnder (Step framebuffer) (fun l _ => l ≠ .blank) s s' ∧ s'.engine.scanned = s.engine.scanned

theorem SameFrame.trans {framebuffer : U32} {s s' s'' : Sys} (h : SameFrame framebuffer s s')
    (h' : SameFrame framebuffer s' s'') : SameFrame framebuffer s s'' :=
  ⟨h.1.trans h'.1, h'.2.trans h.2⟩

end Lcd

end BspV3s
