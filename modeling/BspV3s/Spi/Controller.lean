import Mathlib.Logic.Function.Iterate
import BspV3s.Lib.Bits
import BspV3s.Lib.Budget
import BspV3s.Lib.ByteMemory
import BspV3s.Lib.Mealy

/-!
# Controller — the SPI controller between its two FIFOs

A burst shifts the bytes of the transmit FIFO, and then zeros, to the slave and puts each reply into the
receive FIFO.  It goes on between any two accesses of the driver, by as many bytes as it happens to; all
that is asked of it is that it does not stop.

* `drain_eq`     : what a burst does by the time it is over;
* `iterate_spec` : what it has done at any time before;
* `Env.Meets`    : what a routine does whenever it is called, with the rules for it.
-/

namespace BspV3s

namespace Spi

abbrev U32 := BitVec 32

/-! ## Registers -/

/-- The registers of `struct sunxi_spi_regs` that the driver uses. -/
inductive Reg
  | xferCtl
  | fifoSta
  | clkCtl
  | burstCnt
  | xmitCnt
  | burstCtl
  | txData
  | rxData
  deriving DecidableEq

def SUNXI_SPI_CTL_CS_MASK : U32 := 0x30
def SUNXI_SPI_CTL_CS (cs : U32) : U32 := cs <<< 4 &&& SUNXI_SPI_CTL_CS_MASK
def SUNXI_SPI_CTL_CS_LEVEL : U32 := 1 <<< 7
def SUNXI_SPI_CTL_XCH : U32 := 1 <<< 31

def SUNXI_SPI_FIFO_RF_CNT_MASK : U32 := 0x7f
def SUNXI_SPI_FIFO_RF_CNT_BITS : ℕ := 0

def SUNXI_SPI_BURST_CNT (cnt : U32) : U32 := cnt &&& 0xffffff
def SUNXI_SPI_XMIT_CNT (cnt : U32) : U32 := cnt &&& 0xffffff

/-- An access of the driver: a register, a byte of a buffer, the clock, a delay. -/
inductive Op
  | readl (r : Reg)
  | writel (val : U32) (r : Reg)
  | readb (r : Reg)
  | writeb (val : Byte) (r : Reg)
  | load (a : ℕ)
  | store (a : ℕ) (val : Byte)
  | timerGetUs
  | udelay (usec : U32)

abbrev Op.Ret : Op → Type
  | .readl _ => U32
  | .readb _ => Byte
  | .load _ => Byte
  | .timerGetUs => U32
  | _ => Unit

abbrev SpiM := Prog Op Op.Ret

def readl (r : Reg) : SpiM U32 := Prog.op (Op.readl r)
def writel (val : U32) (r : Reg) : SpiM Unit := Prog.op (Op.writel val r)
def readb (r : Reg) : SpiM Byte := Prog.op (Op.readb r)
def writeb (val : Byte) (r : Reg) : SpiM Unit := Prog.op (Op.writeb val r)
def load (a : ℕ) : SpiM Byte := Prog.op (Op.load a)
def store (a : ℕ) (val : Byte) : SpiM Unit := Prog.op (Op.store a val)
def timerGetUs : SpiM U32 := Prog.op Op.timerGetUs
def udelay (usec : U32) : SpiM Unit := Prog.op (Op.udelay usec)

/-! ## The bus -/

/-- The chip select: which one, and its level, high for released. -/
def csLine (ctl : U32) : U32 := ctl &&& (SUNXI_SPI_CTL_CS_MASK ||| SUNXI_SPI_CTL_CS_LEVEL)

/-- What can be seen on the wires: a change of the chip select, or a byte and its reply. -/
inductive Wire
  | cs (line : U32)
  | byte (x : Byte × Byte)
  deriving DecidableEq

/-- The chip select goes from one line to another. -/
def moves (line line' : U32) : List Wire := if line' = line then [] else [.cs line']

/-- The controller, its slave, and the memory of the buffers. -/
structure Bus (S : Type) where
  reg : Reg → U32
  tx : List Byte
  rx : List Byte
  /-- The bytes that the burst has yet to exchange. -/
  left : ℕ
  /-- Those of them that come from the transmit FIFO. -/
  pending : ℕ
  slave : S
  wire : List Wire
  mem : Mem

variable {S : Type} (M : Mealy S Byte Byte)

namespace Bus

/-- The byte that goes out next: with an empty transmit FIFO the burst stalls. -/
def next (b : Bus S) : Option Byte :=
  if b.left = 0 then none else if b.pending = 0 then some 0 else b.tx.head?

def shift (b : Bus S) : Bus S :=
  match b.next with
  | none => b
  | some x =>
      { b with
        tx := if b.pending = 0 then b.tx else b.tx.tail
        rx := b.rx ++ [(M.step b.slave x).1]
        left := b.left - 1
        pending := b.pending - 1
        slave := (M.step b.slave x).2
        wire := b.wire ++ [.byte (x, (M.step b.slave x).1)] }

/-- The counts of both FIFOs. -/
def fifoSta (b : Bus S) : U32 :=
  setField (BitVec.ofNat 32 b.rx.length) 0 7 ||| setField (BitVec.ofNat 32 b.tx.length) 16 7

/-- A write of the control register: it may move the chip select, and it may start a burst. -/
def writeCtl (b : Bus S) (val : U32) : Bus S :=
  let b' := { b with
    reg := Function.update b.reg .xferCtl val
    wire := b.wire ++ moves (csLine (b.reg .xferCtl)) (csLine val) }
  if val &&& SUNXI_SPI_CTL_XCH ≠ 0 ∧ b.left = 0 then
    { b' with
      left := (b.reg .burstCnt).toNat
      pending := min (b.reg .xmitCnt).toNat (b.reg .burstCtl).toNat }
  else b'

/-- An access; `clock` is what the clock shows. -/
def access (clock : U32) : (o : Op) → Bus S → o.Ret × Bus S
  | .readl .xferCtl, b =>
      (if b.left = 0 then b.reg .xferCtl &&& ~~~SUNXI_SPI_CTL_XCH
        else b.reg .xferCtl ||| SUNXI_SPI_CTL_XCH, b)
  | .readl .fifoSta, b => (b.fifoSta, b)
  | .readl r, b => (b.reg r, b)
  | .writel val .xferCtl, b => ((), b.writeCtl val)
  | .writel val r, b => ((), { b with reg := Function.update b.reg r val })
  | .readb .rxData, b => (b.rx.headD 0, { b with rx := b.rx.tail })
  | .readb r, b => ((b.reg r).setWidth 8, b)
  | .writeb val .txData, b => ((), { b with tx := b.tx ++ [val] })
  | .writeb val r, b => ((), { b with reg := Function.update b.reg r (val.setWidth 32) })
  | .load a, b => (b.mem a, b)
  | .store a val, b => ((), { b with mem := b.mem.writeBytes a [val] })
  | .timerGetUs, b => (clock, b)
  | .udelay _, b => ((), b)

/-- Neither FIFO holds more than it has room for. -/
def Within (b : Bus S) : Prop := b.tx.length ≤ 64 ∧ b.rx.length ≤ 64

instance instDecidableWithin (b : Bus S) : Decidable b.Within :=
  inferInstanceAs (Decidable (_ ∧ _))

/-- No burst in progress and nothing in the FIFOs. -/
structure Idle (b : Bus S) : Prop where
  left : b.left = 0
  tx : b.tx = []
  rx : b.rx = []

end Bus

/-! ## Time -/

/-- What the driver does not decide: the slave, how many bytes are shifted before each access, and the
clock. -/
structure Env (S : Type) where
  slave : Mealy S Byte Byte
  shifts : ℕ → ℕ
  clock : ℕ → U32

/-- The bus, and how many accesses have been made. -/
structure World (S : Type) where
  bus : Bus S
  time : ℕ

namespace Env

variable (env : Env S)

/-- The controller completes every burst: it never stops for good. -/
def Completes : Prop := ∀ t, ∃ t', t ≤ t' ∧ 0 < env.shifts t'

def exec (o : Op) (w : World S) : o.Ret × World S :=
  let r := Bus.access (env.clock w.time) o ((Bus.shift env.slave)^[env.shifts w.time] w.bus)
  (r.1, ⟨r.2, w.time + 1⟩)

/-- The access starts the next burst. -/
def starts : Op → Bool
  | .writel _ .burstCnt => true
  | _ => false

/-- The FIFOs hold what they can after each byte that is shifted before the access; a burst is set up
with nothing left to receive. -/
def check (o : Op) (w : World S) : Bool :=
  decide (∀ k, k ≤ env.shifts w.time → ((Bus.shift env.slave)^[k] w.bus).Within) &&
    (!starts o || w.bus.rx.isEmpty)

/-- Whenever it is called on this bus, the routine ends in `Q`, and every access passes the check. -/
def Meets {α : Type} (p : ℕ → SpiM α) (Q : α → Bus S → Prop) (b : Bus S) : Prop :=
  ∀ t, Prog.Ends env.exec env.check p (fun a w => Q a w.bus) ⟨b, t⟩

end Env

/-! ## Bursts -/

namespace Bus

variable {M} {b : Bus S}

/-- The transmit FIFO holds what the burst is to take from it. -/
structure Loaded (b : Bus S) : Prop where
  pending : b.pending = b.tx.length
  le : b.tx.length ≤ b.left

/-- The bytes that are still to go out. -/
def out (b : Bus S) : List Byte := b.tx ++ List.replicate (b.left - b.tx.length) 0

/-- The end of the burst. -/
def drain (M : Mealy S Byte Byte) (b : Bus S) : Bus S := (shift M)^[b.left] b

theorem shift_of_left (h : b.left = 0) : b.shift M = b := by
  rw [shift, next, if_pos h]

theorem iterate_of_left (h : b.left = 0) (k : ℕ) : (shift M)^[k] b = b :=
  Function.iterate_fixed (shift_of_left h) k

/-- A burst that is not over can go on. -/
theorem Loaded.next (h : b.Loaded) (hleft : b.left ≠ 0) : b.next = some (b.tx.headD 0) := by
  rw [Bus.next, if_neg hleft]
  cases htx : b.tx with
  | nil =>
      have hzero : b.pending = 0 := by rw [h.pending, htx, List.length_nil]
      rw [if_pos hzero]
      rfl
  | cons x xs =>
      have hpos : b.pending ≠ 0 := by
        rw [h.pending, htx]
        exact Nat.succ_ne_zero _
      rw [if_neg hpos]
      rfl

/-- One byte of a burst. -/
theorem Loaded.shift (h : b.Loaded) (hleft : b.left ≠ 0) :
    b.shift M =
      { b with
        tx := b.tx.tail
        rx := b.rx ++ [(M.step b.slave (b.tx.headD 0)).1]
        left := b.left - 1
        pending := b.pending - 1
        slave := (M.step b.slave (b.tx.headD 0)).2
        wire := b.wire ++ [.byte (b.tx.headD 0, (M.step b.slave (b.tx.headD 0)).1)] } := by
  have htail : (if b.pending = 0 then b.tx else b.tx.tail) = b.tx.tail := by
    split
    · next hzero =>
        rw [List.length_eq_zero_iff.1 (h.pending.symm.trans hzero)]
        rfl
    · rfl
  rw [Bus.shift, h.next hleft]
  simp only [htail]

theorem Loaded.shift_left (h : b.Loaded) : (b.shift M).left = b.left - 1 := by
  by_cases hleft : b.left = 0
  · rw [shift_of_left hleft, hleft]
  · rw [h.shift hleft]

/-- A shift takes a byte from what is to go out and adds its reply; the room it takes up does not
grow. -/
theorem Loaded.step (h : b.Loaded) :
    (b.shift M).Loaded ∧ (b.shift M).tx.length ≤ b.tx.length ∧
      (b.shift M).rx.length + (b.shift M).left = b.rx.length + b.left := by
  have hle := h.le
  by_cases hleft : b.left = 0
  · rw [shift_of_left hleft]
    exact ⟨h, le_refl _, rfl⟩
  · rw [h.shift hleft]
    refine ⟨⟨?_, ?_⟩, ?_, ?_⟩
    · change b.pending - 1 = b.tx.tail.length
      rw [h.pending, List.length_tail]
    · change b.tx.tail.length ≤ b.left - 1
      rw [List.length_tail]
      exact Nat.sub_le_sub_right hle 1
    · change b.tx.tail.length ≤ b.tx.length
      rw [List.length_tail]
      exact Nat.sub_le _ _
    · change (b.rx ++ [_]).length + (b.left - 1) = _
      rw [List.length_append, List.length_singleton]
      omega

theorem iterate_spec (h : b.Loaded) (k : ℕ) :
    ((Bus.shift M)^[k] b).Loaded ∧ ((Bus.shift M)^[k] b).tx.length ≤ b.tx.length ∧
      ((Bus.shift M)^[k] b).rx.length + ((Bus.shift M)^[k] b).left = b.rx.length + b.left ∧
      ((Bus.shift M)^[k] b).left = b.left - k := by
  induction k with
  | zero => exact ⟨h, le_refl _, rfl, rfl⟩
  | succ k ih =>
      rcases ih with ⟨hloaded, htx, hsum, hleft⟩
      rw [Function.iterate_succ_apply']
      rcases @Loaded.step S M _ hloaded with ⟨hloaded', htx', hsum'⟩
      refine ⟨hloaded', htx'.trans htx, hsum'.trans hsum, ?_⟩
      rw [hloaded.shift_left, hleft, Nat.sub_sub]

/-- However far a burst has come, its end is the same. -/
theorem drain_iterate (h : b.Loaded) (k : ℕ) : drain M ((Bus.shift M)^[k] b) = drain M b := by
  rw [drain, ← Function.iterate_add_apply, (iterate_spec h k).2.2.2]
  by_cases hk : k ≤ b.left
  · rw [Nat.sub_add_cancel hk]
    rfl
  · -- What is shifted after the end changes nothing.
    have hover : ((Bus.shift M)^[b.left] b).left = 0 := by
      rw [(iterate_spec h b.left).2.2.2, Nat.sub_self]
    have hsum : b.left - k + k = k - b.left + b.left := by omega
    rw [hsum, Function.iterate_add_apply]
    exact iterate_of_left hover _

theorem drain_eq (h : b.Loaded) :
    drain M b =
      { b with
        tx := []
        rx := b.rx ++ M.replies b.slave b.out
        left := 0
        pending := 0
        slave := M.after b.slave b.out
        wire := b.wire ++ (M.exchanges b.slave b.out).map .byte } := by
  -- The induction is on the bytes that the exchange has left.
  generalize hn : b.left = n
  induction n generalizing b with
  | zero =>
      have htx : b.tx = [] := List.length_eq_zero_iff.1 (Nat.le_zero.1 (h.le.trans hn.le))
      have hpending : b.pending = 0 := by rw [h.pending, htx, List.length_nil]
      -- With an empty FIFO the wire carries a zero.
      have hout : b.out = [] := by
        rw [out, htx, hn]
        rfl
      rw [drain, hn, hout]
      rcases b with ⟨reg, tx, rx, left, pending, slave, wire, mem⟩
      cases hn
      cases htx
      cases hpending
      simp [Mealy.replies, Mealy.after, Mealy.exchanges]
  | succ n ih =>
      have hleft : b.left ≠ 0 := by
        rw [hn]
        exact Nat.succ_ne_zero n
      have hout : b.out = b.tx.headD 0 :: (b.shift M).out := by
        rw [h.shift hleft]
        have hle := h.le
        cases htx : b.tx with
        | nil =>
            simp only [out, htx, hn, List.tail_nil, List.headD_nil, List.length_nil, Nat.sub_zero,
              List.nil_append, Nat.add_sub_cancel, List.replicate_succ]
        | cons x xs =>
            have hrest : n + 1 - (xs.length + 1) = n + 1 - 1 - xs.length := by omega
            simp only [out, htx, hn, List.tail_cons, List.headD_cons, List.length_cons,
              List.cons_append, hrest]
      have hnext : (b.shift M).left = n := by
        rw [h.shift_left, hn, Nat.add_sub_cancel]
      have hstart := @drain_iterate S M b h 1
      rw [← hstart, Function.iterate_one, ih h.step.1 hnext, hout]
      rw [h.shift hleft]
      simp only [Mealy.replies, Mealy.after, Mealy.exchanges_cons, List.append_assoc,
        List.map_cons, List.singleton_append]

end Bus

/-! ## Rules -/

namespace Env

variable {env : Env S} {α β : Type} {b : Bus S}

theorem Meets.ret {a : α} {Q : α → Bus S → Prop} (h : Q a b) :
    env.Meets (fun _ => pure a) Q b :=
  fun _ => Prog.Ends.ret h

theorem Meets.mono {p : ℕ → SpiM α} {Q Q' : α → Bus S → Prop} (hQ : ∀ a b', Q a b' → Q' a b')
    (h : env.Meets p Q b) : env.Meets p Q' b :=
  fun t => (h t).mono fun a w => hQ a w.bus

theorem Meets.bind {p : ℕ → SpiM α} {g : ℕ → α → SpiM β} {Q : β → Bus S → Prop}
    (h : env.Meets p (fun a b' => env.Meets (fun n => g n a) Q b') b) :
    env.Meets (fun n => p n >>= g n) Q b :=
  fun t => ((h t).mono fun _ w hw => hw w.time).bind

theorem Meets.seq {p : ℕ → SpiM α} {g : ℕ → α → SpiM β} {P : α → Bus S → Prop}
    {Q : β → Bus S → Prop} (h : env.Meets p P b)
    (hg : ∀ a b', P a b' → env.Meets (fun n => g n a) Q b') :
    env.Meets (fun n => p n >>= g n) Q b :=
  (h.mono hg).bind

/-- An access while no burst is in progress. -/
theorem Meets.op {o : Op} {Q : o.Ret → Bus S → Prop} (hleft : b.left = 0) (hwithin : b.Within)
    (hstart : starts o = false ∨ b.rx = [])
    (h : ∀ clock, Q (b.access clock o).1 (b.access clock o).2) :
    env.Meets (fun _ => Prog.op o) Q b := by
  intro t
  have hstill : (Bus.shift env.slave)^[env.shifts t] b = b := Bus.iterate_of_left hleft _
  refine Prog.Ends.op ?_ ?_
  · rw [check, Bool.and_eq_true, Bool.or_eq_true]
    refine ⟨decide_eq_true fun k _ => ?_, ?_⟩
    · change ((Bus.shift env.slave)^[k] b).Within
      rw [Bus.iterate_of_left hleft]
      exact hwithin
    · refine hstart.imp (fun hs => ?_) fun hrx => ?_
      · rw [hs]
        rfl
      · change b.rx.isEmpty = true
        rw [hrx]
        rfl
  · change Q (Bus.access (env.clock t) o ((Bus.shift env.slave)^[env.shifts t] b)).1
      (Bus.access (env.clock t) o ((Bus.shift env.slave)^[env.shifts t] b)).2
    rw [hstill]
    exact h _

theorem Meets.op_bind {o : Op} {g : ℕ → o.Ret → SpiM β} {Q : β → Bus S → Prop}
    (hleft : b.left = 0) (hwithin : b.Within) (hstart : starts o = false ∨ b.rx = [])
    (h : ∀ clock, env.Meets (fun n => g n (b.access clock o).1) Q (b.access clock o).2) :
    env.Meets (fun n => Prog.op o >>= g n) Q b :=
  Meets.bind (Meets.op hleft hwithin hstart h)

end Env

end Spi

end BspV3s
