import BspV3s.Emac.Rearm

/-!
# Payload — the bytes that one call moves

What `_emac_rx` copies out of the ring and `_emac_tx` copies into it, for one call on any state of
the ring.

* `rxContent_iff`  : a received pbuf holds the descriptor's own buffer, except for runts;
* `emacTx_gathers` : the fragments of a pbuf end up behind one another in one buffer.
-/

namespace BspV3s

namespace Emac

variable {D : Indev} {w w' : World} {α β : Type} {Q : α → World → Prop}

/-! ## Calls alone -/

/-- The bytes that a routine loads lie in `S`. -/
def LoadsIn (S : Set ℕ) : Prog.Sem Op Op.Ret World :=
  fun o _ _ _ => ∀ a, o = .load8 a → a ∈ S

/-- Every run of `p` from `w` loads bytes of `S` only and ends in `Q`. -/
abbrev Alone (S : Set ℕ) (p : EmacM α) (Q : α → World → Prop) (w : World) : Prop :=
  Prog.wp (access direct True) Prog.still (LoadsIn S) p Q w

section Rules

variable {S : Set ℕ}

theorem alone_pure {a : α} (h : Q a w) : Alone S (pure a) Q w :=
  Prog.wp_still_ret_iff.2 h

/-- An access other than the load of a byte. -/
theorem alone_call {o : Op} {k : o.Ret → EmacM α} (ho : ∀ a, o ≠ .load8 a)
    (h : ∀ r t, access direct True o w r t → Alone S (k r) Q t) : Alone S (.call o k) Q w :=
  Prog.wp_still_call_iff.2 fun r t hacc => ⟨fun a ha => absurd ha (ho a), h r t hacc⟩

theorem alone_load8 {a : ℕ} {k : Byte → EmacM α} (ha : a ∈ S) (h : Alone S (k (w.m.mem a)) Q w) :
    Alone S (load8 a >>= k) Q w := by
  refine Prog.wp_still_call_iff.2 ?_
  rintro r t ⟨rfl, rfl⟩
  refine ⟨?_, h⟩
  rintro x ⟨⟩
  exact ha

/-- A routine that loads no bytes at all. -/
theorem alone_of_only {p : EmacM α} (hp : Prog.Only (fun o => ∀ a, o ≠ .load8 a) p) :
    Alone S p (fun _ _ => True) w :=
  hp.wp (I := fun _ => True) (fun _ => Prog.stable_still)
    (fun _ _ _ _ ho _ _ => ⟨fun a ha => absurd ha (ho a), trivial⟩) trivial

end Rules

/-! ## Reception -/

/-- The ring index is that of descriptor `c`, which has its own buffer and has been released. -/
structure RxReached (D : Indev) (c : ℕ) (w : World) : Prop where
  index : c < 32
  cur : w.rxCur.toNat = c
  linked : (descAt (D.rxChain c) w.m.mem).bufAddr = BitVec.ofNat 32 (D.rxBuf c)
  released : own (descAt (D.rxChain c) w.m.mem).status = false

/-- The length in the status word of descriptor `c`. -/
def World.rxLen (w : World) (D : Indev) (c : ℕ) : ℕ :=
  rxLength (descAt (D.rxChain c) w.m.mem).status

/-- What `_sun8i_eth_recv` returns for a released descriptor of that length, and leaves in
`*packetp`. -/
def recvResult (D : Indev) (c length : ℕ) : ℤ × ℕ :=
  if length < 0x40 then (length, 0)
  else if CONFIG_ETH_RXSIZE < length then (-EMSGSIZE, 0)
  else (length, D.rxBuf c)

theorem alone_eachLine {S : Set ℕ} {k : Unit → EmacM α} (a n : ℕ) (h : Alone S (k ()) Q w) :
    Alone S (eachLine dcimvac a n >>= k) Q w := by
  induction n generalizing a with
  | zero => exact h
  | succ n ih =>
      refine alone_call nofun ?_
      rintro r t rfl
      exact ih (a + 64)

theorem alone_invalidate {S : Set ℕ} {k : Unit → EmacM α} (start stop : ℕ)
    (h : Alone S (k ()) Q w) : Alone S (invalidateDcacheRange start stop >>= k) Q w := by
  unfold invalidateDcacheRange
  split
  · exact alone_eachLine _ _ h
  · exact h

theorem alone_load {S : Set ℕ} {a : ℕ} {k : U32 → EmacM α}
    (h : Alone S (k (w.m.mem.read32 a)) Q w) : Alone S (load a >>= k) Q w := by
  refine alone_call nofun ?_
  rintro r t ⟨rfl, rfl⟩
  exact h

theorem alone_rxCurrdescnum {S : Set ℕ} {k : U32 → EmacM α} (h : Alone S (k w.rxCur) Q w) :
    Alone S (rxCurrdescnum >>= k) Q w := by
  refine alone_call nofun ?_
  rintro r t ⟨rfl, rfl⟩
  exact h

/-- `_sun8i_eth_recv` on a released descriptor. -/
theorem alone_recv {S : Set ℕ} {c : ℕ} {k : ℤ × ℕ → EmacM α} (hw : RxReached D c w)
    (h : Alone S (k (recvResult D c (w.rxLen D c))) Q w) :
    Alone S (sun8iEthRecv D >>= k) Q w := by
  have hstatus : w.m.mem.read32 (D.rxChain c) = (descAt (D.rxChain c) w.m.mem).status := rfl
  have hbuf : w.m.mem.read32 (D.rxChain c + 8) = BitVec.ofNat 32 (D.rxBuf c) := hw.linked
  unfold sun8iEthRecv
  rw [bind_assoc]
  refine alone_rxCurrdescnum ?_
  rw [hw.cur, bind_assoc]
  refine alone_load ?_
  rw [bind_assoc]
  refine alone_invalidate _ _ ?_
  rw [bind_assoc]
  refine alone_load ?_
  rw [hstatus, hw.released, if_neg Bool.false_ne_true]
  unfold recvReleased
  rw [bind_assoc]
  refine alone_load ?_
  rw [bind_assoc, hstatus]
  refine alone_invalidate _ _ ?_
  unfold recvResult World.rxLen at h
  split_ifs at h ⊢ with hrunt hbig
  · exact h
  · exact h
  · rw [bind_assoc]
    refine alone_load ?_
    rw [hbuf, Indev.toNat_rxBuf hw.index]
    exact h

/-- `memcpy` out of the frame reads the bytes in order. -/
theorem alone_copyOut {S : Set ℕ} {a n : ℕ} {k : List Byte → EmacM α}
    (hS : ∀ x, a ≤ x → x < a + n → x ∈ S) (h : Alone S (k (w.m.mem.readBytes a n)) Q w) :
    Alone S (copyOut a n >>= k) Q w := by
  induction n generalizing a k with
  | zero => exact h
  | succ n ih =>
      rw [Mem.readBytes_succ] at h
      unfold copyOut
      rw [bind_assoc]
      refine alone_load8 (hS a le_rfl (by omega)) ?_
      rw [bind_assoc]
      exact ih (fun x hlo hhi => hS x (by omega) (by omega)) h

/-- The loop over the segments: their bytes make up the frame. -/
theorem alone_copyPbuf {S : Set ℕ} {a : ℕ} {lens : List ℕ} {k : Pbuf → EmacM α}
    (hS : ∀ x, a ≤ x → x < a + lens.sum → x ∈ S)
    (h : ∀ p : Pbuf, p.flatten = w.m.mem.readBytes a lens.sum → Alone S (k p) Q w) :
    Alone S (copyPbuf a lens >>= k) Q w := by
  induction lens generalizing a k with
  | nil => exact h [] rfl
  | cons len lens ih =>
      rw [List.sum_cons] at hS h
      unfold copyPbuf
      rw [bind_assoc]
      refine alone_copyOut (fun x hlo hhi => hS x hlo (by omega)) ?_
      rw [bind_assoc]
      refine ih (fun x hlo hhi => hS x (by omega) (by omega)) ?_
      intro p hp
      refine h _ ?_
      rw [List.flatten_cons, hp, Mem.readBytes_add]

theorem only_freePkt (D : Indev) : Prog.Only (fun o => ∀ a, o ≠ .load8 a) (sun8iFreePkt D) := by
  have hlines : ∀ a n, Prog.Only (fun o => ∀ x, o ≠ .load8 x) (eachLine dccimvac a n) := by
    intro a n
    induction n generalizing a with
    | zero => exact Prog.only_pure ()
    | succ n ih => exact (Prog.only_op nofun).bind fun _ => ih (a + 64)
  refine (Prog.only_op nofun).bind fun _ => ?_
  refine (Prog.only_op nofun).bind fun _ => ?_
  refine (Prog.only_op nofun).bind fun _ => ?_
  exact (hlines _ _).bind fun _ => Prog.only_op nofun

/-- The rest of `_emac_rx` after a positive length: nothing, or a pbuf with the bytes from
`framepack` on. -/
theorem alone_deliver {S : Set ℕ} {framepack length : ℕ} {Q : Option Pbuf → World → Prop}
    (hS : ∀ x, framepack ≤ x → x < framepack + length → x ∈ S) (hnone : ∀ t, Q none t)
    (hsome : ∀ p : Pbuf, p.flatten = w.m.mem.readBytes framepack length → ∀ t, Q (some p) t) :
    Alone S (do
      let p ← pbufAlloc length
      match p with
      | none => pure none
      | some lens => do
          let p ← copyPbuf framepack lens
          sun8iFreePkt D
          pure (some p)) Q w := by
  refine alone_call nofun ?_
  rintro r t ⟨-, hlens, rfl⟩
  cases r with
  | none => exact alone_pure (hnone _)
  | some lens =>
      have hsum : lens.sum = length := hlens lens rfl
      refine alone_copyPbuf (fun x hlo hhi => hS x hlo (hsum ▸ hhi)) ?_
      intro p hp
      rw [hsum] at hp
      refine Prog.wp_seq (alone_of_only (only_freePkt D)) ?_
      intro _ t _
      exact alone_pure (hsome p hp t)

/-- The bytes of buffer `c` that a frame of this length covers. -/
def rxBytes (D : Indev) (c length : ℕ) : Set ℕ := Set.Ico (D.rxBuf c) (D.rxBuf c + length)

/-- What should hold of every call of `_emac_rx` and of the call of `_sun8i_eth_recv` in it. -/
structure RxContent (D : Indev) (c : ℕ) (w : World) : Prop where
  contract : ∀ length framepack w',
    Prog.Runs (access direct True) (sun8iEthRecv D) w (length, framepack) w' → 0 < length →
    framepack = D.rxBuf c
  content : ∀ (p : Pbuf) w', Prog.Runs (access direct True) (emacRx D) w (some p) w' →
    p.flatten = w.m.mem.readBytes (D.rxBuf c) (w.rxLen D c) ∧ w.rxLen D c ≤ CONFIG_ETH_RXSIZE
  copies : Alone (rxBytes D c (w.rxLen D c)) (emacRx D) (fun _ _ => True) w

variable {c : ℕ}

theorem runs_recv_iff {r : ℤ × ℕ} (hw : RxReached D c w) :
    Prog.Runs (access direct True) (sun8iEthRecv D) w r w' ↔
      r = recvResult D c (w.rxLen D c) ∧ w' = w := by
  have hrecv : Alone ∅ (sun8iEthRecv D)
      (fun r t => r = recvResult D c (w.rxLen D c) ∧ t = w) w := by
    rw [← bind_pure (sun8iEthRecv D)]
    exact alone_recv hw (alone_pure ⟨rfl, rfl⟩)
  constructor
  · intro hrun
    exact Prog.wp_runs (Q := fun r t => r = recvResult D c (w.rxLen D c) ∧ t = w) hrecv hrun
  · rintro ⟨rfl, rfl⟩
    rcases Prog.wp_exists_runs (exists_access direct True) hrecv with ⟨r, t, hrun, rfl, rfl⟩
    exact hrun

theorem recvResult_length {n : ℕ} (h : 0 < (recvResult D c n).1) :
    (recvResult D c n).1 = n ∧ n ≤ CONFIG_ETH_RXSIZE := by
  unfold recvResult at h ⊢
  split_ifs at h ⊢ with hrunt hbig
  · exact ⟨rfl, le_trans (le_of_lt hrunt) (by decide)⟩
  · exact absurd h (by decide)
  · exact ⟨rfl, not_lt.1 hbig⟩

theorem recvResult_framepack {n : ℕ} (h : 0 < (recvResult D c n).1) (hn : 64 ≤ n) :
    (recvResult D c n).2 = D.rxBuf c := by
  unfold recvResult at h ⊢
  rw [if_neg (not_lt.2 hn)] at h ⊢
  split_ifs at h ⊢ with hbig
  · exact absurd h (by decide)
  · rfl

/-- A runt is copied from the address 0 that the caller has put in `framepack`. -/
theorem recvResult_runt {n : ℕ} (hn : n < 64) : recvResult D c n = ((n : ℤ), 0) :=
  if_pos hn

/-- A call that returns a frame has copied it from where `_sun8i_eth_recv` said. -/
theorem alone_emacRx {S : Set ℕ} (hw : RxReached D c w)
    (hS : 0 < (recvResult D c (w.rxLen D c)).1 →
      Set.Ico (recvResult D c (w.rxLen D c)).2 ((recvResult D c (w.rxLen D c)).2 + w.rxLen D c) ⊆ S) :
    Alone S (emacRx D) (fun p _ => ∀ p' : Pbuf, p = some p' → p'.flatten =
      w.m.mem.readBytes (recvResult D c (w.rxLen D c)).2 (w.rxLen D c) ∧
      0 < (recvResult D c (w.rxLen D c)).1) w := by
  unfold emacRx
  refine alone_recv hw ?_
  split_ifs with hsign
  · exact alone_pure nofun
  · have hpos := not_le.1 hsign
    have hlen : (recvResult D c (w.rxLen D c)).1.toNat = w.rxLen D c := by
      rw [(recvResult_length hpos).1, Int.toNat_natCast]
    rw [hlen]
    refine alone_deliver (fun x hlo hhi => hS hpos ⟨hlo, hhi⟩) (fun _ => nofun) ?_
    rintro p hp t _ ⟨⟩
    exact ⟨hp, hpos⟩

/-- On every released descriptor, a call of `_emac_rx` returns nothing or the descriptor's own
buffer exactly when the length is not that of a runt. -/
theorem rxContent_iff (hw : RxReached D c w) :
    RxContent D c w ↔ w.rxLen D c = 0 ∨ 64 ≤ w.rxLen D c := by
  constructor
  · intro h
    by_contra hrunt
    have hrun := (runs_recv_iff hw).2 ⟨rfl, rfl⟩
    rw [recvResult_runt (by omega)] at hrun
    have hzero := h.contract (w.rxLen D c) 0 _ hrun (by omega)
    unfold Indev.rxBuf at hzero
    omega
  · intro hlen
    have hbuf : 0 < (recvResult D c (w.rxLen D c)).1 →
        (recvResult D c (w.rxLen D c)).2 = D.rxBuf c := by
      intro hpos
      have hnat := (recvResult_length hpos).1
      exact recvResult_framepack hpos (by omega)
    have hcall := alone_emacRx (S := rxBytes D c (w.rxLen D c)) hw fun hpos => by
      rw [hbuf hpos]
      exact subset_rfl
    refine ⟨?_, ?_, Prog.wp_mono (fun _ _ _ => trivial) hcall⟩
    · intro length framepack w' hrun hpos
      have hresult := ((runs_recv_iff hw).1 hrun).1
      rw [← hresult] at hbuf
      exact hbuf hpos
    · intro p w' hrun
      rcases Prog.wp_runs hcall hrun p rfl with ⟨hbytes, hpos⟩
      rw [hbuf hpos] at hbytes
      exact ⟨hbytes, (recvResult_length hpos).2⟩

/-- Memory in which descriptor 0 has this status word, and its buffer begins with a 1. -/
def oneFrame (D : Indev) (status : U32) : Mem :=
  let buffer := Mem.writeBytes (fun _ => 0) (D.rxBuf 0) [1]
  (buffer.write32 (D.rxChain 0 + 8) (BitVec.ofNat 32 (D.rxBuf 0))).write32 (D.rxChain 0) status

/-- The machine with that memory. -/
def World.oneFrame (D : Indev) (status : U32) : World :=
  { World.reset with m := ⟨Emac.oneFrame D status, fun _ => none⟩ }

theorem descAt_oneFrame (D : Indev) (status : U32) :
    (descAt (D.rxChain 0) (oneFrame D status)).status = status ∧
      (descAt (D.rxChain 0) (oneFrame D status)).bufAddr = BitVec.ofNat 32 (D.rxBuf 0) := by
  unfold oneFrame
  rw [descAt_write_status, descAt_write_bufAddr]
  exact ⟨rfl, rfl⟩

theorem rxReached_oneFrame {status : U32} (hown : own status = false) :
    RxReached D 0 (World.oneFrame D status) where
  index := by decide
  cur := rfl
  linked := (descAt_oneFrame D status).2
  released := (congrArg own (descAt_oneFrame D status).1).trans hown

theorem rxLen_oneFrame (D : Indev) (status : U32) :
    (World.oneFrame D status).rxLen D 0 = rxLength status :=
  congrArg rxLength (descAt_oneFrame D status).1

/-- A frame of 64 bytes. -/
theorem rxContent_64 : RxContent Indev.sdram 0 (World.oneFrame Indev.sdram 0x400000#32) := by
  have hlen : rxLength 0x400000#32 = 64 := by decide
  refine (rxContent_iff (rxReached_oneFrame (by decide))).2 (.inr ?_)
  rw [rxLen_oneFrame, hlen]

/-- A call for a runt can return a pbuf with the bytes from address 0 on. -/
theorem exists_runs_runt (hw : RxReached D c w) (hpos : 0 < w.rxLen D c)
    (hrunt : w.rxLen D c < 64) : ∃ (p : Pbuf) (w' : World),
      Prog.Runs (access direct True) (emacRx D) w (some p) w' ∧
      p.flatten = w.m.mem.readBytes 0 (w.rxLen D c) := by
  have hrecv := (runs_recv_iff hw).2 ⟨rfl, rfl⟩
  rw [recvResult_runt hrunt] at hrecv
  have hcopy : Alone Set.univ (copyPbuf 0 [w.rxLen D c])
      (fun p _ => p.flatten = w.m.mem.readBytes 0 (w.rxLen D c)) w := by
    rw [← bind_pure (copyPbuf 0 [w.rxLen D c])]
    refine alone_copyPbuf (fun _ _ _ => trivial) ?_
    intro p hp
    exact alone_pure hp
  rcases Prog.wp_exists_runs (exists_access direct True) hcopy with ⟨p, t, hcopied, hbytes⟩
  rcases Prog.exists_runs (exists_access direct True) (sun8iFreePkt D) t with ⟨_, w', hfreed⟩
  refine ⟨p, w', hrecv.bind ?_, hbytes⟩
  have hsign : ¬ (w.rxLen D c : ℤ) ≤ 0 := by omega
  rw [if_neg hsign]
  refine .call (r := some [w.rxLen D c]) ⟨nofun, ?_, rfl⟩ (hcopied.bind (hfreed.bind (.ret _ _)))
  rintro lens ⟨⟩
  exact Nat.add_zero _

/-- A runt of 60 bytes: the buffer begins with a 1, the pbuf does not. -/
theorem exists_runt_content : ∃ (p : Pbuf) (w' : World),
    RxReached Indev.sdram 0 (World.oneFrame Indev.sdram 0x3c0000#32) ∧
    Prog.Runs (access direct True) (emacRx Indev.sdram)
      (World.oneFrame Indev.sdram 0x3c0000#32) (some p) w' ∧
    p.flatten ≠ (oneFrame Indev.sdram 0x3c0000#32).readBytes (Indev.sdram.rxBuf 0) 60 := by
  have hw : RxReached Indev.sdram 0 (World.oneFrame Indev.sdram 0x3c0000#32) :=
    rxReached_oneFrame (by decide)
  have hlen : (World.oneFrame Indev.sdram 0x3c0000#32).rxLen Indev.sdram 0 = 60 := by
    rw [rxLen_oneFrame]
    decide
  rcases exists_runs_runt hw (by omega) (by omega) with ⟨p, w', hrun, hbytes⟩
  have hfirst : ∀ (m : Mem) (a b : ℕ), m.readBytes a 60 = m.readBytes b 60 → m a = m b := by
    intro m a b heq
    rw [Mem.readBytes_succ, Mem.readBytes_succ] at heq
    exact (List.cons.inj heq).1
  have hne : oneFrame Indev.sdram 0x3c0000#32 0 ≠
      oneFrame Indev.sdram 0x3c0000#32 (Indev.sdram.rxBuf 0) := by decide
  rw [hlen] at hbytes
  exact ⟨p, w', hw, hrun, fun heq => hne (hfirst _ _ _ (hbytes.symm.trans heq))⟩

/-! ## Transmission -/

/-- From `w` only slot `c` has changed, its descriptor is now `d`, and its buffer begins with the
first `n` bytes of `f`. -/
structure Filled (D : Indev) (c : ℕ) (d : DmaDesc) (f : TxFrame) (n : ℕ) (w t : World) : Prop where
  slot : At D c d w t
  bytes : ∀ j < n, f[j]? = some (t.m.mem (D.txBuf c + j))

section Transmit

variable {S : Set ℕ} {d : DmaDesc} {f : TxFrame} {n : ℕ} {t : World}

theorem poke8_ne {a x : ℕ} {b : Byte} (hx : x ≠ a) : (w.poke8 a b).m.mem x = w.m.mem x := by
  by_cases hline : x / 64 = a / 64
  · refine (if_pos hline).trans (Mem.writeBytes_outside ?_)
    rw [List.length_singleton]
    omega
  · exact if_neg hline

theorem Filled.byte {b : Byte} (h : Filled D c d f n w t) (hc : c < 32) (hn : n < 2048)
    (hb : f[n]? = some b) : Filled D c d f (n + 1) w (t.poke8 (D.txBuf c + n) b) := by
  rcases h.slot.byte hc hn with ⟨hslot, hnew⟩
  refine ⟨hslot, ?_⟩
  intro j hj
  by_cases hjn : j = n
  · subst hjn
    rw [hnew]
    exact hb
  · rw [poke8_ne (by omega)]
    exact h.bytes j (by omega)

theorem Filled.field {k : ℕ} {v : U32} {g : DmaDesc → DmaDesc} (h : Filled D c d f n w t)
    (hc : c < 32) (hk : k < 64) (hg : ∀ mem : Mem,
      descAt (D.txChain c) (mem.write32 (D.txChain c + k) v) = g (descAt (D.txChain c) mem)) :
    Filled D c (g d) f n w (t.poke32 (D.txChain c + k) v) := by
  refine ⟨h.slot.field hk hg, ?_⟩
  intro j hj
  have hbuf : D.txBuf 0 ≤ D.txBuf c + j := by
    unfold Indev.txBuf
    omega
  rw [poke32_buf hk hbuf hc]
  exact h.bytes j hj

theorem Filled.setBit (h : Filled D c d f n w t) (hc : c < 32) (b : U32) :
    Filled D c { d with st := d.st ||| b } f n w (t.pokeOr (D.txChain c + 4) b) := by
  rw [World.pokeOr, read32_st, h.slot.desc]
  exact h.field (g := fun e => { e with st := d.st ||| b }) hc (by omega)
    (fun mem => descAt_write_st mem _ _)

theorem alone_store {a : ℕ} {v : U32} {k : Unit → EmacM α} (h : Alone S (k ()) Q (w.poke32 a v)) :
    Alone S (store a v >>= k) Q w := by
  refine alone_call nofun ?_
  rintro r t rfl
  exact h

theorem alone_setBit {a : ℕ} {b : U32} {k : Unit → EmacM α}
    (h : Alone S (k ()) Q (w.pokeOr a b)) : Alone S (setBit a b >>= k) Q w := by
  unfold setBit
  rw [bind_assoc]
  exact alone_load (alone_store h)

theorem alone_txCurrdescnum {k : U32 → EmacM α} (h : Alone S (k w.txCur) Q w) :
    Alone S (txCurrdescnum >>= k) Q w := by
  refine alone_call nofun ?_
  rintro r t ⟨rfl, rfl⟩
  exact h

theorem alone_flush {k : Unit → EmacM α} (start stop : ℕ) (h : Alone S (k ()) Q w) :
    Alone S (flushDcacheRange start stop >>= k) Q w := by
  unfold flushDcacheRange
  generalize start - start % 64 = a
  induction lineCount a stop generalizing a with
  | zero => exact h
  | succ n ih =>
      refine alone_call nofun ?_
      rintro r t rfl
      exact ih (a + 64)

/-- `memcpy` of the part of the frame that begins at byte `n`. -/
theorem alone_copyIn {bs : List Byte} {k : Unit → EmacM α} (hc : c < 32)
    (hfit : n + bs.length ≤ 2048) (hbs : ∀ j b, bs[j]? = some b → f[n + j]? = some b)
    (h : Filled D c d f n w t)
    (hk : ∀ t, Filled D c d f (n + bs.length) w t → Alone S (k ()) Q t) :
    Alone S (copyIn (D.txBuf c + n) bs >>= k) Q t := by
  induction bs generalizing n t with
  | nil => exact hk t h
  | cons b bs ih =>
      rw [List.length_cons] at hfit hk
      unfold copyIn
      rw [bind_assoc]
      refine alone_call nofun ?_
      rintro r t rfl
      refine ih (n := n + 1) (by omega) ?_ (h.byte hc (by omega) (hbs 0 b rfl)) ?_
      · intro j b hj
        rw [Nat.add_assoc, Nat.add_comm 1]
        exact hbs (j + 1) b hj
      · intro t ht
        rw [Nat.add_assoc, Nat.add_comm 1] at ht
        exact hk t ht

/-- The index and the buffer are read off the state that the call began in. -/
theorem Filled.reached (h : Filled D c (descAt (D.txChain c) w.m.mem) f n w t)
    (hw : Reached D c w) : t.txCur.toNat = c ∧
      (t.m.mem.read32 (D.txChain c + 8)).toNat = D.txBuf c := by
  have hbuf : t.m.mem.read32 (D.txChain c + 8) = (descAt (D.txChain c) t.m.mem).bufAddr := rfl
  rw [hbuf, h.slot.desc, hw.linked, Indev.toNat_txBuf hw.index, h.slot.same]
  exact ⟨hw.cur, rfl⟩

theorem alone_sendFragment {q : List Byte} {k : Unit → EmacM α} (hw : Reached D c w)
    (hfit : n + q.length ≤ 2047) (hq : ∀ j b, q[j]? = some b → f[n + j]? = some b)
    (h : Filled D c (descAt (D.txChain c) w.m.mem) f n w t)
    (hk : ∀ t, Filled D c (descAt (D.txChain c) w.m.mem) f (n + q.length) w t →
      Alone S (k ()) Q t) :
    Alone S (sendFragment D q (n ||| 0x10000) >>= k) Q t := by
  rcases h.reached hw with ⟨hcur, hbuf⟩
  unfold sendFragment
  rw [bind_assoc]
  refine alone_txCurrdescnum ?_
  rw [hcur, bind_assoc]
  refine alone_load ?_
  rw [hbuf, (offs_or (by omega)).2]
  exact alone_copyIn hw.index (by omega) hq h hk

/-- What a call of `_emac_tx` should do to the slot that the ring index designates. -/
structure Gathered (D : Indev) (c : ℕ) (p : Pbuf) (w w' : World) : Prop where
  payload : w'.m.mem.readBytes (D.txBuf c) p.flatten.length = p.flatten
  length : txLength (descAt (D.txChain c) w'.m.mem).st = p.flatten.length
  bits : ∀ n ∈ [24, 29, 30, 31], (descAt (D.txChain c) w'.m.mem).st.getLsbD n = true
  status : (descAt (D.txChain c) w'.m.mem).status = bit 31
  bufAddr : (descAt (D.txChain c) w'.m.mem).bufAddr = (descAt (D.txChain c) w.m.mem).bufAddr
  next : (descAt (D.txChain c) w'.m.mem).next = (descAt (D.txChain c) w.m.mem).next
  cur : w'.txCur.toNat = (c + 1) % 32
  others : ∀ x, ¬ InSlot D c x → w'.m.mem x = w.m.mem x

theorem getLsbD_lastWord (n : ℕ) : ∀ k ∈ [24, 29, 30, 31],
    (lastWord n ||| bit 29).getLsbD k = true := by
  have hbit : ∀ k ∈ [24, 29, 30, 31],
      (bit 24 ||| bit 30 ||| bit 31 ||| bit 29).getLsbD k = true := by decide
  intro k hk
  have hor : lastWord n ||| bit 29 =
      BitVec.ofNat 32 n ||| (bit 24 ||| bit 30 ||| bit 31 ||| bit 29) := by
    simp only [lastWord, BitVec.or_assoc]
  rw [hor, BitVec.getLsbD_or, hbit k hk, Bool.or_true]

/-- The descriptor of a frame of `n` bytes. -/
def DmaDesc.handedOver (d : DmaDesc) (n : ℕ) : DmaDesc :=
  { d with status := bit 31, st := lastWord n ||| bit 29 }

/-- The slot of a whole frame, once the ring index has moved on. -/
theorem Filled.gathered {p : Pbuf} {t' : World}
    (h : Filled D c ((descAt (D.txChain c) w.m.mem).handedOver p.flatten.length) p.flatten
      p.flatten.length w t)
    (hfit : p.flatten.length ≤ 2047) (hm : t'.m = t.m) (hcur : t'.txCur.toNat = (c + 1) % 32) :
    Gathered D c p w t' := by
  have hdesc : descAt (D.txChain c) t'.m.mem =
      (descAt (D.txChain c) w.m.mem).handedOver p.flatten.length := by
    rw [hm]
    exact h.slot.desc
  refine ⟨?_, ?_, ?_, ?_, ?_, ?_, hcur, ?_⟩
  · refine Mem.readBytes_eq_iff.2 ?_
    intro j hj
    have hbyte := h.bytes j hj
    rw [List.getElem?_eq_getElem hj] at hbyte
    rw [hm]
    exact (Option.some.inj hbyte).symm
  · rw [hdesc]
    exact (final_lastWord hfit).length
  · rw [hdesc]
    exact getLsbD_lastWord _
  · rw [hdesc]
    rfl
  · rw [hdesc]
    rfl
  · rw [hdesc]
    rfl
  · rw [hm]
    exact h.slot.outside

theorem alone_finish {cur : U32} {Q : Unit → World → Prop}
    (h : ∀ t', t'.m = w.m → t'.txCur = nextDescNum cur → Q () t') :
    Alone S (do
      setTxCurrdescnum (nextDescNum cur)
      let v ← readl .txCtl1
      writel .txCtl1 (v ||| bit 31 ||| bit 30)) Q w := by
  refine alone_call nofun ?_
  rintro r t rfl
  refine alone_call nofun ?_
  rintro r t ⟨-, rfl⟩
  refine alone_call nofun ?_
  rintro r t rfl
  exact alone_pure (h _ rfl rfl)

/-- The last segment: the descriptor is filled in and the ring index moves on. -/
theorem alone_sendLast {p : Pbuf} {q : List Byte} (hw : Reached D c w)
    (hlen : p.flatten.length = n + q.length) (hfit : p.flatten.length ≤ 2047)
    (hq : ∀ j b, q[j]? = some b → p.flatten[n + j]? = some b)
    (h : Filled D c (descAt (D.txChain c) w.m.mem) p.flatten n w t) :
    Alone S (sendLast D q n) (fun _ t => Gathered D c p w t) t := by
  rcases h.reached hw with ⟨hcur, hbuf⟩
  have hc := hw.index
  unfold sendLast
  refine alone_txCurrdescnum ?_
  generalize hnum : t.txCur = cur at hcur
  rw [hcur]
  refine alone_load ?_
  rw [hbuf, ← hlen]
  refine alone_invalidate _ _ ?_
  refine alone_store ?_
  have hst := h.field (g := fun d => { d with st := BitVec.ofNat 32 p.flatten.length }) hc
    (by omega) fun mem => descAt_write_st mem _ _
  refine alone_setBit ?_
  refine alone_copyIn hc (by omega) hq (hst.setBit hc (bit 24)) ?_
  intro t ht
  rw [← hlen] at ht
  refine alone_flush _ _ ?_
  refine alone_setBit (alone_setBit (alone_setBit ?_))
  have hword := ((ht.setBit hc (bit 30)).setBit hc (bit 31)).setBit hc (bit 29)
  refine alone_store ?_
  have hstatus := hword.field (k := 0) (g := fun d => { d with status := bit 31 }) hc
    (by omega) fun mem => descAt_write_status mem _ _
  refine alone_flush _ _ ?_
  refine alone_finish ?_
  intro t' hm htx
  have hnext : t'.txCur.toNat = (c + 1) % 32 := by
    rw [htx]
    exact nextDescNum_toNat (hcur.trans (Nat.mod_eq_of_lt hc).symm)
  exact hstatus.gathered hfit hm hnext

/-- The loop of `_emac_tx` from byte `n` of the frame on. -/
theorem alone_emacTxFrom {p : Pbuf} {qs : Pbuf} (hw : Reached D c w) (hqs : qs ≠ [])
    (hlen : p.flatten.length = n + qs.flatten.length) (hfit : p.flatten.length ≤ 2047)
    (hbs : ∀ j b, qs.flatten[j]? = some b → p.flatten[n + j]? = some b)
    (h : Filled D c (descAt (D.txChain c) w.m.mem) p.flatten n w t) :
    Alone S (emacTxFrom D n qs) (fun _ t => Gathered D c p w t) t := by
  induction qs generalizing n t with
  | nil => exact absurd rfl hqs
  | cons q qs ih =>
      rw [List.flatten_cons, List.length_append] at hlen
      obtain ⟨hq, hrest⟩ := segments_of_flatten hbs
      -- The last segment hands the descriptor over, and the others only add to its buffer.
      cases qs with
      | nil =>
          show Alone S (sun8iEmacEthSend D q (n ||| 0x0) >>= fun _ => pure ()) _ t
          rw [emacEthSend_last q (by omega), Nat.or_zero, bind_pure]
          exact alone_sendLast hw (by simpa using hlen) hfit hq h
      | cons q' qs =>
          show Alone S (sun8iEmacEthSend D q (n ||| 0x10000) >>= fun _ =>
            emacTxFrom D (n + q.length) (q' :: qs)) _ t
          rw [emacEthSend_fragment q (by omega)]
          refine alone_sendFragment hw (by omega) hq h ?_
          intro t ht
          exact ih (by simp) (by omega) hrest ht

/-- A call of `_emac_tx` comes to an end, and gathers its fragments in the slot of the ring index. -/
theorem emacTx_gathers {p : Pbuf} (hw : Reached D c w) (hp : p ≠ [])
    (hfit : p.flatten.length ≤ 2047) :
    (∃ w', Prog.Runs (access direct True) (emacTx D p) w () w') ∧
      ∀ w', Prog.Runs (access direct True) (emacTx D p) w () w' → Gathered D c p w w' := by
  have hcall : Alone ∅ (emacTx D p) (fun _ t => Gathered D c p w t) w := by
    refine alone_emacTxFrom hw hp (Nat.zero_add _).symm hfit ?_ ⟨At.refl hw.memory, nofun⟩
    intro j b hj
    rw [Nat.zero_add]
    exact hj
  constructor
  · rcases Prog.exists_runs (exists_access direct True) (emacTx D p) w with ⟨⟨⟩, w', hrun⟩
    exact ⟨w', hrun⟩
  · exact fun w' hrun => Prog.wp_runs (Q := fun _ t => Gathered D c p w t) hcall hrun

/-- A machine whose transmit index is `c`. -/
def World.atSlot (D : Indev) (c : ℕ) : World :=
  { World.reset with
    m := ⟨Mem.write32 (fun _ => 0) (D.txChain c + 8) (BitVec.ofNat 32 (D.txBuf c)), fun _ => none⟩
    txCur := BitVec.ofNat 32 c }

theorem reached_atSlot (D : Indev) (hc : c < 32) : Reached D c (World.atSlot D c) where
  memory := rfl
  index := hc
  cur := by
    show (BitVec.ofNat 32 c).toNat = c
    rw [BitVec.toNat_ofNat]
    omega
  linked := congrArg DmaDesc.bufAddr (descAt_write_bufAddr (fun _ => 0) (D.txChain c) _)

/-- A pbuf of three fragments, the middle one empty, in the last slot of the ring. -/
theorem emacTx_gathers_last : ∃ w',
    Prog.Runs (access direct True) (emacTx Indev.sdram [[1], [], [2, 3]])
      (World.atSlot Indev.sdram 31) () w' ∧
    Gathered Indev.sdram 31 [[1], [], [2, 3]] (World.atSlot Indev.sdram 31) w' := by
  rcases emacTx_gathers (reached_atSlot Indev.sdram (c := 31) (by decide)) (p := [[1], [], [2, 3]])
    nofun (by decide) with ⟨⟨w', hrun⟩, hgathers⟩
  exact ⟨w', hrun, hgathers w' hrun⟩

end Transmit

end Emac

end BspV3s
