import Mathlib.Data.Int.Notation
import BspV3s.Lib.Ring

/-!
# Registry — the MDIO buses that are registered

`miiphyutil.c` keeps its buses in an intrusive list, with `mii_devs` as the head and the `link` of each
`struct mii_dev` as the cell, and remembers one of them as the current one.  What this is for is said by
`Registry`: the buses in the order of their registration, with names that differ.

* `Registry.step`  : what each call does to the registry, and what it answers;
* `Call.Allowed`   : what the callers owe: no bus is unregistered twice or renamed while registered;
* `mdio_refines`   : over every run of calls the list answers as the registry does.
-/

namespace BspV3s

namespace Mii

/-! ## The lists of `list.h` -/

/-- `INIT_LIST_HEAD`. -/
def initListHead (L : Links ℕ) (list : ℕ) : Links ℕ :=
  let L := { L with next := Function.update L.next list list }
  { L with prev := Function.update L.prev list list }

/-- `__list_add`. -/
def rawListAdd (L : Links ℕ) (new prev next : ℕ) : Links ℕ :=
  let L := { L with prev := Function.update L.prev next new }
  let L := { L with next := Function.update L.next new next }
  let L := { L with prev := Function.update L.prev new prev }
  { L with next := Function.update L.next prev new }

def listAddTail (L : Links ℕ) (new head : ℕ) : Links ℕ :=
  rawListAdd L new (L.prev head) head

/-- `__list_del`. -/
def rawListDel (L : Links ℕ) (prev next : ℕ) : Links ℕ :=
  let L := { L with prev := Function.update L.prev next prev }
  { L with next := Function.update L.next prev next }

/-- `list_del`; both poisons are `NULL`. -/
def listDel (L : Links ℕ) (entry : ℕ) : Links ℕ :=
  let L := rawListDel L (L.prev entry) (L.next entry)
  let L := { L with next := Function.update L.next entry 0 }
  { L with prev := Function.update L.prev entry 0 }

theorem rawListAdd_eq {L : Links ℕ} {new prev next : ℕ} (hprev : new ≠ prev) (hnext : new ≠ next) :
    rawListAdd L new prev next = (L.join prev new).join new next := by
  simp only [rawListAdd, Links.join, Links.mk.injEq]
  exact ⟨Function.update_comm hprev .., Function.update_comm hnext.symm ..⟩

theorem rawListDel_eq (L : Links ℕ) (prev next : ℕ) : rawListDel L prev next = L.join prev next :=
  rfl

section Ring

variable {L : Links ℕ} {h n a : ℕ} {xs : List ℕ}

theorem ring_initListHead (L : Links ℕ) (h : ℕ) : (initListHead L h).Ring h [] :=
  Links.Ring.empty L h

theorem ring_listAddTail (hr : L.Ring h xs) (hn : n ∉ h :: xs) :
    (listAddTail L n h).Ring h (xs ++ [n]) := by
  have hlast : n ≠ xs.getLastD h := fun heq => hn (heq ▸ List.getLastD_mem_cons ..)
  have hhead : n ≠ h := fun heq => hn (heq ▸ List.mem_cons_self)
  rw [listAddTail, hr.prev_head, rawListAdd_eq hlast hhead]
  refine @Links.Ring.insert _ _ _ _ _ [] _ ?_ ?_
  · rwa [List.append_nil]
  · rwa [List.append_nil]

/-- Only the ring and the new entry are written. -/
theorem listAddTail_apart (hr : L.Ring h xs) (ha : a ∉ h :: xs) (hn : a ≠ n) :
    (listAddTail L n h).next a = L.next a ∧ (listAddTail L n h).prev a = L.prev a := by
  have hlast : a ≠ xs.getLastD h := fun heq => ha (heq ▸ List.getLastD_mem_cons ..)
  have hhead : a ≠ h := fun heq => ha (heq ▸ List.mem_cons_self)
  rw [listAddTail, hr.prev_head]
  constructor
  · exact (Function.update_of_ne hlast ..).trans (Function.update_of_ne hn ..)
  · exact (Function.update_of_ne hn ..).trans (Function.update_of_ne hhead ..)

theorem ring_listDel {ys : List ℕ} (hr : L.Ring h (xs ++ n :: ys)) :
    (listDel L n).Ring h (xs ++ ys) := by
  have hn : n ∉ h :: (xs ++ ys) :=
    (List.nodup_cons.1 (List.nodup_middle.1 (List.cons_append ▸ hr.nodup))).1
  refine hr.erase.congr fun c hc => ?_
  -- The poison is written beside the ring.
  have hne : c ≠ n := fun heq => hn (heq ▸ hc)
  exact ⟨Function.update_of_ne hne .., Function.update_of_ne hne ..⟩

/-- A cell that is linked to itself is the only one that is written. -/
theorem listDel_self (hnext : L.next n = n) (hprev : L.prev n = n) (ha : a ≠ n) :
    (listDel L n).next a = L.next a ∧ (listDel L n).prev a = L.prev a := by
  simp only [listDel, rawListDel, hnext, hprev, Function.update_of_ne ha, and_self]

end Ring

/-! ## The routines of `miiphyutil.c` -/

/-- The part of `struct mii_dev` that the registry uses.  `link` is its first member, so that an entry of
the list and its device have one address. -/
structure MiiDev where
  name : List Char
  hasRead : Bool
  hasWrite : Bool
  deriving DecidableEq, Repr

/-- The memory of the registry: the link fields, the devices, and `current_mii`. -/
structure Mem where
  links : Links ℕ
  dev : ℕ → MiiDev
  current : Option ℕ

/-- `mii_devs` is the list head at address `H`. -/
def miiphyInit (H : ℕ) (m : Mem) : Mem :=
  { m with links := initListHead m.links H, current := none }

/-- `mdio_alloc`, with the answer of `malloc`. -/
def mdioAlloc (bus : Option ℕ) (m : Mem) : Mem :=
  match bus with
  | none => m
  | some bus =>
      { m with
        dev := Function.update m.dev bus ⟨[], false, false⟩
        links := initListHead m.links bus }

/-- `miiphy_get_dev_by_name`; `none` stands for a loop that has not ended within `fuel` rounds. -/
def miiphyGetDevByName (H fuel : ℕ) (m : Mem) (devname : Option (List Char)) : Option (Option ℕ) :=
  match devname with
  | none => some none
  | some devname =>
      m.links.findFrom H (fun dev => (m.dev dev).name = devname) fuel (m.links.next H)

def mdioRegister (H fuel : ℕ) (bus : Option ℕ) (m : Mem) : Option (ℤ × Mem) :=
  match bus with
  | none => some (-1, m)
  | some bus =>
      if !(m.dev bus).hasRead || !(m.dev bus).hasWrite then some (-1, m)
      else
        (miiphyGetDevByName H fuel m (some (m.dev bus).name)).map fun found =>
          match found with
          | some _ => (-1, m)
          | none =>
              (0, { m with
                    links := listAddTail m.links bus H
                    current := if m.current.isNone then some bus else m.current })

/-- `snprintf(bus->name, MDIO_NAME_LEN, "eth%d", seq)`: always short enough, and never a failure. -/
def seqName (seq : ℤ) : List Char := ("eth" ++ toString seq).toList

def setName (bus : ℕ) (name : List Char) (m : Mem) : Mem :=
  { m with dev := Function.update m.dev bus { m.dev bus with name := name } }

def mdioRegisterSeq (H fuel : ℕ) (bus : ℕ) (seq : ℤ) (m : Mem) : Option (ℤ × Mem) :=
  mdioRegister H fuel (some bus) (setName bus (seqName seq) m)

def mdioUnregister (bus : Option ℕ) (m : Mem) : ℤ × Mem :=
  match bus with
  | none => (0, m)
  | some bus =>
      (0, { m with
            links := listDel m.links bus
            current := if m.current = some bus then none else m.current })

def miiphySetCurrentDev (H fuel : ℕ) (devname : Option (List Char)) (m : Mem) : Option (ℤ × Mem) :=
  (miiphyGetDevByName H fuel m devname).map fun dev =>
    match dev with
    | some dev => (0, { m with current := some dev })
    | none => (1, m)

def miiphyGetActiveDev (H fuel : ℕ) (devname : List Char) (m : Mem) : Option (Option ℕ × Mem) :=
  -- The current device is asked first.
  if m.current.any fun dev => (m.dev dev).name = devname then some (m.current, m)
  else
    (miiphySetCurrentDev H fuel (some devname) m).map fun r =>
      if r.1 ≠ 0 then (none, r.2) else (r.2.current, r.2)

/-- `miiphy_read`: `read` is what the `read` callback of a bus answers for the register in question.
The value is returned as it is stored in `*value`. -/
def miiphyRead (H fuel : ℕ) (devname : List Char) (read : ℕ → ℤ) (m : Mem) :
    Option ((ℤ × Option (BitVec 16)) × Mem) :=
  (miiphyGetActiveDev H fuel devname m).map fun r =>
    match r.1 with
    | none => ((1, none), r.2)
    | some bus => (if read bus < 0 then (1, none) else (0, some (BitVec.ofInt 16 (read bus))), r.2)

/-- `miiphy_write`: `write` is what the `write` callback of a bus answers.  The bus written to is
returned beside the result. -/
def miiphyWrite (H fuel : ℕ) (devname : List Char) (write : ℕ → ℤ) (m : Mem) :
    Option ((ℤ × Option ℕ) × Mem) :=
  (miiphyGetActiveDev H fuel devname m).map fun r =>
    match r.1 with
    | some bus => ((write bus, some bus), r.2)
    | none => ((1, none), r.2)

/-! ## The registry -/

/-- The buses that are registered, oldest first, and what is known of all buses. -/
structure Registry where
  devs : List ℕ
  dev : ℕ → MiiDev
  current : Option ℕ
  /-- Allocated and not freed. -/
  live : List ℕ
  /-- Allocated, and not registered since. -/
  loose : List ℕ

/-- The calls, with the answers of `malloc` and of the callbacks of the buses. -/
inductive Call
  | alloc (bus : Option ℕ)
  /-- A driver fills in its device. -/
  | fill (bus : ℕ) (dev : MiiDev)
  | free (bus : ℕ)
  | register (bus : Option ℕ)
  | registerSeq (bus : ℕ) (seq : ℤ)
  | unregister (bus : Option ℕ)
  | getDevByName (devname : Option (List Char))
  | setCurrentDev (devname : Option (List Char))
  | getCurrentDev
  | read (devname : List Char) (answer : ℕ → ℤ)
  | write (devname : List Char) (answer : ℕ → ℤ)

/-- What a call answers: its result, and the bus or the value that comes with it. -/
structure Answer where
  ret : ℤ := 0
  bus : Option ℕ := none
  value : Option (BitVec 16) := none
  deriving DecidableEq

namespace Registry

def empty (dev : ℕ → MiiDev) : Registry := ⟨[], dev, none, [], []⟩

def find (R : Registry) (name : List Char) : Option ℕ :=
  R.devs.find? fun d => (R.dev d).name = name

/-- A bus that can be read and written is registered when its name is new. -/
def register (R : Registry) (bus : ℕ) : ℤ × Registry :=
  if (R.dev bus).hasRead && (R.dev bus).hasWrite && (R.find (R.dev bus).name).isNone then
    (0, { R with
          devs := R.devs ++ [bus]
          current := R.current.or (some bus)
          loose := R.loose.filter (· ≠ bus) })
  else (-1, R)

def rename (R : Registry) (bus : ℕ) (name : List Char) : Registry :=
  { R with dev := Function.update R.dev bus { R.dev bus with name := name } }

def unregister (R : Registry) (bus : ℕ) : Registry :=
  { R with
    devs := R.devs.filter (· ≠ bus)
    current := R.current.filter (· ≠ bus)
    loose := R.loose.filter (· ≠ bus) }

/-- The bus of that name, which is the current one from then on. -/
def select (R : Registry) (name : List Char) : Option ℕ × Registry :=
  (R.find name, { R with current := (R.find name).or R.current })

def step : Call → Registry → Answer × Registry
  | .alloc none, R => ({}, R)
  | .alloc (some bus), R =>
      ({ bus := some bus }, { R with
        dev := Function.update R.dev bus ⟨[], false, false⟩
        live := bus :: R.live
        loose := bus :: R.loose })
  | .fill bus dev, R => ({}, { R with dev := Function.update R.dev bus dev })
  | .free bus, R =>
      ({}, { R with live := R.live.filter (· ≠ bus), loose := R.loose.filter (· ≠ bus) })
  | .register none, R => ({ ret := -1 }, R)
  | .register (some bus), R => ({ ret := (R.register bus).1 }, (R.register bus).2)
  | .registerSeq bus seq, R =>
      ({ ret := ((R.rename bus (seqName seq)).register bus).1 },
        ((R.rename bus (seqName seq)).register bus).2)
  | .unregister none, R => ({}, R)
  | .unregister (some bus), R => ({}, R.unregister bus)
  | .getDevByName none, R => ({}, R)
  | .getDevByName (some name), R => ({ bus := R.find name }, R)
  | .setCurrentDev none, R => ({ ret := 1 }, R)
  | .setCurrentDev (some name), R =>
      ({ ret := if (R.find name).isSome then 0 else 1 }, (R.select name).2)
  | .getCurrentDev, R => ({ bus := R.current }, R)
  | .read name answer, R =>
      (match R.find name with
        | none => { ret := 1 }
        | some bus =>
            if answer bus < 0 then { ret := 1 } else { value := some (BitVec.ofInt 16 (answer bus)) },
        (R.select name).2)
  | .write name answer, R =>
      (match R.find name with
        | none => { ret := 1 }
        | some bus => { ret := answer bus, bus := some bus },
        (R.select name).2)

def run : List Call → Registry → List Answer × Registry
  | [], R => ([], R)
  | c :: cs, R => ((R.step c).1 :: (run cs (R.step c).2).1, (run cs (R.step c).2).2)

end Registry

/-- What the callers owe: memory is allocated where nothing lives, a registered bus is neither changed
nor freed, and only a bus that is linked is unregistered. -/
def Call.Allowed (H : ℕ) (R : Registry) : Call → Prop
  | .alloc (some bus) => bus ∉ R.live ∧ bus ≠ H
  | .fill bus _ => bus ∈ R.live ∧ bus ∉ R.devs
  | .free bus => bus ∈ R.live ∧ bus ∉ R.devs
  | .register (some bus) => bus ∈ R.live
  | .registerSeq bus _ => bus ∈ R.live ∧ bus ∉ R.devs
  | .unregister (some bus) => bus ∈ R.devs ∨ bus ∈ R.loose
  | _ => True

instance Call.instDecidableAllowed (H : ℕ) (R : Registry) (c : Call) : Decidable (c.Allowed H R) := by
  unfold Call.Allowed
  split <;> infer_instance

def AllAllowed (H : ℕ) : List Call → Registry → Prop
  | [], _ => True
  | c :: cs, R => c.Allowed H R ∧ AllAllowed H cs (R.step c).2

/-- The calls on the memory. -/
def Mem.step (H fuel : ℕ) : Call → Mem → Option (Answer × Mem)
  | .alloc bus, m => some ({ bus := bus }, mdioAlloc bus m)
  | .fill bus dev, m => some ({}, { m with dev := Function.update m.dev bus dev })
  | .free _, m => some ({}, m)
  | .register bus, m => (mdioRegister H fuel bus m).map fun r => ({ ret := r.1 }, r.2)
  | .registerSeq bus seq, m => (mdioRegisterSeq H fuel bus seq m).map fun r => ({ ret := r.1 }, r.2)
  | .unregister bus, m => some ({ ret := (mdioUnregister bus m).1 }, (mdioUnregister bus m).2)
  | .getDevByName name, m => (miiphyGetDevByName H fuel m name).map fun bus => ({ bus := bus }, m)
  | .setCurrentDev name, m => (miiphySetCurrentDev H fuel name m).map fun r => ({ ret := r.1 }, r.2)
  | .getCurrentDev, m => some ({ bus := m.current }, m)
  | .read name answer, m =>
      (miiphyRead H fuel name answer m).map fun r => ({ ret := r.1.1, value := r.1.2 }, r.2)
  | .write name answer, m =>
      (miiphyWrite H fuel name answer m).map fun r => ({ ret := r.1.1, bus := r.1.2 }, r.2)

def Mem.run (H fuel : ℕ) : List Call → Mem → Option (List Answer × Mem)
  | [], m => some ([], m)
  | c :: cs, m =>
      (m.step H fuel c).bind fun r => (Mem.run H fuel cs r.2).map fun rest => (r.1 :: rest.1, rest.2)

/-! ## The list answers as the registry does -/

/-- The memory holds this registry. -/
structure Represents (H : ℕ) (m : Mem) (R : Registry) : Prop where
  ring : m.links.Ring H R.devs
  dev : m.dev = R.dev
  current : m.current = R.current
  names : (R.devs.map fun d => (R.dev d).name).Nodup
  current_mem : ∀ d, R.current = some d → d ∈ R.devs
  devs_live : ∀ d ∈ R.devs, d ∈ R.live
  head : H ∉ R.live
  loose : ∀ d ∈ R.loose, (d ∈ R.live ∧ d ∉ R.devs) ∧ m.links.next d = d ∧ m.links.prev d = d

section Refinement

variable {H fuel bus : ℕ} {m : Mem} {R : Registry} {name : List Char}

theorem represents_miiphyInit (H : ℕ) (m : Mem) :
    Represents H (miiphyInit H m) (Registry.empty m.dev) where
  ring := ring_initListHead m.links H
  dev := rfl
  current := rfl
  names := List.nodup_nil
  current_mem _ h := nomatch h
  devs_live _ h := nomatch h
  head := List.not_mem_nil
  loose _ h := nomatch h

namespace Represents

theorem notMem_ring (h : Represents H m R) (hlive : bus ∈ R.live) (hbus : bus ∉ R.devs) :
    bus ∉ H :: R.devs :=
  List.not_mem_cons_of_ne_of_not_mem (fun heq => h.head (heq ▸ hlive)) hbus

theorem loose_notMem_ring (h : Represents H m R) (hloose : bus ∈ R.loose) : bus ∉ H :: R.devs :=
  h.notMem_ring (h.loose bus hloose).1.1 (h.loose bus hloose).1.2

/-- The search ends, with the bus of that name. -/
theorem find_eq (h : Represents H m R) (hfuel : R.devs.length < fuel) :
    miiphyGetDevByName H fuel m (some name) = some (R.find name) := by
  rw [miiphyGetDevByName, h.ring.findFrom_eq hfuel, h.dev]
  rfl

theorem find_mem (h : R.find name = some bus) : bus ∈ R.devs ∧ (R.dev bus).name = name := by
  have hname := List.find?_some h
  exact ⟨List.mem_of_find?_eq_some h, of_decide_eq_true hname⟩

/-- A registered bus is the one that its name finds. -/
theorem find_name (h : Represents H m R) (hbus : bus ∈ R.devs) :
    R.find (R.dev bus).name = some bus := by
  have hmem : ∃ d, R.find (R.dev bus).name = some d := by
    rw [← Option.isSome_iff_exists, Registry.find, List.find?_isSome]
    exact ⟨bus, hbus, decide_eq_true rfl⟩
  rcases hmem with ⟨d, hd⟩
  rw [hd, List.inj_on_of_nodup_map h.names (find_mem hd).1 hbus (find_mem hd).2]

theorem find_eq_none (h : R.find name = none) : ∀ d ∈ R.devs, (R.dev d).name ≠ name := by
  intro d hd heq
  exact (List.find?_eq_none.1 h) d hd (decide_eq_true heq)

/-- A device outside the registry is changed. -/
theorem fill (h : Represents H m R) (hbus : bus ∉ R.devs) (dev : MiiDev) :
    Represents H { m with dev := Function.update m.dev bus dev }
      { R with dev := Function.update R.dev bus dev } where
  ring := h.ring
  dev := by rw [h.dev]
  current := h.current
  names := by
    have heq : R.devs.map (fun d => (Function.update R.dev bus dev d).name) =
        R.devs.map fun d => (R.dev d).name := by
      refine List.map_congr_left fun d hd => ?_
      rw [Function.update_of_ne fun heq : d = bus => hbus (heq ▸ hd)]
    exact heq ▸ h.names
  current_mem := h.current_mem
  devs_live := h.devs_live
  head := h.head
  loose := h.loose

theorem alloc (h : Represents H m R) (hlive : bus ∉ R.live) (hhead : bus ≠ H) :
    Represents H (mdioAlloc (some bus) m) (R.step (.alloc (some bus))).2 := by
  have hdevs : bus ∉ R.devs := fun hmem => hlive (h.devs_live bus hmem)
  have hring : bus ∉ H :: R.devs := List.not_mem_cons_of_ne_of_not_mem hhead hdevs
  have hfill := h.fill hdevs ⟨[], false, false⟩
  refine ⟨?_, hfill.dev, h.current, hfill.names, h.current_mem, ?_, ?_, ?_⟩
  · refine h.ring.congr fun c hc => ?_
    have hne : c ≠ bus := fun heq => hring (heq ▸ hc)
    exact ⟨Function.update_of_ne hne .., Function.update_of_ne hne ..⟩
  · exact fun d hd => List.mem_cons_of_mem _ (h.devs_live d hd)
  · exact List.not_mem_cons_of_ne_of_not_mem hhead.symm h.head
  · intro d hd
    rcases List.mem_cons.1 hd with rfl | hold
    · exact ⟨⟨List.mem_cons_self, hdevs⟩, Function.update_self .., Function.update_self ..⟩
    · have hl := h.loose d hold
      have hne : d ≠ bus := fun heq => hlive (heq ▸ hl.1.1)
      exact ⟨⟨List.mem_cons_of_mem _ hl.1.1, hl.1.2⟩, (Function.update_of_ne hne ..).trans hl.2.1,
        (Function.update_of_ne hne ..).trans hl.2.2⟩

theorem free (h : Represents H m R) (hbus : bus ∉ R.devs) :
    Represents H m (R.step (.free bus)).2 where
  ring := h.ring
  dev := h.dev
  current := h.current
  names := h.names
  current_mem := h.current_mem
  devs_live d hd := by
    refine List.mem_filter.2 ⟨h.devs_live d hd, decide_eq_true fun heq => hbus (heq ▸ hd)⟩
  head hmem := h.head (List.mem_filter.1 hmem).1
  loose d hd := by
    rcases List.mem_filter.1 hd with ⟨hold, hne⟩
    have hl := h.loose d hold
    exact ⟨⟨List.mem_filter.2 ⟨hl.1.1, hne⟩, hl.1.2⟩, hl.2⟩

/-- A bus with a new name comes to the end of the list. -/
theorem append (h : Represents H m R) (hlive : bus ∈ R.live) (hnone : R.find (R.dev bus).name = none) :
    Represents H
      { m with
        links := listAddTail m.links bus H
        current := if m.current.isNone then some bus else m.current }
      { R with
        devs := R.devs ++ [bus]
        current := R.current.or (some bus)
        loose := R.loose.filter (· ≠ bus) } := by
  have hdevs : bus ∉ R.devs := fun hmem => find_eq_none hnone bus hmem rfl
  refine ⟨ring_listAddTail h.ring (h.notMem_ring hlive hdevs), h.dev, ?_, ?_, ?_, ?_, h.head, ?_⟩
  · rw [h.current]
    cases R.current <;> rfl
  · rw [List.map_append, List.map_singleton]
    refine List.nodup_append.2 ⟨h.names, List.nodup_singleton _, ?_⟩
    rintro n hn n' hn' rfl
    rcases List.mem_map.1 hn with ⟨d, hd, hname⟩
    exact find_eq_none hnone d hd (hname.trans (List.mem_singleton.1 hn'))
  · intro d hd
    cases hc : R.current with
    | none =>
        rw [hc] at hd
        exact List.mem_append_right _ (List.mem_singleton.2 (Option.some.inj hd).symm)
    | some c =>
        rw [hc] at hd
        exact List.mem_append_left _ (h.current_mem d (hc.trans hd))
  · intro d hd
    rcases List.mem_append.1 hd with hold | hnew
    · exact h.devs_live d hold
    · exact List.mem_singleton.1 hnew ▸ hlive
  · intro d hd
    rcases List.mem_filter.1 hd with ⟨hold, hne⟩
    have hne : d ≠ bus := of_decide_eq_true hne
    have hl := h.loose d hold
    have hkeep := listAddTail_apart h.ring (h.loose_notMem_ring hold) hne
    refine ⟨⟨hl.1.1, ?_⟩, hkeep.1.trans hl.2.1, hkeep.2.trans hl.2.2⟩
    intro hmem
    rcases List.mem_append.1 hmem with hin | hbus
    · exact hl.1.2 hin
    · exact hne (List.mem_singleton.1 hbus)

theorem register (h : Represents H m R) (hfuel : R.devs.length < fuel) (hlive : bus ∈ R.live) :
    ∃ m', mdioRegister H fuel (some bus) m = some ((R.register bus).1, m') ∧
      Represents H m' (R.register bus).2 := by
  have hdev : m.dev bus = R.dev bus := by rw [h.dev]
  rw [mdioRegister, hdev]
  by_cases hops : (R.dev bus).hasRead && (R.dev bus).hasWrite
  · have hno : (!(R.dev bus).hasRead || !(R.dev bus).hasWrite) = false := by
      rw [← Bool.not_and, hops]
      rfl
    rw [hno, if_neg Bool.false_ne_true, h.find_eq hfuel]
    cases hfind : R.find (R.dev bus).name with
    | some d =>
        have hreg : R.register bus = (-1, R) := by
          rw [Registry.register, hops, hfind]
          rfl
        rw [hreg]
        exact ⟨m, rfl, h⟩
    | none =>
        have hreg : R.register bus = (0, { R with
            devs := R.devs ++ [bus]
            current := R.current.or (some bus)
            loose := R.loose.filter (· ≠ bus) }) := by
          rw [Registry.register, hops, hfind]
          rfl
        rw [hreg]
        exact ⟨_, rfl, h.append hlive hfind⟩
  · have hyes : (!(R.dev bus).hasRead || !(R.dev bus).hasWrite) = true := by
      rw [← Bool.not_and, Bool.eq_false_iff.2 hops]
      rfl
    have hreg : R.register bus = (-1, R) := by
      rw [Registry.register, Bool.eq_false_iff.2 hops]
      rfl
    rw [hyes, if_pos rfl, hreg]
    exact ⟨m, rfl, h⟩

theorem filter_of_notMem {ds : List ℕ} (hbus : bus ∉ ds) : ds.filter (· ≠ bus) = ds :=
  List.filter_eq_self.2 fun d hd => decide_eq_true fun heq : d = bus => hbus (heq ▸ hd)

/-- What is left of the list when a registered bus is taken out. -/
theorem filter_ne {xs ys : List ℕ} (hnodup : (xs ++ bus :: ys).Nodup) :
    (xs ++ bus :: ys).filter (· ≠ bus) = xs ++ ys := by
  have hbus : bus ∉ xs ++ ys := (List.nodup_cons.1 (List.nodup_middle.1 hnodup)).1
  rw [List.filter_append, List.filter_cons_of_neg (by simp),
    filter_of_notMem fun hmem => hbus (List.mem_append_left _ hmem),
    filter_of_notMem fun hmem => hbus (List.mem_append_right _ hmem)]

/-- After `list_del`, whichever way the entry was linked. -/
theorem listDel_eq (h : Represents H m R) (hbus : bus ∈ R.devs ∨ bus ∈ R.loose) :
    (listDel m.links bus).Ring H (R.devs.filter (· ≠ bus)) ∧
      ∀ d, d ∈ R.loose → d ≠ bus →
        (listDel m.links bus).next d = m.links.next d ∧ (listDel m.links bus).prev d = m.links.prev d := by
  rcases hbus with hreg | hloose
  · rcases List.append_of_mem hreg with ⟨xs, ys, heq⟩
    have hring := h.ring
    have hnodup := h.ring.nodup_entries
    have hloose := fun d (hd : d ∈ R.loose) => h.loose_notMem_ring hd
    rw [heq] at hring hnodup hloose
    refine ⟨?_, fun d hd hne => ?_⟩
    · rw [heq, filter_ne hnodup]
      exact ring_listDel hring
    · -- The neighbours of the entry are cells of the ring.
      have hprev : d ≠ m.links.prev bus := by
        rw [hring.neighbours.1]
        intro hd'
        have hmem : xs.getLastD H ∈ H :: xs := List.getLastD_mem_cons ..
        refine hloose d hd (hd' ▸ ?_)
        rw [← List.cons_append]
        exact List.mem_append_left _ hmem
      have hnext : d ≠ m.links.next bus := by
        rw [hring.neighbours.2]
        intro hd'
        refine hloose d hd (hd' ▸ ?_)
        cases ys with
        | nil => exact List.mem_cons_self
        | cons y ys =>
            exact List.mem_cons_of_mem _ (List.mem_append_right _
              (List.mem_cons_of_mem _ List.mem_cons_self))
      exact ⟨(Function.update_of_ne hne ..).trans (Function.update_of_ne hprev ..),
        (Function.update_of_ne hne ..).trans (Function.update_of_ne hnext ..)⟩
  · have hl := h.loose bus hloose
    have hapart := fun a (ha : a ≠ bus) => listDel_self (a := a) hl.2.1 hl.2.2 ha
    refine ⟨?_, fun d _ hne => hapart d hne⟩
    rw [filter_of_notMem hl.1.2]
    exact h.ring.congr fun c hc => hapart c fun heq => h.loose_notMem_ring hloose (heq ▸ hc)

theorem unregister (h : Represents H m R) (hbus : bus ∈ R.devs ∨ bus ∈ R.loose) :
    Represents H (mdioUnregister (some bus) m).2 (R.unregister bus) := by
  have hdel := h.listDel_eq hbus
  refine ⟨hdel.1, h.dev, ?_, ?_, ?_, ?_, h.head, ?_⟩
  · change (if m.current = some bus then none else m.current) = R.current.filter (· ≠ bus)
    rw [h.current]
    cases R.current with
    | none => rfl
    | some c =>
        by_cases hc : c = bus
        · rw [hc, if_pos rfl, Option.filter_some, if_neg (by simp)]
        · rw [if_neg fun heq => hc (Option.some.inj heq), Option.filter_some,
            if_pos (decide_eq_true hc)]
  · exact h.names.sublist (List.filter_sublist.map _)
  · intro d hd
    rcases Option.filter_eq_some_iff.1 hd with ⟨hcur, hne⟩
    exact List.mem_filter.2 ⟨h.current_mem d hcur, hne⟩
  · exact fun d hd => h.devs_live d (List.mem_filter.1 hd).1
  · intro d hd
    rcases List.mem_filter.1 hd with ⟨hold, hne⟩
    have hl := h.loose d hold
    have hkeep := hdel.2 d hold (of_decide_eq_true hne)
    exact ⟨⟨hl.1.1, fun hmem => hl.1.2 (List.mem_filter.1 hmem).1⟩, hkeep.1.trans hl.2.1,
      hkeep.2.trans hl.2.2⟩

theorem setCurrentDev (h : Represents H m R) (hfuel : R.devs.length < fuel) (name : List Char) :
    ∃ m', miiphySetCurrentDev H fuel (some name) m =
        some (if (R.find name).isSome then 0 else 1, m') ∧
      m'.current = (R.find name).or R.current ∧ Represents H m' (R.select name).2 := by
  rw [miiphySetCurrentDev, h.find_eq hfuel]
  cases hfind : R.find name with
  | none =>
      refine ⟨m, rfl, h.current, ?_⟩
      rw [Registry.select, hfind]
      exact h
  | some d =>
      refine ⟨{ m with current := some d }, rfl, rfl, ?_⟩
      rw [Registry.select, hfind]
      refine { h with current := rfl, current_mem := ?_ }
      intro d' hd'
      exact Option.some.inj hd' ▸ (find_mem hfind).1

/-- The bus with that name is found, and is the current one from then on. -/
theorem getActiveDev (h : Represents H m R) (hfuel : R.devs.length < fuel) (name : List Char) :
    ∃ m', miiphyGetActiveDev H fuel name m = some (R.find name, m') ∧
      Represents H m' (R.select name).2 := by
  rw [miiphyGetActiveDev]
  by_cases hcur : (m.current.any fun dev => (m.dev dev).name = name) = true
  · rw [if_pos hcur]
    rcases (Option.any_eq_true _ _).1 hcur with ⟨d, hd, hname⟩
    have hname : (R.dev d).name = name := h.dev ▸ of_decide_eq_true hname
    have hfind : R.find name = some d :=
      hname ▸ h.find_name (h.current_mem d (h.current ▸ hd))
    refine ⟨m, by rw [hfind, hd], ?_⟩
    have hsel : (R.select name).2 = R := by
      rw [Registry.select, hfind, Option.some_or, ← hd, h.current]
    exact hsel.symm ▸ h
  · rcases h.setCurrentDev hfuel name with ⟨m', hset, hcurrent, hrep⟩
    rw [if_neg hcur, hset]
    refine ⟨m', ?_, hrep⟩
    rw [Option.map_some, hcurrent]
    cases R.find name <;> rfl

theorem read (h : Represents H m R) (hfuel : R.devs.length < fuel) (answer : ℕ → ℤ) :
    ∃ m', m.step H fuel (.read name answer) = some ((R.step (.read name answer)).1, m') ∧
      Represents H m' (R.select name).2 := by
  rcases h.getActiveDev hfuel name with ⟨m', hget, hrep⟩
  refine ⟨m', ?_, hrep⟩
  rw [Mem.step, miiphyRead, hget, Registry.step]
  cases R.find name with
  | none => rfl
  | some d =>
      by_cases hneg : answer d < 0
      · simp only [Option.map_some, if_pos hneg]
      · simp only [Option.map_some, if_neg hneg]

theorem write (h : Represents H m R) (hfuel : R.devs.length < fuel) (answer : ℕ → ℤ) :
    ∃ m', m.step H fuel (.write name answer) = some ((R.step (.write name answer)).1, m') ∧
      Represents H m' (R.select name).2 := by
  rcases h.getActiveDev hfuel name with ⟨m', hget, hrep⟩
  refine ⟨m', ?_, hrep⟩
  rw [Mem.step, miiphyWrite, hget, Registry.step]
  cases R.find name <;> rfl

/-- One call: the same answer, and memory that holds the registry after it. -/
theorem step (h : Represents H m R) (hfuel : R.devs.length < fuel) {c : Call}
    (hc : c.Allowed H R) :
    ∃ m', m.step H fuel c = some ((R.step c).1, m') ∧ Represents H m' (R.step c).2 := by
  cases c with
  | alloc bus =>
      cases bus with
      | none => exact ⟨m, rfl, h⟩
      | some bus => exact ⟨_, rfl, h.alloc hc.1 hc.2⟩
  | fill bus dev => exact ⟨_, rfl, h.fill hc.2 dev⟩
  | free bus => exact ⟨m, rfl, h.free hc.2⟩
  | register bus =>
      cases bus with
      | none => exact ⟨m, rfl, h⟩
      | some bus =>
          rcases h.register hfuel hc with ⟨m', hreg, hrep⟩
          exact ⟨m', congrArg (Option.map _) hreg, hrep⟩
  | registerSeq bus seq =>
      have hname : Represents H (setName bus (seqName seq) m) (R.rename bus (seqName seq)) := by
        have hdev : m.dev bus = R.dev bus := by rw [h.dev]
        rw [setName, hdev]
        exact h.fill hc.2 { R.dev bus with name := seqName seq }
      rcases hname.register hfuel hc.1 with ⟨m', hreg, hrep⟩
      exact ⟨m', congrArg (Option.map _) hreg, hrep⟩
  | unregister bus =>
      cases bus with
      | none => exact ⟨m, rfl, h⟩
      | some bus => exact ⟨_, rfl, h.unregister hc⟩
  | getDevByName name =>
      cases name with
      | none => exact ⟨m, rfl, h⟩
      | some name => exact ⟨m, congrArg (Option.map _) (h.find_eq hfuel), h⟩
  | setCurrentDev name =>
      cases name with
      | none => exact ⟨m, rfl, h⟩
      | some name =>
          rcases h.setCurrentDev hfuel name with ⟨m', hset, -, hrep⟩
          exact ⟨m', congrArg (Option.map _) hset, hrep⟩
  | getCurrentDev => exact ⟨m, by rw [Mem.step, h.current]; rfl, h⟩
  | read name answer => exact h.read hfuel answer
  | write name answer => exact h.write hfuel answer

end Represents

/-- A call registers at most one bus. -/
theorem length_step (c : Call) (R : Registry) : (R.step c).2.devs.length ≤ R.devs.length + 1 := by
  have hregister : ∀ (R : Registry) bus, (R.register bus).2.devs.length ≤ R.devs.length + 1 := by
    intro R bus
    rw [Registry.register]
    split
    · exact Nat.le_of_eq List.length_append
    · exact Nat.le_succ _
  cases c with
  | alloc bus => cases bus <;> exact Nat.le_succ _
  | register bus =>
      cases bus with
      | none => exact Nat.le_succ _
      | some bus => exact hregister R bus
  | registerSeq bus seq => exact hregister (R.rename bus (seqName seq)) bus
  | unregister bus =>
      cases bus with
      | none => exact Nat.le_succ _
      | some bus => exact Nat.le_succ_of_le (List.length_filter_le _ _)
  | getDevByName name => cases name <;> exact Nat.le_succ _
  | setCurrentDev name => cases name <;> exact Nat.le_succ _
  | fill | free | getCurrentDev | read | write => exact Nat.le_succ _

/-- A run of calls, from any memory that holds a registry. -/
theorem Represents.run (h : Represents H m R) {cs : List Call} (hcs : AllAllowed H cs R)
    (hfuel : R.devs.length + cs.length < fuel) :
    ∃ m', Mem.run H fuel cs m = some ((Registry.run cs R).1, m') ∧
      Represents H m' (Registry.run cs R).2 := by
  induction cs generalizing m R with
  | nil => exact ⟨m, rfl, h⟩
  | cons c cs ih =>
      rw [List.length_cons] at hfuel
      rcases h.step (by omega : R.devs.length < fuel) hcs.1 with ⟨m₁, hstep, hrep⟩
      have hlen := length_step c R
      rcases ih hrep hcs.2 (by omega) with ⟨m₂, hrun, hrep₂⟩
      refine ⟨m₂, ?_, hrep₂⟩
      rw [Mem.run, hstep, Option.bind_some, hrun]
      rfl

/-- After `miiphy_init` the list through `mii_devs` answers every run of calls as the registry of buses
does: the buses registered and not unregistered since, in their order, no two of one name, and a current
one among them or none.  No search goes on for ever. -/
theorem mdio_refines {H fuel : ℕ} (m : Mem) {cs : List Call}
    (hcs : AllAllowed H cs (Registry.empty m.dev)) (hfuel : cs.length < fuel) :
    ∃ m', Mem.run H fuel cs (miiphyInit H m) = some ((Registry.run cs (Registry.empty m.dev)).1, m') ∧
      Represents H m' (Registry.run cs (Registry.empty m.dev)).2 :=
  (represents_miiphyInit H m).run hcs (by rw [Registry.empty, List.length_nil]; omega)

/-- Two buses come, one goes, and a read goes to the one that is left. -/
def twoBuses : List Call :=
  [.alloc (some 8), .fill 8 ⟨['e'], true, true⟩, .register (some 8), .alloc (some 16),
    .fill 16 ⟨[], true, true⟩, .registerSeq 16 0, .unregister (some 8),
    .read ['e', 't', 'h', '0'] fun _ => 5]

theorem mdio_refines_two :
    AllAllowed 1 twoBuses (Registry.empty fun _ => ⟨[], false, false⟩) ∧
      ∃ m', Mem.run 1 9 twoBuses (miiphyInit 1 ⟨⟨id, id⟩, fun _ => ⟨[], false, false⟩, none⟩) =
          some ([{ bus := some 8 }, {}, {}, { bus := some 16 }, {}, {}, {}, { value := some 5 }], m') ∧
        m'.links.Ring 1 [16] ∧ m'.current = some 16 := by
  have hcs : AllAllowed 1 twoBuses (Registry.empty fun _ => ⟨[], false, false⟩) := by
    simp only [AllAllowed, twoBuses, and_true]
    decide
  refine ⟨hcs, ?_⟩
  rcases mdio_refines ⟨⟨id, id⟩, fun _ => ⟨[], false, false⟩, none⟩ hcs (by decide : 8 < 9) with
    ⟨m', hrun, hrep⟩
  exact ⟨m', hrun, hrep.ring, hrep.current⟩

end Refinement

end Mii

end BspV3s
