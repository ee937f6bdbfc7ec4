import Mathlib.Data.BitVec
import Mathlib.Data.List.FinRange
import Mathlib.Tactic.SplitIfs

/-! # The 8259A interrupt controller

A chip latches the edges on its eight inputs as requests, masks them, and when the processor
acknowledges an interrupt hands out the request of highest priority that no interrupt in service
blocks, the lowest input first. The processor reads a **vector**: the base that was programmed, with
the number of the input. Two chips are wired as in a PC, the slave behind input 2 of the master.

* A request that has gone by the time of the acknowledgement is answered with input 7, and nothing
  is in service then (`Chip.acknowledge`).
* The four initialisation words program a chip from any state (`Chip.program_eq`).
* An acknowledgement puts at most the input that it tells in service (`isr_acknowledge`), which an
  end-of-interrupt command undoes (`isr_eoi_of_isr_eq_bit`).

The model has the commands of a driver in fully nested mode; rotating priorities, polling and the
special mask mode are left out. -/

namespace OS44.I8259

/-- What the data port takes next. -/
inductive Expects
  | mask
  | icw2
  | icw3
  | icw4
  deriving DecidableEq, Repr

/-- A chip. -/
structure Chip where
  /-- The levels of the inputs. -/
  lines : BitVec 8
  /-- The requests latched. -/
  irr : BitVec 8
  /-- The interrupts in service. -/
  isr : BitVec 8
  /-- The inputs masked. -/
  imr : BitVec 8
  /-- The vector of input 0, from ICW2. -/
  base : BitVec 8
  /-- ICW3. -/
  cascade : BitVec 8
  /-- Nothing needs an end-of-interrupt command, from ICW4. -/
  autoEoi : Bool
  /-- There is no second chip, and so no ICW3. -/
  single : Bool
  /-- There is an ICW4. -/
  hasIcw4 : Bool
  expects : Expects
  deriving DecidableEq, Repr

/-- The bit of an input. -/
def bit (i : Fin 8) : BitVec 8 := BitVec.twoPow 8 i

/-- The lowest bit that is set. -/
def lowest (b : BitVec 8) : Option (Fin 8) := (List.finRange 8).find? fun i => b.getLsbD i

namespace Chip

/-- An input goes up: an edge is latched as a request. -/
def raise (c : Chip) (i : Fin 8) : Chip :=
  if c.lines.getLsbD i then c else { c with lines := c.lines ||| bit i, irr := c.irr ||| bit i }

/-- An input goes down: a request not acknowledged by now is gone. -/
def drop (c : Chip) (i : Fin 8) : Chip :=
  { c with lines := c.lines &&& ~~~bit i, irr := c.irr &&& ~~~bit i }

/-- The input that is served next: unmasked, and no input of the same or a higher priority is in
service. -/
def request (c : Chip) : Option (Fin 8) :=
  (List.finRange 8).find? fun i =>
    c.irr.getLsbD i && !c.imr.getLsbD i && (List.finRange 8).all fun j => i < j || !c.isr.getLsbD j

/-- The processor acknowledges: the input it is told, and whether it asked for it. -/
def acknowledge (c : Chip) : Fin 8 × Chip :=
  match c.request with
  | some i => (i, { c with
      irr := c.irr &&& ~~~bit i
      isr := if c.autoEoi then c.isr else c.isr ||| bit i })
  | none => (7, c)

/-- The end-of-interrupt command that names no input: the highest priority is not in service any
more. -/
def eoi (c : Chip) : Chip :=
  match lowest c.isr with
  | some i => { c with isr := c.isr &&& ~~~bit i }
  | none => c

/-- A byte written to the command port. -/
def command (c : Chip) (v : BitVec 8) : Chip :=
  if v.getLsbD 4 then
    -- ICW1 forgets the edges, unmasks everything and starts the sequence
    { c with
      irr := 0
      imr := 0
      autoEoi := false
      single := v.getLsbD 1
      hasIcw4 := v.getLsbD 0
      expects := .icw2 }
  else if v = 0x20 then c.eoi
  else c

/-- A byte written to the data port. -/
def data (c : Chip) (v : BitVec 8) : Chip :=
  let last : Expects := if c.hasIcw4 then .icw4 else .mask
  match c.expects with
  | .mask => { c with imr := v }
  | .icw2 => { c with base := v &&& 0xF8, expects := if c.single then last else .icw3 }
  | .icw3 => { c with cascade := v, expects := last }
  | .icw4 => { c with autoEoi := v.getLsbD 1, expects := .mask }

/-- The vector of an input. -/
def vector (c : Chip) (i : Fin 8) : BitVec 8 := c.base ||| BitVec.ofNat 8 i

end Chip

/-- Two chips as in a PC. -/
structure Pair where
  master : Chip
  slave : Chip
  deriving DecidableEq, Repr

namespace Pair

/-- The processor acknowledges an interrupt and reads its vector. -/
def acknowledge (p : Pair) : BitVec 8 × Pair :=
  let (i, master) := p.master.acknowledge
  if i = 2 then
    let (j, slave) := p.slave.acknowledge
    (slave.vector j, { master := master, slave := slave })
  else (master.vector i, { p with master := master })

/-- An input of one of the chips goes up. -/
def raise (p : Pair) (onSlave : Bool) (i : Fin 8) : Pair :=
  if onSlave then { p with slave := p.slave.raise i } else { p with master := p.master.raise i }

/-- An input of one of the chips goes down. -/
def drop (p : Pair) (onSlave : Bool) (i : Fin 8) : Pair :=
  if onSlave then { p with slave := p.slave.drop i } else { p with master := p.master.drop i }

end Pair

/-! ## One chip -/

variable {c : Chip} {i : Fin 8}

theorem lowest_zero : lowest 0 = none := by decide

theorem lowest_bit (i : Fin 8) : lowest (bit i) = some i := by
  revert i
  decide

@[simp] theorem eoi_of_isr_eq_zero (h : c.isr = 0) : c.eoi = c := by
  rw [Chip.eoi, h, lowest_zero]

theorem isr_eoi_of_isr_eq_bit (h : c.isr = bit i) : c.eoi = { c with isr := 0 } := by
  rw [Chip.eoi, h, lowest_bit]
  show { c with isr := bit i &&& ~~~bit i } = { c with isr := 0 }
  rw [BitVec.and_not_self]

@[simp] theorem imr_eoi (c : Chip) : c.eoi.imr = c.imr := by
  unfold Chip.eoi
  split <;> rfl

@[simp] theorem irr_eoi (c : Chip) : c.eoi.irr = c.irr := by
  unfold Chip.eoi
  split <;> rfl

/-- With nothing in service the next input is the lowest one requested and not masked. -/
theorem request_of_isr_eq_zero (h : c.isr = 0) : c.request = lowest (c.irr &&& ~~~c.imr) := by
  unfold Chip.request lowest
  congr 1
  funext i
  rw [h, BitVec.getLsbD_and, BitVec.getLsbD_not]
  have hi : (i : ℕ) < 8 := i.isLt
  simp [hi]

/-- An input that is served is not masked and was requested. -/
theorem of_request_eq_some (h : c.request = some i) :
    c.irr.getLsbD i = true ∧ c.imr.getLsbD i = false := by
  have hi := List.find?_some h
  simp only [Bool.and_eq_true, Bool.not_eq_true'] at hi
  exact ⟨hi.1.1, hi.1.2⟩

/-- What an acknowledgement does: it takes a request into service, or it finds none. -/
theorem acknowledge_cases (c : Chip) :
    (∃ i, c.request = some i ∧ c.acknowledge = (i, { c with
      irr := c.irr &&& ~~~bit i
      isr := if c.autoEoi then c.isr else c.isr ||| bit i })) ∨
    (c.request = none ∧ c.acknowledge = (7, c)) := by
  unfold Chip.acknowledge
  cases h : c.request with
  | some i => exact .inl ⟨i, rfl, rfl⟩
  | none => exact .inr ⟨rfl, rfl⟩

/-! ## Programming a chip -/

/-- The four initialisation words: edges, two chips, ICW4. -/
def Chip.program (c : Chip) (offset cascade icw4 : BitVec 8) : Chip :=
  (((c.command 0x11).data offset).data cascade).data icw4

/-- **A chip is programmed from any state**, also in the middle of another sequence. -/
theorem Chip.program_eq (c : Chip) (offset cascade icw4 : BitVec 8) :
    c.program offset cascade icw4 = { c with
      irr := 0
      imr := 0
      base := offset &&& 0xF8
      cascade := cascade
      autoEoi := icw4.getLsbD 1
      single := false
      hasIcw4 := true
      expects := .mask } := rfl

theorem data_of_mask (h : c.expects = .mask) (v : BitVec 8) : c.data v = { c with imr := v } := by
  unfold Chip.data
  rw [h]

/-! ## Service -/

/-- A chip is programmed: it takes masks and waits for the end of each interrupt. -/
structure Chip.Programmed (c : Chip) (base cascade : BitVec 8) : Prop where
  base_eq : c.base = base
  cascade_eq : c.cascade = cascade
  autoEoi_eq : c.autoEoi = false
  expects_eq : c.expects = .mask

variable {base cascade : BitVec 8}

theorem Chip.Programmed.raise (h : c.Programmed base cascade) (i : Fin 8) :
    (c.raise i).Programmed base cascade := by
  unfold Chip.raise
  split_ifs
  · exact h
  · exact ⟨h.base_eq, h.cascade_eq, h.autoEoi_eq, h.expects_eq⟩

theorem Chip.Programmed.drop (h : c.Programmed base cascade) (i : Fin 8) :
    (c.drop i).Programmed base cascade :=
  ⟨h.base_eq, h.cascade_eq, h.autoEoi_eq, h.expects_eq⟩

theorem Chip.Programmed.acknowledge (h : c.Programmed base cascade) :
    c.acknowledge.2.Programmed base cascade := by
  obtain ⟨i, -, hi⟩ | ⟨-, hnone⟩ := acknowledge_cases c
  · rw [hi]
    exact ⟨h.base_eq, h.cascade_eq, h.autoEoi_eq, h.expects_eq⟩
  · rw [hnone]
    exact h

theorem Chip.Programmed.eoi (h : c.Programmed base cascade) : c.eoi.Programmed base cascade := by
  unfold Chip.eoi
  split
  · exact ⟨h.base_eq, h.cascade_eq, h.autoEoi_eq, h.expects_eq⟩
  · exact h

/-- After an acknowledgement at most the input told is in service. -/
theorem isr_acknowledge (hauto : c.autoEoi = false) (h : c.isr = 0) :
    c.acknowledge.2.isr = 0 ∨ c.acknowledge.2.isr = bit c.acknowledge.1 := by
  obtain ⟨i, -, hi⟩ | ⟨-, hnone⟩ := acknowledge_cases c
  · right
    rw [hi, hauto, h]
    exact BitVec.zero_or
  · left
    rw [hnone]
    exact h

end OS44.I8259
