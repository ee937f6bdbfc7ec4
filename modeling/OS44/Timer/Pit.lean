import Mathlib.Tactic.IntervalCases
import OS44.Interrupts.Pic

/-! # Starting the timer (`timer_init`)

`timer_init` divides the clock of the 8254 down and unmasks IRQ0. The divisor goes to the timer in
two bytes, and so the timer gets it in full exactly for the frequencies from 19 Hz up to that of its
clock (`timer_init_divides_iff`). -/

namespace OS44

open PortBus I8259

/-- `PIT_COMMAND`. -/
def pitCommand : U16 := 0x43

/-- `PIT_CHANNEL0`. -/
def pitChannel0 : U16 := 0x40

/-- `INPUT_FREQ`. -/
def inputFreq : U32 := 1193182

section Driver

variable {D : Type} [PortBus D]

/-- `timer_init`; `none` is a division by zero. -/
def timerInit (frequency : U32) (d : D) : Option D :=
  if frequency = 0 then none
  else
    let divisor := inputFreq / frequency
    let d := outb d pitCommand 0x36
    let d := outb d pitChannel0 ((divisor &&& 0xFF).setWidth 8)
    let d := outb d pitChannel0 (((divisor >>> 8) &&& 0xFF).setWidth 8)
    some (unmaskLine 0 d)

/-- What `timer_init` sends to the timer. -/
def pitStart (frequency : U32) (d : D) : D :=
  let divisor := inputFreq / frequency
  let d := outb d pitCommand 0x36
  let d := outb d pitChannel0 ((divisor &&& 0xFF).setWidth 8)
  outb d pitChannel0 (((divisor >>> 8) &&& 0xFF).setWidth 8)

/-- `timer_init` on a machine: the timer is sent its bytes, and line 0 is unmasked. -/
theorem timerInit_eq {frequency : U32} (h : frequency ≠ 0) (m : Machine D) : timerInit frequency m =
    some (unmaskLine 0 { m with rest := pitStart frequency m.rest }) := by
  have hcommand : ¬ PicPort pitCommand := by decide
  have hchannel : ¬ PicPort pitChannel0 := by decide
  rw [timerInit, if_neg h]
  simp only [outb_rest hcommand, outb_rest hchannel]
  rfl

/-- **The interrupt controllers after `timer_init`**: IRQ0 is unmasked. -/
theorem pics_timerInit {frequency : U32} (h : frequency ≠ 0) {m : Machine D}
    (hmask : m.pics.master.expects = .mask) : ∃ d, timerInit frequency m = some d ∧
      d.pics = { m.pics with
        master := { m.pics.master with imr := m.pics.master.imr &&& ~~~((1 : U8) <<< 0) } } := by
  refine ⟨_, timerInit_eq h m, ?_⟩
  exact congrArg Machine.pics
    (unmaskLine_eq (m := { m with rest := pitStart frequency m.rest }) hmask 0)

end Driver

/-! ## The timer -/

/-- Which bytes of a count the data port of a channel takes. -/
inductive PitAccess
  | lowByte
  | highByte
  | bothBytes
  deriving DecidableEq, Repr

/-- Channel 0 of an 8254. -/
structure Pit where
  /-- The mode, a number from 0 to 7. -/
  mode : U8
  access : PitAccess
  /-- The low byte, when the high one is to follow. -/
  low : Option U8
  /-- The count register; 0 counts 65536. -/
  count : U16
  deriving DecidableEq, Repr

namespace Pit

/-- A control word for channel 0; a word for another channel, or one that latches the count, leaves
the channel as it is. -/
def control (p : Pit) (v : U8) : Pit :=
  if v >>> 6 ≠ 0 then p
  else
    let p := { p with mode := (v >>> 1) &&& 7, low := none }
    match (v >>> 4) &&& 3 with
    | 1 => { p with access := .lowByte }
    | 2 => { p with access := .highByte }
    | 3 => { p with access := .bothBytes }
    | _ => p

/-- A byte of the count. -/
def data (p : Pit) (v : U8) : Pit :=
  match p.access, p.low with
  | .lowByte, _ => { p with count := v.setWidth 16 }
  | .highByte, _ => { p with count := v.setWidth 16 <<< 8 }
  | .bothBytes, none => { p with low := some v }
  | .bothBytes, some low => { p with low := none, count := v ++ low }

/-- The clocks between two interrupts. -/
def period (p : Pit) : ℕ := if p.count = 0 then 65536 else p.count.toNat

instance : PortBus Pit where
  inb p _ := (0xFF, p)
  inw p _ := (0xFFFF, p)
  outb p port v :=
    if port = pitCommand then p.control v else if port = pitChannel0 then p.data v else p
  outw p _ _ := p

/-- What `timer_init` makes of the channel. -/
theorem pitStart_eq (frequency : U32) (p : Pit) : pitStart frequency p =
    ⟨3, .bothBytes, none, (inputFreq / frequency).setWidth 16⟩ := by
  have hbytes : ∀ d : U32, (((d >>> 8) &&& 0xFF).setWidth 8 ++ (d &&& 0xFF).setWidth 8 : U16) =
      d.setWidth 16 := by
    intro d
    ext i hi
    simp only [BitVec.getElem_append, BitVec.getElem_setWidth]
    split_ifs with h8
    · interval_cases i <;> simp
    · interval_cases i <;> simp_all
  rw [← hbytes]
  rfl

end Pit

/-- The divisor of a frequency above zero. -/
theorem toNat_inputFreq_div (frequency : U32) :
    (inputFreq / frequency).toNat = 1193182 / frequency.toNat := BitVec.toNat_udiv

/-- **The rate of the timer**: `timer_init(f)` leaves channel 0 as a square-wave generator, whatever
state it was in, and it divides the clock by `1193182 / f` exactly if `f` is from 19 Hz up to the
frequency of the clock. Below, the divisor does not fit its two bytes; above, it is 0, which counts
65536. IRQ0 is unmasked, and no other line. -/
theorem timer_init_divides_iff (frequency : U32) (h : frequency ≠ 0) (m : Machine Pit)
    (hmask : m.pics.master.expects = .mask) : ∃ d, timerInit frequency m = some d ∧
      d.rest.mode = 3 ∧ d.rest.low = none ∧
      (d.rest.period = 1193182 / frequency.toNat ↔
        19 ≤ frequency.toNat ∧ frequency.toNat ≤ 1193182) ∧
      d.pics = { m.pics with
        master := { m.pics.master with imr := m.pics.master.imr &&& ~~~0x01 } } := by
  obtain ⟨d, hd, hpics⟩ := pics_timerInit h hmask
  have hrest : d.rest = pitStart frequency m.rest := by
    rw [timerInit_eq h, Option.some_inj] at hd
    rw [← hd]
    rfl
  have hpos : 0 < frequency.toNat := by
    refine Nat.pos_of_ne_zero fun h0 => h (BitVec.eq_of_toNat_eq h0)
  refine ⟨d, hd, ?_, ?_, ?_, hpics⟩
  · rw [hrest, Pit.pitStart_eq]
  · rw [hrest, Pit.pitStart_eq]
  · have hcount : d.rest.count.toNat = 1193182 / frequency.toNat % 65536 := by
      rw [hrest, Pit.pitStart_eq, ← toNat_inputFreq_div, BitVec.toNat_setWidth]
    have hzero : d.rest.count = 0 ↔ d.rest.count.toNat = 0 :=
      ⟨fun h0 => congrArg BitVec.toNat h0, fun h0 => BitVec.eq_of_toNat_eq h0⟩
    have hhigh : 1193182 / frequency.toNat < 65536 ↔ 19 ≤ frequency.toNat := by
      rw [Nat.div_lt_iff_lt_mul hpos]
      omega
    have hlow : 1 ≤ 1193182 / frequency.toNat ↔ frequency.toNat ≤ 1193182 := by
      rw [Nat.le_div_iff_mul_le hpos, one_mul]
    have hgap : frequency.toNat < 19 → 66287 ≤ 1193182 / frequency.toNat := by
      rw [Nat.le_div_iff_mul_le hpos]
      omega
    rw [Pit.period, ← hlow]
    split_ifs with h0
    · -- the count is a multiple of 65536, and no quotient is 65536 itself
      rw [hzero, hcount] at h0
      omega
    · rw [hzero, hcount] at h0
      omega

/-- At 100 Hz, from a timer that waits for the high byte of a count. -/
theorem timer_init_divides_sample : ∃ d,
    timerInit 100 (⟨⟨remapped ⟨0, 0, 0, 0, 8, 4, false, false, true, .mask⟩ 32 4,
      remapped ⟨0, 0, 0, 0, 0x70, 2, false, false, true, .mask⟩ 40 2⟩,
      ⟨2, .bothBytes, some 0x34, 0⟩⟩ : Machine Pit) = some d ∧ d.rest.period = 11931 := by
  obtain ⟨d, hd, -, -, hperiod, -⟩ := timer_init_divides_iff 100 (by decide)
    (⟨⟨remapped ⟨0, 0, 0, 0, 8, 4, false, false, true, .mask⟩ 32 4,
      remapped ⟨0, 0, 0, 0, 0x70, 2, false, false, true, .mask⟩ 40 2⟩,
      ⟨2, .bothBytes, some 0x34, 0⟩⟩ : Machine Pit) rfl
  exact ⟨d, hd, hperiod.mpr (by decide)⟩

end OS44
