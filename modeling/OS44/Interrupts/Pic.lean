import OS44.Ide.Ide
import OS44.Library.I8259

/-! # The interrupt controllers (`interrupts.c`)

The kernel talks to the two controllers through ports. A `Machine` is the pair of them with whatever
answers at the other ports. `intr_init` programs both from any state the firmware left them in
(`intrInitPics_eq`), and `pic_eoi` sends the commands that end the service of a vector
(`quiet_picEoi`). -/

namespace OS44

open PortBus I8259

/-- `PIC1_COMMAND`. -/
def pic1Command : U16 := 0x20

/-- `PIC1_DATA`. -/
def pic1Data : U16 := 0x21

/-- `PIC2_COMMAND`. -/
def pic2Command : U16 := 0xA0

/-- `PIC2_DATA`. -/
def pic2Data : U16 := 0xA1

/-- `PIC_EOI`. -/
def picEoiCommand : U8 := 0x20

/-- `ICW1_INIT`. -/
def icw1Init : U8 := 0x11

/-- `ICW4_8086`. -/
def icw4Mode8086 : U8 := 0x01

section Driver

variable {D : Type} [PortBus D]

/-- `pic_remap`. -/
def picRemap (offset1 offset2 : U8) (d : D) : D :=
  let (mask1, d) := inb d pic1Data
  let (mask2, d) := inb d pic2Data
  let d := outb d pic1Command icw1Init
  let d := outb d pic2Command icw1Init
  let d := outb d pic1Data offset1
  let d := outb d pic2Data offset2
  let d := outb d pic1Data 4
  let d := outb d pic2Data 2
  let d := outb d pic1Data icw4Mode8086
  let d := outb d pic2Data icw4Mode8086
  let d := outb d pic1Data mask1
  outb d pic2Data mask2

/-- What `intr_init` does to the controllers. -/
def intrInitPics (d : D) : D :=
  let d := picRemap 32 (32 + 8) d
  let d := outb d pic1Data 0xFF
  outb d pic2Data 0xFF

/-- `pic_eoi`. -/
def picEoi (vector : U64) (d : D) : D :=
  if 32 ≤ vector ∧ vector < 48 then
    let d := if 40 ≤ vector then outb d pic2Command picEoiCommand else d
    outb d pic1Command picEoiCommand
  else d

/-- `mask = inb(PIC1_DATA); mask &= ~(1 << line); outb(PIC1_DATA, mask)`, as `timer_init` and
`keyboard_init` have it. -/
def unmaskLine (line : ℕ) (d : D) : D :=
  let (mask, d) := inb d pic1Data
  outb d pic1Data (mask &&& ~~~((1 : U8) <<< line))

end Driver

/-! ## The machine -/

/-- The two controllers, and what answers at the other ports. -/
structure Machine (D : Type) where
  pics : Pair
  rest : D

/-- A port of one of the controllers. -/
def PicPort (port : U16) : Prop :=
  port = pic1Command ∨ port = pic1Data ∨ port = pic2Command ∨ port = pic2Data

instance (port : U16) : Decidable (PicPort port) := inferInstanceAs (Decidable (_ ∨ _))

section Machine

variable {D : Type} [PortBus D]

instance : PortBus (Machine D) where
  inb m port :=
    if port = pic1Command then (m.pics.master.irr, m)
    else if port = pic1Data then (m.pics.master.imr, m)
    else if port = pic2Command then (m.pics.slave.irr, m)
    else if port = pic2Data then (m.pics.slave.imr, m)
    else
      let (v, d) := inb m.rest port
      (v, { m with rest := d })
  inw m port :=
    let (v, d) := inw m.rest port
    (v, { m with rest := d })
  outb m port v :=
    if port = pic1Command then
      { m with pics := { m.pics with master := m.pics.master.command v } }
    else if port = pic1Data then
      { m with pics := { m.pics with master := m.pics.master.data v } }
    else if port = pic2Command then
      { m with pics := { m.pics with slave := m.pics.slave.command v } }
    else if port = pic2Data then
      { m with pics := { m.pics with slave := m.pics.slave.data v } }
    else { m with rest := outb m.rest port v }
  outw m port v := { m with rest := outw m.rest port v }

variable {m : Machine D} {port : U16}

@[simp] theorem inb_pic1Data (m : Machine D) : inb m pic1Data = (m.pics.master.imr, m) := rfl

@[simp] theorem inb_pic2Data (m : Machine D) : inb m pic2Data = (m.pics.slave.imr, m) := rfl

@[simp] theorem outb_pic1Command (m : Machine D) (v : U8) : outb m pic1Command v =
    { m with pics := { m.pics with master := m.pics.master.command v } } := rfl

@[simp] theorem outb_pic1Data (m : Machine D) (v : U8) : outb m pic1Data v =
    { m with pics := { m.pics with master := m.pics.master.data v } } := rfl

@[simp] theorem outb_pic2Command (m : Machine D) (v : U8) : outb m pic2Command v =
    { m with pics := { m.pics with slave := m.pics.slave.command v } } := rfl

@[simp] theorem outb_pic2Data (m : Machine D) (v : U8) : outb m pic2Data v =
    { m with pics := { m.pics with slave := m.pics.slave.data v } } := rfl

/-- A port of the rest is read there. -/
theorem inb_rest (h : ¬ PicPort port) : inb m port =
    ((inb m.rest port).1, { m with rest := (inb m.rest port).2 }) := by
  simp only [PicPort, not_or] at h
  show (if port = pic1Command then _ else _) = _
  rw [if_neg h.1, if_neg h.2.1, if_neg h.2.2.1, if_neg h.2.2.2]

/-- A port of the rest is written there. -/
theorem outb_rest (h : ¬ PicPort port) (v : U8) :
    outb m port v = { m with rest := outb m.rest port v } := by
  simp only [PicPort, not_or] at h
  show (if port = pic1Command then _ else _) = _
  rw [if_neg h.1, if_neg h.2.1, if_neg h.2.2.1, if_neg h.2.2.2]

/-! ## Programming and service -/

/-- A controller as `intr_init` leaves it: programmed, and with everything masked. -/
def remapped (c : Chip) (base cascade : U8) : Chip :=
  { c with
    irr := 0
    imr := 0xFF
    base := base
    cascade := cascade
    autoEoi := false
    single := false
    hasIcw4 := true
    expects := .mask }

/-- **`intr_init` programs both controllers**, whatever the firmware left in them: the vectors 32 to
47, with all of them masked. Nothing else is touched. -/
theorem intrInitPics_eq (m : Machine D) : intrInitPics m = { m with
    pics := { master := remapped m.pics.master 32 4, slave := remapped m.pics.slave 40 2 } } := rfl

theorem programmed_remapped (c : Chip) (base cascade : U8) :
    (remapped c base cascade).Programmed base cascade := ⟨rfl, rfl, rfl, rfl⟩

/-- A programmed master gets a mask with the bit of the line taken away. -/
theorem unmaskLine_eq (h : m.pics.master.expects = .mask) (line : ℕ) : unmaskLine line m = { m with
    pics := { m.pics with
      master := { m.pics.master with imr := m.pics.master.imr &&& ~~~((1 : U8) <<< line) } } } := by
  unfold unmaskLine
  rw [inb_pic1Data]
  show outb m pic1Data _ = _
  rw [outb_pic1Data, data_of_mask h]

/-- The controllers as `intr_init` has programmed them, with any masks. -/
structure PicsReady (p : Pair) : Prop where
  master : p.master.Programmed 32 4
  slave : p.slave.Programmed 40 2

/-- Nothing is in service. -/
def Quiet (p : Pair) : Prop := p.master.isr = 0 ∧ p.slave.isr = 0

variable {p : Pair}

/-- The vectors of the master. -/
theorem vector_master (h : p.master.Programmed 32 4) (i : Fin 8) :
    p.master.vector i = BitVec.ofNat 8 (32 + i) := by
  rw [Chip.vector, h.base_eq]
  revert i
  decide

/-- The vectors of the slave. -/
theorem vector_slave (h : p.slave.Programmed 40 2) (i : Fin 8) :
    p.slave.vector i = BitVec.ofNat 8 (40 + i) := by
  rw [Chip.vector, h.base_eq]
  revert i
  decide

/-- **What an acknowledgement does to the pair**: the master answers for its own input, or for the
slave behind input 2. -/
theorem acknowledge_pair_cases (p : Pair) :
    (p.master.acknowledge.1 ≠ 2 ∧ p.acknowledge =
      (p.master.vector p.master.acknowledge.1, { p with master := p.master.acknowledge.2 })) ∨
    (p.master.acknowledge.1 = 2 ∧ p.acknowledge = (p.slave.vector p.slave.acknowledge.1,
      { master := p.master.acknowledge.2, slave := p.slave.acknowledge.2 })) := by
  have hvector : ∀ (c : Chip) (i : Fin 8), c.acknowledge.2.vector i = c.vector i := by
    intro c i
    obtain ⟨j, -, hj⟩ | ⟨-, hnone⟩ := acknowledge_cases c
    · rw [hj]
      rfl
    · rw [hnone]
  unfold Pair.acknowledge
  by_cases h2 : p.master.acknowledge.1 = 2
  · right
    refine ⟨h2, ?_⟩
    simp only [h2, if_true, hvector]
  · left
    refine ⟨h2, ?_⟩
    simp only [h2, if_false, hvector]

/-- At most one interrupt is in service. -/
def AtMostOne (c : Chip) : Prop := c.isr = 0 ∨ ∃ i, c.isr = bit i

theorem isr_eoi_of_atMostOne {c : Chip} (h : AtMostOne c) : c.eoi.isr = 0 := by
  obtain h0 | ⟨i, hi⟩ := h
  · rw [eoi_of_isr_eq_zero h0]
    exact h0
  · rw [isr_eoi_of_isr_eq_bit hi]

/-- **What is in service while a vector is handled**: at most one interrupt of the controller that
handed it out, and of the master for a vector of the slave. -/
def InService (p : Pair) (v : U8) : Prop :=
  (32 ≤ v.toNat ∧ v.toNat < 40 ∧ AtMostOne p.master ∧ p.slave.isr = 0) ∨
    (40 ≤ v.toNat ∧ v.toNat < 48 ∧ AtMostOne p.master ∧ AtMostOne p.slave)

theorem InService.bounds {v : U8} (h : InService p v) : 32 ≤ v.toNat ∧ v.toNat < 48 := by
  obtain ⟨hlo, hhi, -⟩ | ⟨hlo, hhi, -⟩ := h
  · exact ⟨hlo, by omega⟩
  · exact ⟨by omega, hhi⟩

/-- An acknowledgement while nothing is in service. -/
theorem inService_acknowledge (hready : PicsReady p) (hquiet : Quiet p) :
    InService p.acknowledge.2 p.acknowledge.1 ∧ PicsReady p.acknowledge.2 := by
  have hone : ∀ {c : Chip}, c.autoEoi = false → c.isr = 0 → AtMostOne c.acknowledge.2 :=
    fun hauto h => (isr_acknowledge hauto h).imp id fun hbit => ⟨_, hbit⟩
  have hmaster := hone hready.master.autoEoi_eq hquiet.1
  have hslave := hone hready.slave.autoEoi_eq hquiet.2
  have hlt : ∀ i : Fin 8, (i : ℕ) < 8 := Fin.isLt
  obtain ⟨-, h⟩ | ⟨-, h⟩ := acknowledge_pair_cases p
  · have hi := hlt p.master.acknowledge.1
    rw [h, vector_master hready.master]
    refine ⟨.inl ⟨?_, ?_, hmaster, hquiet.2⟩, hready.master.acknowledge, hready.slave⟩
    · rw [BitVec.toNat_ofNat]
      omega
    · rw [BitVec.toNat_ofNat]
      omega
  · have hj := hlt p.slave.acknowledge.1
    rw [h, vector_slave hready.slave]
    refine ⟨.inr ⟨?_, ?_, hmaster, hslave⟩, hready.master.acknowledge, hready.slave.acknowledge⟩
    · rw [BitVec.toNat_ofNat]
      omega
    · rw [BitVec.toNat_ofNat]
      omega

/-- What `pic_eoi` does to the pair. -/
theorem picEoi_eq (m : Machine D) (v : U8) (hlo : 32 ≤ v.toNat) (hhi : v.toNat < 48) :
    picEoi (v.setWidth 64) m = { m with pics := {
      master := m.pics.master.eoi
      slave := if 40 ≤ v.toNat then m.pics.slave.eoi else m.pics.slave } } := by
  have hnat : (v.setWidth 64 : U64).toNat = v.toNat := by
    rw [BitVec.toNat_setWidth]
    omega
  have hirq : (32 : U64) ≤ v.setWidth 64 ∧ v.setWidth 64 < (48 : U64) := by
    rw [BitVec.le_def, BitVec.lt_def, hnat]
    exact ⟨hlo, hhi⟩
  have hslave : (40 : U64) ≤ v.setWidth 64 ↔ 40 ≤ v.toNat := by
    rw [BitVec.le_def, hnat]
    rfl
  unfold picEoi
  rw [if_pos hirq]
  by_cases h40 : 40 ≤ v.toNat
  · rw [if_pos (hslave.mpr h40), if_pos h40]
    rfl
  · rw [if_neg fun h => h40 (hslave.mp h), if_neg h40]
    rfl

/-- **`pic_eoi` ends the service of a vector**: nothing is in service behind it, whichever
controller handed the vector out and also when there was no request. -/
theorem quiet_picEoi {m : Machine D} {v : U8} (h : InService m.pics v) :
    Quiet (picEoi (v.setWidth 64) m).pics := by
  rw [picEoi_eq m v h.bounds.1 h.bounds.2]
  obtain ⟨-, hhi, hmaster, hslave⟩ | ⟨hlo, -, hmaster, hslave⟩ := h
  · refine ⟨isr_eoi_of_atMostOne hmaster, ?_⟩
    rw [if_neg (Nat.not_le.mpr hhi)]
    exact hslave
  · refine ⟨isr_eoi_of_atMostOne hmaster, ?_⟩
    rw [if_pos hlo]
    exact isr_eoi_of_atMostOne hslave

theorem PicsReady.picEoi {m : Machine D} {v : U8} (h : PicsReady m.pics) (hlo : 32 ≤ v.toNat)
    (hhi : v.toNat < 48) : PicsReady (picEoi (v.setWidth 64) m).pics := by
  rw [picEoi_eq m v hlo hhi]
  refine ⟨h.master.eoi, ?_⟩
  split_ifs
  · exact h.slave.eoi
  · exact h.slave

end Machine

end OS44
