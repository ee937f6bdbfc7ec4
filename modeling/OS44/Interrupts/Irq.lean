import OS44.Interrupts.Panic
import OS44.Keyboard.Controller
import OS44.Keyboard.Keyboard
import OS44.Process.Process
import OS44.Timer.Pit

/-! # Interrupts of the devices (`isr_handler`, `pic_eoi`, `timer_handler`)

From `sti` on the devices raise and drop their lines at any time, the processor acknowledges an
interrupt whenever no handler runs, and `isr_handler` runs in between, while the lines go on
changing. For every such run, whatever the firmware left in the controllers:

* `isr_handler` is called with the vectors 32, 33 and 39 only, so that no interrupt of a device ends
  in `panic_report`; and nothing stays in service behind a handler (`irq_run_safe`).
* Every edge of the timer's line is counted once, or still waits, or was dropped before the
  processor asked for it (`irq_run_counts_ticks`). -/

namespace OS44

open PortBus I8259 Runs X86

section Handler

variable {D : Type} [PortBus D]

/-- The static variables that the handlers use, and the ports. -/
structure IrqKernel (D : Type) where
  dev : D
  timer : Timer
  keyboard : Keyboard
  /-- Ghost: the bytes that `keyboard_handler` has read from port `0x60`. -/
  scancodes : List U8

/-- `inb(0x60)` in `keyboard_handler`. -/
def readScancode (s : IrqKernel D) : U8 × IrqKernel D :=
  let (scancode, d) := inb s.dev 0x60
  (scancode, { s with dev := d, scancodes := s.scancodes ++ [scancode] })

/-- The bytes that `isr_handler` sends to COM1: the vector in decimal. -/
def isrLogText (v : U64) : List U8 :=
  chars "I=" ++ (if v = 0 then [48] else (decDigits 20 v).reverse) ++ chars "\n"

/-- The log of `isr_handler`. It does not wait for the transmitter. -/
def isrLog (v : U64) (d : D) : D := (isrLogText v).foldl (fun d c => outb d 0x3F8 c) d

/-- `isr_handler`; `none` is a `panic_report`, which does not return. -/
def isrHandlerRun (frame : IntrFrame) (s : IrqKernel D) : Option (IrqKernel D) :=
  let s := { s with dev := isrLog frame.vector s.dev }
  if frame.vector < 32 then none
  else if 32 ≤ frame.vector ∧ frame.vector < 48 then
    let s := { s with dev := picEoi frame.vector s.dev }
    if frame.vector = 32 + 0 then some { s with timer := timerHandler s.timer }
    else if frame.vector = 32 + 1 then
      let (scancode, s) := readScancode s
      some { s with keyboard := keyboardHandler s.keyboard scancode }
    else some s
  else if frame.vector = 0xFFFF then some s
  else none

/-- `isr_handler` comes back unless it calls `panic_report`. -/
theorem isSome_isrHandlerRun (frame : IntrFrame) (s : IrqKernel D) :
    (isrHandlerRun frame s).isSome = decide (isrHandler frame ≠ .panicReport) := by
  unfold isrHandlerRun isrHandler
  split_ifs <;> rfl

end Handler

/-! ## Runs -/

/-- The kernel from `sti` on, with what happened so far. -/
structure IrqState (D : Type) where
  kernel : IrqKernel (Machine D)
  /-- The vector whose handler runs, and the state that was interrupted. -/
  servicing : Option (U8 × Cpu)
  /-- The vectors that were handled. -/
  handled : List U8
  /-- The edges of the timer's line that became requests. -/
  edges : ℕ
  /-- The requests of the timer that were dropped before they were acknowledged. -/
  dropped : ℕ

/-- What can happen. -/
inductive IrqEvent
  /-- A device raises its line, at the slave or at the master. -/
  | raise (onSlave : Bool) (line : Fin 8)
  /-- A device drops its line. -/
  | drop (onSlave : Bool) (line : Fin 8)
  /-- The processor acknowledges an interrupt in this state. -/
  | acknowledge (cpu : Cpu)
  /-- `isr_handler` runs and the stub returns. -/
  | handle
  /-- The kernel reads a port of another device. -/
  | input (port : U16)
  /-- The kernel writes a port of another device. -/
  | output (port : U16) (v : U8)

section Runs

variable {D : Type}

/-- The two controllers. -/
def IrqState.pics (s : IrqState D) : Pair := s.kernel.dev.pics

/-- The timer's request is latched. -/
def timerPending (p : Pair) : Bool := p.master.irr.getLsbD 0

/-- The state with other controllers. -/
def IrqState.withPics (s : IrqState D) (p : Pair) : IrqState D :=
  { s with kernel := { s.kernel with dev := { s.kernel.dev with pics := p } } }

variable [PortBus D]

/-- The frame of an interrupt of a device. -/
def irqFrame (v : U8) (cpu : Cpu) : IntrFrame := interruptedFrame cpu (vectorField v.toNat) 0

/-- One event, or `none` if it is not possible now or does not come back. -/
def irqStep (s : IrqState D) : IrqEvent → Option (IrqState D)
  | .raise onSlave line =>
    let p := s.pics.raise onSlave line
    some { s.withPics p with
      edges := if timerPending p && !timerPending s.pics then s.edges + 1 else s.edges }
  | .drop onSlave line =>
    let p := s.pics.drop onSlave line
    some { s.withPics p with
      dropped := if timerPending s.pics && !timerPending p then s.dropped + 1 else s.dropped }
  | .acknowledge cpu =>
    match s.servicing with
    | some _ => none
    | none =>
      let (v, p) := s.pics.acknowledge
      some { s.withPics p with servicing := some (v, cpu) }
  | .handle =>
    match s.servicing with
    | none => none
    | some (v, cpu) => do
      let kernel ← isrHandlerRun (irqFrame v cpu) s.kernel
      some { s with
        kernel := kernel
        servicing := none
        handled := s.handled ++ [v] }
  | .input port =>
    if PicPort port ∨ s.servicing.isSome then none
    else some { s with kernel := { s.kernel with dev := (inb s.kernel.dev port).2 } }
  | .output port v =>
    if PicPort port ∨ s.servicing.isSome then none
    else some { s with kernel := { s.kernel with dev := outb s.kernel.dev port v } }

/-- Some lines go up or down. -/
def changeLines (p : Pair) (changes : List (Bool × Bool × Fin 8)) : Pair :=
  changes.foldl (fun p c => if c.1 then p.raise c.2.1 c.2.2 else p.drop c.2.1 c.2.2) p

/-- What `kernel_main` does to the ports before `sti`, as far as interrupts go, with lines that
change in between. -/
def bootPorts (changes₁ changes₂ : List (Bool × Bool × Fin 8)) (m : Machine D) :
    Option (Machine D) :=
  let m := intrInitPics m
  let m := keyboardInit { m with pics := changeLines m.pics changes₁ }
  timerInit 100 { m with pics := changeLines m.pics changes₂ }

/-- The kernel at `sti`. -/
def irqBoot (m : Machine D) : IrqState D where
  kernel := { dev := m, timer := ⟨0, 0⟩, keyboard := keyboardBoot, scancodes := [] }
  servicing := none
  handled := []
  edges := (timerPending m.pics).toNat
  dropped := 0

/-! ## One interrupt -/

theorem pics_isrLog (v : U64) (m : Machine D) : (isrLog v m).pics = m.pics := by
  have hport : ¬ PicPort 0x3F8 := by decide
  have hfold : ∀ (cs : List U8) (m : Machine D),
      (cs.foldl (fun d c => outb d 0x3F8 c) m).pics = m.pics := by
    intro cs
    induction cs with
    | nil => exact fun _ => rfl
    | cons c cs ih =>
      intro m
      rw [List.foldl_cons, ih, outb_rest hport]
  exact hfold _ m

/-- The frame holds the vector. -/
theorem vector_irqFrame {v : U8} (hv : v.toNat < 48) (cpu : Cpu) :
    (irqFrame v cpu).vector = v.setWidth 64 := by
  show vectorField v.toNat = v.setWidth 64
  rw [vectorField, if_pos hv]
  refine BitVec.eq_of_toNat_eq ?_
  rw [BitVec.toNat_ofNat, BitVec.toNat_setWidth]

/-- A vector of the frame, compared as `isr_handler` does. -/
theorem setWidth_eq_iff (v w : U8) : (v.setWidth 64 : U64) = w.setWidth 64 ↔ v = w := by
  refine ⟨fun h => BitVec.eq_of_toNat_eq ?_, fun h => h ▸ rfl⟩
  have := congrArg BitVec.toNat h
  rw [BitVec.toNat_setWidth, BitVec.toNat_setWidth] at this
  omega

/-- What the keyboard interrupt does to the flags: the handler runs once, on one byte that it
reads. -/
def KeyRead (v : U8) (k k' : IrqKernel (Machine D)) : Prop :=
  if v = 33 then
    ∃ b, k'.scancodes = k.scancodes ++ [b] ∧ k'.keyboard = keyboardHandler k.keyboard b
  else k'.scancodes = k.scancodes ∧ k'.keyboard = k.keyboard

/-- **`isr_handler` for a device**: it comes back, with the controllers as `pic_eoi` leaves them,
one more tick for vector 32 and one more byte for vector 33. -/
theorem isrHandlerRun_irq {v : U8} (hlo : 32 ≤ v.toNat) (hhi : v.toNat < 48) (cpu : Cpu)
    (k : IrqKernel (Machine D)) : ∃ k', isrHandlerRun (irqFrame v cpu) k = some k' ∧
      k'.dev.pics = (picEoi (v.setWidth 64) k.dev).pics ∧
      k'.timer = (if v = 32 then timerHandler k.timer else k.timer) ∧
      KeyRead v k k' := by
  have hnat : (v.setWidth 64 : U64).toNat = v.toNat := by
    rw [BitVec.toNat_setWidth]
    omega
  have hirq : (32 : U64) ≤ v.setWidth 64 ∧ v.setWidth 64 < (48 : U64) := by
    rw [BitVec.le_def, BitVec.lt_def, hnat]
    exact ⟨hlo, hhi⟩
  have hpics : (picEoi (v.setWidth 64) (isrLog (v.setWidth 64) k.dev)).pics =
      (picEoi (v.setWidth 64) k.dev).pics := by
    rw [picEoi_eq _ _ hlo hhi, picEoi_eq _ _ hlo hhi, pics_isrLog]
  have h32 : v.setWidth 64 = (32 + 0 : U64) ↔ v = 32 := setWidth_eq_iff v 32
  have h33 : v.setWidth 64 = (32 + 1 : U64) ↔ v = 33 := setWidth_eq_iff v 33
  unfold isrHandlerRun KeyRead
  simp only [vector_irqFrame hhi, if_neg (BitVec.not_lt.mpr hirq.1), if_pos hirq, h32, h33]
  by_cases hv : v = 32
  · have hne : ¬ v = 33 := by
      rw [hv]
      decide
    simp only [if_pos hv, if_neg hne]
    exact ⟨_, rfl, hpics, rfl, rfl, rfl⟩
  · by_cases hv' : v = 33
    · simp only [if_neg hv, if_pos hv', readScancode]
      refine ⟨_, rfl, ?_, rfl, _, rfl, rfl⟩
      rw [inb_rest (by decide)]
      exact hpics
    · simp only [if_neg hv, if_neg hv']
      exact ⟨_, rfl, hpics, rfl, rfl, rfl⟩

/-! ## What an acknowledgement finds -/

/-- The timer is let through, and besides at most the keyboard. -/
structure OnlyTwoLines (p : Pair) : Prop where
  timer : p.master.imr.getLsbD 0 = false
  master : ∀ i : Fin 8, p.master.imr.getLsbD i = false → i = 0 ∨ i = 1
  slave : p.slave.imr = 0xFF

/-- The vectors of the two lines, and of an interrupt that has gone. -/
def DeviceVector (v : U8) : Prop := v = 32 ∨ v = 33 ∨ v = 39

variable {p : Pair}

/-- **An acknowledgement takes the request of the timer or that of the keyboard, or finds none.** -/
theorem acknowledge_twoLines (hready : PicsReady p) (hlines : OnlyTwoLines p) :
    (∃ i : Fin 8, (i = 0 ∨ i = 1) ∧ p.master.request = some i ∧ p.acknowledge =
      (BitVec.ofNat 8 (32 + i), { p with master := { p.master with
        irr := p.master.irr &&& ~~~bit i
        isr := p.master.isr ||| bit i } })) ∨
    (p.master.request = none ∧ p.acknowledge = (39, p)) := by
  obtain ⟨i, hi, hack⟩ | ⟨hnone, hack⟩ := acknowledge_cases p.master
  · have hline := hlines.master i (of_request_eq_some hi).2
    have hne : i ≠ 2 := by
      obtain rfl | rfl := hline <;> decide
    rw [if_neg (by rw [hready.master.autoEoi_eq]; exact Bool.false_ne_true)] at hack
    refine .inl ⟨i, hline, hi, ?_⟩
    obtain ⟨-, hp⟩ | ⟨h2, -⟩ := acknowledge_pair_cases p
    · rw [hp, vector_master hready.master, hack]
    · rw [hack] at h2
      exact absurd h2 hne
  · refine .inr ⟨hnone, ?_⟩
    obtain ⟨-, hp⟩ | ⟨h2, -⟩ := acknowledge_pair_cases p
    · rw [hp, vector_master hready.master, hack]
      rfl
    · rw [hack] at h2
      exact absurd h2 (show (7 : Fin 8) ≠ 2 by decide)

theorem deviceVector_acknowledge (hready : PicsReady p) (hlines : OnlyTwoLines p) :
    DeviceVector p.acknowledge.1 ∧ OnlyTwoLines p.acknowledge.2 := by
  obtain ⟨i, rfl | rfl, -, h⟩ | ⟨-, h⟩ := acknowledge_twoLines hready hlines
  · rw [h]
    exact ⟨.inl rfl, hlines.timer, hlines.master, hlines.slave⟩
  · rw [h]
    exact ⟨.inr (.inl rfl), hlines.timer, hlines.master, hlines.slave⟩
  · rw [h]
    exact ⟨.inr (.inr rfl), hlines⟩

/-- **The request of the timer is taken exactly by its own vector.** -/
theorem timerPending_acknowledge (hready : PicsReady p) (hlines : OnlyTwoLines p) :
    (p.acknowledge.1 = 32 ∧ timerPending p = true ∧ timerPending p.acknowledge.2 = false) ∨
      (p.acknowledge.1 ≠ 32 ∧ timerPending p.acknowledge.2 = timerPending p) := by
  obtain ⟨i, rfl | rfl, hi, h⟩ | ⟨-, h⟩ := acknowledge_twoLines hready hlines
  · rw [h]
    refine .inl ⟨rfl, (of_request_eq_some hi).1, ?_⟩
    show (p.master.irr &&& ~~~bit 0).getLsbD 0 = false
    rw [BitVec.getLsbD_and, BitVec.getLsbD_not, show (bit 0).getLsbD 0 = true from rfl]
    exact Bool.and_false _
  · rw [h]
    refine .inr ⟨show (33 : U8) ≠ 32 by decide, ?_⟩
    show (p.master.irr &&& ~~~bit 1).getLsbD 0 = p.master.irr.getLsbD 0
    rw [BitVec.getLsbD_and, BitVec.getLsbD_not, show (bit 1).getLsbD 0 = false from rfl]
    exact Bool.and_true _
  · rw [h]
    exact .inr ⟨show (39 : U8) ≠ 32 by decide, rfl⟩

/-- The timer comes first. -/
theorem acknowledge_of_timerPending (hready : PicsReady p) (hlines : OnlyTwoLines p)
    (hquiet : Quiet p) (hpending : timerPending p = true) : p.acknowledge.1 = 32 := by
  have hlowest : ∀ b : U8, b.getLsbD 0 = true → I8259.lowest b = some 0 := by decide
  have hrequest : p.master.request = some 0 := by
    rw [request_of_isr_eq_zero hquiet.1]
    refine hlowest _ ?_
    have hirr : p.master.irr.getLsbD 0 = true := hpending
    rw [BitVec.getLsbD_and, BitVec.getLsbD_not, hlines.timer, hirr]
    rfl
  obtain ⟨i, -, hi, h⟩ | ⟨hnone, -⟩ := acknowledge_twoLines hready hlines
  · rw [hrequest, Option.some_inj] at hi
    rw [h, ← hi]
    rfl
  · rw [hrequest] at hnone
    exact absurd hnone (Option.some_ne_none 0)

/-! ## The lines change -/

/-- What is in service and what is masked is the same. -/
structure SameService (p q : Pair) : Prop where
  masterIsr : q.master.isr = p.master.isr
  slaveIsr : q.slave.isr = p.slave.isr
  masterImr : q.master.imr = p.master.imr
  slaveImr : q.slave.imr = p.slave.imr

variable {q : Pair}

theorem sameService_raise (p : Pair) (onSlave : Bool) (i : Fin 8) :
    SameService p (p.raise onSlave i) := by
  unfold Pair.raise Chip.raise
  split_ifs <;> exact ⟨rfl, rfl, rfl, rfl⟩

theorem sameService_drop (p : Pair) (onSlave : Bool) (i : Fin 8) :
    SameService p (p.drop onSlave i) := by
  unfold Pair.drop Chip.drop
  split_ifs <;> exact ⟨rfl, rfl, rfl, rfl⟩

theorem PicsReady.raise (h : PicsReady p) (onSlave : Bool) (i : Fin 8) :
    PicsReady (p.raise onSlave i) := by
  unfold Pair.raise
  split_ifs
  · exact ⟨h.master, h.slave.raise i⟩
  · exact ⟨h.master.raise i, h.slave⟩

theorem PicsReady.drop (h : PicsReady p) (onSlave : Bool) (i : Fin 8) :
    PicsReady (p.drop onSlave i) := by
  unfold Pair.drop
  split_ifs
  · exact ⟨h.master, h.slave.drop i⟩
  · exact ⟨h.master.drop i, h.slave⟩

theorem SameService.quiet (h : SameService p q) (hp : Quiet p) : Quiet q :=
  ⟨h.masterIsr.trans hp.1, h.slaveIsr.trans hp.2⟩

theorem SameService.inService (h : SameService p q) {v : U8} (hp : InService p v) :
    InService q v := by
  unfold InService AtMostOne at hp ⊢
  rw [h.masterIsr, h.slaveIsr]
  exact hp

theorem SameService.onlyTwoLines (h : SameService p q) (hp : OnlyTwoLines p) : OnlyTwoLines q :=
  ⟨h.masterImr ▸ hp.timer, fun i hi => hp.master i (h.masterImr ▸ hi), h.slaveImr.trans hp.slave⟩

/-- A request of the timer stays when lines go up. -/
theorem timerPending_raise (onSlave : Bool) (i : Fin 8) (h : timerPending p = true) :
    timerPending (p.raise onSlave i) = true := by
  have hirr : p.master.irr.getLsbD 0 = true := h
  unfold Pair.raise Chip.raise
  split_ifs
  · exact h
  · exact h
  · exact h
  · show (p.master.irr ||| bit i).getLsbD 0 = true
    rw [BitVec.getLsbD_or, hirr, Bool.true_or]

/-- No request of the timer comes when lines go down. -/
theorem timerPending_of_drop (onSlave : Bool) (i : Fin 8)
    (h : timerPending (p.drop onSlave i) = true) : timerPending p = true := by
  unfold Pair.drop at h
  split_ifs at h
  · exact h
  · have hirr : (p.master.irr &&& ~~~bit i).getLsbD 0 = true := h
    rw [BitVec.getLsbD_and, Bool.and_eq_true] at hirr
    exact hirr.1

/-! ## The invariant -/

/-- The vectors that were acknowledged, handled or not. -/
def IrqState.taken (s : IrqState D) : List U8 :=
  s.handled ++ (s.servicing.map Prod.fst).toList

/-- **The invariant of the runs.** -/
structure IrqInv (s : IrqState D) : Prop where
  ready : PicsReady s.pics
  lines : OnlyTwoLines s.pics
  quiet : s.servicing = none → Quiet s.pics
  inService : ∀ v cpu, s.servicing = some (v, cpu) → InService s.pics v
  taken : ∀ v ∈ s.taken, DeviceVector v
  timer : s.kernel.timer = timerHandler^[s.handled.count 32] ⟨0, 0⟩
  keyboard : s.kernel.scancodes.length = s.handled.count 33 ∧
    s.kernel.keyboard = s.kernel.scancodes.foldl keyboardHandler keyboardBoot
  edges : s.edges = s.dropped + s.taken.count 32 + (timerPending s.pics).toNat

variable {s s' : IrqState D}

omit [PortBus D] in
/-- Lines change while nothing else does. -/
theorem IrqInv.withPics (h : IrqInv s) (hready : PicsReady p) (hsame : SameService s.pics p)
    {edges dropped : ℕ}
    (hedges : edges = dropped + s.taken.count 32 + (timerPending p).toNat) :
    IrqInv { s.withPics p with edges := edges, dropped := dropped } where
  ready := hready
  lines := hsame.onlyTwoLines h.lines
  quiet hs := hsame.quiet (h.quiet hs)
  inService v cpu hs := hsame.inService (h.inService v cpu hs)
  taken := h.taken
  timer := h.timer
  keyboard := h.keyboard
  edges := hedges

omit [PortBus D] in
/-- Another device changes. -/
theorem IrqInv.withRest (h : IrqInv s) (d : D) :
    IrqInv { s with kernel := { s.kernel with dev := { s.kernel.dev with rest := d } } } :=
  ⟨h.ready, h.lines, h.quiet, h.inService, h.taken, h.timer, h.keyboard, h.edges⟩

theorem IrqInv.raise (h : IrqInv s) {onSlave : Bool} {line : Fin 8}
    (hs : irqStep s (.raise onSlave line) = some s') : IrqInv s' := by
  cases hs
  refine h.withPics (h.ready.raise onSlave line) (sameService_raise s.pics onSlave line) ?_
  show (if timerPending (s.pics.raise onSlave line) && !timerPending s.pics then s.edges + 1
    else s.edges) = s.dropped + _ + _
  have hedges := h.edges
  cases hb : timerPending s.pics with
  | true =>
    rw [hb] at hedges
    rw [timerPending_raise onSlave line hb]
    exact hedges
  | false =>
    rw [hb] at hedges
    cases timerPending (s.pics.raise onSlave line) with
    | true => exact congrArg (· + 1) hedges
    | false => exact hedges

theorem IrqInv.drop (h : IrqInv s) {onSlave : Bool} {line : Fin 8}
    (hs : irqStep s (.drop onSlave line) = some s') : IrqInv s' := by
  cases hs
  refine h.withPics (h.ready.drop onSlave line) (sameService_drop s.pics onSlave line) ?_
  show s.edges = (if timerPending s.pics && !timerPending (s.pics.drop onSlave line) then
    s.dropped + 1 else s.dropped) + _ + _
  have hedges := h.edges
  cases ha : timerPending (s.pics.drop onSlave line) with
  | true =>
    rw [timerPending_of_drop onSlave line ha] at hedges ⊢
    exact hedges
  | false =>
    cases hb : timerPending s.pics with
    | true =>
      rw [hb] at hedges
      show s.edges = s.dropped + 1 + s.taken.count 32 + 0
      rw [hedges, Bool.toNat_true]
      omega
    | false =>
      rw [hb] at hedges
      exact hedges

theorem IrqInv.acknowledge (h : IrqInv s) {cpu : Cpu}
    (hs : irqStep s (.acknowledge cpu) = some s') : IrqInv s' := by
  cases hnone : s.servicing with
  | some x =>
    simp [irqStep, hnone] at hs
  | none =>
    simp only [irqStep, hnone, Option.some.injEq] at hs
    subst hs
    have hquiet := h.quiet hnone
    obtain ⟨hservice, hready⟩ := inService_acknowledge h.ready hquiet
    obtain ⟨hvector, hlines⟩ := deviceVector_acknowledge h.ready h.lines
    have htaken : s.taken = s.handled := by
      simp [IrqState.taken, hnone]
    have hedges := h.edges
    rw [htaken] at hedges
    refine ⟨hready, hlines, fun hs => absurd hs (Option.some_ne_none _), ?_, ?_, h.timer,
      h.keyboard, ?_⟩
    · intro v c hv
      cases hv
      exact hservice
    · intro v hv
      obtain hv | hv := List.mem_append.mp hv
      · exact h.taken v (htaken ▸ hv)
      · rw [List.mem_singleton.mp hv]
        exact hvector
    · show s.edges = s.dropped + (s.handled ++ [s.pics.acknowledge.1]).count 32 +
        (timerPending s.pics.acknowledge.2).toNat
      rw [List.count_append]
      obtain ⟨hv, hb, ha⟩ | ⟨hv, ha⟩ := timerPending_acknowledge h.ready h.lines
      · rw [hb] at hedges
        rw [hv, ha, List.count_singleton_self]
        simpa [Nat.add_assoc] using hedges
      · rw [ha, List.count_singleton, if_neg (by simpa using hv)]
        exact hedges

/-- **A handler comes back**, and leaves nothing in service. -/
theorem IrqInv.handle (h : IrqInv s) (hne : s.servicing ≠ none) :
    ∃ s', irqStep s .handle = some s' ∧ IrqInv s' := by
  obtain ⟨⟨v, cpu⟩, hsome⟩ := Option.ne_none_iff_exists'.mp hne
  have hservice := h.inService v cpu hsome
  obtain ⟨hlo, hhi⟩ := hservice.bounds
  obtain ⟨k', hk', hpics, htimer, hkey⟩ := isrHandlerRun_irq hlo hhi cpu s.kernel
  have hstep : irqStep s .handle = some { s with
      kernel := k', servicing := none, handled := s.handled ++ [v] } := by
    simp only [irqStep, hsome, hk']
    rfl
  have htaken : s.taken = s.handled ++ [v] := by
    simp [IrqState.taken, hsome]
  have hquiet := quiet_picEoi hservice
  have hready := h.ready.picEoi hlo hhi
  have heoi := congrArg Machine.pics (picEoi_eq s.kernel.dev v hlo hhi)
  have hcount : ∀ w : U8, (s.handled ++ [v]).count w =
      s.handled.count w + if v = w then 1 else 0 := by
    intro w
    rw [List.count_append, List.count_singleton]
    simp only [beq_iff_eq]
  rw [← hpics] at hquiet hready heoi
  refine ⟨_, hstep, hready, ?_, fun _ => hquiet, fun _ _ hs => absurd hs.symm
    (Option.some_ne_none _), ?_, ?_, ?_, ?_⟩
  · have himr : k'.dev.pics.master.imr = s.pics.master.imr := by
      rw [heoi]
      exact imr_eoi _
    refine ⟨himr ▸ h.lines.timer, fun i hi => h.lines.master i (himr ▸ hi), ?_⟩
    · show k'.dev.pics.slave.imr = 0xFF
      rw [heoi]
      split_ifs
      · exact (imr_eoi _).trans h.lines.slave
      · exact h.lines.slave
  · intro w hw
    refine h.taken w ?_
    rw [htaken]
    simpa [IrqState.taken] using hw
  · show k'.timer = timerHandler^[(s.handled ++ [v]).count 32] ⟨0, 0⟩
    rw [htimer, h.timer, hcount]
    split_ifs
    · rw [Function.iterate_succ_apply']
    · rfl
  · obtain ⟨hlen, hflags⟩ := h.keyboard
    unfold KeyRead at hkey
    show k'.scancodes.length = (s.handled ++ [v]).count 33 ∧
      k'.keyboard = k'.scancodes.foldl keyboardHandler keyboardBoot
    rw [hcount]
    split_ifs at hkey ⊢ with hv
    · obtain ⟨b, hread, hb⟩ := hkey
      rw [hread, hb, hflags, List.foldl_concat, List.length_append, hlen, List.length_singleton]
      exact ⟨rfl, rfl⟩
    · rw [hkey.1, hkey.2]
      exact ⟨hlen, hflags⟩
  · have hpending : timerPending k'.dev.pics = timerPending s.pics := by
      show k'.dev.pics.master.irr.getLsbD 0 = s.pics.master.irr.getLsbD 0
      rw [heoi, irr_eoi]
      rfl
    have hedges := h.edges
    rw [htaken] at hedges
    show s.edges = s.dropped + _ + (timerPending k'.dev.pics).toNat
    rw [hpending, hedges]
    simp [IrqState.taken]

/-- **The invariant is kept by every event.** -/
theorem IrqInv.step (h : IrqInv s) {e : IrqEvent} (hs : irqStep s e = some s') : IrqInv s' := by
  cases e with
  | raise onSlave line => exact h.raise hs
  | drop onSlave line => exact h.drop hs
  | acknowledge cpu => exact h.acknowledge hs
  | handle =>
    have hne : s.servicing ≠ none := by
      intro hnone
      simp [irqStep, hnone] at hs
    obtain ⟨t, ht, hinv⟩ := h.handle hne
    rw [hs, Option.some_inj] at ht
    rw [ht]
    exact hinv
  | input port =>
    simp only [irqStep, Option.ite_none_left_eq_some, not_or, Option.some.injEq] at hs
    obtain ⟨⟨hport, -⟩, rfl⟩ := hs
    rw [inb_rest hport]
    exact h.withRest _
  | output port v =>
    simp only [irqStep, Option.ite_none_left_eq_some, not_or, Option.some.injEq] at hs
    obtain ⟨⟨hport, -⟩, rfl⟩ := hs
    rw [outb_rest hport]
    exact h.withRest _

/-! ## From boot on -/

/-- The masks of the two lines, before and after they are unmasked. -/
def BootMask (mask : U8) : Prop := mask = 0xFF ∨ mask = 0xFD ∨ mask = 0xFC ∨ mask = 0xFE

theorem BootMask.line {mask : U8} (h : BootMask mask) {i : Fin 8} (hi : mask.getLsbD i = false) :
    i = 0 ∨ i = 1 := by
  obtain rfl | rfl | rfl | rfl := h <;> revert i <;> decide

/-- The controllers between `intr_init` and `sti`. -/
structure BootPics (p : Pair) : Prop where
  ready : PicsReady p
  quiet : Quiet p
  master : BootMask p.master.imr
  slave : p.slave.imr = 0xFF

theorem BootPics.same (h : BootPics p) (hsame : SameService p q) (hready : PicsReady q) :
    BootPics q :=
  ⟨hready, hsame.quiet h.quiet, hsame.masterImr ▸ h.master, hsame.slaveImr.trans h.slave⟩

theorem BootPics.changeLines (h : BootPics p) (changes : List (Bool × Bool × Fin 8)) :
    BootPics (changeLines p changes) := by
  unfold OS44.changeLines
  induction changes generalizing p with
  | nil => exact h
  | cons c cs ih =>
    rw [List.foldl_cons]
    refine ih ?_
    split_ifs
    · exact h.same (sameService_raise p _ _) (h.ready.raise _ _)
    · exact h.same (sameService_drop p _ _) (h.ready.drop _ _)

/-- Line 0 or 1 is unmasked. -/
theorem BootPics.unmask {p : Pair} (h : BootPics p) {line : ℕ} (hline : line = 0 ∨ line = 1) :
    BootPics { p with
      master := { p.master with imr := p.master.imr &&& ~~~((1 : U8) <<< line) } } := by
  refine ⟨⟨⟨h.ready.master.base_eq, h.ready.master.cascade_eq, h.ready.master.autoEoi_eq,
    h.ready.master.expects_eq⟩, h.ready.slave⟩, h.quiet, ?_, h.slave⟩
  show BootMask (p.master.imr &&& ~~~((1 : U8) <<< line))
  unfold BootMask
  obtain h | h | h | h := h.master <;> rw [h] <;> obtain rfl | rfl := hline <;> decide

/-- **The controllers at `sti`**, whatever the firmware left in them and whatever answers at the
other ports. -/
theorem bootPics_bootPorts {m : Machine D} (hquiet : Quiet m.pics)
    (changes₁ changes₂ : List (Bool × Bool × Fin 8)) :
    ∃ booted, bootPorts changes₁ changes₂ m = some booted ∧ BootPics booted.pics ∧
      OnlyTwoLines booted.pics := by
  have h₀ : BootPics (intrInitPics m).pics := by
    rw [intrInitPics_eq]
    exact ⟨⟨programmed_remapped _ _ _, programmed_remapped _ _ _⟩, hquiet, .inl rfl, rfl⟩
  have h₁ := h₀.changeLines changes₁
  let m₁ : Machine D := { intrInitPics m with pics := changeLines (intrInitPics m).pics changes₁ }
  have h₂ : BootPics (keyboardInit m₁).pics := by
    rw [pics_keyboardInit h₁.ready.master.expects_eq]
    split_ifs
    · exact h₁.unmask (.inr rfl)
    · exact h₁
  have h₃ := h₂.changeLines changes₂
  let m₂ : Machine D := { keyboardInit m₁ with
    pics := changeLines (keyboardInit m₁).pics changes₂ }
  obtain ⟨booted, hbooted, hpics⟩ := pics_timerInit
    (show (100 : U32) ≠ 0 by decide)
    (show m₂.pics.master.expects = .mask from h₃.ready.master.expects_eq)
  have h₄ : BootPics booted.pics := by
    rw [hpics]
    exact h₃.unmask (.inl rfl)
  refine ⟨booted, hbooted, h₄, ?_, fun _ => h₄.master.line, h₄.slave⟩
  rw [hpics]
  show (m₂.pics.master.imr &&& ~~~((1 : U8) <<< 0)).getLsbD 0 = false
  rw [BitVec.getLsbD_and]
  exact Bool.and_false _

omit [PortBus D] in
theorem BootPics.irqInv {m : Machine D} (h : BootPics m.pics) (hlines : OnlyTwoLines m.pics) :
    IrqInv (irqBoot m) where
  ready := h.ready
  lines := hlines
  quiet _ := h.quiet
  inService _ _ hs := absurd hs.symm (Option.some_ne_none _)
  taken _ hv := absurd hv List.not_mem_nil
  timer := rfl
  keyboard := ⟨rfl, rfl⟩
  edges := by
    show (timerPending m.pics).toNat = 0 + 0 + (timerPending m.pics).toNat
    omega

/-- **The invariant holds in every state that a run from `sti` reaches.** -/
theorem irqInv_of_run {m : Machine D} (hquiet : Quiet m.pics)
    (changes₁ changes₂ : List (Bool × Bool × Fin 8)) : ∃ booted,
    bootPorts changes₁ changes₂ m = some booted ∧
    ∀ events s, run irqStep (irqBoot booted) events = some s → IrqInv s := by
  obtain ⟨booted, hbooted, hpics, hlines⟩ := bootPics_bootPorts hquiet changes₁ changes₂
  exact ⟨booted, hbooted, fun _ _ hrun => run_invariant (P := fun _ _ => True)
    (fun _ _ _ h _ hs => h.step hs) (hpics.irqInv hlines)
    (AllSteps.of_forall (fun _ _ => trivial) _ _) hrun⟩

/-- The ticks that were handled, in the variables of `timer.c`. -/
theorem timerHandler_iterate {n : ℕ} (hn : n < 2 ^ 64) :
    timerHandler^[n] ⟨0, 0⟩ = ⟨BitVec.ofNat 64 n, BitVec.ofNat 64 (n / 100)⟩ := by
  induction n with
  | zero => rfl
  | succ n ih =>
    rw [Function.iterate_succ_apply', ih (by omega)]
    have hticks : BitVec.ofNat 64 n + 1 = BitVec.ofNat 64 (n + 1) := (BitVec.ofNat_add n 1).symm
    have hmod : BitVec.ofNat 64 (n + 1) % 100 = 0 ↔ (n + 1) % 100 = 0 := by
      rw [← BitVec.toNat_inj, BitVec.toNat_umod, BitVec.toNat_ofNat, Nat.mod_eq_of_lt hn]
      rfl
    have hdiv : (n + 1) / 100 = if (n + 1) % 100 = 0 then n / 100 + 1 else n / 100 := by
      split_ifs <;> omega
    unfold timerHandler
    simp only [hticks, hmod, hdiv]
    split_ifs
    · exact congrArg (Timer.mk _) (BitVec.ofNat_add (n / 100) 1).symm
    · rfl

/-- **No interrupt of a device ends in a panic or blocks the next.** Whatever the firmware left in
the two controllers (with nothing in service), whatever answers at the other ports and however the
lines change at any time: in every state that a run from `sti` reaches, `isr_handler` has been
called and is called with the vectors 32 (timer), 33 (keyboard) and 39 (a request that has gone)
only; its current call comes back; and while no handler runs nothing is in service at either
controller. -/
theorem irq_run_safe (m : Machine D) (hquiet : Quiet m.pics)
    (changes₁ changes₂ : List (Bool × Bool × Fin 8)) : ∃ booted,
    bootPorts changes₁ changes₂ m = some booted ∧
    ∀ events s, run irqStep (irqBoot booted) events = some s →
      (∀ v ∈ s.taken, v = 32 ∨ v = 33 ∨ v = 39) ∧
      (s.servicing ≠ none → (irqStep s .handle).isSome) ∧
      (s.servicing = none → s.pics.master.isr = 0 ∧ s.pics.slave.isr = 0) := by
  obtain ⟨booted, hbooted, hinv⟩ := irqInv_of_run hquiet changes₁ changes₂
  refine ⟨booted, hbooted, fun events s hrun => ?_⟩
  have h := hinv events s hrun
  refine ⟨h.taken, fun hne => ?_, h.quiet⟩
  obtain ⟨s', hs', -⟩ := h.handle hne
  rw [hs']
  rfl

/-- A program to interrupt. -/
def sampleCpu : Cpu where
  reg _ := 0
  rip := 0x100000
  rflags := 0x202
  cs := 8
  ss := 16
  mem _ := 0

/-- A tick, as far as its acknowledgement. -/
theorem irq_run_safe_sample : ∃ booted s, bootPorts [] [] sampleController = some booted ∧
    run irqStep (irqBoot booted) [.raise false 0, .acknowledge sampleCpu] = some s ∧
    (∀ v ∈ s.taken, v = 32 ∨ v = 33 ∨ v = 39) ∧ (irqStep s .handle).isSome := by
  obtain ⟨booted, hbooted, h⟩ := irq_run_safe sampleController ⟨rfl, rfl⟩ [] []
  obtain ⟨hvectors, hhandle, -⟩ := h [.raise false 0, .acknowledge sampleCpu] _ rfl
  exact ⟨booted, _, hbooted, rfl, hvectors, hhandle (Option.some_ne_none _)⟩

/-- **Every edge of the timer's line is counted once.** In every state that a run from `sti`
reaches: the edges that became requests are those acknowledged, the one that waits, if any, and
those dropped before the processor asked; below 2^64 the ticks are the calls of `timer_handler` and
the uptime is the whole seconds in them; `keyboard_handler` has read one byte for each of its calls,
and the flags are what it makes of these bytes; and a request of the timer that waits is the next
that the processor is told. -/
theorem irq_run_counts_ticks (m : Machine D) (hquiet : Quiet m.pics)
    (changes₁ changes₂ : List (Bool × Bool × Fin 8)) : ∃ booted,
    bootPorts changes₁ changes₂ m = some booted ∧
    ∀ events s, run irqStep (irqBoot booted) events = some s →
      s.edges = s.dropped + s.taken.count 32 + (timerPending s.pics).toNat ∧
      (s.handled.count 32 < 2 ^ 64 →
        s.kernel.timer.timerTicks.toNat = s.handled.count 32 ∧
        s.kernel.timer.systemUptimeSeconds.toNat = s.handled.count 32 / 100) ∧
      (s.kernel.scancodes.length = s.handled.count 33 ∧
        s.kernel.keyboard = s.kernel.scancodes.foldl keyboardHandler keyboardBoot) ∧
      (timerPending s.pics = true → s.servicing = none → s.pics.acknowledge.1 = 32) := by
  obtain ⟨booted, hbooted, hinv⟩ := irqInv_of_run hquiet changes₁ changes₂
  refine ⟨booted, hbooted, fun events s hrun => ?_⟩
  have h := hinv events s hrun
  refine ⟨h.edges, fun hlt => ?_, h.keyboard, fun hpending hnone =>
    acknowledge_of_timerPending h.ready h.lines (h.quiet hnone) hpending⟩
  rw [h.timer, timerHandler_iterate hlt, BitVec.toNat_ofNat, BitVec.toNat_ofNat,
    Nat.mod_eq_of_lt hlt, Nat.mod_eq_of_lt ((Nat.div_le_self _ _).trans_lt hlt)]
  exact ⟨rfl, rfl⟩

/-- A tick, a key, and a tick that waits. -/
def tickAndKey : List IrqEvent :=
  let timer : Fin 8 := ⟨0, by decide⟩
  let keyboard : Fin 8 := ⟨1, by decide⟩
  [.raise false timer, .acknowledge sampleCpu, .handle, .drop false timer, .raise false keyboard,
    .acknowledge sampleCpu, .handle, .raise false timer]

theorem run_tickAndKey : ((bootPorts [] [] sampleController).bind fun booted =>
    (run irqStep (irqBoot booted) tickAndKey).map fun s =>
      (s.handled, timerPending s.pics, s.servicing.isSome)) = some ([32, 33], true, false) := by
  decide +kernel

theorem irq_run_counts_ticks_sample : ∃ booted s, bootPorts [] [] sampleController = some booted ∧
    run irqStep (irqBoot booted) tickAndKey = some s ∧
    s.kernel.timer.timerTicks.toNat = 1 ∧ s.kernel.scancodes.length = 1 ∧
    s.pics.acknowledge.1 = 32 := by
  obtain ⟨booted, hbooted, h⟩ := irq_run_counts_ticks sampleController ⟨rfl, rfl⟩ [] []
  have hrun := run_tickAndKey
  rw [hbooted, Option.bind_some, Option.map_eq_some_iff] at hrun
  obtain ⟨s, hs, hfacts⟩ := hrun
  obtain ⟨hhandled, hfacts⟩ := Prod.mk.inj hfacts
  obtain ⟨hpending, hservicing⟩ := Prod.mk.inj hfacts
  obtain ⟨-, hticks, ⟨hbytes, -⟩, hnext⟩ := h tickAndKey s hs
  rw [hhandled] at hticks hbytes
  exact ⟨booted, s, hbooted, hs, (hticks (by decide)).1, hbytes,
    hnext hpending (Option.isNone_iff_eq_none.mp (by simpa using hservicing))⟩

end Runs

end OS44
