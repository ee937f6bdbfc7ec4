import Mathlib.Logic.Function.Basic
import Mathlib.Tactic.SplitIfs
import OS44.BootInfo

/-! # The IDE driver (`ide.c`)

`ide_read_sectors` and `ide_write_sectors` talk to a drive through ports only, so the driver is
written for any device `D` behind the ports (`PortBus`). A buffer is an array of 16-bit words, 256
to a sector, the unit in which the driver moves it. -/

namespace OS44

/-- The devices behind the ports: each access answers and may change the device. -/
class PortBus (D : Type) where
  inb : D → U16 → U8 × D
  inw : D → U16 → U16 × D
  outb : D → U16 → U8 → D
  outw : D → U16 → U16 → D

open PortBus

/-- The device and the static variables of `ide.c`. -/
structure Ide (D : Type) where
  dev : D
  primaryMaster : U8
  primarySlave : U8
  secondaryMaster : U8
  secondarySlave : U8
  lastStatus : U8
  lastError : U8

/-- A buffer of words. -/
abbrev Buffer : Type := ℕ → U16

/-- `IDE_PRIMARY_BASE`. -/
def idePrimaryBase : U16 := 0x1F0

/-- `IDE_SECONDARY_BASE`. -/
def ideSecondaryBase : U16 := 0x170

/-- `IDE_CMD_READ_SECTORS`. -/
def ideCmdReadSectors : U8 := 0x20

/-- `IDE_CMD_WRITE_SECTORS`. -/
def ideCmdWriteSectors : U8 := 0x30

/-- The command that flushes the write cache. -/
def ideCmdFlush : U8 := 0xE7

/-- `IDE_STATUS_BSY`. -/
def ideStatusBsy : U8 := 0x80

/-- `IDE_STATUS_DRQ`. -/
def ideStatusDrq : U8 := 0x08

/-- `IDE_STATUS_ERR`. -/
def ideStatusErr : U8 := 0x01

section Driver

variable {D : Type}

/-- The driver's variables are those of `s`, but for what the device last answered. -/
def AnswersOnly (s s' : Ide D) : Prop :=
  ∃ d status error, s' = { s with dev := d, lastStatus := status, lastError := error }

theorem AnswersOnly.refl (s : Ide D) : AnswersOnly s s := ⟨s.dev, s.lastStatus, s.lastError, rfl⟩

theorem AnswersOnly.trans {s s' s'' : Ide D} (h : AnswersOnly s s') (h' : AnswersOnly s' s'') :
    AnswersOnly s s'' := by
  obtain ⟨d, status, error, rfl⟩ := h
  obtain ⟨d', status', error', rfl⟩ := h'
  exact ⟨d', status', error', rfl⟩

theorem answersOnly_dev (s : Ide D) (d : D) : AnswersOnly s { s with dev := d } :=
  ⟨d, s.lastStatus, s.lastError, rfl⟩

/-- A drive is one of the four and was found. -/
def Ide.Present (s : Ide D) (drive : U8) : Prop :=
  drive = 0 ∧ s.primaryMaster ≠ 0 ∨ drive = 1 ∧ s.primarySlave ≠ 0 ∨
    drive = 2 ∧ s.secondaryMaster ≠ 0 ∨ drive = 3 ∧ s.secondarySlave ≠ 0

theorem Ide.Present.after {s s' : Ide D} {drive : U8} (h : s.Present drive)
    (hs : AnswersOnly s s') : s'.Present drive := by
  obtain ⟨d, status, error, rfl⟩ := hs
  exact h

variable [PortBus D]

/-- `ide_select_drive`. -/
def ideSelectDrive (base : U16) (drive : U8) (d : D) : D := outb d (base + 6) (0xE0 ||| drive <<< 4)

/-- `ide_wait_400ns`: four reads of the status. -/
def ideWait400ns (base : U16) (d : D) : D :=
  let d := (inb d (base + 7)).2
  let d := (inb d (base + 7)).2
  let d := (inb d (base + 7)).2
  (inb d (base + 7)).2

/-- `ide_poll`, with `timeout` rounds to go. -/
def idePoll (base : U16) (advanced : Bool) : ℕ → Ide D → ℤ × Ide D
  | 0, s => (-1, s)
  | timeout + 1, s =>
    let (status, d) := inb s.dev (base + 7)
    let s := { s with dev := d }
    if status &&& ideStatusBsy ≠ 0 then idePoll base advanced timeout s
    else if advanced then
      if status &&& ideStatusErr ≠ 0 then
        let (error, d) := inb s.dev (base + 1)
        (-1, { s with dev := d, lastError := error, lastStatus := status })
      else if status &&& ideStatusDrq ≠ 0 then (0, { s with lastStatus := status })
      else idePoll base advanced timeout s
    else
      let s := { s with lastStatus := status }
      if status &&& ideStatusDrq ≠ 0 then (0, s)
      else if status &&& ideStatusErr ≠ 0 then
        let (error, d) := inb s.dev (base + 1)
        (-1, { s with dev := d, lastError := error })
      else (0, s)

/-- `ide_wait_ready_impl`. -/
def ideWaitReadyImpl (base : U16) (timeout : ℕ) (s : Ide D) : ℤ × Ide D :=
    idePoll base true timeout s

/-- The loop that reads `n` words into the buffer from index `k` on. -/
def readWords (base : U16) : ℕ → ℕ → Buffer → D → Buffer × D
  | 0, _, buf, d => (buf, d)
  | n + 1, k, buf, d =>
    let (v, d) := inw d base
    readWords base n (k + 1) (Function.update buf k v) d

/-- The loop that writes `n` words of the buffer from index `k` on. -/
def writeWords (base : U16) : ℕ → ℕ → Buffer → D → D
  | 0, _, _, d => d
  | n + 1, k, buf, d => writeWords base n (k + 1) buf (outw d base (buf k))

/-- The loop over the sectors, from sector `i` on and with `n` to go. -/
def transferSectors (base : U16) (write : Bool) : ℕ → ℕ → Buffer → Ide D → ℤ × Buffer × Ide D
  | 0, _, buf, s => (0, buf, s)
  | n + 1, i, buf, s =>
    let ready := ideWaitReadyImpl base 1000000 s
    let s := ready.2
    if ready.1 ≠ 0 then (-1, buf, s)
    else if write then
      let d := writeWords base 256 (i * 256) buf s.dev
      transferSectors base write n (i + 1) buf { s with dev := ideWait400ns base d }
    else
      let words := readWords base 256 (i * 256) buf s.dev
      transferSectors base write n (i + 1) words.1 { s with dev := ideWait400ns base words.2 }

/-- `base` of a drive. -/
def driveBase (drive : U8) : U16 :=
  if drive = 0 ∨ drive = 1 then idePrimaryBase else ideSecondaryBase

/-- `drive_sel` of a drive. -/
def driveSel (drive : U8) : U8 := if drive = 0 ∨ drive = 2 then 0 else 1

/-- A drive is one of the four and was not found. -/
def Ide.Absent (s : Ide D) (drive : U8) : Prop :=
  drive = 0 ∧ s.primaryMaster = 0 ∨ drive = 1 ∧ s.primarySlave = 0 ∨
    drive = 2 ∧ s.secondaryMaster = 0 ∨ drive = 3 ∧ s.secondarySlave = 0

instance (s : Ide D) (drive : U8) : Decidable (s.Absent drive) :=
    inferInstanceAs (Decidable (_ ∨ _))

omit [PortBus D] in
theorem Ide.Present.not_absent {s : Ide D} {drive : U8} (h : s.Present drive) :
    ¬ s.Absent drive := by
  rcases h with ⟨rfl, h⟩ | ⟨rfl, h⟩ | ⟨rfl, h⟩ | ⟨rfl, h⟩ <;> simpa [Ide.Absent] using h

/-- The registers of a request, and its command. -/
def issueCommand (base : U16) (sel : U8) (lba : U32) (count : U16) (write : Bool) (d : D) : D :=
  let d := ideSelectDrive base sel d
  let d := outb d (base + 1) 0
  let d := outb d (base + 2) (count.setWidth 8)
  let d := outb d (base + 3) ((lba &&& 0xFF).setWidth 8)
  let d := outb d (base + 4) (((lba >>> 8) &&& 0xFF).setWidth 8)
  let d := outb d (base + 5) (((lba >>> 16) &&& 0xFF).setWidth 8)
  let d := outb d (base + 6) (0xE0 ||| sel <<< 4 ||| ((lba >>> 24) &&& 0x0F).setWidth 8)
  outb d (base + 7) (if write then ideCmdWriteSectors else ideCmdReadSectors)

/-- `ide_read_write_sectors`: the result, the buffer and the new state. -/
def ideReadWriteSectors (s : Ide D) (drive : U8) (lba : U32) (count : U16) (buf : Buffer)
    (write : Bool) : ℤ × Buffer × Ide D :=
  if count = 0 then (0, buf, s)
  else
    let base := driveBase drive
    if s.Absent drive then (-1, buf, s)
    else
      let d := issueCommand base (driveSel drive) lba count write s.dev
      let r := transferSectors base write count.toNat 0 buf { s with dev := ideWait400ns base d }
      let s := r.2.2
      if r.1 ≠ 0 then r
      else if write then
        let s := { s with dev := outb s.dev (base + 7) ideCmdFlush }
        (0, r.2.1, (ideWaitReadyImpl base 1000000 s).2)
      else (0, r.2.1, s)

/-- `ide_read_sectors`. -/
def ideReadSectors (s : Ide D) (drive : U8) (lba : U32) (count : U16) (buf : Buffer) :
    ℤ × Buffer × Ide D :=
  ideReadWriteSectors s drive lba count buf false

/-- `ide_write_sectors`. -/
def ideWriteSectors (s : Ide D) (drive : U8) (lba : U32) (count : U16) (buf : Buffer) :
    ℤ × Buffer × Ide D :=
  ideReadWriteSectors s drive lba count buf true

/-! ## One round of the loop over the sectors -/

variable {base : U16} {n i : ℕ} {buf : Buffer} {s : Ide D}

theorem transferSectors_of_not_ready {write : Bool} (h : (ideWaitReadyImpl base 1000000 s).1 ≠ 0) :
    transferSectors base write (n + 1) i buf s = (-1, buf, (ideWaitReadyImpl base 1000000 s).2) :=
  if_pos h

theorem transferSectors_write (h : (ideWaitReadyImpl base 1000000 s).1 = 0) :
    transferSectors base true (n + 1) i buf s =
      let s' := (ideWaitReadyImpl base 1000000 s).2
      transferSectors base true n (i + 1) buf
        { s' with dev := ideWait400ns base (writeWords base 256 (i * 256) buf s'.dev) } :=
  if_neg (not_not.mpr h)

theorem transferSectors_read (h : (ideWaitReadyImpl base 1000000 s).1 = 0) :
    transferSectors base false (n + 1) i buf s =
      let s' := (ideWaitReadyImpl base 1000000 s).2
      transferSectors base false n (i + 1) (readWords base 256 (i * 256) buf s'.dev).1
        { s' with dev := ideWait400ns base (readWords base 256 (i * 256) buf s'.dev).2 } :=
  if_neg (not_not.mpr h)

/-! ## What a request keeps

A property of the device that every access to the ports of a channel keeps is
kept by the parts of a request after its command. -/

/-- A port is one of the eight of a channel. -/
def CommandBlock (base port : U16) : Prop := (port - base).toNat < 8

instance (base port : U16) : Decidable (CommandBlock base port) := Nat.decLt _ _

theorem commandBlock_base (base : U16) : CommandBlock base base := by
  rw [CommandBlock, BitVec.sub_self]
  decide

theorem commandBlock_add (base : U16) {r : U16} (h : r.toNat < 8) :
    CommandBlock base (base + r) := by
  rw [CommandBlock, BitVec.add_comm, BitVec.add_sub_cancel]
  exact h

theorem commandBlock_status (base : U16) : CommandBlock base (base + 7) :=
  commandBlock_add base (by decide)

theorem commandBlock_error (base : U16) : CommandBlock base (base + 1) :=
  commandBlock_add base (by decide)

variable {I : D → Prop}

theorem ideWait400ns_keeps (hinb : ∀ d p, CommandBlock base p → I d → I (inb d p).2) {d : D}
    (h : I d) : I (ideWait400ns base d) := by
  have hstatus : ∀ d, I d → I (inb d (base + 7)).2 :=
    fun d => hinb d (base + 7) (commandBlock_status base)
  exact hstatus _ (hstatus _ (hstatus _ (hstatus _ h)))

theorem idePoll_keeps (hinb : ∀ d p, CommandBlock base p → I d → I (inb d p).2) (advanced : Bool)
    (n : ℕ) {s : Ide D} (h : I s.dev) : I (idePoll base advanced n s).2.dev := by
  induction n generalizing s with
  | zero => exact h
  | succ n ih =>
    have hstatus := hinb _ (base + 7) (commandBlock_status base) h
    have herror := hinb _ (base + 1) (commandBlock_error base) hstatus
    simp only [idePoll]
    split_ifs
    · exact ih hstatus
    · exact herror
    · exact hstatus
    · exact ih hstatus
    · exact hstatus
    · exact herror
    · exact hstatus

theorem readWords_keeps (hinw : ∀ d p, CommandBlock base p → I d → I (inw d p).2) (n k : ℕ)
    (buf : Buffer) {d : D} (h : I d) : I (readWords base n k buf d).2 := by
  induction n generalizing k buf d with
  | zero => exact h
  | succ n ih => exact ih _ _ (hinw d base (commandBlock_base base) h)

theorem writeWords_keeps (houtw : ∀ d p v, CommandBlock base p → I d → I (outw d p v)) (n k : ℕ)
    (buf : Buffer) {d : D} (h : I d) : I (writeWords base n k buf d) := by
  induction n generalizing k d with
  | zero => exact h
  | succ n ih => exact ih _ (houtw d base _ (commandBlock_base base) h)

/-- **The loop over the sectors** keeps what every access keeps. -/
theorem transferSectors_keeps (base : U16)
    (hinb : ∀ d p, CommandBlock base p → I d → I (inb d p).2)
    (hinw : ∀ d p, CommandBlock base p → I d → I (inw d p).2)
    (houtw : ∀ d p v, CommandBlock base p → I d → I (outw d p v)) (write : Bool) (n i : ℕ)
    (buf : Buffer) {s : Ide D} (h : I s.dev) :
    I (transferSectors base write n i buf s).2.2.dev := by
  induction n generalizing i buf s with
  | zero => exact h
  | succ n ih =>
    have hpoll : I (ideWaitReadyImpl base 1000000 s).2.dev := idePoll_keeps hinb true 1000000 h
    by_cases hready : (ideWaitReadyImpl base 1000000 s).1 = 0
    · cases write with
      | true =>
        rw [transferSectors_write hready]
        refine ih _ _ ?_
        exact ideWait400ns_keeps hinb (writeWords_keeps houtw 256 _ buf hpoll)
      | false =>
        rw [transferSectors_read hready]
        refine ih _ _ ?_
        exact ideWait400ns_keeps hinb (readWords_keeps hinw 256 _ buf hpoll)
    · rw [transferSectors_of_not_ready hready]
      exact hpoll

/-- So does the command of a request. -/
theorem issueCommand_keeps (houtb : ∀ d p v, CommandBlock base p → I d → I (outb d p v)) (sel : U8)
    (lba : U32) (count : U16) (write : Bool) {d : D} (h : I d) :
    I (issueCommand base sel lba count write d) := by
  have hreg : ∀ (r : U16) d v, r.toNat < 8 → I d → I (outb d (base + r) v) :=
    fun r d v hr => houtb d (base + r) v (commandBlock_add base hr)
  exact hreg 7 _ _ (by decide) (hreg 6 _ _ (by decide) (hreg 5 _ _ (by decide)
    (hreg 4 _ _ (by decide) (hreg 3 _ _ (by decide) (hreg 2 _ _ (by decide)
      (hreg 1 _ _ (by decide) (hreg 6 _ _ (by decide) h)))))))

/-- **A whole request** keeps what every access to the ports of its channel keeps. -/
theorem ideReadWriteSectors_keeps (drive : U8)
    (hinb : ∀ d p, CommandBlock (driveBase drive) p → I d → I (inb d p).2)
    (hinw : ∀ d p, CommandBlock (driveBase drive) p → I d → I (inw d p).2)
    (houtb : ∀ d p v, CommandBlock (driveBase drive) p → I d → I (outb d p v))
    (houtw : ∀ d p v, CommandBlock (driveBase drive) p → I d → I (outw d p v)) (lba : U32)
    (count : U16) (buf : Buffer) (write : Bool) {s : Ide D} (h : I s.dev) :
    I (ideReadWriteSectors s drive lba count buf write).2.2.dev := by
  have hstart : I (ideWait400ns (driveBase drive)
      (issueCommand (driveBase drive) (driveSel drive) lba count write s.dev)) :=
    ideWait400ns_keeps hinb (issueCommand_keeps houtb _ lba count write h)
  have hloop := transferSectors_keeps (driveBase drive) hinb hinw houtw write count.toNat 0 buf
    (s := { s with dev := _ }) hstart
  simp only [ideReadWriteSectors]
  split_ifs
  · exact h
  · exact h
  · exact hloop
  · exact idePoll_keeps hinb true 1000000 (houtb _ _ _ (commandBlock_status _) hloop)
  · exact hloop

/-! ## What a request leaves in the driver -/

theorem answersOnly_idePoll (advanced : Bool) (n : ℕ) (s : Ide D) :
    AnswersOnly s (idePoll base advanced n s).2 := by
  induction n generalizing s with
  | zero => exact AnswersOnly.refl s
  | succ n ih =>
    simp only [idePoll]
    split_ifs
    · exact (answersOnly_dev s _).trans (ih _)
    · exact ⟨_, _, _, rfl⟩
    · exact ⟨_, _, _, rfl⟩
    · exact (answersOnly_dev s _).trans (ih _)
    · exact ⟨_, _, _, rfl⟩
    · exact ⟨_, _, _, rfl⟩
    · exact ⟨_, _, _, rfl⟩

theorem answersOnly_transferSectors (write : Bool) (n i : ℕ) (buf : Buffer) (s : Ide D) :
    AnswersOnly s (transferSectors base write n i buf s).2.2 := by
  induction n generalizing i buf s with
  | zero => exact AnswersOnly.refl s
  | succ n ih =>
    have hpoll : AnswersOnly s (ideWaitReadyImpl base 1000000 s).2 := answersOnly_idePoll true _ s
    by_cases hready : (ideWaitReadyImpl base 1000000 s).1 = 0
    · cases write with
      | true =>
        rw [transferSectors_write hready]
        exact (hpoll.trans (answersOnly_dev _ _)).trans (ih _ _ _)
      | false =>
        rw [transferSectors_read hready]
        exact (hpoll.trans (answersOnly_dev _ _)).trans (ih _ _ _)
    · rw [transferSectors_of_not_ready hready]
      exact hpoll

/-- **A request changes nothing in the driver** but what the device last answered. -/
theorem answersOnly_ideReadWriteSectors (s : Ide D) (drive : U8) (lba : U32) (count : U16)
    (buf : Buffer) (write : Bool) :
    AnswersOnly s (ideReadWriteSectors s drive lba count buf write).2.2 := by
  simp only [ideReadWriteSectors]
  split_ifs
  · exact AnswersOnly.refl s
  · exact AnswersOnly.refl s
  · exact (answersOnly_dev s _).trans (answersOnly_transferSectors _ _ _ _ _)
  · exact (((answersOnly_dev s _).trans (answersOnly_transferSectors _ _ _ _ _)).trans
      (answersOnly_dev _ _)).trans (answersOnly_idePoll true _ _)
  · exact (answersOnly_dev s _).trans (answersOnly_transferSectors _ _ _ _ _)

end Driver

end OS44
