import OS44.Framebuffer.Framebuffer
import OS44.Ide.Identify
import OS44.Shell.Text

/-! # Finding the drives (`ide.c`)

`ide_init` asks each of the four drives to identify itself, one after another and into the same
record, and notes which of them answer and how many sectors they have. The lines it sends to the
serial port are in `ideInitLogged`. -/

namespace OS44

open PortBus

/-- `IDE_PRIMARY_CTRL`. -/
def idePrimaryCtrl : U16 := 0x3F6

/-- `IDE_SECONDARY_CTRL`. -/
def ideSecondaryCtrl : U16 := 0x376

/-- `ide_primary_master_sectors` and its siblings. -/
structure DriveSectors where
  primaryMaster : U32
  primarySlave : U32
  secondaryMaster : U32
  secondarySlave : U32
  deriving DecidableEq, Repr

/-- The four drives. -/
inductive DriveSlot
  | primaryMaster
  | primarySlave
  | secondaryMaster
  | secondarySlave
  deriving DecidableEq, Repr

/-- The base port of its channel. -/
def DriveSlot.base : DriveSlot → U16
  | .primaryMaster | .primarySlave => idePrimaryBase
  | .secondaryMaster | .secondarySlave => ideSecondaryBase

/-- Its number on the channel. -/
def DriveSlot.sel : DriveSlot → U8
  | .primaryMaster | .secondaryMaster => 0
  | .primarySlave | .secondarySlave => 1

/-- Its name in the messages. -/
def DriveSlot.name : DriveSlot → String
  | .primaryMaster => "Primary Master"
  | .primarySlave => "Primary Slave"
  | .secondaryMaster => "Secondary Master"
  | .secondarySlave => "Secondary Slave"

/-- Where its message is drawn. -/
def DriveSlot.y : DriveSlot → U64
  | .primaryMaster => 272
  | .primarySlave => 304
  | .secondaryMaster => 320
  | .secondarySlave => 336

/-- The drives in the order they are asked. -/
def driveSlots : List DriveSlot :=
  [.primaryMaster, .primarySlave, .secondaryMaster, .secondarySlave]

/-- `ide_primary_master_sectors` for the primary master, and so on. -/
def DriveSectors.get (t : DriveSectors) : DriveSlot → U32
  | .primaryMaster => t.primaryMaster
  | .primarySlave => t.primarySlave
  | .secondaryMaster => t.secondaryMaster
  | .secondarySlave => t.secondarySlave

def DriveSectors.set (t : DriveSectors) (slot : DriveSlot) (n : U32) : DriveSectors :=
  match slot with
  | .primaryMaster => { t with primaryMaster := n }
  | .primarySlave => { t with primarySlave := n }
  | .secondaryMaster => { t with secondaryMaster := n }
  | .secondarySlave => { t with secondarySlave := n }

section Init

variable {D : Type}

/-- `ide_primary_master` for the primary master, and so on. -/
def Ide.flag (s : Ide D) : DriveSlot → U8
  | .primaryMaster => s.primaryMaster
  | .primarySlave => s.primarySlave
  | .secondaryMaster => s.secondaryMaster
  | .secondarySlave => s.secondarySlave

/-- `ide_primary_master = 1` for the primary master, and so on. -/
def Ide.setPresent (s : Ide D) : DriveSlot → Ide D
  | .primaryMaster => { s with primaryMaster := 1 }
  | .primarySlave => { s with primarySlave := 1 }
  | .secondaryMaster => { s with secondaryMaster := 1 }
  | .secondarySlave => { s with secondarySlave := 1 }

/-- What `ide_init` works on: the driver, the record and the calls to the framebuffer. -/
structure IdeInit (D : Type) where
  ide : Ide D
  sectors : DriveSectors
  identify : IdeIdentify
  drawn : List DrawCall

/-- A message. -/
def ideMessage (str : String) (y : U64) (color : U32) : DrawCall :=
  .drawString (chars str) 16 y color fbColorBlack

/-- `msg`: the model up to its first NUL, as far as there is room. -/
def modelMessage (identify : IdeIdentify) : List U8 :=
  chars "IDE: Model: " ++ ((identify.modelNumber ++ [0]).takeWhile (· ≠ 0)).take (79 - 12)

/-- The messages about a drive that answers. -/
def detectedMessages (slot : DriveSlot) (identify : IdeIdentify) : List DrawCall :=
  ideMessage ("IDE: " ++ slot.name ++ " detected") slot.y fbColorGreen ::
    if slot = .primaryMaster then
      [.drawString (modelMessage identify) 16 288 fbColorWhite fbColorBlack]
    else []

/-- What is noted of a drive: its flag and its sectors. -/
def IdeInit.noted (t : IdeInit D) (slot : DriveSlot) : U8 × U32 :=
  (t.ide.flag slot, t.sectors.get slot)

section Noted

variable {slot slot' : DriveSlot}

theorem DriveSectors.get_set (t : DriveSectors) (n : U32) : (t.set slot n).get slot = n := by
  cases slot <;> rfl

theorem DriveSectors.get_set_of_ne (t : DriveSectors) (n : U32) (h : slot ≠ slot') :
    (t.set slot n).get slot' = t.get slot' := by
  cases slot <;> cases slot' <;> first | rfl | exact absurd rfl h

theorem dev_setPresent (s : Ide D) : (s.setPresent slot).dev = s.dev := by
  cases slot <;> rfl

theorem flag_setPresent (s : Ide D) : (s.setPresent slot).flag slot = 1 := by
  cases slot <;> rfl

theorem flag_setPresent_of_ne (s : Ide D) (h : slot ≠ slot') :
    (s.setPresent slot).flag slot' = s.flag slot' := by
  cases slot <;> cases slot' <;> first | rfl | exact absurd rfl h

theorem AnswersOnly.flag {s s' : Ide D} (h : AnswersOnly s s') (slot : DriveSlot) :
    s'.flag slot = s.flag slot := by
  obtain ⟨d, status, error, rfl⟩ := h
  cases slot <;> rfl

end Noted

variable [PortBus D]

/-- Select a drive and send `IDE_CMD_IDENTIFY`: the status. -/
def identifyCommand (base : U16) (sel : U8) (s : Ide D) : U8 × Ide D :=
  let d := ideSelectDrive base sel s.dev
  let d := outb d (base + 2) 0
  let d := outb d (base + 3) 0
  let d := outb d (base + 4) 0
  let d := outb d (base + 5) 0
  let d := outb d (base + 7) ideCmdIdentify
  let status := inb d (base + 7)
  (status.1, { s with dev := status.2 })

/-- Wait, and read the words of the record. -/
def readIdentify (base : U16) (identify : IdeIdentify) (s : Ide D) : IdeIdentify × Ide D :=
  let s := (ideWaitReadyImpl base 100000 s).2
  let words := readWords base 256 0 (fun _ => 0) s.dev
  (fun j => if j < 512 then bufferByte words.1 j else identify j, { s with dev := words.2 })

/-- `ide_init` for a drive. -/
def ideInitDrive (t : IdeInit D) (slot : DriveSlot) : IdeInit D :=
  let status := identifyCommand slot.base slot.sel t.ide
  if status.1 ≠ 0 then
    let r := readIdentify slot.base t.identify status.2
    { ide := r.2.setPresent slot
      sectors := t.sectors.set slot r.1.totalLba28
      identify := r.1
      drawn := t.drawn ++ detectedMessages slot r.1 }
  else
    { t with
      ide := status.2
      drawn := t.drawn ++ [ideMessage ("IDE: No " ++ slot.name) slot.y fbColorRed] }

/-- `ide_init` up to the first drive. -/
def ideInitStart (identify : IdeIdentify) (s : Ide D) (sectors : DriveSectors) : IdeInit D :=
  let d := outb s.dev (idePrimaryCtrl + 2) 0x02
  let d := outb d (ideSecondaryCtrl + 2) 0x02
  { ide := { s with dev := d }
    sectors := sectors
    identify := identify
    drawn := [ideMessage "IDE: Initializing IDE controller..." 256 fbColorWhite] }

/-- `ide_init`, whose record was left as `identify`. -/
def ideInit (identify : IdeIdentify) (s : Ide D) (sectors : DriveSectors) : IdeInit D :=
  let t := driveSlots.foldl ideInitDrive (ideInitStart identify s sectors)
  { t with drawn := t.drawn ++ [ideMessage "IDE: Initialization complete" 352 fbColorGreen] }

/-- `ide_init` up to a drive. -/
def ideInitBefore (identify : IdeIdentify) (s : Ide D) (sectors : DriveSectors)
    (slot : DriveSlot) : IdeInit D :=
  (driveSlots.takeWhile (· ≠ slot)).foldl ideInitDrive (ideInitStart identify s sectors)

/-! ## What is noted of a drive -/

variable {slot slot' : DriveSlot}

theorem answersOnly_identifyCommand (base : U16) (sel : U8) (s : Ide D) :
    AnswersOnly s (identifyCommand base sel s).2 :=
  answersOnly_dev s _

theorem answersOnly_readIdentify (base : U16) (identify : IdeIdentify) (s : Ide D) :
    AnswersOnly s (readIdentify base identify s).2 :=
  (answersOnly_idePoll true 100000 s).trans (answersOnly_dev _ _)

/-- A drive that answers is noted, with the sectors of the record. -/
theorem noted_ideInitDrive {t : IdeInit D} (h : (identifyCommand slot.base slot.sel t.ide).1 ≠ 0) :
    (ideInitDrive t slot).noted slot = (1, (ideInitDrive t slot).identify.totalLba28) := by
  rw [ideInitDrive, if_pos h]
  exact Prod.ext (flag_setPresent _) (DriveSectors.get_set _ _)

/-- A drive that does not is left as it was. -/
theorem noted_ideInitDrive_of_silent {t : IdeInit D}
    (h : ¬ (identifyCommand slot.base slot.sel t.ide).1 ≠ 0) :
    (ideInitDrive t slot).noted slot = t.noted slot := by
  rw [ideInitDrive, if_neg h]
  exact Prod.ext ((answersOnly_identifyCommand _ _ _).flag slot) rfl

/-- So are the other drives. -/
theorem noted_ideInitDrive_of_ne (t : IdeInit D) (h : slot ≠ slot') :
    (ideInitDrive t slot).noted slot' = t.noted slot' := by
  have hcommand := answersOnly_identifyCommand slot.base slot.sel t.ide
  rw [ideInitDrive]
  split_ifs
  · have hread := answersOnly_readIdentify slot.base t.identify
      (identifyCommand slot.base slot.sel t.ide).2
    exact Prod.ext ((flag_setPresent_of_ne _ h).trans ((hcommand.trans hread).flag slot'))
      (DriveSectors.get_set_of_ne _ _ h)
  · exact Prod.ext (hcommand.flag slot') rfl

theorem noted_foldl_ideInitDrive {slots : List DriveSlot} (h : slot ∉ slots) (t : IdeInit D) :
    (slots.foldl ideInitDrive t).noted slot = t.noted slot := by
  induction slots generalizing t with
  | nil => rfl
  | cons slot' slots ih =>
    rw [List.mem_cons, not_or] at h
    rw [List.foldl_cons, ih h.2, noted_ideInitDrive_of_ne t (Ne.symm h.1)]

/-- Before a drive is asked, nothing is noted of it. -/
theorem noted_ideInitBefore (identify : IdeIdentify) (s : Ide D) (sectors : DriveSectors)
    (slot : DriveSlot) :
    (ideInitBefore identify s sectors slot).noted slot = (s.flag slot, sectors.get slot) := by
  have hbefore : slot ∉ driveSlots.takeWhile (· ≠ slot) := by
    cases slot <;> decide
  rw [ideInitBefore, noted_foldl_ideInitDrive hbefore]
  exact Prod.ext ((answersOnly_dev s _).flag slot) rfl

/-- **Each drive is asked once**: what is noted of it in the end was noted when it was asked. -/
theorem noted_ideInit (identify : IdeIdentify) (s : Ide D) (sectors : DriveSectors)
    (slot : DriveSlot) :
    (ideInit identify s sectors).noted slot =
      (ideInitDrive (ideInitBefore identify s sectors slot) slot).noted slot := by
  have hsplit : driveSlots = driveSlots.takeWhile (· ≠ slot) ++
      slot :: (driveSlots.dropWhile (· ≠ slot)).tail := by
    cases slot <;> rfl
  have hlater : slot ∉ (driveSlots.dropWhile (· ≠ slot)).tail := by
    cases slot <;> decide
  show (driveSlots.foldl ideInitDrive _).noted slot = _
  rw [hsplit, List.foldl_append, List.foldl_cons, noted_foldl_ideInitDrive hlater]
  rfl

/-- A drive that answers has its sectors noted. -/
theorem get_sectors_ideInit {identify : IdeIdentify} {s : Ide D} {sectors : DriveSectors}
    (h : (identifyCommand slot.base slot.sel
      (ideInitBefore identify s sectors slot).ide).1 ≠ 0) :
    (ideInit identify s sectors).sectors.get slot =
      (ideInitDrive (ideInitBefore identify s sectors slot) slot).identify.totalLba28 :=
  congrArg Prod.snd ((noted_ideInit identify s sectors slot).trans (noted_ideInitDrive h))

/-! ## What asking a drive keeps -/

variable {base : U16} {I : D → Prop}

theorem identifyCommand_keeps (hinb : ∀ d p, CommandBlock base p → I d → I (inb d p).2)
    (houtb : ∀ d p v, CommandBlock base p → I d → I (outb d p v)) (sel : U8) {s : Ide D}
    (h : I s.dev) : I (identifyCommand base sel s).2.dev := by
  have hreg : ∀ (r : U16) d v, r.toNat < 8 → I d → I (outb d (base + r) v) :=
    fun r d v hr => houtb d (base + r) v (commandBlock_add base hr)
  exact hinb _ _ (commandBlock_status base) (hreg 7 _ _ (by decide) (hreg 5 _ _ (by decide)
    (hreg 4 _ _ (by decide) (hreg 3 _ _ (by decide) (hreg 2 _ _ (by decide)
      (hreg 6 _ _ (by decide) h))))))

theorem readIdentify_keeps (hinb : ∀ d p, CommandBlock base p → I d → I (inb d p).2)
    (hinw : ∀ d p, CommandBlock base p → I d → I (inw d p).2) (identify : IdeIdentify) {s : Ide D}
    (h : I s.dev) : I (readIdentify base identify s).2.dev := by
  have hpoll : I (ideWaitReadyImpl base 100000 s).2.dev := idePoll_keeps hinb true 100000 h
  have hwords := readWords_keeps hinw 256 0 (fun _ => 0) hpoll
  rw [readIdentify]
  exact hwords

/-- `ide_identify` keeps what every access to the ports of the drive's channel keeps. -/
theorem ideIdentify_keeps (drive : U8)
    (hinb : ∀ d p, CommandBlock (driveBase drive) p → I d → I (inb d p).2)
    (hinw : ∀ d p, CommandBlock (driveBase drive) p → I d → I (inw d p).2)
    (houtb : ∀ d p v, CommandBlock (driveBase drive) p → I d → I (outb d p v))
    (identify : IdeIdentify) {s : Ide D} (h : I s.dev) :
    I (ideIdentify s drive identify).2.dev := by
  have hcommand := identifyCommand_keeps hinb houtb (driveSel drive) h
  by_cases hstatus : (identifyCommand (driveBase drive) (driveSel drive) s).1 = 0
  · have heq : (ideIdentify s drive identify).2 =
        (identifyCommand (driveBase drive) (driveSel drive) s).2 :=
      congrArg Prod.snd (if_pos hstatus)
    rw [heq]
    exact hcommand
  · have heq : ideIdentify s drive identify = readIdentify (driveBase drive) identify
        (identifyCommand (driveBase drive) (driveSel drive) s).2 := if_neg hstatus
    rw [heq]
    exact readIdentify_keeps hinb hinw identify hcommand

/-- `ide_init` keeps, for each drive, what every access keeps. -/
theorem ideInitDrive_keeps (hinb : ∀ d p, I d → I (inb d p).2) (hinw : ∀ d p, I d → I (inw d p).2)
    (houtb : ∀ d p v, I d → I (outb d p v)) {t : IdeInit D} (h : I t.ide.dev) :
    I (ideInitDrive t slot).ide.dev := by
  have hcommand : I (identifyCommand slot.base slot.sel t.ide).2.dev :=
    identifyCommand_keeps (fun d p _ => hinb d p) (fun d p v _ => houtb d p v) _ h
  rw [ideInitDrive]
  split_ifs
  · dsimp only
    rw [dev_setPresent]
    exact readIdentify_keeps (fun d p _ => hinb d p) (fun d p _ => hinw d p) _ hcommand
  · exact hcommand

theorem foldl_ideInitDrive_keeps (hinb : ∀ d p, I d → I (inb d p).2)
    (hinw : ∀ d p, I d → I (inw d p).2) (houtb : ∀ d p v, I d → I (outb d p v))
    (slots : List DriveSlot) {t : IdeInit D} (h : I t.ide.dev) :
    I (slots.foldl ideInitDrive t).ide.dev := by
  induction slots generalizing t with
  | nil => exact h
  | cons slot slots ih => exact ih (ideInitDrive_keeps hinb hinw houtb h)

end Init

end OS44
