import OS44.Ide.Ide

/-! # ATA PIO drives

The device behind the ports of the two channels: each has a task file of registers and two drives of
2^28 sectors. A READ or WRITE SECTORS command starts a transfer of the number of sectors in the
count register (0 meaning 256) at the 28-bit address in the registers; the data port then moves one
word after another. Status bytes are arbitrary but for DRQ, which is only raised while
a sector is pending. -/

namespace OS44

/-- A sector, 256 words. -/
abbrev Sector : Type := Fin 256 → U16

/-- A drive; sector numbers are modulo 2^28. -/
abbrev Disk : Type := BitVec 28 → Sector

/-- The registers of a channel that a request writes. -/
structure TaskFile where
  features : U8
  sectorCount : U8
  lbaLow : U8
  lbaMid : U8
  lbaHigh : U8
  driveHead : U8
  deriving DecidableEq

/-- A transfer: its direction and drive, the sector it is at, how many are left, the word it is at,
and the words received of this sector. Nothing is left of one that is done. -/
structure Transfer where
  write : Bool
  unit : Fin 2
  sector : BitVec 28
  left : ℕ
  word : Fin 256
  block : Sector

/-- The two channels. `status` and `error` are what the status and error registers will say, read by
read. `commands` is a ghost record of the commands, newest first. -/
structure AtaBus where
  taskFile : Fin 2 → TaskFile
  transfer : Fin 2 → Transfer
  disk : Fin 2 → Fin 2 → Disk
  status : ℕ → U8
  error : ℕ → U8
  polls : ℕ
  commands : List (Fin 2 × U8)

/-- The channel and register of a port. -/
def decodePort (port : U16) : Option (Fin 2 × ℕ) :=
  if (port - 0x1F0).toNat < 8 then some (0, (port - 0x1F0).toNat)
  else if (port - 0x170).toNat < 8 then some (1, (port - 0x170).toNat)
  else none

/-- The 28-bit address in the registers. -/
def TaskFile.lba (t : TaskFile) : BitVec 28 :=
  t.driveHead.setWidth 4 ++ t.lbaHigh ++ t.lbaMid ++ t.lbaLow

/-- The number of sectors in the count register. -/
def TaskFile.sectors (t : TaskFile) : ℕ := if t.sectorCount = 0 then 256 else t.sectorCount.toNat

/-- The drive selected. -/
def TaskFile.unit (t : TaskFile) : Fin 2 := if t.driveHead.getLsbD 4 then 1 else 0

/-- The transfer that a command starts; only the two sector commands have one. -/
def startTransfer (t : TaskFile) (command : U8) : Transfer where
  write := command = ideCmdWriteSectors
  unit := t.unit
  sector := t.lba
  left := if command = ideCmdReadSectors ∨ command = ideCmdWriteSectors then t.sectors else 0
  word := 0
  block := fun _ => 0

/-- A transfer after one more word. -/
def Transfer.advance (t : Transfer) : Transfer :=
  if h : t.word.val + 1 < 256 then { t with word := ⟨t.word.val + 1, h⟩ }
  else { t with sector := t.sector + 1, left := t.left - 1, word := 0 }

/-- The transfer after the rest of its sector has been moved. -/
def Transfer.nextSector (t : Transfer) : Transfer :=
  { t with sector := t.sector + 1, left := t.left - 1, word := 0 }

/-- No transfer. -/
def Transfer.idle : Transfer where
  write := false
  unit := 0
  sector := 0
  left := 0
  word := 0
  block := fun _ => 0

/-- Write a register of a channel. -/
def AtaBus.outReg (d : AtaBus) (ch : Fin 2) (reg : ℕ) (v : U8) : AtaBus :=
  let t := d.taskFile ch
  match reg with
  | 1 => { d with taskFile := Function.update d.taskFile ch { t with features := v } }
  | 2 => { d with taskFile := Function.update d.taskFile ch { t with sectorCount := v } }
  | 3 => { d with taskFile := Function.update d.taskFile ch { t with lbaLow := v } }
  | 4 => { d with taskFile := Function.update d.taskFile ch { t with lbaMid := v } }
  | 5 => { d with taskFile := Function.update d.taskFile ch { t with lbaHigh := v } }
  | 6 => { d with taskFile := Function.update d.taskFile ch { t with driveHead := v } }
  | 7 => { d with
      transfer := Function.update d.transfer ch (startTransfer t v)
      commands := (ch, v) :: d.commands }
  | _ => d

/-- Read a register of a channel. The status is the next one, without DRQ if no
sector is pending. -/
def AtaBus.inReg (d : AtaBus) (ch : Fin 2) (reg : ℕ) : U8 × AtaBus :=
  match reg with
  | 1 => (d.error d.polls, d)
  | 7 =>
    (if (d.transfer ch).left = 0 then d.status d.polls &&& ~~~ideStatusDrq else d.status d.polls,
      { d with polls := d.polls + 1 })
  | _ => (0xFF, d)

/-- Read the data port. -/
def AtaBus.inData (d : AtaBus) (ch : Fin 2) : U16 × AtaBus :=
  let t := d.transfer ch
  if t.write ∨ t.left = 0 then (0xFFFF, d)
  else (d.disk ch t.unit t.sector t.word,
    { d with transfer := Function.update d.transfer ch t.advance })

/-- Write the data port. A sector is replaced when its last word arrives. -/
def AtaBus.outData (d : AtaBus) (ch : Fin 2) (v : U16) : AtaBus :=
  let t := d.transfer ch
  if t.write = false ∨ t.left = 0 then d
  else
    let t := { t with block := Function.update t.block t.word v }
    { d with
      transfer := Function.update d.transfer ch t.advance
      disk :=
        if t.word.val + 1 < 256 then d.disk
        else Function.update d.disk ch (Function.update (d.disk ch) t.unit
          (Function.update (d.disk ch t.unit) t.sector t.block)) }

/-- The base of a channel. -/
def chBase (ch : Fin 2) : U16 := if ch = 0 then idePrimaryBase else ideSecondaryBase

/-- The channel of a drive. -/
def driveChannel (drive : U8) : Fin 2 := if drive = 0 ∨ drive = 1 then 0 else 1

/-- The place of a drive in its channel. -/
def driveUnit (drive : U8) : Fin 2 := if drive = 0 ∨ drive = 2 then 0 else 1

instance : PortBus AtaBus where
  inb d port :=
    match decodePort port with
    | some (ch, reg) => d.inReg ch reg
    | none => (0xFF, d)
  inw d port :=
    match decodePort port with
    | some (ch, 0) => d.inData ch
    | _ => (0xFFFF, d)
  outb d port v :=
    match decodePort port with
    | some (ch, reg) => d.outReg ch reg v
    | none => d
  outw d port v :=
    match decodePort port with
    | some (ch, 0) => d.outData ch v
    | _ => d

end OS44
