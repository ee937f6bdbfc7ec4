import OS44.Ide.Ide

/-! # IDENTIFY DEVICE (`ide.c`)

`ide_identify` fills an `ide_identify_t`, a packed record of 517 bytes, with the 256 words the drive
sends; the fields are read at their offsets in the record. -/

namespace OS44

open PortBus

/-- `IDE_CMD_IDENTIFY`. -/
def ideCmdIdentify : U8 := 0xEC

/-- `sizeof(ide_identify_t)`. -/
def sizeofIdeIdentify : ℕ := 517

/-- The bytes of an `ide_identify_t`. -/
abbrev IdeIdentify : Type := ℕ → U8

/-- Byte `j` of a buffer of words. -/
def bufferByte (buf : Buffer) (j : ℕ) : U8 := (buf (j / 2) >>> (8 * (j % 2))).setWidth 8

/-- `ide_identify`. -/
def ideIdentify {D : Type} [PortBus D] (s : Ide D) (drive : U8) (identify : IdeIdentify) :
    IdeIdentify × Ide D :=
  let base := driveBase drive
  let d := ideSelectDrive base (driveSel drive) s.dev
  let d := outb d (base + 2) 0
  let d := outb d (base + 3) 0
  let d := outb d (base + 4) 0
  let d := outb d (base + 5) 0
  let d := outb d (base + 7) ideCmdIdentify
  let status := inb d (base + 7)
  let s := { s with dev := status.2 }
  if status.1 = 0 then (fun j => if j < sizeofIdeIdentify then 0 else identify j, s)
  else
    let s := (ideWaitReadyImpl base 100000 s).2
    let words := readWords base 256 0 (fun _ => 0) s.dev
    (fun j => if j < 512 then bufferByte words.1 j else identify j, { s with dev := words.2 })

/-- The little-endian number of `n` bytes at an offset. -/
def IdeIdentify.field (identify : IdeIdentify) (offset : ℕ) : ℕ → ℕ
  | 0 => 0
  | n + 1 => identify.field offset n + 256 ^ n * (identify (offset + n)).toNat

def IdeIdentify.config (identify : IdeIdentify) : U16 := BitVec.ofNat 16 (identify.field 0 2)
def IdeIdentify.cylinders (identify : IdeIdentify) : U16 := BitVec.ofNat 16 (identify.field 2 2)
def IdeIdentify.heads (identify : IdeIdentify) : U16 := BitVec.ofNat 16 (identify.field 6 2)
def IdeIdentify.sectorsPerTrack (identify : IdeIdentify) : U16 :=
    BitVec.ofNat 16 (identify.field 8 2)
def IdeIdentify.totalLba28 (identify : IdeIdentify) : U32 := BitVec.ofNat 32 (identify.field 115 4)

/-- The bytes of a text field of `n` bytes. -/
def IdeIdentify.text (identify : IdeIdentify) (offset n : ℕ) : List U8 :=
  (List.range n).map fun k => identify (offset + k)

def IdeIdentify.serialNumber (identify : IdeIdentify) : List U8 := identify.text 16 20
def IdeIdentify.firmwareRevision (identify : IdeIdentify) : List U8 := identify.text 42 8
def IdeIdentify.modelNumber (identify : IdeIdentify) : List U8 := identify.text 50 40

end OS44
