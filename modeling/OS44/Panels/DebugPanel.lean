import OS44.Framebuffer.Framebuffer
import OS44.Ide.Init
import OS44.Mem.MemInit
import OS44.Panels.Lines
import OS44.Pci.Pci
import OS44.Process.Process
import OS44.Sysinfo.Sysinfo

/-! # The debug panel (`debug_panel_render`)

The panel is drawn from top to bottom, with `y` going down. Its texts are put together in local
arrays, most of them in `buf`, which one section after another writes over. A section is a list of
steps, each of them a call that draws or logs something and what was done for it. -/

namespace OS44

/-- `FB_COLOR_CYAN`. -/
def fbColorCyan : U32 := 0x0000FFFF

/-- `FB_COLOR_YELLOW`. -/
def fbColorYellow : U32 := 0x00FFFF00

/-- COM1 as the loop of `dbg_putc` finds it: how many reads of the line status show no room before
the `n`-th byte goes out; `none` if none ever does. -/
abbrev Com1 : Type := ℕ → Option ℕ

/-- What is read of the rest of the kernel, and the statics of the panel. -/
structure PanelSource where
  timer : Timer
  cpuid : Cpuid
  sysinfo : Sysinfo
  totalRamBytes : U64
  pmm : Pmm
  fb : Fb
  /-- `ide_primary_master` and its siblings. -/
  found : DriveSlot → U8
  sectors : DriveSectors
  /-- `pci_devices[0..pci_device_count)`. -/
  pciDevices : List PciDevice
  testPmmStatus : U32
  testVmmStatus : U32
  frameCounter : U64
  /-- COM1, from the first byte of this rendering on. -/
  com1 : Com1

/-- What is in the local arrays before they are written, and in `line` when `draw_line` is called
with `y`. -/
structure PanelGarbage where
  buf : ℕ → U8
  vendor : ℕ → U8
  brand : ℕ → U8
  coresBuf : ℕ → U8
  features : ℕ → U8
  sizeBuf : ℕ → U8
  framesBuf : ℕ → U8
  resBuf : ℕ → U8
  pitchBuf : ℕ → U8
  fwVendor : ℕ → U8
  revBuf : ℕ → U8
  line : U64 → ℕ → U8

/-- Where the rendering has got to: the calls of the driver and the bytes sent to COM1 so far, and
whether one of the other arrays was overrun. -/
structure Panel where
  com1 : Com1
  y : U64
  buf : LocalBuf
  drawn : List DrawCall
  logged : List U8
  overran : Bool

/-! ## Strings in arrays -/

/-- `buf + off`. -/
def LocalBuf.from (b : LocalBuf) (off : ℕ) : LocalBuf where
  size := b.size - off
  bytes j := b.bytes (off + j)
  overran := b.overran

/-- The array after a call worked on `buf + off`. -/
def LocalBuf.putFrom (b : LocalBuf) (off : ℕ) (sub : LocalBuf) : LocalBuf where
  size := b.size
  bytes j := if off ≤ j then sub.bytes (j - off) else b.bytes j
  overran := sub.overran

/-- `pos = 0`, the appends, and `buf[pos] = '\0'`. -/
def formatInto (cap : U64) (calls : List AppendCall) (buf : LocalBuf) : LocalBuf :=
  let p := appendAll cursor cap calls (buf, 0)
  p.1.set p.2.toNat 0

/-- `pos = 0`, the appends, and `buf[pos < sizeof(buf) ? pos : sizeof(buf) - 1] = '\0'`. -/
def formatClamped (cap : U64) (calls : List AppendCall) (buf : LocalBuf) : LocalBuf :=
  let p := appendAll cursor cap calls (buf, 0)
  p.1.set (if p.2 < cap then p.2 else cap - 1).toNat 0

/-! ## The serial port -/

/-- `dbg_putc`, and `serial_putc` of `kernel.c`, behind the bytes sent so far. `none`: the loop over
the line status does not end. -/
def dbgPutc (com1 : Com1) (sent : List U8) (c : U8) : Option (List U8) :=
  (com1 sent.length).map fun _ => sent ++ [c]

/-- The bytes that a string is sent as. -/
def dbgBytes (str : List U8) : List U8 :=
  (str.takeWhile (· ≠ 0)).flatMap fun c => if c = 10 then [13, 10] else [c]

/-- `dbg`, and `serial_puts` of `kernel.c`. -/
def dbg (com1 : Com1) (sent str : List U8) : Option (List U8) :=
  (dbgBytes str).foldlM (dbgPutc com1) sent

/-- COM1 takes `len` bytes behind the first `n`. -/
def Com1.Takes (com1 : Com1) (n len : ℕ) : Prop := ∀ k < len, com1 (n + k) ≠ none

theorem takes_zero (com1 : Com1) (n : ℕ) : com1.Takes n 0 :=
  fun _ hk => absurd hk (Nat.not_lt_zero _)

theorem takes_add {com1 : Com1} {n a b : ℕ} :
    com1.Takes n (a + b) ↔ com1.Takes n a ∧ com1.Takes (n + a) b := by
  constructor
  · intro h
    exact ⟨fun k hk => h k (by omega), fun k hk => by rw [Nat.add_assoc]; exact h _ (by omega)⟩
  · rintro ⟨ha, hb⟩ k hk
    by_cases hka : k < a
    · exact ha k hka
    · have := hb (k - a) (by omega)
      rwa [Nat.add_assoc, Nat.add_sub_cancel' (by omega)] at this

/-- **Sending bytes** comes to its end exactly if COM1 takes them. -/
theorem foldlM_dbgPutc (com1 : Com1) (sent bytes : List U8) :
    (com1.Takes sent.length bytes.length →
      bytes.foldlM (dbgPutc com1) sent = some (sent ++ bytes)) ∧
    (¬ com1.Takes sent.length bytes.length → bytes.foldlM (dbgPutc com1) sent = none) := by
  induction bytes generalizing sent with
  | nil => exact ⟨fun _ => congrArg some (List.append_nil _).symm,
      fun h => absurd (takes_zero _ _) h⟩
  | cons c bytes ih =>
    have hsplit : com1.Takes sent.length (c :: bytes).length ↔
        com1 sent.length ≠ none ∧ com1.Takes (sent ++ [c]).length bytes.length := by
      rw [List.length_cons, Nat.add_comm, takes_add, List.length_append, List.length_singleton]
      refine and_congr_left fun _ => ⟨fun h => h 0 Nat.one_pos, fun h k hk => ?_⟩
      rwa [Nat.lt_one_iff.mp hk]
    rw [List.foldlM_cons, dbgPutc]
    cases hroom : com1 sent.length with
    | none =>
      refine ⟨fun h => absurd hroom (hsplit.mp h).1, fun _ => rfl⟩
    | some n =>
      have hrest := ih (sent ++ [c])
      rw [hsplit, hroom]
      refine ⟨fun h => ?_, fun h => ?_⟩
      · rw [List.append_cons sent c bytes]
        exact hrest.1 h.2
      · exact hrest.2 fun hb => h ⟨Option.some_ne_none n, hb⟩

/-! ## Steps -/

/-- A step; `none` where a string does not end in its array. -/
abbrev PanelStep : Type := Panel → Option Panel

/-- Steps one after another. -/
def runSteps (steps : List PanelStep) (p : Panel) : Option Panel :=
  steps.foldlM (fun p step => step p) p

/-- `fb_draw_string(str, x, y, color, FB_COLOR_BLACK)`. -/
def Panel.drawString (str : List U8) (x : U64) (color : U32) (p : Panel) : Panel :=
  { p with drawn := p.drawn ++ [.drawString str x p.y color fbColorBlack] }

/-- `y += n`. -/
def Panel.down (n : U64) (p : Panel) : Panel := { p with y := p.y + n }

/-- `y += 4`. -/
def drawGap : PanelStep := fun p => some (p.down 4)

/-- `draw_section_header`. -/
def drawSectionHeader (title : String) : PanelStep := fun p =>
  some ((p.drawString (chars title) 16 fbColorCyan).down 16)

/-- `draw_line`, with a string. -/
def drawText (g : PanelGarbage) (label : String) (value : List U8) (color : U32) : PanelStep :=
  fun p => do
    let line := drawLine (g.line p.y) (chars label) value
    let str ← line.cString
    some (({ p with overran := p.overran || line.overran }.drawString str 16 color).down 16)

/-- `draw_line`, with the string in a local array. -/
def drawArray (g : PanelGarbage) (label : String) (b : LocalBuf) (color : U32) : PanelStep :=
  fun p => do
    let value ← b.cString
    drawText g label value color { p with overran := p.overran || b.overran }

/-- `draw_line("", buf + 2, …)`, after `buf` was written. -/
def drawBuf (g : PanelGarbage) (calls : List AppendCall) (color : U32) : PanelStep := fun p =>
  let buf := formatInto 256 calls p.buf
  drawArray g "" (buf.from 2) color { p with buf := buf }

/-- `dbg(str)`. -/
def Panel.log (p : Panel) (str : List U8) : Option Panel :=
  (dbg p.com1 p.logged str).map fun logged => { p with logged := logged }

/-- `dbg`, with a literal. -/
def logText (str : String) : PanelStep := fun p => p.log (chars str)

/-- `dbg(b)`, with the string in a local array. -/
def logBuf (b : LocalBuf) : PanelStep := fun p => do
  let str ← b.cString
  { p with overran := p.overran || b.overran }.log str

/-- `dbg(name); dbg(b); dbg("\n")`. -/
def logArray (name : String) (b : LocalBuf) : PanelStep :=
  runSteps [logText name, logBuf b, logText "\n"]

/-! ## Sections -/

section Sections

variable (src : PanelSource) (g : PanelGarbage)

/-- The title. -/
def drawTitle : PanelStep := fun p =>
  some ((p.drawString (chars "OS44 DEBUG PANEL") 16 fbColorWhite).down 20)

/-- `format_uptime(uptime, buf + pos)` behind `"Uptime: "`; the loop over `buf[pos]` that follows
ends where the string does. -/
def drawUptime : PanelStep := fun p => do
  let q := cursor.strAppend 256 (chars "Uptime: ") (p.buf, 0)
  let time := (formatUptime src.timer.systemUptimeSeconds (q.1.from q.2.toNat)).1
  let buf := q.1.putFrom q.2.toNat time
  let str ← buf.cString
  some (({ p with buf := buf }.drawString str 16 fbColorWhite).down 20)

/-- `features[256]`. -/
def featuresBuf : LocalBuf :=
  sysinfoGetCpuFeatures src.sysinfo.cpuFeaturesEdx src.sysinfo.cpuFeaturesEcx (.new 256 g.features)
    256

def cpuSteps : List PanelStep :=
  let vendor := sysinfoGetCpuVendor src.sysinfo (.new 16 g.vendor)
  let brand := sysinfoGetCpuBrand src.sysinfo (.new 49 g.brand)
  let cores := (sysinfoGetCoreCount src.cpuid).setWidth 64
  let coresBuf := formatInto 32 [.strAppendDec cores] (.new 32 g.coresBuf)
  [drawSectionHeader "--- CPU ---", drawArray g "Vendor" vendor fbColorWhite,
    logArray "[DP] cpu_brand: " brand, drawArray g "Brand" brand fbColorWhite,
    drawArray g "Logical Cores" coresBuf fbColorWhite,
    logArray "[DP] features: " (featuresBuf src g)] ++
  (if (featuresBuf src g).bytes 0 ≠ 0 then
    [drawArray g "Features" (featuresBuf src g) fbColorWhite] else []) ++
  [drawGap]

def memorySteps : List PanelStep :=
  let usage := sysinfoGetMemUsage src.totalRamBytes src.pmm
  -- `size_buf` is used three times
  let total := (formatSizeMb usage.2 (.new 32 g.sizeBuf)).1
  let used := (formatSizeMb usage.1 total).1
  let free := (formatSizeMb (usage.2 - usage.1) used).1
  let framesBuf := formatInto 32 [.strAppendDec (BitVec.ofNat 64 (pmmGetFreeFrames src.pmm)),
    .strAppend (chars " free pages")] (.new 32 g.framesBuf)
  [drawSectionHeader "--- MEMORY ---", drawArray g "Total RAM" total fbColorWhite,
    drawArray g "Used" used fbColorWhite, drawArray g "Free" free fbColorWhite,
    logText "[DP] pmm frames\n", drawArray g "PMM" framesBuf fbColorWhite, drawGap]

/-- `res_buf`: the `x` is stored without a look at the room for it. -/
def resBuf : LocalBuf :=
  let res := sysinfoGetScreenRes src.sysinfo
  let p := cursor.strAppendDec 64 res.1 (.new 64 g.resBuf, 0)
  let p := cursor.strAppendDec 64 res.2 (cursor.put 120 p)
  p.1.set p.2.toNat 0

def displaySteps : List PanelStep :=
  let pitchBuf := formatInto 32 [.strAppendDec src.fb.fbPitchVal, .strAppend (chars " bytes")]
    (.new 32 g.pitchBuf)
  [drawSectionHeader "--- DISPLAY ---", drawArray g "Resolution" (resBuf src g) fbColorWhite,
    drawArray g "Pitch" pitchBuf fbColorWhite,
    drawText g "Format" (chars "BGR 8-bit") fbColorWhite, drawGap]

def firmwareSteps : List PanelStep :=
  [drawSectionHeader "--- FIRMWARE ---",
    fun p => do
      let fwVendor ← sysinfoGetUefiVendor src.sysinfo (.new 33 g.fwVendor)
      drawArray g "UEFI Vendor" fwVendor fbColorWhite p,
    fun p => do
      let revision ← sysinfoGetUefiRevision src.sysinfo
      let revBuf := formatInto 32 [.strAppendHex (revision.setWidth 64)] (.new 32 g.revBuf)
      drawArray g "Revision" revBuf fbColorWhite p,
    drawText g "MMap Size" [] fbColorWhite, drawGap]

/-- What the line of a drive starts with. -/
def DriveSlot.panelLabel : DriveSlot → String
  | .primaryMaster => "[IDE] Primary Master   : "
  | .primarySlave => "[IDE] Primary Slave    : "
  | .secondaryMaster => "[IDE] Secondary Master : "
  | .secondarySlave => "[IDE] Secondary Slave  : "

/-- The line of a drive. -/
def drawDrive (slot : DriveSlot) : PanelStep :=
  if src.found slot ≠ 0 then
    drawBuf g [.strAppend (chars slot.panelLabel),
      .strAppendDec ((src.sectors.get slot / 2048).setWidth 64), .strAppend (chars " MB")]
      fbColorGreen
  else drawText g "" (chars (slot.panelLabel ++ "Not present")) fbColorRed

def PciDevice.isNvme (d : PciDevice) : Bool := d.classCode = 0x01 ∧ d.subclass = 0x08

def PciDevice.isSata (d : PciDevice) : Bool := d.classCode = 0x01 ∧ d.subclass = 0x06

def drawNvme (d : PciDevice) : PanelStep :=
  drawBuf g [.strAppend (chars "[NVMe] "), .strAppendHex (d.vendorId.setWidth 64),
    .strAppend (chars ":"), .strAppendHex (d.deviceId.setWidth 64)] fbColorGreen

def drawSata (d : PciDevice) : PanelStep :=
  drawBuf g [.strAppend (chars "[SATA] AHCI Controller at "),
    .strAppendHex ((d.bar0 &&& 0xFFFFFFF0).setWidth 64)] fbColorGreen

def storageSteps : List PanelStep :=
  [drawSectionHeader "--- STORAGE DEVICES ---"] ++
  [.primaryMaster, .primarySlave, .secondaryMaster, .secondarySlave].map (drawDrive src g) ++
  (src.pciDevices.filter PciDevice.isNvme).map (drawNvme g) ++
  (if src.pciDevices.any PciDevice.isNvme then []
    else [drawText g "" (chars "[NVMe] No NVMe devices found") fbColorRed]) ++
  (src.pciDevices.filter PciDevice.isSata).map (drawSata g) ++
  (if src.pciDevices.any PciDevice.isSata then []
    else [drawText g "" (chars "[SATA] No AHCI controllers found") fbColorRed]) ++
  [drawGap]

/-- `n < 10 ? '0' + n : 'A' + n - 10`. -/
def hexNibble (n : U8) : U8 := if n < 10 then 48 + n else 65 + n - 10

/-- `addr`. -/
def PciDevice.addr (d : PciDevice) : List U8 :=
  [hexNibble (d.bus >>> 4), hexNibble (d.bus &&& 0xF), 58, hexNibble (d.device >>> 4),
    hexNibble (d.device &&& 0xF), 46, 48 + d.function, 0]

/-- What is appended for a device. -/
def PciDevice.appends (d : PciDevice) : List AppendCall :=
  [.strAppend d.addr, .strAppend (chars " "),
    .strAppend (chars (pciClassName d.classCode d.subclass d.progIf)), .strAppend (chars " ["),
    .strAppendHex (d.vendorId.setWidth 64), .strAppend (chars ":"),
    .strAppendHex (d.deviceId.setWidth 64), .strAppend (chars "]")] ++
  (if d.irqLine ≠ 0 ∧ d.irqLine ≠ 0xFF then
    [.strAppend (chars " IRQ:"), .strAppendDec (d.irqLine.setWidth 64)] else [])

def PciDevice.color (d : PciDevice) : U32 :=
  if d.classCode = 0x03 then fbColorGreen
  else if d.classCode = 0x02 then fbColorCyan
  else if d.classCode = 0x01 then fbColorYellow
  else fbColorWhite

/-- The line of a device. -/
def drawDevice (d : PciDevice) : PanelStep := fun p => do
  let buf := formatClamped 256 d.appends p.buf
  let str ← buf.cString
  let p := { p with buf := buf }.drawString (chars "  ") 16 fbColorBlack
  some ((p.drawString str 32 d.color).down 14)

/-- The loop over the devices, as long as there is room on the screen. -/
def drawDevices : List PciDevice → PanelStep
  | [], p => some p
  | d :: ds, p =>
    if p.y < src.fb.screenH - 16 then do
      let p ← drawDevice d p
      drawDevices ds p
    else some p

def pciSteps : List PanelStep :=
  [drawSectionHeader "--- PCI DEVICES ---"] ++
  (if src.pciDevices.length = 0 then [drawText g "No PCI devices detected" [] fbColorRed]
    else [drawDevices src src.pciDevices, logText "[DP] pci devices drawn\n"]) ++
  [drawGap]

/-- The word for a status. -/
def statusWord (status : U32) : String :=
  if status = 1 then "PASS" else if status = 2 then "FAIL" else "TESTING..."

def testSteps : List PanelStep :=
  [drawSectionHeader "--- SELF-TESTS ---",
    drawText g "PMM Test" (chars (statusWord src.testPmmStatus)) fbColorWhite,
    drawText g "VMM Test" (chars (statusWord src.testVmmStatus)) fbColorWhite, drawGap]

/-- The frame counter, after it was increased. -/
def drawFrame : PanelStep := fun p => do
  let calls := [.strAppend (chars "Frame: "), .strAppendDec (src.frameCounter + 1)]
  let buf := formatInto 256 calls p.buf
  let str ← buf.cString
  some ({ p with buf := buf }.drawString str 16 fbColorWhite)

def frameSteps : List PanelStep :=
  [drawSectionHeader "--- FRAME COUNTER ---", drawFrame src, logText "[DP] render end\n"]

/-- Before the first statement. -/
def Panel.start : Panel where
  com1 := src.com1
  y := 56
  buf := .new 256 g.buf
  drawn := []
  logged := []
  overran := false

/-- `fb_clear(FB_COLOR_BLACK)` and `fb_draw_color_bar(0, 40)`. -/
def drawColorBar : PanelStep := fun p =>
  some { p with drawn := p.drawn ++ [.clear fbColorBlack, .drawColorBar 0 40] }

/-- Before the title. -/
def startSteps : List PanelStep :=
  [logText "[DP] render start\n", drawColorBar, logText "[DP] colorbar\n"]

/-- `debug_panel_render`: the panel, and the counter that is left behind. -/
def debugPanelRender : Option (Panel × U64) :=
  (runSteps (startSteps ++ [drawTitle, drawUptime src] ++ cpuSteps src g ++ memorySteps src g ++
    displaySteps src g ++ firmwareSteps src g ++ storageSteps src g ++ pciSteps src g ++
    testSteps src g ++ frameSteps src) (Panel.start src g)).map fun p => (p, src.frameCounter + 1)

end Sections

end OS44
