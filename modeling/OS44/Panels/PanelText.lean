import Mathlib.Data.List.Flatten
import OS44.Interrupts.Panic
import OS44.Panels.PanelSteps
import OS44.Pci.Registers

/-! # What the debug panel says (`debug_panel_render`)

Whatever the state of the kernel and the content of the uninitialised arrays, `debug_panel_render`
comes through without overrunning an array; it clears the screen, draws the bar and then exactly the
texts of `panelTexts`, and it logs `panelLog` (`debug_panel_renders`). -/

namespace OS44

open BoundedText Numerals

/-- The statics that `sysinfo_init` and `pci_init` left. -/
structure PanelSource.Booted (src : PanelSource) (info : BootInfo) (c : ConfigSpace) : Prop where
  sysinfo_eq : src.sysinfo = sysinfoInit src.cpuid info .boot
  pci_eq : src.pciDevices = pciInit c

/-! ## The texts -/

section Rows

variable (src : PanelSource) (info : BootInfo)

/-- The string with the names of the features. -/
def featuresText : List U8 :=
  cText ((testedFeatures (src.cpuid 1).edx (src.cpuid 1).ecx).flatMap CpuFeature.text)

def titleRows : List PageRow :=
  [textRow fbColorWhite (chars "OS44 DEBUG PANEL") 20,
    textRow fbColorWhite (chars "Uptime: " ++ uptimeText src.timer.systemUptimeSeconds.toNat) 20]

def cpuRows : List PageRow :=
  [sectionRow "--- CPU ---", lineRow fbColorWhite "Vendor" (vendorText src.cpuid),
    lineRow fbColorWhite "Brand" (brandText src.cpuid),
    lineRow fbColorWhite "Logical Cores" (decimal (sysinfoGetCoreCount src.cpuid).toNat)] ++
  (if featuresText src = [] then [] else [lineRow fbColorWhite "Features" (featuresText src)]) ++
  [gapRow]

def memoryRows : List PageRow :=
  let usage := sysinfoGetMemUsage src.totalRamBytes src.pmm
  [sectionRow "--- MEMORY ---", lineRow fbColorWhite "Total RAM" (sizeText usage.2.toNat),
    lineRow fbColorWhite "Used" (sizeText usage.1.toNat),
    lineRow fbColorWhite "Free" (sizeText (usage.2 - usage.1).toNat),
    lineRow fbColorWhite "PMM"
      (decimal (BitVec.ofNat 64 (pmmGetFreeFrames src.pmm)).toNat ++ chars " free pages"),
    gapRow]

def displayRows : List PageRow :=
  [sectionRow "--- DISPLAY ---",
    lineRow fbColorWhite "Resolution"
      (decimal info.fbWidth.toNat ++ [120] ++ decimal info.fbHeight.toNat),
    lineRow fbColorWhite "Pitch" (decimal src.fb.fbPitchVal.toNat ++ chars " bytes"),
    lineRow fbColorWhite "Format" (chars "BGR 8-bit"), gapRow]

def firmwareRows : List PageRow :=
  [sectionRow "--- FIRMWARE ---", lineRow fbColorWhite "UEFI Vendor" (uefiVendorText info),
    lineRow fbColorWhite "Revision" (chars "0x" ++ hexadecimal info.fwRevision.toNat),
    lineRow fbColorWhite "MMap Size" [], gapRow]

/-- The line of a drive: of one that was found, without the first two characters. -/
def driveRow (slot : DriveSlot) : PageRow :=
  if src.found slot ≠ 0 then
    lineRow fbColorGreen "" ((chars slot.panelLabel ++
      (decimal ((src.sectors.get slot).toNat / 2048) ++ chars " MB")).drop 2)
  else lineRow fbColorRed "" (chars (slot.panelLabel ++ "Not present"))

def nvmeRow (d : PciDevice) : PageRow :=
  lineRow fbColorGreen "" ((chars "[NVMe] " ++ (chars "0x" ++ hexadecimal d.vendorId.toNat ++
    (chars ":" ++ (chars "0x" ++ hexadecimal d.deviceId.toNat)))).drop 2)

def sataRow (d : PciDevice) : PageRow :=
  lineRow fbColorGreen "" ((chars "[SATA] AHCI Controller at " ++
    (chars "0x" ++ hexadecimal (d.bar0 &&& 0xFFFFFFF0).toNat)).drop 2)

def storageRows : List PageRow :=
  [sectionRow "--- STORAGE DEVICES ---"] ++
  [.primaryMaster, .primarySlave, .secondaryMaster, .secondarySlave].map (driveRow src) ++
  (src.pciDevices.filter PciDevice.isNvme).map nvmeRow ++
  (if src.pciDevices.any PciDevice.isNvme then []
    else [lineRow fbColorRed "" (chars "[NVMe] No NVMe devices found")]) ++
  (src.pciDevices.filter PciDevice.isSata).map sataRow ++
  (if src.pciDevices.any PciDevice.isSata then []
    else [lineRow fbColorRed "" (chars "[SATA] No AHCI controllers found")]) ++
  [gapRow]

/-- `BB:DD.F`. -/
def PciDevice.addrText (d : PciDevice) : List U8 :=
  [hexNibble (d.bus >>> 4), hexNibble (d.bus &&& 0xF), 58, hexNibble (d.device >>> 4),
    hexNibble (d.device &&& 0xF), 46, 48 + d.function]

/-- The line of a device. -/
def PciDevice.line (d : PciDevice) : List U8 :=
  d.addrText ++ (chars " " ++ (chars (pciClassName d.classCode d.subclass d.progIf) ++
    (chars " [" ++ (chars "0x" ++ hexadecimal d.vendorId.toNat ++ (chars ":" ++
      (chars "0x" ++ hexadecimal d.deviceId.toNat ++ (chars "]" ++
        if d.irqLine ≠ 0 ∧ d.irqLine ≠ 0xFF then chars " IRQ:" ++ decimal d.irqLine.toNat
        else [])))))))

/-- A device: two blanks that cannot be seen, and the line. -/
def deviceRow (d : PciDevice) : PageRow :=
  ⟨[(16, fbColorBlack, chars "  "), (32, d.color, d.line)], 14⟩

/-- The devices there is room for from a height on. -/
def deviceRows (height : U64) : U64 → List PciDevice → List PageRow
  | _, [] => []
  | y, d :: ds => if y < height - 16 then deviceRow d :: deviceRows height (y + 14) ds else []

def pciRows (y : U64) : List PageRow :=
  sectionRow "--- PCI DEVICES ---" ::
    (if src.pciDevices.length = 0 then [lineRow fbColorRed "No PCI devices detected" []]
      else deviceRows src.fb.screenH (y + 16) src.pciDevices) ++
  [gapRow]

def testRows : List PageRow :=
  [sectionRow "--- SELF-TESTS ---",
    lineRow fbColorWhite "PMM Test" (chars (statusWord src.testPmmStatus)),
    lineRow fbColorWhite "VMM Test" (chars (statusWord src.testVmmStatus)), gapRow]

def frameRows : List PageRow :=
  [sectionRow "--- FRAME COUNTER ---",
    textRow fbColorWhite (chars "Frame: " ++ decimal (src.frameCounter + 1).toNat) 0]

/-- The rows above the devices. -/
def upperRows : List PageRow :=
  titleRows src ++ cpuRows src ++ memoryRows src ++ displayRows src info ++ firmwareRows info ++
    storageRows src

def panelRows : List PageRow :=
  upperRows src info ++ pciRows src (bottom 56 (upperRows src info)) ++ testRows src ++
    frameRows src

/-- **What the panel says**, and where. -/
def panelTexts : List PlacedText := placeRows 56 (panelRows src info)

/-- What is sent to the serial port. -/
def panelLog : List U8 :=
  dbgBytes (chars "[DP] render start\n") ++ dbgBytes (chars "[DP] colorbar\n") ++
    (dbgBytes (chars "[DP] cpu_brand: ") ++ dbgBytes (brandText src.cpuid) ++
      dbgBytes (chars "\n")) ++
    (dbgBytes (chars "[DP] features: ") ++ dbgBytes (featuresText src) ++ dbgBytes (chars "\n")) ++
    dbgBytes (chars "[DP] pmm frames\n") ++
    (if src.pciDevices.length = 0 then [] else dbgBytes (chars "[DP] pci devices drawn\n")) ++
    dbgBytes (chars "[DP] render end\n")

end Rows

/-! ## Values -/

section Values

variable {g : PanelGarbage} {b : LocalBuf} {calls : List AppendCall} {str value : List U8}
  {label : String} {color : U32} {n : ℕ} {garbage : ℕ → U8}

theorem nulFree_decimal {n : ℕ} (h : n < 2 ^ 64) : NulFree 20 (decimal n) := by
  have hplain := plainText_decimal (BitVec.ofNat 64 n)
  rw [BitVec.toNat_ofNat, Nat.mod_eq_of_lt h] at hplain
  exact hplain.nulFree

theorem nulFree_hex {n : ℕ} (h : n < 2 ^ 64) : NulFree 18 (chars "0x" ++ hexadecimal n) := by
  have hsign : NulFree 2 (chars "0x") := ⟨by simp [chars], by simp [chars]⟩
  have hplain := plainText_hexadecimal (BitVec.ofNat 64 n)
  rw [BitVec.toNat_ofNat, Nat.mod_eq_of_lt h] at hplain
  exact hsign.append hplain.nulFree

/-- A number of fewer bits that is appended. -/
theorem rendering_strAppendDec {w : ℕ} (hw : w ≤ 64) (x : BitVec w) :
    (AppendCall.strAppendDec (x.setWidth 64)).rendering = decimal x.toNat := by
  have hlt := x.isLt.trans_le (Nat.pow_le_pow_right (by omega) hw)
  rw [AppendCall.rendering, BitVec.toNat_setWidth, Nat.mod_eq_of_lt hlt]

theorem rendering_strAppendHex {w : ℕ} (hw : w ≤ 64) (x : BitVec w) :
    (AppendCall.strAppendHex (x.setWidth 64)).rendering = chars "0x" ++ hexadecimal x.toNat := by
  have hlt := x.isLt.trans_le (Nat.pow_le_pow_right (by omega) hw)
  rw [AppendCall.rendering, BitVec.toNat_setWidth, Nat.mod_eq_of_lt hlt]

theorem zero_notMem_twoDigits (n : ℕ) : (0 : U8) ∉ twoDigits n := by
  have hdecimal : (0 : U8) ∉ decimal n := fun h => absurd (digit_of_mem_decimal h).1 (by decide)
  unfold twoDigits
  split_ifs
  · exact List.not_mem_cons_of_ne_of_not_mem (by decide) hdecimal
  · exact hdecimal

theorem nulFree_uptimeText (v : U64) : NulFree 22 (uptimeText v.toNat) where
  length_le := length_uptimeText_le v
  zero_notMem := by
    have hcolon : (0 : U8) ∉ [58] := by decide
    simp only [uptimeText, List.mem_append, zero_notMem_twoDigits, hcolon, or_self,
      not_false_eq_true]

theorem nulFree_sizeText (v : U64) : NulFree 17 (sizeText v.toNat) where
  length_le := length_sizeText_le v
  zero_notMem h := by
    obtain h | h := List.mem_append.mp h
    · exact absurd (digit_of_mem_decimal h).1 (by decide)
    · simp [chars] at h

/-- Appended strings without a NUL are appended as they are. -/
theorem rendering_strAppend (h : NulFree n str) : (AppendCall.strAppend str).rendering = str :=
  h.takeWhile_eq

/-- A line of the panel, with a label and a value that are not too long. -/
theorem renders_line (hb : b.cString = some value) (ho : b.overran = false)
    (hlabel : NulFree 30 (chars label)) (hvalue : NulFree 200 value) :
    Renders (drawArray g label b color) (fun _ => [lineRow color label value]) [] :=
  renders_drawArray hb ho ((nulFree_lineText hlabel hvalue).mono (by decide))

/-- A line with a constant. -/
theorem renders_constant (hlabel : NulFree 30 (chars label)) (hvalue : NulFree 200 value) :
    Renders (drawText g label value color) (fun _ => [lineRow color label value]) [] :=
  renders_drawText ((nulFree_lineText hlabel hvalue).mono (by decide))

/-- A line with what was formatted into an array of 32 bytes. -/
theorem renders_format (htext : lineTextOf calls = value) (hvalue : NulFree 31 value)
    (hlabel : NulFree 30 (chars label)) :
    Renders (drawArray g label (formatInto 32 calls (.new 32 garbage)) color)
      (fun _ => [lineRow color label value]) [] := by
  subst htext
  have hlength := hvalue.length_le
  have hsize : (LocalBuf.new 32 garbage).size = 32 := rfl
  rw [formatInto_eq (by decide) (by show _ < 32; omega)]
  exact renders_line (cString_text hvalue (by omega)) (overran_text hvalue (by omega)) hlabel
    (hvalue.mono (by decide))

/-- A line with a size, which leaves the array ready for the next one. -/
theorem renders_size (v : U64) (hsize : b.size = 32) (ho : b.overran = false)
    (hlabel : NulFree 30 (chars label)) :
    Renders (drawArray g label (formatSizeMb v b).1 color)
        (fun _ => [lineRow color label (sizeText v.toNat)]) [] ∧
      (formatSizeMb v b).1.size = 32 ∧ (formatSizeMb v b).1.overran = false := by
  have hvalue := nulFree_sizeText v
  have hover := (overran_formatSizeMb v hsize).trans ho
  have hbuf : (formatSizeMb v b).1 = b.copyAll 0 (sizeText v.toNat ++ [0]) :=
    congrArg Prod.fst (formatSizeMb_eq v b)
  rw [hbuf] at hover ⊢
  refine ⟨renders_line (cString_text hvalue (by omega)) hover hlabel (hvalue.mono (by decide)), ?_,
    hover⟩
  rw [LocalBuf.copyAll, LocalBuf.size_copy, hsize]

/-- A number behind a text. -/
theorem strAppendDec_puts {cap value : U64}
    (h : str.length + (decimal value.toNat).length < cap.toNat) :
    cursor.strAppendDec cap value (cursor.puts str (b, 0)) =
      cursor.puts (str ++ decimal value.toNat) (b, 0) := by
  have hcap := cap.isLt
  have hpos : (cursor.pos (cursor.puts str (b, 0))).toNat = str.length := by
    rw [puts_start (by omega)]
    exact Nat.mod_eq_of_lt (by omega)
  rw [Sink.strAppendDec, (counts_cursor cap).appendDec_eq_puts (by omega), hpos,
    fit_of_lt (by omega), Sink.puts_append]

/-- A text behind the start of an array. -/
theorem putFrom_copyAll {off : ℕ} (hoff : off ≤ b.size) :
    b.putFrom off ((b.from off).copyAll 0 str) = b.copyAll off str := by
  refine LocalBuf.ext rfl ?_ ?_
  · funext j
    show (if off ≤ j then ((b.from off).copyAll 0 str).bytes (j - off) else b.bytes j) = _
    by_cases hj : off ≤ j ∧ j < off + str.length
    · rw [if_pos hj.1, LocalBuf.bytes_copyAll (Nat.zero_le _) (by omega),
        LocalBuf.bytes_copyAll hj.1 hj.2, Nat.sub_zero]
    · rw [LocalBuf.bytes_copyAll_outside hj]
      split_ifs with hle
      · rw [LocalBuf.bytes_copyAll_outside (by omega)]
        show b.bytes (off + (j - off)) = _
        rw [Nat.add_sub_cancel' hle]
      · rfl
  · show ((b.from off).copyAll 0 str).overran = _
    rw [LocalBuf.overran_copyAll, LocalBuf.overran_copyAll]
    show (b.overran || decide (0 < str.length ∧ b.size - off < 0 + str.length)) = _
    congr 2
    exact propext (by omega)

end Values

/-! ## The sections -/

section Sections

variable {src : PanelSource} {info : BootInfo} {c : ConfigSpace} (g : PanelGarbage)

theorem renders_drawTitle :
    Renders drawTitle (fun _ => [textRow fbColorWhite (chars "OS44 DEBUG PANEL") 20]) [] :=
  renders_textRow (by simp [chars]) fun p hp => ⟨p, hp, rfl, rfl, rfl, rfl, rfl⟩

/-- The time is formatted behind its label. -/
theorem putFrom_formatUptime (v : U64) {b : LocalBuf} (hsize : b.size = 256) :
    let q := cursor.strAppend 256 (chars "Uptime: ") (b, 0)
    q.1.putFrom q.2.toNat (formatUptime v (q.1.from q.2.toNat)).1 =
      b.copyAll 0 (chars "Uptime: " ++ uptimeText v.toNat ++ [0]) := by
  have hlabel : NulFree 8 (chars "Uptime: ") := ⟨by simp [chars], by simp [chars]⟩
  have hlength : (chars "Uptime: ").length = 8 := by simp [chars]
  have hcalls : lineTextOf [.strAppend (chars "Uptime: ")] = chars "Uptime: " := by
    simp [rendering_strAppend hlabel]
  obtain ⟨hbuf, hpos⟩ := @appendAll_start 256 [.strAppend (chars "Uptime: ")] b (by decide)
    (by rw [hcalls, hlength]; decide)
  rw [hcalls] at hbuf hpos
  intro q
  have hq : q = appendAll cursor 256 [.strAppend (chars "Uptime: ")] (b, 0) := rfl
  have hroom : (chars "Uptime: ").length ≤ (b.copyAll 0 (chars "Uptime: ")).size := by
    show _ ≤ b.size
    omega
  have hcopy := @LocalBuf.copyAll_copyAll b 0 (chars "Uptime: ") (uptimeText v.toNat ++ [0])
  rw [Nat.zero_add] at hcopy
  rw [hq, hpos, hbuf, formatUptime_eq, putFrom_copyAll hroom, hcopy, List.append_assoc]

theorem renders_drawUptime (src : PanelSource) : Renders (drawUptime src) (fun _ =>
    [textRow fbColorWhite (chars "Uptime: " ++ uptimeText src.timer.systemUptimeSeconds.toNat) 20])
    [] := by
  have hlabel : NulFree 8 (chars "Uptime: ") := ⟨by simp [chars], by simp [chars]⟩
  have htext := hlabel.append (nulFree_uptimeText src.timer.systemUptimeSeconds)
  refine renders_textRow (htext.length_le.trans (by decide)) fun p hp => ?_
  have hsize := hp.size_eq
  have hbuf := putFrom_formatUptime src.timer.systemUptimeSeconds hsize
  generalize chars "Uptime: " ++ uptimeText src.timer.systemUptimeSeconds.toNat = text at *
  have hstring := cString_text htext (by omega : 8 + 22 < p.buf.size)
  have hover := (overran_text htext (by omega : 8 + 22 < p.buf.size)).trans hp.buf_overran
  refine ⟨{ p with buf := p.buf.copyAll 0 (text ++ [0]) }, ⟨hsize, hover, hp.overran⟩, rfl, rfl,
    rfl, rfl, ?_⟩
  dsimp only at hbuf
  rw [drawUptime, hbuf, hstring]
  rfl

theorem renders_titleSteps (src : PanelSource) :
    Renders (runSteps [drawTitle, drawUptime src]) (fun _ => titleRows src) [] :=
  renders_cons renders_drawTitle (renders_cons (renders_drawUptime src) renders_nil)

/-! ### The processor -/

/-- With room for all of them the features are appended one behind the other. -/
theorem appended_eq_flatMap {cap : ℤ} {fs : List CpuFeature} (hroom : ∀ f ∈ fs, f.room ≤ 7) {n : ℕ}
    (h : ((n + (fs.flatMap CpuFeature.text).length + 7 : ℕ) : ℤ) < cap) :
    appended cap n fs = fs.flatMap CpuFeature.text := by
  induction fs generalizing n with
  | nil => rfl
  | cons f fs ih =>
    have hf := hroom f List.mem_cons_self
    rw [List.flatMap_cons, List.length_append] at h
    rw [appended_of_lt (by omega), ih (fun f' hf' => hroom f' (List.mem_cons_of_mem f hf'))
      (by omega), List.flatMap_cons]

/-- All features together are short. -/
theorem length_flatMap_text_le (edx ecx : U32) :
    ((testedFeatures edx ecx).flatMap CpuFeature.text).length ≤ 130 := by
  have hall : (cpuFeatures.flatMap CpuFeature.text).length ≤ 130 := by decide +kernel
  exact ((List.filter_sublist.flatMap _).length_le).trans hall

/-- The list of features fits into its array. -/
theorem featuresBuf_spec (h : src.Booted info c) :
    (featuresBuf src g).cString = some (featuresText src) ∧
      (featuresBuf src g).overran = false := by
  have hlength := length_flatMap_text_le (src.cpuid 1).edx (src.cpuid 1).ecx
  have hroom : ∀ f ∈ testedFeatures (src.cpuid 1).edx (src.cpuid 1).ecx, f.room ≤ 7 := by
    have hall : ∀ f ∈ cpuFeatures, f.room ≤ 7 := by simp [cpuFeatures]
    exact fun f hf => hall f (List.mem_filter.mp hf).1
  have hcap : ((256 : U64).setWidth 32).toInt = 256 := by decide
  have htrim := (trimBlank_isPrefix
    ((testedFeatures (src.cpuid 1).edx (src.cpuid 1).ecx).flatMap CpuFeature.text)).length_le
  have heq : featuresBuf src g = sysinfoGetCpuFeatures (src.cpuid 1).edx (src.cpuid 1).ecx
      (.new 256 g.features) 256 := by
    rw [featuresBuf, h.sysinfo_eq]
    rfl
  rw [heq, sysinfoGetCpuFeatures_eq (by decide), hcap, appended_eq_flatMap hroom (by omega)]
  exact ⟨cString_set_copyAll (by omega) _, (overran_set_copyAll _ _ _).mpr ⟨by omega, by omega⟩⟩

theorem nulFree_featuresText (src : PanelSource) : NulFree 200 (featuresText src) := by
  have hlength := length_flatMap_text_le (src.cpuid 1).edx (src.cpuid 1).ecx
  exact nulFree_takeWhile ((trimBlank_isPrefix _).length_le.trans (by omega))

/-- `if (features[0])`. -/
theorem bytes_zero_eq_zero_iff {b : LocalBuf} {str : List U8} (hb : b.cString = some str) :
    b.bytes 0 = 0 ↔ str = [] := by
  unfold LocalBuf.cString at hb
  dsimp only at hb
  split_ifs at hb with hmem
  have hstr := Option.some.inj hb
  have hpos : 0 < b.size := by
    by_contra hc
    rw [Nat.eq_zero_of_not_pos hc] at hmem
    simp at hmem
  obtain ⟨k, hk⟩ := Nat.exists_eq_succ_of_ne_zero (Nat.ne_of_gt hpos)
  rw [← hstr, hk, List.range_succ_eq_map, List.map_cons, List.takeWhile_cons]
  by_cases h0 : b.bytes 0 = 0 <;> simp [h0]

theorem renders_cpuSteps (h : src.Booted info c) :
    Renders (runSteps (cpuSteps src g)) (fun _ => cpuRows src)
      (dbgBytes (chars "[DP] cpu_brand: ") ++ dbgBytes (brandText src.cpuid) ++
        dbgBytes (chars "\n") ++
        (dbgBytes (chars "[DP] features: ") ++ dbgBytes (featuresText src) ++
          dbgBytes (chars "\n"))) := by
  obtain ⟨hfeatures, hfeaturesOk⟩ := featuresBuf_spec g h
  have hvendor : (sysinfoGetCpuVendor src.sysinfo (.new 16 g.vendor)).cString =
      some (vendorText src.cpuid) := by
    rw [h.sysinfo_eq]
    exact cString_sysinfoGetCpuVendor _ _ _ (by simp [LocalBuf.new])
  have hbrand : (sysinfoGetCpuBrand src.sysinfo (.new 49 g.brand)).cString =
      some (brandText src.cpuid) := by
    rw [h.sysinfo_eq]
    exact cString_sysinfoGetCpuBrand _ _ _ le_rfl
  have hbrandOk : (sysinfoGetCpuBrand src.sysinfo (.new 49 g.brand)).overran = false :=
    LocalBuf.overran_copy le_rfl
  have hcores : lineTextOf [.strAppendDec ((sysinfoGetCoreCount src.cpuid).setWidth 64)] =
      decimal (sysinfoGetCoreCount src.cpuid).toNat := by
    rw [lineTextOf_cons, rendering_strAppendDec (by decide), lineTextOf_nil, List.append_nil]
  have hline : Renders (runSteps (if (featuresBuf src g).bytes 0 ≠ 0 then
      [drawArray g "Features" (featuresBuf src g) fbColorWhite] else []))
      (fun _ => if featuresText src = [] then []
        else [lineRow fbColorWhite "Features" (featuresText src)]) [] := by
    have hiff := bytes_zero_eq_zero_iff hfeatures
    by_cases hnil : featuresText src = []
    · rw [if_neg (not_not.mpr (hiff.mpr hnil)), if_pos hnil]
      exact renders_nil
    · rw [if_pos (mt hiff.mp hnil), if_neg hnil]
      exact renders_cons (renders_line hfeatures hfeaturesOk (by constructor <;> simp [chars])
        (nulFree_featuresText src)) renders_nil
  refine (renders_append (renders_append
    (renders_cons (renders_section (by simp [chars]))
      (renders_cons (renders_line hvendor (LocalBuf.overran_copy (by simp [LocalBuf.new]))
          (by constructor <;> simp [chars]) (nulFree_takeWhile (by simp)))
        (renders_cons (renders_logArray hbrand hbrandOk _)
          (renders_cons (renders_line hbrand hbrandOk (by constructor <;> simp [chars])
              (nulFree_takeWhile (by simp [List.range_succ])))
            (renders_cons (renders_format hcores ((nulFree_decimal (by omega)).mono (by decide))
                (by constructor <;> simp [chars]))
              (renders_cons (renders_logArray hfeatures hfeaturesOk _) renders_nil))))))
    hline) (renders_cons renders_gap renders_nil)).of_eq (fun _ => ?_) ?_
  · simp [cpuRows]
  · simp

/-! ### Memory, display and firmware -/

theorem renders_memorySteps (src : PanelSource) :
    Renders (runSteps (memorySteps src g)) (fun _ => memoryRows src)
      (dbgBytes (chars "[DP] pmm frames\n")) := by
  have hpages : NulFree 11 (chars " free pages") := ⟨by simp [chars], by simp [chars]⟩
  have hframes : lineTextOf [.strAppendDec (BitVec.ofNat 64 (pmmGetFreeFrames src.pmm)),
      .strAppend (chars " free pages")] =
      decimal (BitVec.ofNat 64 (pmmGetFreeFrames src.pmm)).toNat ++ chars " free pages" := by
    rw [lineTextOf_cons, lineTextOf_cons, rendering_strAppend hpages, lineTextOf_nil,
      List.append_nil]
    rfl
  -- one size after another in the same array
  obtain ⟨htotal, hsize, hover⟩ := @renders_size g (.new 32 g.sizeBuf) "Total RAM" fbColorWhite
    (sysinfoGetMemUsage src.totalRamBytes src.pmm).2 rfl rfl (by constructor <;> simp [chars])
  obtain ⟨hused, hsize, hover⟩ := @renders_size g _ "Used" fbColorWhite
    (sysinfoGetMemUsage src.totalRamBytes src.pmm).1 hsize hover (by constructor <;> simp [chars])
  obtain ⟨hfree, -, -⟩ := @renders_size g _ "Free" fbColorWhite
    ((sysinfoGetMemUsage src.totalRamBytes src.pmm).2 -
      (sysinfoGetMemUsage src.totalRamBytes src.pmm).1) hsize hover
    (by constructor <;> simp [chars])
  refine (renders_cons (renders_section (by simp [chars])) (renders_cons htotal (renders_cons hused
    (renders_cons hfree (renders_cons (renders_logText _) (renders_cons
      (renders_format hframes ((nulFree_decimal (BitVec.isLt _)).append hpages)
        (by constructor <;> simp [chars]))
      (renders_cons renders_gap renders_nil))))))).of_eq (fun _ => ?_) ?_
  · simp [memoryRows]
  · simp

/-- The resolution, with an `x` that was stored without a look at the room. -/
theorem resBuf_eq (h : src.Booted info c) : resBuf src g = (LocalBuf.new 64 g.resBuf).copyAll 0
    (decimal info.fbWidth.toNat ++ [120] ++ decimal info.fbHeight.toNat ++ [0]) := by
  have hw := length_decimal_le info.fbWidth
  have hh := length_decimal_le info.fbHeight
  have hcap : (64 : U64).toNat = 64 := rfl
  have hres : sysinfoGetScreenRes src.sysinfo = (info.fbWidth, info.fbHeight) := by
    rw [h.sysinfo_eq]
    rfl
  have hput : ∀ str, cursor.put 120 (cursor.puts str (.new 64 g.resBuf, 0)) =
      cursor.puts (str ++ [120]) (.new 64 g.resBuf, 0) := fun str =>
    (cursor.puts_append str [120] _).symm
  have hwidth := @strAppendDec_puts (.new 64 g.resBuf) [] 64 info.fbWidth
    (by rw [hcap, List.length_nil]; omega)
  have hlength :
      (decimal info.fbWidth.toNat ++ [120] ++ decimal info.fbHeight.toNat).length ≤ 41 := by
    rw [List.length_append, List.length_append, List.length_singleton]
    omega
  have hheight := @strAppendDec_puts (.new 64 g.resBuf) (decimal info.fbWidth.toNat ++ [120]) 64
    info.fbHeight (by rw [hcap, ← List.length_append]; omega)
  have htext : cursor.strAppendDec 64 info.fbHeight
      (cursor.put 120 (cursor.strAppendDec 64 info.fbWidth (.new 64 g.resBuf, 0))) =
      cursor.puts (decimal info.fbWidth.toNat ++ [120] ++ decimal info.fbHeight.toNat)
        (.new 64 g.resBuf, 0) := by
    rw [← hheight, ← hput]
    exact congrArg (fun q => cursor.strAppendDec 64 info.fbHeight (cursor.put 120 q)) hwidth
  unfold resBuf
  rw [hres]
  dsimp only
  rw [htext, terminated_puts (by omega)]

theorem renders_displaySteps (h : src.Booted info c) :
    Renders (runSteps (displaySteps src g)) (fun _ => displayRows src info) [] := by
  have hx : NulFree 1 [120] := ⟨le_rfl, by decide⟩
  have hbytes : NulFree 6 (chars " bytes") := ⟨by simp [chars], by simp [chars]⟩
  have hres := ((nulFree_decimal info.fbWidth.isLt).append hx).append
    (nulFree_decimal info.fbHeight.isLt)
  have hpitch : lineTextOf [.strAppendDec src.fb.fbPitchVal, .strAppend (chars " bytes")] =
      decimal src.fb.fbPitchVal.toNat ++ chars " bytes" := by
    rw [lineTextOf_cons, lineTextOf_cons, rendering_strAppend hbytes, lineTextOf_nil,
      List.append_nil]
    rfl
  have hresLine : Renders (drawArray g "Resolution" (resBuf src g) fbColorWhite)
      (fun _ => [lineRow fbColorWhite "Resolution"
        (decimal info.fbWidth.toNat ++ [120] ++ decimal info.fbHeight.toNat)]) [] := by
    rw [resBuf_eq g h]
    exact renders_line (cString_text hres (by simp [LocalBuf.new]))
      (overran_text hres (by simp [LocalBuf.new])) (by constructor <;> simp [chars])
      (hres.mono (by decide))
  refine (renders_cons (renders_section (by simp [chars])) (renders_cons hresLine (renders_cons
    (renders_format hpitch (((nulFree_decimal (BitVec.isLt _)).append hbytes).mono (by decide))
      (by constructor <;> simp [chars]))
    (renders_cons (renders_constant (by constructor <;> simp [chars])
        (by constructor <;> simp [chars]))
      (renders_cons renders_gap renders_nil))))).of_eq (fun _ => ?_) ?_
  · simp [displayRows]
  · simp

theorem renders_firmwareSteps (h : src.Booted info c) :
    Renders (runSteps (firmwareSteps src g)) (fun _ => firmwareRows info) [] := by
  obtain ⟨b, hb, hover, hstring⟩ := @exists_sysinfoGetUefiVendor (.new 33 g.fwVendor) src.cpuid info
    .boot le_rfl
  have hvendor : Renders (fun p => do
      let fwVendor ← sysinfoGetUefiVendor src.sysinfo (.new 33 g.fwVendor)
      drawArray g "UEFI Vendor" fwVendor fbColorWhite p)
      (fun _ => [lineRow fbColorWhite "UEFI Vendor" (uefiVendorText info)]) [] := by
    rw [h.sysinfo_eq, hb]
    exact renders_line hstring hover (by constructor <;> simp [chars])
      (nulFree_takeWhile (by simp [uefiVendorBytes]))
  have htext : lineTextOf [.strAppendHex (info.fwRevision.setWidth 64)] =
      chars "0x" ++ hexadecimal info.fwRevision.toNat := by
    rw [lineTextOf_cons, rendering_strAppendHex (by decide), lineTextOf_nil, List.append_nil]
  have hrevision : Renders (fun p => do
      let revision ← sysinfoGetUefiRevision src.sysinfo
      let revBuf := formatInto 32 [.strAppendHex (revision.setWidth 64)] (.new 32 g.revBuf)
      drawArray g "Revision" revBuf fbColorWhite p)
      (fun _ => [lineRow fbColorWhite "Revision"
        (chars "0x" ++ hexadecimal info.fwRevision.toNat)]) [] := by
    rw [h.sysinfo_eq]
    exact renders_format htext ((nulFree_hex (by omega)).mono (by decide))
      (by constructor <;> simp [chars])
  refine (renders_cons (renders_section (by simp [chars])) (renders_cons hvendor
    (renders_cons hrevision (renders_cons (renders_constant (by constructor <;> simp [chars])
        ⟨Nat.zero_le _, List.not_mem_nil⟩)
      (renders_cons renders_gap renders_nil))))).of_eq (fun _ => ?_) ?_
  · simp [firmwareRows]
  · simp

/-! ### Drives and devices -/

theorem renders_drawDrive (src : PanelSource) (slot : DriveSlot) :
    Renders (drawDrive src g slot) (fun _ => [driveRow src slot]) [] := by
  have hlabel : NulFree 25 (chars slot.panelLabel) := by
    cases slot <;> constructor <;> simp [DriveSlot.panelLabel, chars]
  have habsent : NulFree 36 (chars (slot.panelLabel ++ "Not present")) := by
    cases slot <;> constructor <;> simp [DriveSlot.panelLabel, chars]
  have htwo : 2 ≤ (chars slot.panelLabel).length := by
    cases slot <;> simp [DriveSlot.panelLabel, chars]
  have hunit : NulFree 3 (chars " MB") := ⟨by simp [chars], by simp [chars]⟩
  have hsectors : (src.sectors.get slot / 2048).toNat = (src.sectors.get slot).toNat / 2048 :=
    BitVec.toNat_udiv
  have htext : lineTextOf [.strAppend (chars slot.panelLabel),
      .strAppendDec ((src.sectors.get slot / 2048).setWidth 64), .strAppend (chars " MB")] =
      chars slot.panelLabel ++ (decimal ((src.sectors.get slot).toNat / 2048) ++ chars " MB") := by
    rw [lineTextOf_cons, lineTextOf_cons, lineTextOf_cons, rendering_strAppend hlabel,
      rendering_strAppendDec (by decide), rendering_strAppend hunit, hsectors, lineTextOf_nil,
      List.append_nil]
  have hnul : NulFree 48 (chars slot.panelLabel ++
      (decimal ((src.sectors.get slot).toNat / 2048) ++ chars " MB")) :=
    (hlabel.append ((nulFree_decimal (by omega)).append hunit)).mono (by decide)
  unfold drawDrive driveRow
  split_ifs
  · rw [← htext] at hnul ⊢
    refine renders_drawBuf (hnul.mono (by decide)) ?_
    rw [htext, List.length_append]
    omega
  · exact renders_constant (by constructor <;> simp [chars]) (habsent.mono (by decide))

theorem renders_drawNvme (d : PciDevice) :
    Renders (drawNvme g d) (fun _ => [nvmeRow d]) [] := by
  have hlabel : NulFree 7 (chars "[NVMe] ") := ⟨by simp [chars], by simp [chars]⟩
  have hcolon : NulFree 1 (chars ":") := ⟨by simp [chars], by simp [chars]⟩
  have htext : lineTextOf [.strAppend (chars "[NVMe] "), .strAppendHex (d.vendorId.setWidth 64),
      .strAppend (chars ":"), .strAppendHex (d.deviceId.setWidth 64)] =
      chars "[NVMe] " ++ (chars "0x" ++ hexadecimal d.vendorId.toNat ++
        (chars ":" ++ (chars "0x" ++ hexadecimal d.deviceId.toNat))) := by
    rw [lineTextOf_cons, lineTextOf_cons, lineTextOf_cons, lineTextOf_cons,
      rendering_strAppend hlabel, rendering_strAppendHex (by decide), rendering_strAppend hcolon,
      rendering_strAppendHex (by decide), lineTextOf_nil, List.append_nil]
  have hnul := hlabel.append ((@nulFree_hex d.vendorId.toNat (by omega)).append
    (hcolon.append (@nulFree_hex d.deviceId.toNat (by omega))))
  unfold drawNvme nvmeRow
  rw [← htext] at hnul ⊢
  refine renders_drawBuf (hnul.mono (by decide)) ?_
  rw [htext]
  simp [chars]

theorem renders_drawSata (d : PciDevice) :
    Renders (drawSata g d) (fun _ => [sataRow d]) [] := by
  have hlabel : NulFree 26 (chars "[SATA] AHCI Controller at ") :=
    ⟨by simp [chars], by simp [chars]⟩
  have htext : lineTextOf [.strAppend (chars "[SATA] AHCI Controller at "),
      .strAppendHex ((d.bar0 &&& 0xFFFFFFF0).setWidth 64)] =
      chars "[SATA] AHCI Controller at " ++
        (chars "0x" ++ hexadecimal (d.bar0 &&& 0xFFFFFFF0).toNat) := by
    rw [lineTextOf_cons, lineTextOf_cons, rendering_strAppend hlabel,
      rendering_strAppendHex (by decide), lineTextOf_nil, List.append_nil]
  have hnul := hlabel.append (@nulFree_hex (d.bar0 &&& 0xFFFFFFF0).toNat (by omega))
  unfold drawSata sataRow
  rw [← htext] at hnul ⊢
  refine renders_drawBuf (hnul.mono (by decide)) ?_
  rw [htext]
  simp [chars]

/-- A line for what was not found, if nothing was. -/
theorem renders_missing {found : Bool} {value : String} (h : NulFree 200 (chars value)) :
    Renders (runSteps (if found then [] else [drawText g "" (chars value) fbColorRed]))
      (fun _ => if found then [] else [lineRow fbColorRed "" (chars value)]) [] := by
  cases found
  · exact renders_cons (renders_constant (by constructor <;> simp [chars]) h) renders_nil
  · exact renders_nil

theorem renders_storageSteps (src : PanelSource) :
    Renders (runSteps (storageSteps src g)) (fun _ => storageRows src) [] := by
  have hdrives := @renders_map DriveSlot (drawDrive src g) (driveRow src)
    [.primaryMaster, .primarySlave, .secondaryMaster, .secondarySlave]
    fun slot _ => renders_drawDrive g src slot
  have hnvme := @renders_map PciDevice (drawNvme g) nvmeRow
    (src.pciDevices.filter PciDevice.isNvme) fun d _ => renders_drawNvme g d
  have hsata := @renders_map PciDevice (drawSata g) sataRow
    (src.pciDevices.filter PciDevice.isSata) fun d _ => renders_drawSata g d
  have hnoNvme := @renders_missing g (src.pciDevices.any PciDevice.isNvme)
    "[NVMe] No NVMe devices found" (by constructor <;> simp [chars])
  have hnoSata := @renders_missing g (src.pciDevices.any PciDevice.isSata)
    "[SATA] No AHCI controllers found" (by constructor <;> simp [chars])
  have hhead := renders_cons (@renders_section "--- STORAGE DEVICES ---" (by simp [chars]))
    renders_nil
  have hgap := renders_cons renders_gap renders_nil
  exact renders_append (renders_append (renders_append (renders_append (renders_append
    (renders_append hhead hdrives) hnvme) hnoNvme) hsata) hnoSata) hgap

theorem nulFree_pciClassName (classCode subclass progIf : U8) :
    NulFree 20 (chars (pciClassName classCode subclass progIf)) := by
  have hname : (chars (pciClassName classCode subclass progIf)).length ≤ 20 ∧
      (0 : U8) ∉ chars (pciClassName classCode subclass progIf) := by
    unfold pciClassName
    split <;> (try split) <;> simp [chars]
  exact ⟨hname.1, hname.2⟩

/-- The functions that `pci_init` notes have numbers below 8. -/
theorem function_lt_of_mem_pciInit {d : PciDevice} (h : d ∈ pciInit c) : d.function < 8 := by
  have hlt := (d.address.function).isLt
  rw [eq_readAt_of_mem h]
  show ((d.address.function).setWidth 8 : U8) < 8
  rw [BitVec.lt_def, BitVec.toNat_setWidth]
  show _ < 8
  omega

theorem hexNibble_ne_zero {n : U8} (h : n.toNat < 16) : hexNibble n ≠ 0 := by
  unfold hexNibble
  split_ifs with hten
  · bv_omega
  · bv_omega

theorem nulFree_addrText {d : PciDevice} (h : d.function < 8) : NulFree 7 d.addrText := by
  have hhigh (x : U8) : hexNibble (x >>> 4) ≠ 0 := hexNibble_ne_zero (by
    have := x.isLt
    rw [BitVec.toNat_ushiftRight, Nat.shiftRight_eq_div_pow]
    omega)
  have hlow (x : U8) : hexNibble (x &&& 0xF) ≠ 0 := hexNibble_ne_zero (by
    rw [BitVec.toNat_and]
    exact lt_of_le_of_lt Nat.and_le_right (by decide))
  have hfunction : 48 + d.function ≠ 0 := by bv_omega
  refine ⟨le_rfl, fun hc => ?_⟩
  simp only [PciDevice.addrText, List.mem_cons, List.not_mem_nil, or_false] at hc
  rcases hc with hc | hc | hc | hc | hc | hc | hc
  · exact hhigh _ hc.symm
  · exact hlow _ hc.symm
  · exact absurd hc (by decide)
  · exact hhigh _ hc.symm
  · exact hlow _ hc.symm
  · exact absurd hc (by decide)
  · exact hfunction hc.symm

/-- What is appended for a device is its line. -/
theorem lineTextOf_appends {d : PciDevice} (h : d.function < 8) :
    lineTextOf d.appends = d.line ∧ NulFree 200 d.line := by
  have haddr := nulFree_addrText h
  have hblank : NulFree 1 (chars " ") := ⟨by simp [chars], by simp [chars]⟩
  have hname := nulFree_pciClassName d.classCode d.subclass d.progIf
  have hopen : NulFree 2 (chars " [") := ⟨by simp [chars], by simp [chars]⟩
  have hcolon : NulFree 1 (chars ":") := ⟨by simp [chars], by simp [chars]⟩
  have hclose : NulFree 1 (chars "]") := ⟨by simp [chars], by simp [chars]⟩
  have hirq : NulFree 5 (chars " IRQ:") := ⟨by simp [chars], by simp [chars]⟩
  have hend : NulFree 25 (if d.irqLine ≠ 0 ∧ d.irqLine ≠ 0xFF then
      chars " IRQ:" ++ decimal d.irqLine.toNat else []) := by
    split_ifs
    · exact hirq.append (nulFree_decimal (by omega))
    · exact ⟨Nat.zero_le _, List.not_mem_nil⟩
  have haddrText : (AppendCall.strAppend d.addr).rendering = d.addrText := by
    have hnul : d.addr = d.addrText ++ [0] := rfl
    have hall : ∀ x ∈ d.addrText, decide (x ≠ 0) = true := fun x hx =>
      decide_eq_true fun h0 => haddr.zero_notMem (h0 ▸ hx)
    rw [AppendCall.rendering, hnul, List.takeWhile_append_of_pos hall]
    exact List.append_nil _
  refine ⟨?_, ((haddr.append (hblank.append (hname.append (hopen.append
    ((@nulFree_hex d.vendorId.toNat (by omega)).append (hcolon.append
      ((@nulFree_hex d.deviceId.toNat (by omega)).append (hclose.append hend)))))))).mono
    (by decide))⟩
  rw [PciDevice.appends, lineTextOf_append]
  simp only [lineTextOf_cons, lineTextOf_nil, haddrText, rendering_strAppend hblank,
    rendering_strAppend hname, rendering_strAppend hopen, rendering_strAppend hcolon,
    rendering_strAppend hclose, rendering_strAppendHex (by decide : 16 ≤ 64), List.append_assoc,
    List.append_nil, PciDevice.line]
  split_ifs
  · rw [lineTextOf_cons, lineTextOf_cons, rendering_strAppend hirq,
      rendering_strAppendDec (by decide), lineTextOf_nil, List.append_nil]
  · rfl

theorem renders_drawDevice {d : PciDevice} (h : d.function < 8) :
    Renders (drawDevice d) (fun _ => [deviceRow d]) [] := by
  obtain ⟨htext, hnul⟩ := lineTextOf_appends h
  refine renders_silent fun p hp => ?_
  have hlength := hnul.length_le
  have hsize := hp.size_eq
  have hbuf : formatClamped 256 d.appends p.buf = p.buf.copyAll 0 (d.line ++ [0]) := by
    rw [formatClamped_eq (by decide) (by rw [htext]; show _ < 256; omega), htext]
  have hover := (overran_text hnul (by omega : 200 < p.buf.size)).trans hp.buf_overran
  have hstring := cString_text hnul (by omega : 200 < p.buf.size)
  have hstep : drawDevice d p = some (((({ p with buf := p.buf.copyAll 0 (d.line ++ [0]) } :
      Panel).drawString (chars "  ") 16 fbColorBlack).drawString d.line 32 d.color).down 14) := by
    rw [drawDevice, hbuf, hstring]
    rfl
  have hshort : ∀ r ∈ [deviceRow d], r.Short := by
    rw [List.forall_mem_singleton]
    rintro c hc
    obtain rfl | hc := List.mem_cons.mp hc
    · simp [chars]
    · rw [List.mem_singleton.mp hc]
      exact hlength.trans (by decide)
  exact ⟨hshort, _, hstep, ⟨hsize, hover, hp.overran⟩, rfl, rfl,
    List.append_assoc p.drawn [_] [_], (List.append_nil _).symm⟩

theorem renders_drawDevices (src : PanelSource) {ds : List PciDevice}
    (hds : ∀ d ∈ ds, d.function < 8) :
    Renders (drawDevices src ds) (fun y => deviceRows src.fb.screenH y ds) [] := by
  induction ds with
  | nil => exact renders_nil
  | cons d ds ih =>
    intro p hp
    have hd := renders_bind (renders_drawDevice (hds d List.mem_cons_self))
      (ih fun d' hd' => hds d' (List.mem_cons_of_mem d hd')) (fun _ => rfl) p hp
    have hrows : deviceRows src.fb.screenH p.y (d :: ds) = if p.y < src.fb.screenH - 16 then
        deviceRow d :: deviceRows src.fb.screenH (p.y + 14) ds else [] := rfl
    have hnil := renders_nil p hp
    unfold RendersAt at hd hnil ⊢
    rw [drawDevices]
    dsimp only at hd hnil ⊢
    rw [hrows]
    by_cases hy : p.y < src.fb.screenH - 16
    · rw [if_pos hy, if_pos hy]
      exact hd
    · rw [if_neg hy, if_neg hy]
      exact hnil

theorem renders_pciSteps (h : src.Booted info c) :
    Renders (runSteps (pciSteps src g)) (pciRows src)
      (if src.pciDevices.length = 0 then [] else dbgBytes (chars "[DP] pci devices drawn\n")) := by
  have hfunctions : ∀ d ∈ src.pciDevices, d.function < 8 := fun d hd =>
    function_lt_of_mem_pciInit (h.pci_eq ▸ hd)
  have hgap := renders_cons renders_gap renders_nil
  have hhead := renders_cons (@renders_section "--- PCI DEVICES ---" (by simp [chars])) renders_nil
  unfold pciSteps pciRows
  split_ifs
  · exact renders_append (renders_append hhead (renders_cons
      (renders_constant (by constructor <;> simp [chars]) ⟨Nat.zero_le _, List.not_mem_nil⟩)
      renders_nil)) hgap
  · refine (renders_append (renders_append hhead (renders_cons (renders_drawDevices src hfunctions)
      (renders_cons (renders_logText _) renders_nil))) hgap).of_eq (fun y => ?_) ?_
    · simp
      rfl
    · simp

/-! ### The rest -/

theorem renders_testSteps (src : PanelSource) :
    Renders (runSteps (testSteps src g)) (fun _ => testRows src) [] := by
  have hword (status : U32) : NulFree 200 (chars (statusWord status)) := by
    unfold statusWord
    split_ifs <;> constructor <;> simp [chars]
  have hline {label : String} (hlabel : NulFree 30 (chars label)) (status : U32) :
      Renders (drawText g label (chars (statusWord status)) fbColorWhite)
        (fun _ => [lineRow fbColorWhite label (chars (statusWord status))]) [] :=
    renders_constant hlabel (hword status)
  have hpmm := hline (by constructor <;> simp [chars] : NulFree 30 (chars "PMM Test"))
    src.testPmmStatus
  have hvmm := hline (by constructor <;> simp [chars] : NulFree 30 (chars "VMM Test"))
    src.testVmmStatus
  have hall := renders_cons (@renders_section "--- SELF-TESTS ---" (by simp [chars]))
    (renders_cons hpmm (renders_cons hvmm (renders_cons renders_gap renders_nil)))
  exact hall.of_eq (fun _ => rfl) rfl

theorem renders_frameSteps (src : PanelSource) :
    Renders (runSteps (frameSteps src)) (fun _ => frameRows src)
      (dbgBytes (chars "[DP] render end\n")) := by
  have hlabel : NulFree 7 (chars "Frame: ") := ⟨by simp [chars], by simp [chars]⟩
  have hnul := hlabel.append (nulFree_decimal (src.frameCounter + 1).isLt)
  have htext : lineTextOf [.strAppend (chars "Frame: "), .strAppendDec (src.frameCounter + 1)] =
      chars "Frame: " ++ decimal (src.frameCounter + 1).toNat := by
    rw [lineTextOf_cons, lineTextOf_cons, rendering_strAppend hlabel, lineTextOf_nil,
      List.append_nil]
    rfl
  have hframe : Renders (drawFrame src) (fun _ => [textRow fbColorWhite
      (chars "Frame: " ++ decimal (src.frameCounter + 1).toNat) 0]) [] := by
    refine renders_textRow (hnul.length_le.trans (by decide)) fun p hp => ?_
    have hsize := hp.size_eq
    have hlength := hnul.length_le
    have hbuf : formatInto 256 [.strAppend (chars "Frame: "), .strAppendDec (src.frameCounter + 1)]
        p.buf =
        p.buf.copyAll 0 (chars "Frame: " ++ decimal (src.frameCounter + 1).toNat ++ [0]) := by
      rw [formatInto_eq (by decide) (by rw [htext]; show _ < 256; omega), htext]
    generalize chars "Frame: " ++ decimal (src.frameCounter + 1).toNat = text at *
    have hover := (overran_text hnul (by omega : 7 + 20 < p.buf.size)).trans hp.buf_overran
    have hstring := cString_text hnul (by omega : 7 + 20 < p.buf.size)
    refine ⟨{ p with buf := p.buf.copyAll 0 (text ++ [0]) }, ⟨hsize, hover, hp.overran⟩, rfl, rfl,
      rfl, rfl, ?_⟩
    rw [drawFrame, hbuf, hstring]
    simp [Panel.down, Panel.drawString]
  exact renders_cons (renders_section (by simp [chars])) (renders_cons hframe
    (renders_cons (renders_logText _) renders_nil))

/-- The panel behind the first text of the log. -/
def Panel.cleared (src : PanelSource) (g : PanelGarbage) : Panel :=
  { Panel.start src g with
    drawn := [.clear fbColorBlack, .drawColorBar 0 40]
    logged := dbgBytes (chars "[DP] render start\n") }

/-- The steps behind the colour bar. -/
theorem debugPanelRender_eq (src : PanelSource) (g : PanelGarbage) :
    ((Panel.start src g).Takes (dbgBytes (chars "[DP] render start\n")) →
      debugPanelRender src g = (runSteps (logText "[DP] colorbar\n" ::
        ([drawTitle, drawUptime src] ++ cpuSteps src g ++ memorySteps src g ++ displaySteps src g ++
        firmwareSteps src g ++ storageSteps src g ++ pciSteps src g ++ testSteps src g ++
        frameSteps src))
        (Panel.cleared src g)).map fun p => (p, src.frameCounter + 1)) ∧
    (¬ (Panel.start src g).Takes (dbgBytes (chars "[DP] render start\n")) →
      debugPanelRender src g = none) := by
  obtain ⟨hsome, hnone⟩ := (Panel.start src g).log_eq (chars "[DP] render start\n")
  constructor
  · intro h
    simp only [debugPanelRender, startSteps, List.cons_append, List.nil_append, runSteps,
      List.foldlM_cons, logText, hsome h]
    rfl
  · intro h
    simp only [debugPanelRender, startSteps, List.cons_append, List.nil_append, runSteps,
      List.foldlM_cons, logText, hnone h]
    rfl

/-- All steps together. -/
theorem renders_panelSteps (h : src.Booted info c) : (∀ r ∈ panelRows src info, r.Short) ∧
    (src.com1.Takes 0 (panelLog src).length →
      ∃ q, debugPanelRender src g = some (q, src.frameCounter + 1) ∧ q.Ok ∧
        q.drawn = .clear fbColorBlack :: .drawColorBar 0 40 ::
          (panelTexts src info).map (PlacedText.call fbColorBlack) ∧
        q.logged = panelLog src) ∧
    (¬ src.com1.Takes 0 (panelLog src).length → debugPanelRender src g = none) := by
  have hlog : panelLog src = dbgBytes (chars "[DP] render start\n") ++ (panelLog src).drop
      (dbgBytes (chars "[DP] render start\n")).length := by
    rw [panelLog]
    simp only [List.append_assoc, List.drop_left]
  generalize hrest : (panelLog src).drop (dbgBytes (chars "[DP] render start\n")).length = rest
    at hlog
  have hall := (renders_cons (renders_logText "[DP] colorbar\n") (renders_append (renders_append
    (renders_append (renders_append (renders_append (renders_append (renders_append
      (renders_append (renders_titleSteps src) (renders_cpuSteps g h)) (renders_memorySteps g src))
      (renders_displaySteps g h)) (renders_firmwareSteps g h)) (renders_storageSteps g src))
      (renders_pciSteps g h)) (renders_testSteps g src)) (renders_frameSteps src))).of_eq
    (fun _ => rfl) (show _ = rest by rw [← hrest, panelLog]; simp [List.append_assoc])
  obtain ⟨hshort, hsome, hnone⟩ := hall (Panel.cleared src g) ⟨rfl, rfl, rfl⟩
  obtain ⟨hfirst, hstuck⟩ := debugPanelRender_eq src g
  have hsplit : src.com1.Takes 0 (panelLog src).length ↔
      (Panel.start src g).Takes (dbgBytes (chars "[DP] render start\n")) ∧
        (Panel.cleared src g).Takes rest := by
    rw [hlog, List.length_append, takes_add, Nat.zero_add]
    rfl
  refine ⟨hshort, fun htakes => ?_, fun htakes => ?_⟩
  · obtain ⟨hstart, hcleared⟩ := hsplit.mp htakes
    obtain ⟨q, hq, hext⟩ := hsome hcleared
    refine ⟨q, ?_, hext.ok, hext.drawn_eq, hext.logged_eq.trans hlog.symm⟩
    rw [hfirst hstart, hq, Option.map_some]
  · by_cases hstart : (Panel.start src g).Takes (dbgBytes (chars "[DP] render start\n"))
    · rw [hfirst hstart, hnone fun hc => htakes (hsplit.mpr ⟨hstart, hc⟩), Option.map_none]
    · exact hstuck hstart

/-- **The panel is its page.** For every state of the kernel that `sysinfo_init` and `pci_init`
left, and whatever was in the arrays: the rendering comes through exactly if COM1 takes the bytes
that it logs; then no array was overrun, every string ended in its array, and what is drawn and
logged are the texts of the page. -/
theorem debug_panel_renders (h : src.Booted info c) :
    (debugPanelRender src g ≠ none ↔ src.com1.Takes 0 (panelLog src).length) ∧
    ∀ p n, debugPanelRender src g = some (p, n) → n = src.frameCounter + 1 ∧ p.overran = false ∧
      p.buf.overran = false ∧ p.drawn = .clear fbColorBlack :: .drawColorBar 0 40 ::
        (panelTexts src info).map (PlacedText.call fbColorBlack) ∧
      p.logged = panelLog src := by
  obtain ⟨-, hsome, hnone⟩ := renders_panelSteps g h
  by_cases htakes : src.com1.Takes 0 (panelLog src).length
  · obtain ⟨q, hq, hok, hdrawn, hlogged⟩ := hsome htakes
    rw [hq]
    refine ⟨iff_of_true (Option.some_ne_none _) htakes, ?_⟩
    rintro p n ⟨⟩
    exact ⟨rfl, hok.overran, hok.buf_overran, hdrawn, hlogged⟩
  · rw [hnone htakes]
    exact ⟨iff_of_false (fun hne => hne rfl) htakes, fun p n hp => by cases hp⟩

end Sections

/-! ## A machine without devices -/

/-- A processor that gives all leaves one answer. -/
def sampleCpuid : Cpuid := fun _ =>
  { eax := 0x16, ebx := 0x756E6547, ecx := 0x6C65746E, edx := 0x49656E69 }

/-- No device answers. -/
def sampleConfig : ConfigSpace := fun _ _ _ _ => 0xFFFFFFFF

/-- The kernel after a second on a machine without devices. -/
def samplePanel (info : BootInfo) : PanelSource where
  timer := { timerTicks := 100, systemUptimeSeconds := 1 }
  cpuid := sampleCpuid
  sysinfo := sysinfoInit sampleCpuid info .boot
  totalRamBytes := 0x20000000
  pmm := Sample.pmm
  fb := (fbInit info fbBoot).buffered 0x1000000
  found := fun _ => 0
  sectors := { primaryMaster := 0, primarySlave := 0, secondaryMaster := 0, secondarySlave := 0 }
  pciDevices := pciInit sampleConfig
  testPmmStatus := 1
  testVmmStatus := 1
  frameCounter := 0
  com1 := fun _ => some 0

theorem booted_samplePanel (info : BootInfo) :
    (samplePanel info).Booted info sampleConfig where
  sysinfo_eq := by simp only [samplePanel]
  pci_eq := by simp only [samplePanel]

/-- Arrays full of letters. -/
def sampleGarbage : PanelGarbage where
  buf := fun _ => 65
  vendor := fun _ => 65
  brand := fun _ => 65
  coresBuf := fun _ => 65
  features := fun _ => 65
  sizeBuf := fun _ => 65
  framesBuf := fun _ => 65
  resBuf := fun _ => 65
  pitchBuf := fun _ => 65
  fwVendor := fun _ => 65
  revBuf := fun _ => 65
  line := fun _ _ => 65

/-- The first calls on that machine. -/
theorem debug_panel_renders_sample : ∃ p,
    debugPanelRender (samplePanel Sample.info) sampleGarbage = some (p, 1) ∧
      p.overran = false ∧ p.drawn.take 3 = [.clear fbColorBlack, .drawColorBar 0 40,
        .drawString (chars "OS44 DEBUG PANEL") 16 56 fbColorWhite fbColorBlack] := by
  obtain ⟨hthrough, hpage⟩ :=
    debug_panel_renders sampleGarbage (booted_samplePanel Sample.info)
  obtain ⟨⟨p, n⟩, hp⟩ := Option.ne_none_iff_exists'.mp
    (hthrough.mpr fun k _ => Option.some_ne_none 0)
  obtain ⟨rfl, hover, -, hdrawn, -⟩ := hpage p n hp
  refine ⟨p, hp, hover, ?_⟩
  rw [hdrawn]
  rfl

end OS44
