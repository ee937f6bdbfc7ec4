import OS44.Pci.Enumeration

/-! # The registers of a function (`pci.c`)

The header of a function has the command at offset 4 and the status at offset 6. `pci_read_device`
never reads that register; it cuts the two out of the one at `0x0C`, with the cache line size, the
latency timer, the header type and the BIST. Every other field is right, and these two are exactly
if the two registers have the same contents (`pci_fields_iff`). -/

namespace OS44

/-! ## Bytes, words and dwords -/

/-- The byte of a function's configuration space at an offset: it lies in the register at the
multiple of four below it, least byte first. -/
def configByte (c : ConfigSpace) (a : PciAddress) (offset : ℕ) : U8 :=
  (c a.bus a.device a.function (BitVec.ofNat 8 (offset / 4 * 4))).extractLsb' (8 * (offset % 4)) 8

def configWord (c : ConfigSpace) (a : PciAddress) (offset : ℕ) : U16 :=
  configByte c a (offset + 1) ++ configByte c a offset

def configDword (c : ConfigSpace) (a : PciAddress) (offset : ℕ) : U32 :=
  configWord c a (offset + 2) ++ configWord c a offset

/-- **The type 0 header**: each field is the register of its name. -/
structure MatchesHeader (c : ConfigSpace) (a : PciAddress) (dev : PciDevice) : Prop where
  vendorId : dev.vendorId = configWord c a 0x00
  deviceId : dev.deviceId = configWord c a 0x02
  command : dev.command = configWord c a 0x04
  statusReg : dev.statusReg = configWord c a 0x06
  revisionId : dev.revisionId = configByte c a 0x08
  progIf : dev.progIf = configByte c a 0x09
  subclass : dev.subclass = configByte c a 0x0A
  classCode : dev.classCode = configByte c a 0x0B
  cacheLineSize : dev.cacheLineSize = configByte c a 0x0C
  latencyTimer : dev.latencyTimer = configByte c a 0x0D
  headerType : dev.headerType = configByte c a 0x0E
  bist : dev.bist = configByte c a 0x0F
  bar0 : dev.bar0 = configDword c a 0x10
  bar1 : dev.bar1 = configDword c a 0x14
  bar2 : dev.bar2 = configDword c a 0x18
  bar3 : dev.bar3 = configDword c a 0x1C
  bar4 : dev.bar4 = configDword c a 0x20
  bar5 : dev.bar5 = configDword c a 0x24
  irqLine : dev.irqLine = configByte c a 0x3C
  irqPin : dev.irqPin = configByte c a 0x3D

/-! ## Cutting a register -/

/-- A shift and a mask of `w` ones cut `w` bits out. -/
theorem setWidth_and_mask {w : ℕ} (mask : U32) (hmask : ∀ i < w, mask.getLsbD i = true) (reg : U32)
    (shift : ℕ) : ((reg >>> shift) &&& mask).setWidth w = reg.extractLsb' shift w := by
  ext i hi
  rw [← BitVec.getLsbD_eq_getElem, ← BitVec.getLsbD_eq_getElem, BitVec.getLsbD_setWidth,
    BitVec.getLsbD_and, hmask i hi, BitVec.getLsbD_ushiftRight, BitVec.getLsbD_extractLsb',
    Bool.and_true]

theorem byteAt_eq (reg : U32) (shift : ℕ) : byteAt reg shift = reg.extractLsb' shift 8 :=
  setWidth_and_mask _ (by decide) reg shift

theorem lowHalf_eq (reg : U32) : lowHalf reg = reg.extractLsb' 0 16 := by
  have h := setWidth_and_mask (w := 16) 0xFFFF (by decide) reg 0
  rwa [BitVec.ushiftRight_zero] at h

theorem highHalf_eq (reg : U32) : highHalf reg = reg.extractLsb' 16 16 :=
  setWidth_and_mask _ (by decide) reg 16

section Header

variable {c : ConfigSpace} {a : PciAddress} {offset : ℕ}

/-- A word of a register, `k` bytes into it. -/
theorem configWord_eq {k : ℕ} (hlow : offset % 4 = k) (hhigh : k < 3) :
    configWord c a offset = (c a.bus a.device a.function
      (BitVec.ofNat 8 (offset / 4 * 4))).extractLsb' (8 * k) 16 := by
  -- the word does not reach into the next register
  have hdiv : (offset + 1) / 4 = offset / 4 := by omega
  have hmod : (offset + 1) % 4 = k + 1 := by omega
  rw [configWord, configByte, configByte, hdiv, hlow, hmod]
  exact BitVec.extractLsb'_append_extractLsb'_eq_extractLsb' (by omega)

theorem configDword_eq (hlow : offset % 4 = 0) :
    configDword c a offset =
      c a.bus a.device a.function (BitVec.ofNat 8 (offset / 4 * 4)) := by
  have hdiv : (offset + 2) / 4 = offset / 4 := by omega
  have hmod : (offset + 2) % 4 = 2 := by omega
  rw [configDword, configWord_eq hmod (by decide), configWord_eq hlow (by decide), hdiv]
  exact (BitVec.extractLsb'_append_extractLsb'_eq_extractLsb' rfl).trans BitVec.extractLsb'_eq_self

/-! ## What the reads of `pci_read_device` find -/

/-- The register that `pci_config_read` reads of a function. -/
def readRegister (c : ConfigSpace) (a : PciAddress) (register : U8) : U32 :=
  pciConfigRead c a.bus (a.device.setWidth 8) (a.function.setWidth 8) register

/-- It is read whole. -/
theorem readRegister_eq (register : U8)
    (hregister : register &&& 0xFC = BitVec.ofNat 8 (offset / 4 * 4))
    (hlow : offset % 4 = 0) : readRegister c a register = configDword c a offset := by
  rw [readRegister, pciConfigRead_eq, hregister, configDword_eq hlow]

theorem byteAt_readRegister (register : U8)
    (hregister : register &&& 0xFC = BitVec.ofNat 8 (offset / 4 * 4))
    {shift : ℕ} (hshift : 8 * (offset % 4) = shift) :
    byteAt (readRegister c a register) shift = configByte c a offset := by
  rw [readRegister, pciConfigRead_eq, byteAt_eq, configByte, hshift, hregister]

theorem lowHalf_readRegister (register : U8)
    (hregister : register &&& 0xFC = BitVec.ofNat 8 (offset / 4 * 4))
    (hlow : offset % 4 = 0) : lowHalf (readRegister c a register) = configWord c a offset := by
  rw [readRegister, pciConfigRead_eq, lowHalf_eq, configWord_eq hlow (by decide), hregister]

theorem highHalf_readRegister (register : U8)
    (hregister : register &&& 0xFC = BitVec.ofNat 8 (offset / 4 * 4))
    (hhigh : offset % 4 = 2) : highHalf (readRegister c a register) = configWord c a offset := by
  rw [readRegister, pciConfigRead_eq, highHalf_eq, configWord_eq hhigh (by decide), hregister]

/-- **The fields of a function** are right if those cut out of the wrong register are. -/
theorem matchesHeader_readAt (hcommand : (readAt c a).command = configWord c a 0x04)
    (hstatus : (readAt c a).statusReg = configWord c a 0x06) : MatchesHeader c a (readAt c a) where
  vendorId := lowHalf_readRegister 0x00 rfl rfl
  deviceId := highHalf_readRegister 0x00 rfl rfl
  command := hcommand
  statusReg := hstatus
  revisionId := byteAt_readRegister 0x08 rfl rfl
  progIf := byteAt_readRegister 0x08 rfl rfl
  subclass := byteAt_readRegister 0x08 rfl rfl
  classCode := byteAt_readRegister 0x08 rfl rfl
  cacheLineSize := byteAt_readRegister 0x0C rfl rfl
  latencyTimer := byteAt_readRegister 0x0C rfl rfl
  headerType := byteAt_readRegister 0x0C rfl rfl
  bist := byteAt_readRegister 0x0C rfl rfl
  bar0 := readRegister_eq 0x10 rfl rfl
  bar1 := readRegister_eq 0x14 rfl rfl
  bar2 := readRegister_eq 0x18 rfl rfl
  bar3 := readRegister_eq 0x1C rfl rfl
  bar4 := readRegister_eq 0x20 rfl rfl
  bar5 := readRegister_eq 0x24 rfl rfl
  irqLine := byteAt_readRegister 0x3C rfl rfl
  irqPin := byteAt_readRegister 0x3C rfl rfl

theorem command_readAt : (readAt c a).command = configWord c a 0x0C :=
  lowHalf_readRegister 0x0C rfl rfl

theorem statusReg_readAt : (readAt c a).statusReg = configWord c a 0x0E :=
  highHalf_readRegister 0x0C rfl rfl

theorem append_inj {x y : U16} {x' y' : U16} (h : x ++ y = x' ++ y') : x = x' ∧ y = y' := by
  have hhigh := congrArg (BitVec.extractLsb' 16 16) h
  have hlow := congrArg (BitVec.extractLsb' 0 16) h
  rw [BitVec.extractLsb'_append_eq_left, BitVec.extractLsb'_append_eq_left] at hhigh
  rw [BitVec.extractLsb'_append_eq_right, BitVec.extractLsb'_append_eq_right] at hlow
  exact ⟨hhigh, hlow⟩

theorem matchesHeader_iff :
    MatchesHeader c a (readAt c a) ↔ configDword c a 0x04 = configDword c a 0x0C := by
  constructor
  · -- both registers are then the command and the status that were stored
    intro h
    rw [configDword, configDword, ← h.command, ← h.statusReg, command_readAt, statusReg_readAt]
  · intro h
    obtain ⟨hstatus, hcommand⟩ := append_inj h
    exact matchesHeader_readAt (command_readAt.trans hcommand.symm)
      (statusReg_readAt.trans hstatus.symm)

/-! ## The functions of the table -/

/-- The function that an entry is about. -/
def PciDevice.address (dev : PciDevice) : PciAddress where
  bus := dev.bus
  device := dev.device.setWidth 5
  function := dev.function.setWidth 3

theorem address_readAt (c : ConfigSpace) (a : PciAddress) : (readAt c a).address = a := by
  obtain ⟨bus, device, function⟩ := a
  have hdevice : (device.setWidth 8).setWidth 5 = device := by simp
  have hfunction : (function.setWidth 8).setWidth 3 = function := by simp
  rw [PciDevice.address, PciAddress.mk.injEq]
  exact ⟨rfl, hdevice, hfunction⟩

theorem eq_readAt_of_mem {dev : PciDevice} (h : dev ∈ pciInit c) :
    dev = readAt c dev.address := by
  -- the table is the functions found, each read when it was entered
  rw [pciInit_eq, capped] at h
  obtain ⟨a, -, rfl⟩ := List.mem_map.mp h
  rw [address_readAt]

/-- **When the fields are right.** For every configuration space and every function entered in
`pci_devices`: exactly if the function's registers at `0x04` and `0x0C` have the same contents. -/
theorem pci_fields_iff (c : ConfigSpace) {dev : PciDevice} (h : dev ∈ pciInit c) :
    MatchesHeader c dev.address dev ↔
      configDword c dev.address 0x04 = configDword c dev.address 0x0C := by
  have hdev := eq_readAt_of_mem h
  have hiff := matchesHeader_iff (c := c) (a := dev.address)
  rwa [← hdev] at hiff

end Header

/-! ## A host bridge -/

/-- A machine with a host bridge only, whose command and status are given. -/
def hostBridge (command : U32) : ConfigSpace := fun bus device function register =>
  if bus = 0 ∧ device = 0 ∧ function = 0 then
    if register = 0x00 then 0x12378086
    else if register = 0x04 then command
    else if register = 0x08 then 0x06000000
    else 0
  else 0xFFFFFFFF

/-- It is the only function that the scan meets. -/
theorem mem_pciInit_hostBridge (command : U32) :
    readAt (hostBridge command) ⟨0, 0, 0⟩ ∈ pciInit (hostBridge command) := by
  have hfirst : ∀ a : PciAddress, ¬ a.Before ⟨0, 0, 0⟩ := by
    rintro a (h | ⟨-, h | ⟨-, h⟩⟩)
    · exact absurd h (Nat.not_lt_zero _)
    · exact absurd h (Nat.not_lt_zero _)
    · exact absurd h (Nat.not_lt_zero _)
  -- nothing is met before it, so that it is entered
  have hempty : metBefore (hostBridge command) ⟨0, 0, 0⟩ = ∅ :=
    Set.eq_empty_of_forall_notMem fun a ha => hfirst a ha.2
  have hmet : Found (hostBridge command) ⟨0, 0, 0⟩ := by
    refine found_iff.mpr ⟨⟨?_, ?_, fun h => absurd rfl h⟩, ?_⟩
    · have hheader : headerType (hostBridge command) ⟨0, 0, 0⟩ = 0 := by
        simp [headerType, hostBridge, byteAt]
      have hsingle : ¬ multiFunction 0 := by decide
      rw [Scanned, hheader, if_neg hsingle]
    · have hvendor : vendorId (hostBridge command) ⟨0, 0, 0⟩ = 0x8086 := by
        simp [vendorId, hostBridge, lowHalf]
      rw [hvendor]
      decide
    · rw [hempty, Set.encard_empty]
      decide
  obtain ⟨dev, hdev, hbus, hdevice, hfunction⟩ := hmet
  have haddress : dev.address = ⟨0, 0, 0⟩ := by
    rw [PciDevice.address, hbus, hdevice, hfunction]
    rfl
  rw [eq_readAt_of_mem hdev, haddress] at hdev
  exact hdev

/-- A host bridge that is neither enabled nor reports anything has the right fields. -/
theorem pci_fields_sample :
    MatchesHeader (hostBridge 0) (readAt (hostBridge 0) ⟨0, 0, 0⟩).address
      (readAt (hostBridge 0) ⟨0, 0, 0⟩) :=
  (pci_fields_iff (hostBridge 0) (mem_pciInit_hostBridge 0)).mpr (by rw [address_readAt]; decide)

/-- **The command is lost.** A host bridge with command 7 and status `0x0200` is noted with 0 for
both. -/
theorem command_is_lost :
    ¬ ∀ dev ∈ pciInit (hostBridge 0x02000007),
      MatchesHeader (hostBridge 0x02000007) dev.address dev := by
  intro h
  have hfields := h _ (mem_pciInit_hostBridge 0x02000007)
  rw [address_readAt] at hfields
  exact absurd hfields.command (by decide)

end OS44
