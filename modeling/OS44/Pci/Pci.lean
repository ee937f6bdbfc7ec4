import OS44.BootInfo

/-! # The PCI scan (`pci.c`)

`pci_init` walks the buses, devices and functions of the configuration space through the two ports
`0xCF8` and `0xCFC`, and notes what it finds in `pci_devices`, at most 64 functions. -/

namespace OS44

/-! ## The configuration space -/

/-- The configuration space behind the ports: the 32-bit register of a bus, device and function at a
byte offset divisible by four. -/
abbrev ConfigSpace : Type := U8 → BitVec 5 → BitVec 3 → U8 → U32

/-- What `PCI_CONFIG_DATA` reads after `addr` was written to `PCI_CONFIG_ADDRESS`: the register that
the fields of the address select, or all ones without the enable bit. -/
def configData (c : ConfigSpace) (addr : U32) : U32 :=
  if addr.msb then
    c (addr.extractLsb' 16 8) (addr.extractLsb' 11 5) (addr.extractLsb' 8 3)
      (addr.extractLsb' 0 8 &&& 0xFC)
  else 0xFFFFFFFF

/-- The address that `pci_config_read` writes. -/
def configAddress (bus device function offset : U8) : U32 :=
  0x80000000 ||| bus.setWidth 32 <<< 16 ||| device.setWidth 32 <<< 11 |||
    function.setWidth 32 <<< 8 |||
    (offset &&& 0xFC).setWidth 32

/-- `pci_config_read`. -/
def pciConfigRead (c : ConfigSpace) (bus device function offset : U8) : U32 :=
  configData c (configAddress bus device function offset)

/-! ## Devices -/

/-- `pci_device_t`. -/
structure PciDevice where
  bus : U8
  device : U8
  function : U8
  vendorId : U16
  deviceId : U16
  classCode : U8
  subclass : U8
  progIf : U8
  headerType : U8
  bar0 : U32
  bar1 : U32
  bar2 : U32
  bar3 : U32
  bar4 : U32
  bar5 : U32
  command : U16
  statusReg : U16
  irqLine : U8
  irqPin : U8
  revisionId : U8
  cacheLineSize : U8
  latencyTimer : U8
  bist : U8
  deriving DecidableEq, Repr

/-- The low half of a register. -/
def lowHalf (reg : U32) : U16 := (reg &&& 0xFFFF).setWidth 16

/-- The high half of a register. -/
def highHalf (reg : U32) : U16 := ((reg >>> 16) &&& 0xFFFF).setWidth 16

/-- The byte of a register from bit `shift` on. -/
def byteAt (reg : U32) (shift : ℕ) : U8 := ((reg >>> shift) &&& 0xFF).setWidth 8

/-- `pci_read_device`, for the function at `bus`, `device`, `function`. -/
def pciReadDevice (c : ConfigSpace) (bus device function : U8) : PciDevice :=
  let reg0 := pciConfigRead c bus device function 0x00
  let reg8 := pciConfigRead c bus device function 0x08
  let regC := pciConfigRead c bus device function 0x0C
  let reg10 := pciConfigRead c bus device function 0x10
  let reg14 := pciConfigRead c bus device function 0x14
  let reg18 := pciConfigRead c bus device function 0x18
  let reg1C := pciConfigRead c bus device function 0x1C
  let reg20 := pciConfigRead c bus device function 0x20
  let reg24 := pciConfigRead c bus device function 0x24
  let reg3C := pciConfigRead c bus device function 0x3C
  { bus := bus
    device := device
    function := function
    vendorId := lowHalf reg0
    deviceId := highHalf reg0
    command := lowHalf regC
    statusReg := highHalf regC
    revisionId := byteAt reg8 0
    progIf := byteAt reg8 8
    subclass := byteAt reg8 16
    classCode := byteAt reg8 24
    cacheLineSize := byteAt regC 0
    latencyTimer := byteAt regC 8
    headerType := byteAt regC 16
    bist := byteAt regC 24
    bar0 := reg10
    bar1 := reg14
    bar2 := reg18
    bar3 := reg1C
    bar4 := reg20
    bar5 := reg24
    irqLine := byteAt reg3C 0
    irqPin := byteAt reg3C 8 }

/-! ## The scan -/

/-- `PCI_VENDOR_INVALID`. -/
def pciVendorInvalid : U16 := 0xFFFF

/-- `PCI_MAX_DEVICES`. -/
def pciMaxDevices : ℕ := 64

/-- `pci_check_device`. The list is `pci_devices[0..pci_device_count)`. -/
def pciCheckDevice (c : ConfigSpace) (bus device : U8) (devs : List PciDevice) (function : U8) :
    List PciDevice :=
  if lowHalf (pciConfigRead c bus device function 0x00) = pciVendorInvalid then devs
  else if pciMaxDevices ≤ devs.length then devs
  else devs ++ [pciReadDevice c bus device function]

/-- One round of the inner loop of `pci_check_bus`. -/
def checkFunction (c : ConfigSpace) (bus device : U8) (devs : List PciDevice) (function : U8) :
    List PciDevice :=
  if lowHalf (pciConfigRead c bus device function 0x00) ≠ pciVendorInvalid then
    pciCheckDevice c bus device devs function
  else devs

/-- One round of the outer loop of `pci_check_bus`. -/
def checkSlot (c : ConfigSpace) (bus : U8) (devs : List PciDevice) (device : U8) : List PciDevice :=
  if lowHalf (pciConfigRead c bus device 0 0x00) = pciVendorInvalid then devs
  else
    let devs := pciCheckDevice c bus device devs 0
    if byteAt (pciConfigRead c bus device 0 0x0C) 16 &&& 0x80 ≠ 0 then
      ((List.range' 1 7).map (BitVec.ofNat 8)).foldl (checkFunction c bus device) devs
    else devs

/-- `pci_check_bus`. -/
def pciCheckBus (c : ConfigSpace) (devs : List PciDevice) (bus : U8) : List PciDevice :=
  ((List.range 32).map (BitVec.ofNat 8)).foldl (checkSlot c bus) devs

/-- `pci_init`. -/
def pciInit (c : ConfigSpace) : List PciDevice :=
  let devs := pciCheckBus c [] 0
  if byteAt (pciConfigRead c 0 0 0 0x0C) 16 &&& 0x80 = 0 then devs
  else ((List.range' 1 254).map (BitVec.ofNat 8)).foldl (pciCheckBus c) devs

/-! ## Names -/

/-- `pci_class_name`; the third argument is not looked at. -/
def pciClassName (classCode subclass _progIf : U8) : String :=
  match classCode.toNat with
  | 0x00 => if subclass = 0x00 then "Legacy Device" else "VGA-Compatible"
  | 0x01 =>
    match subclass.toNat with
    | 0x00 => "SCSI"
    | 0x01 => "IDE"
    | 0x06 => "SATA (AHCI)"
    | 0x08 => "NVMe"
    | _ => "Mass Storage"
  | 0x02 => "Network"
  | 0x03 =>
    match subclass.toNat with
    | 0x00 => "VGA"
    | 0x80 => "Display"
    | _ => "Display"
  | 0x04 => "Multimedia"
  | 0x05 => "Memory"
  | 0x06 =>
    match subclass.toNat with
    | 0x00 => "Host Bridge"
    | 0x01 => "ISA Bridge"
    | 0x04 => "PCI-to-PCI Bridge"
    | 0x80 => "Bridge"
    | _ => "Bridge"
  | 0x07 =>
    match subclass.toNat with
    | 0x00 => "Serial (UART)"
    | 0x01 => "Parallel"
    | 0x03 => "Multiport Serial"
    | _ => "Communication"
  | 0x08 =>
    match subclass.toNat with
    | 0x00 => "PIC"
    | 0x01 => "DMA"
    | 0x02 => "Timer"
    | 0x03 => "RTC"
    | 0x04 => "PCI Hotplug"
    | 0x05 => "SD Host"
    | 0x06 => "IOMMU"
    | _ => "System"
  | 0x09 => "Input"
  | 0x0C =>
    match subclass.toNat with
    | 0x03 => "USB"
    | _ => "Serial Bus"
  | 0xFF => "Unassigned"
  | _ => "Unknown"

/-! ## What a read reads -/

section Address

variable (bus : U8) (device : BitVec 5) (function : BitVec 3) (offset : U8)

theorem msb_configAddress : (configAddress bus (device.setWidth 8)
    (function.setWidth 8) offset).msb = true := by
  simp [configAddress, BitVec.msb_eq_getLsbD_last]

/-- A bit of a field that was moved up by `k`. -/
theorem getLsbD_field {w : ℕ} (x : BitVec w) (k : ℕ) {i : ℕ} (hi : i < 32) :
    (x.setWidth 32 <<< k).getLsbD i = (decide (k ≤ i) && x.getLsbD (i - k)) := by
  rw [BitVec.getLsbD_shiftLeft, BitVec.getLsbD_setWidth, decide_eq_true hi, Bool.true_and,
    decide_eq_true (Nat.lt_of_le_of_lt (Nat.sub_le i k) hi), Bool.true_and, ← decide_not]
  simp only [not_lt]

/-- **The bits of an address**, as the fields that they are of. -/
theorem getLsbD_configAddress {i : ℕ} (hi : i < 32) :
    (configAddress bus (device.setWidth 8) (function.setWidth 8) offset).getLsbD i =
      (decide (i = 31) || (decide (16 ≤ i) && bus.getLsbD (i - 16)) ||
        (decide (11 ≤ i) && device.getLsbD (i - 11)) ||
        (decide (8 ≤ i) && function.getLsbD (i - 8)) || (offset &&& 0xFC).getLsbD i) := by
  have henable : ∀ i < 32, ((2147483648 : ℕ) : U32).getLsbD i = decide (i = 31) := by decide
  have hdevice : (device.setWidth 8).setWidth 32 = device.setWidth 32 :=
    BitVec.setWidth_setWidth (by decide)
  have hfunction : (function.setWidth 8).setWidth 32 = function.setWidth 32 :=
    BitVec.setWidth_setWidth (by decide)
  rw [configAddress, BitVec.getLsbD_or, BitVec.getLsbD_or, BitVec.getLsbD_or, BitVec.getLsbD_or,
    henable i hi, getLsbD_field bus 16 hi, hdevice, getLsbD_field device 11 hi, hfunction,
    getLsbD_field function 8 hi, BitVec.getLsbD_setWidth, decide_eq_true hi, Bool.true_and]

theorem extractLsb'_configAddress_bus :
    (configAddress bus (device.setWidth 8) (function.setWidth 8) offset).extractLsb'
      16 8 = bus := by
  ext i hi
  have hdevice : device.getLsbD (16 + i - 11) = false := BitVec.getLsbD_of_ge _ _ (by omega)
  have hfunction : function.getLsbD (16 + i - 8) = false := BitVec.getLsbD_of_ge _ _ (by omega)
  have hoffset : (offset &&& 0xFC).getLsbD (16 + i) = false := BitVec.getLsbD_of_ge _ _ (by omega)
  rw [← BitVec.getLsbD_eq_getElem, BitVec.getLsbD_extractLsb', decide_eq_true hi, Bool.true_and,
    getLsbD_configAddress _ _ _ _ (by omega), hdevice, hfunction, hoffset]
  simp [show 16 + i ≠ 31 by omega, hi, BitVec.getLsbD_eq_getElem]

theorem extractLsb'_configAddress_device :
    (configAddress bus (device.setWidth 8) (function.setWidth 8) offset).extractLsb' 11
      5 = device := by
  ext i hi
  have hfunction : function.getLsbD (11 + i - 8) = false := BitVec.getLsbD_of_ge _ _ (by omega)
  have hoffset : (offset &&& 0xFC).getLsbD (11 + i) = false := BitVec.getLsbD_of_ge _ _ (by omega)
  rw [← BitVec.getLsbD_eq_getElem, BitVec.getLsbD_extractLsb', decide_eq_true hi, Bool.true_and,
    getLsbD_configAddress _ _ _ _ (by omega), hfunction, hoffset]
  simp [show 11 + i ≠ 31 by omega, show ¬ 16 ≤ 11 + i by omega, hi, BitVec.getLsbD_eq_getElem]

theorem extractLsb'_configAddress_function :
    (configAddress bus (device.setWidth 8) (function.setWidth 8) offset).extractLsb' 8 3 =
      function := by
  ext i hi
  have hoffset : (offset &&& 0xFC).getLsbD (8 + i) = false := BitVec.getLsbD_of_ge _ _ (by omega)
  rw [← BitVec.getLsbD_eq_getElem, BitVec.getLsbD_extractLsb', decide_eq_true hi, Bool.true_and,
    getLsbD_configAddress _ _ _ _ (by omega), hoffset]
  simp [show 8 + i ≠ 31 by omega, show ¬ 16 ≤ 8 + i by omega, show ¬ 11 ≤ 8 + i by omega, hi,
    BitVec.getLsbD_eq_getElem]

theorem extractLsb'_configAddress_offset :
    (configAddress bus (device.setWidth 8) (function.setWidth 8) offset).extractLsb' 0 8 &&& 0xFC =
      offset &&& 0xFC := by
  ext i hi
  rw [← BitVec.getLsbD_eq_getElem, BitVec.getLsbD_and, BitVec.getLsbD_extractLsb',
    decide_eq_true hi, Bool.true_and, Nat.zero_add, getLsbD_configAddress _ _ _ _ (by omega)]
  simp [show i ≠ 31 by omega, show ¬ 16 ≤ i by omega, show ¬ 11 ≤ i by omega,
    show ¬ 8 ≤ i by omega, hi]

/-- **A read reads its register**: the fields of the address do not overlap. -/
theorem pciConfigRead_eq (c : ConfigSpace) :
    pciConfigRead c bus (device.setWidth 8) (function.setWidth 8) offset =
      c bus device function (offset &&& 0xFC) := by
  rw [pciConfigRead, configData, if_pos (msb_configAddress ..), extractLsb'_configAddress_bus,
    extractLsb'_configAddress_device, extractLsb'_configAddress_function,
    extractLsb'_configAddress_offset]

end Address

end OS44
