import Mathlib.Data.Set.Card
import OS44.Pci.Pci

/-! # What the PCI scan finds

The scan is a capped enumeration in the order of bus, device and function: `pci_devices` holds the
first 64 of the functions present on the buses it visits (`pci_init_enumerates`). Which buses it
visits is decided by one bit of the host bridge, so a function behind a bridge is found exactly when
its bus is visited and the table is not full by then (`pci_init_complete_iff`). -/

namespace OS44

/-- The place of a function in the configuration space. -/
structure PciAddress where
  bus : U8
  device : BitVec 5
  function : BitVec 3
  deriving DecidableEq

/-- The order of bus, then device, then function. -/
def PciAddress.Before (a b : PciAddress) : Prop :=
  a.bus.toNat < b.bus.toNat ∨ a.bus = b.bus ∧
    (a.device.toNat < b.device.toNat ∨ a.device = b.device ∧ a.function.toNat < b.function.toNat)

/-- The vendor id. -/
def vendorId (c : ConfigSpace) (a : PciAddress) : U16 := lowHalf (c a.bus a.device a.function 0x00)

/-- The header type. -/
def headerType (c : ConfigSpace) (a : PciAddress) : U8 :=
    byteAt (c a.bus a.device a.function 0x0C) 16

/-- Bit 7 of a header type: more than one function. -/
def multiFunction (headerType : U8) : Prop := headerType &&& 0x80 ≠ 0

instance (headerType : U8) : Decidable (multiFunction headerType) :=
    inferInstanceAs (Decidable (_ ≠ _))

/-- A function is present: it has a vendor id, and a function behind function 0 needs function 0,
with bit 7 of its header type set. -/
def Present (c : ConfigSpace) (a : PciAddress) : Prop :=
  vendorId c a ≠ pciVendorInvalid ∧ (a.function ≠ 0 →
    vendorId c { a with function := 0 } ≠ pciVendorInvalid ∧
      multiFunction (headerType c { a with function := 0 }))

/-- A bus is scanned: bus 0, or one of 0..254 behind a host bridge with bit 7 of its header type. -/
def Scanned (c : ConfigSpace) (bus : U8) : Prop :=
  if multiFunction (headerType c { bus := 0, device := 0, function := 0 }) then bus.toNat < 255
  else bus = 0

instance (c : ConfigSpace) (a : PciAddress) : Decidable (Present c a) :=
    inferInstanceAs (Decidable (_ ∧ _))

instance (c : ConfigSpace) (bus : U8) : Decidable (Scanned c bus) :=
  inferInstanceAs (Decidable (ite _ _ _))

/-! ## The functions in scan order -/

variable (c : ConfigSpace)

/-- The functions behind function 0, as the scan meets them. -/
def otherFunctions (bus : U8) (device : BitVec 5) : List PciAddress :=
  (List.range' 1 7).flatMap fun f =>
    let a : PciAddress := { bus := bus, device := device, function := BitVec.ofNat 3 f }
    if vendorId c a = pciVendorInvalid then [] else [a]

/-- The functions of a device. -/
def slotFunctions (bus : U8) (device : BitVec 5) : List PciAddress :=
  let a : PciAddress := { bus := bus, device := device, function := 0 }
  if vendorId c a = pciVendorInvalid then []
  else a :: if multiFunction (headerType c a) then otherFunctions c bus device else []

/-- The functions of a bus. -/
def busFunctions (bus : U8) : List PciAddress :=
  (List.range 32).flatMap fun d => slotFunctions c bus (BitVec.ofNat 5 d)

/-- The numbers of the buses to scan. -/
def scannedBuses : List ℕ :=
  if multiFunction (headerType c { bus := 0, device := 0, function := 0 }) then List.range 255
  else [0]

/-- The functions on the scanned buses. -/
def scannedFunctions : List PciAddress :=
  (scannedBuses c).flatMap fun b => busFunctions c (BitVec.ofNat 8 b)

/-- What `pci_read_device` notes of a function. -/
def readAt (a : PciAddress) : PciDevice :=
  pciReadDevice c a.bus (a.device.setWidth 8) (a.function.setWidth 8)

/-- The table after the functions `l` have been met: the first 64 of them. -/
def capped (l : List PciAddress) : List PciDevice := (l.take pciMaxDevices).map (readAt c)

variable {c} {l : List PciAddress} {a : PciAddress}

/-- A function met is appended while there is room. -/
theorem capped_append_singleton :
    (if pciMaxDevices ≤ (capped c l).length then capped c l else capped c l ++ [readAt c a]) =
      capped c (l ++ [a]) := by
  have hlen : (capped c l).length = min pciMaxDevices l.length := by simp [capped]
  rw [hlen]
  by_cases h : pciMaxDevices ≤ l.length
  · rw [if_pos (le_min le_rfl h), capped, capped, List.take_append_of_le_length h]
  · rw [if_neg (by omega), capped, capped, List.take_of_length_le (by omega),
      List.take_of_length_le (by rw [List.length_append, List.length_singleton]; omega),
        List.map_append]
    rfl

/-- A loop that appends what each round meets appends it all. -/
theorem foldl_capped {f : List PciDevice → U8 → List PciDevice}
    {g : ℕ → List PciAddress} {is : List ℕ}
    (hf : ∀ i ∈ is, ∀ l, f (capped c l) (BitVec.ofNat 8 i) = capped c (l ++ g i))
      (l : List PciAddress) :
    (is.map (BitVec.ofNat 8)).foldl f (capped c l) = capped c (l ++ is.flatMap g) := by
  induction is generalizing l with
  | nil => rw [List.map_nil, List.foldl_nil, List.flatMap_nil, List.append_nil]
  | cons i is ih =>
    rw [List.map_cons, List.foldl_cons, hf i (List.mem_cons_self ..),
      ih fun j hj => hf j (List.mem_cons_of_mem i hj), List.flatMap_cons, List.append_assoc]

/-- A loop counter as a device or function number. -/
theorem ofNat_eq_setWidth {w i : ℕ} (hw : w ≤ 8) (hi : i < 2 ^ w) :
    BitVec.ofNat 8 i = (BitVec.ofNat w i).setWidth 8 := by
  have h8 : 2 ^ w ≤ 2 ^ 8 := Nat.pow_le_pow_right (by decide) hw
  refine BitVec.eq_of_toNat_eq ?_
  rw [BitVec.toNat_setWidth, BitVec.toNat_ofNat, BitVec.toNat_ofNat, Nat.mod_eq_of_lt hi]

theorem vendorId_eq (c : ConfigSpace) (a : PciAddress) :
    lowHalf (pciConfigRead c a.bus (a.device.setWidth 8) (a.function.setWidth 8) 0x00) =
      vendorId c a :=
  congrArg lowHalf (pciConfigRead_eq a.bus a.device a.function 0x00 c)

theorem headerType_eq (c : ConfigSpace) (a : PciAddress) :
    byteAt (pciConfigRead c a.bus (a.device.setWidth 8) (a.function.setWidth 8) 0x0C) 16 =
      headerType c a :=
  congrArg (byteAt · 16) (pciConfigRead_eq a.bus a.device a.function 0x0C c)

/-- `pci_check_device` on a function. -/
theorem pciCheckDevice_capped (l : List PciAddress) (a : PciAddress) :
    pciCheckDevice c a.bus (a.device.setWidth 8) (capped c l) (a.function.setWidth 8) =
      if vendorId c a = pciVendorInvalid then capped c l else capped c (l ++ [a]) := by
  rw [pciCheckDevice, vendorId_eq, ← capped_append_singleton]
  rfl

/-- A round of the loop over the functions. -/
theorem checkFunction_capped (a : PciAddress) (l : List PciAddress) :
    checkFunction c a.bus (a.device.setWidth 8) (capped c l) (a.function.setWidth 8) =
      capped c (l ++ if vendorId c a = pciVendorInvalid then [] else [a]) := by
  rw [checkFunction, vendorId_eq, pciCheckDevice_capped]
  by_cases h : vendorId c a = pciVendorInvalid
  · rw [if_pos h, if_neg (not_not.mpr h), if_pos h, List.append_nil]
  · rw [if_neg h, if_pos h, if_neg h]

/-- The loop over the functions. -/
theorem foldl_checkFunction (bus : U8) (device : BitVec 5) (l : List PciAddress) :
    ((List.range' 1 7).map (BitVec.ofNat 8)).foldl (checkFunction c bus (device.setWidth 8))
      (capped c l) = capped c (l ++ otherFunctions c bus device) := by
  refine foldl_capped (fun f hf l => ?_) l
  have hlt : f < 2 ^ 3 := by
    rw [List.mem_range'_1] at hf
    omega
  rw [ofNat_eq_setWidth (by decide) hlt]
  exact checkFunction_capped { bus := bus, device := device, function := BitVec.ofNat 3 f } l

/-- A round of the loop over the devices. -/
theorem checkSlot_capped (bus : U8) (device : BitVec 5) (l : List PciAddress) :
    checkSlot c bus (capped c l) (device.setWidth 8) =
      capped c (l ++ slotFunctions c bus device) := by
  have hdev := pciCheckDevice_capped (c := c) l { bus := bus, device := device, function := 0 }
  have hvendor : lowHalf (pciConfigRead c bus (device.setWidth 8) 0 0x00) =
      vendorId c { bus := bus, device := device, function := 0 } :=
    vendorId_eq c { bus := bus, device := device, function := 0 }
  have hheader : byteAt (pciConfigRead c bus (device.setWidth 8) 0 0x0C) 16 =
      headerType c { bus := bus, device := device, function := 0 } :=
    headerType_eq c { bus := bus, device := device, function := 0 }
  rw [checkSlot, slotFunctions, hvendor, hheader]
  by_cases h : vendorId c { bus := bus, device := device, function := 0 } = pciVendorInvalid
  · -- an empty slot
    simp only [if_pos h, List.append_nil]
  rw [if_neg h] at hdev
  replace hdev : pciCheckDevice c bus (device.setWidth 8) (capped c l) 0 = _ := hdev
  simp only [if_neg h, hdev]
  by_cases hm : multiFunction (headerType c { bus := bus, device := device, function := 0 })
  · rw [if_pos hm]
    refine (if_pos hm).trans ?_
    rw [foldl_checkFunction, List.append_assoc, List.singleton_append]
  · rw [if_neg hm]
    exact if_neg hm

/-- The loop over the devices. -/
theorem pciCheckBus_capped (bus : U8) (l : List PciAddress) :
    pciCheckBus c (capped c l) bus = capped c (l ++ busFunctions c bus) := by
  refine foldl_capped (fun d hd l => ?_) l
  rw [ofNat_eq_setWidth (by decide) (List.mem_range.mp hd : d < 2 ^ 5)]
  exact checkSlot_capped bus (BitVec.ofNat 5 d) l

/-- **The table after the scan**: the first 64 of the functions met. -/
theorem pciInit_eq (c : ConfigSpace) : pciInit c = capped c (scannedFunctions c) := by
  have hheader : byteAt (pciConfigRead c 0 0 0 0x0C) 16 =
      headerType c { bus := 0, device := 0, function := 0 } :=
    headerType_eq c { bus := 0, device := 0, function := 0 }
  have hbus₀ : pciCheckBus c [] 0 = capped c (busFunctions c 0) := pciCheckBus_capped 0 []
  rw [pciInit, hbus₀, hheader, scannedFunctions, scannedBuses]
  by_cases hm : multiFunction (headerType c { bus := 0, device := 0, function := 0 })
  · rw [if_pos hm]
    refine (if_neg hm).trans ((foldl_capped (fun b _ l => pciCheckBus_capped _ l) _).trans ?_)
    rw [List.range_eq_range', List.range'_succ, List.flatMap_cons]
    rfl
  · rw [if_neg hm, List.flatMap_singleton]
    exact if_pos (not_not.mp hm)

/-! ## Which functions those are -/

theorem mem_otherFunctions {bus : U8} {device : BitVec 5} :
    a ∈ otherFunctions c bus device ↔
      a.bus = bus ∧ a.device = device ∧ a.function ≠ 0 ∧ vendorId c a ≠ pciVendorInvalid := by
  simp only [otherFunctions, List.mem_flatMap, List.mem_range'_1]
  constructor
  · rintro ⟨f, hf, ha⟩
    split_ifs at ha with hvendor
    · cases ha
    · obtain rfl := List.mem_singleton.mp ha
      refine ⟨rfl, rfl, ?_, hvendor⟩
      intro h0
      have := congrArg BitVec.toNat h0
      rw [BitVec.toNat_ofNat, Nat.mod_eq_of_lt (by omega)] at this
      exact absurd this (by simp; omega)
  · rintro ⟨rfl, rfl, h0, hvendor⟩
    -- a function other than 0 is one of the seven rounds
    have hpos : a.function.toNat ≠ 0 := fun h => h0 (BitVec.eq_of_toNat_eq h)
    have heq : BitVec.ofNat 3 a.function.toNat = a.function := by simp
    refine ⟨a.function.toNat, ⟨by omega, by have := a.function.isLt; omega⟩, ?_⟩
    rw [heq, if_neg hvendor]
    exact List.mem_singleton_self a

theorem PciAddress.eq_of_function_eq_zero (h0 : a.function = 0) :
    { bus := a.bus, device := a.device, function := 0 } = a := by
  cases a
  cases h0
  rfl

theorem mem_slotFunctions {bus : U8} {device : BitVec 5} :
    a ∈ slotFunctions c bus device ↔ a.bus = bus ∧ a.device = device ∧ Present c a := by
  simp only [slotFunctions]
  by_cases hvendor : vendorId c { bus := bus, device := device, function := 0 } = pciVendorInvalid
  · rw [if_pos hvendor]
    refine iff_of_false List.not_mem_nil ?_
    -- without a function 0 no function of the slot is present
    rintro ⟨rfl, rfl, hself, hother⟩
    by_cases h0 : a.function = 0
    · exact hself (PciAddress.eq_of_function_eq_zero h0 ▸ hvendor)
    · exact (hother h0).1 hvendor
  rw [if_neg hvendor, List.mem_cons]
  constructor
  · rintro (rfl | ha)
    · exact ⟨rfl, rfl, hvendor, fun h0 => absurd rfl h0⟩
    · split_ifs at ha with hm
      · obtain ⟨rfl, rfl, -, hself⟩ := mem_otherFunctions.mp ha
        exact ⟨rfl, rfl, hself, fun _ => ⟨hvendor, hm⟩⟩
      · cases ha
  · rintro ⟨rfl, rfl, hself, hother⟩
    by_cases h0 : a.function = 0
    · exact .inl (PciAddress.eq_of_function_eq_zero h0).symm
    · right
      rw [if_pos (hother h0).2]
      exact mem_otherFunctions.mpr ⟨rfl, rfl, h0, hself⟩

theorem mem_busFunctions {bus : U8} : a ∈ busFunctions c bus ↔ a.bus = bus ∧ Present c a := by
  simp only [busFunctions, List.mem_flatMap, mem_slotFunctions]
  constructor
  · rintro ⟨d, -, hbus, -, hpresent⟩
    exact ⟨hbus, hpresent⟩
  · rintro ⟨hbus, hpresent⟩
    exact ⟨a.device.toNat, List.mem_range.mpr a.device.isLt, hbus, by simp, hpresent⟩

theorem mem_scannedFunctions : a ∈ scannedFunctions c ↔ Scanned c a.bus ∧ Present c a := by
  simp only [scannedFunctions, List.mem_flatMap, mem_busFunctions, scannedBuses, Scanned]
  have hbus : BitVec.ofNat 8 a.bus.toNat = a.bus := by simp
  by_cases hm : multiFunction (headerType c { bus := 0, device := 0, function := 0 })
  · rw [if_pos hm, if_pos hm]
    constructor
    · rintro ⟨b, hb, hab, hpresent⟩
      rw [List.mem_range] at hb
      rw [hab, BitVec.toNat_ofNat, Nat.mod_eq_of_lt (by omega)]
      exact ⟨hb, hpresent⟩
    · rintro ⟨hlt, hpresent⟩
      exact ⟨a.bus.toNat, List.mem_range.mpr hlt, hbus.symm, hpresent⟩
  · rw [if_neg hm, if_neg hm]
    constructor
    · rintro ⟨b, hb, hab, hpresent⟩
      rw [List.mem_singleton.mp hb] at hab
      exact ⟨hab, hpresent⟩
    · rintro ⟨h0, hpresent⟩
      exact ⟨0, List.mem_singleton_self 0, h0, hpresent⟩

/-! ## Their order -/

theorem pairwise_otherFunctions (bus : U8) (device : BitVec 5) :
    (otherFunctions c bus device).Pairwise PciAddress.Before := by
  refine List.pairwise_flatMap.mpr ⟨?_, ?_⟩
  · intro f _
    dsimp only
    split_ifs
    · exact List.Pairwise.nil
    · exact List.pairwise_singleton _ _
  · refine (List.pairwise_lt_range' 1).imp_of_mem fun {f g} hf hg hfg x hx y hy => ?_
    rw [List.mem_range'_1] at hf hg
    dsimp only at hx hy
    split_ifs at hx hy
    · cases hx
    · cases hx
    · cases hy
    · rw [List.mem_singleton.mp hx, List.mem_singleton.mp hy]
      right
      refine ⟨rfl, .inr ⟨rfl, ?_⟩⟩
      rw [BitVec.toNat_ofNat, BitVec.toNat_ofNat]
      omega

theorem pairwise_slotFunctions (bus : U8) (device : BitVec 5) :
    (slotFunctions c bus device).Pairwise PciAddress.Before := by
  simp only [slotFunctions]
  split_ifs with hvendor hm
  · exact List.Pairwise.nil
  · refine List.pairwise_cons.mpr ⟨?_, pairwise_otherFunctions bus device⟩
    intro b hb
    obtain ⟨rfl, rfl, h0, -⟩ := mem_otherFunctions.mp hb
    right
    refine ⟨rfl, .inr ⟨rfl, ?_⟩⟩
    have hpos : b.function.toNat ≠ 0 := fun h => h0 (BitVec.eq_of_toNat_eq h)
    exact Nat.pos_of_ne_zero hpos
  · exact List.pairwise_singleton _ _

theorem pairwise_busFunctions (bus : U8) : (busFunctions c bus).Pairwise PciAddress.Before := by
  refine List.pairwise_flatMap.mpr ⟨fun d _ => pairwise_slotFunctions bus _, ?_⟩
  refine List.pairwise_lt_range.imp_of_mem fun {d e} hd he hde x hx y hy => ?_
  obtain ⟨hxbus, hxdev, -⟩ := mem_slotFunctions.mp hx
  obtain ⟨hybus, hydev, -⟩ := mem_slotFunctions.mp hy
  rw [List.mem_range] at hd he
  right
  refine ⟨hxbus.trans hybus.symm, .inl ?_⟩
  rw [hxdev, hydev, BitVec.toNat_ofNat, BitVec.toNat_ofNat]
  omega

/-- The scan meets the functions in increasing order. -/
theorem pairwise_scannedFunctions (c : ConfigSpace) :
    (scannedFunctions c).Pairwise PciAddress.Before := by
  have hlt : (scannedBuses c).Pairwise (· < ·) := by
    rw [scannedBuses]
    split_ifs
    · exact List.pairwise_lt_range
    · exact List.pairwise_singleton _ _
  have hbound : ∀ b ∈ scannedBuses c, b < 255 := by
    intro b hb
    rw [scannedBuses] at hb
    split_ifs at hb
    · exact List.mem_range.mp hb
    · rw [List.mem_singleton.mp hb]
      decide
  -- bus numbers below 255 fit in a byte, so that the buses are in order
  refine List.pairwise_flatMap.mpr ⟨fun b _ => pairwise_busFunctions _, ?_⟩
  refine hlt.imp_of_mem fun {b d} hb hd hbd x hx y hy => ?_
  have hb := hbound b hb
  have hd := hbound d hd
  left
  rw [(mem_busFunctions.mp hx).1, (mem_busFunctions.mp hy).1, BitVec.toNat_ofNat,
    BitVec.toNat_ofNat]
  omega

/-- **The PCI scan, for every configuration space**: the table is the first 64 of the functions
present on the scanned buses, in increasing order of bus, device and function. -/
theorem pci_init_enumerates (c : ConfigSpace) :
    ∃ l : List PciAddress, l.Pairwise PciAddress.Before ∧
      (∀ a, a ∈ l ↔ Scanned c a.bus ∧ Present c a) ∧
      pciInit c = (l.take 64).map (readAt c) :=
  ⟨scannedFunctions c, pairwise_scannedFunctions c, fun _ => mem_scannedFunctions, pciInit_eq c⟩

/-! ## Completeness -/

/-- An element of an increasing list is among the first `n` exactly when fewer than `n` elements are
below it. -/
theorem mem_take_iff_of_pairwise {α : Type} {R : α → α → Prop} (hasymm : ∀ x y, R x y → ¬ R y x)
    {l : List α} {x : α} {n : ℕ} (hl : l.Pairwise R) (hx : x ∈ l) :
    x ∈ l.take n ↔ {y | y ∈ l ∧ R y x}.encard < n := by
  classical
  obtain ⟨l₁, l₂, rfl⟩ := List.append_of_mem hx
  obtain ⟨h₁, h₂, h₁₂⟩ := List.pairwise_append.mp hl
  have hafter := (List.pairwise_cons.mp h₂).1
  have hbefore : ∀ y ∈ l₁, R y x := fun y hy => h₁₂ y hy x (List.mem_cons_self ..)
  have hself : ¬ R x x := fun h => hasymm x x h h
  have hnodup : l₁.Nodup := h₁.imp fun hab => by
    rintro rfl
    exact hasymm _ _ hab hab
  -- what is before `x` in the order is before `x` in the list
  have hset : {y | y ∈ l₁ ++ x :: l₂ ∧ R y x} = (l₁.toFinset : Set α) := by
    ext y
    rw [Set.mem_ofPred_eq, List.mem_append, List.mem_cons, List.coe_toFinset, Set.mem_ofPred_eq]
    constructor
    · rintro ⟨hy | rfl | hy, hyx⟩
      · exact hy
      · exact absurd hyx hself
      · exact absurd hyx (hasymm x y (hafter y hy))
    · exact fun hy => ⟨.inl hy, hbefore y hy⟩
  rw [hset, Set.encard_coe_eq_coe_finsetCard, List.toFinset_card_of_nodup hnodup, Nat.cast_lt,
    List.take_append, List.mem_append]
  constructor
  · rintro (hmem | hmem)
    · exact absurd (hbefore x (List.mem_of_mem_take hmem)) hself
    · -- `x` itself is reached only if less than `n` elements are before it
      by_contra hle
      rw [Nat.sub_eq_zero_of_le (not_lt.mp hle), List.take_zero] at hmem
      cases hmem
  · intro hlt
    obtain ⟨k, hk⟩ : ∃ k, n - l₁.length = k + 1 := ⟨n - l₁.length - 1, by omega⟩
    rw [hk, List.take_succ_cons]
    exact .inr (List.mem_cons_self ..)

theorem PciAddress.Before.asymm (a b : PciAddress) (hab : a.Before b) : ¬ b.Before a := by
  simp only [PciAddress.Before, ← BitVec.toNat_inj] at hab ⊢
  omega

/-- A PCI-to-PCI bridge: class 06, subclass 04. -/
def IsBridge (c : ConfigSpace) (a : PciAddress) : Prop :=
  byteAt (c a.bus a.device a.function 0x08) 24 = 0x06 ∧
    byteAt (c a.bus a.device a.function 0x08) 16 = 0x04

/-- The secondary bus number of a bridge. -/
def secondaryBus (c : ConfigSpace) (a : PciAddress) : U8 :=
  byteAt (c a.bus a.device a.function 0x18) 8

/-- A bus is reachable: bus 0, or the secondary bus of a bridge present on a reachable bus. -/
inductive Reachable (c : ConfigSpace) : U8 → Prop
  | root : Reachable c 0
  | bridge (a : PciAddress) (hbus : Reachable c a.bus) (hpresent : Present c a)
      (hbridge : IsBridge c a) : Reachable c (secondaryBus c a)

/-- A function is in the table. -/
def Found (c : ConfigSpace) (a : PciAddress) : Prop :=
  ∃ d ∈ pciInit c, d.bus = a.bus ∧ d.device = a.device.setWidth 8 ∧
    d.function = a.function.setWidth 8

/-- The functions the scan meets before this one. -/
def metBefore (c : ConfigSpace) (a : PciAddress) : Set PciAddress :=
  {b | (Scanned c b.bus ∧ Present c b) ∧ b.Before a}

/-- **A function is found** exactly when the scan meets it, and with room left in the table. -/
theorem found_iff : Found c a ↔
    (Scanned c a.bus ∧ Present c a) ∧ (metBefore c a).encard < 64 := by
  have hfound : Found c a ↔ a ∈ (scannedFunctions c).take 64 := by
    rw [Found, pciInit_eq, capped]
    constructor
    · -- the address of an entry determines the function it was read from
      rintro ⟨d, hd, hbus, hdevice, hfunction⟩
      obtain ⟨b, hb, rfl⟩ := List.mem_map.mp hd
      have hinj : ∀ {w : ℕ} {x y : BitVec w}, w ≤ 8 → x.setWidth 8 = y.setWidth 8 → x = y := by
        intro w x y hw h
        have := congrArg (BitVec.setWidth w) h
        rwa [BitVec.setWidth_setWidth_of_le _ hw, BitVec.setWidth_setWidth_of_le _ hw,
          BitVec.setWidth_eq, BitVec.setWidth_eq] at this
      have hab : b = a := by
        obtain ⟨bus, device, function⟩ := b
        obtain ⟨bus', device', function'⟩ := a
        obtain rfl : bus = bus' := hbus
        obtain rfl : device = device' := hinj (by decide) hdevice
        obtain rfl : function = function' := hinj (by decide) hfunction
        rfl
      exact hab ▸ hb
    · intro ha
      exact ⟨readAt c a, List.mem_map_of_mem ha, rfl, rfl, rfl⟩
  rw [hfound, ← mem_scannedFunctions]
  constructor
  · intro ha
    have hmem := List.mem_of_mem_take ha
    refine ⟨hmem, ?_⟩
    have :=
        (mem_take_iff_of_pairwise PciAddress.Before.asymm (pairwise_scannedFunctions c) hmem).mp ha
    simpa only [metBefore, ← mem_scannedFunctions, Nat.cast_ofNat] using this
  · rintro ⟨hmem, hlt⟩
    refine (mem_take_iff_of_pairwise PciAddress.Before.asymm
      (pairwise_scannedFunctions c) hmem).mpr ?_
    simpa only [metBefore, ← mem_scannedFunctions, Nat.cast_ofNat] using hlt

/-- **Completeness, exactly**: every function present on a reachable bus is found if and only if the
buses of these functions are scanned and the table is not full when the scan meets them. -/
theorem pci_init_complete_iff (c : ConfigSpace) :
    (∀ a, Reachable c a.bus → Present c a → Found c a) ↔
      ∀ a, Reachable c a.bus → Present c a →
        Scanned c a.bus ∧ (metBefore c a).encard < 64 := by
  refine forall_congr' fun a => imp_congr_right fun _ => imp_congr_right fun hpresent => ?_
  rw [found_iff]
  exact ⟨fun h => ⟨h.1.1, h.2⟩, fun h => ⟨⟨h.1, hpresent⟩, h.2⟩⟩

/-- A machine with a single-function host bridge, a bridge to bus 1 at 0:1.0 and a network card at
1:0.0. -/
def bridgedMachine : ConfigSpace := fun bus device function register =>
  if bus = 0 ∧ device = 0 ∧ function = 0 then
    if register = 0x00 then 0x12378086 else if register = 0x08 then 0x06000000 else 0
  else if bus = 0 ∧ device = 1 ∧ function = 0 then
    if register = 0x00 then 0x00011b36
    else if register = 0x08 then 0x06040000
    else if register = 0x0C then 0x00010000
    else if register = 0x18 then 0x00010100
    else 0
  else if bus = 1 ∧ device = 0 ∧ function = 0 then
    if register = 0x00 then 0x100e8086 else if register = 0x08 then 0x02000000 else 0
  else 0xFFFFFFFF

/-- **The card behind the bridge is missed**, on a machine with three functions in all. -/
theorem bridged_card_is_missed :
    {a | Reachable bridgedMachine a.bus ∧ Present bridgedMachine a}.encard ≤ 64 ∧
      ∃ a, Reachable bridgedMachine a.bus ∧ Present bridgedMachine a ∧
        ¬ Found bridgedMachine a := by
  have hbridge : Reachable bridgedMachine 1 :=
    Reachable.bridge { bus := 0, device := 1, function := 0 } Reachable.root (by decide)
      ⟨by decide, by decide⟩
  refine ⟨?_, { bus := 1, device := 0, function := 0 }, hbridge, by decide, ?_⟩
  · -- three functions answer: the root, the bridge and the card behind it
    have hsub : {a | Reachable bridgedMachine a.bus ∧ Present bridgedMachine a} ⊆
        (({{ bus := 0, device := 0, function := 0 }, { bus := 0, device := 1, function := 0 },
          { bus := 1, device := 0, function := 0 }} : Finset PciAddress) : Set PciAddress) := by
      rintro ⟨bus, device, function⟩ ⟨-, hvendor, -⟩
      by_cases h₁ : bus = 0 ∧ device = 0 ∧ function = 0
      · obtain ⟨rfl, rfl, rfl⟩ := h₁
        simp
      by_cases h₂ : bus = 0 ∧ device = 1 ∧ function = 0
      · obtain ⟨rfl, rfl, rfl⟩ := h₂
        simp
      by_cases h₃ : bus = 1 ∧ device = 0 ∧ function = 0
      · obtain ⟨rfl, rfl, rfl⟩ := h₃
        simp
      rw [vendorId, bridgedMachine, if_neg h₁, if_neg h₂, if_neg h₃] at hvendor
      exact absurd (by decide) hvendor
    refine (Set.encard_le_encard hsub).trans ?_
    rw [Set.encard_coe_eq_coe_finsetCard]
    exact_mod_cast (Finset.card_le_three.trans (by decide) : _ ≤ 64)
  · -- the host bridge has a single function, so that only bus 0 is scanned
    intro hfound
    have hscanned := (found_iff.mp hfound).1.1
    revert hscanned
    decide

end OS44
