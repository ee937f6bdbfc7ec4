import Mathlib.Tactic.Common
import OS44.BootInfo

/-! # Handing the memory map over (the end of `EfiMain`)

`EfiMain` asks the firmware for the memory map, fills in the `BootInfo` and leaves the boot
services, which the firmware only allows to a caller that knows the key of the current map.
Allocating memory may change the map, so the call may be refused, and `EfiMain` then fetches the map
again and retries. The size and the descriptor size in the `BootInfo` are still those of the first
map: the kernel gets the map that was accepted only if they happen
to fit (`efi_main_hands_over`). -/

namespace OS44

/-! ## The firmware -/

/-- A memory map of the firmware. -/
structure MemoryMap where
  bytes : List U8
  length_lt : bytes.length < 2 ^ 64
  descSize : U64
  key : U64

/-- The size of a map in bytes. -/
def MemoryMap.size (m : MemoryMap) : U64 := BitVec.ofNat 64 m.bytes.length

/-- The mode of the `EFI_GRAPHICS_OUTPUT_PROTOCOL`. -/
structure GopMode where
  frameBufferBase : U64
  horizontalResolution : U32
  verticalResolution : U32
  pixelsPerScanLine : U32
  pixelFormat : U32

/-- What the firmware answers: the memory map before, between and after the two calls of
`AllocatePool`, and whether it would let the caller with the current key go. A key stands for one
map. -/
structure Firmware where
  gop : GopMode
  firmwareVendor : Fin 64 → U16
  firmwareRevision : U32
  /-- The address of the pool allocated for the map. -/
  pool : U64
  map₀ : MemoryMap
  map₁ : MemoryMap
  map₂ : MemoryMap
  exit₁ : Bool
  exit₂ : Bool
  key_inj : map₁.key = map₂.key → map₁ = map₂

/-! ## The bootloader -/

/-- The local variables of `EfiMain`; `none` is a variable never written. `buffer` is the memory
behind `mmap` (`none`: the null pointer). -/
structure EfiLocals where
  mmapSize : U64
  mapKey : Option U64
  descSize : Option U64
  buffer : Option (ℕ → Option U8)

/-- The locals of `EfiMain` before the memory map is asked for. -/
def EfiLocals.fresh : EfiLocals where
  mmapSize := 0
  mapKey := none
  descSize := none
  buffer := none

/-- `GetMemoryMap`: with room for it the whole map is written, else only its size. -/
def getMemoryMap (cur : MemoryMap) (s : EfiLocals) : EfiLocals :=
  match s.buffer with
  | none => { s with mmapSize := cur.size }
  | some buffer =>
    if cur.size.toNat ≤ s.mmapSize.toNat then
      { mmapSize := cur.size
        mapKey := some cur.key
        descSize := some cur.descSize
        buffer := some fun i => if h : i < cur.bytes.length then some cur.bytes[i] else buffer i }
    else { s with mmapSize := cur.size }

/-- `ExitBootServices`: granted only to the current key. A key never written holds whatever was on
the stack, so it may be the current one. -/
def exitBootServices (willing : Bool) (cur : MemoryMap) (key : Option U64) : Bool :=
  willing && key.all fun k => k == cur.key

/-- The `BootInfo` filled in by `EfiMain`; `mmapDescSize` may be a copy of a
variable never written. -/
structure LoaderInfo where
  magic : U32
  framebuffer : U64
  fbWidth : U64
  fbHeight : U64
  fbPitch : U64
  fbFormat : U32
  mmap : U64
  mmapSize : U64
  mmapDescSize : Option U64
  fwVendor : Fin 64 → U16
  fwRevision : U32

/-- What reaches `kernel_main`: the `BootInfo` and the memory behind `info->mmap`. -/
structure HandOff where
  info : LoaderInfo
  buffer : Option (ℕ → Option U8)

/-- The part of `EfiMain` that fills in the `BootInfo`. -/
def fillBootInfo (fw : Firmware) (s : EfiLocals) : LoaderInfo where
  magic := 0xB007B007
  framebuffer := fw.gop.frameBufferBase
  fbWidth := fw.gop.horizontalResolution.setWidth 64
  fbHeight := fw.gop.verticalResolution.setWidth 64
  fbPitch := (fw.gop.pixelsPerScanLine * 4).setWidth 64
  fbFormat := fw.gop.pixelFormat
  mmap := fw.pool
  mmapSize := s.mmapSize
  mmapDescSize := s.descSize
  fwVendor := fw.firmwareVendor
  fwRevision := fw.firmwareRevision

/-- The locals before the `BootInfo` is filled in: the size of the map is asked for, a pool somewhat
larger is allocated, and the map is fetched. -/
def fetchMemoryMap (fw : Firmware) : EfiLocals :=
  let s := getMemoryMap fw.map₀ EfiLocals.fresh
  getMemoryMap fw.map₁ { s with mmapSize := s.mmapSize + 4096, buffer := some fun _ => none }

/-- `EfiMain` after `load_kernel`; `none` if it never reaches `kernel_main`. -/
def efiMain (fw : Firmware) : Option HandOff :=
  let s := fetchMemoryMap fw
  let info := fillBootInfo fw s
  if exitBootServices fw.exit₁ fw.map₂ s.mapKey then some { info := info, buffer := s.buffer }
  else
    let s := getMemoryMap fw.map₂ s
    if exitBootServices fw.exit₂ fw.map₂ s.mapKey then some { info := info, buffer := s.buffer }
    else none

/-! ## What the kernel gets -/

/-- **The hand-off describes the map `m` in the pool**: where it is, its size, its descriptor size
and all of its bytes. -/
structure HandOff.Describes (h : HandOff) (pool : U64) (m : MemoryMap) : Prop where
  mmap_eq : h.info.mmap = pool
  size_eq : h.info.mmapSize = m.size
  descSize_eq : h.info.mmapDescSize = some m.descSize
  bytes_eq : ∃ buffer, h.buffer = some buffer ∧ ∀ i (hi : i < m.bytes.length),
    buffer i = some m.bytes[i]

/-- When the hand-off is right. If the pool has room for the map: the first `ExitBootServices` is
granted, or none is, or the map fetched for the second has the size and descriptor size of the
first. If it has no room: none is granted. -/
def RefreshOk (fw : Firmware) : Prop :=
  if fw.map₁.size.toNat ≤ (fw.map₀.size + 4096).toNat then
    (fw.exit₁ = true ∧ fw.map₁ = fw.map₂) ∨ fw.exit₂ = false ∨
      fw.map₁.bytes.length < fw.map₂.bytes.length ∨
      (fw.map₁.bytes.length = fw.map₂.bytes.length ∧ fw.map₁.descSize = fw.map₂.descSize)
  else fw.exit₁ = false ∧ fw.exit₂ = false

variable {fw : Firmware} {m : MemoryMap} {s : EfiLocals} {buffer : ℕ → Option U8}

theorem MemoryMap.toNat_size (m : MemoryMap) : m.size.toNat = m.bytes.length := by
  rw [MemoryMap.size, BitVec.toNat_ofNat, Nat.mod_eq_of_lt m.length_lt]

/-- The locals after a map has been fetched into a buffer with room for it. -/
def fetched (m : MemoryMap) (buffer : ℕ → Option U8) : EfiLocals where
  mmapSize := m.size
  mapKey := some m.key
  descSize := some m.descSize
  buffer := some fun i => if h : i < m.bytes.length then some m.bytes[i] else buffer i

theorem getMemoryMap_of_le (hb : s.buffer = some buffer) (h : m.size.toNat ≤ s.mmapSize.toNat) :
    getMemoryMap m s = fetched m buffer := by
  simp only [getMemoryMap, hb, if_pos h, fetched]

theorem getMemoryMap_of_lt (h : ¬ m.size.toNat ≤ s.mmapSize.toNat) :
    getMemoryMap m s = { s with mmapSize := m.size } := by
  unfold getMemoryMap
  split
  · rfl
  · rw [if_neg h]

/-- Without a buffer only the size is written. -/
theorem getMemoryMap_of_none (h : s.buffer = none) :
    getMemoryMap m s = { s with mmapSize := m.size } := by
  simp only [getMemoryMap, h]

/-- The first fetch with room. -/
theorem fetchMemoryMap_of_le (h : fw.map₁.size.toNat ≤ (fw.map₀.size + 4096).toNat) :
    fetchMemoryMap fw = fetched fw.map₁ fun _ => none := by
  have h₀ : getMemoryMap fw.map₀ EfiLocals.fresh =
      { EfiLocals.fresh with mmapSize := fw.map₀.size } :=
    getMemoryMap_of_none rfl
  rw [fetchMemoryMap, h₀]
  exact getMemoryMap_of_le rfl h

/-- The first fetch without room: the key and the descriptor size are never written. -/
theorem fetchMemoryMap_of_lt (h : ¬ fw.map₁.size.toNat ≤ (fw.map₀.size + 4096).toNat) :
    fetchMemoryMap fw =
      { EfiLocals.fresh with mmapSize := fw.map₁.size, buffer := some fun _ => none } := by
  have h₀ : getMemoryMap fw.map₀ EfiLocals.fresh =
      { EfiLocals.fresh with mmapSize := fw.map₀.size } :=
    getMemoryMap_of_none rfl
  rw [fetchMemoryMap, h₀]
  exact getMemoryMap_of_lt h

/-- What was fetched is described by its own size and descriptor size. -/
theorem describes_fetched_iff (fw : Firmware) (m m' : MemoryMap) (buffer : ℕ → Option U8) :
    HandOff.Describes { info := fillBootInfo fw (fetched m' fun _ => none),
                        buffer := (fetched m buffer).buffer } fw.pool m ↔
      m'.bytes.length = m.bytes.length ∧ m'.descSize = m.descSize := by
  have hsize : m'.size = m.size ↔ m'.bytes.length = m.bytes.length := by
    rw [← BitVec.toNat_inj, m'.toNat_size, m.toNat_size]
  constructor
  · intro h
    exact ⟨hsize.mp h.size_eq, Option.some.inj h.descSize_eq⟩
  · rintro ⟨hlen, hdesc⟩
    exact ⟨rfl, hsize.mpr hlen, congrArg some hdesc, _, rfl, fun i hi => dif_pos hi⟩

/-- The first `ExitBootServices` is granted exactly to a map that did not change since. -/
theorem exitBootServices_fetched (hs : fetchMemoryMap fw = fetched fw.map₁ buffer) :
    exitBootServices fw.exit₁ fw.map₂ (fetchMemoryMap fw).mapKey = true ↔
      fw.exit₁ = true ∧ fw.map₁ = fw.map₂ := by
  have hkey : fw.map₁.key = fw.map₂.key ↔ fw.map₁ = fw.map₂ := ⟨fw.key_inj, congrArg MemoryMap.key⟩
  simp [hs, exitBootServices, fetched, hkey]

/-- Granted at once. -/
theorem efiMain_of_unchanged (hs : fetchMemoryMap fw = fetched fw.map₁ buffer)
    (h : fw.exit₁ = true ∧ fw.map₁ = fw.map₂) :
    efiMain fw = some { info := fillBootInfo fw (fetched fw.map₁ buffer),
                        buffer := (fetched fw.map₁ buffer).buffer } := by
  simp only [efiMain]
  rw [if_pos ((exitBootServices_fetched hs).mpr h), hs]

/-- Granted on the retry: the buffer holds the current map, the `BootInfo` describes
the first one. -/
theorem efiMain_of_retry (hs : fetchMemoryMap fw = fetched fw.map₁ buffer)
    (h : ¬ (fw.exit₁ = true ∧ fw.map₁ = fw.map₂)) (hexit : fw.exit₂ = true)
    (hle : fw.map₂.bytes.length ≤ fw.map₁.bytes.length) :
    ∃ buffer', efiMain fw = some { info := fillBootInfo fw (fetched fw.map₁ buffer),
                                   buffer := (fetched fw.map₂ buffer').buffer } := by
  have hfit : fw.map₂.size.toNat ≤ (fetched fw.map₁ buffer).mmapSize.toNat := by
    rw [fetched, MemoryMap.toNat_size, MemoryMap.toNat_size]
    exact hle
  simp only [efiMain]
  rw [if_neg (mt (exitBootServices_fetched hs).mp h), hs, getMemoryMap_of_le rfl hfit,
    if_pos (by simp [exitBootServices, fetched, hexit])]
  exact ⟨_, rfl⟩

/-- Never granted: the firmware refuses, or the map no longer fits and its key is not learnt. -/
theorem efiMain_of_refused (hs : fetchMemoryMap fw = fetched fw.map₁ buffer)
    (h : ¬ (fw.exit₁ = true ∧ fw.map₁ = fw.map₂))
    (hno : fw.exit₂ = false ∨ fw.map₁.bytes.length < fw.map₂.bytes.length) :
    efiMain fw = none := by
  simp only [efiMain]
  rw [if_neg (mt (exitBootServices_fetched hs).mp h), if_neg]
  rcases hno with hexit | hlt
  · simp [exitBootServices, hexit]
  · have hfit : ¬ fw.map₂.size.toNat ≤ (fetched fw.map₁ buffer).mmapSize.toNat := by
      rw [fetched, MemoryMap.toNat_size, MemoryMap.toNat_size]
      exact not_le.mpr hlt
    have hkey : fw.map₁.key ≠ fw.map₂.key := fun hk => (fw.key_inj hk ▸ hlt).false
    rw [hs, getMemoryMap_of_lt hfit]
    simp [exitBootServices, fetched, hkey]

/-- Without room for the map both calls of `ExitBootServices` are at the firmware's mercy, and the
descriptor size handed over was never written. -/
theorem efiMain_of_lt (hroom : ¬ fw.map₁.size.toNat ≤ (fw.map₀.size + 4096).toNat) :
    (efiMain fw = none ↔ fw.exit₁ = false ∧ fw.exit₂ = false) ∧
      ∀ h, efiMain fw = some h → h.info.mmapDescSize = none := by
  have hs := fetchMemoryMap_of_lt hroom
  have hkey : exitBootServices fw.exit₂ fw.map₂ (getMemoryMap fw.map₂ (fetchMemoryMap fw)).mapKey
      = fw.exit₂ := by
    by_cases hfit : fw.map₂.size.toNat ≤ (fetchMemoryMap fw).mmapSize.toNat
    · rw [getMemoryMap_of_le (by rw [hs]) hfit]
      simp [exitBootServices, fetched]
    · rw [getMemoryMap_of_lt hfit, hs]
      simp [exitBootServices, EfiLocals.fresh]
  -- the map that did not fit left the descriptor size unwritten
  have hdesc : (fillBootInfo fw (fetchMemoryMap fw)).mmapDescSize = none := by
    rw [hs]
    rfl
  simp only [efiMain, hkey]
  rw [hs] at hdesc ⊢
  simp only [exitBootServices, EfiLocals.fresh, Option.all_none, Bool.and_true] at hdesc ⊢
  cases hexit₁ : fw.exit₁ with
  | true =>
    refine ⟨by simp, ?_⟩
    rintro _ ⟨⟩
    exact hdesc
  | false =>
    cases hexit₂ : fw.exit₂ with
    | true =>
      refine ⟨by simp, ?_⟩
      rintro _ ⟨⟩
      exact hdesc
    | false => simp

/-- **The hand-off, exactly.** For all answers of the firmware: whatever reaches `kernel_main`
points at the map whose key was accepted and describes it if and only if the size and descriptor
size in the `BootInfo` did not go stale. -/
theorem efi_main_hands_over (fw : Firmware) :
    (∀ h, efiMain fw = some h → h.Describes fw.pool fw.map₂) ↔ RefreshOk fw := by
  by_cases hroom : fw.map₁.size.toNat ≤ (fw.map₀.size + 4096).toNat
  · have hs := fetchMemoryMap_of_le hroom
    rw [RefreshOk, if_pos hroom]
    by_cases h₁ : fw.exit₁ = true ∧ fw.map₁ = fw.map₂
    · -- the first call is granted, with the map that was fetched
      refine iff_of_true (fun h hh => ?_) (.inl h₁)
      rw [efiMain_of_unchanged hs h₁] at hh
      rw [← Option.some.inj hh, ← h₁.2]
      exact (describes_fetched_iff fw _ _ _).mpr ⟨rfl, rfl⟩
    by_cases hno : fw.exit₂ = false ∨ fw.map₁.bytes.length < fw.map₂.bytes.length
    · -- neither call is granted, so that nothing is handed over
      refine iff_of_true (fun h hh => ?_) (.inr (or_assoc.mp (.inl hno)))
      rw [efiMain_of_refused hs h₁ hno] at hh
      cases hh
    · -- the retry is granted: the buffer is the new map, the sizes are those of the first
      have hexit : fw.exit₂ = true := by simpa using (not_or.mp hno).1
      obtain ⟨buffer', hrun⟩ := efiMain_of_retry hs h₁ hexit (not_lt.mp (not_or.mp hno).2)
      have hd := describes_fetched_iff fw fw.map₂ fw.map₁ buffer'
      rw [hrun]
      constructor
      · intro h
        exact .inr (.inr (.inr (hd.mp (h _ rfl))))
      · rintro (h | h | h | h) _ ⟨⟩
        · exact absurd h h₁
        · exact absurd (.inl h) hno
        · exact absurd (.inr h) hno
        · exact hd.mpr h
  · -- the second fetch had no room: the descriptor size that is handed over was never written
    obtain ⟨hnone, hdesc⟩ := efiMain_of_lt hroom
    rw [RefreshOk, if_neg hroom, ← hnone]
    constructor
    · intro h
      rw [Option.eq_none_iff_forall_ne_some]
      intro o ho
      have := (h o ho).descSize_eq
      rw [hdesc o ho] at this
      cases this
    · intro hrun h hh
      rw [hrun] at hh
      cases hh

/-- A firmware whose map shrinks by one descriptor when the `BootInfo` is allocated. -/
def shrinkingFirmware : Firmware where
  gop := { frameBufferBase := 0x80000000, horizontalResolution := 1280, verticalResolution := 800
           pixelsPerScanLine := 1280, pixelFormat := 1 }
  firmwareVendor := fun _ => 0
  firmwareRevision := 0
  pool := 0x100000
  map₀ := { bytes := List.replicate 96 0, length_lt := by simp, descSize := 48, key := 1 }
  map₁ := { bytes := List.replicate 96 0, length_lt := by simp, descSize := 48, key := 1 }
  map₂ := { bytes := List.replicate 48 0, length_lt := by simp, descSize := 48, key := 2 }
  exit₁ := true
  exit₂ := true
  key_inj := by simp

/-- There the kernel is told of 96 bytes, and 48 of them are left over from the first map. -/
theorem shrinking_map_is_stale :
    ∃ h, efiMain shrinkingFirmware = some h ∧
      ¬ h.Describes shrinkingFirmware.pool shrinkingFirmware.map₂ := by
  have hs : fetchMemoryMap shrinkingFirmware = fetched shrinkingFirmware.map₁ fun _ => none :=
    fetchMemoryMap_of_le (by decide)
  obtain ⟨buffer', hrun⟩ := efiMain_of_retry hs (by simp [shrinkingFirmware]) rfl (by decide)
  refine ⟨_, hrun, ?_⟩
  intro h
  have hlen := ((describes_fetched_iff _ _ _ _).mp h).1
  revert hlen
  decide

end OS44
