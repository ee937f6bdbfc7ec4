import OS44.Boot.HandOff
import OS44.Framebuffer.Screen
import OS44.Library.CLayout

/-! # The boot record (`BootInfo` in `bootloader.c` and in `bootinfo.h`)

The bootloader writes the `BootInfo` member by member, at the offsets of its own declaration; the
kernel, compiled apart from it, reads it at those of `bootinfo.h`.

What the kernel reads is what the bootloader filled in. The pixels of the driver are then those of
the firmware as long as `PixelsPerScanLine * 4` did not wrap, and the descriptors that the kernel
reads are those of the firmware's map, if the hand-off describes it (`boot_info_handed_over`). -/

namespace OS44

open LittleEndian CLayout

/-! ## The two declarations -/

/-- `BootInfo` of `bootloader.c`; the array of 64 is laid out as 64 members. -/
def loaderBootInfo : List CType :=
  [.uint32, .pointer, .uint64, .uint64, .uint64, .uint32, .pointer, .uint64, .uint64] ++
    List.replicate 64 .uint16 ++ [.uint32]

/-- `BootInfo` of `bootinfo.h`. -/
def kernelBootInfo : List CType :=
  [.uint32, .pointer, .uint64, .uint64, .uint64, .uint32, .pointer, .uint64, .uint64] ++
    List.replicate 64 .uint16 ++ [.uint32]

/-- `sizeof(BootInfo)` as the bootloader asks `AllocatePool` for it. -/
def sizeofBootInfo : ℕ := alignUp (layoutEnd 0 loaderBootInfo) 8

/-- `BOOTINFO_MAGIC`. -/
def bootInfoMagic : U32 := 0xB007B007

/-! ## Writing and reading -/

/-- The record that the bootloader filled in; `garbage` is what a variable never written held. -/
def LoaderInfo.toBootInfo (info : LoaderInfo) (garbage : U64) : BootInfo where
  magic := info.magic
  framebuffer := info.framebuffer
  fbWidth := info.fbWidth
  fbHeight := info.fbHeight
  fbPitch := info.fbPitch
  fbFormat := info.fbFormat
  mmap := info.mmap
  mmapSize := info.mmapSize
  mmapDescSize := info.mmapDescSize.getD garbage
  fwVendor := info.fwVendor
  fwRevision := info.fwRevision

/-- The values of the members in their order. -/
def BootInfo.values (info : BootInfo) : List ℕ :=
  [info.magic.toNat, info.framebuffer.toNat, info.fbWidth.toNat, info.fbHeight.toNat,
      info.fbPitch.toNat, info.fbFormat.toNat, info.mmap.toNat, info.mmapSize.toNat,
      info.mmapDescSize.toNat] ++
    (List.ofFn fun i => (info.fwVendor i).toNat) ++ [info.fwRevision.toNat]

/-- The stores of `EfiMain` through `info`. -/
def storeBootInfo (a : U64) (info : BootInfo) (m : PhysMem) : PhysMem :=
  store m a ((layout 0 loaderBootInfo).zip info.values)

/-- The `BootInfo` that the kernel finds at `a`. -/
def readBootInfo (m : PhysMem) (a : U64) : BootInfo where
  magic := BitVec.ofNat 32 (loadMember m a (member kernelBootInfo 0))
  framebuffer := BitVec.ofNat 64 (loadMember m a (member kernelBootInfo 1))
  fbWidth := BitVec.ofNat 64 (loadMember m a (member kernelBootInfo 2))
  fbHeight := BitVec.ofNat 64 (loadMember m a (member kernelBootInfo 3))
  fbPitch := BitVec.ofNat 64 (loadMember m a (member kernelBootInfo 4))
  fbFormat := BitVec.ofNat 32 (loadMember m a (member kernelBootInfo 5))
  mmap := BitVec.ofNat 64 (loadMember m a (member kernelBootInfo 6))
  mmapSize := BitVec.ofNat 64 (loadMember m a (member kernelBootInfo 7))
  mmapDescSize := BitVec.ofNat 64 (loadMember m a (member kernelBootInfo 8))
  fwVendor i := BitVec.ofNat 16 (loadMember m a (member kernelBootInfo (9 + i)))
  fwRevision := BitVec.ofNat 32 (loadMember m a (member kernelBootInfo 73))

/-! ## The record comes through -/

variable {m mem : PhysMem} {a b : U64}

@[simp] theorem length_values (info : BootInfo) : info.values.length = 74 := rfl

theorem align_loaderBootInfo : ∀ t ∈ loaderBootInfo, 0 < t.align := by
  decide +kernel

theorem layoutEnd_loaderBootInfo : layoutEnd 0 loaderBootInfo = 204 := by
  decide +kernel

example : sizeofBootInfo = 208 := by decide +kernel

example : (layout 0 kernelBootInfo).take 10 = [⟨0, 4⟩, ⟨8, 8⟩, ⟨16, 8⟩, ⟨24, 8⟩, ⟨32, 8⟩, ⟨40, 4⟩,
    ⟨48, 8⟩, ⟨56, 8⟩, ⟨64, 8⟩, ⟨72, 2⟩] := rfl

/-- The array is member 9 and those behind it. -/
theorem getD_vendor {α : Type} {xs ys zs : List α} {i : ℕ} (hxs : xs.length = 9)
    (hi : i < ys.length) (d : α) : (xs ++ ys ++ zs).getD (9 + i) d = ys.getD i d := by
  rw [List.getD_eq_getElem?_getD, List.getD_eq_getElem?_getD, List.append_assoc,
    List.getElem?_append_right (by omega), hxs, Nat.add_sub_cancel_left,
    List.getElem?_append_left hi]

theorem values_vendor (info : BootInfo) (i : Fin 64) :
    info.values.getD (9 + i) 0 = (info.fwVendor i).toNat := by
  rw [BootInfo.values, getD_vendor rfl (by simp only [List.length_ofFn]; exact i.isLt),
    List.getD_eq_getElem?_getD, List.getElem?_ofFn, dif_pos i.isLt, Option.getD_some]

theorem types_vendor (i : Fin 64) : loaderBootInfo.getD (9 + i) ⟨0, 1⟩ = .uint16 := by
  rw [loaderBootInfo, getD_vendor rfl (by simp only [List.length_replicate]; exact i.isLt),
    List.getD_eq_getElem?_getD, List.getElem?_replicate, if_pos i.isLt, Option.getD_some]

/-- What the kernel's declaration finds in the bootloader's record. -/
theorem loadMember_storeBootInfo (m : PhysMem) (a : U64) (info : BootInfo) {i : ℕ} (hi : i < 74) :
    loadMember (storeBootInfo a info m) a (member kernelBootInfo i) =
      info.values.getD i 0 % 256 ^ (loaderBootInfo.getD i ⟨0, 1⟩).size :=
  loadMember_store_member align_loaderBootInfo (by rw [layoutEnd_loaderBootInfo]; decide) rfl hi

/-- **The kernel reads the record that the bootloader wrote.** -/
theorem readBootInfo_storeBootInfo (m : PhysMem) (a : U64) (info : BootInfo) :
    readBootInfo (storeBootInfo a info m) a = info := by
  have hword (w : ℕ) (x : BitVec w) (n : ℕ) (hn : 256 ^ n = 2 ^ w) :
      BitVec.ofNat w (x.toNat % 256 ^ n) = x := by
    rw [hn, Nat.mod_eq_of_lt x.isLt, BitVec.ofNat_toNat, BitVec.setWidth_eq]
  have hvendor : (fun i : Fin 64 => BitVec.ofNat 16
      (loadMember (storeBootInfo a info m) a (member kernelBootInfo (9 + i)))) = info.fwVendor := by
    funext i
    rw [loadMember_storeBootInfo m a info (by omega), values_vendor, types_vendor]
    exact hword 16 _ 2 (by norm_num)
  unfold readBootInfo
  rw [hvendor]
  iterate 10 rw [loadMember_storeBootInfo m a info (by decide)]
  cases info
  rw [BootInfo.mk.injEq]
  exact ⟨hword 32 _ 4 (by norm_num), hword 64 _ 8 (by norm_num), hword 64 _ 8 (by norm_num),
    hword 64 _ 8 (by norm_num), hword 64 _ 8 (by norm_num), hword 32 _ 4 (by norm_num),
    hword 64 _ 8 (by norm_num), hword 64 _ 8 (by norm_num), hword 64 _ 8 (by norm_num), rfl,
    hword 32 _ 4 (by norm_num)⟩

/-- Nothing outside the record is written. -/
theorem storeBootInfo_outside {info : BootInfo} (hb : sizeofBootInfo ≤ (b - a).toNat) :
    storeBootInfo a info m b = m b := by
  have hsize : layoutEnd 0 loaderBootInfo ≤ sizeofBootInfo := by decide +kernel
  refine store_outside (by rw [layoutEnd_loaderBootInfo]; decide) (fun p hp => ?_) (hsize.trans hb)
  exact (members_layout align_loaderBootInfo).inside p.1 (List.of_mem_zip hp).1

/-- What the kernel reads depends on the bytes of the record. -/
theorem readBootInfo_congr (h : ∀ k < sizeofBootInfo, mem (a + BitVec.ofNat 64 k) =
    m (a + BitVec.ofNat 64 k)) : readBootInfo mem a = readBootInfo m a := by
  have hload {i : ℕ} (hi : i < 74) :
      loadMember mem a (member kernelBootInfo i) = loadMember m a (member kernelBootInfo i) := by
    have hin := (members_layout align_loaderBootInfo).inside (member kernelBootInfo i)
      (member_mem hi)
    rw [layoutEnd_loaderBootInfo] at hin
    refine loadLE_congr fun k hk => ?_
    rw [BitVec.add_assoc, ← BitVec.ofNat_add]
    exact h _ (lt_of_lt_of_le (by omega : _ < 204) (by decide +kernel))
  have hvendor : (fun i : Fin 64 => BitVec.ofNat 16 (loadMember mem a
      (member kernelBootInfo (9 + i)))) = fun i : Fin 64 => BitVec.ofNat 16 (loadMember m a
      (member kernelBootInfo (9 + i))) := by
    funext i
    rw [hload (by omega)]
  unfold readBootInfo
  rw [hvendor]
  iterate 10 rw [hload (by decide)]

/-! ## The hand-off -/

/-- The memory that `kernel_main` starts in: the `BootInfo` as it was written into the pool at `a`,
and the bytes of the map in the pool that was allocated for them. -/
structure HandOff.InMemory (h : HandOff) (pool a garbage : U64) (m mem : PhysMem) : Prop where
  record_eq : ∀ k < sizeofBootInfo, mem (a + BitVec.ofNat 64 k) =
    storeBootInfo a (h.info.toBootInfo garbage) m (a + BitVec.ofNat 64 k)
  buffer_eq : ∀ buffer, h.buffer = some buffer → ∀ i b, buffer i = some b →
    mem (pool + BitVec.ofNat 64 i) = b

/-- The `i`-th descriptor in the bytes of a map. -/
def MemoryMap.descriptor (m : MemoryMap) (i : ℕ) : EfiMemoryDescriptor :=
  readDescriptor (fun b => m.bytes.getD b.toNat 0) (BitVec.ofNat 64 (i * m.descSize.toNat))

/-- Where the firmware has a pixel. -/
def GopMode.pixelAddr (g : GopMode) (x y : U64) : U64 :=
  g.frameBufferBase + (y * g.pixelsPerScanLine.setWidth 64 + x) * 4

/-- A descriptor depends on its 40 bytes. -/
theorem readDescriptor_congr
    (h : ∀ k < 40, mem (b + BitVec.ofNat 64 k) = m (a + BitVec.ofNat 64 k)) :
    readDescriptor mem b = readDescriptor m a := by
  have hload (o n : ℕ) (hn : o + n ≤ 40) :
      loadLE mem (b + BitVec.ofNat 64 o) n = loadLE m (a + BitVec.ofNat 64 o) n := by
    refine loadLE_congr fun k hk => ?_
    rw [BitVec.add_assoc, BitVec.add_assoc, ← BitVec.ofNat_add]
    exact h _ (by omega)
  have h₀ := hload 0 4 (by omega)
  rw [BitVec.add_zero, BitVec.add_zero] at h₀
  unfold readDescriptor load32 load64
  rw [EfiMemoryDescriptor.mk.injEq]
  exact ⟨congrArg _ h₀, congrArg _ (hload 4 4 (by omega)), congrArg _ (hload 8 8 (by omega)),
    congrArg _ (hload 16 8 (by omega)), congrArg _ (hload 24 8 (by omega)),
    congrArg _ (hload 32 8 (by omega))⟩

variable {fw : Firmware} {h : HandOff} {pool garbage : U64}

/-- Whatever is handed over was filled in from the mode and the pool of the firmware. -/
theorem info_of_efiMain (hrun : efiMain fw = some h) :
    h.info = fillBootInfo fw (fetchMemoryMap fw) := by
  unfold efiMain at hrun
  dsimp only at hrun
  split_ifs at hrun
  · rw [← Option.some.inj hrun]
  · rw [← Option.some.inj hrun]

theorem HandOff.InMemory.readBootInfo_eq {m mem : PhysMem}
    (hm : h.InMemory pool a garbage m mem) :
    readBootInfo mem a = h.info.toBootInfo garbage :=
  (readBootInfo_congr hm.record_eq).trans (readBootInfo_storeBootInfo m a _)

/-- The statics of the driver are those of a mode. -/
structure Fb.Drives (s : Fb) (g : GopMode) : Prop where
  fb_eq : s.fb = g.frameBufferBase
  screenW_eq : s.screenW.toNat = g.horizontalResolution.toNat
  screenH_eq : s.screenH.toNat = g.verticalResolution.toNat
  /-- Four bytes a pixel, in 32 bits. -/
  pitch_eq : s.fbPitchVal.toNat = 4 * g.pixelsPerScanLine.toNat % 2 ^ 32

theorem drives_fbInit (fw : Firmware) (s : EfiLocals) (garbage : U64) (st : Fb) :
    (fbInit ((fillBootInfo fw s).toBootInfo garbage) st).Drives fw.gop := by
  have hwiden (x : U32) : (x.setWidth 64 : U64).toNat = x.toNat := by
    rw [BitVec.toNat_setWidth, Nat.mod_eq_of_lt (by omega)]
  refine ⟨rfl, hwiden _, hwiden _, (hwiden _).trans ?_⟩
  rw [BitVec.toNat_mul, Nat.mul_comm]
  rfl

variable {g : GopMode} {s : Fb}

/-- The rows are apart unless the pitch wrapped below the width. -/
theorem Fb.Drives.geometry_iff (h : s.Drives g) :
    s.Geometry ↔ 4 * g.horizontalResolution.toNat ≤ 4 * g.pixelsPerScanLine.toNat % 2 ^ 32 := by
  constructor
  · intro hgeom
    rw [← h.screenW_eq, ← h.pitch_eq]
    exact hgeom.row_le
  · intro hle
    refine ⟨by rw [h.screenW_eq, h.pitch_eq]; exact hle, ?_⟩
    have hheight := g.verticalResolution.isLt
    rw [h.screenH_eq, h.pitch_eq]
    calc g.verticalResolution.toNat * (4 * g.pixelsPerScanLine.toNat % 2 ^ 32)
        ≤ g.verticalResolution.toNat * 2 ^ 32 := Nat.mul_le_mul_left _ (by omega)
      _ < 2 ^ 32 * 2 ^ 32 := Nat.mul_lt_mul_of_pos_right hheight (by decide)
      _ = 2 ^ 64 := by norm_num

/-- The pixels are where the firmware has them as long as the pitch did not wrap; if it did, the
second row is elsewhere. -/
theorem Fb.Drives.pixelAddr_eq_iff (h : s.Drives g) :
    (∀ x y, s.Visible x y → s.pixelAddr s.fb x y = g.pixelAddr x y) ↔
      4 * g.pixelsPerScanLine.toNat < 2 ^ 32 ∨ g.horizontalResolution.toNat = 0 ∨
        g.verticalResolution.toNat ≤ 1 := by
  have hscreenW := h.screenW_eq
  have hscreenH := h.screenH_eq
  have hpitch := h.pitch_eq
  have hppsl := g.pixelsPerScanLine.isLt
  have hline : (g.pixelsPerScanLine.setWidth 64 * 4 : U64).toNat =
      4 * g.pixelsPerScanLine.toNat := by
    rw [BitVec.toNat_mul, BitVec.toNat_setWidth]
    change g.pixelsPerScanLine.toNat % 2 ^ 64 * 4 % 2 ^ 64 = _
    omega
  constructor
  · intro hall
    by_contra hc
    push Not at hc
    obtain ⟨hwrap, hw0, hh1⟩ := hc
    have hv : s.Visible 0 1 := by
      refine ⟨?_, ?_⟩
      · show (0 : ℕ) < s.screenW.toNat
        omega
      · show (1 : ℕ) < s.screenH.toNat
        omega
    -- the first pixel of the second row
    have heq : s.fbPitchVal = g.pixelsPerScanLine.setWidth 64 * 4 := by
      have := hall 0 1 hv
      simpa [Fb.pixelAddr, GopMode.pixelAddr, h.fb_eq] using this
    have := congrArg BitVec.toNat heq
    rw [hpitch, hline] at this
    omega
  · rintro hcase x y ⟨hx, hy⟩
    have hx : x.toNat < s.screenW.toNat := hx
    have hy : y.toNat < s.screenH.toNat := hy
    have hrow : y * s.fbPitchVal = y * (g.pixelsPerScanLine.setWidth 64 * 4) := by
      obtain hfit | hzero | hone := hcase
      · refine congrArg (y * ·) (BitVec.eq_of_toNat_eq ?_)
        rw [hpitch, hline, Nat.mod_eq_of_lt hfit]
      · omega
      · have hy0 : y = 0 := BitVec.eq_of_toNat_eq (by change y.toNat = 0; omega)
        simp [hy0]
    rw [Fb.pixelAddr, GopMode.pixelAddr, h.fb_eq, hrow, BitVec.add_mul, BitVec.mul_assoc,
      BitVec.add_assoc]

/-- **The kernel starts with what the firmware has.** -/
theorem boot_info_handed_over (hrun : efiMain fw = some h)
    (hm : h.InMemory fw.pool a garbage m mem) (st : Fb) :
    (readBootInfo mem a).magic = bootInfoMagic ∧
      ((fbInit (readBootInfo mem a) st).Geometry ↔
        4 * fw.gop.horizontalResolution.toNat ≤ 4 * fw.gop.pixelsPerScanLine.toNat % 2 ^ 32) ∧
      ((∀ x y, (fbInit (readBootInfo mem a) st).Visible x y →
          (fbInit (readBootInfo mem a) st).pixelAddr (fbInit (readBootInfo mem a) st).fb x y =
            fw.gop.pixelAddr x y) ↔
        4 * fw.gop.pixelsPerScanLine.toNat < 2 ^ 32 ∨ fw.gop.horizontalResolution.toNat = 0 ∨
          fw.gop.verticalResolution.toNat ≤ 1) ∧
      ∀ map, h.Describes fw.pool map → ∀ i, i * map.descSize.toNat + 40 ≤ map.bytes.length →
        (readBootInfo mem a).descriptor mem i = map.descriptor i := by
  have hinfo := info_of_efiMain hrun
  have hdrives := drives_fbInit fw (fetchMemoryMap fw) garbage st
  rw [hm.readBootInfo_eq, hinfo]
  refine ⟨rfl, hdrives.geometry_iff, hdrives.pixelAddr_eq_iff, ?_⟩
  intro map hd i hi
  obtain ⟨buffer, hbuf, hbytes⟩ := hd.bytes_eq
  have hdesc : (fillBootInfo fw (fetchMemoryMap fw)).mmapDescSize = some map.descSize := by
    rw [← hinfo]
    exact hd.descSize_eq
  refine readDescriptor_congr fun k hk => ?_
  have hlt : i * map.descSize.toNat + k < map.bytes.length := by omega
  have hlen := map.length_lt
  -- the kernel's cursor, `i` descriptors and `k` bytes behind the start of the map
  have haddr : ((fillBootInfo fw (fetchMemoryMap fw)).toBootInfo garbage).mmap +
      BitVec.ofNat 64 i * ((fillBootInfo fw (fetchMemoryMap fw)).toBootInfo garbage).mmapDescSize +
      BitVec.ofNat 64 k = fw.pool + BitVec.ofNat 64 (i * map.descSize.toNat + k) := by
    rw [LoaderInfo.toBootInfo, hdesc, BitVec.ofNat_add, BitVec.ofNat_mul, BitVec.ofNat_toNat,
      BitVec.setWidth_eq, Option.getD_some, ← BitVec.add_assoc]
    rfl
  rw [haddr, hm.buffer_eq buffer hbuf _ _ (hbytes _ hlt), ← BitVec.ofNat_add, BitVec.toNat_ofNat,
    Nat.mod_eq_of_lt (by omega), List.getD_eq_getElem?_getD, List.getElem?_eq_getElem hlt,
    Option.getD_some]

/-- A firmware whose map does not change any more. -/
def steadyFirmware : Firmware :=
  { shrinkingFirmware with map₂ := shrinkingFirmware.map₁, key_inj := fun _ => rfl }

/-- What it hands over. -/
def steadyHandOff : HandOff where
  info := fillBootInfo steadyFirmware (fetched steadyFirmware.map₁ fun _ => none)
  buffer := (fetched steadyFirmware.map₁ fun _ => none).buffer

/-- Memory of zeros, as its map is, but for the record. -/
def steadyMemory : PhysMem :=
  storeBootInfo 0x200000 (steadyHandOff.info.toBootInfo 0) fun _ => 0

theorem efiMain_steadyFirmware : efiMain steadyFirmware = some steadyHandOff :=
  efiMain_of_unchanged (fetchMemoryMap_of_le (by decide)) ⟨rfl, rfl⟩

theorem inMemory_steadyMemory :
    steadyHandOff.InMemory steadyFirmware.pool 0x200000 0 (fun _ => 0) steadyMemory where
  record_eq _ _ := rfl
  buffer_eq := by
    rintro buffer ⟨⟩ i b hb
    change (if hi : i < (List.replicate 96 (0 : U8)).length then
      some ((List.replicate 96 (0 : U8)).get ⟨i, hi⟩) else none) = some b at hb
    obtain ⟨hi, hb⟩ := Option.dite_none_right_eq_some.mp hb
    obtain rfl : 0 = b := by
      rw [List.get_eq_getElem, List.getElem_replicate] at hb
      exact Option.some.inj hb
    rw [List.length_replicate] at hi
    refine storeBootInfo_outside ?_
    have hsize : sizeofBootInfo = 208 := by decide +kernel
    show sizeofBootInfo ≤ (0x100000 + BitVec.ofNat 64 i - 0x200000 : U64).toNat
    rw [hsize]
    bv_omega

theorem boot_info_handed_over_sample :
    (fbInit (readBootInfo steadyMemory 0x200000) ⟨0, 0, 0, 0, 0, 0, false⟩).Geometry ∧
      (readBootInfo steadyMemory 0x200000).descriptor steadyMemory 1 =
        steadyFirmware.map₂.descriptor 1 := by
  have h := boot_info_handed_over efiMain_steadyFirmware inMemory_steadyMemory
    ⟨0, 0, 0, 0, 0, 0, false⟩
  exact ⟨h.2.1.mpr (by decide), h.2.2.2 _ ((describes_fetched_iff _ _ _ _).mpr ⟨rfl, rfl⟩) 1
    (by decide)⟩

end OS44
