import OS44.Library.LittleEndian

/-! # Machine words, physical memory and the boot record

The fixed-width types of the C code, loads and stores of whole words in physical memory, and the two
records the bootloader hands to the kernel: `BootInfo` (`bootinfo.h`) and the descriptors of the
firmware's memory map (`EfiMemoryDescriptor`). -/

namespace OS44

open LittleEndian

/-- `uint8_t`. -/
abbrev U8 : Type := BitVec 8

/-- `uint16_t`. -/
abbrev U16 : Type := BitVec 16

/-- `uint32_t`. -/
abbrev U32 : Type := BitVec 32

/-- `uint64_t`, `size_t` and pointers; the null pointer is `0`. -/
abbrev U64 : Type := BitVec 64

/-! ## Physical memory -/

/-- Physical memory, a byte at each address. -/
abbrev PhysMem : Type := Bytes 64

/-- Read a `uint32_t`. -/
def load32 (m : PhysMem) (a : U64) : U32 := BitVec.ofNat 32 (loadLE m a 4)

/-- Read a `uint64_t`. -/
def load64 (m : PhysMem) (a : U64) : U64 := BitVec.ofNat 64 (loadLE m a 8)

/-- Write a `uint32_t`. -/
def store32 (m : PhysMem) (a : U64) (x : U32) : PhysMem := storeLE m a 4 x.toNat

/-- Write a `uint64_t`. -/
def store64 (m : PhysMem) (a : U64) (x : U64) : PhysMem := storeLE m a 8 x.toNat

@[simp] theorem load64_store64 (m : PhysMem) (a : U64) (x : U64) :
    load64 (store64 m a x) a = x := by
  rw [load64, store64, loadLE_storeLE m a (by decide) _ le_rfl]
  exact BitVec.eq_of_toNat_eq (by simp; omega)

@[simp] theorem load32_store32 (m : PhysMem) (a : U64) (x : U32) :
    load32 (store32 m a x) a = x := by
  rw [load32, store32, loadLE_storeLE m a (by decide) _ le_rfl]
  exact BitVec.eq_of_toNat_eq (by simp; omega)

/-- A word is read unchanged after a store to a word apart from it. -/
theorem load64_store64_of_apart (m : PhysMem) {a b : U64} (x : U64) (hab : 8 ≤ (a - b).toNat)
    (hba : 8 ≤ (b - a).toNat) : load64 (store64 m b x) a = load64 m a := by
  rw [load64, load64, store64, loadLE_congr]
  intro k hk
  refine storeLE_of_not_lt ?_
  bv_omega

/-! ## What the bootloader passes on -/

/-- `BootInfo`. -/
structure BootInfo where
  magic : U32
  framebuffer : U64
  fbWidth : U64
  fbHeight : U64
  fbPitch : U64
  fbFormat : U32
  mmap : U64
  mmapSize : U64
  mmapDescSize : U64
  fwVendor : Fin 64 → U16
  fwRevision : U32

/-- `EfiMemoryDescriptor`. -/
structure EfiMemoryDescriptor where
  type : U32
  pad : U32
  physicalStart : U64
  virtualStart : U64
  numberOfPages : U64
  attributeBits : U64
  deriving DecidableEq, Repr

/-- `EFI_CONVENTIONAL_MEMORY`. -/
def efiConventionalMemory : U32 := 7

/-- The descriptor stored at `a`, field by field at its offset. -/
def readDescriptor (m : PhysMem) (a : U64) : EfiMemoryDescriptor where
  type := load32 m a
  pad := load32 m (a + 4)
  physicalStart := load64 m (a + 8)
  virtualStart := load64 m (a + 16)
  numberOfPages := load64 m (a + 24)
  attributeBits := load64 m (a + 32)

/-- The `i`-th descriptor of the map, at `cursor + i * desc_size`. -/
def BootInfo.descriptor (info : BootInfo) (m : PhysMem) (i : ℕ) : EfiMemoryDescriptor :=
  readDescriptor m (info.mmap + BitVec.ofNat 64 i * info.mmapDescSize)

/-- `count = mmap_size / desc_size`. -/
def BootInfo.descriptorCount (info : BootInfo) : ℕ := (info.mmapSize / info.mmapDescSize).toNat

end OS44
