import OS44.BootInfo
import OS44.Sysinfo.Features

/-! # What is known of the machine (`sysinfo.c`)

`sysinfo_init` asks the processor for its name with `cpuid` and keeps the answers word by word in
two arrays of characters; the other functions copy from there or from the `BootInfo`. The texts that
the callers get end in their buffers (`cString_sysinfoGetCpuVendor`, `cString_sysinfoGetCpuBrand`,
`exists_sysinfoGetUefiVendor`). -/

namespace OS44

/-! ## The code -/

/-- The registers behind `cpuid`. -/
structure CpuidAnswer where
  eax : U32
  ebx : U32
  ecx : U32
  edx : U32
  deriving DecidableEq, Repr

/-- What `cpuid` answers to a leaf in `eax`. -/
abbrev Cpuid : Type := U32 → CpuidAnswer

/-- The statics. -/
structure Sysinfo where
  bootInfo : Option BootInfo
  cpuVendorStr : LocalBuf
  cpuBrandStr : LocalBuf
  cpuFeaturesEdx : U32
  cpuFeaturesEcx : U32

/-- The statics of a kernel that has just been loaded. -/
def Sysinfo.boot : Sysinfo where
  bootInfo := none
  cpuVendorStr := .new 16 fun _ => 0
  cpuBrandStr := .new 49 fun _ => 0
  cpuFeaturesEdx := 0
  cpuFeaturesEcx := 0

/-- The bytes of a word, lowest first. -/
def wordBytes (x : U32) : List U8 :=
  [x.setWidth 8, (x >>> 8).setWidth 8, (x >>> 16).setWidth 8, (x >>> 24).setWidth 8]

/-- `*((uint32_t *)str + i) = x`. -/
def LocalBuf.setWord (b : LocalBuf) (i : ℕ) (x : U32) : LocalBuf := b.copyAll (4 * i) (wordBytes x)

/-- One round of the loop over the leaves of the brand. -/
def storeBrandLeaf (cpuid : Cpuid) (b : LocalBuf) (j : ℕ) : LocalBuf :=
  let answer := cpuid (0x80000002 + BitVec.ofNat 32 j)
  let b := b.setWord (4 * j) answer.eax
  let b := b.setWord (4 * j + 1) answer.ebx
  let b := b.setWord (4 * j + 2) answer.ecx
  b.setWord (4 * j + 3) answer.edx

/-- `sysinfo_init`. -/
def sysinfoInit (cpuid : Cpuid) (info : BootInfo) (s : Sysinfo) : Sysinfo :=
  let vendor := s.cpuVendorStr.setWord 0 (cpuid 0).ebx
  let vendor := vendor.setWord 1 (cpuid 0).edx
  let vendor := vendor.setWord 2 (cpuid 0).ecx
  let brand := (List.range 3).foldl (storeBrandLeaf cpuid) s.cpuBrandStr
  { bootInfo := some info
    cpuVendorStr := vendor.set 12 0
    cpuBrandStr := brand.set 48 0
    cpuFeaturesEdx := (cpuid 1).edx
    cpuFeaturesEcx := (cpuid 1).ecx }

/-- `sysinfo_get_cpu_vendor`. -/
def sysinfoGetCpuVendor (s : Sysinfo) (buf : LocalBuf) : LocalBuf :=
  buf.copy 0 s.cpuVendorStr.bytes 13

/-- `sysinfo_get_cpu_brand`. -/
def sysinfoGetCpuBrand (s : Sysinfo) (buf : LocalBuf) : LocalBuf :=
  buf.copy 0 s.cpuBrandStr.bytes 49

/-- `sysinfo_get_screen_res`: what is stored in `w` and `h`. -/
def sysinfoGetScreenRes (s : Sysinfo) : U64 × U64 :=
  match s.bootInfo with
  | some info => (info.fbWidth, info.fbHeight)
  | none => (0, 0)

/-- `sysinfo_get_uefi_vendor`: a byte of each of the first 32 characters. `none`: no `BootInfo`. -/
def sysinfoGetUefiVendor (s : Sysinfo) (buf : LocalBuf) : Option LocalBuf :=
  s.bootInfo.map fun info =>
    ((List.finRange 32).foldl
      (fun b i => b.set i ((info.fwVendor (i.castLE (by omega))).setWidth 8)) buf).set 32 0

/-- `sysinfo_get_uefi_revision`. -/
def sysinfoGetUefiRevision (s : Sysinfo) : Option U32 := s.bootInfo.map BootInfo.fwRevision

/-- `sysinfo_get_core_count`. -/
def sysinfoGetCoreCount (cpuid : Cpuid) : U32 := (cpuid 1).ebx >>> 16 &&& 0xFF

/-! ## The texts -/

/-- The vendor that the processor names. -/
def vendorText (cpuid : Cpuid) : List U8 :=
  (wordBytes (cpuid 0).ebx ++ wordBytes (cpuid 0).edx ++ wordBytes (cpuid 0).ecx).takeWhile (· ≠ 0)

/-- The bytes of a leaf of the brand. -/
def brandLeaf (cpuid : Cpuid) (j : ℕ) : List U8 :=
  let answer := cpuid (0x80000002 + BitVec.ofNat 32 j)
  wordBytes answer.eax ++ wordBytes answer.ebx ++ wordBytes answer.ecx ++ wordBytes answer.edx

/-- The brand that the processor names. -/
def brandText (cpuid : Cpuid) : List U8 :=
  ((List.range 3).flatMap (brandLeaf cpuid)).takeWhile (· ≠ 0)

/-- The first half of the array with the vendor of the firmware, in bytes. -/
def uefiVendorBytes (info : BootInfo) : List U8 :=
  List.ofFn fun i : Fin 32 => (info.fwVendor (i.castLE (by omega))).setWidth 8

def uefiVendorText (info : BootInfo) : List U8 := (uefiVendorBytes info).takeWhile (· ≠ 0)

variable {cpuid : Cpuid} {info : BootInfo} {s : Sysinfo} {buf : LocalBuf} {str : List U8}

@[simp] theorem length_wordBytes (x : U32) : (wordBytes x).length = 4 := rfl

@[simp] theorem length_brandLeaf (cpuid : Cpuid) (j : ℕ) : (brandLeaf cpuid j).length = 16 := rfl

/-- A text with a NUL behind it, copied with a `memcpy` that takes the NUL along. -/
theorem cString_copy {src : LocalBuf} {n : ℕ} (hlen : str.length = n) (hsize : n < buf.size) :
    (buf.copy 0 ((src.copyAll 0 str).set n 0).bytes (n + 1)).cString =
      some (str.takeWhile (· ≠ 0)) := by
  subst hlen
  have hbytes : ∀ j < str.length + 1,
      (buf.copy 0 ((src.copyAll 0 str).set str.length 0).bytes (str.length + 1)).bytes j =
        ((src.copyAll 0 str).set str.length 0).bytes j := fun j hj => by
    rw [LocalBuf.bytes_copy_inside (Nat.zero_le j) (by omega), Nat.sub_zero]
  refine LocalBuf.cString_eq (k := buf.size - str.length - 1) ?_ (fun j hj => ?_) ?_
  · rw [LocalBuf.size_copy]
    omega
  · rw [hbytes j (by omega)]
    show Function.update (src.copyAll 0 str).bytes str.length 0 j = _
    rw [Function.update_of_ne (Nat.ne_of_lt hj), LocalBuf.bytes_copyAll (Nat.zero_le j) (by omega),
      Nat.sub_zero]
  · rw [hbytes _ (by omega)]
    exact LocalBuf.bytes_set _ _ _

/-- The words of the vendor are copied one behind the other. -/
theorem cpuVendorStr_sysinfoInit (cpuid : Cpuid) (info : BootInfo) (s : Sysinfo) :
    (sysinfoInit cpuid info s).cpuVendorStr =
      (s.cpuVendorStr.copyAll 0 (wordBytes (cpuid 0).ebx ++ wordBytes (cpuid 0).edx ++
        wordBytes (cpuid 0).ecx)).set 12 0 := by
  rw [← LocalBuf.copyAll_copyAll, ← LocalBuf.copyAll_copyAll]
  rfl

/-- A leaf of the brand is copied in one piece. -/
theorem storeBrandLeaf_eq (cpuid : Cpuid) (b : LocalBuf) (j : ℕ) :
    storeBrandLeaf cpuid b j = b.copyAll (16 * j) (brandLeaf cpuid j) := by
  have hword : 4 * (4 * j) = 16 * j := by omega
  unfold brandLeaf
  dsimp only
  rw [← LocalBuf.copyAll_copyAll, ← LocalBuf.copyAll_copyAll, ← LocalBuf.copyAll_copyAll, ← hword]
  simp only [storeBrandLeaf, LocalBuf.setWord, List.length_append, length_wordBytes]
  congr 2

/-- The leaves of the brand are copied one behind the other. -/
theorem foldl_storeBrandLeaf (cpuid : Cpuid) (b : LocalBuf) (n : ℕ) :
    (List.range n).foldl (storeBrandLeaf cpuid) b =
      b.copyAll 0 ((List.range n).flatMap (brandLeaf cpuid)) := by
  have hlength (n : ℕ) : ((List.range n).flatMap (brandLeaf cpuid)).length = 16 * n := by
    induction n with
    | zero => rfl
    | succ n ih =>
      rw [List.range_succ, List.flatMap_append, List.length_append, ih, List.flatMap_singleton,
        length_brandLeaf]
      omega
  induction n with
  | zero => exact LocalBuf.copyAll_nil.symm
  | succ n ih =>
    rw [List.range_succ, List.foldl_append, ih, List.foldl_cons, List.foldl_nil, storeBrandLeaf_eq,
      List.flatMap_append, List.flatMap_singleton, ← LocalBuf.copyAll_copyAll, hlength,
      Nat.zero_add]

/-- **The vendor**, in a buffer of 13 bytes or more. -/
theorem cString_sysinfoGetCpuVendor (cpuid : Cpuid) (info : BootInfo) (s : Sysinfo)
    (h : 13 ≤ buf.size) :
    (sysinfoGetCpuVendor (sysinfoInit cpuid info s) buf).cString = some (vendorText cpuid) := by
  rw [sysinfoGetCpuVendor, cpuVendorStr_sysinfoInit]
  exact cString_copy rfl h

/-- **The brand**, in a buffer of 49 bytes or more. -/
theorem cString_sysinfoGetCpuBrand (cpuid : Cpuid) (info : BootInfo) (s : Sysinfo)
    (h : 49 ≤ buf.size) :
    (sysinfoGetCpuBrand (sysinfoInit cpuid info s) buf).cString = some (brandText cpuid) := by
  have hbrand : (sysinfoInit cpuid info s).cpuBrandStr =
      (s.cpuBrandStr.copyAll 0 ((List.range 3).flatMap (brandLeaf cpuid))).set 48 0 := by
    rw [← foldl_storeBrandLeaf]
    rfl
  rw [sysinfoGetCpuBrand, hbrand]
  exact cString_copy rfl h

/-- Bytes that are stored one after another. -/
theorem foldl_set_finRange {n : ℕ} (f : Fin n → U8) (b : LocalBuf) (p : ℕ) :
    (List.finRange n).foldl (fun b i => b.set (p + i) (f i)) b = b.copyAll p (List.ofFn f) := by
  induction n generalizing b p with
  | zero => exact LocalBuf.copyAll_nil.symm
  | succ n ih =>
    have hstep : (fun (b : LocalBuf) (i : Fin n) => b.set (p + i.succ) (f i.succ)) =
        fun b i => b.set (p + 1 + i) (f i.succ) := by
      funext b i
      rw [Fin.val_succ, Nat.add_comm i.val, Nat.add_assoc]
    rw [List.finRange_succ, List.foldl_cons, List.foldl_map, hstep, ih, List.ofFn_succ]
    exact LocalBuf.copyAll_cons b p _ _

/-- **The vendor of the firmware**, in a buffer of 33 bytes. -/
theorem exists_sysinfoGetUefiVendor (cpuid : Cpuid) (info : BootInfo) (s : Sysinfo)
    (h : 33 ≤ buf.size) : ∃ b, sysinfoGetUefiVendor (sysinfoInit cpuid info s) buf = some b ∧
      b.overran = buf.overran ∧ b.cString = some (uefiVendorText info) := by
  have hlength : (uefiVendorBytes info).length = 32 := List.length_ofFn
  have hfold := foldl_set_finRange
    (fun i : Fin 32 => (info.fwVendor (i.castLE (by omega))).setWidth 8) buf 0
  have hnul := @LocalBuf.copyAll_copyAll buf 0 (uefiVendorBytes info) [0]
  simp only [Nat.zero_add] at hfold
  rw [hlength, Nat.zero_add] at hnul
  have heq : sysinfoGetUefiVendor (sysinfoInit cpuid info s) buf =
      some (buf.copyAll 0 (uefiVendorBytes info ++ [0])) := by
    show some (LocalBuf.set _ 32 0) = _
    rw [hfold, LocalBuf.set_eq_copyAll, ← hnul]
    rfl
  have hall : (uefiVendorBytes info ++ [(0 : U8)]).length = 33 := by
    rw [List.length_append, hlength, List.length_singleton]
  exact ⟨_, heq, LocalBuf.overran_copy (by omega), LocalBuf.cString_copyAll_nul (by omega)⟩

end OS44
