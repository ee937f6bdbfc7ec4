import Mathlib.Algebra.BigOperators.Group.Finset.Basic
import Mathlib.Algebra.Order.BigOperators.Group.Finset
import Mathlib.Data.Finset.Union
import OS44.Library.Reading
import OS44.Mem.PmmRun
import OS44.Mem.Vmm

/-! # Starting the memory up (`mem_init`, `sysinfo_get_mem_usage`)

`mem_init` goes over the firmware's memory map twice: `pmm_init` frees the frames of its
conventional descriptors, then a scan of its own adds up their pages. Only the second scan looks
whether the map is acceptable first.

* `pmm_init` frees exactly the conventional frames from 8 MiB to 4 GiB (`pmm_init_free_iff`).
* The two accounts agree in every run of the frame allocator: memory in use is never negative
  (`mem_usage_run`).
* `mem_init` is safe, and the accounts start out empty for a map that is turned down, exactly for
  the maps of `MapAcceptable` (`mem_init_ok_iff`). -/

namespace OS44

open Runs Pmm

/-- `sizeof(EfiMemoryDescriptor)`. -/
def sizeofEfiMemoryDescriptor : U64 := 40

/-- The bytes of a field of the `i`-th descriptor, counted from the start of the map. -/
def BootInfo.fieldBytes (info : BootInfo) (i offset size : ℕ) : List ℕ :=
  (List.range size).map fun k => i * info.mmapDescSize.toNat + offset + k

/-- Read the `uint32_t` at `offset` in the `i`-th descriptor, at `cursor + i * desc_size`. -/
def BootInfo.readField32 (m : PhysMem) (info : BootInfo) (i offset : ℕ) : Reading ℕ U32 where
  value := load32 m (info.mmap + BitVec.ofNat 64 i * info.mmapDescSize + BitVec.ofNat 64 offset)
  reads := info.fieldBytes i offset 4

/-- Read the `uint64_t` at `offset` in the `i`-th descriptor. -/
def BootInfo.readField64 (m : PhysMem) (info : BootInfo) (i offset : ℕ) : Reading ℕ U64 where
  value := load64 m (info.mmap + BitVec.ofNat 64 i * info.mmapDescSize + BitVec.ofNat 64 offset)
  reads := info.fieldBytes i offset 8

/-- One round of the descriptor loop of `pmm_init`, with its accesses to the map: `type`, and of
conventional memory `physical_start` and `number_of_pages`. -/
def readMarkDescriptor (m : PhysMem) (info : BootInfo) (s : Pmm) (i : ℕ) : Reading ℕ Pmm := do
  let type ← info.readField32 m i 0
  if type = efiConventionalMemory then
    let physicalStart ← info.readField64 m i 8
    -- the inner loop looks at `number_of_pages` again in each of its rounds
    let numberOfPages ← info.readField64 m i 24
    pure (clearFrames s (physicalStart.toNat / 4096) numberOfPages.toNat)
  else pure s

/-- `pmm_init` with its accesses to the map. `none`: the division faults. -/
def readPmmInit (m : PhysMem) (info : BootInfo) : Option (Reading ℕ Pmm) :=
  if info.mmapDescSize = 0 then none
  else some do
    let s : Pmm := { bitmap := fun _ => 0xFF, totalFrames := 2 ^ 20, calls := [] }
    let s ← (List.range info.descriptorCount).foldlM (readMarkDescriptor m info) s
    pure (reserveLow s 2048)

/-- One round of the scan of `mem_init`. -/
def addDescriptor (m : PhysMem) (info : BootInfo) (total : U64) (i : ℕ) : Reading ℕ U64 := do
  let type ← info.readField32 m i 0
  if type = efiConventionalMemory then
    let numberOfPages ← info.readField64 m i 24
    pure (total + numberOfPages * 4096)
  else pure total

/-- The first `count` rounds of the scan of `mem_init`, which adds `total_ram_bytes` up. -/
def addDescriptors (m : PhysMem) (info : BootInfo) (count : ℕ) : Reading ℕ U64 :=
  (List.range count).foldlM (addDescriptor m info) 0

/-- What `mem_init` sets up. `mapReads` is a ghost record of the bytes of the map it has read. -/
structure MemSystem (M : Type) where
  vmm : Vmm M
  /-- `total_ram_bytes`. -/
  totalRamBytes : U64
  /-- Ghost: the bytes of the map that were read, counted from its start. -/
  mapReads : List ℕ

/-- The test of `mem_init` that turns a map down; `info` is not `NULL`. -/
def BootInfo.Rejected (info : BootInfo) : Prop :=
  info.mmap = 0 ∨ info.mmapDescSize < sizeofEfiMemoryDescriptor

instance (info : BootInfo) : Decidable info.Rejected := inferInstanceAs (Decidable (_ ∨ _))

/-- `mem_init`, with the page tables found in `CR3`. `none`: the division in `pmm_init` faults. -/
def memInit {M : Type} (m : PhysMem) (tables : M) (cr3 : U64) (info : BootInfo) :
    Option (MemSystem M) :=
  match readPmmInit m info with
  | none => none
  | some pmm =>
    let vmm := vmmInit (vmmBoot (pagingInit tables pmm.value cr3))
    if info.Rejected then some { vmm := vmm, totalRamBytes := 0, mapReads := pmm.reads }
    else
      let total := addDescriptors m info info.descriptorCount
      some { vmm := vmm, totalRamBytes := total.value, mapReads := pmm.reads ++ total.reads }

/-- `sysinfo_get_mem_usage`: what is stored in `used` and `total`. -/
def sysinfoGetMemUsage (totalRamBytes : U64) (pmm : Pmm) : U64 × U64 :=
  let total := totalRamBytes
  let freeFrames := BitVec.ofNat 64 (pmmGetFreeFrames pmm)
  let usedFrames := total / 4096 - freeFrames
  (usedFrames * 4096, total)

/-! ## What the scans compute and what they read -/

section Reads

variable (m : PhysMem) (info : BootInfo) (i n : ℕ)

/-- The fields that are read are those of the descriptor. -/
@[simp] theorem value_readField32 :
    (info.readField32 m i 0).value = (info.descriptor m i).type := by
  rw [BootInfo.readField32, BitVec.add_zero]
  rfl

@[simp] theorem value_readField64_start :
    (info.readField64 m i 8).value = (info.descriptor m i).physicalStart := rfl

@[simp] theorem value_readField64_pages :
    (info.readField64 m i 24).value = (info.descriptor m i).numberOfPages := rfl

@[simp] theorem reads_readField32 (offset : ℕ) :
    (info.readField32 m i offset).reads = info.fieldBytes i offset 4 := rfl

@[simp] theorem reads_readField64 (offset : ℕ) :
    (info.readField64 m i offset).reads = info.fieldBytes i offset 8 := rfl

/-- The bytes of the map that `pmm_init` reads in the round of descriptor `i`. -/
def pmmInitReads (m : PhysMem) (info : BootInfo) (i : ℕ) : List ℕ :=
  info.fieldBytes i 0 4 ++
    if (info.descriptor m i).type = efiConventionalMemory then
      info.fieldBytes i 8 8 ++ info.fieldBytes i 24 8
    else []

/-- The bytes of the map that the scan of `mem_init` reads in the round of descriptor `i`. -/
def addDescriptorReads (m : PhysMem) (info : BootInfo) (i : ℕ) : List ℕ :=
  info.fieldBytes i 0 4 ++
    if (info.descriptor m i).type = efiConventionalMemory then info.fieldBytes i 24 8 else []

theorem value_readMarkDescriptor (s : Pmm) :
    (readMarkDescriptor m info s i).value = markDescriptor s (info.descriptor m i) := by
  simp only [readMarkDescriptor, Reading.value_bind, value_readField32]
  unfold markDescriptor
  split_ifs <;> rfl

theorem reads_readMarkDescriptor (s : Pmm) :
    (readMarkDescriptor m info s i).reads = pmmInitReads m info i := by
  simp only [readMarkDescriptor, Reading.reads_bind, value_readField32, reads_readField32]
  unfold pmmInitReads
  split_ifs
  · simp
  · rfl

/-- `pmm_init` with its accesses is `pmm_init`, and reads the fields of every descriptor. -/
theorem readPmmInit_eq_some {pmm : Pmm} (h : pmmInit m info = some pmm) :
    ∃ r, readPmmInit m info = some r ∧ r.value = pmm ∧
      r.reads = (List.range info.descriptorCount).flatMap (pmmInitReads m info) := by
  unfold pmmInit at h
  unfold readPmmInit
  split_ifs at h ⊢ with h0
  refine ⟨_, rfl, ?_, ?_⟩
  · rw [← Option.some.inj h, Reading.value_bind, Reading.value_pure,
      Reading.value_foldlM (fun s i => value_readMarkDescriptor m info i s)]
    rfl
  · rw [Reading.reads_bind, Reading.reads_pure, List.append_nil,
      Reading.reads_foldlM (fun s i => reads_readMarkDescriptor m info i s)]

theorem readPmmInit_eq_none (h : pmmInit m info = none) : readPmmInit m info = none := by
  unfold pmmInit at h
  unfold readPmmInit
  split_ifs at h ⊢ with h0
  rfl

theorem value_addDescriptor (total : U64) : (addDescriptor m info total i).value =
    if (info.descriptor m i).type = efiConventionalMemory then
      total + (info.descriptor m i).numberOfPages * 4096 else total := by
  simp only [addDescriptor, Reading.value_bind, value_readField32]
  split_ifs <;> rfl

theorem reads_addDescriptor (total : U64) :
    (addDescriptor m info total i).reads = addDescriptorReads m info i := by
  simp only [addDescriptor, Reading.reads_bind, value_readField32, reads_readField32]
  unfold addDescriptorReads
  split_ifs
  · simp
  · rfl

theorem reads_addDescriptors : (addDescriptors m info n).reads =
    (List.range n).flatMap (addDescriptorReads m info) :=
  Reading.reads_foldlM (fun total i => reads_addDescriptor m info i total) _ _

theorem value_addDescriptors_succ : (addDescriptors m info (n + 1)).value =
    if (info.descriptor m n).type = efiConventionalMemory then
      (addDescriptors m info n).value + (info.descriptor m n).numberOfPages * 4096
    else (addDescriptors m info n).value := by
  have hvalue := Reading.value_foldlM (fun total i => value_addDescriptor m info i total)
  unfold addDescriptors
  rw [hvalue, hvalue, List.range_succ, List.foldl_concat]

end Reads

/-! ## The frames that `pmm_init` frees -/

/-- Without wrap-around a descriptor covers the frames from its start on. -/
theorem EfiMemoryDescriptor.covers_iff {desc : EfiMemoryDescriptor}
    (h : desc.physicalStart.toNat / 4096 + desc.numberOfPages.toNat ≤ 2 ^ 52) (f : ℕ) :
    desc.Covers f ↔ desc.physicalStart.toNat / 4096 ≤ f ∧
      f < desc.physicalStart.toNat / 4096 + desc.numberOfPages.toNat := by
  unfold EfiMemoryDescriptor.Covers
  constructor
  · rintro ⟨k, hk, rfl⟩
    rw [Nat.mod_eq_of_lt (by omega)]
    omega
  · rintro ⟨hle, hlt⟩
    exact ⟨f - desc.physicalStart.toNat / 4096, by omega, by
      rw [Nat.add_sub_cancel' hle, Nat.mod_eq_of_lt (by omega)]⟩

/-- **The frames that are free after `pmm_init`**: those from 8 MiB to 4 GiB that some conventional
descriptor covers, for every memory map. -/
theorem pmm_init_free_iff (m : PhysMem) (info : BootInfo) (hdesc : info.mmapDescSize ≠ 0)
    (hfit : ∀ i < info.descriptorCount, (info.descriptor m i).type = efiConventionalMemory →
      (info.descriptor m i).physicalStart.toNat / 4096 +
        (info.descriptor m i).numberOfPages.toNat ≤ 2 ^ 52) :
    ∃ s, pmmInit m info = some s ∧ ∀ f : U64, s.testBit f.toNat = false ↔
      2048 ≤ f.toNat ∧ f.toNat < 2 ^ 20 ∧
      ∃ i < info.descriptorCount, (info.descriptor m i).type = efiConventionalMemory ∧
        (info.descriptor m i).physicalStart.toNat / 4096 ≤ f.toNat ∧
        f.toNat < (info.descriptor m i).physicalStart.toNat / 4096 +
          (info.descriptor m i).numberOfPages.toNat := by
  obtain ⟨s, hs⟩ : ∃ s, pmmInit m info = some s := ⟨_, pmmInit_of_ne_zero hdesc⟩
  refine ⟨s, hs, ?_⟩
  intro f
  have hfree := mem_freeFrames_pmmInit hs f.toNat
  rw [mem_freeFrames, totalFrames_pmmInit hs] at hfree
  -- no descriptor wraps around, so that it covers the frames from its start on
  have hcover : Conventional m info f.toNat ↔ ∃ i < info.descriptorCount,
      (info.descriptor m i).type = efiConventionalMemory ∧
        (info.descriptor m i).physicalStart.toNat / 4096 ≤ f.toNat ∧
        f.toNat < (info.descriptor m i).physicalStart.toNat / 4096 +
          (info.descriptor m i).numberOfPages.toNat := by
    apply exists_congr
    intro i
    apply and_congr_right
    intro hi
    apply and_congr_right
    intro htype
    exact EfiMemoryDescriptor.covers_iff (hfit i hi htype) f.toNat
  rw [← hcover]
  show _ ↔ Allocatable m info f.toNat
  rw [← hfree]
  exact ⟨fun h => ⟨lt_of_testBit_eq_false h, h⟩, fun h => h.2⟩

/-- On the 512 MiB machine the frame at 8 MiB is free. -/
theorem pmm_init_free_iff_sample : ∃ s, pmmInit Sample.memory Sample.info = some s ∧
    s.testBit (2048 : U64).toNat = false := by
  have hcount : Sample.info.descriptorCount = 1 := by decide
  have hfit : ∀ i < Sample.info.descriptorCount,
      (Sample.info.descriptor Sample.memory i).type = efiConventionalMemory →
      (Sample.info.descriptor Sample.memory i).physicalStart.toNat / 4096 +
        (Sample.info.descriptor Sample.memory i).numberOfPages.toNat ≤ 2 ^ 52 := by
    intro i hi _
    obtain rfl : i = 0 := by omega
    decide
  obtain ⟨s, hs, hfree⟩ := pmm_init_free_iff Sample.memory Sample.info (by decide) hfit
  refine ⟨s, hs, (hfree 2048).mpr ⟨by decide, by decide, 0, by omega, by decide, ?_⟩⟩
  decide

/-! ## The two accounts of memory -/

/-- The pages of the conventional descriptors, added up. -/
def conventionalPages (m : PhysMem) (info : BootInfo) (count : ℕ) : ℕ :=
  ∑ i ∈ Finset.range count, if (info.descriptor m i).type = efiConventionalMemory then
    (info.descriptor m i).numberOfPages.toNat else 0

variable {m : PhysMem} {info : BootInfo} {M : Type} {tables : M} {cr3 : U64} {s : MemSystem M}

theorem conventionalPages_succ (m : PhysMem) (info : BootInfo) (n : ℕ) :
    conventionalPages m info (n + 1) = conventionalPages m info n +
      if (info.descriptor m n).type = efiConventionalMemory then
        (info.descriptor m n).numberOfPages.toNat else 0 := Finset.sum_range_succ ..

/-- **The scan of `mem_init` adds the pages up**, as long as the sum does not wrap around. -/
theorem toNat_addDescriptors {n : ℕ} (h : conventionalPages m info n < 2 ^ 52) :
    (addDescriptors m info n).value.toNat = conventionalPages m info n * 4096 := by
  induction n with
  | zero => simp [addDescriptors, conventionalPages]
  | succ n ih =>
    rw [conventionalPages_succ] at h ⊢
    have hrec := ih (by omega)
    rw [value_addDescriptors_succ]
    split_ifs at h ⊢ with htype
    · -- a conventional descriptor: neither the product nor the sum leaves 64 bits
      have h4096 : (4096 : U64).toNat = 4096 := rfl
      rw [BitVec.toNat_add, BitVec.toNat_mul, hrec, h4096]
      omega
    · rw [hrec, Nat.add_zero]

/-- A descriptor covers at most as many frames as it has pages. -/
theorem exists_card_le_covers (desc : EfiMemoryDescriptor) : ∃ C : Finset ℕ,
    C.card ≤ desc.numberOfPages.toNat ∧ ∀ f, desc.Covers f → f ∈ C := by
  refine ⟨(Finset.range desc.numberOfPages.toNat).image
    fun k => (desc.physicalStart.toNat / 4096 + k) % 2 ^ 64, ?_, ?_⟩
  · exact Finset.card_image_le.trans (Finset.card_range _).le
  · rintro f ⟨k, hk, rfl⟩
    exact Finset.mem_image_of_mem _ (Finset.mem_range.mpr hk)

/-- **Descriptors may overlap, so that there are at most as many conventional frames as the scan
counts.** -/
theorem card_le_conventionalPages {F : Finset ℕ} (hF : ∀ f ∈ F, Conventional m info f) :
    F.card ≤ conventionalPages m info info.descriptorCount := by
  choose C hcard hC using fun i => exists_card_le_covers (info.descriptor m i)
  have hsub : F ⊆ (Finset.range info.descriptorCount).biUnion fun i =>
      if (info.descriptor m i).type = efiConventionalMemory then C i else ∅ := by
    intro f hf
    obtain ⟨i, hi, htype, hcov⟩ := hF f hf
    refine Finset.mem_biUnion.mpr ⟨i, Finset.mem_range.mpr hi, ?_⟩
    rw [if_pos htype]
    exact hC i f hcov
  calc F.card ≤ _ := Finset.card_le_card hsub
    _ ≤ ∑ i ∈ Finset.range info.descriptorCount,
        (if (info.descriptor m i).type = efiConventionalMemory then C i else ∅).card :=
      Finset.card_biUnion_le
    _ ≤ conventionalPages m info info.descriptorCount := by
      apply Finset.sum_le_sum
      intro i _
      split_ifs
      · exact hcard i
      · exact Finset.card_empty.le

/-- `mem_init` comes back when the descriptor size is not zero. -/
theorem exists_memInit (tables : M) (cr3 : U64) (h : info.mmapDescSize ≠ 0) :
    ∃ s, memInit m tables cr3 info = some s := by
  obtain ⟨r, hr, -⟩ := readPmmInit_eq_some m info (pmmInit_of_ne_zero h)
  unfold memInit
  simp only [hr]
  split_ifs
  exacts [⟨_, rfl⟩, ⟨_, rfl⟩]

/-- What `mem_init` leaves when it comes back. -/
theorem memInit_eq_some (h : memInit m tables cr3 info = some s) :
    pmmInit m info = some s.vmm.paging.pmm ∧
      (s.totalRamBytes = if info.Rejected then 0 else (addDescriptors m info
        info.descriptorCount).value) ∧
      s.mapReads = (List.range info.descriptorCount).flatMap (pmmInitReads m info) ++
        if info.Rejected then []
        else (List.range info.descriptorCount).flatMap (addDescriptorReads m info) := by
  unfold memInit at h
  cases hp : pmmInit m info with
  | none => simp only [readPmmInit_eq_none m info hp] at h; cases h
  | some pmm =>
    obtain ⟨r, hr, rfl, hreads⟩ := readPmmInit_eq_some m info hp
    simp only [hr] at h
    rw [← hreads, ← reads_addDescriptors]
    split_ifs at h ⊢ with hrej <;> obtain rfl := Option.some.inj h
    · exact ⟨rfl, rfl, (List.append_nil _).symm⟩
    · exact ⟨rfl, rfl, rfl⟩

/-- The free frames counted in 64 bits. -/
theorem toNat_ofNat_pmmGetFreeFrames {pmm : Pmm} (htotal : pmm.totalFrames = 2 ^ 20) :
    (BitVec.ofNat 64 (pmmGetFreeFrames pmm)).toNat = pmmGetFreeFrames pmm := by
  have := card_freeFrames_le pmm
  rw [BitVec.toNat_ofNat, pmmGetFreeFrames_eq_card, Nat.mod_eq_of_lt (by omega)]

/-- With a total of whole pages that cover the free frames, the memory in use is the rest. -/
theorem toNat_sysinfoGetMemUsage {total : U64} {pmm : Pmm} {pages : ℕ}
    (hpmm : pmm.totalFrames = 2 ^ 20)
    (htotal : total.toNat = pages * 4096) (hle : pmm.freeFrames.card ≤ pages) :
    (sysinfoGetMemUsage total pmm).1.toNat = (pages - pmm.freeFrames.card) * 4096 := by
  have h4096 : (4096 : U64).toNat = 4096 := rfl
  have hlt := total.isLt
  have hdiv : (total / 4096).toNat = pages := by
    rw [BitVec.toNat_udiv, htotal, h4096, Nat.mul_div_cancel _ (by omega)]
  have hfree := toNat_ofNat_pmmGetFreeFrames hpmm
  rw [pmmGetFreeFrames_eq_card] at hfree
  have hsub : BitVec.ofNat 64 pmm.freeFrames.card ≤ total / 4096 := by
    rw [BitVec.le_def, hfree, hdiv]
    exact hle
  simp only [sysinfoGetMemUsage, pmmGetFreeFrames_eq_card]
  rw [BitVec.toNat_mul, BitVec.toNat_sub_of_le hsub, hfree, hdiv, h4096,
    Nat.mod_eq_of_lt (by omega)]

/-- **The memory in use never comes out negative.** After `mem_init` on any memory map whose
conventional pages number less than `2^52`, and any run of allocations and of frees of held frames,
the free frames fit in the total, what is used and what is free make up the total, and what is used
covers the frames held. -/
theorem mem_usage_run {M : Type} (m : PhysMem) (tables : M) (cr3 : U64) (info : BootInfo)
    (s₀ : MemSystem M) (hinit : memInit m tables cr3 info = some s₀) (hmap : info.mmap ≠ 0)
    (hdesc : 40 ≤ info.mmapDescSize.toNat)
    (hsum : conventionalPages m info info.descriptorCount < 2 ^ 52) (ops : List PmmOp)
    (s : PmmClients) (hrun : run pmmStep ⟨s₀.vmm.paging.pmm, ∅⟩ ops = some s) :
    4096 * pmmGetFreeFrames s.pmm ≤ (sysinfoGetMemUsage s₀.totalRamBytes s.pmm).2.toNat ∧
    (sysinfoGetMemUsage s₀.totalRamBytes s.pmm).1.toNat + 4096 * pmmGetFreeFrames s.pmm =
      (sysinfoGetMemUsage s₀.totalRamBytes s.pmm).2.toNat ∧
    4096 * s.held.card ≤ (sysinfoGetMemUsage s₀.totalRamBytes s.pmm).1.toNat := by
  obtain ⟨hpmm, htotal, -⟩ := memInit_eq_some hinit
  have hnot : ¬ info.Rejected := by
    rintro (h | h)
    · exact hmap h
    · have h40 : sizeofEfiMemoryDescriptor.toNat = 40 := rfl
      rw [BitVec.lt_def, h40] at h
      omega
  -- the total counts the conventional pages
  rw [if_neg hnot] at htotal
  have hram : s₀.totalRamBytes.toNat = conventionalPages m info info.descriptorCount * 4096 := by
    rw [htotal, toNat_addDescriptors hsum]
  -- free and held frames are conventional frames
  have hF : ∀ f, Allocatable m info f → 0 < f ∧ f < 2 ^ 20 := fun f hf => hf.bounds
  have hs := (framesPartition_pmmInit hpmm).run hF hrun
  have hcard := hs.card hF (mem_freeFrames_pmmInit hpmm)
  have hle : s₀.vmm.paging.pmm.freeFrames.card ≤ conventionalPages m info info.descriptorCount :=
    card_le_conventionalPages fun f hf => ((mem_freeFrames_pmmInit hpmm f).mp hf).2.2
  have hused : (sysinfoGetMemUsage s₀.totalRamBytes s.pmm).1.toNat =
      (conventionalPages m info info.descriptorCount - s.pmm.freeFrames.card) * 4096 :=
    toNat_sysinfoGetMemUsage hs.total hram (by omega)
  have hall : (sysinfoGetMemUsage s₀.totalRamBytes s.pmm).2.toNat =
      conventionalPages m info info.descriptorCount * 4096 := hram
  rw [hused, hall, pmmGetFreeFrames_eq_card]
  omega

/-- On the 512 MiB machine, after two allocations: 8192 bytes are in use at least. -/
theorem mem_usage_run_sample : ∃ s₀ s,
    memInit Sample.memory Sample.memory 0x100000 Sample.info = some s₀ ∧
    run pmmStep ⟨s₀.vmm.paging.pmm, ∅⟩ [.alloc, .alloc] = some s ∧
    8192 ≤ (sysinfoGetMemUsage s₀.totalRamBytes s.pmm).1.toNat := by
  have hcount : Sample.info.descriptorCount = 1 := by decide
  have hpages : conventionalPages Sample.memory Sample.info
      Sample.info.descriptorCount < 2 ^ 52 := by
    have hnumber :
        (Sample.info.descriptor Sample.memory 0).numberOfPages.toNat = 131072 := by decide
    have hzero : conventionalPages Sample.memory Sample.info 0 = 0 := rfl
    rw [hcount, conventionalPages_succ, hnumber, hzero]
    split_ifs <;> omega
  have hne : frameAddr 2049 ≠ frameAddr 2048 := by decide
  -- the two frames at 8 MiB are taken
  obtain ⟨s₀, hinit⟩ : ∃ s₀,
    memInit Sample.memory Sample.memory 0x100000 Sample.info = some s₀ :=
    exists_memInit _ _ (by decide)
  have hpmm : s₀.vmm.paging.pmm = Sample.pmm :=
    Option.some.inj ((memInit_eq_some hinit).1.symm.trans Sample.pmmInit_eq)
  have hrun := Sample.run_alloc_two
  rw [← hpmm] at hrun
  have hused := (mem_usage_run Sample.memory Sample.memory 0x100000 Sample.info s₀ hinit (by decide)
    (by decide) hpages [.alloc, .alloc] _ hrun).2.2
  rw [Finset.card_pair hne] at hused
  exact ⟨s₀, _, hinit, hrun, hused⟩

/-! ## Which maps are accepted -/

/-- **What `mem_init` must do with a map**: come back, having read nothing outside the map; and if
it turns the map down, memory is empty in both accounts. -/
def MemInitOk (m : PhysMem) (tables : M) (cr3 : U64) (info : BootInfo) : Prop :=
  ∃ s, memInit m tables cr3 info = some s ∧ (∀ k ∈ s.mapReads, k < info.mmapSize.toNat) ∧
    (info.Rejected → s.totalRamBytes = 0 ∧ pmmGetFreeFrames s.vmm.paging.pmm = 0)

/-- The maps that `mem_init` can handle: the descriptor size is not zero, the fields that are read
end inside the map, and a map that is turned down has no frame to free. -/
structure MapAcceptable (m : PhysMem) (info : BootInfo) : Prop where
  size_ne_zero : info.mmapDescSize ≠ 0
  fields_inside : ∀ i < info.descriptorCount,
    i * info.mmapDescSize.toNat + 4 ≤ info.mmapSize.toNat ∧
    ((info.descriptor m i).type = efiConventionalMemory →
      i * info.mmapDescSize.toNat + 32 ≤ info.mmapSize.toNat)
  rejected_empty : info.Rejected → ∀ f, ¬ Allocatable m info f

theorem forall_fieldBytes {i offset size n : ℕ} (hsize : 0 < size) :
    (∀ k ∈ info.fieldBytes i offset size, k < n) ↔
      i * info.mmapDescSize.toNat + offset + size ≤ n := by
  simp only [BootInfo.fieldBytes, List.mem_map, List.mem_range]
  constructor
  · intro h
    have := h _ ⟨size - 1, by omega, rfl⟩
    omega
  · rintro h k ⟨j, hj, rfl⟩
    omega

/-- The last field that a round reads decides. -/
theorem forall_pmmInitReads {i n : ℕ} : (∀ k ∈ pmmInitReads m info i, k < n) ↔
    i * info.mmapDescSize.toNat + 4 ≤ n ∧
    ((info.descriptor m i).type = efiConventionalMemory →
      i * info.mmapDescSize.toNat + 32 ≤ n) := by
  unfold pmmInitReads
  rw [List.forall_mem_append, forall_fieldBytes (by decide)]
  apply and_congr_right
  intro hfirst
  split_ifs with htype
  · rw [List.forall_mem_append, forall_fieldBytes (by decide), forall_fieldBytes (by decide)]
    simp only [htype, true_implies]
    omega
  · simp [htype]

/-- The scan of `mem_init` reads nothing that `pmm_init` has not read. -/
theorem addDescriptorReads_subset (m : PhysMem) (info : BootInfo) (i : ℕ) :
    addDescriptorReads m info i ⊆ pmmInitReads m info i := by
  unfold addDescriptorReads pmmInitReads
  split_ifs
  · exact List.append_subset.mpr ⟨List.subset_append_left _ _,
      fun k hk => List.mem_append_right _ (List.mem_append_right _ hk)⟩
  · exact List.Subset.refl _

/-- The reads of `mem_init` are inside the map when those of `pmm_init` are. -/
theorem forall_mapReads {n : ℕ} (h : memInit m tables cr3 info = some s) :
    (∀ k ∈ s.mapReads, k < n) ↔
      ∀ i < info.descriptorCount, ∀ k ∈ pmmInitReads m info i, k < n := by
  have hscan : (∀ k ∈ (List.range info.descriptorCount).flatMap (pmmInitReads m info), k < n) ↔
      ∀ i < info.descriptorCount, ∀ k ∈ pmmInitReads m info i, k < n := by
    simp only [List.mem_flatMap, List.mem_range]
    exact ⟨fun h i hi k hk => h k ⟨i, hi, hk⟩, fun h k ⟨i, hi, hk⟩ => h i hi k hk⟩
  rw [(memInit_eq_some h).2.2, List.forall_mem_append, hscan, and_iff_left_iff_imp]
  intro h k hk
  split_ifs at hk
  · cases hk
  · obtain ⟨i, hi, hk⟩ := List.mem_flatMap.mp hk
    exact h i (List.mem_range.mp hi) k (addDescriptorReads_subset m info i hk)

/-- **`mem_init` does what it must exactly for acceptable maps**, for every memory content. -/
theorem mem_init_ok_iff (m : PhysMem) (tables : M) (cr3 : U64) (info : BootInfo) :
    MemInitOk m tables cr3 info ↔ MapAcceptable m info := by
  have hempty : ∀ {s : MemSystem M}, memInit m tables cr3 info = some s →
      (pmmGetFreeFrames s.vmm.paging.pmm = 0 ↔ ∀ f, ¬ Allocatable m info f) := by
    intro s hs
    rw [pmmGetFreeFrames_eq_card, Finset.card_eq_zero, Finset.eq_empty_iff_forall_notMem]
    exact forall_congr' fun f => not_congr (mem_freeFrames_pmmInit (memInit_eq_some hs).1 f)
  constructor
  · rintro ⟨s, hs, hreads, hrejected⟩
    refine ⟨?_, ?_, fun hr => (hempty hs).mp (hrejected hr).2⟩
    · -- with a descriptor size of 0 `pmm_init` divides by zero
      intro h0
      simp only [memInit, readPmmInit, if_pos h0] at hs
      cases hs
    · intro i hi
      exact forall_pmmInitReads.mp ((forall_mapReads hs).mp hreads i hi)
  · intro h
    obtain ⟨s, hs⟩ := exists_memInit (m := m) tables cr3 h.size_ne_zero
    refine ⟨s, hs, (forall_mapReads hs).mpr fun i hi => ?_, fun hr => ⟨?_, ?_⟩⟩
    · exact forall_pmmInitReads.mpr (h.fields_inside i hi)
    · rw [(memInit_eq_some hs).2.1, if_pos hr]
    · exact (hempty hs).mpr (h.rejected_empty hr)

/-- **Maps that only the second scan turns down.** With a descriptor size of 0 `pmm_init` divides by
zero; with one of 32 bytes it frees the frames of a map that `mem_init` then turns down. -/
theorem mem_init_scans_disagree : Sample.info.magic = 0xB007B007 ∧
    ¬ MemInitOk Sample.memory Sample.memory 0x100000 { Sample.info with mmapDescSize := 0 } ∧
    ¬ MemInitOk Sample.memory Sample.memory 0x100000 { Sample.info with mmapDescSize := 32 } := by
  refine ⟨rfl, ?_, ?_⟩
  · rintro ⟨s, hs, -⟩
    simp only [memInit, readPmmInit, if_true] at hs
    cases hs
  · rintro ⟨s, hs, -, hrejected⟩
    have hfree := (hrejected (by decide)).2
    rw [pmmGetFreeFrames_eq_card, Finset.card_eq_zero] at hfree
    have hmem : 2048 ∈ s.vmm.paging.pmm.freeFrames := by
      refine (mem_freeFrames_pmmInit (memInit_eq_some hs).1 2048).mpr ⟨le_rfl, by omega, 0, ?_⟩
      exact ⟨by decide, by decide, 2048, by decide, by decide⟩
    rw [hfree] at hmem
    simp at hmem

end OS44
