import OS44.BootInfo
import OS44.Library.ByteRange

/-! # Loading the kernel (`load_kernel`)

The bootloader reads the header and the program headers of `kernel.elf`, takes the bounds of the
`PT_LOAD` segments in a first loop, asks the firmware for that many pages, and in a second loop
zeroes each segment and reads its bytes from the file.

* A well-formed file ends up as one image, segment by segment, and nothing else is written
  (`load_kernel_image`).
* Whatever the file says, the segments are written inside the allocated pages exactly when each of
  them ends there, counting the bytes that are *read* and the page count with its overflow
  (`load_kernel_writes_inside_iff`); a file size above the memory size breaks out of them
  (`load_kernel_overruns`). -/

namespace OS44

open ByteRange

/-! ## The firmware -/

/-- `EFI_ERROR`. -/
def efiError (s : U64) : Bool := s.msb

/-- `EFI_SUCCESS`. -/
def efiSuccess : U64 := 0

/-- `EFI_LOAD_ERROR`. -/
def efiLoadError : U64 := 1 ||| (1 <<< 63)

/-- The firmware as `load_kernel` meets it: `kernel.elf`, and the answers of `Open` and
`AllocatePages`. Pages it grants are page-aligned and lie in the address space. -/
structure LoaderFirmware where
  openStatus : U64
  file : List U8
  length_lt : file.length < 2 ^ 64
  /-- The status and the base address for a number of pages. -/
  allocatePages : U64 → U64 × U64
  aligned : ∀ n, efiError (allocatePages n).1 = false → 4096 ∣ (allocatePages n).2.toNat
  fits : ∀ n, efiError (allocatePages n).1 = false →
    (allocatePages n).2.toNat + 4096 * n.toNat ≤ 2 ^ 64

/-- The number of bytes a `Read` of `size` bytes at `pos` transfers: it stops at the
end of the file. -/
def readCount (file : List U8) (pos size : ℕ) : ℕ := min size (file.length - pos)

/-- `SetPosition` and `Read` into the memory at `dest`. -/
def readFile (file : List U8) (pos size : ℕ) (m : PhysMem) (dest : U64) : PhysMem := fun a =>
  if (a - dest).toNat < readCount file pos size then file.getD (pos + (a - dest).toNat) 0 else m a

/-! ## The headers -/

/-- The fields of `Elf64_Ehdr` that the loader reads. -/
structure Elf64Ehdr where
  ident : Fin 4 → U8
  entry : U64
  phoff : U64
  phentsize : U16
  phnum : U16

/-- `Elf64_Phdr`. -/
structure Elf64Phdr where
  type : U32
  flags : U32
  offset : U64
  vaddr : U64
  paddr : U64
  filesz : U64
  memsz : U64
  align : U64
  deriving DecidableEq

/-- Read a `uint16_t`. -/
def load16 (m : PhysMem) (a : U64) : U16 := BitVec.ofNat 16 (LittleEndian.loadLE m a 2)

/-- The header in the 64 bytes of `ehdr`. -/
def readEhdr (m : PhysMem) : Elf64Ehdr where
  ident := fun i => m (BitVec.ofNat 64 i)
  entry := load64 m 24
  phoff := load64 m 32
  phentsize := load16 m 54
  phnum := load16 m 56

/-- The program header `phdrs[i]`, 56 bytes each. -/
def readPhdr (m : PhysMem) (i : ℕ) : Elf64Phdr :=
  let a : U64 := BitVec.ofNat 64 (56 * i)
  { type := load32 m a
    flags := load32 m (a + 4)
    offset := load64 m (a + 8)
    vaddr := load64 m (a + 16)
    paddr := load64 m (a + 24)
    filesz := load64 m (a + 32)
    memsz := load64 m (a + 40)
    align := load64 m (a + 48) }

/-- `PT_LOAD`. -/
def ptLoad : U32 := 1

/-- What the stack holds where `ehdr` and `phdrs` are, before they are read. -/
structure LoaderStack where
  ehdr : PhysMem
  phdrs : PhysMem

/-- `ehdr` after the first `Read`. -/
def loadEhdr (fw : LoaderFirmware) (stack : LoaderStack) : Elf64Ehdr :=
  readEhdr (readFile fw.file 0 64 stack.ehdr 0)

/-- `phdrs[0..e_phnum)` after the second `Read`. -/
def loadPhdrs (fw : LoaderFirmware) (stack : LoaderStack) : List Elf64Phdr :=
  let ehdr := loadEhdr fw stack
  (List.range ehdr.phnum.toNat).map
    (readPhdr (readFile fw.file ehdr.phoff.toNat (ehdr.phnum.toNat * 56) stack.phdrs 0))

/-- The magic number of an ELF file. -/
def Elf64Ehdr.HasMagic (ehdr : Elf64Ehdr) : Prop :=
  ehdr.ident 0 = 0x7f ∧ ehdr.ident 1 = 0x45 ∧ ehdr.ident 2 = 0x4c ∧ ehdr.ident 3 = 0x46

instance (ehdr : Elf64Ehdr) : Decidable ehdr.HasMagic := inferInstanceAs (Decidable (_ ∧ _))

/-! ## The two loops -/

/-- `memset_local`. -/
def memsetLocal (m : PhysMem) (p : U64) (val : U8) : ℕ → PhysMem
  | 0 => m
  | len + 1 => memsetLocal (Function.update m p val) (p + 1) val len

/-- `min_vaddr`, `max_vaddr` and `load_count`. -/
structure Bounds where
  minVaddr : U64
  maxVaddr : U64
  loadCount : ℕ

/-- One round of the first loop. -/
def boundsStep (b : Bounds) (p : Elf64Phdr) : Bounds :=
  if p.type ≠ ptLoad then b
  else
    { minVaddr := if p.vaddr.toNat < b.minVaddr.toNat then p.vaddr else b.minVaddr
      maxVaddr :=
        if (p.vaddr + p.memsz).toNat > b.maxVaddr.toNat then p.vaddr + p.memsz else b.maxVaddr
      loadCount := b.loadCount + 1 }

/-- The first loop. -/
def bounds (phdrs : List Elf64Phdr) : Bounds :=
  phdrs.foldl boundsStep { minVaddr := -1, maxVaddr := 0, loadCount := 0 }

/-- `total_pages`. -/
def totalPages (b : Bounds) : U64 := (b.maxVaddr - b.minVaddr + 0xFFF) / 0x1000

/-- Memory, and the writes made to it: where each starts and how many bytes it writes. -/
structure Loading where
  mem : PhysMem
  writes : List (U64 × ℕ)

/-- One round of the second loop: zero the segment, then read its bytes. -/
def loadSegment (file : List U8) (base minVaddr : U64) (s : Loading) (p : Elf64Phdr) : Loading :=
  if p.type ≠ ptLoad then s
  else
    let dest := base + (p.vaddr - minVaddr)
    let mem := memsetLocal s.mem dest 0 p.memsz.toNat
    { mem := readFile file p.offset.toNat p.filesz.toNat mem dest
      writes := s.writes ++ [(dest, p.memsz.toNat),
        (dest, readCount file p.offset.toNat p.filesz.toNat)] }

/-- What `load_kernel` leaves: its status, `*entry_out` if written, the pages obtained (base and
number), and what was written to memory. -/
structure LoadResult where
  status : U64
  entryOut : Option U64
  region : Option (U64 × U64)
  loading : Loading

/-- `load_kernel`. More than 16 program headers overrun `phdrs`, which the model does not follow
(`none`). -/
def loadKernel (fw : LoaderFirmware) (stack : LoaderStack) (mem : PhysMem) : Option LoadResult :=
  let s : Loading := { mem := mem, writes := [] }
  let fail (status : U64) : LoadResult :=
    { status := status, entryOut := none, region := none, loading := s }
  if efiError fw.openStatus then some (fail fw.openStatus)
  else
    let ehdr := loadEhdr fw stack
    if ¬ ehdr.HasMagic then some (fail efiLoadError)
    else if 16 < ehdr.phnum.toNat then none
    else
      let phdrs := loadPhdrs fw stack
      let b := bounds phdrs
      if b.loadCount = 0 then some (fail efiLoadError)
      else
        let (status, base) := fw.allocatePages (totalPages b)
        if efiError status then some (fail status)
        else
          some { status := efiSuccess
                 entryOut := some (base + (ehdr.entry - b.minVaddr))
                 region := some (base, totalPages b)
                 loading := phdrs.foldl (loadSegment fw.file base b.minVaddr) s }

/-! ## The bounds of the segments -/

/-- The segments to load. -/
def loads (phdrs : List Elf64Phdr) : List Elf64Phdr := phdrs.filter fun p => p.type = ptLoad

/-- The least `p_vaddr`. -/
def lowest (segs : List Elf64Phdr) : ℕ := (segs.map fun p => p.vaddr.toNat).foldr min (2 ^ 64 - 1)

/-- The greatest `p_vaddr + p_memsz`, each sum modulo 2^64 as the loader computes it. -/
def highest (segs : List Elf64Phdr) : ℕ := (segs.map fun p => (p.vaddr + p.memsz).toNat).foldr max 0

variable {fw : LoaderFirmware} {stack : LoaderStack} {mem : PhysMem} {phdrs : List Elf64Phdr}

theorem mem_loads {p : Elf64Phdr} : p ∈ loads phdrs ↔ p ∈ phdrs ∧ p.type = ptLoad := by
  simp [loads]

theorem loads_cons_of_load {p : Elf64Phdr} (hp : p.type = ptLoad) :
    loads (p :: phdrs) = p :: loads phdrs := List.filter_cons_of_pos (decide_eq_true hp)

theorem loads_cons_of_ne {p : Elf64Phdr} (hp : p.type ≠ ptLoad) : loads (p :: phdrs) =
    loads phdrs :=
  List.filter_cons_of_neg (by simp [hp])

/-- The rounds of the first loop, from any bounds. -/
theorem foldl_boundsStep (b : Bounds) (phdrs : List Elf64Phdr) :
    (phdrs.foldl boundsStep b).minVaddr.toNat = min b.minVaddr.toNat (lowest (loads phdrs)) ∧
      (phdrs.foldl boundsStep b).maxVaddr.toNat = max b.maxVaddr.toNat (highest (loads phdrs)) ∧
      (phdrs.foldl boundsStep b).loadCount = b.loadCount + (loads phdrs).length := by
  induction phdrs generalizing b with
  | nil =>
    refine ⟨?_, ?_, rfl⟩
    · have := b.minVaddr.isLt
      simp only [List.foldl_nil, loads, List.filter_nil, lowest, List.map_nil, List.foldr_nil]
      omega
    · simp [loads, highest]
  | cons p phdrs ih =>
    rw [List.foldl_cons]
    obtain ⟨hmin, hmax, hcount⟩ := ih (boundsStep b p)
    rw [hmin, hmax, hcount]
    by_cases hp : p.type = ptLoad
    · simp only [loads_cons_of_load hp, boundsStep, ne_eq, hp, not_true, if_false, lowest, highest,
        List.map_cons, List.foldr_cons, List.length_cons]
      refine ⟨?_, ?_, by omega⟩
      · split <;> omega
      · split <;> omega
    · -- the round skips a header of another type
      simp [loads_cons_of_ne hp, boundsStep, hp]

/-- What the first loop computes. -/
theorem bounds_eq (phdrs : List Elf64Phdr) :
    (bounds phdrs).minVaddr.toNat = lowest (loads phdrs) ∧
      (bounds phdrs).maxVaddr.toNat = highest (loads phdrs) ∧
      ((bounds phdrs).loadCount = 0 ↔ loads phdrs = []) := by
  obtain ⟨hmin, hmax, hcount⟩ :=
    foldl_boundsStep { minVaddr := -1, maxVaddr := 0, loadCount := 0 } phdrs
  have hle : ∀ segs : List Elf64Phdr, lowest segs ≤ 2 ^ 64 - 1 := by
    intro segs
    induction segs with
    | nil => exact le_rfl
    | cons p segs ih => exact (min_le_right _ _).trans ih
  refine ⟨hmin.trans (min_eq_right (hle _)), hmax.trans (Nat.zero_max _), ?_⟩
  rw [bounds, hcount, Nat.zero_add, List.length_eq_zero_iff]

theorem lowest_le {segs : List Elf64Phdr} {p : Elf64Phdr} (hp : p ∈ segs) :
    lowest segs ≤ p.vaddr.toNat := by
  induction segs with
  | nil => cases hp
  | cons q segs ih =>
    rcases List.mem_cons.mp hp with rfl | hp
    · exact min_le_left _ _
    · exact (min_le_right _ _).trans (ih hp)

theorem le_highest {segs : List Elf64Phdr} {p : Elf64Phdr} (hp : p ∈ segs) :
    (p.vaddr + p.memsz).toNat ≤ highest segs := by
  induction segs with
  | nil => cases hp
  | cons q segs ih =>
    rcases List.mem_cons.mp hp with rfl | hp
    · exact le_max_left _ _
    · exact (ih hp).trans (le_max_right _ _)

/-- The least address is the address of a segment. -/
theorem exists_vaddr_eq_lowest {segs : List Elf64Phdr} (h : segs ≠ []) :
    ∃ p ∈ segs, p.vaddr.toNat = lowest segs := by
  induction segs with
  | nil => exact absurd rfl h
  | cons p segs ih =>
    rcases segs.eq_nil_or_concat with rfl | ⟨_, _, hsegs⟩
    · refine ⟨p, List.mem_singleton_self p, ?_⟩
      have := p.vaddr.isLt
      simp only [lowest, List.map_cons, List.map_nil, List.foldr_cons, List.foldr_nil]
      omega
    · obtain ⟨q, hq, heq⟩ := ih (by rw [hsegs]; simp)
      rcases le_total p.vaddr.toNat (lowest segs) with hle | hle
      · exact ⟨p, List.mem_cons_self .., (min_eq_left hle).symm⟩
      · exact ⟨q, List.mem_cons_of_mem p hq, heq.trans (min_eq_right hle).symm⟩

/-- The number of bytes allocated: the span of the segments, with the two overflows
of the loader. -/
theorem totalPages_toNat (phdrs : List Elf64Phdr) :
    (totalPages (bounds phdrs)).toNat =
      (2 ^ 64 + highest (loads phdrs) - lowest (loads phdrs) + 0xFFF) % 2 ^ 64 / 4096 := by
  obtain ⟨hmin, hmax, -⟩ := bounds_eq phdrs
  rw [totalPages, BitVec.toNat_udiv, BitVec.toNat_add, BitVec.toNat_sub, hmin, hmax]
  have hlt := (bounds phdrs).minVaddr.isLt
  rw [hmin] at hlt
  have h₁ : ((0xFFF : U64)).toNat = 0xFFF := rfl
  have h₂ : ((0x1000 : U64)).toNat = 4096 := rfl
  have h₃ : 2 ^ 64 - lowest (loads phdrs) + highest (loads phdrs) =
      2 ^ 64 + highest (loads phdrs) - lowest (loads phdrs) := by
    omega
  rw [h₁, h₂, Nat.mod_add_mod, h₃]

/-! ## What the second loop writes -/

/-- The loop of `memset_local` fills a range. -/
theorem memsetLocal_eq (m : PhysMem) (p : U64) (val : U8) {len : ℕ} (h : len ≤ 2 ^ 64) :
    memsetLocal m p val len = setRange m p len fun _ => val := by
  induction len generalizing m p with
  | zero => rw [memsetLocal, setRange_zero]
  | succ len ih => rw [memsetLocal, ih _ _ (by omega), setRange_succ m p (fun _ => val) h]

/-- `Read` fills a range with bytes of the file. -/
theorem readFile_eq (file : List U8) (pos size : ℕ) (m : PhysMem) (dest : U64) :
    readFile file pos size m dest =
      setRange m dest (readCount file pos size) fun i => file.getD (pos + i) 0 := rfl

/-- The address a segment is loaded at. -/
def dest (base minVaddr : U64) (p : Elf64Phdr) : U64 := base + (p.vaddr - minVaddr)

/-- The number of bytes read for a segment. -/
def Elf64Phdr.readBytes (p : Elf64Phdr) (file : List U8) : ℕ :=
  readCount file p.offset.toNat p.filesz.toNat

/-- One round of the second loop on a segment to load: two ranges are written at its address. -/
theorem loadSegment_of_load {p : Elf64Phdr} (hp : p.type = ptLoad) (file : List U8)
    (base minVaddr : U64) (s : Loading) :
    loadSegment file base minVaddr s p =
      { mem := setRange (setRange s.mem (dest base minVaddr p) p.memsz.toNat fun _ => 0)
          (dest base minVaddr p) (p.readBytes file) fun i => file.getD (p.offset.toNat + i) 0
        writes := s.writes ++
          [(dest base minVaddr p, p.memsz.toNat), (dest base minVaddr p, p.readBytes file)] } := by
  simp only [loadSegment, hp, ne_eq, not_true, if_false]
  rw [readFile_eq, memsetLocal_eq _ _ _ p.memsz.isLt.le]
  rfl

/-- One round of the second loop on a segment of another type. -/
theorem loadSegment_of_ne {p : Elf64Phdr} (hp : p.type ≠ ptLoad) (file : List U8)
    (base minVaddr : U64) (s : Loading) : loadSegment file base minVaddr s p = s := if_pos hp

/-- The writes of the second loop. -/
theorem writes_foldl_loadSegment (file : List U8) (base minVaddr : U64) (s : Loading) :
    (phdrs.foldl (loadSegment file base minVaddr) s).writes =
      s.writes ++ (loads phdrs).flatMap fun p =>
        [(dest base minVaddr p, p.memsz.toNat), (dest base minVaddr p, p.readBytes file)] := by
  induction phdrs generalizing s with
  | nil => simp [loads]
  | cons p phdrs ih =>
    rw [List.foldl_cons, ih]
    by_cases hp : p.type = ptLoad
    · simp [loads_cons_of_load hp, loadSegment_of_load hp]
    · rw [loads_cons_of_ne hp, loadSegment_of_ne hp]

/-! ## Where the writes lie -/

/-- **The writes are safe**: without pages nothing is written and an error is returned; with pages
every byte written lies in them. -/
def LoadResult.WritesInside (r : LoadResult) : Prop :=
  match r.region with
  | none => efiError r.status = true ∧ r.loading.writes = []
  | some (base, pages) => ∀ w ∈ r.loading.writes, ∀ a : U64, (a - w.1).toNat < w.2 →
      base.toNat ≤ a.toNat ∧ a.toNat < base.toNat + 4096 * pages.toNat

/-- An error is returned before any segment is written: by `Open`, for the magic number, for want of
a segment, or by `AllocatePages`. -/
def LoadRefused (fw : LoaderFirmware) (stack : LoaderStack) : Prop :=
  efiError fw.openStatus = true ∨ ¬ (loadEhdr fw stack).HasMagic ∨ loads (loadPhdrs fw stack) = [] ∨
    efiError (fw.allocatePages (totalPages (bounds (loadPhdrs fw stack)))).1 = true

theorem not_loadRefused {fw : LoaderFirmware} {stack : LoaderStack}
    (hopen : efiError fw.openStatus = false) (hmagic : (loadEhdr fw stack).HasMagic)
    (hloads : loads (loadPhdrs fw stack) ≠ [])
    (halloc : efiError (fw.allocatePages (totalPages (bounds (loadPhdrs fw stack)))).1 = false) :
    ¬ LoadRefused fw stack := by
  rintro (href | href | href | href)
  · exact absurd (hopen.symm.trans href) Bool.false_ne_true
  · exact href hmagic
  · exact hloads href
  · exact absurd (halloc.symm.trans href) Bool.false_ne_true

/-- Every segment, with its memory size and with what is read for it, ends before the last whole
page of the span of the segments. The span is that of the loader: sums are modulo 2^64. -/
def SegmentsFit (file : List U8) (segs : List Elf64Phdr) : Prop :=
  ∀ p ∈ segs, ∀ n ∈ [p.memsz.toNat, p.readBytes file], n = 0 ∨
    p.vaddr.toNat - lowest segs + n ≤
      4096 * ((2 ^ 64 + highest segs - lowest segs + 0xFFF) % 2 ^ 64 / 4096)

/-- A load that is refused. -/
theorem loadKernel_of_refused (mem : U64 → U8) (hphnum : (loadEhdr fw stack).phnum.toNat ≤ 16)
    (h : LoadRefused fw stack) : ∃ r, loadKernel fw stack mem = some r ∧ r.region = none ∧
      efiError r.status = true ∧ r.loading = { mem := mem, writes := [] } := by
  have hload : efiError efiLoadError = true := by decide
  unfold loadKernel
  by_cases hopen : efiError fw.openStatus = true
  · exact ⟨_, if_pos hopen, rfl, hopen, rfl⟩
  by_cases hmagic : (loadEhdr fw stack).HasMagic
  · have hnil := (bounds_eq (loadPhdrs fw stack)).2.2
    simp only [if_neg hopen, if_neg (not_not.mpr hmagic), if_neg (not_lt.mpr hphnum)]
    by_cases hloads : loads (loadPhdrs fw stack) = []
    · exact ⟨_, if_pos (hnil.mpr hloads), rfl, hload, rfl⟩
    · -- with all of that in order, only the allocation can have been refused
      have halloc : efiError (fw.allocatePages
          (totalPages (bounds (loadPhdrs fw stack)))).1 = true := by
        rcases h with h | h | h | h
        · exact absurd h hopen
        · exact absurd hmagic h
        · exact absurd h hloads
        · exact h
      simp only [if_neg (mt hnil.mp hloads), if_pos halloc]
      exact ⟨_, rfl, rfl, halloc, rfl⟩
  · simp only [if_neg hopen, if_pos hmagic]
    exact ⟨_, rfl, rfl, hload, rfl⟩

/-- A load that is not refused. -/
theorem loadKernel_of_not_refused (hphnum : (loadEhdr fw stack).phnum.toNat ≤ 16)
    (h : ¬ LoadRefused fw stack) :
    loadKernel fw stack mem =
      some (let b := bounds (loadPhdrs fw stack)
            let base := (fw.allocatePages (totalPages b)).2
            { status := efiSuccess
              entryOut := some (base + ((loadEhdr fw stack).entry - b.minVaddr))
              region := some (base, totalPages b)
              loading := (loadPhdrs fw stack).foldl (loadSegment fw.file base b.minVaddr)
                { mem := mem, writes := [] } }) := by
  obtain ⟨hopen, hmagic, hloads, halloc⟩ : _ ∧ _ ∧ _ ∧ _ := by
    simpa only [LoadRefused, not_or, not_not] using h
  have hcount := mt (bounds_eq (loadPhdrs fw stack)).2.2.mp hloads
  unfold loadKernel
  simp only [if_neg hopen, if_neg (not_not.mpr hmagic), if_neg (not_lt.mpr hphnum), if_neg hcount,
    if_neg halloc]

/-- The writes of the second loop, against the pages. -/
theorem writes_inside_iff {base pages : U64} (hfits : base.toNat + 4096 * pages.toNat ≤ 2 ^ 64)
    (hpages : pages = totalPages (bounds phdrs)) (file : List U8) (mem : PhysMem) :
    (∀ w ∈ (phdrs.foldl (loadSegment file base (bounds phdrs).minVaddr)
        { mem := mem, writes := [] }).writes, ∀ a : U64, (a - w.1).toNat < w.2 →
        base.toNat ≤ a.toNat ∧ a.toNat < base.toNat + 4096 * pages.toNat) ↔
      SegmentsFit file (loads phdrs) := by
  have hmin := (bounds_eq phdrs).1
  have hpagesNat : pages.toNat =
      (2 ^ 64 + highest (loads phdrs) - lowest (loads phdrs) + 0xFFF) % 2 ^ 64 / 4096 := by
    rw [hpages, totalPages_toNat]
  have hlt : 4096 * pages.toNat < 2 ^ 64 := by
    have := Nat.mod_lt (2 ^ 64 + highest (loads phdrs) - lowest (loads phdrs) + 0xFFF)
      (by decide : 0 < 2 ^ 64)
    omega
  -- one write of `n` bytes to the place of a segment
  have hone : ∀ p ∈ loads phdrs, ∀ n : ℕ,
      (∀ a : U64, (a - dest base (bounds phdrs).minVaddr p).toNat < n →
        base.toNat ≤ a.toNat ∧ a.toNat < base.toNat + 4096 * pages.toNat) ↔
      (n = 0 ∨ p.vaddr.toNat - lowest (loads phdrs) + n ≤
        4096 *
          ((2 ^ 64 + highest (loads phdrs) - lowest (loads phdrs) + 0xFFF) % 2 ^ 64 / 4096)) := by
    intro p hp n
    have hoff : (p.vaddr - (bounds phdrs).minVaddr).toNat =
        p.vaddr.toNat - lowest (loads phdrs) := by
      rw [← hmin]
      exact BitVec.toNat_sub_of_le (BitVec.le_def.mpr (hmin ▸ lowest_le hp))
    rw [dest, range_subset_iff hfits hlt, hoff, hpagesNat]
  rw [writes_foldl_loadSegment]
  simp only [List.nil_append, List.mem_flatMap, SegmentsFit]
  constructor
  · intro h p hp n hn
    refine (hone p hp n).mp (h (dest base (bounds phdrs).minVaddr p, n) ⟨p, hp, ?_⟩)
    simpa using hn
  · rintro h w ⟨p, hp, hw⟩
    -- a write is the zeroing of a segment or the read into it
    have hw' : w.1 = dest base (bounds phdrs).minVaddr p ∧
        w.2 ∈ [p.memsz.toNat, p.readBytes file] := by
      simp only [List.mem_cons, List.not_mem_nil, or_false] at hw
      rcases hw with rfl | rfl <;> simp
    rw [hw'.1]
    exact (hone p hp w.2).mpr (h p hp w.2 hw'.2)

/-- A load that is not refused writes inside the pages exactly when the segments fit. -/
theorem writesInside_of_not_refused (mem : PhysMem)
    (hphnum : (loadEhdr fw stack).phnum.toNat ≤ 16) (h : ¬ LoadRefused fw stack) :
    ∃ r, loadKernel fw stack mem = some r ∧
      (r.WritesInside ↔ SegmentsFit fw.file (loads (loadPhdrs fw stack))) := by
  have halloc :
      efiError (fw.allocatePages (totalPages (bounds (loadPhdrs fw stack)))).1 = false := by
    simpa using fun herr => h (.inr (.inr (.inr herr)))
  exact ⟨_, loadKernel_of_not_refused hphnum h,
    writes_inside_iff (fw.fits _ halloc) rfl _ _⟩

/-- **The writes of `load_kernel`, exactly.** For every file, firmware and stack: the segments are
written inside the pages obtained, or an error is returned before they are written, if and only if
the load is refused or the segments fit. -/
theorem load_kernel_writes_inside_iff (fw : LoaderFirmware) (stack : LoaderStack) (mem : PhysMem)
    (hphnum : (loadEhdr fw stack).phnum.toNat ≤ 16) :
    ∃ r, loadKernel fw stack mem = some r ∧
      (r.WritesInside ↔
        LoadRefused fw stack ∨ SegmentsFit fw.file (loads (loadPhdrs fw stack))) := by
  by_cases href : LoadRefused fw stack
  · obtain ⟨r, hr, hregion, hstatus, hloading⟩ := loadKernel_of_refused mem hphnum href
    refine ⟨r, hr, iff_of_true ?_ (.inl href)⟩
    rw [LoadResult.WritesInside, hregion, hloading]
    exact ⟨hstatus, rfl⟩
  · obtain ⟨r, hr, hiff⟩ := writesInside_of_not_refused mem hphnum href
    exact ⟨r, hr, by rw [or_iff_right href, hiff]⟩

/-! ## The image of a well-formed file -/

/-- The addresses of a segment. -/
def Elf64Phdr.Contains (p : Elf64Phdr) (v : U64) : Prop :=
  p.vaddr.toNat ≤ v.toNat ∧ v.toNat < p.vaddr.toNat + p.memsz.toNat

/-- The byte of the image at an address of a segment: from the file, or zero behind
the file's part. -/
def Elf64Phdr.imageByte (p : Elf64Phdr) (file : List U8) (v : U64) : U8 :=
  if v.toNat < p.vaddr.toNat + p.filesz.toNat then
    file.getD (p.offset.toNat + (v.toNat - p.vaddr.toNat)) 0
  else 0

/-- A segment of a well-formed file. -/
structure SegmentOk (file : List U8) (p : Elf64Phdr) : Prop where
  filesz_le : p.filesz.toNat ≤ p.memsz.toNat
  vaddr_add_lt : p.vaddr.toNat + p.memsz.toNat < 2 ^ 63
  in_file : p.offset.toNat + p.filesz.toNat ≤ file.length

/-- **A well-formed `kernel.elf`**, and a firmware that opens it and grants its pages. The headers
lie in the file, so they are read in full. -/
structure WellFormedKernel (fw : LoaderFirmware) (stack : LoaderStack) : Prop where
  opens : efiError fw.openStatus = false
  allocates : efiError (fw.allocatePages (totalPages (bounds (loadPhdrs fw stack)))).1 = false
  ehdr_in_file : 64 ≤ fw.file.length
  magic : (loadEhdr fw stack).HasMagic
  phentsize : (loadEhdr fw stack).phentsize = 56
  phnum_pos : 1 ≤ (loadEhdr fw stack).phnum.toNat
  phnum_le : (loadEhdr fw stack).phnum.toNat ≤ 16
  phdrs_in_file : (loadEhdr fw stack).phoff.toNat +
    (loadEhdr fw stack).phnum.toNat * 56 ≤ fw.file.length
  exists_load : ∃ p ∈ loadPhdrs fw stack, p.type = ptLoad
  segments : ∀ p ∈ loads (loadPhdrs fw stack), SegmentOk fw.file p
  apart : (loads (loadPhdrs fw stack)).Pairwise fun p q => ∀ v, ¬ (p.Contains v ∧ q.Contains v)

variable {file : List U8} {base minVaddr v : U64} {p q : Elf64Phdr}

/-- What one round of the second loop does to a segment of a well-formed file. -/
theorem mem_loadSegment (s : Loading) (hp : p.type = ptLoad) (hok : SegmentOk file p) :
    (loadSegment file base minVaddr s p).mem =
      setRange s.mem (dest base minVaddr p) p.memsz.toNat fun i =>
        if i < p.filesz.toNat then file.getD (p.offset.toNat + i) 0 else 0 := by
  have hcount : p.readBytes file = p.filesz.toNat := min_eq_left (by have := hok.in_file; omega)
  rw [loadSegment_of_load hp, hcount, setRange_setRange hok.filesz_le]

/-- The offset of an address in where a segment is loaded. -/
theorem sub_dest (base minVaddr v : U64) (p : Elf64Phdr) :
    base + (v - minVaddr) - dest base minVaddr p = v - p.vaddr := by
  rw [dest]
  bv_omega

/-- A segment loaded, read at one of its own addresses. -/
theorem mem_loadSegment_of_contains (s : Loading) (hp : p.type = ptLoad) (hok : SegmentOk file p)
    (hv : p.Contains v) :
    (loadSegment file base minVaddr s p).mem (base + (v - minVaddr)) = p.imageByte file v := by
  have hsub : (v - p.vaddr).toNat = v.toNat - p.vaddr.toNat :=
    BitVec.toNat_sub_of_le (BitVec.le_def.mpr hv.1)
  have hlt : (base + (v - minVaddr) - dest base minVaddr p).toNat < p.memsz.toNat := by
    have := hv.1
    have := hv.2
    rw [sub_dest, hsub]
    omega
  rw [mem_loadSegment s hp hok, setRange_of_lt hlt, sub_dest, hsub, Elf64Phdr.imageByte]
  have := hv.1
  exact if_congr (by omega) rfl rfl

/-- A segment loaded, read at an address of another. -/
theorem mem_loadSegment_of_not_contains (s : Loading) (hok : SegmentOk file p)
    (hv63 : v.toNat < 2 ^ 63) (hv : ¬ p.Contains v) :
    (loadSegment file base minVaddr s p).mem (base + (v - minVaddr)) =
      s.mem (base + (v - minVaddr)) := by
  by_cases hp : p.type = ptLoad
  · have hnot : ¬ (base + (v - minVaddr) - dest base minVaddr p).toNat < p.memsz.toNat := by
      rw [sub_dest]
      intro hlt
      have hmem := hok.vaddr_add_lt
      refine hv ?_
      rw [Elf64Phdr.Contains]
      bv_omega
    rw [mem_loadSegment s hp hok, setRange_of_not_lt hnot]
  · rw [loadSegment_of_ne hp]

/-- The address is left alone by the segments that do not contain it. -/
theorem mem_foldl_of_not_contains (s : Loading) (hv63 : v.toNat < 2 ^ 63)
    (hok : ∀ q ∈ loads phdrs, SegmentOk file q) (hv : ∀ q ∈ loads phdrs, ¬ q.Contains v) :
    (phdrs.foldl (loadSegment file base minVaddr) s).mem (base + (v - minVaddr)) =
      s.mem (base + (v - minVaddr)) := by
  induction phdrs generalizing s with
  | nil => rfl
  | cons q phdrs ih =>
    have htail : ∀ q' ∈ loads phdrs, q' ∈ loads (q :: phdrs) := fun q' h =>
      mem_loads.mpr ⟨List.mem_cons_of_mem q (mem_loads.mp h).1, (mem_loads.mp h).2⟩
    rw [List.foldl_cons, ih _ (fun q' h => hok q' (htail q' h)) fun q' h => hv q' (htail q' h)]
    by_cases hq : q.type = ptLoad
    · have hmem : q ∈ loads (q :: phdrs) := mem_loads.mpr ⟨List.mem_cons_self .., hq⟩
      exact mem_loadSegment_of_not_contains s (hok q hmem) hv63 (hv q hmem)
    · rw [loadSegment_of_ne hq]

/-- **The second loop builds the image**: disjoint segments, in any order, each keep their bytes. -/
theorem mem_foldl_of_contains (s : Loading) (hok : ∀ q ∈ loads phdrs, SegmentOk file q)
    (hapart : (loads phdrs).Pairwise fun p q => ∀ v, ¬ (p.Contains v ∧ q.Contains v))
    (hp : p ∈ loads phdrs) (hv : p.Contains v) :
    (phdrs.foldl (loadSegment file base minVaddr) s).mem (base + (v - minVaddr)) =
      p.imageByte file v := by
  have hv63 : v.toNat < 2 ^ 63 := by
    have := (hok p hp).vaddr_add_lt
    have := hv.2
    omega
  induction phdrs generalizing s with
  | nil => cases hp
  | cons q phdrs ih =>
    rw [List.foldl_cons]
    by_cases hq : q.type = ptLoad
    · rw [loads_cons_of_load hq] at hok hapart hp
      obtain ⟨hfirst, hrest⟩ := List.pairwise_cons.mp hapart
      rcases List.mem_cons.mp hp with rfl | hp
      · -- written now, and not again by the rounds to come
        rw [mem_foldl_of_not_contains _ hv63 (fun r hr => hok r (List.mem_cons_of_mem _ hr))
            fun r hr hvr => hfirst r hr v ⟨hv, hvr⟩,
          mem_loadSegment_of_contains s hq (hok p (List.mem_cons_self ..)) hv]
      · exact ih _ (fun r hr => hok r (List.mem_cons_of_mem _ hr)) hrest hp
    · rw [loads_cons_of_ne hq] at hok hapart hp
      exact ih _ hok hapart hp

/-- Memory changes only where the second loop writes. -/
theorem mem_foldl_of_not_written (s : Loading) {a : U64}
    (h : ∀ p ∈ loads phdrs, ∀ n ∈ [p.memsz.toNat, p.readBytes file],
      ¬ (a - dest base minVaddr p).toNat < n) :
    (phdrs.foldl (loadSegment file base minVaddr) s).mem a = s.mem a := by
  induction phdrs generalizing s with
  | nil => rfl
  | cons p phdrs ih =>
    have htail : ∀ q ∈ loads phdrs, q ∈ loads (p :: phdrs) := fun q h =>
      mem_loads.mpr ⟨List.mem_cons_of_mem p (mem_loads.mp h).1, (mem_loads.mp h).2⟩
    rw [List.foldl_cons, ih _ fun q hq => h q (htail q hq)]
    by_cases hp : p.type = ptLoad
    · have hpn := h p (mem_loads.mpr ⟨List.mem_cons_self .., hp⟩)
      rw [loadSegment_of_load hp]
      dsimp only
      rw [setRange_of_not_lt (hpn (p.readBytes file) (by simp)),
        setRange_of_not_lt (hpn p.memsz.toNat (by simp))]
    · rw [loadSegment_of_ne hp]

/-- The segments of a well-formed file fit. -/
theorem segmentsFit_of_segmentOk {segs : List Elf64Phdr} (hok : ∀ p ∈ segs, SegmentOk file p) :
    SegmentsFit file segs := by
  -- no sum wraps around, so that the span is that of the segments
  have hhigh : highest segs < 2 ^ 63 := by
    induction segs with
    | nil => decide
    | cons q segs ih =>
      have hq := (hok q (List.mem_cons_self ..)).vaddr_add_lt
      have hsum : (q.vaddr + q.memsz).toNat < 2 ^ 63 := by
        rw [BitVec.toNat_add, Nat.mod_eq_of_lt (by omega)]
        exact hq
      exact max_lt hsum (ih fun p hp => hok p (List.mem_cons_of_mem q hp))
  intro p hp n hn
  have hlt := (hok p hp).vaddr_add_lt
  have hlow := lowest_le hp
  have hle := le_highest hp
  rw [BitVec.toNat_add, Nat.mod_eq_of_lt (by omega)] at hle
  -- what is read is no more than the file size, which is at most the memory size
  have hn' : n ≤ p.memsz.toNat := by
    rcases List.mem_cons.mp hn with rfl | hn
    · exact le_rfl
    · rw [List.mem_singleton.mp hn]
      exact (min_le_left _ _).trans (hok p hp).filesz_le
  right
  omega

/-- **The image of `kernel.elf`.** For every well-formed file: the load succeeds, every byte of
every segment is the one the file gives for it, everything written lies in the pages obtained, and
the entry point moves with the image. -/
theorem load_kernel_image (fw : LoaderFirmware) (stack : LoaderStack) (mem : PhysMem)
    (h : WellFormedKernel fw stack) :
    ∃ r base pages minVaddr, loadKernel fw stack mem = some r ∧ r.status = efiSuccess ∧
      r.region = some (base, pages) ∧
      (∃ p ∈ loads (loadPhdrs fw stack), p.vaddr = minVaddr) ∧
      (∀ p ∈ loads (loadPhdrs fw stack), minVaddr.toNat ≤ p.vaddr.toNat) ∧
      (∀ p ∈ loads (loadPhdrs fw stack), ∀ v, p.Contains v →
        r.loading.mem (base + (v - minVaddr)) = p.imageByte fw.file v) ∧
      r.WritesInside ∧
      (∀ a : U64, ¬ (base.toNat ≤ a.toNat ∧ a.toNat < base.toNat + 4096 * pages.toNat) →
        r.loading.mem a = mem a) ∧
      r.entryOut = some (base + ((loadEhdr fw stack).entry - minVaddr)) := by
  have hmin := (bounds_eq (loadPhdrs fw stack)).1
  have hne : loads (loadPhdrs fw stack) ≠ [] := by
    obtain ⟨p, hp, htype⟩ := h.exists_load
    exact List.ne_nil_of_mem (mem_loads.mpr ⟨hp, htype⟩)
  have hnot := not_loadRefused h.opens h.magic hne h.allocates
  have hinside := (writes_inside_iff (fw.fits _ h.allocates) rfl fw.file mem).mpr
    (segmentsFit_of_segmentOk h.segments)
  refine ⟨_, _, _, (bounds (loadPhdrs fw stack)).minVaddr,
    loadKernel_of_not_refused h.phnum_le hnot,
    rfl, rfl, ?_, ?_, ?_, hinside, ?_, rfl⟩
  · obtain ⟨p, hp, hvaddr⟩ := exists_vaddr_eq_lowest hne
    exact ⟨p, hp, BitVec.eq_of_toNat_eq (hvaddr.trans hmin.symm)⟩
  · intro p hp
    rw [hmin]
    exact lowest_le hp
  · intro p hp v hv
    exact mem_foldl_of_contains _ h.segments h.apart hp hv
  · -- a byte outside the pages is in no write, as every write lies inside
    intro a ha
    refine mem_foldl_of_not_written _ fun p hp n hn hlt => ha (hinside (dest _ _ p, n) ?_ a hlt)
    rw [writes_foldl_loadSegment]
    refine List.mem_append_right _ (List.mem_flatMap.mpr ⟨p, hp, ?_⟩)
    simpa using hn

/-! ## Two files -/

/-- A number in `n` bytes, lowest first. -/
def leBytes (n x : ℕ) : List U8 := (List.range n).map fun k => BitVec.ofNat 8 (x / 256 ^ k)

/-- The program header of a `PT_LOAD` segment. -/
def samplePhdr (vaddr offset filesz memsz : ℕ) : List U8 :=
  leBytes 4 1 ++ leBytes 4 0 ++ leBytes 8 offset ++ leBytes 8 vaddr ++ leBytes 8 0 ++
    leBytes 8 filesz ++ leBytes 8 memsz ++ leBytes 8 0x1000

/-- An ELF file with these program headers behind its own header. -/
def sampleFile (phdrs : List (List U8)) (body : List U8) : List U8 :=
  [0x7f, 0x45, 0x4c, 0x46] ++ List.replicate 20 0 ++ leBytes 8 0x100000 ++ leBytes 8 64 ++
    leBytes 14 0 ++ leBytes 2 56 ++ leBytes 2 phdrs.length ++ leBytes 6 0 ++ phdrs.flatten ++ body

/-- An ELF file with one `PT_LOAD` segment for the address 0x100000, whose bytes
start at `offset`. -/
def sampleElf (offset filesz memsz : ℕ) (body : List U8) : List U8 :=
  sampleFile [samplePhdr 0x100000 offset filesz memsz] body

/-- A firmware that grants up to 16 pages at 0x200000. -/
def sampleFirmware (file : List U8) (h : file.length < 2 ^ 64) : LoaderFirmware where
  openStatus := efiSuccess
  file := file
  length_lt := h
  allocatePages := fun n => if n.toNat ≤ 16 then (efiSuccess, 0x200000) else (efiLoadError, 0)
  aligned := by
    intro n
    split
    · intro
      decide
    · intro
      decide
  fits := by
    intro n hn
    have hle : n.toNat ≤ 16 := by
      by_contra hgt
      rw [if_neg hgt] at hn
      revert hn
      decide
    have hbase : (0x200000 : U64).toNat = 0x200000 := rfl
    rw [if_pos hle, hbase]
    omega

/-- An empty stack. -/
def zeroStack : LoaderStack where
  ehdr := fun _ => 0
  phdrs := fun _ => 0

/-- The segment of such a program header. -/
def sampleSegmentAt (vaddr offset filesz memsz : U64) : Elf64Phdr where
  type := ptLoad
  flags := 0
  offset := offset
  vaddr := vaddr
  paddr := 0
  filesz := filesz
  memsz := memsz
  align := 0x1000

/-- The only segment of the sample file. -/
def sampleSegment (offset filesz memsz : U64) : Elf64Phdr :=
  sampleSegmentAt 0x100000 offset filesz memsz

/-- A file whose segment has four bytes of its own and four zeros. -/
def sampleKernel : LoaderFirmware :=
  sampleFirmware (sampleElf 120 4 8 [1, 2, 3, 4]) (by decide +kernel)

theorem wellFormed_sampleKernel : WellFormedKernel sampleKernel zeroStack := by
  have hsegs : loads (loadPhdrs sampleKernel zeroStack) = [sampleSegment 120 4 8] := by
    decide +kernel
  refine ⟨rfl, by decide +kernel, by decide +kernel, by decide +kernel, by decide +kernel,
    by decide +kernel, by decide +kernel, by decide +kernel, by decide +kernel, ?_, ?_⟩
  · rw [hsegs]
    intro p hp
    rw [List.mem_singleton.mp hp]
    exact ⟨by decide, by decide, by decide +kernel⟩
  · rw [hsegs]
    exact List.pairwise_singleton _ _

/-- A file with two segments: four bytes and four zeros, and on the next page two bytes. -/
def twoSegments : LoaderFirmware :=
  sampleFirmware (sampleFile [samplePhdr 0x100000 176 4 8, samplePhdr 0x101000 180 2 2]
    [1, 2, 3, 4, 5, 6]) (by decide +kernel)

theorem loads_twoSegments : loads (loadPhdrs twoSegments zeroStack) =
    [sampleSegmentAt 0x100000 176 4 8, sampleSegmentAt 0x101000 180 2 2] := by decide +kernel

theorem wellFormed_twoSegments : WellFormedKernel twoSegments zeroStack := by
  refine ⟨rfl, by decide +kernel, by decide +kernel, by decide +kernel, by decide +kernel,
    by decide +kernel, by decide +kernel, by decide +kernel, by decide +kernel, ?_, ?_⟩
  · rw [loads_twoSegments]
    intro p hp
    rcases (List.mem_cons.trans (or_congr_right List.mem_singleton)).mp hp with rfl | rfl
    exacts [⟨by decide, by decide, by decide +kernel⟩, ⟨by decide, by decide, by decide +kernel⟩]
  · rw [loads_twoSegments, List.pairwise_pair]
    rintro v ⟨hp, hq⟩
    have hend : v.toNat < 0x100000 + 8 := hp.2
    have hstart : 0x101000 ≤ v.toNat := hq.1
    omega

/-- The bytes of the two segments, from the start of the image. -/
theorem load_kernel_image_sample :
    ∃ r base pages, loadKernel twoSegments zeroStack (fun _ => 0xFF) = some r ∧
      r.status = efiSuccess ∧ r.region = some (base, pages) ∧ r.WritesInside ∧
      r.loading.mem (base + 3) = 4 ∧ r.loading.mem (base + 7) = 0 ∧
      r.loading.mem (base + 0x1001) = 6 := by
  obtain ⟨r, base, pages, minVaddr, hr, hstatus, hregion, hfirst, hlowest, hbytes, hinside, -⟩ :=
    load_kernel_image twoSegments zeroStack (fun _ => 0xFF) wellFormed_twoSegments
  rw [loads_twoSegments] at hfirst hlowest hbytes
  have hmin : minVaddr = 0x100000 := by
    have hle : minVaddr.toNat ≤ 0x100000 := hlowest _ (List.mem_cons_self ..)
    obtain ⟨p, hp, hv⟩ := hfirst
    rcases (List.mem_cons.trans (or_congr_right List.mem_singleton)).mp hp with rfl | rfl
    · exact hv.symm
    · rw [← hv] at hle
      exact absurd hle (by decide)
  subst hmin
  have hone := hbytes _ List.mem_cons_self
  have htwo := hbytes _ (List.mem_cons_of_mem _ List.mem_cons_self)
  refine ⟨r, base, pages, hr, hstatus, hregion, hinside, ?_, ?_, ?_⟩
  · exact (hone 0x100003 ⟨by decide, by decide⟩).trans (by decide +kernel)
  · exact (hone 0x100007 ⟨by decide, by decide⟩).trans (by decide +kernel)
  · exact (htwo 0x101001 ⟨by decide, by decide⟩).trans (by decide +kernel)

/-- The segment of the sample file fits, so it is written inside the pages. -/
theorem load_kernel_writes_inside_sample :
    ∃ r, loadKernel sampleKernel zeroStack (fun _ => 0xFF) = some r ∧ r.WritesInside := by
  obtain ⟨r, hr, hiff⟩ := load_kernel_writes_inside_iff sampleKernel zeroStack
    (fun _ => 0xFF) wellFormed_sampleKernel.phnum_le
  exact ⟨r, hr, hiff.mpr (.inr (segmentsFit_of_segmentOk wellFormed_sampleKernel.segments))⟩

/-- A file whose segment is one byte in memory, one page, and 4097 bytes in the file. -/
def overrunKernel : LoaderFirmware :=
  sampleFirmware (sampleElf 0 4097 1 (List.replicate 4096 0)) (by decide +kernel)

/-- **A file size above the memory size** makes the loader write behind the page it obtained. -/
theorem load_kernel_overruns :
    (loadEhdr overrunKernel zeroStack).phnum.toNat ≤ 16 ∧
      ∃ r, loadKernel overrunKernel zeroStack (fun _ => 0) = some r ∧ ¬ r.WritesInside := by
  have hphnum : (loadEhdr overrunKernel zeroStack).phnum.toNat ≤ 16 := by decide +kernel
  have hsegs : loads (loadPhdrs overrunKernel zeroStack) = [sampleSegment 0 4097 1] := by
    decide +kernel
  have halloc : efiError (overrunKernel.allocatePages
      (totalPages (bounds (loadPhdrs overrunKernel zeroStack)))).1 = false := by
    decide +kernel
  have hnot : ¬ LoadRefused overrunKernel zeroStack :=
    not_loadRefused rfl (by decide +kernel) (by rw [hsegs]; exact List.cons_ne_nil _ _) halloc
  obtain ⟨r, hr, hiff⟩ := writesInside_of_not_refused (fun _ => 0) hphnum hnot
  refine ⟨hphnum, r, hr, ?_⟩
  intro hinside
  have hfit := hiff.mp hinside
  rw [hsegs] at hfit
  have hread : (sampleSegment 0 4097 1).readBytes overrunKernel.file = 4097 := by decide +kernel
  have hend := hfit _ (List.mem_singleton_self _) 4097 (by rw [hread]; simp)
  revert hend
  decide +kernel

end OS44
