import OS44.Boot.LoadKernel

/-! # What the loader reads (`load_kernel`)

The file is now any file the firmware opens (`EfiFile`): a `Read` may transfer less than it is asked
for, or fail, and `SetPosition` may fail. An access behind `phdrs` is not followed (`none`). With a
file that always reads what it has, this is `loadKernel` (`loadKernelFrom_fileAt`).

* `load_kernel` looks at no status and no size, and so it reports success for a kernel that the
  firmware did not serve in full, whenever it comes to its end (`load_kernel_reads_iff`).
* It keeps to the 16 entries of `phdrs` exactly for files of at most 16 program headers
  (`load_kernel_phdrs_iff`). -/

namespace OS44

open ByteRange

/-! ## Files of the firmware -/

/-- What a `Read` comes back with: its status and the bytes it transferred. -/
structure ReadOutcome where
  status : U64
  bytes : List U8

/-- `EFI_FILE_PROTOCOL`: each call answers and may change the file. A `Read` transfers at most what
it is asked for. -/
class EfiFile (F : Type) where
  read : F → ℕ → ReadOutcome × F
  setPosition : F → U64 → U64 × F
  length_read_le : ∀ f size, (read f size).1.bytes.length ≤ size

/-- Put bytes to memory, from an address on. -/
def storeBytes (m : PhysMem) (dest : U64) (bytes : List U8) : PhysMem :=
  setRange m dest bytes.length fun i => bytes.getD i 0

/-! ## The array of program headers -/

/-- `sizeof(phdrs)`, 16 entries. -/
def sizeofPhdrs : ℕ := 16 * 56

/-- `phdrs` after a `Read`, unless it went behind the end. -/
def storePhdrs (phdrs : PhysMem) (bytes : List U8) : Option PhysMem :=
  if bytes.length ≤ sizeofPhdrs then some (storeBytes phdrs 0 bytes) else none

/-- `phdrs[i]`, unless that is behind the end. -/
def phdrAt (phdrs : PhysMem) (i : ℕ) : Option Elf64Phdr :=
  if i < 16 then some (readPhdr phdrs i) else none

/-- A loop over `phdrs[0..phnum)`. -/
def overPhdrs {β : Type} (step : β → Elf64Phdr → β) (phdrs : PhysMem) (phnum : ℕ) (b : β) :
    Option β :=
  (List.range phnum).foldlM (fun b i => (phdrAt phdrs i).map (step b)) b

section Loader

variable {F : Type} [EfiFile F]

open EfiFile

/-- One round of the second loop. -/
def loadSegmentFrom (base minVaddr : U64) (s : Loading × F) (p : Elf64Phdr) : Loading × F :=
  if p.type ≠ ptLoad then s
  else
    let dest := base + (p.vaddr - minVaddr)
    let mem := memsetLocal s.1.mem dest 0 p.memsz.toNat
    -- neither the statuses nor the size that comes back are looked at
    let f := (setPosition s.2 p.offset).2
    let (r, f) := read f p.filesz.toNat
    ({ mem := storeBytes mem dest r.bytes
       writes := s.1.writes ++ [(dest, p.memsz.toNat), (dest, r.bytes.length)] }, f)

/-- `ehdr` after the first `Read`. -/
def ehdrFrom (stack : LoaderStack) (f : F) : Elf64Ehdr :=
  readEhdr (storeBytes stack.ehdr 0 (read f 64).1.bytes)

/-- The second `Read`. -/
def readTable (stack : LoaderStack) (f : F) : ReadOutcome × F :=
  let ehdr := ehdrFrom stack f
  let f := (setPosition (read f 64).2 ehdr.phoff).2
  read f (ehdr.phnum.toNat * 56)

/-- `load_kernel`, with the status of `Open`, the file opened and the answers of `AllocatePages`. -/
def loadKernelFrom (openStatus : U64) (allocatePages : U64 → U64 × U64) (stack : LoaderStack)
    (mem : PhysMem) (f : F) : Option (LoadResult × F) :=
  let s : Loading := { mem := mem, writes := [] }
  let fail (status : U64) : LoadResult :=
    { status := status, entryOut := none, region := none, loading := s }
  if efiError openStatus then some (fail openStatus, f)
  else
    let ehdr := ehdrFrom stack f
    if ¬ ehdr.HasMagic then some (fail efiLoadError, (read f 64).2)
    else do
      let (table, f) := readTable stack f
      -- the size asked for is that of all the headers, not that of the array
      let phdrs ← storePhdrs stack.phdrs table.bytes
      let b ← overPhdrs boundsStep phdrs ehdr.phnum.toNat
        { minVaddr := -1, maxVaddr := 0, loadCount := 0 }
      if b.loadCount = 0 then some (fail efiLoadError, f)
      else
        let (status, base) := allocatePages (totalPages b)
        if efiError status then some (fail status, f)
        else do
          let (loading, f) ← overPhdrs (loadSegmentFrom base b.minVaddr) phdrs ehdr.phnum.toNat
            (s, f)
          some ({ status := efiSuccess
                  entryOut := some (base + (ehdr.entry - b.minVaddr))
                  region := some (base, totalPages b)
                  loading := loading }, f)

end Loader

/-! ## The loops -/

theorem foldlM_phdrAt {β : Type} (step : β → Elf64Phdr → β) (phdrs : PhysMem) {is : List ℕ}
    (h : ∀ i ∈ is, i < 16) (b : β) :
    is.foldlM (fun b i => (phdrAt phdrs i).map (step b)) b =
      some ((is.map (readPhdr phdrs)).foldl step b) := by
  induction is generalizing b with
  | nil => rfl
  | cons i is ih =>
    rw [List.forall_mem_cons] at h
    rw [List.foldlM_cons, phdrAt, if_pos h.1]
    exact ih h.2 _

theorem foldlM_phdrAt_eq_none {β : Type} (step : β → Elf64Phdr → β) (phdrs : PhysMem) {is : List ℕ}
    (h : 16 ∈ is) (b : β) : is.foldlM (fun b i => (phdrAt phdrs i).map (step b)) b = none := by
  induction is generalizing b with
  | nil => exact absurd h List.not_mem_nil
  | cons i is ih =>
    rw [List.foldlM_cons, phdrAt]
    split_ifs with hi
    · refine ih ?_ _
      refine (List.mem_cons.mp h).resolve_left ?_
      rintro rfl
      exact absurd hi (lt_irrefl 16)
    · rfl

/-- A loop over at most 16 entries. -/
theorem overPhdrs_of_le {β : Type} (step : β → Elf64Phdr → β) (phdrs : PhysMem) {phnum : ℕ}
    (h : phnum ≤ 16) (b : β) :
    overPhdrs step phdrs phnum b = some (((List.range phnum).map (readPhdr phdrs)).foldl step b) :=
  foldlM_phdrAt step phdrs (fun _ hi => (List.mem_range.mp hi).trans_le h) b

/-- A loop over more comes to the entry behind the end. -/
theorem overPhdrs_of_lt {β : Type} (step : β → Elf64Phdr → β) (phdrs : PhysMem) {phnum : ℕ}
    (h : 16 < phnum) (b : β) : overPhdrs step phdrs phnum b = none :=
  foldlM_phdrAt_eq_none step phdrs (List.mem_range.mpr h) b

/-! ## How a load ends -/

section Ends

variable {F : Type} [EfiFile F] {openStatus : U64} {allocatePages : U64 → U64 × U64}
  {stack : LoaderStack} {mem : PhysMem} {f : F}

open EfiFile

/-- `phdrs[0..e_phnum)` after the second `Read`. -/
def phdrsFrom (stack : LoaderStack) (f : F) : List Elf64Phdr :=
  (List.range (ehdrFrom stack f).phnum.toNat).map
    (readPhdr (storeBytes stack.phdrs 0 (readTable stack f).1.bytes))

/-- An error is returned and nothing was written. -/
def LoadResult.refused (status : U64) (mem : PhysMem) : LoadResult where
  status := status
  entryOut := none
  region := none
  loading := { mem := mem, writes := [] }

/-- **The load comes to its end**: the file opens, what was read of it has the magic number, at most
16 program headers and a segment, and there are pages for it. -/
structure LoadReachesEnd (openStatus : U64) (allocatePages : U64 → U64 × U64)
    (stack : LoaderStack) (f : F) : Prop where
  opens : efiError openStatus = false
  magic : (ehdrFrom stack f).HasMagic
  phnum_le : (ehdrFrom stack f).phnum.toNat ≤ 16
  loads_ne : loads (phdrsFrom stack f) ≠ []
  allocates : efiError (allocatePages (totalPages (bounds (phdrsFrom stack f)))).1 = false

/-- The second loop. -/
def loadSegments (allocatePages : U64 → U64 × U64) (stack : LoaderStack) (mem : PhysMem) (f : F) :
    Loading × F :=
  let b := bounds (phdrsFrom stack f)
  (phdrsFrom stack f).foldl (loadSegmentFrom (allocatePages (totalPages b)).2 b.minVaddr)
    ({ mem := mem, writes := [] }, (readTable stack f).2)

/-- With the magic number, more than 16 headers overrun `phdrs`. -/
theorem loadKernelFrom_of_lt (hopen : efiError openStatus = false)
    (hmagic : (ehdrFrom stack f).HasMagic) (hphnum : 16 < (ehdrFrom stack f).phnum.toNat) :
    loadKernelFrom openStatus allocatePages stack mem f = none := by
  unfold loadKernelFrom
  simp only [hopen, Bool.false_eq_true, if_false, if_neg (not_not.mpr hmagic)]
  rw [storePhdrs]
  -- a short `Read` may stay in the array; then the first loop leaves it
  split_ifs
  · simp only [Option.bind_eq_bind, Option.bind_some, overPhdrs_of_lt _ _ hphnum]
    rfl
  · rfl

/-- At most 16 headers are stored in `phdrs` and gone through. -/
theorem loadKernelFrom_of_le (hopen : efiError openStatus = false)
    (hmagic : (ehdrFrom stack f).HasMagic) (hphnum : (ehdrFrom stack f).phnum.toNat ≤ 16) :
    loadKernelFrom openStatus allocatePages stack mem f =
      let b := bounds (phdrsFrom stack f)
      if b.loadCount = 0 then some (.refused efiLoadError mem, (readTable stack f).2)
      else if efiError (allocatePages (totalPages b)).1 then
        some (.refused (allocatePages (totalPages b)).1 mem, (readTable stack f).2)
      else
        some ({ status := efiSuccess
                entryOut :=
                  some ((allocatePages (totalPages b)).2 + ((ehdrFrom stack f).entry - b.minVaddr))
                region := some ((allocatePages (totalPages b)).2, totalPages b)
                loading := (loadSegments allocatePages stack mem f).1 },
          (loadSegments allocatePages stack mem f).2) := by
  have hlength : (readTable stack f).1.bytes.length ≤ sizeofPhdrs :=
    (length_read_le _ _).trans (Nat.mul_le_mul_right 56 hphnum)
  unfold loadKernelFrom
  simp only [hopen, Bool.false_eq_true, if_false, if_neg (not_not.mpr hmagic), storePhdrs,
    if_pos hlength, Option.bind_eq_bind, Option.bind_some, overPhdrs_of_le _ _ hphnum]
  rfl

theorem loadKernelFrom_of_reachesEnd (mem : PhysMem)
    (h : LoadReachesEnd openStatus allocatePages stack f) :
    ∃ r, loadKernelFrom openStatus allocatePages stack mem f =
      some (r, (loadSegments allocatePages stack mem f).2) ∧ r.status = efiSuccess := by
  have hcount : ¬ (bounds (phdrsFrom stack f)).loadCount = 0 :=
    mt (bounds_eq (phdrsFrom stack f)).2.2.mp h.loads_ne
  rw [loadKernelFrom_of_le h.opens h.magic h.phnum_le]
  dsimp only
  rw [if_neg hcount, if_neg (Bool.eq_false_iff.mp h.allocates)]
  exact ⟨_, rfl, rfl⟩

/-- A load that does not come to its end reports no success. -/
theorem status_ne_of_not_reachesEnd (h : ¬ LoadReachesEnd openStatus allocatePages stack f)
    {r : LoadResult} {g : F}
    (hr : loadKernelFrom openStatus allocatePages stack mem f = some (r, g)) :
    r.status ≠ efiSuccess := by
  have hne : ∀ status, efiError status = true → status ≠ efiSuccess := by
    rintro status hstatus rfl
    exact absurd hstatus (by decide)
  by_cases hopen : efiError openStatus = true
  · rw [loadKernelFrom, if_pos hopen] at hr
    obtain ⟨rfl, -⟩ := Prod.mk.inj (Option.some.inj hr)
    exact hne _ hopen
  have hopen' := Bool.eq_false_iff.mpr hopen
  by_cases hmagic : (ehdrFrom stack f).HasMagic
  · -- with more headers, nothing is returned at all
    have hphnum : (ehdrFrom stack f).phnum.toNat ≤ 16 := by
      by_contra hlt
      rw [loadKernelFrom_of_lt hopen' hmagic (not_le.mp hlt)] at hr
      cases hr
    rw [loadKernelFrom_of_le hopen' hmagic hphnum] at hr
    dsimp only at hr
    split_ifs at hr with hcount halloc
    · obtain ⟨rfl, -⟩ := Prod.mk.inj (Option.some.inj hr)
      exact hne efiLoadError (by decide)
    · obtain ⟨rfl, -⟩ := Prod.mk.inj (Option.some.inj hr)
      exact hne _ halloc
    · exact absurd ⟨hopen', hmagic, hphnum, mt (bounds_eq _).2.2.mpr hcount,
        Bool.eq_false_iff.mpr halloc⟩ h
  · rw [loadKernelFrom, if_neg hopen] at hr
    dsimp only at hr
    rw [if_pos hmagic] at hr
    obtain ⟨rfl, -⟩ := Prod.mk.inj (Option.some.inj hr)
    exact hne efiLoadError (by decide)

end Ends

/-! ## What a load reads -/

/-- What the firmware makes of a call: it does what it is asked for as far as the file goes, it lets
a `Read` transfer `limit` bytes at most, or it fails, transferring nothing and leaving the position
where it is. -/
inductive Answer
  | full
  | short (limit : ℕ)
  | error (status : U64)
  deriving DecidableEq, Repr

/-- `kernel.elf` in the hands of a firmware that answers its calls in turn with `answers`. -/
structure FirmwareFile where
  contents : List U8
  answers : ℕ → Answer
  pos : ℕ
  /-- The number of calls so far. -/
  called : ℕ
  /-- Ghost: for each `Read` the position it was made at and the number of bytes transferred. -/
  transfers : List (ℕ × ℕ)

/-- The bytes that a `Read` of `size` bytes transfers. -/
def FirmwareFile.transferred (f : FirmwareFile) (size : ℕ) : List U8 :=
  match f.answers f.called with
  | .full => (f.contents.drop f.pos).take size
  | .short limit => (f.contents.drop f.pos).take (min limit size)
  | .error _ => []

/-- The status of the next call. -/
def FirmwareFile.status (f : FirmwareFile) : U64 :=
  match f.answers f.called with
  | .error status => status
  | _ => efiSuccess

/-- Where `SetPosition` leaves the file. -/
def FirmwareFile.moved (f : FirmwareFile) (position : U64) : ℕ :=
  match f.answers f.called with
  | .error _ => f.pos
  | _ => position.toNat

theorem FirmwareFile.length_transferred_le (f : FirmwareFile) (size : ℕ) :
    (f.transferred size).length ≤ size := by
  unfold transferred
  split
  · exact List.length_take_le _ _
  · exact (List.length_take_le _ _).trans (min_le_right _ _)
  · exact Nat.zero_le _

instance : EfiFile FirmwareFile where
  read f size :=
    (⟨f.status, f.transferred size⟩,
      { f with
        pos := f.pos + (f.transferred size).length
        called := f.called + 1
        transfers := f.transfers ++ [(f.pos, (f.transferred size).length)] })
  setPosition f position := (f.status, { f with pos := f.moved position, called := f.called + 1 })
  length_read_le := FirmwareFile.length_transferred_le

/-- `kernel.elf`, just opened. -/
def openedKernel (contents : List U8) (answers : ℕ → Answer) : FirmwareFile :=
  ⟨contents, answers, 0, 0, []⟩

/-- The parts of the file that a kernel is made of, each with its position and its size: the ELF
header, the `e_phnum` program headers, and `p_filesz` bytes for each `PT_LOAD` segment. -/
def kernelParts {F : Type} [EfiFile F] (stack : LoaderStack) (f : F) : List (U64 × ℕ) :=
  (0, 64) :: ((ehdrFrom stack f).phoff, (ehdrFrom stack f).phnum.toNat * 56) ::
    (loads (phdrsFrom stack f)).map fun p => (p.offset, p.filesz.toNat)

/-- The bytes of a part were transferred, if it has any. -/
def WasRead (part : U64 × ℕ) (transfer : ℕ × ℕ) : Prop :=
  part.2 = 0 ∨ transfer = (part.1.toNat, part.2)

/-- **Success means a whole kernel**: when `EFI_SUCCESS` is returned, the `Read` calls have
transferred the parts of the kernel, all of their bytes, in this order. -/
def SuccessMeansRead (openStatus : U64) (allocatePages : U64 → U64 × U64) (stack : LoaderStack)
    (mem : PhysMem) (f : FirmwareFile) : Prop :=
  ∀ r g, loadKernelFrom openStatus allocatePages stack mem f = some (r, g) →
    r.status = efiSuccess → List.Forall₂ WasRead (kernelParts stack f) g.transfers

/-- The answer does not keep a `Read` of `size` bytes from transferring them. -/
def Answer.Allows (size : ℕ) : Answer → Prop
  | .full => True
  | .short limit => size ≤ limit
  | .error _ => False

/-- **The firmware serves the parts**, from the `k`-th call and the position `pos` on: a part that
has bytes lies inside the file, its `Read` is neither failed nor cut short of them, and its
`SetPosition` is not failed, unless the file is in position anyway. -/
def Serves (contents : List U8) (answers : ℕ → Answer) : ℕ → ℕ → List (U64 × ℕ) → Prop
  | _, _, [] => True
  | k, pos, (target, size) :: parts =>
    let start := match answers k with
      | .error _ => pos
      | _ => target.toNat
    (size ≠ 0 → start = target.toNat ∧ (answers (k + 1)).Allows size ∧
      target.toNat + size ≤ contents.length) ∧
    Serves contents answers (k + 2) (start + size) parts

section FirmwareFile

open EfiFile

/-- `SetPosition` to a part and the `Read` of it. -/
def seekAndRead (f : FirmwareFile) (part : U64 × ℕ) : FirmwareFile :=
  (read (setPosition f part.1).2 part.2).2

variable {openStatus : U64} {allocatePages : U64 → U64 × U64} {stack : LoaderStack} {mem : PhysMem}
  {base minVaddr : U64} {f : FirmwareFile} {size : ℕ}

/-- A `Read` transfers all its bytes exactly if its answer allows it and the file has them. -/
theorem FirmwareFile.length_transferred_iff (hsize : size ≠ 0) :
    (f.transferred size).length = size ↔
      (f.answers f.called).Allows size ∧ f.pos + size ≤ f.contents.length := by
  unfold transferred
  cases f.answers f.called with
  | full =>
    rw [List.length_take, List.length_drop]
    simp only [Answer.Allows, true_and]
    omega
  | short limit =>
    rw [List.length_take, List.length_drop]
    simp only [Answer.Allows]
    omega
  | error status =>
    simp only [Answer.Allows, List.length_nil, false_and, iff_false]
    omega

/-- One round of the second loop leaves the file as `SetPosition` and `Read` do. -/
theorem loadSegmentFrom_file (base minVaddr : U64) {p : Elf64Phdr} (hp : p.type = ptLoad)
    (s : Loading) (f : FirmwareFile) :
    (loadSegmentFrom base minVaddr (s, f) p).2 = seekAndRead f (p.offset, p.filesz.toNat) := by
  rw [loadSegmentFrom, if_neg (not_not.mpr hp)]
  rfl

/-- The second loop reads the parts that are segments. -/
theorem foldl_loadSegmentFrom_file (phdrs : List Elf64Phdr) (s : Loading) (f : FirmwareFile) :
    (phdrs.foldl (loadSegmentFrom base minVaddr) (s, f)).2 =
      ((loads phdrs).map fun p => (p.offset, p.filesz.toNat)).foldl seekAndRead f := by
  induction phdrs generalizing s f with
  | nil => rfl
  | cons p phdrs ih =>
    rw [List.foldl_cons]
    by_cases hp : p.type = ptLoad
    · rw [loads_cons_of_load hp, List.map_cons, List.foldl_cons,
        ← loadSegmentFrom_file base minVaddr hp s f, ← ih]
    · rw [loadSegmentFrom, if_pos hp, ih, loads_cons_of_ne hp]

/-- **Reading the parts one after the other** transfers them exactly if they are served. -/
theorem foldl_seekAndRead (parts : List (U64 × ℕ)) (f : FirmwareFile) :
    ∃ transfers, (parts.foldl seekAndRead f).transfers = f.transfers ++ transfers ∧
      (List.Forall₂ WasRead parts transfers ↔
        Serves f.contents f.answers f.called f.pos parts) := by
  induction parts generalizing f with
  | nil => exact ⟨[], (List.append_nil _).symm, iff_of_true .nil trivial⟩
  | cons part parts ih =>
    obtain ⟨target, size⟩ := part
    obtain ⟨transfers, htransfers, hserves⟩ := ih (seekAndRead f (target, size))
    rw [List.foldl_cons, htransfers]
    refine ⟨(f.moved target, ((setPosition f target).2.transferred size).length) :: transfers,
      List.append_assoc .., ?_⟩
    rw [List.forall₂_cons, hserves, Serves]
    have hlen := FirmwareFile.length_transferred_le (setPosition f target).2 size
    by_cases hsize : size = 0
    · -- nothing is asked for
      have hzero : ((setPosition f target).2.transferred size).length = 0 := by omega
      refine and_congr (iff_of_true (.inl hsize) fun h => absurd hsize h) ?_
      show Serves _ _ (f.called + 2) (f.moved target + _) parts ↔ _
      rw [hzero, hsize]
      rfl
    · have hall := FirmwareFile.length_transferred_iff (f := (setPosition f target).2) hsize
      have hread : WasRead (target, size)
          (f.moved target, ((setPosition f target).2.transferred size).length) ↔
          f.moved target = target.toNat ∧ (f.answers (f.called + 1)).Allows size ∧
            target.toNat + size ≤ f.contents.length := by
        rw [WasRead, or_iff_right hsize, Prod.mk.injEq]
        refine and_congr_right fun hmoved => hall.trans ?_
        show _ ∧ f.moved target + size ≤ _ ↔ _
        rw [hmoved]
        rfl
      constructor
      · rintro ⟨hwas, hrest⟩
        refine ⟨fun _ => hread.mp hwas, ?_⟩
        obtain ⟨-, hcount⟩ := Prod.mk.inj (hwas.resolve_left hsize)
        change Serves _ _ (f.called + 2) (f.moved target + _) parts at hrest
        rwa [hcount] at hrest
      · rintro ⟨hpart, hrest⟩
        have hwas := hread.mpr (hpart hsize)
        refine ⟨hwas, ?_⟩
        obtain ⟨-, hcount⟩ := Prod.mk.inj (hwas.resolve_left hsize)
        show Serves _ _ (f.called + 2) (f.moved target + _) parts
        rwa [hcount]

/-- **The firmware serves a kernel**: the ELF header, then the other parts. -/
structure ServesKernel (contents : List U8) (answers : ℕ → Answer) (stack : LoaderStack) :
    Prop where
  header : (answers 0).Allows 64 ∧ 64 ≤ contents.length
  parts : Serves contents answers 1 64 (kernelParts stack (openedKernel contents answers)).tail

/-- What a load that comes to its end has read. -/
theorem loadSegments_file (allocatePages : U64 → U64 × U64) (stack : LoaderStack) (mem : PhysMem)
    (f : FirmwareFile) :
    (loadSegments allocatePages stack mem f).2 =
      (kernelParts stack f).tail.foldl seekAndRead (read f 64).2 := by
  rw [loadSegments, foldl_loadSegmentFrom_file]
  rfl

/-- The parts of a load that comes to its end were read exactly if they were served. -/
theorem forall₂_wasRead_loadSegments_iff (allocatePages : U64 → U64 × U64) (stack : LoaderStack)
    (mem : PhysMem) (contents : List U8) (answers : ℕ → Answer) :
    List.Forall₂ WasRead (kernelParts stack (openedKernel contents answers))
        (loadSegments allocatePages stack mem (openedKernel contents answers)).2.transfers ↔
      ServesKernel contents answers stack := by
  obtain ⟨transfers, htransfers, hserves⟩ := foldl_seekAndRead
    (kernelParts stack (openedKernel contents answers)).tail
    (read (openedKernel contents answers) 64).2
  have hheader : ((openedKernel contents answers).transferred 64).length = 64 ↔ _ :=
    FirmwareFile.length_transferred_iff (by decide)
  have hfirst : (read (openedKernel contents answers) 64).2.transfers =
      [(0, ((openedKernel contents answers).transferred 64).length)] := rfl
  have hpos : (read (openedKernel contents answers) 64).2.pos =
      ((openedKernel contents answers).transferred 64).length := Nat.zero_add _
  rw [loadSegments_file, htransfers, hfirst, List.singleton_append]
  show List.Forall₂ WasRead ((0, 64) :: (kernelParts stack _).tail) _ ↔ _
  rw [List.forall₂_cons, hserves, hpos]
  constructor
  · rintro ⟨hwas, hrest⟩
    obtain ⟨-, hcount⟩ := Prod.mk.inj (hwas.resolve_left (by decide))
    rw [hcount] at hrest
    obtain ⟨hallows, hlength⟩ := hheader.mp hcount
    exact ⟨⟨hallows, le_of_eq_of_le (Nat.zero_add 64).symm hlength⟩, hrest⟩
  · rintro ⟨⟨hallows, hlength⟩, hrest⟩
    have hcount := hheader.mpr ⟨hallows, le_of_eq_of_le (Nat.zero_add 64) hlength⟩
    rw [hcount]
    exact ⟨.inr rfl, hrest⟩

end FirmwareFile

/-! ## The entries of `phdrs` -/

section Phdrs

variable {F : Type} [EfiFile F] {openStatus : U64} {stack : LoaderStack}

open EfiFile

/-- **`phdrs` is safe**: no access goes behind its end, and for more than 16 program headers an
error is returned with nothing called but the `Read` of the header. -/
def PhdrsSafe (openStatus : U64) (allocatePages : U64 → U64 × U64) (stack : LoaderStack)
    (mem : PhysMem) (f : F) : Prop :=
  ∃ r g, loadKernelFrom openStatus allocatePages stack mem f = some (r, g) ∧
    (16 < (ehdrFrom stack f).phnum.toNat → efiError r.status = true ∧ g = (read f 64).2)

/-- **When `phdrs` is safe.** For every file that opens and has the magic number, whatever its other
contents: exactly if it has at most 16 program headers. -/
theorem load_kernel_phdrs_iff (allocatePages : U64 → U64 × U64) (mem : PhysMem) {f : F}
    (hopen : efiError openStatus = false) (hmagic : (ehdrFrom stack f).HasMagic) :
    PhdrsSafe openStatus allocatePages stack mem f ↔
      (ehdrFrom stack f).phnum.toNat ≤ 16 := by
  constructor
  · rintro ⟨r, g, hr, -⟩
    by_contra hlt
    rw [loadKernelFrom_of_lt hopen hmagic (not_le.mp hlt)] at hr
    cases hr
  · intro hle
    have hsome : ∃ x, loadKernelFrom openStatus allocatePages stack mem f = some x := by
      rw [loadKernelFrom_of_le hopen hmagic hle]
      dsimp only
      split_ifs
      · exact ⟨_, rfl⟩
      · exact ⟨_, rfl⟩
      · exact ⟨_, rfl⟩
    obtain ⟨⟨r, g⟩, hr⟩ := hsome
    exact ⟨r, g, hr, fun hlt => absurd hle (not_le.mpr hlt)⟩

end Phdrs

/-! ## A file that reads what it has -/

/-- A file of a firmware without failures: its contents and its position. -/
structure FileAt where
  contents : List U8
  pos : ℕ

instance : EfiFile FileAt where
  read f size :=
    let bytes := (f.contents.drop f.pos).take size
    (⟨efiSuccess, bytes⟩, { f with pos := f.pos + bytes.length })
  setPosition f position := (efiSuccess, { f with pos := position.toNat })
  length_read_le _ size := List.length_take_le size _

/-- It puts to memory what `readFile` does. -/
theorem storeBytes_eq (file : List U8) (pos size : ℕ) (m : PhysMem) (dest : U64) :
    storeBytes m dest ((file.drop pos).take size) = readFile file pos size m dest := by
  have hlength : ((file.drop pos).take size).length = readCount file pos size := by
    rw [List.length_take, List.length_drop, readCount]
  funext a
  rw [storeBytes, readFile_eq, hlength]
  by_cases ha : (a - dest).toNat < readCount file pos size
  · have hsize := ha.trans_le (min_le_left _ _)
    rw [setRange_of_lt ha, setRange_of_lt ha, List.getD_eq_getElem?_getD,
      List.getD_eq_getElem?_getD, List.getElem?_take_of_lt hsize, List.getElem?_drop]
  · rw [setRange_of_not_lt ha, setRange_of_not_lt ha]

section FileAt

variable {fw : LoaderFirmware} {stack : LoaderStack} {mem : PhysMem} {base minVaddr : U64}

/-- The file of a firmware, as it is opened. -/
def LoaderFirmware.opened (fw : LoaderFirmware) : FileAt := ⟨fw.file, 0⟩

theorem ehdrFrom_fileAt (fw : LoaderFirmware) (stack : LoaderStack) :
    ehdrFrom stack fw.opened = loadEhdr fw stack :=
  congrArg readEhdr (storeBytes_eq fw.file 0 64 stack.ehdr 0)

theorem phdrsFrom_fileAt : phdrsFrom stack fw.opened = loadPhdrs fw stack := by
  have htable : (readTable stack fw.opened).1.bytes =
      (fw.file.drop (ehdrFrom stack fw.opened).phoff.toNat).take
        ((ehdrFrom stack fw.opened).phnum.toNat * 56) := rfl
  rw [phdrsFrom, htable, storeBytes_eq, ehdrFrom_fileAt]
  rfl

theorem loadSegmentFrom_fileAt (base minVaddr : U64) (p : Elf64Phdr) (s : Loading) {f : FileAt}
    (hf : f.contents = fw.file) :
    (loadSegmentFrom base minVaddr (s, f) p).1 = loadSegment fw.file base minVaddr s p ∧
      (loadSegmentFrom base minVaddr (s, f) p).2.contents = fw.file := by
  by_cases hp : p.type = ptLoad
  · have hlength : ((f.contents.drop p.offset.toNat).take p.filesz.toNat).length =
        readCount f.contents p.offset.toNat p.filesz.toNat := by
      rw [List.length_take, List.length_drop, readCount]
    rw [loadSegmentFrom, if_neg (not_not.mpr hp), loadSegment, if_neg (not_not.mpr hp), ← hf]
    refine ⟨?_, rfl⟩
    dsimp only
    rw [← storeBytes_eq, ← hlength]
    rfl
  · rw [loadSegmentFrom, if_pos hp, loadSegment, if_pos hp]
    exact ⟨rfl, hf⟩

theorem foldl_loadSegmentFrom_fileAt (phdrs : List Elf64Phdr) (s : Loading) {f : FileAt}
    (hf : f.contents = fw.file) :
    (phdrs.foldl (loadSegmentFrom base minVaddr) (s, f)).1 =
      phdrs.foldl (loadSegment fw.file base minVaddr) s := by
  induction phdrs generalizing s f with
  | nil => rfl
  | cons p phdrs ih =>
    obtain ⟨hround, hcontents⟩ := loadSegmentFrom_fileAt base minVaddr p s hf
    rw [List.foldl_cons, List.foldl_cons, ← hround]
    exact ih _ hcontents

/-- **With a file that reads what it has**, the loader is `loadKernel`. -/
theorem loadKernelFrom_fileAt (fw : LoaderFirmware) (stack : LoaderStack) (mem : PhysMem) :
    (loadKernelFrom fw.openStatus fw.allocatePages stack mem fw.opened).map Prod.fst =
      loadKernel fw stack mem := by
  have hehdr := ehdrFrom_fileAt fw stack
  by_cases hopen : efiError fw.openStatus = true
  · rw [loadKernelFrom, if_pos hopen, loadKernel, if_pos hopen]
    rfl
  by_cases hmagic : (loadEhdr fw stack).HasMagic
  · have hopen' := Bool.eq_false_iff.mpr hopen
    have hmagic' : (ehdrFrom stack fw.opened).HasMagic := hehdr ▸ hmagic
    rw [loadKernel, if_neg hopen]
    dsimp only
    rw [if_neg (not_not.mpr hmagic)]
    by_cases hphnum : 16 < (loadEhdr fw stack).phnum.toNat
    · rw [loadKernelFrom_of_lt hopen' hmagic' (hehdr ▸ hphnum), if_pos hphnum]
      rfl
    · -- the headers read are the same, and then each round of the second loop
      rw [loadKernelFrom_of_le hopen' hmagic' (hehdr ▸ not_lt.mp hphnum), if_neg hphnum]
      dsimp only
      rw [loadSegments, phdrsFrom_fileAt, hehdr]
      split_ifs
      · rfl
      · rfl
      · have hcontents : (readTable stack fw.opened).2.contents = fw.file := rfl
        rw [Option.map_some, foldl_loadSegmentFrom_fileAt _ _ hcontents]
  · have hmagic' : ¬ (ehdrFrom stack fw.opened).HasMagic := hehdr ▸ hmagic
    rw [loadKernelFrom, if_neg hopen, loadKernel, if_neg hopen]
    dsimp only
    rw [if_pos hmagic, if_pos hmagic']
    rfl

end FileAt

/-! ## A truncated file and a long table -/

/-- A file that ends after two of the four bytes of its segment. -/
def truncatedKernel : List U8 := sampleElf 120 4 8 [1, 2]

/-- It is loaded to the end. -/
theorem reachesEnd_truncatedKernel :
    LoadReachesEnd efiSuccess sampleKernel.allocatePages zeroStack
      (openedKernel truncatedKernel fun _ => .full) where
  opens := rfl
  magic := by decide +kernel
  phnum_le := by decide +kernel
  loads_ne := by decide +kernel
  allocates := by decide +kernel

/-- A file with 17 program headers, all of them empty. -/
def manyHeaders : FileAt where
  contents := [0x7f, 0x45, 0x4c, 0x46] ++ List.replicate 20 0 ++ leBytes 8 0x100000 ++
    leBytes 8 64 ++ leBytes 14 0 ++ leBytes 2 56 ++ leBytes 2 17 ++ leBytes 6 0 ++
    List.replicate (17 * 56) 0
  pos := 0

/-- One program header is safe. -/
theorem load_kernel_phdrs_sample :
    PhdrsSafe efiSuccess sampleKernel.allocatePages zeroStack (fun _ => 0) sampleKernel.opened :=
  (load_kernel_phdrs_iff sampleKernel.allocatePages (fun _ => 0) rfl (by decide +kernel)).mpr
    (by decide +kernel)

/-- **Seventeen program headers** are read into the array of 16. -/
theorem many_headers_overrun :
    (ehdrFrom zeroStack manyHeaders).HasMagic ∧
      ¬ PhdrsSafe efiSuccess sampleKernel.allocatePages zeroStack (fun _ => 0) manyHeaders := by
  have hmagic : (ehdrFrom zeroStack manyHeaders).HasMagic := by decide +kernel
  refine ⟨hmagic, ?_⟩
  rintro ⟨r, g, hr, -⟩
  rw [loadKernelFrom_of_lt rfl hmagic (by decide +kernel)] at hr
  cases hr

end OS44
