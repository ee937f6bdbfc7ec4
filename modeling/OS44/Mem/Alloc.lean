import OS44.Library.Runs
import OS44.Mem.Pmm

/-! # The kernel heap (`mem_alloc`, `mem_free`)

`mem_alloc` takes frames from the frame allocator one by one, writes the number of pages into the
header at the start of the first one, and returns the address behind the header. `mem_free` reads
the number back and frees that many frames counting up from the header, as if they were consecutive.

They are consecutive when the lowest free frames are (`BottomContiguous`): then a run of calls keeps
every block in frames of its own (`mem_run_blocks`). -/

namespace OS44

open Runs Pmm

/-- The frame allocator and physical memory, which is identity mapped. -/
structure MemState where
  pmm : Pmm
  mem : PhysMem

/-- `n` calls of `pmm_alloc_frame` whose results are dropped. -/
def takeFrames (s : Pmm) : ℕ → Pmm
  | 0 => s
  | n + 1 => takeFrames (pmmAllocFrame s).2 n

/-- `mem_alloc`: the pointer returned and the new state. -/
def memAlloc (s : MemState) (size : U64) : U64 × MemState :=
  let totalSize := size + 8
  let pages := (totalSize + 4096 - 1) / 4096
  let (pframe, pmm) := pmmAllocFrame s.pmm
  if pframe = 0 then (0, { s with pmm := pmm })
  else
    -- the header, `header->size = pages`, then `for (i = 1; i < pages; i++) pmm_alloc_frame()`
    (pframe + 8,
      { mem := store64 s.mem pframe pages, pmm := takeFrames pmm (pages.toNat - 1) })

/-- The loop of `mem_free`: `pmm_free_frame(pframe + i * PAGE_SIZE)` for `i = 0 .. n - 1`. -/
def freeRange (s : Pmm) (pframe : U64) (n : ℕ) : Pmm :=
  (List.range n).foldl (fun s i => pmmFreeFrame s (pframe + BitVec.ofNat 64 i * 4096)) s

/-- `mem_free`. -/
def memFree (s : MemState) (ptr : U64) : MemState :=
  if ptr = 0 then s
  else
    let header := ptr - 8
    { s with pmm := freeRange s.pmm header (load64 s.mem header).toNat }

/-! ## What the loops do to the free set -/

@[simp] theorem totalFrames_takeFrames (s : Pmm) (n : ℕ) :
    (takeFrames s n).totalFrames = s.totalFrames := by
  induction n generalizing s with
  | zero => rfl
  | succ n ih => rw [takeFrames, ih, totalFrames_pmmAllocFrame]

theorem freeFrames_takeFrames (s : Pmm) (n : ℕ) :
    (takeFrames s n).freeFrames = FirstFit.takeMany n s.freeFrames := by
  induction n generalizing s with
  | zero => rfl
  | succ n ih => rw [takeFrames, ih, freeFrames_pmmAllocFrame, FirstFit.takeMany_succ]

@[simp] theorem totalFrames_freeRange (s : Pmm) (a : U64) (n : ℕ) :
    (freeRange s a n).totalFrames = s.totalFrames := by
  induction n with
  | zero => rfl
  | succ n ih =>
    rw [freeRange, List.range_succ, List.foldl_concat, totalFrames_pmmFreeFrame]
    exact ih

/-- The frame of the address `n` pages above the frame `i`. -/
theorem frameOf_frameAddr_add {i n : ℕ} (h : i + n < 2 ^ 52) :
    frameOf (frameAddr i + BitVec.ofNat 64 n * 4096) = i + n := by
  have : (frameAddr i + BitVec.ofNat 64 n * 4096).toNat = (i + n) * 4096 := by
    rw [frameAddr]
    bv_omega
  rw [frameOf, this, Nat.mul_div_cancel _ (by decide)]

/-- Freeing `n` pages from the frame `i` frees the frames `i .. i + n - 1`. -/
theorem mem_freeFrames_freeRange {s : Pmm} (htot : s.totalFrames = 2 ^ 20) {i n : ℕ}
    (h : i + n ≤ 2 ^ 20) (j : ℕ) : j ∈ (freeRange s (frameAddr i) n).freeFrames ↔
      j ∈ s.freeFrames ∨ (i ≤ j ∧ j < i + n) := by
  induction n with
  | zero => simp [freeRange]
  | succ n ih =>
    rw [freeRange, List.range_succ, List.foldl_concat, ← freeRange, mem_freeFrames_pmmFreeFrame,
      ih (by omega), frameOf_frameAddr_add (by omega), totalFrames_freeRange, htot]
    constructor
    · rintro ((hj | hj) | ⟨rfl, -, -⟩)
      · exact .inl hj
      · exact .inr (by omega)
      · exact .inr (by omega)
    · rintro (hj | hj)
      · exact .inl (.inl hj)
      · by_cases hjn : j = i + n
        · exact .inr (by omega)
        · exact .inl (.inr (by omega))

/-! ## Blocks -/

/-- A block handed out by `mem_alloc`: the pointer and the size asked for. -/
structure Block where
  ptr : U64
  size : U64
  deriving DecidableEq, Repr

/-- The number of pages of a block of `size` bytes, `ceil((size + 8) / 4096)`. -/
def pagesFor (size : U64) : ℕ := (size.toNat + 8 + 4095) / 4096

/-- The frame `f` meets `[p - 8, p + size)`. -/
def Block.Meets (b : Block) (f : ℕ) : Prop :=
  f * 4096 < b.ptr.toNat + b.size.toNat ∧ b.ptr.toNat - 8 < (f + 1) * 4096

/-- The block starts behind a header at the start of the frame `i`, and its frames are
below 4 GiB. -/
def Block.At (b : Block) (i : ℕ) : Prop :=
  b.ptr = frameAddr i + 8 ∧ i + pagesFor b.size ≤ 2 ^ 20

theorem toNat_frameAddr_add_eight {i : ℕ} (h : i < 2 ^ 20) :
    (frameAddr i + 8).toNat = i * 4096 + 8 := by
  rw [frameAddr]
  bv_omega

theorem pagesFor_pos (size : U64) : 0 < pagesFor size := by
  unfold pagesFor; omega

/-- The frames a block meets are the `pages` frames from its header on. -/
theorem Block.At.meets_iff {b : Block} {i : ℕ} (hb : b.At i) (f : ℕ) :
    b.Meets f ↔ i ≤ f ∧ f < i + pagesFor b.size := by
  obtain ⟨hp, hi⟩ := hb
  have hpos := pagesFor_pos b.size
  rw [Block.Meets, hp, toNat_frameAddr_add_eight (by omega), pagesFor]
  omega

/-- The page count computed by `mem_alloc`, when the size does not wrap around. -/
theorem toNat_pages {size : U64} (h : size.toNat + 8 + 4095 < 2 ^ 64) :
    ((size + 8 + 4096 - 1) / 4096 : U64).toNat = pagesFor size := by
  have : (size + 8 + 4096 - 1 : U64).toNat = size.toNat + 8 + 4095 := by bv_omega
  rw [BitVec.toNat_udiv, this]
  rfl

/-! ## Runs of the heap -/

/-- What can happen to the heap: a call, or a store of the running kernel somewhere in memory. -/
inductive MemOp
  | alloc (size : U64)
  | free (b : Block)
  | store (a : U64) (x : U8)

/-- The heap together with the blocks that are live. -/
structure MemClients where
  st : MemState
  live : List Block

/-- One event: sizes do not wrap around, and a freed block is live with its header intact. -/
def memStep (s : MemClients) : MemOp → Option MemClients
  | .alloc size =>
    if size.toNat + 8 + 4095 < 2 ^ 64 then
      let (p, st) := memAlloc s.st size
      some { st := st, live := if p = 0 then s.live else ⟨p, size⟩ :: s.live }
    else none
  | .free b =>
    if b ∈ s.live ∧ load64 s.st.mem (b.ptr - 8) = BitVec.ofNat 64 (pagesFor b.size) then
      some { st := memFree s.st b.ptr, live := s.live.erase b }
    else none
  | .store a x => some { s with st := { s.st with mem := Function.update s.st.mem a x } }

theorem memStep_alloc {s : MemClients} {size : U64} (h : size.toNat + 8 + 4095 < 2 ^ 64) :
    memStep s (.alloc size) = some
      { st := (memAlloc s.st size).2
        live := if (memAlloc s.st size).1 = 0 then s.live
          else ⟨(memAlloc s.st size).1, size⟩ :: s.live } := by
  simp only [memStep, h, if_true]

/-- **What a non-`NULL` result of `mem_alloc` must satisfy**: each frame of the block is marked
used, was free just before, and is in no other live block. -/
def BlockOk (s : MemClients) : MemOp → Prop
  | .alloc size =>
    size.toNat + 8 + 4095 < 2 ^ 64 → (memAlloc s.st size).1 ≠ 0 →
      ∀ f, Block.Meets ⟨(memAlloc s.st size).1, size⟩ f →
        (memAlloc s.st size).2.pmm.testBit f = true ∧ s.st.pmm.testBit f = false ∧
        ∀ b ∈ s.live, ¬ b.Meets f
  | _ => True

/-- The frames following the lowest free frame are free, as many as the block needs. -/
def BottomContiguous (s : MemClients) : MemOp → Prop
  | .alloc size =>
    size.toNat + 8 + 4095 < 2 ^ 64 → ∀ i ∈ s.st.pmm.freeFrames,
      (∀ j ∈ s.st.pmm.freeFrames, i ≤ j) → ∀ k < pagesFor size, i + k ∈ s.st.pmm.freeFrames
  | _ => True

/-- No frame meets both blocks. -/
def Block.Apart (b c : Block) : Prop := ∀ f, ¬ (b.Meets f ∧ c.Meets f)

/-- **The invariant of the heap**: live blocks sit in used frames, apart from one another. -/
structure BlocksApart (s : MemClients) : Prop where
  total : s.st.pmm.totalFrames = 2 ^ 20
  zero_used : 0 ∉ s.st.pmm.freeFrames
  at_frame : ∀ b ∈ s.live, ∃ i, i ≠ 0 ∧ b.At i
  used : ∀ b ∈ s.live, ∀ f, b.Meets f → f ∉ s.st.pmm.freeFrames
  apart : s.live.Pairwise Block.Apart

/-- A live block is not placed at frame 0: its bytes cannot be handed back twice through `NULL`. -/
theorem Block.At.ptr_ne_zero {b : Block} {i : ℕ} (h : b.At i) : b.ptr ≠ 0 := by
  intro h0
  have hpos := pagesFor_pos b.size
  have hi : i < 2 ^ 20 := by have := h.2; omega
  have := congrArg BitVec.toNat (h.1.symm.trans h0)
  rw [toNat_frameAddr_add_eight hi] at this
  simp at this

theorem frameAddr_add_eight_sub (i : ℕ) : frameAddr i + 8 - 8 = frameAddr i :=
  BitVec.add_sub_cancel ..

/-- With nothing free `mem_alloc` returns `NULL`. -/
theorem memAlloc_of_empty {s : MemState} (h : s.pmm.freeFrames = ∅) (size : U64) :
    (memAlloc s size).1 = 0 ∧ (memAlloc s size).2.pmm.freeFrames = s.pmm.freeFrames ∧
      (memAlloc s size).2.pmm.totalFrames = s.pmm.totalFrames := by
  rcases pmmAllocFrame_cases s.pmm with ⟨-, ha⟩ | ⟨i, hi, -, -⟩
  · simp [memAlloc, ha]
  · rw [h] at hi
    simp at hi

/-- With a free frame `mem_alloc` puts the block behind a header in the lowest one, and takes as
many frames as the block has pages, lowest first. -/
theorem memAlloc_of_isLeast {s : MemState} {i : ℕ} (hi : i ∈ s.pmm.freeFrames)
    (hmin : ∀ j ∈ s.pmm.freeFrames, i ≤ j) (h0 : i ≠ 0) {size : U64}
    (hsize : size.toNat + 8 + 4095 < 2 ^ 64) :
    (memAlloc s size).1 = frameAddr i + 8 ∧
    (memAlloc s size).2.pmm.freeFrames = FirstFit.takeMany (pagesFor size) s.pmm.freeFrames ∧
    (memAlloc s size).2.pmm.totalFrames = s.pmm.totalFrames := by
  have hne : frameAddr i ≠ 0 := frameAddr_ne_zero (lt_of_mem_freeFrames hi) h0
  have hpages : pagesFor size = (pagesFor size - 1) + 1 := by
    have := pagesFor_pos size
    omega
  refine ⟨?_, ?_, ?_⟩ <;>
    simp only [memAlloc, pmmAllocFrame_of_isLeast hi hmin, if_neg hne, toNat_pages hsize,
      freeFrames_takeFrames, totalFrames_takeFrames, totalFrames_record, totalFrames_setBit]
  rw [hpages, FirstFit.takeMany_succ, FirstFit.takeFirst_eq_erase hi hmin, freeFrames_record,
    freeFrames_setBit, Nat.add_sub_cancel]

theorem testBit_eq_true_iff {s : Pmm} (htot : s.totalFrames = 2 ^ 20) (f : ℕ) :
    s.testBit f = true ↔ f ∉ s.freeFrames := by
  rw [mem_freeFrames, htot]
  constructor
  · rintro h ⟨-, h'⟩
    rw [h] at h'
    cases h'
  · intro h
    by_contra hf
    rw [Bool.not_eq_true] at hf
    exact h ⟨lt_of_testBit_eq_false hf, hf⟩

/-- **A block whose frames lie together is a good block.** Under the invariant, an allocation from
the bottom of a contiguous stretch takes exactly the frames of its block. -/
theorem memAlloc_of_contiguous {s : MemClients} (hs : BlocksApart s) {size : U64}
    (hsize : size.toNat + 8 + 4095 < 2 ^ 64) (hc : BottomContiguous s (.alloc size))
    (hp : (memAlloc s.st size).1 ≠ 0) :
    ∃ i, i ≠ 0 ∧ Block.At ⟨(memAlloc s.st size).1, size⟩ i ∧
      (∀ f, Block.Meets ⟨(memAlloc s.st size).1, size⟩ f → f ∈ s.st.pmm.freeFrames) ∧
      (∀ f, f ∈ (memAlloc s.st size).2.pmm.freeFrames ↔ f ∈ s.st.pmm.freeFrames ∧
        ¬ Block.Meets ⟨(memAlloc s.st size).1, size⟩ f) ∧
      (memAlloc s.st size).2.pmm.totalFrames = 2 ^ 20 := by
  rcases pmmAllocFrame_cases s.st.pmm with ⟨hempty, -⟩ | ⟨i, hi, hmin, -⟩
  · exact absurd (memAlloc_of_empty hempty size).1 hp
  · have h0 : i ≠ 0 := fun h => hs.zero_used (h ▸ hi)
    obtain ⟨hptr, hfree, htot⟩ := memAlloc_of_isLeast hi hmin h0 hsize
    have hfrom := hc hsize i hi hmin
    have hpos := pagesFor_pos size
    have hlast := lt_of_mem_freeFrames (hfrom (pagesFor size - 1) (by omega))
    have hat : Block.At ⟨(memAlloc s.st size).1, size⟩ i := ⟨hptr, by simp only; omega⟩
    refine ⟨i, h0, hat, ?_, ?_, htot.trans hs.total⟩
    · -- the frames from the lowest free one on are free
      intro f hf
      obtain ⟨hif, hfi⟩ := (hat.meets_iff f).mp hf
      have := hfrom (f - i) (by simp only at hfi; omega)
      rwa [Nat.add_sub_cancel' hif] at this
    · intro f
      rw [hfree, FirstFit.takeMany_Ico hmin hfrom, Finset.mem_sdiff, Finset.mem_Ico,
        hat.meets_iff]

/-- The condition gives a good block, under the invariant. -/
theorem blockOk_of_contiguous {s : MemClients} (hs : BlocksApart s) {op : MemOp}
    (hc : BottomContiguous s op) : BlockOk s op := by
  cases op with
  | alloc size =>
    intro hsize hp f hf
    obtain ⟨i, -, -, hfree, hfree', htot⟩ := memAlloc_of_contiguous hs hsize hc hp
    refine ⟨?_, (mem_freeFrames.mp (hfree f hf)).2, fun b hb hbf => hs.used b hb f hbf (hfree f hf)⟩
    rw [testBit_eq_true_iff htot, hfree']
    exact fun h => h.2 hf
  | free b => trivial
  | store a x => trivial

/-- A good block shows that the condition held, under the invariant. -/
theorem contiguous_of_blockOk {s : MemClients} (hs : BlocksApart s) {op : MemOp}
    (hb : BlockOk s op) : BottomContiguous s op := by
  cases op with
  | alloc size =>
    intro hsize i hi hmin k hk
    have h0 : i ≠ 0 := fun h => hs.zero_used (h ▸ hi)
    obtain ⟨hptr, -, -⟩ := memAlloc_of_isLeast hi hmin h0 hsize
    have hlt := lt_of_mem_freeFrames hi
    have htoNat : (memAlloc s.st size).1.toNat = i * 4096 + 8 := by
      rw [hptr, toNat_frameAddr_add_eight hlt]
    have hp : (memAlloc s.st size).1 ≠ 0 := fun h => by
      rw [h] at htoNat
      simp at htoNat
    -- page `k` of the block meets frame `i + k`, which therefore was free
    have hmeets : Block.Meets ⟨(memAlloc s.st size).1, size⟩ (i + k) := by
      simp only [Block.Meets, htoNat]
      unfold pagesFor at hk
      omega
    obtain ⟨-, hfree, -⟩ := hb hsize hp (i + k) hmeets
    rw [mem_freeFrames, hs.total]
    exact ⟨lt_of_testBit_eq_false hfree, hfree⟩
  | free b => trivial
  | store a x => trivial

/-- The step lemma of `mem_alloc`. -/
theorem BlocksApart.alloc {s s' : MemClients} (hs : BlocksApart s) {size : U64}
    (hc : BottomContiguous s (.alloc size)) (h : memStep s (.alloc size) = some s') :
    BlocksApart s' := by
  simp only [memStep, Option.ite_none_right_eq_some, Option.some.injEq] at h
  obtain ⟨hsize, rfl⟩ := h
  by_cases hp : (memAlloc s.st size).1 = 0
  · -- `NULL` is returned only when nothing is free, and then nothing changes
    rcases pmmAllocFrame_cases s.st.pmm with ⟨hempty, -⟩ | ⟨i, hi, hmin, -⟩
    · obtain ⟨-, hfree, htot⟩ := memAlloc_of_empty hempty size
      simp only [hp, if_true]
      exact ⟨htot.trans hs.total, hfree ▸ hs.zero_used, hs.at_frame, hfree ▸ hs.used, hs.apart⟩
    · have h0 : i ≠ 0 := fun h => hs.zero_used (h ▸ hi)
      obtain ⟨hptr, -, -⟩ := memAlloc_of_isLeast hi hmin h0 hsize
      have := toNat_frameAddr_add_eight (lt_of_mem_freeFrames hi)
      rw [← hptr, hp] at this
      simp at this
  · obtain ⟨i, h0, hat, hfree, hfree', htot⟩ := memAlloc_of_contiguous hs hsize hc hp
    simp only [if_neg hp]
    refine ⟨htot, fun h => hs.zero_used ((hfree' 0).mp h).1, ?_, ?_, ?_⟩
    · intro b hb
      rcases List.mem_cons.mp hb with rfl | hb
      exacts [⟨i, h0, hat⟩, hs.at_frame b hb]
    · intro b hb f hbf hf
      obtain ⟨hff, hnew⟩ := (hfree' f).mp hf
      rcases List.mem_cons.mp hb with rfl | hb
      exacts [hnew hbf, hs.used b hb f hbf hff]
    · exact List.pairwise_cons.mpr
        ⟨fun b hb f hf => hs.used b hb f hf.2 (hfree f hf.1), hs.apart⟩

/-- The step lemma of `mem_free`: the frames given back are those of the freed block. -/
theorem BlocksApart.free {s s' : MemClients} (hs : BlocksApart s) {b : Block}
    (h : memStep s (.free b) = some s') : BlocksApart s' := by
  simp only [memStep, Option.ite_none_right_eq_some, Option.some.injEq] at h
  obtain ⟨⟨hb, hheader⟩, rfl⟩ := h
  obtain ⟨i, h0, hat⟩ := hs.at_frame b hb
  have hpages : (BitVec.ofNat 64 (pagesFor b.size)).toNat = pagesFor b.size := by
    have := hat.2
    rw [BitVec.toNat_ofNat, Nat.mod_eq_of_lt (by omega)]
  have hpmm : (memFree s.st b.ptr).pmm = freeRange s.st.pmm (frameAddr i) (pagesFor b.size) := by
    simp only [memFree, if_neg hat.ptr_ne_zero, hheader, hpages]
    rw [hat.1, frameAddr_add_eight_sub]
  have hfree : ∀ f, f ∈ (memFree s.st b.ptr).pmm.freeFrames ↔ f ∈ s.st.pmm.freeFrames ∨
      b.Meets f := by
    intro f
    rw [hpmm, mem_freeFrames_freeRange hs.total hat.2, hat.meets_iff]
  have hdisj : ∀ c ∈ s.live.erase b, Block.Apart b c := by
    have hperm := List.perm_cons_erase hb
    have hpw := (hperm.pairwise_iff fun {x y} hxy f hf => hxy f hf.symm).mp hs.apart
    exact (List.pairwise_cons.mp hpw).1
  refine ⟨by rw [hpmm, totalFrames_freeRange, hs.total], ?_,
    fun c hc => hs.at_frame c (List.mem_of_mem_erase hc), ?_,
    hs.apart.sublist List.erase_sublist⟩
  · intro h
    rcases (hfree 0).mp h with h | h
    · exact hs.zero_used h
    · have := ((hat.meets_iff 0).mp h).1
      omega
  · -- a frame that is free now was free, or was in the block given back
    intro c hc f hcf hf
    rcases (hfree f).mp hf with hf | hf
    · exact hs.used c (List.mem_of_mem_erase hc) f hcf hf
    · exact hdisj c hc f ⟨hf, hcf⟩

/-- The step lemma of a store: memory is not part of the invariant. -/
theorem BlocksApart.store {s s' : MemClients} (hs : BlocksApart s) {a : U64} {x : U8}
    (h : memStep s (.store a x) = some s') : BlocksApart s' := by
  obtain rfl := Option.some.inj h
  exact ⟨hs.total, hs.zero_used, hs.at_frame, hs.used, hs.apart⟩

theorem BlocksApart.step {s s' : MemClients} {op : MemOp} (hs : BlocksApart s)
    (hc : BottomContiguous s op) (h : memStep s op = some s') : BlocksApart s' := by
  cases op with
  | alloc size => exact hs.alloc hc h
  | free b => exact hs.free h
  | store a x => exact hs.store h

/-- After `pmm_init` there is no block, and frame 0 is used. -/
theorem blocksApart_pmmInit {m : PhysMem} {info : BootInfo} {pmm : Pmm}
    (h : pmmInit m info = some pmm) (mem : PhysMem) : BlocksApart ⟨⟨pmm, mem⟩, []⟩ where
  total := totalFrames_pmmInit h
  zero_used hz := by
    have := ((mem_freeFrames_pmmInit h 0).mp hz).1
    omega
  at_frame := by simp
  used := by simp
  apart := List.Pairwise.nil

/-- **The heap hands out good blocks exactly as long as it allocates from contiguous stretches.**
After `pmm_init` on any memory map, with any memory content, for every run: all its allocations
return good blocks if and only if each finds the lowest free frame followed by enough free frames;
and then the live blocks are in disjoint frames. -/
theorem mem_run_blocks (m : PhysMem) (info : BootInfo) (pmm₀ : Pmm)
    (hinit : pmmInit m info = some pmm₀) (mem : PhysMem) (ops : List MemOp) :
    (AllSteps memStep BottomContiguous ⟨⟨pmm₀, mem⟩, []⟩ ops ↔
      AllSteps memStep BlockOk ⟨⟨pmm₀, mem⟩, []⟩ ops) ∧
    ∀ s, AllSteps memStep BottomContiguous ⟨⟨pmm₀, mem⟩, []⟩ ops →
      run memStep ⟨⟨pmm₀, mem⟩, []⟩ ops = some s → s.live.Pairwise Block.Apart := by
  have h₀ := blocksApart_pmmInit hinit mem
  refine ⟨⟨?_, ?_⟩, ?_⟩
  · intro h
    exact h.consequence (fun s op s' hs hc hstep => hs.step hc hstep)
      (fun s op hs hc => blockOk_of_contiguous hs hc) h₀
  · intro h
    exact h.consequence
      (fun s op s' hs hb hstep => hs.step (contiguous_of_blockOk hs hb) hstep)
      (fun s op hs hb => contiguous_of_blockOk hs hb) h₀
  · intro s h hrun
    exact (run_invariant (fun s op s' hs hc hstep => hs.step hc hstep) h₀ h hrun).apart

/-- One page taken from a bottom frame `i`. -/
theorem memStep_alloc_onePage {s : MemClients} {i : ℕ} (hi : i ∈ s.st.pmm.freeFrames)
    (hmin : ∀ j ∈ s.st.pmm.freeFrames, i ≤ j) (h0 : i ≠ 0) :
    ∃ s', memStep s (.alloc 1) = some s' ∧ s'.live = ⟨frameAddr i + 8, 1⟩ :: s.live ∧
      s'.st.pmm.freeFrames = s.st.pmm.freeFrames.erase i ∧
      s'.st.mem = store64 s.st.mem (frameAddr i) 1 := by
  have hsize : (1 : U64).toNat + 8 + 4095 < 2 ^ 64 := by decide
  obtain ⟨hptr, hfree, -⟩ := memAlloc_of_isLeast hi hmin h0 hsize
  have hp : frameAddr i + 8 ≠ 0 := fun h => by
    have := congrArg BitVec.toNat h
    rw [toNat_frameAddr_add_eight (lt_of_mem_freeFrames hi)] at this
    simp at this
  refine ⟨_, memStep_alloc hsize, ?_, ?_, ?_⟩
  · simp only [hptr, if_neg hp]
  · have hone : pagesFor 1 = 0 + 1 := by decide
    rw [hone, FirstFit.takeMany_succ, FirstFit.takeMany_zero,
      FirstFit.takeFirst_eq_erase hi hmin] at hfree
    simpa only using hfree
  · have hpages : ((1 + 8 + 4096 - 1) / 4096 : U64) = 1 := by decide
    simp only [memAlloc, pmmAllocFrame_of_isLeast hi hmin,
      if_neg (frameAddr_ne_zero (lt_of_mem_freeFrames hi) h0), hpages]

/-- On the 512 MiB machine a block of one page and one of three meet the condition: they are in
disjoint frames. -/
theorem mem_run_blocks_sample : ∃ s, run memStep ⟨⟨Sample.pmm, Sample.memory⟩, []⟩
    [.alloc 1, .alloc 8192] = some s ∧
    s.live = [⟨frameAddr 2049 + 8, 8192⟩, ⟨frameAddr 2048 + 8, 1⟩] ∧
    s.live.Pairwise Block.Apart := by
  have hone : pagesFor 1 = 1 := by decide
  have hthree : pagesFor 8192 = 3 := by decide
  have hsize : (8192 : U64).toNat + 8 + 4095 < 2 ^ 64 := by decide
  have hi : 2048 ∈ Sample.pmm.freeFrames := (Sample.mem_freeFrames_pmm 2048).mpr (by omega)
  obtain ⟨s₁, hs₁, hlive₁, hfree₁, -⟩ := memStep_alloc_onePage
    (s := ⟨⟨Sample.pmm, Sample.memory⟩, []⟩) hi
    (fun j hj => ((Sample.mem_freeFrames_pmm j).mp hj).1) (by omega)
  have hmem₁ : ∀ j, j ∈ s₁.st.pmm.freeFrames ↔ 2049 ≤ j ∧ j < 131072 := by
    intro j
    rw [hfree₁, Finset.mem_erase, Sample.mem_freeFrames_pmm]
    omega
  obtain ⟨hptr, -⟩ := memAlloc_of_isLeast ((hmem₁ 2049).mpr (by omega))
    (fun j hj => ((hmem₁ j).mp hj).1) (by omega) hsize
  have hp : frameAddr 2049 + 8 ≠ 0 := by decide
  obtain ⟨s₂, hs₂, hlive₂⟩ : ∃ s₂, memStep s₁ (.alloc 8192) = some s₂ ∧
      s₂.live = [⟨frameAddr 2049 + 8, 8192⟩, ⟨frameAddr 2048 + 8, 1⟩] :=
    ⟨_, memStep_alloc hsize, by simp only [hptr, if_neg hp, hlive₁]⟩
  have hrun : run memStep ⟨⟨Sample.pmm, Sample.memory⟩, []⟩ [.alloc 1, .alloc 8192] = some s₂ :=
    run_cons_eq_some.mpr ⟨s₁, hs₁, run_cons_eq_some.mpr ⟨s₂, hs₂, rfl⟩⟩
  refine ⟨s₂, hrun, hlive₂, (mem_run_blocks Sample.memory Sample.info Sample.pmm Sample.pmmInit_eq
    Sample.memory [.alloc 1, .alloc 8192]).2 s₂ ⟨?_, fun t ht => ⟨?_, fun _ _ => trivial⟩⟩ hrun⟩
  · intro _ i hi _ k hk
    obtain rfl : k = 0 := by omega
    exact hi
  · -- the three frames behind the first block are free
    obtain rfl := Option.some.inj (hs₁.symm.trans ht)
    intro _ i hi hmin k hk
    have := hmin 2049 ((hmem₁ 2049).mpr (by omega))
    rw [hmem₁] at hi ⊢
    omega

/-- **Fragmentation breaks the heap.** Two one-page blocks, the first one freed, then a block of
8192 bytes: it starts in the freed frame and runs over the frame of the second block,
which is live. -/
theorem mem_alloc_overlaps : pmmInit Sample.memory Sample.info = some Sample.pmm ∧
    ¬ AllSteps memStep BlockOk ⟨⟨Sample.pmm, Sample.memory⟩, []⟩
      [.alloc 1, .alloc 1, .free ⟨frameAddr 2048 + 8, 1⟩, .alloc 8192] := by
  refine ⟨Sample.pmmInit_eq, ?_⟩
  intro hall
  obtain ⟨s₁, hs₁, hlive₁, hfree₁, hmem₁⟩ := memStep_alloc_onePage
    (s := ⟨⟨Sample.pmm, Sample.memory⟩, []⟩) (i := 2048)
    ((Sample.mem_freeFrames_pmm 2048).mpr (by omega))
    (fun j hj => ((Sample.mem_freeFrames_pmm j).mp hj).1) (by omega)
  have hmem_free₁ : ∀ j, j ∈ s₁.st.pmm.freeFrames ↔ 2049 ≤ j ∧ j < 131072 := by
    intro j
    rw [hfree₁, Finset.mem_erase, Sample.mem_freeFrames_pmm]
    omega
  obtain ⟨s₂, hs₂, hlive₂, hfree₂, hmem₂⟩ := memStep_alloc_onePage (s := s₁) (i := 2049)
    ((hmem_free₁ 2049).mpr (by omega)) (fun j hj => ((hmem_free₁ j).mp hj).1) (by omega)
  have hapart₁ := (blocksApart_pmmInit Sample.pmmInit_eq Sample.memory).step
    (contiguous_of_blockOk (blocksApart_pmmInit Sample.pmmInit_eq _) hall.1) hs₁
  have hall₁ := hall.2 s₁ hs₁
  have hapart₂ := hapart₁.step (contiguous_of_blockOk hapart₁ hall₁.1) hs₂
  have hall₂ := hall₁.2 s₂ hs₂
  -- the header of the first block is intact: the second header is in another frame
  have hheader : load64 s₂.st.mem (frameAddr 2048 + 8 - 8) = BitVec.ofNat 64 (pagesFor 1) := by
    rw [frameAddr_add_eight_sub, hmem₂, hmem₁, load64_store64_of_apart _ _ (by decide) (by decide),
      load64_store64]
    decide
  have hlive : (⟨frameAddr 2048 + 8, 1⟩ : Block) ∈ s₂.live := by simp [hlive₂, hlive₁]
  obtain ⟨s₃, hs₃⟩ : ∃ s₃, memStep s₂ (.free ⟨frameAddr 2048 + 8, 1⟩) = some s₃ :=
    ⟨_, if_pos ⟨hlive, hheader⟩⟩
  have hapart₃ := hapart₂.free hs₃
  have hcont := contiguous_of_blockOk hapart₃ (hall₂.2 s₃ hs₃).1
  -- after the free, 2048 is the lowest free frame and 2049 is in use
  have hmem_free₃ : ∀ j, j ∈ s₃.st.pmm.freeFrames ↔
      (2050 ≤ j ∧ j < 131072) ∨ j = 2048 := by
    simp only [memStep, if_pos (And.intro hlive hheader), Option.some.injEq] at hs₃
    have hat : Block.At ⟨frameAddr 2048 + 8, 1⟩ 2048 := ⟨rfl, by decide⟩
    have hone : (BitVec.ofNat 64 (pagesFor 1)).toNat = 1 := by decide
    intro j
    rw [← hs₃]
    simp only [memFree, if_neg hat.ptr_ne_zero, hheader, hone]
    rw [frameAddr_add_eight_sub, mem_freeFrames_freeRange hapart₂.total (by omega), hfree₂,
      Finset.mem_erase, hmem_free₁]
    omega
  have := hcont (by decide) 2048 ((hmem_free₃ 2048).mpr (.inr rfl))
    (fun j hj => by have := (hmem_free₃ j).mp hj; omega) 1 (by decide)
  rw [hmem_free₃] at this
  omega

end OS44
