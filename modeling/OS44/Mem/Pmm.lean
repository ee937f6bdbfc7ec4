import OS44.BootInfo
import OS44.Library.FirstFit

/-! # The physical frame allocator (`pmm.c`)

One bit per 4 KiB frame below 4 GiB, set when the frame is in use: `MAX_MEM / PAGE_SIZE = 2^20`
frames in `BITMAP_SIZE = 2^17` bytes. The bitmap is an array of exactly that size, so the guards of
`set_bit`, `clear_bit` and `test_bit` are what makes the accesses typecheck.

`freeFrames` reads the bitmap as the finite set of frames a scan can return; every operation is then
described by what it does to that set (`freeFrames_pmmAllocFrame`, `mem_freeFrames_pmmFreeFrame`,
`mem_freeFrames_pmmInit`). -/

namespace OS44

/-- A call of the allocator, with its argument or result. -/
inductive PmmCall
  /-- `pmm_alloc_frame()` returned `frame`. -/
  | alloc (frame : U64)
  /-- `pmm_free_frame(frame)`. -/
  | free (frame : U64)
  deriving DecidableEq, Repr

/-- The static variables of `pmm.c`. `calls` is a ghost record of the calls made so far, newest
first: no definition of the allocator reads it. -/
structure Pmm where
  /-- `pmm_bitmap`. -/
  bitmap : Fin (2 ^ 17) → U8
  /-- `total_frames`. -/
  totalFrames : ℕ
  /-- Ghost: the calls made so far. -/
  calls : List PmmCall

/-- The frame number of an address, `addr / PAGE_SIZE`. -/
def frameOf (a : U64) : ℕ := a.toNat / 4096

/-- The address of a frame, `i * PAGE_SIZE`. -/
def frameAddr (i : ℕ) : U64 := BitVec.ofNat 64 (i * 4096)

theorem toNat_frameAddr {i : ℕ} (h : i < 2 ^ 20) : (frameAddr i).toNat = i * 4096 := by
  rw [frameAddr, BitVec.toNat_ofNat, Nat.mod_eq_of_lt (by omega)]

@[simp] theorem frameOf_frameAddr {i : ℕ} (h : i < 2 ^ 20) : frameOf (frameAddr i) = i := by
  rw [frameOf, toNat_frameAddr h, Nat.mul_div_cancel _ (by decide)]

theorem frameAddr_ne_zero {i : ℕ} (h : i < 2 ^ 20) (h0 : i ≠ 0) : frameAddr i ≠ 0 := by
  intro h'
  have := congrArg frameOf h'
  rw [frameOf_frameAddr h] at this
  exact h0 this

namespace Pmm

/-- The byte of the bitmap that holds the bit of a frame. -/
def byteIndex (frameIdx : ℕ) (h : frameIdx < 2 ^ 20) : Fin (2 ^ 17) := ⟨frameIdx / 8, by omega⟩

/-- `pmm_bitmap[i] = b`. -/
def writeByte (s : Pmm) (i : Fin (2 ^ 17)) (b : U8) : Pmm :=
  { s with bitmap := Function.update s.bitmap i b }

/-- `set_bit`. -/
def setBit (s : Pmm) (frameIdx : ℕ) : Pmm :=
  if h : frameIdx < 2 ^ 20 then
    s.writeByte (byteIndex frameIdx h)
      (s.bitmap (byteIndex frameIdx h) ||| 1#8 <<< (frameIdx % 8))
  else s

/-- `clear_bit`. -/
def clearBit (s : Pmm) (frameIdx : ℕ) : Pmm :=
  if h : frameIdx < 2 ^ 20 then
    s.writeByte (byteIndex frameIdx h)
      (s.bitmap (byteIndex frameIdx h) &&& ~~~(1#8 <<< (frameIdx % 8)))
  else s

/-- `test_bit`; a frame out of bounds is marked used. -/
def testBit (s : Pmm) (frameIdx : ℕ) : Bool :=
  if h : frameIdx < 2 ^ 20 then
    s.bitmap (byteIndex frameIdx h) &&& 1#8 <<< (frameIdx % 8) != 0#8
  else true

/-- Note a call in the ghost record. -/
def record (s : Pmm) (c : PmmCall) : Pmm := { s with calls := c :: s.calls }

/-- Ghost: how often `pmm_alloc_frame` has returned `NULL`. -/
def failures (s : Pmm) : ℕ := s.calls.count (.alloc 0)

/-! ## The bits -/

@[simp] theorem bitmap_writeByte_self (s : Pmm) (i : Fin (2 ^ 17)) (b : U8) :
    (s.writeByte i b).bitmap i = b := Function.update_self ..

theorem bitmap_writeByte_of_ne (s : Pmm) {i j : Fin (2 ^ 17)} (b : U8) (h : j ≠ i) :
    (s.writeByte i b).bitmap j = s.bitmap j := Function.update_of_ne h ..

@[simp] theorem totalFrames_setBit (s : Pmm) (i : ℕ) : (s.setBit i).totalFrames =
    s.totalFrames := by
  unfold setBit; split <;> rfl

@[simp] theorem totalFrames_clearBit (s : Pmm) (i : ℕ) :
    (s.clearBit i).totalFrames = s.totalFrames := by
  unfold clearBit; split <;> rfl

@[simp] theorem calls_setBit (s : Pmm) (i : ℕ) : (s.setBit i).calls = s.calls := by
  unfold setBit; split <;> rfl

@[simp] theorem calls_clearBit (s : Pmm) (i : ℕ) : (s.clearBit i).calls = s.calls := by
  unfold clearBit; split <;> rfl

@[simp] theorem testBit_record (s : Pmm) (c : PmmCall) (i : ℕ) :
    (s.record c).testBit i = s.testBit i := rfl

@[simp] theorem totalFrames_record (s : Pmm) (c : PmmCall) :
    (s.record c).totalFrames = s.totalFrames := rfl

@[simp] theorem calls_record (s : Pmm) (c : PmmCall) : (s.record c).calls = c :: s.calls := rfl

theorem testBit_of_le {s : Pmm} {i : ℕ} (h : 2 ^ 20 ≤ i) : s.testBit i = true := by
  rw [testBit, dif_neg (by omega)]

theorem lt_of_testBit_eq_false {s : Pmm} {i : ℕ} (h : s.testBit i = false) : i < 2 ^ 20 := by
  by_contra hi
  rw [testBit_of_le (by omega)] at h
  cases h

/-- The masked test reads one bit of the byte. -/
theorem testBit_eq_getLsbD {s : Pmm} {i : ℕ} (h : i < 2 ^ 20) :
    s.testBit i = (s.bitmap (byteIndex i h)).getLsbD (i % 8) := by
  have hk : i % 8 < 8 := Nat.mod_lt i (by decide)
  have hpow : BitVec.twoPow 8 (i % 8) ≠ 0#8 := fun h0 => by
    simpa [hk] using congrArg (fun b => BitVec.getLsbD b (i % 8)) h0
  rw [testBit, dif_pos h, ← BitVec.twoPow_eq, BitVec.and_twoPow]
  cases (s.bitmap (byteIndex i h)).getLsbD (i % 8) <;> simp [hpow]

/-- **`set_bit` marks its own frame and no other.** -/
@[simp] theorem testBit_setBit (s : Pmm) (i j : ℕ) :
    (s.setBit i).testBit j = (s.testBit j || decide (j = i)) := by
  by_cases hj : j < 2 ^ 20
  · by_cases hi : i < 2 ^ 20
    · rw [testBit_eq_getLsbD hj, testBit_eq_getLsbD hj, setBit, dif_pos hi]
      -- in the same byte the bit decides, in another one nothing changes
      by_cases hb : j / 8 = i / 8
      · have hbyte : byteIndex j hj = byteIndex i hi := Fin.ext hb
        rw [hbyte, bitmap_writeByte_self, BitVec.getLsbD_or, ← BitVec.twoPow_eq,
          BitVec.getLsbD_twoPow]
        have hmod : i % 8 < 8 := Nat.mod_lt i (by decide)
        have hiff : (i % 8 = j % 8) ↔ (j = i) := by omega
        simp only [hmod, decide_true, Bool.true_and, hiff]
      · have hbyte : byteIndex j hj ≠ byteIndex i hi := fun h => hb (Fin.mk.inj h)
        have hne : j ≠ i := fun h => hb (h ▸ rfl)
        simp [bitmap_writeByte_of_ne s _ hbyte, hne]
    · -- an index out of bounds is ignored
      have hne : j ≠ i := by omega
      rw [setBit, dif_neg hi]
      simp [hne]
  · rw [testBit_of_le (by omega), testBit_of_le (by omega)]
    rfl

/-- **`clear_bit` frees its own frame and no other.** -/
@[simp] theorem testBit_clearBit (s : Pmm) (i j : ℕ) :
    (s.clearBit i).testBit j = (s.testBit j && decide (¬ (j = i ∧ i < 2 ^ 20))) := by
  by_cases hj : j < 2 ^ 20
  · by_cases hi : i < 2 ^ 20
    · rw [testBit_eq_getLsbD hj, testBit_eq_getLsbD hj, clearBit, dif_pos hi]
      -- in the same byte the bit decides, in another one nothing changes
      by_cases hb : j / 8 = i / 8
      · have hbyte : byteIndex j hj = byteIndex i hi := Fin.ext hb
        have hj8 : j % 8 < 8 := Nat.mod_lt j (by decide)
        have hi8 : i % 8 < 8 := Nat.mod_lt i (by decide)
        rw [hbyte, bitmap_writeByte_self, BitVec.getLsbD_and, BitVec.getLsbD_not,
          ← BitVec.twoPow_eq, BitVec.getLsbD_twoPow]
        have hiff : (i % 8 = j % 8) ↔ (j = i) := by omega
        simp only [hj8, hi8, decide_true, Bool.true_and, hiff, hi, and_true]
        by_cases h : j = i <;> simp [h]
      · have hbyte : byteIndex j hj ≠ byteIndex i hi := fun h => hb (Fin.mk.inj h)
        have hne : j ≠ i := fun h => hb (h ▸ rfl)
        simp [bitmap_writeByte_of_ne s _ hbyte, hne]
    · have hne : ¬ (j = i ∧ i < 2 ^ 20) := fun h => hi h.2
      rw [clearBit, dif_neg hi, decide_eq_true hne, Bool.and_true]
  · rw [testBit_of_le (by omega), testBit_of_le (by omega)]
    have hne : ¬ (j = i ∧ i < 2 ^ 20) := by omega
    rw [decide_eq_true hne, Bool.and_true]

/-! ## The free set -/

/-- The frames a scan can return. -/
def freeFrames (s : Pmm) : Finset ℕ :=
  (Finset.range s.totalFrames).filter fun i => s.testBit i = false

@[simp] theorem mem_freeFrames {s : Pmm} {i : ℕ} :
    i ∈ s.freeFrames ↔ i < s.totalFrames ∧ s.testBit i = false := by
  simp [freeFrames]

/-- A frame in use is not free. -/
theorem notMem_freeFrames {s : Pmm} {i : ℕ} (h : s.testBit i = true) : i ∉ s.freeFrames := by
  intro hmem
  rw [mem_freeFrames, h] at hmem
  cases hmem.2

theorem lt_of_mem_freeFrames {s : Pmm} {i : ℕ} (h : i ∈ s.freeFrames) : i < 2 ^ 20 :=
  lt_of_testBit_eq_false (mem_freeFrames.mp h).2

theorem card_freeFrames_le (s : Pmm) : s.freeFrames.card ≤ s.totalFrames :=
  (Finset.card_filter_le _ _).trans (Finset.card_range _).le

@[simp] theorem freeFrames_record (s : Pmm) (c : PmmCall) :
    (s.record c).freeFrames = s.freeFrames := rfl

@[simp] theorem freeFrames_setBit (s : Pmm) (i : ℕ) :
    (s.setBit i).freeFrames = s.freeFrames.erase i := by
  ext j
  simp only [mem_freeFrames, totalFrames_setBit, testBit_setBit, Finset.mem_erase,
    Bool.or_eq_false_iff, decide_eq_false_iff_not]
  tauto

theorem mem_freeFrames_clearBit {s : Pmm} {i j : ℕ} : j ∈ (s.clearBit i).freeFrames ↔
    j ∈ s.freeFrames ∨ (j = i ∧ j < 2 ^ 20 ∧ j < s.totalFrames) := by
  simp only [mem_freeFrames, totalFrames_clearBit, testBit_clearBit, Bool.and_eq_false_iff,
    decide_eq_false_iff_not, not_not]
  constructor
  · rintro ⟨h1, h2 | ⟨rfl, h3⟩⟩
    exacts [.inl ⟨h1, h2⟩, .inr ⟨rfl, h3, h1⟩]
  · rintro (⟨h1, h2⟩ | ⟨rfl, h3, h1⟩)
    exacts [⟨h1, .inl h2⟩, ⟨h1, .inr ⟨rfl, h3⟩⟩]

/-- The first frame a scan finds free. -/
def firstFree (s : Pmm) : Option ℕ := (List.range s.totalFrames).find? fun i => !s.testBit i

theorem firstFree_eq_some {s : Pmm} {i : ℕ} :
    s.firstFree = some i ↔ i ∈ s.freeFrames ∧ ∀ j ∈ s.freeFrames, i ≤ j := by
  simp only [firstFree, List.find?_range_eq_some, List.mem_range, Bool.not_eq_true',
    Bool.not_not, mem_freeFrames]
  constructor
  · rintro ⟨hi, hlt, hmin⟩
    refine ⟨⟨hlt, hi⟩, ?_⟩
    intro j hj
    by_contra hij
    rw [hmin j (by omega)] at hj
    cases hj.2
  · rintro ⟨⟨hlt, hi⟩, hmin⟩
    refine ⟨hi, hlt, ?_⟩
    intro j hj
    by_contra hf
    have := hmin j ⟨by omega, by simpa using hf⟩
    omega

theorem firstFree_eq_none {s : Pmm} : s.firstFree = none ↔ s.freeFrames = ∅ := by
  simp only [firstFree, List.find?_range_eq_none, Bool.not_not, Finset.eq_empty_iff_forall_notMem,
    mem_freeFrames, not_and, Bool.not_eq_false]

end Pmm

open Pmm

/-! ## The operations -/

/-- The inner loop of `pmm_init`: `clear_bit(start_frame + f)` for `f = 0 .. pages - 1`, with the
64-bit sum. -/
def clearFrames (s : Pmm) (startFrame pages : ℕ) : Pmm :=
  (List.range pages).foldl (fun s f => s.clearBit ((startFrame + f) % 2 ^ 64)) s

/-- One round of the descriptor loop of `pmm_init`. -/
def markDescriptor (s : Pmm) (desc : EfiMemoryDescriptor) : Pmm :=
  if desc.type = efiConventionalMemory then
    clearFrames s (desc.physicalStart.toNat / 4096) desc.numberOfPages.toNat
  else s

/-- The descriptor loop of `pmm_init`, for the first `count` descriptors. -/
def markDescriptors (m : PhysMem) (info : BootInfo) (s : Pmm) (count : ℕ) : Pmm :=
  (List.range count).foldl (fun s i => markDescriptor s (info.descriptor m i)) s

/-- The last loop of `pmm_init`: `set_bit(f)` for `f = 0 .. n - 1`. -/
def reserveLow (s : Pmm) (n : ℕ) : Pmm :=
  (List.range n).foldl (fun s f => s.setBit f) s

/-- `pmm_init`. `none`: the division `mmap_size / desc_size` faults. -/
def pmmInit (m : PhysMem) (info : BootInfo) : Option Pmm :=
  if info.mmapDescSize = 0 then none
  else
    -- 1. all used
    let s : Pmm := { bitmap := fun _ => 0xFF, totalFrames := 2 ^ 20, calls := [] }
    -- 2. conventional memory is free
    let s := markDescriptors m info s info.descriptorCount
    -- 3. the first 8 MiB are used, `8 * 1024 * 1024 / PAGE_SIZE` frames
    some (reserveLow s 2048)

/-- `pmm_alloc_frame`: the address returned (`NULL` is `0`) and the new state. -/
def pmmAllocFrame (s : Pmm) : U64 × Pmm :=
  match s.firstFree with
  | some i => (frameAddr i, (s.setBit i).record (.alloc (frameAddr i)))
  | none => (0, s.record (.alloc 0))

/-- `pmm_free_frame`. -/
def pmmFreeFrame (s : Pmm) (frame : U64) : Pmm :=
  (s.clearBit (frameOf frame)).record (.free frame)

/-- `pmm_get_free_frames`. -/
def pmmGetFreeFrames (s : Pmm) : ℕ :=
  (List.range s.totalFrames).foldl (fun free i => if s.testBit i then free else free + 1) 0

/-! ## What the operations do to the free set -/

/-- **What `pmm_alloc_frame` can do**: nothing is free and it returns `NULL`, or it takes the least
free frame. -/
theorem pmmAllocFrame_cases (s : Pmm) :
    (s.freeFrames = ∅ ∧ pmmAllocFrame s = (0, s.record (.alloc 0))) ∨
    ∃ i ∈ s.freeFrames, (∀ j ∈ s.freeFrames, i ≤ j) ∧
      pmmAllocFrame s = (frameAddr i, (s.setBit i).record (.alloc (frameAddr i))) := by
  cases h : s.firstFree with
  | none => exact .inl ⟨firstFree_eq_none.mp h, by simp only [pmmAllocFrame, h]⟩
  | some i =>
    obtain ⟨hi, hmin⟩ := firstFree_eq_some.mp h
    exact .inr ⟨i, hi, hmin, by simp only [pmmAllocFrame, h]⟩

/-- The least free frame is the one `pmm_alloc_frame` returns. -/
theorem pmmAllocFrame_of_isLeast {s : Pmm} {i : ℕ} (hi : i ∈ s.freeFrames)
    (hmin : ∀ j ∈ s.freeFrames, i ≤ j) :
    pmmAllocFrame s = (frameAddr i, (s.setBit i).record (.alloc (frameAddr i))) := by
  simp only [pmmAllocFrame, firstFree_eq_some.mpr ⟨hi, hmin⟩]

/-- `pmm_alloc_frame` is first-fit allocation on the free set. -/
theorem freeFrames_pmmAllocFrame (s : Pmm) :
    (pmmAllocFrame s).2.freeFrames = FirstFit.takeFirst s.freeFrames := by
  rcases pmmAllocFrame_cases s with ⟨hempty, h⟩ | ⟨i, hi, hmin, h⟩
  · simp [h, hempty]
  · rw [h, FirstFit.takeFirst_eq_erase hi hmin]
    simp

theorem totalFrames_pmmAllocFrame (s : Pmm) :
    (pmmAllocFrame s).2.totalFrames = s.totalFrames := by
  rcases pmmAllocFrame_cases s with ⟨-, h⟩ | ⟨i, -, -, h⟩ <;> simp [h]

@[simp] theorem calls_pmmAllocFrame (s : Pmm) :
    (pmmAllocFrame s).2.calls = .alloc (pmmAllocFrame s).1 :: s.calls := by
  rcases pmmAllocFrame_cases s with ⟨-, h⟩ | ⟨i, -, -, h⟩ <;> simp [h]

/-- With frame 0 in use, `pmm_alloc_frame` fails only for want of a frame. -/
theorem freeFrames_eq_empty_of_null {s : Pmm} (h : (pmmAllocFrame s).1 = 0)
    (h0 : s.testBit 0 = true) : s.freeFrames = ∅ := by
  rcases pmmAllocFrame_cases s with ⟨hempty, -⟩ | ⟨i, hi, -, ha⟩
  · exact hempty
  · rw [ha] at h
    have hi0 : i ≠ 0 := by
      rintro rfl
      rw [(mem_freeFrames.mp hi).2] at h0
      cases h0
    exact absurd h (frameAddr_ne_zero (lt_of_mem_freeFrames hi) hi0)

theorem failures_pmmAllocFrame (s : Pmm) : (pmmAllocFrame s).2.failures =
    s.failures + if (pmmAllocFrame s).1 = 0 then 1 else 0 := by
  rw [failures, calls_pmmAllocFrame, List.count_cons]
  simp [failures]

theorem failures_le_pmmAllocFrame (s : Pmm) : s.failures ≤ (pmmAllocFrame s).2.failures := by
  rw [failures_pmmAllocFrame]
  exact Nat.le_add_right _ _

/-- A frame that is handed out is not free any more. -/
theorem card_freeFrames_pmmAllocFrame_lt {s : Pmm} (h : (pmmAllocFrame s).1 ≠ 0) :
    (pmmAllocFrame s).2.freeFrames.card < s.freeFrames.card := by
  rcases pmmAllocFrame_cases s with ⟨-, h'⟩ | ⟨i, hi, hmin, -⟩
  · simp [h'] at h
  · rw [freeFrames_pmmAllocFrame, FirstFit.takeFirst_eq_erase hi hmin]
    exact Finset.card_erase_lt_of_mem hi

/-- What is used stays used when a frame is taken. -/
theorem testBit_pmmAllocFrame_mono {s : Pmm} {j : ℕ} (h : s.testBit j = true) :
    (pmmAllocFrame s).2.testBit j = true := by
  rcases pmmAllocFrame_cases s with ⟨-, h'⟩ | ⟨i, -, -, h'⟩ <;> simp [h', h]

/-- **A frame that was handed out**: it was free, it is used now, and only its bit changed. -/
theorem pmmAllocFrame_ne_zero {s : Pmm} (h : (pmmAllocFrame s).1 ≠ 0) :
    ∃ i, i < 2 ^ 20 ∧ i ≠ 0 ∧ (pmmAllocFrame s).1 = frameAddr i ∧ s.testBit i = false ∧
      ∀ j, (pmmAllocFrame s).2.testBit j = (s.testBit j || decide (j = i)) := by
  rcases pmmAllocFrame_cases s with ⟨-, h'⟩ | ⟨i, hi, -, h'⟩
  · simp [h'] at h
  · have h0 : i ≠ 0 := by
      rintro rfl
      simp [h', frameAddr] at h
    exact ⟨i, lt_of_mem_freeFrames hi, h0, by rw [h'], (mem_freeFrames.mp hi).2,
      fun j => by simp [h']⟩

@[simp] theorem testBit_pmmFreeFrame (s : Pmm) (a : U64) (j : ℕ) : (pmmFreeFrame s a).testBit j =
    (s.testBit j && decide (¬ (j = frameOf a ∧ frameOf a < 2 ^ 20))) := by
  rw [pmmFreeFrame, testBit_record, testBit_clearBit]

@[simp] theorem totalFrames_pmmFreeFrame (s : Pmm) (a : U64) :
    (pmmFreeFrame s a).totalFrames = s.totalFrames := by
  simp [pmmFreeFrame]

@[simp] theorem calls_pmmFreeFrame (s : Pmm) (a : U64) :
    (pmmFreeFrame s a).calls = .free a :: s.calls := by
  simp [pmmFreeFrame]

@[simp] theorem failures_pmmFreeFrame (s : Pmm) (a : U64) :
    (pmmFreeFrame s a).failures = s.failures := by
  simp [failures]

theorem mem_freeFrames_pmmFreeFrame {s : Pmm} {a : U64} {j : ℕ} :
    j ∈ (pmmFreeFrame s a).freeFrames ↔
      j ∈ s.freeFrames ∨ (j = frameOf a ∧ j < 2 ^ 20 ∧ j < s.totalFrames) := by
  rw [pmmFreeFrame, freeFrames_record, mem_freeFrames_clearBit]

/-- `pmm_get_free_frames` counts the free set. -/
theorem pmmGetFreeFrames_eq_card (s : Pmm) : pmmGetFreeFrames s = s.freeFrames.card := by
  have key : ∀ n, (List.range n).foldl (fun free i => if s.testBit i then free else free + 1) 0
      = ((Finset.range n).filter fun i => s.testBit i = false).card := by
    intro n
    induction n with
    | zero => rfl
    | succ n ih =>
      rw [List.range_succ, List.foldl_concat, ih, Finset.range_add_one, Finset.filter_insert]
      cases hn : s.testBit n with
      | true => simp
      | false => simp [Finset.card_insert_of_notMem]
  exact key s.totalFrames

/-! ## The free set after `pmm_init` -/

/-- The frame `f` is one of the `number_of_pages` frames of a descriptor (frame
numbers are 64-bit). -/
def EfiMemoryDescriptor.Covers (desc : EfiMemoryDescriptor) (f : ℕ) : Prop :=
  ∃ k < desc.numberOfPages.toNat, (desc.physicalStart.toNat / 4096 + k) % 2 ^ 64 = f

/-- The frame `f` is in a conventional descriptor of the memory map. -/
def Conventional (m : PhysMem) (info : BootInfo) (f : ℕ) : Prop :=
  ∃ i < info.descriptorCount, (info.descriptor m i).type = efiConventionalMemory ∧
    (info.descriptor m i).Covers f

/-- **The frames the allocator manages**: conventional, at or above 8 MiB, below 4 GiB. -/
def Allocatable (m : PhysMem) (info : BootInfo) (f : ℕ) : Prop :=
  2048 ≤ f ∧ f < 2 ^ 20 ∧ Conventional m info f

@[simp] theorem totalFrames_clearFrames (s : Pmm) (start n : ℕ) :
    (clearFrames s start n).totalFrames = s.totalFrames := by
  induction n with
  | zero => rfl
  | succ n ih =>
    rw [clearFrames, List.range_succ, List.foldl_concat, totalFrames_clearBit]
    exact ih

/-- The inner loop frees the frames it visits that are in bounds. -/
theorem testBit_clearFrames_eq_false (s : Pmm) (start n j : ℕ) :
    (clearFrames s start n).testBit j = false ↔
      s.testBit j = false ∨ (j < 2 ^ 20 ∧ ∃ k < n, (start + k) % 2 ^ 64 = j) := by
  induction n with
  | zero => simp [clearFrames]
  | succ n ih =>
    rw [clearFrames, List.range_succ, List.foldl_concat, testBit_clearBit, Bool.and_eq_false_iff,
      decide_eq_false_iff_not, not_not, ← clearFrames, ih]
    constructor
    · rintro ((h | ⟨hj, k, hk, rfl⟩) | ⟨rfl, hlt⟩)
      · exact .inl h
      · exact .inr ⟨hj, k, by omega, rfl⟩
      · exact .inr ⟨hlt, n, by omega, rfl⟩
    · rintro (h | ⟨hj, k, hk, rfl⟩)
      · exact .inl (.inl h)
      · rcases Nat.lt_succ_iff_lt_or_eq.mp hk with hk | rfl
        · exact .inl (.inr ⟨hj, k, hk, rfl⟩)
        · exact .inr ⟨rfl, hj⟩

@[simp] theorem totalFrames_markDescriptor (s : Pmm) (desc : EfiMemoryDescriptor) :
    (markDescriptor s desc).totalFrames = s.totalFrames := by
  unfold markDescriptor
  split <;> simp

/-- One round of the descriptor loop frees the frames of a conventional descriptor. -/
theorem testBit_markDescriptor_eq_false (s : Pmm) (desc : EfiMemoryDescriptor) (j : ℕ) :
    (markDescriptor s desc).testBit j = false ↔
      s.testBit j = false ∨ (j < 2 ^ 20 ∧ desc.type = efiConventionalMemory ∧ desc.Covers j) := by
  unfold markDescriptor
  split
  · next h =>
    rw [testBit_clearFrames_eq_false]
    simp [h, EfiMemoryDescriptor.Covers]
  · next h => simp [h]

@[simp] theorem totalFrames_markDescriptors (m : PhysMem) (info : BootInfo) (s : Pmm) (n : ℕ) :
    (markDescriptors m info s n).totalFrames = s.totalFrames := by
  induction n with
  | zero => rfl
  | succ n ih =>
    rw [markDescriptors, List.range_succ, List.foldl_concat, totalFrames_markDescriptor]
    exact ih

/-- The descriptor loop of `pmm_init` frees the frames of the conventional descriptors it visits. -/
theorem testBit_markDescriptors_eq_false (m : PhysMem) (info : BootInfo) (s : Pmm) (n j : ℕ) :
    (markDescriptors m info s n).testBit j = false ↔ s.testBit j = false ∨
      (j < 2 ^ 20 ∧ ∃ i < n, (info.descriptor m i).type = efiConventionalMemory ∧
        (info.descriptor m i).Covers j) := by
  induction n with
  | zero => simp [markDescriptors]
  | succ n ih =>
    rw [markDescriptors, List.range_succ, List.foldl_concat, testBit_markDescriptor_eq_false,
      ← markDescriptors, ih]
    constructor
    · rintro ((h | ⟨hj, i, hi, hd⟩) | ⟨hj, hd⟩)
      · exact .inl h
      · exact .inr ⟨hj, i, by omega, hd⟩
      · exact .inr ⟨hj, n, by omega, hd⟩
    · rintro (h | ⟨hj, i, hi, hd⟩)
      · exact .inl (.inl h)
      · rcases Nat.lt_succ_iff_lt_or_eq.mp hi with hi | rfl
        · exact .inl (.inr ⟨hj, i, hi, hd⟩)
        · exact .inr ⟨hj, hd⟩

@[simp] theorem totalFrames_reserveLow (s : Pmm) (n : ℕ) :
    (reserveLow s n).totalFrames = s.totalFrames := by
  induction n with
  | zero => rfl
  | succ n ih =>
    rw [reserveLow, List.range_succ, List.foldl_concat, totalFrames_setBit]
    exact ih

/-- The last loop of `pmm_init` marks the frames below `n` used. -/
@[simp] theorem testBit_reserveLow (s : Pmm) (n j : ℕ) :
    (reserveLow s n).testBit j = (s.testBit j || decide (j < n)) := by
  induction n with
  | zero => simp [reserveLow]
  | succ n ih =>
    rw [reserveLow, List.range_succ, List.foldl_concat, testBit_setBit, ← reserveLow, ih,
      Bool.or_assoc, ← Bool.decide_or]
    congr 2
    exact propext (by omega)

theorem pmmInit_of_ne_zero {m : PhysMem} {info : BootInfo} (h : info.mmapDescSize ≠ 0) :
    pmmInit m info = some (reserveLow (markDescriptors m info
      { bitmap := fun _ => 0xFF, totalFrames := 2 ^ 20, calls := [] } info.descriptorCount) 2048) :=
  if_neg h

theorem pmmInit_eq_some {m : PhysMem} {info : BootInfo} {s : Pmm} (h : pmmInit m info = some s) :
    s = reserveLow (markDescriptors m info
      { bitmap := fun _ => 0xFF, totalFrames := 2 ^ 20, calls := [] }
        info.descriptorCount) 2048 := by
  by_cases hd : info.mmapDescSize = 0
  · rw [pmmInit, if_pos hd] at h
    cases h
  · rw [pmmInit_of_ne_zero hd] at h
    exact (Option.some.inj h).symm

theorem totalFrames_pmmInit {m : PhysMem} {info : BootInfo} {s : Pmm}
    (h : pmmInit m info = some s) : s.totalFrames = 2 ^ 20 := by
  rw [pmmInit_eq_some h, totalFrames_reserveLow, totalFrames_markDescriptors]

/-- A bitmap of `0xFF` bytes has every frame in use. -/
theorem testBit_allUsed (n : ℕ) (calls : List PmmCall) (j : ℕ) :
    Pmm.testBit { bitmap := fun _ => 0xFF, totalFrames := n, calls := calls } j = true := by
  by_cases hj : j < 2 ^ 20
  · rw [testBit_eq_getLsbD hj]
    have : ∀ k < 8, BitVec.getLsbD 0xFF#8 k = true := by decide
    exact this (j % 8) (Nat.mod_lt j (by decide))
  · exact testBit_of_le (by omega)

/-- **After `pmm_init` exactly the allocatable frames are free.** -/
theorem mem_freeFrames_pmmInit {m : PhysMem} {info : BootInfo} {s : Pmm}
    (h : pmmInit m info = some s) (f : ℕ) : f ∈ s.freeFrames ↔ Allocatable m info f := by
  rw [mem_freeFrames, totalFrames_pmmInit h, pmmInit_eq_some h, testBit_reserveLow,
    Bool.or_eq_false_iff, testBit_markDescriptors_eq_false, testBit_allUsed, Allocatable,
    Conventional]
  simp only [Bool.true_eq_false, false_or, decide_eq_false_iff_not]
  constructor
  · rintro ⟨h1, ⟨-, h2⟩, h3⟩
    exact ⟨by omega, h1, h2⟩
  · rintro ⟨h1, h2, h3⟩
    exact ⟨h2, ⟨h2, h3⟩, by omega⟩

/-! ## A machine with 512 MiB -/

namespace Sample

/-- A memory map with one descriptor, at `0x1000`: conventional memory from 0 to 512 MiB. -/
def memory : PhysMem := fun a => if a = 0x1000 then 7 else if a = 0x101a then 2 else 0

/-- The boot record of that machine. -/
def info : BootInfo where
  magic := 0xB007B007
  framebuffer := 0
  fbWidth := 0
  fbHeight := 0
  fbPitch := 0
  fbFormat := 0
  mmap := 0x1000
  mmapSize := 48
  mmapDescSize := 48
  fwVendor := fun _ => 0
  fwRevision := 0

/-- The allocator after `pmm_init` on that machine. -/
def pmm : Pmm := reserveLow (markDescriptors memory info
  { bitmap := fun _ => 0xFF, totalFrames := 2 ^ 20, calls := [] } info.descriptorCount) 2048

theorem pmmInit_eq : pmmInit memory info = some pmm :=
  pmmInit_of_ne_zero (by decide)

-- Sealed: evaluating the bitmap of `2 ^ 17` bytes never ends well.
attribute [irreducible] pmm

/-- One conventional descriptor for the first `n` frames. -/
theorem allocatable_iff_of {m : PhysMem} {n : ℕ}
    (htype : (info.descriptor m 0).type = efiConventionalMemory)
    (hstart : (info.descriptor m 0).physicalStart.toNat = 0)
    (hpages : (info.descriptor m 0).numberOfPages.toNat = n) (hn : n ≤ 2 ^ 20) (f : ℕ) :
    Allocatable m info f ↔ 2048 ≤ f ∧ f < n := by
  have hcount : info.descriptorCount = 1 := by decide
  rw [Allocatable, Conventional, hcount]
  constructor
  · rintro ⟨hlo, hhi, i, hi, -, k, hk, hf⟩
    obtain rfl : i = 0 := by omega
    rw [hstart] at hf
    rw [hpages] at hk
    omega
  · rintro ⟨hlo, hhi⟩
    refine ⟨hlo, by omega, 0, Nat.one_pos, htype, f, by omega, ?_⟩
    rw [hstart]
    omega

theorem allocatable_iff (f : ℕ) : Allocatable memory info f ↔ 2048 ≤ f ∧ f < 131072 :=
  allocatable_iff_of (by decide) (by decide) (by decide) (by omega) f

theorem mem_freeFrames_pmm (f : ℕ) : f ∈ pmm.freeFrames ↔ 2048 ≤ f ∧ f < 131072 := by
  rw [mem_freeFrames_pmmInit pmmInit_eq, allocatable_iff]

theorem freeFrames_pmm : pmm.freeFrames = Finset.Ico 2048 131072 := by
  ext f
  rw [mem_freeFrames_pmm, Finset.mem_Ico]

/-- The frames below 8 MiB are in use. -/
theorem testBit_pmm {f : ℕ} (h : f < 2048) : pmm.testBit f = true := by
  by_contra hc
  rw [Bool.not_eq_true] at hc
  have := (mem_freeFrames_pmm f).mp
    (mem_freeFrames.mpr ⟨by rw [totalFrames_pmmInit pmmInit_eq]; omega, hc⟩)
  omega

/-- The first frame handed out is the one at 8 MiB. -/
theorem pmmAllocFrame_pmm : pmmAllocFrame pmm =
    (frameAddr 2048, (pmm.setBit 2048).record (.alloc (frameAddr 2048))) :=
  pmmAllocFrame_of_isLeast ((mem_freeFrames_pmm 2048).mpr (by omega))
    fun j hj => ((mem_freeFrames_pmm j).mp hj).1

end Sample

end OS44
