import OS44.Mem.Alloc

/-! # The frames of one heap block (`mem_alloc`, `mem_free`)

`mem_alloc` takes the lowest free frames, as many as the block has pages, as long as they last: it
does not look whether the frames behind the first one were there. So a call takes all the frames of
its block or none exactly when the frames suffice (`mem_alloc_exact_iff`), and `mem_free`, which
gives back consecutive frames, undoes it exactly when the frames taken were consecutive
(`mem_alloc_free_restores`). -/

namespace OS44

open Pmm FirstFit

variable {s : MemState} {size : U64} {i n j : ℕ}

/-! ## Bits -/

/-- The bits of the bitmap are the states of the frames. -/
theorem bitmap_eq_iff {s t : Pmm} :
    s.bitmap = t.bitmap ↔ ∀ j < 2 ^ 20, s.testBit j = t.testBit j := by
  constructor
  · intro h j hj
    rw [testBit_eq_getLsbD hj, testBit_eq_getLsbD hj, h]
  · intro h
    funext b
    apply BitVec.eq_of_getLsbD_eq
    intro k hk
    have hb := b.isLt
    have hj : b.val * 8 + k < 2 ^ 20 := by omega
    have := h _ hj
    rw [testBit_eq_getLsbD hj, testBit_eq_getLsbD hj] at this
    -- bit `k` of byte `b` belongs to frame `8 b + k`
    have hbyte : byteIndex (b.val * 8 + k) hj = b := Fin.ext (by simp only [byteIndex]; omega)
    have hbit : (b.val * 8 + k) % 8 = k := by omega
    rwa [hbyte, hbit] at this

/-- Frames that are taken one after another: the lowest free ones. -/
theorem testBit_takeFrames (s : Pmm) (n j : ℕ) :
    (takeFrames s n).testBit j = (s.testBit j || decide (j ∈ lowestItems n s.freeFrames)) := by
  induction n generalizing s with
  | zero => simp [takeFrames]
  | succ n ih =>
    rw [takeFrames, ih]
    rcases pmmAllocFrame_cases s with ⟨hempty, h⟩ | ⟨i, hi, hmin, h⟩
    · rw [h, freeFrames_record, hempty, testBit_record]
      simp
    · rw [h, freeFrames_record, freeFrames_setBit, testBit_record, testBit_setBit,
        lowestItems_succ hi hmin, Bool.or_assoc, ← Bool.decide_or]
      simp only [Finset.mem_insert]

/-- Freeing `n` pages from the frame `i` clears the bits `i .. i + n - 1` that there are. -/
theorem testBit_freeRange (s : Pmm) (h : i + n ≤ 2 ^ 52) (j : ℕ) :
    (freeRange s (frameAddr i) n).testBit j =
      (s.testBit j && !decide (i ≤ j ∧ j < i + n ∧ j < 2 ^ 20)) := by
  induction n with
  | zero =>
    have hnone : ¬ (i ≤ j ∧ j < i + 0 ∧ j < 2 ^ 20) := by omega
    rw [decide_eq_false hnone, Bool.not_false, Bool.and_true]
    rfl
  | succ n ih =>
    rw [freeRange, List.range_succ, List.foldl_concat, ← freeRange, testBit_pmmFreeFrame,
      ih (by omega), frameOf_frameAddr_add (by omega), Bool.and_assoc]
    congr 1
    rw [← decide_not, ← decide_not, ← Bool.decide_and]
    exact decide_eq_decide.mpr (by omega)

/-- There are at most `2^20` free frames. -/
theorem card_freeFrames_le_two_pow (s : Pmm) : s.freeFrames.card ≤ 2 ^ 20 := by
  have hsub : s.freeFrames ⊆ Finset.range (2 ^ 20) := fun f hf =>
    Finset.mem_range.mpr (lt_of_mem_freeFrames hf)
  exact (Finset.card_le_card hsub).trans (Finset.card_range _).le

/-! ## All frames or none -/

/-- **What `mem_alloc` must do**: return `NULL` and leave the bitmap alone, or take exactly as many
free frames as the block has pages, no others, and note their number in the header; and return
`NULL` when there are too few of them or the size is beyond 64 bits. -/
structure MemAllocOk (s : MemState) (size : U64) : Prop where
  all_or_none :
    ((memAlloc s size).1 = 0 ∧ (memAlloc s size).2.pmm.bitmap = s.pmm.bitmap) ∨
    ((memAlloc s size).1 ≠ 0 ∧
      (load64 (memAlloc s size).2.mem ((memAlloc s size).1 - 8)).toNat = pagesFor size ∧
      ∃ T ⊆ s.pmm.freeFrames, T.card = pagesFor size ∧
        ∀ j, (memAlloc s size).2.pmm.testBit j = (s.pmm.testBit j || decide (j ∈ T)))
  too_few : s.pmm.freeFrames.card < pagesFor size → (memAlloc s size).1 = 0
  too_long : 2 ^ 64 ≤ size.toNat + 8 → (memAlloc s size).1 = 0

/-- With nothing free `mem_alloc` changes nothing. -/
theorem memAllocOk_of_empty (h : s.pmm.freeFrames = ∅) (size : U64) : MemAllocOk s size := by
  have hcall : memAlloc s size = (0, { s with pmm := s.pmm.record (.alloc 0) }) := by
    rcases pmmAllocFrame_cases s.pmm with ⟨-, ha⟩ | ⟨i, hi, -, -⟩
    · simp only [memAlloc, ha, if_true]
    · rw [h] at hi
      simp at hi
  have hnull : (memAlloc s size).1 = 0 := by rw [hcall]
  exact ⟨.inl ⟨hnull, by rw [hcall]; rfl⟩, fun _ => hnull, fun _ => hnull⟩

/-- What `mem_alloc` does when some frame is free and frame 0 is not: it puts the header in the
lowest free frame and takes what there is, up to the number of pages it computes in 64 bits. -/
theorem memAlloc_eq (hi : i ∈ s.pmm.freeFrames) (hmin : ∀ j ∈ s.pmm.freeFrames, i ≤ j)
    (h0 : i ≠ 0) (size : U64) :
    (memAlloc s size).1 = frameAddr i + 8 ∧
    (memAlloc s size).2.mem = store64 s.mem (frameAddr i) ((size + 8 + 4096 - 1) / 4096) ∧
    (memAlloc s size).2.pmm = takeFrames ((s.pmm.setBit i).record (.alloc (frameAddr i)))
      (((size + 8 + 4096 - 1) / 4096 : U64).toNat - 1) := by
  have hne : frameAddr i ≠ 0 := frameAddr_ne_zero (lt_of_mem_freeFrames hi) h0
  simp only [memAlloc, pmmAllocFrame_of_isLeast hi hmin, if_neg hne, and_self]

/-- A block is not at `NULL`. -/
theorem frameAddr_add_eight_ne_zero (h : i < 2 ^ 20) : frameAddr i + 8 ≠ 0 := by
  intro h0
  have := congrArg BitVec.toNat h0
  rw [toNat_frameAddr_add_eight h] at this
  simp at this

/-- **When the frames suffice**, the block gets the lowest free ones, the first of them with the
header. -/
theorem memAlloc_of_room (h0 : 0 ∉ s.pmm.freeFrames)
    (hroom : pagesFor size ≤ s.pmm.freeFrames.card) :
    ∃ i ∈ s.pmm.freeFrames, (∀ j ∈ s.pmm.freeFrames, i ≤ j) ∧
      (memAlloc s size).1 = frameAddr i + 8 ∧
      (memAlloc s size).2.mem = store64 s.mem (frameAddr i) (BitVec.ofNat 64 (pagesFor size)) ∧
      ∀ j, (memAlloc s size).2.pmm.testBit j =
        (s.pmm.testBit j || decide (j ∈ lowestItems (pagesFor size) s.pmm.freeFrames)) := by
  have hpos := pagesFor_pos size
  have hbound := card_freeFrames_le_two_pow s.pmm
  have hsize : size.toNat + 8 + 4095 < 2 ^ 64 := by
    unfold pagesFor at hroom
    omega
  have hne : s.pmm.freeFrames.Nonempty := Finset.card_pos.mp (by omega)
  have hi := s.pmm.freeFrames.min'_mem hne
  have hmin : ∀ j ∈ s.pmm.freeFrames, s.pmm.freeFrames.min' hne ≤ j := fun j hj =>
    s.pmm.freeFrames.min'_le j hj
  obtain ⟨hptr, hmem, hpmm⟩ := memAlloc_eq hi hmin (fun h => h0 (h ▸ hi)) size
  refine ⟨_, hi, hmin, hptr, ?_, ?_⟩
  · rw [hmem, ← toNat_pages hsize, BitVec.ofNat_toNat, BitVec.setWidth_eq]
  · -- the frame of the header is the lowest, the others are the lowest of the rest
    intro j
    obtain ⟨k, hk⟩ : ∃ k, pagesFor size = k + 1 := ⟨pagesFor size - 1, by omega⟩
    rw [hpmm, toNat_pages hsize, hk, Nat.add_sub_cancel, testBit_takeFrames, freeFrames_record,
      freeFrames_setBit, testBit_record, testBit_setBit, lowestItems_succ hi hmin, Bool.or_assoc,
      ← Bool.decide_or]
    simp only [Finset.mem_insert]

/-- When the frames suffice the call is right. -/
theorem memAllocOk_of_room (h0 : 0 ∉ s.pmm.freeFrames)
    (hroom : pagesFor size ≤ s.pmm.freeFrames.card) : MemAllocOk s size := by
  obtain ⟨i, hi, -, hptr, hmem, hbits⟩ := memAlloc_of_room h0 hroom
  have hbound := card_freeFrames_le_two_pow s.pmm
  have hne : (memAlloc s size).1 ≠ 0 := by
    rw [hptr]
    exact frameAddr_add_eight_ne_zero (lt_of_mem_freeFrames hi)
  refine ⟨.inr ⟨hne, ?_, lowestItems (pagesFor size) s.pmm.freeFrames, lowestItems_subset _ _,
    card_lowestItems hroom, hbits⟩, ?_, ?_⟩
  · rw [hptr, frameAddr_add_eight_sub, hmem, load64_store64, BitVec.toNat_ofNat,
      Nat.mod_eq_of_lt (by omega)]
  · intro h
    omega
  · -- such a block has more pages than there are frames
    intro h
    unfold pagesFor at hroom
    omega

/-- **When the frames do not suffice** the call is wrong: it returns a block all the same. -/
theorem not_memAllocOk_of_few (hne : s.pmm.freeFrames.Nonempty) (h0 : 0 ∉ s.pmm.freeFrames)
    (hfew : s.pmm.freeFrames.card < pagesFor size) : ¬ MemAllocOk s size := by
  intro h
  have hi := s.pmm.freeFrames.min'_mem hne
  have hptr := (memAlloc_eq hi (fun j hj => s.pmm.freeFrames.min'_le j hj)
    (fun h => h0 (h ▸ hi)) size).1
  have hnull := h.too_few hfew
  rw [hptr] at hnull
  exact frameAddr_add_eight_ne_zero (lt_of_mem_freeFrames hi) hnull

/-- With frame 0 free the call is wrong: it takes that frame and returns its address, `NULL`. -/
theorem not_memAllocOk_of_zero_free (h0 : 0 ∈ s.pmm.freeFrames) : ¬ MemAllocOk s size := by
  have hzero : frameAddr 0 = 0 := by decide
  have hcall : memAlloc s size =
      (0, { s with pmm := (s.pmm.setBit 0).record (.alloc (frameAddr 0)) }) := by
    simp only [memAlloc, pmmAllocFrame_of_isLeast h0 fun j _ => Nat.zero_le j, hzero, if_true]
  intro h
  rcases h.all_or_none with ⟨-, hbits⟩ | ⟨hne, -⟩
  · rw [hcall] at hbits
    have := bitmap_eq_iff.mp hbits 0 (by omega)
    rw [testBit_record, testBit_setBit, (mem_freeFrames.mp h0).2] at this
    simp at this
  · exact hne (by rw [hcall])

/-- **`mem_alloc` takes all the frames of a block or none exactly when** nothing is free, or frame 0
is in use and there are as many free frames as the block has pages; for every state of the frame
allocator and every size. -/
theorem mem_alloc_exact_iff (s : MemState) (size : U64) : MemAllocOk s size ↔
    s.pmm.freeFrames = ∅ ∨
      (0 ∉ s.pmm.freeFrames ∧ pagesFor size ≤ s.pmm.freeFrames.card) := by
  constructor
  · intro h
    by_contra hc
    rw [not_or, not_and, not_le] at hc
    have hne : s.pmm.freeFrames.Nonempty := Finset.nonempty_iff_ne_empty.mpr hc.1
    by_cases h0 : 0 ∈ s.pmm.freeFrames
    · exact not_memAllocOk_of_zero_free h0 h
    · exact not_memAllocOk_of_few hne h0 (hc.2 h0) h
  · rintro (hempty | ⟨h0, hroom⟩)
    · exact memAllocOk_of_empty hempty size
    · exact memAllocOk_of_room h0 hroom

/-- **A block that is not there.** On the 512 MiB machine `mem_alloc` of 1 GiB returns a block, and
so does a size that overflows when the header is added. -/
theorem mem_alloc_hands_out_short_block :
    ¬ MemAllocOk ⟨Sample.pmm, Sample.memory⟩ 0x40000000 ∧
    ¬ MemAllocOk ⟨Sample.pmm, Sample.memory⟩ 0xFFFFFFFFFFFFFFF8 := by
  have hcard : Sample.pmm.freeFrames.card = 129024 := by rw [Sample.freeFrames_pmm]; simp
  have hne : Sample.pmm.freeFrames.Nonempty := Finset.card_pos.mp (by omega)
  have h0 : 0 ∉ Sample.pmm.freeFrames := fun h => by
    have := (Sample.mem_freeFrames_pmm 0).mp h
    omega
  have hpages₁ : pagesFor 0x40000000 = 262145 := by decide
  have hpages₂ : pagesFor 0xFFFFFFFFFFFFFFF8 = 4503599627370496 := by decide
  constructor
  · exact not_memAllocOk_of_few hne h0 (by show _ < _; rw [hcard, hpages₁]; omega)
  · exact not_memAllocOk_of_few hne h0 (by show _ < _; rw [hcard, hpages₂]; omega)

/-! ## Freeing a block right away -/

/-- The header still says how many pages `mem_free` has to give back. -/
theorem pmm_memFree_memAlloc (hi : i < 2 ^ 20) (hptr : (memAlloc s size).1 = frameAddr i + 8)
    (hmem : (memAlloc s size).2.mem = store64 s.mem (frameAddr i) (BitVec.ofNat 64 (pagesFor size)))
    (hpages : pagesFor size ≤ 2 ^ 20) :
    (memFree (memAlloc s size).2 (memAlloc s size).1).pmm =
      freeRange (memAlloc s size).2.pmm (frameAddr i) (pagesFor size) := by
  have hheader : (load64 (memAlloc s size).2.mem (frameAddr i)).toNat = pagesFor size := by
    rw [hmem, load64_store64, BitVec.toNat_ofNat, Nat.mod_eq_of_lt (by omega)]
  rw [memFree, hptr, if_neg (frameAddr_add_eight_ne_zero hi), frameAddr_add_eight_sub]
  simp only [hheader]

/-- **`mem_free` undoes `mem_alloc` exactly when the frames taken are consecutive**, for every state
of the frame allocator in which the frames suffice. -/
theorem mem_alloc_free_restores (s : MemState) (size : U64)
    (hroom : pagesFor size ≤ s.pmm.freeFrames.card) (h0 : 0 ∉ s.pmm.freeFrames) :
    (memFree (memAlloc s size).2 (memAlloc s size).1).pmm.bitmap = s.pmm.bitmap ↔
      ∃ i, lowestItems (pagesFor size) s.pmm.freeFrames = Finset.Ico i (i + pagesFor size) := by
  obtain ⟨i, hi, hmin, hptr, hmem, hbits⟩ := memAlloc_of_room h0 hroom
  have hlt := lt_of_mem_freeFrames hi
  have hpos := pagesFor_pos size
  have hpages : pagesFor size ≤ 2 ^ 20 := hroom.trans (card_freeFrames_le_two_pow _)
  rw [bitmap_eq_iff]
  simp only [pmm_memFree_memAlloc hlt hptr hmem hpages,
    testBit_freeRange _ (show i + pagesFor size ≤ 2 ^ 52 by omega), hbits]
  constructor
  · -- every frame taken is given back, so it is one of the consecutive ones
    intro hall
    have hsub : lowestItems (pagesFor size) s.pmm.freeFrames ⊆
        Finset.Ico i (i + pagesFor size) := by
      intro j hj
      have hjfree := lowestItems_subset _ _ hj
      have := hall j (lt_of_mem_freeFrames hjfree)
      rw [(mem_freeFrames.mp hjfree).2, decide_eq_true hj] at this
      have hgiven : i ≤ j ∧ j < i + pagesFor size ∧ j < 2 ^ 20 := by simpa using this
      exact Finset.mem_Ico.mpr ⟨hgiven.1, hgiven.2.1⟩
    refine ⟨i, Finset.eq_of_subset_of_card_le hsub ?_⟩
    rw [Nat.card_Ico, card_lowestItems hroom, Nat.add_sub_cancel_left]
  · rintro ⟨k, hk⟩ j hj
    have hmemIco : j ∈ lowestItems (pagesFor size) s.pmm.freeFrames ↔
        i ≤ j ∧ j < i + pagesFor size := by
      rw [hk, eq_of_lowestItems_eq_Ico hi hmin hpos hk, Finset.mem_Ico]
    by_cases hjT : j ∈ lowestItems (pagesFor size) s.pmm.freeFrames
    · have hrange := hmemIco.mp hjT
      have hwas := (mem_freeFrames.mp (lowestItems_subset _ _ hjT)).2
      rw [hwas, decide_eq_true hjT, decide_eq_true ⟨hrange.1, hrange.2, hj⟩]
      rfl
    · have hrange : ¬ (i ≤ j ∧ j < i + pagesFor size ∧ j < 2 ^ 20) := fun h =>
        hjT (hmemIco.mpr ⟨h.1, h.2.1⟩)
      rw [decide_eq_false hjT, decide_eq_false hrange, Bool.or_false, Bool.not_false, Bool.and_true]

/-- On the 512 MiB machine a block of three pages is undone. -/
theorem mem_alloc_free_restores_sample :
    (memFree (memAlloc ⟨Sample.pmm, Sample.memory⟩ 8192).2
      (memAlloc ⟨Sample.pmm, Sample.memory⟩ 8192).1).pmm.bitmap = Sample.pmm.bitmap := by
  have hcard : Sample.pmm.freeFrames.card = 129024 := by rw [Sample.freeFrames_pmm]; simp
  have hthree : pagesFor 8192 = 3 := by decide
  have h0 : 0 ∉ Sample.pmm.freeFrames := fun h => by
    have := (Sample.mem_freeFrames_pmm 0).mp h
    omega
  refine (mem_alloc_free_restores ⟨Sample.pmm, Sample.memory⟩ 8192
    (by show _ ≤ Sample.pmm.freeFrames.card; rw [hcard, hthree]; omega) h0).mpr ⟨2048, ?_⟩
  show lowestItems (pagesFor 8192) Sample.pmm.freeFrames = Finset.Ico 2048 (2048 + pagesFor 8192)
  rw [hthree, Sample.freeFrames_pmm]
  exact lowestItems_Ico (by omega)

end OS44
