import OS44.Library.PoolList
import OS44.Mem.Paging

/-! # The virtual memory manager (`vmm.c`)

`vmm_alloc` maps fresh frames at the next free virtual addresses and notes the area in a list whose
nodes come from a static pool of 128; `vmm_free` looks an area up by its address, unmaps its pages
and gives back their frames. Like the paging code the translation is for any storage
of page tables. -/

namespace OS44

open PoolList TableMemory

/-- `VMA`; `next` is a pointer into the pool `vma_nodes`. -/
structure VMA where
  vaddr : U64
  size : U64
  next : Option (Fin 128)
  deriving DecidableEq, Repr

/-- The static variables of `vmm.c` and the paging state. `handed` is a ghost record of the pages
mapped by `vmm_alloc` with the frames it handed out for them, newest first. -/
structure Vmm (M : Type) where
  paging : Paging M
  /-- `vma_nodes`. -/
  vmaNodes : Fin 128 → VMA
  /-- `vma_count`. -/
  vmaCount : ℕ
  /-- `vma_list`. -/
  vmaList : Option (Fin 128)
  /-- `next_vaddr`. -/
  nextVaddr : U64
  /-- Ghost: the calls `paging_map(vaddr, frame)` made by `vmm_alloc`. -/
  handed : List (U64 × U64)

section Code

variable {M : Type} [TableMemory M]

/-- The static variables at boot. -/
def vmmBoot (paging : Paging M) : Vmm M where
  paging := paging
  vmaNodes := fun _ => { vaddr := 0, size := 0, next := none }
  vmaCount := 0
  vmaList := none
  nextVaddr := 0x10000000
  handed := []

/-- `vmm_init`. -/
def vmmInit (s : Vmm M) : Vmm M := { s with vmaList := none }

/-- One round of the loop of `vmm_alloc`: the frame (`NULL` is `0`) and the new state. `error`: the
call of `paging_map` dereferences a null table. -/
def allocPage (s : Paging M) (vaddr : U64) : Except (Paging M) (U64 × Paging M) :=
  let (paddr, pmm) := pmmAllocFrame s.pmm
  let s := { s with pmm := pmm }
  if paddr = 0 then .ok (0, s)
  else
    match pagingMap s vaddr paddr with
    | .error s => .error s
    | .ok s => .ok (paddr, s)

/-- The loop of `vmm_alloc` from round `i` on, with `n` rounds to go; `false` when it gives up. -/
def allocPages (vaddr : U64) : ℕ → ℕ → Vmm M → Except (Vmm M) (Bool × Vmm M)
  | _, 0, s => .ok (true, s)
  | i, n + 1, s =>
    match allocPage s.paging (vaddr + BitVec.ofNat 64 i * 4096) with
    | .error p => .error { s with paging := p }
    | .ok (paddr, p) =>
      if paddr = 0 then .ok (false, { s with paging := p })
      else
        allocPages vaddr (i + 1) n { s with
          paging := p
          handed := (vaddr + BitVec.ofNat 64 i * 4096, paddr) :: s.handed }

/-- The part of `vmm_alloc` that notes the area, if the pool has a node left. -/
def addVma (s : Vmm M) (vaddr size : U64) : Vmm M :=
  if h : s.vmaCount < 128 then
    { s with
      vmaNodes := Function.update s.vmaNodes ⟨s.vmaCount, h⟩
        { vaddr := vaddr, size := size, next := s.vmaList }
      vmaList := some ⟨s.vmaCount, h⟩
      vmaCount := s.vmaCount + 1 }
  else s

/-- `num_pages` of `vmm_alloc`. -/
def numPages (size : U64) : U64 := (size + 4095) / 4096

/-- `vmm_alloc`: the address (`NULL` is `0`) and the new state. -/
def vmmAlloc (s : Vmm M) (size : U64) : Except (Vmm M) (U64 × Vmm M) :=
  let vaddr := s.nextVaddr
  match allocPages vaddr 0 (numPages size).toNat s with
  | .error s => .error s
  | .ok (false, s) => .ok (0, s)
  | .ok (true, s) =>
    let s := addVma s vaddr (numPages size * 4096)
    .ok (vaddr, { s with nextVaddr := s.nextVaddr + numPages size * 4096 })

/-- One round of the loop of `vmm_free`. -/
def freePage (s : Paging M) (vaddr : U64) : Paging M :=
  let paddr := pagingGetPhysical s vaddr
  if paddr = 0 then s
  else
    let s := pagingUnmap s vaddr
    { s with pmm := pmmFreeFrame s.pmm (paddr &&& frameMask) }

/-- The first `n` rounds of the loop of `vmm_free`. -/
def freePages (s : Paging M) (vaddr : U64) (n : ℕ) : Paging M :=
  (List.range n).foldl (fun s i => freePage s (vaddr + BitVec.ofNat 64 i * 4096)) s

/-- The part of `vmm_free` that takes the node `curr`, found behind `prev`, off the list. -/
def removeVma (s : Vmm M) (prev : Option (Fin 128)) (curr : Fin 128) : Vmm M :=
  match prev with
  | some p =>
    { s with vmaNodes :=
        Function.update s.vmaNodes p { s.vmaNodes p with next := (s.vmaNodes curr).next } }
  | none => { s with vmaList := (s.vmaNodes curr).next }

/-- `vmm_free`. `none`: the loop over the list does not end. The pool has 128 nodes, so a search
that has not ended after 128 nodes is in a cycle. -/
def vmmFree (s : Vmm M) (ptr : U64) : Option (Vmm M) :=
  match find (fun id => (s.vmaNodes id).next) (fun id => (s.vmaNodes id).vaddr == ptr) 129 none
    s.vmaList with
  | none => none
  | some none => some s
  | some (some (prev, curr)) =>
    let node := s.vmaNodes curr
    let s := { s with paging := freePages s.paging node.vaddr (node.size / 4096).toNat }
    some (removeVma s prev curr)

/-! ## What the loop keeps -/

/-- The state a round of the loop of `vmm_alloc` ends in. -/
def endPage : Except (Paging M) (U64 × Paging M) → Paging M
  | .ok r => r.2
  | .error s => s

/-- The state a call of the memory manager ends in. -/
def endVmm {β : Type} : Except (Vmm M) (β × Vmm M) → Vmm M
  | .ok r => r.2
  | .error s => s

variable {I : Pmm → Prop}

/-- What `pmm_alloc_frame` keeps, a round of the loop keeps. -/
theorem allocPage_keeps (hI : ∀ p, I p → I (pmmAllocFrame p).2) {s : Paging M}
    (h : I (pmmAllocFrame s.pmm).2) (v : U64) : I (endPage (allocPage s v)).pmm := by
  by_cases h0 : (pmmAllocFrame s.pmm).1 = 0
  · simp only [allocPage, if_pos h0]
    exact h
  · have hmap := pagingMap_keeps (s := { s with pmm := (pmmAllocFrame s.pmm).2 }) hI h v
      (pmmAllocFrame s.pmm).1
    rcases hp : pagingMap { s with pmm := (pmmAllocFrame s.pmm).2 } v (pmmAllocFrame s.pmm).1 with
      p | p <;> rw [hp] at hmap <;> simp only [allocPage, if_neg h0, hp]
    exacts [hmap, hmap]

/-- A page is backed by the frame that `pmm_alloc_frame` returns. -/
theorem fst_allocPage {s p : Paging M} {v f : U64} (h : allocPage s v = .ok (f, p)) :
    f = (pmmAllocFrame s.pmm).1 := by
  simp only [allocPage] at h
  split_ifs at h with h0
  · rw [h0, (Prod.mk.inj (Except.ok.inj h)).1]
  · split at h
    · cases h
    · exact (Prod.mk.inj (Except.ok.inj h)).1.symm

/-- A page takes at least one frame. -/
theorem card_freeFrames_allocPage_lt {s p : Paging M} {v f : U64}
    (h : allocPage s v = .ok (f, p)) (hf : f ≠ 0) :
    p.pmm.freeFrames.card < s.pmm.freeFrames.card := by
  have h0 : (pmmAllocFrame s.pmm).1 ≠ 0 := fst_allocPage h ▸ hf
  have := allocPage_keeps (I := fun q => q.freeFrames.card < s.pmm.freeFrames.card) (fun q hq => by
    rw [freeFrames_pmmAllocFrame]
    exact (Finset.card_le_card (FirstFit.takeFirst_subset _)).trans_lt hq)
    (card_freeFrames_pmmAllocFrame_lt h0) v
  rwa [h] at this

/-- What `pmm_alloc_frame` keeps, the loop keeps. -/
theorem allocPages_keeps (hI : ∀ p, I p → I (pmmAllocFrame p).2) (v : U64) (i n : ℕ) {s : Vmm M}
    (h : I s.paging.pmm) : I (endVmm (allocPages v i n s)).paging.pmm := by
  induction n generalizing i s with
  | zero => exact h
  | succ n ih =>
    have hround := allocPage_keeps hI (hI _ h) (v + BitVec.ofNat 64 i * 4096)
    rcases hp : allocPage s.paging (v + BitVec.ofNat 64 i * 4096) with p | ⟨f, p⟩ <;>
      rw [hp] at hround <;> simp only [allocPages, hp]
    · exact hround
    · split_ifs
      · exact hround
      · exact ih (i + 1) hround

theorem failures_allocPages_le (v : U64) (i n : ℕ) (s : Vmm M) :
    s.paging.pmm.failures ≤ (endVmm (allocPages v i n s)).paging.pmm.failures :=
  allocPages_keeps (I := fun p => s.paging.pmm.failures ≤ p.failures)
    (fun p hp => hp.trans (failures_le_pmmAllocFrame p)) v i n le_rfl

/-- **Every page of an area takes a frame**: the loop hands out frames for pages of the area, and
not for more of them than there are free frames. -/
theorem mem_handed_allocPages (v : U64) (i n : ℕ) {s : Vmm M} {x : U64 × U64}
    (hx : x ∈ (endVmm (allocPages v i n s)).handed) : x ∈ s.handed ∨
      ∃ j, i ≤ j ∧ j < i + min n s.paging.pmm.freeFrames.card ∧
        x.1 = v + BitVec.ofNat 64 j * 4096 := by
  induction n generalizing i s with
  | zero => exact .inl hx
  | succ n ih =>
    rcases hp : allocPage s.paging (v + BitVec.ofNat 64 i * 4096) with p | ⟨f, p⟩ <;>
      simp only [allocPages, hp] at hx
    · exact .inl hx
    split_ifs at hx with hf
    · exact .inl hx
    -- each page takes a frame, so that no more pages are handed out than frames were free
    have hlt := card_freeFrames_allocPage_lt hp hf
    rcases ih (i + 1) hx with hmem | ⟨j, hj, hjn, hxj⟩
    · rcases List.mem_cons.mp hmem with rfl | hmem
      · exact .inr ⟨i, le_rfl, by omega, rfl⟩
      · exact .inl hmem
    · simp only at hjn
      exact .inr ⟨j, by omega, by omega, hxj⟩

/-- The loop leaves the areas and `next_vaddr` alone. -/
theorem allocPages_rest {s t : Vmm M} {v : U64} {i n : ℕ} {b : Bool}
    (h : allocPages v i n s = .ok (b, t)) :
    t = { s with paging := t.paging, handed := t.handed } := by
  induction n generalizing i s with
  | zero =>
    obtain rfl : s = t := (Prod.mk.inj (Except.ok.inj h)).2
    rfl
  | succ n ih =>
    rcases hp : allocPage s.paging (v + BitVec.ofNat 64 i * 4096) with p | ⟨f, p⟩ <;>
      simp only [allocPages, hp] at h
    · cases h
    · split_ifs at h
      · rw [← (Prod.mk.inj (Except.ok.inj h)).2]
      · have hrest := ih h
        exact hrest

/-- What `vmm_alloc` does to the tables, the frames and the ghost record is done by its loop. -/
theorem endVmm_vmmAlloc (s : Vmm M) (size : U64) :
    (endVmm (vmmAlloc s size)).paging =
      (endVmm (allocPages s.nextVaddr 0 (numPages size).toNat s)).paging ∧
    (endVmm (vmmAlloc s size)).handed =
      (endVmm (allocPages s.nextVaddr 0 (numPages size).toNat s)).handed := by
  rcases h : allocPages s.nextVaddr 0 (numPages size).toNat s with t | ⟨b, t⟩
  · simp only [vmmAlloc, h, endVmm, and_self]
  · cases b
    · simp only [vmmAlloc, h, endVmm, and_self]
    · simp only [vmmAlloc, h, endVmm, addVma]
      split <;> exact ⟨rfl, rfl⟩

/-- `vmm_free` hands out nothing. -/
theorem handed_vmmFree {s s' : Vmm M} {ptr : U64} (h : vmmFree s ptr = some s') :
    s'.handed = s.handed := by
  unfold vmmFree at h
  split at h
  · cases h
  · rw [← Option.some.inj h]
  · next prev curr _ =>
    rw [← Option.some.inj h]
    cases prev <;> rfl

end Code

end OS44
