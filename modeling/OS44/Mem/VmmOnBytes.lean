import OS44.Mem.PagingOnBytes
import OS44.Mem.VmmFrames

/-! # The memory manager on tables in memory

`vmm_alloc` and `vmm_free` do the same to tables in memory as to tables that are structs of their
own, as long as no counter that `paging_map` stores lies in a table: step by step the two stay
related (`InStep`), the calls have the same results (`Agrees`), and what is known of the
manager on a tree of structs holds in memory. -/

namespace OS44

open LinkedTree PoolList TableMemory

/-- **Two calls agree**: neither comes back, or both do with the same result, in related states. -/
inductive Agrees {σ τ α : Type} (R : σ → τ → Prop) : Except σ (α × σ) → Except τ (α × τ) → Prop
  | error (s : σ) (t : τ) : Agrees R (.error s) (.error t)
  | ok (a : α) {s : σ} {t : τ} (h : R s t) : Agrees R (.ok (a, s)) (.ok (a, t))

/-! ## The layout -/

/-- **No counter but the root's lies in a table**: of those that the `paging_map` stores, and of
those of the tables there are, also once the missing tables are linked. -/
structure MapSpaced {M : Type} [TableMemory M] (s : Paging M) (v : U64) : Prop where
  outside : MapOutside s v
  apart : ∀ t b, s.IsTable t → t ≠ s.pml4 → TableFor s v b → b ≠ refCountAddr t

/-- **The layout `L` at every `paging_map`** that the loop of `vmm_alloc` makes for `n` pages. -/
def AreaMeets {M : Type} [TableMemory M] (L : Paging M → U64 → Prop) (s : Vmm M) (n : ℕ) : Prop :=
  ∀ j < n, ∀ t, allocPages s.nextVaddr 0 j s = .ok (true, t) →
    (pmmAllocFrame t.paging.pmm).1 ≠ 0 →
    L { t.paging with pmm := (pmmAllocFrame t.paging.pmm).2 }
      (s.nextVaddr + BitVec.ofNat 64 j * 4096)

theorem AreaMeets.mono {M : Type} [TableMemory M] {L : Paging M → U64 → Prop} {s : Vmm M} {n m : ℕ}
    (h : AreaMeets L s n) (hm : m ≤ n) : AreaMeets L s m := fun j hj => h j (hj.trans_le hm)

theorem AreaMeets.imp {M : Type} [TableMemory M] {L L' : Paging M → U64 → Prop} {s : Vmm M} {n : ℕ}
    (h : AreaMeets L s n) (himp : ∀ p v, L p v → L' p v) : AreaMeets L' s n :=
  fun j hj t ht h0 => himp _ _ (h j hj t ht h0)

section Even

variable {M : Type} [TableMemory M] {s : Paging M} {pmm : Pmm} {x : Option U64} {b v : U64} {j : ℕ}

theorem testBit_of_nextTable (h : (nextTable pmm x).2.testBit j = false) :
    pmm.testBit j = false := by
  cases x with
  | some a => exact h
  | none =>
    refine Bool.eq_false_iff.mpr fun hu => ?_
    rw [nextTable, testBit_pmmAllocFrame_mono hu] at h
    cases h

theorem nextTable_fst (hb : (nextTable pmm x).1 ≠ 0) : x = some (nextTable pmm x).1 ∨
    ∃ k < 2 ^ 20, (nextTable pmm x).1 = frameAddr k ∧ pmm.testBit k = false := by
  cases x with
  | some a => exact .inl rfl
  | none =>
    obtain ⟨k, hk, -, hfk, hfree, -⟩ := pmmAllocFrame_ne_zero hb
    exact .inr ⟨k, hk, hfk, hfree⟩

/-- A table on the walk of `v` is there, or it will lie in a frame that is free. -/
theorem TableFor.cases (h : TableFor s v b) :
    s.IsTable b ∨ ∃ k < 2 ^ 20, b = frameAddr k ∧ s.pmm.testBit k = false := by
  obtain ⟨hb, hb' | hb'⟩ := h
  · exact .inl hb'
  simp only [tablesFor, List.mem_cons, List.not_mem_nil, or_false] at hb'
  rcases hb' with rfl | rfl | rfl | rfl
  · exact .inl isNode_root
  · exact (nextTable_fst hb).imp_left fun hw => isTable_of_walk hw (by simp)
  · rcases nextTable_fst hb with hw | ⟨k, hk, hfk, hfree⟩
    exacts [.inl (isTable_of_walk hw (by simp)), .inr ⟨k, hk, hfk, testBit_of_nextTable hfree⟩]
  · rcases nextTable_fst hb with hw | ⟨k, hk, hfk, hfree⟩
    exacts [.inl (isTable_of_walk hw (by simp)),
      .inr ⟨k, hk, hfk, testBit_of_nextTable (testBit_of_nextTable hfree)⟩]

/-- The tables and the free frames have even numbers, so that no two of them follow one another. -/
def EvenFrames (s : Paging M) : Prop :=
  (∀ t, s.IsTable t → frameOf t % 2 = 0) ∧ ∀ j, s.pmm.testBit j = false → j % 2 = 0

/-- **With every other frame in use** no counter lies in a table. -/
theorem EvenFrames.mapSpaced (he : EvenFrames s) (h : PageTree s) (v : U64) : MapSpaced s v := by
  have hfor : ∀ b, TableFor s v b → ∃ k < 2 ^ 51, b.toNat = 4096 * (2 * k) := fun b hb => by
    rcases hb.cases with ht | ⟨k, hk, rfl, hfree⟩
    · have ha := and_frameMask_eq_self.mp (h.aligned ht)
      have heven := he.1 b ht
      rw [frameOf] at heven
      exact ⟨b.toNat / 4096 / 2, by omega, by omega⟩
    · have heven := he.2 k hfree
      exact ⟨k / 2, by omega, by rw [frameAddr]; bv_omega⟩
  have hne : ∀ t b, TableFor s v t → TableFor s v b → b ≠ refCountAddr t := fun t b ht hb he' => by
    obtain ⟨k, hk, htk⟩ := hfor t ht
    obtain ⟨l, hl, hbl⟩ := hfor b hb
    rw [he', refCountAddr] at hbl
    bv_omega
  exact ⟨fun t b ht _ hb => hne t b ht hb, fun t b ht _ hb => hne t b ⟨h.ne_zero t ht, .inl ht⟩ hb⟩

theorem EvenFrames.spaced {t : U64} (he : EvenFrames s) (h : PageTree s) (ht : s.IsTable t)
    (hb : s.IsTable b) : b ≠ refCountAddr t := by
  have ha := and_frameMask_eq_self.mp (h.aligned ht)
  have heven := he.1 t ht
  have heven' := he.1 b hb
  rw [frameOf] at heven heven'
  rintro rfl
  rw [refCountAddr] at heven'
  bv_omega

/-- For one page the layout is asked for once. -/
theorem areaMeets_one {L : Paging M → U64 → Prop} {s : Vmm M} (h : ∀ v,
    L { s.paging with pmm := (pmmAllocFrame s.paging.pmm).2 } v) : AreaMeets L s 1 := by
  intro j hj t ht _
  obtain rfl : j = 0 := by omega
  obtain rfl : s = t := (Prod.mk.inj (Except.ok.inj ht)).2
  exact h _

theorem EvenFrames.areaMeets_one {s : Vmm M} (he : EvenFrames s.paging) (h : PageTree s.paging) :
    AreaMeets MapSpaced s 1 := by
  have hfree : ∀ j, (pmmAllocFrame s.paging.pmm).2.testBit j = false →
      s.paging.pmm.testBit j = false := fun j hj => testBit_of_nextTable (x := none) hj
  have htree : PageTree { s.paging with pmm := (pmmAllocFrame s.paging.pmm).2 } :=
    h.withPmm fun b hb => testBit_pmmAllocFrame_mono (h.used b hb)
  have heven : EvenFrames { s.paging with pmm := (pmmAllocFrame s.paging.pmm).2 } :=
    ⟨he.1, fun j hj => he.2 j (hfree j hj)⟩
  exact OS44.areaMeets_one fun v => heven.mapSpaced htree v

end Even

section Layout

variable {C : U64 → Prop} {s : Paging TableBytes} {h : Paging TableHeap} {b v : U64}

/-- The `paging_map` finds and links the same tables. -/
theorem Stored.tablesFor_eq (hs : Stored h.IsTable C s h) (v : U64) :
    tablesFor s v = tablesFor h v := by
  have hwalk : ∀ {q : List (Fin 512)}, q.length ≤ 4 →
      walk (link s.mem) s.pml4 q = walk (link h.mem) h.pml4 q := hs.walk_eq fun _ ha => ha
  simp only [tablesFor, hs.pml4_eq ▸ hwalk (q := [pml4Idx v]) (by simp),
    hs.pml4_eq ▸ hwalk (q := [pml4Idx v, pdptIdx v]) (by simp),
    hs.pml4_eq ▸ hwalk (q := [pml4Idx v, pdptIdx v, pdIdx v]) (by simp), hs.pmm_eq, hs.pml4_eq]

theorem Stored.tableFor_iff (hs : Stored h.IsTable C s h) : TableFor s v b ↔ TableFor h v b := by
  rw [TableFor, hs.isTable_iff fun _ ha => ha, hs.tablesFor_eq, TableFor]

theorem Stored.mapOutside_iff (hs : Stored h.IsTable C s h) :
    MapOutside s v ↔ MapOutside h v := by
  have hstores : ∀ t, StoresCounter s v t ↔ StoresCounter h v t := fun t => by
    rw [StoresCounter, hs.tablesFor_eq, StoresCounter]
    refine exists_congr fun k => and_congr_right fun _ => ?_
    rw [hs.walk_eq (fun _ ha => ha) ((List.length_take_le' _ _).trans (length_pagePath _).le)]
  simp only [MapOutside, hstores, hs.tableFor_iff]

end Layout

/-! ## In step -/

/-- The counters kept track of if `k`: those of all tables but the root. -/
def Tracked (k : Prop) (h : Paging TableHeap) (c : U64) : Prop := k ∧ h.IsTable c ∧ c ≠ h.pml4

/-- **In step**: the same tree of tables in memory and on structs and, if `k`, the same counters. -/
structure InStep (k : Prop) (s : Paging TableBytes) (h : Paging TableHeap) : Prop where
  tree : PageTree h
  stored : Stored h.IsTable (Tracked k h) s h

variable {k : Prop} {s : Paging TableBytes} {h h' : Paging TableHeap} {v p : U64} {n : ℕ}

/-- Without the counters only those that a call stores matter. -/
theorem InStep.mapApart_of_outside (hs : InStep False s h) (hout : MapOutside s v) :
    MapApart (Tracked False h) h v :=
  ⟨hs.stored.mapOutside_iff.mp hout, fun _ _ hc => hc.1.elim⟩

theorem InStep.mapApart_of_spaced (hs : InStep True s h) (hout : MapSpaced s v) :
    MapApart (Tracked True h) h v := by
  refine ⟨hs.stored.mapOutside_iff.mp hout.outside, fun c b hc hb => ?_⟩
  refine hout.apart c b ((hs.stored.isTable_iff fun _ ha => ha).mpr hc.2.1) ?_
    (hs.stored.tableFor_iff.mpr hb)
  rw [hs.stored.pml4_eq]
  exact hc.2.2

/-- At first the structs are read off memory. -/
theorem inStep_onStructs (htree : PageTree s)
    (hout : k → ∀ t b, s.IsTable t → t ≠ s.pml4 → s.IsTable b → b ≠ refCountAddr t) :
    InStep k s s.onStructs :=
  ⟨htree.onStructs, Stored.onStructs s (fun _ ha => htree.onStructs.aligned ha)
    (fun _ hc => hc.2.1) fun _ _ ha hc => hout hc.1 _ _ hc.2.1 hc.2.2 ha⟩

/-- A frame is taken in both. -/
theorem InStep.takeFrame (hs : InStep k s h) :
    InStep k { s with pmm := (pmmAllocFrame s.pmm).2 }
      { h with pmm := (pmmAllocFrame s.pmm).2 } := by
  rw [hs.stored.pmm_eq]
  exact ⟨hs.tree.withPmm fun b hb => testBit_pmmAllocFrame_mono (hs.tree.used b hb),
    hs.stored.withPmm _⟩

/-- **`paging_map` keeps in step.** -/
theorem InStep.pagingMap (hs : InStep k s h) (hout : MapApart (Tracked k h) h v) (p : U64) :
    (∃ s' h', pagingMap s v p = .error s' ∧ pagingMap h v p = .error h') ∨
    ∃ s' h', pagingMap s v p = .ok s' ∧ pagingMap h v p = .ok h' ∧ InStep k s' h' := by
  rcases hs.stored.pagingMap hs.tree hout p with herror | ⟨s', h', hm, hh, htree, hst⟩
  · exact .inl herror
  have hroot : h'.pml4 = h.pml4 := by rw [← pml4_pagingMap h v p, hh]; rfl
  refine .inr ⟨s', h', hm, hh, htree, hst.mono (fun _ ha => ha) (fun c hc => ?_) fun _ hc => hc.2.1⟩
  by_cases hold : h.IsTable c
  · exact .inl ⟨hc.1, hold, hroot ▸ hc.2.2⟩
  · exact .inr ⟨hc.2.1, hold⟩

/-- **The layout `L` keeps in step.** -/
def KeepsStep (k : Prop) (L : Paging TableBytes → U64 → Prop) : Prop :=
  ∀ s h v, InStep k s h → L s v → MapApart (Tracked k h) h v

/-- A round of the loop of `vmm_alloc` keeps in step. -/
theorem InStep.allocPage {L : Paging TableBytes → U64 → Prop} (hL : KeepsStep k L)
    (hs : InStep k s h) (hl : (pmmAllocFrame s.pmm).1 ≠ 0 →
      L { s with pmm := (pmmAllocFrame s.pmm).2 } v) :
    Agrees (InStep k) (allocPage s v) (allocPage h v) := by
  have hpmm : h.pmm = s.pmm := hs.stored.pmm_eq.symm
  by_cases h0 : (pmmAllocFrame s.pmm).1 = 0
  · simp only [OS44.allocPage, hpmm, if_pos h0]
    exact .ok 0 hs.takeFrame
  · simp only [OS44.allocPage, hpmm, if_neg h0]
    rcases hs.takeFrame.pagingMap (hL _ _ v hs.takeFrame (hl h0)) (pmmAllocFrame s.pmm).1 with
      ⟨s', h', hm, hh⟩ | ⟨s', h', hm, hh, hs'⟩ <;> rw [hm, hh]
    exacts [.error s' h', .ok _ hs']

/-! ## `vmm_alloc` -/

/-- The memory manager with other page tables. -/
def Vmm.withPaging {M N : Type} (s : Vmm M) (p : Paging N) : Vmm N where
  paging := p
  vmaNodes := s.vmaNodes
  vmaCount := s.vmaCount
  vmaList := s.vmaList
  nextVaddr := s.nextVaddr
  handed := s.handed

/-- **The memory manager in step**: the same list of areas and the same record, on tables in memory
and on structs. -/
structure VmmInStep (k : Prop) (s : Vmm TableBytes) (h : Vmm TableHeap) : Prop where
  paging : InStep k s.paging h.paging
  rest_eq : h = s.withPaging h.paging

namespace VmmInStep

variable {s : Vmm TableBytes} {h : Vmm TableHeap} {L : Paging TableBytes → U64 → Prop}

/-- The loop of `vmm_alloc` keeps in step. -/
theorem allocPages (hL : KeepsStep k L) (hs : VmmInStep k s h) (hl : AreaMeets L s n) :
    Agrees (VmmInStep k) (allocPages s.nextVaddr 0 n s) (allocPages s.nextVaddr 0 n h) := by
  induction n with
  | zero => exact .ok true hs
  | succ n ih =>
    have hfirst := ih (hl.mono (Nat.le_succ n))
    rw [allocPages_add, allocPages_add]
    rcases hs' : OS44.allocPages s.nextVaddr 0 n s with t | ⟨b, t⟩ <;>
      rcases hh' : OS44.allocPages s.nextVaddr 0 n h with u | ⟨c, u⟩ <;>
      rw [hs', hh'] at hfirst <;> cases hfirst
    · exact .error t u
    · next ht =>
      cases b
      · exact .ok false ht
      · -- one round more
        have hround := ht.paging.allocPage hL fun h0 => hl n (Nat.lt_succ_self n) t hs' h0
        simp only [OS44.allocPages, Nat.zero_add]
        rcases ht' : allocPage t.paging (s.nextVaddr + BitVec.ofNat 64 n * 4096) with p | ⟨f, p⟩ <;>
        rcases hu' : allocPage u.paging (s.nextVaddr + BitVec.ofNat 64 n * 4096) with q | ⟨g, q⟩ <;>
        rw [ht', hu'] at hround <;> cases hround
        · exact .error _ _
        · next hpq =>
          have hrest : ∀ l, ({ u with paging := q, handed := l :: u.handed } : Vmm TableHeap) =
              ({ t with paging := p, handed := l :: t.handed } : Vmm TableBytes).withPaging q :=
            fun l => by rw [ht.rest_eq]; rfl
          have hgive : ({ u with paging := q } : Vmm TableHeap) =
              ({ t with paging := p } : Vmm TableBytes).withPaging q := by rw [ht.rest_eq]; rfl
          dsimp only
          split_ifs
          exacts [.ok false ⟨hpq, hgive⟩, .ok true ⟨hpq, hrest _⟩]

theorem finishAlloc (hs : VmmInStep k s h) (size : U64) :
    VmmInStep k (OS44.finishAlloc s size) (OS44.finishAlloc h size) := by
  refine ⟨by simpa only [paging_finishAlloc] using hs.paging, ?_⟩
  rw [paging_finishAlloc, hs.rest_eq]
  rw [OS44.finishAlloc, OS44.finishAlloc]
  by_cases hc : s.vmaCount < 128
  · rw [addVma_of_lt hc, addVma_of_lt (s := s.withPaging h.paging) hc]
    rfl
  · rw [addVma_of_not_lt hc, addVma_of_not_lt (s := s.withPaging h.paging) hc]
    rfl

/-- **`vmm_alloc` in memory and on structs.** -/
theorem vmmAlloc (hL : KeepsStep k L) (hs : VmmInStep k s h) {size : U64}
    (hl : AreaMeets L s (numPages size).toNat) :
    Agrees (VmmInStep k) (vmmAlloc s size) (vmmAlloc h size) := by
  have hnext : h.nextVaddr = s.nextVaddr := by rw [hs.rest_eq]; rfl
  have hloop := hs.allocPages hL hl
  rcases hs' : OS44.allocPages s.nextVaddr 0 (numPages size).toNat s with t | ⟨b, t⟩ <;>
    rcases hh' : OS44.allocPages s.nextVaddr 0 (numPages size).toNat h with u | ⟨c, u⟩ <;>
    rw [hs', hh'] at hloop <;> cases hloop
  · simp only [OS44.vmmAlloc, hnext, hs', hh']
    exact .error t u
  · next ht =>
    cases b
    · rw [vmmAlloc_of_false hs', vmmAlloc_of_false (hnext ▸ hh')]
      exact .ok 0 ht
    · rw [vmmAlloc_of_true hs', vmmAlloc_of_true (hnext ▸ hh'), hnext]
      exact .ok _ (ht.finishAlloc size)

end VmmInStep

/-! ## `vmm_free` -/

/-- The tables on the way to a page are not the root. -/
theorem DropsCounter.ne_root {t : U64} (hd : DropsCounter h v t) (htree : PageTree h) :
    t ≠ h.pml4 := by
  obtain ⟨pdpt, pd, pt, ht, -, rfl | ⟨-, rfl | ⟨-, rfl⟩⟩⟩ := hd
  exacts [htree.ne_root (by simp) (by simp) ht.walks.2.2,
    htree.ne_root (by simp) (by simp) ht.walks.2.1, htree.ne_root (by simp) (by simp) ht.walks.1]

/-- A round of the loop of `vmm_free` keeps in step, counters included. -/
theorem InStep.freePage (hs : InStep True s h) (v : U64) (htree : PageTree (freePage h v)) :
    InStep True (freePage s v) (freePage h v) := by
  have hphys : pagingGetPhysical s v = pagingGetPhysical h v := by
    rw [(hs.stored.pageTree (fun _ ha => ha) hs.tree).pagingGetPhysical,
      hs.tree.pagingGetPhysical, hs.stored.pageFrame_eq fun _ ha => ha]
  by_cases h0 : pagingGetPhysical h v = 0
  · simp only [OS44.freePage, hphys, if_pos h0]
    exact hs
  · simp only [OS44.freePage, hphys, if_neg h0] at htree ⊢
    have hst := hs.stored.pagingUnmap (v := v) (fun _ ha => ha)
      (fun t ht => ⟨trivial, ht.isTable, ht.ne_root hs.tree⟩) hs.tree
    have hsh := (hs.tree.pagingUnmap v).2
    refine ⟨htree, ?_⟩
    rw [hst.pmm_eq]
    exact (hst.withPmm _).mono (fun a ha => hsh.isTable_of ha)
      (fun c hc => ⟨trivial, hsh.isTable_of hc.2.1, hsh.pml4_eq ▸ hc.2.2⟩) fun _ hc => hc.2.1

/-- The loop of `vmm_free` keeps in step, as long as the tables are a tree. -/
theorem InStep.freePages (hs : InStep True s h) (v : U64)
    (htree : ∀ i ≤ n, PageTree (freePages h v i)) :
    InStep True (freePages s v n) (freePages h v n) := by
  induction n with
  | zero => exact hs
  | succ n ih =>
    have hn := htree (n + 1) le_rfl
    have hfirst := ih fun i hi => htree i (hi.trans (Nat.le_succ n))
    simp only [OS44.freePages, List.range_succ, List.foldl_concat] at hn hfirst ⊢
    exact hfirst.freePage _ hn

theorem withPaging_removeVma {M N : Type} (s : Vmm M) (p : Paging N) (prev : Option (Fin 128))
    (curr : Fin 128) :
    removeVma (s.withPaging p) prev curr = (removeVma s prev curr).withPaging p := by
  cases prev <;> rfl

/-- **`vmm_free` in memory and on structs**, where every area in the list can be unmapped page by
page. -/
theorem VmmInStep.vmmFree {s : Vmm TableBytes} {h : Vmm TableHeap} (hs : VmmInStep True s h)
    {ids : List (Fin 128)} (hl : PoolChain h ids) (ptr : U64)
    (htree : ∀ id ∈ ids, ∀ i ≤ (h.vmaNodes id).allocation.pages,
      PageTree (OS44.freePages h.paging (h.vmaNodes id).vaddr i)) :
    ∃ s' h', vmmFree s ptr = some s' ∧ vmmFree h ptr = some h' ∧ VmmInStep True s' h' := by
  have hlen : ids.length < 129 := by
    have := hl.nodup.length_le_card
    simp only [Fintype.card_fin] at this
    omega
  have hfind := hl.chain.find_eq (fun id => (h.vmaNodes id).vaddr == ptr) hlen none
  have hrest := hs.rest_eq
  have hnodes : h.vmaNodes = s.vmaNodes := by rw [hrest]; rfl
  have hlist : h.vmaList = s.vmaList := by rw [hrest]; rfl
  rcases hfind with ⟨-, hf⟩ | ⟨xs, id, ys, rfl, -, -, hf⟩
  · refine ⟨s, h, ?_, ?_, hs⟩
    · simp only [OS44.vmmFree, ← hnodes, ← hlist, hf]
    · simp only [OS44.vmmFree, hf]
  · have hpages := hs.paging.freePages (h.vmaNodes id).vaddr (htree id (by simp))
    set p := freePages s.paging (h.vmaNodes id).vaddr ((h.vmaNodes id).size / 4096).toNat
    set q := freePages h.paging (h.vmaNodes id).vaddr ((h.vmaNodes id).size / 4096).toNat with hq
    have hstate : ({ h with paging := q } : Vmm TableHeap) =
        ({ s with paging := p } : Vmm TableBytes).withPaging q := by
      rw [Vmm.withPaging, ← hnodes, ← hlist, hrest]
      rfl
    refine ⟨removeVma { s with paging := p } (xs.getLast?.or none) id,
      removeVma { h with paging := q } (xs.getLast?.or none) id, ?_, ?_, ?_, ?_⟩
    · simp only [OS44.vmmFree, ← hnodes, ← hlist, hf]
      rfl
    · simp only [OS44.vmmFree, hf]
      rfl
    · simp only [paging_removeVma]
      exact hpages
    · rw [paging_removeVma, hstate, withPaging_removeVma]
      rfl

namespace Sample

/-- An empty `PML4` at 1 MiB in memory full of zeros, with every other frame from 8 MiB on free, `k`
of them. -/
def sparse (k : ℕ) : Paging TableBytes := pagingAt (fun _ => 0) (sparsePmm k) 0x100000

theorem pml4_sparse (k : ℕ) : (sparse k).pml4 = 0x100000 := by
  have : (0x100000 : U64) &&& frameMask = 0x100000 := by decide
  exact this

theorem link_sparse (k : ℕ) (a : U64) (i : Fin 512) : link (sparse k).mem a i = none :=
  link_pagingAt_zero _ _

theorem wellFormed_sparse {k : ℕ} (hk : k ≤ 2 ^ 18) : WellFormed (sparse k) :=
  wellFormed_of_empty (link_sparse k _) (by rw [pml4_sparse]; decide)
    (by rw [pml4_sparse]; decide) (used_sparsePmm hk (by rw [pml4_sparse]; decide))

theorem evenFrames_sparse {k : ℕ} (hk : k ≤ 2 ^ 18) : EvenFrames (sparse k) := by
  refine ⟨fun t ht => ?_, fun j hj => ((testBit_sparsePmm hk j).mp hj).2.2⟩
  rw [eq_pml4_of_empty (link_sparse k _) ht, pml4_sparse]
  decide

theorem framesNeeded_sparse (k : ℕ) :
    framesNeeded (vmmBoot (sparse k)).paging (vmmBoot (sparse k)).nextVaddr 1 = 4 :=
  framesNeeded_of_empty (link_sparse k) _

theorem card_sparse {k : ℕ} (hk : k ≤ 2 ^ 18) :
    (vmmBoot (sparse k)).paging.pmm.freeFrames.card = k := card_sparsePmm hk

/-- With no tables yet and every other frame in use, the one page of an area is laid out well. -/
theorem areaMeets_sparse {k : ℕ} (hk : k ≤ 2 ^ 18) :
    AreaMeets MapOutside (vmmBoot (sparse k)) 1 :=
  (EvenFrames.areaMeets_one (s := vmmBoot (sparse k)) (evenFrames_sparse hk)
    (wellFormed_sparse hk).toPageTree).imp fun _ _ h => h.outside

end Sample

end OS44
