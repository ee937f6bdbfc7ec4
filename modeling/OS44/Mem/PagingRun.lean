import OS44.Library.Runs
import OS44.Mem.PagingMap

/-! # Runs of `paging_map` and `paging_unmap`

Any sequence of calls in which `pmm_alloc_frame` never returns `NULL`. From a well-formed state the
tables are a finite map from page numbers to frames, and stay well formed
(`paging_run_refines`). -/

namespace OS44

open Runs LinkedTree TableMemory

/-- A call of the paging code. -/
inductive PagingOp
  | map (vaddr paddr : U64)
  | unmap (vaddr : U64)

/-- One call; `none` if `pmm_alloc_frame` returned `NULL` in it (or it did not come back). -/
def pagingStep {M : Type} [TableMemory M] (s : Paging M) : PagingOp → Option (Paging M)
  | .map vaddr paddr =>
    match pagingMap s vaddr paddr with
    | .ok s' => if s'.pmm.failures = s.pmm.failures then some s' else none
    | .error _ => none
  | .unmap vaddr => some (pagingUnmap s vaddr)

variable {s s' : Paging TableHeap} {v p pdpt pd pt f : U64} {op : PagingOp}

/-- A call that comes back does what its tree of tables makes it do. -/
theorem pagingStep_map (h : PageTree s) (hs : pagingStep s (.map v p) = some s') :
    Maps s v p s' := by
  rcases h.pagingMap v p with ⟨t, ht | ht, hlt, -⟩ | ⟨t, ht, hm⟩ <;>
    simp only [pagingStep, ht, reduceCtorEq] at hs
  · rw [if_neg (by omega)] at hs
    cases hs
  · rw [if_pos hm.grows.failures_eq] at hs
    rwa [← Option.some.inj hs]

/-- With all tables found, `paging_map` needs no frame. -/
theorem HasTables.pagingStep_map {M : Type} [TableMemory M] {s : Paging M}
    (h : HasTables s v pdpt pd pt) (p : U64) :
    pagingStep s (.map v p) = some (writePage s pt (ptIdx v) p) := by
  simp only [pagingStep, h.pagingMap]
  exact if_pos rfl

theorem pagingStep_unmap {M : Type} [TableMemory M] {s s' : Paging M}
    (hs : pagingStep s (.unmap v) = some s') : pagingUnmap s v = s' :=
  Option.some.inj hs

/-- With three free frames, `paging_map` finds the frames it needs. -/
theorem PageTree.exists_pagingStep_map (h : PageTree s) (v p : U64) (h0 : s.pmm.testBit 0 = true)
    (hfree : 3 ≤ s.pmm.freeFrames.card) : ∃ s', pagingStep s (.map v p) = some s' := by
  rcases h.pagingMap v p with ⟨t, -, -, hcard⟩ | ⟨t, ht, hm⟩
  · have := hcard h0
    omega
  · exact ⟨t, by simp only [pagingStep, ht, if_pos hm.grows.failures_eq]⟩

/-! ## A finite map -/

/-- What the tables are for: a finite map from page numbers to frames. -/
abbrev PageMap : Type := Fin (2 ^ 36) → Option U64

/-- What a call does to the map. -/
def PageMap.call (m : PageMap) : PagingOp → PageMap
  | .map vaddr paddr => Function.update m (pageOf vaddr) (some (paddr &&& frameMask))
  | .unmap vaddr => Function.update m (pageOf vaddr) none

/-- **What a call must do to the lookups**: unless an allocation fails in it, it comes back; it
changes the lookups of its own page as asked and no other. -/
def LookupsOk (s : Paging TableHeap) : PagingOp → Prop
  | .map vaddr paddr =>
    (∃ s', (pagingMap s vaddr paddr = .ok s' ∨ pagingMap s vaddr paddr = .error s') ∧
      s.pmm.failures < s'.pmm.failures) ∨
    ∃ s', pagingMap s vaddr paddr = .ok s' ∧ ∀ w, pagingGetPhysical s' w =
      if pageOf w = pageOf vaddr then paddr &&& frameMask ||| w &&& 0xFFF else pagingGetPhysical s w
  | .unmap vaddr => ∀ w, pagingGetPhysical (pagingUnmap s vaddr) w =
      if pageOf w = pageOf vaddr then 0 else pagingGetPhysical s w

theorem lookupsOk_of_pageTree (h : PageTree s) (hc : ∀ v, FreesEmpty s v) : LookupsOk s op := by
  cases op with
  | map v p =>
    rcases h.pagingMap v p with ⟨t, ht, hlt, -⟩ | ⟨t, ht, hm⟩
    · exact .inl ⟨t, ht, hlt⟩
    · refine .inr ⟨t, ht, ?_⟩
      intro w
      rw [hm.tree.pagingGetPhysical, h.pagingGetPhysical, hm.pageFrame_eq]
      split <;> rfl
  | unmap v =>
    intro w
    rw [(h.pagingUnmap v).1.pagingGetPhysical, h.pagingGetPhysical, (h.unmaps (hc v)).pageFrame_eq]
    split <;> rfl

/-- The step lemma: a call keeps the state well formed and acts on the map. -/
theorem WellFormed.step (h : WellFormed s) (hs : pagingStep s op = some s') :
    WellFormed s' ∧ s'.pageFrame = PageMap.call s.pageFrame op := by
  cases op with
  | map v p =>
    have hm := pagingStep_map h.toPageTree hs
    refine ⟨hm.wellFormed h, funext fun n => ?_⟩
    rw [hm.pageFrame_eq, PageMap.call, Function.update_apply]
  | unmap v =>
    obtain rfl := pagingStep_unmap hs
    refine ⟨h.pagingUnmap v, funext fun n => ?_⟩
    rw [(h.toPageTree.unmaps (h.freesEmpty v)).pageFrame_eq, PageMap.call, Function.update_apply]

/-- The run lemma: the tables follow the map. -/
theorem WellFormed.run (h : WellFormed s) {ops : List PagingOp}
    (hs : run pagingStep s ops = some s') :
    WellFormed s' ∧ s'.pageFrame = ops.foldl PageMap.call s.pageFrame := by
  induction ops generalizing s with
  | nil =>
    obtain rfl := Option.some.inj hs
    exact ⟨h, rfl⟩
  | cons op ops ih =>
    obtain ⟨t, ht, hs⟩ := run_cons_eq_some.mp hs
    obtain ⟨hw, hpages⟩ := h.step ht
    rw [List.foldl_cons, ← hpages]
    exact ih hw hs

/-- **The page tables are a finite map.** From a well-formed state and in every run of calls: each
call does to the lookups what it should and nothing else; every state reached is well formed; and
`paging_get_physical` looks up the map that the calls have built. -/
theorem paging_run_refines (s : Paging TableHeap) (hs : WellFormed s) (ops : List PagingOp) :
    AllSteps pagingStep LookupsOk s ops ∧
    ∀ s', run pagingStep s ops = some s' → WellFormed s' ∧
      ∀ v, pagingGetPhysical s' v =
        physicalOf v (ops.foldl PageMap.call s.pageFrame (pageOf v)) := by
  refine ⟨?_, ?_⟩
  · exact AllSteps.consequence (P := fun _ _ => True) (fun t op t' ht _ hstep => (ht.step hstep).1)
      (fun t op ht _ => lookupsOk_of_pageTree ht.toPageTree ht.freesEmpty) hs
      (AllSteps.of_forall (fun _ _ => trivial) s ops)
  · intro s' hrun
    obtain ⟨hw, hpages⟩ := hs.run hrun
    exact ⟨hw, fun v => by rw [hw.toPageTree.pagingGetPhysical, hpages]⟩

namespace Sample

/-- The 512 MiB machine with an empty `PML4` at 1 MiB. -/
def paging : Paging TableHeap where
  mem := fun _ => { entries := fun _ => 0, refCount := 0 }
  pml4 := 0x100000
  pmm := pmm

theorem link_paging (a : U64) (i : Fin 512) : link paging.mem a i = none := entryLink_zero

theorem wellFormed_paging : WellFormed paging :=
  wellFormed_of_empty (link_paging _) (by decide) (by decide) (testBit_pmm (by decide))

end Sample

/-- Mapping a page in the empty tables: it is looked up at the frame asked for. -/
theorem paging_run_refines_sample : ∃ s',
    run pagingStep Sample.paging [.map 0x10000ABC 0x2345678] = some s' ∧
    pagingGetPhysical s' 0x10000ABC = 0x2345ABC := by
  obtain ⟨s', hs'⟩ := Sample.wellFormed_paging.toPageTree.exists_pagingStep_map 0x10000ABC 0x2345678
    (Sample.testBit_pmm (by omega)) (by
      have : 3 ≤ Sample.pmm.freeFrames.card := by rw [Sample.freeFrames_pmm]; simp
      exact this)
  have hrun : run pagingStep Sample.paging [.map 0x10000ABC 0x2345678] = some s' :=
    run_cons_eq_some.mpr ⟨s', hs', rfl⟩
  refine ⟨s', hrun, ?_⟩
  rw [((paging_run_refines Sample.paging Sample.wellFormed_paging _).2 s' hrun).2]
  simp only [List.foldl_cons, List.foldl_nil, PageMap.call, Function.update_self, physicalOf]
  decide

end OS44
