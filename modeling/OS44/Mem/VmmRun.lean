import OS44.Mem.PagingRun
import OS44.Mem.VmmList

/-! # Runs of the virtual memory manager

Any sequence of calls of `vmm_alloc` and `vmm_free` in which `pmm_alloc_frame` never returns `NULL`
and the virtual addresses stay in the lower half of the address space. Live allocations have pages
and frames of their own, and a `vmm_free` unmaps a live allocation or changes nothing
(`vmm_run_correct`). -/

namespace OS44

open Runs LinkedTree PoolList TableMemory

/-- A call of the virtual memory manager. -/
inductive VmmOp
  | alloc (size : U64)
  | free (ptr : U64)

/-- The virtual memory manager with the allocations that are live: from their `vmm_alloc` until a
`vmm_free` unmaps them. -/
structure VmmClients (M : Type) where
  vmm : Vmm M
  live : List Allocation

/-- Some page of the allocation is mapped. -/
def Allocation.isMapped (s : Paging TableHeap) (a : Allocation) : Bool :=
  (List.range a.pages).any fun i => (s.pageFrame (areaPage a.base i)).isSome

/-- The number of pages that hold `size` bytes. -/
def pagesNeeded (size : U64) : ℕ := (size.toNat + 4095) / 4096

/-- The calls of `vmm_alloc` that the runs are about. -/
def AllocAllowed (s : Vmm TableHeap) (size : U64) : Prop :=
  1 ≤ size.toNat ∧ size.toNat ≤ 2 ^ 64 - 4096 ∧
    s.nextVaddr.toNat + 4096 * pagesNeeded size ≤ 2 ^ 47

instance (s : Vmm TableHeap) (size : U64) : Decidable (AllocAllowed s size) :=
  inferInstanceAs (Decidable (_ ∧ _ ∧ _))

/-- One call; `none` if it is not allowed, if `pmm_alloc_frame` returned `NULL` in it or if it did
not come back. -/
def vmmStep (c : VmmClients TableHeap) : VmmOp → Option (VmmClients TableHeap)
  | .alloc size =>
    if AllocAllowed c.vmm size then
      match vmmAlloc c.vmm size with
      | .ok (p, s) =>
        if s.paging.pmm.failures = c.vmm.paging.pmm.failures then
          some { vmm := s, live := ⟨p, pagesNeeded size⟩ :: c.live }
        else none
      | .error _ => none
    else none
  | .free ptr => (vmmFree c.vmm ptr).map fun s =>
      { vmm := s, live := c.live.filter fun a => a.isMapped s.paging }

/-! ## What the calls must do -/

/-- Exactly the pages of `a` are unmapped, and their frames are free; besides them only frames of
tables are freed. -/
structure FreesAllocation (s : Paging TableHeap) (a : Allocation) (s' : Paging TableHeap) :
    Prop where
  pageFrame_eq : ∀ n, s'.pageFrame n = if a.HasPage n then none else s.pageFrame n
  freed : ∀ i < a.pages, ∃ f, s.pageFrame (areaPage a.base i) = some f ∧
    s.pmm.testBit (frameOf f) = true ∧ s'.pmm.testBit (frameOf f) = false
  others : ∀ j, s'.pmm.testBit j ≠ s.pmm.testBit j → s'.pmm.testBit j = false ∧
    ((∃ i < a.pages, s.pageFrame (areaPage a.base i) = some (frameAddr j)) ∨
      ∃ t, s.IsTable t ∧ frameOf t = j)

/-- **What a call must do**, unless an allocation fails in it: `vmm_alloc` returns the next address
and changes only the pages of its area; `vmm_free` comes back, and it unmaps a live allocation at
its address or changes nothing. -/
def VmmCallOk (c : VmmClients TableHeap) : VmmOp → Prop
  | .alloc size => AllocAllowed c.vmm size →
    c.vmm.paging.pmm.failures < (endVmm (vmmAlloc c.vmm size)).paging.pmm.failures ∨
    ∃ s, vmmAlloc c.vmm size = .ok (c.vmm.nextVaddr, s) ∧
      ∀ n, ¬ (⟨c.vmm.nextVaddr, pagesNeeded size⟩ : Allocation).HasPage n →
        s.paging.pageFrame n = c.vmm.paging.pageFrame n
  | .free ptr => ∃ s, vmmFree c.vmm ptr = some s ∧
      ((∃ a ∈ c.live, a.base = ptr ∧ FreesAllocation c.vmm.paging a s.paging) ∨ s = c.vmm)

/-- **What must hold in every state**: live allocations have disjoint pages, mapped to used frames
of their own that hold no table, and the list of areas is a chain of distinct nodes with distinct
addresses. -/
structure VmmStateOk (c : VmmClients TableHeap) : Prop where
  disjoint : c.live.Pairwise fun a a' => ∀ n, a.HasPage n → ¬ a'.HasPage n
  backed : ∀ a ∈ c.live, ∀ i < a.pages, ∃ f, c.vmm.paging.pageFrame (areaPage a.base i) = some f ∧
    c.vmm.paging.pmm.testBit (frameOf f) = true ∧
    ∀ t, c.vmm.paging.IsTable t → frameOf t ≠ frameOf f
  unshared : ∀ a ∈ c.live, ∀ a' ∈ c.live, ∀ i < a.pages, ∀ i' < a'.pages, ∀ f f',
    c.vmm.paging.pageFrame (areaPage a.base i) = some f →
    c.vmm.paging.pageFrame (areaPage a'.base i') = some f' → frameOf f = frameOf f' →
    a = a' ∧ i = i'
  vmaList : ∃ ids, Chain (fun id => (c.vmm.vmaNodes id).next) c.vmm.vmaList ids ∧ ids.Nodup ∧
    (ids.map fun id => (c.vmm.vmaNodes id).vaddr).Nodup

variable {c c' : VmmClients TableHeap} {s s' t : Paging TableHeap} {size ptr base : U64} {k : ℕ}
  {a : Allocation} {live noted : List Allocation} {P : Fin (2 ^ 36) → Prop}

/-- With `size ≤ 2^64 - 4096` the rounding in `vmm_alloc` does not overflow. -/
theorem toNat_numPages (h : size.toNat ≤ 2 ^ 64 - 4096) :
    (numPages size).toNat = pagesNeeded size := by
  have h4095 : (4095 : U64).toNat = 4095 := rfl
  have h4096 : (4096 : U64).toNat = 4096 := rfl
  rw [numPages, BitVec.toNat_udiv, BitVec.toNat_add, h4095, h4096, Nat.mod_eq_of_lt (by omega)]
  rfl

theorem AllocAllowed.pagesNeeded_pos (h : AllocAllowed c.vmm size) : 0 < pagesNeeded size := by
  have := h.1
  unfold pagesNeeded
  omega

/-- A pass of the loop of `vmm_free` over an allocation. -/
theorem UnmapsArea.freesAllocation (hp : PagesOk s P) (hu : UnmapsArea s P a.base a.pages s')
    (hP : ∀ i < a.pages, P (areaPage a.base i)) : FreesAllocation s a s' where
  pageFrame_eq n := by
    split_ifs with hn
    · obtain ⟨i, hi, rfl⟩ := hn
      exact hu.unmapped i hi
    · exact hu.pageFrame_eq n fun j hj he => hn ⟨j, hj, he⟩
  freed i hi := by
    obtain ⟨j, hj, -, hf, hused, -⟩ := hp.mapped _ (hP i hi)
    refine ⟨_, hf, ?_⟩
    rw [frameOf_frameAddr hj]
    exact ⟨hused, hu.freed i hi j hj hf⟩
  others j hj := by
    -- only a frame of the area or of a table that is gone can have changed, and it was in use
    rcases hs' : s'.pmm.testBit j with _ | _
    · have hs : s.pmm.testBit j = true := by
        rw [hs'] at hj
        simpa using hj.symm
      refine ⟨rfl, ?_⟩
      rcases hu.used_keep j hs with h | h
      · rw [hs'] at h
        cases h
      · exact h
    · rw [hs', hu.used_of j hs'] at hj
      exact absurd rfl hj

/-- Live allocations are mapped. -/
theorem filter_isMapped (h : PagesOk s (LivePage live)) {next : U64} (hl : LiveAreas next live) :
    (live.filter fun a => a.isMapped s) = live := by
  refine List.filter_eq_self.mpr fun a ha => List.any_eq_true.mpr ⟨0, ?_, ?_⟩
  · exact List.mem_range.mpr (hl.pos a ha)
  · obtain ⟨k, -, -, hf, -⟩ := h.mapped _ ⟨a, ha, 0, hl.pos a ha, rfl⟩
    rw [hf]
    rfl

/-- After an allocation has been unmapped, the others are. -/
theorem FreesAllocation.filter_isMapped (h : FreesAllocation s a s') {next : U64}
    (hp : PagesOk s (LivePage live)) (hl : LiveAreas next live) (ha : a ∈ live) :
    (live.filter fun b => b.isMapped s') = dropLive live a.base := by
  apply List.filter_congr
  intro b hb
  by_cases hab : b.base = a.base
  · obtain rfl := hl.eq_of_base hb ha hab
    rw [decide_eq_false (by simp), Allocation.isMapped, List.any_eq_false]
    intro i hi
    rw [h.pageFrame_eq, if_pos ⟨i, List.mem_range.mp hi, rfl⟩]
    simp
  · rw [decide_eq_true hab]
    refine List.any_eq_true.mpr ⟨0, List.mem_range.mpr (hl.pos b hb), ?_⟩
    have hn : ¬ a.HasPage (areaPage b.base 0) := fun hn =>
      hab (by rw [hl.eq_of_hasPage ha hb hn ⟨0, hl.pos b hb, rfl⟩])
    obtain ⟨k, -, -, hf, -⟩ := hp.mapped _ ⟨b, hb, 0, hl.pos b hb, rfl⟩
    rw [h.pageFrame_eq, if_neg hn, hf]
    rfl

/-! ## Every run -/

/-- The invariant of the runs: no area of the list is empty. -/
def ClientsInv (c : VmmClients TableHeap) : Prop :=
  ∃ noted, VmmInv c.vmm noted c.live ∧ ∀ a ∈ noted, 0 < a.pages

/-- The outcomes of an allowed `vmm_alloc`. -/
theorem ClientsInv.alloc (h : ClientsInv c) (ha : AllocAllowed c.vmm size) :
    (c.vmm.paging.pmm.failures < (endVmm (vmmAlloc c.vmm size)).paging.pmm.failures ∧
      (c.vmm.paging.pmm.testBit 0 = true →
        c.vmm.paging.pmm.freeFrames.card < 4 * pagesNeeded size)) ∨
    ∃ t, vmmAlloc c.vmm size = .ok (c.vmm.nextVaddr, finishAlloc t size) ∧
      MapsArea c.vmm (LivePage c.live) c.vmm.nextVaddr (pagesNeeded size) t ∧
      ClientsInv ⟨finishAlloc t size, ⟨c.vmm.nextVaddr, pagesNeeded size⟩ :: c.live⟩ := by
  obtain ⟨noted, hinv, hpos⟩ := h
  have hn := toNat_numPages ha.2.1
  have hk := ha.pagesNeeded_pos
  rcases hinv.alloc size (by rw [hn]; exact ha.2.2.trans (by decide)) with hfail |
    ⟨t, -, ht, hm, hinv'⟩
  · exact .inl (hn ▸ hfail)
  · rw [hn] at hm hinv'
    rw [addLive, if_neg hk.ne'] at hinv'
    refine .inr ⟨t, ht, hm, _, hinv', ?_⟩
    intro a ha
    rw [note] at ha
    split_ifs at ha
    · rcases List.mem_cons.mp ha with rfl | ha
      exacts [hk, hpos a ha]
    · exact hpos a ha

/-- The outcomes of `vmm_free`. -/
theorem ClientsInv.free (h : ClientsInv c) (ptr : U64) :
    vmmFree c.vmm ptr = some c.vmm ∨
    ∃ a ∈ c.live, ∃ s, a.base = ptr ∧ vmmFree c.vmm ptr = some s ∧
      FreesAllocation c.vmm.paging a s.paging ∧ ClientsInv ⟨s, dropLive c.live ptr⟩ := by
  obtain ⟨noted, hinv, hpos⟩ := h
  rcases hinv.free ptr with ⟨-, hf⟩ | ⟨xs, a, ys, s, rfl, -, rfl, hf, hu, -, -, -, -, hinv'⟩
  · exact .inl hf
  · have hapos : 0 < a.pages := hpos a (by simp)
    have hlive : a ∈ c.live := hinv.noted_live a (by simp) hapos
    rw [if_neg hapos.ne'] at hinv'
    refine .inr ⟨a, hlive, s, rfl, hf,
      hu.freesAllocation hinv.pages fun i hi => ⟨a, hlive, i, hi, rfl⟩, _, hinv', ?_⟩
    intro b hb
    exact hpos b ((List.Sublist.append_left (List.sublist_cons_self a ys) xs).subset hb)

theorem ClientsInv.callOk (h : ClientsInv c) (op : VmmOp) : VmmCallOk c op := by
  cases op with
  | alloc size =>
    intro ha
    rcases h.alloc ha with ⟨hlt, -⟩ | ⟨t, ht, hm, -⟩
    · exact .inl hlt
    · refine .inr ⟨_, ht, ?_⟩
      intro n hn
      rw [paging_finishAlloc]
      exact hm.pageFrame_eq n fun j hj he => hn ⟨j, hj, he⟩
  | free ptr =>
    rcases h.free ptr with hf | ⟨a, ha, s, rfl, hf, hfr, -⟩
    · exact ⟨_, hf, .inr rfl⟩
    · exact ⟨s, hf, .inl ⟨a, ha, rfl, hfr⟩⟩

/-- An allocation in which `pmm_alloc_frame` returned `NULL` is no step. -/
theorem countedAlloc_eq_none {α : Type} {s : Vmm TableHeap}
    (hlt : s.paging.pmm.failures < (endVmm (vmmAlloc s size)).paging.pmm.failures)
    (f : U64 → Vmm TableHeap → α) :
    (match vmmAlloc s size with
      | .ok (p, t) => if t.paging.pmm.failures = s.paging.pmm.failures then some (f p t) else none
      | .error _ => none) = none := by
  cases hresult : vmmAlloc s size with
  | error t => rfl
  | ok r =>
    rw [hresult] at hlt
    exact if_neg hlt.ne'

/-- The step lemma. -/
theorem ClientsInv.step (h : ClientsInv c) {op : VmmOp} (hs : vmmStep c op = some c') :
    ClientsInv c' := by
  cases op with
  | alloc size =>
    simp only [vmmStep] at hs
    split_ifs at hs with ha
    rcases h.alloc ha with ⟨hlt, -⟩ | ⟨t, ht, hm, hinv⟩
    · exact absurd (hs.symm.trans (countedAlloc_eq_none hlt _)) (Option.some_ne_none c')
    · rw [ht] at hs
      simp only [paging_finishAlloc, hm.failures_eq, if_true, Option.some.injEq] at hs
      exact hs ▸ hinv
  | free ptr =>
    obtain ⟨noted, hinv, hpos⟩ := id h
    rcases h.free ptr with hf | ⟨a, ha, s, rfl, hf, hfr, hinv'⟩ <;>
      simp only [vmmStep, hf, Option.map_some, Option.some.injEq] at hs
    · rw [filter_isMapped hinv.pages hinv.areas] at hs
      exact hs ▸ h
    · rw [hfr.filter_isMapped hinv.pages hinv.areas ha] at hs
      exact hs ▸ hinv'

/-- With four free frames a page, `vmm_alloc` finds the frames it needs, and with a node in the pool
it notes the area. -/
theorem VmmInv.exists_step_alloc (h : VmmInv c.vmm noted c.live) (ha : AllocAllowed c.vmm size)
    (h0 : c.vmm.paging.pmm.testBit 0 = true) (hc : c.vmm.vmaCount < 128)
    (hfree : 4 * pagesNeeded size ≤ c.vmm.paging.pmm.freeFrames.card) :
    ∃ t, vmmStep c (.alloc size) = some
        ⟨finishAlloc t size, ⟨c.vmm.nextVaddr, pagesNeeded size⟩ :: c.live⟩ ∧
      MapsArea c.vmm (LivePage c.live) c.vmm.nextVaddr (pagesNeeded size) t ∧
      VmmInv (finishAlloc t size) (⟨c.vmm.nextVaddr, pagesNeeded size⟩ :: noted)
        (⟨c.vmm.nextVaddr, pagesNeeded size⟩ :: c.live) := by
  have hn := toNat_numPages ha.2.1
  rcases h.alloc size (by rw [hn]; exact ha.2.2.trans (by decide)) with ⟨-, hfew⟩ |
    ⟨t, -, ht, hm, hinv⟩
  · have := hfew h0
    omega
  · rw [hn, note, if_pos hc, addLive, if_neg ha.pagesNeeded_pos.ne'] at hinv
    rw [hn] at hm
    refine ⟨t, ?_, hm, hinv⟩
    simp only [vmmStep, if_pos ha, ht, paging_finishAlloc, hm.failures_eq, if_true]

/-- An area that is noted is given back. -/
theorem VmmInv.exists_step_free (h : VmmInv c.vmm noted c.live) (hpos : ∀ a ∈ noted, 0 < a.pages)
    (ha : a ∈ noted) :
    ∃ s, vmmStep c (.free a.base) = some ⟨s, dropLive c.live a.base⟩ := by
  rcases h.free a.base with ⟨hnone, -⟩ | ⟨xs, b, ys, s, rfl, -, hbase, hf, hu, -⟩
  · exact absurd rfl (hnone a ha)
  · have hlive : b ∈ c.live := h.noted_live b (by simp) (hpos b (by simp))
    rw [← hbase] at hf hu ⊢
    have hfree := hu.freesAllocation h.pages fun i hi => ⟨b, hlive, i, hi, rfl⟩
    refine ⟨s, ?_⟩
    simp only [vmmStep, hf, Option.map_some, hfree.filter_isMapped h.pages h.areas hlive]

theorem ClientsInv.stateOk (h : ClientsInv c) : VmmStateOk c := by
  obtain ⟨noted, hinv, hpos⟩ := h
  have hframe : ∀ a ∈ c.live, ∀ i < a.pages, LivePage c.live (areaPage a.base i) :=
    fun a ha i hi => ⟨a, ha, i, hi, rfl⟩
  refine ⟨hinv.areas.disjoint, ?_,
    ?_,
    ?_⟩
  · intro a ha i hi
    obtain ⟨k, hk, -, hf, hused, hnt⟩ := hinv.pages.mapped _ (hframe a ha i hi)
    refine ⟨_, hf, ?_⟩
    rw [frameOf_frameAddr hk]
    exact ⟨hused, fun t ht => hinv.pages.wf.toPageTree.frameOf_ne hk hnt ht⟩
  · -- two live pages with one frame are one page, and a page is in one allocation
    intro a ha a' ha' i hi i' hi' f f' hf hf' he
    obtain ⟨k, hk, -, rfl, -⟩ := hinv.pages.frame_of (hframe a ha i hi) hf
    obtain ⟨k', hk', -, rfl, -⟩ := hinv.pages.frame_of (hframe a' ha' i' hi') hf'
    rw [frameOf_frameAddr hk, frameOf_frameAddr hk'] at he
    have hpage := hinv.pages.inj _ _ _ (hframe a ha i hi) (hframe a' ha' i' hi') hf (he ▸ hf')
    obtain rfl := hinv.areas.eq_of_hasPage ha ha' ⟨i, hi, rfl⟩ ⟨i', hi', hpage⟩
    exact ⟨rfl, areaPage_inj (hinv.areas.low a ha) hi hi' hpage⟩
  · obtain ⟨ids, hids, rfl⟩ := hinv.list
    refine ⟨ids, hids.chain, hids.nodup, ?_⟩
    -- an area that is not empty lies strictly above the older ones
    rw [List.Nodup, List.pairwise_map]
    apply hids.sorted.imp_of_mem
    intro _ _ _ hy hle he
    have := hpos _ (List.mem_map_of_mem hy)
    rw [pages_allocation] at this
    rw [he] at hle
    omega

/-- **The virtual memory manager is right in every run.** From well-formed tables and an empty list,
and for all allowed calls: every call does what it must, and what must hold in every state does. -/
theorem vmm_run_correct (s : Vmm TableHeap) (hs : WellFormed s.paging) (hl : s.vmaList = none)
    (ops : List VmmOp) :
    AllSteps vmmStep VmmCallOk { vmm := s, live := [] } ops ∧
    ∀ c, run vmmStep { vmm := s, live := [] } ops = some c →
      VmmStateOk c ∧ WellFormed c.vmm.paging := by
  have hinv : ClientsInv { vmm := s, live := [] } := ⟨[], vmmInv_nil hs hl, by simp⟩
  have hall : ∀ c : VmmClients TableHeap, ∀ as, AllSteps vmmStep (fun _ _ => True) c as :=
    AllSteps.of_forall fun _ _ => trivial
  refine ⟨?_, ?_⟩
  · exact AllSteps.consequence (fun c op c' hc _ hstep => ClientsInv.step hc hstep)
      (fun c op hc _ => ClientsInv.callOk hc op) hinv (hall _ ops)
  · intro c hrun
    have hc : ClientsInv c :=
      run_invariant (fun c op c' hc _ hstep => ClientsInv.step hc hstep) hinv (hall _ ops) hrun
    obtain ⟨noted, hinv, -⟩ := id hc
    exact ⟨hc.stateOk, hinv.pages.wf⟩

/-- From empty tables: of two areas the first is given back, and the second is still right. -/
theorem vmm_run_correct_sample : ∃ c,
    run vmmStep { vmm := vmmBoot Sample.paging, live := [] }
      [.alloc 4096, .alloc 8192, .free 0x10000000] = some c ∧
    c.live = [⟨0x10001000, 2⟩] ∧ VmmStateOk c := by
  have hone : pagesNeeded 4096 = 1 := by decide
  have htwo : pagesNeeded 8192 = 2 := by decide
  have hcard : (vmmBoot Sample.paging).paging.pmm.freeFrames.card = 129024 := by
    show Sample.pmm.freeFrames.card = _
    rw [Sample.freeFrames_pmm]
    simp
  obtain ⟨t₁, hs₁, hm₁, h₁⟩ := VmmInv.exists_step_alloc
    (c := { vmm := vmmBoot Sample.paging, live := [] })
    (vmmInv_nil Sample.wellFormed_paging rfl) (by decide : AllocAllowed _ 4096)
    (Sample.testBit_pmm (by omega)) (by decide) (by rw [hone, hcard]; omega)
  have hbase : t₁.nextVaddr = 0x10000000 := by
    rw [hm₁.rest_eq]
    rfl
  have hnext : (finishAlloc t₁ 4096).nextVaddr = 0x10001000 := by
    rw [nextVaddr_finishAlloc, hbase]
    decide
  have hcount : (finishAlloc t₁ 4096).vmaCount = 1 := by
    rw [vmaCount_finishAlloc, hm₁.rest_eq]
    rfl
  obtain ⟨t₂, hs₂, -, h₂⟩ := VmmInv.exists_step_alloc
    (c := ⟨finishAlloc t₁ 4096, [⟨0x10000000, pagesNeeded 4096⟩]⟩) h₁
    (by rw [AllocAllowed, hnext]; decide : AllocAllowed _ 8192)
    (by rw [paging_finishAlloc]; exact hm₁.used_mono 0 (Sample.testBit_pmm (by omega)))
    (by rw [hcount]; decide) (by
      have hleft := hm₁.card_free_le
      rw [hcard, hone] at hleft
      show 4 * pagesNeeded 8192 ≤ (finishAlloc t₁ 4096).paging.pmm.freeFrames.card
      rw [paging_finishAlloc, htwo]
      omega)
  rw [hnext, hone, htwo] at h₂ hs₂
  obtain ⟨s₃, hs₃⟩ := VmmInv.exists_step_free (c := ⟨finishAlloc t₂ 8192, _⟩)
    (a := ⟨0x10000000, 1⟩) h₂
    (List.forall_mem_cons.mpr ⟨Nat.succ_pos 1, List.forall_mem_singleton.mpr (Nat.succ_pos 0)⟩)
    (List.mem_cons_of_mem _ (List.mem_singleton_self _))
  have hrun : run vmmStep { vmm := vmmBoot Sample.paging, live := [] }
      [.alloc 4096, .alloc 8192, .free 0x10000000] = some ⟨s₃, [⟨0x10001000, 2⟩]⟩ := by
    refine run_cons_eq_some.mpr ⟨_, hs₁, run_cons_eq_some.mpr ⟨_, ?_, run_cons_eq_some.mpr
      ⟨_, hs₃, ?_⟩⟩⟩
    · rw [hone]
      exact hs₂
    · rfl
  exact ⟨_, hrun, rfl, ((vmm_run_correct _ Sample.wellFormed_paging rfl _).2 _ hrun).1⟩

end OS44
