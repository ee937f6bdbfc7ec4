import OS44.Mem.VmmOnBytes

/-! # The pool of 128 nodes

`vmm_alloc` notes an area only while the pool has a node left, and the counter of the pool never
goes down. As long as every area is noted, `vmm_free` gives back everything and no frame is lost
(`vmm_pool_run`); from the 129th allocation on areas cannot be freed any more
(`vmm_pool_exhausted`).

The invariant behind the first part says where the frames that `vmm_alloc` has handed out are
(`Conserved`): a frame still in use backs a live page or has become a page table, and such a table
leads to live pages only. -/

namespace OS44

open Runs LinkedTree TableMemory

variable {s s' : Paging TableHeap} {v w b f base : U64} {k : ℕ} {n : Fin (2 ^ 36)}
  {P Q : Fin (2 ^ 36) → Prop} {H : List (U64 × U64)} {q : List (Fin 512)}

/-! ## Where the frames are -/

/-- A table other than the root leads to a mapped page. -/
theorem WellFormed.exists_page (h : WellFormed s) (hb : s.IsTable b) (hne : b ≠ s.pml4) :
    ∃ n q, q <+: pagePath n ∧ q.length ≤ 3 ∧ walk (link s.mem) s.pml4 q = some b ∧
      s.pageFrame n ≠ none := by
  obtain ⟨q, hlen, hq⟩ := hb
  have hq0 : q ≠ [] := by
    rintro rfl
    exact hne (Option.some.inj hq).symm
  obtain ⟨p, c, hqp, hp, hc⟩ := exists_walk_of_slotCount_pos (d := 4)
    (fun p c hqp hpd hw => by
      have hp0 : p ≠ [] := fun hp => hq0 (List.prefix_nil.mp (hp ▸ hqp))
      exact h.nonempty p c hp0 (by omega) hw (h.toPageTree.ne_root hp0 (by omega) hw))
    hq (by omega)
  obtain ⟨n, rfl⟩ := exists_pagePath_eq hp
  exact ⟨n, q, hqp, hlen, hq, by rw [Paging.pageFrame, hc]; simp⟩

/-- **Where the frames handed out are.** `H` are the pages and frames handed out, `P` the live
pages. A frame that is still in use is a table's or backs a live page; the tables on the way to
other pages are in none of the frames. -/
structure Conserved (s : Paging TableHeap) (P : Fin (2 ^ 36) → Prop) (H : List (U64 × U64)) :
    Prop where
  frame : ∀ h ∈ H, ∃ k < 2 ^ 20, h.2 = frameAddr k
  root : ∀ h ∈ H, frameOf h.2 ≠ frameOf s.pml4
  owned : ∀ h ∈ H, s.pmm.testBit (frameOf h.2) = true →
    (∃ b, s.IsTable b ∧ frameOf b = frameOf h.2) ∨ ∃ n, P n ∧ s.pageFrame n = some h.2
  foreign : ∀ h ∈ H, ∀ n, ¬ P n → s.pageFrame n ≠ none → ∀ q b, q <+: pagePath n → q.length ≤ 3 →
    walk (link s.mem) s.pml4 q = some b → frameOf b ≠ frameOf h.2

theorem Conserved.nil (s : Paging TableHeap) (P : Fin (2 ^ 36) → Prop) : Conserved s P [] :=
  ⟨by simp, by simp, by simp, by simp⟩

theorem Conserved.congr (h : Conserved s P H) (hPQ : ∀ n, Q n ↔ P n) : Conserved s Q H := by
  have : Q = P := funext fun n => propext (hPQ n)
  rwa [this]

/-- **Without live pages every frame handed out is free**: a table left would lead to
a live page. -/
theorem Conserved.all_free (h : Conserved s P H) (hwf : WellFormed s) (hP : ∀ n, ¬ P n)
    {x : U64 × U64} (hx : x ∈ H) : s.pmm.testBit (frameOf x.2) = false := by
  by_contra hc
  rw [Bool.not_eq_false] at hc
  rcases h.owned x hx hc with ⟨b, hb, hbx⟩ | ⟨n, hn, -⟩
  · have hne : b ≠ s.pml4 := fun he => h.root x hx (by rw [← hbx, he])
    obtain ⟨n, q, hqp, hlen, hq, hn⟩ := hwf.exists_page hb hne
    exact h.foreign x hx n (hP n) hn q b hqp hlen hq hbx
  · exact hP n hn

/-- The step lemma of `vmm_alloc`. -/
theorem Conserved.alloc (h : Conserved s P H) (ha : AllocsPage s v k s') (hv : ¬ P (pageOf v)) :
    Conserved s' (fun n => P n ∨ n = pageOf v) ((w, frameAddr k) :: H) := by
  have htree := ha.wf.toPageTree
  have hmono : ∀ b, s.IsTable b → s'.IsTable b := fun b ⟨q, hlen, hq⟩ =>
    ⟨q, hlen, ha.walk_mono q b hlen hq⟩
  have hself : ∀ b, s'.IsTable b → frameOf b ≠ frameOf (frameAddr k) := fun b hb => by
    rw [frameOf_frameAddr ha.lt]
    exact htree.frameOf_ne ha.lt ha.not_table hb
  refine ⟨?_, ?_, ?_, ?_⟩
  · intro x hx
    rcases List.mem_cons.mp hx with rfl | hx
    exacts [⟨k, ha.lt, rfl⟩, h.frame x hx]
  · intro x hx
    rcases List.mem_cons.mp hx with rfl | hx
    · exact (hself _ isNode_root).symm
    · rw [ha.pml4_eq]
      exact h.root x hx
  · intro x hx hu
    rcases List.mem_cons.mp hx with rfl | hx
    · exact .inr ⟨pageOf v, .inr rfl, by rw [ha.pageFrame_eq, if_pos rfl]⟩
    · -- a frame in use now was taken in this call, or was in use before
      obtain ⟨j, hj, hxj⟩ := h.frame x hx
      rcases hold : s.pmm.testBit (frameOf x.2) with _ | _
      · rcases ha.taken _ hold hu with hjk | hb
        · refine .inr ⟨pageOf v, .inr rfl, ?_⟩
          rw [hxj, frameOf_frameAddr hj] at hjk
          rw [ha.pageFrame_eq, if_pos rfl, hxj, hjk]
        · exact .inl hb
      · rcases h.owned x hx hold with ⟨b, hb, hbx⟩ | ⟨n, hn, hf⟩
        · exact .inl ⟨b, hmono b hb, hbx⟩
        · have hnv : n ≠ pageOf v := fun he => hv (he ▸ hn)
          exact .inr ⟨n, .inl hn, by rw [ha.pageFrame_eq, if_neg hnv, hf]⟩
  · intro x hx n hn hf q b hqp hlen hq
    rw [not_or] at hn
    rw [ha.pageFrame_eq, if_neg hn.2] at hf
    -- the tables on the way to a page that was mapped before are the old ones
    obtain ⟨g, hg⟩ := Option.ne_none_iff_exists'.mp hf
    obtain ⟨b', hb'⟩ := exists_walk_of_below hqp hg
    rw [ha.walk_mono q b' hlen hb'] at hq
    obtain rfl := Option.some.inj hq
    rcases List.mem_cons.mp hx with rfl | hx
    · exact hself _ (hmono _ ⟨q, hlen, hb'⟩)
    · exact h.foreign x hx n hn.1 hf q b' hqp hlen hb'

/-- The step lemma of `vmm_free`. -/
theorem Conserved.free (h : Conserved s P H) (hfr : FreesPage s v k s') (hk : k < 2 ^ 20)
    (hf : s.pageFrame (pageOf v) = some (frameAddr k)) :
    Conserved s' (fun n => P n ∧ n ≠ pageOf v) H := by
  refine ⟨h.frame, ?_, ?_, ?_⟩
  · intro x hx
    rw [hfr.pml4_eq]
    exact h.root x hx
  · intro x hx hu
    obtain ⟨j, hj, hxj⟩ := h.frame x hx
    rcases h.owned x hx (hfr.used_of _ hu) with ⟨b, hb, hbx⟩ | ⟨n, hn, hfn⟩
    · -- a table that is gone has given its frame back, so this one is still there
      refine .inl ⟨b, ?_, hbx⟩
      have hlt : frameOf b < 2 ^ 20 := by rw [hbx, hxj, frameOf_frameAddr hj]; exact hj
      rcases hfr.lost_free b hb hlt with hb' | hb'
      · exact hb'
      · rw [hbx, hu] at hb'
        cases hb'
    · have hnv : n ≠ pageOf v := by
        rintro rfl
        rw [hf] at hfn
        rw [← Option.some.inj hfn, frameOf_frameAddr hk, hfr.freed] at hu
        cases hu
      exact .inr ⟨n, ⟨hn, hnv⟩, by rw [hfr.pageFrame_eq, if_neg hnv, hfn]⟩
  · intro x hx n hn hfn q b hqp hlen hq
    have hnv : n ≠ pageOf v := by
      rintro rfl
      exact hfn (by rw [hfr.pageFrame_eq, if_pos rfl])
    rw [hfr.pageFrame_eq, if_neg hnv] at hfn
    exact h.foreign x hx n (fun hP => hn ⟨hP, hnv⟩) hfn q b hqp hlen (hfr.walk_of q b hlen hq)

/-! ## The loops -/

/-- The loop of `vmm_alloc` over pages that are not live. -/
theorem Conserved.allocPages {t t' : Vmm TableHeap} {N : ℕ} (h : Conserved t.paging P t.handed)
    (hp : PagesOk t.paging P) (hP : ∀ i < N, ¬ P (areaPage base i))
    (hne : ∀ i < N, ∀ j < i, areaPage base i ≠ areaPage base j)
    (ht : allocPages base 0 N t = .ok (true, t'))
    (hnf : t'.paging.pmm.failures = t.paging.pmm.failures) :
    Conserved t'.paging (fun n => P n ∨ ∃ j < N, n = areaPage base j) t'.handed := by
  rcases allocPages_rule base N
      (I := fun i u => PagesOk u.paging (fun n => P n ∨ ∃ j < i, n = areaPage base j) ∧
        Conserved u.paging (fun n => P n ∨ ∃ j < i, n = areaPage base j) u.handed)
      (fun i u hu => hu.1.wf)
      (fun i u k p hi hu ha => by
        have hstep : ∀ n, (P n ∨ ∃ j < i + 1, n = areaPage base j) ↔
            (P n ∨ ∃ j < i, n = areaPage base j) ∨
              n = pageOf (base + BitVec.ofNat 64 i * 4096) := fun n => by
          rw [Nat.exists_lt_succ_right, or_assoc]
          rfl
        refine ⟨(hu.1.alloc ha).congr hstep, (hu.2.alloc ha ?_).congr hstep⟩
        rintro (hPi | ⟨j, hj, hij⟩)
        exacts [hP i hi hPi, hne i hi j hj hij])
      (Nat.zero_add N) (t := t) ⟨hp.congr (by simp), h.congr (by simp)⟩ with ⟨hlt, -⟩ | ⟨u, hu, hI⟩
  · rw [ht] at hlt
    exact absurd hnf hlt.ne'
  · rw [ht] at hu
    obtain rfl : t' = u := (Prod.mk.inj (Except.ok.inj hu)).2
    exact hI.2

/-- The loop of `vmm_free` over live pages. -/
theorem Conserved.freePages {N : ℕ} (h : Conserved s P H) (hp : PagesOk s P)
    (hP : ∀ i < N, P (areaPage base i))
    (hne : ∀ i < N, ∀ j < i, areaPage base i ≠ areaPage base j) :
    Conserved (freePages s base N) (fun n => P n ∧ ∀ j < N, n ≠ areaPage base j) H := by
  refine (freePages_rule base N
    (I := fun i u => PagesOk u (fun n => P n ∧ ∀ j < i, n ≠ areaPage base j) ∧
      Conserved u (fun n => P n ∧ ∀ j < i, n ≠ areaPage base j) H)
    (fun i u hi hu => ?_) ⟨hp.congr (by simp), h.congr (by simp)⟩).2
  have hstep : ∀ n, (P n ∧ ∀ j < i + 1, n ≠ areaPage base j) ↔
      (P n ∧ ∀ j < i, n ≠ areaPage base j) ∧
        n ≠ pageOf (base + BitVec.ofNat 64 i * 4096) := fun n => by
    rw [Nat.forall_lt_succ_right, and_assoc]
    rfl
  obtain ⟨k, hk, hf, hfr, hp'⟩ := hu.1.free (v := base + BitVec.ofNat 64 i * 4096)
    ⟨hP i hi, hne i hi⟩
  exact ⟨hp'.congr hstep, (hu.2.free hfr hk hf).congr hstep⟩

/-! ## Runs -/

/-- One call, as its callers see it: an allocation is theirs until they give it back. `none` if
`pmm_alloc_frame` returned `NULL` in it or it did not come back. -/
def clientStep {M : Type} [TableMemory M] (c : VmmClients M) : VmmOp → Option (VmmClients M)
  | .alloc size =>
    match vmmAlloc c.vmm size with
    | .ok (p, s) =>
      if s.paging.pmm.failures = c.vmm.paging.pmm.failures then
        some { vmm := s, live := addLive c.live p (numPages size).toNat }
      else none
    | .error _ => none
  | .free ptr => (vmmFree c.vmm ptr).map fun s => { vmm := s, live := dropLive c.live ptr }

/-- A `vmm_alloc` that is a step has come back, and found its frames. -/
theorem clientStep_alloc {M : Type} [TableMemory M] {c c' : VmmClients M} {size : U64}
    (hs : clientStep c (.alloc size) = some c') : ∃ p s, vmmAlloc c.vmm size = .ok (p, s) ∧
      s.paging.pmm.failures = c.vmm.paging.pmm.failures ∧
      c' = { vmm := s, live := addLive c.live p (numPages size).toNat } := by
  rcases hret : vmmAlloc c.vmm size with u | ⟨p, u⟩ <;> simp only [clientStep, hret] at hs
  · cases hs
  · split_ifs at hs with hf
    exact ⟨p, u, rfl, hf, (Option.some.inj hs).symm⟩

/-- **What `vmm_free` must do** with a live allocation: its pages, which were mapped, are unmapped,
and their frames are free. -/
def FreeOk {M : Type} [TableMemory M] (c : VmmClients M) : VmmOp → Prop
  | .alloc _ => True
  | .free ptr => ∃ s, vmmFree c.vmm ptr = some s ∧ ∀ a ∈ c.live, a.base = ptr → ∀ i < a.pages,
      s.paging.pageFrame (areaPage ptr i) = none ∧
      ∃ f, c.vmm.paging.pageFrame (areaPage ptr i) = some f ∧
        s.paging.pmm.testBit (frameOf f) = false

/-- A `vmm_alloc` that maps pages finds a node left in the pool. -/
def NodeLeft {M : Type} (c : VmmClients M) : VmmOp → Prop
  | .alloc size => (numPages size).toNat ≠ 0 → c.vmm.vmaCount < 128
  | .free _ => True

/-- The invariant of the runs: every live allocation is in the list. -/
structure PoolInv (c : VmmClients TableHeap) (noted : List Allocation) : Prop where
  inv : VmmInv c.vmm noted c.live
  live_noted : ∀ a ∈ c.live, a ∈ noted
  conserved : Conserved c.vmm.paging (LivePage c.live) c.vmm.handed
  total : c.vmm.paging.pmm.totalFrames = 2 ^ 20
  count_le : c.vmm.vmaCount ≤ 128
  next_le : c.vmm.nextVaddr.toNat ≤ 2 ^ 28 + c.vmm.vmaCount * 2 ^ 32

variable {c c' : VmmClients TableHeap} {noted : List Allocation} {size ptr : U64} {op : VmmOp}

/-- The step lemma for `vmm_alloc`. -/
theorem PoolInv.alloc (h : PoolInv c noted) (hc : NodeLeft c (.alloc size))
    (hs : clientStep c (.alloc size) = some c') : ∃ noted', PoolInv c' noted' := by
  obtain ⟨p, s, hret, hf, rfl⟩ := clientStep_alloc hs
  have hfail : ¬ c.vmm.paging.pmm.failures <
      (endVmm (vmmAlloc c.vmm size)).paging.pmm.failures := by
    rw [hret]
    exact hf.not_gt
  have hn := ((h.inv.numPages_le h.total size).resolve_left hfail).trans
    (h.total ▸ Pmm.card_freeFrames_le _)
  have hcount := h.count_le
  have hnext := h.next_le
  have hlow : c.vmm.nextVaddr.toNat + 4096 * (numPages size).toNat ≤ 2 ^ 48 := by omega
  obtain ⟨t, ht, hret', hm, hinv⟩ :=
    (h.inv.alloc size hlow).resolve_left fun hlt => hfail hlt.1
  obtain ⟨rfl, rfl⟩ := Prod.mk.inj (Except.ok.inj (hret.symm.trans hret'))
  have hnext' : t.nextVaddr = c.vmm.nextVaddr := by rw [hm.rest_eq]
  have hcount' : t.vmaCount = c.vmm.vmaCount := by rw [hm.rest_eq]
  refine ⟨_, hinv, ?_, ?_, ?_, ?_, ?_⟩
  · intro a ha
    rw [addLive] at ha
    split_ifs at ha with h0
    · exact subset_note _ _ _ (h.live_noted a ha)
    · rcases List.mem_cons.mp ha with rfl | ha
      · rw [note, if_pos (hc h0)]
        exact List.mem_cons_self
      · exact subset_note _ _ _ (h.live_noted a ha)
  · rw [paging_finishAlloc, handed_finishAlloc]
    refine (h.conserved.allocPages h.inv.pages (fun i hi => h.inv.areas.not_livePage hlow hi)
      (fun i hi j hj he => ?_) ht hm.failures_eq).congr fun n => livePage_addLive
    exact absurd (areaPage_inj hlow hi (hj.trans hi) he) (by omega)
  · rw [paging_finishAlloc, hm.total_eq]
    exact h.total
  · rw [vmaCount_finishAlloc, hcount']
    split_ifs <;> omega
  · -- at most 2^20 pages for each node of the pool
    rw [toNat_nextVaddr_finishAlloc (by rw [hnext', toNat_numPages_mul]; omega), hnext',
      toNat_numPages_mul, vmaCount_finishAlloc, hcount']
    by_cases h0 : (numPages size).toNat = 0
    · split_ifs <;> omega
    · rw [if_pos (hc h0)]
      omega

/-- With every live allocation in the list, the area found at an address is the live one, if there
is a live one. -/
theorem VmmInv.eq_of_base {s : Vmm TableHeap} {live xs ys : List Allocation} {a b : Allocation}
    (h : VmmInv s (xs ++ a :: ys) live) (hnoted : ∀ b ∈ live, b ∈ xs ++ a :: ys)
    (hxs : ∀ b ∈ xs, b.base ≠ a.base) (hb : b ∈ live) (hba : b.base = a.base) : b = a := by
  rcases List.mem_append.mp (hnoted b hb) with hx | hay
  · exact absurd hba (hxs b hx)
  · rcases List.mem_cons.mp hay with rfl | hy
    · rfl
    · have hpos := h.areas.pos b hb
      have hzero := pages_eq_zero_of_sorted h.sorted hy hba
      omega

/-- An empty area has no live allocation at its address. -/
theorem VmmInv.drop_eq {s : Vmm TableHeap} {live xs ys : List Allocation} {a : Allocation}
    (h : VmmInv s (xs ++ a :: ys) live) (hnoted : ∀ b ∈ live, b ∈ xs ++ a :: ys)
    (hxs : ∀ b ∈ xs, b.base ≠ a.base) :
    (if a.pages = 0 then live else dropLive live a.base) = dropLive live a.base := by
  split_ifs with h0
  · apply (dropLive_eq_self fun b hb hba => ?_).symm
    have hpos := h.areas.pos b hb
    rw [h.eq_of_base hnoted hxs hb hba] at hpos
    omega
  · rfl

/-- The step lemma for `vmm_free`. -/
theorem PoolInv.free (h : PoolInv c noted) (ptr : U64) : FreeOk c (.free ptr) ∧
    ∃ s noted', vmmFree c.vmm ptr = some s ∧ PoolInv ⟨s, dropLive c.live ptr⟩ noted' := by
  rcases h.inv.free ptr with ⟨hnone, hf⟩ | ⟨xs, a, ys, s, rfl, hxs, rfl, hf, hu, hpag,
    hcount, hnext,
    hhanded, hinv⟩
  · -- no area is noted at this address, so none is live there
    have hlive : ∀ a ∈ c.live, a.base ≠ ptr := fun a ha => hnone a (h.live_noted a ha)
    refine ⟨⟨_, hf, fun a ha hb => absurd hb (hlive a ha)⟩, _, noted, hf, ?_⟩
    rw [dropLive_eq_self hlive]
    exact h
  have hlive : 0 < a.pages → a ∈ c.live := h.inv.noted_live a (by simp)
  have hdrop := h.inv.drop_eq h.live_noted hxs
  rw [hdrop] at hinv
  refine ⟨⟨s, hf, ?_⟩, s, _, hf, hinv, ?_, ?_, ?_, ?_, ?_⟩
  · intro b hb hba i hi
    obtain rfl := h.inv.eq_of_base h.live_noted hxs hb hba
    obtain ⟨k, hk, -, hfk, -⟩ := h.inv.pages.mapped _ ⟨b, hb, i, hi, rfl⟩
    refine ⟨hu.unmapped i hi, _, hfk, ?_⟩
    rw [frameOf_frameAddr hk]
    exact hu.freed i hi k hk hfk
  · intro b hb
    obtain ⟨hb, hba⟩ := mem_dropLive.mp hb
    have hmem := h.live_noted b hb
    simp only [List.mem_append, List.mem_cons] at hmem ⊢
    exact hmem.imp_right fun hor => hor.resolve_left fun he => hba (he ▸ rfl)
  · have hpages : ∀ i < a.pages, LivePage c.live (areaPage a.base i) := fun i hi =>
      ⟨a, hlive (by omega), i, hi, rfl⟩
    rw [hpag, hhanded, ← hdrop]
    refine (h.conserved.freePages h.inv.pages hpages fun i hi j hj he => ?_).congr fun n =>
      h.inv.areas.livePage_drop hlive
    exact absurd (areaPage_inj (h.inv.areas.low a (hlive (by omega))) hi
      (hj.trans hi) he) (by omega)
  · rw [hu.total_eq]
    exact h.total
  · rw [hcount]
    exact h.count_le
  · rw [hcount, hnext]
    exact h.next_le

/-- With four free frames a page, `vmm_alloc` finds the frames it needs. -/
theorem ClientsInv.clientStep_alloc (h : ClientsInv c) (ha : AllocAllowed c.vmm size)
    (h0 : c.vmm.paging.pmm.testBit 0 = true)
    (hfree : 4 * pagesNeeded size ≤ c.vmm.paging.pmm.freeFrames.card) :
    ∃ t, clientStep c (.alloc size) =
        some ⟨finishAlloc t size, ⟨c.vmm.nextVaddr, pagesNeeded size⟩ :: c.live⟩ ∧
      MapsArea c.vmm (LivePage c.live) c.vmm.nextVaddr (pagesNeeded size) t ∧
      ClientsInv ⟨finishAlloc t size, ⟨c.vmm.nextVaddr, pagesNeeded size⟩ :: c.live⟩ := by
  rcases h.alloc ha with ⟨-, hfew⟩ | ⟨t, ht, hm, hinv⟩
  · have := hfew h0
    omega
  · refine ⟨t, ?_, hm, hinv⟩
    simp only [clientStep, ht, paging_finishAlloc, hm.failures_eq, if_true, addLive,
      toNat_numPages ha.2.1, if_neg ha.pagesNeeded_pos.ne']

/-! ## On tables in memory -/

/-- **The layout**: at every `paging_map` of the call no counter but the root's lies in a table. -/
def CountersSpaced {M : Type} [TableMemory M] (c : VmmClients M) : VmmOp → Prop
  | .alloc size => AreaMeets MapSpaced c.vmm (numPages size).toNat
  | .free _ => True

/-- **The clients in step**, on tables in memory and on structs. -/
structure ClientsInStep (c : VmmClients TableBytes) (d : VmmClients TableHeap) : Prop where
  vmm : VmmInStep True c.vmm d.vmm
  live_eq : c.live = d.live

section Bytes

variable {c c' : VmmClients TableBytes} {d : VmmClients TableHeap}

theorem keepsStep_mapSpaced : KeepsStep True MapSpaced :=
  fun _ _ _ hs hl => hs.mapApart_of_spaced hl

/-- A `vmm_alloc` is a step in both or in neither. -/
theorem ClientsInStep.alloc (h : ClientsInStep c d) (hl : CountersSpaced c (.alloc size)) :
    (clientStep c (.alloc size) = none ∧ clientStep d (.alloc size) = none) ∨
    ∃ c' d', clientStep c (.alloc size) = some c' ∧ clientStep d (.alloc size) = some d' ∧
      ClientsInStep c' d' := by
  have hcall := h.vmm.vmmAlloc keepsStep_mapSpaced hl
  have hpmm : c.vmm.paging.pmm = d.vmm.paging.pmm := h.vmm.paging.stored.pmm_eq
  rcases hc : vmmAlloc c.vmm size with s | ⟨p, s⟩ <;>
    rcases hd : vmmAlloc d.vmm size with t | ⟨q, t⟩ <;> rw [hc, hd] at hcall <;> cases hcall
  · exact .inl ⟨by simp only [clientStep, hc], by simp only [clientStep, hd]⟩
  · next hst =>
    have hpmm' : s.paging.pmm = t.paging.pmm := hst.paging.stored.pmm_eq
    simp only [clientStep, hc, hd, hpmm, hpmm']
    split_ifs
    · exact .inr ⟨_, _, rfl, rfl, hst, by rw [h.live_eq]⟩
    · exact .inl ⟨rfl, rfl⟩

/-- While an area is unmapped page by page its tables stay a tree. -/
theorem VmmInv.pageTree_freePages {s : Vmm TableHeap} {live : List Allocation} {a : Allocation}
    (h : VmmInv s noted live) (ha : a ∈ noted) {i : ℕ} (hi : i ≤ a.pages) :
    PageTree (freePages s.paging a.base i) := by
  rcases Nat.eq_zero_or_pos a.pages with h0 | hpos
  · obtain rfl : i = 0 := by omega
    exact h.pages.wf.toPageTree
  · have hlive := h.noted_live _ ha hpos
    have hlow := h.areas.low _ hlive
    exact (UnmapsArea.freePages h.pages (by omega) fun j hj =>
      ⟨_, hlive, j, by omega, rfl⟩).pages.wf.toPageTree

/-- A `vmm_free` comes back in both. -/
theorem ClientsInStep.free (h : ClientsInStep c d) (hinv : VmmInv d.vmm noted d.live) (ptr : U64) :
    ∃ s t, vmmFree c.vmm ptr = some s ∧ vmmFree d.vmm ptr = some t ∧ VmmInStep True s t := by
  obtain ⟨ids, hids, hnoted⟩ := hinv.list
  refine h.vmm.vmmFree hids.poolChain ptr fun id hid i hi => ?_
  exact hinv.pageTree_freePages (a := (d.vmm.vmaNodes id).allocation)
    (hnoted ▸ List.mem_map_of_mem hid) hi

/-- A `vmm_free` is right in memory if it is right on structs. -/
theorem ClientsInStep.freeOk_iff (h : ClientsInStep c d) (hinv : VmmInv d.vmm noted d.live)
    (op : VmmOp) : FreeOk c op ↔ FreeOk d op := by
  cases op with
  | alloc size => exact Iff.rfl
  | free ptr =>
    obtain ⟨s, t, hs, ht, hst⟩ := h.free hinv ptr
    have hpage := hst.paging.stored.pageFrame_eq fun _ ha => ha
    have hpage' := h.vmm.paging.stored.pageFrame_eq fun _ ha => ha
    simp only [FreeOk, hs, ht, Option.some.injEq, exists_eq_left', h.live_eq, hpage, hpage',
      hst.paging.stored.pmm_eq]

/-- The step lemma: the clients stay in step with a state of structs that has the invariant. -/
theorem ClientsInStep.step (h : ClientsInStep c d) (hp : PoolInv d noted) (hn : NodeLeft c op)
    (hl : CountersSpaced c op) (hs : clientStep c op = some c') :
    ∃ d' noted', ClientsInStep c' d' ∧ PoolInv d' noted' := by
  cases op with
  | alloc size =>
    have hcount : d.vmm.vmaCount = c.vmm.vmaCount := by rw [h.vmm.rest_eq]; rfl
    rcases h.alloc hl with ⟨hnone, -⟩ | ⟨c₁, d', hc, hd, hcd⟩
    · rw [hnone] at hs
      cases hs
    · obtain rfl := Option.some.inj (hc.symm.trans hs)
      obtain ⟨noted', hp'⟩ := hp.alloc (fun h0 => hcount ▸ hn h0) hd
      exact ⟨d', noted', hcd, hp'⟩
  | free ptr =>
    obtain ⟨s, t, hs', ht, hst⟩ := h.free hp.inv ptr
    obtain ⟨-, u, noted', hu, hp'⟩ := hp.free ptr
    obtain rfl := Option.some.inj (ht.symm.trans hu)
    simp only [clientStep, hs', Option.map_some, Option.some.injEq] at hs
    subst hs
    exact ⟨_, noted', ⟨hst, by rw [h.live_eq]⟩, hp'⟩

/-- The start of a run. -/
theorem clientsInStep_boot {s : Paging TableBytes} (hs : PageTree s)
    (hspaced : ∀ t b, s.IsTable t → t ≠ s.pml4 → s.IsTable b → b ≠ refCountAddr t) :
    ClientsInStep { vmm := vmmInit (vmmBoot s), live := [] }
      { vmm := vmmInit (vmmBoot s.onStructs), live := [] } :=
  ⟨⟨inStep_onStructs hs fun _ => hspaced, rfl⟩, rfl⟩

end Bytes

/-- **Nothing is lost while the pool lasts.** From well-formed tables in memory, and in every run in
which each `vmm_alloc` that maps pages finds a node left and no counter but the root's lies in a
table: every `vmm_free` of a live allocation unmaps its pages and frees their frames, and when no
allocation is live any more, every frame that `vmm_alloc` has handed out is free. -/
theorem vmm_pool_run (s : Paging TableBytes) (hs : WellFormed s)
    (hspaced : ∀ t b, s.IsTable t → t ≠ s.pml4 → s.IsTable b → b ≠ refCountAddr t)
    (htotal : s.pmm.totalFrames = 2 ^ 20) (ops : List VmmOp)
    (hpool : AllSteps clientStep (fun c op => NodeLeft c op ∧ CountersSpaced c op)
      { vmm := vmmInit (vmmBoot s), live := [] } ops) :
    AllSteps clientStep FreeOk { vmm := vmmInit (vmmBoot s), live := [] } ops ∧
    ∀ c, run clientStep { vmm := vmmInit (vmmBoot s), live := [] } ops = some c → c.live = [] →
      ∀ h ∈ c.vmm.handed, c.vmm.paging.pmm.testBit (frameOf h.2) = false := by
  have hinit : ∃ d noted, ClientsInStep { vmm := vmmInit (vmmBoot s), live := [] } d ∧
      PoolInv d noted :=
    ⟨_, [], clientsInStep_boot hs.toPageTree hspaced, vmmInv_nil hs.onStructs rfl, by simp,
      .nil s.onStructs _, htotal, by simp [vmmBoot, vmmInit], by simp [vmmBoot, vmmInit]⟩
  have hstep : ∀ c op c', (∃ d noted, ClientsInStep c d ∧ PoolInv d noted) →
      NodeLeft c op ∧ CountersSpaced c op → clientStep c op = some c' →
      ∃ d noted, ClientsInStep c' d ∧ PoolInv d noted := by
    rintro c op c' ⟨d, noted, hcd, hp⟩ ⟨hn, hl⟩ hs
    exact hcd.step hp hn hl hs
  refine ⟨AllSteps.consequence hstep (fun c op hc _ => ?_) hinit hpool, ?_⟩
  · obtain ⟨d, noted, hcd, hp⟩ := hc
    refine (hcd.freeOk_iff hp.inv op).mpr ?_
    cases op with
    | alloc size => trivial
    | free ptr => exact (hp.free ptr).1
  · -- a frame handed out that is in use belongs to a live page or to a table of one
    intro c hrun hlive x hx
    obtain ⟨d, noted, hcd, hp⟩ := run_invariant hstep hinit hpool hrun
    have hlive' : d.live = [] := hcd.live_eq ▸ hlive
    have hhanded : c.vmm.handed = d.vmm.handed := by rw [hcd.vmm.rest_eq]; rfl
    rw [hcd.vmm.paging.stored.pmm_eq]
    exact hp.conserved.all_free hp.inv.pages.wf (fun n ⟨a, ha, _⟩ => by simp [hlive'] at ha)
      (hhanded ▸ hx)

/-- A state in a run of the clients on a machine with every other frame in use, `k` pages
allocated one by one. -/
structure PageByPage (s : Paging TableBytes) (k : ℕ) (c : VmmClients TableBytes)
    (d : VmmClients TableHeap) : Prop where
  step : ClientsInStep c d
  inv : ClientsInv d
  even : EvenFrames d.vmm.paging
  count_eq : d.vmm.vmaCount = min k 128
  next_eq : d.vmm.nextVaddr.toNat = 2 ^ 28 + 4096 * k
  zero_used : d.vmm.paging.pmm.testBit 0 = true
  card_le : s.pmm.freeFrames.card ≤ d.vmm.paging.pmm.freeFrames.card + 4 * k

/-- The next page. -/
theorem PageByPage.alloc {s : Paging TableBytes} {k : ℕ} {c : VmmClients TableBytes}
    {d : VmmClients TableHeap} (h : PageByPage s k c d)
    (hfree : 4 * (k + 1) ≤ s.pmm.freeFrames.card) (hk : k ≤ 2 ^ 18) :
    AllocAllowed d.vmm 4096 ∧ CountersSpaced c (.alloc 4096) ∧ ∃ c' d',
      clientStep c (.alloc 4096) = some c' ∧ clientStep d (.alloc 4096) = some d' ∧
      PageByPage s (k + 1) c' d' ∧ c'.live = ⟨d.vmm.nextVaddr, 1⟩ :: c.live := by
  have hone : pagesNeeded 4096 = 1 := by decide
  have hnum : numPages 4096 = 1 := by decide
  have hmul : (numPages 4096 * 4096).toNat = 4096 := by rw [hnum]; decide
  have hnext := h.next_eq
  have hcard := h.card_le
  have hallowed : AllocAllowed d.vmm 4096 :=
    ⟨by decide, by decide, by rw [hnext, hone]; omega⟩
  have hst := h.step.vmm.paging.stored
  have heven : EvenFrames c.vmm.paging :=
    ⟨fun t ht => h.even.1 t ((hst.isTable_iff fun _ ha => ha).mp ht), hst.pmm_eq ▸ h.even.2⟩
  have hspaced : CountersSpaced c (.alloc 4096) :=
    heven.areaMeets_one (hst.pageTree (fun _ ha => ha) h.step.vmm.paging.tree)
  obtain ⟨t, ht, hm, hinv'⟩ := h.inv.clientStep_alloc hallowed h.zero_used (by rw [hone]; omega)
  rcases h.step.alloc hspaced with ⟨-, hnone⟩ | ⟨c', d', hc, hd, hcd⟩
  · rw [hnone] at ht
    cases ht
  obtain rfl := Option.some.inj (ht.symm.trans hd)
  have hnext' : t.nextVaddr = d.vmm.nextVaddr := by rw [hm.rest_eq]
  have hcount' : t.vmaCount = d.vmm.vmaCount := by rw [hm.rest_eq]
  refine ⟨hallowed, hspaced, c', _, hc, ht, ⟨hcd, hinv', ?_, ?_, ?_, ?_, ?_⟩, ?_⟩
  · -- new tables were free before, and what is free was free before
    rw [paging_finishAlloc]
    refine ⟨fun b hb => ?_, fun j hj => h.even.2 j ?_⟩
    · exact (hm.isTable_new b hb).elim (h.even.1 b) (h.even.2 _)
    · exact Bool.eq_false_iff.mpr fun hu => by rw [hm.used_mono j hu] at hj; cases hj
  · rw [vmaCount_finishAlloc, hcount', h.count_eq]
    split_ifs <;> omega
  · rw [toNat_nextVaddr_finishAlloc (by rw [hnext', hmul, hnext]; omega), hnext', hmul, hnext]
    omega
  · rw [paging_finishAlloc]
    exact hm.used_mono 0 h.zero_used
  · rw [paging_finishAlloc]
    have := hm.card_free_le
    rw [hone] at this
    omega
  · rw [hcd.live_eq, h.step.live_eq, hone]

/-- No page yet. -/
theorem pageByPage_boot {s : Paging TableBytes} (hs : WellFormed s) (he : EvenFrames s)
    (h0 : s.pmm.testBit 0 = true) : PageByPage s 0 { vmm := vmmInit (vmmBoot s), live := [] }
      { vmm := vmmInit (vmmBoot s.onStructs), live := [] } :=
  ⟨clientsInStep_boot hs.toPageTree fun _ _ ht _ hb => he.spaced hs.toPageTree ht hb,
    ⟨[], vmmInv_nil hs.onStructs rfl, by simp⟩, he, rfl, by simp [vmmInit, vmmBoot], h0, le_rfl⟩

theorem PageByPage.nodeLeft {s : Paging TableBytes} {k : ℕ} {c : VmmClients TableBytes}
    {d : VmmClients TableHeap} (h : PageByPage s k c d) (hk : k < 128) :
    NodeLeft c (.alloc size) := fun _ => by
  have hcount : d.vmm.vmaCount = c.vmm.vmaCount := by rw [h.step.vmm.rest_eq]; rfl
  rw [← hcount, h.count_eq]
  omega

/-- Allocating a page `k` times. -/
theorem exists_pageByPage {s : Paging TableBytes} (hs : WellFormed s) (he : EvenFrames s)
    (h0 : s.pmm.testBit 0 = true) {k : ℕ} (hk : k ≤ 2 ^ 18)
    (hfree : 4 * k ≤ s.pmm.freeFrames.card) :
    ∃ c d, run clientStep { vmm := vmmInit (vmmBoot s), live := [] }
      (List.replicate k (.alloc 4096)) = some c ∧ PageByPage s k c d := by
  induction k with
  | zero => exact ⟨_, _, rfl, pageByPage_boot hs he h0⟩
  | succ k ih =>
    obtain ⟨c, d, hrun, h⟩ := ih (by omega) (by omega)
    obtain ⟨-, -, c', d', hc, -, h', -⟩ := h.alloc (by omega) (by omega)
    refine ⟨c', d', ?_, h'⟩
    rw [List.replicate_succ', run_append, hrun, Option.bind_some]
    exact run_cons_eq_some.mpr ⟨_, hc, rfl⟩

/-- Two pages are allocated and given back, the second one first. -/
theorem vmm_pool_run_sample : ∃ c,
    run clientStep { vmm := vmmInit (vmmBoot (Sample.sparse 8)), live := [] }
      [.alloc 4096, .alloc 4096, .free 0x10001000, .free 0x10000000] = some c ∧
    c.live = [] ∧ ∀ h ∈ c.vmm.handed, c.vmm.paging.pmm.testBit (frameOf h.2) = false := by
  have hwf := Sample.wellFormed_sparse (k := 8) (by decide)
  have heven := Sample.evenFrames_sparse (k := 8) (by decide)
  have hcard : (Sample.sparse 8).pmm.freeFrames.card = 8 := Sample.card_sparsePmm (by decide)
  have h₀ := pageByPage_boot hwf heven (Sample.used_sparsePmm (by decide) (by decide))
  obtain ⟨-, l₀, c₁, d₁, e₀, -, h₁, live₁⟩ := h₀.alloc (by omega) (by decide)
  obtain ⟨-, l₁, c₂, d₂, e₁, -, h₂, live₂⟩ := h₁.alloc (by omega) (by decide)
  have hbase : d₁.vmm.nextVaddr = 0x10001000 := BitVec.eq_of_toNat_eq (by rw [h₁.next_eq]; decide)
  rw [live₁, hbase] at live₂
  obtain ⟨hall, hfree⟩ := vmm_pool_run (Sample.sparse 8) hwf
    (fun t b ht hne hb => heven.spaced hwf.toPageTree ht hb) rfl
    [.alloc 4096, .alloc 4096, .free 0x10001000, .free 0x10000000]
    ⟨⟨h₀.nodeLeft (by decide), l₀⟩, fun c hc => by
      obtain rfl := Option.some.inj (e₀.symm.trans hc)
      refine ⟨⟨h₁.nodeLeft (by decide), l₁⟩, fun c hc => ?_⟩
      exact ⟨⟨trivial, trivial⟩, fun _ _ => ⟨⟨trivial, trivial⟩, fun _ _ => trivial⟩⟩⟩
  -- what was allocated is given back
  have hall₂ := (hall.2 _ e₀).2 _ e₁
  obtain ⟨s₃, f₃, -⟩ := hall₂.1
  have e₂ : clientStep c₂ (.free 0x10001000) = some ⟨s₃, dropLive c₂.live 0x10001000⟩ := by
    simp only [clientStep, f₃, Option.map_some]
  obtain ⟨s₄, f₄, -⟩ := (hall₂.2 _ e₂).1
  have hrun : run clientStep { vmm := vmmInit (vmmBoot (Sample.sparse 8)), live := [] }
      [.alloc 4096, .alloc 4096, .free 0x10001000, .free 0x10000000] =
      some ⟨s₄, dropLive (dropLive c₂.live 0x10001000) 0x10000000⟩ := by
    refine run_cons_eq_some.mpr ⟨_, e₀, run_cons_eq_some.mpr ⟨_, e₁,
      run_cons_eq_some.mpr ⟨_, e₂, run_cons_eq_some.mpr ⟨_, ?_, rfl⟩⟩⟩⟩
    simp only [clientStep, f₄, Option.map_some]
  have hlive : dropLive (dropLive c₂.live 0x10001000) 0x10000000 = [] := by
    rw [live₂]
    rfl
  exact ⟨_, hrun, hlive, hfree _ hrun hlive⟩

/-! ## The pool runs out -/

/-- **An area that is not noted cannot be freed.** -/
theorem ClientsInv.not_freeOk (h : ClientsInv c) (hfull : ¬ c.vmm.vmaCount < 128)
    (ha : AllocAllowed c.vmm size) (hs : clientStep c (.alloc size) = some c') :
    ¬ FreeOk c' (.free c.vmm.nextVaddr) := by
  obtain ⟨noted, hinv, hpos⟩ := h
  have hn := toNat_numPages ha.2.1
  obtain ⟨p, u, hret, hf, rfl⟩ := OS44.clientStep_alloc hs
  rcases hinv.alloc size (by rw [hn]; exact ha.2.2.trans (by decide)) with ⟨hlt, -⟩ |
    ⟨t, -, ht, hm, hinv'⟩
  · rw [hret] at hlt
    exact absurd hf hlt.ne'
  obtain ⟨rfl, rfl⟩ := Prod.mk.inj (Except.ok.inj (hret.symm.trans ht))
  rw [note, if_neg hfull] at hinv'
  rw [hn, addLive, if_neg ha.pagesNeeded_pos.ne'] at hinv'
  have hself : (⟨c.vmm.nextVaddr, pagesNeeded size⟩ : Allocation) ∈
      addLive c.live c.vmm.nextVaddr (numPages size).toNat := by
    rw [hn, addLive, if_neg ha.pagesNeeded_pos.ne']
    exact List.mem_cons_self
  rintro ⟨s, hf, hfree⟩
  -- the noted areas lie below the new one, so the search finds none
  have hsame : s = finishAlloc t size := by
    rcases hinv'.free c.vmm.nextVaddr with ⟨-, hf'⟩ | ⟨xs, a, ys, s', rfl, -, hbase, -⟩
    · exact Option.some.inj (hf.symm.trans hf')
    · have hapos := hpos a (by simp)
      have := hinv.areas.bound a (hinv.noted_live a (by simp) hapos)
      rw [hbase] at this
      omega
  obtain ⟨hnone, -⟩ := hfree _ hself rfl 0 ha.pagesNeeded_pos
  obtain ⟨k, -, -, hmapped, -⟩ := hinv'.pages.mapped _
    ⟨_, List.mem_cons_self, 0, ha.pagesNeeded_pos, rfl⟩
  rw [hsame, hmapped] at hnone
  cases hnone

/-- **The 129th area stays allocated.** 129 pages are allocated one by one, with no counter in a
table anywhere, and the last one is given back: nothing is unmapped. -/
theorem vmm_pool_exhausted : WellFormed (Sample.sparse 516) ∧
    ¬ AllSteps clientStep FreeOk { vmm := vmmInit (vmmBoot (Sample.sparse 516)), live := [] }
      (List.replicate 128 (.alloc 4096) ++ [.alloc 4096, .free 0x10080000]) := by
  have hwf := Sample.wellFormed_sparse (k := 516) (by decide)
  refine ⟨hwf, fun hall => ?_⟩
  have hcard : (Sample.sparse 516).pmm.freeFrames.card = 516 := Sample.card_sparsePmm (by decide)
  obtain ⟨c, d, hrun, h⟩ := exists_pageByPage hwf (Sample.evenFrames_sparse (by decide))
    (Sample.used_sparsePmm (by decide) (by decide)) (k := 128) (by decide) (by omega)
  obtain ⟨hallowed, -, c', d', hc, hd, h', -⟩ := h.alloc (by omega) (by decide)
  have hbase : d.vmm.nextVaddr = 0x10080000 := BitVec.eq_of_toNat_eq (by rw [h.next_eq]; decide)
  have hlast := ((hall.of_append hrun).2 _ hc).1
  obtain ⟨noted, hinv, -⟩ := h'.inv
  rw [h'.step.freeOk_iff hinv, ← hbase] at hlast
  exact h.inv.not_freeOk (by rw [h.count_eq]; decide) hallowed hd hlast

end OS44
