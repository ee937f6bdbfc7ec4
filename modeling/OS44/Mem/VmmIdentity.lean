import OS44.Mem.VmmRun

/-! # The identity mapping

The kernel reads and writes a frame of `pmm_alloc_frame` at the frame's own address, and `vmm_alloc`
hands out virtual addresses upwards from `0x10000000`. The two meet on a machine with conventional
memory above 256 MiB (`vmm_maps_over_frame`). As long as the addresses handed out avoid the frames
of the allocator, `vmm_alloc` maps no page over such a frame, and the kernel finds the frames where
it found them at boot (`vmm_identity_run`). -/

namespace OS44

open Runs LinkedTree TableMemory

section Calls

variable {M : Type} [TableMemory M]

/-- One call; `none` if it does not come back. -/
def callStep (s : Vmm M) : VmmOp → Option (Vmm M)
  | .alloc size =>
    match vmmAlloc s size with
    | .ok (_, s) => some s
    | .error _ => none
  | .free ptr => vmmFree s ptr

theorem callStep_alloc {s t : Vmm M} {size p : U64} (h : vmmAlloc s size = .ok (p, t)) :
    callStep s (.alloc size) = some t := by
  simp only [callStep, h]

/-- **What `vmm_alloc` must do**: none of the pages mapped so far and in the call, however it ends,
has the number of a frame that the allocator can hand out. -/
def MapsOutside (m : PhysMem) (info : BootInfo) (s : Vmm M) : VmmOp → Prop
  | .alloc size => ∀ h ∈ (endVmm (vmmAlloc s size)).handed, ¬ Allocatable m info (pageOf h.1)
  | .free _ => True

/-- The addresses from `next_vaddr` on, as many pages as are asked for and can be had, avoid the
frames of the allocator (and stay within the 48 bits of an address that are translated). -/
def AvoidsFrames (m : PhysMem) (info : BootInfo) (s : Vmm M) : VmmOp → Prop
  | .alloc size =>
    let n := min (numPages size).toNat (pmmGetFreeFrames s.paging.pmm)
    s.nextVaddr.toNat + 4096 * n ≤ 2 ^ 48 ∧ ∀ f, Allocatable m info f →
      ¬ (s.nextVaddr.toNat / 4096 ≤ f ∧ f < s.nextVaddr.toNat / 4096 + n)
  | .free _ => True

/-- No allocation fails in the call. -/
def NoFailure (s : Vmm M) : VmmOp → Prop
  | .alloc size => (endVmm (vmmAlloc s size)).paging.pmm.failures = s.paging.pmm.failures
  | .free _ => True

variable {m : PhysMem} {info : BootInfo} {s s' : Vmm M} {op : VmmOp}

/-- A page of the addresses that avoid the frames. -/
theorem not_allocatable_areaPage {v : U64} {n j : ℕ} (hlow : v.toNat + 4096 * n ≤ 2 ^ 48)
    (havoid : ∀ f, Allocatable m info f → ¬ (v.toNat / 4096 ≤ f ∧ f < v.toNat / 4096 + n))
    (hj : j < n) : ¬ Allocatable m info (areaPage v j) := by
  intro ha
  rw [val_areaPage (by omega)] at ha
  exact havoid _ ha ⟨by omega, by omega⟩

/-- The call maps no page over a frame. -/
theorem mapsOutside_of_avoidsFrames
    (h : ∀ x ∈ s.handed, ¬ Allocatable m info (pageOf x.1)) (ha : AvoidsFrames m info s op) :
    MapsOutside m info s op := by
  cases op with
  | free ptr => trivial
  | alloc size =>
    intro x hx
    rw [(endVmm_vmmAlloc s size).2] at hx
    rcases mem_handed_allocPages _ _ _ hx with hx | ⟨j, -, hj, hxj⟩
    · exact h x hx
    · rw [Nat.zero_add, ← pmmGetFreeFrames_eq_card] at hj
      rw [hxj]
      exact not_allocatable_areaPage ha.1 ha.2 hj

/-- The pages mapped are those of the calls made. -/
theorem handed_callStep (h : ∀ x ∈ s.handed, ¬ Allocatable m info (pageOf x.1))
    (hm : MapsOutside m info s op) (hs : callStep s op = some s') :
    ∀ x ∈ s'.handed, ¬ Allocatable m info (pageOf x.1) := by
  cases op with
  | free ptr => rwa [handed_vmmFree hs]
  | alloc size =>
    simp only [MapsOutside] at hm
    simp only [callStep] at hs
    rcases he : vmmAlloc s size with t | ⟨p, t⟩ <;> rw [he] at hs hm
    · cases hs
    · rwa [← Option.some.inj hs]

end Calls

/-! ## Well-formed tables -/

section Tables

variable {m : PhysMem} {info : BootInfo} {s s' : Vmm TableHeap} {op : VmmOp}
  {F : Fin (2 ^ 36) → Option U64}

/-- The invariant: the live pages avoid the frames of the allocator, and the pages with the numbers
of these frames are mapped as `F` says. -/
def IdentityInv (m : PhysMem) (info : BootInfo) (F : Fin (2 ^ 36) → Option U64)
    (s : Vmm TableHeap) : Prop :=
  ∃ noted live, VmmInv s noted live ∧ s.paging.pmm.totalFrames = 2 ^ 20 ∧
    (∀ n, LivePage live n → ¬ Allocatable m info n) ∧
    ∀ n : Fin (2 ^ 36), Allocatable m info n → s.paging.pageFrame n = F n

/-- The step lemma. -/
theorem IdentityInv.step (h : IdentityInv m info F s) (ha : AvoidsFrames m info s op)
    (hnf : NoFailure s op) (hs : callStep s op = some s') : IdentityInv m info F s' := by
  obtain ⟨noted, live, hinv, htotal, hlive, hF⟩ := h
  cases op with
  | alloc size =>
    have hnot : ¬ s.paging.pmm.failures < (endVmm (vmmAlloc s size)).paging.pmm.failures :=
      hnf.le.not_gt
    have hn := (hinv.numPages_le htotal size).resolve_left hnot
    simp only [AvoidsFrames, pmmGetFreeFrames_eq_card, min_eq_left hn] at ha
    obtain ⟨t, -, hret, hm, hinv'⟩ :=
      (hinv.alloc size ha.1).resolve_left fun hlt => hnot hlt.1
    simp only [callStep, hret, Option.some.injEq] at hs
    subst hs
    refine ⟨_, _, hinv', ?_, ?_, ?_⟩
    · rw [paging_finishAlloc, hm.total_eq, htotal]
    · intro n hn
      rcases livePage_addLive.mp hn with hn | ⟨j, hj, rfl⟩
      · exact hlive n hn
      · exact not_allocatable_areaPage ha.1 ha.2 hj
    · intro n hn
      rw [paging_finishAlloc, hm.pageFrame_eq n fun j hj he => ?_, hF n hn]
      exact not_allocatable_areaPage ha.1 ha.2 hj (he ▸ hn)
  | free ptr =>
    simp only [callStep] at hs
    rcases hinv.free ptr with ⟨-, hf⟩ | ⟨xs, a, ys, t, rfl, -, rfl, hf, hu, -, -, -, -, hinv'⟩
    · obtain rfl := Option.some.inj (hf.symm.trans hs)
      exact ⟨noted, live, hinv, htotal, hlive, hF⟩
    · -- only pages of a live area are unmapped, and none of them is allocatable
      obtain rfl := Option.some.inj (hf.symm.trans hs)
      have harea := hinv.noted_live a (by simp)
      refine ⟨_, _, hinv', hu.total_eq.trans htotal, ?_, ?_⟩
      · intro n hn
        exact hlive n ((hinv.areas.livePage_drop harea).mp hn).1
      · intro n hn
        rw [hu.pageFrame_eq n fun j hj he => ?_, hF n hn]
        exact hlive n ⟨a, harea (by omega), j, hj, he⟩ hn

end Tables

/-- **The identity mapping survives** as long as the addresses handed out avoid the frames of the
allocator. Then, in every run, no page that `vmm_alloc` maps has the number of such a frame,
whatever the memory and the tables are; and from well-formed tables and without failed allocations,
every address in such a frame is translated as it was at the start. -/
theorem vmm_identity_run {M : Type} [TableMemory M] (m : PhysMem) (info : BootInfo) (pmm : Pmm)
    (hinit : pmmInit m info = some pmm) :
    (∀ (mem : M) (cr3 : U64) (ops : List VmmOp),
      AllSteps callStep (AvoidsFrames m info) (vmmInit (vmmBoot (pagingInit mem pmm cr3))) ops →
      AllSteps callStep (MapsOutside m info) (vmmInit (vmmBoot (pagingInit mem pmm cr3))) ops) ∧
    ∀ (heap : TableHeap) (cr3 : U64) (ops : List VmmOp), WellFormed (pagingInit heap pmm cr3) →
      AllSteps callStep (AvoidsFrames m info) (vmmInit (vmmBoot (pagingInit heap pmm cr3))) ops →
      AllSteps callStep NoFailure (vmmInit (vmmBoot (pagingInit heap pmm cr3))) ops →
      ∀ s, run callStep (vmmInit (vmmBoot (pagingInit heap pmm cr3))) ops = some s →
        ∀ v, Allocatable m info (pageOf v) →
          pagingGetPhysical s.paging v = pagingGetPhysical (pagingInit heap pmm cr3) v := by
  refine ⟨?_, ?_⟩
  · intro mem cr3 ops hall
    have hout : ∀ (s : Vmm M) op, (∀ x ∈ s.handed, ¬ Allocatable m info (pageOf x.1)) →
        AvoidsFrames m info s op → MapsOutside m info s op :=
      fun s op hs ha => mapsOutside_of_avoidsFrames hs ha
    exact AllSteps.consequence (fun s op s' hs ha hstep =>
      handed_callStep hs (hout s op hs ha) hstep)
      hout (by simp [vmmInit, vmmBoot]) hall
  · -- on trees of tables the run keeps the lookups outside the areas as well
    intro heap cr3 ops hwf hall hnf s hrun v hv
    have hstart : IdentityInv m info (pagingInit heap pmm cr3).pageFrame
        (vmmInit (vmmBoot (pagingInit heap pmm cr3))) :=
      ⟨[], [], vmmInv_nil hwf rfl, totalFrames_pmmInit hinit, by simp [LivePage], fun _ _ => rfl⟩
    obtain ⟨noted, live, hinv, -, -, hF⟩ := run_invariant
      (fun s op s' hs hop hstep => IdentityInv.step hs hop.1 hop.2 hstep) hstart (hall.and hnf) hrun
    rw [hinv.pages.wf.toPageTree.pagingGetPhysical, hwf.toPageTree.pagingGetPhysical, hF _ hv]

namespace Sample

/-- The memory map of a machine with 64 MiB. -/
def smallMemory : PhysMem := fun a => if a = 0x1000 then 7 else if a = 0x1019 then 0x40 else 0

/-- The allocator after `pmm_init` on that machine. -/
def smallPmm : Pmm := reserveLow (markDescriptors smallMemory info
  { bitmap := fun _ => 0xFF, totalFrames := 2 ^ 20, calls := [] } info.descriptorCount) 2048

theorem pmmInit_small : pmmInit smallMemory info = some smallPmm := pmmInit_of_ne_zero (by decide)

attribute [irreducible] smallPmm

theorem allocatable_small (f : ℕ) : Allocatable smallMemory info f ↔ 2048 ≤ f ∧ f < 16384 :=
  allocatable_iff_of (by decide) (by decide) (by decide) (by omega) f

theorem mem_freeFrames_small (f : ℕ) : f ∈ smallPmm.freeFrames ↔ 2048 ≤ f ∧ f < 16384 :=
  (mem_freeFrames_pmmInit pmmInit_small f).trans (allocatable_small f)

theorem used_small {f : ℕ} (hf : f < 2048) : smallPmm.testBit f = true := by
  by_contra hfree
  rw [Bool.not_eq_true] at hfree
  have htotal := totalFrames_pmmInit pmmInit_small
  have := (mem_freeFrames_small f).mp (Pmm.mem_freeFrames.mpr ⟨by omega, hfree⟩)
  omega

/-- Empty tables on that machine. -/
theorem wellFormed_small : WellFormed (pagingInit paging.mem smallPmm 0x100000) :=
  wellFormed_of_empty (link_paging _) (by decide) (by decide) (used_small (by decide))

/-- A page at 256 MiB is out of the way. -/
theorem avoidsFrames_small : AvoidsFrames smallMemory info
    (vmmInit (vmmBoot (pagingInit paging.mem smallPmm 0x100000))) (.alloc 4096) := by
  have hone : (numPages 4096).toNat = 1 := by decide
  have hnext : (0x10000000 : U64).toNat = 2 ^ 28 := by decide
  refine ⟨?_, ?_⟩
  · simp only [vmmInit, vmmBoot, hone, hnext]
    omega
  · intro f hf
    rw [allocatable_small] at hf
    simp only [vmmInit, vmmBoot, hone, hnext]
    omega

end Sample

/-- On the machine with 64 MiB a page at 256 MiB is mapped and unmapped, and the addresses of the
frames of the allocator are translated as before. -/
theorem vmm_identity_run_sample : AllSteps callStep (MapsOutside Sample.smallMemory Sample.info)
      (vmmInit (vmmBoot (pagingInit Sample.paging.mem Sample.smallPmm 0x100000)))
      [.alloc 4096, .free 0x10000000] ∧
    ∃ s, run callStep (vmmInit (vmmBoot (pagingInit Sample.paging.mem Sample.smallPmm 0x100000)))
        [.alloc 4096, .free 0x10000000] = some s ∧
      pagingGetPhysical s.paging 0x800000 =
        pagingGetPhysical (pagingInit Sample.paging.mem Sample.smallPmm 0x100000) 0x800000 := by
  have hone : (numPages 4096).toNat = 1 := by decide
  have hall : AllSteps callStep (AvoidsFrames Sample.smallMemory Sample.info)
      (vmmInit (vmmBoot (pagingInit Sample.paging.mem Sample.smallPmm 0x100000)))
      [.alloc 4096, .free 0x10000000] :=
    ⟨Sample.avoidsFrames_small, fun _ _ => ⟨trivial, fun _ _ => trivial⟩⟩
  have hcard : Sample.smallPmm.freeFrames.card = 14336 := by
    have : Sample.smallPmm.freeFrames = Finset.Ico 2048 16384 := by
      ext f
      rw [Sample.mem_freeFrames_small, Finset.mem_Ico]
    rw [this, Nat.card_Ico]
  obtain ⟨houtside, hsame⟩ := vmm_identity_run (M := TableHeap) Sample.smallMemory Sample.info
    Sample.smallPmm Sample.pmmInit_small
  refine ⟨houtside _ _ _ hall, ?_⟩
  -- the frames suffice
  rcases (vmmInv_nil Sample.wellFormed_small rfl).alloc (s := vmmInit (vmmBoot
      (pagingInit Sample.paging.mem Sample.smallPmm 0x100000))) 4096 (by rw [hone]; decide) with
    ⟨-, hfew⟩ | ⟨t, -, ht, hm, hinv⟩
  · have := hfew (Sample.used_small (by omega))
    rw [hone] at this
    exact absurd (show Sample.smallPmm.freeFrames.card < 4 * 1 from this) (by omega)
  obtain ⟨s, hs⟩ : ∃ s, vmmFree (finishAlloc t 4096) 0x10000000 = some s := by
    rcases hinv.free 0x10000000 with ⟨-, hf⟩ | ⟨-, -, -, s, -, -, -, hf, -⟩
    exacts [⟨_, hf⟩, ⟨s, hf⟩]
  have hrun : run callStep (vmmInit (vmmBoot (pagingInit Sample.paging.mem Sample.smallPmm
      0x100000))) [.alloc 4096, .free 0x10000000] = some s :=
    run_cons_eq_some.mpr ⟨_, callStep_alloc ht, run_cons_eq_some.mpr ⟨s, hs, rfl⟩⟩
  refine ⟨s, hrun, hsame _ _ _ Sample.wellFormed_small hall ⟨?_, fun _ _ =>
    ⟨trivial, fun _ _ => trivial⟩⟩ s hrun _ ((Sample.allocatable_small _).mpr (by decide))⟩
  rw [NoFailure, ht, endVmm, paging_finishAlloc, hm.failures_eq]

/-- Allocating a single page. -/
theorem exists_vmmAlloc_one {M : Type} [TableMemory M] {s : Vmm M} {f : U64} (size : U64)
    {p : Paging M}
    (hone : (numPages size).toNat = 1) (hp : allocPage s.paging s.nextVaddr = .ok (f, p))
    (hf : f ≠ 0) : ∃ t, vmmAlloc s size = .ok (s.nextVaddr, t) ∧ t.paging = p ∧
      t.handed = (s.nextVaddr, f) :: s.handed := by
  have hbase : s.nextVaddr + BitVec.ofNat 64 0 * 4096 = s.nextVaddr := by simp
  have hloop : allocPages s.nextVaddr 0 1 s =
      .ok (true, { s with paging := p, handed := (s.nextVaddr, f) :: s.handed }) := by
    simp only [allocPages, hbase, hp, if_neg hf]
  refine ⟨_, by simp only [vmmAlloc, hone, hloop]; rfl, ?_, ?_⟩ <;> unfold addVma <;> split <;> rfl

/-- **A page over a frame of the allocator.** The first page allocated on the 512 MiB machine is
mapped at `0x10000000`, which is also the address of a frame of the allocator: from then on the
kernel finds the frame at `0x800000` there. -/
theorem vmm_maps_over_frame : pmmInit Sample.memory Sample.info = some Sample.pmm ∧
    ¬ AllSteps callStep (MapsOutside Sample.memory Sample.info) (vmmInit (vmmBoot Sample.paging))
      [.alloc 4096] ∧
    Allocatable Sample.memory Sample.info (pageOf 0x10000000) ∧
    ∃ s, callStep (vmmInit (vmmBoot Sample.paging)) (.alloc 4096) = some s ∧
      pagingGetPhysical s.paging 0x10000000 = 0x800000 := by
  have hpmm : Sample.paging.pmm = Sample.pmm := rfl
  have hframe : Allocatable Sample.memory Sample.info (pageOf 0x10000000) :=
    (Sample.allocatable_iff _).mpr (by decide)
  rcases Sample.wellFormed_paging.allocPage 0x10000000 with ⟨-, hfew⟩ | ⟨k, p, hp, ha⟩
  · have h4 : 4 ≤ Sample.pmm.freeFrames.card := by rw [Sample.freeFrames_pmm]; simp
    rw [hpmm] at hfew
    exact absurd (hfew (Sample.testBit_pmm (by omega))) (not_lt.mpr h4)
  have hne : frameAddr k ≠ 0 := frameAddr_ne_zero ha.lt ha.ne_zero
  have hk : frameAddr k = 0x800000 := by
    have h800 : frameAddr 2048 = 0x800000 := by decide
    rw [fst_allocPage hp, hpmm, Sample.pmmAllocFrame_pmm, h800]
  obtain ⟨t, ht, hpag, hhanded⟩ := exists_vmmAlloc_one (s := vmmInit (vmmBoot Sample.paging))
    4096 (by decide) hp hne
  refine ⟨Sample.pmmInit_eq, ?_, hframe, t, callStep_alloc ht, ?_⟩
  · -- the page that is mapped first is that of the frame
    intro hall
    refine hall.1 ((vmmInit (vmmBoot Sample.paging)).nextVaddr, frameAddr k) ?_ hframe
    rw [ht, endVmm, hhanded]
    exact List.mem_cons_self
  · rw [hpag, ha.wf.toPageTree.pagingGetPhysical, ha.pageFrame_eq, if_pos rfl, hk]
    decide

end OS44
