import OS44.Mem.VmmPool
import OS44.Process.Kill

/-! # The stacks of the processes (`process.c`, `vmm.c`)

A process is given an area of `vmm_alloc` as its stack, and `process_check_and_free` gives the areas
of killed processes back. In every run of the process layer in which the frames suffice, each byte
of a stack is in a frame of the process's own, and what `process_create` stored at its top is still
there (`process_stacks_isolated`). As long as every area finds a node of the pool, all frames taken
since boot are accounted for by the processes of the table (`process_frames_accounted`). -/

namespace OS44

open Runs LinkedTree PoolList TableMemory

/-! ## The calls -/

/-- `pmm_alloc_frame` does not return `NULL` in the call of `vmm_alloc`. -/
def FramesSuffice (v : Vmm TableHeap) (size : U64) : Prop :=
  (endVmm (vmmAlloc v size)).paging.pmm.failures = v.paging.pmm.failures

/-- The calls that the runs are about: while a slot is free, a stack has room for the entry point
and is allocated. -/
def CallAllowed (s : Processes TableHeap) : ProcCall → Prop
  | .create _ size => (∃ i, (s.procTable i).pid = 0) →
    8 ≤ size.toNat ∧ AllocAllowed s.vmm size ∧ FramesSuffice s.vmm size
  | _ => True

/-- A new stack finds a node left in the pool. -/
def CallNoted (s : Processes TableHeap) : ProcCall → Prop
  | .create _ _ => (∃ i, (s.procTable i).pid = 0) → s.vmm.vmaCount < 128
  | _ => True

/-! ## What must hold -/

/-- The area of the stack. -/
def Pcb.area (p : Pcb) : Allocation := ⟨p.memBase, pagesNeeded p.memSize⟩

/-- The address is in the stack of the process. -/
def Pcb.Holds (p : Pcb) (x : U64) : Prop :=
  p.pid ≠ 0 ∧ p.memBase.toNat ≤ x.toNat ∧ x.toNat < p.memBase.toNat + p.memSize.toNat

/-- **Stacks that are isolated.** -/
structure StacksIsolated (s : Processes TableHeap) : Prop where
  /-- Each address is mapped to a frame that is in use and holds no page table. -/
  backed : ∀ i x, (s.procTable i).Holds x → ∃ k < 2 ^ 20,
    s.vmm.paging.pageFrame (pageOf x) = some (frameAddr k) ∧
      s.vmm.paging.pmm.testBit k = true ∧ ¬ s.vmm.paging.IsTable (frameAddr k)
  /-- Two processes share no frame, and so no page either. -/
  unshared : ∀ i j x y, i ≠ j → (s.procTable i).Holds x → (s.procTable j).Holds y →
    s.vmm.paging.pageFrame (pageOf x) ≠ s.vmm.paging.pageFrame (pageOf y)
  /-- The word at the stack pointer is in the stack. -/
  word : ∀ i, (s.procTable i).pid ≠ 0 → ∀ k < 8,
    (s.procTable i).Holds ((s.procTable i).stackPtr + BitVec.ofNat 64 k)
  /-- It was stored when the process was created, and nothing stored since is in the stack. -/
  stored : ∀ i, (s.procTable i).pid ≠ 0 → ∃ newer entry older,
    s.stores = newer ++ ((s.procTable i).stackPtr, entry) :: older ∧
      ∀ w ∈ newer, ∀ k < 8, ¬ (s.procTable i).Holds (w.1 + BitVec.ofNat 64 k)

/-! ## The invariant -/

/-- What holds of a process: its area is live, and its entry point is at the top of it, below
whatever has been stored since. -/
structure SlotInv (p : Pcb) (stores : List (U64 × U64)) (live : List Allocation) : Prop where
  mem : p.area ∈ live
  aligned : p.memBase.toNat % 4096 = 0
  stackPtr_eq : p.stackPtr.toNat + 8 = p.memBase.toNat + p.memSize.toNat
  size_ge : 8 ≤ p.memSize.toNat
  stored : ∃ newer entry older, stores = newer ++ (p.stackPtr, entry) :: older ∧
    ∀ w ∈ newer, p.memBase.toNat + p.memSize.toNat ≤ w.1.toNat ∧ w.1.toNat + 8 ≤ 2 ^ 64

/-- **The invariant**: every process has a live area of its own. -/
structure StackInv (table : ProcTable) (stores : List (U64 × U64)) (v : Vmm TableHeap)
    (noted live : List Allocation) : Prop where
  areas : VmmInv v noted live
  noted_pos : ∀ a ∈ noted, 0 < a.pages
  aligned : v.nextVaddr.toNat % 4096 = 0
  slot : ∀ i, (table i).pid ≠ 0 → SlotInv (table i) stores live
  distinct : ∀ i j, (table i).pid ≠ 0 → (table j).pid ≠ 0 →
    (table i).memBase = (table j).memBase → i = j

variable {table table' : ProcTable} {stores : List (U64 × U64)} {v u t : Vmm TableHeap}
  {noted noted' live live' : List Allocation} {i j : Fin 16} {p : Pcb} {x y size entry pid : U64}

/-- The number of pages holds the bytes. -/
theorem le_pagesNeeded (size : U64) : size.toNat ≤ 4096 * pagesNeeded size := by
  rw [pagesNeeded]
  omega

theorem Pcb.Holds.toNat_lt (h : p.Holds x) :
    x.toNat < p.memBase.toNat + 4096 * p.area.pages :=
  h.2.2.trans_le (Nat.add_le_add_left (le_pagesNeeded p.memSize) _)

/-- An address of the stack is in a page of the area. -/
theorem SlotInv.hasPage (h : SlotInv p stores live) (hlive : LiveAreas v.nextVaddr live)
    (hx : p.Holds x) : p.area.HasPage (pageOf x) := by
  have hlow := hlive.low _ h.mem
  have haligned := h.aligned
  have hlt := hx.toNat_lt
  have hge := hx.2.1
  have hbase : p.area.base = p.memBase := rfl
  rw [hbase] at hlow
  refine ⟨(x.toNat - p.memBase.toNat) / 4096, by omega, Fin.ext ?_⟩
  rw [hbase, val_areaPage (by omega), pageOf]
  dsimp only
  omega

/-- **The invariant isolates.** -/
theorem StackInv.isolated {s : Processes TableHeap}
    (h : StackInv s.procTable s.stores s.vmm noted live) : StacksIsolated s where
  backed i x hx := by
    have hslot := h.slot i hx.1
    obtain ⟨k, hk, -, hf, hused, hnt⟩ :=
      h.areas.pages.mapped _ ⟨_, hslot.mem, hslot.hasPage h.areas.areas hx⟩
    exact ⟨k, hk, hf, hused, hnt⟩
  unshared i j x y hij hx hy heq := by
    have hi := h.slot i hx.1
    have hj := h.slot j hy.1
    have hpx := hi.hasPage h.areas.areas hx
    have hpy := hj.hasPage h.areas.areas hy
    obtain ⟨k, -, -, hf, -⟩ := h.areas.pages.mapped _ ⟨_, hi.mem, hpx⟩
    -- the frame is that of one page, which is in one area
    have hpage := h.areas.pages.inj _ _ _ ⟨_, hi.mem, hpx⟩ ⟨_, hj.mem, hpy⟩ hf (heq ▸ hf)
    have harea := h.areas.areas.eq_of_hasPage hi.mem hj.mem hpx (hpage ▸ hpy)
    exact hij (h.distinct i j hx.1 hy.1 (congrArg Allocation.base harea))
  word i hi k hk := by
    have hslot := h.slot i hi
    have hptr := hslot.stackPtr_eq
    have hsize := hslot.size_ge
    have hlt := (s.procTable i).stackPtr.isLt
    have hlow := h.areas.areas.low _ hslot.mem
    have hpages := le_pagesNeeded (s.procTable i).memSize
    have hend : (s.procTable i).memBase.toNat + 4096 * pagesNeeded (s.procTable i).memSize ≤
      2 ^ 48 := hlow
    refine ⟨hi, ?_⟩
    rw [BitVec.toNat_add, BitVec.toNat_ofNat]
    omega
  stored i hi := by
    obtain ⟨newer, entry, older, hstores, hnewer⟩ := (h.slot i hi).stored
    refine ⟨newer, entry, older, hstores, fun w hw k hk hx => ?_⟩
    obtain ⟨hge, hle⟩ := hnewer w hw
    have hx := hx.2.2
    rw [BitVec.toNat_add, BitVec.toNat_ofNat] at hx
    omega

/-! ## What a call does -/

/-- Only a killed process, a status or a run time has changed. -/
theorem StackInv.congr (h : StackInv table stores v noted live)
    (heq : ∀ i, (table' i).pid = (table i).pid ∧ (table' i).memBase = (table i).memBase ∧
      (table' i).memSize = (table i).memSize ∧ (table' i).stackPtr = (table i).stackPtr) :
    StackInv table' stores v noted live where
  areas := h.areas
  noted_pos := h.noted_pos
  aligned := h.aligned
  slot i hi := by
    obtain ⟨hpid, hbase, hsize, hptr⟩ := heq i
    obtain ⟨hmem, haligned, hword, hge, hstored⟩ := h.slot i (hpid ▸ hi)
    refine ⟨?_, hbase ▸ haligned, ?_, hsize ▸ hge, ?_⟩
    · rwa [Pcb.area, hbase, hsize]
    · rwa [hptr, hbase, hsize]
    · rwa [hptr, hbase, hsize]
  distinct i j hi hj hij := by
    obtain ⟨hpi, hbi, -⟩ := heq i
    obtain ⟨hpj, hbj, -⟩ := heq j
    exact h.distinct i j (hpi ▸ hi) (hpj ▸ hj) (hbi ▸ hbj ▸ hij)

/-- The process that `process_create` puts in a slot. -/
def newPcb (pid base size : U64) : Pcb where
  pid := pid
  status := .running
  stackPtr := base + size - 8
  memBase := base
  memSize := size
  runTime := 0

theorem areaNew_eq (pid base size : U64) :
    (newPcb pid base size).area = ⟨base, pagesNeeded size⟩ := rfl

/-- A slot whose area lies below what is stored now. -/
theorem SlotInv.store {w : U64 × U64} (h : SlotInv p stores live) (hsub : live ⊆ live')
    (hw : p.memBase.toNat + p.memSize.toNat ≤ w.1.toNat ∧ w.1.toNat + 8 ≤ 2 ^ 64) :
    SlotInv p (w :: stores) live' where
  mem := hsub h.mem
  aligned := h.aligned
  stackPtr_eq := h.stackPtr_eq
  size_ge := h.size_ge
  stored := by
    obtain ⟨newer, entry, older, hstores, hnewer⟩ := h.stored
    refine ⟨w :: newer, entry, older, by rw [hstores, List.cons_append], fun w' hw' => ?_⟩
    obtain rfl | hw' := List.mem_cons.mp hw'
    · exact hw
    · exact hnewer w' hw'

/-- **A new process** is given an area above all others. -/
theorem StackInv.create (h : StackInv table stores v noted live) (h8 : 8 ≤ size.toNat)
    (ha : AllocAllowed v size) (hf : FramesSuffice v size) (i : Fin 16) (entry pid : U64) :
    ∃ t, allocPages v.nextVaddr 0 (numPages size).toNat v = .ok (true, t) ∧
      vmmAlloc v size = .ok (v.nextVaddr, finishAlloc t size) ∧
      MapsArea v (LivePage live) v.nextVaddr (pagesNeeded size) t ∧
      StackInv (Function.update table i (newPcb pid v.nextVaddr size))
        ((v.nextVaddr + size - 8, entry) :: stores) (finishAlloc t size)
        (note v.vmaCount noted ⟨v.nextVaddr, pagesNeeded size⟩)
        (⟨v.nextVaddr, pagesNeeded size⟩ :: live) := by
  have hn := toNat_numPages ha.2.1
  have hpos := @AllocAllowed.pagesNeeded_pos ⟨v, live⟩ size ha
  have hnext := ha.2.2
  have hpages := le_pagesNeeded size
  obtain ⟨t, hloop, ht, hm, hinv⟩ := (h.areas.alloc size
    (by rw [hn]; exact hnext.trans (by decide))).resolve_left fun hlt => hlt.1.ne' hf
  rw [hn] at hm hinv
  rw [addLive, if_neg hpos.ne'] at hinv
  have hword : (8 : U64).toNat = 8 := rfl
  have hptr : (v.nextVaddr + size - 8).toNat + 8 = v.nextVaddr.toNat + size.toNat := by
    rw [BitVec.toNat_sub, BitVec.toNat_add, hword]
    omega
  -- the areas before this one end at its base or below
  have hbelow : ∀ j, (table j).pid ≠ 0 →
      (table j).memBase.toNat + 4096 * pagesNeeded (table j).memSize ≤ v.nextVaddr.toNat :=
    fun j hj => h.areas.areas.bound _ (h.slot j hj).mem
  refine ⟨t, hloop, ht, hm, hinv, ?_, ?_, fun j hj => ?_, fun j k hj hk hjk => ?_⟩
  · intro a ha'
    rw [note] at ha'
    split_ifs at ha'
    · obtain rfl | ha' := List.mem_cons.mp ha'
      exacts [hpos, h.noted_pos a ha']
    · exact h.noted_pos a ha'
  · have hnextEq : t.nextVaddr = v.nextVaddr := by rw [hm.rest_eq]
    have haligned := h.aligned
    rw [toNat_nextVaddr_finishAlloc, hnextEq, toNat_numPages_mul]
    · omega
    · rw [hnextEq, toNat_numPages_mul, hn]
      omega
  · by_cases hji : j = i
    · rw [hji, Function.update_self]
      exact ⟨List.mem_cons_self, h.aligned, hptr, h8, [], entry, stores, rfl,
        fun w hw => absurd hw List.not_mem_nil⟩
    · rw [Function.update_of_ne hji] at hj ⊢
      have hend := hbelow j hj
      have hle := le_pagesNeeded (table j).memSize
      refine (h.slot j hj).store (List.subset_cons_self _ _) ⟨?_, ?_⟩
      · dsimp only
        omega
      · dsimp only
        omega
  · -- an area that is not empty does not start where the new one does
    have hne : ∀ j, (table j).pid ≠ 0 → (table j).memBase ≠ v.nextVaddr := fun j hj heq => by
      have hend := hbelow j hj
      have hpos := h.areas.areas.pos _ (h.slot j hj).mem
      have hposj : 0 < pagesNeeded (table j).memSize := hpos
      rw [heq] at hend
      omega
    by_cases hji : j = i
    · by_cases hki : k = i
      · exact hji.trans hki.symm
      · rw [Function.update_of_ne hki] at hk hjk
        rw [hji, Function.update_self] at hjk
        exact absurd hjk.symm (hne k hk)
    · rw [Function.update_of_ne hji] at hj hjk
      by_cases hki : k = i
      · rw [hki, Function.update_self] at hjk
        exact absurd hjk (hne j hj)
      · rw [Function.update_of_ne hki] at hk hjk
        exact h.distinct j k hj hk hjk

/-- **A process is removed**, and the areas of the others are still live. -/
theorem StackInv.drop (h : StackInv table stores v noted live) (hi : (table i).pid ≠ 0)
    (hu : VmmInv u noted' live') (hsub : noted' ⊆ noted) (hnext : u.nextVaddr = v.nextVaddr)
    (hkeep : ∀ a ∈ live, a.base ≠ (table i).memBase → a ∈ live') :
    StackInv (Function.update table i { table i with pid := 0 }) stores u noted' live' where
  areas := hu
  noted_pos a ha := h.noted_pos a (hsub ha)
  aligned := hnext ▸ h.aligned
  slot j hj := by
    by_cases hji : j = i
    · rw [hji, Function.update_self] at hj
      exact absurd rfl hj
    · rw [Function.update_of_ne hji] at hj ⊢
      obtain ⟨hmem, haligned, hptr, hge, hstored⟩ := h.slot j hj
      exact ⟨hkeep _ hmem fun hbase => hji (h.distinct j i hj hi hbase), haligned, hptr, hge,
        hstored⟩
  distinct j k hj hk hjk := by
    by_cases hji : j = i
    · rw [hji, Function.update_self] at hj
      exact absurd rfl hj
    · by_cases hki : k = i
      · rw [hki, Function.update_self] at hk
        exact absurd rfl hk
      · rw [Function.update_of_ne hji] at hj hjk
        rw [Function.update_of_ne hki] at hk hjk
        exact h.distinct j k hj hk hjk

/-! ## Where the frames are -/

/-- **The frames are accounted for**, since the tables were `s₀`: whatever was taken belongs to a
stack, and every page mapped since is in one. -/
structure AccountInv (s₀ : Paging TableHeap) (table : ProcTable) (v : Vmm TableHeap)
    (noted live : List Allocation) : Prop where
  live_owned : ∀ a ∈ live, ∃ i, (table i).pid ≠ 0 ∧ (table i).area = a
  live_noted : live ⊆ noted
  frames : ∀ k < 2 ^ 20, s₀.pmm.testBit k = false →
    Conserved v.paging (LivePage live) [(0, frameAddr k)]
  pages : ∀ n f, v.paging.pageFrame n = some f → LivePage live n ∨ s₀.pageFrame n = some f

variable {s₀ : Paging TableHeap} {P : Fin (2 ^ 36) → Prop} {H H' : List (U64 × U64)} {base : U64}

theorem Conserved.mono {s : Paging TableHeap} (h : Conserved s P H) (hsub : H' ⊆ H) :
    Conserved s P H' where
  frame x hx := h.frame x (hsub hx)
  root x hx := h.root x (hsub hx)
  owned x hx := h.owned x (hsub hx)
  foreign x hx := h.foreign x (hsub hx)

/-- A frame that was free holds no table and backs nothing yet. -/
theorem WellFormed.conserved_of_free (h : WellFormed s₀) {k : ℕ} (hk : k < 2 ^ 20)
    (hfree : s₀.pmm.testBit k = false) (P : Fin (2 ^ 36) → Prop) :
    Conserved s₀ P [(0, frameAddr k)] := by
  have htable : ∀ b, s₀.IsTable b → frameOf b ≠ frameOf (frameAddr k) := by
    intro b hb heq
    rw [frameOf_frameAddr hk] at heq
    have hused := h.toPageTree.used b hb
    rw [heq, hfree] at hused
    cases hused
  refine ⟨fun x hx => ?_, fun x hx => ?_, fun x hx hu => ?_, fun x hx n _ _ q b _ hlen hq => ?_⟩
  all_goals obtain rfl := List.mem_singleton.mp hx
  · exact ⟨k, hk, rfl⟩
  · exact (htable _ isNode_root).symm
  · rw [frameOf_frameAddr hk, hfree] at hu
    cases hu
  · exact htable b ⟨q, hlen, hq⟩

/-- The loop of `vmm_alloc`, for any frames. -/
theorem Conserved.keep_allocPages {t' : Vmm TableHeap} {N : ℕ} (h : Conserved t.paging P H)
    (hp : PagesOk t.paging P) (hP : ∀ i < N, ¬ P (areaPage base i))
    (hne : ∀ i < N, ∀ j < i, areaPage base i ≠ areaPage base j)
    (ht : OS44.allocPages base 0 N t = .ok (true, t'))
    (hnf : t'.paging.pmm.failures = t.paging.pmm.failures) :
    Conserved t'.paging (fun n => P n ∨ ∃ j < N, n = areaPage base j) H := by
  rcases allocPages_rule base N
      (I := fun i u => PagesOk u.paging (fun n => P n ∨ ∃ j < i, n = areaPage base j) ∧
        Conserved u.paging (fun n => P n ∨ ∃ j < i, n = areaPage base j) H)
      (fun i u hu => hu.1.wf)
      (fun i u k p hi hu ha => by
        have hstep : ∀ n, (P n ∨ ∃ j < i + 1, n = areaPage base j) ↔
            (P n ∨ ∃ j < i, n = areaPage base j) ∨
              n = pageOf (base + BitVec.ofNat 64 i * 4096) := fun n => by
          rw [Nat.exists_lt_succ_right, or_assoc]
          rfl
        have hnew : ¬ (P (areaPage base i) ∨ ∃ j < i, areaPage base i = areaPage base j) := by
          rintro (hPi | ⟨j, hj, hij⟩)
          exacts [hP i hi hPi, hne i hi j hj hij]
        have hcons := hu.2.alloc (w := 0) ha hnew
        exact ⟨(hu.1.alloc ha).congr hstep,
          (hcons.mono (List.subset_cons_self _ _)).congr hstep⟩)
      (Nat.zero_add N) (t := t) ⟨hp.congr (by simp), h.congr (by simp)⟩ with ⟨hlt, -⟩ | ⟨u, hu, hI⟩
  · rw [ht] at hlt
    exact absurd hnf hlt.ne'
  · rw [ht] at hu
    obtain rfl : t' = u := (Prod.mk.inj (Except.ok.inj hu)).2
    exact hI.2

/-- The step lemma of `process_create`. -/
theorem AccountInv.create (h : AccountInv s₀ table v noted live) (hs : VmmInv v noted live)
    (hi : (table i).pid = 0) (hpid : pid ≠ 0) (ha : AllocAllowed v size)
    (hcount : v.vmaCount < 128)
    (hloop : allocPages v.nextVaddr 0 (numPages size).toNat v = .ok (true, t))
    (hm : MapsArea v (LivePage live) v.nextVaddr (pagesNeeded size) t) :
    AccountInv s₀ (Function.update table i (newPcb pid v.nextVaddr size)) (finishAlloc t size)
      (note v.vmaCount noted ⟨v.nextVaddr, pagesNeeded size⟩)
      (⟨v.nextVaddr, pagesNeeded size⟩ :: live) := by
  have hn := toNat_numPages ha.2.1
  have hlow : v.nextVaddr.toNat + 4096 * pagesNeeded size ≤ 2 ^ 48 := ha.2.2.trans (by decide)
  have hpage : ∀ n, LivePage (⟨v.nextVaddr, pagesNeeded size⟩ :: live) n ↔
      LivePage live n ∨ ∃ j < pagesNeeded size, n = areaPage v.nextVaddr j := by
    intro n
    have hpos := @AllocAllowed.pagesNeeded_pos ⟨v, live⟩ size ha
    have hadd : addLive live v.nextVaddr (pagesNeeded size) = _ := if_neg hpos.ne'
    rw [← hadd]
    exact livePage_addLive
  refine ⟨fun a ha' => ?_, ?_, fun k hk hfree => ?_, fun n f hf => ?_⟩
  · obtain rfl | ha' := List.mem_cons.mp ha'
    · exact ⟨i, by rw [Function.update_self]; exact hpid, by rw [Function.update_self, areaNew_eq]⟩
    · obtain ⟨j, hj, rfl⟩ := h.live_owned a ha'
      have hji : j ≠ i := fun he => hj (he ▸ hi)
      exact ⟨j, by rwa [Function.update_of_ne hji], by rw [Function.update_of_ne hji]⟩
  · rw [note, if_pos hcount]
    exact List.cons_subset_cons _ h.live_noted
  · rw [paging_finishAlloc]
    rw [hn] at hloop
    refine ((h.frames k hk hfree).keep_allocPages hs.pages
      (fun j hj => hs.areas.not_livePage hlow hj) (fun j hj m hmj he => ?_) hloop
      hm.failures_eq).congr hpage
    exact absurd (areaPage_inj hlow hj (hmj.trans hj) he) (by omega)
  · rw [paging_finishAlloc] at hf
    by_cases hin : ∃ j < pagesNeeded size, n = areaPage v.nextVaddr j
    · exact .inl ((hpage n).mpr (.inr hin))
    · rw [hm.pageFrame_eq n fun j hj he => hin ⟨j, hj, he⟩] at hf
      exact (h.pages n f hf).imp_left fun hl => (hpage n).mpr (.inl hl)

/-- The step lemma of `vmm_free`. -/
theorem AccountInv.drop {xs ys : List Allocation} {a : Allocation}
    (h : AccountInv s₀ table v (xs ++ a :: ys) live)
    (hs : StackInv table stores v (xs ++ a :: ys) live)
    (hbase : a.base = (table i).memBase) (ha : a ∈ live)
    (hu : UnmapsArea v.paging (LivePage live) a.base a.pages u.paging)
    (hpag : u.paging = freePages v.paging a.base a.pages) :
    AccountInv s₀ (Function.update table i { table i with pid := 0 }) u (xs ++ ys)
      (dropLive live a.base) := by
  have hlow := hs.areas.areas.low a ha
  have hpage : ∀ n, LivePage (dropLive live a.base) n ↔
      LivePage live n ∧ ∀ j < a.pages, n ≠ areaPage a.base j := by
    intro n
    rw [hs.areas.areas.livePage_dropLive ha]
    simp only [Allocation.HasPage, not_exists, not_and, ne_eq]
  refine ⟨fun b hb => ?_, fun b hb => ?_, fun k hk hfree => ?_, fun n f hf => ?_⟩
  · obtain ⟨hb, hne⟩ := mem_dropLive.mp hb
    obtain ⟨j, hj, rfl⟩ := h.live_owned b hb
    have hji : j ≠ i := fun he => hne (by rw [hbase, ← he]; rfl)
    exact ⟨j, by rwa [Function.update_of_ne hji], by rw [Function.update_of_ne hji]⟩
  · obtain ⟨hb, hne⟩ := mem_dropLive.mp hb
    have hmem := h.live_noted hb
    simp only [List.mem_append, List.mem_cons] at hmem ⊢
    exact hmem.imp_right fun hor => hor.resolve_left fun he => hne (he ▸ rfl)
  · rw [hpag]
    refine ((h.frames k hk hfree).freePages hs.areas.pages (fun j hj => ⟨a, ha, j, hj, rfl⟩)
      fun j hj m hmj he => ?_).congr hpage
    exact absurd (areaPage_inj hlow hj (hmj.trans hj) he) (by omega)
  · by_cases hin : ∃ j < a.pages, n = areaPage a.base j
    · obtain ⟨j, hj, rfl⟩ := hin
      rw [hu.unmapped j hj] at hf
      cases hf
    · have hout : ∀ j < a.pages, n ≠ areaPage a.base j := fun j hj he => hin ⟨j, hj, he⟩
      rw [hu.pageFrame_eq n hout] at hf
      exact (h.pages n f hf).imp_left fun hl => (hpage n).mpr ⟨hl, hout⟩

/-- Only a killed process, a status or a run time has changed. -/
theorem AccountInv.congr (h : AccountInv s₀ table v noted live)
    (heq : ∀ i, (table' i).pid = (table i).pid ∧ (table' i).memBase = (table i).memBase ∧
      (table' i).memSize = (table i).memSize ∧ (table' i).stackPtr = (table i).stackPtr) :
    AccountInv s₀ table' v noted live where
  live_owned a ha := by
    obtain ⟨i, hi, harea⟩ := h.live_owned a ha
    obtain ⟨hpid, hbase, hsize, -⟩ := heq i
    exact ⟨i, hpid ▸ hi, by rw [← harea, Pcb.area, Pcb.area, hbase, hsize]⟩
  live_noted := h.live_noted
  frames := h.frames
  pages := h.pages

/-! ## One call -/

variable {s s' : Processes TableHeap} {call : ProcCall}

/-- Both invariants, of a state. -/
def StacksInv (s₀ : Paging TableHeap) (accounted : Prop) (s : Processes TableHeap) : Prop :=
  ∃ noted live, StackInv s.procTable s.stores s.vmm noted live ∧
    (accounted → AccountInv s₀ s.procTable s.vmm noted live)

/-- A round of `process_check_and_free`. -/
theorem StacksInv.checkAndFreeSlot {accounted : Prop} (h : StacksInv s₀ accounted s)
    (i : Fin 16) :
    ∃ s', OS44.checkAndFreeSlot s i = some s' ∧ StacksInv s₀ accounted s' := by
  obtain ⟨noted, live, hinv, hacc⟩ := h
  by_cases hreap : (s.procTable i).Reapable
  · have hi := hreap.1
    have hmem := (hinv.slot i hi).mem
    rcases hinv.areas.free (s.procTable i).memBase with ⟨hnone, hf⟩ |
      ⟨xs, a, ys, u, rfl, hxs, hbase, hf, hu, hpag, -, hnext, -, hinv'⟩
    · -- the pool had no node for the stack: it stays mapped
      refine ⟨_, checkAndFreeSlot_of_reapable hreap hf, noted, live, ?_, fun hc => ?_⟩
      · exact hinv.drop hi hinv.areas (List.Subset.refl _) rfl fun a ha _ => ha
      · exact absurd rfl (hnone _ ((hacc hc).live_noted hmem))
    · have hpos : 0 < a.pages := hinv.noted_pos a (by simp)
      have ha : a ∈ live := hinv.areas.noted_live a (by simp) hpos
      rw [if_neg hpos.ne'] at hinv'
      refine ⟨_, checkAndFreeSlot_of_reapable hreap hf, xs ++ ys,
        dropLive live (s.procTable i).memBase, ?_, fun hc => ?_⟩
      · exact hinv.drop hi hinv'
          (List.Sublist.append_left (List.sublist_cons_self a ys) xs).subset hnext
          fun b hb hne => mem_dropLive.mpr ⟨hb, hne⟩
      · rw [← hbase] at hu hpag ⊢
        exact (hacc hc).drop hinv hbase ha hu hpag
  · exact ⟨s, checkAndFreeSlot_of_not_reapable hreap, noted, live, hinv, hacc⟩

/-- The loop of `process_check_and_free`. -/
theorem StacksInv.checkAndFree {accounted : Prop} {slots : List (Fin 16)}
    (h : StacksInv s₀ accounted s) :
    ∃ s', slots.foldlM OS44.checkAndFreeSlot s = some s' ∧ StacksInv s₀ accounted s' := by
  induction slots generalizing s with
  | nil => exact ⟨s, rfl, h⟩
  | cons i slots ih =>
    obtain ⟨s₁, hs₁, h₁⟩ := h.checkAndFreeSlot i
    obtain ⟨s', hs', h'⟩ := ih h₁
    exact ⟨s', by rw [List.foldlM_cons, hs₁]; exact hs', h'⟩

/-- `process_create` with a free slot. -/
theorem processCreate_of_alloc {q base : U64} (hi : getProcByPid s.procTable 0 = some i)
    (hq : lowestPid s.procTable = some q) (hv : vmmAlloc s.vmm size = .ok (base, u)) :
    processCreate s entry size = some (q, { s with
      vmm := u
      procTable := Function.update s.procTable i (newPcb q base size)
      stores := (base + size - 8, entry) :: s.stores }) := by
  simp only [processCreate, hi, hq, hv]
  rfl

/-- A new process keeps the invariants. -/
theorem StacksInv.create {accounted : Prop} (h : StacksInv s₀ accounted s)
    (ha : CallAllowed s (.create entry size)) (hn : accounted → CallNoted s (.create entry size)) :
    ∃ s', procStep s (.create entry size) = some s' ∧ StacksInv s₀ accounted s' := by
  obtain ⟨noted, live, hinv, hacc⟩ := h
  cases hi : getProcByPid s.procTable 0 with
  | none =>
    have hfull : processCreate s entry size = some (0, s) := by simp only [processCreate, hi]
    exact ⟨s, congrArg (Option.map Prod.snd) hfull, noted, live, hinv, hacc⟩
  | some i =>
    have hi0 := getProcByPid_eq_some hi
    obtain ⟨h8, hsize, hsuffice⟩ := ha ⟨i, hi0⟩
    obtain ⟨q, hq, ⟨⟨hpos, -⟩, -⟩, -⟩ := lowestPid_spec s.procTable
    have hq0 : q ≠ 0 := by
      rintro rfl
      exact absurd hpos (lt_irrefl 0)
    obtain ⟨t, hloop, ht, hm, hinv'⟩ := hinv.create h8 hsize hsuffice i entry q
    refine ⟨_, congrArg (Option.map Prod.snd) (processCreate_of_alloc hi hq ht), _, _, hinv',
      fun hc => ?_⟩
    exact (hacc hc).create hinv.areas hi0 hq0 hsize (hn hc ⟨i, hi0⟩) hloop hm

/-- What a call leaves of a process that it does not remove. -/
theorem StacksInv.congr {accounted : Prop} (h : StacksInv s₀ accounted s)
    (hvmm : s'.vmm = s.vmm) (hstores : s'.stores = s.stores)
    (heq : ∀ i, (s'.procTable i).pid = (s.procTable i).pid ∧
      (s'.procTable i).memBase = (s.procTable i).memBase ∧
      (s'.procTable i).memSize = (s.procTable i).memSize ∧
      (s'.procTable i).stackPtr = (s.procTable i).stackPtr) : StacksInv s₀ accounted s' := by
  obtain ⟨noted, live, hinv, hacc⟩ := h
  refine ⟨noted, live, ?_, fun hc => ?_⟩
  · rw [hvmm, hstores]
    exact hinv.congr heq
  · rw [hvmm]
    exact (hacc hc).congr heq

/-- **One call** comes back and keeps the invariants. -/
theorem StacksInv.procStep {accounted : Prop} (h : StacksInv s₀ accounted s)
    (ha : CallAllowed s call) (hn : accounted → CallNoted s call) :
    ∃ s', OS44.procStep s call = some s' ∧ StacksInv s₀ accounted s' := by
  cases call with
  | create entry size => exact h.create ha hn
  | kill pid =>
    refine ⟨killProc s pid, rfl, ?_⟩
    unfold killProc
    split
    · exact h
    · next i _ =>
      refine h.congr rfl rfl fun j => ?_
      by_cases hji : j = i
      · subst hji
        simp
      · simp [Function.update_of_ne hji]
  | checkAndFree => exact h.checkAndFree
  | scheduler =>
    refine ⟨scheduler s, rfl, ?_⟩
    unfold scheduler
    dsimp only
    split
    · refine h.congr rfl rfl fun j => ?_
      dsimp only
      split <;> exact ⟨rfl, rfl, rfl, rfl⟩
    · exact h
  | tick => exact ⟨_, rfl, h.congr rfl rfl fun _ => ⟨rfl, rfl, rfl, rfl⟩⟩

/-! ## Every run -/

/-- After `process_init`, with no area handed out yet. -/
theorem stacksInv_init (hs₀ : WellFormed s₀) (hs : s.vmm = vmmInit (vmmBoot s₀))
    (accounted : Prop) : StacksInv s₀ accounted (processInit s) := by
  have hvmm : (processInit s).vmm = vmmInit (vmmBoot s₀) := hs
  have hpid : ∀ i, ((processInit s).procTable i).pid = 0 := fun _ => rfl
  refine ⟨[], [], ⟨?_, by simp, ?_, fun i hi => absurd (hpid i) hi,
    fun i j hi => absurd (hpid i) hi⟩, fun _ => ⟨by simp, List.Subset.refl _, ?_, ?_⟩⟩
  · rw [hvmm]
    exact vmmInv_nil hs₀ rfl
  · rw [hvmm]
    show (0x10000000 : U64).toNat % 4096 = 0
    decide
  · intro k hk hfree
    rw [hvmm]
    exact hs₀.conserved_of_free hk hfree _
  · intro n f hf
    rw [hvmm] at hf
    exact .inr hf

/-- **The stacks are isolated.** Every run of the process layer from well-formed tables on, in which
the frames suffice for the stacks, comes through. In the state it ends in, each byte of a stack is
in a frame that is in use, holds no table and is in no other process's stack, and the entry point of
a process is where `process_create` stored it. -/
theorem process_stacks_isolated (s₀ : Paging TableHeap) (hs₀ : WellFormed s₀)
    (s : Processes TableHeap) (hs : s.vmm = vmmInit (vmmBoot s₀)) (calls : List ProcCall)
    (ha : AllSteps procStep CallAllowed (processInit s) calls) :
    ∃ t, run procStep (processInit s) calls = some t ∧ StacksIsolated t := by
  obtain ⟨t, hrun, noted, live, hinv, -⟩ := AllSteps.exists_run
    (fun _ _ hinv hcall => StacksInv.procStep hinv hcall fun hc => hc.elim)
    (stacksInv_init hs₀ hs False) ha
  exact ⟨t, hrun, hinv.isolated⟩

/-- **The frames are accounted for**, since the tables were `s₀`. -/
structure FramesAccounted (s₀ : Paging TableHeap) (s : Processes TableHeap) : Prop where
  /-- A frame taken since then backs a page of a stack, or holds a table on the way to one. -/
  frames : ∀ k < 2 ^ 20, s₀.pmm.testBit k = false → s.vmm.paging.pmm.testBit k = true →
    ∃ i, (s.procTable i).pid ≠ 0 ∧ ∃ n, (s.procTable i).area.HasPage n ∧
      (s.vmm.paging.pageFrame n = some (frameAddr k) ∨ ∃ q b, q <+: pagePath n ∧
        walk (link s.vmm.paging.mem) s.vmm.paging.pml4 q = some b ∧ frameOf b = k)
  /-- A page mapped since then is in a stack. -/
  pages : ∀ n f, s.vmm.paging.pageFrame n = some f →
    s₀.pageFrame n = some f ∨ ∃ i, (s.procTable i).pid ≠ 0 ∧ (s.procTable i).area.HasPage n

/-- The invariant accounts for the frames. -/
theorem StacksInv.framesAccounted (h : StacksInv s₀ True s) : FramesAccounted s₀ s := by
  obtain ⟨noted, live, hinv, hacc⟩ := h
  have hacc := hacc trivial
  have howner : ∀ n, LivePage live n →
      ∃ i, (s.procTable i).pid ≠ 0 ∧ (s.procTable i).area.HasPage n := by
    rintro n ⟨a, ha, hn⟩
    obtain ⟨i, hi, rfl⟩ := hacc.live_owned a ha
    exact ⟨i, hi, hn⟩
  refine ⟨fun k hk hfree hused => ?_, fun n f hf => (hacc.pages n f hf).symm.imp_right (howner n)⟩
  have hcons := hacc.frames k hk hfree
  have hmem : ((0, frameAddr k) : U64 × U64) ∈ [((0, frameAddr k) : U64 × U64)] :=
    List.mem_singleton_self _
  have hframe := frameOf_frameAddr hk
  rcases hcons.owned _ hmem (by rw [hframe]; exact hused) with ⟨b, hb, hbk⟩ | ⟨n, hn, hf⟩
  · -- a table leads to some page, which is in a stack
    have hne : b ≠ s.vmm.paging.pml4 := fun he => hcons.root _ hmem (by rw [← hbk, he])
    obtain ⟨n, q, hqn, hlen, hq, hmapped⟩ := hinv.areas.pages.wf.exists_page hb hne
    have hn : LivePage live n := by
      by_contra hn
      exact hcons.foreign _ hmem n hn hmapped q b hqn hlen hq hbk
    obtain ⟨i, hi, hin⟩ := howner n hn
    exact ⟨i, hi, n, hin, .inr ⟨q, b, hqn, hq, hbk.trans hframe⟩⟩
  · obtain ⟨i, hi, hin⟩ := howner n hn
    exact ⟨i, hi, n, hin, .inl hf⟩

/-- **No frame is lost while the pool lasts.** In a run of the process layer from well-formed tables
on, in which the frames suffice and each new stack finds a node of the pool, and in the state it
ends in: a frame taken since boot is in the stack of a process of the table or in a table on the way
to one, and so with no process left all frames that were free are free again. -/
theorem process_frames_accounted (s₀ : Paging TableHeap) (hs₀ : WellFormed s₀)
    (s : Processes TableHeap) (hs : s.vmm = vmmInit (vmmBoot s₀)) (calls : List ProcCall)
    (ha : AllSteps procStep (fun s call => CallAllowed s call ∧ CallNoted s call)
      (processInit s) calls) :
    ∃ t, run procStep (processInit s) calls = some t ∧ FramesAccounted s₀ t ∧
      ((∀ i, (t.procTable i).pid = 0) →
        ∀ k < 2 ^ 20, s₀.pmm.testBit k = false → t.vmm.paging.pmm.testBit k = false) := by
  obtain ⟨t, hrun, hinv⟩ := AllSteps.exists_run
    (fun _ _ hinv hcall => StacksInv.procStep hinv hcall.1 fun _ => hcall.2)
    (stacksInv_init hs₀ hs True) ha
  have hacc := hinv.framesAccounted
  refine ⟨t, hrun, hacc, fun hnone k hk hfree => ?_⟩
  by_contra hused
  obtain ⟨i, hi, -⟩ := hacc.frames k hk hfree (by simpa using hused)
  exact hi (hnone i)

/-! ## An example -/

/-- With four free frames a page, and room below the end of the lower half, a process can be
created, and its stack takes no more. -/
theorem StackInv.exists_create (h : StackInv s.procTable s.stores s.vmm noted live)
    (hz : s.vmm.paging.pmm.testBit 0 = true)
    (hfree : 4 * pagesNeeded size ≤ s.vmm.paging.pmm.freeFrames.card)
    (h8 : 8 ≤ size.toNat) (ha : AllocAllowed s.vmm size) (hi : (s.procTable i).pid = 0)
    (entry : U64) :
    CallAllowed s (.create entry size) ∧ ∃ s' noted' live',
      procStep s (.create entry size) = some s' ∧
      StackInv s'.procTable s'.stores s'.vmm noted' live' ∧
      s'.vmm.paging.pmm.testBit 0 = true ∧
      s.vmm.paging.pmm.freeFrames.card ≤
        s'.vmm.paging.pmm.freeFrames.card + 4 * pagesNeeded size ∧
      s'.vmm.nextVaddr.toNat = s.vmm.nextVaddr.toNat + 4096 * pagesNeeded size ∧
      s'.vmm.vmaCount ≤ s.vmm.vmaCount + 1 ∧
      ∃ j, ∀ k, k ≠ j → s'.procTable k = s.procTable k := by
  have hn := toNat_numPages ha.2.1
  have hnext := ha.2.2
  have hsuffice : FramesSuffice s.vmm size := by
    rcases h.areas.alloc size (by rw [hn]; exact hnext.trans (by decide)) with ⟨-, hfew⟩ |
      ⟨t, -, ht, hm, -⟩
    · have := hfew hz
      omega
    · rw [FramesSuffice, ht]
      show (finishAlloc t size).paging.pmm.failures = _
      rw [paging_finishAlloc]
      exact hm.failures_eq
  refine ⟨fun _ => ⟨h8, ha, hsuffice⟩, ?_⟩
  obtain ⟨j, hj⟩ : ∃ j, getProcByPid s.procTable 0 = some j :=
    Option.ne_none_iff_exists'.mp fun hnone => getProcByPid_eq_none.mp hnone i hi
  obtain ⟨q, hq, -⟩ := lowestPid_spec s.procTable
  obtain ⟨t, hloop, ht, hm, hinv⟩ := h.create h8 ha hsuffice j entry q
  have hrest := hm.rest_eq
  have hnextEq : t.nextVaddr = s.vmm.nextVaddr := by rw [hrest]
  have hcountEq : t.vmaCount = s.vmm.vmaCount := by rw [hrest]
  refine ⟨_, _, _, congrArg (Option.map Prod.snd) (processCreate_of_alloc hj hq ht), hinv, ?_, ?_,
    ?_, ?_, j, fun k hk => Function.update_of_ne hk _ _⟩
  · exact (paging_finishAlloc t size) ▸ hm.used_mono 0 hz
  · have hcard := hm.card_free_le
    dsimp only
    rwa [paging_finishAlloc]
  · dsimp only
    rw [toNat_nextVaddr_finishAlloc (by rw [hnextEq, toNat_numPages_mul, hn]; omega), hnextEq,
      toNat_numPages_mul, hn]
  · dsimp only
    rw [vmaCount_finishAlloc, hcountEq]
    split_ifs <;> omega

/-- Two processes are created and the first one is removed. -/
def stackCalls : List ProcCall :=
  [.create 0x401000 4096, .create 0x402000 8192, .kill 1, .checkAndFree]

theorem allowed_stackCalls :
    AllSteps procStep (fun s call => CallAllowed s call ∧ CallNoted s call)
      (processInit stackMachine) stackCalls := by
  obtain ⟨noted, live, hinv, -⟩ :=
    stacksInv_init Sample.wellFormed_paging (rfl : stackMachine.vmm = _) False
  have hcard : (processInit stackMachine).vmm.paging.pmm.freeFrames.card = 129024 := by
    have hsample : Sample.pmm.freeFrames.card = 129024 := by
      rw [Sample.freeFrames_pmm]
      simp
    exact hsample
  have hone : pagesNeeded 4096 = 1 := by decide
  have htwo : pagesNeeded 8192 = 2 := by decide
  have hnext₀ : (processInit stackMachine).vmm.nextVaddr.toNat = 2 ^ 28 := by decide
  obtain ⟨h₁, s₁, _, _, hs₁, hinv₁, hz₁, hcard₁, hnext₁, hcount₁, j, hj⟩ :=
    @StackInv.exists_create _ _ 0 4096 (processInit stackMachine) hinv
      (Sample.testBit_pmm (by omega)) (by rw [hone]; omega) (by decide)
      ⟨by decide, by decide, by rw [hnext₀, hone]; decide⟩ rfl 0x401000
  obtain ⟨i, hi⟩ : ∃ i, i ≠ j := exists_ne j
  have hfree : (s₁.procTable i).pid = 0 := congrArg Pcb.pid (hj i hi)
  rw [hone] at hcard₁ hnext₁
  obtain ⟨h₂, -⟩ := @StackInv.exists_create _ _ i 8192 s₁ hinv₁ hz₁
    (by rw [htwo]; omega) (by decide)
    ⟨by decide, by decide, by rw [hnext₁, hnext₀, htwo]; decide⟩ hfree 0x402000
  have hzero : (processInit stackMachine).vmm.vmaCount = 0 := rfl
  refine ⟨⟨h₁, fun _ => by omega⟩, fun s hs => ?_⟩
  obtain rfl := Option.some.inj (hs.symm.trans hs₁)
  exact ⟨⟨h₂, fun _ => by omega⟩, fun _ _ => ⟨⟨trivial, trivial⟩, fun _ _ =>
    ⟨⟨trivial, trivial⟩, fun _ _ => trivial⟩⟩⟩

theorem process_stacks_isolated_sample : ∃ t,
    run procStep (processInit stackMachine) stackCalls = some t ∧ StacksIsolated t :=
  process_stacks_isolated Sample.paging Sample.wellFormed_paging stackMachine rfl stackCalls
    (AllSteps.consequence (fun _ _ _ _ _ _ => trivial) (fun _ _ _ hcall => hcall.1) trivial
      allowed_stackCalls)

theorem process_frames_accounted_sample : ∃ t,
    run procStep (processInit stackMachine) stackCalls = some t ∧
      FramesAccounted Sample.paging t := by
  obtain ⟨t, hrun, hacc, -⟩ := process_frames_accounted Sample.paging Sample.wellFormed_paging
    stackMachine rfl stackCalls allowed_stackCalls
  exact ⟨t, hrun, hacc⟩

end OS44
