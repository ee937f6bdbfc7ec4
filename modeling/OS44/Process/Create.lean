import OS44.Mem.VmmResult
import OS44.Process.Pids

/-! # What a new process is given

`process_create` fills its slot whatever `vmm_alloc` returned, and pushes the entry point below the
top of the stack whatever the size of the stack. So the store is inside the stack exactly when the
stack holds a word and `vmm_alloc` handed it out (`process_create_iff`). -/

namespace OS44

open LinkedTree TableMemory

section Create

variable {M : Type} [TableMemory M] {s s' : Processes M} {entry stackSize pid base : U64}

/-! ## What must hold -/

/-- **`vmm_alloc` hands out `size` bytes** at `base`: the result is not `NULL`, and the whole area
is mapped to frames taken by this call. -/
structure HandsOut (s : Vmm M) (size base : U64) (t : Vmm M) : Prop where
  result : vmmAlloc s size = .ok (base, t)
  ne_null : base ≠ 0
  mapped : AreaMapped s base size t

/-- What `vmm_alloc` returns is the area handed out. -/
theorem HandsOut.eq {s t u : Vmm M} {size base p : U64} (h : HandsOut s size base t)
    (hu : vmmAlloc s size = .ok (p, u)) : p = base ∧ u = t :=
  Prod.mk.inj (Except.ok.inj (hu.symm.trans h.result))

/-- **A new process** `p` in slot `i`, which was free: its pid was in no slot, its stack is a new
area, the word with the entry point lies in the stack, and apart from the area and the slot only
that word has been written. -/
structure NewProcess (s : Processes M) (entry stackSize : U64) (s' : Processes M) (i : Fin 16)
    (p : Pcb) : Prop where
  slot_free : (s.procTable i).pid = 0
  table_eq : s'.procTable = Function.update s.procTable i p
  pid_ne : p.pid ≠ 0
  pid_fresh : ∀ j, (s.procTable j).pid ≠ p.pid
  status_eq : p.status = .running
  memSize_eq : p.memSize = stackSize
  runTime_eq : p.runTime = 0
  stack : HandsOut s.vmm stackSize p.memBase s'.vmm
  word_ge : p.memBase.toNat ≤ p.stackPtr.toNat
  word_le : p.stackPtr.toNat + 8 ≤ p.memBase.toNat + stackSize.toNat
  stores_eq : s'.stores = (p.stackPtr, entry) :: s.stores
  lastTime_eq : s'.lastTime = s.lastTime
  timer_eq : s'.timer = s.timer

/-- **What `process_create` must do**: come back with 0 and nothing changed, or with the pid of a
new process. -/
def CreateOk (s : Processes M) (entry stackSize : U64) : Prop :=
  ∃ pid s', processCreate s entry stackSize = some (pid, s') ∧
    ((pid = 0 ∧ s' = s) ∨ ∃ i p, p.pid = pid ∧ NewProcess s entry stackSize s' i p)

/-- The frames suffice for the stack, frame 0 is in use and the area fits the address space. -/
def StackFits (s : Vmm M) (size : U64) : Prop :=
  s.nextVaddr ≠ 0 ∧ s.paging.pmm.testBit 0 = true ∧
    framesNeeded s.paging s.nextVaddr (numPages size).toNat ≤ s.paging.pmm.freeFrames.card ∧
    AreaFits s size

/-! ## The process created -/

/-- A table with no free slot is left as it is. -/
theorem createOk_of_full (hfull : ∀ i, (s.procTable i).pid ≠ 0) : CreateOk s entry stackSize := by
  refine ⟨0, s, ?_, .inl ⟨rfl, rfl⟩⟩
  simp only [processCreate, getProcByPid_eq_none.mpr hfull]

/-- The stack pointer of a new process, when the stack ends inside the address space. -/
theorem toNat_stackPtr (h8 : 8 ≤ stackSize.toNat) (hend : base.toNat + stackSize.toNat ≤ 2 ^ 64) :
    (base + stackSize - 8).toNat = base.toNat + stackSize.toNat - 8 := by
  have hword : (8 : U64).toNat = 8 := rfl
  rw [BitVec.toNat_sub, BitVec.toNat_add, hword]
  omega

variable {v t : Vmm M} {size : U64}

/-- An area that is handed out ends inside the address space. -/
theorem HandsOut.end_le (h : HandsOut v size base t) (hsize : size.toNat ≠ 0) :
    base.toNat + size.toNat ≤ 2 ^ 64 := by
  have hlast := (h.mapped (base.toNat + size.toNat - 1) (by omega) (by omega)).1
  omega

/-- With a free slot and a stack that holds a word, the process is created as it must be. -/
theorem createOk_of_handsOut {i : Fin 16} (hi : getProcByPid s.procTable 0 = some i)
    (h8 : 8 ≤ stackSize.toNat) (hstack : HandsOut s.vmm stackSize base t) :
    CreateOk s entry stackSize := by
  obtain ⟨q, hq, ⟨⟨hpos, hfresh⟩, -⟩, -⟩ := lowestPid_spec s.procTable
  have hword := toNat_stackPtr h8 (hstack.end_le (by omega))
  -- the entry goes to the last word of the stack
  simp only [CreateOk, processCreate, hi, hq, hstack.result]
  refine ⟨q, _, rfl, .inr ⟨i, ⟨q, .running, base + stackSize - 8, base, stackSize, 0⟩, rfl, ?_⟩⟩
  exact {
    slot_free := getProcByPid_eq_some hi
    table_eq := rfl
    pid_ne := by
      rintro rfl
      exact absurd hpos (lt_irrefl 0)
    pid_fresh := fun j hj => hfresh j (congrArg BitVec.toNat hj)
    status_eq := rfl
    memSize_eq := rfl
    runTime_eq := rfl
    stack := hstack
    word_ge := by
      show base.toNat ≤ (base + stackSize - 8).toNat
      omega
    word_le := by
      show (base + stackSize - 8).toNat + 8 ≤ base.toNat + stackSize.toNat
      omega
    stores_eq := rfl
    lastTime_eq := rfl
    timer_eq := rfl }

/-- **In every state** the process is created as it must be if the table is full, or the stack is
handed out and holds a word. -/
theorem createOk_iff_handsOut (s : Processes M) (entry stackSize : U64) :
    CreateOk s entry stackSize ↔ (∀ i, (s.procTable i).pid ≠ 0) ∨
      (8 ≤ stackSize.toNat ∧ ∃ p t, HandsOut s.vmm stackSize p t) := by
  constructor
  · rintro ⟨pid, s', hcreate, ⟨rfl, rfl⟩ | ⟨i, p, -, hnew⟩⟩
    · -- 0 is not a pid the search can end with, so that the table was full
      rcases processCreate_eq_some hcreate with ⟨-, -, hfull⟩ | ⟨-, -, -, hlow, -, -⟩
      · exact .inl hfull
      · obtain ⟨q, hq, ⟨⟨hpos, -⟩, -⟩, -⟩ := lowestPid_spec s'.procTable
        obtain rfl := Option.some.inj (hq.symm.trans hlow)
        exact absurd hpos (lt_irrefl 0)
    · have hge := hnew.word_ge
      have hle := hnew.word_le
      exact .inr ⟨by omega, _, _, hnew.stack⟩
  · rintro (hfull | ⟨h8, p, t, hstack⟩)
    · exact createOk_of_full hfull
    · cases hi : getProcByPid s.procTable 0 with
      | none => exact createOk_of_full (getProcByPid_eq_none.mp hi)
      | some i => exact createOk_of_handsOut hi h8 hstack

/-- With a free slot, a `vmm_alloc` that returns `NULL` makes `process_create` store the entry point
below the address `stack_size`. -/
theorem processCreate_of_null {i : Fin 16} (entry : U64) (hi : getProcByPid s.procTable 0 = some i)
    (hpid : lowestPid s.procTable = some pid) (hvmm : vmmAlloc s.vmm stackSize = .ok (0, t)) :
    (∃ s', processCreate s entry stackSize = some (pid, s') ∧
      s'.stores = (stackSize - 8, entry) :: s.stores) ∧ ¬ CreateOk s entry stackSize := by
  constructor
  · have htop : 0 + stackSize - 8 = stackSize - 8 := congrArg (· - 8) (BitVec.zero_add stackSize)
    simp only [processCreate, hi, hpid, hvmm, htop]
    exact ⟨_, rfl, rfl⟩
  · intro hok
    rcases (createOk_iff_handsOut _ _ _).mp hok with hfull | ⟨-, p, u, hstack⟩
    · exact hfull i (getProcByPid_eq_some hi)
    · exact hstack.ne_null (hstack.eq hvmm).1.symm

end Create

/-! ## The areas handed out -/

section Areas

variable {v t : Vmm TableHeap} {base size : U64}

theorem HandsOut.allocMaps (h : HandsOut v size base t) : AllocMaps v size :=
  ⟨base, t, h.result, fun _ => h.mapped⟩

/-- **When an area is handed out**, on a tree of tables: the frames decide. -/
theorem handsOut_iff (h : PageTree v.paging) (ha : v.nextVaddr.toNat % 4096 = 0)
    (hsize : size.toNat ≠ 0) : (∃ p u, HandsOut v size p u) ↔ StackFits v size := by
  have hnot : ∀ t, vmmAlloc v size = .ok (0, t) → ¬ ∃ p u, HandsOut v size p u := by
    rintro t ht ⟨p, u, hp⟩
    exact hp.ne_null (hp.eq ht).1.symm
  by_cases hn : (numPages size).toNat = 0
  · -- a size of some bytes with no page has wrapped around: its first byte is not mapped
    refine iff_of_false ?_ fun hfits => ?_
    · rintro ⟨p, u, hp⟩
      have hret : vmmAlloc v size = .ok (v.nextVaddr, finishAlloc v size) :=
        vmmAlloc_of_true (by rw [hn]; rfl)
      obtain ⟨rfl, rfl⟩ := hp.eq hret
      exact not_areaMapped_of_wrap (Nat.pos_of_ne_zero hsize) hp.mapped
    · have hle := hfits.2.2.2.1
      have := numPages_eq_zero_iff.mp hn
      omega
  by_cases hz : v.paging.pmm.testBit 0 = true
  swap
  · obtain ⟨t, ht⟩ := vmmAlloc_of_null hn (pmmAllocFrame_of_zero_unused hz)
    exact iff_of_false (hnot t ht) fun hfits => hz hfits.2.1
  have hmono := framesNeeded_strictMono v.paging v.nextVaddr
  rcases allocPages_cases h hz v.nextVaddr (numPages size).toNat with
    ⟨hle, t, ht, hf⟩ | ⟨hl, t, ht, hnone⟩ | ⟨⟨j, hj, hcost⟩, t, ht⟩ | ⟨⟨-, hmore⟩, t, ht⟩
  · have hret := vmmAlloc_of_true ht
    by_cases hne : v.nextVaddr = 0
    · exact iff_of_false (hnot _ (hne ▸ hret)) fun hfits => hfits.1 hne
    · have hiff := allocMaps_iff_of_filled ha hne ht hf
      constructor
      · rintro ⟨p, u, hp⟩
        exact ⟨hne, hz, hle, hiff.mp hp.allocMaps⟩
      · intro hfits
        obtain ⟨p, u, hu, hmaps⟩ := hiff.mpr hfits.2.2.2
        obtain ⟨rfl, rfl⟩ := Prod.mk.inj (Except.ok.inj (hret.symm.trans hu))
        exact ⟨_, _, hret, hne, hmaps hne⟩
  · refine iff_of_false ?_ fun hfits => ?_
    · rintro ⟨p, u, hp⟩
      refine not_allocMaps_of_lost ha ?_ hn ht hnone hp.allocMaps
      obtain ⟨rfl, rfl⟩ := hp.eq (vmmAlloc_of_true ht)
      exact hp.ne_null
    · have hone := hl.1
      have hle := hfits.2.2.1
      omega
  · refine iff_of_false (hnot t (vmmAlloc_of_false ht)) fun hfits => ?_
    have hlt := hmono hj
    have hle := hfits.2.2.1
    omega
  · refine iff_of_false ?_ fun hfits => ?_
    · rintro ⟨p, u, hp⟩
      cases (vmmAlloc_of_error ht).symm.trans hp.result
    · have hle := hfits.2.2.1
      omega

end Areas

section Bytes

variable {v : Vmm TableBytes} {size : U64} (h : PageTree v.paging)
  (hl : AreaMeets MapOutside v (numPages size).toNat)
include h hl

/-- What is handed out on structs is handed out in memory, as long as no counter that a
`paging_map` stores lies in a table. -/
theorem handsOut_onStructs : (∃ p u, HandsOut v size p u) ↔
    ∃ p u, HandsOut (v.withPaging v.paging.onStructs) size p u := by
  have hagrees := vmmAlloc_onStructs h hl
  rcases hs : vmmAlloc v size with t | ⟨p, t⟩ <;>
    rcases hh : vmmAlloc (v.withPaging v.paging.onStructs) size with u | ⟨q, u⟩ <;>
    rw [hs, hh] at hagrees <;> cases hagrees
  · refine iff_of_false ?_ ?_
    · rintro ⟨p, t, ht⟩
      cases hs.symm.trans ht.result
    · rintro ⟨p, t, ht⟩
      cases hh.symm.trans ht.result
  · next htu =>
    have hmapped := @areaMapped_onStructs size v t u htu p
    constructor
    · rintro ⟨p', t', ht⟩
      obtain ⟨rfl, rfl⟩ := ht.eq hs
      exact ⟨p, u, hh, ht.ne_null, hmapped.mp ht.mapped⟩
    · rintro ⟨p', u', hu⟩
      obtain ⟨rfl, rfl⟩ := hu.eq hh
      exact ⟨p, t, hs, hu.ne_null, hmapped.mpr hu.mapped⟩

theorem handsOut_iff_of_outside (ha : v.nextVaddr.toNat % 4096 = 0) (hsize : size.toNat ≠ 0) :
    (∃ p u, HandsOut v size p u) ↔ StackFits v size := by
  rw [handsOut_onStructs h hl]
  exact handsOut_iff h.onStructs ha hsize

end Bytes

/-- **When `process_create` does what it must.** In every state: the table is full, or the stack
holds a word and `vmm_alloc` hands it out. On a tree of tables in memory, while no counter that a
`paging_map` stores lies in a table, the latter is a count of frames. -/
theorem process_create_iff (s : Processes TableBytes) (entry stackSize : U64) :
    (CreateOk s entry stackSize ↔ (∀ i, (s.procTable i).pid ≠ 0) ∨
      (8 ≤ stackSize.toNat ∧ ∃ p t, HandsOut s.vmm stackSize p t)) ∧
    (PageTree s.vmm.paging → s.vmm.nextVaddr.toNat % 4096 = 0 →
      AreaMeets MapOutside s.vmm (numPages stackSize).toNat →
      (CreateOk s entry stackSize ↔ (∀ i, (s.procTable i).pid ≠ 0) ∨
        (8 ≤ stackSize.toNat ∧ StackFits s.vmm stackSize))) := by
  have hiff := createOk_iff_handsOut s entry stackSize
  refine ⟨hiff, fun htree ha hout => hiff.trans (or_congr_right ?_)⟩
  apply and_congr_right
  intro h8
  exact handsOut_iff_of_outside htree hout ha (by omega)

namespace Sample

/-- No process yet, on a machine with `k` free frames. -/
def scarceProcesses (k : ℕ) : Processes TableBytes where
  procTable := fun _ => Pcb.zero
  lastTime := 0
  timer := { timerTicks := 0, systemUptimeSeconds := 0 }
  vmm := vmmBoot (sparse k)
  stores := []

end Sample

/-- With four free frames a stack of one page is handed out. -/
theorem process_create_iff_sample : CreateOk (Sample.scarceProcesses 4) 0x401000 4096 := by
  have hone : (numPages 4096).toNat = 1 := by decide
  obtain ⟨-, htree⟩ := process_create_iff (Sample.scarceProcesses 4) 0x401000 4096
  refine (htree (Sample.wellFormed_sparse (by omega)).toPageTree (by decide) ?_).mpr
    (.inr ⟨by decide, by decide, Sample.used_sparsePmm (by omega) (by omega), ?_, by decide,
      .inr (by decide)⟩)
  · rw [hone]
    exact Sample.areaMeets_sparse (by omega)
  · rw [hone]
    exact (Sample.framesNeeded_sparse 4).trans_le (Sample.card_sparse (by omega)).ge

/-- **A stack at address `NULL`.** With no frame free `vmm_alloc` returns `NULL`; the process is
created all the same and its entry point is stored at 0xFF8. -/
theorem process_create_writes_low :
    (∃ s', processCreate (Sample.scarceProcesses 0) 0x401000 4096 = some (1, s') ∧
      s'.stores = [(0xFF8, 0x401000)]) ∧
    ¬ CreateOk (Sample.scarceProcesses 0) 0x401000 4096 := by
  have hempty : (Sample.scarceProcesses 0).vmm.paging.pmm.freeFrames = ∅ :=
    Finset.card_eq_zero.mp (Sample.card_sparse (by omega))
  have hnull : (pmmAllocFrame (Sample.scarceProcesses 0).vmm.paging.pmm).1 = 0 :=
    pmmAllocFrame_eq_zero_iff.mpr (.inl hempty)
  have hone : 0 < (numPages 4096).toNat := by decide
  have hfalse := allocPages_eq_false (v := (Sample.scarceProcesses 0).vmm.nextVaddr) (i := 0) hone
    rfl hnull
  exact processCreate_of_null 0x401000 rfl rfl (vmmAlloc_of_false hfalse)

end OS44
