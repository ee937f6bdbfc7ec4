import OS44.Mem.VmmAddress
import OS44.Process.Pids

/-! # Killing a process

`kill_proc` marks the slot that `get_proc_by_pid` finds, and `process_check_and_free` frees every
slot so marked (`processCheckAndFree_spec`). The pid 0 is the mark of a free slot, and
`get_proc_by_pid` finds it like any other: in every run, killing does what it must exactly when no
slot with the pid is free (`kill_proc_iff`). -/

namespace OS44

open Runs PoolList TableMemory

/-! ## The list of areas -/

section Areas

variable {M : Type} [TableMemory M] {v t : Vmm M} {ids : List (Fin 128)} {size ptr base : U64}

/-- A `vmm_alloc` that comes back leaves a chain of nodes. -/
theorem PoolChain.of_vmmAlloc (h : PoolChain v ids) (ht : vmmAlloc v size = .ok (base, t)) :
    ∃ ids', PoolChain t ids' := by
  rcases vmmAlloc_eq_ok ht with ⟨-, hloop⟩ | ⟨-, u, hloop, rfl⟩
  · exact ⟨ids, (pageBudget_allocPages hloop h).1⟩
  · obtain ⟨ids', hids', -⟩ := pageBudget_finishAlloc hloop h size
    exact ⟨ids', hids'⟩

/-- **`vmm_free` comes back** on a chain of nodes, and leaves one. -/
theorem PoolChain.exists_vmmFree (h : PoolChain v ids) (ptr : U64) :
    ∃ u ids', OS44.vmmFree v ptr = some u ∧ PoolChain u ids' := by
  rcases h.vmmFree ptr with ⟨-, hf⟩ | ⟨xs, id, ys, rfl, -, -, hf⟩
  · exact ⟨v, ids, hf, h⟩
  · have hl : PoolChain
        { v with paging := freePages v.paging ptr ((v.vmaNodes id).size / 4096).toNat }
        (xs ++ id :: ys) := ⟨h.chain, h.below, h.nodup⟩
    exact ⟨_, _, hf, hl.remove⟩

end Areas

/-! ## Reaping -/

/-- A process that has been killed and is still in its slot. -/
def Pcb.Reapable (p : Pcb) : Prop := p.pid ≠ 0 ∧ p.status = .terminated

instance (p : Pcb) : Decidable p.Reapable := inferInstanceAs (Decidable (_ ∧ _))

variable {M : Type} {s s' t : Processes M} {pid : U64} {i : Fin 16} {slots : List (Fin 16)}

/-- The stacks of the killed processes in some of the slots. -/
def stacksOf (table : ProcTable) (slots : List (Fin 16)) : List U64 :=
  (slots.filter fun i => (table i).Reapable).map fun i => (table i).memBase

theorem stacksOf_congr {table table' : ProcTable} (h : ∀ i ∈ slots, table' i = table i) :
    stacksOf table' slots = stacksOf table slots := by
  have hfilter : (slots.filter fun i => (table' i).Reapable) =
      slots.filter fun i => (table i).Reapable := by
    apply List.filter_congr
    intro i hi
    rw [h i hi]
  rw [stacksOf, stacksOf, hfilter]
  apply List.map_congr_left
  intro i hi
  rw [h i (List.mem_of_mem_filter hi)]

/-- The state after a round that frees the slot. -/
def reapSlot (s : Processes M) (i : Fin 16) (v : Vmm M) : Processes M :=
  { s with vmm := v, procTable := Function.update s.procTable i { s.procTable i with pid := 0 } }

theorem checkAndFreeSlot_of_reapable [TableMemory M] {v : Vmm M}
    (hi : (s.procTable i).Reapable) (hv : vmmFree s.vmm (s.procTable i).memBase = some v) :
    checkAndFreeSlot s i = some (reapSlot s i v) := by
  have hround : checkAndFreeSlot s i = (vmmFree s.vmm (s.procTable i).memBase).map (reapSlot s i) :=
    if_pos hi
  rw [hround, hv, Option.map_some]

theorem checkAndFreeSlot_of_not_reapable [TableMemory M] (hi : ¬ (s.procTable i).Reapable) :
    checkAndFreeSlot s i = some s := if_neg hi

theorem stacksOf_cons (table : ProcTable) (j : Fin 16) (slots : List (Fin 16)) :
    stacksOf table (j :: slots) = stacksOf table [j] ++ stacksOf table slots := by
  rw [stacksOf, stacksOf, stacksOf, ← List.map_append, ← List.filter_append]
  rfl

/-- **One round of `process_check_and_free`**: a slot with a killed process is freed and its stack
given back, any other is left as it is. -/
theorem checkAndFreeSlot_spec [TableMemory M] {ids : List (Fin 128)}
    (hlist : PoolChain s.vmm ids) (j : Fin 16) :
    ∃ s' ids', checkAndFreeSlot s j = some s' ∧ PoolChain s'.vmm ids' ∧
      (∀ i, s'.procTable i = if i = j ∧ (s.procTable i).Reapable then
        { s.procTable i with pid := 0 } else s.procTable i) ∧
      (stacksOf s.procTable [j]).foldlM vmmFree s.vmm = some s'.vmm := by
  by_cases hreap : (s.procTable j).Reapable
  · -- `vmm_free` comes back, whether the list has the stack or not
    obtain ⟨v, ids', hv, hlist'⟩ := hlist.exists_vmmFree (s.procTable j).memBase
    refine ⟨reapSlot s j v, ids', checkAndFreeSlot_of_reapable hreap hv, hlist', ?_, ?_⟩
    · intro i
      by_cases hij : i = j
      · subst hij
        rw [if_pos ⟨rfl, hreap⟩]
        exact Function.update_self i _ _
      · rw [if_neg fun h => hij h.1]
        exact Function.update_of_ne hij _ _
    · rw [stacksOf, List.filter_cons_of_pos (by simpa using hreap), List.map_cons,
        List.foldlM_cons, hv]
      rfl
  · refine ⟨s, ids, checkAndFreeSlot_of_not_reapable hreap, hlist, ?_, ?_⟩
    · intro i
      rw [if_neg]
      rintro ⟨rfl, hi⟩
      exact hreap hi
    · rw [stacksOf, List.filter_cons_of_neg (by simpa using hreap)]
      rfl

/-- **The loop of `process_check_and_free`** over some of the slots: those with a killed process are
freed and their stacks given back, each once. -/
theorem checkAndFreeSlots_spec [TableMemory M] (hnodup : slots.Nodup) {ids : List (Fin 128)}
    (hlist : PoolChain s.vmm ids) :
    ∃ s' ids', slots.foldlM checkAndFreeSlot s = some s' ∧ PoolChain s'.vmm ids' ∧
      (∀ i, s'.procTable i = if i ∈ slots ∧ (s.procTable i).Reapable then
        { s.procTable i with pid := 0 } else s.procTable i) ∧
      (stacksOf s.procTable slots).foldlM vmmFree s.vmm = some s'.vmm := by
  induction slots generalizing s ids with
  | nil => exact ⟨s, ids, rfl, hlist, fun i => (if_neg fun h => List.not_mem_nil h.1).symm, rfl⟩
  | cons j slots ih =>
    obtain ⟨hj, hnodup⟩ := List.nodup_cons.mp hnodup
    obtain ⟨s₁, ids₁, hs₁, hlist₁, htable₁, hstacks₁⟩ := checkAndFreeSlot_spec hlist j
    obtain ⟨s', ids', hs', hlist', htable', hstacks'⟩ := ih hnodup hlist₁
    -- the round leaves the slots to come as they are
    have hslots : ∀ i ∈ slots, s₁.procTable i = s.procTable i := by
      intro i hi
      rw [htable₁ i, if_neg]
      rintro ⟨rfl, -⟩
      exact hj hi
    refine ⟨s', ids', ?_, hlist', ?_, ?_⟩
    · rw [List.foldlM_cons, hs₁]
      exact hs'
    · intro i
      rw [htable' i]
      by_cases hi : i ∈ slots
      · rw [hslots i hi]
        exact if_congr (by simp [hi]) rfl rfl
      · rw [if_neg fun h => hi h.1, htable₁ i]
        exact if_congr (by simp [hi]) rfl rfl
    · rw [stacksOf_congr hslots] at hstacks'
      rw [stacksOf_cons, List.foldlM_append, hstacks₁]
      exact hstacks'

/-- **`process_check_and_free`** comes back, frees the slots of all killed processes and nothing
else. -/
theorem processCheckAndFree_spec [TableMemory M] {ids : List (Fin 128)}
    (hlist : PoolChain s.vmm ids) :
    ∃ s' ids', processCheckAndFree s = some s' ∧ PoolChain s'.vmm ids' ∧
      (∀ i, s'.procTable i = if (s.procTable i).Reapable then { s.procTable i with pid := 0 }
        else s.procTable i) ∧
      (stacksOf s.procTable (List.finRange 16)).foldlM vmmFree s.vmm = some s'.vmm := by
  obtain ⟨s', ids', hs', hlist', htable, hstacks⟩ :=
    checkAndFreeSlots_spec (List.nodup_finRange 16) hlist
  refine ⟨s', ids', hs', hlist', ?_, hstacks⟩
  intro i
  rw [htable i]
  exact if_congr (and_iff_right (List.mem_finRange i)) rfl rfl

/-! ## What must hold -/

/-- A process: killed or not, its slot is taken. -/
def Pcb.InUse (p : Pcb) : Prop := p.pid ≠ 0

/-- A process that has not been killed. -/
def Pcb.Live (p : Pcb) : Prop := p.pid ≠ 0 ∧ p.status ≠ .terminated

/-- The processes that killing `pid` is to remove: that one, and those that have been killed. -/
def ToRemove (table : ProcTable) (pid : U64) (i : Fin 16) : Prop :=
  (table i).pid ≠ 0 ∧ ((table i).pid = pid ∨ (table i).status = .terminated)

instance (table : ProcTable) (pid : U64) : DecidablePred (ToRemove table pid) :=
  fun _ => inferInstanceAs (Decidable (_ ∧ _))

/-- **Exactly the processes in some slots are removed**: those slots are free and all others as they
were, and the stack of each has been passed to `vmm_free` once. -/
structure Removes [TableMemory M] (s : Processes M) (gone : Fin 16 → Prop) [DecidablePred gone]
    (s' : Processes M) : Prop where
  slot_free : ∀ i, gone i → (s'.procTable i).pid = 0
  others : ∀ i, ¬ gone i → s'.procTable i = s.procTable i
  freed : (((List.finRange 16).filter gone).map fun i => (s.procTable i).memBase).foldlM vmmFree
    s.vmm = some s'.vmm

/-- **What killing `pid` must do**: if a live process has it, that one and the processes killed
before are removed by the next `process_check_and_free`; if none has, nothing is found and nothing
changes. Which processes are live is left open. -/
def KillOk [TableMemory M] (Alive : Pcb → Prop) (s : Processes M) (pid : U64) : Prop :=
  ((∃ i, (s.procTable i).pid = pid ∧ Alive (s.procTable i)) →
    ∃ s', processCheckAndFree (killProc s pid) = some s' ∧
      Removes s (ToRemove s.procTable pid) s') ∧
  ((∀ i, (s.procTable i).pid = pid → ¬ Alive (s.procTable i)) →
    getProcByPid s.procTable pid = none ∧ killProc s pid = s)

/-! ## What a call does -/

theorem getProcByPid_of_pid (h : PidsOk s.procTable) (hpid : pid ≠ 0)
    (hi : (s.procTable i).pid = pid) : getProcByPid s.procTable pid = some i := by
  cases hj : getProcByPid s.procTable pid with
  | none => exact absurd hi (getProcByPid_eq_none.mp hj i)
  | some j =>
    have hpj := getProcByPid_eq_some hj
    have hij : j = i := h.distinct j i (hpj ▸ hpid) (hpj.trans hi.symm)
    rw [hij]

/-- `kill_proc` marks the slot of a process. -/
theorem killProc_of_pid (h : PidsOk s.procTable) (hpid : pid ≠ 0)
    (hi : (s.procTable i).pid = pid) :
    killProc s pid = { s with
      procTable :=
        Function.update s.procTable i { s.procTable i with status := .terminated } } := by
  rw [killProc, getProcByPid_of_pid h hpid hi]

/-- Marked as killed are the process and those killed before. -/
theorem reapable_update_iff {table : ProcTable} (h : PidsOk table) (hi : (table i).pid = pid)
    (j : Fin 16) :
    (Function.update table i { table i with status := .terminated } j).Reapable ↔
      ToRemove table pid j := by
  by_cases hj : j = i
  · subst hj
    rw [Function.update_self]
    exact ⟨fun hr => ⟨hr.1, .inl hi⟩, fun hr => ⟨hr.1, rfl⟩⟩
  · rw [Function.update_of_ne hj]
    constructor
    · intro hr
      exact ⟨hr.1, .inr hr.2⟩
    · rintro ⟨hne, hjp | hstatus⟩
      · exact absurd (h.distinct j i hne (hjp.trans hi.symm)) hj
      · exact ⟨hne, hstatus⟩

/-- **A process is removed**, with those killed before. -/
theorem removes_of_pid [TableMemory M] (h : PidsOk s.procTable) {ids : List (Fin 128)}
    (hlist : PoolChain s.vmm ids) (hpid : pid ≠ 0) (hi : (s.procTable i).pid = pid) :
    ∃ s', processCheckAndFree (killProc s pid) = some s' ∧
      Removes s (ToRemove s.procTable pid) s' := by
  rw [killProc_of_pid h hpid hi]
  have hreap := reapable_update_iff h hi
  set table :=
    Function.update s.procTable i { s.procTable i with status := .terminated } with htable
  obtain ⟨s', -, hs', -, hslots, hstacks⟩ :=
    processCheckAndFree_spec (s := { s with procTable := table }) hlist
  -- the new status does not move a stack
  have hbase : ∀ j, (table j).memBase = (s.procTable j).memBase := by
    intro j
    by_cases hj : j = i
    · rw [hj, htable, Function.update_self]
    · rw [htable, Function.update_of_ne hj]
  refine ⟨s', hs', ?_, ?_, ?_⟩
  · intro j hj
    rw [hslots j]
    exact congrArg Pcb.pid (if_pos ((hreap j).mpr hj))
  · intro j hj
    have hji : j ≠ i := by
      rintro rfl
      exact hj ⟨hi ▸ hpid, .inl hi⟩
    rw [hslots j]
    exact (if_neg (mt (hreap j).mp hj)).trans (Function.update_of_ne hji _ _)
  · have hfilter : ((List.finRange 16).filter fun j => (table j).Reapable) =
        (List.finRange 16).filter (ToRemove s.procTable pid) :=
      List.filter_congr fun j _ => decide_eq_decide.mpr (hreap j)
    rw [← hstacks, stacksOf, hfilter]
    exact congrArg (fun bases => List.foldlM vmmFree s.vmm bases)
      (List.map_congr_left fun j _ => (hbase j).symm)

/-- **When killing does what it must**: every slot with the pid holds a live process. -/
theorem killOk_iff [TableMemory M] {Alive : Pcb → Prop} (halive : ∀ p, Alive p → p.pid ≠ 0)
    (h : PidsOk s.procTable) {ids : List (Fin 128)} (hlist : PoolChain s.vmm ids) (pid : U64) :
    KillOk Alive s pid ↔ ∀ i, (s.procTable i).pid = pid → Alive (s.procTable i) := by
  constructor
  · rintro ⟨-, hnone⟩ i hi
    by_contra hdead
    -- no other slot has the pid, if it is one at all
    have hall : ∀ j, (s.procTable j).pid = pid → ¬ Alive (s.procTable j) := by
      intro j hj hlive
      have hij : j = i := h.distinct j i (halive _ hlive) (hj.trans hi.symm)
      exact hdead (hij ▸ hlive)
    exact getProcByPid_eq_none.mp (hnone hall).1 i hi
  · intro hall
    refine ⟨?_, ?_⟩
    · rintro ⟨i, hi, hlive⟩
      exact removes_of_pid h hlist (hi ▸ halive _ hlive) hi
    · intro hnone
      have hfind : getProcByPid s.procTable pid = none :=
        getProcByPid_eq_none.mpr fun i hi => hnone i hi (hall i hi)
      exact ⟨hfind, by rw [killProc, hfind]⟩

/-! ## Every run -/

/-- `process_create` changes the areas by one `vmm_alloc`. -/
theorem vmm_processCreate [TableMemory M] {entry stackSize : U64}
    (h : processCreate s entry stackSize = some (pid, s')) :
    s'.vmm = s.vmm ∨ ∃ base, vmmAlloc s.vmm stackSize = .ok (base, s'.vmm) := by
  unfold processCreate at h
  split at h
  · cases h
    exact .inl rfl
  split at h
  · cases h
  split at h
  · cases h
  · next base v hv =>
    cases h
    exact .inr ⟨base, hv⟩

/-- The invariant of the runs: the pids are in order, and the list of areas is a chain of nodes. -/
def KillInv (s : Processes M) : Prop :=
  PidsOk s.procTable ∧ ∃ ids, PoolChain s.vmm ids

/-- One call keeps the invariant. -/
theorem KillInv.procStep [TableMemory M] {call : ProcCall} (h : KillInv s)
    (hs : procStep s call = some s') : KillInv s' := by
  refine ⟨h.1.procStep hs, ?_⟩
  obtain ⟨ids, hlist⟩ := h.2
  cases call with
  | create entry stackSize =>
    obtain ⟨⟨pid, u⟩, hcreate, rfl⟩ := Option.map_eq_some_iff.mp hs
    -- no slot was free, or a stack was allocated
    rcases vmm_processCreate hcreate with heq | ⟨base, hv⟩
    · exact ⟨ids, heq ▸ hlist⟩
    · exact hlist.of_vmmAlloc hv
  | kill pid =>
    cases hs
    -- the areas are given back later
    have hvmm : (killProc s pid).vmm = s.vmm := by
      unfold killProc
      split <;> rfl
    exact ⟨ids, hvmm ▸ hlist⟩
  | checkAndFree =>
    obtain ⟨u, ids', hu, hlist', -⟩ := processCheckAndFree_spec hlist
    obtain rfl := Option.some.inj (hs.symm.trans hu)
    exact ⟨ids', hlist'⟩
  | scheduler =>
    cases hs
    have hvmm : (scheduler s).vmm = s.vmm := by
      unfold scheduler
      dsimp only
      split <;> rfl
    exact ⟨ids, hvmm ▸ hlist⟩
  | tick =>
    cases hs
    exact ⟨ids, hlist⟩

/-- **Killing, over every run** of calls after `process_init`: it does what it must exactly when
every slot with the pid holds a live process. If processes that have been killed but not removed
count as live, that leaves out the pid 0, while a slot is free. -/
theorem kill_proc_iff {M : Type} [TableMemory M] (s t : Processes M) (calls : List ProcCall)
    (hlist : ∃ ids, PoolChain s.vmm ids) (hrun : run procStep (processInit s) calls = some t)
    (pid : U64) :
    (KillOk Pcb.Live t pid ↔ ∀ i, (t.procTable i).pid = pid → (t.procTable i).Live) ∧
    (KillOk Pcb.InUse t pid ↔ pid ≠ 0 ∨ ∀ i, (t.procTable i).pid ≠ 0) := by
  have hinit : KillInv (processInit s) :=
    ⟨⟨fun i j hi => absurd rfl hi, fun i hi => absurd rfl hi⟩, hlist⟩
  have hstep : ∀ (s : Processes M) (c : ProcCall) (s' : Processes M), KillInv s →
      True → procStep s c = some s' → KillInv s' := fun _ _ _ h _ hs => h.procStep hs
  obtain ⟨hpids, ids, hchain⟩ : KillInv t :=
    run_invariant hstep hinit (AllSteps.of_forall (fun _ _ => trivial) _ _) hrun
  refine ⟨killOk_iff (fun p hp => hp.1) hpids hchain pid, ?_⟩
  have huse : KillOk Pcb.InUse t pid ↔ _ := killOk_iff (fun p hp => hp) hpids hchain pid
  rw [huse]
  constructor
  · intro hall
    by_contra! hzero
    obtain ⟨rfl, i, hi⟩ := hzero
    exact hall i hi hi
  · rintro (hpid | hfull) i hi
    · exact fun h0 => hpid (hi.symm.trans h0)
    · exact hfull i

/-- A process is created and can be killed. -/
theorem kill_proc_iff_sample : ∃ t,
    run procStep (processInit sampleProcesses) [.create 0x1000 0] = some t ∧
      KillOk Pcb.InUse t 1 := by
  obtain ⟨t, ht⟩ : ∃ t, run procStep (processInit sampleProcesses) [.create 0x1000 0] = some t :=
    ⟨_, rfl⟩
  have hlist : PoolChain sampleProcesses.vmm [] :=
    ⟨rfl, fun id hid => absurd hid List.not_mem_nil, List.nodup_nil⟩
  obtain ⟨-, hkill⟩ := kill_proc_iff sampleProcesses t _ ⟨[], hlist⟩ ht 1
  exact ⟨t, ht, hkill.mpr (.inl (by decide))⟩

/-- **Killing pid 0.** Right after `process_init` no process has it, but a free slot has. -/
theorem kill_proc_finds_free_slot :
    getProcByPid (processInit sampleProcesses).procTable 0 = some 0 ∧
    ¬ KillOk Pcb.Live (processInit sampleProcesses) 0 ∧
    ¬ KillOk Pcb.InUse (processInit sampleProcesses) 0 := by
  have hfind : getProcByPid (processInit sampleProcesses).procTable 0 = some 0 := rfl
  refine ⟨hfind, ?_, ?_⟩
  · intro hkill
    have hnone := (hkill.2 fun i _ hlive => hlive.1 rfl).1
    cases hfind.symm.trans hnone
  · intro hkill
    have hnone := (hkill.2 fun i _ hlive => hlive rfl).1
    cases hfind.symm.trans hnone

end OS44
