import Mathlib.Data.Fintype.Card
import Mathlib.Order.Bounds.Defs
import OS44.Mem.VmmRun
import OS44.Process.Process

/-! # The pids of the process table

Slots and pids are handed out independently: the first free slot, and the lowest pid no slot has.
The search for the pid ends after at most 17 rounds, one more than there are slots, and finds the
lowest unused one (`lowestPid_spec`); so the pids of the taken slots stay distinct and within 1..16
in every run (`process_table_correct`). -/

namespace OS44

open Runs

variable {table : ProcTable} {p q : U64} {n k : ℕ}

/-! ## The search for a pid -/

/-- A slot has this pid. -/
def Used (table : ProcTable) (p : U64) : Prop := ∃ j, (table j).pid = p

theorem any_pid_iff : ((List.finRange 16).any fun j => (table j).pid = p) = true ↔
    Used table p := by
  simp [Used]

/-- A search that ends has passed only pids in use. -/
theorem searchPid_eq_some (h : searchPid table n p = some q) :
    ∃ k < n, q = p + BitVec.ofNat 64 k ∧ ¬ Used table q ∧ ∀ m < k,
      Used table (p + BitVec.ofNat 64 m) := by
  induction n generalizing p with
  | zero => cases h
  | succ n ih =>
    rw [searchPid] at h
    split at h
    · -- the search goes on from the next pid
      next hused =>
      obtain ⟨k, hk, rfl, hfree, hall⟩ := ih h
      have hadd : ∀ m, p + BitVec.ofNat 64 (m + 1) = p + 1 + BitVec.ofNat 64 m := fun m => by
        rw [Nat.add_comm m 1, BitVec.ofNat_add, BitVec.add_assoc]
        rfl
      refine ⟨k + 1, by omega, (hadd k).symm, hfree, ?_⟩
      intro m hm
      cases m with
      | zero => exact (BitVec.add_zero p).symm ▸ any_pid_iff.mp hused
      | succ m => exact hadd m ▸ hall m (by omega)
    · next hfree =>
      cases h
      exact ⟨0, by omega, (BitVec.add_zero _).symm, mt any_pid_iff.mpr hfree, fun m hm => by omega⟩

/-- A search that has not ended has seen only pids in use. -/
theorem searchPid_eq_none (h : searchPid table n p = none) :
    ∀ m < n, Used table (p + BitVec.ofNat 64 m) := by
  induction n generalizing p with
  | zero => exact fun m hm => absurd hm (Nat.not_lt_zero m)
  | succ n ih =>
    rw [searchPid] at h
    split at h
    · next hused =>
      intro m hm
      cases m with
      | zero => exact (BitVec.add_zero p).symm ▸ any_pid_iff.mp hused
      | succ m =>
        rw [Nat.add_comm m 1, BitVec.ofNat_add, ← BitVec.add_assoc]
        exact ih h m (by omega)
    · cases h

/-- The taken slots. -/
def taken (table : ProcTable) : Finset (Fin 16) := Finset.univ.filter fun i => (table i).pid ≠ 0

/-- The pids that the search tries do not wrap around. -/
theorem toNat_one_add_ofNat {m : ℕ} (hm : m + 1 < 2 ^ 64) :
    (1 + BitVec.ofNat 64 m : U64).toNat = m + 1 := by
  have hone : (1 : U64).toNat = 1 := rfl
  rw [BitVec.toNat_add, BitVec.toNat_ofNat, hone, Nat.mod_eq_of_lt (by omega : m < 2 ^ 64),
    Nat.mod_eq_of_lt (by omega), Nat.add_comm]

/-- **Pigeonhole**: if the pids from 1 to `k` are all in use, `k` slots are taken. -/
theorem le_card_taken (hk : k < 2 ^ 64) (h : ∀ m < k, Used table (1 + BitVec.ofNat 64 m)) :
    k ≤ (taken table).card := by
  choose slot hslot using fun m : Fin k => h m m.isLt
  have hpid : ∀ m : Fin k, (table (slot m)).pid.toNat = m + 1 := fun m => by
    have hm := m.isLt
    rw [hslot m, toNat_one_add_ofNat (by omega)]
  -- two pids are not in one slot
  have hinj : Function.Injective slot := fun m m' heq => by
    have := hpid m
    rw [heq, hpid m'] at this
    exact Fin.ext (by omega)
  calc k = (Finset.univ.image slot).card := by
        rw [Finset.card_image_of_injective _ hinj, Finset.card_univ, Fintype.card_fin]
    _ ≤ (taken table).card := by
        apply Finset.card_le_card
        intro i hi
        obtain ⟨m, -, rfl⟩ := Finset.mem_image.mp hi
        refine Finset.mem_filter.mpr ⟨Finset.mem_univ _, ?_⟩
        intro h0
        have hm := hpid m
        have hzero : (0 : U64).toNat = 0 := rfl
        rw [h0] at hm
        omega

theorem card_taken_le (table : ProcTable) : (taken table).card ≤ 16 :=
  (Finset.card_le_univ _).trans_eq (Fintype.card_fin 16)

/-- With a free slot at most 15 slots are taken. -/
theorem card_taken_lt {i : Fin 16} (hi : (table i).pid = 0) : (taken table).card < 16 := by
  have hss : taken table ⊂ Finset.univ :=
    Finset.ssubset_univ_iff.mpr fun heq => by
      have hmem : i ∈ taken table := heq ▸ Finset.mem_univ i
      exact (Finset.mem_filter.mp hmem).2 hi
  exact (Finset.card_lt_card hss).trans_eq (Fintype.card_fin 16)

/-- **The pid search ends**, on every table, and finds the lowest pid in no slot; it is at most one
above the number of taken slots. -/
theorem lowestPid_spec (table : ProcTable) :
    ∃ q, lowestPid table = some q ∧ IsLeast {p : ℕ | 0 < p ∧ ∀ j, (table j).pid.toNat ≠ p} q.toNat ∧
      q.toNat ≤ (taken table).card + 1 := by
  have hcard := card_taken_le table
  cases hq : lowestPid table with
  | none =>
    -- 17 pids would be in 16 slots
    have := le_card_taken (by omega) (searchPid_eq_none hq)
    omega
  | some q =>
    obtain ⟨k, hk, rfl, hfree, hall⟩ := searchPid_eq_some hq
    have hnat : ∀ m, m < 17 → (1 + BitVec.ofNat 64 m : U64).toNat = m + 1 := fun m hm =>
      toNat_one_add_ofNat (by omega)
    have hle := le_card_taken (by omega) hall
    refine ⟨_, rfl, ⟨⟨by rw [hnat k hk]; omega, fun j hj => ?_⟩, fun p hp => ?_⟩, by
      rw [hnat k hk]; omega⟩
    · exact hfree ⟨j, BitVec.eq_of_toNat_eq hj⟩
    · -- a smaller pid was tried before, and was in use
      obtain ⟨hpos, hp⟩ := hp
      rw [hnat k hk]
      by_contra hlt
      obtain ⟨j, hj⟩ := hall (p - 1) (by omega)
      refine hp j ?_
      rw [hj, hnat (p - 1) (by omega)]
      omega

/-! ## Runs -/

/-- **The invariant of the table**: the pids of taken slots are distinct and within 1..16. -/
structure PidsOk (table : ProcTable) : Prop where
  distinct : ∀ i j, (table i).pid ≠ 0 → (table i).pid = (table j).pid → i = j
  in_range : ∀ i, (table i).pid ≠ 0 → 1 ≤ (table i).pid.toNat ∧ (table i).pid.toNat ≤ 16

/-- Freeing slots keeps the invariant. -/
theorem PidsOk.of_pid {table' : ProcTable} (h : PidsOk table)
    (hpid : ∀ i, (table' i).pid = (table i).pid ∨ (table' i).pid = 0) : PidsOk table' where
  distinct i j hi hij := by
    have heqi := (hpid i).resolve_right hi
    have heqj := (hpid j).resolve_right (hij ▸ hi)
    exact h.distinct i j (heqi ▸ hi) (by rw [← heqi, hij, heqj])
  in_range i hi := by
    have heq := (hpid i).resolve_right hi
    rw [heq] at hi ⊢
    exact h.in_range i hi

/-- A new process with the lowest unused pid keeps the invariant. -/
theorem PidsOk.update (h : PidsOk table) {i : Fin 16} {pcb : Pcb} (hi : (table i).pid = 0)
    (hlow : lowestPid table = some pcb.pid) : PidsOk (Function.update table i pcb) := by
  obtain ⟨q, hq, ⟨⟨hpos, hfree⟩, -⟩, hle⟩ := lowestPid_spec table
  obtain rfl : q = pcb.pid := Option.some.inj (hq.symm.trans hlow)
  have hcard := card_taken_lt hi
  have hne : ∀ j, (table j).pid ≠ pcb.pid := fun j hj => hfree j (congrArg BitVec.toNat hj)
  constructor
  · intro a b ha hab
    by_cases hai : a = i <;> by_cases hbi : b = i
    · rw [hai, hbi]
    · -- the new process against another one
      subst hai
      rw [Function.update_self, Function.update_of_ne hbi] at hab
      exact absurd hab.symm (hne b)
    · subst hbi
      rw [Function.update_self, Function.update_of_ne hai] at hab
      exact absurd hab (hne a)
    · rw [Function.update_of_ne hai] at ha hab
      rw [Function.update_of_ne hbi] at hab
      exact h.distinct a b ha hab
  · intro a ha
    by_cases hai : a = i
    · subst hai
      rw [Function.update_self]
      exact ⟨hpos, by omega⟩
    · rw [Function.update_of_ne hai] at ha ⊢
      exact h.in_range a ha

variable {M : Type} [TableMemory M]

/-- **One call keeps the invariant.** -/
theorem PidsOk.procStep {s s' : Processes M} {call : ProcCall} (h : PidsOk s.procTable)
    (hs : procStep s call = some s') : PidsOk s'.procTable := by
  cases call with
  | create entry stackSize =>
    obtain ⟨⟨pid, t⟩, hcreate, rfl⟩ := Option.map_eq_some_iff.mp hs
    rcases processCreate_eq_some hcreate with ⟨-, rfl, -⟩ | ⟨i, pcb, hi, hlow, rfl, heq⟩
    · exact h
    · exact heq ▸ h.update hi hlow
  | kill pid =>
    cases hs
    exact h.of_pid fun i => .inl (killProc_pid s pid i)
  | checkAndFree => exact h.of_pid (processCheckAndFree_pid hs)
  | scheduler =>
    cases hs
    exact h.of_pid fun i => .inl (scheduler_pid s i)
  | tick =>
    cases hs
    exact h

/-- `process_create` with a free slot: it comes back whenever `vmm_alloc` does. -/
theorem processCreate_of_free {s : Processes M} {stackSize base pid : U64}
    {vmm : Vmm M} {i : Fin 16}
    (entry : U64) (hi : getProcByPid s.procTable 0 = some i)
      (hpid : lowestPid s.procTable = some pid)
    (hvmm : vmmAlloc s.vmm stackSize = .ok (base, vmm)) :
    ∃ s' pcb, processCreate s entry stackSize = some (pid, s') ∧ pcb.pid = pid ∧
      s'.procTable = Function.update s.procTable i pcb := by
  simp only [processCreate, hi, hpid, hvmm]
  exact ⟨_, _, rfl, rfl, rfl⟩

/-- **The process table, over every run** of calls after `process_init`: the pids of the taken slots
are distinct and within 1..16, the pid search ends, a process created with a free slot gets the
lowest unused pid and changes one slot, and a full table is left as it is. -/
theorem process_table_correct (s t : Processes M) (calls : List ProcCall)
    (hrun : run procStep (processInit s) calls = some t) :
    PidsOk t.procTable ∧ (∃ pid, lowestPid t.procTable = some pid) ∧
      ∀ entry stackSize,
        ((∃ i, (t.procTable i).pid = 0) → ∀ base vmm, vmmAlloc t.vmm stackSize = .ok (base, vmm) →
          ∃ pid t' i, processCreate t entry stackSize = some (pid, t') ∧
            IsLeast {p : ℕ | 0 < p ∧ ∀ j, (t.procTable j).pid.toNat ≠ p} pid.toNat ∧
            (t.procTable i).pid = 0 ∧ (t'.procTable i).pid = pid ∧
            ∀ j ≠ i, t'.procTable j = t.procTable j) ∧
        ((∀ i, (t.procTable i).pid ≠ 0) → processCreate t entry stackSize = some (0, t)) := by
  have hinit : PidsOk (processInit s).procTable :=
    ⟨fun i j hi => absurd rfl hi, fun i hi => absurd rfl hi⟩
  have hstep : ∀ (s : Processes M) (c : ProcCall) (s' : Processes M), PidsOk s.procTable → True →
      procStep s c = some s' → PidsOk s'.procTable := fun _ _ _ h _ hs => h.procStep hs
  have hok : PidsOk t.procTable := run_invariant hstep hinit
    (AllSteps.of_forall (fun _ _ => trivial) _ _) hrun
  obtain ⟨pid, hpid, hleast, -⟩ := lowestPid_spec t.procTable
  refine ⟨hok, ⟨pid, hpid⟩, fun entry stackSize => ⟨?_, ?_⟩⟩
  · -- a free slot: the search for PID 0 finds one, and the new process gets the least PID
    rintro ⟨j, hj⟩ base vmm hvmm
    cases hi : getProcByPid t.procTable 0 with
    | none => exact absurd hj (getProcByPid_eq_none.mp hi j)
    | some i =>
      obtain ⟨t', pcb, hcreate, hpcb, htable⟩ := processCreate_of_free entry hi hpid hvmm
      refine ⟨pid, t', i, hcreate, hleast, getProcByPid_eq_some hi, ?_, ?_⟩
      · rw [htable, Function.update_self, hpcb]
      · intro k hk
        rw [htable, Function.update_of_ne hk]
  · intro hfull
    simp only [processCreate, getProcByPid_eq_none.mpr hfull]

/-- A kernel before `process_init`, with empty page tables. -/
def sampleProcesses : Processes TableHeap where
  procTable := fun _ => Pcb.zero
  lastTime := 0
  timer := { timerTicks := 0, systemUptimeSeconds := 0 }
  vmm := vmmBoot {
    mem := fun _ => { entries := fun _ => 0, refCount := 0 }
    pml4 := 0x100000
    pmm := { bitmap := fun _ => 0, totalFrames := 0, calls := [] } }
  stores := []

/-- The 512 MiB machine after boot. -/
def stackMachine : Processes TableHeap where
  procTable := fun _ => Pcb.zero
  lastTime := 0
  timer := { timerTicks := 0, systemUptimeSeconds := 0 }
  vmm := vmmInit (vmmBoot Sample.paging)
  stores := []

/-- A stack of one page is allocated there. -/
theorem exists_sampleStack : ∃ v, vmmAlloc stackMachine.vmm 4096 = .ok (0x10000000, v) := by
  have hone : (numPages 4096).toNat = 1 := by decide
  rcases (vmmInv_nil (s := vmmInit (vmmBoot Sample.paging)) Sample.wellFormed_paging rfl).alloc 4096
    (by rw [hone]; decide) with ⟨-, hfew⟩ | ⟨t, -, ht, -⟩
  · have hlt : Sample.pmm.freeFrames.card < 4 * 1 := hone ▸ hfew (Sample.testBit_pmm (by omega))
    rw [Sample.freeFrames_pmm, Nat.card_Ico] at hlt
    omega
  · exact ⟨_, ht⟩

/-- Two processes are created, one with a stack, and that one is killed. -/
def killCalls : List ProcCall :=
  [.create 0x1000 4096, .create 0x2000 0, .kill 1, .tick, .scheduler]

/-- The run of these calls, whatever the first allocation leaves behind. -/
theorem exists_run_killCalls {s : Processes TableHeap} {v : Vmm TableHeap} {base : U64}
    (hvmm : vmmAlloc s.vmm 4096 = .ok (base, v)) (htimer : s.timer = ⟨0, 0⟩) :
    ∃ t, run procStep (processInit s) killCalls = some t ∧ (t.procTable 0).memBase = base := by
  obtain ⟨table, last, timer, vmm, stores⟩ := s
  obtain rfl : timer = ⟨0, 0⟩ := htimer
  have hcreate : procStep (processInit ⟨table, last, ⟨0, 0⟩, vmm, stores⟩)
      (.create 0x1000 4096) = some {
        procTable := Function.update (fun _ => Pcb.zero) 0
          ⟨1, .running, base + 4096 - 8, base, 4096, 0⟩
        lastTime := 0
        timer := ⟨0, 0⟩
        vmm := v
        stores := (base + 4096 - 8, 0x1000) :: stores } := by
    have hi : getProcByPid (fun _ => Pcb.zero) 0 = some 0 := rfl
    have hpid : lowestPid (fun _ => Pcb.zero) = some 1 := rfl
    simp only [procStep, processInit, processCreate, hi, hpid, hvmm, Option.map_some]
  exact ⟨_, run_cons_eq_some.mpr ⟨_, hcreate, rfl⟩, rfl⟩

theorem process_table_correct_sample :
    ∃ t, run procStep (processInit stackMachine) killCalls = some t ∧
      PidsOk t.procTable ∧ (t.procTable 0).memBase = 0x10000000 := by
  obtain ⟨v, hv⟩ := exists_sampleStack
  obtain ⟨t, ht, hbase⟩ := exists_run_killCalls hv rfl
  exact ⟨t, ht, (process_table_correct stackMachine t _ ht).1, hbase⟩

end OS44
