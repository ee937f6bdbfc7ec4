import OS44.Library.Runs
import OS44.Mem.Vmm

/-! # Processes (`process.c`, `timer.c`)

The process table has 16 slots; a slot is free when its pid is zero. `process_create` takes the
first free slot and the lowest pid no slot has, allocates the stack and pushes the entry point on
it; the other calls mark a process as terminated, free the terminated ones and account
the run time. -/

namespace OS44

/-- `proc_status_t`. -/
inductive ProcStatus
  | ready
  | running
  | terminated
  deriving DecidableEq, Repr

/-- `pcb_t`. -/
structure Pcb where
  pid : U64
  status : ProcStatus
  stackPtr : U64
  memBase : U64
  memSize : U64
  runTime : U64
  deriving DecidableEq, Repr

/-- A zeroed `pcb_t`. -/
def Pcb.zero : Pcb where
  pid := 0
  status := .ready
  stackPtr := 0
  memBase := 0
  memSize := 0
  runTime := 0

/-- `proc_table`. -/
abbrev ProcTable : Type := Fin 16 → Pcb

/-- The static variables of `timer.c`. -/
structure Timer where
  timerTicks : U64
  systemUptimeSeconds : U64
  deriving DecidableEq, Repr

/-- `timer_handler`. -/
def timerHandler (t : Timer) : Timer :=
  let ticks := t.timerTicks + 1
  { timerTicks := ticks
    systemUptimeSeconds :=
      if ticks % 100 = 0 then t.systemUptimeSeconds + 1 else t.systemUptimeSeconds }

/-- The static variables of `process.c`, the timer and the memory manager. -/
structure Processes (M : Type) where
  procTable : ProcTable
  lastTime : U64
  timer : Timer
  vmm : Vmm M
  /-- Ghost: the words pushed on the stacks, the address and the value, newest first. -/
  stores : List (U64 × U64)

section Code

variable {M : Type}

/-- `process_init`. -/
def processInit (s : Processes M) : Processes M :=
  { s with procTable := fun _ => Pcb.zero, lastTime := s.timer.systemUptimeSeconds }

/-- The first slot with the given pid, if any: the loop of `get_proc_by_pid`, and with pid 0 that of
`process_create`. -/
def getProcByPid (table : ProcTable) (pid : U64) : Option (Fin 16) :=
  (List.finRange 16).find? fun i => (table i).pid = pid

/-- The pid search of `process_create` from `pid` on: the next pid is tried when a slot has this
one. `none`: not ended after `n` rounds. -/
def searchPid (table : ProcTable) : ℕ → U64 → Option U64
  | 0, _ => none
  | n + 1, pid =>
    if (List.finRange 16).any fun j => (table j).pid = pid then searchPid table n (pid + 1)
    else some pid

/-- `lowest_pid`. With 16 slots a search that has not ended after 17 rounds has left the table. -/
def lowestPid (table : ProcTable) : Option U64 := searchPid table 17 1

/-- `scheduler`. -/
def scheduler (s : Processes M) : Processes M :=
  let now := s.timer.systemUptimeSeconds
  if now.toNat > s.lastTime.toNat then
    { s with
      procTable := fun i =>
        if (s.procTable i).pid ≠ 0 ∧ (s.procTable i).status = .running then
          { s.procTable i with runTime := (s.procTable i).runTime + (now - s.lastTime) }
        else s.procTable i
      lastTime := now }
  else s

/-- `kill_proc`. -/
def killProc (s : Processes M) (pid : U64) : Processes M :=
  match getProcByPid s.procTable pid with
  | none => s
  | some i =>
    { s with procTable :=
        Function.update s.procTable i { s.procTable i with status := .terminated } }

@[simp] theorem scheduler_pid (s : Processes M) (i : Fin 16) :
    ((scheduler s).procTable i).pid = (s.procTable i).pid := by
  simp only [scheduler]
  split
  · dsimp only
    split <;> rfl
  · rfl

@[simp] theorem killProc_pid (s : Processes M) (pid : U64) (i : Fin 16) :
    ((killProc s pid).procTable i).pid = (s.procTable i).pid := by
  unfold killProc
  split
  · rfl
  · next j _ =>
    by_cases hij : i = j
    · subst hij
      simp
    · simp [Function.update_of_ne hij]

@[simp] theorem killProc_runTime (s : Processes M) (pid : U64) (i : Fin 16) :
    ((killProc s pid).procTable i).runTime = (s.procTable i).runTime := by
  unfold killProc
  split
  · rfl
  · next j _ =>
    by_cases hij : i = j
    · subst hij
      simp
    · simp [Function.update_of_ne hij]

@[simp] theorem timer_scheduler (s : Processes M) : (scheduler s).timer = s.timer := by
  unfold scheduler
  dsimp only
  split <;> rfl

variable [TableMemory M]

/-- `process_create`: the pid (0 when it fails) and the new state. `none`: it does not come back. -/
def processCreate (s : Processes M) (entry stackSize : U64) : Option (U64 × Processes M) :=
  match getProcByPid s.procTable 0 with
  | none => some (0, s)
  | some i =>
    match lowestPid s.procTable with
    | none => none
    | some pid =>
      match vmmAlloc s.vmm stackSize with
      | .error _ => none
      | .ok (base, vmm) =>
        let stack := base + stackSize - 8
        some (pid, { s with
          vmm := vmm
          procTable := Function.update s.procTable i
            { pid := pid, status := .running, stackPtr := stack, memBase := base,
              memSize := stackSize, runTime := 0 }
          stores := (stack, entry) :: s.stores })

/-- One round of `process_check_and_free`. -/
def checkAndFreeSlot (s : Processes M) (i : Fin 16) : Option (Processes M) :=
  if (s.procTable i).pid ≠ 0 ∧ (s.procTable i).status = .terminated then
    (vmmFree s.vmm (s.procTable i).memBase).map fun vmm =>
      { s with
        vmm := vmm
        procTable := Function.update s.procTable i { s.procTable i with pid := 0 } }
  else some s

/-- `process_check_and_free`. -/
def processCheckAndFree (s : Processes M) : Option (Processes M) :=
  (List.finRange 16).foldlM checkAndFreeSlot s

/-- A call to the process layer, or a tick of the timer. -/
inductive ProcCall
  | create (entry stackSize : U64)
  | kill (pid : U64)
  | checkAndFree
  | scheduler
  | tick
  deriving DecidableEq, Repr

/-- A call, made in a state. -/
def procStep (s : Processes M) : ProcCall → Option (Processes M)
  | .create entry stackSize => (processCreate s entry stackSize).map Prod.snd
  | .kill pid => some (killProc s pid)
  | .checkAndFree => processCheckAndFree s
  | .scheduler => some (OS44.scheduler s)
  | .tick => some { s with timer := timerHandler s.timer }

/-! ## What each call does to the table -/

variable {s s' : Processes M} {table : ProcTable} {pid : U64}

theorem getProcByPid_eq_some {i : Fin 16} (h : getProcByPid table pid = some i) :
    (table i).pid = pid := by
  simpa using List.find?_some h

theorem getProcByPid_eq_none : getProcByPid table pid = none ↔ ∀ i, (table i).pid ≠ pid := by
  simp [getProcByPid]

/-- **What `process_create` does**: it fails on a full table, and otherwise fills one free slot with
a new process. -/
theorem processCreate_eq_some {entry stackSize : U64}
    (h : processCreate s entry stackSize = some (pid, s')) :
    (pid = 0 ∧ s' = s ∧ ∀ i, (s.procTable i).pid ≠ 0) ∨
      ∃ i p, (s.procTable i).pid = 0 ∧ lowestPid s.procTable = some pid ∧ p.pid = pid ∧
        s'.procTable = Function.update s.procTable i p := by
  unfold processCreate at h
  split at h
  · next hfull =>
    cases h
    exact .inl ⟨rfl, rfl, getProcByPid_eq_none.mp hfull⟩
  next i hi =>
  split at h
  · cases h
  next q hq =>
  split at h
  · cases h
  · cases h
    exact .inr ⟨i, _, getProcByPid_eq_some hi, hq, rfl, rfl⟩

/-- A state that differs in the areas and in slots that have been freed. -/
def FreesSlots (s s' : Processes M) : Prop :=
  s'.timer = s.timer ∧ s'.lastTime = s.lastTime ∧ ∀ i, s'.procTable i = s.procTable i ∨
    s'.procTable i = { s.procTable i with pid := 0 }

omit [TableMemory M] in
theorem FreesSlots.trans {t : Processes M} (h : FreesSlots s t) (h' : FreesSlots t s') :
    FreesSlots s s' := by
  refine ⟨h'.1.trans h.1, h'.2.1.trans h.2.1, ?_⟩
  intro i
  rcases h.2.2 i with hi | hi <;> rcases h'.2.2 i with hi' | hi'
  · exact .inl (hi'.trans hi)
  · exact .inr (hi'.trans (by rw [hi]))
  · exact .inr (hi'.trans hi)
  · exact .inr (hi'.trans (by rw [hi]))

/-- A round of `process_check_and_free` frees the slot or leaves the table. -/
theorem checkAndFreeSlot_eq_some {i : Fin 16} (h : checkAndFreeSlot s i = some s') :
    FreesSlots s s' := by
  unfold checkAndFreeSlot at h
  split_ifs at h
  · obtain ⟨vmm, -, rfl⟩ := Option.map_eq_some_iff.mp h
    refine ⟨rfl, rfl, ?_⟩
    intro j
    by_cases hji : j = i
    · subst hji
      exact .inr (Function.update_self j _ _)
    · exact .inl (Function.update_of_ne hji _ _)
  · cases h
    exact ⟨rfl, rfl, fun j => .inl rfl⟩

/-- **`process_check_and_free` frees slots**, and leaves the others as they are. -/
theorem processCheckAndFree_eq_some (h : processCheckAndFree s = some s') : FreesSlots s s' := by
  unfold processCheckAndFree at h
  -- over any list of slots
  generalize List.finRange 16 = slots at h
  induction slots generalizing s with
  | nil =>
    cases h
    exact ⟨rfl, rfl, fun i => .inl rfl⟩
  | cons j slots ih =>
    rw [List.foldlM_cons] at h
    obtain ⟨t, ht, hrest⟩ := Option.bind_eq_some_iff.mp h
    exact (checkAndFreeSlot_eq_some ht).trans (ih hrest)

/-- The slots of the table keep their pids, apart from those freed. -/
theorem processCheckAndFree_pid (h : processCheckAndFree s = some s') (i : Fin 16) :
    (s'.procTable i).pid = (s.procTable i).pid ∨ (s'.procTable i).pid = 0 := by
  rcases (processCheckAndFree_eq_some h).2.2 i with hi | hi <;> rw [hi]
  · exact .inl rfl
  · exact .inr rfl

end Code

end OS44
