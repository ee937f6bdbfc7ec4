import OS44.Process.Pids

/-! # The run time of a process

`scheduler` charges every running process with the time since `last_time`, whenever the process was
created. So a process created while there is time to charge has run longer than it has lived at the
next `scheduler`; and if none is, no process ever has (`run_time_bound`). -/

namespace OS44

open Runs

/-- The processes with the times that the charges are compared with. -/
structure Accounted (M : Type) where
  procs : Processes M
  /-- Ghost: the uptime in seconds, counted on where `system_uptime_seconds` wraps around. -/
  uptime : ℕ
  /-- Ghost: the uptime at the creation of the process in a slot. -/
  born : Fin 16 → ℕ

section Code

variable {M : Type}

/-- The uptime now. -/
def Processes.now (s : Processes M) : U64 := s.timer.systemUptimeSeconds

/-- The state after `process_init`. -/
def accountedInit (s : Processes M) : Accounted M where
  procs := processInit s
  uptime := s.now.toNat
  born := fun _ => 0

/-- **No process has run longer than it has lived.** -/
def RunTimeOk (c : Accounted M) : Prop :=
  ∀ i, (c.procs.procTable i).pid ≠ 0 →
    (c.procs.procTable i).runTime.toNat ≤ c.uptime - c.born i ∧ c.born i ≤ c.uptime

/-- **The condition**: a process is created only when there is no time left to charge, that is when
`scheduler` has been called since the uptime last changed. -/
def CreatedSettled (c : Accounted M) : ProcCall → Prop
  | .create _ _ => (∀ i, (c.procs.procTable i).pid ≠ 0) ∨
      c.procs.now.toNat ≤ c.procs.lastTime.toNat
  | _ => True

/-! ## The invariant -/

variable {s s' : Processes M} {c c' : Accounted M} {entry stackSize pid : U64} {call : ProcCall}

/-- **The invariant of the runs**: what a process has been charged and what `scheduler` would charge
it now do not exceed the time since its birth. -/
structure RunTimeInv (c : Accounted M) : Prop where
  uptime_mod : c.uptime % 2 ^ 64 = c.procs.now.toNat
  charged : ∀ i, (c.procs.procTable i).pid ≠ 0 → (c.procs.procTable i).runTime.toNat + c.born i +
    (c.procs.now.toNat - c.procs.lastTime.toNat) ≤ c.uptime

theorem RunTimeInv.runTimeOk (h : RunTimeInv c) : RunTimeOk c := by
  intro i hi
  have := h.charged i hi
  omega

/-- Calls that keep the times: a process is as old as it was and has run as long as it had, or it is
born when nothing is left to charge. -/
theorem RunTimeInv.of_slots (h : RunTimeInv c) (htimer : c'.procs.timer = c.procs.timer)
    (hlast : c'.procs.lastTime = c.procs.lastTime) (huptime : c'.uptime = c.uptime)
    (hslot : ∀ i, (c'.procs.procTable i).pid ≠ 0 →
      ((c.procs.procTable i).pid ≠ 0 ∧ c'.born i = c.born i ∧
        (c'.procs.procTable i).runTime = (c.procs.procTable i).runTime) ∨
      (c'.born i = c.uptime ∧ (c'.procs.procTable i).runTime = 0 ∧
        c.procs.now.toNat ≤ c.procs.lastTime.toNat)) : RunTimeInv c' := by
  have hnow : c'.procs.now = c.procs.now := congrArg Timer.systemUptimeSeconds htimer
  refine ⟨?_, ?_⟩
  · rw [hnow, huptime]
    exact h.uptime_mod
  · intro i hi
    rw [hnow, hlast, huptime]
    rcases hslot i hi with ⟨hpid, hborn, hrun⟩ | ⟨hborn, hrun, hsettled⟩ <;> rw [hborn, hrun]
    · exact h.charged i hpid
    · have hzero : (0 : U64).toNat = 0 := rfl
      omega

/-- **The clock goes on**: there may be one second more to charge, and every process is one second
older. -/
theorem RunTimeInv.tick (h : RunTimeInv c) (htimer : c'.procs.timer = timerHandler c.procs.timer)
    (hlast : c'.procs.lastTime = c.procs.lastTime) (htable : c'.procs.procTable = c.procs.procTable)
    (huptime : c'.uptime = if c'.procs.now = c.procs.now then c.uptime else c.uptime + 1)
    (hborn : c'.born = c.born) : RunTimeInv c' := by
  have hmod := h.uptime_mod
  have hlt := c.procs.now.isLt
  have hnow : c'.procs.now = c.procs.now ∨ c'.procs.now = c.procs.now + 1 := by
    have hfield : c'.procs.now = (timerHandler c.procs.timer).systemUptimeSeconds :=
      congrArg Timer.systemUptimeSeconds htimer
    rw [hfield, timerHandler]
    dsimp only
    split_ifs
    exacts [.inr rfl, .inl rfl]
  rcases hnow with hnow | hnow
  · rw [if_pos hnow] at huptime
    refine ⟨?_, ?_⟩
    · rw [hnow, huptime, hmod]
    · intro i hi
      rw [hnow, hlast, huptime, htable, hborn] at *
      exact h.charged i hi
  · -- one second more, on the clock and of every age
    have hone : (1 : U64).toNat = 1 := rfl
    have hnat : c'.procs.now.toNat = (c.procs.now.toNat + 1) % 2 ^ 64 := by
      rw [hnow, BitVec.toNat_add, hone]
    have hne : c'.procs.now ≠ c.procs.now := by
      intro heq
      rw [heq] at hnat
      omega
    rw [if_neg hne] at huptime
    refine ⟨by omega, ?_⟩
    intro i hi
    rw [htable] at hi ⊢
    have hcharged := h.charged i hi
    rw [hlast, huptime, hborn]
    omega

/-- With time to charge, `scheduler` charges it to each running process. -/
theorem scheduler_of_lt (h : s.lastTime.toNat < s.now.toNat) :
    (scheduler s).lastTime = s.now ∧ ∀ i, (scheduler s).procTable i =
      if (s.procTable i).pid ≠ 0 ∧ (s.procTable i).status = .running then
        { s.procTable i with runTime := (s.procTable i).runTime + (s.now - s.lastTime) }
      else s.procTable i := by
  have heq : scheduler s = { s with
      procTable := fun i =>
        if (s.procTable i).pid ≠ 0 ∧ (s.procTable i).status = .running then
          { s.procTable i with runTime := (s.procTable i).runTime + (s.now - s.lastTime) }
        else s.procTable i
      lastTime := s.now } := if_pos h
  rw [heq]
  exact ⟨rfl, fun i => rfl⟩

theorem scheduler_of_not_lt (h : ¬ s.lastTime.toNat < s.now.toNat) : scheduler s = s := if_neg h

/-- No charge is more than the time there was to charge, even if the run time overflows. -/
theorem runTime_scheduler_le (h : s.lastTime.toNat < s.now.toNat) (i : Fin 16) :
    ((scheduler s).procTable i).runTime.toNat ≤
      (s.procTable i).runTime.toNat + (s.now.toNat - s.lastTime.toNat) := by
  have hsub : (s.now - s.lastTime).toNat = s.now.toNat - s.lastTime.toNat :=
    BitVec.toNat_sub_of_le (BitVec.le_def.mpr (Nat.le_of_lt h))
  rw [(scheduler_of_lt h).2 i]
  split_ifs
  · show ((s.procTable i).runTime + (s.now - s.lastTime)).toNat ≤ _
    rw [BitVec.toNat_add, hsub]
    exact Nat.mod_le _ _
  · exact Nat.le_add_right _ _

/-- **The charge**: each running process gets the time there was to charge, and after that there is
none. -/
theorem RunTimeInv.scheduler (h : RunTimeInv c) (hprocs : c'.procs = OS44.scheduler c.procs)
    (huptime : c'.uptime = c.uptime) (hborn : c'.born = c.born) : RunTimeInv c' := by
  have hnow : c'.procs.now = c.procs.now := by
    rw [hprocs]
    exact congrArg Timer.systemUptimeSeconds (timer_scheduler c.procs)
  refine ⟨by rw [hnow, huptime, h.uptime_mod], ?_⟩
  intro i hi
  rw [hprocs, scheduler_pid] at hi
  have hcharged := h.charged i hi
  rw [hnow, huptime, hborn, hprocs]
  by_cases hlt : c.procs.lastTime.toNat < c.procs.now.toNat
  · have hle := runTime_scheduler_le hlt i
    rw [(scheduler_of_lt hlt).1]
    omega
  · rw [scheduler_of_not_lt hlt]
    exact hcharged

variable [TableMemory M]

/-- A call, with the uptime and the births noted: the uptime goes up where
`system_uptime_seconds` changes, and a process is born where a free slot is taken. -/
def accountedStep (c : Accounted M) (call : ProcCall) : Option (Accounted M) :=
  (procStep c.procs call).map fun s =>
    { procs := s
      uptime := if s.now = c.procs.now then c.uptime else c.uptime + 1
      born := fun i =>
        if (c.procs.procTable i).pid = 0 ∧ (s.procTable i).pid ≠ 0 then c.uptime else c.born i }

/-- `process_create` leaves the times alone; a process it creates has not run. -/
theorem processCreate_runTime (h : processCreate s entry stackSize = some (pid, s')) :
    s'.timer = s.timer ∧ s'.lastTime = s.lastTime ∧ ((s' = s ∧ ∀ i, (s.procTable i).pid ≠ 0) ∨
      ∃ i p, (s.procTable i).pid = 0 ∧ p.pid ≠ 0 ∧ p.status = .running ∧ p.runTime = 0 ∧
        s'.procTable = Function.update s.procTable i p) := by
  unfold processCreate at h
  split at h
  · next hfull =>
    cases h
    exact ⟨rfl, rfl, .inl ⟨rfl, getProcByPid_eq_none.mp hfull⟩⟩
  next i hi =>
  obtain ⟨q, hq, ⟨⟨hpos, -⟩, -⟩, -⟩ := lowestPid_spec s.procTable
  simp only [hq] at h
  split at h
  · cases h
  · cases h
    refine ⟨rfl, rfl, .inr ⟨i, _, getProcByPid_eq_some hi, ?_, rfl, rfl, rfl⟩⟩
    rintro rfl
    exact absurd hpos (lt_irrefl 0)

/-- What a call leaves, with the uptime and the births. -/
theorem accountedStep_eq_some (hs : accountedStep c call = some c') :
    procStep c.procs call = some c'.procs ∧
      (c'.uptime = if c'.procs.now = c.procs.now then c.uptime else c.uptime + 1) ∧
      ∀ i, c'.born i = if (c.procs.procTable i).pid = 0 ∧ (c'.procs.procTable i).pid ≠ 0 then
        c.uptime else c.born i := by
  obtain ⟨s, hproc, rfl⟩ := Option.map_eq_some_iff.mp hs
  exact ⟨hproc, rfl, fun i => rfl⟩

omit [TableMemory M] in
/-- No process is born in slots that keep their pids or are freed. -/
theorem born_of_pid (hborn : ∀ i, c'.born i =
      if (c.procs.procTable i).pid = 0 ∧ (c'.procs.procTable i).pid ≠ 0 then c.uptime
      else c.born i) {i : Fin 16}
    (hpid : (c'.procs.procTable i).pid = (c.procs.procTable i).pid) : c'.born i = c.born i := by
  rw [hborn, if_neg]
  rintro ⟨h0, hne⟩
  exact hne (hpid.trans h0)

/-- A call during which no time passes. -/
theorem uptime_of_timer (hs : accountedStep c call = some c')
    (htimer : c'.procs.timer = c.procs.timer) : c'.uptime = c.uptime := by
  have hnow : c'.procs.now = c.procs.now := congrArg Timer.systemUptimeSeconds htimer
  rw [(accountedStep_eq_some hs).2.1, if_pos hnow]

/-- A call that creates no process and leaves the times alone. -/
theorem RunTimeInv.of_kept (h : RunTimeInv c) (hs : accountedStep c call = some c')
    (htimer : c'.procs.timer = c.procs.timer) (hlast : c'.procs.lastTime = c.procs.lastTime)
    (hslot : ∀ i, (c'.procs.procTable i).pid ≠ 0 →
      (c'.procs.procTable i).pid = (c.procs.procTable i).pid ∧
        (c'.procs.procTable i).runTime = (c.procs.procTable i).runTime) : RunTimeInv c' := by
  obtain ⟨-, -, hborn⟩ := accountedStep_eq_some hs
  apply h.of_slots htimer hlast (uptime_of_timer hs htimer)
  intro i hi
  obtain ⟨hpid, hrun⟩ := hslot i hi
  exact .inl ⟨hpid ▸ hi, born_of_pid hborn hpid, hrun⟩

/-- **A process is created** when nothing is left to charge. -/
theorem RunTimeInv.create (h : RunTimeInv c) (hsettled : CreatedSettled c (.create entry stackSize))
    (hs : accountedStep c (.create entry stackSize) = some c') : RunTimeInv c' := by
  obtain ⟨hproc, -, hborn⟩ := accountedStep_eq_some hs
  obtain ⟨⟨pid, u⟩, hcreate, hu⟩ := Option.map_eq_some_iff.mp hproc
  obtain rfl : u = c'.procs := hu
  obtain ⟨htimer, hlast, ⟨heq, -⟩ | ⟨i, p, hi, -, -, hrun, htable⟩⟩ :=
    processCreate_runTime hcreate
  · apply h.of_kept hs htimer hlast
    intro j _
    rw [heq]
    exact ⟨rfl, rfl⟩
  · apply h.of_slots htimer hlast (uptime_of_timer hs htimer)
    intro j hj
    by_cases hji : j = i
    · -- the slot of the new process
      subst hji
      refine .inr ⟨?_, ?_, hsettled.resolve_left fun hfull => hfull j hi⟩
      · rw [hborn, if_pos ⟨hi, hj⟩]
      · rw [htable, Function.update_self]
        exact hrun
    · have hslot : c'.procs.procTable j = c.procs.procTable j := by
        rw [htable, Function.update_of_ne hji]
      exact .inl ⟨hslot ▸ hj, born_of_pid hborn (congrArg Pcb.pid hslot),
        congrArg Pcb.runTime hslot⟩

/-- **One call keeps the invariant**, if a process is created only when nothing is left to
charge. -/
theorem RunTimeInv.step (h : RunTimeInv c) (hsettled : CreatedSettled c call)
    (hs : accountedStep c call = some c') : RunTimeInv c' := by
  obtain ⟨hproc, huptime, hborn⟩ := accountedStep_eq_some hs
  cases call with
  | create entry stackSize => exact h.create hsettled hs
  | kill pid =>
    have hprocs : c'.procs = killProc c.procs pid := (Option.some.inj hproc).symm
    -- only a status changes
    have htimes : c'.procs.timer = c.procs.timer ∧ c'.procs.lastTime = c.procs.lastTime := by
      rw [hprocs, killProc]
      split <;> exact ⟨rfl, rfl⟩
    apply h.of_kept hs htimes.1 htimes.2
    intro i _
    rw [hprocs]
    exact ⟨killProc_pid _ _ _, killProc_runTime _ _ _⟩
  | checkAndFree =>
    obtain ⟨htimer, hlast, hslots⟩ := processCheckAndFree_eq_some hproc
    apply h.of_kept hs htimer hlast
    intro i hi
    -- a slot is kept, or it is free and nothing is asked of it
    rcases hslots i with hslot | hslot
    · exact ⟨congrArg Pcb.pid hslot, congrArg Pcb.runTime hslot⟩
    · exact absurd (congrArg Pcb.pid hslot) hi
  | scheduler =>
    have hprocs : c'.procs = OS44.scheduler c.procs := (Option.some.inj hproc).symm
    have htimer : c'.procs.timer = c.procs.timer := by
      rw [hprocs, timer_scheduler]
    apply h.scheduler hprocs (uptime_of_timer hs htimer)
    funext i
    apply born_of_pid hborn
    rw [hprocs, scheduler_pid]
  | tick =>
    have hprocs := (Option.some.inj hproc).symm
    have htable : c'.procs.procTable = c.procs.procTable := by rw [hprocs]
    apply h.tick (by rw [hprocs]) (by rw [hprocs]) htable huptime
    funext i
    apply born_of_pid hborn
    rw [htable]

/-- **A charge for the time before birth.** A process created while there is time to charge has run
longer than it has lived as soon as `scheduler` is called. -/
theorem not_runTimeOk_of_unsettled (hunsettled : ¬ CreatedSettled c (.create entry stackSize))
    (hrun : run accountedStep c [.create entry stackSize, .scheduler] = some c') :
    ¬ RunTimeOk c' := by
  obtain ⟨c₁, hs₁, hrun⟩ := run_cons_eq_some.mp hrun
  obtain ⟨c₂, hs₂, hc₂⟩ := run_cons_eq_some.mp hrun
  obtain rfl := Option.some.inj hc₂
  simp only [CreatedSettled, not_or, not_le] at hunsettled
  obtain ⟨hfree, hlt⟩ := hunsettled
  obtain ⟨hproc₁, huptime₁, hborn₁⟩ := accountedStep_eq_some hs₁
  obtain ⟨hproc₂, huptime₂, hborn₂⟩ := accountedStep_eq_some hs₂
  obtain ⟨⟨pid, u⟩, hcreate, hu⟩ := Option.map_eq_some_iff.mp hproc₁
  obtain rfl : u = c₁.procs := hu
  obtain ⟨htimer, hlast, ⟨-, hfull⟩ | ⟨i, p, hi, hp, hstatus, hzero, htable⟩⟩ :=
    processCreate_runTime hcreate
  · exact absurd hfull hfree
  have hnow₁ : c₁.procs.now = c.procs.now := congrArg Timer.systemUptimeSeconds htimer
  have hslot₁ : c₁.procs.procTable i = p := by rw [htable, Function.update_self]
  -- the new process is charged what there was to charge before its birth
  have hprocs₂ : c₂.procs = scheduler c₁.procs := (Option.some.inj hproc₂).symm
  have hslot₂ : c₂.procs.procTable i =
      { p with runTime := p.runTime + (c.procs.now - c.procs.lastTime) } := by
    have hcharge : c₁.procs.lastTime.toNat < c₁.procs.now.toNat := by
      rw [hlast, hnow₁]
      exact hlt
    rw [hprocs₂, (scheduler_of_lt hcharge).2 i, hslot₁, if_pos ⟨hp, hstatus⟩, hlast, hnow₁]
  have hnow₂ : c₂.procs.now = c₁.procs.now := by
    rw [hprocs₂]
    exact congrArg Timer.systemUptimeSeconds (timer_scheduler c₁.procs)
  have hborn : c₂.born i = c.uptime := by
    rw [born_of_pid hborn₂ (by rw [hslot₂, hslot₁]), hborn₁, hslot₁, if_pos ⟨hi, hp⟩]
  intro hok
  have hbound := (hok i (by rw [hslot₂]; exact hp)).1
  rw [huptime₂, if_pos hnow₂, huptime₁, if_pos hnow₁, hborn, Nat.sub_self, hslot₂, hzero] at hbound
  have hsub : (0 + (c.procs.now - c.procs.lastTime)).toNat =
      c.procs.now.toNat - c.procs.lastTime.toNat := by
    rw [← BitVec.toNat_sub_of_le (BitVec.le_def.mpr (Nat.le_of_lt hlt))]
    exact congrArg BitVec.toNat (BitVec.zero_add _)
  dsimp only at hbound
  omega

/-- **The run time of processes, over every run** of calls and ticks after `process_init`: if no
process is created while there is time to charge, none has ever run longer than it has lived. Where
one is, it has as soon as `scheduler` is called. -/
theorem run_time_bound (s : Processes M) (calls : List ProcCall) (t : Accounted M)
    (hrun : run accountedStep (accountedInit s) calls = some t)
    (hsettled : AllSteps accountedStep CreatedSettled (accountedInit s) calls) :
    RunTimeOk t ∧ t.uptime % 2 ^ 64 = t.procs.timer.systemUptimeSeconds.toNat ∧
      ∀ entry stackSize u, ¬ CreatedSettled t (.create entry stackSize) →
        run accountedStep t [.create entry stackSize, .scheduler] = some u → ¬ RunTimeOk u := by
  have hinit : RunTimeInv (accountedInit s) :=
    ⟨Nat.mod_eq_of_lt s.now.isLt, fun i hi => absurd rfl hi⟩
  have hinv : RunTimeInv t := run_invariant (fun c a c' h hP hs => h.step hP hs) hinit hsettled hrun
  refine ⟨hinv.runTimeOk, hinv.uptime_mod, ?_⟩
  intro entry stackSize u hunsettled hu
  exact not_runTimeOk_of_unsettled hunsettled hu

end Code

/-- A process is created at the start and charged one second after one second. -/
theorem run_time_bound_sample : ∃ t,
    run accountedStep (accountedInit { sampleProcesses with timer := ⟨99, 0⟩ })
      [.create 0x1000 0, .tick, .scheduler] = some t ∧
      (t.procs.procTable 0).runTime = 1 ∧ RunTimeOk t := by
  have hsettled : AllSteps accountedStep CreatedSettled
      (accountedInit { sampleProcesses with timer := ⟨99, 0⟩ })
      [.create 0x1000 0, .tick, .scheduler] := by
    refine ⟨.inr (Nat.le_refl 0), fun _ _ => ⟨trivial, fun _ _ => ⟨trivial, fun _ _ => trivial⟩⟩⟩
  obtain ⟨t, ht, hone⟩ : ∃ t,
      run accountedStep (accountedInit { sampleProcesses with timer := ⟨99, 0⟩ })
        [.create 0x1000 0, .tick, .scheduler] = some t ∧ (t.procs.procTable 0).runTime = 1 :=
    ⟨_, rfl, rfl⟩
  exact ⟨t, ht, hone, (run_time_bound _ _ t ht hsettled).1⟩

/-- **A second that was not lived.** The uptime goes from 0 to 1, a process is created, and
`scheduler` charges it that second. -/
theorem run_time_before_birth : ∃ t,
    run accountedStep (accountedInit { sampleProcesses with timer := ⟨99, 0⟩ })
      [.tick, .create 0x1000 0, .scheduler] = some t ∧
      (t.procs.procTable 0).runTime = 1 ∧ t.uptime = 1 ∧ t.born 0 = 1 ∧ ¬ RunTimeOk t := by
  obtain ⟨t, ht, hpid, hone, huptime, hborn⟩ : ∃ t,
      run accountedStep (accountedInit { sampleProcesses with timer := ⟨99, 0⟩ })
        [.tick, .create 0x1000 0, .scheduler] = some t ∧ (t.procs.procTable 0).pid = 1 ∧
      (t.procs.procTable 0).runTime = 1 ∧ t.uptime = 1 ∧ t.born 0 = 1 :=
    ⟨_, rfl, rfl, rfl, rfl, rfl⟩
  refine ⟨t, ht, hone, huptime, hborn, ?_⟩
  intro hok
  have hbound := (hok 0 (by rw [hpid]; decide)).1
  rw [hone, huptime, hborn] at hbound
  exact absurd hbound (by decide)

end OS44
