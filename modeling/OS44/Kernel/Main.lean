import OS44.Library.Runs
import OS44.Panels.PanelText
import OS44.Process.Pids

/-! # The loop of the kernel (`kernel_main`)

The loop reads the ticks, charges the processes and renders the panel when two ticks have gone by
since it did so last. The timer may interrupt it between any two of its statements. However it does,
while COM1 takes what is logged every rendering comes through, the frames bear their numbers, there
is at most one for every two ticks, and none is overdue when an iteration ends
(`kernel_loop_renders`). -/

namespace OS44

open Runs Numerals

/-! ## The code -/

/-- The statement of the loop that is next, with `current_ticks` once it was read. -/
inductive LoopPoint
  | readTicks
  | schedule (currentTicks : U64)
  | render (currentTicks : U64)
  | count (currentTicks : U64)

/-- `current_ticks`, in the iteration that is going on. -/
def LoopPoint.currentTicks : LoopPoint → Option U64
  | .readTicks => none
  | .schedule t | .render t | .count t => some t

/-- What the loop works on. -/
structure KernelLoop (M : Type) where
  point : LoopPoint
  procs : Processes M
  /-- What the panel reads, apart from the timer and the memory manager; COM1 from the start of the
  loop on. -/
  source : PanelSource
  lastTick : U64
  loopCount : U64
  /-- The panels that were rendered, one after another. -/
  frames : List Panel
  /-- The bytes that the loop sent to the serial port. -/
  logged : List U8
  /-- Ghost: the interrupts of the timer, counted without bound. -/
  interrupts : ℕ

section Code

variable {M : Type}

/-- What `debug_panel_render` reads. -/
def KernelLoop.panelSource (s : KernelLoop M) : PanelSource :=
  { s.source with
    timer := s.procs.timer
    pmm := s.procs.vmm.paging.pmm
    com1 := fun n => s.source.com1 (s.logged.length + n) }

/-- The line that tells that the loop is alive, with the ticks in `tbuf`, behind the bytes sent so
far. -/
def logAlive (com1 : Com1) (sent : List U8) (t : U64) : Option (List U8) := do
  let sent ← dbg com1 sent (chars "[LOOP] alive, ticks=")
  let sent ← dbg com1 sent (if t = 0 then [48] else (decDigits 20 t).reverse)
  dbg com1 sent (chars "\n")

/-- An interrupt of the timer, or the next statement, with what is in the arrays of the panel. -/
inductive LoopEvent
  | interrupt
  | statement (g : PanelGarbage)

/-- One event; `none` is a statement that does not come through. -/
def loopStep (s : KernelLoop M) : LoopEvent → Option (KernelLoop M)
  | .interrupt => some { s with
      procs := { s.procs with timer := timerHandler s.procs.timer }
      interrupts := s.interrupts + 1 }
  | .statement g =>
    match s.point with
    | .readTicks => some { s with point := .schedule s.procs.timer.timerTicks }
    | .schedule t => some { s with point := .render t, procs := scheduler s.procs }
    | .render t =>
      if 2 ≤ t - s.lastTick then
        (debugPanelRender s.panelSource g).map fun r =>
          { s with
            point := .count t
            source := { s.source with frameCounter := r.2 }
            lastTick := t
            frames := s.frames ++ [r.1]
            logged := s.logged ++ r.1.logged }
      else some { s with point := .count t }
    | .count t =>
      let n := s.loopCount + 1
      (if n % 5000000 = 0 then logAlive s.source.com1 s.logged t else some s.logged).map
        fun logged => { s with point := .readTicks, loopCount := n, logged := logged }

/-- Before the first iteration. -/
def loopStart (procs : Processes M) (source : PanelSource) : KernelLoop M where
  point := .readTicks
  procs := procs
  source := { source with frameCounter := 0 }
  lastTick := 0
  loopCount := 0
  frames := []
  logged := []
  interrupts := 0

end Code

/-! ## The frames -/

/-- A panel that came through and ends with the number of its frame. -/
def Panel.IsFrame (p : Panel) (n : ℕ) : Prop :=
  p.overran = false ∧ p.buf.overran = false ∧ ∃ y, p.drawn.getLast? =
    some (.drawString (chars "Frame: " ++ decimal (BitVec.ofNat 64 n).toNat) 16 y fbColorWhite
      fbColorBlack)

/-- The frames bear the numbers from 1 on. -/
def Numbered (frames : List Panel) : Prop :=
  ∀ (k : ℕ) (p : Panel), frames[k]? = some p → p.IsFrame (k + 1)

theorem Numbered.concat {frames : List Panel} {p : Panel} (h : Numbered frames)
    (hp : p.IsFrame (frames.length + 1)) : Numbered (frames ++ [p]) := by
  intro k q hq
  rcases Nat.lt_or_ge k frames.length with hlt | hge
  · exact h k q (List.getElem?_append_left hlt ▸ hq)
  · rw [List.getElem?_append_right hge] at hq
    obtain ⟨hk, rfl⟩ := List.getElem?_eq_some_iff.mp hq
    rw [List.length_singleton] at hk
    obtain rfl : k = frames.length := by omega
    simpa using hp

variable {M : Type} {info : BootInfo} {c : ConfigSpace} {s : KernelLoop M} {t₀ : ℕ}

/-- The last text of the panel. -/
theorem getLast?_panelTexts (src : PanelSource) (info : BootInfo) : ∃ y,
    (panelTexts src info).getLast? =
      some ⟨chars "Frame: " ++ decimal (src.frameCounter + 1).toNat, 16, y, fbColorWhite⟩ := by
  have hrows : panelRows src info = upperRows src info ++
      pciRows src (bottom 56 (upperRows src info)) ++ testRows src ++
      [sectionRow "--- FRAME COUNTER ---"] ++
      [textRow fbColorWhite (chars "Frame: " ++ decimal (src.frameCounter + 1).toNat) 0] := by
    simp [panelRows, frameRows]
  rw [panelTexts, hrows, placeRows_append]
  exact ⟨_, List.getLast?_concat⟩

/-- **A rendering** is the frame that the counter tells. -/
theorem exists_frame (hbooted : s.source.Booted info c) (hcom1 : ∀ k, s.source.com1 k ≠ none)
    {n : ℕ} (hcounter : s.source.frameCounter = BitVec.ofNat 64 n) (g : PanelGarbage) : ∃ p,
    debugPanelRender s.panelSource g = some (p, BitVec.ofNat 64 (n + 1)) ∧ p.IsFrame (n + 1) := by
  have hnext : s.panelSource.frameCounter + 1 = BitVec.ofNat 64 (n + 1) := by
    rw [BitVec.ofNat_add, ← hcounter]
    rfl
  have hsource : s.panelSource.Booted info c := ⟨hbooted.sysinfo_eq, hbooted.pci_eq⟩
  obtain ⟨-, hsome, -⟩ := renders_panelSteps g hsource
  obtain ⟨p, hp, hok, hdrawn, -⟩ := hsome fun k _ => hcom1 _
  obtain ⟨y, hlast⟩ := getLast?_panelTexts s.panelSource info
  rw [hnext] at hp hlast
  refine ⟨p, hp, hok.overran, hok.buf_overran, y, ?_⟩
  have hcons (c₁ c₂ : DrawCall) (cs : List DrawCall) : c₁ :: c₂ :: cs = [c₁, c₂] ++ cs := rfl
  rw [hdrawn, hcons, List.getLast?_append, List.getLast?_map, hlast]
  rfl

/-! ## Steps -/

section Steps

variable {g : PanelGarbage} {t : U64}

theorem loopStep_readTicks (h : s.point = .readTicks) : loopStep s (.statement g) =
    some { s with point := .schedule s.procs.timer.timerTicks } := by
  simp only [loopStep, h]

theorem loopStep_schedule (h : s.point = .schedule t) : loopStep s (.statement g) =
    some { s with point := .render t, procs := scheduler s.procs } := by
  simp only [loopStep, h]

/-- It is time for a frame. -/
theorem loopStep_render {p : Panel} {n : U64} (h : s.point = .render t)
    (hdue : 2 ≤ t - s.lastTick) (hp : debugPanelRender s.panelSource g = some (p, n)) :
    loopStep s (.statement g) = some { s with
      point := .count t
      source := { s.source with frameCounter := n }
      lastTick := t
      frames := s.frames ++ [p]
      logged := s.logged ++ p.logged } := by
  simp only [loopStep, h, if_pos hdue, hp, Option.map_some]

theorem loopStep_render_early (h : s.point = .render t) (hdue : ¬ 2 ≤ t - s.lastTick) :
    loopStep s (.statement g) = some { s with point := .count t } := by
  simp only [loopStep, h, if_neg hdue]

/-- The line goes out while COM1 takes its bytes. -/
theorem exists_logAlive {com1 : Com1} (hcom1 : ∀ k, com1 k ≠ none) (sent : List U8) (t : U64) :
    ∃ sent', logAlive com1 sent t = some sent' := by
  have hdbg (sent str : List U8) : dbg com1 sent str = some (sent ++ dbgBytes str) :=
    (foldlM_dbgPutc com1 sent (dbgBytes str)).1 fun k _ => hcom1 _
  simp only [logAlive, hdbg]
  exact ⟨_, rfl⟩

theorem loopStep_count (h : s.point = .count t) (hcom1 : ∀ k, s.source.com1 k ≠ none) : ∃ logged,
    loopStep s (.statement g) =
      some { s with point := .readTicks, loopCount := s.loopCount + 1, logged := logged } := by
  obtain ⟨sent, hsent⟩ := exists_logAlive hcom1 s.logged t
  simp only [loopStep, h]
  split_ifs
  · rw [hsent]
    exact ⟨_, rfl⟩
  · exact ⟨_, rfl⟩

end Steps

/-! ## Runs -/

/-- **The invariant of the loop**, which started after `t₀` ticks: `last` is the tick of the last
rendering, counted without bound. -/
structure LoopInv (info : BootInfo) (c : ConfigSpace) (t₀ : ℕ) (s : KernelLoop M) (last : ℕ) :
    Prop where
  booted : s.source.Booted info c
  com1 : ∀ k, s.source.com1 k ≠ none
  ticks_eq : s.procs.timer.timerTicks = BitVec.ofNat 64 (t₀ + s.interrupts)
  last_eq : s.lastTick = BitVec.ofNat 64 last
  last_le : last ≤ t₀ + s.interrupts
  current : ∀ t, s.point.currentTicks = some t →
    ∃ cur, t = BitVec.ofNat 64 cur ∧ last ≤ cur ∧ cur ≤ t₀ + s.interrupts
  fresh : ∀ t, s.point = .count t → t - s.lastTick < 2
  counter_eq : s.source.frameCounter = BitVec.ofNat 64 s.frames.length
  frames_le : 2 * s.frames.length ≤ last
  numbered : Numbered s.frames

/-- Two ticks by the clock of 64 bits are at least two ticks. -/
theorem two_le_of_ticks {last cur : ℕ} (hle : last ≤ cur)
    (h : (2 : U64) ≤ BitVec.ofNat 64 cur - BitVec.ofNat 64 last) : last + 2 ≤ cur := by
  obtain ⟨d, rfl⟩ := Nat.exists_eq_add_of_le hle
  have hd : BitVec.ofNat 64 (last + d) - BitVec.ofNat 64 last = BitVec.ofNat 64 d := by
    rw [BitVec.ofNat_add, BitVec.add_comm, BitVec.add_sub_cancel]
  have h2 : (2 : U64).toNat = 2 := rfl
  have hmod := Nat.mod_le d (2 ^ 64)
  rw [hd, BitVec.le_def, h2, BitVec.toNat_ofNat] at h
  omega

theorem LoopInv.interrupt {last : ℕ} (h : LoopInv info c t₀ s last) : ∃ s',
    loopStep s .interrupt = some s' ∧ LoopInv info c t₀ s' last := by
  refine ⟨_, rfl, { h with ticks_eq := ?_, last_le := ?_, current := ?_ }⟩
  · show s.procs.timer.timerTicks + 1 = BitVec.ofNat 64 (t₀ + s.interrupts + 1)
    rw [h.ticks_eq, BitVec.ofNat_add _ 1]
    rfl
  · exact h.last_le.trans (Nat.le_succ _)
  · intro t ht
    obtain ⟨cur, hcur, hlast, hnow⟩ := h.current t ht
    exact ⟨cur, hcur, hlast, hnow.trans (Nat.le_succ _)⟩

/-- The statement that renders, if it is time. -/
theorem LoopInv.render {last : ℕ} (h : LoopInv info c t₀ s last) {t : U64}
    (hpoint : s.point = .render t) (g : PanelGarbage) : ∃ s' last',
    loopStep s (.statement g) = some s' ∧ LoopInv info c t₀ s' last' := by
  obtain ⟨cur, rfl, hle, hnow⟩ := h.current t (by rw [hpoint]; rfl)
  by_cases hdue : 2 ≤ BitVec.ofNat 64 cur - s.lastTick
  · obtain ⟨p, hp, hframe⟩ := exists_frame h.booted h.com1 h.counter_eq g
    have htwo := two_le_of_ticks hle (h.last_eq ▸ hdue)
    have hframes := h.frames_le
    refine ⟨_, cur, loopStep_render hpoint hdue hp, ?_⟩
    refine ⟨⟨h.booted.sysinfo_eq, h.booted.pci_eq⟩, h.com1, h.ticks_eq, rfl, hnow, ?_, ?_, ?_, ?_,
      h.numbered.concat hframe⟩
    · intro t ht
      obtain rfl := Option.some.inj ht
      exact ⟨cur, rfl, le_rfl, hnow⟩
    · intro t ht
      obtain rfl := LoopPoint.count.inj ht
      show BitVec.ofNat 64 cur - BitVec.ofNat 64 cur < 2
      rw [BitVec.sub_self]
      decide
    · show _ = BitVec.ofNat 64 (s.frames ++ [p]).length
      rw [List.length_append]
      rfl
    · show 2 * (s.frames ++ [p]).length ≤ cur
      rw [List.length_append, List.length_singleton]
      omega
  · refine ⟨_, last, loopStep_render_early hpoint hdue, ?_⟩
    refine { h with current := ?_, fresh := ?_ }
    · intro t ht
      obtain rfl := Option.some.inj ht
      exact ⟨cur, rfl, hle, hnow⟩
    · intro t ht
      obtain rfl := LoopPoint.count.inj ht
      exact BitVec.not_le.mp hdue

/-- **Every statement comes through** and keeps the invariant. -/
theorem LoopInv.statement {last : ℕ} (h : LoopInv info c t₀ s last) (g : PanelGarbage) :
    ∃ s' last', loopStep s (.statement g) = some s' ∧ LoopInv info c t₀ s' last' := by
  cases hpoint : s.point with
  | readTicks =>
    refine ⟨_, last, loopStep_readTicks hpoint, { h with current := ?_, fresh := ?_ }⟩
    · intro t ht
      obtain rfl := Option.some.inj ht
      exact ⟨_, h.ticks_eq, h.last_le, le_rfl⟩
    · intro t ht
      cases ht
  | schedule t =>
    refine ⟨_, last, loopStep_schedule hpoint,
      { h with ticks_eq := ?_, current := ?_, fresh := ?_ }⟩
    · rw [timer_scheduler]
      exact h.ticks_eq
    · exact fun t' ht => h.current t' (by rw [hpoint]; exact ht)
    · intro t' ht
      cases ht
  | render t => exact h.render hpoint g
  | count t =>
    obtain ⟨logged, hstep⟩ := loopStep_count (g := g) hpoint h.com1
    refine ⟨_, last, hstep, { h with current := ?_, fresh := ?_ }⟩
    · intro t' ht
      cases ht
    · intro t' ht
      cases ht

/-- **The loop renders in time.** For every boot record, while COM1 takes every byte, and for every
run of the loop that is interrupted by the timer between any of its statements: the run comes
through. There is at most one
frame for every two ticks, when an iteration ends fewer than two ticks lie between the one it read
and the one of the last frame, and the frames were drawn whole, each with its number. -/
theorem kernel_loop_renders (procs : Processes M) {source : PanelSource}
    (h : source.Booted info c) (hcom1 : ∀ k, source.com1 k ≠ none) (events : List LoopEvent) : ∃ s,
    run loopStep (loopStart procs source) events = some s ∧
      2 * s.frames.length ≤ procs.timer.timerTicks.toNat + s.interrupts ∧
      (∀ t, s.point = .count t → t - s.lastTick < 2) ∧
      s.source.frameCounter = BitVec.ofNat 64 s.frames.length ∧ Numbered s.frames := by
  have hstart : LoopInv info c procs.timer.timerTicks.toNat (loopStart procs source) 0 :=
    { booted := ⟨h.sysinfo_eq, h.pci_eq⟩
      com1 := hcom1
      ticks_eq := by simp [loopStart]
      last_eq := rfl
      last_le := Nat.zero_le _
      current := fun t ht => by cases ht
      fresh := fun t ht => by cases ht
      counter_eq := rfl
      frames_le := le_rfl
      numbered := fun k p hp => by cases hp }
  obtain ⟨s, hrun, last, hinv⟩ := AllSteps.exists_run
    (fun s e (hs : ∃ last, LoopInv info c procs.timer.timerTicks.toNat s last) _ => by
      obtain ⟨last, hs⟩ := hs
      cases e with
      | interrupt =>
        obtain ⟨s', hs', hinv⟩ := hs.interrupt
        exact ⟨s', hs', last, hinv⟩
      | statement g =>
        obtain ⟨s', last', hs', hinv⟩ := hs.statement g
        exact ⟨s', hs', last', hinv⟩)
    ⟨0, hstart⟩ (AllSteps.of_forall (fun _ _ => trivial) _ events)
  exact ⟨s, hrun, hinv.frames_le.trans hinv.last_le, hinv.fresh, hinv.counter_eq, hinv.numbered⟩

/-- An iteration that starts two ticks after the last frame renders one. -/
theorem exists_frame_of_due {t : KernelLoop M} {g₁ g₂ g₃ : PanelGarbage}
    (hpoint : s.point = .readTicks) (hdue : 2 ≤ s.procs.timer.timerTicks - s.lastTick)
    (hrun : run loopStep s [.statement g₁, .statement g₂, .statement g₃] = some t) :
    ∃ p, t.frames = s.frames ++ [p] := by
  obtain ⟨s₁, h₁, hrun⟩ := run_cons_eq_some.mp hrun
  rw [loopStep_readTicks hpoint] at h₁
  obtain rfl := Option.some.inj h₁
  obtain ⟨s₂, h₂, hrun⟩ := run_cons_eq_some.mp hrun
  rw [loopStep_schedule rfl] at h₂
  obtain rfl := Option.some.inj h₂
  obtain ⟨s₃, h₃, hrun⟩ := run_cons_eq_some.mp hrun
  obtain rfl := Option.some.inj hrun
  simp only [loopStep, if_pos hdue, Option.map_eq_some_iff] at h₃
  obtain ⟨r, -, rfl⟩ := h₃
  exact ⟨r.1, rfl⟩

/-- Two ticks, and an iteration that renders the first frame. -/
theorem kernel_loop_renders_sample : ∃ s p,
    run loopStep (loopStart sampleProcesses (samplePanel Sample.info))
        [.interrupt, .interrupt, .statement sampleGarbage, .statement sampleGarbage,
          .statement sampleGarbage] = some s ∧
      s.frames = [p] ∧ p.IsFrame 1 ∧ s.source.frameCounter = 1 := by
  obtain ⟨s, hrun, -, -, hcounter, hnumbered⟩ := kernel_loop_renders sampleProcesses
    (booted_samplePanel Sample.info) (fun _ => Option.some_ne_none 0)
    [.interrupt, .interrupt, .statement sampleGarbage, .statement sampleGarbage,
      .statement sampleGarbage]
  obtain ⟨s₁, h₁, hrest⟩ := run_cons_eq_some.mp hrun
  obtain ⟨s₂, h₂, hrest⟩ := run_cons_eq_some.mp hrest
  obtain rfl := Option.some.inj h₁
  obtain rfl := Option.some.inj h₂
  obtain ⟨p, hframes⟩ := exists_frame_of_due rfl (by decide) hrest
  refine ⟨s, p, hrun, hframes, hnumbered 0 p (by rw [hframes]; rfl), ?_⟩
  rw [hcounter, hframes]
  rfl

end OS44
