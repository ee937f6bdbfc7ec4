import Mathlib.Logic.Function.Iterate
import OS44.Ide.Ide

/-! # The polls of a request (`ide.c`)

`ide_poll` reads the status again and again until it shows an error or data. A request polls before
each of its sectors, and a write polls once more after it has flushed the cache. The result of that
last poll is dropped: a request reports the polls that fail exactly if the flush of a write does not
(`failed_polls_reported_iff`). -/

namespace OS44

open PortBus

/-- A status that ends a poll: BSY is clear, and ERR or DRQ is set. -/
def EndsPoll (status : U8) : Prop :=
  status &&& ideStatusBsy = 0 ∧ (status &&& ideStatusErr ≠ 0 ∨ status &&& ideStatusDrq ≠ 0)

/-- A status that ends it well: BSY and ERR are clear, and DRQ is set. -/
def ShowsData (status : U8) : Prop :=
  status &&& ideStatusBsy = 0 ∧ status &&& ideStatusErr = 0 ∧ status &&& ideStatusDrq ≠ 0

instance (status : U8) : Decidable (EndsPoll status) := inferInstanceAs (Decidable (_ ∧ _))

instance (status : U8) : Decidable (ShowsData status) := inferInstanceAs (Decidable (_ ∧ _))

section Polls

variable {D : Type} [PortBus D]

/-! ## One poll -/

/-- The status that a device shows after `k` reads of it. -/
def statusByte (base : U16) (d : D) (k : ℕ) : U8 :=
  (inb ((fun d => (inb d (base + 7)).2)^[k] d) (base + 7)).1

/-- **A poll goes well**: of the first `timeout` bytes of status, the first that ends it shows
data. -/
def PollSucceeds (base : U16) (timeout : ℕ) (d : D) : Prop :=
  ∃ k < timeout, ShowsData (statusByte base d k) ∧ ∀ j < k, ¬ EndsPoll (statusByte base d j)

variable {base : U16} {n : ℕ} {s : Ide D} {d : D}

theorem ShowsData.endsPoll {status : U8} (h : ShowsData status) : EndsPoll status :=
  ⟨h.1, .inr h.2.2⟩

theorem not_pollSucceeds_zero : ¬ PollSucceeds base 0 d := by
  rintro ⟨k, hk, -⟩
  exact absurd hk (Nat.not_lt_zero k)

/-- Data at the first read. -/
theorem pollSucceeds_of_showsData (h : ShowsData (inb d (base + 7)).1) :
    PollSucceeds base (n + 1) d :=
  ⟨0, Nat.succ_pos n, h, fun j hj => absurd hj (Nat.not_lt_zero j)⟩

/-- An error at the first read. -/
theorem not_pollSucceeds_of_error (hends : EndsPoll (inb d (base + 7)).1)
    (h : ¬ ShowsData (inb d (base + 7)).1) : ¬ PollSucceeds base n d := by
  rintro ⟨k, -, hdata, hbefore⟩
  cases k with
  | zero => exact h hdata
  | succ k => exact hbefore 0 (Nat.succ_pos k) hends

/-- Neither at the first read. -/
theorem pollSucceeds_succ_iff (h : ¬ EndsPoll (inb d (base + 7)).1) :
    PollSucceeds base (n + 1) d ↔ PollSucceeds base n (inb d (base + 7)).2 := by
  constructor
  · rintro ⟨k, hk, hdata, hbefore⟩
    cases k with
    | zero => exact absurd hdata.endsPoll h
    | succ k =>
      refine ⟨k, Nat.lt_of_succ_lt_succ hk, hdata, ?_⟩
      intro j hj
      exact hbefore (j + 1) (Nat.succ_lt_succ hj)
  · rintro ⟨k, hk, hdata, hbefore⟩
    refine ⟨k + 1, Nat.succ_lt_succ hk, hdata, ?_⟩
    intro j hj
    cases j with
    | zero => exact h
    | succ j => exact hbefore j (Nat.lt_of_succ_lt_succ hj)

/-- **`ide_poll` returns 0** exactly if the poll goes well. -/
theorem idePoll_eq_zero_iff (n : ℕ) (s : Ide D) :
    (idePoll base true n s).1 = 0 ↔ PollSucceeds base n s.dev := by
  have hne : (-1 : ℤ) ≠ 0 := by decide
  induction n generalizing s with
  | zero => exact iff_of_false hne not_pollSucceeds_zero
  | succ n ih =>
    simp only [idePoll, if_true]
    -- a status that is busy, or shows neither error nor data, costs a round and nothing else
    split_ifs with hbusy herr hdrq
    · exact (ih _).trans (pollSucceeds_succ_iff fun hends => hbusy hends.1).symm
    · have hfree := not_not.mp hbusy
      exact iff_of_false hne
        (not_pollSucceeds_of_error ⟨hfree, .inl herr⟩ fun hdata => herr hdata.2.1)
    · exact iff_of_true rfl (pollSucceeds_of_showsData ⟨not_not.mp hbusy, not_not.mp herr, hdrq⟩)
    · refine (ih _).trans (pollSucceeds_succ_iff ?_).symm
      rintro ⟨-, herr' | hdrq'⟩
      · exact herr herr'
      · exact hdrq hdrq'

theorem ideWaitReadyImpl_eq_zero_iff (timeout : ℕ) (s : Ide D) :
    (ideWaitReadyImpl base timeout s).1 = 0 ↔ PollSucceeds base timeout s.dev :=
  idePoll_eq_zero_iff timeout s

/-! ## The polls of the loop -/

/-- The device at each poll of `transferSectors`. -/
def sectorPolls (base : U16) (write : Bool) : ℕ → ℕ → Buffer → Ide D → List D
  | 0, _, _, _ => []
  | n + 1, i, buf, s =>
    let ready := ideWaitReadyImpl base 1000000 s
    let s' := ready.2
    s.dev ::
      -- a poll that fails is the last one
      if ready.1 ≠ 0 then []
      else if write then
        let d := writeWords base 256 (i * 256) buf s'.dev
        sectorPolls base write n (i + 1) buf { s' with dev := ideWait400ns base d }
      else
        let words := readWords base 256 (i * 256) buf s'.dev
        sectorPolls base write n (i + 1) words.1 { s' with dev := ideWait400ns base words.2 }

/-- A loop over one sector polls once. -/
theorem sectorPolls_one (write : Bool) (i : ℕ) (buf : Buffer) (s : Ide D) :
    sectorPolls base write 1 i buf s = [s.dev] := by
  rw [sectorPolls]
  dsimp only
  split_ifs
  · rfl
  · rfl
  · rfl

/-- **The loop over the sectors** returns 0 exactly if its polls go well. -/
theorem transferSectors_eq_zero_iff (write : Bool) (n i : ℕ) (buf : Buffer) (s : Ide D) :
    (transferSectors base write n i buf s).1 = 0 ↔
      ∀ d ∈ sectorPolls base write n i buf s, PollSucceeds base 1000000 d := by
  induction n generalizing i buf s with
  | zero => exact iff_of_true rfl (fun d hd => absurd hd List.not_mem_nil)
  | succ n ih =>
    rw [sectorPolls, List.forall_mem_cons, ← ideWaitReadyImpl_eq_zero_iff]
    by_cases hready : (ideWaitReadyImpl base 1000000 s).1 = 0
    · rw [if_neg (not_not.mpr hready), and_iff_right hready]
      cases write with
      | true =>
        rw [transferSectors_write hready]
        exact ih _ _ _
      | false =>
        rw [transferSectors_read hready]
        exact ih _ _ _
    · rw [transferSectors_of_not_ready hready]
      exact iff_of_false (show (-1 : ℤ) ≠ 0 by decide) fun h => hready h.1

theorem transferSectors_result (write : Bool) (n i : ℕ) (buf : Buffer) (s : Ide D) :
    (transferSectors base write n i buf s).1 = 0 ∨
      (transferSectors base write n i buf s).1 = -1 := by
  induction n generalizing i buf s with
  | zero => exact .inl rfl
  | succ n ih =>
    by_cases hready : (ideWaitReadyImpl base 1000000 s).1 = 0
    · cases write with
      | true =>
        rw [transferSectors_write hready]
        exact ih _ _ _
      | false =>
        rw [transferSectors_read hready]
        exact ih _ _ _
    · rw [transferSectors_of_not_ready hready]
      exact .inr rfl

/-! ## The polls of a request -/

variable {drive : U8} {lba : U32} {count : U16} {buf : Buffer} {write : Bool}

/-- The driver when a request has sent its command. -/
def requestStart (s : Ide D) (drive : U8) (lba : U32) (count : U16) (write : Bool) : Ide D :=
  let d := issueCommand (driveBase drive) (driveSel drive) lba count write s.dev
  { s with dev := ideWait400ns (driveBase drive) d }

/-- The loop of a request. -/
def requestLoop (s : Ide D) (drive : U8) (lba : U32) (count : U16) (buf : Buffer) (write : Bool) :
    ℤ × Buffer × Ide D :=
  transferSectors (driveBase drive) write count.toNat 0 buf (requestStart s drive lba count write)

/-- The device at each poll before a sector. -/
def requestSectorPolls (s : Ide D) (drive : U8) (lba : U32) (count : U16) (buf : Buffer)
    (write : Bool) : List D :=
  if count = 0 ∨ s.Absent drive then []
  else
    sectorPolls (driveBase drive) write count.toNat 0 buf (requestStart s drive lba count write)

/-- The device when a write has sent the command to flush the cache. -/
def flushSent (s : Ide D) (drive : U8) (lba : U32) (count : U16) (buf : Buffer) : D :=
  outb (requestLoop s drive lba count buf true).2.2.dev (driveBase drive + 7) ideCmdFlush

/-- The device at each poll of a request. -/
def requestPolls (s : Ide D) (drive : U8) (lba : U32) (count : U16) (buf : Buffer)
    (write : Bool) : List D :=
  requestSectorPolls s drive lba count buf write ++
    if count = 0 ∨ s.Absent drive ∨ (requestLoop s drive lba count buf write).1 ≠ 0 then []
    else if write then [flushSent s drive lba count buf]
    else []

/-- A poll that fails makes the request return -1. -/
def FailedPollsReported (s : Ide D) (drive : U8) (lba : U32) (count : U16) (buf : Buffer)
    (write : Bool) : Prop :=
  (∃ d ∈ requestPolls s drive lba count buf write, ¬ PollSucceeds (driveBase drive) 1000000 d) →
    (ideReadWriteSectors s drive lba count buf write).1 = -1

/-- The flush of the request goes well, if the request comes to it. -/
def FlushSucceeds (s : Ide D) (drive : U8) (lba : U32) (count : U16) (buf : Buffer)
    (write : Bool) : Prop :=
  write = true → count ≠ 0 → ¬ s.Absent drive →
    (∀ d ∈ requestSectorPolls s drive lba count buf write,
      PollSucceeds (driveBase drive) 1000000 d) →
    PollSucceeds (driveBase drive) 1000000 (flushSent s drive lba count buf)

theorem ideReadWriteSectors_of_refused (h : count = 0 ∨ s.Absent drive) :
    ideReadWriteSectors s drive lba count buf write = (if count = 0 then 0 else -1, buf, s) := by
  rw [ideReadWriteSectors]
  by_cases hcount : count = 0
  · rw [if_pos hcount, if_pos hcount]
  · rw [if_neg hcount, if_neg hcount]
    exact if_pos (h.resolve_left hcount)

theorem ideReadWriteSectors_of_served (h : ¬ (count = 0 ∨ s.Absent drive)) :
    ideReadWriteSectors s drive lba count buf write =
      let r := requestLoop s drive lba count buf write
      let s := r.2.2
      if r.1 ≠ 0 then r
      else if write then
        let s := { s with dev := outb s.dev (driveBase drive + 7) ideCmdFlush }
        (0, r.2.1, (ideWaitReadyImpl (driveBase drive) 1000000 s).2)
      else (0, r.2.1, s) := by
  obtain ⟨hcount, habsent⟩ := not_or.mp h
  rw [ideReadWriteSectors, if_neg hcount]
  exact if_neg habsent

/-- Such a request returns what its loop does. -/
theorem ideReadWriteSectors_result_eq (h : ¬ (count = 0 ∨ s.Absent drive)) :
    (ideReadWriteSectors s drive lba count buf write).1 =
      (requestLoop s drive lba count buf write).1 := by
  rw [ideReadWriteSectors_of_served h]
  dsimp only
  split_ifs with hloop
  · rfl
  · exact (not_not.mp hloop).symm
  · exact (not_not.mp hloop).symm

theorem requestLoop_eq_zero_iff (h : ¬ (count = 0 ∨ s.Absent drive)) (lba : U32) (buf : Buffer)
    (write : Bool) :
    (requestLoop s drive lba count buf write).1 = 0 ↔
      ∀ d ∈ requestSectorPolls s drive lba count buf write,
        PollSucceeds (driveBase drive) 1000000 d := by
  rw [requestSectorPolls, if_neg h]
  exact transferSectors_eq_zero_iff _ _ _ _ _

/-- A request returns 0 or -1. -/
theorem ideReadWriteSectors_result (s : Ide D) (drive : U8) (lba : U32) (count : U16)
    (buf : Buffer) (write : Bool) :
    (ideReadWriteSectors s drive lba count buf write).1 = 0 ∨
      (ideReadWriteSectors s drive lba count buf write).1 = -1 := by
  by_cases h : count = 0 ∨ s.Absent drive
  · rw [ideReadWriteSectors_of_refused h]
    by_cases hcount : count = 0
    · exact .inl (if_pos hcount)
    · exact .inr (if_neg hcount)
  · rw [ideReadWriteSectors_result_eq h]
    exact transferSectors_result _ _ _ _ _

/-- In other words, a request that returns 0 had no poll that failed. -/
theorem failedPollsReported_iff :
    FailedPollsReported s drive lba count buf write ↔
      ((ideReadWriteSectors s drive lba count buf write).1 = 0 →
        ∀ d ∈ requestPolls s drive lba count buf write,
          PollSucceeds (driveBase drive) 1000000 d) := by
  constructor
  · intro h hret d hd
    by_contra hfail
    have hret' := h ⟨d, hd, hfail⟩
    rw [hret] at hret'
    exact absurd hret' (by decide)
  · rintro h ⟨d, hd, hfail⟩
    refine (ideReadWriteSectors_result s drive lba count buf write).resolve_left ?_
    intro hret
    exact hfail (h hret d hd)

/-- A request that is refused polls nothing. -/
theorem requestPolls_of_refused (h : count = 0 ∨ s.Absent drive) :
    requestPolls s drive lba count buf write = [] := by
  have hall : count = 0 ∨ s.Absent drive ∨ (requestLoop s drive lba count buf write).1 ≠ 0 :=
    h.imp_right .inl
  rw [requestPolls, requestSectorPolls, if_pos h, if_pos hall]
  rfl

/-- A request whose loop goes well polls after its flush, if it has one. -/
theorem requestPolls_of_loop (h : ¬ (count = 0 ∨ s.Absent drive))
    (hloop : (requestLoop s drive lba count buf write).1 = 0) :
    requestPolls s drive lba count buf write =
      requestSectorPolls s drive lba count buf write ++
        if write then [flushSent s drive lba count buf] else [] := by
  obtain ⟨hcount, habsent⟩ := not_or.mp h
  rw [requestPolls, if_neg]
  rintro (h | h | h)
  · exact hcount h
  · exact habsent h
  · exact h hloop

/-- **When a failed poll is reported.** For every device and every request: a poll that sees an
error or runs out of its rounds makes the request return -1, unless it is the poll after the flush
of a write. -/
theorem failed_polls_reported_iff (s : Ide D) (drive : U8) (lba : U32) (count : U16) (buf : Buffer)
    (write : Bool) :
    FailedPollsReported s drive lba count buf write ↔
      FlushSucceeds s drive lba count buf write := by
  rw [failedPollsReported_iff]
  by_cases hrefused : count = 0 ∨ s.Absent drive
  · rw [requestPolls_of_refused hrefused]
    refine iff_of_true (fun _ d hd => absurd hd List.not_mem_nil) ?_
    intro _ hcount habsent
    exact absurd hrefused (not_or.mpr ⟨hcount, habsent⟩)
  obtain ⟨hcount, habsent⟩ := not_or.mp hrefused
  have hzero := requestLoop_eq_zero_iff hrefused lba buf write
  rw [ideReadWriteSectors_result_eq hrefused]
  constructor
  · -- only the poll after the flush is left to ask about
    rintro h rfl - - hsectors
    have hloop := hzero.mpr hsectors
    refine h hloop _ ?_
    rw [requestPolls_of_loop hrefused hloop]
    exact List.mem_append_right _ (List.mem_singleton_self _)
  · -- the result is that of the loop, which reports each of its polls
    intro hflush hloop d hd
    rw [requestPolls_of_loop hrefused hloop] at hd
    rcases List.mem_append.mp hd with hsector | hlast
    · exact hzero.mp hloop d hsector
    · cases write with
      | false => exact absurd hlast List.not_mem_nil
      | true =>
        rw [List.mem_singleton.mp hlast]
        exact hflush rfl hcount habsent (hzero.mp hloop)

end Polls

/-! ## A drive that cannot flush -/

/-- A drive that takes sectors and reports an error once it is to flush its cache. -/
structure BadFlush where
  flushed : Bool

instance : PortBus BadFlush where
  inb d _ := (if d.flushed then ideStatusErr else ideStatusDrq, d)
  inw d _ := (0, d)
  outb d port v := ⟨d.flushed || (port == idePrimaryBase + 7 && v == ideCmdFlush)⟩
  outw d _ _ := d

/-- The driver with such a drive. -/
def badFlushIde : Ide BadFlush where
  dev := ⟨false⟩
  primaryMaster := 1
  primarySlave := 0
  secondaryMaster := 0
  secondarySlave := 0
  lastStatus := 0
  lastError := 0

theorem flushed_requestLoop_badFlush (buf : Buffer) :
    (requestLoop badFlushIde 0 0 1 buf true).2.2.dev = ⟨false⟩ :=
  transferSectors_keeps (driveBase 0) (I := fun d : BadFlush => d = ⟨false⟩) (fun _ _ _ h => h)
    (fun _ _ _ h => h) (fun _ _ _ _ h => h) true 1 0 buf rfl

/-- **A lost write.** The drive reports an error after the flush, and the write of a sector returns
0 all the same. -/
theorem failed_flush_is_lost : ¬ FailedPollsReported badFlushIde 0 0 1 (fun _ => 0) true := by
  have hrefused : ¬ ((1 : U16) = 0 ∨ badFlushIde.Absent 0) := by decide
  have hloop : (requestLoop badFlushIde 0 0 1 (fun _ => 0) true).1 = 0 := by
    rw [requestLoop_eq_zero_iff hrefused, requestSectorPolls, if_neg hrefused]
    intro d hd
    rw [show (1 : U16).toNat = 1 from rfl, sectorPolls_one, List.mem_singleton] at hd
    rw [hd]
    exact pollSucceeds_of_showsData (n := 999999) (by decide)
  rw [failedPollsReported_iff, ideReadWriteSectors_result_eq hrefused,
    requestPolls_of_loop hrefused hloop]
  intro h
  have hflush := h hloop (flushSent badFlushIde 0 0 1 fun _ => 0)
    (List.mem_append_right _ (List.mem_singleton_self _))
  -- the device is the one that was told to flush
  rw [flushSent, flushed_requestLoop_badFlush] at hflush
  exact not_pollSucceeds_of_error (by decide) (by decide) hflush

end OS44
