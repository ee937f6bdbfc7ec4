import OS44.Ide.Requests

/-! # The drives as a store

A request that fails half way has moved a prefix of its sectors (`run_disk`). So in every run of
requests, whatever the drives answer, a sector is as it was or as some request wrote it, and never
torn (`ide_run_sectors_whole`); and a read that succeeds returns what the last successful write
left, if no later request wrote there (`ide_run_reads_last_write`). -/

namespace OS44

open PortBus

/-! ## Requests -/

/-- A call of `ide_read_sectors` or `ide_write_sectors`. -/
structure IdeRequest where
  write : Bool
  drive : U8
  lba : U32
  count : U16
  buf : Buffer

namespace IdeRequest

/-- The call is made: its result, the buffer and the state. -/
def run (r : IdeRequest) (s : Ide AtaBus) : ℤ × Buffer × Ide AtaBus :=
  if r.write then ideWriteSectors s r.drive r.lba r.count r.buf
  else ideReadSectors s r.drive r.lba r.count r.buf

/-- The place of a sector in the request. -/
def offset (r : IdeRequest) (x : BitVec 28) : ℕ := (x - r.lba.setWidth 28).toNat

/-- The request is about the sector `x` of the drive `u` of the channel `c`. -/
def Addresses (r : IdeRequest) (c u : Fin 2) (x : BitVec 28) : Prop :=
  c = driveChannel r.drive ∧ u = driveUnit r.drive ∧ r.offset x < r.count.toNat

/-- The words of the buffer for a sector. -/
def block (r : IdeRequest) (x : BitVec 28) : Sector := fun j => r.buf (r.offset x * 256 + j.val)

end IdeRequest

/-- The state after requests. -/
def ideAfter (s : Ide AtaBus) (rs : List IdeRequest) : Ide AtaBus :=
  rs.foldl (fun s r => (r.run s).2.2) s

@[simp] theorem ideAfter_nil (s : Ide AtaBus) : ideAfter s [] = s := rfl

@[simp] theorem ideAfter_cons (s : Ide AtaBus) (r : IdeRequest) (rs : List IdeRequest) :
    ideAfter s (r :: rs) = ideAfter (r.run s).2.2 rs := rfl

/-! ## Requests that may fail -/

variable {s : Ide AtaBus} {ch : Fin 2} {t : Transfer} {n i : ℕ} {buf : Buffer}

/-- **The loop of a write**, however it ends: a prefix of the sectors was replaced. -/
theorem transferSectors_write_written (hn28 : n ≤ 2 ^ 28) (ht : s.dev.transfer ch = t)
    (hwrite : t.write = true) (hword : t.word = 0) :
    ∃ k ≤ n, ((transferSectors (chBase ch) true n i buf s).1 = 0 → k = n) ∧
      ∀ c u x, (transferSectors (chBase ch) true n i buf s).2.2.dev.disk c u x =
        if c = ch ∧ u = t.unit ∧ (x - t.sector).toNat < k then
          fun j => buf ((i + (x - t.sector).toNat) * 256 + j.val)
        else s.dev.disk c u x := by
  have hnone : ∀ c u x, s.dev.disk c u x =
      if c = ch ∧ u = t.unit ∧ (x - t.sector).toNat < 0 then
        fun j => buf ((i + (x - t.sector).toNat) * 256 + j.val)
      else s.dev.disk c u x := fun c u x => (if_neg fun h => Nat.not_lt_zero _ h.2.2).symm
  induction n generalizing i s t with
  | zero => exact ⟨0, le_rfl, fun _ => rfl, hnone⟩
  | succ n ih =>
    by_cases hready : (ideWaitReadyImpl (chBase ch) 1000000 s).1 = 0
    · obtain ⟨s₁, block, heq, ht₁, -, hdisk⟩ := exists_round_write n i buf ht hwrite hword hready
      obtain ⟨k, hk, hret, hd⟩ := ih (by omega) ht₁ hwrite rfl
        fun c u x => (if_neg fun h => Nat.not_lt_zero _ h.2.2).symm
      rw [heq]
      refine ⟨k + 1, by omega, fun h => congrArg (· + 1) (hret h), fun c u x => ?_⟩
      rw [hd, hdisk, update_sector_apply]
      exact sectors_of_rounds s.dev.disk (by omega)
    · -- the drive is not ready, and nothing was moved in this round
      have hfail : transferSectors (chBase ch) true (n + 1) i buf s = _ :=
        transferSectors_of_not_ready hready
      have hpoll := (polled_idePoll (chBase ch) 1000000 s).fields.2.1
      refine ⟨0, Nat.zero_le _, fun h => ?_, fun c u x => ?_⟩
      · rw [hfail] at h
        cases h
      · rw [hfail]
        exact (congrFun (congrFun (congrFun hpoll c) u) x).trans (hnone c u x)

/-- The loop of a read leaves the drives alone, however it ends. -/
theorem transferSectors_read_disk (ht : s.dev.transfer ch = t) (hread : t.write = false)
    (hword : t.word = 0) :
    (transferSectors (chBase ch) false n i buf s).2.2.dev.disk = s.dev.disk := by
  induction n generalizing i buf s t with
  | zero => rfl
  | succ n ih =>
    by_cases hready : (ideWaitReadyImpl (chBase ch) 1000000 s).1 = 0
    · obtain ⟨s₁, buf₁, heq, ht₁, hdisk, -, -⟩ := exists_round_read n i buf ht hread hword hready
      rw [heq]
      exact (ih ht₁ hread rfl).trans hdisk
    · rw [transferSectors_of_not_ready hready]
      exact (polled_idePoll (chBase ch) 1000000 s).fields.2.1

/-- **A request, however it ends**: a write has replaced a prefix of its sectors, all of them if it
returned 0, and a read none. -/
theorem run_disk (r : IdeRequest) (s : Ide AtaBus) : ∃ k ≤ r.count.toNat,
    (r.write = true → (r.run s).1 = 0 → k = r.count.toNat) ∧
      ∀ c u x, (r.run s).2.2.dev.disk c u x =
        if r.write = true ∧ c = driveChannel r.drive ∧ u = driveUnit r.drive ∧ r.offset x < k then
          r.block x
        else s.dev.disk c u x := by
  obtain ⟨write, drive, lba, count, buf⟩ := r
  have hrun : (IdeRequest.mk write drive lba count buf).run s =
      ideReadWriteSectors s drive lba count buf write := by
    cases write <;> rfl
  rw [hrun]
  by_cases hcount : count = 0
  · subst hcount
    exact ⟨0, le_rfl, fun _ _ => rfl, fun c u x => (if_neg fun h => Nat.not_lt_zero _ h.2.2.2).symm⟩
  by_cases habsent : s.Absent drive
  · rw [ideReadWriteSectors_of_absent hcount habsent]
    exact ⟨0, Nat.zero_le _, fun _ h => (by cases h),
      fun c u x => (if_neg fun h => Nat.not_lt_zero _ h.2.2.2).symm⟩
  obtain ⟨htransfer, hissued, -, -⟩ := issued_spec s drive lba count write
  rw [ideReadWriteSectors_eq hcount habsent]
  cases write with
  | false =>
    have hdisk := @transferSectors_read_disk _ _ _ count.toNat 0 buf htransfer rfl rfl
    refine ⟨0, Nat.zero_le _, fun h => (by cases h), fun c u x => ?_⟩
    have hnot : ¬ (false = true ∧ c = driveChannel drive ∧ u = driveUnit drive ∧
        IdeRequest.offset ⟨false, drive, lba, count, buf⟩ x < 0) := fun h => Bool.false_ne_true h.1
    refine Eq.trans ?_ (if_neg hnot).symm
    rw [← hissued, ← hdisk]
    dsimp only
    split_ifs with hne hwrite
    · rfl
    · exact hwrite.elim
    · rfl
  | true =>
    have hcount28 : count.toNat ≤ 2 ^ 28 := count.isLt.le.trans (by decide)
    obtain ⟨k, hk, hret, hdisk⟩ := @transferSectors_write_written _ _ _ _ 0 buf hcount28 htransfer
      rfl rfl
    refine ⟨k, hk, fun _ h => hret ?_, fun c u x => ?_⟩
    · dsimp only at h
      split_ifs at h with hne
      · exact h
      · exact not_not.mp hne
    · have hsame : ∀ {d : Ide AtaBus}, d.dev.disk = (transferSectors (chBase (driveChannel drive))
          true count.toNat 0 buf (issued s drive lba count true)).2.2.dev.disk →
          d.dev.disk c u x = if true = true ∧ c = driveChannel drive ∧ u = driveUnit drive ∧
            (x - lba.setWidth 28).toNat < k then
              fun j : Fin 256 => buf ((x - lba.setWidth 28).toNat * 256 + j.val)
            else s.dev.disk c u x := by
        intro d hd
        rw [hd, hdisk, hissued]
        simp only [Nat.zero_add, true_and]
      dsimp only
      by_cases hne : (transferSectors (chBase (driveChannel drive)) true count.toNat 0 buf
          (issued s drive lba count true)).1 = 0
      · -- the flush moves no data
        rw [if_neg (not_not.mpr hne), if_pos rfl]
        refine hsame ((polled_idePoll (chBase (driveChannel drive)) 1000000 _).fields.2.1.trans ?_)
        rw [outb_command]
      · rw [if_pos hne]
        exact hsame rfl

/-- A request that does not write a sector leaves it. -/
theorem run_disk_of_not (r : IdeRequest) (s : Ide AtaBus) {c u : Fin 2} {x : BitVec 28}
    (h : r.write = true → ¬ r.Addresses c u x) :
    (r.run s).2.2.dev.disk c u x = s.dev.disk c u x := by
  obtain ⟨k, hk, -, hdisk⟩ := run_disk r s
  rw [hdisk]
  exact if_neg fun hw => h hw.1 ⟨hw.2.1, hw.2.2.1, hw.2.2.2.trans_le hk⟩

/-! ## Runs -/

variable {c u : Fin 2} {x : BitVec 28}

theorem disk_ideAfter_of_not {rs : List IdeRequest}
    (h : ∀ r ∈ rs, r.write = true → ¬ r.Addresses c u x) (s : Ide AtaBus) :
    (ideAfter s rs).dev.disk c u x = s.dev.disk c u x := by
  induction rs generalizing s with
  | nil => rfl
  | cons r rs ih =>
    exact (ih (fun q hq => h q (List.mem_cons_of_mem r hq)) (r.run s).2.2).trans
      (run_disk_of_not r s (h r List.mem_cons_self))

/-- **No sector is torn.** In every run of requests from any state, whatever the drives answer and
wherever requests fail: each sector of each drive is as it was, or as a write request of the run
that addressed it has it in its buffer. -/
theorem ide_run_sectors_whole (s : Ide AtaBus) (rs : List IdeRequest) (c u : Fin 2)
    (x : BitVec 28) :
    (ideAfter s rs).dev.disk c u x = s.dev.disk c u x ∨
      ∃ r ∈ rs, r.write = true ∧ r.Addresses c u x ∧
        (ideAfter s rs).dev.disk c u x = r.block x := by
  induction rs generalizing s with
  | nil => exact .inl rfl
  | cons r rs ih =>
    obtain hsame | ⟨q, hq, hwrite, haddr, hblock⟩ := ih (r.run s).2.2
    · -- what the first request left
      obtain ⟨k, hk, -, hdisk⟩ := run_disk r s
      have hfirst := hdisk c u x
      split_ifs at hfirst with hin
      · exact .inr ⟨r, List.mem_cons_self, hin.1,
          ⟨hin.2.1, hin.2.2.1, hin.2.2.2.trans_le hk⟩, hsame.trans hfirst⟩
      · exact .inl (hsame.trans hfirst)
    · exact .inr ⟨q, List.mem_cons_of_mem r hq, hwrite, haddr, hblock⟩

/-- **A read returns the last write.** In every run of requests from any state, whatever the drives
answer: if a write returned 0, no later request wrote the sector `x` that it addressed, and a read
of `x` then returned 0, the words of `x` in the buffer of the read are those of the write, whatever
requests about other sectors, other drives or with errors came between. -/
theorem ide_run_reads_last_write (s : Ide AtaBus) (before between : List IdeRequest)
    (w r : IdeRequest) (hw : w.write = true) (hr : r.write = false)
    (hwret : (w.run (ideAfter s before)).1 = 0)
    (hrret : (r.run (ideAfter s (before ++ w :: between))).1 = 0)
    (c u : Fin 2) (x : BitVec 28) (hwx : w.Addresses c u x) (hrx : r.Addresses c u x)
    (hbetween : ∀ q ∈ between, q.write = true → ¬ q.Addresses c u x) (j : Fin 256) :
    (r.run (ideAfter s (before ++ w :: between))).2.1 (r.offset x * 256 + j.val) =
      w.buf (w.offset x * 256 + j.val) := by
  obtain ⟨k, -, hall, hdisk⟩ := run_disk w (ideAfter s before)
  -- the sector, when the read is made
  have hsplit : ideAfter s (before ++ w :: between) =
      ideAfter (w.run (ideAfter s before)).2.2 between := List.foldl_append
  have hsector : (ideAfter s (before ++ w :: between)).dev.disk c u x = w.block x := by
    rw [hsplit, disk_ideAfter_of_not hbetween, hdisk, hall hw hwret]
    exact if_pos ⟨hw, hwx.1, hwx.2.1, hwx.2.2⟩
  have hread : r.run (ideAfter s (before ++ w :: between)) =
      ideReadSectors (ideAfter s (before ++ w :: between)) r.drive r.lba r.count r.buf := by
    rw [IdeRequest.run, hr]
    rfl
  rw [hread] at hrret ⊢
  obtain ⟨-, -, hbuf⟩ := ideReadSectors_spec hrret
  obtain ⟨rfl, rfl, hlt⟩ := hrx
  have hj := j.isLt
  have hdiv : (r.offset x * 256 + j.val) / 256 = r.offset x := by omega
  have hmod : (r.offset x * 256 + j.val) % 256 = j.val := by omega
  have hx : r.lba.setWidth 28 + BitVec.ofNat 28 (r.offset x) = x := by
    rw [IdeRequest.offset, BitVec.ofNat_toNat, BitVec.setWidth_eq, BitVec.add_comm,
      BitVec.sub_add_cancel]
  rw [hbuf, if_pos (by omega), hdiv, hx, hsector]
  exact congrArg (fun k : Fin 256 => w.buf (w.offset x * 256 + k.val)) (Fin.ext hmod)

/-- A request to a drive that is always ready. -/
theorem run_of_alwaysReady {r : IdeRequest} (hready : AlwaysReady s.dev)
    (hpresent : s.Present r.drive) (hle : r.count.toNat ≤ 256) :
    (r.run s).1 = 0 ∧ AlwaysReady (r.run s).2.2.dev ∧ ∀ drive, s.Present drive →
      (r.run s).2.2.Present drive := by
  have hrun : r.run s = ideReadWriteSectors s r.drive r.lba r.count r.buf r.write := by
    rw [IdeRequest.run]
    cases r.write <;> rfl
  rw [hrun]
  exact ⟨ideReadWriteSectors_of_alwaysReady hready hpresent.not_absent hle, hready.after,
    fun drive h => h.after (answersOnly_ideReadWriteSectors s r.drive r.lba r.count r.buf r.write)⟩

/-- After requests to drives that are always ready, so does one more. -/
theorem run_ideAfter_of_alwaysReady {rs : List IdeRequest} (hready : AlwaysReady s.dev)
    (hrs : ∀ r ∈ rs, s.Present r.drive ∧ r.count.toNat ≤ 256) {r : IdeRequest}
    (hpresent : s.Present r.drive) (hle : r.count.toNat ≤ 256) :
    (r.run (ideAfter s rs)).1 = 0 := by
  induction rs generalizing s with
  | nil => exact (run_of_alwaysReady hready hpresent hle).1
  | cons q rs ih =>
    obtain ⟨hq, hqle⟩ := hrs q List.mem_cons_self
    obtain ⟨-, hready', hpresent'⟩ := run_of_alwaysReady hready hq hqle
    refine ih hready' (fun p hp => ?_) (hpresent' r.drive hpresent)
    obtain ⟨hp, hple⟩ := hrs p (List.mem_cons_of_mem q hp)
    exact ⟨hpresent' p.drive hp, hple⟩

/-- Sector 5 is written, -/
def sampleWrite : IdeRequest := ⟨true, 0, 5, 1, sevens⟩

/-- then sectors 9 and 10, -/
def sampleBetween : IdeRequest := ⟨true, 0, 9, 2, fun _ => 8⟩

/-- and then sectors 4 and 5 are read. -/
def sampleRead : IdeRequest := ⟨false, 0, 4, 2, fun _ => 0⟩

/-- Sector 5 is read as it was written. -/
theorem ide_run_reads_last_write_sample :
    (fun j : Fin 256 =>
      (sampleRead.run (ideAfter sampleIde ([] ++ sampleWrite :: [sampleBetween]))).2.1
        (sampleRead.offset 5 * 256 + j.val)) = sampleWrite.block 5 := by
  funext j
  have hrs : ∀ q ∈ [] ++ sampleWrite :: [sampleBetween],
      sampleIde.Present q.drive ∧ q.count.toNat ≤ 256 := by
    intro q hq
    simp only [List.nil_append, List.mem_cons, List.not_mem_nil, or_false] at hq
    obtain rfl | rfl := hq
    · exact ⟨present_sampleIde, by decide⟩
    · exact ⟨present_sampleIde, by decide⟩
  have hother : ∀ p ∈ [sampleBetween], p.write = true → ¬ p.Addresses 0 0 5 := by
    intro p hp _ haddr
    obtain rfl := List.mem_singleton.mp hp
    exact absurd haddr.2.2 (by decide)
  exact ide_run_reads_last_write sampleIde [] [sampleBetween] sampleWrite sampleRead rfl rfl
    (run_ideAfter_of_alwaysReady (fun _ => rfl) (fun _ h => by cases h) present_sampleIde
      (by decide))
    (run_ideAfter_of_alwaysReady (fun _ => rfl) hrs present_sampleIde (by decide))
    0 0 5 ⟨rfl, rfl, by decide⟩ ⟨rfl, rfl, by decide⟩ hother j

end OS44
