import Mathlib.Tactic.IntervalCases
import OS44.Ide.Ata

/-! # Requests to a drive

A request that the 28-bit commands can express is served right; any other is truncated to the
registers and sent all the same (`ide_request_ok_iff`). What a write stored is what the read of the
same request returns, whatever the device makes of its address and count (`ide_round_trip`). -/

namespace OS44

open PortBus

/-! ## The ports -/

theorem decodePort_chBase (ch : Fin 2) : decodePort (chBase ch) = some (ch, 0) := by
  revert ch
  decide

theorem decodePort_chBase_add (ch : Fin 2) (r : Fin 8) :
    decodePort (chBase ch + BitVec.ofNat 16 r) = some (ch, r.val) := by
  revert ch r
  decide

variable (d : AtaBus) (ch : Fin 2)

theorem inb_reg (r : Fin 8) : inb d (chBase ch + BitVec.ofNat 16 r) = d.inReg ch r := by
  simp only [inb, decodePort_chBase_add]

theorem outb_reg (r : Fin 8) (v : U8) : outb d (chBase ch + BitVec.ofNat 16 r) v =
    d.outReg ch r v := by
  simp only [outb, decodePort_chBase_add]

theorem inw_data : inw d (chBase ch) = d.inData ch := by
  simp only [inw, decodePort_chBase]

theorem outw_data (v : U16) : outw d (chBase ch) v = d.outData ch v := by
  simp only [outw, decodePort_chBase]

theorem inb_status : inb d (chBase ch + 7) =
    (if (d.transfer ch).left = 0 then d.status d.polls &&& ~~~ideStatusDrq else d.status d.polls,
      { d with polls := d.polls + 1 }) :=
  inb_reg d ch 7

theorem outb_command (v : U8) : outb d (chBase ch + 7) v = { d with
    transfer := Function.update d.transfer ch (startTransfer (d.taskFile ch) v)
    commands := (ch, v) :: d.commands } :=
  outb_reg d ch 7 v

variable {d ch}

/-! ## Polling -/

/-- Nothing happened but reads of the status. -/
def Polled (d d' : AtaBus) : Prop := ∃ k, d' = { d with polls := k }

theorem Polled.refl (d : AtaBus) : Polled d d := ⟨d.polls, rfl⟩

theorem Polled.trans {d d' d'' : AtaBus} (h : Polled d d') (h' : Polled d' d'') : Polled d d'' := by
  obtain ⟨k, rfl⟩ := h
  obtain ⟨k', rfl⟩ := h'
  exact ⟨k', rfl⟩

theorem polled_inb (d : AtaBus) (port : U16) : Polled d (inb d port).2 := by
  simp only [inb]
  split
  · next ch reg _ =>
    unfold AtaBus.inReg
    split
    · exact Polled.refl d
    · exact ⟨_, rfl⟩
    · exact Polled.refl d
  · exact Polled.refl d

theorem polled_ideWait400ns (d : AtaBus) (base : U16) : Polled d (ideWait400ns base d) :=
  ideWait400ns_keeps (I := Polled d) (fun d' p _ h => h.trans (polled_inb d' p)) (Polled.refl d)

theorem polled_idePoll (base : U16) (n : ℕ) (s : Ide AtaBus) :
    Polled s.dev (idePoll base true n s).2.dev :=
  idePoll_keeps (I := Polled s.dev) (fun d' p _ h => h.trans (polled_inb d' p)) true n
    (Polled.refl _)

/-- **A poll without a pending sector fails**: DRQ is not raised any more. -/
theorem idePoll_of_left_eq_zero (ch : Fin 2) (n : ℕ) {s : Ide AtaBus}
    (h : (s.dev.transfer ch).left = 0) :
    (idePoll (chBase ch) true n s).1 = -1 := by
  induction n generalizing s with
  | zero => rfl
  | succ n ih =>
    have hdrq : ∀ v : U8, v &&& ~~~ideStatusDrq &&& ideStatusDrq = 0 := fun v => by
      rw [BitVec.and_assoc]
      exact BitVec.and_zero
    simp only [idePoll, inb_status, if_pos h, if_true]
    split_ifs with hbusy herr hready
    · exact ih h
    · rfl
    · exact absurd (hdrq _) hready
    · exact ih h

/-! ## The data port -/

variable {t : Transfer}

theorem Transfer.advance_of_lt (h : t.word.val + 1 < 256) :
    t.advance = { t with word := ⟨t.word.val + 1, h⟩ } := dif_pos h

theorem Transfer.advance_of_not_lt (h : ¬ t.word.val + 1 < 256) : t.advance =
    t.nextSector := dif_neg h

theorem inData_of_reading (ht : d.transfer ch = t) (hread : t.write = false) (hleft : t.left ≠ 0) :
    d.inData ch = (d.disk ch t.unit t.sector t.word,
      { d with transfer := Function.update d.transfer ch t.advance }) := by
  subst ht
  exact if_neg (by simp [hread, hleft])

/-- A word of a sector, not the last one. -/
theorem outData_of_lt (ht : d.transfer ch = t) (hwrite : t.write = true) (hleft : t.left ≠ 0)
    (hword : t.word.val + 1 < 256) (v : U16) :
    d.outData ch v = { d with
      transfer := Function.update d.transfer ch
        { t with
          block := Function.update t.block t.word v
          word := ⟨t.word.val + 1, hword⟩ } } := by
  subst ht
  refine (if_neg (by simp [hwrite, hleft])).trans ?_
  rw [if_pos hword, Transfer.advance, dif_pos hword]

/-- The last word of a sector. -/
theorem outData_last (ht : d.transfer ch = t) (hwrite : t.write = true) (hleft : t.left ≠ 0)
    (hword : ¬ t.word.val + 1 < 256) (v : U16) :
    d.outData ch v = { d with
      transfer := Function.update d.transfer ch
        { t.nextSector with block := Function.update t.block t.word v }
      disk := Function.update d.disk ch (Function.update (d.disk ch) t.unit
        (Function.update (d.disk ch t.unit) t.sector (Function.update t.block t.word v))) } := by
  subst ht
  refine (if_neg (by simp [hwrite, hleft])).trans ?_
  rw [if_neg hword, Transfer.advance, dif_neg hword]
  rfl

/-- **A sector read**: the words from `t.word` on go to the buffer. -/
theorem readWords_spec (n k : ℕ) (buf : Buffer) (ht : d.transfer ch = t)
    (hread : t.write = false) (hleft : t.left ≠ 0) (hn : t.word.val + (n + 1) = 256) :
    readWords (chBase ch) (n + 1) k buf d =
      (fun x => if h : k ≤ x ∧ x < k + (n + 1) then
          d.disk ch t.unit t.sector ⟨t.word.val + (x - k), by omega⟩ else buf x,
        { d with transfer := Function.update d.transfer ch t.nextSector }) := by
  induction n generalizing k buf d t with
  | zero =>
    -- the last word of the sector: the device goes on to the next one
    have hword : ¬ t.word.val + 1 < 256 := by omega
    simp only [readWords, inw_data, inData_of_reading ht hread hleft,
      Transfer.advance_of_not_lt hword]
    congr 1
    funext x
    by_cases hx : x = k
    · subst hx
      rw [Function.update_self, dif_pos ⟨le_rfl, by omega⟩]
      congr 1
      exact Fin.ext (by simp)
    · rw [Function.update_of_ne hx, dif_neg (by omega)]
  | succ n ih =>
    -- one word, then the others in the transfer that has moved on by one
    have hword : t.word.val + 1 < 256 := by omega
    rw [readWords, inw_data, inData_of_reading ht hread hleft, Transfer.advance_of_lt hword]
    dsimp only
    rw [ih (t := { t with word := ⟨t.word.val + 1, hword⟩ }) (k + 1) _
      (Function.update_self ..) hread
      hleft (by simp only; omega)]
    rw [Function.update_idem]
    congr 1
    funext x
    dsimp only
    by_cases hx : x = k
    · subst hx
      rw [dif_neg (by omega), Function.update_self, dif_pos ⟨le_rfl, by omega⟩]
      congr 1
      exact Fin.ext (by simp)
    by_cases hin : k + 1 ≤ x ∧ x < k + 1 + (n + 1)
    · rw [dif_pos hin, dif_pos (by omega)]
      congr 1
      exact Fin.ext (by simp only; omega)
    · rw [dif_neg hin, dif_neg (by omega), Function.update_of_ne hx]

/-- The block with its last word written. -/
theorem update_block_last (hword : ¬ t.word.val + 1 < 256) (buf : Buffer) (k : ℕ) :
    Function.update t.block t.word (buf k) = fun j : Fin 256 =>
      if t.word.val ≤ j.val then buf (k + (j.val - t.word.val)) else t.block j := by
  funext j
  by_cases hj : j = t.word
  · subst hj
    rw [Function.update_self, if_pos le_rfl, Nat.sub_self, Nat.add_zero]
  · have hne : j.val ≠ t.word.val := fun h => hj (Fin.ext h)
    rw [Function.update_of_ne hj, if_neg (by omega)]

/-- The block with a word written and then the words behind it. -/
theorem update_block_next (t : Transfer) (buf : Buffer) (k : ℕ) :
    (fun j : Fin 256 => if t.word.val + 1 ≤ j.val then buf (k + 1 + (j.val - (t.word.val + 1)))
        else Function.update t.block t.word (buf k) j) =
      fun j => if t.word.val ≤ j.val then buf (k + (j.val - t.word.val)) else t.block j := by
  funext j
  by_cases hj : j = t.word
  · subst hj
    rw [if_neg (by omega), Function.update_self, if_pos le_rfl, Nat.sub_self, Nat.add_zero]
  · have hne : j.val ≠ t.word.val := fun h => hj (Fin.ext h)
    rw [Function.update_of_ne hj]
    split_ifs
    · congr 1
      omega
    · omega
    · omega
    · rfl

/-- **A sector written**: the words from `t.word` on come from the buffer, and with the last one the
sector is replaced. -/
theorem writeWords_spec (n k : ℕ) (buf : Buffer) (ht : d.transfer ch = t)
    (hwrite : t.write = true) (hleft : t.left ≠ 0) (hn : t.word.val + (n + 1) = 256) :
    writeWords (chBase ch) (n + 1) k buf d =
      let block : Sector := fun j =>
        if t.word.val ≤ j.val then buf (k + (j.val - t.word.val)) else t.block j
      { d with
        transfer := Function.update d.transfer ch { t.nextSector with block := block }
        disk := Function.update d.disk ch (Function.update (d.disk ch) t.unit
          (Function.update (d.disk ch t.unit) t.sector block)) } := by
  induction n generalizing k d t with
  | zero =>
    have hword : ¬ t.word.val + 1 < 256 := by omega
    simp only [writeWords, outw_data, ← update_block_last hword]
    exact outData_last ht hwrite hleft hword (buf k)
  | succ n ih =>
    -- one word into the block, then the others
    have hword : t.word.val + 1 < 256 := by omega
    rw [writeWords, outw_data, outData_of_lt ht hwrite hleft hword,
      ih (t := { t with block := Function.update t.block t.word (buf k)
                        word := ⟨t.word.val + 1, hword⟩ })
        (k + 1) (Function.update_self ..) hwrite hleft (by simp only; omega)]
    dsimp only
    rw [update_block_next, Function.update_idem]
    rfl

/-! ## The loop over the sectors -/

/-- Only the status was read: everything a transfer depends on is as before. -/
theorem Polled.fields {d d' : AtaBus} (h : Polled d d') :
    d'.transfer = d.transfer ∧ d'.disk = d.disk ∧ d'.status = d.status ∧
      d'.commands = d.commands := by
  obtain ⟨k, rfl⟩ := h
  exact ⟨rfl, rfl, rfl, rfl⟩

/-- A poll succeeds only if a sector is pending. -/
theorem left_ne_zero_of_ready {s : Ide AtaBus} (ht : s.dev.transfer ch = t)
    (h : (ideWaitReadyImpl (chBase ch) 1000000 s).1 = 0) : t.left ≠ 0 := by
  intro hleft
  have hfail := idePoll_of_left_eq_zero ch 1000000 (s := s) (by rw [ht, hleft])
  rw [ideWaitReadyImpl, hfail] at h
  cases h

variable {s : Ide AtaBus} {n i : ℕ} {buf : Buffer}

/-- **One sector read**: its words go to their place in the buffer. -/
theorem exists_round_read (n i : ℕ) (buf : Buffer) (ht : s.dev.transfer ch = t)
    (hread : t.write = false) (hword : t.word = 0)
    (hready : (ideWaitReadyImpl (chBase ch) 1000000 s).1 = 0) :
    ∃ s₁ buf₁, transferSectors (chBase ch) false (n + 1) i buf s =
        transferSectors (chBase ch) false n (i + 1) buf₁ s₁ ∧
      s₁.dev.transfer ch = t.nextSector ∧ s₁.dev.disk = s.dev.disk ∧ s₁.dev.status = s.dev.status ∧
      ∀ x, buf₁ x = if h : i * 256 ≤ x ∧ x < i * 256 + 256 then
        s.dev.disk ch t.unit t.sector ⟨x - i * 256, by omega⟩ else buf x := by
  have hleft := left_ne_zero_of_ready ht hready
  have hpolled : Polled s.dev (ideWaitReadyImpl (chBase ch) 1000000 s).2.dev := polled_idePoll _ _ s
  rw [transferSectors_read hready]
  generalize (ideWaitReadyImpl (chBase ch) 1000000 s).2 = s' at hpolled
  obtain ⟨htransfer, hdisk, hstatus, -⟩ := hpolled.fields
  -- the 256th word ends the sector
  have hwords := readWords_spec 255 (i * 256) buf ((congrFun htransfer ch).trans ht) hread hleft
    (by rw [hword]; rfl)
  obtain ⟨hwt, hwd, hws, -⟩ := (polled_ideWait400ns
    { s'.dev with transfer := Function.update s'.dev.transfer ch t.nextSector } (chBase ch)).fields
  refine ⟨_, _, rfl, ?_⟩
  rw [hwords]
  refine ⟨(congrFun hwt ch).trans (Function.update_self ..), hwd.trans hdisk, hws.trans hstatus,
    ?_⟩
  intro x
  by_cases hx : i * 256 ≤ x ∧ x < i * 256 + 256
  · rw [dif_pos hx]
    refine (dif_pos hx).trans ?_
    rw [hdisk]
    exact congrArg _ (Fin.ext (by simp [hword]))
  · rw [dif_neg hx]
    exact dif_neg hx

/-- **One sector written**: it is replaced by its words in the buffer, and no
other sector changes. -/
theorem exists_round_write (n i : ℕ) (buf : Buffer) (ht : s.dev.transfer ch = t)
    (hwrite : t.write = true) (hword : t.word = 0)
    (hready : (ideWaitReadyImpl (chBase ch) 1000000 s).1 = 0) :
    ∃ s₁ block, transferSectors (chBase ch) true (n + 1) i buf s =
        transferSectors (chBase ch) true n (i + 1) buf s₁ ∧
      s₁.dev.transfer ch = { t.nextSector with block := block } ∧ s₁.dev.status = s.dev.status ∧
      s₁.dev.disk = Function.update s.dev.disk ch (Function.update (s.dev.disk ch) t.unit
        (Function.update (s.dev.disk ch t.unit) t.sector fun j => buf (i * 256 + j.val))) := by
  have hleft := left_ne_zero_of_ready ht hready
  have hpolled : Polled s.dev (ideWaitReadyImpl (chBase ch) 1000000 s).2.dev := polled_idePoll _ _ s
  rw [transferSectors_write hready]
  generalize (ideWaitReadyImpl (chBase ch) 1000000 s).2 = s' at hpolled
  obtain ⟨htransfer, hdisk, hstatus, -⟩ := hpolled.fields
  have hwords := writeWords_spec 255 (i * 256) buf ((congrFun htransfer ch).trans ht) hwrite hleft
    (by rw [hword]; rfl)
  -- the sector is written from its first word on, so that nothing of the old block is left
  have hblock : (fun j : Fin 256 => if t.word.val ≤ j.val then buf (i * 256 + (j.val - t.word.val))
      else t.block j) = fun j => buf (i * 256 + j.val) := by
    funext j
    rw [hword]
    exact if_pos (Nat.zero_le _)
  dsimp only at hwords
  rw [hblock, hdisk] at hwords
  obtain ⟨hwt, hwd, hws, -⟩ :=
    (polled_ideWait400ns (writeWords (chBase ch) 256 (i * 256) buf s'.dev)
    (chBase ch)).fields
  rw [hwords] at hwt hwd hws
  refine ⟨_, fun j => buf (i * 256 + j.val), rfl, ?_⟩
  rw [hwords]
  exact ⟨(congrFun hwt ch).trans (Function.update_self ..), hws.trans hstatus, hwd⟩

/-- The words of the first sector, and those of the sectors behind it. -/
theorem words_of_sectors (disk : Disk) (sector : BitVec 28) (buf : Buffer) (n i x : ℕ) :
    (if 256 * (i + 1) ≤ x ∧ x < 256 * (i + 1 + n) then
      disk (sector + 1 + BitVec.ofNat 28 (x / 256 - (i + 1))) ⟨x % 256, Nat.mod_lt _ (by decide)⟩
    else if h : i * 256 ≤ x ∧ x < i * 256 + 256 then disk sector ⟨x - i * 256, by omega⟩
    else buf x) =
      if 256 * i ≤ x ∧ x < 256 * (i + (n + 1)) then
        disk (sector + BitVec.ofNat 28 (x / 256 - i)) ⟨x % 256, Nat.mod_lt _ (by decide)⟩
      else buf x := by
  by_cases hin : 256 * (i + 1) ≤ x ∧ x < 256 * (i + 1 + n)
  · -- a word of a later sector
    have hin' : 256 * i ≤ x ∧ x < 256 * (i + (n + 1)) := by omega
    have hsplit : x / 256 - i = 1 + (x / 256 - (i + 1)) := by omega
    rw [if_pos hin, if_pos hin', hsplit, BitVec.ofNat_add, ← BitVec.add_assoc]
    rfl
  · rw [if_neg hin]
    by_cases hfirst : i * 256 ≤ x ∧ x < i * 256 + 256
    · -- a word of the first sector
      have hin' : 256 * i ≤ x ∧ x < 256 * (i + (n + 1)) := by omega
      have hsector : x / 256 - i = 0 := by omega
      have hmod : x - i * 256 = x % 256 := by omega
      rw [dif_pos hfirst, if_pos hin', hsector, BitVec.add_zero]
      exact congrArg _ (Fin.ext hmod)
    · have hout : ¬ (256 * i ≤ x ∧ x < 256 * (i + (n + 1))) := by omega
      rw [dif_neg hfirst, if_neg hout]

/-- **A read that comes back with 0** had all its sectors pending, and each went to its place in the
buffer. -/
theorem transferSectors_read_spec (ht : s.dev.transfer ch = t) (hread : t.write = false)
    (hword : t.word = 0) (h : (transferSectors (chBase ch) false n i buf s).1 = 0) :
    n ≤ t.left ∧ (transferSectors (chBase ch) false n i buf s).2.2.dev.disk = s.dev.disk ∧
      ∀ x, (transferSectors (chBase ch) false n i buf s).2.1 x =
        if 256 * i ≤ x ∧ x < 256 * (i + n) then
          s.dev.disk ch t.unit (t.sector + BitVec.ofNat 28 (x / 256 - i))
            ⟨x % 256, Nat.mod_lt _ (by decide)⟩
        else buf x := by
  induction n generalizing i buf s t with
  | zero =>
    refine ⟨Nat.zero_le _, rfl, ?_⟩
    intro x
    rw [if_neg (by omega)]
    rfl
  | succ n ih =>
    by_cases hready : (ideWaitReadyImpl (chBase ch) 1000000 s).1 = 0
    · have hleft := left_ne_zero_of_ready ht hready
      obtain ⟨s₁, buf₁, heq, ht₁, hdisk, -, hbuf₁⟩ := exists_round_read n i buf
        ht hread hword hready
      rw [heq] at h ⊢
      obtain ⟨hn, hd, hbuf⟩ := ih ht₁ hread rfl h
      refine ⟨?_, hd.trans hdisk, ?_⟩
      · have : n ≤ t.left - 1 := hn
        omega
      · intro x
        rw [hbuf x, hdisk, hbuf₁ x]
        exact words_of_sectors (s.dev.disk ch t.unit) t.sector buf n i x
    · -- a drive that is not ready ends the request with -1
      rw [transferSectors_of_not_ready hready] at h
      cases h

/-- The disks after one sector is written. -/
theorem update_sector_apply (disk : Fin 2 → Fin 2 → Disk) (ch unit : Fin 2) (sector : BitVec 28)
    (block : Sector) (c u : Fin 2) (x : BitVec 28) :
    Function.update disk ch (Function.update (disk ch) unit
        (Function.update (disk ch unit) sector block)) c u x =
      if c = ch ∧ u = unit ∧ x = sector then block else disk c u x := by
  by_cases hc : c = ch
  · subst hc
    rw [Function.update_self]
    by_cases hu : u = unit
    · subst hu
      rw [Function.update_self, Function.update_apply]
      exact if_congr (by simp) rfl rfl
    · rw [Function.update_of_ne hu, if_neg fun h => hu h.2.1]
  · rw [Function.update_of_ne hc, if_neg fun h => hc h.1]

/-- The sectors that later rounds write, and the first one, which no later round writes again. -/
theorem sectors_of_rounds (disk : Fin 2 → Fin 2 → Disk) (hn28 : n + 1 ≤ 2 ^ 28)
    {unit c u : Fin 2} {sector x : BitVec 28} :
    (if c = ch ∧ u = unit ∧ (x - (sector + 1)).toNat < n then
      fun j : Fin 256 => buf ((i + 1 + (x - (sector + 1)).toNat) * 256 + j.val)
    else if c = ch ∧ u = unit ∧ x = sector then fun j => buf (i * 256 + j.val)
    else disk c u x) =
      if c = ch ∧ u = unit ∧ (x - sector).toNat < n + 1 then
        fun j => buf ((i + (x - sector).toNat) * 256 + j.val)
      else disk c u x := by
  by_cases hcu : c = ch ∧ u = unit
  · obtain ⟨rfl, rfl⟩ := hcu
    by_cases hx : x = sector
    · subst hx
      have hlast : ¬ (x - (x + 1)).toNat < n := by bv_omega
      rw [if_neg fun hc => hlast hc.2.2, if_pos ⟨rfl, rfl, rfl⟩, if_pos ⟨rfl, rfl, by simp⟩,
        BitVec.sub_self]
      rfl
    · have hoff : (x - sector).toNat = (x - (sector + 1)).toNat + 1 := by bv_omega
      by_cases hin : (x - (sector + 1)).toNat < n
      · have hin' : (x - sector).toNat < n + 1 := by omega
        rw [if_pos ⟨rfl, rfl, hin⟩, if_pos ⟨rfl, rfl, hin'⟩, hoff, Nat.add_right_comm,
          Nat.add_assoc]
      · have hout : ¬ (x - sector).toNat < n + 1 := by omega
        rw [if_neg fun hc => hin hc.2.2, if_neg fun hc => hx hc.2.2,
          if_neg fun hc => hout hc.2.2]
  · -- another drive
    rw [if_neg fun hc => hcu ⟨hc.1, hc.2.1⟩, if_neg fun hc => hcu ⟨hc.1, hc.2.1⟩,
      if_neg fun hc => hcu ⟨hc.1, hc.2.1⟩]

/-- **A write that comes back with 0** had all its sectors pending, and exactly these were replaced
by the buffer. -/
theorem transferSectors_write_spec (hn28 : n ≤ 2 ^ 28) (ht : s.dev.transfer ch = t)
    (hwrite : t.write = true) (hword : t.word = 0)
    (h : (transferSectors (chBase ch) true n i buf s).1 = 0) :
    n ≤ t.left ∧ (transferSectors (chBase ch) true n i buf s).2.1 = buf ∧
      ∀ c u x, (transferSectors (chBase ch) true n i buf s).2.2.dev.disk c u x =
        if c = ch ∧ u = t.unit ∧ (x - t.sector).toNat < n then
          fun j => buf ((i + (x - t.sector).toNat) * 256 + j.val)
        else s.dev.disk c u x := by
  induction n generalizing i s t with
  | zero =>
    refine ⟨Nat.zero_le _, rfl, ?_⟩
    intro c u x
    rw [if_neg (by omega)]
    rfl
  | succ n ih =>
    by_cases hready : (ideWaitReadyImpl (chBase ch) 1000000 s).1 = 0
    · have hleft := left_ne_zero_of_ready ht hready
      obtain ⟨s₁, block, heq, ht₁, -, hdisk⟩ := exists_round_write n i buf
        ht hwrite hword hready
      rw [heq] at h ⊢
      obtain ⟨hn, hb, hd⟩ := ih (by omega) ht₁ hwrite rfl h
      refine ⟨?_, hb, ?_⟩
      · have : n ≤ t.left - 1 := hn
        omega
      · intro c u x
        rw [hd, hdisk, update_sector_apply]
        exact sectors_of_rounds s.dev.disk hn28
    · -- a drive that is not ready ends the request with -1
      rw [transferSectors_of_not_ready hready] at h
      cases h

/-! ## The command of a request -/

/-- The registers that a request writes. -/
def requestFile (sel : U8) (lba : U32) (count : U16) : TaskFile where
  features := 0
  sectorCount := count.setWidth 8
  lbaLow := (lba &&& 0xFF).setWidth 8
  lbaMid := ((lba >>> 8) &&& 0xFF).setWidth 8
  lbaHigh := ((lba >>> 16) &&& 0xFF).setWidth 8
  driveHead := 0xE0 ||| sel <<< 4 ||| ((lba >>> 24) &&& 0x0F).setWidth 8

/-- The command of a request. -/
def requestCommand (write : Bool) : U8 := if write then ideCmdWriteSectors else ideCmdReadSectors

variable {sel drive : U8} {lba : U32} {count : U16} {write : Bool}

theorem issueCommand_eq (d : AtaBus) (ch : Fin 2) :
    issueCommand (chBase ch) sel lba count write d = { d with
      taskFile := Function.update d.taskFile ch (requestFile sel lba count)
      transfer := Function.update d.transfer ch
        (startTransfer (requestFile sel lba count) (requestCommand write))
      commands := (ch, requestCommand write) :: d.commands } := by
  have h₁ : ∀ (d : AtaBus) v, outb d (chBase ch + 1) v = d.outReg ch 1 v := fun d v =>
      outb_reg d ch 1 v
  have h₂ : ∀ (d : AtaBus) v, outb d (chBase ch + 2) v = d.outReg ch 2 v := fun d v =>
      outb_reg d ch 2 v
  have h₃ : ∀ (d : AtaBus) v, outb d (chBase ch + 3) v = d.outReg ch 3 v := fun d v =>
      outb_reg d ch 3 v
  have h₄ : ∀ (d : AtaBus) v, outb d (chBase ch + 4) v = d.outReg ch 4 v := fun d v =>
      outb_reg d ch 4 v
  have h₅ : ∀ (d : AtaBus) v, outb d (chBase ch + 5) v = d.outReg ch 5 v := fun d v =>
      outb_reg d ch 5 v
  have h₆ : ∀ (d : AtaBus) v, outb d (chBase ch + 6) v = d.outReg ch 6 v := fun d v =>
      outb_reg d ch 6 v
  have h₇ : ∀ (d : AtaBus) v, outb d (chBase ch + 7) v = d.outReg ch 7 v := fun d v =>
      outb_reg d ch 7 v
  simp only [issueCommand, ideSelectDrive, h₁, h₂, h₃, h₄, h₅, h₆, h₇, AtaBus.outReg,
    Function.update_self, Function.update_idem]
  rfl

/-- The bits of the address, register by register. -/
theorem getLsbD_lba (t : TaskFile) (i : ℕ) : t.lba.getLsbD i =
    if i < 8 then t.lbaLow.getLsbD i
    else if i - 8 < 8 then t.lbaMid.getLsbD (i - 8)
    else if i - 8 - 8 < 8 then t.lbaHigh.getLsbD (i - 8 - 8)
    else (t.driveHead.setWidth 4).getLsbD (i - 8 - 8 - 8) := by
  have h : t.lba.getLsbD i =
      (t.driveHead.setWidth 4 ++ t.lbaHigh ++ t.lbaMid ++ t.lbaLow).getLsbD i := rfl
  rw [h, BitVec.getLsbD_append, BitVec.getLsbD_append, BitVec.getLsbD_append]

/-- **The address registers** get the low 28 bits of the address. -/
theorem lba_requestFile : (requestFile sel lba count).lba = lba.setWidth 28 := by
  apply BitVec.eq_of_getLsbD_eq
  intro i hi
  rw [getLsbD_lba]
  interval_cases i <;> simp [requestFile]

theorem driveBase_eq (drive : U8) : driveBase drive = chBase (driveChannel drive) := by
  rw [driveBase, driveChannel]
  split_ifs <;> rfl

theorem unit_requestFile : (requestFile (driveSel drive) lba count).unit = driveUnit drive := by
  have hbit : (requestFile (driveSel drive) lba count).driveHead.getLsbD 4 =
      (driveSel drive).getLsbD 0 := by
    simp [requestFile]
  rw [TaskFile.unit, hbit, driveSel, driveUnit]
  split_ifs <;> simp_all

/-- **The transfer of a request**: the low 28 bits of its address and the low 8 bits
of its count. -/
theorem startTransfer_request :
    startTransfer (requestFile (driveSel drive) lba count) (requestCommand write) =
      { write := write
        unit := driveUnit drive
        sector := lba.setWidth 28
        left := if count.setWidth 8 = (0 : U8) then 256 else (count.setWidth 8 : U8).toNat
        word := 0
        block := fun _ => 0 } := by
  have hwrite : decide (requestCommand write = ideCmdWriteSectors) = write := by
    cases write <;> decide
  have hcommand : requestCommand write = ideCmdReadSectors ∨
      requestCommand write = ideCmdWriteSectors := by
    cases write
    · exact .inl rfl
    · exact .inr rfl
  rw [startTransfer, hwrite, if_pos hcommand, unit_requestFile, lba_requestFile]
  rfl

/-- The number of sectors a request asks the device for. -/
theorem left_request_le : (if count.setWidth 8 = (0 : U8) then 256
    else (count.setWidth 8 : U8).toNat) ≤ 256 := by
  have := (count.setWidth 8 : U8).isLt
  split_ifs <;> omega

/-! ## Whole requests -/

/-- The state in which a request enters its loop. -/
def issued (s : Ide AtaBus) (drive : U8) (lba : U32) (count : U16) (write : Bool) : Ide AtaBus :=
  let d := issueCommand (driveBase drive) (driveSel drive) lba count write s.dev
  { s with dev := ideWait400ns (driveBase drive) d }

theorem issued_spec (s : Ide AtaBus) (drive : U8) (lba : U32) (count : U16) (write : Bool) :
    (issued s drive lba count write).dev.transfer (driveChannel drive) =
        { write := write
          unit := driveUnit drive
          sector := lba.setWidth 28
          left := if count.setWidth 8 = (0 : U8) then 256 else (count.setWidth 8 : U8).toNat
          word := 0
          block := fun _ => 0 } ∧
      (issued s drive lba count write).dev.disk = s.dev.disk ∧
      (issued s drive lba count write).dev.status = s.dev.status ∧
      (issued s drive lba count write).dev.commands =
        (driveChannel drive, requestCommand write) :: s.dev.commands := by
  obtain ⟨k, hk⟩ := polled_ideWait400ns
    (issueCommand (driveBase drive) (driveSel drive) lba count write s.dev) (driveBase drive)
  rw [driveBase_eq, issueCommand_eq] at hk
  rw [issued, driveBase_eq, issueCommand_eq, hk]
  exact ⟨(Function.update_self ..).trans startTransfer_request, rfl, rfl, rfl⟩

/-- A request to a drive that is there, for at least one sector. -/
theorem ideReadWriteSectors_eq (hcount : count ≠ 0) (hpresent : ¬ s.Absent drive) :
    ideReadWriteSectors s drive lba count buf write =
      let r := transferSectors (chBase (driveChannel drive)) write count.toNat 0 buf
        (issued s drive lba count write)
      if r.1 ≠ 0 then r
      else if write then
        (0, r.2.1, (ideWaitReadyImpl (chBase (driveChannel drive)) 1000000
          { r.2.2 with dev := outb r.2.2.dev (chBase (driveChannel drive) + 7) ideCmdFlush }).2)
      else (0, r.2.1, r.2.2) := by
  rw [ideReadWriteSectors, if_neg hcount]
  refine (if_neg hpresent).trans ?_
  rw [issued, driveBase_eq]

/-- A drive that is not there is refused. -/
theorem ideReadWriteSectors_of_absent (hcount : count ≠ 0) (habsent : s.Absent drive) :
    ideReadWriteSectors s drive lba count buf write = (-1, buf, s) := by
  rw [ideReadWriteSectors, if_neg hcount]
  exact if_pos habsent

theorem toNat_pos_of_ne_zero (hcount : count ≠ 0) : 0 < count.toNat :=
  Nat.pos_of_ne_zero fun h => hcount (BitVec.eq_of_toNat_eq h)

/-- **A read that returns 0**: at most 256 sectors were asked for, and they are those from the low
28 bits of the address on. -/
theorem ideReadSectors_spec (h : (ideReadSectors s drive lba count buf).1 = 0) :
    count.toNat ≤ 256 ∧ (ideReadSectors s drive lba count buf).2.2.dev.disk = s.dev.disk ∧
      ∀ x, (ideReadSectors s drive lba count buf).2.1 x =
        if x < 256 * count.toNat then
          s.dev.disk (driveChannel drive) (driveUnit drive)
            (lba.setWidth 28 + BitVec.ofNat 28 (x / 256)) ⟨x % 256, Nat.mod_lt _ (by decide)⟩
        else buf x := by
  rw [ideReadSectors] at h ⊢
  by_cases hcount : count = 0
  · subst hcount
    exact ⟨by decide, rfl, fun x => rfl⟩
  by_cases habsent : s.Absent drive
  · rw [ideReadWriteSectors_of_absent hcount habsent] at h
    cases h
  · rw [ideReadWriteSectors_eq hcount habsent] at h ⊢
    obtain ⟨htransfer, hdisk, -, -⟩ := issued_spec s drive lba count false
    dsimp only at h ⊢
    by_cases hret : (transferSectors (chBase (driveChannel drive)) false count.toNat 0 buf
        (issued s drive lba count false)).1 = 0
    · -- the loop returned 0, so that every sector was pending
      obtain ⟨hn, hd, hbuf⟩ := transferSectors_read_spec htransfer rfl rfl hret
      rw [if_neg (not_not.mpr hret)]
      refine ⟨hn.trans left_request_le, hd.trans hdisk, ?_⟩
      intro x
      refine (hbuf x).trans ?_
      rw [hdisk, Nat.zero_add, Nat.sub_zero]
      exact if_congr ⟨fun hx => hx.2, fun hx => ⟨Nat.zero_le _, hx⟩⟩ rfl rfl
    · rw [if_pos hret] at h
      exact absurd h hret

/-- **A write that returns 0**: at most 256 sectors were asked for, and exactly those from the low
28 bits of the address on were replaced by the buffer. -/
theorem ideWriteSectors_spec (h : (ideWriteSectors s drive lba count buf).1 = 0) :
    count.toNat ≤ 256 ∧ ∀ c u x, (ideWriteSectors s drive lba count buf).2.2.dev.disk c u x =
      if c = driveChannel drive ∧ u = driveUnit drive ∧
        (x - lba.setWidth 28).toNat < count.toNat then
        fun j => buf ((x - lba.setWidth 28).toNat * 256 + j.val)
      else s.dev.disk c u x := by
  rw [ideWriteSectors] at h ⊢
  by_cases hcount : count = 0
  · subst hcount
    refine ⟨by decide, ?_⟩
    intro c u x
    rw [if_neg fun hc => Nat.not_lt_zero _ hc.2.2]
    rfl
  by_cases habsent : s.Absent drive
  · rw [ideReadWriteSectors_of_absent hcount habsent] at h
    cases h
  · rw [ideReadWriteSectors_eq hcount habsent] at h ⊢
    obtain ⟨htransfer, hdisk, -, -⟩ := issued_spec s drive lba count true
    dsimp only at h ⊢
    by_cases hret : (transferSectors (chBase (driveChannel drive)) true count.toNat 0 buf
        (issued s drive lba count true)).1 = 0
    · have hcount28 : count.toNat ≤ 2 ^ 28 := count.isLt.le.trans (by decide)
      obtain ⟨hn, -, hd⟩ := transferSectors_write_spec hcount28 htransfer rfl rfl hret
      rw [if_neg (not_not.mpr hret), if_pos rfl]
      refine ⟨hn.trans left_request_le, ?_⟩
      -- the flush moves no data
      intro c u x
      have hflush := (polled_idePoll (chBase (driveChannel drive)) 1000000
        { (transferSectors (chBase (driveChannel drive)) true count.toNat 0 buf
            (issued s drive lba count true)).2.2 with
          dev := outb (transferSectors (chBase (driveChannel drive)) true count.toNat 0 buf
            (issued s drive lba count true)).2.2.dev (chBase (driveChannel drive) + 7)
              ideCmdFlush }).fields.2.1
      refine (congrFun (congrFun (congrFun hflush c) u) x).trans ?_
      have hout : ∀ d : AtaBus,
          (outb d (chBase (driveChannel drive) + 7) ideCmdFlush).disk = d.disk :=
        fun d => by rw [outb_command]
      rw [hout, hd c u x, hdisk]
      simp only [Nat.zero_add]
    · rw [if_pos hret] at h
      exact absurd h hret

theorem inw_fields (d : AtaBus) (port : U16) :
    (inw d port).2.commands = d.commands ∧ (inw d port).2.status = d.status := by
  simp only [inw]
  split
  · unfold AtaBus.inData
    dsimp only
    split <;> exact ⟨rfl, rfl⟩
  · exact ⟨rfl, rfl⟩

theorem outw_fields (d : AtaBus) (port v : U16) :
    (outw d port v).commands = d.commands ∧ (outw d port v).status = d.status := by
  simp only [outw]
  split
  · unfold AtaBus.outData
    dsimp only
    split <;> exact ⟨rfl, rfl⟩
  · exact ⟨rfl, rfl⟩

/-- The loop of a request sends no command, and the device will show what it would have shown. -/
theorem transferSectors_fields (base : U16) (write : Bool) (n i : ℕ) (buf : Buffer)
    (s : Ide AtaBus) :
    (transferSectors base write n i buf s).2.2.dev.commands = s.dev.commands ∧
      (transferSectors base write n i buf s).2.2.dev.status = s.dev.status :=
  transferSectors_keeps base (I := fun d : AtaBus => d.commands = s.dev.commands ∧
    d.status = s.dev.status)
    (fun d p _ h => ⟨(polled_inb d p).fields.2.2.2.trans h.1,
      (polled_inb d p).fields.2.2.1.trans h.2⟩)
    (fun d p _ h => ⟨(inw_fields d p).1.trans h.1, (inw_fields d p).2.trans h.2⟩)
    (fun d p v _ h => ⟨(outw_fields d p v).1.trans h.1, (outw_fields d p v).2.trans h.2⟩)
    write n i buf ⟨rfl, rfl⟩

/-- A request that enters its loop leaves its command behind. -/
theorem commands_ideReadWriteSectors (lba : U32) (buf : Buffer) (write : Bool) (hcount : count ≠ 0)
    (hpresent : ¬ s.Absent drive) :
    (driveChannel drive, requestCommand write) :: s.dev.commands <:+
      (ideReadWriteSectors s drive lba count buf write).2.2.dev.commands := by
  have hloop := (transferSectors_fields (chBase (driveChannel drive)) write count.toNat 0 buf
    (issued s drive lba count write)).1
  rw [(issued_spec s drive lba count write).2.2.2] at hloop
  rw [ideReadWriteSectors_eq hcount hpresent]
  dsimp only
  split_ifs
  · exact hloop ▸ List.suffix_rfl
  · rw [ideWaitReadyImpl, (polled_idePoll _ _ _).fields.2.2.2, outb_command]
    exact hloop ▸ List.suffix_cons _ _
  · exact hloop ▸ List.suffix_rfl

/-- A request leaves the device to show what it would have shown. -/
theorem status_ideReadWriteSectors (s : Ide AtaBus) (drive : U8) (lba : U32) (count : U16)
    (buf : Buffer) (write : Bool) :
    (ideReadWriteSectors s drive lba count buf write).2.2.dev.status = s.dev.status := by
  by_cases hcount : count = 0
  · rw [ideReadWriteSectors, if_pos hcount]
  by_cases habsent : s.Absent drive
  · rw [ideReadWriteSectors_of_absent hcount habsent]
  have hloop := (transferSectors_fields (chBase (driveChannel drive)) write count.toNat 0 buf
    (issued s drive lba count write)).2
  rw [(issued_spec s drive lba count write).2.2.1] at hloop
  rw [ideReadWriteSectors_eq hcount habsent]
  dsimp only
  split_ifs
  · exact hloop
  · rw [ideWaitReadyImpl, (polled_idePoll _ _ _).fields.2.2.1, outb_command]
    exact hloop
  · exact hloop

/-! ## A device that is always ready -/

/-- The status register shows DRQ at every read, as long as a sector is pending. -/
def AlwaysReady (d : AtaBus) : Prop := ∀ k, d.status k = ideStatusDrq

theorem AlwaysReady.after (h : AlwaysReady s.dev) :
    AlwaysReady (ideReadWriteSectors s drive lba count buf write).2.2.dev := fun k =>
  (congrFun (status_ideReadWriteSectors s drive lba count buf write) k).trans (h k)

theorem idePoll_of_alwaysReady {m : ℕ} (hready : AlwaysReady s.dev)
    (hleft : (s.dev.transfer ch).left ≠ 0) : (idePoll (chBase ch) true (m + 1) s).1 = 0 := by
  have hbusy : ¬ (ideStatusDrq &&& ideStatusBsy ≠ 0) := by decide
  have herr : ¬ (ideStatusDrq &&& ideStatusErr ≠ 0) := by decide
  have hdrq : ideStatusDrq &&& ideStatusDrq ≠ 0 := by decide
  simp only [idePoll, inb_status, if_neg hleft, hready s.dev.polls, if_neg hbusy, if_neg herr,
    if_pos hdrq, if_true]

/-- It serves every sector that was asked for. -/
theorem transferSectors_of_alwaysReady (i : ℕ) (buf : Buffer) (hready : AlwaysReady s.dev)
    (ht : s.dev.transfer ch = t) (hwrite : t.write = write) (hword : t.word = 0) (hn : n ≤ t.left) :
    (transferSectors (chBase ch) write n i buf s).1 = 0 := by
  induction n generalizing i buf s t with
  | zero => rfl
  | succ n ih =>
    have hleft : (s.dev.transfer ch).left ≠ 0 := by
      rw [ht]
      omega
    -- a sector is pending, so the poll succeeds at its first read of the status
    have hpoll : (ideWaitReadyImpl (chBase ch) 1000000 s).1 = 0 :=
      idePoll_of_alwaysReady (m := 999999) hready hleft
    have hrest : n ≤ t.nextSector.left := Nat.le_sub_one_of_lt hn
    cases write with
    | true =>
      obtain ⟨s₁, block, heq, ht₁, hstatus, -⟩ := exists_round_write n i buf
        ht hwrite hword hpoll
      rw [heq]
      exact ih _ _ (fun k => (congrFun hstatus k).trans (hready k)) ht₁ hwrite rfl hrest
    | false =>
      obtain ⟨s₁, buf₁, heq, ht₁, -, hstatus, -⟩ := exists_round_read n i buf
        ht hwrite hword hpoll
      rw [heq]
      exact ih _ _ (fun k => (congrFun hstatus k).trans (hready k)) ht₁ hwrite rfl hrest

/-- **A device that is always ready serves every request** for up to 256 sectors. -/
theorem ideReadWriteSectors_of_alwaysReady (hready : AlwaysReady s.dev)
    (hpresent : ¬ s.Absent drive)
    (hle : count.toNat ≤ 256) : (ideReadWriteSectors s drive lba count buf write).1 = 0 := by
  by_cases hcount : count = 0
  · subst hcount
    rfl
  obtain ⟨htransfer, -, hstatus, -⟩ := issued_spec s drive lba count write
  have hpos := toNat_pos_of_ne_zero hcount
  -- a count of 256 is sent as 0, which the device takes for 256
  have hn : count.toNat ≤
      if count.setWidth 8 = (0 : U8) then 256 else (count.setWidth 8 : U8).toNat := by
    split_ifs with h0
    · exact hle
    · have hne : (count.setWidth 8 : U8).toNat ≠ 0 := fun h => h0 (BitVec.eq_of_toNat_eq h)
      rw [BitVec.toNat_setWidth] at hne ⊢
      omega
  have hret := transferSectors_of_alwaysReady 0 buf
    (fun k => (congrFun hstatus k).trans (hready k)) htransfer rfl rfl hn
  rw [ideReadWriteSectors_eq hcount hpresent]
  dsimp only
  rw [if_neg (not_not.mpr hret)]
  split_ifs <;> rfl

/-- A machine with a drive whose sector `x` is filled with `x`. -/
def sampleIde : Ide AtaBus where
  dev :=
    { taskFile := fun _ =>
        { features := 0, sectorCount := 0, lbaLow := 0, lbaMid := 0, lbaHigh := 0, driveHead := 0 }
      transfer := fun _ => .idle
      disk := fun _ _ x _ => x.setWidth 16
      status := fun _ => ideStatusDrq
      error := fun _ => 0
      polls := 0
      commands := [] }
  primaryMaster := 1
  primarySlave := 0
  secondaryMaster := 0
  secondarySlave := 0
  lastStatus := 0
  lastError := 0

theorem present_sampleIde : sampleIde.Present 0 := .inl ⟨rfl, by decide⟩

/-! ## What a request should do -/

/-- The sectors of a drive. -/
def AtaBus.diskOf (d : AtaBus) (drive : U8) : Disk := d.disk (driveChannel drive) (driveUnit drive)

/-- A request that an LBA28 command can express: nothing, or up to 256 sectors below 2^28. -/
def Expressible (lba : U32) (count : U16) : Prop :=
  count = 0 ∨ count.toNat ≤ 256 ∧ lba.toNat + count.toNat ≤ 2 ^ 28

/-- **A read does what it should**: if it returns 0, the buffer holds the sectors asked for; a
request that cannot be expressed is refused, and no command is sent. -/
def ReadOk (s : Ide AtaBus) (drive : U8) (lba : U32) (count : U16) (buf : Buffer) : Prop :=
  let r := ideReadSectors s drive lba count buf
  (r.1 = 0 → ∀ i < count.toNat, lba.toNat + i < 2 ^ 28 ∧ ∀ j : Fin 256,
    r.2.1 (i * 256 + j.val) = s.dev.diskOf drive (BitVec.ofNat 28 (lba.toNat + i)) j) ∧
  (¬ Expressible lba count → r.1 = -1 ∧ r.2.2.dev.commands = s.dev.commands)

/-- **A write does what it should**: if it returns 0, exactly the sectors asked for were replaced by
the buffer; a request that cannot be expressed is refused, and no command is sent. -/
def WriteOk (s : Ide AtaBus) (drive : U8) (lba : U32) (count : U16) (buf : Buffer) : Prop :=
  let r := ideWriteSectors s drive lba count buf
  (r.1 = 0 → (∀ i < count.toNat, lba.toNat + i < 2 ^ 28 ∧
      r.2.2.dev.diskOf drive (BitVec.ofNat 28 (lba.toNat + i)) = fun j => buf (i * 256 + j.val)) ∧
    ∀ c u x, (¬ (c = driveChannel drive ∧ u = driveUnit drive ∧
        lba.toNat ≤ x.toNat ∧ x.toNat < lba.toNat + count.toNat)) →
      r.2.2.dev.disk c u x = s.dev.disk c u x) ∧
  (¬ Expressible lba count → r.1 = -1 ∧ r.2.2.dev.commands = s.dev.commands)

/-- The number of a sector asked for, when it can be expressed. -/
theorem setWidth_add_ofNat (lba : U32) (k : ℕ) :
    lba.setWidth 28 + BitVec.ofNat 28 k = BitVec.ofNat 28 (lba.toNat + k) := by
  refine BitVec.eq_of_toNat_eq ?_
  rw [BitVec.toNat_add, BitVec.toNat_setWidth, BitVec.toNat_ofNat, BitVec.toNat_ofNat,
    ← Nat.add_mod]

/-- A request that cannot be expressed is sent all the same. -/
theorem not_refused (hpresent : s.Present drive) (h : ¬ Expressible lba count) :
    (ideReadWriteSectors s drive lba count buf write).2.2.dev.commands ≠ s.dev.commands := by
  have hcount : count ≠ 0 := fun h0 => h (.inl h0)
  intro heq
  have hsuffix := (commands_ideReadWriteSectors lba buf write hcount
    hpresent.not_absent).length_le
  rw [heq, List.length_cons] at hsuffix
  omega

/-- A read does what it should exactly when the request can be expressed. -/
theorem readOk_iff (hpresent : s.Present drive) : ReadOk s drive lba count buf ↔
    Expressible lba count := by
  refine ⟨fun h => ?_, fun h => ⟨?_, fun hnot => absurd h hnot⟩⟩
  · -- a request that LBA28 cannot express is not refused
    by_contra hnot
    exact not_refused hpresent hnot (h.2 hnot).2
  · -- a sector read
    intro hret i hi
    obtain ⟨-, hend⟩ : count.toNat ≤ 256 ∧ lba.toNat + count.toNat ≤ 2 ^ 28 :=
      h.resolve_left fun h0 => by rw [h0] at hi; exact Nat.not_lt_zero _ hi
    obtain ⟨-, -, hbuf⟩ := ideReadSectors_spec hret
    refine ⟨by omega, ?_⟩
    intro j
    have hj := j.isLt
    have hdiv : (i * 256 + j.val) / 256 = i := by omega
    have hmod : (i * 256 + j.val) % 256 = j.val := by omega
    -- no sector number is truncated
    rw [hbuf, if_pos (by omega), setWidth_add_ofNat, hdiv]
    exact congrArg _ (Fin.ext hmod)

/-- So does a write. -/
theorem writeOk_iff (hpresent : s.Present drive) : WriteOk s drive lba count buf ↔
    Expressible lba count := by
  refine ⟨fun h => ?_, fun h => ⟨fun hret => ⟨?_, ?_⟩, fun hnot => absurd h hnot⟩⟩
  · by_contra hnot
    exact not_refused hpresent hnot (h.2 hnot).2
  · -- a sector written
    intro i hi
    obtain ⟨hle, hend⟩ : count.toNat ≤ 256 ∧ lba.toNat + count.toNat ≤ 2 ^ 28 :=
      h.resolve_left fun h0 => by rw [h0] at hi; exact Nat.not_lt_zero _ hi
    obtain ⟨-, hdisk⟩ := ideWriteSectors_spec hret
    have hoff : (BitVec.ofNat 28 (lba.toNat + i) - lba.setWidth 28).toNat = i := by
      rw [← setWidth_add_ofNat, BitVec.add_comm, BitVec.add_sub_cancel, BitVec.toNat_ofNat,
        Nat.mod_eq_of_lt (by omega)]
    refine ⟨by omega, ?_⟩
    rw [AtaBus.diskOf, hdisk, hoff, if_pos ⟨rfl, rfl, hi⟩]
  · -- a sector not asked for
    intro c u x hx
    obtain ⟨-, hdisk⟩ := ideWriteSectors_spec hret
    rw [hdisk, if_neg]
    rintro ⟨rfl, rfl, hlt⟩
    rcases h with rfl | ⟨hle, hend⟩
    · exact Nat.not_lt_zero _ hlt
    · have hlba : (lba.setWidth 28 : BitVec 28).toNat = lba.toNat := by
        rw [BitVec.toNat_setWidth, Nat.mod_eq_of_lt (by omega)]
      refine hx ⟨rfl, rfl, ?_⟩
      have hxlt := x.isLt
      rw [BitVec.toNat_sub, hlba] at hlt
      omega

/-- **Requests, exactly.** For every present drive, address, count, buffer and device behaviour: a
read and a write do what they should if and only if the request can be expressed. -/
theorem ide_request_ok_iff (s : Ide AtaBus) (drive : U8) (hpresent : s.Present drive) (lba : U32)
    (count : U16) (buf : Buffer) :
    (ReadOk s drive lba count buf ↔ Expressible lba count) ∧
      (WriteOk s drive lba count buf ↔ Expressible lba count) :=
  ⟨readOk_iff hpresent, writeOk_iff hpresent⟩

/-- The theorem at sector 5 of the sample drive. -/
theorem ide_request_ok_sample : ReadOk sampleIde 0 5 1 (fun _ => 0) ∧
    WriteOk sampleIde 0 5 1 (fun _ => 7) :=
  have hexpressible : Expressible 5 1 := .inr (by decide)
  ⟨(ide_request_ok_iff sampleIde 0 present_sampleIde 5 1 fun _ => 0).1.mpr hexpressible,
    (ide_request_ok_iff sampleIde 0 present_sampleIde 5 1 fun _ => 7).2.mpr hexpressible⟩

/-- **Sector 2^28 is not refused**: the read returns 0 with the words of sector 0. -/
theorem read_beyond_lba28_is_redirected : sampleIde.Present 0 ∧
    (ideReadSectors sampleIde 0 0x10000000 1 fun _ => 7).1 = 0 ∧
    (ideReadSectors sampleIde 0 0x10000000 1 fun _ => 7).2.1 0 = sampleIde.dev.diskOf 0 0 0 ∧
    ¬ ReadOk sampleIde 0 0x10000000 1 fun _ => 7 := by
  have hret : (ideReadSectors sampleIde 0 0x10000000 1 fun _ => 7).1 = 0 :=
    ideReadWriteSectors_of_alwaysReady (fun _ => rfl) present_sampleIde.not_absent (by decide)
  refine ⟨present_sampleIde, hret, ?_, ?_⟩
  · rw [(ideReadSectors_spec hret).2.2, if_pos (by decide)]
    rfl
  · intro hok
    have hrefused := (hok.2 (by rintro (h | ⟨-, h⟩) <;> exact absurd h (by decide))).1
    rw [hret] at hrefused
    cases hrefused

/-- **The round trip.** For every drive, address, count and buffers, and whatever status the device
shows: if a write and then the read of the same request return 0, the words read are those written,
and every sector that the write command did not address is unchanged. -/
theorem ide_round_trip (s : Ide AtaBus) (drive : U8) (lba : U32) (count : U16) (a b : Buffer)
    (hwrite : (ideWriteSectors s drive lba count a).1 = 0)
    (hread : (ideReadSectors (ideWriteSectors s drive lba count a).2.2 drive lba count b).1 = 0) :
    (∀ k < count.toNat * 256,
      (ideReadSectors (ideWriteSectors s drive lba count a).2.2 drive lba count b).2.1 k = a k) ∧
    ∀ c u x, ¬ (c = driveChannel drive ∧ u = driveUnit drive ∧
        ∃ i < count.toNat, x = lba.setWidth 28 + BitVec.ofNat 28 i) →
      (ideReadSectors (ideWriteSectors s drive lba count a).2.2 drive lba count
        b).2.2.dev.disk c u x =
        s.dev.disk c u x := by
  obtain ⟨hle, hdisk⟩ := ideWriteSectors_spec hwrite
  obtain ⟨-, hsame, hbuf⟩ := ideReadSectors_spec hread
  constructor
  · -- word `k` is read from the sector that was written with it
    intro k hk
    have hoff : (lba.setWidth 28 + BitVec.ofNat 28
        (k / 256) - lba.setWidth 28).toNat = k / 256 := by
      rw [BitVec.add_comm, BitVec.add_sub_cancel, BitVec.toNat_ofNat, Nat.mod_eq_of_lt (by omega)]
    rw [hbuf, if_pos (by omega), hdisk, hoff, if_pos ⟨rfl, rfl, by omega⟩]
    exact congrArg a (by simp only; omega)
  · intro c u x hx
    rw [hsame, hdisk, if_neg]
    rintro ⟨rfl, rfl, hlt⟩
    refine hx ⟨rfl, rfl, _, hlt, ?_⟩
    rw [BitVec.ofNat_toNat, BitVec.setWidth_eq, BitVec.add_comm, BitVec.sub_add_cancel]

/-- The round trip goes through where the device is always ready. -/
theorem ideReadSectors_after_write_of_alwaysReady (s : Ide AtaBus) (drive : U8) (lba : U32)
    (count : U16) (a b : Buffer) (hready : AlwaysReady s.dev) (hpresent : s.Present drive)
    (hle : count.toNat ≤ 256) :
    (ideWriteSectors s drive lba count a).1 = 0 ∧
      (ideReadSectors (ideWriteSectors s drive lba count a).2.2 drive lba count b).1 = 0 :=
  ⟨ideReadWriteSectors_of_alwaysReady hready hpresent.not_absent hle,
    ideReadWriteSectors_of_alwaysReady hready.after
      (hpresent.after (answersOnly_ideReadWriteSectors s drive lba count a true)).not_absent hle⟩

/-- A sector's worth of the word 7. -/
def sevens : Buffer := fun _ => 7

/-- Three sectors, each word with its own number. -/
def numbered : Buffer := fun k => BitVec.ofNat 16 k

/-- The round trip of three sectors of the sample drive; the sector behind them keeps its words. -/
theorem ide_round_trip_sample : (ideWriteSectors sampleIde 0 5 3 numbered).1 = 0 ∧
    (ideReadSectors (ideWriteSectors sampleIde 0 5 3 numbered).2.2 0 5 3 sevens).2.1 700 = 700 ∧
    (ideReadSectors (ideWriteSectors sampleIde 0 5 3 numbered).2.2 0 5 3 sevens).2.2.dev.disk
      (driveChannel 0) (driveUnit 0) 8 = sampleIde.dev.disk (driveChannel 0) (driveUnit 0) 8 := by
  obtain ⟨hwrite, hread⟩ :=
    ideReadSectors_after_write_of_alwaysReady sampleIde 0 5 3 numbered sevens
    (fun _ => rfl) present_sampleIde (by decide)
  obtain ⟨hwords, hothers⟩ := ide_round_trip sampleIde 0 5 3 numbered sevens hwrite hread
  refine ⟨hwrite, hwords 700 (by decide), hothers _ _ 8 ?_⟩
  rintro ⟨-, -, i, hi, h8⟩
  have hi3 : i < 3 := hi
  interval_cases i <;> exact absurd h8 (by decide)

end OS44
