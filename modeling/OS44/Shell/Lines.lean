import Mathlib.Data.List.TakeWhile
import OS44.Shell.Leftover

/-! # The lines of the history (`shell.c`)

Every command builds its text with hand-counted `memcpy` lengths, and `add_to_history` then copies
80 bytes of it, whatever is in them. A stored line is drawn from its own row only if there is a NUL
among the 80: `Command.Fits` says when that is so for the lines of a command, and
`lines_end_in_their_rows` that a run of such commands keeps every stored line
terminated and every buffer in bounds. -/

namespace OS44

open Runs

section Invariant

variable {M D : Type}

/-! ## The invariant -/

/-- A NUL among the bytes `[start, 80)`. -/
def NulFrom (start : ℕ) (bytes : ℕ → U8) : Prop := ∃ j, start ≤ j ∧ j < 80 ∧ bytes j = 0

/-- A row of the history contains a NUL. -/
def Terminated (row : Fin 80 → U8) : Prop := ∃ j, row j = 0

/-- **No buffer was overrun and every stored line ends in its row.** -/
structure LinesOk (t : Terminal M D) : Prop where
  overran_eq : t.overran = false
  lines_le : t.historyLines ≤ 20
  terminated : ∀ i : Fin 20, i.val < t.historyLines → Terminated (t.terminalHistory i)

variable {t : Terminal M D} {str : ℕ → U8} {b : LocalBuf} {n k : ℕ}

theorem NulFrom.mono (h : NulFrom n str) (hle : k ≤ n) : NulFrom k str := by
  obtain ⟨j, hj, hlt, hnul⟩ := h
  exact ⟨j, hle.trans hj, hlt, hnul⟩

theorem NulFrom.terminated (h : NulFrom n str) : Terminated fun j => str j := by
  obtain ⟨j, -, hlt, hnul⟩ := h
  exact ⟨⟨j, hlt⟩, hnul⟩

/-- The loop that moves the rows up leaves terminated rows. -/
theorem terminated_shiftRows {rows : Fin 20 → Fin 80 → U8} (h : ∀ i, Terminated (rows i))
    (is : List ℕ) :
    ∀ i, Terminated (is.foldl shiftRow rows i) := by
  induction is generalizing rows with
  | nil => exact h
  | cons k is ih =>
    apply ih
    intro i
    unfold shiftRow
    split_ifs with hk
    · rw [Function.update_apply]
      split_ifs
      · exact h _
      · exact h i
    · exact h i

/-- **Storing a line** that contains a NUL in its first 80 bytes. -/
theorem LinesOk.addToHistory (h : LinesOk t) (hstr : NulFrom n str) :
    LinesOk (addToHistory t str) := by
  unfold OS44.addToHistory
  split_ifs with hroom
  · -- the line is stored in the first free row
    refine ⟨h.overran_eq, hroom, ?_⟩
    intro i hi
    dsimp only
    rw [Function.update_apply]
    split_ifs with hlast
    · exact hstr.terminated
    · refine h.terminated i ?_
      have hne : i.val ≠ t.historyLines := fun heq => hlast (Fin.ext heq)
      exact lt_of_le_of_ne (Nat.le_of_lt_succ hi) hne
  · -- the history is full: every row moves up and the line is stored in the last one
    have hall : ∀ i, Terminated (t.terminalHistory i) := fun i => h.terminated i (by omega)
    refine ⟨h.overran_eq, h.lines_le, ?_⟩
    intro i _
    dsimp only
    split_ifs
    · exact hstr.terminated
    · exact terminated_shiftRows hall _ i

/-- The invariant is about the history only. -/
theorem LinesOk.congr {t' : Terminal M D} (h : LinesOk t) (hoverran : t'.overran = t.overran)
    (hlines : t'.historyLines = t.historyLines) (hrows : t'.terminalHistory = t.terminalHistory) :
    LinesOk t' where
  overran_eq := hoverran.trans h.overran_eq
  lines_le := hlines.trans_le h.lines_le
  terminated i hi := hrows ▸ h.terminated i (hlines ▸ hi)

theorem LinesOk.withProcesses (h : LinesOk t) (processes : Processes M) :
    LinesOk { t with processes := processes } := h.congr rfl rfl rfl

theorem LinesOk.withIde (h : LinesOk t) (ide : Ide D) : LinesOk { t with ide := ide } :=
  h.congr rfl rfl rfl

theorem processes_addToHistory (t : Terminal M D) (str : ℕ → U8) :
    (OS44.addToHistory t str).processes = t.processes := by
  unfold OS44.addToHistory
  split_ifs <;> rfl

theorem ide_addToHistory (t : Terminal M D) (str : ℕ → U8) :
    (OS44.addToHistory t str).ide = t.ide := by
  unfold OS44.addToHistory
  split_ifs <;> rfl

theorem LinesOk.note (h : LinesOk t) (hb : b.overran = false) : LinesOk (t.note b) where
  overran_eq := by
    show (t.overran || b.overran) = false
    rw [h.overran_eq, hb]
    rfl
  lines_le := h.lines_le
  terminated := h.terminated

/-- A row that contains a NUL is drawn from its own bytes. -/
theorem LinesOk.rowString_eq (h : LinesOk t) (env : Environment) {i : ℕ} (hi : i < t.historyLines) :
    t.rowString env i = (t.row i).takeWhile (· ≠ 0) := by
  have hlt : i < 20 := hi.trans_le h.lines_le
  obtain ⟨j, hj⟩ := h.terminated ⟨i, hlt⟩ hi
  have hmem : (0 : U8) ∈ t.row i := by
    rw [Terminal.row, dif_pos hlt, List.mem_ofFn]
    exact ⟨j, hj⟩
  have hrange : List.range' i (20 - i) = i :: List.range' (i + 1) (20 - i - 1) := by
    rw [← Nat.sub_add_cancel (show 1 ≤ 20 - i by omega), List.range'_succ, Nat.add_sub_cancel]
  rw [Terminal.rowString, hrange, List.flatMap_cons, List.append_assoc, List.takeWhile_append,
    if_neg]
  -- taking the whole row would pass its NUL
  intro hall
  have hwhole := List.takeWhile_eq_self_iff.mp
    ((List.takeWhile_prefix _).eq_of_length hall) 0 hmem
  exact absurd hwhole (by decide)

end Invariant

/-! ## When the lines of a command end -/

/-- The text of a number ends within its 20 bytes, or the buffer it is copied into has a NUL behind
them. -/
def NumberEnds (val : U64) (start : ℕ) (bytes : ℕ → U8) : Prop :=
  val.toNat < 10 ^ 19 ∨ NulFrom start bytes

/-- The length of a line of `ideread`. -/
def readLineLength (lba : U32) (count : U16) (buf : Buffer) (i : ℕ) : ℕ :=
  4 + hexLength ((lba + BitVec.ofNat 32 (i / 512)).setWidth 64) + 2 + decLength
    (BitVec.ofNat 64 (i / 512)) +
    2 + ((List.range (min 16 (count.toNat * 512 - i))).map fun j =>
      hexLength ((bufferByte buf (i + j)).setWidth 64) + 1).sum

/-- **The lines of a command end within their 80 bytes**, in terms of its arguments, the processes
and drives it finds, and what the memory of its buffers held before: a response gets no terminator
unless it ends with a number. -/
def Command.Fits {M D : Type} [PortBus D] (env : Environment) (processes : Processes M)
    (ide : Ide D) :
    Command → Prop
  | .help => False
  | .info => True
  | .testmem => NulFrom 16 env.response
  | .spawn => True
  | .get pid =>
    match getProcByPid processes.procTable pid with
    | some i => NumberEnds (processes.procTable i).memSize 25 env.msg ∧
        NumberEnds (processes.procTable i).runTime 26 env.response
    | none => NulFrom 11 env.response
  | .pkill pid =>
    match getProcByPid processes.procTable pid with
    | some _ => NulFrom 10 env.response
    | none => NulFrom 11 env.response
  | .ideinfo => NulFrom 0 env.msg ∧ NulFrom 16 env.response
  | .ideread lba count =>
    let count := if 16 < count then 16 else count
    let r := ideReadSectors ide 0 lba count env.buf
    if r.1 = 0 then
      (∀ k < count.toNat * 32, readLineLength lba count r.2.1 (16 * k) < 80) ∧
        NulFrom 13 env.response
    else NulFrom 11 env.response
  | .ideident => NulFrom 0 env.msg ∧ NulFrom 13 env.response
  | .unknown => NulFrom 15 env.response

/-! ## One command -/

section Commands

variable {M D : Type} {t : Terminal M D} {env : Environment} {b : LocalBuf}
  {off n start : ℕ} {val : U64}

/-- A buffer was not overrun and ends within 80 bytes. -/
structure EndsInLine (b : LocalBuf) : Prop where
  overran_eq : b.overran = false
  nul : NulFrom 0 b.bytes

/-- What a command leaves for `execute_command` to store. -/
structure OutcomeOk (r : Outcome M D) : Prop where
  lines : LinesOk r.2
  response : EndsInLine r.1

/-- What lies behind a copy stays. -/
theorem NulFrom.copy (h : NulFrom start b.bytes) (hle : off + n ≤ start) (src : ℕ → U8) :
    NulFrom start (b.copy off src n).bytes := by
  obtain ⟨j, hj, hlt, hnul⟩ := h
  exact ⟨j, hj, hlt, (LocalBuf.bytes_copy_behind (hle.trans hj)).trans hnul⟩

theorem NumberEnds.copy (h : NumberEnds val start b.bytes) (hle : off + n ≤ start) (src : ℕ → U8) :
    NumberEnds val start (b.copy off src n).bytes :=
  h.imp_right fun hnul => hnul.copy hle src

/-- Copying the 20 bytes that hold the text of a number. -/
theorem NumberEnds.nul (h : NumberEnds val (off + 20) b.bytes) (hoff : off + 20 ≤ 80)
    (garbage : ℕ → U8) :
    NulFrom 0 (b.copy off ((LocalBuf.new 20 garbage).write (itoa val)).bytes 20).bytes := by
  rcases h with hval | hnul
  · obtain ⟨k, hk, hlen, hnul⟩ := exists_itoa_nul (by decide) hval
    refine ⟨off + k, Nat.zero_le _, by omega, ?_⟩
    rw [LocalBuf.bytes_copy_inside (Nat.le_add_right _ _) (by omega), Nat.add_sub_cancel_left]
    exact (LocalBuf.bytes_copy_inside (Nat.zero_le k) (by rwa [Nat.zero_add])).trans hnul
  · exact (hnul.copy le_rfl _).mono (Nat.zero_le _)

theorem overran_respond (hn : n ≤ 80) (str : String) : (respond env str n).overran = false :=
  LocalBuf.overran_copy (show 0 + n ≤ 80 by omega)

/-- A response that is a literal ends where the memory behind it has a NUL. -/
theorem respond_endsInLine (hn : n ≤ 80) (h : NulFrom n env.response) (str : String) :
    EndsInLine (respond env str n) where
  overran_eq := overran_respond hn str
  nul := by
    have hbehind : NulFrom n (LocalBuf.new 80 env.response).bytes := h
    exact (hbehind.copy (Nat.zero_add n).le _).mono (Nat.zero_le n)

/-- The bytes of a literal end with its terminator. -/
theorem nulFrom_literal {str : String} (h : (chars str).length < 80) :
    NulFrom 0 (literal env str) := by
  refine ⟨(chars str).length, Nat.zero_le _, h, ?_⟩
  unfold literal
  rw [if_neg (Nat.lt_irrefl _), if_pos rfl]

theorem nulFrom_fullPrompt (env : Environment) (cmdBuf : Fin 64 → U8) {cmdPos : ℕ}
    (h : cmdPos < 64) :
    NulFrom 0 (fullPrompt env cmdBuf cmdPos) := by
  refine ⟨12 + cmdPos, Nat.zero_le _, by omega, ?_⟩
  unfold fullPrompt
  rw [if_neg (by omega), if_neg (Nat.lt_irrefl _), if_pos (by omega)]

/-- A label of `n` characters and the text of a number behind it. -/
theorem labelled_endsInLine (hsize : b.size = 80) (hb : b.overran = false) (hn : n + 20 ≤ 80)
    (h : NumberEnds val (n + 20) b.bytes) (label garbage : ℕ → U8) :
    EndsInLine
      ((b.copy 0 label n).copy n ((LocalBuf.new 20 garbage).write (itoa val)).bytes 20) where
  overran_eq := by
    rw [LocalBuf.overran_copy, LocalBuf.overran_copy, hb]
    · omega
    · rw [LocalBuf.size_copy]
      omega
  nul := (h.copy (by omega) label).nul hn garbage

/-! ### The allocator and the processes -/

theorem pmmGetFreeFrames_le (s : Pmm) : pmmGetFreeFrames s ≤ 2 ^ 20 := by
  have hsub : s.freeFrames ⊆ Finset.range (2 ^ 20) := fun i hi =>
    Finset.mem_range.mpr (Pmm.lt_of_mem_freeFrames hi)
  rw [pmmGetFreeFrames_eq_card]
  exact (Finset.card_le_card hsub).trans_eq (Finset.card_range _)

variable [TableMemory M]

theorem runTestmem_ok (h : LinesOk t) (hend : NulFrom 16 env.response) {r : Outcome M D}
    (hr : runTestmem env t = some r) : OutcomeOk r := by
  have hfree : (BitVec.ofNat 64 (pmmGetFreeFrames t.processes.vmm.paging.pmm)).toNat < 10 ^ 19 := by
    have hle := pmmGetFreeFrames_le t.processes.vmm.paging.pmm
    rw [BitVec.toNat_ofNat]
    omega
  have hmsg := labelled_endsInLine (b := LocalBuf.new 80 env.msg) (n := 13) rfl rfl (by decide)
    (.inl hfree) (literal env "Free frames: ") env.framesStr
  have hresponse := respond_endsInLine (by decide) hend "Testmem complete"
  have hsuccess : NulFrom 0 (literal env "VMM test: Success") := nulFrom_literal (by decide)
  have hfailed : NulFrom 0 (literal env "VMM test: Failed") := nulFrom_literal (by decide)
  have hstored := h.addToHistory hmsg.nul
  -- the command is one of the two lines about the VMM behind the stored one
  simp only [runTestmem, Option.bind_eq_bind, Option.bind_eq_some_iff] at hr
  obtain ⟨alloc, -, hr⟩ := hr
  split_ifs at hr with hptr
  · obtain ⟨vmm, -, hr⟩ := Option.bind_eq_some_iff.mp hr
    cases hr
    refine ⟨LinesOk.note ?_ hmsg.overran_eq, hresponse⟩
    exact ((hstored.withProcesses _).addToHistory hsuccess).withProcesses _
  · cases hr
    refine ⟨LinesOk.note ?_ hmsg.overran_eq, hresponse⟩
    exact (hstored.withProcesses _).addToHistory hfailed

/-- `process_create` returns a pid within 1..17, or 0. -/
theorem processCreate_pid_le {s : Processes M} {entry stackSize : U64} {r : U64 × Processes M}
    (hr : processCreate s entry stackSize = some r) : r.1.toNat ≤ 17 := by
  unfold processCreate at hr
  split at hr
  · cases hr
    exact Nat.zero_le _
  · obtain ⟨pid, hpid, -, hle⟩ := lowestPid_spec s.procTable
    have hcard := card_taken_le s.procTable
    rw [hpid] at hr
    dsimp only at hr
    split at hr
    · cases hr
    · cases hr
      show pid.toNat ≤ 17
      omega

theorem runSpawn_ok (h : LinesOk t) {r : Outcome M D} (hr : runSpawn env t = some r) :
    OutcomeOk r := by
  simp only [runSpawn, Option.bind_eq_bind, Option.bind_eq_some_iff] at hr
  obtain ⟨created, hcreated, hr⟩ := hr
  have hpid : created.1.toNat < 10 ^ 19 := (processCreate_pid_le hcreated).trans_lt (by decide)
  cases hr
  exact ⟨h.withProcesses _, labelled_endsInLine rfl rfl (by decide) (.inl hpid) _ _⟩

omit [TableMemory M]

/-- The line with the status of a process. -/
theorem statusLine_endsInLine (env : Environment) (status : ℕ → U8) :
    EndsInLine (((LocalBuf.new 80 env.msg).copy 0 (literal env "PID status: ") 12).copy 12
      (((LocalBuf.new 20 env.statusStr).copy 0 status 7).set 7 0).bytes 8) where
  overran_eq := by
    rw [LocalBuf.overran_copy (show 12 + 8 ≤ 80 by decide),
      LocalBuf.overran_copy (show 0 + 12 ≤ 80 by decide)]
    rfl
  nul := by
    -- the terminator of the status is copied with it
    refine ⟨19, by decide, by decide, ?_⟩
    rw [LocalBuf.bytes_copy_inside (by decide) (by decide)]
    exact LocalBuf.bytes_set _ 7 0

theorem runGet_ok [PortBus D] (h : LinesOk t) {pid : U64}
    (hfits : (Command.get pid).Fits env t.processes t.ide) :
    OutcomeOk (runGet env pid t) := by
  unfold Command.Fits at hfits
  unfold runGet
  cases hi : getProcByPid t.processes.procTable pid with
  | none =>
    simp only [hi] at hfits ⊢
    exact ⟨h, respond_endsInLine (by decide) hfits _⟩
  | some i =>
    simp only [hi] at hfits ⊢
    obtain ⟨hmem, htime⟩ := hfits
    generalize (if (t.processes.procTable i).status = .running then literal env "RUNNING"
      else literal env "READY") = status
    have hstatus := statusLine_endsInLine env status
    -- the memory line is written over the status line
    have hbehind : NumberEnds (t.processes.procTable i).memSize 25
        (LocalBuf.new 80 env.msg).bytes := hmem
    have hmemLine := labelled_endsInLine (n := 5) rfl hstatus.overran_eq (by decide)
      ((hbehind.copy (by decide) _).copy (by decide) _) (literal env "Mem: ") env.memStr
    refine ⟨LinesOk.note ?_ hmemLine.overran_eq, labelled_endsInLine rfl rfl (by decide) htime _ _⟩
    exact (h.addToHistory hstatus.nul).addToHistory hmemLine.nul

theorem runPkill_ok [TableMemory M] [PortBus D] (h : LinesOk t) {pid : U64}
    (hfits : (Command.pkill pid).Fits env t.processes t.ide) {r : Outcome M D}
      (hr : runPkill env pid t = some r) :
    OutcomeOk r := by
  unfold Command.Fits at hfits
  unfold runPkill at hr
  cases hi : getProcByPid t.processes.procTable pid with
  | none =>
    simp only [hi] at hfits hr
    cases hr
    exact ⟨h, respond_endsInLine (by decide) hfits _⟩
  | some i =>
    simp only [hi] at hfits hr
    obtain ⟨processes, -, hr⟩ := Option.bind_eq_some_iff.mp hr
    cases hr
    exact ⟨h.withProcesses _, respond_endsInLine (by decide) hfits _⟩

/-! ### The drives -/

/-- **What is appended to `msg` is lost**: where `p` points is behind the capacity. -/
theorem not_room_msgCursor (env : Environment) (msg : LocalBuf) :
    ¬ (msgCursor env msg).2 + 1 < (256 : U64) := by
  have hge := env.msgAddr_ge
  have hle := env.msgAddr_le
  have hone : (1 : U64).toNat = 1 := rfl
  have hcap : (256 : U64).toNat = 256 := rfl
  show ¬ env.msgAddr + 1 < (256 : U64)
  rw [BitVec.lt_def, BitVec.toNat_add, hone, hcap]
  omega

theorem driveLine_eq (env : Environment) (name : String) (found : U8) (sectors : U32)
    (msg : LocalBuf) :
    driveLine env name found sectors msg = msg := by
  have hfull := not_room_msgCursor env msg
  unfold driveLine
  dsimp only
  split_ifs
  · rw [appendStr_of_full hfull, appendDec_of_full hfull]
    rfl
  · rw [appendStr_of_full hfull]
    rfl

theorem runIdeinfo_ok [PortBus D] (h : LinesOk t)
    (hfits : Command.ideinfo.Fits env t.processes t.ide) :
    OutcomeOk (runIdeinfo env t) := by
  obtain ⟨hmsg, hresponse⟩ := hfits
  have hnul : NulFrom 0 (LocalBuf.new 256 env.msg).bytes := hmsg
  have htitle := appendStr_of_full (not_room_msgCursor env (LocalBuf.new 256 env.msg))
    (chars "IDE Drive Info:\n")
  unfold runIdeinfo
  dsimp only
  simp only [htitle, driveLine_eq]
  refine ⟨LinesOk.note ?_ rfl, respond_endsInLine (by decide) hresponse _⟩
  exact ((((h.addToHistory hnul).addToHistory hnul).addToHistory hnul).addToHistory
    hnul).addToHistory hnul

theorem appends_appendBytes {p : Cursor} (hp : p.Ready 128) (buf : Buffer) (i n : ℕ) :
    Appends 128 ((List.range n).map fun j => hexLength
      ((bufferByte buf (i + j)).setWidth 64) + 1).sum p
      (appendBytes buf i n p) := by
  induction n with
  | zero => exact .refl hp 0
  | succ n ih =>
    have hhex := ih.trans (appends_appendHex (by decide) (ih.ready hp)
      ((bufferByte buf (i + n)).setWidth 64))
    have hspace := hhex.trans (appends_appendStr (hhex.ready hp) (chars " "))
    rw [List.range_succ, List.map_append, List.sum_append, List.map_singleton, List.sum_singleton,
      ← Nat.add_assoc]
    rw [appendBytes, List.range_succ, List.foldl_append]
    exact hspace

/-- The line buffer between two lines of `ideread`. -/
structure ReadingOk (r : Outcome M D) : Prop where
  lines : LinesOk r.2
  size_eq : r.1.size = 128
  overran_eq : r.1.overran = false

/-- **A line of `ideread` that is shorter than 80** ends in its row. -/
theorem readLine_spec {lba : U32} {count : U16} {buf : Buffer} {i : ℕ} {line : LocalBuf}
    (hsize : line.size = 128) (hover : line.overran = false)
      (hlen : readLineLength lba count buf i < 80) :
    (readLine lba count buf i line).size = 128 ∧ EndsInLine (readLine lba count buf i line) := by
  have hp₀ : Cursor.Ready 128 (line, 0) := ⟨hsize, show (0 : U64).toNat < 128 by decide⟩
  have h₁ := appends_appendStr hp₀ (chars "LBA+")
  have h₂ := h₁.trans (appends_appendHex (by decide) (h₁.ready hp₀)
    ((lba + BitVec.ofNat 32 (i / 512)).setWidth 64))
  have h₃ := h₂.trans (appends_appendStr (h₂.ready hp₀) (chars " +"))
  have h₄ := h₃.trans (appends_appendDec (h₃.ready hp₀) (BitVec.ofNat 64 (i / 512)))
  have h₅ := h₄.trans (appends_appendStr (h₄.ready hp₀) (chars ": "))
  have h₆ := h₅.trans (appends_appendBytes (h₅.ready hp₀) buf i (min 16 (count.toNat * 512 - i)))
  unfold readLine
  dsimp only
  -- the position is behind everything appended, and the terminator goes there
  generalize hp : appendBytes buf i (min 16 (count.toNat * 512 - i)) _ = p at h₆ ⊢
  have hlt : p.2.toNat < 128 := h₆.pos_lt
  have hle : p.2.toNat < 80 := lt_of_le_of_lt (h₆.pos_le.trans (Nat.zero_add _).le) hlen
  rw [if_pos (show p.2 < 128 from BitVec.lt_def.mpr hlt)]
  refine ⟨h₆.size_eq.trans hsize, ?_, p.2.toNat, Nat.zero_le _, hle, LocalBuf.bytes_set _ _ _⟩
  show (p.1.overran || decide (p.1.size ≤ p.2.toNat)) = false
  rw [h₆.overran_eq, h₆.size_eq, hover, hsize, decide_eq_false (by omega)]
  rfl

theorem readLines_ok {lba : U32} {count : U16} {buf : Buffer} {r : Outcome M D} (h : ReadingOk r)
    (hlen : ∀ k < count.toNat * 32, readLineLength lba count buf (16 * k) < 80) :
    ReadingOk (readLines lba count buf r) := by
  have hfold : ∀ ks : List ℕ, (∀ k ∈ ks, readLineLength lba count buf (16 * k) < 80) →
      ∀ r : Outcome M D, ReadingOk r → ReadingOk (ks.foldl (fun r k =>
        let line := readLine lba count buf (16 * k) r.1
        (line, addToHistory r.2 line.bytes)) r) := by
    intro ks
    induction ks with
    | nil => exact fun _ r hr => hr
    | cons k ks ih =>
      intro hks r hr
      obtain ⟨hsize, hends⟩ := readLine_spec hr.size_eq hr.overran_eq (hks k List.mem_cons_self)
      apply ih fun k hk => hks k (List.mem_cons_of_mem _ hk)
      exact ⟨hr.lines.addToHistory hends.nul, hsize, hends.overran_eq⟩
  exact hfold _ (fun k hk => hlen k (List.mem_range.mp hk)) r h

theorem runIderead_ok [PortBus D] (h : LinesOk t) {lba : U32} {count : U16}
    (hfits : (Command.ideread lba count).Fits env t.processes t.ide) :
      OutcomeOk (runIderead env lba count t) := by
  unfold Command.Fits at hfits
  unfold runIderead
  dsimp only at hfits ⊢
  generalize (if 16 < count then 16 else count) = count at hfits ⊢
  split_ifs at hfits ⊢ with hret
  · obtain ⟨hlen, hend⟩ := hfits
    have hreading := readLines_ok (r := (LocalBuf.new 128 env.line,
      { t with ide := (ideReadSectors t.ide 0 lba count env.buf).2.2 }))
        ⟨h.withIde _, rfl, rfl⟩ hlen
    exact ⟨hreading.lines.note hreading.overran_eq, respond_endsInLine (by decide) hend _⟩
  · exact ⟨h.withIde _, respond_endsInLine (by decide) hfits _⟩

theorem identLine_eq {append : Cursor → Cursor} {msg : LocalBuf}
    (happend : append (msgCursor env msg) = msgCursor env msg) (name : String) :
    identLine env name append msg = msg := by
  have hfull := not_room_msgCursor env msg
  rw [identLine, appendStr_of_full hfull, happend, appendStr_of_full hfull]
  rfl

/-- The lines of `ideident` are what `msg` held before. -/
theorem identLines_eq {identify : IdeIdentify} {msg : LocalBuf} :
    ∀ line ∈ identLines env identify, line msg = msg := by
  have hstr := fun str => appendStr_of_full (not_room_msgCursor env msg) str
  have hdec := fun value => appendDec_of_full (not_room_msgCursor env msg) value
  simp only [identLines, List.forall_mem_cons]
  exact ⟨identLine_eq (hstr _) _, identLine_eq (hstr _) _, identLine_eq (hstr _) _,
    identLine_eq (hdec _) _,
    identLine_eq (hdec _) _, identLine_eq (hdec _) _, identLine_eq (hdec _) _,
      identLine_eq (hdec _) _,
    fun _ h => absurd h List.not_mem_nil⟩

theorem runIdeident_ok [PortBus D] (h : LinesOk t)
    (hfits : Command.ideident.Fits env t.processes t.ide) :
    OutcomeOk (runIdeident env t) := by
  obtain ⟨hmsg, hresponse⟩ := hfits
  have hnul : NulFrom 0 (LocalBuf.new 256 env.msg).bytes := hmsg
  have htitle := appendStr_of_full (not_room_msgCursor env (LocalBuf.new 256 env.msg))
    (chars "IDENTIFY for drive 0:\n")
  have hfailed : NulFrom 0 (literal env "  Drive not present or IDENTIFY failed") :=
    nulFrom_literal (by decide)
  -- a line that leaves `msg` as it is stores the same bytes again
  have hfold : ∀ lines : List (LocalBuf → LocalBuf), ∀ msg : LocalBuf, NulFrom 0 msg.bytes →
      (∀ line ∈ lines, line msg = msg) → ∀ t : Terminal M D, LinesOk t → ∃ t', LinesOk t' ∧
        lines.foldl (fun r line =>
          let msg := line r.1
          (msg, addToHistory r.2 msg.bytes)) (msg, t) = (msg, t') := by
    intro lines msg hnul hlines
    induction lines with
    | nil => exact fun t ht => ⟨t, ht, rfl⟩
    | cons line lines ih =>
      intro t ht
      rw [List.foldl_cons]
      dsimp only
      rw [hlines line List.mem_cons_self]
      exact ih (fun line hline => hlines line (List.mem_cons_of_mem _ hline)) _
        (ht.addToHistory hnul)
  have ht := (h.withIde (ideIdentify t.ide 0 env.identify).2).addToHistory hnul
  unfold runIdeident
  dsimp only
  simp only [htitle]
  refine ⟨?_, respond_endsInLine (by decide) hresponse _⟩
  split_ifs with hconfig
  · exact (ht.addToHistory hfailed).note rfl
  · obtain ⟨t', ht', heq⟩ := hfold _ _ hnul identLines_eq _ ht
    show LinesOk (Terminal.note (Prod.snd _) (Prod.fst _))
    rw [show (msgCursor env (LocalBuf.new 256 env.msg)).1 = LocalBuf.new 256 env.msg from rfl, heq]
    exact ht'.note rfl

/-- **A command that fits stores terminated lines** and stays in its buffers. -/
theorem runCommand_ok [TableMemory M] [PortBus D] (h : LinesOk t) {c : Command} (hinfo : c ≠ .info)
    (hfits : c.Fits env t.processes t.ide) {r : Outcome M D} (hr : runCommand env t c = some r) :
      OutcomeOk r := by
  cases c with
  | help => exact absurd hfits id
  | info => exact absurd rfl hinfo
  | testmem => exact runTestmem_ok h hfits hr
  | spawn => exact runSpawn_ok h hr
  | get pid => exact Option.some.inj hr ▸ runGet_ok h hfits
  | pkill pid => exact runPkill_ok h hfits hr
  | ideinfo => exact Option.some.inj hr ▸ runIdeinfo_ok h hfits
  | ideread lba count => exact Option.some.inj hr ▸ runIderead_ok h hfits
  | ideident => exact Option.some.inj hr ▸ runIdeident_ok h hfits
  | unknown => exact Option.some.inj hr ▸ ⟨h, respond_endsInLine (by decide) hfits _⟩

end Commands

/-! ## Runs -/

section Keys

variable {M D : Type}

/-- A key, and what it finds: the stack, and the processes, the allocator and the
drives in any state. -/
structure Key (M D : Type) where
  c : U8
  env : Environment
  processes : Processes M
  ide : Ide D
  sectors : DriveSectors

/-- The state that the key finds. -/
def Shell.foundBy (s : Shell M D) (k : Key M D) : Shell M D :=
  { s with
    terminal := { s.terminal with processes := k.processes, ide := k.ide, sectors := k.sectors } }

/-- The key is Enter and runs a command. -/
def RunsCommand (s : Shell M D) (k : Key M D) (c : Command) : Prop :=
  (k.c = 10 ∨ k.c = 13) ∧ s.cmdPos ≠ 0 ∧ enteredCommand s = some c

/-- The key does not run `info`. -/
def NotInfo (s : Shell M D) (k : Key M D) : Prop := ¬ RunsCommand s k .info

variable [PortBus D]

/-- A command that the key runs fits. -/
def KeyFits (s : Shell M D) (k : Key M D) : Prop :=
  ∀ c, RunsCommand s k c → c.Fits k.env k.processes k.ide

variable [TableMemory M]

/-- `shell_putc` for a key. -/
def pressKey (s : Shell M D) (k : Key M D) : Option (Shell M D) := shellPutc k.env (s.foundBy k) k.c

variable {env : Environment} {s s' : Shell M D}

theorem executeCommand_ok (h : LinesOk s.terminal)
    (hcommand : s.cmdPos ≠ 0 → ∀ c, enteredCommand s = some c →
      c ≠ .info ∧ c.Fits env s.terminal.processes s.terminal.ide)
    (hs' : executeCommand env s = some s') : LinesOk s'.terminal := by
  unfold executeCommand at hs'
  split_ifs at hs' with h0 hfull
  · cases hs'
    exact h
  · simp only [Option.bind_eq_bind, Option.bind_eq_some_iff] at hs'
    obtain ⟨c, hc, r, hr, hs'⟩ := hs'
    obtain ⟨hinfo, hfits⟩ := hcommand h0 c hc
    -- first the prompt with the command line, then the command, then its response
    have hprompt := h.addToHistory (nulFrom_fullPrompt env (terminateLine s.cmdBuf s.cmdPos)
      (Nat.lt_of_not_le hfull))
    rw [← processes_addToHistory s.terminal (fullPrompt env
      (terminateLine s.cmdBuf s.cmdPos) s.cmdPos),
      ← ide_addToHistory s.terminal (fullPrompt env
        (terminateLine s.cmdBuf s.cmdPos) s.cmdPos)] at hfits
    have hout := runCommand_ok hprompt hinfo hfits hr
    cases hs'
    exact ((hout.lines.note hout.response.overran_eq).addToHistory
      hout.response.nul).congr rfl rfl rfl

/-- **One key keeps the lines terminated.** -/
theorem LinesOk.pressKey {k : Key M D} (h : LinesOk s.terminal) (hinfo : NotInfo s k)
    (hfits : KeyFits s k)
    (hs' : pressKey s k = some s') : LinesOk s'.terminal := by
  have hfound : LinesOk (s.foundBy k).terminal := h.congr rfl rfl rfl
  unfold OS44.pressKey shellPutc at hs'
  split_ifs at hs' with hback hpos henter hroom
  · cases hs'
    exact hfound.congr rfl rfl rfl
  · cases hs'
    exact hfound
  · refine executeCommand_ok (s := s.foundBy k) hfound
      (fun h0 c hc => ⟨?_, hfits c ⟨henter, h0, hc⟩⟩) hs'
    rintro rfl
    exact hinfo ⟨henter, h0, hc⟩
  · cases hs'
    exact hfound.congr rfl rfl rfl
  · cases hs'
    exact hfound

/-- **The history and the buffers, over every run** of keys after `shell_init` whose commands fit,
for every state of the drives, the allocator and the processes each key finds: no response, `msg` or
`line` was overrun, and every stored line ends in its row and is drawn from there. -/
theorem lines_end_in_their_rows (s t : Shell M D) (keys : List (Key M D))
    (hs : s.terminal.overran = false) (hrun : run pressKey (shellInit s) keys = some t)
    (hinfo : AllSteps pressKey NotInfo (shellInit s) keys)
    (hfits : AllSteps pressKey KeyFits (shellInit s) keys) :
    LinesOk t.terminal ∧
      ∀ env i, i < t.terminal.historyLines →
        t.terminal.rowString env i = (t.terminal.row i).takeWhile (· ≠ 0) := by
  have hinit : LinesOk (shellInit s).terminal :=
    ⟨hs, Nat.zero_le _, fun i hi => absurd hi (Nat.not_lt_zero _)⟩
  have hstep : ∀ (s : Shell M D) (k : Key M D) (s' : Shell M D), LinesOk s.terminal →
      NotInfo s k ∧ KeyFits s k → pressKey s k = some s' → LinesOk s'.terminal :=
    fun s k s' h hk hs' => h.pressKey hk.1 hk.2 hs'
  have hok : (fun s : Shell M D => LinesOk s.terminal) t :=
      run_invariant hstep hinit (hinfo.and hfits) hrun
  exact ⟨hok, fun env i hi => hok.rowString_eq env hi⟩

end Keys

/-- A shell with nothing typed yet. -/
def sampleShell : Shell TableHeap AtaBus where
  cmdBuf := fun _ => 0
  cmdPos := 0
  terminal := sampleTerminal

/-- A key on a machine where nothing happens between two keys. -/
def sampleKey (c : U8) : Key TableHeap AtaBus where
  c := c
  env := sampleEnvironment
  processes := sampleProcesses
  ide := sampleIde
  sectors := sampleTerminal.sectors

/-- The line `x` is an unknown command. -/
theorem lines_end_in_their_rows_sample :
    ∃ t, run pressKey (shellInit sampleShell) [sampleKey 120, sampleKey 10] = some t ∧
      t.terminal.historyLines = 2 ∧ LinesOk t.terminal := by
  obtain ⟨t, ht, htwo⟩ : ∃ t, run pressKey (shellInit sampleShell)
    [sampleKey 120, sampleKey 10] = some t ∧
      t.terminal.historyLines = 2 := ⟨_, rfl, rfl⟩
  have htyped : ∀ s, pressKey (shellInit sampleShell) (sampleKey 120) = some s →
      enteredCommand s = some .unknown := by
    intro s hs
    cases hs
    decide +kernel
  have hchar : ∀ s : Shell TableHeap AtaBus, ∀ c, ¬ RunsCommand s (sampleKey 120) c :=
    fun s c h => absurd h.1 (by decide)
  have hinfo : AllSteps pressKey NotInfo (shellInit sampleShell) [sampleKey 120, sampleKey 10] := by
    refine ⟨hchar _ _, fun s hs => ⟨?_, fun _ _ => trivial⟩⟩
    intro h
    exact absurd ((htyped s hs).symm.trans h.2.2) (by decide)
  have hfits : AllSteps pressKey KeyFits (shellInit sampleShell) [sampleKey 120, sampleKey 10] := by
    refine ⟨fun c h => absurd h (hchar _ _), fun s hs => ⟨?_, fun _ _ => trivial⟩⟩
    intro c h
    obtain rfl := Option.some.inj ((htyped s hs).symm.trans h.2.2)
    exact ⟨15, le_rfl, by decide, rfl⟩
  exact ⟨t, ht, htwo, (lines_end_in_their_rows sampleShell t _ rfl ht hinfo hfits).1⟩

/-- **`help` writes 100 bytes into its response of 80**, and stores a line without a NUL. -/
theorem help_overruns_response :
    ∃ t, run pressKey (shellInit sampleShell) ((chars "help\n").map sampleKey) = some t ∧
      AllSteps pressKey NotInfo (shellInit sampleShell) ((chars "help\n").map sampleKey) ∧
      t.terminal.overran = true ∧
      ∃ i : Fin 20, i.val < t.terminal.historyLines ∧ ∀ j, t.terminal.terminalHistory i j ≠ 0 := by
  refine ⟨_, rfl, ?_, rfl, 1, by decide, by decide +kernel⟩
  refine ⟨fun h => absurd h.1 (by decide), ?_⟩
  intro s₁ h₁
  cases h₁
  refine ⟨fun h => absurd h.1 (by decide), ?_⟩
  intro s₂ h₂
  cases h₂
  refine ⟨fun h => absurd h.1 (by decide), ?_⟩
  intro s₃ h₃
  cases h₃
  refine ⟨fun h => absurd h.1 (by decide), ?_⟩
  intro s₄ h₄
  cases h₄
  refine ⟨?_, fun _ _ => trivial⟩
  intro h
  have hentered := h.2.2
  revert hentered
  decide +kernel

end OS44
