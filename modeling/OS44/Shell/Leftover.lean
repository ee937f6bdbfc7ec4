import OS44.Ide.Requests
import OS44.Process.Pids
import OS44.Shell.Shell

/-! # What earlier lines leave in `cmd_buf` (`shell.c`)

`cmd_buf` is never cleared: behind the line that was just typed lie bytes of earlier ones. Every
scan that starts inside the line stops at the terminator `execute_command` stores, but the arguments
of `get`, `pkill` and `ideread` are looked for one byte behind the name of the command, and a line
that is the bare name ends before that. -/

namespace OS44

/-! ## Scans stop at the terminator -/

section Scan

variable (P A B : List U8)

theorem strcmp_terminated (str : List U8) : strcmp (P ++ 0 :: A) str =
    strcmp (P ++ 0 :: B) str := by
  induction P generalizing str with
  | nil => cases str <;> simp [strcmp]
  | cons c P ih =>
    cases str with
    | nil => rfl
    | cons d str =>
      rw [List.cons_append, List.cons_append, strcmp, strcmp, ih str]

theorem atoiFrom_terminated (res : U64) : atoiFrom res (P ++ 0 :: A) =
    atoiFrom res (P ++ 0 :: B) := by
  induction P generalizing res with
  | nil => rfl
  | cons c P ih =>
    rw [List.cons_append, List.cons_append, atoiFrom, atoiFrom, ih]

theorem atoi_terminated : atoi (P ++ 0 :: A) = atoi (P ++ 0 :: B) := atoiFrom_terminated P A B 0

/-- The scan for a space ends in the line or at the terminator. -/
theorem exists_skipToSpace : ∃ Q, ∀ A, skipToSpace (P ++ 0 :: A) = some (Q ++ 0 :: A) := by
  induction P with
  | nil => exact ⟨[], fun A => rfl⟩
  | cons c P ih =>
    by_cases hc : c ≠ 0 ∧ c ≠ 32
    · obtain ⟨Q, hQ⟩ := ih
      refine ⟨Q, ?_⟩
      intro A
      rw [List.cons_append, skipToSpace, if_pos hc, hQ A]
    · refine ⟨c :: P, ?_⟩
      intro A
      rw [List.cons_append, skipToSpace, if_neg hc]

/-- A name without a NUL is at the start of the buffer iff it is at the start of the line. -/
theorem take_terminated {name : List U8} (hname : 0 ∉ name) :
    (P ++ 0 :: A).take name.length = name ↔ P.take name.length = name := by
  rcases Nat.lt_or_ge P.length name.length with hlt | hge
  · -- the line is shorter than the name, so that the terminator would be in the name
    have hmem : 0 ∈ (P ++ 0 :: A).take name.length := by
      rw [List.take_append, List.take_of_length_le hlt.le]
      obtain ⟨k, hk⟩ := Nat.exists_eq_add_of_lt hlt
      rw [hk, show P.length + k + 1 - P.length = k + 1 by omega]
      simp
    constructor
    · intro h
      exact absurd (h ▸ hmem) hname
    · intro h
      have := congrArg List.length h
      rw [List.length_take] at this
      omega
  · rw [List.take_append_of_le_length hge]

/-- What is read from behind the name of a command is in the line, if the line is
more than the name. -/
theorem drop_terminated {n : ℕ} (hn : n ≤ P.length) : (P ++ 0 :: A).drop n = P.drop n ++ 0 :: A :=
  List.drop_append_of_le_length hn

theorem parseIderead_terminated (h : 8 ≤ P.length) :
    parseIderead (P ++ 0 :: A) = parseIderead (P ++ 0 :: B) := by
  obtain ⟨Q, hQ⟩ := exists_skipToSpace (P.drop 8)
  unfold parseIderead
  rw [drop_terminated P A h, drop_terminated P B h, atoi_terminated (P.drop 8) A B, hQ A, hQ B]
  apply bind_congr
  intro lba
  cases Q with
  | nil => rfl
  | cons c Q =>
    simp only [Option.bind_eq_bind, Option.bind_some, List.cons_append, List.head?_cons,
      List.tail_cons,
      atoi_terminated Q A B]
    rfl

/-! ## The command -/

/-- A command that is compared as a whole. -/
theorem isCommand_congr (str : String) {found f g : Option Command} (h : f = g) :
    (isCommand (P ++ 0 :: A) str >>= fun b => if b then found else f) =
      isCommand (P ++ 0 :: B) str >>= fun b => if b then found else g := by
  rw [isCommand, isCommand, strcmp_terminated P A B, h]

/-- A command that is recognised by its first characters. -/
theorem named_congr (name : List U8) (hname : 0 ∉ name) (hP : P ≠ name)
    (found : List U8 → Option Command)
    (hfound : name.length + 1 ≤ P.length → found (P ++ 0 :: A) = found (P ++ 0 :: B))
    {f g : Option Command} (h : f = g) :
    (if (P ++ 0 :: A).take name.length = name then found (P ++ 0 :: A) else f) =
      if (P ++ 0 :: B).take name.length = name then found (P ++ 0 :: B) else g := by
  by_cases htake : P.take name.length = name
  · rw [if_pos ((take_terminated P A hname).mpr htake),
      if_pos ((take_terminated P B hname).mpr htake)]
    apply hfound
    -- the line starts with the name and is not the name
    by_contra hlen
    exact hP ((List.take_of_length_le (by omega)).symm.trans htake)
  · rw [if_neg (mt (take_terminated P A hname).mp htake),
      if_neg (mt (take_terminated P B hname).mp htake), h]

/-- An argument that is a number, at an offset that is in the line or at its terminator. -/
theorem atoi_drop_congr {n : ℕ} (command : U64 → Command) (hn : n ≤ P.length) :
    (atoi ((P ++ 0 :: A).drop n)).map command = (atoi ((P ++ 0 :: B).drop n)).map command := by
  rw [drop_terminated P A hn, drop_terminated P B hn, atoi_terminated (P.drop n) A B]

/-- The lines whose arguments lie behind their terminator. -/
def bareNames : List (List U8) := [chars "get", chars "pkill", chars "ideread"]

/-- **The command is read off the line**, unless the line is a bare name. -/
theorem parseCommand_terminated (hP : P ∉ bareNames) :
    parseCommand (P ++ 0 :: A) = parseCommand (P ++ 0 :: B) := by
  simp only [bareNames, List.mem_cons, List.not_mem_nil, or_false, not_or] at hP
  obtain ⟨hget, hpkill, hideread⟩ := hP
  unfold parseCommand
  refine isCommand_congr P A B "help" (isCommand_congr P A B "info" (isCommand_congr P A B "testmem"
    (isCommand_congr P A B "spawn" ?_)))
  refine named_congr P A B (chars "get") (by decide) hget (fun buf => (atoi (buf.drop 4)).map .get)
    (atoi_drop_congr P A B .get) ?_
  refine named_congr P A B (chars "pkill") (by decide) hpkill
    (fun buf => (atoi (buf.drop 6)).map .pkill)
    (atoi_drop_congr P A B .pkill) ?_
  refine isCommand_congr P A B "ideinfo" ?_
  refine named_congr P A B (chars "ideread") (by decide) hideread parseIderead
    (parseIderead_terminated P A B) ?_
  exact isCommand_congr P A B "ideident" rfl

end Scan

/-! ## Pressing Enter -/

section Enter

variable {M D : Type}

/-- **Two states that differ behind the line only**: the same history, processes, drives and cursor,
and the same text in `cmd_buf[0..cmd_pos)`. -/
structure SameText (s t : Shell M D) : Prop where
  cmdPos_eq : t.cmdPos = s.cmdPos
  terminal_eq : t.terminal = s.terminal
  text_eq : ∀ j : Fin 64, j.val < s.cmdPos → t.cmdBuf j = s.cmdBuf j

/-- The line just typed. -/
def Shell.line (s : Shell M D) : List U8 := (List.ofFn s.cmdBuf).take s.cmdPos

/-- **Enter has the same effect**: the same command with the same arguments, and the same state of
everything but the rest of `cmd_buf` afterwards. -/
structure EnterSame [TableMemory M] [PortBus D] (env : Environment) (s t : Shell M D) : Prop where
  command_eq : enteredCommand t = enteredCommand s
  effect_eq : ∀ c, c = 10 ∨ c = 13 →
    (shellPutc env t c).map (fun r => (r.cmdPos, r.terminal)) =
      (shellPutc env s c).map fun r => (r.cmdPos, r.terminal)

/-- Replacing one element of a buffer. -/
theorem ofFn_replace {α : Type} {N : ℕ} (f : Fin N → α) (n : ℕ) (v : α) :
    List.ofFn (fun j : Fin N => if j.val = n then v else f j) = (List.ofFn f).set n v := by
  apply List.ext_getElem
  · rw [List.length_set, List.length_ofFn, List.length_ofFn]
  · intro j hj hj'
    rw [List.getElem_ofFn, List.getElem_set, List.getElem_ofFn]
    exact if_congr eq_comm rfl rfl

/-- The elements up to the one that was replaced. -/
theorem take_succ_set {α : Type} {l : List α} {n : ℕ} (h : n < l.length) (v : α) :
    (l.set n v).take (n + 1) = l.take n ++ [v] := by
  have hlength : (l.take n).length = n := List.length_take_of_le h.le
  have htake : (l.take n ++ v :: l.drop (n + 1)).take ((l.take n).length + 1) = l.take n ++ [v] :=
    List.take_length_add_append 1
  rw [hlength] at htake
  rw [List.set_eq_take_append_cons_drop, if_pos h, htake]

/-- The buffer after the terminator is stored: the line, the terminator, and what is left over. -/
theorem ofFn_terminateLine {s : Shell M D} (h : s.cmdPos < 64) :
    List.ofFn (terminateLine s.cmdBuf s.cmdPos) =
      s.line ++ 0 :: (List.ofFn s.cmdBuf).drop (s.cmdPos + 1) := by
  unfold terminateLine Shell.line
  rw [ofFn_replace, List.set_eq_take_append_cons_drop, if_pos (by rwa [List.length_ofFn])]

variable {s t : Shell M D}

theorem SameText.line_eq (h : SameText s t) : t.line = s.line := by
  unfold Shell.line
  rw [h.cmdPos_eq]
  apply List.ext_getElem
  · rw [List.length_take, List.length_take, List.length_ofFn, List.length_ofFn]
  · intro j hj hj'
    rw [List.length_take] at hj
    rw [List.getElem_take, List.getElem_take, List.getElem_ofFn, List.getElem_ofFn]
    exact h.text_eq _ (Nat.lt_of_lt_of_le hj (Nat.min_le_left _ _))

/-- With a full buffer nothing is left over. -/
theorem SameText.eq_of_full (h : SameText s t) (hfull : 64 ≤ s.cmdPos) : t = s := by
  have hbuf : t.cmdBuf = s.cmdBuf := funext fun j => h.text_eq j (Nat.lt_of_lt_of_le j.isLt hfull)
  cases s
  cases t
  cases h.cmdPos_eq
  cases h.terminal_eq
  cases hbuf
  rfl

/-- A byte of the line, which the terminator does not touch. -/
theorem getD_terminateLine {k : ℕ} (hk : k < s.cmdPos) :
    (List.ofFn (terminateLine s.cmdBuf s.cmdPos)).getD k 0 = s.line.getD k 0 := by
  have hset : List.ofFn (terminateLine s.cmdBuf s.cmdPos) = (List.ofFn s.cmdBuf).set s.cmdPos 0 :=
    ofFn_replace _ _ _
  rw [hset, List.getD_eq_getElem?_getD, List.getD_eq_getElem?_getD, List.getElem?_set_ne hk.ne',
    Shell.line, List.getElem?_take_of_lt hk]

/-- The line in the history is the line just typed. -/
theorem SameText.fullPrompt_eq (h : SameText s t) (env : Environment) :
    fullPrompt env (terminateLine t.cmdBuf t.cmdPos) t.cmdPos =
      fullPrompt env (terminateLine s.cmdBuf s.cmdPos) s.cmdPos := by
  funext j
  have hpos : t.cmdPos = s.cmdPos := h.cmdPos_eq
  unfold fullPrompt
  split_ifs with h12 ht hs <;> try omega
  · rfl
  · rw [getD_terminateLine (by omega), getD_terminateLine (by omega), h.line_eq]
  · rfl
  · rfl

theorem SameText.enteredCommand_eq (h : SameText s t) (hline : s.line ∉ bareNames) :
    enteredCommand t = enteredCommand s := by
  by_cases hfull : 64 ≤ s.cmdPos
  · rw [h.eq_of_full hfull]
  · have hs : s.cmdPos < 64 := Nat.lt_of_not_le hfull
    unfold enteredCommand
    rw [ofFn_terminateLine hs, ofFn_terminateLine (h.cmdPos_eq.trans_lt hs), h.line_eq]
    exact parseCommand_terminated _ _ _ hline

variable [TableMemory M] [PortBus D]

/-- What Enter leaves, apart from the buffer, is determined by the line, the
command and the terminal. -/
theorem SameText.executeCommand_eq (h : SameText s t) (env : Environment)
    (hcommand : enteredCommand t = enteredCommand s) :
    (executeCommand env t).map (fun r => (r.cmdPos, r.terminal)) =
      (executeCommand env s).map fun r => (r.cmdPos, r.terminal) := by
  have hprompt := h.fullPrompt_eq env
  -- the buffer is read for the prompt and the command only
  unfold executeCommand
  dsimp only
  rw [hprompt, h.terminal_eq, h.cmdPos_eq, hcommand]
  split_ifs with h0 hfull
  · rw [Option.map_some, Option.map_some, h.terminal_eq, h.cmdPos_eq]
  · rfl
  · simp only [Option.bind_eq_bind, Option.map_bind, Function.comp_def, Option.map_some]
    -- the line is empty when the screen is drawn
    simp only [shellRender, List.take_zero]

theorem SameText.enterSame (h : SameText s t) (env : Environment) (hline : s.line ∉ bareNames) :
    EnterSame env s t := by
  have hcommand := h.enteredCommand_eq hline
  refine ⟨hcommand, ?_⟩
  intro c hc
  have hputc : ∀ u : Shell M D, shellPutc env u c = executeCommand env u := by
    intro u
    rcases hc with rfl | rfl <;> rfl
  rw [hputc, hputc]
  exact h.executeCommand_eq env hcommand

/-! ## Bare names -/

omit [TableMemory M] [PortBus D]

/-- The state with one digit left over behind the terminator. -/
def Shell.withLeftover (s : Shell M D) (digit : U8) : Shell M D :=
  { s with cmdBuf := fun j => (s.line ++ 0 :: [digit]).getD j 0 }

theorem sameText_withLeftover (s : Shell M D) (digit : U8) : SameText s (s.withLeftover digit) := by
  refine ⟨rfl, rfl, ?_⟩
  intro j hj
  have hlen : j.val < s.line.length := by
    rw [Shell.line, List.length_take, List.length_ofFn]
    exact lt_min hj j.isLt
  show (s.line ++ 0 :: [digit]).getD j 0 = s.cmdBuf j
  rw [List.getD_eq_getElem?_getD, List.getElem?_append_left hlen, Shell.line,
    List.getElem?_take_of_lt hj,
    List.getElem?_ofFn, dif_pos j.isLt, Option.getD_some]

/-- The buffer that Enter reads, with a digit left over. -/
def leftoverBuf (line : List U8) (digit : U8) : List U8 :=
  List.ofFn (terminateLine (fun j : Fin 64 => (line ++ 0 :: [digit]).getD j 0) line.length)

/-- After a bare name, the digit is the argument. -/
theorem parseCommand_leftoverBuf {line : List U8} (h : line ∈ bareNames) :
    parseCommand (leftoverBuf line 49) ≠ parseCommand (leftoverBuf line 50) := by
  have hall : ∀ line ∈ bareNames, parseCommand (leftoverBuf line 49) ≠ parseCommand
      (leftoverBuf line 50) := by
    decide +kernel
  exact hall line h

/-- A bare name does not fill the buffer. -/
theorem length_line_of_bare (h : s.line ∈ bareNames) : s.line.length = s.cmdPos := by
  have hshort : ∀ line ∈ bareNames, line.length < 64 := by decide
  have hline := hshort _ h
  rw [Shell.line, List.length_take, List.length_ofFn] at hline ⊢
  omega

theorem enteredCommand_withLeftover (hpos : s.line.length = s.cmdPos) (digit : U8) :
    enteredCommand (s.withLeftover digit) = parseCommand (leftoverBuf s.line digit) := by
  unfold enteredCommand leftoverBuf
  rw [hpos]
  rfl

/-- **What Enter does ignores the left-overs exactly when the line is not a bare name**: of `get`,
`pkill` and `ideread` without an argument, the argument is taken from behind the terminator. -/
theorem enter_ignores_leftover_iff [TableMemory M] [PortBus D] (env : Environment) (s : Shell M D) :
    (∀ t, SameText s t → EnterSame env s t) ↔
      s.line ≠ chars "get" ∧ s.line ≠ chars "pkill" ∧ s.line ≠ chars "ideread" := by
  have hbare : (s.line ≠ chars "get" ∧ s.line ≠ chars "pkill" ∧ s.line ≠ chars "ideread") ↔
      s.line ∉ bareNames := by
    simp only [bareNames, List.mem_cons, List.not_mem_nil, or_false, not_or]
  rw [hbare]
  constructor
  · -- two digits left over give two commands
    intro h hline
    have hpos := length_line_of_bare hline
    have h₁ := (h _ (sameText_withLeftover s 49)).command_eq
    have h₂ := (h _ (sameText_withLeftover s 50)).command_eq
    rw [enteredCommand_withLeftover hpos] at h₁ h₂
    exact parseCommand_leftoverBuf hline (h₁.trans h₂.symm)
  · intro hline t hst
    exact hst.enterSame env hline

end Enter

/-! ## A line after an earlier one -/

/-- An environment in which nothing was left in memory. -/
def sampleEnvironment : Environment where
  promptEnd := 0
  response := fun _ => 0
  msg := fun _ => 0
  line := fun _ => 0
  framesStr := fun _ => 0
  pidStr := fun _ => 0
  memStr := fun _ => 0
  timeStr := fun _ => 0
  statusStr := fun _ => 0
  buf := fun _ => 0
  identify := fun _ => 0
  sysinfoBuf := fun _ => 0
  behind := fun _ _ => 0
  historyTail := []
  testEntry := 0x1000
  msgAddr := 0x7000
  msgAddr_ge := by decide
  msgAddr_le := by decide

/-- A machine after `shell_init`, with one drive and no process. -/
def sampleTerminal : Terminal TableHeap AtaBus where
  terminalHistory := fun _ _ => 0
  historyLines := 0
  promptY := 16
  processes := sampleProcesses
  ide := sampleIde
  sectors := { primaryMaster := 0, primarySlave := 0, secondaryMaster := 0, secondarySlave := 0 }
  drawn := []
  overran := false

/-- The line `get`, typed over what is left of an earlier line. -/
def getTypedOver (earlier : String) : Shell TableHeap AtaBus where
  cmdBuf := fun j => if j.val < 3 then (chars "get").getD j 0 else (chars earlier).getD j 0
  cmdPos := 3
  terminal := sampleTerminal

/-- **`get` typed after `get 2` looks up process 2**, and typed first it looks up process 0. -/
theorem get_reads_earlier_line :
    SameText (getTypedOver "") (getTypedOver "get 2") ∧
      enteredCommand (getTypedOver "") = some (.get 0) ∧
      enteredCommand (getTypedOver "get 2") = some (.get 2) ∧
      ¬ EnterSame sampleEnvironment (getTypedOver "") (getTypedOver "get 2") := by
  have hempty : enteredCommand (getTypedOver "") = some (.get 0) := by decide +kernel
  have hearlier : enteredCommand (getTypedOver "get 2") = some (.get 2) := by decide +kernel
  refine ⟨⟨rfl, rfl, ?_⟩, hempty, hearlier, ?_⟩
  · intro j hj
    show (if j.val < 3 then _ else _) = if j.val < 3 then _ else _
    rw [if_pos (show j.val < 3 from hj), if_pos (show j.val < 3 from hj)]
  · intro h
    have hsame := h.command_eq
    rw [hempty, hearlier] at hsame
    exact absurd hsame (by decide)

end OS44
