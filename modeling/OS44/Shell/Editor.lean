import OS44.Shell.Lines

/-! # The command line (`shell.c`)

Keys edit `cmd_buf`, which is never cleared: Enter stores a terminator and takes the position back.
The text up to the position is that of a line editor (`editLine`). No character is ever stored in
the last byte of the buffer, so that every scan of `execute_command` meets a NUL in the buffer,
wherever it starts. -/

namespace OS44

open Runs

/-! ## Scans of a buffer with a NUL -/

section Scan

variable {buf : List U8}

/-- A comparison with a literal ends in the buffer. -/
theorem strcmp_ne_none (h : 0 ∈ buf) (str : List U8) : strcmp buf (str ++ [0]) ≠ none := by
  induction buf generalizing str with
  | nil => exact absurd h List.not_mem_nil
  | cons c buf ih =>
    cases str with
    | nil =>
      -- the literal ends here: the two are equal or differ
      rw [List.nil_append, strcmp, if_neg fun h => h.1 h.2]
      exact Option.some_ne_none _
    | cons d str =>
      rw [List.cons_append, strcmp]
      split_ifs with hc
      · exact ih ((List.mem_cons.mp h).resolve_left fun h0 => hc.1 h0.symm) str
      · exact Option.some_ne_none _

theorem isCommand_ne_none (h : 0 ∈ buf) (str : String) : isCommand buf str ≠ none := by
  rw [isCommand, ne_eq, Option.map_eq_none_iff]
  exact strcmp_ne_none h (chars str)

/-- The digits of a number end in the buffer. -/
theorem atoiFrom_ne_none (h : 0 ∈ buf) (res : U64) : atoiFrom res buf ≠ none := by
  induction buf generalizing res with
  | nil => exact absurd h List.not_mem_nil
  | cons c buf ih =>
    rw [atoiFrom]
    split_ifs with hc
    · refine ih ((List.mem_cons.mp h).resolve_left ?_) _
      rintro rfl
      exact absurd hc.1 (by decide)
    · exact Option.some_ne_none _

theorem atoi_ne_none (h : 0 ∈ buf) : atoi buf ≠ none := atoiFrom_ne_none h 0

/-- The search for a space ends in the buffer, and if it finds one, a NUL is behind it. -/
theorem exists_skipToSpace_of_mem (h : 0 ∈ buf) :
    ∃ rest, skipToSpace buf = some rest ∧ (rest.head? = some 32 → 0 ∈ rest.tail) := by
  induction buf with
  | nil => exact absurd h List.not_mem_nil
  | cons c buf ih =>
    rw [skipToSpace]
    split_ifs with hc
    · exact ih ((List.mem_cons.mp h).resolve_left fun h0 => hc.1 h0.symm)
    · refine ⟨c :: buf, rfl, ?_⟩
      intro hspace
      refine (List.mem_cons.mp h).resolve_left ?_
      rintro rfl
      exact absurd (Option.some.inj hspace) (by decide)

theorem parseIderead_ne_none (h : 0 ∈ buf.drop 8) : parseIderead buf ≠ none := by
  obtain ⟨lba, hlba⟩ := Option.ne_none_iff_exists'.mp (atoi_ne_none h)
  -- the second number starts one byte behind the space
  obtain ⟨space, hspace, hbehind⟩ := exists_skipToSpace_of_mem h
  rw [parseIderead, hlba, hspace]
  show (do
    let count ← if space.head? = some 32 then atoi space.tail else some 1
    some (Command.ideread (lba.setWidth 32) (count.setWidth 16))) ≠ none
  split_ifs with h32
  · obtain ⟨count, hcount⟩ := Option.ne_none_iff_exists'.mp (atoi_ne_none (hbehind h32))
    rw [hcount]
    exact Option.some_ne_none _
  · exact Option.some_ne_none _

/-- A comparison that ends, in front of the rest of the chain. -/
theorem bind_isCommand_ne_none (h : 0 ∈ buf) (str : String) (found : Command)
    {f : Option Command} (hf : f ≠ none) :
    (isCommand buf str >>= fun b => if b then some found else f) ≠ none := by
  obtain ⟨b, hb⟩ := Option.ne_none_iff_exists'.mp (isCommand_ne_none h str)
  rw [hb]
  show (if b then some found else f) ≠ none
  split_ifs
  · exact Option.some_ne_none _
  · exact hf

theorem map_atoi_ne_none {n : ℕ} (h : 0 ∈ buf.drop n) (command : U64 → Command) :
    (atoi (buf.drop n)).map command ≠ none := by
  rw [ne_eq, Option.map_eq_none_iff]
  exact atoi_ne_none h

/-- **Every scan of a command line ends in the buffer**, if there is a NUL at or behind each place
where one starts. -/
theorem parseCommand_ne_none (h : 0 ∈ buf.drop 8) : parseCommand buf ≠ none := by
  have hdrop : ∀ n ≤ 8, 0 ∈ buf.drop n := fun n hn => List.mem_of_mem_drop (i := 8 - n) (by
    rwa [List.drop_drop, Nat.add_sub_cancel' hn])
  have h0 : 0 ∈ buf := List.mem_of_mem_drop h
  -- the scans start at 0, 4, 6 and 8
  unfold parseCommand
  refine bind_isCommand_ne_none h0 "help" .help (bind_isCommand_ne_none h0 "info" .info
    (bind_isCommand_ne_none h0 "testmem" .testmem (bind_isCommand_ne_none h0 "spawn" .spawn ?_)))
  by_cases hget : buf.take 3 = chars "get"
  · rw [if_pos hget]
    exact map_atoi_ne_none (hdrop 4 (by decide)) _
  by_cases hpkill : buf.take 5 = chars "pkill"
  · rw [if_neg hget, if_pos hpkill]
    exact map_atoi_ne_none (hdrop 6 (by decide)) _
  rw [if_neg hget, if_neg hpkill]
  refine bind_isCommand_ne_none h0 "ideinfo" .ideinfo ?_
  split_ifs
  · exact parseIderead_ne_none h
  · exact bind_isCommand_ne_none h0 "ideident" .ideident (Option.some_ne_none _)

end Scan

/-! ## The line editor -/

/-- **The reference line editor**: the text held after a key. At most 63 characters are held,
backspace removes the last one, and behind Enter nothing is held: on an empty line it is ignored,
and any other is executed. -/
def editLine (held : List U8) (c : U8) : List U8 :=
  if c = 8 then held.dropLast
  else if c = 10 ∨ c = 13 then []
  else if held.length < 63 then held ++ [c]
  else held

section Editing

variable {M D : Type}

/-- **The command line is kept**: the position is not behind the last byte of `cmd_buf`, which is 0,
and the bytes in front of the position are the text held. -/
structure Editing (s : Shell M D) (held : List U8) : Prop where
  pos_le : s.cmdPos ≤ 63
  last_eq : s.cmdBuf 63 = 0
  line_eq : s.line = held

variable {s s' : Shell M D} {held : List U8}

/-- The bytes of a line, as many as the position says. -/
theorem length_line (h : s.cmdPos ≤ 64) : s.line.length = s.cmdPos := by
  rw [Shell.line, List.length_take, List.length_ofFn]
  exact Nat.min_eq_left h

theorem Editing.length_held (h : Editing s held) : held.length = s.cmdPos := by
  rw [← h.line_eq]
  exact length_line (h.pos_le.trans (by decide))

/-- What a key finds beside the buffer does not matter. -/
theorem Editing.congr (h : Editing s held) (hpos : s'.cmdPos = s.cmdPos)
    (hbuf : s'.cmdBuf = s.cmdBuf) : Editing s' held where
  pos_le := hpos.trans_le h.pos_le
  last_eq := by
    rw [hbuf]
    exact h.last_eq
  line_eq := by
    rw [Shell.line, hpos, hbuf]
    exact h.line_eq

/-- Backspace. -/
theorem Editing.backspace (h : Editing s held) :
    Editing { s with cmdPos := s.cmdPos - 1 } held.dropLast where
  pos_le := (Nat.sub_le _ _).trans h.pos_le
  last_eq := h.last_eq
  line_eq := by
    have hpos := h.pos_le
    rw [← h.line_eq, Shell.line, Shell.line, List.dropLast_take (by rw [List.length_ofFn]; omega)]

/-- A character, with room for it. -/
theorem Editing.append (h : Editing s held) (hroom : s.cmdPos < 63) (c : U8) :
    Editing { s with
      cmdBuf := fun j => if j.val = s.cmdPos then c else s.cmdBuf j
      cmdPos := s.cmdPos + 1 } (held ++ [c]) where
  pos_le := hroom
  last_eq := (if_neg (Nat.ne_of_gt hroom)).trans h.last_eq
  line_eq := by
    have hlength : s.cmdPos < (List.ofFn s.cmdBuf).length := by rw [List.length_ofFn]; omega
    have hline : (List.ofFn s.cmdBuf).take s.cmdPos = held := h.line_eq
    rw [Shell.line, ofFn_replace, take_succ_set hlength, hline]

/-- The terminator leaves the last byte 0. -/
theorem Editing.terminateLine (h : Editing s held) :
    OS44.terminateLine s.cmdBuf s.cmdPos 63 = 0 := by
  rw [OS44.terminateLine]
  split_ifs
  · rfl
  · exact h.last_eq

/-- **Every scan of the line stops in the buffer.** -/
theorem Editing.enteredCommand_ne_none (h : Editing s held) : enteredCommand s ≠ none := by
  have hlength : 55 < ((List.ofFn (OS44.terminateLine s.cmdBuf s.cmdPos)).drop 8).length := by
    rw [List.length_drop, List.length_ofFn]
    decide
  -- the last byte of the buffer is behind every place where a scan starts
  have hlast : ((List.ofFn (OS44.terminateLine s.cmdBuf s.cmdPos)).drop 8)[55] = 0 := by
    rw [List.getElem_drop, List.getElem_ofFn]
    exact h.terminateLine
  exact parseCommand_ne_none (hlast ▸ List.getElem_mem hlength)

variable [TableMemory M] [PortBus D]

/-- Enter on a line that is not empty, if the command comes back. -/
theorem Editing.executeCommand {env : Environment} (h : Editing s held)
    (hs' : OS44.executeCommand env s = some s') : Editing s' [] := by
  unfold OS44.executeCommand at hs'
  split_ifs at hs' with h0
  · cases hs'
    have hnil : held = [] := List.eq_nil_of_length_eq_zero (h.length_held.trans h0)
    exact hnil ▸ h
  · simp only [Option.bind_eq_bind, Option.bind_eq_some_iff] at hs'
    obtain ⟨c, -, r, -, hs'⟩ := hs'
    cases hs'
    exact ⟨Nat.zero_le _, h.terminateLine, rfl⟩

/-- **One key does what the line editor does.** -/
theorem Editing.pressKey {k : Key M D} (h : Editing s held) (hs' : OS44.pressKey s k = some s') :
    Editing s' (editLine held k.c) := by
  have hfound : Editing (s.foundBy k) held := h.congr rfl rfl
  have hlength := hfound.length_held
  unfold OS44.pressKey shellPutc at hs'
  unfold editLine
  split_ifs at hs' with hback hpos henter hroom
  · cases hs'
    rw [if_pos hback]
    exact hfound.backspace.congr rfl rfl
  · -- nothing is held
    cases hs'
    obtain rfl : held = [] :=
      List.eq_nil_of_length_eq_zero (hlength.trans (Nat.eq_zero_of_not_pos hpos))
    rw [if_pos hback]
    exact hfound
  · rw [if_neg hback, if_pos henter]
    exact hfound.executeCommand hs'
  · cases hs'
    rw [if_neg hback, if_neg henter, if_pos (hlength.trans_lt hroom)]
    exact (hfound.append hroom k.c).congr rfl rfl
  · cases hs'
    rw [if_neg hback, if_neg henter, if_neg (by rwa [hlength])]
    exact hfound

/-! ## Runs -/

omit [TableMemory M] [PortBus D]

/-- Static storage when the kernel starts. -/
def Shell.boot (t : Terminal M D) : Shell M D where
  cmdBuf := fun _ => 0
  cmdPos := 0
  terminal := t

theorem editing_shellInit (t : Terminal M D) : Editing (shellInit (Shell.boot t)) [] :=
  ⟨Nat.zero_le _, rfl, rfl⟩

/-- **The command line, over every run** of keys after `shell_init`, whatever each key finds beside
the buffer: the position is at most 63, `cmd_buf[63]` is 0, the text up to the position is that of
the line editor, and every scan of the command that Enter runs stops in the buffer. -/
theorem command_line_is_edited [TableMemory M] [PortBus D] (t : Terminal M D) (s : Shell M D)
    (keys : List (Key M D)) (hrun : run pressKey (shellInit (Shell.boot t)) keys = some s) :
    Editing s ((keys.map Key.c).foldl editLine []) ∧ enteredCommand s ≠ none := by
  have hstep : ∀ (s : Shell M D) (held : List U8) (k : Key M D) (s' : Shell M D), Editing s held →
      pressKey s k = some s' → Editing s' (editLine held k.c) :=
    fun s held k s' h hs' => h.pressKey hs'
  have hediting := run_simulates hstep (editing_shellInit t) hrun
  rw [List.foldl_map]
  exact ⟨hediting, hediting.enteredCommand_ne_none⟩

/-- `a`, Enter, then `b`, backspace, `c`. -/
theorem command_line_is_edited_sample :
    ∃ s, run pressKey (shellInit (Shell.boot sampleTerminal))
        [sampleKey 97, sampleKey 10, sampleKey 98, sampleKey 8, sampleKey 99] = some s ∧
      s.line = [99] ∧ enteredCommand s ≠ none := by
  refine ⟨_, rfl, ?_⟩
  obtain ⟨hediting, hentered⟩ := command_line_is_edited sampleTerminal _
    [sampleKey 97, sampleKey 10, sampleKey 98, sampleKey 8, sampleKey 99] rfl
  exact ⟨hediting.line_eq, hentered⟩

end Editing

end OS44
