import OS44.Framebuffer.Framebuffer
import OS44.Ide.Init
import OS44.Process.Process
import OS44.Shell.Text

/-! # The shell (`shell.c`)

Keys edit a command line in `cmd_buf`; Enter runs it and adds its text to a history of 20 lines of
80 bytes, which `shell_render` draws. The command is read off `cmd_buf` first (`parseCommand`) and
then run on the rest of the kernel, the `Terminal`, which has no access to the buffer.

What the source leaves open when a key is pressed is the `Environment`: what uninitialised locals
hold, what lies behind the objects that are copied from, and where the stack is. -/

namespace OS44

/-- What the source leaves open when a key is pressed. -/
structure Environment where
  /-- The byte behind `full_prompt`. -/
  promptEnd : U8
  /-- The uninitialised locals of `execute_command`. -/
  response : ℕ → U8
  msg : ℕ → U8
  line : ℕ → U8
  framesStr : ℕ → U8
  pidStr : ℕ → U8
  memStr : ℕ → U8
  timeStr : ℕ → U8
  statusStr : ℕ → U8
  buf : Buffer
  identify : IdeIdentify
  /-- What `sysinfo_get_sysinfo_string` leaves in its buffer of 512 bytes, and what
  lies behind it. -/
  sysinfoBuf : ℕ → U8
  /-- The bytes behind a literal. -/
  behind : String → ℕ → U8
  /-- The bytes behind `terminal_history`, up to the next NUL. -/
  historyTail : List U8
  /-- The address of `test_entry`. -/
  testEntry : U64
  /-- The address of `msg`: the stack is not at the very bottom of memory, and the buffer does not
  wrap around. -/
  msgAddr : U64
  msgAddr_ge : 256 ≤ msgAddr.toNat
  msgAddr_le : msgAddr.toNat + 256 ≤ 2 ^ 64

/-- What a command works on: the history and the rest of the kernel. -/
structure Terminal (M D : Type) where
  terminalHistory : Fin 20 → Fin 80 → U8
  historyLines : ℕ
  promptY : U64
  processes : Processes M
  ide : Ide D
  sectors : DriveSectors
  /-- Ghost: the calls to the framebuffer, oldest first. -/
  drawn : List DrawCall
  /-- Ghost: a `response`, `msg` or `line` was written behind its end. -/
  overran : Bool

/-- The static variables of `shell.c`, and the rest of the kernel. -/
structure Shell (M D : Type) where
  cmdBuf : Fin 64 → U8
  cmdPos : ℕ
  terminal : Terminal M D

section History

variable {M D : Type}

/-- `memcpy(terminal_history[i], terminal_history[i + 1], LINE_LEN)`. -/
def shiftRow (rows : Fin 20 → Fin 80 → U8) (i : ℕ) : Fin 20 → Fin 80 → U8 :=
  if h : i + 1 < 20 then Function.update rows ⟨i, Nat.lt_of_succ_lt h⟩ (rows ⟨i + 1, h⟩) else rows

/-- `add_to_history`. -/
def addToHistory (t : Terminal M D) (str : ℕ → U8) : Terminal M D :=
  if h : t.historyLines < 20 then
    { t with
      terminalHistory := Function.update t.terminalHistory ⟨t.historyLines, h⟩ fun j => str j
      historyLines := t.historyLines + 1 }
  else
    -- the oldest line is dropped
    let rows := (List.range 19).foldl shiftRow t.terminalHistory
    { t with terminalHistory := fun i => if i.val = 19 then fun j => str j else rows i }

/-- The bytes of a literal and behind it. -/
def literal (env : Environment) (str : String) : ℕ → U8 := fun j =>
  if j < (chars str).length then (chars str).getD j 0
  else if j = (chars str).length then 0
  else env.behind str (j - (chars str).length - 1)

/-- A local buffer that goes out of scope leaves the note that it was overrun. -/
def Terminal.note (t : Terminal M D) (b : LocalBuf) : Terminal M D :=
  { t with overran := t.overran || b.overran }

/-- `full_prompt`: 79 bytes. -/
def fullPrompt (env : Environment) (cmdBuf : Fin 64 → U8) (cmdPos : ℕ) : ℕ → U8 := fun j =>
  if j < 12 then (chars "OS44 Shell> ").getD j 0
  else if j < 12 + cmdPos then (List.ofFn cmdBuf).getD (j - 12) 0
  else if j < 79 then 0
  else env.promptEnd

/-- The loop of `info` over its buffer: each `|` ends a line, as does the end. `none`: no NUL in the
buffer. -/
def sysinfoLines (ptr start : ℕ) (buf : ℕ → U8) (t : Terminal M D) : ℕ → Option (Terminal M D)
  | 0 => none
  | fuel + 1 =>
    if buf ptr = 0 then some (addToHistory t fun j => buf (start + j))
    else if buf ptr = 124 then
      let buf := Function.update buf ptr 0
      sysinfoLines (ptr + 1) (ptr + 1) buf (addToHistory t fun j => buf (start + j)) fuel
    else sysinfoLines (ptr + 1) start buf t fuel

end History

/-! ## Commands -/

/-- A command and its arguments. -/
inductive Command
  | help
  | info
  | testmem
  | spawn
  | get (pid : U64)
  | pkill (pid : U64)
  | ideinfo
  | ideread (lba : U32) (count : U16)
  | ideident
  | unknown
  deriving DecidableEq, Repr

/-- `strcmp(cmd_buf, str) == 0`. -/
def isCommand (buf : List U8) (str : String) : Option Bool :=
  (strcmp buf (chars str ++ [0])).map (· = 0)

/-- The arguments of `ideread`. -/
def parseIderead (buf : List U8) : Option Command := do
  let lba ← atoi (buf.drop 8)
  let space ← skipToSpace (buf.drop 8)
  let count ← if space.head? = some 32 then atoi space.tail else some 1
  some (.ideread (lba.setWidth 32) (count.setWidth 16))

/-- The command in `cmd_buf`, and its arguments. `none`: a scan leaves the buffer. -/
def parseCommand (buf : List U8) : Option Command := do
  let help ← isCommand buf "help"
  if help then some .help else
  let info ← isCommand buf "info"
  if info then some .info else
  let testmem ← isCommand buf "testmem"
  if testmem then some .testmem else
  let spawn ← isCommand buf "spawn"
  if spawn then some .spawn else
  -- recognised by their first characters; a number is looked for one byte behind them
  if buf.take 3 = chars "get" then (atoi (buf.drop 4)).map .get else
  if buf.take 5 = chars "pkill" then (atoi (buf.drop 6)).map .pkill else
  let ideinfo ← isCommand buf "ideinfo"
  if ideinfo then some .ideinfo else
  if buf.take 7 = chars "ideread" then parseIderead buf else
  let ideident ← isCommand buf "ideident"
  if ideident then some .ideident else some .unknown

section Run

variable {M D : Type} [TableMemory M] [PortBus D]

/-- A command ends with a response. -/
abbrev Outcome (M D : Type) : Type := LocalBuf × Terminal M D

/-- The response buffer with `n` characters of a literal in it. -/
def respond (env : Environment) (str : String) (n : ℕ) : LocalBuf :=
  (LocalBuf.new 80 env.response).copy 0 (literal env str) n

/-- `testmem`. -/
def runTestmem (env : Environment) (t : Terminal M D) : Option (Outcome M D) := do
  let freeFrames := BitVec.ofNat 64 (pmmGetFreeFrames t.processes.vmm.paging.pmm)
  let framesStr := (LocalBuf.new 20 env.framesStr).write (itoa freeFrames)
  let msg := (LocalBuf.new 80 env.msg).copy 0 (literal env "Free frames: ") 13
  -- all 20 bytes are copied, with the number's terminator among them or not
  let msg := msg.copy 13 framesStr.bytes 20
  let t := addToHistory t msg.bytes
  let r ← (vmmAlloc t.processes.vmm 8192).toOption
  let t := { t with processes := { t.processes with vmm := r.2 } }
  let t ←
    if r.1 ≠ 0 then do
      let t := addToHistory t (literal env "VMM test: Success")
      let vmm ← vmmFree t.processes.vmm r.1
      some { t with processes := { t.processes with vmm := vmm } }
    else some (addToHistory t (literal env "VMM test: Failed"))
  some (respond env "Testmem complete" 16, t.note msg)

/-- `spawn`. -/
def runSpawn (env : Environment) (t : Terminal M D) : Option (Outcome M D) := do
  let r ← processCreate t.processes env.testEntry 4096
  let pidStr := (LocalBuf.new 20 env.pidStr).write (itoa r.1)
  some ((respond env "Spawned PID: " 13).copy 13 pidStr.bytes 20, { t with processes := r.2 })

/-- `get`. -/
def runGet (env : Environment) (pid : U64) (t : Terminal M D) : Outcome M D :=
  match getProcByPid t.processes.procTable pid with
  | some i =>
    let proc := t.processes.procTable i
    let memStr := (LocalBuf.new 20 env.memStr).write (itoa proc.memSize)
    let timeStr := (LocalBuf.new 20 env.timeStr).write (itoa proc.runTime)
    let status := if proc.status = .running then literal env "RUNNING" else literal env "READY"
    -- `READY` is shorter than the 7 characters that are copied
    let statusStr := ((LocalBuf.new 20 env.statusStr).copy 0 status 7).set 7 0
    let msg := (LocalBuf.new 80 env.msg).copy 0 (literal env "PID status: ") 12
    let msg := msg.copy 12 statusStr.bytes 8
    let t := addToHistory t msg.bytes
    -- written over the status line
    let msg := (msg.copy 0 (literal env "Mem: ") 5).copy 5 memStr.bytes 20
    let t := addToHistory t msg.bytes
    ((respond env "Time: " 6).copy 6 timeStr.bytes 20, t.note msg)
  | none => (respond env "Invalid PID" 11, t)

/-- `pkill`. -/
def runPkill (env : Environment) (pid : U64) (t : Terminal M D) : Option (Outcome M D) :=
  match getProcByPid t.processes.procTable pid with
  | some _ => do
    let processes ← processCheckAndFree (killProc t.processes pid)
    some (respond env "Killed PID" 10, { t with processes := processes })
  | none => some (respond env "Invalid PID" 11, t)

/-- `p = msg`: the position of an append is where `p` points, not 0. -/
def msgCursor (env : Environment) (msg : LocalBuf) : Cursor := (msg, env.msgAddr)

/-- A line of `ideinfo`: a drive that is there, and its size. -/
def driveLine (env : Environment) (name : String) (found : U8) (sectors : U32) (msg : LocalBuf) :
    LocalBuf :=
  let p := msgCursor env msg
  if found ≠ 0 then
    (appendDec 256 (sectors.setWidth 64) (appendStr 256
      (chars (name ++ ": Present, Sectors: ")) p)).1
  else (appendStr 256 (chars (name ++ ": Not present")) p).1

/-- `ideinfo`. -/
def runIdeinfo (env : Environment) (t : Terminal M D) : Outcome M D :=
  let msg := LocalBuf.new 256 env.msg
  let msg := (appendStr 256 (chars "IDE Drive Info:\n") (msgCursor env msg)).1
  let t := addToHistory t msg.bytes
  let msg := driveLine env "  Primary Master" t.ide.primaryMaster t.sectors.primaryMaster msg
  let t := addToHistory t msg.bytes
  let msg := driveLine env "  Primary Slave" t.ide.primarySlave t.sectors.primarySlave msg
  let t := addToHistory t msg.bytes
  let msg := driveLine env "  Secondary Master" t.ide.secondaryMaster t.sectors.secondaryMaster msg
  let t := addToHistory t msg.bytes
  let msg := driveLine env "  Secondary Slave" t.ide.secondarySlave t.sectors.secondarySlave msg
  let t := addToHistory t msg.bytes
  (respond env "IDE info printed" 16, t.note msg)

/-- The 16 bytes of the buffer from `i` on, as `ideread` writes them in a line. -/
def appendBytes (buf : Buffer) (i n : ℕ) (p : Cursor) : Cursor :=
  (List.range n).foldl (fun p j =>
    appendStr 128 (chars " ") (appendHex 128 ((bufferByte buf (i + j)).setWidth 64) p)) p

/-- The line of `ideread` for the bytes from `i` on. -/
def readLine (lba : U32) (count : U16) (buf : Buffer) (i : ℕ) (line : LocalBuf) : LocalBuf :=
  let p := appendStr 128 (chars "LBA+") (line, 0)
  let p := appendHex 128 ((lba + BitVec.ofNat 32 (i / 512)).setWidth 64) p
  let p := appendStr 128 (chars " +") p
  let p := appendDec 128 (BitVec.ofNat 64 (i / 512)) p
  let p := appendStr 128 (chars ": ") p
  let p := appendBytes buf i (min 16 (count.toNat * 512 - i)) p
  p.1.set (if p.2 < 128 then p.2.toNat else 127) 0

/-- The lines of `ideread`. -/
def readLines (lba : U32) (count : U16) (buf : Buffer) (r : Outcome M D) : Outcome M D :=
  (List.range (count.toNat * 32)).foldl (fun r k =>
    let line := readLine lba count buf (16 * k) r.1
    (line, addToHistory r.2 line.bytes)) r

/-- `ideread`. -/
def runIderead (env : Environment) (lba : U32) (count : U16) (t : Terminal M D) : Outcome M D :=
  -- the buffer has room for 16 sectors
  let count := if 16 < count then 16 else count
  let r := ideReadSectors t.ide 0 lba count env.buf
  let t := { t with ide := r.2.2 }
  if r.1 = 0 then
    let lines := readLines lba count r.2.1 (LocalBuf.new 128 env.line, t)
    (respond env "Read complete" 13, lines.2.note lines.1)
  else (respond env "Read failed" 11, t)

/-- A line of `ideident`: what is appended between the name and the line break. -/
def identLine (env : Environment) (name : String) (append : Cursor → Cursor)
    (msg : LocalBuf) : LocalBuf :=
  (appendStr 256 (chars "\n") (append (appendStr 256 (chars name) (msgCursor env msg)))).1

/-- The lines of `ideident`. -/
def identLines (env : Environment) (identify : IdeIdentify) : List (LocalBuf → LocalBuf) :=
  [identLine env "  Model: " (appendStr 256 (identify.modelNumber ++ [0])),
    identLine env "  Serial: " (appendStr 256 (identify.serialNumber ++ [0])),
    identLine env "  Firmware: " (appendStr 256 (identify.firmwareRevision ++ [0])),
    identLine env "  Cylinders: " (appendDec 256 (identify.cylinders.setWidth 64)),
    identLine env "  Heads: " (appendDec 256 (identify.heads.setWidth 64)),
    identLine env "  Sectors/Track: " (appendDec 256 (identify.sectorsPerTrack.setWidth 64)),
    identLine env "  Total LBA28 sectors: " (appendDec 256 (identify.totalLba28.setWidth 64)),
    identLine env "  Capacity (MB): "
      (appendDec 256 ((identify.totalLba28 * 512 / (1024 * 1024)).setWidth 64))]

/-- `ideident`. -/
def runIdeident (env : Environment) (t : Terminal M D) : Outcome M D :=
  let r := ideIdentify t.ide 0 env.identify
  let t := { t with ide := r.2 }
  let msg := LocalBuf.new 256 env.msg
  let msg := (appendStr 256 (chars "IDENTIFY for drive 0:\n") (msgCursor env msg)).1
  let t := addToHistory t msg.bytes
  let r : Outcome M D :=
    if r.1.config = 0 then
      (msg, addToHistory t (literal env "  Drive not present or IDENTIFY failed"))
    else
      (identLines env r.1).foldl (fun r line =>
        let msg := line r.1
        (msg, addToHistory r.2 msg.bytes)) (msg, t)
  (respond env "IDENTIFY sent" 13, r.2.note r.1)

/-- A command: its response and what it did. `none`: it does not come back. -/
def runCommand (env : Environment) (t : Terminal M D) : Command → Option (Outcome M D)
  | .help => some (respond env
      "Cmds: help, testmem, spawn, get [pid], pkill [pid], info, ideinfo, ideread [lba] [count], ideident"
      100, t)
  | .info => do
    let t := addToHistory t (literal env "System Information:")
    let t ← sysinfoLines 0 0 env.sysinfoBuf t 512
    some (respond env "Info retrieved" 14, t)
  | .testmem => runTestmem env t
  | .spawn => runSpawn env t
  | .get pid => some (runGet env pid t)
  | .pkill pid => runPkill env pid t
  | .ideinfo => some (runIdeinfo env t)
  | .ideread lba count => some (runIderead env lba count t)
  | .ideident => some (runIdeident env t)
  | .unknown => some (respond env "Unknown command" 15, t)

end Run

/-! ## Drawing -/

section Keys

variable {M D : Type}

/-- The bytes of a row of the history. -/
def Terminal.row (t : Terminal M D) (i : ℕ) : List U8 :=
  if h : i < 20 then List.ofFn (t.terminalHistory ⟨i, h⟩) else []

/-- The string that starts at a row: it goes on behind the row if there is no NUL in it. -/
def Terminal.rowString (env : Environment) (t : Terminal M D) (i : ℕ) : List U8 :=
  (((List.range' i (20 - i)).flatMap t.row) ++ env.historyTail).takeWhile (· ≠ 0)

/-- `shell_render`. -/
def shellRender (env : Environment) (s : Shell M D) : Shell M D :=
  let t := s.terminal
  let y := fun i => BitVec.ofNat 64 (16 + 16 * i)
  let rows := (List.range t.historyLines).map fun i =>
    DrawCall.drawString (t.rowString env i) 32 (y i) fbColorWhite fbColorBlack
  let prompt := chars "OS44 Shell> " ++ (List.ofFn s.cmdBuf).take s.cmdPos
  let promptY := y t.historyLines
  { s with terminal := { t with
      promptY := promptY
      drawn := t.drawn ++ [.clear fbColorBlack] ++ rows ++
        [.drawString prompt 32 promptY fbColorGreen fbColorBlack] } }

/-- `shell_init`. -/
def shellInit (s : Shell M D) : Shell M D :=
  { s with
    cmdPos := 0
    terminal := { s.terminal with historyLines := 0, promptY := 16 } }

/-- `execute_command`, up to the first `add_to_history`: the terminator is stored. -/
def terminateLine (cmdBuf : Fin 64 → U8) (cmdPos : ℕ) : Fin 64 → U8 := fun j =>
  if j.val = cmdPos then 0 else cmdBuf j

/-- The command that Enter runs. -/
def enteredCommand (s : Shell M D) : Option Command :=
  parseCommand (List.ofFn (terminateLine s.cmdBuf s.cmdPos))

variable [TableMemory M] [PortBus D]

/-- `execute_command`. `none`: it leaves `cmd_buf` or does not come back. -/
def executeCommand (env : Environment) (s : Shell M D) : Option (Shell M D) :=
  if s.cmdPos = 0 then some s
  else if 64 ≤ s.cmdPos then none
  else do
    -- nothing behind the terminator is cleared
    let cmdBuf := terminateLine s.cmdBuf s.cmdPos
    let t := addToHistory s.terminal (fullPrompt env cmdBuf s.cmdPos)
    let command ← enteredCommand s
    let r ← runCommand env t command
    let t := addToHistory (r.2.note r.1) r.1.bytes
    some (shellRender env { cmdBuf := cmdBuf, cmdPos := 0, terminal := t })

/-- Draw a character of the command line. -/
def drawAt (s : Shell M D) (pos : ℕ) (c : U8) (fg : U32) : Shell M D :=
  { s with terminal := { s.terminal with
      drawn := s.terminal.drawn ++ [.drawString [c] (BitVec.ofNat 64 (32 + 12 * 8 + pos * 8))
        s.terminal.promptY fg fbColorBlack] } }

/-- `shell_putc`. -/
def shellPutc (env : Environment) (s : Shell M D) (c : U8) : Option (Shell M D) :=
  if c = 8 then
    if 0 < s.cmdPos then some (drawAt { s with cmdPos := s.cmdPos - 1 }
      (s.cmdPos - 1) 32 fbColorWhite)
    else some s
  else if c = 10 ∨ c = 13 then executeCommand env s
  else if s.cmdPos < 63 then
    some (drawAt { s with
      cmdBuf := fun j => if j.val = s.cmdPos then c else s.cmdBuf j
      cmdPos := s.cmdPos + 1 } s.cmdPos c fbColorGreen)
  else some s

end Keys

end OS44
