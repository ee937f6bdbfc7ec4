import Mathlib.Tactic.FinCases
import OS44.Interrupts.Pic

/-! # Starting the keyboard controller (`keyboard_init`)

`keyboard_init` talks to the 8042 through two ports and polls its status with a bound on every wait.
Whatever answers at the ports, the only thing it does to the interrupt controllers is to unmask
IRQ1 (`pics_keyboardInit`). With an 8042 behind the ports, however long each command takes below the
bounds, it leaves the configuration byte as meant and all answers read, and unmasks IRQ1 exactly if
the interface passes its test (`keyboard_init_configures`). -/

namespace OS44

open PortBus I8259

/-- `I8042_DATA`. -/
def i8042Data : U16 := 0x60

/-- `I8042_STATUS`. -/
def i8042Status : U16 := 0x64

/-- `I8042_CMD`. -/
def i8042Cmd : U16 := 0x64

/-- `I8042_STATUS_OBF`. -/
def i8042StatusObf : U8 := 1

/-- `I8042_STATUS_IBF`. -/
def i8042StatusIbf : U8 := 2

section Driver

variable {D : Type} [PortBus D]

/-- `i8042_wait_write`, with `timeout` rounds to go. -/
def i8042WaitWrite : ℕ → D → D
  | 0, d => d
  | timeout + 1, d =>
    let (status, d) := inb d i8042Status
    if status &&& i8042StatusIbf = 0 then d else i8042WaitWrite timeout d

/-- `i8042_wait_read`, with `timeout` rounds to go. -/
def i8042WaitRead : ℕ → D → Bool × D
  | 0, d => (false, d)
  | timeout + 1, d =>
    let (status, d) := inb d i8042Status
    if status &&& i8042StatusObf ≠ 0 then (true, d) else i8042WaitRead timeout d

/-- `i8042_flush`, with `limit` rounds to go. -/
def i8042Flush : ℕ → D → D
  | 0, d => d
  | limit + 1, d =>
    let (status, d) := inb d i8042Status
    if status &&& i8042StatusObf ≠ 0 then i8042Flush limit (inb d i8042Data).2 else d

/-- `i8042_wait_write(); outb(port, v);`. -/
def i8042Send (port : U16) (v : U8) (d : D) : D := outb (i8042WaitWrite 100000 d) port v

/-- What `keyboard_init` makes of the configuration byte. -/
def i8042Configure (cfg : U8) : U8 :=
  (cfg ||| (1 : U8) <<< 0) &&& ~~~((1 : U8) <<< 1) ||| (1 : U8) <<< 6

/-- `keyboard_init`. -/
def keyboardInit (d : D) : D :=
  let d := i8042Send i8042Cmd 0xAD d
  let d := i8042Send i8042Cmd 0xA7 d
  let d := i8042Flush 16 d
  let d := i8042Send i8042Cmd 0x20 d
  let (answered, d) := i8042WaitRead 100000 d
  if !answered then d
  else
    let (cfg, d) := inb d i8042Data
    let d := i8042Send i8042Cmd 0x60 d
    let d := i8042Send i8042Data (i8042Configure cfg) d
    let d := i8042Send i8042Cmd 0xAB d
    let (answered, d) := i8042WaitRead 100000 d
    if answered then
      let (result, d) := inb d i8042Data
      if result ≠ 0x00 then d
      else unmaskLine 1 (i8042Send i8042Cmd 0xAE d)
    else d

end Driver

/-! ## What it does to the interrupt controllers -/

section Pics

variable {D : Type} [PortBus D] {m : Machine D} {n : ℕ}

theorem inb_i8042Status (m : Machine D) : inb m i8042Status =
    ((inb m.rest i8042Status).1, { m with rest := (inb m.rest i8042Status).2 }) :=
  inb_rest (by decide)

theorem inb_i8042Data (m : Machine D) : inb m i8042Data =
    ((inb m.rest i8042Data).1, { m with rest := (inb m.rest i8042Data).2 }) :=
  inb_rest (by decide)

theorem i8042WaitWrite_rest (n : ℕ) (m : Machine D) :
    i8042WaitWrite n m = { m with rest := i8042WaitWrite n m.rest } := by
  induction n generalizing m with
  | zero => rfl
  | succ n ih =>
    simp only [i8042WaitWrite, inb_i8042Status]
    split_ifs
    · rfl
    · exact ih _

theorem i8042WaitRead_rest (n : ℕ) (m : Machine D) : i8042WaitRead n m =
    ((i8042WaitRead n m.rest).1, { m with rest := (i8042WaitRead n m.rest).2 }) := by
  induction n generalizing m with
  | zero => rfl
  | succ n ih =>
    simp only [i8042WaitRead, inb_i8042Status]
    split_ifs
    · rfl
    · exact ih _

theorem i8042Flush_rest (n : ℕ) (m : Machine D) :
    i8042Flush n m = { m with rest := i8042Flush n m.rest } := by
  induction n generalizing m with
  | zero => rfl
  | succ n ih =>
    simp only [i8042Flush, inb_i8042Status, inb_i8042Data]
    split_ifs
    · exact ih _
    · rfl

theorem i8042Send_rest {port : U16} (h : port = i8042Cmd ∨ port = i8042Data) (v : U8)
    (m : Machine D) : i8042Send port v m = { m with rest := i8042Send port v m.rest } := by
  have hport : ¬ PicPort port := by
    obtain rfl | rfl := h <;> decide
  rw [i8042Send, i8042WaitWrite_rest, outb_rest hport]
  rfl

/-- **`keyboard_init` on the rest of the machine**, and whether it comes to unmask IRQ1. -/
def i8042Init (d : D) : Bool × D :=
  let d := i8042Send i8042Cmd 0xAD d
  let d := i8042Send i8042Cmd 0xA7 d
  let d := i8042Flush 16 d
  let d := i8042Send i8042Cmd 0x20 d
  let (answered, d) := i8042WaitRead 100000 d
  if !answered then (false, d)
  else
    let (cfg, d) := inb d i8042Data
    let d := i8042Send i8042Cmd 0x60 d
    let d := i8042Send i8042Data (i8042Configure cfg) d
    let d := i8042Send i8042Cmd 0xAB d
    let (answered, d) := i8042WaitRead 100000 d
    if answered then
      let (result, d) := inb d i8042Data
      if result ≠ 0x00 then (false, d) else (true, i8042Send i8042Cmd 0xAE d)
    else (false, d)

/-- `keyboard_init` is the talk with the controller, and the unmasking if that went well. -/
theorem keyboardInit_eq (m : Machine D) : keyboardInit m =
    if (i8042Init m.rest).1 then unmaskLine 1 { m with rest := (i8042Init m.rest).2 }
    else { m with rest := (i8042Init m.rest).2 } := by
  have hcmd : ∀ v (m : Machine D),
      i8042Send i8042Cmd v m = { m with rest := i8042Send i8042Cmd v m.rest } :=
    fun v m => i8042Send_rest (.inl rfl) v m
  have hdata : ∀ v (m : Machine D),
      i8042Send i8042Data v m = { m with rest := i8042Send i8042Data v m.rest } :=
    fun v m => i8042Send_rest (.inr rfl) v m
  simp only [keyboardInit, i8042Init, hcmd, hdata, i8042Flush_rest, i8042WaitRead_rest,
    inb_i8042Data]
  split_ifs <;> simp_all

/-- **The interrupt controllers after `keyboard_init`**, whatever answers at the ports: as they
were, or with IRQ1 unmasked. -/
theorem pics_keyboardInit (h : m.pics.master.expects = .mask) : (keyboardInit m).pics =
    if (i8042Init m.rest).1 then { m.pics with
      master := { m.pics.master with imr := m.pics.master.imr &&& ~~~((1 : U8) <<< 1) } }
    else m.pics := by
  rw [keyboardInit_eq]
  split_ifs
  · exact congrArg Machine.pics (unmaskLine_eq (m := { m with rest := (i8042Init m.rest).2 }) h 1)
  · rfl

end Pics

/-! ## The controller -/

/-- An 8042. Each status read lets some time pass. -/
structure I8042 where
  /-- The configuration byte; bits 4 and 5 stop the keyboard and the second port. -/
  config : U8
  /-- What the interface test finds, 0 if nothing is wrong. -/
  portTest : U8
  /-- The other bits of the status. -/
  flags : U8
  /-- The bytes in the output buffer and behind it. -/
  output : List U8
  /-- An answer, and the status reads until it is in the output buffer. -/
  answer : Option (ℕ × U8)
  /-- The status reads until the input buffer is empty. -/
  busy : ℕ
  /-- The next byte of the data port is the configuration byte. -/
  takesConfig : Bool
  /-- The bytes taken from the input buffer so far. -/
  taken : ℕ
  /-- How long each byte stays in the input buffer. -/
  busyFor : ℕ → ℕ
  /-- How long each byte leaves the answer to wait for, if it has one. -/
  answerAfter : ℕ → ℕ

namespace I8042

/-- The time between two status reads. -/
def tick (c : I8042) : I8042 :=
  match c.answer with
  | some (0, v) => { c with busy := c.busy - 1, output := c.output ++ [v], answer := none }
  | some (n + 1, v) => { c with busy := c.busy - 1, answer := some (n, v) }
  | none => { c with busy := c.busy - 1 }

/-- The status. -/
def status (c : I8042) : U8 :=
  (c.flags &&& 0xFC) ||| (if c.output = [] then 0 else i8042StatusObf) |||
    (if c.busy = 0 then 0 else i8042StatusIbf)

/-- A byte goes to the input buffer and is taken from there; one written too early is lost. -/
def take (c : I8042) (effect : I8042 → I8042) : I8042 :=
  if c.busy ≠ 0 then c
  else effect { c with busy := c.busyFor c.taken, taken := c.taken + 1 }

/-- The answer to the byte taken last. -/
def respond (v : U8) (c : I8042) : I8042 :=
  { c with answer := some (c.answerAfter c.taken, v) }

/-- The commands. -/
def command (v : U8) (c : I8042) : I8042 :=
  if v = 0x20 then c.respond c.config
  else if v = 0x60 then { c with takesConfig := true }
  else if v = 0xA7 then { c with config := c.config ||| 0x20 }
  else if v = 0xA8 then { c with config := c.config &&& ~~~0x20 }
  else if v = 0xAB then c.respond c.portTest
  else if v = 0xAD then { c with config := c.config ||| 0x10 }
  else if v = 0xAE then { c with config := c.config &&& ~~~0x10 }
  else c

/-- A byte of the data port: the configuration byte, or one for the keyboard. -/
def datum (v : U8) (c : I8042) : I8042 :=
  if c.takesConfig then { c with config := v, takesConfig := false } else c

instance : PortBus I8042 where
  inb c port :=
    if port = i8042Status then (c.tick.status, c.tick)
    else if port = i8042Data then
      match c.output with
      | [] => (0, c)
      | v :: output => (v, { c with output := output })
    else (0xFF, c)
  inw c _ := (0xFFFF, c)
  outb c port v :=
    if port = i8042Cmd then c.take (command v)
    else if port = i8042Data then c.take (datum v)
    else c
  outw c _ _ := c

variable {c : I8042} {n : ℕ} {v : U8}

theorem inb_status (c : I8042) : inb c i8042Status = (c.tick.status, c.tick) := rfl

theorem inb_data {out : List U8} (h : c.output = v :: out) :
    inb c i8042Data = (v, { c with output := out }) := by
  show (match c.output with | [] => (0, c) | v :: out => (v, { c with output := out })) = _
  rw [h]

/-- The flag of the status that `i8042_wait_write` looks at. -/
theorem status_ibf_iff (c : I8042) : c.status &&& i8042StatusIbf = 0 ↔ c.busy = 0 := by
  have hflags : c.flags &&& 0xFC &&& i8042StatusIbf = 0 := by
    rw [BitVec.and_assoc]
    exact BitVec.and_zero
  rw [status, BitVec.and_or_distrib_right, BitVec.and_or_distrib_right, hflags]
  split_ifs with ho hb hb <;> simp [hb] <;> decide

/-- The flag that the other two loops look at. -/
theorem status_obf_iff (c : I8042) : c.status &&& i8042StatusObf ≠ 0 ↔ c.output ≠ [] := by
  have hflags : c.flags &&& 0xFC &&& i8042StatusObf = 0 := by
    rw [BitVec.and_assoc]
    exact BitVec.and_zero
  rw [status, BitVec.and_or_distrib_right, BitVec.and_or_distrib_right, hflags]
  split_ifs with ho hb hb <;> simp [ho] <;> decide

/-! ## The loops of the driver -/

theorem tick_of_none (h : c.answer = none) : c.tick = { c with busy := c.busy - 1 } := by
  unfold tick
  rw [h]

/-- **`i8042_wait_write` waits for the input buffer to be empty.** -/
theorem waitWrite_eq (ha : c.answer = none) (hb : c.busy ≤ n) :
    i8042WaitWrite n c = { c with busy := 0 } := by
  induction n generalizing c with
  | zero =>
    show c = { c with busy := 0 }
    rw [← Nat.le_zero.mp hb]
  | succ n ih =>
    simp only [i8042WaitWrite, inb_status, status_ibf_iff, tick_of_none ha]
    split_ifs with h1
    · rw [h1]
    · exact ih ha (Nat.sub_le_of_le_add hb)

/-- **`i8042_wait_read` waits for the answer.** -/
theorem waitRead_eq (ho : c.output = []) {k : ℕ} (ha : c.answer = some (k, v)) (hk : k < n) :
    ∃ b ≤ c.busy, i8042WaitRead n c =
      (true, { c with output := [v], answer := none, busy := b }) := by
  induction n generalizing c k with
  | zero => exact absurd hk (Nat.not_lt_zero k)
  | succ n ih =>
    simp only [i8042WaitRead, inb_status, status_obf_iff]
    cases k with
    | zero =>
      have htick : c.tick = { c with busy := c.busy - 1, output := [v], answer := none } := by
        unfold tick
        rw [ha]
        simp only [ho, List.nil_append]
      refine ⟨c.busy - 1, Nat.sub_le _ _, ?_⟩
      rw [htick, if_pos (by simp)]
    | succ k =>
      have htick : c.tick = { c with busy := c.busy - 1, answer := some (k, v) } := by
        unfold tick
        rw [ha]
      obtain ⟨b, hb, h⟩ := @ih c.tick (by rw [htick]; exact ho) k (by rw [htick]) (by omega)
      refine ⟨b, ?_, ?_⟩
      · rw [htick] at hb
        exact hb.trans (Nat.sub_le _ _)
      · rw [if_neg (by rw [htick]; exact fun h => h ho), h, htick]

/-- **`i8042_flush` reads what lies in the output buffer**, up to its bound. -/
theorem flush_eq (ha : c.answer = none) (ho : c.output.length ≤ n) :
    ∃ b ≤ c.busy, i8042Flush n c = { c with output := [], busy := b } := by
  induction n generalizing c with
  | zero =>
    have hnil := List.eq_nil_of_length_eq_zero (Nat.le_zero.mp ho)
    exact ⟨c.busy, le_rfl, by rw [← hnil]; rfl⟩
  | succ n ih =>
    simp only [i8042Flush, inb_status, status_obf_iff]
    have htick := tick_of_none ha
    by_cases hnil : c.output = []
    · refine ⟨c.busy - 1, Nat.sub_le _ _, ?_⟩
      rw [htick, if_neg fun h => h hnil, ← hnil]
    · obtain ⟨v, out, hout⟩ := List.exists_cons_of_ne_nil hnil
      have hread : inb c.tick i8042Data = (v, { c.tick with output := out }) :=
        inb_data (by rw [htick]; exact hout)
      rw [hout] at ho
      obtain ⟨b, hb, h⟩ := @ih { c.tick with output := out } (by rw [htick]; exact ha)
        (Nat.le_of_succ_le_succ ho)
      refine ⟨b, hb.trans ?_, ?_⟩
      · rw [htick]
        exact Nat.sub_le _ _
      · rw [if_pos (by rw [htick]; exact hnil), hread, h, htick]

/-- **The controller between two steps of the driver**: no answer is on its way, and it is faster
than the driver's patience. -/
structure Settled (c : I8042) (out : List U8) (cfg test : U8) : Prop where
  output_eq : c.output = out
  config_eq : c.config = cfg
  portTest_eq : c.portTest = test
  answer_eq : c.answer = none
  takesConfig_eq : c.takesConfig = false
  busy_le : c.busy ≤ 100000
  fast : ∀ k, c.busyFor k ≤ 100000 ∧ c.answerAfter k < 100000

variable {out : List U8} {cfg test : U8}

/-- The controller when it has taken another byte. -/
def taking (c : I8042) : I8042 := { c with busy := c.busyFor c.taken, taken := c.taken + 1 }

theorem Settled.taking (h : c.Settled out cfg test) : c.taking.Settled out cfg test :=
  ⟨h.output_eq, h.config_eq, h.portTest_eq, h.answer_eq, h.takesConfig_eq, (h.fast c.taken).1,
    h.fast⟩

/-- A byte of the driver is not lost. -/
theorem Settled.send_cmd (h : c.Settled out cfg test) (v : U8) :
    i8042Send i8042Cmd v c = command v c.taking := by
  rw [i8042Send, waitWrite_eq h.answer_eq h.busy_le]
  rfl

/-- A command that changes the configuration byte. -/
theorem Settled.change (h : c.Settled out cfg test) {f : U8 → U8}
    (hv : ∀ c : I8042, command v c = { c with config := f c.config }) :
    (i8042Send i8042Cmd v c).Settled out (f cfg) test := by
  have ht := h.taking
  rw [h.send_cmd, hv]
  exact ⟨ht.output_eq, congrArg f ht.config_eq, ht.portTest_eq, ht.answer_eq, ht.takesConfig_eq,
    ht.busy_le, ht.fast⟩

/-- The driver flushes a few bytes. -/
theorem Settled.flush (h : c.Settled out cfg test) (hout : out.length ≤ n) :
    (i8042Flush n c).Settled [] cfg test := by
  obtain ⟨b, hb, hflush⟩ := flush_eq h.answer_eq (h.output_eq ▸ hout)
  rw [hflush]
  exact ⟨rfl, h.config_eq, h.portTest_eq, h.answer_eq, h.takesConfig_eq, hb.trans h.busy_le, h.fast⟩

/-- **A command with an answer**: the driver gets the answer in time. -/
theorem Settled.ask (h : c.Settled [] cfg test) {w : I8042 → U8}
    (hv : ∀ c : I8042, command v c = c.respond (w c)) :
    ∃ c', i8042WaitRead 100000 (i8042Send i8042Cmd v c) = (true, c') ∧
      ∃ c'', inb c' i8042Data = (w c.taking, c'') ∧ c''.Settled [] cfg test := by
  have ht := h.taking
  rw [h.send_cmd, hv]
  obtain ⟨b, hb, hread⟩ := @waitRead_eq (c.taking.respond (w c.taking)) 100000 (w c.taking)
    ht.output_eq (c.answerAfter (c.taken + 1)) rfl (h.fast _).2
  refine ⟨_, hread, _, inb_data rfl, rfl, ht.config_eq, ht.portTest_eq, rfl, ht.takesConfig_eq,
    hb.trans ht.busy_le, ht.fast⟩

/-- The driver writes the configuration byte. -/
theorem Settled.configure (h : c.Settled out cfg test) (v : U8) :
    (i8042Send i8042Data v (i8042Send i8042Cmd 0x60 c)).Settled out v test := by
  have ht := h.taking
  have hbusy : (command 0x60 c.taking).busy ≤ 100000 := ht.busy_le
  have hsend : i8042Send i8042Data v (i8042Send i8042Cmd 0x60 c) =
      datum v (command 0x60 c.taking).taking := by
    rw [h.send_cmd, i8042Send, waitWrite_eq (c := command 0x60 c.taking) ht.answer_eq hbusy]
    rfl
  rw [hsend]
  exact ⟨ht.output_eq, rfl, ht.portTest_eq, ht.answer_eq, rfl, (ht.fast _).1, ht.fast⟩

/-- The configuration byte that `keyboard_init` leaves: the keyboard's interrupt and the translation
are on, the other port's interrupt is off, and so is that port; the keyboard runs if it passed the
test. The other bits are kept. -/
def configured (cfg test : U8) : U8 :=
  let cfg := i8042Configure (cfg ||| 0x10 ||| 0x20)
  if test = 0 then cfg &&& ~~~0x10 else cfg

/-- The talk of `keyboard_init` with the controller. -/
theorem Settled.i8042Init (h : c.Settled out cfg test) (hout : out.length ≤ 16) :
    (i8042Init c).1 = decide (test = 0) ∧
      (OS44.i8042Init c).2.Settled [] (configured cfg test) test := by
  have h₁ := h.change (v := 0xAD) (f := (· ||| 0x10)) fun _ => rfl
  have h₂ := h₁.change (v := 0xA7) (f := (· ||| 0x20)) fun _ => rfl
  have h₃ := h₂.flush hout
  obtain ⟨d₄, hread₄, c₄, hinb₄, h₄⟩ := h₃.ask (v := 0x20) (w := I8042.config) fun _ => rfl
  rw [h₃.taking.config_eq] at hinb₄
  have h₅ := h₄.configure (i8042Configure (cfg ||| 0x10 ||| 0x20))
  obtain ⟨d₆, hread₆, c₆, hinb₆, h₆⟩ := h₅.ask (v := 0xAB) (w := I8042.portTest) fun _ => rfl
  rw [h₅.taking.portTest_eq] at hinb₆
  have h₇ := h₆.change (v := 0xAE) (f := (· &&& ~~~0x10)) fun _ => rfl
  simp only [OS44.i8042Init, hread₄, hinb₄, hread₆, hinb₆, configured]
  by_cases h0 : test = 0
  · simp only [h0, Bool.not_true, Bool.false_eq_true, if_false, if_true, ne_eq, not_true_eq_false,
      decide_true]
    exact ⟨trivial, h0 ▸ h₇⟩
  · simp only [h0, Bool.not_true, Bool.false_eq_true, if_false, if_true, ne_eq, not_false_eq_true,
      decide_false]
    exact ⟨trivial, h₆⟩

/-- The bits of the configuration byte. -/
theorem getLsbD_configured (cfg test : U8) (i : Fin 8) : (configured cfg test).getLsbD i =
    (if i = 0 ∨ i = 5 ∨ i = 6 then true else if i = 1 then false
      else if i = 4 then decide (test ≠ 0) else cfg.getLsbD i) := by
  by_cases h0 : test = 0#8
  · fin_cases i <;> simp [configured, i8042Configure, h0]
  · fin_cases i <;> simp [configured, i8042Configure, h0]

end I8042

/-- **`keyboard_init` sets the keyboard up**, however long the controller takes for each command
below the bounds of the driver, whatever the firmware left in its configuration byte, and with up to
16 bytes unread. It leaves nothing to read; bits 0, 5 and 6 of the configuration byte are set, bit 1
is clear, and bit 4 stops the keyboard exactly if the interface test failed; and IRQ1 is unmasked
exactly if it did not. -/
theorem keyboard_init_configures (m : Machine I8042) (out : List U8) (cfg test : U8)
    (h : m.rest.Settled out cfg test) (hout : out.length ≤ 16)
    (hmask : m.pics.master.expects = .mask) :
    ∃ cfg', (keyboardInit m).rest.Settled [] cfg' test ∧
      (∀ i : Fin 8, cfg'.getLsbD i = if i = 0 ∨ i = 5 ∨ i = 6 then true else if i = 1 then false
        else if i = 4 then decide (test ≠ 0) else cfg.getLsbD i) ∧
      (keyboardInit m).pics = if test = 0 then { m.pics with
          master := { m.pics.master with imr := m.pics.master.imr &&& ~~~0x02 } }
        else m.pics := by
  obtain ⟨hflag, hsettled⟩ := h.i8042Init hout
  have hrest : (keyboardInit m).rest = (i8042Init m.rest).2 := by
    rw [keyboardInit_eq]
    split_ifs <;> rfl
  refine ⟨_, hrest ▸ hsettled, I8042.getLsbD_configured cfg test, ?_⟩
  rw [pics_keyboardInit hmask, hflag]
  by_cases h0 : test = 0
  · rw [decide_eq_true h0, if_pos rfl, if_pos h0]
    rfl
  · rw [decide_eq_false h0, if_neg Bool.false_ne_true, if_neg h0]

/-- A controller with a key press unread, behind controllers that were just programmed. -/
def sampleController : Machine I8042 where
  pics := ⟨remapped ⟨0, 0, 0, 0, 8, 4, false, false, true, .mask⟩ 32 4,
    remapped ⟨0, 0, 0, 0, 0x70, 2, false, false, true, .mask⟩ 40 2⟩
  rest :=
    { config := 0x65
      portTest := 0
      flags := 0x14
      output := [0x1E]
      answer := none
      busy := 3
      takesConfig := false
      taken := 0
      busyFor := fun k => k % 3
      answerAfter := fun _ => 7 }

/-- The sample controller is set up and IRQ1 unmasked. -/
theorem keyboard_init_configures_sample : ∃ cfg',
    (keyboardInit sampleController).rest.Settled [] cfg' 0 ∧
    (∀ i : Fin 8, cfg'.getLsbD i = if i = 0 ∨ i = 5 ∨ i = 6 then true else if i = 1 then false
      else if i = 4 then decide ((0 : U8) ≠ 0) else (0x65 : U8).getLsbD i) ∧
    (keyboardInit sampleController).pics = if (0 : U8) = 0 then { sampleController.pics with
        master := { sampleController.pics.master with
          imr := sampleController.pics.master.imr &&& ~~~0x02 } }
      else sampleController.pics :=
  keyboard_init_configures sampleController [0x1E] 0x65 0
    ⟨rfl, rfl, rfl, rfl, rfl, by decide, fun k =>
      ⟨(Nat.mod_lt k (by decide)).le.trans (by decide), show 7 < 100000 by decide⟩⟩ (by decide) rfl

end OS44
