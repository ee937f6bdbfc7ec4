import Mathlib.Logic.Function.Basic
import Mathlib.Logic.Relation
import OS44.Library.LittleEndian

/-! # A stack machine with x86-64 interrupts

The part of the x86-64 that interrupt stubs use: general registers, `RIP`, `RFLAGS`, the code and
stack selectors, memory, `push` and `pop`, the delivery of an interrupt and `iretq`. The stack is
described by the words it holds (`StackHolds`): a push puts one in front, a pop takes one off, and
saving registers and loading them back in the opposite order loads the saved values
(`pushRegs_spec`, `popRegs_spec`).

Code is a list of instructions with labels. While it runs, the instructions still to be executed
stand for the instruction pointer. -/

namespace OS44.X86

open LittleEndian

universe u

/-- The general registers. -/
inductive Reg
  | rax | rbx | rcx | rdx | rbp | rdi | rsi | rsp
  | r8 | r9 | r10 | r11 | r12 | r13 | r14 | r15
  deriving DecidableEq, Repr

/-- The state of the processor and its memory. -/
structure Cpu where
  reg : Reg → BitVec 64
  rip : BitVec 64
  rflags : BitVec 64
  cs : BitVec 16
  ss : BitVec 16
  mem : Bytes 64

/-- The 64-bit word at an address. -/
def loadWord (m : Bytes 64) (a : BitVec 64) : BitVec 64 := BitVec.ofNat 64 (loadLE m a 8)

/-- Store a 64-bit word. -/
def storeWord (m : Bytes 64) (a x : BitVec 64) : Bytes 64 := storeLE m a 8 x.toNat

namespace Cpu

/-- Set a register. -/
def set (c : Cpu) (r : Reg) (x : BitVec 64) : Cpu := { c with reg := Function.update c.reg r x }

/-- `push`: the stack grows downwards. -/
def push (c : Cpu) (x : BitVec 64) : Cpu :=
  { c.set .rsp (c.reg .rsp - 8) with mem := storeWord c.mem (c.reg .rsp - 8) x }

/-- The word on top of the stack. -/
def top (c : Cpu) : BitVec 64 := loadWord c.mem (c.reg .rsp)

/-- Take the top word off the stack. -/
def drop (c : Cpu) : Cpu := c.set .rsp (c.reg .rsp + 8)

/-- `pop r`. -/
def pop (c : Cpu) (r : Reg) : Cpu := c.drop.set r c.top

/-- `RFLAGS` while the handler of an interrupt gate starts: `TF`, `IF`, `NT` and
`RF` are cleared. -/
def gateFlags (flags : BitVec 64) : BitVec 64 := flags &&& ~~~0x14300

/-- The first part of the delivery of an interrupt, on the current stack: `RSP` is aligned to 16
bytes, and `SS`, `RSP`, `RFLAGS`, `CS` and `RIP` are pushed. -/
def pushState (c : Cpu) : Cpu :=
  let aligned := c.set .rsp (c.reg .rsp &&& ~~~0xF)
  ((((aligned.push (c.ss.setWidth 64)).push (c.reg .rsp)).push c.rflags).push
    (c.cs.setWidth 64)).push c.rip

/-- **The delivery of an interrupt**, which pushes the error code last if there is one. -/
def interrupt (c : Cpu) (errorCode : Option (BitVec 64)) : Cpu :=
  let gate := { c.pushState with rflags := gateFlags c.rflags }
  match errorCode with
  | none => gate
  | some e => gate.push e

/-- `iretq` pops `RIP`, `CS`, `RFLAGS`, `RSP` and `SS`. -/
def iretq (c : Cpu) : Cpu :=
  { c.set .rsp (loadWord c.mem (c.reg .rsp + 24)) with
    rip := loadWord c.mem (c.reg .rsp)
    cs := (loadWord c.mem (c.reg .rsp + 8)).setWidth 16
    rflags := loadWord c.mem (c.reg .rsp + 16)
    ss := (loadWord c.mem (c.reg .rsp + 32)).setWidth 16 }

/-- The flags that `add a b` sets in `flags`: `CF`, `PF`, `AF`, `ZF`, `SF` and `OF`. -/
def addFlags (flags a b : BitVec 64) : BitVec 64 :=
  let sum := a + b
  let bit (n : ℕ) (p : Bool) : BitVec 64 := if p then BitVec.twoPow 64 n else 0
  flags &&& ~~~0x8D5 ||| bit 0 (decide (2 ^ 64 ≤ a.toNat + b.toNat)) |||
    bit 2 ((List.range 8).foldl (fun p i => p ^^ sum.getLsbD i) true) |||
    bit 4 (decide (16 ≤ a.toNat % 16 + b.toNat % 16)) ||| bit 6 (sum == 0) ||| bit 7 sum.msb |||
    bit 11 (a.msb == b.msb && sum.msb != a.msb)

/-- `add r, x`. -/
def add (c : Cpu) (r : Reg) (x : BitVec 64) : Cpu :=
  { c.set r (c.reg r + x) with rflags := addFlags c.rflags (c.reg r) x }

end Cpu

/-! ## Code -/

/-- The instructions, with labels in `L`. -/
inductive Instr (L : Type u)
  | pushImm (x : BitVec 64)
  | push (r : Reg)
  | pop (r : Reg)
  | mov (dst src : Reg)
  | add (r : Reg) (x : BitVec 64)
  | call (l : L)
  | jmp (l : L)
  | iretq

/-- The instructions still to be executed, and the state of the processor. -/
abbrev Config (L : Type u) : Type u := List (Instr L) × Cpu

/-- One step, in a program that gives the code behind each label; `none` where it leaves this code,
by a call or at the end. -/
def step {L : Type u} (text : L → List (Instr L)) : Config L → Option (Config L)
  | ([], _) => none
  | (.pushImm x :: k, c) => some (k, c.push x)
  | (.push r :: k, c) => some (k, c.push (c.reg r))
  | (.pop r :: k, c) => some (k, c.pop r)
  | (.mov dst src :: k, c) => some (k, c.set dst (c.reg src))
  | (.add r x :: k, c) => some (k, c.add r x)
  | (.call _ :: _, _) => none
  | (.jmp l :: _, c) => some (text l, c)
  | (.iretq :: _, c) => some ([], c.iretq)

/-- Any number of steps. -/
def Steps {L : Type u} (text : L → List (Instr L)) : Config L → Config L → Prop :=
  Relation.ReflTransGen fun s t => step text s = some t

/-! ## What the stack holds -/

/-- The words `ws` are stored one behind another from `a` on. -/
def Holds (m : Bytes 64) : BitVec 64 → List (BitVec 64) → Prop
  | _, [] => True
  | a, x :: ws => loadWord m a = x ∧ Holds m (a + 8) ws

/-- The stack holds `ws`, top word first. -/
def Cpu.StackHolds (c : Cpu) (ws : List (BitVec 64)) : Prop := Holds c.mem (c.reg .rsp) ws

variable {m m' : Bytes 64} {a x : BitVec 64} {c : Cpu} {ws : List (BitVec 64)} {r : Reg}

@[simp] theorem loadWord_storeWord (m : Bytes 64) (a x : BitVec 64) :
    loadWord (storeWord m a x) a = x := by
  rw [loadWord, storeWord, loadLE_storeLE m a (by decide) _ le_rfl]
  exact BitVec.eq_of_toNat_eq (by simp; omega)

/-- A word depends only on its eight bytes. -/
theorem loadWord_congr (h : ∀ k < 8, m' (a + BitVec.ofNat 64 k) = m (a + BitVec.ofNat 64 k)) :
    loadWord m' a = loadWord m a := by
  rw [loadWord, loadWord, loadLE_congr h]

/-- Words depend only on their bytes. -/
theorem Holds.congr (h : Holds m a ws)
    (heq : ∀ k < 8 * ws.length, m' (a + BitVec.ofNat 64 k) = m (a + BitVec.ofNat 64 k)) :
    Holds m' a ws := by
  induction ws generalizing a with
  | nil => trivial
  | cons x ws ih =>
    rw [List.length_cons] at heq
    refine ⟨?_, ih h.2 fun k hk => ?_⟩
    · rw [loadWord_congr fun k hk => heq k (by omega), h.1]
    · have hoff : a + 8 + BitVec.ofNat 64 k = a + BitVec.ofNat 64 (8 + k) := by
        rw [BitVec.ofNat_add, ← BitVec.add_assoc]
        rfl
      rw [hoff]
      exact heq (8 + k) (by omega)

/-- The word at position `i`. -/
theorem Holds.getElem (h : Holds m a ws) (i : ℕ) (hi : i < ws.length) :
    loadWord m (a + BitVec.ofNat 64 (8 * i)) = ws[i] := by
  induction ws generalizing a i with
  | nil => exact absurd hi (Nat.not_lt_zero i)
  | cons x ws ih =>
    cases i with
    | zero => simpa using h.1
    | succ i =>
      have hoff : a + BitVec.ofNat 64 (8 * (i + 1)) = a + 8 + BitVec.ofNat 64 (8 * i) := by
        rw [Nat.mul_succ, Nat.add_comm, BitVec.ofNat_add, ← BitVec.add_assoc]
        rfl
      rw [hoff, ih h.2 i (by simpa using hi), List.getElem_cons_succ]

/-- What lies behind the first words. -/
theorem Holds.drop (vs : List (BitVec 64)) (h : Holds m a (vs ++ ws)) :
    Holds m (a + BitVec.ofNat 64 (8 * vs.length)) ws := by
  induction vs generalizing a with
  | nil => simpa using h
  | cons x vs ih =>
    have hoff : a + BitVec.ofNat 64 (8 * (vs.length + 1)) =
        a + 8 + BitVec.ofNat 64 (8 * vs.length) := by
      rw [Nat.mul_succ, Nat.add_comm, BitVec.ofNat_add, ← BitVec.add_assoc]
      rfl
    rw [List.length_cons, hoff]
    exact ih h.2

namespace Cpu

@[simp] theorem set_self (c : Cpu) (r : Reg) (x : BitVec 64) : (c.set r x).reg r = x :=
  Function.update_self ..

theorem set_of_ne (c : Cpu) {r r' : Reg} (h : r' ≠ r) (x : BitVec 64) :
    (c.set r x).reg r' = c.reg r' := Function.update_of_ne h ..

@[simp] theorem rsp_push (c : Cpu) (x : BitVec 64) : (c.push x).reg .rsp = c.reg .rsp - 8 :=
  c.set_self .rsp _

theorem reg_push_of_ne (c : Cpu) (h : r ≠ .rsp) (x : BitVec 64) : (c.push x).reg r = c.reg r :=
  c.set_of_ne h _

/-- **A push puts its word in front**, unless the stack fills the whole address space. -/
theorem StackHolds.push (h : c.StackHolds ws) (hlen : 8 * (ws.length + 1) ≤ 2 ^ 64)
    (x : BitVec 64) : (c.push x).StackHolds (x :: ws) := by
  show Holds (storeWord c.mem (c.reg .rsp - 8) x) ((c.push x).reg .rsp) (x :: ws)
  rw [rsp_push]
  refine ⟨loadWord_storeWord .., ?_⟩
  rw [BitVec.sub_add_cancel]
  refine Holds.congr h fun k hk => storeLE_of_not_lt ?_
  -- the words held so far start eight bytes above the new one
  bv_omega

/-- A pop loads the top word and takes it off. -/
theorem StackHolds.pop (h : c.StackHolds (x :: ws)) (hr : r ≠ .rsp) :
    (c.pop r).reg r = x ∧ (c.pop r).StackHolds ws := by
  have hsp : (c.pop r).reg .rsp = c.reg .rsp + 8 := by
    rw [Cpu.pop, set_of_ne _ hr.symm, drop, set_self]
  refine ⟨?_, ?_⟩
  · rw [Cpu.pop, set_self]
    exact h.1
  · show Holds c.mem ((c.pop r).reg .rsp) ws
    rw [hsp]
    exact h.2

theorem reg_pop_of_ne (c : Cpu) {r' : Reg} (h : r' ≠ r) (hsp : r' ≠ .rsp) :
    (c.pop r).reg r' = c.reg r' := by
  rw [Cpu.pop, set_of_ne _ h, drop, set_of_ne _ hsp]

/-- Push registers, the first of the list first. -/
def pushRegs (c : Cpu) (rs : List Reg) : Cpu := rs.foldl (fun c r => c.push (c.reg r)) c

/-- Pop registers, the first of the list first. -/
def popRegs (c : Cpu) (rs : List Reg) : Cpu := rs.foldl Cpu.pop c

/-- **Pushed registers are held in the opposite order.** -/
theorem StackHolds.pushRegs (h : c.StackHolds ws) (rs : List Reg) (hrs : .rsp ∉ rs)
    (hlen : 8 * (rs.length + ws.length) ≤ 2 ^ 64) :
    (c.pushRegs rs).StackHolds ((rs.map c.reg).reverse ++ ws) ∧
      (c.pushRegs rs).reg .rsp = c.reg .rsp - BitVec.ofNat 64 (8 * rs.length) := by
  induction rs generalizing c ws with
  | nil => exact ⟨h, by simp [Cpu.pushRegs]⟩
  | cons r rs ih =>
    rw [List.mem_cons, not_or] at hrs
    rw [List.length_cons] at hlen
    -- `rsp` is none of the registers, so a push leaves those that are still to come
    have hlater : rs.map (c.push (c.reg r)).reg = rs.map c.reg := by
      apply List.map_congr_left
      intro r' hr'
      exact c.reg_push_of_ne (fun he => hrs.2 (he ▸ hr')) _
    obtain ⟨hholds, hsp⟩ := ih (h.push (by omega) (c.reg r)) hrs.2 (by rw [List.length_cons]; omega)
    refine ⟨?_, ?_⟩
    · rw [hlater] at hholds
      rw [List.map_cons, List.reverse_cons, List.append_assoc]
      exact hholds
    · show ((c.push (c.reg r)).pushRegs rs).reg .rsp = _
      rw [hsp, rsp_push, List.length_cons, Nat.mul_succ, Nat.add_comm, BitVec.ofNat_add,
        BitVec.sub_sub]
      rfl

/-- **Popped registers get the words held**, each register its own. -/
theorem StackHolds.popRegs {rs : List Reg} {f : Reg → BitVec 64} (h : c.StackHolds (rs.map f ++ ws))
    (hrs : .rsp ∉ rs) (hnodup : rs.Nodup) :
    (c.popRegs rs).StackHolds ws ∧ (∀ r ∈ rs, (c.popRegs rs).reg r = f r) ∧
      ∀ r ∉ rs, r ≠ .rsp → (c.popRegs rs).reg r = c.reg r := by
  induction rs generalizing c with
  | nil => exact ⟨h, by simp, fun r _ _ => rfl⟩
  | cons r rs ih =>
    rw [List.mem_cons, not_or] at hrs
    rw [List.nodup_cons] at hnodup
    obtain ⟨hr, hpop⟩ := h.pop (r := r) (Ne.symm hrs.1)
    obtain ⟨hholds, hmem, hother⟩ := ih hpop hrs.2 hnodup.2
    refine ⟨hholds, ?_, ?_⟩
    · intro r' hr'
      rcases List.mem_cons.mp hr' with rfl | hr'
      · -- popped first, and not again
        show ((c.pop r').popRegs rs).reg r' = f r'
        rw [hother r' hnodup.1 (Ne.symm hrs.1), hr]
      · exact hmem r' hr'
    · intro r' hr' hsp
      rw [List.mem_cons, not_or] at hr'
      show ((c.pop r).popRegs rs).reg r' = c.reg r'
      rw [hother r' hr'.2 hsp, c.reg_pop_of_ne hr'.1 hsp]

/-- Adding to `RSP` takes words off. -/
theorem StackHolds.add (vs : List (BitVec 64)) (h : c.StackHolds (vs ++ ws)) :
    (c.add .rsp (BitVec.ofNat 64 (8 * vs.length))).StackHolds ws := by
  have hsp : (c.add .rsp (BitVec.ofNat 64 (8 * vs.length))).reg .rsp =
      c.reg .rsp + BitVec.ofNat 64 (8 * vs.length) := c.set_self .rsp _
  show Holds c.mem ((c.add .rsp (BitVec.ofNat 64 (8 * vs.length))).reg .rsp) ws
  rw [hsp]
  exact Holds.drop vs h

theorem reg_add_of_ne (c : Cpu) {r' : Reg} (h : r' ≠ r) (x : BitVec 64) :
    (c.add r x).reg r' = c.reg r' := c.set_of_ne h _

/-- `iretq` takes `RIP`, `CS`, `RFLAGS`, `RSP` and `SS` from the stack. -/
theorem StackHolds.iretq {rip rflags rsp : BitVec 64} {cs ss : BitVec 16}
    (h : c.StackHolds [rip, cs.setWidth 64, rflags, rsp, ss.setWidth 64]) :
    c.iretq.rip = rip ∧ c.iretq.cs = cs ∧ c.iretq.rflags = rflags ∧ c.iretq.reg .rsp = rsp ∧
      c.iretq.ss = ss := by
  have hword : ∀ i (hi : i < 5), loadWord c.mem (c.reg .rsp + BitVec.ofNat 64 (8 * i)) =
      [rip, cs.setWidth 64, rflags, rsp, ss.setWidth 64][i] := fun i hi => h.getElem i hi
  -- a selector takes a word of its own on the stack, of which 16 bits are loaded
  have hselector : ∀ x : BitVec 16, (x.setWidth 64).setWidth 16 = x := fun x => by
    rw [BitVec.setWidth_setWidth_of_le x (by decide), BitVec.setWidth_eq]
  have h0 : loadWord c.mem (c.reg .rsp) = rip := h.1
  have h1 : loadWord c.mem (c.reg .rsp + 8) = cs.setWidth 64 := hword 1 (by decide)
  have h2 : loadWord c.mem (c.reg .rsp + 16) = rflags := hword 2 (by decide)
  have h3 : loadWord c.mem (c.reg .rsp + 24) = rsp := hword 3 (by decide)
  have h4 : loadWord c.mem (c.reg .rsp + 32) = ss.setWidth 64 := hword 4 (by decide)
  refine ⟨h0, ?_, h2, ?_, ?_⟩
  · show (loadWord c.mem (c.reg .rsp + 8)).setWidth 16 = cs
    rw [h1, hselector]
  · show (c.set .rsp (loadWord c.mem (c.reg .rsp + 24))).reg .rsp = rsp
    rw [set_self, h3]
  · show (loadWord c.mem (c.reg .rsp + 32)).setWidth 16 = ss
    rw [h4, hselector]

/-- `iretq` leaves the other registers alone. -/
theorem reg_iretq_of_ne (c : Cpu) (h : r ≠ .rsp) : c.iretq.reg r = c.reg r := c.set_of_ne h _

/-- Clearing the low four bits rounds down to a multiple of 16. -/
theorem toNat_and_not_fifteen (x : BitVec 64) : (x &&& ~~~0xF).toNat = x.toNat / 16 * 16 := by
  have hmask : ∀ i < 64, (~~~0xF : BitVec 64).getLsbD i = decide (4 ≤ i) := by decide
  have : x &&& (~~~0xF : BitVec 64) = x >>> 4 <<< 4 := by
    apply BitVec.eq_of_getLsbD_eq
    intro i hi
    rw [BitVec.getLsbD_and, hmask i hi, BitVec.getLsbD_shiftLeft, BitVec.getLsbD_ushiftRight]
    by_cases h4 : 4 ≤ i
    · simp [hi, h4]
    · simp [h4]
  rw [this]
  have := x.isLt
  simp only [BitVec.toNat_shiftLeft, BitVec.toNat_ushiftRight, Nat.shiftLeft_eq,
    Nat.shiftRight_eq_div_pow]
  omega

/-- The state that is saved when an interrupt is delivered. -/
theorem stackHolds_pushState (c : Cpu) : c.pushState.StackHolds
      [c.rip, c.cs.setWidth 64, c.rflags, c.reg .rsp, c.ss.setWidth 64] ∧
    c.pushState.reg .rsp = (c.reg .rsp &&& ~~~0xF) - 40 ∧
    ∀ r ≠ .rsp, c.pushState.reg r = c.reg r := by
  have hempty : (c.set .rsp (c.reg .rsp &&& ~~~0xF)).StackHolds [] := trivial
  refine ⟨?_, ?_, ?_⟩
  · exact ((((hempty.push (by simp) _).push (by simp) _).push (by simp) _).push (by simp) _).push
      (by simp) _
  · simp only [pushState, rsp_push, set_self, BitVec.sub_sub]
    rfl
  · intro r hr
    simp only [pushState, reg_push_of_ne _ hr, set_of_ne _ hr]

/-- **What a delivered interrupt leaves on the stack**, which is aligned before it. -/
theorem stackHolds_interrupt (c : Cpu) (errorCode : Option (BitVec 64)) :
    (c.interrupt errorCode).StackHolds
        (errorCode.toList ++ [c.rip, c.cs.setWidth 64, c.rflags, c.reg .rsp, c.ss.setWidth 64]) ∧
      (c.interrupt errorCode).reg .rsp =
        (c.reg .rsp &&& ~~~0xF) - BitVec.ofNat 64 (8 * (errorCode.toList.length + 5)) ∧
      ∀ r ≠ .rsp, (c.interrupt errorCode).reg r = c.reg r := by
  obtain ⟨hholds, hsp, hreg⟩ := c.stackHolds_pushState
  cases errorCode with
  | none => exact ⟨hholds, hsp, hreg⟩
  | some e =>
    have hgate : { c.pushState with rflags := gateFlags c.rflags }.StackHolds
        [c.rip, c.cs.setWidth 64, c.rflags, c.reg .rsp, c.ss.setWidth 64] := hholds
    refine ⟨hgate.push (by simp) e, ?_, ?_⟩
    · show (Cpu.push _ e).reg .rsp = _
      rw [rsp_push, hsp, BitVec.sub_sub]
      rfl
    · intro r hr
      show (Cpu.push _ e).reg r = _
      rw [reg_push_of_ne _ hr, hreg r hr]

end Cpu

/-! ## Runs of straight-line code -/

section Runs

variable {L : Type u} {text : L → List (Instr L)} {k : List (Instr L)}

theorem Steps.head {s t t' : Config L} (h : step text s = some t) (h' : Steps text t t') :
    Steps text s t' := Relation.ReflTransGen.head h h'

theorem steps_pushRegs (rs : List Reg) (c : Cpu) :
    Steps text (rs.map Instr.push ++ k, c) (k, c.pushRegs rs) := by
  induction rs generalizing c with
  | nil => exact Relation.ReflTransGen.refl
  | cons r rs ih => exact Steps.head rfl (ih _)

theorem steps_popRegs (rs : List Reg) (c : Cpu) :
    Steps text (rs.map Instr.pop ++ k, c) (k, c.popRegs rs) := by
  induction rs generalizing c with
  | nil => exact Relation.ReflTransGen.refl
  | cons r rs ih => exact Steps.head rfl (ih _)

end Runs

end OS44.X86
