import Mathlib.Data.List.Basic
import Mathlib.Tactic.IntervalCases
import OS44.BootInfo
import OS44.Library.X86

/-! # The interrupt stubs (`isr.asm`, `IntrFrame`)

The IDT sends the vectors 0 to 47 to stubs of their own and the others to `isr_unhandled`. A stub
makes up the error code where the processor pushes none, pushes the vector, and goes on in
`isr_common_stub`, which saves the registers, calls `isr_handler` with the address of what is now an
`IntrFrame`, loads the registers back and returns with `iretq`.

For every vector and every interrupted state, the handler gets an aligned stack and a frame with the
interrupted values in their fields, and the interrupted program goes on with all its registers
(`isr_stub_correct`). -/

namespace OS44

open X86

/-- The labels of `isr.asm`; `isr_handler` is the C function. -/
inductive IsrLabel
  | isr (vector : ℕ)
  | isrUnhandled
  | isrCommonStub
  | isrHandler
  deriving DecidableEq, Repr

/-- `ISR_NOERRCODE`. -/
def isrNoErrCode (n : ℕ) : List (Instr IsrLabel) :=
  [.pushImm 0, .pushImm (BitVec.ofNat 64 n), .jmp .isrCommonStub]

/-- `ISR_ERRCODE`. -/
def isrErrCode (n : ℕ) : List (Instr IsrLabel) :=
  [.pushImm (BitVec.ofNat 64 n), .jmp .isrCommonStub]

/-- The stubs of the vectors, in order. -/
def isrStubs : List (List (Instr IsrLabel)) :=
  [isrNoErrCode 0, isrNoErrCode 1, isrNoErrCode 2, isrNoErrCode 3, isrNoErrCode 4, isrNoErrCode 5,
    isrNoErrCode 6, isrNoErrCode 7, isrErrCode 8, isrNoErrCode 9, isrErrCode 10, isrErrCode 11,
    isrErrCode 12, isrErrCode 13, isrErrCode 14, isrNoErrCode 15, isrNoErrCode 16, isrErrCode 17,
    isrNoErrCode 18, isrNoErrCode 19, isrNoErrCode 20, isrErrCode 21, isrNoErrCode 22,
    isrNoErrCode 23, isrNoErrCode 24, isrNoErrCode 25, isrNoErrCode 26, isrNoErrCode 27,
    isrNoErrCode 28, isrNoErrCode 29, isrNoErrCode 30, isrNoErrCode 31] ++
  -- `%assign i 32`, `%rep 16`
  (List.range 16).map fun i => isrNoErrCode (32 + i)

/-- `isr_unhandled`. -/
def isrUnhandled : List (Instr IsrLabel) := [.pushImm 0, .pushImm 0xFFFF, .jmp .isrCommonStub]

/-- `isr_common_stub`. -/
def isrCommonStub : List (Instr IsrLabel) :=
  [.push .rax, .push .rbx, .push .rcx, .push .rdx, .push .rbp, .push .rdi, .push .rsi, .push .r8,
    .push .r9, .push .r10, .push .r11, .push .r12, .push .r13, .push .r14, .push .r15,
    .mov .rdi .rsp,
    .call .isrHandler,
    .pop .r15, .pop .r14, .pop .r13, .pop .r12, .pop .r11, .pop .r10, .pop .r9, .pop .r8,
    .pop .rsi, .pop .rdi, .pop .rbp, .pop .rdx, .pop .rcx, .pop .rbx, .pop .rax,
    .add .rsp 16,
    .iretq]

/-- The code behind the labels. -/
def isrText : IsrLabel → List (Instr IsrLabel)
  | .isr vector => isrStubs.getD vector []
  | .isrUnhandled => isrUnhandled
  | .isrCommonStub => isrCommonStub
  | .isrHandler => []

/-- The handlers in the IDT after `intr_init`: first `isr_unhandled` in every gate, then the stubs
in the gates of their vectors. -/
def intrInit : ℕ → IsrLabel :=
  (List.range 48).foldl (fun idt i => Function.update idt i (.isr i)) fun _ => .isrUnhandled

/-- The vectors for which the processor pushes an error code. -/
def errorCodeVectors : List ℕ := [8, 10, 11, 12, 13, 14, 17, 21]

/-- `IntrFrame`. -/
structure IntrFrame where
  r15 : U64
  r14 : U64
  r13 : U64
  r12 : U64
  r11 : U64
  r10 : U64
  r9 : U64
  r8 : U64
  rsi : U64
  rdi : U64
  rbp : U64
  rdx : U64
  rcx : U64
  rbx : U64
  rax : U64
  vector : U64
  errorCode : U64
  rip : U64
  cs : U64
  rflags : U64
  rsp : U64
  ss : U64
  deriving DecidableEq, Repr

/-- The frame at an address: fields of eight bytes, in order. -/
def readIntrFrame (m : PhysMem) (a : U64) : IntrFrame :=
  let field (i : ℕ) := loadWord m (a + BitVec.ofNat 64 (8 * i))
  { r15 := field 0, r14 := field 1, r13 := field 2, r12 := field 3, r11 := field 4, r10 := field 5
    r9 := field 6, r8 := field 7, rsi := field 8, rdi := field 9, rbp := field 10, rdx := field 11
    rcx := field 12, rbx := field 13, rax := field 14, vector := field 15, errorCode := field 16
    rip := field 17, cs := field 18, rflags := field 19, rsp := field 20, ss := field 21 }

/-- The frame that names each interrupted register. -/
def interruptedFrame (c : Cpu) (vector errorCode : U64) : IntrFrame where
  r15 := c.reg .r15
  r14 := c.reg .r14
  r13 := c.reg .r13
  r12 := c.reg .r12
  r11 := c.reg .r11
  r10 := c.reg .r10
  r9 := c.reg .r9
  r8 := c.reg .r8
  rsi := c.reg .rsi
  rdi := c.reg .rdi
  rbp := c.reg .rbp
  rdx := c.reg .rdx
  rcx := c.reg .rcx
  rbx := c.reg .rbx
  rax := c.reg .rax
  vector := vector
  errorCode := errorCode
  rip := c.rip
  cs := c.cs.setWidth 64
  rflags := c.rflags
  rsp := c.reg .rsp
  ss := c.ss.setWidth 64

/-- **How `isr_handler` returns**, entered in the state `entry` with the return address on the
stack: as the System V ABI has it, with the bytes of the frame as they were. -/
structure HandlerReturns (entry c : Cpu) : Prop where
  rip_eq : c.rip = entry.top
  rsp_eq : c.reg .rsp = entry.reg .rsp + 8
  callee_saved : ∀ r ∈ [Reg.rbx, .rbp, .r12, .r13, .r14, .r15], c.reg r = entry.reg r
  frame_eq : ∀ k < 8 * 22, c.mem (entry.reg .rsp + 8 + BitVec.ofNat 64 k) =
    entry.mem (entry.reg .rsp + 8 + BitVec.ofNat 64 k)

/-! ## The stubs -/

/-- The registers that `isr_common_stub` saves, in the order in which it pushes them. -/
def savedRegs : List Reg :=
  [.rax, .rbx, .rcx, .rdx, .rbp, .rdi, .rsi, .r8, .r9, .r10, .r11, .r12, .r13, .r14, .r15]

/-- The common stub saves the registers and loads them back in the opposite order. -/
theorem isrCommonStub_eq : isrCommonStub = savedRegs.map Instr.push ++
    .mov .rdi .rsp :: .call .isrHandler ::
      (savedRegs.reverse.map Instr.pop ++ [.add .rsp 16, .iretq]) := rfl

/-- `intr_init` gives the first 48 vectors stubs of their own. -/
theorem intrInit_eq (v : ℕ) : intrInit v = if v < 48 then .isr v else .isrUnhandled := by
  have hloop : ∀ n, (List.range n).foldl (fun idt i => Function.update idt i (IsrLabel.isr i))
      (fun _ => .isrUnhandled) v = if v < n then .isr v else .isrUnhandled := by
    intro n
    induction n with
    | zero => rfl
    | succ n ih =>
      rw [List.range_succ, List.foldl_concat]
      by_cases hv : v = n
      · subst hv
        rw [Function.update_self, if_pos (Nat.lt_succ_self v)]
      · rw [Function.update_of_ne hv, ih]
        exact if_congr (by omega) rfl rfl
  exact hloop 48

/-- The stubs follow the vectors with an error code. -/
theorem isrText_isr {v : ℕ} (hv : v < 48) : isrText (.isr v) =
    if v ∈ errorCodeVectors then isrErrCode v else isrNoErrCode v := by
  interval_cases v <;> rfl

/-- The vector that the handler is told. -/
def vectorField (v : ℕ) : U64 := if v < 48 then BitVec.ofNat 64 v else 0xFFFF

/-- The error code that the processor pushes. -/
def pushedErrorCode (v : ℕ) (e : U64) : Option U64 := if v ∈ errorCodeVectors then some e else none

/-- Every stub ends with the vector and an error code on the stack. -/
theorem isrText_intrInit (v : ℕ) : isrText (intrInit v) =
    (if v ∈ errorCodeVectors then [] else [.pushImm 0]) ++
      [.pushImm (vectorField v), .jmp .isrCommonStub] := by
  rw [intrInit_eq, vectorField]
  by_cases hv : v < 48
  · rw [if_pos hv, if_pos hv, isrText_isr hv]
    split_ifs <;> rfl
  · have hcode : v ∉ errorCodeVectors := fun h => by
      have : ∀ n ∈ errorCodeVectors, n < 48 := by decide
      exact hv (this v h)
    rw [if_neg hv, if_neg hv, if_neg hcode]
    rfl

variable {c : Cpu} {v : ℕ} {e : U64}

/-- **The frame is what the pushes left**, field by field. -/
theorem readIntrFrame_of_holds {m : PhysMem} {a code : U64}
    (h : Holds m a ((savedRegs.map c.reg).reverse ++ [vectorField v, code, c.rip,
      c.cs.setWidth 64, c.rflags, c.reg .rsp, c.ss.setWidth 64])) :
    readIntrFrame m a = interruptedFrame c (vectorField v) code := by
  have hfield : ∀ i (hi : i < 22), loadWord m (a + BitVec.ofNat 64 (8 * i)) = _ :=
    fun i hi => h.getElem i hi
  unfold readIntrFrame interruptedFrame
  rw [IntrFrame.mk.injEq]
  exact ⟨hfield 0 (by decide), hfield 1 (by decide), hfield 2 (by decide), hfield 3 (by decide),
    hfield 4 (by decide), hfield 5 (by decide), hfield 6 (by decide), hfield 7 (by decide),
    hfield 8 (by decide), hfield 9 (by decide), hfield 10 (by decide), hfield 11 (by decide),
    hfield 12 (by decide), hfield 13 (by decide), hfield 14 (by decide), hfield 15 (by decide),
    hfield 16 (by decide), hfield 17 (by decide), hfield 18 (by decide), hfield 19 (by decide),
    hfield 20 (by decide), hfield 21 (by decide)⟩

/-- **A stub up to the common part**: the vector and an error code lie on top of what the processor
saved, and the registers are those of the interrupted program. -/
theorem steps_stub (c : Cpu) (v : ℕ) (e : U64) : ∃ c₁,
    Steps isrText (isrText (intrInit v), c.interrupt (pushedErrorCode v e)) (isrCommonStub, c₁) ∧
    c₁.StackHolds [vectorField v, (pushedErrorCode v e).getD 0, c.rip, c.cs.setWidth 64, c.rflags,
      c.reg .rsp, c.ss.setWidth 64] ∧
    c₁.reg .rsp = (c.reg .rsp &&& ~~~0xF) - 56 ∧ ∀ r ≠ .rsp, c₁.reg r = c.reg r := by
  obtain ⟨hholds, hsp, hreg⟩ := c.stackHolds_interrupt (pushedErrorCode v e)
  rw [isrText_intrInit]
  unfold pushedErrorCode at hholds hsp hreg ⊢
  split_ifs at hholds hsp hreg ⊢ with hv
  · -- the error code is there
    refine ⟨(c.interrupt (some e)).push (vectorField v), ?_, hholds.push (by simp) _, ?_, ?_⟩
    · exact Steps.head rfl (Steps.head rfl Relation.ReflTransGen.refl)
    · rw [Cpu.rsp_push, hsp, BitVec.sub_sub]
      rfl
    · intro r hr
      rw [Cpu.reg_push_of_ne _ hr, hreg r hr]
  · -- the stub makes one up
    refine ⟨((c.interrupt none).push 0).push (vectorField v), ?_,
      (hholds.push (by simp) 0).push (by simp) _, ?_, ?_⟩
    · exact Steps.head rfl (Steps.head rfl (Steps.head rfl Relation.ReflTransGen.refl))
    · rw [Cpu.rsp_push, Cpu.rsp_push, hsp, BitVec.sub_sub, BitVec.sub_sub]
      rfl
    · intro r hr
      rw [Cpu.reg_push_of_ne _ hr, Cpu.reg_push_of_ne _ hr, hreg r hr]

/-- The code of the common stub behind the call. -/
def afterCall : List (Instr IsrLabel) := savedRegs.reverse.map Instr.pop ++ [.add .rsp 16, .iretq]

/-- **The common stub up to the call**: the whole frame lies on the stack and `RDI` points to it. -/
theorem steps_save {c₁ : Cpu} {ws : List U64} (h : c₁.StackHolds ws) (hlen : ws.length = 7) :
    ∃ c₂, Steps isrText (isrCommonStub, c₁) (.call .isrHandler :: afterCall, c₂) ∧
      c₂.StackHolds ((savedRegs.map c₁.reg).reverse ++ ws) ∧
      c₂.reg .rsp = c₁.reg .rsp - 120 ∧ c₂.reg .rdi = c₂.reg .rsp := by
  obtain ⟨hholds, hsp⟩ := h.pushRegs savedRegs (by decide) (by rw [hlen]; decide)
  have hset : ((c₁.pushRegs savedRegs).set .rdi ((c₁.pushRegs savedRegs).reg .rsp)).reg .rsp =
      (c₁.pushRegs savedRegs).reg .rsp := Cpu.set_of_ne _ (by decide) _
  refine ⟨(c₁.pushRegs savedRegs).set .rdi ((c₁.pushRegs savedRegs).reg .rsp), ?_, ?_, ?_, ?_⟩
  · rw [isrCommonStub_eq]
    exact (steps_pushRegs savedRegs c₁).trans (Steps.head rfl Relation.ReflTransGen.refl)
  · show Holds _ _ _
    rw [hset]
    exact hholds
  · rw [hset]
    exact hsp
  · rw [hset, Cpu.set_self]

/-- **The common stub behind the call**: with the frame on the stack it loads the registers back,
drops the vector and the error code, and returns to the interrupted program. -/
theorem steps_restore {c₂ : Cpu} (v : ℕ) (code : U64)
    (h : c₂.StackHolds ((savedRegs.map c.reg).reverse ++ [vectorField v, code, c.rip,
      c.cs.setWidth 64, c.rflags, c.reg .rsp, c.ss.setWidth 64])) :
    ∃ c₃, Steps isrText (afterCall, c₂) ([], c₃) ∧ (∀ r, c₃.reg r = c.reg r) ∧ c₃.rip = c.rip ∧
      c₃.rflags = c.rflags ∧ c₃.cs = c.cs ∧ c₃.ss = c.ss := by
  rw [← List.map_reverse] at h
  obtain ⟨hholds, hreg, -⟩ := h.popRegs (by decide) (by decide)
  -- `add rsp, 16` takes the vector and the error code off
  have hstate : ((c₂.popRegs savedRegs.reverse).add .rsp 16).StackHolds
      [c.rip, c.cs.setWidth 64, c.rflags, c.reg .rsp, c.ss.setWidth 64] :=
    Cpu.StackHolds.add [vectorField v, code] hholds
  obtain ⟨hrip, hcs, hflags, hrsp, hss⟩ := hstate.iretq
  refine ⟨((c₂.popRegs savedRegs.reverse).add .rsp 16).iretq, ?_, ?_, hrip,
    hflags, hcs, hss⟩
  · exact (steps_popRegs savedRegs.reverse c₂).trans
      (Steps.head rfl (Steps.head rfl Relation.ReflTransGen.refl))
  · intro r
    by_cases hr : r = .rsp
    · rw [hr, hrsp]
    · have hsaved : ∀ r ≠ Reg.rsp, r ∈ savedRegs.reverse := by
        intro r
        cases r <;> decide
      rw [Cpu.reg_iretq_of_ne _ hr, Cpu.reg_add_of_ne _ hr, hreg r (hsaved r hr)]

/-- **Interrupts go unnoticed.** For every vector, every interrupted state, every error code and
every return address: the stub reaches the call of `isr_handler` with `RSP` aligned to 16 bytes and
`RDI` at an `IntrFrame` with the interrupted values in all its fields; and when the handler returns,
the stub reaches its `iretq`, after which all registers, `RIP`, `RSP` and `RFLAGS` are those of the
interrupted program. -/
theorem isr_stub_correct (c : Cpu) (v : ℕ) (e ret : U64) : ∃ called code,
    Steps isrText (isrText (intrInit v), c.interrupt (pushedErrorCode v e))
      (.call .isrHandler :: code, called) ∧
    (called.reg .rsp).toNat % 16 = 0 ∧
    readIntrFrame called.mem (called.reg .rdi) =
      interruptedFrame c (vectorField v) ((pushedErrorCode v e).getD 0) ∧
    ∀ returned, HandlerReturns (called.push ret) returned →
      ∃ back, Steps isrText (code, returned) ([], back) ∧ (∀ r, back.reg r = c.reg r) ∧
        back.rip = c.rip ∧ back.rflags = c.rflags ∧ back.cs = c.cs ∧ back.ss = c.ss := by
  obtain ⟨c₁, hstub, hholds₁, hsp₁, hreg₁⟩ := steps_stub c v e
  obtain ⟨c₂, hsave, hholds₂, hsp₂, hrdi⟩ := steps_save hholds₁ rfl
  have hsame : savedRegs.map c₁.reg = savedRegs.map c.reg := by
    apply List.map_congr_left
    intro r hr
    exact hreg₁ r (by rintro rfl; revert hr; decide)
  rw [hsame] at hholds₂
  refine ⟨c₂, afterCall, hstub.trans hsave, ?_, ?_, ?_⟩
  · -- the processor aligned the stack, and 176 bytes were pushed since
    have halign := Cpu.toNat_and_not_fifteen (c.reg .rsp)
    rw [hsp₂, hsp₁]
    bv_omega
  · rw [hrdi]
    exact readIntrFrame_of_holds hholds₂
  · intro returned hret
    have hframe : (c₂.push ret).reg .rsp + 8 = c₂.reg .rsp := by
      rw [Cpu.rsp_push, BitVec.sub_add_cancel]
    refine steps_restore v ((pushedErrorCode v e).getD 0) ?_
    have hpushed := hholds₂.push (by simp [savedRegs]) ret
    show Holds returned.mem (returned.reg .rsp) _
    rw [hret.rsp_eq]
    refine Holds.congr hpushed.2 fun k hk => hret.frame_eq k ?_
    simpa [savedRegs] using hk

/-- A timer interrupt (vector 32) in a program whose registers are all zero, with a handler that
returns at once. -/
theorem isr_stub_correct_sample : ∃ called code back,
    Steps isrText (isrText (intrInit 32), Cpu.interrupt
      { reg := fun _ => 0, rip := 0x100000, rflags := 0x202, cs := 8, ss := 16, mem := fun _ => 0 }
      none) (.call .isrHandler :: code, called) ∧
    Steps isrText (code, { called with rip := 0x200000 }) ([], back) ∧
    back.rip = 0x100000 ∧ back.rflags = 0x202 := by
  obtain ⟨called, code, hcall, -, -, hret⟩ := isr_stub_correct
    { reg := fun _ => 0, rip := 0x100000, rflags := 0x202, cs := 8, ss := 16, mem := fun _ => 0 }
    32 0 0x200000
  have hreturns : HandlerReturns (called.push 0x200000) { called with rip := 0x200000 } := by
    refine ⟨?_, ?_, ?_, ?_⟩
    · show _ = loadWord (storeWord _ _ _) ((called.push 0x200000).reg .rsp)
      rw [Cpu.rsp_push, loadWord_storeWord]
    · rw [Cpu.rsp_push, BitVec.sub_add_cancel]
    · intro r hr
      exact (called.reg_push_of_ne (by rintro rfl; simp at hr) _).symm
    · intro k hk
      refine (LittleEndian.storeLE_of_not_lt ?_).symm
      rw [Cpu.rsp_push]
      bv_omega
  obtain ⟨back, hback, -, hrip, hflags, -, -⟩ := hret _ hreturns
  exact ⟨called, code, back, hcall, hback, hrip, hflags⟩

end OS44
