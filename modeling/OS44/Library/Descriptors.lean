import OS44.Library.CLayout

/-! # Descriptor tables of the processor in 64-bit mode

`LGDT` and `LIDT` give the processor the address and the limit of its tables. To take an interrupt
it reads the gate of the vector, 16 bytes of the IDT, and the descriptor that the gate's selector
names, 8 bytes of the GDT. Anything wrong there is a fault, and a fault in the kernel's own tables
is the end of the machine. -/

namespace OS44.X86

open LittleEndian

/-- `GDTR` or `IDTR`: the offset of the table's last byte, and its address. -/
structure TableRegister where
  limit : BitVec 16
  base : BitVec 64
  deriving DecidableEq, Repr

/-- A gate of the IDT. -/
structure Gate where
  offset : BitVec 64
  selector : BitVec 16
  /-- The stack to change to, or 0. -/
  ist : ℕ
  gateType : ℕ
  dpl : ℕ
  present : Bool
  deriving DecidableEq, Repr

/-- What a code segment descriptor says in 64-bit mode. -/
structure CodeSegment where
  dpl : ℕ
  conforming : Bool
  /-- The `L` bit: code of 64 bits. -/
  long : Bool
  /-- The `D` bit, which must be clear where `L` is set. -/
  big : Bool
  present : Bool
  deriving DecidableEq, Repr

/-- The gate in two quadwords. -/
def Gate.decode (low high : ℕ) : Gate where
  offset := BitVec.ofNat 64 (low % 2 ^ 16 + low / 2 ^ 48 % 2 ^ 16 * 2 ^ 16 + high % 2 ^ 32 * 2 ^ 32)
  selector := BitVec.ofNat 16 (low / 2 ^ 16)
  ist := low / 2 ^ 32 % 8
  gateType := low / 2 ^ 40 % 32
  dpl := low / 2 ^ 45 % 4
  present := low / 2 ^ 47 % 2 == 1

/-- The code segment in a descriptor; none, where it is data or belongs to the system. -/
def CodeSegment.decode (d : ℕ) : Option CodeSegment :=
  if d / 2 ^ 43 % 4 = 3 then
    some {
      dpl := d / 2 ^ 45 % 4
      conforming := d / 2 ^ 42 % 2 == 1
      long := d / 2 ^ 53 % 2 == 1
      big := d / 2 ^ 54 % 2 == 1
      present := d / 2 ^ 47 % 2 == 1 }
  else none

/-- The gate of a vector; none behind the limit. -/
def gate (m : Bytes 64) (idtr : TableRegister) (v : ℕ) : Option Gate :=
  if 16 * v + 15 ≤ idtr.limit.toNat then
    let a := idtr.base + BitVec.ofNat 64 (16 * v)
    some (Gate.decode (loadLE m a 8) (loadLE m (a + BitVec.ofNat 64 8) 8))
  else none

/-- The code segment of a selector; none for the null selector, the LDT, or behind the limit. -/
def codeSegment (m : Bytes 64) (gdtr : TableRegister) (selector : BitVec 16) : Option CodeSegment :=
  let i := selector.toNat / 8
  if i ≠ 0 ∧ selector.toNat / 4 % 2 = 0 ∧ 8 * i + 7 ≤ gdtr.limit.toNat then
    CodeSegment.decode (loadLE m (gdtr.base + BitVec.ofNat 64 (8 * i)) 8)
  else none

/-- Where an interrupt goes. -/
structure Entry where
  rip : BitVec 64
  cs : BitVec 16
  ist : ℕ
  /-- An interrupt gate clears `IF`; a trap gate does not. -/
  clearsIf : Bool
  deriving DecidableEq, Repr

/-- **An interrupt in ring 0**: the gate must be present and an interrupt or a trap gate, its
segment present, code of 64 bits, and of ring 0. Otherwise the processor faults. -/
def interruptEntry (m : Bytes 64) (gdtr idtr : TableRegister) (v : ℕ) : Option Entry := do
  let g ← gate m idtr v
  let s ← codeSegment m gdtr g.selector
  if g.present ∧ (g.gateType = 14 ∨ g.gateType = 15) ∧ s.present ∧ s.long ∧ ¬ s.big ∧ s.dpl = 0 then
    some ⟨g.offset, g.selector, g.ist, g.gateType == 14⟩
  else none

variable {m m' : Bytes 64} {gdtr idtr : TableRegister} {v : ℕ}

/-- A selector of the GDT within the limit. -/
theorem codeSegment_eq {selector : BitVec 16} (h : selector.toNat / 8 ≠ 0 ∧
    selector.toNat / 4 % 2 = 0 ∧ 8 * (selector.toNat / 8) + 7 ≤ gdtr.limit.toNat) :
    codeSegment m gdtr selector = CodeSegment.decode
      (loadLE m (gdtr.base + BitVec.ofNat 64 (8 * (selector.toNat / 8))) 8) :=
  if_pos h

/-- A gate stays while the bytes of its table do. -/
theorem gate_congr (h : ∀ k ≤ idtr.limit.toNat,
    m' (idtr.base + BitVec.ofNat 64 k) = m (idtr.base + BitVec.ofNat 64 k)) :
    gate m' idtr v = gate m idtr v := by
  have hload : ∀ {i : ℕ} (_ : i + 7 ≤ idtr.limit.toNat),
      loadLE m' (idtr.base + BitVec.ofNat 64 i) 8 = loadLE m (idtr.base + BitVec.ofNat 64 i) 8 := by
    intro i hi
    refine loadLE_congr fun k hk => ?_
    rw [BitVec.add_assoc, ← BitVec.ofNat_add]
    exact h (i + k) (by omega)
  unfold gate
  refine if_ctx_congr Iff.rfl (fun hv => ?_) fun _ => rfl
  simp only [BitVec.add_assoc, ← BitVec.ofNat_add]
  rw [hload (by omega), hload (by omega)]

end OS44.X86
