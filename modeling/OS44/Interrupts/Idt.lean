import OS44.Interrupts.Isr
import OS44.Library.Descriptors

/-! # The descriptor tables (`gdt_init`, `idt_set_gate`, `intr_init`)

`intr_init` fills three descriptors of the GDT and 256 gates of the IDT in memory: first
`isr_unhandled` in each gate, then the stubs of the vectors. The linker decides where the tables and
the stubs are.

Wherever that is, the processor finds a usable gate for every vector, in kernel code of 64 bits, and
goes to the stub that `intrInit` names, with interrupts off; nothing but the tables is written
(`intr_init_tables`). -/

namespace OS44

open LittleEndian CLayout X86

/-! ## The code -/

namespace IdtEntry

def offsetLow : Member := ⟨0, 2⟩
def selector : Member := ⟨2, 2⟩
def ist : Member := ⟨4, 1⟩
def typeAttr : Member := ⟨5, 1⟩
def offsetMid : Member := ⟨6, 2⟩
def offsetHigh : Member := ⟨8, 4⟩
def zero : Member := ⟨12, 4⟩

/-- `IdtEntry` is packed: each member lies at the next byte. -/
theorem layout_eq : layout 0 [⟨2, 1⟩, ⟨2, 1⟩, ⟨1, 1⟩, ⟨1, 1⟩, ⟨2, 1⟩, ⟨4, 1⟩, ⟨4, 1⟩] =
    [offsetLow, selector, ist, typeAttr, offsetMid, offsetHigh, zero] := rfl

end IdtEntry

/-- `KERNEL_CS`. -/
def kernelCs : U16 := 0x08

/-- What `idt_set_gate` writes, in its order. -/
def idtSetGateRecord (addr : U64) : List (Member × ℕ) :=
  [(IdtEntry.offsetLow, (addr &&& 0xFFFF).toNat),
    (IdtEntry.offsetMid, ((addr >>> 16) &&& 0xFFFF).toNat),
    (IdtEntry.offsetHigh, (addr >>> 32).toNat),
    (IdtEntry.selector, kernelCs.toNat), (IdtEntry.ist, 0), (IdtEntry.typeAttr, 0x8E),
    (IdtEntry.zero, 0)]

/-- `idt_set_gate(vector, handler)` with the table at `idt` and the handler at `addr`. -/
def idtSetGate (idt : U64) (vector : ℕ) (addr : U64) (m : PhysMem) : PhysMem :=
  store m (idt + BitVec.ofNat 64 (16 * vector)) (idtSetGateRecord addr)

/-- `gdt_init`'s three descriptors: null, kernel code, kernel data. -/
def gdtInit (gdt : U64) (m : PhysMem) : PhysMem :=
  store64 (store64 (store64 m gdt 0) (gdt + 8) 0x00AF9A000000FFFF) (gdt + 16) 0x00CF92000000FFFF

/-- `gdt_load`: `sizeof(gdt) - 1` and the address. -/
def gdtLoad (gdt : U64) : TableRegister := ⟨23, gdt⟩

/-- `idt_load`: `sizeof(idt) - 1` and the address. -/
def idtLoad (idt : U64) : TableRegister := ⟨4095, idt⟩

/-- The memory behind `intr_init`, with the labels of `isr.asm` at `addr`. -/
def intrInitMem (addr : IsrLabel → U64) (gdt idt : U64) (m : PhysMem) : PhysMem :=
  let m := gdtInit gdt m
  let m := (List.range 256).foldl (fun m i => idtSetGate idt i (addr .isrUnhandled) m) m
  (List.range 48).foldl (fun m i => idtSetGate idt i (addr (.isr i)) m) m

/-! ## One gate -/

variable {m : PhysMem} {idt gdt addr a b : U64} {u v : ℕ}

/-- The gates that `idt_set_gate` writes: interrupt gates of ring 0 on the current stack. -/
def kernelGate (addr : U64) : Gate where
  offset := addr
  selector := kernelCs
  ist := 0
  gateType := 14
  dpl := 0
  present := true

theorem members_idtSetGateRecord (addr : U64) :
    Members 16 ((idtSetGateRecord addr).map Prod.fst) := by
  show Members 16 [IdtEntry.offsetLow, IdtEntry.offsetMid, IdtEntry.offsetHigh, IdtEntry.selector,
    IdtEntry.ist, IdtEntry.typeAttr, IdtEntry.zero]
  decide

/-- The lower quadword of an entry. -/
theorem loadLE_low (m : PhysMem) (a : U64) : loadLE m a 8 = loadMember m a IdtEntry.offsetLow +
    2 ^ 16 * loadMember m a IdtEntry.selector + 2 ^ 32 * loadMember m a IdtEntry.ist +
    2 ^ 40 * loadMember m a IdtEntry.typeAttr + 2 ^ 48 * loadMember m a IdtEntry.offsetMid := by
  have h := loadLE_add m a 6 2
  rw [loadLE_add m a 5 1, loadLE_add m a 4 1, loadLE_add m a 2 2] at h
  refine h.trans ?_
  unfold loadMember IdtEntry.offsetLow
  rw [BitVec.add_zero]
  rfl

/-- The upper quadword of an entry. -/
theorem loadLE_high (m : PhysMem) (a : U64) : loadLE m (a + BitVec.ofNat 64 8) 8 =
    loadMember m a IdtEntry.offsetHigh + 2 ^ 32 * loadMember m a IdtEntry.zero := by
  refine (loadLE_add m (a + BitVec.ofNat 64 8) 4 4).trans ?_
  rw [BitVec.add_assoc, ← BitVec.ofNat_add]
  rfl

/-- The parts of the address go back together. -/
theorem decode_parts {addr sel : ℕ} (haddr : addr < 2 ^ 64) (hsel : sel < 2 ^ 16) :
    Gate.decode (addr % 2 ^ 16 + 2 ^ 16 * sel + 2 ^ 32 * 0 + 2 ^ 40 * 0x8E +
      2 ^ 48 * (addr / 2 ^ 16 % 2 ^ 16)) (addr / 2 ^ 32 + 2 ^ 32 * 0) =
    { offset := BitVec.ofNat 64 addr, selector := BitVec.ofNat 16 sel, ist := 0, gateType := 14
      dpl := 0, present := true } := by
  unfold Gate.decode
  rw [Gate.mk.injEq]
  refine ⟨congrArg _ (by omega), BitVec.eq_of_toNat_eq ?_, by omega, by omega, by omega, ?_⟩
  · rw [BitVec.toNat_ofNat, BitVec.toNat_ofNat]
    omega
  · rw [beq_iff_eq]
    omega

/-- What `idt_set_gate` wrote, member by member. -/
theorem loadMember_record {f : Member} {x : ℕ} (h : (f, x) ∈ idtSetGateRecord addr) :
    loadMember (store m a (idtSetGateRecord addr)) a f = x % 256 ^ f.size :=
  load_store (by decide) (members_idtSetGateRecord addr) h

/-- The lower quadword that `idt_set_gate` wrote. -/
theorem loadLE_record_low : loadLE (store m a (idtSetGateRecord addr)) a 8 =
    addr.toNat % 2 ^ 16 + 2 ^ 16 * 8 + 2 ^ 32 * 0 + 2 ^ 40 * 0x8E +
      2 ^ 48 * (addr.toNat / 2 ^ 16 % 2 ^ 16) := by
  have hmask : ∀ x : U64, (x &&& 0xFFFF).toNat = x.toNat % 2 ^ 16 := fun x => by
    rw [BitVec.toNat_and]
    exact Nat.and_two_pow_sub_one_eq_mod x.toNat 16
  have hlow : loadMember (store m a (idtSetGateRecord addr)) a IdtEntry.offsetLow = _ :=
    loadMember_record (List.Mem.head _)
  have hmid : loadMember (store m a (idtSetGateRecord addr)) a IdtEntry.offsetMid = _ :=
    loadMember_record (.tail _ (List.Mem.head _))
  have hsel : loadMember (store m a (idtSetGateRecord addr)) a IdtEntry.selector = _ :=
    loadMember_record (.tail _ (.tail _ (.tail _ (List.Mem.head _))))
  have hist : loadMember (store m a (idtSetGateRecord addr)) a IdtEntry.ist = _ :=
    loadMember_record (.tail _ (.tail _ (.tail _ (.tail _ (List.Mem.head _)))))
  have htype : loadMember (store m a (idtSetGateRecord addr)) a IdtEntry.typeAttr = _ :=
    loadMember_record (.tail _ (.tail _ (.tail _ (.tail _ (.tail _ (List.Mem.head _))))))
  rw [loadLE_low, hlow, hmid, hsel, hist, htype, hmask, hmask, BitVec.toNat_ushiftRight,
    Nat.shiftRight_eq_div_pow]
  show addr.toNat % 2 ^ 16 % 256 ^ 2 + 2 ^ 16 * (8 % 256 ^ 2) + 2 ^ 32 * (0 % 256 ^ 1) +
    2 ^ 40 * (0x8E % 256 ^ 1) + 2 ^ 48 * (addr.toNat / 2 ^ 16 % 2 ^ 16 % 256 ^ 2) = _
  norm_num

/-- The upper quadword that `idt_set_gate` wrote. -/
theorem loadLE_record_high :
    loadLE (store m a (idtSetGateRecord addr)) (a + BitVec.ofNat 64 8) 8 =
      addr.toNat / 2 ^ 32 + 2 ^ 32 * 0 := by
  have hhigh : loadMember (store m a (idtSetGateRecord addr)) a IdtEntry.offsetHigh = _ :=
    loadMember_record (.tail _ (.tail _ (List.Mem.head _)))
  have hzero : loadMember (store m a (idtSetGateRecord addr)) a IdtEntry.zero = _ :=
    loadMember_record (.tail _ (.tail _ (.tail _ (.tail _ (.tail _ (.tail _ (List.Mem.head _)))))))
  have haddr := addr.isLt
  rw [loadLE_high, hhigh, hzero, BitVec.toNat_ushiftRight, Nat.shiftRight_eq_div_pow]
  show addr.toNat / 2 ^ 32 % 256 ^ 4 + 2 ^ 32 * (0 % 256 ^ 4) = _
  rw [Nat.mod_eq_of_lt (by omega), Nat.zero_mod]

/-- The limit of the IDT takes in all vectors. -/
theorem gate_idtLoad (m : PhysMem) (hv : v < 256) : gate m (idtLoad idt) v =
    some (Gate.decode (loadLE m (idt + BitVec.ofNat 64 (16 * v)) 8)
      (loadLE m (idt + BitVec.ofNat 64 (16 * v) + BitVec.ofNat 64 8) 8)) := by
  have hlimit : 16 * v + 15 ≤ (idtLoad idt).limit.toNat := by
    show 16 * v + 15 ≤ 4095
    omega
  exact if_pos hlimit

/-- **The processor reads the gate that `idt_set_gate` wrote.** -/
theorem gate_idtSetGate (hv : v < 256) :
    gate (idtSetGate idt v addr m) (idtLoad idt) v = some (kernelGate addr) := by
  rw [gate_idtLoad _ hv, idtSetGate, loadLE_record_low, loadLE_record_high]
  refine congrArg some ((@decode_parts _ 8 addr.isLt (by decide)).trans ?_)
  rw [BitVec.ofNat_toNat, BitVec.setWidth_eq]
  rfl

/-- `idt_set_gate` writes 16 bytes. -/
theorem idtSetGate_outside (h : 16 ≤ (b - (idt + BitVec.ofNat 64 (16 * v))).toNat) :
    idtSetGate idt v addr m b = m b :=
  store_outside (by decide) (fun _ hp =>
    (members_idtSetGateRecord addr).inside _ (List.mem_map_of_mem hp)) h

/-- The other gates stay. -/
theorem gate_idtSetGate_of_ne (hu : u < 256) (hv : v < 256) (h : u ≠ v) :
    gate (idtSetGate idt v addr m) (idtLoad idt) u = gate m (idtLoad idt) u := by
  have hbyte : ∀ k < 16, idtSetGate idt v addr m (idt + BitVec.ofNat 64 (16 * u + k)) =
      m (idt + BitVec.ofNat 64 (16 * u + k)) := by
    intro k hk
    refine idtSetGate_outside ?_
    have hsub : (idt + BitVec.ofNat 64 (16 * u + k) - (idt + BitVec.ofNat 64 (16 * v))).toNat =
        (2 ^ 64 + (16 * u + k) - 16 * v) % 2 ^ 64 := by
      bv_omega
    rw [hsub]
    omega
  have hload : ∀ i, i + 8 ≤ 16 →
      loadLE (idtSetGate idt v addr m) (idt + BitVec.ofNat 64 (16 * u + i)) 8 =
        loadLE m (idt + BitVec.ofNat 64 (16 * u + i)) 8 := by
    intro i hi
    refine loadLE_congr fun k hk => ?_
    rw [BitVec.add_assoc, ← BitVec.ofNat_add, Nat.add_assoc]
    exact hbyte (i + k) (by omega)
  have hlow := hload 0 (by decide)
  rw [Nat.add_zero] at hlow
  rw [gate_idtLoad _ hu, gate_idtLoad _ hu, BitVec.add_assoc, ← BitVec.ofNat_add,
    hload 8 (by decide), hlow]

/-! ## The loops -/

/-- The first `n` gates go to the labels. -/
def GatesTo (addr : IsrLabel → U64) (idt : U64) (n : ℕ) (label : ℕ → IsrLabel) (m : PhysMem) :
    Prop :=
  ∀ v < n, gate m (idtLoad idt) v = some (kernelGate (addr (label v)))

section Loops

variable {addr : IsrLabel → U64} {label : ℕ → IsrLabel} {n : ℕ}

/-- A gate is set. -/
theorem GatesTo.set (h : GatesTo addr idt n label m) (hn : n ≤ 256) (hv : v < 256) (l : IsrLabel) :
    GatesTo addr idt n (Function.update label v l) (idtSetGate idt v (addr l) m) := by
  intro u hu
  by_cases huv : u = v
  · subst huv
    rw [Function.update_self]
    exact gate_idtSetGate hv
  · rw [Function.update_of_ne huv, gate_idtSetGate_of_ne (by omega) hv huv]
    exact h u hu

/-- The first loop sends all gates to one handler. -/
theorem gatesTo_fill (l : IsrLabel) (m : PhysMem) (hn : n ≤ 256) : GatesTo addr idt n (fun _ => l)
    ((List.range n).foldl (fun m i => idtSetGate idt i (addr l) m) m) := by
  induction n with
  | zero => exact fun v hv => absurd hv (Nat.not_lt_zero v)
  | succ n ih =>
    intro v hv
    rw [List.range_succ, List.foldl_concat]
    by_cases hvn : v = n
    · subst hvn
      exact gate_idtSetGate (by omega)
    · rw [gate_idtSetGate_of_ne (by omega) (by omega) hvn]
      exact ih (by omega) v (by omega)

/-- The gates that are set one after another. -/
theorem GatesTo.setAll {vs : List ℕ} (hvs : ∀ v ∈ vs, v < 256) (f : ℕ → IsrLabel)
    (h : GatesTo addr idt 256 label m) :
    GatesTo addr idt 256 (vs.foldl (fun label i => Function.update label i (f i)) label)
      (vs.foldl (fun m i => idtSetGate idt i (addr (f i)) m) m) := by
  induction vs generalizing label m with
  | nil => exact h
  | cons v vs ih =>
    exact ih (fun u hu => hvs u (List.mem_cons_of_mem v hu))
      (h.set le_rfl (hvs v List.mem_cons_self) (f v))

/-- The loops write only the IDT. -/
theorem idtSetGate_foldl_outside {vs : List ℕ} (hvs : ∀ v ∈ vs, v < 256) (f : ℕ → IsrLabel)
    (h : 4096 ≤ (b - idt).toNat) :
    vs.foldl (fun m i => idtSetGate idt i (addr (f i)) m) m b = m b := by
  induction vs generalizing m with
  | nil => rfl
  | cons v vs ih =>
    have hv := hvs v List.mem_cons_self
    refine (ih fun u hu => hvs u (List.mem_cons_of_mem v hu)).trans (idtSetGate_outside ?_)
    have hsub : (b - (idt + BitVec.ofNat 64 (16 * v))).toNat = (b - idt).toNat - 16 * v := by
      bv_omega
    omega

/-- What `intr_init` leaves of a byte outside the IDT is `gdt_init`'s. -/
theorem intrInitMem_of_outside_idt (h : 4096 ≤ (b - idt).toNat) :
    intrInitMem addr gdt idt m b = gdtInit gdt m b := by
  have h48 : ∀ v ∈ List.range 48, v < 256 := fun v hv => (List.mem_range.mp hv).trans (by decide)
  have hstubs : ∀ m : PhysMem, (List.range 48).foldl
      (fun m i => idtSetGate idt i (addr (.isr i)) m) m b = m b :=
    fun m => idtSetGate_foldl_outside h48 IsrLabel.isr h
  have hfill : ∀ m : PhysMem, (List.range 256).foldl
      (fun m i => idtSetGate idt i (addr .isrUnhandled) m) m b = m b :=
    fun m => idtSetGate_foldl_outside (fun v hv => List.mem_range.mp hv) (fun _ => .isrUnhandled) h
  simp only [intrInitMem, hstubs, hfill]

end Loops

/-- `gdt_init` writes 24 bytes. -/
theorem gdtInit_outside (h : 24 ≤ (b - gdt).toNat) : gdtInit gdt m b = m b := by
  refine (storeLE_of_not_lt ?_).trans ((storeLE_of_not_lt ?_).trans (storeLE_of_not_lt ?_))
  · bv_omega
  · bv_omega
  · omega

/-- The descriptor of `KERNEL_CS`. -/
theorem loadLE_gdtInit (gdt : U64) (m : PhysMem) :
    loadLE (gdtInit gdt m) (gdt + BitVec.ofNat 64 8) 8 = 0x00AF9A000000FFFF := by
  have hthird : loadLE (gdtInit gdt m) (gdt + BitVec.ofNat 64 8) 8 =
      loadLE (store64 (store64 m gdt 0) (gdt + 8) 0x00AF9A000000FFFF) (gdt + 8) 8 := by
    refine loadLE_congr fun k hk => storeLE_of_not_lt ?_
    bv_omega
  rw [hthird, store64, loadLE_storeLE _ _ (by decide) _ le_rfl]
  rfl

/-- The bytes of the descriptor of `KERNEL_CS`, where the processor may have set the bit `Accessed`
when it loaded the segment. -/
theorem loadLE_accessed {now : PhysMem}
    (h : loadLE m (gdt + BitVec.ofNat 64 8) 8 = 0x00AF9A000000FFFF)
    (hnow : ∀ k < 24, now (gdt + BitVec.ofNat 64 k) = m (gdt + BitVec.ofNat 64 k) ∨
      k % 8 = 5 ∧ now (gdt + BitVec.ofNat 64 k) = m (gdt + BitVec.ofNat 64 k) ||| 1) :
    loadLE now (gdt + BitVec.ofNat 64 8) 8 = 0x00AF9A000000FFFF ∨
      loadLE now (gdt + BitVec.ofNat 64 8) 8 = 0x00AF9B000000FFFF := by
  have hbytes := (loadLE_eq_iff (by decide) (by decide)).mp h
  have hadd : ∀ k, gdt + BitVec.ofNat 64 8 + BitVec.ofNat 64 k = gdt + BitVec.ofNat 64 (8 + k) :=
    fun k => by rw [BitVec.add_assoc, ← BitVec.ofNat_add]
  -- only the byte of the access rights can have changed
  have hrest : ∀ k < 8, k ≠ 5 → now (gdt + BitVec.ofNat 64 8 + BitVec.ofNat 64 k) =
      BitVec.ofNat 8 (0x00AF9A000000FFFF / 256 ^ k) := fun k hk h5 => by
    rw [← hbytes k hk, hadd]
    exact (hnow (8 + k) (by omega)).resolve_right fun hacc => by omega
  have hrights := hbytes 5 (by decide)
  rw [hadd] at hrights
  rcases hnow (8 + 5) (by decide) with hsame | ⟨-, hacc⟩
  · refine .inl ((loadLE_eq_iff (by decide) (by decide)).mpr fun k hk => ?_)
    by_cases h5 : k = 5
    · rw [h5, hadd, hsame, hrights]
    · exact hrest k hk h5
  · refine .inr ((loadLE_eq_iff (by decide) (by decide)).mpr fun k hk => ?_)
    by_cases h5 : k = 5
    · rw [h5, hadd, hacc, hrights]
      decide
    · rw [hrest k hk h5]
      have heq : ∀ k < 8, k ≠ 5 → BitVec.ofNat 8 (0x00AF9A000000FFFF / 256 ^ k) =
          BitVec.ofNat 8 (0x00AF9B000000FFFF / 256 ^ k) := by decide
      exact heq k hk h5

/-- `KERNEL_CS` is code of 64 bits in ring 0. -/
theorem codeSegment_kernelCs (h : loadLE m (gdt + BitVec.ofNat 64 8) 8 = 0x00AF9A000000FFFF ∨
      loadLE m (gdt + BitVec.ofNat 64 8) 8 = 0x00AF9B000000FFFF) :
    codeSegment m (gdtLoad gdt) kernelCs =
      some { dpl := 0, conforming := false, long := true, big := false, present := true } := by
  have hin : kernelCs.toNat / 8 ≠ 0 ∧ kernelCs.toNat / 4 % 2 = 0 ∧
      8 * (kernelCs.toNat / 8) + 7 ≤ (gdtLoad gdt).limit.toNat := by
    show 8 / 8 ≠ 0 ∧ 8 / 4 % 2 = 0 ∧ 8 * (8 / 8) + 7 ≤ 23
    decide
  rw [codeSegment_eq hin]
  show CodeSegment.decode (loadLE m (gdt + BitVec.ofNat 64 8) 8) = _
  rcases h with h | h <;> rw [h] <;> rfl

/-- A gate of the kernel is usable. -/
theorem interruptEntry_of_gate {idtr gdtr : TableRegister}
    (hgate : gate m idtr v = some (kernelGate addr))
    (hcs : codeSegment m gdtr kernelCs =
      some { dpl := 0, conforming := false, long := true, big := false, present := true }) :
    interruptEntry m gdtr idtr v = some ⟨addr, kernelCs, 0, true⟩ := by
  have hselector : (kernelGate addr).selector = kernelCs := rfl
  rw [interruptEntry, hgate]
  show (codeSegment m gdtr (kernelGate addr).selector).bind _ = _
  rw [hselector, hcs]
  rfl

/-! ## The tables -/

/-- **Every vector reaches its stub through the tables.** Wherever the linker put the tables (apart
from each other) and the labels, whatever is written elsewhere behind `intr_init`, and whether or
not the processor sets the bit `Accessed` in the descriptors of the GDT: the processor
finds a usable gate for each of its 256 vectors and goes, with interrupts off, to the label that
`intrInit` names. The code there calls `isr_handler` with that vector in the frame, or `0xFFFF` for
a vector without a stub of its own. `intr_init` writes nothing but the two tables. -/
theorem intr_init_tables (addr : IsrLabel → U64) (gdt idt : U64) (m : PhysMem)
    (hapart : ∀ k < 24, 4096 ≤ (gdt + BitVec.ofNat 64 k - idt).toNat) :
    (∀ now : PhysMem,
      (∀ k < 24,
        now (gdt + BitVec.ofNat 64 k) = intrInitMem addr gdt idt m (gdt + BitVec.ofNat 64 k) ∨
        k % 8 = 5 ∧ now (gdt + BitVec.ofNat 64 k) =
          intrInitMem addr gdt idt m (gdt + BitVec.ofNat 64 k) ||| 1) →
      (∀ k < 4096, now (idt + BitVec.ofNat 64 k) =
        intrInitMem addr gdt idt m (idt + BitVec.ofNat 64 k)) →
      ∀ v < 256,
        interruptEntry now (gdtLoad gdt) (idtLoad idt) v =
          some ⟨addr (intrInit v), kernelCs, 0, true⟩ ∧
        ∀ (c : Cpu) (e : U64), ∃ called code,
          Steps isrText (isrText (intrInit v), c.interrupt (pushedErrorCode v e))
            (.call .isrHandler :: code, called) ∧
          (readIntrFrame called.mem (called.reg .rdi)).vector = vectorField v) ∧
    ∀ b, 24 ≤ (b - gdt).toNat → 4096 ≤ (b - idt).toNat → intrInitMem addr gdt idt m b = m b := by
  have h48 : ∀ v ∈ List.range 48, v < 256 := fun v hv => (List.mem_range.mp hv).trans (by decide)
  have hgates : GatesTo addr idt 256 intrInit (intrInitMem addr gdt idt m) :=
    (gatesTo_fill .isrUnhandled (gdtInit gdt m) le_rfl).setAll h48 IsrLabel.isr
  have hcs : loadLE (intrInitMem addr gdt idt m) (gdt + BitVec.ofNat 64 8) 8 =
      0x00AF9A000000FFFF := by
    rw [← loadLE_gdtInit gdt m]
    refine loadLE_congr fun k hk => intrInitMem_of_outside_idt ?_
    rw [BitVec.add_assoc, ← BitVec.ofNat_add]
    exact hapart (8 + k) (by omega)
  refine ⟨fun now hgdt hidt v hv => ⟨?_, fun c e => ?_⟩, fun b hbg hbi => ?_⟩
  · have hsame : gate now (idtLoad idt) v = gate (intrInitMem addr gdt idt m) (idtLoad idt) v :=
      gate_congr fun k hk => hidt k (Nat.lt_succ_of_le hk)
    exact interruptEntry_of_gate (hsame.trans (hgates v hv))
      (codeSegment_kernelCs (loadLE_accessed hcs hgdt))
  · obtain ⟨c₁, hstub, hholds₁, -, hreg₁⟩ := steps_stub c v e
    obtain ⟨c₂, hsave, hholds₂, -, hrdi⟩ := steps_save hholds₁ rfl
    have hsame : savedRegs.map c₁.reg = savedRegs.map c.reg :=
      List.map_congr_left fun r hr => hreg₁ r (by rintro rfl; revert hr; decide)
    rw [hsame] at hholds₂
    refine ⟨c₂, afterCall, hstub.trans hsave, ?_⟩
    rw [hrdi, readIntrFrame_of_holds hholds₂]
    rfl
  · exact (intrInitMem_of_outside_idt hbi).trans (gdtInit_outside hbg)

/-- The tables at 1 MiB, a stub every 16 bytes: the timer interrupt goes to the stub of its vector,
and a vector behind the stubs goes to `isr_unhandled`. -/
theorem intr_init_tables_sample :
    let addr : IsrLabel → U64 := fun
      | .isr v => 0x200000 + BitVec.ofNat 64 (16 * v)
      | _ => 0x210000
    let m := intrInitMem addr 0x100000 0x101000 fun _ => 0
    interruptEntry m (gdtLoad 0x100000) (idtLoad 0x101000) 32 =
        some ⟨0x200200, kernelCs, 0, true⟩ ∧
      interruptEntry m (gdtLoad 0x100000) (idtLoad 0x101000) 200 =
        some ⟨0x210000, kernelCs, 0, true⟩ := by
  intro addr m
  obtain ⟨htables, -⟩ := intr_init_tables addr 0x100000 0x101000 (fun _ => 0)
    fun k hk => by bv_omega
  have hentry := htables m (fun _ _ => .inl rfl) fun _ _ => rfl
  refine ⟨(hentry 32 (by decide)).1.trans ?_, (hentry 200 (by decide)).1.trans ?_⟩
  · rw [intrInit_eq]
    rfl
  · rw [intrInit_eq]
    rfl

end OS44
