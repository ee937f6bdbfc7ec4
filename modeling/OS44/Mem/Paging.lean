import OS44.Library.LinkedTree
import OS44.Mem.Pmm

/-! # The page-table code (`paging.c`)

The four operations of `paging.c`, translated once over an abstract storage of page tables
(`TableMemory`). Two storages are used: `PageTables.lean` gives each table its own record, as the C
struct declares it, and `PagingBytes.lean` places the structs in physical memory.

A present entry links to the table or frame at `entry & ~0xFFF`. The tables are the nodes of a tree
linked through their 512 slots (`link`); the page number of an address is a path of four slots, and
the frame its page is mapped to is what a walk along that path finds (`pageFrame`). -/

namespace OS44

open LinkedTree

/-- Storage of page tables, named by their addresses: the fields of `PageTable` and `memset`. -/
class TableMemory (M : Type) where
  /-- `table->entries[i]`. -/
  entry : M → U64 → Fin 512 → U64
  /-- `table->entries[i] = e`. -/
  setEntry : M → U64 → Fin 512 → U64 → M
  /-- `table->ref_count`. -/
  refCount : M → U64 → U32
  /-- `table->ref_count = c`. -/
  setRefCount : M → U64 → U32 → M
  /-- `memset(frame, 0, PAGE_SIZE)`. -/
  zeroFrame : M → U64 → M

open TableMemory

/-- The state `paging.c` works on: the tables, `pml4` and the frame allocator. -/
structure Paging (M : Type) where
  mem : M
  pml4 : U64
  pmm : Pmm

/-- `PAGE_PRESENT`. -/
def pagePresent : U64 := 1

/-- `PAGE_WRITABLE`. -/
def pageWritable : U64 := 2

/-- `~0xFFF`. -/
def frameMask : U64 := ~~~0xFFF

/-- `(vaddr >> shift) & 0x1FF`. -/
def tableIndex (vaddr : U64) (shift : ℕ) : Fin 512 :=
  ⟨(vaddr >>> shift &&& 0x1FF).toNat, by
    have : (vaddr >>> shift &&& 0x1FF).toNat ≤ (0x1FF : U64).toNat := by
      rw [BitVec.toNat_and]
      exact Nat.and_le_right
    exact Nat.lt_of_le_of_lt this (by decide)⟩

/-- `pml4_idx`. -/
def pml4Idx (vaddr : U64) : Fin 512 := tableIndex vaddr 39

/-- `pdpt_idx`. -/
def pdptIdx (vaddr : U64) : Fin 512 := tableIndex vaddr 30

/-- `pd_idx`. -/
def pdIdx (vaddr : U64) : Fin 512 := tableIndex vaddr 21

/-- `pt_idx`. -/
def ptIdx (vaddr : U64) : Fin 512 := tableIndex vaddr 12

section Code

variable {M : Type} [TableMemory M]

/-- `paging_init`, with the value of `CR3`. -/
def pagingInit (mem : M) (pmm : Pmm) (cr3 : U64) : Paging M :=
  { mem := mem, pml4 := cr3 &&& frameMask, pmm := pmm }

/-- The part of `get_next_table` that links a new frame. -/
def linkTable (s : Paging M) (table : U64) (index : Fin 512) (newFrame : U64) : Paging M :=
  let mem := zeroFrame s.mem newFrame
  let mem := setEntry mem table index (newFrame ||| pagePresent ||| pageWritable)
  let mem := setRefCount mem newFrame 0
  let mem := setRefCount mem table (refCount mem table + 1)
  { s with mem := mem }

/-- `get_next_table`: the table returned (`NULL` is `0`) and the new state. -/
def getNextTable (s : Paging M) (table : U64) (index : Fin 512) (create : Bool) : U64 × Paging M :=
  if entry s.mem table index &&& pagePresent = 0 then
    if create = false then (0, s)
    else
      let (newFrame, pmm) := pmmAllocFrame s.pmm
      if newFrame = 0 then (0, { s with pmm := pmm })
      else
        let s := linkTable { s with pmm := pmm } table index newFrame
        (entry s.mem table index &&& frameMask, s)
  else (entry s.mem table index &&& frameMask, s)

/-- The last part of `paging_map`, on the page table it found. -/
def writePage (s : Paging M) (pt : U64) (index : Fin 512) (paddr : U64) : Paging M :=
  let mem :=
    if entry s.mem pt index &&& pagePresent = 0 then
      setRefCount s.mem pt (refCount s.mem pt + 1)
    else s.mem
  { s with mem := setEntry mem pt index (paddr &&& frameMask ||| pagePresent ||| pageWritable) }

/-- `paging_map`. `error s`: in the state `s` the call dereferences a null table, since the result
of `get_next_table` is passed on to `get_next_table` unchecked. -/
def pagingMap (s : Paging M) (vaddr paddr : U64) : Except (Paging M) (Paging M) :=
  if s.pml4 = 0 then .ok s
  else
    let (pdpt, s) := getNextTable s s.pml4 (pml4Idx vaddr) true
    if pdpt = 0 then .error s
    else
      let (pd, s) := getNextTable s pdpt (pdptIdx vaddr) true
      if pd = 0 then .error s
      else
        let (pt, s) := getNextTable s pd (pdIdx vaddr) true
        if pt = 0 then .ok s else .ok (writePage s pt (ptIdx vaddr) paddr)

/-- `pt->entries[index] &= ~PAGE_PRESENT; pt->ref_count--`. -/
def clearPage (s : Paging M) (pt : U64) (index : Fin 512) : Paging M :=
  let mem := setEntry s.mem pt index (entry s.mem pt index &&& ~~~pagePresent)
  { s with mem := setRefCount mem pt (refCount mem pt - 1) }

/-- `table->entries[index] = 0; table->ref_count--`. -/
def dropEntry (s : Paging M) (table : U64) (index : Fin 512) : Paging M :=
  let mem := setEntry s.mem table index 0
  { s with mem := setRefCount mem table (refCount mem table - 1) }

/-- `pmm_free_frame(table)`. -/
def freeTable (s : Paging M) (table : U64) : Paging M :=
  { s with pmm := pmmFreeFrame s.pmm table }

/-- The cascade of `paging_unmap`, entered when the page has been cleared in `pt`. -/
def freeCascade (s : Paging M) (vaddr pdpt pd pt : U64) : Paging M :=
  if refCount s.mem pt = 0 then
    let s := dropEntry (freeTable s pt) pd (pdIdx vaddr)
    if refCount s.mem pd = 0 then
      let s := dropEntry (freeTable s pd) pdpt (pdptIdx vaddr)
      if refCount s.mem pdpt = 0 then
        let s := freeTable s pdpt
        -- the root keeps no count and is never freed
        { s with mem := setEntry s.mem s.pml4 (pml4Idx vaddr) 0 }
      else s
    else s
  else s

/-- `paging_unmap`. -/
def pagingUnmap (s : Paging M) (vaddr : U64) : Paging M :=
  if s.pml4 = 0 then s
  else
    let (pdpt, s) := getNextTable s s.pml4 (pml4Idx vaddr) false
    if pdpt = 0 then s
    else
      let (pd, s) := getNextTable s pdpt (pdptIdx vaddr) false
      if pd = 0 then s
      else
        let (pt, s) := getNextTable s pd (pdIdx vaddr) false
        if pt = 0 then s
        else if entry s.mem pt (ptIdx vaddr) &&& pagePresent = 0 then s
        else freeCascade (clearPage s pt (ptIdx vaddr)) vaddr pdpt pd pt

/-- `paging_get_physical`. -/
def pagingGetPhysical (s : Paging M) (vaddr : U64) : U64 :=
  if s.pml4 = 0 then 0
  else
    let pdpt := (getNextTable s s.pml4 (pml4Idx vaddr) false).1
    if pdpt = 0 then 0
    else
      let pd := (getNextTable s pdpt (pdptIdx vaddr) false).1
      if pd = 0 then 0
      else
        let pt := (getNextTable s pd (pdIdx vaddr) false).1
        if pt = 0 then 0
        else if entry s.mem pt (ptIdx vaddr) &&& pagePresent = 0 then 0
        else entry s.mem pt (ptIdx vaddr) &&& frameMask ||| vaddr &&& 0xFFF

end Code

/-! ## Page numbers and paths -/

/-- The number of the page of an address, 36 bits. -/
def pageOf (vaddr : U64) : Fin (2 ^ 36) :=
  ⟨vaddr.toNat / 4096 % 2 ^ 36, Nat.mod_lt _ (by decide)⟩

/-- The four slots that lead to a page. -/
def pagePath (n : Fin (2 ^ 36)) : List (Fin 512) :=
  [⟨n / 2 ^ 27 % 512, Nat.mod_lt _ (by decide)⟩, ⟨n / 2 ^ 18 % 512, Nat.mod_lt _ (by decide)⟩,
    ⟨n / 2 ^ 9 % 512, Nat.mod_lt _ (by decide)⟩, ⟨n % 512, Nat.mod_lt _ (by decide)⟩]

@[simp] theorem length_pagePath (n : Fin (2 ^ 36)) : (pagePath n).length = 4 := rfl

theorem pagePath_injective : Function.Injective pagePath := by
  intro n k h
  simp only [pagePath, List.cons.injEq, Fin.mk.injEq, and_true] at h
  obtain ⟨h3, h2, h1, h0⟩ := h
  apply Fin.ext
  have := n.isLt
  have := k.isLt
  omega

/-- Any four slots lead to a page. -/
theorem exists_pagePath_eq {p : List (Fin 512)} (hp : p.length = 4) : ∃ n, pagePath n = p := by
  match p, hp with
  | [i, j, k, l], _ =>
    refine ⟨⟨((i * 512 + j) * 512 + k) * 512 + l, by omega⟩, ?_⟩
    simp only [pagePath, List.cons.injEq, Fin.ext_iff, and_true]
    omega

theorem val_tableIndex (vaddr : U64) (shift : ℕ) :
    (tableIndex vaddr shift : ℕ) = vaddr.toNat / 2 ^ shift % 512 := by
  have : (0x1FF : U64).toNat = 2 ^ 9 - 1 := by decide
  simp only [tableIndex, BitVec.toNat_and, this, Nat.and_two_pow_sub_one_eq_mod,
    BitVec.toNat_ushiftRight, Nat.shiftRight_eq_div_pow]

/-- The indices computed by the code are the path of the page. -/
theorem pagePath_pageOf (v : U64) :
    pagePath (pageOf v) = [pml4Idx v, pdptIdx v, pdIdx v, ptIdx v] := by
  have hlt := v.isLt
  simp only [pagePath, pageOf, List.cons.injEq, and_true]
  refine ⟨Fin.ext ?_, Fin.ext ?_, Fin.ext ?_, Fin.ext ?_⟩ <;>
    simp only [pml4Idx, pdptIdx, pdIdx, ptIdx, val_tableIndex] <;> omega

/-- The path of a page is the path of its page table and one more slot. -/
theorem pagePath_pageOf_eq_concat (v : U64) :
    pagePath (pageOf v) = [pml4Idx v, pdptIdx v, pdIdx v] ++ [ptIdx v] := pagePath_pageOf v

/-! ## Links -/

section Links

variable {M : Type} [TableMemory M]

/-- What a present entry links to. -/
def entryLink (e : U64) : Option U64 := if e &&& pagePresent =
    0 then none else some (e &&& frameMask)

/-- What the slot `i` of the table `a` links to. -/
def link (m : M) (a : U64) (i : Fin 512) : Option U64 := entryLink (entry m a i)

/-- The frame that the page `n` is mapped to. -/
def Paging.pageFrame (s : Paging M) (n : Fin (2 ^ 36)) : Option U64 :=
  walk (link s.mem) s.pml4 (pagePath n)

/-- The physical address of `v`, if its page is mapped to the given frame; `0` if it
is not mapped. -/
def physicalOf (v : U64) : Option U64 → U64
  | none => 0
  | some f => f ||| v &&& 0xFFF

/-- The tables on the way to `v`, none of them null. -/
structure HasTables (s : Paging M) (v pdpt pd pt : U64) : Prop where
  pml4_ne : s.pml4 ≠ 0
  pdpt_ne : pdpt ≠ 0
  pd_ne : pd ≠ 0
  pt_ne : pt ≠ 0
  link_pml4 : link s.mem s.pml4 (pml4Idx v) = some pdpt
  link_pdpt : link s.mem pdpt (pdptIdx v) = some pd
  link_pd : link s.mem pd (pdIdx v) = some pt

/-- The code finds the page of `v` mapped to the frame `f`. -/
def MapsTo (s : Paging M) (v f : U64) : Prop :=
  ∃ pdpt pd pt, HasTables s v pdpt pd pt ∧ link s.mem pt (ptIdx v) = some f

variable {s s' : Paging M} {v f t : U64} {i : Fin 512} {e : U64}

theorem entryLink_of_absent (h : e &&& pagePresent = 0) : entryLink e = none := if_pos h

theorem entryLink_of_present (h : ¬ e &&& pagePresent = 0) : entryLink e = some (e &&& frameMask) :=
  if_neg h

theorem entryLink_eq_none : entryLink e = none ↔ e &&& pagePresent = 0 := by
  by_cases h : e &&& pagePresent = 0
  · exact iff_of_true (entryLink_of_absent h) h
  · exact iff_of_false (by rw [entryLink_of_present h]; simp) h

/-- The present bit is bit 0. -/
theorem and_pagePresent_eq_zero : e &&& pagePresent = 0 ↔ e.getLsbD 0 = false := by
  have : pagePresent = BitVec.twoPow 64 0 := by decide
  rw [this, BitVec.and_twoPow]
  cases e.getLsbD 0 with
  | false => simp
  | true => simp; decide

theorem getLsbD_frameMask (i : ℕ) : frameMask.getLsbD i = decide (12 ≤ i ∧ i < 64) := by
  by_cases hi : i < 64
  · have : ∀ i < 64, frameMask.getLsbD i = decide (12 ≤ i ∧ i < 64) := by decide
    exact this i hi
  · rw [BitVec.getLsbD_of_ge _ _ (by omega)]
    simp [hi]

@[simp] theorem entryLink_zero : entryLink 0 = none := by decide

/-- Clearing the present bit unlinks. -/
@[simp] theorem entryLink_and_not_present (e : U64) : entryLink (e &&& ~~~pagePresent) = none := by
  have : (~~~pagePresent).getLsbD 0 = false := by decide
  rw [entryLink_eq_none, and_pagePresent_eq_zero, BitVec.getLsbD_and, this, Bool.and_false]

/-- What an entry links to is its address field. -/
theorem and_frameMask_of_entryLink (h : entryLink e = some f) : e &&& frameMask = f := by
  by_cases hp : e &&& pagePresent = 0
  · rw [entryLink_of_absent hp] at h
    cases h
  · rw [entryLink_of_present hp] at h
    exact Option.some.inj h

/-- What an entry links to is 4 KiB aligned. -/
theorem entryLink_aligned (h : entryLink e = some f) : f &&& frameMask = f := by
  rw [← and_frameMask_of_entryLink h, BitVec.and_assoc, BitVec.and_self]

/-- The entry built for a frame links to it. -/
theorem entryLink_mk (ha : f &&& frameMask = f) :
    entryLink (f ||| pagePresent ||| pageWritable) = some f := by
  have hpresent : (f ||| pagePresent ||| pageWritable).getLsbD 0 = true := by
    have : pagePresent.getLsbD 0 = true := by decide
    simp [this]
  have hflags : pagePresent &&& frameMask = 0 ∧ pageWritable &&& frameMask = 0 := by decide
  rw [entryLink_of_present (by rw [and_pagePresent_eq_zero, hpresent]; simp),
    BitVec.and_or_distrib_right, BitVec.and_or_distrib_right, ha, hflags.1, hflags.2]
  simp

/-- `a & ~0xFFF` rounds down to a multiple of 4096. -/
theorem toNat_and_frameMask (a : U64) : (a &&& frameMask).toNat = a.toNat / 4096 * 4096 := by
  have : a &&& frameMask = a >>> 12 <<< 12 := by
    apply BitVec.eq_of_getLsbD_eq
    intro i hi
    rw [BitVec.getLsbD_and, getLsbD_frameMask, BitVec.getLsbD_shiftLeft, BitVec.getLsbD_ushiftRight]
    by_cases h12 : 12 ≤ i
    · simp [hi, h12]
    · simp [h12]
  rw [this]
  have := a.isLt
  simp only [BitVec.toNat_shiftLeft, BitVec.toNat_ushiftRight, Nat.shiftLeft_eq,
    Nat.shiftRight_eq_div_pow]
  omega

/-- `a` is aligned. -/
theorem and_frameMask_eq_self {a : U64} : a &&& frameMask = a ↔ a.toNat % 4096 = 0 := by
  rw [← BitVec.toNat_inj, toNat_and_frameMask]
  omega

/-- Addresses of frames are 4 KiB aligned. -/
theorem frameAddr_aligned {i : ℕ} (h : i < 2 ^ 20) : frameAddr i &&& frameMask = frameAddr i := by
  rw [and_frameMask_eq_self, toNat_frameAddr h]
  omega

/-- Aligned addresses in one frame are equal. -/
theorem eq_of_frameOf_eq {a b : U64} (ha : a &&& frameMask = a) (hb : b &&& frameMask = b)
    (h : frameOf a = frameOf b) : a = b := by
  rw [and_frameMask_eq_self] at ha hb
  unfold frameOf at h
  exact BitVec.eq_of_toNat_eq (by omega)

/-! ## What the operations can do -/

/-- Without `create`, `get_next_table` only looks. -/
theorem getNextTable_false (s : Paging M) (t : U64) (i : Fin 512) :
    getNextTable s t i false = ((link s.mem t i).getD 0, s) := by
  unfold getNextTable link entryLink
  split <;> rfl

/-- A linked table is returned as it is. -/
theorem getNextTable_of_link {a : U64} (h : link s.mem t i = some a) (create : Bool) :
    getNextTable s t i create = (a, s) := by
  have hp : ¬ entry s.mem t i &&& pagePresent = 0 := fun hp => by
    rw [link, entryLink_of_absent hp] at h
    cases h
  rw [link, entryLink_of_present hp] at h
  rw [getNextTable, if_neg hp, Option.some.inj h]

/-- **What `get_next_table` with `create` can do**: return the linked table, fail for want of a
frame, or link a new one. -/
theorem getNextTable_true_cases (s : Paging M) (t : U64) (i : Fin 512) :
    (∃ a, link s.mem t i = some a ∧ getNextTable s t i true = (a, s)) ∨
    (link s.mem t i = none ∧ (pmmAllocFrame s.pmm).1 = 0 ∧
      getNextTable s t i true = (0, { s with pmm := (pmmAllocFrame s.pmm).2 })) ∨
    (link s.mem t i = none ∧ ∃ f s', (pmmAllocFrame s.pmm).1 = f ∧ f ≠ 0 ∧
      s' = linkTable { s with pmm := (pmmAllocFrame s.pmm).2 } t i f ∧
      getNextTable s t i true = (entry s'.mem t i &&& frameMask, s')) := by
  by_cases hp : entry s.mem t i &&& pagePresent = 0
  · have hlink : link s.mem t i = none := entryLink_of_absent hp
    by_cases hf : (pmmAllocFrame s.pmm).1 = 0
    · refine .inr (.inl ⟨hlink, hf, ?_⟩)
      simp only [getNextTable, if_pos hp, if_pos hf, Bool.true_eq_false, if_false]
    · refine .inr (.inr ⟨hlink, _, _, rfl, hf, rfl, ?_⟩)
      simp only [getNextTable, if_pos hp, if_neg hf, Bool.true_eq_false, if_false]
  · have hlink : link s.mem t i = some (entry s.mem t i &&& frameMask) := entryLink_of_present hp
    exact .inl ⟨_, hlink, getNextTable_of_link hlink true⟩

/-- What `pmm_alloc_frame` keeps, `get_next_table` keeps. -/
theorem getNextTable_keeps {I : Pmm → Prop} (hI : ∀ p, I p → I (pmmAllocFrame p).2) (h : I s.pmm)
    (t : U64) (i : Fin 512) : I (getNextTable s t i true).2.pmm := by
  rcases getNextTable_true_cases s t i with ⟨a, -, hg⟩ | ⟨-, -, hg⟩ | ⟨-, f, s', -, -, rfl, hg⟩ <;>
    rw [hg]
  exacts [h, hI _ h, hI _ h]

/-- `get_next_table` can only add to the failures. -/
theorem failures_getNextTable_le (s : Paging M) (t : U64) (i : Fin 512) :
    s.pmm.failures ≤ (getNextTable s t i true).2.pmm.failures :=
  getNextTable_keeps (I := fun p => s.pmm.failures ≤ p.failures)
    (fun p hp => hp.trans (failures_le_pmmAllocFrame p)) le_rfl t i

/-- The state a call ends in. -/
def endState : Except (Paging M) (Paging M) → Paging M
  | .ok s => s
  | .error s => s

section Steps

variable {p pdpt pd pt : U64} {s₁ s₂ s₃ : Paging M} (h4 : s.pml4 ≠ 0)
  (h₁ : getNextTable s s.pml4 (pml4Idx v) true = (pdpt, s₁))
  (h₂ : getNextTable s₁ pdpt (pdptIdx v) true = (pd, s₂))
  (h₃ : getNextTable s₂ pd (pdIdx v) true = (pt, s₃))
include h4 h₁ h₂ h₃

/-- `paging_map` in terms of its three steps down. -/
theorem pagingMap_eq : pagingMap s v p =
    if pdpt = 0 then .error s₁ else if pd = 0 then .error s₂
    else if pt = 0 then .ok s₃ else .ok (writePage s₃ pt (ptIdx v) p) := by
  simp only [pagingMap, if_neg h4, h₁, h₂, h₃]

end Steps

/-- What `pmm_alloc_frame` keeps, `paging_map` keeps. -/
theorem pagingMap_keeps {I : Pmm → Prop} (hI : ∀ p, I p → I (pmmAllocFrame p).2) (h : I s.pmm)
    (v p : U64) : I (endState (pagingMap s v p)).pmm := by
  by_cases h4 : s.pml4 = 0
  · rw [pagingMap, if_pos h4]
    exact h
  have k₁ := getNextTable_keeps hI h s.pml4 (pml4Idx v)
  rcases h₁ : getNextTable s s.pml4 (pml4Idx v) true with ⟨pdpt, s₁⟩
  rw [h₁] at k₁
  have k₂ := getNextTable_keeps hI k₁ pdpt (pdptIdx v)
  rcases h₂ : getNextTable s₁ pdpt (pdptIdx v) true with ⟨pd, s₂⟩
  rw [h₂] at k₂
  have k₃ := getNextTable_keeps hI k₂ pd (pdIdx v)
  rcases h₃ : getNextTable s₂ pd (pdIdx v) true with ⟨pt, s₃⟩
  rw [h₃] at k₃
  rw [pagingMap_eq h4 h₁ h₂ h₃]
  split_ifs
  exacts [k₁, k₂, k₃, k₃]

theorem pml4_getNextTable (s : Paging M) (t : U64) (i : Fin 512) (create : Bool) :
    (getNextTable s t i create).2.pml4 = s.pml4 := by
  cases create
  · rw [getNextTable_false]
  · rcases getNextTable_true_cases s t i with
      ⟨a, -, hg⟩ | ⟨-, -, hg⟩ | ⟨-, f, s', -, -, rfl, hg⟩ <;>
      rw [hg]
    rfl

/-- `paging_map` leaves the root where it is. -/
theorem pml4_pagingMap (s : Paging M) (v p : U64) :
    (endState (pagingMap s v p)).pml4 = s.pml4 := by
  unfold pagingMap
  dsimp only
  split_ifs <;> simp only [endState, writePage, pml4_getNextTable]

theorem HasTables.unique {pdpt pd pt pdpt' pd' pt' : U64} (h : HasTables s v pdpt pd pt)
    (h' : HasTables s v pdpt' pd' pt') : pdpt' = pdpt ∧ pd' = pd ∧ pt' = pt := by
  obtain rfl := Option.some.inj (h'.link_pml4.symm.trans h.link_pml4)
  obtain rfl := Option.some.inj (h'.link_pdpt.symm.trans h.link_pdpt)
  obtain rfl := Option.some.inj (h'.link_pd.symm.trans h.link_pd)
  exact ⟨rfl, rfl, rfl⟩

/-- The walks along the tables on the way to `v`. -/
theorem HasTables.walks {pdpt pd pt : U64} (h : HasTables s v pdpt pd pt) :
    walk (link s.mem) s.pml4 [pml4Idx v] = some pdpt ∧
    walk (link s.mem) s.pml4 [pml4Idx v, pdptIdx v] = some pd ∧
    walk (link s.mem) s.pml4 [pml4Idx v, pdptIdx v, pdIdx v] = some pt := by
  simp [h.link_pml4, h.link_pdpt, h.link_pd]

/-- The page is looked up in the last table. -/
theorem HasTables.pageFrame {pdpt pd pt : U64} (h : HasTables s v pdpt pd pt) :
    s.pageFrame (pageOf v) = link s.mem pt (ptIdx v) := by
  rw [Paging.pageFrame, pagePath_pageOf_eq_concat, walk_concat, h.walks.2.2, Option.bind_some]

/-- The lookup by the code, all tables found. -/
theorem HasTables.pagingGetPhysical {pdpt pd pt : U64} (h : HasTables s v pdpt pd pt) :
    pagingGetPhysical s v = physicalOf v (link s.mem pt (ptIdx v)) := by
  simp only [OS44.pagingGetPhysical, if_neg h.pml4_ne, getNextTable_of_link h.link_pml4,
    if_neg h.pdpt_ne, getNextTable_of_link h.link_pdpt, if_neg h.pd_ne,
    getNextTable_of_link h.link_pd, if_neg h.pt_ne, link, entryLink]
  split <;> rfl

/-- `paging_unmap`, all tables found. -/
theorem HasTables.pagingUnmap {pdpt pd pt : U64} (h : HasTables s v pdpt pd pt) :
    pagingUnmap s v = match link s.mem pt (ptIdx v) with
      | none => s
      | some _ => freeCascade (clearPage s pt (ptIdx v)) v pdpt pd pt := by
  simp only [OS44.pagingUnmap, if_neg h.pml4_ne, getNextTable_of_link h.link_pml4,
    if_neg h.pdpt_ne, getNextTable_of_link h.link_pdpt, if_neg h.pd_ne,
    getNextTable_of_link h.link_pd, if_neg h.pt_ne, link, entryLink]
  split <;> rfl

/-- `paging_map`, all tables found. -/
theorem HasTables.pagingMap {pdpt pd pt : U64} (h : HasTables s v pdpt pd pt) (p : U64) :
    pagingMap s v p = .ok (writePage s pt (ptIdx v) p) := by
  simp only [OS44.pagingMap, if_neg h.pml4_ne, getNextTable_of_link h.link_pml4,
    if_neg h.pdpt_ne, getNextTable_of_link h.link_pdpt, if_neg h.pd_ne,
    getNextTable_of_link h.link_pd, if_neg h.pt_ne]

/-- Without tables on the way to `v` the code finds nothing and `paging_unmap` does nothing. -/
theorem of_not_hasTables (h : ¬ ∃ pdpt pd pt, HasTables s v pdpt pd pt) :
    pagingGetPhysical s v = 0 ∧ pagingUnmap s v = s := by
  unfold pagingGetPhysical pagingUnmap
  simp only [getNextTable_false]
  -- level by level: the walk stops at the first link that is absent or null
  by_cases h4 : s.pml4 = 0
  · simp [h4]
  rcases h3 : link s.mem s.pml4 (pml4Idx v) with _ | pdpt
  · simp
  by_cases hpdpt : pdpt = 0
  · simp [hpdpt]
  rcases h2 : link s.mem pdpt (pdptIdx v) with _ | pd
  · simp [h2]
  by_cases hpd : pd = 0
  · simp [h2, hpd]
  rcases h1 : link s.mem pd (pdIdx v) with _ | pt
  · simp [h1, h2]
  by_cases hpt : pt = 0
  · simp [h1, h2, hpt]
  · exact absurd ⟨pdpt, pd, pt, h4, hpdpt, hpd, hpt, h3, h2, h1⟩ h

/-- **What `paging_unmap` can do**: nothing, if the code does not find the page mapped, or clear the
page and enter the cascade. -/
theorem pagingUnmap_cases (s : Paging M) (v : U64) :
    ((∀ f, ¬ MapsTo s v f) ∧ pagingUnmap s v = s) ∨
    ∃ pdpt pd pt f, HasTables s v pdpt pd pt ∧ link s.mem pt (ptIdx v) = some f ∧
      pagingUnmap s v = freeCascade (clearPage s pt (ptIdx v)) v pdpt pd pt := by
  by_cases h : ∃ pdpt pd pt, HasTables s v pdpt pd pt
  · obtain ⟨pdpt, pd, pt, ht⟩ := h
    rcases hf : link s.mem pt (ptIdx v) with _ | f
    · refine .inl ⟨?_, by rw [ht.pagingUnmap, hf]⟩
      rintro f ⟨pdpt', pd', pt', ht', hf'⟩
      obtain ⟨rfl, rfl, rfl⟩ := ht.unique ht'
      rw [hf] at hf'
      cases hf'
    · exact .inr ⟨pdpt, pd, pt, f, ht, hf, by rw [ht.pagingUnmap, hf]⟩
  · refine .inl ⟨?_, (of_not_hasTables h).2⟩
    rintro f ⟨pdpt, pd, pt, ht, -⟩
    exact h ⟨pdpt, pd, pt, ht⟩

end Links

end OS44
