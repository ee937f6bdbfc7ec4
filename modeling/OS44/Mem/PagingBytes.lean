import OS44.Mem.Paging

/-! # Page tables in physical memory

The storage of `paging.c` at the level of bytes. A `PageTable` is 512 entries of 8 bytes and then
`ref_count`, so the counter of the table at `a` is at `a + 4096`: in the next frame, although a
table is given one frame. `counter_store_escapes` says that a store which changes a counter always
changes another frame; the calls that stay inside the frames of their tables are then exactly those
that change no counter (`paging_confined_iff`). -/

namespace OS44

open LinkedTree LittleEndian TableMemory

/-- A store to a `ref_count`: the table, and memory before and after. -/
structure CounterStore where
  table : U64
  before : PhysMem
  after : PhysMem

/-- Physical memory. `counterStores` is a ghost record of the stores to counters, newest first. -/
structure TableBytes where
  bytes : PhysMem
  counterStores : List CounterStore

/-- The address of `table->entries[i]`. -/
def entryAddr (table : U64) (i : Fin 512) : U64 := table + BitVec.ofNat 64 (8 * i)

/-- The address of `table->ref_count`. -/
def refCountAddr (table : U64) : U64 := table + 4096

instance : TableMemory TableBytes where
  entry m a i := load64 m.bytes (entryAddr a i)
  setEntry m a i e := { m with bytes := store64 m.bytes (entryAddr a i) e }
  refCount m a := load32 m.bytes (refCountAddr a)
  setRefCount m a c :=
    let after := store32 m.bytes (refCountAddr a) c
    { bytes := after, counterStores := ⟨a, m.bytes, after⟩ :: m.counterStores }
  zeroFrame m a := { m with bytes := storeLE m.bytes a 4096 0 }

/-- The state after `paging_init` in physical memory. -/
def pagingAt (bytes : PhysMem) (pmm : Pmm) (cr3 : U64) : Paging TableBytes :=
  pagingInit { bytes := bytes, counterStores := [] } pmm cr3

/-- The store changes no byte outside the frame of its table: no entry of another table and no byte
of a data frame. -/
def CounterStore.Confined (j : CounterStore) : Prop :=
  ∀ b, j.after b ≠ j.before b → frameOf b = frameOf j.table

/-- `t` is a table of the call that went from `s` to `s'`: on the walk of `v` (the `PML4` is), or
allocated by the call. -/
def TableOfCall (s : Paging TableBytes) (v : U64) (s' : Paging TableBytes) (t : U64) : Prop :=
  (∃ q, q <+: [pml4Idx v, pdptIdx v, pdIdx v] ∧ walk (link s.mem) s.pml4 q = some t) ∨
  s.pmm.calls.count (.alloc t) < s'.pmm.calls.count (.alloc t)

/-- **What a call for the address `v` may do to memory**: it comes back, the bytes it changes are in
frames of its tables, and each of its stores to a counter stays in the frame of its table. -/
def CallConfined (s : Paging TableBytes) (v : U64)
    (result : Except (Paging TableBytes) (Paging TableBytes)) : Prop :=
  ∃ s', result = .ok s' ∧
    (∀ b, s'.mem.bytes b ≠ s.mem.bytes b → ∃ t, TableOfCall s v s' t ∧ frameOf b = frameOf t) ∧
    ∀ j ∈ s'.mem.counterStores, j.Confined

variable {s s' : Paging TableBytes} {m : TableBytes} {a v p t pdpt pd pt : U64} {i : Fin 512}
  {j : CounterStore}

/-- **A counter is not in the frame of its table.** A store that changes it
changes another frame. -/
theorem counter_store_escapes {c : U32} (hc : c ≠ refCount m a) :
    ¬ CounterStore.Confined ⟨a, m.bytes, store32 m.bytes (refCountAddr a) c⟩ := by
  intro hconf
  have hne : loadLE (store32 m.bytes (refCountAddr a) c) (refCountAddr a) 4 ≠
      loadLE m.bytes (refCountAddr a) 4 := fun he => by
    have : load32 (store32 m.bytes (refCountAddr a) c) (refCountAddr a) =
        load32 m.bytes (refCountAddr a) := by rw [load32, load32, he]
    rw [load32_store32] at this
    exact hc this
  obtain ⟨k, hk, hb⟩ := exists_byte_ne hne
  have hframe := hconf _ hb
  simp only [frameOf, refCountAddr] at hframe
  have : (a + 4096 + BitVec.ofNat 64 k).toNat = (a.toNat + 4096 + k) % 2 ^ 64 := by
    bv_omega
  rw [this] at hframe
  have := a.isLt
  omega

/-! ## The calls that change a counter -/

/-- Some store to a counter has left the frame of its table. -/
def Escapes (m : TableBytes) : Prop := ∃ j ∈ m.counterStores, ¬ j.Confined

theorem Escapes.setRefCount (h : Escapes m) (a : U64) (c : U32) : Escapes (setRefCount m a c) := by
  obtain ⟨j, hj, hc⟩ := h
  exact ⟨j, List.mem_cons_of_mem _ hj, hc⟩

theorem Escapes.setEntry (h : Escapes m) (a : U64) (i : Fin 512) (e : U64) :
    Escapes (setEntry m a i e) := h

theorem Escapes.zeroFrame (h : Escapes m) (a : U64) : Escapes (zeroFrame m a) := h

theorem escapes_setRefCount {c : U32} (hc : c ≠ refCount m a) : Escapes (setRefCount m a c) :=
  ⟨_, List.mem_cons_self, counter_store_escapes hc⟩

theorem add_one_ne (c : U32) : c + 1 ≠ c := by bv_omega

theorem sub_one_ne (c : U32) : c - 1 ≠ c := by bv_omega

theorem Escapes.linkTable (h : Escapes s.mem) (t : U64) (i : Fin 512) (f : U64) :
    Escapes (linkTable s t i f).mem := by
  simp only [OS44.linkTable]
  exact (((h.zeroFrame f).setEntry _ _ _).setRefCount _ _).setRefCount _ _

theorem escapes_linkTable (s : Paging TableBytes) (t : U64) (i : Fin 512) (f : U64) :
    Escapes (linkTable s t i f).mem := by
  simp only [OS44.linkTable]
  exact escapes_setRefCount (add_one_ne _)

/-- Once a store has escaped, it stays on record. -/
theorem Escapes.getNextTable (h : Escapes s.mem) (hs : getNextTable s t i true = (a, s')) :
    Escapes s'.mem := by
  rcases getNextTable_true_cases s t i with ⟨b, -, hb⟩ | ⟨-, -, h0⟩ | ⟨-, f, s₁, -, -, hs₁, hf⟩
  · rw [hb] at hs
    rwa [← (Prod.mk.inj hs).2]
  · rw [h0] at hs
    rwa [← (Prod.mk.inj hs).2]
  · rw [hf] at hs
    rw [← (Prod.mk.inj hs).2, hs₁]
    exact Escapes.linkTable (s := { s with pmm := (pmmAllocFrame s.pmm).2 }) h t i f

theorem Escapes.writePage (h : Escapes s.mem) (pt : U64) (i : Fin 512) (p : U64) :
    Escapes (writePage s pt i p).mem := by
  simp only [OS44.writePage]
  split
  · exact (h.setRefCount _ _).setEntry _ _ _
  · exact h.setEntry _ _ _

theorem Escapes.dropEntry (h : Escapes s.mem) (t : U64) (i : Fin 512) :
    Escapes (dropEntry s t i).mem := by
  simp only [OS44.dropEntry]
  exact (h.setEntry _ _ _).setRefCount _ _

theorem Escapes.freeCascade (h : Escapes s.mem) (v pdpt pd pt : U64) :
    Escapes (freeCascade s v pdpt pd pt).mem := by
  simp only [OS44.freeCascade]
  have h₁ : Escapes (OS44.dropEntry (freeTable s pt) pd (pdIdx v)).mem := Escapes.dropEntry h _ _
  have h₂ := Escapes.dropEntry
    (s := freeTable (OS44.dropEntry (freeTable s pt) pd (pdIdx v)) pd) h₁ pdpt (pdptIdx v)
  split_ifs
  · exact h₂.setEntry _ _ _
  · exact h₂
  · exact h₁
  · exact h

/-- `get_next_table` with `create`: it finds the table, gets no frame, or lets a store escape. -/
theorem getNextTable_escapes (hs : getNextTable s t i true = (a, s')) :
    (link s.mem t i = some a ∧ s' = s) ∨
    (link s.mem t i = none ∧ a = 0 ∧ (pmmAllocFrame s.pmm).1 = 0) ∨ Escapes s'.mem := by
  rcases getNextTable_true_cases s t i with ⟨b, hb, hb'⟩ | ⟨hn, h0, h0'⟩ | ⟨-, f, s₁, -, -, hs₁, hf⟩
  · rw [hb'] at hs
    obtain ⟨rfl, rfl⟩ := Prod.mk.inj hs
    exact .inl ⟨hb, rfl⟩
  · rw [h0'] at hs
    exact .inr (.inl ⟨hn, (Prod.mk.inj hs).1.symm, h0⟩)
  · rw [hf] at hs
    rw [← (Prod.mk.inj hs).2, hs₁]
    exact .inr (.inr (escapes_linkTable _ t i f))

/-- **The condition for `paging_map`**: it changes no counter and dereferences no null table. There
are no tables at all; or the two upper tables for `v` are there and the page table is missing and
not to be had, or is null, or has the page of `v` mapped already. -/
def MapKeepsCounts (s : Paging TableBytes) (v : U64) : Prop :=
  s.pml4 = 0 ∨ ∃ pdpt pd, pdpt ≠ 0 ∧ pd ≠ 0 ∧ link s.mem s.pml4 (pml4Idx v) = some pdpt ∧
    link s.mem pdpt (pdptIdx v) = some pd ∧
    ((link s.mem pd (pdIdx v) = none ∧ (pmmAllocFrame s.pmm).1 = 0) ∨
      link s.mem pd (pdIdx v) = some 0 ∨
      ∃ pt, pt ≠ 0 ∧ link s.mem pd (pdIdx v) = some pt ∧ link s.mem pt (ptIdx v) ≠ none)

/-- The call faults, or a store has escaped when it comes back. -/
def FaultsOrEscapes (result : Except (Paging TableBytes) (Paging TableBytes)) : Prop :=
  ∀ s', result = .ok s' → Escapes s'.mem

section Map

variable {s₁ s₂ s₃ : Paging TableBytes} (h4 : s.pml4 ≠ 0)
  (h₁ : getNextTable s s.pml4 (pml4Idx v) true = (pdpt, s₁))
include h4 h₁

/-- An escape in the third step down. -/
theorem faultsOrEscapes_pt (hpdpt : pdpt ≠ 0)
    (h₂ : getNextTable s₁ pdpt (pdptIdx v) true = (pd, s₂)) (hpd : pd ≠ 0)
    (h₃ : getNextTable s₂ pd (pdIdx v) true = (pt, s₃)) (he : Escapes s₃.mem) :
    FaultsOrEscapes (pagingMap s v p) := by
  intro s' hs'
  simp only [pagingMap, if_neg h4, h₁, if_neg hpdpt, h₂, if_neg hpd, h₃] at hs'
  split at hs'
  · rwa [← Except.ok.inj hs']
  · rw [← Except.ok.inj hs']
    exact he.writePage _ _ _

/-- An escape in the second step down. -/
theorem faultsOrEscapes_pd (hpdpt : pdpt ≠ 0)
    (h₂ : getNextTable s₁ pdpt (pdptIdx v) true = (pd, s₂)) (he : Escapes s₂.mem) :
    FaultsOrEscapes (pagingMap s v p) := by
  by_cases hpd : pd = 0
  · intro s' hs'
    simp only [pagingMap, if_neg h4, h₁, if_neg hpdpt, h₂, if_pos hpd, reduceCtorEq] at hs'
  · exact faultsOrEscapes_pt h4 h₁ hpdpt h₂ hpd rfl (he.getNextTable rfl)

/-- An escape in the first step down. -/
theorem faultsOrEscapes_pdpt (he : Escapes s₁.mem) : FaultsOrEscapes (pagingMap s v p) := by
  by_cases hpdpt : pdpt = 0
  · intro s' hs'
    simp only [pagingMap, if_neg h4, h₁, if_pos hpdpt, reduceCtorEq] at hs'
  · exact faultsOrEscapes_pd h4 h₁ hpdpt rfl (he.getNextTable rfl)

end Map

/-- **A `paging_map` that does not meet the condition faults or lets a store escape.** -/
theorem faultsOrEscapes_pagingMap (h : ¬ MapKeepsCounts s v) (p : U64) :
    FaultsOrEscapes (pagingMap s v p) := by
  have h4 : s.pml4 ≠ 0 := fun h4 => h (.inl h4)
  -- down the walk, as long as no new table is linked: linking one stores to its counter
  rcases h₁ : getNextTable s s.pml4 (pml4Idx v) true with ⟨pdpt, s₁⟩
  by_cases hpdpt : pdpt = 0
  · intro s' hs'
    simp only [pagingMap, if_neg h4, h₁, if_pos hpdpt, reduceCtorEq] at hs'
  rcases getNextTable_escapes h₁ with ⟨hl₁, rfl⟩ | ⟨-, h0, -⟩ | he
  · rcases h₂ : getNextTable s₁ pdpt (pdptIdx v) true with ⟨pd, s₂⟩
    by_cases hpd : pd = 0
    · intro s' hs'
      simp only [pagingMap, if_neg h4, h₁, if_neg hpdpt, h₂, if_pos hpd, reduceCtorEq] at hs'
    rcases getNextTable_escapes h₂ with ⟨hl₂, rfl⟩ | ⟨-, h0, -⟩ | he
    · rcases h₃ : getNextTable s₂ pd (pdIdx v) true with ⟨pt, s₃⟩
      rcases getNextTable_escapes h₃ with ⟨hl₃, rfl⟩ | ⟨hn, -, h0⟩ | he
      · by_cases hpt : pt = 0
        · exact absurd (.inr ⟨pdpt, pd, hpdpt, hpd, hl₁, hl₂, .inr (.inl (hpt ▸ hl₃))⟩) h
        · by_cases hx : link s₃.mem pt (ptIdx v) = none
          · -- the page is new in its table: its counter goes up
            intro s' hs'
            rw [HasTables.pagingMap ⟨h4, hpdpt, hpd, hpt, hl₁, hl₂, hl₃⟩] at hs'
            rw [← Except.ok.inj hs', writePage, if_pos (entryLink_eq_none.mp hx)]
            exact (escapes_setRefCount (add_one_ne _)).setEntry _ _ _
          · exact absurd
              (.inr ⟨pdpt, pd, hpdpt, hpd, hl₁, hl₂, .inr (.inr ⟨pt, hpt, hl₃, hx⟩)⟩) h
      · exact absurd (.inr ⟨pdpt, pd, hpdpt, hpd, hl₁, hl₂, .inl ⟨hn, h0⟩⟩) h
      · exact faultsOrEscapes_pt h4 h₁ hpdpt h₂ hpd h₃ he
    · exact absurd h0 hpd
    · exact faultsOrEscapes_pd h4 h₁ hpdpt h₂ he
  · exact absurd h0 hpdpt
  · exact faultsOrEscapes_pdpt h4 h₁ he

/-- A `paging_unmap` of a mapped page lets a store escape. -/
theorem escapes_pagingUnmap {f : U64} (h : MapsTo s v f) : Escapes (pagingUnmap s v).mem := by
  obtain ⟨pdpt, pd, pt, ht, hf⟩ := h
  rw [ht.pagingUnmap, hf]
  refine Escapes.freeCascade ?_ v pdpt pd pt
  rw [clearPage]
  exact escapes_setRefCount (sub_one_ne _)

/-! ## The calls that stay in the frames of their tables -/

/-- A call that leaves memory alone is confined. -/
theorem callConfined_of_mem_eq (hs : s.mem.counterStores = []) (hmem : s'.mem = s.mem) :
    CallConfined s v (.ok s') := by
  refine ⟨s', rfl, fun b hb => absurd (by rw [hmem]) hb, ?_⟩
  intro j hj
  rw [hmem, hs] at hj
  cases hj

/-- The bytes of an entry are in the frame of its table. -/
theorem frameOf_of_store64 {b : U64} {m : PhysMem} {e : U64} (ha : a &&& frameMask = a)
    (hb : store64 m (entryAddr a i) e b ≠ m b) : frameOf b = frameOf a := by
  have hlt : (b - entryAddr a i).toNat < 8 := by
    by_contra hc
    exact hb (storeLE_of_not_lt hc)
  rw [and_frameMask_eq_self] at ha
  have hi := i.isLt
  have : (entryAddr a i).toNat = a.toNat + 8 * i := by
    rw [entryAddr]
    bv_omega
  have : b.toNat = a.toNat + 8 * i + (b - entryAddr a i).toNat := by bv_omega
  simp only [frameOf]
  omega

/-- Remapping a mapped page is confined. -/
theorem callConfined_writePage (hs : s.mem.counterStores = []) (ht : HasTables s v pdpt pd pt)
    (hx : link s.mem pt (ptIdx v) ≠ none) (p : U64) :
    CallConfined s v (.ok (writePage s pt (ptIdx v) p)) := by
  have hp : ¬ entry s.mem pt (ptIdx v) &&& pagePresent = 0 := fun hp =>
      hx (entryLink_eq_none.mpr hp)
  have hw : walk (link s.mem) s.pml4 [pml4Idx v, pdptIdx v, pdIdx v] = some pt := ht.walks.2.2
  refine ⟨_, rfl, fun b hb => ⟨pt, .inl ⟨_, List.prefix_refl _, hw⟩, ?_⟩, ?_⟩
  · rw [writePage, if_neg hp] at hb
    exact frameOf_of_store64 (entryLink_aligned ht.link_pd) hb
  · intro j hj
    rw [writePage, if_neg hp] at hj
    have : j ∈ s.mem.counterStores := hj
    rw [hs] at this
    cases this

/-- The condition gives a confined `paging_map`. -/
theorem callConfined_pagingMap (hs : s.mem.counterStores = []) (h : MapKeepsCounts s v) (p : U64) :
    CallConfined s v (pagingMap s v p) := by
  rcases h with h4 | ⟨pdpt, pd, hpdpt, hpd, h₄, h₃, h₂⟩
  · rw [pagingMap, if_pos h4]
    exact callConfined_of_mem_eq hs rfl
  by_cases h4 : s.pml4 = 0
  · rw [pagingMap, if_pos h4]
    exact callConfined_of_mem_eq hs rfl
  rcases h₂ with ⟨hn, h0⟩ | h0 | ⟨pt, hpt, h₂, hx⟩
  · -- no table of pages and no frame for one
    have hnext : getNextTable s pd (pdIdx v) true =
        (0, { s with pmm := (pmmAllocFrame s.pmm).2 }) := by
      rcases getNextTable_true_cases s pd (pdIdx v) with ⟨a, ha, -⟩ | ⟨-, -, h⟩ |
        ⟨-, f, -, hf, hf0, -⟩
      · rw [hn] at ha
        cases ha
      · exact h
      · exact absurd (hf.symm.trans h0) hf0
    simp only [pagingMap, if_neg h4, getNextTable_of_link h₄, if_neg hpdpt,
      getNextTable_of_link h₃, if_neg hpd, hnext, if_true]
    exact callConfined_of_mem_eq hs rfl
  · simp only [pagingMap, if_neg h4, getNextTable_of_link h₄, if_neg hpdpt,
      getNextTable_of_link h₃, if_neg hpd, getNextTable_of_link h0, if_true]
    exact callConfined_of_mem_eq hs rfl
  · have ht : HasTables s v pdpt pd pt := ⟨h4, hpdpt, hpd, hpt, h₄, h₃, h₂⟩
    rw [ht.pagingMap]
    exact callConfined_writePage hs ht hx p

/-- A confined call let no store escape. -/
theorem not_callConfined {result : Except (Paging TableBytes) (Paging TableBytes)}
    (h : FaultsOrEscapes result) : ¬ CallConfined s v result := by
  rintro ⟨s', hs', -, hconf⟩
  obtain ⟨j, hj, hesc⟩ := h s' hs'
  exact hesc (hconf j hj)

/-- **When the paging code stays inside its tables.** For every content of physical memory, every
`CR3` and every state of the frame allocator: `paging_map` changes only frames of its tables, and no
store to a counter leaves the frame of its table, if and only if it changes no counter and faults
nowhere; `paging_unmap` does if and only if the page is not mapped. -/
theorem paging_confined_iff (bytes : PhysMem) (pmm : Pmm) (cr3 v p : U64) :
    (CallConfined (pagingAt bytes pmm cr3) v (pagingMap (pagingAt bytes pmm cr3) v p) ↔
      MapKeepsCounts (pagingAt bytes pmm cr3) v) ∧
    (CallConfined (pagingAt bytes pmm cr3) v
        (.ok (pagingUnmap (pagingAt bytes pmm cr3) v)) ↔
      ∀ f, ¬ MapsTo (pagingAt bytes pmm cr3) v f) := by
  refine ⟨⟨?_, fun h => callConfined_pagingMap rfl h p⟩, ?_, ?_⟩
  · intro h
    by_contra hc
    exact not_callConfined (faultsOrEscapes_pagingMap hc p) h
  · intro h f hf
    refine not_callConfined (fun s' hs' => ?_) h
    rw [← Except.ok.inj hs']
    exact escapes_pagingUnmap hf
  · intro h
    rcases pagingUnmap_cases (pagingAt bytes pmm cr3) v with
      ⟨-, hs⟩ | ⟨pdpt, pd, pt, f, ht, hf, -⟩
    · rw [hs]
      exact callConfined_of_mem_eq rfl rfl
    · exact absurd ⟨pdpt, pd, pt, ht, hf⟩ (h f)

/-- **The first page ever mapped writes outside its tables**: an empty `PML4` at 1 MiB in zeroed
memory on the 512 MiB machine. -/
theorem paging_map_not_confined : ¬ CallConfined
    (pagingAt (fun _ => 0) Sample.pmm 0x100000) 0x10000000
    (pagingMap (pagingAt (fun _ => 0) Sample.pmm 0x100000) 0x10000000 0x800000) := by
  refine not_callConfined (faultsOrEscapes_pagingMap ?_ _)
  have hentry : ∀ a i, entry (M := TableBytes) ⟨fun _ => 0, []⟩ a i = 0 := fun a i => by
    simp [entry, load64, loadLE]
  have hlink : ∀ a i, link (M := TableBytes) ⟨fun _ => 0, []⟩ a i = none := fun a i => by
    rw [link, hentry, entryLink_zero]
  rintro (h4 | ⟨pdpt, pd, -, -, h, -⟩)
  · have : (0x100000 : U64) &&& frameMask ≠ 0 := by decide
    exact this h4
  · rw [pagingAt, pagingInit, hlink] at h
    cases h

end OS44
