import OS44.Mem.PagingOnBytes
import OS44.Mem.PagingRun

/-! # Tables inherited from the firmware

The tables that `paging_init` finds in `CR3` have counters that nobody has ever set. On such a tree
the free cascade of `paging_unmap` is right if and only if every counter it relies on happens to be
right: shown on structs of their own (`unmapOk_iff_cascadeOk`), and from there in memory, for every
run in which no counter that a call stores lies in a table (`paging_unmap_run`). -/

namespace OS44

open Runs LinkedTree LittleEndian TableMemory

variable {s s' : Paging TableHeap} {v p pdpt pd pt f : U64} {op : PagingOp}

/-- **What `paging_unmap` must do**: the translation of every other page is unchanged, and no table
given back to the frame allocator still has a present entry. -/
def UnmapOk {M : Type} [TableMemory M] (s : Paging M) : PagingOp → Prop
  | .map _ _ => True
  | .unmap v =>
    (∀ n, n ≠ pageOf v → (pagingUnmap s v).pageFrame n = s.pageFrame n) ∧
    ∀ t, s.frees t < (pagingUnmap s v).frees t →
      ∀ i, entry (pagingUnmap s v).mem t i &&& pagePresent = 0

/-- The condition of the cascade, for the calls of a run. -/
def CascadeOk {M : Type} [TableMemory M] (s : Paging M) : PagingOp → Prop
  | .map _ _ => True
  | .unmap v => FreesEmpty s v

theorem unmapOk_of_cascadeOk (h : PageTree s) (hc : CascadeOk s op) : UnmapOk s op := by
  cases op with
  | map v p => trivial
  | unmap v =>
    have hu := h.unmaps hc
    refine ⟨fun n hn => by rw [hu.pageFrame_eq, if_neg hn], ?_⟩
    intro t ht i
    exact entryLink_eq_none.mp (hu.freed_empty t ht i)

/-- A part of the cascade that leaves the slots of the table `t` alone. -/
structure LeavesSlots (t : U64) (s s' : Paging TableHeap) : Prop where
  frees_le : s.frees t ≤ s'.frees t
  slotCount_eq : slotCount (link s'.mem) t = slotCount (link s.mem) t

theorem LeavesSlots.refl (t : U64) (s : Paging TableHeap) : LeavesSlots t s s := ⟨le_rfl, rfl⟩

theorem LeavesSlots.trans {t : U64} {s₁ : Paging TableHeap} (h : LeavesSlots t s s₁)
    (h' : LeavesSlots t s₁ s') : LeavesSlots t s s' :=
  ⟨h.frees_le.trans h'.frees_le, h'.slotCount_eq.trans h.slotCount_eq⟩

theorem Unlinks.leavesSlots {a b t : U64} {q : List (Fin 512)} {i : Fin 512}
    (hl : Unlinks s a q i b s') (ht : t ≠ a) : LeavesSlots t s s' :=
  ⟨hl.frees_le t, hl.slotCount_of_ne ht⟩

/-- A freed table that is empty at the end was empty when it was freed, if the rest of the cascade
leaves it alone. -/
theorem slotCount_of_unmapOk {s₁ : Paging TableHeap} {v t : U64} (hu : UnmapOk s (.unmap v))
    (hrest : LeavesSlots t s₁ (pagingUnmap s v)) (hfreed : s.frees t < s₁.frees t) :
    slotCount (link s₁.mem) t = 0 := by
  rw [← hrest.slotCount_eq, slotCount_eq_zero]
  intro i
  exact entryLink_eq_none.mpr (hu.2 t (hfreed.trans_le hrest.frees_le) i)

/-- The slots of the freed tables tell whether they were empty. -/
theorem cascadeOk_of_unmapOk (h : PageTree s) (hu : UnmapOk s op) : CascadeOk s op := by
  cases op with
  | map v p => trivial
  | unmap v =>
    intro pdpt pd pt ht hne c₁
    obtain ⟨f, hf⟩ := Option.ne_none_iff_exists'.mp hne
    obtain ⟨h12, h13, h23⟩ := ht.ne_pd h
    obtain ⟨w₁, w₂, w₃⟩ := ht.walks
    have hl₁ := unlinks₁ h ht
    have hl₂ := unlinks₂ h ht
    have hl₃ := unlinks₃ h ht
    have n₀ := slotCount_unmapped₀ ht hf
    have n₁ := slotCount_unmapped₁ h ht
    have n₂ := slotCount_unmapped₂ h ht
    have f₀ : ∀ t, (unmapped₀ s v pt).frees t = s.frees t := fun t => by
      rw [Paging.frees, (leafUpdate₀ ht).pmm_eq, Paging.frees]
    have hroot : ∀ b r, r ≠ [] → r.length ≤ 3 → walk (link s.mem) s.pml4 r = some b → b ≠ s.pml4 :=
      fun b r hr hrd hb => h.ne_root hr hrd hb
    -- the page table: a round that frees it is followed by two that leave it alone
    have hpt : slotCount (link (unmapped₁ s v pd pt).mem) pt = 0 := by
      apply slotCount_of_unmapOk hu ?_ (f₀ pt ▸ hl₁.frees_lt)
      have k₂ := hl₂.leavesSlots h13.symm
      have k₃ := hl₃.leavesSlots (hroot _ _ (by simp) (by simp) w₃)
      rw [pagingUnmap_eq h ht hf, if_pos c₁]
      split_ifs
      exacts [k₂.trans k₃, k₂, .refl _ _]
    rw [hl₁.slotCount_of_ne h23.symm] at hpt
    refine ⟨by omega, ?_⟩
    -- the page directory
    intro c₂
    have hpd : slotCount (link (unmapped₂ s v pdpt pd pt).mem) pd = 0 := by
      apply slotCount_of_unmapOk hu ?_ (f₀ pd ▸ (hl₁.frees_le pd).trans_lt hl₂.frees_lt)
      have k₃ := hl₃.leavesSlots (hroot _ _ (by simp) (by simp) w₂)
      rw [pagingUnmap_eq h ht hf, if_pos c₁, if_pos c₂]
      split_ifs
      exacts [k₃, .refl _ _]
    rw [hl₂.slotCount_of_ne h12.symm] at hpd
    refine ⟨by omega, ?_⟩
    -- the table below the root
    intro c₃
    have hpdpt : slotCount (link (unmapped₃ s v pdpt pd pt).mem) pdpt = 0 := by
      apply slotCount_of_unmapOk hu ?_
        (f₀ pdpt ▸ ((hl₁.frees_le pdpt).trans (hl₂.frees_le pdpt)).trans_lt hl₃.frees_lt)
      rw [pagingUnmap_eq h ht hf, if_pos c₁, if_pos c₂, if_pos c₃]
      exact .refl _ _
    rw [hl₃.slotCount_of_ne (hroot _ _ (by simp) (by simp) w₁)] at hpdpt
    omega

/-- **When one call is right**: if the cascade frees no table with another present entry. -/
theorem unmapOk_iff_cascadeOk (h : PageTree s) : UnmapOk s op ↔ CascadeOk s op :=
  ⟨cascadeOk_of_unmapOk h, unmapOk_of_cascadeOk h⟩

/-- The tables that the cascade frees are tables of the tree. -/
theorem isTable_of_frees_lt (h : PageTree s) {t : U64}
    (ht : s.frees t < (pagingUnmap s v).frees t) : s.IsTable t := by
  rcases pagingUnmap_cases s v with ⟨-, hs⟩ | ⟨pdpt, pd, pt, f, htab, hf, -⟩
  · rw [hs] at ht
    exact absurd ht (lt_irrefl _)
  obtain ⟨w₁, w₂, w₃⟩ := htab.walks
  by_contra hnt
  have hne : ∀ b r, r.length ≤ 3 → walk (link s.mem) s.pml4 r = some b → b ≠ t :=
    fun b r hr hb he => hnt (he ▸ isTable_of_walk hb hr)
  have f₀ : (unmapped₀ s v pt).frees t = s.frees t := by
    rw [Paging.frees, (leafUpdate₀ htab).pmm_eq, Paging.frees]
  have f₁ := (unlinks₁ h htab).frees_eq t
  have f₂ := (unlinks₂ h htab).frees_eq t
  have f₃ := (unlinks₃ h htab).frees_eq t
  rw [if_neg (hne pt _ (by simp) w₃)] at f₁
  rw [if_neg (hne pd _ (by simp) w₂)] at f₂
  rw [if_neg (hne pdpt _ (by simp) w₁)] at f₃
  rw [pagingUnmap_eq h htab hf] at ht
  split_ifs at ht <;> omega

/-! ## In memory -/

/-- **The layout**: no counter that the call stores lies in a table. -/
def CountersOutside {M : Type} [TableMemory M] (s : Paging M) : PagingOp → Prop
  | .map vaddr _ => MapOutside s vaddr
  | .unmap vaddr => UnmapOutside s vaddr

section Bytes

variable {m m' : Paging TableBytes}

/-- A `paging_unmap` in memory and on structs. -/
theorem stored_pagingUnmap (h : PageTree m) (hout : UnmapOutside m v) :
    Stored m.onStructs.IsTable (DropsCounter m.onStructs v) (pagingUnmap m v)
      (pagingUnmap m.onStructs v) :=
  (Stored.onStructs m (fun _ ha => h.onStructs.aligned ha) (fun _ hc => hc.isTable)
    fun a c ha hc => hout c a (dropsCounter_onStructs.mp hc) ha).pagingUnmap (fun _ ha => ha)
    (fun _ ht => ht) h.onStructs

/-- **A call in memory is a call on structs.** -/
theorem pagingStep_onStructs (h : PageTree m) (hout : CountersOutside m op)
    (hs : pagingStep m op = some m') : ∃ h', pagingStep m.onStructs op = some h' ∧
      Stored h'.IsTable (fun _ => False) m' h' ∧ PageTree h' := by
  cases op with
  | map v p =>
    have hstored : Stored m.onStructs.IsTable (fun _ => False) m m.onStructs :=
      Stored.onStructs m (fun _ ha => h.onStructs.aligned ha) (fun _ hc => hc.elim)
        fun _ _ _ hc => hc.elim
    rcases hstored.pagingMap (v := v) h.onStructs ⟨hout, fun _ _ hc => hc.elim⟩ p with
      ⟨s', h', hm, -⟩ | ⟨s', h', hm, hh, htree, hst⟩
    · simp only [pagingStep, hm, reduceCtorEq] at hs
    · have hpmm : s'.pmm = h'.pmm := hst.pmm_eq
      have hpmm' : m.onStructs.pmm = m.pmm := rfl
      simp only [pagingStep, hm, hpmm] at hs
      split_ifs at hs with hf
      obtain rfl := Option.some.inj hs
      refine ⟨h', ?_, hst.mono (fun _ ha => ha) (fun _ hc => hc.elim) (fun _ hc => hc.elim), htree⟩
      simp only [pagingStep, hh, hpmm', if_pos hf]
  | unmap v =>
    obtain rfl := pagingStep_unmap hs
    obtain ⟨htree, hshrinks⟩ := h.onStructs.pagingUnmap v
    exact ⟨_, rfl, (stored_pagingUnmap h hout).mono (fun _ ha => hshrinks.isTable_of ha)
      (fun _ hc => hc.elim) (fun _ hc => hc.elim), htree⟩

/-- The step lemma: a call keeps a tree of tables in memory, whatever the counters are. -/
theorem PageTree.step (h : PageTree m) (hout : CountersOutside m op)
    (hs : pagingStep m op = some m') : PageTree m' := by
  obtain ⟨h', -, hst, htree⟩ := pagingStep_onStructs h hout hs
  exact hst.pageTree (fun _ ha => ha) htree

/-- A call is right in memory if it is right on structs. -/
theorem unmapOk_onStructs (h : PageTree m) (hout : CountersOutside m op) :
    UnmapOk m op ↔ UnmapOk m.onStructs op := by
  cases op with
  | map v p => exact Iff.rfl
  | unmap v =>
    have hst := stored_pagingUnmap h hout
    have hpage := hst.pageFrame_eq fun a ha => (h.onStructs.pagingUnmap v).2.isTable_of ha
    have hfrees : ∀ t, (pagingUnmap m v).frees t = (pagingUnmap m.onStructs v).frees t := by
      intro t
      rw [Paging.frees, hst.pmm_eq, Paging.frees]
    simp only [UnmapOk, hpage, hfrees]
    refine and_congr_right fun _ => forall_congr' fun t => forall_congr' fun ht => ?_
    exact forall_congr' fun i => by rw [hst.entry_eq t i (isTable_of_frees_lt h.onStructs ht)]

/-- One call in memory. -/
theorem unmapOk_iff_of_outside (h : PageTree m) (hout : CountersOutside m op) :
    UnmapOk m op ↔ CascadeOk m op := by
  rw [unmapOk_onStructs h hout, unmapOk_iff_cascadeOk h.onStructs]
  cases op with
  | map v p => exact Iff.rfl
  | unmap v =>
    simp only [CascadeOk, FreesEmpty, hasTables_onStructs]
    exact Iff.rfl

end Bytes

/-- **`paging_unmap` on inherited tables.** For every tree of tables found in `CR3`, with any
counters, in physical memory with any content, and every run of calls that store no counter into a
table: all its calls of `paging_unmap` are right if and only if none of them frees a table that has
another present entry, as told by the counters before the call. -/
theorem paging_unmap_run (bytes : PhysMem) (pmm : Pmm) (cr3 : U64)
    (h : PageTree (pagingAt bytes pmm cr3)) (ops : List PagingOp)
    (hout : AllSteps pagingStep CountersOutside (pagingAt bytes pmm cr3) ops) :
    AllSteps pagingStep CascadeOk (pagingAt bytes pmm cr3) ops ↔
      AllSteps pagingStep UnmapOk (pagingAt bytes pmm cr3) ops := by
  constructor
  · intro hall
    exact AllSteps.consequence (fun t op t' ht hP hs => ht.step hP.1 hs)
      (fun t op ht hP => (unmapOk_iff_of_outside ht hP.1).mpr hP.2) h (hout.and hall)
  · intro hall
    exact AllSteps.consequence (fun t op t' ht hP hs => ht.step hP.1 hs)
      (fun t op ht hP => (unmapOk_iff_of_outside ht hP.1).mp hP.2) h (hout.and hall)

namespace Sample

/-- Memory with tables of the firmware from 1 MiB on, two frames apart: they map the page at
`0x2000` to itself, and no counter has ever been set. -/
def firmwareTables : TableBytes :=
  let m : TableBytes := { bytes := fun _ => 0, counterStores := [] }
  let m := setEntry m 0x100000 ⟨0, by decide⟩ 0x102003
  let m := setEntry m 0x102000 ⟨0, by decide⟩ 0x104003
  let m := setEntry m 0x104000 ⟨0, by decide⟩ 0x106003
  setEntry m 0x106000 ⟨2, by decide⟩ 0x2003

/-- The 512 MiB machine on these tables. -/
def firmware : Paging TableBytes := pagingAt firmwareTables.bytes pmm 0x100000

theorem pml4_firmware : firmware.pml4 = 0x100000 := by
  have : (0x100000 : U64) &&& frameMask = 0x100000 := by decide
  exact this

theorem link_firmware {a : U64} (ha : a &&& frameMask = a) (i : Fin 512) :
    link firmware.mem a i =
      if a = 0x106000 ∧ i = 2 then some 0x2000
      else if a = 0x104000 ∧ i = 0 then some 0x106000
      else if a = 0x102000 ∧ i = 0 then some 0x104000
      else if a = 0x100000 ∧ i = 0 then some 0x102000
      else none := by
  have h1 : entryLink 0x102003 = some 0x102000 := by decide
  have h2 : entryLink 0x104003 = some 0x104000 := by decide
  have h3 : entryLink 0x106003 = some 0x106000 := by decide
  have h4 : entryLink 0x2003 = some 0x2000 := by decide
  have hzero : entry (M := TableBytes) ⟨fun _ => 0, []⟩ a i = 0 := by simp [entry, load64, loadLE]
  have hentry : entry firmware.mem a i =
      if a = 0x106000 ∧ i = 2 then 0x2003
      else if a = 0x104000 ∧ i = 0 then 0x106003
      else if a = 0x102000 ∧ i = 0 then 0x104003
      else if a = 0x100000 ∧ i = 0 then 0x102003
      else 0 := by
    show entry firmwareTables a i = _
    rw [firmwareTables, entry_setEntry_of_aligned (by decide) ha,
      entry_setEntry_of_aligned (by decide) ha, entry_setEntry_of_aligned (by decide) ha,
      entry_setEntry_of_aligned (by decide) ha, hzero]
    rfl
  rw [link, hentry]
  split_ifs
  exacts [h4, h3, h2, h1, entryLink_zero]

theorem refCount_firmware : refCount firmware.mem 0x106000 = 0 := by
  have hskip : ∀ (m : TableBytes) {a : U64} (i : Fin 512) (e : U64), a &&& frameMask = a →
      a ≠ refCountAddr 0x106000 → refCount (setEntry m a i e) 0x106000 = refCount m 0x106000 :=
    fun m a i e ha hne => refCount_setEntry_of_apart ha (by decide) hne
  show refCount firmwareTables 0x106000 = 0
  rw [firmwareTables, hskip _ _ _ (by decide) (by decide), hskip _ _ _ (by decide) (by decide),
    hskip _ _ _ (by decide) (by decide), hskip _ _ _ (by decide) (by decide)]
  decide

/-- The tables are a chain along slot 0. -/
theorem walk_firmware {q : List (Fin 512)} {a : U64} (hlen : q.length ≤ 3)
    (hq : walk (link firmware.mem) firmware.pml4 q = some a) :
    q = List.replicate q.length 0 ∧ a = 0x100000 + 0x2000 * BitVec.ofNat 64 q.length := by
  have h₀ := link_firmware (a := 0x100000) (by decide)
  have h₁ := link_firmware (a := 0x102000) (by decide)
  have h₂ := link_firmware (a := 0x104000) (by decide)
  simp at h₀ h₁ h₂
  rw [pml4_firmware] at hq
  match q, hlen with
  | [], _ => exact ⟨rfl, (Option.some.inj hq).symm⟩
  | [i], _ =>
    simp [h₀] at hq
    simp [hq.1, ← hq.2]
  | [i, j], _ =>
    simp [h₀, h₁, Option.bind_eq_some_iff] at hq
    obtain ⟨rfl, rfl, rfl⟩ := hq
    decide
  | [i, j, k], _ =>
    simp [h₀, h₁, h₂, Option.bind_eq_some_iff] at hq
    obtain ⟨rfl, rfl, rfl, rfl⟩ := hq
    decide

theorem isTable_firmware {a : U64} (h : firmware.IsTable a) :
    ∃ k ≤ 3, a = 0x100000 + 0x2000 * BitVec.ofNat 64 k := by
  obtain ⟨q, hlen, hq⟩ := h
  exact ⟨q.length, hlen, (walk_firmware hlen hq).2⟩

theorem pageTree_firmware : PageTree firmware where
  root_aligned := by rw [pml4_firmware]; decide
  tree p q a hp hq hpa hqa := by
    obtain ⟨hp', ha⟩ := walk_firmware hp hpa
    obtain ⟨hq', ha'⟩ := walk_firmware hq hqa
    have : p.length = q.length := by bv_omega
    rw [hp', hq', this]
  ne_zero a ha := by
    obtain ⟨k, hk, rfl⟩ := isTable_firmware ha
    bv_omega
  used a ha := by
    obtain ⟨k, hk, rfl⟩ := isTable_firmware ha
    refine testBit_pmm ?_
    have : (0x100000 + 0x2000 * BitVec.ofNat 64 k : U64).toNat = 0x100000 + 0x2000 * k := by
      bv_omega
    rw [frameOf, this]
    omega

/-- No table of the firmware follows another one directly. -/
theorem spaced_firmware {t b : U64} (ht : firmware.IsTable t) (hb : firmware.IsTable b) :
    b ≠ refCountAddr t := by
  obtain ⟨k, hk, rfl⟩ := isTable_firmware ht
  obtain ⟨j, hj, rfl⟩ := isTable_firmware hb
  rw [refCountAddr]
  bv_omega

/-- Any page in the first 2 MiB is reached through these tables. -/
theorem hasTables_firmware {v : U64} (h4 : pml4Idx v = 0) (h3 : pdptIdx v = 0) (h2 : pdIdx v = 0) :
    HasTables firmware v 0x102000 0x104000 0x106000 where
  pml4_ne := by rw [pml4_firmware]; decide
  pdpt_ne := by decide
  pd_ne := by decide
  pt_ne := by decide
  link_pml4 := by rw [h4, pml4_firmware, link_firmware (by decide)]; decide
  link_pdpt := by rw [h3, link_firmware (by decide)]; decide
  link_pd := by rw [h2, link_firmware (by decide)]; decide

end Sample

/-- The 512 MiB machine on the tables of the firmware meets the condition in a run that unmaps the
page of the firmware: its table, which has counted nothing, is not freed. -/
theorem paging_unmap_run_sample : MapsTo Sample.firmware 0x2000 0x2000 ∧
    AllSteps pagingStep UnmapOk Sample.firmware [.unmap 0x2000] := by
  have ht : HasTables Sample.firmware 0x2000 0x102000 0x104000 0x106000 :=
    Sample.hasTables_firmware (by decide) (by decide) (by decide)
  have hpage : link Sample.firmware.mem 0x106000 (ptIdx 0x2000) = some 0x2000 := by
    rw [Sample.link_firmware (by decide)]
    decide
  refine ⟨⟨_, _, _, ht, hpage⟩, ?_⟩
  refine (paging_unmap_run Sample.firmwareTables.bytes Sample.pmm 0x100000 Sample.pageTree_firmware
    [.unmap 0x2000] ⟨?_, fun _ _ => trivial⟩).mp ⟨?_, fun _ _ => trivial⟩
  · exact unmapOutside_of_spaced (fun _ _ => Sample.spaced_firmware) _
  · intro pdpt pd pt ht' _ hone
    obtain ⟨rfl, rfl, rfl⟩ := ht.unique ht'
    have hzero : refCount Sample.firmware.mem 0x106000 = 1 := hone
    rw [Sample.refCount_firmware] at hzero
    exact absurd hzero (by decide)

/-- **Pages vanish.** The page at `0x1000` is mapped in the firmware's page table and unmapped
again: its counter, which knows of one page only, drops to zero, so that the table is freed with the
page at `0x2000` still in it. -/
theorem paging_unmap_drops_page :
    PageTree (pagingAt Sample.firmwareTables.bytes Sample.pmm 0x100000) ∧
    ¬ AllSteps pagingStep UnmapOk (pagingAt Sample.firmwareTables.bytes Sample.pmm 0x100000)
      [.map 0x1000 0x5000, .unmap 0x1000] := by
  refine ⟨Sample.pageTree_firmware, ?_⟩
  intro hall
  have ht : HasTables Sample.firmware 0x1000 0x102000 0x104000 0x106000 :=
    Sample.hasTables_firmware (by decide) (by decide) (by decide)
  have hstep : pagingStep Sample.firmware (.map 0x1000 0x5000) =
      some (writePage Sample.firmware 0x106000 (ptIdx 0x1000) 0x5000) := ht.pagingStep_map _
  have hout : CountersOutside Sample.firmware (.map 0x1000 0x5000) :=
    ht.mapOutside fun _ _ => Sample.spaced_firmware
  -- on structs the call writes the page, and the tables stay where they are
  have hth := hasTables_onStructs.mpr ht
  obtain ⟨h', hh, hst, htree⟩ := pagingStep_onStructs Sample.pageTree_firmware hout hstep
  obtain rfl := Option.some.inj ((hth.pagingStep_map 0x5000).symm.trans hh)
  have hl := leafUpdate_writePage rfl hth.walks.2.2 (ptIdx 0x1000) 0x5000
  have htable : ∀ {b}, (writePage Sample.firmware 0x106000 (ptIdx 0x1000) 0x5000).IsTable b →
      Sample.firmware.IsTable b := fun hb =>
    (hl.isTable_iff Sample.pageTree_firmware.onStructs).mp
      ((hst.isTable_iff fun _ ha => ha).mp hb)
  have hout' : CountersOutside (writePage Sample.firmware 0x106000 (ptIdx 0x1000) 0x5000)
      (.unmap 0x1000) := unmapOutside_of_spaced
    (fun _ _ ha hb => Sample.spaced_firmware (htable ha) (htable hb)) _
  have hcond := (unmapOk_iff_of_outside (Sample.pageTree_firmware.step hout hstep) hout').mp
    (hall.2 _ hstep).1
  -- the same tables are found, and the counter of the last one is 1
  have hlink : ∀ a i, a ≠ 0x106000 → link (writePage Sample.firmware.onStructs 0x106000
      (ptIdx 0x1000) 0x5000).mem a i = link Sample.firmware.mem a i := fun a i ha => by
    rw [hl.link_eq, setChild_of_ne fun h => ha h.1]
    rfl
  have ht' : HasTables (writePage Sample.firmware.onStructs 0x106000 (ptIdx 0x1000) 0x5000) 0x1000
      0x102000 0x104000 0x106000 :=
    { hth with
      link_pml4 := by
        rw [hl.pml4_eq]
        refine (hlink _ _ ?_).trans ht.link_pml4
        show Sample.firmware.pml4 ≠ _
        rw [Sample.pml4_firmware]
        decide
      link_pdpt := by rw [hlink _ _ (by decide)]; exact ht.link_pdpt
      link_pd := by rw [hlink _ _ (by decide)]; exact ht.link_pd }
  have hpt := isTable_of_walk ht'.walks.2.2 (by simp)
  have hnone : link Sample.firmware.mem 0x106000 (ptIdx 0x1000) = none := by
    rw [Sample.link_firmware (by decide)]
    decide
  have hcount : refCount (writePage Sample.firmware 0x106000 (ptIdx 0x1000) 0x5000).mem
      0x106000 = 1 := by
    rw [writePage, if_pos (entryLink_eq_none.mp hnone),
      refCount_setEntry_of_apart (by decide) (by decide) (by decide), refCount_setRefCount_self,
      Sample.refCount_firmware]
    decide
  have hslots := (hcond _ _ _ ((hst.hasTables_iff fun _ ha => ha).mpr ht')
    (by rw [hst.link_eq hpt, hl.link_eq, setChild_self]; simp) hcount).1
  -- but the page at `0x2000` is in it as well
  have hpos : 0 < slotCount (link Sample.firmware.mem) 0x106000 :=
    slotCount_pos (i := 2) (by rw [Sample.link_firmware (by decide)]; decide)
  rw [slotCount_congr fun j => by rw [hst.link_eq hpt j], hl.link_eq, Paging.link_onStructs,
    slotCount_setChild_some hnone] at hslots
  omega

end OS44
