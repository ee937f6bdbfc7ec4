import OS44.Mem.MapFailure
import OS44.Mem.VmmOnBytes

/-! # What the result of `vmm_alloc` says

The call should come back; a result of `NULL` should say that nothing has happened, and any other
result that the whole area is mapped to fresh frames. Neither holds when the frames run out at the
wrong moment (`vmm_alloc_null_iff`, `allocMaps_iff`). -/

namespace OS44

open LinkedTree TableMemory

variable {s t : Vmm TableHeap} {size : U64} {j n : ℕ}

theorem vmmAlloc_of_error {M : Type} [TableMemory M] {s t : Vmm M}
    (h : allocPages s.nextVaddr 0 (numPages size).toNat s = .error t) :
    vmmAlloc s size = .error t := by
  simp only [vmmAlloc, h]

/-- **What a `vmm_alloc` that comes back has done.** -/
theorem vmmAlloc_eq_ok {M : Type} [TableMemory M] {s t : Vmm M} {p : U64}
    (h : vmmAlloc s size = .ok (p, t)) :
    (p = 0 ∧ allocPages s.nextVaddr 0 (numPages size).toNat s = .ok (false, t)) ∨
    (p = s.nextVaddr ∧ ∃ u, allocPages s.nextVaddr 0 (numPages size).toNat s = .ok (true, u) ∧
      t = finishAlloc u size) := by
  rcases hloop : allocPages s.nextVaddr 0 (numPages size).toNat s with u | ⟨b, u⟩
  · rw [vmmAlloc_of_error hloop] at h
    cases h
  · cases b with
    | false =>
      rw [vmmAlloc_of_false hloop] at h
      obtain ⟨rfl, rfl⟩ := Prod.mk.inj (Except.ok.inj h)
      exact .inl ⟨rfl, rfl⟩
    | true =>
      rw [vmmAlloc_of_true hloop] at h
      obtain ⟨rfl, rfl⟩ := Prod.mk.inj (Except.ok.inj h)
      exact .inr ⟨rfl, u, rfl, rfl⟩

/-! ## `NULL` -/

/-- **What a result of `NULL` must say**: every page is mapped as before, as many frames are free,
and the areas noted are the same. The call must come back to say it. -/
def NullKeeps (s : Vmm TableHeap) (size : U64) : Prop :=
  ∃ p t, vmmAlloc s size = .ok (p, t) ∧ (p = 0 →
    (∀ n, t.paging.pageFrame n = s.paging.pageFrame n) ∧
    pmmGetFreeFrames t.paging.pmm = pmmGetFreeFrames s.paging.pmm ∧
    t.vmaList = s.vmaList ∧ t.vmaNodes = s.vmaNodes ∧ t.vmaCount = s.vmaCount)

/-- The loop never asks in vain: no frame is free to begin with; or at the start of every round
there is one, not frame 0, and with that one taken there are frames for the upper tables. -/
def NeverDry (s : Vmm TableHeap) (size : U64) : Prop :=
  s.paging.pmm.freeFrames = ∅ ∨ ∀ j < (numPages size).toNat, ∀ t,
    allocPages s.nextVaddr 0 j s = .ok (true, t) →
      t.paging.pmm.freeFrames.Nonempty ∧ 0 ∉ t.paging.pmm.freeFrames ∧
      MapReturns { t.paging with pmm := (pmmAllocFrame t.paging.pmm).2 }
        (s.nextVaddr + BitVec.ofNat 64 j * 4096)

/-- Should `next_vaddr` be 0, so that the address of an area is `NULL`, there is nothing to map and
no node to note the area in. -/
def NoAreaAtNull (s : Vmm TableHeap) (size : U64) : Prop :=
  s.nextVaddr = 0 → ∀ t, allocPages s.nextVaddr 0 (numPages size).toNat s = .ok (true, t) →
    (numPages size).toNat = 0 ∧ 128 ≤ s.vmaCount

/-- **On a tree of tables**: no frame is free to begin with, or the frames suffice for the area, or
only the very last table is the one frame too much. -/
def PaidOrEmpty (s : Vmm TableHeap) (size : U64) : Prop :=
  s.paging.pmm.freeFrames = ∅ ∨
  framesNeeded s.paging s.nextVaddr (numPages size).toNat ≤ s.paging.pmm.freeFrames.card ∨
  LastPageLost s.paging s.nextVaddr (numPages size).toNat

/-- A loop that comes back has come back from every `paging_map`. -/
theorem mapReturns_of_allocPages {u : Vmm TableHeap} {b : Bool}
    (hret : allocPages s.nextVaddr 0 n s = .ok (b, u)) (hj : j < n)
    (ht : allocPages s.nextVaddr 0 j s = .ok (true, t)) (h0 : (pmmAllocFrame t.paging.pmm).1 ≠ 0) :
    MapReturns { t.paging with pmm := (pmmAllocFrame t.paging.pmm).2 }
      (s.nextVaddr + BitVec.ofNat 64 j * 4096) := by
  obtain ⟨m, rfl⟩ : ∃ m, n = j + (m + 1) := ⟨n - j - 1, by omega⟩
  rw [allocPages_add, ht] at hret
  simp only [allocPages, allocPage, if_neg h0, Nat.zero_add] at hret
  rw [← pagingMap_eq_ok_iff trivial _ (pmmAllocFrame t.paging.pmm).1]
  split at hret
  · cases hret
  · next p hp =>
    split at hp
    · cases hp
    · next q hq => exact ⟨q, hq⟩

/-- A loop that never asks in vain comes through, unless no frame was free to begin with. -/
theorem exists_allocPages_of_neverDry (h : NeverDry s size) :
    ∃ b t, allocPages s.nextVaddr 0 (numPages size).toNat s = .ok (b, t) := by
  rcases h with hempty | hdry
  · have h0 := pmmAllocFrame_eq_zero_iff.mpr (.inl hempty)
    rcases Nat.eq_zero_or_pos (numPages size).toNat with hn | hn
    · exact ⟨true, s, by rw [hn]; rfl⟩
    · exact ⟨false, _, allocPages_eq_false hn rfl h0⟩
  · suffices hround : ∀ j ≤ (numPages size).toNat,
        ∃ t, allocPages s.nextVaddr 0 j s = .ok (true, t) from ⟨true, hround _ le_rfl⟩
    intro j hj
    induction j with
    | zero => exact ⟨s, rfl⟩
    | succ j ih =>
      obtain ⟨t, ht⟩ := ih (by omega)
      obtain ⟨hne, hzero, hret⟩ := hdry j hj t ht
      have h0 : (pmmAllocFrame t.paging.pmm).1 ≠ 0 := fun h0 =>
        (pmmAllocFrame_eq_zero_iff.mp h0).elim hne.ne_empty hzero
      obtain ⟨p, hp⟩ := (pagingMap_eq_ok_iff trivial _ (pmmAllocFrame t.paging.pmm).1).mpr hret
      rw [allocPages_succ_of_ok ht, Nat.zero_add]
      simp only [allocPages, allocPage, if_neg h0, hp]
      exact ⟨_, rfl⟩

/-- A loop that gives up after its first round has taken frames. -/
theorem NullKeeps.neverDry (h : NullKeeps s size) : NeverDry s size := by
  obtain ⟨p, u, hret, hkeeps⟩ := h
  by_cases hempty : s.paging.pmm.freeFrames = ∅
  · exact .inl hempty
  refine .inr ?_
  intro j hj t ht
  have hwet : t.paging.pmm.freeFrames.Nonempty ∧ 0 ∉ t.paging.pmm.freeFrames := by
    by_contra hdry
    have hnull : (pmmAllocFrame t.paging.pmm).1 = 0 := by
      rw [pmmAllocFrame_eq_zero_iff]
      by_cases hne : t.paging.pmm.freeFrames = ∅
      · exact .inl hne
      · refine .inr ?_
        by_contra hmem
        exact hdry ⟨Finset.nonempty_iff_ne_empty.mpr hne, hmem⟩
    rw [vmmAlloc_of_false (allocPages_eq_false hj ht hnull)] at hret
    obtain ⟨rfl, rfl⟩ := Prod.mk.inj (Except.ok.inj hret)
    have hcard := (hkeeps rfl).2.1
    rw [pmmGetFreeFrames_eq_card, pmmGetFreeFrames_eq_card, freeFrames_pmmAllocFrame] at hcard
    have hle := Finset.card_le_card (FirstFit.takeFirst_subset t.paging.pmm.freeFrames)
    have hround := card_freeFrames_allocPages ht
    cases j with
    | zero =>
      -- frame 0 was taken for `NULL`
      obtain rfl : s = t := (Prod.mk.inj (Except.ok.inj ht)).2
      have hmem : 0 ∈ s.paging.pmm.freeFrames :=
        (pmmAllocFrame_eq_zero_iff.mp hnull).resolve_left hempty
      rw [FirstFit.takeFirst_eq_erase hmem fun b _ => Nat.zero_le b] at hcard
      have := Finset.card_erase_lt_of_mem hmem
      omega
    | succ j => omega
  have h0 : (pmmAllocFrame t.paging.pmm).1 ≠ 0 := fun h0 =>
    (pmmAllocFrame_eq_zero_iff.mp h0).elim hwet.1.ne_empty hwet.2
  refine ⟨hwet.1, hwet.2, ?_⟩
  rcases vmmAlloc_eq_ok hret with ⟨-, hu⟩ | ⟨-, w, hw, -⟩
  exacts [mapReturns_of_allocPages hu hj ht h0, mapReturns_of_allocPages hw hj ht h0]

theorem NullKeeps.noAreaAtNull (h : NullKeeps s size) : NoAreaAtNull s size := by
  obtain ⟨p, u, hret, hkeeps⟩ := h
  intro h0 t ht
  rw [vmmAlloc_of_true ht, h0] at hret
  obtain ⟨rfl, rfl⟩ := Prod.mk.inj (Except.ok.inj hret)
  obtain ⟨-, hcard, -, -, hcount⟩ := hkeeps rfl
  constructor
  · have hround := card_freeFrames_allocPages ht
    rw [paging_finishAlloc, pmmGetFreeFrames_eq_card, pmmGetFreeFrames_eq_card] at hcard
    omega
  · rw [vmaCount_finishAlloc, allocPages_rest ht] at hcount
    by_contra hlt
    rw [if_pos (not_le.mp hlt)] at hcount
    exact Nat.succ_ne_self _ hcount

theorem nullKeeps_of_neverDry (h : NeverDry s size) (h0 : NoAreaAtNull s size) :
    NullKeeps s size := by
  obtain ⟨b, u, hu⟩ := exists_allocPages_of_neverDry h
  cases b with
  | false =>
    refine ⟨0, u, vmmAlloc_of_false hu, fun _ => ?_⟩
    obtain ⟨j, hj, w, hw, hnull, rfl⟩ := exists_allocPages_of_false hu
    rcases h with hempty | hdry
    · -- the loop gave up in its first round
      have hround := card_freeFrames_allocPages hw
      rw [hempty, Finset.card_empty] at hround
      obtain rfl : j = 0 := by omega
      obtain rfl : s = w := (Prod.mk.inj (Except.ok.inj hw)).2
      refine ⟨fun n => rfl, ?_, rfl, rfl, rfl⟩
      rw [pmmGetFreeFrames_eq_card, pmmGetFreeFrames_eq_card, freeFrames_pmmAllocFrame, hempty,
        FirstFit.takeFirst_empty]
    · obtain ⟨hne, hmem, -⟩ := hdry j hj w hw
      exact absurd hnull fun h => (pmmAllocFrame_eq_zero_iff.mp h).elim hne.ne_empty hmem
  | true =>
    refine ⟨_, _, vmmAlloc_of_true hu, fun hnext => ?_⟩
    obtain ⟨hn, hfull⟩ := h0 hnext u hu
    rw [hn] at hu
    obtain rfl : s = u := (Prod.mk.inj (Except.ok.inj hu)).2
    rw [finishAlloc_of_full (not_lt.mpr hfull)]
    exact ⟨fun n => rfl, rfl, rfl, rfl, rfl⟩

/-- On a tree of tables the number of frames decides. -/
theorem nullKeeps_iff_of_tree (h : PageTree s.paging) (hz : s.paging.pmm.testBit 0 = true)
    (hne : s.nextVaddr ≠ 0) : NullKeeps s size ↔ PaidOrEmpty s size := by
  have hmono := framesNeeded_strictMono s.paging s.nextVaddr
  rcases allocPages_cases h hz s.nextVaddr (numPages size).toNat with
    ⟨hle, t, ht, -⟩ | ⟨hl, t, ht, -⟩ | ⟨⟨j, hj, hcost⟩, t, ht⟩ | ⟨⟨hpaid, hmore⟩, t, ht⟩
  · exact iff_of_true ⟨_, _, vmmAlloc_of_true ht, fun h0 => absurd h0 hne⟩ (.inr (.inl hle))
  · exact iff_of_true ⟨_, _, vmmAlloc_of_true ht, fun h0 => absurd h0 hne⟩ (.inr (.inr hl))
  · by_cases hempty : s.paging.pmm.freeFrames = ∅
    · exact iff_of_true (nullKeeps_of_neverDry (.inl hempty) fun h0 => absurd h0 hne) (.inl hempty)
    · -- `NULL`, and frames have been taken
      refine iff_of_false (fun hkeeps => ?_) ?_
      · obtain ⟨i, hi, u, hu, hnull, -⟩ := exists_allocPages_of_false ht
        obtain ⟨hwet, hzero, -⟩ := (hkeeps.neverDry.resolve_left hempty) i hi u hu
        exact (pmmAllocFrame_eq_zero_iff.mp hnull).elim hwet.ne_empty hzero
      · have hlt := hmono hj
        have hlast := hmono.monotone (Nat.le_sub_one_of_lt hj)
        rintro (hempty' | hle | ⟨hone, htwo⟩)
        · exact hempty hempty'
        · omega
        · omega
  · refine iff_of_false ?_ ?_
    · rintro ⟨p, u, hret, -⟩
      rw [vmmAlloc_of_error ht] at hret
      cases hret
    · rintro (hempty | hle | ⟨hone, -⟩)
      · -- with no frame free, the first round would have given up
        rcases Nat.eq_zero_or_pos (numPages size).toNat with hn | hn
        · rw [hn, framesNeeded_zero] at hmore
          omega
        · exact (hpaid 0 hn).1 (by rw [framesNeeded_zero, hempty, Finset.card_empty])
      · omega
      · omega

namespace Sample

/-- Empty tables on a machine with `k` free frames. -/
def scarce (k : ℕ) : Paging TableHeap := { paging with pmm := sparsePmm k }

theorem pageTree_scarce {k : ℕ} (hk : k ≤ 2 ^ 18) : PageTree (scarce k) :=
  wellFormed_paging.toPageTree.withPmm fun a ha => by
    rw [eq_pml4_of_empty (link_paging _) ha]
    exact used_sparsePmm hk (by decide)

/-- The first page of an area takes four frames there. -/
theorem framesNeeded_scarce (k : ℕ) : framesNeeded (scarce k) 0x10000000 1 = 4 :=
  framesNeeded_of_empty link_paging _

theorem card_scarce {k : ℕ} (hk : k ≤ 2 ^ 18) : (scarce k).pmm.freeFrames.card = k :=
  card_sparsePmm hk

end Sample

/-- **When `NULL` says that nothing has happened.** In every state: if and only if the loop never
asks for a frame in vain after its first round, and `next_vaddr` is not the address `NULL` itself.
On a tree of tables that comes down to counting frames. -/
theorem vmm_alloc_null_iff (s : Vmm TableHeap) (size : U64) :
    (NullKeeps s size ↔ NeverDry s size ∧ NoAreaAtNull s size) ∧
    (PageTree s.paging → s.paging.pmm.testBit 0 = true → s.nextVaddr ≠ 0 →
      (NullKeeps s size ↔ PaidOrEmpty s size)) :=
  ⟨⟨fun h => ⟨h.neverDry, h.noAreaAtNull⟩, fun h => nullKeeps_of_neverDry h.1 h.2⟩,
    nullKeeps_iff_of_tree⟩

/-- With four frames free and no tables, an area of one page takes them all. -/
theorem vmm_alloc_null_iff_sample : NullKeeps (vmmBoot (Sample.scarce 4)) 4096 := by
  have hcard := Sample.card_scarce (k := 4) (by omega)
  have hone : (numPages 4096).toNat = 1 := by decide
  refine ((vmm_alloc_null_iff (vmmBoot (Sample.scarce 4)) 4096).2
    (Sample.pageTree_scarce (by omega)) (Sample.used_sparsePmm (by omega) (by omega))
    (by decide)).mpr (.inr (.inl ?_))
  rw [hone]
  exact (Sample.framesNeeded_scarce 4).trans_le hcard.ge

/-- **`NULL`, and a page mapped.** With four frames free and no tables, the first of two pages takes
them all; for the second there is none. -/
theorem vmm_alloc_null_keeps_page : ¬ NullKeeps (vmmBoot (Sample.scarce 4)) 8192 := by
  have hcard := Sample.card_scarce (k := 4) (by omega)
  have hcost := Sample.framesNeeded_scarce 4
  have htwo : (numPages 8192).toNat = 2 := by decide
  have hlt : framesNeeded (Sample.scarce 4) 0x10000000 1 <
    framesNeeded (Sample.scarce 4) 0x10000000 2 := framesNeeded_lt_succ _ _ 1
  rw [nullKeeps_iff_of_tree (Sample.pageTree_scarce (by omega))
    (Sample.used_sparsePmm (by omega) (by omega)) (by decide)]
  rintro (hempty | hle | ⟨hone, hlast⟩)
  · rw [show (Sample.scarce 4).pmm.freeFrames = ∅ from hempty] at hcard
    cases hcard
  · rw [htwo] at hle
    have : framesNeeded (Sample.scarce 4) 0x10000000 2 ≤
      (Sample.scarce 4).pmm.freeFrames.card := hle
    omega
  · rw [htwo] at hone hlast
    have hone' : framesNeeded (Sample.scarce 4) 0x10000000 2 =
      (Sample.scarce 4).pmm.freeFrames.card + 1 := hone
    have hlast' : framesNeeded (Sample.scarce 4) 0x10000000 1 + 2 ≤
      framesNeeded (Sample.scarce 4) 0x10000000 2 := hlast
    omega

/-! ## An address -/

/-- Every page that meets `[p, p + size)`, in unbounded integers, is mapped to a frame that was free
in `s` and is in use in `t`. -/
def AreaMapped {M : Type} [TableMemory M] (s : Vmm M) (p size : U64) (t : Vmm M) : Prop :=
  ∀ x, p.toNat ≤ x → x < p.toNat + size.toNat → x < 2 ^ 64 ∧
    ∃ k < 2 ^ 20, t.paging.pageFrame (pageOf (BitVec.ofNat 64 x)) = some (frameAddr k) ∧
      s.paging.pmm.testBit k = false ∧ t.paging.pmm.testBit k = true

/-- **What a result other than `NULL` must say**: the whole area is mapped to frames taken by this
call. The call must come back to say it. -/
def AllocMaps {M : Type} [TableMemory M] (s : Vmm M) (size : U64) : Prop :=
  ∃ p t, vmmAlloc s size = .ok (p, t) ∧ (p ≠ 0 → AreaMapped s p size t)

/-- The page count does not wrap around, and the area ends inside the address space. -/
def AreaFits {M : Type} (s : Vmm M) (size : U64) : Prop :=
  size.toNat ≤ 2 ^ 64 - 4096 ∧ (size.toNat = 0 ∨ s.nextVaddr.toNat + size.toNat ≤ 2 ^ 64)

/-- **The condition**: `NULL` is returned, because frame 0 is next or because the frames are used up
by a first part of the area, with or without its very last table; or the frames suffice and the area
fits. With `next_vaddr` 0 an address is `NULL` too. -/
def AllocHonest {M : Type} [TableMemory M] (s : Vmm M) (size : U64) : Prop :=
  (0 < (numPages size).toNat ∧ 0 ∈ s.paging.pmm.freeFrames) ∨
  (∃ j < (numPages size).toNat,
    framesNeeded s.paging s.nextVaddr j = s.paging.pmm.freeFrames.card ∨
    framesNeeded s.paging s.nextVaddr j = s.paging.pmm.freeFrames.card + 1) ∨
  (framesNeeded s.paging s.nextVaddr (numPages size).toNat ≤ s.paging.pmm.freeFrames.card ∧
    (s.nextVaddr = 0 ∨ AreaFits s size)) ∨
  (LastPageLost s.paging s.nextVaddr (numPages size).toNat ∧ s.nextVaddr = 0)

/-- A page count of 0 is that of no bytes, or of so many that the rounding wraps around. -/
theorem numPages_eq_zero_iff {size : U64} :
    (numPages size).toNat = 0 ↔ size.toNat = 0 ∨ 2 ^ 64 - 4096 < size.toNat := by
  by_cases hle : size.toNat ≤ 2 ^ 64 - 4096
  · rw [toNat_numPages hle, pagesNeeded]
    omega
  · have h4095 : (4095 : U64).toNat = 4095 := rfl
    have h4096 : (4096 : U64).toNat = 4096 := rfl
    have hlt := size.isLt
    rw [numPages, BitVec.toNat_udiv, BitVec.toNat_add, h4095, h4096]
    omega

/-- The pages of the addresses of an area. -/
theorem pageOf_ofNat_eq_areaPage {base : U64} (ha : base.toNat % 4096 = 0) {x : ℕ}
    (hx : base.toNat ≤ x) (hlt : x < 2 ^ 64) :
    pageOf (BitVec.ofNat 64 x) = areaPage base (x / 4096 - base.toNat / 4096) := by
  apply Fin.ext
  have hsum : (base + BitVec.ofNat 64 (x / 4096 - base.toNat / 4096) * 4096).toNat =
      base.toNat + (x / 4096 - base.toNat / 4096) * 4096 := by
    bv_omega
  simp only [areaPage, pageOf, hsum, BitVec.toNat_ofNat, Nat.mod_eq_of_lt hlt]
  omega

/-- A call that returns `NULL` maps all that it says. -/
theorem allocMaps_of_null {M : Type} [TableMemory M] {s t : Vmm M}
    (h : vmmAlloc s size = .ok (0, t)) : AllocMaps s size := ⟨0, t, h, fun h0 => absurd rfl h0⟩

/-- A call for some bytes whose page count is 0 maps nothing. -/
theorem not_areaMapped_of_wrap {M : Type} [TableMemory M] {s : Vmm M} {p : U64}
    (hpos : 0 < size.toNat) : ¬ AreaMapped s p size (finishAlloc s size) := by
  intro hmaps
  obtain ⟨-, k, -, -, hfree, hused⟩ := hmaps p.toNat le_rfl (by omega)
  rw [paging_finishAlloc, hfree] at hused
  cases hused

/-- With the frames it needs `vmm_alloc` is honest if the area fits. -/
theorem allocMaps_iff_of_filled (ha : s.nextVaddr.toNat % 4096 = 0) (hne : s.nextVaddr ≠ 0)
    (ht : allocPages s.nextVaddr 0 (numPages size).toNat s = .ok (true, t))
    (hf : Filled s.paging s.nextVaddr (numPages size).toNat t.paging) :
    AllocMaps s size ↔ AreaFits s size := by
  have hret := vmmAlloc_of_true ht
  constructor
  · rintro ⟨p, u, hu, hmaps⟩
    rw [hret] at hu
    obtain ⟨rfl, rfl⟩ := Prod.mk.inj (Except.ok.inj hu)
    have hall := hmaps hne
    have hlt := s.nextVaddr.isLt
    have hle : size.toNat ≤ 2 ^ 64 - 4096 := by
      by_contra hlarge
      -- no page is mapped, and there is at least one byte
      have hn := numPages_eq_zero_iff.mpr (.inr (not_le.mp hlarge))
      rw [hn] at ht
      obtain rfl : s = t := (Prod.mk.inj (Except.ok.inj ht)).2
      exact not_areaMapped_of_wrap (by omega) hall
    refine ⟨hle, ?_⟩
    by_contra hend
    have := (hall (2 ^ 64) hlt.le (by omega)).1
    omega
  · rintro ⟨hle, hend⟩
    refine ⟨_, _, hret, ?_⟩
    intro _ x hx hxp
    have hlt : x < 2 ^ 64 := by omega
    rw [paging_finishAlloc, pageOf_ofNat_eq_areaPage ha hx hlt]
    refine ⟨hlt, hf.mapped _ (mem_areaPages.mpr ⟨_, ?_, rfl⟩)⟩
    rw [toNat_numPages hle, pagesNeeded]
    omega

/-- If the last page was lost, `vmm_alloc` returns an address nevertheless. -/
theorem not_allocMaps_of_lost (ha : s.nextVaddr.toNat % 4096 = 0) (hne : s.nextVaddr ≠ 0)
    (hpos : (numPages size).toNat ≠ 0)
    (ht : allocPages s.nextVaddr 0 (numPages size).toNat s = .ok (true, t))
    (hnone : t.paging.pageFrame (areaPage s.nextVaddr ((numPages size).toNat - 1)) = none) :
    ¬ AllocMaps s size := by
  rintro ⟨p, u, hu, hmaps⟩
  rw [vmmAlloc_of_true ht] at hu
  obtain ⟨rfl, rfl⟩ := Prod.mk.inj (Except.ok.inj hu)
  rw [Ne, numPages_eq_zero_iff] at hpos
  have hle : size.toNat ≤ 2 ^ 64 - 4096 := by omega
  rw [toNat_numPages hle, pagesNeeded] at hnone
  -- the first byte of the last page
  obtain ⟨hlt, k, -, hpage, -⟩ := hmaps hne
    (s.nextVaddr.toNat + ((size.toNat + 4095) / 4096 - 1) * 4096) (by omega) (by omega)
  have hindex : (s.nextVaddr.toNat + ((size.toNat + 4095) / 4096 - 1) * 4096) / 4096 -
      s.nextVaddr.toNat / 4096 = (size.toNat + 4095) / 4096 - 1 := by omega
  rw [paging_finishAlloc, pageOf_ofNat_eq_areaPage ha (by omega) hlt, hindex, hnone] at hpage
  cases hpage

/-- A page lost is a page of the area. -/
theorem LastPageLost.ne_zero {s : Paging TableHeap} {base : U64} (h : LastPageLost s base n) :
    n ≠ 0 := by
  rintro rfl
  have := h.1
  rw [framesNeeded_zero] at this
  omega

/-- With frame 0 not in use, the first frame asked for is frame 0, or there is none. -/
theorem pmmAllocFrame_of_zero_unused {pmm : Pmm} (hz : ¬ pmm.testBit 0 = true) :
    (pmmAllocFrame pmm).1 = 0 := by
  rw [pmmAllocFrame_eq_zero_iff]
  by_cases hempty : pmm.freeFrames = ∅
  · exact .inl hempty
  · obtain ⟨i, hi⟩ := Finset.nonempty_iff_ne_empty.mpr hempty
    have hlt := (Pmm.mem_freeFrames.mp hi).1
    rw [Bool.not_eq_true] at hz
    exact .inr (Pmm.mem_freeFrames.mpr ⟨by omega, hz⟩)

/-- An allocation that finds no frame for its first page returns `NULL`. -/
theorem vmmAlloc_of_null (hn : (numPages size).toNat ≠ 0)
    (hnull : (pmmAllocFrame s.paging.pmm).1 = 0) : ∃ t, vmmAlloc s size = .ok (0, t) :=
  ⟨_, vmmAlloc_of_false (allocPages_eq_false (v := s.nextVaddr) (i := 0) (Nat.pos_of_ne_zero hn) rfl
    hnull)⟩

/-- A size that needs no page: nothing is mapped. -/
theorem allocMaps_iff_of_no_page (h : PageTree s.paging) (ha : s.nextVaddr.toNat % 4096 = 0)
    (hn : (numPages size).toNat = 0) : AllocMaps s size ↔ AllocHonest s size := by
  have hf : Filled s.paging s.nextVaddr (numPages size).toNat s.paging := by
    rw [hn]
    exact .refl h _
  have ht : allocPages s.nextVaddr 0 (numPages size).toNat s = .ok (true, s) := by
    rw [hn]
    rfl
  by_cases hne : s.nextVaddr = 0
  · refine iff_of_true (allocMaps_of_null (t := finishAlloc s size) ?_)
      (.inr (.inr (.inl ⟨by rw [hn]; exact Nat.zero_le _, .inl hne⟩)))
    rw [vmmAlloc_of_true ht, hne]
  · rw [allocMaps_iff_of_filled ha hne ht hf, AllocHonest, hn, framesNeeded_zero]
    have hlost : ¬ LastPageLost s.paging s.nextVaddr 0 := fun hl => hl.ne_zero rfl
    simp only [hlost, false_and, or_false, not_lt_zero, exists_false, false_or, Nat.zero_le,
      true_and, lt_self_iff_false]
    exact (or_iff_right hne).symm

/-- With frame 0 free the first page gets no frame. -/
theorem allocMaps_iff_of_zero_free (hn : (numPages size).toNat ≠ 0)
    (hz : s.paging.pmm.testBit 0 ≠ true) : AllocMaps s size ↔ AllocHonest s size := by
  have hnull := pmmAllocFrame_of_zero_unused hz
  obtain ⟨t, ht⟩ := vmmAlloc_of_null hn hnull
  refine iff_of_true (allocMaps_of_null ht) ?_
  rcases pmmAllocFrame_eq_zero_iff.mp hnull with hempty | hmem
  · refine .inr (.inl ⟨0, Nat.pos_of_ne_zero hn, .inl ?_⟩)
    rw [framesNeeded_zero, hempty, Finset.card_empty]
  · exact .inl ⟨Nat.pos_of_ne_zero hn, hmem⟩

/-- **When an address says that the area is there**, on a tree of tables. -/
theorem allocMaps_iff (h : PageTree s.paging) (ha : s.nextVaddr.toNat % 4096 = 0) (size : U64) :
    AllocMaps s size ↔ AllocHonest s size := by
  by_cases hn : (numPages size).toNat = 0
  · exact allocMaps_iff_of_no_page h ha hn
  by_cases hz : s.paging.pmm.testBit 0 = true
  swap
  · exact allocMaps_iff_of_zero_free hn hz
  have hmono := framesNeeded_strictMono s.paging s.nextVaddr
  rw [AllocHonest, or_iff_right fun hmem => Pmm.notMem_freeFrames hz hmem.2]
  rcases allocPages_cases h hz s.nextVaddr (numPages size).toNat with
    ⟨hle, t, ht, hf⟩ | ⟨hl, t, ht, hnone⟩ | ⟨hpaid, t, ht⟩ | ⟨⟨hpaid, hmore⟩, t, ht⟩
  · by_cases hne : s.nextVaddr = 0
    · refine iff_of_true (allocMaps_of_null (t := finishAlloc t size) ?_)
        (.inr (.inl ⟨hle, .inl hne⟩))
      rw [vmmAlloc_of_true ht, hne]
    · rw [allocMaps_iff_of_filled ha hne ht hf, or_iff_right, or_iff_left fun h => hne h.2,
        and_iff_right hle, or_iff_right hne]
      rintro ⟨j, hj, hcost⟩
      have := hmono hj
      omega
  · by_cases hne : s.nextVaddr = 0
    · refine iff_of_true (allocMaps_of_null (t := finishAlloc t size) ?_) (.inr (.inr ⟨hl, hne⟩))
      rw [vmmAlloc_of_true ht, hne]
    · refine iff_of_false (not_allocMaps_of_lost ha hne hl.ne_zero ht hnone) ?_
      obtain ⟨hone, htwo⟩ := hl
      rintro (⟨j, hj, hcost⟩ | ⟨hle, -⟩ | ⟨-, h0⟩)
      · have := hmono.monotone (Nat.le_sub_one_of_lt hj)
        omega
      · omega
      · exact hne h0
  · exact iff_of_true (allocMaps_of_null (vmmAlloc_of_false ht)) (.inl hpaid)
  · refine iff_of_false ?_ ?_
    · rintro ⟨p, u, hu, -⟩
      rw [vmmAlloc_of_error ht] at hu
      cases hu
    · rintro (⟨j, hj, hcost | hcost⟩ | ⟨hle, -⟩ | ⟨⟨hone, -⟩, -⟩)
      · exact (hpaid j hj).1 hcost
      · exact (hpaid j hj).2 hcost
      · omega
      · omega

/-! ## Tables in memory -/

section Bytes

variable {s : Vmm TableBytes} (h : PageTree s.paging)
  (hl : AreaMeets MapOutside s (numPages size).toNat)
include h hl

/-- **`vmm_alloc` on tables in memory is `vmm_alloc` on structs**, as long as no counter that a
`paging_map` stores lies in a table. -/
theorem vmmAlloc_onStructs : Agrees (VmmInStep False) (vmmAlloc s size)
    (vmmAlloc (s.withPaging s.paging.onStructs) size) :=
  VmmInStep.vmmAlloc (fun _ _ _ hs hout => hs.mapApart_of_outside hout)
    ⟨inStep_onStructs h fun hk => hk.elim, rfl⟩ hl

omit h hl in
theorem areaMapped_onStructs {t : Vmm TableBytes} {u : Vmm TableHeap} (htu : VmmInStep False t u)
    (p : U64) : AreaMapped s p size t ↔ AreaMapped (s.withPaging s.paging.onStructs) p size u := by
  have hpages : ∀ n, t.paging.pageFrame n = u.paging.pageFrame n :=
    htu.paging.stored.pageFrame_eq fun _ ha => ha
  simp only [AreaMapped, hpages, htu.paging.stored.pmm_eq]
  rfl

theorem allocMaps_onStructs :
    AllocMaps s size ↔ AllocMaps (s.withPaging s.paging.onStructs) size := by
  have hagrees := vmmAlloc_onStructs h hl
  unfold AllocMaps
  rcases hs : vmmAlloc s size with t | ⟨p, t⟩ <;>
    rcases hh : vmmAlloc (s.withPaging s.paging.onStructs) size with u | ⟨q, u⟩ <;>
    rw [hs, hh] at hagrees <;> cases hagrees
  · simp
  · next htu =>
    simp only [Except.ok.injEq, Prod.mk.injEq]
    constructor
    · rintro ⟨_, _, ⟨rfl, rfl⟩, hmaps⟩
      exact ⟨_, _, ⟨rfl, rfl⟩, fun h0 => (areaMapped_onStructs htu p).mp (hmaps h0)⟩
    · rintro ⟨_, _, ⟨rfl, rfl⟩, hmaps⟩
      exact ⟨_, _, ⟨rfl, rfl⟩, fun h0 => (areaMapped_onStructs htu p).mpr (hmaps h0)⟩

/-- **When an address says that the area is there**, on a tree of tables in memory. -/
theorem allocMaps_iff_of_outside (ha : s.nextVaddr.toNat % 4096 = 0) :
    AllocMaps s size ↔ AllocHonest s size := by
  rw [allocMaps_onStructs h hl]
  exact allocMaps_iff h.onStructs ha size

end Bytes

end OS44
