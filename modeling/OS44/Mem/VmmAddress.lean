import OS44.Mem.AllocExact
import OS44.Mem.VmmResult

/-! # The addresses that `vmm_alloc` returns

`next_vaddr` only moves up, by the pages of each area, and an area of no page does not move it at
all. It never comes around: a page costs a frame, the frames come back through `vmm_free` only for
areas that are in the list, and the pool has nodes for 128 of them. `pageBudget` bounds the pages
still to come, and no call raises it (`AddressInv.step`).

`vmm_alloc_address_iff` puts this beside the condition under which the area at
the address is mapped. -/

namespace OS44

open Runs PoolList LinkedTree TableMemory

/-- The virtual memory manager with the addresses that are live: from the `vmm_alloc` that returned
them until they are passed to `vmm_free`. -/
structure AddressClients (M : Type) where
  vmm : Vmm M
  live : List U64

/-- One call, on any tables; `none` if it does not come back. -/
def addressStep {M : Type} [TableMemory M] (c : AddressClients M) :
    VmmOp → Option (AddressClients M)
  | .alloc size =>
    match vmmAlloc c.vmm size with
    | .ok (p, s) => some { vmm := s, live := if p = 0 then c.live else p :: c.live }
    | .error _ => none
  | .free ptr => (vmmFree c.vmm ptr).map fun s =>
      { vmm := s, live := c.live.filter fun a => a ≠ ptr }

/-- **What an address other than `NULL` must be**: not live already. -/
def AddressFresh {M : Type} [TableMemory M] (c : AddressClients M) : VmmOp → Prop
  | .alloc size => ∀ p t, vmmAlloc c.vmm size = .ok (p, t) → p ≠ 0 → p ∉ c.live
  | .free _ => True

/-- The size asked for is not 0, and its page count does not wrap around. -/
def SizeCounted {M : Type} (_ : AddressClients M) : VmmOp → Prop
  | .alloc size => 1 ≤ size.toNat ∧ size.toNat ≤ 2 ^ 64 - 4096
  | .free _ => True

section Runs

variable {M : Type} {s t : Vmm M} {c c' : AddressClients M} {ids : List (Fin 128)}
  {size ptr : U64} {n : ℕ}

/-- **The pages still to come**, at most: the free frames, and all the frames there are for each
area in the list and each node left in the pool. -/
def pageBudget (s : Vmm M) (ids : List (Fin 128)) : ℕ :=
  s.paging.pmm.freeFrames.card + 2 ^ 20 * (ids.length + (128 - s.vmaCount))

/-- The invariant of the runs: `next_vaddr` is above every live address, by a distance that the
pages to come cannot make up to a whole turn. -/
structure AddressInv (c : AddressClients M) (ids : List (Fin 128)) : Prop where
  list : PoolChain c.vmm ids
  budget_le : pageBudget c.vmm ids ≤ 2 ^ 20 * 129
  above : ∀ a ∈ c.live, ∃ d, 0 < d ∧ d + pageBudget c.vmm ids ≤ 2 ^ 20 * 129 ∧
    c.vmm.nextVaddr = a + BitVec.ofNat 64 d * 4096

/-- Distances below a whole turn lead away. -/
theorem add_pages_ne (a : U64) {d : ℕ} (h0 : 0 < d) (hd : d < 2 ^ 52) :
    a + BitVec.ofNat 64 d * 4096 ≠ a := by
  intro h
  have := congrArg BitVec.toNat h
  bv_omega

/-- The loop takes frames and leaves the list alone. -/
theorem pageBudget_allocPages [TableMemory M] {v : U64} {i : ℕ} {b : Bool}
    (h : allocPages v i n s = .ok (b, t)) (hl : PoolChain s ids) :
    PoolChain t ids ∧ pageBudget t ids ≤ pageBudget s ids := by
  have hle := allocPages_keeps (I := fun p => p.freeFrames.card ≤ s.paging.pmm.freeFrames.card)
    (fun p hp => by
      rw [freeFrames_pmmAllocFrame]
      exact (Finset.card_le_card (FirstFit.takeFirst_subset _)).trans hp) v i n le_rfl
  rw [h] at hle
  have hrest := allocPages_rest h
  have hcount : t.vmaCount = s.vmaCount := by rw [hrest]
  constructor
  · rw [hrest]
    exact ⟨hl.chain, hl.below, hl.nodup⟩
  · have hfree : t.paging.pmm.freeFrames.card ≤ s.paging.pmm.freeFrames.card := hle
    rw [pageBudget, pageBudget, hcount]
    omega

/-- Every page of a new area is paid for out of the budget. -/
theorem pageBudget_finishAlloc [TableMemory M] {v : U64} (h : allocPages v 0 n s = .ok (true, t))
    (hl : PoolChain s ids) (size : U64) : ∃ ids', PoolChain (finishAlloc t size) ids' ∧
      n + pageBudget (finishAlloc t size) ids' ≤ pageBudget s ids := by
  obtain ⟨hl', -⟩ := pageBudget_allocPages h hl
  have hfree := card_freeFrames_allocPages h
  have hcount : t.vmaCount = s.vmaCount := by rw [allocPages_rest h]
  by_cases hc : t.vmaCount < 128
  · -- the node of the area goes from the pool into the list
    refine ⟨_, hl'.push hc size, ?_⟩
    rw [pageBudget, pageBudget, paging_finishAlloc, vmaCount_finishAlloc, if_pos hc,
      List.length_cons,
      hcount]
    omega
  · refine ⟨ids, ?_, ?_⟩
    · rw [finishAlloc_of_full hc]
      exact ⟨hl'.chain, hl'.below, hl'.nodup⟩
    · rw [pageBudget, pageBudget, paging_finishAlloc, vmaCount_finishAlloc, if_neg hc, hcount]
      omega

/-- The step lemma of `vmm_alloc`. -/
theorem AddressInv.alloc [TableMemory M] (h : AddressInv c ids)
    (hsize : SizeCounted c (.alloc size)) (hs : addressStep c (.alloc size) = some c') :
    ∃ ids', AddressInv c' ids' := by
  rcases hret : vmmAlloc c.vmm size with u | ⟨p, u⟩ <;> simp only [addressStep, hret] at hs
  · cases hs
  obtain rfl := Option.some.inj hs
  rcases vmmAlloc_eq_ok hret with ⟨rfl, hloop⟩ | ⟨rfl, t, hloop, rfl⟩
  · obtain ⟨hl, hle⟩ := pageBudget_allocPages hloop h.list
    have hnext : u.nextVaddr = c.vmm.nextVaddr := by rw [allocPages_rest hloop]
    refine ⟨ids, hl, hle.trans h.budget_le, ?_⟩
    intro a ha
    rw [if_pos rfl] at ha
    obtain ⟨d, hd, hbudget, habove⟩ := h.above a ha
    refine ⟨d, hd, ?_, hnext.trans habove⟩
    simp only
    omega
  · obtain ⟨ids', hl, hle⟩ := pageBudget_finishAlloc hloop h.list size
    have hbudget := h.budget_le
    have hnext : (finishAlloc t size).nextVaddr =
        c.vmm.nextVaddr + BitVec.ofNat 64 (numPages size).toNat * 4096 := by
      rw [nextVaddr_finishAlloc, BitVec.ofNat_toNat, BitVec.setWidth_eq, allocPages_rest hloop]
    have hn : 0 < (numPages size).toNat := by
      by_contra hn
      have := numPages_eq_zero_iff.mp (Nat.eq_zero_of_not_pos hn)
      have := hsize.1
      have := hsize.2
      omega
    refine ⟨ids', hl, ?_, ?_⟩
    · simp only
      omega
    · intro a ha
      have hmem : a = c.vmm.nextVaddr ∨ a ∈ c.live := by
        split_ifs at ha
        · exact .inr ha
        · exact List.mem_cons.mp ha
      rcases hmem with rfl | ha
      · exact ⟨_, hn, hle.trans hbudget, hnext⟩
      · -- the old address is farther away by the pages of the new area
        obtain ⟨d, hd, hbudget', habove⟩ := h.above a ha
        refine ⟨d + (numPages size).toNat, by omega, ?_, ?_⟩
        · simp only
          omega
        · simp only [hnext, habove]
          bv_omega

/-- The step lemma of `vmm_free`. -/
theorem AddressInv.free [TableMemory M] (h : AddressInv c ids)
    (hs : addressStep c (.free ptr) = some c') : ∃ ids', AddressInv c' ids' := by
  have hlive : ∀ {u : Vmm M} {ids' : List (Fin 128)}, u.nextVaddr = c.vmm.nextVaddr →
      pageBudget u ids' ≤ pageBudget c.vmm ids → ∀ a ∈ c.live.filter fun a => a ≠ ptr,
      ∃ d, 0 < d ∧ d + pageBudget u ids' ≤ 2 ^ 20 * 129 ∧
        u.nextVaddr = a + BitVec.ofNat 64 d * 4096 := fun hnext hle a ha => by
    obtain ⟨d, hd, hbudget, habove⟩ := h.above a (List.mem_of_mem_filter ha)
    exact ⟨d, hd, by omega, hnext.trans habove⟩
  rcases h.list.vmmFree ptr with ⟨-, hf⟩ | ⟨xs, id, ys, rfl, -, -, hf⟩ <;>
    simp only [addressStep, hf, Option.map_some, Option.some.injEq] at hs <;> subst hs
  · exact ⟨ids, h.list, h.budget_le, hlive rfl le_rfl⟩
  · set u : Vmm M := { c.vmm with
      paging := freePages c.vmm.paging ptr ((c.vmm.vmaNodes id).size / 4096).toNat } with hu
    have hl : PoolChain u (xs ++ id :: ys) := ⟨h.list.chain, h.list.below, h.list.nodup⟩
    -- one area less in the list, for the frames that are free again
    have hle : pageBudget (removeVma u (xs.getLast?.or none) id) (xs ++ ys) ≤
        pageBudget c.vmm (xs ++ id :: ys) := by
      have hfree := card_freeFrames_le_two_pow u.paging.pmm
      have hcount : u.vmaCount = c.vmm.vmaCount := rfl
      rw [pageBudget, pageBudget, paging_removeVma, vmaCount_removeVma, hcount]
      simp only [List.length_append, List.length_cons]
      omega
    refine ⟨xs ++ ys, hl.remove, hle.trans h.budget_le, hlive ?_ hle⟩
    rw [nextVaddr_removeVma]

/-- The step lemma. -/
theorem AddressInv.step [TableMemory M] (h : AddressInv c ids) {op : VmmOp}
    (hsize : SizeCounted c op) (hs : addressStep c op = some c') : ∃ ids', AddressInv c' ids' := by
  cases op with
  | alloc size => exact h.alloc hsize hs
  | free ptr => exact h.free hs

/-- The next address is not live. -/
theorem AddressInv.fresh [TableMemory M] (h : AddressInv c ids) (op : VmmOp) :
    AddressFresh c op := by
  cases op with
  | alloc size =>
    intro p t hret hp hmem
    rcases vmmAlloc_eq_ok hret with ⟨h0, -⟩ | ⟨rfl, -⟩
    · exact hp h0
    · obtain ⟨d, hd, hbudget, habove⟩ := h.above _ hmem
      exact add_pages_ne _ hd (by omega) habove.symm
  | free ptr => trivial

/-- With the list empty every run starts in the invariant. -/
theorem addressInv_nil (hl : s.vmaList = none) : AddressInv { vmm := s, live := [] } [] where
  list := ⟨hl, by simp, List.nodup_nil⟩
  budget_le := by
    have hfree := card_freeFrames_le_two_pow s.paging.pmm
    simp only [pageBudget, List.length_nil]
    omega
  above a ha := absurd ha List.not_mem_nil

end Runs

/-- **What an address returned by `vmm_alloc` is worth.** On a tree of tables in memory, with
`next_vaddr` at a page and no counter that a `paging_map` stores in a table: the area is mapped to
fresh frames if and only if the call is honest about its frames and the area fits. From an empty
list, on any tables: in a run of calls for sizes that count at least one page and do not wrap
around, no address is returned while it is live. -/
theorem vmm_alloc_address_iff (s : Vmm TableBytes) :
    (PageTree s.paging → s.nextVaddr.toNat % 4096 = 0 → ∀ size,
      AreaMeets MapOutside s (numPages size).toNat → (AllocMaps s size ↔ AllocHonest s size)) ∧
    (s.vmaList = none → ∀ ops, AllSteps addressStep SizeCounted { vmm := s, live := [] } ops →
      AllSteps addressStep AddressFresh { vmm := s, live := [] } ops) := by
  refine ⟨fun htree ha size hout => allocMaps_iff_of_outside htree hout ha, ?_⟩
  intro hl ops hall
  have hstep : ∀ (c : AddressClients TableBytes) op c', (∃ ids, AddressInv c ids) →
      SizeCounted c op → addressStep c op = some c' → ∃ ids, AddressInv c' ids := by
    rintro c op c' ⟨ids, hc⟩ hsize hs
    exact hc.step hsize hs
  have hfresh : ∀ (c : AddressClients TableBytes) op, (∃ ids, AddressInv c ids) →
      SizeCounted c op → AddressFresh c op := by
    rintro c op ⟨ids, hc⟩ -
    exact hc.fresh op
  exact AllSteps.consequence hstep hfresh ⟨[], addressInv_nil hl⟩ hall

/-- With four frames free and no tables an area of one page is mapped, and the next one is
elsewhere. -/
theorem vmm_alloc_address_iff_sample : AllocMaps (vmmBoot (Sample.sparse 4)) 4096 ∧
    AllSteps addressStep AddressFresh { vmm := vmmBoot (Sample.sparse 4), live := [] }
      [.alloc 4096, .alloc 4096] := by
  have hone : (numPages 4096).toNat = 1 := by decide
  obtain ⟨hmaps, hfresh⟩ := vmm_alloc_address_iff (vmmBoot (Sample.sparse 4))
  refine ⟨(hmaps (Sample.wellFormed_sparse (by omega)).toPageTree (by decide) 4096 ?_).mpr ?_,
    hfresh rfl _ ?_⟩
  · rw [hone]
    exact Sample.areaMeets_sparse (by omega)
  · refine .inr (.inr (.inl ⟨?_, .inr ⟨by decide, .inr (by decide)⟩⟩))
    rw [hone, Sample.framesNeeded_sparse, Sample.card_sparse (by omega)]
  · have hsize : ∀ c : AddressClients TableBytes, SizeCounted c (.alloc 4096) :=
      fun c => ⟨by decide, by decide⟩
    exact ⟨hsize _, fun _ _ => ⟨hsize _, fun _ _ => trivial⟩⟩

/-- **Three addresses that are worth nothing.** With three frames free and no tables the one page of
the area is lost. The page count of `2^64 - 1` bytes wraps around to 0. And an area of no bytes
leaves its address to the next one. -/
theorem vmm_alloc_address_worthless : ¬ AllocMaps (vmmBoot (Sample.sparse 3)) 4096 ∧
    ¬ AllocMaps (vmmBoot (Sample.sparse 4)) 0xFFFFFFFFFFFFFFFF ∧
    ¬ AllSteps addressStep AddressFresh { vmm := vmmBoot (Sample.sparse 4), live := [] }
      [.alloc 0, .alloc 0] := by
  have hone : (numPages 4096).toNat = 1 := by decide
  have hzero : (numPages 0).toNat = 0 := by decide
  have hwrap : (numPages 0xFFFFFFFFFFFFFFFF).toNat = 0 := by decide
  refine ⟨?_, ?_, ?_⟩
  · -- three frames, and a page needs four
    have hcard := Sample.card_sparse (k := 3) (by omega)
    rw [allocMaps_iff_of_outside (Sample.wellFormed_sparse (by omega)).toPageTree
      (by rw [hone]; exact Sample.areaMeets_sparse (by omega)) (by decide), AllocHonest, hone]
    rintro (⟨-, hmem⟩ | ⟨j, hj, hcost⟩ | ⟨hle, -⟩ | ⟨-, h0⟩)
    · exact Pmm.notMem_freeFrames (Sample.used_sparsePmm (by omega) (by omega)) hmem
    · obtain rfl : j = 0 := by omega
      rw [framesNeeded_zero, hcard] at hcost
      omega
    · rw [Sample.framesNeeded_sparse, hcard] at hle
      omega
    · exact absurd h0 (by decide)
  · -- no page is mapped for the largest size
    rintro ⟨p, t, hret, hmaps⟩
    rw [vmmAlloc_of_true (t := vmmBoot (Sample.sparse 4)) (by rw [hwrap]; rfl)] at hret
    obtain ⟨rfl, rfl⟩ := Prod.mk.inj (Except.ok.inj hret)
    exact not_areaMapped_of_wrap (by decide) (hmaps (by decide))
  · -- the address does not move on for a size of 0
    intro hall
    have hret : ∀ s : Vmm TableBytes, vmmAlloc s 0 = .ok (s.nextVaddr, finishAlloc s 0) := fun s =>
      vmmAlloc_of_true (by rw [hzero]; rfl)
    have hnext : (finishAlloc (vmmBoot (Sample.sparse 4)) 0).nextVaddr = 0x10000000 := by
      rw [nextVaddr_finishAlloc]
      decide
    have hstep := hall.2
      { vmm := finishAlloc (vmmBoot (Sample.sparse 4)) 0, live := [0x10000000] } (by
        simp only [addressStep, hret]
        rfl)
    exact hstep.1 0x10000000 _ (by rw [hret, hnext]) (by decide) List.mem_cons_self

end OS44
