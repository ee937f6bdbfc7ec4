import OS44.Mem.VmmPages

/-! # The list of areas

The list of areas is a chain of distinct nodes, newest first, whose areas lie one above the other
(`AreaList`). With the pages of the live areas backed by frames of their own (`PagesOk`) this is the
invariant of the virtual memory manager, `VmmInv`; `VmmInv.alloc` and `VmmInv.free` say what a call
does to it. -/

namespace OS44

open LinkedTree PoolList TableMemory

/-! ## The list of areas -/

/-- **The list of areas**: a chain of distinct nodes that have been given out, the areas one above
the other and all of them below `next_vaddr`. -/
structure AreaList {M : Type} (s : Vmm M) (ids : List (Fin 128)) : Prop where
  chain : Chain (fun id => (s.vmaNodes id).next) s.vmaList ids
  below : ∀ id ∈ ids, (id : ℕ) < s.vmaCount
  sorted : ids.Pairwise fun newer older => newer ≠ older ∧
    (s.vmaNodes older).vaddr.toNat + (s.vmaNodes older).size.toNat ≤ (s.vmaNodes newer).vaddr.toNat
  bound : ∀ id ∈ ids, (s.vmaNodes id).vaddr.toNat + (s.vmaNodes id).size.toNat ≤ s.nextVaddr.toNat

section List

variable {M : Type} {s t : Vmm M} {ids : List (Fin 128)} {ptr size : U64}

theorem AreaList.nodup (h : AreaList s ids) : ids.Nodup := h.sorted.imp fun h => h.1

/-- What the list is wherever the areas lie: a chain of distinct nodes that have been given out. -/
structure PoolChain {M : Type} (s : Vmm M) (ids : List (Fin 128)) : Prop where
  chain : Chain (fun id => (s.vmaNodes id).next) s.vmaList ids
  below : ∀ id ∈ ids, (id : ℕ) < s.vmaCount
  nodup : ids.Nodup

theorem AreaList.poolChain (h : AreaList s ids) : PoolChain s ids := ⟨h.chain, h.below, h.nodup⟩

/-- `vmm_alloc`'s state at its end. -/
def finishAlloc (s : Vmm M) (size : U64) : Vmm M :=
  { addVma s s.nextVaddr (numPages size * 4096) with
    nextVaddr := (addVma s s.nextVaddr (numPages size * 4096)).nextVaddr + numPages size * 4096 }

theorem addVma_of_lt (h : s.vmaCount < 128) (v z : U64) : addVma s v z =
    { s with
      vmaNodes := Function.update s.vmaNodes ⟨s.vmaCount, h⟩
        { vaddr := v, size := z, next := s.vmaList }
      vmaList := some ⟨s.vmaCount, h⟩
      vmaCount := s.vmaCount + 1 } := dif_pos h

theorem addVma_of_not_lt (h : ¬ s.vmaCount < 128) (v z : U64) : addVma s v z = s := dif_neg h

@[simp] theorem paging_finishAlloc (s : Vmm M) (size : U64) :
    (finishAlloc s size).paging = s.paging := by
  unfold finishAlloc addVma
  split <;> rfl

@[simp] theorem handed_finishAlloc (s : Vmm M) (size : U64) :
    (finishAlloc s size).handed = s.handed := by
  unfold finishAlloc addVma
  split <;> rfl

@[simp] theorem nextVaddr_finishAlloc (s : Vmm M) (size : U64) :
    (finishAlloc s size).nextVaddr = s.nextVaddr + numPages size * 4096 := by
  unfold finishAlloc addVma
  split <;> rfl

/-- A loop that gives up makes `vmm_alloc` return `NULL`. -/
theorem vmmAlloc_of_false [TableMemory M]
    (h : allocPages s.nextVaddr 0 (numPages size).toNat s = .ok (false, t)) :
    vmmAlloc s size = .ok (0, t) := by
  simp only [vmmAlloc, h]

/-- A loop that comes through makes it return the next address. -/
theorem vmmAlloc_of_true [TableMemory M]
    (h : allocPages s.nextVaddr 0 (numPages size).toNat s = .ok (true, t)) :
    vmmAlloc s size = .ok (s.nextVaddr, finishAlloc t size) := by
  have hnext : t.nextVaddr = s.nextVaddr := by rw [allocPages_rest h]
  simp only [vmmAlloc, h, finishAlloc, hnext]

theorem toNat_nextVaddr_finishAlloc
    (hno : s.nextVaddr.toNat + (numPages size * 4096).toNat < 2 ^ 64) :
    (finishAlloc s size).nextVaddr.toNat = s.nextVaddr.toNat + (numPages size * 4096).toNat := by
  rw [nextVaddr_finishAlloc, BitVec.toNat_add, Nat.mod_eq_of_lt hno]

theorem vmaCount_finishAlloc (s : Vmm M) (size : U64) : (finishAlloc s size).vmaCount =
    if s.vmaCount < 128 then s.vmaCount + 1 else s.vmaCount := by
  unfold finishAlloc addVma
  split <;> rfl

theorem vmaNodes_finishAlloc (hc : s.vmaCount < 128) (size : U64) : (finishAlloc s size).vmaNodes =
    Function.update s.vmaNodes ⟨s.vmaCount, hc⟩
      { vaddr := s.nextVaddr, size := numPages size * 4096, next := s.vmaList } := by
  rw [finishAlloc, addVma_of_lt hc]

theorem vmaNodes_finishAlloc_self (hc : s.vmaCount < 128) (size : U64) :
    (finishAlloc s size).vmaNodes ⟨s.vmaCount, hc⟩ =
      { vaddr := s.nextVaddr, size := numPages size * 4096, next := s.vmaList } := by
  rw [vmaNodes_finishAlloc hc, Function.update_self]

/-- The node that is next in the pool is not in the list. -/
theorem PoolChain.count_notMem (h : PoolChain s ids) (hc : s.vmaCount < 128) :
    ⟨s.vmaCount, hc⟩ ∉ ids := fun hid => absurd (h.below _ hid) (lt_irrefl _)

/-- The nodes in the list stay as they are. -/
theorem PoolChain.vmaNodes_finishAlloc_of_mem (h : PoolChain s ids)
    (hc : s.vmaCount < 128) (size : U64)
    {id : Fin 128} (hid : id ∈ ids) : (finishAlloc s size).vmaNodes id = s.vmaNodes id := by
  have hne : id ≠ ⟨s.vmaCount, hc⟩ := fun he => h.count_notMem hc (he ▸ hid)
  rw [vmaNodes_finishAlloc hc, Function.update_of_ne hne]

/-- With a node left, the list gets a new head. -/
theorem PoolChain.push (h : PoolChain s ids) (hc : s.vmaCount < 128) (size : U64) :
    PoolChain (finishAlloc s size) (⟨s.vmaCount, hc⟩ :: ids) where
  chain := by
    have hlist : (finishAlloc s size).vmaList = some ⟨s.vmaCount, hc⟩ := by
      rw [finishAlloc, addVma_of_lt hc]
    rw [hlist]
    apply h.chain.push (h.count_notMem hc) (by rw [vmaNodes_finishAlloc_self hc])
    intro id hid
    rw [vmaNodes_finishAlloc hc, Function.update_of_ne hid]
  below id hid := by
    rw [vmaCount_finishAlloc, if_pos hc]
    rcases List.mem_cons.mp hid with rfl | hid
    · exact Nat.lt_succ_self _
    · have := h.below id hid
      omega
  nodup := List.nodup_cons.mpr ⟨h.count_notMem hc, h.nodup⟩

/-- Without a node left, only `next_vaddr` changes. -/
theorem finishAlloc_of_full (hc : ¬ s.vmaCount < 128) (size : U64) :
    finishAlloc s size = { s with nextVaddr := (finishAlloc s size).nextVaddr } := by
  rw [finishAlloc, addVma_of_not_lt hc]

/-- With a node left, a new area becomes the head of the list. -/
theorem AreaList.push (h : AreaList s ids) (hc : s.vmaCount < 128)
    (hno : s.nextVaddr.toNat + (numPages size * 4096).toNat < 2 ^ 64) :
    AreaList (finishAlloc s size) (⟨s.vmaCount, hc⟩ :: ids) ∧
    (finishAlloc s size).vmaNodes ⟨s.vmaCount, hc⟩ =
      { vaddr := s.nextVaddr, size := numPages size * 4096, next := s.vmaList } ∧
    ∀ id ∈ ids, (finishAlloc s size).vmaNodes id = s.vmaNodes id := by
  have hpool := h.poolChain.push hc size
  have hself := vmaNodes_finishAlloc_self hc size
  -- the other nodes are not written
  have hold : ∀ id ∈ ids, (finishAlloc s size).vmaNodes id = s.vmaNodes id :=
    fun id hid => h.poolChain.vmaNodes_finishAlloc_of_mem hc size hid
  have hnext := toNat_nextVaddr_finishAlloc hno
  refine ⟨⟨hpool.chain, hpool.below, ?_, ?_⟩, hself, hold⟩
  · refine List.pairwise_cons.mpr ⟨fun id hid => ⟨?_, ?_⟩, ?_⟩
    · intro he
      exact h.poolChain.count_notMem hc (he ▸ hid)
    · rw [hold id hid, hself]
      exact h.bound id hid
    · apply h.sorted.imp_of_mem
      intro _ _ hx hy hxy
      rw [hold _ hx, hold _ hy]
      exact hxy
  · intro id hid
    rw [hnext]
    rcases List.mem_cons.mp hid with rfl | hid
    · rw [hself]
    · have := h.bound id hid
      rw [hold id hid]
      omega

/-- Without a node left, the list stays as it is. -/
theorem AreaList.full (h : AreaList s ids) (hc : ¬ s.vmaCount < 128)
    (hno : s.nextVaddr.toNat + (numPages size * 4096).toNat < 2 ^ 64) :
    AreaList (finishAlloc s size) ids ∧ (finishAlloc s size).vmaNodes = s.vmaNodes := by
  have hnext := toNat_nextVaddr_finishAlloc hno
  rw [finishAlloc_of_full hc]
  refine ⟨⟨h.chain, h.below, h.sorted, ?_⟩, rfl⟩
  intro id hid
  have := h.bound id hid
  simp only [hnext]
  omega

@[simp] theorem vaddr_removeVma (s : Vmm M) (prev : Option (Fin 128)) (curr id : Fin 128) :
    ((removeVma s prev curr).vmaNodes id).vaddr = (s.vmaNodes id).vaddr := by
  cases prev with
  | none => rfl
  | some p =>
    by_cases hid : id = p
    · subst hid; simp [removeVma]
    · simp [removeVma, hid]

@[simp] theorem size_removeVma (s : Vmm M) (prev : Option (Fin 128)) (curr id : Fin 128) :
    ((removeVma s prev curr).vmaNodes id).size = (s.vmaNodes id).size := by
  cases prev with
  | none => rfl
  | some p =>
    by_cases hid : id = p
    · subst hid; simp [removeVma]
    · simp [removeVma, hid]

@[simp] theorem vmaCount_removeVma (s : Vmm M) (prev : Option (Fin 128)) (curr : Fin 128) :
    (removeVma s prev curr).vmaCount = s.vmaCount := by cases prev <;> rfl

@[simp] theorem nextVaddr_removeVma (s : Vmm M) (prev : Option (Fin 128)) (curr : Fin 128) :
    (removeVma s prev curr).nextVaddr = s.nextVaddr := by cases prev <;> rfl

@[simp] theorem paging_removeVma (s : Vmm M) (prev : Option (Fin 128)) (curr : Fin 128) :
    (removeVma s prev curr).paging = s.paging := by cases prev <;> rfl

@[simp] theorem handed_removeVma (s : Vmm M) (prev : Option (Fin 128)) (curr : Fin 128) :
    (removeVma s prev curr).handed = s.handed := by cases prev <;> rfl

/-- Taking a node off the list. -/
theorem PoolChain.remove {xs ys : List (Fin 128)} {id : Fin 128}
    (h : PoolChain s (xs ++ id :: ys)) :
    PoolChain (removeVma s (xs.getLast?.or none) id) (xs ++ ys) := by
  have hsub : (xs ++ ys).Sublist (xs ++ id :: ys) :=
    List.Sublist.append_left (List.sublist_cons_self id ys) xs
  refine ⟨?_, ?_, h.nodup.sublist hsub⟩
  · rcases List.eq_nil_or_concat xs with rfl | ⟨zs, p, rfl⟩
    · exact h.chain.2
    · simp only [List.concat_eq_append, List.append_assoc, List.cons_append, List.nil_append,
        List.getLast?_append, List.getLast?_singleton, Option.some_or, Option.or_none] at h ⊢
      refine h.chain.removeAfter h.nodup ?_ fun j hj => ?_
      · simp [removeVma]
      · simp [removeVma, hj]
  · intro i hi
    rw [vmaCount_removeVma]
    exact h.below i (hsub.subset hi)

theorem AreaList.remove {xs ys : List (Fin 128)} {id : Fin 128} (h : AreaList s (xs ++ id :: ys)) :
    AreaList (removeVma s (xs.getLast?.or none) id) (xs ++ ys) := by
  have hpool := h.poolChain.remove
  have hsub : (xs ++ ys).Sublist (xs ++ id :: ys) :=
    List.Sublist.append_left (List.sublist_cons_self id ys) xs
  refine ⟨hpool.chain, hpool.below, ?_, ?_⟩
  · simp only [vaddr_removeVma, size_removeVma]
    exact h.sorted.sublist hsub
  · intro i hi
    simp only [vaddr_removeVma, size_removeVma, nextVaddr_removeVma]
    exact h.bound i (hsub.subset hi)

/-- **`vmm_free` ends**: no area has the address, or the newest one that has it is unmapped and
taken off the list. -/
theorem PoolChain.vmmFree [TableMemory M] (h : PoolChain s ids) (ptr : U64) :
    ((∀ id ∈ ids, (s.vmaNodes id).vaddr ≠ ptr) ∧ vmmFree s ptr = some s) ∨
    ∃ xs id ys, ids = xs ++ id :: ys ∧ (∀ x ∈ xs, (s.vmaNodes x).vaddr ≠ ptr) ∧
      (s.vmaNodes id).vaddr = ptr ∧ vmmFree s ptr = some (removeVma
        { s with paging := freePages s.paging ptr ((s.vmaNodes id).size / 4096).toNat }
        (xs.getLast?.or none) id) := by
  have hlen : ids.length < 129 := by
    have := h.nodup.length_le_card
    simp only [Fintype.card_fin] at this
    omega
  rcases h.chain.find_eq (fun id => (s.vmaNodes id).vaddr == ptr) hlen none with
    ⟨hall, hf⟩ | ⟨xs, id, ys, rfl, hxs, hid, hf⟩
  · refine .inl ⟨fun id hid => by simpa using hall id hid, ?_⟩
    simp only [OS44.vmmFree, hf]
  · have hptr : (s.vmaNodes id).vaddr = ptr := by simpa using hid
    refine .inr ⟨xs, id, ys, rfl, fun x hx => by simpa using hxs x hx, hptr, ?_⟩
    simp only [OS44.vmmFree, hf, hptr]

end List

/-! ## Live allocations -/

/-- An allocation: the address that `vmm_alloc` returned and the number of pages. -/
structure Allocation where
  base : U64
  pages : ℕ
  deriving DecidableEq, Repr

/-- The allocation of a node of the list. -/
def VMA.allocation (node : VMA) : Allocation := ⟨node.vaddr, (node.size / 4096).toNat⟩

theorem pages_allocation (node : VMA) : node.allocation.pages = node.size.toNat / 4096 :=
  BitVec.toNat_udiv

/-- `n` is a page of the allocation. -/
def Allocation.HasPage (a : Allocation) (n : Fin (2 ^ 36)) : Prop :=
  ∃ i < a.pages, n = areaPage a.base i

instance (a : Allocation) (n : Fin (2 ^ 36)) : Decidable (a.HasPage n) :=
  inferInstanceAs (Decidable (∃ i, i < a.pages ∧ n = areaPage a.base i))

/-- `n` is a page of a live allocation. -/
def LivePage (live : List Allocation) (n : Fin (2 ^ 36)) : Prop := ∃ a ∈ live, a.HasPage n

/-- **Where the live allocations are**: one above the other, newest first, below `next_vaddr` and in
the 48 bits of an address that are translated. -/
structure LiveAreas (next : U64) (live : List Allocation) : Prop where
  pos : ∀ a ∈ live, 0 < a.pages
  sorted : live.Pairwise fun newer older =>
    older.base.toNat + 4096 * older.pages ≤ newer.base.toNat
  bound : ∀ a ∈ live, a.base.toNat + 4096 * a.pages ≤ next.toNat
  low : ∀ a ∈ live, a.base.toNat + 4096 * a.pages ≤ 2 ^ 48

variable {s : Vmm TableHeap} {ids : List (Fin 128)} {live : List Allocation} {a a' : Allocation}
  {ptr size base next : U64} {i j k : ℕ} {n : Fin (2 ^ 36)} {P : Fin (2 ^ 36) → Prop}

/-- The pages of an area are consecutive. -/
theorem val_areaPage (h : base.toNat + 4096 * i < 2 ^ 48) :
    (areaPage base i).val = base.toNat / 4096 + i := by
  have hmul : (BitVec.ofNat 64 i * 4096 : U64).toNat = 4096 * i := by
    rw [BitVec.toNat_mul, BitVec.toNat_ofNat]
    simp
    omega
  have hsum : (base + BitVec.ofNat 64 i * 4096 : U64).toNat = base.toNat + 4096 * i := by
    rw [BitVec.toNat_add, hmul]
    omega
  simp only [areaPage, pageOf, hsum]
  omega

theorem Allocation.HasPage.val_bounds (h : a.HasPage n)
    (hlow : a.base.toNat + 4096 * a.pages ≤ 2 ^ 48) :
    a.base.toNat / 4096 ≤ n.val ∧ n.val < a.base.toNat / 4096 + a.pages := by
  obtain ⟨i, hi, rfl⟩ := h
  rw [val_areaPage (by omega)]
  omega

theorem areaPage_inj (hlow : base.toNat + 4096 * k ≤ 2 ^ 48) (hi : i < k) (hj : j < k)
    (h : areaPage base i = areaPage base j) : i = j := by
  have := congrArg Fin.val h
  rw [val_areaPage (by omega), val_areaPage (by omega)] at this
  omega

/-- Areas one above the other share no page. -/
theorem not_hasPage_of_le (a' : Allocation) (h : a.base.toNat + 4096 * a.pages ≤ a'.base.toNat)
    (hlow : a.base.toNat + 4096 * a.pages ≤ 2 ^ 48)
    (hlow' : a'.base.toNat + 4096 * a'.pages ≤ 2 ^ 48) (hn : a.HasPage n) : ¬ a'.HasPage n := by
  intro hn'
  have := hn.val_bounds hlow
  have := hn'.val_bounds hlow'
  omega

/-- One of the two lies above the other. -/
def Allocation.Apart (a a' : Allocation) : Prop :=
  a.base.toNat + 4096 * a.pages ≤ a'.base.toNat ∨ a'.base.toNat + 4096 * a'.pages ≤ a.base.toNat

instance : Std.Symm Allocation.Apart := ⟨fun _ _ h => Or.symm h⟩

theorem LiveAreas.apart (h : LiveAreas next live) (ha : a ∈ live) (ha' : a' ∈ live)
    (hne : a ≠ a') : a.Apart a' := by
  have hapart : live.Pairwise Allocation.Apart := h.sorted.imp fun hle => Or.inr hle
  exact hapart.forall ha ha' hne

/-- A page belongs to at most one live allocation. -/
theorem LiveAreas.eq_of_hasPage (h : LiveAreas next live) (ha : a ∈ live) (ha' : a' ∈ live)
    (hn : a.HasPage n) (hn' : a'.HasPage n) : a = a' := by
  by_contra hne
  rcases h.apart ha ha' hne with hle | hle
  · exact not_hasPage_of_le _ hle (h.low a ha) (h.low a' ha') hn hn'
  · exact not_hasPage_of_le _ hle (h.low a' ha') (h.low a ha) hn' hn

/-- Live allocations have distinct addresses. -/
theorem LiveAreas.eq_of_base (h : LiveAreas next live) (ha : a ∈ live) (ha' : a' ∈ live)
    (hb : a.base = a'.base) : a = a' := by
  by_contra hne
  have := h.pos a ha
  have := h.pos a' ha'
  rcases h.apart ha ha' hne with hle | hle <;> rw [hb] at hle <;> omega

theorem LiveAreas.disjoint (h : LiveAreas next live) :
    live.Pairwise fun a a' => ∀ n, a.HasPage n → ¬ a'.HasPage n := by
  apply h.sorted.imp_of_mem
  intro _ _ ha ha' hle n hn hn'
  exact not_hasPage_of_le _ hle (h.low _ ha') (h.low _ ha) hn' hn

/-- Leaving allocations out. -/
theorem LiveAreas.filter (h : LiveAreas next live) (q : Allocation → Bool) :
    LiveAreas next (live.filter q) where
  pos a ha := h.pos a (List.mem_of_mem_filter ha)
  sorted := h.sorted.filter q
  bound a ha := h.bound a (List.mem_of_mem_filter ha)
  low a ha := h.low a (List.mem_of_mem_filter ha)

/-- The live allocations after a call of `vmm_alloc` that returned `base`. -/
def addLive (live : List Allocation) (base : U64) (pages : ℕ) : List Allocation :=
  if pages = 0 then live else ⟨base, pages⟩ :: live

/-- A new allocation on top. -/
theorem LiveAreas.add (h : LiveAreas next live) {next' : U64}
    (hnext : next'.toNat = next.toNat + 4096 * k) (hlow : next.toNat + 4096 * k ≤ 2 ^ 48) :
    LiveAreas next' (addLive live next k) := by
  have hold : LiveAreas next' live :=
    { h with bound := fun a ha => by have := h.bound a ha; omega }
  rw [addLive]
  split_ifs with hk
  · exact hold
  · refine ⟨fun a ha => ?_, List.pairwise_cons.mpr ⟨h.bound, h.sorted⟩, fun a ha => ?_,
      fun a ha => ?_⟩ <;> rcases List.mem_cons.mp ha with rfl | ha
    exacts [Nat.pos_of_ne_zero hk, h.pos a ha, hnext.ge, hold.bound a ha, hlow, h.low a ha]

theorem livePage_addLive :
    LivePage (addLive live base k) n ↔ LivePage live n ∨ ∃ i < k, n = areaPage base i := by
  rw [addLive]
  split_ifs with hk
  · simp [hk]
  · simp only [LivePage, List.mem_cons, exists_eq_or_imp, Allocation.HasPage]
    exact or_comm

/-- The pages from `next_vaddr` on are not live. -/
theorem LiveAreas.not_livePage (h : LiveAreas next live) (hlow : next.toNat + 4096 * k ≤ 2 ^ 48)
    (hi : i < k) : ¬ LivePage live (areaPage next i) := by
  rintro ⟨a, ha, hn⟩
  exact not_hasPage_of_le ⟨next, k⟩ (h.bound a ha) (h.low a ha) hlow hn ⟨i, hi, rfl⟩

/-- The live allocations without those at `ptr`. -/
def dropLive (live : List Allocation) (ptr : U64) : List Allocation :=
  live.filter fun a => a.base ≠ ptr

theorem mem_dropLive : a ∈ dropLive live ptr ↔ a ∈ live ∧ a.base ≠ ptr := by
  simp [dropLive]

theorem LiveAreas.livePage_dropLive (h : LiveAreas next live) (ha : a ∈ live) :
    LivePage (dropLive live a.base) n ↔ LivePage live n ∧ ¬ a.HasPage n := by
  constructor
  · rintro ⟨a', ha', hn⟩
    obtain ⟨hmem, hbase⟩ := mem_dropLive.mp ha'
    exact ⟨⟨a', hmem, hn⟩, fun hna => hbase (by rw [h.eq_of_hasPage ha hmem hna hn])⟩
  · rintro ⟨⟨a', hmem, hn⟩, hna⟩
    refine ⟨a', mem_dropLive.mpr ⟨hmem, fun hbase => hna ?_⟩, hn⟩
    rwa [h.eq_of_base ha hmem hbase.symm]

/-- The live pages after an area, if it was not empty, has been unmapped. -/
theorem LiveAreas.livePage_drop (h : LiveAreas next live) (ha : 0 < a.pages → a ∈ live) :
    LivePage (if a.pages = 0 then live else dropLive live a.base) n ↔
      LivePage live n ∧ ∀ j < a.pages, n ≠ areaPage a.base j := by
  split_ifs with h0
  · simp [h0]
  · rw [h.livePage_dropLive (ha (Nat.pos_of_ne_zero h0))]
    simp only [Allocation.HasPage, not_exists, not_and, ne_eq]

/-- Without a live allocation at `ptr` nothing is left out. -/
theorem dropLive_eq_self (h : ∀ a ∈ live, a.base ≠ ptr) : dropLive live ptr = live :=
  List.filter_eq_self.mpr fun a ha => by simpa using h a ha

/-! ## The invariant -/

/-- **The invariant of the virtual memory manager**: the areas in its list are `noted`, newest
first, and the pages of the allocations in `live`, among them those of the list,
have frames of their own. -/
structure VmmInv (s : Vmm TableHeap) (noted live : List Allocation) : Prop where
  list : ∃ ids, AreaList s ids ∧ ids.map (fun id => (s.vmaNodes id).allocation) = noted
  pages : PagesOk s.paging (LivePage live)
  areas : LiveAreas s.nextVaddr live
  noted_live : ∀ a ∈ noted, 0 < a.pages → a ∈ live

/-- With no area and no live allocation, only the tables matter. -/
theorem vmmInv_nil (h : WellFormed s.paging) (hl : s.vmaList = none) : VmmInv s [] [] where
  list := ⟨[], ⟨hl, by simp, by simp, by simp⟩, rfl⟩
  pages := ⟨h, fun n hn => by simp [LivePage] at hn, fun n m f hn => by simp [LivePage] at hn⟩
  areas := ⟨by simp, by simp, by simp, by simp⟩
  noted_live := by simp

/-- The areas of the list lie one above the other. -/
theorem AreaList.sorted_allocation (h : AreaList s ids) :
    (ids.map fun id => (s.vmaNodes id).allocation).Pairwise fun newer older =>
      older.base.toNat + 4096 * older.pages ≤ newer.base.toNat := by
  rw [List.pairwise_map]
  apply h.sorted.imp
  intro _ _ hle
  simp only [pages_allocation]
  have := hle.2
  simp only [VMA.allocation]
  omega

/-- An area behind one with the same address is empty. -/
theorem pages_eq_zero_of_sorted {xs ys : List Allocation}
    (h : (xs ++ a :: ys).Pairwise fun newer older =>
      older.base.toNat + 4096 * older.pages ≤ newer.base.toNat)
    (ha' : a' ∈ ys) (hb : a'.base = a.base) : a'.pages = 0 := by
  have := (List.pairwise_cons.mp (List.pairwise_append.mp h).2.1).1 a' ha'
  rw [hb] at this
  omega

theorem VmmInv.sorted {noted : List Allocation} (h : VmmInv s noted live) :
    noted.Pairwise fun newer older => older.base.toNat + 4096 * older.pages ≤ newer.base.toNat := by
  obtain ⟨ids, hids, rfl⟩ := h.list
  exact hids.sorted_allocation

theorem toNat_numPages_lt (size : U64) : (numPages size).toNat < 2 ^ 52 := by
  have h4096 : (4096 : U64).toNat = 4096 := rfl
  have := (size + 4095).isLt
  rw [numPages, BitVec.toNat_udiv, h4096]
  omega

theorem toNat_numPages_mul (size : U64) :
    (numPages size * 4096).toNat = 4096 * (numPages size).toNat := by
  have := toNat_numPages_lt size
  have h4096 : (4096 : U64).toNat = 4096 := rfl
  rw [BitVec.toNat_mul, h4096]
  omega

theorem numPages_mul_div (size : U64) : numPages size * 4096 / 4096 = numPages size := by
  apply BitVec.eq_of_toNat_eq
  have h4096 : (4096 : U64).toNat = 4096 := rfl
  rw [BitVec.toNat_udiv, toNat_numPages_mul, h4096]
  omega

/-- The areas in the list after `vmm_alloc`: the pool may have no node left. -/
def note (count : ℕ) (noted : List Allocation) (a : Allocation) : List Allocation :=
  if count < 128 then a :: noted else noted

theorem subset_note (count : ℕ) (noted : List Allocation) (a : Allocation) :
    noted ⊆ note count noted a := by
  rw [note]
  split_ifs
  exacts [List.subset_cons_self _ _, List.Subset.refl _]

/-- The list after `vmm_alloc`: the new area in front, if the pool has a node left for it. -/
theorem AreaList.note_finishAlloc (h : AreaList s ids)
    (hno : s.nextVaddr.toNat + (numPages size * 4096).toNat < 2 ^ 64) :
    ∃ ids', AreaList (finishAlloc s size) ids' ∧
      ids'.map (fun id => ((finishAlloc s size).vmaNodes id).allocation) =
        note s.vmaCount (ids.map fun id => (s.vmaNodes id).allocation)
          ⟨s.nextVaddr, (numPages size).toNat⟩ := by
  rw [note]
  split_ifs with hc
  · obtain ⟨hnew, hself, hold⟩ := h.push hc hno
    refine ⟨_, hnew, ?_⟩
    rw [List.map_cons, hself, VMA.allocation, numPages_mul_div]
    congr 1
    exact List.map_congr_left fun id hid => by rw [hold id hid]
  · -- with the pool used up the area is not noted
    obtain ⟨hnew, hold⟩ := h.full hc hno
    exact ⟨ids, hnew, by rw [hold]⟩

/-- What is noted after `vmm_alloc` is live. -/
theorem mem_addLive_of_note {noted : List Allocation} {count : ℕ}
    (hlive : ∀ a ∈ noted, 0 < a.pages → a ∈ live) (ha : a ∈ note count noted ⟨base, k⟩)
    (hpos : 0 < a.pages) : a ∈ addLive live base k := by
  have hold : a ∈ noted → a ∈ addLive live base k := fun hmem => by
    rw [addLive]
    split_ifs
    exacts [hlive a hmem hpos, List.mem_cons_of_mem _ (hlive a hmem hpos)]
  rw [note] at ha
  split_ifs at ha
  · rcases List.mem_cons.mp ha with rfl | ha
    · rw [addLive, if_neg hpos.ne']
      exact List.mem_cons_self
    · exact hold ha
  · exact hold ha

/-- Every page takes a frame. -/
theorem VmmInv.numPages_le {noted : List Allocation} (h : VmmInv s noted live)
    (htotal : s.paging.pmm.totalFrames = 2 ^ 20) (size : U64) :
    s.paging.pmm.failures < (endVmm (vmmAlloc s size)).paging.pmm.failures ∨
    (numPages size).toNat ≤ s.paging.pmm.freeFrames.card := by
  rw [(endVmm_vmmAlloc s size).1]
  rcases h.pages.allocPages s.nextVaddr (numPages size).toNat with ⟨hlt, -⟩ | ⟨t, -, hm⟩
  · exact .inl hlt
  · have := hm.card_free htotal
    exact .inr (by omega)

/-- **`vmm_alloc`** maps the pages of a new area and notes it, unless an allocation fails. -/
theorem VmmInv.alloc {noted : List Allocation} (h : VmmInv s noted live) (size : U64)
    (hlow : s.nextVaddr.toNat + 4096 * (numPages size).toNat ≤ 2 ^ 48) :
    (s.paging.pmm.failures < (endVmm (vmmAlloc s size)).paging.pmm.failures ∧
      (s.paging.pmm.testBit 0 = true →
        s.paging.pmm.freeFrames.card < 4 * (numPages size).toNat)) ∨
    ∃ t, allocPages s.nextVaddr 0 (numPages size).toNat s = .ok (true, t) ∧
      vmmAlloc s size = .ok (s.nextVaddr, finishAlloc t size) ∧
      MapsArea s (LivePage live) s.nextVaddr (numPages size).toNat t ∧
      VmmInv (finishAlloc t size)
        (note s.vmaCount noted ⟨s.nextVaddr, (numPages size).toNat⟩)
        (addLive live s.nextVaddr (numPages size).toNat) := by
  rw [(endVmm_vmmAlloc s size).1]
  rcases h.pages.allocPages s.nextVaddr (numPages size).toNat with hfail | ⟨t, ht, hm⟩
  · exact .inl hfail
  have hnext : t.nextVaddr = s.nextVaddr := by rw [hm.rest_eq]
  have hno : t.nextVaddr.toNat + (numPages size * 4096).toNat < 2 ^ 64 := by
    rw [hnext, toNat_numPages_mul]
    omega
  refine .inr ⟨t, ht, vmmAlloc_of_true ht, hm, ?_, ?_, ?_, ?_⟩
  · -- the loop over the pages does not touch the list
    obtain ⟨ids, hids, rfl⟩ := h.list
    have hids' : AreaList t ids := by
      rw [hm.rest_eq]
      exact ⟨hids.chain, hids.below, hids.sorted, hids.bound⟩
    have hnoted := hids'.note_finishAlloc hno
    rwa [hm.rest_eq] at hnoted ⊢
  · rw [paging_finishAlloc]
    exact hm.pages.congr fun n => livePage_addLive
  · apply h.areas.add ?_ hlow
    rw [toNat_nextVaddr_finishAlloc hno, toNat_numPages_mul, hnext]
  · intro a ha hpos
    exact mem_addLive_of_note h.noted_live ha hpos

/-- An area all of whose pages are live is unmapped page by page. -/
theorem UnmapsArea.freePages {s : Paging TableHeap} (h : PagesOk s P)
    (hlow : base.toNat + 4096 * k ≤ 2 ^ 48) (hP : ∀ i < k, P (areaPage base i)) :
    UnmapsArea s P base k (freePages s base k) :=
  freePages_rule (I := UnmapsArea s P base) base k
    (fun i _ hi hu => hu.step (hP i hi) fun j hj he =>
      absurd (areaPage_inj hlow hi (by omega) he) (by omega))
    (.refl h base)

/-- An area in the list is unmapped page by page: it has no page, or it is live. -/
theorem VmmInv.unmapsArea {noted : List Allocation} (h : VmmInv s noted live) (ha : a ∈ noted) :
    UnmapsArea s.paging (LivePage live) a.base a.pages (freePages s.paging a.base a.pages) := by
  rcases Nat.eq_zero_or_pos a.pages with h0 | hpos
  · rw [h0]
    exact .refl h.pages a.base
  · have hlive := h.noted_live _ ha hpos
    exact .freePages h.pages (h.areas.low _ hlive) fun i hi => ⟨_, hlive, i, hi, rfl⟩

/-- What is left in the list is live, and not at the address of the area taken off it: before that
one the search saw other addresses, and behind it the areas are older. -/
theorem VmmInv.mem_rest {xs ys : List Allocation} (h : VmmInv s (xs ++ a :: ys) live)
    (hxs : ∀ b ∈ xs, b.base ≠ a.base) (ha' : a' ∈ xs ++ ys) (hpos : 0 < a'.pages) :
    a' ∈ if a.pages = 0 then live else dropLive live a.base := by
  have hsub : (xs ++ ys).Sublist (xs ++ a :: ys) :=
    List.Sublist.append_left (List.sublist_cons_self a ys) xs
  have hlive := h.noted_live a' (hsub.subset ha') hpos
  split_ifs
  · exact hlive
  · apply mem_dropLive.mpr ⟨hlive, fun hbase => ?_⟩
    rcases List.mem_append.mp ha' with hx | hy
    · exact hxs a' hx hbase
    · exact hpos.ne' (pages_eq_zero_of_sorted h.sorted hy hbase)

/-- **`vmm_free` ends**: no area has the address and nothing changes, or the newest one that has it
is unmapped and taken off the list. -/
theorem VmmInv.free {noted : List Allocation} (h : VmmInv s noted live) (ptr : U64) :
    ((∀ a ∈ noted, a.base ≠ ptr) ∧ vmmFree s ptr = some s) ∨
    ∃ xs a ys s', noted = xs ++ a :: ys ∧ (∀ b ∈ xs, b.base ≠ ptr) ∧ a.base = ptr ∧
      vmmFree s ptr = some s' ∧ UnmapsArea s.paging (LivePage live) ptr a.pages s'.paging ∧
      s'.paging = freePages s.paging ptr a.pages ∧
      s'.vmaCount = s.vmaCount ∧ s'.nextVaddr = s.nextVaddr ∧ s'.handed = s.handed ∧
      VmmInv s' (xs ++ ys) (if a.pages = 0 then live else dropLive live ptr) := by
  obtain ⟨ids, hids, hnoted⟩ := h.list
  rcases hids.poolChain.vmmFree ptr with ⟨hnone, hf⟩ | ⟨xs, id, ys, rfl, hxs, rfl, hf⟩
  · -- the walk comes to the end of the list
    refine .inl ⟨?_, hf⟩
    intro a ha
    rw [← hnoted] at ha
    obtain ⟨id, hid, rfl⟩ := List.mem_map.mp ha
    exact hnone id hid
  rw [List.map_append, List.map_cons] at hnoted
  subst hnoted
  have hmem : (s.vmaNodes id).allocation ∈ xs.map (fun id => (s.vmaNodes id).allocation) ++
      (s.vmaNodes id).allocation :: ys.map fun id => (s.vmaNodes id).allocation := by simp
  have hxs' : ∀ b ∈ xs.map fun id => (s.vmaNodes id).allocation,
      b.base ≠ (s.vmaNodes id).vaddr := by
    intro b hb
    obtain ⟨x, hx, rfl⟩ := List.mem_map.mp hb
    exact hxs x hx
  have hu := h.unmapsArea hmem
  -- to unmap the pages leaves the list, and then the node is taken out of it
  have hids' : AreaList { s with
      paging := freePages s.paging (s.vmaNodes id).vaddr (s.vmaNodes id).allocation.pages }
      (xs ++ id :: ys) := ⟨hids.chain, hids.below, hids.sorted, hids.bound⟩
  refine .inr ⟨_, _, _, _, rfl, hxs', rfl, hf, by rwa [paging_removeVma], paging_removeVma _ _ _,
    vmaCount_removeVma _ _ _, nextVaddr_removeVma _ _ _, handed_removeVma _ _ _,
    ⟨xs ++ ys, hids'.remove, ?_⟩, ?_, ?_, fun b hb hpos => h.mem_rest hxs' hb hpos⟩
  · rw [List.map_append]
    simp only [VMA.allocation, vaddr_removeVma, size_removeVma]
  · rw [paging_removeVma]
    exact hu.pages.congr fun n => h.areas.livePage_drop (h.noted_live _ hmem)
  · rw [nextVaddr_removeVma]
    split_ifs
    exacts [h.areas, h.areas.filter _]

end OS44
