import OS44.Mem.TablesOnBytes

/-! # When `paging_map` runs out of frames

`paging_map` asks for up to three tables, one below the other. It passes what `get_next_table`
returns on unchecked, and where a later table cannot be allocated the earlier ones stay linked. This
file says exactly when the call is harmless nevertheless (`paging_map_failure_iff`), in any state of
the tables whatsoever: they need not be a tree, a link may be null, and a table may even lie in a
frame that the frame allocator still counts as free.

A table that has just been linked is empty, but not always: linked into itself it holds that link,
and in memory a counter may overwrite its entry 0, or the very link to it. What it looks like is all
that depends on the storage (`TableStorage`). -/

namespace OS44

open LinkedTree TableMemory

/-- **How a storage shows a table that has just been linked** in the slot `i` of the table `a`: for
the table at `f`, `newTable a i f` is read back, and `newLink a i f` are its slots. -/
class TableStorage (M : Type) [TableMemory M] where
  IsTableAddr : U64 → Prop
  newTable : U64 → Fin 512 → U64 → U64
  newLink : U64 → Fin 512 → U64 → Fin 512 → Option U64
  isTableAddr : ∀ a, a &&& frameMask = a → IsTableAddr a
  newTable_cases : ∀ a i f, newTable a i f = f ∨ newTable a i f = 0
  newLink_cases : ∀ a i f j b, newLink a i f j = some b → b = f ∨ b = 0
  newTable_eq : ∀ (s : Paging M) a i n, IsTableAddr a → n < 2 ^ 20 →
    entry (linkTable s a i (frameAddr n)).mem a i &&& frameMask = newTable a i (frameAddr n)
  newLink_eq : ∀ (s : Paging M) a i n j, IsTableAddr a → n < 2 ^ 20 →
    link (linkTable s a i (frameAddr n)).mem (frameAddr n) j = newLink a i (frameAddr n) j

/-- As a struct of its own a new table is empty, unless it is the table that it is linked into. -/
instance : TableStorage TableHeap where
  IsTableAddr _ := True
  newTable _ _ f := f
  newLink a i f j := if f = a ∧ j = i then some f else none
  isTableAddr _ _ := trivial
  newTable_cases _ _ _ := .inl rfl
  newLink_cases a i f j b h := by
    split_ifs at h
    exact .inl (Option.some.inj h).symm
  newTable_eq s a i n _ hn := entry_linkTable_and_frameMask s a i (frameAddr_aligned hn)
  newLink_eq s a i n j _ hn := by
    rw [link_linkTable s a i (frameAddr_aligned hn), setChild, emptyNode_self]

section Bytes

variable {a : U64} {i j : Fin 512} {n : ℕ} (ha : a &&& frameMask = a) (hn : n < 2 ^ 20)
include ha hn

/-- The counter 0 of a new table comes over the link to it, if that is the entry 0 behind it. -/
theorem entry_linkTable_behind (s : Paging TableBytes) (hnext : a = refCountAddr (frameAddr n)) :
    entry (linkTable s a 0 (frameAddr n)).mem a 0 = 0 := by
  have hentry : (frameAddr n ||| pagePresent ||| pageWritable).toNat < 2 ^ 32 := by
    rw [BitVec.toNat_or, BitVec.toNat_or, toNat_frameAddr hn]
    exact Nat.or_lt_two_pow (Nat.or_lt_two_pow (by omega) (by decide)) (by decide)
  subst hnext
  simp only [linkTable]
  rw [entry_setRefCount_of_apart ha ha fun h => absurd h.symm (refCountAddr_ne _),
    entry_setRefCount_next (by rwa [entry_setEntry_self])]
  decide

/-- The counter 1 of the table above comes over the entry 0 of a new table behind it. -/
theorem entry_linkTable_ahead (s : Paging TableBytes) (hnext : frameAddr n = refCountAddr a) :
    entry (linkTable s a i (frameAddr n)).mem (frameAddr n) 0 = 1 := by
  have hf := frameAddr_aligned hn
  have hne : a ≠ frameAddr n := hnext ▸ (refCountAddr_ne a).symm
  -- the counter has been cleared with the frame
  have hcount : refCount (zeroFrame s.mem (frameAddr n)) a = 0 := by
    have hz : LittleEndian.loadLE (zeroFrame s.mem (frameAddr n)).bytes (refCountAddr a) 4 = 0 :=
      LittleEndian.loadLE_eq_zero fun k hk => by
        rw [← hnext]
        exact (LittleEndian.storeLE_add (n := 4096) (x := k) (by omega) (by decide) 0).trans
          (by simp)
    simp only [refCount, load32, hz]
    rfl
  have hentry : ∀ e, entry (setRefCount (setEntry (zeroFrame s.mem (frameAddr n)) a i e)
      (frameAddr n) 0) (frameAddr n) 0 = 0 := fun e => by
    rw [entry_setRefCount_of_apart hf hf fun h => absurd h.symm (refCountAddr_ne _),
      entry_setEntry_of_ne ha hf fun h => hne h.1.symm, entry_zeroFrame_self hf]
  simp only [linkTable]
  rw [refCount_setRefCount_of_ne hf ha hne, refCount_setEntry_of_apart ha ha
    (refCountAddr_ne a).symm, hcount]
  rw [hnext] at hentry ⊢
  rw [entry_setRefCount_next (by rw [hentry]; decide)]
  decide

end Bytes

/-- In memory the counter of the new table overwrites the link to it, if that is the entry 0 of the
frame behind; and the counter of the table above overwrites the entry 0 of the new table, if that
one is in the frame behind. -/
instance : TableStorage TableBytes where
  IsTableAddr a := a &&& frameMask = a
  newTable a i f := if a = refCountAddr f ∧ i = 0 then 0 else f
  newLink a i f j :=
    if f = a ∧ j = i then some f else if f = refCountAddr a ∧ j = 0 then some 0 else none
  isTableAddr _ h := h
  newTable_cases a i f := by
    split_ifs
    exacts [.inr rfl, .inl rfl]
  newLink_cases a i f j b h := by
    split_ifs at h
    exacts [.inl (Option.some.inj h).symm, .inr (Option.some.inj h).symm]
  newTable_eq s a i n ha hn := by
    have hf := frameAddr_aligned hn
    split_ifs with hnext
    · rw [hnext.2, entry_linkTable_behind ha hn s hnext.1]
      decide
    · rw [entry_linkTable s ha hf ha (fun h hi => hnext ⟨h, hi⟩)
        fun h => absurd h.symm (refCountAddr_ne a), if_pos ⟨rfl, rfl⟩]
      exact and_frameMask_of_entryLink (entryLink_mk hf)
  newLink_eq s a i n j ha hn := by
    have hf := frameAddr_aligned hn
    by_cases hnext : frameAddr n = refCountAddr a ∧ j = 0
    · have hne : ¬ (frameAddr n = a ∧ j = i) := fun h =>
        refCountAddr_ne a (hnext.1.symm.trans h.1)
      rw [if_neg hne, if_pos hnext, hnext.2, link, entry_linkTable_ahead ha hn s hnext.1]
      decide
    · rw [if_neg hnext, link, entry_linkTable s ha hf hf
        (fun h => absurd h.symm (refCountAddr_ne _)) fun h hj => hnext ⟨h, hj⟩]
      by_cases hself : frameAddr n = a ∧ j = i
      · rw [if_pos hself, if_pos hself]
        exact entryLink_mk hf
      · rw [if_neg hself, if_neg hself, if_pos rfl]
        exact entryLink_zero

/-! ## The property and the condition -/

/-- The frame that `pmm_alloc_frame` is about to hand out, if there is one. -/
def Pmm.nextFrame (s : Pmm) : Option U64 := s.firstFree.map frameAddr

section Counting

variable (M : Type) [TableMemory M] [TableStorage M]

/-- **How many tables are missing** below `a` on the way `q`, where `l` are the links between the
tables. The first of them is linked in the next free frame, and the way goes on as that one shows;
below a null table nothing is looked for. -/
def tablesNeeded (l : U64 → Fin 512 → Option U64) (pmm : Pmm) : U64 → List (Fin 512) → ℕ
  | _, [] => 0
  | a, i :: q =>
    if a = 0 then 0 else
      match l a i with
      | some b => tablesNeeded l pmm b q
      | none => 1 +
        match pmm.nextFrame with
        | none => q.length
        | some f => tablesNeeded (Function.update l f (TableStorage.newLink M a i f))
            (pmmAllocFrame pmm).2 (TableStorage.newTable M a i f) q

/-- No table below `a` on the way `q` is null, of those that are linked and of those that the next
free frames are linked as. -/
def NoNullTable (l : U64 → Fin 512 → Option U64) (pmm : Pmm) : U64 → List (Fin 512) → Prop
  | _, [] => True
  | a, i :: q =>
    match l a i with
    | some b => b ≠ 0 ∧ NoNullTable l pmm b q
    | none =>
      match pmm.nextFrame with
      | none => True
      | some f => TableStorage.newTable M a i f ≠ 0 ∧
          NoNullTable (Function.update l f (TableStorage.newLink M a i f)) (pmmAllocFrame pmm).2
            (TableStorage.newTable M a i f) q

end Counting

/-- There are frames for `n` tables, none of them frame 0. -/
def EnoughFrames (s : Pmm) (n : ℕ) : Prop := n = 0 ∨ 0 ∉ s.freeFrames ∧ n ≤ s.freeFrames.card

/-- There are frames for `n` tables, none of them frame 0; a single table may as well find the
allocator empty, which changes nothing. -/
def FramesFor (s : Pmm) (n : ℕ) : Prop := n = 0 ∨ 0 ∉ s.freeFrames ∧ n ≤ max 1 s.freeFrames.card

section Property

variable {M : Type} [TableMemory M]

/-- **What `paging_map` must do**: dereference no null table, and if a table cannot be allocated,
leave every page translated as before and every frame as used or free as before. -/
def MapFailOk (s : Paging M) (v p : U64) : Prop :=
  ∃ s', pagingMap s v p = .ok s' ∧ (s.pmm.failures < s'.pmm.failures →
    (∀ n, s'.pageFrame n = s.pageFrame n) ∧ ∀ j, s'.pmm.testBit j = s.pmm.testBit j)

theorem not_mapFailOk_of_error {s t : Paging M} {v p : U64} (h : pagingMap s v p = .error t) :
    ¬ MapFailOk s v p := by
  rintro ⟨s', hs', -⟩
  rw [h] at hs'
  cases hs'

/-- Without a frame for the first table, the next one is looked for in the table at `NULL`. -/
theorem pagingMap_of_null {s : Paging M} {v p : U64} (h4 : s.pml4 ≠ 0)
    (hlink : link s.mem s.pml4 (pml4Idx v) = none) (h0 : (pmmAllocFrame s.pmm).1 = 0) :
    pagingMap s v p = .error { s with pmm := (pmmAllocFrame s.pmm).2 } := by
  rcases getNextTable_true_cases s s.pml4 (pml4Idx v) with ⟨b, hb, -⟩ | ⟨-, -, h⟩ |
    ⟨-, f, t, hf, hf0, -⟩
  · rw [hlink] at hb
    cases hb
  · simp only [pagingMap, if_neg h4, h, if_true]
  · exact absurd (hf.symm.trans h0) hf0

variable [TableStorage M]

/-- **The condition**: there are no tables at all; or the first two tables on the way are not null,
and there are frames for those that are missing. The page table alone may be missing with no frame
free. -/
def TablesSuffice (s : Paging M) (v : U64) : Prop :=
  s.pml4 = 0 ∨ NoNullTable M (link s.mem) s.pmm s.pml4 [pml4Idx v, pdptIdx v] ∧
    FramesFor s.pmm (tablesNeeded M (link s.mem) s.pmm s.pml4 [pml4Idx v, pdptIdx v, pdIdx v])

/-- **`paging_map` comes back**: there are no tables at all; or the first two tables on the way are
not null, and there are frames for those of the two that are missing. -/
def MapReturns (s : Paging M) (v : U64) : Prop :=
  s.pml4 = 0 ∨ NoNullTable M (link s.mem) s.pmm s.pml4 [pml4Idx v, pdptIdx v] ∧
    EnoughFrames s.pmm (tablesNeeded M (link s.mem) s.pmm s.pml4 [pml4Idx v, pdptIdx v])

end Property

/-! ## Counting the missing tables -/

section Counting

variable {M : Type} [TableMemory M] [TableStorage M] {l l' : U64 → Fin 512 → Option U64} {pmm : Pmm}
  {a b f : U64} {i : Fin 512}

@[simp] theorem tablesNeeded_nil : tablesNeeded M l pmm a [] = 0 := rfl

@[simp] theorem noNullTable_nil : NoNullTable M l pmm a [] := trivial

@[simp] theorem tablesNeeded_null (q : List (Fin 512)) : tablesNeeded M l pmm 0 q = 0 := by
  cases q <;> simp [tablesNeeded]

theorem tablesNeeded_of_link (ha : a ≠ 0) (h : l a i = some b) (q : List (Fin 512)) :
    tablesNeeded M l pmm a (i :: q) = tablesNeeded M l pmm b q := by
  simp only [tablesNeeded, if_neg ha, h]

theorem noNullTable_of_link (h : l a i = some b) (q : List (Fin 512)) :
    NoNullTable M l pmm a (i :: q) ↔ b ≠ 0 ∧ NoNullTable M l pmm b q := by
  simp only [NoNullTable, h]

theorem tablesNeeded_of_dry (ha : a ≠ 0) (h : l a i = none) (hnext : pmm.nextFrame = none)
    (q : List (Fin 512)) : tablesNeeded M l pmm a (i :: q) = q.length + 1 := by
  simp only [tablesNeeded, if_neg ha, h, hnext, Nat.add_comm]

theorem tablesNeeded_of_new (ha : a ≠ 0) (h : l a i = none) (hnext : pmm.nextFrame = some f)
    (q : List (Fin 512)) : tablesNeeded M l pmm a (i :: q) =
      tablesNeeded M (Function.update l f (TableStorage.newLink M a i f)) (pmmAllocFrame pmm).2
        (TableStorage.newTable M a i f) q + 1 := by
  simp only [tablesNeeded, if_neg ha, h, hnext, Nat.add_comm]

theorem noNullTable_of_new (h : l a i = none) (hnext : pmm.nextFrame = some f)
    (q : List (Fin 512)) : NoNullTable M l pmm a (i :: q) ↔ TableStorage.newTable M a i f ≠ 0 ∧
      NoNullTable M (Function.update l f (TableStorage.newLink M a i f)) (pmmAllocFrame pmm).2
        (TableStorage.newTable M a i f) q := by
  simp only [NoNullTable, h, hnext]

/-- A table with a missing link is itself counted. -/
theorem tablesNeeded_pos (ha : a ≠ 0) (h : l a i = none) (q : List (Fin 512)) :
    0 < tablesNeeded M l pmm a (i :: q) := by
  simp only [tablesNeeded, if_neg ha, h]
  omega

/-- Below a table whose links lead nowhere but to itself or to `NULL`, the other tables do not
matter. -/
theorem tablesNeeded_congr (q : List (Fin 512)) (h : ∀ j, l' a j = l a j)
    (hclosed : ∀ j b, l a j = some b → b = a ∨ b = 0) :
    tablesNeeded M l' pmm a q = tablesNeeded M l pmm a q := by
  induction q generalizing a l l' pmm with
  | nil => rfl
  | cons i q ih =>
    by_cases ha : a = 0
    · rw [ha, tablesNeeded_null, tablesNeeded_null]
    cases hi : l a i with
    | some b =>
      rw [tablesNeeded_of_link ha hi, tablesNeeded_of_link ha ((h i).trans hi)]
      rcases hclosed i b hi with rfl | rfl
      · exact ih h hclosed
      · rw [tablesNeeded_null, tablesNeeded_null]
    | none =>
      cases hnext : pmm.nextFrame with
      | none => rw [tablesNeeded_of_dry ha hi hnext, tablesNeeded_of_dry ha ((h i).trans hi) hnext]
      | some f =>
        rw [tablesNeeded_of_new ha hi hnext, tablesNeeded_of_new ha ((h i).trans hi) hnext]
        -- the new table is closed in the same way
        rcases TableStorage.newTable_cases (M := M) a i f with hf | hf
        · rw [hf]
          refine congrArg (· + 1) (ih (fun j => ?_) fun j b hj => ?_)
          · rw [Function.update_self, Function.update_self]
          · rw [Function.update_self] at hj
            exact TableStorage.newLink_cases a i f j b hj
        · rw [hf, tablesNeeded_null, tablesNeeded_null]

theorem noNullTable_congr (q : List (Fin 512)) (h : ∀ j, l' a j = l a j)
    (hclosed : ∀ j b, l a j = some b → b = a ∨ b = 0) :
    NoNullTable M l' pmm a q ↔ NoNullTable M l pmm a q := by
  induction q generalizing a l l' pmm with
  | nil => exact Iff.rfl
  | cons i q ih =>
    cases hi : l a i with
    | some b =>
      rw [noNullTable_of_link hi, noNullTable_of_link ((h i).trans hi)]
      refine and_congr_right fun hb => ?_
      obtain rfl := (hclosed i b hi).resolve_right hb
      exact ih h hclosed
    | none =>
      cases hnext : pmm.nextFrame with
      | none => simp only [NoNullTable, hi, (h i).trans hi, hnext]
      | some f =>
        rw [noNullTable_of_new hi hnext, noNullTable_of_new ((h i).trans hi) hnext]
        refine and_congr_right fun h0 => ?_
        rw [(TableStorage.newTable_cases (M := M) a i f).resolve_right h0]
        refine ih (fun j => ?_) fun j b hj => ?_
        · rw [Function.update_self, Function.update_self]
        · rw [Function.update_self] at hj
          exact TableStorage.newLink_cases a i f j b hj

end Counting

/-! ## One step down -/

section Steps

variable {M : Type} [TableMemory M] [TableStorage M] {s s' s₁ : Paging M} {a b t : U64}
  {i : Fin 512} {q : List (Fin 512)} {k : ℕ}

/-- **A way down that arrives**: from the table `a` along the slots `q` to the table `t`, taking `k`
frames. It has done with as many of the missing tables. -/
structure StepsDown (s : Paging M) (a : U64) (q : List (Fin 512)) (k : ℕ) (t : U64)
    (s' : Paging M) : Prop where
  isTableAddr : TableStorage.IsTableAddr M t
  le_length : k ≤ q.length
  needed_eq : ∀ r, tablesNeeded M (link s.mem) s.pmm a (q ++ r) =
    tablesNeeded M (link s'.mem) s'.pmm t r + k
  noNull_iff : ∀ r, NoNullTable M (link s.mem) s.pmm a (q ++ r) ↔
    t ≠ 0 ∧ NoNullTable M (link s'.mem) s'.pmm t r
  card_eq : s.pmm.freeFrames.card = s'.pmm.freeFrames.card + k
  free_subset : s'.pmm.freeFrames ⊆ s.pmm.freeFrames
  zero_notMem : k ≠ 0 → 0 ∉ s.pmm.freeFrames
  failures_eq : s'.pmm.failures = s.pmm.failures
  total_eq : s'.pmm.totalFrames = s.pmm.totalFrames
  eq_of_zero : k = 0 → s' = s

/-- **A step down that fails** for want of a frame: none is free, and nothing changes; or frame 0 is
the next one, which is taken and mistaken for `NULL`. -/
structure StepFails (s : Paging M) (a : U64) (i : Fin 512) (s' : Paging M) : Prop where
  needed_pos : ∀ q, 0 < tablesNeeded M (link s.mem) s.pmm a (i :: q)
  needed_eq : s.pmm.freeFrames = ∅ → ∀ q,
    tablesNeeded M (link s.mem) s.pmm a (i :: q) = q.length + 1
  failures_lt : s.pmm.failures < s'.pmm.failures
  total_eq : s'.pmm.totalFrames = s.pmm.totalFrames
  pages_eq : ∀ n, s'.pageFrame n = s.pageFrame n
  cases : s.pmm.freeFrames = ∅ ∧ (∀ j, s'.pmm.testBit j = s.pmm.testBit j) ∨
    0 ∈ s.pmm.freeFrames ∧ s'.pmm.testBit 0 = true

theorem StepsDown.refl (haddr : TableStorage.IsTableAddr M a) (ha : a ≠ 0) :
    StepsDown s a [] 0 a s where
  isTableAddr := haddr
  le_length := le_rfl
  needed_eq _ := rfl
  noNull_iff _ := (and_iff_right ha).symm
  card_eq := rfl
  free_subset := Finset.Subset.refl _
  zero_notMem h := absurd rfl h
  failures_eq := rfl
  total_eq := rfl
  eq_of_zero _ := rfl

/-- One way down after another, over a table that is not null. -/
theorem StepsDown.trans {q₁ q₂ : List (Fin 512)} {k₁ k₂ : ℕ} {t₁ t₂ : U64}
    (h₁ : StepsDown s a q₁ k₁ t₁ s₁) (h₂ : StepsDown s₁ t₁ q₂ k₂ t₂ s') (ht : t₁ ≠ 0) :
    StepsDown s a (q₁ ++ q₂) (k₁ + k₂) t₂ s' where
  isTableAddr := h₂.isTableAddr
  le_length := by
    rw [List.length_append]
    exact Nat.add_le_add h₁.le_length h₂.le_length
  needed_eq r := by
    rw [List.append_assoc, h₁.needed_eq, h₂.needed_eq]
    omega
  noNull_iff r := by rw [List.append_assoc, h₁.noNull_iff, and_iff_right ht, h₂.noNull_iff]
  card_eq := by
    rw [h₁.card_eq, h₂.card_eq]
    omega
  free_subset := h₂.free_subset.trans h₁.free_subset
  zero_notMem hk h0 := by
    -- the first frame was taken on the first way or on the second
    by_cases hk₁ : k₁ = 0
    · obtain rfl := h₁.eq_of_zero hk₁
      exact h₂.zero_notMem (by omega) h0
    · exact h₁.zero_notMem hk₁ h0
  failures_eq := h₂.failures_eq.trans h₁.failures_eq
  total_eq := h₂.total_eq.trans h₁.total_eq
  eq_of_zero hk := (h₂.eq_of_zero (by omega)).trans (h₁.eq_of_zero (by omega))

theorem stepsDown_of_link (ha : a ≠ 0) (h : link s.mem a i = some b) :
    StepsDown s a [i] 0 b s where
  isTableAddr := TableStorage.isTableAddr b (entryLink_aligned h)
  le_length := Nat.zero_le 1
  needed_eq := tablesNeeded_of_link ha h
  noNull_iff := noNullTable_of_link h
  card_eq := rfl
  free_subset := Finset.Subset.refl _
  zero_notMem h := absurd rfl h
  failures_eq := rfl
  total_eq := rfl
  eq_of_zero _ := rfl

theorem stepFails_of_null (ha : a ≠ 0) (hlink : link s.mem a i = none)
    (h0 : (pmmAllocFrame s.pmm).1 = 0) :
    StepFails s a i { s with pmm := (pmmAllocFrame s.pmm).2 } where
  needed_pos := tablesNeeded_pos ha hlink
  needed_eq hempty := tablesNeeded_of_dry ha hlink (by
    rw [Pmm.nextFrame, Pmm.firstFree_eq_none.mpr hempty, Option.map_none])
  failures_lt := by
    show _ < (pmmAllocFrame s.pmm).2.failures
    rw [failures_pmmAllocFrame, if_pos h0]
    exact Nat.lt_succ_self _
  total_eq := totalFrames_pmmAllocFrame s.pmm
  pages_eq _ := rfl
  cases := by
    rcases pmmAllocFrame_cases s.pmm with ⟨hempty, h⟩ | ⟨n, hn, -, h⟩
    · exact .inl ⟨hempty, fun j => by simp [h]⟩
    · -- a frame was taken and its address is `NULL`: frame 0
      have hn0 : n = 0 := by
        by_contra hne
        rw [h] at h0
        exact frameAddr_ne_zero (Pmm.lt_of_mem_freeFrames hn) hne h0
      exact .inr ⟨hn0 ▸ hn, by simp [h, hn0]⟩

/-- A step that links a new table: that one is what the storage shows, and none of its links leads
to the tables there were. -/
theorem stepsDown_of_new (haddr : TableStorage.IsTableAddr M a) (ha : a ≠ 0)
    (hlink : link s.mem a i = none) (hf : (pmmAllocFrame s.pmm).1 ≠ 0) :
    StepsDown s a [i] 1 (TableStorage.newTable M a i (pmmAllocFrame s.pmm).1)
      (linkTable { s with pmm := (pmmAllocFrame s.pmm).2 } a i (pmmAllocFrame s.pmm).1) := by
  obtain ⟨n, hn, hn0, hfn, -, hbits⟩ := pmmAllocFrame_ne_zero hf
  rcases pmmAllocFrame_cases s.pmm with ⟨-, h⟩ | ⟨m, hm, hmin, h⟩
  · rw [h] at hf
    exact absurd rfl hf
  have hmn : m = n := by
    rw [← frameOf_frameAddr (Pmm.lt_of_mem_freeFrames hm), ← frameOf_frameAddr hn, ← hfn, h]
  subst hmn
  have hnext : s.pmm.nextFrame = some (frameAddr m) := by
    rw [Pmm.nextFrame, Pmm.firstFree_eq_some.mpr ⟨hm, hmin⟩, Option.map_some]
  have hfree := freeFrames_pmmAllocFrame s.pmm
  rw [FirstFit.takeFirst_eq_erase hm hmin] at hfree
  have hne := frameAddr_ne_zero hn hn0
  -- the links of the new table, and where they lead
  have hlinks : ∀ j, link (linkTable { s with pmm := (pmmAllocFrame s.pmm).2 } a i
      (frameAddr m)).mem (frameAddr m) j = Function.update (link s.mem) (frameAddr m)
        (TableStorage.newLink M a i (frameAddr m)) (frameAddr m) j := fun j => by
    rw [Function.update_self, TableStorage.newLink_eq _ a i m j haddr hn]
  have hclosed : ∀ j b, Function.update (link s.mem) (frameAddr m)
      (TableStorage.newLink M a i (frameAddr m)) (frameAddr m) j = some b →
        b = frameAddr m ∨ b = 0 := fun j b hj => by
    rw [Function.update_self] at hj
    exact TableStorage.newLink_cases a i (frameAddr m) j b hj
  rw [hfn]
  have hcases := TableStorage.newTable_cases (M := M) a i (frameAddr m)
  refine ⟨?_, le_rfl, ?_, ?_, ?_, ?_, ?_, ?_, ?_, fun h => by cases h⟩
  · rcases hcases with he | he
    · rw [he]
      exact TableStorage.isTableAddr _ (frameAddr_aligned hn)
    · rw [he]
      exact TableStorage.isTableAddr _ (by decide)
  · intro q
    rw [List.singleton_append, tablesNeeded_of_new ha hlink hnext]
    rcases hcases with he | he
    · rw [he]
      exact congrArg (· + 1) (tablesNeeded_congr q hlinks hclosed).symm
    · rw [he, tablesNeeded_null, tablesNeeded_null]
  · intro q
    rw [List.singleton_append, noNullTable_of_new hlink hnext]
    refine and_congr_right fun h0 => ?_
    rw [hcases.resolve_right h0]
    exact (noNullTable_congr q hlinks hclosed).symm
  · show _ = (pmmAllocFrame s.pmm).2.freeFrames.card + 1
    rw [hfree, Finset.card_erase_add_one hm]
  · show (pmmAllocFrame s.pmm).2.freeFrames ⊆ _
    rw [hfree]
    exact Finset.erase_subset _ _
  · intro _ h0
    have := hmin 0 h0
    omega
  · show (pmmAllocFrame s.pmm).2.failures = _
    rw [failures_pmmAllocFrame, if_neg hf, Nat.add_zero]
  · exact totalFrames_pmmAllocFrame s.pmm

/-- **One step down** arrives or fails. -/
theorem getNextTable_step (s : Paging M) (haddr : TableStorage.IsTableAddr M a) (ha : a ≠ 0)
    (i : Fin 512) :
    (∃ k t s', getNextTable s a i true = (t, s') ∧ StepsDown s a [i] k t s') ∨
    ∃ s', getNextTable s a i true = (0, s') ∧ StepFails s a i s' := by
  rcases getNextTable_true_cases s a i with ⟨b, hb, h⟩ | ⟨hnone, h0, h⟩ |
    ⟨hnone, f, s', hf, hf0, rfl, h⟩
  · exact .inl ⟨0, b, s, h, stepsDown_of_link ha hb⟩
  · exact .inr ⟨_, h, stepFails_of_null ha hnone h0⟩
  · subst hf
    obtain ⟨n, hn, -, hfn, -⟩ := pmmAllocFrame_ne_zero hf0
    refine .inl ⟨1, _, _, ?_, stepsDown_of_new haddr ha hnone hf0⟩
    rw [h, hfn, TableStorage.newTable_eq _ a i n haddr hn]

/-! ## The three steps -/

/-- Frames of `s` are missing in `s'`, which has as many in all. -/
theorem testBit_ne_of_card_lt {s s' : Pmm} (htot : s'.totalFrames = s.totalFrames)
    (hlt : s'.freeFrames.card < s.freeFrames.card) : ¬ ∀ j, s'.testBit j = s.testBit j := by
  intro h
  have : s'.freeFrames = s.freeFrames := by
    ext j
    rw [Pmm.mem_freeFrames, Pmm.mem_freeFrames, htot, h]
  rw [this] at hlt
  exact lt_irrefl _ hlt

/-- All steps down arrive: there were frames for the tables that were missing. -/
theorem StepsDown.enoughFrames (h : StepsDown s a q k t s') :
    EnoughFrames s.pmm (tablesNeeded M (link s.mem) s.pmm a q) := by
  have hneeded := h.needed_eq []
  rw [List.append_nil, tablesNeeded_nil, Nat.zero_add] at hneeded
  have hcard := h.card_eq
  rw [hneeded]
  by_cases hk : k = 0
  · exact .inl hk
  · exact .inr ⟨h.zero_notMem hk, by omega⟩

theorem EnoughFrames.framesFor {s : Pmm} {n : ℕ} (h : EnoughFrames s n) : FramesFor s n :=
  h.imp_right fun h => ⟨h.1, h.2.trans (le_max_right _ _)⟩

/-- A step down fails: the frames did not suffice for the tables up to there. -/
theorem StepsDown.not_enoughFrames_of_fails (h : StepsDown s a q k t s₁)
    (hf : StepFails s₁ t i s') (r : List (Fin 512)) :
    ¬ EnoughFrames s.pmm (tablesNeeded M (link s.mem) s.pmm a (q ++ i :: r)) := by
  have hpos := hf.needed_pos r
  have hcard := h.card_eq
  rw [h.needed_eq]
  rintro (hzero | ⟨h0, hle⟩)
  · omega
  · rcases hf.cases with ⟨hempty, -⟩ | ⟨hmem, -⟩
    · rw [hempty, Finset.card_empty] at hcard
      omega
    · exact h0 (h.free_subset hmem)

/-- A step down fails before the last one: not even the exception for a single table applies. -/
theorem StepsDown.not_framesFor_of_fails (h : StepsDown s a q k t s₁)
    (hf : StepFails s₁ t i s') {r : List (Fin 512)} (hr : r ≠ []) :
    ¬ FramesFor s.pmm (tablesNeeded M (link s.mem) s.pmm a (q ++ i :: r)) := by
  have hpos := hf.needed_pos r
  have hcard := h.card_eq
  have hlen := List.length_pos_iff.mpr hr
  rw [h.needed_eq]
  rintro (hzero | ⟨h0, hle⟩)
  · omega
  · rcases hf.cases with ⟨hempty, -⟩ | ⟨hmem, -⟩
    · rw [hf.needed_eq hempty] at hle
      rw [hempty, Finset.card_empty] at hcard
      omega
    · exact h0 (h.free_subset hmem)

/-- The last step down fails: that is harmless if no table was linked before and no
frame is free. -/
theorem StepsDown.framesFor_iff_of_fails (h : StepsDown s a q k t s₁) (hf : StepFails s₁ t i s') :
    FramesFor s.pmm (tablesNeeded M (link s.mem) s.pmm a (q ++ [i])) ↔
      (∀ n, s'.pageFrame n = s.pageFrame n) ∧ ∀ j, s'.pmm.testBit j = s.pmm.testBit j := by
  have hpos := hf.needed_pos []
  have hcard := h.card_eq
  rw [h.needed_eq]
  rcases hf.cases with ⟨hempty, hbits⟩ | ⟨hzero, hused⟩
  · rw [hf.needed_eq hempty, List.length_nil]
    rw [hempty, Finset.card_empty] at hcard
    by_cases hk : k = 0
    · obtain rfl := h.eq_of_zero hk
      refine iff_of_true (.inr ⟨?_, by omega⟩) ⟨hf.pages_eq, hbits⟩
      rw [hempty]
      exact Finset.notMem_empty 0
    · -- the frames of the tables linked before are lost
      have hnone : s'.pmm.freeFrames = ∅ := by
        ext j
        rw [Pmm.mem_freeFrames, hf.total_eq, hbits, ← Pmm.mem_freeFrames, hempty]
      refine iff_of_false ?_ fun hsame => ?_
      · rintro (hz | ⟨-, hle⟩) <;> omega
      · refine testBit_ne_of_card_lt (hf.total_eq.trans h.total_eq) ?_ hsame.2
        rw [hnone, Finset.card_empty]
        omega
  · -- frame 0 is lost
    have hzero' := h.free_subset hzero
    refine iff_of_false ?_ fun hsame => ?_
    · rintro (hz | ⟨h0, -⟩)
      · omega
      · exact h0 hzero'
    · have := hsame.2 0
      rw [hused, (Pmm.mem_freeFrames.mp hzero').2] at this
      cases this

/-- **The first two steps** of a `paging_map` that has a root: they arrive at a page directory, and
the third goes on from there; or `NULL` is dereferenced, and neither condition holds. -/
theorem pagingMap_upper (haddr : TableStorage.IsTableAddr M s.pml4) (h4 : s.pml4 ≠ 0) (v p : U64) :
    (∃ k pd t, StepsDown s s.pml4 [pml4Idx v, pdptIdx v] k pd t ∧ pd ≠ 0 ∧
      ∀ pt u, getNextTable t pd (pdIdx v) true = (pt, u) →
        pagingMap s v p = .ok (if pt = 0 then u else writePage u pt (ptIdx v) p)) ∨
    (∃ t, pagingMap s v p = .error t) ∧ ¬ MapReturns s v ∧ ¬ TablesSuffice s v := by
  rw [MapReturns, TablesSuffice, or_iff_right h4, or_iff_right h4]
  have d₀ := StepsDown.refl (s := s) haddr h4
  -- the table below the root
  rcases getNextTable_step s haddr h4 (pml4Idx v) with ⟨k₁, pdpt, s₁, h₁, d₁⟩ | ⟨s₁, h₁, f₁⟩
  swap
  · refine .inr ⟨⟨s₁, ?_⟩, fun h => d₀.not_enoughFrames_of_fails f₁ _ h.2,
      fun h => d₀.not_framesFor_of_fails f₁ (by simp) h.2⟩
    simp only [pagingMap, if_neg h4, h₁, if_true]
  by_cases hpdpt : pdpt = 0
  · have hnull : ¬ NoNullTable M (link s.mem) s.pmm s.pml4 [pml4Idx v, pdptIdx v] :=
      fun h => ((d₁.noNull_iff _).mp h).1 hpdpt
    refine .inr ⟨⟨s₁, ?_⟩, fun h => hnull h.1, fun h => hnull h.1⟩
    simp only [pagingMap, if_neg h4, h₁, if_pos hpdpt]
  -- the page directory
  rcases getNextTable_step s₁ d₁.isTableAddr hpdpt (pdptIdx v) with
    ⟨k₂, pd, s₂, h₂, d₂⟩ | ⟨s₂, h₂, f₂⟩
  swap
  · refine .inr ⟨⟨s₂, ?_⟩, fun h => d₁.not_enoughFrames_of_fails f₂ _ h.2,
      fun h => d₁.not_framesFor_of_fails f₂ (by simp) h.2⟩
    simp only [pagingMap, if_neg h4, h₁, if_neg hpdpt, h₂, if_true]
  have d := d₁.trans d₂ hpdpt
  by_cases hpd : pd = 0
  · have hnull : ¬ NoNullTable M (link s.mem) s.pmm s.pml4 [pml4Idx v, pdptIdx v] :=
      fun h => ((d.noNull_iff []).mp h).1 hpd
    refine .inr ⟨⟨s₂, ?_⟩, fun h => hnull h.1, fun h => hnull h.1⟩
    simp only [pagingMap, if_neg h4, h₁, if_neg hpdpt, h₂, if_pos hpd]
  · refine .inl ⟨_, pd, s₂, d, hpd, fun pt u h₃ => ?_⟩
    simp only [pagingMap, if_neg h4, h₁, if_neg hpdpt, h₂, if_neg hpd, h₃]
    split <;> rfl

/-- **When `paging_map` comes back**, whatever becomes of the page. -/
theorem pagingMap_eq_ok_iff (haddr : TableStorage.IsTableAddr M s.pml4) (v p : U64) :
    (∃ t, pagingMap s v p = .ok t) ↔ MapReturns s v := by
  by_cases h4 : s.pml4 = 0
  · exact iff_of_true ⟨s, by rw [pagingMap, if_pos h4]⟩ (.inl h4)
  rcases pagingMap_upper haddr h4 v p with ⟨k, pd, t, d, hpd, hret⟩ | ⟨⟨t, ht⟩, hnot, -⟩
  · exact iff_of_true ⟨_, hret _ _ rfl⟩
      (.inr ⟨(d.noNull_iff []).mpr ⟨hpd, noNullTable_nil⟩, d.enoughFrames⟩)
  · refine iff_of_false ?_ hnot
    rintro ⟨u, hu⟩
    rw [ht] at hu
    cases hu

/-- The call is harmless if and only if the tables suffice, on either storage. -/
theorem mapFailOk_iff (haddr : TableStorage.IsTableAddr M s.pml4) (v p : U64) :
    MapFailOk s v p ↔ TablesSuffice s v := by
  by_cases h4 : s.pml4 = 0
  · exact iff_of_true ⟨s, by rw [pagingMap, if_pos h4], fun h => absurd h (lt_irrefl _)⟩ (.inl h4)
  rcases pagingMap_upper haddr h4 v p with ⟨k, pd, s₂, d, hpd, hret⟩ | ⟨⟨t, ht⟩, -, hnot⟩
  swap
  · exact iff_of_false (not_mapFailOk_of_error ht) hnot
  have hnull : NoNullTable M (link s.mem) s.pmm s.pml4 [pml4Idx v, pdptIdx v] :=
    (d.noNull_iff []).mpr ⟨hpd, noNullTable_nil⟩
  rw [TablesSuffice, or_iff_right h4, and_iff_right hnull]
  -- the page table
  rcases getNextTable_step s₂ d.isTableAddr hpd (pdIdx v) with ⟨k₃, pt, s₃, h₃, d₃⟩ | ⟨s₃, h₃, f₃⟩
  · have d' := d.trans d₃ hpd
    refine iff_of_true ⟨_, hret pt s₃ h₃, fun hlt => absurd hlt ?_⟩ d'.enoughFrames.framesFor
    split
    · exact (d'.failures_eq ▸ lt_irrefl _)
    · exact (d'.failures_eq ▸ lt_irrefl _)
  · -- the call returns without the page
    have hret' : pagingMap s v p = .ok s₃ := (hret 0 s₃ h₃).trans (by rw [if_pos rfl])
    have hlt : s.pmm.failures < s₃.pmm.failures := d.failures_eq ▸ f₃.failures_lt
    refine Iff.trans ?_ (d.framesFor_iff_of_fails f₃).symm
    constructor
    · rintro ⟨s', hs', h⟩
      obtain rfl := Except.ok.inj (hret'.symm.trans hs')
      exact h hlt
    · intro h
      exact ⟨s₃, hret', fun _ => h⟩

end Steps

/-- **When `paging_map` survives a failing allocation.** With the tables anywhere in physical
memory, and in every state of it and of the frame allocator, the call dereferences no null table,
and leaves the page map and the bitmap alone when a table cannot be allocated, if and only if the
tables suffice. -/
theorem paging_map_failure_iff (bytes : PhysMem) (pmm : Pmm) (cr3 v p : U64) :
    MapFailOk (pagingAt bytes pmm cr3) v p ↔ TablesSuffice (pagingAt bytes pmm cr3) v := by
  refine mapFailOk_iff ?_ v p
  show cr3 &&& frameMask &&& frameMask = cr3 &&& frameMask
  rw [BitVec.and_assoc, BitVec.and_self]

namespace Sample

/-- The frame allocator has handed out everything, and the `PML4` at 1 MiB is empty. -/
def exhausted : Paging TableBytes :=
  pagingAt (fun _ => 0) { bitmap := fun _ => 0xFF, totalFrames := 2 ^ 20, calls := [] } 0x100000

theorem testBit_exhausted (i : ℕ) : exhausted.pmm.testBit i = true := testBit_allUsed (2 ^ 20) [] i

theorem pmmAllocFrame_exhausted : (pmmAllocFrame exhausted.pmm).1 = 0 := by
  rcases pmmAllocFrame_cases exhausted.pmm with ⟨-, h⟩ | ⟨i, hi, -, -⟩
  · rw [h]
  · have hfree := (Pmm.mem_freeFrames.mp hi).2
    rw [testBit_exhausted] at hfree
    cases hfree

theorem pml4_exhausted : exhausted.pml4 ≠ 0 := by decide

end Sample

/-- **No frame for the first table.** `get_next_table` returns `NULL`, and `paging_map` reads an
entry of the table at `NULL`. -/
theorem paging_map_dereferences_null : ¬ MapFailOk Sample.exhausted 0x10000000 0x200000 :=
  not_mapFailOk_of_error (pagingMap_of_null Sample.pml4_exhausted (link_pagingAt_zero _ _)
    Sample.pmmAllocFrame_exhausted)

end OS44
