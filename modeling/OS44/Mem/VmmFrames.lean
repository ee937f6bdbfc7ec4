import OS44.Mem.MapFrames
import OS44.Mem.VmmRun

/-! # `vmm_alloc` and the last free frames

The loop of `vmm_alloc` asks for a frame a page and gives up when it gets none; the pages and tables
of the rounds before stay. How far it comes is decided by the number of free frames against the
frames that the first `j` pages of the area cost, `framesNeeded`: one a page and one for each table
missing for them.

The loop comes through when all pages are paid for, but also when the very last page table is the
one frame too much (`LastPageLost`): `paging_map` then returns without a word. `vmm_alloc_null_iff`
says when a call that returns `NULL` leaves no trace. -/

namespace OS44

open LinkedTree TableMemory

section Loop

variable {M : Type} [TableMemory M] {s t : Vmm M}

/-- The first rounds of the loop, then the others. -/
theorem allocPages_add (v : U64) (i a b : ℕ) (s : Vmm M) : allocPages v i (a + b) s =
    match allocPages v i a s with
    | .error t => .error t
    | .ok (false, t) => .ok (false, t)
    | .ok (true, t) => allocPages v (i + a) b t := by
  induction a generalizing i s with
  | zero => simp only [Nat.zero_add, allocPages, Nat.add_zero]
  | succ a ih =>
    rw [Nat.add_right_comm]
    rcases hp : allocPage s.paging (v + BitVec.ofNat 64 i * 4096) with p | ⟨f, p⟩
    · simp only [allocPages, hp]
    · by_cases hf : f = 0
      · simp only [allocPages, hp, if_pos hf]
      · simp only [allocPages, hp, if_neg hf, ih]
        rw [Nat.add_assoc, Nat.add_comm 1 a]

/-- One more round. -/
theorem allocPages_succ_of_ok {v : U64} {i j : ℕ} (h : allocPages v i j s = .ok (true, t)) :
    allocPages v i (j + 1) s = allocPages v (i + j) 1 t := by
  rw [allocPages_add, h]

/-- A loop that came through came through its first rounds. -/
theorem exists_allocPages_of_succ {v : U64} {i j : ℕ}
    (h : allocPages v i (j + 1) s = .ok (true, t)) : ∃ u f p, allocPages v i j s = .ok (true, u) ∧
      allocPage u.paging (v + BitVec.ofNat 64 (i + j) * 4096) = .ok (f, p) ∧ f ≠ 0 ∧
      t.paging = p := by
  rw [allocPages_add] at h
  split at h
  · cases h
  · cases h
  · next u hu =>
    rcases hp : allocPage u.paging (v + BitVec.ofNat 64 (i + j) * 4096) with p | ⟨f, p⟩ <;>
      simp only [allocPages, hp] at h
    · cases h
    · split_ifs at h with hf
      · cases h
      · refine ⟨u, f, p, hu, hp, hf, ?_⟩
        rw [← (Prod.mk.inj (Except.ok.inj h)).2]

/-- **Where the loop gives up**: after some rounds that it came through, at a page for which there
is no frame. -/
theorem exists_allocPages_of_false {v : U64} {i n : ℕ} (h : allocPages v i n s = .ok (false, t)) :
    ∃ j < n, ∃ u, allocPages v i j s = .ok (true, u) ∧ (pmmAllocFrame u.paging.pmm).1 = 0 ∧
      t = { u with paging := { u.paging with pmm := (pmmAllocFrame u.paging.pmm).2 } } := by
  induction n generalizing i s with
  | zero => cases h
  | succ n ih =>
    rcases hp : allocPage s.paging (v + BitVec.ofNat 64 i * 4096) with p | ⟨f, p⟩
    · simp only [allocPages, hp] at h
      cases h
    by_cases hf : f = 0
    · have h0 : (pmmAllocFrame s.paging.pmm).1 = 0 := (fst_allocPage hp).symm.trans hf
      simp only [allocPages, hp, if_pos hf] at h
      refine ⟨0, by omega, s, rfl, h0, ?_⟩
      rw [← (Prod.mk.inj (Except.ok.inj h)).2]
      simp only [allocPage, if_pos h0] at hp
      rw [(Prod.mk.inj (Except.ok.inj hp)).2]
    · have hround : ∀ m, allocPages v i (m + 1) s = allocPages v (i + 1) m { s with
          paging := p
          handed := (v + BitVec.ofNat 64 i * 4096, f) :: s.handed } := fun m => by
        simp only [allocPages, hp, if_neg hf]
      rw [hround] at h
      obtain ⟨j, hj, u, hu, hu0, ht⟩ := ih h
      exact ⟨j + 1, by omega, u, by rw [hround, hu], hu0, ht⟩

/-- A loop gives up where it finds no frame. -/
theorem allocPages_eq_false {v : U64} {i j n : ℕ} (hj : j < n)
    (h : allocPages v i j s = .ok (true, t)) (h0 : (pmmAllocFrame t.paging.pmm).1 = 0) :
    allocPages v i n s = .ok (false,
      { t with paging := { t.paging with pmm := (pmmAllocFrame t.paging.pmm).2 } }) := by
  obtain ⟨m, rfl⟩ : ∃ m, n = j + (m + 1) := ⟨n - j - 1, by omega⟩
  rw [allocPages_add, h]
  simp only [allocPages, allocPage, if_pos h0, if_true]

/-- Every round that comes through takes a frame. -/
theorem card_freeFrames_allocPages {v : U64} {i n : ℕ} (h : allocPages v i n s = .ok (true, t)) :
    t.paging.pmm.freeFrames.card + n ≤ s.paging.pmm.freeFrames.card := by
  induction n generalizing t with
  | zero =>
    obtain rfl : s = t := (Prod.mk.inj (Except.ok.inj h)).2
    exact le_rfl
  | succ n ih =>
    obtain ⟨u, f, p, hu, hp, hf, ht⟩ := exists_allocPages_of_succ h
    have := ih hu
    have := card_freeFrames_allocPage_lt hp hf
    rw [ht]
    omega

/-- `pmm_alloc_frame` returns `NULL` if nothing is free, or if frame 0 is. -/
theorem pmmAllocFrame_eq_zero_iff {s : Pmm} :
    (pmmAllocFrame s).1 = 0 ↔ s.freeFrames = ∅ ∨ 0 ∈ s.freeFrames := by
  rcases pmmAllocFrame_cases s with ⟨hempty, h⟩ | ⟨i, hi, hmin, h⟩
  · exact iff_of_true (by rw [h]) (.inl hempty)
  · have hne : s.freeFrames ≠ ∅ := Finset.ne_empty_of_mem hi
    rw [h, or_iff_right hne]
    constructor
    · intro h0
      by_contra hmem
      have hi0 : i ≠ 0 := by
        rintro rfl
        exact hmem hi
      exact frameAddr_ne_zero (Pmm.lt_of_mem_freeFrames hi) hi0 h0
    · intro hmem
      obtain rfl : i = 0 := Nat.le_zero.mp (hmin 0 hmem)
      rfl

end Loop

/-! ## The cost of an area -/

section Cost

variable {M : Type} [TableMemory M] {base : U64} {j : ℕ}

/-- The first `j` pages of the area at `base`. -/
def areaPages (base : U64) (j : ℕ) : Finset (Fin (2 ^ 36)) := (Finset.range j).image (areaPage base)

/-- **The frames that the first `j` pages of an area cost**: one each, and one for each table that
is missing for them. -/
def framesNeeded (s : Paging M) (base : U64) (j : ℕ) : ℕ :=
  j + (missingTables s (areaPages base j)).card

/-- The frames are used up by the table of the last of `j` pages, which is one too much. -/
def LastPageLost (s : Paging M) (base : U64) (j : ℕ) : Prop :=
  framesNeeded s base j = s.pmm.freeFrames.card + 1 ∧
    framesNeeded s base (j - 1) + 2 ≤ framesNeeded s base j

theorem areaPages_succ (base : U64) (j : ℕ) :
    areaPages base (j + 1) = insert (areaPage base j) (areaPages base j) := by
  rw [areaPages, Finset.range_add_one, Finset.image_insert, ← areaPages]

theorem mem_areaPages {m : Fin (2 ^ 36)} : m ∈ areaPages base j ↔ ∃ i < j, areaPage base i = m := by
  simp [areaPages]

theorem framesNeeded_lt_succ (s : Paging M) (base : U64) (j : ℕ) :
    framesNeeded s base j < framesNeeded s base (j + 1) := by
  have hsub : missingTables s (areaPages base j) ⊆ missingTables s (areaPages base (j + 1)) := by
    rw [areaPages_succ]
    exact Finset.biUnion_subset_biUnion_of_subset_left _ (Finset.subset_insert _ _)
  have := Finset.card_le_card hsub
  unfold framesNeeded
  omega

theorem framesNeeded_strictMono (s : Paging M) (base : U64) : StrictMono (framesNeeded s base) :=
  strictMono_nat_of_lt_succ (framesNeeded_lt_succ s base)

@[simp] theorem framesNeeded_zero (s : Paging M) (base : U64) :
    framesNeeded s base 0 = 0 := rfl

/-- In empty tables the first page costs four frames. -/
theorem framesNeeded_of_empty {s : Paging M} (h : ∀ a i, link s.mem a i = none) (base : U64) :
    framesNeeded s base 1 = 4 := by
  have hone : areaPages base 1 = {areaPage base 0} := by
    rw [areaPages, Finset.range_one, Finset.image_singleton]
  obtain ⟨i, j, k, hpath⟩ : ∃ i j k, tablePath (areaPage base 0) = [i, j, k] :=
    ⟨_, _, _, tablePath_pageOf _⟩
  have hw : walk (link s.mem) s.pml4 ([] ++ [i]) = none := by
    rw [List.nil_append, walk_cons, h, Option.bind_none]
  have hcost := card_missingOn_append hw [j, k]
  rw [missingOn_nil, Finset.card_empty] at hcost
  rw [framesNeeded, hone, missingTables_singleton, hpath]
  exact congrArg (1 + ·) hcost

end Cost

variable {s t : Paging TableHeap} {base : U64} {j : ℕ}

/-- **What the loop has done after `j` rounds** that found their frames: the first `j` pages are
mapped to frames that were free, and the frames and tables it has taken are those needed. -/
structure Filled (s : Paging TableHeap) (base : U64) (j : ℕ) (t : Paging TableHeap) : Prop where
  tree : PageTree t
  used_mono : ∀ k, s.pmm.testBit k = true → t.pmm.testBit k = true
  walk_none : ∀ r, r.length ≤ 3 → (walk (link t.mem) t.pml4 r = none ↔
    walk (link s.mem) s.pml4 r = none ∧ ¬ ∃ n ∈ areaPages base j, r <+: tablePath n)
  free_eq : s.pmm.freeFrames.card =
    t.pmm.freeFrames.card + framesNeeded s base j
  mapped : ∀ n ∈ areaPages base j, ∃ k < 2 ^ 20, t.pageFrame n = some (frameAddr k) ∧
    s.pmm.testBit k = false ∧ t.pmm.testBit k = true

theorem Filled.refl (h : PageTree s) (base : U64) : Filled s base 0 s where
  tree := h
  used_mono _ h := h
  walk_none r _ := by
    rw [areaPages, Finset.range_zero, Finset.image_empty]
    simp
  free_eq := rfl
  mapped n hn := by
    rw [areaPages, Finset.range_zero, Finset.image_empty] at hn
    exact absurd hn (Finset.notMem_empty n)

/-- The next page costs a frame and the tables that are still missing for it. -/
theorem Filled.framesNeeded_succ (h : Filled s base j t) : framesNeeded s base (j + 1) =
    framesNeeded s base j + 1 +
      (missingOn t (tablePath (areaPage base j))).card := by
  have hunion : missingTables s (areaPages base (j + 1)) =
      missingTables s (areaPages base j) ∪
        missingOn t (tablePath (areaPage base j)) := by
    ext r
    rw [Finset.mem_union, mem_missingTables, mem_missingTables, mem_missingOn, areaPages_succ]
    simp only [Finset.mem_insert, exists_eq_or_imp]
    constructor
    · rintro ⟨hr, hw⟩
      by_cases hold : ∃ n ∈ areaPages base j, r <+: tablePath n
      · exact .inl ⟨hold, hw⟩
      · have hr' := hr.resolve_right hold
        exact .inr ⟨hr', (h.walk_none r hr'.length_le).mpr ⟨hw, hold⟩⟩
    · rintro (⟨hr, hw⟩ | ⟨hr, hw⟩)
      · exact ⟨.inr hr, hw⟩
      · exact ⟨.inl hr, ((h.walk_none r hr.length_le).mp hw).1⟩
  have hdisj : Disjoint (missingTables s (areaPages base j))
      (missingOn t (tablePath (areaPage base j))) := by
    -- a table needed before is not missing any more
    rw [Finset.disjoint_left]
    intro r hr hr'
    obtain ⟨hrt, hw⟩ := mem_missingOn.mp hr'
    exact ((h.walk_none r hrt.length_le).mp hw).2 (mem_missingTables.mp hr).1
  rw [framesNeeded, hunion, Finset.card_union_of_disjoint hdisj, framesNeeded]
  omega

/-- One more round. -/
theorem Filled.step {p : Paging TableHeap} {k : ℕ} (h : Filled s base j t)
    (hp : FillsPage t (base + BitVec.ofNat 64 j * 4096) k p) : Filled s base (j + 1) p where
  tree := hp.tree
  used_mono m hm := hp.used_mono m (h.used_mono m hm)
  walk_none r hr := by
    rw [hp.walk_none r hr, h.walk_none r hr, areaPages_succ]
    simp only [Finset.mem_insert, exists_eq_or_imp, areaPage, not_or]
    constructor
    · rintro ⟨⟨hw, hold⟩, hnew⟩
      exact ⟨hw, hnew, hold⟩
    · rintro ⟨hw, hnew, hold⟩
      exact ⟨⟨hw, hold⟩, hnew⟩
  free_eq := by
    -- what this page costs in the state reached is what it adds to the frames needed
    have hstep := h.framesNeeded_succ
    have hfree := hp.free_eq
    rw [h.free_eq, hstep]
    simp only [areaPage] at hfree ⊢
    omega
  mapped n hn := by
    rw [hp.pageFrame_eq]
    split
    · refine ⟨k, hp.lt, rfl, ?_, hp.used⟩
      -- a frame that is free now was free at the start
      by_contra hc
      rw [Bool.not_eq_false] at hc
      have := h.used_mono k hc
      rw [hp.free] at this
      cases this
    · next hne =>
      rw [areaPages_succ, Finset.mem_insert] at hn
      obtain ⟨m, hm, hf, hfree, hused⟩ := h.mapped n (hn.resolve_left hne)
      exact ⟨m, hm, hf, hfree, hp.used_mono m hused⟩

/-! ## How far the loop comes -/

section Rounds

variable {s : Vmm TableHeap} {n : ℕ} (h : PageTree s.paging)
  (hz : s.paging.pmm.testBit 0 = true)
include h hz

/-- **With the frames it needs the loop comes through.** -/
theorem exists_filled (base : U64)
    (hle : framesNeeded s.paging base j ≤ s.paging.pmm.freeFrames.card) :
    ∃ t, allocPages base 0 j s = .ok (true, t) ∧ Filled s.paging base j t.paging := by
  induction j with
  | zero => exact ⟨s, rfl, .refl h base⟩
  | succ j ih =>
    have hlt := framesNeeded_lt_succ s.paging base j
    obtain ⟨t, ht, hf⟩ := ih (by omega)
    have hstep := hf.framesNeeded_succ
    have hfree := hf.free_eq
    -- of the four outcomes of a round only the one with enough frames fits the count
    rcases hf.tree.allocPage_frames (hf.used_mono 0 hz) (base + BitVec.ofNat 64 j * 4096) with
      ⟨hempty, -⟩ | ⟨-, k, p, hp, hfill⟩ | ⟨-, hm, -⟩ | ⟨-, hm, -⟩
    · rw [hempty, Finset.card_empty] at hfree
      omega
    · refine ⟨{ t with
        paging := p, handed := (base + BitVec.ofNat 64 j * 4096, frameAddr k) :: t.handed }, ?_,
        hf.step hfill⟩
      have hk := frameAddr_ne_zero hfill.lt hfill.ne_zero
      rw [allocPages_succ_of_ok ht, Nat.zero_add]
      simp only [allocPages, hp, if_neg hk]
    · simp only [areaPage] at hstep
      omega
    · simp only [areaPage] at hstep
      omega

/-- **When the last table is the one frame too much** the loop comes through as well: nothing is
free then, and the last page is not mapped. -/
theorem exists_lost (base : U64) (hl : LastPageLost s.paging base j) :
    ∃ t, allocPages base 0 j s = .ok (true, t) ∧ t.paging.pmm.freeFrames = ∅ ∧
      t.paging.pageFrame (areaPage base (j - 1)) = none := by
  obtain ⟨hj, hj'⟩ := hl
  obtain ⟨i, rfl⟩ : ∃ i, j = i + 1 := by
    cases j with
    | zero => rw [framesNeeded_zero] at hj; omega
    | succ i => exact ⟨i, rfl⟩
  rw [Nat.add_sub_cancel] at hj' ⊢
  obtain ⟨t, ht, hf⟩ := exists_filled h hz base (j := i) (by omega)
  have hstep := hf.framesNeeded_succ
  have hfree := hf.free_eq
  simp only [areaPage] at hstep
  -- in the last round as many frames are left as tables are missing
  rcases hf.tree.allocPage_frames (hf.used_mono 0 hz) (base + BitVec.ofNat 64 i * 4096) with
    ⟨hempty, -⟩ | ⟨hm, -⟩ | ⟨-, -, a, p, hp, ha, hempty, hnone⟩ | ⟨-, hm, -⟩
  · rw [hempty, Finset.card_empty] at hfree
    omega
  · omega
  · refine ⟨{ t with
      paging := p, handed := (base + BitVec.ofNat 64 i * 4096, a) :: t.handed }, ?_, hempty, hnone⟩
    rw [allocPages_succ_of_ok ht, Nat.zero_add]
    simp only [allocPages, hp, if_neg ha]
  · omega

/-- **When the frames are used up on the way**, or the last table of a page before the last is the
one frame too much, the loop gives up. -/
theorem exists_refused (base : U64) (hj : j < n)
    (hpaid : framesNeeded s.paging base j = s.paging.pmm.freeFrames.card ∨
      framesNeeded s.paging base j = s.paging.pmm.freeFrames.card + 1) :
    ∃ t, allocPages base 0 n s = .ok (false, t) := by
  have hgive : ∀ i < n, ∀ t, allocPages base 0 i s = .ok (true, t) →
      t.paging.pmm.freeFrames.card = 0 → ∃ t, allocPages base 0 n s = .ok (false, t) :=
    fun i hi t ht hnone => ⟨_, allocPages_eq_false hi ht
      (pmmAllocFrame_eq_zero_iff.mpr (.inl (Finset.card_eq_zero.mp hnone)))⟩
  have hexact : ∀ i < n, framesNeeded s.paging base i = s.paging.pmm.freeFrames.card →
      ∃ t, allocPages base 0 n s = .ok (false, t) := fun i hi hcost => by
    obtain ⟨t, ht, hf⟩ := exists_filled h hz base hcost.le
    have hfree := hf.free_eq
    exact hgive i hi t ht (by omega)
  rcases hpaid with hcost | hcost
  · exact hexact j hj hcost
  · obtain ⟨i, rfl⟩ : ∃ i, j = i + 1 := by
      cases j with
      | zero => rw [framesNeeded_zero] at hcost; omega
      | succ i => exact ⟨i, rfl⟩
    have hlt := framesNeeded_lt_succ s.paging base i
    by_cases hi : framesNeeded s.paging base i = s.paging.pmm.freeFrames.card
    · exact hexact i (by omega) hi
    · obtain ⟨t, ht, hnone, -⟩ := exists_lost h hz base (j := i + 1)
        ⟨hcost, by rw [Nat.add_sub_cancel]; omega⟩
      exact hgive (i + 1) hj t ht (by rw [hnone, Finset.card_empty])

/-- **When more than one table is too much**, `paging_map` dereferences `NULL`. -/
theorem exists_faults (base : U64)
    (hpaid : ∀ j < n, framesNeeded s.paging base j ≠ s.paging.pmm.freeFrames.card ∧
      framesNeeded s.paging base j ≠ s.paging.pmm.freeFrames.card + 1)
    (hmore : s.paging.pmm.freeFrames.card + 1 < framesNeeded s.paging base n) :
    ∃ t, allocPages base 0 n s = .error t := by
  induction n with
  | zero =>
    rw [framesNeeded_zero] at hmore
    omega
  | succ n ih =>
    by_cases hn : s.paging.pmm.freeFrames.card + 1 < framesNeeded s.paging base n
    · obtain ⟨t, ht⟩ := ih (fun j hj => hpaid j (by omega)) hn
      exact ⟨t, by rw [allocPages_add, ht]⟩
    · -- this is the round with too few frames
      have hexact := hpaid n (Nat.lt_succ_self n)
      obtain ⟨t, ht, hf⟩ := exists_filled h hz base (j := n) (by omega)
      have hstep := hf.framesNeeded_succ
      have hfree := hf.free_eq
      simp only [areaPage] at hstep
      rcases hf.tree.allocPage_frames (hf.used_mono 0 hz) (base + BitVec.ofNat 64 n * 4096) with
        ⟨hempty, -⟩ | ⟨hm, -⟩ | ⟨-, hm, -⟩ | ⟨-, -, p, hp⟩
      · rw [hempty, Finset.card_empty] at hfree
        omega
      · omega
      · omega
      · refine ⟨{ t with paging := p }, ?_⟩
        rw [allocPages_succ_of_ok ht, Nat.zero_add]
        simp only [allocPages, hp]

/-- **The four ends of the loop**, by the frames that the first pages cost: it comes through with
every page mapped; or with the last one lost; or it gives up; or it does not come back. -/
theorem allocPages_cases (base : U64) (n : ℕ) :
    (framesNeeded s.paging base n ≤ s.paging.pmm.freeFrames.card ∧
      ∃ t, allocPages base 0 n s = .ok (true, t) ∧ Filled s.paging base n t.paging) ∨
    (LastPageLost s.paging base n ∧ ∃ t, allocPages base 0 n s = .ok (true, t) ∧
      t.paging.pageFrame (areaPage base (n - 1)) = none) ∨
    ((∃ j < n, framesNeeded s.paging base j = s.paging.pmm.freeFrames.card ∨
        framesNeeded s.paging base j = s.paging.pmm.freeFrames.card + 1) ∧
      ∃ t, allocPages base 0 n s = .ok (false, t)) ∨
    (((∀ j < n, framesNeeded s.paging base j ≠ s.paging.pmm.freeFrames.card ∧
        framesNeeded s.paging base j ≠ s.paging.pmm.freeFrames.card + 1) ∧
      s.paging.pmm.freeFrames.card + 1 < framesNeeded s.paging base n) ∧
      ∃ t, allocPages base 0 n s = .error t) := by
  by_cases hle : framesNeeded s.paging base n ≤ s.paging.pmm.freeFrames.card
  · exact .inl ⟨hle, exists_filled h hz base hle⟩
  by_cases hpaid : ∃ j < n, framesNeeded s.paging base j = s.paging.pmm.freeFrames.card ∨
      framesNeeded s.paging base j = s.paging.pmm.freeFrames.card + 1
  · obtain ⟨j, hj, hcost⟩ := hpaid
    exact .inr (.inr (.inl ⟨⟨j, hj, hcost⟩, exists_refused h hz base hj hcost⟩))
  push Not at hpaid
  by_cases hmore : s.paging.pmm.freeFrames.card + 1 < framesNeeded s.paging base n
  · exact .inr (.inr (.inr ⟨⟨hpaid, hmore⟩, exists_faults h hz base hpaid hmore⟩))
  · obtain ⟨i, rfl⟩ : ∃ i, n = i + 1 := by
      cases n with
      | zero => rw [framesNeeded_zero] at hle; omega
      | succ i => exact ⟨i, rfl⟩
    have hlt := framesNeeded_lt_succ s.paging base i
    have hi := hpaid i (Nat.lt_succ_self i)
    have hl : LastPageLost s.paging base (i + 1) := by
      rw [LastPageLost, Nat.add_sub_cancel]
      omega
    obtain ⟨t, ht, -, hnone⟩ := exists_lost h hz base hl
    exact .inr (.inl ⟨hl, t, ht, hnone⟩)

end Rounds

namespace Sample

/-- Every other frame from frame 2048 on is free, `k` of them, and no others. -/
def sparsePmm (k : ℕ) : Pmm where
  bitmap := fun i =>
    if 256 ≤ i.val then
      0xFF ^^^ (0x55 &&& ((1 <<< (2 * min 4 (k - 4 * (i.val - 256)))) - 1))
    else 0xFF
  totalFrames := 2 ^ 20
  calls := []

theorem testBit_sparsePmm {k : ℕ} (hk : k ≤ 2 ^ 18) (i : ℕ) :
    (sparsePmm k).testBit i = false ↔ 2048 ≤ i ∧ i < 2048 + 2 * k ∧ i % 2 = 0 := by
  by_cases hi : i < 2 ^ 20
  · rw [Pmm.testBit_eq_getLsbD hi]
    have hbyte : ∀ c ≤ 4, ∀ m < 8, (0xFF ^^^ (0x55 &&& ((1 <<< (2 * c)) - 1)) : U8).getLsbD m =
        !decide (m < 2 * c ∧ m % 2 = 0) := by decide
    have hfull : ∀ m < 8, (0xFF : U8).getLsbD m = true := by decide
    have hm : i % 8 < 8 := Nat.mod_lt i (by decide)
    have hval : (Pmm.byteIndex i hi : ℕ) = i / 8 := rfl
    simp only [sparsePmm, hval]
    split
    · next hle =>
      rw [hbyte _ (min_le_left _ _) _ hm, Bool.not_eq_false', decide_eq_true_iff]
      omega
    · next hlt =>
      rw [hfull _ hm]
      refine iff_of_false (by simp) ?_
      omega
  · rw [Pmm.testBit_of_le (by omega)]
    refine iff_of_false (by simp) ?_
    omega

theorem used_sparsePmm {k i : ℕ} (hk : k ≤ 2 ^ 18) (hi : i < 2048) :
    (sparsePmm k).testBit i = true := by
  by_contra h
  rw [Bool.not_eq_true, testBit_sparsePmm hk] at h
  omega

theorem card_sparsePmm {k : ℕ} (hk : k ≤ 2 ^ 18) : (sparsePmm k).freeFrames.card = k := by
  have hfree : (sparsePmm k).freeFrames = (Finset.range k).image fun j => 2048 + 2 * j := by
    ext i
    rw [Pmm.mem_freeFrames, testBit_sparsePmm hk, Finset.mem_image]
    simp only [sparsePmm, Finset.mem_range]
    constructor
    · rintro ⟨-, h⟩
      exact ⟨(i - 2048) / 2, by omega, by omega⟩
    · rintro ⟨j, hj, rfl⟩
      omega
  have hinj : Function.Injective fun j => 2048 + 2 * j := fun i j hij => by
    have : 2048 + 2 * i = 2048 + 2 * j := hij
    omega
  rw [hfree, Finset.card_image_of_injective _ hinj, Finset.card_range]

end Sample

end OS44
