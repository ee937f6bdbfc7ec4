import OS44.Mem.PagingMap
import OS44.Mem.Vmm

/-! # One page of an area

What a round of the loop of `vmm_alloc` and a round of the loop of `vmm_free` do to a well-formed
paging state (`AllocsPage`, `FreesPage`), and the invariant that both keep: the pages `P` of the
live areas are backed by used frames of their own, none of which holds a table (`PagesOk`). -/

namespace OS44

open LinkedTree TableMemory

variable {s s' : Paging TableHeap} {v b f : U64} {k : ℕ} {n : Fin (2 ^ 36)}
  {P : Fin (2 ^ 36) → Prop}

/-- Only the frames of the tables must be in use for a state to be well formed. -/
theorem WellFormed.withPmm (h : WellFormed s) {pmm : Pmm}
    (hused : ∀ a, s.IsTable a → pmm.testBit (frameOf a) = true) :
    WellFormed { s with pmm := pmm } where
  root_aligned := h.root_aligned
  tree := h.tree
  ne_zero := h.ne_zero
  used := hused
  counted := h.counted
  nonempty := h.nonempty

/-- A frame is a table's frame only if the table is at its address. -/
theorem PageTree.frameOf_ne (h : PageTree s) (hk : k < 2 ^ 20) (hnt : ¬ s.IsTable (frameAddr k))
    (hb : s.IsTable b) : frameOf b ≠ k := by
  intro he
  have := h.frameOf_inj hb (frameAddr_aligned hk) (by rw [he, frameOf_frameAddr hk])
  exact hnt (this ▸ hb)

/-! ## Allocating a page -/

/-- **A frame has been taken**: the frame `k`, which was free; only its bit has changed. -/
structure TakesFrame (p : Pmm) (k : ℕ) (p' : Pmm) : Prop where
  lt : k < 2 ^ 20
  ne_zero : k ≠ 0
  free : p.testBit k = false
  testBit_eq : ∀ j, p'.testBit j = (p.testBit j || decide (j = k))
  card_free : p'.freeFrames.card + 1 = p.freeFrames.card
  failures_eq : p'.failures = p.failures
  total_eq : p'.totalFrames = p.totalFrames

namespace TakesFrame

variable {p p' : Pmm}

theorem used (h : TakesFrame p k p') : p'.testBit k = true := by
  rw [h.testBit_eq]
  simp

theorem used_mono (h : TakesFrame p k p') {j : ℕ} (hj : p.testBit j = true) :
    p'.testBit j = true := by
  rw [h.testBit_eq, hj, Bool.true_or]

/-- The tables of a well-formed state stay in used frames. -/
theorem wellFormed (hk : TakesFrame s.pmm k p') (h : WellFormed s) :
    WellFormed { s with pmm := p' } :=
  h.withPmm fun a ha => hk.used_mono (h.used a ha)

end TakesFrame

theorem takesFrame_pmmAllocFrame {p : Pmm} (h0 : (pmmAllocFrame p).1 ≠ 0) :
    ∃ k, (pmmAllocFrame p).1 = frameAddr k ∧ TakesFrame p k (pmmAllocFrame p).2 := by
  obtain ⟨k, hk, hk0, hfk, hfree, hbits⟩ := pmmAllocFrame_ne_zero h0
  have hlt := card_freeFrames_pmmAllocFrame_lt h0
  have hle : p.freeFrames.card ≤ (pmmAllocFrame p).2.freeFrames.card + 1 := by
    rw [freeFrames_pmmAllocFrame]
    exact FirstFit.card_le_card_takeFirst _
  refine ⟨k, hfk, hk, hk0, hfree, hbits, by omega, ?_, totalFrames_pmmAllocFrame _⟩
  rw [failures_pmmAllocFrame, if_neg h0, Nat.add_zero]

/-- **A round of the loop of `vmm_alloc`**: there is no frame for the page, or the page is mapped to
the frame `k` as far as `paging_map` comes. -/
theorem allocPage_cases (s : Paging TableHeap) (v : U64) :
    ((pmmAllocFrame s.pmm).1 = 0 ∧
      allocPage s v = .ok (0, { s with pmm := (pmmAllocFrame s.pmm).2 })) ∨
    ∃ k pmm, TakesFrame s.pmm k pmm ∧
      (∀ t, OS44.pagingMap { s with pmm := pmm } v (frameAddr k) = .ok t →
        allocPage s v = .ok (frameAddr k, t)) ∧
      ∀ t, OS44.pagingMap { s with pmm := pmm } v (frameAddr k) = .error t →
        allocPage s v = .error t := by
  by_cases h0 : (pmmAllocFrame s.pmm).1 = 0
  · refine .inl ⟨h0, ?_⟩
    simp only [allocPage, if_pos h0]
  · obtain ⟨k, hfk, hk⟩ := takesFrame_pmmAllocFrame h0
    refine .inr ⟨k, _, hk, fun t ht => ?_, fun t ht => ?_⟩ <;> rw [← hfk] at ht
    · rw [← hfk]
      simp only [allocPage, if_neg h0, ht]
    · simp only [allocPage, if_neg h0, ht]

/-- What a round of the loop of `vmm_alloc` leaves: the page of `v` mapped to the frame `k`, which
was free, and possibly new tables. -/
structure AllocsPage (s : Paging TableHeap) (v : U64) (k : ℕ) (s' : Paging TableHeap) : Prop where
  lt : k < 2 ^ 20
  ne_zero : k ≠ 0
  free : s.pmm.testBit k = false
  used : s'.pmm.testBit k = true
  not_table : ¬ s'.IsTable (frameAddr k)
  wf : WellFormed s'
  pageFrame_eq : ∀ n, s'.pageFrame n = if n = pageOf v then some (frameAddr k) else s.pageFrame n
  used_mono : ∀ j, s.pmm.testBit j = true → s'.pmm.testBit j = true
  taken : ∀ j, s.pmm.testBit j = false → s'.pmm.testBit j = true →
    j = k ∨ ∃ b, s'.IsTable b ∧ frameOf b = j
  walk_mono : ∀ p b, p.length ≤ 3 → walk (link s.mem) s.pml4 p = some b →
    walk (link s'.mem) s'.pml4 p = some b
  isTable_new : ∀ b, s'.IsTable b → s.IsTable b ∨ s.pmm.testBit (frameOf b) = false
  pml4_eq : s'.pml4 = s.pml4
  failures_eq : s'.pmm.failures = s.pmm.failures
  total_eq : s'.pmm.totalFrames = s.pmm.totalFrames
  card_free_le : s.pmm.freeFrames.card ≤ s'.pmm.freeFrames.card + 4

/-- The frame of the page is no table: it was free, and it was taken before the tables were. -/
theorem TakesFrame.not_isTable {pmm : Pmm} {t : Paging TableHeap} (hk : TakesFrame s.pmm k pmm)
    (h : WellFormed s) (hg : Grows { s with pmm := pmm } t) : ¬ t.IsTable (frameAddr k) := by
  intro hnt
  rcases hg.isTable_new _ hnt with hb | hb
  · have := h.used _ hb
    rw [frameOf_frameAddr hk.lt, hk.free] at this
    cases this
  · rw [frameOf_frameAddr hk.lt] at hb
    exact absurd hk.used (by simp [hb])

/-- A frame is taken, and then the page is mapped to it. -/
theorem TakesFrame.allocsPage {pmm : Pmm} {t : Paging TableHeap} (hk : TakesFrame s.pmm k pmm)
    (h : WellFormed s) (hm : Maps { s with pmm := pmm } v (frameAddr k) t) :
    AllocsPage s v k t where
  lt := hk.lt
  ne_zero := hk.ne_zero
  free := hk.free
  used := hm.grows.used_mono k hk.used
  not_table := hk.not_isTable h hm.grows
  wf := hm.wellFormed (hk.wellFormed h)
  pageFrame_eq := by
    intro n
    rw [hm.pageFrame_eq, frameAddr_aligned hk.lt]
    rfl
  used_mono := fun j hj => hm.grows.used_mono j (hk.used_mono hj)
  taken := by
    intro j hj hj'
    by_cases hjk : j = k
    · exact .inl hjk
    · exact .inr (hm.grows.taken j (by rw [hk.testBit_eq, hj]; simp [hjk]) hj')
  walk_mono := hm.grows.walk_mono
  isTable_new := by
    intro b hb
    rcases hm.grows.isTable_new b hb with hb | hb
    · exact .inl hb
    · rw [hk.testBit_eq, Bool.or_eq_false_iff] at hb
      exact .inr hb.1
  pml4_eq := hm.grows.pml4_eq
  failures_eq := hm.grows.failures_eq.trans hk.failures_eq
  total_eq := hm.grows.total_eq.trans hk.total_eq
  card_free_le := by
    have hfree : pmm.freeFrames.card ≤ t.pmm.freeFrames.card + 3 := hm.card_free
    have := hk.card_free
    omega

/-- **A round of the loop of `vmm_alloc` maps a page**, unless an allocation fails in it. -/
theorem WellFormed.allocPage (h : WellFormed s) (v : U64) :
    (s.pmm.failures < (endPage (allocPage s v)).pmm.failures ∧
      (s.pmm.testBit 0 = true → s.pmm.freeFrames.card < 4)) ∨
    ∃ k s', allocPage s v = .ok (frameAddr k, s') ∧ AllocsPage s v k s' := by
  rcases allocPage_cases s v with ⟨h0, hpage⟩ | ⟨k, pmm, hk, hok, herror⟩
  · -- no frame for the page
    refine .inl ⟨?_, ?_⟩
    · rw [hpage, endPage, failures_pmmAllocFrame, if_pos h0]
      exact Nat.lt_succ_self _
    · intro hz
      rw [freeFrames_eq_empty_of_null h0 hz, Finset.card_empty]
      omega
  have h₁ := hk.wellFormed h
  rcases h₁.toPageTree.pagingMap v (frameAddr k) with ⟨t, ht, hlt, hfew⟩ | ⟨t, ht, hm⟩
  · -- no frame for a table on the way
    refine .inl ⟨?_, ?_⟩
    · have hend : endPage (OS44.allocPage s v) = t := by
        rcases ht with ht | ht
        exacts [congrArg endPage (hok t ht), congrArg endPage (herror t ht)]
      rw [hend, ← hk.failures_eq]
      exact hlt
    · intro hz
      have hfew' : pmm.freeFrames.card ≤ 2 := hfew (hk.used_mono hz)
      have := hk.card_free
      omega
  · exact .inr ⟨k, t, hok t ht, hk.allocsPage h hm⟩

/-- A round takes at least one frame. -/
theorem AllocsPage.card_free (h : AllocsPage s v k s') (hk : k < s.pmm.totalFrames) :
    s'.pmm.freeFrames.card < s.pmm.freeFrames.card := by
  refine Finset.card_lt_card ⟨?_, ?_⟩
  · intro j hj
    rw [Pmm.mem_freeFrames] at hj ⊢
    refine ⟨h.total_eq ▸ hj.1, ?_⟩
    by_contra hc
    rw [Bool.not_eq_false] at hc
    exact absurd hj.2 (Bool.not_eq_false _ ▸ h.used_mono j hc)
  · intro hsub
    have := (Pmm.mem_freeFrames.mp (hsub (Pmm.mem_freeFrames.mpr ⟨hk, h.free⟩))).2
    rw [h.used] at this
    cases this

/-! ## Freeing a page -/

/-- What a round of the loop of `vmm_free` leaves: the page of `v` unmapped and its frame `k` free,
and possibly some tables freed. -/
structure FreesPage (s : Paging TableHeap) (v : U64) (k : ℕ) (s' : Paging TableHeap) : Prop where
  wf : WellFormed s'
  pageFrame_eq : ∀ n, s'.pageFrame n = if n = pageOf v then none else s.pageFrame n
  freed : s'.pmm.testBit k = false
  used_of : ∀ j, s'.pmm.testBit j = true → s.pmm.testBit j = true
  used_keep : ∀ j, s.pmm.testBit j = true → j ≠ k → (∀ b, s.IsTable b → frameOf b ≠ j) →
    s'.pmm.testBit j = true
  lost_free : ∀ b, s.IsTable b → frameOf b < 2 ^ 20 →
    s'.IsTable b ∨ s'.pmm.testBit (frameOf b) = false
  walk_of : ∀ p b, p.length ≤ 3 → walk (link s'.mem) s'.pml4 p = some b →
    walk (link s.mem) s.pml4 p = some b
  pml4_eq : s'.pml4 = s.pml4
  failures_eq : s'.pmm.failures = s.pmm.failures
  total_eq : s'.pmm.totalFrames = s.pmm.totalFrames

/-- The frame of a physical address. -/
theorem physicalOf_and_frameMask (ha : f &&& frameMask = f) (v : U64) :
    physicalOf v (some f) &&& frameMask = f := by
  have h0 : (0xFFF : U64) &&& frameMask = 0 := by decide
  rw [physicalOf, BitVec.and_or_distrib_right, ha, BitVec.and_assoc, h0]
  simp

/-- The page is mapped, so that it is unmapped, and the frame that is given back is its own. -/
theorem WellFormed.freePage_eq (h : WellFormed s) (hk : k < 2 ^ 20) (hk0 : k ≠ 0)
    (hf : s.pageFrame (pageOf v) = some (frameAddr k)) :
    OS44.freePage s v = { OS44.pagingUnmap s v with
      pmm := pmmFreeFrame (OS44.pagingUnmap s v).pmm (frameAddr k) } := by
  have hphys : OS44.pagingGetPhysical s v = physicalOf v (some (frameAddr k)) := by
    rw [h.toPageTree.pagingGetPhysical, hf]
  have hmask := physicalOf_and_frameMask (frameAddr_aligned hk) v
  have hne : physicalOf v (some (frameAddr k)) ≠ 0 := fun h0 => by
    rw [h0] at hmask
    exact frameAddr_ne_zero hk hk0 (by rw [← hmask]; simp)
  simp only [OS44.freePage, hphys, if_neg hne, hmask]

/-- **A round of the loop of `vmm_free` on a mapped page unmaps it and frees its frame.** -/
theorem WellFormed.freePage (h : WellFormed s) (hk : k < 2 ^ 20) (hk0 : k ≠ 0)
    (hf : s.pageFrame (pageOf v) = some (frameAddr k)) (hnt : ¬ s.IsTable (frameAddr k)) :
    FreesPage s v k (freePage s v) := by
  have hstate := h.freePage_eq hk hk0 hf
  have hw := h.pagingUnmap v
  have hsh := (h.toPageTree.pagingUnmap v).2
  have hu := h.toPageTree.unmaps (h.freesEmpty v)
  have hnt' : ∀ b, (OS44.pagingUnmap s v).IsTable b → frameOf b ≠ k := fun b hb =>
    h.toPageTree.frameOf_ne hk hnt (hsh.isTable_of hb)
  have hbit : ∀ j, (OS44.freePage s v).pmm.testBit j =
      ((OS44.pagingUnmap s v).pmm.testBit j && decide (j ≠ k)) := fun j => by
    rw [hstate, testBit_pmmFreeFrame, frameOf_frameAddr hk]
    simp only [hk, and_true, ne_eq]
  exact
    { wf := by
        rw [hstate]
        apply hw.withPmm
        intro a ha
        rw [testBit_pmmFreeFrame, frameOf_frameAddr hk, hw.used a ha]
        simp [hnt' a ha]
      pageFrame_eq := by
        intro n
        rw [hstate]
        exact hu.pageFrame_eq n
      freed := by
        rw [hbit]
        simp
      used_of := by
        intro j hj
        rw [hbit, Bool.and_eq_true] at hj
        exact hsh.used_of j hj.1
      used_keep := by
        intro j hj hjk hb
        rw [hbit, hsh.used_keep j hj hb]
        simp [hjk]
      lost_free := by
        intro b hb hlt
        rcases hu.lost_free b hb hlt with hb | hb
        · exact .inl (by rw [hstate]; exact hb)
        · exact .inr (by rw [hbit, hb, Bool.false_and])
      walk_of := by
        rw [hstate]
        exact hsh.walk_of
      pml4_eq := by
        rw [hstate]
        exact hsh.pml4_eq
      failures_eq := by
        rw [hstate, failures_pmmFreeFrame]
        exact hsh.failures_eq
      total_eq := by
        rw [hstate, totalFrames_pmmFreeFrame]
        exact hsh.total_eq }

/-! ## Pages with frames of their own -/

/-- **The pages `P` are backed by frames of their own**: used frames, none of which holds a table,
and no frame backs two of the pages. -/
structure PagesOk (s : Paging TableHeap) (P : Fin (2 ^ 36) → Prop) : Prop where
  wf : WellFormed s
  mapped : ∀ n, P n → ∃ k, k < 2 ^ 20 ∧ k ≠ 0 ∧ s.pageFrame n = some (frameAddr k) ∧
    s.pmm.testBit k = true ∧ ¬ s.IsTable (frameAddr k)
  inj : ∀ n m f, P n → P m → s.pageFrame n = some f → s.pageFrame m = some f → n = m

theorem PagesOk.congr (h : PagesOk s P) {Q : Fin (2 ^ 36) → Prop} (hPQ : ∀ n, Q n ↔ P n) :
    PagesOk s Q := by
  have : Q = P := funext fun n => propext (hPQ n)
  rwa [this]

theorem frameAddr_injOn {j k : ℕ} (hj : j < 2 ^ 20) (hk : k < 2 ^ 20)
    (h : frameAddr j = frameAddr k) : j = k := by
  rw [← frameOf_frameAddr hj, h, frameOf_frameAddr hk]

/-- A mapped page is backed by a frame. -/
theorem PagesOk.frame_of (h : PagesOk s P) (hn : P n) (hf : s.pageFrame n = some f) :
    ∃ k, k < 2 ^ 20 ∧ k ≠ 0 ∧ f = frameAddr k ∧ s.pmm.testBit k = true ∧
      ¬ s.IsTable (frameAddr k) := by
  obtain ⟨k, hk, hk0, hk', hu, hnt⟩ := h.mapped n hn
  exact ⟨k, hk, hk0, Option.some.inj (hf.symm.trans hk'), hu, hnt⟩

/-- The step lemma of `vmm_alloc`. -/
theorem PagesOk.alloc (h : PagesOk s P) (ha : AllocsPage s v k s') :
    PagesOk s' fun n => P n ∨ n = pageOf v := by
  refine ⟨ha.wf, ?_, ?_⟩
  · intro n hn
    rw [ha.pageFrame_eq]
    split
    · exact ⟨k, ha.lt, ha.ne_zero, rfl, ha.used, ha.not_table⟩
    · next hne =>
      obtain ⟨j, hj, hj0, hfj, hu, hnt⟩ := h.mapped n (hn.resolve_right hne)
      refine ⟨j, hj, hj0, hfj, ha.used_mono j hu, ?_⟩
      intro hb
      rcases ha.isTable_new _ hb with hb | hb
      · exact hnt hb
      · rw [frameOf_frameAddr hj, hu] at hb
        cases hb
  · -- the new frame was free, the frames of the other pages were not
    intro n m f hn hm hfn hfm
    have hother : ∀ l, P l → s.pageFrame l ≠ some (frameAddr k) := fun l hl hfl => by
      obtain ⟨j, hj, -, hfj, hu, -⟩ := h.frame_of hl hfl
      rw [frameAddr_injOn ha.lt hj hfj] at ha
      rw [ha.free] at hu
      cases hu
    rw [ha.pageFrame_eq] at hfn hfm
    split at hfn <;> split at hfm
    · next hn' hm' => rw [hn', hm']
    · next hm' =>
      rw [← hfn] at hfm
      exact absurd hfm (hother m (hm.resolve_right hm'))
    · next hn' _ =>
      rw [← hfm] at hfn
      exact absurd hfn (hother n (hn.resolve_right hn'))
    · next hn' hm' => exact h.inj n m f (hn.resolve_right hn') (hm.resolve_right hm') hfn hfm

/-- The step lemma of `vmm_free`. -/
theorem PagesOk.free (h : PagesOk s P) (hv : P (pageOf v)) : ∃ k, k < 2 ^ 20 ∧
    s.pageFrame (pageOf v) = some (frameAddr k) ∧ FreesPage s v k (freePage s v) ∧
    PagesOk (freePage s v) fun n => P n ∧ n ≠ pageOf v := by
  obtain ⟨k, hk, hk0, hf, -, hnt⟩ := h.mapped _ hv
  have hfr := h.wf.freePage hk hk0 hf hnt
  refine ⟨k, hk, hf, hfr, hfr.wf, ?_, ?_⟩
  · intro n hn
    rw [hfr.pageFrame_eq, if_neg hn.2]
    obtain ⟨j, hj, hj0, hfj, hu, hntj⟩ := h.mapped n hn.1
    have hjk : j ≠ k := fun he => hn.2 (h.inj _ _ _ hn.1 hv hfj (he ▸ hf))
    exact ⟨j, hj, hj0, hfj,
      hfr.used_keep j hu hjk fun b hb => h.wf.toPageTree.frameOf_ne hj hntj hb,
      fun ⟨p, hp, hw⟩ => hntj ⟨p, hp, hfr.walk_of p _ hp hw⟩⟩
  · intro n m f hn hm hfn hfm
    rw [hfr.pageFrame_eq, if_neg hn.2] at hfn
    rw [hfr.pageFrame_eq, if_neg hm.2] at hfm
    exact h.inj n m f hn.1 hm.1 hfn hfm

/-! ## The loops -/

/-- The `i`-th page of the area at `base`. -/
def areaPage (base : U64) (i : ℕ) : Fin (2 ^ 36) := pageOf (base + BitVec.ofNat 64 i * 4096)

/-- **Loop rule of `vmm_alloc`.** Unless an allocation fails, the loop ends, and what each round
keeps holds at the end. -/
theorem allocPages_rule {I : ℕ → Vmm TableHeap → Prop} (base : U64) (N : ℕ)
    (hwf : ∀ i t, I i t → WellFormed t.paging)
    (hstep : ∀ i t k p, i < N → I i t →
      AllocsPage t.paging (base + BitVec.ofNat 64 i * 4096) k p →
      I (i + 1) { t with
        paging := p
        handed := (base + BitVec.ofNat 64 i * 4096, frameAddr k) :: t.handed })
    {i n : ℕ} (hin : i + n = N) {t : Vmm TableHeap} (ht : I i t) :
    (t.paging.pmm.failures < (endVmm (allocPages base i n t)).paging.pmm.failures ∧
      (t.paging.pmm.testBit 0 = true → t.paging.pmm.freeFrames.card < 4 * n)) ∨
    ∃ t', allocPages base i n t = .ok (true, t') ∧ I N t' := by
  induction n generalizing i t with
  | zero => exact .inr ⟨t, rfl, hin ▸ ht⟩
  | succ n ih =>
    rcases (hwf i t ht).allocPage (base + BitVec.ofNat 64 i * 4096) with ⟨hlt, hfew⟩ |
      ⟨k, p, hp, ha⟩
    · -- this page fails: the failures do not go down in the pages after it
      refine .inl ⟨lt_of_lt_of_le hlt ?_, fun hz => by have := hfew hz; omega⟩
      rcases hp : OS44.allocPage t.paging (base + BitVec.ofNat 64 i * 4096) with p | ⟨f, p⟩ <;>
        simp only [allocPages, hp, endPage]
      · exact le_rfl
      · split_ifs
        · exact le_rfl
        · exact failures_allocPages_le base (i + 1) n { t with paging := p, handed := _ }
    · have hne : frameAddr k ≠ 0 := frameAddr_ne_zero ha.lt ha.ne_zero
      have hround : allocPages base i (n + 1) t = allocPages base (i + 1) n { t with
          paging := p
          handed := (base + BitVec.ofNat 64 i * 4096, frameAddr k) :: t.handed } := by
        simp only [allocPages, hp, if_neg hne]
      rw [hround]
      rcases ih (by omega) (hstep i t k p (by omega) ht ha) with ⟨hlt, hfew⟩ | hok
      · -- a later page fails
        refine .inl ⟨ha.failures_eq ▸ hlt, ?_⟩
        intro hz
        have := ha.card_free_le
        have := hfew (ha.used_mono 0 hz)
        simp only at this
        omega
      · exact .inr hok

/-- **Loop rule of `vmm_free`.** What each round keeps holds at the end. -/
theorem freePages_rule {I : ℕ → Paging TableHeap → Prop} (base : U64) (N : ℕ)
    (hstep : ∀ i t, i < N → I i t → I (i + 1) (OS44.freePage t (base + BitVec.ofNat 64 i * 4096)))
    (hs : I 0 s) : I N (freePages s base N) := by
  have key : ∀ n ≤ N, I n (freePages s base n) := by
    intro n
    induction n with
    | zero => exact fun _ => hs
    | succ n ih =>
      intro hn
      rw [freePages, List.range_succ, List.foldl_concat]
      exact hstep n _ (by omega) (ih (by omega))
  exact key N le_rfl

/-- What the loop of `vmm_alloc` has done after `i` rounds. -/
structure MapsArea (s : Vmm TableHeap) (P : Fin (2 ^ 36) → Prop) (base : U64) (i : ℕ)
    (t : Vmm TableHeap) : Prop where
  pages : PagesOk t.paging fun n => P n ∨ ∃ j < i, n = areaPage base j
  pageFrame_eq : ∀ n, (∀ j < i, n ≠ areaPage base j) → t.paging.pageFrame n = s.paging.pageFrame n
  card_free : s.paging.pmm.totalFrames = 2 ^ 20 →
    t.paging.pmm.freeFrames.card + i ≤ s.paging.pmm.freeFrames.card
  card_free_le : s.paging.pmm.freeFrames.card ≤ t.paging.pmm.freeFrames.card + 4 * i
  used_mono : ∀ j, s.paging.pmm.testBit j = true → t.paging.pmm.testBit j = true
  isTable_new : ∀ b, t.paging.IsTable b →
    s.paging.IsTable b ∨ s.paging.pmm.testBit (frameOf b) = false
  total_eq : t.paging.pmm.totalFrames = s.paging.pmm.totalFrames
  failures_eq : t.paging.pmm.failures = s.paging.pmm.failures
  rest_eq : t = { s with paging := t.paging, handed := t.handed }

theorem MapsArea.refl {s : Vmm TableHeap} (h : PagesOk s.paging P) (base : U64) :
    MapsArea s P base 0 s where
  pages := h.congr fun n => by simp
  pageFrame_eq _ _ := rfl
  card_free _ := le_rfl
  card_free_le := le_rfl
  used_mono _ h := h
  isTable_new _ h := .inl h
  total_eq := rfl
  failures_eq := rfl
  rest_eq := rfl

/-- One more round. -/
theorem MapsArea.step {s t : Vmm TableHeap} {base : U64} {i : ℕ} (h : MapsArea s P base i t)
    (ha : AllocsPage t.paging (base + BitVec.ofNat 64 i * 4096) k s') :
    MapsArea s P base (i + 1) { t with
      paging := s', handed := (base + BitVec.ofNat 64 i * 4096, frameAddr k) :: t.handed } where
  pages := (h.pages.alloc ha).congr fun n => by
    constructor
    · rintro (hn | ⟨j, hj, rfl⟩)
      · exact .inl (.inl hn)
      · by_cases hji : j = i
        · exact .inr (by rw [hji]; rfl)
        · exact .inl (.inr ⟨j, by omega, rfl⟩)
    · rintro ((hn | ⟨j, hj, rfl⟩) | hn)
      · exact .inl hn
      · exact .inr ⟨j, by omega, rfl⟩
      · exact .inr ⟨i, by omega, hn⟩
  pageFrame_eq n hn := by
    -- a page outside the first `i + 1` is none of the first `i` either
    have hni : n ≠ pageOf (base + BitVec.ofNat 64 i * 4096) := hn i (by omega)
    rw [ha.pageFrame_eq, if_neg hni, h.pageFrame_eq n fun j hj => hn j (by omega)]
  card_free htotal := by
    have := ha.card_free (by rw [h.total_eq, htotal]; exact ha.lt)
    have := h.card_free htotal
    simp only
    omega
  card_free_le := by
    have := ha.card_free_le
    have := h.card_free_le
    simp only
    omega
  used_mono j hj := ha.used_mono j (h.used_mono j hj)
  isTable_new b hb := by
    rcases ha.isTable_new b hb with hb | hb
    · exact h.isTable_new b hb
    · -- a frame that is free now was free at the start
      refine .inr (Bool.eq_false_iff.mpr fun hu => ?_)
      rw [h.used_mono _ hu] at hb
      cases hb
  total_eq := ha.total_eq.trans h.total_eq
  failures_eq := ha.failures_eq.trans h.failures_eq
  rest_eq := by
    have := h.rest_eq
    rw [this]

/-- **The loop of `vmm_alloc`** maps all pages of the area, unless an allocation fails. -/
theorem PagesOk.allocPages {s : Vmm TableHeap} (h : PagesOk s.paging P) (base : U64) (n : ℕ) :
    (s.paging.pmm.failures < (endVmm (allocPages base 0 n s)).paging.pmm.failures ∧
      (s.paging.pmm.testBit 0 = true → s.paging.pmm.freeFrames.card < 4 * n)) ∨
    ∃ t, OS44.allocPages base 0 n s = .ok (true, t) ∧ MapsArea s P base n t :=
  allocPages_rule (I := MapsArea s P base) base n (fun _ _ hi => hi.pages.wf)
    (fun _ _ _ _ _ hi ha => hi.step ha) (Nat.zero_add n) (.refl h base)

/-- What the loop of `vmm_free` has done after `i` rounds, on an area all of whose
pages are mapped. -/
structure UnmapsArea (s : Paging TableHeap) (P : Fin (2 ^ 36) → Prop) (base : U64) (i : ℕ)
    (t : Paging TableHeap) : Prop where
  pages : PagesOk t fun n => P n ∧ ∀ j < i, n ≠ areaPage base j
  pageFrame_eq : ∀ n, (∀ j < i, n ≠ areaPage base j) → t.pageFrame n = s.pageFrame n
  unmapped : ∀ j < i, t.pageFrame (areaPage base j) = none
  freed : ∀ j < i, ∀ k, k < 2 ^ 20 → s.pageFrame (areaPage base j) = some (frameAddr k) →
    t.pmm.testBit k = false
  used_of : ∀ m, t.pmm.testBit m = true → s.pmm.testBit m = true
  used_keep : ∀ m, s.pmm.testBit m = true → t.pmm.testBit m = true ∨
    (∃ j < i, s.pageFrame (areaPage base j) = some (frameAddr m)) ∨ ∃ b, s.IsTable b ∧ frameOf b = m
  walk_of : ∀ p b, p.length ≤ 3 → walk (link t.mem) t.pml4 p = some b →
    walk (link s.mem) s.pml4 p = some b
  failures_eq : t.pmm.failures = s.pmm.failures
  total_eq : t.pmm.totalFrames = s.pmm.totalFrames

theorem UnmapsArea.refl (h : PagesOk s P) (base : U64) : UnmapsArea s P base 0 s where
  pages := h.congr fun n => by simp
  pageFrame_eq _ _ := rfl
  unmapped j hj := absurd hj (Nat.not_lt_zero j)
  freed j hj := absurd hj (Nat.not_lt_zero j)
  used_of _ h := h
  used_keep _ h := .inl h
  walk_of _ _ _ h := h
  failures_eq := rfl
  total_eq := rfl

/-- One more round. -/
theorem UnmapsArea.step {t : Paging TableHeap} {base : U64} {i : ℕ} (h : UnmapsArea s P base i t)
    (hP : P (areaPage base i)) (hne : ∀ j < i, areaPage base i ≠ areaPage base j) :
    UnmapsArea s P base (i + 1) (OS44.freePage t (base + BitVec.ofNat 64 i * 4096)) := by
  obtain ⟨k, hk, hf, hfr, hpages⟩ := h.pages.free (v := base + BitVec.ofNat 64 i * 4096) ⟨hP, hne⟩
  have hfs : s.pageFrame (areaPage base i) = some (frameAddr k) := by
    rw [← h.pageFrame_eq _ hne]
    exact hf
  have hround : ∀ n, ((P n ∧ ∀ j < i, n ≠ areaPage base j) ∧ n ≠ areaPage base i) ↔
      P n ∧ ∀ j < i + 1, n ≠ areaPage base j := by
    intro n
    rw [and_assoc, Nat.forall_lt_succ_right]
  exact
    { pages := hpages.congr fun n => (hround n).symm
      pageFrame_eq := by
        intro n hn
        have hni : n ≠ pageOf (base + BitVec.ofNat 64 i * 4096) := hn i (by omega)
        rw [hfr.pageFrame_eq, if_neg hni, h.pageFrame_eq n fun j hj => hn j (by omega)]
      unmapped := by
        intro j hj
        rw [hfr.pageFrame_eq]
        split
        · rfl
        · next hji =>
          have hji' : j ≠ i := fun he => hji (by rw [he]; rfl)
          exact h.unmapped j (by omega)
      freed := by
        -- the frame of this page is freed now, those of the pages before stay free
        intro j hj m hm hfm
        by_cases hji : j = i
        · rw [hji, hfs] at hfm
          rw [← frameAddr_injOn hk hm (Option.some.inj hfm)]
          exact hfr.freed
        · have := h.freed j (by omega) m hm hfm
          by_contra hc
          rw [Bool.not_eq_false] at hc
          rw [hfr.used_of m hc] at this
          cases this
      used_of := fun m hm => h.used_of m (hfr.used_of m hm)
      used_keep := by
        -- a frame given back is the page's, or that of a table that was there at the start
        intro m hm
        rcases h.used_keep m hm with hm' | ⟨j, hj, hfj⟩ | hb
        · by_cases hmk : m = k
          · exact .inr (.inl ⟨i, by omega, by rw [hfs, hmk]⟩)
          · by_cases hb : ∃ b, t.IsTable b ∧ frameOf b = m
            · obtain ⟨b, ⟨p, hp, hw⟩, hbm⟩ := hb
              exact .inr (.inr ⟨b, ⟨p, hp, h.walk_of p b hp hw⟩, hbm⟩)
            · exact .inl (hfr.used_keep m hm' hmk fun b hbt hbm => hb ⟨b, hbt, hbm⟩)
        · exact .inr (.inl ⟨j, by omega, hfj⟩)
        · exact .inr (.inr hb)
      walk_of := fun p b hp hw => h.walk_of p b hp (hfr.walk_of p b hp hw)
      failures_eq := hfr.failures_eq.trans h.failures_eq
      total_eq := hfr.total_eq.trans h.total_eq }

end OS44
