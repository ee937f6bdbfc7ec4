import Mathlib.Data.Finset.Union
import OS44.Mem.VmmPages

/-! # The frames that mapping pages takes

On a tree of tables in used frames, a page costs one frame for its content and one for each table
that is missing on the way to it. The tables that a set of pages is missing are a set of paths
(`missingTables`), so that tables shared between pages count once.

`PageTree.pagingMap_frames` and `PageTree.allocPage_frames` say what `paging_map` and a round of the
loop of `vmm_alloc` do with any number of free frames: with enough of them, with one too few, and
with fewer still. -/

namespace OS44

open LinkedTree TableMemory

section Missing

variable {M : Type} [TableMemory M] {s : Paging M} {i : Fin 512} {q r : List (Fin 512)}
  {n : Fin (2 ^ 36)} {P : Finset (Fin (2 ^ 36))}

/-- The way to the page table of a page. -/
def tablePath (n : Fin (2 ^ 36)) : List (Fin 512) := (pagePath n).take 3

/-- The tables missing on the way `q`, by their paths. -/
def missingOn (s : Paging M) (q : List (Fin 512)) : Finset (List (Fin 512)) :=
  q.inits.toFinset.filter fun r => walk (link s.mem) s.pml4 r = none

/-- **The tables missing for the pages `P`**, by their paths. -/
def missingTables (s : Paging M) (P : Finset (Fin (2 ^ 36))) : Finset (List (Fin 512)) :=
  P.biUnion fun n => missingOn s (tablePath n)

theorem tablePath_pageOf (v : U64) : tablePath (pageOf v) = [pml4Idx v, pdptIdx v, pdIdx v] := by
  rw [tablePath, pagePath_pageOf]
  rfl

theorem length_tablePath (n : Fin (2 ^ 36)) : (tablePath n).length = 3 := rfl

theorem mem_missingOn : r ∈ missingOn s q ↔ r <+: q ∧ walk (link s.mem) s.pml4 r = none := by
  rw [missingOn, Finset.mem_filter, List.mem_toFinset, List.mem_inits]

theorem mem_missingTables : r ∈ missingTables s P ↔
    (∃ n ∈ P, r <+: tablePath n) ∧ walk (link s.mem) s.pml4 r = none := by
  simp only [missingTables, Finset.mem_biUnion, mem_missingOn]
  constructor
  · rintro ⟨n, hn, hr, hw⟩
    exact ⟨⟨n, hn, hr⟩, hw⟩
  · rintro ⟨⟨n, hn, hr⟩, hw⟩
    exact ⟨n, hn, hr, hw⟩

@[simp] theorem missingTables_empty : missingTables s ∅ = ∅ := rfl

@[simp] theorem missingTables_singleton : missingTables s {n} = missingOn s (tablePath n) :=
  Finset.singleton_biUnion

/-- The root is never missing. -/
@[simp] theorem missingOn_nil : missingOn s [] = ∅ := by
  ext r
  rw [mem_missingOn, List.prefix_nil]
  refine iff_of_false ?_ (Finset.notMem_empty r)
  rintro ⟨rfl, h⟩
  cases h

/-- One step further, one more table may be missing. -/
theorem card_missingOn_concat (s : Paging M) (q : List (Fin 512)) (i : Fin 512) :
    (missingOn s (q ++ [i])).card =
      (missingOn s q).card + if walk (link s.mem) s.pml4 (q ++ [i]) = none then 1 else 0 := by
  have hnot : q ++ [i] ∉ missingOn s q := fun h => by
    have := (mem_missingOn.mp h).1.length_le
    rw [List.length_append, List.length_singleton] at this
    omega
  split
  · -- the table at the end of the path is missing too
    next hw =>
    have : missingOn s (q ++ [i]) = insert (q ++ [i]) (missingOn s q) := by
      ext r
      rw [Finset.mem_insert, mem_missingOn, mem_missingOn, List.prefix_concat_iff]
      constructor
      · rintro ⟨rfl | hr, hwr⟩
        exacts [.inl rfl, .inr ⟨hr, hwr⟩]
      · rintro (rfl | ⟨hr, hwr⟩)
        exacts [⟨.inl rfl, hw⟩, ⟨.inr hr, hwr⟩]
    rw [this, Finset.card_insert_of_notMem hnot]
  · next hw =>
    have : missingOn s (q ++ [i]) = missingOn s q := by
      ext r
      rw [mem_missingOn, mem_missingOn, List.prefix_concat_iff]
      constructor
      · rintro ⟨rfl | hr, hwr⟩
        exacts [absurd hwr hw, ⟨hr, hwr⟩]
      · rintro ⟨hr, hwr⟩
        exact ⟨.inr hr, hwr⟩
    rw [this, Nat.add_zero]

/-- Behind a missing table all are missing. -/
theorem card_missingOn_append (hw : walk (link s.mem) s.pml4 (q ++ [i]) = none)
    (r : List (Fin 512)) :
    (missingOn s (q ++ [i] ++ r)).card = (missingOn s q).card + 1 + r.length := by
  induction r using List.reverseRecOn with
  | nil => rw [List.append_nil, card_missingOn_concat, if_pos hw, List.length_nil]
  | append_singleton r j ih =>
    have hnone : walk (link s.mem) s.pml4 (q ++ [i] ++ r ++ [j]) = none := by
      rw [List.append_assoc (q ++ [i]), walk_append, hw, Option.bind_none]
    rw [← List.append_assoc, card_missingOn_concat, if_pos hnone, ih, List.length_append,
      List.length_singleton]
    omega

end Missing

variable {s s' s₁ : Paging TableHeap} {b t v p : U64} {i : Fin 512} {q : List (Fin 512)} {k : ℕ}
  {n : Fin (2 ^ 36)}

/-! ## The way down, with its cost -/

/-- **The way down that found its frames**: `s'` has the tables of `s` and those that were missing
on the way `q`, which ends in the table `t`. -/
structure Reaches (s : Paging TableHeap) (q : List (Fin 512)) (t : U64) (s' : Paging TableHeap) :
    Prop where
  tree : PageTree s'
  walk_eq : walk (link s'.mem) s'.pml4 q = some t
  pageFrame_eq : ∀ n, s'.pageFrame n = s.pageFrame n
  grows : Grows s s'
  walk_none : ∀ r, r.length ≤ 3 →
    (walk (link s'.mem) s'.pml4 r = none ↔ walk (link s.mem) s.pml4 r = none ∧ ¬ r <+: q)
  free_eq : s.pmm.freeFrames.card = s'.pmm.freeFrames.card + (missingOn s q).card

theorem Reaches.refl (h : PageTree s) : Reaches s [] s.pml4 s where
  tree := h
  walk_eq := rfl
  pageFrame_eq _ := rfl
  grows := .refl s
  walk_none r _ := by
    refine ⟨fun hw => ⟨hw, ?_⟩, fun hw => hw.1⟩
    intro hr
    rw [List.prefix_nil.mp hr] at hw
    cases hw
  free_eq := by rw [missingOn_nil, Finset.card_empty, Nat.add_zero]

/-- A table found takes no frame. -/
theorem Reaches.found (h : Reaches s q t s₁) (hlink : link s₁.mem t i = some b)
    (hlen : q.length ≤ 2) :
    Reaches s (q ++ [i]) b s₁ := by
  have hw : walk (link s₁.mem) s₁.pml4 (q ++ [i]) = some b :=
    walk_concat_eq_some.mpr ⟨t, h.walk_eq, hlink⟩
  have hsome : walk (link s.mem) s.pml4 (q ++ [i]) ≠ none := fun hnone => by
    have hnot : ¬ q ++ [i] <+: q := fun hp => by
      have := hp.length_le
      rw [List.length_append, List.length_singleton] at this
      omega
    rw [(h.walk_none _ (by simp; omega)).mpr ⟨hnone, hnot⟩] at hw
    cases hw
  refine ⟨h.tree, hw, h.pageFrame_eq, h.grows, ?_, ?_⟩
  · intro r hr
    rw [h.walk_none r hr, List.prefix_concat_iff, not_or]
    refine and_congr_right fun hnone => ⟨fun hp => ⟨?_, hp⟩, fun hp => hp.2⟩
    rintro rfl
    exact hsome hnone
  · rw [card_missingOn_concat, if_neg hsome, Nat.add_zero, h.free_eq]

/-- A table linked takes a frame. -/
theorem Reaches.linked (h : Reaches s q t s₁) (hl : LinksNew s₁ t i b s') (hlen : q.length ≤ 2)
    (hlt : s'.pmm.freeFrames.card < s₁.pmm.freeFrames.card) : Reaches s (q ++ [i]) b s' := by
  have hnone₁ : walk (link s₁.mem) s₁.pml4 (q ++ [i]) = none := by
    rw [walk_concat, h.walk_eq, Option.bind_some, hl.absent]
  have hnone := ((h.walk_none _ (by simp; omega)).mp hnone₁).1
  refine ⟨hl.pageTree h.tree h.walk_eq hlen, hl.walk_new h.tree h.walk_eq hlen, ?_,
    h.grows.trans (hl.grows h.tree h.walk_eq hlen), ?_, ?_⟩
  · intro n
    rw [hl.pageFrame_eq h.tree h.walk_eq hlen, h.pageFrame_eq]
  · intro r hr
    rw [List.prefix_concat_iff, not_or]
    by_cases hrq : r = q ++ [i]
    · refine iff_of_false (fun hw => ?_) (fun hw => hw.2.1 hrq)
      rw [hrq, hl.walk_new h.tree h.walk_eq hlen] at hw
      cases hw
    · rw [and_iff_right hrq, ← h.walk_none r hr]
      constructor
      · intro hw
        by_contra hne
        obtain ⟨c, hc⟩ := Option.ne_none_iff_exists'.mp hne
        rw [hl.walk_mono h.tree h.walk_eq hlen (by omega) hc] at hw
        cases hw
      · intro hw
        by_contra hne
        obtain ⟨c, hc⟩ := Option.ne_none_iff_exists'.mp hne
        -- a new walk ends in the new table
        rcases hl.walk_cases h.tree h.walk_eq hlen (by omega) hc with ⟨he, -⟩ | ⟨-, hc'⟩
        · exact hrq he
        · rw [hw] at hc'
          cases hc'
  · rw [card_missingOn_concat, if_pos hnone, h.free_eq]
    have := hl.card_free
    omega

/-- **One step further down**: it fails with nothing free, or arrives. -/
theorem Reaches.step (h : Reaches s q t s₁) (hz : s.pmm.testBit 0 = true) (hlen : q.length ≤ 2)
    (i : Fin 512) :
    (getNextTable s₁ t i true = (0, { s₁ with pmm := (pmmAllocFrame s₁.pmm).2 }) ∧
      s₁.pmm.freeFrames = ∅ ∧ walk (link s.mem) s.pml4 (q ++ [i]) = none) ∨
    ∃ b s', getNextTable s₁ t i true = (b, s') ∧ b ≠ 0 ∧ Reaches s (q ++ [i]) b s' := by
  have hnonzero : ∀ {b s'}, Reaches s (q ++ [i]) b s' → b ≠ 0 := fun hr =>
    hr.tree.ne_zero _ (isTable_of_walk hr.walk_eq (by simp; omega))
  rcases getNextTable_true_cases s₁ t i with ⟨b, hb, hg⟩ | ⟨hnone, h0, hg⟩ |
    ⟨hnone, f, s₂, rfl, hf0, rfl, hg⟩
  · have hr := h.found hb hlen
    exact .inr ⟨b, s₁, hg, hnonzero hr, hr⟩
  · refine .inl ⟨hg, freeFrames_eq_empty_of_null h0 (h.grows.used_mono 0 hz), ?_⟩
    refine ((h.walk_none _ (by simp; omega)).mp ?_).1
    rw [walk_concat, h.walk_eq, Option.bind_some, hnone]
  · have hl := linksNew_linkTable h.tree (isTable_of_walk h.walk_eq (by omega)) hnone hf0
    have hr := h.linked hl hlen (card_freeFrames_pmmAllocFrame_lt hf0)
    rw [entry_linkTable_and_frameMask _ t i hl.aligned] at hg
    exact .inr ⟨_, _, hg, hnonzero hr, hr⟩

/-! ## A page -/

/-- **The page is mapped**: the page of `v` to the frame of `p`, at the cost of the tables that were
missing. -/
structure MapsPage (s : Paging TableHeap) (v p : U64) (s' : Paging TableHeap) : Prop where
  tree : PageTree s'
  pageFrame_eq : ∀ n, s'.pageFrame n = if n =
    pageOf v then some (p &&& frameMask) else s.pageFrame n
  used_mono : ∀ j, s.pmm.testBit j = true → s'.pmm.testBit j = true
  walk_none : ∀ r, r.length ≤ 3 → (walk (link s'.mem) s'.pml4 r = none ↔
    walk (link s.mem) s.pml4 r = none ∧ ¬ r <+: tablePath (pageOf v))
  free_eq : s.pmm.freeFrames.card =
    s'.pmm.freeFrames.card + (missingOn s (tablePath (pageOf v))).card

/-- At the page table the page is written. -/
theorem Reaches.mapsPage (h : Reaches s (tablePath (pageOf v)) t s₁) (p : U64) :
    MapsPage s v p (writePage s₁ t (ptIdx v) p) := by
  have hl := leafUpdate_writePage (length_tablePath _) h.walk_eq (ptIdx v) p
  refine ⟨hl.pageTree h.tree, ?_, (h.grows.trans (hl.grows h.tree)).used_mono,
    ?_,
    ?_⟩
  · intro n
    have hiff : pagePath n = tablePath (pageOf v) ++ [ptIdx v] ↔ n = pageOf v := by
      rw [tablePath_pageOf, ← pagePath_pageOf_eq_concat, pagePath_injective.eq_iff]
    rw [hl.pageFrame_eq h.tree, h.pageFrame_eq]
    simp only [hiff]
  · intro r hr
    rw [hl.walk_of_le h.tree hr, h.walk_none r hr]
  · rw [hl.pmm_eq, h.free_eq]

/-- A page whose page table is missing is not mapped. -/
theorem pageFrame_of_missing (h : walk (link s.mem) s.pml4 (tablePath n) = none) :
    s.pageFrame n = none := by
  have hpath : pagePath n = tablePath n ++ (pagePath n).drop 3 := (List.take_append_drop 3 _).symm
  rw [Paging.pageFrame, hpath, walk_append, h, Option.bind_none]

/-- **`paging_map` with any number of free frames.** With as many as tables are missing, the page is
mapped. With one too few, every frame is taken and the call returns without the page. With fewer
still, it dereferences a null table. -/
theorem PageTree.pagingMap_frames (h : PageTree s) (hz : s.pmm.testBit 0 = true) (v p : U64) :
    ((missingOn s (tablePath (pageOf v))).card ≤ s.pmm.freeFrames.card ∧
      ∃ s', OS44.pagingMap s v p = .ok s' ∧ MapsPage s v p s') ∨
    ((missingOn s (tablePath (pageOf v))).card = s.pmm.freeFrames.card + 1 ∧
      ∃ s', OS44.pagingMap s v p = .ok s' ∧ s'.pmm.freeFrames = ∅ ∧
        s'.pageFrame (pageOf v) = none) ∨
    (s.pmm.freeFrames.card + 1 < (missingOn s (tablePath (pageOf v))).card ∧
      ∃ s', OS44.pagingMap s v p = .error s') := by
  have h4 := h.root_ne_zero
  have hpath := tablePath_pageOf v
  rcases (Reaches.refl h).step hz (by simp) (pml4Idx v) with
    ⟨h₁, hempty, hw⟩ | ⟨pdpt, s₁, h₁, hpdpt, r₁⟩
  · -- the table below the root and both tables below it are missing
    have hcost := card_missingOn_append hw [pdptIdx v, pdIdx v]
    have hfree : s.pmm.freeFrames.card = 0 := by rw [hempty, Finset.card_empty]
    simp only [List.nil_append, List.singleton_append, ← hpath, List.length_cons, List.length_nil]
      at hcost
    refine .inr (.inr ⟨by omega, { s with pmm := (pmmAllocFrame s.pmm).2 }, ?_⟩)
    simp only [OS44.pagingMap, if_neg h4, h₁, if_true]
  rcases r₁.step hz (by simp) (pdptIdx v) with ⟨h₂, hempty, hw⟩ | ⟨pd, s₂, h₂, hpd, r₂⟩
  · have hcost := card_missingOn_append hw [pdIdx v]
    have hfree := r₁.free_eq
    rw [hempty] at hfree
    simp only [List.nil_append, List.cons_append, ← hpath, List.length_cons, List.length_nil,
      Finset.card_empty] at hcost hfree
    refine .inr (.inr ⟨by omega, { s₁ with pmm := (pmmAllocFrame s₁.pmm).2 }, ?_⟩)
    simp only [OS44.pagingMap, if_neg h4, h₁, if_neg hpdpt, h₂, if_true]
  rcases r₂.step hz (by simp) (pdIdx v) with ⟨h₃, hempty, hw⟩ | ⟨pt, s₃, h₃, hpt, r₃⟩
  · -- the call returns without the page, in which every frame was taken
    have hcost := card_missingOn_append hw []
    have hfree := r₂.free_eq
    rw [hempty] at hfree
    simp only [List.nil_append, List.cons_append, List.append_nil, ← hpath, List.length_nil,
      Finset.card_empty] at hcost hfree hw
    refine .inr (.inl ⟨by omega, { s₂ with pmm := (pmmAllocFrame s₂.pmm).2 }, ?_, ?_, ?_⟩)
    · simp only [OS44.pagingMap, if_neg h4, h₁, if_neg hpdpt, h₂, if_neg hpd, h₃, if_true]
    · show (pmmAllocFrame s₂.pmm).2.freeFrames = ∅
      rw [freeFrames_pmmAllocFrame, hempty, FirstFit.takeFirst_empty]
    · exact (r₂.pageFrame_eq _).trans (pageFrame_of_missing hw)
  · have hreach : Reaches s (tablePath (pageOf v)) pt s₃ := hpath ▸ r₃
    have hfree := hreach.free_eq
    refine .inl ⟨by omega, _, ?_, hreach.mapsPage p⟩
    simp only [OS44.pagingMap, if_neg h4, h₁, if_neg hpdpt, h₂, if_neg hpd, h₃, if_neg hpt]

/-- **A page of an area is in place**: mapped to the frame `k`, which was free, at the cost of that
frame and of the tables that were missing. -/
structure FillsPage (s : Paging TableHeap) (v : U64) (k : ℕ) (s' : Paging TableHeap) : Prop where
  tree : PageTree s'
  lt : k < 2 ^ 20
  ne_zero : k ≠ 0
  free : s.pmm.testBit k = false
  used : s'.pmm.testBit k = true
  pageFrame_eq : ∀ n, s'.pageFrame n = if n = pageOf v then some (frameAddr k) else s.pageFrame n
  used_mono : ∀ j, s.pmm.testBit j = true → s'.pmm.testBit j = true
  walk_none : ∀ r, r.length ≤ 3 → (walk (link s'.mem) s'.pml4 r = none ↔
    walk (link s.mem) s.pml4 r = none ∧ ¬ r <+: tablePath (pageOf v))
  free_eq : s.pmm.freeFrames.card =
    s'.pmm.freeFrames.card + 1 + (missingOn s (tablePath (pageOf v))).card

/-- **A round of the loop of `vmm_alloc` with any number of free frames**: none, enough, as many as
tables are missing, or fewer. -/
theorem PageTree.allocPage_frames (h : PageTree s) (hz : s.pmm.testBit 0 = true) (v : U64) :
    (s.pmm.freeFrames = ∅ ∧ ∃ s', allocPage s v = .ok (0, s')) ∨
    ((missingOn s (tablePath (pageOf v))).card + 1 ≤ s.pmm.freeFrames.card ∧
      ∃ k s', allocPage s v = .ok (frameAddr k, s') ∧ FillsPage s v k s') ∨
    (s.pmm.freeFrames.Nonempty ∧
      (missingOn s (tablePath (pageOf v))).card = s.pmm.freeFrames.card ∧
      ∃ a s', allocPage s v = .ok (a, s') ∧ a ≠ 0 ∧ s'.pmm.freeFrames = ∅ ∧
        s'.pageFrame (pageOf v) = none) ∨
    (s.pmm.freeFrames.Nonempty ∧
      s.pmm.freeFrames.card < (missingOn s (tablePath (pageOf v))).card ∧
      ∃ s', allocPage s v = .error s') := by
  rcases allocPage_cases s v with ⟨h0, hpage⟩ | ⟨k, pmm, hk, hok, herror⟩
  · exact .inl ⟨freeFrames_eq_empty_of_null h0 hz, _, hpage⟩
  have hfree := hk.card_free
  have hne : s.pmm.freeFrames.Nonempty := Finset.card_pos.mp (by omega)
  -- the tables are the same when the frame of the page has been taken
  have h₀ : PageTree { s with pmm := pmm } :=
    ⟨h.root_aligned, h.tree, h.ne_zero, fun a ha => hk.used_mono (h.used a ha)⟩
  have hmiss : missingOn { s with pmm := pmm } = missingOn s := rfl
  rcases h₀.pagingMap_frames (hk.used_mono hz) v (frameAddr k) with
    ⟨hm, s', hmap, hp⟩ | ⟨hm, s', hmap, hempty, hnone⟩ | ⟨hm, s', hmap⟩ <;>
    simp only [hmiss] at hm
  · refine .inr (.inl ⟨by omega, k, s', hok s' hmap, hp.tree, hk.lt, hk.ne_zero, hk.free,
      hp.used_mono k hk.used, ?_, fun j hj =>
        hp.used_mono j (hk.used_mono hj), hp.walk_none,
      ?_⟩)
    · intro n
      rw [hp.pageFrame_eq, frameAddr_aligned hk.lt]
      rfl
    · have hcost := hp.free_eq
      simp only [hmiss] at hcost
      omega
  · exact .inr (.inr (.inl ⟨hne, by omega, _, s', hok s' hmap, frameAddr_ne_zero hk.lt hk.ne_zero,
      hempty, hnone⟩))
  · exact .inr (.inr (.inr ⟨hne, by omega, s', herror s' hmap⟩))

end OS44
