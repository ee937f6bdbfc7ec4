import OS44.Mem.PageTables

/-! # `paging_map` and `paging_unmap` on a tree of page tables

What the two calls do to a tree of tables, step by step: `paging_map` goes down three times and
writes a page (`PageTree.pagingMap`); `paging_unmap` clears a page and then frees up to three
tables, each step of the cascade being one `Unlinks` (`unlinks₁`, `unlinks₂`, `unlinks₃`). The tree
shape survives whatever the counters are; a cascade that frees only empty tables unmaps
one page and no other. -/

namespace OS44

open LinkedTree TableMemory

variable {s s' : Paging TableHeap} {a b f t v w p pdpt pd pt : U64} {i : Fin 512}
  {q : List (Fin 512)} {n : Fin (2 ^ 36)} {x : Option U64}

/-- **A well-formed paging state**: a tree of tables with exact counts and no empty table but
possibly the root. -/
structure WellFormed {M : Type} [TableMemory M] (s : Paging M) : Prop extends PageTree s where
  counted : Counted s
  nonempty : NonemptyBut s s.pml4

section EmptyRoot

variable {M : Type} [TableMemory M] {s : Paging M} {a : U64} {q : List (Fin 512)}
  (hempty : ∀ i, link s.mem s.pml4 i = none)
include hempty

/-- From an empty root no walk leads anywhere. -/
theorem eq_nil_of_empty (hq : walk (link s.mem) s.pml4 q = some a) : q = [] := by
  cases q with
  | nil => rfl
  | cons i q =>
    rw [walk_cons, hempty] at hq
    cases hq

theorem eq_pml4_of_empty (h : s.IsTable a) : a = s.pml4 := by
  obtain ⟨q, -, hq⟩ := h
  obtain rfl := eq_nil_of_empty hempty hq
  exact (Option.some.inj hq).symm

/-- **An empty root** is a well-formed state. -/
theorem wellFormed_of_empty (ha : s.pml4 &&& frameMask = s.pml4) (h0 : s.pml4 ≠ 0)
    (hused : s.pmm.testBit (frameOf s.pml4) = true) : WellFormed s where
  root_aligned := ha
  tree p q a _ _ hp hq := by rw [eq_nil_of_empty hempty hp, eq_nil_of_empty hempty hq]
  ne_zero a ha := eq_pml4_of_empty hempty ha ▸ h0
  used a ha := eq_pml4_of_empty hempty ha ▸ hused
  counted p a hp _ hw := absurd (eq_nil_of_empty hempty hw) hp
  nonempty p a hp _ hw _ := absurd (eq_nil_of_empty hempty hw) hp

end EmptyRoot

/-- No table but the root is the root. -/
theorem PageTree.ne_root (h : PageTree s) {p : List (Fin 512)} (hp : p ≠ []) (hpd : p.length ≤ 3)
    (hb : walk (link s.mem) s.pml4 p = some b) : b ≠ s.pml4 := by
  rintro rfl
  exact hp (h.tree p [] _ hpd (by simp) hb rfl)

/-- The exception is over when the table has an entry. -/
theorem NonemptyBut.of_pos (h : NonemptyBut s a) (ha : 0 < slotCount (link s.mem) a) (c : U64) :
    NonemptyBut s c := fun p b hp hpd hb _ => by
  by_cases hba : b = a
  · rwa [hba]
  · exact h p b hp hpd hb hba

/-! ## Mapping -/

theorem refCount_writePage (s : Paging TableHeap) (pt : U64) (i : Fin 512) (p b : U64) :
    refCount (writePage s pt i p).mem b =
      if b = pt ∧ link s.mem pt i = none then refCount s.mem pt + 1 else refCount s.mem b := by
  rw [writePage, refCount_setEntry]
  by_cases hp : entry s.mem pt i &&& pagePresent = 0
  · have hx : link s.mem pt i = none := entryLink_of_absent hp
    simp only [if_pos hp, refCount_setRefCount, hx, and_true]
  · have hx : link s.mem pt i ≠ none := fun hx => hp (entryLink_eq_none.mp hx)
    simp only [if_neg hp, hx, and_false, if_false]

theorem and_frameMask_aligned (p : U64) : p &&& frameMask &&& frameMask = p &&& frameMask := by
  rw [BitVec.and_assoc, BitVec.and_self]

theorem leafUpdate_writePage (hlen : q.length = 3) (hq : walk (link s.mem) s.pml4 q = some pt)
    (i : Fin 512) (p : U64) : LeafUpdate s pt q i (some (p &&& frameMask))
      (writePage s pt i p) where
  length_eq := hlen
  walk_eq := hq
  link_eq := by
    rw [writePage, link_setEntry, entryLink_mk (and_frameMask_aligned p)]
    split
    · rw [link_setRefCount]
    · rfl
  pml4_eq := rfl
  pmm_eq := rfl

/-- The slots of the other tables are untouched. -/
theorem LeafUpdate.slotCount_of_ne (hl : LeafUpdate s a q i x s') (hb : b ≠ a) :
    slotCount (link s'.mem) b = slotCount (link s.mem) b := by
  rw [hl.link_eq, slotCount_setChild_of_ne hb]

/-- One more counted entry in a table does not overflow its counter. -/
theorem toNat_add_one_of_slotCount {c : U32} (h : c.toNat = slotCount (link s.mem) a) :
    (c + 1).toNat = slotCount (link s.mem) a + 1 := by
  have hle : slotCount (link s.mem) a ≤ 512 := slotCount_le.trans (by simp)
  have h1 : (1 : U32).toNat = 1 := rfl
  rw [BitVec.toNat_add, h1, Nat.mod_eq_of_lt (by omega), h]

/-- Writing a page keeps the counts. -/
theorem counted_writePage (h : PageTree s) (hlen : q.length = 3)
    (hq : walk (link s.mem) s.pml4 q = some pt) (hc : Counted s) :
    Counted (writePage s pt i p) := by
  have hl := leafUpdate_writePage hlen hq i p
  intro r b hr hrd hb
  rw [hl.walk_of_le h hrd] at hb
  have hold := hc r b hr hrd hb
  rw [refCount_writePage]
  by_cases hbp : b = pt
  · subst hbp
    rcases hx : link s.mem b i with _ | f
    · rw [if_pos ⟨rfl, rfl⟩, hl.link_eq, slotCount_setChild_some hx]
      exact toNat_add_one_of_slotCount hold
    · rw [if_neg (by simp), hl.link_eq, slotCount_setChild_of_isSome rfl (by rw [hx]; rfl), hold]
  · rw [if_neg (fun hb' => hbp hb'.1), hl.slotCount_of_ne hbp, hold]

/-- What a `paging_map` that finds its frames leaves: the page of `v` mapped to the frame of `p`,
the others mapped as before. -/
structure Maps (s : Paging TableHeap) (v p : U64) (s' : Paging TableHeap) : Prop where
  tree : PageTree s'
  pageFrame_eq : ∀ n, s'.pageFrame n = if n =
    pageOf v then some (p &&& frameMask) else s.pageFrame n
  grows : Grows s s'
  card_free : s.pmm.freeFrames.card ≤ s'.pmm.freeFrames.card + 3
  wellFormed : WellFormed s → WellFormed s'

/-- The last step of `paging_map`. -/
theorem maps_writePage {s₃ : Paging TableHeap} (h₃ : PageTree s₃)
    (hq : walk (link s₃.mem) s₃.pml4 [pml4Idx v, pdptIdx v, pdIdx v] = some pt)
    (hpages : ∀ n, s₃.pageFrame n = s.pageFrame n) (hgrows : Grows s s₃)
    (hcard : s.pmm.freeFrames.card ≤ s₃.pmm.freeFrames.card + 3)
    (hc : Counted s → Counted s₃) (hn : NonemptyBut s s.pml4 → NonemptyBut s₃ pt) :
    Maps s v p (writePage s₃ pt (ptIdx v) p) := by
  have hl := leafUpdate_writePage rfl hq (ptIdx v) p
  refine ⟨hl.pageTree h₃, ?_, hgrows.trans (hl.grows h₃), hl.pmm_eq ▸ hcard,
    fun hs => ⟨hl.pageTree h₃, counted_writePage h₃ rfl hq (hc hs.counted), ?_⟩⟩
  · intro n
    have hiff : pagePath n = [pml4Idx v, pdptIdx v, pdIdx v] ++ [ptIdx v] ↔ n = pageOf v := by
      rw [← pagePath_pageOf_eq_concat, pagePath_injective.eq_iff]
    rw [hl.pageFrame_eq h₃, hpages]
    simp only [hiff]
  · have hpos : 0 < slotCount (link (writePage s₃ pt (ptIdx v) p).mem) pt :=
      slotCount_pos (i := ptIdx v) (by rw [hl.link_eq, setChild_self]; rfl)
    refine NonemptyBut.of_pos (a := pt) (fun r b hr hrd hb hbp => ?_) hpos _
    rw [hl.walk_of_le h₃ hrd] at hb
    rw [hl.slotCount_of_ne hbp]
    exact hn hs.nonempty r b hr hrd hb hbp

/-- **`paging_map` on a tree of tables**: an allocation fails, with at most two frames free, or the
page is mapped. It never dereferences a null table unless an allocation fails. -/
theorem PageTree.pagingMap (h : PageTree s) (v p : U64) :
    (∃ s', (pagingMap s v p = .ok s' ∨ pagingMap s v p = .error s') ∧
      s.pmm.failures < s'.pmm.failures ∧
      (s.pmm.testBit 0 = true → s.pmm.freeFrames.card ≤ 2)) ∨
    ∃ s', pagingMap s v p = .ok s' ∧ Maps s v p s' := by
  simp only [OS44.pagingMap, if_neg h.root_ne_zero]
  -- three steps down; with frame 0 in use a step fails only when no frame is free
  rcases h.descend (q := []) rfl (by simp) (pml4Idx v) with ⟨s₁, h₁, hf⟩ |
    ⟨pdpt, s₁, h₁, hpdpt, hd₁⟩
  · rw [h₁]
    exact .inl ⟨s₁, .inr rfl, hf.failures_lt, fun hz => by simp [hf.empty hz]⟩
  simp only [h₁, if_neg hpdpt]
  have hg₁ := hd₁.grows
  have hc₁ := hd₁.card_free
  rcases hd₁.tree.descend hd₁.walk_eq (by simp) (pdptIdx v) with
    ⟨s₂, h₂, hf⟩ | ⟨pd, s₂, h₂, hpd, hd₂⟩
  · rw [h₂]
    refine .inl ⟨s₂, .inr rfl, hg₁.failures_eq ▸ hf.failures_lt, ?_⟩
    intro hz
    rw [hf.empty (hg₁.used_mono 0 hz), Finset.card_empty] at hc₁
    omega
  simp only [h₂, if_neg hpd]
  have hg₂ := hg₁.trans hd₂.grows
  have hc₂ := hd₂.card_free
  rcases hd₂.tree.descend hd₂.walk_eq (by simp) (pdIdx v) with ⟨s₃, h₃, hf⟩ | ⟨pt, s₃, h₃, hpt, hd₃⟩
  · rw [h₃]
    refine .inl ⟨s₃, .inl rfl, hg₂.failures_eq ▸ hf.failures_lt, ?_⟩
    intro hz
    rw [hf.empty (hg₂.used_mono 0 hz), Finset.card_empty] at hc₂
    omega
  simp only [h₃, if_neg hpt]
  have hc₃ := hd₃.card_free
  refine .inr ⟨_, rfl, maps_writePage hd₃.tree hd₃.walk_eq (fun n => ?_) (hg₂.trans hd₃.grows)
    (by omega) (fun hc => hd₃.counted (hd₂.counted (hd₁.counted hc)))
    (fun hn => hd₃.nonemptyBut (hd₂.nonemptyBut (hd₁.nonemptyBut hn)))⟩
  rw [hd₃.pageFrame_eq, hd₂.pageFrame_eq, hd₁.pageFrame_eq]

/-! ## Unmapping -/

/-- The tables and the used frames of `s'` are among those of `s`, and the frames given back are
frames of tables. -/
structure Shrinks (s s' : Paging TableHeap) : Prop where
  pml4_eq : s'.pml4 = s.pml4
  failures_eq : s'.pmm.failures = s.pmm.failures
  total_eq : s'.pmm.totalFrames = s.pmm.totalFrames
  walk_of : ∀ p b, p.length ≤ 3 → walk (link s'.mem) s'.pml4 p = some b →
    walk (link s.mem) s.pml4 p = some b
  used_of : ∀ j, s'.pmm.testBit j = true → s.pmm.testBit j = true
  used_keep : ∀ j, s.pmm.testBit j = true → (∀ b, s.IsTable b → frameOf b ≠ j) →
    s'.pmm.testBit j = true

/-- The tables of `s'` are tables of `s`. -/
theorem Shrinks.isTable_of (h : Shrinks s s') (hb : s'.IsTable b) : s.IsTable b := by
  obtain ⟨p, hp, hw⟩ := hb
  exact ⟨p, hp, h.walk_of p b hp hw⟩

theorem Shrinks.refl (s : Paging TableHeap) : Shrinks s s :=
  ⟨rfl, rfl, rfl, fun _ _ _ h => h, fun _ h => h, fun _ h _ => h⟩

theorem Shrinks.trans {s₁ s₂ s₃ : Paging TableHeap} (h : Shrinks s₁ s₂) (h' : Shrinks s₂ s₃) :
    Shrinks s₁ s₃ where
  pml4_eq := h'.pml4_eq.trans h.pml4_eq
  failures_eq := h'.failures_eq.trans h.failures_eq
  total_eq := h'.total_eq.trans h.total_eq
  walk_of p b hp hb := h.walk_of p b hp (h'.walk_of p b hp hb)
  used_of j hj := h.used_of j (h'.used_of j hj)
  used_keep j hj hb := h'.used_keep j (h.used_keep j hj hb) fun b hb' => hb b (h.isTable_of hb')

theorem LeafUpdate.shrinks (hl : LeafUpdate s a q i x s') (h : PageTree s) : Shrinks s s' where
  pml4_eq := hl.pml4_eq
  failures_eq := by rw [hl.pmm_eq]
  total_eq := by rw [hl.pmm_eq]
  walk_of p b hp hb := by rwa [hl.walk_of_le h hp] at hb
  used_of j hj := by rwa [hl.pmm_eq] at hj
  used_keep j hj _ := by rwa [hl.pmm_eq]

theorem Unlinks.shrinks (hl : Unlinks s a q i b s') (h : PageTree s) : Shrinks s s' where
  pml4_eq := hl.pml4_eq
  failures_eq := by rw [hl.pmm_eq, failures_pmmFreeFrame]
  total_eq := by rw [hl.pmm_eq, totalFrames_pmmFreeFrame]
  walk_of p c hp hc := (hl.walk_cases h (by omega) hc).2
  used_of j hj := by
    rw [hl.pmm_eq, testBit_pmmFreeFrame, Bool.and_eq_true] at hj
    exact hj.1
  used_keep j hj hb := by
    have hne := hb b hl.isTable_child
    rw [hl.pmm_eq, testBit_pmmFreeFrame, hj]
    simp [hne.symm]

/-- How often the table `t` has been freed. -/
def Paging.frees {M : Type} [TableMemory M] (s : Paging M) (t : U64) : ℕ :=
  s.pmm.calls.count (.free t)

/-- A step of the cascade frees its table once. -/
theorem Unlinks.frees_eq (hl : Unlinks s a q i b s') (t : U64) :
    s'.frees t = s.frees t + if b = t then 1 else 0 := by
  rw [Paging.frees, hl.pmm_eq, calls_pmmFreeFrame, List.count_cons]
  by_cases hbt : b = t <;> simp [hbt, Paging.frees]

theorem Unlinks.frees_le (hl : Unlinks s a q i b s') (t : U64) : s.frees t ≤ s'.frees t := by
  rw [hl.frees_eq]
  exact Nat.le_add_right _ _

theorem Unlinks.frees_lt (hl : Unlinks s a q i b s') : s.frees b < s'.frees b := by
  rw [hl.frees_eq, if_pos rfl]
  exact Nat.lt_succ_self _

/-- Nothing but empty tables is given up from `s` to `s'`. -/
structure Prunes (s s' : Paging TableHeap) : Prop where
  pageFrame_eq : ∀ n, s'.pageFrame n = s.pageFrame n
  link_none : ∀ b j, link s.mem b j = none → link s'.mem b j = none
  used_of : ∀ j, s'.pmm.testBit j = true → s.pmm.testBit j = true
  freed_empty : ∀ b, s.frees b < s'.frees b → ∀ j, link s'.mem b j = none
  lost_free : ∀ b, s.IsTable b → frameOf b < 2 ^ 20 →
    s'.IsTable b ∨ s'.pmm.testBit (frameOf b) = false

theorem Prunes.refl (s : Paging TableHeap) : Prunes s s :=
  ⟨fun _ => rfl, fun _ _ h => h, fun _ h => h, fun _ h => absurd h (lt_irrefl _),
    fun _ h _ => .inl h⟩

theorem Prunes.trans {s₁ s₂ s₃ : Paging TableHeap} (h : Prunes s₁ s₂) (h' : Prunes s₂ s₃) :
    Prunes s₁ s₃ where
  pageFrame_eq n := (h'.pageFrame_eq n).trans (h.pageFrame_eq n)
  link_none b j hj := h'.link_none b j (h.link_none b j hj)
  used_of j hj := h.used_of j (h'.used_of j hj)
  freed_empty b hb j := by
    by_cases hb₂ : s₁.frees b < s₂.frees b
    · exact h'.link_none b j (h.freed_empty b hb₂ j)
    · exact h'.freed_empty b (by omega) j
  lost_free b hb hlt := by
    rcases h.lost_free b hb hlt with hb | hb
    · exact h'.lost_free b hb hlt
    · refine .inr ?_
      by_contra hc
      rw [Bool.not_eq_false] at hc
      rw [h'.used_of _ hc] at hb
      cases hb

/-- A step of the cascade that frees an empty table. -/
theorem Unlinks.prunes (hl : Unlinks s a q i b s') (h : PageTree s)
    (hb : slotCount (link s.mem) b = 0) : Prunes s s' where
  pageFrame_eq := hl.pageFrame_eq h hb
  link_none c j hj := by
    rw [hl.link_eq, setChild]
    split
    · rfl
    · exact hj
  used_of := (hl.shrinks h).used_of
  freed_empty c hc j := by
    -- only the table unlinked is given back
    have hcb : c = b := by
      by_contra hne
      rw [hl.frees_eq, if_neg (Ne.symm hne)] at hc
      omega
    subst hcb
    rw [hl.link_eq, setChild]
    split
    · rfl
    · exact slotCount_eq_zero.mp hb j
  lost_free c hc hlt := by
    rcases hl.isTable_or_eq h hb hc with hc | rfl
    · exact .inl hc
    · refine .inr ?_
      rw [hl.pmm_eq, testBit_pmmFreeFrame, decide_eq_false (fun hn => hn ⟨rfl, hlt⟩),
        Bool.and_false]

/-! ### The four states of the cascade -/

/-- The page of `v` is cleared. -/
def unmapped₀ (s : Paging TableHeap) (v pt : U64) : Paging TableHeap := clearPage s pt (ptIdx v)

/-- The page table is freed as well. -/
def unmapped₁ (s : Paging TableHeap) (v pd pt : U64) : Paging TableHeap :=
  dropEntry (freeTable (unmapped₀ s v pt) pt) pd (pdIdx v)

/-- The page directory is freed as well. -/
def unmapped₂ (s : Paging TableHeap) (v pdpt pd pt : U64) : Paging TableHeap :=
  dropEntry (freeTable (unmapped₁ s v pd pt) pd) pdpt (pdptIdx v)

/-- The table below the root is freed as well. -/
def unmapped₃ (s : Paging TableHeap) (v pdpt pd pt : U64) : Paging TableHeap :=
  let s := freeTable (unmapped₂ s v pdpt pd pt) pdpt
  { s with mem := setEntry s.mem s.pml4 (pml4Idx v) 0 }

theorem leafUpdate_clearPage (hlen : q.length = 3) (hq : walk (link s.mem) s.pml4 q = some pt)
    (i : Fin 512) : LeafUpdate s pt q i none (clearPage s pt i) where
  length_eq := hlen
  walk_eq := hq
  link_eq := by simp [clearPage]
  pml4_eq := rfl
  pmm_eq := rfl

theorem unlinks_dropEntry (hlen : q.length ≤ 2) (hq : walk (link s.mem) s.pml4 q = some a)
    (hb : link s.mem a i = some b) : Unlinks s a q i b (dropEntry (freeTable s b) a i) where
  length_le := hlen
  walk_eq := hq
  present := hb
  link_eq := by
    simp only [dropEntry, freeTable, link_setRefCount, link_setEntry, entryLink_zero]
  pml4_eq := rfl
  pmm_eq := rfl

theorem refCount_clearPage (s : Paging TableHeap) (pt : U64) (i : Fin 512) (b : U64) :
    refCount (clearPage s pt i).mem b =
      if b = pt then refCount s.mem pt - 1 else refCount s.mem b := by
  simp [clearPage, refCount_setRefCount]

theorem refCount_dropEntry (s : Paging TableHeap) (a : U64) (i : Fin 512) (b c : U64) :
    refCount (dropEntry (freeTable s c) a i).mem b =
      if b = a then refCount s.mem a - 1 else refCount s.mem b := by
  simp [dropEntry, freeTable, refCount_setRefCount]

theorem leafUpdate₀ (ht : HasTables s v pdpt pd pt) : LeafUpdate s pt
    [pml4Idx v, pdptIdx v, pdIdx v] (ptIdx v) none (unmapped₀ s v pt) :=
  leafUpdate_clearPage rfl ht.walks.2.2 _

section Cascade

variable (h : PageTree s) (ht : HasTables s v pdpt pd pt)
include h ht

theorem HasTables.ne_pd : pdpt ≠ pd ∧ pdpt ≠ pt ∧ pd ≠ pt := by
  obtain ⟨h1, h2, h3⟩ := ht.walks
  refine ⟨?_, ?_, ?_⟩ <;> rintro rfl
  · have := h.tree _ _ _ (by simp) (by simp) h1 h2
    simp at this
  · have := h.tree _ _ _ (by simp) (by simp) h1 h3
    simp at this
  · have := h.tree _ _ _ (by simp) (by simp) h2 h3
    simp at this

theorem unlinks₁ : Unlinks (unmapped₀ s v pt) pd [pml4Idx v, pdptIdx v] (pdIdx v) pt
    (unmapped₁ s v pd pt) := by
  have hl := leafUpdate₀ ht
  refine unlinks_dropEntry (by simp) ?_ ?_
  · rw [hl.walk_of_le h (by simp), ht.walks.2.1]
  · rw [hl.link_eq, setChild_of_ne fun hb => (ht.ne_pd h).2.2 hb.1, ht.link_pd]

theorem unlinks₂ : Unlinks (unmapped₁ s v pd pt) pdpt [pml4Idx v] (pdptIdx v) pd
    (unmapped₂ s v pdpt pd pt) := by
  have hl₀ := leafUpdate₀ ht
  have hl₁ := unlinks₁ h ht
  refine unlinks_dropEntry (by simp) ?_ ?_
  · rw [hl₁.walk_of_not_below (hl₀.pageTree h) (fun hp => by simpa using hp.length_le) (by simp),
      hl₀.walk_of_le h (by simp), ht.walks.1]
  · rw [hl₁.link_eq, setChild_of_ne fun hb => (ht.ne_pd h).1 hb.1, hl₀.link_eq,
      setChild_of_ne fun hb => (ht.ne_pd h).2.1 hb.1, ht.link_pdpt]

theorem unlinks₃ : Unlinks (unmapped₂ s v pdpt pd pt) s.pml4 [] (pml4Idx v) pdpt
    (unmapped₃ s v pdpt pd pt) where
  length_le := by simp
  walk_eq := rfl
  present := by
    have hroot : ∀ b r, r ≠ [] → r.length ≤ 3 → walk (link s.mem) s.pml4 r = some b → s.pml4 ≠ b :=
      fun b r hr hrd hb => (h.ne_root hr hrd hb).symm
    obtain ⟨w1, w2, w3⟩ := ht.walks
    rw [(unlinks₂ h ht).link_eq, setChild_of_ne fun hb => hroot _ _ (by simp) (by simp) w1 hb.1,
      (unlinks₁ h ht).link_eq, setChild_of_ne fun hb => hroot _ _ (by simp) (by simp) w2 hb.1,
      (leafUpdate₀ ht).link_eq, setChild_of_ne fun hb => hroot _ _ (by simp) (by simp) w3 hb.1,
      ht.link_pml4]
  link_eq := by
    simp only [unmapped₃, freeTable, link_setEntry, entryLink_zero]
    rfl
  pml4_eq := rfl
  pmm_eq := rfl

end Cascade

/-! ### The whole call -/

theorem sub_one_eq_zero {c : U32} : c - 1 = 0 ↔ c = 1 := by bv_omega

/-- **Where `paging_unmap` stops**, given the counters before the call. -/
theorem pagingUnmap_eq (h : PageTree s) (ht : HasTables s v pdpt pd pt)
    (hf : link s.mem pt (ptIdx v) = some f) : pagingUnmap s v =
      if refCount s.mem pt = 1 then
        if refCount s.mem pd = 1 then
          if refCount s.mem pdpt = 1 then unmapped₃ s v pdpt pd pt else unmapped₂ s v pdpt pd pt
        else unmapped₁ s v pd pt
      else unmapped₀ s v pt := by
  obtain ⟨h1, h2, h3⟩ := ht.ne_pd h
  have hpt : refCount (unmapped₀ s v pt).mem pt = refCount s.mem pt - 1 := by
    rw [unmapped₀, refCount_clearPage, if_pos rfl]
  have hpd : refCount (unmapped₁ s v pd pt).mem pd = refCount s.mem pd - 1 := by
    rw [unmapped₁, refCount_dropEntry, if_pos rfl, unmapped₀, refCount_clearPage, if_neg h3]
  have hpdpt : refCount (unmapped₂ s v pdpt pd pt).mem pdpt = refCount s.mem pdpt - 1 := by
    rw [unmapped₂, refCount_dropEntry, if_pos rfl, unmapped₁, refCount_dropEntry, if_neg h1,
      unmapped₀, refCount_clearPage, if_neg h2]
  -- the counters the cascade reads are those of the start, less one
  have hcascade : freeCascade (clearPage s pt (ptIdx v)) v pdpt pd pt =
      if refCount (unmapped₀ s v pt).mem pt = 0 then
        if refCount (unmapped₁ s v pd pt).mem pd = 0 then
          if refCount (unmapped₂ s v pdpt pd pt).mem pdpt = 0 then unmapped₃ s v pdpt pd pt
          else unmapped₂ s v pdpt pd pt
        else unmapped₁ s v pd pt
      else unmapped₀ s v pt := rfl
  rw [ht.pagingUnmap, hf]
  simp only [hcascade, hpt, hpd, hpdpt, sub_one_eq_zero]

/-- **`paging_unmap` keeps a tree of tables a tree**, whatever the counters are. -/
theorem PageTree.pagingUnmap (h : PageTree s) (v : U64) :
    PageTree (pagingUnmap s v) ∧ Shrinks s (pagingUnmap s v) := by
  rcases pagingUnmap_cases s v with ⟨-, hs⟩ | ⟨pdpt, pd, pt, f, ht, hf, -⟩
  · rw [hs]
    exact ⟨h, Shrinks.refl s⟩
  -- the page is cleared, and then the cascade ends after none, one, two or three tables
  have hl₀ := leafUpdate₀ ht
  have hl₁ := unlinks₁ h ht
  have hl₂ := unlinks₂ h ht
  have hl₃ := unlinks₃ h ht
  have h₀ := hl₀.pageTree h
  have h₁ := hl₁.pageTree h₀
  have h₂ := hl₂.pageTree h₁
  have hs₀ := hl₀.shrinks h
  have hs₁ := hs₀.trans (hl₁.shrinks h₀)
  have hs₂ := hs₁.trans (hl₂.shrinks h₁)
  rw [pagingUnmap_eq h ht hf]
  split_ifs
  · exact ⟨hl₃.pageTree h₂, hs₂.trans (hl₃.shrinks h₂)⟩
  · exact ⟨h₂, hs₂⟩
  · exact ⟨h₁, hs₁⟩
  · exact ⟨h₀, hs₀⟩

/-- **The condition of the free cascade**: each table it would free, the counters being what they
are, has one present entry, the one that leads to `v`. -/
def FreesEmpty {M : Type} [TableMemory M] (s : Paging M) (v : U64) : Prop :=
  ∀ pdpt pd pt, HasTables s v pdpt pd pt → link s.mem pt (ptIdx v) ≠ none →
    refCount s.mem pt = 1 → slotCount (link s.mem) pt = 1 ∧
    (refCount s.mem pd = 1 → slotCount (link s.mem) pd = 1 ∧
    (refCount s.mem pdpt = 1 → slotCount (link s.mem) pdpt = 1))

theorem Unlinks.slotCount_of_ne (hl : Unlinks s a q i b s') {c : U64} (hc : c ≠ a) :
    slotCount (link s'.mem) c = slotCount (link s.mem) c := by
  rw [hl.link_eq, slotCount_setChild_of_ne hc]

theorem Unlinks.slotCount_self (hl : Unlinks s a q i b s') :
    slotCount (link s'.mem) a + 1 = slotCount (link s.mem) a := by
  rw [hl.link_eq, slotCount_setChild_none (by rw [hl.present]; rfl)]

section SlotCounts

variable (h : PageTree s) (ht : HasTables s v pdpt pd pt)

theorem slotCount_unmapped₀ (ht : HasTables s v pdpt pd pt)
    (hf : link s.mem pt (ptIdx v) = some f) :
    slotCount (link (unmapped₀ s v pt).mem) pt + 1 = slotCount (link s.mem) pt := by
  rw [(leafUpdate₀ ht).link_eq, slotCount_setChild_none (by rw [hf]; rfl)]

include h ht

theorem slotCount_unmapped₁ :
    slotCount (link (unmapped₁ s v pd pt).mem) pd + 1 = slotCount (link s.mem) pd := by
  rw [(unlinks₁ h ht).slotCount_self, (leafUpdate₀ ht).slotCount_of_ne (ht.ne_pd h).2.2]

theorem slotCount_unmapped₂ :
    slotCount (link (unmapped₂ s v pdpt pd pt).mem) pdpt + 1 = slotCount (link s.mem) pdpt := by
  rw [(unlinks₂ h ht).slotCount_self, (unlinks₁ h ht).slotCount_of_ne (ht.ne_pd h).1,
    (leafUpdate₀ ht).slotCount_of_ne (ht.ne_pd h).2.1]

end SlotCounts

/-- Under the condition the cascade gives up nothing but empty tables. -/
theorem prunes_pagingUnmap (h : PageTree s) (ht : HasTables s v pdpt pd pt)
    (hf : link s.mem pt (ptIdx v) = some f) (hc : FreesEmpty s v) :
    Prunes (unmapped₀ s v pt) (pagingUnmap s v) := by
  have hc' := hc pdpt pd pt ht (by rw [hf]; simp)
  have hl₁ := unlinks₁ h ht
  have hl₂ := unlinks₂ h ht
  have hl₃ := unlinks₃ h ht
  have h₀ := (leafUpdate₀ ht).pageTree h
  have h₁ := hl₁.pageTree h₀
  have h₂ := hl₂.pageTree h₁
  have n₀ := slotCount_unmapped₀ ht hf
  have n₁ := slotCount_unmapped₁ h ht
  have n₂ := slotCount_unmapped₂ h ht
  rw [pagingUnmap_eq h ht hf]
  split_ifs with c₁ c₂ c₃
  · -- all three tables become empty and are freed
    obtain ⟨e₁, hc₂⟩ := hc' c₁
    obtain ⟨e₂, hc₃⟩ := hc₂ c₂
    have e₃ := hc₃ c₃
    exact ((hl₁.prunes h₀ (by omega)).trans (hl₂.prunes h₁ (by omega))).trans
      (hl₃.prunes h₂ (by omega))
  · -- the table below the root stays
    obtain ⟨e₁, hc₂⟩ := hc' c₁
    have e₂ := (hc₂ c₂).1
    exact (hl₁.prunes h₀ (by omega)).trans (hl₂.prunes h₁ (by omega))
  · have e₁ := (hc' c₁).1
    exact hl₁.prunes h₀ (by omega)
  · exact Prunes.refl _

/-- What a `paging_unmap` that frees only empty tables leaves: the page of `v` unmapped, the others
mapped as before, and no page mapped by a freed table. -/
structure Unmaps (s : Paging TableHeap) (v : U64) (s' : Paging TableHeap) : Prop where
  pageFrame_eq : ∀ n, s'.pageFrame n = if n = pageOf v then none else s.pageFrame n
  freed_empty : ∀ b, s.frees b < s'.frees b → ∀ j, link s'.mem b j = none
  lost_free : ∀ b, s.IsTable b → frameOf b < 2 ^ 20 →
    s'.IsTable b ∨ s'.pmm.testBit (frameOf b) = false

/-- **`paging_unmap` unmaps one page** if the cascade frees only empty tables. -/
theorem PageTree.unmaps (h : PageTree s) (hc : FreesEmpty s v) :
    Unmaps s v (OS44.pagingUnmap s v) := by
  rcases pagingUnmap_cases s v with ⟨hnone, hs⟩ | ⟨pdpt, pd, pt, f, ht, hf, -⟩
  · rw [hs]
    refine ⟨?_, fun b hb => absurd hb (lt_irrefl _), fun b hb _ => .inl hb⟩
    intro n
    split
    · next hn =>
      subst hn
      by_contra hne
      obtain ⟨f, hf⟩ := Option.ne_none_iff_exists'.mp hne
      exact hnone f (h.mapsTo_iff.mpr hf)
    · rfl
  · -- clearing the entry unmaps the page, and the cascade prunes only empty tables
    have hp := prunes_pagingUnmap h ht hf hc
    have hl₀ := leafUpdate₀ ht
    refine ⟨?_, fun b hb => hp.freed_empty b hb, ?_⟩
    · intro n
      have hiff : pagePath n = [pml4Idx v, pdptIdx v, pdIdx v] ++ [ptIdx v] ↔ n = pageOf v := by
        rw [← pagePath_pageOf_eq_concat, pagePath_injective.eq_iff]
      rw [hp.pageFrame_eq, hl₀.pageFrame_eq h]
      simp only [hiff]
    · intro b hb hlt
      exact hp.lost_free b ((hl₀.isTable_iff h).mpr hb) hlt

/-- With exact counts the condition of the cascade holds. -/
theorem WellFormed.freesEmpty (h : WellFormed s) (v : U64) : FreesEmpty s v := by
  intro pdpt pd pt ht _ h₁
  obtain ⟨w₁, w₂, w₃⟩ := ht.walks
  have key : ∀ r b, r ≠ [] → r.length ≤ 3 → walk (link s.mem) s.pml4 r = some b →
      refCount s.mem b = 1 → slotCount (link s.mem) b = 1 := fun r b hr hrd hb hone => by
    rw [← h.counted r b hr hrd hb, hone]
    rfl
  exact ⟨key _ _ (by simp) (by simp) w₃ h₁, fun h₂ => ⟨key _ _ (by simp) (by simp) w₂ h₂,
    fun h₃ => key _ _ (by simp) (by simp) w₁ h₃⟩⟩

/-! ### Counts and empty tables -/

/-- One entry less in a counted table. -/
theorem toNat_sub_one_of {c : U32} {k : ℕ} (h : c.toNat = k + 1) : (c - 1).toNat = k := by bv_omega

/-- Clearing a page keeps the counts. -/
theorem counted_unmapped₀ (h : PageTree s) (ht : HasTables s v pdpt pd pt)
    (hf : link s.mem pt (ptIdx v) = some f) (hc : Counted s) : Counted (unmapped₀ s v pt) := by
  have hl := leafUpdate₀ ht
  intro r b hr hrd hb
  rw [hl.walk_of_le h hrd] at hb
  have hold := hc r b hr hrd hb
  rw [unmapped₀, refCount_clearPage, ← unmapped₀]
  by_cases hbp : b = pt
  · subst hbp
    rw [if_pos rfl]
    exact toNat_sub_one_of (hold.trans (slotCount_unmapped₀ ht hf).symm)
  · rw [if_neg hbp, hold, hl.slotCount_of_ne hbp]

/-- After a page is cleared, its page table is the only one that may be empty. -/
theorem nonemptyBut_unmapped₀ (h : PageTree s) (ht : HasTables s v pdpt pd pt)
    (hn : NonemptyBut s s.pml4) : NonemptyBut (unmapped₀ s v pt) pt := by
  have hl := leafUpdate₀ ht
  intro r b hr hrd hb hbp
  rw [hl.walk_of_le h hrd] at hb
  rw [hl.slotCount_of_ne hbp]
  exact hn r b hr hrd hb (h.ne_root hr hrd hb)

/-- A step of the cascade keeps the counts. -/
theorem Unlinks.counted (hl : Unlinks s a q i b s') (h : PageTree s) (hc : Counted s)
    (hrc : ∀ c, c ≠ a → refCount s'.mem c = refCount s.mem c)
    (hra : q ≠ [] → refCount s'.mem a = refCount s.mem a - 1) : Counted s' := by
  intro r c hr hrd hw
  obtain ⟨-, hw⟩ := hl.walk_cases h (by omega) hw
  have hold := hc r c hr hrd hw
  by_cases hca : c = a
  · subst hca
    obtain rfl := h.tree r q c hrd (by have := hl.length_le; omega) hw hl.walk_eq
    rw [hra hr]
    exact toNat_sub_one_of (hold.trans hl.slotCount_self.symm)
  · rw [hrc c hca, hold, hl.slotCount_of_ne hca]

/-- After a step of the cascade, the table that lost its child is the only one that may be empty. -/
theorem Unlinks.nonemptyBut (hl : Unlinks s a q i b s') (h : PageTree s) (hn : NonemptyBut s b) :
    NonemptyBut s' a := by
  intro r c hr hrd hw hca
  have hcb := hl.ne_child h (isTable_of_walk hw hrd)
  obtain ⟨-, hw⟩ := hl.walk_cases h (by omega) hw
  rw [hl.slotCount_of_ne hca]
  exact hn r c hr hrd hw hcb

/-- A state with exact counts in which only one table may be empty, but its counter is not zero. -/
theorem wellFormed_of_refCount {r : List (Fin 512)} (h : PageTree s) (hc : Counted s)
    (hn : NonemptyBut s a) (hr : r ≠ []) (hrd : r.length ≤ 3)
    (ha : walk (link s.mem) s.pml4 r = some a) (hne : refCount s.mem a ≠ 0) : WellFormed s := by
  refine ⟨h, hc, hn.of_pos ?_ _⟩
  rw [← hc r a hr hrd ha]
  exact Nat.pos_of_ne_zero fun h0 => hne (BitVec.eq_of_toNat_eq h0)

/-- **`paging_unmap` keeps a well-formed state well formed.** -/
theorem WellFormed.pagingUnmap (h : WellFormed s) (v : U64) : WellFormed (pagingUnmap s v) := by
  rcases pagingUnmap_cases s v with ⟨-, hs⟩ | ⟨pdpt, pd, pt, f, ht, hf, hs⟩
  · rwa [hs]
  have ht' := h.toPageTree
  obtain ⟨h12, h13, h23⟩ := ht.ne_pd ht'
  have hl₀ := leafUpdate₀ ht
  have hl₁ := unlinks₁ ht' ht
  have hl₂ := unlinks₂ ht' ht
  have hl₃ := unlinks₃ ht' ht
  have t₀ := hl₀.pageTree ht'
  have t₁ := hl₁.pageTree t₀
  have t₂ := hl₂.pageTree t₁
  have n₀ := nonemptyBut_unmapped₀ ht' ht h.nonempty
  have n₁ := hl₁.nonemptyBut t₀ n₀
  have n₂ := hl₂.nonemptyBut t₁ n₁
  have c₀ := counted_unmapped₀ ht' ht hf h.counted
  have c₁ : Counted (unmapped₁ s v pd pt) := hl₁.counted t₀ c₀
    (fun c hc => by rw [unmapped₁, refCount_dropEntry, if_neg hc])
    (fun _ => by rw [unmapped₁, refCount_dropEntry, if_pos rfl])
  have c₂ : Counted (unmapped₂ s v pdpt pd pt) := hl₂.counted t₁ c₁
    (fun c hc => by rw [unmapped₂, refCount_dropEntry, if_neg hc])
    (fun _ => by rw [unmapped₂, refCount_dropEntry, if_pos rfl])
  have c₃ : Counted (unmapped₃ s v pdpt pd pt) := hl₃.counted t₂ c₂
    (fun c _ => refCount_setEntry ..) (fun hr => absurd rfl hr)
  rw [pagingUnmap_eq ht' ht hf]
  -- where the cascade stops, the last table it looked at still has a counter above 0
  split_ifs with e₁ e₂ e₃
  · exact ⟨hl₃.pageTree t₂, c₃, hl₃.nonemptyBut t₂ n₂⟩
  · refine wellFormed_of_refCount t₂ c₂ n₂ (r := [pml4Idx v]) (by simp) (by simp) ?_ ?_
    · rw [hl₂.walk_of_not_below t₁ (fun hp => by simpa using hp.length_le) (by simp), hl₂.walk_eq]
    · rwa [unmapped₂, refCount_dropEntry, if_pos rfl, Ne, sub_one_eq_zero, unmapped₁,
        refCount_dropEntry, if_neg h12, unmapped₀, refCount_clearPage, if_neg h13]
  · refine wellFormed_of_refCount t₁ c₁ n₁ (r := [pml4Idx v, pdptIdx v]) (by simp) (by simp) ?_ ?_
    · rw [hl₁.walk_of_not_below t₀ (fun hp => by simpa using hp.length_le) (by simp), hl₁.walk_eq]
    · rwa [unmapped₁, refCount_dropEntry, if_pos rfl, Ne, sub_one_eq_zero, unmapped₀,
        refCount_clearPage, if_neg h23]
  · refine wellFormed_of_refCount t₀ c₀ n₀ (r := [pml4Idx v, pdptIdx v, pdIdx v]) (by simp)
      (by simp) ?_ ?_
    · rw [hl₀.walk_of_le ht' (by simp), hl₀.walk_eq]
    · rwa [unmapped₀, refCount_clearPage, if_pos rfl, Ne, sub_one_eq_zero]

end OS44
