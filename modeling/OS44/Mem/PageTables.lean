import OS44.Mem.Paging

/-! # Page tables as C structs

The storage of `paging.c` at the level of struct members: each table is a record of its own, so that
`entries` and `ref_count` are distinct storage. On it every write of the code is one update of the
link map, and `PageTree` is what the code needs of the tables it finds: a tree of non-null tables,
in frames of their own that the frame allocator does not hand out.

`getNextTable_tree` and `PageTree.unlink` say what one step down and one step of the free cascade do
to such a tree; they hold whatever the counters say. `Counted` and
`NonemptyBut` describe the counters. -/

namespace OS44

open LinkedTree TableMemory

/-- `PageTable`. -/
structure PageTable where
  entries : Fin 512 → U64
  refCount : U32

/-- The tables by address. -/
abbrev TableHeap : Type := U64 → PageTable

instance : TableMemory TableHeap where
  entry h a i := (h a).entries i
  setEntry h a i e := Function.update h a { h a with entries := Function.update (h a).entries i e }
  refCount h a := (h a).refCount
  setRefCount h a c := Function.update h a { h a with refCount := c }
  zeroFrame h a := Function.update h a { h a with entries := fun _ => 0 }

section Storage

variable (h : TableHeap) (a b : U64) (i j : Fin 512) (e : U64) (c : U32)

theorem entry_setEntry : entry (setEntry h a i e) b j = if b = a ∧
    j = i then e else entry h b j := by
  simp only [entry, setEntry]
  by_cases hb : b = a
  · subst hb
    by_cases hj : j = i
    · subst hj; simp
    · simp [hj]
  · simp [hb]

@[simp] theorem entry_setRefCount : entry (setRefCount h a c) b j = entry h b j := by
  simp only [entry, setRefCount]
  by_cases hb : b = a
  · subst hb; simp
  · simp [hb]

theorem entry_zeroFrame : entry (zeroFrame h a) b j = if b = a then 0 else entry h b j := by
  simp only [entry, zeroFrame]
  by_cases hb : b = a
  · subst hb; simp
  · simp [hb]

@[simp] theorem refCount_setEntry : refCount (setEntry h a i e) b = refCount h b := by
  simp only [refCount, setEntry]
  by_cases hb : b = a
  · subst hb; simp
  · simp [hb]

theorem refCount_setRefCount : refCount (setRefCount h a c) b = if b =
    a then c else refCount h b := by
  simp only [refCount, setRefCount]
  by_cases hb : b = a
  · subst hb; simp
  · simp [hb]

@[simp] theorem refCount_zeroFrame : refCount (zeroFrame h a) b = refCount h b := by
  simp only [refCount, zeroFrame]
  by_cases hb : b = a
  · subst hb; simp
  · simp [hb]

/-! ## Writes as updates of the link map -/

/-- Writing an entry fills or empties a slot. -/
@[simp] theorem link_setEntry : link (setEntry h a i e) = setChild (link h) a i (entryLink e) := by
  funext b j
  rw [link, entry_setEntry, setChild]
  split <;> rfl

@[simp] theorem link_setRefCount : link (setRefCount h a c) = link h := by
  funext b j
  rw [link, entry_setRefCount, link]

/-- Zeroing a frame empties the table in it. -/
@[simp] theorem link_zeroFrame : link (zeroFrame h a) = emptyNode (link h) a := by
  funext b j
  rw [link, entry_zeroFrame, emptyNode]
  split
  · exact entryLink_zero
  · rfl

end Storage

/-! ## Trees of tables -/

section Trees

variable {M : Type} [TableMemory M]

/-- `a` is one of the tables. -/
def Paging.IsTable (s : Paging M) (a : U64) : Prop := IsNode (link s.mem) s.pml4 3 a

/-- **A tree of page tables**: four levels, no frame holds two tables, no table is at address 0, and
the frame of every table is marked used. -/
structure PageTree (s : Paging M) : Prop where
  root_aligned : s.pml4 &&& frameMask = s.pml4
  tree : IsTree (link s.mem) s.pml4 3
  ne_zero : ∀ a, s.IsTable a → a ≠ 0
  used : ∀ a, s.IsTable a → s.pmm.testBit (frameOf a) = true

variable {s : Paging M} {a b f v : U64} {q : List (Fin 512)}

theorem PageTree.root_ne_zero (h : PageTree s) : s.pml4 ≠ 0 := h.ne_zero _ isNode_root

/-- The tables are in used frames still after a change of the frame allocator. -/
theorem PageTree.withPmm (h : PageTree s) {pmm : Pmm}
    (hused : ∀ a, s.IsTable a → pmm.testBit (frameOf a) = true) :
    PageTree { s with pmm := pmm } :=
  ⟨h.root_aligned, h.tree, h.ne_zero, hused⟩

theorem isTable_of_walk (hq : walk (link s.mem) s.pml4 q = some a) (hlen : q.length ≤ 3) :
    s.IsTable a := ⟨q, hlen, hq⟩

theorem PageTree.aligned (h : PageTree s) (ha : s.IsTable a) : a &&& frameMask = a := by
  obtain ⟨q, -, hq⟩ := ha
  rcases List.eq_nil_or_concat q with rfl | ⟨q, i, rfl⟩
  · obtain rfl := Option.some.inj hq
    exact h.root_aligned
  · rw [List.concat_eq_append, walk_concat_eq_some] at hq
    obtain ⟨b, -, hb⟩ := hq
    exact entryLink_aligned hb

/-- Different tables are in different frames. -/
theorem PageTree.frameOf_inj (h : PageTree s) (ha : s.IsTable a) (hb : b &&& frameMask = b)
    (hab : frameOf a = frameOf b) : a = b := eq_of_frameOf_eq (h.aligned ha) hb hab

/-- The tables on the way to a mapped page are found, and a page with all tables found is looked up
in the last one. -/
theorem PageTree.mapsTo_iff (h : PageTree s) : MapsTo s v f ↔ s.pageFrame (pageOf v) = some f := by
  constructor
  · rintro ⟨pdpt, pd, pt, ht, hf⟩
    rw [ht.pageFrame, hf]
  · intro hf
    rw [Paging.pageFrame, pagePath_pageOf] at hf
    simp only [walk_cons, walk_nil, Option.bind_eq_some_iff, Option.some.injEq] at hf
    obtain ⟨pdpt, h4, pd, h3, pt, h2, f, h1, rfl⟩ := hf
    have hpdpt : walk (link s.mem) s.pml4 [pml4Idx v] = some pdpt := by simp [h4]
    have hpd : walk (link s.mem) s.pml4 [pml4Idx v, pdptIdx v] = some pd := by simp [h4, h3]
    have hpt : walk (link s.mem) s.pml4 [pml4Idx v, pdptIdx v, pdIdx v] = some pt := by
      simp [h4, h3, h2]
    exact ⟨pdpt, pd, pt,
      ⟨h.root_ne_zero, h.ne_zero _ (isTable_of_walk hpdpt (by simp)),
        h.ne_zero _ (isTable_of_walk hpd (by simp)), h.ne_zero _ (isTable_of_walk hpt (by simp)),
        h4, h3, h2⟩, h1⟩

/-- **`paging_get_physical` reads the page map** of a tree of tables. -/
theorem PageTree.pagingGetPhysical (h : PageTree s) (v : U64) :
    pagingGetPhysical s v = physicalOf v (s.pageFrame (pageOf v)) := by
  by_cases ht : ∃ pdpt pd pt, HasTables s v pdpt pd pt
  · obtain ⟨pdpt, pd, pt, ht⟩ := ht
    rw [ht.pagingGetPhysical, ht.pageFrame]
  · rw [(of_not_hasTables ht).1]
    cases hf : s.pageFrame (pageOf v) with
    | none => rfl
    | some f =>
      obtain ⟨pdpt, pd, pt, ht', -⟩ := h.mapsTo_iff.mpr hf
      exact absurd ⟨pdpt, pd, pt, ht'⟩ ht

end Trees

variable {s s' : Paging TableHeap} {a b f t v w p : U64} {i : Fin 512} {q : List (Fin 512)}
  {n : Fin (2 ^ 36)}

/-! ## One step down -/

/-- The tables and the used frames of `s'` are those of `s` and new ones: no allocation failed, and
every frame taken holds a table. -/
structure Grows (s s' : Paging TableHeap) : Prop where
  pml4_eq : s'.pml4 = s.pml4
  failures_eq : s'.pmm.failures = s.pmm.failures
  total_eq : s'.pmm.totalFrames = s.pmm.totalFrames
  used_mono : ∀ j, s.pmm.testBit j = true → s'.pmm.testBit j = true
  taken : ∀ j, s.pmm.testBit j = false → s'.pmm.testBit j = true → ∃ b, s'.IsTable b ∧ frameOf b = j
  walk_mono : ∀ p b, p.length ≤ 3 → walk (link s.mem) s.pml4 p = some b →
    walk (link s'.mem) s'.pml4 p = some b
  isTable_new : ∀ b, s'.IsTable b → s.IsTable b ∨ s.pmm.testBit (frameOf b) = false

/-- The tables of `s` are tables of `s'`. -/
theorem Grows.isTable_mono (h : Grows s s') (hb : s.IsTable b) : s'.IsTable b := by
  obtain ⟨p, hp, hw⟩ := hb
  exact ⟨p, hp, h.walk_mono p b hp hw⟩

theorem Grows.refl (s : Paging TableHeap) : Grows s s where
  pml4_eq := rfl
  failures_eq := rfl
  total_eq := rfl
  used_mono _ h := h
  taken j h h' := by rw [h] at h'; cases h'
  walk_mono _ _ _ h := h
  isTable_new _ h := .inl h

theorem Grows.trans {s₁ s₂ s₃ : Paging TableHeap} (h : Grows s₁ s₂) (h' : Grows s₂ s₃) :
    Grows s₁ s₃ where
  pml4_eq := h'.pml4_eq.trans h.pml4_eq
  failures_eq := h'.failures_eq.trans h.failures_eq
  total_eq := h'.total_eq.trans h.total_eq
  used_mono j hj := h'.used_mono j (h.used_mono j hj)
  taken j hj hj' := by
    cases hm : s₂.pmm.testBit j with
    | false => exact h'.taken j hm hj'
    | true =>
      obtain ⟨b, hb, hbj⟩ := h.taken j hj hm
      exact ⟨b, h'.isTable_mono hb, hbj⟩
  walk_mono p b hp hb := h'.walk_mono p b hp (h.walk_mono p b hp hb)
  isTable_new b hb := by
    rcases h'.isTable_new b hb with hb | hb
    · exact h.isTable_new b hb
    · refine .inr ?_
      by_contra hc
      rw [Bool.not_eq_false] at hc
      rw [h.used_mono _ hc] at hb
      cases hb

/-- The tables other than the root have counted their entries. -/
def Counted {M : Type} [TableMemory M] (s : Paging M) : Prop :=
  ∀ p a, p ≠ [] → p.length ≤ 3 → walk (link s.mem) s.pml4 p = some a →
    (refCount s.mem a).toNat = slotCount (link s.mem) a

/-- The tables other than the root and `x` have a present entry. -/
def NonemptyBut {M : Type} [TableMemory M] (s : Paging M) (x : U64) : Prop :=
  ∀ p a, p ≠ [] → p.length ≤ 3 → walk (link s.mem) s.pml4 p = some a → a ≠ x →
    0 < slotCount (link s.mem) a

/-- `s'` is `s` with the new empty table `f`, so far free, linked at the slot `i` of
the table `a`. -/
structure LinksNew (s : Paging TableHeap) (a : U64) (i : Fin 512) (f : U64)
    (s' : Paging TableHeap) : Prop where
  absent : link s.mem a i = none
  aligned : f &&& frameMask = f
  ne_zero : f ≠ 0
  free : s.pmm.testBit (frameOf f) = false
  pml4_eq : s'.pml4 = s.pml4
  link_eq : link s'.mem = setChild (emptyNode (link s.mem) f) a i (some f)
  refCount_eq : ∀ b, refCount s'.mem b =
    if b = a then refCount s.mem a + 1 else if b = f then 0 else refCount s.mem b
  testBit_eq : ∀ j, s'.pmm.testBit j = (s.pmm.testBit j || decide (j = frameOf f))
  failures_eq : s'.pmm.failures = s.pmm.failures
  total_eq : s'.pmm.totalFrames = s.pmm.totalFrames

/-- An allocation failed on the way from `s` to `s'`; with frame 0 in use there was nothing free. -/
structure FrameFailure (s s' : Paging TableHeap) : Prop where
  failures_lt : s.pmm.failures < s'.pmm.failures
  empty : s.pmm.testBit 0 = true → s.pmm.freeFrames = ∅

/-- The links after a new table has been linked. -/
theorem link_linkTable (s : Paging TableHeap) (a : U64) (i : Fin 512) (hf : f &&& frameMask = f) :
    link (linkTable s a i f).mem = setChild (emptyNode (link s.mem) f) a i (some f) := by
  simp [linkTable, entryLink_mk hf]

/-- The new table is the one that `get_next_table` reads back. -/
theorem entry_linkTable_and_frameMask (s : Paging TableHeap) (a : U64) (i : Fin 512)
    (hf : f &&& frameMask = f) : entry (linkTable s a i f).mem a i &&& frameMask = f := by
  apply and_frameMask_of_entryLink
  show link (linkTable s a i f).mem a i = _
  rw [link_linkTable s a i hf, setChild_self]

/-- Linking the frame that `pmm_alloc_frame` hands out. -/
theorem linksNew_linkTable (h : PageTree s) (ha : s.IsTable a) (hnone : link s.mem a i = none)
    (hf0 : (pmmAllocFrame s.pmm).1 ≠ 0) :
    LinksNew s a i (pmmAllocFrame s.pmm).1
      (linkTable { s with pmm := (pmmAllocFrame s.pmm).2 } a i (pmmAllocFrame s.pmm).1) := by
  obtain ⟨k, hk, -, hfk, hfree, hbits⟩ := pmmAllocFrame_ne_zero hf0
  -- the frame was free, and the tables are in frames in use
  have hfa : frameAddr k ≠ a := fun he => by
    have := h.used a ha
    rw [← he, frameOf_frameAddr hk, hfree] at this
    cases this
  have halign := frameAddr_aligned hk
  rw [hfk]
  refine ⟨hnone, halign, hfk ▸ hf0, by rwa [frameOf_frameAddr hk], rfl,
    link_linkTable _ a i halign, ?_, ?_, ?_, ?_⟩
  · intro b
    simp only [linkTable, refCount_setRefCount, refCount_setEntry, refCount_zeroFrame,
      if_neg hfa.symm]
  · intro j
    rw [frameOf_frameAddr hk]
    exact hbits j
  · exact (failures_pmmAllocFrame s.pmm).trans (by rw [if_neg hf0, Nat.add_zero])
  · exact totalFrames_pmmAllocFrame s.pmm

/-- **What `get_next_table` with `create` does to a table of a tree.** -/
theorem getNextTable_tree (h : PageTree s) (ha : s.IsTable a) (i : Fin 512) :
    (∃ b, link s.mem a i = some b ∧ getNextTable s a i true = (b, s)) ∨
    (∃ s', getNextTable s a i true = (0, s') ∧ FrameFailure s s') ∨
    (∃ f s', getNextTable s a i true = (f, s') ∧ LinksNew s a i f s') := by
  rcases getNextTable_true_cases s a i with hb | ⟨-, h0, hs'⟩ | ⟨hnone, f, s', rfl, hf0, rfl, hs'⟩
  · exact .inl hb
  · refine .inr (.inl ⟨_, hs', ?_, fun hz => freeFrames_eq_empty_of_null h0 hz⟩)
    simp [failures_pmmAllocFrame, h0]
  · have hl := linksNew_linkTable h ha hnone hf0
    exact .inr (.inr ⟨_, _, by rw [hs', entry_linkTable_and_frameMask _ a i hl.aligned], hl⟩)

namespace LinksNew

variable (hl : LinksNew s a i f s')
include hl

/-- The slots of the other tables are untouched. -/
theorem slotCount_eq (hba : b ≠ a) (hbf : b ≠ f) :
    slotCount (link s'.mem) b = slotCount (link s.mem) b := by
  rw [hl.link_eq, slotCount_setChild_of_ne hba]
  exact slotCount_congr fun _ => by rw [emptyNode_of_ne hbf]

/-- One frame is taken. -/
theorem card_free : s.pmm.freeFrames.card ≤ s'.pmm.freeFrames.card + 1 := by
  have : s'.pmm.freeFrames = s.pmm.freeFrames.erase (frameOf f) := by
    ext j
    simp only [Pmm.mem_freeFrames, hl.total_eq, hl.testBit_eq, Finset.mem_erase,
      Bool.or_eq_false_iff, decide_eq_false_iff_not]
    tauto
  rw [this]
  have := Finset.pred_card_le_card_erase (s := s.pmm.freeFrames) (a := frameOf f)
  omega

variable (h : PageTree s)
include h

theorem not_isTable : ¬ s.IsTable f := fun hf => by
  have := h.used f hf
  rw [hl.free] at this
  cases this

theorem tree_emptyNode : IsTree (emptyNode (link s.mem) f) s.pml4 3 :=
  h.tree.emptyNode (hl.not_isTable h)

variable (hq : walk (link s.mem) s.pml4 q = some a) (hlen : q.length ≤ 2)
include hq hlen

theorem walk_emptied : walk (emptyNode (link s.mem) f) s.pml4 q = some a := by
  rw [walk_emptyNode (hl.not_isTable h) (by omega), hq]

theorem ne_table : f ≠ a := fun he => hl.not_isTable h (he ▸ isTable_of_walk hq (by omega))

/-- Walks that do not go through the new slot are the same. -/
theorem walk_of_not_below {p : List (Fin 512)} (hp : ¬ q ++ [i] <+: p) (hpd : p.length ≤ 4) :
    walk (link s'.mem) s'.pml4 p = walk (link s.mem) s.pml4 p := by
  rw [hl.pml4_eq, hl.link_eq, walk_setChild_of_not_below (hl.tree_emptyNode h)
    (hl.walk_emptied h hq hlen) (by omega) hpd hp, walk_emptyNode (hl.not_isTable h) hpd]

/-- The walk to the new table. -/
theorem walk_new : walk (link s'.mem) s'.pml4 (q ++ [i]) = some f := by
  rw [hl.pml4_eq, hl.link_eq, walk_setChild_slot (hl.tree_emptyNode h)
    (hl.walk_emptied h hq hlen) (by omega)]

/-- A walk that arrives ends in the new table at the new slot, or arrived there before. -/
theorem walk_cases {p : List (Fin 512)} (hpd : p.length ≤ 4)
    (hb : walk (link s'.mem) s'.pml4 p = some b) :
    (p = q ++ [i] ∧ b = f) ∨ (¬ q ++ [i] <+: p ∧ walk (link s.mem) s.pml4 p = some b) := by
  rw [hl.pml4_eq, hl.link_eq] at hb
  rcases walk_of_walk_setChild_some (hl.tree_emptyNode h) (hl.walk_emptied h hq hlen) (by omega)
    (hl.ne_table h hq hlen) (fun _ => emptyNode_self) hpd hb with hb | ⟨hp, hb⟩
  · exact .inl hb
  · rw [walk_emptyNode (hl.not_isTable h) hpd] at hb
    exact .inr ⟨hp, hb⟩

theorem isTable_cases (hb : s'.IsTable b) : b = f ∨ s.IsTable b := by
  obtain ⟨p, hp, hw⟩ := hb
  rcases hl.walk_cases h hq hlen (by omega) hw with ⟨-, rfl⟩ | ⟨-, hw⟩
  exacts [.inl rfl, .inr ⟨p, hp, hw⟩]

/-- A walk that arrived arrives at the same table. -/
theorem walk_mono {p : List (Fin 512)} (hp : p.length ≤ 4)
    (hw : walk (link s.mem) s.pml4 p = some b) : walk (link s'.mem) s'.pml4 p = some b := by
  rw [hl.walk_of_not_below h hq hlen ?_ hp, hw]
  rintro ⟨r, rfl⟩
  rw [walk_append, walk_concat, hq, Option.bind_some, hl.absent] at hw
  cases hw

/-- Linking a new table keeps the tree of tables. -/
theorem pageTree : PageTree s' where
  root_aligned := by rw [hl.pml4_eq, h.root_aligned]
  tree := by
    rw [hl.pml4_eq, hl.link_eq]
    refine (hl.tree_emptyNode h).setChild_some (hl.walk_emptied h hq hlen) (by omega) ?_
      (fun _ => emptyNode_self)
    rintro ⟨p, hp, hw⟩
    rw [walk_emptyNode (hl.not_isTable h) (by omega)] at hw
    exact hl.not_isTable h ⟨p, hp, hw⟩
  ne_zero b hb := by
    rcases hl.isTable_cases h hq hlen hb with rfl | hb
    exacts [hl.ne_zero, h.ne_zero b hb]
  used b hb := by
    rw [hl.testBit_eq]
    rcases hl.isTable_cases h hq hlen hb with rfl | hb
    · simp
    · simp [h.used b hb]

/-- Linking a new table maps no page. -/
theorem pageFrame_eq (n : Fin (2 ^ 36)) : s'.pageFrame n = s.pageFrame n := by
  by_cases hp : q ++ [i] <+: pagePath n
  · obtain ⟨r, hr⟩ := hp
    have hr0 : r ≠ [] := by
      rintro rfl
      have := congrArg List.length hr
      simp at this
      omega
    have hold : s.pageFrame n = none := by
      rw [Paging.pageFrame, ← hr, walk_append, walk_concat, hq, Option.bind_some, hl.absent,
        Option.bind_none]
    rw [hold, Paging.pageFrame, ← hr, hl.pml4_eq, hl.link_eq,
      walk_setChild_some_of_below (hl.tree_emptyNode h) (hl.walk_emptied h hq hlen) (by omega)
        (hl.ne_table h hq hlen) (fun _ => emptyNode_self), if_neg hr0]
  · exact hl.walk_of_not_below h hq hlen hp (by simp)

theorem grows : Grows s s' where
  pml4_eq := hl.pml4_eq
  failures_eq := hl.failures_eq
  total_eq := hl.total_eq
  used_mono j hj := by rw [hl.testBit_eq, hj, Bool.true_or]
  taken j hj hj' := by
    rw [hl.testBit_eq, hj, Bool.false_or, decide_eq_true_iff] at hj'
    exact ⟨f, isTable_of_walk (hl.walk_new h hq hlen) (by simp; omega), hj'.symm⟩
  walk_mono p b hp hb := hl.walk_mono h hq hlen (by omega) hb
  isTable_new b hb := by
    rcases hl.isTable_cases h hq hlen hb with rfl | hb
    exacts [.inr hl.free, .inl hb]

theorem slotCount_self : slotCount (link s'.mem) a = slotCount (link s.mem) a + 1 := by
  have haf := (hl.ne_table h hq hlen).symm
  have hnone : emptyNode (link s.mem) f a i = none := by rw [emptyNode_of_ne haf, hl.absent]
  have hcount : slotCount (emptyNode (link s.mem) f) a = slotCount (link s.mem) a :=
    slotCount_congr fun _ => by rw [emptyNode_of_ne haf]
  rw [hl.link_eq, slotCount_setChild_some hnone, hcount]

theorem slotCount_new : slotCount (link s'.mem) f = 0 := by
  rw [hl.link_eq, slotCount_setChild_of_ne (hl.ne_table h hq hlen), slotCount_eq_zero]
  intro j
  simp

/-- Linking a new table keeps the counts. -/
theorem counted (hc : Counted s) : Counted s' := by
  intro p b hp hpd hb
  rw [hl.refCount_eq]
  rcases hl.walk_cases h hq hlen (by omega) hb with ⟨-, rfl⟩ | ⟨-, hw⟩
  · rw [if_neg (hl.ne_table h hq hlen), if_pos rfl, hl.slotCount_new h hq hlen]
    rfl
  · have hold := hc p b hp hpd hw
    by_cases hba : b = a
    · subst hba
      have hle : slotCount (link s.mem) b ≤ 512 := slotCount_le.trans (by simp)
      rw [if_pos rfl, hl.slotCount_self h hq hlen, ← hold]
      have h1 : (1 : U32).toNat = 1 := rfl
      rw [BitVec.toNat_add, h1, Nat.mod_eq_of_lt (by omega)]
    · have hbf : b ≠ f := fun he => hl.not_isTable h (he ▸ isTable_of_walk hw hpd)
      rw [if_neg hba, if_neg hbf, hold, hl.slotCount_eq hba hbf]

/-- After linking a new table, it is the only one that may be empty. -/
theorem nonemptyBut (hn : NonemptyBut s a) : NonemptyBut s' f := by
  intro p b hp hpd hb hbf
  rcases hl.walk_cases h hq hlen (by omega) hb with ⟨-, rfl⟩ | ⟨-, hw⟩
  · exact absurd rfl hbf
  · by_cases hba : b = a
    · subst hba
      rw [hl.slotCount_self h hq hlen]
      omega
    · rw [hl.slotCount_eq hba hbf]
      exact hn p b hp hpd hw hba

end LinksNew

/-- What one successful step of `get_next_table` with `create` leaves: the table `t` below the slot
`i` of the table `a` at `q`, with every page mapped as before. -/
structure Descends (s : Paging TableHeap) (a : U64) (q : List (Fin 512)) (i : Fin 512) (t : U64)
    (s' : Paging TableHeap) : Prop where
  tree : PageTree s'
  walk_eq : walk (link s'.mem) s'.pml4 (q ++ [i]) = some t
  pageFrame_eq : ∀ n, s'.pageFrame n = s.pageFrame n
  grows : Grows s s'
  card_free : s.pmm.freeFrames.card ≤ s'.pmm.freeFrames.card + 1
  counted : Counted s → Counted s'
  nonemptyBut : NonemptyBut s a → NonemptyBut s' t

/-- **One step down a tree of tables**: it fails for want of a frame, or arrives. -/
theorem PageTree.descend (h : PageTree s) (hq : walk (link s.mem) s.pml4 q = some a)
    (hlen : q.length ≤ 2) (i : Fin 512) :
    (∃ s', getNextTable s a i true = (0, s') ∧ FrameFailure s s') ∨
    ∃ t s', getNextTable s a i true = (t, s') ∧ t ≠ 0 ∧ Descends s a q i t s' := by
  rcases getNextTable_tree h (isTable_of_walk hq (by omega)) i with
    ⟨t, hlink, ht⟩ | hfail | ⟨f, s', ht, hl⟩
  · have hw : walk (link s.mem) s.pml4 (q ++ [i]) = some t := walk_concat_eq_some.mpr ⟨a, hq, hlink⟩
    refine .inr ⟨t, s, ht, h.ne_zero t (isTable_of_walk hw (by simp; omega)), h, hw, fun _ => rfl,
      Grows.refl s, Nat.le_succ _, id, fun hn p b hp hpd hb hbt => ?_⟩
    by_cases hba : b = a
    · exact slotCount_pos (i := i) (by rw [hba, hlink]; rfl)
    · exact hn p b hp hpd hb hba
  · exact .inl hfail
  · exact .inr ⟨f, s', ht, hl.ne_zero, hl.pageTree h hq hlen, hl.walk_new h hq hlen,
      hl.pageFrame_eq h hq hlen, hl.grows h hq hlen, hl.card_free, hl.counted h hq hlen,
      hl.nonemptyBut h hq hlen⟩

/-! ## Updates of the last table -/

/-- `s'` is `s` with the slot `i` of the page table `a` at `q` linked to `x`. -/
structure LeafUpdate (s : Paging TableHeap) (a : U64) (q : List (Fin 512)) (i : Fin 512)
    (x : Option U64) (s' : Paging TableHeap) : Prop where
  length_eq : q.length = 3
  walk_eq : walk (link s.mem) s.pml4 q = some a
  link_eq : link s'.mem = setChild (link s.mem) a i x
  pml4_eq : s'.pml4 = s.pml4
  pmm_eq : s'.pmm = s.pmm

namespace LeafUpdate

variable {x : Option U64} (hl : LeafUpdate s a q i x s') (h : PageTree s)
include hl h

/-- Walks that do not go through the slot are the same. -/
theorem walk_of_not_below {p : List (Fin 512)} (hp : ¬ q ++ [i] <+: p) (hpd : p.length ≤ 4) :
    walk (link s'.mem) s'.pml4 p = walk (link s.mem) s.pml4 p := by
  rw [hl.pml4_eq, hl.link_eq,
    walk_setChild_of_not_below h.tree hl.walk_eq (by rw [hl.length_eq]) hpd hp]

/-- The tables are where they were. -/
theorem walk_of_le {p : List (Fin 512)} (hpd : p.length ≤ 3) :
    walk (link s'.mem) s'.pml4 p = walk (link s.mem) s.pml4 p := by
  refine hl.walk_of_not_below h (fun hp => ?_) (by omega)
  have := hp.length_le
  simp only [List.length_append, List.length_singleton, hl.length_eq] at this
  omega

theorem isTable_iff : s'.IsTable b ↔ s.IsTable b :=
  exists_congr fun p => and_congr_right fun hp => by rw [hl.walk_of_le h hp]

theorem pageTree : PageTree s' where
  root_aligned := by rw [hl.pml4_eq, h.root_aligned]
  tree p p' b hp hp' hb hb' := by
    rw [hl.walk_of_le h hp] at hb
    rw [hl.walk_of_le h hp'] at hb'
    exact h.tree p p' b hp hp' hb hb'
  ne_zero b hb := h.ne_zero b ((hl.isTable_iff h).mp hb)
  used b hb := by rw [hl.pmm_eq]; exact h.used b ((hl.isTable_iff h).mp hb)

/-- The page behind the slot is mapped to `x`, the others as before. -/
theorem pageFrame_eq (n : Fin (2 ^ 36)) :
    s'.pageFrame n = if pagePath n = q ++ [i] then x else s.pageFrame n := by
  split
  · next hn =>
    rw [Paging.pageFrame, hn, hl.pml4_eq, hl.link_eq,
      walk_setChild_slot h.tree hl.walk_eq (by rw [hl.length_eq])]
  · next hn =>
    refine hl.walk_of_not_below h (fun hp => hn ?_) (by simp)
    exact (hp.eq_of_length (by simp [hl.length_eq])).symm

theorem grows : Grows s s' where
  pml4_eq := hl.pml4_eq
  failures_eq := by rw [hl.pmm_eq]
  total_eq := by rw [hl.pmm_eq]
  used_mono j hj := by rwa [hl.pmm_eq]
  taken j hj hj' := by rw [hl.pmm_eq, hj] at hj'; cases hj'
  walk_mono p b hp hb := by rw [hl.walk_of_le h hp, hb]
  isTable_new b hb := .inl ((hl.isTable_iff h).mp hb)

end LeafUpdate

/-! ## One step of the free cascade -/

/-- `s'` is `s` with the table `c` below the slot `i` of the table `a` at `q` freed and unlinked. -/
structure Unlinks (s : Paging TableHeap) (a : U64) (q : List (Fin 512)) (i : Fin 512) (c : U64)
    (s' : Paging TableHeap) : Prop where
  length_le : q.length ≤ 2
  walk_eq : walk (link s.mem) s.pml4 q = some a
  present : link s.mem a i = some c
  link_eq : link s'.mem = setChild (link s.mem) a i none
  pml4_eq : s'.pml4 = s.pml4
  pmm_eq : s'.pmm = pmmFreeFrame s.pmm c

namespace Unlinks

variable {c : U64} (hl : Unlinks s a q i c s') (h : PageTree s)
include hl

theorem walk_child : walk (link s.mem) s.pml4 (q ++ [i]) = some c :=
  walk_concat_eq_some.mpr ⟨a, hl.walk_eq, hl.present⟩

theorem isTable_child : s.IsTable c :=
  isTable_of_walk hl.walk_child (by have := hl.length_le; simp; omega)

include h

theorem walk_of_not_below {p : List (Fin 512)} (hp : ¬ q ++ [i] <+: p) (hpd : p.length ≤ 4) :
    walk (link s'.mem) s'.pml4 p = walk (link s.mem) s.pml4 p := by
  rw [hl.pml4_eq, hl.link_eq, walk_setChild_of_not_below h.tree hl.walk_eq
    (by have := hl.length_le; omega) hpd hp]

theorem walk_of_below {p : List (Fin 512)} (hp : q ++ [i] <+: p) :
    walk (link s'.mem) s'.pml4 p = none := by
  rw [hl.pml4_eq, hl.link_eq, walk_setChild_none_of_below h.tree hl.walk_eq
    (by have := hl.length_le; omega) hp]

/-- A walk that arrives arrived before, and not through the emptied slot. -/
theorem walk_cases {p : List (Fin 512)} (hpd : p.length ≤ 4)
    (hb : walk (link s'.mem) s'.pml4 p = some b) :
    ¬ q ++ [i] <+: p ∧ walk (link s.mem) s.pml4 p = some b := by
  by_cases hp : q ++ [i] <+: p
  · rw [hl.walk_of_below h hp] at hb
    cases hb
  · rw [hl.walk_of_not_below h hp hpd] at hb
    exact ⟨hp, hb⟩

theorem isTable_of (hb : s'.IsTable b) : s.IsTable b := by
  obtain ⟨p, hp, hw⟩ := hb
  exact ⟨p, hp, (hl.walk_cases h (by omega) hw).2⟩

/-- The freed table is a table no more. -/
theorem ne_child (hb : s'.IsTable b) : b ≠ c := by
  rintro rfl
  obtain ⟨p, hp, hw⟩ := hb
  obtain ⟨hnp, hw⟩ := hl.walk_cases h (by omega) hw
  have := hl.length_le
  obtain rfl := h.tree p (q ++ [i]) b hp (by simp; omega) hw hl.walk_child
  exact hnp (List.prefix_refl _)

/-- **Freeing and unlinking a table keeps the tree of tables**, whatever was below it. -/
theorem pageTree : PageTree s' where
  root_aligned := by rw [hl.pml4_eq, h.root_aligned]
  tree := by
    rw [hl.pml4_eq, hl.link_eq]
    exact h.tree.setChild_none hl.walk_eq (by have := hl.length_le; omega)
  ne_zero b hb := h.ne_zero b (hl.isTable_of h hb)
  used b hb := by
    have hne : frameOf b ≠ frameOf c := fun he =>
      hl.ne_child h hb (h.frameOf_inj (hl.isTable_of h hb) (h.aligned hl.isTable_child) he)
    rw [hl.pmm_eq, testBit_pmmFreeFrame, h.used b (hl.isTable_of h hb)]
    simp [hne]

/-- Unlinking an empty table unmaps no page. -/
theorem pageFrame_eq (hc : slotCount (link s.mem) c = 0) (n : Fin (2 ^ 36)) :
    s'.pageFrame n = s.pageFrame n := by
  by_cases hp : q ++ [i] <+: pagePath n
  · have hnew : s'.pageFrame n = none := hl.walk_of_below h hp
    obtain ⟨r, hr⟩ := hp
    rw [hnew, Paging.pageFrame, ← hr, walk_append, hl.walk_child, Option.bind_some]
    cases r with
    | nil =>
      have := congrArg List.length hr
      have := hl.length_le
      simp at *
      omega
    | cons j r => rw [walk_cons, slotCount_eq_zero.mp hc j, Option.bind_none]
  · exact hl.walk_of_not_below h hp (by simp)

/-- Unlinking an empty table loses no table but that one. -/
theorem isTable_or_eq (hc : slotCount (link s.mem) c = 0) (hb : s.IsTable b) :
    s'.IsTable b ∨ b = c := by
  obtain ⟨p, hpd, hw⟩ := hb
  by_cases hp : q ++ [i] <+: p
  · obtain ⟨r, rfl⟩ := hp
    rw [walk_append, hl.walk_child, Option.bind_some] at hw
    cases r with
    | nil => exact .inr (Option.some.inj hw).symm
    | cons j r =>
      rw [walk_cons, slotCount_eq_zero.mp hc j] at hw
      cases hw
  · exact .inl ⟨p, hpd, by rw [hl.walk_of_not_below h hp (by omega), hw]⟩

end Unlinks

end OS44
