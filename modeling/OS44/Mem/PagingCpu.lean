import OS44.Mem.TablesOnBytes

/-! # The software walk and the processor's walk

The processor's four-level walk: an entry of the second or third level with the `PS` bit is a leaf,
and an entry's address is its bits 12 to 51. The code looks at the `PRESENT` bit only and takes bits
12 to 63 for the address.

`PlainTables` and `PlainLeaf` collect the flags on which the two walks part, and `CountersApart` the
placements in which the counters of `paging_map` overwrite its own walk; without them the two walks
agree (`paging_cpu_agrees`). -/

namespace OS44

open LinkedTree LittleEndian TableMemory

/-- Bits 12 to 51. -/
def physMask : U64 := 0x000FFFFFFFFFF000

/-- The `PS` bit. -/
def pageSizeBit : U64 := 0x80

/-- The processor's translation of `v`; `none` is a page fault. -/
def cpuTranslate {M : Type} [TableMemory M] (m : M) (cr3 v : U64) : Option U64 :=
  let pml4e := entry m (cr3 &&& physMask) (pml4Idx v)
  if pml4e &&& pagePresent = 0 then none
  else
    let pdpte := entry m (pml4e &&& physMask) (pdptIdx v)
    if pdpte &&& pagePresent = 0 then none
    -- a 1 GiB page
    else if pdpte &&& pageSizeBit ≠ 0 then some (pdpte &&& 0x000FFFFFC0000000 ||| v &&& 0x3FFFFFFF)
    else
      let pde := entry m (pdpte &&& physMask) (pdIdx v)
      if pde &&& pagePresent = 0 then none
      -- a 2 MiB page
      else if pde &&& pageSizeBit ≠ 0 then some (pde &&& 0x000FFFFFFFE00000 ||| v &&& 0x1FFFFF)
      else
        let pte := entry m (pde &&& physMask) (ptIdx v)
        if pte &&& pagePresent = 0 then none else some (pte &&& physMask ||| v &&& 0xFFF)

section Walks

variable {M : Type} [TableMemory M]

/-- **The flags in the tables above the page table**, on the walk of `v`, are those the code knows:
no present entry has a bit above 51, and none of the second and third level has the `PS` bit. -/
structure PlainTables (s : Paging M) (v : U64) : Prop where
  low : ∀ q i t, q ++ [i] <+: pagePath (pageOf v) → q.length ≤ 2 →
    walk (link s.mem) s.pml4 q = some t → link s.mem t i ≠ none → (entry s.mem t i).toNat < 2 ^ 52
  noLeaf : ∀ q i t, q ++ [i] <+: pagePath (pageOf v) → q.length = 1 ∨ q.length = 2 →
    walk (link s.mem) s.pml4 q = some t → link s.mem t i ≠ none →
    entry s.mem t i &&& pageSizeBit = 0

/-- The entry of the page itself, where there is one, has no bit above 51. -/
def PlainLeaf (s : Paging M) (v : U64) : Prop :=
  ∀ t, walk (link s.mem) s.pml4 [pml4Idx v, pdptIdx v, pdIdx v] = some t →
    link s.mem t (ptIdx v) ≠ none → (entry s.mem t (ptIdx v)).toNat < 2 ^ 52

/-- **The tables on the walk of `v`** are those of a tree: none at address 0, no two in one frame,
all of them in frames that are marked used. -/
structure TreeWalk (s : Paging M) (v : U64) : Prop where
  ne_zero : ∀ q t, q <+: [pml4Idx v, pdptIdx v, pdIdx v] →
    walk (link s.mem) s.pml4 q = some t → t ≠ 0
  used : ∀ q t, q <+: [pml4Idx v, pdptIdx v, pdIdx v] →
    walk (link s.mem) s.pml4 q = some t → s.pmm.testBit (frameOf t) = true
  distinct : ∀ q r t, q <+: [pml4Idx v, pdptIdx v, pdIdx v] →
    r <+: [pml4Idx v, pdptIdx v, pdIdx v] → walk (link s.mem) s.pml4 q = some t →
    walk (link s.mem) s.pml4 r = some t → q = r

variable {s : Paging M} {m : M} {v t a x e : U64} {i : Fin 512}

theorem getLsbD_physMask (i : ℕ) : physMask.getLsbD i = decide (12 ≤ i ∧ i < 52) := by
  by_cases hi : i < 64
  · have : ∀ i < 64, physMask.getLsbD i = decide (12 ≤ i ∧ i < 52) := by decide
    exact this i hi
  · rw [BitVec.getLsbD_of_ge _ _ (by omega)]
    simp
    omega

/-- Below bit 52 both sides take the same address out of an entry. -/
theorem and_physMask (h : e.toNat < 2 ^ 52) : e &&& physMask = e &&& frameMask := by
  apply BitVec.eq_of_getLsbD_eq
  intro i hi
  rw [BitVec.getLsbD_and, BitVec.getLsbD_and, getLsbD_physMask, getLsbD_frameMask]
  by_cases h52 : i < 52
  · have hiff : (12 ≤ i ∧ i < 52) ↔ (12 ≤ i ∧ i < 64) := by omega
    simp only [hiff]
  · have : e.getLsbD i = false := by
      rw [BitVec.getLsbD, Nat.testBit_lt_two_pow]
      exact h.trans_le (Nat.pow_le_pow_right (by decide) (by omega))
    simp [this]

/-- An entry that links to `a` for the code, and whose address the processor reads as `a`. -/
structure PlainLink (m : M) (t : U64) (i : Fin 512) (a : U64) : Prop where
  link_eq : link m t i = some a
  low : (entry m t i).toNat < 2 ^ 52

theorem PlainLink.present (h : PlainLink m t i a) :
    ¬ entry m t i &&& pagePresent = 0 := fun hp => by
  have := h.link_eq
  rw [link, entryLink_of_absent hp] at this
  cases this

theorem PlainLink.and_physMask (h : PlainLink m t i a) : entry m t i &&& physMask = a := by
  have := h.link_eq
  rw [link, entryLink_of_present h.present] at this
  rw [OS44.and_physMask h.low, Option.some.inj this]

theorem PlainLink.of_entry_eq {m' : M} (h : PlainLink m t i a) (he : entry m' t i = entry m t i) :
    PlainLink m' t i a := ⟨by rw [link, he, ← link, h.link_eq], he ▸ h.low⟩

/-- The processor's walk along four such entries, no leaf among them. -/
theorem cpuTranslate_of_links {cr3 root pdpt pd pt f : U64} (hcr3 : cr3 &&& physMask = root)
    (h4 : PlainLink m root (pml4Idx v) pdpt) (h3 : PlainLink m pdpt (pdptIdx v) pd)
    (hleaf3 : entry m pdpt (pdptIdx v) &&& pageSizeBit = 0) (h2 : PlainLink m pd (pdIdx v) pt)
    (hleaf2 : entry m pd (pdIdx v) &&& pageSizeBit = 0) (h1 : PlainLink m pt (ptIdx v) f) :
    cpuTranslate m cr3 v = some (f ||| v &&& 0xFFF) := by
  simp only [cpuTranslate, hcr3, if_neg h4.present, h4.and_physMask, if_neg h3.present, hleaf3,
    h3.and_physMask, if_neg h2.present, hleaf2, h2.and_physMask, if_neg h1.present,
    h1.and_physMask, ne_eq, not_true_eq_false, if_false]

/-- An absent entry ends the processor's walk. -/
theorem entry_absent (h : link m t i = none) : entry m t i &&& pagePresent = 0 :=
  entryLink_eq_none.mp h

/-- **What the processor finds** behind plain tables: nothing, or the tables of the code's walk and
the entry of a page. -/
theorem cpuTranslate_of_plainTables {cr3 : U64} (hcr3 : cr3 &&& physMask = s.pml4)
    (hplain : PlainTables s v) (htree : TreeWalk s v) :
    (cpuTranslate s.mem cr3 v = none ∧
      ∀ t, walk (link s.mem) s.pml4 [pml4Idx v, pdptIdx v, pdIdx v] = some t →
        link s.mem t (ptIdx v) = none) ∨
    ∃ pdpt pd pt, HasTables s v pdpt pd pt ∧ ¬ entry s.mem pt (ptIdx v) &&& pagePresent = 0 ∧
      cpuTranslate s.mem cr3 v = some (entry s.mem pt (ptIdx v) &&& physMask ||| v &&& 0xFFF) := by
  have hpath := pagePath_pageOf v
  have hplain4 := hplain.low [] (pml4Idx v) s.pml4 (by rw [hpath]; simp) (by simp) rfl
  -- level by level: where the link is absent the processor finds nothing
  rcases h4 : link s.mem s.pml4 (pml4Idx v) with _ | pdpt
  · refine .inl ⟨by simp only [cpuTranslate, hcr3, if_pos (entry_absent h4)], fun t ht => ?_⟩
    rw [walk_cons, h4] at ht
    cases ht
  have w3 : walk (link s.mem) s.pml4 [pml4Idx v] = some pdpt := by simp [h4]
  have l4 : PlainLink s.mem s.pml4 (pml4Idx v) pdpt := ⟨h4, hplain4 (by simp [h4])⟩
  have hleaf3 := hplain.noLeaf [pml4Idx v] (pdptIdx v) pdpt (by rw [hpath]; simp) (by simp) w3
  rcases h3 : link s.mem pdpt (pdptIdx v) with _ | pd
  · refine .inl ⟨?_, fun t ht => ?_⟩
    · simp only [cpuTranslate, hcr3, if_neg l4.present, l4.and_physMask, if_pos (entry_absent h3)]
    · simp only [walk_cons, h4, h3, Option.bind_some, Option.bind_none, reduceCtorEq] at ht
  have w2 : walk (link s.mem) s.pml4 [pml4Idx v, pdptIdx v] = some pd := by simp [h4, h3]
  have l3 : PlainLink s.mem pdpt (pdptIdx v) pd :=
    ⟨h3, hplain.low [pml4Idx v] _ pdpt (by rw [hpath]; simp) (by simp) w3 (by simp [h3])⟩
  have hleaf2 := hplain.noLeaf [pml4Idx v, pdptIdx v] (pdIdx v) pd
      (by rw [hpath]; simp) (by simp) w2
  have n3 := hleaf3 (by simp [h3])
  rcases h2 : link s.mem pd (pdIdx v) with _ | pt
  · refine .inl ⟨?_, fun t ht => ?_⟩
    · simp only [cpuTranslate, hcr3, if_neg l4.present, l4.and_physMask, if_neg l3.present, n3,
        l3.and_physMask, if_pos (entry_absent h2), ne_eq, not_true_eq_false, if_false]
    · simp only [walk_cons, h4, h3, h2, Option.bind_some, Option.bind_none, reduceCtorEq] at ht
  have w1 : walk (link s.mem) s.pml4 [pml4Idx v, pdptIdx v, pdIdx v] = some pt := by
    simp [h4, h3, h2]
  have l2 : PlainLink s.mem pd (pdIdx v) pt :=
    ⟨h2, hplain.low [pml4Idx v, pdptIdx v] _ pd (by rw [hpath]; simp) (by simp) w2 (by simp [h2])⟩
  have n2 := hleaf2 (by simp [h2])
  have hcpu : cpuTranslate s.mem cr3 v =
      if entry s.mem pt (ptIdx v) &&& pagePresent = 0 then none
      else some (entry s.mem pt (ptIdx v) &&& physMask ||| v &&& 0xFFF) := by
    simp only [cpuTranslate, hcr3, if_neg l4.present, l4.and_physMask, if_neg l3.present, n3,
      l3.and_physMask, if_neg l2.present, n2, l2.and_physMask, ne_eq, not_true_eq_false, if_false]
  by_cases h1 : entry s.mem pt (ptIdx v) &&& pagePresent = 0
  · refine .inl ⟨by rw [hcpu, if_pos h1], fun t ht => ?_⟩
    obtain rfl := Option.some.inj (w1.symm.trans ht)
    exact entryLink_of_absent h1
  · exact .inr ⟨pdpt, pd, pt, ⟨htree.ne_zero [] _ (by simp) rfl, htree.ne_zero _ _ (by simp) w3,
      htree.ne_zero _ _ (by simp) w2, htree.ne_zero _ _ (by simp) w1, h4, h3, h2⟩, h1,
      by rw [hcpu, if_neg h1]⟩

/-- An entry with a bit above 51 has another address for the code than for the processor. -/
theorem or_and_physMask_ne (h : ¬ e.toNat < 2 ^ 52) :
    e &&& frameMask ||| v &&& 0xFFF ≠ e &&& physMask ||| v &&& 0xFFF := by
  intro he
  -- a bit from 52 on is kept by the one mask and by no other
  obtain ⟨i, hi, hbit⟩ : ∃ i, 52 ≤ i ∧ e.getLsbD i = true := by
    by_contra hno
    refine h (Nat.lt_pow_two_of_testBit _ fun i hi => ?_)
    by_contra hne
    exact hno ⟨i, hi, by simpa [BitVec.getLsbD] using hne⟩
  have hlt : i < 64 := BitVec.lt_of_getLsbD hbit
  have hlow : ∀ i < 64, 52 ≤ i → (0xFFF : U64).getLsbD i = false := by decide
  have := congrArg (fun b : U64 => b.getLsbD i) he
  simp only [BitVec.getLsbD_or, BitVec.getLsbD_and, getLsbD_frameMask, getLsbD_physMask, hbit,
    hlow i hlt hi, Bool.and_false, Bool.or_false, Bool.true_and, decide_eq_decide] at this
  omega

/-- **The code's lookup is the processor's translation**, behind plain tables, exactly if the entry
of the page is plain as well. -/
theorem agrees_iff_plainLeaf {cr3 : U64} (hcr3 : cr3 &&& physMask = s.pml4)
    (hplain : PlainTables s v) (htree : TreeWalk s v) :
    (∀ x, cpuTranslate s.mem cr3 v = some x → pagingGetPhysical s v = x) ↔ PlainLeaf s v := by
  rcases cpuTranslate_of_plainTables hcr3 hplain htree with
    ⟨hnone, habsent⟩ | ⟨pdpt, pd, pt, ht, hp, hcpu⟩
  · refine iff_of_true (fun x hx => ?_) fun t ht hne => absurd (habsent t ht) hne
    rw [hnone] at hx
    cases hx
  have hcode : pagingGetPhysical s v = entry s.mem pt (ptIdx v) &&& frameMask ||| v &&& 0xFFF := by
    rw [ht.pagingGetPhysical, link, entryLink_of_present hp]
    rfl
  have hw := ht.walks.2.2
  simp only [hcpu, Option.some.injEq, forall_eq', hcode]
  constructor
  · intro he t hwt _
    obtain rfl := Option.some.inj (hw.symm.trans hwt)
    by_contra hlow
    exact or_and_physMask_ne hlow he
  · intro hleaf
    have hlow := hleaf pt hw (by rw [link, entryLink_of_present hp]; simp)
    rw [and_physMask hlow]

end Walks

/-! ## One step of `paging_map` -/

/-- The way to the page of `v`, as far as each of the four tables on it leads. -/
def waysTo (v : U64) : List (List (Fin 512)) :=
  (List.range 4).map fun k => (pagePath (pageOf v)).take (k + 1)

theorem waysTo_eq (v : U64) : waysTo v = [[pml4Idx v], [pml4Idx v, pdptIdx v],
    [pml4Idx v, pdptIdx v, pdIdx v], [pml4Idx v, pdptIdx v, pdIdx v, ptIdx v]] := by
  rw [waysTo, pagePath_pageOf]
  rfl

/-- **The counters stay off the walk of `v`**: where a table on it directly follows one whose
counter is stored, so that the counter is its entry 0, the walk does not use that entry. (The page
itself is written last.) -/
def CountersApart {M : Type} [TableMemory M] (s : Paging M) (v : U64) : Prop :=
  ∀ t, StoresCounter s v t → ∀ x ∈ (tablesFor s v).zip [pml4Idx v, pdptIdx v, pdIdx v],
    x.1 = refCountAddr t → x.2.val ≠ 0

variable {s₀ s s' : Paging TableBytes} {v p t a b f : U64} {i j k : Fin 512} {q r : List (Fin 512)}

/-- `paging_map` has come along `q` to the table `t` and goes on to the slot `i`: the table was
there at the start and nothing has changed, or it is new and the slot is empty. -/
structure Arrived (s₀ : Paging TableBytes) (q : List (Fin 512)) (s : Paging TableBytes) (t : U64)
    (i : Fin 512) : Prop where
  aligned : t &&& frameMask = t
  used : s.pmm.testBit (frameOf t) = true
  cases : (s = s₀ ∧ walk (link s₀.mem) s₀.pml4 q = some t) ∨
    (walk (link s₀.mem) s₀.pml4 q = none ∧ entry s.mem t i = 0)

theorem Arrived.walk_or (ha : Arrived s₀ q s t i) :
    walk (link s₀.mem) s₀.pml4 q = none ∨ walk (link s₀.mem) s₀.pml4 q = some t := by
  rcases ha.cases with ⟨-, hw⟩ | ⟨hw, -⟩
  exacts [.inr hw, .inl hw]

/-- One step of `paging_map` that gets the frame it needs: from the table `t` at `q` to `a`. -/
inductive Down (s₀ : Paging TableBytes) (q : List (Fin 512)) (i : Fin 512) (s : Paging TableBytes)
    (t a : U64) (s' : Paging TableBytes) : Prop
  /-- The table is there. -/
  | found (hs : s = s₀) (hs' : s' = s₀) (hw : walk (link s₀.mem) s₀.pml4 (q ++ [i]) = some a)
  /-- The table is a new frame. -/
  | linked (hw : walk (link s₀.mem) s₀.pml4 (q ++ [i]) = none) (hne : a ≠ 0)
      (haligned : a &&& frameMask = a) (hlt : a.toNat < 2 ^ 32)
      (hfree : s.pmm.testBit (frameOf a) = false)
      (hbits : ∀ j, s'.pmm.testBit j = (s.pmm.testBit j || decide (j = frameOf a)))
      (hentry : ∀ b j, b &&& frameMask = b → (b = refCountAddr a → j ≠ 0) →
        (b = refCountAddr t → j ≠ 0) → entry s'.mem b j =
          if b = t ∧ j = i then a ||| pagePresent ||| pageWritable
          else if b = a then 0 else entry s.mem b j)

/-- **What a step of `paging_map` does in memory.** -/
theorem Arrived.down (ha : Arrived s₀ q s t i) (hs : getNextTable s t i true = (a, s'))
    (hnf : s'.pmm.failures = s.pmm.failures)
    (hc : walk (link s₀.mem) s₀.pml4 (q ++ [i]) = none →
      t = refCountAddr (nextTable s.pmm (walk (link s₀.mem) s₀.pml4 (q ++ [i]))).1 → i ≠ 0) :
    (a, s'.pmm) = nextTable s.pmm (walk (link s₀.mem) s₀.pml4 (q ++ [i])) ∧
      s'.pml4 = s.pml4 ∧ Down s₀ q i s t a s' := by
  have hwalk : walk (link s₀.mem) s₀.pml4 (q ++ [i]) = link s.mem t i := by
    rcases ha.cases with ⟨rfl, hw⟩ | ⟨hw, h0⟩
    · rw [walk_concat, hw, Option.bind_some]
    · rw [walk_concat, hw, link, h0, entryLink_zero, Option.bind_none]
  rcases getNextTable_true_cases s t i with ⟨b, hb, hb'⟩ | ⟨hn, h0, h0'⟩ |
    ⟨hn, f, s₁, hf, hf0, rfl, hf'⟩
  · -- the slot has a link, so that the table is one of the start
    rw [hb'] at hs
    obtain ⟨rfl, rfl⟩ := Prod.mk.inj hs
    rcases ha.cases with ⟨rfl, -⟩ | ⟨-, h0⟩
    · exact ⟨by rw [hwalk, hb, nextTable], rfl, .found rfl rfl (hwalk.trans hb)⟩
    · rw [link, h0, entryLink_zero] at hb
      cases hb
  · -- no frame: excluded
    rw [h0'] at hs
    rw [← (Prod.mk.inj hs).2, failures_pmmAllocFrame, if_pos h0] at hnf
    omega
  · -- a new table in a frame that was free
    obtain ⟨n, hn', -, hfn, hfree, hbits⟩ := pmmAllocFrame_ne_zero (hf ▸ hf0)
    rw [hf] at hfn
    have haligned : f &&& frameMask = f := hfn ▸ frameAddr_aligned hn'
    have hframe : frameOf f = n := by rw [hfn, frameOf_frameAddr hn']
    have hnext : nextTable s.pmm (walk (link s₀.mem) s₀.pml4 (q ++ [i])) = pmmAllocFrame s.pmm := by
      rw [hwalk, hn, nextTable]
    rw [hnext, hf] at hc
    have hc := hc (hwalk.trans hn)
    have hself : entry (linkTable { s with pmm := (pmmAllocFrame s.pmm).2 } t i f).mem t i =
        f ||| pagePresent ||| pageWritable := by
      rw [entry_linkTable _ ha.aligned haligned ha.aligned hc
        (fun h => absurd h (refCountAddr_ne t).symm), if_pos ⟨rfl, rfl⟩]
    have haf : a = f := by
      rw [hf'] at hs
      rw [← (Prod.mk.inj hs).1]
      apply and_frameMask_of_entryLink
      rw [hself]
      exact entryLink_mk haligned
    rw [hf'] at hs
    obtain ⟨-, rfl⟩ := Prod.mk.inj hs
    subst haf
    refine ⟨by rw [hnext, ← hf]; rfl, rfl, .linked (hwalk.trans hn) hf0 haligned ?_ ?_ ?_ ?_⟩
    · rw [hfn, toNat_frameAddr hn']
      omega
    · rw [hframe, hfree]
    · rw [hframe]
      exact hbits
    · intro b j hb hcf hct
      exact entry_linkTable _ ha.aligned haligned hb hcf hct

namespace Down

theorem used_mono (hd : Down s₀ q i s t a s') {n : ℕ} (hn : s.pmm.testBit n = true) :
    s'.pmm.testBit n = true := by
  cases hd with
  | found hs hs' _ => rwa [hs', ← hs]
  | linked _ _ _ _ _ hbits _ => rw [hbits, hn, Bool.true_or]

/-- A link to a new frame is plain. -/
theorem plain_mk (ha : a &&& frameMask = a) (hlt : a.toNat < 2 ^ 32) :
    (a ||| pagePresent ||| pageWritable).toNat < 2 ^ 52 ∧
      (a ||| pagePresent ||| pageWritable) &&& pageSizeBit = 0 := by
  refine ⟨?_, ?_⟩
  · have h1 : pagePresent.toNat < 2 ^ 52 := by decide
    have h2 : pageWritable.toNat < 2 ^ 52 := by decide
    rw [BitVec.toNat_or, BitVec.toNat_or]
    exact Nat.or_lt_two_pow (Nat.or_lt_two_pow (by omega) h1) h2
  · have h0 : frameMask &&& pageSizeBit = 0 := by decide
    have h1 : pagePresent &&& pageSizeBit = 0 := by decide
    have h2 : pageWritable &&& pageSizeBit = 0 := by decide
    have ha0 : a &&& pageSizeBit = 0 := by
      rw [← ha, BitVec.and_assoc, h0]
      simp
    rw [BitVec.and_or_distrib_right, BitVec.and_or_distrib_right, ha0, h1, h2]
    decide

theorem ne_zero (hd : Down s₀ q i s t a s') (htree : TreeWalk s₀ v)
    (hq : q ++ [i] <+: [pml4Idx v, pdptIdx v, pdIdx v]) : a ≠ 0 := by
  cases hd with
  | found _ _ hw => exact htree.ne_zero _ _ hq hw
  | linked _ hne _ _ _ _ _ => exact hne

variable (ha : Arrived s₀ q s t i) (hd : Down s₀ q i s t a s')
include ha hd

/-- After the step the slot holds a plain link to the table. -/
theorem plainLink (hplain : PlainTables s₀ v) (hq : q ++ [i] <+: pagePath (pageOf v))
    (hlen : q.length ≤ 2)
    (hc : walk (link s₀.mem) s₀.pml4 (q ++ [i]) = none → t = refCountAddr a → i ≠ 0) :
    PlainLink s'.mem t i a ∧
      (q.length = 1 ∨ q.length = 2 → entry s'.mem t i &&& pageSizeBit = 0) := by
  cases hd with
  | found hs hs' hw =>
    subst hs hs'
    obtain ⟨t', ht', hl⟩ := walk_concat_eq_some.mp hw
    -- a table that was there all along is a table of the walk at the start
    rcases ha.cases with ⟨-, hw'⟩ | ⟨hw', -⟩
    · obtain rfl := Option.some.inj (hw'.symm.trans ht')
      exact ⟨⟨hl, hplain.low q i t hq hlen hw' (by simp [hl])⟩,
        fun hlen => hplain.noLeaf q i t hq hlen hw' (by simp [hl])⟩
    · rw [hw'] at ht'
      cases ht'
  | linked hw hne haligned hlt hfree hbits hentry =>
    have he := hentry t i ha.aligned (hc hw) fun h => absurd h (refCountAddr_ne t).symm
    rw [if_pos ⟨rfl, rfl⟩] at he
    obtain ⟨hlow, hps⟩ := plain_mk haligned hlt
    exact ⟨⟨by rw [link, he, entryLink_mk haligned], by rw [he]; exact hlow⟩,
      fun _ => by rw [he]; exact hps⟩

/-- After the step `paging_map` has arrived at the table. -/
theorem arrived (htree : TreeWalk s₀ v) (hq : q ++ [i] <+: [pml4Idx v, pdptIdx v, pdIdx v])
    (hc : walk (link s₀.mem) s₀.pml4 (q ++ [i]) = none → a = refCountAddr t → k ≠ 0) :
    Arrived s₀ (q ++ [i]) s' a k := by
  cases hd with
  | found hs hs' hw =>
    obtain ⟨t', -, hl⟩ := walk_concat_eq_some.mp hw
    exact ⟨entryLink_aligned hl, hs' ▸ htree.used _ _ hq hw, .inl ⟨hs', hw⟩⟩
  | linked hw hne haligned hlt hfree hbits hentry =>
    have hat : a ≠ t := fun h => by
      rw [h, ha.used] at hfree
      cases hfree
    have he := hentry a k haligned (fun h => absurd h (refCountAddr_ne a).symm) (hc hw)
    rw [if_neg fun h => hat h.1, if_pos rfl] at he
    exact ⟨haligned, by rw [hbits]; simp, .inr ⟨hw, he⟩⟩

omit ha in
/-- The step leaves the slots of the other tables alone. -/
theorem entry_eq (hb : b &&& frameMask = b) (hbu : s.pmm.testBit (frameOf b) = true) (hbt : b ≠ t)
    (hc : walk (link s₀.mem) s₀.pml4 (q ++ [i]) = none →
      (b = refCountAddr a → j ≠ 0) ∧ (b = refCountAddr t → j ≠ 0)) :
    entry s'.mem b j = entry s.mem b j := by
  cases hd with
  | found hs hs' hw => rw [hs', hs]
  | linked hw hne haligned hlt hfree hbits hentry =>
    have hba : b ≠ a := fun h => by
      rw [← h, hbu] at hfree
      cases hfree
    rw [hentry b j hb (hc hw).1 (hc hw).2, if_neg fun h => hbt h.1, if_neg hba]

omit ha in
/-- The table is none of those passed before. -/
theorem ne (htree : TreeWalk s₀ v) (hq : q ++ [i] <+: [pml4Idx v, pdptIdx v, pdIdx v])
    (hr : r <+: q) (hbu : s.pmm.testBit (frameOf b) = true)
    (hb : walk (link s₀.mem) s₀.pml4 r = none ∨ walk (link s₀.mem) s₀.pml4 r = some b) : a ≠ b := by
  rintro rfl
  cases hd with
  | found hs hs' hw =>
    -- a table of the walk at the start: the walk passes no table twice
    have hrq : r <+: q ++ [i] := hr.trans (List.prefix_append q [i])
    rcases hb with hb | hb
    · obtain ⟨c, hc⟩ := exists_walk_of_below hrq hw
      rw [hb] at hc
      cases hc
    · have := htree.distinct r (q ++ [i]) a (hrq.trans hq) hq hb hw
      have := hr.length_le
      have := congrArg List.length ‹r = q ++ [i]›
      simp at this
      omega
  | linked hw hne haligned hlt hfree hbits hentry =>
    rw [hbu] at hfree
    cases hfree

omit ha in
/-- The table is at the address of a frame. -/
theorem aligned : a &&& frameMask = a := by
  cases hd with
  | found _ _ hw =>
    obtain ⟨t', -, hl⟩ := walk_concat_eq_some.mp hw
    exact entryLink_aligned hl
  | linked _ _ haligned _ _ _ _ => exact haligned

omit ha in
/-- Where a slot of the table is empty now, nothing was behind it at the start. -/
theorem walk_none_of_link (hl : link s'.mem a k = none) :
    walk (link s₀.mem) s₀.pml4 (q ++ [i] ++ [k]) = none := by
  cases hd with
  | found _ hs' hw => rw [walk_concat, hw, Option.bind_some, ← hs', hl]
  | linked hw _ _ _ _ _ _ => rw [walk_concat, hw, Option.bind_none]

end Down

/-! ## The whole call -/

/-- The page written last is the one the processor reads, and the other slots of the walk stay. -/
theorem entry_writePage_of_ne (hpt : t &&& frameMask = t) (hb : b &&& frameMask = b) (hne : b ≠ t)
    (hc : link s.mem t i = none → b = refCountAddr t → j ≠ 0) :
    entry (writePage s t i p).mem b j = entry s.mem b j := by
  rw [writePage, entry_setEntry_of_ne hpt hb fun h => hne h.1]
  split
  · next h => exact entry_setRefCount_of_apart hpt hb (hc (entryLink_of_absent h))
  · rfl

theorem plainLink_writePage (hp : p.toNat < 2 ^ 52) :
    PlainLink (writePage s t i p).mem t i (p &&& frameMask) := by
  have he : entry (writePage s t i p).mem t i = p &&& frameMask ||| pagePresent ||| pageWritable :=
    entry_setEntry_self ..
  have haligned : p &&& frameMask &&& frameMask = p &&& frameMask := by
    rw [BitVec.and_assoc, BitVec.and_self]
  refine ⟨by rw [link, he, entryLink_mk haligned], ?_⟩
  have h1 : pagePresent.toNat < 2 ^ 52 := by decide
  have h2 : pageWritable.toNat < 2 ^ 52 := by decide
  have hle : (p &&& frameMask).toNat ≤ p.toNat := by rw [BitVec.toNat_and]; exact Nat.and_le_left
  rw [he, BitVec.toNat_or, BitVec.toNat_or]
  exact Nat.or_lt_two_pow (Nat.or_lt_two_pow (by omega) h1) h2

section Steps

variable {pdpt pd pt : U64} {s₁ s₂ s₃ : Paging TableBytes} (h4 : s.pml4 ≠ 0)
  (h₁ : getNextTable s s.pml4 (pml4Idx v) true = (pdpt, s₁))
  (h₂ : getNextTable s₁ pdpt (pdptIdx v) true = (pd, s₂))
  (h₃ : getNextTable s₂ pd (pdIdx v) true = (pt, s₃))
include h4 h₁ h₂ h₃

/-- In a `paging_map` without a failed allocation no step fails. -/
theorem failures_steps (hnf : (endState (pagingMap s v p)).pmm.failures = s.pmm.failures) :
    s₁.pmm.failures = s.pmm.failures ∧ (pdpt ≠ 0 → s₂.pmm.failures = s₁.pmm.failures ∧
      (pd ≠ 0 → s₃.pmm.failures = s₂.pmm.failures)) := by
  have f₁ : s.pmm.failures ≤ s₁.pmm.failures := by
    simpa only [h₁] using failures_getNextTable_le s s.pml4 (pml4Idx v)
  have f₂ : s₁.pmm.failures ≤ s₂.pmm.failures := by
    simpa only [h₂] using failures_getNextTable_le s₁ pdpt (pdptIdx v)
  have f₃ : s₂.pmm.failures ≤ s₃.pmm.failures := by
    simpa only [h₃] using failures_getNextTable_le s₂ pd (pdIdx v)
  rw [pagingMap_eq h4 h₁ h₂ h₃] at hnf
  split_ifs at hnf with hpdpt hpd hpt <;> simp only [endState, writePage] at hnf
  · exact ⟨hnf, fun h => absurd hpdpt h⟩
  · exact ⟨by omega, fun _ => ⟨by omega, fun h => absurd hpd h⟩⟩
  · exact ⟨by omega, fun _ => ⟨by omega, fun _ => by omega⟩⟩
  · exact ⟨by omega, fun _ => ⟨by omega, fun _ => by omega⟩⟩

/-- **A `paging_map` on its way down to the page table**: three steps, each with the frame it needs,
and counters that stay off the walk. -/
structure GetsDown (s : Paging TableBytes) (v pdpt pd pt : U64) (s₁ s₂ s₃ : Paging TableBytes) :
    Prop where
  root : Arrived s [] s s.pml4 (pml4Idx v)
  down₁ : Down s [] (pml4Idx v) s s.pml4 pdpt s₁
  at₁ : Arrived s [pml4Idx v] s₁ pdpt (pdptIdx v)
  down₂ : Down s [pml4Idx v] (pdptIdx v) s₁ pdpt pd s₂
  at₂ : Arrived s [pml4Idx v, pdptIdx v] s₂ pd (pdIdx v)
  down₃ : Down s [pml4Idx v, pdptIdx v] (pdIdx v) s₂ pd pt s₃
  apart : ∀ t ∈ [s.pml4, pdpt, pd, pt].zip (waysTo v), walk (link s.mem) s.pml4 t.2 = none →
    ∀ x ∈ [(s.pml4, pml4Idx v), (pdpt, pdptIdx v), (pd, pdIdx v)], x.1 = refCountAddr t.1 → x.2 ≠ 0

omit h4 h₁ h₂ h₃ in
/-- The counters stored, one by one. -/
theorem CountersApart.zip (hc : CountersApart s v) : ∀ t ∈ (tablesFor s v).zip (waysTo v),
    walk (link s.mem) s.pml4 t.2 = none →
    ∀ x ∈ (tablesFor s v).zip [pml4Idx v, pdptIdx v, pdIdx v],
    x.1 = refCountAddr t.1 → x.2 ≠ 0 := by
  intro t ht hw
  obtain ⟨k, hk⟩ := List.mem_iff_getElem?.mp ht
  obtain ⟨hk₁, hk₂⟩ := List.getElem?_zip_eq_some.mp hk
  refine fun x hx hr h0 => hc t.1 ⟨k, hk₁, ?_⟩ x hx hr (congrArg Fin.val h0)
  rw [waysTo, List.getElem?_map, Option.map_eq_some_iff] at hk₂
  obtain ⟨n, hn, hnk⟩ := hk₂
  obtain ⟨hlt, rfl⟩ : k < 4 ∧ k = n := by
    rw [List.getElem?_eq_some_iff] at hn
    obtain ⟨hlt, he⟩ := hn
    rw [List.getElem_range] at he
    exact ⟨by simpa using hlt, he⟩
  rw [hnk]
  exact hw

/-- Where no allocation fails, `paging_map` gets down to the page table. -/
theorem getsDown_of_failures_eq (hroot : s.pml4 &&& frameMask = s.pml4) (htree : TreeWalk s v)
    (hc : CountersApart s v)
    (hnf : (endState (pagingMap s v p)).pmm.failures = s.pmm.failures) :
    GetsDown s v pdpt pd pt s₁ s₂ s₃ := by
  obtain ⟨f₁, hf₂⟩ := failures_steps h4 h₁ h₂ h₃ hnf
  have hc := hc.zip
  unfold tablesFor at hc
  rw [waysTo_eq] at hc
  simp only [List.zip_cons_cons, List.zip_nil_right] at hc
  have a₀ : Arrived s [] s s.pml4 (pml4Idx v) :=
    ⟨hroot, htree.used [] _ (by simp) rfl, .inl ⟨rfl, rfl⟩⟩
  -- each step names the next of the tables that `CountersApart` is about
  obtain ⟨e₁, -, d₁⟩ := a₀.down h₁ f₁ fun hw =>
    hc (_, [pml4Idx v, pdptIdx v]) (by simp) (walk_append_none hw) (s.pml4, pml4Idx v) (by simp)
  simp only [List.nil_append] at e₁ d₁
  rw [← e₁] at hc
  obtain ⟨f₂, hf₃⟩ := hf₂ (d₁.ne_zero htree (by simp))
  have a₁ : Arrived s [pml4Idx v] s₁ pdpt (pdptIdx v) :=
    d₁.arrived a₀ htree (by simp) fun hw =>
      hc (s.pml4, [pml4Idx v]) (by simp) hw (pdpt, pdptIdx v) (by simp)
  obtain ⟨e₂, -, d₂⟩ := a₁.down h₂ f₂ fun hw =>
    hc (_, [pml4Idx v, pdptIdx v, pdIdx v]) (by simp) (walk_append_none hw) (pdpt, pdptIdx v)
      (by simp)
  simp only [List.cons_append, List.nil_append] at e₂ d₂
  rw [← e₂] at hc
  have f₃ := hf₃ (d₂.ne_zero htree (by simp))
  have a₂ : Arrived s [pml4Idx v, pdptIdx v] s₂ pd (pdIdx v) :=
    d₂.arrived a₁ htree (by simp) fun hw =>
      hc (pdpt, [pml4Idx v, pdptIdx v]) (by simp) hw (pd, pdIdx v) (by simp)
  obtain ⟨e₃, -, d₃⟩ := a₂.down h₃ f₃ fun hw =>
    hc (_, [pml4Idx v, pdptIdx v, pdIdx v, ptIdx v]) (by simp) (walk_append_none hw) (pd, pdIdx v)
      (by simp)
  simp only [List.cons_append, List.nil_append] at e₃ d₃
  rw [← e₃] at hc
  exact ⟨a₀, d₁, a₁, d₂, a₂, d₃, by rw [waysTo_eq]; exact hc⟩

omit h4 h₁ h₂ h₃ in
/-- The later steps and the page itself leave the links of the walk alone. -/
theorem GetsDown.entry_eq (h : GetsDown s v pdpt pd pt s₁ s₂ s₃) (htree : TreeWalk s v) (p : U64) :
    let m := (writePage s₃ pt (ptIdx v) p).mem
    entry m s.pml4 (pml4Idx v) = entry s₁.mem s.pml4 (pml4Idx v) ∧
    entry m pdpt (pdptIdx v) = entry s₂.mem pdpt (pdptIdx v) ∧
    entry m pd (pdIdx v) = entry s₃.mem pd (pdIdx v) := by
  intro m
  obtain ⟨a₀, d₁, a₁, d₂, a₂, d₃, hc⟩ := h
  rw [waysTo_eq] at hc
  -- the counters of the four tables, if they are stored
  have c₁ := fun hw => hc (pdpt, [pml4Idx v, pdptIdx v]) (by simp)
    (walk_append_none (p := [pml4Idx v]) (q := [pdptIdx v]) hw)
  have c₁' := hc (pdpt, [pml4Idx v, pdptIdx v]) (by simp)
  have c₂ := fun hw => hc (pd, [pml4Idx v, pdptIdx v, pdIdx v]) (by simp)
    (walk_append_none (p := [pml4Idx v, pdptIdx v]) (q := [pdIdx v]) hw)
  have c₂' := hc (pd, [pml4Idx v, pdptIdx v, pdIdx v]) (by simp)
  have c₃ := fun hw => hc (pt, [pml4Idx v, pdptIdx v, pdIdx v, ptIdx v]) (by simp)
    (walk_append_none (p := [pml4Idx v, pdptIdx v, pdIdx v]) (q := [ptIdx v]) hw)
  have c₃' := hc (pt, [pml4Idx v, pdptIdx v, pdIdx v, ptIdx v]) (by simp)
  have m₀ : (s.pml4, pml4Idx v) ∈ [(s.pml4, pml4Idx v), (pdpt, pdptIdx v), (pd, pdIdx v)] := by simp
  have m₁ : (pdpt, pdptIdx v) ∈ [(s.pml4, pml4Idx v), (pdpt, pdptIdx v), (pd, pdIdx v)] := by simp
  have m₂ : (pd, pdIdx v) ∈ [(s.pml4, pml4Idx v), (pdpt, pdptIdx v), (pd, pdIdx v)] := by simp
  -- the four tables are in four frames
  have w₀ : walk (link s.mem) s.pml4 [] = none ∨ walk (link s.mem) s.pml4 [] =
      some s.pml4 := .inr rfl
  have u₀ := d₁.used_mono a₀.used
  have u₁ := d₂.used_mono a₁.used
  have n₁₀ := d₁.ne (b := s.pml4) htree (by simp) (List.prefix_refl _) a₀.used w₀
  have n₂₀ := d₂.ne (b := s.pml4) htree (by simp) (by simp) u₀ w₀
  have n₂₁ := d₂.ne (b := pdpt) htree (by simp) (List.prefix_refl _) a₁.used a₁.walk_or
  have n₃₀ := d₃.ne (b := s.pml4) htree (by simp) (by simp) (d₂.used_mono u₀) w₀
  have n₃₁ := d₃.ne (b := pdpt) htree (by simp) (by simp) u₁ a₁.walk_or
  have n₃₂ := d₃.ne (b := pd) htree (by simp) (List.prefix_refl _) a₂.used a₂.walk_or
  have halign := d₃.aligned
  -- where the page is new in its table, the walk of `v` did not arrive at it
  have hpage : link s₃.mem pt (ptIdx v) = none →
      walk (link s.mem) s.pml4 [pml4Idx v, pdptIdx v, pdIdx v, ptIdx v] = none := fun hl =>
    d₃.walk_none_of_link hl
  refine ⟨?_, ?_, ?_⟩
  · rw [entry_writePage_of_ne halign a₀.aligned n₃₀.symm fun hl => c₃' (hpage hl) _ m₀,
      d₃.entry_eq a₀.aligned (d₂.used_mono u₀) n₂₀.symm fun hw => ⟨c₃ hw _ m₀, c₂' hw _ m₀⟩,
      d₂.entry_eq a₀.aligned u₀ n₁₀.symm fun hw =>
        ⟨c₂ hw _ m₀, c₁' hw _ m₀⟩]
  · rw [entry_writePage_of_ne halign a₁.aligned n₃₁.symm fun hl => c₃' (hpage hl) _ m₁,
      d₃.entry_eq a₁.aligned u₁ n₂₁.symm fun hw => ⟨c₃ hw _ m₁, c₂' hw _ m₁⟩]
  · rw [entry_writePage_of_ne halign a₂.aligned n₃₂.symm fun hl => c₃' (hpage hl) _ m₂]

end Steps

/-- **A `paging_map` that finds the frames it needs comes back, and the processor then translates
`v` to the new frame**, in physical memory, where the flags in the tables are plain and the counters
stay off the walk. -/
theorem cpuTranslate_pagingMap {cr3 : U64} (hcr3 : cr3 &&& physMask = s.pml4)
    (hroot : s.pml4 &&& frameMask = s.pml4) (hplain : PlainTables s v) (htree : TreeWalk s v)
    (hc : CountersApart s v) (hp : p.toNat < 2 ^ 52)
    (hnf : (endState (pagingMap s v p)).pmm.failures = s.pmm.failures) :
    ∃ s', pagingMap s v p = .ok s' ∧
      cpuTranslate s'.mem cr3 v = some (p &&& frameMask ||| v &&& 0xFFF) := by
  have hpath := pagePath_pageOf v
  rcases h₁ : getNextTable s s.pml4 (pml4Idx v) true with ⟨pdpt, s₁⟩
  rcases h₂ : getNextTable s₁ pdpt (pdptIdx v) true with ⟨pd, s₂⟩
  rcases h₃ : getNextTable s₂ pd (pdIdx v) true with ⟨pt, s₃⟩
  have h4 : s.pml4 ≠ 0 := htree.ne_zero [] _ (by simp) rfl
  have hd := getsDown_of_failures_eq h4 h₁ h₂ h₃ hroot htree hc hnf
  obtain ⟨u₁, u₂, u₃⟩ := hd.entry_eq htree p
  obtain ⟨a₀, d₁, a₁, d₂, a₂, d₃, hapart⟩ := hd
  rw [waysTo_eq] at hapart
  -- each step leaves a plain link
  obtain ⟨l₁, -⟩ := d₁.plainLink a₀ hplain (by rw [hpath]; simp) (by simp) fun hw =>
    hapart (pdpt, [pml4Idx v, pdptIdx v]) (by simp) (walk_append_none hw) (s.pml4, pml4Idx v)
      (by simp)
  obtain ⟨l₂, p₂⟩ := d₂.plainLink a₁ hplain (by rw [hpath]; simp) (by simp) fun hw =>
    hapart (pd, [pml4Idx v, pdptIdx v, pdIdx v]) (by simp) (walk_append_none hw) (pdpt, pdptIdx v)
      (by simp)
  obtain ⟨l₃, p₃⟩ := d₃.plainLink a₂ hplain (by rw [hpath]; simp) (by simp) fun hw =>
    hapart (pt, [pml4Idx v, pdptIdx v, pdIdx v, ptIdx v]) (by simp) (walk_append_none hw)
      (pd, pdIdx v) (by simp)
  refine ⟨writePage s₃ pt (ptIdx v) p, ?_, ?_⟩
  · rw [pagingMap_eq h4 h₁ h₂ h₃, if_neg (d₁.ne_zero htree (by simp)),
      if_neg (d₂.ne_zero htree (by simp)), if_neg (d₃.ne_zero htree (by simp))]
  · apply cpuTranslate_of_links hcr3 (l₁.of_entry_eq u₁) (l₂.of_entry_eq u₂) ?_
      (l₃.of_entry_eq u₃) ?_
      (plainLink_writePage hp)
    · show entry (writePage s₃ pt (ptIdx v) p).mem pdpt (pdptIdx v) &&& pageSizeBit = 0
      rw [u₂]
      exact p₂ (.inl rfl)
    · show entry (writePage s₃ pt (ptIdx v) p).mem pd (pdIdx v) &&& pageSizeBit = 0
      rw [u₃]
      exact p₃ (.inr rfl)

/-- **The code and the processor agree** on the walk of `v`, for every content of physical memory
and every `CR3`, where the present entries above the page table have no bit above 51 and no `PS`
bit. The lookup of the code is the translation of the processor if and only if the entry of the page
has no bit above 51 either (or there is no translation); and a `paging_map` that finds its frames
makes the processor translate `v` as asked, whatever that entry was, provided that no counter it
stores is on the walk. -/
theorem paging_cpu_agrees (bytes : PhysMem) (pmm : Pmm) (cr3 v p : U64) (hcr3 : cr3.toNat < 2 ^ 52)
    (htree : TreeWalk (pagingAt bytes pmm cr3) v) (hp : p.toNat < 2 ^ 52) :
    (cpuTranslate (pagingAt bytes pmm cr3).mem cr3 v = none ∨
        PlainTables (pagingAt bytes pmm cr3) v →
      ((∀ x, cpuTranslate (pagingAt bytes pmm cr3).mem cr3 v = some x →
          pagingGetPhysical (pagingAt bytes pmm cr3) v = x) ↔
        cpuTranslate (pagingAt bytes pmm cr3).mem cr3 v = none ∨
          PlainLeaf (pagingAt bytes pmm cr3) v)) ∧
    (PlainTables (pagingAt bytes pmm cr3) v → CountersApart (pagingAt bytes pmm cr3) v →
      (endState (pagingMap (pagingAt bytes pmm cr3) v p)).pmm.failures = pmm.failures →
      ∃ s', pagingMap (pagingAt bytes pmm cr3) v p = .ok s' ∧
        cpuTranslate s'.mem cr3 v = some (p &&& frameMask ||| v &&& 0xFFF)) := by
  have hroot : cr3 &&& physMask = (pagingAt bytes pmm cr3).pml4 := and_physMask hcr3
  have haligned : (pagingAt bytes pmm cr3).pml4 &&& frameMask = (pagingAt bytes pmm cr3).pml4 := by
    simp only [pagingAt, pagingInit]
    rw [BitVec.and_assoc, BitVec.and_self]
  refine ⟨?_, fun hplain hc hnf => cpuTranslate_pagingMap hroot haligned hplain htree hc hp hnf⟩
  intro h
  by_cases hnone : cpuTranslate (pagingAt bytes pmm cr3).mem cr3 v = none
  · refine iff_of_true (fun x hx => ?_) (.inl hnone)
    rw [hnone] at hx
    cases hx
  · rw [or_iff_right hnone]
    exact agrees_iff_plainLeaf hroot (h.resolve_left hnone) htree

namespace Sample

/-- Tables of the firmware at 1 MiB with the page at `0x1000` mapped to `0x5000`. -/
def smallPages : PhysMem := fun a =>
  if a = 0x100000 then 0x03 else if a = 0x100001 then 0x20 else if a = 0x100002 then 0x10
  else if a = 0x102000 then 0x03 else if a = 0x102001 then 0x40 else if a = 0x102002 then 0x10
  else if a = 0x104000 then 0x03 else if a = 0x104001 then 0x60 else if a = 0x104002 then 0x10
  else if a = 0x106008 then 0x03 else if a = 0x106009 then 0x50
  else 0

/-- Tables of the firmware at 1 MiB with the 2 MiB page at `0x200000` mapped to itself. -/
def largePages : PhysMem := fun a =>
  if a = 0x100000 then 0x03 else if a = 0x100001 then 0x20 else if a = 0x100002 then 0x10
  else if a = 0x102000 then 0x03 else if a = 0x102001 then 0x40 else if a = 0x102002 then 0x10
  else if a = 0x104008 then 0x83 else if a = 0x10400A then 0x20
  else 0

/-- The state after `paging_init` on the tables with small pages. -/
def smallPaging : Paging TableBytes := pagingAt smallPages pmm 0x100000

theorem idx_smallPages : pml4Idx 0x1ABC = 0 ∧ pdptIdx 0x1ABC = 0 ∧ pdIdx 0x1ABC = 0 ∧
    ptIdx 0x1ABC = 1 := by decide

/-- The tables of the walk are two frames apart. -/
theorem walk_smallPaging {q : List (Fin 512)} (hq : q <+: [0, 0, 0]) :
    walk (link smallPaging.mem) smallPaging.pml4 q =
      some (0x100000 + 0x2000 * BitVec.ofNat 64 q.length) := by
  simp only [List.prefix_cons_iff, List.prefix_nil] at hq
  rcases hq with rfl | ⟨_, rfl, rfl | ⟨_, rfl, rfl | ⟨_, rfl, rfl⟩⟩⟩ <;> decide

theorem treeWalk_smallPaging : TreeWalk smallPaging 0x1ABC := by
  obtain ⟨h4, h3, h2, -⟩ := idx_smallPages
  have hlen : ∀ {q : List (Fin 512)}, q <+: [0, 0, 0] → q.length ≤ 3 := fun hq => hq.length_le
  constructor <;> simp only [h4, h3, h2]
  · intro q t hq ht
    rw [walk_smallPaging hq] at ht
    have := hlen hq
    rw [← Option.some.inj ht]
    bv_omega
  · intro q t hq ht
    rw [walk_smallPaging hq] at ht
    have := hlen hq
    have hn : (0x100000 + 0x2000 * BitVec.ofNat 64 q.length : U64).toNat =
        0x100000 + 0x2000 * q.length := by bv_omega
    rw [← Option.some.inj ht, frameOf, hn]
    exact testBit_pmm (by omega)
  · intro q r t hq hr ht ht'
    rw [walk_smallPaging hq] at ht
    rw [walk_smallPaging hr, ← ht, Option.some.injEq] at ht'
    have := hlen hq
    have := hlen hr
    have hqr : q.length = r.length := by bv_omega
    exact (List.prefix_of_prefix_length_le hq hr hqr.le).eq_of_length hqr

theorem hasTables_smallPaging : HasTables smallPaging 0x1ABC 0x102000 0x104000 0x106000 := by
  constructor <;> decide

/-- No table follows another one directly. -/
theorem countersApart_smallPaging : CountersApart smallPaging 0x1ABC := by
  obtain ⟨w3, w2, w1⟩ := hasTables_smallPaging.walks
  have htables : tablesFor smallPaging 0x1ABC = [0x100000, 0x102000, 0x104000, 0x106000] := by
    have h4 : smallPaging.pml4 = 0x100000 := by decide
    rw [h4] at w3 w2 w1
    simp only [tablesFor, h4, w3, w2, w1, nextTable]
  rw [CountersApart, htables]
  rintro t ⟨k, hk, -⟩ x hx h
  rw [htables] at hk
  have ht := List.mem_of_getElem? hk
  simp only [List.zip_cons_cons, List.zip_nil_right, List.mem_cons, List.not_mem_nil,
    or_false] at ht hx
  rcases ht with rfl | rfl | rfl | rfl <;> rcases hx with rfl | rfl | rfl <;>
    exact absurd h (by decide)

theorem plainTables_smallPaging : PlainTables smallPaging 0x1ABC := by
  have hpath : pagePath (pageOf 0x1ABC) = [0, 0, 0, 1] := by decide
  have hcases : ∀ {q : List (Fin 512)} {i : Fin 512}, q ++ [i] <+: [0, 0, 0, 1] →
      (q = [] ∧ i = 0) ∨ (q = [0] ∧ i = 0) ∨ (q = [0, 0] ∧ i = 0) ∨ (q = [0, 0, 0] ∧ i = 1) := by
    intro q i hq
    rcases q with _ | ⟨a, _ | ⟨b, _ | ⟨c, _ | ⟨d, q⟩⟩⟩⟩ <;> simp_all
  constructor <;> rw [hpath]
  · intro q i t hq hlen ht _
    rcases hcases hq with ⟨rfl, rfl⟩ | ⟨rfl, rfl⟩ | ⟨rfl, rfl⟩ | ⟨rfl, rfl⟩ <;>
      simp only [List.length_nil, List.length_cons] at hlen <;>
      rw [walk_smallPaging (by simp)] at ht <;> rw [← Option.some.inj ht] <;> decide
  · intro q i t hq hlen ht _
    rcases hcases hq with ⟨rfl, rfl⟩ | ⟨rfl, rfl⟩ | ⟨rfl, rfl⟩ | ⟨rfl, rfl⟩ <;>
      simp only [List.length_nil, List.length_cons] at hlen <;>
      rw [walk_smallPaging (by simp)] at ht <;> rw [← Option.some.inj ht] <;> decide

theorem plainLeaf_smallPaging : PlainLeaf smallPaging 0x1ABC := by
  intro t ht _
  obtain rfl := Option.some.inj (hasTables_smallPaging.walks.2.2.symm.trans ht)
  decide

end Sample

/-- With small pages the code finds what the processor translates to, and maps the page anew. -/
theorem paging_cpu_agrees_sample :
    pagingGetPhysical (pagingAt Sample.smallPages Sample.pmm 0x100000) 0x1ABC = 0x5ABC ∧
    ∃ s', pagingMap (pagingAt Sample.smallPages Sample.pmm 0x100000) 0x1ABC 0x7000 = .ok s' ∧
      cpuTranslate s'.mem 0x100000 0x1ABC = some 0x7ABC := by
  obtain ⟨hget, hmap⟩ := paging_cpu_agrees Sample.smallPages Sample.pmm 0x100000 0x1ABC 0x7000
    (by decide) Sample.treeWalk_smallPaging (by decide)
  have hnf : (endState (pagingMap Sample.smallPaging 0x1ABC 0x7000)).pmm.failures =
      Sample.pmm.failures := by
    rw [Sample.hasTables_smallPaging.pagingMap]
    rfl
  obtain ⟨s', hs', hcpu⟩ := hmap Sample.plainTables_smallPaging Sample.countersApart_smallPaging hnf
  have hagree := (hget (.inr Sample.plainTables_smallPaging)).mpr
    (.inr Sample.plainLeaf_smallPaging)
  exact ⟨hagree 0x5ABC (by decide), s', hs', hcpu⟩

/-- **Large pages are not seen.** The firmware maps 2 MiB at `0x200000` to itself: the processor
translates `0x200123`, and the code finds nothing. -/
theorem paging_get_physical_large_page :
    ¬ ∀ x, cpuTranslate (pagingAt Sample.largePages Sample.pmm 0x100000).mem 0x100000 0x200123 =
      some x → pagingGetPhysical (pagingAt Sample.largePages Sample.pmm 0x100000) 0x200123 = x := by
  intro h
  have hcpu : cpuTranslate (pagingAt Sample.largePages Sample.pmm 0x100000).mem 0x100000 0x200123 =
      some 0x200123 := by decide
  have hcode : pagingGetPhysical (pagingAt Sample.largePages Sample.pmm 0x100000) 0x200123 = 0 := by
    decide
  have := h _ hcpu
  rw [hcode] at this
  exact absurd this (by decide)

end OS44
