import OS44.Mem.PagingMap
import OS44.Mem.TablesOnBytes

/-! # The paging code on tables in memory

`paging_unmap` and `paging_map` do the same to tables in memory as to tables that are structs of
their own, as long as no counter that they store lies in a table: they take the same branches, give
the same result and leave the tables related (`Stored.pagingUnmap`, `Stored.pagingMap`). So what is
known of a tree of structs holds of a tree in memory. -/

namespace OS44

open LinkedTree TableMemory

theorem WellFormed.onStructs {s : Paging TableBytes} (h : WellFormed s) :
    WellFormed s.onStructs :=
  ⟨h.toPageTree.onStructs, h.counted, h.nonempty⟩

namespace Stored

variable {E C : U64 → Prop} {s : Paging TableBytes} {h : Paging TableHeap}
  {a b f t v w p pdpt pd pt : U64} {i : Fin 512}

section Unmap

variable (hs : Stored E C s h)
include hs

/-! ## Unmapping -/

/-- A counter that is related goes down in both. -/
theorem countDown (hc : C a) :
    Stored E C { s with mem := setRefCount s.mem a (refCount s.mem a - 1) }
      { h with mem := setRefCount h.mem a (refCount h.mem a - 1) } :=
  hs.storeCounter (hs.aligned a (hs.subset a hc)) (fun b hb => hs.apart b a hb hc)
    fun _ => by rw [hs.refCount_eq a hc]

theorem clearPage (hpt : C pt) (i : Fin 512) :
    Stored E C (OS44.clearPage s pt i) (OS44.clearPage h pt i) := by
  rw [OS44.clearPage, hs.entry_eq pt i (hs.subset pt hpt)]
  exact (hs.storeEntry (hs.subset pt hpt) i _).countDown hpt

theorem dropEntry (ha : C a) (i : Fin 512) :
    Stored E C (OS44.dropEntry s a i) (OS44.dropEntry h a i) :=
  (hs.storeEntry (hs.subset a ha) i 0).countDown ha

theorem freeTable (t : U64) : Stored E C (OS44.freeTable s t) (OS44.freeTable h t) := by
  rw [OS44.freeTable, hs.pmm_eq]
  exact hs.withPmm _

/-- The cascade, given that the counters it stores are among those related. -/
theorem freeCascade (hroot : E h.pml4) (hpt : C pt) (hpd : refCount h.mem pt = 0 → C pd)
    (hpdpt : refCount h.mem pt = 0 →
      refCount (OS44.dropEntry (OS44.freeTable h pt) pd (pdIdx v)).mem pd = 0 → C pdpt) :
    Stored E C (OS44.freeCascade s v pdpt pd pt) (OS44.freeCascade h v pdpt pd pt) := by
  rw [OS44.freeCascade, OS44.freeCascade, hs.refCount_eq pt hpt]
  by_cases e₁ : refCount h.mem pt = 0
  swap
  · rwa [if_neg e₁, if_neg e₁]
  have h₁ := (hs.freeTable pt).dropEntry (hpd e₁) (pdIdx v)
  simp only [if_pos e₁, h₁.refCount_eq pd (hpd e₁)]
  by_cases e₂ : refCount (OS44.dropEntry (OS44.freeTable h pt) pd (pdIdx v)).mem pd = 0
  swap
  · rwa [if_neg e₂, if_neg e₂]
  have h₂ := (h₁.freeTable pd).dropEntry (hpdpt e₁ e₂) (pdptIdx v)
  simp only [if_pos e₂, h₂.refCount_eq pdpt (hpdpt e₁ e₂)]
  split
  · have h₃ := h₂.freeTable pdpt
    have hroot' : s.pml4 = h.pml4 := hs.pml4_eq
    simp only [OS44.freeTable, OS44.dropEntry, hroot'] at h₃ ⊢
    exact h₃.storeEntry hroot (pml4Idx v) 0
  · exact h₂

variable (hE : ∀ a, h.IsTable a → E a)
include hE

/-- The tables on the way to `v` are found in memory where they are. -/
theorem hasTables_iff : HasTables s v pdpt pd pt ↔ HasTables h v pdpt pd pt := by
  have h4 := hs.link_eq (hE _ isNode_root) (pml4Idx v)
  rw [← hs.pml4_eq] at h4
  constructor
  · intro ht
    have w₁ : walk (link h.mem) h.pml4 [pml4Idx v] = some pdpt := by
      rw [← hs.walk_eq hE (by simp), ht.walks.1]
    have e₂ := hs.link_eq (hE pdpt (isTable_of_walk w₁ (by simp))) (pdptIdx v)
    have w₂ : walk (link h.mem) h.pml4 [pml4Idx v, pdptIdx v] = some pd := by
      rw [← hs.walk_eq hE (by simp), ht.walks.2.1]
    have e₃ := hs.link_eq (hE pd (isTable_of_walk w₂ (by simp))) (pdIdx v)
    exact ⟨hs.pml4_eq ▸ ht.pml4_ne, ht.pdpt_ne, ht.pd_ne, ht.pt_ne,
      by rw [← hs.pml4_eq, ← h4, ht.link_pml4], by rw [← e₂, ht.link_pdpt],
      by rw [← e₃, ht.link_pd]⟩
  · intro ht
    have e₂ := hs.link_eq (hE pdpt (isTable_of_walk ht.walks.1 (by simp))) (pdptIdx v)
    have e₃ := hs.link_eq (hE pd (isTable_of_walk ht.walks.2.1 (by simp))) (pdIdx v)
    exact ⟨hs.pml4_eq ▸ ht.pml4_ne, ht.pdpt_ne, ht.pd_ne, ht.pt_ne,
      by rw [h4, hs.pml4_eq, ht.link_pml4], by rw [e₂, ht.link_pdpt], by rw [e₃, ht.link_pd]⟩

theorem mapsTo_iff : MapsTo s v f ↔ MapsTo h v f := by
  refine exists_congr fun pdpt => exists_congr fun pd => exists_congr fun pt => ?_
  rw [hs.hasTables_iff hE]
  refine and_congr_right fun ht => ?_
  rw [hs.link_eq (hE pt (isTable_of_walk ht.walks.2.2 (by simp)))]

/-- **`paging_unmap` does the same in memory** if the counters it stores are among those related. -/
theorem pagingUnmap (hdrop : ∀ t, DropsCounter h v t → C t) (htree : PageTree h) :
    Stored E C (OS44.pagingUnmap s v) (OS44.pagingUnmap h v) := by
  rcases pagingUnmap_cases h v with ⟨hnone, hh⟩ | ⟨pdpt, pd, pt, f, ht, hf, hh⟩
  · rcases pagingUnmap_cases s v with ⟨-, hs'⟩ | ⟨pdpt, pd, pt, f, ht, hf, -⟩
    · rwa [hh, hs']
    · exact absurd ((hs.mapsTo_iff hE).mp ⟨pdpt, pd, pt, ht, hf⟩) (hnone f)
  have hpt : E pt := hE pt (isTable_of_walk ht.walks.2.2 (by simp))
  have hf' : link s.mem pt (ptIdx v) = some f := (hs.link_eq hpt _).trans hf
  have hs' : OS44.pagingUnmap s v =
      OS44.freeCascade (OS44.clearPage s pt (ptIdx v)) v pdpt pd pt := by
    rw [((hs.hasTables_iff hE).mpr ht).pagingUnmap, hf']
  have hne : link h.mem pt (ptIdx v) ≠ none := by rw [hf]; simp
  obtain ⟨h12, h13, h23⟩ := ht.ne_pd htree
  have c₀ : C pt := hdrop pt ⟨pdpt, pd, pt, ht, hne, .inl rfl⟩
  rw [hh, hs']
  -- the counters that the cascade reads are those of the start, less one
  have hone : refCount (OS44.clearPage h pt (ptIdx v)).mem pt = 0 → refCount h.mem pt = 1 := by
    rw [refCount_clearPage, if_pos rfl, sub_one_eq_zero]
    exact id
  refine (hs.clearPage c₀ (ptIdx v)).freeCascade (hE _ isNode_root) c₀ (fun e₁ => ?_)
    fun e₁ e₂ => ?_
  · exact hdrop pd ⟨pdpt, pd, pt, ht, hne, .inr ⟨hone e₁, .inl rfl⟩⟩
  · rw [refCount_dropEntry, if_pos rfl, sub_one_eq_zero, refCount_clearPage, if_neg h23] at e₂
    exact hdrop pdpt ⟨pdpt, pd, pt, ht, hne, .inr ⟨hone e₁, .inr ⟨e₂, rfl⟩⟩⟩

end Unmap

/-! ## Linking a table, writing a page -/

section Map

variable (hs : Stored E C s h)
include hs

/-- A frame that is cleared is an empty table in both. -/
theorem storeZero (hf : f &&& frameMask = f) (hC : ∀ c, C c → f ≠ refCountAddr c) :
    Stored (fun b => E b ∨ b = f) C { s with mem := zeroFrame s.mem f }
      { h with mem := zeroFrame h.mem f } where
  pml4_eq := hs.pml4_eq
  pmm_eq := hs.pmm_eq
  aligned b hb := by
    rcases hb with hb | rfl
    exacts [hs.aligned b hb, hf]
  subset c hc := .inl (hs.subset c hc)
  apart b c hb hc := by
    rcases hb with hb | rfl
    exacts [hs.apart b c hb hc, hC c hc]
  entry_eq b j hb := by
    rw [entry_zeroFrame]
    split
    · next hbf => rw [hbf, entry_zeroFrame_self hf]
    · next hbf =>
      have hb := hb.resolve_right hbf
      rw [entry_zeroFrame_of_ne hf (hs.aligned b hb) hbf, hs.entry_eq b j hb]
  refCount_eq c hc := by
    rw [refCount_zeroFrame, refCount_zeroFrame_of_apart hf (hs.aligned c (hs.subset c hc))
      (hC c hc), hs.refCount_eq c hc]

/-- One more counter is related. -/
theorem withCounter (hf : E f) (hout : ∀ b, E b → b ≠ refCountAddr f)
    (he : refCount s.mem f = refCount h.mem f) : Stored E (fun c => C c ∨ c = f) s h where
  pml4_eq := hs.pml4_eq
  pmm_eq := hs.pmm_eq
  aligned := hs.aligned
  subset c hc := by
    rcases hc with hc | rfl
    exacts [hs.subset c hc, hf]
  apart b c hb hc := by
    rcases hc with hc | rfl
    exacts [hs.apart b c hb hc, hout b hb]
  entry_eq := hs.entry_eq
  refCount_eq c hc := by
    rcases hc with hc | rfl
    exacts [hs.refCount_eq c hc, he]

/-- **A new table is linked in both**, and its counter is related from then on. -/
theorem linkTable (ht : E t) (hf : f &&& frameMask = f)
    (hout : ∀ b, E b ∨ b = f → b ≠ refCountAddr f ∧ b ≠ refCountAddr t)
    (hC : ∀ c, C c → f ≠ refCountAddr c) (i : Fin 512) :
    Stored (fun b => E b ∨ b = f) (fun c => C c ∨ c = f) (OS44.linkTable s t i f)
      (OS44.linkTable h t i f) := by
  have h₁ := (hs.storeZero hf hC).storeEntry (.inl ht) i (f ||| pagePresent ||| pageWritable)
  have hzero : C f → (0 : U32) = 0 := fun _ => rfl
  have h₂ := h₁.storeCounter hf (fun b hb => (hout b hb).1) hzero
  have h₃ := h₂.withCounter (.inr rfl) (fun b hb => (hout b hb).1)
    (by rw [refCount_setRefCount_self, refCount_setRefCount, if_pos rfl])
  exact h₃.storeCounter (hs.aligned t ht) (fun b hb => (hout b hb).2)
    fun hc => by rw [h₃.refCount_eq t hc]

/-- The page is written in both. -/
theorem writePage (hpt : E pt) (hout : link h.mem pt i = none → ∀ b, E b → b ≠ refCountAddr pt)
    (p : U64) : Stored E C (OS44.writePage s pt i p) (OS44.writePage h pt i p) := by
  rw [OS44.writePage, OS44.writePage, hs.entry_eq pt i hpt]
  split
  · next hp =>
    have hlink : link h.mem pt i = none := entryLink_of_absent hp
    exact (hs.storeCounter (hs.aligned pt hpt) (hout hlink)
      fun hc => by rw [hs.refCount_eq pt hc]).storeEntry hpt i _
  · exact hs.storeEntry hpt i _

end Map

end Stored

/-! ## Mapping -/

variable {C : U64 → Prop} {s s' : Paging TableBytes} {h h' h₀ : Paging TableHeap} {a b t v p : U64}
  {i : Fin 512} {q : List (Fin 512)}

/-- The counters related after a part of a `paging_map` from `h₀`: those of before, and those of
the new tables. -/
def CountersSince (C : U64 → Prop) (h₀ h : Paging TableHeap) (c : U64) : Prop :=
  C c ∨ (h.IsTable c ∧ ¬ h₀.IsTable c)

/-- **`paging_map` has come along `q` to the table `t`**, in memory and on structs: the table was
there at the start and nothing has changed, or it is new and empty. -/
structure Arrives (C : U64 → Prop) (h₀ : Paging TableHeap) (v : U64) (q : List (Fin 512))
    (s : Paging TableBytes) (h : Paging TableHeap) (t : U64) : Prop where
  tree : PageTree h
  stored : Stored h.IsTable (CountersSince C h₀ h) s h
  walk_eq : walk (link h.mem) h.pml4 q = some t
  start : h = h₀ ∨ walk (link h₀.mem) h₀.pml4 q = none ∧ ∀ j, link h.mem t j = none
  tables : ∀ b, h.IsTable b → h₀.IsTable b ∨ TableFor h₀ v b ∧ StoresCounter h₀ v b
  mono : ∀ b, h₀.IsTable b → h.IsTable b

/-- The slots of the table lead where the walk of the start does. -/
theorem Arrives.link_eq (ha : Arrives C h₀ v q s h t) (i : Fin 512) :
    link h.mem t i = walk (link h₀.mem) h₀.pml4 (q ++ [i]) := by
  rcases ha.start with rfl | ⟨hnone, hempty⟩
  · rw [walk_concat, ha.walk_eq, Option.bind_some]
  · rw [walk_concat, hnone, Option.bind_none, hempty]

theorem PageTree.tableFor (h : PageTree h₀) (hb : h₀.IsTable b) : TableFor h₀ v b :=
  ⟨h.ne_zero b hb, .inl hb⟩

/-- **The layout of a `paging_map`**: the counters it stores and those related lie in no table. -/
structure MapApart (C : U64 → Prop) (h₀ : Paging TableHeap) (v : U64) : Prop where
  outside : MapOutside h₀ v
  counters : ∀ c b, C c → TableFor h₀ v b → b ≠ refCountAddr c

/-- No frame in memory if there is none on structs. -/
theorem Stored.getNextTable_null {E : U64 → Prop} (hs : Stored E C s h) (ht : E t)
    (hn : link h.mem t i = none) (h0 : (pmmAllocFrame h.pmm).1 = 0) :
    getNextTable s t i true = (0, { s with pmm := (pmmAllocFrame h.pmm).2 }) := by
  rcases getNextTable_true_cases s t i with ⟨b, hb, -⟩ | ⟨-, -, hg⟩ | ⟨-, f, -, hf, hf0, -⟩
  · rw [hs.link_eq ht i, hn] at hb
    cases hb
  · rw [hg, hs.pmm_eq]
  · rw [hs.pmm_eq, h0] at hf
    exact absurd hf.symm hf0

/-- A new table in memory if there is one on structs. -/
theorem Stored.getNextTable_new {E : U64 → Prop} (hs : Stored E C s h) (ht : E t)
    (hn : link h.mem t i = none) {f : U64} (hf : (pmmAllocFrame h.pmm).1 = f) (hf0 : f ≠ 0)
    (hread : entry (OS44.linkTable { s with pmm := (pmmAllocFrame h.pmm).2 } t i f).mem t i &&&
      frameMask = f) :
    getNextTable s t i true =
      (f, OS44.linkTable { s with pmm := (pmmAllocFrame h.pmm).2 } t i f) := by
  rcases getNextTable_true_cases s t i with ⟨b, hb, -⟩ | ⟨-, h0, -⟩ | ⟨-, g, s₁, hg, -, rfl, hnew⟩
  · rw [hs.link_eq ht i, hn] at hb
    cases hb
  · rw [hs.pmm_eq, hf] at h0
    exact absurd h0 hf0
  · rw [hs.pmm_eq] at hg hnew
    obtain rfl : f = g := hf.symm.trans hg
    rw [hnew, hread]

section New

variable {f : U64} (ha : Arrives C h₀ v q s h t) (htree : PageTree h₀) (hout : MapApart C h₀ v)
  (hf : TableFor h₀ v f) (hstoref : StoresCounter h₀ v f) (hstore : StoresCounter h₀ v t)
include ha htree

/-- All tables there are belong to the layout. -/
theorem Arrives.tableFor {b : U64} (hb : h.IsTable b) : TableFor h₀ v b :=
  (ha.tables b hb).elim htree.tableFor fun hb => hb.1

include hout hf hstoref hstore

/-- The new table in memory and on structs: both counters that the step stores are those of the
layout. -/
theorem Arrives.stored_linkTable (htab : h.IsTable t) (hfa : f &&& frameMask = f) (pmm : Pmm) :
    Stored (fun b => h.IsTable b ∨ b = f) (fun c => CountersSince C h₀ h c ∨ c = f)
      (OS44.linkTable { s with pmm := pmm } t i f)
      (OS44.linkTable { h with pmm := pmm } t i f) := by
  have hfor : ∀ b, h.IsTable b ∨ b = f → TableFor h₀ v b := fun b hb =>
    hb.elim (ha.tableFor htree) fun hb => hb ▸ hf
  refine (ha.stored.withPmm pmm).linkTable htab hfa (fun b hb => ?_) ?_ i
  · exact ⟨hout.outside f b hf hstoref (hfor b hb),
      hout.outside t b (ha.tableFor htree htab) hstore (hfor b hb)⟩
  · rintro c (hc | ⟨hc, hnew⟩)
    · exact hout.counters c f hc hf
    · obtain ⟨hcfor, hcstore⟩ := (ha.tables c hc).resolve_left hnew
      exact hout.outside c f hcfor hcstore hf

/-- `paging_map` comes to the new table. -/
theorem Arrives.linkTable (hlen : q.length ≤ 2) {pmm : Pmm}
    (hl : LinksNew h t i f (OS44.linkTable { h with pmm := pmm } t i f)) :
    Arrives C h₀ v (q ++ [i]) (OS44.linkTable { s with pmm := pmm } t i f)
      (OS44.linkTable { h with pmm := pmm } t i f) f := by
  have htab : h.IsTable t := isTable_of_walk ha.walk_eq (by omega)
  have hmem := ha.stored_linkTable htree hout hf hstoref hstore htab (i := i) hl.aligned pmm
  have hcases := fun b => hl.isTable_cases ha.tree ha.walk_eq hlen (b := b)
  have hmono := fun b => (hl.grows ha.tree ha.walk_eq hlen).isTable_mono (b := b)
  have hnone : walk (link h₀.mem) h₀.pml4 (q ++ [i]) = none := by rw [← ha.link_eq, hl.absent]
  refine ⟨hl.pageTree ha.tree ha.walk_eq hlen, hmem.mono (fun b hb => (hcases b hb).symm) ?_ ?_,
    hl.walk_new ha.tree ha.walk_eq hlen, .inr ⟨hnone, fun j => ?_⟩, ?_,
    fun b hb => hmono b (ha.mono b hb)⟩
  · rintro c (hc | ⟨hc, hnew⟩)
    · exact .inl (.inl hc)
    · exact (hcases c hc).symm.imp_left fun hc => .inr ⟨hc, hnew⟩
  · rintro c (hc | ⟨hc, -⟩)
    · exact hmono c (ha.stored.subset c (.inl hc))
    · exact hc
  · exact slotCount_eq_zero.mp (hl.slotCount_new ha.tree ha.walk_eq hlen) j
  · intro b hb
    rcases hcases b hb with rfl | hb
    exacts [.inr ⟨hf, hstoref⟩, ha.tables b hb]

end New

/-- Where the way is not there, `paging_map` stores the counter of a table on it. -/
theorem storesCounter_of_walk {k : ℕ} (hway : q ++ [i] <+: pagePath (pageOf v))
    (hk : (tablesFor h₀ v)[k]? = some t) (hlen : q.length ≤ k)
    (hnone : walk (link h₀.mem) h₀.pml4 (q ++ [i]) = none) : StoresCounter h₀ v t := by
  obtain ⟨r, hr⟩ := hway
  refine ⟨k, hk, ?_⟩
  rw [← hr, List.take_append, List.take_of_length_le (by simp; omega)]
  exact walk_append_none hnone

/-- **One step down** in memory and on structs: no frame in either, or the same table in both. -/
theorem Arrives.step (ha : Arrives C h₀ v q s h t) (htree : PageTree h₀) (hout : MapApart C h₀ v)
    (hlen : q.length ≤ 2) (hway : q ++ [i] <+: pagePath (pageOf v))
    (ht : (tablesFor h₀ v)[q.length]? = some t)
    (hnext : (tablesFor h₀ v)[q.length + 1]? =
      some (nextTable h.pmm (walk (link h₀.mem) h₀.pml4 (q ++ [i]))).1) :
    ∃ b s' h', getNextTable s t i true = (b, s') ∧ getNextTable h t i true = (b, h') ∧
      (b, h'.pmm) = nextTable h.pmm (walk (link h₀.mem) h₀.pml4 (q ++ [i])) ∧
      (b = 0 → PageTree h' ∧ Stored h'.IsTable (CountersSince C h₀ h') s' h') ∧
      (b ≠ 0 → Arrives C h₀ v (q ++ [i]) s' h' b) := by
  have htab : h.IsTable t := isTable_of_walk ha.walk_eq (by omega)
  have hwalk := ha.link_eq i
  rw [← hwalk] at hnext ⊢
  rcases getNextTable_true_cases h t i with ⟨b, hb, hg⟩ | ⟨hn, h0, hg⟩ |
    ⟨hn, f, h₁, hf, hf0, rfl, hg⟩
  · -- the table is there
    have hstart : h = h₀ := ha.start.resolve_right fun hr => by
      rw [hr.2 i] at hb
      cases hb
    subst hstart
    have hw : walk (link h.mem) h.pml4 (q ++ [i]) = some b := by rw [← hwalk, hb]
    have hg' := getNextTable_of_link ((ha.stored.link_eq htab i).trans hb) true
    refine ⟨b, s, h, hg', hg, by rw [hb, nextTable], fun _ => ⟨ha.tree, ha.stored⟩, fun _ => ?_⟩
    exact ⟨ha.tree, ha.stored, hw, .inl rfl, fun b hb => .inl hb, fun b hb => hb⟩
  · -- no frame in either
    refine ⟨0, _, _, ha.stored.getNextTable_null htab hn h0, hg, by rw [hn, nextTable, ← h0],
      fun _ => ⟨?_, ?_⟩, fun hne => absurd rfl hne⟩
    · exact ha.tree.withPmm fun b hb => testBit_pmmAllocFrame_mono (ha.tree.used b hb)
    · exact ha.stored.withPmm _
  · -- a new table in both
    subst hf
    have hl := linksNew_linkTable ha.tree htab hn hf0
    rw [hn, nextTable] at hnext ⊢
    have hnone : walk (link h₀.mem) h₀.pml4 (q ++ [i]) = none := by rw [← hwalk, hn]
    have hstore := storesCounter_of_walk hway ht le_rfl hnone
    have hstoref := storesCounter_of_walk hway hnext (Nat.le_succ _) hnone
    have hfor : TableFor h₀ v (pmmAllocFrame h.pmm).1 :=
      ⟨hf0, .inr (List.mem_of_getElem? hnext)⟩
    have hmem := ha.stored_linkTable htree hout hfor hstoref hstore htab (i := i) hl.aligned
      (pmmAllocFrame h.pmm).2
    have hg' := ha.stored.getNextTable_new htab hn rfl hf0 (by
      rw [hmem.entry_eq t i (.inl htab), entry_linkTable_and_frameMask _ t i hl.aligned])
    rw [entry_linkTable_and_frameMask _ t i hl.aligned] at hg
    exact ⟨_, _, _, hg', hg, rfl, fun h0 => absurd h0 hf0,
      fun _ => ha.linkTable htree hout hfor hstoref hstore hlen hl⟩

/-- **`paging_map` does the same in memory**: it fails to come back in both, or it comes back in
both with the tables related, and the counters of the new tables with them. -/
theorem Stored.pagingMap (hs : Stored h.IsTable C s h) (htree : PageTree h)
    (hout : MapApart C h v) (p : U64) :
    (∃ s' h', pagingMap s v p = .error s' ∧ pagingMap h v p = .error h') ∨
    ∃ s' h', pagingMap s v p = .ok s' ∧ pagingMap h v p = .ok h' ∧ PageTree h' ∧
      Stored h'.IsTable (CountersSince C h h') s' h' := by
  have h4 : h.pml4 ≠ 0 := htree.root_ne_zero
  have h4' : s.pml4 ≠ 0 := hs.pml4_eq ▸ h4
  have hpath := pagePath_pageOf v
  have a₀ : Arrives C h v [] s h h.pml4 := by
    refine ⟨htree, hs.mono (fun _ ha => ha) ?_ ?_, rfl, .inl rfl, fun b hb => .inl hb,
      fun _ hb => hb⟩
    · rintro c (hc | ⟨hc, hnc⟩)
      exacts [hc, absurd hc hnc]
    · rintro c (hc | ⟨hc, -⟩)
      exacts [hs.subset c hc, hc]
  -- the tables of the layout are those that the steps arrive at
  obtain ⟨pdpt, s₁, h₁, g₁, e₁, n₁, z₁, d₁⟩ := a₀.step (i := pml4Idx v) htree hout (by simp)
    (by rw [hpath]; simp) rfl rfl
  simp only [List.nil_append] at n₁ d₁
  rw [← hs.pml4_eq] at g₁
  by_cases hpdpt : pdpt = 0
  · refine .inl ⟨s₁, h₁, ?_, ?_⟩
    · simp only [OS44.pagingMap, if_neg h4', g₁, if_pos hpdpt]
    · simp only [OS44.pagingMap, if_neg h4, e₁, if_pos hpdpt]
  have a₁ := d₁ hpdpt
  obtain ⟨x, t₁⟩ : ∃ x, tablesFor h v = [h.pml4, pdpt,
      (nextTable h₁.pmm (walk (link h.mem) h.pml4 [pml4Idx v, pdptIdx v])).1, x] :=
    ⟨_, by simp only [tablesFor, ← n₁]; rfl⟩
  obtain ⟨pd, s₂, h₂, g₂, e₂, n₂, z₂, d₂⟩ := a₁.step (i := pdptIdx v) htree hout (by simp)
    (by rw [hpath]; simp) (by rw [t₁]; rfl) (by rw [t₁]; rfl)
  simp only [List.cons_append, List.nil_append] at n₂ d₂
  by_cases hpd : pd = 0
  · refine .inl ⟨s₂, h₂, ?_, ?_⟩
    · simp only [OS44.pagingMap, if_neg h4', g₁, if_neg hpdpt, g₂, if_pos hpd]
    · simp only [OS44.pagingMap, if_neg h4, e₁, if_neg hpdpt, e₂, if_pos hpd]
  have a₂ := d₂ hpd
  have t₂ : tablesFor h v = [h.pml4, pdpt, pd,
      (nextTable h₂.pmm (walk (link h.mem) h.pml4 [pml4Idx v, pdptIdx v, pdIdx v])).1] := by
    simp only [tablesFor, ← n₁, ← n₂]
  obtain ⟨pt, s₃, h₃, g₃, e₃, n₃, z₃, d₃⟩ := a₂.step (i := pdIdx v) htree hout (by simp)
    (by rw [hpath]; simp) (by rw [t₂]; rfl) (by rw [t₂]; rfl)
  simp only [List.cons_append, List.nil_append] at n₃ d₃
  have hmap := pagingMap_eq (p := p) h4' g₁ g₂ g₃
  have hmap' := pagingMap_eq (p := p) h4 e₁ e₂ e₃
  rw [if_neg hpdpt, if_neg hpd] at hmap hmap'
  by_cases hpt : pt = 0
  · rw [if_pos hpt] at hmap hmap'
    exact .inr ⟨s₃, h₃, hmap, hmap', (z₃ hpt).1, (z₃ hpt).2⟩
  rw [if_neg hpt] at hmap hmap'
  have a₃ := d₃ hpt
  have t₃ : tablesFor h v = [h.pml4, pdpt, pd, pt] := by simp only [tablesFor, ← n₁, ← n₂, ← n₃]
  have htab : h₃.IsTable pt := isTable_of_walk a₃.walk_eq (by simp)
  have hl := leafUpdate_writePage rfl a₃.walk_eq (ptIdx v) p
  have htables := fun b => hl.isTable_iff a₃.tree (b := b)
  -- the page is new in its table: its counter is one of the layout's
  have hcount : link h₃.mem pt (ptIdx v) = none →
      ∀ b, h₃.IsTable b → b ≠ refCountAddr pt := fun hn b hb => by
    have hfor : ∀ b, h₃.IsTable b → TableFor h v b := fun b hb =>
      (a₃.tables b hb).elim htree.tableFor fun hb => hb.1
    refine hout.outside pt b (hfor pt htab) ⟨3, by rw [t₃]; rfl, ?_⟩ (hfor b hb)
    rw [hpath, ← hn, a₃.link_eq]
    rfl
  refine .inr ⟨_, _, hmap, hmap', hl.pageTree a₃.tree,
    (a₃.stored.writePage htab hcount p).mono (fun b => (htables b).mp) ?_ ?_⟩
  · rintro c (hc | ⟨hc, hnc⟩)
    exacts [.inl hc, .inr ⟨(htables c).mp hc, hnc⟩]
  · rintro c (hc | ⟨hc, -⟩)
    exacts [(htables c).mpr (a₃.stored.subset c (.inl hc)), hc]

end OS44
