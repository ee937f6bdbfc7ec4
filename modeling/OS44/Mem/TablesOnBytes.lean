import OS44.Mem.PageTables
import OS44.Mem.PagingBytes

/-! # Tables in memory, entry by entry

Where a `PageTable` is placed in memory its counter is in the next frame. A store to it is then a
store to the entry 0 of the table in that frame, if there is one, and clearing that table clears the
counter. `Stored E C s h` says that the tables `E` and the counters `C` read in memory as they do in
a state `h` of separate tables, and that none of these counters lies in one of these tables. Each
operation of the code keeps it as long as the counters that it stores lie in none of them either. -/

namespace OS44

open LinkedTree LittleEndian TableMemory

/-! ## Entries and counters in memory -/

section Bytes

variable {m : TableBytes} {a b e f t : U64} {i j : Fin 512} {c : U32}

theorem entry_setEntry_self (m : TableBytes) (a : U64) (i : Fin 512) (e : U64) :
    entry (setEntry m a i e) a i = e := load64_store64 ..

/-- The address of an entry of an aligned table. -/
theorem toNat_entryAddr (ha : a &&& frameMask = a) (i : Fin 512) :
    (entryAddr a i).toNat = a.toNat + 8 * i := by
  rw [and_frameMask_eq_self] at ha
  have hi := i.isLt
  rw [entryAddr]
  bv_omega

theorem entry_setEntry_of_ne (ha : a &&& frameMask = a) (hb : b &&& frameMask = b)
    (h : ¬ (b = a ∧ j = i)) : entry (setEntry m a i e) b j = entry m b j := by
  have hne : (entryAddr b j).toNat ≠ (entryAddr a i).toNat := fun he => by
    rw [toNat_entryAddr ha, toNat_entryAddr hb] at he
    rw [and_frameMask_eq_self] at ha hb
    have hi := i.isLt
    have hj := j.isLt
    exact h ⟨BitVec.eq_of_toNat_eq (by omega), Fin.ext (by omega)⟩
  have ha' := toNat_entryAddr ha i
  have hb' := toNat_entryAddr hb j
  rw [and_frameMask_eq_self] at ha hb
  -- two entries are eight bytes apart at least, in either direction
  refine load64_store64_of_apart _ _ ?_ ?_
  · rw [BitVec.toNat_sub]
    have := (entryAddr a i).isLt
    have := (entryAddr b j).isLt
    omega
  · rw [BitVec.toNat_sub]
    have := (entryAddr a i).isLt
    have := (entryAddr b j).isLt
    omega

theorem entry_setEntry_of_aligned (ha : a &&& frameMask = a) (hb : b &&& frameMask = b) :
    entry (setEntry m a i e) b j = if b = a ∧ j = i then e else entry m b j := by
  split
  · next h => rw [h.1, h.2, entry_setEntry_self]
  · next h => exact entry_setEntry_of_ne ha hb h

/-- The counter of the table `a` overwrites an entry of the table `b` only if `b` follows `a`
directly, and then it overwrites the entry 0. -/
theorem entry_setRefCount_of_apart (ha : a &&& frameMask = a) (hb : b &&& frameMask = b)
    (h : b = refCountAddr a → j ≠ 0) : entry (setRefCount m a c) b j = entry m b j := by
  have hb' := toNat_entryAddr hb j
  rw [and_frameMask_eq_self] at ha hb
  have hj := j.isLt
  refine congrArg (BitVec.ofNat 64) (loadLE_congr fun k hk => storeLE_of_not_lt fun hlt => ?_)
  by_cases hab : b = refCountAddr a
  · have hj0 : (j : ℕ) ≠ 0 := fun h0 => h hab (Fin.ext h0)
    have : (entryAddr b j + BitVec.ofNat 64 k - refCountAddr a).toNat = 8 * j + k := by
      rw [← hab]
      bv_omega
    omega
  · have hne : b.toNat ≠ (refCountAddr a).toNat := fun h => hab (BitVec.eq_of_toNat_eq h)
    rw [refCountAddr] at hlt hne
    bv_omega

/-- The counter of the table `a` is the lower half of the entry 0 behind it. -/
theorem entry_setRefCount_next (h : (entry m (refCountAddr a) 0).toNat < 2 ^ 32) :
    entry (setRefCount m a c) (refCountAddr a) 0 = c.setWidth 64 := by
  have haddr : entryAddr (refCountAddr a) 0 = refCountAddr a := BitVec.add_zero _
  have hsplit : ∀ n : Bytes 64, loadLE n (refCountAddr a) 8 =
      loadLE n (refCountAddr a) 4 + 256 ^ 4 * loadLE n (refCountAddr a + 4) 4 :=
    fun n => loadLE_add n _ 4 4
  have hhigh : loadLE m.bytes (refCountAddr a + 4) 4 = 0 := by
    have hlt := loadLE_lt m.bytes (refCountAddr a) 8
    simp only [entry, haddr, load64, BitVec.toNat_ofNat, hsplit] at h hlt
    omega
  have hhigh' : loadLE (storeLE m.bytes (refCountAddr a) 4 c.toNat) (refCountAddr a + 4) 4 = 0 := by
    rw [← hhigh]
    exact loadLE_congr fun k hk => storeLE_of_not_lt (by bv_omega)
  refine BitVec.eq_of_toNat_eq ?_
  simp only [entry, setRefCount, haddr, load64, store32, hsplit, hhigh',
    loadLE_storeLE m.bytes (refCountAddr a) (N := 4) (by decide) c.toNat le_rfl]
  have := c.isLt
  simp only [BitVec.toNat_ofNat, BitVec.toNat_setWidth]
  omega

theorem entry_zeroFrame_self (ha : a &&& frameMask = a) : entry (zeroFrame m a) a i = 0 := by
  have ha' := toNat_entryAddr ha i
  have hi := i.isLt
  have hz : loadLE (storeLE m.bytes a 4096 0) (entryAddr a i) 8 = 0 := loadLE_eq_zero fun k hk => by
    have hlt : (entryAddr a i + BitVec.ofNat 64 k - a).toNat < 4096 := by bv_omega
    rw [storeLE, if_pos hlt, Nat.zero_div]
    rfl
  simp only [entry, zeroFrame, load64, hz]
  rfl

theorem entry_zeroFrame_of_ne (ha : a &&& frameMask = a) (hb : b &&& frameMask = b) (h : b ≠ a) :
    entry (zeroFrame m a) b j = entry m b j := by
  have hb' := toNat_entryAddr hb j
  rw [and_frameMask_eq_self] at ha hb
  have hj := j.isLt
  have hne : b.toNat ≠ a.toNat := fun hn => h (BitVec.eq_of_toNat_eq hn)
  refine congrArg (BitVec.ofNat 64) (loadLE_congr fun k hk => storeLE_of_not_lt fun hlt => ?_)
  bv_omega

/-- **The entries after a new table is linked**, except those that a counter overwrites. -/
theorem entry_linkTable (s : Paging TableBytes) (ht : t &&& frameMask = t)
    (hf : f &&& frameMask = f)
    (hb : b &&& frameMask = b) (hcf : b = refCountAddr f → j ≠ 0)
    (hct : b = refCountAddr t → j ≠ 0) : entry (linkTable s t i f).mem b j =
      if b = t ∧ j = i then f ||| pagePresent ||| pageWritable
      else if b = f then 0 else entry s.mem b j := by
  simp only [linkTable]
  rw [entry_setRefCount_of_apart ht hb hct, entry_setRefCount_of_apart hf hb hcf]
  split
  · next h =>
    rw [h.1, h.2, entry_setEntry_self]
  · next h =>
    rw [entry_setEntry_of_ne ht hb h]
    split
    · next hbf =>
      rw [hbf, entry_zeroFrame_self hf]
    · next hbf =>
      rw [entry_zeroFrame_of_ne hf hb hbf]

theorem refCountAddr_ne (t : U64) : refCountAddr t ≠ t := by
  rw [refCountAddr]
  bv_omega

theorem refCount_setRefCount_self (m : TableBytes) (a : U64) (c : U32) :
    refCount (setRefCount m a c) a = c := load32_store32 ..

theorem refCount_setRefCount_of_ne (ha : a &&& frameMask = a) (ht : t &&& frameMask = t)
    (h : t ≠ a) : refCount (setRefCount m a c) t = refCount m t := by
  rw [and_frameMask_eq_self] at ha ht
  have hne : t.toNat ≠ a.toNat := fun he => h (BitVec.eq_of_toNat_eq he)
  refine congrArg (BitVec.ofNat 32) (loadLE_congr fun k hk => storeLE_of_not_lt fun hlt => ?_)
  simp only [refCountAddr] at hlt
  bv_omega

/-- An entry of the table `a` overlaps the counter of the table `t` only if `a` follows `t`
directly. -/
theorem refCount_setEntry_of_apart (ha : a &&& frameMask = a) (ht : t &&& frameMask = t)
    (h : a ≠ refCountAddr t) : refCount (setEntry m a i e) t = refCount m t := by
  have ha' := toNat_entryAddr ha i
  have hi := i.isLt
  have hne : a.toNat ≠ (refCountAddr t).toNat := fun he => h (BitVec.eq_of_toNat_eq he)
  rw [and_frameMask_eq_self] at ha ht
  refine congrArg (BitVec.ofNat 32) (loadLE_congr fun k hk => storeLE_of_not_lt fun hlt => ?_)
  simp only [refCountAddr] at hlt hne
  bv_omega

/-- In memory that is zero no table has a link. -/
theorem link_pagingAt_zero (pmm : Pmm) (cr3 : U64) :
    link (pagingAt (fun _ => 0) pmm cr3).mem a i = none := by
  have hzero : entry (pagingAt (fun _ => 0) pmm cr3).mem a i = 0 := by
    show BitVec.ofNat 64 (loadLE (fun _ => 0) (entryAddr a i) 8) = 0
    rw [loadLE_eq_zero fun _ _ => rfl]
    rfl
  rw [link, hzero, entryLink_zero]

theorem refCount_zeroFrame_of_apart (ha : a &&& frameMask = a) (ht : t &&& frameMask = t)
    (h : a ≠ refCountAddr t) : refCount (zeroFrame m a) t = refCount m t := by
  have hne : a.toNat ≠ (refCountAddr t).toNat := fun he => h (BitVec.eq_of_toNat_eq he)
  rw [and_frameMask_eq_self] at ha ht
  refine congrArg (BitVec.ofNat 32) (loadLE_congr fun k hk => storeLE_of_not_lt fun hlt => ?_)
  simp only [refCountAddr] at hlt hne
  bv_omega

end Bytes

/-! ## The tables and counters of a `paging_map` -/

/-- What `get_next_table` finds behind a slot: the table linked there, or the next frame. -/
def nextTable (pmm : Pmm) : Option U64 → U64 × Pmm
  | some a => (a, pmm)
  | none => pmmAllocFrame pmm

/-- **The tables on the walk of `v` after a `paging_map`**: those there are, and the frames the
allocator will give for those that are missing. -/
def tablesFor {M : Type} [TableMemory M] (s : Paging M) (v : U64) : List U64 :=
  let (pdpt, pmm) := nextTable s.pmm (walk (link s.mem) s.pml4 [pml4Idx v])
  let (pd, pmm) := nextTable pmm (walk (link s.mem) s.pml4 [pml4Idx v, pdptIdx v])
  let (pt, _) := nextTable pmm (walk (link s.mem) s.pml4 [pml4Idx v, pdptIdx v, pdIdx v])
  [s.pml4, pdpt, pd, pt]

/-- **The counters that a `paging_map` stores**: those of the tables behind which the walk of `v`
does not go on, so that an entry is new in them. -/
def StoresCounter {M : Type} [TableMemory M] (s : Paging M) (v t : U64) : Prop :=
  ∃ k, (tablesFor s v)[k]? = some t ∧
    walk (link s.mem) s.pml4 ((pagePath (pageOf v)).take (k + 1)) = none

/-- A table that there is, or that a `paging_map` of `v` will link. -/
def TableFor {M : Type} [TableMemory M] (s : Paging M) (v t : U64) : Prop :=
  t ≠ 0 ∧ (s.IsTable t ∨ t ∈ tablesFor s v)

/-- **No counter that a `paging_map` of `v` stores lies in a table.** -/
def MapOutside {M : Type} [TableMemory M] (s : Paging M) (v : U64) : Prop :=
  ∀ t b, TableFor s v t → StoresCounter s v t → TableFor s v b → b ≠ refCountAddr t

/-- **The counters that a `paging_unmap` stores**: that of the page table, where the page is mapped,
and those of the tables that lose a child since the one below them has counted its last entry. -/
def DropsCounter {M : Type} [TableMemory M] (s : Paging M) (v t : U64) : Prop :=
  ∃ pdpt pd pt, HasTables s v pdpt pd pt ∧ link s.mem pt (ptIdx v) ≠ none ∧
    (t = pt ∨ refCount s.mem pt = 1 ∧ (t = pd ∨ refCount s.mem pd = 1 ∧ t = pdpt))

/-- **No counter that a `paging_unmap` of `v` stores lies in a table.** -/
def UnmapOutside {M : Type} [TableMemory M] (s : Paging M) (v : U64) : Prop :=
  ∀ t b, DropsCounter s v t → s.IsTable b → b ≠ refCountAddr t

section Layout

variable {M : Type} [TableMemory M] {s : Paging M} {v t pdpt pd pt : U64}

theorem DropsCounter.isTable (h : DropsCounter s v t) : s.IsTable t := by
  obtain ⟨pdpt, pd, pt, ht, -, rfl | ⟨-, rfl | ⟨-, rfl⟩⟩⟩ := h
  exacts [⟨_, by simp, ht.walks.2.2⟩, ⟨_, by simp, ht.walks.2.1⟩, ⟨_, by simp, ht.walks.1⟩]

/-- With all tables found, `paging_map` links none. -/
theorem HasTables.tablesFor (h : HasTables s v pdpt pd pt) :
    tablesFor s v = [s.pml4, pdpt, pd, pt] := by
  obtain ⟨h₁, h₂, h₃⟩ := h.walks
  simp only [OS44.tablesFor, h₁, h₂, h₃, nextTable]

/-- Where no table directly follows another one, no counter lies in a table. -/
theorem unmapOutside_of_spaced (h : ∀ t b, s.IsTable t → s.IsTable b → b ≠ refCountAddr t)
    (v : U64) : UnmapOutside s v := fun t b ht hb => h t b ht.isTable hb

theorem HasTables.mapOutside (ht : HasTables s v pdpt pd pt)
    (h : ∀ t b, s.IsTable t → s.IsTable b → b ≠ refCountAddr t) : MapOutside s v := by
  have htable : ∀ t, TableFor s v t → s.IsTable t := fun t hfor => by
    rcases hfor.2 with hfor | hfor
    · exact hfor
    · rw [ht.tablesFor] at hfor
      simp only [List.mem_cons, List.not_mem_nil, or_false] at hfor
      rcases hfor with rfl | rfl | rfl | rfl
      exacts [isNode_root, ⟨_, by simp, ht.walks.1⟩, ⟨_, by simp, ht.walks.2.1⟩,
        ⟨_, by simp, ht.walks.2.2⟩]
  exact fun t b hfor _ hfor' => h t b (htable t hfor) (htable b hfor')

end Layout

/-! ## The same tables in memory and on structs -/

/-- The tables as they read in memory. -/
def TableBytes.onStructs (m : TableBytes) : TableHeap := fun a =>
  { entries := fun i => entry m a i, refCount := refCount m a }

/-- The paging state with its tables as they read in memory. -/
def Paging.onStructs (s : Paging TableBytes) : Paging TableHeap :=
  { mem := s.mem.onStructs, pml4 := s.pml4, pmm := s.pmm }

/-- The two states have the same links. -/
theorem Paging.link_onStructs (s : Paging TableBytes) : link s.onStructs.mem = link s.mem := rfl

theorem PageTree.onStructs {s : Paging TableBytes} (h : PageTree s) : PageTree s.onStructs :=
  ⟨h.root_aligned, h.tree, h.ne_zero, h.used⟩

theorem hasTables_onStructs {s : Paging TableBytes} {v pdpt pd pt : U64} :
    HasTables s.onStructs v pdpt pd pt ↔ HasTables s v pdpt pd pt :=
  ⟨fun h => ⟨h.1, h.2, h.3, h.4, h.5, h.6, h.7⟩, fun h => ⟨h.1, h.2, h.3, h.4, h.5, h.6, h.7⟩⟩

theorem dropsCounter_onStructs {s : Paging TableBytes} {v t : U64} :
    DropsCounter s.onStructs v t ↔ DropsCounter s v t := by
  simp only [DropsCounter, hasTables_onStructs]
  exact Iff.rfl

/-- **The tables `E` and the counters `C` read in memory as they do on structs**, and no counter
lies in a table. -/
structure Stored (E C : U64 → Prop) (s : Paging TableBytes) (h : Paging TableHeap) : Prop where
  pml4_eq : s.pml4 = h.pml4
  pmm_eq : s.pmm = h.pmm
  aligned : ∀ a, E a → a &&& frameMask = a
  subset : ∀ c, C c → E c
  apart : ∀ a c, E a → C c → a ≠ refCountAddr c
  entry_eq : ∀ a i, E a → entry s.mem a i = entry h.mem a i
  refCount_eq : ∀ c, C c → refCount s.mem c = refCount h.mem c

namespace Stored

variable {E C E' C' : U64 → Prop} {s : Paging TableBytes} {h : Paging TableHeap}
  {a b f t v pdpt pd pt : U64} {i : Fin 512} {e : U64} {c c' : U32} {p : List (Fin 512)}

/-- At first memory is the reference. -/
theorem onStructs (s : Paging TableBytes) (haligned : ∀ a, E a → a &&& frameMask = a)
    (hsub : ∀ c, C c → E c) (hapart : ∀ a c, E a → C c → a ≠ refCountAddr c) :
    Stored E C s s.onStructs :=
  ⟨rfl, rfl, haligned, hsub, hapart, fun _ _ _ => rfl, fun _ _ => rfl⟩

variable (hs : Stored E C s h)
include hs

/-- Fewer tables and counters. -/
theorem mono (hE : ∀ a, E' a → E a) (hC : ∀ c, C' c → C c) (hsub : ∀ c, C' c → E' c) :
    Stored E' C' s h where
  pml4_eq := hs.pml4_eq
  pmm_eq := hs.pmm_eq
  aligned a ha := hs.aligned a (hE a ha)
  subset := hsub
  apart a c ha hc := hs.apart a c (hE a ha) (hC c hc)
  entry_eq a i ha := hs.entry_eq a i (hE a ha)
  refCount_eq c hc := hs.refCount_eq c (hC c hc)

theorem withPmm (pmm : Pmm) : Stored E C { s with pmm := pmm } { h with pmm := pmm } :=
  ⟨hs.pml4_eq, rfl, hs.aligned, hs.subset, hs.apart, hs.entry_eq, hs.refCount_eq⟩

theorem link_eq (ha : E a) (i : Fin 512) : link s.mem a i = link h.mem a i := by
  rw [link, hs.entry_eq a i ha, ← link]

/-- The same walks, if all tables are among those related. -/
theorem walk_eq (hE : ∀ a, h.IsTable a → E a) (hp : p.length ≤ 4) :
    walk (link s.mem) s.pml4 p = walk (link h.mem) h.pml4 p := by
  rw [hs.pml4_eq]
  refine walk_congr fun q i hqi a ha => hs.link_eq (hE a ⟨q, ?_, ha⟩) i
  have := hqi.length_le
  rw [List.length_append, List.length_singleton] at this
  omega

theorem pageFrame_eq (hE : ∀ a, h.IsTable a → E a) (n : Fin (2 ^ 36)) :
    s.pageFrame n = h.pageFrame n := hs.walk_eq hE le_rfl

theorem isTable_iff (hE : ∀ a, h.IsTable a → E a) : s.IsTable a ↔ h.IsTable a :=
  exists_congr fun p => and_congr_right fun hp => by rw [hs.walk_eq hE (by omega)]

/-- A tree of structs is a tree in memory. -/
theorem pageTree (hE : ∀ a, h.IsTable a → E a) (ht : PageTree h) : PageTree s where
  root_aligned := by rw [hs.pml4_eq, ht.root_aligned]
  tree p q a hp hq hpa hqa := by
    rw [hs.walk_eq hE (by omega)] at hpa hqa
    exact ht.tree p q a hp hq hpa hqa
  ne_zero a ha := ht.ne_zero a ((hs.isTable_iff hE).mp ha)
  used a ha := by
    rw [hs.pmm_eq]
    exact ht.used a ((hs.isTable_iff hE).mp ha)

/-! ### The stores -/

theorem storeEntry (ha : E a) (i : Fin 512) (e : U64) :
    Stored E C { s with mem := setEntry s.mem a i e } { h with mem := setEntry h.mem a i e } where
  pml4_eq := hs.pml4_eq
  pmm_eq := hs.pmm_eq
  aligned := hs.aligned
  subset := hs.subset
  apart := hs.apart
  entry_eq b j hb := by
    rw [entry_setEntry, entry_setEntry_of_aligned (hs.aligned a ha) (hs.aligned b hb),
      hs.entry_eq b j hb]
  refCount_eq c hc := by
    rw [refCount_setEntry, refCount_setEntry_of_apart (hs.aligned a ha)
      (hs.aligned c (hs.subset c hc)) (hs.apart a c ha hc), hs.refCount_eq c hc]

/-- A store to a counter that lies in no table; the values agree if the counters do. -/
theorem storeCounter (ha : a &&& frameMask = a) (hout : ∀ b, E b → b ≠ refCountAddr a)
    (hc : C a → c = c') :
    Stored E C { s with mem := setRefCount s.mem a c }
      { h with mem := setRefCount h.mem a c' } where
  pml4_eq := hs.pml4_eq
  pmm_eq := hs.pmm_eq
  aligned := hs.aligned
  subset := hs.subset
  apart := hs.apart
  entry_eq b j hb := by
    rw [entry_setRefCount, entry_setRefCount_of_apart ha (hs.aligned b hb)
      fun he => absurd he (hout b hb), hs.entry_eq b j hb]
  refCount_eq b hb := by
    rw [refCount_setRefCount]
    split
    · next hba => rw [hba, refCount_setRefCount_self, hc (hba ▸ hb)]
    · next hba =>
      rw [refCount_setRefCount_of_ne ha (hs.aligned b (hs.subset b hb)) hba, hs.refCount_eq b hb]

end Stored

end OS44
