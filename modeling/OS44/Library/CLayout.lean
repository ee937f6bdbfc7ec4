import Mathlib.Data.List.Pairwise
import OS44.Library.LittleEndian

/-! # Records of C in memory

A C compiler gives each member of a struct an offset: the next multiple of its alignment behind the
member before it, or the next byte in a packed struct. A record is written member by member; what is
read back at a member's offset is what was written there, and nothing outside the record changes.

* The members of a layout lie in the record and apart (`members_layout`).
* A record that was written is read back member by member (`load_store`). -/

namespace OS44.CLayout

open LittleEndian

/-- A member of a struct: where it is and how many bytes it has. -/
structure Member where
  offset : ℕ
  size : ℕ
  deriving DecidableEq, Repr

/-- The size and the alignment of a type. -/
structure CType where
  size : ℕ
  align : ℕ
  deriving DecidableEq, Repr

namespace CType

def uint16 : CType := ⟨2, 2⟩
def uint32 : CType := ⟨4, 4⟩
def uint64 : CType := ⟨8, 8⟩
def pointer : CType := ⟨8, 8⟩

end CType

/-- The next multiple of an alignment. -/
def alignUp (n align : ℕ) : ℕ := (n + align - 1) / align * align

/-- The members of a struct whose next byte is `pos`. -/
def layout (pos : ℕ) : List CType → List Member
  | [] => []
  | t :: ts => ⟨alignUp pos t.align, t.size⟩ :: layout (alignUp pos t.align + t.size) ts

/-- The end of the last member. -/
def layoutEnd (pos : ℕ) : List CType → ℕ
  | [] => pos
  | t :: ts => layoutEnd (alignUp pos t.align + t.size) ts

/-- Two members share no byte. -/
def Member.Apart (f g : Member) : Prop :=
  f.offset + f.size ≤ g.offset ∨ g.offset + g.size ≤ f.offset

instance (f g : Member) : Decidable (f.Apart g) := inferInstanceAs (Decidable (_ ∨ _))

/-- Members that lie in `n` bytes, apart from each other. -/
structure Members (n : ℕ) (fs : List Member) : Prop where
  inside : ∀ f ∈ fs, f.offset + f.size ≤ n
  apart : fs.Pairwise Member.Apart

instance (n : ℕ) (fs : List Member) : Decidable (Members n fs) :=
  decidable_of_iff ((∀ f ∈ fs, f.offset + f.size ≤ n) ∧ fs.Pairwise Member.Apart)
    ⟨fun h => ⟨h.1, h.2⟩, fun h => ⟨h.1, h.2⟩⟩

variable {n pos align : ℕ} {ts : List CType} {fs : List Member}

theorem le_alignUp (h : 0 < align) : n ≤ alignUp n align := by
  have hlt := Nat.lt_div_mul_add (a := n + align - 1) h
  unfold alignUp
  omega

@[simp] theorem alignUp_one (n : ℕ) : alignUp n 1 = n := by
  simp [alignUp]

/-- Where the members of a layout are. -/
theorem bounds_layout (hts : ∀ t ∈ ts, 0 < t.align) : pos ≤ layoutEnd pos ts ∧
    ∀ f ∈ layout pos ts, pos ≤ f.offset ∧ f.offset + f.size ≤ layoutEnd pos ts := by
  induction ts generalizing pos with
  | nil => exact ⟨le_rfl, fun f hf => absurd hf List.not_mem_nil⟩
  | cons t ts ih =>
    have halign : pos ≤ alignUp pos t.align := le_alignUp (hts t List.mem_cons_self)
    obtain ⟨hend, hrest⟩ := @ih (alignUp pos t.align + t.size)
      fun u hu => hts u (List.mem_cons_of_mem t hu)
    refine ⟨?_, fun f hf => ?_⟩
    · show pos ≤ layoutEnd (alignUp pos t.align + t.size) ts
      omega
    · obtain rfl | hf := List.mem_cons.mp hf
      · exact ⟨halign, hend⟩
      · obtain ⟨hlo, hhi⟩ := hrest f hf
        exact ⟨by omega, hhi⟩

/-- **The members of a layout lie in the record and apart.** -/
theorem members_layout (hts : ∀ t ∈ ts, 0 < t.align) :
    Members (layoutEnd pos ts) (layout pos ts) where
  inside f hf := ((bounds_layout hts).2 f hf).2
  apart := by
    induction ts generalizing pos with
    | nil => exact List.Pairwise.nil
    | cons t ts ih =>
      have hrest : ∀ u ∈ ts, 0 < u.align := fun u hu => hts u (List.mem_cons_of_mem t hu)
      exact List.Pairwise.cons (fun f hf => .inl ((bounds_layout hrest).2 f hf).1) (ih hrest)

/-! ## A record in memory -/

variable {w : ℕ} {m : Bytes w} {a b : BitVec w} {f g : Member} {v : ℕ}

/-- A member is written. -/
def storeMember (m : Bytes w) (a : BitVec w) (f : Member) (v : ℕ) : Bytes w :=
  storeLE m (a + BitVec.ofNat w f.offset) f.size v

/-- A member is read. -/
def loadMember (m : Bytes w) (a : BitVec w) (f : Member) : ℕ :=
  loadLE m (a + BitVec.ofNat w f.offset) f.size

/-- A record is written member by member. -/
def store (m : Bytes w) (a : BitVec w) (record : List (Member × ℕ)) : Bytes w :=
  record.foldl (fun m p => storeMember m a p.1 p.2) m

/-- A byte at an offset outside a member is not written with it. -/
theorem storeMember_of_outside (hf : f.offset + f.size ≤ 2 ^ w)
    (hb : (b - a).toNat < f.offset ∨ f.offset + f.size ≤ (b - a).toNat) :
    storeMember m a f v b = m b := by
  have hlt := (b - a).isLt
  refine storeLE_of_not_lt ?_
  have hsub : (b - (a + BitVec.ofNat w f.offset)).toNat =
      (2 ^ w - f.offset % 2 ^ w + (b - a).toNat) % 2 ^ w := by
    rw [← BitVec.sub_sub, BitVec.toNat_sub, BitVec.toNat_ofNat]
  rw [hsub]
  by_cases h0 : f.size = 0
  · omega
  rw [Nat.mod_eq_of_lt (by omega : f.offset < 2 ^ w)]
  obtain hlow | hhigh := hb
  · rw [Nat.mod_eq_of_lt (by omega)]
    omega
  · rw [Nat.mod_eq_sub_mod (by omega), Nat.mod_eq_of_lt (by omega)]
    omega

/-- A member apart from the one written reads as before. -/
theorem loadMember_storeMember_of_apart (hf : f.offset + f.size ≤ 2 ^ w)
    (hg : g.offset + g.size ≤ 2 ^ w) (h : f.Apart g) :
    loadMember (storeMember m a f v) a g = loadMember m a g := by
  refine loadLE_congr fun k hk => storeMember_of_outside hf ?_
  have hsub : (a + BitVec.ofNat w g.offset + BitVec.ofNat w k - a).toNat = g.offset + k := by
    rw [BitVec.add_assoc, ← BitVec.ofNat_add, BitVec.add_comm, BitVec.add_sub_cancel,
      BitVec.toNat_ofNat, Nat.mod_eq_of_lt (by omega)]
  rw [hsub]
  obtain h | h := h <;> omega

/-- What is behind the record, or in front of it, stays. -/
theorem store_outside {record : List (Member × ℕ)} (hn : n ≤ 2 ^ w)
    (hin : ∀ p ∈ record, p.1.offset + p.1.size ≤ n) (hb : n ≤ (b - a).toNat) :
    store m a record b = m b := by
  induction record generalizing m with
  | nil => rfl
  | cons p ps ih =>
    have hp := hin p List.mem_cons_self
    rw [store, List.foldl_cons]
    refine (ih fun q hq => hin q (List.mem_cons_of_mem p hq)).trans ?_
    exact storeMember_of_outside (hp.trans hn) (.inr (hp.trans hb))

/-- A member apart from those written reads as before. -/
theorem loadMember_store_of_apart {record : List (Member × ℕ)} (hn : n ≤ 2 ^ w)
    (hin : ∀ p ∈ record, p.1.offset + p.1.size ≤ n) (hg : g.offset + g.size ≤ n)
    (hapart : ∀ p ∈ record, p.1.Apart g) :
    loadMember (store m a record) a g = loadMember m a g := by
  induction record generalizing m with
  | nil => rfl
  | cons p ps ih =>
    rw [store, List.foldl_cons]
    refine (ih (fun q hq => hin q (List.mem_cons_of_mem p hq))
      fun q hq => hapart q (List.mem_cons_of_mem p hq)).trans ?_
    exact loadMember_storeMember_of_apart ((hin p List.mem_cons_self).trans hn) (hg.trans hn)
      (hapart p List.mem_cons_self)

/-- **A record that was written is read back member by member.** -/
theorem load_store {record : List (Member × ℕ)} (hn : n ≤ 2 ^ w)
    (h : Members n (record.map Prod.fst)) (hmem : (f, v) ∈ record) :
    loadMember (store m a record) a f = v % 256 ^ f.size := by
  have hin : ∀ p ∈ record, p.1.offset + p.1.size ≤ n := fun p hp =>
    h.inside p.1 (List.mem_map_of_mem hp)
  have hapart := List.pairwise_map.mp h.apart
  clear h
  induction record generalizing m with
  | nil => exact absurd hmem List.not_mem_nil
  | cons p ps ih =>
    obtain ⟨hp, hps⟩ := List.pairwise_cons.mp hapart
    rw [store, List.foldl_cons]
    obtain rfl | hmem := List.mem_cons.mp hmem
    · refine (loadMember_store_of_apart hn (fun q hq => hin q (List.mem_cons_of_mem _ hq))
        (hin _ List.mem_cons_self) fun q hq => (hp q hq).symm).trans ?_
      have hsize := (Nat.le_add_left f.size f.offset).trans ((hin _ List.mem_cons_self).trans hn)
      exact loadLE_storeLE _ _ hsize v le_rfl
    · exact ih hmem (fun q hq => hin q (List.mem_cons_of_mem _ hq)) hps

@[simp] theorem length_layout (pos : ℕ) (ts : List CType) : (layout pos ts).length = ts.length := by
  induction ts generalizing pos with
  | nil => rfl
  | cons t ts ih => simp [layout, ih]

/-- The `i`-th member of a struct. -/
def member (ts : List CType) (i : ℕ) : Member := (layout 0 ts).getD i ⟨0, 0⟩

/-- A member has the size of its type. -/
theorem size_getD_layout (t : CType) {f : Member} (hf : f.size = t.size) (ts : List CType)
    (i : ℕ) : ((layout pos ts).getD i f).size = (ts.getD i t).size := by
  induction ts generalizing pos i with
  | nil => exact hf
  | cons u ts ih =>
    cases i with
    | zero => rfl
    | succ i => exact ih i

theorem member_mem {i : ℕ} (hi : i < ts.length) : member ts i ∈ layout 0 ts := by
  have hlt : i < (layout 0 ts).length := by simpa using hi
  rw [member, List.getD_eq_getElem?_getD, List.getElem?_eq_getElem hlt]
  exact List.getElem_mem hlt

/-- **A struct that was written is read back by its declaration.** -/
theorem loadMember_store_member {vs : List ℕ} {i : ℕ} (hts : ∀ t ∈ ts, 0 < t.align)
    (hend : layoutEnd 0 ts ≤ 2 ^ w) (hlen : vs.length = ts.length) (hi : i < ts.length) :
    loadMember (store m a ((layout 0 ts).zip vs)) a (member ts i) =
      vs.getD i 0 % 256 ^ (ts.getD i ⟨0, 1⟩).size := by
  have hfst : ((layout 0 ts).zip vs).map Prod.fst = layout 0 ts :=
    List.map_fst_zip (by simp [hlen])
  have hmem : (member ts i, vs.getD i 0) ∈ (layout 0 ts).zip vs := by
    rw [List.mem_iff_getElem]
    exact ⟨i, by simp [hi, hlen], by simp [member, hi, hlen]⟩
  rw [load_store hend (by rw [hfst]; exact members_layout hts) hmem, member,
    size_getD_layout ⟨0, 1⟩ rfl]

end OS44.CLayout
