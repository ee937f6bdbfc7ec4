import Mathlib.Data.Finset.Max
import Mathlib.Order.Interval.Finset.Nat

/-! # First-fit allocation from a finite set

The free items are a finite set of a linear order; the allocator takes the least one. `takeMany k`
takes `k` items one after another. What it takes is an initial segment of the free set
(`takeMany_eq_sdiff`), the `k` lowest items (`takeMany_eq_sdiff_lowestItems`), so a block of `k`
consecutive numbers is taken as a block exactly when it sits at the bottom of
the free set (`takeMany_Ico`). -/

namespace OS44.FirstFit

universe u

variable {α : Type u} [LinearOrder α]

/-- The free set after the least free item is taken. -/
def takeFirst (F : Finset α) : Finset α :=
  if h : F.Nonempty then F.erase (F.min' h) else F

/-- The free set after `k` items are taken one by one. -/
def takeMany : ℕ → Finset α → Finset α
  | 0, F => F
  | k + 1, F => takeMany k (takeFirst F)

@[simp] theorem takeMany_zero (F : Finset α) : takeMany 0 F = F := rfl

@[simp] theorem takeMany_succ (k : ℕ) (F : Finset α) :
    takeMany (k + 1) F = takeMany k (takeFirst F) := rfl

/-- The least free item is the one that is taken. -/
theorem takeFirst_eq_erase {F : Finset α} {a : α} (ha : a ∈ F) (hmin : ∀ b ∈ F, a ≤ b) :
    takeFirst F = F.erase a := by
  have hne : F.Nonempty := ⟨a, ha⟩
  have hm : F.min' hne = a :=
    le_antisymm (F.min'_le a ha) (hmin _ (F.min'_mem hne))
  rw [takeFirst, dif_pos hne, hm]

@[simp] theorem takeFirst_empty : takeFirst (∅ : Finset α) = ∅ := by
  simp [takeFirst]

theorem takeFirst_subset (F : Finset α) : takeFirst F ⊆ F := by
  unfold takeFirst
  split
  · exact Finset.erase_subset _ _
  · exact Finset.Subset.refl F

/-- At most one element is taken. -/
theorem card_le_card_takeFirst (F : Finset α) : F.card ≤ (takeFirst F).card + 1 := by
  rcases F.eq_empty_or_nonempty with rfl | hF
  · simp
  · rw [takeFirst_eq_erase (F.min'_mem hF) fun b hb => F.min'_le b hb,
      Finset.card_erase_add_one (F.min'_mem hF)]

/-- **What is taken is an initial segment**: if every item of `T ⊆ F` is below every other item of
`F`, taking `T.card` items takes exactly `T`. -/
theorem takeMany_eq_sdiff {T F : Finset α} (hT : T ⊆ F)
    (hlow : ∀ x ∈ T, ∀ y ∈ F, y ∉ T → x < y) : takeMany T.card F = F \ T := by
  induction hk : T.card generalizing T F with
  | zero => simp [Finset.card_eq_zero.mp hk]
  | succ k ih =>
    have hne : T.Nonempty := Finset.card_pos.mp (by omega)
    -- the first taken is the least of `T`, which is the least of all; then the rest of `T`
    set m := T.min' hne with hm
    have hmT : m ∈ T := T.min'_mem hne
    have hmin : ∀ b ∈ F, m ≤ b := by
      intro b hb
      by_cases hbT : b ∈ T
      · exact T.min'_le b hbT
      · exact (hlow m hmT b hb hbT).le
    have hlow' : ∀ x ∈ T.erase m, ∀ y ∈ F.erase m, y ∉ T.erase m → x < y := by
      intro x hx y hy hyT
      refine hlow x (Finset.mem_of_mem_erase hx) y (Finset.mem_of_mem_erase hy) fun h => hyT ?_
      exact Finset.mem_erase.mpr ⟨(Finset.mem_erase.mp hy).1, h⟩
    have hcard : (T.erase m).card = k := by rw [Finset.card_erase_of_mem hmT]; omega
    rw [takeMany_succ, takeFirst_eq_erase (hT hmT) hmin,
      ih (Finset.erase_subset_erase m hT) hlow' hcard]
    ext y
    simp only [Finset.mem_sdiff, Finset.mem_erase]
    constructor
    · rintro ⟨⟨hym, hyF⟩, hyT⟩
      exact ⟨hyF, fun h => hyT ⟨hym, h⟩⟩
    · rintro ⟨hyF, hyT⟩
      exact ⟨⟨fun h => hyT (h ▸ hmT), hyF⟩, fun h => hyT h.2⟩

/-- **A consecutive block at the bottom of the free set is taken as a block.** -/
theorem takeMany_Ico {F : Finset ℕ} {i k : ℕ} (hmin : ∀ b ∈ F, i ≤ b)
    (hfree : ∀ j < k, i + j ∈ F) : takeMany k F = F \ Finset.Ico i (i + k) := by
  have hsub : Finset.Ico i (i + k) ⊆ F := by
    intro x hx
    obtain ⟨hix, hxk⟩ := Finset.mem_Ico.mp hx
    have := hfree (x - i) (by omega)
    rwa [Nat.add_sub_cancel' hix] at this
  have hlow : ∀ x ∈ Finset.Ico i (i + k), ∀ y ∈ F, y ∉ Finset.Ico i (i + k) → x < y := by
    intro x hx y hy hyn
    have hiy := hmin y hy
    simp only [Finset.mem_Ico] at hx hyn
    omega
  have := takeMany_eq_sdiff hsub hlow
  rwa [Nat.card_Ico, Nat.add_sub_cancel_left] at this

/-! ## The lowest items -/

/-- The `k` lowest items of a set: those with fewer than `k` items below them. -/
def lowestItems (k : ℕ) (F : Finset α) : Finset α := F.filter fun x => (F.filter (· < x)).card < k

@[simp] theorem lowestItems_zero (F : Finset α) : lowestItems 0 F = ∅ := by simp [lowestItems]

@[simp] theorem lowestItems_empty (k : ℕ) : lowestItems k (∅ : Finset α) =
    ∅ := by simp [lowestItems]

theorem lowestItems_subset (k : ℕ) (F : Finset α) : lowestItems k F ⊆ F := Finset.filter_subset _ _

/-- The least item is among the lowest, and the others are the lowest of the rest. -/
theorem lowestItems_succ {F : Finset α} {a : α} (ha : a ∈ F) (hmin : ∀ b ∈ F, a ≤ b) (k : ℕ) :
    lowestItems (k + 1) F = insert a (lowestItems k (F.erase a)) := by
  ext x
  simp only [lowestItems, Finset.mem_filter, Finset.mem_insert, Finset.mem_erase]
  by_cases hxa : x = a
  · -- nothing is below the least item
    have hnone : F.filter (· < a) = ∅ :=
      Finset.filter_eq_empty_iff.mpr fun b hb => not_lt.mpr (hmin b hb)
    subst hxa
    simp [ha, hnone]
  · have hbelow : ∀ hx : x ∈ F, (F.filter (· < x)).card =
      ((F.erase a).filter (· < x)).card + 1 := by
      intro hx
      have hax : a < x := lt_of_le_of_ne (hmin x hx) (Ne.symm hxa)
      rw [Finset.filter_erase, Finset.card_erase_add_one]
      exact Finset.mem_filter.mpr ⟨ha, hax⟩
    constructor
    · rintro ⟨hx, hcard⟩
      rw [hbelow hx] at hcard
      exact .inr ⟨⟨hxa, hx⟩, by omega⟩
    · rintro (h | ⟨⟨-, hx⟩, hcard⟩)
      · exact absurd h hxa
      · refine ⟨hx, ?_⟩
        rw [hbelow hx]
        omega

/-- **What is taken is the lowest items.** -/
theorem takeMany_eq_sdiff_lowestItems (k : ℕ) (F : Finset α) : takeMany k F =
    F \ lowestItems k F := by
  induction k generalizing F with
  | zero => simp
  | succ k ih =>
    rcases F.eq_empty_or_nonempty with rfl | hF
    · rw [takeMany_succ, takeFirst_empty, ih, lowestItems_empty, lowestItems_empty]
    · have hmin : ∀ b ∈ F, F.min' hF ≤ b := fun b hb => F.min'_le b hb
      rw [takeMany_succ, takeFirst_eq_erase (F.min'_mem hF) hmin, ih,
        lowestItems_succ (F.min'_mem hF) hmin, Finset.sdiff_insert, Finset.erase_sdiff_comm]

/-- There are `k` of them, if there are `k` items. -/
theorem card_lowestItems {k : ℕ} {F : Finset α} (h : k ≤ F.card) : (lowestItems k F).card = k := by
  induction k generalizing F with
  | zero => simp
  | succ k ih =>
    have hF : F.Nonempty := Finset.card_pos.mp (by omega)
    have hmem := F.min'_mem hF
    rw [lowestItems_succ hmem fun b hb => F.min'_le b hb, Finset.card_insert_of_notMem, ih]
    · rw [Finset.card_erase_of_mem hmem]
      omega
    · intro hlow
      exact Finset.notMem_erase _ _ (lowestItems_subset _ _ hlow)

/-- Of consecutive items the lowest are the first ones. -/
theorem lowestItems_Ico {a b k : ℕ} (h : a + k ≤ b) :
    lowestItems k (Finset.Ico a b) = Finset.Ico a (a + k) := by
  ext x
  rw [lowestItems, Finset.mem_filter, Finset.Ico_filter_lt, Nat.card_Ico, Finset.mem_Ico,
    Finset.mem_Ico]
  omega

/-- Where the lowest items are consecutive, they start at the least item. -/
theorem eq_of_lowestItems_eq_Ico {F : Finset ℕ} {i k n : ℕ} (hi : i ∈ F) (hmin : ∀ j ∈ F, i ≤ j)
    (hn : 0 < n) (h : lowestItems n F = Finset.Ico k (k + n)) : k = i := by
  have hk : k ∈ lowestItems n F := by
    rw [h, Finset.mem_Ico]
    omega
  have himem : i ∈ lowestItems n F := by
    obtain ⟨m, rfl⟩ : ∃ m, n = m + 1 := ⟨n - 1, by omega⟩
    rw [lowestItems_succ hi hmin]
    exact Finset.mem_insert_self _ _
  have hik := hmin k (lowestItems_subset _ _ hk)
  rw [h, Finset.mem_Ico] at himem
  omega

end OS44.FirstFit
