import OS44.Library.ByteRange

/-! # A memory that remembers where it was written

A byte memory with the set of addresses that stores have reached. Nothing reads this set: it is a
ghost of the proofs, which tells a store of the byte that was there from no store at all.

* Stores of bytes and words are special cases of filling a range (`setByte_eq_fill`,
  `store_eq_fill`), and adjacent ranges are filled like one (`fill_append`, `foldl_fill`).
* `Within P m m'` says that nothing outside `P` was written between `m` and `m'`; it composes along
  sequences and loops. -/

namespace OS44.LittleEndian

open ByteRange

/-- A byte memory and the addresses written so far. -/
structure Ram (w : ℕ) where
  bytes : Bytes w
  written : BitVec w → Bool

namespace Ram

variable {w : ℕ}

/-- Write the bytes `f 0 … f (n - 1)` at `a`. -/
def fill (m : Ram w) (a : BitVec w) (n : ℕ) (f : ℕ → BitVec 8) : Ram w where
  bytes := setRange m.bytes a n f
  written := fun b => decide ((b - a).toNat < n) || m.written b

/-- Write a byte. -/
def setByte (m : Ram w) (a : BitVec w) (v : BitVec 8) : Ram w where
  bytes := Function.update m.bytes a v
  written := Function.update m.written a true

/-- Write the low `n` bytes of `x`, lowest first. -/
def store (m : Ram w) (a : BitVec w) (n x : ℕ) : Ram w where
  bytes := storeLE m.bytes a n x
  written := fun b => decide ((b - a).toNat < n) || m.written b

variable {m m' m'' : Ram w} {a b : BitVec w} {n k : ℕ} {f g : ℕ → BitVec 8}

/-! ## Filling a range -/

/-- Two memories are the same when their bytes and their written addresses are. -/
theorem ext_iff' : m = m' ↔ ∀ b, m.bytes b = m'.bytes b ∧ m.written b = m'.written b := by
  constructor
  · rintro rfl b
    exact ⟨rfl, rfl⟩
  · intro h
    cases m
    cases m'
    congr
    · funext b
      exact (h b).1
    · funext b
      exact (h b).2

/-- A store fills its range. -/
theorem store_eq_fill (m : Ram w) (a : BitVec w) (n x : ℕ) :
    m.store a n x = m.fill a n fun k => BitVec.ofNat 8 (x / 256 ^ k) := rfl

theorem bytes_fill_of_lt (h : (b - a).toNat < n) : (m.fill a n f).bytes b = f (b - a).toNat :=
  setRange_of_lt h

theorem bytes_fill_of_not_lt (h : ¬ (b - a).toNat < n) : (m.fill a n f).bytes b = m.bytes b :=
  setRange_of_not_lt h

theorem written_fill_of_lt (h : (b - a).toNat < n) : (m.fill a n f).written b = true := by
  simp only [fill, decide_eq_true h, Bool.true_or]

theorem written_fill_of_not_lt (h : ¬ (b - a).toNat < n) :
    (m.fill a n f).written b = m.written b := by
  simp only [fill, decide_eq_false h, Bool.false_or]

/-- A byte is a range of length one. -/
theorem setByte_eq_fill (m : Ram w) (a : BitVec w) (v : BitVec 8) :
    m.setByte a v = m.fill a 1 fun _ => v := by
  refine ext_iff'.mpr fun b => ⟨congrFun (setRange_one m.bytes a fun _ => v).symm b, ?_⟩
  by_cases h : b = a
  · subst h
    have h0 : (b - b).toNat < 1 := by rw [BitVec.sub_self, BitVec.toNat_zero]; exact Nat.one_pos
    rw [written_fill_of_lt h0]
    exact Function.update_self b true m.written
  · have hne : ¬ (b - a).toNat < 1 := by
      intro hlt
      have hsplit := add_ofNat_toNat_sub a b
      rw [Nat.lt_one_iff.mp hlt] at hsplit
      exact h (hsplit.symm.trans (BitVec.add_zero a))
    rw [written_fill_of_not_lt hne]
    exact Function.update_of_ne h true m.written

@[simp] theorem fill_zero (m : Ram w) (a : BitVec w) (f : ℕ → BitVec 8) : m.fill a 0 f = m :=
  ext_iff'.mpr fun _ => ⟨bytes_fill_of_not_lt (Nat.not_lt_zero _),
    written_fill_of_not_lt (Nat.not_lt_zero _)⟩

/-- Only the bytes of the range matter. -/
theorem fill_congr (h : ∀ k < n, f k = g k) : m.fill a n f = m.fill a n g := by
  refine ext_iff'.mpr fun b => ⟨?_, rfl⟩
  by_cases hb : (b - a).toNat < n
  · rw [bytes_fill_of_lt hb, bytes_fill_of_lt hb, h _ hb]
  · rw [bytes_fill_of_not_lt hb, bytes_fill_of_not_lt hb]

/-- **Adjacent ranges** are filled like one. -/
theorem fill_append (m : Ram w) (a : BitVec w) (f : ℕ → BitVec 8) (hnk : n + k ≤ 2 ^ w) :
    (m.fill a n f).fill (a + BitVec.ofNat w n) k (fun i => f (n + i)) = m.fill a (n + k) f := by
  refine ext_iff'.mpr fun b => ⟨congrFun (setRange_append m.bytes a f hnk) b, ?_⟩
  simp only [fill, decide_eq_decide.mpr toNat_sub_lt_add_iff, Bool.decide_or]
  rw [← Bool.or_assoc, Bool.or_comm (decide _) (decide _)]

/-- **A loop that fills** `k` adjacent ranges of `n` bytes. -/
theorem foldl_fill (m : Ram w) (a : BitVec w) (f : ℕ → BitVec 8) (hnk : n * k ≤ 2 ^ w) :
    (List.range k).foldl
      (fun m i => m.fill (a + BitVec.ofNat w (n * i)) n fun j => f (n * i + j)) m =
      m.fill a (n * k) f := by
  induction k with
  | zero => rw [List.range_zero, List.foldl_nil, Nat.mul_zero, fill_zero]
  | succ k ih =>
    rw [Nat.mul_succ] at hnk ⊢
    rw [List.range_succ, List.foldl_append, ih (by omega), List.foldl_cons, List.foldl_nil,
      fill_append m a f hnk]

/-! ## Where a program writes -/

/-- Outside `P` nothing was written from `m` to `m'`. -/
def Within (P : BitVec w → Prop) (m m' : Ram w) : Prop :=
  ∀ b, ¬ P b → m'.bytes b = m.bytes b ∧ m'.written b = m.written b

variable {P Q : BitVec w → Prop}

theorem Within.refl (P : BitVec w → Prop) (m : Ram w) : Within P m m := fun _ _ => ⟨rfl, rfl⟩

theorem Within.trans (h : Within P m m') (h' : Within P m' m'') : Within P m m'' := fun b hb =>
  ⟨(h' b hb).1.trans (h b hb).1, (h' b hb).2.trans (h b hb).2⟩

theorem Within.mono (h : Within P m m') (hPQ : ∀ b, P b → Q b) : Within Q m m' := fun b hb =>
  h b fun hP => hb (hPQ b hP)

/-- Filling a range writes nothing else. -/
theorem within_fill (f : ℕ → BitVec 8) (h : ∀ b, (b - a).toNat < n → P b) :
    Within P m (m.fill a n f) := by
  intro b hb
  have hlt : ¬ (b - a).toNat < n := fun hlt => hb (h b hlt)
  exact ⟨bytes_fill_of_not_lt hlt, written_fill_of_not_lt hlt⟩

/-- **A loop writes where its rounds do.** -/
theorem within_foldl {ι : Type*} {l : List ι} {step : Ram w → ι → Ram w}
    (h : ∀ i ∈ l, ∀ m, Within P m (step m i)) (m : Ram w) : Within P m (l.foldl step m) := by
  induction l generalizing m with
  | nil => exact .refl P m
  | cons i l ih =>
    have hfirst := h i List.mem_cons_self m
    exact hfirst.trans (ih (fun j hj => h j (List.mem_cons_of_mem i hj)) _)

end Ram

end OS44.LittleEndian
