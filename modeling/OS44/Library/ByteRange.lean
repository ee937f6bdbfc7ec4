import OS44.Library.LittleEndian

/-! # Ranges of bytes written at once

`setRange m a n f` is the memory after the bytes `f 0 … f (n - 1)` have been written from the
address `a` on; addresses wrap around. Loops that fill or copy memory byte by byte or word by word
are rewritten to it (`setRange_succ`, `setRange_append`), and a range stays inside a region exactly
when its end does (`range_subset_iff`). -/

namespace OS44.ByteRange

open LittleEndian

variable {w : ℕ}

/-- Write the bytes `f 0 … f (n - 1)` at `a`. -/
def setRange (m : Bytes w) (a : BitVec w) (n : ℕ) (f : ℕ → BitVec 8) : Bytes w :=
  fun b => if (b - a).toNat < n then f (b - a).toNat else m b

variable {m : Bytes w} {a b : BitVec w} {n k : ℕ} {f g : ℕ → BitVec 8}

theorem setRange_of_lt (h : (b - a).toNat < n) : setRange m a n f b = f (b - a).toNat := if_pos h

theorem setRange_of_not_lt (h : ¬ (b - a).toNat < n) : setRange m a n f b = m b := if_neg h

@[simp] theorem setRange_zero (m : Bytes w) (a : BitVec w) (f : ℕ → BitVec 8) :
    setRange m a 0 f = m := by
  funext b
  exact setRange_of_not_lt (Nat.not_lt_zero _)

/-- The offset of an address in a range. -/
theorem toNat_add_sub (hk : k < 2 ^ w) : (a + BitVec.ofNat w k - a).toNat = k := by
  rw [BitVec.add_comm, BitVec.add_sub_cancel, BitVec.toNat_ofNat, Nat.mod_eq_of_lt hk]

/-- An address is its offset in a range, added to where the range starts. -/
theorem add_ofNat_toNat_sub (a b : BitVec w) : a + BitVec.ofNat w (b - a).toNat = b := by
  rw [BitVec.ofNat_toNat, BitVec.setWidth_eq, BitVec.add_comm, BitVec.sub_add_cancel]

/-- Behind the first `n` addresses of a range the offset starts again. -/
theorem toNat_sub_add_of_le (h : n ≤ (b - a).toNat) :
    (b - (a + BitVec.ofNat w n)).toNat = (b - a).toNat - n := by
  have hlt := (b - a).isLt
  have hsplit : b = a + BitVec.ofNat w n + BitVec.ofNat w ((b - a).toNat - n) := by
    rw [BitVec.add_assoc, ← BitVec.ofNat_add, Nat.add_sub_cancel' h, add_ofNat_toNat_sub]
  conv_lhs => rw [hsplit, toNat_add_sub (by omega)]

/-- Before that it has wrapped around. -/
theorem not_toNat_sub_add_lt (h : (b - a).toNat < n) (hnk : n + k ≤ 2 ^ w) :
    ¬ (b - (a + BitVec.ofNat w n)).toNat < k := by
  intro hlt
  have hoff : (b - a).toNat = n + (b - (a + BitVec.ofNat w n)).toNat := by
    conv_lhs => rw [← add_ofNat_toNat_sub (a + BitVec.ofNat w n) b, BitVec.add_assoc,
      ← BitVec.ofNat_add, toNat_add_sub (Nat.lt_of_lt_of_le (Nat.add_lt_add_left hlt n) hnk)]
  omega

/-- An address is in a range when it is in the first part or in the rest. -/
theorem toNat_sub_lt_add_iff : (b - a).toNat < n + k ↔
    (b - a).toNat < n ∨ (b - (a + BitVec.ofNat w n)).toNat < k := by
  rcases lt_or_ge (b - a).toNat n with hlt | hge
  · exact iff_of_true (by omega) (.inl hlt)
  · rw [toNat_sub_add_of_le hge]
    omega

/-- A range is its first part and then the rest. -/
theorem setRange_append (m : Bytes w) (a : BitVec w) (f : ℕ → BitVec 8) (hnk : n + k ≤ 2 ^ w) :
    setRange (setRange m a n f) (a + BitVec.ofNat w n) k (fun i => f (n + i))
      = setRange m a (n + k) f := by
  funext b
  rcases lt_or_ge (b - a).toNat n with hlt | hge
  · rw [setRange_of_not_lt (not_toNat_sub_add_lt hlt hnk), setRange_of_lt hlt,
      setRange_of_lt (by omega)]
  · have hoff := toNat_sub_add_of_le hge
    by_cases hk : (b - a).toNat < n + k
    · rw [setRange_of_lt (by omega), setRange_of_lt hk, hoff, Nat.add_sub_cancel' hge]
    · rw [setRange_of_not_lt (by omega), setRange_of_not_lt (by omega), setRange_of_not_lt hk]

/-- One byte is a range. -/
theorem setRange_one (m : Bytes w) (a : BitVec w) (f : ℕ → BitVec 8) :
    setRange m a 1 f = Function.update m a (f 0) := by
  funext b
  by_cases h : b = a
  · subst h
    simp [setRange]
  · have : (b - a).toNat ≠ 0 := by
      rw [ne_eq, ← BitVec.toNat_zero (w := w), BitVec.toNat_inj]
      exact fun h0 => h (by rw [← BitVec.sub_add_cancel b a, h0, BitVec.zero_add])
    rw [Function.update_of_ne h, setRange_of_not_lt (by omega)]

/-- Writing the first byte and then the rest, as a loop does. -/
theorem setRange_succ (m : Bytes w) (a : BitVec w) (f : ℕ → BitVec 8) (hn : n + 1 ≤ 2 ^ w) :
    setRange (Function.update m a (f 0)) (a + 1) n (fun i => f (i + 1)) =
      setRange m a (n + 1) f := by
  rw [← setRange_one, Nat.add_comm n 1, ← setRange_append m a f (by omega)]
  simp only [Nat.add_comm _ 1]
  rfl

/-- A second write over the beginning of a range. -/
theorem setRange_setRange (hk : k ≤ n) :
    setRange (setRange m a n g) a k f = setRange m a n (fun i => if i < k then f i else g i) := by
  funext b
  simp only [setRange]
  by_cases hb : (b - a).toNat < k
  · rw [if_pos hb, if_pos (by omega), if_pos hb]
  · rw [if_neg hb, if_neg hb]

/-- **A range inside a region.** The `k` bytes from `a + off` on lie in the `n` bytes from `a` on
exactly when there are none or their end is no further. -/
theorem range_subset_iff (ha : a.toNat + n ≤ 2 ^ w) (hn : n < 2 ^ w) (off : BitVec w) :
    (∀ b : BitVec w, (b - (a + off)).toNat < k → a.toNat ≤ b.toNat ∧ b.toNat < a.toNat + n) ↔
      k = 0 ∨ off.toNat + k ≤ n := by
  constructor
  · intro h
    by_contra! hout
    -- the first byte of the range at or behind the end of the region
    obtain ⟨d, hd, hoff, hlt, hnd⟩ : ∃ d, d < 2 ^ w ∧ off.toNat ≤ d ∧
      d - off.toNat < k ∧ n ≤ d := by
      rcases le_total n off.toNat with hle | hle
      · exact ⟨off.toNat, off.isLt, le_rfl, by omega, hle⟩
      · exact ⟨n, hn, hle, by omega, le_rfl⟩
    have hsplit : a + BitVec.ofNat w d = a + off + BitVec.ofNat w (d - off.toNat) := by
      conv_lhs => rw [← Nat.add_sub_cancel' hoff, BitVec.ofNat_add, BitVec.ofNat_toNat,
        BitVec.setWidth_eq, ← BitVec.add_assoc]
    have hin := h (a + BitVec.ofNat w d) (by rw [hsplit, toNat_add_sub (by omega)]; exact hlt)
    rw [BitVec.toNat_add, BitVec.toNat_ofNat, Nat.mod_eq_of_lt hd] at hin
    rcases lt_or_ge (a.toNat + d) (2 ^ w) with hlt | hge
    · rw [Nat.mod_eq_of_lt hlt] at hin
      omega
    · rw [Nat.mod_eq_sub_mod hge, Nat.mod_eq_of_lt (by have := a.isLt; omega)] at hin
      omega
  · rintro (rfl | hend) b hb
    · exact absurd hb (Nat.not_lt_zero _)
    · have hsplit : b = a + off + BitVec.ofNat w (b - (a + off)).toNat :=
        (add_ofNat_toNat_sub (a + off) b).symm
      have hnat : b.toNat = a.toNat + off.toNat + (b - (a + off)).toNat := by
        conv_lhs => rw [hsplit]
        rw [BitVec.toNat_add, BitVec.toNat_add, BitVec.toNat_ofNat,
          Nat.mod_eq_of_lt (BitVec.isLt (b - (a + off))),
            Nat.mod_eq_of_lt (by omega : a.toNat + off.toNat < 2 ^ w),
          Nat.mod_eq_of_lt (by omega)]
      omega

end OS44.ByteRange
