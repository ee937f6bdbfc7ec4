import Mathlib.Data.Nat.Digits.Lemmas

/-! # Numerals

The numeral of a number in a base, with a glyph for every digit: the most significant digit first,
no zero in front, and a single zero for the number zero.

* A loop that divides by the base takes the digits from the right (`lowDigits`); read backwards they
  are the numeral (`reverse_lowDigits`).
* A loop that multiplies by the base reads the numeral from the left (`foldl_numeral`).
* `Nat.toDigits` gives the same numerals (`toDigits_eq_numeral`). -/

namespace OS44.Numerals

variable {α β : Type*}

/-- The numeral of `n` in base `b`. -/
def numeral (b : ℕ) (glyph : ℕ → α) (n : ℕ) : List α :=
  if n = 0 then [glyph 0] else ((Nat.digits b n).map glyph).reverse

/-- The digits of `n` from the right, at most `fuel` of them. -/
def lowDigits (b : ℕ) (glyph : ℕ → α) : ℕ → ℕ → List α
  | 0, _ => []
  | fuel + 1, n => if n = 0 then [] else glyph (n % b) :: lowDigits b glyph fuel (n / b)

variable {b n fuel k : ℕ} {glyph glyph' : ℕ → α}

@[simp] theorem numeral_zero (b : ℕ) (glyph : ℕ → α) : numeral b glyph 0 = [glyph 0] := if_pos rfl

theorem numeral_of_ne_zero (hn : n ≠ 0) :
    numeral b glyph n = ((Nat.digits b n).map glyph).reverse := if_neg hn

/-! ## Taking digits from the right -/

/-- The loop takes all digits, if it may take enough of them. -/
theorem lowDigits_eq (hb : 1 < b) (h : n < b ^ fuel) :
    lowDigits b glyph fuel n = (Nat.digits b n).map glyph := by
  induction fuel generalizing n with
  | zero =>
    obtain rfl : n = 0 := by rw [pow_zero] at h; omega
    rw [Nat.digits_zero]
    rfl
  | succ fuel ih =>
    rw [lowDigits]
    split_ifs with hn
    · rw [hn, Nat.digits_zero, List.map_nil]
    · have hdiv : n / b < b ^ fuel := Nat.div_lt_of_lt_mul (by rwa [← pow_succ'])
      rw [ih hdiv, Nat.digits_eq_cons_digits_div hb hn, List.map_cons]

/-- **Backwards, the digits from the right are the numeral.** -/
theorem reverse_lowDigits (hb : 1 < b) (hn : n ≠ 0) (h : n < b ^ fuel) :
    (lowDigits b glyph fuel n).reverse = numeral b glyph n := by
  rw [lowDigits_eq hb h, numeral_of_ne_zero hn]

/-! ## The shape of a numeral -/

theorem numeral_of_lt (h : n < b) : numeral b glyph n = [glyph n] := by
  by_cases hn : n = 0
  · rw [hn, numeral_zero]
  · rw [numeral_of_ne_zero hn, Nat.digits_of_lt b n hn h]
    rfl

/-- The last digit. -/
theorem numeral_of_le (hb : 1 < b) (h : b ≤ n) :
    numeral b glyph n = numeral b glyph (n / b) ++ [glyph (n % b)] := by
  have hn : n ≠ 0 := by omega
  have hdiv : n / b ≠ 0 := (Nat.div_pos h (by omega)).ne'
  rw [numeral_of_ne_zero hn, numeral_of_ne_zero hdiv, Nat.digits_eq_cons_digits_div hb hn,
    List.map_cons, List.reverse_cons]

theorem map_numeral (f : α → β) (n : ℕ) :
    (numeral b glyph n).map f = numeral b (fun d => f (glyph d)) n := by
  unfold numeral
  split_ifs
  · rfl
  · rw [List.map_reverse, List.map_map]
    rfl

/-- Only the glyphs of digits matter. -/
theorem numeral_congr (hb : 1 < b) (h : ∀ d < b, glyph d = glyph' d) (n : ℕ) :
    numeral b glyph n = numeral b glyph' n := by
  unfold numeral
  split_ifs
  · rw [h 0 (by omega)]
  · rw [List.map_congr_left fun d hd => h d (Nat.digits_lt_base hb hd)]

theorem mem_numeral (hb : 1 < b) {x : α} (h : x ∈ numeral b glyph n) : ∃ d < b, x = glyph d := by
  unfold numeral at h
  split_ifs at h
  · exact ⟨0, by omega, List.mem_singleton.mp h⟩
  · obtain ⟨d, hd, rfl⟩ := List.mem_map.mp (List.mem_reverse.mp h)
    exact ⟨d, Nat.digits_lt_base hb hd, rfl⟩

/-- A number below `b ^ k` has at most `k` digits. -/
theorem length_numeral_le_iff (hb : 1 < b) (hk : 0 < k) :
    (numeral b glyph n).length ≤ k ↔ n < b ^ k := by
  unfold numeral
  split_ifs with hn
  · subst hn
    exact iff_of_true hk (Nat.pow_pos (by omega))
  · rw [List.length_reverse, List.length_map, Nat.digits_length_le_iff hb]

/-- **No zero in front**, but for the number zero. -/
theorem eq_zero_of_head_numeral (hb : 1 < b) (hglyph : ∀ d < b, glyph d = glyph 0 → d = 0)
    (h : (numeral b glyph n).head? = some (glyph 0)) : n = 0 := by
  by_contra hn
  have hne : Nat.digits b n ≠ [] := Nat.digits_ne_nil_iff_ne_zero.mpr hn
  rw [numeral_of_ne_zero hn, List.head?_reverse, List.getLast?_map,
    List.getLast?_eq_some_getLast hne, Option.map_some] at h
  have hlt := Nat.digits_lt_base hb (List.getLast_mem hne)
  exact Nat.getLast_digit_ne_zero b hn (hglyph _ hlt (Option.some.inj h))

/-- The numerals of `Nat.toDigits`. -/
theorem toDigits_eq_numeral (hb : 1 < b) (n : ℕ) :
    Nat.toDigits b n = numeral b Nat.digitChar n := by
  induction n using Nat.strong_induction_on with
  | _ n ih =>
    rw [Nat.toDigits_eq_if hb]
    split_ifs with h
    · rw [numeral_of_lt h]
    · have hlt : n / b < n := Nat.div_lt_self (by omega) hb
      rw [ih _ hlt, ← numeral_of_le hb (Nat.le_of_not_lt h)]

/-! ## Reading a numeral from the left -/

/-- **The number is read back.** -/
theorem foldl_numeral (hb : 1 < b) {val : α → ℕ} (hval : ∀ d < b, val (glyph d) = d) (n : ℕ) :
    (numeral b glyph n).foldl (fun r x => r * b + val x) 0 = n := by
  induction n using Nat.strong_induction_on with
  | _ n ih =>
    by_cases h : n < b
    · rw [numeral_of_lt h, List.foldl_cons, List.foldl_nil, hval n h, Nat.zero_mul, Nat.zero_add]
    · have hlt : n / b < n := Nat.div_lt_self (by omega) hb
      rw [numeral_of_le hb (Nat.le_of_not_lt h), List.foldl_append, ih _ hlt, List.foldl_cons,
        List.foldl_nil, hval _ (Nat.mod_lt n (by omega)), Nat.mul_comm]
      exact Nat.div_add_mod n b

end OS44.Numerals
