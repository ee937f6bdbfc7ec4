import OS44.Library.Numerals
import OS44.Shell.Text

/-! # Numbers as text, there and back (`shell.c`)

The loops that take digits from the right write a number backwards into a temporary, and the text is
what is read from its end: the decimal digits of `itoa` and `append_dec` (`reverse_decDigits`), the
hexadecimal ones of `append_hex` (`reverse_hexDigits`). `itoaInto` is `itoa` with its temporary and
the buffer of its caller. Nothing bounds the loop that fills the temporary but the number, and that
is enough (`itoaInto_eq`, `overran_itoaInto`). `atoi` reads a decimal number back
(`atoi_decimal`). -/

namespace OS44

open Numerals

/-! ## Decimal and hexadecimal numbers -/

/-- The decimal digits of a number. -/
def decimal (n : ℕ) : List U8 := chars n.repr

/-- The hexadecimal digits of a number, in upper case. -/
def hexadecimal (n : ℕ) : List U8 := chars (.ofList ((Nat.toDigits 16 n).map Char.toUpper))

/-- A decimal digit. -/
def decGlyph (d : ℕ) : U8 := BitVec.ofNat 8 (48 + d)

/-- A hexadecimal digit. -/
def hexGlyph (d : ℕ) : U8 := (chars "0123456789ABCDEF").getD d 0

theorem chars_ofList (cs : List Char) :
    chars (.ofList cs) = cs.map fun c => BitVec.ofNat 8 c.toNat := by
  rw [chars, String.toList_ofList]

theorem decimal_eq_numeral (n : ℕ) : decimal n = numeral 10 decGlyph n := by
  rw [decimal, Nat.repr_eq_ofList_toDigits, chars_ofList, toDigits_eq_numeral (by omega),
    map_numeral]
  exact numeral_congr (by omega) (by decide) n

theorem hexadecimal_eq_numeral (n : ℕ) : hexadecimal n = numeral 16 hexGlyph n := by
  rw [hexadecimal, chars_ofList, toDigits_eq_numeral (by omega), map_numeral, map_numeral]
  exact numeral_congr (by omega) (by decide) n

/-- A 64-bit number has at most 20 decimal digits. -/
theorem length_decimal_le (val : U64) : (decimal val.toNat).length ≤ 20 := by
  rw [decimal_eq_numeral, length_numeral_le_iff (by omega) (by omega)]
  have hlt := val.isLt
  omega

theorem decGlyph_digit : ∀ d < 10, 48 ≤ decGlyph d ∧ decGlyph d ≤ 57 := by decide

theorem digit_of_mem_decimal {n : ℕ} {c : U8} (h : c ∈ decimal n) : 48 ≤ c ∧ c ≤ 57 := by
  rw [decimal_eq_numeral] at h
  obtain ⟨d, hd, rfl⟩ := mem_numeral (by omega) h
  exact decGlyph_digit d hd

/-- There is no zero in front. -/
theorem eq_zero_of_head_decimal {n : ℕ} (h : (decimal n).head? = some 48) : n = 0 := by
  rw [decimal_eq_numeral] at h
  exact eq_zero_of_head_numeral (by omega) (by decide) h

theorem decimal_zero : decimal 0 = [48] := by rw [decimal_eq_numeral, numeral_zero]; rfl

theorem hexadecimal_zero : hexadecimal 0 = [48] := by rw [hexadecimal_eq_numeral, numeral_zero]; rfl

/-! ## The loops that take digits -/

theorem toNat_div_ten (val : U64) : (val / 10).toNat = val.toNat / 10 := BitVec.toNat_udiv

/-- The digits are those of the number. -/
theorem decDigits_eq (fuel : ℕ) (val : U64) :
    decDigits fuel val = lowDigits 10 decGlyph fuel val.toNat := by
  induction fuel generalizing val with
  | zero => rfl
  | succ fuel ih =>
    have hzero : val = 0 ↔ val.toNat = 0 := by rw [← BitVec.toNat_inj]; rfl
    have hdigit : 48 + (val % 10).setWidth 8 = decGlyph (val.toNat % 10) := by
      refine BitVec.eq_of_toNat_eq ?_
      have hmod : (val % 10).toNat = val.toNat % 10 := BitVec.toNat_umod
      rw [BitVec.toNat_add, BitVec.toNat_setWidth, hmod, decGlyph, BitVec.toNat_ofNat]
      simp
    rw [decDigits, lowDigits, ih, toNat_div_ten, hdigit]
    exact if_congr hzero rfl rfl

theorem hexDigits_eq (fuel : ℕ) (value : U64) :
    hexDigits fuel value = lowDigits 16 hexGlyph fuel value.toNat := by
  induction fuel generalizing value with
  | zero => rfl
  | succ fuel ih =>
    have hzero : value = 0 ↔ value.toNat = 0 := by rw [← BitVec.toNat_inj]; rfl
    have hmod : (value &&& 0xF).toNat = value.toNat % 16 := by
      rw [BitVec.toNat_and]
      exact Nat.and_two_pow_sub_one_eq_mod value.toNat 4
    have hdiv : (value >>> 4).toNat = value.toNat / 16 := by
      rw [BitVec.toNat_ushiftRight, Nat.shiftRight_eq_div_pow]
    rw [hexDigits, lowDigits, ih, hdiv, hmod]
    exact if_congr hzero rfl rfl

/-- **The decimal digits, backwards**, for every temporary that a 64-bit number fits into. -/
theorem reverse_decDigits {fuel : ℕ} (hfuel : 20 ≤ fuel) {val : U64} (hval : val ≠ 0) :
    (decDigits fuel val).reverse = decimal val.toNat := by
  have hne : val.toNat ≠ 0 := fun h => hval (BitVec.eq_of_toNat_eq h)
  have hlt : val.toNat < 10 ^ fuel :=
    val.isLt.trans (Nat.lt_of_lt_of_le (by decide) (Nat.pow_le_pow_right (by decide) hfuel))
  rw [decDigits_eq, reverse_lowDigits (by omega) hne hlt, decimal_eq_numeral]

/-- **The hexadecimal digits, backwards.** -/
theorem reverse_hexDigits {value : U64} (hvalue : value ≠ 0) :
    (hexDigits 16 value).reverse = hexadecimal value.toNat := by
  have hne : value.toNat ≠ 0 := fun h => hvalue (BitVec.eq_of_toNat_eq h)
  have hlt : value.toNat < 16 ^ 16 := value.isLt
  rw [hexDigits_eq, reverse_lowDigits (by omega) hne hlt, hexadecimal_eq_numeral]

/-! ## `itoa` -/

/-- `while (val > 0) { tmp[i++] = (val % 10) + '0'; val /= 10; }`. -/
def itoaFill (val : U64) (tmp : LocalBuf) (i : ℕ) : LocalBuf × ℕ :=
  if val = 0 then (tmp, i)
  else itoaFill (val / 10) (tmp.set i (48 + (val % 10).setWidth 8)) (i + 1)
termination_by val.toNat
decreasing_by
  rename_i h
  rw [toNat_div_ten]
  exact Nat.div_lt_self (Nat.pos_of_ne_zero fun h0 => h (BitVec.eq_of_toNat_eq h0)) (by decide)

/-- `while (i > 0) *p++ = tmp[--i];`. -/
def itoaDrain (tmp : LocalBuf) : ℕ → LocalBuf × ℕ → LocalBuf × ℕ
  | 0, p => p
  | i + 1, p => itoaDrain tmp i (p.1.set p.2 (tmp.bytes i), p.2 + 1)

/-- `itoa`: the buffer it writes to, and its temporary. -/
def itoaInto (garbage : ℕ → U8) (val : U64) (buf : LocalBuf) : LocalBuf × LocalBuf :=
  let tmp := LocalBuf.new 20 garbage
  if val = 0 then ((buf.set 0 48).set 1 0, tmp)
  else
    let (tmp, i) := itoaFill val tmp 0
    let (buf, p) := itoaDrain tmp i (buf, 0)
    (buf.set p 0, tmp)

theorem itoaFill_eq {fuel : ℕ} {val : U64} (h : val.toNat < 10 ^ fuel) (tmp : LocalBuf) (i : ℕ) :
    itoaFill val tmp i =
      (tmp.copyAll i (decDigits fuel val), i + (decDigits fuel val).length) := by
  induction fuel generalizing val tmp i with
  | zero =>
    have hval : val = 0 := BitVec.eq_of_toNat_eq (by simpa using h)
    rw [itoaFill, if_pos hval, decDigits, LocalBuf.copyAll_nil]
    rfl
  | succ fuel ih =>
    have hdiv : (val / 10).toNat < 10 ^ fuel := by
      rw [toNat_div_ten]
      exact Nat.div_lt_of_lt_mul (by rwa [← pow_succ'])
    rw [itoaFill, decDigits]
    split_ifs with hval
    · rw [LocalBuf.copyAll_nil]
      rfl
    · rw [ih hdiv, LocalBuf.copyAll_cons, List.length_cons, Nat.add_assoc, Nat.add_comm 1]

/-- The temporary is read from its end. -/
theorem itoaDrain_eq (tmp : LocalBuf) (i : ℕ) (p : LocalBuf × ℕ) :
    itoaDrain tmp i p = (p.1.copyAll p.2 ((List.range i).map tmp.bytes).reverse, p.2 + i) := by
  induction i generalizing p with
  | zero => exact Prod.ext LocalBuf.copyAll_nil.symm rfl
  | succ i ih =>
    rw [itoaDrain, ih, List.range_succ, List.map_append, List.reverse_append, List.map_singleton,
      List.reverse_singleton, List.singleton_append, ← LocalBuf.copyAll_cons, Nat.add_assoc,
      Nat.add_comm 1]

/-- The bytes that `itoa` writes are the decimal digits and a NUL. -/
theorem itoa_eq (val : U64) : itoa val = decimal val.toNat ++ [0] := by
  unfold itoa
  split_ifs with hval
  · rw [hval]
    exact congrArg (· ++ [0]) decimal_zero.symm
  · rw [reverse_decDigits le_rfl hval]

/-- **`itoa` writes the decimal digits and a NUL**, and its temporary holds the digits. -/
theorem itoaInto_eq (garbage : ℕ → U8) (val : U64) (buf : LocalBuf) :
    itoaInto garbage val buf = (buf.copyAll 0 (itoa val),
      (LocalBuf.new 20 garbage).copyAll 0 (decDigits 20 val)) := by
  unfold itoaInto itoa
  dsimp only
  split_ifs with hval
  · rw [hval, ← LocalBuf.copyAll_cons, ← LocalBuf.set_eq_copyAll, decDigits, if_pos rfl,
      LocalBuf.copyAll_nil]
  · have hlt : val.toNat < 10 ^ 20 := val.isLt.trans (by decide)
    rw [itoaFill_eq hlt, itoaDrain_eq]
    generalize decDigits 20 val = digits
    -- what is read back is what was filled in
    have hback : (List.range (0 + digits.length)).map
        ((LocalBuf.new 20 garbage).copyAll 0 digits).bytes = digits := by
      refine List.ext_getElem (by simp) fun i hi hi' => ?_
      rw [List.getElem_map, List.getElem_range, LocalBuf.bytes_copyAll (Nat.zero_le i) (by omega),
        Nat.sub_zero, List.getD_eq_getElem _ _ hi']
    rw [hback, LocalBuf.set_eq_copyAll, ← List.length_reverse, ← Nat.add_assoc, Nat.add_zero,
      LocalBuf.copyAll_copyAll]

/-- The temporary of `itoa` is not overrun. -/
theorem overran_itoaInto (garbage : ℕ → U8) (val : U64) (buf : LocalBuf) :
    (itoaInto garbage val buf).2.overran = false := by
  have hlength : (decDigits 20 val).length ≤ 20 :=
    length_decDigits_le (val.isLt.trans (by decide))
  rw [itoaInto_eq, LocalBuf.overran_copyAll, Bool.or_eq_false_iff, decide_eq_false_iff_not]
  refine ⟨rfl, fun h => ?_⟩
  have hsize : (LocalBuf.new 20 garbage).size = 20 := rfl
  omega

/-! ## `atoi` -/

/-- Digits are read from the left; the number wraps around at 64 bits. -/
theorem atoiFrom_digits {digits : List U8} (h : ∀ c ∈ digits, 48 ≤ c ∧ c ≤ 57) (r : ℕ)
    (rest : List U8) :
    atoiFrom (BitVec.ofNat 64 r) (digits ++ rest) = atoiFrom
      (BitVec.ofNat 64 (digits.foldl (fun r c => r * 10 + (c.toNat - 48)) r)) rest := by
  induction digits generalizing r with
  | nil => rfl
  | cons c digits ih =>
    have hc := h c List.mem_cons_self
    have hle : 48 ≤ c.toNat := BitVec.le_def.mp hc.1
    have hdigit : (c - 48).setWidth 64 = BitVec.ofNat 64 (c.toNat - 48) := by
      refine BitVec.eq_of_toNat_eq ?_
      rw [BitVec.toNat_setWidth, BitVec.toNat_sub_of_le hc.1, BitVec.toNat_ofNat]
      rfl
    have hnext : BitVec.ofNat 64 r * 10 + (c - 48).setWidth 64 =
        BitVec.ofNat 64 (r * 10 + (c.toNat - 48)) := by
      rw [hdigit, BitVec.ofNat_add, BitVec.ofNat_mul]
      rfl
    rw [List.cons_append, atoiFrom, if_pos hc, hnext,
      ih fun d hd => h d (List.mem_cons_of_mem c hd), List.foldl_cons]

/-- **`atoi` reads a decimal number back**, up to whatever is behind it. -/
theorem atoi_decimal (val : U64) {c : U8} (hc : ¬ (48 ≤ c ∧ c ≤ 57)) (rest : List U8) :
    atoi (decimal val.toNat ++ c :: rest) = some val := by
  have hvalue : (decimal val.toNat).foldl (fun r c => r * 10 + (c.toNat - 48)) 0 = val.toNat := by
    rw [decimal_eq_numeral]
    exact foldl_numeral (by omega) (by decide) _
  have hdigits : ∀ x ∈ decimal val.toNat, 48 ≤ x ∧ x ≤ 57 := fun _ => digit_of_mem_decimal
  have hread := atoiFrom_digits hdigits 0 (c :: rest)
  rw [hvalue, BitVec.ofNat_toNat, BitVec.setWidth_eq, atoiFrom, if_neg hc] at hread
  exact hread

end OS44
