import Mathlib.Tactic.IntervalCases
import OS44.BootInfo
import OS44.Library.Ram

/-! # `memcpy` and `memset` (`string.c`)

Both functions work byte by byte, unless their pointers are aligned to 16 bytes: then they move
64-bit words in loops unrolled by 8, 4, 2 and 1, and the bytes behind the last word one by one.
Either way the effect is that of the byte loop, also when the ranges overlap (`memcpy_eq_bytePath`,
`memset_eq_fill`). -/

namespace OS44

open LittleEndian ByteRange

/-! ## The loops -/

section Loops

variable {σ : Type*} {step words n fuel : ℕ} {word byte : ℕ → σ → σ} {m m₀ : σ} {p : ℕ × σ}

/-- `for (; i + step <= words; i += step)` with a body that does the words `i … i + step - 1`. The
last number bounds the rounds; the state is `i` and what the loop works on. -/
def unrolled (step words : ℕ) (word : ℕ → σ → σ) : ℕ → ℕ × σ → ℕ × σ
  | 0, p => p
  | fuel + 1, p =>
    if p.1 + step ≤ words then
      unrolled step words word fuel
        (p.1 + step, (List.range step).foldl (fun m j => word (p.1 + j) m) p.2)
    else p

/-- The path of aligned pointers: the words of `n` bytes, then the bytes behind them. -/
def wordPath (n : ℕ) (word byte : ℕ → σ → σ) (m : σ) : σ :=
  let words := n / 8
  let p := unrolled 1 words word words (unrolled 2 words word words
    (unrolled 4 words word words (unrolled 8 words word words (0, m))))
  (List.range' (p.1 * 8) (n - p.1 * 8)).foldl (fun m k => byte k m) p.2

/-- The path of all other pointers: `for (i = 0; i < n; i++)`. -/
def bytePath (n : ℕ) (byte : ℕ → σ → σ) (m : σ) : σ := (List.range n).foldl (fun m k => byte k m) m

/-- The words below `i` are done. -/
def DoneTo (word : ℕ → σ → σ) (m₀ : σ) (p : ℕ × σ) : Prop := p.2 = bytePath p.1 word m₀

/-- **An unrolled loop** does whole steps, and stops less than a step before the end. -/
theorem unrolled_spec (hstep : 0 < step) (hfuel : words ≤ p.1 + fuel) (hp : p.1 ≤ words)
    (hdone : DoneTo word m₀ p) :
    (unrolled step words word fuel p).1 ≤ words ∧
      words < (unrolled step words word fuel p).1 + step ∧
      DoneTo word m₀ (unrolled step words word fuel p) := by
  induction fuel generalizing p with
  | zero => exact ⟨hp, Nat.lt_of_le_of_lt hfuel (Nat.lt_add_of_pos_right hstep), hdone⟩
  | succ fuel ih =>
    rw [unrolled]
    split_ifs with hround
    · refine ih (by dsimp only; omega) hround ?_
      rw [DoneTo, bytePath] at hdone ⊢
      rw [List.range_add, List.foldl_append, List.foldl_map, ← hdone]
    · exact ⟨hp, by omega, hdone⟩

/-- Bytes in eights. -/
theorem bytePath_mul_eight (k : ℕ) (m : σ) :
    bytePath k (fun i m => (List.range' (8 * i) 8).foldl (fun m k => byte k m) m) m =
      bytePath (8 * k) byte m := by
  induction k with
  | zero => rfl
  | succ k ih =>
    rw [bytePath, List.range_succ, List.foldl_append, List.foldl_cons, List.foldl_nil]
    rw [bytePath, bytePath] at ih
    rw [ih, bytePath, Nat.mul_succ, List.range_eq_range', List.range_eq_range',
      ← List.range'_append_1, List.foldl_append, Nat.zero_add]

/-- **The loops tile the range**: where a word is eight bytes, the two paths agree. -/
theorem wordPath_eq_bytePath
    (hword : ∀ i m, word i m = (List.range' (8 * i) 8).foldl (fun m k => byte k m) m)
      (n : ℕ) (m : σ) :
    wordPath n word byte m = bytePath n byte m := by
  set words := n / 8 with hwords
  -- each loop of the cascade hands on less than one of its steps
  have hcascade : ∀ step p, 0 < step → p.1 ≤ words → DoneTo word m p →
      (unrolled step words word words p).1 ≤ words ∧
        words < (unrolled step words word words p).1 + step ∧
        DoneTo word m (unrolled step words word words p) := fun step p hstep hp hdone =>
    unrolled_spec hstep (Nat.le_add_left _ _) hp hdone
  obtain ⟨h₈, -, d₈⟩ := hcascade 8 (0, m) (by decide) (Nat.zero_le _) rfl
  obtain ⟨h₄, -, d₄⟩ := hcascade 4 _ (by decide) h₈ d₈
  obtain ⟨h₂, -, d₂⟩ := hcascade 2 _ (by decide) h₄ d₄
  obtain ⟨h₁, hlast, d₁⟩ := hcascade 1 _ (by decide) h₂ d₂
  -- the last loop goes up by one, so it ends behind the last word
  have hend := le_antisymm h₁ (Nat.lt_succ_iff.mp hlast)
  rw [DoneTo, hend] at d₁
  -- the bytes behind the last word are copied one by one on both sides
  have htail : n = 8 * words + (n - words * 8) := by omega
  unfold wordPath
  dsimp only
  rw [← hwords, hend, d₁, funext₂ hword, bytePath_mul_eight, bytePath, bytePath]
  conv_rhs => rw [htail, List.range_eq_range', ← List.range'_append_1, List.foldl_append]
  rw [List.range_eq_range', Nat.zero_add, Nat.mul_comm words 8]

end Loops

/-! ## The functions -/

/-- `d[k] = s[k]`. -/
def copyByte (dest src : U64) (k : ℕ) (m : Ram 64) : Ram 64 :=
  m.setByte (dest + BitVec.ofNat 64 k) (m.bytes (src + BitVec.ofNat 64 k))

/-- `d64[i] = s64[i]`. -/
def copyWord (dest src : U64) (i : ℕ) (m : Ram 64) : Ram 64 :=
  m.store (dest + BitVec.ofNat 64 (8 * i)) 8 (loadLE m.bytes (src + BitVec.ofNat 64 (8 * i)) 8)

/-- `memcpy`. -/
def memcpy (dest src n : U64) (m : Ram 64) : Ram 64 :=
  if n = 0 ∨ src = dest then m
  else if dest.toNat % 16 = 0 ∧ src.toNat % 16 = 0 ∧ 16 ≤ n.toNat then
    wordPath n.toNat (copyWord dest src) (copyByte dest src) m
  else bytePath n.toNat (copyByte dest src) m

/-- `p[k] = b`. -/
def setByteAt (s : U64) (b : U8) (k : ℕ) (m : Ram 64) : Ram 64 :=
    m.setByte (s + BitVec.ofNat 64 k) b

/-- `p64[i] = pattern`. -/
def setWordAt (s pattern : U64) (i : ℕ) (m : Ram 64) : Ram 64 :=
  m.store (s + BitVec.ofNat 64 (8 * i)) 8 pattern.toNat

/-- `pattern`: a byte in all eight places of a word. -/
def bytePattern (b : U8) : U64 :=
  let b : U64 := b.setWidth 64
  b ||| b <<< 8 ||| b <<< 16 ||| b <<< 24 ||| b <<< 32 ||| b <<< 40 ||| b <<< 48 ||| b <<< 56

/-- `memset`. The byte is the low byte of the `int`. -/
def memset (s : U64) (c : U32) (n : U64) (m : Ram 64) : Ram 64 :=
  let b : U8 := c.setWidth 8
  if n = 0 then m
  else if s.toNat % 16 = 0 ∧ 16 ≤ n.toNat then
    wordPath n.toNat (setWordAt s (bytePattern b)) (setByteAt s b) m
  else bytePath n.toNat (setByteAt s b) m

/-! ## Copying -/

variable {dest src n : U64} {m : Ram 64}

/-- **Copying forward** fills the destination with the source, unless a byte of the source was
overwritten before it is read. -/
theorem foldl_copyByte (k : ℕ) {j : ℕ} (hj : j ≤ 2 ^ 64)
    (hapart : ∀ t < j, ∀ u < t,
      src + BitVec.ofNat 64 (k + t) ≠ dest + BitVec.ofNat 64 k + BitVec.ofNat 64 u) :
    (List.range' k j).foldl (fun m k => copyByte dest src k m) m =
      m.fill (dest + BitVec.ofNat 64 k) j fun t => m.bytes (src + BitVec.ofNat 64 (k + t)) := by
  induction j with
  | zero => exact (Ram.fill_zero _ _ _).symm
  | succ j ih =>
    rw [← List.range'_append_1, List.foldl_append, ih (by omega) fun t ht => hapart t (by omega)]
    -- the byte read next has not been written by the bytes before it
    have hsource : (m.fill (dest + BitVec.ofNat 64 k) j
        fun t => m.bytes (src + BitVec.ofNat 64 (k + t))).bytes (src + BitVec.ofNat 64 (k + j)) =
        m.bytes (src + BitVec.ofNat 64 (k + j)) := by
      apply Ram.bytes_fill_of_not_lt
      intro hlt
      exact hapart j (by omega) _ hlt (add_ofNat_toNat_sub _ _).symm
    have haddr : dest + BitVec.ofNat 64 (k + j) = dest + BitVec.ofNat 64 k + BitVec.ofNat 64 j := by
      rw [BitVec.ofNat_add, BitVec.add_assoc]
    rw [List.range'_one, List.foldl_cons, List.foldl_nil, copyByte, hsource,
      Ram.setByte_eq_fill, haddr]
    rw [← Ram.fill_append m (dest + BitVec.ofNat 64 k) _ hj]
    exact Ram.fill_congr fun i hi => by rw [Nat.lt_one_iff.mp hi, Nat.add_zero]

/-- **A word is eight bytes**: with both pointers aligned, no byte of a word is overwritten before
it is read. -/
theorem copyWord_eq (hd : dest.toNat % 16 = 0) (hs : src.toNat % 16 = 0) (i : ℕ) (m : Ram 64) :
    copyWord dest src i m = (List.range' (8 * i) 8).foldl (fun m k => copyByte dest src k m) m := by
  rw [foldl_copyByte (8 * i) (by decide), copyWord, Ram.store_eq_fill]
  · apply Ram.fill_congr
    intro k hk
    rw [byte_loadLE _ _ hk, BitVec.ofNat_add, BitVec.add_assoc]
  · intro t ht u hu heq
    have hnat := congrArg BitVec.toNat heq
    simp only [BitVec.toNat_add, BitVec.toNat_ofNat] at hnat
    omega

/-- **`memcpy` is the byte loop**, for every two pointers and length. -/
theorem memcpy_eq_bytePath (hne : src ≠ dest) (m : Ram 64) :
    memcpy dest src n m = bytePath n.toNat (copyByte dest src) m := by
  unfold memcpy
  split_ifs with hskip haligned
  · obtain rfl := hskip.resolve_right hne
    rfl
  · exact wordPath_eq_bytePath (copyWord_eq haligned.1 haligned.2.1) n.toNat m
  · rfl

/-- `memcpy` between ranges that do not meet. -/
theorem memcpy_eq_fill (hapart : ∀ t < n.toNat, ∀ u < n.toNat,
    src + BitVec.ofNat 64 t ≠ dest + BitVec.ofNat 64 u) (m : Ram 64) :
    memcpy dest src n m = m.fill dest n.toNat fun t => m.bytes (src + BitVec.ofNat 64 t) := by
  by_cases h0 : n = 0
  · subst h0
    exact (Ram.fill_zero _ _ _).symm
  · have hpos : 0 < n.toNat := Nat.pos_of_ne_zero fun h => h0 (BitVec.eq_of_toNat_eq h)
    have hne : src ≠ dest := by
      intro heq
      exact hapart 0 hpos 0 hpos (by rw [heq])
    rw [memcpy_eq_bytePath hne, bytePath, List.range_eq_range', foldl_copyByte 0 n.isLt.le,
      BitVec.add_zero]
    · simp only [Nat.zero_add]
    · intro t ht u hu
      rw [Nat.zero_add, BitVec.add_zero]
      exact hapart t ht u (by omega)

/-- The plain loop: byte `i` goes from `src` to `dest`, for `i` from 0 to `n - 1`. -/
def copyAscending (dest src : U64) : ℕ → Bytes 64 → Bytes 64
  | 0, f => f
  | n + 1, f =>
    let g := copyAscending dest src n f
    Function.update g (dest + BitVec.ofNat 64 n) (g (src + BitVec.ofNat 64 n))

/-- Copying a range to itself changes nothing. -/
theorem copyAscending_self (src : U64) (k : ℕ) (f : Bytes 64) : copyAscending src src k f = f := by
  induction k with
  | zero => rfl
  | succ k ih =>
    simp only [copyAscending, ih]
    exact Function.update_eq_self _ f

/-- The byte path of `memcpy` is the plain loop. -/
theorem bytes_bytePath (k : ℕ) (m : Ram 64) :
    (bytePath k (copyByte dest src) m).bytes = copyAscending dest src k m.bytes := by
  induction k with
  | zero => rfl
  | succ k ih =>
    rw [bytePath, List.range_succ, List.foldl_append, List.foldl_cons, List.foldl_nil, ← bytePath,
      copyAscending, ← ih]
    rfl

/-- **`memcpy` copies byte after byte**: for every two pointers, however the ranges overlap, it
leaves memory as the plain loop does. -/
theorem memcpy_is_byte_loop (dest src n : U64) (m : Ram 64) :
    (memcpy dest src n m).bytes = copyAscending dest src n.toNat m.bytes := by
  by_cases hne : src = dest
  · subst hne
    rw [copyAscending_self, memcpy, if_pos (.inr rfl)]
  · rw [memcpy_eq_bytePath hne, bytes_bytePath]

/-! ## Setting -/

/-- The bits of a byte shifted to place `j`. -/
theorem getLsbD_shifted (b : U8) (j : ℕ) {i k : ℕ} (hi : i < 8) (hk : k < 8) :
    ((b.setWidth 64 : U64) <<< (8 * j)).getLsbD (8 * k + i) = (decide (j = k) && b.getLsbD i) := by
  rw [BitVec.getLsbD_shiftLeft, BitVec.getLsbD_setWidth, decide_eq_true (by omega : 8 * k + i < 64),
    decide_eq_true (by omega : 8 * k + i - 8 * j < 64), Bool.true_and, Bool.true_and]
  rcases lt_trichotomy j k with hlt | rfl | hgt
  · rw [BitVec.getLsbD_of_ge b _ (by omega), decide_eq_false hlt.ne, Bool.and_false, Bool.false_and]
  · rw [decide_eq_false (by omega : ¬ 8 * j + i < 8 * j), decide_eq_true rfl,
      Nat.add_sub_cancel_left]
    rfl
  · rw [decide_eq_true (by omega : 8 * k + i < 8 * j), decide_eq_false hgt.ne', Bool.false_and]
    rfl

/-- The bytes of the pattern. -/
theorem byte_bytePattern (b : U8) {k : ℕ} (hk : k < 8) :
    BitVec.ofNat 8 ((bytePattern b).toNat / 256 ^ k) = b := by
  have hextract : BitVec.ofNat 8 ((bytePattern b).toNat / 256 ^ k) =
      (bytePattern b).extractLsb' (8 * k) 8 := by
    rw [BitVec.extractLsb', Nat.shiftRight_eq_div_pow, pow_mul]
    rfl
  rw [hextract]
  -- bit `i` of byte `k` comes from the one shift that puts the byte there
  apply BitVec.eq_of_getLsbD_eq
  intro i hi
  have hbit : ∀ j, ((b.setWidth 64 : U64) <<< (8 * j)).getLsbD (8 * k + i) =
      (decide (j = k) && b.getLsbD i) := fun j => getLsbD_shifted b j hi hk
  have hpattern : (bytePattern b).getLsbD (8 * k + i) =
      ((decide (0 = k) && b.getLsbD i) || (decide (1 = k) && b.getLsbD i) ||
        (decide (2 = k) && b.getLsbD i) || (decide (3 = k) && b.getLsbD i) ||
        (decide (4 = k) && b.getLsbD i) || (decide (5 = k) && b.getLsbD i) ||
        (decide (6 = k) && b.getLsbD i) || (decide (7 = k) && b.getLsbD i)) := by
    simp only [← hbit, bytePattern, BitVec.getLsbD_or, Nat.mul_zero, BitVec.shiftLeft_zero]
  rw [BitVec.getLsbD_extractLsb', decide_eq_true hi, Bool.true_and, hpattern]
  interval_cases k <;> simp

/-- **`memset` fills the range with the low byte**, on either path. -/
theorem memset_eq_fill (s : U64) (c : U32) (n : U64) (m : Ram 64) :
    memset s c n m = m.fill s n.toNat fun _ => c.setWidth 8 := by
  -- a run of the byte loop is one fill
  have hbytes : ∀ (k j : ℕ) (m : Ram 64), j ≤ 2 ^ 64 →
      (List.range' k j).foldl (fun m k => setByteAt s (c.setWidth 8) k m) m =
        m.fill (s + BitVec.ofNat 64 k) j fun _ => c.setWidth 8 := by
    intro k j m hj
    have hloop := Ram.foldl_fill m (s + BitVec.ofNat 64 k) (fun _ => c.setWidth 8) (n := 1) (k := j)
      (by omega)
    rw [Nat.one_mul] at hloop
    rw [← hloop, List.range'_eq_map_range, List.foldl_map]
    refine congrArg (fun step => (List.range j).foldl step m) (funext₂ fun m i => ?_)
    rw [setByteAt, Ram.setByte_eq_fill, Nat.one_mul, BitVec.ofNat_add, BitVec.add_assoc]
  -- and so is one word of eight such bytes
  have hword : ∀ i m, setWordAt s (bytePattern (c.setWidth 8)) i m =
      (List.range' (8 * i) 8).foldl (fun m k => setByteAt s (c.setWidth 8) k m) m := by
    intro i m
    rw [hbytes (8 * i) 8 m (by decide), setWordAt, Ram.store_eq_fill]
    exact Ram.fill_congr fun k hk => byte_bytePattern _ hk
  have hpath : bytePath n.toNat (setByteAt s (c.setWidth 8)) m =
      m.fill s n.toNat fun _ => c.setWidth 8 := by
    rw [bytePath, List.range_eq_range', hbytes 0 _ m n.isLt.le, BitVec.add_zero]
  unfold memset
  dsimp only
  split_ifs with h0 haligned
  · subst h0
    exact (Ram.fill_zero _ _ _).symm
  · rw [wordPath_eq_bytePath hword, hpath]
  · exact hpath

/-- The byte that `memset` makes of its `int`. -/
theorem toNat_setWidth_eight (c : U32) : ((c.setWidth 8 : U8).toNat : ℤ) = c.toInt % 256 := by
  have hlt := c.isLt
  rw [BitVec.toNat_setWidth, BitVec.toInt_eq_toNat_cond]
  split <;> omega

/-- **`memset` sets the bytes of its range** to the `int` modulo 256, whatever its sign, and no
other byte; the range does not wrap around. -/
theorem memset_sets_bytes (s : U64) (c : U32) (n : U64) (hwrap : s.toNat + n.toNat ≤ 2 ^ 64)
    (m : Ram 64) (a : U64) :
    (s.toNat ≤ a.toNat ∧ a.toNat < s.toNat + n.toNat →
      (((memset s c n m).bytes a).toNat : ℤ) = c.toInt % 256) ∧
    (¬ (s.toNat ≤ a.toNat ∧ a.toNat < s.toNat + n.toNat) →
      (memset s c n m).bytes a = m.bytes a) := by
  have hlt := a.isLt
  have hrange : (a - s).toNat < n.toNat ↔ s.toNat ≤ a.toNat ∧ a.toNat < s.toNat + n.toNat := by
    rw [BitVec.toNat_sub]
    omega
  rw [memset_eq_fill]
  constructor
  · intro hin
    rw [Ram.bytes_fill_of_lt (hrange.mpr hin)]
    exact toNat_setWidth_eight c
  · intro hout
    exact Ram.bytes_fill_of_not_lt (mt hrange.mp hout)

/-- A `memset` of -2 over 21 bytes of a zeroed memory, on an aligned address, and the byte behind
them. -/
theorem memset_sets_bytes_sample :
    (((memset 0x1000 (-2) 21 ⟨fun _ => 0, fun _ => false⟩).bytes 0x1014).toNat : ℤ) = 254 ∧
    (memset 0x1000 (-2) 21 ⟨fun _ => 0, fun _ => false⟩).bytes 0x1015 = 0 := by
  obtain ⟨hin, -⟩ := memset_sets_bytes 0x1000 (-2) 21 (by decide) ⟨fun _ => 0, fun _ => false⟩
    0x1014
  obtain ⟨-, hout⟩ := memset_sets_bytes 0x1000 (-2) 21 (by decide) ⟨fun _ => 0, fun _ => false⟩
    0x1015
  exact ⟨hin (by decide), hout (by decide)⟩

end OS44
