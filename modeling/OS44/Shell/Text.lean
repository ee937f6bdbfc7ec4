import Mathlib.Data.List.GetD
import OS44.BootInfo

/-! # Text helpers of the shell (`shell.c`)

Numbers to and from text, comparison, and the `append_*` functions that build a line in a local
buffer. A function that scans a buffer is given the bytes from its pointer to the end of the buffer,
and returns `none` where it would read on behind them. A local buffer remembers whether it was
written behind its end. -/

namespace OS44

/-- The characters of a literal. -/
def chars (str : String) : List U8 := str.toList.map fun c => BitVec.ofNat 8 c.toNat

/-! ## Numbers -/

/-- `while (val > 0) { tmp[i++] = (val % 10) + '0'; val /= 10; }` with room for `fuel` digits: the
digits, least first. -/
def decDigits : ℕ → U64 → List U8
  | 0, _ => []
  | fuel + 1, val =>
    if val = 0 then [] else (48 + (val % 10).setWidth 8) :: decDigits fuel (val / 10)

/-- `while (value > 0 && len < fuel) { tmp[len++] = hex[value & 0xF]; value >>= 4; }`. -/
def hexDigits : ℕ → U64 → List U8
  | 0, _ => []
  | fuel + 1, value =>
    if value = 0 then []
    else (chars "0123456789ABCDEF").getD (value &&& 0xF).toNat 0 :: hexDigits fuel (value >>> 4)

/-- `itoa`: the bytes it writes. A 64-bit number has at most 20 digits. -/
def itoa (val : U64) : List U8 := if val = 0 then [48, 0] else (decDigits 20 val).reverse ++ [0]

/-- `atoi` from the number read so far. -/
def atoiFrom (res : U64) : List U8 → Option U64
  | [] => none
  | c :: str =>
    if 48 ≤ c ∧ c ≤ 57 then atoiFrom (res * 10 + (c - 48).setWidth 64) str else some res

/-- `atoi`. -/
def atoi (str : List U8) : Option U64 := atoiFrom 0 str

/-- `strcmp`. -/
def strcmp : List U8 → List U8 → Option ℤ
  | c₁ :: s₁, c₂ :: s₂ => if c₁ ≠ 0 ∧ c₁ = c₂ then strcmp s₁ s₂ else some (c₁.toNat - c₂.toNat)
  | _, _ => none

/-- `while (*space && *space != ' ') space++`: what is left from there on. -/
def skipToSpace : List U8 → Option (List U8)
  | [] => none
  | c :: str => if c ≠ 0 ∧ c ≠ 32 then skipToSpace str else some (c :: str)

/-! ## Local buffers -/

/-- A buffer on the stack: its size, the bytes from its start on, and whether one behind its end was
written. -/
@[ext] structure LocalBuf where
  size : ℕ
  bytes : ℕ → U8
  overran : Bool

/-- An uninitialised buffer. -/
def LocalBuf.new (size : ℕ) (bytes : ℕ → U8) : LocalBuf where
  size := size
  bytes := bytes
  overran := false

/-- `buf[i] = v`. -/
def LocalBuf.set (b : LocalBuf) (i : ℕ) (v : U8) : LocalBuf :=
  { b with
    bytes := Function.update b.bytes i v
    overran := b.overran || decide (b.size ≤ i) }

/-- `memcpy(buf + off, src, n)`. -/
def LocalBuf.copy (b : LocalBuf) (off : ℕ) (src : ℕ → U8) (n : ℕ) : LocalBuf :=
  { b with
    bytes := fun j => if off ≤ j ∧ j < off + n then src (j - off) else b.bytes j
    overran := b.overran || decide (0 < n ∧ b.size < off + n) }

/-- Write a list of bytes from the start on. -/
def LocalBuf.write (b : LocalBuf) (str : List U8) : LocalBuf :=
  b.copy 0 (fun j => str.getD j 0) str.length

/-- Copy a list of bytes to a position. -/
def LocalBuf.copyAll (b : LocalBuf) (p : ℕ) (str : List U8) : LocalBuf :=
  b.copy p (fun j => str.getD j 0) str.length

/-- A buffer and the position that an append starts at. -/
abbrev Cursor : Type := LocalBuf × U64

/-- `while (… && *pos + 1 < cap) buf[(*pos)++] = …`. -/
def pushAll (cap : U64) : List U8 → Cursor → Cursor
  | [], p => p
  | c :: str, p =>
    if p.2 + 1 < cap then pushAll cap str (p.1.set p.2.toNat c, p.2 + 1) else p

/-- `append_str`. -/
def appendStr (cap : U64) (str : List U8) (p : Cursor) : Cursor :=
    pushAll cap (str.takeWhile (· ≠ 0)) p

/-- `append_hex`. -/
def appendHex (cap value : U64) (p : Cursor) : Cursor :=
  if value = 0 then
    if p.2 + 3 < cap then
      (((p.1.set p.2.toNat 48).set (p.2 + 1).toNat 120).set (p.2 + 2).toNat 48, p.2 + 3)
    else p
  else
    -- without room for `0x` the digits are appended all the same
    let p := if p.2 + 2 < cap then ((p.1.set p.2.toNat 48).set (p.2 + 1).toNat 120, p.2 + 2) else p
    pushAll cap (hexDigits 16 value).reverse p

/-- `append_dec`. -/
def appendDec (cap value : U64) (p : Cursor) : Cursor :=
  if value = 0 then
    if p.2 + 1 < cap then (p.1.set p.2.toNat 48, p.2 + 1) else p
  else pushAll cap (decDigits 24 value).reverse p

/-! ## Digits -/

/-- A number below `10 ^ n` has at most `n` digits. -/
theorem length_decDigits_le {fuel n : ℕ} {val : U64} (h : val.toNat < 10 ^ n) :
    (decDigits fuel val).length ≤ n := by
  induction fuel generalizing n val with
  | zero => exact Nat.zero_le n
  | succ fuel ih =>
    rw [decDigits]
    split_ifs with h0
    · exact Nat.zero_le n
    · cases n with
      | zero => exact absurd (BitVec.eq_of_toNat_eq (by simpa using h)) h0
      | succ n =>
        have hdiv : (val / 10).toNat < 10 ^ n := by
          rw [BitVec.toNat_udiv, show (10 : U64).toNat = 10 from rfl]
          rw [pow_succ] at h
          omega
        rw [List.length_cons]
        exact Nat.succ_le_succ (ih hdiv)

/-- The terminator `itoa` writes, behind at most `n` digits. -/
theorem exists_itoa_nul {n : ℕ} (hn : 1 ≤ n) {val : U64} (h : val.toNat < 10 ^ n) :
    ∃ k ≤ n, k < (itoa val).length ∧ (itoa val).getD k 0 = 0 := by
  unfold itoa
  split_ifs with h0
  · exact ⟨1, hn, by decide, rfl⟩
  · refine ⟨(decDigits 20 val).length, length_decDigits_le h, ?_, ?_⟩
    · rw [List.length_append, List.length_reverse]
      exact Nat.lt_succ_self _
    · rw [List.getD_eq_getElem?_getD, List.getElem?_append_right (by rw [List.length_reverse]),
        List.length_reverse, Nat.sub_self]
      rfl

/-! ## What a copy does -/

section Copy

variable {b : LocalBuf} {off n j p : ℕ} {src : ℕ → U8} {w x : List U8}

@[simp] theorem LocalBuf.size_copy : (b.copy off src n).size = b.size := rfl

theorem LocalBuf.overran_copy (h : off + n ≤ b.size) : (b.copy off src n).overran = b.overran := by
  show (b.overran || decide (0 < n ∧ b.size < off + n)) = b.overran
  rw [decide_eq_false (by omega), Bool.or_false]

theorem LocalBuf.bytes_copy_inside (h : off ≤ j) (h' : j < off + n) :
    (b.copy off src n).bytes j = src (j - off) := if_pos ⟨h, h'⟩

theorem LocalBuf.bytes_copy_behind (h : off + n ≤ j) : (b.copy off src n).bytes j = b.bytes j :=
  if_neg (by omega)

theorem LocalBuf.bytes_set (b : LocalBuf) (i : ℕ) (v : U8) : (b.set i v).bytes i = v := by
  show Function.update b.bytes i v i = v
  rw [Function.update_self]

theorem LocalBuf.bytes_copyAll (h : p ≤ j) (h' : j < p + x.length) :
    (b.copyAll p x).bytes j = x.getD (j - p) 0 := if_pos ⟨h, h'⟩

theorem LocalBuf.bytes_copyAll_outside (h : ¬ (p ≤ j ∧ j < p + x.length)) :
    (b.copyAll p x).bytes j = b.bytes j := if_neg h

theorem LocalBuf.overran_copyAll :
    (b.copyAll p x).overran = (b.overran || decide (0 < x.length ∧ b.size < p + x.length)) := rfl

theorem LocalBuf.copyAll_nil : b.copyAll p [] = b := by
  refine LocalBuf.ext rfl ?_ ?_
  · funext j
    exact bytes_copyAll_outside fun h => absurd h.2 (Nat.not_lt.mpr h.1)
  · rw [overran_copyAll, decide_eq_false fun h => absurd h.1 (Nat.lt_irrefl 0), Bool.or_false]

theorem LocalBuf.copyAll_copyAll :
    (b.copyAll p w).copyAll (p + w.length) x = b.copyAll p (w ++ x) := by
  have hlength : (w ++ x).length = w.length + x.length := List.length_append
  refine LocalBuf.ext rfl ?_ ?_
  · funext j
    by_cases hx : p + w.length ≤ j ∧ j < p + w.length + x.length
    · rw [bytes_copyAll hx.1 hx.2, bytes_copyAll (by omega) (by omega),
        List.getD_append_right _ _ _ _ (by omega), Nat.sub_add_eq]
    rw [bytes_copyAll_outside hx]
    by_cases hw : p ≤ j ∧ j < p + w.length
    · rw [bytes_copyAll hw.1 hw.2, bytes_copyAll hw.1 (by omega),
        List.getD_append _ _ _ _ (by omega)]
    · rw [bytes_copyAll_outside hw, bytes_copyAll_outside (by omega)]
  · have hsize : (b.copyAll p w).size = b.size := rfl
    rw [overran_copyAll, overran_copyAll, overran_copyAll, Bool.or_assoc, ← Bool.decide_or, hsize,
      hlength]
    congr 2
    exact propext (by omega)

/-- One byte is a list of bytes. -/
theorem LocalBuf.set_eq_copyAll (b : LocalBuf) (i : ℕ) (v : U8) : b.set i v = b.copyAll i [v] := by
  refine LocalBuf.ext rfl ?_ ?_
  · funext j
    by_cases hj : j = i
    · rw [hj, bytes_set, bytes_copyAll le_rfl (by simp), Nat.sub_self]
      rfl
    · rw [bytes_copyAll_outside (by rw [List.length_singleton]; omega)]
      exact Function.update_of_ne hj v b.bytes
  · rw [overran_copyAll]
    show (b.overran || decide (b.size ≤ i)) = (b.overran || decide (0 < 1 ∧ b.size < i + 1))
    congr 2
    exact propext (by omega)

/-- A list of bytes is written byte by byte. -/
theorem LocalBuf.copyAll_cons (b : LocalBuf) (i : ℕ) (v : U8) (x : List U8) :
    (b.set i v).copyAll (i + 1) x = b.copyAll i (v :: x) := by
  rw [set_eq_copyAll]
  exact copyAll_copyAll (w := [v])

end Copy

/-! ## What the appends do -/

/-- The appended number of characters, if there is room. -/
def hexLength (value : U64) : ℕ := if value = 0 then 3 else 2 + (hexDigits 16 value).length

/-- The appended number of characters, if there is room. -/
def decLength (value : U64) : ℕ := if value = 0 then 1 else (decDigits 24 value).length

/-- **An append stays in its buffer**: from `p` to `p'` at most `n` characters were appended, and a
byte is left for the terminator. -/
structure Appends (cap : U64) (n : ℕ) (p p' : Cursor) : Prop where
  size_eq : p'.1.size = p.1.size
  overran_eq : p'.1.overran = p.1.overran
  pos_lt : p'.2.toNat < cap.toNat
  pos_le : p'.2.toNat ≤ p.2.toNat + n

/-- The cursor is inside the buffer, whose size is the capacity. -/
structure Cursor.Ready (cap : U64) (p : Cursor) : Prop where
  size_eq : p.1.size = cap.toNat
  pos_lt : p.2.toNat < cap.toNat

variable {cap : U64} {n k : ℕ} {p p' p'' : Cursor}

theorem Appends.refl (h : p.Ready cap) (n : ℕ) : Appends cap n p p where
  size_eq := rfl
  overran_eq := rfl
  pos_lt := h.pos_lt
  pos_le := Nat.le_add_right _ _

theorem Appends.ready (h : Appends cap n p p') (hp : p.Ready cap) : p'.Ready cap where
  size_eq := h.size_eq.trans hp.size_eq
  pos_lt := h.pos_lt

theorem Appends.trans (h : Appends cap n p p') (h' : Appends cap k p' p'') :
    Appends cap (n + k) p p'' where
  size_eq := h'.size_eq.trans h.size_eq
  overran_eq := h'.overran_eq.trans h.overran_eq
  pos_lt := h'.pos_lt
  pos_le := by
    have h₁ := h.pos_le
    have h₂ := h'.pos_le
    omega

/-- At the end of the buffer nothing is appended. -/
theorem pushAll_of_full (h : ¬ p.2 + 1 < cap) (str : List U8) : pushAll cap str p = p := by
  cases str with
  | nil => rfl
  | cons c str => exact if_neg h

theorem appendStr_of_full (h : ¬ p.2 + 1 < cap) (str : List U8) : appendStr cap str p = p :=
  pushAll_of_full h _

theorem appendDec_of_full (h : ¬ p.2 + 1 < cap) (value : U64) : appendDec cap value p = p := by
  unfold appendDec
  split_ifs
  · rfl
  · exact pushAll_of_full h _

/-- Appending one character. -/
theorem appends_set (hp : p.Ready cap) (hroom : p.2 + 1 < cap) (c : U8) :
    Appends cap 1 p (p.1.set p.2.toNat c, p.2 + 1) := by
  have hlt := hp.pos_lt
  have hsize := hp.size_eq
  have hcap := cap.isLt
  have hone : (1 : U64).toNat = 1 := rfl
  have hnext : (p.2 + 1).toNat = p.2.toNat + 1 := by
    rw [BitVec.toNat_add, hone]
    omega
  have hpos : p.2.toNat + 1 < cap.toNat := hnext ▸ BitVec.lt_def.mp hroom
  have hfits : decide (p.1.size ≤ p.2.toNat) = false := decide_eq_false (by omega)
  exact ⟨rfl, by simp only [LocalBuf.set, hfits, Bool.or_false], hnext ▸ hpos, hnext.le⟩

theorem appends_pushAll (hp : p.Ready cap) (str : List U8) : Appends cap str.length p
    (pushAll cap str p) := by
  induction str generalizing p with
  | nil => exact .refl hp 0
  | cons c str ih =>
    rw [pushAll]
    split_ifs with hroom
    · have hfirst := appends_set hp hroom c
      have hrest := hfirst.trans (ih (hfirst.ready hp))
      rwa [Nat.add_comm] at hrest
    · exact .refl hp _

theorem appends_appendStr (hp : p.Ready cap) (str : List U8) :
    Appends cap str.length p (appendStr cap str p) := by
  have h := appends_pushAll hp (str.takeWhile (· ≠ 0))
  refine { h with pos_le := h.pos_le.trans ?_ }
  exact Nat.add_le_add_left (List.takeWhile_prefix _).length_le _

theorem appends_appendDec (hp : p.Ready cap) (value : U64) :
    Appends cap (decLength value) p (appendDec cap value p) := by
  unfold appendDec decLength
  split_ifs with h0 hroom
  · exact appends_set hp hroom 48
  · exact .refl hp 1
  · rw [← List.length_reverse]
    exact appends_pushAll hp _

/-- Positions in a buffer of less than 2^63 bytes do not wrap around. -/
theorem add_lt_of_add_lt (hcap : cap.toNat ≤ 2 ^ 63) {pos i j : U64} (hpos : pos.toNat < cap.toNat)
    (hij : i.toNat ≤ j.toNat) (hj : j.toNat < 4) (h : pos + j < cap) : pos + i < cap := by
  rw [BitVec.lt_def, BitVec.toNat_add] at h ⊢
  omega

/-- Two characters, checked at once. -/
theorem appends_set_set (hcap : cap.toNat ≤ 2 ^ 63) (hp : p.Ready cap) (hroom : p.2 + 2 < cap)
    (c₁ c₂ : U8) :
    Appends cap 2 p ((p.1.set p.2.toNat c₁).set (p.2 + 1).toNat c₂, p.2 + 2) := by
  have htwo : p.2 + 1 + 1 = p.2 + 2 := BitVec.add_assoc p.2 1 1
  have hroom₁ : p.2 + 1 < cap := add_lt_of_add_lt hcap hp.pos_lt (by decide) (by decide) hroom
  have hfirst := appends_set hp hroom₁ c₁
  have hsecond := appends_set (hfirst.ready hp) (htwo.symm ▸ hroom) c₂
  rw [htwo] at hsecond
  exact hfirst.trans hsecond

theorem appends_appendHex (hcap : cap.toNat ≤ 2 ^ 63) (hp : p.Ready cap) (value : U64) :
    Appends cap (hexLength value) p (appendHex cap value p) := by
  unfold appendHex hexLength
  dsimp only
  split_ifs with h0 hroom hroom
  · have hthree : p.2 + 2 + 1 = p.2 + 3 := BitVec.add_assoc p.2 2 1
    have hroom₂ : p.2 + 2 < cap := add_lt_of_add_lt hcap hp.pos_lt (by decide) (by decide) hroom
    have hsign := appends_set_set hcap hp hroom₂ 48 120
    have hlast := appends_set (hsign.ready hp) (hthree.symm ▸ hroom) 48
    rw [hthree] at hlast
    exact hsign.trans hlast
  · exact .refl hp 3
  · have hsign := appends_set_set hcap hp hroom 48 120
    have hdigits := appends_pushAll (hsign.ready hp) (hexDigits 16 value).reverse
    rw [List.length_reverse] at hdigits
    exact hsign.trans hdigits
  · have hdigits := (Appends.refl hp 2).trans (appends_pushAll hp (hexDigits 16 value).reverse)
    rwa [List.length_reverse] at hdigits

end OS44
