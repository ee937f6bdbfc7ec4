import Mathlib.Algebra.Order.Ring.Nat
import Mathlib.Data.Nat.ModEq
import Mathlib.Tactic.Ring

/-! # Little-endian loads and stores in a byte memory

A memory gives a byte to each `w`-bit address; addresses wrap around. `loadLE m a n` reads the
`n`-byte little-endian number at `a` and `storeLE m a n x` writes one.

* A load reads back what the same store wrote (`loadLE_storeLE`).
* A store touches only its own bytes (`storeLE_of_not_lt`), and a load depends only on its own
  (`loadLE_congr`); a load that changes reads a byte that changed (`exists_byte_ne`). -/

namespace OS44.LittleEndian

variable {w : ℕ}

/-- A byte memory with `w`-bit addresses. -/
abbrev Bytes (w : ℕ) : Type := BitVec w → BitVec 8

/-- The `n`-byte little-endian number at `a`. -/
def loadLE (m : Bytes w) (a : BitVec w) : ℕ → ℕ
  | 0 => 0
  | n + 1 => loadLE m a n + 256 ^ n * (m (a + BitVec.ofNat w n)).toNat

/-- Write the low `n` bytes of `x` at `a`, lowest first. -/
def storeLE (m : Bytes w) (a : BitVec w) (n x : ℕ) : Bytes w :=
  fun b => if (b - a).toNat < n then BitVec.ofNat 8 (x / 256 ^ (b - a).toNat) else m b

variable {m m' : Bytes w} {a b : BitVec w} {n x : ℕ}

/-- A store leaves the bytes outside its range alone. -/
theorem storeLE_of_not_lt (h : ¬ (b - a).toNat < n) : storeLE m a n x b = m b := if_neg h

/-- The byte at offset `k` of a store. -/
theorem storeLE_add (hk : x < n) (hn : n ≤ 2 ^ w) (v : ℕ) :
    storeLE m a n v (a + BitVec.ofNat w x) = BitVec.ofNat 8 (v / 256 ^ x) := by
  have hx : (a + BitVec.ofNat w x - a).toNat = x := by
    rw [BitVec.add_comm, BitVec.add_sub_cancel, BitVec.toNat_ofNat, Nat.mod_eq_of_lt (by omega)]
  rw [storeLE, hx, if_pos hk]

/-- A load depends only on the bytes of its range, wherever they are. -/
theorem loadLE_congr (h : ∀ k < n, m' (b + BitVec.ofNat w k) = m (a + BitVec.ofNat w k)) :
    loadLE m' b n = loadLE m a n := by
  induction n with
  | zero => rfl
  | succ n ih =>
    rw [loadLE, loadLE, ih fun k hk => h k (by omega), h n (by omega)]

/-- **A load of two parts** is that of the lower and that of the upper one. -/
theorem loadLE_add (m : Bytes w) (a : BitVec w) (n k : ℕ) :
    loadLE m a (n + k) = loadLE m a n + 256 ^ n * loadLE m (a + BitVec.ofNat w n) k := by
  induction k with
  | zero => simp [loadLE]
  | succ k ih =>
    rw [← Nat.add_assoc, loadLE, ih, loadLE, BitVec.add_assoc, ← BitVec.ofNat_add]
    ring

/-- Zero bytes are the number zero. -/
theorem loadLE_eq_zero (h : ∀ k < n, m (a + BitVec.ofNat w k) = 0) : loadLE m a n = 0 := by
  induction n with
  | zero => rfl
  | succ n ih => rw [loadLE, ih fun k hk => h k (by omega), h n (by omega)]; simp

/-- **A load that changes reads a byte that changed.** -/
theorem exists_byte_ne (h : loadLE m' a n ≠ loadLE m a n) :
    ∃ k < n, m' (a + BitVec.ofNat w k) ≠ m (a + BitVec.ofNat w k) := by
  by_contra hc
  push Not at hc
  exact h (loadLE_congr hc)

/-- **A load reads back what the same store wrote.** -/
theorem loadLE_storeLE (m : Bytes w) (a : BitVec w) {N : ℕ} (hN : N ≤ 2 ^ w) (v : ℕ) (hn : n ≤ N) :
    loadLE (storeLE m a N v) a n = v % 256 ^ n := by
  induction n with
  | zero => simp [loadLE, Nat.mod_one]
  | succ n ih =>
    rw [loadLE, ih (by omega), storeLE_add (by omega) hN, BitVec.toNat_ofNat,
      Nat.mod_pow_succ (b := 256)]

/-- A load fits in its bytes. -/
theorem loadLE_lt (m : Bytes w) (a : BitVec w) (n : ℕ) : loadLE m a n < 256 ^ n := by
  induction n with
  | zero => simp [loadLE]
  | succ n ih =>
    have hb : (m (a + BitVec.ofNat w n)).toNat ≤ 255 := by
      have := (m (a + BitVec.ofNat w n)).isLt
      omega
    calc loadLE m a (n + 1)
        = loadLE m a n + 256 ^ n * (m (a + BitVec.ofNat w n)).toNat := rfl
      _ < 256 ^ n + 256 ^ n * 255 := Nat.add_lt_add_of_lt_of_le ih (Nat.mul_le_mul_left _ hb)
      _ = 256 ^ (n + 1) := by ring

/-- **The bytes of a load** are those of the memory. -/
theorem byte_loadLE (m : Bytes w) (a : BitVec w) {k n : ℕ} (hk : k < n) :
    BitVec.ofNat 8 (loadLE m a n / 256 ^ k) = m (a + BitVec.ofNat w k) := by
  induction n with
  | zero => exact absurd hk (Nat.not_lt_zero k)
  | succ n ih =>
    have hpos : 0 < 256 ^ k := Nat.pow_pos (by decide)
    rw [loadLE]
    rcases Nat.lt_succ_iff_lt_or_eq.mp hk with hlt | rfl
    · -- the new byte sits above byte `k`
      have hpow : 256 ^ n = 256 ^ k * (256 * 256 ^ (n - k - 1)) := by
        rw [← pow_succ', ← pow_add]
        congr 1
        omega
      rw [← ih hlt, hpow, Nat.mul_assoc, Nat.add_mul_div_left _ _ hpos, Nat.mul_assoc]
      refine BitVec.eq_of_toNat_eq ?_
      rw [BitVec.toNat_ofNat, BitVec.toNat_ofNat]
      exact Nat.add_mul_mod_self_left _ 256 _
    · rw [Nat.add_mul_div_left _ _ hpos, Nat.div_eq_of_lt (loadLE_lt m a k), Nat.zero_add,
        BitVec.ofNat_toNat, BitVec.setWidth_eq]

/-- **A load is a number** if and only if the bytes are those of the number. -/
theorem loadLE_eq_iff (hn : n ≤ 2 ^ w) {v : ℕ} (hv : v < 256 ^ n) :
    loadLE m a n = v ↔ ∀ k < n, m (a + BitVec.ofNat w k) = BitVec.ofNat 8 (v / 256 ^ k) := by
  constructor
  · rintro rfl k hk
    exact (byte_loadLE m a hk).symm
  · intro h
    have hstore : loadLE m a n = loadLE (storeLE m a n v) a n :=
      loadLE_congr fun k hk => by rw [h k hk, storeLE_add hk hn]
    rw [hstore, loadLE_storeLE m a hn v le_rfl, Nat.mod_eq_of_lt hv]

end OS44.LittleEndian
