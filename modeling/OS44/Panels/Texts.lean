import Mathlib.Data.List.TakeWhile
import OS44.Framebuffer.ReadText
import OS44.Panels.Appends

/-! # Texts of several appends

A list of appends at the start of a buffer leaves the renderings of its arguments there, one behind
the other, if there is room for all of them (`appendAll_start`). -/

namespace OS44

open BoundedText Numerals

/-- The text of a list of appends. -/
def lineTextOf (calls : List AppendCall) : List U8 := calls.flatMap AppendCall.rendering

theorem lineTextOf_append (calls calls' : List AppendCall) :
    lineTextOf (calls ++ calls') = lineTextOf calls ++ lineTextOf calls' := List.flatMap_append

@[simp] theorem lineTextOf_nil : lineTextOf [] = [] := rfl

@[simp] theorem lineTextOf_cons (call : AppendCall) (calls : List AppendCall) :
    lineTextOf (call :: calls) = call.rendering ++ lineTextOf calls := List.flatMap_cons

variable {cap : U64} {calls : List AppendCall} {buf : LocalBuf}

/-- **Appends at the start of a buffer**: the array and the position. -/
theorem appendAll_start (hcap : cap.toNat + 2 < 2 ^ 64)
    (hlen : (lineTextOf calls).length < cap.toNat) :
    (appendAll cursor cap calls (buf, 0)).1 = buf.copyAll 0 (lineTextOf calls) ∧
      (appendAll cursor cap calls (buf, 0)).2.toNat = (lineTextOf calls).length := by
  have htext : appendAll cursor cap calls (buf, 0) = cursor.puts (lineTextOf calls) (buf, 0) := by
    rw [appendAll_eq_puts (counts_cursor cap) hcap (by show (0 : ℕ) < _; omega),
      written_eq (fun call _ => AppendCall.text_eq_rendering call)]
    · rfl
    · show 0 + _ < cap.toNat
      rw [Nat.zero_add]
      exact hlen
  have hputs : cursor.puts (lineTextOf calls) (buf, 0) =
      (buf.copyAll 0 (lineTextOf calls), 0 + BitVec.ofNat 64 (lineTextOf calls).length) :=
    puts_cursor (by show 0 + _ < 2 ^ 64; omega)
  rw [htext, hputs]
  refine ⟨rfl, ?_⟩
  show (0#64 + BitVec.ofNat 64 (lineTextOf calls).length).toNat = _
  rw [BitVec.zero_add, BitVec.toNat_ofNat, Nat.mod_eq_of_lt (by omega)]

/-! ## Texts without a NUL -/

/-- At most `n` characters, and none of them ends a string. -/
structure NulFree (n : ℕ) (str : List U8) : Prop where
  length_le : str.length ≤ n
  zero_notMem : (0 : U8) ∉ str

section NulFree

variable {n k : ℕ} {str str' : List U8}

theorem NulFree.append (h : NulFree n str) (h' : NulFree k str') :
    NulFree (n + k) (str ++ str') where
  length_le := by
    rw [List.length_append]
    exact Nat.add_le_add h.length_le h'.length_le
  zero_notMem hc := (List.mem_append.mp hc).elim h.zero_notMem h'.zero_notMem

theorem NulFree.mono (h : NulFree n str) (hnk : n ≤ k) : NulFree k str :=
  ⟨h.length_le.trans hnk, h.zero_notMem⟩

theorem NulFree.takeWhile_eq (h : NulFree n str) : str.takeWhile (· ≠ 0) = str :=
  List.takeWhile_eq_self_iff.mpr fun _ hc => decide_eq_true fun h0 => h.zero_notMem (h0 ▸ hc)

theorem nulFree_takeWhile (h : str.length ≤ n) : NulFree n (str.takeWhile (· ≠ 0)) where
  length_le := (List.takeWhile_prefix _).length_le.trans h
  zero_notMem hc := by
    have hne := List.mem_takeWhile_imp hc
    exact absurd hne (by decide)

end NulFree

/-! ## Texts that can be read -/

/-- At most `n` characters, all of them with a glyph. -/
structure PlainText (n : ℕ) (str : List U8) : Prop where
  length_le : str.length ≤ n
  hasGlyph : ∀ c ∈ str, HasGlyph c

section PlainText

variable {n k : ℕ} {str str' : List U8}

theorem PlainText.append (h : PlainText n str) (h' : PlainText k str') :
    PlainText (n + k) (str ++ str') where
  length_le := by
    rw [List.length_append]
    exact Nat.add_le_add h.length_le h'.length_le
  hasGlyph c hc := (List.mem_append.mp hc).elim (h.hasGlyph c) (h'.hasGlyph c)

theorem PlainText.mono (h : PlainText n str) (hnk : n ≤ k) : PlainText k str :=
  ⟨h.length_le.trans hnk, h.hasGlyph⟩

theorem PlainText.nulFree (h : PlainText n str) : NulFree n str :=
  ⟨h.length_le, fun hc => absurd (h.hasGlyph 0 hc) (by decide)⟩

theorem plainText_hexadecimal (value : U64) : PlainText 16 (hexadecimal value.toNat) where
  length_le := by
    rw [hexadecimal_eq_numeral, length_numeral_le_iff (by omega) (by omega)]
    exact value.isLt
  hasGlyph c hc := by
    have hall : ∀ d < 16, HasGlyph (hexGlyph d) := by decide
    rw [hexadecimal_eq_numeral] at hc
    obtain ⟨d, hd, rfl⟩ := mem_numeral (by omega) hc
    exact hall d hd

theorem plainText_decimal (value : U64) : PlainText 20 (decimal value.toNat) where
  length_le := length_decimal_le value
  hasGlyph c hc := by
    have hall : ∀ d < 10, HasGlyph (decGlyph d) := by decide
    rw [decimal_eq_numeral] at hc
    obtain ⟨d, hd, rfl⟩ := mem_numeral (by omega) hc
    exact hall d hd

end PlainText

end OS44
