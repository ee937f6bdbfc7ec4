import Mathlib.Data.List.Basic

/-! # Texts written under a bound

Calls write into a place for `cap` elements, one behind the other, and the last element is kept
free. What a call writes may depend on the position that it starts at (`text c pos`); `fit` cuts a
text off where the place ends.

* Calls that each write what there is room for write what there is room for of the whole text
  (`written_fit`).
* If no call writes too far, then no list of calls does (`pos_add_length_written_lt`).
* If every call writes the whole of its text where there is room for it, then so does every list of
  calls (`written_eq`). -/

namespace OS44.BoundedText

variable {γ α : Type*}

/-- What there is room for at position `pos`, the last of `cap` elements kept free. -/
def fit (cap pos : ℕ) (xs : List α) : List α := xs.take (cap - 1 - pos)

/-- What the calls write, the first of them at position `pos`. -/
def written (text : γ → ℕ → List α) : List γ → ℕ → List α
  | [], _ => []
  | c :: cs, pos => text c pos ++ written text cs (pos + (text c pos).length)

variable {cap pos : ℕ} {x : α} {xs ys : List α}

theorem fit_of_lt (h : pos + xs.length < cap) : fit cap pos xs = xs :=
  List.take_of_length_le (by omega)

theorem fit_of_full (h : ¬ pos + 1 < cap) : fit cap pos xs = [] := by
  rw [fit, show cap - 1 - pos = 0 by omega, List.take_zero]

theorem fit_cons_of_lt (h : pos + 1 < cap) :
    fit cap pos (x :: xs) = x :: fit cap (pos + 1) xs := by
  rw [fit, fit, show cap - 1 - pos = cap - 1 - (pos + 1) + 1 by omega, List.take_succ_cons]

/-- The last element stays free. -/
theorem pos_add_length_fit_lt (h : pos < cap) : pos + (fit cap pos xs).length < cap := by
  rw [fit, List.length_take]
  omega

/-- A text is cut off where its last part is. -/
theorem fit_append : fit cap pos (xs ++ ys) =
    fit cap pos xs ++ fit cap (pos + (fit cap pos xs).length) ys := by
  rw [fit, fit, fit, List.take_append, List.length_take]
  congr 2
  omega

theorem written_fit (full : γ → List α) (cs : List γ) (pos : ℕ) :
    written (fun c pos => fit cap pos (full c)) cs pos = fit cap pos (cs.flatMap full) := by
  induction cs generalizing pos with
  | nil => exact List.take_nil.symm
  | cons c cs ih => rw [written, ih, List.flatMap_cons, fit_append]

variable {text : γ → ℕ → List α} {full : γ → List α}

/-- **Bound rule.** -/
theorem pos_add_length_written_lt
    (htext : ∀ c pos, pos < cap → pos + (text c pos).length < cap) (cs : List γ) (h : pos < cap) :
    pos + (written text cs pos).length < cap := by
  induction cs generalizing pos with
  | nil => exact h
  | cons c cs ih =>
    rw [written, List.length_append, ← Nat.add_assoc]
    exact ih (htext c pos h)

/-- **Room rule.** -/
theorem written_eq (htext : ∀ c pos, pos + (full c).length < cap → text c pos = full c)
    {cs : List γ} (h : pos + (cs.flatMap full).length < cap) :
    written text cs pos = cs.flatMap full := by
  induction cs generalizing pos with
  | nil => rfl
  | cons c cs ih =>
    rw [List.flatMap_cons, List.length_append] at h
    rw [written, htext c pos (by omega), ih (by omega), List.flatMap_cons]

end OS44.BoundedText
