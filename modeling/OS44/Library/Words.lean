import Mathlib.Data.List.Basic
import Mathlib.Tactic.SplitIfs

/-! # Words in a bounded text

Words are joined by a separator, as far as there is room: a word is kept when it and one more
element behind it fit (`fitting`). What follows a word in such a text is nothing or the separator
(`intercalate_cons`), so that the text has its first word back (`takeWhile_word`). -/

namespace OS44.Words

variable {α : Type}

/-- The words that fit into `cap` elements, the first of them at position `p`, each with the
separator or the end of the text behind it. -/
def fitting (cap : ℕ) : ℕ → List (List α) → List (List α)
  | _, [] => []
  | p, w :: ws =>
    if p + w.length < cap then w :: fitting cap (p + w.length + 1) ws else fitting cap p ws

/-- The text behind the first word. -/
def behind (sep : α) (ws : List (List α)) : List α :=
  if ws = [] then [] else sep :: [sep].intercalate ws

variable {sep : α} {cap p : ℕ} {w x : List α} {ws : List (List α)}

theorem fitting_of_fits (h : p + w.length < cap) :
    fitting cap p (w :: ws) = w :: fitting cap (p + w.length + 1) ws := if_pos h

theorem fitting_of_full (h : ¬ p + w.length < cap) :
    fitting cap p (w :: ws) = fitting cap p ws := if_neg h

/-- Nothing is kept exactly if no word fits. -/
theorem fitting_eq_nil_iff : fitting cap p ws = [] ↔ ∀ w ∈ ws, ¬ p + w.length < cap := by
  induction ws with
  | nil => exact iff_of_true rfl fun w hw => absurd hw List.not_mem_nil
  | cons w ws ih =>
    rw [List.forall_mem_cons]
    by_cases h : p + w.length < cap
    · rw [fitting_of_fits h]
      exact iff_of_false (List.cons_ne_nil _ _) fun hall => hall.1 h
    · rw [fitting_of_full h, ih]
      exact (and_iff_right h).symm

/-- Only words of the list are kept. -/
theorem mem_of_mem_fitting (h : w ∈ fitting cap p ws) : w ∈ ws := by
  induction ws generalizing p with
  | nil => exact h
  | cons v ws ih =>
    by_cases hv : p + v.length < cap
    · rw [fitting_of_fits hv] at h
      rcases List.mem_cons.mp h with rfl | h
      · exact List.mem_cons_self
      · exact List.mem_cons_of_mem v (ih h)
    · rw [fitting_of_full hv] at h
      exact List.mem_cons_of_mem v (ih h)

theorem intercalate_cons (sep : α) (w : List α) (ws : List (List α)) :
    [sep].intercalate (w :: ws) = w ++ behind sep ws := by
  rw [behind]
  split_ifs with h
  · rw [h, List.intercalate_singleton, List.append_nil]
  · rw [List.intercalate_cons_of_ne_nil h, List.append_assoc]
    rfl

/-- Behind the first word there is nothing or the separator. -/
theorem behind_eq (sep : α) (ws : List (List α)) :
    behind sep ws = [] ∨ ∃ x, behind sep ws = sep :: x := by
  rw [behind]
  split_ifs
  · exact .inl rfl
  · exact .inr ⟨_, rfl⟩

/-- **The first word** of a text: it has no separator, and nothing or a separator follows. -/
theorem takeWhile_word [DecidableEq α] (hw : sep ∉ w) (hx : x = [] ∨ ∃ y, x = sep :: y) :
    (w ++ x).takeWhile (· ≠ sep) = w := by
  have hword : ∀ a ∈ w, decide (a ≠ sep) = true := by
    intro a ha
    refine decide_eq_true ?_
    rintro rfl
    exact hw ha
  -- the word is taken whole, and the scan stops right behind it
  rw [List.takeWhile_append_of_pos hword]
  rcases hx with rfl | ⟨y, rfl⟩
  · exact List.append_nil w
  · rw [List.takeWhile_cons_of_neg (by simp), List.append_nil]

end OS44.Words
