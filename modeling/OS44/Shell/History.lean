import Mathlib.Data.List.DropRight
import OS44.Kernel.String
import OS44.Shell.Lines

/-! # Which lines the history holds (`shell.c`)

`add_to_history` fills twenty rows and then drops the oldest: every row moves up by one, in place
and from the first row on, and the new line is stored in the last one. After any number of calls the
history holds the last twenty lines, oldest first (`history_holds_last_lines`). The rows lie behind
each other in one array, and `addToHistoryAt` is the function on the bytes of memory, with `memcpy`
for every row: it does in memory what `addToHistory` does to the rows
(`rowsAt_addToHistoryAt`). -/

namespace OS44

open LittleEndian ByteRange

/-! ## The rows move up -/

section Rows

/-- The loop has moved the rows in front of `k` up, and no other. -/
theorem foldl_shiftRow (rows : Fin 20 → Fin 80 → U8) {k : ℕ} (hk : k ≤ 19) (i : Fin 20) :
    (List.range k).foldl shiftRow rows i =
      if h : i.val < k then rows ⟨i.val + 1, by omega⟩ else rows i := by
  induction k generalizing i with
  | zero => rfl
  | succ k ih =>
    rw [List.range_succ, List.foldl_append, List.foldl_cons, List.foldl_nil, shiftRow,
      dif_pos (by omega), Function.update_apply]
    split_ifs with hik hlt hlt
    · -- the row behind has not been moved yet
      rw [ih (by omega), dif_neg (by simp)]
      subst hik
      rfl
    · exact absurd (by rw [hik]; exact Nat.lt_succ_self k) hlt
    · have hne : i.val ≠ k := fun h => hik (Fin.ext h)
      rw [ih (by omega), dif_pos (by omega)]
    · rw [ih (by omega), dif_neg (by omega)]

end Rows

/-! ## Runs -/

section Runs

variable {M D : Type} {t : Terminal M D} {strs : List (ℕ → U8)}

/-- The first `LINE_LEN` bytes. -/
def firstBytes (str : ℕ → U8) : Fin 80 → U8 := fun j => str j

/-- `terminal_history[0 .. history_lines)`. -/
def Terminal.lines (t : Terminal M D) : List (Fin 80 → U8) :=
  (List.ofFn t.terminalHistory).take t.historyLines

/-- **The history holds the last lines** of those that were added. -/
structure Holds (t : Terminal M D) (strs : List (ℕ → U8)) : Prop where
  lines_eq : t.lines = (strs.rtake 20).map firstBytes
  historyLines_eq : t.historyLines = min strs.length 20

/-- There is room: the line is added behind the others. -/
theorem addToHistory_of_lt (h : t.historyLines < 20) (str : ℕ → U8) :
    (addToHistory t str).lines = t.lines ++ [firstBytes str] ∧
      (addToHistory t str).historyLines = t.historyLines + 1 := by
  have hadd : addToHistory t str = { t with
      terminalHistory := fun i =>
        if i.val = t.historyLines then firstBytes str else t.terminalHistory i
      historyLines := t.historyLines + 1 } := by
    refine (dif_pos h).trans ?_
    congr 1
    funext i
    rw [Function.update_apply]
    exact if_congr Fin.ext_iff rfl rfl
  rw [hadd]
  refine ⟨?_, rfl⟩
  show (List.ofFn _).take (t.historyLines + 1) =
    (List.ofFn t.terminalHistory).take t.historyLines ++ [firstBytes str]
  rw [ofFn_replace, take_succ_set (by rwa [List.length_ofFn])]

/-- The history is full: the line is added behind the others, and the first one is dropped. -/
theorem addToHistory_of_full (h : t.historyLines = 20) (str : ℕ → U8) :
    (addToHistory t str).lines = t.lines.tail ++ [firstBytes str] ∧
      (addToHistory t str).historyLines = 20 := by
  have hadd : addToHistory t str = { t with
      terminalHistory := fun i => if i.val = 19 then firstBytes str
        else (List.range 19).foldl shiftRow t.terminalHistory i } :=
    dif_neg (by omega)
  -- the first 19 rows are the last 19 of before
  have hmoved : (List.ofFn ((List.range 19).foldl shiftRow t.terminalHistory)).take 19 =
      (List.ofFn t.terminalHistory).tail := by
    apply List.ext_getElem
    · rw [List.length_take, List.length_tail, List.length_ofFn, List.length_ofFn]
      rfl
    · intro i hi hi'
      have hlt : i < 19 := List.length_take_le 19 _ |>.trans_lt' hi
      rw [List.getElem_take, List.getElem_ofFn, List.getElem_tail, List.getElem_ofFn,
        foldl_shiftRow _ le_rfl, dif_pos hlt]
  have hlines : t.lines = List.ofFn t.terminalHistory := by
    rw [Terminal.lines, h]
    exact List.take_of_length_le (by rw [List.length_ofFn])
  rw [hadd]
  refine ⟨?_, h⟩
  rw [hlines, Terminal.lines, h, ofFn_replace,
    take_succ_set (by rw [List.length_ofFn]; decide), hmoved]

/-- **One line more.** -/
theorem Holds.add (h : Holds t strs) (str : ℕ → U8) :
    Holds (addToHistory t str) (strs ++ [str]) := by
  have hlines := h.historyLines_eq
  have hlast : ((strs ++ [str]).rtake 20).map firstBytes =
      (strs.rtake 19).map firstBytes ++ [firstBytes str] := by
    rw [List.rtake_concat_succ, List.map_append]
    rfl
  by_cases hroom : strs.length < 20
  · have hlt : t.historyLines < 20 := by omega
    obtain ⟨hadd, hcount⟩ := addToHistory_of_lt hlt str
    -- all the lines before are among the last 19
    refine ⟨?_, by rw [hcount, List.length_append, List.length_singleton]; omega⟩
    rw [hadd, hlast, h.lines_eq, List.rtake, List.rtake, Nat.sub_eq_zero_of_le hroom.le,
      Nat.sub_eq_zero_of_le (Nat.le_of_lt_succ hroom)]
  · have hfull : t.historyLines = 20 := by omega
    obtain ⟨hadd, hcount⟩ := addToHistory_of_full hfull str
    refine ⟨?_, by rw [hcount, List.length_append, List.length_singleton]; omega⟩
    rw [hadd, hlast, h.lines_eq, List.rtake, List.rtake, ← List.map_tail, List.tail_drop]
    congr 3
    omega

/-- **The history, over every run** of `add_to_history` after `shell_init`: there are as many lines
as were added, but at most twenty, and they are the first 80 bytes of each of the last twenty,
oldest first. -/
theorem history_holds_last_lines (s : Shell M D) (strs : List (ℕ → U8)) :
    Holds (strs.foldl addToHistory (shellInit s).terminal) strs := by
  induction strs using List.reverseRecOn with
  | nil => exact ⟨rfl, rfl⟩
  | append_singleton strs str ih =>
    rw [List.foldl_append]
    exact ih.add str

end Runs

/-! ## The rows in memory -/

section Memory

/-- The address of `terminal_history[i]`. -/
def rowAddr (base : U64) (i : ℕ) : U64 := base + BitVec.ofNat 64 (80 * i)

/-- The rows of the array at an address. -/
def rowsAt (base : U64) (m : Ram 64) : Fin 20 → Fin 80 → U8 := fun i j =>
  m.bytes (rowAddr base i + BitVec.ofNat 64 j)

/-- `add_to_history`, with `history_lines` and the bytes of memory. -/
def addToHistoryAt (base : U64) (lines : ℕ) (m : Ram 64) (str : U64) : ℕ × Ram 64 :=
  if lines < 20 then (lines + 1, memcpy (rowAddr base lines) str 80 m)
  else
    let m := (List.range 19).foldl
      (fun m i => memcpy (rowAddr base i) (rowAddr base (i + 1)) 80 m) m
    (lines, memcpy (rowAddr base 19) str 80 m)

/-- A source that is not in the array. -/
def ApartFrom (base str : U64) : Prop :=
  ∀ k < 80, ∀ b < 1600, str + BitVec.ofNat 64 k ≠ base + BitVec.ofNat 64 b

variable {base src : U64} {m : Ram 64}

theorem rowAddr_add (base : U64) (k j : ℕ) :
    rowAddr base k + BitVec.ofNat 64 j = base + BitVec.ofNat 64 (80 * k + j) := by
  rw [rowAddr, BitVec.add_assoc, BitVec.ofNat_add]

/-- The rows do not meet. -/
theorem toNat_sub_rowAddr (base : U64) {i k j : ℕ} (hi : i < 20) (hk : k < 20) (hj : j < 80) :
    (rowAddr base k + BitVec.ofNat 64 j - rowAddr base i).toNat < 80 ↔ k = i := by
  constructor
  · intro hlt
    have haddr := add_ofNat_toNat_sub (rowAddr base i) (rowAddr base k + BitVec.ofNat 64 j)
    generalize (rowAddr base k + BitVec.ofNat 64 j - rowAddr base i).toNat = off at hlt haddr
    rw [rowAddr_add, rowAddr_add] at haddr
    have hoff := congrArg BitVec.toNat (BitVec.add_right_inj _ |>.mp haddr)
    rw [BitVec.toNat_ofNat, BitVec.toNat_ofNat, Nat.mod_eq_of_lt (by omega),
      Nat.mod_eq_of_lt (by omega)] at hoff
    omega
  · rintro rfl
    rw [toNat_add_sub (by omega)]
    exact hj

/-- **A row is written** by `memcpy` from a source that does not meet it. -/
theorem rowsAt_memcpy {i : Fin 20}
    (hapart : ∀ t < 80, ∀ u < 80, src + BitVec.ofNat 64 t ≠ rowAddr base i + BitVec.ofNat 64 u) :
    rowsAt base (memcpy (rowAddr base i) src 80 m) =
      Function.update (rowsAt base m) i fun j => m.bytes (src + BitVec.ofNat 64 j) := by
  have hcopy : memcpy (rowAddr base i) src 80 m =
      m.fill (rowAddr base i) 80 fun t => m.bytes (src + BitVec.ofNat 64 t) :=
    memcpy_eq_fill (n := 80) hapart m
  funext k j
  rw [hcopy, rowsAt, Function.update_apply]
  split_ifs with hki
  · rw [hki, Ram.bytes_fill_of_lt (by rw [toNat_add_sub (by omega)]; exact j.isLt),
      toNat_add_sub (by omega)]
  · rw [Ram.bytes_fill_of_not_lt]
    · rfl
    · rw [toNat_sub_rowAddr base i.isLt k.isLt j.isLt]
      exact fun h => hki (Fin.ext h)

theorem row_apart {i : ℕ} (hi : i + 1 < 20) : ∀ t < 80, ∀ u < 80,
    rowAddr base (i + 1) + BitVec.ofNat 64 t ≠ rowAddr base i + BitVec.ofNat 64 u := by
  intro t ht u hu heq
  have hmeet := toNat_sub_rowAddr base (Nat.lt_of_succ_lt hi) hi ht
  rw [heq, toNat_add_sub (by omega)] at hmeet
  exact Nat.succ_ne_self i (hmeet.mp hu)

/-- A row moves up. -/
theorem rowsAt_memcpy_row {i : ℕ} (hi : i + 1 < 20) :
    rowsAt base (memcpy (rowAddr base i) (rowAddr base (i + 1)) 80 m) =
      shiftRow (rowsAt base m) i := by
  rw [shiftRow, dif_pos hi]
  exact rowsAt_memcpy (i := ⟨i, Nat.lt_of_succ_lt hi⟩) (row_apart hi)

/-- No row meets the source. -/
theorem ApartFrom.row {str : U64} (h : ApartFrom base str) {i : ℕ} (hi : i < 20) :
    ∀ t < 80, ∀ u < 80, str + BitVec.ofNat 64 t ≠ rowAddr base i + BitVec.ofNat 64 u := by
  intro t ht u hu
  rw [rowAddr_add]
  exact h t ht _ (by omega)

/-- The rows that move up leave the source alone. -/
theorem ApartFrom.bytes_memcpy {str : U64} (h : ApartFrom base str) {i : ℕ} (hi : i + 1 < 20)
    {k : ℕ} (hk : k < 80) :
    (memcpy (rowAddr base i) (rowAddr base (i + 1)) 80 m).bytes (str + BitVec.ofNat 64 k) =
      m.bytes (str + BitVec.ofNat 64 k) := by
  rw [memcpy_eq_fill (n := 80) (row_apart hi)]
  refine Ram.bytes_fill_of_not_lt fun hlt => ?_
  exact h.row (Nat.lt_of_succ_lt hi) k hk _ hlt (add_ofNat_toNat_sub _ _).symm

/-- The rows move up, and the source stays. -/
theorem foldl_memcpy_row {str : U64} (h : ApartFrom base str) {k : ℕ} (hk : k ≤ 19) (m : Ram 64) :
    let m' := (List.range k).foldl
      (fun m i => memcpy (rowAddr base i) (rowAddr base (i + 1)) 80 m) m
    rowsAt base m' = (List.range k).foldl shiftRow (rowsAt base m) ∧
      ∀ j < 80, m'.bytes (str + BitVec.ofNat 64 j) = m.bytes (str + BitVec.ofNat 64 j) := by
  induction k with
  | zero => exact ⟨rfl, fun _ _ => rfl⟩
  | succ k ih =>
    obtain ⟨hrows, hbytes⟩ := ih (by omega)
    rw [List.range_succ, List.foldl_append, List.foldl_append]
    exact ⟨(rowsAt_memcpy_row (by omega)).trans (by rw [hrows]; rfl),
      fun j hj => (h.bytes_memcpy (by omega) hj).trans (hbytes j hj)⟩

/-- **In memory, the rows are those of `addToHistory`**, if the source is not in the array. -/
theorem rowsAt_addToHistoryAt {M D : Type} {t : Terminal M D} {str : U64}
    (hrows : t.terminalHistory = rowsAt base m) (hstr : ApartFrom base str) :
    (addToHistoryAt base t.historyLines m str).1 =
        (addToHistory t fun j => m.bytes (str + BitVec.ofNat 64 j)).historyLines ∧
      rowsAt base (addToHistoryAt base t.historyLines m str).2 =
        (addToHistory t fun j => m.bytes (str + BitVec.ofNat 64 j)).terminalHistory := by
  rw [addToHistoryAt, addToHistory]
  split_ifs with hroom
  · refine ⟨rfl, ?_⟩
    rw [hrows]
    exact rowsAt_memcpy (i := ⟨t.historyLines, hroom⟩) (hstr.row hroom)
  · -- the source is read after the rows have moved
    obtain ⟨hmoved, hbytes⟩ := foldl_memcpy_row hstr le_rfl m
    refine ⟨rfl, (rowsAt_memcpy (i := 19) (hstr.row (by decide))).trans ?_⟩
    funext i
    rw [Function.update_apply, hmoved, ← hrows]
    refine if_congr Fin.ext_iff ?_ rfl
    funext j
    exact hbytes j j.isLt

end Memory

end OS44
