import Mathlib.Data.List.GetD
import Mathlib.Data.List.Nodup
import OS44.Framebuffer.Screen

/-! # Reading a text off the screen (`framebuffer.c`)

No two characters have the same glyph, so that a text in two different colours can be read back cell
by cell (`readText_drawTexts`): what was drawn, a question mark for a character without a glyph, and
spaces where nothing was drawn on the background. -/

namespace OS44

/-! ## Characters -/

/-- The character whose glyph is drawn. -/
def shownChar (c : U8) : U8 := if c.toInt < 32 ∨ 126 < c.toInt then 63 else c

/-- The font has a glyph for the character. -/
def HasGlyph (c : U8) : Prop := 32 ≤ c ∧ c ≤ 126

instance (c : U8) : Decidable (HasGlyph c) := inferInstanceAs (Decidable (_ ∧ _))

/-- The characters with a glyph. -/
def printable : List U8 := (List.range 95).map fun i => BitVec.ofNat 8 (32 + i)

/-- A cell of 8 times 8 pixels shows a character. -/
def Screen.ShowsChar (scr : Screen) (c : U8) (x y : U64) (fg bg : U32) : Prop :=
  ∀ row < 8, ∀ col < 8,
    scr (x + BitVec.ofNat 64 col) (y + BitVec.ofNat 64 row) = glyphColor c fg bg row col

instance (scr : Screen) (c : U8) (x y : U64) (fg bg : U32) :
    Decidable (scr.ShowsChar c x y fg bg) :=
  inferInstanceAs (Decidable (∀ row < 8, ∀ col < 8, _))

/-- The character that a cell shows. -/
def Screen.readChar (scr : Screen) (x y : U64) (fg bg : U32) : Option U8 :=
  printable.find? fun c => scr.ShowsChar c x y fg bg

/-- The characters of `n` cells side by side. -/
def Screen.readText (scr : Screen) (n : ℕ) (x y : U64) (fg bg : U32) : List (Option U8) :=
  (List.range n).map fun i => scr.readChar (x + BitVec.ofNat 64 (8 * i)) y fg bg

variable {scr : Screen} {c : U8} {x y u v : U64} {fg bg color : U32} {n : ℕ} {str : List U8}

theorem mem_printable_iff : c ∈ printable ↔ HasGlyph c := by
  have hlo : (32 : U8).toNat = 32 := rfl
  have hhi : (126 : U8).toNat = 126 := rfl
  unfold HasGlyph
  rw [BitVec.le_def, BitVec.le_def, hlo, hhi]
  constructor
  · intro h
    obtain ⟨i, hi, rfl⟩ := List.mem_map.mp h
    have hi := List.mem_range.mp hi
    rw [BitVec.toNat_ofNat, Nat.mod_eq_of_lt (by omega)]
    omega
  · intro h
    refine List.mem_map.mpr ⟨c.toNat - 32, List.mem_range.mpr (by omega), ?_⟩
    rw [Nat.add_sub_cancel' h.1, BitVec.ofNat_toNat, BitVec.setWidth_eq]

theorem hasGlyph_iff_toInt : HasGlyph c ↔ ¬ (c.toInt < 32 ∨ 126 < c.toInt) := by
  have hlo : (32 : U8).toNat = 32 := rfl
  have hhi : (126 : U8).toNat = 126 := rfl
  have hlt := c.isLt
  unfold HasGlyph
  rw [BitVec.le_def, BitVec.le_def, hlo, hhi, BitVec.toInt_eq_toNat_cond]
  split_ifs <;> omega

theorem shownChar_of_hasGlyph (h : HasGlyph c) : shownChar c = c :=
  if_neg (hasGlyph_iff_toInt.mp h)

theorem shownChar_mem_printable (c : U8) : shownChar c ∈ printable := by
  rw [mem_printable_iff]
  by_cases h : HasGlyph c
  · rwa [shownChar_of_hasGlyph h]
  · have hmark : shownChar c = 63 := if_pos (not_not.mp fun hc => h (hasGlyph_iff_toInt.mpr hc))
    rw [hmark]
    decide

@[simp] theorem glyph_shownChar (c : U8) : glyph (shownChar c) = glyph c := by
  unfold glyph shownChar
  split_ifs <;> rfl

/-- The characters with a glyph have those of the font, in order. -/
theorem map_glyph_printable : printable.map glyph = font := by
  have hlength : font.length = 95 := rfl
  refine List.ext_getElem (by simp [printable, hlength]) fun i hi hi' => ?_
  have hc : BitVec.ofNat 8 (32 + i) ∈ printable :=
    List.mem_map.mpr ⟨i, List.mem_range.mpr (hlength ▸ hi'), rfl⟩
  have hshown := shownChar_of_hasGlyph (mem_printable_iff.mp hc)
  unfold shownChar at hshown
  simp only [printable, List.map_map, List.getElem_map, List.getElem_range, Function.comp_apply,
    glyph, hshown]
  rw [BitVec.toNat_ofNat, Nat.mod_eq_of_lt (by omega), Nat.add_sub_cancel_left,
    List.getD_eq_getElem _ _ hi']

/-- The rows of a glyph as one number. -/
def glyphCode (rows : List U8) : ℕ := rows.foldl (fun n row => 256 * n + row.toNat) 0

/-- **No two characters have the same glyph.** -/
theorem glyph_injOn {c d : U8} (hc : c ∈ printable) (hd : d ∈ printable) (h : glyph c = glyph d) :
    c = d := by
  have hcodes : (font.map glyphCode).Nodup := by decide +kernel
  have hnodup : (printable.map glyph).Nodup := by
    rw [map_glyph_printable]
    exact hcodes.of_map
  exact List.inj_on_of_nodup_map hnodup hc hd h

theorem length_glyph (c : U8) : (glyph c).length = 8 := by
  have hall : ∀ rows ∈ font, rows.length = 8 := by decide
  rw [← glyph_shownChar]
  apply hall
  rw [← map_glyph_printable]
  exact List.mem_map_of_mem (shownChar_mem_printable c)

/-- A bit of a row. -/
theorem and_bit_ne_zero_iff (b : U8) {i : ℕ} (hi : i < 8) :
    b &&& ((1 <<< i : ℕ) : U8) ≠ 0 ↔ b.getLsbD i = true := by
  have hbit : ∀ j < 8,
      (b &&& ((1 <<< i : ℕ) : U8)).getLsbD j = (b.getLsbD j && decide (i = j)) := by
    intro j hj
    rw [BitVec.getLsbD_and, BitVec.natCast_eq_ofNat, BitVec.getLsbD_ofNat, Nat.one_shiftLeft,
      Nat.testBit_two_pow, decide_eq_true hj, Bool.true_and]
  constructor
  · intro h
    by_contra hb
    refine h (BitVec.eq_of_getLsbD_eq fun j hj => ?_)
    by_cases hij : i = j
    · subst hij
      rw [hbit i hi, Bool.eq_false_of_not_eq_true hb, Bool.false_and]
      simp
    · rw [hbit j hj, decide_eq_false hij, Bool.and_false]
      simp
  · intro h hzero
    have hone := hbit i hi
    rw [hzero, h] at hone
    simp at hone

/-- The colours of a cell give the glyph away. -/
theorem glyph_eq_of_glyphColor {c d : U8} (hne : fg ≠ bg)
    (h : ∀ row < 8, ∀ col < 8, glyphColor c fg bg row col = glyphColor d fg bg row col) :
    glyph c = glyph d := by
  refine List.ext_getElem ((length_glyph c).trans (length_glyph d).symm) fun row hc hd => ?_
  have hrow : row < 8 := length_glyph c ▸ hc
  refine BitVec.eq_of_getLsbD_eq fun col hcol => ?_
  have hcolor := h row hrow col hcol
  unfold glyphColor at hcolor
  rw [List.getD_eq_getElem _ _ hc, List.getD_eq_getElem _ _ hd] at hcolor
  simp only [and_bit_ne_zero_iff _ hcol] at hcolor
  split_ifs at hcolor with h₁ h₂ h₂
  · rw [h₁, h₂]
  · exact absurd hcolor hne
  · exact absurd hcolor.symm hne
  · rw [Bool.eq_false_of_not_eq_true h₁, Bool.eq_false_of_not_eq_true h₂]

/-- **A cell is read as the character it shows.** -/
theorem readChar_of_showsChar (hne : fg ≠ bg) (h : scr.ShowsChar c x y fg bg) :
    scr.readChar x y fg bg = some (shownChar c) := by
  have hshown : scr.ShowsChar (shownChar c) x y fg bg := fun row hrow col hcol => by
    rw [h row hrow col hcol]
    unfold glyphColor
    rw [glyph_shownChar]
  have hsome : (scr.readChar x y fg bg).isSome :=
    List.find?_isSome.mpr ⟨_, shownChar_mem_printable c, decide_eq_true hshown⟩
  obtain ⟨d, hd⟩ := Option.isSome_iff_exists.mp hsome
  have hshows : scr.ShowsChar d x y fg bg := 
    of_decide_eq_true (@List.find?_some _ (fun c => decide (scr.ShowsChar c x y fg bg)) _ _ hd)
  have heq : d = shownChar c := glyph_injOn (List.mem_of_find?_eq_some hd)
    (shownChar_mem_printable c) (glyph_eq_of_glyphColor hne fun row hrow col hcol =>
      (hshows row hrow col hcol).symm.trans (hshown row hrow col hcol))
  rw [hd, heq]

/-! ## What a string draws -/

/-- Where all pixels put at a coordinate have one colour, that is the colour there, if one is put or
it was there before. -/
theorem Screen.foldl_plot_of_forall {l : List Pixel}
    (hl : ∀ p ∈ l, u = p.x ∧ v = p.y → p.color = color)
    (h : scr u v = color ∨ ∃ p ∈ l, u = p.x ∧ v = p.y) :
    l.foldl Screen.plot scr u v = color := by
  induction l generalizing scr with
  | nil => exact h.resolve_right (by rintro ⟨p, hp, -⟩; cases hp)
  | cons q l ih =>
    refine ih (fun p hp => hl p (List.mem_cons_of_mem q hp)) ?_
    rw [Screen.plot]
    split_ifs with hq
    · exact .inl (hl q List.mem_cons_self hq)
    · refine h.imp id ?_
      rintro ⟨p, hp, hpq⟩
      obtain rfl | hp := List.mem_cons.mp hp
      · exact absurd hpq hq
      · exact ⟨p, hp, hpq⟩

/-- The coordinate is in `n` cells side by side. -/
def InCells (n : ℕ) (x y u v : U64) : Prop := (u - x).toNat < 8 * n ∧ (v - y).toNat < 8

instance (n : ℕ) (x y u v : U64) : Decidable (InCells n x y u v) :=
  inferInstanceAs (Decidable (_ ∧ _))

/-- **A character covers its cell.** -/
theorem foldl_plot_charPixels (scr : Screen) (c : U8) (x y : U64) (fg bg : U32) (u v : U64) :
    (charPixels c x y fg bg).foldl Screen.plot scr u v =
      if (u - x).toNat < 8 ∧ (v - y).toNat < 8 then
        glyphColor c fg bg (v - y).toNat (u - x).toNat
      else scr u v := by
  have hmem : ∀ p ∈ charPixels c x y fg bg, u = p.x ∧ v = p.y →
      ((u - x).toNat < 8 ∧ (v - y).toNat < 8) ∧
        p.color = glyphColor c fg bg (v - y).toNat (u - x).toNat := by
    intro p hp
    obtain ⟨row, hrow, hp⟩ := List.mem_flatMap.mp hp
    obtain ⟨col, hcol, rfl⟩ := List.mem_map.mp hp
    rintro ⟨rfl, rfl⟩
    have hrow := List.mem_range.mp hrow
    have hcol := List.mem_range.mp hcol
    have hx : (x + BitVec.ofNat 64 col - x).toNat = col := by bv_omega
    have hy : (y + BitVec.ofNat 64 row - y).toNat = row := by bv_omega
    rw [hx, hy]
    exact ⟨⟨hcol, hrow⟩, rfl⟩
  split_ifs with hin
  · refine Screen.foldl_plot_of_forall (fun p hp hat => (hmem p hp hat).2) (.inr ?_)
    refine ⟨⟨x + BitVec.ofNat 64 (u - x).toNat, y + BitVec.ofNat 64 (v - y).toNat, _⟩,
      List.mem_flatMap.mpr ⟨_, List.mem_range.mpr hin.2,
        List.mem_map.mpr ⟨_, List.mem_range.mpr hin.1, rfl⟩⟩, ?_, ?_⟩
    · show u = x + BitVec.ofNat 64 (u - x).toNat
      bv_omega
    · show v = y + BitVec.ofNat 64 (v - y).toNat
      bv_omega
  · exact Screen.foldl_plot_of_forall (fun p hp hat => absurd (hmem p hp hat).1 hin) (.inl rfl)

/-- **A string covers its cells.** -/
theorem foldl_plot_stringPixels (hlen : 8 * (str.takeWhile (· ≠ 0)).length ≤ 2 ^ 64) (scr : Screen)
    (x y : U64) (fg bg : U32) (u v : U64) :
    (stringPixels str x y fg bg).foldl Screen.plot scr u v =
      if (u - x).toNat < 8 * (str.takeWhile (· ≠ 0)).length ∧ (v - y).toNat < 8 then
        glyphColor ((str.takeWhile (· ≠ 0)).getD ((u - x).toNat / 8) 0) fg bg (v - y).toNat
          ((u - x).toNat % 8)
      else scr u v := by
  induction str generalizing x scr with
  | nil => exact (if_neg fun h => absurd h.1 (Nat.not_lt_zero _)).symm
  | cons c str ih =>
    rw [stringPixels]
    by_cases hnul : c = 0
    · have htext : (c :: str).takeWhile (· ≠ 0) = [] := List.takeWhile_cons_of_neg (by simp [hnul])
      rw [if_pos hnul, htext]
      exact (if_neg fun h => absurd h.1 (Nat.not_lt_zero _)).symm
    · have htext : (c :: str).takeWhile (· ≠ 0) = c :: str.takeWhile (· ≠ 0) :=
        List.takeWhile_cons_of_pos (decide_eq_true hnul)
      rw [htext, List.length_cons] at hlen
      rw [if_neg hnul, List.foldl_append, ih (by omega), foldl_plot_charPixels, htext,
        List.length_cons]
      -- the distance from the next cell
      have hnext : (u - (x + 8)).toNat =
          if 8 ≤ (u - x).toNat then (u - x).toNat - 8 else (u - x).toNat + (2 ^ 64 - 8) := by
        split_ifs <;> bv_omega
      by_cases hfirst : (u - x).toNat < 8
      · rw [if_neg (by omega)] at hnext
        rw [if_neg (by omega), Nat.div_eq_of_lt hfirst, Nat.mod_eq_of_lt hfirst,
          List.getD_cons_zero]
        exact if_congr (by omega) rfl rfl
      · rw [if_pos (by omega)] at hnext
        have hdiv : (u - x).toNat / 8 = ((u - x).toNat - 8) / 8 + 1 := by omega
        have hmod : (u - x).toNat % 8 = ((u - x).toNat - 8) % 8 := by omega
        have hcell : ¬ ((u - x).toNat < 8 ∧ (v - y).toNat < 8) := fun h => hfirst h.1
        rw [hnext, hdiv, hmod, List.getD_cons_succ, if_neg hcell]
        exact if_congr (by omega) rfl rfl

/-! ## A page of texts -/

/-- A text at a place. -/
structure PlacedText where
  str : List U8
  x : U64
  y : U64
  fg : U32

/-- The characters that are drawn. -/
def PlacedText.text (t : PlacedText) : List U8 := t.str.takeWhile (· ≠ 0)

/-- The call that draws the text. -/
def PlacedText.call (bg : U32) (t : PlacedText) : DrawCall := .drawString t.str t.x t.y t.fg bg

/-- The colour that the text gives to a coordinate of its cells. -/
def PlacedText.colorAt (t : PlacedText) (bg : U32) (u v : U64) : U32 :=
  glyphColor (t.text.getD ((u - t.x).toNat / 8) 0) t.fg bg (v - t.y).toNat ((u - t.x).toNat % 8)

/-- The coordinate is in the cells of the text. -/
def PlacedText.Covers (t : PlacedText) (u v : U64) : Prop := InCells t.text.length t.x t.y u v

instance (t : PlacedText) (u v : U64) : Decidable (t.Covers u v) :=
  inferInstanceAs (Decidable (InCells ..))

/-- What `n` cells show of a text: a question mark for a character without a glyph, and spaces
behind the text. -/
def shownText (n : ℕ) (str : List U8) : List (Option U8) :=
  (List.range n).map fun i => some (shownChar (str.getD i 32))

section Page

variable {s : Fb} {t : PlacedText} {ts : List PlacedText}

theorem draw_call_at (hlen : 8 * t.text.length ≤ 2 ^ 64) (scr : Screen) (bg : U32) (u v : U64) :
    scr.draw s (t.call bg) u v = if t.Covers u v then t.colorAt bg u v else scr u v :=
  foldl_plot_stringPixels hlen scr t.x t.y t.fg bg u v

/-- **The screen under a list of texts**, at a coordinate that only one of them may cover. -/
theorem drawTexts_at (hlen : 8 * t.text.length ≤ 2 ^ 64) (hmem : t ∈ ts)
    (hother : ∀ r ∈ ts, r = t ∨ 8 * r.text.length ≤ 2 ^ 64 ∧ ¬ r.Covers u v) (hbg : scr u v = bg) :
    (ts.map (PlacedText.call bg)).foldl (Screen.draw s) scr u v =
      if t.Covers u v then t.colorAt bg u v else bg := by
  generalize hcolor : (if t.Covers u v then t.colorAt bg u v else bg) = color
  -- either the text is there, or it will be drawn on the background
  have h : scr u v = color ∨ scr u v = bg ∧ t ∈ ts := .inr ⟨hbg, hmem⟩
  clear hbg hmem
  induction ts generalizing scr with
  | nil => exact h.resolve_right fun hc => absurd hc.2 List.not_mem_nil
  | cons r ts ih =>
    refine ih (fun q hq => hother q (List.mem_cons_of_mem r hq)) ?_
    by_cases hrt : r = t
    · subst hrt
      rw [draw_call_at hlen, ← hcolor]
      split_ifs at hcolor ⊢ with hin
      · exact .inl rfl
      · exact .inl (h.elim (fun h => h.trans hcolor.symm) fun h => h.1)
    · obtain ⟨hr, hout⟩ := (hother r List.mem_cons_self).resolve_left hrt
      rw [draw_call_at hr, if_neg hout]
      refine h.imp id (And.imp_right fun hmem => ?_)
      exact (List.mem_cons.mp hmem).resolve_left fun heq => hrt heq.symm

/-- A space is background. -/
theorem glyphColor_space (fg bg : U32) {row : ℕ} (hrow : row < 8) (col : ℕ) :
    glyphColor 32 fg bg row col = bg := by
  have hzero : (glyph 32).getD row 0 = 0 := by
    revert row
    decide
  unfold glyphColor
  rw [hzero]
  simp

/-- **A text of a page is read back**: its cells, and those behind it up to the `n`-th, where the
other texts do not reach. -/
theorem readText_drawTexts (hne : t.fg ≠ bg) (hn : 8 * n ≤ 2 ^ 64) (hfits : t.text.length ≤ n)
    (hmem : t ∈ ts) (hother : ∀ r ∈ ts, r = t ∨ 8 * r.text.length ≤ 2 ^ 64 ∧
      ∀ u v, InCells n t.x t.y u v → ¬ r.Covers u v)
    (hbg : ∀ u v, InCells n t.x t.y u v → scr u v = bg) :
    ((ts.map (PlacedText.call bg)).foldl (Screen.draw s) scr).readText n t.x t.y t.fg bg =
      shownText n t.text := by
  refine List.map_congr_left fun i hi => readChar_of_showsChar hne fun row hrow col hcol => ?_
  have hi := List.mem_range.mp hi
  -- the coordinate, and where it is
  generalize hu : t.x + BitVec.ofNat 64 (8 * i) + BitVec.ofNat 64 col = u
  generalize hv : t.y + BitVec.ofNat 64 row = v
  have hdx : (u - t.x).toNat = 8 * i + col := by
    rw [← hu]
    bv_omega
  have hdy : (v - t.y).toNat = row := by
    rw [← hv]
    bv_omega
  have hin : InCells n t.x t.y u v := ⟨by omega, by omega⟩
  rw [drawTexts_at (by omega) hmem (fun r hr => (hother r hr).imp_right
    fun h => ⟨h.1, h.2 u v hin⟩) (hbg u v hin)]
  by_cases hlt : i < t.text.length
  · have hdiv : (8 * i + col) / 8 = i := by omega
    have hmod : (8 * i + col) % 8 = col := by omega
    rw [if_pos ⟨by omega, by omega⟩, PlacedText.colorAt, hdx, hdy, hdiv, hmod,
      List.getD_eq_getElem _ _ hlt, List.getD_eq_getElem _ _ hlt]
  · have hout : ¬ t.Covers u v := fun h => by
      have := h.1
      omega
    rw [if_neg hout, List.getD_eq_default _ _ (by omega), glyphColor_space _ _ hrow]

/-- Where all characters have glyphs, the cells show the text and spaces. -/
theorem shownText_eq (hfits : str.length ≤ n) (hstr : ∀ c ∈ str, HasGlyph c) :
    shownText n str = str.map some ++ List.replicate (n - str.length) (some 32) := by
  have hspace : shownChar 32 = 32 := by decide
  refine List.ext_getElem (by simp [shownText]; omega) fun i hi hi' => ?_
  simp only [shownText, List.getElem_map, List.getElem_range]
  by_cases hlt : i < str.length
  · rw [List.getElem_append_left (by simpa using hlt), List.getElem_map,
      List.getD_eq_getElem _ _ hlt, shownChar_of_hasGlyph (hstr _ (List.getElem_mem hlt))]
  · rw [List.getElem_append_right (by simpa using hlt), List.getElem_replicate,
      List.getD_eq_default _ _ (by omega), hspace]

/-- What is read depends on the cells only. -/
theorem readText_congr {scr scr' : Screen} (hn : 8 * n ≤ 2 ^ 64)
    (h : ∀ u v, InCells n x y u v → scr u v = scr' u v) :
    scr.readText n x y fg bg = scr'.readText n x y fg bg := by
  refine List.map_congr_left fun i hi => ?_
  have hi := List.mem_range.mp hi
  have hshows : ∀ c, scr.ShowsChar c (x + BitVec.ofNat 64 (8 * i)) y fg bg ↔
      scr'.ShowsChar c (x + BitVec.ofNat 64 (8 * i)) y fg bg := by
    intro c
    refine forall₄_congr fun row hrow col hcol => ?_
    rw [h]
    constructor <;> bv_omega
  unfold Screen.readChar
  simp only [hshows]

end Page

end OS44
