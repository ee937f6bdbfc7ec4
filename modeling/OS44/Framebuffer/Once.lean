import Mathlib.Algebra.Order.Ring.Abs
import Mathlib.Data.List.Nodup
import Mathlib.Data.List.ProdSigma
import OS44.Framebuffer.Screen

/-! # Every pixel once

The colour bar and the circle compute their pixels by loops whose bounds are clipped, rounded and
wrapped around. What the loops put comes out as a region of the screen, each pixel of it stored once
and no other: the rows of the bar (`fb_draw_color_bar_once`), and the disc, for every radius but 0
(`fb_draw_filled_circle_iff`). -/

namespace OS44

open LittleEndian

variable {s : Fb} {m : Ram 64} {x y x0 y0 height radius : U64} {rows : List U64}

/-! ## The stores of a list of pixels -/

instance (s : Fb) (x y : U64) : Decidable (s.Visible x y) := inferInstanceAs (Decidable (_ ∧ _))

/-- The pixels that are not clipped. -/
def Fb.clipped (s : Fb) (l : List Pixel) : List Pixel := l.filter fun p => s.Visible p.x p.y

/-- The store of a pixel on the screen. -/
def storePixel (s : Fb) (m : Ram 64) (p : Pixel) : Ram 64 :=
  m.store (s.pixelAddr s.target p.x p.y) 4 p.color.toNat

/-- Row and column of a pixel. -/
def Pixel.coord (p : Pixel) : U64 × U64 := (p.y, p.x)

/-- **Each pixel of a region is stored once**, and no other: the pixels stored have different
coordinates, and these are the region. -/
structure StoresOnce (s : Fb) (l : List Pixel) (R : U64 → U64 → Prop) : Prop where
  nodup : ((s.clipped l).map Pixel.coord).Nodup
  mem_iff : ∀ x y, (y, x) ∈ (s.clipped l).map Pixel.coord ↔ R x y

/-- Putting pixels stores those that are not clipped. -/
theorem foldl_plot_eq (l : List Pixel) (m : Ram 64) :
    l.foldl (plot s) m = (s.clipped l).foldl (storePixel s) m := by
  induction l generalizing m with
  | nil => rfl
  | cons p l ih =>
    rw [List.foldl_cons, ih, Fb.clipped, Fb.clipped, List.filter_cons]
    by_cases hp : s.Visible p.x p.y
    · rw [decide_eq_true hp, if_pos rfl, List.foldl_cons]
      congr 1
      apply if_neg
      intro hclip
      exact hclip.elim (BitVec.not_le.mpr hp.1) (BitVec.not_le.mpr hp.2)
    · rw [decide_eq_false hp, if_neg Bool.false_ne_true]
      congr 1
      refine if_pos (not_and_or.mp hp |>.imp ?_ ?_) <;> exact BitVec.not_lt.mp

/-! ## The bar -/

theorem mem_forRange {lo hi : ℕ} (hhi : hi ≤ 2 ^ 64) {v : U64} :
    v ∈ forRange lo hi ↔ lo ≤ v.toNat ∧ v.toNat < hi := by
  rw [forRange, List.mem_map]
  constructor
  · rintro ⟨k, hk, rfl⟩
    have := List.mem_range'_1.mp hk
    rw [BitVec.toNat_ofNat]
    omega
  · rintro ⟨hlo, hlt⟩
    exact ⟨v.toNat, List.mem_range'_1.mpr ⟨hlo, by omega⟩, by
      rw [BitVec.ofNat_toNat, BitVec.setWidth_eq]⟩

theorem nodup_forRange {lo hi : ℕ} (hhi : hi ≤ 2 ^ 64) : (forRange lo hi).Nodup := by
  refine List.Nodup.map_on (fun a ha b hb heq => ?_) (List.nodup_range')
  have := List.mem_range'_1.mp ha
  have := List.mem_range'_1.mp hb
  have hnat := congrArg BitVec.toNat heq
  rw [BitVec.toNat_ofNat, BitVec.toNat_ofNat] at hnat
  omega

/-- A loop that stops at `mid` or before, and the loop that goes on from there. -/
theorem forRange_append {lo mid hi : ℕ} (h : lo ≤ mid) :
    forRange lo (min mid hi) ++ forRange mid hi = forRange lo hi := by
  rcases le_total mid hi with hle | hle
  · rw [min_eq_left hle, forRange, forRange, forRange, ← List.map_append]
    congr 1
    have hsplit : hi - lo = mid - lo + (hi - mid) := by omega
    have hmid : mid = lo + (mid - lo) := by omega
    rw [hsplit, ← List.range'_append_1, ← hmid]
  · have hempty : forRange mid hi = [] := by
      rw [forRange, Nat.sub_eq_zero_of_le hle]
      rfl
    rw [min_eq_right hle, hempty, List.append_nil]

/-- The coordinates of rows are those of a rectangle, whatever the colours. -/
theorem coord_rowPixels (s : Fb) (rows : List U64) (color : U64 → U32) :
    (rowPixels s rows color).map Pixel.coord = rows ×ˢ forRange 0 s.screenW.toNat := by
  rw [rowPixels, List.map_flatMap]
  simp only [List.map_map]
  rfl

/-- **The bands tile the bar**: the rows of the three loops are those from `y` to the bottom, each
once, however the height is divided. -/
theorem coord_barPixels (h0 : height ≠ 0) (hsum : y.toNat + height.toNat ≤ 2 ^ 63) :
    (barPixels s y height).map Pixel.coord =
      forRange y.toNat (barBottom s y height).toNat ×ˢ forRange 0 s.screenW.toNat := by
  have hpos : 0 < height.toNat := Nat.pos_of_ne_zero fun h => h0 (BitVec.eq_of_toNat_eq h)
  have hthree : (height / 3).toNat = height.toNat / 3 := BitVec.toNat_udiv
  have hthird : 1 ≤ (barThird height).toNat ∧ (barThird height).toNat ≤ height.toNat / 3 + 1 := by
    rw [barThird]
    split_ifs with hzero
    · exact ⟨le_rfl, Nat.le_add_left 1 _⟩
    · have : (height / 3).toNat ≠ 0 := fun h => hzero (BitVec.eq_of_toNat_eq h)
      omega
  -- no band starts beyond the address range of a row
  have hmid : (y + barThird height).toNat = y.toNat + (barThird height).toNat := by
    rw [BitVec.toNat_add, Nat.mod_eq_of_lt (by omega)]
  have hhue : (y + barThird height + barThird height).toNat =
      y.toNat + (barThird height).toNat + (barThird height).toNat := by
    rw [BitVec.toNat_add, hmid, Nat.mod_eq_of_lt (by omega)]
  rw [barPixels, if_neg h0]
  dsimp only
  rw [List.map_append, List.map_append, coord_rowPixels, coord_rowPixels, coord_rowPixels,
    hmid, hhue, List.append_assoc]
  have hproduct : ∀ a b c : List U64, a ×ˢ c ++ b ×ˢ c = (a ++ b) ×ˢ c := fun a b c =>
    List.flatMap_append.symm
  rw [hproduct, hproduct, forRange_append (by omega), forRange_append (by omega)]

theorem toNat_barBottom (hsum : y.toNat + height.toNat ≤ 2 ^ 63) :
    (barBottom s y height).toNat = min (y.toNat + height.toNat) s.screenH.toNat := by
  have hadd : (y + height).toNat = y.toNat + height.toNat := by
    rw [BitVec.toNat_add, Nat.mod_eq_of_lt (by omega)]
  rw [barBottom]
  split_ifs with hlt
  · rw [BitVec.lt_def, hadd] at hlt
    omega
  · rw [BitVec.lt_def, hadd] at hlt
    omega

/-- **The colour bar.** For every screen, every `y` and every height from 1 on with `y + height` at
most 2^63: `fb_draw_color_bar` stores each pixel of the rows from `y` to `min (y + height) screen_h`
once, and no other. -/
theorem fb_draw_color_bar_once (s : Fb) (y height : U64) (h1 : 1 ≤ height.toNat)
    (hsum : y.toNat + height.toNat ≤ 2 ^ 63) :
    (∀ m, fbDrawColorBar s y height m =
      (s.clipped (barPixels s y height)).foldl (storePixel s) m) ∧
    StoresOnce s (barPixels s y height) fun px py => px.toNat < s.screenW.toNat ∧
      y.toNat ≤ py.toNat ∧ py.toNat < min (y.toNat + height.toNat) s.screenH.toNat := by
  have h0 : height ≠ 0 := by
    rintro rfl
    exact absurd h1 (by decide)
  have hbottom := toNat_barBottom (s := s) hsum
  have hcoord := coord_barPixels (s := s) h0 hsum
  have hmem : ∀ px py, (py, px) ∈ (barPixels s y height).map Pixel.coord ↔
      px.toNat < s.screenW.toNat ∧ y.toNat ≤ py.toNat ∧
        py.toNat < min (y.toNat + height.toNat) s.screenH.toNat := by
    intro px py
    rw [hcoord, List.mem_product, mem_forRange (by omega), mem_forRange (by omega), hbottom]
    simp only [Nat.zero_le, true_and]
    exact and_comm
  -- nothing is clipped
  have hclipped : s.clipped (barPixels s y height) = barPixels s y height := by
    refine List.filter_eq_self.mpr fun p hp => decide_eq_true ?_
    obtain ⟨hpx, -, hpy⟩ := (hmem p.x p.y).mp (List.mem_map_of_mem hp)
    exact ⟨BitVec.lt_def.mpr hpx, BitVec.lt_def.mpr (by omega)⟩
  refine ⟨fun m => by rw [fbDrawColorBar_eq, foldl_plot_eq], ?_, ?_⟩
  · rw [hclipped, hcoord]
    exact (nodup_forRange (by omega)).product (nodup_forRange (by omega))
  · intro px py
    rw [hclipped]
    exact hmem px py

/-- A bar of two rows, the second of which is below the screen. -/
theorem fb_draw_color_bar_once_sample :
    StoresOnce sampleFb (barPixels sampleFb 1 2) fun px py => px.toNat < 2 ∧ 1 ≤ py.toNat ∧
      py.toNat < 2 := by
  obtain ⟨-, honce⟩ := fb_draw_color_bar_once sampleFb 1 2 (by decide) (by decide)
  exact honce

/-! ## The circle -/

theorem mem_intRange_iff {lo hi v : ℤ} : v ∈ intRange lo hi ↔ lo ≤ v ∧ v ≤ hi := by
  constructor
  · exact mem_intRange
  · rintro ⟨hlo, hhi⟩
    refine List.mem_map.mpr ⟨(v - lo).toNat, List.mem_range.mpr (by omega), ?_⟩
    omega

theorem nodup_intRange (lo hi : ℤ) : (intRange lo hi).Nodup := by
  refine List.Nodup.map (fun a b heq => ?_) List.nodup_range
  have hsum : lo + (a : ℤ) = lo + (b : ℤ) := heq
  omega

/-- The offsets from the centre that the loops of the circle draw at, rows first. -/
def discOffsets (r : ℤ) : List (ℤ × ℤ) :=
  (intRange (-r) r ×ˢ intRange (-r) r).filter fun v => v.2 * v.2 + v.1 * v.1 ≤ r * r

/-- The pixel at an offset. -/
def discPixel (s : Fb) (x0 y0 radius : U64) (v : ℤ × ℤ) : Pixel :=
  ⟨x0 + BitVec.ofInt 64 v.2, y0 + BitVec.ofInt 64 v.1, hueColor s (circleHue radius v.2)⟩

theorem mem_discOffsets {r : ℤ} {v : ℤ × ℤ} : v ∈ discOffsets r ↔
    ((-r ≤ v.1 ∧ v.1 ≤ r) ∧ -r ≤ v.2 ∧ v.2 ≤ r) ∧ v.2 * v.2 + v.1 * v.1 ≤ r * r := by
  rw [discOffsets, List.mem_filter, List.mem_product, mem_intRange_iff, mem_intRange_iff,
    decide_eq_true_iff]

theorem circlePixels_eq (s : Fb) (x0 y0 radius : U64) :
    circlePixels s x0 y0 radius = (discOffsets radius.toInt).map (discPixel s x0 y0 radius) := by
  rw [discOffsets]
  show _ = (List.filter _ (List.flatMap _ _)).map _
  rw [List.filter_flatMap, List.map_flatMap, circlePixels]
  apply List.flatMap_congr
  intro v _
  -- in one row
  induction intRange (-radius.toInt) radius.toInt with
  | nil => rfl
  | cons x l ih =>
    rw [List.flatMap_cons, ih, List.map_cons, List.filter_cons]
    by_cases hdisc : x * x + v * v ≤ radius.toInt * radius.toInt
    · rw [if_pos hdisc, if_pos (decide_eq_true hdisc)]
      rfl
    · rw [if_neg hdisc, if_neg fun h => hdisc (of_decide_eq_true h)]
      rfl

/-- Both coordinates of a visible pixel are where the offset says: below the screen's edge nothing
has wrapped around. -/
theorem toNat_add_ofInt {c : U64} {v : ℤ} (hc : c.toNat < 2 ^ 31) (hlo : -2 ^ 31 ≤ v)
    (hhi : v < 2 ^ 31) (hlt : (c + BitVec.ofInt 64 v).toNat < 2 ^ 31) :
    ((c + BitVec.ofInt 64 v).toNat : ℤ) = c.toNat + v := by
  rw [BitVec.toNat_add, BitVec.toNat_ofInt] at *
  omega

/-- A coordinate is at its offset. -/
theorem add_ofInt_sub (c a : U64) : c + BitVec.ofInt 64 (a.toNat - c.toNat) = a := by
  have hc := c.isLt
  have ha := a.isLt
  apply BitVec.eq_of_toNat_eq
  rw [BitVec.toNat_add, BitVec.toNat_ofInt]
  omega

/-- Offsets below 2^31 lead to different addresses. -/
theorem ofInt_inj {v v' : ℤ} (hlo : -2 ^ 31 ≤ v) (hhi : v < 2 ^ 31) (hlo' : -2 ^ 31 ≤ v')
    (hhi' : v' < 2 ^ 31) (h : BitVec.ofInt 64 v = BitVec.ofInt 64 v') : v = v' := by
  have hnat := congrArg BitVec.toNat h
  rw [BitVec.toNat_ofInt, BitVec.toNat_ofInt] at hnat
  omega

/-- **What `fb_draw_filled_circle` must do**: come back, and store each pixel of the disc that is on
the screen once, and no other. -/
def CircleOk (s : Fb) (x0 y0 radius : U64) : Prop :=
  (∀ m, fbDrawFilledCircle s x0 y0 radius m =
    some ((s.clipped (circlePixels s x0 y0 radius)).foldl (storePixel s) m)) ∧
  StoresOnce s (circlePixels s x0 y0 radius) fun px py => s.Visible px py ∧
    ((px.toNat : ℤ) - x0.toNat) ^ 2 + ((py.toNat : ℤ) - y0.toNat) ^ 2 ≤ (radius.toNat : ℤ) ^ 2

/-- Different offsets lead to different coordinates, on the screen or not. -/
theorem nodup_coord_circlePixels (hr : radius.toNat < 2 ^ 31) :
    ((circlePixels s x0 y0 radius).map Pixel.coord).Nodup := by
  have hrad : radius.toInt = radius.toNat := BitVec.toInt_eq_toNat_of_lt (by omega)
  have hoffsets : (discOffsets radius.toInt).Nodup :=
    ((nodup_intRange _ _).product (nodup_intRange _ _)).filter _
  rw [circlePixels_eq, List.map_map]
  refine hoffsets.map_on ?_
  intro v hv v' hv' heq
  obtain ⟨⟨⟨hv1, hv2⟩, hv3, hv4⟩, -⟩ := mem_discOffsets.mp hv
  obtain ⟨⟨⟨hv1', hv2'⟩, hv3', hv4'⟩, -⟩ := mem_discOffsets.mp hv'
  obtain ⟨hrow, hcol⟩ := Prod.mk.inj heq
  apply Prod.ext
  · exact ofInt_inj (by omega) (by omega) (by omega) (by omega) ((BitVec.add_right_inj _).mp hrow)
  · exact ofInt_inj (by omega) (by omega) (by omega) (by omega) ((BitVec.add_right_inj _).mp hcol)

/-- What the loops put on the screen lies in the disc. -/
theorem disc_of_visible (hw : s.screenW.toNat < 2 ^ 31) (hh : s.screenH.toNat < 2 ^ 31)
    (hx : x0.toNat < 2 ^ 31) (hy : y0.toNat < 2 ^ 31) (hr : radius.toNat < 2 ^ 31) {v : ℤ × ℤ}
    (hv : v ∈ discOffsets radius.toInt)
    (hvis : s.Visible (x0 + BitVec.ofInt 64 v.2) (y0 + BitVec.ofInt 64 v.1)) :
    ((x0 + BitVec.ofInt 64 v.2).toNat - x0.toNat : ℤ) ^ 2 +
      ((y0 + BitVec.ofInt 64 v.1).toNat - y0.toNat : ℤ) ^ 2 ≤ (radius.toNat : ℤ) ^ 2 := by
  have hrad : radius.toInt = radius.toNat := BitVec.toInt_eq_toNat_of_lt (by omega)
  obtain ⟨⟨⟨hv1, hv2⟩, hv3, hv4⟩, hdisc⟩ := mem_discOffsets.mp hv
  have hpx : (x0 + BitVec.ofInt 64 v.2).toNat < s.screenW.toNat := hvis.1
  have hpy : (y0 + BitVec.ofInt 64 v.1).toNat < s.screenH.toNat := hvis.2
  rw [toNat_add_ofInt hx (by omega) (by omega) (by omega),
    toNat_add_ofInt hy (by omega) (by omega) (by omega), add_sub_cancel_left, add_sub_cancel_left,
    ← hrad, sq, sq, sq]
  exact hdisc

/-- The loops come to the offset of every pixel of the disc. -/
theorem mem_discOffsets_of_disc (hr : radius.toNat < 2 ^ 31) {px py : U64}
    (hdisc : ((px.toNat : ℤ) - x0.toNat) ^ 2 + ((py.toNat : ℤ) - y0.toNat) ^ 2 ≤
      (radius.toNat : ℤ) ^ 2) :
    ((py.toNat : ℤ) - y0.toNat, (px.toNat : ℤ) - x0.toNat) ∈ discOffsets radius.toInt := by
  have hrad : radius.toInt = radius.toNat := BitVec.toInt_eq_toNat_of_lt (by omega)
  have hcol := abs_le_of_sq_le_sq' ((le_add_of_nonneg_right (sq_nonneg _)).trans hdisc)
    (by omega)
  have hrow := abs_le_of_sq_le_sq' ((le_add_of_nonneg_left (sq_nonneg _)).trans hdisc)
    (by omega)
  rw [sq, sq, sq] at hdisc
  rw [mem_discOffsets, hrad]
  exact ⟨⟨hrow, hcol⟩, hdisc⟩

/-- **The disc**: for every screen, centre and radius below 2^31 the pixels of the loops that are on
the screen are those of the disc, each once. -/
theorem storesOnce_circlePixels (hw : s.screenW.toNat < 2 ^ 31) (hh : s.screenH.toNat < 2 ^ 31)
    (hx : x0.toNat < 2 ^ 31) (hy : y0.toNat < 2 ^ 31) (hr : radius.toNat < 2 ^ 31) :
    StoresOnce s (circlePixels s x0 y0 radius) fun px py => s.Visible px py ∧
      ((px.toNat : ℤ) - x0.toNat) ^ 2 + ((py.toNat : ℤ) - y0.toNat) ^ 2 ≤
        (radius.toNat : ℤ) ^ 2 := by
  constructor
  · exact (nodup_coord_circlePixels hr).sublist (List.filter_sublist.map Pixel.coord)
  · intro px py
    rw [Fb.clipped, circlePixels_eq, List.mem_map]
    constructor
    · rintro ⟨p, hp, hcoord⟩
      obtain ⟨hp, hvis⟩ := List.mem_filter.mp hp
      obtain ⟨v, hv, rfl⟩ := List.mem_map.mp hp
      obtain ⟨rfl, rfl⟩ := Prod.mk.inj hcoord
      have hvisible := of_decide_eq_true hvis
      exact ⟨hvisible, disc_of_visible hw hh hx hy hr hv hvisible⟩
    · -- a pixel of the disc is met at its own offset
      rintro ⟨hv, hdisc⟩
      have hpixel : (discPixel s x0 y0 radius
          ((py.toNat : ℤ) - y0.toNat, (px.toNat : ℤ) - x0.toNat)).coord = (py, px) := by
        show (y0 + BitVec.ofInt 64 _, x0 + BitVec.ofInt 64 _) = _
        rw [add_ofInt_sub, add_ofInt_sub]
      obtain ⟨hy', hx'⟩ := Prod.mk.inj hpixel
      refine ⟨_, List.mem_filter.mpr ⟨List.mem_map.mpr ⟨_, mem_discOffsets_of_disc hr hdisc, rfl⟩,
        ?_⟩, hpixel⟩
      rw [hx', hy']
      exact decide_eq_true hv

/-- With a radius of 0 the centre is a division by zero. -/
theorem fbDrawFilledCircle_zero (s : Fb) (x0 y0 : U64) (m : Ram 64) :
    fbDrawFilledCircle s x0 y0 0 m = none := rfl

/-- **The circle.** For every screen, centre and radius below 2^31, `fb_draw_filled_circle` draws
the disc if and only if the radius is not 0. -/
theorem fb_draw_filled_circle_iff (s : Fb) (hw : s.screenW.toNat < 2 ^ 31)
    (hh : s.screenH.toNat < 2 ^ 31) (x0 y0 radius : U64) (hx : x0.toNat < 2 ^ 31)
    (hy : y0.toNat < 2 ^ 31) (hr : radius.toNat < 2 ^ 31) :
    CircleOk s x0 y0 radius ↔ radius ≠ 0 := by
  constructor
  · rintro ⟨hdraw, -⟩ rfl
    have hnone := hdraw ⟨fun _ => 0, fun _ => false⟩
    rw [fbDrawFilledCircle_zero] at hnone
    cases hnone
  · intro h0
    refine ⟨?_, storesOnce_circlePixels hw hh hx hy hr⟩
    intro m
    rw [fbDrawFilledCircle_eq h0 hr, foldl_plot_eq]

/-- A circle about the corner of the small screen. -/
theorem fb_draw_filled_circle_iff_sample : CircleOk sampleFb 0 0 1 :=
  (fb_draw_filled_circle_iff sampleFb (by decide) (by decide) 0 0 1 (by decide) (by decide)
    (by decide)).mpr (by decide)

/-- **A circle of radius 0** does not come back, where it should draw one pixel. -/
theorem fb_draw_filled_circle_zero : (∀ m, fbDrawFilledCircle sampleFb 1 1 0 m = none) ∧
    ¬ CircleOk sampleFb 1 1 0 := by
  have hnone : ∀ m, fbDrawFilledCircle sampleFb 1 1 0 m = none := fbDrawFilledCircle_zero _ 1 1
  refine ⟨hnone, ?_⟩
  intro hok
  have hsome := hok.1 ⟨fun _ => 0, fun _ => false⟩
  rw [hnone] at hsome
  cases hsome

end OS44
