import Mathlib.Data.List.Induction
import Mathlib.Tactic.Linarith
import OS44.Framebuffer.Framebuffer

/-! # Drawing on a screen

Every drawing call but `fb_clear` puts a list of pixels that does not depend on memory
(`fbDraw_eq_foldl_plot`), and what a buffer shows is a screen, a colour for each coordinate. Drawing
in memory refines drawing on the screen, and writes nothing outside
the target buffer (`fbDraw_spec`). -/

namespace OS44

open LittleEndian ByteRange

/-! ## The pixels of a call -/

/-- A pixel to put. -/
structure Pixel where
  x : U64
  y : U64
  color : U32

/-- Put a pixel. -/
def plot (s : Fb) (m : Ram 64) (p : Pixel) : Ram 64 := fbPutPixel s p.x p.y p.color m

/-- The pixels of rows. -/
def rowPixels (s : Fb) (rows : List U64) (color : U64 → U32) : List Pixel :=
  rows.flatMap fun row => (forRange 0 s.screenW.toNat).map fun x => ⟨x, row, color x⟩

/-- The pixels of a character. -/
def charPixels (c : U8) (x y : U64) (fg bg : U32) : List Pixel :=
  (List.range 8).flatMap fun row => (List.range 8).map fun col =>
    ⟨x + BitVec.ofNat 64 col, y + BitVec.ofNat 64 row, glyphColor c fg bg row col⟩

/-- The pixels of a string. -/
def stringPixels : List U8 → U64 → U64 → U32 → U32 → List Pixel
  | [], _, _, _, _ => []
  | c :: str, x, y, fg, bg =>
    if c = 0 then [] else charPixels c x y fg bg ++ stringPixels str (x + 8) y fg bg

/-- The pixels of a colour bar. -/
def barPixels (s : Fb) (y height : U64) : List Pixel :=
  if height = 0 then []
  else
    let bottom := (barBottom s y height).toNat
    let third := barThird height
    let midStart := y + third
    let hueStart := midStart + third
    rowPixels s (forRange y.toNat (min (y + third).toNat bottom)) (barRedGreen s) ++
      rowPixels s (forRange midStart.toNat (min (midStart + third).toNat bottom))
        (barGreenBlue s) ++
      rowPixels s (forRange hueStart.toNat bottom) (barHue s)

/-- The hue of a column of the circle. -/
def circleHue (radius : U64) (x : ℤ) : U32 :=
  (BitVec.ofInt 64 ((x + radius.toInt) * 255) / (2 * radius)).setWidth 32

/-- The pixels of a circle. -/
def circlePixels (s : Fb) (x0 y0 radius : U64) : List Pixel :=
  (intRange (-radius.toInt) radius.toInt).flatMap fun y =>
    (intRange (-radius.toInt) radius.toInt).flatMap fun x =>
      if x * x + y * y ≤ radius.toInt * radius.toInt then
        [⟨x0 + BitVec.ofInt 64 x, y0 + BitVec.ofInt 64 y, hueColor s (circleHue radius x)⟩]
      else []

/-- The pixels of a call. -/
def Fb.pixels (s : Fb) : DrawCall → List Pixel
  | .putPixel x y color => [⟨x, y, color⟩]
  | .drawChar c x y fg bg => charPixels c x y fg bg
  | .drawString str x y fg bg => stringPixels str x y fg bg
  | .drawColorBar y height => barPixels s y height
  | .drawFilledCircle x0 y0 radius => circlePixels s x0 y0 radius
  | .clear color => rowPixels s (forRange 0 s.screenH.toNat) fun _ => color

variable {s : Fb} {m m' : Ram 64} {x y : U64} {fg bg color : U32}

theorem drawRows_eq (s : Fb) (rows : List U64) (color : U64 → U32) (m : Ram 64) :
    drawRows s rows color m = (rowPixels s rows color).foldl (plot s) m := by
  rw [rowPixels, List.foldl_flatMap]
  simp only [List.foldl_map]
  rfl

theorem fbDrawChar_eq (s : Fb) (c : U8) (x y : U64) (fg bg : U32) (m : Ram 64) :
    fbDrawChar s c x y fg bg m = (charPixels c x y fg bg).foldl (plot s) m := by
  rw [charPixels, List.foldl_flatMap]
  simp only [List.foldl_map]
  rfl

theorem fbDrawString_eq (s : Fb) (str : List U8) (x y : U64) (fg bg : U32) (m : Ram 64) :
    fbDrawString s str x y fg bg m = (stringPixels str x y fg bg).foldl (plot s) m := by
  induction str generalizing x m with
  | nil => rfl
  | cons c str ih =>
    rw [fbDrawString, stringPixels]
    split_ifs with hnul
    · rfl
    · rw [ih, List.foldl_append, fbDrawChar_eq]

theorem fbDrawColorBar_eq (s : Fb) (y height : U64) (m : Ram 64) :
    fbDrawColorBar s y height m = (barPixels s y height).foldl (plot s) m := by
  unfold fbDrawColorBar barPixels
  split_ifs with h0
  · rfl
  · dsimp only
    rw [List.foldl_append, List.foldl_append, drawRows_eq, drawRows_eq, drawRows_eq]

/-- A text has two colours. -/
theorem color_of_mem_stringPixels {str : List U8} {p : Pixel}
    (hp : p ∈ stringPixels str x y fg bg) : p.color = fg ∨ p.color = bg := by
  induction str generalizing x with
  | nil => exact absurd hp List.not_mem_nil
  | cons c str ih =>
    rw [stringPixels] at hp
    split_ifs at hp with hnul
    · exact absurd hp List.not_mem_nil
    · rcases List.mem_append.mp hp with hp | hp
      · obtain ⟨row, -, hp⟩ := List.mem_flatMap.mp hp
        obtain ⟨col, -, rfl⟩ := List.mem_map.mp hp
        exact ite_eq_or_eq _ _ _
      · exact ih hp

/-! ## The circle -/

theorem mem_intRange {lo hi v : ℤ} (h : v ∈ intRange lo hi) : lo ≤ v ∧ v ≤ hi := by
  obtain ⟨k, hk, rfl⟩ := List.mem_map.mp h
  have := List.mem_range.mp hk
  omega

theorem int64_of_bounds {v : ℤ} (hlo : -2 ^ 63 ≤ v) (hhi : v < 2 ^ 63) : int64 v = some v :=
  if_pos ⟨hlo, hhi⟩

/-- A loop whose rounds all succeed. -/
theorem foldlM_eq_some {σ ι : Type*} {l : List ι} {f : σ → ι → Option σ} {g : σ → ι → σ}
    (h : ∀ i ∈ l, ∀ m, f m i = some (g m i)) (m : σ) : l.foldlM f m = some (l.foldl g m) := by
  induction l generalizing m with
  | nil => rfl
  | cons i l ih =>
    rw [List.foldlM_cons, h i List.mem_cons_self m]
    exact ih (fun j hj => h j (List.mem_cons_of_mem i hj)) (g m i)

/-- The square of a coordinate of the circle. -/
theorem mul_self_le {r v : ℤ} (hlo : -r ≤ v) (hhi : v ≤ r) : v * v ≤ r * r := by
  have hprod : 0 ≤ (r - v) * (r + v) := mul_nonneg (by linarith) (by linarith)
  linarith

/-- **No operation of the circle overflows** for a radius below 2^31, and it divides by zero only
where the radius is 0. -/
theorem circleBody_eq {radius : U64} (h0 : radius ≠ 0) (hlt : radius.toNat < 2 ^ 31) (s : Fb)
    (x0 y0 : U64) {x y : ℤ} (hx : -radius.toInt ≤ x ∧ x ≤ radius.toInt)
    (hy : -radius.toInt ≤ y ∧ y ≤ radius.toInt) (m : Ram 64) :
    circleBody s x0 y0 radius y x m = some
      ((if x * x + y * y ≤ radius.toInt * radius.toInt then
        [(⟨x0 + BitVec.ofInt 64 x, y0 + BitVec.ofInt 64 y,
          hueColor s (circleHue radius x)⟩ : Pixel)]
      else []).foldl (plot s) m) := by
  have hpos : 0 < radius.toNat := Nat.pos_of_ne_zero fun h => h0 (BitVec.eq_of_toNat_eq h)
  have hr : radius.toInt = radius.toNat := BitVec.toInt_eq_toNat_of_lt (by omega)
  -- squares of coordinates below 2^31 stay below 2^62, so that no sum overflows
  have hsquare : radius.toInt * radius.toInt ≤ (2 ^ 31 - 1) * (2 ^ 31 - 1) :=
    mul_self_le (by omega) (by omega)
  have hxx := mul_self_le hx.1 hx.2
  have hyy := mul_self_le hy.1 hy.2
  have hx₀ := mul_self_nonneg x
  have hy₀ := mul_self_nonneg y
  have hdiv : ¬ 2 * radius = 0 := by
    intro h
    have hnat := congrArg BitVec.toNat h
    rw [BitVec.toNat_mul] at hnat
    simp only [BitVec.reduceToNat] at hnat
    omega
  have hint : ∀ v : ℤ, 0 ≤ v → v ≤ 2 ^ 62 + 2 ^ 62 - 1 → int64 v = some v := fun v hlo hhi =>
    int64_of_bounds (by omega) (by omega)
  simp only [circleBody, circleColor, hint _ hx₀ (by omega), hint _ hy₀ (by omega),
    hint _ (add_nonneg hx₀ hy₀) (by omega), hint (radius.toInt * radius.toInt)
      (by omega) (by omega),
    hint (x + radius.toInt) (by omega) (by omega),
    hint ((x + radius.toInt) * 255) (by omega) (by omega), if_neg hdiv, Option.bind_eq_bind,
    Option.bind_some]
  split_ifs <;> rfl

theorem fbDrawFilledCircle_eq {radius : U64} (h0 : radius ≠ 0)
    (hlt : radius.toNat < 2 ^ 31) (s : Fb)
    (x0 y0 : U64) (m : Ram 64) :
    fbDrawFilledCircle s x0 y0 radius m = some
      ((circlePixels s x0 y0 radius).foldl (plot s) m) := by
  have hr : radius.toInt = radius.toNat := BitVec.toInt_eq_toNat_of_lt (by omega)
  have hlo : int64 (-radius.toInt) = some (-radius.toInt) := int64_of_bounds (by omega) (by omega)
  rw [fbDrawFilledCircle, hlo, Option.bind_eq_bind, Option.bind_some, circlePixels,
    List.foldl_flatMap]
  refine foldlM_eq_some (fun y hy m => ?_) m
  rw [List.foldl_flatMap]
  exact foldlM_eq_some (fun x hx m =>
    circleBody_eq h0 hlt s x0 y0 (mem_intRange hx) (mem_intRange hy) m) m

/-! ## Calls put their pixels -/

/-- The calls in question: circles have a radius between 1 and 2^31 - 1, and the screen is cleared
to black. -/
def DrawCall.Allowed : DrawCall → Prop
  | .drawFilledCircle _ _ radius => radius ≠ 0 ∧ radius.toNat < 2 ^ 31
  | .clear color => color = fbColorBlack
  | _ => True

/-- **A call puts its pixels**, unless it clears the back buffer. -/
theorem fbDraw_eq_foldl_plot {c : DrawCall} (hc : c.Allowed)
    (hclear : ∀ color, c = .clear color → ¬ (s.useDoubleBuffer ∧ s.backBuffer ≠ 0)) (m : Ram 64) :
    fbDraw s c m = some ((s.pixels c).foldl (plot s) m) := by
  cases c with
  | putPixel x y color => rfl
  | drawChar c x y fg bg => exact congrArg some (fbDrawChar_eq s c x y fg bg m)
  | drawString str x y fg bg => exact congrArg some (fbDrawString_eq s str x y fg bg m)
  | drawColorBar y height => exact congrArg some (fbDrawColorBar_eq s y height m)
  | drawFilledCircle x0 y0 radius => exact fbDrawFilledCircle_eq hc.1 hc.2 s x0 y0 m
  | clear color =>
    rw [fbDraw, fbClear, if_neg (hclear color rfl)]
    exact congrArg some (drawRows_eq s _ _ m)

/-- Calls put their pixels one after another, unless they clear the back buffer. -/
theorem fbDrawAll_eq_foldl_plot (hmode : ¬ (s.useDoubleBuffer ∧ s.backBuffer ≠ 0))
    {calls : List DrawCall} (hcalls : ∀ c ∈ calls, c.Allowed) (m : Ram 64) :
    fbDrawAll s calls m = some ((calls.flatMap s.pixels).foldl (plot s) m) := by
  rw [List.foldl_flatMap]
  exact foldlM_eq_some
    (fun c hc m => fbDraw_eq_foldl_plot (hcalls c hc) (fun _ _ => hmode) m) m

/-! ## Geometry -/

/-- The rows do not overlap, and a buffer has a size. -/
structure Fb.Geometry (s : Fb) : Prop where
  row_le : 4 * s.screenW.toNat ≤ s.fbPitchVal.toNat
  size_lt : s.screenH.toNat * s.fbPitchVal.toNat < 2 ^ 64

/-- The bytes of a buffer. -/
def Fb.size (s : Fb) : ℕ := s.screenH.toNat * s.fbPitchVal.toNat

/-- An address in the buffer at `base`. -/
def Fb.InBuffer (s : Fb) (base b : U64) : Prop := (b - base).toNat < s.size

/-- A coordinate on the screen. -/
def Fb.Visible (s : Fb) (x y : U64) : Prop := x < s.screenW ∧ y < s.screenH

theorem visible_of_not_clipped (h : ¬ (s.screenW ≤ x ∨ s.screenH ≤ y)) : s.Visible x y :=
  ⟨BitVec.not_le.mp fun hle => h (.inl hle), BitVec.not_le.mp fun hle => h (.inr hle)⟩

/-- The offset of a pixel in a buffer. -/
def Fb.pixelOffset (s : Fb) (x y : U64) : ℕ := y.toNat * s.fbPitchVal.toNat + 4 * x.toNat

/-- The colour of a pixel in the buffer at `base`. -/
def Fb.pixelAt (s : Fb) (base : U64) (m : Ram 64) (x y : U64) : U32 :=
  load32 m.bytes (s.pixelAddr base x y)

theorem Fb.pixelAddr_eq (s : Fb) (base x y : U64) :
    s.pixelAddr base x y = base + BitVec.ofNat 64 (s.pixelOffset x y) := by
  rw [Fb.pixelAddr, Fb.pixelOffset, BitVec.ofNat_add, BitVec.ofNat_mul, BitVec.ofNat_mul,
    BitVec.ofNat_toNat, BitVec.ofNat_toNat, BitVec.ofNat_toNat, BitVec.setWidth_eq,
      BitVec.setWidth_eq,
    BitVec.setWidth_eq, ← BitVec.add_assoc, BitVec.mul_comm x]
  rfl

/-- A row of the screen ends before the buffer does. -/
theorem Fb.Geometry.row_end (h : s.Geometry) {i t : ℕ} (hi : i < s.screenH.toNat)
    (ht : t ≤ 4 * s.screenW.toNat) : i * s.fbPitchVal.toNat + t ≤ s.size := by
  have hrow := Nat.mul_le_mul_right s.fbPitchVal.toNat (Nat.succ_le_of_lt hi)
  have := h.row_le
  rw [Nat.succ_mul] at hrow
  exact (Nat.add_le_add_left (by omega) _).trans hrow

/-- A row of the screen ends before the next row of the buffer starts. -/
theorem Fb.Geometry.row_lt (h : s.Geometry) {i j t : ℕ} (hij : i < j)
    (ht : t ≤ 4 * s.screenW.toNat) :
    i * s.fbPitchVal.toNat + t ≤ j * s.fbPitchVal.toNat := by
  have hrow := Nat.mul_le_mul_right s.fbPitchVal.toNat (Nat.succ_le_of_lt hij)
  have := h.row_le
  rw [Nat.succ_mul] at hrow
  exact (Nat.add_le_add_left (by omega) _).trans hrow

theorem Fb.Geometry.pixel_end (h : s.Geometry) (hv : s.Visible x y) :
    s.pixelOffset x y + 4 ≤ s.size := by
  have hx : x.toNat < s.screenW.toNat := hv.1
  rw [Fb.pixelOffset, Nat.add_assoc]
  exact h.row_end hv.2 (by omega)

/-- **Two pixels of the screen do not meet.** -/
theorem Fb.Geometry.pixels_apart (h : s.Geometry) {x' y' : U64} (hv : s.Visible x y)
    (hv' : s.Visible x' y') (hne : ¬ (x' = x ∧ y' = y)) :
    s.pixelOffset x y + 4 ≤ s.pixelOffset x' y' ∨ s.pixelOffset x' y' + 4 ≤ s.pixelOffset x y := by
  have hx : x.toNat < s.screenW.toNat := hv.1
  have hx' : x'.toNat < s.screenW.toNat := hv'.1
  unfold Fb.pixelOffset
  rcases lt_trichotomy y.toNat y'.toNat with hlt | heq | hgt
  · have := h.row_lt hlt (t := 4 * x.toNat + 4) (by omega)
    omega
  · -- in one row the columns differ
    have hxne : x'.toNat ≠ x.toNat := fun hxx =>
      hne ⟨BitVec.eq_of_toNat_eq hxx, BitVec.eq_of_toNat_eq heq.symm⟩
    rw [heq]
    omega
  · have := h.row_lt hgt (t := 4 * x'.toNat + 4) (by omega)
    omega

/-- The distance of two addresses in a buffer. -/
theorem toNat_offset_sub (base : U64) {i j : ℕ} (hi : i < 2 ^ 64) (hj : j < 2 ^ 64) :
    (base + BitVec.ofNat 64 i - (base + BitVec.ofNat 64 j)).toNat =
      if j ≤ i then i - j else 2 ^ 64 - (j - i) := by
  rw [BitVec.toNat_sub, BitVec.toNat_add, BitVec.toNat_add, BitVec.toNat_ofNat, BitVec.toNat_ofNat]
  split_ifs <;> omega

/-- The range of a buffer that a store goes to. -/
theorem Fb.inBuffer_of_lt (hgeom : s.Geometry) {base b : U64} {off n : ℕ} (hend : off + n ≤ s.size)
    (hb : (b - (base + BitVec.ofNat 64 off)).toNat < n) : s.InBuffer base b := by
  have hsize : s.size < 2 ^ 64 := hgeom.size_lt
  rw [Fb.InBuffer, ← add_ofNat_toNat_sub (base + BitVec.ofNat 64 off) b, BitVec.add_assoc,
    ← BitVec.ofNat_add, toNat_add_sub (by omega)]
  omega

/-! ## What a buffer shows -/

/-- A screen: a colour for each coordinate. -/
abbrev Screen : Type := U64 → U64 → U32

/-- Put a pixel on a screen. -/
def Screen.plot (scr : Screen) (p : Pixel) : Screen := fun x y =>
  if x = p.x ∧ y = p.y then p.color else scr x y

/-- The buffer at `base` shows a screen. -/
def Shows (s : Fb) (base : U64) (m : Ram 64) (scr : Screen) : Prop :=
  ∀ x y, s.Visible x y → s.pixelAt base m x y = scr x y

variable {scr : Screen} {p : Pixel}

/-- A put pixel is read back, and no other pixel changes. -/
theorem shows_plot (hgeom : s.Geometry) (h : Shows s s.target m scr) (p : Pixel) :
    Shows s s.target (plot s m p) (scr.plot p) := by
  intro x y hv
  have hsize : s.size < 2 ^ 64 := hgeom.size_lt
  rw [plot, fbPutPixel, Screen.plot]
  split_ifs with hclip heq heq
  · -- a pixel that is clipped is not visible
    obtain ⟨rfl, rfl⟩ := heq
    exact absurd hv.1 (BitVec.not_lt.mpr (hclip.resolve_right (BitVec.not_le.mpr hv.2)))
  · exact h x y hv
  · obtain ⟨rfl, rfl⟩ := heq
    exact load32_store32 m.bytes _ p.color
  · -- another pixel: its four bytes are apart from those written
    rw [← h x y hv]
    have hp : s.Visible p.x p.y := visible_of_not_clipped hclip
    have hapart := hgeom.pixels_apart hp hv heq
    have hend := hgeom.pixel_end hv
    have hend' := hgeom.pixel_end hp
    refine congrArg (BitVec.ofNat 32) (loadLE_congr fun k hk => storeLE_of_not_lt ?_)
    rw [Fb.pixelAddr_eq, Fb.pixelAddr_eq, BitVec.add_assoc, ← BitVec.ofNat_add,
      toNat_offset_sub _ (by omega) (by omega)]
    split_ifs <;> omega

/-- A put pixel is in the buffer. -/
theorem within_plot (hgeom : s.Geometry) (m : Ram 64) (p : Pixel) :
    Ram.Within (s.InBuffer s.target) m (plot s m p) := by
  rw [plot, fbPutPixel]
  split_ifs with hclip
  · exact .refl _ m
  · have hp : s.Visible p.x p.y := visible_of_not_clipped hclip
    rw [Ram.store_eq_fill, Fb.pixelAddr_eq]
    exact Ram.within_fill _ fun b hb => Fb.inBuffer_of_lt hgeom (hgeom.pixel_end hp) hb

/-! ## Calls -/

/-- A call on a screen. -/
def Screen.draw (s : Fb) (scr : Screen) : DrawCall → Screen
  | .clear color => fun _ _ => color
  | c => (s.pixels c).foldl Screen.plot scr

/-- A list of pixels of one colour, one of them at the coordinate in question. -/
theorem Screen.foldl_plot_of_color {l : List Pixel} (hl : ∀ p ∈ l, p.color = color)
    (h : scr x y = color ∨ ∃ p ∈ l, x = p.x ∧ y = p.y) : l.foldl Screen.plot scr x y = color := by
  induction l generalizing scr with
  | nil => exact h.resolve_right (by rintro ⟨p, hp, -⟩; cases hp)
  | cons q l ih =>
    refine ih (fun p hp => hl p (List.mem_cons_of_mem q hp)) ?_
    have hq := hl q List.mem_cons_self
    rw [Screen.plot]
    split_ifs with hxy
    · exact .inl hq
    · -- if the pixel was to be drawn, it is drawn by a later one
      refine h.imp id ?_
      rintro ⟨p, hp, hpxy⟩
      rcases List.mem_cons.mp hp with rfl | hp
      · exact absurd hpxy hxy
      · exact ⟨p, hp, hpxy⟩

/-- What holds of the colours put and of the colour there was holds of the colour there is. -/
theorem Screen.foldl_plot_mem {C : U32 → Prop} {l : List Pixel} (hl : ∀ p ∈ l, C p.color)
    (h : C (scr x y)) : C (l.foldl Screen.plot scr x y) := by
  induction l generalizing scr with
  | nil => exact h
  | cons p l ih =>
    apply ih fun q hq => hl q (List.mem_cons_of_mem p hq)
    rw [Screen.plot]
    split_ifs
    · exact hl p List.mem_cons_self
    · exact h

theorem mem_forRange_zero {v hi : U64} (h : v < hi) : v ∈ forRange 0 hi.toNat := by
  have hlt : v.toNat < 0 + (hi.toNat - 0) := by
    rw [Nat.zero_add, Nat.sub_zero]
    exact BitVec.lt_def.mp h
  exact List.mem_map.mpr ⟨v.toNat, List.mem_range'_1.mpr ⟨Nat.zero_le _, hlt⟩,
    by rw [BitVec.ofNat_toNat, BitVec.setWidth_eq]⟩

/-- Pixel after pixel, in memory and on the screen. -/
theorem foldl_plot_spec (hgeom : s.Geometry) (l : List Pixel) (m : Ram 64) :
    Ram.Within (s.InBuffer s.target) m (l.foldl (plot s) m) ∧
      ∀ scr, Shows s s.target m scr →
        Shows s s.target (l.foldl (plot s) m) (l.foldl Screen.plot scr) := by
  refine ⟨Ram.within_foldl (fun p _ m => within_plot hgeom m p) m, ?_⟩
  induction l generalizing m with
  | nil => exact fun scr h => h
  | cons p l ih => exact fun scr h => ih (plot s m p) (scr.plot p) (shows_plot hgeom h p)

/-- The pixels of a clear are all those of the screen. -/
theorem mem_pixels_clear (color : U32) (hv : s.Visible x y) :
    (⟨x, y, color⟩ : Pixel) ∈ s.pixels (.clear color) :=
  List.mem_flatMap.mpr ⟨y, mem_forRange_zero hv.2,
    List.mem_map.mpr ⟨x, mem_forRange_zero hv.1, rfl⟩⟩

theorem color_of_mem_pixels_clear {p : Pixel} (hp : p ∈ s.pixels (.clear color)) :
    p.color = color := by
  obtain ⟨row, -, hp⟩ := List.mem_flatMap.mp hp
  obtain ⟨col, -, rfl⟩ := List.mem_map.mp hp
  rfl

/-- A screen cleared pixel by pixel has the colour wherever it can be seen. -/
theorem foldl_plot_pixels_clear (color : U32) (scr : Screen) (hv : s.Visible x y) :
    (s.pixels (.clear color)).foldl Screen.plot scr x y = color :=
  Screen.foldl_plot_of_color (fun _ hp => color_of_mem_pixels_clear hp)
    (.inr ⟨_, mem_pixels_clear color hv, rfl, rfl⟩)

/-- Clearing pixel by pixel. -/
theorem shows_clear_pixels (hgeom : s.Geometry) (color : U32) (m : Ram 64) :
    Shows s s.target ((s.pixels (.clear color)).foldl (plot s) m) fun _ _ => color := by
  intro x y hv
  have hshow := (foldl_plot_spec hgeom (s.pixels (.clear color)) m).2 (s.pixelAt s.target m)
    fun _ _ _ => rfl
  rw [hshow x y hv]
  exact foldl_plot_pixels_clear color _ hv

/-- Clearing the back buffer to black at once. -/
theorem fbClear_black_buffered (hgeom : s.Geometry) (hmode : s.useDoubleBuffer ∧ s.backBuffer ≠ 0)
    (m : Ram 64) : Ram.Within (s.InBuffer s.target) m (fbClear s fbColorBlack m) ∧
      Shows s s.target (fbClear s fbColorBlack m) fun _ _ => fbColorBlack := by
  have htarget : s.target = s.backBuffer := if_pos hmode.1
  have hlen : (s.screenH * s.fbPitchVal).toNat = s.size := by
    rw [BitVec.toNat_mul, Nat.mod_eq_of_lt hgeom.size_lt, Fb.size]
  have hsize : s.size < 2 ^ 64 := hgeom.size_lt
  rw [fbClear, if_pos hmode, memset_eq_fill, hlen, htarget]
  refine ⟨Ram.within_fill _ fun b hb => hb, ?_⟩
  intro x y hv
  have hend := hgeom.pixel_end hv
  -- the four bytes of black are equal, as `memset` writes them
  have hzero : ∀ k < 4, (m.fill s.backBuffer s.size fun _ => fbColorBlack.setWidth 8).bytes
      (s.pixelAddr s.backBuffer x y + BitVec.ofNat 64 k) = 0 := by
    intro k hk
    have hoff :
        (s.pixelAddr s.backBuffer x y + BitVec.ofNat 64 k - s.backBuffer).toNat < s.size := by
      rw [Fb.pixelAddr_eq, BitVec.add_assoc, ← BitVec.ofNat_add, toNat_add_sub (by omega)]
      omega
    rw [Ram.bytes_fill_of_lt hoff]
    rfl
  rw [Fb.pixelAt, load32, loadLE_eq_zero hzero]
  rfl

/-- In double-buffered mode there is a back buffer. -/
def Fb.Ready (s : Fb) : Prop := s.useDoubleBuffer = true → s.backBuffer ≠ 0

/-- **A call in memory refines the call on the screen**, and writes nothing outside the target. -/
theorem fbDraw_spec (hgeom : s.Geometry) (hready : s.Ready) {c : DrawCall} (hc : c.Allowed)
    (m : Ram 64) :
    ∃ m', fbDraw s c m = some m' ∧ Ram.Within (s.InBuffer s.target) m m' ∧
      ∀ scr, Shows s s.target m scr → Shows s s.target m' (scr.draw s c) := by
  by_cases hclear : ∃ color, c = .clear color
  · obtain ⟨color, rfl⟩ := hclear
    have hblack : color = fbColorBlack := hc
    subst hblack
    by_cases hmode : s.useDoubleBuffer = true
    · -- cleared by `memset`
      obtain ⟨hwithin, hshows⟩ := fbClear_black_buffered hgeom ⟨hmode, hready hmode⟩ m
      exact ⟨_, rfl, hwithin, fun _ _ => hshows⟩
    · -- cleared pixel by pixel
      exact ⟨_, fbDraw_eq_foldl_plot hc (fun _ _ h => hmode h.1) m, (foldl_plot_spec hgeom _ m).1,
        fun _ _ => shows_clear_pixels hgeom fbColorBlack m⟩
  · refine ⟨_, fbDraw_eq_foldl_plot hc (fun color h => absurd ⟨color, h⟩ hclear) m,
      (foldl_plot_spec hgeom _ m).1, ?_⟩
    intro scr h
    have hdraw : scr.draw s c = (s.pixels c).foldl Screen.plot scr := by
      cases c with
      | clear color => exact absurd ⟨color, rfl⟩ hclear
      | _ => rfl
    rw [hdraw]
    exact (foldl_plot_spec hgeom _ m).2 scr h

/-- **A sequence of calls** in memory refines the sequence on the screen. -/
theorem fbDrawAll_spec (hgeom : s.Geometry) (hready : s.Ready) {calls : List DrawCall}
    (hcalls : ∀ c ∈ calls, c.Allowed) (m : Ram 64) :
    ∃ m', fbDrawAll s calls m = some m' ∧ Ram.Within (s.InBuffer s.target) m m' ∧
      ∀ scr, Shows s s.target m scr → Shows s s.target m' (calls.foldl (Screen.draw s) scr) := by
  induction calls generalizing m with
  | nil => exact ⟨m, rfl, .refl _ m, fun scr h => h⟩
  | cons c calls ih =>
    obtain ⟨m₁, hm₁, hwithin₁, hshows₁⟩ := fbDraw_spec hgeom hready (hcalls c List.mem_cons_self) m
    obtain ⟨m₂, hm₂, hwithin₂, hshows₂⟩ := ih (fun d hd => hcalls d (List.mem_cons_of_mem c hd)) m₁
    refine ⟨m₂, ?_, hwithin₁.trans hwithin₂, fun scr h => hshows₂ _ (hshows₁ scr h)⟩
    rw [fbDrawAll, List.foldlM_cons, hm₁]
    exact hm₂

/-! ## The bytes of a pixel -/

/-- Byte `k` of a colour. -/
def colorByte (color : U32) (k : ℕ) : U8 := BitVec.ofNat 8 (color.toNat / 256 ^ k)

/-- A pixel has a colour when its bytes are those of the colour. -/
theorem pixelAt_eq_iff {base : U64} : s.pixelAt base m x y = color ↔
    ∀ k < 4, m.bytes (s.pixelAddr base x y + BitVec.ofNat 64 k) = colorByte color k := by
  have hlt := loadLE_lt m.bytes (s.pixelAddr base x y) 4
  have hload : loadLE m.bytes (s.pixelAddr base x y) 4 = color.toNat ↔
      ∀ k < 4, m.bytes (s.pixelAddr base x y + BitVec.ofNat 64 k) = colorByte color k :=
    loadLE_eq_iff (by decide) color.isLt
  rw [← hload]
  constructor
  · rintro rfl
    exact (Nat.mod_eq_of_lt hlt).symm
  · intro h
    rw [Fb.pixelAt, load32, h, BitVec.ofNat_toNat, BitVec.setWidth_eq]

/-- Byte `k` of the visible pixel at `(x, y)` is at the address `b`. -/
structure Fb.ByteOf (s : Fb) (x y : U64) (k : ℕ) (b : U64) : Prop where
  visible : s.Visible x y
  lt : k < 4
  addr_eq : s.pixelAddr s.target x y + BitVec.ofNat 64 k = b

/-- Where two visible pixels share a byte, the screen has the same byte in both places. -/
def PixelsAgree (s : Fb) (scr : Screen) : Prop :=
  ∀ b x y j x' y' k, s.ByteOf x y j b → s.ByteOf x' y' k b →
    colorByte (scr x y) j = colorByte (scr x' y') k

/-- Only the colours that can be seen matter. -/
theorem pixelsAgree_congr {scr scr' : Screen} (h : ∀ x y, s.Visible x y → scr x y = scr' x y) :
    PixelsAgree s scr ↔ PixelsAgree s scr' := by
  refine forall₄_congr fun b x y j => forall₅_congr fun x' y' k hb hb' => ?_
  rw [h x y hb.visible, h x' y' hb'.visible]

theorem shows_congr {base : U64} {scr scr' : Screen}
    (h : ∀ x y, s.Visible x y → scr x y = scr' x y) :
    Shows s base m scr ↔ Shows s base m scr' :=
  forall₃_congr fun x y hv => by rw [h x y hv]

/-- Two pixels of the screen share no byte. -/
def Fb.PixelsApart (s : Fb) : Prop :=
  ∀ b x y j x' y' k, s.ByteOf x y j b → s.ByteOf x' y' k b → x = x' ∧ y = y'

theorem Fb.PixelsApart.agree (h : s.PixelsApart) (scr : Screen) : PixelsAgree s scr := by
  intro b x y j x' y' k hb hb'
  obtain ⟨rfl, rfl⟩ := h b x y j x' y' k hb hb'
  have hjk : BitVec.ofNat 64 j = BitVec.ofNat 64 k :=
    (BitVec.add_right_inj _).mp (hb.addr_eq.trans hb'.addr_eq.symm)
  have hnat := congrArg BitVec.toNat hjk
  have hj := hb.lt
  have hk := hb'.lt
  rw [BitVec.toNat_ofNat, BitVec.toNat_ofNat] at hnat
  obtain rfl : j = k := by omega
  rfl

/-- Rows that do not overlap are enough. -/
theorem Fb.Geometry.pixelsApart (h : s.Geometry) : s.PixelsApart := by
  intro b x y j x' y' k hb hb'
  have hsize : s.size < 2 ^ 64 := h.size_lt
  have hend := h.pixel_end hb.visible
  have hend' := h.pixel_end hb'.visible
  have hj := hb.lt
  have hk := hb'.lt
  have haddr := hb.addr_eq.trans hb'.addr_eq.symm
  rw [Fb.pixelAddr_eq, Fb.pixelAddr_eq, BitVec.add_assoc, BitVec.add_assoc, ← BitVec.ofNat_add,
    ← BitVec.ofNat_add, BitVec.add_right_inj] at haddr
  have hoff := congrArg BitVec.toNat haddr
  rw [BitVec.toNat_ofNat, BitVec.toNat_ofNat, Nat.mod_eq_of_lt (by omega),
    Nat.mod_eq_of_lt (by omega)] at hoff
  by_contra hne
  have hapart := h.pixels_apart hb.visible hb'.visible fun heq => hne ⟨heq.1.symm, heq.2.symm⟩
  omega

/-- A put pixel writes its bytes and no others. -/
theorem bytes_plot (m : Ram 64) (p : Pixel) (b : U64) :
    (∃ k, s.ByteOf p.x p.y k b ∧ (plot s m p).bytes b = colorByte p.color k) ∨
      (∀ k, ¬ s.ByteOf p.x p.y k b) ∧ (plot s m p).bytes b = m.bytes b := by
  rw [plot, fbPutPixel]
  split_ifs with hclip
  · refine .inr ⟨?_, rfl⟩
    intro k hb
    exact hclip.elim (BitVec.not_le.mpr hb.visible.1) (BitVec.not_le.mpr hb.visible.2)
  rw [Ram.store_eq_fill]
  by_cases hb : (b - s.pixelAddr s.target p.x p.y).toNat < 4
  · exact .inl ⟨_, ⟨visible_of_not_clipped hclip, hb, add_ofNat_toNat_sub _ _⟩,
      Ram.bytes_fill_of_lt hb⟩
  · refine .inr ⟨fun k hk => hb ?_, Ram.bytes_fill_of_not_lt hb⟩
    rw [← hk.addr_eq, toNat_add_sub (Nat.lt_trans hk.lt (by decide))]
    exact hk.lt

/-- **The last pixel wins**: a byte that some pixel is put at is a byte of the screen drawn, at the
pixel put last. -/
theorem bytes_foldl_plot (l : List Pixel) (m : Ram 64) (scr : Screen) (b : U64) :
    (∃ x y k, s.ByteOf x y k b ∧
      (l.foldl (plot s) m).bytes b = colorByte (l.foldl Screen.plot scr x y) k) ∨
    ∀ p ∈ l, ∀ k, ¬ s.ByteOf p.x p.y k b := by
  induction l using List.reverseRecOn with
  | nil => exact .inr fun p hp => absurd hp List.not_mem_nil
  | append_singleton l p ih =>
    rw [List.foldl_append, List.foldl_append, List.foldl_cons, List.foldl_nil, List.foldl_cons,
      List.foldl_nil]
    rcases bytes_plot (l.foldl (plot s) m) p b with ⟨k, hk, hbyte⟩ | ⟨hnone, hbyte⟩
    · refine .inl ⟨p.x, p.y, k, hk, ?_⟩
      rw [hbyte, Screen.plot, if_pos ⟨rfl, rfl⟩]
    · rcases ih with ⟨x, y, k, hk, hold⟩ | hold
      · -- the pixel put before is not this one, which does not have the byte
        refine .inl ⟨x, y, k, hk, ?_⟩
        rw [hbyte, hold, Screen.plot, if_neg]
        rintro ⟨rfl, rfl⟩
        exact hnone k hk
      · refine .inr ?_
        intro q hq
        rcases List.mem_append.mp hq with hq | hq
        · exact hold q hq
        · obtain rfl := List.mem_singleton.mp hq
          exact hnone

/-- **When the target shows what was put**: the pixels must agree on the bytes they share. -/
theorem shows_foldl_plot_iff {l : List Pixel}
    (hall : ∀ x y, s.Visible x y → ∃ p ∈ l, p.x = x ∧ p.y = y) (scr : Screen) (m : Ram 64) :
    Shows s s.target (l.foldl (plot s) m) (l.foldl Screen.plot scr) ↔
      PixelsAgree s (l.foldl Screen.plot scr) := by
  constructor
  · intro h b x y j x' y' k hb hb'
    have hbyte := pixelAt_eq_iff.mp (h x y hb.visible) j hb.lt
    have hbyte' := pixelAt_eq_iff.mp (h x' y' hb'.visible) k hb'.lt
    rw [hb.addr_eq] at hbyte
    rw [hb'.addr_eq] at hbyte'
    exact hbyte.symm.trans hbyte'
  · intro h x y hv
    apply pixelAt_eq_iff.mpr
    intro k hk
    have hb : s.ByteOf x y k _ := ⟨hv, hk, rfl⟩
    rcases bytes_foldl_plot (s := s) l m scr _ with ⟨x', y', j, hb', hbyte⟩ | hnone
    · exact hbyte.trans (h _ _ _ _ _ _ _ hb' hb)
    · obtain ⟨p, hp, rfl, rfl⟩ := hall x y hv
      exact absurd hb (hnone p hp k)

/-- A screen of 2 by 2 pixels with a pitch of 12 bytes. -/
def sampleFb : Fb where
  fb := 0x80000000
  backBuffer := 0
  screenW := 2
  screenH := 2
  fbPitchVal := 12
  fbFormat := 0
  useDoubleBuffer := false

end OS44
