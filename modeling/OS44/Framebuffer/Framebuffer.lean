import OS44.Framebuffer.Font
import OS44.Kernel.String

/-! # The framebuffer (`framebuffer.c`)

Drawing goes pixel by pixel into the target, which is the framebuffer or, with double buffering on,
the back buffer; `fb_swap_buffers` then copies the rows of the one to the other. The statics of the
driver (`Fb`) do not change while drawing, so a drawing function takes them and maps memory to
memory. A string is passed as its characters. -/

namespace OS44

open LittleEndian

/-- The statics of the driver. -/
structure Fb where
  fb : U64
  backBuffer : U64
  screenW : U64
  screenH : U64
  fbPitchVal : U64
  fbFormat : U32
  useDoubleBuffer : Bool

def fbColorBlack : U32 := 0x00000000
def fbColorWhite : U32 := 0x00FFFFFF
def fbColorGreen : U32 := 0x0000FF00
def fbColorRed : U32 := 0x00FF0000
def fbFormatBgr : U32 := 1

/-- `fb_init`. -/
def fbInit (info : BootInfo) (s : Fb) : Fb :=
  { s with
    fb := info.framebuffer
    screenW := info.fbWidth
    screenH := info.fbHeight
    fbPitchVal := info.fbPitch
    fbFormat := info.fbFormat }

/-! ## Colours -/

/-- `fb_rgb`. -/
def fbRgb (s : Fb) (r g b : U8) : U32 :=
  if s.fbFormat = fbFormatBgr then r.setWidth 32 ||| g.setWidth 32 <<< 8 ||| b.setWidth 32 <<< 16
  else b.setWidth 32 ||| g.setWidth 32 <<< 8 ||| r.setWidth 32 <<< 16

/-- `hsv_to_rgb`: red, green and blue of a hue. -/
def hsvToRgb (h : U32) : U8 × U8 × U8 :=
  let region := h / 43
  let remainder := (h - region * 43) * 6
  let p := (255 * (255 - remainder)) >>> 8
  let q := (255 * (255 - ((255 - remainder) * (43 - (h % 43))) / 43)) >>> 8
  let t := 255 - p
  match region.toNat with
  | 0 => (255, p.setWidth 8, t.setWidth 8)
  | 1 => (q.setWidth 8, 255, t.setWidth 8)
  | 2 => (t.setWidth 8, 255, p.setWidth 8)
  | 3 => (t.setWidth 8, q.setWidth 8, 255)
  | 4 => (p.setWidth 8, t.setWidth 8, 255)
  | _ => (255, t.setWidth 8, q.setWidth 8)

/-- `fb_rgb` of a hue. -/
def hueColor (s : Fb) (hue : U32) : U32 :=
  let rgb := hsvToRgb hue
  fbRgb s rgb.1 rgb.2.1 rgb.2.2

/-! ## Pixels -/

/-- `use_double_buffer ? back_buffer : fb`. -/
def Fb.target (s : Fb) : U64 := if s.useDoubleBuffer then s.backBuffer else s.fb

/-- The address of a pixel in a buffer. -/
def Fb.pixelAddr (s : Fb) (base x y : U64) : U64 := base + y * s.fbPitchVal + x * 4

/-- `fb_put_pixel`. -/
def fbPutPixel (s : Fb) (x y : U64) (color : U32) (m : Ram 64) : Ram 64 :=
  if s.screenW ≤ x ∨ s.screenH ≤ y then m else m.store (s.pixelAddr s.target x y) 4 color.toNat

/-- The values of `for (uint64_t v = lo; v < hi; v++)`. -/
def forRange (lo hi : ℕ) : List U64 := (List.range' lo (hi - lo)).map (BitVec.ofNat 64)

/-- Rows of pixels, each from left to right. -/
def drawRows (s : Fb) (rows : List U64) (color : U64 → U32) (m : Ram 64) : Ram 64 :=
  rows.foldl (fun m row =>
    (forRange 0 s.screenW.toNat).foldl (fun m x => fbPutPixel s x row (color x) m) m) m

/-- `fb_clear`. -/
def fbClear (s : Fb) (color : U32) (m : Ram 64) : Ram 64 :=
  if s.useDoubleBuffer ∧ s.backBuffer ≠ 0 then
    memset s.backBuffer color (s.screenH * s.fbPitchVal) m
  else drawRows s (forRange 0 s.screenH.toNat) (fun _ => color) m

/-! ## Text -/

/-- The rows of a character; what has no glyph is drawn as a question mark. -/
def glyph (c : U8) : List U8 :=
  let c : U8 := if c.toInt < 32 ∨ 126 < c.toInt then 63 else c
  font.getD (c.toNat - 32) []

/-- The colour of a pixel of a character. -/
def glyphColor (c : U8) (fg bg : U32) (row col : ℕ) : U32 :=
  if (glyph c).getD row 0 &&& 1 <<< col ≠ 0 then fg else bg

/-- `fb_draw_char`. -/
def fbDrawChar (s : Fb) (c : U8) (x y : U64) (fg bg : U32) (m : Ram 64) : Ram 64 :=
  (List.range 8).foldl (fun m row =>
    (List.range 8).foldl (fun m col =>
      fbPutPixel s (x + BitVec.ofNat 64 col) (y + BitVec.ofNat 64 row)
        (glyphColor c fg bg row col) m) m) m

/-- `fb_draw_string`: the characters up to the first NUL. -/
def fbDrawString (s : Fb) (str : List U8) (x y : U64) (fg bg : U32) (m : Ram 64) : Ram 64 :=
  match str with
  | [] => m
  | c :: str =>
    if c = 0 then m else fbDrawString s str (x + 8) y fg bg (fbDrawChar s c x y fg bg m)

/-! ## The colour bar -/

/-- `(x * 255) / (screen_w ? screen_w : 1)`. -/
def barLevel (s : Fb) (x : U64) : U64 := x * 255 / (if s.screenW ≠ 0 then s.screenW else 1)

/-- The first band, from green to red. -/
def barRedGreen (s : Fb) (x : U64) : U32 :=
  let r : U8 := (barLevel s x).setWidth 8
  fbRgb s r (255 - r) 0

/-- The second band, from blue to green. -/
def barGreenBlue (s : Fb) (x : U64) : U32 :=
  let g : U8 := (barLevel s x).setWidth 8
  fbRgb s 0 g (255 - g)

/-- The third band, through the hues. -/
def barHue (s : Fb) (x : U64) : U32 := hueColor s ((barLevel s x).setWidth 32)

/-- `bar_bottom`. -/
def barBottom (s : Fb) (y height : U64) : U64 :=
    if s.screenH < y + height then s.screenH else y + height

/-- `third`. -/
def barThird (height : U64) : U64 := if height / 3 = 0 then 1 else height / 3

/-- `fb_draw_color_bar`. -/
def fbDrawColorBar (s : Fb) (y height : U64) (m : Ram 64) : Ram 64 :=
  if height = 0 then m
  else
    let bottom := (barBottom s y height).toNat
    let third := barThird height
    let midStart := y + third
    let hueStart := midStart + third
    let m := drawRows s (forRange y.toNat (min (y + third).toNat bottom)) (barRedGreen s) m
    let m := drawRows s (forRange midStart.toNat (min (midStart + third).toNat bottom))
      (barGreenBlue s) m
    drawRows s (forRange hueStart.toNat bottom) (barHue s) m

/-! ## The circle -/

/-- The value of a signed 64-bit operation, which must not overflow. -/
def int64 (v : ℤ) : Option ℤ := if -2 ^ 63 ≤ v ∧ v < 2 ^ 63 then some v else none

/-- The values of `for (int64_t v = lo; v <= hi; v++)`. -/
def intRange (lo hi : ℤ) : List ℤ := (List.range (hi - lo + 1).toNat).map fun k : ℕ => lo + k

/-- The colour of a column of the circle; a radius of 0 is a division by zero. -/
def circleColor (s : Fb) (radius : U64) (x : ℤ) : Option U32 := do
  let n ← int64 (x + radius.toInt)
  let n ← int64 (n * 255)
  if 2 * radius = 0 then none
  else some (hueColor s ((BitVec.ofInt 64 n / (2 * radius)).setWidth 32))

/-- The body of the loops of the circle. -/
def circleBody (s : Fb) (x0 y0 radius : U64) (y x : ℤ) (m : Ram 64) : Option (Ram 64) := do
  let xx ← int64 (x * x)
  let yy ← int64 (y * y)
  let d ← int64 (xx + yy)
  let rr ← int64 (radius.toInt * radius.toInt)
  if d ≤ rr then
    let color ← circleColor s radius x
    some (fbPutPixel s (x0 + BitVec.ofInt 64 x) (y0 + BitVec.ofInt 64 y) color m)
  else some m

/-- `fb_draw_filled_circle`: `none` where an operation of it is undefined. -/
def fbDrawFilledCircle (s : Fb) (x0 y0 radius : U64) (m : Ram 64) : Option (Ram 64) := do
  let lo ← int64 (-radius.toInt)
  (intRange lo radius.toInt).foldlM (fun m y =>
    (intRange lo radius.toInt).foldlM (fun m x => circleBody s x0 y0 radius y x m) m) m

/-! ## Double buffering -/

/-- `fb_enable_double_buffering`, where `mem_alloc` returned `p`. -/
def fbEnableDoubleBuffering (s : Fb) (p : U64) (m : Ram 64) : Fb × Ram 64 :=
  if p ≠ 0 then ({ s with backBuffer := p, useDoubleBuffer := true }, m)
  else
    let s := { s with backBuffer := 0 }
    (s, fbDrawString s ("WARN: double buffer alloc failed".toList.map fun c =>
      BitVec.ofNat 8 c.toNat)
      32 32 fbColorRed fbColorBlack m)

/-- `fb_swap_buffers`. -/
def fbSwapBuffers (s : Fb) (m : Ram 64) : Ram 64 :=
  if s.useDoubleBuffer ∧ s.backBuffer ≠ 0 then
    (forRange 0 s.screenH.toNat).foldl (fun m y =>
      memcpy (s.fb + y * s.fbPitchVal) (s.backBuffer + y * s.fbPitchVal) (s.screenW * 4) m) m
  else m

/-! ## Sequences of calls -/

/-- The drawing functions with their arguments. -/
inductive DrawCall
  | putPixel (x y : U64) (color : U32)
  | drawChar (c : U8) (x y : U64) (fg bg : U32)
  | drawString (str : List U8) (x y : U64) (fg bg : U32)
  | drawColorBar (y height : U64)
  | drawFilledCircle (x0 y0 radius : U64)
  | clear (color : U32)

/-- One call. -/
def fbDraw (s : Fb) : DrawCall → Ram 64 → Option (Ram 64)
  | .putPixel x y color, m => some (fbPutPixel s x y color m)
  | .drawChar c x y fg bg, m => some (fbDrawChar s c x y fg bg m)
  | .drawString str x y fg bg, m => some (fbDrawString s str x y fg bg m)
  | .drawColorBar y height, m => some (fbDrawColorBar s y height m)
  | .drawFilledCircle x0 y0 radius, m => fbDrawFilledCircle s x0 y0 radius m
  | .clear color, m => some (fbClear s color m)

/-- One call after another. -/
def fbDrawAll (s : Fb) (calls : List DrawCall) (m : Ram 64) : Option (Ram 64) :=
  calls.foldlM (fun m c => fbDraw s c m) m

end OS44
