import OS44.Framebuffer.Screen

/-! # Clearing the screen

`fb_clear` stores the colour pixel by pixel, or with double buffering on fills the back buffer with
one byte of it. What it leaves is the colour wherever two pixels agree on the bytes they share, and
with double buffering only if the four bytes of the colour are equal (`fb_clear_iff`). -/

namespace OS44

open LittleEndian ByteRange

variable {s : Fb} {m : Ram 64} {x y : U64} {color : U32}

/-! ## The two ways to clear -/

/-- **What `fb_clear` must do**: whatever the memory was, every visible pixel of the target has the
colour. -/
def ClearsTo (s : Fb) (color : U32) : Prop :=
  ∀ m x y, s.Visible x y → s.pixelAt s.target (fbClear s color m) x y = color

/-- The four bytes of the colour are equal. -/
def SameBytes (color : U32) : Prop := ∀ k < 4, colorByte color k = color.setWidth 8

instance (color : U32) : Decidable (SameBytes color) :=
  inferInstanceAs (Decidable (∀ k < 4, colorByte color k = color.setWidth 8))

/-- The pixel lies in the bytes that are filled. -/
def Fb.Filled (s : Fb) (x y : U64) : Prop :=
  ∀ k < 4, (s.pixelAddr s.target x y + BitVec.ofNat 64 k - s.target).toNat <
    (s.screenH * s.fbPitchVal).toNat

/-- **Pixel by pixel.** -/
theorem clearsTo_iff_of_pixels (hmode : ¬ (s.useDoubleBuffer ∧ s.backBuffer ≠ 0)) :
    ClearsTo s color ↔ PixelsAgree s fun _ _ => color := by
  have hall : ∀ x y, s.Visible x y → ∃ p ∈ s.pixels (.clear color), p.x = x ∧ p.y = y :=
    fun x y hv => ⟨_, mem_pixels_clear color hv, rfl, rfl⟩
  have hscreen : ∀ x y, s.Visible x y →
      (s.pixels (.clear color)).foldl Screen.plot (fun _ _ => color) x y = color :=
    fun x y hv => foldl_plot_pixels_clear color _ hv
  -- with any memory to start from
  have hclear : ∀ m, (∀ x y, s.Visible x y → s.pixelAt s.target (fbClear s color m) x y = color) ↔
      PixelsAgree s fun _ _ => color := by
    intro m
    rw [← pixelsAgree_congr hscreen, ← shows_foldl_plot_iff hall (fun _ _ => color) m,
      shows_congr hscreen, fbClear, if_neg hmode, drawRows_eq]
    rfl
  exact ⟨fun h => (hclear ⟨fun _ => 0, fun _ => false⟩).mp (h _), fun h m => (hclear m).mpr h⟩

/-! ## A clear among other calls -/

theorem Screen.foldl_plot_congr {l : List Pixel} {scr scr' : Screen} (h : scr x y = scr' x y) :
    l.foldl Screen.plot scr x y = l.foldl Screen.plot scr' x y := by
  induction l generalizing scr scr' with
  | nil => exact h
  | cons p l ih =>
    apply ih
    rw [Screen.plot, Screen.plot, h]

/-- Where it can be seen, a call draws the pixels it puts. -/
theorem Screen.draw_eq_foldl_plot (scr : Screen) (c : DrawCall) (hv : s.Visible x y) :
    scr.draw s c x y = (s.pixels c).foldl Screen.plot scr x y := by
  cases c with
  | clear color => exact (foldl_plot_pixels_clear color scr hv).symm
  | _ => rfl

theorem Screen.foldl_draw_eq (calls : List DrawCall) {scr scr' : Screen} (hv : s.Visible x y)
    (h : scr x y = scr' x y) :
    calls.foldl (Screen.draw s) scr x y =
      (calls.flatMap s.pixels).foldl Screen.plot scr' x y := by
  induction calls generalizing scr scr' with
  | nil => exact h
  | cons c calls ih =>
    rw [List.flatMap_cons, List.foldl_append, List.foldl_cons]
    apply ih
    rw [Screen.draw_eq_foldl_plot scr c hv]
    exact Screen.foldl_plot_congr h

/-- **When a picture is shown**: calls with a clear among them, put pixel by pixel, leave the
colours last drawn if pixels agree on the bytes they share. -/
theorem shows_fbDrawAll_iff (hmode : ¬ (s.useDoubleBuffer ∧ s.backBuffer ≠ 0))
    {calls : List DrawCall} (hcalls : ∀ c ∈ calls, c.Allowed) (hclear : .clear color ∈ calls)
    (scr : Screen) (m : Ram 64) :
    ∃ m', fbDrawAll s calls m = some m' ∧
      (Shows s s.target m' (calls.foldl (Screen.draw s) scr) ↔
        PixelsAgree s (calls.foldl (Screen.draw s) scr)) := by
  have hall : ∀ x y, s.Visible x y → ∃ p ∈ calls.flatMap s.pixels, p.x = x ∧ p.y = y :=
    fun x y hv => ⟨_, List.mem_flatMap.mpr ⟨_, hclear, mem_pixels_clear color hv⟩, rfl, rfl⟩
  have hscreen : ∀ x y, s.Visible x y → calls.foldl (Screen.draw s) scr x y =
      (calls.flatMap s.pixels).foldl Screen.plot scr x y :=
    fun x y hv => Screen.foldl_draw_eq calls hv rfl
  refine ⟨_, fbDrawAll_eq_foldl_plot hmode hcalls m, ?_⟩
  rw [shows_congr hscreen, pixelsAgree_congr hscreen]
  exact shows_foldl_plot_iff hall scr m

/-! ## When the screen is cleared -/

/-- **All at once.** -/
theorem clearsTo_iff_of_buffered (hmode : s.useDoubleBuffer ∧ s.backBuffer ≠ 0) :
    ClearsTo s color ↔ ∀ x y, s.Visible x y → SameBytes color ∧ s.Filled x y := by
  have htarget : s.target = s.backBuffer := if_pos hmode.1
  have hclear : ∀ m, fbClear s color m =
      m.fill s.target (s.screenH * s.fbPitchVal).toNat fun _ => color.setWidth 8 := by
    intro m
    rw [fbClear, if_pos hmode, memset_eq_fill, htarget]
  constructor
  · intro h x y hv
    have hfilled : s.Filled x y := by
      intro k hk
      by_contra hout
      -- a byte that is not filled may be anything
      have hbyte : ∀ v, v = colorByte color k := by
        intro v
        have hpixel := pixelAt_eq_iff.mp (h ⟨fun _ => v, fun _ => false⟩ x y hv) k hk
        rwa [hclear, Ram.bytes_fill_of_not_lt hout] at hpixel
      exact absurd ((hbyte 0).trans (hbyte 1).symm) (by decide)
    refine ⟨?_, hfilled⟩
    intro k hk
    have hpixel := pixelAt_eq_iff.mp (h ⟨fun _ => 0, fun _ => false⟩ x y hv) k hk
    rw [hclear, Ram.bytes_fill_of_lt (hfilled k hk)] at hpixel
    exact hpixel.symm
  · intro h m x y hv
    obtain ⟨hsame, hfilled⟩ := h x y hv
    apply pixelAt_eq_iff.mpr
    intro k hk
    rw [hclear, Ram.bytes_fill_of_lt (hfilled k hk), hsame k hk]

/-- In a buffer with a size every visible pixel is filled. -/
theorem Fb.Geometry.filled (h : s.Geometry) (hv : s.Visible x y) : s.Filled x y := by
  intro k hk
  have hsize : s.size < 2 ^ 64 := h.size_lt
  have hlen : (s.screenH * s.fbPitchVal).toNat = s.size := by
    rw [BitVec.toNat_mul, Nat.mod_eq_of_lt h.size_lt, Fb.size]
  have hend := h.pixel_end hv
  rw [hlen, Fb.pixelAddr_eq, BitVec.add_assoc, ← BitVec.ofNat_add, toNat_add_sub (by omega)]
  omega

/-- **When the screen is cleared.** For every screen, buffer and colour: pixel by pixel if pixels
agree on the bytes they share; all at once if the four bytes of the colour are equal and every
visible pixel is in the range that is filled. Where the rows do not overlap and the buffer has a
size, only the colour matters, and only with double buffering. -/
theorem fb_clear_iff (s : Fb) (color : U32) :
    (ClearsTo s color ↔
      if s.useDoubleBuffer ∧ s.backBuffer ≠ 0 then
        ∀ x y, s.Visible x y → SameBytes color ∧ s.Filled x y
      else PixelsAgree s fun _ _ => color) ∧
    (s.Geometry → (ClearsTo s color ↔
      (s.useDoubleBuffer ∧ s.backBuffer ≠ 0 → SameBytes color ∨ ∀ x y, ¬ s.Visible x y))) := by
  by_cases hmode : s.useDoubleBuffer ∧ s.backBuffer ≠ 0
  · rw [if_pos hmode]
    have hiff : ClearsTo s color ↔ _ := clearsTo_iff_of_buffered hmode
    refine ⟨hiff, ?_⟩
    intro hgeom
    rw [hiff]
    constructor
    · -- a colour of different bytes is right only where there is nothing to see
      intro h _
      by_cases hsame : SameBytes color
      · exact .inl hsame
      · exact .inr fun x y hv => hsame (h x y hv).1
    · intro h x y hv
      exact ⟨(h hmode).resolve_right fun hnone => hnone x y hv, hgeom.filled hv⟩
  · rw [if_neg hmode]
    have hiff : ClearsTo s color ↔ _ := clearsTo_iff_of_pixels hmode
    refine ⟨hiff, fun hgeom => iff_of_true (fun m x y hv => ?_) fun h => absurd h hmode⟩
    rw [fbClear, if_neg hmode, drawRows_eq]
    exact shows_clear_pixels hgeom color m x y hv

/-- The small screen with a back buffer. -/
def sampleBuffered : Fb := { sampleFb with backBuffer := 0x1000000, useDoubleBuffer := true }

/-- A clear to `FB_COLOR_WHITE`, pixel by pixel. -/
theorem fb_clear_iff_sample : ClearsTo sampleFb fbColorWhite := by
  obtain ⟨-, hiff⟩ := fb_clear_iff sampleFb fbColorWhite
  exact (hiff ⟨by decide, by decide⟩).mpr fun h => absurd h.1 Bool.false_ne_true

/-- **Red is cleared to black.** The low byte of `FB_COLOR_RED` is 0, and it is all that the back
buffer is filled with. -/
theorem fb_clear_red_buffered : ¬ ClearsTo sampleBuffered fbColorRed := by
  intro h
  have hmode : sampleBuffered.useDoubleBuffer ∧ sampleBuffered.backBuffer ≠ 0 :=
    ⟨rfl, by decide⟩
  obtain ⟨hsame, -⟩ := (clearsTo_iff_of_buffered hmode).mp h 0 0 ⟨by decide, by decide⟩
  exact absurd hsame (by decide)

end OS44
