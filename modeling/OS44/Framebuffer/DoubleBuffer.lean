import OS44.Framebuffer.Screen

/-! # Double buffering

Drawing into the back buffer and swapping leaves the framebuffer as drawing into it directly does,
on every pixel of the screen, and touches nothing else of it (`fb_double_buffering`): both modes
refine the same screen, and `fb_swap_buffers` copies exactly the visible part of each row
(`swapRows_spec`). -/

namespace OS44

open LittleEndian ByteRange

/-! ## The two modes -/

/-- Drawing into the framebuffer. -/
def Fb.direct (s : Fb) : Fb := { s with useDoubleBuffer := false }

/-- Drawing into the back buffer at `p`. -/
def Fb.buffered (s : Fb) (p : U64) : Fb := { s with backBuffer := p, useDoubleBuffer := true }

variable {s : Fb} {m : Ram 64} {p : U64}

/-- Double buffering is switched on by an allocation that succeeds. -/
theorem fbEnableDoubleBuffering_of_ne_zero (hp : p ≠ 0) :
    fbEnableDoubleBuffering s p m = (s.buffered p, m) := if_pos hp

theorem ready_direct (s : Fb) : s.direct.Ready := fun h => absurd h Bool.false_ne_true

theorem ready_buffered (hp : p ≠ 0) : (s.buffered p).Ready := fun _ => hp

theorem Fb.Geometry.direct (h : s.Geometry) : s.direct.Geometry := ⟨h.row_le, h.size_lt⟩

theorem Fb.Geometry.buffered (h : s.Geometry) (p : U64) : (s.buffered p).Geometry :=
  ⟨h.row_le, h.size_lt⟩

/-- A call puts the same pixels in either mode. -/
theorem draw_buffered (s : Fb) (p : U64) : Screen.draw (s.buffered p) = Screen.draw s.direct := by
  funext scr c
  cases c <;> rfl

/-! ## Swapping -/

/-- The bytes of the framebuffer that are seen. -/
def Fb.VisibleByte (s : Fb) (b : U64) : Prop :=
  ∃ x y, s.Visible x y ∧ ∃ k < 4, b = s.pixelAddr s.fb x y + BitVec.ofNat 64 k

/-- The visible bytes of the first `k` rows. -/
def Fb.RowByte (s : Fb) (k : ℕ) (b : U64) : Prop :=
  ∃ i < k, ∃ t < 4 * s.screenW.toNat, b = s.fb + BitVec.ofNat 64 (i * s.fbPitchVal.toNat + t)

/-- One round of `fb_swap_buffers`. -/
def swapRow (s : Fb) (m : Ram 64) (i : ℕ) : Ram 64 :=
  memcpy (s.fb + BitVec.ofNat 64 i * s.fbPitchVal) (s.backBuffer + BitVec.ofNat 64 i * s.fbPitchVal)
    (s.screenW * 4) m

theorem fbSwapBuffers_eq (hmode : s.useDoubleBuffer ∧ s.backBuffer ≠ 0) (m : Ram 64) :
    fbSwapBuffers s m = (List.range s.screenH.toNat).foldl (swapRow s) m := by
  rw [fbSwapBuffers, if_pos hmode, forRange, List.foldl_map, Nat.sub_zero, ← List.range_eq_range']
  rfl

/-- The framebuffer and the back buffer do not meet. -/
def Fb.Apart (s : Fb) : Prop := ∀ b, s.InBuffer s.fb b → ¬ s.InBuffer s.backBuffer b

/-- A back buffer below a framebuffer that does not wrap around. -/
theorem Fb.apart_of_le (hback : s.backBuffer.toNat + s.size ≤ s.fb.toNat)
    (hend : s.fb.toNat + s.size ≤ 2 ^ 64) : s.Apart := by
  intro b hin hin'
  rw [Fb.InBuffer, BitVec.toNat_sub] at hin hin'
  have hb := b.isLt
  omega

/-- A row byte is in its buffer. -/
theorem Fb.Geometry.inBuffer_row (h : s.Geometry) (base : U64) {i t : ℕ} (hi : i < s.screenH.toNat)
    (ht : t < 4 * s.screenW.toNat) :
    s.InBuffer base (base + BitVec.ofNat 64 (i * s.fbPitchVal.toNat + t)) := by
  have hend := h.row_end hi (t := t + 1) ht
  have hsize : s.size < 2 ^ 64 := h.size_lt
  rw [Fb.InBuffer, toNat_add_sub (by omega)]
  omega

/-- **A round copies the visible part of its row.** -/
theorem swapRow_eq (hgeom : s.Geometry) (hapart : s.Apart) {i : ℕ} (hi : i < s.screenH.toNat)
    (m : Ram 64) : swapRow s m i =
      m.fill (s.fb + BitVec.ofNat 64 (i * s.fbPitchVal.toNat)) (4 * s.screenW.toNat) fun t =>
        m.bytes (s.backBuffer + BitVec.ofNat 64 (i * s.fbPitchVal.toNat + t)) := by
  have hpitch : BitVec.ofNat 64 i * s.fbPitchVal = BitVec.ofNat 64 (i * s.fbPitchVal.toNat) := by
    rw [BitVec.ofNat_mul, BitVec.ofNat_toNat, BitVec.setWidth_eq]
  have hlen : (s.screenW * 4).toNat = 4 * s.screenW.toNat := by
    have hrow := hgeom.row_le
    have hlt := s.fbPitchVal.isLt
    have h4 : (4 : U64).toNat = 4 := rfl
    rw [BitVec.toNat_mul, h4]
    omega
  have haddr : ∀ (base : U64) (t : ℕ), base + BitVec.ofNat 64 (i * s.fbPitchVal.toNat) +
      BitVec.ofNat 64 t = base + BitVec.ofNat 64 (i * s.fbPitchVal.toNat + t) := fun base t => by
    rw [BitVec.add_assoc, ← BitVec.ofNat_add]
  rw [swapRow, hpitch, memcpy_eq_fill, hlen]
  · exact Ram.fill_congr fun t _ => by rw [haddr]
  · -- a byte of the framebuffer is none of the back buffer
    intro t ht u hu heq
    rw [hlen] at ht hu
    rw [haddr, haddr] at heq
    exact hapart _ (hgeom.inBuffer_row s.fb hi hu) (heq ▸ hgeom.inBuffer_row s.backBuffer hi ht)

/-- **The rows of a swap**: the visible bytes of the rows done are those of the back buffer, and
nothing else was written. -/
theorem swapRows_spec (hgeom : s.Geometry) (hapart : s.Apart) {k : ℕ} (hk : k ≤ s.screenH.toNat)
    (m : Ram 64) :
    Ram.Within (s.RowByte k) m ((List.range k).foldl (swapRow s) m) ∧
      ∀ i < k, ∀ t < 4 * s.screenW.toNat,
        ((List.range k).foldl (swapRow s) m).bytes
            (s.fb + BitVec.ofNat 64 (i * s.fbPitchVal.toNat + t)) =
          m.bytes (s.backBuffer + BitVec.ofNat 64 (i * s.fbPitchVal.toNat + t)) := by
  have hsize : s.size < 2 ^ 64 := hgeom.size_lt
  induction k with
  | zero => exact ⟨.refl _ m, fun i hi => absurd hi (Nat.not_lt_zero i)⟩
  | succ k ih =>
    obtain ⟨hwithin, hcopied⟩ := ih (by omega)
    have hkend := hgeom.row_end (i := k) hk le_rfl
    rw [List.range_succ, List.foldl_append, List.foldl_cons, List.foldl_nil,
      swapRow_eq hgeom hapart hk]
    constructor
    · -- the rounds before and this one write bytes of rows up to `k`
      refine (hwithin.mono fun b ⟨i, hi, hb⟩ => ⟨i, by omega, hb⟩).trans
        (Ram.within_fill _ fun b hb => ?_)
      refine ⟨k, Nat.lt_succ_self k, _, hb, ?_⟩
      rw [BitVec.ofNat_add, ← BitVec.add_assoc, add_ofNat_toNat_sub]
    · intro i hi t ht
      rcases Nat.lt_succ_iff_lt_or_eq.mp hi with hlt | rfl
      · -- a row before: this round writes behind it
        have hbefore := hgeom.row_lt hlt (t := t + 1) ht
        rw [Ram.bytes_fill_of_not_lt, hcopied i hlt t ht]
        rw [toNat_offset_sub _ (by omega) (by omega)]
        split_ifs <;> omega
      · -- its own row: the back buffer has not been written
        have hoff : (s.fb + BitVec.ofNat 64 (i * s.fbPitchVal.toNat + t) -
            (s.fb + BitVec.ofNat 64 (i * s.fbPitchVal.toNat))).toNat = t := by
          rw [toNat_offset_sub _ (by omega) (by omega), if_pos (Nat.le_add_right _ _),
            Nat.add_sub_cancel_left]
        rw [Ram.bytes_fill_of_lt (by rw [hoff]; exact ht), hoff]
        refine (hwithin _ ?_).1
        rintro ⟨j, hj, u, hu, heq⟩
        exact hapart _ (hgeom.inBuffer_row s.fb (by omega) hu)
          (heq ▸ hgeom.inBuffer_row s.backBuffer (by omega) ht)

/-- The visible bytes of the rows are those of the pixels. -/
theorem Fb.VisibleByte.of_rowByte {b : U64} (h : s.RowByte s.screenH.toNat b) :
    s.VisibleByte b := by
  obtain ⟨i, hi, t, ht, rfl⟩ := h
  have hw := s.screenW.isLt
  have hh := s.screenH.isLt
  have hx : (BitVec.ofNat 64 (t / 4)).toNat = t / 4 := by
    rw [BitVec.toNat_ofNat, Nat.mod_eq_of_lt (by omega)]
  have hy : (BitVec.ofNat 64 i).toNat = i := by
    rw [BitVec.toNat_ofNat, Nat.mod_eq_of_lt (by omega)]
  refine ⟨BitVec.ofNat 64 (t / 4), BitVec.ofNat 64 i, ⟨?_, ?_⟩, t % 4, Nat.mod_lt _ (by decide), ?_⟩
  · rw [BitVec.lt_def, hx]
    omega
  · rw [BitVec.lt_def, hy]
    exact hi
  · rw [Fb.pixelAddr_eq, Fb.pixelOffset, hx, hy, BitVec.add_assoc, ← BitVec.ofNat_add,
      Nat.add_assoc,
      Nat.div_add_mod]

/-- **A swap** shows in the framebuffer what the back buffer shows, and writes
only visible bytes. -/
theorem fbSwapBuffers_spec (hgeom : s.Geometry) (hapart : s.Apart)
    (hmode : s.useDoubleBuffer ∧ s.backBuffer ≠ 0) (m : Ram 64) :
    Ram.Within s.VisibleByte m (fbSwapBuffers s m) ∧
      ∀ x y, s.Visible x y →
        s.pixelAt s.fb (fbSwapBuffers s m) x y = s.pixelAt s.backBuffer m x y := by
  obtain ⟨hwithin, hcopied⟩ := swapRows_spec hgeom hapart le_rfl m
  rw [fbSwapBuffers_eq hmode]
  refine ⟨hwithin.mono fun b hb => .of_rowByte hb, ?_⟩
  intro x y hv
  have hx : x.toNat < s.screenW.toNat := hv.1
  refine congrArg (BitVec.ofNat 32) (loadLE_congr fun k hk => ?_)
  rw [Fb.pixelAddr_eq, Fb.pixelAddr_eq, BitVec.add_assoc, BitVec.add_assoc, ← BitVec.ofNat_add,
    Fb.pixelOffset, Nat.add_assoc]
  exact hcopied y.toNat hv.2 (4 * x.toNat + k) (by omega)

/-- A visible byte is in the framebuffer. -/
theorem Fb.VisibleByte.inBuffer (hgeom : s.Geometry) {b : U64} (h : s.VisibleByte b) :
    s.InBuffer s.fb b := by
  obtain ⟨x, y, hv, k, hk, rfl⟩ := h
  have hsize : s.size < 2 ^ 64 := hgeom.size_lt
  have hend := hgeom.pixel_end hv
  rw [Fb.InBuffer, Fb.pixelAddr_eq, BitVec.add_assoc, ← BitVec.ofNat_add, toNat_add_sub (by omega)]
  omega

/-! ## The modes agree -/

/-- **Double buffering.** For every geometry, back buffer apart from the framebuffer and sequence of
calls that starts by clearing the screen to black: drawing into the back buffer and swapping gives
every visible pixel the colour it gets from drawing directly and changes no other byte of the
framebuffer; and no call writes outside its target, nor a swap outside the framebuffer. -/
theorem fb_double_buffering (s : Fb) (hgeom : s.Geometry) (p : U64) (hp : p ≠ 0)
    (hapart : (s.buffered p).Apart) (calls : List DrawCall) (hcalls : ∀ c ∈ calls, c.Allowed)
    (m : Ram 64) :
    ∃ mDirect mBuffered,
      fbDrawAll s.direct (.clear fbColorBlack :: calls) m = some mDirect ∧
      fbDrawAll (s.buffered p) (.clear fbColorBlack :: calls) m = some mBuffered ∧
      (∀ x y, s.Visible x y →
        s.pixelAt s.fb (fbSwapBuffers (s.buffered p) mBuffered) x y = s.pixelAt s.fb mDirect x y) ∧
      (∀ b, s.InBuffer s.fb b → ¬ s.VisibleByte b →
        (fbSwapBuffers (s.buffered p) mBuffered).bytes b = m.bytes b) ∧
      (∀ t, t = s.direct ∨ t = s.buffered p → ∀ c : DrawCall, c.Allowed → ∀ m₁ m₂,
        fbDraw t c m₁ = some m₂ → Ram.Within (t.InBuffer t.target) m₁ m₂) ∧
      ∀ m₁, Ram.Within (s.InBuffer s.fb) m₁ (fbSwapBuffers (s.buffered p) m₁) := by
  have hmode : (s.buffered p).useDoubleBuffer ∧ (s.buffered p).backBuffer ≠ 0 := ⟨rfl, hp⟩
  have hcalls' : ∀ c ∈ DrawCall.clear fbColorBlack :: calls, c.Allowed :=
    List.forall_mem_cons.mpr ⟨rfl, hcalls⟩
  obtain ⟨m₁, hm₁, -, hshows₁⟩ := fbDrawAll_spec hgeom.direct (ready_direct s) hcalls' m
  obtain ⟨m₂, hm₂, hwithin₂, hshows₂⟩ :=
    fbDrawAll_spec (hgeom.buffered p) (ready_buffered hp) hcalls' m
  have hswap := fbSwapBuffers_spec (hgeom.buffered p) hapart hmode
  refine ⟨m₁, m₂, hm₁, hm₂, ?_, ?_, ?_, ?_⟩
  · -- the screen drawn does not depend on what was shown before the clear
    intro x y hv
    have hdirect := hshows₁ (s.pixelAt s.fb m) (fun _ _ _ => rfl) x y hv
    have hbuffered := hshows₂ (s.pixelAt p m) (fun _ _ _ => rfl) x y hv
    rw [draw_buffered] at hbuffered
    exact ((hswap m₂).2 x y hv).trans (hbuffered.trans hdirect.symm)
  · -- neither the swap nor, the buffers being apart, the drawing touches the byte
    intro b hb hnv
    exact ((hswap m₂).1 b hnv).1.trans (hwithin₂ b (hapart b hb)).1
  · intro t ht c hc n₁ n₂ hdraw
    have hspec : ∃ m', fbDraw t c n₁ = some m' ∧ Ram.Within (t.InBuffer t.target) n₁ m' := by
      rcases ht with rfl | rfl
      · obtain ⟨m', hm', hwithin, -⟩ := fbDraw_spec hgeom.direct (ready_direct s) hc n₁
        exact ⟨m', hm', hwithin⟩
      · obtain ⟨m', hm', hwithin, -⟩ := fbDraw_spec (hgeom.buffered p) (ready_buffered hp) hc n₁
        exact ⟨m', hm', hwithin⟩
    obtain ⟨m', hm', hwithin⟩ := hspec
    obtain rfl : m' = n₂ := Option.some.inj (hm'.symm.trans hdraw)
    exact hwithin
  · intro m₁
    exact (hswap m₁).1.mono fun b hb => Fb.VisibleByte.inBuffer (hgeom.buffered p) hb

/-- A memory of ones. -/
def sampleRam : Ram 64 where
  bytes := fun _ => 0xFF
  written := fun _ => false

/-- A circle on the small screen. -/
theorem fb_double_buffering_sample : ∃ mDirect mBuffered,
    fbDrawAll sampleFb.direct [.clear fbColorBlack, .drawFilledCircle 0 0 1] sampleRam =
      some mDirect ∧
    fbDrawAll (sampleFb.buffered 0x1000000) [.clear fbColorBlack,
      .drawFilledCircle 0 0 1] sampleRam =
      some mBuffered ∧
    ∀ x y, sampleFb.Visible x y →
      sampleFb.pixelAt sampleFb.fb (fbSwapBuffers (sampleFb.buffered 0x1000000) mBuffered) x y =
        sampleFb.pixelAt sampleFb.fb mDirect x y := by
  have hgeom : sampleFb.Geometry := ⟨by decide, by decide⟩
  have hapart : (sampleFb.buffered 0x1000000).Apart :=
    Fb.apart_of_le (by decide) (by decide)
  have hcalls : ∀ c ∈ [DrawCall.drawFilledCircle 0 0 1], c.Allowed := by
    intro c hc
    obtain rfl := List.mem_singleton.mp hc
    exact ⟨by decide, by decide⟩
  obtain ⟨m₁, m₂, h₁, h₂, hpixels, -⟩ :=
    fb_double_buffering sampleFb hgeom 0x1000000 (by decide) hapart _ hcalls sampleRam
  exact ⟨m₁, m₂, h₁, h₂, hpixels⟩

end OS44
