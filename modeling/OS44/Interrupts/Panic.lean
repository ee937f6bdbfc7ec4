import OS44.Framebuffer.Clear
import OS44.Framebuffer.DoubleBuffer
import OS44.Interrupts.Isr
import OS44.Library.Runs
import OS44.Shell.Text

/-! # The report of an exception (`interrupts.c`)

`isr_handler` sends the exceptions to `panic_report`, which draws the frame and halts. It draws into
the target of the driver and does not swap the buffers: without double buffering the report is on
the screen, and with it the screen stays as it was (`panic_report_shown`). -/

namespace OS44

open Runs LittleEndian

/-! ## The report -/

/-- `exception_names`. -/
def exceptionNames : List String :=
  ["Divide Error (#DE)", "Debug (#DB)", "Non-Maskable Interrupt", "Breakpoint (#BP)",
    "Overflow (#OF)", "Bound Range (#BR)", "Invalid Opcode (#UD)", "Device Not Available (#NM)",
    "Double Fault (#DF)", "Coprocessor Segment Overrun", "Invalid TSS (#TS)",
    "Segment Not Present (#NP)", "Stack Fault (#SS)", "General Protection (#GP)",
    "Page Fault (#PF)", "Reserved", "x87 FPU Error (#MF)", "Alignment Check (#AC)",
    "Machine Check (#MC)", "SIMD FPU Error (#XM)", "Virtualization (#VE)",
    "Control Protection (#CP)", "Reserved", "Reserved", "Reserved", "Reserved", "Reserved",
    "Reserved", "Reserved", "Reserved", "Reserved", "Reserved"]

/-- `name`. -/
def exceptionName (vector : U64) : String :=
  if vector < 32 then exceptionNames.getD vector.toNat "" else "Unknown exception"

/-- `append_str` of a label and `append_hex` of a value, to `line`. -/
def appendField (label : String) (value : U64) (p : Cursor) : Cursor :=
  appendHex 72 value (appendStr 72 (chars label) p)

/-- A line of the report: what is appended to `line`, and where and how it is drawn. -/
structure PanicLine where
  appends : Cursor → Cursor
  y : U64
  color : U32

/-- The lines between the name and the end; `cr2` is the register. -/
def panicLines (frame : IntrFrame) (cr2 : U64) : List PanicLine :=
  [⟨fun p => appendDec 72 frame.vector (appendStr 72 (chars "Vector ") p), 56, fbColorWhite⟩,
    ⟨appendField "Error code " frame.errorCode, 72, fbColorWhite⟩,
    ⟨appendField "RIP " frame.rip, 96, fbColorWhite⟩,
    ⟨fun p => appendField "  RFLAGS " frame.rflags (appendField "CS " frame.cs p), 112,
      fbColorWhite⟩,
    ⟨fun p => appendField "  SS " frame.ss (appendField "RSP " frame.rsp p), 128,
      fbColorWhite⟩] ++
  (if frame.vector = 14 then [⟨appendField "CR2 (fault addr) " cr2, 152, 0x00FFFF00⟩] else []) ++
  [⟨fun p => appendField " RBX " frame.rbx (appendField "RAX " frame.rax p), 184, fbColorWhite⟩,
    ⟨fun p => appendField " RDX " frame.rdx (appendField "RCX " frame.rcx p), 200, fbColorWhite⟩]

/-- `pos = 0`, the appends, and the terminator. -/
def writePanicLine (l : PanicLine) (line : LocalBuf) : LocalBuf :=
  let p := l.appends (line, 0)
  p.1.set (if p.2 < 72 then p.2 else 71).toNat 0

/-- The lines, one after another in the same buffer. -/
def drawPanicLines : List PanicLine → LocalBuf → List DrawCall
  | [], _ => []
  | l :: ls, line =>
    let line := writePanicLine l line
    .drawString ((List.range 72).map line.bytes) 16 l.y l.color fbColorBlack ::
      drawPanicLines ls line

/-- The drawing calls of `panic_report`, where `line` was left as it is. -/
def panicCalls (frame : IntrFrame) (cr2 : U64) (line : ℕ → U8) : List DrawCall :=
  [.clear fbColorBlack,
    .drawString (chars "*** CPU EXCEPTION ***") 16 16 fbColorWhite fbColorBlack,
    .drawString (chars (exceptionName frame.vector)) 16 32 0x00FF5555 fbColorBlack] ++
  drawPanicLines (panicLines frame cr2) (.new 72 line) ++
  [.drawString (chars "System halted.") 16 232 fbColorGreen fbColorBlack]

/-- `panic_report` up to the loop that halts. -/
def panicReport (s : Fb) (frame : IntrFrame) (cr2 : U64) (line : ℕ → U8) (m : Ram 64) :
    Option (Ram 64) :=
  fbDrawAll s (panicCalls frame cr2 line) m

/-- What `isr_handler` goes on to. -/
inductive IsrAction
  | panicReport
  | timerHandler
  | keyboardHandler
  | returns
  deriving DecidableEq, Repr

/-- `isr_handler`. -/
def isrHandler (frame : IntrFrame) : IsrAction :=
  if frame.vector < 32 then .panicReport
  else if 32 ≤ frame.vector ∧ frame.vector < 48 then
    if frame.vector = 32 + 0 then .timerHandler
    else if frame.vector = 32 + 1 then .keyboardHandler
    else .returns
  else if frame.vector = 0xFFFF then .returns
  else .panicReport

/-! ## The lines end in their buffer -/

theorem appends_appendField {p : Cursor} (hp : p.Ready 72) (label : String) (value : U64) :
    Appends 72 ((chars label).length + hexLength value) p (appendField label value p) :=
  have hlabel := appends_appendStr hp (chars label)
  hlabel.trans (appends_appendHex (by decide) (hlabel.ready hp) value)

/-- The appends of a line stay in its buffer. -/
theorem appends_panicLine (frame : IntrFrame) (cr2 : U64) {p : Cursor} (hp : p.Ready 72) :
    ∀ l ∈ panicLines frame cr2, ∃ n, Appends 72 n p (l.appends p) := by
  have hone : ∀ label value, ∃ n, Appends 72 n p (appendField label value p) :=
    fun label value => ⟨_, appends_appendField hp label value⟩
  have htwo : ∀ label value label' value',
      ∃ n, Appends 72 n p (appendField label' value' (appendField label value p)) := by
    intro label value label' value'
    have hfirst := appends_appendField hp label value
    exact ⟨_, hfirst.trans (appends_appendField (hfirst.ready hp) label' value')⟩
  have hvector : ∃ n, Appends 72 n p
      (appendDec 72 frame.vector (appendStr 72 (chars "Vector ") p)) := by
    have hlabel := appends_appendStr hp (chars "Vector ")
    exact ⟨_, hlabel.trans (appends_appendDec (hlabel.ready hp) frame.vector)⟩
  unfold panicLines
  split_ifs <;> simp only [List.forall_mem_append, List.forall_mem_cons, List.not_mem_nil,
    false_implies, implies_true, and_true, hone, htwo, hvector]

/-- **A line of the report** is written inside its buffer and ends there. -/
theorem writePanicLine_spec (frame : IntrFrame) (cr2 : U64) {l : PanicLine}
    (hl : l ∈ panicLines frame cr2) {buf : LocalBuf} (hsize : buf.size = 72) :
    (writePanicLine l buf).size = 72 ∧ (writePanicLine l buf).overran = buf.overran ∧
      ∃ k < 72, (writePanicLine l buf).bytes k = 0 := by
  have hready : Cursor.Ready 72 (buf, 0) := ⟨hsize, Nat.zero_lt_succ 71⟩
  obtain ⟨n, h⟩ := appends_panicLine frame cr2 hready l hl
  have hpos : (l.appends (buf, 0)).2 < 72 := h.pos_lt
  have hlt : (l.appends (buf, 0)).2.toNat < 72 := h.pos_lt
  have hend : (l.appends (buf, 0)).1.size = 72 := h.size_eq.trans hsize
  rw [writePanicLine, if_pos hpos]
  refine ⟨hend, ?_, _, hlt, LocalBuf.bytes_set _ _ _⟩
  show ((l.appends (buf, 0)).1.overran || decide ((l.appends (buf, 0)).1.size ≤ _)) = buf.overran
  rw [hend, decide_eq_false (Nat.not_le.mpr hlt), Bool.or_false]
  exact h.overran_eq

/-- **The texts end in the buffer**: `fb_draw_string` reads nothing behind it. -/
theorem nul_mem_of_mem_drawPanicLines (frame : IntrFrame) (cr2 : U64) {ls : List PanicLine}
    (hls : ∀ l ∈ ls, l ∈ panicLines frame cr2) {buf : LocalBuf} (hsize : buf.size = 72)
    {c : DrawCall} (hc : c ∈ drawPanicLines ls buf) :
    ∃ str y color, c = .drawString str 16 y color fbColorBlack ∧ 0 ∈ str := by
  induction ls generalizing buf with
  | nil => exact absurd hc List.not_mem_nil
  | cons l ls ih =>
    have hl := hls l List.mem_cons_self
    obtain ⟨hsize', -, k, hk, hnul⟩ := writePanicLine_spec frame cr2 hl hsize
    rcases List.mem_cons.mp hc with rfl | hc
    · refine ⟨_, l.y, l.color, rfl, ?_⟩
      rw [← hnul]
      exact List.mem_map_of_mem (List.mem_range.mpr hk)
    · exact ih (fun l' hl' => hls l' (List.mem_cons_of_mem l hl')) hsize' hc

/-! ## States of the framebuffer -/

/-- The calls that lead to a state of the framebuffer. Enabling double buffering gets what
`mem_alloc` returns, and the memory as it leaves it. -/
inductive FbCall
  | init (info : BootInfo)
  | enableDoubleBuffering (p : U64) (m : Ram 64)
  | draw (c : DrawCall)
  | swapBuffers

/-- One call; `none` where an operation of it is undefined. -/
def fbStep (st : Fb × Ram 64) : FbCall → Option (Fb × Ram 64)
  | .init info => some (fbInit info st.1, st.2)
  | .enableDoubleBuffering p m => some (fbEnableDoubleBuffering st.1 p m)
  | .draw c => (fbDraw st.1 c st.2).map fun m => (st.1, m)
  | .swapBuffers => some (st.1, fbSwapBuffers st.1 st.2)

/-- The statics before the first call. -/
def fbBoot : Fb where
  fb := 0
  backBuffer := 0
  screenW := 0
  screenH := 0
  fbPitchVal := 0
  fbFormat := 0
  useDoubleBuffer := false

/-- The picture of the report: the colours that its last calls give. -/
def panicScreen (s : Fb) (frame : IntrFrame) (cr2 : U64) (line : ℕ → U8) : Screen :=
  (panicCalls frame cr2 line).foldl (Screen.draw s) fun _ _ => fbColorBlack

/-- **What the report must do**: for every frame that is reported, the framebuffer shows its picture
when the processor halts. -/
def PanicShown (s : Fb) (m : Ram 64) : Prop :=
  ∀ frame, isrHandler frame = .panicReport → ∀ cr2 line,
    ∃ m', panicReport s frame cr2 line m = some m' ∧
      Shows s s.fb m' (panicScreen s frame cr2 line)

/-- **The condition on a call**: a geometry has pixels that share no byte, and double buffering is
not switched on because there is no memory for the back buffer. -/
def DirectCall (st : Fb × Ram 64) : FbCall → Prop
  | .init info => (fbInit info st.1).PixelsApart
  | .enableDoubleBuffering p _ => p = 0
  | _ => True

/-- What such calls keep: drawing goes to the framebuffer, and pixels share no byte. -/
structure DrawsDirectly (st : Fb × Ram 64) : Prop where
  direct : st.1.useDoubleBuffer = false
  apart : st.1.PixelsApart

variable {s : Fb} {m : Ram 64} {frame : IntrFrame} {cr2 : U64} {line : ℕ → U8}

/-! ## The calls of the report -/

/-- A call of the report: a clear to black or a text, in colours of three bytes. -/
def DrawCall.OfReport : DrawCall → Prop
  | .clear color => color = fbColorBlack
  | .drawString _ _ _ fg bg => fg < 0x1000000 ∧ bg < 0x1000000
  | _ => False

theorem DrawCall.OfReport.allowed {c : DrawCall} (h : c.OfReport) : c.Allowed := by
  cases c with
  | clear color => exact h
  | drawString str x y fg bg => trivial
  | _ => exact h.elim

theorem color_of_mem_panicLines : ∀ l ∈ panicLines frame cr2, l.color < 0x1000000 := by
  unfold panicLines
  split_ifs <;> simp [fbColorWhite]

theorem ofReport_of_mem_drawPanicLines {ls : List PanicLine}
    (hls : ∀ l ∈ ls, l.color < 0x1000000) {buf : LocalBuf} {c : DrawCall}
    (hc : c ∈ drawPanicLines ls buf) : c.OfReport := by
  induction ls generalizing buf with
  | nil => exact absurd hc List.not_mem_nil
  | cons l ls ih =>
    rcases List.mem_cons.mp hc with rfl | hc
    · exact ⟨hls l List.mem_cons_self, by decide⟩
    · exact ih (fun l' hl' => hls l' (List.mem_cons_of_mem l hl')) hc

/-- Every call of the report is one. -/
theorem ofReport_of_mem_panicCalls {c : DrawCall} (hc : c ∈ panicCalls frame cr2 line) :
    c.OfReport := by
  simp only [panicCalls, List.mem_append, List.mem_cons, List.not_mem_nil, or_false] at hc
  rcases hc with ((rfl | rfl | rfl) | hc) | rfl
  · rfl
  · exact ⟨by decide, by decide⟩
  · exact ⟨by decide, by decide⟩
  · exact ofReport_of_mem_drawPanicLines color_of_mem_panicLines hc
  · exact ⟨by decide, by decide⟩

/-- No colour of the report has a fourth byte. -/
theorem draw_lt_of_ofReport {scr : Screen} {c : DrawCall} (hc : c.OfReport) {x y : U64}
    (h : scr x y < 0x1000000) : scr.draw s c x y < 0x1000000 := by
  cases c with
  | clear color =>
    obtain rfl : color = fbColorBlack := hc
    show fbColorBlack < 0x1000000
    decide
  | drawString str x₀ y₀ fg bg =>
    apply Screen.foldl_plot_mem (C := (· < 0x1000000)) (fun p hp => ?_) h
    show p.color < 0x1000000
    rcases color_of_mem_stringPixels hp with heq | heq <;> rw [heq]
    · exact hc.1
    · exact hc.2
  | _ => exact hc.elim

theorem panicScreen_lt (x y : U64) : panicScreen s frame cr2 line x y < 0x1000000 := by
  have hfold : ∀ (calls : List DrawCall) (scr : Screen), (∀ c ∈ calls, c.OfReport) →
      scr x y < 0x1000000 → calls.foldl (Screen.draw s) scr x y < 0x1000000 := by
    intro calls
    induction calls with
    | nil => exact fun scr _ h => h
    | cons c calls ih =>
      intro scr hcalls h
      exact ih _ (fun d hd => hcalls d (List.mem_cons_of_mem c hd))
        (draw_lt_of_ofReport (hcalls c List.mem_cons_self) h)
  exact hfold _ _ (fun c hc => ofReport_of_mem_panicCalls hc) (by decide)

/-! ## The two modes -/

/-- **Drawn directly**, the report is shown if pixels agree on the bytes they share. -/
theorem panicReport_direct (hmode : s.useDoubleBuffer = false) (frame : IntrFrame) (cr2 : U64)
    (line : ℕ → U8) (m : Ram 64) :
    ∃ m', panicReport s frame cr2 line m = some m' ∧
      (Shows s s.fb m' (panicScreen s frame cr2 line) ↔
        PixelsAgree s (panicScreen s frame cr2 line)) := by
  have htarget : s.target = s.fb := by
    rw [Fb.target, hmode]
    rfl
  rw [← htarget]
  refine shows_fbDrawAll_iff (fun h => ?_)
    (fun c hc => (ofReport_of_mem_panicCalls hc).allowed) List.mem_cons_self _ m
  rw [hmode] at h
  exact Bool.false_ne_true h.1

/-- **Drawn into the back buffer**, it leaves the screen as it was. -/
theorem panicReport_buffered (hgeom : s.Geometry) (hmode : s.useDoubleBuffer = true)
    (hback : s.backBuffer ≠ 0) (hapart : s.Apart) (frame : IntrFrame) (cr2 : U64) (line : ℕ → U8)
    (m : Ram 64) :
    ∃ m', panicReport s frame cr2 line m = some m' ∧
      ∀ x y, s.Visible x y → s.pixelAt s.fb m' x y = s.pixelAt s.fb m x y := by
  have htarget : s.target = s.backBuffer := if_pos hmode
  obtain ⟨m', hm', hwithin, -⟩ := fbDrawAll_spec hgeom (fun _ => hback)
    (fun c hc => (ofReport_of_mem_panicCalls hc).allowed) m
  rw [htarget] at hwithin
  refine ⟨m', hm', fun x y hv => congrArg (BitVec.ofNat 32) (loadLE_congr fun k hk => ?_)⟩
  exact (hwithin _ (hapart _ (Fb.VisibleByte.inBuffer hgeom ⟨x, y, hv, k, hk, rfl⟩))).1

/-- Calls that meet the condition keep drawing to the framebuffer. -/
theorem DrawsDirectly.step {st st' : Fb × Ram 64} {c : FbCall} (h : DrawsDirectly st)
    (hc : DirectCall st c) (hstep : fbStep st c = some st') : DrawsDirectly st' := by
  cases c with
  | init info =>
    obtain rfl := Option.some.inj hstep
    exact ⟨h.direct, hc⟩
  | enableDoubleBuffering p m =>
    obtain rfl := Option.some.inj hstep
    obtain rfl : p = 0 := hc
    -- the buffer is forgotten, but it is not the target
    have htarget : Fb.target { st.1 with backBuffer := 0 } = st.1.target := by
      rw [Fb.target, Fb.target, h.direct]
      rfl
    refine ⟨h.direct, ?_⟩
    intro b x y j x' y' k hb hb'
    exact h.apart b x y j x' y' k ⟨hb.visible, hb.lt, htarget ▸ hb.addr_eq⟩
      ⟨hb'.visible, hb'.lt, htarget ▸ hb'.addr_eq⟩
  | draw c =>
    obtain ⟨m, -, rfl⟩ := Option.map_eq_some_iff.mp hstep
    exact ⟨h.direct, h.apart⟩
  | swapBuffers =>
    obtain rfl := Option.some.inj hstep
    exact ⟨h.direct, h.apart⟩

/-- Before the first call nothing is visible. -/
theorem drawsDirectly_boot (m : Ram 64) : DrawsDirectly (fbBoot, m) where
  direct := rfl
  apart _ _ _ _ _ _ _ hb _ := absurd hb.visible.1 BitVec.not_lt_zero

/-- **When the report is on the screen.** In the state that a run of framebuffer calls leads to: if
geometries had pixels that share no byte and double buffering was never switched on, every frame
that `isr_handler` reports is shown when the processor halts. Drawn directly, the picture is shown
exactly if pixels agree on the bytes they share; drawn into a back buffer apart from the
framebuffer, it leaves every visible pixel as it was. -/
theorem panic_report_shown (m₀ : Ram 64) (calls : List FbCall) (s : Fb) (m : Ram 64)
    (hrun : run fbStep (fbBoot, m₀) calls = some (s, m)) :
    (AllSteps fbStep DirectCall (fbBoot, m₀) calls → PanicShown s m) ∧
    (s.useDoubleBuffer = false → ∀ frame cr2 line,
      ∃ m', panicReport s frame cr2 line m = some m' ∧
        (Shows s s.fb m' (panicScreen s frame cr2 line) ↔
          PixelsAgree s (panicScreen s frame cr2 line))) ∧
    (s.Geometry → s.useDoubleBuffer = true → s.backBuffer ≠ 0 → s.Apart → ∀ frame cr2 line,
      ∃ m', panicReport s frame cr2 line m = some m' ∧
        ∀ x y, s.Visible x y → s.pixelAt s.fb m' x y = s.pixelAt s.fb m x y) := by
  refine ⟨?_, ?_,
    ?_⟩
  · intro hcalls
    obtain ⟨hdirect, hapart⟩ := run_invariant (fun st c st' => DrawsDirectly.step)
      (drawsDirectly_boot m₀) hcalls hrun
    intro frame _ cr2 line
    obtain ⟨m', hm', hshows⟩ := panicReport_direct hdirect frame cr2 line m
    exact ⟨m', hm', hshows.mpr (hapart.agree _)⟩
  · intro hmode frame cr2 line
    exact panicReport_direct hmode frame cr2 line m
  · intro hgeom hmode hback hapart frame cr2 line
    exact panicReport_buffered hgeom hmode hback hapart frame cr2 line m

/-- A screen of 1024 by 768 pixels. -/
def sampleVideo : BootInfo where
  magic := 0
  framebuffer := 0x80000000
  fbWidth := 1024
  fbHeight := 768
  fbPitch := 4096
  fbFormat := 1
  mmap := 0
  mmapSize := 0
  mmapDescSize := 0
  fwVendor := fun _ => 0
  fwRevision := 0

theorem geometry_sampleVideo : (fbInit sampleVideo fbBoot).Geometry := ⟨by decide, by decide⟩

/-- Without a back buffer. -/
theorem panic_report_shown_sample : PanicShown (fbInit sampleVideo fbBoot) sampleRam := by
  obtain ⟨hshown, -, -⟩ := panic_report_shown sampleRam [.init sampleVideo] _ _ rfl
  apply hshown
  exact (allSteps_cons _ _ _).mpr ⟨geometry_sampleVideo.pixelsApart, fun _ _ => trivial⟩

/-- **The report is not shown.** As the kernel starts, the geometry is set and double buffering
is switched on; a division by zero then leaves the screen as it was. -/
theorem panic_report_double_buffered :
    run fbStep (fbBoot, sampleRam)
      [.init sampleVideo, .enableDoubleBuffering 0x1000000 sampleRam] =
        some ((fbInit sampleVideo fbBoot).buffered 0x1000000, sampleRam) ∧
    ¬ PanicShown ((fbInit sampleVideo fbBoot).buffered 0x1000000) sampleRam := by
  refine ⟨rfl, ?_⟩
  intro h
  have hgeom := geometry_sampleVideo.buffered 0x1000000
  have hapart : ((fbInit sampleVideo fbBoot).buffered 0x1000000).Apart :=
    Fb.apart_of_le (by decide) (by decide)
  have hv : ((fbInit sampleVideo fbBoot).buffered 0x1000000).Visible 0 0 := ⟨by decide, by decide⟩
  let frame : IntrFrame := { readIntrFrame (fun _ => 0) 0 with vector := 0 }
  obtain ⟨m, hm, hshows⟩ := h frame rfl 0 fun _ => 0
  obtain ⟨m', hm', hsame⟩ := panicReport_buffered hgeom rfl (by decide) hapart frame 0
    (fun _ => 0) sampleRam
  obtain rfl : m = m' := Option.some.inj (hm.symm.trans hm')
  -- the first pixel had a fourth byte, which no colour of the report has
  have hlt : panicScreen ((fbInit sampleVideo fbBoot).buffered 0x1000000) frame 0 (fun _ => 0) 0 0 <
      0x1000000 := panicScreen_lt 0 0
  rw [← hshows 0 0 hv, hsame 0 0 hv] at hlt
  exact absurd hlt (by decide)

end OS44
