import OS44.Framebuffer.ReadText
import OS44.Panels.DebugPanel
import OS44.Panels.Texts

/-! # The steps of the debug panel (`debug_panel.c`)

A page is a list of rows, apart from how its texts are put together. Each step of the panel draws
rows of its own, wherever it starts, and steps one after another draw them one below the other
(`Renders`). -/

namespace OS44

open BoundedText

/-! ## Pages -/

/-- A row of a page: the texts in it, each with its place and its colour, and how far the next row
is below. -/
structure PageRow where
  cells : List (U64 × U32 × List U8)
  height : U64

/-- The texts of a row at a height. -/
def PageRow.place (r : PageRow) (y : U64) : List PlacedText :=
  r.cells.map fun c => ⟨c.2.2, c.1, y, c.2.1⟩

/-- The texts of a page that starts at a height. -/
def placeRows : U64 → List PageRow → List PlacedText
  | _, [] => []
  | y, r :: rs => r.place y ++ placeRows (y + r.height) rs

/-- Where a page ends. -/
def bottom (y : U64) (rows : List PageRow) : U64 := rows.foldl (fun y r => y + r.height) y

/-- A row with one text at the margin. -/
def textRow (color : U32) (str : List U8) (height : U64) : PageRow := ⟨[(16, color, str)], height⟩

/-- A row with a label and a value. -/
def lineRow (color : U32) (label : String) (value : List U8) : PageRow :=
  textRow color (lineText (chars label) value) 16

/-- The head of a section. -/
def sectionRow (title : String) : PageRow := textRow fbColorCyan (chars title) 16

/-- The space behind a section. -/
def gapRow : PageRow := ⟨[], 4⟩

variable {y : U64} {rows rows' : List PageRow}

theorem placeRows_append :
    placeRows y (rows ++ rows') = placeRows y rows ++ placeRows (bottom y rows) rows' := by
  induction rows generalizing y with
  | nil => rfl
  | cons r rs ih => rw [List.cons_append, placeRows, ih, placeRows, List.append_assoc]; rfl

theorem bottom_append : bottom y (rows ++ rows') = bottom (bottom y rows) rows' :=
  List.foldl_append

/-! ## Steps that draw pages -/

/-- The arrays are as they should be. -/
structure Panel.Ok (p : Panel) : Prop where
  size_eq : p.buf.size = 256
  buf_overran : p.buf.overran = false
  overran : p.overran = false

/-- The texts of a row come out of arrays of at most 256 bytes. -/
def PageRow.Short (r : PageRow) : Prop := ∀ c ∈ r.cells, c.2.2.length ≤ 255

theorem short_textRow {color : U32} {str : List U8} {height : U64} (h : str.length ≤ 255) :
    (textRow color str height).Short := by
  intro c hc
  rw [List.mem_singleton.mp hc]
  exact h

/-- COM1 takes the bytes that come next. -/
def Panel.Takes (p : Panel) (str : List U8) : Prop := p.com1.Takes p.logged.length str.length

/-- The panel `q` is `p` with rows drawn and a text logged. -/
structure Panel.Extends (p q : Panel) (rows : List PageRow) (str : List U8) : Prop where
  ok : q.Ok
  com1_eq : q.com1 = p.com1
  y_eq : q.y = bottom p.y rows
  drawn_eq : q.drawn = p.drawn ++ (placeRows p.y rows).map (PlacedText.call fbColorBlack)
  logged_eq : q.logged = p.logged ++ str

/-- **A step draws rows**, which may depend on where it starts, and logs a text, if COM1 takes
it. -/
def RendersAt (p : Panel) (f : PanelStep) (rows : U64 → List PageRow) (str : List U8) : Prop :=
  (∀ r ∈ rows p.y, r.Short) ∧ (p.Takes str → ∃ q, f p = some q ∧ p.Extends q (rows p.y) str) ∧
    (¬ p.Takes str → f p = none)

/-- It does so wherever it starts. -/
def Renders (f : PanelStep) (rows : U64 → List PageRow) (str : List U8) : Prop :=
  ∀ p : Panel, p.Ok → RendersAt p f rows str

section Renders

variable {f : PanelStep} {fs fs' : List PanelStep} {xs ys : U64 → List PageRow}
  {str str' : List U8}

theorem Renders.of_eq (h : Renders f xs str) (hrows : ∀ y, xs y = ys y) (hstr : str = str') :
    Renders f ys str' := by
  rwa [← hstr, ← (funext hrows : xs = ys)]

/-- A step that logs nothing. -/
theorem renders_silent {f : PanelStep} {rows : U64 → List PageRow}
    (h : ∀ p : Panel, p.Ok → (∀ r ∈ rows p.y, r.Short) ∧
      ∃ q, f p = some q ∧ p.Extends q (rows p.y) []) : Renders f rows [] :=
  fun p hp => ⟨(h p hp).1, fun _ => (h p hp).2, fun hno => absurd (takes_zero _ _) hno⟩

/-- A step that first works on the arrays. -/
theorem RendersAt.of_arrays {p q : Panel} {h : PanelStep} (hf : RendersAt q f xs str)
    (hcom1 : q.com1 = p.com1) (hy : q.y = p.y) (hdrawn : q.drawn = p.drawn)
    (hlogged : q.logged = p.logged) (hstep : h p = f q) : RendersAt p h xs str := by
  obtain ⟨hshort, hsome, hnone⟩ := hf
  rw [Panel.Takes, hcom1, hlogged] at hsome hnone
  rw [hy] at hshort hsome
  rw [← hstep] at hsome hnone
  refine ⟨hshort, fun htakes => ?_, hnone⟩
  obtain ⟨r, hr, hext⟩ := hsome htakes
  exact ⟨r, hr, hext.ok, hext.com1_eq.trans hcom1, by rw [hext.y_eq, hy],
    by rw [hext.drawn_eq, hy, hdrawn], by rw [hext.logged_eq, hlogged]⟩

/-- **Steps one after another** draw their rows one below the other. -/
theorem renders_bind {g h : PanelStep} (hf : Renders f xs str) (hg : Renders g ys str')
    (hh : ∀ p, h p = f p >>= g) :
    Renders h (fun y => xs y ++ ys (bottom y (xs y))) (str ++ str') := by
  intro p hp
  obtain ⟨hshort, hsome, hnone⟩ := hf p hp
  have hsplit : p.Takes (str ++ str') ↔
      p.Takes str ∧ p.com1.Takes (p.logged.length + str.length) str'.length := by
    rw [Panel.Takes, List.length_append]
    exact takes_add
  have hshort' :=
    (hg { p with y := bottom p.y (xs p.y) } ⟨hp.size_eq, hp.buf_overran, hp.overran⟩).1
  refine ⟨List.forall_mem_append.mpr ⟨hshort, hshort'⟩, fun htakes => ?_, fun htakes => ?_⟩
  · obtain ⟨q, hq, hext⟩ := hsome (hsplit.mp htakes).1
    have htakes' : q.Takes str' := by
      rw [Panel.Takes, hext.com1_eq, hext.logged_eq, List.length_append]
      exact (hsplit.mp htakes).2
    obtain ⟨r, hr, hext'⟩ := (hg q hext.ok).2.1 htakes'
    refine ⟨r, ?_, hext'.ok, hext'.com1_eq.trans hext.com1_eq, ?_, ?_, ?_⟩
    · rw [hh, hq]
      exact hr
    · rw [hext'.y_eq, hext.y_eq, bottom_append]
    · rw [hext'.drawn_eq, hext.drawn_eq, hext.y_eq, placeRows_append, List.map_append,
        List.append_assoc]
    · rw [hext'.logged_eq, hext.logged_eq, List.append_assoc]
  · -- one of the two waits for ever
    rw [hh]
    by_cases hfirst : p.Takes str
    · obtain ⟨q, hq, hext⟩ := hsome hfirst
      rw [hq]
      refine (hg q hext.ok).2.2 fun hsecond => htakes (hsplit.mpr ⟨hfirst, ?_⟩)
      rw [Panel.Takes, hext.com1_eq, hext.logged_eq, List.length_append] at hsecond
      exact hsecond
    · rw [hnone hfirst]
      rfl

theorem renders_nil : Renders (runSteps []) (fun _ => []) [] :=
  renders_silent fun p hp => ⟨List.forall_mem_nil _, p, rfl, hp, rfl, rfl,
    (List.append_nil _).symm, (List.append_nil _).symm⟩

theorem renders_cons (hf : Renders f xs str) (hfs : Renders (runSteps fs) ys str') :
    Renders (runSteps (f :: fs)) (fun y => xs y ++ ys (bottom y (xs y))) (str ++ str') :=
  renders_bind hf hfs fun _ => List.foldlM_cons

theorem renders_append (hfs : Renders (runSteps fs) xs str)
    (hfs' : Renders (runSteps fs') ys str') :
    Renders (runSteps (fs ++ fs')) (fun y => xs y ++ ys (bottom y (xs y))) (str ++ str') :=
  renders_bind hfs hfs' fun _ => List.foldlM_append

/-- Steps of one kind. -/
theorem renders_map {α : Type} {step : α → PanelStep} {row : α → PageRow} {as : List α}
    (h : ∀ a ∈ as, Renders (step a) (fun _ => [row a]) []) :
    Renders (runSteps (as.map step)) (fun _ => as.map row) [] := by
  induction as with
  | nil => exact renders_nil
  | cons a as ih =>
    exact renders_cons (h a List.mem_cons_self) (ih fun b hb => h b (List.mem_cons_of_mem a hb))

end Renders

/-! ## The steps -/

section Steps

variable {g : PanelGarbage} {b : LocalBuf} {calls : List AppendCall} {str value : List U8}
  {label : String} {color : U32} {p : Panel} {n : ℕ}

/-- A step that draws one text at the margin and moves down. -/
theorem renders_textRow {f : PanelStep} {height : U64} (hstr : str.length ≤ 255)
    (h : ∀ p : Panel, p.Ok → ∃ q : Panel, q.Ok ∧ q.com1 = p.com1 ∧ q.y = p.y ∧
      q.drawn = p.drawn ∧ q.logged = p.logged ∧
      f p = some ((q.drawString str 16 color).down height)) :
    Renders f (fun _ => [textRow color str height]) [] := by
  refine renders_silent fun p hp => ?_
  obtain ⟨q, hq, hcom1, hy, hdrawn, hlogged, hf⟩ := h p hp
  refine ⟨List.forall_mem_singleton.mpr (short_textRow hstr), _, hf,
    ⟨hq.size_eq, hq.buf_overran, hq.overran⟩, hcom1, congrArg (· + height) hy, ?_, ?_⟩
  · show q.drawn ++ [.drawString str 16 q.y color fbColorBlack] = _
    rw [hy, hdrawn]
    rfl
  · exact hlogged.trans (List.append_nil _).symm

theorem renders_gap : Renders drawGap (fun _ => [gapRow]) [] :=
  renders_silent fun p hp => ⟨by simp [gapRow, PageRow.Short], p.down 4, rfl,
    ⟨hp.size_eq, hp.buf_overran, hp.overran⟩, rfl, rfl, (List.append_nil _).symm,
    (List.append_nil _).symm⟩

theorem renders_section {title : String} (h : (chars title).length ≤ 255) :
    Renders (drawSectionHeader title) (fun _ => [sectionRow title]) [] :=
  renders_textRow h fun p hp => ⟨p, hp, rfl, rfl, rfl, rfl, rfl⟩

/-- Logging a string. -/
theorem Panel.log_eq (p : Panel) (str : List U8) :
    (p.Takes (dbgBytes str) → p.log str = some { p with logged := p.logged ++ dbgBytes str }) ∧
    (¬ p.Takes (dbgBytes str) → p.log str = none) := by
  obtain ⟨hsome, hnone⟩ := foldlM_dbgPutc p.com1 p.logged (dbgBytes str)
  constructor
  · intro h
    rw [Panel.log, dbg, hsome h, Option.map_some]
  · intro h
    rw [Panel.log, dbg, hnone h, Option.map_none]

theorem renders_log (str : List U8) :
    Renders (fun p => p.log str) (fun _ => []) (dbgBytes str) := by
  intro p hp
  obtain ⟨hsome, hnone⟩ := p.log_eq str
  exact ⟨List.forall_mem_nil _, fun htakes => ⟨_, hsome htakes,
    ⟨hp.size_eq, hp.buf_overran, hp.overran⟩, rfl, rfl, (List.append_nil _).symm, rfl⟩, hnone⟩

theorem renders_logText (title : String) :
    Renders (logText title) (fun _ => []) (dbgBytes (chars title)) := renders_log _

theorem renders_logBuf (hb : b.cString = some str) (ho : b.overran = false) :
    Renders (logBuf b) (fun _ => []) (dbgBytes str) := by
  intro p hp
  have hok : Panel.Ok { p with overran := p.overran || b.overran } :=
    ⟨hp.size_eq, hp.buf_overran, by show (p.overran || b.overran) = false; rw [hp.overran, ho]; rfl⟩
  refine (renders_log str _ hok).of_arrays rfl rfl rfl rfl ?_
  rw [logBuf, hb]
  rfl

theorem renders_logArray (hb : b.cString = some str) (ho : b.overran = false) (name : String) :
    Renders (logArray name b) (fun _ => [])
      (dbgBytes (chars name) ++ dbgBytes str ++ dbgBytes (chars "\n")) :=
  (renders_cons (renders_logText name) (renders_cons (renders_logBuf hb ho)
    (renders_cons (renders_logText "\n") renders_nil))).of_eq (fun _ => rfl) (by simp)

theorem nulFree_lineText (hlabel : NulFree n (chars label)) {k : ℕ} (hvalue : NulFree k value) :
    NulFree (n + k + 4) (lineText (chars label) value) := by
  have hstart : NulFree 2 (chars "  ") := ⟨by simp [chars], by simp [chars]⟩
  have hmid : NulFree 2 (chars ": ") := ⟨by simp [chars], by simp [chars]⟩
  rw [lineText, hlabel.takeWhile_eq, hvalue.takeWhile_eq]
  exact (hstart.append (hlabel.append (hmid.append hvalue))).mono (by omega)

/-- A line that fits is drawn as a whole. -/
theorem renders_drawText (h : NulFree 255 (lineText (chars label) value)) :
    Renders (drawText g label value color) (fun _ => [lineRow color label value]) [] := by
  have hlength := h.length_le
  refine renders_textRow hlength fun p hp => ?_
  have hline : (drawLine (g.line p.y) (chars label) value).cString =
      some (lineText (chars label) value) := by
    rw [drawLine_eq, fit_of_lt (by omega), LocalBuf.cString_copyAll_nul, h.takeWhile_eq]
    show _ < 256
    omega
  refine ⟨{ p with overran := p.overran || (drawLine (g.line p.y) (chars label) value).overran },
    ⟨hp.size_eq, hp.buf_overran, ?_⟩, rfl, rfl, rfl, rfl, ?_⟩
  · show (p.overran || _) = false
    rw [hp.overran, overran_drawLine, Bool.or_false]
  · rw [drawText, hline]
    rfl

/-- The same with the value in an array. -/
theorem renders_drawArray (hb : b.cString = some value) (ho : b.overran = false)
    (h : NulFree 255 (lineText (chars label) value)) :
    Renders (drawArray g label b color) (fun _ => [lineRow color label value]) [] := by
  intro p hp
  have hok : Panel.Ok { p with overran := p.overran || b.overran } :=
    ⟨hp.size_eq, hp.buf_overran, by show (p.overran || b.overran) = false; rw [hp.overran, ho]; rfl⟩
  refine (@renders_drawText g _ _ color h _ hok).of_arrays rfl rfl rfl rfl ?_
  rw [drawArray, hb]
  rfl

/-! ### Arrays -/

theorem formatInto_eq {cap : U64} (hcap : cap.toNat + 2 < 2 ^ 64)
    (hlen : (lineTextOf calls).length < cap.toNat) (b : LocalBuf) :
    formatInto cap calls b = b.copyAll 0 (lineTextOf calls ++ [0]) := by
  obtain ⟨hbuf, hpos⟩ := @appendAll_start cap calls b hcap hlen
  unfold formatInto
  dsimp only
  rw [hpos, hbuf, LocalBuf.set_eq_copyAll, ← LocalBuf.copyAll_copyAll, Nat.zero_add]

/-- The position is inside, so that it is not moved to the end. -/
theorem formatClamped_eq {cap : U64} (hcap : cap.toNat + 2 < 2 ^ 64)
    (hlen : (lineTextOf calls).length < cap.toNat) (b : LocalBuf) :
    formatClamped cap calls b = b.copyAll 0 (lineTextOf calls ++ [0]) := by
  obtain ⟨-, hpos⟩ := @appendAll_start cap calls b hcap hlen
  rw [← formatInto_eq hcap hlen]
  unfold formatClamped formatInto
  dsimp only
  rw [if_pos (by rw [BitVec.lt_def, hpos]; exact hlen)]

/-- A text in an array with room for it. -/
theorem cString_text (h : NulFree n str) (hn : n < b.size) :
    (b.copyAll 0 (str ++ [0])).cString = some str := by
  have hlength := h.length_le
  rw [LocalBuf.cString_copyAll_nul (by omega), h.takeWhile_eq]

theorem overran_text (h : NulFree n str) (hn : n < b.size) :
    (b.copyAll 0 (str ++ [0])).overran = b.overran :=
  overran_copyAll_nul (h.length_le.trans_lt hn)

/-- A text in an array, from its `off`-th character on. -/
theorem cString_from (h : NulFree n str) (hn : n < b.size) {off : ℕ} (hoff : off ≤ str.length) :
    ((b.copyAll 0 (str ++ [0])).from off).cString = some (str.drop off) := by
  have hlength := h.length_le
  have hall : (str ++ [(0 : U8)]).length = str.length + 1 := List.length_append
  have hdrop : NulFree n (str.drop off) :=
    ⟨by rw [List.length_drop]; omega, fun hc => h.zero_notMem (List.mem_of_mem_drop hc)⟩
  have hbytes : ∀ j < str.length + 1 - off,
      ((b.copyAll 0 (str ++ [0])).from off).bytes j = (str ++ [0]).getD (off + j) 0 := by
    intro j hj
    show (b.copyAll 0 (str ++ [0])).bytes (off + j) = _
    rw [LocalBuf.bytes_copyAll (Nat.zero_le _) (by omega), Nat.sub_zero]
  rw [LocalBuf.cString_eq (w := str.drop off) (k := b.size - str.length - 1), hdrop.takeWhile_eq]
  · show b.size - off = _
    rw [List.length_drop]
    omega
  · intro j hj
    rw [List.length_drop] at hj
    rw [hbytes j (by omega), List.getD_append _ _ _ _ (by omega),
      List.getD_eq_getElem _ _ (by omega),
      List.getD_eq_getElem _ _ (by rw [List.length_drop]; omega), List.getElem_drop]
  · rw [List.length_drop, hbytes _ (by omega), Nat.add_sub_cancel' hoff,
      List.getD_append_right _ _ _ _ le_rfl, Nat.sub_self]
    rfl

/-- The line of a drive: all but the first two characters of the text. -/
theorem renders_drawBuf (h : NulFree 200 (lineTextOf calls))
    (htwo : 2 ≤ (lineTextOf calls).length) : Renders (drawBuf g calls color)
      (fun _ => [lineRow color "" ((lineTextOf calls).drop 2)]) [] := by
  intro p hp
  have hlength := h.length_le
  have hbuf : formatInto 256 calls p.buf = p.buf.copyAll 0 (lineTextOf calls ++ [0]) :=
    formatInto_eq (by decide) (by show _ < 256; omega) p.buf
  have hsize := hp.size_eq
  have hover : (p.buf.copyAll 0 (lineTextOf calls ++ [0])).overran = false := by
    rw [overran_text h (by omega), hp.buf_overran]
  have hdrop : NulFree 200 ((lineTextOf calls).drop 2) :=
    ⟨by rw [List.length_drop]; omega, fun hc => h.zero_notMem (List.mem_of_mem_drop hc)⟩
  have hline : NulFree 255 (lineText (chars "") ((lineTextOf calls).drop 2)) :=
    (@nulFree_lineText _ "" 0 ⟨by simp [chars], by simp [chars]⟩ _ hdrop).mono (by decide)
  have hok : Panel.Ok { p with buf := p.buf.copyAll 0 (lineTextOf calls ++ [0]) } :=
    ⟨hp.size_eq, hover, hp.overran⟩
  have hstep := @renders_drawArray g _ _ "" color (cString_from h (by omega) htwo) hover hline _ hok
  refine hstep.of_arrays rfl rfl rfl rfl ?_
  unfold drawBuf
  rw [hbuf]

end Steps

end OS44
