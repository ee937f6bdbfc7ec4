import OS44.Framebuffer.Once
import OS44.Panels.PanelText

/-! # Reading the debug panel off the screen (`debug_panel_render`, `fb_swap_buffers`)

The rows of the panel do not meet, and in a row with two texts the left one cannot be seen. So once
the panel was drawn in the back buffer and the buffers were swapped, each text with room on the
screen is read back cell by cell (`debug_panel_shown`). -/

namespace OS44

open LittleEndian Numerals

/-! ## The layout -/

/-- A text is above another one, or in front of it in the same row, where it cannot be seen. -/
def PlacedText.Before (t r : PlacedText) : Prop :=
  t.y.toNat + 8 ≤ r.y.toNat ∨
    t.y = r.y ∧ t.fg = fbColorBlack ∧ t.x.toNat + 8 * t.text.length ≤ r.x.toNat

/-- Neither of two texts hides the other. -/
def PlacedText.Apart (t r : PlacedText) : Prop := t.Before r ∨ r.Before t

instance : Std.Symm PlacedText.Apart := ⟨fun _ _ => Or.symm⟩

/-- The rows of the panel. -/
inductive PanelRow : PageRow → Prop
  | text (color : U32) (str : List U8) {height : U64} (h : height = 16 ∨ height = 20) :
    PanelRow (textRow color str height)
  | gap : PanelRow gapRow
  | device (d : PciDevice) : PanelRow (deviceRow d)

variable {src : PanelSource} {info : BootInfo} {c : ConfigSpace} {r : PageRow}
  {rows : List PageRow} {y u v : U64} {s : Fb}

@[simp] theorem panelRow_textRow_20 (color : U32) (str : List U8) :
    PanelRow (textRow color str 20#64) := .text color str (.inr rfl)

@[simp] theorem panelRow_sectionRow (title : String) : PanelRow (sectionRow title) :=
  .text _ _ (.inl rfl)

@[simp] theorem panelRow_lineRow (color : U32) (label : String) (value : List U8) :
    PanelRow (lineRow color label value) := .text _ _ (.inl rfl)

@[simp] theorem panelRow_gapRow : PanelRow gapRow := .gap

/-- A row of the panel is low, and one with a text has room for it. -/
theorem PanelRow.height (h : PanelRow r) :
    r.height.toNat ≤ 20 ∧ (r.cells = [] ∨ 8 ≤ r.height.toNat) := by
  cases h with
  | text color str h =>
    obtain rfl | rfl := h
    · exact ⟨by simp [textRow], .inr (by simp [textRow])⟩
    · exact ⟨by simp [textRow], .inr (by simp [textRow])⟩
  | gap => exact ⟨by simp [gapRow], .inl rfl⟩
  | device d => exact ⟨by simp [deviceRow], .inr (by simp [deviceRow])⟩

/-- The texts of a row. -/
theorem PanelRow.pairwise (h : PanelRow r) (y : U64) : (r.place y).Pairwise PlacedText.Before := by
  cases h with
  | text => exact List.pairwise_singleton ..
  | gap => exact List.Pairwise.nil
  | device d =>
    have hblanks : ((chars "  ").takeWhile (· ≠ 0)).length = 2 := by simp [chars]
    refine List.pairwise_pair.mpr (.inr ⟨rfl, rfl, ?_⟩)
    show 16 + 8 * ((chars "  ").takeWhile (· ≠ 0)).length ≤ 32
    rw [hblanks]

/-- Where the texts of a page are. -/
theorem bounds_placeRows (hrows : ∀ r ∈ rows, r.height.toNat ≤ 20)
    (hy : y.toNat + 20 * rows.length < 2 ^ 64) {t : PlacedText} (ht : t ∈ placeRows y rows) :
    y.toNat ≤ t.y.toNat ∧ t.y.toNat ≤ y.toNat + 20 * rows.length := by
  induction rows generalizing y with
  | nil => cases ht
  | cons r rs ih =>
    have hr := hrows r List.mem_cons_self
    rw [List.length_cons] at hy ⊢
    have hnext : (y + r.height).toNat = y.toNat + r.height.toNat := by
      rw [BitVec.toNat_add, Nat.mod_eq_of_lt (by omega)]
    obtain ht | ht := List.mem_append.mp ht
    · obtain ⟨c, -, rfl⟩ := List.mem_map.mp ht
      exact ⟨le_rfl, Nat.le_add_right _ _⟩
    · have := ih (fun q hq => hrows q (List.mem_cons_of_mem r hq)) (by omega) ht
      omega

/-- **The texts of a page do not meet**, if all rows but the last have room for their texts. -/
theorem pairwise_placeRows {last : PageRow} (hrows : ∀ r ∈ rows, PanelRow r)
    (hlast : ∀ y, (last.place y).Pairwise PlacedText.Before) (hheight : last.height.toNat ≤ 20)
    (hy : y.toNat + 20 * (rows ++ [last]).length < 2 ^ 64) :
    (placeRows y (rows ++ [last])).Pairwise PlacedText.Before := by
  induction rows generalizing y with
  | nil =>
    show (last.place y ++ []).Pairwise _
    rw [List.append_nil]
    exact hlast y
  | cons r rs ih =>
    have hr := hrows r List.mem_cons_self
    have hrs : ∀ q ∈ rs, PanelRow q := fun q hq => hrows q (List.mem_cons_of_mem r hq)
    obtain ⟨hlow, hroom⟩ := hr.height
    rw [List.cons_append, List.length_cons] at hy
    have hnext : (y + r.height).toNat = y.toNat + r.height.toNat := by
      rw [BitVec.toNat_add, Nat.mod_eq_of_lt (by omega)]
    refine List.pairwise_append.mpr ⟨hr.pairwise y, ih hrs (by omega), ?_⟩
    intro t ht t' ht'
    -- the row has a text, so it has room
    obtain ⟨cell, hcell, rfl⟩ := List.mem_map.mp ht
    have hroom := hroom.resolve_left fun hnil => List.not_mem_nil (hnil ▸ hcell)
    have hbelow := bounds_placeRows (List.forall_mem_append.mpr ⟨fun q hq => (hrs q hq).height.1,
      List.forall_mem_singleton.mpr hheight⟩) (by omega) ht'
    left
    show y.toNat + 8 ≤ t'.y.toNat
    omega

/-! ## The rows of the panel -/

theorem panelRow_upperRows (src : PanelSource) (info : BootInfo) :
    ∀ r ∈ upperRows src info, PanelRow r := by
  have hcpu : ∀ r ∈ cpuRows src, PanelRow r := by
    unfold cpuRows
    split_ifs <;> simp
  have hdrive : ∀ slot, PanelRow (driveRow src slot) := by
    intro slot
    unfold driveRow
    split_ifs <;> simp
  have hdrives : ∀ r ∈ [DriveSlot.primaryMaster, .primarySlave, .secondaryMaster,
      .secondarySlave].map (driveRow src), PanelRow r := by
    simp [hdrive]
  have hfound : ∀ (ds : List PciDevice) (row : PciDevice → PageRow), (∀ d, PanelRow (row d)) →
      ∀ r ∈ ds.map row, PanelRow r := by
    intro ds row hrow r hr
    obtain ⟨d, -, rfl⟩ := List.mem_map.mp hr
    exact hrow d
  have hmissing : ∀ (found : Bool) (value : List U8),
      ∀ r ∈ if found then [] else [lineRow fbColorRed "" value], PanelRow r := by
    intro found value
    cases found <;> simp
  have hstorage : ∀ r ∈ storageRows src, PanelRow r := by
    simp only [storageRows, List.forall_mem_append]
    exact ⟨⟨⟨⟨⟨⟨by simp, hdrives⟩, hfound _ _ fun d => panelRow_lineRow _ _ _⟩, hmissing _ _⟩,
      hfound _ _ fun d => panelRow_lineRow _ _ _⟩, hmissing _ _⟩, by simp⟩
  simp only [upperRows, List.forall_mem_append]
  exact ⟨⟨⟨⟨⟨by simp [titleRows], hcpu⟩, by simp [memoryRows]⟩, by simp [displayRows]⟩,
    by simp [firmwareRows]⟩, hstorage⟩

theorem panelRow_deviceRows (height : U64) (ds : List PciDevice) (y : U64) :
    (∀ r ∈ deviceRows height y ds, PanelRow r) ∧ (deviceRows height y ds).length ≤ ds.length := by
  induction ds generalizing y with
  | nil => exact ⟨List.forall_mem_nil _, le_rfl⟩
  | cons d ds ih =>
    unfold deviceRows
    split_ifs
    · exact ⟨List.forall_mem_cons.mpr ⟨.device d, (ih _).1⟩, Nat.succ_le_succ (ih _).2⟩
    · exact ⟨List.forall_mem_nil _, Nat.zero_le _⟩

theorem length_pciInit_le (c : ConfigSpace) : (pciInit c).length ≤ 64 := by
  rw [pciInit_eq, capped, List.length_map]
  exact List.length_take_le _ _

theorem length_upperRows_le (h : src.Booted info c) : (upperRows src info).length ≤ 170 := by
  have hdevices : src.pciDevices.length ≤ 64 := h.pci_eq ▸ length_pciInit_le c
  have hcpu : (cpuRows src).length ≤ 6 := by
    unfold cpuRows
    split_ifs <;> simp
  have hnvme := List.length_filter_le PciDevice.isNvme src.pciDevices
  have hsata := List.length_filter_le PciDevice.isSata src.pciDevices
  have hstorage : (storageRows src).length ≤ 136 := by
    unfold storageRows
    split_ifs <;> simp <;> omega
  have hmemory : (memoryRows src).length = 6 := rfl
  simp only [upperRows, List.length_append, hmemory]
  simp [titleRows, displayRows, firmwareRows]
  omega

/-- The rows above the last one. -/
theorem panelRows_eq (src : PanelSource) (info : BootInfo) : ∃ rows last,
    panelRows src info = rows ++ [last] ∧ (∀ r ∈ rows, PanelRow r) ∧
      (∀ y, (last.place y).Pairwise PlacedText.Before) ∧ last.height.toNat ≤ 20 := by
  refine ⟨upperRows src info ++ pciRows src (bottom 56 (upperRows src info)) ++ testRows src ++
    [sectionRow "--- FRAME COUNTER ---"],
    textRow fbColorWhite (chars "Frame: " ++ decimal (src.frameCounter + 1).toNat) 0,
    by simp [panelRows, frameRows], ?_, fun y => List.pairwise_singleton .., Nat.zero_le _⟩
  have hpci : ∀ r ∈ pciRows src (bottom 56 (upperRows src info)), PanelRow r := by
    unfold pciRows
    split_ifs
    · simp
    · exact List.forall_mem_append.mpr
        ⟨List.forall_mem_cons.mpr ⟨panelRow_sectionRow _, (panelRow_deviceRows _ _ _).1⟩, by simp⟩
  simp only [List.forall_mem_append]
  exact ⟨⟨⟨panelRow_upperRows src info, hpci⟩, by simp [testRows]⟩, by simp⟩

theorem length_panelRows_le (h : src.Booted info c) : (panelRows src info).length ≤ 300 := by
  have hdevices : src.pciDevices.length ≤ 64 := h.pci_eq ▸ length_pciInit_le c
  have hupper := length_upperRows_le h
  have hpci : (pciRows src (bottom 56 (upperRows src info))).length ≤ 68 := by
    have hrows := (panelRow_deviceRows src.fb.screenH src.pciDevices
      (bottom 56 (upperRows src info) + 16)).2
    unfold pciRows
    split_ifs
    · simp
    · simp only [List.length_append, List.length_cons, List.length_nil]
      omega
  have htests : (testRows src).length = 4 := rfl
  have hframe : (frameRows src).length = 2 := rfl
  simp only [panelRows, List.length_append, htests, hframe]
  omega

/-- **The texts of the panel do not meet**, and they are below the bar. -/
theorem panelTexts_apart (h : src.Booted info c) :
    (panelTexts src info).Pairwise PlacedText.Before ∧
      ∀ t ∈ panelTexts src info, 56 ≤ t.y.toNat ∧ t.y.toNat < 2 ^ 16 := by
  obtain ⟨rows, last, heq, hrows, hlast, hheight⟩ := panelRows_eq src info
  have hlength := length_panelRows_le h
  have hstart : (56 : U64).toNat = 56 := rfl
  rw [heq] at hlength
  rw [panelTexts, heq]
  refine ⟨pairwise_placeRows hrows hlast hheight (by omega), fun t ht => ?_⟩
  have hbounds := bounds_placeRows (List.forall_mem_append.mpr
    ⟨fun q hq => (hrows q hq).height.1, List.forall_mem_singleton.mpr hheight⟩) (by omega) ht
  omega

/-- The texts are short. -/
theorem length_text_le (hrows : ∀ r ∈ rows, r.Short) {t : PlacedText} (ht : t ∈ placeRows y rows) :
    t.text.length ≤ 255 := by
  induction rows generalizing y with
  | nil => cases ht
  | cons r rs ih =>
    obtain ht | ht := List.mem_append.mp ht
    · obtain ⟨cell, hcell, rfl⟩ := List.mem_map.mp ht
      exact (List.takeWhile_prefix _).length_le.trans (hrows r List.mem_cons_self cell hcell)
    · exact ih (fun q hq => hrows q (List.mem_cons_of_mem r hq)) ht

/-! ## The screen -/

/-- Below the bar the screen is black. -/
theorem draw_bar_below (s : Fb) (scr : Screen) {u v : U64} (hv : 40 ≤ v.toNat) :
    scr.draw s (.drawColorBar 0 40) u v = scr u v := by
  have hbottom : (barBottom s 0 40).toNat ≤ 40 := by
    unfold barBottom
    split_ifs with hlt
    · exact Nat.le_of_lt (BitVec.lt_def.mp hlt)
    · exact le_rfl
  have hrow : ∀ {lo hi : ℕ} {color : U64 → U32} {p : Pixel}, hi ≤ 40 →
      p ∈ rowPixels s (forRange lo hi) color → p.y.toNat < 40 := by
    intro lo hi color p hhi hp
    obtain ⟨row, hrow, hp⟩ := List.mem_flatMap.mp hp
    obtain ⟨x, -, rfl⟩ := List.mem_map.mp hp
    exact ((mem_forRange (by omega)).mp hrow).2.trans_le hhi
  refine Screen.foldl_plot_of_forall (fun p hp hat => ?_) (.inl rfl)
  have hlow : p.y.toNat < 40 := by
    change p ∈ barPixels s 0 40 at hp
    rw [barPixels, if_neg (by decide)] at hp
    obtain hp | hp := List.mem_append.mp hp
    · obtain hp | hp := List.mem_append.mp hp
      · exact hrow ((min_le_right _ _).trans hbottom) hp
      · exact hrow ((min_le_right _ _).trans hbottom) hp
    · exact hrow hbottom hp
  rw [← hat.2] at hlow
  omega

/-- Cells of a text are not those of a text before or behind it. -/
theorem not_covers_of_before {t q : PlacedText} {n : ℕ} (h : t.Apart q)
    (hfg : t.fg ≠ fbColorBlack) (hty : t.y.toNat < 2 ^ 16) (hqy : q.y.toNat < 2 ^ 16)
    (hx : t.x.toNat + 8 * n < 2 ^ 64) (hin : InCells n t.x t.y u v) : ¬ q.Covers u v := by
  rintro ⟨hqu, hqv⟩
  obtain ⟨htu, htv⟩ := hin
  rcases h with (habove | ⟨-, hblack, -⟩) | (hbelow | ⟨-, -, hleft⟩)
  · bv_omega
  · exact hfg hblack
  · bv_omega
  · bv_omega

/-- The calls of the panel are allowed. -/
theorem allowed_panel (ts : List PlacedText) : ∀ c ∈ DrawCall.clear fbColorBlack ::
    .drawColorBar 0 40 :: ts.map (PlacedText.call fbColorBlack), c.Allowed := by
  refine List.forall_mem_cons.mpr ⟨rfl, List.forall_mem_cons.mpr ⟨trivial, fun c hc => ?_⟩⟩
  obtain ⟨t, -, rfl⟩ := List.mem_map.mp hc
  exact trivial

/-- **Reading the screen of the panel**, where the cells do not wrap around. -/
theorem readText_panel (h : src.Booted info c) (g : PanelGarbage) (scr : Screen) {t : PlacedText}
    (ht : t ∈ panelTexts src info) (hfg : t.fg ≠ fbColorBlack) {n : ℕ} (hn : t.text.length ≤ n)
    (hroom : t.x.toNat + 8 * n < 2 ^ 64) :
    Screen.readText ((DrawCall.clear fbColorBlack :: .drawColorBar 0 40 ::
        (panelTexts src info).map (PlacedText.call fbColorBlack)).foldl (Screen.draw s) scr)
      n t.x t.y t.fg fbColorBlack = shownText n t.text := by
  obtain ⟨hbefore, hplace⟩ := panelTexts_apart h
  obtain ⟨hshort, -⟩ := renders_panelSteps g h
  obtain ⟨hlow, hhigh⟩ := hplace t ht
  rw [List.foldl_cons, List.foldl_cons]
  refine readText_drawTexts hfg (by omega) hn ht (fun q hq => ?_) fun u v hin => ?_
  · by_cases heq : q = t
    · exact .inl heq
    · have hlength := length_text_le hshort hq
      have hpairs : (panelTexts src info).Pairwise PlacedText.Apart := hbefore.imp Or.inl
      have horder : t.Apart q := hpairs.forall ht hq (Ne.symm heq)
      exact .inr ⟨by omega, fun u v hin =>
        not_covers_of_before horder hfg hhigh (hplace q hq).2 (by omega) hin⟩
  · have hv : 40 ≤ v.toNat := by
      obtain ⟨-, hv⟩ := hin
      bv_omega
    exact draw_bar_below s _ hv

/-- **The panel can be read.** In the state that `sysinfo_init` and `pci_init` left, with double
buffering: when the panel was rendered and the buffers were swapped, the framebuffer shows each of
its texts that is not black, in as many cells as there is room for, and spaces behind it. (It is
rendered when COM1 takes its log.) -/
theorem debug_panel_shown (h : src.Booted info c) (hgeom : src.fb.Geometry)
    (hmode : src.fb.useDoubleBuffer ∧ src.fb.backBuffer ≠ 0) (hapart : src.fb.Apart)
    (g : PanelGarbage) (m : Ram 64) :
    (src.com1.Takes 0 (panelLog src).length → debugPanelRender src g ≠ none) ∧
    ∀ p n, debugPanelRender src g = some (p, n) → ∃ m', fbDrawAll src.fb p.drawn m = some m' ∧
      ∀ t ∈ panelTexts src info, t.fg ≠ fbColorBlack → ∀ n, t.text.length ≤ n →
        t.x.toNat + 8 * n ≤ src.fb.screenW.toNat → t.y.toNat + 8 ≤ src.fb.screenH.toNat →
        Screen.readText (src.fb.pixelAt src.fb.fb (fbSwapBuffers src.fb m')) n t.x t.y t.fg
          fbColorBlack = shownText n t.text := by
  obtain ⟨-, hsome, hnone⟩ := renders_panelSteps g h
  refine ⟨fun htakes => ?_, fun p k hp => ?_⟩
  · obtain ⟨q, hq, -⟩ := hsome htakes
    rw [hq]
    exact Option.some_ne_none _
  -- it came through, so that COM1 took its log
  have htakes : src.com1.Takes 0 (panelLog src).length := by
    by_contra hno
    rw [hnone hno] at hp
    cases hp
  obtain ⟨q, hq, -, hdrawn, -⟩ := hsome htakes
  obtain ⟨rfl, -⟩ := Prod.mk.inj (Option.some.inj (hq.symm.trans hp))
  have hcalls := allowed_panel (panelTexts src info)
  obtain ⟨m', hm', -, hshows⟩ := fbDrawAll_spec hgeom (fun _ => hmode.2) hcalls m
  refine ⟨m', hdrawn ▸ hm', fun t ht hfg n hn hright hbottom => ?_⟩
  have hscreen := hshows (src.fb.pixelAt src.fb.target m) (fun _ _ _ => rfl)
  have htarget : src.fb.target = src.fb.backBuffer := if_pos hmode.1
  have hw := src.fb.screenW.isLt
  rw [← readText_panel h g _ ht hfg hn (by omega)]
  refine readText_congr (by omega) fun u v hin => ?_
  have hvisible : src.fb.Visible u v := by
    obtain ⟨hu, hv⟩ := hin
    constructor <;> bv_omega
  rw [(fbSwapBuffers_spec hgeom hapart hmode m').2 u v hvisible, ← htarget]
  exact hscreen u v hvisible

/-! ## The title -/

/-- The title of the panel. -/
def panelTitle : PlacedText := ⟨chars "OS44 DEBUG PANEL", 16, 56, fbColorWhite⟩

theorem panelTitle_mem (src : PanelSource) (info : BootInfo) :
    panelTitle ∈ panelTexts src info := List.mem_cons_self

theorem length_panelTitle : panelTitle.text.length ≤ 16 := by
  simp [panelTitle, PlacedText.text, chars]

/-- What 16 cells show of the title. -/
theorem shownText_panelTitle :
    shownText 16 panelTitle.text = (chars "OS44 DEBUG PANEL").map some := by
  have htext : panelTitle.text = chars "OS44 DEBUG PANEL" := by
    simp [panelTitle, PlacedText.text, chars]
  have hlength : (chars "OS44 DEBUG PANEL").length = 16 := by simp [chars]
  have hglyphs : ∀ c ∈ chars "OS44 DEBUG PANEL", HasGlyph c := by simp [chars, HasGlyph]
  rw [htext, shownText_eq hlength.le hglyphs, hlength, Nat.sub_self, List.replicate_zero,
    List.append_nil]

/-- The title is read on a screen of 1024 by 768 pixels. -/
theorem debug_panel_shown_sample : ∃ p n m',
    debugPanelRender (samplePanel sampleVideo) sampleGarbage = some (p, n) ∧
      fbDrawAll (samplePanel sampleVideo).fb p.drawn sampleRam = some m' ∧
      Screen.readText ((samplePanel sampleVideo).fb.pixelAt (samplePanel sampleVideo).fb.fb
        (fbSwapBuffers (samplePanel sampleVideo).fb m')) 16 panelTitle.x panelTitle.y
        panelTitle.fg fbColorBlack = (chars "OS44 DEBUG PANEL").map some := by
  obtain ⟨hthrough, hpanel⟩ := debug_panel_shown (booted_samplePanel sampleVideo)
    (geometry_sampleVideo.buffered 0x1000000) ⟨rfl, by decide⟩
    (Fb.apart_of_le (by decide) (by decide)) sampleGarbage sampleRam
  obtain ⟨⟨p, n⟩, hp⟩ := Option.ne_none_iff_exists'.mp
    (hthrough fun k _ => Option.some_ne_none 0)
  obtain ⟨m', hm', hshown⟩ := hpanel p n hp
  refine ⟨p, n, m', hp, hm', ?_⟩
  rw [← shownText_panelTitle]
  exact hshown panelTitle (panelTitle_mem _ _) (by decide) 16 length_panelTitle (by decide)
    (by decide)

end OS44
