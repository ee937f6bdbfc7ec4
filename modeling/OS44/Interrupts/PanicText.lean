import OS44.Framebuffer.ReadText
import OS44.Interrupts.Panic
import OS44.Panels.Texts
import OS44.Sysinfo.Features

/-! # Reading the report of an exception (`interrupts.c`)

The lines of `panic_report` are texts of at most 48 characters at places of their own. Drawn
directly on a screen with room for them, each is read back as it was written
(`panic_report_readable`), so that the screen determines what the report is about: the vector, the
error code, the registers that it names, and the address of a page fault
(`panic_report_determines`). -/

namespace OS44

open BoundedText Numerals Words LittleEndian

/-! ## The texts -/

/-- A label and a value. -/
def fieldCalls (label : String) (value : U64) : List AppendCall :=
  [.appendStr (chars label), .appendHex value]

/-- The appends of the lines between the name and the end, with the place and the colour. -/
def panicLineCalls (frame : IntrFrame) (cr2 : U64) : List (List AppendCall × U64 × U32) :=
  [([.appendStr (chars "Vector "), .appendDec frame.vector], 56, fbColorWhite),
    (fieldCalls "Error code " frame.errorCode, 72, fbColorWhite),
    (fieldCalls "RIP " frame.rip, 96, fbColorWhite),
    (fieldCalls "CS " frame.cs ++ fieldCalls "  RFLAGS " frame.rflags, 112, fbColorWhite),
    (fieldCalls "RSP " frame.rsp ++ fieldCalls "  SS " frame.ss, 128, fbColorWhite)] ++
  (if frame.vector = 14 then [(fieldCalls "CR2 (fault addr) " cr2, 152, 0x00FFFF00)] else []) ++
  [(fieldCalls "RAX " frame.rax ++ fieldCalls " RBX " frame.rbx, 184, fbColorWhite),
    (fieldCalls "RCX " frame.rcx ++ fieldCalls " RDX " frame.rdx, 200, fbColorWhite)]

/-- **What the report says**, and where. -/
def panicTexts (frame : IntrFrame) (cr2 : U64) : List PlacedText :=
  [⟨chars "*** CPU EXCEPTION ***", 16, 16, fbColorWhite⟩,
    ⟨chars (exceptionName frame.vector), 16, 32, 0x00FF5555⟩] ++
  (panicLineCalls frame cr2).map (fun l => ⟨lineTextOf l.1, 16, l.2.1, l.2.2⟩) ++
  [⟨chars "System halted.", 16, 232, fbColorGreen⟩]

variable {frame frame' : IntrFrame} {cr2 cr2' : U64} {line : ℕ → U8} {buf : LocalBuf}
  {str : List U8}

/-- The lines of the code make these calls. -/
theorem panicLines_eq (frame : IntrFrame) (cr2 : U64) : panicLines frame cr2 =
    (panicLineCalls frame cr2).map fun l => ⟨appendAll cursor 72 l.1, l.2.1, l.2.2⟩ := by
  have hfield : ∀ label value, appendField label value =
      appendAll cursor 72 (fieldCalls label value) := by
    intro label value
    funext p
    show _ = cursor.appendHex 72 value (cursor.appendStr 72 (chars label) p)
    rw [appendHex_cursor, appendStr_cursor]
    rfl
  have hvector : (fun p => appendDec 72 frame.vector (appendStr 72 (chars "Vector ") p)) =
      appendAll cursor 72 [.appendStr (chars "Vector "), .appendDec frame.vector] := by
    funext p
    show _ = cursor.appendDec 72 frame.vector (cursor.appendStr 72 (chars "Vector ") p)
    rw [appendDec_cursor, appendStr_cursor]
  simp only [panicLines, panicLineCalls, hfield, hvector]
  split_ifs <;> rfl

/-- **A line is its text**, and a terminator. -/
theorem writePanicLine_eq {calls : List AppendCall} (hlen : (lineTextOf calls).length < 72)
    (y : U64) (color : U32) (buf : LocalBuf) :
    writePanicLine ⟨appendAll cursor 72 calls, y, color⟩ buf =
      buf.copyAll 0 (lineTextOf calls ++ [0]) := by
  obtain ⟨hbuf, hpos⟩ := @appendAll_start 72 calls buf (by decide) hlen
  have hlt : (appendAll cursor 72 calls (buf, 0)).2 < 72 := by
    rw [BitVec.lt_def, hpos]
    exact hlen
  unfold writePanicLine
  dsimp only
  rw [if_pos hlt, hpos, hbuf, LocalBuf.set_eq_copyAll, ← LocalBuf.copyAll_copyAll, Nat.zero_add]

/-- The string in a buffer that starts with a text and a terminator. -/
theorem takeWhile_copyAll (hnul : (0 : U8) ∉ str) (hlen : str.length < buf.size) :
    ((List.range buf.size).map (buf.copyAll 0 (str ++ [0])).bytes).takeWhile (· ≠ 0) = str := by
  have hself : str.takeWhile (· ≠ 0) = str :=
    List.takeWhile_eq_self_iff.mpr fun c hc => decide_eq_true fun h => hnul (h ▸ hc)
  have hstring := LocalBuf.cString_copyAll_nul hlen
  rw [hself] at hstring
  unfold LocalBuf.cString at hstring
  dsimp only at hstring
  split_ifs at hstring
  exact Option.some.inj hstring

/-! ## What is in the texts -/

section PlainText

variable {n k : ℕ}

/-- A label and a value. -/
theorem lineTextOf_fieldCalls {label : String} (h : PlainText n (chars label)) (value : U64) :
    lineTextOf (fieldCalls label value) =
      chars label ++ (chars "0x" ++ hexadecimal value.toNat) := by
  show (chars label).takeWhile (· ≠ 0) ++ ((chars "0x" ++ hexadecimal value.toNat) ++ []) = _
  rw [h.nulFree.takeWhile_eq, List.append_nil]

theorem plainText_field {label : String} (h : PlainText n (chars label)) (value : U64) :
    PlainText (n + 18) (lineTextOf (fieldCalls label value)) := by
  rw [lineTextOf_fieldCalls h]
  have hsign : PlainText 2 (chars "0x") := ⟨by simp [chars], by simp [chars, HasGlyph]⟩
  exact h.append (hsign.append (plainText_hexadecimal value))

end PlainText

/-- **The lines of the report** have at most 48 characters. -/
theorem plainText_panicLineCalls {l : List AppendCall × U64 × U32}
    (hl : l ∈ panicLineCalls frame cr2) : PlainText 48 (lineTextOf l.1) := by
  have hone : ∀ {label : String} (value : U64), PlainText 17 (chars label) →
      PlainText 48 (lineTextOf (fieldCalls label value)) := fun value h =>
    (plainText_field h value).mono (by decide)
  have htwo : ∀ {n k : ℕ} {label label' : String} (value value' : U64), PlainText n (chars label) →
      PlainText k (chars label') → n + k ≤ 12 →
      PlainText 48 (lineTextOf (fieldCalls label value ++ fieldCalls label' value')) :=
    fun value value' h h' hnk => by
      rw [lineTextOf_append]
      exact ((plainText_field h value).append (plainText_field h' value')).mono (by omega)
  have hlabel : ∀ {label : String}, (∀ c ∈ chars label, HasGlyph c) →
      PlainText (chars label).length (chars label) := fun h => ⟨le_rfl, h⟩
  simp only [panicLineCalls, List.mem_append, List.mem_cons, List.not_mem_nil, or_false,
    List.mem_ite_nil_right] at hl
  rcases hl with ((rfl | rfl | rfl | rfl | rfl) | ⟨-, rfl⟩) | rfl | rfl
  · have hvector : PlainText 7 (chars "Vector ") := ⟨by simp [chars], by simp [chars, HasGlyph]⟩
    show PlainText 48 (chars "Vector " ++ (decimal frame.vector.toNat ++ []))
    rw [List.append_nil]
    exact (hvector.append (plainText_decimal _)).mono (by decide)
  · exact hone _ ((hlabel (by simp [chars, HasGlyph])).mono (by simp [chars]))
  · exact hone _ ((hlabel (by simp [chars, HasGlyph])).mono (by simp [chars]))
  · exact htwo _ _ (hlabel (by simp [chars, HasGlyph])) (hlabel (by simp [chars, HasGlyph]))
      (by simp [chars])
  · exact htwo _ _ (hlabel (by simp [chars, HasGlyph])) (hlabel (by simp [chars, HasGlyph]))
      (by simp [chars])
  · exact hone _ ((hlabel (by simp [chars, HasGlyph])).mono (by simp [chars]))
  · exact htwo _ _ (hlabel (by simp [chars, HasGlyph])) (hlabel (by simp [chars, HasGlyph]))
      (by simp [chars])
  · exact htwo _ _ (hlabel (by simp [chars, HasGlyph])) (hlabel (by simp [chars, HasGlyph]))
      (by simp [chars])

theorem length_exceptionName_le (vector : U64) : (chars (exceptionName vector)).length ≤ 48 := by
  have hall : ∀ name ∈ exceptionNames, (chars name).length ≤ 48 := by
    simp [exceptionNames, chars]
  have hlength : exceptionNames.length = 32 := rfl
  unfold exceptionName
  split_ifs with hlt
  · rw [List.getD_eq_getElem _ _ (hlength ▸ BitVec.lt_def.mp hlt)]
    exact hall _ (List.getElem_mem _)
  · simp [chars]

/-! ## The page -/

/-- The text without what is behind its terminator. -/
def PlacedText.trim (t : PlacedText) : PlacedText := { t with str := t.text }

/-- The strings that are drawn, line after line in the same buffer, are the texts. -/
theorem drawPanicLines_eq {ls : List (List AppendCall × U64 × U32)}
    (hls : ∀ l ∈ ls, PlainText 48 (lineTextOf l.1)) (hsize : buf.size = 72) :
    ∃ ts : List PlacedText,
      drawPanicLines (ls.map fun l => ⟨appendAll cursor 72 l.1, l.2.1, l.2.2⟩) buf =
        ts.map (PlacedText.call fbColorBlack) ∧
      ts.map PlacedText.trim = ls.map fun l => ⟨lineTextOf l.1, 16, l.2.1, l.2.2⟩ := by
  induction ls generalizing buf with
  | nil => exact ⟨[], rfl, rfl⟩
  | cons l ls ih =>
    have hl := hls l List.mem_cons_self
    have hlen : (lineTextOf l.1).length < 72 := hl.length_le.trans_lt (by decide)
    have hline := writePanicLine_eq hlen l.2.1 l.2.2 buf
    obtain ⟨ts, hcalls, htexts⟩ := @ih (buf.copyAll 0 (lineTextOf l.1 ++ [0]))
      (fun r hr => hls r (List.mem_cons_of_mem l hr)) hsize
    refine ⟨⟨(List.range 72).map (buf.copyAll 0 (lineTextOf l.1 ++ [0])).bytes, 16, l.2.1,
      l.2.2⟩ :: ts, ?_, ?_⟩
    · rw [List.map_cons, drawPanicLines]
      dsimp only
      rw [hline, hcalls]
      rfl
    · have htext := @takeWhile_copyAll buf _ hl.nulFree.zero_notMem (by omega)
      rw [hsize] at htext
      rw [List.map_cons, List.map_cons, htexts, PlacedText.trim, PlacedText.text, htext]

@[simp] theorem PlacedText.text_trim (t : PlacedText) : t.trim.text = t.text := by
  simp [PlacedText.trim, PlacedText.text, List.takeWhile_takeWhile]

/-- **The report is a page**: a clear, and the texts. -/
theorem panicCalls_eq (frame : IntrFrame) (cr2 : U64) (line : ℕ → U8) : ∃ ts : List PlacedText,
    panicCalls frame cr2 line = .clear fbColorBlack :: ts.map (PlacedText.call fbColorBlack) ∧
      ts.map PlacedText.trim = (panicTexts frame cr2).map PlacedText.trim := by
  obtain ⟨ts, hcalls, htexts⟩ := @drawPanicLines_eq (.new 72 line) _
    (fun l hl => plainText_panicLineCalls hl) rfl
  refine ⟨⟨chars "*** CPU EXCEPTION ***", 16, 16, fbColorWhite⟩ ::
    ⟨chars (exceptionName frame.vector), 16, 32, 0x00FF5555⟩ :: ts ++
      [⟨chars "System halted.", 16, 232, fbColorGreen⟩], ?_, ?_⟩
  · rw [panicCalls, panicLines_eq, hcalls]
    simp [PlacedText.call]
  · have htrim : ((panicLineCalls frame cr2).map fun l =>
        (⟨lineTextOf l.1, 16, l.2.1, l.2.2⟩ : PlacedText).trim) = ts.map PlacedText.trim := by
      rw [htexts]
      refine List.map_congr_left fun l hl => ?_
      rw [PlacedText.trim, PlacedText.text, (plainText_panicLineCalls hl).nulFree.takeWhile_eq]
    simp [panicTexts, ← htrim]

/-- The heights of the texts. -/
def panicHeights : List U64 := [16, 32, 56, 72, 96, 112, 128, 152, 184, 200, 232]

theorem heights_panicTexts (frame : IntrFrame) (cr2 : U64) :
    ((panicTexts frame cr2).map PlacedText.y).Sublist panicHeights := by
  unfold panicTexts panicLineCalls
  split_ifs
  · exact List.Sublist.refl _
  · simp [panicHeights]

/-- Where a text of the report is, and that it can be seen. -/
structure ReportPlace (t : PlacedText) : Prop where
  x_eq : t.x = 16
  y_mem : t.y ∈ panicHeights
  fg_ne : t.fg ≠ fbColorBlack
  length_le : t.text.length ≤ 48

theorem reportPlace_of_mem {t : PlacedText} (ht : t ∈ panicTexts frame cr2) : ReportPlace t := by
  have hy : t.y ∈ panicHeights := (heights_panicTexts frame cr2).subset (List.mem_map_of_mem ht)
  have hname : ((chars (exceptionName frame.vector)).takeWhile (· ≠ 0)).length ≤ 48 :=
    (List.takeWhile_prefix _).length_le.trans (length_exceptionName_le _)
  simp only [panicTexts, List.mem_append, List.mem_cons, List.not_mem_nil, or_false,
    List.mem_map] at ht
  rcases ht with ((rfl | rfl) | ⟨l, hl, rfl⟩) | rfl
  · exact ⟨rfl, hy, by decide, by simp [PlacedText.text, chars]⟩
  · exact ⟨rfl, hy, by simp [fbColorBlack], hname⟩
  · have htext := plainText_panicLineCalls hl
    refine ⟨rfl, hy, ?_, ?_⟩
    · simp only [panicLineCalls, List.mem_append, List.mem_cons, List.not_mem_nil, or_false,
        List.mem_ite_nil_right] at hl
      rcases hl with ((rfl | rfl | rfl | rfl | rfl) | ⟨-, rfl⟩) | rfl | rfl <;>
        simp [fbColorWhite, fbColorBlack]
    · rw [PlacedText.text, htext.nulFree.takeWhile_eq]
      exact htext.length_le
  · exact ⟨rfl, hy, by decide, by simp [PlacedText.text, chars]⟩

/-- The rows of text are rows of cells. -/
theorem toNat_of_mem_panicHeights {y : U64} (hy : y ∈ panicHeights) :
    y.toNat ≤ 232 ∧ y.toNat % 8 = 0 := by
  have hall : ∀ y ∈ panicHeights, y.toNat ≤ 232 ∧ y.toNat % 8 = 0 := by simp [panicHeights]
  exact hall y hy

/-- Rows of text do not meet. -/
theorem rows_apart {y y' v : U64} (hy : y ∈ panicHeights) (hy' : y' ∈ panicHeights) (hne : y ≠ y')
    (h : (v - y).toNat < 8) : ¬ (v - y').toNat < 8 := by
  have hy := toNat_of_mem_panicHeights hy
  have hy' := toNat_of_mem_panicHeights hy'
  have hnat : y.toNat ≠ y'.toNat := fun heq => hne (BitVec.eq_of_toNat_eq heq)
  bv_omega

/-- The texts are inside 408 columns and 240 rows. -/
theorem visible_of_inCells {s : Fb} (hw : 408 ≤ s.screenW.toNat) (hh : 240 ≤ s.screenH.toNat)
    {y u v : U64} (hy : y ∈ panicHeights) (h : InCells 49 16 y u v) : s.Visible u v := by
  have hle := (toNat_of_mem_panicHeights hy).1
  obtain ⟨hu, hv⟩ := h
  constructor <;> bv_omega

theorem same_of_trim {t r : PlacedText} (h : t.trim = r.trim) :
    t.x = r.x ∧ t.y = r.y ∧ t.fg = r.fg ∧ t.text = r.text := by
  simp only [PlacedText.trim, PlacedText.mk.injEq] at h
  exact ⟨h.2.1, h.2.2.1, h.2.2.2, h.1⟩

/-- **Reading the screen of the report**: 49 cells of a row show its text. -/
theorem readText_panicScreen {s : Fb} {t : PlacedText} (ht : t ∈ panicTexts frame cr2) :
    (panicScreen s frame cr2 line).readText 49 16 t.y t.fg fbColorBlack = shownText 49 t.text := by
  obtain ⟨ts, hcalls, htexts⟩ := panicCalls_eq frame cr2 line
  -- the string that was drawn for the text
  have hmem : t.trim ∈ ts.map PlacedText.trim := htexts ▸ List.mem_map_of_mem ht
  obtain ⟨r, hr, hrt⟩ := List.mem_map.mp hmem
  obtain ⟨hx, hy, hfg, htext⟩ := same_of_trim hrt
  have hother : ∀ q ∈ ts, ReportPlace q := by
    intro q hq
    obtain ⟨q', hq', htrim⟩ := List.mem_map.mp (htexts ▸ List.mem_map_of_mem hq)
    obtain ⟨hqx, hqy, hqfg, hqtext⟩ := same_of_trim htrim
    have h := reportPlace_of_mem hq'
    exact ⟨hqx ▸ h.x_eq, hqy ▸ h.y_mem, hqfg ▸ h.fg_ne, hqtext ▸ h.length_le⟩
  have hys : (ts.map PlacedText.y).Nodup := by
    have hmap : ts.map PlacedText.y = (panicTexts frame cr2).map PlacedText.y := by
      have h := congrArg (List.map PlacedText.y) htexts
      rwa [List.map_map, List.map_map] at h
    rw [hmap]
    exact (heights_panicTexts frame cr2).nodup (by decide)
  have hread := @readText_drawTexts (fun _ _ => fbColorBlack) _ 49 s _ _
    (hother r hr).fg_ne (by decide) ((hother r hr).length_le.trans (by decide)) hr
    (fun q hq => ?_) (fun _ _ _ => rfl)
  · rw [← (hother r hr).x_eq, ← hy, ← hfg, ← htext, ← hread, panicScreen, hcalls, List.foldl_cons]
    rfl
  · by_cases hqr : q.y = r.y
    · exact .inl (List.inj_on_of_nodup_map hys hq hr hqr)
    · refine .inr ⟨by have := (hother q hq).length_le; omega, fun u v hin hcov => ?_⟩
      exact rows_apart (hother r hr).y_mem (hother q hq).y_mem (Ne.symm hqr) hin.2 hcov.2

/-- The framebuffer when the processor halts. -/
theorem readText_panicReport {s : Fb} {t : PlacedText} {m r : Ram 64}
    (hmode : s.useDoubleBuffer = false) (hapart : s.PixelsApart) (hw : 408 ≤ s.screenW.toNat)
    (hh : 240 ≤ s.screenH.toNat) (hr : panicReport s frame cr2 line m = some r)
    (ht : t ∈ panicTexts frame cr2) :
    Screen.readText (s.pixelAt s.fb r) 49 16 t.y t.fg fbColorBlack = shownText 49 t.text := by
  obtain ⟨m', hm', hshows⟩ := panicReport_direct hmode frame cr2 line m
  obtain rfl := Option.some.inj (hm'.symm.trans hr)
  rw [← @readText_panicScreen _ _ line s _ ht]
  exact readText_congr (by decide) fun u v hin =>
    hshows.mpr (hapart.agree _) u v (visible_of_inCells hw hh (reportPlace_of_mem ht).y_mem hin)

/-- **The report can be read.** Drawn directly on a screen of at least 408 times 240 pixels that
share no byte: when the processor halts, 49 cells of the framebuffer in the row of each text of the
report show the text and spaces behind it, for every frame and every content of `CR2`. -/
theorem panic_report_readable (s : Fb) (hmode : s.useDoubleBuffer = false)
    (hapart : s.PixelsApart) (hw : 408 ≤ s.screenW.toNat) (hh : 240 ≤ s.screenH.toNat)
    (frame : IntrFrame) (cr2 : U64) (line : ℕ → U8) (m : Ram 64) :
    ∃ r, panicReport s frame cr2 line m = some r ∧ ∀ t ∈ panicTexts frame cr2,
      Screen.readText (s.pixelAt s.fb r) 49 16 t.y t.fg fbColorBlack = shownText 49 t.text := by
  obtain ⟨r, hr, -⟩ := panicReport_direct hmode frame cr2 line m
  exact ⟨r, hr, fun t ht => readText_panicReport hmode hapart hw hh hr ht⟩

/-- A page fault: its name, its address and the end of the report. -/
theorem panic_report_readable_sample :
    let s := fbInit sampleVideo fbBoot
    let frame := { readIntrFrame (fun _ => 0) 0 with vector := 14 }
    ∃ r, panicReport s frame 0xDEAD000 (fun _ => 0) sampleRam = some r ∧
      Screen.readText (s.pixelAt s.fb r) 49 16 32 0x00FF5555 fbColorBlack =
        shownText 49 (chars "Page Fault (#PF)") ∧
      Screen.readText (s.pixelAt s.fb r) 49 16 152 0x00FFFF00 fbColorBlack =
        shownText 49 (chars "CR2 (fault addr) 0xDEAD000") ∧
      Screen.readText (s.pixelAt s.fb r) 49 16 232 fbColorGreen fbColorBlack =
        shownText 49 (chars "System halted.") := by
  intro s frame
  obtain ⟨r, hr, hread⟩ := panic_report_readable s rfl geometry_sampleVideo.pixelsApart
    (by decide) (by decide) frame 0xDEAD000 (fun _ => 0) sampleRam
  have hname := hread ⟨chars "Page Fault (#PF)", 16, 32, 0x00FF5555⟩
    (List.mem_cons_of_mem _ List.mem_cons_self)
  have haddr := hread ⟨lineTextOf (fieldCalls "CR2 (fault addr) " 0xDEAD000), 16, 152, 0x00FFFF00⟩
    (List.mem_append_left _ (List.mem_append_right _ (List.mem_map.mpr
      ⟨(_, 152, 0x00FFFF00), List.mem_append_left _ (List.mem_append_right _ List.mem_cons_self),
        rfl⟩)))
  have hend := hread ⟨chars "System halted.", 16, 232, fbColorGreen⟩
    (List.mem_append_right _ List.mem_cons_self)
  have hname' : PlacedText.text ⟨chars "Page Fault (#PF)", 16, 32, 0x00FF5555⟩ =
      chars "Page Fault (#PF)" := by decide +kernel
  have haddr' : PlacedText.text ⟨lineTextOf (fieldCalls "CR2 (fault addr) " 0xDEAD000), 16, 152,
      0x00FFFF00⟩ = chars "CR2 (fault addr) 0xDEAD000" := by decide +kernel
  have hend' : PlacedText.text ⟨chars "System halted.", 16, 232, fbColorGreen⟩ =
      chars "System halted." := by decide +kernel
  rw [hname'] at hname
  rw [haddr'] at haddr
  rw [hend'] at hend
  exact ⟨r, hr, hname, haddr, hend⟩

/-! ## What the screen tells -/

/-- The value of a hexadecimal digit. -/
def hexValue (c : U8) : ℕ := if c ≤ 57 then c.toNat - 48 else c.toNat - 55

theorem hexadecimal_inj {v v' : U64} (h : hexadecimal v.toNat = hexadecimal v'.toNat) : v = v' := by
  have hread : ∀ n, (hexadecimal n).foldl (fun r c => r * 16 + hexValue c) 0 = n := fun n => by
    rw [hexadecimal_eq_numeral]
    exact foldl_numeral (by omega) (by decide) n
  exact BitVec.eq_of_toNat_eq (by rw [← hread v.toNat, h, hread])

theorem decimal_inj {v v' : U64} (h : decimal v.toNat = decimal v'.toNat) : v = v' := by
  have hread : ∀ n, (decimal n).foldl (fun r c => r * 10 + (c.toNat - 48)) 0 = n := fun n => by
    rw [decimal_eq_numeral]
    exact foldl_numeral (by omega) (by decide) n
  exact BitVec.eq_of_toNat_eq (by rw [← hread v.toNat, h, hread])

section Fields

variable {v v' w w' : U64} {x x' : List U8} {n k : ℕ}

/-- A word ends where there is a space. -/
theorem word_cancel {a a' : List U8} (ha : (32 : U8) ∉ a) (ha' : (32 : U8) ∉ a')
    (h : a ++ 32 :: x = a' ++ 32 :: x') : a = a' ∧ x = x' := by
  have hword : a = a' := by
    rw [← takeWhile_word ha (.inr ⟨x, rfl⟩), h, takeWhile_word ha' (.inr ⟨x', rfl⟩)]
  subst hword
  exact ⟨rfl, (List.cons.inj (List.append_cancel_left h)).2⟩

theorem hexadecimal_cancel
    (h : hexadecimal v.toNat ++ 32 :: x = hexadecimal v'.toNat ++ 32 :: x') : v = v' ∧ x = x' := by
  have hspace : ∀ v : U64, (32 : U8) ∉ hexadecimal v.toNat := fun v hc => by
    have hall : ∀ d < 16, (32 : U8) ≠ hexGlyph d := by decide
    rw [hexadecimal_eq_numeral] at hc
    obtain ⟨d, hd, hglyph⟩ := mem_numeral (by omega) hc
    exact hall d hd hglyph
  exact (word_cancel (hspace v) (hspace v') h).imp_left hexadecimal_inj

theorem decimal_cancel (h : decimal v.toNat ++ 32 :: x = decimal v'.toNat ++ 32 :: x') :
    v = v' := by
  have hspace : ∀ v : U64, (32 : U8) ∉ decimal v.toNat := fun v hc =>
    absurd (digit_of_mem_decimal hc).1 (by decide)
  exact decimal_inj (word_cancel (hspace v) (hspace v') h).1

/-- A field ends where there is a space. -/
theorem field_cancel {label : String} (hlabel : PlainText n (chars label))
    (h : lineTextOf (fieldCalls label v) ++ 32 :: x =
      lineTextOf (fieldCalls label v') ++ 32 :: x') : v = v' ∧ x = x' := by
  rw [lineTextOf_fieldCalls hlabel, lineTextOf_fieldCalls hlabel, List.append_assoc,
    List.append_assoc, List.append_assoc, List.append_assoc] at h
  exact hexadecimal_cancel (List.append_cancel_left (List.append_cancel_left h))

/-- Two fields, where the second label starts with a space. -/
theorem two_fields_cancel {label label' : String} {rest : List U8}
    (hlabel : PlainText n (chars label)) (hlabel' : PlainText k (chars label'))
    (hrest : chars label' = 32 :: rest)
    (h : lineTextOf (fieldCalls label v ++ fieldCalls label' w) ++ 32 :: x =
      lineTextOf (fieldCalls label v' ++ fieldCalls label' w') ++ 32 :: x') : v = v' ∧ w = w' := by
  have hsplit : ∀ v w : U64, ∀ x : List U8,
      lineTextOf (fieldCalls label v ++ fieldCalls label' w) ++ 32 :: x =
        lineTextOf (fieldCalls label v) ++ 32 ::
          (rest ++ (chars "0x" ++ (hexadecimal w.toNat ++ 32 :: x))) := by
    intro v w x
    rw [lineTextOf_append, lineTextOf_fieldCalls hlabel', hrest]
    simp
  rw [hsplit, hsplit] at h
  obtain ⟨hv, htail⟩ := field_cancel hlabel h
  exact ⟨hv, (hexadecimal_cancel (List.append_cancel_left (List.append_cancel_left htail))).1⟩

/-- Two texts that cells show alike, as far as a space behind them. -/
theorem append_space_of_shownText (hstr : PlainText 48 str) (hx : PlainText 48 x)
    (h : shownText 49 str = shownText 49 x) : ∃ y y', str ++ 32 :: y = x ++ 32 :: y' := by
  have hpad : ∀ {str : List U8}, PlainText 48 str →
      shownText 49 str = (str ++ 32 :: List.replicate (48 - str.length) 32).map some := by
    intro str hstr
    have hlen := hstr.length_le
    rw [shownText_eq (by omega) hstr.hasGlyph, List.map_append, List.map_cons, List.map_replicate,
      ← List.replicate_succ, show 48 - str.length + 1 = 49 - str.length by omega]
  rw [hpad hstr, hpad hx] at h
  exact ⟨_, _, List.map_injective_iff.mpr (Option.some_injective _) h⟩

end Fields

/-- **What a report says**, of two reports that look alike. -/
structure SameReport (frame frame' : IntrFrame) (cr2 cr2' : U64) : Prop where
  vector : frame.vector = frame'.vector
  errorCode : frame.errorCode = frame'.errorCode
  rip : frame.rip = frame'.rip
  cs : frame.cs = frame'.cs
  rflags : frame.rflags = frame'.rflags
  rsp : frame.rsp = frame'.rsp
  ss : frame.ss = frame'.ss
  rax : frame.rax = frame'.rax
  rbx : frame.rbx = frame'.rbx
  rcx : frame.rcx = frame'.rcx
  rdx : frame.rdx = frame'.rdx
  cr2 : frame.vector = 14 → cr2 = cr2'

/-- **The lines tell the values.** -/
theorem sameReport_of_lines
    (h : ∀ l ∈ panicLineCalls frame cr2, ∀ l' ∈ panicLineCalls frame' cr2', l.2 = l'.2 →
      ∃ x x', lineTextOf l.1 ++ 32 :: x = lineTextOf l'.1 ++ 32 :: x') :
    SameReport frame frame' cr2 cr2' := by
  have hlabel : ∀ {label : String}, (∀ c ∈ chars label, HasGlyph c) →
      PlainText (chars label).length (chars label) := fun h => ⟨le_rfl, h⟩
  have hline : ∀ {calls calls' : List AppendCall} {y : U64} {color : U32},
      (calls, y, color) ∈ panicLineCalls frame cr2 →
      (calls', y, color) ∈ panicLineCalls frame' cr2' →
      ∃ x x', lineTextOf calls ++ 32 :: x = lineTextOf calls' ++ 32 :: x' :=
    fun hl hl' => h _ hl _ hl' rfl
  -- a line with one field, and one with two
  have hone : ∀ {label : String} {v v' : U64} {y : U64} {color : U32},
      (∀ c ∈ chars label, HasGlyph c) →
      (fieldCalls label v, y, color) ∈ panicLineCalls frame cr2 →
      (fieldCalls label v', y, color) ∈ panicLineCalls frame' cr2' → v = v' :=
    fun hchars hl hl' =>
      let ⟨_, _, hx⟩ := hline hl hl'
      (field_cancel (hlabel hchars) hx).1
  have htwo : ∀ {label label' : String} {rest : List U8} {v v' w w' : U64} {y : U64},
      (∀ c ∈ chars label, HasGlyph c) → (∀ c ∈ chars label', HasGlyph c) →
      chars label' = 32 :: rest →
      (fieldCalls label v ++ fieldCalls label' w, y, fbColorWhite) ∈ panicLineCalls frame cr2 →
      (fieldCalls label v' ++ fieldCalls label' w', y, fbColorWhite) ∈
        panicLineCalls frame' cr2' → v = v' ∧ w = w' :=
    fun hchars hchars' hrest hl hl' =>
      let ⟨_, _, hx⟩ := hline hl hl'
      two_fields_cancel (hlabel hchars) (hlabel hchars') hrest hx
  have hvector : frame.vector = frame'.vector := by
    obtain ⟨x, x', hx⟩ := h _ List.mem_cons_self _ List.mem_cons_self rfl
    have hlabel : (chars "Vector ").takeWhile (· ≠ 0) = chars "Vector " := by simp [chars]
    have htext : ∀ v : U64, lineTextOf [.appendStr (chars "Vector "), .appendDec v] =
        chars "Vector " ++ decimal v.toNat := fun v => by
      show (chars "Vector ").takeWhile (· ≠ 0) ++ (decimal v.toNat ++ []) = _
      rw [hlabel, List.append_nil]
    rw [htext, htext, List.append_assoc, List.append_assoc] at hx
    exact decimal_cancel (List.append_cancel_left hx)
  have hcs := @htwo "CS " "  RFLAGS " _ frame.cs frame'.cs frame.rflags frame'.rflags 112
    (by simp [chars, HasGlyph]) (by simp [chars, HasGlyph]) rfl (by simp [panicLineCalls])
    (by simp [panicLineCalls])
  have hrsp := @htwo "RSP " "  SS " _ frame.rsp frame'.rsp frame.ss frame'.ss 128
    (by simp [chars, HasGlyph]) (by simp [chars, HasGlyph]) rfl (by simp [panicLineCalls])
    (by simp [panicLineCalls])
  have hrax := @htwo "RAX " " RBX " _ frame.rax frame'.rax frame.rbx frame'.rbx 184
    (by simp [chars, HasGlyph]) (by simp [chars, HasGlyph]) rfl (by simp [panicLineCalls])
    (by simp [panicLineCalls])
  have hrcx := @htwo "RCX " " RDX " _ frame.rcx frame'.rcx frame.rdx frame'.rdx 200
    (by simp [chars, HasGlyph]) (by simp [chars, HasGlyph]) rfl (by simp [panicLineCalls])
    (by simp [panicLineCalls])
  exact {
    vector := hvector
    errorCode := @hone "Error code " _ _ 72 fbColorWhite (by simp [chars, HasGlyph])
      (by simp [panicLineCalls]) (by simp [panicLineCalls])
    rip := @hone "RIP " _ _ 96 fbColorWhite (by simp [chars, HasGlyph])
      (by simp [panicLineCalls]) (by simp [panicLineCalls])
    cs := hcs.1
    rflags := hcs.2
    rsp := hrsp.1
    ss := hrsp.2
    rax := hrax.1
    rbx := hrax.2
    rcx := hrcx.1
    rdx := hrcx.2
    cr2 := fun h14 => @hone "CR2 (fault addr) " _ _ 152 0x00FFFF00 (by simp [chars, HasGlyph])
      (by simp [panicLineCalls, h14]) (by simp [panicLineCalls, ← hvector, h14]) }

/-- **The screen determines the report.** If two reports look alike, wherever their pixels can be
seen, then they are about the same vector, error code, `RIP`, `CS`, `RFLAGS`, `RSP`, `SS`, `RAX` to
`RDX`, and, for a page fault, the same address. -/
theorem panic_report_determines (s : Fb) (hmode : s.useDoubleBuffer = false)
    (hapart : s.PixelsApart) (hw : 408 ≤ s.screenW.toNat) (hh : 240 ≤ s.screenH.toNat)
    (frame frame' : IntrFrame) (cr2 cr2' : U64) (line line' : ℕ → U8) (m m' r r' : Ram 64)
    (hr : panicReport s frame cr2 line m = some r)
    (hr' : panicReport s frame' cr2' line' m' = some r')
    (hsame : ∀ x y, s.Visible x y → s.pixelAt s.fb r x y = s.pixelAt s.fb r' x y) :
    SameReport frame frame' cr2 cr2' := by
  have hmem : ∀ {frame : IntrFrame} {cr2 : U64}, ∀ l ∈ panicLineCalls frame cr2,
      (⟨lineTextOf l.1, 16, l.2.1, l.2.2⟩ : PlacedText) ∈ panicTexts frame cr2 :=
    fun l hl => List.mem_append_left _ (List.mem_append_right _ (List.mem_map_of_mem hl))
  have hread : ∀ {frame cr2 line m r}, panicReport s frame cr2 line m = some r →
      ∀ l ∈ panicLineCalls frame cr2,
        Screen.readText (s.pixelAt s.fb r) 49 16 l.2.1 l.2.2 fbColorBlack =
          shownText 49 (lineTextOf l.1) := by
    intro frame cr2 line m r hr l hl
    have htext := readText_panicReport hmode hapart hw hh hr (hmem l hl)
    rwa [PlacedText.text, (plainText_panicLineCalls hl).nulFree.takeWhile_eq] at htext
  refine sameReport_of_lines fun l hl l' hl' hplace => ?_
  refine append_space_of_shownText (plainText_panicLineCalls hl) (plainText_panicLineCalls hl') ?_
  rw [← hread hr l hl, ← hread hr' l' hl', hplace]
  refine readText_congr (by decide) fun u v hin => hsame u v ?_
  exact visible_of_inCells hw hh (hplace ▸ (reportPlace_of_mem (hmem l hl)).y_mem) hin

/-- Two frames that differ in `RIP` only leave different screens. -/
theorem panic_report_determines_sample :
    let s := fbInit sampleVideo fbBoot
    let frame := readIntrFrame (fun _ => 0) 0
    ∃ r r', panicReport s frame 0 (fun _ => 0) sampleRam = some r ∧
      panicReport s { frame with rip := 0x100000 } 0 (fun _ => 0) sampleRam = some r' ∧
      ¬ ∀ x y, s.Visible x y → s.pixelAt s.fb r x y = s.pixelAt s.fb r' x y := by
  intro s frame
  have hmode : s.useDoubleBuffer = false := rfl
  obtain ⟨r, hr, -⟩ := panicReport_direct hmode frame 0 (fun _ => 0) sampleRam
  obtain ⟨r', hr', -⟩ := panicReport_direct hmode { frame with rip := 0x100000 } 0 (fun _ => 0)
    sampleRam
  refine ⟨r, r', hr, hr', fun hsame => ?_⟩
  have hrip := (panic_report_determines s hmode geometry_sampleVideo.pixelsApart (by decide)
    (by decide) _ _ 0 0 _ _ _ _ r r' hr hr' hsame).rip
  exact absurd hrip (by decide)

end OS44
