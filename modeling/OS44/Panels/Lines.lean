import OS44.Panels.Appends

/-! # The lines of the debug panel (`debug_panel.c`)

What the callers of the append functions make of them. `format_uptime` stores some characters
without looking whether there is room for them, and `format_size_mb` passes 64 as the capacity of a
buffer of 32 bytes; both texts are short enough (`formatUptime_eq`, `formatSizeMb_eq`). `draw_line`
is given strings of any length: its line is what fits of the whole, and terminated
(`drawLine_eq`). -/

namespace OS44

open BoundedText Numerals

/-- `if (value < 10) buf[pos++] = '0'; str_append_dec(buf, &pos, 64, value);`. -/
def formatField (value : U64) (p : Cursor) : Cursor :=
  cursor.strAppendDec 64 value (if value < 10 then cursor.put 48 p else p)

/-- `format_uptime`: the buffer, and the position that is returned. -/
def formatUptime (seconds : U64) (buf : LocalBuf) : Cursor :=
  let h := seconds / 3600
  let m := seconds % 3600 / 60
  let s := seconds % 60
  let p := formatField h (buf, 0)
  let p := formatField m (cursor.put 58 p)
  let p := formatField s (cursor.put 58 p)
  (p.1.set p.2.toNat 0, p.2)

/-- `format_size_mb`: the buffer, and the position that is returned. -/
def formatSizeMb (bytes : U64) (buf : LocalBuf) : Cursor :=
  let p := cursor.strAppendDec 64 (bytes / (1024 * 1024)) (buf, 0)
  let p := cursor.strAppend 64 (chars " MB") p
  (p.1.set p.2.toNat 0, p.2)

/-- `draw_line`: the line that is drawn. -/
def drawLine (garbage : ℕ → U8) (label value : List U8) : LocalBuf :=
  let p := cursor.strAppend 256 (chars "  ") (LocalBuf.new 256 garbage, 0)
  let p := cursor.strAppend 256 label p
  let p := cursor.strAppend 256 (chars ": ") p
  let p := cursor.strAppend 256 value p
  p.1.set (if p.2 < 256 then p.2.toNat else 255) 0

/-! ## Texts and terminators -/

variable {buf : LocalBuf} {str : List U8}

/-- A text from the start of a buffer. -/
theorem puts_start (h : str.length < 2 ^ 64) :
    cursor.puts str (buf, 0) = (buf.copyAll 0 str, BitVec.ofNat 64 str.length) := by
  rw [puts_cursor (by simpa using h)]
  exact Prod.ext rfl (BitVec.zero_add _)

/-- A text from the start of a buffer, and its terminator. -/
theorem terminated_puts (h : str.length < 2 ^ 64) :
    (cursor.puts str (buf, 0)).1.set (cursor.puts str (buf, 0)).2.toNat 0 =
      buf.copyAll 0 (str ++ [0]) := by
  rw [puts_start h]
  show (buf.copyAll 0 str).set (BitVec.ofNat 64 str.length).toNat 0 = _
  rw [BitVec.toNat_ofNat, Nat.mod_eq_of_lt h, LocalBuf.set_eq_copyAll, ← LocalBuf.copyAll_copyAll,
    Nat.zero_add]

/-- A buffer is not overrun by a text and a terminator that fit. -/
theorem overran_copyAll_nul (h : str.length < buf.size) :
    (buf.copyAll 0 (str ++ [0])).overran = buf.overran := by
  have hlength : (str ++ [(0 : U8)]).length = str.length + 1 := List.length_append
  rw [LocalBuf.overran_copyAll, decide_eq_false fun hc => absurd hc.2 (by omega), Bool.or_false]

/-! ## The time and a size -/

/-- A number with at least two digits. -/
def twoDigits (n : ℕ) : List U8 := if n < 10 then 48 :: decimal n else decimal n

/-- Hours, minutes and seconds. -/
def uptimeText (n : ℕ) : List U8 :=
  twoDigits (n / 3600) ++ [58] ++ twoDigits (n % 3600 / 60) ++ [58] ++ twoDigits (n % 60)

theorem length_twoDigits_le {n k : ℕ} (hk : 2 ≤ k) (h : n < 10 ^ k) :
    (twoDigits n).length ≤ k := by
  have hdigits : (decimal n).length ≤ k := by
    rw [decimal_eq_numeral]
    exact (length_numeral_le_iff (by omega) (by omega)).mpr h
  unfold twoDigits
  split_ifs with hn
  · have hone : (decimal n).length = 1 := by
      rw [decimal_eq_numeral, numeral_of_lt hn, List.length_singleton]
    rw [List.length_cons, hone]
    exact hk
  · exact hdigits

/-- A field behind a text. -/
theorem formatField_puts {value : U64} (h : str.length + (twoDigits value.toNat).length < 64) :
    formatField value (cursor.puts str (buf, 0)) =
      cursor.puts (str ++ twoDigits value.toNat) (buf, 0) := by
  have hten : value < 10 ↔ value.toNat < 10 := BitVec.lt_def
  -- what `str_append_dec` does behind a text of any kind
  have hdec : ∀ t : List U8, t.length + (decimal value.toNat).length < 64 →
      cursor.strAppendDec 64 value (cursor.puts t (buf, 0)) =
        cursor.puts (t ++ decimal value.toNat) (buf, 0) := by
    intro t ht
    have hpos : (cursor.pos (cursor.puts t (buf, 0))).toNat = t.length := by
      rw [puts_start (by omega)]
      exact Nat.mod_eq_of_lt (by omega)
    have hcap : (64 : U64).toNat = 64 := rfl
    rw [Sink.strAppendDec, (counts_cursor 64).appendDec_eq_puts (by omega), hpos,
      fit_of_lt (by omega), Sink.puts_append]
  rw [formatField]
  unfold twoDigits at h ⊢
  split_ifs at h ⊢ with hlt hlt' hlt'
  · rw [List.length_cons] at h
    have hzero : cursor.put 48 (cursor.puts str (buf, 0)) = cursor.puts (str ++ [48]) (buf, 0) :=
      (cursor.puts_append str [48] _).symm
    rw [hzero, hdec _ (by rw [List.length_append, List.length_singleton]; omega),
      List.append_assoc]
    rfl
  · exact absurd (hten.mp hlt) hlt'
  · exact absurd (hten.mpr hlt') hlt
  · exact hdec str h

/-- The time is at most 22 characters long. -/
theorem length_uptimeText_le (seconds : U64) : (uptimeText seconds.toNat).length ≤ 22 := by
  have hlt := seconds.isLt
  have hh : (twoDigits (seconds.toNat / 3600)).length ≤ 16 :=
    length_twoDigits_le (by omega) (by omega)
  have hm : (twoDigits (seconds.toNat % 3600 / 60)).length ≤ 2 :=
    length_twoDigits_le le_rfl (by omega)
  have hs : (twoDigits (seconds.toNat % 60)).length ≤ 2 := length_twoDigits_le le_rfl (by omega)
  simp only [uptimeText, List.length_append, List.length_singleton]
  omega

/-- **The time**, for every number of seconds: nothing but its text and a terminator is written. -/
theorem formatUptime_eq (seconds : U64) (buf : LocalBuf) :
    formatUptime seconds buf = (buf.copyAll 0 (uptimeText seconds.toNat ++ [0]),
      BitVec.ofNat 64 (uptimeText seconds.toNat).length) := by
  have hlength := length_uptimeText_le seconds
  have hh : (seconds / 3600).toNat = seconds.toNat / 3600 := BitVec.toNat_udiv
  have hm : (seconds % 3600 / 60).toNat = seconds.toNat % 3600 / 60 := by
    rw [BitVec.toNat_udiv, BitVec.toNat_umod]
    rfl
  have hs : (seconds % 60).toNat = seconds.toNat % 60 := BitVec.toNat_umod
  have hparts := hlength
  simp only [uptimeText, List.length_append, List.length_singleton] at hparts
  -- one field after another
  have hfirst : formatField (seconds / 3600) (buf, 0) =
      cursor.puts (twoDigits (seconds.toNat / 3600)) (buf, 0) := by
    rw [← hh]
    exact @formatField_puts buf [] (seconds / 3600) (by rw [hh, List.length_nil]; omega)
  have hcolon : ∀ t : List U8, cursor.put 58 (cursor.puts t (buf, 0)) =
      cursor.puts (t ++ [58]) (buf, 0) := fun t => (cursor.puts_append t [58] _).symm
  have htext : cursor.puts (uptimeText seconds.toNat) (buf, 0) =
      formatField (seconds % 60) (cursor.put 58 (formatField (seconds % 3600 / 60)
        (cursor.put 58 (formatField (seconds / 3600) (buf, 0))))) := by
    rw [hfirst, hcolon, formatField_puts, hcolon, formatField_puts, hm, hs, uptimeText]
    · simp only [List.length_append, List.length_singleton, hm, hs]
      omega
    · simp only [List.length_append, List.length_singleton, hm]
      omega
  unfold formatUptime
  dsimp only
  rw [← htext, terminated_puts (by omega), puts_start (by omega)]

/-- The time does not overrun a buffer of 23 bytes or more. -/
theorem overran_formatUptime (seconds : U64) (h : 23 ≤ buf.size) :
    (formatUptime seconds buf).1.overran = buf.overran := by
  have hlength := length_uptimeText_le seconds
  rw [formatUptime_eq]
  exact overran_copyAll_nul (by omega)

/-- A number of mebibytes. -/
def sizeText (n : ℕ) : List U8 := decimal (n / 2 ^ 20) ++ chars " MB"

/-- A size is at most 17 characters long. -/
theorem length_sizeText_le (bytes : U64) : (sizeText bytes.toNat).length ≤ 17 := by
  have hlt := bytes.isLt
  have hdigits : (decimal (bytes.toNat / 2 ^ 20)).length ≤ 14 := by
    rw [decimal_eq_numeral, length_numeral_le_iff (by omega) (by omega)]
    omega
  have hunit : (chars " MB").length = 3 := rfl
  rw [sizeText, List.length_append]
  omega

/-- **A size**, for every number of bytes. -/
theorem formatSizeMb_eq (bytes : U64) (buf : LocalBuf) :
    formatSizeMb bytes buf = (buf.copyAll 0 (sizeText bytes.toNat ++ [0]),
      BitVec.ofNat 64 (sizeText bytes.toNat).length) := by
  have hlength := length_sizeText_le bytes
  have hdiv : (bytes / (1024 * 1024)).toNat = bytes.toNat / 2 ^ 20 := BitVec.toNat_udiv
  let calls : List AppendCall := [.strAppendDec (bytes / (1024 * 1024)), .strAppend (chars " MB")]
  have hfull : calls.flatMap AppendCall.rendering = sizeText bytes.toNat := by
    show decimal (bytes / (1024 * 1024)).toNat ++ (chars " MB" ++ []) = _
    rw [hdiv, List.append_nil, sizeText]
  have hcap : (64 : U64).toNat = 64 := rfl
  have htext : appendAll cursor 64 calls (buf, 0) =
      cursor.puts (sizeText bytes.toNat) (buf, 0) := by
    rw [appendAll_eq_puts (counts_cursor 64) (by decide) (by decide : (0 : U64).toNat < _),
      written_eq (fun call _ => AppendCall.text_eq_rendering call), hfull]
    rw [hfull]
    show 0 + _ < 64
    omega
  show ((appendAll cursor 64 calls (buf, 0)).1.set (appendAll cursor 64 calls (buf, 0)).2.toNat 0,
    (appendAll cursor 64 calls (buf, 0)).2) = _
  rw [htext, terminated_puts (by omega), puts_start (by omega)]

/-- A size does not overrun a buffer of 32 bytes. -/
theorem overran_formatSizeMb (bytes : U64) (h : buf.size = 32) :
    (formatSizeMb bytes buf).1.overran = buf.overran := by
  have hlength := length_sizeText_le bytes
  rw [formatSizeMb_eq]
  exact overran_copyAll_nul (by omega)

/-! ## A line -/

/-- The text of a line with a label and a value. -/
def lineText (label value : List U8) : List U8 :=
  chars "  " ++ (label.takeWhile (· ≠ 0) ++ (chars ": " ++ value.takeWhile (· ≠ 0)))

theorem length_fit_lineText_lt (label value : List U8) :
    (fit 256 0 (lineText label value)).length < 256 := by
  have hlt : 0 + (fit 256 0 (lineText label value)).length < 256 :=
    pos_add_length_fit_lt (by omega)
  omega

/-- **A line is what fits of its text**, and a terminator. -/
theorem drawLine_eq (garbage : ℕ → U8) (label value : List U8) :
    drawLine garbage label value =
      (LocalBuf.new 256 garbage).copyAll 0 (fit 256 0 (lineText label value) ++ [0]) := by
  let calls : List AppendCall :=
    [.strAppend (chars "  "), .strAppend label, .strAppend (chars ": "), .strAppend value]
  let start : Cursor := (LocalBuf.new 256 garbage, 0)
  have hlength := length_fit_lineText_lt label value
  have hfull : calls.flatMap AppendCall.rendering = lineText label value := by
    show chars "  " ++ (label.takeWhile (· ≠ 0) ++ (chars ": " ++
      (value.takeWhile (· ≠ 0) ++ []))) = _
    rw [List.append_nil, lineText]
  have htext : appendAll cursor 256 calls start =
      cursor.puts (fit 256 0 (lineText label value)) start := by
    rw [appendAll_eq_puts (counts_cursor 256) (by decide) (by decide : (0 : U64).toNat < _),
      ← hfull, ← written_fit]
    rfl
  have hpos : (appendAll cursor 256 calls start).2 < 256 := by
    rw [htext, puts_start (by omega), BitVec.lt_def, BitVec.toNat_ofNat]
    show _ < 256
    omega
  show (appendAll cursor 256 calls start).1.set
    (if (appendAll cursor 256 calls start).2 < 256 then
      (appendAll cursor 256 calls start).2.toNat else 255) 0 = _
  rw [if_pos hpos, htext, terminated_puts (by omega)]

/-- No label and no value overrun the line. -/
theorem overran_drawLine (garbage : ℕ → U8) (label value : List U8) :
    (drawLine garbage label value).overran = false := by
  rw [drawLine_eq]
  exact overran_copyAll_nul (length_fit_lineText_lt label value)

end OS44
