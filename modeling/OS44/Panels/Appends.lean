import OS44.Library.BoundedText
import OS44.Shell.Digits

/-! # The append functions (`shell.c`, `interrupts.c`, `debug_panel.c`, `startup_panel.c`)

Four files have their own copies of the functions that append a string, a decimal or a hexadecimal
number to a line, and each looks at `*pos` and `cap` before it stores a character. Here they are
written once for anything that characters are stored in (`Sink`): a local buffer with its position
(`cursor`), or the bytes of memory. Every call stores one character behind the other, and which ones
depends on the position only (`AppendCall.text`, `AppendCall.run_eq_puts`), so that a list of calls
stores one text (`appendAll_eq_puts`). -/

namespace OS44

open BoundedText

/-- Where characters are stored: `*pos`, and `buf[(*pos)++] = c`. -/
structure Sink (σ : Type) where
  pos : σ → U64
  put : U8 → σ → σ

namespace Sink

variable {σ : Type} (S : Sink σ) (cap : U64)

/-- Store one character behind the other. -/
def puts (str : List U8) (s : σ) : σ := str.foldl (fun s c => S.put c s) s

/-- `while (… && *pos + 1 < cap) buf[(*pos)++] = …`. -/
def pushAll : List U8 → σ → σ
  | [], s => s
  | c :: str, s => if S.pos s + 1 < cap then pushAll str (S.put c s) else s

/-! ## `shell.c` and `interrupts.c` -/

/-- `append_str`. The string is not in the buffer. -/
def appendStr (str : List U8) (s : σ) : σ := S.pushAll cap (str.takeWhile (· ≠ 0)) s

/-- `append_hex`. -/
def appendHex (value : U64) (s : σ) : σ :=
  if value = 0 then
    if S.pos s + 3 < cap then S.put 48 (S.put 120 (S.put 48 s)) else s
  else
    let tmp := hexDigits 16 value
    -- without room for `0x` the digits are appended all the same
    let s := if S.pos s + 2 < cap then S.put 120 (S.put 48 s) else s
    S.pushAll cap tmp.reverse s

/-- `append_dec`. -/
def appendDec (value : U64) (s : σ) : σ :=
  if value = 0 then
    if S.pos s + 1 < cap then S.put 48 s else s
  else
    let tmp := decDigits 24 value
    S.pushAll cap tmp.reverse s

/-! ## `debug_panel.c` -/

/-- `str_append`. -/
def strAppend (str : List U8) (s : σ) : σ := S.appendStr cap str s

/-- `str_append_dec`. -/
def strAppendDec (value : U64) (s : σ) : σ := S.appendDec cap value s

/-- `str_append_hex`. -/
def strAppendHex (value : U64) (s : σ) : σ := S.appendHex cap value s

/-! ## `startup_panel.c` -/

/-- `append_uint`. -/
def appendUint (value : U64) (s : σ) : σ :=
  let tmp := if value = 0 then [48] else decDigits 24 value
  S.pushAll cap tmp.reverse s

end Sink

/-! ## Calls -/

/-- A call of one of the functions. -/
inductive AppendCall
  | appendStr (str : List U8)
  | appendDec (value : U64)
  | appendHex (value : U64)
  | strAppend (str : List U8)
  | strAppendDec (value : U64)
  | strAppendHex (value : U64)
  | appendUint (value : U64)
  deriving DecidableEq, Repr

/-- The call is made. -/
def AppendCall.run {σ : Type} (S : Sink σ) (cap : U64) : AppendCall → σ → σ
  | .appendStr str => S.appendStr cap str
  | .appendDec value => S.appendDec cap value
  | .appendHex value => S.appendHex cap value
  | .strAppend str => S.strAppend cap str
  | .strAppendDec value => S.strAppendDec cap value
  | .strAppendHex value => S.strAppendHex cap value
  | .appendUint value => S.appendUint cap value

/-- The full text of the argument: a string up to its NUL, a decimal number, or `0x` and a
hexadecimal number. -/
def AppendCall.rendering : AppendCall → List U8
  | .appendStr str | .strAppend str => str.takeWhile (· ≠ 0)
  | .appendDec value | .strAppendDec value | .appendUint value => decimal value.toNat
  | .appendHex value | .strAppendHex value => chars "0x" ++ hexadecimal value.toNat

/-- Calls that are made one after another. -/
def appendAll {σ : Type} (S : Sink σ) (cap : U64) (calls : List AppendCall) (s : σ) : σ :=
  calls.foldl (fun s call => call.run S cap s) s

/-- What `append_hex` stores at a position: all or nothing for zero, and a digit without `0x` where
there is room for one character only. -/
def hexText (cap pos n : ℕ) : List U8 :=
  if n = 0 ∧ ¬ pos + 3 < cap then []
  else if pos + 2 < cap then fit cap pos (chars "0x" ++ hexadecimal n)
  else fit cap pos (hexadecimal n)

theorem hexText_of_ne_zero {cap pos n : ℕ} (hn : n ≠ 0) :
    hexText cap pos n = if pos + 2 < cap then fit cap pos (chars "0x" ++ hexadecimal n)
      else fit cap pos (hexadecimal n) := if_neg fun h => hn h.1

/-- What a call stores at a position. -/
def AppendCall.text (cap : ℕ) (call : AppendCall) (pos : ℕ) : List U8 :=
  match call with
  | .appendHex value | .strAppendHex value => hexText cap pos value.toNat
  | _ => fit cap pos call.rendering

/-! ## Every call stores a text -/

theorem Sink.puts_append {σ : Type} (S : Sink σ) (str str' : List U8) (s : σ) :
    S.puts (str ++ str') s = S.puts str' (S.puts str s) := List.foldl_append

/-- **Storing a character in the buffer moves the position by one.** -/
structure Sink.Counts {σ : Type} (S : Sink σ) (cap : U64) : Prop where
  pos_put : ∀ c s, (S.pos s).toNat < cap.toNat → S.pos (S.put c s) = S.pos s + 1

section Texts

variable {σ : Type} {S : Sink σ} {cap : U64} {s : σ}

/-- `*pos + k < cap`, where the sum does not wrap around. -/
theorem room_iff {pos k : U64} (h : pos.toNat + k.toNat < 2 ^ 64) :
    pos + k < cap ↔ pos.toNat + k.toNat < cap.toNat := by
  rw [BitVec.lt_def, BitVec.toNat_add, Nat.mod_eq_of_lt h]

theorem Sink.Counts.toNat_pos_put (h : S.Counts cap) (hs : (S.pos s).toNat < cap.toNat) (c : U8) :
    (S.pos (S.put c s)).toNat = (S.pos s).toNat + 1 := by
  have hcap := cap.isLt
  have hone : (1 : U64).toNat = 1 := rfl
  rw [h.pos_put c s hs, BitVec.toNat_add]
  exact Nat.mod_eq_of_lt (by omega)

/-- The position behind a text. -/
theorem Sink.Counts.toNat_pos_puts (h : S.Counts cap) {str : List U8}
    (hroom : (S.pos s).toNat + str.length ≤ cap.toNat) :
    (S.pos (S.puts str s)).toNat = (S.pos s).toNat + str.length := by
  induction str generalizing s with
  | nil => rfl
  | cons c str ih =>
    rw [List.length_cons] at hroom
    have hput := h.toNat_pos_put (by omega : (S.pos s).toNat < cap.toNat) c
    show (S.pos (S.puts str (S.put c s))).toNat = _
    rw [ih (by omega), hput, List.length_cons, Nat.add_assoc, Nat.add_comm 1]

/-- The loop stores what there is room for. -/
theorem Sink.Counts.pushAll_eq_puts (h : S.Counts cap) (hs : (S.pos s).toNat < cap.toNat)
    (str : List U8) : S.pushAll cap str s = S.puts (fit cap.toNat (S.pos s).toNat str) s := by
  induction str generalizing s with
  | nil => rw [fit, List.take_nil]; rfl
  | cons c str ih =>
    have hcap := cap.isLt
    have hroom : S.pos s + 1 < cap ↔ (S.pos s).toNat + 1 < cap.toNat :=
      room_iff (by rw [show (1 : U64).toNat = 1 from rfl]; omega)
    rw [Sink.pushAll]
    by_cases hlt : (S.pos s).toNat + 1 < cap.toNat
    · have hput := h.toNat_pos_put hs c
      rw [if_pos (hroom.mpr hlt), ih (by omega), hput, fit_cons_of_lt hlt]
      rfl
    · rw [if_neg fun hc => hlt (hroom.mp hc), fit_of_full hlt]
      rfl

/-- The decimal digits are read from the end of a temporary of 24 bytes; zero has its own check. -/
theorem Sink.appendDec_eq_pushAll (S : Sink σ) (cap value : U64) (s : σ) :
    S.appendDec cap value s = S.pushAll cap (decimal value.toNat) s := by
  by_cases hvalue : value = 0
  · have hzero : S.appendDec cap 0 s = S.pushAll cap [48] s := if_pos rfl
    rw [hvalue, hzero]
    exact congrArg (fun str => S.pushAll cap str s) decimal_zero.symm
  · rw [← reverse_decDigits (by omega : 20 ≤ 24) hvalue]
    exact if_neg hvalue

/-- `append_uint` has no such check, and does the same. -/
theorem Sink.appendUint_eq_pushAll (S : Sink σ) (cap value : U64) (s : σ) :
    S.appendUint cap value s = S.pushAll cap (decimal value.toNat) s := by
  have htmp : (if value = 0 then [48] else decDigits 24 value).reverse = decimal value.toNat := by
    split_ifs with hvalue
    · rw [hvalue]
      exact decimal_zero.symm
    · exact reverse_decDigits (by omega) hvalue
  rw [Sink.appendUint, htmp]

theorem Sink.Counts.appendDec_eq_puts (h : S.Counts cap) (hs : (S.pos s).toNat < cap.toNat)
    (value : U64) :
    S.appendDec cap value s =
      S.puts (fit cap.toNat (S.pos s).toNat (decimal value.toNat)) s := by
  rw [S.appendDec_eq_pushAll, h.pushAll_eq_puts hs]

theorem Sink.Counts.appendUint_eq_puts (h : S.Counts cap) (hs : (S.pos s).toNat < cap.toNat)
    (value : U64) :
    S.appendUint cap value s =
      S.puts (fit cap.toNat (S.pos s).toNat (decimal value.toNat)) s := by
  rw [S.appendUint_eq_pushAll, h.pushAll_eq_puts hs]

/-- All or nothing for zero. -/
theorem Sink.appendHex_zero (hcap : cap.toNat + 2 < 2 ^ 64) (hs : (S.pos s).toNat < cap.toNat) :
    S.appendHex cap 0 s = S.puts (hexText cap.toNat (S.pos s).toNat 0) s := by
  have hthree : (3 : U64).toNat = 3 := rfl
  have hroom : S.pos s + 3 < cap ↔ (S.pos s).toNat + 3 < cap.toNat := room_iff (by omega)
  have happend : S.appendHex cap 0 s =
      if S.pos s + 3 < cap then S.puts (chars "0x" ++ [48]) s else s := if_pos rfl
  rw [happend, hexText, hexadecimal_zero]
  by_cases hlt : (S.pos s).toNat + 3 < cap.toNat
  · have hfits : fit cap.toNat (S.pos s).toNat (chars "0x" ++ [48]) = chars "0x" ++ [48] :=
      fit_of_lt hlt
    rw [if_pos (hroom.mpr hlt), if_neg fun hc => hc.2 hlt, if_pos (by omega), hfits]
  · rw [if_neg fun hc => hlt (hroom.mp hc), if_pos ⟨rfl, hlt⟩]
    rfl

/-- `0x` and the digits there is room for behind it, or a digit alone. -/
theorem Sink.Counts.appendHex_of_ne_zero (h : S.Counts cap) (hcap : cap.toNat + 2 < 2 ^ 64)
    (hs : (S.pos s).toNat < cap.toNat) {value : U64} (hvalue : value ≠ 0) :
    S.appendHex cap value s = S.puts (hexText cap.toNat (S.pos s).toNat value.toNat) s := by
  have htwo : (2 : U64).toNat = 2 := rfl
  have hroom : S.pos s + 2 < cap ↔ (S.pos s).toNat + 2 < cap.toNat := room_iff (by omega)
  have hne : value.toNat ≠ 0 := fun hc => hvalue (BitVec.eq_of_toNat_eq hc)
  have happend : S.appendHex cap value s = S.pushAll cap (hexadecimal value.toNat)
      (if S.pos s + 2 < cap then S.puts (chars "0x") s else s) := by
    rw [← reverse_hexDigits hvalue]
    exact if_neg hvalue
  rw [happend, hexText_of_ne_zero hne]
  by_cases hlt : (S.pos s).toNat + 2 < cap.toNat
  · -- the digits start behind `0x`
    have hpos : (S.pos (S.puts (chars "0x") s)).toNat = (S.pos s).toNat + 2 :=
      h.toNat_pos_puts (Nat.le_of_lt hlt)
    have hfits : fit cap.toNat (S.pos s).toNat (chars "0x" ++ hexadecimal value.toNat) =
        chars "0x" ++ fit cap.toNat ((S.pos s).toNat + 2) (hexadecimal value.toNat) := by
      show fit _ _ (48 :: 120 :: hexadecimal value.toNat) = [48, 120] ++ _
      rw [fit_cons_of_lt (by omega), fit_cons_of_lt hlt]
      rfl
    rw [if_pos (hroom.mpr hlt), if_pos hlt, h.pushAll_eq_puts (by omega), hpos, hfits,
      S.puts_append]
  · rw [if_neg fun hc => hlt (hroom.mp hc), if_neg hlt, h.pushAll_eq_puts hs]

theorem Sink.Counts.appendHex_eq_puts (h : S.Counts cap) (hcap : cap.toNat + 2 < 2 ^ 64)
    (hs : (S.pos s).toNat < cap.toNat) (value : U64) :
    S.appendHex cap value s = S.puts (hexText cap.toNat (S.pos s).toNat value.toNat) s := by
  by_cases hvalue : value = 0
  · rw [hvalue]
    exact S.appendHex_zero hcap hs
  · exact h.appendHex_of_ne_zero hcap hs hvalue

/-- **A call stores its text**, and nothing else. -/
theorem AppendCall.run_eq_puts (h : S.Counts cap) (hcap : cap.toNat + 2 < 2 ^ 64)
    (hs : (S.pos s).toNat < cap.toNat) (call : AppendCall) :
    call.run S cap s = S.puts (call.text cap.toNat (S.pos s).toNat) s := by
  cases call with
  | appendStr str => exact h.pushAll_eq_puts hs _
  | appendDec value => exact h.appendDec_eq_puts hs value
  | appendHex value => exact h.appendHex_eq_puts hcap hs value
  | strAppend str => exact h.pushAll_eq_puts hs _
  | strAppendDec value => exact h.appendDec_eq_puts hs value
  | strAppendHex value => exact h.appendHex_eq_puts hcap hs value
  | appendUint value => exact h.appendUint_eq_puts hs value

end Texts

/-! ## The texts -/

section Rendering

variable {cap pos : ℕ}

/-- A byte is left for the terminator. -/
theorem AppendCall.pos_add_length_text_lt (call : AppendCall) (h : pos < cap) :
    pos + (call.text cap pos).length < cap := by
  have hhex : ∀ n, pos + (hexText cap pos n).length < cap := by
    intro n
    unfold hexText
    split_ifs
    · exact h
    · exact pos_add_length_fit_lt h
    · exact pos_add_length_fit_lt h
  cases call with
  | appendHex value => exact hhex value.toNat
  | strAppendHex value => exact hhex value.toNat
  | _ => exact pos_add_length_fit_lt h

theorem hexText_of_lt {n : ℕ} (h : pos + (chars "0x" ++ hexadecimal n).length < cap) :
    hexText cap pos n = chars "0x" ++ hexadecimal n := by
  have hlength : (chars "0x" ++ hexadecimal n).length = 2 + (hexadecimal n).length :=
    List.length_append
  -- there is at least one digit
  have hdigit : 0 < (hexadecimal n).length := by
    rw [hexadecimal, chars_ofList, List.length_map, List.length_map]
    exact Nat.length_toDigits_pos
  rw [hexText, if_neg fun hc => hc.2 (by omega), if_pos (by omega), fit_of_lt h]

/-- **With room for it, the text of a call is the full one.** -/
theorem AppendCall.text_eq_rendering (call : AppendCall)
    (h : pos + call.rendering.length < cap) : call.text cap pos = call.rendering := by
  cases call with
  | appendHex value => exact hexText_of_lt h
  | strAppendHex value => exact hexText_of_lt h
  | _ => exact fit_of_lt h

end Rendering

/-! ## Many calls -/

section Many

variable {σ : Type} {S : Sink σ} {cap : U64} {s : σ}

/-- **Calls store one text.** -/
theorem appendAll_eq_puts (h : S.Counts cap) (hcap : cap.toNat + 2 < 2 ^ 64)
    (hs : (S.pos s).toNat < cap.toNat) (calls : List AppendCall) :
    appendAll S cap calls s =
      S.puts (written (AppendCall.text cap.toNat) calls (S.pos s).toNat) s := by
  induction calls generalizing s with
  | nil => rfl
  | cons call calls ih =>
    have htext := call.pos_add_length_text_lt hs
    have hrun := call.run_eq_puts h hcap hs
    have hpos := h.toNat_pos_puts (Nat.le_of_lt htext)
    show appendAll S cap calls (call.run S cap s) = _
    rw [hrun, ih (by omega), hpos, written, S.puts_append]

end Many

/-! ## Local buffers -/

section Cursors

variable {cap : U64}

/-- A local buffer and a position. -/
def cursor : Sink Cursor where
  pos p := p.2
  put c p := (p.1.set p.2.toNat c, p.2 + 1)

theorem counts_cursor (cap : U64) : cursor.Counts cap := ⟨fun _ _ _ => rfl⟩

theorem pushAll_cursor (str : List U8) (p : Cursor) :
    cursor.pushAll cap str p = pushAll cap str p := by
  induction str generalizing p with
  | nil => rfl
  | cons c str ih =>
    rw [Sink.pushAll, pushAll, ih]
    rfl

/-- The functions of the shell are those of a local buffer. -/
theorem appendStr_cursor (str : List U8) (p : Cursor) :
    cursor.appendStr cap str p = appendStr cap str p := pushAll_cursor _ p

theorem appendDec_cursor (value : U64) (p : Cursor) :
    cursor.appendDec cap value p = appendDec cap value p := by
  unfold Sink.appendDec appendDec
  dsimp only
  rw [pushAll_cursor]
  rfl

theorem appendHex_cursor (value : U64) (p : Cursor) :
    cursor.appendHex cap value p = appendHex cap value p := by
  have htwo : p.2 + 1 + 1 = p.2 + 2 := BitVec.add_assoc p.2 1 1
  have hthree : p.2 + 2 + 1 = p.2 + 3 := BitVec.add_assoc p.2 2 1
  unfold Sink.appendHex appendHex
  dsimp only [cursor]
  rw [← pushAll_cursor, htwo, hthree]
  rfl

/-- A text in a local buffer. -/
theorem puts_cursor {str : List U8} {p : Cursor} (h : p.2.toNat + str.length < 2 ^ 64) :
    cursor.puts str p =
      (p.1.copyAll p.2.toNat str, p.2 + BitVec.ofNat 64 str.length) := by
  induction str generalizing p with
  | nil => exact Prod.ext LocalBuf.copyAll_nil.symm (BitVec.add_zero p.2).symm
  | cons c str ih =>
    rw [List.length_cons] at h
    have hone : (1 : U64).toNat = 1 := rfl
    have hnext : (p.2 + 1).toNat = p.2.toNat + 1 := by
      rw [BitVec.toNat_add, hone]
      exact Nat.mod_eq_of_lt (by omega)
    show cursor.puts str (p.1.set p.2.toNat c, p.2 + 1) = _
    rw [ih (by rw [hnext]; omega), hnext, LocalBuf.copyAll_cons, BitVec.add_assoc, List.length_cons,
      Nat.add_comm str.length 1, BitVec.ofNat_add]
    rfl

/-- With room for it, the full text. -/
theorem puts_cursor_fit {str : List U8} {p : Cursor} (h : p.2.toNat + str.length < cap.toNat) :
    cursor.puts (fit cap.toNat p.2.toNat str) p =
      (p.1.copyAll p.2.toNat str, p.2 + BitVec.ofNat 64 str.length) := by
  rw [fit_of_lt h]
  exact puts_cursor (h.trans cap.isLt)

end Cursors

/-! ## Decimal numbers, there and back -/

/-- **A decimal number as a text**: `itoa` writes its digits and a NUL, `append_dec` and
`append_uint` append the same digits where there is room, and `atoi` reads the number back. -/
structure DecimalText (v : U64) (digits : List U8) : Prop where
  eq_decimal : digits = decimal v.toNat
  digit : ∀ c ∈ digits, 48 ≤ c ∧ c ≤ 57
  no_zero_in_front : digits.head? = some 48 → v = 0
  length_le : digits.length ≤ 20
  /-- The bytes of the digits and of the NUL are written, and no other. -/
  itoa_writes : ∀ garbage buf, (itoaInto garbage v buf).1 = buf.copyAll 0 (digits ++ [0])
  /-- The temporary is not written behind its end. -/
  itoa_tmp : ∀ garbage buf, (itoaInto garbage v buf).2.overran = false
  appendDec_writes : ∀ (cap : U64) (p : Cursor), p.2.toNat + digits.length < cap.toNat →
    appendDec cap v p = (p.1.copyAll p.2.toNat digits, p.2 + BitVec.ofNat 64 digits.length)
  appendUint_writes : ∀ (cap : U64) (p : Cursor), p.2.toNat + digits.length < cap.toNat →
    cursor.appendUint cap v p = (p.1.copyAll p.2.toNat digits, p.2 + BitVec.ofNat 64 digits.length)
  atoi_reads : ∀ c : U8, ¬ (48 ≤ c ∧ c ≤ 57) → ∀ rest, atoi (digits ++ c :: rest) = some v

/-- **There and back, for every 64-bit number.** -/
theorem decimal_there_and_back (v : U64) : DecimalText v (decimal v.toNat) where
  eq_decimal := rfl
  digit := fun _ => digit_of_mem_decimal
  no_zero_in_front := fun h => BitVec.eq_of_toNat_eq (eq_zero_of_head_decimal h)
  length_le := length_decimal_le v
  itoa_writes := fun garbage buf => by rw [itoaInto_eq, itoa_eq]
  itoa_tmp := fun garbage buf => overran_itoaInto garbage v buf
  appendDec_writes := fun cap p h => by
    have hlt : p.2.toNat < cap.toNat := by omega
    rw [← appendDec_cursor, (counts_cursor cap).appendDec_eq_puts hlt]
    exact puts_cursor_fit h
  appendUint_writes := fun cap p h => by
    have hlt : p.2.toNat < cap.toNat := by omega
    rw [(counts_cursor cap).appendUint_eq_puts hlt]
    exact puts_cursor_fit h
  atoi_reads := fun _ hc rest => atoi_decimal v hc rest

end OS44
