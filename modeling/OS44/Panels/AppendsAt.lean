import OS44.Library.Ram
import OS44.Panels.Appends

/-! # Lines in memory (`shell.c`, `interrupts.c`, `debug_panel.c`, `startup_panel.c`)

The append functions are given a buffer of `cap` bytes and a pointer to the position, which is
another object. Both are in an address space of 64 bits, and so no position in the buffer wraps
around when a small number is added to it (`Dest.cap_lt`). In memory the functions do what they do
to a local buffer (`Dest.Shows.puts`). Whatever the calls are, nothing but the position and the
bytes in front of the last one of the buffer is written, and texts that fit are there in full
(`appends_stay_inside`). -/

namespace OS44

open LittleEndian ByteRange BoundedText

/-- `char *buf, uint64_t *pos, uint64_t cap`: the buffer has `cap` bytes, and `*pos` is not in
it. -/
structure Dest where
  buf : U64
  pos : U64
  cap : U64
  buf_le : buf.toNat + cap.toNat ≤ 2 ^ 64
  pos_le : pos.toNat + 8 ≤ 2 ^ 64
  apart : buf.toNat + cap.toNat ≤ pos.toNat ∨ pos.toNat + 8 ≤ buf.toNat

namespace Dest

variable (d : Dest)

/-- The address of `buf[i]`. -/
def bufAt (i : ℕ) : U64 := d.buf + BitVec.ofNat 64 i

/-- `*pos`, and `buf[(*pos)++] = c`. -/
def sink : Sink (Ram 64) where
  pos m := load64 m.bytes d.pos
  put c m :=
    let i := load64 m.bytes d.pos
    (m.store d.pos 8 (i + 1).toNat).setByte (d.buf + i) c

/-- An address of the first `n` bytes of the buffer, or of `*pos`. -/
def Touches (n : ℕ) (a : U64) : Prop :=
  (∃ i < n, a = d.bufAt i) ∨ ∃ k < 8, a = d.pos + BitVec.ofNat 64 k

/-- A local buffer and a position with the same bytes and the same number. -/
structure Shows (m : Ram 64) (p : Cursor) : Prop where
  pos_eq : d.sink.pos m = p.2
  bytes_eq : ∀ i < d.cap.toNat, m.bytes (d.bufAt i) = p.1.bytes i

variable {d} {m : Ram 64} {p : Cursor}

/-- The position takes eight bytes. -/
theorem cap_lt : d.cap.toNat + 2 < 2 ^ 64 := by
  have hbuf := d.buf_le
  have hpos := d.pos_le
  rcases d.apart with h | h <;> omega

/-- No byte of the buffer is one of the position. -/
theorem not_toNat_sub_lt {i : ℕ} (hi : i < d.cap.toNat) :
    ¬ (d.bufAt i - d.pos).toNat < 8 := by
  have hbuf := d.buf_le
  have hpos := d.pos_le
  rw [bufAt, BitVec.toNat_sub, BitVec.toNat_add, BitVec.toNat_ofNat]
  rcases d.apart with h | h <;> omega

theorem pos_ne_buf {i k : ℕ} (hi : i < d.cap.toNat) (hk : k < 8) :
    d.pos + BitVec.ofNat 64 k ≠ d.bufAt i := by
  intro h
  refine not_toNat_sub_lt hi ?_
  rw [← h, toNat_add_sub (by omega)]
  exact hk

/-- The bytes of the buffer are different ones. -/
theorem bufAt_inj {i j : ℕ} (hi : i < d.cap.toNat) (hj : j < d.cap.toNat)
    (h : d.bufAt i = d.bufAt j) : i = j := by
  have hcap := d.cap.isLt
  have hoff := congrArg BitVec.toNat (BitVec.add_right_inj _ |>.mp h)
  rwa [BitVec.toNat_ofNat, BitVec.toNat_ofNat, Nat.mod_eq_of_lt (by omega),
    Nat.mod_eq_of_lt (by omega)] at hoff

/-! ## Storing a character -/

/-- The character is stored at the position. -/
theorem put_eq (c : U8) (m : Ram 64) :
    d.sink.put c m = (m.store d.pos 8 (d.sink.pos m + 1).toNat).setByte
      (d.bufAt (d.sink.pos m).toNat) c := by
  rw [bufAt, BitVec.ofNat_toNat, BitVec.setWidth_eq]
  rfl

/-- In the buffer it leaves the position alone, which is counted up. -/
theorem counts_sink (d : Dest) : d.sink.Counts d.cap where
  pos_put c m h := by
    have hload : load64 (d.sink.put c m).bytes d.pos =
        load64 (store64 m.bytes d.pos (d.sink.pos m + 1)) d.pos := by
      rw [load64, load64, put_eq]
      refine congrArg (BitVec.ofNat 64) (loadLE_congr fun k hk => ?_)
      exact Function.update_of_ne (pos_ne_buf h hk) _ _
    exact hload.trans (load64_store64 _ _ _)

/-- Every local buffer with the same bytes shows the character too. -/
theorem Shows.put (h : d.Shows m p) (hp : p.2.toNat < d.cap.toNat) (c : U8) :
    d.Shows (d.sink.put c m) (cursor.put c p) where
  pos_eq := by
    rw [d.counts_sink.pos_put c m (by rwa [h.pos_eq]), h.pos_eq]
    rfl
  bytes_eq i hi := by
    rw [put_eq, h.pos_eq]
    show Function.update (m.store d.pos 8 _).bytes _ c _ = Function.update p.1.bytes _ c i
    by_cases heq : i = p.2.toNat
    · rw [heq, Function.update_self, Function.update_self]
    · rw [Function.update_of_ne fun hc => heq (bufAt_inj hi hp hc), Function.update_of_ne heq,
        ← h.bytes_eq i hi]
      exact storeLE_of_not_lt (not_toNat_sub_lt hi)

/-- Only the position and the character are written. -/
theorem within_put {n : ℕ} (h : (d.sink.pos m).toNat < n) (c : U8) :
    Ram.Within (d.Touches n) m (d.sink.put c m) := by
  rw [put_eq, Ram.store_eq_fill, Ram.setByte_eq_fill]
  refine (Ram.within_fill _ fun b hb => ?_).trans (Ram.within_fill _ fun b hb => ?_)
  · exact .inr ⟨_, hb, (add_ofNat_toNat_sub d.pos b).symm⟩
  · refine .inl ⟨_, h, ?_⟩
    rw [← add_ofNat_toNat_sub (d.bufAt _) b, Nat.lt_one_iff.mp hb]
    exact BitVec.add_zero _

/-! ## Storing a text -/

/-- **In memory a text is what it is in a local buffer.** -/
theorem Shows.puts {str : List U8} (h : d.Shows m p)
    (hroom : p.2.toNat + str.length ≤ d.cap.toNat) :
    d.Shows (d.sink.puts str m) (cursor.puts str p) := by
  induction str generalizing m p with
  | nil => exact h
  | cons c str ih =>
    rw [List.length_cons] at hroom
    have hp : p.2.toNat < d.cap.toNat := by omega
    have hnext := (counts_cursor d.cap).toNat_pos_put hp c
    refine ih (h.put hp c) ?_
    rw [show (cursor.put c p).2.toNat = p.2.toNat + 1 from hnext]
    omega

/-- A text is written into the buffer, and where it ends the position is. -/
theorem within_puts {n : ℕ} {str : List U8} (hn : n ≤ d.cap.toNat)
    (h : (d.sink.pos m).toNat + str.length ≤ n) :
    Ram.Within (d.Touches n) m (d.sink.puts str m) := by
  induction str generalizing m with
  | nil => exact .refl _ m
  | cons c str ih =>
    rw [List.length_cons] at h
    have hlt : (d.sink.pos m).toNat < n := by omega
    have hnext := d.counts_sink.toNat_pos_put (Nat.lt_of_lt_of_le hlt hn) c
    exact (within_put hlt c).trans (ih (by omega))

/-- The buffer and the position as a local buffer. -/
def view (d : Dest) (m : Ram 64) : Cursor :=
  (LocalBuf.new d.cap.toNat fun i => m.bytes (d.bufAt i), d.sink.pos m)

theorem shows_view (d : Dest) (m : Ram 64) : d.Shows m (d.view m) := ⟨rfl, fun _ _ => rfl⟩

/-- The bytes of a text that starts the buffer. -/
theorem bytes_puts {str : List U8} (h0 : d.sink.pos m = 0) (h : str.length ≤ d.cap.toNat) {i : ℕ}
    (hi : i < str.length) : (d.sink.puts str m).bytes (d.bufAt i) = str.getD i 0 := by
  have hpos : (d.view m).2.toNat = 0 := congrArg BitVec.toNat h0
  have hcap := d.cap.isLt
  have hshows : d.Shows (d.sink.puts str m) (cursor.puts str (d.view m)) :=
    (d.shows_view m).puts (by omega)
  rw [hshows.bytes_eq i (by omega), puts_cursor (by omega), hpos,
    LocalBuf.bytes_copyAll (Nat.zero_le i) (by omega), Nat.sub_zero]

end Dest

/-! ## Any calls -/

/-- **Appends that stay inside** their buffer, between two memories. -/
structure StaysInside (d : Dest) (calls : List AppendCall) (m m' : Ram 64) : Prop where
  /-- Characters are stored one by one, and `*pos` is at no time above `cap - 1`. -/
  one_by_one : ∃ str, m' = d.sink.puts str m ∧
    ∀ k, (d.sink.pos (d.sink.puts (str.take k) m)).toNat ≤ d.cap.toNat - 1
  /-- Only indices below `cap - 1` are written, and `*pos`. -/
  within : Ram.Within (d.Touches (d.cap.toNat - 1)) m m'
  /-- The terminator goes into the buffer. -/
  terminator : (d.sink.pos m').toNat < d.cap.toNat
  /-- What fits is there in full. -/
  holds : (calls.flatMap AppendCall.rendering).length < d.cap.toNat →
    (d.sink.pos m').toNat = (calls.flatMap AppendCall.rendering).length ∧
      ∀ i < (calls.flatMap AppendCall.rendering).length,
        m'.bytes (d.bufAt i) = (calls.flatMap AppendCall.rendering).getD i 0

/-- **Every sequence of appends stays inside its buffer**, whatever its capacity is. -/
theorem appends_stay_inside (d : Dest) (hcap : 1 ≤ d.cap.toNat) (calls : List AppendCall)
    {m : Ram 64} (h0 : d.sink.pos m = 0) :
    StaysInside d calls m (appendAll d.sink d.cap calls m) := by
  have hpos : (d.sink.pos m).toNat = 0 := congrArg BitVec.toNat h0
  have hputs := appendAll_eq_puts d.counts_sink d.cap_lt (by omega : (d.sink.pos m).toNat < _) calls
  have hlt := pos_add_length_written_lt (fun call _ => AppendCall.pos_add_length_text_lt call)
    calls (by omega : (d.sink.pos m).toNat < d.cap.toNat)
  have hfull := fun h => written_eq (fun call _ => AppendCall.text_eq_rendering call)
    (h : (d.sink.pos m).toNat + (calls.flatMap AppendCall.rendering).length < d.cap.toNat)
  rw [hputs]
  generalize written (AppendCall.text d.cap.toNat) calls (d.sink.pos m).toNat = str at hlt hfull
  have hend := d.counts_sink.toNat_pos_puts (Nat.le_of_lt hlt)
  refine ⟨⟨str, rfl, fun k => ?_⟩, Dest.within_puts (Nat.sub_le _ _) (by omega), by omega,
    fun h => ?_⟩
  · have hk : (str.take k).length ≤ str.length := List.length_take_le' k str
    rw [d.counts_sink.toNat_pos_puts (by omega)]
    omega
  · rw [← hfull (by omega)]
    exact ⟨by omega, fun i hi => Dest.bytes_puts h0 (by omega) hi⟩

/-- A buffer of eight bytes, and a position in memory behind it. -/
def sampleDest : Dest where
  buf := 0x1000
  pos := 0x2000
  cap := 8
  buf_le := by decide
  pos_le := by decide
  apart := by decide

/-- Room for `a=0x07`, and for one of three more characters. -/
theorem appends_stay_inside_sample :
    StaysInside sampleDest
      [.appendStr (chars "a="), .appendHex 0, .appendUint 7, .strAppendDec 123]
      ⟨fun _ => 0, fun _ => false⟩
      (appendAll sampleDest.sink 8
        [.appendStr (chars "a="), .appendHex 0, .appendUint 7, .strAppendDec 123]
        ⟨fun _ => 0, fun _ => false⟩) :=
  appends_stay_inside sampleDest (by decide) _ rfl

end OS44
