import Mathlib.Data.List.TakeWhile
import OS44.Library.Words
import OS44.Shell.Text

/-! # The list of CPU features (`sysinfo.c`)

`sysinfo_get_cpu_features` appends the name of each feature whose bit is set, with blanks behind it,
as far as a hand-counted check lets it, and in the end takes one blank away. Most of the rows of its
table do not do what their neighbours do: some have two or three blanks, one has a NUL, one has no
blank, and most checks are off by one or two. The list is right exactly if the rows that come to
bear are the good ones and their checks let in what fits (`features_listed_iff`). -/

namespace OS44

open Words

/-! ## The table -/

/-- A row: the bit that is tested, the number that is added to the position in the check for room,
and the bytes that are copied. -/
structure CpuFeature where
  bit : ℕ
  room : ℕ
  text : List U8
  deriving DecidableEq, Repr

/-- The rows of `sysinfo_get_cpu_features`. The bits of `ecx` are counted from 32 on. -/
def cpuFeatures : List CpuFeature :=
  [⟨0, 3, chars "FPU "⟩, ⟨1, 4, chars "VME  "⟩, ⟨2, 4, chars "DE   "⟩, ⟨3, 4, chars "PSE  "⟩,
    ⟨4, 4, chars "TSC  "⟩, ⟨5, 4, chars "MSR  "⟩, ⟨8, 5, chars "CX8  "⟩, ⟨9, 5, chars "APIC "⟩,
    ⟨11, 5, chars "SEP  "⟩, ⟨15, 5, chars "CMOV "⟩, ⟨23, 5, chars "MMX  "⟩,
    ⟨24, 5, chars "FXSR "⟩,
    -- four bytes of `"SSE  "`
    ⟨25, 4, chars "SSE "⟩, ⟨26, 5, chars "SSE2 "⟩, ⟨33, 5, chars "SSE3 "⟩, ⟨35, 6, chars "FMA  "⟩,
    -- six bytes of `"CX16 "`, the terminator among them
    ⟨36, 7, chars "CX16 " ++ [0]⟩, ⟨41, 7, chars "SSE41 "⟩, ⟨42, 7, chars "SSE42 "⟩,
    -- six bytes of `"X2APIC"`, with no blank, and a check as for five
    ⟨43, 5, chars "X2APIC"⟩,
    -- four bytes of `"AVX  "`
    ⟨57, 4, chars "AVX "⟩, ⟨58, 5, chars "AVX2 "⟩, ⟨62, 7, chars "AVX512"⟩]

/-- `if ((features & (1 << bit)) && (pos + room < (int)cap)) { memcpy(…); pos += …; }`. -/
def appendFeature (features cap : U64) (s : LocalBuf × ℕ) (f : CpuFeature) : LocalBuf × ℕ :=
  if features &&& (1 : U64) <<< f.bit ≠ 0 ∧ ((s.2 + f.room : ℕ) : ℤ) < (cap.setWidth 32).toInt then
    (s.1.copy s.2 (fun j => f.text.getD j 0) f.text.length, s.2 + f.text.length)
  else s

/-- `features`. -/
def featureBits (edx ecx : U32) : U64 := edx.setWidth 64 ||| ecx.setWidth 64 <<< 32

/-- `sysinfo_get_cpu_features`, with the two words that `sysinfo_init` kept. -/
def sysinfoGetCpuFeatures (edx ecx : U32) (buf : LocalBuf) (cap : U64) : LocalBuf :=
  let cap := if cap = 0 then 0xFFFFFFFFFFFFFFFF else cap
  -- the position is the length of what was copied so far
  let s := cpuFeatures.foldl (appendFeature (featureBits edx ecx) cap) (buf, 0)
  -- one blank is taken away, though most rows have more
  let pos := if 0 < s.2 ∧ s.1.bytes (s.2 - 1) = 32 then s.2 - 1 else s.2
  s.1.set pos 0

/-! ## What the list should be -/

/-- The C string in a buffer, if it ends in it. -/
def LocalBuf.cString (b : LocalBuf) : Option (List U8) :=
  let str := (List.range b.size).map b.bytes
  if 0 ∈ str then some (str.takeWhile (· ≠ 0)) else none

/-- A character of a name. -/
def nameChar (c : U8) : Bool := c ≠ 32 ∧ c ≠ 0

/-- The name of a feature. -/
def CpuFeature.name (f : CpuFeature) : List U8 := f.text.takeWhile nameChar

/-- The bytes that are copied behind it. -/
def CpuFeature.padding (f : CpuFeature) : List U8 := f.text.dropWhile nameChar

example : cpuFeatures.map CpuFeature.name =
    ["FPU", "VME", "DE", "PSE", "TSC", "MSR", "CX8", "APIC", "SEP", "CMOV", "MMX", "FXSR", "SSE",
      "SSE2", "SSE3", "FMA", "CX16", "SSE41", "SSE42", "X2APIC", "AVX", "AVX2", "AVX512"].map
        chars := by
  decide

/-- The rows whose bits are set. -/
def selected (features : U64) (fs : List CpuFeature) : List CpuFeature :=
  fs.filter fun f => features &&& (1 : U64) <<< f.bit ≠ 0

def testedFeatures (edx ecx : U32) : List CpuFeature := selected (featureBits edx ecx) cpuFeatures

/-- **The features are listed**: no byte behind the buffer is written, and the string in it has the
names of the features whose bits are set, each of them unless it does not fit. -/
def FeaturesListed (edx ecx : U32) (cap : U64) (bytes : ℕ → U8) : Prop :=
  let buf := sysinfoGetCpuFeatures edx ecx (LocalBuf.new cap.toNat bytes) cap
  buf.overran = false ∧
    buf.cString =
      some ([32].intercalate (fitting cap.toNat 0 ((testedFeatures edx ecx).map CpuFeature.name)))

/-! ## The rows -/

/-- Behind its name, a row has nothing, one blank, or a blank and then a blank or a NUL. -/
structure CpuFeature.Ok (f : CpuFeature) : Prop where
  name_ne : f.name ≠ []
  padding : f.padding = [] ∨ f.padding = [32] ∨ ∃ c x, f.padding = 32 :: c :: x ∧ (c = 32 ∨ c = 0)

/-- The names of two rows can be told apart, also where nothing is behind the later one. -/
def CpuFeature.Apart (f g : CpuFeature) : Prop :=
  f.name ≠ g.name ∧ (g.padding = [] → ¬ g.name <+: f.name)

instance (f g : CpuFeature) : Decidable (f.Apart g) := inferInstanceAs (Decidable (_ ∧ _))

theorem cpuFeatures_apart : cpuFeatures.Pairwise CpuFeature.Apart := by
  decide

theorem cpuFeatures_ok : ∀ f ∈ cpuFeatures, f.Ok := by
  have hcheck : ∀ f ∈ cpuFeatures, f.name ≠ [] ∧ (f.padding = [] ∨ f.padding = [32] ∨
      f.padding.take 2 = [32, 32] ∨ f.padding.take 2 = [32, 0]) := by
    decide
  intro f hf
  obtain ⟨hname, hpadding⟩ := hcheck f hf
  refine ⟨hname, ?_⟩
  rcases hpadding with h | h | h | h
  · exact .inl h
  · exact .inr (.inl h)
  · refine .inr (.inr ⟨32, f.padding.drop 2, ?_, .inl rfl⟩)
    rw [← List.take_append_drop 2 f.padding, h]
    rfl
  · refine .inr (.inr ⟨0, f.padding.drop 2, ?_, .inr rfl⟩)
    rw [← List.take_append_drop 2 f.padding, h]
    rfl

theorem CpuFeature.text_eq (f : CpuFeature) : f.text = f.name ++ f.padding :=
  (List.takeWhile_append_dropWhile ..).symm

theorem CpuFeature.nameChar_name (f : CpuFeature) : ∀ c ∈ f.name, c ≠ 0 ∧ c ≠ 32 := by
  intro c hc
  have hchar : nameChar c = true := List.mem_takeWhile_imp hc
  exact (of_decide_eq_true hchar).symm

theorem CpuFeature.blank_notMem_name (f : CpuFeature) : 32 ∉ f.name := by
  intro h
  exact (f.nameChar_name 32 h).2 rfl

/-! ## The string -/

/-- The text without a blank at its end. -/
def trimBlank (str : List U8) : List U8 := if str.getLast? = some 32 then str.dropLast else str

/-- The string of a text: without a blank at its end, up to a NUL. -/
def cText (str : List U8) : List U8 := (trimBlank str).takeWhile (· ≠ 0)

variable {w x str : List U8} {c : ℤ} {p cap : ℕ} {f : CpuFeature} {fs : List CpuFeature}

theorem trimBlank_append (w : List U8) (hx : x ≠ []) : trimBlank (w ++ x) = w ++ trimBlank x := by
  have hlast : (w ++ x).getLast? = x.getLast? := List.getLast?_append_of_ne_nil w hx
  rw [trimBlank, trimBlank, hlast]
  split_ifs
  · exact List.dropLast_append_of_ne_nil hx
  · rfl

theorem trimBlank_of_forall_ne (hw : ∀ c ∈ w, c ≠ 0 ∧ c ≠ 32) : trimBlank w = w := by
  rw [trimBlank, if_neg]
  intro hlast
  exact (hw 32 (List.mem_of_getLast? hlast)).2 rfl

/-- A word stays in front of the string. -/
theorem cText_append (hw : ∀ c ∈ w, c ≠ 0 ∧ c ≠ 32) (x : List U8) :
    cText (w ++ x) = w ++ cText x := by
  have hword : ∀ c ∈ w, decide (c ≠ 0) = true := fun c hc => decide_eq_true (hw c hc).1
  by_cases hx : x = []
  · rw [hx, cText, List.append_nil, trimBlank_of_forall_ne hw, List.takeWhile_eq_self_iff.mpr hword]
    exact (List.append_nil w).symm
  · rw [cText, trimBlank_append w hx, List.takeWhile_append_of_pos hword]
    rfl

/-- A blank at the end is dropped, any other is kept. -/
theorem cText_blank (x : List U8) : cText (32 :: x) = if x = [] then [] else 32 :: cText x := by
  split_ifs with hx
  · rw [hx]
    rfl
  · have htrim := trimBlank_append [32] hx
    rw [List.singleton_append] at htrim
    rw [cText, htrim]
    exact List.takeWhile_cons_of_pos (by decide)

/-- A NUL ends the string. -/
theorem cText_nul (x : List U8) : cText (0 :: x) = [] := by
  by_cases hx : x = []
  · rw [hx]
    rfl
  · have htrim := trimBlank_append [0] hx
    rw [List.singleton_append] at htrim
    rw [cText, htrim]
    exact List.takeWhile_cons_of_neg (by decide)

/-- Behind a blank or a NUL, the string ends or has a blank. -/
theorem cText_padding {a : U8} (ha : a = 32 ∨ a = 0) (x : List U8) :
    cText (a :: x) = [] ∨ ∃ y, cText (a :: x) = 32 :: y := by
  rcases ha with rfl | rfl
  · rw [cText_blank]
    split_ifs
    · exact .inl rfl
    · exact .inr ⟨_, rfl⟩
  · exact .inl (cText_nul x)

/-! ## What is appended -/

/-- The bytes that the rows append from a position on. -/
def appended (c : ℤ) : ℕ → List CpuFeature → List U8
  | _, [] => []
  | p, f :: fs =>
    if ((p + f.room : ℕ) : ℤ) < c then f.text ++ appended c (p + f.text.length) fs
    else appended c p fs

theorem appended_of_lt (h : ((p + f.room : ℕ) : ℤ) < c) :
    appended c p (f :: fs) = f.text ++ appended c (p + f.text.length) fs := if_pos h

theorem appended_of_not_lt (h : ¬ ((p + f.room : ℕ) : ℤ) < c) :
    appended c p (f :: fs) = appended c p fs := if_neg h

/-- Nothing is appended, or the text of a row comes first. -/
theorem appended_eq (c : ℤ) (p : ℕ) (fs : List CpuFeature) :
    appended c p fs = [] ∨ ∃ f ∈ fs, ∃ x, appended c p fs = f.text ++ x := by
  induction fs with
  | nil => exact .inl rfl
  | cons f fs ih =>
    by_cases h : ((p + f.room : ℕ) : ℤ) < c
    · exact .inr ⟨f, List.mem_cons_self, _, appended_of_lt h⟩
    · rw [appended_of_not_lt h]
      rcases ih with hnil | ⟨g, hg, x, hx⟩
      · exact .inl hnil
      · exact .inr ⟨g, List.mem_cons_of_mem f hg, x, hx⟩

theorem CpuFeature.text_ne (hf : f.Ok) : f.text ≠ [] := by
  rw [f.text_eq]
  exact List.append_ne_nil_of_left_ne_nil hf.name_ne _

theorem appended_eq_nil_iff (hok : ∀ f ∈ fs, f.Ok) :
    appended c p fs = [] ↔ ∀ f ∈ fs, ¬ ((p + f.room : ℕ) : ℤ) < c := by
  induction fs with
  | nil => exact iff_of_true rfl fun f hf => absurd hf List.not_mem_nil
  | cons f fs ih =>
    rw [List.forall_mem_cons] at hok ⊢
    by_cases h : ((p + f.room : ℕ) : ℤ) < c
    · rw [appended_of_lt h]
      exact iff_of_false (List.append_ne_nil_of_left_ne_nil (CpuFeature.text_ne hok.1) _)
        fun hall => hall.1 h
    · rw [appended_of_not_lt h, ih hok.2]
      exact (and_iff_right h).symm

/-- The string of what is appended starts with a name, or nothing is appended. -/
theorem cText_appended (c : ℤ) (p : ℕ) (fs : List CpuFeature) :
    appended c p fs = [] ∨
      ∃ f ∈ fs, ∃ x, cText (appended c p fs) = f.name ++ cText (f.padding ++ x) := by
  rcases appended_eq c p fs with h | ⟨f, hf, x, hx⟩
  · exact .inl h
  · refine .inr ⟨f, hf, x, ?_⟩
    rw [hx, f.text_eq, List.append_assoc, cText_append f.nameChar_name]

theorem cText_appended_eq_nil_iff (hok : ∀ f ∈ fs, f.Ok) :
    cText (appended c p fs) = [] ↔ appended c p fs = [] := by
  constructor
  · intro hnil
    rcases cText_appended c p fs with h | ⟨f, hf, x, hx⟩
    · exact h
    · rw [hnil] at hx
      exact absurd (List.append_eq_nil_iff.mp hx.symm).1 (hok f hf).name_ne
  · intro h
    rw [h]
    rfl

/-! ## When the list is right -/

/-- The names that fit, from a position on. -/
def fittingNames (cap p : ℕ) (fs : List CpuFeature) : List (List U8) :=
  fitting cap p (fs.map CpuFeature.name)

/-- The rows behind a position give the list: what they append ends inside the buffer, the string
too, and it has the names that fit. -/
structure Listed (cap : ℕ) (c : ℤ) (p : ℕ) (fs : List CpuFeature) : Prop where
  inside : p + (appended c p fs).length ≤ cap
  terminated : appended c p fs ≠ [] → p + (trimBlank (appended c p fs)).length < cap
  string : cText (appended c p fs) = [32].intercalate (fittingNames cap p fs)

/-- **The checks are right for the rows**: a row is appended exactly if its name fits, and then it
has one blank behind its name, or it has none and nothing else is appended or fits. -/
def RoomAgrees (cap : ℕ) (c : ℤ) : ℕ → List CpuFeature → Prop
  | _, [] => True
  | p, f :: fs =>
    if p + f.name.length < cap then
      ((p + f.room : ℕ) : ℤ) < c ∧
        (f.padding = [32] ∧ RoomAgrees cap c (p + f.name.length + 1) fs ∨
          f.padding = [] ∧ ∀ g ∈ fs, ¬ p + f.name.length + 1 + g.name.length < cap ∧
            ¬ ((p + f.name.length + g.room : ℕ) : ℤ) < c)
    else ¬ ((p + f.room : ℕ) : ℤ) < c ∧ RoomAgrees cap c p fs

instance RoomAgrees.decidable (cap : ℕ) (c : ℤ) :
    (p : ℕ) → (fs : List CpuFeature) → Decidable (RoomAgrees cap c p fs)
  | _, [] => isTrue trivial
  | p, f :: fs =>
    have := RoomAgrees.decidable cap c (p + f.name.length + 1) fs
    have := RoomAgrees.decidable cap c p fs
    show Decidable (if p + f.name.length < cap then _ else _) from inferInstance

theorem fittingNames_of_fits (h : p + f.name.length < cap) :
    fittingNames cap p (f :: fs) = f.name :: fittingNames cap (p + f.name.length + 1) fs :=
  fitting_of_fits h

theorem fittingNames_of_full (h : ¬ p + f.name.length < cap) :
    fittingNames cap p (f :: fs) = fittingNames cap p fs := fitting_of_full h

theorem fittingNames_eq_nil_iff :
    fittingNames cap p fs = [] ↔ ∀ f ∈ fs, ¬ p + f.name.length < cap := by
  rw [fittingNames, fitting_eq_nil_iff]
  exact List.forall_mem_map

theorem intercalate_fittingNames_eq_nil_iff (cap p : ℕ) (hok : ∀ f ∈ fs, f.Ok) :
    [32].intercalate (fittingNames cap p fs) = [] ↔ fittingNames cap p fs = [] := by
  constructor
  · intro hnil
    by_contra hne
    obtain ⟨w, ws, hws⟩ := List.exists_cons_of_ne_nil hne
    have hw : w ∈ fittingNames cap p fs := hws ▸ List.mem_cons_self
    obtain ⟨f, hf, rfl⟩ := List.mem_map.mp (mem_of_mem_fitting hw)
    rw [hws, intercalate_cons] at hnil
    exact (hok f hf).name_ne (List.append_eq_nil_iff.mp hnil).1
  · intro h
    rw [h]
    exact List.intercalate_nil

theorem CpuFeature.length_text (f : CpuFeature) :
    f.text.length = f.name.length + f.padding.length := by
  rw [f.text_eq, List.length_append]

/-- The name stays in front when the text is trimmed. -/
theorem length_name_le_trimBlank (f : CpuFeature) (x : List U8) :
    f.name.length ≤ (trimBlank (f.text ++ x)).length := by
  rw [f.text_eq, List.append_assoc]
  by_cases hx : f.padding ++ x = []
  · rw [hx, List.append_nil, trimBlank_of_forall_ne f.nameChar_name]
  · rw [trimBlank_append _ hx, List.length_append]
    exact Nat.le_add_right ..

/-! ### One row -/

theorem Listed.of_eq {q : ℕ} {gs : List CpuFeature} (h : Listed cap c p fs) (hp : p = q)
    (happended : appended c q gs = appended c p fs)
    (hnames : fittingNames cap q gs = fittingNames cap p fs) : Listed cap c q gs := by
  subst hp
  refine ⟨?_, ?_, ?_⟩
  · rw [happended]
    exact h.inside
  · rw [happended]
    exact h.terminated
  · rw [happended, hnames]
    exact h.string

/-- A row that is left out, and has to be. -/
theorem listed_cons_of_out (hfull : ¬ p + f.name.length < cap)
    (hout : ¬ ((p + f.room : ℕ) : ℤ) < c) : Listed cap c p (f :: fs) ↔ Listed cap c p fs := by
  constructor
  · intro h
    exact h.of_eq rfl (appended_of_not_lt hout).symm (fittingNames_of_full hfull).symm
  · intro h
    exact h.of_eq rfl (appended_of_not_lt hout) (fittingNames_of_full hfull)

/-- A row that is appended although its name does not fit. -/
theorem not_listed_of_full (hok : f.Ok) (hfull : ¬ p + f.name.length < cap)
    (hin : ((p + f.room : ℕ) : ℤ) < c) : ¬ Listed cap c p (f :: fs) := by
  intro h
  have hterminated := h.terminated
  rw [appended_of_lt hin] at hterminated
  -- the name is in the string, so that it ends in the buffer
  have hend := hterminated (List.append_ne_nil_of_left_ne_nil (CpuFeature.text_ne hok) _)
  have hname := length_name_le_trimBlank f (appended c (p + f.text.length) fs)
  omega

/-- A row that is left out although its name fits: another name comes first. -/
theorem not_listed_of_out (hok : ∀ g ∈ fs, g.Ok) (hf : f.Ok) (hapart : ∀ g ∈ fs, f.Apart g)
    (hfits : p + f.name.length < cap) (hout : ¬ ((p + f.room : ℕ) : ℤ) < c) :
    ¬ Listed cap c p (f :: fs) := by
  intro h
  have hstring := h.string
  rw [appended_of_not_lt hout, fittingNames_of_fits hfits, intercalate_cons] at hstring
  rcases cText_appended c p fs with hnil | ⟨g, hg, x, hx⟩
  · rw [hnil] at hstring
    exact hf.name_ne (List.append_eq_nil_iff.mp hstring.symm).1
  -- the first word of the string is the name of `g`, that of the list the name of `f`
  rw [hx] at hstring
  obtain ⟨hne, hglued⟩ := hapart g hg
  have hword := takeWhile_word f.blank_notMem_name
    (behind_eq 32 (fittingNames cap (p + f.name.length + 1) fs))
  rw [← hstring] at hword
  have hpadded : ∀ a y, g.padding = a :: y → (a = 32 ∨ a = 0) → False := by
    intro a y hpadding ha
    rw [hpadding, List.cons_append,
      takeWhile_word g.blank_notMem_name (cText_padding ha _)] at hword
    exact hne hword.symm
  rcases (hok g hg).padding with hpadding | hpadding | ⟨a, y, hpadding, -⟩
  · -- nothing is behind the other name, so it is a part of this one
    rw [List.takeWhile_append_of_pos fun a ha =>
      decide_eq_true (g.nameChar_name a ha).2] at hword
    exact hglued hpadding ⟨_, hword⟩
  · exact hpadded 32 [] hpadding (.inl rfl)
  · exact hpadded 32 _ hpadding (.inl rfl)

/-- What a row with one blank behind its name appends, and the rows behind it. -/
theorem appended_of_blank (fs : List CpuFeature) (hin : ((p + f.room : ℕ) : ℤ) < c)
    (hpadding : f.padding = [32]) :
    appended c p (f :: fs) = f.name ++ 32 :: appended c (p + f.name.length + 1) fs := by
  have hlength : f.text.length = f.name.length + 1 := by rw [f.length_text, hpadding]; rfl
  rw [appended_of_lt hin, hlength, f.text_eq, hpadding, List.append_assoc]
  rfl

/-- The trimmed text of a name, a blank and what follows: nothing follows, or it is what is
trimmed. -/
theorem length_trimBlank_name (f : CpuFeature) (x : List U8) :
    (trimBlank (f.name ++ 32 :: x)).length =
      if x = [] then f.name.length else f.name.length + 1 + (trimBlank x).length := by
  split_ifs with hx
  · have hname : trimBlank (f.name ++ [32]) = f.name :=
      (trimBlank_append _ (List.cons_ne_nil _ _)).trans (List.append_nil _)
    rw [hx, hname]
  · rw [List.append_cons, trimBlank_append _ hx, List.length_append, List.length_append]
    rfl

/-- A name, a blank and the string of the rows behind it are the names that fit, if the rest is. -/
theorem cText_of_blank (hok : ∀ g ∈ fs, g.Ok) {q : ℕ} (hfits : p + f.name.length < cap) :
    cText (f.name ++ 32 :: appended c q fs) = [32].intercalate (fittingNames cap p (f :: fs)) ↔
      cText (appended c q fs) =
        [32].intercalate (fittingNames cap (p + f.name.length + 1) fs) := by
  have hnames := intercalate_fittingNames_eq_nil_iff cap (p + f.name.length + 1) hok
  rw [cText_append f.nameChar_name, cText_blank, fittingNames_of_fits hfits, intercalate_cons,
    List.append_cancel_left_eq, behind]
  -- the blank is there exactly if something is appended, and expected exactly if a name fits
  split_ifs with hnil hrest hrest
  · rw [hnil, hrest]
    exact iff_of_true rfl rfl
  · rw [hnil]
    exact iff_of_false not_false fun heq => hrest (hnames.mp heq.symm)
  · rw [hrest]
    exact iff_of_false not_false fun heq => hnil ((cText_appended_eq_nil_iff hok).mp heq)
  · exact List.cons_inj_right 32

/-- A row with one blank behind its name. -/
theorem listed_cons_of_blank (hok : ∀ g ∈ fs, g.Ok) (hfits : p + f.name.length < cap)
    (hin : ((p + f.room : ℕ) : ℤ) < c) (hpadding : f.padding = [32]) :
    Listed cap c p (f :: fs) ↔ Listed cap c (p + f.name.length + 1) fs := by
  have happended := appended_of_blank fs hin hpadding
  have hsize : (appended c p (f :: fs)).length =
      f.name.length + ((appended c (p + f.name.length + 1) fs).length + 1) := by
    rw [happended, List.length_append, List.length_cons]
  have htrim := length_trimBlank_name f (appended c (p + f.name.length + 1) fs)
  have hstring := cText_of_blank (c := c) (q := p + f.name.length + 1) hok hfits
  rw [← happended] at htrim hstring
  constructor
  · intro h
    have hinside := h.inside
    have hterminated := h.terminated (happended ▸ List.append_ne_nil_of_right_ne_nil _ (by simp))
    refine ⟨by omega, fun hne => ?_, hstring.mp h.string⟩
    rw [if_neg hne] at htrim
    omega
  · intro h
    have hinside := h.inside
    refine ⟨by omega, fun _ => ?_, hstring.mpr h.string⟩
    -- the blank is trimmed if nothing comes behind it
    rw [htrim]
    split_ifs with hne
    · exact hfits
    · have hterminated := h.terminated hne
      omega

/-- A name does not start with a blank. -/
theorem CpuFeature.append_ne_blank (hf : f.Ok) (x y : List U8) : f.name ++ x ≠ 32 :: y := by
  obtain ⟨a, name, hname⟩ := List.exists_cons_of_ne_nil hf.name_ne
  intro heq
  rw [hname, List.cons_append] at heq
  have ha : a = 32 := (List.cons.inj heq).1
  rw [ha] at hname
  exact f.blank_notMem_name (hname ▸ List.mem_cons_self)

theorem CpuFeature.append_ne_behind (hf : f.Ok) (x : List U8) (ws : List (List U8)) :
    f.name ++ x ≠ behind 32 ws := by
  rcases behind_eq 32 ws with h | ⟨y, h⟩
  · rw [h]
    exact List.append_ne_nil_of_left_ne_nil hf.name_ne x
  · rw [h]
    exact CpuFeature.append_ne_blank hf x y

/-- A row with nothing behind its name. -/
theorem listed_cons_of_glued (hok : ∀ g ∈ fs, g.Ok) (hfits : p + f.name.length < cap)
    (hin : ((p + f.room : ℕ) : ℤ) < c) (hpadding : f.padding = []) :
    Listed cap c p (f :: fs) ↔ ∀ g ∈ fs, ¬ p + f.name.length + 1 + g.name.length < cap ∧
      ¬ ((p + f.name.length + g.room : ℕ) : ℤ) < c := by
  have htext : f.text = f.name := by rw [f.text_eq, hpadding, List.append_nil]
  have happended : appended c p (f :: fs) = f.name ++ appended c (p + f.name.length) fs := by
    rw [appended_of_lt hin, htext]
  rw [forall₂_and, ← fittingNames_eq_nil_iff, ← appended_eq_nil_iff hok]
  constructor
  · intro h
    have hstring := h.string
    rw [happended, cText_append f.nameChar_name, fittingNames_of_fits hfits, intercalate_cons,
      List.append_cancel_left_eq] at hstring
    -- a name that is appended is glued to this one
    rcases cText_appended c (p + f.name.length) fs with hnil | ⟨g, hg, x, hx⟩
    · refine ⟨?_, hnil⟩
      rw [hnil, behind] at hstring
      split_ifs at hstring with hrest
      · exact hrest
      · exact absurd hstring (List.cons_ne_nil _ _).symm
    · rw [hx] at hstring
      exact absurd hstring (CpuFeature.append_ne_behind (hok g hg) _ _)
  · rintro ⟨hrest, hnil⟩
    rw [hnil, List.append_nil] at happended
    refine ⟨?_, fun _ => ?_, ?_⟩
    · rw [happended]
      omega
    · rw [happended, trimBlank_of_forall_ne f.nameChar_name]
      exact hfits
    · rw [happended, fittingNames_of_fits hfits, hrest, List.intercalate_singleton]
      have hname := cText_append f.nameChar_name []
      rw [List.append_nil] at hname
      rw [hname]
      exact List.append_nil _

/-- A row with a blank and a blank, or a blank and a NUL, behind its name. -/
theorem not_listed_of_wide {a : U8} {x : List U8} (hok : ∀ g ∈ fs, g.Ok)
    (hfits : p + f.name.length < cap) (hin : ((p + f.room : ℕ) : ℤ) < c)
    (hpadding : f.padding = 32 :: a :: x) (ha : a = 32 ∨ a = 0) : ¬ Listed cap c p (f :: fs) := by
  intro h
  have hstring := h.string
  rw [appended_of_lt hin, f.text_eq, hpadding, List.append_assoc, cText_append f.nameChar_name,
    fittingNames_of_fits hfits, intercalate_cons, List.append_cancel_left_eq, List.cons_append,
    List.cons_append, cText_blank, if_neg (List.cons_ne_nil _ _), behind] at hstring
  split_ifs at hstring with hrest
  -- behind the blank the list has a name, and the string has none
  obtain ⟨w, ws, hws⟩ := List.exists_cons_of_ne_nil hrest
  have hw : w ∈ fittingNames cap (p + f.name.length + 1) fs := hws ▸ List.mem_cons_self
  obtain ⟨g, hg, rfl⟩ := List.mem_map.mp (mem_of_mem_fitting hw)
  have htail := (List.cons_inj_right 32).mp hstring
  rw [hws, intercalate_cons] at htail
  rcases cText_padding ha _ with hnil | ⟨y, hy⟩
  · rw [hnil] at htail
    exact (hok g hg).name_ne (List.append_eq_nil_iff.mp htail.symm).1
  · rw [hy] at htail
    exact CpuFeature.append_ne_blank (hok g hg) _ _ htail.symm

/-- **The list is right exactly if the checks are right for the rows.** -/
theorem listed_iff_roomAgrees (hp : p ≤ cap) (hok : ∀ f ∈ fs, f.Ok)
    (hapart : fs.Pairwise CpuFeature.Apart) : Listed cap c p fs ↔ RoomAgrees cap c p fs := by
  induction fs generalizing p with
  | nil => exact iff_of_true ⟨hp, fun hne => absurd rfl hne, rfl⟩ trivial
  | cons f fs ih =>
    obtain ⟨hf, hrest⟩ := List.forall_mem_cons.mp hok
    obtain ⟨hne, hpairs⟩ := List.pairwise_cons.mp hapart
    rw [RoomAgrees]
    -- a check that says otherwise than the name's length is always wrong
    split_ifs with hfits
    · by_cases hin : ((p + f.room : ℕ) : ℤ) < c
      · rw [and_iff_right hin]
        rcases hf.padding with hpadding | hpadding | ⟨a, x, hpadding, ha⟩
        · have hblank : f.padding ≠ [32] := by rw [hpadding]; exact (List.cons_ne_nil _ _).symm
          rw [listed_cons_of_glued hrest hfits hin hpadding, or_iff_right fun h => hblank h.1,
            and_iff_right hpadding]
        · have hsome : f.padding ≠ [] := by rw [hpadding]; exact List.cons_ne_nil _ _
          rw [listed_cons_of_blank hrest hfits hin hpadding, or_iff_left fun h => hsome h.1,
            and_iff_right hpadding]
          exact ih (by omega) hrest hpairs
        · refine iff_of_false (not_listed_of_wide hrest hfits hin hpadding ha) ?_
          rw [hpadding]
          rintro (h | h)
          · exact List.cons_ne_nil _ _ (List.cons.inj h.1).2
          · exact List.cons_ne_nil _ _ h.1
      · exact iff_of_false (not_listed_of_out hrest hf hne hfits hin) fun h => hin h.1
    · by_cases hin : ((p + f.room : ℕ) : ℤ) < c
      · exact iff_of_false (not_listed_of_full hf hfits hin) fun h => h.1 hin
      · rw [listed_cons_of_out hfits hin, and_iff_right hin]
        exact ih hp hrest hpairs

/-! ## What the code writes -/

variable {b : LocalBuf}

theorem foldl_appendFeature (features cap : U64) (fs : List CpuFeature) (b : LocalBuf) (p : ℕ) :
    fs.foldl (appendFeature features cap) (b, p) =
      (b.copyAll p (appended (cap.setWidth 32).toInt p (selected features fs)),
        p + (appended (cap.setWidth 32).toInt p (selected features fs)).length) := by
  induction fs generalizing b p with
  | nil => exact Prod.ext LocalBuf.copyAll_nil.symm rfl
  | cons f fs ih =>
    rw [List.foldl_cons, selected, List.filter_cons, ← selected]
    by_cases hbit : features &&& (1 : U64) <<< f.bit ≠ 0
    · rw [if_pos (decide_eq_true hbit)]
      by_cases hin : ((p + f.room : ℕ) : ℤ) < (cap.setWidth 32).toInt
      · have hstep : appendFeature features cap (b, p) f =
            (b.copyAll p f.text, p + f.text.length) := if_pos ⟨hbit, hin⟩
        rw [appended_of_lt hin, hstep, ih, LocalBuf.copyAll_copyAll, List.length_append,
          Nat.add_assoc]
      · have hstep : appendFeature features cap (b, p) f = (b, p) := if_neg fun h => hin h.2
        rw [appended_of_not_lt hin, hstep, ih]
    · have hstep : appendFeature features cap (b, p) f = (b, p) := if_neg fun h => hbit h.1
      rw [if_neg fun h => hbit (of_decide_eq_true h), hstep, ih]

/-! ## The string in the buffer -/

theorem trimBlank_isPrefix (str : List U8) : trimBlank str <+: str := by
  rw [trimBlank]
  split_ifs
  · exact List.dropLast_prefix str
  · exact List.prefix_rfl

/-- Where the code writes the NUL. -/
theorem length_trimBlank (str : List U8) :
    (trimBlank str).length =
      if 0 < str.length ∧ str.getD (str.length - 1) 0 = 32 then str.length - 1 else str.length := by
  rcases List.eq_nil_or_concat str with rfl | ⟨init, a, rfl⟩
  · rfl
  · have hlast : (init ++ [a]).getD ((init ++ [a]).length - 1) 0 = a := by
      rw [List.length_append, List.length_singleton, Nat.add_sub_cancel,
        List.getD_append_right _ _ _ _ (Nat.le_refl _), Nat.sub_self]
      rfl
    have hpos : 0 < (init ++ [a]).length := List.length_append ▸ Nat.succ_pos _
    rw [List.concat_eq_append, hlast, trimBlank, List.getLast?_concat]
    by_cases ha : a = 32
    · rw [if_pos (congrArg some ha), if_pos ⟨hpos, ha⟩, List.length_dropLast]
    · rw [if_neg fun h => ha (Option.some.inj h), if_neg fun h => ha h.2]

/-- A buffer with a text and a NUL behind it has that text, up to its first NUL. -/
theorem LocalBuf.cString_eq {k : ℕ} (hk : b.size = w.length + (k + 1))
    (hw : ∀ j < w.length, b.bytes j = w.getD j 0) (hnul : b.bytes w.length = 0) :
    b.cString = some (w.takeWhile (· ≠ 0)) := by
  have htext : (List.range w.length).map b.bytes = w := by
    refine List.ext_getElem (by rw [List.length_map, List.length_range]) fun j h h' => ?_
    rw [List.getElem_map, List.getElem_range, hw j h', List.getD_eq_getElem]
  have hstr : (List.range b.size).map b.bytes =
      w ++ 0 :: (List.range k).map fun j => b.bytes (w.length + (j + 1)) := by
    rw [hk, List.range_add, List.map_append, htext, List.range_succ_eq_map, List.map_cons,
      List.map_cons, Nat.add_zero, hnul, List.map_map, List.map_map]
    rfl
  have hmem : 0 ∈ (List.range b.size).map b.bytes := by
    rw [hstr]
    exact List.mem_append_right w List.mem_cons_self
  rw [cString, if_pos hmem, hstr, List.takeWhile_append]
  split_ifs with hlength
  · have hself : w.takeWhile (· ≠ 0) = w := (List.takeWhile_prefix _).eq_of_length hlength
    rw [List.takeWhile_cons_of_neg (by simp), List.append_nil, hself]
  · rfl

/-- A text that is copied to the start of a buffer with room for it and a NUL behind it. -/
theorem LocalBuf.cString_copyAll_nul {str : List U8} (h : str.length < b.size) :
    (b.copyAll 0 (str ++ [0])).cString = some (str.takeWhile (· ≠ 0)) := by
  have hlength : (str ++ [(0 : U8)]).length = str.length + 1 := List.length_append
  refine cString_eq (k := b.size - str.length - 1) ?_ (fun j hj => ?_) ?_
  · show b.size = _
    omega
  · rw [bytes_copyAll (Nat.zero_le j) (by omega), Nat.sub_zero, List.getD_append _ _ _ _ hj]
  · rw [bytes_copyAll (Nat.zero_le _) (by omega), Nat.sub_zero,
      List.getD_append_right _ _ _ _ le_rfl, Nat.sub_self]
    rfl

/-- What the code leaves: the rows' bytes, and a NUL behind the trimmed text. -/
theorem sysinfoGetCpuFeatures_eq {cap : U64} (hcap : cap ≠ 0) (edx ecx : U32) (b : LocalBuf) :
    sysinfoGetCpuFeatures edx ecx b cap =
      (b.copyAll 0 (appended (cap.setWidth 32).toInt 0 (testedFeatures edx ecx))).set
        (trimBlank (appended (cap.setWidth 32).toInt 0 (testedFeatures edx ecx))).length 0 := by
  have hfold := foldl_appendFeature (featureBits edx ecx) cap cpuFeatures b 0
  rw [← testedFeatures, Nat.zero_add] at hfold
  rw [sysinfoGetCpuFeatures, if_neg hcap, hfold, length_trimBlank]
  generalize appended (cap.setWidth 32).toInt 0 (testedFeatures edx ecx) = out
  have hpos : (if 0 < out.length ∧ (b.copyAll 0 out).bytes (out.length - 1) = 32
      then out.length - 1 else out.length) =
      if 0 < out.length ∧ out.getD (out.length - 1) 0 = 32 then out.length - 1 else out.length := by
    refine if_congr (and_congr_right fun h => ?_) rfl rfl
    rw [LocalBuf.bytes_copyAll (Nat.zero_le _) (by omega), Nat.sub_zero]
  exact congrArg (fun pos => (b.copyAll 0 out).set pos 0) hpos

/-- A text that is copied to the start, and a NUL behind its trimmed part. -/
theorem overran_set_copyAll (cap : ℕ) (bytes : ℕ → U8) (out : List U8) :
    (((LocalBuf.new cap bytes).copyAll 0 out).set (trimBlank out).length 0).overran = false ↔
      out.length ≤ cap ∧ (trimBlank out).length < cap := by
  show (false || decide (0 < out.length ∧ cap < 0 + out.length) ||
    decide (cap ≤ (trimBlank out).length)) = false ↔ _
  have hlength := (trimBlank_isPrefix out).length_le
  rw [Bool.false_or, Bool.or_eq_false_iff, decide_eq_false_iff_not, decide_eq_false_iff_not]
  omega

theorem cString_set_copyAll {cap : ℕ} {out : List U8} (h : (trimBlank out).length < cap)
    (bytes : ℕ → U8) :
    (((LocalBuf.new cap bytes).copyAll 0 out).set (trimBlank out).length 0).cString =
      some (cText out) := by
  have hsize : cap = (trimBlank out).length + (cap - (trimBlank out).length - 1 + 1) := by omega
  refine LocalBuf.cString_eq hsize (fun j hj => ?_) (LocalBuf.bytes_set _ _ _)
  have hinit := trimBlank_isPrefix out
  have hjout : j < out.length := Nat.lt_of_lt_of_le hj hinit.length_le
  show Function.update ((LocalBuf.new cap bytes).copyAll 0 out).bytes (trimBlank out).length 0 j = _
  rw [Function.update_of_ne (Nat.ne_of_lt hj), LocalBuf.bytes_copyAll (Nat.zero_le j) (by omega),
    Nat.sub_zero, List.getD_eq_getElem _ _ hjout, List.getD_eq_getElem _ _ hj]
  exact (hinit.getElem hj).symm

/-- The list is right exactly if the rows give it. -/
theorem featuresListed_iff_listed {cap : U64} (hcap : cap ≠ 0) (edx ecx : U32) (bytes : ℕ → U8) :
    FeaturesListed edx ecx cap bytes ↔
      Listed cap.toNat (cap.setWidth 32).toInt 0 (testedFeatures edx ecx) := by
  have hpos : 0 < cap.toNat := Nat.pos_of_ne_zero fun h => hcap (BitVec.eq_of_toNat_eq h)
  rw [FeaturesListed, sysinfoGetCpuFeatures_eq hcap, overran_set_copyAll]
  constructor
  · rintro ⟨⟨hinside, hend⟩, hstring⟩
    rw [cString_set_copyAll hend] at hstring
    exact ⟨by omega, fun _ => by omega, Option.some.inj hstring⟩
  · intro h
    have hinside := h.inside
    have hend : (trimBlank (appended (cap.setWidth 32).toInt 0 (testedFeatures edx ecx))).length <
        cap.toNat := by
      by_cases hnil : appended (cap.setWidth 32).toInt 0 (testedFeatures edx ecx) = []
      · rw [hnil]
        exact hpos
      · have hterminated := h.terminated hnil
        omega
    exact ⟨⟨by omega, hend⟩, (cString_set_copyAll hend bytes).trans (congrArg some h.string)⟩

theorem testedFeatures_ok (edx ecx : U32) : ∀ f ∈ testedFeatures edx ecx, f.Ok := by
  intro f hf
  exact cpuFeatures_ok f (List.mem_filter.mp hf).1

theorem testedFeatures_apart (edx ecx : U32) :
    (testedFeatures edx ecx).Pairwise CpuFeature.Apart := by
  rw [testedFeatures, selected]
  exact cpuFeatures_apart.filter _

/-- **The list of features is right exactly if the checks are right for the features of the
processor**: each of them is appended exactly if its name fits, and one blank is behind it, or none
where it is the last. -/
theorem features_listed_iff {cap : U64} (hcap : cap ≠ 0) (edx ecx : U32) (bytes : ℕ → U8) :
    FeaturesListed edx ecx cap bytes ↔
      RoomAgrees cap.toNat (cap.setWidth 32).toInt 0 (testedFeatures edx ecx) := by
  rw [featuresListed_iff_listed hcap]
  exact listed_iff_roomAgrees (Nat.zero_le _) (testedFeatures_ok edx ecx)
    (testedFeatures_apart edx ecx)

/-- A processor with the bits of `FPU` and `SSE41`. -/
theorem features_listed_sample : (256 : U64) ≠ 0 ∧ FeaturesListed 1 0x200 256 fun _ => 0xFF :=
  ⟨by decide, (features_listed_iff (by decide) 1 0x200 _).mpr (by decide)⟩

/-- **A blank is left behind a list that ends in `VME`.** -/
theorem blank_is_left : ¬ ∀ edx ecx cap bytes, cap ≠ 0 → FeaturesListed edx ecx cap bytes := by
  intro h
  have hlisted := (featuresListed_iff_listed (by decide) 3 0 fun _ => 0).mp
    (h 3 0 256 (fun _ => 0) (by decide))
  have hstring := hlisted.string
  revert hstring
  decide

end OS44
