import Mathlib.Logic.Function.Iterate
import OS44.Ide.Init

/-! # The layout of IDENTIFY DEVICE (`ide.h`)

The record is packed: a member lies right behind those before it. The standard has the cylinders in
word 1, the heads in word 3, the sectors per track in word 6, the serial number from word 10, the
firmware revision from word 23, the model number from word 27 and the sectors that can be addressed
in words 60 and 61. The record lacks two words before the sectors per track and a byte before the
sectors, so that what follows is read early, which goes unnoticed exactly if the words repeat
(`ide_identify_layout_iff`). -/

namespace OS44

open PortBus

/-! ## The packed record -/

/-- The members of `ide_identify_t`, in order. -/
inductive IdentifyMember
  | config
  | cylinders
  | reserved1
  | heads
  | sectorsPerTrack
  | vendorUnique
  | serialNumber
  | bufferType
  | bufferSize
  | eccBytes
  | firmwareRevision
  | modelNumber
  | maxMultipleSectors
  | vendorUnique2
  | capabilities
  | reserved2
  | pioTiming
  | dmaTiming
  | fieldValid
  | currentCylinders
  | currentHeads
  | currentSectors
  | currentCapacity
  | multipleSectors
  | totalLba28
  | multiDma
  | mfrPio
  | mfrDma
  | reserved3
  deriving DecidableEq, Repr

/-- The members in order, with their sizes. -/
def identifyMembers : List (IdentifyMember × ℕ) :=
  [(.config, 2), (.cylinders, 2), (.reserved1, 2), (.heads, 2), (.sectorsPerTrack, 2),
    (.vendorUnique, 2 * 3), (.serialNumber, 20), (.bufferType, 2), (.bufferSize, 2),
    (.eccBytes, 2), (.firmwareRevision, 8), (.modelNumber, 40), (.maxMultipleSectors, 2),
    (.vendorUnique2, 2), (.capabilities, 2), (.reserved2, 2), (.pioTiming, 2), (.dmaTiming, 2),
    (.fieldValid, 2), (.currentCylinders, 2), (.currentHeads, 2), (.currentSectors, 2),
    (.currentCapacity, 4), (.multipleSectors, 1), (.totalLba28, 4), (.multiDma, 2), (.mfrPio, 2),
    (.mfrDma, 2), (.reserved3, 2 * 196)]

/-- The offset of a member: the sizes of those before it. -/
def IdentifyMember.offset (f : IdentifyMember) : ℕ :=
  ((identifyMembers.takeWhile (·.1 ≠ f)).map Prod.snd).sum

/-- **The fields are read where the packed members are.** -/
theorem identify_offsets (identify : IdeIdentify) :
    identify.cylinders = BitVec.ofNat 16 (identify.field (IdentifyMember.offset .cylinders) 2) ∧
    identify.heads = BitVec.ofNat 16 (identify.field (IdentifyMember.offset .heads) 2) ∧
    identify.sectorsPerTrack =
      BitVec.ofNat 16 (identify.field (IdentifyMember.offset .sectorsPerTrack) 2) ∧
    identify.serialNumber = identify.text (IdentifyMember.offset .serialNumber) 20 ∧
    identify.firmwareRevision = identify.text (IdentifyMember.offset .firmwareRevision) 8 ∧
    identify.modelNumber = identify.text (IdentifyMember.offset .modelNumber) 40 ∧
    identify.totalLba28 =
      BitVec.ofNat 32 (identify.field (IdentifyMember.offset .totalLba28) 4) ∧
    (identifyMembers.map Prod.snd).sum = sizeofIdeIdentify :=
  ⟨rfl, rfl, rfl, rfl, rfl, rfl, rfl, rfl⟩

/-! ## Words and bytes -/

/-- The bytes of `n` words from word `i` on. -/
def wordText (words : Buffer) (i n : ℕ) : List U8 :=
  (List.range (2 * n)).map fun k => bufferByte words (2 * i + k)

/-- The number that two words make. -/
def wordPair (words : Buffer) (i : ℕ) : ℕ := (words i).toNat + 65536 * (words (i + 1)).toNat

variable {words : Buffer} {identify : IdeIdentify} {i j n : ℕ}

theorem bufferByte_even (words : Buffer) (i : ℕ) :
    (bufferByte words (2 * i)).toNat = (words i).toNat % 256 := by
  have hdiv : 2 * i / 2 = i := by omega
  have hmod : 2 * i % 2 = 0 := by omega
  rw [bufferByte, hdiv, hmod, BitVec.toNat_setWidth]
  rfl

theorem bufferByte_odd (words : Buffer) (i : ℕ) :
    (bufferByte words (2 * i + 1)).toNat = (words i).toNat / 256 := by
  have hdiv : (2 * i + 1) / 2 = i := by omega
  have hmod : (2 * i + 1) % 2 = 1 := by omega
  have hlt := (words i).isLt
  rw [bufferByte, hdiv, hmod, BitVec.toNat_setWidth, BitVec.toNat_ushiftRight,
    Nat.shiftRight_eq_div_pow]
  omega

/-- Words are equal when their bytes are. -/
theorem forall_bufferByte_iff : (∀ k < 2 * n, bufferByte words (2 * i + k) =
    bufferByte words (2 * j + k)) ↔ ∀ k < n, words (i + k) = words (j + k) := by
  constructor
  · intro h k hk
    have heven := congrArg BitVec.toNat (h (2 * k) (by omega))
    have hodd := congrArg BitVec.toNat (h (2 * k + 1) (by omega))
    rw [← Nat.mul_add, ← Nat.mul_add, bufferByte_even, bufferByte_even] at heven
    rw [← Nat.add_assoc, ← Nat.add_assoc, ← Nat.mul_add, ← Nat.mul_add, bufferByte_odd,
      bufferByte_odd] at hodd
    exact BitVec.eq_of_toNat_eq (by omega)
  · intro h k hk
    have hword := h (k / 2) (by omega)
    have hi : (2 * i + k) / 2 = i + k / 2 := by omega
    have hj : (2 * j + k) / 2 = j + k / 2 := by omega
    have hmod : (2 * i + k) % 2 = (2 * j + k) % 2 := by omega
    rw [bufferByte, bufferByte, hi, hj, hmod, hword]

theorem wordText_eq_iff :
    wordText words i n = wordText words j n ↔ ∀ k < n, words (i + k) = words (j + k) := by
  rw [← forall_bufferByte_iff, wordText, wordText, List.map_inj_left]
  exact forall_congr' fun k => by rw [List.mem_range]

/-! ## The record of a sequence of words -/

/-- The record starts with the words. -/
def RecordOf (words : Buffer) (identify : IdeIdentify) : Prop :=
  ∀ k < 512, identify k = bufferByte words k

theorem RecordOf.field_two (h : RecordOf words identify) (i : ℕ) (hi : i < 256) :
    BitVec.ofNat 16 (identify.field (2 * i) 2) = words i := by
  have hfield : identify.field (2 * i) 2 = (words i).toNat := by
    rw [IdeIdentify.field, IdeIdentify.field, IdeIdentify.field, h _ (by omega), h _ (by omega),
      Nat.add_zero, bufferByte_even, bufferByte_odd]
    omega
  rw [hfield, BitVec.ofNat_toNat, BitVec.setWidth_eq]

theorem RecordOf.text (h : RecordOf words identify) (i n : ℕ) (hend : i + n ≤ 256) :
    identify.text (2 * i) (2 * n) = wordText words i n := by
  apply List.map_congr_left
  intro k hk
  have hlt := List.mem_range.mp hk
  exact h _ (by omega)

/-- **The sectors are read five bytes early**: from the high byte of word 57, word 58 and the low
byte of word 59. -/
theorem RecordOf.totalLba28 (h : RecordOf words identify) :
    identify.totalLba28.toNat =
      (words 57).toNat / 256 + 256 * (words 58).toNat + 2 ^ 24 * ((words 59).toNat % 256) := by
  have h₅₇ : (bufferByte words (115 + 0)).toNat = _ := bufferByte_odd words 57
  have h₅₈ : (bufferByte words (115 + 1)).toNat = _ := bufferByte_even words 58
  have h₅₈' : (bufferByte words (115 + 2)).toNat = _ := bufferByte_odd words 58
  have h₅₉ : (bufferByte words (115 + 3)).toNat = _ := bufferByte_even words 59
  have hlt₅₇ := (words 57).isLt
  have hlt₅₈ := (words 58).isLt
  have hfield : identify.field 115 4 =
      (words 57).toNat / 256 + 256 * (words 58).toNat + 2 ^ 24 * ((words 59).toNat % 256) := by
    simp only [IdeIdentify.field, h _ (show 115 + 0 < 512 by decide),
      h _ (show 115 + 1 < 512 by decide), h _ (show 115 + 2 < 512 by decide),
      h _ (show 115 + 3 < 512 by decide)]
    omega
  rw [IdeIdentify.totalLba28, BitVec.toNat_ofNat, hfield]
  omega

/-- **What the standard has**: the fields of the record are those of the words. -/
structure AtaLayout (words : Buffer) (identify : IdeIdentify) : Prop where
  cylinders : identify.cylinders = words 1
  heads : identify.heads = words 3
  sectorsPerTrack : identify.sectorsPerTrack = words 6
  serialNumber : identify.serialNumber = wordText words 10 10
  firmwareRevision : identify.firmwareRevision = wordText words 23 4
  modelNumber : identify.modelNumber = wordText words 27 20
  totalLba28 : identify.totalLba28.toNat = wordPair words 60

/-- The sectors are the same five bytes early. -/
def SectorsRepeat (words : Buffer) : Prop :=
  (words 57).toNat / 256 + 256 * (words 58).toNat + 2 ^ 24 * ((words 59).toNat % 256) =
    wordPair words 60

/-- **Words that repeat**: they are the same two words early, and the sectors five bytes early. -/
structure WordsRepeat (words : Buffer) : Prop where
  sectorsPerTrack : words 4 = words 6
  serialNumber : ∀ k < 10, words (8 + k) = words (10 + k)
  firmwareRevision : ∀ k < 4, words (21 + k) = words (23 + k)
  modelNumber : ∀ k < 20, words (25 + k) = words (27 + k)
  sectors : SectorsRepeat words

theorem RecordOf.ataLayout_iff (h : RecordOf words identify) :
    AtaLayout words identify ↔ WordsRepeat words := by
  have hsectors : identify.sectorsPerTrack = words 4 := h.field_two 4 (by decide)
  have hserial : identify.serialNumber = wordText words 8 10 := h.text 8 10 (by decide)
  have hfirmware : identify.firmwareRevision = wordText words 21 4 := h.text 21 4 (by decide)
  have hmodel : identify.modelNumber = wordText words 25 20 := h.text 25 20 (by decide)
  constructor
  · intro hata
    exact
      { sectorsPerTrack := hsectors.symm.trans hata.sectorsPerTrack
        serialNumber := wordText_eq_iff.mp (hserial.symm.trans hata.serialNumber)
        firmwareRevision := wordText_eq_iff.mp (hfirmware.symm.trans hata.firmwareRevision)
        modelNumber := wordText_eq_iff.mp (hmodel.symm.trans hata.modelNumber)
        sectors := h.totalLba28.symm.trans hata.totalLba28 }
  · intro hrep
    exact
      { cylinders := h.field_two 1 (by decide)
        heads := h.field_two 3 (by decide)
        sectorsPerTrack := hsectors.trans hrep.sectorsPerTrack
        serialNumber := hserial.trans (wordText_eq_iff.mpr hrep.serialNumber)
        firmwareRevision := hfirmware.trans (wordText_eq_iff.mpr hrep.firmwareRevision)
        modelNumber := hmodel.trans (wordText_eq_iff.mpr hrep.modelNumber)
        totalLba28 := h.totalLba28.trans hrep.sectors }

/-! ## The words of the data port -/

section Port

variable {D : Type} [PortBus D] {base : U16}

/-- Word `k` that the data port answers with, read again and again. -/
def dataWord (base : U16) (d : D) (k : ℕ) : U16 := (inw ((fun d => (inw d base).2)^[k] d) base).1

/-- The words a drive sends when it is asked to identify itself. -/
def identifyWords (base : U16) (sel : U8) (s : Ide D) : Buffer :=
  dataWord base (ideWaitReadyImpl base 100000 (identifyCommand base sel s).2).2.dev

theorem readWords_succ (n i : ℕ) (buf : Buffer) (d : D) :
    readWords base (n + 1) i buf d =
      readWords base n (i + 1) (Function.update buf i (inw d base).1) (inw d base).2 := rfl

/-- Words before the start of a read are kept. -/
theorem readWords_of_lt {i j : ℕ} (h : j < i) (n : ℕ) (buf : Buffer) (d : D) :
    (readWords base n i buf d).1 j = buf j := by
  induction n generalizing i buf d with
  | zero => rfl
  | succ n ih =>
    rw [readWords_succ, ih (Nat.lt_succ_of_lt h), Function.update_of_ne (Nat.ne_of_lt h)]

/-- **A read of `n` words** puts what the port answers with, one word after another. -/
theorem readWords_apply {n k : ℕ} (h : k < n) (i : ℕ) (buf : Buffer) (d : D) :
    (readWords base n i buf d).1 (i + k) = dataWord base d k := by
  induction n generalizing i k buf d with
  | zero => exact absurd h (Nat.not_lt_zero k)
  | succ n ih =>
    rw [readWords_succ]
    cases k with
    | zero =>
      rw [Nat.add_zero i, readWords_of_lt (Nat.lt_add_one i), Function.update_self]
      rfl
    | succ k =>
      rw [← Nat.add_assoc, Nat.add_right_comm, ih (Nat.lt_of_succ_lt_succ h)]
      rfl

theorem recordOf_readIdentify (identify : IdeIdentify) (s : Ide D) :
    RecordOf (dataWord base (ideWaitReadyImpl base 100000 s).2.dev)
      (readIdentify base identify s).1 := by
  intro k hk
  have hword : (readWords base 256 0 (fun _ => 0) (ideWaitReadyImpl base 100000 s).2.dev).1
      (0 + k / 2) = _ := readWords_apply (by omega) 0 _ _
  rw [Nat.zero_add] at hword
  rw [readIdentify]
  dsimp only
  rw [if_pos hk, bufferByte, bufferByte, hword]

/-- `ide_identify` fills the record with the words. -/
theorem recordOf_ideIdentify {s : Ide D} {drive : U8}
    (h : (identifyCommand (driveBase drive) (driveSel drive) s).1 ≠ 0) (identify : IdeIdentify) :
    RecordOf (identifyWords (driveBase drive) (driveSel drive) s)
      (ideIdentify s drive identify).1 := by
  have heq : ideIdentify s drive identify = readIdentify (driveBase drive) identify
      (identifyCommand (driveBase drive) (driveSel drive) s).2 := if_neg h
  rw [heq]
  exact recordOf_readIdentify identify _

/-- So does `ide_init`, for a drive that answers. -/
theorem recordOf_ideInitDrive {t : IdeInit D} {slot : DriveSlot}
    (h : (identifyCommand slot.base slot.sel t.ide).1 ≠ 0) :
    RecordOf (identifyWords slot.base slot.sel t.ide) (ideInitDrive t slot).identify := by
  rw [ideInitDrive, if_pos h]
  exact recordOf_readIdentify t.identify _

end Port

/-- **When a drive is understood.** For every device and every drive that answers, with the words it
sends: the record that `ide_identify` fills, and the one that `ide_init` does, have the fields of
the standard exactly if the words repeat; and `ide_init` notes the sectors of words 60 and 61
exactly if those do. -/
theorem ide_identify_layout_iff {D : Type} [PortBus D] (s : Ide D) (identify : IdeIdentify) :
    (∀ drive, (identifyCommand (driveBase drive) (driveSel drive) s).1 ≠ 0 →
      (AtaLayout (identifyWords (driveBase drive) (driveSel drive) s)
          (ideIdentify s drive identify).1 ↔
        WordsRepeat (identifyWords (driveBase drive) (driveSel drive) s))) ∧
    ∀ sectors slot, ∀ t, t = ideInitBefore identify s sectors slot →
      (identifyCommand slot.base slot.sel t.ide).1 ≠ 0 →
      (AtaLayout (identifyWords slot.base slot.sel t.ide) (ideInitDrive t slot).identify ↔
        WordsRepeat (identifyWords slot.base slot.sel t.ide)) ∧
      (((ideInit identify s sectors).sectors.get slot).toNat =
          wordPair (identifyWords slot.base slot.sel t.ide) 60 ↔
        SectorsRepeat (identifyWords slot.base slot.sel t.ide)) := by
  constructor
  · intro drive hstatus
    exact (recordOf_ideIdentify hstatus identify).ataLayout_iff
  · rintro sectors slot t rfl hstatus
    have hrecord := recordOf_ideInitDrive hstatus
    refine ⟨hrecord.ataLayout_iff, ?_⟩
    rw [get_sectors_ideInit hstatus, hrecord.totalLba28]
    rfl

/-! ## A source of words -/

/-- A device whose data port sends the words of a sequence, from `pos` on. -/
structure WordSource where
  words : Buffer
  pos : ℕ

instance : PortBus WordSource where
  -- ready, with data
  inb d _ := (0x48, d)
  inw d _ := (d.words d.pos, { d with pos := d.pos + 1 })
  outb d _ _ := d
  outw d _ _ := d

theorem dataWord_wordSource (base : U16) (d : WordSource) (k : ℕ) :
    dataWord base d k = d.words (d.pos + k) := by
  induction k generalizing d with
  | zero => rfl
  | succ k ih =>
    have hnext := ih { d with pos := d.pos + 1 }
    rw [Nat.add_right_comm] at hnext
    exact hnext

/-- The driver at boot, with a source of words. -/
def wordSourceIde (words : Buffer) : Ide WordSource where
  dev := ⟨words, 0⟩
  primaryMaster := 0
  primarySlave := 0
  secondaryMaster := 0
  secondarySlave := 0
  lastStatus := 0
  lastError := 0

theorem identifyWords_wordSourceIde (words : Buffer) :
    identifyWords idePrimaryBase 0 (wordSourceIde words) = words := by
  funext k
  rw [identifyWords, dataWord_wordSource]
  show words (0 + k) = words k
  rw [Nat.zero_add]

/-- Words that are all blanks. -/
theorem ide_identify_layout_iff_sample :
    AtaLayout (identifyWords idePrimaryBase 0 (wordSourceIde fun _ => 0x2020))
      (ideIdentify (wordSourceIde fun _ => 0x2020) 0 fun _ => 0).1 := by
  obtain ⟨hidentify, -⟩ := ide_identify_layout_iff (wordSourceIde fun _ => 0x2020) fun _ => 0
  refine (hidentify 0 (by decide)).mpr ?_
  have hwords : identifyWords (driveBase 0) (driveSel 0) (wordSourceIde fun _ => 0x2020) =
      fun _ => 0x2020 := identifyWords_wordSourceIde _
  rw [hwords]
  exact ⟨rfl, fun _ _ => rfl, fun _ _ => rfl, fun _ _ => rfl, rfl⟩

/-- The word `k` in word `k`. -/
def countingWords : Buffer := fun k => BitVec.ofNat 16 k

/-- **The fields behind the heads are wrong.** With the word `k` in word `k`, the sectors per track
are 4 and not 6, and the sectors noted are not those of words 60 and 61. -/
theorem ide_identify_counting_words :
    ¬ AtaLayout countingWords (ideIdentify (wordSourceIde countingWords) 0 fun _ => 0).1 ∧
    ((ideInit (fun _ => 0) (wordSourceIde countingWords)
        ⟨0, 0, 0, 0⟩).sectors.get .primaryMaster).toNat ≠ wordPair countingWords 60 := by
  constructor
  · have hwords : identifyWords (driveBase 0) (driveSel 0) (wordSourceIde countingWords) =
        countingWords := identifyWords_wordSourceIde _
    have hrecord : RecordOf (identifyWords (driveBase 0) (driveSel 0) (wordSourceIde countingWords))
        (ideIdentify (wordSourceIde countingWords) 0 fun _ => 0).1 :=
      recordOf_ideIdentify (by decide) _
    rw [hwords] at hrecord
    intro h
    exact absurd (hrecord.ataLayout_iff.mp h).sectorsPerTrack (by decide)
  · let t := ideInitBefore (fun _ => 0) (wordSourceIde countingWords) ⟨0, 0, 0, 0⟩ .primaryMaster
    have hstatus : (identifyCommand (DriveSlot.base .primaryMaster) (DriveSlot.sel .primaryMaster)
        t.ide).1 ≠ 0 := by decide
    have hwords : identifyWords (DriveSlot.base .primaryMaster) (DriveSlot.sel .primaryMaster)
        t.ide = countingWords := identifyWords_wordSourceIde _
    rw [get_sectors_ideInit hstatus, (recordOf_ideInitDrive hstatus).totalLba28, hwords]
    decide

end OS44
