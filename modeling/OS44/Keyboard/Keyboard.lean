import Mathlib.Data.Finset.Basic
import Mathlib.Data.List.Infix
import OS44.BootInfo

/-! # The keyboard handler (`keyboard.c`)

`keyboard_handler` is called with one scancode byte after another and keeps two flags,
`shift_pressed` and `caps_lock`. Next to it stands the keyboard itself: which keys are held and how
often Caps Lock was pressed, read off the same bytes (`Keys`).

The handler looks at one byte at a time. It does not tell the two shift keys apart, takes the second
byte of an extended key for a key of its own, and a repeated Caps Lock for a new press. The flags
follow the keys exactly as long as none of this shows (`CodeOk`, `modifiers_follow_keys_iff`). -/

namespace OS44

/-- The static variables of `keyboard.c`. -/
structure Keyboard where
  /-- `shift_pressed`. -/
  shiftPressed : U8
  /-- `caps_lock`. -/
  capsLock : U8
  deriving DecidableEq, Repr

/-- The static variables at boot. -/
def keyboardBoot : Keyboard := { shiftPressed := 0, capsLock := 0 }

/-- `keyboard_handler`, with the byte read from port `0x60`. -/
def keyboardHandler (s : Keyboard) (scancode : U8) : Keyboard :=
  if scancode &&& 0x80 ≠ 0 then
    let key := scancode &&& 0x7F
    if key = 0x2A ∨ key = 0x36 then { s with shiftPressed := 0 } else s
  else if scancode = 0x2A ∨ scancode = 0x36 then { s with shiftPressed := 1 }
  else if scancode = 0x3A then { s with capsLock := if s.capsLock = 0 then 1 else 0 }
  else
    -- the character of the key is looked up in a local variable, which is dropped
    s

/-! ## The keys -/

/-- The keyboard as its bytes tell: whether an extended key is announced, which plain keys are held
(by their make codes), and how often Caps Lock was pressed. -/
structure Keys where
  extended : Bool
  held : Finset U8
  capsPresses : ℕ

/-- Nothing is held. -/
def keysReleased : Keys := { extended := false, held := ∅, capsPresses := 0 }

/-- The next byte: `0xE0` announces an extended key, whose byte concerns no shift key and not Caps
Lock; a break code releases its key; a make code presses it, or repeats it while it is held. -/
def Keys.next (k : Keys) (b : U8) : Keys :=
  if b = 0xE0 then { k with extended := true }
  else if k.extended then { k with extended := false }
  else if b &&& 0x80 ≠ 0 then { k with held := k.held.erase (b &&& 0x7F) }
  else { k with
    held := insert b k.held
    capsPresses := if b = 0x3A ∧ b ∉ k.held then k.capsPresses + 1 else k.capsPresses }

/-- One of the shift keys is held. -/
def Keys.Shift (k : Keys) : Prop := 0x2A ∈ k.held ∨ 0x36 ∈ k.held

instance (k : Keys) : Decidable k.Shift := inferInstanceAs (Decidable (_ ∨ _))

/-- **The flags follow the keys**: `shift_pressed` is set while a shift key is held, and `caps_lock`
is the parity of the presses of Caps Lock. -/
def ModifiersOk (s : Keyboard) (k : Keys) : Prop :=
  (s.shiftPressed ≠ 0 ↔ k.Shift) ∧ s.capsLock.toNat = k.capsPresses % 2

instance (s : Keyboard) (k : Keys) : Decidable (ModifiersOk s k) :=
  inferInstanceAs (Decidable (_ ∧ _))

/-- The bytes that leave `shift_pressed` right, with the keys as they are before the byte: a shift
key is released while the other one is up, and the second byte of an extended key reads like a shift
key pressed only while one is held, and like one released only while none is. -/
def ShiftCodeOk (k : Keys) (b : U8) : Prop :=
  if k.extended then (b = 0x2A ∨ b = 0x36 → k.Shift) ∧ (b = 0xAA ∨ b = 0xB6 → ¬ k.Shift)
  else (b = 0xAA → 0x36 ∉ k.held) ∧ (b = 0xB6 → 0x2A ∉ k.held)

/-- The bytes that leave `caps_lock` right: Caps Lock is pressed while it is up, and no extended key
reads like it. -/
def CapsCodeOk (k : Keys) (b : U8) : Prop := b = 0x3A → k.extended = false ∧ 0x3A ∉ k.held

/-- **The bytes that the handler reads right.** -/
def CodeOk (k : Keys) (b : U8) : Prop := ShiftCodeOk k b ∧ CapsCodeOk k b

/-! ## One byte -/

variable {s : Keyboard} {k : Keys} {b c : U8}

/-- The break codes of the two shift keys. -/
theorem break_shift_iff (b : U8) : (b &&& 0x80 ≠ 0 ∧ (b &&& 0x7F = 0x2A ∨ b &&& 0x7F = 0x36)) ↔
    (b = 0xAA ∨ b = 0xB6) := by
  revert b
  decide

/-- What the handler does, by the byte it reads. -/
theorem keyboardHandler_eq (s : Keyboard) (b : U8) : keyboardHandler s b =
    if b = 0xAA ∨ b = 0xB6 then { s with shiftPressed := 0 }
    else if b = 0x2A ∨ b = 0x36 then { s with shiftPressed := 1 }
    else if b = 0x3A then { s with capsLock := if s.capsLock = 0 then 1 else 0 } else s := by
  have hbreak := break_shift_iff b
  have hmake : b &&& 0x80 ≠ 0 → ¬ (b = 0x2A ∨ b = 0x36) ∧ b ≠ 0x3A := by
    revert b
    decide
  unfold keyboardHandler
  by_cases hb : b &&& 0x80 ≠ 0
  · have hiff : (b &&& 0x7F = 0x2A ∨ b &&& 0x7F = 0x36) ↔ (b = 0xAA ∨ b = 0xB6) :=
      ⟨fun h => hbreak.mp ⟨hb, h⟩, fun h => (hbreak.mpr h).2⟩
    simp only [if_pos hb, hiff, if_neg (hmake hb).1, if_neg (hmake hb).2]
  · rw [if_neg hb, if_neg fun h => hb (hbreak.mpr h).1]

/-- A byte of the prefix, or the second byte of an extended key, leaves the plain keys alone. -/
theorem held_next_of_extended (h : b = 0xE0 ∨ k.extended = true) :
    (k.next b).held = k.held ∧ (k.next b).capsPresses = k.capsPresses := by
  unfold Keys.next
  by_cases hE0 : b = 0xE0
  · rw [if_pos hE0]
    exact ⟨rfl, rfl⟩
  · rw [if_neg hE0, if_pos (h.resolve_left hE0)]
    exact ⟨rfl, rfl⟩

/-- A plain byte presses its shift key or releases it. -/
theorem mem_held_next (hE0 : b ≠ 0xE0) (he : k.extended = false) (hc : c = 0x2A ∨ c = 0x36) :
    c ∈ (k.next b).held ↔ b = c ∨ (c ∈ k.held ∧ b ≠ c ||| 0x80) := by
  have hbreak : b &&& 0x80 ≠ 0 → b ≠ c ∧ (c = b &&& 0x7F ↔ b = c ||| 0x80) := by
    rcases hc with rfl | rfl <;> revert b <;> decide
  have hmake : ¬ b &&& 0x80 ≠ 0 → b ≠ c ||| 0x80 := by
    rcases hc with rfl | rfl <;> revert b <;> decide
  unfold Keys.next
  rw [if_neg hE0, he, if_neg Bool.false_ne_true]
  by_cases hb : b &&& 0x80 ≠ 0
  · rw [if_pos hb, Finset.mem_erase]
    have := hbreak hb
    tauto
  · rw [if_neg hb, Finset.mem_insert]
    have := hmake hb
    tauto

/-- The shift keys after a plain byte. -/
theorem shift_next (hE0 : b ≠ 0xE0) (he : k.extended = false) : (k.next b).Shift ↔
    b = 0x2A ∨ b = 0x36 ∨ (0x2A ∈ k.held ∧ b ≠ 0xAA) ∨ (0x36 ∈ k.held ∧ b ≠ 0xB6) := by
  unfold Keys.Shift
  rw [mem_held_next hE0 he (.inl rfl), mem_held_next hE0 he (.inr rfl)]
  have h₁ : (0x2A ||| 0x80 : U8) = 0xAA := by decide
  have h₂ : (0x36 ||| 0x80 : U8) = 0xB6 := by decide
  rw [h₁, h₂]
  tauto

/-- The flag after one more byte. -/
theorem shiftPressed_keyboardHandler (s : Keyboard) (b : U8) :
    (keyboardHandler s b).shiftPressed ≠ 0 ↔
      ¬ (b = 0xAA ∨ b = 0xB6) ∧ ((b = 0x2A ∨ b = 0x36) ∨ s.shiftPressed ≠ 0) := by
  have hone : (1 : U8) ≠ 0 := by decide
  rw [keyboardHandler_eq]
  split_ifs with hbreak hmake hcaps
  · exact iff_of_false (fun h => h rfl) fun h => h.1 hbreak
  · exact iff_of_true hone ⟨hbreak, .inl hmake⟩
  all_goals exact ⟨fun h => ⟨hbreak, .inr h⟩, fun h => h.2.resolve_left hmake⟩

/-- **`shift_pressed` after one more byte.** -/
theorem shift_ok_iff (hs : s.shiftPressed ≠ 0 ↔ k.Shift) :
    ((keyboardHandler s b).shiftPressed ≠ 0 ↔ (k.next b).Shift) ↔ ShiftCodeOk k b := by
  rw [shiftPressed_keyboardHandler, hs]
  unfold ShiftCodeOk
  by_cases hext : b = 0xE0 ∨ k.extended = true
  · -- the shift keys stay as they are, the handler may take the byte for one of them
    have hkeys : (k.next b).Shift ↔ k.Shift := by
      unfold Keys.Shift
      rw [(held_next_of_extended hext).1]
    rw [hkeys]
    by_cases hbreak : b = 0xAA ∨ b = 0xB6
    · have hmake : ¬ (b = 0x2A ∨ b = 0x36) := by rcases hbreak with rfl | rfl <;> decide
      have he : k.extended = true := hext.resolve_left (by rcases hbreak with rfl | rfl <;> decide)
      simp only [he, hbreak, hmake, if_true, not_true_eq_false, false_and, false_iff, false_imp_iff,
        true_imp_iff, true_and]
    by_cases hmake : b = 0x2A ∨ b = 0x36
    · have he : k.extended = true := hext.resolve_left (by rcases hmake with rfl | rfl <;> decide)
      simp only [he, hbreak, hmake, if_true, not_false_eq_true, true_or, true_iff, true_imp_iff,
        false_imp_iff, and_true]
    · have hother := not_or.mp hbreak
      simp only [hmake, hother.1, hother.2, not_false_eq_true, true_and, false_or, false_imp_iff,
        and_self, ite_self]
  · -- a plain byte: the other shift key decides whether a release is read right
    rw [not_or, Bool.not_eq_true] at hext
    rw [shift_next hext.1 hext.2, hext.2, if_neg Bool.false_ne_true]
    unfold Keys.Shift
    by_cases h₁ : b = 0xAA
    · subst h₁
      simp
    by_cases h₂ : b = 0xB6
    · subst h₂
      simp
    · simp only [h₁, h₂, or_self, not_false_eq_true, true_and, false_imp_iff, and_self, iff_true,
        and_true, ne_eq]
      tauto

/-- The make code of Caps Lock switches the flag. -/
theorem toNat_capsLock_keyboardHandler (hs : s.capsLock.toNat < 2) :
    (keyboardHandler s b).capsLock.toNat =
      if b = 0x3A then 1 - s.capsLock.toNat else s.capsLock.toNat := by
  rw [keyboardHandler_eq]
  by_cases hb : b = 0x3A
  · have hother : ¬ (b = 0xAA ∨ b = 0xB6) ∧ ¬ (b = 0x2A ∨ b = 0x36) := by
      subst hb
      decide
    have hzero : s.capsLock = 0 ↔ s.capsLock.toNat = 0 := by rw [← BitVec.toNat_inj]; rfl
    rw [if_neg hother.1, if_neg hother.2, if_pos hb, if_pos hb]
    by_cases h0 : s.capsLock = 0
    · simp only [if_pos h0, hzero.mp h0]
      rfl
    · have hone : s.capsLock.toNat = 1 := by
        rw [hzero] at h0
        omega
      simp only [if_neg h0, hone]
      rfl
  · rw [if_neg hb, if_neg hb]
    split_ifs <;> rfl

/-- The make code of Caps Lock is a press while the key is up, unless it is the second byte of an
extended key. -/
theorem capsPresses_next (k : Keys) (b : U8) : (k.next b).capsPresses =
    if b = 0x3A ∧ k.extended = false ∧ 0x3A ∉ k.held then k.capsPresses + 1 else k.capsPresses := by
  by_cases hb : b = 0x3A
  · have hmake : b ≠ 0xE0 ∧ ¬ b &&& 0x80 ≠ 0 := by
      subst hb
      decide
    cases he : k.extended with
    | true =>
      rw [(held_next_of_extended (.inr he)).2, if_neg]
      intro h
      cases h.2.1
    | false =>
      rw [Keys.next, if_neg hmake.1, he, if_neg Bool.false_ne_true, if_neg hmake.2]
      simp only [hb, true_and]
  · rw [if_neg fun h => hb h.1]
    unfold Keys.next
    split_ifs with h₁ h₂ h₃ h₄
    · rfl
    · rfl
    · rfl
    · exact absurd h₄.1 hb
    · rfl

/-- **`caps_lock` after one more byte.** -/
theorem caps_ok_iff (hs : s.capsLock.toNat = k.capsPresses % 2) :
    (keyboardHandler s b).capsLock.toNat = (k.next b).capsPresses % 2 ↔ CapsCodeOk k b := by
  rw [toNat_capsLock_keyboardHandler (by omega), capsPresses_next]
  unfold CapsCodeOk
  by_cases hb : b = 0x3A
  · -- the handler switches the flag, the key is pressed only if it was up
    rw [if_pos hb]
    by_cases hnew : k.extended = false ∧ 0x3A ∉ k.held
    · rw [if_pos ⟨hb, hnew⟩]
      exact iff_of_true (by omega) fun _ => hnew
    · rw [if_neg fun h => hnew h.2]
      exact iff_of_false (by omega) fun h => hnew (h hb)
  · rw [if_neg hb, if_neg fun h => hb h.1]
    exact iff_of_true hs fun h => absurd h hb

/-- **The step lemma**: the flags still follow the keys after a byte exactly when the handler reads
that byte right. -/
theorem ModifiersOk.next_iff (h : ModifiersOk s k) :
    ModifiersOk (keyboardHandler s b) (k.next b) ↔ CodeOk k b :=
  and_congr (shift_ok_iff h.1) (caps_ok_iff h.2)

/-! ## Runs -/

/-- The flags after a sequence of bytes. -/
def keyboardAfter (bytes : List U8) : Keyboard := bytes.foldl keyboardHandler keyboardBoot

/-- The keys after a sequence of bytes. -/
def keysAfter (bytes : List U8) : Keys := bytes.foldl Keys.next keysReleased

/-- **The flags follow the keys exactly as long as every byte is read right**: for every sequence of
bytes, they do after each of its bytes if and only if each byte meets `CodeOk`. -/
theorem modifiers_follow_keys_iff (bytes : List U8) :
    (∀ p, p <+: bytes → ModifiersOk (keyboardAfter p) (keysAfter p)) ↔
      ∀ p b, p ++ [b] <+: bytes → CodeOk (keysAfter p) b := by
  have hstep : ∀ p b, ModifiersOk (keyboardAfter p) (keysAfter p) →
      (ModifiersOk (keyboardAfter (p ++ [b])) (keysAfter (p ++ [b])) ↔ CodeOk (keysAfter p) b) := by
    intro p b hp
    unfold keyboardAfter keysAfter at hp ⊢
    rw [List.foldl_concat, List.foldl_concat]
    exact hp.next_iff
  constructor
  · intro h p b hpb
    exact (hstep p b (h p ((List.prefix_append p [b]).trans hpb))).mp (h _ hpb)
  · -- the flags are right at boot, and each byte read right keeps them so
    intro h p
    induction p using List.reverseRecOn with
    | nil =>
      intro _
      show ModifiersOk keyboardBoot keysReleased
      decide
    | append_singleton p b ih =>
      intro hpb
      exact (hstep p b (ih ((List.prefix_append p [b]).trans hpb))).mpr (h p b hpb)

/-- **Two shift keys.** Left Shift and Right Shift are pressed and Left Shift is released: the right
one is still held, and `shift_pressed` is 0. -/
theorem shift_released_too_early :
    ¬ ModifiersOk (keyboardAfter [0x2A, 0x36, 0xAA]) (keysAfter [0x2A, 0x36, 0xAA]) := by
  decide

end OS44
