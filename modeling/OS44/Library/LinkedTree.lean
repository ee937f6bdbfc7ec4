import Mathlib.Data.Finset.Card
import Mathlib.Data.Fintype.Card
import Mathlib.Data.List.Infix

/-! # Trees linked through slots

Nodes of type `A` have slots of type `I`; a slot is empty or names a child, `child : A → I → Option
A`. `walk child r p` follows a path of slots from the root `r`.

* `IsTree child r d`: no node is reached by two different paths of length at most `d`. The walks of
  length `d + 1` then read a map from paths to whatever the last slot holds.
* `setChild child a i x` fills or empties one slot. In a tree this touches exactly the walks that go
  through that slot (`walk_setChild_of_not_below`), so one-slot updates compose into insertion and
  pruning, and the shape survives both (`IsTree.setChild_none`, `IsTree.setChild_some`).
* `emptyNode child n` clears every slot of `n`, and `slotCount` counts the filled ones. -/

namespace OS44.LinkedTree

universe u v

variable {A : Type u} {I : Type v}

/-! ## Walks -/

/-- Follow the slots `p` from the node `a`. -/
def walk (child : A → I → Option A) : A → List I → Option A
  | a, [] => some a
  | a, i :: p => (child a i).bind fun b => walk child b p

variable {child child' : A → I → Option A} {r a b n : A} {i j : I} {p q : List I} {d : ℕ}

@[simp] theorem walk_nil : walk child a [] = some a := rfl

@[simp] theorem walk_cons :
    walk child a (i :: p) = (child a i).bind fun b => walk child b p := rfl

/-- A walk along `p ++ q` is a walk along `p` continued along `q`. -/
theorem walk_append (child : A → I → Option A) (a : A) (p q : List I) :
    walk child a (p ++ q) = (walk child a p).bind fun b => walk child b q := by
  induction p generalizing a with
  | nil => rfl
  | cons i p ih =>
    simp only [List.cons_append, walk_cons, Option.bind_assoc]
    congr 1
    funext b
    exact ih b

/-- Behind a missing node there is none. -/
theorem walk_append_none (h : walk child r p = none) : walk child r (p ++ q) = none := by
  rw [walk_append, h, Option.bind_none]

/-- The last step of a walk. -/
theorem walk_concat (child : A → I → Option A) (a : A) (p : List I) (i : I) :
    walk child a (p ++ [i]) = (walk child a p).bind fun b => child b i := by
  rw [walk_append]
  congr 1
  funext b
  simp

/-- A prefix of a walk that arrives arrives as well. -/
theorem exists_walk_of_below (hpq : p <+: q) (hq : walk child r q = some b) :
    ∃ a, walk child r p = some a := by
  obtain ⟨s, rfl⟩ := hpq
  rw [walk_append, Option.bind_eq_some_iff] at hq
  obtain ⟨a, ha, -⟩ := hq
  exact ⟨a, ha⟩

/-- The node before the last slot of a walk that arrives. -/
theorem walk_concat_eq_some : walk child r (p ++ [i]) = some b ↔
    ∃ a, walk child r p = some a ∧ child a i = some b := by
  rw [walk_concat, Option.bind_eq_some_iff]

/-- Two child maps that agree on every slot the walk reads give the same walk. -/
theorem walk_congr (h : ∀ q i, q ++ [i] <+: p → ∀ a, walk child r q = some a →
    child' a i = child a i) : walk child' r p = walk child r p := by
  induction p using List.reverseRecOn with
  | nil => rfl
  | append_singleton p i ih =>
    have hp : walk child' r p = walk child r p :=
      ih fun q j hq => h q j (hq.trans (List.prefix_append p [i]))
    rw [walk_concat, walk_concat, hp]
    cases ha : walk child r p with
    | none => rfl
    | some a => exact h p i (List.prefix_refl _) a ha

/-! ## Trees -/

/-- **Tree shape down to depth `d`**: no node is reached by two paths of length at most `d`. -/
def IsTree (child : A → I → Option A) (r : A) (d : ℕ) : Prop :=
  ∀ p q a, p.length ≤ d → q.length ≤ d → walk child r p = some a → walk child r q = some a → p = q

/-- `a` is a node of the tree of depth `d`. -/
def IsNode (child : A → I → Option A) (r : A) (d : ℕ) (a : A) : Prop :=
  ∃ p, p.length ≤ d ∧ walk child r p = some a

theorem isNode_root : IsNode child r d r := ⟨[], Nat.zero_le d, rfl⟩

/-! ## Updating one slot -/

section SetChild

variable [DecidableEq A] [DecidableEq I]

/-- Give the slot `(a, i)` the value `x`. -/
def setChild (child : A → I → Option A) (a : A) (i : I) (x : Option A) : A → I → Option A :=
  fun b j => if b = a ∧ j = i then x else child b j

@[simp] theorem setChild_self {x : Option A} : setChild child a i x a i = x := by
  simp [setChild]

theorem setChild_of_ne {x : Option A} (h : ¬ (b = a ∧ j = i)) :
    setChild child a i x b j = child b j := if_neg h

/-- **Frame.** In a tree, updating the slot `i` of the node at `q` leaves alone every walk that does
not go through that slot. -/
theorem walk_setChild_of_not_below (ht : IsTree child r d) (hq : walk child r q = some a)
    (hqd : q.length ≤ d) {x : Option A} (hpd : p.length ≤ d + 1) (hp : ¬ q ++ [i] <+: p) :
    walk (setChild child a i x) r p = walk child r p := by
  refine walk_congr fun q' j hq'j b hb => setChild_of_ne ?_
  rintro ⟨rfl, rfl⟩
  have hlen : (q' ++ [j]).length ≤ d + 1 := hq'j.length_le.trans hpd
  have hq' : q'.length ≤ d := by simpa using hlen
  obtain rfl := ht q q' b hqd hq' hq hb
  exact hp hq'j

/-- The updated slot itself. -/
theorem walk_setChild_slot (ht : IsTree child r d) (hq : walk child r q = some a)
    (hqd : q.length ≤ d) (x : Option A) : walk (setChild child a i x) r (q ++ [i]) = x := by
  have hnp : ¬ q ++ [i] <+: q := fun h => by
    have hle := h.length_le
    rw [List.length_append, List.length_singleton] at hle
    exact Nat.not_succ_le_self _ hle
  rw [walk_concat, walk_setChild_of_not_below ht hq hqd (by omega) hnp, hq]
  simp

/-- Behind an emptied slot every walk is lost. -/
theorem walk_setChild_none_of_below (ht : IsTree child r d) (hq : walk child r q = some a)
    (hqd : q.length ≤ d) (hp : q ++ [i] <+: p) : walk (setChild child a i none) r p = none := by
  obtain ⟨s, rfl⟩ := hp
  rw [walk_append, walk_setChild_slot ht hq hqd]
  rfl

/-- A walk that arrives after a slot was emptied arrived at the same node before. -/
theorem walk_of_walk_setChild_none (ht : IsTree child r d) (hq : walk child r q = some a)
    (hqd : q.length ≤ d) (hpd : p.length ≤ d + 1)
    (hb : walk (setChild child a i none) r p = some b) : walk child r p = some b := by
  by_cases hp : q ++ [i] <+: p
  · rw [walk_setChild_none_of_below ht hq hqd hp] at hb
    cases hb
  · rwa [walk_setChild_of_not_below ht hq hqd hpd hp] at hb

/-- **Pruning keeps the tree shape.** -/
theorem IsTree.setChild_none (ht : IsTree child r d) (hq : walk child r q = some a)
    (hqd : q.length ≤ d) : IsTree (setChild child a i none) r d := by
  intro p p' b hp hp' hb hb'
  exact ht p p' b hp hp' (walk_of_walk_setChild_none ht hq hqd (by omega) hb)
    (walk_of_walk_setChild_none ht hq hqd (by omega) hb')

/-- **Linking an empty fresh node**: the walks through the slot reach the new node
and stop there. -/
theorem walk_setChild_some_of_below (ht : IsTree child r d) (hq : walk child r q = some a)
    (hqd : q.length ≤ d) (hne : n ≠ a) (hempty : ∀ j, child n j = none) (s : List I) :
    walk (setChild child a i (some n)) r (q ++ [i] ++ s) = if s = [] then some n else none := by
  rw [walk_append, walk_setChild_slot ht hq hqd, Option.bind_some]
  cases s with
  | nil => rfl
  | cons j s => simp [setChild_of_ne (fun h : n = a ∧ j = i => hne h.1), hempty]

/-- A walk that arrives after linking the empty fresh node `n` ends in `n` at the new slot, or
arrived at the same node before. -/
theorem walk_of_walk_setChild_some (ht : IsTree child r d) (hq : walk child r q = some a)
    (hqd : q.length ≤ d) (hne : n ≠ a) (hempty : ∀ j, child n j = none) (hpd : p.length ≤ d + 1)
    (hb : walk (setChild child a i (some n)) r p = some b) :
    (p = q ++ [i] ∧ b = n) ∨ (¬ q ++ [i] <+: p ∧ walk child r p = some b) := by
  by_cases hp : q ++ [i] <+: p
  · obtain ⟨s, rfl⟩ := hp
    rw [walk_setChild_some_of_below ht hq hqd hne hempty] at hb
    split at hb
    · next hs =>
      subst hs
      exact .inl ⟨by simp, (Option.some.inj hb).symm⟩
    · cases hb
  · rw [walk_setChild_of_not_below ht hq hqd hpd hp] at hb
    exact .inr ⟨hp, hb⟩

/-- **Linking a fresh empty node keeps the tree shape.** -/
theorem IsTree.setChild_some (ht : IsTree child r d) (hq : walk child r q = some a)
    (hqd : q.length ≤ d) (hfresh : ¬ IsNode child r d n) (hempty : ∀ j, child n j = none) :
    IsTree (setChild child a i (some n)) r d := by
  have hne : n ≠ a := fun h => hfresh (h ▸ ⟨q, hqd, hq⟩)
  intro p p' b hp hp' hb hb'
  have hlt : d ≤ d + 1 := Nat.le_succ d
  rcases walk_of_walk_setChild_some ht hq hqd hne hempty (hp.trans hlt) hb with
    ⟨rfl, rfl⟩ | ⟨-, hw⟩ <;>
  rcases walk_of_walk_setChild_some ht hq hqd hne hempty (hp'.trans hlt) hb' with
    ⟨rfl, hn⟩ | ⟨-, hw'⟩
  · rfl
  · exact absurd ⟨p', hp', hw'⟩ hfresh
  · exact absurd ⟨p, hp, hn ▸ hw⟩ hfresh
  · exact ht p p' b hp hp' hw hw'

end SetChild

/-! ## Emptying a node -/

section EmptyNode

variable [DecidableEq A]

/-- Clear every slot of the node `n`. -/
def emptyNode (child : A → I → Option A) (n : A) : A → I → Option A :=
  fun b j => if b = n then none else child b j

@[simp] theorem emptyNode_self : emptyNode child n n j = none := if_pos rfl

theorem emptyNode_of_ne (h : b ≠ n) : emptyNode child n b j = child b j := if_neg h

/-- Emptying a node outside the tree changes no walk. -/
theorem walk_emptyNode (hfresh : ¬ IsNode child r d n) (hpd : p.length ≤ d + 1) :
    walk (emptyNode child n) r p = walk child r p := by
  refine walk_congr fun q j hqj b hb => emptyNode_of_ne ?_
  rintro rfl
  have hlen : (q ++ [j]).length ≤ d + 1 := hqj.length_le.trans hpd
  exact hfresh ⟨q, by simpa using hlen, hb⟩

/-- Emptying a node outside the tree keeps the tree shape. -/
theorem IsTree.emptyNode (ht : IsTree child r d) (hfresh : ¬ IsNode child r d n) :
    IsTree (emptyNode child n) r d := by
  intro p q a hp hq hpa hqa
  rw [walk_emptyNode hfresh (by omega)] at hpa hqa
  exact ht p q a hp hq hpa hqa

end EmptyNode

/-! ## Counting filled slots -/

section SlotCount

variable [Fintype I]

/-- How many slots of `a` are filled. -/
def slotCount (child : A → I → Option A) (a : A) : ℕ :=
  (Finset.univ.filter fun i => (child a i).isSome).card

theorem slotCount_congr (h : ∀ j, (child' a j).isSome = (child b j).isSome) :
    slotCount child' a = slotCount child b := by
  simp only [slotCount, h]

theorem slotCount_eq_zero : slotCount child a = 0 ↔ ∀ i, child a i = none := by
  simp [slotCount, Finset.filter_eq_empty_iff]

theorem slotCount_le : slotCount child a ≤ Fintype.card I := Finset.card_le_univ _

/-- A filled slot counts. -/
theorem slotCount_pos (h : (child a i).isSome) : 0 < slotCount child a :=
  Finset.card_pos.mpr ⟨i, by simpa using h⟩

theorem exists_child_of_slotCount_pos (h : 0 < slotCount child a) : ∃ i b, child a i = some b := by
  obtain ⟨i, hi⟩ := Finset.card_pos.mp h
  exact ⟨i, Option.isSome_iff_exists.mp (by simpa using hi)⟩

/-- **Without empty nodes every walk can go on** to the depth `d`. -/
theorem exists_walk_of_slotCount_pos
    (hpos : ∀ p b, q <+: p → p.length < d → walk child r p = some b → 0 < slotCount child b)
    (hq : walk child r q = some a) (hqd : q.length ≤ d) :
    ∃ p b, q <+: p ∧ p.length = d ∧ walk child r p = some b := by
  induction hk : d - q.length generalizing q a with
  | zero => exact ⟨q, a, List.prefix_rfl, by omega, hq⟩
  | succ k ih =>
    obtain ⟨i, b, hb⟩ := exists_child_of_slotCount_pos (hpos q a List.prefix_rfl (by omega) hq)
    have hqi : q <+: q ++ [i] := List.prefix_append q [i]
    obtain ⟨p, c, hp, hlen, hw⟩ := ih (q := q ++ [i]) (a := b)
      (fun p c hp hpd hw => hpos p c (hqi.trans hp) hpd hw)
      (walk_concat_eq_some.mpr ⟨a, hq, hb⟩) (by simp; omega) (by simp; omega)
    exact ⟨p, c, hqi.trans hp, hlen, hw⟩

variable [DecidableEq A] [DecidableEq I]

/-- The slot counts of the other nodes do not change. -/
theorem slotCount_setChild_of_ne {x : Option A} (h : b ≠ a) :
    slotCount (setChild child a i x) b = slotCount child b :=
  slotCount_congr fun _ => by rw [setChild_of_ne fun hb => h hb.1]

/-- Replacing the content of a filled slot keeps the count. -/
theorem slotCount_setChild_of_isSome {x : Option A} (hx : x.isSome) (h : (child a i).isSome) :
    slotCount (setChild child a i x) a = slotCount child a := by
  apply slotCount_congr
  intro j
  by_cases hj : j = i
  · subst hj; simp [hx, h]
  · rw [setChild_of_ne fun hb => hj hb.2]

/-- Filling an empty slot counts one more. -/
theorem slotCount_setChild_some (h : child a i = none) (n : A) :
    slotCount (setChild child a i (some n)) a = slotCount child a + 1 := by
  have : (Finset.univ.filter fun j => (setChild child a i (some n) a j).isSome)
      = insert i (Finset.univ.filter fun j => (child a j).isSome) := by
    ext j
    by_cases hj : j = i
    · subst hj; simp
    · simp [hj, setChild_of_ne fun hb : a = a ∧ j = i => hj hb.2]
  rw [slotCount, this, Finset.card_insert_of_notMem (by simp [h])]
  rfl

/-- Emptying a filled slot counts one less. -/
theorem slotCount_setChild_none (h : (child a i).isSome) :
    slotCount (setChild child a i none) a + 1 = slotCount child a := by
  have : (Finset.univ.filter fun j => (setChild child a i none a j).isSome)
      = (Finset.univ.filter fun j => (child a j).isSome).erase i := by
    ext j
    by_cases hj : j = i
    · subst hj; simp
    · simp [hj, setChild_of_ne fun hb : a = a ∧ j = i => hj hb.2]
  rw [slotCount, this, Finset.card_erase_add_one (by simpa using h)]
  rfl

end SlotCount

end OS44.LinkedTree
