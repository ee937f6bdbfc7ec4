import Mathlib.Data.List.Nodup
import Mathlib.Logic.Function.Basic

/-! # Singly linked lists in a pool of nodes

The nodes are the elements of a type `I`, linked by `next : I → Option I`. `Chain next h ids` says
that from the head `h` the links go through `ids` in order and then end. A chain of distinct nodes
is acyclic, a search along it (`find`) ends and finds the first node that passes the test
(`Chain.find_eq`), and insertion at the head and removal keep it a chain. -/

namespace OS44.PoolList

universe u

variable {I : Type u}

/-- From the head the links go through the nodes `ids` and end. -/
def Chain (next : I → Option I) : Option I → List I → Prop
  | h, [] => h = none
  | h, i :: ids => h = some i ∧ Chain next (next i) ids

variable {next next' : I → Option I} {h : Option I} {i n p : I} {ids xs ys zs : List I}

/-- A chain depends only on the links of its nodes. -/
theorem Chain.congr (hc : Chain next h ids) (hn : ∀ i ∈ ids, next' i = next i) :
    Chain next' h ids := by
  induction ids generalizing h with
  | nil => exact hc
  | cons i ids ih =>
    refine ⟨hc.1, ?_⟩
    rw [hn i List.mem_cons_self]
    exact ih hc.2 fun j hj => hn j (List.mem_cons_of_mem i hj)

/-! ## Searching -/

/-- Search for a node that passes the test, remembering the node before: `for (prev = .., curr = ..;
curr; prev = curr, curr = next)`. `none`: the fuel runs out; `some none`: the list ends. -/
def find (next : I → Option I) (test : I → Bool) :
    ℕ → Option I → Option I → Option (Option (Option I × I))
  | 0, _, _ => none
  | _ + 1, _, none => some none
  | k + 1, prev, some i =>
    if test i then some (some (prev, i)) else find next test k (some i) (next i)

/-- **A search along a chain ends**: no node passes the test, or the first one that does is found,
with the node before it. -/
theorem Chain.find_eq (test : I → Bool) (hc : Chain next h ids) {k : ℕ} (hk : ids.length < k)
    (prev : Option I) :
    ((∀ i ∈ ids, test i = false) ∧ find next test k prev h = some none) ∨
    ∃ xs i ys, ids = xs ++ i :: ys ∧ (∀ x ∈ xs, test x = false) ∧ test i = true ∧
      find next test k prev h = some (some (xs.getLast?.or prev, i)) := by
  induction ids generalizing h k prev with
  | nil =>
    obtain ⟨k, rfl⟩ : ∃ k', k = k' + 1 := ⟨k - 1, by omega⟩
    obtain rfl : h = none := hc
    exact .inl ⟨by simp, rfl⟩
  | cons i ids ih =>
    obtain ⟨k, rfl⟩ : ∃ k', k = k' + 1 := ⟨k - 1, by omega⟩
    obtain ⟨rfl, hc⟩ := hc
    cases hi : test i with
    | true => exact .inr ⟨[], i, ids, rfl, by simp, hi, by simp [find, hi]⟩
    | false =>
      -- the search moves on, with this node as the one before
      have hstep : find next test (k + 1) prev (some i) = find next test k (some i) (next i) := by
        simp [find, hi]
      rw [hstep]
      rcases ih hc (by simpa using hk) (some i) with ⟨hall, hf⟩ | ⟨xs, j, ys, rfl, hxs, hj, hf⟩
      · refine .inl ⟨?_, hf⟩
        intro j hj
        rcases List.mem_cons.mp hj with rfl | hj
        exacts [hi, hall j hj]
      · refine .inr ⟨i :: xs, j, ys, rfl, ?_, hj, ?_⟩
        · intro x hx
          rcases List.mem_cons.mp hx with rfl | hx
          exacts [hi, hxs x hx]
        · rw [hf]
          cases hxs' : xs.getLast? <;> simp [List.getLast?_cons, hxs']

/-! ## Insertion and removal -/

/-- A new node at the head. -/
theorem Chain.push (hc : Chain next h ids) (hn : n ∉ ids) (hnext : next' n = h)
    (hother : ∀ i, i ≠ n → next' i = next i) : Chain next' (some n) (n :: ids) := by
  refine ⟨rfl, ?_⟩
  rw [hnext]
  exact hc.congr fun i hi => hother i fun he => hn (he ▸ hi)

/-- **Removing the node behind `p`.** -/
theorem Chain.removeAfter (hc : Chain next h (zs ++ p :: i :: ys))
    (hnd : (zs ++ p :: i :: ys).Nodup) (hp : next' p = next i)
    (hother : ∀ j, j ≠ p → next' j = next j) : Chain next' h (zs ++ p :: ys) := by
  induction zs generalizing h with
  | nil =>
    obtain ⟨rfl, -, hc⟩ := hc
    refine ⟨rfl, ?_⟩
    rw [hp]
    refine hc.congr fun j hj => hother j ?_
    rintro rfl
    simp at hnd
    exact hnd.1.2 hj
  | cons z zs ih =>
    obtain ⟨rfl, hc⟩ := hc
    rw [List.cons_append, List.nodup_cons] at hnd
    refine ⟨rfl, ?_⟩
    rw [hother z fun he => hnd.1 (by simp [he])]
    exact ih hc hnd.2

end OS44.PoolList
