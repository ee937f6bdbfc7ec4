import Mathlib.Data.List.Basic

/-! # Code that records what it reads

A reading is the value that a piece of code computes together with the list of the places it has
read on the way, in order. Code is written in the monad of readings, each access by the one
operation that both returns the content and notes the place; what it computes and what it reads are
then two projections of the same text. -/

namespace OS44

universe u v w

/-- A value and the places read to compute it. -/
structure Reading (ι : Type u) (α : Type v) where
  value : α
  reads : List ι

namespace Reading

variable {ι : Type u} {κ : Type w} {α β σ : Type v}

instance : Monad (Reading ι) where
  pure a := ⟨a, []⟩
  bind x f := ⟨(f x.value).value, x.reads ++ (f x.value).reads⟩

@[simp] theorem value_pure (a : α) : (pure a : Reading ι α).value = a := rfl

@[simp] theorem reads_pure (a : α) : (pure a : Reading ι α).reads = [] := rfl

@[simp] theorem value_bind (x : Reading ι α) (f : α → Reading ι β) :
    (x >>= f).value = (f x.value).value := rfl

@[simp] theorem reads_bind (x : Reading ι α) (f : α → Reading ι β) :
    (x >>= f).reads = x.reads ++ (f x.value).reads := rfl

/-- The value of a loop is the loop of the values. -/
theorem value_foldlM {f : σ → κ → Reading ι σ} {g : σ → κ → σ} (h : ∀ s i, (f s i).value = g s i)
    (s : σ) (is : List κ) : (is.foldlM f s).value = is.foldl g s := by
  induction is generalizing s with
  | nil => rfl
  | cons i is ih => rw [List.foldlM_cons, value_bind, h, ih, List.foldl_cons]

/-- Rounds that read the same places in every state: the loop reads those of each round. -/
theorem reads_foldlM {f : σ → κ → Reading ι σ} {places : κ → List ι}
    (h : ∀ s i, (f s i).reads = places i) (s : σ) (is : List κ) :
    (is.foldlM f s).reads = is.flatMap places := by
  induction is generalizing s with
  | nil => rfl
  | cons i is ih => rw [List.foldlM_cons, reads_bind, h, ih, List.flatMap_cons]

end Reading

end OS44
