import Mathlib.Data.List.Nodup

/-! # Deduplication by a key

    `dedupOn` keeps the first element of each key.  It loses no key and keeps no
    key twice; it loses an element exactly when another one has its key. -/

variable {α κ : Type} [DecidableEq κ]

/-- The elements whose key is neither seen nor that of an earlier element. -/
def dedupOn (key : α → κ) : List κ → List α → List α
  | _, [] => []
  | seen, a :: as =>
    if key a ∈ seen then dedupOn key seen as else a :: dedupOn key (key a :: seen) as

theorem dedupOn_subset (key : α → κ) (l : List α) (seen : List κ) : dedupOn key seen l ⊆ l := by
  induction l generalizing seen with
  | nil => exact List.Subset.refl []
  | cons a l ih =>
    unfold dedupOn
    split
    · exact List.subset_cons_of_subset a (ih seen)
    · exact List.cons_subset_cons a (ih (key a :: seen))

theorem mem_map_dedupOn (key : α → κ) (l : List α) (seen : List κ) (k : κ) :
    k ∈ (dedupOn key seen l).map key ↔ k ∈ l.map key ∧ k ∉ seen := by
  induction l generalizing seen with
  | nil => simp [dedupOn]
  | cons a l ih =>
    unfold dedupOn
    split
    · rename_i hseen
      rw [ih, List.map_cons, List.mem_cons]
      grind
    · rename_i hnew
      simp only [List.map_cons, List.mem_cons, ih]
      grind

theorem nodup_map_dedupOn (key : α → κ) (l : List α) (seen : List κ) :
    ((dedupOn key seen l).map key).Nodup := by
  induction l generalizing seen with
  | nil => exact List.nodup_nil
  | cons a l ih =>
    unfold dedupOn
    split
    · exact ih seen
    · rw [List.map_cons, List.nodup_cons]
      refine ⟨?_, ih _⟩
      rw [mem_map_dedupOn]
      simp
