import Mathlib.Data.List.Basic

/-! # Splitting at a separator

    `splitN` is `strings.SplitN` for a separator of one letter: at most so many parts,
    the last of which keeps whatever separators are left.  A split in two is decided by
    the first separator, so what stands before it has none. -/

universe u

variable {α : Type u} [DecidableEq α] {sep : α} {front back s : List α}

/-- At most `n` parts. -/
def splitN (sep : α) : Nat → List α → List (List α)
  | 0, _ => []
  | 1, s => [s]
  | n + 2, s =>
    match s.idxOf? sep with
    | none => [s]
    | some m => s.take m :: splitN sep (n + 1) (s.drop (m + 1))

theorem idxOf?_append_sep (hfront : sep ∉ front) (back : List α) :
    (front ++ sep :: back).idxOf? sep = some front.length := by
  induction front with
  | nil => simp [List.idxOf?_cons]
  | cons a front ih =>
    rw [List.mem_cons, not_or] at hfront
    have hne : (a == sep) = false := by simpa using fun heq : a = sep => hfront.1 heq.symm
    rw [List.cons_append, List.idxOf?_cons, hne, ih hfront.2]
    rfl

theorem splitN_append_sep (n : Nat) (hfront : sep ∉ front) (back : List α) :
    splitN sep (n + 2) (front ++ sep :: back) = front :: splitN sep (n + 1) back := by
  rw [splitN, idxOf?_append_sep hfront]
  have hdrop : (front ++ sep :: back).drop (front.length + 1) = back := by
    rw [← List.drop_drop, List.drop_left]
    rfl
  simp only
  rw [List.take_left, hdrop]

theorem splitN_of_not_mem (n : Nat) (hs : sep ∉ s) : splitN sep (n + 1) s = [s] := by
  cases n with
  | zero => rfl
  | succ n => rw [splitN, List.idxOf?_eq_none_iff.mpr hs]

/-- **A split in two** is at the first separator. -/
theorem splitN_two_iff : splitN sep 2 s = [front, back] ↔ s = front ++ sep :: back ∧ sep ∉ front := by
  constructor
  · intro hsplit
    by_cases hs : sep ∈ s
    · obtain ⟨before, after, rfl, hbefore⟩ := List.eq_append_cons_of_mem hs
      rw [splitN_append_sep 0 hbefore] at hsplit
      cases hsplit
      exact ⟨rfl, hbefore⟩
    · rw [splitN_of_not_mem 1 hs] at hsplit
      simp at hsplit
  · intro ⟨heq, hfront⟩
    rw [heq, splitN_append_sep 0 hfront]
    rfl
