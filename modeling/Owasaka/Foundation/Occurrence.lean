import Mathlib.Data.List.Forall2

/-! # Earliest occurrences

    A pattern occurs in a word where its letters fit at growing positions, whatever
    stands in between.

    This file defines:
    - `OccursAt`: an occurrence, by its positions
    - `EarliestAt`: an occurrence that is nowhere later than any other
    - `earliest`: one pass over the word that takes every letter as soon as it fits
    and proves that the pass finds the earliest occurrence, and finds one whenever the
    pattern occurs at all. -/

universe u v

variable {α : Type u} {β : Type v} {fits : α → β → Prop} {a : α} {b : β} {pattern : List α}
  {word : List β} {positions : List Nat}

/-- The letters of the pattern fit at these positions of the word, in order. -/
structure OccursAt (fits : α → β → Prop) (pattern : List α) (word : List β) (positions : List Nat) :
    Prop where
  growing : positions.Pairwise (· < ·)
  letters : List.Forall₂ (fun a i => ∃ b, word[i]? = some b ∧ fits a b) pattern positions

/-- No other occurrence has any letter earlier. -/
structure EarliestAt (fits : α → β → Prop) (pattern : List α) (word : List β)
    (positions : List Nat) : Prop where
  occurs : OccursAt fits pattern word positions
  least : ∀ others, OccursAt fits pattern word others → List.Forall₂ (· ≤ ·) positions others

/-- Every letter is taken at the first position left at which it fits. -/
def earliest (fits : α → β → Prop) [DecidableRel fits] : List α → List β → Option (List Nat)
  | [], _ => some []
  | _ :: _, [] => none
  | a :: pattern, b :: word =>
    if fits a b then (earliest fits pattern word).map fun positions => 0 :: positions.map (· + 1)
    else (earliest fits (a :: pattern) word).map fun positions => positions.map (· + 1)

/-! ## Section 1: Occurrences -/

theorem occursAt_nil : OccursAt fits [] word positions ↔ positions = [] := by
  constructor
  · intro hoccurs
    exact List.forall₂_nil_left_iff.mp hoccurs.letters
  · intro hnil
    rw [hnil]
    exact ⟨List.Pairwise.nil, List.Forall₂.nil⟩

theorem not_occursAt_nil_word : ¬ OccursAt fits (a :: pattern) [] positions := by
  intro hoccurs
  obtain ⟨i, rest, ⟨b, hget, _⟩, _, _⟩ := List.forall₂_cons_left_iff.mp hoccurs.letters
  rw [List.getElem?_nil] at hget
  contradiction

/-- The positions in a word are one more behind another letter. -/
theorem occursAt_shift :
    OccursAt fits pattern (b :: word) (positions.map (· + 1)) ↔ OccursAt fits pattern word positions := by
  constructor
  · intro hoccurs
    obtain ⟨hgrowing, hletters⟩ := hoccurs
    rw [List.pairwise_map] at hgrowing
    rw [List.forall₂_map_right_iff] at hletters
    exact ⟨hgrowing.imp Nat.lt_of_succ_lt_succ, hletters⟩
  · intro hoccurs
    obtain ⟨hgrowing, hletters⟩ := hoccurs
    constructor
    · rw [List.pairwise_map]
      exact hgrowing.imp Nat.succ_lt_succ
    · rw [List.forall₂_map_right_iff]
      exact hletters

theorem OccursAt.tail {i : Nat} (hoccurs : OccursAt fits (a :: pattern) word (i :: positions)) :
    OccursAt fits pattern word positions := by
  obtain ⟨hgrowing, hletters⟩ := hoccurs
  cases hletters with
  | cons _ hrest => exact ⟨(List.pairwise_cons.mp hgrowing).2, hrest⟩

/-- Positions after the first one of a word. -/
theorem exists_map_succ (hpos : ∀ i ∈ positions, 0 < i) :
    ∃ rest : List Nat, positions = rest.map (· + 1) := by
  refine ⟨positions.map (· - 1), ?_⟩
  rw [List.map_map, List.map_congr_left, List.map_id]
  intro i hi
  have hlt := hpos i hi
  simp only [Function.comp_apply, id_eq]
  omega

/-- An occurrence takes the first letter of the word, or lies behind it. -/
theorem OccursAt.cases_word (hoccurs : OccursAt fits (a :: pattern) (b :: word) positions) :
    (∃ rest : List Nat, positions = 0 :: rest.map (· + 1) ∧ fits a b ∧ OccursAt fits pattern word rest)
      ∨ ∃ rest : List Nat, positions = rest.map (· + 1) ∧ OccursAt fits (a :: pattern) word rest := by
  obtain ⟨i, positions, ⟨b', hget, hfits⟩, _, rfl⟩ := List.forall₂_cons_left_iff.mp hoccurs.letters
  have hlater := (List.pairwise_cons.mp hoccurs.growing).1
  by_cases hfirst : i = 0
  · subst hfirst
    obtain ⟨rest, rfl⟩ := exists_map_succ hlater
    rw [List.getElem?_cons_zero, Option.some.injEq] at hget
    subst hget
    exact Or.inl ⟨rest, rfl, hfits, occursAt_shift.mp hoccurs.tail⟩
  · have hpos : ∀ j ∈ i :: positions, 0 < j := by
      intro j hj
      rcases List.mem_cons.mp hj with heq | hrest
      · omega
      · have hlt := hlater j hrest
        omega
    obtain ⟨rest, heq⟩ := exists_map_succ hpos
    rw [heq] at hoccurs
    exact Or.inr ⟨rest, heq, occursAt_shift.mp hoccurs⟩

theorem OccursAt.take (hoccurs : OccursAt fits pattern word positions) (hfits : fits a b) :
    OccursAt fits (a :: pattern) (b :: word) (0 :: positions.map (· + 1)) := by
  obtain ⟨hgrowing, hletters⟩ := (occursAt_shift (b := b)).mpr hoccurs
  constructor
  · rw [List.pairwise_cons]
    refine ⟨?_, hgrowing⟩
    intro i hi
    obtain ⟨j, _, rfl⟩ := List.mem_map.mp hi
    exact Nat.succ_pos j
  · exact List.Forall₂.cons ⟨b, rfl, hfits⟩ hletters

/-! ## Section 2: The pass -/

theorem forall₂_le_shift {first others : List Nat} (hle : List.Forall₂ (· ≤ ·) first others) :
    List.Forall₂ (· ≤ ·) (first.map (· + 1)) (others.map (· + 1)) := by
  rw [List.forall₂_map_left_iff, List.forall₂_map_right_iff]
  exact hle.imp fun _ _ h => Nat.succ_le_succ h

section

variable [DecidableRel fits]

/-- What the pass finds is an occurrence. -/
theorem occursAt_of_earliest (hfound : earliest fits pattern word = some positions) :
    OccursAt fits pattern word positions := by
  induction word generalizing pattern positions with
  | nil =>
    cases pattern with
    | nil =>
      cases hfound
      exact occursAt_nil.mpr rfl
    | cons a pattern => contradiction
  | cons b word ih =>
    cases pattern with
    | nil =>
      cases hfound
      exact occursAt_nil.mpr rfl
    | cons a pattern =>
      unfold earliest at hfound
      by_cases hfits : fits a b
      · rw [if_pos hfits, Option.map_eq_some_iff] at hfound
        obtain ⟨rest, hrest, rfl⟩ := hfound
        exact (ih hrest).take hfits
      · rw [if_neg hfits, Option.map_eq_some_iff] at hfound
        obtain ⟨rest, hrest, rfl⟩ := hfound
        exact occursAt_shift.mpr (ih hrest)

/-- The pass finds an occurrence when there is one, and is nowhere behind it. -/
theorem OccursAt.earliest_le (hoccurs : OccursAt fits pattern word positions) :
    ∃ first, earliest fits pattern word = some first ∧ List.Forall₂ (· ≤ ·) first positions := by
  induction word generalizing pattern positions with
  | nil =>
    cases pattern with
    | nil =>
      rw [occursAt_nil.mp hoccurs]
      exact ⟨[], rfl, List.Forall₂.nil⟩
    | cons a pattern => exact absurd hoccurs not_occursAt_nil_word
  | cons b word ih =>
    cases pattern with
    | nil =>
      rw [occursAt_nil.mp hoccurs]
      exact ⟨[], rfl, List.Forall₂.nil⟩
    | cons a pattern =>
      unfold earliest
      by_cases hfits : fits a b
      · rw [if_pos hfits]
        -- the rest of the pattern occurs behind the first letter in both cases
        obtain ⟨rest, i, htail, hpositions⟩ : ∃ (rest : List Nat) (i : Nat), OccursAt fits pattern word rest
            ∧ positions = i :: rest.map (· + 1) := by
          rcases hoccurs.cases_word with ⟨rest, heq, _, hrest⟩ | ⟨rest, heq, hrest⟩
          · exact ⟨rest, 0, hrest, heq⟩
          · obtain ⟨i, later, _, _, rfl⟩ := List.forall₂_cons_left_iff.mp hrest.letters
            exact ⟨later, i + 1, hrest.tail, heq⟩
        obtain ⟨first, hfound, hle⟩ := ih htail
        refine ⟨0 :: first.map (· + 1), ?_, ?_⟩
        · rw [hfound, Option.map_some]
        · rw [hpositions]
          exact List.Forall₂.cons (Nat.zero_le i) (forall₂_le_shift hle)
      · rw [if_neg hfits]
        rcases hoccurs.cases_word with ⟨_, _, htaken, _⟩ | ⟨rest, rfl, hrest⟩
        · exact absurd htaken hfits
        · obtain ⟨first, hfound, hle⟩ := ih hrest
          exact ⟨first.map (· + 1), by rw [hfound, Option.map_some], forall₂_le_shift hle⟩

/-- **Earliest occurrence**: no occurrence has any letter before the pass has it. -/
theorem earliestAt_of_earliest (hfound : earliest fits pattern word = some positions) :
    EarliestAt fits pattern word positions := by
  refine ⟨occursAt_of_earliest hfound, ?_⟩
  intro others hothers
  obtain ⟨first, hfirst, hle⟩ := hothers.earliest_le
  rw [hfound, Option.some.injEq] at hfirst
  rw [hfirst]
  exact hle

end

/-- **Completeness**: the pass succeeds if and only if the pattern is a subsequence. -/
theorem earliest_isSome_iff [DecidableEq α] (letter : β → α) (pattern : List α) (word : List β) :
    (earliest (fun a b => letter b = a) pattern word).isSome ↔ pattern.Sublist (word.map letter) := by
  induction word generalizing pattern with
  | nil =>
    cases pattern with
    | nil => simp [earliest]
    | cons a pattern => simp [earliest]
  | cons b word ih =>
    cases pattern with
    | nil => simp [earliest]
    | cons a pattern =>
      unfold earliest
      rw [List.map_cons]
      by_cases hfits : letter b = a
      · rw [if_pos hfits, Option.isSome_map, ih, hfits, List.cons_sublist_cons]
      · rw [if_neg hfits, Option.isSome_map, ih, List.sublist_cons_iff]
        constructor
        · exact Or.inl
        · intro hsub
          rcases hsub with hskip | ⟨rest, heq, _⟩
          · exact hskip
          · exact absurd (List.cons.inj heq).1.symm hfits
