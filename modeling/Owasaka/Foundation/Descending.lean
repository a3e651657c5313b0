import Mathlib.Data.Finset.Card
import Mathlib.Data.Int.Interval
import Mathlib.Data.List.Nodup

/-! # Descending lists and counting

    The first `n` elements of a descending list are those with fewer than `n` larger
    ones in it.  Over the integers, they include all that are less than `n` below an
    upper bound. -/

section Order

variable {α : Type} [LinearOrder α] {l : List α} {a : α} {n : Nat}

/-- There are `n` larger elements of the list. -/
def Surpassed (l : List α) (a : α) (n : Nat) : Prop :=
  ∃ larger : List α, larger.Nodup ∧ larger.length = n ∧ ∀ b ∈ larger, a < b ∧ b ∈ l

theorem mem_take_iff_not_surpassed (hdesc : l.Pairwise (· > ·)) (ha : a ∈ l) :
    a ∈ l.take n ↔ ¬ Surpassed l a n := by
  have hsplit : (l.take n ++ l.drop n).Pairwise (· > ·) := by
    rw [List.take_append_drop]
    exact hdesc
  obtain ⟨hfront, _, hcross⟩ := List.pairwise_append.mp hsplit
  have hmem : ∀ b, b ∈ l ↔ b ∈ l.take n ∨ b ∈ l.drop n := by
    intro b
    rw [← List.mem_append, List.take_append_drop]
  constructor
  · intro htake ⟨larger, hnodup, hlength, hlarger⟩
    -- the larger elements are in front too, and so is the element itself
    have hsub : a :: larger ⊆ l.take n := by
      rw [List.cons_subset]
      refine ⟨htake, fun b hb => ?_⟩
      obtain ⟨hlt, hb⟩ := hlarger b hb
      rcases (hmem b).mp hb with hb | hb
      · exact hb
      · exact absurd (hcross a htake b hb) (lt_asymm hlt)
    have hnodup' : (a :: larger).Nodup := by
      rw [List.nodup_cons]
      exact ⟨fun hmem => lt_irrefl a (hlarger a hmem).1, hnodup⟩
    have hle := (hnodup'.subperm hsub).length_le
    rw [List.length_cons, List.length_take] at hle
    omega
  · intro hnot
    by_contra htake
    have hdrop : a ∈ l.drop n := ((hmem a).mp ha).resolve_left htake
    have hlength : (l.take n).length = n := by
      have hpos := List.length_pos_of_mem hdrop
      rw [List.length_drop] at hpos
      rw [List.length_take]
      omega
    exact hnot ⟨l.take n, hfront.imp ne_of_gt, hlength,
      fun b hb => ⟨hcross b hb a hdrop, List.mem_of_mem_take hb⟩⟩

end Order

theorem mem_take_of_close {l : List Int} (hdesc : l.Pairwise (· > ·)) {top m : Int} {n : Nat}
    (htop : ∀ b ∈ l, b ≤ top) (hm : m ∈ l) (hclose : top - n < m) : m ∈ l.take n := by
  rw [mem_take_iff_not_surpassed hdesc hm]
  intro ⟨larger, hnodup, hlength, hlarger⟩
  have hsub : larger.toFinset ⊆ Finset.Ioc m top := by
    intro b hb
    obtain ⟨hlt, hb⟩ := hlarger b (List.mem_toFinset.mp hb)
    exact Finset.mem_Ioc.mpr ⟨hlt, htop b hb⟩
  have hcard := Finset.card_le_card hsub
  rw [List.toFinset_card_of_nodup hnodup, Int.card_Ioc, hlength] at hcard
  have hle := htop m hm
  omega

section Count

variable {β γ : Type} {p q : β → Bool}

/-- A stronger condition holds as often as a weaker one only if it holds wherever that
    one does. -/
theorem countP_eq_iff_of_imp {l : List β} (himp : ∀ b ∈ l, p b = true → q b = true) :
    l.countP q = l.countP p ↔ ∀ b ∈ l, q b = true → p b = true := by
  induction l with
  | nil => simp
  | cons b l ih =>
    rw [List.forall_mem_cons] at himp ⊢
    have hle : l.countP p ≤ l.countP q := List.countP_mono_left himp.2
    have ih := ih himp.2
    rw [List.countP_cons, List.countP_cons]
    cases hp : p b with
    | true =>
      have hq : q b = true := himp.1 hp
      simp [hq, ih]
    | false =>
      cases hq : q b with
      | true =>
        simp only [if_true, Bool.false_eq_true, if_false, Nat.add_zero, forall_const, false_and,
          iff_false]
        omega
      | false => simp [ih]

/-- Counting by one more value. -/
theorem countP_mem_append_singleton [DecidableEq γ] (f : β → γ) {values : List γ} {c : γ}
    (hnew : c ∉ values) (l : List β) :
    l.countP (fun b => p b && decide (f b ∈ values ++ [c]))
      = l.countP (fun b => p b && decide (f b ∈ values))
        + l.countP (fun b => p b && decide (f b = c)) := by
  induction l with
  | nil => rfl
  | cons b l ih =>
    simp only [List.countP_cons, ih]
    cases hp : p b with
    | false => simp
    | true =>
      by_cases hc : f b = c
      · have hnot : f b ∉ values := hc ▸ hnew
        simp [hc, hnew]
        omega
      · simp [hc]
        omega

end Count
