import Mathlib.Data.List.Basic

/-! # Filtering a slice in place

    The elements that are kept are written to the front of the array that is read,
    as by `kept := s[:0]` and `append` in a loop over `s`.  The front of the array is
    then the filtered slice, and the slots behind it are as before: a longer slice
    of the same array sees some elements twice. -/

variable {α : Type}

/-- The loop: `n` slots are left to read from slot `i` on, and the next element kept
    goes to slot `k`.  Returns the array and the number of elements kept. -/
def filterLoop (keep : α → Bool) : Nat → Nat → Nat → List α → List α × Nat
  | 0, _, k, slots => (slots, k)
  | n + 1, i, k, slots =>
    match slots[i]? with
    | none => (slots, k)
    | some a =>
      if keep a then filterLoop keep n (i + 1) (k + 1) (slots.set k a)
      else filterLoop keep n (i + 1) k slots

/-- The array after its first `len` slots are filtered, and the new length. -/
def filterInPlace (keep : α → Bool) (slots : List α) (len : Nat) : List α × Nat :=
  filterLoop keep len 0 0 slots

/-- What the loop still keeps. -/
private theorem filterLoop_eq (keep : α → Bool) (n : Nat) :
    ∀ (i k : Nat) (slots : List α), k ≤ i → i + n ≤ slots.length →
      filterLoop keep n i k slots
        = (slots.take k ++ ((slots.drop i).take n).filter keep
            ++ slots.drop (k + (((slots.drop i).take n).filter keep).length),
          k + (((slots.drop i).take n).filter keep).length) := by
  induction n with
  | zero =>
    intro i k slots _ _
    simp [filterLoop]
  | succ n ih =>
    intro i k slots hki hlen
    have hi : i < slots.length := by omega
    have hdrop : slots.drop i = slots[i] :: slots.drop (i + 1) := List.drop_eq_getElem_cons hi
    simp only [filterLoop, List.getElem?_eq_getElem hi]
    rw [hdrop, List.take_succ_cons, List.filter_cons]
    by_cases hkeep : keep slots[i] = true
    · rw [if_pos hkeep, if_pos hkeep, ih (i + 1) (k + 1) (slots.set k slots[i]) (by omega)
        (by simp; omega)]
      -- the slots behind the one that is written are as before
      have hbehind : ∀ j, k < j → (slots.set k slots[i]).drop j = slots.drop j :=
        fun j hj => List.drop_set_of_lt hj
      have hfront : (slots.set k slots[i]).take (k + 1) = slots.take k ++ [slots[i]] := by
        rw [List.take_add_one, List.take_set_of_le (Nat.le_refl k), List.getElem?_set_self (by omega)]
        rfl
      rw [hbehind (i + 1) (by omega), hbehind _ (by omega), hfront]
      simp only [List.append_assoc, List.cons_append, List.nil_append, List.length_cons]
      have hcount : ∀ c : Nat, k + 1 + c = k + (c + 1) := fun c => by omega
      rw [hcount]
    · rw [if_neg hkeep, if_neg hkeep, ih (i + 1) k slots (by omega) (by omega)]

/-- **Filtering in place**: the elements kept, and the slots behind them as before. -/
theorem filterInPlace_eq (keep : α → Bool) {slots : List α} {len : Nat}
    (hlen : len ≤ slots.length) :
    filterInPlace keep slots len
      = (((slots.take len).filter keep) ++ slots.drop ((slots.take len).filter keep).length,
        ((slots.take len).filter keep).length) := by
  unfold filterInPlace
  rw [filterLoop_eq keep len 0 0 slots (Nat.le_refl 0) (by omega)]
  simp
