import Mathlib.Data.List.Basic

/-! # Ring buffers

    A slice of fixed length whose slots are written in turn.  The elements that it holds
    are those before the slot to write next, around the end of the slice.

    This file defines:
    - `RingHolds`: the slice holds a list of elements, oldest first
    - `readRing`: the loop that copies them out
    and proves that writing adds an element at the end, in the place of the oldest one
    when the ring is full. -/

variable {α : Type} {slots items : List α} {head : Nat} {a b : α}

/-- The slots before `head` hold the elements, oldest first. -/
structure RingHolds (slots : List α) (head : Nat) (items : List α) : Prop where
  head_lt : head < slots.length
  fits : items.length ≤ slots.length
  slot : ∀ i < items.length,
    slots[(head + (slots.length - items.length) + i) % slots.length]? = items[i]?

/-- Reads `n` slots from the `i`-th after `start` on; `none` outside of the slice. -/
def readRing (slots : List α) (start capacity : Nat) : Nat → Nat → Option (List α)
  | 0, _ => some []
  | n + 1, i =>
    match slots[(start + i) % capacity]? with
    | none => none
    | some a => (readRing slots start capacity n (i + 1)).map (a :: ·)

theorem RingHolds.nil (hpos : 0 < slots.length) : RingHolds slots 0 [] where
  head_lt := hpos
  fits := Nat.zero_le _
  slot := by simp

/-- The oldest element may be forgotten. -/
theorem RingHolds.forget (hring : RingHolds slots head (a :: items)) : RingHolds slots head items where
  head_lt := hring.head_lt
  fits := Nat.le_of_succ_le hring.fits
  slot := by
    intro i hi
    have hfits := hring.fits
    rw [List.length_cons] at hfits
    have hslot := hring.slot (i + 1) (Nat.succ_lt_succ hi)
    rw [List.length_cons, List.getElem?_cons_succ] at hslot
    rw [← hslot]
    congr 2
    omega

/-- A slot less than one round away is another one. -/
theorem ring_ne {n j : Nat} (hhead : head < n) (hpos : 0 < j) (hj : j < n) : (head + j) % n ≠ head := by
  by_cases hwrap : head + j < n
  · rw [Nat.mod_eq_of_lt hwrap]
    omega
  · rw [Nat.mod_eq_sub_mod (by omega), Nat.mod_eq_of_lt (by omega)]
    omega

/-- While there is room, the written element comes last. -/
theorem RingHolds.push (hring : RingHolds slots head items) (hroom : items.length < slots.length)
    (a : α) : RingHolds (slots.set head a) ((head + 1) % slots.length) (items ++ [a]) where
  head_lt := by
    rw [List.length_set]
    exact Nat.mod_lt _ (Nat.zero_lt_of_lt hroom)
  fits := by
    rw [List.length_set, List.length_append, List.length_singleton]
    exact hroom
  slot := by
    intro i hi
    rw [List.length_append, List.length_singleton] at hi
    rw [List.length_set, List.length_append, List.length_singleton]
    -- the same slot as before, counted from the next one
    have hindex : ((head + 1) % slots.length + (slots.length - (items.length + 1)) + i) % slots.length
        = (head + (slots.length - items.length + i)) % slots.length := by
      rw [Nat.add_assoc, Nat.mod_add_mod]
      congr 1
      omega
    rw [hindex]
    by_cases hlast : i = items.length
    · have hround : slots.length - items.length + i = slots.length := by omega
      rw [hround, Nat.add_mod_right, Nat.mod_eq_of_lt hring.head_lt,
        List.getElem?_set_self hring.head_lt, hlast, List.getElem?_concat_length]
    · have hold : i < items.length := by omega
      have hother := ring_ne hring.head_lt (j := slots.length - items.length + i) (by omega) (by omega)
      rw [List.getElem?_set_ne hother.symm, ← Nat.add_assoc, hring.slot i hold,
        List.getElem?_append_left hold]

/-- In a full ring it takes the place of the oldest one. -/
theorem RingHolds.displace (hring : RingHolds slots head items) (hfull : items.length = slots.length)
    (a : α) : RingHolds (slots.set head a) ((head + 1) % slots.length) (items.tail ++ [a]) := by
  have hpos : 0 < slots.length := Nat.zero_lt_of_lt hring.head_lt
  cases items with
  | nil =>
    rw [List.length_nil] at hfull
    omega
  | cons oldest items =>
    rw [List.length_cons] at hfull
    exact hring.forget.push (by omega) a

/-- What the loop still reads. -/
private theorem readRing_drop (hring : RingHolds slots head items) (n : Nat) : ∀ i, i + n = items.length →
    readRing slots ((head + (slots.length - items.length)) % slots.length) slots.length n i
      = some (items.drop i) := by
  induction n with
  | zero =>
    intro i hi
    rw [readRing, List.drop_of_length_le (by omega)]
  | succ n ih =>
    intro i hi
    have hlt : i < items.length := by omega
    rw [readRing, Nat.mod_add_mod, hring.slot i hlt, List.getElem?_eq_getElem hlt]
    simp only
    rw [ih (i + 1) (by omega), Option.map_some, List.drop_eq_getElem_cons hlt]

/-- **Reading** gives the elements, oldest first. -/
theorem RingHolds.read (hring : RingHolds slots head items) :
    readRing slots ((head + (slots.length - items.length)) % slots.length) slots.length items.length 0
      = some items :=
  readRing_drop hring items.length 0 (Nat.zero_add _)
