import Mathlib.Data.List.Induction
import Mathlib.Order.Lattice

/-! # Insertion sort by swaps

    The sort of a slice in place, largest key first: each element in turn is swapped with
    the one before it while its key is larger.  The result is a permutation in descending
    order of the keys, so its first elements have the largest keys. -/

section InsertionSort

variable {α β : Type} [LinearOrder β]

/-- The inner loop, from slot `j` on downwards. -/
def sink (key : α → β) : Nat → List α → List α
  | 0, slots => slots
  | j + 1, slots =>
    match slots[j + 1]?, slots[j]? with
    | some a, some b =>
      if key b < key a then sink key j ((slots.set (j + 1) b).set j a) else slots
    | _, _ => slots

/-- The outer loop: `n` slots are left, the next one is `i`. -/
def sortLoop (key : α → β) : Nat → Nat → List α → List α
  | 0, _, slots => slots
  | n + 1, i, slots => sortLoop key n (i + 1) (sink key i slots)

def sortSlice (key : α → β) (slots : List α) : List α := sortLoop key (slots.length - 1) 1 slots

/-- The keys descend. -/
def Descending (key : α → β) (l : List α) : Prop := l.Pairwise fun a b => key b ≤ key a

variable {key : α → β}

/-- One swap. -/
theorem swap_middle (front rest : List α) (a b : α) :
    ((front ++ b :: a :: rest).set (front.length + 1) b).set front.length a = front ++ a :: b :: rest := by
  rw [List.set_append_right _ _ (Nat.le_add_right _ 1), Nat.add_sub_cancel_left, List.set_cons_succ,
    List.set_cons_zero, List.set_append_right _ _ (Nat.le_refl _), Nat.sub_self, List.set_cons_zero]

/-- An element sinks to its place among those before it. -/
theorem sink_spec (front rest : List α) (a : α) : ∃ front',
    sink key front.length (front ++ a :: rest) = front' ++ rest ∧ front'.Perm (front ++ [a])
      ∧ (Descending key front → Descending key front') := by
  induction front using List.reverseRecOn generalizing rest with
  | nil => exact ⟨[a], rfl, .refl _, fun _ => List.pairwise_singleton _ a⟩
  | append_singleton front b ih =>
    have hlist : front ++ [b] ++ a :: rest = front ++ b :: a :: rest := by simp
    have hfirst : (front ++ b :: a :: rest)[front.length + 1]? = some a := by simp
    have hbefore : (front ++ b :: a :: rest)[front.length]? = some b := by simp
    rw [hlist, List.length_append, List.length_singleton, sink, hfirst, hbefore]
    simp only
    split
    · next hlt =>
      rw [swap_middle]
      obtain ⟨front', heq, hperm, hdesc⟩ := ih (b :: rest)
      refine ⟨front' ++ [b], ?_, ?_, ?_⟩
      · rw [heq, List.append_assoc, List.singleton_append]
      · have hswap : (front ++ ([a] ++ [b])).Perm (front ++ ([b] ++ [a])) :=
          List.perm_append_comm.append_left front
        rw [← List.append_assoc, ← List.append_assoc] at hswap
        exact (hperm.append_right [b]).trans hswap
      · intro hdesc'
        obtain ⟨hfront, _, hlast⟩ := List.pairwise_append.mp hdesc'
        refine List.pairwise_append.mpr ⟨hdesc hfront, List.pairwise_singleton _ b, ?_⟩
        intro c hc b' hb'
        obtain rfl := List.mem_singleton.mp hb'
        rcases List.mem_append.mp (hperm.mem_iff.mp hc) with hc | hc
        · exact hlast c hc b' (List.mem_singleton_self b')
        · rw [List.mem_singleton.mp hc]
          exact hlt.le
    · next hnlt =>
      refine ⟨front ++ [b] ++ [a], ?_, .refl _, ?_⟩
      · simp
      · intro hdesc
        obtain ⟨_, _, hlast⟩ := List.pairwise_append.mp hdesc
        refine List.pairwise_append.mpr ⟨hdesc, List.pairwise_singleton _ a, ?_⟩
        intro c hc a' ha'
        obtain rfl := List.mem_singleton.mp ha'
        have hle : key a' ≤ key b := not_lt.mp hnlt
        rcases List.mem_append.mp hc with hc | hc
        · exact hle.trans (hlast c hc b (List.mem_singleton_self b))
        · rw [List.mem_singleton.mp hc]
          exact hle

/-- What the outer loop does once the slots before `i` are in order. -/
theorem sortLoop_spec (n : Nat) : ∀ (i : Nat) (slots : List α), i + n = slots.length →
    Descending key (slots.take i) →
    (sortLoop key n i slots).Perm slots ∧ Descending key (sortLoop key n i slots) := by
  induction n with
  | zero =>
    intro i slots hi hdesc
    rw [List.take_of_length_le (by omega)] at hdesc
    exact ⟨.refl _, hdesc⟩
  | succ n ih =>
    intro i slots hi hdesc
    have hlt : i < slots.length := by omega
    have hsplit : slots = slots.take i ++ slots[i] :: slots.drop (i + 1) := by
      rw [List.getElem_cons_drop, List.take_append_drop]
    have hlength : (slots.take i).length = i := List.length_take_of_le (Nat.le_of_lt hlt)
    obtain ⟨front', heq, hperm, hkeep⟩ := @sink_spec α β _ key (slots.take i) (slots.drop (i + 1)) slots[i]
    rw [hlength, ← hsplit] at heq
    have hfront : front'.length = i + 1 := by
      rw [hperm.length_eq, List.length_append, hlength]
      rfl
    have hsunk : (sink key i slots).Perm slots := by
      rw [heq]
      refine (hperm.append_right _).trans ?_
      rw [List.append_assoc, List.singleton_append, ← hsplit]
    have htake : (sink key i slots).take (i + 1) = front' := by
      rw [heq, ← hfront, List.take_left]
    obtain ⟨hsorted, hdesc'⟩ := ih (i + 1) (sink key i slots) (by rw [hsunk.length_eq]; omega)
      (by rw [htake]; exact hkeep hdesc)
    exact ⟨hsorted.trans hsunk, hdesc'⟩

/-- **The sort** permutes the slice into descending order. -/
theorem sortSlice_spec (slots : List α) :
    (sortSlice key slots).Perm slots ∧ Descending key (sortSlice key slots) := by
  unfold sortSlice
  cases slots with
  | nil => exact ⟨.refl _, List.Pairwise.nil⟩
  | cons a slots =>
    apply sortLoop_spec
    · rw [List.length_cons]
      omega
    · exact List.pairwise_singleton _ a

/-- No key behind the first elements is larger than theirs. -/
theorem Descending.le_of_mem_take {l : List α} (hdesc : Descending key l) {n : Nat} {a b : α}
    (ha : a ∈ l.take n) (hb : b ∈ l.drop n) : key b ≤ key a := by
  unfold Descending at hdesc
  rw [← List.take_append_drop n l] at hdesc
  exact (List.pairwise_append.mp hdesc).2.2 a ha b hb

end InsertionSort
