import Mathlib.Data.List.Basic
import Mathlib.Data.List.Nodup
import Mathlib.Data.List.Perm.Basic
import Mathlib.Order.Defs.Unbundled

/-! # The newest records of a keyed list

    A listing that goes through records in the order of their keys and stops at a
    limit returns the first of them in that order.  These are the newest ones, newest
    first, exactly when no record among the first is older than one behind it. -/

section Newest

variable {K R : Type} {time : R → Int} {n : Nat}

/-- The `n` newest of the records, newest first: no record that is left out is newer
    than one that is not. -/
def Newest (time : R → Int) (n : Nat) (records result : List R) : Prop :=
  ∃ omitted, records.Perm (result ++ omitted) ∧ result.length = min n records.length
    ∧ result.Pairwise (fun r r' => time r' ≤ time r) ∧ ∀ r ∈ result, ∀ r' ∈ omitted, time r' ≤ time r

/-- The first records are the newest when none of them is older than one behind it. -/
theorem newest_take_iff {l : List R} :
    Newest time n l (l.take n) ↔
      ∀ front r back, l = front ++ r :: back → front.length < n → ∀ r' ∈ back, time r' ≤ time r := by
  constructor
  · intro ⟨omitted, hperm, _, hsorted, hrest⟩ front r back hl hlt r' hr'
    -- what is omitted are the records after the limit
    have homitted : omitted.Perm (l.drop n) := by
      have hsplit : (l.take n ++ l.drop n).Perm (l.take n ++ omitted) := by
        rw [List.take_append_drop]
        exact hperm
      exact (List.perm_append_left_iff (l.take n)).mp hsplit.symm
    obtain ⟨k, hk⟩ : ∃ k, n = front.length + 1 + k := ⟨n - (front.length + 1), by omega⟩
    have htake : l.take n = front ++ r :: back.take k := by
      rw [hl, hk, Nat.add_assoc, List.take_length_add_append, Nat.add_comm 1 k, List.take_succ_cons]
    have hdrop : l.drop n = back.drop k := by
      rw [hl, hk, Nat.add_assoc, List.drop_length_add_append, Nat.add_comm 1 k, List.drop_succ_cons]
    rw [← List.take_append_drop k back] at hr'
    rcases List.mem_append.mp hr' with hfirst | hbehind
    · rw [htake] at hsorted
      exact (List.pairwise_cons.mp (List.pairwise_append.mp hsorted).2.1).1 r' hfirst
    · apply hrest r
      · rw [htake]
        simp
      · rw [homitted.mem_iff, hdrop]
        exact hbehind
  · intro hfirst
    refine ⟨l.drop n, ?_, List.length_take, ?_, ?_⟩
    · rw [List.take_append_drop]
    · rw [List.pairwise_iff_getElem]
      intro i j hi hj hij
      rw [List.length_take] at hi hj
      rw [List.getElem_take, List.getElem_take]
      apply hfirst (l.take i) l[i] (l.drop (i + 1))
      · rw [List.getElem_cons_drop, List.take_append_drop]
      · rw [List.length_take]
        omega
      · rw [List.mem_drop_iff_getElem]
        refine ⟨j - (i + 1), by omega, ?_⟩
        congr 1
        omega
    · intro r hr r' hr'
      obtain ⟨i, hi, rfl⟩ := List.mem_iff_getElem.mp hr
      rw [List.length_take] at hi
      rw [List.getElem_take]
      apply hfirst (l.take i) l[i] (l.drop (i + 1))
      · rw [List.getElem_cons_drop, List.take_append_drop]
      · rw [List.length_take]
        omega
      · obtain ⟨j, hj, rfl⟩ := List.mem_drop_iff_getElem.mp hr'
        rw [List.mem_drop_iff_getElem]
        refine ⟨n + j - (i + 1), by omega, ?_⟩
        congr 1
        omega

/-- The number of records that come before the key. -/
def before (above : K → K → Prop) [DecidableRel above] (p : List (K × R)) (k : K) : Nat :=
  p.countP fun x => above x.1 k

/-- In a list that is ordered by its keys, the records before one are those with a
    higher key. -/
theorem before_eq_length {above : K → K → Prop} [DecidableRel above]
    (hasymm : ∀ k k', above k k' → ¬ above k' k) {front back : List (K × R)} {x : K × R}
    (hsorted : (front ++ x :: back).Pairwise fun y z => above y.1 z.1) :
    before above (front ++ x :: back) x.1 = front.length := by
  obtain ⟨_, hback, hcross⟩ := List.pairwise_append.mp hsorted
  unfold before
  rw [List.countP_append, List.countP_eq_length.mpr, List.countP_eq_zero.mpr, Nat.add_zero]
  · intro y hy
    rw [decide_eq_true_eq]
    rcases List.mem_cons.mp hy with rfl | hlater
    · intro hself
      exact hasymm _ _ hself hself
    · exact hasymm _ _ ((List.pairwise_cons.mp hback).1 y hlater)
  · intro y hy
    rw [decide_eq_true_eq]
    exact hcross y hy x List.mem_cons_self

/-- **Listing by key**: the first `n` records in the order of their keys are the newest
    exactly when no record with fewer than `n` records before it is older than one with
    a lower key. -/
theorem newest_by_key_iff {above : K → K → Prop} [DecidableRel above]
    (hasymm : ∀ k k', above k k' → ¬ above k' k) {l p : List (K × R)}
    (hsorted : l.Pairwise fun y z => above y.1 z.1) (hperm : l.Perm p) :
    Newest time n (p.map Prod.snd) ((l.map Prod.snd).take n) ↔
      ∀ x ∈ p, before above p x.1 < n → ∀ y ∈ p, above x.1 y.1 → time y.2 ≤ time x.2 := by
  have hrecords : Newest time n (p.map Prod.snd) ((l.map Prod.snd).take n) ↔
      Newest time n (l.map Prod.snd) ((l.map Prod.snd).take n) := by
    unfold Newest
    have hlen : (p.map Prod.snd).length = (l.map Prod.snd).length :=
      ((hperm.map Prod.snd).length_eq).symm
    have hsame : ∀ rs : List R, (p.map Prod.snd).Perm rs ↔ (l.map Prod.snd).Perm rs := fun rs =>
      ⟨fun h => (hperm.map Prod.snd).trans h, fun h => (hperm.map Prod.snd).symm.trans h⟩
    simp only [hlen, hsame]
  have hbefore : ∀ k, before above p k = before above l k := fun k => (hperm.countP_eq _).symm
  rw [hrecords, newest_take_iff]
  constructor
  · intro hfirst x hx hlt y hy habove
    obtain ⟨front, back, hl⟩ := List.append_of_mem (hperm.mem_iff.mpr hx)
    subst hl
    rw [hbefore, before_eq_length hasymm hsorted] at hlt
    apply hfirst (front.map Prod.snd) x.2 (back.map Prod.snd) (by simp)
    · rw [List.length_map]
      exact hlt
    · -- a record with a lower key is behind
      obtain ⟨_, _, hcross⟩ := List.pairwise_append.mp hsorted
      rcases List.mem_append.mp (hperm.mem_iff.mpr hy) with hfront | hrest
      · exact absurd (hcross y hfront x List.mem_cons_self) (hasymm _ _ habove)
      · rcases List.mem_cons.mp hrest with rfl | hback
        · exact absurd habove (hasymm _ _ habove)
        · exact List.mem_map_of_mem hback
  · intro hkeys front r back hl hlt r' hr'
    obtain ⟨front', rest, rfl, rfl, hrest⟩ := List.map_eq_append_iff.mp hl
    obtain ⟨x, back', rfl, rfl, rfl⟩ := List.map_eq_cons_iff.mp hrest
    obtain ⟨y, hy, rfl⟩ := List.mem_map.mp hr'
    rw [List.length_map] at hlt
    apply hkeys x (hperm.mem_iff.mp (by simp))
    · rw [hbefore, before_eq_length hasymm hsorted]
      exact hlt
    · exact hperm.mem_iff.mp (by simp [hy])
    · exact (List.pairwise_cons.mp (List.pairwise_append.mp hsorted).2.1).1 y hy

end Newest
