import Std.Data.ExtTreeMap

/-! # Lookup in maps

    The rules that later proofs use for maps whose comparison decides equality:
    lookup after an insertion, membership as a successful lookup, lookup after a
    copying loop, and the last entry with a property. -/

variable {α β : Type} {cmp : α → α → Ordering} [Std.TransCmp cmp] [Std.LawfulEqCmp cmp]
  {m : Std.ExtTreeMap α β cmp}

theorem getElem?_insert_ite [DecidableEq α] (m : Std.ExtTreeMap α β cmp) (k a : α) (v : β) :
    (m.insert k v)[a]? = if a = k then some v else m[a]? := by
  rw [Std.ExtTreeMap.getElem?_insert]
  by_cases heq : a = k
  · simp [heq]
  · rw [if_neg heq, if_neg]
    intro hcmp
    exact heq (Std.LawfulEqCmp.eq_of_compare hcmp).symm

/-- A value found after an insertion is the new one at its key, or an old one. -/
theorem getElem?_insert_cases {k a : α} {v w : β} (hget : (m.insert k v)[a]? = some w) :
    (a = k ∧ w = v) ∨ (a ≠ k ∧ m[a]? = some w) := by
  classical
  rw [getElem?_insert_ite] at hget
  split at hget
  · rename_i heq
    exact Or.inl ⟨heq, (Option.some.inj hget).symm⟩
  · rename_i hne
    exact Or.inr ⟨hne, hget⟩

omit [Std.LawfulEqCmp cmp] in
theorem mem_of_getElem?_eq_some {a : α} {v : β} (hget : m[a]? = some v) : a ∈ m := by
  rw [Std.ExtTreeMap.mem_iff_isSome_getElem?, hget]
  rfl

omit [Std.LawfulEqCmp cmp] in
theorem exists_getElem?_of_mem {a : α} (hmem : a ∈ m) : ∃ v, m[a]? = some v :=
  ⟨m[a], Std.ExtTreeMap.getElem?_eq_some_getElem hmem⟩

/-! ## Copying

    The loop that copies the entries of one map over those of another, but for the
    entries with some keys. -/

theorem getElem?_foldl_copy_list [DecidableEq α] {skip : α → Prop} [DecidablePred skip]
    {l : List (α × β)} (hnodup : (l.map Prod.fst).Nodup) (m : Std.ExtTreeMap α β cmp) (a : α) :
    (∀ v, (a, v) ∈ l → ¬ skip a →
        (l.foldl (fun m f => if skip f.1 then m else m.insert f.1 f.2) m)[a]? = some v)
      ∧ (skip a ∨ a ∉ l.map Prod.fst →
        (l.foldl (fun m f => if skip f.1 then m else m.insert f.1 f.2) m)[a]? = m[a]?) := by
  induction l generalizing m with
  | nil => simp
  | cons entry rest ih =>
    obtain ⟨k, w⟩ := entry
    rw [List.map_cons, List.nodup_cons] at hnodup
    simp only [List.foldl_cons]
    obtain ⟨hlisted, hother⟩ := ih hnodup.2 (if skip k then m else m.insert k w)
    constructor
    · intro v hmem hkept
      rcases List.mem_cons.mp hmem with heq | hrest
      · cases heq
        rw [hother (Or.inr hnodup.1), if_neg hkept, getElem?_insert_ite, if_pos rfl]
      · exact hlisted v hrest hkept
    · intro hfree
      rw [List.map_cons, List.mem_cons, not_or] at hfree
      rw [hother (hfree.imp_right And.right)]
      split
      · rfl
      · rename_i hkept
        rw [getElem?_insert_ite, if_neg]
        rintro rfl
        rcases hfree with hskip | ⟨hne, _⟩
        · exact hkept hskip
        · exact hne rfl

theorem getElem?_foldl_copy [DecidableEq α] (skip : α → Prop) [DecidablePred skip]
    (src m : Std.ExtTreeMap α β cmp) (a : α) :
    (src.toList.foldl (fun m f => if skip f.1 then m else m.insert f.1 f.2) m)[a]? =
      if skip a then m[a]? else (src[a]?).or m[a]? := by
  have hnodup : (src.toList.map Prod.fst).Nodup := by
    rw [Std.ExtTreeMap.map_fst_toList_eq_keys]
    exact Std.ExtTreeMap.nodup_keys
  obtain ⟨hlisted, hother⟩ := @getElem?_foldl_copy_list _ _ _ _ _ _ skip _ _ hnodup m a
  split
  · rename_i hskip
    exact hother (Or.inl hskip)
  · rename_i hkept
    cases hget : src[a]? with
    | none =>
      rw [hother, Option.none_or]
      refine Or.inr ?_
      rw [Std.ExtTreeMap.map_fst_toList_eq_keys, Std.ExtTreeMap.mem_keys,
        Std.ExtTreeMap.mem_iff_isSome_getElem?, hget]
      simp
    | some v =>
      rw [hlisted v _ hkept, Option.some_or]
      rw [Std.ExtTreeMap.mem_toList_iff_getElem?_eq_some]
      exact hget

/-! ## The last match

    The loop that goes over the entries in the order of their keys and keeps the last
    value with a property. -/

def lastMatch (p : β → Prop) [DecidablePred p] (m : Std.ExtTreeMap α β cmp) : Option β :=
  m.toList.foldl (fun found entry => if p entry.2 then some entry.2 else found) none

omit [Std.LawfulEqCmp cmp] in
theorem cmp_self_ne_lt (a : α) : cmp a a ≠ .lt := by
  have hself : cmp a a = .eq := Std.ReflCmp.compare_self
  rw [hself]
  decide

theorem foldl_lastMatch {α β : Type} {p : β → Prop} [DecidablePred p] {l : List (α × β)}
    {found : Option β} {v : β} :
    l.foldl (fun found entry => if p entry.2 then some entry.2 else found) found = some v ↔
      (∃ front k back, l = front ++ (k, v) :: back ∧ p v ∧ ∀ entry ∈ back, ¬ p entry.2)
        ∨ (found = some v ∧ ∀ entry ∈ l, ¬ p entry.2) := by
  induction l generalizing found with
  | nil => simp
  | cons entry l ih =>
    rw [List.foldl_cons, ih]
    constructor
    · rintro (⟨front, k, back, rfl, hp, hback⟩ | ⟨hfound, hnone⟩)
      · exact .inl ⟨entry :: front, k, back, rfl, hp, hback⟩
      · by_cases hentry : p entry.2
        · rw [if_pos hentry, Option.some.injEq] at hfound
          subst hfound
          exact .inl ⟨[], entry.1, l, rfl, hentry, hnone⟩
        · rw [if_neg hentry] at hfound
          exact .inr ⟨hfound, List.forall_mem_cons.mpr ⟨hentry, hnone⟩⟩
    · rintro (⟨front, k, back, heq, hp, hback⟩ | ⟨hfound, hnone⟩)
      · cases front with
        | nil =>
          obtain ⟨rfl, rfl⟩ := List.cons.inj heq
          exact .inr ⟨if_pos hp, hback⟩
        | cons _ front =>
          obtain ⟨_, rfl⟩ := List.cons.inj heq
          exact .inl ⟨front, k, back, rfl, hp, hback⟩
      · obtain ⟨hentry, hnone⟩ := List.forall_mem_cons.mp hnone
        rw [if_neg hentry]
        exact .inr ⟨hfound, hnone⟩

/-- The value at the greatest key among those with the property. -/
theorem lastMatch_eq_some_iff {p : β → Prop} [DecidablePred p] {v : β} :
    lastMatch p m = some v ↔
      ∃ k, m[k]? = some v ∧ p v ∧ ∀ k' v', m[k']? = some v' → p v' → cmp k k' ≠ .lt := by
  have hmem : ∀ {k : α} {v : β}, (k, v) ∈ m.toList ↔ m[k]? = some v :=
    Std.ExtTreeMap.mem_toList_iff_getElem?_eq_some
  have hsorted : m.toList.Pairwise fun x y => cmp x.1 y.1 = .lt := Std.ExtTreeMap.ordered_keys_toList
  rw [lastMatch, foldl_lastMatch]
  constructor
  · rintro (⟨front, k, back, heq, hp, hback⟩ | ⟨hnone, _⟩)
    · refine ⟨k, hmem.mp (by rw [heq]; simp), hp, ?_⟩
      intro k' v' hget hp' hlt
      rw [heq] at hsorted
      -- a greater key is behind the last match
      have hk' : (k', v') ∈ front ++ (k, v) :: back := heq ▸ hmem.mpr hget
      rcases List.mem_append.mp hk' with hfront | hrest
      · have hbefore := (List.pairwise_append.mp hsorted).2.2 _ hfront _ List.mem_cons_self
        exact absurd hlt (by simp [Std.OrientedCmp.gt_of_lt hbefore])
      · rcases List.mem_cons.mp hrest with hsame | hback'
        · rw [(Prod.mk.inj hsame).1] at hlt
          exact cmp_self_ne_lt k hlt
        · exact hback _ hback' hp'
    · contradiction
  · rintro ⟨k, hget, hp, hlast⟩
    obtain ⟨front, back, heq⟩ := List.append_of_mem (hmem.mpr hget)
    refine .inl ⟨front, k, back, heq, hp, ?_⟩
    rintro ⟨k', v'⟩ hback hp'
    rw [heq] at hsorted
    have hlt := (List.pairwise_cons.mp (List.pairwise_append.mp hsorted).2.1).1 _ hback
    have hget' : m[k']? = some v' := hmem.mp (by rw [heq]; simp [hback])
    exact hlast k' v' hget' hp' hlt

/-- After the found value is replaced by one with the property, that one is found. -/
theorem lastMatch_insert {p : β → Prop} [DecidablePred p] {k : α} {v' : β}
    (hlast : ∀ k' w, m[k']? = some w → p w → cmp k k' ≠ .lt) (hp : p v') :
    lastMatch p (m.insert k v') = some v' := by
  rw [lastMatch_eq_some_iff]
  refine ⟨k, Std.ExtTreeMap.getElem?_insert_self, hp, ?_⟩
  intro k' w hget hw
  rcases getElem?_insert_cases hget with ⟨rfl, _⟩ | ⟨_, hget⟩
  · exact cmp_self_ne_lt k'
  · exact hlast k' w hget hw
