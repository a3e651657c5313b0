import Mathlib.Data.List.Nodup
import Owasaka.Foundation.Lookup

/-! # The entries of a map in any order

    A loop over a map visits its entries in an order that is not known.  Where each value
    tells the key that it is under, the values in any order determine the map, also when
    they are read through a function that keeps the key. -/

/-- An order of iteration. -/
structure Visit (α : Type) where
  list : List α → List α
  perm : ∀ l, (list l).Perm l

/-- The entries as they stand in the map. -/
def Visit.sorted (α : Type) : Visit α := ⟨id, List.Perm.refl⟩

variable {α β : Type} {cmp : α → α → Ordering} [Std.TransCmp cmp] [Std.LawfulEqCmp cmp]

/-- The values of a map. -/
def valuesOf (m : Std.ExtTreeMap α β cmp) : List β := m.toList.map Prod.snd

variable {γ : Type} {f : β → γ} {key : γ → α} {m m' : Std.ExtTreeMap α β cmp}

theorem mem_map_valuesOf (hkey : ∀ k v, m[k]? = some v → key (f v) = k) {w : γ} :
    w ∈ (valuesOf m).map f ↔ (m[key w]?).map f = some w := by
  have hmem : ∀ {k : α} {v : β}, (k, v) ∈ m.toList ↔ m[k]? = some v :=
    Std.ExtTreeMap.mem_toList_iff_getElem?_eq_some
  constructor
  · intro hw
    obtain ⟨v, hv, rfl⟩ := List.mem_map.mp hw
    obtain ⟨⟨k, v⟩, hentry, rfl⟩ := List.mem_map.mp hv
    have hget := hmem.mp hentry
    rw [hkey k v hget, hget]
    rfl
  · intro hget
    obtain ⟨v, hv, hf⟩ := Option.map_eq_some_iff.mp hget
    exact List.mem_map.mpr ⟨v, List.mem_map.mpr ⟨(key w, v), hmem.mpr hv, rfl⟩, hf⟩

theorem nodup_map_valuesOf (hkey : ∀ k v, m[k]? = some v → key (f v) = k) :
    ((valuesOf m).map f).Nodup := by
  apply List.Nodup.of_map key
  have hkeys : ((valuesOf m).map f).map key = m.toList.map Prod.fst := by
    unfold valuesOf
    rw [List.map_map, List.map_map]
    apply List.map_congr_left
    intro entry hentry
    exact hkey entry.1 entry.2 (Std.ExtTreeMap.mem_toList_iff_getElem?_eq_some.mp hentry)
  rw [hkeys, Std.ExtTreeMap.map_fst_toList_eq_keys]
  exact Std.ExtTreeMap.nodup_keys

variable (f key) in
/-- The values agree up to their order if and only if the maps agree. -/
theorem map_valuesOf_perm_iff (hkey : ∀ k v, m[k]? = some v → key (f v) = k)
    (hkey' : ∀ k v, m'[k]? = some v → key (f v) = k) :
    ((valuesOf m).map f).Perm ((valuesOf m').map f) ↔ ∀ k : α, (m[k]?).map f = (m'[k]?).map f := by
  rw [List.perm_ext_iff_of_nodup (nodup_map_valuesOf hkey) (nodup_map_valuesOf hkey')]
  have hfound : ∀ {m : Std.ExtTreeMap α β cmp}, (∀ (k : α) (v : β), m[k]? = some v → key (f v) = k) →
      ∀ {k : α} {w : γ}, (m[k]?).map f = some w → key w = k := by
    intro m hkey k w hget
    obtain ⟨v, hv, rfl⟩ := Option.map_eq_some_iff.mp hget
    exact hkey k v hv
  constructor
  · intro hmem k
    apply Option.ext
    intro w
    have hw := hmem w
    rw [mem_map_valuesOf hkey, mem_map_valuesOf hkey'] at hw
    constructor
    · intro hget
      have hk := hfound hkey hget
      subst hk
      exact hw.mp hget
    · intro hget
      have hk := hfound hkey' hget
      subst hk
      exact hw.mpr hget
  · intro hagree w
    rw [mem_map_valuesOf hkey, mem_map_valuesOf hkey', hagree]

/-- The keys that the values tell are those of the map. -/
theorem map_key_valuesOf {key : β → α} (hkey : ∀ k v, m[k]? = some v → key v = k) :
    (valuesOf m).map key = m.keys := by
  unfold valuesOf
  rw [← Std.ExtTreeMap.map_fst_toList_eq_keys, List.map_map]
  apply List.map_congr_left
  intro entry hentry
  exact hkey entry.1 entry.2 (Std.ExtTreeMap.mem_toList_iff_getElem?_eq_some.mp hentry)

/-- What was there and what is there only now make up what is there now. -/
theorem append_filter_perm [DecidableEq α] {old now : List α} (hold : old.Nodup) (hnow : now.Nodup)
    (hsub : old ⊆ now) : (old ++ now.filter fun k => k ∉ old).Perm now := by
  have hnodup : (old ++ now.filter fun k => k ∉ old).Nodup := by
    rw [List.nodup_append]
    refine ⟨hold, hnow.filter _, ?_⟩
    intro k hk k' hk' heq
    have hnot := (List.mem_filter.mp hk').2
    rw [← heq] at hnot
    exact absurd hk (of_decide_eq_true hnot)
  rw [List.perm_ext_iff_of_nodup hnodup hnow]
  intro k
  simp only [List.mem_append, List.mem_filter, decide_eq_true_eq]
  constructor
  · intro h
    rcases h with h | h
    · exact hsub h
    · exact h.1
  · intro h
    by_cases hk : k ∈ old
    · exact Or.inl hk
    · exact Or.inr ⟨h, hk⟩
