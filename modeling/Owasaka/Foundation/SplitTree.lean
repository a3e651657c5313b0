import Mathlib.Data.Nat.Log
import Mathlib.Tactic.Ring
import Owasaka.Foundation.HashTree

/-! # Left-balanced split trees

    The hash tree over a list of `n ≥ 2` leaves splits at the largest power of
    two below `n`.  The module gives

    * the split point and the tree of a list,
    * the position of a leaf in that tree: its sides and siblings, deepest
      first, and that these are exactly the audit paths of the tree,
    * `levelSides`, the bottom-up walk over (position, last position) pairs,
      and that it finds the sides of the top-down split. -/

namespace HashTree

/-! ## Section 1: The split point -/

/-- The largest power of two below `n`, for `n ≥ 2`. -/
def split (n : Nat) : Nat := 2 ^ Nat.log 2 (n - 1)

/-- The split point is the power of two `2 ^ e` with `2 ^ e < n ≤ 2 ^ (e + 1)`. -/
theorem split_spec {n : Nat} (hn : 2 ≤ n) :
    ∃ e, split n = 2 ^ e ∧ 2 ^ e < n ∧ n ≤ 2 ^ (e + 1) := by
  refine ⟨Nat.log 2 (n - 1), rfl, ?_, ?_⟩
  · have := Nat.pow_log_le_self 2 (x := n - 1) (by omega)
    omega
  · have := Nat.lt_pow_succ_log_self (b := 2) (by omega) (n - 1)
    simp only [Nat.succ_eq_add_one] at this
    omega

theorem split_eq {n e : Nat} (hlo : 2 ^ e < n) (hhi : n ≤ 2 ^ (e + 1)) :
    split n = 2 ^ e := by
  unfold split
  rw [Nat.log_eq_of_pow_le_of_lt_pow (m := e) (by omega) (by omega)]

theorem split_lt {n : Nat} (hn : 2 ≤ n) : split n < n := by
  obtain ⟨e, he, hlo, _⟩ := split_spec hn
  omega

theorem split_pos (n : Nat) : 0 < split n := Nat.two_pow_pos _

/-- A size between the split point of `n` and `n` has the same split point. -/
theorem split_stable {m n : Nat} (hn : 2 ≤ n) (hlo : split n < m) (hhi : m ≤ n) :
    split m = split n := by
  obtain ⟨e, he, _, hn'⟩ := split_spec hn
  rw [he] at hlo ⊢
  exact split_eq hlo (by omega)

/-! ## Section 2: The tree of a list -/

section
variable {α : Type _}

/-- The split tree over `D`; the empty list is the single leaf `e`. -/
def ofList (e : α) (D : List α) : Tree α :=
  if 2 ≤ D.length then
    .node (ofList e (D.take (split D.length))) (ofList e (D.drop (split D.length)))
  else
    .leaf (D.headD e)
termination_by D.length
decreasing_by
  · have := split_lt ‹2 ≤ D.length›
    simp only [List.length_take]; omega
  · have := split_pos D.length
    simp only [List.length_drop]; omega

theorem ofList_of_le_one (e : α) {D : List α} (hD : D.length ≤ 1) :
    ofList e D = .leaf (D.headD e) := by
  rw [ofList, if_neg (by omega)]

theorem ofList_of_two_le (e : α) {D : List α} (hD : 2 ≤ D.length) :
    ofList e D = .node (ofList e (D.take (split D.length)))
      (ofList e (D.drop (split D.length))) := by
  rw [ofList, if_pos hD]

@[simp] theorem ofList_singleton (e a : α) : ofList e [a] = .leaf a := by
  rw [ofList_of_le_one e (by simp)]; rfl

/-- Lengths of the two halves of a list that is long enough to be split. -/
theorem length_halves {D : List α} (hD : 2 ≤ D.length) :
    (D.take (split D.length)).length = split D.length
      ∧ (D.drop (split D.length)).length = D.length - split D.length := by
  have := split_lt hD
  constructor
  · rw [List.length_take]; omega
  · rw [List.length_drop]

theorem halves_ne_nil {D : List α} (hD : 2 ≤ D.length) :
    D.take (split D.length) ≠ [] ∧ D.drop (split D.length) ≠ [] := by
  obtain ⟨hlen, hlen'⟩ := length_halves hD
  have hlt := split_lt hD
  have hpos := split_pos D.length
  constructor
  · exact List.ne_nil_of_length_pos (by omega)
  · exact List.ne_nil_of_length_pos (by omega)

/-- Induction over the split of a non-empty list. -/
theorem splitInduction {motive : List α → Prop}
    (single : ∀ a, motive [a])
    (step : ∀ D : List α, 2 ≤ D.length → motive (D.take (split D.length)) →
      motive (D.drop (split D.length)) → motive D) :
    ∀ D : List α, D ≠ [] → motive D := by
  intro D
  induction hn : D.length using Nat.strong_induction_on generalizing D with
  | _ n ih =>
    intro hne
    rcases D with _ | ⟨a, _ | ⟨b, D⟩⟩
    · exact absurd rfl hne
    · exact single a
    · have h2 : 2 ≤ (a :: b :: D).length := by simp
      have hlt := split_lt h2
      have hpos := split_pos (a :: b :: D).length
      obtain ⟨hlen, hlen'⟩ := length_halves h2
      obtain ⟨hne, hne'⟩ := halves_ne_nil h2
      exact step _ h2 (ih _ (by omega) _ rfl hne) (ih _ (by omega) _ rfl hne')

theorem leaves_ofList (e : α) : ∀ D : List α, D ≠ [] → leaves (ofList e D) = D := by
  apply splitInduction
  · intro a
    simp [leaves]
  · intro D hD ihl ihr
    rw [ofList_of_two_le e hD, leaves, ihl, ihr, List.take_append_drop]

/-! ## Section 3: Positions -/

/-- The sides of leaf `m` in a split tree of `n` leaves, deepest first. -/
def sides (m n : Nat) : List Side :=
  if 2 ≤ n then
    if m < split n then sides m (split n) ++ [.left]
    else sides (m - split n) (n - split n) ++ [.right]
  else []
termination_by n
decreasing_by
  · exact split_lt ‹2 ≤ n›
  · have := split_pos n; omega

variable (h : α → α → α) (e : α)

/-- The siblings on the way from leaf `m` to the root, deepest first. -/
def siblings (m : Nat) (D : List α) : List α :=
  if 2 ≤ D.length then
    if m < split D.length then
      siblings m (D.take (split D.length)) ++ [root h (ofList e (D.drop (split D.length)))]
    else
      siblings (m - split D.length) (D.drop (split D.length))
        ++ [root h (ofList e (D.take (split D.length)))]
  else []
termination_by D.length
decreasing_by
  · have := split_lt ‹2 ≤ D.length›
    simp only [List.length_take]; omega
  · have := split_pos D.length
    simp only [List.length_drop]; omega

theorem sides_of_le_one (m : Nat) {n : Nat} (hn : n ≤ 1) : sides m n = [] := by
  rw [sides, if_neg (by omega)]

theorem sides_left {m n : Nat} (hn : 2 ≤ n) (hm : m < split n) :
    sides m n = sides m (split n) ++ [.left] := by
  rw [sides, if_pos hn, if_pos hm]

theorem sides_right {m n : Nat} (hn : 2 ≤ n) (hm : split n ≤ m) :
    sides m n = sides (m - split n) (n - split n) ++ [.right] := by
  rw [sides, if_pos hn, if_neg (by omega)]

theorem siblings_of_le_one (m : Nat) {D : List α} (hD : D.length ≤ 1) :
    siblings h e m D = [] := by
  rw [siblings, if_neg (by omega)]

theorem siblings_left {m : Nat} {D : List α} (hD : 2 ≤ D.length)
    (hm : m < split D.length) :
    siblings h e m D = siblings h e m (D.take (split D.length))
      ++ [root h (ofList e (D.drop (split D.length)))] := by
  rw [siblings, if_pos hD, if_pos hm]

theorem siblings_right {m : Nat} {D : List α} (hD : 2 ≤ D.length)
    (hm : split D.length ≤ m) :
    siblings h e m D = siblings h e (m - split D.length) (D.drop (split D.length))
      ++ [root h (ofList e (D.take (split D.length)))] := by
  rw [siblings, if_pos hD, if_neg (by omega)]

theorem length_siblings : ∀ D : List α, D ≠ [] →
    ∀ m, m < D.length → (siblings h e m D).length = (sides m D.length).length := by
  apply splitInduction
  · intro a m _
    rw [siblings_of_le_one h e m (by simp), sides_of_le_one m (by simp)]
    rfl
  · intro D hD ihl ihr m hm
    obtain ⟨hlen, hlen'⟩ := length_halves hD
    rw [hlen] at ihl
    rw [hlen'] at ihr
    by_cases hk : m < split D.length
    · rw [siblings_left h e hD hk, sides_left hD hk]
      simp [ihl m hk]
    · have hk : split D.length ≤ m := by omega
      rw [siblings_right h e hD hk, sides_right hD hk]
      simp [ihr (m - split D.length) (by omega)]

/-- Zipping two lists that grow by one entry at the end. -/
theorem zip_concat {β : Type _} {s : List β} {t : List α} (hlen : t.length = s.length)
    (x : β) (y : α) : (s ++ [x]).zip (t ++ [y]) = s.zip t ++ [(x, y)] := by
  rw [List.zip_append hlen.symm]; rfl

/-- The position of every leaf is an audit path of the tree. -/
theorem auditPath_siblings : ∀ D : List α, D ≠ [] → ∀ m a, D[m]? = some a →
    AuditPath h (ofList e D) ((sides m D.length).zip (siblings h e m D)) a := by
  apply splitInduction
  · intro a m b hb
    have hm : m = 0 := by
      have := (List.getElem?_eq_some_iff.mp hb).1
      simp at this; exact this
    subst hm
    simp only [List.getElem?_cons_zero, Option.some.injEq] at hb
    subst hb
    rw [sides_of_le_one 0 (by simp), ofList_singleton]
    exact AuditPath.leaf _
  · intro D hD ihl ihr m a ha
    have hm : m < D.length := (List.getElem?_eq_some_iff.mp ha).1
    have hlt := split_lt hD
    have hpos := split_pos D.length
    obtain ⟨hlen, hlen'⟩ := length_halves hD
    obtain ⟨hne, hne'⟩ := halves_ne_nil hD
    rw [ofList_of_two_le e hD]
    by_cases hk : m < split D.length
    · -- in the left half, the top sibling is the right half
      have hsib := length_siblings h e _ hne m (by omega)
      rw [hlen] at ihl hsib
      rw [sides_left hD hk, siblings_left h e hD hk, zip_concat hsib]
      exact AuditPath.left (ihl m a (by rw [List.getElem?_take_of_lt hk]; exact ha))
    · have hk : split D.length ≤ m := by omega
      have hsib := length_siblings h e _ hne' (m - split D.length) (by omega)
      rw [hlen'] at ihr hsib
      rw [sides_right hD hk, siblings_right h e hD hk, zip_concat hsib]
      refine AuditPath.right (ihr (m - split D.length) a ?_)
      rw [List.getElem?_drop, Nat.add_sub_cancel' hk]
      exact ha

/-- Every audit path of the tree is the position of some leaf. -/
theorem exists_of_auditPath : ∀ D : List α, D ≠ [] → ∀ ss a,
    AuditPath h (ofList e D) ss a →
    ∃ m, D[m]? = some a ∧ ss = (sides m D.length).zip (siblings h e m D) := by
  apply splitInduction
  · intro b ss a hp
    rw [ofList_singleton] at hp
    cases hp with
    | leaf => exact ⟨0, rfl, by rw [sides_of_le_one 0 (by simp)]; rfl⟩
  · intro D hD ihl ihr ss a hp
    have hlt := split_lt hD
    have hpos := split_pos D.length
    obtain ⟨hlen, hlen'⟩ := length_halves hD
    obtain ⟨hne, hne'⟩ := halves_ne_nil hD
    rw [ofList_of_two_le e hD] at hp
    cases hp with
    | left hp =>
      obtain ⟨m, ha, rfl⟩ := ihl _ _ hp
      have hm : m < split D.length := by
        have := (List.getElem?_eq_some_iff.mp ha).1; omega
      have hsib := length_siblings h e _ hne m (by omega)
      rw [hlen] at hsib
      refine ⟨m, by rwa [List.getElem?_take_of_lt hm] at ha, ?_⟩
      rw [sides_left hD hm, siblings_left h e hD hm, zip_concat hsib, hlen]
    | right hp =>
      obtain ⟨m, ha, rfl⟩ := ihr _ _ hp
      have hm : m < D.length - split D.length := by
        have := (List.getElem?_eq_some_iff.mp ha).1; omega
      have hsib := length_siblings h e _ hne' m (by omega)
      rw [hlen'] at hsib
      have hk : split D.length ≤ split D.length + m := by omega
      have hsub : split D.length + m - split D.length = m := by omega
      refine ⟨split D.length + m, by rwa [List.getElem?_drop] at ha, ?_⟩
      rw [sides_right hD hk, siblings_right h e hD hk, hsub, zip_concat hsib, hlen']

end

/-- Different leaves have different sides. -/
theorem sides_injective : ∀ n m m', m < n → m' < n → sides m n = sides m' n → m = m' := by
  intro n
  induction n using Nat.strong_induction_on with
  | _ n ih =>
    intro m m' hm hm' heq
    by_cases hn : 2 ≤ n
    · have hlt := split_lt hn
      have hpos := split_pos n
      -- the last side tells the halves apart
      by_cases hk : m < split n <;> by_cases hk' : m' < split n
      · rw [sides_left hn hk, sides_left hn hk'] at heq
        exact ih _ hlt m m' hk hk' (List.append_cancel_right heq)
      · rw [sides_left hn hk, sides_right hn (by omega)] at heq
        have := (List.append_inj' heq rfl).2
        simp at this
      · rw [sides_right hn (by omega), sides_left hn hk'] at heq
        have := (List.append_inj' heq rfl).2
        simp at this
      · rw [sides_right hn (by omega), sides_right hn (by omega)] at heq
        have := ih (n - split n) (by omega) (m - split n) (m' - split n) (by omega) (by omega)
          (List.append_cancel_right heq)
        omega
    · omega

/-! ## Section 4: The bottom-up walk

    `levelSides fn sn` walks the levels of a tree from position `fn` of the
    lowest level, whose last position is `sn`.  A right child climbs with its
    left sibling, an inner left child with its right sibling, and the last
    node of a level that is a left child has no sibling and moves up alone. -/

def levelSides (fn sn : Nat) : List Side :=
  if sn = 0 then []
  else if fn % 2 = 1 then .right :: levelSides (fn / 2) (sn / 2)
  else if fn < sn then .left :: levelSides (fn / 2) (sn / 2)
  else levelSides (fn / 2) (sn / 2)
termination_by sn
decreasing_by all_goals omega

@[simp] theorem levelSides_zero (fn : Nat) : levelSides fn 0 = [] := by
  rw [levelSides, if_pos rfl]

theorem levelSides_odd {fn sn : Nat} (hs : sn ≠ 0) (ho : fn % 2 = 1) :
    levelSides fn sn = .right :: levelSides (fn / 2) (sn / 2) := by
  rw [levelSides, if_neg hs, if_pos ho]

theorem levelSides_inner {fn sn : Nat} (ho : fn % 2 = 0) (hlt : fn < sn) :
    levelSides fn sn = .left :: levelSides (fn / 2) (sn / 2) := by
  rw [levelSides, if_neg (by omega), if_neg (by omega), if_pos hlt]

theorem levelSides_last {fn sn : Nat} (ho : fn % 2 = 0) (hge : sn ≤ fn) :
    levelSides fn sn = levelSides (fn / 2) (sn / 2) := by
  by_cases hs : sn = 0
  · subst hs; simp
  · rw [levelSides, if_neg hs, if_neg (by omega), if_neg (by omega)]

/-- Below a complete left subtree of `2 ^ e` leaves the walk does not see the
    leaves to the right of it; then it takes one step to the left. -/
theorem levelSides_left : ∀ (e fn sn : Nat), fn < 2 ^ e → 2 ^ e ≤ sn → sn < 2 ^ (e + 1) →
    levelSides fn sn = levelSides fn (2 ^ e - 1) ++ [.left] := by
  intro e
  induction e with
  | zero =>
    intro fn sn hfn hlo hhi
    have hfn : fn = 0 := by omega
    have hsn : sn = 1 := by omega
    subst hfn; subst hsn
    rw [levelSides_inner (by omega) (by omega)]
    simp
  | succ e ih =>
    intro fn sn hfn hlo hhi
    have hpow : 2 ^ (e + 1) = 2 * 2 ^ e := Nat.pow_succ'
    have hpow' : 2 ^ (e + 1 + 1) = 2 * 2 ^ (e + 1) := Nat.pow_succ'
    have hpos : 0 < 2 ^ e := Nat.two_pow_pos e
    have hhalf : (2 ^ (e + 1) - 1) / 2 = 2 ^ e - 1 := by omega
    -- one level up the left subtree has `2 ^ e` leaves
    have hup := ih (fn / 2) (sn / 2) (by omega) (by omega) (by omega)
    rcases Nat.mod_two_eq_zero_or_one fn with ho | ho
    · rw [levelSides_inner ho (by omega), levelSides_inner ho (by omega), hup, hhalf]
      rfl
    · rw [levelSides_odd (by omega) ho, levelSides_odd (by omega) ho, hup, hhalf]
      rfl

/-- A complete left subtree in front shifts all positions and adds one step to
    the right at the end. -/
theorem levelSides_right : ∀ (e fn sn : Nat), fn ≤ sn → sn < 2 ^ e →
    levelSides (fn + 2 ^ e) (sn + 2 ^ e) = levelSides fn sn ++ [.right] := by
  intro e
  induction e with
  | zero =>
    intro fn sn hfn hsn
    have hsn : sn = 0 := by omega
    have hfn : fn = 0 := by omega
    subst hfn; subst hsn
    rw [levelSides_odd (by omega) (by omega)]
    simp
  | succ e ih =>
    intro fn sn hfn hsn
    have hpow : 2 ^ (e + 1) = 2 * 2 ^ e := Nat.pow_succ'
    have hpos : 0 < 2 ^ e := Nat.two_pow_pos e
    have hfn' : (fn + 2 ^ (e + 1)) / 2 = fn / 2 + 2 ^ e := by omega
    have hsn' : (sn + 2 ^ (e + 1)) / 2 = sn / 2 + 2 ^ e := by omega
    have hup := ih (fn / 2) (sn / 2) (by omega) (by omega)
    -- the shift by an even number keeps the parity, so both walks take one branch
    rcases Nat.mod_two_eq_zero_or_one fn with ho | ho
    · by_cases hlt : fn < sn
      · rw [levelSides_inner (by omega) (by omega), levelSides_inner ho hlt, hfn', hsn', hup]
        rfl
      · rw [levelSides_last (by omega) (by omega), levelSides_last ho (by omega), hfn', hsn', hup]
    · rw [levelSides_odd (by omega) (by omega), levelSides_odd (by omega) ho, hfn', hsn', hup]
      rfl

/-- The bottom-up walk finds the sides of the top-down split. -/
theorem levelSides_eq_sides : ∀ (n m : Nat), m < n → levelSides m (n - 1) = sides m n := by
  intro n
  induction n using Nat.strong_induction_on with
  | _ n ih =>
    intro m hm
    by_cases hn : 2 ≤ n
    · obtain ⟨e, he, hlo, hhi⟩ := split_spec hn
      -- `split n` is `2 ^ e`: each half of the split is one of the two lemmas
      by_cases hk : m < split n
      · rw [sides_left hn hk, ← ih _ (split_lt hn) m hk, he]
        rw [he] at hk
        exact levelSides_left e m (n - 1) hk (by omega) (by omega)
      · have hpos := split_pos n
        rw [sides_right hn (by omega), ← ih (n - split n) (by omega) (m - split n) (by omega), he]
        rw [he] at hk
        have hpow : 2 ^ (e + 1) = 2 * 2 ^ e := Nat.pow_succ'
        have hwalk := levelSides_right e (m - 2 ^ e) (n - 2 ^ e - 1) (by omega) (by omega)
        rw [show m - 2 ^ e + 2 ^ e = m from by omega,
          show n - 2 ^ e - 1 + 2 ^ e = n - 1 from by omega] at hwalk
        exact hwalk
    · rw [sides_of_le_one m (by omega), show n - 1 = 0 from by omega, levelSides_zero]

end HashTree
