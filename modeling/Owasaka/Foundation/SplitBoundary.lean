import Owasaka.Foundation.SplitTree

/-! # The boundary of a prefix in a split tree

    The first `m` leaves of a split tree end in a complete subtree, the
    *sealed* subtree, that both the tree of the `m` leaves and the whole tree
    contain.  From it one list of steps leads to both roots: the whole tree
    takes every step, the smaller tree only those with a left sibling.

    * `climb_boundary`: with the siblings of the tree the two climbs reproduce
      the two roots.
    * `prefix_of_boundary_climb`: if the two climbs reproduce the roots of two
      lists, the first list is a prefix of the second, unless `h` collides on
      the inputs of the run.
    * `sealedSides_eq`: the bottom-up walk finds the steps. -/

namespace HashTree

/-! ## Section 1: Steps from the sealed subtree -/

/-- The sides of the sealed subtree of the first `m` leaves, deepest first. -/
def boundarySides (m n : Nat) : List Side :=
  if 2 ≤ n ∧ m < n then
    if m ≤ split n then boundarySides m (split n) ++ [.left]
    else boundarySides (m - split n) (n - split n) ++ [.right]
  else []
termination_by n
decreasing_by
  · have := split_lt (n := n) (by omega)
    omega
  · have := split_pos n; omega

section
variable {α : Type _} (h : α → α → α) (e : α)

/-- The siblings of the sealed subtree and of its ancestors, deepest first. -/
def boundarySiblings (m : Nat) (D : List α) : List α :=
  if 2 ≤ D.length ∧ m < D.length then
    if m ≤ split D.length then
      boundarySiblings m (D.take (split D.length))
        ++ [root h (ofList e (D.drop (split D.length)))]
    else
      boundarySiblings (m - split D.length) (D.drop (split D.length))
        ++ [root h (ofList e (D.take (split D.length)))]
  else []
termination_by D.length
decreasing_by
  · have := split_lt (n := D.length) (by omega)
    simp only [List.length_take]; omega
  · have := split_pos D.length
    simp only [List.length_drop]; omega

/-- The root of the sealed subtree. -/
def boundarySeed (m : Nat) (D : List α) : α :=
  if 2 ≤ D.length ∧ m < D.length then
    if m ≤ split D.length then boundarySeed m (D.take (split D.length))
    else boundarySeed (m - split D.length) (D.drop (split D.length))
  else root h (ofList e D)
termination_by D.length
decreasing_by
  · have := split_lt (n := D.length) (by omega)
    simp only [List.length_take]; omega
  · have := split_pos D.length
    simp only [List.length_drop]; omega

/-- The steps that the smaller tree takes. -/
def rightSteps (ss : List (Step α)) : List (Step α) :=
  ss.filter (fun s => s.1 = .right)

@[simp] theorem rightSteps_nil : rightSteps ([] : List (Step α)) = [] := rfl

@[simp] theorem rightSteps_concat_left (ss : List (Step α)) (p : α) :
    rightSteps (ss ++ [(.left, p)]) = rightSteps ss := by
  simp [rightSteps]

@[simp] theorem rightSteps_concat_right (ss : List (Step α)) (p : α) :
    rightSteps (ss ++ [(.right, p)]) = rightSteps ss ++ [(.right, p)] := by
  simp [rightSteps]

@[simp] theorem rightSteps_cons_left (ss : List (Step α)) (p : α) :
    rightSteps ((.left, p) :: ss) = rightSteps ss := by
  simp [rightSteps]

@[simp] theorem rightSteps_cons_right (ss : List (Step α)) (p : α) :
    rightSteps ((.right, p) :: ss) = (.right, p) :: rightSteps ss := by
  simp [rightSteps]

theorem boundarySides_self (n : Nat) : boundarySides n n = [] := by
  rw [boundarySides, if_neg (by omega)]

theorem boundarySides_left {m n : Nat} (hn : 2 ≤ n) (hm : m ≤ split n) :
    boundarySides m n = boundarySides m (split n) ++ [.left] := by
  have := split_lt hn
  rw [boundarySides, if_pos ⟨hn, by omega⟩, if_pos hm]

theorem boundarySides_right {m n : Nat} (hn : 2 ≤ n) (hm : split n < m) (hmn : m < n) :
    boundarySides m n = boundarySides (m - split n) (n - split n) ++ [.right] := by
  rw [boundarySides, if_pos ⟨hn, hmn⟩, if_neg (by omega)]

theorem boundarySiblings_self {m : Nat} {D : List α} (hm : D.length ≤ m) :
    boundarySiblings h e m D = [] := by
  rw [boundarySiblings, if_neg (by omega)]

theorem boundarySiblings_left {m : Nat} {D : List α} (hD : 2 ≤ D.length)
    (hm : m ≤ split D.length) :
    boundarySiblings h e m D = boundarySiblings h e m (D.take (split D.length))
      ++ [root h (ofList e (D.drop (split D.length)))] := by
  have := split_lt hD
  rw [boundarySiblings, if_pos ⟨hD, by omega⟩, if_pos hm]

theorem boundarySiblings_right {m : Nat} {D : List α} (hD : 2 ≤ D.length)
    (hm : split D.length < m) (hmn : m < D.length) :
    boundarySiblings h e m D
      = boundarySiblings h e (m - split D.length) (D.drop (split D.length))
        ++ [root h (ofList e (D.take (split D.length)))] := by
  rw [boundarySiblings, if_pos ⟨hD, hmn⟩, if_neg (by omega)]

theorem boundarySeed_self {m : Nat} {D : List α} (hm : D.length ≤ m) :
    boundarySeed h e m D = root h (ofList e D) := by
  rw [boundarySeed, if_neg (by omega)]

theorem boundarySeed_left {m : Nat} {D : List α} (hD : 2 ≤ D.length)
    (hm : m ≤ split D.length) :
    boundarySeed h e m D = boundarySeed h e m (D.take (split D.length)) := by
  have := split_lt hD
  rw [boundarySeed, if_pos ⟨hD, by omega⟩, if_pos hm]

theorem boundarySeed_right {m : Nat} {D : List α} (hD : 2 ≤ D.length)
    (hm : split D.length < m) (hmn : m < D.length) :
    boundarySeed h e m D
      = boundarySeed h e (m - split D.length) (D.drop (split D.length)) := by
  rw [boundarySeed, if_pos ⟨hD, hmn⟩, if_neg (by omega)]

/-! ## Section 2: Completeness -/

theorem length_boundarySiblings : ∀ D : List α, D ≠ [] → ∀ m, m ≤ D.length →
    (boundarySiblings h e m D).length = (boundarySides m D.length).length := by
  apply splitInduction
  · intro a m _
    rw [boundarySiblings, if_neg (by simp), boundarySides, if_neg (by simp)]
    rfl
  · intro D hD ihl ihr m hm
    obtain ⟨hlen, hlen'⟩ := length_halves hD
    rw [hlen] at ihl
    rw [hlen'] at ihr
    by_cases hk : m ≤ split D.length
    · rw [boundarySiblings_left h e hD hk, boundarySides_left hD hk]
      simp [ihl m hk]
    · rcases Nat.lt_or_eq_of_le hm with hm | rfl
      · rw [boundarySiblings_right h e hD (by omega) hm, boundarySides_right hD (by omega) hm]
        simp [ihr (m - split D.length) (by omega)]
      · rw [boundarySiblings_self h e (Nat.le_refl _), boundarySides_self]
        rfl

/-- The tree of a prefix that is longer than the left half shares that half. -/
theorem ofList_take_of_split_lt {m : Nat} {D : List α} (hD : 2 ≤ D.length)
    (hm : split D.length < m) (hmn : m ≤ D.length) :
    ofList e (D.take m) = .node (ofList e (D.take (split D.length)))
      (ofList e ((D.drop (split D.length)).take (m - split D.length))) := by
  have hpos := split_pos D.length
  have hlen : (D.take m).length = m := by rw [List.length_take]; omega
  rw [ofList_of_two_le e (by omega), hlen, split_stable hD hm hmn, List.take_take,
    List.drop_take, Nat.min_eq_left (by omega)]

/-- The steps of the tree lead from the sealed subtree to both roots. -/
theorem climb_boundary : ∀ D : List α, D ≠ [] → ∀ m, 1 ≤ m → m ≤ D.length →
    climb h (boundarySeed h e m D)
        ((boundarySides m D.length).zip (boundarySiblings h e m D))
      = root h (ofList e D)
    ∧ climb h (boundarySeed h e m D)
        (rightSteps ((boundarySides m D.length).zip (boundarySiblings h e m D)))
      = root h (ofList e (D.take m)) := by
  apply splitInduction
  · intro a m hm hm'
    have hm : m = 1 := by simp at hm'; omega
    subst hm
    rw [boundarySeed_self h e (by simp), boundarySides, if_neg (by simp)]
    simp
  · intro D hD ihl ihr m hm hmn
    obtain ⟨hlen, hlen'⟩ := length_halves hD
    obtain ⟨hne, hne'⟩ := halves_ne_nil hD
    have hlt := split_lt hD
    have hpos := split_pos D.length
    by_cases hk : m ≤ split D.length
    · -- the smaller tree lies in the left half and skips the top step
      obtain ⟨ihroot, ihpre⟩ := ihl m hm (by omega)
      have hsib := length_boundarySiblings h e _ hne m (by omega)
      rw [hlen] at ihroot ihpre hsib
      rw [boundarySeed_left h e hD hk, boundarySides_left hD hk,
        boundarySiblings_left h e hD hk, zip_concat hsib]
      constructor
      · rw [climb_concat, ihroot, ofList_of_two_le e hD]
        rfl
      · rw [rightSteps_concat_left, ihpre, List.take_take, Nat.min_eq_left hk]
    · rcases Nat.lt_or_eq_of_le hmn with hlast | rfl
      · -- both trees have the whole left half as the top sibling
        obtain ⟨ihroot, ihpre⟩ := ihr (m - split D.length) (by omega) (by omega)
        have hsib := length_boundarySiblings h e _ hne' (m - split D.length) (by omega)
        rw [hlen'] at ihroot ihpre hsib
        rw [boundarySeed_right h e hD (by omega) hlast,
          boundarySides_right hD (by omega) hlast,
          boundarySiblings_right h e hD (by omega) hlast, zip_concat hsib]
        constructor
        · rw [climb_concat, ihroot, ofList_of_two_le e hD]
          rfl
        · rw [rightSteps_concat_right, climb_concat, ihpre,
            ofList_take_of_split_lt e hD (by omega) hmn]
          rfl
      · rw [boundarySeed_self h e (Nat.le_refl _), boundarySides_self]
        simp

/-! ## Section 3: Soundness -/

theorem eq_concat_of_length_eq {β : Type _} {t : List α} {s : List β} {x : β}
    (hlen : t.length = (s ++ [x]).length) :
    ∃ t₀ y, t = t₀ ++ [y] ∧ t₀.length = s.length := by
  rcases List.eq_nil_or_concat t with rfl | ⟨t₀, y, rfl⟩
  · simp at hlen
  · exact ⟨t₀, y, List.concat_eq_append, by simpa using hlen⟩

variable {C : Set (α × α)}

/-- Lists of one length with one root are equal, unless `h` collides. -/
theorem eq_of_root_eq (hinj : Set.InjOn (Function.uncurry h) C) :
    ∀ D : List α, D ≠ [] → ∀ D' : List α, D'.length = D.length →
      (∀ p ∈ calls h (ofList e D), p ∈ C) → (∀ p ∈ calls h (ofList e D'), p ∈ C) →
      root h (ofList e D) = root h (ofList e D') → D = D' := by
  apply splitInduction
  · intro a D' hlen _ _ heq
    obtain ⟨b, rfl⟩ := List.length_eq_one_iff.mp (show D'.length = 1 by simpa using hlen)
    simp only [ofList_singleton] at heq
    have hab : a = b := heq
    rw [hab]
  · intro D hD ihl ihr D' hlen hC hC' heq
    have hD' : 2 ≤ D'.length := by omega
    obtain ⟨hl, hr⟩ := length_halves hD
    obtain ⟨hl', hr'⟩ := length_halves hD'
    rw [ofList_of_two_le e hD] at hC heq
    rw [ofList_of_two_le e hD'] at hC' heq
    obtain ⟨hCl, hCr, hCnode⟩ := (forall_calls_node h).mp hC
    obtain ⟨hCl', hCr', hCnode'⟩ := (forall_calls_node h).mp hC'
    -- equal top digests have equal arguments, and the halves follow by induction
    have htop : (root h (ofList e (D.take (split D.length))),
          root h (ofList e (D.drop (split D.length))))
        = (root h (ofList e (D'.take (split D'.length))),
          root h (ofList e (D'.drop (split D'.length)))) := hinj hCnode hCnode' heq
    simp only [Prod.mk.injEq] at htop
    have htake : D.take (split D.length) = D'.take (split D'.length) :=
      ihl _ (by rw [hl, hl', hlen]) hCl hCl' htop.1
    have hdrop : D.drop (split D.length) = D'.drop (split D'.length) :=
      ihr _ (by rw [hr, hr', hlen]) hCr hCr' htop.2
    rw [← List.take_append_drop (split D.length) D,
      ← List.take_append_drop (split D'.length) D', htake, hdrop]

/-- If one list of siblings leads from one seed to the roots of `D` and `D'`,
    then `D` is a prefix of `D'`, unless `h` collides.  The siblings and the
    seed are arbitrary. -/
theorem prefix_of_boundary_climb (hinj : Set.InjOn (Function.uncurry h) C) :
    ∀ D' : List α, D' ≠ [] → ∀ (D : List α) (sib : List α) (seed : α),
      1 ≤ D.length → D.length ≤ D'.length →
      sib.length = (boundarySides D.length D'.length).length →
      (∀ p ∈ calls h (ofList e D), p ∈ C) → (∀ p ∈ calls h (ofList e D'), p ∈ C) →
      (∀ p ∈ climbCalls h seed ((boundarySides D.length D'.length).zip sib), p ∈ C) →
      (∀ p ∈ climbCalls h seed
        (rightSteps ((boundarySides D.length D'.length).zip sib)), p ∈ C) →
      climb h seed ((boundarySides D.length D'.length).zip sib) = root h (ofList e D') →
      climb h seed (rightSteps ((boundarySides D.length D'.length).zip sib))
        = root h (ofList e D) →
      D = D'.take D.length := by
  apply splitInduction
  · intro b D sib seed hpos hle hsib hC hC' _ _ hroot' hroot
    have hlen : D.length = 1 := by simp at hle; omega
    obtain ⟨a, rfl⟩ := List.length_eq_one_iff.mp hlen
    rw [boundarySides, if_neg (by simp)] at hroot hroot'
    simp only [List.zip_nil_left, rightSteps_nil, climb_nil] at hroot hroot'
    rw [hroot, ofList_singleton, ofList_singleton] at hroot'
    have hab : a = b := hroot'
    simp [hab]
  · intro D' hD' ihl ihr D sib seed hpos hle hsib hC hC' hB' hB hroot' hroot
    obtain ⟨hl', hr'⟩ := length_halves hD'
    have hlt' := split_lt hD'
    have hpos' := split_pos D'.length
    rcases Nat.lt_or_eq_of_le hle with hlt | heq
    · have htree' := ofList_of_two_le e hD'
      by_cases hk : D.length ≤ split D'.length
      · -- the prefix lies in the left half: only the larger tree steps
        rw [boundarySides_left hD' hk] at hsib hB hB' hroot hroot'
        obtain ⟨sib, p, rfl, hlow⟩ := eq_concat_of_length_eq hsib
        rw [zip_concat hlow] at hB hB' hroot hroot'
        rw [rightSteps_concat_left] at hB hroot
        rw [htree'] at hC' hroot'
        have htop := children_of_climb_concat h hinj hC' hB' hroot'
        simp only [children, Prod.mk.injEq] at htop
        obtain ⟨hCl', _, _⟩ := (forall_calls_node h).mp hC'
        obtain ⟨hBlow', _⟩ := (forall_climbCalls_concat h).mp hB'
        have hpre := ihl D sib seed
        rw [hl', List.take_take, Nat.min_eq_left hk] at hpre
        exact hpre hpos hk hlow hC hCl' hBlow' hB htop.1 hroot
      · -- the prefix covers the left half: both trees step
        have hk : split D'.length < D.length := by omega
        have hD : 2 ≤ D.length := by omega
        have hsplit : split D.length = split D'.length := split_stable hD' hk hle
        obtain ⟨hl, hr⟩ := length_halves hD
        rw [hsplit] at hl hr
        have htree := ofList_of_two_le e hD
        rw [hsplit] at htree
        rw [boundarySides_right hD' hk hlt] at hsib hB hB' hroot hroot'
        obtain ⟨sib, p, rfl, hlow⟩ := eq_concat_of_length_eq hsib
        rw [zip_concat hlow] at hB hB' hroot hroot'
        rw [rightSteps_concat_right] at hB hroot
        rw [htree'] at hC' hroot'
        rw [htree] at hC hroot
        have htop' := children_of_climb_concat h hinj hC' hB' hroot'
        have htop := children_of_climb_concat h hinj hC hB hroot
        simp only [children, Prod.mk.injEq] at htop htop'
        obtain ⟨hCl, hCr, _⟩ := (forall_calls_node h).mp hC
        obtain ⟨hCl', hCr', _⟩ := (forall_calls_node h).mp hC'
        obtain ⟨hBlow, _⟩ := (forall_climbCalls_concat h).mp hB
        obtain ⟨hBlow', _⟩ := (forall_climbCalls_concat h).mp hB'
        have hleft : D.take (split D'.length) = D'.take (split D'.length) :=
          eq_of_root_eq h e hinj _ (List.ne_nil_of_length_pos (by omega)) _ (by omega) hCl hCl'
            (by rw [← htop.1, ← htop'.1])
        have hbelow := ihr (D.drop (split D'.length)) sib seed
        rw [hr, hr'] at hbelow
        have hright := hbelow (by omega) (by omega) hlow hCr hCr' hBlow' hBlow htop'.2 htop.2
        calc D = D.take (split D'.length) ++ D.drop (split D'.length) :=
              (List.take_append_drop _ _).symm
          _ = D'.take (split D'.length)
                ++ (D'.drop (split D'.length)).take (D.length - split D'.length) := by
              rw [hleft, ← hright]
          _ = D'.take D.length := by
              rw [← List.take_add, show split D'.length + (D.length - split D'.length)
                = D.length from by omega]
    · -- equal lengths: no step is left, both roots are the seed
      rw [heq, boundarySides_self] at hroot hroot'
      simp only [List.zip_nil_left, rightSteps_nil, climb_nil] at hroot hroot'
      rw [heq, List.take_length]
      exact eq_of_root_eq h e hinj D (List.ne_nil_of_length_pos hpos) D' heq.symm hC hC'
        (by rw [← hroot, ← hroot'])

end

/-! ## Section 4: The bottom-up walk -/

/-- The walk from the last of the first `m` leaves: as long as it is a right
    child it is inside the sealed subtree; from there `levelSides` goes on. -/
def sealedSides (node lastNode : Nat) : List Side :=
  if node % 2 = 1 then sealedSides (node / 2) (lastNode / 2)
  else levelSides node lastNode
termination_by node
decreasing_by omega

theorem sealedSides_odd {node lastNode : Nat} (ho : node % 2 = 1) :
    sealedSides node lastNode = sealedSides (node / 2) (lastNode / 2) := by
  rw [sealedSides, if_pos ho]

theorem sealedSides_even {node lastNode : Nat} (ho : node % 2 = 0) :
    sealedSides node lastNode = levelSides node lastNode := by
  rw [sealedSides, if_neg (by omega)]

theorem sealedSides_left : ∀ (e node lastNode : Nat),
    node < 2 ^ e → 2 ^ e ≤ lastNode → lastNode < 2 ^ (e + 1) →
    sealedSides node lastNode = sealedSides node (2 ^ e - 1) ++ [.left] := by
  intro e
  induction e with
  | zero =>
    intro node lastNode hn hlo hhi
    rw [sealedSides_even (by omega), sealedSides_even (by omega)]
    exact levelSides_left 0 node lastNode hn hlo hhi
  | succ e ih =>
    intro node lastNode hn hlo hhi
    have hpow : 2 ^ (e + 1) = 2 * 2 ^ e := Nat.pow_succ'
    have hpow' : 2 ^ (e + 1 + 1) = 2 * 2 ^ (e + 1) := Nat.pow_succ'
    have hpos : 0 < 2 ^ e := Nat.two_pow_pos e
    -- a left child ends the sealed subtree: from there it is `levelSides_left`
    rcases Nat.mod_two_eq_zero_or_one node with ho | ho
    · rw [sealedSides_even ho, sealedSides_even ho]
      exact levelSides_left (e + 1) node lastNode hn hlo hhi
    · rw [sealedSides_odd ho, sealedSides_odd ho,
        ih (node / 2) (lastNode / 2) (by omega) (by omega) (by omega),
        show (2 ^ (e + 1) - 1) / 2 = 2 ^ e - 1 from by omega]

theorem sealedSides_right : ∀ (e node lastNode : Nat), node < lastNode → lastNode < 2 ^ e →
    sealedSides (node + 2 ^ e) (lastNode + 2 ^ e) = sealedSides node lastNode ++ [.right] := by
  intro e
  induction e with
  | zero => intro node lastNode hn hhi; omega
  | succ e ih =>
    intro node lastNode hn hhi
    have hpow : 2 ^ (e + 1) = 2 * 2 ^ e := Nat.pow_succ'
    rcases Nat.mod_two_eq_zero_or_one node with ho | ho
    · rw [sealedSides_even (by omega), sealedSides_even ho]
      exact levelSides_right (e + 1) node lastNode (by omega) hhi
    · rw [sealedSides_odd (by omega), sealedSides_odd ho,
        ← ih (node / 2) (lastNode / 2) (by omega) (by omega),
        show (node + 2 ^ (e + 1)) / 2 = node / 2 + 2 ^ e from by omega,
        show (lastNode + 2 ^ (e + 1)) / 2 = lastNode / 2 + 2 ^ e from by omega]

/-- From the first position of a level every step goes to the left. -/
theorem rightSteps_zip_levelSides_zero {α : Type _} (sn : Nat) : ∀ sib : List α,
    rightSteps ((levelSides 0 sn).zip sib) = [] := by
  induction sn using Nat.strong_induction_on with
  | _ sn ih =>
    intro sib
    by_cases hs : sn = 0
    · subst hs; simp
    · rw [levelSides_inner (by omega) (by omega)]
      cases sib with
      | nil => rfl
      | cons p sib =>
        rw [List.zip_cons_cons, rightSteps_cons_left]
        exact ih (sn / 2) (by omega) sib

/-- In a complete tree the walk from the last leaf takes no step. -/
theorem sealedSides_complete : ∀ e : Nat, sealedSides (2 ^ e - 1) (2 ^ e - 1) = [] := by
  intro e
  induction e with
  | zero => rw [sealedSides_even (by omega)]; simp
  | succ e ih =>
    have hpow : 2 ^ (e + 1) = 2 * 2 ^ e := Nat.pow_succ'
    have hpos : 0 < 2 ^ e := Nat.two_pow_pos e
    rw [sealedSides_odd (by omega), show (2 ^ (e + 1) - 1) / 2 = 2 ^ e - 1 from by omega, ih]

/-- The bottom-up walk finds the steps from the sealed subtree. -/
theorem sealedSides_eq : ∀ (n m : Nat), 1 ≤ m → m < n ∨ (m = n ∧ ∃ e, n = 2 ^ e) →
    sealedSides (m - 1) (n - 1) = boundarySides m n := by
  intro n
  induction n using Nat.strong_induction_on with
  | _ n ih =>
    intro m hm hcase
    -- the complete tree is needed for the recursion into a full left half
    rcases hcase with hlt | ⟨rfl, e, he⟩
    · have hn : 2 ≤ n := by omega
      have hpos := split_pos n
      obtain ⟨e, he, hlo, hhi⟩ := split_spec hn
      have hpow : 2 ^ (e + 1) = 2 * 2 ^ e := Nat.pow_succ'
      by_cases hk : m ≤ split n
      · have hleft : m < split n ∨ (m = split n ∧ ∃ e, split n = 2 ^ e) := by
          rcases Nat.lt_or_eq_of_le hk with h | h
          · exact Or.inl h
          · exact Or.inr ⟨h, e, he⟩
        rw [boundarySides_left hn hk, ← ih _ (split_lt hn) m hm hleft, he]
        rw [he] at hk
        exact sealedSides_left e (m - 1) (n - 1) (by omega) (by omega) (by omega)
      · rw [boundarySides_right hn (by omega) hlt,
          ← ih (n - split n) (by omega) (m - split n) (by omega) (Or.inl (by omega)), he]
        rw [he] at hk
        rw [← sealedSides_right e (m - 2 ^ e - 1) (n - 2 ^ e - 1) (by omega) (by omega),
          show m - 2 ^ e - 1 + 2 ^ e = m - 1 from by omega,
          show n - 2 ^ e - 1 + 2 ^ e = n - 1 from by omega]
    · rw [boundarySides_self, he, sealedSides_complete]

end HashTree
