import Owasaka.Foundation.SplitBoundary
import Owasaka.Transparency.Inclusion

/-! # Consistency proofs (`proofs.go`)

    The generator `ConsistencyProof` recurses with `subProof` over the split;
    the verifier `VerifyConsistency` starts at the last leaf of the smaller
    tree, strips its right spine, takes a seed and climbs with two hashes in
    parallel: `hash1` towards the root of the smaller tree, `hash2` towards the
    root of the larger one.

    Both follow the boundary of the first `n1` leaves (`HashTree.boundarySides`):
    the seed is the root of the sealed subtree, `hash2` takes every step and
    `hash1` the steps with a left sibling. -/

namespace Owasaka.Transparency

open HashTree

/-! ## Section 1: The generator -/

/-- `subProof`.  `ConsistencyProof` calls it with `1 ≤ m ≤ |d|` only, so the
    last branch is never taken. -/
def subProof (m : Nat) (d : List RootHash) (b : Bool) : Proof :=
  if m = d.length then
    if b then [] else [(merkleTreeHash d).toList]
  else if 2 ≤ d.length then
    let k := largestPowerOfTwoLessThan d.length
    if m ≤ k then appendHash (subProof m (d.take k) b) (merkleTreeHash (d.drop k))
    else appendHash (subProof (m - k) (d.drop k) false) (merkleTreeHash (d.take k))
  else []
termination_by d.length
decreasing_by
  · exact (lengths_of_split ‹2 ≤ d.length›).1
  · exact (lengths_of_split ‹2 ≤ d.length›).2

/-- `ConsistencyProof`; `none` is the nil proof. -/
def consistencyProof (n1 n2 : Nat) (leafHashes : List RootHash) : Option Proof :=
  if n1 = 0 ∨ n1 > n2 ∨ n2 > leafHashes.length then none
  else if n1 = n2 then some []
  else some (subProof n1 (leafHashes.take n2) true)

/-! ## Section 2: The verifier -/

/-- The pre-walk `for node%2 == 1 { node >>= 1; lastNode >>= 1 }`. -/
def stripOdd (node lastNode : Nat) : Nat × Nat :=
  if node % 2 = 1 then stripOdd (node / 2) (lastNode / 2) else (node, lastNode)
termination_by node
decreasing_by omega

/-- The loop `for node > 0`: `none` when the proof is used up, else the last
    node, both hashes and the entries that are left. -/
def sharedLoop (node lastNode : Nat) (hash1 hash2 : RootHash) (proof : Proof) :
    Option (Nat × RootHash × RootHash × Proof) :=
  if node = 0 then some (lastNode, hash1, hash2, proof)
  else
    match proof with
    | [] => none
    | raw :: rest =>
      let p := copyHash raw
      if node % 2 = 1 then
        sharedLoop (node / 2) (lastNode / 2) (hashChildren p hash1) (hashChildren p hash2) rest
      else if node < lastNode then
        sharedLoop (node / 2) (lastNode / 2) hash1 (hashChildren hash2 p) rest
      else
        -- the entry is read but not consumed
        sharedLoop (node / 2) (lastNode / 2) hash1 hash2 (raw :: rest)
termination_by node
decreasing_by all_goals omega

/-- The loop `for lastNode > 0`. -/
def extendLoop (lastNode : Nat) (hash2 : RootHash) (proof : Proof) : Option (RootHash × Proof) :=
  if lastNode = 0 then some (hash2, proof)
  else
    match proof with
    | [] => none
    | raw :: rest => extendLoop (lastNode / 2) (hashChildren hash2 (copyHash raw)) rest
termination_by lastNode
decreasing_by omega

/-- Both loops in sequence. -/
def consistencyWalk (node lastNode : Nat) (hash1 hash2 : RootHash) (proof : Proof) :
    Option (RootHash × RootHash × Proof) :=
  match sharedLoop node lastNode hash1 hash2 proof with
  | none => none
  | some (lastNode, hash1, hash2, proof) =>
    match extendLoop lastNode hash2 proof with
    | none => none
    | some (hash2, proof) => some (hash1, hash2, proof)

/-- The starting hash of both walks, with the entries that are left. -/
def consistencySeed (node : Nat) (root1 : RootHash) (proof : Proof) : Option (RootHash × Proof) :=
  if 0 < node then
    match proof with
    | [] => none
    | raw :: rest => some (copyHash raw, rest)
  else some (root1, proof)

def verifyConsistency (n1 n2 : Nat) (root1 : RootHash) (proof : Proof) : RootHash × Bool :=
  if n1 = 0 ∨ n1 > n2 then (zeroHash, false)
  else if n1 = n2 then
    if proof.length ≠ 0 then (zeroHash, false) else (root1, true)
  else
    let start := stripOdd (n1 - 1) (n2 - 1)
    match consistencySeed start.1 root1 proof with
    | none => (zeroHash, false)
    | some (seed, proof) =>
      match consistencyWalk start.1 start.2 seed seed proof with
      | none => (zeroHash, false)
      | some (hash1, hash2, rest) =>
        if rest.length ≠ 0 then (zeroHash, false)
        else if hash1 ≠ root1 then (zeroHash, false)
        else (hash2, true)

/-- The calls that `sharedLoop` evaluates. -/
def sharedLoopCalls (node lastNode : Nat) (hash1 hash2 : RootHash) (proof : Proof) :
    List HashCall :=
  if node = 0 then []
  else
    match proof with
    | [] => []
    | raw :: rest =>
      let p := copyHash raw
      if node % 2 = 1 then
        .children p hash1 :: .children p hash2 ::
          sharedLoopCalls (node / 2) (lastNode / 2) (hashChildren p hash1) (hashChildren p hash2) rest
      else if node < lastNode then
        .children hash2 p ::
          sharedLoopCalls (node / 2) (lastNode / 2) hash1 (hashChildren hash2 p) rest
      else
        sharedLoopCalls (node / 2) (lastNode / 2) hash1 hash2 (raw :: rest)
termination_by node
decreasing_by all_goals omega

/-- The calls that `extendLoop` evaluates. -/
def extendLoopCalls (lastNode : Nat) (hash2 : RootHash) (proof : Proof) : List HashCall :=
  if lastNode = 0 then []
  else
    match proof with
    | [] => []
    | raw :: rest =>
      .children hash2 (copyHash raw) ::
        extendLoopCalls (lastNode / 2) (hashChildren hash2 (copyHash raw)) rest
termination_by lastNode
decreasing_by omega

def consistencyWalkCalls (node lastNode : Nat) (hash1 hash2 : RootHash) (proof : Proof) :
    List HashCall :=
  sharedLoopCalls node lastNode hash1 hash2 proof
    ++ (match sharedLoop node lastNode hash1 hash2 proof with
        | none => []
        | some (lastNode, _, hash2, proof) => extendLoopCalls lastNode hash2 proof)

def verifyConsistencyCalls (n1 n2 : Nat) (root1 : RootHash) (proof : Proof) : List HashCall :=
  if n1 = 0 ∨ n1 > n2 then []
  else if n1 = n2 then []
  else
    let start := stripOdd (n1 - 1) (n2 - 1)
    match consistencySeed start.1 root1 proof with
    | none => []
    | some (seed, proof) => consistencyWalkCalls start.1 start.2 seed seed proof

/-! ## Section 3: The walk is a pair of climbs -/

theorem sealedSides_eq_levelSides (node lastNode : Nat) :
    sealedSides node lastNode
      = levelSides (stripOdd node lastNode).1 (stripOdd node lastNode).2 := by
  fun_induction stripOdd node lastNode with
  | case1 node lastNode ho ih => rw [sealedSides_odd ho, ih]
  | case2 node lastNode ho => rw [sealedSides_even (by omega)]

theorem stripOdd_le {node lastNode : Nat} (hle : node ≤ lastNode) :
    (stripOdd node lastNode).1 ≤ (stripOdd node lastNode).2 := by
  fun_induction stripOdd node lastNode with
  | case1 node lastNode ho ih => exact ih (by omega)
  | case2 node lastNode ho => exact hle

/-- The pre-walk reaches the root of the smaller tree iff its size is a power
    of two. -/
theorem stripOdd_eq_zero_iff (node lastNode : Nat) :
    (stripOdd node lastNode).1 = 0 ↔ ∃ e, node + 1 = 2 ^ e := by
  fun_induction stripOdd node lastNode with
  | case1 node lastNode ho ih =>
    rw [ih]
    constructor
    · intro ⟨e, he⟩
      exact ⟨e + 1, by rw [pow_succ]; omega⟩
    · intro ⟨e, he⟩
      rcases e with _ | e
      · omega
      · exact ⟨e, by rw [pow_succ] at he; omega⟩
  | case2 node lastNode ho =>
    constructor
    · rintro rfl
      exact ⟨0, rfl⟩
    · intro ⟨e, he⟩
      rcases e with _ | e
      · simpa using he
      · rw [pow_succ] at he; omega

/-- As long as a right child lies ahead the proof has to have an entry. -/
theorem levelSides_ne_nil {node lastNode : Nat} (hpos : node ≠ 0) (hle : node ≤ lastNode) :
    levelSides node lastNode ≠ [] := by
  fun_induction levelSides node lastNode with
  | case1 => omega
  | case2 => simp
  | case3 => simp
  | case4 fn sn hs ho hlt ih => exact ih (by omega) (by omega)

/-- The steps of the walk for the entries of `proof`. -/
def walkSteps (node lastNode : Nat) (proof : Proof) : List (Step RootHash) :=
  (levelSides node lastNode).zip (proof.map copyHash)

/-- What the walk returns on a proof that is long enough. -/
def walkResult (node lastNode : Nat) (hash1 hash2 : RootHash) (proof : Proof) :
    RootHash × RootHash × Proof :=
  (climb hashChildren hash1 (rightSteps (walkSteps node lastNode proof)),
    climb hashChildren hash2 (walkSteps node lastNode proof),
    proof.drop (levelSides node lastNode).length)

theorem extendLoop_eq (lastNode : Nat) : ∀ (hash2 : RootHash) (proof : Proof),
    extendLoop lastNode hash2 proof
      = (if (levelSides 0 lastNode).length ≤ proof.length then
          some (climb hashChildren hash2 (walkSteps 0 lastNode proof),
            proof.drop (levelSides 0 lastNode).length)
        else none)
    ∧ extendLoopCalls lastNode hash2 proof
      = (climbCalls hashChildren hash2 (walkSteps 0 lastNode proof)).map childrenCall := by
  induction lastNode using Nat.strong_induction_on with
  | _ lastNode ih =>
    intro hash2 proof
    rw [extendLoop.eq_def, extendLoopCalls.eq_def]
    by_cases hs : lastNode = 0
    · subst hs
      simp [walkSteps, climbCalls]
    · rw [if_neg hs, if_neg hs]
      have hwalk : levelSides 0 lastNode = .left :: levelSides 0 (lastNode / 2) :=
        levelSides_inner (by omega) (by omega)
      cases proof with
      | nil => simp [hwalk, walkSteps, climbCalls]
      | cons raw rest =>
        obtain ⟨ihloop, ihcalls⟩ :=
          ih (lastNode / 2) (by omega) (hashChildren hash2 (copyHash raw)) rest
        simp only [ihloop, ihcalls, walkSteps, hwalk, List.length_cons, Nat.add_le_add_iff_right]
        exact ⟨rfl, rfl⟩

/-! ### One level of the walk -/

theorem consistencyWalk_zero (lastNode : Nat) (hash1 hash2 : RootHash) (proof : Proof) :
    consistencyWalk 0 lastNode hash1 hash2 proof
      = (extendLoop lastNode hash2 proof).map fun r => (hash1, r.1, r.2) := by
  rw [consistencyWalk, sharedLoop.eq_def, if_pos rfl]
  dsimp only
  cases extendLoop lastNode hash2 proof <;> rfl

theorem consistencyWalk_nil {node : Nat} (hpos : node ≠ 0) (lastNode : Nat)
    (hash1 hash2 : RootHash) : consistencyWalk node lastNode hash1 hash2 [] = none := by
  rw [consistencyWalk, sharedLoop, if_neg hpos]

theorem consistencyWalk_odd {node : Nat} (ho : node % 2 = 1) (lastNode : Nat)
    (hash1 hash2 : RootHash) (raw : Bytes) (rest : Proof) :
    consistencyWalk node lastNode hash1 hash2 (raw :: rest)
      = consistencyWalk (node / 2) (lastNode / 2) (hashChildren (copyHash raw) hash1)
          (hashChildren (copyHash raw) hash2) rest := by
  rw [consistencyWalk, sharedLoop, if_neg (by omega)]
  simp only [if_pos ho]
  rfl

theorem consistencyWalk_inner {node lastNode : Nat} (hpos : node ≠ 0) (ho : node % 2 = 0)
    (hlt : node < lastNode) (hash1 hash2 : RootHash) (raw : Bytes) (rest : Proof) :
    consistencyWalk node lastNode hash1 hash2 (raw :: rest)
      = consistencyWalk (node / 2) (lastNode / 2) hash1 (hashChildren hash2 (copyHash raw)) rest := by
  rw [consistencyWalk, sharedLoop, if_neg hpos]
  simp only [show ¬ node % 2 = 1 from by omega, if_false, if_pos hlt]
  rfl

theorem consistencyWalk_last {node lastNode : Nat} (hpos : node ≠ 0) (ho : node % 2 = 0)
    (hge : lastNode ≤ node) (hash1 hash2 : RootHash) (raw : Bytes) (rest : Proof) :
    consistencyWalk node lastNode hash1 hash2 (raw :: rest)
      = consistencyWalk (node / 2) (lastNode / 2) hash1 hash2 (raw :: rest) := by
  rw [consistencyWalk, sharedLoop, if_neg hpos]
  simp only [show ¬ node % 2 = 1 from by omega, show ¬ node < lastNode from by omega, if_false]
  rfl

/-- The walk succeeds iff the proof has an entry for every level side, and then
    it returns the two climbs. -/
theorem consistencyWalk_eq (node : Nat) : ∀ (lastNode : Nat) (hash1 hash2 : RootHash)
    (proof : Proof), node ≤ lastNode →
    consistencyWalk node lastNode hash1 hash2 proof
      = if (levelSides node lastNode).length ≤ proof.length then
          some (walkResult node lastNode hash1 hash2 proof)
        else none := by
  induction node using Nat.strong_induction_on with
  | _ node ih =>
    intro lastNode hash1 hash2 proof hle
    by_cases hpos : node = 0
    · -- only the larger tree is left to climb
      subst hpos
      rw [consistencyWalk_zero, (extendLoop_eq lastNode hash2 proof).1, walkResult, walkSteps,
        rightSteps_zip_levelSides_zero]
      split <;> rfl
    · cases proof with
      | nil =>
        have hne := levelSides_ne_nil hpos hle
        rw [consistencyWalk_nil hpos, if_neg (by simpa using hne)]
      | cons raw rest =>
        rcases Nat.mod_two_eq_zero_or_one node with ho | ho
        · by_cases hlt : node < lastNode
          · rw [consistencyWalk_inner hpos ho hlt, ih (node / 2) (by omega) _ _ _ _ (by omega)]
            simp only [walkResult, walkSteps, levelSides_inner ho hlt, List.length_cons,
              Nat.add_le_add_iff_right]
            rfl
          · -- the last node of its level moves up, and the entry stays
            rw [consistencyWalk_last hpos ho (by omega), ih (node / 2) (by omega) _ _ _ _ (by omega)]
            simp only [walkResult, walkSteps, levelSides_last ho (Nat.le_of_not_lt hlt)]
        · rw [consistencyWalk_odd ho, ih (node / 2) (by omega) _ _ _ _ (by omega)]
          have hs : lastNode ≠ 0 := by omega
          simp only [walkResult, walkSteps, levelSides_odd hs ho, List.length_cons,
            Nat.add_le_add_iff_right]
          rfl

/-! ### The calls of one level -/

theorem walkSteps_odd {node lastNode : Nat} (ho : node % 2 = 1) (hle : node ≤ lastNode) (raw : Bytes)
    (rest : Proof) : walkSteps node lastNode (raw :: rest)
      = (.right, copyHash raw) :: walkSteps (node / 2) (lastNode / 2) rest := by
  rw [walkSteps, levelSides_odd (by omega) ho]
  rfl

theorem walkSteps_inner {node lastNode : Nat} (ho : node % 2 = 0) (hlt : node < lastNode) (raw : Bytes)
    (rest : Proof) : walkSteps node lastNode (raw :: rest)
      = (.left, copyHash raw) :: walkSteps (node / 2) (lastNode / 2) rest := by
  rw [walkSteps, levelSides_inner ho hlt]
  rfl

theorem walkSteps_last {node lastNode : Nat} (ho : node % 2 = 0) (hge : lastNode ≤ node)
    (proof : Proof) : walkSteps node lastNode proof = walkSteps (node / 2) (lastNode / 2) proof := by
  rw [walkSteps, levelSides_last ho hge]
  rfl

theorem consistencyWalkCalls_zero (lastNode : Nat) (hash1 hash2 : RootHash) (proof : Proof) :
    consistencyWalkCalls 0 lastNode hash1 hash2 proof
      = (climbCalls hashChildren hash2 (walkSteps 0 lastNode proof)).map childrenCall := by
  rw [consistencyWalkCalls, sharedLoopCalls.eq_def, sharedLoop.eq_def, if_pos rfl, if_pos rfl]
  exact (extendLoop_eq lastNode hash2 proof).2

theorem consistencyWalkCalls_odd {node : Nat} (ho : node % 2 = 1) (lastNode : Nat)
    (hash1 hash2 : RootHash) (raw : Bytes) (rest : Proof) :
    consistencyWalkCalls node lastNode hash1 hash2 (raw :: rest)
      = .children (copyHash raw) hash1 :: .children (copyHash raw) hash2 ::
          consistencyWalkCalls (node / 2) (lastNode / 2) (hashChildren (copyHash raw) hash1)
            (hashChildren (copyHash raw) hash2) rest := by
  have hpos : node ≠ 0 := by omega
  rw [consistencyWalkCalls, sharedLoopCalls, sharedLoop, if_neg hpos, if_neg hpos]
  simp only [ho, if_true]
  rfl

theorem consistencyWalkCalls_inner {node lastNode : Nat} (hpos : node ≠ 0) (ho : node % 2 = 0)
    (hlt : node < lastNode) (hash1 hash2 : RootHash) (raw : Bytes) (rest : Proof) :
    consistencyWalkCalls node lastNode hash1 hash2 (raw :: rest)
      = .children hash2 (copyHash raw) :: consistencyWalkCalls (node / 2) (lastNode / 2)
          hash1 (hashChildren hash2 (copyHash raw)) rest := by
  have hodd : ¬ node % 2 = 1 := by omega
  rw [consistencyWalkCalls, sharedLoopCalls, sharedLoop, if_neg hpos, if_neg hpos]
  simp only [hodd, hlt, if_false, if_true]
  rfl

theorem consistencyWalkCalls_last {node lastNode : Nat} (hpos : node ≠ 0) (ho : node % 2 = 0)
    (hge : lastNode ≤ node) (hash1 hash2 : RootHash) (raw : Bytes) (rest : Proof) :
    consistencyWalkCalls node lastNode hash1 hash2 (raw :: rest)
      = consistencyWalkCalls (node / 2) (lastNode / 2) hash1 hash2 (raw :: rest) := by
  have hodd : ¬ node % 2 = 1 := by omega
  have hlt : ¬ node < lastNode := Nat.not_lt.mpr hge
  rw [consistencyWalkCalls, sharedLoopCalls, sharedLoop, if_neg hpos, if_neg hpos]
  simp only [hodd, hlt, if_false]
  rfl

/-- Every input of the two climbs is a call of the walk. -/
theorem consistencyWalk_calls (node : Nat) : ∀ (lastNode : Nat) (hash1 hash2 : RootHash)
    (proof : Proof), node ≤ lastNode →
    (∀ p ∈ climbCalls hashChildren hash2 (walkSteps node lastNode proof),
      childrenCall p ∈ consistencyWalkCalls node lastNode hash1 hash2 proof)
    ∧ (∀ p ∈ climbCalls hashChildren hash1 (rightSteps (walkSteps node lastNode proof)),
      childrenCall p ∈ consistencyWalkCalls node lastNode hash1 hash2 proof) := by
  induction node using Nat.strong_induction_on with
  | _ node ih =>
    intro lastNode hash1 hash2 proof hle
    by_cases hpos : node = 0
    · subst hpos
      rw [consistencyWalkCalls_zero, walkSteps, rightSteps_zip_levelSides_zero]
      exact ⟨fun p hp => List.mem_map_of_mem hp, fun p hp => by simp [climbCalls] at hp⟩
    · cases proof with
      | nil => simp [walkSteps, climbCalls]
      | cons raw rest =>
        rcases Nat.mod_two_eq_zero_or_one node with ho | ho
        · by_cases hlt : node < lastNode
          · -- the larger tree steps alone
            obtain ⟨ih2, ih1⟩ := ih (node / 2) (by omega) (lastNode / 2) hash1
              (hashChildren hash2 (copyHash raw)) rest (by omega)
            rw [consistencyWalkCalls_inner hpos ho hlt, walkSteps_inner ho hlt, rightSteps_cons_left]
            refine ⟨?_, fun p hp => List.mem_cons_of_mem _ (ih1 p hp)⟩
            intro p hp
            rcases List.mem_cons.mp hp with rfl | hp
            · exact List.mem_cons_self
            · exact List.mem_cons_of_mem _ (ih2 p hp)
          · have hge : lastNode ≤ node := Nat.not_lt.mp hlt
            rw [consistencyWalkCalls_last hpos ho hge, walkSteps_last ho hge]
            exact ih (node / 2) (by omega) (lastNode / 2) hash1 hash2 (raw :: rest) (by omega)
        · -- both trees step
          obtain ⟨ih2, ih1⟩ := ih (node / 2) (by omega) (lastNode / 2)
            (hashChildren (copyHash raw) hash1) (hashChildren (copyHash raw) hash2) rest (by omega)
          rw [consistencyWalkCalls_odd ho, walkSteps_odd ho hle, rightSteps_cons_right]
          constructor
          · intro p hp
            rcases List.mem_cons.mp hp with rfl | hp
            · exact List.mem_cons_of_mem _ List.mem_cons_self
            · exact List.mem_cons_of_mem _ (List.mem_cons_of_mem _ (ih2 p hp))
          · intro p hp
            rcases List.mem_cons.mp hp with rfl | hp
            · exact List.mem_cons_self
            · exact List.mem_cons_of_mem _ (List.mem_cons_of_mem _ (ih1 p hp))

/-! ## Section 4: What acceptance means -/

/-- For sizes `n1 < n2` the walk follows the boundary sides. -/
theorem levelSides_start {n1 n2 : Nat} (h1 : 1 ≤ n1) (h12 : n1 < n2) :
    levelSides (stripOdd (n1 - 1) (n2 - 1)).1 (stripOdd (n1 - 1) (n2 - 1)).2
      = boundarySides n1 n2 := by
  rw [← sealedSides_eq_levelSides, sealedSides_eq n2 n1 h1 (Or.inl h12)]

/-- The verifier accepts iff a seed is there, the entries after it are as many
    as the boundary sides, and the climb along the right steps gives `root1`;
    it then returns the climb along all steps. -/
theorem verifyConsistency_eq_true_iff {n1 n2 : Nat} (h1 : 1 ≤ n1) (h12 : n1 < n2)
    (root1 root2 : RootHash) (proof : Proof) :
    verifyConsistency n1 n2 root1 proof = (root2, true) ↔
      ∃ seed rest, consistencySeed (stripOdd (n1 - 1) (n2 - 1)).1 root1 proof = some (seed, rest)
        ∧ rest.length = (boundarySides n1 n2).length
        ∧ climb hashChildren seed
            (rightSteps ((boundarySides n1 n2).zip (rest.map copyHash))) = root1
        ∧ climb hashChildren seed ((boundarySides n1 n2).zip (rest.map copyHash)) = root2 := by
  have hstart := levelSides_start h1 h12
  have hle := stripOdd_le (show n1 - 1 ≤ n2 - 1 by omega)
  rw [verifyConsistency, if_neg (by omega), if_neg (by omega)]
  dsimp only
  cases hseed : consistencySeed (stripOdd (n1 - 1) (n2 - 1)).1 root1 proof with
  | none => simp
  | some sr =>
    obtain ⟨seed, rest⟩ := sr
    dsimp only
    rw [consistencyWalk_eq _ _ seed seed rest hle, hstart]
    by_cases hlen : (boundarySides n1 n2).length ≤ rest.length
    · -- the walk succeeds; entries may be left over
      simp only [if_pos hlen, walkResult, walkSteps, hstart]
      by_cases heq : rest.length = (boundarySides n1 n2).length
      · have hdrop : rest.drop (boundarySides n1 n2).length = [] :=
          List.drop_of_length_le (by omega)
        by_cases hroot : climb hashChildren seed
            (rightSteps ((boundarySides n1 n2).zip (rest.map copyHash))) = root1
        · simp [hdrop, hroot, heq]
        · simp [hdrop, hroot]
      · have hdrop : (rest.drop (boundarySides n1 n2).length).length ≠ 0 := by
          rw [List.length_drop]; omega
        rw [if_pos hdrop]
        simp [heq]
    · -- the proof is used up before the walk ends
      have hne : rest.length ≠ (boundarySides n1 n2).length := by omega
      simp [hlen, hne]

theorem verifyConsistency_self (n : Nat) (hn : 1 ≤ n) (root1 root2 : RootHash) (proof : Proof) :
    verifyConsistency n n root1 proof = (root2, true) ↔ proof = [] ∧ root1 = root2 := by
  rw [verifyConsistency, if_neg (by omega), if_pos rfl]
  cases proof with
  | nil => simp
  | cons raw rest => simp

/-! ## Section 5: Soundness -/

/-- The calls of a run that checks the root over `D1` against the root over
    `D2`.  They are calls of `HashChildren` only. -/
def consistencyRunCalls (D1 D2 : List RootHash) (proof : Proof) : List HashCall :=
  merkleTreeHashCalls D1 ++ merkleTreeHashCalls D2
    ++ verifyConsistencyCalls D1.length D2.length (merkleTreeHash D1) proof

/-- If the verifier leads from the root over `D1` to the root over `D2`, then
    `D1` is a prefix of `D2`, or two calls of `HashChildren` collide. -/
theorem verifyConsistency_sound (D1 D2 : List RootHash) (h1 : 1 ≤ D1.length)
    (h12 : D1.length ≤ D2.length) (proof : Proof)
    (hacc : verifyConsistency D1.length D2.length (merkleTreeHash D1) proof
      = (merkleTreeHash D2, true)) :
    D1 = D2.take D1.length ∨ Collision (consistencyRunCalls D1 D2 proof) := by
  by_cases hcol : Collision (consistencyRunCalls D1 D2 proof)
  · exact Or.inr hcol
  refine Or.inl ?_
  have hinj := hashChildren_injOn hcol
  have hne : D2 ≠ [] := List.ne_nil_of_length_pos (by omega)
  have htree1 : ∀ p ∈ calls hashChildren (ofList emptyRoot D1),
      childrenCall p ∈ consistencyRunCalls D1 D2 proof := by
    intro p hp
    simp [consistencyRunCalls, childrenCall_mem hp]
  have htree2 : ∀ p ∈ calls hashChildren (ofList emptyRoot D2),
      childrenCall p ∈ consistencyRunCalls D1 D2 proof := by
    intro p hp
    simp [consistencyRunCalls, childrenCall_mem hp]
  rcases Nat.lt_or_eq_of_le h12 with hlt | heq
  · -- acceptance is two climbs from one seed, along the boundary of the first leaves
    obtain ⟨seed, rest, hseed, hlen, hroot1, hroot2⟩ :=
      (verifyConsistency_eq_true_iff h1 hlt _ _ _).mp hacc
    have hle := stripOdd_le (show D1.length - 1 ≤ D2.length - 1 by omega)
    obtain ⟨hcalls2, hcalls1⟩ := consistencyWalk_calls _ _ seed seed rest hle
    rw [walkSteps, levelSides_start h1 hlt] at hcalls1 hcalls2
    have hrun : ∀ c ∈ consistencyWalkCalls (stripOdd (D1.length - 1) (D2.length - 1)).1
        (stripOdd (D1.length - 1) (D2.length - 1)).2 seed seed rest,
        c ∈ consistencyRunCalls D1 D2 proof := by
      intro c hc
      refine List.mem_append_right _ ?_
      rw [verifyConsistencyCalls, if_neg (by omega), if_neg (by omega)]
      simp only [hseed]
      exact hc
    rw [merkleTreeHash_eq_root] at hroot1 hroot2
    exact prefix_of_boundary_climb hashChildren emptyRoot hinj D2 hne D1 (rest.map copyHash) seed
      h1 h12 (by rw [List.length_map, hlen]) htree1 htree2 (fun p hp => hrun _ (hcalls2 p hp))
      (fun p hp => hrun _ (hcalls1 p hp)) hroot2 hroot1
  · -- equal sizes: the roots themselves are equal
    rw [heq] at hacc
    obtain ⟨_, hroot⟩ := (verifyConsistency_self D2.length (by omega) _ _ _).mp hacc
    rw [merkleTreeHash_eq_root, merkleTreeHash_eq_root] at hroot
    rw [heq, List.take_length]
    exact eq_of_root_eq hashChildren emptyRoot hinj D1 (List.ne_nil_of_length_pos (by omega)) D2
      heq.symm htree1 htree2 hroot

/-- The roots over one and over two leaves, with the second leaf as the proof. -/
theorem verifyConsistency_sound_one_two :
    (verifyConsistency 1 2 (merkleTreeHash [hashLeaf [0x61]]) [(hashLeaf [0x62]).toList]
      = (merkleTreeHash [hashLeaf [0x61], hashLeaf [0x62]], true)) ∧
    ([hashLeaf [0x61]] = [hashLeaf [0x61], hashLeaf [0x62]].take 1
      ∨ Collision (consistencyRunCalls [hashLeaf [0x61]] [hashLeaf [0x61], hashLeaf [0x62]]
          [(hashLeaf [0x62]).toList])) := by
  have hacc : verifyConsistency 1 2 (merkleTreeHash [hashLeaf [0x61]]) [(hashLeaf [0x62]).toList]
      = (merkleTreeHash [hashLeaf [0x61], hashLeaf [0x62]], true) := by
    simp [verifyConsistency, consistencySeed, consistencyWalk, sharedLoop, extendLoop, stripOdd,
      merkleTreeHash, largestPowerOfTwoLessThan, doubleWhile]
  exact ⟨hacc, verifyConsistency_sound [hashLeaf [0x61]] [hashLeaf [0x61], hashLeaf [0x62]]
    (by simp) (by simp) _ hacc⟩

/-! ## Section 6: Completeness -/

theorem subProof_self (d : List RootHash) (b : Bool) :
    subProof d.length d b = if b then [] else [(merkleTreeHash d).toList] := by
  rw [subProof, if_pos rfl]

theorem subProof_left {m : Nat} {d : List RootHash} (hd : 2 ≤ d.length)
    (hm : m ≤ split d.length) (b : Bool) :
    subProof m d b = appendHash (subProof m (d.take (split d.length)) b)
      (merkleTreeHash (d.drop (split d.length))) := by
  have hlt := split_lt hd
  rw [subProof, if_neg (by omega), if_pos hd, largestPowerOfTwoLessThan_eq_split hd]
  simp only [hm, if_true]

theorem subProof_right {m : Nat} {d : List RootHash} (hd : 2 ≤ d.length)
    (hm : split d.length < m) (hmn : m < d.length) (b : Bool) :
    subProof m d b = appendHash (subProof (m - split d.length) (d.drop (split d.length)) false)
      (merkleTreeHash (d.take (split d.length))) := by
  rw [subProof, if_neg (by omega), if_pos hd, largestPowerOfTwoLessThan_eq_split hd]
  simp only [show ¬ m ≤ split d.length from by omega, if_false]

/-- Below the first step to the right the generator emits the seed and the
    siblings of the boundary. -/
theorem subProof_false : ∀ d : List RootHash, d ≠ [] → ∀ m, 1 ≤ m → m ≤ d.length →
    subProof m d false
      = (boundarySeed hashChildren emptyRoot m d
          :: boundarySiblings hashChildren emptyRoot m d).map Vector.toList := by
  apply splitInduction
  · intro a m hm hm'
    have hm : m = [a].length := by simp at hm' ⊢; omega
    subst hm
    rw [subProof_self, boundarySeed_self _ _ (Nat.le_refl _), boundarySiblings_self _ _ (Nat.le_refl _),
      merkleTreeHash_eq_root]
    rfl
  · intro d hd ihl ihr m hm hmn
    obtain ⟨hl, hr⟩ := length_halves hd
    have hlt := split_lt hd
    by_cases hk : m ≤ split d.length
    · rw [subProof_left hd hk, ihl m hm (by omega), boundarySeed_left _ _ hd hk,
        boundarySiblings_left _ _ hd hk, appendHash, merkleTreeHash_eq_root]
      simp
    · rcases Nat.lt_or_eq_of_le hmn with hlast | rfl
      · -- past the left half the generator goes on with `b = false` either way
        rw [subProof_right hd (by omega) hlast, ihr (m - split d.length) (by omega) (by omega),
          boundarySeed_right _ _ hd (by omega) hlast, boundarySiblings_right _ _ hd (by omega) hlast,
          appendHash, merkleTreeHash_eq_root]
        simp
      · rw [subProof_self, boundarySeed_self _ _ (Nat.le_refl _),
          boundarySiblings_self _ _ (Nat.le_refl _), merkleTreeHash_eq_root]
        rfl

/-- On the left spine the seed is left out exactly when the smaller tree is
    complete. -/
theorem subProof_true : ∀ d : List RootHash, d ≠ [] → ∀ m, 1 ≤ m →
    m < d.length ∨ (m = d.length ∧ ∃ e, m = 2 ^ e) →
    ((∃ e, m = 2 ^ e) → subProof m d true
      = (boundarySiblings hashChildren emptyRoot m d).map Vector.toList)
    ∧ ((¬ ∃ e, m = 2 ^ e) → subProof m d true
      = (boundarySeed hashChildren emptyRoot m d
          :: boundarySiblings hashChildren emptyRoot m d).map Vector.toList) := by
  apply splitInduction
  · intro a m hm hcase
    have hm : m = [a].length := by
      rcases hcase with hlt | ⟨heq, _⟩
      · simp at hlt; omega
      · exact heq
    subst hm
    rw [subProof_self, boundarySiblings_self _ _ (Nat.le_refl _)]
    exact ⟨fun _ => rfl, fun hpow => absurd ⟨0, rfl⟩ hpow⟩
  · intro d hd ihl _ m hm hcase
    obtain ⟨hl, hr⟩ := length_halves hd
    obtain ⟨hne, hne'⟩ := halves_ne_nil hd
    obtain ⟨e, he, hlo, hhi⟩ := split_spec hd
    have hlt := split_lt hd
    by_cases hk : m ≤ split d.length
    · -- still on the left spine
      have hleft : m < (d.take (split d.length)).length
          ∨ (m = (d.take (split d.length)).length ∧ ∃ e, m = 2 ^ e) := by
        rw [hl]
        rcases Nat.lt_or_eq_of_le hk with h | h
        · exact Or.inl h
        · exact Or.inr ⟨h, e, by rw [h, he]⟩
      obtain ⟨ihpow, ihnot⟩ := ihl m hm hleft
      rw [subProof_left hd hk, boundarySeed_left _ _ hd hk, boundarySiblings_left _ _ hd hk,
        appendHash, merkleTreeHash_eq_root]
      constructor
      · intro hpow
        rw [ihpow hpow]
        simp
      · intro hnot
        rw [ihnot hnot]
        simp
    · rcases hcase with hlast | ⟨rfl, hpow⟩
      · -- strictly between two powers of two
        have hnot : ¬ ∃ e, m = 2 ^ e := by
          rintro ⟨e', rfl⟩
          have hup : e < e' := (Nat.pow_lt_pow_iff_right (a := 2) (by omega)).mp (by omega)
          have := Nat.pow_le_pow_right (n := 2) (by omega) hup
          simp only [Nat.succ_eq_add_one] at this
          omega
        refine ⟨fun hpow => absurd hpow hnot, fun _ => ?_⟩
        rw [subProof_right hd (by omega) hlast, subProof_false _ hne' _ (by omega) (by omega),
          boundarySeed_right _ _ hd (by omega) hlast, boundarySiblings_right _ _ hd (by omega) hlast,
          appendHash, merkleTreeHash_eq_root]
        simp
      · -- the whole list is complete: nothing is emitted
        rw [subProof_self, boundarySiblings_self _ _ (Nat.le_refl _)]
        exact ⟨fun _ => rfl, fun hnot => absurd hpow hnot⟩

/-- For sizes `n1 < n2` the verifier accepts the generated proof. -/
theorem verifyConsistency_subProof (d : List RootHash) (m : Nat) (hm : 1 ≤ m)
    (hmn : m < d.length) :
    verifyConsistency m d.length (merkleTreeHash (d.take m)) (subProof m d true)
      = (merkleTreeHash d, true) := by
  have hne : d ≠ [] := List.ne_nil_of_length_pos (by omega)
  obtain ⟨hpow, hnot⟩ := subProof_true d hne m hm (Or.inl hmn)
  obtain ⟨hroot2, hroot1⟩ := climb_boundary hashChildren emptyRoot d hne m hm (by omega)
  have hlen := length_boundarySiblings hashChildren emptyRoot d hne m (by omega)
  have hzero := stripOdd_eq_zero_iff (m - 1) (d.length - 1)
  rw [Nat.sub_add_cancel hm] at hzero
  rw [verifyConsistency_eq_true_iff hm hmn, merkleTreeHash_eq_root, merkleTreeHash_eq_root]
  by_cases hp : ∃ e, m = 2 ^ e
  · -- the seed is `root1`: every step goes to the left
    have hstart := levelSides_start hm hmn
    rw [hzero.mpr hp] at hstart
    have hseed : boundarySeed hashChildren emptyRoot m d
        = root hashChildren (ofList emptyRoot (d.take m)) := by
      rw [← hstart, rightSteps_zip_levelSides_zero] at hroot1
      exact hroot1
    rw [hseed] at hroot1 hroot2
    refine ⟨root hashChildren (ofList emptyRoot (d.take m)), subProof m d true, ?_, ?_, ?_, ?_⟩
    · rw [consistencySeed.eq_def, if_neg (by rw [hzero.mpr hp]; omega)]
    · rw [hpow hp, List.length_map, hlen]
    · rw [hpow hp, map_copyHash_map_toList]
      exact hroot1
    · rw [hpow hp, map_copyHash_map_toList]
      exact hroot2
  · -- the seed is the first entry
    have hpos : 0 < (stripOdd (m - 1) (d.length - 1)).1 :=
      Nat.pos_of_ne_zero fun h => hp (hzero.mp h)
    refine ⟨boundarySeed hashChildren emptyRoot m d,
      (boundarySiblings hashChildren emptyRoot m d).map Vector.toList, ?_, ?_, ?_, ?_⟩
    · rw [consistencySeed.eq_def, if_pos hpos, hnot hp, List.map_cons]
      simp
    · rw [List.length_map, hlen]
    · rw [map_copyHash_map_toList]
      exact hroot1
    · rw [map_copyHash_map_toList]
      exact hroot2

/-- The generated proof leads from the root at size `n1` to the root at size
    `n2`. -/
theorem verifyConsistency_consistencyProof (D : List RootHash) (n1 n2 : Nat) (h1 : 1 ≤ n1)
    (h12 : n1 ≤ n2) (h2 : n2 ≤ D.length) :
    ∃ proof, consistencyProof n1 n2 D = some proof
      ∧ verifyConsistency n1 n2 (merkleTreeHash (D.take n1)) proof
        = (merkleTreeHash (D.take n2), true) := by
  rw [consistencyProof, if_neg (by omega)]
  -- equal sizes have the empty proof, which the verifier demands
  rcases Nat.lt_or_eq_of_le h12 with hlt | rfl
  · refine ⟨subProof n1 (D.take n2) true, by rw [if_neg (by omega)], ?_⟩
    have hlen : (D.take n2).length = n2 := by rw [List.length_take]; omega
    have hacc := verifyConsistency_subProof (D.take n2) n1 h1 (by omega)
    rw [hlen, List.take_take, Nat.min_eq_left h12] at hacc
    exact hacc
  · exact ⟨[], by rw [if_pos rfl], (verifyConsistency_self n1 h1 _ _ _).mpr ⟨rfl, rfl⟩⟩

theorem verifyConsistency_consistencyProof_two_of_three :
    (1 ≤ 2 ∧ 2 ≤ 3 ∧ 3 ≤ ([[0x61], [0x62], [0x63]].map hashLeaf).length) ∧
    ∃ proof, consistencyProof 2 3 ([[0x61], [0x62], [0x63]].map hashLeaf) = some proof
      ∧ verifyConsistency 2 3 (merkleTreeHash (([[0x61], [0x62], [0x63]].map hashLeaf).take 2)) proof
        = (merkleTreeHash (([[0x61], [0x62], [0x63]].map hashLeaf).take 3), true) :=
  ⟨by simp, verifyConsistency_consistencyProof _ 2 3 (by decide) (by decide) (by simp)⟩

end Owasaka.Transparency
