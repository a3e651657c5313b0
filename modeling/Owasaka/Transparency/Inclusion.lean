import Owasaka.Transparency.Hash

/-! # Inclusion proofs (`proofs.go`)

    The generator `InclusionProof` recurses over the split from the top; the
    verifier `VerifyInclusion` climbs from the leaf with the pair (`fn`, `sn`)
    of the leaf's position and the last position of the level.

    The bridge between them is `HashTree.levelSides`: the verifier is a climb
    along the level sides of (`fn`, `sn`), which are the sides of the split.
    The verifier stops when the proof is used up, at whatever level it is
    then, so soundness holds exactly for the proofs that are not the complete
    path of a leaf that hangs higher in the tree. -/

namespace Owasaka.Transparency

open HashTree

/-- `Proof` is `[][]byte`: entries of any length. -/
abbrev Proof : Type := List Bytes

/-- `var p RootHash; copy(p[:], raw)`. -/
def copyHash (raw : Bytes) : RootHash := Bytes.copyTo 32 raw

@[simp] theorem copyHash_toList (a : RootHash) : copyHash a.toList = a :=
  Bytes.copyTo_toList a

/-- Reading back hashes that were written as byte strings. -/
theorem map_copyHash_map_toList (l : List RootHash) :
    (l.map Vector.toList).map copyHash = l := by
  rw [List.map_map]
  exact List.map_id'' copyHash_toList _

/-! ## Section 1: The generator -/

def appendHash (p : Proof) (a : RootHash) : Proof := p ++ [a.toList]

/-- `inclusionPath`.  It is only called on non-empty lists. -/
def inclusionPath (m : Nat) (d : List RootHash) : Proof :=
  match d with
  | [] => []
  | [_] => []
  | a :: b :: rest =>
    let k := largestPowerOfTwoLessThan (a :: b :: rest).length
    if m < k then
      appendHash (inclusionPath m ((a :: b :: rest).take k))
        (merkleTreeHash ((a :: b :: rest).drop k))
    else
      appendHash (inclusionPath (m - k) ((a :: b :: rest).drop k))
        (merkleTreeHash ((a :: b :: rest).take k))
termination_by d.length
decreasing_by
  · exact (lengths_of_split (by simp)).1
  · exact (lengths_of_split (by simp)).2

/-- `InclusionProof`; `none` is the nil proof. -/
def inclusionProof (m : Nat) (leafHashes : List RootHash) : Option Proof :=
  if leafHashes.length = 0 ∨ m ≥ leafHashes.length then none
  else some (inclusionPath m leafHashes)

/-- The generator emits the siblings of the split. -/
theorem inclusionPath_eq_siblings (m : Nat) (d : List RootHash) :
    inclusionPath m d = (siblings hashChildren emptyRoot m d).map Vector.toList := by
  fun_induction inclusionPath m d with
  | case1 m => rw [siblings_of_le_one _ _ _ (by simp)]; rfl
  | case2 m a => rw [siblings_of_le_one _ _ _ (by simp)]; rfl
  | case3 m a b rest k hlt ih =>
    have h2 : 2 ≤ (a :: b :: rest).length := by simp
    have hk : k = split (a :: b :: rest).length := largestPowerOfTwoLessThan_eq_split h2
    rw [siblings_left _ _ h2 (by omega), ← hk, List.map_append, ← ih, appendHash,
      merkleTreeHash_eq_root]
    rfl
  | case4 m a b rest k hge ih =>
    have h2 : 2 ≤ (a :: b :: rest).length := by simp
    have hk : k = split (a :: b :: rest).length := largestPowerOfTwoLessThan_eq_split h2
    rw [siblings_right _ _ h2 (by omega), ← hk, List.map_append, ← ih, appendHash,
      merkleTreeHash_eq_root]
    rfl

/-- The siblings of leaf `j`, read back from the generated proof. -/
theorem copyHash_inclusionPath (j : Nat) (D : List RootHash) :
    (inclusionPath j D).map copyHash = siblings hashChildren emptyRoot j D := by
  rw [inclusionPath_eq_siblings, map_copyHash_map_toList]

/-! ## Section 2: The verifier -/

/-- The inner loop `for fn != 0 && fn&1 == 0 { fn >>= 1; sn >>= 1 }`. -/
def skipZeros (fn sn : Nat) : Nat × Nat :=
  if fn ≠ 0 ∧ fn % 2 = 0 then skipZeros (fn / 2) (sn / 2) else (fn, sn)
termination_by fn
decreasing_by omega

/-- The loop over the proof entries. -/
def inclusionLoop (current : RootHash) (fn sn : Nat) : Proof → RootHash
  | [] => current
  | raw :: rest =>
    if sn = 0 then current
    else
      let p := copyHash raw
      if fn % 2 = 1 ∨ fn = sn then
        let pos := skipZeros fn sn
        inclusionLoop (hashChildren p current) (pos.1 / 2) (pos.2 / 2) rest
      else
        inclusionLoop (hashChildren current p) (fn / 2) (sn / 2) rest

def verifyInclusion (leafHash : RootHash) (leafIndex treeSize : Nat) (proof : Proof) : RootHash :=
  if treeSize = 0 ∨ leafIndex ≥ treeSize then zeroHash
  else if treeSize = 1 then leafHash
  else inclusionLoop leafHash leafIndex (treeSize - 1) proof

/-- The calls that the loop evaluates. -/
def inclusionLoopCalls (current : RootHash) (fn sn : Nat) : Proof → List HashCall
  | [] => []
  | raw :: rest =>
    if sn = 0 then []
    else
      let p := copyHash raw
      if fn % 2 = 1 ∨ fn = sn then
        let pos := skipZeros fn sn
        .children p current
          :: inclusionLoopCalls (hashChildren p current) (pos.1 / 2) (pos.2 / 2) rest
      else
        .children current p
          :: inclusionLoopCalls (hashChildren current p) (fn / 2) (sn / 2) rest

def verifyInclusionCalls (leafHash : RootHash) (leafIndex treeSize : Nat) (proof : Proof) :
    List HashCall :=
  if treeSize = 0 ∨ leafIndex ≥ treeSize then []
  else if treeSize = 1 then []
  else inclusionLoopCalls leafHash leafIndex (treeSize - 1) proof

/-- The steps that the verifier climbs for the entries of `proof`. -/
def inclusionSteps (leafIndex treeSize : Nat) (proof : Proof) : List (Step RootHash) :=
  (sides leafIndex treeSize).zip (proof.map copyHash)

/-- Skipping the zero bits moves to the level of a right child with the same
    sides ahead. -/
theorem skipZeros_spec : ∀ fn sn : Nat, fn ≠ 0 → fn ≤ sn → (fn % 2 = 1 ∨ fn = sn) →
    (skipZeros fn sn).1 % 2 = 1 ∧ (skipZeros fn sn).1 ≤ (skipZeros fn sn).2
      ∧ levelSides fn sn = levelSides (skipZeros fn sn).1 (skipZeros fn sn).2 := by
  intro fn
  induction fn using Nat.strong_induction_on with
  | _ fn ih =>
    intro sn hne hle hcase
    rw [skipZeros]
    by_cases hz : fn ≠ 0 ∧ fn % 2 = 0
    · rw [if_pos hz]
      -- an even position takes this branch only as the last one of its level
      have heq : fn = sn := by omega
      subst heq
      obtain ⟨hodd, hle', hwalk⟩ := ih (fn / 2) (by omega) (fn / 2) (by omega) (by omega)
        (Or.inr rfl)
      exact ⟨hodd, hle', by rw [levelSides_last hz.2 (Nat.le_refl _), hwalk]⟩
    · rw [if_neg hz]
      exact ⟨by omega, hle, rfl⟩

/-- The loop climbs along the level sides of (`fn`, `sn`). -/
theorem inclusionLoop_eq_climb (proof : Proof) : ∀ (current : RootHash) (fn sn : Nat), fn ≤ sn →
    inclusionLoop current fn sn proof
        = climb hashChildren current ((levelSides fn sn).zip (proof.map copyHash))
      ∧ inclusionLoopCalls current fn sn proof
        = (climbCalls hashChildren current
            ((levelSides fn sn).zip (proof.map copyHash))).map childrenCall := by
  induction proof with
  | nil =>
    intro current fn sn _
    simp [inclusionLoop, inclusionLoopCalls, climbCalls]
  | cons raw rest ih =>
    intro current fn sn hle
    simp only [inclusionLoop, inclusionLoopCalls]
    by_cases hs : sn = 0
    · -- above the root nothing is left to climb
      simp [hs, climbCalls]
    · rw [if_neg hs, if_neg hs]
      by_cases hcase : fn % 2 = 1 ∨ fn = sn
      · -- a right child, or the last node of its level: the sibling is on the left
        rw [if_pos hcase, if_pos hcase]
        obtain ⟨hodd, hle', hwalk⟩ := skipZeros_spec fn sn (by omega) hle hcase
        obtain ⟨ihloop, ihcalls⟩ := ih (hashChildren (copyHash raw) current)
          ((skipZeros fn sn).1 / 2) ((skipZeros fn sn).2 / 2) (by omega)
        rw [ihloop, ihcalls, hwalk, levelSides_odd (by omega) hodd]
        exact ⟨rfl, rfl⟩
      · rw [if_neg hcase, if_neg hcase]
        obtain ⟨ihloop, ihcalls⟩ := ih (hashChildren current (copyHash raw))
          (fn / 2) (sn / 2) (by omega)
        have hwalk : levelSides fn sn = .left :: levelSides (fn / 2) (sn / 2) :=
          levelSides_inner (by omega) (by omega)
        rw [ihloop, ihcalls, hwalk]
        exact ⟨rfl, rfl⟩

theorem verifyInclusion_eq_climb (leafHash : RootHash) {leafIndex treeSize : Nat}
    (hi : leafIndex < treeSize) (proof : Proof) :
    verifyInclusion leafHash leafIndex treeSize proof
        = climb hashChildren leafHash (inclusionSteps leafIndex treeSize proof)
      ∧ verifyInclusionCalls leafHash leafIndex treeSize proof
        = (climbCalls hashChildren leafHash
            (inclusionSteps leafIndex treeSize proof)).map childrenCall := by
  unfold verifyInclusion verifyInclusionCalls inclusionSteps
  have hguard : ¬ (treeSize = 0 ∨ leafIndex ≥ treeSize) := by omega
  rw [if_neg hguard, if_neg hguard]
  by_cases h1 : treeSize = 1
  · subst h1
    simp [sides_of_le_one, climbCalls]
  · rw [if_neg h1, if_neg h1, ← levelSides_eq_sides treeSize leafIndex hi]
    exact inclusionLoop_eq_climb proof leafHash leafIndex (treeSize - 1) (by omega)

/-! ## Section 3: Completeness -/

/-- The proof generated for leaf `m` reproduces the Merkle root. -/
theorem verifyInclusion_inclusionProof (D : List RootHash) (m : Nat) (hm : m < D.length) :
    ∃ proof, inclusionProof m D = some proof
      ∧ verifyInclusion D[m] m D.length proof = merkleTreeHash D := by
  have hne : D ≠ [] := List.ne_nil_of_length_pos (by omega)
  refine ⟨inclusionPath m D, by rw [inclusionProof, if_neg (by omega)], ?_⟩
  have hsteps : inclusionSteps m D.length (inclusionPath m D)
      = (sides m D.length).zip (siblings hashChildren emptyRoot m D) := by
    rw [inclusionSteps, copyHash_inclusionPath]
  have hpath := auditPath_siblings hashChildren emptyRoot D hne m D[m]
    (List.getElem?_eq_getElem hm)
  rw [(verifyInclusion_eq_climb D[m] hm _).1, hsteps, merkleTreeHash_eq_root]
  exact climb_auditPath hashChildren hpath

theorem verifyInclusion_inclusionProof_three :
    ∃ proof, inclusionProof 2 ([[0x61], [0x62], [0x63]].map hashLeaf) = some proof
      ∧ verifyInclusion (hashLeaf [0x63]) 2 3 proof
        = merkleTreeHash ([[0x61], [0x62], [0x63]].map hashLeaf) :=
  verifyInclusion_inclusionProof ([[0x61], [0x62], [0x63]].map hashLeaf) 2 (by decide)

/-! ## Section 4: Soundness -/

/-- The hash calls of a run that checks payload `x` at index `i` against the
    root over `payloads`: the leaves, the tree and the verifier. -/
def inclusionRunCalls (payloads : List Bytes) (i : Nat) (x : Bytes) (proof : Proof) :
    List HashCall :=
  .leaf x :: (payloads.map HashCall.leaf ++ merkleTreeHashCalls (payloads.map hashLeaf)
    ++ verifyInclusionCalls (hashLeaf x) i payloads.length proof)

/-- Inclusion soundness at one input: if the verifier reproduces the root, the
    leaf is the `i`-th leaf or the run exhibits a collision. -/
def InclusionSound (payloads : List Bytes) (i : Nat) (x : Bytes) (proof : Proof) : Prop :=
  verifyInclusion (hashLeaf x) i payloads.length proof = merkleTreeHash (payloads.map hashLeaf) →
  (payloads.map hashLeaf)[i]? = some (hashLeaf x)
    ∨ Collision (inclusionRunCalls payloads i x proof)

/-- The proof is too short for leaf `i`, and it is the complete audit path of
    another leaf `j` that hangs higher in the tree: the sides of `j` are the
    first sides of `i`. -/
def TruncatedPath (D : List RootHash) (i : Nat) (leafHash : RootHash) (proof : Proof) : Prop :=
  proof.length < (sides i D.length).length ∧
  ∃ j, D[j]? = some leafHash ∧ D[i]? ≠ some leafHash ∧
    sides j D.length = (sides i D.length).take proof.length ∧
    proof.map copyHash = (inclusionPath j D).map copyHash

/-- A short proof is climbed along the first sides of the leaf. -/
theorem inclusionSteps_of_short {i n : Nat} {proof : Proof}
    (hshort : proof.length < (sides i n).length) :
    inclusionSteps i n proof = ((sides i n).take proof.length).zip (proof.map copyHash) := by
  rw [inclusionSteps, List.zip_eq_zip_take_min, List.length_map,
    Nat.min_eq_right (Nat.le_of_lt hshort)]
  rw [show (proof.map copyHash).take proof.length = proof.map copyHash from
    List.take_of_length_le (by simp)]

/-- A truncated path is accepted. -/
theorem verifyInclusion_of_truncatedPath {D : List RootHash} {i : Nat} {leafHash : RootHash}
    {proof : Proof} (hi : i < D.length) (ht : TruncatedPath D i leafHash proof) :
    verifyInclusion leafHash i D.length proof = merkleTreeHash D := by
  obtain ⟨hshort, j, hj, _, hsides, hproof⟩ := ht
  have hne : D ≠ [] := List.ne_nil_of_length_pos (by omega)
  have hpath := auditPath_siblings hashChildren emptyRoot D hne j leafHash hj
  have hsteps : inclusionSteps i D.length proof
      = (sides j D.length).zip (siblings hashChildren emptyRoot j D) := by
    rw [inclusionSteps_of_short hshort, hsides, hproof, copyHash_inclusionPath]
  rw [(verifyInclusion_eq_climb leafHash hi proof).1, hsteps, merkleTreeHash_eq_root]
  exact climb_auditPath hashChildren hpath

/-- An accepted proof that climbs an audit path of the tree is the path of the
    claimed leaf or a truncated path. -/
theorem leaf_or_truncatedPath {D : List RootHash} {i : Nat} {leafHash : RootHash} {proof : Proof}
    (hi : i < D.length)
    (hpath : AuditPath hashChildren (ofList emptyRoot D) (inclusionSteps i D.length proof) leafHash) :
    D[i]? = some leafHash ∨ TruncatedPath D i leafHash proof := by
  have hne : D ≠ [] := List.ne_nil_of_length_pos (by omega)
  obtain ⟨j, hj, heq⟩ := exists_of_auditPath hashChildren emptyRoot D hne _ _ hpath
  have hjlt : j < D.length := (List.getElem?_eq_some_iff.mp hj).1
  have hlen := length_siblings hashChildren emptyRoot D hne j hjlt
  by_cases hleaf : D[i]? = some leafHash
  · exact Or.inl hleaf
  · refine Or.inr ?_
    by_cases hshort : proof.length < (sides i D.length).length
    · -- both lists of steps split into sides and siblings
      rw [inclusionSteps_of_short hshort] at heq
      have htake : ((sides i D.length).take proof.length).length = proof.length := by
        rw [List.length_take]; omega
      have hsides := congrArg (List.map Prod.fst) heq
      rw [List.map_fst_zip (by simp), List.map_fst_zip (by omega)] at hsides
      have hsib := congrArg (List.map Prod.snd) heq
      rw [List.map_snd_zip (by rw [htake, List.length_map]), List.map_snd_zip (by omega)] at hsib
      exact ⟨hshort, j, hj, hleaf, hsides.symm, by rw [hsib, copyHash_inclusionPath]⟩
    · -- a proof of full length has all sides of leaf `i`, so `j = i`
      have hsides := congrArg (List.map Prod.fst) heq
      rw [inclusionSteps, List.map_fst_zip (by rw [List.length_map]; omega),
        List.map_fst_zip (by omega)] at hsides
      have hij := sides_injective D.length i j hi hjlt hsides
      rw [hij] at hleaf
      exact absurd hj hleaf

/-- In a run without collision, an accepted proof is the path of the claimed
    leaf or a truncated path: a leaf call never has the digest of an inner
    node. -/
theorem leaf_or_truncatedPath_of_accept {payloads : List Bytes} {i : Nat} {x : Bytes}
    {proof : Proof} (hi : i < payloads.length)
    (hfree : ¬ Collision (inclusionRunCalls payloads i x proof))
    (hacc : verifyInclusion (hashLeaf x) i payloads.length proof
      = merkleTreeHash (payloads.map hashLeaf)) :
    (payloads.map hashLeaf)[i]? = some (hashLeaf x)
      ∨ TruncatedPath (payloads.map hashLeaf) i (hashLeaf x) proof := by
  have hlen : (payloads.map hashLeaf).length = payloads.length := List.length_map _
  have hne : payloads.map hashLeaf ≠ [] := List.ne_nil_of_length_pos (by omega)
  obtain ⟨hclimb, hcalls⟩ := verifyInclusion_eq_climb (hashLeaf x) hi proof
  have htree : ∀ p ∈ calls hashChildren (ofList emptyRoot (payloads.map hashLeaf)),
      childrenCall p ∈ inclusionRunCalls payloads i x proof := by
    intro p hp
    simp [inclusionRunCalls, childrenCall_mem hp]
  have hrun : ∀ p ∈ climbCalls hashChildren (hashLeaf x) (inclusionSteps i payloads.length proof),
      childrenCall p ∈ inclusionRunCalls payloads i x proof := by
    intro p hp
    have := List.mem_map_of_mem (f := childrenCall) hp
    rw [← hcalls] at this
    simp [inclusionRunCalls, this]
  rw [hclimb, merkleTreeHash_eq_root] at hacc
  -- the two ways out of soundness are ruled out by the prefixes of leaf and inner hashes
  rcases auditPath_of_climb hashChildren (hashChildren_injOn hfree) _ _ _ htree hrun hacc with
    hpath | ⟨p, hp, heq⟩ | ⟨a, ha, p, hp, heq⟩
  · rw [← hlen] at hpath
    exact leaf_or_truncatedPath (by omega) hpath
  · -- the claimed leaf is an inner node of the tree
    have hcall := eq_of_output_eq hfree (a := .leaf x) (b := childrenCall p)
      (by simp [inclusionRunCalls]) (htree p hp) heq
    cases hcall
  · -- a leaf of the tree is an inner node of the climb
    rw [leaves_ofList emptyRoot _ hne] at ha
    obtain ⟨y, hy, rfl⟩ := List.mem_map.mp ha
    have hcall := eq_of_output_eq hfree (a := .leaf y) (b := childrenCall p)
      (by simp [inclusionRunCalls, hy]) (hrun p hp) heq
    cases hcall

/-- Inclusion proofs are sound exactly as long as the proof is not a truncated
    path (or the run exhibits a collision anyway). -/
theorem inclusionSound_iff (payloads : List Bytes) (i : Nat) (hi : i < payloads.length)
    (x : Bytes) (proof : Proof) :
    InclusionSound payloads i x proof ↔
      (¬ TruncatedPath (payloads.map hashLeaf) i (hashLeaf x) proof
        ∨ Collision (inclusionRunCalls payloads i x proof)) := by
  constructor
  · intro hsound
    by_cases ht : TruncatedPath (payloads.map hashLeaf) i (hashLeaf x) proof
    · have hacc := verifyInclusion_of_truncatedPath (by simpa using hi) ht
      rw [List.length_map] at hacc
      obtain ⟨_, _, _, hne, _⟩ := ht
      exact Or.inr ((hsound hacc).resolve_left hne)
    · exact Or.inl ht
  · intro hcond hacc
    by_cases hcol : Collision (inclusionRunCalls payloads i x proof)
    · exact Or.inr hcol
    · rcases leaf_or_truncatedPath_of_accept hi hcol hacc with hleaf | ht
      · exact Or.inl hleaf
      · exact absurd ht (hcond.resolve_right hcol)

/-- With the honest path of leaf 2 at its own index the condition holds. -/
theorem inclusionSound_iff_three :
    (2 < [[0x61], [0x62], [0x63]].length) ∧
    (InclusionSound [[0x61], [0x62], [0x63]] 2 [0x63]
        [(hashChildren (hashLeaf [0x61]) (hashLeaf [0x62])).toList] ↔
      (¬ TruncatedPath ([[0x61], [0x62], [0x63]].map hashLeaf) 2 (hashLeaf [0x63])
          [(hashChildren (hashLeaf [0x61]) (hashLeaf [0x62])).toList]
        ∨ Collision (inclusionRunCalls [[0x61], [0x62], [0x63]] 2 [0x63]
          [(hashChildren (hashLeaf [0x61]) (hashLeaf [0x62])).toList]))) :=
  ⟨by decide, inclusionSound_iff _ 2 (by decide) _ _⟩

/-- The tree over three leaves `a`, `b`, `c`: the path of leaf 2 alone is
    accepted for `c` at index 1. -/
theorem inclusionSound_fails_for_short_proof :
    ¬ InclusionSound [[0x61], [0x62], [0x63]] 1 [0x63]
        [(hashChildren (hashLeaf [0x61]) (hashLeaf [0x62])).toList] := by
  intro hsound
  have htree : merkleTreeHash ([[0x61], [0x62], [0x63]].map hashLeaf)
      = hashChildren (hashChildren (hashLeaf [0x61]) (hashLeaf [0x62])) (hashLeaf [0x63]) := by
    simp [merkleTreeHash, largestPowerOfTwoLessThan, doubleWhile]
  have hacc := hsound (by
    rw [htree]
    simp [verifyInclusion, inclusionLoop])
  have hfree : ¬ Collision (inclusionRunCalls [[0x61], [0x62], [0x63]] 1 [0x63]
      [(hashChildren (hashLeaf [0x61]) (hashLeaf [0x62])).toList]) := by
    apply not_collision_of_nodup [.leaf [0x61], .leaf [0x62], .leaf [0x63],
      .children (hashLeaf [0x61]) (hashLeaf [0x62]),
      .children (hashChildren (hashLeaf [0x61]) (hashLeaf [0x62])) (hashLeaf [0x63])]
    · simp [inclusionRunCalls, merkleTreeHashCalls, merkleTreeHash, largestPowerOfTwoLessThan,
        doubleWhile, verifyInclusionCalls, inclusionLoopCalls]
    · -- the five digests start with 02, 57, 59, b1 and 36
      decide +kernel
  -- soundness would now make leaf 1 the claimed one
  have hbc : hashLeaf [0x62] = hashLeaf [0x63] := by
    simpa using hacc.resolve_right hfree
  have hcall := eq_of_output_eq hfree (a := .leaf [0x62]) (b := .leaf [0x63])
    (by simp [inclusionRunCalls]) (by simp [inclusionRunCalls]) hbc
  simp at hcall

end Owasaka.Transparency
