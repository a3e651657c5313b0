import Mathlib.Data.List.Forall2
import Owasaka.Foundation.BlockTree
import Owasaka.Foundation.Hex
import Owasaka.Foundation.Sha256

/-! # The snapshot tree (`storage/integrity/merkle.go`)

    `BuildTree` hashes the blocks and then pairs of digests, level by level; the last
    node of an odd level is repeated.

    The loop is the same for digests and for the trees that they are digests of.  A
    root determines its tree up to blocks that are joined digests (`BlockTree`); the
    tree determines the blocks only among lists of one length, since it does not tell
    a repeated node from one that was there. -/

namespace Owasaka.Integrity

open BlockTree

/-! ## Section 1: `BuildTree` -/

section Levels

variable {α β : Type}

/-- Repeats the last node of a level with an odd number of them. -/
def padLevel (level : List α) : List α :=
  if level.length % 2 ≠ 0 then level ++ level.getLast?.toList else level

/-- The level above a level of even length. -/
def pairUp (combine : α → α → α) : List α → List α
  | a :: b :: nodes => combine a b :: pairUp combine nodes
  | _ => []

/-- The loop up to one node: the last level and all nodes.  Every level is shorter than
    the one below, so its length is enough fuel. -/
def buildLoop (combine : α → α → α) : Nat → List α → List α → List α × List α
  | 0, nodes, allNodes => (nodes, allNodes)
  | fuel + 1, nodes, allNodes =>
    if nodes.length > 1 then
      let level := pairUp combine nodes
      buildLoop combine fuel (if level.length > 1 then padLevel level else level) (allNodes ++ level)
    else (nodes, allNodes)

end Levels

structure MerkleTree where
  leaves : List Sha256.Digest
  nodes : List Sha256.Digest
  /-- `none` is a nil root. -/
  root : Option Sha256.Digest

/-- The concatenation of two digests. -/
def combined (l r : Sha256.Digest) : Bytes := l.toList ++ r.toList

def buildTree (blocks : List Bytes) : MerkleTree :=
  if blocks.length = 0 then ⟨[], [], none⟩
  else
    let leaves := blocks.map Sha256.sum
    let nodes := padLevel leaves
    let result := buildLoop (fun l r => Sha256.sum (combined l r)) nodes.length nodes nodes
    ⟨leaves, result.2, result.1.head?⟩

def MerkleTree.rootHex (t : MerkleTree) : String :=
  match t.root with
  | none => ""
  | some root => Hex.encodeToString root.toList

/-! ## Section 2: The tree of a list -/

/-- The blocks as leaves, padded. -/
def leafLevel (blocks : List Bytes) : List (HashTree.Tree Bytes) :=
  padLevel (blocks.map HashTree.Tree.leaf)

/-- The tree whose root `BuildTree` computes. -/
def blockTree (blocks : List Bytes) : Option (HashTree.Tree Bytes) :=
  let nodes := leafLevel blocks
  (buildLoop HashTree.Tree.node nodes.length nodes nodes).1.head?

section Levels

variable {α β : Type} {f : α → β} {combine : α → α → α} {combine' : β → β → β}

theorem padLevel_map (l : List α) : padLevel (l.map f) = (padLevel l).map f := by
  unfold padLevel
  rw [List.length_map]
  by_cases hodd : l.length % 2 ≠ 0
  · rw [if_pos hodd, if_pos hodd, List.map_append, List.getLast?_map]
    cases l.getLast? <;> rfl
  · rw [if_neg hodd, if_neg hodd]

theorem pairUp_map (hf : ∀ a b, f (combine a b) = combine' (f a) (f b)) (l : List α) :
    pairUp combine' (l.map f) = (pairUp combine l).map f := by
  induction l using pairUp.induct with
  | case1 a b nodes ih => simp only [List.map_cons, pairUp, ih, hf]
  | case2 l hl =>
    rcases l with _ | ⟨a, _ | ⟨b, nodes⟩⟩
    · rfl
    · rfl
    · exact absurd rfl (hl a b nodes)

/-- The loop over images of nodes is the image of the loop. -/
theorem buildLoop_map (hf : ∀ a b, f (combine a b) = combine' (f a) (f b)) (fuel : Nat)
    (nodes allNodes : List α) : buildLoop combine' fuel (nodes.map f) (allNodes.map f)
      = ((buildLoop combine fuel nodes allNodes).1.map f, (buildLoop combine fuel nodes allNodes).2.map f) := by
  induction fuel generalizing nodes allNodes with
  | zero => rfl
  | succ fuel ih =>
    unfold buildLoop
    rw [List.length_map]
    by_cases hmore : nodes.length > 1
    · simp only [if_pos hmore, pairUp_map hf, List.length_map, ← List.map_append]
      rw [← ih]
      by_cases hlevel : (pairUp combine nodes).length > 1
      · simp only [if_pos hlevel, padLevel_map]
      · simp only [if_neg hlevel]
    · simp only [if_neg hmore]

theorem length_pairUp (l : List α) : (pairUp combine l).length = l.length / 2 := by
  induction l using pairUp.induct with
  | case1 a b nodes ih =>
    simp only [pairUp, List.length_cons, ih]
    omega
  | case2 l hl =>
    rcases l with _ | ⟨a, _ | ⟨b, nodes⟩⟩
    · simp only [pairUp, List.length_nil, Nat.zero_div]
    · simp only [pairUp, List.length_nil, List.length_singleton, Nat.reduceDiv]
    · exact absurd rfl (hl a b nodes)

theorem length_padLevel (l : List α) : (padLevel l).length = l.length + l.length % 2 := by
  unfold padLevel
  by_cases hodd : l.length % 2 ≠ 0
  · have hne : l ≠ [] := by
      rintro rfl
      exact hodd rfl
    rw [if_pos hodd, List.getLast?_eq_some_getLast hne, List.length_append]
    simp only [Option.toList_some, List.length_singleton]
    omega
  · rw [if_neg hodd]
    omega

theorem padLevel_padLevel (l : List α) : padLevel (padLevel l) = padLevel l := by
  have hlength := length_padLevel l
  exact if_neg (by omega)

/-- With as much fuel as there are nodes, one node is left. -/
theorem length_buildLoop {fuel : Nat} {nodes : List α} (allNodes : List α) (hpos : 0 < nodes.length)
    (hfuel : nodes.length ≤ fuel) : (buildLoop combine fuel nodes allNodes).1.length = 1 := by
  induction fuel generalizing nodes allNodes with
  | zero => omega
  | succ fuel ih =>
    unfold buildLoop
    by_cases hmore : nodes.length > 1
    · simp only [if_pos hmore]
      have hlength := @length_pairUp α combine nodes
      by_cases hlevel : (pairUp combine nodes).length > 1
      · rw [if_pos hlevel]
        have hpad := length_padLevel (pairUp combine nodes)
        exact ih _ (by omega) (by omega)
      · rw [if_neg hlevel]
        exact ih _ (by omega) (by omega)
    · rw [if_neg hmore]
      show nodes.length = 1
      omega

end Levels

/-! ## Section 3: What a root determines -/

/-- Two trees up to leaves that are joined digests; the empty list has no tree. -/
def SameTree (xs ys : List Bytes) : Prop :=
  ∃ t ∈ blockTree xs, ∃ u ∈ blockTree ys, Matches Sha256.sum combined t u

/-- Two different strings that are hashed for the two lists have one digest. -/
def Collision (xs ys : List Bytes) : Prop :=
  ∃ t ∈ blockTree xs, ∃ u ∈ blockTree ys, BlockTree.Collides Sha256.sum combined t u

theorem combined_inj (l r l' r' : Sha256.Digest) (heq : combined l r = combined l' r') :
    l = l' ∧ r = r' := by
  have hlength : l.toList.length = l'.toList.length := by simp
  obtain ⟨hl, hr⟩ := List.append_inj heq hlength
  exact ⟨Vector.toList_inj.mp hl, Vector.toList_inj.mp hr⟩

theorem buildTree_root (blocks : List Bytes) :
    (buildTree blocks).root = (blockTree blocks).map (digest Sha256.sum combined) := by
  by_cases hempty : blocks.length = 0
  · obtain rfl := List.eq_nil_of_length_eq_zero hempty
    rfl
  · have hleaves : blocks.map Sha256.sum
        = (blocks.map HashTree.Tree.leaf).map (digest Sha256.sum combined) := by
      rw [List.map_map]
      rfl
    have hnode : ∀ l r, digest Sha256.sum combined (HashTree.Tree.node l r)
        = Sha256.sum (combined (digest Sha256.sum combined l) (digest Sha256.sum combined r)) :=
      fun _ _ => rfl
    unfold buildTree blockTree leafLevel
    simp only [if_neg hempty, hleaves, padLevel_map, List.length_map]
    rw [buildLoop_map hnode, ← List.head?_map]

theorem length_leafLevel (blocks : List Bytes) :
    (leafLevel blocks).length = blocks.length + blocks.length % 2 := by
  unfold leafLevel
  rw [length_padLevel, List.length_map]

/-- The loop ends with one node for every list but the empty one. -/
theorem buildLoop_eq {blocks : List Bytes} (hne : blocks ≠ []) :
    ∃ t, (buildLoop HashTree.Tree.node (leafLevel blocks).length (leafLevel blocks)
      (leafLevel blocks)).1 = [t] := by
  have hpos : 0 < blocks.length := List.length_pos_iff.mpr hne
  have hpad := length_leafLevel blocks
  apply List.length_eq_one_iff.mp
  exact length_buildLoop _ (by omega) (by omega)

theorem exists_blockTree {blocks : List Bytes} (hne : blocks ≠ []) :
    ∃ t, blockTree blocks = some t := by
  obtain ⟨t, ht⟩ := buildLoop_eq hne
  exact ⟨t, by unfold blockTree; simp only [ht, List.head?_cons]⟩

/-- ... and that node is the tree of the list. -/
theorem buildLoop_eq_of_blockTree {blocks : List Bytes} {t : HashTree.Tree Bytes}
    (ht : blockTree blocks = some t) :
    (buildLoop HashTree.Tree.node (leafLevel blocks).length (leafLevel blocks)
      (leafLevel blocks)).1 = [t] := by
  have hne : blocks ≠ [] := by
    rintro rfl
    cases ht
  obtain ⟨u, hu⟩ := buildLoop_eq hne
  unfold blockTree at ht
  simp only [hu, List.head?_cons, Option.some.injEq] at ht
  rw [hu, ht]

theorem rootHex_eq_of_blockTree {blocks : List Bytes} {t : HashTree.Tree Bytes}
    (ht : blockTree blocks = some t) :
    (buildTree blocks).rootHex = Hex.encodeToString (digest Sha256.sum combined t).toList := by
  unfold MerkleTree.rootHex
  rw [buildTree_root, ht]
  rfl

theorem rootHex_ne_empty {blocks : List Bytes} {t : HashTree.Tree Bytes} (ht : blockTree blocks = some t) :
    (buildTree blocks).rootHex ≠ "" := by
  rw [rootHex_eq_of_blockTree ht]
  apply Hex.encodeToString_ne_empty
  intro hnil
  have hlength := congrArg List.length hnil
  simp at hlength

theorem exists_blockTree_of_rootHex {blocks : List Bytes} (hne : (buildTree blocks).rootHex ≠ "") :
    ∃ t, blockTree blocks = some t := by
  apply exists_blockTree
  rintro rfl
  exact hne rfl

/-- The roots of two lists are equal exactly when the digests of their trees are. -/
theorem rootHex_eq_iff {xs ys : List Bytes} {t u : HashTree.Tree Bytes} (ht : blockTree xs = some t)
    (hu : blockTree ys = some u) : (buildTree xs).rootHex = (buildTree ys).rootHex
      ↔ digest Sha256.sum combined t = digest Sha256.sum combined u := by
  rw [rootHex_eq_of_blockTree ht, rootHex_eq_of_blockTree hu]
  constructor
  · intro heq
    exact Vector.toList_inj.mp (Hex.encodeToString_inj heq)
  · intro heq
    rw [heq]

/-- A root determines its list of blocks, unless a collision is at hand. -/
def Binds (xs ys : List Bytes) : Prop :=
  (buildTree xs).rootHex = (buildTree ys).rootHex → (buildTree xs).rootHex ≠ "" →
    xs = ys ∨ Collision xs ys

theorem sameTree_or_collision {xs ys : List Bytes}
    (heq : (buildTree xs).rootHex = (buildTree ys).rootHex) (hne : (buildTree xs).rootHex ≠ "") :
    SameTree xs ys ∨ Collision xs ys := by
  obtain ⟨t, ht⟩ := exists_blockTree_of_rootHex hne
  obtain ⟨u, hu⟩ := exists_blockTree_of_rootHex (heq ▸ hne)
  have hdigest := (rootHex_eq_iff ht hu).mp heq
  rcases matches_or_collides combined_inj hdigest with hmatch | hcol
  · exact .inl ⟨t, ht, u, hu, hmatch⟩
  · exact .inr ⟨t, ht, u, hu, hcol⟩

theorem SameTree.rootHex_eq {xs ys : List Bytes} (hsame : SameTree xs ys) :
    (buildTree xs).rootHex = (buildTree ys).rootHex ∧ (buildTree xs).rootHex ≠ "" := by
  obtain ⟨t, ht, u, hu, hmatch⟩ := hsame
  exact ⟨(rootHex_eq_iff ht hu).mpr hmatch.digest_eq, rootHex_ne_empty ht⟩

/-- Exactly the lists with one tree share a root without a collision. -/
theorem snapshot_root_binds_iff (xs ys : List Bytes) :
    Binds xs ys ↔ (SameTree xs ys → xs = ys) ∨ Collision xs ys := by
  constructor
  · intro hbinds
    by_cases hcol : Collision xs ys
    · exact .inr hcol
    · left
      intro hsame
      obtain ⟨heq, hne⟩ := hsame.rootHex_eq
      exact (hbinds heq hne).resolve_right hcol
  · intro hcond heq hne
    rcases hcond with hsame | hcol
    · rcases sameTree_or_collision heq hne with h | hcol
      · exact .inl (hsame h)
      · exact .inr hcol
    · exact .inr hcol

/-! ## Section 4: Lists of one length and lists of different lengths -/

section Levels

variable {α : Type} {R : α → α → Prop} {combine : α → α → α}

theorem forall₂_of_padLevel {l l' : List α} (hlength : l.length = l'.length)
    (h : List.Forall₂ R (padLevel l) (padLevel l')) : List.Forall₂ R l l' := by
  unfold padLevel at h
  rw [← hlength] at h
  by_cases hodd : l.length % 2 ≠ 0
  · rw [if_pos hodd, if_pos hodd] at h
    have htake := List.forall₂_take l.length h
    rwa [List.take_left, hlength, List.take_left] at htake
  · rwa [if_neg hodd, if_neg hodd] at h

/-- Nodes made of two nodes each are related only if those are. -/
theorem forall₂_of_pairUp
    (hR : ∀ a b a' b', R (combine a b) (combine a' b') → R a a' ∧ R b b') {l l' : List α}
    (heven : l.length % 2 = 0) (hlength : l.length = l'.length)
    (h : List.Forall₂ R (pairUp combine l) (pairUp combine l')) : List.Forall₂ R l l' := by
  induction l using pairUp.induct generalizing l' with
  | case1 a b nodes ih =>
    match l', hlength with
    | a' :: b' :: nodes', hlength =>
      simp only [List.length_cons] at heven hlength
      rw [pairUp, pairUp, List.forall₂_cons] at h
      obtain ⟨ha, hb⟩ := hR _ _ _ _ h.1
      exact .cons ha (.cons hb (ih (by omega) (by omega) h.2))
  | case2 l hl =>
    match l, heven with
    | [], _ =>
      obtain rfl := List.eq_nil_of_length_eq_zero hlength.symm
      exact .nil
    | [_], heven => simp at heven
    | a :: b :: nodes, _ => exact absurd rfl (hl a b nodes)

/-- Two runs over levels of one length: the last levels are related only if the first are. -/
theorem forall₂_of_buildLoop
    (hR : ∀ a b a' b', R (combine a b) (combine a' b') → R a a' ∧ R b b') {fuel : Nat}
    {nodes nodes' allNodes allNodes' : List α} (hlength : nodes.length = nodes'.length)
    (hlevel : nodes.length ≤ 1 ∨ nodes.length % 2 = 0)
    (h : List.Forall₂ R (buildLoop combine fuel nodes allNodes).1
      (buildLoop combine fuel nodes' allNodes').1) : List.Forall₂ R nodes nodes' := by
  induction fuel generalizing nodes nodes' allNodes allNodes' with
  | zero => exact h
  | succ fuel ih =>
    unfold buildLoop at h
    rw [← hlength] at h
    by_cases hmore : nodes.length > 1
    · simp only [if_pos hmore] at h
      have heven : nodes.length % 2 = 0 := by omega
      have hup := @length_pairUp α combine nodes
      have hup' := @length_pairUp α combine nodes'
      apply forall₂_of_pairUp hR heven hlength
      have hupLength : (pairUp combine nodes).length = (pairUp combine nodes').length := by omega
      rw [← hupLength] at h
      by_cases hpadded : (pairUp combine nodes).length > 1
      · simp only [if_pos hpadded] at h
        have hpad := length_padLevel (pairUp combine nodes)
        have hpad' := length_padLevel (pairUp combine nodes')
        apply forall₂_of_padLevel hupLength
        exact ih (by omega) (.inr (by omega)) h
      · simp only [if_neg hpadded] at h
        exact ih hupLength (.inl (by omega)) h
    · simpa only [if_neg hmore] using h

end Levels

/-- Two lists of one length have one tree only if they are equal. -/
theorem SameTree.eq_of_length {xs ys : List Bytes} (hsame : SameTree xs ys)
    (hlength : xs.length = ys.length) : xs = ys := by
  obtain ⟨t, ht, u, hu, hmatch⟩ := hsame
  have hmap : (xs.map (@HashTree.Tree.leaf Bytes)).length = (ys.map HashTree.Tree.leaf).length := by
    rw [List.length_map, List.length_map, hlength]
  have hpad := length_leafLevel xs
  have hpad' := length_leafLevel ys
  have hroots := buildLoop_eq_of_blockTree hu
  rw [show (leafLevel ys).length = (leafLevel xs).length by omega] at hroots
  have hnodes : List.Forall₂ (Matches Sha256.sum combined) (leafLevel xs) (leafLevel ys) := by
    apply forall₂_of_buildLoop Matches.children (by omega) (.inr (by omega))
    rw [buildLoop_eq_of_blockTree ht, hroots]
    exact .cons hmatch .nil
  have hleaves := forall₂_of_padLevel hmap hnodes
  rw [List.forall₂_map_left_iff, List.forall₂_map_right_iff] at hleaves
  apply List.forall₂_eq_eq_eq ▸ hleaves.imp _
  intro a b h
  cases h with
  | leaf => rfl

/-- Among lists of one length the root determines the list. -/
theorem binds_of_length {xs ys : List Bytes} (hlength : xs.length = ys.length) : Binds xs ys := by
  intro heq hne
  rcases sameTree_or_collision heq hne with hsame | hcol
  · exact .inl (hsame.eq_of_length hlength)
  · exact .inr hcol

/-- The repeated last block is not told from one that was there. -/
theorem sameTree_padLevel {xs : List Bytes} (hne : xs ≠ []) : SameTree xs (padLevel xs) := by
  obtain ⟨t, ht⟩ := exists_blockTree hne
  refine ⟨t, ht, t, ?_, Matches.refl t⟩
  unfold blockTree leafLevel at ht ⊢
  rwa [padLevel_map, padLevel_padLevel, ← padLevel_map]

theorem blockTree_two (a b : Bytes) : blockTree [a, b] = some (.node (.leaf a) (.leaf b)) := by
  simp [blockTree, leafLevel, padLevel, buildLoop, pairUp]

theorem blockTree_four (a b c d : Bytes) : blockTree [a, b, c, d]
    = some (.node (.node (.leaf a) (.leaf b)) (.node (.leaf c) (.leaf d))) := by
  simp [blockTree, leafLevel, padLevel, buildLoop, pairUp]

/-- Two pairs of blocks are not told from the two joined pairs of their digests. -/
theorem sameTree_joined (a b c d : Bytes) : SameTree [a, b, c, d]
    [combined (Sha256.sum a) (Sha256.sum b), combined (Sha256.sum c) (Sha256.sum d)] := by
  refine ⟨_, blockTree_four a b c d, _, blockTree_two _ _, ?_⟩
  apply Matches.node
  · exact .joinedRight (.leaf a) (.leaf b)
  · exact .joinedRight (.leaf c) (.leaf d)

/-- One block has the root of the block twice, and nothing that is hashed collides. -/
theorem snapshot_root_not_binding : ¬ Binds [[0x61]] [[0x61], [0x61]] := by
  have hsame : SameTree [[0x61]] [[0x61], [0x61]] := sameTree_padLevel (List.cons_ne_nil _ _)
  obtain ⟨heq, hne⟩ := hsame.rootHex_eq
  intro hbinds
  rcases hbinds heq hne with h | ⟨t, ht, u, hu, a, ha, b, hb, hab, hsum⟩
  · simp at h
  · obtain rfl : HashTree.Tree.node (.leaf [0x61]) (.leaf [0x61]) = t := Option.some.inj ht
    obtain rfl : HashTree.Tree.node (.leaf [0x61]) (.leaf [0x61]) = u :=
      Option.some.inj ((blockTree_two _ _).symm.trans hu)
    have hinputs : ∀ a ∈ inputs Sha256.sum combined (.node (.leaf [0x61]) (.leaf [0x61])),
        ∀ b ∈ inputs Sha256.sum combined (.node (.leaf [0x61]) (.leaf [0x61])),
          Sha256.sum a = Sha256.sum b → a = b := by
      decide +kernel
    exact hab (hinputs a ha b hb hsum)

end Owasaka.Integrity
