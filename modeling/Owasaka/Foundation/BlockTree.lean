import Owasaka.Foundation.HashTree

/-! # Hash trees of blocks

    Binary trees whose leaves are blocks and whose inner nodes are blocks too, joined
    of the digests of their children.  One hash function is applied to both kinds, so a
    digest tells two trees apart only up to `Matches`: a block at a leaf may be the
    block that the other tree joins there.

    This file defines:
    - `digest`, `inputs`: the root of a tree, and the blocks hashed on the way
    - `Matches`: the trees that have the same digest for this reason
    - `Collides`: two hashed blocks with one digest
    and proves that trees with one digest match unless hashed blocks collide. -/

namespace BlockTree

variable {β δ : Type} (H : β → δ) (join : δ → δ → β)

def digest : HashTree.Tree β → δ
  | .leaf b => H b
  | .node l r => H (join (digest l) (digest r))

/-- The block that is hashed last. -/
def top : HashTree.Tree β → β
  | .leaf b => b
  | .node l r => join (digest H join l) (digest H join r)

/-- The blocks that are hashed. -/
def inputs : HashTree.Tree β → List β
  | .leaf b => [b]
  | .node l r => join (digest H join l) (digest H join r) :: (inputs l ++ inputs r)

inductive Matches : HashTree.Tree β → HashTree.Tree β → Prop where
  | leaf (b : β) : Matches (.leaf b) (.leaf b)
  | node {l r l' r' : HashTree.Tree β} : Matches l l' → Matches r r' → Matches (.node l r) (.node l' r')
  | joinedLeft (l r : HashTree.Tree β) : Matches (.leaf (join (digest H join l) (digest H join r))) (.node l r)
  | joinedRight (l r : HashTree.Tree β) : Matches (.node l r) (.leaf (join (digest H join l) (digest H join r)))

/-- Two different hashed blocks have one digest. -/
def Collides (t u : HashTree.Tree β) : Prop :=
  ∃ a ∈ inputs H join t, ∃ b ∈ inputs H join u, a ≠ b ∧ H a = H b

variable {H join} {t u l r l' r' : HashTree.Tree β}

theorem digest_eq_top (t : HashTree.Tree β) : digest H join t = H (top H join t) := by cases t <;> rfl

theorem top_mem_inputs (t : HashTree.Tree β) : top H join t ∈ inputs H join t := by
  cases t <;> simp [top, inputs]

theorem Matches.refl (t : HashTree.Tree β) : Matches H join t t := by
  induction t with
  | leaf b => exact .leaf b
  | node l r ihl ihr => exact .node ihl ihr

theorem Matches.digest_eq (h : Matches H join t u) : digest H join t = digest H join u := by
  induction h with
  | leaf b => rfl
  | node _ _ ihl ihr => simp only [digest, ihl, ihr]
  | joinedLeft l r => rfl
  | joinedRight l r => rfl

theorem Matches.children (l r l' r' : HashTree.Tree β) (h : Matches H join (.node l r) (.node l' r')) :
    Matches H join l l' ∧ Matches H join r r' := by
  cases h with
  | node hl hr => exact ⟨hl, hr⟩

theorem Collides.left (h : Collides H join l l') : Collides H join (.node l r) (.node l' r') := by
  obtain ⟨a, ha, b, hb, hne⟩ := h
  exact ⟨a, by simp [inputs, ha], b, by simp [inputs, hb], hne⟩

theorem Collides.right (h : Collides H join r r') : Collides H join (.node l r) (.node l' r') := by
  obtain ⟨a, ha, b, hb, hne⟩ := h
  exact ⟨a, by simp [inputs, ha], b, by simp [inputs, hb], hne⟩

/-- Trees with one digest hash the same block last, or two blocks collide. -/
theorem top_eq_or_collides (heq : digest H join t = digest H join u) :
    top H join t = top H join u ∨ Collides H join t u := by
  rw [digest_eq_top, digest_eq_top] at heq
  by_cases htop : top H join t = top H join u
  · exact .inl htop
  · exact .inr ⟨_, top_mem_inputs t, _, top_mem_inputs u, htop, heq⟩

/-- **Binding**: trees with one digest match, or two hashed blocks collide. -/
theorem matches_or_collides
    (hjoin : ∀ a b a' b', join a b = join a' b' → a = a' ∧ b = b')
    (heq : digest H join t = digest H join u) : Matches H join t u ∨ Collides H join t u := by
  induction t generalizing u with
  | leaf b =>
    rcases top_eq_or_collides heq with htop | hcol
    · cases u with
      | leaf b' =>
        obtain rfl : b = b' := htop
        exact .inl (.leaf b)
      | node l r =>
        obtain rfl : b = join (digest H join l) (digest H join r) := htop
        exact .inl (.joinedLeft l r)
    · exact .inr hcol
  | node l r ihl ihr =>
    rcases top_eq_or_collides heq with htop | hcol
    · cases u with
      | leaf b' =>
        obtain rfl : join (digest H join l) (digest H join r) = b' := htop
        exact .inl (.joinedRight l r)
      | node l' r' =>
        -- the joined digests are those of the children
        obtain ⟨hl, hr⟩ := hjoin _ _ _ _ htop
        rcases ihl hl with hml | hcol
        · rcases ihr hr with hmr | hcol
          · exact .inl (.node hml hmr)
          · exact .inr hcol.right
        · exact .inr hcol.left
    · exact .inr hcol

end BlockTree
