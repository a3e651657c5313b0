import Mathlib.Data.Set.Function
import Mathlib.Data.List.Basic

/-! # Binary hash trees

    Binary trees whose leaves carry digests and whose inner nodes are hashed
    with an arbitrary two-argument function `h`.  The module develops

    * the root of a tree and the list of `h`-inputs its computation evaluates,
    * climbing from a digest along a list of (side, sibling) steps, and the
      `h`-inputs that the climb evaluates,
    * audit paths: completeness (the climb reproduces the root) and soundness
      (a climb that reproduces the root is an audit path of the tree, unless
      `h` is not injective on the inputs that were evaluated, or the climb is
      too short or too long for the tree).

    Soundness is relative to a set `C` of `h`-inputs on which `h` is injective,
    so nothing is assumed about `h` outside the inputs of the run. -/

namespace HashTree

/-! ## Section 1: Trees, roots and evaluated inputs -/

/-- A binary tree with digests at its leaves. -/
inductive Tree (α : Type _) where
  | leaf : α → Tree α
  | node : Tree α → Tree α → Tree α

/-- The side on which the climbing node hangs below its parent. -/
inductive Side where
  | left
  | right
  deriving DecidableEq, Repr

/-- One level of a climb: the side of the current node and its sibling. -/
abbrev Step (α : Type _) : Type _ := Side × α

section
variable {α : Type _} (h : α → α → α)

def root : Tree α → α
  | .leaf a => a
  | .node l r => h (root l) (root r)

/-- The inputs of `h` evaluated while the root is computed. -/
def calls : Tree α → List (α × α)
  | .leaf _ => []
  | .node l r => calls l ++ calls r ++ [(root h l, root h r)]

/-- Leaves in left-to-right order. -/
def leaves : Tree α → List α
  | .leaf a => [a]
  | .node l r => leaves l ++ leaves r

/-- The two arguments of `h` at one level. -/
def children (cur : α) : Step α → α × α
  | (.left, p) => (cur, p)
  | (.right, p) => (p, cur)

/-- Climb from `cur`, deepest step first. -/
def climb (cur : α) : List (Step α) → α
  | [] => cur
  | s :: ss => climb (h (children cur s).1 (children cur s).2) ss

/-- The inputs of `h` evaluated by a climb. -/
def climbCalls (cur : α) : List (Step α) → List (α × α)
  | [] => []
  | s :: ss =>
      children cur s :: climbCalls (h (children cur s).1 (children cur s).2) ss

@[simp] theorem climb_nil (cur : α) : climb h cur [] = cur := rfl

theorem climb_append (cur : α) (ss ts : List (Step α)) :
    climb h cur (ss ++ ts) = climb h (climb h cur ss) ts := by
  induction ss generalizing cur with
  | nil => rfl
  | cons s ss ih => simp only [List.cons_append, climb, ih]

theorem climbCalls_append (cur : α) (ss ts : List (Step α)) :
    climbCalls h cur (ss ++ ts)
      = climbCalls h cur ss ++ climbCalls h (climb h cur ss) ts := by
  induction ss generalizing cur with
  | nil => rfl
  | cons s ss ih => simp only [List.cons_append, climb, climbCalls, ih]

/-- The last level of a climb is one application of `h`. -/
theorem climb_concat (cur : α) (ss : List (Step α)) (s : Step α) :
    climb h cur (ss ++ [s])
      = h (children (climb h cur ss) s).1 (children (climb h cur ss) s).2 := by
  rw [climb_append]; rfl

theorem climbCalls_concat (cur : α) (ss : List (Step α)) (s : Step α) :
    climbCalls h cur (ss ++ [s])
      = climbCalls h cur ss ++ [children (climb h cur ss) s] := by
  rw [climbCalls_append]; rfl

/-- The inputs of a node are those of its children and one more. -/
theorem forall_calls_node {P : α × α → Prop} {l r : Tree α} :
    (∀ p ∈ calls h (.node l r), P p) ↔
      (∀ p ∈ calls h l, P p) ∧ (∀ p ∈ calls h r, P p) ∧ P (root h l, root h r) := by
  rw [calls, List.forall_mem_append, List.forall_mem_append, List.forall_mem_singleton, and_assoc]

theorem forall_climbCalls_concat {P : α × α → Prop} {cur : α} {ss : List (Step α)} {s : Step α} :
    (∀ p ∈ climbCalls h cur (ss ++ [s]), P p) ↔
      (∀ p ∈ climbCalls h cur ss, P p) ∧ P (children (climb h cur ss) s) := by
  rw [climbCalls_concat, List.forall_mem_append, List.forall_mem_singleton]

/-! ## Section 2: Audit paths -/

/-- `AuditPath h t ss a`: the steps `ss`, deepest first, lead from the leaf
    `a` of `t` to the root of `t` with the siblings of the tree. -/
inductive AuditPath : Tree α → List (Step α) → α → Prop where
  | leaf : ∀ a, AuditPath (.leaf a) [] a
  | left : ∀ {l r ss a}, AuditPath l ss a →
      AuditPath (.node l r) (ss ++ [(.left, root h r)]) a
  | right : ∀ {l r ss a}, AuditPath r ss a →
      AuditPath (.node l r) (ss ++ [(.right, root h l)]) a

/-- Completeness: climbing an audit path reproduces the root. -/
theorem climb_auditPath {t : Tree α} {ss : List (Step α)} {a : α}
    (hp : AuditPath h t ss a) : climb h a ss = root h t := by
  induction hp with
  | leaf a => rfl
  | left _ ih => rw [climb_concat, ih]; rfl
  | right _ ih => rw [climb_concat, ih]; rfl

/-! ## Section 3: Soundness -/

/-- Peeling the top level: a climb that ends in the root of a node has the two
    children's roots as its last input. -/
theorem children_of_climb_concat {C : Set (α × α)}
    (hinj : Set.InjOn (Function.uncurry h) C) {l r : Tree α} {cur : α}
    {ss : List (Step α)} {s : Step α}
    (htree : ∀ p ∈ calls h (.node l r), p ∈ C)
    (hclimb : ∀ p ∈ climbCalls h cur (ss ++ [s]), p ∈ C)
    (heq : climb h cur (ss ++ [s]) = root h (.node l r)) :
    children (climb h cur ss) s = (root h l, root h r) := by
  obtain ⟨_, hlast⟩ := (forall_climbCalls_concat h).mp hclimb
  obtain ⟨_, _, hnode⟩ := (forall_calls_node h).mp htree
  rw [climb_concat] at heq
  exact hinj hlast hnode heq

/-- Soundness: a climb that ends in the root of `t` is an audit path of `t`,
    or it starts at an inner node of `t` (too short), or one of its inner
    nodes is a leaf of `t` (too long).  `h` is injective on a set `C` that
    holds the inputs of the run. -/
theorem auditPath_of_climb {C : Set (α × α)}
    (hinj : Set.InjOn (Function.uncurry h) C) :
    ∀ (t : Tree α) (ss : List (Step α)) (cur : α),
      (∀ p ∈ calls h t, p ∈ C) → (∀ p ∈ climbCalls h cur ss, p ∈ C) →
      climb h cur ss = root h t →
      AuditPath h t ss cur
        ∨ (∃ p ∈ calls h t, cur = h p.1 p.2)
        ∨ (∃ a ∈ leaves t, ∃ p ∈ climbCalls h cur ss, a = h p.1 p.2) := by
  intro t
  induction t with
  | leaf a =>
    intro ss cur _ _ heq
    rcases List.eq_nil_or_concat ss with rfl | ⟨ss, s, rfl⟩
    · -- no step: the start is the leaf itself
      have hcur : cur = a := heq
      subst hcur
      exact Or.inl (AuditPath.leaf _)
    · -- a step too many: the leaf is an output of `h`
      rw [List.concat_eq_append] at heq ⊢
      rw [climb_concat] at heq
      refine Or.inr (Or.inr ⟨a, by simp [leaves], children (climb h cur ss) s, ?_, heq.symm⟩)
      rw [climbCalls_concat]
      simp
  | node l r ihl ihr =>
    intro ss cur htree hclimb heq
    rcases List.eq_nil_or_concat ss with rfl | ⟨ss, s, rfl⟩
    · -- a step too few: the start is an inner node
      exact Or.inr (Or.inl ⟨(root h l, root h r), by simp [calls], heq⟩)
    · rw [List.concat_eq_append] at heq hclimb ⊢
      have htop := children_of_climb_concat h hinj htree hclimb heq
      obtain ⟨hbelow, _⟩ := (forall_climbCalls_concat h).mp hclimb
      obtain ⟨hl, hr, _⟩ := (forall_calls_node h).mp htree
      rw [climbCalls_concat]
      obtain ⟨side, sib⟩ := s
      cases side with
      | left =>
        simp only [children, Prod.mk.injEq] at htop
        obtain ⟨hcur, hsib⟩ := htop
        subst hsib
        rcases ihl ss cur hl hbelow hcur with hp | ⟨p, hp, hc⟩ | ⟨a, ha, p, hp, hc⟩
        · exact Or.inl (AuditPath.left hp)
        · exact Or.inr (Or.inl ⟨p, by simp [calls, hp], hc⟩)
        · exact Or.inr (Or.inr ⟨a, by simp [leaves, ha], p,
            List.mem_append_left _ hp, hc⟩)
      | right =>
        simp only [children, Prod.mk.injEq] at htop
        obtain ⟨hsib, hcur⟩ := htop
        subst hsib
        rcases ihr ss cur hr hbelow hcur with hp | ⟨p, hp, hc⟩ | ⟨a, ha, p, hp, hc⟩
        · exact Or.inl (AuditPath.right hp)
        · exact Or.inr (Or.inl ⟨p, by simp [calls, hp], hc⟩)
        · exact Or.inr (Or.inr ⟨a, by simp [leaves, ha], p,
            List.mem_append_left _ hp, hc⟩)

end

end HashTree
