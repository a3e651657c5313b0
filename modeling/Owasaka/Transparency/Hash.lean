import Mathlib.Data.List.Nodup
import Owasaka.Foundation.Sha256
import Owasaka.Foundation.SplitTree

/-! # The transparency log's hashing (`hash.go`)

    Leaf and inner-node hashing with the `0x00` / `0x01` prefixes, the split
    point `largestPowerOfTwoLessThan` and `MerkleTreeHash`, with the calls of
    the hash functions that a run evaluates.  A *collision* of a run is a pair
    of its calls with different SHA-256 inputs and the same digest. -/

namespace Owasaka.Transparency

open HashTree

/-- `RootHash` is `[32]byte`. -/
abbrev RootHash : Type := Sha256.Digest

/-- The zero value `RootHash{}`. -/
def zeroHash : RootHash := Vector.replicate 32 0

def leafPrefix : UInt8 := 0x00
def innerPrefix : UInt8 := 0x01

/-! ## Section 1: Hash calls -/

/-- A call of `HashLeaf` or of `HashChildren`. -/
inductive HashCall where
  | leaf (payload : Bytes)
  | children (left right : RootHash)
  deriving DecidableEq

/-- The bytes that the call writes to SHA-256. -/
def HashCall.input : HashCall → Bytes
  | .leaf payload => leafPrefix :: payload
  | .children left right => innerPrefix :: (left.toList ++ right.toList)

def HashCall.output (c : HashCall) : RootHash := Sha256.sum c.input

def hashLeaf (payload : Bytes) : RootHash := (HashCall.leaf payload).output

def hashChildren (left right : RootHash) : RootHash := (HashCall.children left right).output

/-- SHA-256 of the empty string. -/
def emptyRoot : RootHash := Sha256.sum []

/-- The `HashChildren` call with the given pair of arguments. -/
def childrenCall (p : RootHash × RootHash) : HashCall := .children p.1 p.2

/-- Two calls of a run with different inputs and one digest. -/
def Collision (calls : List HashCall) : Prop :=
  ∃ a ∈ calls, ∃ b ∈ calls, a.input ≠ b.input ∧ a.output = b.output

theorem HashCall.input_injective : Function.Injective HashCall.input := by
  intro a b heq
  cases a with
  | leaf p =>
    cases b with
    | leaf q => simpa [HashCall.input] using heq
    -- the prefixes tell a leaf from an inner node
    | children l r => simp [HashCall.input, leafPrefix, innerPrefix] at heq
  | children l r =>
    cases b with
    | leaf q => simp [HashCall.input, leafPrefix, innerPrefix] at heq
    | children l' r' =>
      simp only [HashCall.input, List.cons.injEq, true_and] at heq
      -- digests have one length, so the concatenation splits one way
      have hlen : l.toList.length = l'.toList.length := by simp
      obtain ⟨hl, hr⟩ := List.append_inj heq hlen
      rw [Vector.toList_inj.mp hl, Vector.toList_inj.mp hr]

/-- Without a collision, calls with one digest are one call. -/
theorem eq_of_output_eq {calls : List HashCall} (hfree : ¬ Collision calls)
    {a b : HashCall} (ha : a ∈ calls) (hb : b ∈ calls) (heq : a.output = b.output) :
    a = b := by
  by_contra hne
  exact hfree ⟨a, ha, b, hb, fun h => hne (HashCall.input_injective h), heq⟩

/-- Calls whose digests start with different bytes do not collide. -/
theorem not_collision_of_nodup {calls : List HashCall} (distinct : List HashCall)
    (hsub : ∀ c ∈ calls, c ∈ distinct)
    (hnodup : (distinct.map fun c => c.output[0]).Nodup) : ¬ Collision calls := by
  intro ⟨a, ha, b, hb, hne, heq⟩
  have hab : a = b :=
    List.inj_on_of_nodup_map hnodup (hsub a ha) (hsub b hb) (by simp only [heq])
  exact hne (by rw [hab])

/-- Without a collision, `HashChildren` is injective on the pairs it was called with. -/
theorem hashChildren_injOn {calls : List HashCall} (hfree : ¬ Collision calls) :
    Set.InjOn (Function.uncurry hashChildren) {p | childrenCall p ∈ calls} := by
  intro ⟨l, r⟩ hp ⟨l', r'⟩ hq heq
  have hcall := eq_of_output_eq hfree hp hq heq
  simpa [childrenCall] using hcall

/-! ## Section 2: The split point -/

/-- The loop `for k*2 < n { k *= 2 }`, for at most `fuel` rounds. -/
def doubleWhile (n : Nat) : Nat → Nat → Nat
  | 0, k => k
  | fuel + 1, k => if k * 2 < n then doubleWhile n fuel (k * 2) else k

/-- `n` rounds are more than the loop ever takes. -/
def largestPowerOfTwoLessThan (n : Nat) : Nat :=
  if n ≤ 1 then 0 else doubleWhile n n 1

theorem doubleWhile_eq_split (n : Nat) : ∀ fuel e : Nat, 2 ^ e < n → n ≤ 2 ^ (e + 1 + fuel) →
    doubleWhile n fuel (2 ^ e) = split n := by
  -- `k` is always a power of two below `n`; the bound on `n` halves each round
  intro fuel
  induction fuel with
  | zero =>
    intro e hlo hhi
    rw [doubleWhile]
    exact (split_eq hlo hhi).symm
  | succ fuel ih =>
    intro e hlo hhi
    have hpow : 2 ^ e * 2 = 2 ^ (e + 1) := (pow_succ _ _).symm
    rw [doubleWhile, hpow]
    by_cases hlt : 2 ^ (e + 1) < n
    · rw [if_pos hlt]
      exact ih (e + 1) hlt (by rw [show e + 1 + 1 + fuel = e + 1 + (fuel + 1) from by omega]; exact hhi)
    · rw [if_neg hlt]
      exact (split_eq hlo (by omega)).symm

theorem largestPowerOfTwoLessThan_eq_split {n : Nat} (hn : 2 ≤ n) :
    largestPowerOfTwoLessThan n = split n := by
  have hpow : n < 2 ^ n := Nat.lt_two_pow_self
  have hpow' : 2 ^ (0 + 1 + n) = 2 * 2 ^ n := by rw [Nat.zero_add, Nat.add_comm, pow_succ']
  rw [largestPowerOfTwoLessThan, if_neg (by omega)]
  exact doubleWhile_eq_split n n 0 (by omega) (by omega)

/-! ## Section 3: `MerkleTreeHash` -/

theorem lengths_of_split {D : List RootHash} (hD : 2 ≤ D.length) :
    (D.take (largestPowerOfTwoLessThan D.length)).length < D.length
      ∧ (D.drop (largestPowerOfTwoLessThan D.length)).length < D.length := by
  have hlt := split_lt hD
  have hpos := split_pos D.length
  rw [largestPowerOfTwoLessThan_eq_split hD, List.length_take, List.length_drop]
  omega

def merkleTreeHash (leafHashes : List RootHash) : RootHash :=
  match leafHashes with
  | [] => emptyRoot
  | [a] => a
  | a :: b :: rest =>
    let k := largestPowerOfTwoLessThan (a :: b :: rest).length
    let left := merkleTreeHash ((a :: b :: rest).take k)
    let right := merkleTreeHash ((a :: b :: rest).drop k)
    hashChildren left right
termination_by leafHashes.length
decreasing_by
  · exact (lengths_of_split (by simp)).1
  · exact (lengths_of_split (by simp)).2

/-- The calls that `merkleTreeHash` evaluates. -/
def merkleTreeHashCalls (leafHashes : List RootHash) : List HashCall :=
  match leafHashes with
  | [] => []
  | [_] => []
  | a :: b :: rest =>
    let k := largestPowerOfTwoLessThan (a :: b :: rest).length
    merkleTreeHashCalls ((a :: b :: rest).take k)
      ++ merkleTreeHashCalls ((a :: b :: rest).drop k)
      ++ [.children (merkleTreeHash ((a :: b :: rest).take k))
            (merkleTreeHash ((a :: b :: rest).drop k))]
termination_by leafHashes.length
decreasing_by
  · exact (lengths_of_split (by simp)).1
  · exact (lengths_of_split (by simp)).2

/-- `MerkleTreeHash` is the root of the split tree. -/
theorem merkleTreeHash_eq_root (D : List RootHash) :
    merkleTreeHash D = root hashChildren (ofList emptyRoot D) := by
  fun_induction merkleTreeHash D with
  | case1 => rw [ofList_of_le_one _ (by simp)]; rfl
  | case2 a => rw [ofList_singleton]; rfl
  | case3 a b rest k left right ihl ihr =>
    have h2 : 2 ≤ (a :: b :: rest).length := by simp
    have hk : k = split (a :: b :: rest).length := largestPowerOfTwoLessThan_eq_split h2
    rw [ofList_of_two_le _ h2, ← hk, root, ← ihl, ← ihr]

theorem merkleTreeHashCalls_eq_calls (D : List RootHash) :
    merkleTreeHashCalls D = (calls hashChildren (ofList emptyRoot D)).map childrenCall := by
  fun_induction merkleTreeHashCalls D with
  | case1 => rw [ofList_of_le_one _ (by simp)]; rfl
  | case2 a => rw [ofList_singleton]; rfl
  | case3 a b rest k ihl ihr =>
    have h2 : 2 ≤ (a :: b :: rest).length := by simp
    have hk : k = split (a :: b :: rest).length := largestPowerOfTwoLessThan_eq_split h2
    rw [ofList_of_two_le _ h2, ← hk, calls, List.map_append, List.map_append, ← ihl, ← ihr,
      merkleTreeHash_eq_root, merkleTreeHash_eq_root]
    rfl

/-- Every input of the split tree is a call of `MerkleTreeHash`. -/
theorem childrenCall_mem {D : List RootHash} {p : RootHash × RootHash}
    (hp : p ∈ calls hashChildren (ofList emptyRoot D)) :
    childrenCall p ∈ merkleTreeHashCalls D := by
  rw [merkleTreeHashCalls_eq_calls]
  exact List.mem_map_of_mem hp

end Owasaka.Transparency
