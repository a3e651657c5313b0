import Mathlib.Tactic.Ring

/-! # Byte strings

    Byte strings as lists of `UInt8`, their lexicographic order, fixed-width
    big-endian encodings and their order, little-endian encodings, and copying into
    a zeroed array. -/

/-- A byte string. -/
abbrev Bytes : Type := List UInt8

namespace Bytes

/-! ## Section 1: Big-endian encodings -/

/-- The `w` low base-256 digits of `n`, most significant first. -/
def bigEndian : Nat → Nat → Bytes
  | 0, _ => []
  | w + 1, n => UInt8.ofNat (n / 256 ^ w) :: bigEndian w n

/-- Only the low `w` digits are encoded. -/
theorem bigEndian_mod (w n : Nat) : bigEndian w (n % 256 ^ w) = bigEndian w n := by
  suffices hsuff : ∀ v, v ≤ w → bigEndian v (n % 256 ^ w) = bigEndian v n from
    hsuff w (Nat.le_refl w)
  intro v
  induction v with
  | zero => intro _; rfl
  | succ v ih =>
    intro hv
    have hdigit : UInt8.ofNat (n % 256 ^ w / 256 ^ v) = UInt8.ofNat (n / 256 ^ v) := by
      apply UInt8.toNat_inj.mp
      obtain ⟨d, rfl⟩ : ∃ d, w = v + 1 + d := ⟨w - (v + 1), by omega⟩
      have hpow : 256 ^ (v + 1 + d) = 256 ^ v * (256 * 256 ^ d) := by ring
      simp only [UInt8.toNat_ofNat', hpow, Nat.mod_mul_right_div_self, Nat.reducePow]
      rw [Nat.mod_mul_right_mod]
    simp only [bigEndian, hdigit, ih (by omega)]

/-- In range, the lexicographic order of the encodings is the numeric order. -/
theorem compare_bigEndian_of_lt : ∀ (w i j : Nat), i < j → j < 256 ^ w →
    compare (bigEndian w i) (bigEndian w j) = .lt := by
  intro w
  induction w with
  | zero => intro i j hij hj; simp at hj; omega
  | succ w ih =>
    intro i j hij hj
    have hpow : 256 ^ (w + 1) = 256 ^ w * 256 := pow_succ _ _
    have hpos : 0 < 256 ^ w := Nat.pow_pos (by omega)
    have hdj : j / 256 ^ w < 256 := Nat.div_lt_of_lt_mul (by omega)
    have hle : i / 256 ^ w ≤ j / 256 ^ w := Nat.div_le_div_right (by omega)
    have hti : (UInt8.ofNat (i / 256 ^ w)).toNat = i / 256 ^ w := by
      simp only [UInt8.toNat_ofNat', Nat.reducePow]; exact Nat.mod_eq_of_lt (by omega)
    have htj : (UInt8.ofNat (j / 256 ^ w)).toNat = j / 256 ^ w := by
      simp only [UInt8.toNat_ofNat', Nat.reducePow]; exact Nat.mod_eq_of_lt hdj
    unfold bigEndian
    rw [List.compare_eq_compareLex, List.compareLex_cons_cons]
    rcases Nat.lt_or_eq_of_le hle with hlt | heq
    · -- the leading digits differ
      have hdigit : compare (UInt8.ofNat (i / 256 ^ w)) (UInt8.ofNat (j / 256 ^ w)) = .lt := by
        rw [Std.compare_eq_lt, UInt8.lt_iff_toNat_lt, hti, htj]
        exact hlt
      rw [hdigit]
      rfl
    · -- equal leading digits: compare the remainders
      rw [heq, Std.compare_self, Ordering.eq_then, ← List.compare_eq_compareLex,
        ← bigEndian_mod w i, ← bigEndian_mod w j]
      apply ih _ _ _ (Nat.mod_lt _ hpos)
      have hi := Nat.div_add_mod i (256 ^ w)
      have hj := Nat.div_add_mod j (256 ^ w)
      rw [heq] at hi
      omega

@[simp] theorem length_bigEndian (w n : Nat) : (bigEndian w n).length = w := by
  induction w with
  | zero => rfl
  | succ w ih => simp [bigEndian, ih]

/-- In range, a number is determined by its encoding. -/
theorem bigEndian_injOn {w i j : Nat} (hi : i < 256 ^ w) (hj : j < 256 ^ w)
    (heq : bigEndian w i = bigEndian w j) : i = j := by
  rcases Nat.lt_trichotomy i j with hlt | heq' | hgt
  · have hcmp := compare_bigEndian_of_lt w i j hlt hj
    simp [heq] at hcmp
  · exact heq'
  · have hcmp := compare_bigEndian_of_lt w j i hgt hi
    simp [heq] at hcmp

/-- The number with these base-256 digits, most significant first. -/
def ofBigEndian (b : Bytes) : Nat := b.foldl (fun n c => 256 * n + c.toNat) 0

theorem foldl_bigEndian (w n acc : Nat) :
    (bigEndian w n).foldl (fun m c => 256 * m + c.toNat) acc = 256 ^ w * acc + n % 256 ^ w := by
  induction w generalizing acc with
  | zero => simp [bigEndian, Nat.mod_one]
  | succ w ih =>
    rw [bigEndian, List.foldl_cons, ih]
    have hdigit : (UInt8.ofNat (n / 256 ^ w)).toNat = n / 256 ^ w % 256 := by simp
    have hsplit : n % 256 ^ (w + 1) = n % 256 ^ w + 256 ^ w * (n / 256 ^ w % 256) := by
      rw [Nat.pow_succ, Nat.mod_mul]
    rw [hdigit, hsplit]
    ring

theorem ofBigEndian_bigEndian {w n : Nat} (hn : n < 256 ^ w) : ofBigEndian (bigEndian w n) = n := by
  rw [ofBigEndian, foldl_bigEndian, Nat.mod_eq_of_lt hn]
  simp

/-- The `w` low base-256 digits of `n`, least significant first. -/
def littleEndian (w n : Nat) : Bytes := (bigEndian w n).reverse

/-- The number with these base-256 digits, least significant first. -/
def ofLittleEndian (b : Bytes) : Nat := ofBigEndian b.reverse

@[simp] theorem length_littleEndian (w n : Nat) : (littleEndian w n).length = w := by
  simp [littleEndian]

theorem ofLittleEndian_littleEndian {w n : Nat} (hn : n < 256 ^ w) :
    ofLittleEndian (littleEndian w n) = n := by
  rw [ofLittleEndian, littleEndian, List.reverse_reverse, ofBigEndian_bigEndian hn]

theorem ofBigEndian_lt (b : Bytes) : ofBigEndian b < 256 ^ b.length := by
  suffices hsuff : ∀ (b : Bytes) (acc : Nat),
      b.foldl (fun n c => 256 * n + c.toNat) acc < 256 ^ b.length * (acc + 1) from by
    simpa [ofBigEndian] using hsuff b 0
  intro b
  induction b with
  | nil => intro acc; simp
  | cons c b ih =>
    intro acc
    have hlt : c.toNat < 256 := c.toNat_lt
    calc (c :: b).foldl (fun n c => 256 * n + c.toNat) acc
        < 256 ^ b.length * (256 * acc + c.toNat + 1) := ih _
      _ ≤ 256 ^ b.length * (256 * (acc + 1)) := Nat.mul_le_mul_left _ (by omega)
      _ = 256 ^ (c :: b).length * (acc + 1) := by rw [List.length_cons, pow_succ]; ring

/-- A string of bytes is the encoding of its number. -/
theorem bigEndian_ofBigEndian (b : Bytes) : bigEndian b.length (ofBigEndian b) = b := by
  suffices hsuff : ∀ (b : Bytes) (acc : Nat),
      bigEndian b.length (b.foldl (fun n c => 256 * n + c.toNat) acc) = b
        ∧ b.foldl (fun n c => 256 * n + c.toNat) acc / 256 ^ b.length = acc from (hsuff b 0).1
  intro b
  induction b with
  | nil => intro acc; simp [bigEndian]
  | cons c b ih =>
    intro acc
    obtain ⟨htail, hquot⟩ := ih (256 * acc + c.toNat)
    have hlt : c.toNat < 256 := c.toNat_lt
    rw [List.foldl_cons, List.length_cons, bigEndian, htail, hquot]
    refine ⟨?_, ?_⟩
    · congr 1
      apply UInt8.toNat_inj.mp
      rw [UInt8.toNat_ofNat']
      omega
    · rw [Nat.pow_succ, ← Nat.div_div_eq_div_mul, hquot]
      omega

/-! ## Section 2: Copying into an array -/

/-- Copy a byte string into a zeroed array of `n` bytes: what is too long is
    cut, what is too short stays zero. -/
def copyTo (n : Nat) (src : Bytes) : Vector UInt8 n :=
  Vector.ofFn fun i => src.getD i 0

@[simp] theorem copyTo_toList {n : Nat} (v : Vector UInt8 n) : copyTo n v.toList = v := by
  apply Vector.ext
  intro i hi
  simp [copyTo]

/-- Strings of the array's length are copied whole. -/
theorem copyTo_inj {n : Nat} {src src' : Bytes} (hlen : src.length = n) (hlen' : src'.length = n)
    (heq : copyTo n src = copyTo n src') : src = src' := by
  apply List.ext_getElem (by rw [hlen, hlen'])
  intro i hi hi'
  have hget : (copyTo n src).toList[i]? = (copyTo n src').toList[i]? := by rw [heq]
  simpa [copyTo, hlen ▸ hi, hi, hi'] using hget

end Bytes
