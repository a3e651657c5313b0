import Owasaka.Foundation.JsonNumber

/-! # Floating-point numbers with infinities

    The finite numbers of a format, the two infinities and NaN, with the comparison
    of such values and their text.

    The main result: rounding keeps the order.  Of two numbers that are rounded, the
    one with the smaller result is the smaller number.  It cannot be had the other way
    round, since different numbers may be rounded alike. -/

inductive ExtFloat (F : BinaryFormat) where
  | finite (x : BinaryFloat F)
  | inf (neg : Bool)
  | nan
  deriving DecidableEq

/-- The number with a sign and a magnitude. -/
def signed (neg : Bool) (q : ℚ) : ℚ := if neg then -q else q

namespace BinaryFloat

variable {F : BinaryFormat}

def value (x : BinaryFloat F) : ℚ := signed x.neg x.abs

theorem zero_le_abs (x : BinaryFloat F) : 0 ≤ x.abs :=
  mul_nonneg (Nat.cast_nonneg _) (two_zpow_pos _).le

end BinaryFloat

namespace ExtFloat

variable {F : BinaryFormat}

/-! ## Section 1: Rounding and comparison -/

/-- The nearest number of the format; an infinity when it is too large. -/
def ofSigned (F : BinaryFormat) (neg : Bool) (q : ℚ) : ExtFloat F :=
  match BinaryFloat.ofRat F neg q with
  | some x => .finite x
  | none => .inf neg

def ofInt (n : Int) : ExtFloat F := ofSigned F (n < 0) n.natAbs

/-- The number, unless it is an infinity or NaN. -/
def number : ExtFloat F → Option ℚ
  | .finite x => some x.value
  | .inf _ => none
  | .nan => none

/-- Conversion to another format. -/
def convert {G : BinaryFormat} : ExtFloat F → ExtFloat G
  | .finite x => ofSigned G x.neg x.abs
  | .inf neg => .inf neg
  | .nan => .nan

/-- The comparison `<`, which is false for NaN. -/
def less : ExtFloat F → ExtFloat F → Bool
  | .nan, _ => false
  | _, .nan => false
  | .finite x, .finite y => x.value < y.value
  | .finite _, .inf neg => !neg
  | .inf neg, .finite _ => neg
  | .inf neg, .inf neg' => neg && !neg'

/-! ## Section 2: Texts -/

/-- An exponent of at least two digits, after its sign. -/
def exponentText (exponent : Int) : Bytes :=
  let digits := Bytes.decimal exponent.natAbs
  (if exponent < 0 then 0x2d else 0x2b) :: (if digits.length < 2 then 0x30 :: digits else digits)

/-- Digits with the point after the first one, and an exponent. -/
def scientific (digits : Bytes) (exponent : Int) : Bytes :=
  digits.take 1 ++ (if digits.length ≤ 1 then [] else 0x2e :: digits.drop 1)
    ++ 0x65 :: exponentText exponent

/-- The shortest text, with an exponent when that is below -4 or above 5. -/
def unsignedText (x : BinaryFloat F) : Bytes :=
  match x.shortest with
  | none => [0x30]
  | some (c, k) =>
    let digits := Bytes.trimZeros (Bytes.decimal c)
    let point := k + (Bytes.decimal c).length
    if point - 1 < -4 ∨ 6 ≤ point - 1 then scientific digits (point - 1)
    else JsonText.positional digits point

/-- The text of the verb `%v`. -/
def text : ExtFloat F → Bytes
  | .nan => Bytes.ascii "NaN"
  | .inf neg => (if neg then 0x2d else 0x2b) :: Bytes.ascii "Inf"
  | .finite x =>
    let digits := if x.mant = 0 then [0x30] else unsignedText x
    if x.neg then 0x2d :: digits else digits

end ExtFloat

/-! ## Section 3: Rounding keeps the order -/

namespace BinaryFloat

variable {F : BinaryFormat} {q r : ℚ}

theorem roundHalfEven_mono (hq : 0 ≤ q) (hle : q ≤ r) : roundHalfEven q ≤ roundHalfEven r := by
  have hfloor : ⌊q⌋₊ ≤ ⌊r⌋₊ := Nat.floor_mono hle
  rcases Nat.lt_or_ge ⌊q⌋₊ ⌊r⌋₊ with hlt | hge
  -- an integer lies between the two
  · have hup : roundHalfEven q ≤ ⌊r⌋₊ := by
      apply roundHalfEven_le hq
      exact (Nat.lt_floor_add_one q).trans_le (by exact_mod_cast hlt)
    exact hup.trans (le_roundHalfEven (Nat.floor_le (hq.trans hle)))
  · have heq : ⌊q⌋₊ = ⌊r⌋₊ := le_antisymm hfloor hge
    unfold roundHalfEven
    simp only [heq]
    split_ifs <;> first | omega | (exfalso; linarith)

/-- The magnitude that is rounded to, whatever its size. -/
def rounded (F : BinaryFormat) (q : ℚ) : ℚ :=
  roundHalfEven (q / 2 ^ lastBit F q) * 2 ^ lastBit F q

theorem lastBit_mono (hq : 0 < q) (hle : q ≤ r) : lastBit F q ≤ lastBit F r := by
  have hlog : Int.log 2 q ≤ Int.log 2 r := Int.log_mono_right hq hle
  unfold lastBit
  omega

theorem rounded_zero : rounded F 0 = 0 := by
  simp [rounded, roundHalfEven]

theorem rounded_nonneg : 0 ≤ rounded F q :=
  mul_nonneg (Nat.cast_nonneg _) (two_zpow_pos _).le

/-- The results of greater numbers are not smaller. -/
theorem rounded_mono_of_pos (hq : 0 < q) (hle : q ≤ r) : rounded F q ≤ rounded F r := by
  have hr : 0 < r := hq.trans_le hle
  have hscale : ∀ e : Int, (0 : ℚ) ≤ 2 ^ e := fun e => (two_zpow_pos e).le
  unfold rounded
  rcases (lastBit_mono (F := F) hq hle).eq_or_lt with heq | hlt
  · rw [heq]
    apply mul_le_mul_of_nonneg_right _ (hscale _)
    exact_mod_cast roundHalfEven_mono (div_nonneg hq.le (hscale _))
      (div_le_div_of_nonneg_right hle (hscale _))
  -- the greater number has a greater last bit, and then all its bits
  · have hlow : lastBit F r ≠ F.emin := by
      have hmin : F.emin ≤ lastBit F q := le_max_left _ _
      omega
    have hupper : roundHalfEven (q / 2 ^ lastBit F q) ≤ 2 ^ F.precision :=
      roundHalfEven_le (div_nonneg hq.le (hscale _)) (div_two_zpow_lt q)
    have hlower : 2 ^ (F.precision - 1) ≤ roundHalfEven (r / 2 ^ lastBit F r) :=
      le_roundHalfEven (le_div_two_zpow hr hlow)
    have hpos := F.pos
    calc (roundHalfEven (q / 2 ^ lastBit F q) : ℚ) * 2 ^ lastBit F q
        ≤ ((2 ^ F.precision : Nat) : ℚ) * 2 ^ lastBit F q :=
          mul_le_mul_of_nonneg_right (by exact_mod_cast hupper) (hscale _)
      _ = 2 ^ ((F.precision : Int) + lastBit F q) := by
          push_cast
          rw [← zpow_natCast, ← zpow_add₀ (by norm_num)]
      _ ≤ 2 ^ (((F.precision - 1 : Nat) : Int) + lastBit F r) :=
          zpow_le_zpow_right₀ (by norm_num) (by omega)
      _ = ((2 ^ (F.precision - 1) : Nat) : ℚ) * 2 ^ lastBit F r := by
          push_cast
          rw [zpow_add₀ (by norm_num), zpow_natCast]
      _ ≤ (roundHalfEven (r / 2 ^ lastBit F r) : ℚ) * 2 ^ lastBit F r :=
          mul_le_mul_of_nonneg_right (by exact_mod_cast hlower) (hscale _)

theorem rounded_mono (hq : 0 ≤ q) (hle : q ≤ r) : rounded F q ≤ rounded F r := by
  rcases hq.eq_or_lt with rfl | hpos
  · rw [rounded_zero]
    exact rounded_nonneg
  · exact rounded_mono_of_pos hpos hle

/-- The magnitudes from this one on are too large. -/
def limit (F : BinaryFormat) : ℚ := 2 ^ ((F.precision : Int) + F.emax)

theorem abs_lt_limit (x : BinaryFloat F) : x.abs < limit F := by
  unfold abs limit
  have hmant : (x.mant : ℚ) < 2 ^ F.precision := by exact_mod_cast x.mant_lt
  calc (x.mant : ℚ) * 2 ^ x.exp
      < 2 ^ F.precision * 2 ^ x.exp := mul_lt_mul_of_pos_right hmant (two_zpow_pos _)
    _ ≤ 2 ^ F.precision * 2 ^ F.emax := by
        apply mul_le_mul_of_nonneg_left _ (by positivity)
        exact zpow_le_zpow_right₀ (by norm_num) x.le_emax
    _ = 2 ^ ((F.precision : Int) + F.emax) := by
        rw [zpow_add₀ (by norm_num), zpow_natCast]

/-- One more bit: the same magnitude with a greater exponent. -/
theorem two_pow_mul_succ (F : BinaryFormat) (e : Int) :
    ((2 ^ F.precision : Nat) : ℚ) * 2 ^ e = ((2 ^ (F.precision - 1) : Nat) : ℚ) * 2 ^ (e + 1) := by
  have hpos := F.pos
  have hexp : (F.precision : Int) + e = ((F.precision - 1 : Nat) : Int) + (e + 1) := by omega
  push_cast
  rw [← zpow_natCast, ← zpow_natCast, ← zpow_add₀ (by norm_num), ← zpow_add₀ (by norm_num), hexp]

theorem ofRat_some {neg : Bool} {x : BinaryFloat F} (hq : 0 < q) (hx : ofRat F neg q = some x) :
    x.neg = neg ∧ x.abs = rounded F q := by
  unfold ofRat at hx
  simp only [hq, dif_pos] at hx
  split at hx
  · next hcarry =>
    split at hx
    · cases hx
      refine ⟨rfl, ?_⟩
      unfold abs rounded
      rw [hcarry]
      exact (two_pow_mul_succ F _).symm
    · simp at hx
  · split at hx
    · cases hx
      exact ⟨rfl, rfl⟩
    · simp at hx

theorem ofRat_none {neg : Bool} (hq : 0 < q) (hF : F.emin ≤ F.emax) (hx : ofRat F neg q = none) :
    limit F ≤ rounded F q := by
  have hlimit : ∀ {m : Nat} {e : Int}, 2 ^ (F.precision - 1) ≤ m → F.emax < e →
      limit F ≤ (m : ℚ) * 2 ^ e := by
    intro m e hm he
    have hpos := F.pos
    calc limit F
        ≤ 2 ^ (((F.precision - 1 : Nat) : Int) + e) :=
          zpow_le_zpow_right₀ (by norm_num) (by omega)
      _ = ((2 ^ (F.precision - 1) : Nat) : ℚ) * 2 ^ e := by
          push_cast
          rw [zpow_add₀ (by norm_num), zpow_natCast]
      _ ≤ (m : ℚ) * 2 ^ e :=
          mul_le_mul_of_nonneg_right (by exact_mod_cast hm) (two_zpow_pos e).le
  unfold ofRat at hx
  simp only [hq, dif_pos] at hx
  split at hx
  · next hcarry =>
    split at hx
    · simp at hx
    · next hmax =>
      unfold rounded
      rw [hcarry, two_pow_mul_succ]
      exact hlimit (le_refl _) (by omega)
  · split at hx
    · simp at hx
    · next hmax =>
      have hlow : lastBit F q ≠ F.emin := by omega
      exact hlimit (le_roundHalfEven (le_div_two_zpow hq hlow)) (by omega)

end BinaryFloat

namespace ExtFloat

open BinaryFloat

variable {F : BinaryFormat} {q r : ℚ} {neg neg' : Bool}

/-- What a magnitude is rounded to. -/
theorem ofSigned_cases (hF : F.emin ≤ F.emax) (neg : Bool) (hq : 0 ≤ q) :
    (∃ x : BinaryFloat F, ofSigned F neg q = .finite x ∧ x.value = signed neg (rounded F q)
        ∧ rounded F q < limit F)
      ∨ (ofSigned F neg q = .inf neg ∧ limit F ≤ rounded F q) := by
  unfold ofSigned
  rcases hq.eq_or_lt with rfl | hpos
  · left
    have hlimit : (0 : ℚ) < limit F := two_zpow_pos _
    unfold ofRat
    simp [hF, value, BinaryFloat.abs, rounded_zero, hlimit]
  · cases hx : ofRat F neg q with
    | none => exact .inr ⟨rfl, ofRat_none hpos hF hx⟩
    | some x =>
      obtain ⟨hneg, habs⟩ := ofRat_some hpos hx
      refine .inl ⟨x, rfl, ?_, ?_⟩
      · unfold value
        rw [hneg, habs]
      · rw [← habs]
        exact abs_lt_limit x

theorem signed_bounds (neg : Bool) (hq : 0 ≤ q) : -q ≤ signed neg q ∧ signed neg q ≤ q := by
  unfold signed
  split <;> constructor <;> linarith

/-- With the infinities in the place of the large magnitudes, the comparison is that of
    the rounded numbers. -/
theorem rounded_lt_of_less (hF : F.emin ≤ F.emax) (hq : 0 ≤ q) (hr : 0 ≤ r)
    (hless : less (ofSigned F neg q) (ofSigned F neg' r) = true) :
    signed neg (rounded F q) < signed neg' (rounded F r) := by
  have hlimit : (0 : ℚ) < limit F := two_zpow_pos _
  have hbounds := signed_bounds neg (rounded_nonneg (F := F) (q := q))
  have hbounds' := signed_bounds neg' (rounded_nonneg (F := F) (q := r))
  rcases ofSigned_cases hF neg hq with ⟨x, hx, hval, hlt⟩ | ⟨hx, hge⟩ <;>
    rcases ofSigned_cases hF neg' hr with ⟨y, hy, hval', hlt'⟩ | ⟨hy, hge'⟩ <;>
    rw [hx, hy] at hless
  · rw [← hval, ← hval']
    exact of_decide_eq_true hless
  · cases neg' with
    | true => simp [less] at hless
    | false => exact hbounds.2.trans_lt (hlt.trans_le hge')
  · cases neg with
    | false => simp [less] at hless
    | true => exact (neg_lt_neg (hlt'.trans_le hge)).trans_le hbounds'.1
  · cases neg with
    | false => simp [less] at hless
    | true =>
      cases neg' with
      | true => simp [less] at hless
      | false =>
        show -rounded F q < rounded F r
        linarith

theorem signed_rounded_mono (hq : 0 ≤ q) (hr : 0 ≤ r) (hle : signed neg q ≤ signed neg' r) :
    signed neg (rounded F q) ≤ signed neg' (rounded F r) := by
  cases neg with
  | false =>
    cases neg' with
    | false => exact rounded_mono hq hle
    | true =>
      -- only zeros
      have hzero : q = 0 ∧ r = 0 := by
        simp only [signed, if_true, Bool.false_eq_true, if_false] at hle
        constructor <;> linarith
      rw [hzero.1, hzero.2, rounded_zero]
      simp [signed]
  | true =>
    cases neg' with
    | false =>
      show -rounded F q ≤ rounded F r
      have hnonneg : 0 ≤ rounded F q := rounded_nonneg
      have hnonneg' : 0 ≤ rounded F r := rounded_nonneg
      linarith
    | true => exact neg_le_neg (rounded_mono hr (neg_le_neg_iff.mp hle))

theorem finite_eq_ofSigned (x : BinaryFloat F) : ExtFloat.finite x = ofSigned F x.neg x.abs := by
  unfold ofSigned
  rw [ofRat_abs]

/-- **Rounding keeps the order**: if one result is less than another, then so are the
    numbers. -/
theorem lt_of_less (hF : F.emin ≤ F.emax) (hq : 0 ≤ q) (hr : 0 ≤ r)
    (hless : less (ofSigned F neg q) (ofSigned F neg' r) = true) : signed neg q < signed neg' r := by
  by_contra hge
  exact absurd (rounded_lt_of_less hF hq hr hless)
    (not_lt.mpr (signed_rounded_mono hr hq (not_lt.mp hge)))

/-! ## Section 4: The value alone

    The comparison does not see the sign of a zero. -/

/-- What an exact number is rounded to. -/
def nearest (F : BinaryFormat) (q : ℚ) : ExtFloat F := ofSigned F (q < 0) |q|

theorem signed_abs (q : ℚ) : signed (q < 0) |q| = q := by
  unfold signed
  by_cases hneg : q < 0
  · rw [if_pos (by simpa using hneg), abs_of_neg hneg, neg_neg]
  · rw [if_neg (by simpa using hneg), abs_of_nonneg (not_lt.mp hneg)]

theorem lt_of_nearest (hF : F.emin ≤ F.emax) (hless : less (nearest F q) (nearest F r) = true) :
    q < r := by
  have hlt := lt_of_less hF (abs_nonneg q) (abs_nonneg r) hless
  rw [signed_abs, signed_abs] at hlt
  exact hlt

/-- The same number, but for the sign of a zero. -/
def Alike (x y : ExtFloat F) : Prop :=
  x = y ∨ ∃ a b, x = .finite a ∧ y = .finite b ∧ a.value = b.value

theorem less_congr {x x' y y' : ExtFloat F} (hx : Alike x x') (hy : Alike y y') :
    less x y = less x' y' := by
  rcases hx with rfl | ⟨a, a', rfl, rfl, ha⟩ <;> rcases hy with rfl | ⟨b, b', rfl, rfl, hb⟩
  · rfl
  · cases x <;> simp [less, hb]
  · cases y <;> simp [less, ha]
  · simp [less, ha, hb]

theorem alike_nearest (hF : F.emin ≤ F.emax) (neg : Bool) (hq : 0 ≤ q) :
    Alike (ofSigned F neg q) (nearest F (signed neg q)) := by
  rcases hq.eq_or_lt with rfl | hpos
  · have hzero : signed neg 0 = 0 := by cases neg <;> simp [signed]
    have hlimit : (0 : ℚ) < limit F := two_zpow_pos _
    have hfinite : ∀ neg : Bool, ∃ x : BinaryFloat F, ofSigned F neg 0 = .finite x ∧ x.value = 0 := by
      intro neg
      rcases ofSigned_cases hF neg (le_refl (0 : ℚ)) with ⟨x, hx, hval, _⟩ | ⟨_, hge⟩
      · refine ⟨x, hx, ?_⟩
        rw [hval, rounded_zero]
        cases neg <;> simp [signed]
      · rw [rounded_zero] at hge
        exact absurd hge (not_le.mpr hlimit)
    obtain ⟨x, hx, hxval⟩ := hfinite neg
    obtain ⟨y, hy, hyval⟩ := hfinite (decide ((0 : ℚ) < 0))
    refine .inr ⟨x, y, hx, ?_, hxval.trans hyval.symm⟩
    unfold nearest
    rw [hzero, abs_zero]
    exact hy
  · left
    have hneg : decide (signed neg q < 0) = neg := by
      cases neg with
      | false => simpa [signed] using hpos.le
      | true => simpa [signed] using hpos
    have habs : |signed neg q| = q := by
      cases neg with
      | false => simpa [signed] using hpos.le
      | true => simpa [signed] using hpos.le
    unfold nearest
    rw [hneg, habs]

end ExtFloat
