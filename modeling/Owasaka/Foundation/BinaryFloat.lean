import Mathlib.Data.Int.Log
import Mathlib.Data.Rat.Floor
import Owasaka.Foundation.Ascii

/-! # Binary floating-point numbers and their decimal texts

    Finite numbers `± mant * 2 ^ exp` of a format, rounding to the nearest one with
    ties to even, and the shortest decimals that are read back as the same number:
    the fewest digits for which a decimal next to the number is read back, and of
    those the nearest one. -/

/-! ## Section 1: Formats and numbers -/

/-- The bits of a mantissa, and the least and the greatest exponent of its last bit. -/
structure BinaryFormat where
  precision : Nat
  emin : Int
  emax : Int
  pos : 0 < precision

def binary64 : BinaryFormat := ⟨53, -1074, 971, by decide⟩

def binary32 : BinaryFormat := ⟨24, -149, 104, by decide⟩

/-- A finite number.  Its mantissa has all its bits, unless the exponent is the least. -/
structure BinaryFloat (F : BinaryFormat) where
  neg : Bool
  mant : Nat
  exp : Int
  mant_lt : mant < 2 ^ F.precision
  emin_le : F.emin ≤ exp
  le_emax : exp ≤ F.emax
  full : exp = F.emin ∨ 2 ^ (F.precision - 1) ≤ mant
  deriving DecidableEq

namespace BinaryFloat

variable {F : BinaryFormat}

/-- The number without its sign. -/
def abs (x : BinaryFloat F) : ℚ := x.mant * 2 ^ x.exp

/-! ## Section 2: Rounding -/

/-- The nearest natural number, the even one of two. -/
def roundHalfEven (q : ℚ) : Nat :=
  let n := ⌊q⌋₊
  let rest := q - n
  if rest < 1 / 2 then n else if 1 / 2 < rest then n + 1 else n + n % 2

/-- The exponent of the last bit that is kept of a number. -/
def lastBit (F : BinaryFormat) (q : ℚ) : Int := max F.emin (Int.log 2 q - (F.precision - 1 : Nat))

theorem le_roundHalfEven {n : Nat} {q : ℚ} (hn : (n : ℚ) ≤ q) : n ≤ roundHalfEven q := by
  have hfloor : n ≤ ⌊q⌋₊ := Nat.le_floor hn
  unfold roundHalfEven
  simp only
  split_ifs <;> omega

theorem roundHalfEven_le {n : Nat} {q : ℚ} (hq : 0 ≤ q) (hn : q < n) : roundHalfEven q ≤ n := by
  have hfloor : ⌊q⌋₊ < n := (Nat.floor_lt hq).mpr hn
  unfold roundHalfEven
  simp only
  split_ifs <;> omega

theorem roundHalfEven_natCast (n : Nat) : roundHalfEven n = n := by
  simp [roundHalfEven]

theorem two_zpow_pos (e : Int) : (0 : ℚ) < 2 ^ e := zpow_pos (by norm_num) e

theorem div_two_zpow_lt (q : ℚ) :
    q / 2 ^ lastBit F q < ((2 ^ F.precision : Nat) : ℚ) := by
  have hlog := Int.lt_zpow_succ_log_self (R := ℚ) (b := 2) (by norm_num) q
  have hle : Int.log 2 q + 1 ≤ F.precision + lastBit F q := by
    have hpos := F.pos
    have hmax := le_max_right F.emin (Int.log 2 q - (F.precision - 1 : Nat))
    unfold lastBit
    omega
  rw [div_lt_iff₀ (two_zpow_pos _)]
  push_cast
  rw [← zpow_natCast, ← zpow_add₀ (by norm_num)]
  push_cast at hlog
  exact hlog.trans_le (zpow_le_zpow_right₀ (by norm_num) hle)

theorem le_div_two_zpow {q : ℚ} (hq : 0 < q) (hlow : lastBit F q ≠ F.emin) :
    ((2 ^ (F.precision - 1) : Nat) : ℚ) ≤ q / 2 ^ lastBit F q := by
  have hlog := Int.zpow_log_le_self (R := ℚ) (b := 2) (by norm_num) hq
  have hle : (F.precision - 1 : Nat) + lastBit F q ≤ Int.log 2 q := by
    unfold lastBit at hlow ⊢
    rcases max_choice F.emin (Int.log 2 q - (F.precision - 1 : Nat)) with hmax | hmax
    · exact absurd hmax hlow
    · omega
  rw [le_div_iff₀ (two_zpow_pos _)]
  push_cast
  rw [← zpow_natCast, ← zpow_add₀ (by norm_num)]
  push_cast at hlog
  exact (zpow_le_zpow_right₀ (by norm_num) hle).trans hlog

/-- The nearest number of the format; `none` when it is too large. -/
def ofRat (F : BinaryFormat) (neg : Bool) (q : ℚ) : Option (BinaryFloat F) :=
  if hq : 0 < q then
    let e := lastBit F q
    let m := roundHalfEven (q / 2 ^ e)
    have hemin : F.emin ≤ e := le_max_left _ _
    have hhalf : 2 ^ (F.precision - 1) < 2 ^ F.precision :=
      Nat.pow_lt_pow_right (by decide) (Nat.sub_lt F.pos (by decide))
    have hle : m ≤ 2 ^ F.precision :=
      roundHalfEven_le (div_pos hq (two_zpow_pos e)).le (div_two_zpow_lt q)
    -- one more bit, when the mantissa is rounded up to a power of two
    if hcarry : m = 2 ^ F.precision then
      if hmax : e + 1 ≤ F.emax then
        some ⟨neg, 2 ^ (F.precision - 1), e + 1, hhalf, by omega, hmax, .inr (le_refl _)⟩
      else none
    else if hmax : e ≤ F.emax then
      some ⟨neg, m, e, by omega, hemin, hmax,
        or_iff_not_imp_left.mpr fun hlow => le_roundHalfEven (le_div_two_zpow hq hlow)⟩
    else none
  else if hmax : F.emin ≤ F.emax then
    some ⟨neg, 0, F.emin, Nat.two_pow_pos _, le_refl _, hmax, .inl rfl⟩
  else none

theorem log_eq {b : Nat} {k : Int} {q : ℚ} (hb : 1 < b) (hq : 0 < q) (hlo : (b : ℚ) ^ k ≤ q)
    (hhi : q < (b : ℚ) ^ (k + 1)) : Int.log b q = k := by
  have hle := (Int.zpow_le_iff_le_log hb hq).mp hlo
  have hlt := (Int.lt_zpow_iff_log_lt hb hq).mp hhi
  omega

theorem log_natCast_mul_zpow {b m : Nat} (hb : 1 < b) (hm : m ≠ 0) (k : Int) :
    Int.log b ((m : ℚ) * (b : ℚ) ^ k) = Nat.log b m + k := by
  have hbase : (0 : ℚ) < b := by exact_mod_cast Nat.zero_lt_of_lt hb
  have hpos : (0 : ℚ) < (b : ℚ) ^ k := zpow_pos hbase k
  have hlo : (b : ℚ) ^ (Nat.log b m : Int) ≤ m := by
    rw [zpow_natCast]
    exact_mod_cast Nat.pow_log_le_self b hm
  have hhi : (m : ℚ) < (b : ℚ) ^ (Nat.log b m + 1 : Int) := by
    rw [← Nat.cast_succ, zpow_natCast]
    exact_mod_cast Nat.lt_pow_succ_log_self hb m
  refine log_eq hb (mul_pos (by exact_mod_cast Nat.pos_of_ne_zero hm) hpos) ?_ ?_
  · rw [zpow_add₀ hbase.ne']
    exact mul_le_mul_of_nonneg_right hlo hpos.le
  · rw [add_right_comm, zpow_add₀ hbase.ne']
    exact mul_lt_mul_of_pos_right hhi hpos

theorem lastBit_abs (x : BinaryFloat F) (hx : x.mant ≠ 0) : lastBit F x.abs = x.exp := by
  have hlog : Int.log 2 x.abs = Nat.log 2 x.mant + x.exp :=
    log_natCast_mul_zpow (by decide) hx x.exp
  have hlt : Nat.log 2 x.mant < F.precision := Nat.log_lt_of_lt_pow hx x.mant_lt
  have hemin := x.emin_le
  have hpos := F.pos
  rw [lastBit, hlog]
  rcases x.full with hlow | hfull
  · omega
  · have hle : F.precision - 1 ≤ Nat.log 2 x.mant := Nat.le_log_of_pow_le (by decide) hfull
    omega

/-- A number of the format is kept. -/
theorem ofRat_abs (x : BinaryFloat F) : ofRat F x.neg x.abs = some x := by
  by_cases hx : x.mant = 0
  · have hzero : ¬ 0 < x.abs := by simp [abs, hx]
    have hexp : x.exp = F.emin := by
      refine x.full.resolve_right fun hfull => ?_
      rw [hx] at hfull
      exact absurd (Nat.two_pow_pos (F.precision - 1)) (by omega)
    obtain ⟨neg, mant, exp, mant_lt, emin_le, le_emax, full⟩ := x
    simp only at hx hexp
    subst hx hexp
    simp [ofRat, hzero, le_emax]
  · have hpos : 0 < x.abs :=
      mul_pos (by exact_mod_cast Nat.pos_of_ne_zero hx) (two_zpow_pos x.exp)
    have hround : roundHalfEven (x.abs / 2 ^ x.exp) = x.mant := by
      rw [abs, mul_div_cancel_right₀ _ (two_zpow_pos x.exp).ne', roundHalfEven_natCast]
    have hlt := x.mant_lt
    simp only [ofRat, hpos, lastBit_abs x hx, hround, dif_pos, x.le_emax]
    rw [dif_neg (by omega)]

/-! ## Section 3: The shortest decimal -/

/-- The two decimals `c * 10 ^ k` of `n + 1` digits next to a number, the nearer one
    first. -/
def decimalsNear (q : ℚ) (n : Nat) : List (Nat × Int) :=
  let k := Int.log 10 q - n
  let scaled := q / 10 ^ k
  let near := roundHalfEven scaled
  let below := ⌊scaled⌋₊
  [(near, k), (if near = below then below + 1 else below, k)]

/-- The number without its point: `m` of `m * 10 ^ k` with `k ≤ 0`. -/
def wholeDigits (x : BinaryFloat F) : Nat := x.mant * 2 ^ x.exp.toNat * 5 ^ (-x.exp).toNat

/-- The decimal `c * 10 ^ k` with the fewest digits that is read as the number. -/
def shortest (x : BinaryFloat F) : Option (Nat × Int) :=
  (List.range (Nat.log 10 x.wholeDigits + 1)).findSome? fun n =>
    (decimalsNear x.abs n).find? fun c => ofRat F x.neg (c.1 * 10 ^ c.2) = some x

theorem abs_eq_wholeDigits (x : BinaryFloat F) :
    x.abs = x.wholeDigits * 10 ^ (-((-x.exp).toNat : Int)) := by
  rw [abs, wholeDigits]
  rcases Int.le_total 0 x.exp with hexp | hexp
  · obtain ⟨n, hn⟩ := Int.eq_ofNat_of_zero_le hexp
    simp [hn]
  · obtain ⟨n, hn⟩ := Int.eq_ofNat_of_zero_le (Int.neg_nonneg_of_nonpos hexp)
    have hneg : x.exp = -(n : Int) := by omega
    simp only [hneg, neg_neg, Int.toNat_natCast, Int.toNat_neg_natCast, pow_zero, mul_one, zpow_neg,
      zpow_natCast]
    push_cast
    rw [show (10 : ℚ) = 2 * 5 by norm_num, mul_pow]
    field_simp

/-- With all its digits, the decimal is the number. -/
theorem decimalsNear_whole (x : BinaryFloat F) (hx : x.mant ≠ 0) :
    ∃ k, (decimalsNear x.abs (Nat.log 10 x.wholeDigits)).head? = some (x.wholeDigits, k)
      ∧ (x.wholeDigits : ℚ) * 10 ^ k = x.abs := by
  have hne : x.wholeDigits ≠ 0 := by simp [wholeDigits, hx]
  have hlog : Int.log 10 x.abs = Nat.log 10 x.wholeDigits + -((-x.exp).toNat : Int) := by
    rw [abs_eq_wholeDigits]
    exact log_natCast_mul_zpow (b := 10) (by decide) hne _
  refine ⟨-((-x.exp).toNat : Int), ?_, (abs_eq_wholeDigits x).symm⟩
  have hk : Int.log 10 x.abs - (Nat.log 10 x.wholeDigits : Int) = -((-x.exp).toNat : Int) := by
    rw [hlog]
    omega
  simp only [decimalsNear, hk, List.head?_cons, Option.some.injEq, Prod.mk.injEq, and_true]
  rw [abs_eq_wholeDigits, mul_div_cancel_right₀ _ (zpow_ne_zero _ (by norm_num)), roundHalfEven_natCast]

/-- **The shortest decimal is read as the number.** -/
theorem exists_shortest (x : BinaryFloat F) (hx : x.mant ≠ 0) :
    ∃ c k, shortest x = some (c, k) ∧ ofRat F x.neg (c * 10 ^ k) = some x := by
  obtain ⟨k, hhead, hval⟩ := decimalsNear_whole x hx
  have hsome : (shortest x).isSome = true := by
    rw [shortest, List.findSome?_isSome_iff]
    refine ⟨Nat.log 10 x.wholeDigits, List.mem_range.mpr (Nat.lt_succ_self _), ?_⟩
    rw [List.find?_isSome]
    refine ⟨(x.wholeDigits, k), List.mem_of_head? hhead, ?_⟩
    simp only [hval, ofRat_abs, decide_true]
  obtain ⟨⟨c, k⟩, hc⟩ := Option.isSome_iff_exists.mp hsome
  obtain ⟨_, _, hfind⟩ := List.exists_of_findSome?_eq_some hc
  exact ⟨c, k, hc, by simpa using List.find?_some hfind⟩

end BinaryFloat
