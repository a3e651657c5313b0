import Mathlib.Data.List.TakeWhile
import Owasaka.Foundation.BinaryFloat
import Owasaka.Foundation.JsonDoc

/-! # Numbers in documents

    The number that a literal stands for, and the literal of a floating-point number:
    the shortest digits, with an exponent when the number is very small or very
    large. -/

namespace JsonText

/-! ## Section 1: Reading -/

/-- The exponent of a literal. -/
def readExponent : Bytes → Int
  | [] => 0
  | _ :: 0x2d :: digits => -(Bytes.ofDecimal digits : Int)
  | _ :: 0x2b :: digits => Bytes.ofDecimal digits
  | _ :: digits => Bytes.ofDecimal digits

/-- The number that an unsigned literal stands for. -/
def readUnsigned (lit : Bytes) : ℚ :=
  let whole := lit.takeWhile Bytes.isDigit
  match lit.dropWhile Bytes.isDigit with
  | 0x2e :: rest =>
    let frac := rest.takeWhile Bytes.isDigit
    Bytes.ofDecimal (whole ++ frac)
      * 10 ^ (readExponent (rest.dropWhile Bytes.isDigit) - frac.length)
  | rest => Bytes.ofDecimal whole * 10 ^ readExponent rest

/-- The nearest number of the format; `none` when it is too large. -/
def parseFloat (F : BinaryFormat) : Bytes → Option (BinaryFloat F)
  | 0x2d :: lit => BinaryFloat.ofRat F true (readUnsigned lit)
  | lit => BinaryFloat.ofRat F false (readUnsigned lit)

/-! ## Section 2: Writing -/

/-- Digits with the point after the first `point` of them, which may be outside. -/
def positional (digits : Bytes) (point : Int) : Bytes :=
  if point ≤ 0 then 0x30 :: 0x2e :: (List.replicate (-point).toNat 0x30 ++ digits)
  else if digits.length ≤ point then digits ++ List.replicate (point.toNat - digits.length) 0x30
  else digits.take point.toNat ++ 0x2e :: digits.drop point.toNat

/-- Digits with the point after the first one, and an exponent. -/
def exponential (digits : Bytes) (exponent : Int) : Bytes :=
  digits.take 1 ++ (if digits.length ≤ 1 then [] else 0x2e :: digits.drop 1)
    ++ 0x65 :: (if exponent < 0 then 0x2d else 0x2b) :: Bytes.decimal exponent.natAbs

/-- A constant of the source, as a number of the format. -/
def isBelow (F : BinaryFormat) (q bound : ℚ) : Bool :=
  match BinaryFloat.ofRat F false bound with
  | none => true
  | some b => q < b.abs

/-- The literal of a number without its sign. -/
def unsignedText {F : BinaryFormat} (x : BinaryFloat F) : Bytes :=
  match x.shortest with
  | none => [0x30]
  | some (c, k) =>
    let digits := Bytes.trimZeros (Bytes.decimal c)
    let point := k + (Bytes.decimal c).length
    if isBelow F x.abs (1 / 10 ^ 6) || !isBelow F x.abs (10 ^ 21) then exponential digits (point - 1)
    else positional digits point

def floatText {F : BinaryFormat} (x : BinaryFloat F) : Bytes :=
  let text := if x.mant = 0 then [0x30] else unsignedText x
  if x.neg then 0x2d :: text else text

/-! ## Section 3: Reading a literal back -/

/-- Digits that start with no zero. -/
structure IsDigits (digits : Bytes) : Prop where
  all : ∀ c ∈ digits, Bytes.isDigit c = true
  head : ∃ c rest, digits = c :: rest ∧ c ≠ 0x30

variable {digits : Bytes}

/-- The rest does not continue the digits before it. -/
def EndsDigits (rest : Bytes) : Prop := ∀ b t, rest = b :: t → Bytes.isDigit b = false

theorem dropWhile_ends {ds rest : Bytes} (hds : ∀ c ∈ ds, Bytes.isDigit c = true) (hrest : EndsDigits rest) :
    (ds ++ rest).dropWhile Bytes.isDigit = rest := by
  cases rest with
  | nil => rw [List.append_nil, List.dropWhile_eq_nil_iff.mpr hds]
  | cons b t => exact Bytes.dropWhile_digits hds (hrest b t rfl)

theorem endsDigits_nil : EndsDigits [] := by
  intro b t heq
  simp at heq

theorem endsDigits_cons {c : UInt8} {t : Bytes} (hc : Bytes.isDigit c = false) : EndsDigits (c :: t) := by
  intro b t heq
  rw [← (List.cons.inj heq).1]
  exact hc

theorem readUnsigned_digits {ds : Bytes} (hds : ∀ c ∈ ds, Bytes.isDigit c = true) :
    readUnsigned ds = Bytes.ofDecimal ds := by
  have htake : ds.takeWhile Bytes.isDigit = ds := List.takeWhile_eq_self_iff.mpr hds
  have hdrop : ds.dropWhile Bytes.isDigit = [] := List.dropWhile_eq_nil_iff.mpr hds
  simp [readUnsigned, htake, hdrop, readExponent]

theorem readUnsigned_point {w f t : Bytes} (hwhole : ∀ c ∈ w, Bytes.isDigit c = true)
    (hfrac : ∀ c ∈ f, Bytes.isDigit c = true)
    (hrest : EndsDigits t) :
    readUnsigned (w ++ 0x2e :: (f ++ t))
      = Bytes.ofDecimal (w ++ f) * 10 ^ (readExponent t - f.length) := by
  have hpoint : Bytes.isDigit 0x2e = false := by decide
  have htake : (f ++ t).takeWhile Bytes.isDigit = f := by
    cases t with
    | nil => rw [List.append_nil, List.takeWhile_eq_self_iff.mpr hfrac]
    | cons b t => exact Bytes.takeWhile_digits hfrac (hrest b t rfl)
  simp only [readUnsigned, Bytes.takeWhile_digits hwhole hpoint, Bytes.dropWhile_digits hwhole hpoint,
    htake, dropWhile_ends hfrac hrest]

theorem readUnsigned_exponent {w t : Bytes} (hwhole : ∀ c ∈ w, Bytes.isDigit c = true) :
    readUnsigned (w ++ 0x65 :: t)
      = Bytes.ofDecimal w * 10 ^ readExponent (0x65 :: t) := by
  have hexp : Bytes.isDigit 0x65 = false := by decide
  simp only [readUnsigned, Bytes.takeWhile_digits hwhole hexp, Bytes.dropWhile_digits hwhole hexp]
  rfl

theorem readExponent_text (exponent : Int) :
    readExponent (0x65 :: (if exponent < 0 then 0x2d else 0x2b) :: Bytes.decimal exponent.natAbs)
      = exponent := by
  split
  · next hneg =>
    rw [readExponent, Bytes.ofDecimal_decimal]
    omega
  · next hnonneg =>
    rw [readExponent, Bytes.ofDecimal_decimal]
    omega

/-- The value of digits with a point. -/
theorem readUnsigned_positional (hdigits : ∀ c ∈ digits, Bytes.isDigit c = true) (point : Int) :
    readUnsigned (positional digits point) = Bytes.ofDecimal digits * 10 ^ (point - digits.length) := by
  have hzero : Bytes.isDigit 0x30 = true := by decide
  have hzeros : ∀ n : Nat, ∀ c ∈ List.replicate n (0x30 : UInt8), Bytes.isDigit c = true := by
    intro n c hc
    rw [List.eq_of_mem_replicate hc]
    exact hzero
  unfold positional
  split
  · next hle =>
    -- zeros before the digits, behind the point
    have hfrac : ∀ c ∈ List.replicate (-point).toNat 0x30 ++ digits, Bytes.isDigit c = true := by
      intro c hc
      rcases List.mem_append.mp hc with hc | hc
      · exact hzeros _ c hc
      · exact hdigits c hc
    have hread := readUnsigned_point (w := [0x30]) (by simpa using hzero) hfrac endsDigits_nil
    rw [List.append_nil, List.singleton_append] at hread
    have hval : Bytes.ofDecimal (0x30 :: (List.replicate (-point).toNat 0x30 ++ digits))
        = Bytes.ofDecimal digits := by
      have hfront := Bytes.ofDecimal_append_zeros [0x30] (-point).toNat
      rw [← List.singleton_append, ← List.append_assoc, Bytes.ofDecimal_append, hfront]
      simp [Bytes.ofDecimal]
    rw [hread, List.singleton_append, hval, readExponent, List.length_append, List.length_replicate]
    congr 2
    push_cast
    omega
  · next hpos =>
    split
    · next hlen =>
      -- zeros after the digits, and no point
      rw [readUnsigned_digits, Bytes.ofDecimal_append_zeros]
      · obtain ⟨n, hn⟩ : ∃ n : Nat, point = digits.length + n := ⟨(point - digits.length).toNat, by omega⟩
        rw [hn, show ((digits.length : Int) + n).toNat - digits.length = n by omega, add_sub_cancel_left,
          zpow_natCast]
        push_cast
        rfl
      · intro c hc
        rcases List.mem_append.mp hc with hc | hc
        · exact hdigits c hc
        · exact hzeros _ c hc
    · next hlen =>
      -- the point stands inside the digits
      have hread := readUnsigned_point (w := digits.take point.toNat) (f := digits.drop point.toNat)
        (fun c hc => hdigits c (List.mem_of_mem_take hc))
        (fun c hc => hdigits c (List.mem_of_mem_drop hc)) endsDigits_nil
      rw [List.append_nil, List.take_append_drop] at hread
      rw [hread, readExponent, List.length_drop]
      congr 2
      omega

/-- The value of digits with an exponent. -/
theorem readUnsigned_exponential (hdigits : IsDigits digits) (exponent : Int) :
    readUnsigned (exponential digits exponent)
      = Bytes.ofDecimal digits * 10 ^ (exponent + 1 - digits.length) := by
  obtain ⟨c, rest, rfl, _⟩ := hdigits.head
  have hall := hdigits.all
  unfold exponential
  cases rest with
  | nil =>
    have hread := readUnsigned_exponent hall
      (t := (if exponent < 0 then 0x2d else 0x2b) :: Bytes.decimal exponent.natAbs)
    rw [readExponent_text] at hread
    simp only [List.take_succ_cons, List.take_zero, List.length_singleton, le_refl, if_true,
      List.append_nil]
    rw [hread]
    congr 2
    omega
  | cons d rest =>
    have hread := readUnsigned_point (w := [c]) (f := d :: rest)
      (fun b hb => hall b (by simp_all)) (fun b hb => hall b (List.mem_cons_of_mem _ hb))
      (endsDigits_cons (c := 0x65) (by decide)
        (t := (if exponent < 0 then 0x2d else 0x2b) :: Bytes.decimal exponent.natAbs))
    rw [readExponent_text] at hread
    simp only [List.take_succ_cons, List.take_zero, List.length_cons, List.drop_succ_cons, List.drop_zero,
      List.append_assoc]
    rw [if_neg (by omega)]
    simp only [List.cons_append] at hread ⊢
    rw [List.nil_append] at hread ⊢
    rw [hread]
    congr 2
    push_cast [List.length_cons]
    omega

/-- The digits of a number that is not 0. -/
theorem isDigits_trimZeros {c : Nat} (hc : c ≠ 0) : IsDigits (Bytes.trimZeros (Bytes.decimal c)) where
  all := fun _ => Bytes.isDigit_of_mem_trimZeros fun _ => Bytes.isDigit_of_mem_decimal
  head := by
    obtain ⟨k, hk⟩ := Bytes.trimZeros_append (Bytes.decimal c)
    obtain ⟨d, ds, heq, _, hzero⟩ := decimal_head c
    have hval := Bytes.ofDecimal_decimal c
    cases htrim : Bytes.trimZeros (Bytes.decimal c) with
    | nil =>
      rw [hk, htrim, Bytes.ofDecimal_append_zeros] at hval
      simp [Bytes.ofDecimal] at hval
      exact absurd hval.symm hc
    | cons b t =>
      refine ⟨b, t, rfl, ?_⟩
      rintro rfl
      rw [htrim, heq, List.cons_append, List.cons.injEq] at hk
      rw [heq, hzero hk.1, hk.1] at hval
      exact hc hval.symm

theorem ofDecimal_trimZeros (c : Nat) (k : Int) :
    (Bytes.ofDecimal (Bytes.trimZeros (Bytes.decimal c)) : ℚ)
      * 10 ^ (k + (Bytes.decimal c).length - (Bytes.trimZeros (Bytes.decimal c)).length)
      = c * 10 ^ k := by
  obtain ⟨j, hj⟩ := Bytes.trimZeros_append (Bytes.decimal c)
  have hval := Bytes.ofDecimal_decimal c
  have hlen := congrArg List.length hj
  rw [hj, Bytes.ofDecimal_append_zeros] at hval
  rw [List.length_append, List.length_replicate] at hlen
  have hexp : k + (Bytes.decimal c).length - (Bytes.trimZeros (Bytes.decimal c)).length = j + k := by
    omega
  rw [hexp, zpow_add₀ (by norm_num), ← mul_assoc, zpow_natCast]
  congr 1
  exact_mod_cast hval

section

variable {F : BinaryFormat} (x : BinaryFloat F)

/-- The digits and the layout of a literal. -/
theorem unsignedText_cases (hx : x.mant ≠ 0) :
    ∃ digits point, IsDigits digits
      ∧ (unsignedText x = exponential digits (point - 1) ∨ unsignedText x = positional digits point)
      ∧ BinaryFloat.ofRat F x.neg (Bytes.ofDecimal digits * 10 ^ (point - digits.length)) = some x := by
  obtain ⟨c, k, hshort, hread⟩ := x.exists_shortest hx
  have hc : c ≠ 0 := by
    rintro rfl
    rw [Nat.cast_zero, zero_mul] at hread
    simp only [BinaryFloat.ofRat, lt_irrefl, dif_neg, not_false_eq_true] at hread
    split at hread
    · rw [← Option.some.inj hread] at hx
      exact hx rfl
    · simp at hread
  refine ⟨Bytes.trimZeros (Bytes.decimal c), k + (Bytes.decimal c).length, isDigits_trimZeros hc, ?_, ?_⟩
  · simp only [unsignedText, hshort]
    split
    · exact .inl rfl
    · exact .inr rfl
  · rw [ofDecimal_trimZeros]
    exact hread

theorem readUnsigned_unsignedText (hx : x.mant ≠ 0) :
    BinaryFloat.ofRat F x.neg (readUnsigned (unsignedText x)) = some x := by
  obtain ⟨digits, point, hdigits, hlayout, hread⟩ := unsignedText_cases x hx
  rcases hlayout with htext | htext
  · rw [htext, readUnsigned_exponential hdigits, sub_add_cancel]
    exact hread
  · rw [htext, readUnsigned_positional hdigits.all]
    exact hread

end

/-! ## Section 4: The form of a literal -/

theorem isNumberByte_of_dropWhile {s : Bytes}
    (hrest : ∀ b ∈ s.dropWhile Bytes.isDigit, isNumberByte b = true) : ∀ b ∈ s, isNumberByte b = true := by
  intro b hb
  rw [← List.takeWhile_append_dropWhile (p := Bytes.isDigit) (l := s)] at hb
  rcases List.mem_append.mp hb with hb | hb
  · exact isNumberByte_of_isDigit (List.mem_takeWhile_imp hb)
  · exact hrest b hb

theorem isNumberByte_of_isExponent {s : Bytes} (hs : isExponent s = true) :
    ∀ b ∈ s, isNumberByte b = true := by
  have hdigits : ∀ {t : Bytes}, t.all Bytes.isDigit = true → ∀ b ∈ t, isNumberByte b = true :=
    fun hall b hb => isNumberByte_of_isDigit (List.all_eq_true.mp hall b hb)
  cases s with
  | nil => simp
  | cons e rest =>
    rw [isExponent.eq_def] at hs
    simp only [Bool.and_eq_true] at hs
    have he : isNumberByte e = true := by
      rcases Bool.or_eq_true_iff.mp hs.1 with heq | heq <;> rw [beq_iff_eq.mp heq] <;> decide
    cases rest with
    | nil => simp at hs
    | cons c rest =>
      have htail : ∀ b ∈ c :: rest, isNumberByte b = true := by
        have hrest := hs.2
        simp only at hrest
        split at hrest
        · next hsign =>
          intro b hb
          rcases List.mem_cons.mp hb with rfl | hb
          · rcases hsign with rfl | rfl <;> decide
          · exact hdigits (Bool.and_eq_true_iff.mp hrest).2 b hb
        · exact hdigits hrest
      intro b hb
      rcases List.mem_cons.mp hb with rfl | hb
      · exact he
      · exact htail b hb

theorem isNumberByte_of_isFraction {s : Bytes} (hs : isFraction s = true) :
    ∀ b ∈ s, isNumberByte b = true := by
  cases s with
  | nil => simp
  | cons p rest =>
    rw [isFraction.eq_def] at hs
    simp only at hs
    split at hs
    · next hpoint =>
      have hrest := isNumberByte_of_dropWhile (isNumberByte_of_isExponent (Bool.and_eq_true_iff.mp hs).2)
      intro b hb
      rcases List.mem_cons.mp hb with rfl | hb
      · rw [hpoint]
        decide
      · exact hrest b hb
    · exact isNumberByte_of_isExponent hs

theorem isNumberByte_of_isUnsigned {s : Bytes} (hs : isUnsigned s = true) :
    ∀ b ∈ s, isNumberByte b = true := by
  cases s with
  | nil => simp
  | cons c rest =>
    rw [isUnsigned] at hs
    intro b hb
    split at hs
    · next hzero =>
      rcases List.mem_cons.mp hb with rfl | hb
      · rw [hzero]
        decide
      · exact isNumberByte_of_isFraction hs b hb
    · obtain ⟨hdigit, hfrac⟩ := Bool.and_eq_true_iff.mp hs
      rcases List.mem_cons.mp hb with rfl | hb
      · exact isNumberByte_of_isDigit hdigit
      · exact isNumberByte_of_dropWhile (isNumberByte_of_isFraction hfrac) b hb

/-- A number has no other bytes. -/
theorem proper_num {lit : Bytes} (hlit : isNumber lit = true) (depth : Nat) : Proper depth (.num lit) := by
  rw [Proper]
  refine ⟨hlit, ?_⟩
  cases lit with
  | nil => simp
  | cons c rest =>
    rw [isNumber] at hlit
    split at hlit
    · next hsign =>
      intro b hb
      rcases List.mem_cons.mp hb with rfl | hb
      · rw [hsign]
        decide
      · exact isNumberByte_of_isUnsigned hlit b hb
    · exact isNumberByte_of_isUnsigned hlit

theorem isUnsigned_append {digits rest : Bytes} (hdigits : IsDigits digits) (hrest : EndsDigits rest) :
    isUnsigned (digits ++ rest) = isFraction rest := by
  obtain ⟨c, ds, rfl, hne⟩ := hdigits.head
  have hds : ∀ b ∈ ds, Bytes.isDigit b = true := fun b hb => hdigits.all b (List.mem_cons_of_mem _ hb)
  rw [List.cons_append, isUnsigned, if_neg hne, hdigits.all c List.mem_cons_self, dropWhile_ends hds hrest,
    Bool.true_and]

theorem isFraction_point {f t : Bytes} (hfrac : ∀ c ∈ f, Bytes.isDigit c = true) (hne : f ≠ [])
    (hrest : EndsDigits t) : isFraction (0x2e :: (f ++ t)) = isExponent t := by
  have hdrop := dropWhile_ends hfrac hrest
  cases f with
  | nil => exact absurd rfl hne
  | cons c f =>
    rw [isFraction.eq_def]
    simp only [List.cons_append] at hdrop ⊢
    simp only [if_true, hdrop, hfrac c List.mem_cons_self, Bool.true_and]

theorem isExponent_text (exponent : Int) :
    isExponent (0x65 :: (if exponent < 0 then 0x2d else 0x2b) :: Bytes.decimal exponent.natAbs) = true := by
  have hall : (Bytes.decimal exponent.natAbs).all Bytes.isDigit = true :=
    List.all_eq_true.mpr fun c => Bytes.isDigit_of_mem_decimal
  have hne : (Bytes.decimal exponent.natAbs).isEmpty = false := by
    simp [Bytes.decimal_ne_nil]
  split <;> simp [isExponent, hall, hne]

theorem isUnsigned_exponential {digits : Bytes} (hdigits : IsDigits digits) (exponent : Int) :
    isUnsigned (exponential digits exponent) = true := by
  obtain ⟨c, rest, rfl, hne⟩ := hdigits.head
  have hfirst : IsDigits [c] :=
    ⟨fun b hb => hdigits.all b (by simp_all), c, [], rfl, hne⟩
  have hends : EndsDigits (0x65 :: (if exponent < 0 then 0x2d else 0x2b) :: Bytes.decimal exponent.natAbs) :=
    endsDigits_cons (by decide)
  unfold exponential
  cases rest with
  | nil =>
    simp only [List.take_succ_cons, List.take_zero, List.length_singleton, le_refl, if_true,
      List.append_nil]
    rw [isUnsigned_append hfirst hends]
    exact isExponent_text exponent
  | cons d rest =>
    simp only [List.take_succ_cons, List.take_zero, List.length_cons, List.drop_succ_cons, List.drop_zero,
      List.append_assoc]
    have hsplit := isUnsigned_append hfirst (endsDigits_cons (c := 0x2e) (by decide)
      (t := d :: rest ++ 0x65 :: (if exponent < 0 then 0x2d else 0x2b) :: Bytes.decimal exponent.natAbs))
    rw [isFraction_point (fun b hb => hdigits.all b (List.mem_cons_of_mem _ hb)) (by simp) hends,
      isExponent_text] at hsplit
    rw [if_neg (by omega)]
    exact hsplit

theorem isUnsigned_positional {digits : Bytes} (hdigits : IsDigits digits) (point : Int) :
    isUnsigned (positional digits point) = true := by
  have hzeros : ∀ n : Nat, ∀ c ∈ List.replicate n (0x30 : UInt8), Bytes.isDigit c = true := by
    intro n c hc
    rw [List.eq_of_mem_replicate hc]
    decide
  obtain ⟨c, rest, heq, hne⟩ := hdigits.head
  have happend : ∀ n : Nat, ∀ b ∈ List.replicate n 0x30 ++ digits, Bytes.isDigit b = true := by
    intro n b hb
    rcases List.mem_append.mp hb with hb | hb
    · exact hzeros _ b hb
    · exact hdigits.all b hb
  unfold positional
  split
  -- the integer part is the lone zero the grammar allows
  · have hfrac := isFraction_point (t := []) (happend (-point).toNat) (by simp [heq]) endsDigits_nil
    rw [List.append_nil] at hfrac
    rw [isUnsigned, if_pos rfl, hfrac]
    rfl
  · next hpos =>
    split
    · have hall : IsDigits (digits ++ List.replicate (point.toNat - digits.length) 0x30) := by
        refine ⟨fun b hb => ?_, c, rest ++ _, by rw [heq]; rfl, hne⟩
        rcases List.mem_append.mp hb with hb | hb
        · exact hdigits.all b hb
        · exact hzeros _ b hb
      have hunsigned := isUnsigned_append hall endsDigits_nil
      rw [List.append_nil] at hunsigned
      rw [hunsigned]
      rfl
    · next hlen =>
      -- the first digit is not zero, so neither part has a leading one
      have htake : IsDigits (digits.take point.toNat) := by
        refine ⟨fun b hb => hdigits.all b (List.mem_of_mem_take hb), c, rest.take (point.toNat - 1), ?_, hne⟩
        rw [heq, show point.toNat = point.toNat - 1 + 1 by omega, List.take_succ_cons]
        rfl
      have hdrop : digits.drop point.toNat ≠ [] := by
        rw [← List.length_pos_iff, List.length_drop]
        omega
      have hfrac := isFraction_point (t := [])
        (fun b hb => hdigits.all b (List.mem_of_mem_drop hb)) hdrop endsDigits_nil
      rw [List.append_nil] at hfrac
      rw [isUnsigned_append htake (endsDigits_cons (by decide)), hfrac]
      rfl

section

variable {F : BinaryFormat} (x : BinaryFloat F)

theorem isUnsigned_unsignedText (hx : x.mant ≠ 0) : isUnsigned (unsignedText x) = true := by
  obtain ⟨digits, point, hdigits, hlayout, _⟩ := unsignedText_cases x hx
  rcases hlayout with htext | htext
  · rw [htext]
    exact isUnsigned_exponential hdigits _
  · rw [htext]
    exact isUnsigned_positional hdigits _

/-- The sign and the rest of a literal. -/
theorem floatText_cases : ∃ text, floatText x = (if x.neg then 0x2d :: text else text)
    ∧ isUnsigned text = true ∧ BinaryFloat.ofRat F x.neg (readUnsigned text) = some x := by
  by_cases hx : x.mant = 0
  · have habs : x.abs = 0 := by simp [BinaryFloat.abs, hx]
    have hread : readUnsigned [0x30] = 0 := by
      rw [readUnsigned_digits (by decide +kernel)]
      simp [Bytes.ofDecimal]
    refine ⟨[0x30], by simp [floatText, hx], rfl, ?_⟩
    rw [hread, ← habs]
    exact x.ofRat_abs
  · exact ⟨unsignedText x, by simp [floatText, hx], isUnsigned_unsignedText x hx,
      readUnsigned_unsignedText x hx⟩

theorem isUnsigned_head {s : Bytes} (hs : isUnsigned s = true) : ∃ b t, s = b :: t ∧ b ≠ 0x2d := by
  cases s with
  | nil => simp [isUnsigned] at hs
  | cons b t =>
    refine ⟨b, t, rfl, ?_⟩
    rintro rfl
    revert hs
    simp [isUnsigned, Bytes.isDigit]

theorem isNumber_floatText : isNumber (floatText x) = true := by
  obtain ⟨text, htext, hunsigned, _⟩ := floatText_cases x
  rw [htext]
  split
  · rw [isNumber, if_pos rfl, hunsigned]
  · obtain ⟨b, t, rfl, hne⟩ := isUnsigned_head hunsigned
    rw [isNumber, if_neg hne, hunsigned]

/-- **The literal of a number is read as the number.** -/
theorem parseFloat_floatText : parseFloat F (floatText x) = some x := by
  obtain ⟨text, htext, hunsigned, hread⟩ := floatText_cases x
  rw [htext]
  split
  · next hneg =>
    rw [hneg] at hread
    exact hread
  · next hpos =>
    obtain ⟨b, t, rfl, hne⟩ := isUnsigned_head hunsigned
    rw [Bool.not_eq_true] at hpos
    rw [hpos] at hread
    rw [parseFloat]
    · exact hread
    · intro lit heq
      exact hne (List.cons.inj heq).1

end

end JsonText
