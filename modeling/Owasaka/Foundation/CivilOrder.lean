import Mathlib.Data.List.Lex
import Mathlib.Data.String.Basic
import Owasaka.Foundation.Civil

/-! # The order of stamps

    Texts compare from the left, so texts made of parts compare part by part when the
    parts have one length each, or end at a separator.

    A stamp has its parts from the year down to the second, each with leading zeros:
    for the years 0 to 9999 the order of stamps is that of their seconds. -/

namespace Civil

/-! ## Section 1: Parts of a text -/

section Texts

variable {α : Type} [LinearOrder α] {a b r s : List α} {c : α}

theorem append_lt_append_iff (hlength : a.length = b.length) :
    a ++ r < b ++ s ↔ a < b ∨ (a = b ∧ r < s) := by
  induction a generalizing b with
  | nil =>
    obtain rfl := List.eq_nil_of_length_eq_zero hlength.symm
    simp
  | cons x a ih =>
    cases b with
    | nil => simp at hlength
    | cons y b =>
      simp only [List.cons_append, List.cons_lt_cons_iff, List.cons.injEq,
        ih (Nat.succ.inj hlength)]
      tauto

/-- Parts that end at a separator. -/
theorem append_cons_lt_iff (ha : c ∉ a) (hb : c ∉ b) :
    a ++ c :: r < b ++ c :: s ↔ a ++ [c] < b ++ [c] ∨ (a = b ∧ r < s) := by
  induction a generalizing b with
  | nil =>
    cases b with
    | nil => simp
    | cons y b =>
      have hne : c ≠ y := fun heq => hb (heq ▸ List.mem_cons_self)
      simp [List.cons_lt_cons_iff, hne]
  | cons x a ih =>
    cases b with
    | nil =>
      have hne : x ≠ c := fun heq => ha (heq ▸ List.mem_cons_self)
      simp [List.cons_lt_cons_iff, hne]
    | cons y b =>
      simp only [List.cons_append, List.cons_lt_cons_iff, List.cons.injEq,
        ih (List.not_mem_of_not_mem_cons ha) (List.not_mem_of_not_mem_cons hb)]
      tauto

omit [LinearOrder α] in
theorem append_cons_inj_iff (ha : c ∉ a) (hb : c ∉ b) :
    a ++ c :: r = b ++ c :: s ↔ a = b ∧ r = s := by
  induction a generalizing b with
  | nil =>
    cases b with
    | nil => simp
    | cons y b =>
      have hne : c ≠ y := fun heq => hb (heq ▸ List.mem_cons_self)
      simp [hne]
  | cons x a ih =>
    cases b with
    | nil =>
      have hne : x ≠ c := fun heq => ha (heq ▸ List.mem_cons_self)
      simp [hne]
    | cons y b =>
      simp only [List.cons_append, List.cons.injEq, and_assoc,
        ih (List.not_mem_of_not_mem_cons ha) (List.not_mem_of_not_mem_cons hb)]

/-- A separator below every character of the parts leaves their order. -/
theorem append_singleton_lt_iff (ha : ∀ x ∈ a, c < x) (hb : ∀ x ∈ b, c < x) :
    a ++ [c] < b ++ [c] ↔ a < b := by
  induction a generalizing b with
  | nil =>
    cases b with
    | nil => simp
    | cons y b => simp [List.cons_lt_cons_iff, hb y List.mem_cons_self]
  | cons x a ih =>
    cases b with
    | nil =>
      have hlt := ha x List.mem_cons_self
      simp [List.cons_lt_cons_iff, hlt.not_gt, hlt.ne']
    | cons y b =>
      simp only [List.cons_append, List.cons_lt_cons_iff,
        ih (fun x hx => ha x (List.mem_cons_of_mem _ hx)) fun y hy => hb y (List.mem_cons_of_mem _ hy)]

end Texts

/-! ## Section 2: Numbers with leading zeros -/

/-- The last `width` decimal digits. -/
def digits : Nat → Nat → List Char
  | 0, _ => []
  | width + 1, n => digits width (n / 10) ++ [Nat.digitChar (n % 10)]

theorem length_digits (width n : Nat) : (digits width n).length = width := by
  induction width generalizing n with
  | zero => rfl
  | succ width ih => simp [digits, ih]

theorem digitChar_lt {n m : Nat} (hlt : n < m) (hm : m < 10) :
    Nat.digitChar n < Nat.digitChar m := by
  have hall : ∀ m < 10, ∀ n < m, Nat.digitChar n < Nat.digitChar m := by decide
  exact hall m hm n hlt

theorem digits_lt {width n m : Nat} (hlt : n < m) (hm : m < 10 ^ width) :
    digits width n < digits width m := by
  induction width generalizing n m with
  | zero => omega
  | succ width ih =>
    rw [Nat.pow_succ] at hm
    rw [digits, digits, append_lt_append_iff (by simp [length_digits])]
    by_cases hhigh : n / 10 < m / 10
    · exact .inl (ih hhigh (by omega))
    · right
      have heq : n / 10 = m / 10 := by omega
      refine ⟨by rw [heq], ?_⟩
      rw [List.cons_lt_cons_iff]
      exact .inl (digitChar_lt (by omega) (by omega))

theorem digits_zero (width : Nat) : digits width 0 = List.replicate width '0' := by
  induction width with
  | zero => rfl
  | succ width ih => rw [digits, Nat.zero_div, ih, List.replicate_succ']; rfl

theorem toList_padded_eq {width n : Nat} (hn : n < 10 ^ (width + 1)) :
    (padded (width + 1) n).toList = digits (width + 1) n := by
  rw [toList_padded]
  induction width generalizing n with
  | zero =>
    have hdigit : n < 10 := by simpa using hn
    rw [Nat.toDigits_of_lt_base hdigit, digits, digits, Nat.mod_eq_of_lt hdigit]
    rfl
  | succ width ih =>
    by_cases hsmall : n < 10
    · rw [digits, Nat.div_eq_of_lt hsmall, digits_zero, Nat.mod_eq_of_lt hsmall,
        Nat.toDigits_of_lt_base hsmall]
      rfl
    · rw [digits, Nat.toDigits_of_base_le (by decide) (by omega), List.length_append,
        List.length_singleton, Nat.add_sub_add_right, ← List.append_assoc,
        ih (by rw [Nat.pow_succ] at hn; omega)]

theorem padded_lt {width n m : Nat} (hlt : n < m) (hm : m < 10 ^ (width + 1)) :
    (padded (width + 1) n).toList < (padded (width + 1) m).toList := by
  rw [toList_padded_eq hm, toList_padded_eq (by omega)]
  exact digits_lt hlt hm

theorem length_padded {width n : Nat} (hn : n < 10 ^ (width + 1)) :
    (padded (width + 1) n).toList.length = width + 1 := by
  rw [toList_padded_eq hn, length_digits]

/-! ## Section 3: Dates -/

/-- The days of the years before one that starts in March. -/
def daysBefore (year : Int) : Int := 365 * year + year / 4 - year / 100 + year / 400

/-- The year of a date, counted from March, and its month, from 0. -/
def marchYear (date : Date) : Int := if date.month ≤ 2 then date.year - 1 else date.year

def marchMonth (date : Date) : Int :=
  if 2 < date.month then (date.month : Int) - 3 else date.month + 9

/-- A month that there is, and a day of it. -/
def Date.Valid (date : Date) : Prop :=
  1 ≤ date.month ∧ date.month ≤ 12 ∧ 1 ≤ date.day ∧ date.day ≤ daysIn date.month date.year

def Date.Before (a b : Date) : Prop :=
  a.year < b.year ∨ a.year = b.year ∧ (a.month < b.month ∨ a.month = b.month ∧ a.day < b.day)

theorem daysOf_eq {date : Date} (hvalid : date.Valid) : daysOf date = daysBefore (marchYear date)
    + (153 * marchMonth date + 2) / 5 + date.day - 719469 := by
  obtain ⟨hm, hm', hd, _⟩ := hvalid
  unfold daysOf daysBefore marchYear marchMonth
  by_cases hlate : date.month ≤ 2
  · have hnot : ¬ 2 < date.month := by omega
    simp only [hlate, hnot, if_true, if_false]
    omega
  · have hnot : 2 < date.month := by omega
    simp only [hlate, hnot, if_true, if_false]
    omega

/-- The days of the next month come after those of this one. -/
theorem day_le_month {date : Date} (hvalid : date.Valid) (hmonth : marchMonth date < 11) :
    (153 * marchMonth date + 2) / 5 + date.day ≤ (153 * (marchMonth date + 1) + 2) / 5 := by
  obtain ⟨hm, hm', _, hd⟩ := hvalid
  unfold marchMonth at hmonth ⊢
  obtain ⟨month, hmonthEq⟩ : ∃ month, month = date.month := ⟨_, rfl⟩
  rw [← hmonthEq] at hm hm' hd hmonth ⊢
  have hnotFeb : month ≠ 2 := by
    rintro rfl
    simp at hmonth
  have hlen : daysIn month date.year
      = if month = 4 ∨ month = 6 ∨ month = 9 ∨ month = 11 then 30 else 31 := by
    rw [daysIn, if_neg hnotFeb]
  rw [hlen] at hd
  clear hlen hmonthEq
  interval_cases month <;> simp at hd hnotFeb ⊢ <;> omega

/-- The days of the next year come after those of this one. -/
theorem day_le_year {date : Date} (hvalid : date.Valid) : daysBefore (marchYear date)
    + (153 * marchMonth date + 2) / 5 + date.day ≤ daysBefore (marchYear date + 1) := by
  by_cases hmonth : marchMonth date < 11
  · have hday := day_le_month hvalid hmonth
    unfold daysBefore
    omega
  · obtain ⟨hm, hm', _, hd⟩ := hvalid
    have hfeb : date.month = 2 := by
      unfold marchMonth at hmonth
      split at hmonth <;> omega
    rw [hfeb, daysIn, if_pos rfl] at hd
    -- the leap day is in the February at the end
    unfold daysBefore marchYear marchMonth
    simp only [hfeb, le_refl, if_true, Nat.lt_irrefl, if_false, Int.sub_add_cancel]
    by_cases hleap : isLeap date.year = true
    · rw [if_pos hleap] at hd
      simp only [isLeap, Bool.and_eq_true, Bool.or_eq_true, beq_iff_eq, bne_iff_ne] at hleap
      omega
    · rw [if_neg hleap] at hd
      omega

theorem daysBefore_mono {y y' : Int} (hle : y ≤ y') : daysBefore y ≤ daysBefore y' := by
  unfold daysBefore
  omega

/-- **Dates and days have one order.** -/
theorem daysOf_lt {a b : Date} (ha : a.Valid) (hb : b.Valid) (hlt : a.Before b) :
    daysOf a < daysOf b := by
  rw [daysOf_eq ha, daysOf_eq hb]
  have hyear := day_le_year ha
  obtain ⟨hma, hma', hda, _⟩ := id ha
  obtain ⟨hmb, hmb', hdb, _⟩ := id hb
  have hmonths : marchYear a < marchYear b
      ∨ marchYear a = marchYear b ∧ marchMonth a < marchMonth b
      ∨ marchYear a = marchYear b ∧ marchMonth a = marchMonth b ∧ a.day < b.day := by
    unfold Date.Before at hlt
    unfold marchYear marchMonth
    split <;> split <;> split <;> split <;> omega
  have hrange : 0 ≤ marchMonth b ∧ marchMonth b ≤ 11 := by
    unfold marchMonth
    split <;> omega
  rcases hmonths with hless | ⟨heq, hless⟩ | ⟨heq, hmonth, hday⟩
  · have hmono := daysBefore_mono (show marchYear a + 1 ≤ marchYear b by omega)
    omega
  · have hmonth := day_le_month ha (by omega)
    rw [heq]
    omega
  · rw [heq, hmonth]
    omega

theorem Date.before_trichotomy (a b : Date) : a.Before b ∨ a = b ∨ b.Before a := by
  cases a
  cases b
  simp only [Before, mk.injEq]
  omega

theorem ofDays_before {days days' : Int} (hlt : days < days') :
    (ofDays days).Before (ofDays days') := by
  have hvalid : ∀ days, (ofDays days).Valid := ofDays_valid
  have hdays := daysOf_ofDays days
  have hdays' := daysOf_ofDays days'
  rcases Date.before_trichotomy (ofDays days) (ofDays days') with hbefore | heq | hbefore
  · exact hbefore
  · rw [heq] at hdays
    omega
  · have hback := daysOf_lt (hvalid days') (hvalid days) hbefore
    omega

/-! ## Section 4: Stamps -/

/-- The year in which an instant is. -/
def yearOf (t : Int) : Int := (ofDays (t / 1000000000 / 86400)).year

theorem part_lt {width n m : Nat} {c : Char} {r s : List Char} (hm : m < 10 ^ (width + 1))
    (hlt : n < m ∨ n = m ∧ r < s) :
    (padded (width + 1) n).toList ++ c :: r < (padded (width + 1) m).toList ++ c :: s := by
  rcases hlt with hlt | ⟨rfl, hlt⟩
  · have hlength : (padded (width + 1) n).toList.length = (padded (width + 1) m).toList.length := by
      rw [length_padded hm, length_padded (by omega)]
    exact (append_lt_append_iff hlength).mpr (.inl (padded_lt hlt hm))
  · apply (append_lt_append_iff rfl).mpr
    right
    refine ⟨rfl, ?_⟩
    rw [List.cons_lt_cons_iff]
    exact .inr ⟨rfl, hlt⟩

theorem toList_stamp (t : Int) : (stamp t).toList
    = (yearText (yearOf t)).toList ++ '-' :: ((padded 2 (ofDays (t / 1000000000 / 86400)).month).toList
      ++ '-' :: ((padded 2 (ofDays (t / 1000000000 / 86400)).day).toList
      ++ 'T' :: ((padded 2 ((t / 1000000000 % 86400).toNat / 3600)).toList
      ++ '-' :: ((padded 2 ((t / 1000000000 % 86400).toNat / 60 % 60)).toList
      ++ '-' :: ((padded 2 ((t / 1000000000 % 86400).toNat % 60)).toList ++ ['Z']))))) := by
  have hdash : "-".toList = ['-'] := rfl
  have hT : "T".toList = ['T'] := rfl
  have hZ : "Z".toList = ['Z'] := rfl
  simp only [stamp, yearOf, String.toList_append, List.append_assoc, hdash, hT, hZ,
    List.cons_append, List.nil_append]

/-- **For the years 0 to 9999 the stamps of later seconds are greater.** -/
theorem stamp_lt {t t' : Int} (hlt : t / 1000000000 < t' / 1000000000) (hyear : 0 ≤ yearOf t)
    (hyear' : yearOf t' ≤ 9999) : stamp t < stamp t' := by
  rw [String.lt_iff_toList_lt, toList_stamp, toList_stamp]
  obtain ⟨_, hmonth, _, _⟩ := ofDays_valid (t' / 1000000000 / 86400)
  have hday : (ofDays (t' / 1000000000 / 86400)).day < 100 := by
    have hvalid := (ofDays_valid (t' / 1000000000 / 86400)).2.2.2
    have hlength := daysIn_le (ofDays (t' / 1000000000 / 86400)).month
      (ofDays (t' / 1000000000 / 86400)).year
    omega
  have hdate : (ofDays (t / 1000000000 / 86400)).Before (ofDays (t' / 1000000000 / 86400))
      ∨ t / 1000000000 / 86400 = t' / 1000000000 / 86400 := by
    by_cases hdays : t / 1000000000 / 86400 < t' / 1000000000 / 86400
    · exact .inl (ofDays_before hdays)
    · exact .inr (by omega)
  have hnonneg : 0 ≤ yearOf t' := by
    rcases hdate with hbefore | heq
    · unfold Date.Before at hbefore
      unfold yearOf at hyear ⊢
      omega
    · unfold yearOf at hyear ⊢
      rwa [← heq]
  have htext : ∀ y : Int, 0 ≤ y → yearText y = padded 4 y.natAbs := by
    intro y hy
    exact if_neg (by omega)
  rw [htext _ hyear, htext _ hnonneg]
  apply part_lt (by omega)
  rcases hdate with hbefore | heq
  · unfold Date.Before at hbefore
    unfold yearOf at *
    rcases hbefore with hless | ⟨heqYear, hrest⟩
    · exact .inl (by omega)
    · refine .inr ⟨by omega, ?_⟩
      apply part_lt (by omega)
      rcases hrest with hless | ⟨heqMonth, hless⟩
      · exact .inl hless
      · exact .inr ⟨heqMonth, part_lt (by omega) (.inl hless)⟩
  · unfold yearOf
    rw [heq]
    -- the same day: the hour, the minute and the second
    refine .inr ⟨rfl, part_lt (by omega) (.inr ⟨rfl, part_lt (by omega) (.inr ⟨rfl, ?_⟩)⟩)⟩
    apply part_lt (by omega)
    by_cases hhour : (t / 1000000000 % 86400).toNat / 3600 < (t' / 1000000000 % 86400).toNat / 3600
    · exact .inl hhour
    · refine .inr ⟨by omega, part_lt (by omega) ?_⟩
      by_cases hminute : (t / 1000000000 % 86400).toNat / 60 % 60
          < (t' / 1000000000 % 86400).toNat / 60 % 60
      · exact .inl hminute
      · exact .inr ⟨by omega, part_lt (by omega) (.inl (by omega))⟩

theorem lt_of_isDigit {c d : Char} (hc : c < '0') (hd : d.isDigit = true) : c < d := by
  have hle : '0' ≤ d := by
    simp only [Char.isDigit, Bool.and_eq_true, decide_eq_true_eq] at hd
    exact hd.1
  exact lt_of_lt_of_le hc hle

/-- The years before 0 start with a sign, which sorts before the digits. -/
theorem stamp_lt_of_neg {t t' : Int} (hyear : yearOf t < 0) (hyear' : 0 ≤ yearOf t') :
    stamp t < stamp t' := by
  rw [String.lt_iff_toList_lt, toList_stamp, toList_stamp, yearText, yearText, if_pos hyear,
    if_neg (by omega)]
  have hminus : "-".toList = ['-'] := rfl
  rw [String.toList_append, hminus, List.singleton_append, List.cons_append]
  cases hdigits : (padded 4 (yearOf t').natAbs).toList with
  | nil =>
    have hlength := congrArg List.length hdigits
    simp only [toList_padded, List.length_append, List.length_replicate, List.length_nil] at hlength
    omega
  | cons c cs =>
    have hc : c.isDigit = true := isDigit_of_mem_padded (hdigits ▸ List.mem_cons_self)
    rw [List.cons_append, List.cons_lt_cons_iff]
    exact .inl (lt_of_isDigit (by decide) hc)

/-- A stamp ends at the only `Z` in it. -/
theorem exists_stamp_front (t : Int) :
    ∃ front, (stamp t).toList = front ++ ['Z'] ∧ 'Z' ∉ front := by
  have hdigits : ∀ width n, 'Z' ∉ (padded width n).toList := by
    intro width n hmem
    have hdigit := isDigit_of_mem_padded hmem
    revert hdigit
    decide
  have hyear : ∀ y, 'Z' ∉ (yearText y).toList := by
    intro y
    unfold yearText
    split
    · rw [String.toList_append, List.mem_append, not_or]
      exact ⟨by decide, hdigits _ _⟩
    · exact hdigits _ _
  rw [toList_stamp]
  simp only [← List.cons_append, ← List.append_assoc]
  refine ⟨_, rfl, ?_⟩
  simp [hdigits, hyear]

end Civil
