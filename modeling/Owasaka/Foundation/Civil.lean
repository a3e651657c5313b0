import Mathlib.Data.Nat.Notation
import Mathlib.Tactic.IntervalCases

/-! # Calendar dates

    The date and the time of day of an instant, given as nanoseconds since the
    Unix epoch, in the proleptic Gregorian calendar and in UTC, and its text
    with `-` between the parts of the time.

    Years are counted from March, so that the leap day is the last of a year:
    the 400 years of an era have 146097 days.  `daysOf` is the way back from a
    date to its day, so a date determines the day and a text the second. -/

namespace Civil

structure Date where
  year : Int
  month : Nat
  day : Nat
  deriving DecidableEq, Repr

/-- The date of a day, numbered from 1970-01-01. -/
def ofDays (days : Int) : Date :=
  -- days since 0000-03-01
  let z := days + 719468
  let era := z / 146097
  let doe := (z % 146097).toNat
  let yoe := (doe - doe / 1460 + doe / 36524 - doe / 146096) / 365
  let doy := doe - (365 * yoe + yoe / 4 - yoe / 100)
  let mp := (5 * doy + 2) / 153
  let day := doy - (153 * mp + 2) / 5 + 1
  let month := if mp < 10 then mp + 3 else mp - 9
  { year := yoe + era * 400 + (if month ≤ 2 then 1 else 0), month := month, day := day }

/-- At least `width` decimal digits. -/
def padded (width n : Nat) : String :=
  let digits := Nat.toDigits 10 n
  String.ofList (List.replicate (width - digits.length) '0' ++ digits)

/-- Four digits, after a sign for the years before 0. -/
def yearText (year : Int) : String :=
  if year < 0 then "-" ++ padded 4 year.natAbs else padded 4 year.natAbs

/-- The layout `2006-01-02T15-04-05Z`. -/
def stamp (t : Int) : String :=
  let secs := t / 1000000000
  let date := ofDays (secs / 86400)
  let sec := (secs % 86400).toNat
  yearText date.year ++ "-" ++ padded 2 date.month ++ "-" ++ padded 2 date.day ++ "T"
    ++ padded 2 (sec / 3600) ++ "-" ++ padded 2 (sec / 60 % 60) ++ "-" ++ padded 2 (sec % 60) ++ "Z"

-- a leap day, the day after it, and the second before the epoch
example : (stamp 1709251199000000000, stamp 1709251200000000000, stamp (-1))
    = ("2024-02-29T23-59-59Z", "2024-03-01T00-00-00Z", "1969-12-31T23-59-59Z") := by decide +kernel

/-! ## Section 1: From a date to its day -/

/-- The day of a date, numbered from 1970-01-01. -/
def daysOf (date : Date) : Int :=
  let y := if date.month ≤ 2 then date.year - 1 else date.year
  let era := y / 400
  let yoe := (y % 400).toNat
  let mp := if 2 < date.month then date.month - 3 else date.month + 9
  let doy := (153 * mp + 2) / 5 + date.day - 1
  let doe := yoe * 365 + yoe / 4 - yoe / 100 + doy
  era * 146097 + doe - 719468

/-- A day of an era by century, group of four years, year and day of the year.
    Only the last year of a group has a day 365, and of the last groups only that
    of the last century. -/
theorem exists_era_parts {doe : Nat} (hdoe : doe < 146097) :
    ∃ c q s r, c < 4 ∧ q < 25 ∧ s < 4 ∧ r < 366 ∧ (r = 365 → s = 3 ∧ (q < 24 ∨ c = 3))
      ∧ doe = 36524 * c + 1461 * q + 365 * s + r := by
  obtain ⟨c, hc⟩ : ∃ c, c = min (doe / 36524) 3 := ⟨_, rfl⟩
  obtain ⟨q, hq⟩ : ∃ q, q = min ((doe - 36524 * c) / 1461) 24 := ⟨_, rfl⟩
  obtain ⟨s, hs⟩ : ∃ s, s = min ((doe - 36524 * c - 1461 * q) / 365) 3 := ⟨_, rfl⟩
  refine ⟨c, q, s, doe - 36524 * c - 1461 * q - 365 * s, ?_⟩
  omega

/-- The year of the era, by the corrections for the leap days before it. -/
theorem yearOfEra_eq {doe c q s r : Nat} (hc : c < 4) (hq : q < 25) (hs : s < 4) (hr : r < 366)
    (hleap : r = 365 → s = 3 ∧ (q < 24 ∨ c = 3))
    (hdoe : doe = 36524 * c + 1461 * q + 365 * s + r) :
    (doe - doe / 1460 + doe / 36524 - doe / 146096) / 365 = 100 * c + 4 * q + s := by
  have hcentury : doe / 36524 = c ∨ doe / 36524 = 4 ∧ doe = 146096 ∧ c = 3 := by omega
  have hgroup : doe / 1460 = 25 * c + q ∨ doe / 1460 = 25 * c + q + 1 := by omega
  interval_cases c <;> interval_cases s <;> omega

/-- The day of the year from its month, counted from March, and the day of that. -/
theorem dayOfYear_eq {r mp : Nat} (hmp : mp = (5 * r + 2) / 153) :
    (153 * mp + 2) / 5 + (r - (153 * mp + 2) / 5 + 1) - 1 = r := by omega

/-- **A date determines its day.** -/
theorem daysOf_ofDays (days : Int) : daysOf (ofDays days) = days := by
  obtain ⟨z, hz⟩ : ∃ z, z = days + 719468 := ⟨_, rfl⟩
  obtain ⟨doe, hdoe⟩ : ∃ doe, doe = (z % 146097).toNat := ⟨_, rfl⟩
  obtain ⟨c, q, s, r, hc, hq, hs, hr, hleap, hparts⟩ :=
    exists_era_parts (show doe < 146097 by omega)
  obtain ⟨yoe, hyear⟩ : ∃ yoe, yoe = 100 * c + 4 * q + s := ⟨_, rfl⟩
  have hyoe := yearOfEra_eq hc hq hs hr hleap hparts
  rw [← hyear] at hyoe
  have hstart : 365 * yoe + yoe / 4 - yoe / 100 = 36524 * c + 1461 * q + 365 * s := by omega
  have hdoy : doe - (365 * yoe + yoe / 4 - yoe / 100) = r := by omega
  have hback : yoe * 365 + yoe / 4 - yoe / 100 + r = doe := by omega
  obtain ⟨mp, hmp⟩ : ∃ mp, mp = (5 * r + 2) / 153 := ⟨_, rfl⟩
  have hday := dayOfYear_eq hmp
  have hlt : yoe < 400 := by omega
  have hera : ∀ era : Int, ((yoe : Int) + era * 400) / 400 = era
      ∧ (((yoe : Int) + era * 400) % 400).toNat = yoe := by
    intro era
    omega
  have hmod : z / 146097 * 146097 + (doe : Int) = z := by
    clear hparts hback hdoy
    omega
  obtain ⟨hdiv, hrem⟩ := hera (z / 146097)
  simp only [ofDays, daysOf, ← hz, ← hdoe, hyoe, hdoy, ← hmp]
  -- the months from March to December are in the year itself, the other two in the next
  by_cases hlate : mp < 10
  · simp only [hlate, if_true, show ¬ mp + 3 ≤ 2 by omega, show 2 < mp + 3 by omega, if_false,
      Int.add_zero, hdiv, hrem, Nat.add_sub_cancel, hday, hback]
    rw [hmod, hz]
    exact Int.add_sub_cancel _ _
  · have hmonth : mp - 9 + 9 = mp := by omega
    simp only [hlate, if_false, show mp - 9 ≤ 2 by omega, show ¬ 2 < mp - 9 by omega, if_true,
      Int.add_sub_cancel, hdiv, hrem, hmonth, hday, hback]
    rw [hmod, hz]
    exact Int.add_sub_cancel _ _

/-! ## Section 2: The days of a month -/

def isLeap (year : Int) : Bool := year % 4 == 0 && (year % 100 != 0 || year % 400 == 0)

def daysIn (month : Nat) (year : Int) : Nat :=
  if month = 2 then if isLeap year then 29 else 28
  else if month = 4 ∨ month = 6 ∨ month = 9 ∨ month = 11 then 30
  else 31

theorem daysIn_le (month : Nat) (year : Int) : daysIn month year ≤ 31 := by
  unfold daysIn
  split
  · split <;> decide
  · split <;> decide

/-- A year ends in a leap day only when the next one, which its February belongs to,
    is a leap year. -/
theorem isLeap_of_parts {c q s : Nat} {era : Int} (hs : s = 3) (hq : q < 25)
    (hgroup : q < 24 ∨ c = 3) :
    isLeap (((100 * c + 4 * q + s : Nat) : Int) + era * 400 + 1) = true := by
  subst hs
  simp only [isLeap, Bool.and_eq_true, Bool.or_eq_true, beq_iff_eq, bne_iff_ne]
  by_cases hlast : q = 24
  · exact ⟨by omega, .inr (by omega)⟩
  · exact ⟨by omega, .inl (by omega)⟩

theorem month_le {mp : Nat} (hmp : mp < 12) :
    1 ≤ (if mp < 10 then mp + 3 else mp - 9) ∧ (if mp < 10 then mp + 3 else mp - 9) ≤ 12 := by
  split <;> omega

/-- The day of a month, from the day of a year that starts in March. -/
theorem day_le {r mp : Nat} {year : Int} (hr : r < 366) (hmp : mp = (5 * r + 2) / 153)
    (hleap : r = 365 → isLeap (year + 1) = true) :
    r - (153 * mp + 2) / 5 + 1 ≤ daysIn (if mp < 10 then mp + 3 else mp - 9)
      (year + if (if mp < 10 then mp + 3 else mp - 9) ≤ 2 then 1 else 0) := by
  have hlt : mp < 12 := by omega
  by_cases hfeb : mp = 11
  · subst hfeb
    by_cases hlast : r = 365
    · simp [daysIn, hlast, hleap hlast]
    · have hday : r - (153 * 11 + 2) / 5 + 1 ≤ 28 := by omega
      refine Nat.le_trans hday ?_
      simp only [daysIn, show ¬ 11 < 10 by decide, if_false, Nat.reduceSub, if_true]
      cases isLeap _ <;> decide
  · clear hleap
    -- the other months do not depend on the year
    have hlen : daysIn (if mp < 10 then mp + 3 else mp - 9)
        (year + if (if mp < 10 then mp + 3 else mp - 9) ≤ 2 then 1 else 0)
          = if mp = 1 ∨ mp = 3 ∨ mp = 6 ∨ mp = 8 then 30 else 31 := by
      interval_cases mp <;> first | rfl | contradiction
    rw [hlen]
    split <;> omega

/-- **Every day has a month and a day of that month.** -/
theorem ofDays_valid (days : Int) : 1 ≤ (ofDays days).month ∧ (ofDays days).month ≤ 12
    ∧ 1 ≤ (ofDays days).day
    ∧ (ofDays days).day ≤ daysIn (ofDays days).month (ofDays days).year := by
  obtain ⟨z, hz⟩ : ∃ z, z = days + 719468 := ⟨_, rfl⟩
  obtain ⟨doe, hdoe⟩ : ∃ doe, doe = (z % 146097).toNat := ⟨_, rfl⟩
  obtain ⟨c, q, s, r, hc, hq, hs, hr, hleap, hparts⟩ :=
    exists_era_parts (show doe < 146097 by omega)
  have hyoe := yearOfEra_eq hc hq hs hr hleap hparts
  have hstart : 365 * (100 * c + 4 * q + s) + (100 * c + 4 * q + s) / 4 - (100 * c + 4 * q + s) / 100
      = 36524 * c + 1461 * q + 365 * s := by omega
  have hdoy : doe - (365 * (100 * c + 4 * q + s) + (100 * c + 4 * q + s) / 4
      - (100 * c + 4 * q + s) / 100) = r := by omega
  obtain ⟨mp, hmp⟩ : ∃ mp, mp = (5 * r + 2) / 153 := ⟨_, rfl⟩
  have hlt : mp < 12 := by omega
  have hdate : ofDays days = ⟨((100 * c + 4 * q + s : Nat) : Int) + z / 146097 * 400
      + (if (if mp < 10 then mp + 3 else mp - 9) ≤ 2 then 1 else 0),
      if mp < 10 then mp + 3 else mp - 9, r - (153 * mp + 2) / 5 + 1⟩ := by
    simp only [ofDays, ← hz, ← hdoe, hyoe, hdoy, ← hmp]
  have hleapDay : r = 365 →
      isLeap (((100 * c + 4 * q + s : Nat) : Int) + z / 146097 * 400 + 1) = true := by
    intro hlast
    obtain ⟨hs3, hgroup⟩ := hleap hlast
    exact isLeap_of_parts hs3 hq hgroup
  rw [hdate]
  exact ⟨(month_le hlt).1, (month_le hlt).2, Nat.le_add_left _ _, day_le hr hmp hleapDay⟩

/-! ## Section 3: From a text to its second -/

theorem toList_padded (width n : Nat) : (padded width n).toList
    = List.replicate (width - (Nat.toDigits 10 n).length) '0' ++ Nat.toDigits 10 n := by
  simp [padded]

theorem isDigit_of_mem_padded {width n : Nat} {c : Char} (hc : c ∈ (padded width n).toList) :
    c.isDigit = true := by
  rw [toList_padded, List.mem_append] at hc
  rcases hc with hzero | hdigit
  · rw [List.eq_of_mem_replicate hzero]
    rfl
  · exact Nat.isDigit_of_mem_toDigits (by decide) (by decide) hdigit

theorem ofDigitChars_padded (width n : Nat) :
    Nat.ofDigitChars 10 (padded width n).toList 0 = n := by
  rw [toList_padded, Nat.ofDigitChars_append, Nat.ofDigitChars_replicate_zero, Nat.mul_zero,
    Nat.ofDigitChars_ten_toDigits]

/-- Digits before a character that is none are determined by the text. -/
theorem digits_append_inj {a a' r r' : List Char} {c : Char} (ha : ∀ x ∈ a, x.isDigit = true)
    (ha' : ∀ x ∈ a', x.isDigit = true) (hc : c.isDigit = false) (heq : a ++ c :: r = a' ++ c :: r') :
    a = a' ∧ r = r' := by
  have htake : a = a' := by
    have hboth := congrArg (List.takeWhile Char.isDigit) heq
    rwa [List.takeWhile_append_of_pos ha, List.takeWhile_append_of_pos ha',
      List.takeWhile_cons_of_neg (by simp [hc]), List.takeWhile_cons_of_neg (by simp [hc]),
      List.append_nil, List.append_nil] at hboth
  subst htake
  simpa using heq

theorem padded_append_inj {width n n' : Nat} {c : Char} {r r' : List Char} (hc : c.isDigit = false)
    (heq : (padded width n).toList ++ c :: r = (padded width n').toList ++ c :: r') :
    n = n' ∧ r = r' := by
  obtain ⟨htext, hrest⟩ := digits_append_inj (fun _ => isDigit_of_mem_padded)
    (fun _ => isDigit_of_mem_padded) hc heq
  refine ⟨?_, hrest⟩
  rw [← ofDigitChars_padded width n, htext, ofDigitChars_padded]

/-- A year is determined by its text up to the `-` that follows. -/
theorem yearText_append_inj {y y' : Int} {r r' : List Char}
    (heq : (yearText y).toList ++ '-' :: r = (yearText y').toList ++ '-' :: r') :
    y = y' ∧ r = r' := by
  have hsign : ∀ n m : Nat, ∀ s s' : List Char,
      '-' :: (padded 4 n).toList ++ '-' :: s ≠ (padded 4 m).toList ++ '-' :: s' := by
    intro n m s s' hmixed
    -- a text of four digits is not empty, and starts with a digit
    cases hdigits : (padded 4 m).toList with
    | nil =>
      have hlen := congrArg List.length hdigits
      simp only [toList_padded, List.length_append, List.length_replicate, List.length_nil] at hlen
      omega
    | cons c cs =>
      have hc : c.isDigit = true := isDigit_of_mem_padded (hdigits ▸ List.mem_cons_self)
      rw [hdigits] at hmixed
      simp only [List.cons_append, List.cons.injEq] at hmixed
      rw [← hmixed.1] at hc
      contradiction
  unfold yearText at heq
  split at heq <;> split at heq
  · simp only [String.toList_append, List.append_assoc] at heq
    obtain ⟨habs, hrest⟩ := padded_append_inj rfl (List.append_cancel_left heq)
    exact ⟨by omega, hrest⟩
  · simp only [String.toList_append] at heq
    exact absurd heq (hsign _ _ _ _)
  · simp only [String.toList_append] at heq
    exact absurd heq.symm (hsign _ _ _ _)
  · obtain ⟨habs, hrest⟩ := padded_append_inj rfl heq
    exact ⟨by omega, hrest⟩

/-- **A stamp determines the second of its instant.** -/
theorem stamp_inj {t t' : Int} (heq : stamp t = stamp t') :
    t / 1000000000 = t' / 1000000000 := by
  obtain ⟨secs, hsecs⟩ : ∃ secs, secs = t / 1000000000 := ⟨_, rfl⟩
  obtain ⟨secs', hsecs'⟩ : ∃ secs', secs' = t' / 1000000000 := ⟨_, rfl⟩
  have hlist := congrArg String.toList heq
  have hdash : "-".toList = ['-'] := rfl
  have hT : "T".toList = ['T'] := rfl
  have hZ : "Z".toList = ['Z'] := rfl
  simp only [stamp, ← hsecs, ← hsecs', String.toList_append, List.append_assoc, hdash, hT, hZ,
    List.singleton_append] at hlist
  -- the parts one after the other, each up to its separator
  obtain ⟨hyear, hlist⟩ := yearText_append_inj hlist
  obtain ⟨hmonth, hlist⟩ := padded_append_inj rfl hlist
  obtain ⟨hday, hlist⟩ := padded_append_inj rfl hlist
  obtain ⟨hhour, hlist⟩ := padded_append_inj rfl hlist
  obtain ⟨hminute, hlist⟩ := padded_append_inj rfl hlist
  obtain ⟨hsecond, _⟩ := padded_append_inj rfl hlist
  have hdate : ofDays (secs / 86400) = ofDays (secs' / 86400) := by
    cases hd : ofDays (secs / 86400)
    cases hd' : ofDays (secs' / 86400)
    simp_all
  have hdays : secs / 86400 = secs' / 86400 := by
    rw [← daysOf_ofDays (secs / 86400), hdate, daysOf_ofDays]
  omega

end Civil
