import Mathlib.Data.List.TakeWhile
import Mathlib.Tactic.Ring
import Owasaka.Foundation.Ascii
import Owasaka.Foundation.Civil

/-! # Times in the format of RFC 3339

    A time is an instant, in nanoseconds since the Unix epoch, with the offset of
    the zone it is shown in.  `format` shows up to nine digits of the fraction, and
    an offset to the minute; `parse` also takes hours of one digit, a comma before
    the fraction, and offsets of up to 24:60.

    A time whose offset is a whole number of minutes is read back from its text, and
    its text determines it. -/

namespace Rfc3339

/-- An instant and the seconds that its zone is ahead of UTC. -/
structure Time where
  instant : Int
  offset : Int
  deriving DecidableEq

/-- The zero time, January 1 of year 1, UTC. -/
def zero : Time := ⟨-62135596800 * 1000000000, 0⟩

/-! ## Section 1: The text of a time -/

/-- The seconds that a clock in the zone shows, since 1970-01-01T00:00:00. -/
def Time.seconds (t : Time) : Int := t.instant / 1000000000 + t.offset

def Time.date (t : Time) : Civil.Date := Civil.ofDays (t.seconds / 86400)

def Time.secondOfDay (t : Time) : Nat := (t.seconds % 86400).toNat

def Time.nanosecond (t : Time) : Nat := (t.instant % 1000000000).toNat

/-- At least `width` decimal digits. -/
def pad (width n : Nat) : Bytes := Bytes.ascii (Civil.padded width n)

def yearText (year : Int) : Bytes := Bytes.ascii (Civil.yearText year)

/-- The fraction of a second without its trailing zeros. -/
def fractionText (nanos : Nat) : Bytes := if nanos = 0 then [] else 0x2e :: Bytes.trimZeros (pad 9 nanos)

/-- The offset of a zone in whole minutes, towards zero. -/
def zoneMinutes (offset : Int) : Int := offset.tdiv 60

def zoneText (offset : Int) : Bytes :=
  if offset = 0 then [0x5a]
  else
    let zone := zoneMinutes offset
    (if zone < 0 then 0x2d else 0x2b)
      :: (pad 2 (zone.natAbs / 60) ++ 0x3a :: pad 2 (zone.natAbs % 60))

/-- The layout `2006-01-02T15:04:05.999999999Z07:00`. -/
def format (t : Time) : Bytes :=
  let date := t.date
  let sec := t.secondOfDay
  yearText date.year ++ 0x2d :: (pad 2 date.month ++ 0x2d :: (pad 2 date.day ++ 0x54
    :: (pad 2 (sec / 3600) ++ 0x3a :: (pad 2 (sec / 60 % 60) ++ 0x3a :: (pad 2 (sec % 60)
      ++ (fractionText t.nanosecond ++ zoneText t.offset))))))

/-- The text in JSON; years of more or less than four digits and zones of a day or
    more have none. -/
def marshal (t : Time) : Option Bytes :=
  if t.date.year < 0 ∨ 9999 < t.date.year ∨ 24 ≤ (zoneMinutes t.offset).natAbs / 60 then none
  else some (format t)

/-! ## Section 2: The time of a text -/

/-- A number of `width` digits. -/
def digits (width : Nat) (s : Bytes) : Option (Nat × Bytes) :=
  if (s.take width).length = width ∧ (s.take width).all Bytes.isDigit then
    some (Bytes.ofDecimal (s.take width), s.drop width)
  else none

/-- A number of one or two digits. -/
def shortDigits (s : Bytes) : Option (Nat × Bytes) := (digits 2 s).or (digits 1 s)

/-- The text after the byte `c`. -/
def skip (c : UInt8) : Bytes → Option Bytes
  | [] => none
  | b :: s => if b = c then some s else none

/-- The nanoseconds of a fraction; digits after the ninth are dropped. -/
def fraction : Bytes → Nat × Bytes
  | b :: c :: s =>
    if (b = 0x2e ∨ b = 0x2c) ∧ Bytes.isDigit c then
      let ds := ((c :: s).takeWhile Bytes.isDigit).take 9
      (Bytes.ofDecimal ds * 10 ^ (9 - ds.length), (c :: s).dropWhile Bytes.isDigit)
    else (0, b :: c :: s)
  | s => (0, s)

/-- The offset in seconds. -/
def zone (s : Bytes) : Option (Int × Bytes) :=
  match s with
  | [] => none
  | b :: s =>
    if b = 0x5a then some (0, s)
    else do
      let (hours, s) ← digits 2 s
      let s ← skip 0x3a s
      let (minutes, s) ← digits 2 s
      if 24 < hours ∨ 60 < minutes then none
      else if b = 0x2b then some ((hours * 60 + minutes) * 60, s)
      else if b = 0x2d then some (-((hours * 60 + minutes) * 60), s)
      else none

def parse (s : Bytes) : Option Time := do
  let (year, s) ← digits 4 s
  let s ← skip 0x2d s
  let (month, s) ← digits 2 s
  let s ← skip 0x2d s
  let (day, s) ← digits 2 s
  let s ← skip 0x54 s
  let (hour, s) ← shortDigits s
  let s ← skip 0x3a s
  let (minute, s) ← digits 2 s
  let s ← skip 0x3a s
  let (second, s) ← digits 2 s
  let (nanos, s) := fraction s
  let (offset, s) ← zone s
  if month = 0 ∨ 12 < month ∨ day = 0 ∨ Civil.daysIn month year < day ∨ 23 < hour ∨ 59 < minute
      ∨ 59 < second ∨ s ≠ [] then none
  else
    let seconds := Civil.daysOf ⟨year, month, day⟩ * 86400
      + ((hour * 3600 + minute * 60 + second : Nat) : Int)
    some ⟨(seconds - offset) * 1000000000 + nanos, offset⟩

-- a leap day, an offset of one hour and a fraction
example : format ⟨1709251199500000000, 3600⟩ = Bytes.ascii "2024-03-01T00:59:59.5+01:00" := by
  decide +kernel

example : parse (Bytes.ascii "2024-03-01T00:59:59.5+01:00") = some ⟨1709251199500000000, 3600⟩ := by
  decide +kernel

/-! ## Section 3: Reading the parts back -/

theorem isDigit_of_mem_pad {width n : Nat} {c : UInt8} (hc : c ∈ pad width n) :
    Bytes.isDigit c = true := by
  unfold pad Bytes.ascii at hc
  exact Bytes.isDigit_of_mem_map (fun _ => Civil.isDigit_of_mem_padded) hc

theorem ofDecimal_pad (width n : Nat) : Bytes.ofDecimal (pad width n) = n := by
  rw [pad, Bytes.ascii, Bytes.ofDecimal_map fun _ => Civil.isDigit_of_mem_padded,
    Civil.ofDigitChars_padded]

theorem length_pad {w n : Nat} (hpos : 0 < w) (hn : n < 10 ^ w) :
    (pad w n).length = w := by
  have hle := (Nat.length_toDigits_le_iff (b := 10) (by decide) hpos).mpr hn
  rw [pad, Bytes.ascii, List.length_map, Civil.toList_padded, List.length_append,
    List.length_replicate]
  omega

theorem digits_pad {w n : Nat} (hpos : 0 < w) (hn : n < 10 ^ w) (rest : Bytes) :
    digits w (pad w n ++ rest) = some (n, rest) := by
  have hlen := length_pad hpos hn
  have hdigits : (pad w n).all Bytes.isDigit = true := by
    rw [List.all_eq_true]
    exact fun c => isDigit_of_mem_pad
  rw [digits, List.take_left' hlen, List.drop_left' hlen, if_pos ⟨hlen, hdigits⟩, ofDecimal_pad]

theorem skip_self (c : UInt8) (s : Bytes) : skip c (c :: s) = some s := by simp [skip]

theorem fraction_fractionText {nanos : Nat} (hn : nanos < 1000000000) {b : UInt8} {t : Bytes}
    (hb : Bytes.isDigit b = false) (hsep : b ≠ 0x2e ∧ b ≠ 0x2c) :
    fraction (fractionText nanos ++ b :: t) = (nanos, b :: t) := by
  unfold fractionText
  split
  · next hzero =>
    rw [hzero, List.nil_append]
    cases t with
    | nil => rfl
    | cons c t => simp [fraction, hsep.1, hsep.2]
  · next hne =>
    obtain ⟨k, hk⟩ := Bytes.trimZeros_append (pad 9 nanos)
    have hlen := length_pad (w := 9) (by decide) hn
    have hdigit : ∀ c ∈ Bytes.trimZeros (pad 9 nanos), Bytes.isDigit c = true :=
      fun c => Bytes.isDigit_of_mem_trimZeros fun _ => isDigit_of_mem_pad
    have hval := ofDecimal_pad 9 nanos
    rw [hk, Bytes.ofDecimal_append_zeros] at hval
    have hlen' := congrArg List.length hk
    rw [hlen, List.length_append, List.length_replicate] at hlen'
    generalize Bytes.trimZeros (pad 9 nanos) = ds at hdigit hval hlen'
    cases ds with
    | nil => simp [Bytes.ofDecimal] at hval; omega
    | cons c ds =>
      have htake : ((c :: ds) ++ b :: t).takeWhile Bytes.isDigit = c :: ds := by
        rw [List.takeWhile_append_of_pos hdigit, List.takeWhile_cons_of_neg (by simp [hb]),
          List.append_nil]
      have hdrop : ((c :: ds) ++ b :: t).dropWhile Bytes.isDigit = b :: t := by
        rw [List.dropWhile_append_of_pos hdigit, List.dropWhile_cons_of_neg (by simp [hb])]
      have hnine : (c :: ds).take 9 = c :: ds := List.take_of_length_le (by omega)
      have hexp : 9 - (c :: ds).length = k := by omega
      rw [List.cons_append, List.cons_append, fraction, if_pos ⟨.inl rfl, hdigit c List.mem_cons_self⟩]
      simp only [List.cons_append] at htake hdrop
      simp only [htake, hdrop, hnine, hexp, hval]

theorem zone_zoneText {offset : Int} (hsmall : (zoneMinutes offset).natAbs / 60 < 24) :
    zone (zoneText offset) = some (zoneMinutes offset * 60, []) := by
  unfold zoneText
  split
  · next hzero =>
    subst hzero
    rfl
  · next hne =>
    dsimp only
    generalize zoneMinutes offset = minutes at hsmall ⊢
    have hhours := digits_pad (w := 2) (n := minutes.natAbs / 60) (by decide) (by omega)
      (0x3a :: pad 2 (minutes.natAbs % 60))
    have hminutes := digits_pad (w := 2) (n := minutes.natAbs % 60) (by decide) (by omega) []
    rw [List.append_nil] at hminutes
    have hrange : ¬ (24 < minutes.natAbs / 60 ∨ 60 < minutes.natAbs % 60) := by omega
    by_cases hneg : minutes < 0
    · have habs : (minutes.natAbs : Int) = -minutes := by omega
      generalize minutes.natAbs = m at hhours hminutes hrange habs ⊢
      simp only [zone, hneg, if_true, show (0x2d : UInt8) ≠ 0x5a by decide, if_false, hhours,
        Option.bind_eq_bind, Option.bind_some, skip_self, hminutes, hrange,
        show (0x2d : UInt8) ≠ 0x2b by decide, Option.some.injEq, Prod.mk.injEq, and_true]
      omega
    · have habs : (minutes.natAbs : Int) = minutes := by omega
      generalize minutes.natAbs = m at hhours hminutes hrange habs ⊢
      simp only [zone, hneg, if_false, show (0x2b : UInt8) ≠ 0x5a by decide, hhours,
        Option.bind_eq_bind, Option.bind_some, skip_self, hminutes, hrange, if_true,
        Option.some.injEq, Prod.mk.injEq, and_true]
      omega

theorem zoneText_head (offset : Int) : ∃ b rest, zoneText offset = b :: rest
    ∧ Bytes.isDigit b = false ∧ b ≠ 0x2e ∧ b ≠ 0x2c := by
  unfold zoneText
  split
  · exact ⟨0x5a, [], rfl, by decide, by decide, by decide⟩
  · by_cases hneg : zoneMinutes offset < 0
    · exact ⟨0x2d, _, by simp only [hneg, if_true]; rfl, by decide, by decide, by decide⟩
    · exact ⟨0x2b, _, by simp only [hneg, if_false]; rfl, by decide, by decide, by decide⟩

theorem yearText_eq {year : Int} (hnonneg : 0 ≤ year) : yearText year = pad 4 year.natAbs := by
  rw [yearText, Civil.yearText, if_neg (by omega)]
  rfl

theorem yearText_neg {year : Int} (hneg : year < 0) : yearText year = 0x2d :: pad 4 year.natAbs := by
  rw [yearText, Civil.yearText, if_pos hneg]
  simp [pad, Bytes.ascii]

/-- The time that is read back: its offset is cut to the minute, and what was cut is
    moved into the instant. -/
def Time.toMinute (t : Time) : Time :=
  ⟨t.instant + (t.offset - zoneMinutes t.offset * 60) * 1000000000, zoneMinutes t.offset * 60⟩

/-- One part of a text is read, and then the rest. -/
theorem read_step {α β : Type} {x : Option α} {a : α} {f : α → Option β} {y : Option β}
    (hx : x = some a) (hrest : f a = y) : x.bind f = y := by
  rw [hx]
  exact hrest

theorem parse_format {t : Time} (hlo : 0 ≤ t.date.year) (hhi : t.date.year ≤ 9999)
    (hzone : (zoneMinutes t.offset).natAbs / 60 < 24) : parse (format t) = some t.toMinute := by
  obtain ⟨hmonth, hmonth', hday, hday'⟩ := Civil.ofDays_valid (t.seconds / 86400)
  have hdays := Civil.daysOf_ofDays (t.seconds / 86400)
  have hdate : Civil.ofDays (t.seconds / 86400) = t.date := rfl
  rw [hdate] at hmonth hmonth' hday hday' hdays
  -- the parts of the date and of the clock as plain numbers for `omega`
  obtain ⟨date, hdateEq⟩ : ∃ date, date = t.date := ⟨_, rfl⟩
  obtain ⟨sec, hsec⟩ : ∃ sec, sec = t.secondOfDay := ⟨_, rfl⟩
  rw [← hdateEq] at hlo hhi hmonth hmonth' hday hday' hdays
  have hsec' : (sec : Int) = t.seconds % 86400 := by
    rw [hsec, Time.secondOfDay]
    omega
  have hsecLt : sec < 86400 := by omega
  have hnanos : t.nanosecond < 1000000000 := by
    rw [Time.nanosecond]
    omega
  have hmonthLe := Civil.daysIn_le date.month date.year
  have hyearAbs : ((date.year.natAbs : Nat) : Int) = date.year := Int.natAbs_of_nonneg hlo
  obtain ⟨b, rest, hhead, hdigit, hdot, hcomma⟩ := zoneText_head t.offset
  have hfraction := fraction_fractionText hnanos (t := rest) hdigit ⟨hdot, hcomma⟩
  rw [← hhead] at hfraction
  -- each field is read back from its padded digits
  have hhour := digits_pad (w := 2) (n := sec / 3600) (by decide) (by omega)
  have hminute := digits_pad (w := 2) (n := sec / 60 % 60) (by decide) (by omega)
  have hsecond := digits_pad (w := 2) (n := sec % 60) (by decide) (by omega)
  have hdayText := digits_pad (w := 2) (n := date.day) (by decide) (by omega)
  have hmonthText := digits_pad (w := 2) (n := date.month) (by decide) (by omega)
  have hyear := digits_pad (w := 4) (n := date.year.natAbs) (by decide) (by omega)
  -- the fields are in range, so the reader refuses none of them
  have hrange : ¬ (date.month = 0 ∨ 12 < date.month ∨ date.day = 0
      ∨ Civil.daysIn date.month (date.year.natAbs : Nat) < date.day ∨ 23 < sec / 3600
      ∨ 59 < sec / 60 % 60 ∨ 59 < sec % 60 ∨ ([] : Bytes) ≠ []) := by
    rw [hyearAbs]
    simp only [ne_eq, not_true, or_false]
    omega
  have hmk : (⟨((date.year.natAbs : Nat) : Int), date.month, date.day⟩ : Civil.Date) = date := by
    rw [hyearAbs]
  have hclock : sec / 3600 * 3600 + sec / 60 % 60 * 60 + sec % 60 = sec := by omega
  -- the zone text keeps the whole minutes of the offset, as `toMinute` does
  have hinstant : (t.seconds / 86400 * 86400 + (sec : Int) - zoneMinutes t.offset * 60) * 1000000000
      + (t.nanosecond : Int) = t.toMinute.instant := by
    have hns : (t.nanosecond : Int) = t.instant % 1000000000 := by
      rw [Time.nanosecond]
      omega
    rw [hns, hsec', Time.toMinute, Time.seconds]
    simp only
    generalize zoneMinutes t.offset = zone
    omega
  rw [format, ← hdateEq, ← hsec, yearText_eq hlo, parse]
  refine read_step (hyear _) ?_
  refine read_step (skip_self _ _) ?_
  refine read_step (hmonthText _) ?_
  refine read_step (skip_self _ _) ?_
  refine read_step (hdayText _) ?_
  refine read_step (skip_self _ _) ?_
  refine read_step (show shortDigits _ = _ by rw [shortDigits, hhour, Option.some_or]) ?_
  refine read_step (skip_self _ _) ?_
  refine read_step (hminute _) ?_
  refine read_step (skip_self _ _) ?_
  refine read_step (hsecond _) ?_
  simp only [hfraction]
  refine read_step (zone_zoneText hzone) ?_
  simp only [if_neg hrange, hmk, hdays, hclock, hinstant]
  rfl

theorem marshal_eq_some {t : Time} {text : Bytes} (htext : marshal t = some text) :
    text = format t ∧ parse text = some t.toMinute := by
  unfold marshal at htext
  split at htext
  · simp at htext
  · next hrange =>
    rw [Option.some.injEq] at htext
    subst htext
    simp only [not_or, Int.not_lt, Nat.not_le] at hrange
    exact ⟨rfl, parse_format hrange.1 hrange.2.1 hrange.2.2⟩

theorem zoneMinutes_of_dvd {offset : Int} (hdvd : 60 ∣ offset) : zoneMinutes offset * 60 = offset := by
  rw [zoneMinutes, Int.tdiv_mul_cancel hdvd]

theorem toMinute_of_dvd {t : Time} (hdvd : 60 ∣ t.offset) : t.toMinute = t := by
  rw [Time.toMinute, zoneMinutes_of_dvd hdvd, Int.sub_self, Int.zero_mul, Int.add_zero]

/-- The offset that is read is a whole number of minutes. -/
theorem zone_dvd {s rest : Bytes} {offset : Int} (hzone : zone s = some (offset, rest)) :
    60 ∣ offset := by
  unfold zone at hzone
  cases s with
  | nil => simp at hzone
  | cons b s =>
    simp only [Option.bind_eq_bind] at hzone
    split at hzone
    · simp only [Option.some.injEq, Prod.mk.injEq] at hzone
      exact hzone.1 ▸ Int.dvd_zero 60
    · simp only [Option.bind_eq_some_iff] at hzone
      obtain ⟨⟨hours, s₁⟩, _, s₂, _, ⟨minutes, s₃⟩, _, hzone⟩ := hzone
      split_ifs at hzone
      all_goals simp only [Option.some.injEq, Prod.mk.injEq] at hzone
      · exact ⟨_, by rw [← hzone.1, Int.mul_comm]⟩
      · exact ⟨-(hours * 60 + minutes), by rw [← hzone.1]; ring⟩

theorem parse_dvd {s : Bytes} {t : Time} (hparse : parse s = some t) : 60 ∣ t.offset := by
  unfold parse at hparse
  -- the parts before the zone
  obtain ⟨⟨_, _⟩, _, hparse⟩ := Option.bind_eq_some_iff.mp hparse
  obtain ⟨_, _, hparse⟩ := Option.bind_eq_some_iff.mp hparse
  obtain ⟨⟨_, _⟩, _, hparse⟩ := Option.bind_eq_some_iff.mp hparse
  obtain ⟨_, _, hparse⟩ := Option.bind_eq_some_iff.mp hparse
  obtain ⟨⟨_, _⟩, _, hparse⟩ := Option.bind_eq_some_iff.mp hparse
  obtain ⟨_, _, hparse⟩ := Option.bind_eq_some_iff.mp hparse
  obtain ⟨⟨_, _⟩, _, hparse⟩ := Option.bind_eq_some_iff.mp hparse
  obtain ⟨_, _, hparse⟩ := Option.bind_eq_some_iff.mp hparse
  obtain ⟨⟨_, _⟩, _, hparse⟩ := Option.bind_eq_some_iff.mp hparse
  obtain ⟨_, _, hparse⟩ := Option.bind_eq_some_iff.mp hparse
  obtain ⟨⟨_, _⟩, _, hparse⟩ := Option.bind_eq_some_iff.mp hparse
  obtain ⟨⟨offset, rest⟩, hzone, hparse⟩ := Option.bind_eq_some_iff.mp hparse
  simp only at hparse
  split at hparse
  · simp at hparse
  · rw [Option.some.injEq] at hparse
    subst hparse
    exact zone_dvd hzone

/-- The bytes of a time. -/
def isTimeByte (b : UInt8) : Bool :=
  Bytes.isDigit b || b == 0x2d || b == 0x54 || b == 0x3a || b == 0x2e || b == 0x5a || b == 0x2b

theorem isTimeByte_of_mem_pad {width n : Nat} {c : UInt8} (hc : c ∈ pad width n) :
    isTimeByte c = true := by
  simp [isTimeByte, isDigit_of_mem_pad hc]

theorem isTimeByte_of_mem_yearText {year : Int} {c : UInt8} (hc : c ∈ yearText year) :
    isTimeByte c = true := by
  by_cases hneg : year < 0
  · rw [yearText_neg hneg, List.mem_cons] at hc
    rcases hc with rfl | hc
    · decide
    · exact isTimeByte_of_mem_pad hc
  · rw [yearText_eq (by omega)] at hc
    exact isTimeByte_of_mem_pad hc

theorem isTimeByte_of_mem_fractionText {nanos : Nat} {c : UInt8} (hc : c ∈ fractionText nanos) :
    isTimeByte c = true := by
  unfold fractionText at hc
  split at hc
  · simp at hc
  · rw [List.mem_cons] at hc
    rcases hc with rfl | hc
    · decide
    · simp [isTimeByte, Bytes.isDigit_of_mem_trimZeros (fun _ => isDigit_of_mem_pad) hc]

theorem isTimeByte_of_mem_zoneText {offset : Int} {c : UInt8} (hc : c ∈ zoneText offset) :
    isTimeByte c = true := by
  unfold zoneText at hc
  split at hc
  · rw [List.mem_singleton.mp hc]
    decide
  · simp only [List.mem_cons, List.mem_append] at hc
    rcases hc with rfl | hc | rfl | hc
    · split <;> decide
    · exact isTimeByte_of_mem_pad hc
    · decide
    · exact isTimeByte_of_mem_pad hc

theorem isTimeByte_of_mem_format {t : Time} {c : UInt8} (hc : c ∈ format t) : isTimeByte c = true := by
  simp only [format, List.mem_append, List.mem_cons] at hc
  rcases hc with hc | rfl | hc | rfl | hc | rfl | hc | rfl | hc | rfl | hc | hc | hc
  · exact isTimeByte_of_mem_yearText hc
  · decide
  · exact isTimeByte_of_mem_pad hc
  · decide
  · exact isTimeByte_of_mem_pad hc
  · decide
  · exact isTimeByte_of_mem_pad hc
  · decide
  · exact isTimeByte_of_mem_pad hc
  · decide
  · exact isTimeByte_of_mem_pad hc
  · exact isTimeByte_of_mem_fractionText hc
  · exact isTimeByte_of_mem_zoneText hc

/-! ## Section 4: The text determines the time -/

theorem not_mem_pad {width n : Nat} {c : UInt8} (hc : Bytes.isDigit c = false) : c ∉ pad width n := by
  intro hmem
  rw [isDigit_of_mem_pad hmem] at hc
  contradiction

theorem pad_append_inj {width n n' : Nat} {c : UInt8} {r r' : Bytes} (hc : Bytes.isDigit c = false)
    (heq : pad width n ++ c :: r = pad width n' ++ c :: r') : n = n' ∧ r = r' := by
  obtain ⟨htext, hrest⟩ := Bytes.append_cons_inj (not_mem_pad hc) (not_mem_pad hc) heq
  exact ⟨by rw [← ofDecimal_pad width n, htext, ofDecimal_pad], hrest⟩

theorem pad_inj {width n n' : Nat} (heq : pad width n = pad width n') : n = n' := by
  rw [← ofDecimal_pad width n, heq, ofDecimal_pad]

theorem pad_ne_nil (width n : Nat) (hpos : 0 < width) : pad width n ≠ [] := by
  intro hnil
  have hlen := congrArg List.length hnil
  rw [pad, Bytes.ascii, List.length_map, Civil.toList_padded] at hlen
  simp only [List.length_append, List.length_replicate, List.length_nil] at hlen
  omega

/-- A year is determined by its text up to the `-` that follows. -/
theorem yearText_append_inj {y y' : Int} {r r' : Bytes}
    (heq : yearText y ++ 0x2d :: r = yearText y' ++ 0x2d :: r') : y = y' ∧ r = r' := by
  have hmixed : ∀ (n m : Nat) (s s' : Bytes),
      0x2d :: pad 4 n ++ 0x2d :: s ≠ pad 4 m ++ 0x2d :: s' := by
    intro n m s s' heq'
    -- a text of four digits is not empty, and starts with a digit
    cases hm : pad 4 m with
    | nil => exact pad_ne_nil 4 m (by decide) hm
    | cons c cs =>
      have hc : Bytes.isDigit c = true := isDigit_of_mem_pad (hm ▸ List.mem_cons_self)
      rw [hm] at heq'
      simp only [List.cons_append, List.cons.injEq] at heq'
      rw [← heq'.1] at hc
      contradiction
  by_cases hy : y < 0
  · by_cases hy' : y' < 0
    · rw [yearText_neg hy, yearText_neg hy'] at heq
      simp only [List.cons_append, List.cons.injEq, true_and] at heq
      obtain ⟨habs, hrest⟩ := pad_append_inj (by decide) heq
      exact ⟨by omega, hrest⟩
    · rw [yearText_neg hy, yearText_eq (by omega)] at heq
      exact absurd heq (hmixed _ _ _ _)
  · by_cases hy' : y' < 0
    · rw [yearText_neg hy', yearText_eq (by omega)] at heq
      exact absurd heq.symm (hmixed _ _ _ _)
    · rw [yearText_eq (by omega), yearText_eq (by omega)] at heq
      obtain ⟨habs, hrest⟩ := pad_append_inj (by decide) heq
      exact ⟨by omega, hrest⟩

theorem zoneText_inj {offset offset' : Int} (hdvd : 60 ∣ offset) (hdvd' : 60 ∣ offset')
    (heq : zoneText offset = zoneText offset') : offset = offset' := by
  have hz := zoneMinutes_of_dvd hdvd
  have hz' := zoneMinutes_of_dvd hdvd'
  unfold zoneText at heq
  by_cases hzero : offset = 0
  · by_cases hzero' : offset' = 0
    · rw [hzero, hzero']
    · simp only [hzero, hzero', if_true, if_false] at heq
      split at heq <;> simp at heq
  · by_cases hzero' : offset' = 0
    · simp only [hzero, hzero', if_true, if_false] at heq
      split at heq <;> simp at heq
    · simp only [hzero, hzero', if_false, List.cons.injEq] at heq
      obtain ⟨hsign, hrest⟩ := heq
      obtain ⟨hhours, hrest⟩ := pad_append_inj (by decide) hrest
      have hminutes := pad_inj hrest
      have hsame : (zoneMinutes offset < 0) ↔ (zoneMinutes offset' < 0) := by
        by_cases h : zoneMinutes offset < 0 <;> by_cases h' : zoneMinutes offset' < 0
        · simp [h, h']
        · simp [h, h'] at hsign
        · simp [h, h'] at hsign
        · simp [h, h']
      omega

/-- The seconds, the fraction and the zone, up to the end of the text. -/
theorem fraction_zone_inj {nanos nanos' : Nat} {offset offset' : Int} (hn : nanos < 1000000000)
    (hn' : nanos' < 1000000000)
    (heq : fractionText nanos ++ zoneText offset = fractionText nanos' ++ zoneText offset') :
    nanos = nanos' ∧ zoneText offset = zoneText offset' := by
  obtain ⟨b, rest, hhead, hdigit, hdot, hcomma⟩ := zoneText_head offset
  obtain ⟨b', rest', hhead', hdigit', hdot', hcomma'⟩ := zoneText_head offset'
  have hread := fraction_fractionText hn (t := rest) hdigit ⟨hdot, hcomma⟩
  have hread' := fraction_fractionText hn' (t := rest') hdigit' ⟨hdot', hcomma'⟩
  rw [← hhead, heq] at hread
  rw [← hhead', hread, Prod.mk.injEq] at hread'
  exact hread'

/-- The bytes after two digits are no digits. -/
theorem pad_append_inj_of_lt {width n n' : Nat} {r r' : Bytes} (hpos : 0 < width)
    (hn : n < 10 ^ width) (hn' : n' < 10 ^ width) (heq : pad width n ++ r = pad width n' ++ r') :
    n = n' ∧ r = r' := by
  obtain ⟨htext, hrest⟩ := List.append_inj heq (by rw [length_pad hpos hn, length_pad hpos hn'])
  exact ⟨pad_inj htext, hrest⟩

/-- **A text determines its time**, when offsets are whole minutes. -/
theorem format_inj {t t' : Time} (hdvd : 60 ∣ t.offset) (hdvd' : 60 ∣ t'.offset)
    (heq : format t = format t') : t = t' := by
  have hnanos : ∀ t : Time, t.nanosecond < 1000000000
      ∧ (t.nanosecond : Int) = t.instant % 1000000000 := by
    intro t
    rw [Time.nanosecond]
    omega
  have hsec : ∀ t : Time, t.secondOfDay < 86400 ∧ (t.secondOfDay : Int) = t.seconds % 86400 := by
    intro t
    rw [Time.secondOfDay]
    omega
  simp only [format] at heq
  -- the fields have fixed widths, so equal texts agree field by field
  obtain ⟨hyear, heq⟩ := yearText_append_inj heq
  obtain ⟨hmonth, heq⟩ := pad_append_inj (by decide) heq
  obtain ⟨hday, heq⟩ := pad_append_inj (by decide) heq
  obtain ⟨hhour, heq⟩ := pad_append_inj (by decide) heq
  obtain ⟨hminute, heq⟩ := pad_append_inj (by decide) heq
  obtain ⟨hsecond, heq⟩ := pad_append_inj_of_lt (by decide) (by omega) (by omega) heq
  obtain ⟨hns, hzone⟩ := fraction_zone_inj (hnanos t).1 (hnanos t').1 heq
  have hoffset := zoneText_inj hdvd hdvd' hzone
  have hdate : t.date = t'.date := by
    cases hd : t.date
    cases hd' : t'.date
    simp_all
  have hdays : t.seconds / 86400 = t'.seconds / 86400 := by
    rw [← Civil.daysOf_ofDays (t.seconds / 86400), ← Civil.daysOf_ofDays (t'.seconds / 86400)]
    exact congrArg Civil.daysOf hdate
  have hclock : t.secondOfDay = t'.secondOfDay := by
    have hlt := (hsec t).1
    have hlt' := (hsec t').1
    omega
  have hseconds : t.seconds = t'.seconds := by
    have hs := (hsec t).2
    have hs' := (hsec t').2
    rw [hclock] at hs
    omega
  -- the clock was local; with the offsets equal the instants are
  have hinstant : t.instant = t'.instant := by
    have hn := (hnanos t).2
    have hn' := (hnanos t').2
    rw [hns] at hn
    rw [Time.seconds, Time.seconds, hoffset] at hseconds
    omega
  cases t
  cases t'
  simp_all

/-! ## Section 6: Reading and writing again -/

@[simp] theorem zoneMinutes_mul (minutes : Int) : zoneMinutes (minutes * 60) = minutes := by
  rw [zoneMinutes, Int.mul_tdiv_cancel _ (by decide)]

theorem toMinute_seconds (t : Time) : t.toMinute.seconds = t.seconds := by
  simp only [Time.seconds, Time.toMinute]
  omega

theorem toMinute_nanosecond (t : Time) : t.toMinute.nanosecond = t.nanosecond := by
  simp only [Time.nanosecond, Time.toMinute]
  omega

/-- The text of a zone is kept, unless its offset is less than a minute and not 0. -/
theorem zoneText_toMinute (offset : Int) :
    zoneText (zoneMinutes offset * 60) = zoneText offset ↔ (zoneMinutes offset = 0 → offset = 0) := by
  unfold zoneText
  simp only [zoneMinutes_mul]
  by_cases hzero : offset = 0
  · simp [hzero, zoneMinutes]
  · by_cases hminutes : zoneMinutes offset = 0
    · simp [hzero, hminutes]
    · have hne : ¬ zoneMinutes offset * 60 = 0 := by omega
      simp [hzero, hminutes, hne]

/-- **A time has the same text after it was read back**, unless its offset is less
    than a minute and not 0. -/
theorem marshal_toMinute {t : Time} {text : Bytes} (htext : marshal t = some text) :
    marshal t.toMinute = some text ↔ (zoneMinutes t.offset = 0 → t.offset = 0) := by
  have hdate : t.toMinute.date = t.date := by rw [Time.date, toMinute_seconds, Time.date]
  have hclock : t.toMinute.secondOfDay = t.secondOfDay := by
    rw [Time.secondOfDay, toMinute_seconds, Time.secondOfDay]
  have hoffset : t.toMinute.offset = zoneMinutes t.offset * 60 := rfl
  have hformat : format t.toMinute = format t ↔ zoneText (zoneMinutes t.offset * 60) = zoneText t.offset := by
    simp only [format, hdate, hclock, toMinute_nanosecond, hoffset, List.append_cancel_left_eq,
      List.cons.injEq, true_and]
  obtain ⟨rfl, _⟩ := marshal_eq_some htext
  unfold marshal at htext ⊢
  rw [hdate, hoffset, zoneMinutes_mul]
  split at htext
  · simp at htext
  · next hrange => rw [if_neg hrange, Option.some.injEq, hformat, zoneText_toMinute]

end Rfc3339
