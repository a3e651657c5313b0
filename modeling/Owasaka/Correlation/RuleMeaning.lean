import Owasaka.Correlation.YamlRule

/-! # What rules from files mean

    A rule says of an event whether it is to be alerted on: when all of its
    conditions hold, or one of them, where a condition on a field that the event does
    not have never holds, and two sides of a comparison are compared as the numbers
    that they are, if they both are numbers.

    `Evaluate` does not compare numbers but what it takes the sides for.  A side that
    is no number, or a number of a type that `toFloat` does not list, is taken for 0,
    the name of an infinity for that infinity, and a number for the nearest `float64`.
    So some conditions are met that do not hold, and some hold that are not met.

    The main result: which rules raise an alert on which events all the same if and
    only if they should. -/

namespace Owasaka.Correlation.Yaml

/-! ## Section 1: The meaning -/

/-- The number that a value is, exactly. -/
def Dynamic.number : Dynamic → Option ℚ
  | .nil => none
  | .str s => (Numeral.literal s).map fun l => signed l.1 l.2
  | .int n => some n.toInt
  | .int64 n => some n.toInt
  | .float64 x => x.number
  | .float32 x => x.number
  | .other _ number => number

/-- Both are numbers, and the first is less. -/
def Below (v w : Dynamic) : Prop := ∃ a b, v.number = some a ∧ w.number = some b ∧ a < b

/-- The event has the field, and the operator says so. -/
def Holds (c : Condition) (e : NetworkEvent) : Prop :=
  let raw := resolveField c.field e
  raw ≠ .nil ∧ match Operator.ofText c.operator with
    | some .exists => True
    | some .equals => raw.sprint = c.value
    | some .contains => c.value <:+: raw.sprint
    | some .gt => Below (.str c.value) raw
    | some .lt => Below raw (.str c.value)
    | none => False

def TypeMatches (spec : RuleSpec) (e : NetworkEvent) : Prop :=
  spec.eventType = [] ∨ e.type = spec.eventType

/-- The events that a rule is to alert on. -/
def ShouldFire (spec : RuleSpec) (e : NetworkEvent) : Prop :=
  TypeMatches spec e ∧ spec.conditions ≠ []
    ∧ if useOr spec then ∃ c ∈ spec.conditions, Holds c e else ∀ c ∈ spec.conditions, Holds c e

/-! ## Section 2: Where conditions go wrong -/

/-- The number of a value whose type is listed. -/
def Dynamic.listed : Dynamic → Option ℚ
  | .other _ _ => none
  | v => v.number

/-- The infinity or the NaN that a value is. -/
def Dynamic.special : Dynamic → Option (ExtFloat binary64)
  | .str s => Numeral.special binary64 s
  | .float64 (.inf neg) => some (.inf neg)
  | .float64 .nan => some .nan
  | .float32 (.inf neg) => some (.inf neg)
  | .float32 .nan => some .nan
  | _ => none

/-- What a side of a comparison is taken for. -/
def Dynamic.takenFor (v : Dynamic) : ExtFloat binary64 :=
  match v.listed with
  | some q => .nearest binary64 q
  | none => v.special.getD (.nearest binary64 0)

/-- The comparison comes out true, for a side that is no listed number. -/
def Misread (v w : Dynamic) : Prop :=
  (v.listed = none ∨ w.listed = none) ∧ v.takenFor.less w.takenFor = true ∧ ¬ Below v w

/-- The comparison comes out false: two numbers that are rounded alike, or one of a
    type that is not listed. -/
def Overlooked (v w : Dynamic) : Prop := Below v w ∧ v.takenFor.less w.takenFor = false

/-- The condition is met without holding. -/
def Spurious (c : Condition) (e : NetworkEvent) : Prop :=
  let raw := resolveField c.field e
  match Operator.ofText c.operator with
  | some .exists => False
  -- the text of a field that is absent
  | some .equals => raw = .nil ∧ c.value = Bytes.ascii "<nil>"
  | some .contains => raw = .nil ∧ c.value <:+: Bytes.ascii "<nil>"
  | some .gt => Misread (.str c.value) raw
  | some .lt => Misread raw (.str c.value)
  | none => False

/-- The condition holds without being met. -/
def Missed (c : Condition) (e : NetworkEvent) : Prop :=
  let raw := resolveField c.field e
  match Operator.ofText c.operator with
  | some .gt => Overlooked (.str c.value) raw
  | some .lt => Overlooked raw (.str c.value)
  | _ => False

def Met (c : Condition) (e : NetworkEvent) : Prop := Spurious c e ∨ (Holds c e ∧ ¬ Missed c e)

/-- What goes wrong with the conditions makes no difference to the rule: it is of
    another type, or another condition decides. -/
def Reliable (spec : RuleSpec) (e : NetworkEvent) : Prop :=
  TypeMatches spec e →
    if useOr spec then
      ((∃ c ∈ spec.conditions, Spurious c e) → ∃ c ∈ spec.conditions, Holds c e)
        ∧ ((∃ c ∈ spec.conditions, Missed c e) → ∃ c ∈ spec.conditions, Met c e)
    else
      ((∃ c ∈ spec.conditions, Spurious c e) → ∃ c ∈ spec.conditions, ¬ Met c e)
        ∧ ((∃ c ∈ spec.conditions, Missed c e) → ∃ c ∈ spec.conditions, ¬ Holds c e)

/-! ## Section 3: Comparisons -/

theorem emin_le_emax : binary64.emin ≤ binary64.emax := by decide

theorem ofInt_alike (n : Int) : ExtFloat.Alike (.ofInt n) (.nearest binary64 n) := by
  have hneg : decide ((n : ℚ) < 0) = decide (n < 0) := by
    rw [decide_eq_decide]
    exact_mod_cast Iff.rfl
  have habs : ((n.natAbs : Nat) : ℚ) = |(n : ℚ)| := by
    rw [Nat.cast_natAbs, Int.cast_abs]
  left
  unfold ExtFloat.ofInt ExtFloat.nearest
  rw [hneg, ← habs]

theorem takenFor_listed {v : Dynamic} {q : ℚ} (hv : v.listed = some q) :
    v.takenFor = .nearest binary64 q := by
  unfold Dynamic.takenFor
  rw [hv]

theorem takenFor_unlisted {v : Dynamic} (hv : v.listed = none) :
    v.takenFor = v.special.getD (.nearest binary64 0) := by
  unfold Dynamic.takenFor
  rw [hv]

theorem parseFloat_alike (s : Bytes) :
    ExtFloat.Alike (Numeral.parseFloat binary64 s) (Dynamic.str s).takenFor := by
  have hlisted : (Dynamic.str s).listed = (Numeral.literal s).map fun l => signed l.1 l.2 := rfl
  cases hspecial : Numeral.special binary64 s with
  | some x =>
    rw [Numeral.literal_of_special hspecial] at hlisted
    rw [Numeral.parseFloat_special hspecial, takenFor_unlisted hlisted]
    show ExtFloat.Alike x ((Numeral.special binary64 s).getD _)
    rw [hspecial]
    exact .inl rfl
  | none =>
    cases hliteral : Numeral.literal s with
    | some l =>
      rw [hliteral] at hlisted
      rw [Numeral.parseFloat_literal hspecial hliteral, takenFor_listed hlisted]
      exact ExtFloat.alike_nearest emin_le_emax l.1 (Numeral.literal_nonneg hliteral)
    | none =>
      rw [hliteral] at hlisted
      rw [Numeral.parseFloat_error hspecial hliteral, takenFor_unlisted hlisted]
      show ExtFloat.Alike _ ((Numeral.special binary64 s).getD _)
      rw [hspecial]
      exact ofInt_alike 0

theorem toFloat_alike (v : Dynamic) : ExtFloat.Alike (toFloat v) v.takenFor := by
  cases v with
  | nil => exact ofInt_alike 0
  | int n => exact ofInt_alike n.toInt
  | int64 n => exact ofInt_alike n.toInt
  | other text number => exact ofInt_alike 0
  | float64 x =>
    cases x with
    | finite x =>
      show ExtFloat.Alike (.finite x) (.nearest binary64 x.value)
      rw [ExtFloat.finite_eq_ofSigned]
      exact ExtFloat.alike_nearest emin_le_emax x.neg x.zero_le_abs
    | inf neg => exact .inl rfl
    | nan => exact .inl rfl
  | float32 x =>
    cases x with
    | finite x => exact ExtFloat.alike_nearest emin_le_emax x.neg x.zero_le_abs
    | inf neg => exact .inl rfl
    | nan => exact .inl rfl
  | str s => exact parseFloat_alike s

theorem less_toFloat (v w : Dynamic) :
    (toFloat v).less (toFloat w) = v.takenFor.less w.takenFor :=
  ExtFloat.less_congr (toFloat_alike v) (toFloat_alike w)

theorem number_of_listed {v : Dynamic} {q : ℚ} (hv : v.listed = some q) : v.number = some q := by
  cases v with
  | other text number => simp [Dynamic.listed] at hv
  | nil => exact hv
  | int n => exact hv
  | int64 n => exact hv
  | float64 x => exact hv
  | float32 x => exact hv
  | str s => exact hv

/-- Two numbers of listed types are not compared wrongly, only too coarsely. -/
theorem below_of_less {v w : Dynamic} {a b : ℚ} (hv : v.listed = some a) (hw : w.listed = some b)
    (hless : v.takenFor.less w.takenFor = true) : Below v w := by
  rw [takenFor_listed hv, takenFor_listed hw] at hless
  exact ⟨a, b, number_of_listed hv, number_of_listed hw, ExtFloat.lt_of_nearest emin_le_emax hless⟩

/-- Two such numbers are overlooked only when they are rounded alike. -/
theorem Overlooked.alike {v w : Dynamic} {a b : ℚ} (hover : Overlooked v w) (hv : v.listed = some a)
    (hw : w.listed = some b) :
    v.takenFor.less w.takenFor = false ∧ w.takenFor.less v.takenFor = false := by
  obtain ⟨⟨a', b', ha, hb, hlt⟩, hfalse⟩ := hover
  refine ⟨hfalse, ?_⟩
  rw [number_of_listed hv] at ha
  rw [number_of_listed hw] at hb
  cases ha
  cases hb
  rw [takenFor_listed hv, takenFor_listed hw]
  by_contra hless
  have hgt : b < a := ExtFloat.lt_of_nearest emin_le_emax (by simpa using hless)
  exact absurd hgt (not_lt.mpr hlt.le)

/-- **What a comparison comes out as.** -/
theorem less_iff (v w : Dynamic) : (toFloat v).less (toFloat w) = true
    ↔ Misread v w ∨ (Below v w ∧ ¬ Overlooked v w) := by
  rw [less_toFloat]
  constructor
  · intro hless
    by_cases hbelow : Below v w
    · refine .inr ⟨hbelow, ?_⟩
      rintro ⟨_, hfalse⟩
      rw [hless] at hfalse
      contradiction
    · refine .inl ⟨?_, hless, hbelow⟩
      by_contra hlisted
      rw [not_or] at hlisted
      obtain ⟨a, ha⟩ := Option.ne_none_iff_exists'.mp hlisted.1
      obtain ⟨b, hb⟩ := Option.ne_none_iff_exists'.mp hlisted.2
      exact hbelow (below_of_less ha hb hless)
  · rintro (⟨_, hless, _⟩ | ⟨hbelow, hnot⟩)
    · exact hless
    · by_contra hless
      exact hnot ⟨hbelow, by simpa using hless⟩

/-! ## Section 4: Conditions -/

theorem ne_nil_of_below {v w : Dynamic} (hbelow : Below v w) : v ≠ .nil ∧ w ≠ .nil := by
  obtain ⟨a, b, ha, hb, _⟩ := hbelow
  constructor
  · rintro rfl
    simp [Dynamic.number] at ha
  · rintro rfl
    simp [Dynamic.number] at hb

/-- A spurious condition does not hold. -/
theorem Spurious.not_holds {c : Condition} {e : NetworkEvent} (hspurious : Spurious c e) :
    ¬ Holds c e := by
  rintro ⟨hpresent, hop⟩
  unfold Spurious at hspurious
  cases hcase : Operator.ofText c.operator with
  | none =>
    rw [hcase] at hspurious
    exact hspurious
  | some op =>
    rw [hcase] at hspurious hop
    cases op with
    | «exists» => exact hspurious
    | equals => exact hpresent hspurious.1
    | contains => exact hpresent hspurious.1
    | gt => exact hspurious.2.2 hop
    | lt => exact hspurious.2.2 hop

theorem Missed.holds {c : Condition} {e : NetworkEvent} (hmissed : Missed c e) : Holds c e := by
  unfold Missed at hmissed
  unfold Holds
  cases hcase : Operator.ofText c.operator with
  | none =>
    rw [hcase] at hmissed
    exact absurd hmissed id
  | some op =>
    rw [hcase] at hmissed
    cases op with
    | gt => exact ⟨(ne_nil_of_below hmissed.1).2, hmissed.1⟩
    | lt => exact ⟨(ne_nil_of_below hmissed.1).1, hmissed.1⟩
    | «exists» => exact absurd hmissed id
    | equals => exact absurd hmissed id
    | contains => exact absurd hmissed id

/-- What a text operator says of an absent field, it says of the text `<nil>`. -/
theorem text_iff {P : Bytes → Prop} (raw : Dynamic) :
    P raw.sprint ↔ (raw = .nil ∧ P (Bytes.ascii "<nil>")) ∨ (raw ≠ .nil ∧ P raw.sprint) := by
  cases raw <;> simp [Dynamic.sprint]

theorem comparison_iff (v w : Dynamic) (raw : Dynamic) (hraw : raw = v ∨ raw = w) :
    (toFloat v).less (toFloat w) = true
      ↔ Misread v w ∨ ((raw ≠ .nil ∧ Below v w) ∧ ¬ Overlooked v w) := by
  rw [less_iff]
  have hpresent : Below v w → raw ≠ .nil := by
    intro hbelow
    rcases hraw with rfl | rfl
    · exact (ne_nil_of_below hbelow).1
    · exact (ne_nil_of_below hbelow).2
  tauto

/-- **Which conditions are met.** -/
theorem evalCondition_iff (c : Condition) (e : NetworkEvent) :
    evalCondition c e = true ↔ Met c e := by
  unfold evalCondition Met Spurious Holds Missed
  simp only
  generalize resolveField c.field e = raw
  cases Operator.ofText c.operator with
  | none => simp
  | some op =>
    cases op with
    | «exists» => cases raw <;> simp
    | equals =>
      have htext := text_iff (P := fun text => text = c.value) raw
      simp only [decide_eq_true_eq, not_false_eq_true, and_true, eq_comm (b := Bytes.ascii "<nil>")]
      exact htext
    | contains =>
      simp only [not_false_eq_true, and_true]
      have htext := text_iff (P := fun text => c.value <:+: text)
      cases raw with
      | str s => exact decide_eq_true_iff.trans (htext (.str s))
      | _ => exact decide_eq_true_iff.trans (htext _)
    | gt => exact comparison_iff (.str c.value) raw raw (.inr rfl)
    | lt => exact comparison_iff raw (.str c.value) raw (.inl rfl)

/-! ## Section 5: Rules -/

/-- What the loop has counted, when it stops at the first match. -/
theorem countMatches_or (e : NetworkEvent) (matched : Nat) (conditions : List Condition) :
    countMatches true e matched conditions
      = if conditions.any fun c => evalCondition c e then matched + 1 else matched := by
  induction conditions with
  | nil => rfl
  | cons c conditions ih =>
    unfold countMatches
    rw [List.any_cons, ih]
    cases evalCondition c e <;> simp

theorem countMatches_and (e : NetworkEvent) (matched : Nat) (conditions : List Condition) :
    countMatches false e matched conditions
      = matched + conditions.countP fun c => evalCondition c e := by
  induction conditions generalizing matched with
  | nil => rfl
  | cons c conditions ih =>
    unfold countMatches
    rw [List.countP_cons]
    cases evalCondition c e with
    | true =>
      simp only [if_true, Bool.false_eq_true, if_false]
      rw [ih]
      omega
    | false =>
      simp only [Bool.false_eq_true, if_false]
      rw [ih]
      rfl

/-- **Which rules fire.** -/
theorem fires_iff (spec : RuleSpec) (e : NetworkEvent) : fires spec e = true
    ↔ if useOr spec then ∃ c ∈ spec.conditions, Met c e else ∀ c ∈ spec.conditions, Met c e := by
  unfold fires
  cases useOr spec with
  | true =>
    have hany : (spec.conditions.any fun c => evalCondition c e) = true
        ↔ ∃ c ∈ spec.conditions, Met c e := by
      simp only [List.any_eq_true, evalCondition_iff]
    simp only [if_true, decide_eq_true_eq]
    rw [countMatches_or, ← hany]
    split
    · next hmet => simp [hmet]
    · next hmet => simp [hmet]
  | false =>
    simp only [Bool.false_eq_true, if_false, decide_eq_true_eq]
    rw [countMatches_and, Nat.zero_add, List.countP_eq_length]
    simp only [evalCondition_iff]

theorem evaluate_isSome (spec : RuleSpec) (newID : Bytes) (now : Int) (e : NetworkEvent) :
    (evaluate spec newID now e).isSome = true
      ↔ TypeMatches spec e ∧ spec.conditions ≠ [] ∧ fires spec e = true := by
  unfold evaluate TypeMatches
  by_cases htype : spec.eventType = [] ∨ e.type = spec.eventType
  · have hpasses : ¬ (spec.eventType ≠ [] ∧ e.type ≠ spec.eventType) := by tauto
    rw [if_neg hpasses]
    by_cases hempty : spec.conditions = []
    · simp [hempty]
    · rw [if_neg (by simpa using hempty)]
      cases fires spec e <;> simp [htype, hempty]
  · rw [if_pos (by tauto)]
    simp [htype]

/-- One condition is enough. -/
theorem or_exact_iff (conditions : List Condition) (e : NetworkEvent) :
    ((∃ c ∈ conditions, Met c e) ↔ ∃ c ∈ conditions, Holds c e)
      ↔ ((∃ c ∈ conditions, Spurious c e) → ∃ c ∈ conditions, Holds c e)
        ∧ ((∃ c ∈ conditions, Missed c e) → ∃ c ∈ conditions, Met c e) := by
  constructor
  · intro hiff
    constructor
    · rintro ⟨c, hc, hspurious⟩
      exact hiff.mp ⟨c, hc, .inl hspurious⟩
    · rintro ⟨c, hc, hmissed⟩
      exact hiff.mpr ⟨c, hc, hmissed.holds⟩
  · rintro ⟨hspurious, hmissed⟩
    constructor
    · rintro ⟨c, hc, hmet⟩
      rcases hmet with hs | ⟨hholds, _⟩
      · exact hspurious ⟨c, hc, hs⟩
      · exact ⟨c, hc, hholds⟩
    · rintro ⟨c, hc, hholds⟩
      by_cases hm : Missed c e
      · exact hmissed ⟨c, hc, hm⟩
      · exact ⟨c, hc, .inr ⟨hholds, hm⟩⟩

/-- All conditions are needed. -/
theorem and_exact_iff (conditions : List Condition) (e : NetworkEvent) :
    ((∀ c ∈ conditions, Met c e) ↔ ∀ c ∈ conditions, Holds c e)
      ↔ ((∃ c ∈ conditions, Spurious c e) → ∃ c ∈ conditions, ¬ Met c e)
        ∧ ((∃ c ∈ conditions, Missed c e) → ∃ c ∈ conditions, ¬ Holds c e) := by
  constructor
  · intro hiff
    constructor
    · rintro ⟨c, hc, hspurious⟩
      by_contra hall
      push Not at hall
      exact hspurious.not_holds (hiff.mp hall c hc)
    · rintro ⟨c, hc, hmissed⟩
      by_contra hall
      push Not at hall
      rcases hiff.mpr hall c hc with hspurious | ⟨_, hnot⟩
      · exact hspurious.not_holds hmissed.holds
      · exact hnot hmissed
  · rintro ⟨hspurious, hmissed⟩
    constructor
    · intro hall c hc
      rcases hall c hc with hs | ⟨hholds, _⟩
      · obtain ⟨c', hc', hnot⟩ := hspurious ⟨c, hc, hs⟩
        exact absurd (hall c' hc') hnot
      · exact hholds
    · intro hall c hc
      refine .inr ⟨hall c hc, ?_⟩
      intro hm
      obtain ⟨c', hc', hnot⟩ := hmissed ⟨c, hc, hm⟩
      exact hnot (hall c' hc')

/-- **A rule raises an alert on an event exactly when it should**, if and only if
    nothing that goes wrong with its conditions decides. -/
theorem evaluate_exact_iff (spec : RuleSpec) (newID : Bytes) (now : Int) (e : NetworkEvent) :
    ((evaluate spec newID now e).isSome = true ↔ ShouldFire spec e) ↔ Reliable spec e := by
  rw [evaluate_isSome, fires_iff]
  unfold ShouldFire Reliable
  by_cases htype : TypeMatches spec e
  · by_cases hempty : spec.conditions = []
    · simp [hempty]
    · simp only [htype, hempty, ne_eq, not_false_eq_true, true_and, forall_const]
      cases useOr spec with
      | true =>
        simp only [if_true]
        exact or_exact_iff spec.conditions e
      | false =>
        simp only [Bool.false_eq_true, if_false]
        exact and_exact_iff spec.conditions e
  · simp [htype]

/-! ## Section 6: A threshold for a field that is absent -/

/-- Few packets. -/
def quietRule : RuleSpec where
  ruleName := Bytes.ascii "QUIET"
  description := []
  severity := Bytes.ascii "LOW"
  eventType := []
  logic := Bytes.ascii "and"
  conditions := [⟨Bytes.ascii "packets", Bytes.ascii "lt", Bytes.ascii "5"⟩]

/-- An event that does not say how many. -/
def bareEvent : NetworkEvent :=
  ⟨Bytes.ascii "1", Bytes.ascii "ARP", [], [], some [(Bytes.ascii "mac", .str (Bytes.ascii "00:00"))], 0⟩

/-- The absent number is taken for 0, and the rule raises an alert. -/
theorem absent_field_alerted : (evaluate quietRule [] 0 bareEvent).isSome = true
    ∧ ¬ ShouldFire quietRule bareEvent := by
  constructor
  · decide +kernel
  · rintro ⟨_, _, hall⟩
    have hlogic : useOr quietRule = false := by decide
    rw [hlogic] at hall
    have hholds := hall ⟨Bytes.ascii "packets", Bytes.ascii "lt", Bytes.ascii "5"⟩ List.mem_cons_self
    have habsent : resolveField (Bytes.ascii "packets") bareEvent = .nil := by rfl
    exact hholds.1 habsent

end Owasaka.Correlation.Yaml
