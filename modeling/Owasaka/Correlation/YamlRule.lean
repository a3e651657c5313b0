import Mathlib.Data.List.Infix
import Owasaka.Foundation.GoValue
import Owasaka.Foundation.Numeral

/-! # Rules from files (`analytics/correlation/yaml_rule.go`)

    A rule looks at one event: it has an event type and a list of conditions, each on
    one field of the event, which is a field of its own or an entry of its metadata.
    A field that the event does not have is a nil value to the conditions.  They are
    evaluated by way of texts and of floating-point numbers: `equals` and `contains`
    compare what `%v` prints, and `gt` and `lt` what `toFloat` makes of the two sides,
    which is 0 wherever it finds no number of a type that it knows.

    Strings are byte strings.  Reading the rules from their files is left out. -/

namespace Owasaka.Correlation.Yaml

/-! ## Section 1: Rules and events -/

/-- A value of `any`, as a type switch and `%v` tell it.  An `int` has 64 bits. -/
inductive Dynamic where
  | nil
  | str (s : Bytes)
  | int (n : Int64)
  | int64 (n : Int64)
  | float64 (x : ExtFloat binary64)
  | float32 (x : ExtFloat binary32)
  /-- A value of any other type: what `%v` prints, and the number that it is, if it
      is one. -/
  | other (text : Bytes) (number : Option ℚ)

/-- What `%v` prints. -/
def Dynamic.sprint : Dynamic → Bytes
  | .nil => Bytes.ascii "<nil>"
  | .str s => s
  | .int n => JsonText.intText n.toInt
  | .int64 n => JsonText.intText n.toInt
  | .float64 x => x.text
  | .float32 x => x.text
  | .other text _ => text

structure Condition where
  field : Bytes
  operator : Bytes
  value : Bytes

/-- `YAMLRuleSpec`. -/
structure RuleSpec where
  ruleName : Bytes
  description : Bytes
  severity : Bytes
  eventType : Bytes
  logic : Bytes
  conditions : List Condition

/-- `models.NetworkEvent` without its signature.  The metadata are the assignments that
    made the map, of which a later one to the same key replaces an earlier one, and
    `none` for a nil map. -/
structure NetworkEvent where
  id : Bytes
  type : Bytes
  source : Bytes
  destination : Bytes
  metadata : Option (List (Bytes × Dynamic))
  timestamp : Int

def eventAlert : Bytes := Bytes.ascii "THREAT_ALERT"

/-! ## Section 2: Conditions -/

inductive Operator where
  | exists
  | equals
  | contains
  | gt
  | lt
  deriving DecidableEq

/-- The cases of the switch. -/
def Operator.ofText (s : Bytes) : Option Operator :=
  if s = Bytes.ascii "exists" then some .exists
  else if s = Bytes.ascii "equals" then some .equals
  else if s = Bytes.ascii "contains" then some .contains
  else if s = Bytes.ascii "gt" then some .gt
  else if s = Bytes.ascii "lt" then some .lt
  else none

def resolveField (field : Bytes) (e : NetworkEvent) : Dynamic :=
  if field = Bytes.ascii "source" then .str e.source
  else if field = Bytes.ascii "destination" then .str e.destination
  else if field = Bytes.ascii "type" then .str e.type
  else match e.metadata with
    | some entries => (entries.reverse.lookup field).getD .nil
    | none => .nil

/-- `toFloat`: numbers of a type that is not listed are 0, as is what is no number. -/
def toFloat : Dynamic → ExtFloat binary64
  | .float64 x => x
  | .float32 x => x.convert
  | .int n => .ofInt n.toInt
  | .int64 n => .ofInt n.toInt
  | .str s => Numeral.parseFloat binary64 s
  | .nil => .ofInt 0
  | .other _ _ => .ofInt 0

/-- `strings.Contains`. -/
def containsText (s value : Bytes) : Bool := decide (value <:+: s)

def evalCondition (c : Condition) (e : NetworkEvent) : Bool :=
  let raw := resolveField c.field e
  match Operator.ofText c.operator with
  | some .exists => match raw with
    | .nil => false
    | _ => true
  | some .equals => raw.sprint = c.value
  | some .contains => match raw with
    | .str s => containsText s c.value
    | _ => containsText raw.sprint c.value
  | some .gt => (toFloat (.str c.value)).less (toFloat raw)
  | some .lt => (toFloat raw).less (toFloat (.str c.value))
  | none => false

/-! ## Section 3: `Evaluate` -/

/-- The loop of `Evaluate`: the number of conditions that have matched. -/
def countMatches (useOr : Bool) (e : NetworkEvent) : Nat → List Condition → Nat
  | matched, [] => matched
  | matched, c :: conditions =>
    if evalCondition c e then
      -- `break`: one match is enough
      if useOr then matched + 1 else countMatches useOr e (matched + 1) conditions
    else countMatches useOr e matched conditions

def useOr (spec : RuleSpec) : Bool := Hex.equalFold spec.logic (Bytes.ascii "or")

def fires (spec : RuleSpec) (e : NetworkEvent) : Bool :=
  let matched := countMatches (useOr spec) e 0 spec.conditions
  if useOr spec then 0 < matched else matched = spec.conditions.length

/-- The alert, with the ID and the time that are made for it. -/
def alert (spec : RuleSpec) (e : NetworkEvent) (newID : Bytes) (now : Int) : NetworkEvent where
  id := newID
  type := eventAlert
  source := Bytes.ascii "CorrelationEngine"
  destination := e.source
  metadata := some [(Bytes.ascii "rule", .str spec.ruleName),
    (Bytes.ascii "description", .str spec.description),
    (Bytes.ascii "severity", .str (if spec.severity = [] then Bytes.ascii "MEDIUM" else spec.severity)),
    (Bytes.ascii "trigger_id", .str e.id)]
  timestamp := now

def evaluate (spec : RuleSpec) (newID : Bytes) (now : Int) (e : NetworkEvent) : Option NetworkEvent :=
  if spec.eventType ≠ [] ∧ e.type ≠ spec.eventType then none
  else if spec.conditions.length = 0 then none
  else if fires spec e then some (alert spec e newID now)
  else none

end Owasaka.Correlation.Yaml
