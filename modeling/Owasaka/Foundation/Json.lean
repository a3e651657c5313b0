import Mathlib.Algebra.Group.Int.Defs
import Mathlib.Data.Rat.Defs
import Std.Data.ExtTreeMap

/-! # Dynamic values, JSON and times

    The values of Go's `any` that JSON can hold, string-keyed maps of them, and
    what a value becomes when it is marshalled and read back: integers come back
    as floating-point numbers.  Times are nanoseconds since the Unix epoch. -/

/-- The zero `time.Time`, January 1 of year 1. -/
def zeroTime : Int := -62135596800 * 10 ^ 9

namespace Json

/-- A dynamic value.  Decoded JSON has no `int`; a `float` is the exact value of
    a finite `float64`. -/
inductive Value where
  | null
  | bool (b : Bool)
  | int (n : Int)
  | float (q : Rat)
  | str (s : String)
  | arr (values : List Value)
  | obj (fields : List (String × Value))

/-- `map[string]any`. -/
abbrev Map : Type := Std.ExtTreeMap String Value

namespace Value

/-- The type assertion `v.(string)`, whose failure gives the zero value. -/
def asString : Option Value → Option String
  | some (.str s) => some s
  | _ => none

/-- The type assertion `v.(bool)`. -/
def asBool : Option Value → Option Bool
  | some (.bool b) => some b
  | _ => none

/-- The type assertion `v.(float64)`. -/
def asFloat : Option Value → Option Rat
  | some (.float q) => some q
  | _ => none

mutual

/-- The value after marshalling and unmarshalling. -/
def viaJson : Value → Value
  | .null => .null
  | .bool b => .bool b
  | .int n => .float n
  | .float q => .float q
  | .str s => .str s
  | .arr values => .arr (viaJsonList values)
  | .obj fields => .obj (viaJsonFields fields)

def viaJsonList : List Value → List Value
  | [] => []
  | v :: vs => viaJson v :: viaJsonList vs

def viaJsonFields : List (String × Value) → List (String × Value)
  | [] => []
  | (k, v) :: fields => (k, viaJson v) :: viaJsonFields fields

end

end Value

/-- The fields of an object as a map: a repeated key keeps its last value. -/
def Map.ofFields (fields : List (String × Value)) : Map :=
  fields.foldl (fun m f => m.insert f.1 f.2) ∅

/-- `json.Unmarshal` of a document into a `map[string]any`: `null` gives the nil
    map, and `none` stands for a text that is no document. -/
def unmarshalMap : Option Value → Option Map
  | some (.obj fields) => some (Map.ofFields fields)
  | some .null => some ∅
  | _ => none

/-- `int(f)` truncates towards zero; out of range it is the least `int64`. -/
def truncate (q : Rat) : Int :=
  let n := q.num.tdiv q.den
  if -2 ^ 63 ≤ n ∧ n < 2 ^ 63 then n else -2 ^ 63

end Json
