import Owasaka.Foundation.Lookup

/-! # Dynamic values by their rendering

    The values of Go's `any`, as far as a type switch over strings and lists and
    the rendering by `fmt.Sprint` tell them apart. -/

inductive AnyValue where
  | str (s : String)
  /-- A `[]string`. -/
  | strs (ss : List String)
  /-- A `[]any`. -/
  | list (vs : List AnyValue)
  /-- Any other value, by its rendering. -/
  | other (text : String)

namespace AnyValue

/-- The rendering of a slice with the given renderings of its elements. -/
def sprintSlice (texts : List String) : String := "[" ++ " ".intercalate texts ++ "]"

mutual

/-- `fmt.Sprint` of one value. -/
def sprint : AnyValue → String
  | .str s => s
  | .strs ss => sprintSlice ss
  | .list vs => sprintSlice (sprintAll vs)
  | .other text => text

def sprintAll : List AnyValue → List String
  | [] => []
  | v :: vs => sprint v :: sprintAll vs

end

end AnyValue

/-- `map[string]any`. -/
abbrev AnyMap : Type := Std.ExtTreeMap String AnyValue
