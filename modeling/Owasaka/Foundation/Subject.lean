import Mathlib.Data.List.Basic

/-! # Message subjects

    Dot-separated subjects and the wildcards of a subscription: `*` stands for
    one token, a final `>` for one or more. -/

namespace Subject

def tokens (subject : String) : List (List Char) := subject.toList.splitOn '.'

/-- Token-wise matching of a subscription's pattern. -/
def tokensMatch : List (List Char) → List (List Char) → Bool
  | [], [] => true
  | [['>']], _ :: _ => true
  | p :: ps, t :: ts => (p = ['*'] || p = t) && tokensMatch ps ts
  | _, _ => false

def isMatch (pattern subject : String) : Bool := tokensMatch (tokens pattern) (tokens subject)

end Subject
