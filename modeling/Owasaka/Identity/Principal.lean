import Owasaka.Foundation.AnyValue

/-! # Principals (`identity/principal.go`) -/

namespace Owasaka.Identity

/-- `PrincipalType` is a Go string; these are its constants, and any other text. -/
inductive PrincipalType where
  | human
  | service
  | agent
  | other (text : String)
  deriving DecidableEq

/-- `PrincipalStatus` is a Go string; these are its constants, and any other text. -/
inductive PrincipalStatus where
  | active
  | suspended
  | revoked
  | other (text : String)
  deriving DecidableEq

/-- `identity.Principal`; nil claims are an empty map. -/
structure Principal where
  id : String
  type : PrincipalType
  subject : String
  displayName : String
  status : PrincipalStatus
  roles : List String
  claims : AnyMap

def Principal.isActive (p : Principal) : Bool := p.status = .active

end Owasaka.Identity
