import Mathlib.Data.Int.Notation

/-! # Assets (`models/asset.go`)

    A device on the network, as the drift detection and the topology read it. -/

namespace Owasaka.Discovery

/-- `models.Asset`.  Neither of them reads when it was first seen. -/
structure Asset where
  id : String
  ip : String
  mac : String
  hostname : String
  os : String
  ports : List Int
  lastSeen : Int
  deriving DecidableEq

end Owasaka.Discovery
