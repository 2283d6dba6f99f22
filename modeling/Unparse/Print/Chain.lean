import Unparse.Print.Error
import Unparse.Program.Body

/-! # Chains

Constructions are linked in the order of a list. What is displaced on the way
is reported, and the first one is the head of the chain.
-/

namespace Unparse

structure Chain (κ : Type) where
  head : Option ConstructionId
  events : List Event
  body : Body κ

/-- Link constructions in the given order and report each of them whose earlier
successor was displaced. -/
def Body.linkAll {κ : Type} (b : Body κ) (ids : List ConstructionId) : Chain κ :=
  let (displaced, body) := Body.chain ids b
  { head := ids.head?, events := displaced.map .relinked, body }

end Unparse
