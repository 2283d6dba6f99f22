import Unparse.Target.Lexicon
import Unparse.Target.TypeName

/-! # Declarations of variables

How a variable is written together with its type.
-/

namespace Unparse

inductive BindingSite where
  | firstUse
  | parameter
  | forEach
  | handler
deriving DecidableEq, Repr

namespace Target

def declaration : Target → BindingSite → (name type : String) → String
  | java, _, name, type => type ++ " " ++ name
  | kotlin, .firstUse, name, type => "var " ++ name ++ ": " ++ TypeName.spell type
  | kotlin, .parameter, name, type | kotlin, .handler, name, type =>
    name ++ ": " ++ TypeName.spell type
  | kotlin, .forEach, name, _ => name

/-- A parameter that takes any number of arguments. -/
def variadicParameter : Target → (name type : String) → String
  | java, name, type => (TypeName.element? type).getD type ++ "... " ++ name
  | kotlin, name, type => "vararg " ++ name ++ ": " ++ TypeName.spell (TypeName.element type)

end Target

end Unparse
