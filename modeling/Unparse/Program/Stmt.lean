import Unparse.Program.Expr

/-! # Statements -/

namespace Unparse

inductive Stmt (ν κ : Type) where
  | eval (value : Expr ν κ)
  | assign (target value : Expr ν κ)
  /-- A return. It is not explicit where the keyword is left out, as at the end
  of a method without result. -/
  | ret (value : Option (Expr ν κ)) (explicit : Bool)
  | throw (value : Expr ν κ)

/-- Statements that are not written at all. -/
def Stmt.isSilent {ν κ : Type} : Stmt ν κ → Bool
  | ret none false => true
  | _ => false

end Unparse
