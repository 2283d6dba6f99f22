import Unparse.Program.Body

/-! # Declarations

Fields, methods and classes over the classes `κ` nested in them. A class of
depth `n + 1` nests classes of depth `n`, so every property of all classes is
proved by induction on the depth.
-/

namespace Unparse

/-- Modifiers in the order of their usual place in a declaration. -/
inductive Modifier where
  | «public» | «protected» | «private»
  | «abstract» | static | final
  | transient | volatile | synchronized | native | strictfp
deriving DecidableEq, Repr

def Modifier.rank (m : Modifier) : Nat := m.ctorIdx

inductive ClassKind where
  | cls | interface | enum | annotationType
deriving DecidableEq, Repr

inductive AnnotationValue where
  | string (text : String)
  | raw (spelling : String)
deriving DecidableEq, Repr

structure Annotation where
  name : String
  properties : List (String × AnnotationValue)
deriving DecidableEq, Repr

/-- A failure recorded for one class or method before it is printed. -/
structure UnitError where
  location : String
  message : String
deriving DecidableEq, Repr

def UnitError.spell (e : UnitError) : String := e.location ++ ": " ++ e.message

structure FieldDecl (κ : Type) where
  annotations : List Annotation := []
  modifiers : List Modifier := []
  type : String
  name : String
  initializer : Option (Expr VariableId κ) := none
  body : Body κ := {}

structure Parameter where
  variableId : VariableId
  annotations : List Annotation := []
deriving DecidableEq, Repr

/-- A method, or a constructor if it has no return type. -/
structure MethodDecl (κ : Type) where
  annotations : List Annotation := []
  modifiers : List Modifier := []
  generics : List String := []
  returnType : Option String := none
  name : String
  parameters : List Parameter := []
  /-- The last parameter takes any number of arguments. -/
  variadic : Bool := false
  throws : List String := []
  body : Body κ := {}
  localClasses : List κ := []
  error : Option UnitError := none

namespace MethodDecl

variable {κ : Type}

def isConstructor (m : MethodDecl κ) : Bool := m.returnType.isNone

/-- Abstract and native methods are a signature only. -/
def hasCode (m : MethodDecl κ) : Bool :=
  !m.modifiers.any fun | .abstract | .native => true | _ => false

def addParameter (m : MethodDecl κ) (name type : String) (annotations : List Annotation) :
    MethodDecl κ :=
  let (variableId, body) := m.body.addVariable ⟨name, type, .parameter⟩
  { m with body, parameters := m.parameters ++ [{ variableId, annotations }] }

end MethodDecl

/-- A class over the classes nested in it. -/
structure ClassDecl (κ : Type) where
  package : Option String := none
  imports : List String := []
  annotations : List Annotation := []
  modifiers : List Modifier := []
  kind : ClassKind := .cls
  name : String := ""
  generics : List String := []
  superclass : Option String := none
  interfaces : List String := []
  enumConstants : List String := []
  fields : List (FieldDecl κ) := []
  methods : List (MethodDecl κ) := []
  innerClasses : List κ := []
  /-- Classes inside another one have no package or imports of their own. -/
  nested : Bool := false
  error : Option UnitError := none

/-- Classes whose inner, local and anonymous classes nest less than `depth`
deep. -/
def ClassTree : (depth : Nat) → Type
  | 0 => Empty
  | depth + 1 => ClassDecl (ClassTree depth)

def ClassTree.name : {depth : Nat} → ClassTree depth → String
  | _ + 1, c => ClassDecl.name c

end Unparse
