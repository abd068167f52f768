/-!
# KDL documents

The nodes of a KDL document of version 1: each has a name, arguments, properties and children.
-/

namespace ShaderBuild.Kdl

/-- A value as it is written. -/
inductive Literal where
  | string (text : String)
  | boolean (b : Bool)
  | null
  /-- A whole number: its sign and digits without underscores, and its base. -/
  | integer (text : String) (base : Nat)
  /-- A number with a fraction or an exponent. -/
  | decimal
deriving DecidableEq, Repr

/-- A value with its type annotation. -/
structure Value where
  annotation : Option String
  literal : Literal
deriving DecidableEq, Repr

/-- A node of a document. -/
structure Node where
  annotation : Option String
  name : String
  arguments : List Value
  properties : List (String × Value)
  children : List Node

end ShaderBuild.Kdl
