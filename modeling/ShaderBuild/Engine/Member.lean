import ShaderBuild.Hlsl.Struct

/-!
# Engine members

A field of a shader struct becomes a member of an engine struct. Float vectors and the float
matrix of four rows and columns have engine types of their own; every other shape is the plain
type with brackets behind the field's own array brackets.
-/

namespace ShaderBuild.Engine

open Hlsl

/-- The engine's name of a scalar type. -/
def scalarName : Scalar → String
  | .int => "int32"
  | .uint | .dword => "uint32"
  | .half => "int16"
  | .bool => "bool"
  | .float => "float"
  | .double => "double"

/-- The engine's name of what a field is made of. -/
def baseName : BaseType → String
  | .scalar s => scalarName s
  | .named n => n

/-- The type of a member. -/
inductive MemberType where
  /-- One value of a base type. -/
  | base (b : BaseType)
  /-- A float vector. -/
  | vec (n : Extent)
  /-- The float matrix of four rows and columns. -/
  | mat4
deriving DecidableEq, Repr

/-- The spelling of a member's type. -/
def MemberType.name : MemberType → String
  | .base b => baseName b
  | .vec n => "Vec" ++ toString n.toNat
  | .mat4 => "Mat4"

/-- A member of an engine struct. -/
structure Member where
  type : MemberType
  name : String
  /-- The brackets of the field, as they are written. -/
  array : String
  /-- The brackets that stand for the field's shape. -/
  shape : List Extent
deriving DecidableEq, Repr

namespace Member

/-- The member for a field. -/
def ofField (f : Field) : Member :=
  let base := f.type.base
  let isFloat := base == .scalar .float
  let (type, shape) :=
    if f.type.isVector then
      if isFloat then (MemberType.vec f.type.columns, []) else (.base base, [f.type.columns])
    else if f.type.isMatrix then
      if isFloat && f.type.columns == .four && f.type.rows == .four then (.mat4, [])
      else (.base base, [f.type.columns, f.type.rows])
    else (.base base, [])
  { type, name := f.name, array := f.array, shape }

/-- The member as it is declared. -/
def declaration (m : Member) : String :=
  m.type.name ++ " " ++ m.name ++ m.array
    ++ String.join (m.shape.map fun e => "[" ++ toString e.toNat ++ "]") ++ ";"

end Member

/-- A struct with the members of the given one, a member a line. -/
def structDefinition (s : Struct) : String :=
  "struct " ++ s.name ++ "\n\x7b"
    ++ String.join (s.fields.map fun f => "\n\t" ++ (Member.ofField f).declaration)
    ++ "\n\x7d;\n"

end ShaderBuild.Engine
