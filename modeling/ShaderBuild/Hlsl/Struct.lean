import ShaderBuild.Path

/-!
# Reflected structs

What a shader's struct declarations say: the fields with their types and semantics, and the role
that follows from them.
-/

namespace ShaderBuild.Hlsl

/-- The scalar types. -/
inductive Scalar where
  | bool | int | uint | dword | half | float | double
deriving DecidableEq, Repr

namespace Scalar

/-- All scalar types. -/
def all : List Scalar := [.bool, .int, .uint, .dword, .half, .float, .double]

/-- The name of the type in shader source. -/
def keyword : Scalar → String
  | .bool => "bool"
  | .int => "int"
  | .uint => "uint"
  | .dword => "dword"
  | .half => "half"
  | .float => "float"
  | .double => "double"

end Scalar

/-- What a field is made of: a scalar, or any other type by its name. -/
inductive BaseType where
  | scalar (s : Scalar)
  | named (name : String)
deriving DecidableEq, Repr

/-- A number of columns or rows. -/
inductive Extent where
  | one | two | three | four
deriving DecidableEq, Repr

namespace Extent

/-- The number itself. -/
def toNat : Extent → Nat
  | .one => 1
  | .two => 2
  | .three => 3
  | .four => 4

/-- The extent a digit stands for. -/
def ofDigit? : Char → Option Extent
  | '1' => some .one
  | '2' => some .two
  | '3' => some .three
  | '4' => some .four
  | _ => none

/-- The digit of an extent. -/
def digit : Extent → Char
  | .one => '1'
  | .two => '2'
  | .three => '3'
  | .four => '4'

theorem ofDigit?_digit (e : Extent) : ofDigit? e.digit = some e := by cases e <;> rfl

end Extent

/-- The type of a field: a scalar type with a shape, or a named type, which has no shape. -/
structure FieldType where
  base : BaseType
  columns : Extent
  rows : Extent
deriving DecidableEq, Repr

namespace FieldType

/-- The shape that follows the name of a scalar type: nothing, a digit, or two with an `x`. -/
def shape? : List Char → Option (Extent × Extent)
  | [] => some (.one, .one)
  | [c] => (Extent.ofDigit? c).map fun columns => (columns, .one)
  | [c, 'x', r] =>
    (Extent.ofDigit? c).bind fun columns => (Extent.ofDigit? r).map fun rows => (columns, rows)
  | _ => none

/-- Reads a type name as one scalar type with a shape. -/
def ofScalar? (name : List Char) (s : Scalar) : Option FieldType :=
  (s.keyword.toList.isPrefixOf? name).bind shape? |>.map fun (columns, rows) =>
    ⟨.scalar s, columns, rows⟩

/-- Reads a type name: `float3x2` has three columns and two rows, and whatever is no scalar type
with a shape is a named type. -/
def ofName (name : List Char) : FieldType :=
  (Scalar.all.findSome? (ofScalar? name)).getD ⟨.named (String.ofList name), .one, .one⟩

/-- Whether the type is a vector. -/
def isVector (t : FieldType) : Bool := t.columns ≠ .one && t.rows = .one

/-- Whether the type is a matrix. -/
def isMatrix (t : FieldType) : Bool := t.columns ≠ .one && t.rows ≠ .one

end FieldType

/-- How a value is interpolated between vertices. -/
inductive Interpolation where
  | linear | centroid | noInterpolation | noPerspective | sample
deriving DecidableEq, Repr

namespace Interpolation

/-- The modifier in shader source. -/
def keyword : Interpolation → String
  | .linear => "linear"
  | .centroid => "centroid"
  | .noInterpolation => "nointerpolation"
  | .noPerspective => "noperspective"
  | .sample => "sample"

/-- All modifiers. -/
def all : List Interpolation := [.linear, .centroid, .noInterpolation, .noPerspective, .sample]

/-- The modifier a word stands for. -/
def ofKeyword? (word : List Char) : Option Interpolation :=
  all.find? fun i => i.keyword.toList == word

end Interpolation

/-- One field of a struct. -/
structure Field where
  interpolation : Option Interpolation
  type : FieldType
  /-- The bracket groups behind the name, as they are written. -/
  array : String
  name : String
  semantic : Option String
deriving DecidableEq, Repr

/-- What a struct is for. -/
inductive Role where
  | constantBuffer | vertexLayout | vertexOutput
deriving DecidableEq, Repr

/-- The semantic of the position that the rasterizer takes. -/
def positionSemantic : String := "SV_Position"

namespace Field

/-- Whether the field is the position that the rasterizer takes. -/
def isPosition (f : Field) : Bool := f.semantic == some positionSemantic

end Field

/-- The role of a struct: a position makes it an output of the vertex stage, and any other
semantic or an interpolation makes it a vertex layout. -/
def Role.ofFields (fields : List Field) : Role :=
  if fields.any (·.isPosition) then .vertexOutput
  else if fields.any fun f => f.semantic.isSome || f.interpolation.isSome then .vertexLayout
  else .constantBuffer

/-- A struct with the place of its declaration. -/
structure Struct where
  name : String
  fields : List Field
  role : Role
  path : Path
  line : Nat
deriving DecidableEq, Repr

end ShaderBuild.Hlsl
