import ShaderBuild.Hlsl.Struct

/-!
# Input elements

A field of a vertex layout is described to the graphics interface by its semantic and its format.
Matrices and the rasterizer's position have no format. Slot, offset and stepping are fixed.
-/

namespace ShaderBuild.Engine

open Hlsl

/-- The kind of numbers that a format's channels hold. -/
def channelType : BaseType → String
  | .scalar .float => "FLOAT"
  | .scalar .int => "SINT"
  | .scalar .uint | .scalar .dword => "UINT"
  | _ => "TYPELESS"

/-- The channels of a format with the given number of them, 32 bits each. -/
def channels (columns : Extent) : String :=
  String.join ((["R", "G", "B", "A"].take columns.toNat).map fun c => c ++ "32")

/-- The format of a field. -/
def format? (f : Field) : Option String :=
  if f.type.isMatrix || f.isPosition then none
  else some ("DXGI_FORMAT_" ++ channels f.type.columns ++ "_" ++ channelType f.type.base)

/-- The initializer that describes a field. -/
def inputElement? (f : Field) : Option String :=
  (format? f).map fun format =>
    "\x7b \"" ++ f.semantic.getD "" ++ "\", 0, " ++ format
      ++ ", 0, D3D12_APPEND_ALIGNED_ELEMENT, D3D12_INPUT_CLASSIFICATION_PER_VERTEX_DATA, 0 \x7d,"

end ShaderBuild.Engine
