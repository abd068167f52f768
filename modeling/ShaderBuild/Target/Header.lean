import ShaderBuild.Engine.InputElement
import ShaderBuild.Engine.Member
import ShaderBuild.FileTree.Walk
import ShaderBuild.Settings
import ShaderBuild.Target.Region

/-!
# Generated headers

Three headers are generated. The shader header includes every compiled output and registers the
byte array in it; the constant buffer header defines an engine struct for every constant buffer;
the vertex layout header defines one for every vertex layout and describes its fields as input
elements.

Main definitions: `arrayName?`, `shaderRegions`, `constantBuffers`, `vertexLayouts`, `generate`.
-/

namespace ShaderBuild.Target

open Text Hlsl Engine

/-! ## Compiled outputs -/

/-- The text in front of the last `[]` in the first line of a text. -/
def beforeBrackets? : List Char → Option (List Char)
  | [] => none
  | c :: s =>
    if c = '\n' then none
    else match beforeBrackets? s with
      | some t => some (c :: t)
      | none => if c = '[' ∧ s.head? = some ']' then some [] else none

/-- What follows the type of a byte array. -/
def afterByteType (s : List Char) : Option (List Char) :=
  ((afterWord "unsigned".toList s).bind fun r => afterWord "char".toList (trimLeft r)).or
    (afterWord "BYTE".toList s)

/-- The name of the byte array whose declaration starts at the front of a text, its prefix `g_`
left out. -/
def arrayAt? (s : List Char) : Option (List Char) := do
  let s ← afterWord "const".toList s
  let s ← afterByteType (trimLeft s)
  let s ← afterWord "g_".toList (trimLeft s)
  beforeBrackets? s

/-- The name of the byte array in a compiled output. -/
def arrayName? (text : List Char) : Option (List Char) :=
  (search arrayAt? text).map fun (_, name) => trim name

/-- The include line of a compiled output. -/
def includeLine (s : Settings) (name : String) : String :=
  "\t#include \"" ++ s.includePrefix ++ name ++ "\"\n"

/-- The line that registers a byte array. -/
def registration (array : List Char) : String :=
  "\tINIT_SHADER_BYTECODE(" ++ String.ofList array ++ ");\n"

/-- The include line and the registration of each of the given outputs, in order. -/
def outputLines (s : Settings) : List String → Action (List (String × String))
  | [] => return []
  | name :: names => do
    let p := s.generatedFolder.child name
    let text ← Action.look p (·.readText p)
    match arrayName? text with
    | none => throw (.missingByteArray p)
    | some array =>
      let more ← outputLines s names
      return (includeLine s name, registration array) :: more

/-- The regions of the shader header, from the files in the generated folder that have the
extension of generated ones. -/
def shaderRegions (s : Settings) : Action (List Region) := do
  match (← Action.tree).filesIn s.generatedFolder with
  | .error fault => throw (.listing s.generatedFolder fault)
  | .ok names =>
    let lines ← outputLines s
      (names.filter fun n => s.generatedExtension.toList.isSuffixOf n.toList)
    return [
      ⟨"Include", String.join (lines.map (·.1))⟩,
      ⟨"ShaderByteCode", String.join (lines.map (·.2))⟩]

/-! ## Structs -/

/-- Blocks with a blank line between neighbours; the text ends in exactly one line feed. -/
def joinBlocks (blocks : List String) : String :=
  String.ofList (trimRight (String.join (blocks.map (· ++ "\n"))).toList) ++ "\n"

/-- The structs with a role, in order. -/
def withRole (role : Role) (ss : List Struct) : List Struct := ss.filter (·.role = role)

/-- The region of the constant buffer header. -/
def constantBuffers (ss : List Struct) : Region :=
  ⟨"ConstantBuffer", joinBlocks ((withRole .constantBuffer ss).map structDefinition)⟩

/-- The descriptions of the fields of a vertex layout. A field without a format is left out. -/
def inputLayout (s : Struct) : String :=
  "static D3D12_INPUT_ELEMENT_DESC " ++ s.name ++ "[] =\n\x7b\n"
    ++ String.join ((s.fields.filterMap inputElement?).map fun e => "\t" ++ e ++ "\n")
    ++ "\x7d;\n"

/-- The warnings about the fields of a vertex layout that are left out. -/
def inputWarnings (s : Struct) : List Notice :=
  (s.fields.filter fun f => (inputElement? f).isNone).map fun f =>
    .noInputFormat f.name s.name s.path s.line

/-- The regions of the vertex layout header. -/
def vertexLayouts (ss : List Struct) : List Region :=
  let layouts := withRole .vertexLayout ss
  [⟨"VertexFormat", joinBlocks (layouts.map structDefinition)⟩,
    ⟨"VertexInputLayout", joinBlocks (layouts.map inputLayout)⟩]

/-! ## All headers -/

/-- Replaces the regions of headers one after the other, and counts the ones that were
written. -/
def replaceAll : List (Path × List Region) → Action Nat
  | [] => return 0
  | (p, regions) :: rest => do
    let written ← replace p regions
    let more ← replaceAll rest
    return (if written then 1 else 0) + more

/-- Generates the three headers, and counts the ones that were written. -/
def generate (s : Settings) (ss : List Struct) : Action Nat := do
  let shader ← shaderRegions s
  ((withRole .vertexLayout ss).flatMap inputWarnings).forM Action.tell
  replaceAll [
    (s.shaderHeader, shader),
    (s.constantBufferHeader, [constantBuffers ss]),
    (s.vertexLayoutHeader, vertexLayouts ss)]

end ShaderBuild.Target
