import ShaderBuild.Kdl.Reader
import ShaderBuild.Settings

/-!
# Configuration files

A configuration file is a KDL document of nodes without properties and children, each name at
most once. An entry of one value has exactly one argument, a list has any number of them, and the
flag has nothing but its name.
-/

namespace ShaderBuild.Kdl

/-- The text of an argument that is a plain string. -/
def Value.text? : Value → Option String
  | ⟨none, .string t⟩ => some t
  | _ => none

/-- The truth value of an argument that is a plain keyword. -/
def Value.boolean? : Value → Option Bool
  | ⟨none, .boolean b⟩ => some b
  | _ => none

/-- The value of a row of digits in a base. -/
def ofDigits (base : Nat) (digits : List Char) : Nat :=
  digits.foldl (fun n c => base * n + ofHexDigits [c]) 0

/-- The count an argument stands for: a whole number of at most 64 bits without a minus sign. -/
def Value.count? : Value → Option Nat
  | ⟨none, .integer t base⟩ | ⟨some "usize", .integer t base⟩ =>
    match t.toList with
    | '-' :: _ => none
    | '+' :: ds | ds =>
      let n := ofDigits base ds
      if n < UInt64.size then some n else none
  | _ => none

namespace Node

/-- Whether the node has arguments at most. -/
def isPlain (n : Node) : Bool := n.properties.isEmpty && n.children.isEmpty

/-- The only argument of a plain node, decoded. -/
def one (decode : Value → Option α) (n : Node) : Option α :=
  match n.isPlain, n.arguments with
  | true, [v] => decode v
  | _, _ => none

/-- The arguments of a plain node, decoded. -/
def every (decode : Value → Option α) (n : Node) : Option (List α) :=
  if n.isPlain then n.arguments.mapM decode else none

/-- Whether the node is a bare flag. -/
def isFlag (n : Node) : Bool := n.isPlain && n.annotation.isNone && n.arguments.isEmpty

end Node

/-- Takes one node into a configuration; the node's name must be known. -/
def addNode (c : Config) (n : Node) : Option Config :=
  match n.name with
  | "source-path" => (n.one Value.text?).map fun v => { c with sourcePath := some v }
  | "recursive" => (n.one Value.boolean?).map fun v => { c with recursive := some v }
  | "extensions" => (n.every Value.text?).map fun v => { c with extensions := some v }
  | "skip-folders" => (n.every Value.text?).map fun v => { c with skipFolders := some v }
  | "generated-folder" => (n.one Value.text?).map fun v => { c with generatedFolder := some v }
  | "generated-extension" =>
    (n.one Value.text?).map fun v => { c with generatedExtension := some v }
  | "cache-path" => (n.one Value.text?).map fun v => { c with cachePath := some v }
  | "shader-header" => (n.one Value.text?).map fun v => { c with shaderHeader := some v }
  | "constant-buffer-header" =>
    (n.one Value.text?).map fun v => { c with constantBufferHeader := some v }
  | "vertex-layout-header" =>
    (n.one Value.text?).map fun v => { c with vertexLayoutHeader := some v }
  | "include-prefix" => (n.one Value.text?).map fun v => { c with includePrefix := some v }
  | "compiler" => (n.one Value.text?).map fun v => { c with compiler := some v }
  | "compiler-path" => (n.one Value.text?).map fun v => { c with compilerPath := some v }
  | "shader-model" => (n.one Value.text?).map fun v => { c with shaderModel := some v }
  | "debug-information" => if n.isFlag then some { c with debugInformation := true } else none
  | "global-defines" => (n.every Value.text?).map fun v => { c with globalDefines := some v }
  | "jobs" => (n.one Value.count?).map fun v => { c with jobs := some v }
  | _ => none

/-- The configuration that a row of nodes says. -/
def configOf (ns : List Node) : Option Config :=
  if (ns.map (·.name)).Nodup then ns.foldlM addNode {} else none

end ShaderBuild.Kdl

namespace ShaderBuild.Config

/-- Reads the text of a configuration file. -/
def ofText? (text : List Char) : Option Config := (Kdl.document text).bind Kdl.configOf

end ShaderBuild.Config
