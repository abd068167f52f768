import ShaderBuild.Error
import ShaderBuild.Text.Blank
import ShaderBuild.Text.Fold
import ShaderBuild.Text.Line
import ShaderBuild.Text.Search
import ShaderBuild.Text.Word

/-!
# Permutation directives

A comment line `// ShaderCompiler. Name: Lit, EntryPoint: main, Type: PS, Defines: FOG; SHADOW`
declares one *permutation*: one way to compile the file it stands in. What follows the marker is
the *header*, a list of tags separated by commas. Marker and tags are compared without case.

Main definitions: `Directive.ofHeader`, `Directive.ofText`, `Directive.outputName`.
-/

namespace ShaderBuild

/-! ## Stages -/

/-- The shader stages that are compiled. -/
inductive Stage where
  | vertex | pixel
deriving DecidableEq, Repr

namespace Stage

/-- The names a header may give a stage, in lower case. -/
def aliases : List (String × Stage) :=
  [("vs", .vertex), ("vertex", .vertex), ("vertexshader", .vertex),
    ("ps", .pixel), ("pixel", .pixel), ("pixelshader", .pixel), ("fragment", .pixel)]

/-- The stage with the given name, in any ASCII case. -/
def ofAlias? (name : String) : Option Stage :=
  aliases.lookup (name.map Char.toLower)

/-- The two letters of the stage. -/
def abbreviation : Stage → String
  | .vertex => "VS"
  | .pixel => "PS"

/-- The stage as a compiler profile starts. -/
def profile : Stage → String
  | .vertex => "vs"
  | .pixel => "ps"

/-- The define that is set while the stage is compiled. -/
def define : Stage → String
  | .vertex => "VERTEX_SHADER"
  | .pixel => "PIXEL_SHADER"

end Stage

/-! ## Headers -/

/-- One permutation of a shader file. -/
structure Directive where
  name : String
  entryPoint : String
  stage : Stage
  defines : List String
deriving DecidableEq, Repr

/-- What is wrong with a header. -/
inductive HeaderFault where
  /-- The tag `Name` is missing. -/
  | missingName
  | unknownStage (value : String)
deriving DecidableEq, Repr

/-- The error for a faulty header at a place in a file. -/
def HeaderFault.error (path : Path) (line : Nat) : HeaderFault → Error
  | .missingName => .missingTag "Name" path line
  | .unknownStage v => .unknownStage v path line

namespace Header

open Text

/-- The value at the front of a text: it goes to the next comma or to the end and has no blanks
around it. There is none when a line feed stands inside. -/
def value? (s : List Char) : Option (List Char) :=
  let v := trimRight ((trimLeft s).takeWhile (· ≠ ','))
  if '\n' ∈ v then none else some v

/-- The value of a tag that stands at the front of a text. -/
def tagAt? (tag s : List Char) : Option (List Char) :=
  match (afterWord tag s).map trimLeft with
  | some (':' :: r) => value? r
  | _ => none

/-- The value of the leftmost such tag that begins a word. `inside` says that a word character
stands in front of the text. -/
def tagFrom? (tag : List Char) (inside : Bool) : List Char → Option (List Char)
  | [] => none
  | c :: s =>
    match if inside then none else tagAt? tag (c :: s) with
    | some v => some v
    | none => tagFrom? tag (isWord c) s

/-- The value of a tag of a header. -/
def tag? (tag : String) (header : List Char) : Option (List Char) :=
  tagFrom? tag.toList false header

/-- Cuts a text at every semicolon. -/
def splitSemicolon : List Char → List (List Char)
  | [] => [[]]
  | c :: r =>
    if c = ';' then [] :: splitSemicolon r
    else match splitSemicolon r with
      | [] => [[c]]
      | s :: ss => (c :: s) :: ss

/-- The defines of a value: parted by semicolons, without blanks around them, empty ones left
out. -/
def defines (v : List Char) : List String :=
  (((splitSemicolon v).map trim).filter fun d => !d.isEmpty).map String.ofList

/-- The header of a directive that starts with its marker at the front of a text. -/
def at? : List Char → Option (List Char)
  | '/' :: '/' :: s => afterWord "ShaderCompiler.".toList (trimLeft s)
  | _ => none

/-- The header in a line, from the leftmost marker on. -/
def ofLine? (line : List Char) : Option (List Char) := (search at? line).map (·.2)

end Header

namespace Directive

/-- The stage that the value of the tag `Type` names; without the tag it is the pixel stage. -/
def stageOf : Option (List Char) → Except HeaderFault Stage
  | none => .ok .pixel
  | some v =>
    match Stage.ofAlias? (String.ofList v) with
    | none => .error (.unknownStage (String.ofList v))
    | some s => .ok s

/-- Reads a header. The name is required; the entry point is `main` when not given. -/
def ofHeader (header : List Char) : Except HeaderFault Directive :=
  match Header.tag? "Name" header with
  | none => .error .missingName
  | some name => (stageOf (Header.tag? "Type" header)).map fun stage =>
    { name := String.ofList name
      entryPoint := String.ofList ((Header.tag? "EntryPoint" header).getD "main".toList)
      stage
      defines := Header.defines ((Header.tag? "Defines" header).getD []) }

/-- The directive as the log shows it. -/
def description (d : Directive) : String :=
  "Name: " ++ d.name ++ ", EntryPoint: " ++ d.entryPoint ++ ", Type: " ++ d.stage.abbreviation
    ++ (if d.defines.isEmpty then "." else ", Defines: " ++ ", ".intercalate d.defines ++ ".")

/-- Reads the directives of the remaining lines of a file behind those already `seen`. No two
permutations of a file share a name. -/
def ofLines (path : Path) (seen : List Directive) :
    List (Nat × List Char) → Except Error (List Directive)
  | [] => .ok seen
  | (n, line) :: rest =>
    match Header.ofLine? line with
    | none => ofLines path seen rest
    | some header =>
      match ofHeader header with
      | .error fault => .error (fault.error path n)
      | .ok d =>
        if seen.any (·.name == d.name) then .error (.duplicatePermutation d.name path n)
        else ofLines path (seen ++ [d]) rest

/-- The directives of a file's text, in order. -/
def ofText (path : Path) (text : List Char) : Except Error (List Directive) :=
  ofLines path [] (Text.numberedLines text)

/-- The name of the file that a permutation of the given source is compiled to. -/
def outputName (d : Directive) (source : Path) (extension : String) : String :=
  source.stem?.getD source.text ++ "_" ++ d.name ++ "_" ++ d.stage.abbreviation ++ extension

end Directive

end ShaderBuild
