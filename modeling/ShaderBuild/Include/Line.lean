import ShaderBuild.FileTree.Access
import ShaderBuild.Include.Graph
import ShaderBuild.Source.Set
import ShaderBuild.Text.Blank
import ShaderBuild.Text.Line

/-!
# Include lines

A line `#include "path"` includes the file that the path leads to from the folder of the
including file. That file must exist and belong to the scanned ones. Includes in angle brackets
are the compiler's own and mean nothing here.
-/

namespace ShaderBuild

namespace Include

open Text

/-- What follows a word at the front of a text. -/
def afterExact : List Char → List Char → Option (List Char)
  | [], s => some s
  | _ :: _, [] => none
  | w :: ws, c :: s => if w = c then afterExact ws s else none

/-- The text between the quote at the front and the next one. -/
def quoted? : List Char → Option (List Char)
  | '"' :: s =>
    let inside := s.takeWhile (· ≠ '"')
    if inside ≠ [] ∧ inside.length < s.length then some inside else none
  | _ => none

/-- The quoted path that a line includes. -/
def ofLine? (line : List Char) : Option (List Char) :=
  match trimLeft line with
  | '#' :: s => (afterExact "include".toList (trimLeft s)).bind fun r => quoted? (trimLeft r)
  | _ => none

/-- The paths that a text includes, with the lines they are included in. -/
def ofText (text : List Char) : List (Nat × String) :=
  (numberedLines text).filterMap fun (n, line) =>
    (ofLine? line).map fun target => (n, String.ofList target)

/-- Where an include of a file leads. -/
def resolve (path : Path) (target : String) : Path :=
  ((path.parent?.getD ⟨""⟩).join ⟨target⟩).normalize

/-- The file that an include means. -/
def target (tree : FileTree) (fs : FileSet) (path : Path) (line : Nat) (text : String) :
    Except Error (Fin fs.size) :=
  let resolved := resolve path text
  if tree.isFile resolved then
    match fs.index? resolved.identity with
    | some i => .ok i
    | none => .error (.includeNotScanned resolved path line)
  else .error (.unresolvedInclude text path line)

/-- The files that a file includes directly, each once, in the order of the first include. -/
def direct (tree : FileTree) (fs : FileSet) (f : SourceFile) : Except Error (List (Fin fs.size)) :=
  ((ofText f.content).mapM fun line => target tree fs f.path line.1 line.2).map (merge [])

end Include

namespace FileSet

/-- The include graph of a set of files. -/
def graph (fs : FileSet) (tree : FileTree) : Except Error (IncludeGraph fs.size) := do
  let direct ← (Vector.ofFn fs.get).mapM (Include.direct tree fs)
  match IncludeGraph.ofEdges direct.get with
  | .ok g => return g
  | .error cycle => throw (.includeCycle (cycle.map fun i => (fs.get i).path))

end FileSet

end ShaderBuild
