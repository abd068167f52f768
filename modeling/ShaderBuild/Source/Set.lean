import ShaderBuild.Hlsl.Declaration
import ShaderBuild.Source.File

/-!
# File sets

The files of one scan, in the order they were inserted. A file is known by its identity, and no
two files of a set share an identity or an output.

Main definitions: `insert`, `index?`, `get?`, `structs`.
-/

namespace ShaderBuild

/-- The shader files of one scan. -/
structure FileSet where
  files : List SourceFile := []
deriving Repr

namespace FileSet

/-- How many files there are. -/
def size (fs : FileSet) : Nat := fs.files.length

/-- The file at an index. -/
def get (fs : FileSet) (i : Fin fs.size) : SourceFile := fs.files.get i

/-- The index of the file with an identity. -/
def index? (fs : FileSet) (identity : UInt32) : Option (Fin fs.size) :=
  fs.files.findFinIdx? fun f => f.identity == identity

/-- The file with an identity. -/
def get? (fs : FileSet) (identity : UInt32) : Option SourceFile :=
  (fs.index? identity).map fs.get

/-- The file that owns an output. -/
def owner? (fs : FileSet) (output : Path) : Option SourceFile :=
  fs.files.find? fun f => f.outputs.any output.sameAs

/-- The first of some outputs that a file of the set owns already, and that file. -/
def clash? (fs : FileSet) (outputs : List Path) : Option (Path × SourceFile) :=
  outputs.findSome? fun o => (fs.owner? o).map fun f => (o, f)

/-- Adds a file whose identity and outputs no other file has. -/
def insert (fs : FileSet) (f : SourceFile) : Except Error FileSet :=
  match fs.get? f.identity with
  | some g => .error (.duplicateIdentity f.identity g.path f.path)
  | none =>
    match fs.clash? f.outputs with
    | some (o, g) => .error (.duplicateOutput o g.path f.path)
    | none => .ok ⟨fs.files ++ [f]⟩

/-- The structs of all files, in file order and then in the order of declaration; exported ones
have names of their own. -/
def structs (fs : FileSet) : Except Error (List Hlsl.Struct) := do
  let ss ← fs.files.mapM fun f => Hlsl.structs f.path f.content
  Hlsl.checkNames ss.flatten
  return ss.flatten

end FileSet

end ShaderBuild
