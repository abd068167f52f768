import ShaderBuild.Directive
import ShaderBuild.FileTree.Basic
import ShaderBuild.Settings

/-!
# Shader files

A shader file as one scan finds it: where it lies, what it holds, and which permutations it
declares, each with the file it is compiled to.
-/

namespace ShaderBuild

/-- A permutation and the file it is compiled to. -/
structure Permutation where
  directive : Directive
  output : Path
deriving DecidableEq, Repr

/-- A shader file. -/
structure SourceFile where
  identity : UInt32
  path : Path
  modified : Timestamp
  content : List Char
  permutations : List Permutation
  /-- The identities of the files it includes, directly or not. -/
  dependencies : List UInt32 := []
  shouldCompile : Bool := false
  didCompile : Bool := true
deriving DecidableEq, Repr

namespace SourceFile

/-- The directives of a file, in order. -/
def directives (f : SourceFile) : List Directive := f.permutations.map (·.directive)

/-- The files a file is compiled to, in the order of its directives. -/
def outputs (f : SourceFile) : List Path := f.permutations.map (·.output)

/-- Where a permutation of the file at a path is compiled to. -/
def outputPath (s : Settings) (path : Path) (d : Directive) : Path :=
  s.generatedFolder.child (d.outputName path s.generatedExtension)

/-- The shader file with the given content. Its path is kept in normal form. -/
def ofText (s : Settings) (path : Path) (modified : Timestamp) (content : List Char) :
    Except Error SourceFile :=
  let path := path.normalize
  (Directive.ofText path content).map fun ds =>
    { identity := path.identity
      path
      modified
      content
      permutations := ds.map fun d => ⟨d, outputPath s path d⟩ }

end SourceFile

end ShaderBuild
