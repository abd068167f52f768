import ShaderBuild.FileTree.Walk
import ShaderBuild.Session
import ShaderBuild.Source.Set

/-!
# Scanning for shader files

A scan walks the source folder and collects the files whose path ends like a shader file's. It
changes no file.
-/

namespace ShaderBuild.FileSet

/-- Whether a scan goes into a folder with the given name. -/
def entersFolder (s : Settings) (name : String) : Bool :=
  s.recursive && !s.skipFolders.contains name

/-- Reads the shader file at a path. -/
def readFile (s : Settings) (p : Path) : Action SourceFile := do
  let content ← Action.look p (·.readText p)
  let (_, modified) ← Action.look p (·.read p)
  let f ← Action.lift (SourceFile.ofText s p modified content)
  Action.tell (.found f.path f.permutations.length)
  return f

/-- Reads the files at the given paths into a set. -/
def readAll (s : Settings) : FileSet → List Path → Action FileSet
  | fs, [] => return fs
  | fs, p :: ps => do
    let f ← readFile s p
    let fs ← Action.lift (fs.insert f)
    readAll s fs ps

/-- Collects the shader files under the source folder. -/
def scan (s : Settings) : Action FileSet := do
  match (← Action.tree).walk (entersFolder s) s.sourcePath with
  | .error fault => throw (.listing s.sourcePath fault)
  | .ok paths => readAll s {} (paths.filter s.isShaderFile)

end ShaderBuild.FileSet
