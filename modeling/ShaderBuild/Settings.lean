import ShaderBuild.Error

/-!
# Settings

A *configuration* holds what the user wrote, every entry optional. *Settings* are what a build
needs: the configuration's entries, or defaults that follow from the root folder, checked to fit
together.
-/

namespace ShaderBuild

/-- The entries of a configuration; paths are relative to the root folder. -/
structure Config where
  sourcePath : Option String := none
  recursive : Option Bool := none
  extensions : Option (List String) := none
  skipFolders : Option (List String) := none
  generatedFolder : Option String := none
  generatedExtension : Option String := none
  cachePath : Option String := none
  shaderHeader : Option String := none
  constantBufferHeader : Option String := none
  vertexLayoutHeader : Option String := none
  includePrefix : Option String := none
  compiler : Option String := none
  compilerPath : Option String := none
  shaderModel : Option String := none
  debugInformation : Bool := false
  globalDefines : Option (List String) := none
  jobs : Option Nat := none
deriving DecidableEq, Repr

/-- What a build works with. -/
structure Settings where
  /-- The folder that is scanned for shader files. -/
  sourcePath : Path
  /-- Whether the folders below it are scanned too. -/
  recursive : Bool
  /-- The ends of a shader file's path. -/
  extensions : List String
  /-- The names of folders that are not scanned. -/
  skipFolders : List String
  /-- The folder the compiler writes to. -/
  generatedFolder : Path
  /-- The end of the name of every file the compiler writes. -/
  generatedExtension : String
  cachePath : Path
  shaderHeader : Path
  constantBufferHeader : Path
  vertexLayoutHeader : Path
  /-- What stands in front of a file name in the generated include lines. -/
  includePrefix : String
  compiler : Backend
  /-- The compiler's program, if it is not the usual one. -/
  compilerPath : Option Path
  shaderModel : ShaderModel
  debugInformation : Bool
  globalDefines : List String
  /-- How many permutations may be compiled at a time. -/
  jobs : Nat
deriving DecidableEq, Repr

namespace Settings

/-- The name of the cache file in the generated folder. -/
def cacheName : String := ".shadercompiler.json"

/-- The settings for a root folder without a configuration. `processors` is the number of
permutations compiled at a time. -/
def defaults (root : Path) (processors : Nat) : Settings :=
  let source := root.join ⟨"Shaders"⟩
  let generated := source.join ⟨"generated"⟩
  let headers := source.join ⟨"Include"⟩
  { sourcePath := source
    recursive := true
    extensions := [".hlsl", ".hlsli"]
    skipFolders := ["generated"]
    generatedFolder := generated
    generatedExtension := ".generated.h"
    cachePath := generated.join ⟨cacheName⟩
    shaderHeader := headers.join ⟨"Shaders.h"⟩
    constantBufferHeader := headers.join ⟨"ConstantBuffers.h"⟩
    vertexLayoutHeader := headers.join ⟨"VertexLayouts.h"⟩
    includePrefix := "Shaders\\generated\\"
    compiler := .dxc
    compilerPath := none
    shaderModel := .sm60
    debugInformation := false
    globalDefines := []
    jobs := processors }

/-- Whether the settings fit together: the compiler supports the shader model, and there is an
extension to look for. -/
def verify (s : Settings) : Except Error Unit :=
  if !s.compiler.supports s.shaderModel then
    .error (.settings (.unsupportedModel s.compiler s.shaderModel))
  else if s.extensions.isEmpty then .error (.settings .noExtensions)
  else .ok ()

/-- The compiler with the given name. -/
def compilerNamed (name : String) : Except Error Backend :=
  match Backend.ofName? name with
  | some b => .ok b
  | none => .error (.settings (.unknownCompiler name))

/-- The shader model with the given name. -/
def modelNamed (name : String) : Except Error ShaderModel :=
  match ShaderModel.ofName? name with
  | some m => .ok m
  | none => .error (.settings (.unknownModel name))

/-- The settings for a configuration. The cache lies in the generated folder unless it has a path
of its own. -/
def resolve (config : Config) (root : Path) (processors : Nat) : Except Error Settings := do
  let base := defaults root processors
  let pathOr (entry : Option String) (default : Path) : Path :=
    (entry.map fun t => root.join ⟨t⟩).getD default
  let generated := pathOr config.generatedFolder base.generatedFolder
  let compiler ← match config.compiler with
    | none => pure base.compiler
    | some name => compilerNamed name
  let model ← match config.shaderModel with
    | none => pure base.shaderModel
    | some name => modelNamed name
  let settings : Settings :=
    { sourcePath := pathOr config.sourcePath base.sourcePath
      recursive := config.recursive.getD base.recursive
      extensions := config.extensions.getD base.extensions
      skipFolders := config.skipFolders.getD base.skipFolders
      generatedFolder := generated
      generatedExtension := config.generatedExtension.getD base.generatedExtension
      cachePath := pathOr config.cachePath (generated.join ⟨cacheName⟩)
      shaderHeader := pathOr config.shaderHeader base.shaderHeader
      constantBufferHeader := pathOr config.constantBufferHeader base.constantBufferHeader
      vertexLayoutHeader := pathOr config.vertexLayoutHeader base.vertexLayoutHeader
      includePrefix := config.includePrefix.getD base.includePrefix
      compiler
      compilerPath := config.compilerPath.map Path.mk
      shaderModel := model
      debugInformation := config.debugInformation
      globalDefines := config.globalDefines.getD base.globalDefines
      jobs := (config.jobs.map (max 1)).getD base.jobs }
  settings.verify
  return settings

/-- Whether a path is that of a shader file, by the end of its text. -/
def isShaderFile (s : Settings) (p : Path) : Bool :=
  s.extensions.any fun e => e.toList.isSuffixOf p.text.toList

/-- Whether a path has the end of a generated file. -/
def isGenerated (s : Settings) (p : Path) : Bool :=
  s.generatedExtension.toList.isSuffixOf p.text.toList

end Settings

end ShaderBuild
