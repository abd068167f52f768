import ShaderBuild.Build.Job
import ShaderBuild.Cache.Diff
import ShaderBuild.Cache.Format
import ShaderBuild.Include.Line
import ShaderBuild.Source.Scan
import ShaderBuild.Target.Header

/-!
# Builds

A build compares the shader files with the cache of the last build, compiles the permutations of
the files to compile, generates the headers and saves the cache. When permutations fail, the files
they belong to are remembered as not compiled and no header is touched. Validating compiles
everything and keeps nothing, and cleaning deletes what builds left behind.

Main definitions: `build`, `validate`, `clean`.
-/

namespace ShaderBuild

/-- What a build did. -/
structure Report where
  /-- The permutations that were given to the compiler. -/
  compiled : Nat := 0
  headersWritten : Nat := 0
  upToDate : Bool := false
deriving DecidableEq, Repr

namespace FileSet

/-- The jobs of the files to compile, each with its output. -/
def staleJobs (fs : FileSet) : List Job :=
  (fs.files.filter (·.shouldCompile)).flatMap (·.jobs true)

/-- The jobs of all files, without outputs. -/
def checks (fs : FileSet) : List Job := fs.files.flatMap (·.jobs false)

/-- Remembers that the files at some paths were not compiled. -/
def markFailed (fs : FileSet) (paths : List Path) : FileSet :=
  ⟨fs.files.map fun f => if f.path ∈ paths then { f with didCompile := false } else f⟩

end FileSet

/-- The sources of the jobs that failed. -/
def failedSources (jobs : List Job) (results : List (Option CompileFailure)) : List Path :=
  ((jobs.zip results).filter (·.2.isSome)).map (·.1.source)

/-- Compiles the files to compile and generates the headers. The structs are read before, since a
fault in them shows faster than the compiler runs. -/
def compileStale (compiler : Compiler) (s : Settings) (fs : FileSet) : Action Report := do
  let structs ← Action.lift fs.structs
  let results ← Action.compileAll compiler s.jobs fs.staleJobs
  match results.filterMap id with
  | [] =>
    let written ← Target.generate s structs
    (BuildCache.ofFiles fs).save s.cachePath
    Action.tell (.built fs.staleJobs.length written)
    return { compiled := fs.staleJobs.length, headersWritten := written }
  | failures =>
    (BuildCache.ofFiles (fs.markFailed (failedSources fs.staleJobs results))).save s.cachePath
    throw (.compile failures)

/-- Brings outputs, headers and cache up to date with the shader files. -/
def build (compiler : Compiler) (s : Settings) : Action Report := do
  Action.changeAt s.generatedFolder (·.makeFolders s.generatedFolder)
  let cache ← BuildCache.load s.cachePath
  let fs ← FileSet.scan s
  let graph ← Action.lift (fs.graph (← Action.tree))
  let (changed, fs) ← cache.diff s fs graph
  if changed then compileStale compiler s fs
  else
    Action.tell (.upToDate fs.size)
    return { upToDate := true }

/-- Compiles every permutation without an output, and counts them. -/
def validate (compiler : Compiler) (s : Settings) : Action Nat := do
  let fs ← FileSet.scan s
  let _ ← Action.lift (fs.graph (← Action.tree))
  let results ← Action.compileAll compiler s.jobs fs.checks
  match results.filterMap id with
  | [] => return fs.checks.length
  | failures => throw (.compile failures)

/-- Deletes the cache and the generated folder. -/
def clean (s : Settings) : Action Unit := do
  Action.deleteAt s.cachePath (·.removeFile s.cachePath)
  Action.deleteAt s.generatedFolder (·.removeFolder s.generatedFolder)

end ShaderBuild
