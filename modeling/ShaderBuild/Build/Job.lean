import ShaderBuild.Compiler.Process
import ShaderBuild.Session
import ShaderBuild.Source.Set

/-!
# Jobs of a build

The jobs of a set of files, and what comes of them. Several jobs may be worked on at a time; since
a job writes only its own output, the answers are those of one worker that takes the jobs in
order.
-/

namespace ShaderBuild

/-- The jobs of a file, one for each permutation. -/
def SourceFile.jobs (f : SourceFile) (keepOutputs : Bool) : List Job :=
  f.permutations.map fun p =>
    { source := f.path
      directive := p.directive
      output := if keepOutputs then some p.output else none }

namespace Action

/-- Hands a job to the compiler. -/
def compile (compiler : Compiler) (job : Job) : Action (Option CompileFailure) :=
  modifyGet fun s =>
    let result := compiler job s.tree
    (result.failure,
      { tree := result.tree, log := s.log ++ result.notices, calls := s.calls ++ [job] })

/-- How many workers there are for a number of jobs: as many as allowed, but at least one, and
not more than there are jobs. -/
def workers (allowed jobs : Nat) : Nat := max 1 (min allowed jobs)

/-- Hands jobs to the compiler, in order. -/
def compileAll (compiler : Compiler) (allowed : Nat) (jobs : List Job) :
    Action (List (Option CompileFailure)) := do
  tell (.compilingAll jobs.length (workers allowed jobs.length))
  jobs.mapM (compile compiler)

end Action

end ShaderBuild
