import ShaderBuild.Compiler.Command
import ShaderBuild.FileTree.Basic
import ShaderBuild.Notice
import ShaderBuild.Text.Blank

/-!
# Running a compiler

A *compiler* takes a job and the file tree and answers whether the job failed, what there is to
tell, and the tree it leaves behind. A toolchain is one: it runs an external program through a
*shell*, and the program's exit decides.

Main definitions: `Compiler`, `Shell`, `Toolchain.compiler`.
-/

namespace ShaderBuild

/-- What comes of a job. -/
structure Compilation where
  failure : Option CompileFailure
  notices : List Notice
  tree : FileTree

/-- Compiles a job on a file tree. -/
abbrev Compiler := Job → FileTree → Compilation

/-- What comes of a command. -/
inductive Exit where
  | notStarted (reason : String)
  | ended (success : Bool) (stdout stderr : String)
deriving DecidableEq, Repr

/-- Runs a command on a file tree. -/
abbrev Shell := Command → FileTree → Exit × FileTree

namespace Exit

/-- What the program printed, without blank lines at the end; nothing when it is all blank. -/
def printed : Exit → List Notice
  | notStarted _ => []
  | ended _ stdout _ =>
    match Text.trimRight stdout.toList with
    | [] => []
    | text => [.compilerOutput (String.ofList text)]

/-- The text of the failure, if the command failed. -/
def failure? : Exit → Option String
  | notStarted reason => some ("failed to start compiler: " ++ reason ++ "\n")
  | ended true _ _ => none
  | ended false _ stderr => some stderr

end Exit

/-- The report of a job that failed with the given text. -/
def Job.failure (job : Job) (command : Command) (text : String) : CompileFailure :=
  { permutation := job.directive.name ++ " (" ++ job.source.text ++ ")"
    stderr := text
    commandLine := command.line }

/-- The compiler that runs the toolchain's program for every job. -/
def Toolchain.compiler (t : Toolchain) (shell : Shell) : Compiler := fun job tree =>
  let command := t.command job
  let (exit, tree) := shell command tree
  { failure := exit.failure?.map (job.failure command)
    notices := .compiling job.directive :: exit.printed
    tree }

end ShaderBuild
