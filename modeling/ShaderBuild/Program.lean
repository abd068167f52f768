import ShaderBuild.Build.Operation
import ShaderBuild.Kdl.Configuration

/-!
# The program

From the arguments of a call to its exit status: the settings are loaded, the operation is
performed, and errors end up in the log.

Main definitions: `Settings.load`, `Program.run`.
-/

namespace ShaderBuild

/-- Reads the configuration file at a path and checks the settings it describes. -/
def Settings.load (config root : Path) (processors : Nat) (tree : FileTree) :
    Except Error Settings :=
  match tree.readText config with
  | .error fault => .error (.io config fault)
  | .ok text =>
    match Config.ofText? text with
    | none => .error (.configSyntax config)
    | some c => Settings.resolve c root processors

/-- The settings that a request asks for: those of its configuration file, or the defaults. -/
def Request.settings (r : Request) (processors : Nat) (tree : FileTree) : Except Error Settings :=
  match r.config with
  | some config => Settings.load config r.root processors tree
  | none => do
    let s := Settings.defaults r.root processors
    s.verify
    return s

/-- The exit status for an error: permutations that fail to compile have one of their own. -/
def Error.exitCode : Error → UInt8
  | .compile _ => 3
  | _ => 1

/-- What a request does once the settings are there. -/
def Request.perform (r : Request) (shell : Shell) (s : Settings) : Action Unit := do
  let report ← r.operation.perform shell s
  if r.operation = .test then Action.tell (.allClean report.compiled)

namespace Program

/-- What a call leaves behind. -/
structure Outcome where
  code : UInt8
  /-- The notices to show, oldest first. -/
  shown : List Notice
  stderr : String
  tree : FileTree

/-- The outcome of a request. -/
def answer (processors : Nat) (shell : Shell) (tree : FileTree) (r : Request) : Outcome :=
  let (result, session) := Action.runOn
    (do r.perform shell (← Action.lift (r.settings processors tree))) { tree }
  let (code, ending) : UInt8 × List Notice := match result with
    | .ok () => (0, [])
    | .error e => (e.exitCode, [.failed e])
  { code
    shown := (session.log ++ ending).filter (·.isShown r.verbose)
    stderr := ""
    tree := session.tree }

/-- Runs the program with the given arguments. -/
def run (arguments : List String) (processors : Nat) (shell : Shell) (tree : FileTree) : Outcome :=
  match CommandLine.parse arguments with
  | .error fault =>
    { code := 1
      shown := []
      stderr := fault.message ++ "\n" ++ CommandLine.usage ++ "\n"
      tree }
  | .ok r => answer processors shell tree r

end Program

end ShaderBuild
