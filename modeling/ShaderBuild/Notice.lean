import ShaderBuild.Directive

/-!
# Notices

What a build tells while it runs. A notice holds what it is about; its level and its wording are
given here and nowhere else.
-/

namespace ShaderBuild

/-- How much a notice matters. -/
inductive Level where
  | debug | info | warning | error
deriving DecidableEq, Repr

/-- The tag of a level in the log, in its colour. -/
def Level.tag : Level → String
  | .debug => "\x1b[1;36mDEBG\x1b[0m"
  | .info => "\x1b[1;32mINFO\x1b[0m"
  | .warning => "\x1b[1;33mWARN\x1b[0m"
  | .error => "\x1b[1;31mERRO\x1b[0m"

/-- Why a file has to be compiled again. -/
inductive StaleReason where
  | isNew
  | failedBefore
  | modified
  /-- The record belongs to another file with the same identity. -/
  | sharesIdentity (other : Path)
  | missingOutput (output : Path)
deriving DecidableEq, Repr

/-- The wording of a reason. -/
def StaleReason.message : StaleReason → String
  | .isNew => "is new"
  | .failedBefore => "failed to compile previously"
  | .modified => "was modified"
  | .sharesIdentity p => "shares its identity with " ++ p.text
  | .missingOutput p => "is missing its output " ++ p.text

/-- Something that happened. -/
inductive Notice where
  | found (path : Path) (permutations : Nat)
  | noCache (path : Path)
  | discardedCache (path : Path) (reason : String)
  | sourceRemoved (path : Path)
  | deleted (path : Path)
  | stale (path : Path) (reason : StaleReason)
  | includesChanged (path : Path)
  | upToDate (files : Nat)
  | compilingAll (permutations workers : Nat)
  | compiling (directive : Directive)
  | compilerOutput (text : String)
  | noInputFormat (field struct : String) (path : Path) (line : Nat)
  | headerUnchanged (path : Path)
  | headerWritten (path : Path)
  | built (permutations headers : Nat)
  | testing (model : ShaderModel) (backend : Backend)
  | allClean (permutations : Nat)
  | failed (error : Error)
deriving DecidableEq, Repr

namespace Notice

/-- The level of a notice. -/
def level : Notice → Level
  | found .. | noCache .. | stale .. | includesChanged .. | compilingAll .. | compilerOutput ..
  | headerUnchanged .. => .debug
  | sourceRemoved .. | deleted .. | upToDate .. | compiling .. | headerWritten .. | built ..
  | testing .. | allClean .. => .info
  | discardedCache .. | noInputFormat .. => .warning
  | failed .. => .error

/-- The wording of a notice. `elapsed` is the time that a build took. -/
def message (elapsed : String) : Notice → String
  | found p n => "found " ++ p.text ++ " with " ++ toString n ++ " permutation(s)"
  | noCache p => "no build cache at " ++ p.text
  | discardedCache p reason =>
    "discarding build cache " ++ p.text ++ ", recompiling everything: " ++ reason
  | sourceRemoved p => p.text ++ " was removed"
  | deleted p => "deleted " ++ p.text
  | stale p r => p.text ++ " " ++ r.message
  | includesChanged p => p.text ++ " includes a changed file"
  | upToDate n => toString n ++ " shader file(s) up to date"
  | compilingAll n w =>
    "compiling " ++ toString n ++ " permutation(s) on " ++ toString w ++ " worker(s)"
  | compiling d => "HEADER:\t\t" ++ d.description
  | compilerOutput t => t
  | noInputFormat f s p n =>
    f ++ " in vertex layout " ++ s ++ " has no input format. " ++ p.at n
  | headerUnchanged p => p.text ++ " is up to date"
  | headerWritten p => "generated " ++ p.text
  | built n h =>
    "compiled " ++ toString n ++ " permutation(s), wrote " ++ toString h ++ " header(s) in "
      ++ elapsed
  | testing m b => "testing shader model " ++ m.suffix ++ " with " ++ b.name
  | allClean n => toString n ++ " permutation(s) compiled cleanly"
  | failed e => e.message

/-- Whether a notice is shown: debugging notices only on request. -/
def isShown (verbose : Bool) (n : Notice) : Bool := verbose || n.level ≠ .debug

/-- The line of the log for a notice that is given at `time`. -/
def line (time elapsed : String) (n : Notice) : String :=
  "[" ++ time ++ "] " ++ n.level.tag ++ " " ++ n.message elapsed

end Notice

end ShaderBuild
