import ShaderBuild.Path

/-!
# Command lines

The program is called with an operation, and optionally with a configuration file, a root folder
and a request for more messages. Flags are taken in any ASCII case. What stands behind `-c` or
`-r` is its value, even when it looks like a flag, and a later flag replaces an earlier one.
-/

namespace ShaderBuild

/-- What the program is asked to do. -/
inductive Operation where
  | build | clean | rebuild
  /-- Compile everything for every shader model and keep nothing. -/
  | test
deriving DecidableEq, Repr

/-- What a command line asks for. -/
structure Request where
  operation : Operation
  config : Option Path
  root : Path
  verbose : Bool
deriving DecidableEq, Repr

/-- What is wrong with a command line. -/
inductive UsageFault where
  | unknownArgument (argument : String)
  | missingValue (flag : String)
  | missingOperation
deriving DecidableEq, Repr

/-- The wording of a fault. -/
def UsageFault.message : UsageFault → String
  | .unknownArgument a => "unknown argument \"" ++ a ++ "\""
  | .missingValue f => f ++ " expects a value"
  | .missingOperation => "expected an operation"

namespace CommandLine

/-- How the program is called. -/
def usage : String :=
  "usage: shadercompiler -build|-clean|-rebuild|-test [-c <config.kdl>] [-r <root folder>] "
    ++ "[-verbose]"

/-- What the arguments read so far ask for. -/
structure Draft where
  operation : Option Operation := none
  config : Option Path := none
  root : Option Path := none
  verbose : Bool := false
deriving DecidableEq, Repr

/-- The operation a flag in lower case stands for. -/
def operation? : String → Option Operation
  | "-build" => some .build
  | "-clean" => some .clean
  | "-rebuild" => some .rebuild
  | "-test" => some .test
  | _ => none

/-- Reads the remaining arguments. -/
def read (draft : Draft) : List String → Except UsageFault Draft
  | [] => .ok draft
  | argument :: rest =>
    let flag := argument.map Char.toLower
    match operation? flag with
    | some o => read { draft with operation := some o } rest
    | none =>
      if flag = "-verbose" then read { draft with verbose := true } rest
      else if flag = "-c" then
        match rest with
        | [] => .error (.missingValue "-c")
        | v :: rest => read { draft with config := some ⟨v⟩ } rest
      else if flag = "-r" then
        match rest with
        | [] => .error (.missingValue "-r")
        | v :: rest => read { draft with root := some ⟨v⟩ } rest
      else .error (.unknownArgument argument)

/-- Reads the arguments of a call. The root folder is the working folder when not given. -/
def parse (arguments : List String) : Except UsageFault Request := do
  let draft ← read {} arguments
  match draft.operation with
  | none => .error .missingOperation
  | some operation =>
    return {
      operation
      config := draft.config
      root := draft.root.getD ⟨"."⟩
      verbose := draft.verbose }

end CommandLine

end ShaderBuild
