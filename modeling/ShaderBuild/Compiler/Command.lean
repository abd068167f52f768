import ShaderBuild.Directive
import ShaderBuild.Settings

/-!
# Compiler commands

The command that compiles one permutation, and the line that shows a command to the user.
-/

namespace ShaderBuild

/-- A program and its arguments. -/
structure Command where
  program : String
  arguments : List String
deriving DecidableEq, Repr

namespace Command

/-- An argument as a command line shows it: quoted when it holds a blank. -/
def shown (argument : String) : String :=
  if argument.toList.any Text.isBlank then "\"" ++ argument ++ "\"" else argument

/-- The command on one line. -/
def line (c : Command) : String := " ".intercalate ((c.program :: c.arguments).map shown)

end Command

/-- One permutation of a source file to compile. Without an output it is only checked. -/
structure Job where
  source : Path
  directive : Directive
  output : Option Path
deriving DecidableEq, Repr

/-- A compiler with the options that all jobs share. -/
structure Toolchain where
  backend : Backend
  program : Path
  model : ShaderModel
  debugInformation : Bool
  globalDefines : List String
deriving DecidableEq, Repr

namespace Toolchain

/-- The toolchain that the settings describe, for a shader model. -/
def ofSettings (s : Settings) (model : ShaderModel) : Toolchain :=
  { backend := s.compiler
    program := s.compilerPath.getD ⟨s.compiler.executable⟩
    model
    debugInformation := s.debugInformation
    globalDefines := s.globalDefines }

/-- The defines for a permutation, in order. -/
def defines (t : Toolchain) (d : Directive) : List String :=
  t.globalDefines ++ [d.stage.define] ++ d.defines
    ++ ["SHADER_MODEL=" ++ toString t.model.number, "LANGUAGE_HLSL", t.backend.define]

/-- The command for a job. -/
def command (t : Toolchain) (job : Job) : Command :=
  let option := t.backend.option
  let d := job.directive
  { program := t.program.text
    arguments :=
      [job.source.text]
        ++ (job.output.map fun o => [option "Fh", o.text]).getD []
        ++ [option "E", d.entryPoint, option "T", d.stage.profile ++ "_" ++ t.model.suffix,
          option "Od"]
        ++ (if t.debugInformation then [option "Zi"] else [])
        ++ (if job.output.isSome then [option "Vn", "g_" ++ d.name] else [])
        ++ (t.defines d).flatMap (fun define =>
          [option "D", String.ofList (Text.trim define.toList)])
        ++ [option "nologo"] }

end Toolchain

end ShaderBuild
