import ShaderBuild.Build.Basic
import ShaderBuild.CommandLine

/-!
# Operations

The four operations of the program, with the compiler that the settings name.
-/

namespace ShaderBuild

/-- The compiler that the settings name, for a shader model. -/
def Settings.compilerFor (s : Settings) (shell : Shell) (model : ShaderModel) : Compiler :=
  (Toolchain.ofSettings s model).compiler shell

/-- Validates for each of the given shader models, and counts the permutations that were
compiled. -/
def validateModels (shell : Shell) (s : Settings) : List ShaderModel → Action Nat
  | [] => return 0
  | m :: ms => do
    Action.tell (.testing m s.compiler)
    let n ← validate (s.compilerFor shell m) s
    return n + (← validateModels shell s ms)

/-- Performs an operation. -/
def Operation.perform (shell : Shell) (s : Settings) : Operation → Action Report
  | .build => ShaderBuild.build (s.compilerFor shell s.shaderModel) s
  | .clean => do
    ShaderBuild.clean s
    return {}
  | .rebuild => do
    ShaderBuild.clean s
    ShaderBuild.build (s.compilerFor shell s.shaderModel) s
  | .test => do
    ShaderBuild.clean s
    let n ← validateModels shell s (ShaderModel.all.filter s.compiler.supports)
    return { compiled := n }

end ShaderBuild
