/-!
# Shader compilers and shader models

Two compilers are known. They take the same options and differ in the program's name, in the
character in front of an option, in a define that tells the shader which of them compiles it, and
in the shader models they support.
-/

namespace ShaderBuild

/-- The shader models, oldest first. -/
inductive ShaderModel where
  | sm50 | sm51 | sm60 | sm61 | sm62 | sm63
deriving DecidableEq, Repr

namespace ShaderModel

/-- All shader models, oldest first. -/
def all : List ShaderModel := [.sm50, .sm51, .sm60, .sm61, .sm62, .sm63]

/-- The model as the end of a compiler profile. -/
def suffix : ShaderModel → String
  | .sm50 => "5_0"
  | .sm51 => "5_1"
  | .sm60 => "6_0"
  | .sm61 => "6_1"
  | .sm62 => "6_2"
  | .sm63 => "6_3"

/-- The model as a number, for the shader's own conditions. -/
def number : ShaderModel → Nat
  | .sm50 => 50
  | .sm51 => 51
  | .sm60 => 60
  | .sm61 => 61
  | .sm62 => 62
  | .sm63 => 63

/-- The model with the given name; a point may stand for the underscore. -/
def ofName? (name : String) : Option ShaderModel :=
  all.find? fun m => m.suffix.toList == name.toList.map fun c => if c = '.' then '_' else c

end ShaderModel

/-- The shader compilers. -/
inductive Backend where
  | fxc | dxc
deriving DecidableEq, Repr

namespace Backend

/-- The name shown to the user. -/
def name : Backend → String
  | .fxc => "FXC"
  | .dxc => "DXC"

/-- The program that is run when the settings name none. -/
def executable : Backend → String
  | .fxc => "fxc"
  | .dxc => "dxc"

/-- The option with the given letters. -/
def option : Backend → String → String
  | .fxc, letters => "/" ++ letters
  | .dxc, letters => "-" ++ letters

/-- The define that is set while this compiler runs. -/
def define : Backend → String
  | .fxc => "COMPILER_FXC"
  | .dxc => "COMPILER_DXC"

/-- The older compiler ends with model 5.1; the newer one takes every model. -/
def supports : Backend → ShaderModel → Bool
  | .fxc, m => m.number ≤ 51
  | .dxc, _ => true

/-- The compiler with the given name, in any ASCII case. -/
def ofName? (name : String) : Option Backend :=
  match name.toList.map Char.toLower with
  | ['f', 'x', 'c'] => some .fxc
  | ['d', 'x', 'c'] => some .dxc
  | _ => none

end Backend

end ShaderBuild
