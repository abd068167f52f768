import ShaderBuild.Path
import ShaderBuild.Compiler.Backend

/-!
# Errors

Every way a build can end early is a constructor of `Error`, holding what the message needs. The
wording is in `Error.message` and nowhere else.
-/

namespace ShaderBuild

/-- Why a file or folder could not be used. -/
inductive IoFault where
  | notFound
  | alreadyExists
  | notADirectory
  | isADirectory
  | directoryNotEmpty
  | invalidInput
  /-- The bytes of a file are not UTF-8. -/
  | notUnicode
  /-- A modification time lies before the epoch and has no written form. -/
  | timeBeforeEpoch
deriving DecidableEq, Repr

/-- The wording of a fault. -/
def IoFault.message : IoFault → String
  | .notFound => "No such file or directory (os error 2)"
  | .alreadyExists => "File exists (os error 17)"
  | .notADirectory => "Not a directory (os error 20)"
  | .isADirectory => "Is a directory (os error 21)"
  | .directoryNotEmpty => "Directory not empty (os error 39)"
  | .invalidInput => "Invalid argument (os error 22)"
  | .notUnicode => "stream did not contain valid UTF-8"
  | .timeBeforeEpoch => "SystemTime must be later than UNIX_EPOCH"

/-- What is wrong with a configuration that could be read. -/
inductive SettingsFault where
  | unknownCompiler (name : String)
  | unknownModel (name : String)
  | unsupportedModel (backend : Backend) (model : ShaderModel)
  | noExtensions
deriving DecidableEq, Repr

/-- The wording of a fault. -/
def SettingsFault.message : SettingsFault → String
  | .unknownCompiler n => "unknown compiler \"" ++ n ++ "\""
  | .unknownModel n => "unknown shader model \"" ++ n ++ "\""
  | .unsupportedModel b m => b.name ++ " doesn't support shader model " ++ m.suffix
  | .noExtensions => "no shader extensions configured"

/-- One permutation that the compiler rejected. -/
structure CompileFailure where
  permutation : String
  stderr : String
  commandLine : String
deriving DecidableEq, Repr

/-- The report of one rejected permutation. -/
def CompileFailure.message (f : CompileFailure) : String :=
  f.permutation ++ "\n" ++ f.stderr ++ "Failed with commandline:\n" ++ f.commandLine ++ "\n"

/-- Why an operation ended early. -/
inductive Error where
  | missingTag (tag : String) (path : Path) (line : Nat)
  | unknownStage (value : String) (path : Path) (line : Nat)
  | malformedField (fragment : String) (path : Path) (line : Nat)
  | namelessStruct (path : Path) (line : Nat)
  | unterminatedStruct (name : String) (path : Path) (line : Nat)
  | duplicateStructs (names : List String)
  | unresolvedInclude (target : String) (path : Path) (line : Nat)
  | includeNotScanned (target path : Path) (line : Nat)
  /-- A chain of includes whose last file is its first. -/
  | includeCycle (chain : List Path)
  | duplicateIdentity (identity : UInt32) (first second : Path)
  | duplicatePermutation (name : String) (path : Path) (line : Nat)
  | duplicateOutput (output first second : Path)
  | unknownOutputExtension (path : Path)
  | missingTarget (path : Path)
  | missingMarker (tag : String) (path : Path)
  | missingByteArray (path : Path)
  | settings (fault : SettingsFault)
  | configSyntax (path : Path)
  | compile (failures : List CompileFailure)
  | io (path : Path) (fault : IoFault)
  /-- A folder could not be listed. -/
  | listing (path : Path) (fault : IoFault)
deriving DecidableEq, Repr

/-- A place in a file, as messages show it. -/
def Path.at (p : Path) (line : Nat) : String := p.text ++ "(" ++ toString line ++ ")"

/-- Eight hexadecimal digits. -/
def hex8 (n : UInt32) : String :=
  String.ofList ((List.range 8).reverse.map fun i =>
    Nat.digitChar ((n.toNat >>> (4 * i)) % 16))

/-- The wording of an error. -/
def Error.message : Error → String
  | .missingTag tag p n => "missing tag \"" ++ tag ++ "\" in header. " ++ p.at n
  | .unknownStage v p n => "unknown shader type \"" ++ v ++ "\" in header. " ++ p.at n
  | .malformedField f p n =>
    "missing or incorrect type argument in structure. " ++ p.at n ++ ": " ++ f
  | .namelessStruct p n => "nameless structs not allowed. " ++ p.at n
  | .unterminatedStruct s p n => "unterminated struct \"" ++ s ++ "\". " ++ p.at n
  | .duplicateStructs names => "duplicate structs: " ++ ", ".intercalate names
  | .unresolvedInclude t p n => "included file \"" ++ t ++ "\" does not exist. " ++ p.at n
  | .includeNotScanned t p n =>
    "included file " ++ t.text ++ " is not part of the scanned shader files, "
      ++ "is its extension missing from the configuration? " ++ p.at n
  | .includeCycle chain => "include cycle: " ++ " -> ".intercalate (chain.map Path.text)
  | .duplicateIdentity i a b =>
    "same file shouldn't be processed twice: " ++ a.text ++ " and " ++ b.text
      ++ " share identity " ++ hex8 i
  | .duplicatePermutation s p n =>
    "permutation \"" ++ s ++ "\" is declared more than once. " ++ p.at n
  | .duplicateOutput o a b => a.text ++ " and " ++ b.text ++ " both generate " ++ o.text
  | .unknownOutputExtension p =>
    "refusing to delete generated output with unrecognized extension: " ++ p.text
  | .missingTarget p => "file " ++ p.text ++ " does not exist"
  | .missingMarker tag p =>
    "Begin" ++ tag ++ " or End" ++ tag ++ " were not found in file " ++ p.text
  | .missingByteArray p => "generated file " ++ p.text ++ " does not contain a byte array"
  | .settings f => "invalid configuration: " ++ f.message
  | .configSyntax p => "failed to parse configuration file " ++ p.text ++ ": error parsing KDL"
  | .compile fs =>
    toString fs.length ++ " permutation(s) failed to compile:\n"
      ++ String.join (fs.map fun f => f.message ++ "\n")
  | .io p f => p.text ++ ": " ++ f.message
  | .listing p f => p.text ++ ": IO error for operation on " ++ p.text ++ ": " ++ f.message

end ShaderBuild
