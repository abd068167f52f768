import ShaderBuild.Source.Set

/-!
# File sets with indices

An insertion asks a file set two questions: which file has an identity, and which file owns an
output. An *indexed set* keeps the answers in two maps beside its files. Outputs are looked up by
their components, so that two spellings of a path are one key.

An insertion looks up all that it needs, and then enters the outputs one after the other, the
identity and the file. It may be refused, and calls that are refused and calls that are not follow
each other in any order (`offerAll`).

Main definitions: `IndexedSet.insert`, `IndexedSet.index?`, `IndexedSet.get?`, `offerAll`.
-/

namespace ShaderBuild

/-! ## Rows of calls -/

/-- The answers to a row of calls, each on the state that the one before left, and the state
behind them. -/
def answersTo (call : σ → α → β × σ) (s : σ) : List α → List β × σ
  | [] => ([], s)
  | a :: as =>
    let (b, s') := call s a
    let (bs, s'') := answersTo call s' as
    (b :: bs, s'')

namespace FileSet

/-- Offers a file to a set: what the set answers, and the set behind the call. -/
def offer (fs : FileSet) (f : SourceFile) : Except Error Unit × FileSet :=
  match fs.insert f with
  | .ok fs' => (.ok (), fs')
  | .error e => (.error e, fs)

/-- Offers files one after the other. -/
def offerAll (fs : FileSet) (calls : List SourceFile) : List (Except Error Unit) × FileSet :=
  answersTo offer fs calls

end FileSet

/-! ## Sets with indices -/

/-- The shader files of one scan, and at which index the file with an identity and the file with
an output stand. Of two entries with one key the one in front counts. -/
structure IndexedSet where
  files : List SourceFile := []
  byIdentity : List (UInt32 × Nat) := []
  byOutput : List (List Path.Component × Nat) := []

namespace IndexedSet

/-- How many files there are. -/
def size (ix : IndexedSet) : Nat := ix.files.length

/-- The index of the file with an identity. -/
def index? (ix : IndexedSet) (identity : UInt32) : Option Nat := ix.byIdentity.lookup identity

/-- The index of the file that owns an output. -/
def owner? (ix : IndexedSet) (output : Path) : Option Nat := ix.byOutput.lookup output.components

/-- The file with an identity. -/
def get? (ix : IndexedSet) (identity : UInt32) : Option SourceFile :=
  (ix.index? identity).bind fun i => ix.files[i]?

/-- The path of the file at an index. -/
def pathAt (ix : IndexedSet) (i : Nat) : Path := (ix.files[i]?.map (·.path)).getD default

/-- A step that may change an indexed set and may end early. -/
abbrev Step := ExceptT Error (StateM IndexedSet) Unit

/-- Refuses a file whose identity is taken. -/
def checkIdentity (f : SourceFile) : Step := do
  let ix ← get
  match ix.index? f.identity with
  | some i => throw (.duplicateIdentity f.identity (ix.pathAt i) f.path)
  | none => return ()

/-- Refuses a file with an output that is taken. -/
def checkOutput (f : SourceFile) (output : Path) : Step := do
  let ix ← get
  match ix.owner? output with
  | some i => throw (.duplicateOutput output (ix.pathAt i) f.path)
  | none => return ()

/-- Enters an output of the file that comes next. -/
def enterOutput (output : Path) : Step :=
  modify fun ix => { ix with byOutput := (output.components, ix.size) :: ix.byOutput }

/-- Enters the identity of the file that comes next. -/
def enterIdentity (f : SourceFile) : Step :=
  modify fun ix => { ix with byIdentity := (f.identity, ix.size) :: ix.byIdentity }

/-- Puts a file behind all others. -/
def enterFile (f : SourceFile) : Step := modify fun ix => { ix with files := ix.files ++ [f] }

/-- Adds a file whose identity and outputs no other file has. -/
def insert (f : SourceFile) : Step := do
  checkIdentity f
  f.outputs.forM (checkOutput f)
  f.outputs.forM enterOutput
  enterIdentity f
  enterFile f

/-- What a step answers, and the set that it leaves behind. -/
def perform (ix : IndexedSet) (step : Step) : Except Error Unit × IndexedSet := step.run.run ix

/-- Offers a file to a set: what the set answers, and the set behind the call. -/
def offer (ix : IndexedSet) (f : SourceFile) : Except Error Unit × IndexedSet :=
  ix.perform (insert f)

/-- Offers files one after the other. -/
def offerAll (ix : IndexedSet) (calls : List SourceFile) :
    List (Except Error Unit) × IndexedSet :=
  answersTo offer ix calls

end IndexedSet

end ShaderBuild
