import ShaderBuild.Error
import ShaderBuild.FileTree.Basic
import ShaderBuild.Text.Utf8

/-!
# Using files and folders by path

A path is followed segment by segment: every segment but the last has to lead into a folder, a
dot stays, two dots go up. What the last segment may lead to depends on the operation. A path
that ends with a slash, a dot or two dots can only mean a folder.

An operation that changes the tree returns its outcome with the tree that it leaves behind; the
few that can stop half-way leave what they did.
-/

namespace ShaderBuild.FileTree

/-! ## Following a path -/

/-- How a path ends. -/
inductive Ending where
  /-- With a name. -/
  | name
  /-- With a name and a slash behind it. -/
  | slash
  /-- With a dot, or in the root. -/
  | dot
  /-- With two dots. -/
  | up
deriving DecidableEq, Repr

/-- Where a path leads. -/
structure Goal where
  location : Location
  ending : Ending
deriving DecidableEq, Repr

/-- One segment further. -/
def step (l : Location) (segment : String) : Location :=
  if segment = "." then l else if segment = ".." then l.dropLast else l ++ [segment]

/-- One segment further, into a folder. -/
def enter (t : FileTree) (l : Location) (segment : String) : Except IoFault Location :=
  match t.at? (step l segment) with
  | some .folder => .ok (step l segment)
  | some (.file ..) => .error .notADirectory
  | none => .error .notFound

/-- Where a path leads. All of it but the last name has to exist. -/
def goal (t : FileTree) (p : Path) : Except IoFault Goal :=
  let segments := p.segments.filter (· ≠ "")
  match segments.getLast? with
  | none => if p.isAbsolute then .ok ⟨[], .dot⟩ else .error .notFound
  | some last => do
    let start ← t.enter (if p.isAbsolute then [] else t.here) "."
    let folder ← segments.dropLast.foldlM t.enter start
    return {
      location := step folder last
      ending :=
        if last = "." then .dot
        else if last = ".." then .up
        else if p.text.toList.getLast? = some '/' then .slash
        else .name }

/-! ## Looking -/

/-- What a path leads to. -/
def find (t : FileTree) (p : Path) : Except IoFault Entry := do
  let g ← t.goal p
  match t.at? g.location, g.ending with
  | none, _ => throw .notFound
  | some (.file ..), .slash => throw .notADirectory
  | some e, _ => return e

/-- Whether a path leads to a file. -/
def isFile (t : FileTree) (p : Path) : Bool :=
  match t.find p with
  | .ok (.file ..) => true
  | _ => false

/-- Whether a path leads to a folder. -/
def isFolder (t : FileTree) (p : Path) : Bool :=
  match t.find p with
  | .ok .folder => true
  | _ => false

/-- Whether a path leads anywhere. -/
def has (t : FileTree) (p : Path) : Bool := (t.find p).isOk

/-- The bytes of a file and its modification time. -/
def read (t : FileTree) (p : Path) : Except IoFault (List UInt8 × Timestamp) := do
  match ← t.find p with
  | .folder => throw .isADirectory
  | .file content modified => return (content, modified)

/-- The text of a file, which must be UTF-8. -/
def readText (t : FileTree) (p : Path) : Except IoFault (List Char) := do
  match Text.decode? (← t.read p).1 with
  | some s => return s
  | none => throw .notUnicode

/-! ## Changing -/

/-- The outcome of a change and the tree behind it. -/
abbrev Change := Except IoFault Unit × FileTree

/-- Writes a file, in the place of one that is there. Its folder has to exist. -/
def write (t : FileTree) (p : Path) (content : List UInt8) : Change :=
  match t.goal p with
  | .error fault => (.error fault, t)
  | .ok g =>
    if g.ending ≠ .name ∨ t.at? g.location = some .folder then (.error .isADirectory, t)
    else (.ok (), { t.put g.location (.file content t.clock) with clock := t.clock.next })

/-- Writes a text to a file. -/
def writeText (t : FileTree) (p : Path) (text : List Char) : Change :=
  t.write p (Text.encode text)

/-- Removes a file. -/
def removeFile (t : FileTree) (p : Path) : Change :=
  match t.goal p with
  | .error fault => (.error fault, t)
  | .ok g =>
    match t.at? g.location, g.ending with
    | none, _ => (.error .notFound, t)
    | some .folder, _ => (.error .isADirectory, t)
    | some (.file ..), .slash => (.error .notADirectory, t)
    | some (.file ..), _ => (.ok (), t.prune g.location)

/-- Makes one folder, whose own folder has to exist. -/
def makeFolder (t : FileTree) (p : Path) : Change :=
  match t.goal p with
  | .error fault => (.error fault, t)
  | .ok g =>
    if g.ending = .dot ∨ g.ending = .up ∨ (t.at? g.location).isSome then
      (.error .alreadyExists, t)
    else (.ok (), t.put g.location .folder)

/-- A path and the folders it lies in, innermost first, down to the given depth. -/
def ancestors : Nat → Path → List Path
  | 0, _ => []
  | n + 1, p => p :: ((p.parent?.map (ancestors n)).getD [])

/-- Makes the first folder of a row whose later members are the folders it lies in. One that is
there already is fine, and the ones around it are made when they are missing. -/
def makeAll (t : FileTree) : List Path → Change
  | [] => (.ok (), t)
  | p :: around =>
    if p.text = "" then (.ok (), t)
    else
      match t.makeFolder p with
      | (.ok (), t') => (.ok (), t')
      | (.error .notFound, _) =>
        match t.makeAll around with
        | (.error fault, t') => (.error fault, t')
        | (.ok (), t') =>
          match t'.makeFolder p with
          | (.ok (), t'') => (.ok (), t'')
          | (.error fault, _) => (if t'.isFolder p then .ok () else .error fault, t')
      | (.error fault, _) => (if t.isFolder p then .ok () else .error fault, t)

/-- Makes a folder and the folders around it. -/
def makeFolders (t : FileTree) (p : Path) : Change := t.makeAll (ancestors p.segments.length p)

/-- Removes a folder that is empty. -/
def removeEmpty (t : FileTree) (p : Path) : Change :=
  match t.goal p with
  | .error fault => (.error fault, t)
  | .ok g =>
    match g.ending, t.at? g.location with
    | .dot, _ => (.error .invalidInput, t)
    | .up, _ => (.error .directoryNotEmpty, t)
    | _, none => (.error .notFound, t)
    | _, some (.file ..) => (.error .notADirectory, t)
    | _, some .folder =>
      if (t.children g.location).isEmpty then (.ok (), t.prune g.location)
      else (.error .directoryNotEmpty, t)

/-- Removes a folder with all that lies in it. What lies in it goes first, so a path that goes
back up through it no longer leads anywhere then, which is fine. -/
def removeFolder (t : FileTree) (p : Path) : Change :=
  match t.find p with
  | .error fault => (.error fault, t)
  | .ok (.file ..) => (.error .notADirectory, t)
  | .ok .folder =>
    match t.goal p with
    | .error fault => (.error fault, t)
    | .ok g =>
      let emptied := t.pruneBelow g.location
      match emptied.removeEmpty p with
      | (.error .notFound, t') => (.ok (), t')
      | r => r

end ShaderBuild.FileTree
