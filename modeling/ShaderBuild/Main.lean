import ShaderBuild.FileTree.Edit
import ShaderBuild.Program

/-!
# The command line

Takes the files that a call can see into a file tree, runs the program on it, carries out what
changed and prints what there is to show. All decisions are the program's; here is only reading
and writing.

No other program can be started from here, so a call that needs the compiler reports that.
-/

namespace ShaderBuild.Machine

/-- The tree with one more file or folder of the machine, and all that lies in it. -/
partial def takeEntry (t : FileTree) (entry : IO.FS.DirEntry) : IO FileTree := do
  let p : Path := ⟨entry.path.toString⟩
  if ← entry.path.isDir then
    (← entry.path.readDir).foldlM takeEntry (t.makeFolders p).2
  else
    let modified := (← entry.path.metadata).modified
    let content ← IO.FS.readBinFile entry.path
    return (t.deposit p content.data.toList ⟨modified.sec, modified.nsec.toNat⟩).2

/-- The tree with what lies in a folder of the machine, if there is one. -/
def takeFolder (t : FileTree) (p : Path) : IO FileTree := do
  try
    let folder ← IO.FS.realPath p.text
    (← folder.readDir).foldlM takeEntry (t.makeFolders ⟨folder.toString⟩).2
  catch _ => return t

/-- The tree with a file of the machine, if there is one. -/
def takeFile (t : FileTree) (p : Path) : IO FileTree := do
  try return (t.deposit p (← IO.FS.readBinFile p.text).data.toList ⟨0, 0⟩).2
  catch _ => return t

/-- The part of the machine that a request can see: its root folder and its configuration. -/
def visible (r : Request) : IO FileTree := do
  let here : Path := ⟨(← IO.currentDir).toString⟩
  let t := FileTree.empty (here.segments.filter (· ≠ "")) ⟨0, 0⟩
  let t ← takeFolder t (if r.root.text = "" then ⟨"."⟩ else r.root)
  match r.config with
  | some p => if t.isFile p then return t else takeFile t p
  | none => return t

/-- The text of the path to a location. -/
def pathTo (l : Location) : String := "/" ++ "/".intercalate l

/-- Makes the machine look like the second tree where the two differ. -/
def carryOut (old new : FileTree) : IO Unit := do
  let deepest := old.entries.mergeSort fun a b => decide (b.1.length ≤ a.1.length)
  for (l, e) in deepest do
    if (new.at? l).isNone then
      match e with
      | .folder => IO.FS.removeDir (pathTo l)
      | .file .. => IO.FS.removeFile (pathTo l)
  for (l, e) in new.entries.mergeSort fun a b => decide (a.1.length ≤ b.1.length) do
    match e with
    | .folder => if (old.at? l).isNone then IO.FS.createDirAll (pathTo l)
    | .file content _ =>
      if old.at? l ≠ some e then IO.FS.writeBinFile (pathTo l) content.toByteArray

/-- Reports that the program of a command cannot be started. -/
def noShell : Shell := fun _ t => (.notStarted "starting programs is not supported", t)

/-- A number of parts, a power of ten to the whole, with a point in front of its last places. -/
def decimal (parts places : Nat) : String :=
  let whole := Nat.pow 10 places
  let digits := toString (parts % whole + whole)
  toString (parts / whole) ++ "." ++ String.ofList (digits.toList.drop 1)

/-- The time of a notice: seconds in twelve columns. -/
def stamp (nanoseconds : Nat) : String :=
  let text := decimal (nanoseconds / 1000) 6
  String.ofList (List.replicate (12 - text.length) ' ') ++ text

/-- A span of time in the largest unit that it fills. -/
def span (nanoseconds : Nat) : String :=
  if nanoseconds < 1000000 then decimal (nanoseconds / 10) 2 ++ "µs"
  else if nanoseconds < 1000000000 then decimal (nanoseconds / 10000) 2 ++ "ms"
  else decimal (nanoseconds / 10000000) 2 ++ "s"

end ShaderBuild.Machine

open ShaderBuild in
/-- Runs the program with the given arguments. -/
def main (arguments : List String) : IO UInt32 := do
  let start ← IO.monoNanosNow
  let old ← match CommandLine.parse arguments with
    | .ok r => Machine.visible r
    | .error _ => pure (FileTree.empty [] ⟨0, 0⟩)
  let outcome := Program.run arguments 1 Machine.noShell old
  Machine.carryOut old outcome.tree
  let elapsed := (← IO.monoNanosNow) - start
  for n in outcome.shown do
    IO.println (n.line (Machine.stamp elapsed) (Machine.span elapsed))
  IO.eprint outcome.stderr
  return outcome.code.toUInt32
