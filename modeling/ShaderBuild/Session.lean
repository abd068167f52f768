import ShaderBuild.Compiler.Command
import ShaderBuild.FileTree.Access
import ShaderBuild.Notice

/-!
# Actions

A build works on a file tree, hands jobs to a compiler and tells what it does. An *action* is a
step of it: it may end early with an error, and what it did up to there stays.
-/

namespace ShaderBuild

/-- The file tree, with what has been told and the jobs the compiler was given, oldest first. -/
structure Session where
  tree : FileTree
  log : List Notice := []
  calls : List Job := []

/-- A step that may change the session and may end early. -/
abbrev Action (α : Type) := ExceptT Error (StateM Session) α

namespace Action

/-- Runs an action on a session. -/
def runOn (a : Action α) (s : Session) : Except Error α × Session := a.run.run s

/-- Tells something. -/
def tell (n : Notice) : Action Unit := modify fun s => { s with log := s.log ++ [n] }

/-- The file tree. -/
def tree : Action FileTree := do return (← get).tree

/-- Goes on with a result that does not depend on the session. -/
def lift (r : Except Error α) : Action α :=
  match r with
  | .ok a => pure a
  | .error e => throw e

/-- Looks something up in the file tree on behalf of a path. -/
def look (p : Path) (f : FileTree → Except IoFault α) : Action α := do
  match f (← tree) with
  | .ok a => return a
  | .error fault => throw (.io p fault)

/-- Changes the file tree. -/
def change (f : FileTree → FileTree.Change) : Action (Except IoFault Unit) :=
  modifyGet fun s => ((f s.tree).1, { s with tree := (f s.tree).2 })

/-- Changes the file tree on behalf of a path. -/
def changeAt (p : Path) (f : FileTree → FileTree.Change) : Action Unit := do
  match ← change f with
  | .ok () => return ()
  | .error fault => throw (.io p fault)

/-- Deletes what is at a path and tells it; it is fine when nothing is there. -/
def deleteAt (p : Path) (f : FileTree → FileTree.Change) : Action Unit := do
  match ← change f with
  | .ok () => tell (.deleted p)
  | .error .notFound => return ()
  | .error fault => throw (.io p fault)

end Action

end ShaderBuild
