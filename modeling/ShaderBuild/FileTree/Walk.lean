import ShaderBuild.FileTree.Access

/-!
# Walking a folder

A walk lists the files of a folder and of the folders in it, names in increasing order and each
folder's files in the place of the folder. A file is listed by its path, which goes on from the
path of the folder that was walked.

## Termination

Fewer files and folders lie below a child than below its folder (`countBelow_child_lt`).
-/

namespace ShaderBuild.FileTree

/-- The files below the folder at `l`, which `p` leads to. A folder whose name `descend` refuses
is left out with all that lies in it. -/
def filesBelow (t : FileTree) (descend : String → Bool) (p : Path) (l : Location) : List Path :=
  (t.children l).attach.flatMap fun ⟨n, _h⟩ =>
    match t.at? (l ++ [n]) with
    | some (.file ..) => [p.child n]
    | some .folder => if descend n then t.filesBelow descend (p.child n) (l ++ [n]) else []
    | none => []
termination_by t.countBelow l
decreasing_by exact countBelow_child_lt _h

/-- The files that a path leads to: itself if it leads to a file, and else the files below. -/
def walk (t : FileTree) (descend : String → Bool) (p : Path) : Except IoFault (List Path) := do
  match ← t.find p with
  | .file .. => return [p]
  | .folder => return t.filesBelow descend p (← t.goal p).location

/-- The names of the files that lie directly in the folder a path leads to; none if the path
leads to a file. -/
def filesIn (t : FileTree) (p : Path) : Except IoFault (List String) := do
  match ← t.find p with
  | .file .. => return []
  | .folder =>
    let l := (← t.goal p).location
    return (t.children l).filter fun n =>
      match t.at? (l ++ [n]) with
      | some (.file ..) => true
      | _ => false

end ShaderBuild.FileTree
