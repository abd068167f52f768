import ShaderBuild.FileTree.Access

/-!
# Edits from outside

What others do to a file tree between builds: files are put down with a modification time of their
own, touched, moved and discarded.

Main definitions: `touch`, `deposit`, `discard`, `move`.
-/

namespace ShaderBuild.FileTree

/-- Gives a file another modification time. The times of folders are not kept. -/
def touch (t : FileTree) (p : Path) (time : Timestamp) : Change :=
  match t.find p, t.goal p with
  | .error fault, _ | _, .error fault => (.error fault, t)
  | .ok .folder, _ => (.ok (), t)
  | .ok (.file content _), .ok g => (.ok (), t.put g.location (.file content time))

/-- Puts a file down with a modification time, in a folder that is made when it is missing. -/
def deposit (t : FileTree) (p : Path) (content : List UInt8) (time : Timestamp) : Change :=
  match t.makeFolders (p.parent?.getD ⟨""⟩) with
  | (.error fault, t) => (.error fault, t)
  | (.ok (), t) =>
    match t.write p content with
    | (.error fault, t) => (.error fault, t)
    | (.ok (), t) => t.touch p time

/-- Removes a file, or a folder with all that lies in it. -/
def discard (t : FileTree) (p : Path) : Change :=
  if t.isFolder p then t.removeFolder p else t.removeFile p

/-- Puts entries at their places, folders in front of what lies in them. -/
def putAll (t : FileTree) (entries : List (Location × Entry)) : FileTree :=
  (sortBy (fun a b => decide (a.1.length ≤ b.1.length)) entries).foldl
    (fun t (l, e) => t.put l e) t

/-- Moves a file or a folder, with the modification times. A file may take the place of a file,
and a folder that of an empty folder. -/
def move (t : FileTree) (p q : Path) : Change :=
  match t.find p, t.goal p, t.goal q with
  | .error fault, _, _ | _, .error fault, _ | _, _, .error fault => (.error fault, t)
  | .ok e, .ok source, .ok target =>
    if target.location = source.location then (.ok (), t)
    else
      match e, t.at? target.location with
      | .file .., some .folder => (.error .isADirectory, t)
      | .file .., _ => (.ok (), (t.prune source.location).put target.location e)
      | .folder, some (.file ..) => (.error .notADirectory, t)
      | .folder, there =>
        if isBelow source.location target.location then (.error .invalidInput, t)
        else if there.isSome ∧ t.children target.location ≠ [] then
          (.error .directoryNotEmpty, t)
        else
          let moved := (t.entries.filter fun m => source.location.isPrefixOf m.1).map
            fun (m, d) => (target.location ++ m.drop source.location.length, d)
          (.ok (), (t.prune source.location).putAll moved)

/-- What lies below the folder that a path leads to, by the names from there on, in no particular
order. -/
def below (t : FileTree) (p : Path) : List (Location × Entry) :=
  match t.find p, t.goal p with
  | .ok .folder, .ok g =>
    (t.entries.filter fun m => isBelow g.location m.1).map fun (m, e) =>
      (m.drop g.location.length, e)
  | _, _ => []

end ShaderBuild.FileTree
