import ShaderBuild.Cache.Record
import ShaderBuild.Include.Graph
import ShaderBuild.Session

/-!
# What changed since the last build

The records of the last build are compared with the files of a scan. A file is *stale* when its
record does not vouch for its outputs, and it is compiled when it is stale or includes a stale
file, directly or not. Outputs that nothing produces any more are deleted, but only files that
bear the extension of generated ones.

Main definitions: `CacheRecord.staleReason?`, `BuildCache.diff`.
-/

namespace ShaderBuild

/-- Why a record does not vouch for the outputs of a file, if it does not. -/
def CacheRecord.staleReason? (r : CacheRecord) (f : SourceFile) (tree : FileTree) :
    Option StaleReason :=
  if !r.didCompile then some .failedBefore
  else if r.modified ≠ f.modified then some .modified
  else if !r.path.sameAs f.path then some (.sharesIdentity r.path)
  else ((r.outputs ++ f.outputs).find? fun o => !tree.has o).map .missingOutput

/-- Deletes outputs, if all of them have the extension of generated files. -/
def deleteOutputs (s : Settings) (outputs : List Path) : Action Unit := do
  match outputs.find? fun o => !s.isGenerated o with
  | some p => throw (.unknownOutputExtension p)
  | none => outputs.forM fun o => Action.deleteAt o (·.removeFile o)

namespace BuildCache

/-- Deletes the outputs of the records whose files are gone; tells whether there are any. -/
def deleteRemoved (s : Settings) (fs : FileSet) :
    List (UInt32 × CacheRecord) → Action Bool
  | [] => return false
  | (key, r) :: rest => do
    if (fs.get? key).isSome then deleteRemoved s fs rest
    else
      Action.tell (.sourceRemoved r.path)
      deleteOutputs s r.outputs
      let _ ← deleteRemoved s fs rest
      return true

/-- The recorded outputs of a file that it no longer has. -/
def orphans (r : CacheRecord) (f : SourceFile) : List Path :=
  r.outputs.filter fun o => !f.outputs.any o.sameAs

/-- Deletes the orphaned outputs of a file; tells whether there are any, and whether the file is
stale. -/
def examine (c : BuildCache) (s : Settings) (f : SourceFile) : Action (Bool × Bool) := do
  let (orphaned, reason) ←
    match c.get? f.identity with
    | none => pure (false, some .isNew)
    | some r => do
      let gone := orphans r f
      deleteOutputs s gone
      pure (!gone.isEmpty, r.staleReason? f (← Action.tree))
  match reason with
  | none => return (orphaned, false)
  | some reason =>
    Action.tell (.stale f.path reason)
    return (orphaned, true)

/-- Tells whether a file is to be compiled, when `stale` says which files are stale. -/
def decide {fs : FileSet} (graph : IncludeGraph fs.size) (stale : Fin fs.size → Bool)
    (i : Fin fs.size) : Action Bool := do
  let reached := !stale i && (graph.closure i).any stale
  if reached then Action.tell (.includesChanged (fs.get i).path)
  return stale i || reached

/-- Compares the records with the files of a scan: deletes the outputs that nothing produces any
more and marks the files to compile. Tells whether anything changed. -/
def diff (c : BuildCache) (s : Settings) (fs : FileSet) (graph : IncludeGraph fs.size) :
    Action (Bool × FileSet) := do
  let removed ← deleteRemoved s fs c.records
  let examined ← fs.files.mapM (examine c s)
  let stale : Fin fs.size → Bool := fun i => (examined[i]?.map (·.2)).getD false
  let compile ← (List.finRange fs.size).mapM (decide graph stale)
  let marked := (List.finRange fs.size).zipWith (fun i should =>
    { fs.get i with
      shouldCompile := should
      dependencies := (graph.closure i).map fun j => (fs.get j).identity }) compile
  return (removed || examined.any (·.1) || compile.any id, ⟨marked⟩)

end BuildCache

end ShaderBuild
