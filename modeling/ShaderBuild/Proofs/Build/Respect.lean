import ShaderBuild.Build.Operation
import ShaderBuild.Proofs.Agreement
import ShaderBuild.Proofs.Build.Phases
import ShaderBuild.Proofs.FileTree.Alike

/-!
# Builds of trees that are alike

Every phase of a build does the same to trees that are alike, and so does the whole build when the
compiler does (`build_matches`). Times count up to the comparison with the cache, since they are
saved with it; what is compiled and generated bears times of its own.
-/

namespace ShaderBuild

open Action FileTree

variable {timed : Bool}

/-! ## Comparing -/

theorem matches_makeFolders (p : Path) : Matches (Alike timed) (Alike timed) Eq
    (changeAt p (·.makeFolders p)) (changeAt p (·.makeFolders p)) :=
  matches_changeAt p fun _ _ h => ⟨(h.makeFolders p).1.symm, (h.makeFolders p).2⟩

theorem BuildCache.load_matches (p : Path) :
    Matches (Alike timed) (Alike timed) Eq (load p) (load p) := by
  refine matches_tree.bind (fun _ _ h => h) fun t u h => ?_
  rw [h.readText_eq]
  split
  · exact (matches_tell _ _).andThen fun _ => matches_pure rfl
  · exact (matches_tell _ _).andThen fun _ => matches_pure rfl
  · split
    · exact matches_pure rfl
    · exact (matches_tell _ _).andThen fun _ => matches_pure rfl

namespace FileSet

/-- A file that is read comes with its modification time. -/
theorem readFile_matches (s : Settings) (p : Path) :
    Matches (Alike true) (Alike true) Eq (readFile s p) (readFile s p) :=
  (matches_look p fun _ _ h => (h.readText_eq p).symm).andThen fun _ =>
    (matches_look p fun _ _ h => (h.read_eq p).symm).andThen fun _ =>
      (matches_lift _).andThen fun _ => (matches_tell _ _).andThen fun _ => matches_pure rfl

theorem readAll_matches (s : Settings) (fs : FileSet) (ps : List Path) :
    Matches (Alike true) (Alike true) Eq (readAll s fs ps) (readAll s fs ps) := by
  induction ps generalizing fs with
  | nil => exact matches_pure rfl
  | cons p ps ih =>
    exact (readFile_matches s p).andThen fun f => (matches_lift _).andThen fun fs' => ih fs'

theorem scan_matches (s : Settings) :
    Matches (Alike true) (Alike true) Eq (scan s) (scan s) := by
  refine matches_tree.bind (fun _ _ h => h) fun t u h => ?_
  rw [h.walk_eq]
  split
  · exact matches_throw _
  · exact readAll_matches s {} _

theorem graph_alike {t u : FileTree} (h : Alike timed t u) (fs : FileSet) :
    fs.graph u = fs.graph t := by
  have hdirect : Include.direct u fs = Include.direct t fs := by
    funext f
    unfold Include.direct Include.target
    simp only [h.isFile_eq]
  unfold graph
  rw [hdirect]

end FileSet

namespace BuildCache

theorem deleteOutputs_matches (s : Settings) (outputs : List Path) :
    Matches (Alike timed) (Alike timed) Eq (deleteOutputs s outputs)
      (deleteOutputs s outputs) := by
  unfold deleteOutputs
  split
  · exact matches_throw _
  · refine matches_forM fun o _ => matches_deleteAt o fun t u h => ?_
    exact ⟨(h.removeFile o).1.symm, (h.removeFile o).2⟩

theorem deleteRemoved_alike (s : Settings) (fs : FileSet) (records : List (UInt32 × CacheRecord)) :
    Matches (Alike timed) (Alike timed) Eq (deleteRemoved s fs records)
      (deleteRemoved s fs records) := by
  induction records with
  | nil => exact matches_pure rfl
  | cons entry rest ih =>
    rw [deleteRemoved]
    split
    · exact ih
    · exact (matches_tell _ _).andThen fun _ => (deleteOutputs_matches s _).andThen fun _ =>
        ih.andThen fun _ => matches_pure rfl

theorem staleReason?_eq {t u : FileTree} (h : Alike timed t u) (r : CacheRecord) (f : SourceFile) :
    r.staleReason? f u = r.staleReason? f t := by
  unfold CacheRecord.staleReason?
  simp only [h.has_eq]

theorem examine_alike (c : BuildCache) (s : Settings) (f : SourceFile) :
    Matches (Alike timed) (Alike timed) Eq (examine c s f) (examine c s f) := by
  -- the verdict on the file is passed on in the same way, be it new or not
  have hverdict := fun x => (looks_verdict f x).matches (R := Alike timed) fun t u _ => by
    obtain ⟨orphaned, _ | reason⟩ := x <;> rfl
  unfold examine
  split
  · exact (matches_pure rfl).andThen hverdict
  · next r hr =>
    refine (deleteOutputs_matches s _).andThen fun _ => ?_
    refine matches_tree.bind (fun _ _ h => h) fun t u h => ?_
    rw [staleReason?_eq h]
    exact (matches_pure rfl).andThen hverdict

theorem diff_alike (c : BuildCache) (s : Settings) (fs : FileSet) (graph : IncludeGraph fs.size) :
    Matches (Alike timed) (Alike timed) Eq (c.diff s fs graph) (c.diff s fs graph) := by
  have hdecide : ∀ stale i, Matches (Alike timed) (Alike timed) Eq (decide graph stale i)
      (decide graph stale i) := by
    intro stale i
    unfold decide
    dsimp only
    split
    · exact (matches_tell _ _).andThen fun _ => matches_pure rfl
    · exact matches_pure rfl
  exact (deleteRemoved_alike s fs _).andThen fun _ =>
    (matches_mapM fun f _ => examine_alike c s f).andThen fun _ =>
      (matches_mapM fun i _ => hdecide _ i).andThen fun _ => matches_pure rfl

end BuildCache

theorem compareFiles_matches (s : Settings) :
    Matches (Alike true) (Alike true) Eq (compareFiles s) (compareFiles s) := by
  refine (matches_makeFolders _).andThen fun _ => (BuildCache.load_matches _).andThen fun c =>
    (FileSet.scan_matches s).andThen fun fs => ?_
  refine matches_tree.bind (fun _ _ h => h) fun t u h => ?_
  rw [FileSet.graph_alike h]
  exact (matches_lift _).andThen fun graph => BuildCache.diff_alike c s fs graph

/-! ## Compiling and generating -/

/-- A compiler does the same in trees with the same contents: a job fails in both in the same way
or in neither, and what it writes is the same. -/
def Compiler.Deterministic (compiler : Compiler) : Prop :=
  ∀ job t u, Alike false t u → (compiler job u).failure = (compiler job t).failure ∧
    Alike false (compiler job t).tree (compiler job u).tree

/-- A program that does the same in trees with the same contents makes such a compiler. -/
theorem Toolchain.deterministic_compiler (toolchain : Toolchain) {shell : Shell}
    (h : ∀ command t u, Alike false t u → (shell command u).1 = (shell command t).1 ∧
      Alike false (shell command t).2 (shell command u).2) :
    (toolchain.compiler shell).Deterministic := by
  intro job t u halike
  obtain ⟨hexit, htree⟩ := h (toolchain.command job) t u halike
  exact ⟨congrArg (fun exit : Exit => exit.failure?.map (job.failure (toolchain.command job))) hexit,
    htree⟩

theorem compileAll_matches {compiler : Compiler} (h : compiler.Deterministic) (allowed : Nat)
    (jobs : List Job) : Matches (Alike false) (Alike false) Eq (compileAll compiler allowed jobs)
      (compileAll compiler allowed jobs) := by
  refine (matches_tell _ _).andThen fun _ => matches_mapM fun job _ σ τ halike => ?_
  obtain ⟨hfailure, htree⟩ := h job _ _ halike
  obtain ⟨σ', hσ, hσ', -⟩ := runOn_compile compiler job σ
  obtain ⟨τ', hτ, hτ', -⟩ := runOn_compile compiler job τ
  rw [hσ, hτ, hσ', hτ']
  exact ⟨.ok hfailure.symm, htree⟩

namespace Target

theorem shaderRegions_matches (s : Settings) :
    Matches (Alike timed) (Alike timed) Eq (shaderRegions s) (shaderRegions s) := by
  have hlines : ∀ names, Matches (Alike timed) (Alike timed) Eq (outputLines s names)
      (outputLines s names) := by
    intro names
    induction names with
    | nil => exact matches_pure rfl
    | cons name names ih =>
      refine (matches_look _ fun t u h => (h.readText_eq _).symm).andThen fun text => ?_
      split
      · exact matches_throw _
      · exact ih.andThen fun _ => matches_pure rfl
  refine matches_tree.bind (fun _ _ h => h) fun t u h => ?_
  rw [h.filesIn_eq]
  split
  · exact matches_throw _
  · exact (hlines _).andThen fun _ => matches_pure rfl

theorem replace_matches (p : Path) (regions : List Region) :
    Matches (Alike false) (Alike false) Eq (replace p regions) (replace p regions) := by
  have hupdate : Matches (Alike false) (Alike false) Eq (update p regions) (update p regions) := by
    refine (matches_look p fun t u h => (h.readText_eq p).symm).andThen fun old => ?_
    split
    · exact matches_throw _
    · split
      · exact (matches_tell _ _).andThen fun _ => matches_pure rfl
      · refine (matches_changeAt p fun t u h => ?_).andThen fun _ =>
          (matches_tell _ _).andThen fun _ => matches_pure rfl
        exact ⟨(h.write p _).1.symm, (h.write p _).2⟩
  refine matches_tree.bind (fun _ _ h => h) fun t u h => ?_
  rw [h.isFile_eq]
  split
  · exact (matches_throw (Q := Eq) _).andThen fun _ => hupdate
  · exact hupdate

theorem generate_matches (s : Settings) (ss : List Hlsl.Struct) :
    Matches (Alike false) (Alike false) Eq (generate s ss) (generate s ss) := by
  have hall : ∀ headers, Matches (Alike false) (Alike false) Eq (replaceAll headers)
      (replaceAll headers) := by
    intro headers
    induction headers with
    | nil => exact matches_pure rfl
    | cons header headers ih =>
      obtain ⟨p, regions⟩ := header
      exact (replace_matches p regions).andThen fun _ => ih.andThen fun _ => matches_pure rfl
  exact (shaderRegions_matches s).andThen fun _ =>
    (matches_forM fun _ _ => matches_tell _ _).andThen fun _ => hall _

end Target

theorem BuildCache.save_matches (c : BuildCache) (p : Path) :
    Matches (Alike false) (Alike false) Eq (c.save p) (c.save p) := by
  rw [save_eq]
  refine Matches.andThen ?_ fun _ => ?_
  · unfold makeAround
    split
    · exact matches_makeFolders _
    · exact matches_pure rfl
  · split
    · exact matches_throw _
    · exact matches_changeAt p fun t u h => ⟨(h.write p _).1.symm, (h.write p _).2⟩

theorem compileStale_matches {compiler : Compiler} (h : compiler.Deterministic) (s : Settings)
    (fs : FileSet) : Matches (Alike false) (Alike false) Eq (compileStale compiler s fs)
      (compileStale compiler s fs) := by
  refine (matches_lift _).andThen fun structs => (compileAll_matches h _ _).andThen fun results => ?_
  split
  · exact (Target.generate_matches s structs).andThen fun _ => (BuildCache.save_matches _ _).andThen
      fun _ => (matches_tell _ _).andThen fun _ => matches_pure rfl
  · exact (BuildCache.save_matches _ _).andThen fun _ => matches_throw _

/-- **A build does the same to trees that are alike.** -/
theorem build_matches {compiler : Compiler} (h : compiler.Deterministic) (s : Settings) :
    Matches (Alike true) (Alike false) Eq (build compiler s) (build compiler s) := by
  rw [build_eq]
  refine (compareFiles_matches s).bind (fun _ _ h => h.untimed) ?_
  rintro ⟨changed, fs⟩ _ rfl
  refine Matches.of_closer (R := Alike false) ?_ fun _ _ h => h.untimed
  cases changed with
  | true => exact compileStale_matches h s fs
  | false => exact (matches_tell _ _).andThen fun _ => matches_pure rfl

end ShaderBuild
