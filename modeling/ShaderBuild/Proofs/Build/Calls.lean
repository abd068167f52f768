import ShaderBuild.Proofs.Build.Phases
import ShaderBuild.Proofs.FileTree.Overwrite

/-!
# Which jobs the compiler is given

Only compiling hands jobs to the compiler, and only it ends with failed permutations. Everything in
front of it is tidy (`tidy_compareFiles`), and so is everything behind it. Hence a build that gets
to compile gives the compiler the jobs of the marked files, in order (`calls_compileStale`), and one
that ends with failures has compared the files, has saved which of them failed, and reports what the
compiler answered to the failing jobs (`compileStale_failed`, `build_failed`).
-/

namespace ShaderBuild

open Action FileTree

/-! ## Faults of the sources -/

theorem noFailure_mapM {α β : Type} {f : α → Except Error β} {l : List α}
    (h : ∀ a ∈ l, NoFailure (f a)) : NoFailure (l.mapM f) := by
  intro failures heq
  obtain ⟨a, ha, hfa⟩ := mapM_error heq
  exact h a ha failures hfa

theorem Directive.noFailure_ofText (p : Path) (text : List Char) :
    NoFailure (Directive.ofText p text) := by
  suffices hlines : ∀ lines seen, NoFailure (Directive.ofLines p seen lines) from hlines _ _
  intro lines
  induction lines with
  | nil => exact noFailure_ok
  | cons entry lines ih =>
    intro seen
    obtain ⟨n, line⟩ := entry
    rw [ofLines]
    split
    · exact ih seen
    · split
      · next fault _ => exact noFailure_error fun _ h => by cases fault <;> cases h
      · split
        · exact noFailure_error fun _ h => by cases h
        · exact ih _

theorem FileSet.noFailure_insert (fs : FileSet) (f : SourceFile) : NoFailure (fs.insert f) := by
  unfold insert
  split
  · exact noFailure_error fun _ h => by cases h
  · split
    · exact noFailure_error fun _ h => by cases h
    · exact noFailure_ok _

theorem Include.noFailure_direct (tree : FileTree) (fs : FileSet) (f : SourceFile) :
    NoFailure (Include.direct tree fs f) := by
  refine (noFailure_mapM fun line _ => ?_).map
  unfold Include.target
  dsimp only
  split
  · split
    · exact noFailure_ok _
    · exact noFailure_error fun _ h => by cases h
  · exact noFailure_error fun _ h => by cases h

theorem FileSet.noFailure_graph (fs : FileSet) (tree : FileTree) : NoFailure (fs.graph tree) := by
  have hdirect : NoFailure ((Vector.ofFn fs.get).mapM (Include.direct tree fs)) := by
    have hlist := noFailure_mapM (l := (Vector.ofFn fs.get).toList) fun f _ =>
      Include.noFailure_direct tree fs f
    rw [← toList_mapM] at hlist
    intro failures heq
    rw [heq] at hlist
    exact hlist failures rfl
  refine hdirect.bind fun direct => ?_
  split
  · exact noFailure_ok _
  · exact noFailure_error fun _ h => by cases h

theorem Hlsl.noFailure_structs (p : Path) (text : List Char) : NoFailure (Hlsl.structs p text) := by
  have hfields : ∀ fragments, NoFailure (fieldsOf p fragments) := by
    intro fragments
    refine noFailure_mapM fun fragment _ => ?_
    unfold Field.ofFragment
    split
    · exact noFailure_ok _
    · exact noFailure_error fun _ h => by cases h
  unfold Hlsl.structs
  generalize tokens text = ts
  fun_induction structsOf p ts with
  | case1 => exact noFailure_ok _
  | case2 => exact noFailure_ok _
  | case3 => exact noFailure_ok _
  | case4 => exact (hfields _).bind fun _ => noFailure_error fun _ h => by cases h
  | case5 _ _ _ _ _ _ _ _ _ _ ih =>
    exact (hfields _).bind fun _ => ih.bind fun _ => noFailure_ok _
  | case6 _ _ _ _ _ _ _ ih => exact ih
  | case7 => exact noFailure_error fun _ h => by cases h
  | case8 _ _ _ _ _ _ ih => exact ih
  | case9 _ _ _ ih => exact ih

theorem FileSet.noFailure_structs (fs : FileSet) : NoFailure fs.structs := by
  refine (noFailure_mapM fun f _ => Hlsl.noFailure_structs f.path f.content).bind fun ss => ?_
  refine NoFailure.bind ?_ fun _ => noFailure_ok _
  unfold Hlsl.checkNames
  split
  · exact noFailure_ok _
  · exact noFailure_error fun _ h => by cases h

/-! ## Comparing is tidy -/

theorem FileSet.tidy_scan (s : Settings) : Tidy (FileSet.scan s) := by
  have hread : ∀ p, Tidy (readFile s p) := fun p =>
    (tidy_look p _).bind fun content => (tidy_look p _).bind fun _ =>
      (tidy_lift (Directive.noFailure_ofText _ content).map).bind fun _ =>
        (tidy_tell _).bind fun _ => tidy_pure _
  have hall : ∀ ps fs, Tidy (readAll s fs ps) := by
    intro ps
    induction ps with
    | nil => exact fun fs => tidy_pure fs
    | cons p ps ih =>
      exact fun fs => (hread p).bind fun f => (tidy_lift (noFailure_insert fs f)).bind fun _ => ih _
  refine tidy_tree.bind fun t => ?_
  split
  · exact tidy_throw fun _ h => by cases h
  · exact hall _ _

theorem tidy_deleteOutputs (s : Settings) (outputs : List Path) :
    Tidy (deleteOutputs s outputs) := by
  unfold deleteOutputs
  split
  · exact tidy_throw fun _ h => by cases h
  · exact tidy_forM fun o _ => tidy_deleteAt o _

namespace BuildCache

theorem tidy_load (p : Path) : Tidy (load p) := by
  refine tidy_tree.bind fun t => ?_
  split
  · exact (tidy_tell _).bind fun _ => tidy_pure _
  · exact (tidy_tell _).bind fun _ => tidy_pure _
  · split
    · exact tidy_pure _
    · exact (tidy_tell _).bind fun _ => tidy_pure _

theorem tidy_deleteRemoved (s : Settings) (fs : FileSet) (records : List (UInt32 × CacheRecord)) :
    Tidy (deleteRemoved s fs records) := by
  induction records with
  | nil => exact tidy_pure _
  | cons entry rest ih =>
    rw [deleteRemoved]
    split
    · exact ih
    · exact (tidy_tell _).bind fun _ => (tidy_deleteOutputs s _).bind fun _ =>
        ih.bind fun _ => tidy_pure _

theorem tidy_examine (c : BuildCache) (s : Settings) (f : SourceFile) : Tidy (examine c s f) := by
  unfold examine
  split
  on_goal 2 => refine (tidy_deleteOutputs s _).bind fun _ => tidy_tree.bind fun _ => ?_
  -- the verdict on the file is passed on in the same way, be it new or not
  all_goals
    refine (tidy_pure _).bind ?_
    rintro ⟨orphaned, _ | reason⟩
    · exact tidy_pure _
    · exact (tidy_tell _).bind fun _ => tidy_pure _

theorem tidy_diff (c : BuildCache) (s : Settings) (fs : FileSet) (graph : IncludeGraph fs.size) :
    Tidy (c.diff s fs graph) := by
  have hdecide : ∀ stale i, Tidy (decide graph stale i) := by
    intro stale i
    unfold decide
    dsimp only
    split
    · exact (tidy_tell _).bind fun _ => tidy_pure _
    · exact tidy_pure _
  exact (tidy_deleteRemoved s fs _).bind fun _ =>
    (tidy_mapM fun f _ => tidy_examine c s f).bind fun _ =>
      (tidy_mapM fun i _ => hdecide _ i).bind fun _ => tidy_pure _

end BuildCache

/-- Comparing hands no jobs to the compiler, and it does not end as if permutations had failed. -/
theorem tidy_compareFiles (s : Settings) : Tidy (compareFiles s) :=
  (tidy_changeAt _ _).bind fun _ => (BuildCache.tidy_load _).bind fun c =>
    (FileSet.tidy_scan s).bind fun fs => tidy_tree.bind fun t =>
      (tidy_lift (fs.noFailure_graph t)).bind fun graph => BuildCache.tidy_diff c s fs graph

/-! ## Rows of jobs -/

namespace Compiler

/-- What the compiler answers to a row of jobs, each on the tree that those in front of it leave. -/
def answers (compiler : Compiler) : List Job → FileTree → List (Option CompileFailure)
  | [], _ => []
  | job :: jobs, t => (compiler job t).failure :: answers compiler jobs (compiler job t).tree

/-- The tree that a row of jobs leaves. -/
def through (compiler : Compiler) : List Job → FileTree → FileTree
  | [], t => t
  | job :: jobs, t => through compiler jobs (compiler job t).tree

theorem length_answers (compiler : Compiler) (jobs : List Job) (t : FileTree) :
    (compiler.answers jobs t).length = jobs.length := by
  induction jobs generalizing t with
  | nil => rfl
  | cons job jobs ih => rw [answers, List.length_cons, List.length_cons, ih]

/-- Each job of a row is answered on some tree. -/
theorem mem_zip_answers (compiler : Compiler) {job : Job} {jobs : List Job} (h : job ∈ jobs)
    (t : FileTree) : ∃ v, (job, (compiler job v).failure) ∈ jobs.zip (compiler.answers jobs t) := by
  induction jobs generalizing t with
  | nil => cases h
  | cons first jobs ih =>
    rcases List.mem_cons.1 h with rfl | h
    · exact ⟨t, List.mem_cons_self⟩
    · obtain ⟨v, hv⟩ := ih h (compiler first t).tree
      exact ⟨v, List.mem_cons_of_mem _ hv⟩

/-- Jobs overwrite nothing but their outputs. -/
theorem Writes.overwrites_through {compiler : Compiler} {P : Job → FileTree → List UInt8 → Prop}
    (h : compiler.Writes P) {jobs : List Job} (houtput : ∀ job ∈ jobs, job.output.isSome)
    (t : FileTree) : Overwrites (OutputOf jobs) t (compiler.through jobs t) := by
  induction jobs generalizing t with
  | nil => exact .refl _ t
  | cons job jobs ih =>
    obtain ⟨hjob, hjobs⟩ := List.forall_mem_cons.1 houtput
    obtain ⟨o, ho⟩ := Option.isSome_iff_exists.1 hjob
    have hfirst : Overwrites (OutputOf (job :: jobs)) t (compiler job t).tree := by
      rcases h.tree_cases ho t with hsame | ⟨content, -, hwrite⟩
      · rw [hsame]
        exact .refl _ _
      · have hwritten := overwrites_write
          (S := OutputOf (job :: jobs)) ⟨job, List.mem_cons_self, ho⟩ t content
        rwa [hwrite] at hwritten
    exact hfirst.trans ((ih hjobs _).mono fun _ => OutputOf.cons)

end Compiler

variable {compiler : Compiler} {s : Settings} {fs : FileSet} {σ σ' : Session}

/-- A row of jobs is compiled in order, each job once. -/
theorem runOn_mapM_compile (compiler : Compiler) (jobs : List Job) (σ : Session) :
    ∃ log, (jobs.mapM (compile compiler)).runOn σ = (.ok (compiler.answers jobs σ.tree),
      { tree := compiler.through jobs σ.tree, log := log, calls := σ.calls ++ jobs }) := by
  induction jobs generalizing σ with
  | nil => exact ⟨σ.log, by rw [List.append_nil]; rfl⟩
  | cons job jobs ih =>
    have hfirst : (compile compiler job).runOn σ = (.ok (compiler job σ.tree).failure,
      ((compile compiler job).runOn σ).2) := rfl
    obtain ⟨log, hrest⟩ := ih ((compile compiler job).runOn σ).2
    refine ⟨log, ?_⟩
    rw [List.mapM_cons, runOn_bind_of_ok hfirst, runOn_bind_of_ok hrest,
      show σ.calls ++ job :: jobs = σ.calls ++ [job] ++ jobs by simp]
    rfl

/-- The compiler is given each job of a row, in order. -/
theorem runOn_compileAll (compiler : Compiler) (allowed : Nat) (jobs : List Job) (σ : Session) :
    ∃ log, (compileAll compiler allowed jobs).runOn σ = (.ok (compiler.answers jobs σ.tree),
      { tree := compiler.through jobs σ.tree, log := log, calls := σ.calls ++ jobs }) := by
  unfold compileAll
  rw [runOn_bind_of_ok (runOn_tell _ _)]
  exact runOn_mapM_compile compiler jobs _

/-! ## Builds that compile -/

/-- What goes on behind the compiler when nothing has failed. -/
theorem tidy_conclude (s : Settings) (fs : FileSet) (ss : List Hlsl.Struct) : Tidy (do
    let written ← Target.generate s ss
    (BuildCache.ofFiles fs).save s.cachePath
    Action.tell (.built fs.staleJobs.length written)
    return ({ compiled := fs.staleJobs.length, headersWritten := written } : Report)) :=
  (Target.tidy_generate s ss).bind fun _ => (BuildCache.tidy_save _ _).bind fun _ =>
    (tidy_tell _).bind fun _ => tidy_pure _

/-- Once the structs are read, the compiler is given the jobs of the marked files, in order. -/
theorem calls_compileStale {ss : List Hlsl.Struct} (hstructs : fs.structs = .ok ss) :
    ((compileStale compiler s fs).runOn σ).2.calls = σ.calls ++ fs.staleJobs := by
  obtain ⟨log, hall⟩ := runOn_compileAll compiler s.jobs fs.staleJobs σ
  unfold compileStale
  rw [hstructs, runOn_bind_of_ok (runOn_lift _ _), runOn_bind_of_ok hall]
  split
  · exact ((tidy_conclude s fs ss) _).2.1
  · rw [runOn_bind]
    have hsave := BuildCache.tidy_save (BuildCache.ofFiles (fs.markFailed
      (failedSources fs.staleJobs (compiler.answers fs.staleJobs σ.tree)))) s.cachePath
      { tree := compiler.through fs.staleJobs σ.tree, log, calls := σ.calls ++ fs.staleJobs }
    split
    · next hrun =>
      rw [hrun] at hsave
      exact hsave.2.1
    · next hrun =>
      rw [hrun] at hsave
      exact hsave.2.1

/-- Compiling that ends with failures reports what the compiler answered to the failing jobs, and
has saved which files failed. -/
theorem compileStale_failed {failures : List CompileFailure}
    (h : (compileStale compiler s fs).runOn σ = (.error (.compile failures), σ')) :
    failures = (compiler.answers fs.staleJobs σ.tree).filterMap id ∧ failures ≠ [] ∧
      (∃ ss, fs.structs = .ok ss) ∧ σ'.calls = σ.calls ++ fs.staleJobs ∧
      Saved (.ofFiles (fs.markFailed (failedSources fs.staleJobs
        (compiler.answers fs.staleJobs σ.tree)))) s.cachePath
        (compiler.through fs.staleJobs σ.tree) σ'.tree := by
  have hcalls := @calls_compileStale compiler s fs σ
  rw [h] at hcalls
  unfold compileStale at h
  cases hstructs : fs.structs with
  | error e =>
    rw [hstructs] at h
    rcases runOn_bind_cases h with ⟨e', hlift, heq⟩ | ⟨ss, σ₁, hlift, -⟩
    · rw [runOn_lift] at hlift
      cases hlift
      cases heq
      exact absurd hstructs (fs.noFailure_structs failures)
    · rw [runOn_lift] at hlift
      cases hlift
  | ok ss =>
    obtain ⟨log, hall⟩ := runOn_compileAll compiler s.jobs fs.staleJobs σ
    rw [hstructs, runOn_bind_of_ok (runOn_lift _ _), runOn_bind_of_ok hall] at h
    cases hfailures : (compiler.answers fs.staleJobs σ.tree).filterMap id with
    | nil =>
      simp only [hfailures] at h
      exact absurd rfl (((tidy_conclude s fs ss).of_runOn h).2 failures)
    | cons failure rest =>
      simp only [hfailures] at h
      rcases save_bind_cases h with ⟨e, heq, hother, -⟩ | ⟨σ₁, hsaved, -, hthrow⟩
      · cases heq
        exact absurd rfl (hother failures)
      · rw [runOn_throw] at hthrow
        cases hthrow
        exact ⟨rfl, by simp, ⟨ss, rfl⟩, hcalls hstructs, hsaved⟩

/-- A build that ends with failures has compared the files and gone on to compile. -/
theorem build_failed {failures : List CompileFailure}
    (h : (build compiler s).runOn σ = (.error (.compile failures), σ')) :
    ∃ c fs graph fs' σ₁ σ₂, Compared s σ.tree c fs graph true fs' σ₁ σ₂ ∧
      σ₂.calls = σ.calls ∧
      (compileStale compiler s fs').runOn σ₂ = (.error (.compile failures), σ') := by
  rw [build_eq] at h
  rcases runOn_bind_cases h with ⟨e, hcompare, heq⟩ | ⟨⟨changed, fs'⟩, σ₂, hcompare, h⟩
  · cases heq
    exact absurd rfl (((tidy_compareFiles s).of_runOn hcompare).2 failures)
  rcases compareFiles_cases hcompare with ⟨_, heq, -⟩ | ⟨c, fs, graph, _, _, σ₁, heq, hcompared⟩
  · cases heq
  cases heq
  cases changed with
  | true =>
    exact ⟨c, fs, graph, fs', σ₁, σ₂, hcompared, (tidy_compareFiles s).calls_eq hcompare, h⟩
  | false =>
    simp only [Bool.false_eq_true, if_false] at h
    cases h

end ShaderBuild
