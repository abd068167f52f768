import ShaderBuild.Build.Operation
import ShaderBuild.Proofs.Build.Calls
import ShaderBuild.Proofs.Build.Rebuild

/-!
# Validating

Testing cleans and then validates for every shader model that the compiler supports, oldest first,
up to the first one with a failing job. A validation scans, follows the includes and gives the
compiler one job for each directive of each file, none with an output. With a compiler that writes
nothing then, all of it only looks, and what it tells is known too (`runOn_validateModels`). So
testing changes nothing but what cleaning removes (`test_compiles_all_and_keeps_nothing`), and
cleaning may leave the cache file behind (`missing_folder_keeps_cache`).
-/

namespace ShaderBuild

open FileTree

/-! ## Actions whose notices follow from the tree -/

namespace Action

variable {α β : Type} {a : Action α}

/-- What an action tells on a tree. -/
def told (a : Action α) (t : FileTree) : List Notice := (a.runOn { tree := t }).2.log

/-- The action leaves the tree and the calls as they are; its answer and what it tells follow from
the tree. -/
def Observes (a : Action α) : Prop :=
  ∀ σ, a.runOn σ = (a.answer σ.tree, { σ with log := σ.log ++ a.told σ.tree })

/-- It is enough to know the answer and the notices tree by tree. -/
theorem observes_of_tree (h : ∀ t, ∃ r ns, ∀ σ : Session, σ.tree = t →
    a.runOn σ = (r, { σ with log := σ.log ++ ns })) : Observes a := by
  intro σ
  obtain ⟨r, ns, hrun⟩ := h σ.tree
  have hanswer : a.answer σ.tree = (a.runOn { tree := σ.tree }).1 := rfl
  have htold : a.told σ.tree = (a.runOn { tree := σ.tree }).2.log := rfl
  rw [hanswer, htold, hrun σ rfl, hrun { tree := σ.tree } rfl]
  rfl

/-- An action that leaves the session as it is tells nothing. -/
theorem observes_of_quiet (r : FileTree → Except Error α) (h : ∀ σ, a.runOn σ = (r σ.tree, σ)) :
    Observes a := by
  refine observes_of_tree fun t => ⟨r t, [], ?_⟩
  rintro σ rfl
  rw [h σ, List.append_nil]

theorem observes_pure (x : α) : Observes (pure x : Action α) :=
  observes_of_quiet (fun _ => .ok x) fun _ => rfl

theorem observes_throw (e : Error) : Observes (throw e : Action α) :=
  observes_of_quiet (fun _ => .error e) fun _ => rfl

theorem observes_tree : Observes tree :=
  observes_of_quiet .ok fun _ => rfl

theorem observes_lift (r : Except Error α) : Observes (lift r) :=
  observes_of_quiet (fun _ => r) fun _ => runOn_lift r _

theorem observes_tell (n : Notice) : Observes (tell n) := fun _ => rfl

theorem Observes.bind (ha : Observes a) {f : α → Action β} (hf : ∀ x, Observes (f x)) :
    Observes (a >>= f) := by
  refine observes_of_tree fun t => ?_
  cases hanswer : a.answer t with
  | error e =>
    refine ⟨.error e, a.told t, ?_⟩
    rintro σ rfl
    have hfirst := ha σ
    rw [hanswer] at hfirst
    exact runOn_bind_of_error hfirst f
  | ok x =>
    refine ⟨(f x).answer t, a.told t ++ (f x).told t, ?_⟩
    rintro σ rfl
    have hfirst := ha σ
    rw [hanswer] at hfirst
    rw [runOn_bind_of_ok hfirst, hf x, List.append_assoc]

theorem observes_look (p : Path) (f : FileTree → Except IoFault α) : Observes (look p f) := by
  refine observes_tree.bind fun t => ?_
  split
  · exact observes_pure _
  · exact observes_throw _

end Action

open Action

variable {s : Settings} {t : FileTree} {fs : FileSet} {compiler : Compiler} {shell : Shell}

theorem FileSet.observes_scan (s : Settings) : Observes (FileSet.scan s) := by
  have hread : ∀ p, Observes (readFile s p) := fun p =>
    (observes_look p _).bind fun _ => (observes_look p _).bind fun _ =>
      (observes_lift _).bind fun _ => (observes_tell _).bind fun _ => observes_pure _
  have hall : ∀ ps fs, Observes (readAll s fs ps) := by
    intro ps
    induction ps with
    | nil => exact fun fs => observes_pure fs
    | cons p ps ih =>
      exact fun fs => (hread p).bind fun f => (observes_lift (fs.insert f)).bind fun _ => ih _
  refine observes_tree.bind fun t => ?_
  split
  · exact observes_throw _
  · exact hall _ _

/-! ## One validation -/

/-- The jobs that validate a set of files are its directives, file by file, without outputs. -/
theorem FileSet.checks_eq (fs : FileSet) : fs.checks = fs.files.flatMap fun f =>
    f.directives.map fun d => { source := f.path, directive := d, output := none } := by
  unfold checks SourceFile.jobs SourceFile.directives
  simp only [List.map_map, Bool.false_eq_true, if_false]
  rfl

namespace Compiler

/-- The compiler writes nothing when it is given a job without an output. -/
def Checks (compiler : Compiler) : Prop :=
  ∀ job t, job.output = none → (compiler job t).tree = t

/-- The failures of some jobs that are all done on one tree. -/
def failures (compiler : Compiler) (jobs : List Job) (t : FileTree) : List CompileFailure :=
  jobs.filterMap fun job => (compiler job t).failure

/-- What is told of a row of jobs that are all done on one tree. -/
def noticesOf (compiler : Compiler) (allowed : Nat) (jobs : List Job) (t : FileTree) :
    List Notice :=
  .compilingAll jobs.length (workers allowed jobs.length) ::
    jobs.flatMap fun job => (compiler job t).notices

/-- Jobs without outputs are all done on the tree that is there. -/
theorem Checks.runOn_compileAll (h : compiler.Checks) (allowed : Nat) {jobs : List Job}
    (hjobs : ∀ job ∈ jobs, job.output = none) (σ : Session) :
    (compileAll compiler allowed jobs).runOn σ
      = (.ok (jobs.map fun job => (compiler job σ.tree).failure),
        { tree := σ.tree
          log := σ.log ++ compiler.noticesOf allowed jobs σ.tree
          calls := σ.calls ++ jobs }) := by
  have hrow : ∀ (jobs : List Job) σ, (∀ job ∈ jobs, job.output = none) →
      (jobs.mapM (compile compiler)).runOn σ
        = (.ok (jobs.map fun job => (compiler job σ.tree).failure),
          { tree := σ.tree
            log := σ.log ++ jobs.flatMap fun job => (compiler job σ.tree).notices
            calls := σ.calls ++ jobs }) := by
    intro jobs
    induction jobs with
    | nil =>
      intro σ _
      simp only [List.mapM_nil, runOn_pure, List.map_nil, List.flatMap_nil, List.append_nil]
    | cons job jobs ih =>
      intro σ hjobs
      obtain ⟨hjob, hjobs⟩ := List.forall_mem_cons.1 hjobs
      have hfirst : (compile compiler job).runOn σ = (.ok (compiler job σ.tree).failure,
          { tree := σ.tree
            log := σ.log ++ (compiler job σ.tree).notices
            calls := σ.calls ++ [job] }) := by
        have hrun : (compile compiler job).runOn σ = (.ok (compiler job σ.tree).failure,
            { tree := (compiler job σ.tree).tree
              log := σ.log ++ (compiler job σ.tree).notices
              calls := σ.calls ++ [job] }) := rfl
        rw [hrun, h job σ.tree hjob]
      rw [List.mapM_cons, runOn_bind_of_ok hfirst, runOn_bind_of_ok (ih _ hjobs), runOn_pure]
      simp only [List.map_cons, List.flatMap_cons, List.append_assoc, List.singleton_append]
  unfold compileAll
  rw [runOn_bind_of_ok (runOn_tell _ _), hrow jobs _ hjobs]
  simp only [noticesOf, List.append_assoc, List.singleton_append]

end Compiler

theorem FileSet.output_of_mem_checks {job : Job} (h : job ∈ fs.checks) : job.output = none := by
  rw [checks_eq] at h
  obtain ⟨f, -, h⟩ := List.mem_flatMap.1 h
  obtain ⟨d, -, rfl⟩ := List.mem_map.1 h
  rfl

/-- A validation gives the compiler the jobs of all files, and fails if one of them does. -/
theorem runOn_validate (h : compiler.Checks) {σ : Session} {graph : IncludeGraph fs.size}
    (hscan : (FileSet.scan s).answer σ.tree = .ok fs) (hgraph : fs.graph σ.tree = .ok graph) :
    (validate compiler s).runOn σ
      = (match compiler.failures fs.checks σ.tree with
          | [] => .ok fs.checks.length
          | failures => .error (.compile failures),
        { tree := σ.tree
          log := σ.log ++ ((FileSet.scan s).told σ.tree
            ++ compiler.noticesOf s.jobs fs.checks σ.tree)
          calls := σ.calls ++ fs.checks }) := by
  have hscanned := FileSet.observes_scan s σ
  rw [hscan] at hscanned
  have hfailures : compiler.failures fs.checks σ.tree
      = (fs.checks.map fun job => (compiler job σ.tree).failure).filterMap id := by
    rw [List.filterMap_map]
    rfl
  unfold validate
  rw [runOn_bind_of_ok hscanned, runOn_bind_of_ok (runOn_tree _)]
  simp only [hgraph]
  rw [runOn_bind_of_ok (runOn_lift _ _),
    runOn_bind_of_ok (h.runOn_compileAll _ (fun _ => FileSet.output_of_mem_checks) _),
    ← hfailures, ← List.append_assoc]
  cases compiler.failures fs.checks σ.tree with
  | nil => rfl
  | cons failure failures => rfl

/-- A fault of the sources or of their includes ends a validation before any job. -/
theorem runOn_validate_fault {σ : Session} {e : Error}
    (h : (FileSet.scan s).answer σ.tree = .error e ∨
      ∃ fs, (FileSet.scan s).answer σ.tree = .ok fs ∧ fs.graph σ.tree = .error e) :
    (validate compiler s).runOn σ
      = (.error e, { σ with log := σ.log ++ (FileSet.scan s).told σ.tree }) := by
  have hscanned := FileSet.observes_scan s σ
  unfold validate
  rcases h with hscan | ⟨fs, hscan, hgraph⟩
  · rw [hscan] at hscanned
    rw [runOn_bind_of_error hscanned]
  · rw [hscan] at hscanned
    rw [runOn_bind_of_ok hscanned, runOn_bind_of_ok (runOn_tree _)]
    simp only [hgraph]
    rw [runOn_bind_of_error (runOn_lift _ _)]

/-! ## All shader models -/

/-- What is told of a shader model that is tested on a tree. -/
def testLog (shell : Shell) (s : Settings) (fs : FileSet) (t : FileTree) (m : ShaderModel) :
    List Notice :=
  .testing m s.compiler :: ((FileSet.scan s).told t
    ++ (s.compilerFor shell m).noticesOf s.jobs fs.checks t)

/-- Validating goes through the shader models up to the first one with a failing job. -/
theorem runOn_validateModels (h : ∀ m, (s.compilerFor shell m).Checks)
    {graph : IncludeGraph fs.size} (hscan : (FileSet.scan s).answer t = .ok fs)
    (hgraph : fs.graph t = .ok graph) (models : List ShaderModel) (σ : Session)
    (ht : σ.tree = t) : ∃ tested rest r, tested ++ rest = models ∧
      (validateModels shell s models).runOn σ
        = (r, { tree := t
                log := σ.log ++ tested.flatMap (testLog shell s fs t)
                calls := σ.calls ++ tested.flatMap fun _ => fs.checks }) ∧
      (rest = [] ∧ (∀ m ∈ tested, (s.compilerFor shell m).failures fs.checks t = []) ∧
          r = .ok (tested.flatMap fun _ => fs.checks).length ∨
        ∃ before m, tested = before ++ [m] ∧
          (∀ k ∈ before, (s.compilerFor shell k).failures fs.checks t = []) ∧
          (s.compilerFor shell m).failures fs.checks t ≠ [] ∧
          r = .error (.compile ((s.compilerFor shell m).failures fs.checks t))) := by
  induction models generalizing σ with
  | nil =>
    obtain ⟨tree, log, calls⟩ := σ
    obtain rfl : tree = t := ht
    refine ⟨[], [], .ok 0, rfl, ?_, .inl ⟨rfl, by simp, rfl⟩⟩
    simp only [validateModels, runOn_pure, List.flatMap_nil, List.append_nil]
  | cons m models ih =>
    subst ht
    have hfirst := runOn_validate (h m) (σ := { σ with log := σ.log ++ [.testing m s.compiler] })
      hscan hgraph
    have hlog : σ.log ++ [.testing m s.compiler] ++ ((FileSet.scan s).told σ.tree
        ++ (s.compilerFor shell m).noticesOf s.jobs fs.checks σ.tree)
          = σ.log ++ testLog shell s fs σ.tree m := by
      rw [List.append_assoc]
      rfl
    rw [hlog] at hfirst
    rw [validateModels, runOn_bind_of_ok (runOn_tell _ _)]
    cases hfailures : (s.compilerFor shell m).failures fs.checks σ.tree with
    | nil =>
      rw [hfailures] at hfirst
      obtain ⟨tested, rest, r, hmodels, hrun, hend⟩ := ih
        { tree := σ.tree
          log := σ.log ++ testLog shell s fs σ.tree m
          calls := σ.calls ++ fs.checks } rfl
      refine ⟨m :: tested, rest, r.map (fs.checks.length + ·), by rw [← hmodels]; rfl, ?_, ?_⟩
      · rw [runOn_bind_of_ok hfirst, List.flatMap_cons, List.flatMap_cons, ← List.append_assoc,
          ← List.append_assoc]
        cases r with
        | error e => rw [runOn_bind_of_error hrun]; rfl
        | ok n => rw [runOn_bind_of_ok hrun]; rfl
      -- a model that passes is put in front of what is known of the others
      · rcases hend with ⟨hrest, hclean, rfl⟩ | ⟨before, k, rfl, hclean, hfailed, rfl⟩
        · refine .inl ⟨hrest, List.forall_mem_cons.2 ⟨hfailures, hclean⟩, ?_⟩
          rw [List.flatMap_cons, List.length_append]
          rfl
        · exact .inr ⟨m :: before, k, rfl, List.forall_mem_cons.2 ⟨hfailures, hclean⟩, hfailed, rfl⟩
    | cons failure failures =>
      rw [hfailures] at hfirst
      refine ⟨[m], models, _, rfl, ?_, .inr ⟨[], m, rfl, by simp, by simp [hfailures], rfl⟩⟩
      rw [runOn_bind_of_error hfirst, hfailures, List.flatMap_singleton, List.flatMap_singleton]

/-- A fault of the sources or of their includes ends a row of validations before any job. -/
theorem runOn_validateModels_fault {σ : Session} {e : Error}
    (h : (FileSet.scan s).answer σ.tree = .error e ∨
      ∃ fs, (FileSet.scan s).answer σ.tree = .ok fs ∧ fs.graph σ.tree = .error e)
    (m : ShaderModel) (models : List ShaderModel) :
    ∃ log, (validateModels shell s (m :: models)).runOn σ = (.error e, { σ with log := log }) := by
  have hfirst : (validate (s.compilerFor shell m) s).runOn
      { σ with log := σ.log ++ [.testing m s.compiler] } = _ := runOn_validate_fault h
  rw [validateModels, runOn_bind_of_ok (runOn_tell _ _), runOn_bind_of_error hfirst]
  exact ⟨_, rfl⟩

theorem exists_supported (b : Backend) :
    ∃ m models, ShaderModel.all.filter b.supports = m :: models := by
  cases b <;> exact ⟨_, _, rfl⟩

/-- The shader models that a compiler supports are tested oldest first. -/
theorem supported_ascending (b : Backend) :
    (ShaderModel.all.filter b.supports).Pairwise (·.number < ·.number) :=
  List.Pairwise.filter _ (by decide)

theorem mem_supported_iff {b : Backend} {m : ShaderModel} :
    m ∈ ShaderModel.all.filter b.supports ↔ b.supports m = true := by
  rw [List.mem_filter]
  exact and_iff_right (by cases m <;> decide)

/-! ## Testing -/

/-- A tree is another one without the cache file and the generated folder. -/
def Without (s : Settings) (t u : FileTree) : Prop :=
  u.here = t.here ∧ ∀ l, u.at? l =
    if l = s.cachePath.locate t.here ∨ s.generatedFolder.locate t.here <+: l then none else t.at? l

/-- What cleaning leaves is the tree without the cache file and the generated folder when nothing is
left of these. -/
theorem SameOutside.without_iff {u : FileTree} (h : SameOutside s t u) :
    Without s t u ↔ Erased s u := by
  constructor
  · rintro ⟨-, hat⟩
    refine ⟨?_, fun l hl => ?_⟩
    · rw [h.here, hat, if_pos (.inl rfl)]
    · rw [h.here] at hl
      rw [hat, if_pos (.inr hl)]
  · rintro ⟨hcache, hfolder⟩
    rw [h.here] at hcache hfolder
    refine ⟨h.here, fun l => ?_⟩
    split
    · next hl =>
      rcases hl with rfl | hl
      · exact hcache
      · exact hfolder l hl
    · next hl =>
      obtain ⟨hne, hnot⟩ := not_or.1 hl
      exact h.entries l hne hnot

/-- Testing is the row of validations after cleaning, with its number of jobs as the report. -/
theorem runOn_test {σ σ₁ : Session} (hclean : (clean s).runOn σ = (.ok (), σ₁)) :
    (Operation.test.perform shell s).runOn σ =
      (((validateModels shell s (ShaderModel.all.filter s.compiler.supports)).runOn σ₁).1.map
          fun n => { compiled := n },
        ((validateModels shell s (ShaderModel.all.filter s.compiler.supports)).runOn σ₁).2) := by
  unfold Operation.perform
  rw [runOn_bind_of_ok hclean]
  rcases hmodels : (validateModels shell s (ShaderModel.all.filter s.compiler.supports)).runOn σ₁
    with ⟨e | n, σ₂⟩
  · rw [runOn_bind_of_error hmodels]
    rfl
  · rw [runOn_bind_of_ok hmodels]
    rfl

/-- **Testing compiles everything and keeps nothing.** Let the compiler write nothing for a job
without an output, and let cleaning go well. Whatever testing answers, it leaves the tree that
cleaning left. That is the tree from before without the cache file and the generated folder, exactly
when cleaning has left nothing of these; so it is when both are named by plain paths.

When the sources or their includes are at fault, the compiler is given no job. Otherwise it is given
one job without an output for each directive of each file, and that for each shader model that it
supports, oldest first, up to the first one with a failing job. The answer counts the jobs, or shows
the failures of that model. -/
theorem test_compiles_all_and_keeps_nothing
    (hshell : ∀ m job t, job.output = none →
      (shell ((Toolchain.ofSettings s m).command job) t).2 = t)
    {σ σ₁ σ' : Session} {r : Except Error Report} (hclean : (clean s).runOn σ = (.ok (), σ₁))
    (hrun : (Operation.test.perform shell s).runOn σ = (r, σ')) :
    (σ'.tree = σ₁.tree ∧ (Without s σ.tree σ'.tree ↔ Erased s σ₁.tree) ∧
      (s.cachePath.IsPlain → s.generatedFolder.IsPlain → Without s σ.tree σ'.tree)) ∧
    (∀ e, ((FileSet.scan s).answer σ₁.tree = .error e ∨ ∃ fs,
        (FileSet.scan s).answer σ₁.tree = .ok fs ∧ fs.graph σ₁.tree = .error e) →
      r = .error e ∧ σ'.calls = σ.calls) ∧
    ∀ fs graph, (FileSet.scan s).answer σ₁.tree = .ok fs → fs.graph σ₁.tree = .ok graph →
      ∃ tested rest jobs,
        jobs = (fs.files.flatMap fun f => f.directives.map fun d =>
          { source := f.path, directive := d, output := none : Job }) ∧
        (tested ++ rest).Pairwise (·.number < ·.number) ∧
        (∀ m, m ∈ tested ++ rest ↔ s.compiler.supports m = true) ∧
        σ'.calls = σ.calls ++ tested.flatMap (fun _ => jobs) ∧
        σ'.log = σ₁.log ++ tested.flatMap (testLog shell s fs σ₁.tree) ∧
        (rest = [] ∧ (∀ m ∈ tested, (s.compilerFor shell m).failures jobs σ₁.tree = []) ∧
            r = .ok { compiled := (tested.flatMap fun _ => jobs).length } ∨
          ∃ before m, tested = before ++ [m] ∧
            (∀ k ∈ before, (s.compilerFor shell k).failures jobs σ₁.tree = []) ∧
            (s.compilerFor shell m).failures jobs σ₁.tree ≠ [] ∧
            r = .error (.compile ((s.compilerFor shell m).failures jobs σ₁.tree))) := by
  have htidy : Tidy (clean s) := (tidy_deleteAt _ _).bind fun _ => tidy_deleteAt _ _
  have hcalls := htidy.calls_eq hclean
  have houtside := (clean_sameOutside s).of_runOn hclean
  have hanswer : ∀ {n : Except Error Nat} {σ₂ : Session},
      (validateModels shell s (ShaderModel.all.filter s.compiler.supports)).runOn σ₁ = (n, σ₂) →
        r = n.map (fun n => { compiled := n }) ∧ σ' = σ₂ := by
    intro n σ₂ hmodels
    rw [runOn_test hclean, hmodels] at hrun
    cases hrun
    exact ⟨rfl, rfl⟩
  have hfault : ∀ e, ((FileSet.scan s).answer σ₁.tree = .error e ∨ ∃ fs,
      (FileSet.scan s).answer σ₁.tree = .ok fs ∧ fs.graph σ₁.tree = .error e) →
      r = .error e ∧ σ'.tree = σ₁.tree ∧ σ'.calls = σ.calls := by
    intro e he
    -- an empty row of models would not come to the fault
    obtain ⟨m, models, hmodels⟩ := exists_supported s.compiler
    obtain ⟨log, hfault⟩ : ∃ log, (validateModels shell s (m :: models)).runOn σ₁
        = (.error e, { σ₁ with log := log }) := runOn_validateModels_fault he m models
    rw [← hmodels] at hfault
    obtain ⟨rfl, rfl⟩ := hanswer hfault
    exact ⟨rfl, rfl, hcalls⟩
  have hchecks : ∀ m, (s.compilerFor shell m).Checks := fun m job t hjob => hshell m job t hjob
  have htested := fun (fs : FileSet) (graph : IncludeGraph fs.size)
      (hscan : (FileSet.scan s).answer σ₁.tree = .ok fs) (hgraph : fs.graph σ₁.tree = .ok graph) =>
    runOn_validateModels hchecks hscan hgraph (ShaderModel.all.filter s.compiler.supports) σ₁ rfl
  refine ⟨?_, fun e he => ⟨(hfault e he).1, (hfault e he).2.2⟩, fun fs graph hscan hgraph => ?_⟩
  · have htree : σ'.tree = σ₁.tree := by
      cases hscan : (FileSet.scan s).answer σ₁.tree with
      | error e => exact (hfault e (.inl hscan)).2.1
      | ok fs =>
        cases hgraph : fs.graph σ₁.tree with
        | error e => exact (hfault e (.inr ⟨fs, hscan, hgraph⟩)).2.1
        | ok graph =>
          obtain ⟨tested, rest, n, -, hmodels, -⟩ := htested fs graph hscan hgraph
          rw [(hanswer hmodels).2]
    rw [htree]
    exact ⟨rfl, houtside.without_iff, fun hcache hfolder =>
      houtside.without_iff.2 (clean_erases hcache hfolder hclean)⟩
  · obtain ⟨tested, rest, n, hsplit, hmodels, hend⟩ := htested fs graph hscan hgraph
    obtain ⟨rfl, rfl⟩ := hanswer hmodels
    refine ⟨tested, rest, fs.checks, fs.checks_eq, ?_, fun m => ?_, ?_, rfl, ?_⟩
    · rw [hsplit]
      exact supported_ascending s.compiler
    · rw [hsplit]
      exact mem_supported_iff
    · rw [← hcalls]
    · rcases hend with ⟨hrest, hpassed, rfl⟩ | ⟨before, m, htested, hpassed, hfailed, rfl⟩
      · exact .inl ⟨hrest, hpassed, rfl⟩
      · exact .inr ⟨before, m, htested, hpassed, hfailed, rfl⟩

/-! ## Testing a small project -/

namespace SmallProject

/-- A program that writes nothing and fails for one profile. -/
def refusing (profile : String) : Shell := fun command t =>
  (.ended (!command.arguments.contains profile) "" "refused\n", t)

/-- Testing the small project with such a program. -/
def tested (profile : String) (s : Settings) (t : FileTree) : Except Error Report × Session :=
  (Operation.test.perform (refusing profile) s).runOn { tree := t }

theorem tested_facts : settings.cachePath.IsPlain ∧ settings.generatedFolder.IsPlain ∧
    ((clean settings).runOn { tree := littered }).1.isOk = true ∧
    (tested "" settings littered).1.toOption = some { compiled := 12 } ∧
    ((FileSet.scan settings).answer
        ((clean settings).runOn { tree := littered }).2.tree).toOption.any (fun fs =>
      (fs.graph ((clean settings).runOn { tree := littered }).2.tree).isOk) = true ∧
    (tested "ps_6_0" settings littered).1.isOk = false ∧
    (tested "ps_6_0" settings littered).2.calls.length = 6 := by
  decide +kernel

end SmallProject

theorem small_project_tested :
    ((SmallProject.tested "" SmallProject.settings SmallProject.littered).1
        = .ok { compiled := 12 } ∧
      Without SmallProject.settings SmallProject.littered
        (SmallProject.tested "" SmallProject.settings SmallProject.littered).2.tree) ∧
    ∃ (before : List ShaderModel) (m : ShaderModel) (jobs : List Job)
      (failures : List CompileFailure),
      (SmallProject.tested "ps_6_0" SmallProject.settings SmallProject.littered).2.calls
        = (before ++ [m]).flatMap (fun _ => jobs) ∧
      (SmallProject.tested "ps_6_0" SmallProject.settings SmallProject.littered).1
        = .error (.compile failures) ∧
      (SmallProject.tested "ps_6_0" SmallProject.settings SmallProject.littered).2.calls.length
        = 6 := by
  obtain ⟨hcache, hfolder, hclean, hanswer, hsources, hfailed, hlength⟩ :=
    SmallProject.tested_facts
  have hcleaned := SmallProject.runOn_of_isOk hclean
  have hwrites : ∀ profile m job t, job.output = none → (SmallProject.refusing profile
      ((Toolchain.ofSettings SmallProject.settings m).command job) t).2 = t :=
    fun _ _ _ _ _ => rfl
  have hrun : ∀ profile, (Operation.test.perform (SmallProject.refusing profile)
      SmallProject.settings).runOn { tree := SmallProject.littered }
        = ((SmallProject.tested profile SmallProject.settings SmallProject.littered).1,
          (SmallProject.tested profile SmallProject.settings SmallProject.littered).2) :=
    fun _ => rfl
  refine ⟨⟨ok_of_toOption hanswer, ?_⟩, ?_⟩
  · obtain ⟨⟨-, -, hwithout⟩, -, -⟩ :=
      test_compiles_all_and_keeps_nothing (hwrites "") hcleaned (hrun "")
    exact hwithout hcache hfolder
  · obtain ⟨-, -, htested⟩ :=
      test_compiles_all_and_keeps_nothing (hwrites "ps_6_0") hcleaned (hrun "ps_6_0")
    obtain ⟨fs, hscan, hgraph⟩ := (Option.any_eq_true _ _).1 hsources
    cases hg : fs.graph ((clean SmallProject.settings).runOn
        { tree := SmallProject.littered }).2.tree with
    | error e =>
      rw [hg] at hgraph
      cases hgraph
    | ok graph =>
      obtain ⟨tested, rest, jobs, -, -, -, hcalls, -, hend⟩ :=
        htested fs graph (ok_of_toOption hscan) hg
      rcases hend with ⟨-, -, hok⟩ | ⟨before, m, rfl, -, -, herror⟩
      · rw [hok] at hfailed
        cases hfailed
      · exact ⟨before, m, jobs, _, hcalls, herror, hlength⟩

namespace SmallProject

theorem hidden_facts : ((clean roundabout).runOn { tree := unfoldered }).1.isOk = true ∧
    (tested "" roundabout unfoldered).1.toOption = some {} ∧
    ((tested "" roundabout unfoldered).2.tree.at?
      (roundabout.cachePath.locate unfoldered.here)).isSome = true := by
  decide +kernel

end SmallProject

/-- A cache whose path leads through the generated folder is not found when that folder is missing.
Cleaning goes well then, and testing leaves the cache file. -/
theorem missing_folder_keeps_cache :
    (∀ m job t, job.output = none → (SmallProject.refusing ""
      ((Toolchain.ofSettings SmallProject.roundabout m).command job) t).2 = t) ∧
    (∃ σ, (clean SmallProject.roundabout).runOn { tree := SmallProject.unfoldered }
      = (.ok (), σ)) ∧
    (SmallProject.tested "" SmallProject.roundabout SmallProject.unfoldered).1 = .ok {} ∧
    ((SmallProject.tested "" SmallProject.roundabout SmallProject.unfoldered).2.tree.at?
      (SmallProject.roundabout.cachePath.locate SmallProject.unfoldered.here)).isSome = true ∧
    ¬Without SmallProject.roundabout SmallProject.unfoldered
      (SmallProject.tested "" SmallProject.roundabout SmallProject.unfoldered).2.tree := by
  obtain ⟨hclean, hanswer, hcache⟩ := SmallProject.hidden_facts
  refine ⟨fun _ _ _ _ => rfl, ⟨_, SmallProject.runOn_of_isOk hclean⟩, ok_of_toOption hanswer,
    hcache, ?_⟩
  rintro ⟨-, hat⟩
  rw [hat, if_pos (.inl rfl)] at hcache
  cases hcache

end ShaderBuild
