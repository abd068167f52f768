import ShaderBuild.Build.Basic
import ShaderBuild.Proofs.Cache.Deletion
import ShaderBuild.Proofs.Cache.File
import ShaderBuild.Proofs.Compiler.Law
import ShaderBuild.Proofs.Source.Scan
import ShaderBuild.Proofs.Target.Header

/-!
# The phases of a build

A build first compares the shader files with the cache (`compareFiles`, `Compared`), and unless it
stops on the way or nothing changed, it goes on to compile (`build_cases`). From there it ends in
one of four ways (`CompileEnd`): a struct is malformed and nothing is compiled, permutations fail
and the cache remembers that, all is compiled and generated and the cache remembers that, or it
stops after the compiler ran, before the cache is saved.
-/

namespace ShaderBuild

open Action FileTree

/-- The files that a build finds in a tree. -/
def FileSet.found (s : Settings) (t : FileTree) : Except Error FileSet :=
  (FileSet.scan s).answer (t.makeFolders s.generatedFolder).2

/-! ## Comparing -/

/-- A build that starts from a tree has compared the files with the cache. -/
structure Compared (s : Settings) (t : FileTree) (c : BuildCache) (fs : FileSet)
    (graph : IncludeGraph fs.size) (changed : Bool) (fs' : FileSet) (σ₁ σ₂ : Session) : Prop where
  made : t.makeFolders s.generatedFolder = (.ok (), σ₁.tree)
  loaded : (BuildCache.load s.cachePath).answer σ₁.tree = .ok c
  scanned : (FileSet.scan s).answer σ₁.tree = .ok fs
  included : fs.graph σ₁.tree = .ok graph
  diff : (c.diff s fs graph).runOn σ₁ = (.ok (changed, fs'), σ₂)

/-- A path is an output that the cache file of a tree remembers. -/
def RecordedIn (s : Settings) (t : FileTree) (o : Path) : Prop :=
  ∃ c, BuildCache.heldAt s.cachePath t = some c ∧ ∃ entry ∈ c.records, o ∈ entry.2.outputs

variable {s : Settings} {t : FileTree} {c : BuildCache} {fs fs' : FileSet} {changed : Bool}
  {graph : IncludeGraph fs.size} {σ σ' σ₁ σ₂ : Session}

/-- The cache that is loaded is empty or what the cache file held. -/
theorem held_of_loaded {u : FileTree} (h : AltersOnly (fun _ => False) t u)
    (hload : (BuildCache.load s.cachePath).answer u = .ok c) :
    c = .empty ∨ BuildCache.heldAt s.cachePath t = some c := by
  obtain ⟨c', hc', hheld⟩ := BuildCache.load_answer s.cachePath u
  rw [hload] at hc'
  cases hc'
  rwa [BuildCache.heldAt_congr h fun _ hq => hq.elim] at hheld

theorem recordedIn_of_held (hheld : c = .empty ∨ BuildCache.heldAt s.cachePath t = some c)
    {o : Path} (ho : ∃ entry ∈ c.records, o ∈ entry.2.outputs) : RecordedIn s t o := by
  rcases hheld with rfl | hheld
  · obtain ⟨entry, hentry, -⟩ := ho
    cases hentry
  · exact ⟨c, hheld, ho⟩

namespace Compared

theorem found (h : Compared s t c fs graph changed fs' σ₁ σ₂) : FileSet.found s t = .ok fs := by
  unfold FileSet.found
  rw [h.made]
  exact h.scanned

theorem altersOnly_made (h : Compared s t c fs graph changed fs' σ₁ σ₂) :
    AltersOnly (fun _ => False) t σ₁.tree := by
  have := altersOnly_makeFolders t s.generatedFolder
  rwa [h.made] at this

/-- The cache that was loaded is empty or what the cache file holds. -/
theorem held (h : Compared s t c fs graph changed fs' σ₁ σ₂) :
    c = .empty ∨ BuildCache.heldAt s.cachePath t = some c :=
  held_of_loaded h.altersOnly_made h.loaded

theorem deletes (h : Compared s t c fs graph changed fs' σ₁ σ₂) :
    Deletes (c.Doomed fs) σ₁.tree σ₂.tree := (BuildCache.diff_deletes c s fs graph).of_runOn h.diff

theorem loses (h : Compared s t c fs graph changed fs' σ₁ σ₂) :
    Loses (c.Doomed fs) t σ₂.tree := (Loses.of_altersOnly h.altersOnly_made).trans h.deletes.loses

/-- It deletes only what the cache file remembers. -/
theorem loses_recorded (h : Compared s t c fs graph changed fs' σ₁ σ₂) :
    Loses (RecordedIn s t) t σ₂.tree :=
  h.loses.mono fun _ ho => recordedIn_of_held h.held ho.recorded

end Compared

/-- What a build does before it knows whether there is something to do. -/
def compareFiles (s : Settings) : Action (Bool × FileSet) := do
  Action.changeAt s.generatedFolder (·.makeFolders s.generatedFolder)
  let cache ← BuildCache.load s.cachePath
  let fs ← FileSet.scan s
  let graph ← Action.lift (fs.graph (← Action.tree))
  cache.diff s fs graph

/-- A build compares, and goes on if something changed. -/
theorem build_eq (compiler : Compiler) (s : Settings) : build compiler s =
    compareFiles s >>= fun (changed, fs) =>
      if changed then compileStale compiler s fs
      else do
        Action.tell (.upToDate fs.size)
        return { upToDate := true } := by
  unfold build compareFiles
  simp only [bind_assoc]

/-- A comparison stops when the generated folder cannot be made, or when the files that it finds
or their includes are at fault; or it gets to compare what it loaded with what it found. -/
theorem compareFiles_phases {r : Except Error (Bool × FileSet)}
    (h : (compareFiles s).runOn σ = (r, σ')) :
    (∃ fault, (σ.tree.makeFolders s.generatedFolder).1 = .error fault ∧
      r = .error (.io s.generatedFolder fault) ∧
      σ'.tree = (σ.tree.makeFolders s.generatedFolder).2) ∨
    (∃ e, r = .error e ∧ σ.tree.makeFolders s.generatedFolder = (.ok (), σ'.tree) ∧
      ((FileSet.scan s).answer σ'.tree = .error e ∨
        ∃ fs, (FileSet.scan s).answer σ'.tree = .ok fs ∧ fs.graph σ'.tree = .error e)) ∨
    ∃ c fs, ∃ graph : IncludeGraph fs.size, ∃ σ₁,
      σ.tree.makeFolders s.generatedFolder = (.ok (), σ₁.tree) ∧
      (BuildCache.load s.cachePath).answer σ₁.tree = .ok c ∧
      (FileSet.scan s).answer σ₁.tree = .ok fs ∧ fs.graph σ₁.tree = .ok graph ∧
      (c.diff s fs graph).runOn σ₁ = (r, σ') := by
  unfold compareFiles at h
  rcases runOn_bind_cases h with ⟨e, hmade, hr⟩ | ⟨u, σ₀, hmade, h⟩
  · obtain ⟨htree, ⟨heq, -⟩ | ⟨fault, heq, hfault⟩⟩ := changeAt_cases hmade
    · cases heq
    · cases heq
      exact .inl ⟨fault, hfault, hr, htree⟩
  have hpair : σ.tree.makeFolders s.generatedFolder = (.ok (), σ₀.tree) := by
    obtain ⟨htree, ⟨-, hok⟩ | ⟨fault, heq, -⟩⟩ := changeAt_cases hmade
    · rw [htree]
      exact Prod.ext hok rfl
    · cases heq
  -- loading, scanning and the graph only look
  obtain ⟨c, hc, -⟩ := BuildCache.load_answer s.cachePath σ₀.tree
  rcases (BuildCache.looks_load s.cachePath).bind_cases h with
    ⟨e, herror, -⟩ | ⟨c', σ₃, hload, htree₃, h⟩
  · rw [hc] at herror
    cases herror
  rw [hc] at hload
  cases hload
  rcases (FileSet.looks_scan s).bind_cases h with
    ⟨e, hscan, hr, htree⟩ | ⟨fs, σ₄, hscan, htree₄, h⟩
  · rw [htree₃] at hscan htree
    rw [← htree] at hpair hscan
    exact .inr (.inl ⟨e, hr, hpair, .inl hscan⟩)
  rw [runOn_bind_of_ok (runOn_tree _)] at h
  rw [htree₃] at hscan htree₄
  rcases (looks_lift (fs.graph σ₄.tree)).bind_cases h with
    ⟨e, hgraph, hr, htree⟩ | ⟨graph, σ₁, hgraph, htree₁, h⟩
  · unfold answer at hgraph
    rw [runOn_lift, ← htree] at hgraph
    rw [htree₄] at htree
    rw [← htree] at hpair hscan
    exact .inr (.inl ⟨e, hr, hpair, .inr ⟨fs, hscan, hgraph⟩⟩)
  · unfold answer at hgraph
    rw [runOn_lift, ← htree₁] at hgraph
    rw [htree₄] at htree₁
    rw [← htree₁] at hpair hc hscan
    exact .inr (.inr ⟨c, fs, graph, σ₁, hpair, hc, hscan, hgraph, h⟩)

/-- A comparison stops on the way, or it has compared. -/
theorem compareFiles_cases {r : Except Error (Bool × FileSet)}
    (h : (compareFiles s).runOn σ = (r, σ')) :
    (∃ e, r = .error e ∧ Loses (RecordedIn s σ.tree) σ.tree σ'.tree) ∨
    ∃ c fs graph changed fs' σ₁, r = .ok (changed, fs') ∧
      Compared s σ.tree c fs graph changed fs' σ₁ σ' := by
  have hmakes := altersOnly_makeFolders σ.tree s.generatedFolder
  rcases compareFiles_phases h with ⟨fault, -, hr, htree⟩ | ⟨e, hr, hmade, -⟩ |
    ⟨c, fs, graph, σ₁, hmade, hload, hscan, hgraph, hdiff⟩
  · rw [← htree] at hmakes
    exact .inl ⟨_, hr, .of_altersOnly hmakes⟩
  · rw [hmade] at hmakes
    exact .inl ⟨e, hr, .of_altersOnly hmakes⟩
  · rw [hmade] at hmakes
    cases r with
    | error e =>
      refine .inl ⟨e, rfl, (Loses.of_altersOnly hmakes).trans ?_⟩
      refine ((BuildCache.diff_deletes c s fs graph).of_runOn hdiff).loses.mono fun o ho => ?_
      exact recordedIn_of_held (held_of_loaded hmakes hload) ho.recorded
    | ok answer =>
      obtain ⟨changed, fs'⟩ := answer
      exact .inr ⟨c, fs, graph, changed, fs', σ₁, rfl, ⟨hmade, hload, hscan, hgraph, hdiff⟩⟩

/-- Where everything is in place, the files that are found are compared with the cache. -/
theorem compareFiles_found (made : σ.tree.makeFolders s.generatedFolder = (.ok (), σ.tree))
    (loaded : (BuildCache.load s.cachePath).answer σ.tree = .ok c)
    (scanned : (FileSet.scan s).answer σ.tree = .ok fs)
    (included : fs.graph σ.tree = .ok graph) :
    ∃ log, (compareFiles s).runOn σ = (c.diff s fs graph).runOn { σ with log := log } := by
  have hmake : (changeAt s.generatedFolder (·.makeFolders s.generatedFolder)).runOn σ
      = (.ok (), σ) := by
    rw [runOn_changeAt, made]
    rfl
  obtain ⟨log₁, hload⟩ := (BuildCache.looks_load s.cachePath).runOn_eq σ
  rw [loaded] at hload
  obtain ⟨log₂, hscan⟩ := (FileSet.looks_scan s).runOn_eq { σ with log := log₁ }
  rw [scanned] at hscan
  refine ⟨log₂, ?_⟩
  unfold compareFiles
  rw [runOn_bind_of_ok hmake, runOn_bind_of_ok hload, runOn_bind_of_ok hscan,
    runOn_bind_of_ok (runOn_tree _)]
  exact runOn_bind_of_ok (by rw [runOn_lift]; exact congrArg (·, _) included) _

/-- A build stops on the way, or compares and then goes on if something changed. -/
theorem build_cases {compiler : Compiler} {r : Except Error Report}
    (h : (build compiler s).runOn σ = (r, σ')) :
    (∃ e, r = .error e ∧ Loses (RecordedIn s σ.tree) σ.tree σ'.tree) ∨
    ∃ c fs graph changed fs' σ₁ σ₂, Compared s σ.tree c fs graph changed fs' σ₁ σ₂ ∧
      (changed = false ∧ r = .ok { upToDate := true } ∧ σ'.tree = σ₂.tree ∨
        changed = true ∧ (compileStale compiler s fs').runOn σ₂ = (r, σ')) := by
  rw [build_eq] at h
  rcases runOn_bind_cases h with ⟨e, hcompare, hr⟩ | ⟨⟨changed, fs'⟩, σ₂, hcompare, h⟩
  · rcases compareFiles_cases hcompare with ⟨-, -, hloses⟩ | ⟨_, _, _, _, _, _, heq, -⟩
    · exact .inl ⟨e, hr, hloses⟩
    · cases heq
  rcases compareFiles_cases hcompare with ⟨_, heq, -⟩ | ⟨c, fs, graph, _, _, σ₁, heq, hcompared⟩
  · cases heq
  cases heq
  refine .inr ⟨c, fs, graph, changed, fs', σ₁, σ₂, hcompared, ?_⟩
  cases changed with
  | true => exact .inr ⟨rfl, h⟩
  | false =>
    simp only [Bool.false_eq_true, if_false] at h
    cases h
    exact .inl ⟨rfl, rfl, rfl⟩

/-! ## Compiling -/

/-- A cache has got into the file at a path, and nothing else has changed. -/
structure Saved (c : BuildCache) (p : Path) (t u : FileTree) : Prop where
  altersOnly : AltersOnly (· = p) t u
  read : ∃ j time, c.encode = .ok j ∧ u.read p = .ok (Text.encode j.pretty, time)

theorem Saved.heldAt {p : Path} {t u : FileTree} (h : Saved c p t u)
    (hproper : ∀ entry ∈ c.records, entry.2.modified.IsProper) :
    BuildCache.heldAt p u = some c := by
  obtain ⟨j, time, hj, hread⟩ := h.read
  exact BuildCache.heldAt_of_file hproper hj (file?_of_read hread)

/-- Before an action goes on, the cache gets into its file; or it stops and all files are as they
were. What was told stays told. -/
theorem save_bind_cases {β : Type} {p : Path} {next : Unit → Action β} {r : Except Error β}
    (h : (c.save p >>= next).runOn σ = (r, σ')) :
    (∃ e, r = .error e ∧ (∀ failures, e ≠ .compile failures) ∧
      AltersOnly (fun _ => False) σ.tree σ'.tree ∧ ∀ n ∈ σ.log, n ∈ σ'.log) ∨
    ∃ σ₁, Saved c p σ.tree σ₁.tree ∧ (∀ n ∈ σ.log, n ∈ σ₁.log) ∧
      (next ()).runOn σ₁ = (r, σ') := by
  rcases runOn_bind_cases h with ⟨e, hsave, hr⟩ | ⟨u, σ₁, hsave, h⟩
  · obtain ⟨hkept, -⟩ := (BuildCache.tidy_save _ _).of_runOn hsave
    rcases BuildCache.save_cases hsave with ⟨q, fault, heq, hrest⟩ | ⟨heq, -⟩
    · cases heq
      exact .inl ⟨_, hr, (fun failures heq => by cases heq), hrest, hkept⟩
    · cases heq
  · obtain ⟨hkept, -⟩ := (BuildCache.tidy_save _ _).of_runOn hsave
    rcases BuildCache.save_cases hsave with ⟨q, fault, heq, -⟩ | ⟨-, hrest, hread⟩
    · cases heq
    · exact .inr ⟨σ₁, ⟨hrest, hread⟩, hkept, h⟩

/-- A compilation that ends well has run all jobs without a failure, generated the headers and then
saved the cache. -/
theorem compileStale_phases {compiler : Compiler} {report : Report}
    (h : (compileStale compiler s fs).runOn σ = (.ok report, σ')) :
    ∃ ss results written σ₀ σ₁ σ₂, σ₀.tree = σ.tree ∧
      (fs.staleJobs.mapM (compile compiler)).runOn σ₀ = (.ok results, σ₁) ∧
      results.filterMap id = [] ∧ (Target.generate s ss).runOn σ₁ = (.ok written, σ₂) ∧
      Saved (.ofFiles fs) s.cachePath σ₂.tree σ'.tree := by
  unfold compileStale at h
  obtain ⟨ss, σ₁, hstructs, h⟩ := runOn_bind_ok_iff.1 h
  rw [runOn_lift] at hstructs
  obtain ⟨-, rfl⟩ := Prod.mk.inj hstructs
  obtain ⟨results, σ₂, hjobs, h⟩ := runOn_bind_ok_iff.1 h
  unfold compileAll at hjobs
  rw [runOn_bind_of_ok (runOn_tell _ _)] at hjobs
  cases hresults : results.filterMap id with
  | nil =>
    simp only [hresults] at h
    obtain ⟨written, σ₃, hgenerate, h⟩ := runOn_bind_ok_iff.1 h
    rcases save_bind_cases h with ⟨e, he, -⟩ | ⟨σ₄, hsaved, -, h⟩
    · cases he
    · rw [runOn_bind_of_ok (runOn_tell _ _), runOn_pure] at h
      cases h
      exact ⟨ss, results, written, { σ with log := σ.log ++ [_] }, σ₂, σ₃, rfl, hjobs, hresults,
        hgenerate, hsaved⟩
  | cons failure failures =>
    simp only [hresults] at h
    rcases save_bind_cases h with ⟨e, he, -⟩ | ⟨σ₃, -, -, h⟩
    · cases he
    · cases h

/-- It was told that the compiler takes over. -/
def Told (σ : Session) : Prop := ∃ jobs workers, Notice.compilingAll jobs workers ∈ σ.log

/-- How a build ends that goes on to compile. -/
inductive CompileEnd (P : Job → FileTree → List UInt8 → Prop) (s : Settings) (fs : FileSet)
    (t : FileTree) (τ : Session) : Except Error Report → Prop
  /-- A struct is malformed. -/
  | malformed {e : Error} (structs : fs.structs = .error e) (same : τ.tree = t) :
    CompileEnd P s fs t τ (.error e)
  /-- The compiler ran, but the cache was not saved. -/
  | unsaved {e : Error} {results : List (Option CompileFailure)} {v : FileTree}
    (compiled : Compiled P fs.staleJobs t v results) (rest : AltersOnly (· ∈ s.headers) v τ.tree)
    (told : Told τ) (other : ∀ failures, e ≠ .compile failures) : CompileEnd P s fs t τ (.error e)
  /-- Permutations failed, and the cache remembers that. -/
  | failed {results : List (Option CompileFailure)} {v : FileTree}
    (compiled : Compiled P fs.staleJobs t v results) (some : results.filterMap id ≠ [])
    (saved : Saved (.ofFiles (fs.markFailed (failedSources fs.staleJobs results))) s.cachePath
      v τ.tree) (told : Told τ) : CompileEnd P s fs t τ (.error (.compile (results.filterMap id)))
  /-- All is compiled and generated, and the cache remembers that. -/
  | built {ss : List Hlsl.Struct} {results : List (Option CompileFailure)} {σ σ' : Session}
    {written : Nat} (structs : fs.structs = .ok ss)
    (compiled : Compiled P fs.staleJobs t σ.tree results) (clean : results.filterMap id = [])
    (generated : (Target.generate s ss).runOn σ = (.ok written, σ'))
    (saved : Saved (.ofFiles fs) s.cachePath σ'.tree τ.tree) (told : Told τ) :
    CompileEnd P s fs t τ (.ok { compiled := fs.staleJobs.length, headersWritten := written })

theorem output_of_mem_staleJobs {job : Job} (h : job ∈ fs.staleJobs) :
    ∃ f ∈ fs.files, f.shouldCompile = true ∧ ∃ pm ∈ f.permutations,
      job = { source := f.path, directive := pm.directive, output := some pm.output } := by
  obtain ⟨f, hf, hjob⟩ := List.mem_flatMap.1 h
  obtain ⟨hf, hshould⟩ := List.mem_filter.1 hf
  obtain ⟨pm, hpm, rfl⟩ := List.mem_map.1 hjob
  exact ⟨f, hf, hshould, pm, hpm, rfl⟩

/-- The ways a build ends that goes on to compile. -/
theorem compileStale_cases {compiler : Compiler} {P : Job → FileTree → List UInt8 → Prop}
    (hcompiler : compiler.Writes P) {r : Except Error Report}
    (h : (compileStale compiler s fs).runOn σ = (r, σ')) : CompileEnd P s fs σ.tree σ' r := by
  unfold compileStale at h
  rcases runOn_bind_cases h with ⟨e, hstructs, hr⟩ | ⟨ss, σ₁, hstructs, h⟩
  · rw [runOn_lift] at hstructs
    obtain ⟨hmalformed, rfl⟩ := Prod.mk.inj hstructs
    rw [hr]
    exact .malformed hmalformed rfl
  · rw [runOn_lift] at hstructs
    obtain ⟨hwell, rfl⟩ := Prod.mk.inj hstructs
    obtain ⟨results, σ₂, hjobs, hcompiled, hlog⟩ := compile_jobs hcompiler
      (fun job hjob => by
        obtain ⟨f, -, -, pm, -, rfl⟩ := output_of_mem_staleJobs hjob
        rfl) { σ with log := σ.log ++ [.compilingAll fs.staleJobs.length
          (workers s.jobs fs.staleJobs.length)] }
    have hall : (compileAll compiler s.jobs fs.staleJobs).runOn σ = (.ok results, σ₂) := by
      unfold compileAll
      rw [runOn_bind_of_ok (runOn_tell _ _)]
      exact hjobs
    -- what was told stays told
    have htold : ∀ {τ : Session}, (∀ n ∈ σ₂.log, n ∈ τ.log) → Told τ :=
      fun hτ => ⟨_, _, hτ _ (hlog _ (List.mem_append_right _ List.mem_cons_self))⟩
    rw [runOn_bind_of_ok hall] at h
    cases hfailures : results.filterMap id with
    | nil =>
      simp only [hfailures] at h
      rcases runOn_bind_cases h with ⟨e, hgenerate, hr⟩ | ⟨written, σ₃, hgenerate, h⟩
      · obtain ⟨hkept, hother⟩ := (Target.tidy_generate s ss).of_runOn hgenerate
        rw [hr]
        exact .unsaved hcompiled ((Target.generate_altersOnly s ss).of_runOn hgenerate)
          (htold hkept) fun failures heq => hother failures (congrArg _ heq)
      · have halters := (Target.generate_altersOnly s ss).of_runOn hgenerate
        obtain ⟨hkept, -⟩ := (Target.tidy_generate s ss).of_runOn hgenerate
        rcases save_bind_cases h with ⟨e, hr, hother, hrest, hkept'⟩ | ⟨σ₄, hsaved, hkept', h⟩
        · rw [hr]
          exact .unsaved hcompiled (halters.trans (hrest.mono fun _ hp => hp.elim))
            (htold fun n hn => hkept' n (hkept n hn)) hother
        · rw [runOn_bind_of_ok (runOn_tell _ _), runOn_pure] at h
          cases h
          exact .built hwell hcompiled hfailures hgenerate hsaved
            (htold fun n hn => List.mem_append_left _ (hkept' n (hkept n hn)))
    | cons failure failures =>
      simp only [hfailures] at h
      rcases save_bind_cases h with ⟨e, hr, hother, hrest, hkept⟩ | ⟨σ₃, hsaved, hkept, h⟩
      · rw [hr]
        exact .unsaved hcompiled (hrest.mono fun _ hp => hp.elim) (htold hkept) hother
      · rw [runOn_throw] at h
        cases h
        rw [← hfailures]
        exact .failed hcompiled (by rw [hfailures]; simp) hsaved (htold hkept)

end ShaderBuild
