import Mathlib.Data.List.FinRange
import Mathlib.Data.List.Flatten
import ShaderBuild.Build.Basic
import ShaderBuild.Proofs.Cache.Diff
import ShaderBuild.Proofs.Path.Location
import ShaderBuild.Proofs.Source.Scan

/-!
# The jobs of marked files

A comparison marks files, and the permutations of the marked ones become jobs
(`mem_staleJobs_marked`). When the outputs of all files are apart, so are those of the jobs
(`staleJobs_apart`). A source that is not among the failed ones had all its jobs succeed
(`result_of_not_failed`).
-/

namespace ShaderBuild

open BuildCache

variable {fs : FileSet} {graph : IncludeGraph fs.size} {stale : Fin fs.size → Bool}

/-- A comparison marks a file when it is stale or includes a stale one. -/
def Marks (graph : IncludeGraph fs.size) (stale : Fin fs.size → Bool) (i : Fin fs.size) : Prop :=
  stale i = true ∨ ∃ j ∈ graph.closure i, stale j = true

theorem marks_iff {i : Fin fs.size} :
    Marks graph stale i ↔ (stale i || (graph.closure i).any stale) = true := by
  unfold Marks
  rw [Bool.or_eq_true, List.any_eq_true]

/-- The marked files are the files of the set. -/
theorem mem_marked {f : SourceFile} : f ∈ (marked fs graph stale).files ↔ ∃ i : Fin fs.size,
    f = { fs.get i with
      shouldCompile := stale i || (graph.closure i).any stale
      dependencies := (graph.closure i).map fun j => (fs.get j).identity } := by
  unfold marked
  simp only [List.mem_map, List.mem_finRange, true_and, eq_comm]

theorem apart_marked (h : fs.Apart) : (marked fs graph stale).Apart := by
  have hfiles : (List.finRange fs.size).map fs.get = fs.files := List.map_get_finRange fs.files
  unfold FileSet.Apart at h ⊢
  rw [← hfiles, List.pairwise_map] at h
  unfold marked
  rw [List.pairwise_map]
  exact h

/-- Marking changes no outputs. -/
theorem outputs_marked :
    (marked fs graph stale).files.flatMap (·.outputs) = fs.files.flatMap (·.outputs) := by
  have hfiles : (List.finRange fs.size).map fs.get = fs.files := List.map_get_finRange fs.files
  unfold marked
  rw [← hfiles, List.flatMap_map, List.flatMap_map]
  rfl

/-- Marking changes no texts. -/
theorem texts_marked : (marked fs graph stale).texts = fs.texts := by
  have hfiles : (List.finRange fs.size).map fs.get = fs.files := List.map_get_finRange fs.files
  unfold marked FileSet.texts
  rw [← hfiles, List.map_map, List.map_map]
  rfl

/-- Marking changes nothing of what is remembered. -/
theorem ofFiles_marked : BuildCache.ofFiles (marked fs graph stale) = BuildCache.ofFiles fs := by
  have hfiles : (List.finRange fs.size).map fs.get = fs.files := List.map_get_finRange fs.files
  unfold BuildCache.ofFiles marked
  rw [← hfiles, List.foldl_map, List.foldl_map]
  rfl

/-- The jobs are the permutations of the marked files. -/
theorem mem_staleJobs_marked {job : Job} : job ∈ (marked fs graph stale).staleJobs ↔
    ∃ i, Marks graph stale i ∧ ∃ pm ∈ (fs.get i).permutations,
      job = { source := (fs.get i).path, directive := pm.directive, output := some pm.output } := by
  unfold FileSet.staleJobs SourceFile.jobs
  simp only [List.mem_flatMap, List.mem_filter, mem_marked, List.mem_map, if_true]
  constructor
  · rintro ⟨f, ⟨⟨i, rfl⟩, hshould⟩, pm, hpm, rfl⟩
    exact ⟨i, marks_iff.2 hshould, pm, hpm, rfl⟩
  · rintro ⟨i, hmarks, pm, hpm, rfl⟩
    exact ⟨_, ⟨⟨i, rfl⟩, marks_iff.1 hmarks⟩, pm, hpm, rfl⟩

/-- When all files are marked, the jobs are all their permutations. -/
theorem mem_staleJobs_of_marks (h : ∀ i, Marks graph stale i) {job : Job} :
    job ∈ (marked fs graph stale).staleJobs ↔ ∃ f ∈ fs.files, ∃ pm ∈ f.permutations,
      job = { source := f.path, directive := pm.directive, output := some pm.output } := by
  rw [mem_staleJobs_marked]
  constructor
  · rintro ⟨i, -, hjob⟩
    exact ⟨_, FileSet.get_mem i, hjob⟩
  · rintro ⟨f, hf, hjob⟩
    obtain ⟨i, hi, rfl⟩ := List.getElem_of_mem hf
    exact ⟨⟨i, hi⟩, h _, hjob⟩

/-- Jobs have outputs apart when all files do. -/
theorem staleJobs_apart {here : Location}
    (h : (fs.files.flatMap (·.outputs)).Pairwise fun o p => o.locate here ≠ p.locate here) :
    fs.staleJobs.Pairwise fun j k => ∀ o p, j.output = some o → k.output = some p →
      o.locate here ≠ p.locate here := by
  have hsub : ((fs.files.filter (·.shouldCompile)).flatMap (·.outputs)).Sublist
      (fs.files.flatMap (·.outputs)) := List.filter_sublist.flatMap _
  have houtputs : fs.staleJobs.map (·.output)
      = ((fs.files.filter (·.shouldCompile)).flatMap (·.outputs)).map some := by
    unfold FileSet.staleJobs
    rw [List.map_flatMap, List.map_flatMap]
    refine congrArg (fun f => List.flatMap f _) (funext fun f => ?_)
    unfold SourceFile.jobs SourceFile.outputs
    rw [List.map_map, List.map_map]
    rfl
  have happart : (fs.staleJobs.map (·.output)).Pairwise fun a b =>
      ∀ o p, a = some o → b = some p → o.locate here ≠ p.locate here := by
    rw [houtputs, List.pairwise_map]
    refine (h.sublist hsub).imp fun {a b} hne o p ho hp => ?_
    obtain rfl := Option.some.inj ho
    obtain rfl := Option.some.inj hp
    exact hne
  exact List.pairwise_map.1 happart

/-- A source that is not among the failed ones had all its jobs succeed. -/
theorem result_of_not_failed {jobs : List Job} {results : List (Option CompileFailure)}
    (hlength : results.length = jobs.length) {p : Path} (h : p ∉ failedSources jobs results)
    {k : Nat} {job : Job} (hk : jobs[k]? = some job) (hsource : job.source = p) :
    results[k]? = some none := by
  have hlt : k < results.length := by
    rw [hlength]
    exact (List.getElem?_eq_some_iff.1 hk).1
  cases hresult : results[k] with
  | none => rw [List.getElem?_eq_getElem hlt, hresult]
  | some failure =>
    refine absurd ?_ h
    unfold failedSources
    refine List.mem_map.2 ⟨(job, some failure), List.mem_filter.2 ⟨?_, rfl⟩, hsource⟩
    refine List.mem_of_getElem? (i := k) ?_
    rw [List.getElem?_zip_eq_some]
    exact ⟨hk, by rw [List.getElem?_eq_getElem hlt, hresult]⟩

theorem markFailed_nil (fs : FileSet) : fs.markFailed [] = fs := by
  unfold FileSet.markFailed
  simp

/-- Remembering failures keeps files apart. -/
theorem apart_markFailed (h : fs.Apart) (paths : List Path) : (fs.markFailed paths).Apart := by
  unfold FileSet.Apart at h ⊢
  unfold FileSet.markFailed
  rw [List.pairwise_map]
  refine h.imp fun {f g} hlater => ?_
  split <;> split <;> exact hlater

/-- Where there are failures, some job had one. -/
theorem exists_failed_job {jobs : List Job} {results : List (Option CompileFailure)}
    (hlength : results.length = jobs.length) (h : results.filterMap id ≠ []) :
    ∃ job failure, (job, some failure) ∈ jobs.zip results := by
  obtain ⟨failure, hfailure⟩ := List.exists_mem_of_ne_nil _ h
  obtain ⟨_, hmem, rfl⟩ := List.mem_filterMap.1 hfailure
  obtain ⟨k, hk, hget⟩ := List.getElem_of_mem hmem
  have hjob : k < jobs.length := hlength ▸ hk
  refine ⟨jobs[k], failure, List.mem_of_getElem? (i := k) ?_⟩
  rw [List.getElem?_zip_eq_some, List.getElem?_eq_getElem hk, hget]
  exact ⟨List.getElem?_eq_getElem hjob, rfl⟩

/-- Where no job failed, no source did. -/
theorem failedSources_of_clean {jobs : List Job} {results : List (Option CompileFailure)}
    (h : results.filterMap id = []) : failedSources jobs results = [] := by
  unfold failedSources
  rw [List.map_eq_nil_iff, List.filter_eq_nil_iff]
  rintro ⟨job, result⟩ hmem hsome
  obtain ⟨failure, rfl⟩ := Option.isSome_iff_exists.1 hsome
  have := List.filterMap_eq_nil_iff.1 h (some failure) (List.of_mem_zip hmem).2
  cases this

end ShaderBuild
