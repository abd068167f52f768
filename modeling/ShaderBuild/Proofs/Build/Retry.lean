import ShaderBuild.Proofs.Build.Calls
import ShaderBuild.Proofs.Build.Idle
import ShaderBuild.Proofs.Include.Resolution

/-!
# What a build tries again

A build that ends with failed permutations has saved a cache that mirrors the files, those with a
failure as not compiled (`mirrors_markFailed`). As long as what is written and deleted lies apart
from what is read (`Isolated`) and no include is taken for another file (`FileSet.Unmistaken`), the
next build finds the same files, and then it compiles exactly the files with a failure and those
that include one: `failed_build_tries_again`.
-/

namespace ShaderBuild

open Action FileTree BuildCache

/-! ## Failures and includes -/

/-- One of the jobs of a file failed. -/
def SourceFile.FailedIn (f : SourceFile) (jobs : List Job)
    (results : List (Option CompileFailure)) : Prop :=
  ∃ entry ∈ jobs.zip results, entry.1 ∈ f.jobs true ∧ entry.2.isSome = true

instance (f : SourceFile) (jobs : List Job) (results : List (Option CompileFailure)) :
    Decidable (f.FailedIn jobs results) :=
  inferInstanceAs (Decidable (∃ entry ∈ jobs.zip results, _ ∧ _))

/-- A line of a file includes a file of a set: the path in quotes, taken from the folder of the
including file and brought to normal form, is the path of the other. -/
def FileSet.Includes (fs : FileSet) (f g : SourceFile) : Prop :=
  g ∈ fs.files ∧ ∃ n text, Include.IncludedAt f.content n text ∧
    g.path = Include.resolve f.path text

/-- A job of a file failed, or one of a file that it includes, directly or not. -/
def FileSet.Affected (fs : FileSet) (jobs : List Job) (results : List (Option CompileFailure))
    (f : SourceFile) : Prop :=
  f.FailedIn jobs results ∨ ∃ g, Relation.TransGen fs.Includes f g ∧ g.FailedIn jobs results

variable {compiler : Compiler} {P : Job → FileTree → List UInt8 → Prop} {s : Settings}
  {t u : FileTree} {c : BuildCache} {fs fs' : FileSet} {graph : IncludeGraph fs.size}
  {stale : Fin fs.size → Bool} {changed : Bool} {σ σ' σ₁ σ₂ τ : Session}
  {results : List (Option CompileFailure)}

section

variable (built : fs.Built) (hgraph : fs.graph t = .ok graph) (unmistaken : fs.Unmistaken t)

include built hgraph unmistaken

/-- Without mistakes, the edges of the graph are the includes. -/
theorem FileSet.mem_direct_iff {i j : Fin fs.size} :
    j ∈ graph.direct i ↔ fs.Includes (fs.get i) (fs.get j) := by
  rw [(FileSet.direct_of_unmistaken built hgraph unmistaken i).1]
  exact (and_iff_right (FileSet.get_mem j)).symm

/-- What a file includes, directly or not, is in its closure. -/
theorem FileSet.transGen_includes_iff {i : Fin fs.size} {g : SourceFile} :
    Relation.TransGen fs.Includes (fs.get i) g ↔ ∃ j ∈ graph.closure i, fs.get j = g := by
  obtain ⟨-, hedges⟩ := FileSet.graph_ok hgraph
  constructor
  · intro h
    induction h with
    | single hfirst =>
      obtain ⟨j, hj, rfl⟩ := List.getElem_of_mem hfirst.1
      refine ⟨⟨j, hj⟩, (IncludeGraph.mem_closure_iff hedges).2 (.single ?_), rfl⟩
      exact (FileSet.mem_direct_iff built hgraph unmistaken).2 hfirst
    | tail _ hstep ih =>
      obtain ⟨k, hk, rfl⟩ := ih
      obtain ⟨j, hj, rfl⟩ := List.getElem_of_mem hstep.1
      refine ⟨⟨j, hj⟩, (IncludeGraph.mem_closure_iff hedges).2 ?_, rfl⟩
      exact ((IncludeGraph.mem_closure_iff hedges).1 hk).tail
        ((FileSet.mem_direct_iff built hgraph unmistaken).2 hstep)
  · rintro ⟨j, hj, rfl⟩
    have hreach := (IncludeGraph.mem_closure_iff hedges).1 hj
    exact hreach.lift fs.get fun a b hab =>
      (FileSet.mem_direct_iff built hgraph unmistaken).1 hab

/-- Marks from the files with a failure are those of the affected files. -/
theorem marks_iff_affected {jobs : List Job}
    (hstale : ∀ i, stale i = true ↔ (fs.get i).FailedIn jobs results) (i : Fin fs.size) :
    Marks graph stale i ↔ fs.Affected jobs results (fs.get i) := by
  unfold Marks FileSet.Affected
  simp only [hstale, FileSet.transGen_includes_iff built hgraph unmistaken]
  refine or_congr_right ⟨?_, ?_⟩
  · rintro ⟨j, hj, hfailed⟩
    exact ⟨_, ⟨j, hj, rfl⟩, hfailed⟩
  · rintro ⟨_, ⟨j, hj, rfl⟩, hfailed⟩
    exact ⟨j, hj, hfailed⟩

end

/-- The files with a failure are those whose path is among the failed sources. -/
theorem mem_failedSources_iff (hapart : fs.Apart)
    (hidentity : ∀ f ∈ fs.files, f.identity = f.path.identity) (graph : IncludeGraph fs.size)
    (stale : Fin fs.size → Bool) (results : List (Option CompileFailure)) (i : Fin fs.size) :
    (fs.get i).path ∈ failedSources (marked fs graph stale).staleJobs results ↔
      (fs.get i).FailedIn (marked fs graph stale).staleJobs results := by
  unfold failedSources
  constructor
  · intro h
    obtain ⟨⟨job, result⟩, hmem, hpath⟩ := List.mem_map.1 h
    obtain ⟨hzip, hfailed⟩ := List.mem_filter.1 hmem
    obtain ⟨j, -, pm, hpm, rfl⟩ := mem_staleJobs_marked.1 (List.of_mem_zip hzip).1
    have hsame : fs.get j = fs.get i := by
      refine hapart.eq_of_identity (FileSet.get_mem j) (FileSet.get_mem i) ?_
      rw [hidentity _ (FileSet.get_mem j), hidentity _ (FileSet.get_mem i)]
      exact congrArg Path.identity hpath
    rw [hsame] at hpm hzip
    exact ⟨_, hzip, List.mem_map.2 ⟨pm, hpm, rfl⟩, hfailed⟩
  · rintro ⟨⟨job, result⟩, hzip, hjob, hfailed⟩
    obtain ⟨pm, -, rfl⟩ := List.mem_map.1 hjob
    exact List.mem_map.2 ⟨_, List.mem_filter.2 ⟨hzip, hfailed⟩, rfl⟩

/-- Where there are failures, some file had one. -/
theorem exists_failedIn (hlength : results.length = (marked fs graph stale).staleJobs.length)
    (h : results.filterMap id ≠ []) :
    ∃ i, (fs.get i).FailedIn (marked fs graph stale).staleJobs results := by
  obtain ⟨job, failure, hmem⟩ := exists_failed_job hlength h
  obtain ⟨i, -, pm, hpm, rfl⟩ := mem_staleJobs_marked.1 (List.of_mem_zip hmem).1
  exact ⟨i, _, hmem, List.mem_map.2 ⟨pm, hpm, rfl⟩, rfl⟩

/-! ## What was saved -/

/-- The cache that was saved behind a failure mirrors the files, those that failed as not
compiled. -/
theorem mirrors_markFailed (hapart : fs.Apart) (hdone : ∀ f ∈ fs.files, f.didCompile = true)
    (graph : IncludeGraph fs.size) (stale : Fin fs.size → Bool) (paths : List Path) :
    (ofFiles ((marked fs graph stale).markFailed paths)).Mirrors fs
      fun f => f.path ∉ paths := by
  have hapart' : (marked fs graph stale).Apart := apart_marked hapart
  have hmirrors := mirrors_ofFiles (apart_markFailed hapart' paths)
  -- of what a record holds, marking and remembering failures change nothing but whether it compiled
  have hfile : ∀ i : Fin fs.size, ∃ g ∈ ((marked fs graph stale).markFailed paths).files,
      g.identity = (fs.get i).identity ∧ { g.record with didCompile := g.didCompile } =
        { (fs.get i).record with didCompile := decide ((fs.get i).path ∉ paths) } := by
    intro i
    refine ⟨_, List.mem_map.2 ⟨_, mem_marked.2 ⟨i, rfl⟩, rfl⟩, ?_⟩
    split
    · next hpath => exact ⟨rfl, by simp [SourceFile.record, SourceFile.outputs, hpath]⟩
    · next hpath =>
      exact ⟨rfl, by
        simp [SourceFile.record, SourceFile.outputs, hpath, hdone _ (FileSet.get_mem i)]⟩
  constructor
  · intro entry hentry
    obtain ⟨g, hg, hidentity⟩ := hmirrors.keys entry hentry
    obtain ⟨f, hf, rfl⟩ := List.mem_map.1 hg
    obtain ⟨i, rfl⟩ := mem_marked.1 hf
    refine ⟨fs.get i, FileSet.get_mem i, ?_⟩
    rw [← hidentity]
    split <;> rfl
  · intro f hf
    obtain ⟨i, hi, rfl⟩ := List.getElem_of_mem hf
    obtain ⟨g, hg, hidentity, hrecord⟩ := hfile ⟨i, hi⟩
    have hget := hmirrors.records g hg
    rw [hrecord, hidentity] at hget
    exact hget

theorem Saved.overwrites {p : Path} (h : Saved c p t u) : Overwrites (· = p) t u := by
  refine ⟨h.altersOnly, fun l content modified hl => ?_⟩
  by_cases heq : p.locate t.here = l
  · obtain ⟨j, time, -, hread⟩ := h.read
    have hat := at?_of_read hread
    rw [h.altersOnly.here, heq] at hat
    exact ⟨_, _, hat⟩
  · exact ⟨content, modified,
      (h.altersOnly.files l (fun q hq => by rw [hq]; exact heq) content modified).2 hl⟩

/-- Compiling the marked files and saving a cache overwrites only outputs and the cache. -/
theorem overwrites_of_saved (hcompiler : compiler.Writes P)
    (saved : Saved c s.cachePath (compiler.through (marked fs graph stale).staleJobs t) u) :
    Overwrites (· ∈ s.cachePath :: fs.files.flatMap (·.outputs)) t u := by
  have hjobs := hcompiler.overwrites_through
    (fun job (hjob : job ∈ (marked fs graph stale).staleJobs) => by
      obtain ⟨i, -, pm, -, rfl⟩ := mem_staleJobs_marked.1 hjob
      rfl) t
  refine (hjobs.mono ?_).trans (saved.overwrites.mono ?_)
  · rintro o ⟨job, hjob, ho⟩
    obtain ⟨i, -, pm, hpm, rfl⟩ := mem_staleJobs_marked.1 hjob
    obtain rfl := Option.some.inj ho
    refine List.mem_cons_of_mem _ (List.mem_flatMap.2 ⟨_, FileSet.get_mem i, ?_⟩)
    exact List.mem_map.2 ⟨pm, hpm, rfl⟩
  · rintro o rfl
    exact List.mem_cons_self

/-! ## What a build keeps apart -/

/-- In the trees in front of a build and behind it, what it writes to or may delete is no shader
file, and the target headers are not among the rest of it. -/
@[mk_iff]
structure Isolated (s : Settings) (fs : FileSet) (t u : FileTree) : Prop where
  scanned : ∀ p ∈ scannedPaths s t ++ scannedPaths s u,
    ∀ o ∈ fs.targets s ++ recordedOutputs s t, o.locate t.here ≠ p.locate t.here
  headers : ∀ p ∈ s.headers,
    ∀ o ∈ s.cachePath :: fs.files.flatMap (·.outputs) ++ recordedOutputs s t,
      o.locate t.here ≠ p.locate t.here

instance (s : Settings) (fs : FileSet) (t u : FileTree) : Decidable (Isolated s fs t u) :=
  decidable_of_iff' _ (isolated_iff s fs t u)

namespace Compared

variable (h : Compared s t c fs graph changed fs' σ₁ σ₂)

include h

/-- When a scan finds files and its source path leads to a file, that one is scanned. -/
theorem source_mem_scannedPaths {f : SourceFile} (hf : f ∈ fs.files)
    (hsource : σ₁.tree.isFile s.sourcePath = true) : s.sourcePath ∈ scannedPaths s t := by
  obtain ⟨content, modified, hfind⟩ := isFile_iff.1 hsource
  obtain ⟨paths, hwalk, hall, -⟩ := FileSet.scan_ok h.scanned
  obtain ⟨p, hp, -⟩ := exists_left_of_forall₂ hall hf
  have hpaths : paths = [s.sourcePath] := by
    rcases walk_ok_iff.1 hwalk with ⟨_, _, -, hpaths⟩ | ⟨hfolder, -⟩
    · exact hpaths
    · rw [hfolder] at hfind
      cases hfind
  rw [scannedPaths_of_walk h.made hwalk]
  obtain ⟨hmem, -⟩ := List.mem_filter.1 hp
  rw [hpaths] at hmem
  rwa [← List.mem_singleton.1 hmem]

/-- Without mistakes, an included file was scanned. -/
theorem exists_scanned_of_include (unmistaken : fs.Unmistaken σ₁.tree) {f : SourceFile}
    (hf : f ∈ fs.files) {x : Nat × String} (hx : x ∈ Include.ofText f.content) :
    ∃ p ∈ scannedPaths s t, p.locate t.here = (Include.resolve f.path x.2).locate t.here := by
  obtain ⟨i, rfl⟩ := List.get_of_mem hf
  obtain ⟨j, -, hidentity, hfile⟩ := FileSet.exists_edge_of_include h.included (i := i) hx
  have hpath := unmistaken i x.1 x.2 (Include.mem_ofText_iff.1 hx) hfile j hidentity
  obtain ⟨paths, hwalk, hall, -⟩ := FileSet.scan_ok h.scanned
  obtain ⟨p, hp, hread⟩ := exists_left_of_forall₂ hall (FileSet.get_mem j)
  refine ⟨p, ?_, ?_⟩
  · rwa [scannedPaths_of_walk h.made hwalk]
  · change p.locate t.here = (Include.resolve (fs.get i).path x.2).locate t.here
    rw [← hpath, hread.path_eq, Path.locate_normalize]

/-- Where a build is isolated and makes no mistakes, and there are files, what was found is found
again. -/
theorem again_of_isolated (hwrites : Overwrites (· ∈ fs.targets s) σ₂.tree u)
    (isolated : Isolated s fs t u) (unmistaken : fs.Unmistaken σ₁.tree) (named : t.WellNamed)
    (named' : u.WellNamed) {f : SourceFile} (hf : f ∈ fs.files) :
    u.makeFolders s.generatedFolder = (.ok (), u) ∧ (FileSet.scan s).answer u = .ok fs ∧
      fs.graph u = .ok graph := by
  have hscanned : ∀ p ∈ scannedPaths s t, ∀ o ∈ recordedOutputs s t,
      o.locate t.here ≠ p.locate t.here := fun p hp o ho =>
    isolated.scanned p (List.mem_append_left _ hp) o (List.mem_append_right _ ho)
  refine h.again_of_apart hwrites isolated.scanned
    (fun hsource => hscanned _ (h.source_mem_scannedPaths hf hsource)) (fun o ho g hg x hx => ?_)
    named named'
  obtain ⟨p, hp, hlocate⟩ := h.exists_scanned_of_include unmistaken hg hx
  rw [← hlocate]
  exact hscanned p hp o ho

/-- The target headers stay as they are. -/
theorem file?_header (hwrites : AltersOnly
      (· ∈ s.cachePath :: fs.files.flatMap (·.outputs)) σ₂.tree u)
    (isolated : Isolated s fs t u) {p : Path} (hp : p ∈ s.headers) : u.file? p = t.file? p := by
  have hloses : AltersOnly (· ∈ recordedOutputs s t) t σ₂.tree :=
    h.loses_recorded.toAltersOnly.mono fun _ ho => mem_recordedOutputs.2 ho
  refine ((hloses.mono fun o ho => List.mem_append_right _ ho).trans
    (hwrites.mono fun o ho => List.mem_append_left _ ho)).file?_eq ?_
  exact fun o ho => isolated.headers p hp o ho

end Compared

/-! ## The next build -/

/-- The jobs of marked files are those of a row of files. -/
theorem exists_staleJobs_eq (hapart : fs.Apart) (graph : IncludeGraph fs.size)
    (stale : Fin fs.size → Bool) : ∃ again : List SourceFile, again.Sublist fs.files ∧
      (∀ i, fs.get i ∈ again ↔ Marks graph stale i) ∧
      (marked fs graph stale).staleJobs = again.flatMap (·.jobs true) := by
  have hfiles : (List.finRange fs.size).map fs.get = fs.files := List.map_get_finRange fs.files
  refine ⟨((List.finRange fs.size).filter fun i =>
    stale i || (graph.closure i).any stale).map fs.get, ?_, fun i => ?_, ?_⟩
  · rw [← hfiles]
    exact List.filter_sublist.map _
  · rw [List.mem_map_of_injective hapart.get_injective, List.mem_filter, marks_iff]
    exact and_iff_right (List.mem_finRange i)
  · unfold FileSet.staleJobs marked
    rw [List.filter_map, List.flatMap_map, List.flatMap_map]
    rfl

/-- A build that loads a cache which mirrors the files compiles what is not remembered as compiled
and what includes such a file. -/
theorem calls_of_mirrors (compiler : Compiler) {compiled : SourceFile → Bool}
    {ss : List Hlsl.Struct}
    (made : τ.tree.makeFolders s.generatedFolder = (.ok (), τ.tree))
    (loaded : (BuildCache.load s.cachePath).answer τ.tree = .ok c)
    (scanned : (FileSet.scan s).answer τ.tree = .ok fs) (included : fs.graph τ.tree = .ok graph)
    (mirrors : c.Mirrors fs compiled) (structs : fs.structs = .ok ss)
    (outputs : ∀ f ∈ fs.files, compiled f = true → ∀ o ∈ f.outputs, τ.tree.has o = true)
    {i : Fin fs.size} (hi : compiled (fs.get i) = false) :
    ∃ stale : Fin fs.size → Bool, (∀ j, stale j = true ↔ compiled (fs.get j) = false) ∧
      ((build compiler s).runOn τ).2.calls = τ.calls ++ (marked fs graph stale).staleJobs := by
  obtain ⟨log, hcompare⟩ := compareFiles_found made loaded scanned included
  obtain ⟨stale, changed, log', hdiff, hstale, hchanged⟩ := diff_of_known (s := s)
    (fun _ => mirrors.known) (fun f => mirrors.orphansOf_eq) graph { τ with log := log }
  have hcompiled : ∀ j, stale j = true ↔ compiled (fs.get j) = false := by
    intro j
    rw [hstale, mirrors.locallyStale_iff (FileSet.get_mem j)]
    refine or_iff_left_of_imp ?_
    rintro ⟨o, ho, hmissing⟩
    by_contra hdone
    rw [outputs _ (FileSet.get_mem j) (by simpa using hdone) o ho] at hmissing
    cases hmissing
  have hchanged' : changed = true := by
    refine hchanged.2 ⟨_, mem_marked.2 ⟨i, rfl⟩, ?_⟩
    exact marks_iff.1 (.inl ((hcompiled i).2 hi))
  have hstructs : (marked fs graph stale).structs = .ok ss := by
    rw [FileSet.structs_congr texts_marked, structs]
  refine ⟨stale, hcompiled, ?_⟩
  rw [build_eq, runOn_bind_of_ok (hcompare.trans hdiff), hchanged']
  exact calls_compileStale hstructs

/-- **Failed permutations, and only those, are tried again.** A build that ends with failed
permutations reports exactly the failing jobs, in order, and touches no target header. When no
included file is taken for another and all outputs of the files without a failure are there, a build
that follows gives the compiler all permutations of the files that had a failure or include such a
file, directly or not, file by file and in the order of declaration. -/
theorem failed_build_tries_again (hcompiler : compiler.Writes P) {failures : List CompileFailure}
    (h : (build compiler s).runOn σ = (.error (.compile failures), σ'))
    (found : FileSet.found s σ.tree = .ok fs) (isolated : Isolated s fs σ.tree σ'.tree)
    (named : ∀ t ∈ [σ.tree, σ'.tree], t.WellNamed)
    (timed : ∀ f ∈ fs.files, f.modified.IsProper) :
    ∃ c graph fs' σ₁ σ₂, Compared s σ.tree c fs graph true fs' σ₁ σ₂ ∧
      σ'.calls = σ.calls ++ fs'.staleJobs ∧
      failures = (compiler.answers fs'.staleJobs σ₂.tree).filterMap id ∧
      (∀ p ∈ s.headers, σ'.tree.file? p = σ.tree.file? p) ∧
      (fs.Unmistaken (σ.tree.makeFolders s.generatedFolder).2 →
        (∀ f ∈ fs.files, ¬ f.FailedIn fs'.staleJobs (compiler.answers fs'.staleJobs σ₂.tree) →
          ∀ o ∈ f.outputs, σ'.tree.has o = true) →
        ∀ τ : Session, τ.tree = σ'.tree → ∃ again : List SourceFile, again.Sublist fs.files ∧
          (∀ f ∈ fs.files, f ∈ again ↔
            fs.Affected fs'.staleJobs (compiler.answers fs'.staleJobs σ₂.tree) f) ∧
          ((build compiler s).runOn τ).2.calls = τ.calls ++ again.flatMap (·.jobs true)) := by
  obtain ⟨c, fs₀, graph, fs', σ₁, σ₂, hcompared, hcalls, hcompile⟩ := build_failed h
  obtain rfl : fs₀ = fs := Except.ok.inj (hcompared.found.symm.trans found)
  obtain ⟨hnamed, hnamed'⟩ : σ.tree.WellNamed ∧ σ'.tree.WellNamed := by simpa using named
  obtain ⟨stale, -, rfl, -⟩ := diff_ok hcompared.diff
  obtain ⟨hfailures, hsome, ⟨ss, hstructs⟩, hcalls', hsaved⟩ := compileStale_failed hcompile
  rw [FileSet.structs_congr texts_marked] at hstructs
  obtain ⟨-, -, -, hapart⟩ := FileSet.scan_ok hcompared.scanned
  have hdone : ∀ f ∈ fs₀.files, f.didCompile = true := by
    intro f hf
    obtain ⟨p, hp⟩ := FileSet.readAt_of_scan hcompared.scanned hf
    exact hp.didCompile_eq
  have hwrites := overwrites_of_saved hcompiler hsaved
  refine ⟨c, graph, _, σ₁, σ₂, hcompared, hcalls'.trans (by rw [hcalls]), hfailures,
    fun p hp => hcompared.file?_header hwrites.toAltersOnly isolated hp, ?_⟩
  intro hunmistaken houtputs τ hτ
  have unmistaken : fs₀.Unmistaken σ₁.tree := by rwa [hcompared.made] at hunmistaken
  have built := FileSet.built_of_scan hcompared.scanned
  have hmirrors := mirrors_markFailed hapart hdone graph stale
    (failedSources (marked fs₀ graph stale).staleJobs
      (compiler.answers (marked fs₀ graph stale).staleJobs σ₂.tree))
  have hpaths := mem_failedSources_iff hapart built.identity_eq graph stale
    (compiler.answers (marked fs₀ graph stale).staleJobs σ₂.tree)
  obtain ⟨i, hi⟩ := exists_failedIn (compiler.length_answers _ σ₂.tree) (hfailures ▸ hsome)
  obtain ⟨hmade, hscan, hgraph⟩ := hcompared.again_of_isolated
    (hwrites.mono fun o ho => by
      rcases List.mem_cons.1 ho with rfl | ho
      · exact List.mem_cons_self
      · exact List.mem_append_right _ ho) isolated unmistaken hnamed hnamed' (FileSet.get_mem i)
  obtain ⟨j, time, hj, hsavedRead⟩ := hsaved.read
  have hloaded := load_of_saved (fun entry hentry => by
    obtain ⟨f, hf, hmodified⟩ := hmirrors.exists_of_mem hentry
    rw [hmodified]
    exact timed f hf) hj hsavedRead
  rw [← hτ] at hmade hloaded hscan hgraph
  -- what the cache remembers as not compiled is what has failed
  obtain ⟨stale', hstale', hcallsAgain⟩ := calls_of_mirrors compiler hmade hloaded
    hscan hgraph hmirrors hstructs (fun f hf hdone o ho => by
      obtain ⟨k, hk, rfl⟩ := List.getElem_of_mem hf
      rw [hτ]
      refine houtputs _ hf (fun hfailed => ?_) o ho
      exact of_decide_eq_true hdone ((hpaths ⟨k, hk⟩).2 hfailed)) (i := i)
    (by simpa using (hpaths i).2 hi)
  obtain ⟨again, hsublist, hagain, hjobs⟩ := exists_staleJobs_eq hapart graph stale'
  refine ⟨again, hsublist, fun f hf => ?_, by rw [hcallsAgain, hjobs]⟩
  obtain ⟨k, hk, rfl⟩ := List.getElem_of_mem hf
  refine (hagain ⟨k, hk⟩).trans
    (marks_iff_affected built hcompared.included unmistaken (fun j => ?_) ⟨k, hk⟩)
  rw [hstale', ← hpaths]
  simp

/-! ## A project with a broken shader -/

namespace SmallProject

/-- The plain compiler, but permutations with a certain name fail. -/
def picky : Compiler := fun job t =>
  if job.directive.name = "Broken" then
    { failure := some ⟨job.directive.name, "syntax error\n", job.source.text⟩
      notices := []
      tree := t }
  else plain job t

theorem picky_writes : picky.Writes (Gives fun d p t x => plainText? d p t = some x) where
  failure := by
    intro job o t ho hfailure
    unfold picky at hfailure ⊢
    split at hfailure
    · next hname => rw [if_pos hname]
    · next hname =>
      rw [if_neg hname]
      exact plain_computes.writes.failure job o t ho hfailure
  success := by
    intro job o t ho hfailure
    unfold picky at hfailure ⊢
    split at hfailure
    · cases hfailure
    · next hname =>
      rw [if_neg hname]
      exact plain_computes.writes.success job o t ho hfailure

/-- A broken source, one that includes it, and one that has nothing to do with it. -/
def oneBroken : FileTree := withSources
  [("a.hlsl", textFile "// ShaderCompiler. Name: A\n#include \"b.hlsl\"\n" 1),
    ("b.hlsl", textFile "// ShaderCompiler. Name: Broken\n" 1),
    ("r.hlsl", textFile "// ShaderCompiler. Name: R\n" 1)]

/-- What a build of it comes to. -/
def breakdown : Except Error Report × Session := (build picky settings).runOn { tree := oneBroken }

/-- The failures that a build ends with, if it does. -/
def failures? : Except Error Report → Option (List CompileFailure)
  | .error (.compile failures) => some failures
  | _ => none

theorem eq_of_failures? {r : Except Error Report} {failures : List CompileFailure}
    (h : failures? r = some failures) : r = .error (.compile failures) := by
  unfold failures? at h
  split at h
  · cases h
    rfl
  · cases h

theorem runOn_of_failures? {failures : List CompileFailure}
    (h : failures? breakdown.1 = some failures) :
    (build picky settings).runOn { tree := oneBroken } =
      (.error (.compile failures), breakdown.2) := by
  unfold breakdown at h ⊢
  cases hrun : (build picky settings).runOn { tree := oneBroken } with
  | mk r σ =>
    rw [hrun] at h
    exact congrArg (·, σ) (eq_of_failures? h)

theorem breakdown_facts : (failures? breakdown.1).isSome = true ∧
    (∀ t ∈ [oneBroken, breakdown.2.tree], t.WellNamed) ∧
    ((FileSet.found settings oneBroken).toOption.any fun fs => decide
      ((∀ f ∈ fs.files, f.modified.IsProper) ∧
        (∀ f ∈ fs.files, (∃ job ∈ f.jobs true, job ∈ breakdown.2.calls ∧
          job.directive.name = "Broken") ∨ ∀ o ∈ f.outputs, breakdown.2.tree.has o = true) ∧
        Isolated settings fs oneBroken breakdown.2.tree ∧
        fs.Unmistaken (oneBroken.makeFolders settings.generatedFolder).2)) = true := by
  decide +kernel

end SmallProject

theorem small_project_tries_again : ∃ fs jobs results,
    FileSet.found SmallProject.settings SmallProject.oneBroken = .ok fs ∧
    SmallProject.breakdown.1 = .error (.compile (results.filterMap id)) ∧
    ∃ again : List SourceFile, again.Sublist fs.files ∧
      (∀ f ∈ fs.files, f ∈ again ↔ fs.Affected jobs results f) ∧
      ((build SmallProject.picky SmallProject.settings).runOn
        { tree := SmallProject.breakdown.2.tree }).2.calls = again.flatMap (·.jobs true) := by
  obtain ⟨hfailures, named, hfound⟩ := SmallProject.breakdown_facts
  obtain ⟨failures, hfailures⟩ := Option.isSome_iff_exists.1 hfailures
  obtain ⟨fs, hfs, hfacts⟩ := (Option.any_eq_true _ _).1 hfound
  obtain ⟨timed, houtputs, isolated, unmistaken⟩ := of_decide_eq_true hfacts
  have hfs := ok_of_toOption hfs
  have herror := SmallProject.eq_of_failures? hfailures
  -- said of any tree, so that the build of this one is not run again
  have htries : ∀ {t : FileTree} {σ : Session},
      (build SmallProject.picky SmallProject.settings).runOn { tree := t } =
        (.error (.compile failures), σ) →
      FileSet.found SmallProject.settings t = .ok fs →
      (∀ u ∈ [t, σ.tree], u.WellNamed) → Isolated SmallProject.settings fs t σ.tree →
      fs.Unmistaken (t.makeFolders SmallProject.settings.generatedFolder).2 →
      (∀ f ∈ fs.files, (∃ job ∈ f.jobs true, job ∈ σ.calls ∧ job.directive.name = "Broken") ∨
        ∀ o ∈ f.outputs, σ.tree.has o = true) →
      ∃ jobs results, failures = results.filterMap id ∧
        ∃ again : List SourceFile, again.Sublist fs.files ∧
          (∀ f ∈ fs.files, f ∈ again ↔ fs.Affected jobs results f) ∧
          ((build SmallProject.picky SmallProject.settings).runOn { tree := σ.tree }).2.calls
            = again.flatMap (·.jobs true) := by
    intro t σ hrun hfs hnamed hisolated hunmistaken houtputs
    obtain ⟨c, graph, fs', σ₁, σ₂, -, hcalls, hfailures, -, hagain⟩ :=
      failed_build_tries_again SmallProject.picky_writes hrun hfs hisolated hnamed timed
    refine ⟨_, _, hfailures, hagain hunmistaken (fun f hf hfailed => ?_) _ rfl⟩
    refine (houtputs f hf).resolve_left ?_
    rintro ⟨job, hjob, hgiven, hname⟩
    rw [hcalls] at hgiven
    -- whatever the tree, the compiler rejects the permutation
    obtain ⟨v, hv⟩ := SmallProject.picky.mem_zip_answers hgiven σ₂.tree
    refine hfailed ⟨_, hv, hjob, ?_⟩
    unfold SmallProject.picky
    rw [if_pos hname]
    rfl
  obtain ⟨jobs, results, hresults, hagain⟩ :=
    htries (SmallProject.runOn_of_failures? hfailures) hfs named isolated unmistaken houtputs
  exact ⟨fs, jobs, results, hfs, by rw [herror, hresults], hagain⟩

namespace SmallProject

/-- A build with the picky compiler ends with failures and leaves the outputs of the other files in
place, and the headers, the outputs, those that the cache lists and the cache are different files
and none of them a shader file. -/
def Fails (s : Settings) (t : FileTree) (fs : FileSet) : Prop :=
  let first := (build picky s).runOn { tree := t }
  (failures? first.1).isSome = true ∧
    (∀ f ∈ fs.files, (∀ d ∈ f.directives, d.name ≠ "Broken") →
      ∀ o ∈ f.outputs, first.2.tree.has o = true) ∧
    ((fs.targets s ++ recordedOutputs s t).Pairwise fun o p =>
      o.locate t.here ≠ p.locate t.here) ∧
    Isolated s fs t first.2.tree

instance (s : Settings) (t : FileTree) (fs : FileSet) : Decidable (Fails s t fs) :=
  inferInstanceAs (Decidable (_ ∧ _ ∧ _ ∧ _))

/-- The jobs of the build behind it. -/
def jobsAgain (s : Settings) (t : FileTree) : List Job :=
  ((build picky s).runOn { tree := ((build picky s).runOn { tree := t }).2.tree }).2.calls

/-- A shader includes a file beside the sources that has the identity of a broken shader. -/
def mixedUp : FileTree := (withSources
  [("a.hlsl", textFile "// ShaderCompiler. Name: A\n#include \"jj.h\"\n" 1),
    ("udub.hlsl", textFile "// ShaderCompiler. Name: Broken\n" 1)]).put
  ["s", "jj.h"] (textFile "" 1)

/-- The cache lists a file that a broken shader includes. -/
def brokenInclude : FileTree := listedInclude.put ["s", "d", "a.hlsl"]
  (textFile "// ShaderCompiler. Name: Broken\n#include \"../d\\b.hlsl\"\n" 1)

theorem mixedUp_facts : ((FileSet.found settings mixedUp).toOption.any fun fs => decide
    (Fails settings mixedUp fs ∧ ∃ f ∈ fs.files, (∀ d ∈ f.directives, d.name ≠ "Broken") ∧
      (∀ g ∈ fs.files, ∀ x ∈ Include.ofText f.content, g.path ≠ Include.resolve f.path x.2) ∧
      ∃ job ∈ f.jobs true, job ∈ jobsAgain settings mixedUp)) = true := by
  decide +kernel

theorem brokenInclude_facts :
    ((FileSet.found (settingsWith "s/d" ".hlsl") brokenInclude).toOption.any fun fs => decide
      (Fails (settingsWith "s/d" ".hlsl") brokenInclude fs ∧
        ∃ f ∈ fs.files, (∃ d ∈ f.directives, d.name = "Broken") ∧
          jobsAgain (settingsWith "s/d" ".hlsl") brokenInclude = [])) = true := by
  decide +kernel

end SmallProject

/-- What the next build tries again is wrong where includes are taken for other files. A shader that
neither failed nor includes any other is compiled again, since the file that it includes has the
identity of one that failed. And a broken shader is not tried again, since the first build deletes
what it includes: a file that the cache lists, with a backslash in its name that gives it the
identity of a shader file. -/
theorem failed_build_tries_wrong_files :
    SmallProject.picky.Writes (Gives fun d p t x => plainText? d p t = some x) ∧
    (∃ fs, FileSet.found SmallProject.settings SmallProject.mixedUp = .ok fs ∧
      SmallProject.Fails SmallProject.settings SmallProject.mixedUp fs ∧
      ∃ f ∈ fs.files, (∀ d ∈ f.directives, d.name ≠ "Broken") ∧ (∀ g, ¬ fs.Includes f g) ∧
        ∃ job ∈ f.jobs true,
          job ∈ SmallProject.jobsAgain SmallProject.settings SmallProject.mixedUp) ∧
    ∃ fs, FileSet.found (SmallProject.settingsWith "s/d" ".hlsl") SmallProject.brokenInclude
        = .ok fs ∧
      SmallProject.Fails (SmallProject.settingsWith "s/d" ".hlsl") SmallProject.brokenInclude fs ∧
      ∃ f ∈ fs.files, (∃ d ∈ f.directives, d.name = "Broken") ∧
        SmallProject.jobsAgain (SmallProject.settingsWith "s/d" ".hlsl")
          SmallProject.brokenInclude = [] := by
  obtain ⟨fs, hfs, hfacts⟩ := (Option.any_eq_true _ _).1 SmallProject.mixedUp_facts
  obtain ⟨hfails, f, hf, hname, hincludes, hagain⟩ := of_decide_eq_true hfacts
  obtain ⟨fs', hfs', hfacts'⟩ := (Option.any_eq_true _ _).1 SmallProject.brokenInclude_facts
  refine ⟨SmallProject.picky_writes,
    ⟨fs, ok_of_toOption hfs, hfails, f, hf, hname, fun g hg => ?_, hagain⟩,
    fs', ok_of_toOption hfs', of_decide_eq_true hfacts'⟩
  obtain ⟨hg, n, text, hline, hpath⟩ := hg
  exact hincludes g hg (n, text) (Include.mem_ofText_iff.2 hline) hpath

end ShaderBuild
