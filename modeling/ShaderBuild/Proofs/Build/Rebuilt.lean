import ShaderBuild.Proofs.Build.Jobs
import ShaderBuild.Proofs.Build.Scanned

/-!
# Builds that compile

A build that is not stopped compares the files with the cache, compiles those it marked and then
writes to nothing but the headers and the cache (`Rebuilt`). One that finds everything up to date is
of this kind, with nothing marked. None of this changes the sources of a file
(`Rebuilt.sameSources`); the outputs of a marked file come from its jobs (`Rebuilt.read_of_marks`),
and those of any other file are left alone (`Rebuilt.content?_of_not_marks`).

Main statement: `build_end` lists how a build can end.
-/

namespace ShaderBuild

open FileTree BuildCache

/-- A build that starts from `t` and ends with `u` has compared the files with a cache, compiled the
marked ones and written some of the headers and the cache. -/
structure Rebuilt (P : Job → FileTree → List UInt8 → Prop) (s : Settings) (t : FileTree)
    (c : BuildCache) (fs : FileSet) (graph : IncludeGraph fs.size) (stale : Fin fs.size → Bool)
    (changed : Bool) (σ₁ σ₂ : Session) (v u : FileTree) (results : List (Option CompileFailure)) :
    Prop where
  compared : Compared s t c fs graph changed (marked fs graph stale) σ₁ σ₂
  judged : ∀ i, stale i = true ↔ c.LocallyStale (c.sessionAt s fs σ₁ i).tree (fs.get i)
  compiled : Compiled P (marked fs graph stale).staleJobs σ₂.tree v results
  rest : AltersOnly (· ∈ s.cachePath :: s.headers) v u

/-- Without jobs nothing is compiled. -/
theorem Compiled.nil (P : Job → FileTree → List UInt8 → Prop) (t : FileTree) :
    Compiled P [] t t [] where
  length := rfl
  altersOnly := .refl _ _
  written _ _ _ h := .inl h
  succeeded _ i job o hi := by cases hi

/-- What a comparison marks, and when it finds a change. -/
theorem Compared.judged {s : Settings} {t : FileTree} {c : BuildCache} {fs fs' : FileSet}
    {graph : IncludeGraph fs.size} {changed : Bool} {σ₁ σ₂ : Session}
    (h : Compared s t c fs graph changed fs' σ₁ σ₂) : ∃ stale : Fin fs.size → Bool,
      fs' = marked fs graph stale ∧
      (∀ i, stale i = true ↔ c.LocallyStale (c.sessionAt s fs σ₁ i).tree (fs.get i)) ∧
      (changed = false → (∀ entry ∈ c.records, fs.get? entry.1 ≠ none) ∧
        (∀ f ∈ fs.files, c.orphansOf f = []) ∧ ∀ i, ¬ Marks graph stale i) := by
  obtain ⟨stale, hstale, rfl, hchanged⟩ := diff_ok h.diff
  refine ⟨stale, rfl, hstale, ?_⟩
  rintro rfl
  simp only [Bool.false_eq_true, false_iff, not_or, not_exists, not_and] at hchanged
  obtain ⟨hgone, horphans, hmarks⟩ := hchanged
  refine ⟨hgone, fun f hf => not_not.1 (horphans f hf), fun i hi => ?_⟩
  exact hmarks _ (mem_marked.2 ⟨i, rfl⟩) (marks_iff.1 hi)

/-- Where nothing is marked there are no jobs. -/
theorem staleJobs_of_not_marks {fs : FileSet} {graph : IncludeGraph fs.size}
    {stale : Fin fs.size → Bool} (h : ∀ i, ¬ Marks graph stale i) :
    (marked fs graph stale).staleJobs = [] := by
  rw [List.eq_nil_iff_forall_not_mem]
  intro job hjob
  obtain ⟨i, hi, -⟩ := mem_staleJobs_marked.1 hjob
  exact h i hi

namespace Rebuilt

variable {P : Job → FileTree → List UInt8 → Prop} {s : Settings} {t : FileTree} {c : BuildCache}
  {fs : FileSet} {graph : IncludeGraph fs.size} {stale : Fin fs.size → Bool} {changed : Bool}
  {σ₁ σ₂ : Session} {v u : FileTree} {results : List (Option CompileFailure)}
  {past : List FileTree} {i : Fin fs.size}

/-- A build that finds everything up to date compiles nothing. -/
theorem of_not_marks (h : Compared s t c fs graph changed (marked fs graph stale) σ₁ σ₂)
    (hjudged : ∀ i, stale i = true ↔ c.LocallyStale (c.sessionAt s fs σ₁ i).tree (fs.get i))
    (hmarks : ∀ i, ¬ Marks graph stale i) :
    Rebuilt P s t c fs graph stale changed σ₁ σ₂ σ₂.tree σ₂.tree [] where
  compared := h
  judged := hjudged
  compiled := by
    rw [staleJobs_of_not_marks hmarks]
    exact Compiled.nil P σ₂.tree
  rest := .refl _ _

theorem here_eq (h : Rebuilt P s t c fs graph stale changed σ₁ σ₂ v u results) :
    σ₂.tree.here = t.here := h.compared.loses.here

section

variable (h : Rebuilt P s t c fs graph stale changed σ₁ σ₂ v u results)
  (orderly : Orderly s (t :: past))

include h in
theorem mem_filesOver_get (i : Fin fs.size) : fs.get i ∈ filesOver s (t :: past) :=
  mem_filesOver.2 ⟨t, List.mem_cons_self, fs, h.compared.found, FileSet.get_mem i⟩

include h in
theorem mem_writtenOver {o : Path} (ho : OutputOf (marked fs graph stale).staleJobs o) :
    o ∈ writtenOver s (t :: past) := by
  obtain ⟨job, hjob, ho⟩ := ho
  obtain ⟨i, -, pm, hpm, rfl⟩ := mem_staleJobs_marked.1 hjob
  obtain rfl := Option.some.inj ho
  refine List.mem_append_right _ (List.mem_flatMap.2 ⟨_, h.mem_filesOver_get i, ?_⟩)
  exact List.mem_map.2 ⟨pm, hpm, rfl⟩

include h in
/-- From making the generated folder to its end, a build alters only what the history writes. -/
theorem altersOnly_end (hdoomed : ∀ o, c.Doomed fs o → o ∈ writtenOver s (t :: past)) :
    AltersOnly (· ∈ writtenOver s (t :: past)) σ₁.tree u :=
  ((h.compared.deletes.toAltersOnly.mono hdoomed).trans
    (h.compiled.altersOnly.mono fun _ => h.mem_writtenOver)).trans
    (h.rest.mono fun _ hp => List.mem_append_left _ hp)

include h orderly

/-- From the start of a build to the end of its compiling, the sources of its files stay. -/
theorem sameSources (hdoomed : ∀ o, c.Doomed fs o → o ∈ writtenOver s (t :: past)) {w : FileTree}
    (hw : AltersOnly (OutputOf (marked fs graph stale).staleJobs) σ₂.tree w) (i : Fin fs.size) :
    t.SameSources w (fs.get i).path := by
  refine orderly.sameSources List.mem_cons_self h.compared.found h.compared.included
    (S := (· ∈ writtenOver s (t :: past))) (fun _ hp => hp) ?_ (FileSet.get_mem i)
  refine (h.compared.loses.toAltersOnly.mono hdoomed).trans (hw.mono fun o ho => ?_)
  exact h.mem_writtenOver ho

/-- They stay to the end of the build. -/
theorem sameSources_end (hdoomed : ∀ o, c.Doomed fs o → o ∈ writtenOver s (t :: past))
    (i : Fin fs.size) : t.SameSources u (fs.get i).path :=
  orderly.sameSources List.mem_cons_self h.compared.found h.compared.included
    (S := (· ∈ writtenOver s (t :: past))) (fun _ hp => hp)
    ((h.compared.altersOnly_made.mono fun _ hp => hp.elim).trans (h.altersOnly_end hdoomed))
    (FileSet.get_mem i)

/-- A file is still there at the end of the build. -/
theorem read_source (hdoomed : ∀ o, c.Doomed fs o → o ∈ writtenOver s (t :: past))
    (i : Fin fs.size) :
    u.read (fs.get i).path = .ok (Text.encode (fs.get i).content, (fs.get i).modified) := by
  obtain ⟨p, hp⟩ := FileSet.readAt_of_scan h.compared.scanned (FileSet.get_mem i)
  refine (h.altersOnly_end hdoomed).read (fun q hq => Ne.symm ?_) hp.read_path
  rw [h.compared.altersOnly_made.here]
  exact orderly.sources t List.mem_cons_self _ (h.mem_filesOver_get i) q hq

/-- Behind the jobs, outputs are left alone. -/
theorem rest_ne {f : SourceFile} (hf : f ∈ filesOver s (t :: past)) {o : Path}
    (ho : o ∈ f.outputs) : ∀ p ∈ s.cachePath :: s.headers, p.locate v.here ≠ o.locate v.here := by
  intro p hp
  rw [h.compiled.altersOnly.here, h.here_eq]
  exact ((orderly.outputs t List.mem_cons_self f hf o ho).1 p hp).symm

/-- The outputs of a marked file are those that its jobs wrote. -/
theorem read_of_marks (hmarks : Marks graph stale i)
    (hfailed : (fs.get i).path ∉ failedSources (marked fs graph stale).staleJobs results)
    {pm : Permutation} (hpm : pm ∈ (fs.get i).permutations) :
    ∃ w content modified, AltersOnly (OutputOf (marked fs graph stale).staleJobs) σ₂.tree w ∧
      P { source := (fs.get i).path, directive := pm.directive, output := some pm.output } w
        content ∧ u.read pm.output = .ok (content, modified) := by
  have hjob := mem_staleJobs_marked.2 ⟨i, hmarks, pm, hpm, rfl⟩
  obtain ⟨k, hk⟩ := List.mem_iff_getElem?.1 hjob
  have hresult := result_of_not_failed h.compiled.length hfailed hk rfl
  have houtputs : ((marked fs graph stale).files.flatMap (·.outputs)).Pairwise fun o p =>
      o.locate σ₂.tree.here ≠ p.locate σ₂.tree.here := by
    rw [outputs_marked]
    exact FileSet.outputs_apart h.compared.found
      (orderly.slashFree_of_found List.mem_cons_self h.compared.found) _
  have hapart := staleJobs_apart houtputs
  obtain ⟨w, content, modified, hw, hP, hread⟩ :=
    h.compiled.succeeded hapart k _ _ hk hresult rfl
  refine ⟨w, content, modified, hw, hP, h.rest.read ?_ hread⟩
  exact h.rest_ne orderly (h.mem_filesOver_get i) (List.mem_map.2 ⟨pm, hpm, rfl⟩)

/-- A file at an output was there before the jobs or was written by one. -/
theorem written {f : SourceFile} (hf : f ∈ filesOver s (t :: past)) {pm : Permutation}
    (hpm : pm ∈ f.permutations) {x : List UInt8} (hx : u.content? pm.output = some x) :
    t.content? pm.output = some x ∨
      ∃ j, Marks graph stale j ∧ ∃ pm' ∈ (fs.get j).permutations,
        pm'.output.locate t.here = pm.output.locate t.here ∧
        ∃ w, AltersOnly (OutputOf (marked fs graph stale).staleJobs) σ₂.tree w ∧
          P { source := (fs.get j).path, directive := pm'.directive, output := some pm'.output } w
            x := by
  have hv : v.content? pm.output = some x := by
    unfold content? at hx ⊢
    rw [h.rest.file?_eq (h.rest_ne orderly hf (List.mem_map.2 ⟨pm, hpm, rfl⟩))] at hx
    exact hx
  obtain ⟨modified, hfile⟩ := content?_eq_some_iff.1 hv
  rw [file?_eq_some_iff, h.compiled.altersOnly.here] at hfile
  rcases h.compiled.written _ _ _ hfile with hold | ⟨job, hjob, o, ho, hlocate, w, hw, hP⟩
  · refine .inl (content?_eq_some_iff.2 ⟨modified, file?_eq_some_iff.2 ?_⟩)
    rw [← h.here_eq]
    exact h.compared.loses.kept _ _ _ hold
  · obtain ⟨j, hj, pm', hpm', rfl⟩ := mem_staleJobs_marked.1 hjob
    obtain rfl := Option.some.inj ho
    rw [h.here_eq] at hlocate
    exact .inr ⟨j, hj, pm', hpm', hlocate, w, hw, hP⟩

/-- The outputs of a file that is not marked hold what they held, as far as they are there. -/
theorem content?_of_not_marks (hmarks : ¬ Marks graph stale i) {pm : Permutation}
    (hpm : pm ∈ (fs.get i).permutations) {x : List UInt8} (hx : u.content? pm.output = some x) :
    t.content? pm.output = some x := by
  rcases h.written orderly (h.mem_filesOver_get i) hpm hx with hold | ⟨j, hj, pm', hpm', heq, -⟩
  · exact hold
  · have hij := (orderly.output_unique List.mem_cons_self h.compared.found (FileSet.get_mem j)
      (FileSet.get_mem i) hpm' hpm heq).1
    obtain ⟨-, -, -, hapart⟩ := FileSet.scan_ok h.compared.found
    rw [FileSet.Apart.get_injective hapart hij] at hj
    exact absurd hj hmarks

end

end Rebuilt

/-! ## How a build ends -/

/-- How a build ends that starts from a tree. -/
inductive BuildEnd (P : Job → FileTree → List UInt8 → Prop) (s : Settings) (t : FileTree)
    (τ : Session) : Except Error Report → Prop
  /-- It stops before the compiler takes over. -/
  | stopped {e : Error} (loses : Loses (RecordedIn s t) t τ.tree) : BuildEnd P s t τ (.error e)
  /-- There is nothing to do. -/
  | upToDate {c : BuildCache} {fs : FileSet} {graph : IncludeGraph fs.size}
    {stale : Fin fs.size → Bool} {σ₁ σ₂ : Session}
    (rebuilt : Rebuilt P s t c fs graph stale false σ₁ σ₂ τ.tree τ.tree [])
    (known : ∀ entry ∈ c.records, fs.get? entry.1 ≠ none)
    (tidy : ∀ f ∈ fs.files, c.orphansOf f = []) (current : ∀ i, ¬ Marks graph stale i)
    (same : τ.tree = σ₂.tree) : BuildEnd P s t τ (.ok { upToDate := true })
  /-- The compiler ran, but the cache was not saved. -/
  | unsaved {e : Error} {c : BuildCache} {fs : FileSet} {graph : IncludeGraph fs.size}
    {stale : Fin fs.size → Bool} {changed : Bool} {σ₁ σ₂ : Session} {v : FileTree}
    {results : List (Option CompileFailure)}
    (rebuilt : Rebuilt P s t c fs graph stale changed σ₁ σ₂ v τ.tree results)
    (rest : AltersOnly (· ∈ s.headers) v τ.tree) (told : Told τ)
    (other : ∀ failures, e ≠ .compile failures) : BuildEnd P s t τ (.error e)
  /-- Permutations failed, and the cache remembers that. -/
  | failed {c : BuildCache} {fs : FileSet} {graph : IncludeGraph fs.size}
    {stale : Fin fs.size → Bool} {changed : Bool} {σ₁ σ₂ : Session} {v : FileTree}
    {results : List (Option CompileFailure)}
    (rebuilt : Rebuilt P s t c fs graph stale changed σ₁ σ₂ v τ.tree results)
    (some : results.filterMap id ≠ [])
    (saved : Saved (.ofFiles ((marked fs graph stale).markFailed
      (failedSources (marked fs graph stale).staleJobs results))) s.cachePath v τ.tree)
    (told : Told τ) : BuildEnd P s t τ (.error (.compile (results.filterMap id)))
  /-- All is compiled and generated, and the cache remembers that. -/
  | built {c : BuildCache} {fs : FileSet} {graph : IncludeGraph fs.size}
    {stale : Fin fs.size → Bool} {changed : Bool} {σ₁ σ₂ σ σ' : Session}
    {results : List (Option CompileFailure)} {ss : List Hlsl.Struct} {written : Nat}
    (rebuilt : Rebuilt P s t c fs graph stale changed σ₁ σ₂ σ.tree τ.tree results)
    (structs : (marked fs graph stale).structs = .ok ss) (clean : results.filterMap id = [])
    (generated : (Target.generate s ss).runOn σ = (.ok written, σ'))
    (saved : Saved (.ofFiles ((marked fs graph stale).markFailed
      (failedSources (marked fs graph stale).staleJobs results))) s.cachePath σ'.tree τ.tree)
    (told : Told τ) : BuildEnd P s t τ
      (.ok { compiled := (marked fs graph stale).staleJobs.length, headersWritten := written })

/-- The ways a build ends. -/
theorem build_end {compiler : Compiler} {P : Job → FileTree → List UInt8 → Prop}
    (hcompiler : compiler.Writes P) {s : Settings} {t : FileTree} {τ : Session}
    {r : Except Error Report} (h : (build compiler s).runOn { tree := t } = (r, τ)) :
    BuildEnd P s t τ r := by
  have htarget : ∀ p, p = s.cachePath → p ∈ s.cachePath :: s.headers := by
    rintro p rfl
    exact List.mem_cons_self
  rcases build_cases h with
    ⟨e, hr, hloses⟩ | ⟨c, fs, graph, changed, fs', σ₁, σ₂, hcompared, hend⟩
  · rw [hr]
    exact .stopped hloses
  obtain ⟨stale, rfl, hjudged, hunchanged⟩ := hcompared.judged
  rcases hend with ⟨rfl, hr, htree⟩ | ⟨-, hcompile⟩
  · obtain ⟨hknown, htidy, hcurrent⟩ := hunchanged rfl
    have hrebuilt := Rebuilt.of_not_marks (P := P) hcompared hjudged hcurrent
    rw [← htree] at hrebuilt
    rw [hr]
    exact .upToDate hrebuilt hknown htidy hcurrent htree
  · cases compileStale_cases hcompiler hcompile with
    | malformed _ same =>
      refine .stopped ?_
      rw [same]
      exact hcompared.loses_recorded
    | unsaved compiled rest told other =>
      exact .unsaved ⟨hcompared, hjudged, compiled,
        rest.mono fun _ hp => List.mem_cons_of_mem _ hp⟩ rest told other
    | failed compiled some saved told =>
      exact .failed ⟨hcompared, hjudged, compiled, saved.altersOnly.mono htarget⟩ some saved told
    | built structs compiled clean generated saved told =>
      have hheaders := (Target.generate_altersOnly s _).of_runOn generated
      have hrest := (hheaders.mono fun _ => List.mem_cons_of_mem _).trans
        (saved.altersOnly.mono htarget)
      rw [← markFailed_nil (marked fs graph stale),
        ← @failedSources_of_clean (marked fs graph stale).staleJobs _ clean] at saved
      exact .built ⟨hcompared, hjudged, compiled, hrest⟩ structs clean generated saved told

end ShaderBuild
