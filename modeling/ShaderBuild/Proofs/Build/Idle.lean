import ShaderBuild.Proofs.Build.History
import ShaderBuild.Proofs.Build.Jobs
import ShaderBuild.Proofs.Cache.Vouch
import ShaderBuild.Proofs.FileTree.Overwrite
import ShaderBuild.Proofs.Include.Edge

/-!
# A second build has nothing to do

A build finds everything up to date when the cache that it loads vouches for the files that it finds
(`build_of_vouches`). A build that ends well leaves such a state behind, provided that what it
writes and deletes lies apart from what it reads (`Separate`): so building once more compiles
nothing, writes nothing and changes nothing (`second_build_is_idle`). All that is asked of the
compiler is that it writes to nothing but the outputs it is given (`Compiler.Confined`).
-/

namespace ShaderBuild

open Action FileTree BuildCache

/-- A job with an output changes no file but that one, and takes it away neither. -/
def Compiler.Confined (compiler : Compiler) : Prop :=
  ∀ job o t, job.output = some o → Overwrites (· = o) t (compiler job t).tree

/-- A compiler that writes its output or fails without a trace is confined to it. -/
theorem Compiler.Writes.confined {compiler : Compiler} {P : Job → FileTree → List UInt8 → Prop}
    (h : compiler.Writes P) : compiler.Confined := by
  intro job o t ho
  rcases h.tree_cases ho t with hsame | ⟨content, -, hwrite⟩
  · rw [hsame]
    exact .refl _ _
  · have hwritten := overwrites_write (S := (· = o)) rfl t content
    rwa [hwrite] at hwritten

/-! ## What a build touches -/

/-- The shader files that a build of a tree gets to see. -/
def scannedPaths (s : Settings) (t : FileTree) : List Path :=
  match (t.makeFolders s.generatedFolder).2.walk (FileSet.entersFolder s) s.sourcePath with
  | .ok paths => paths.filter s.isShaderFile
  | .error _ => []

theorem scannedPaths_of_walk {s : Settings} {t v : FileTree} {paths : List Path}
    (made : t.makeFolders s.generatedFolder = (.ok (), v))
    (walk : v.walk (FileSet.entersFolder s) s.sourcePath = .ok paths) :
    scannedPaths s t = paths.filter s.isShaderFile := by
  unfold scannedPaths
  rw [made]
  simp only [walk]

/-- The outputs that the cache file of a tree lists. -/
def recordedOutputs (s : Settings) (t : FileTree) : List Path :=
  match heldAt s.cachePath t with
  | some c => c.records.flatMap (·.2.outputs)
  | none => []

/-- What a build of the files of a set may write to. -/
def FileSet.targets (s : Settings) (fs : FileSet) : List Path :=
  s.cachePath :: s.headers ++ fs.files.flatMap (·.outputs)

theorem mem_recordedOutputs {s : Settings} {t : FileTree} {o : Path} :
    o ∈ recordedOutputs s t ↔ RecordedIn s t o := by
  unfold recordedOutputs RecordedIn
  cases heldAt s.cachePath t with
  | none => simp
  | some c => simp

/-- In the trees in front of a build and behind it, what it writes to or may delete is no shader
file, and what it may delete is not needed to find and to resolve the shader files. -/
@[mk_iff]
structure Separate (s : Settings) (fs : FileSet) (t u : FileTree) : Prop where
  scanned : ∀ p ∈ scannedPaths s t ++ scannedPaths s u,
    ∀ o ∈ fs.targets s ++ recordedOutputs s t, o.locate t.here ≠ p.locate t.here
  source : ∀ o ∈ recordedOutputs s t, o.locate t.here ≠ s.sourcePath.locate t.here
  included : ∀ o ∈ recordedOutputs s t, ∀ f ∈ fs.files, ∀ x ∈ Include.ofText f.content,
    o.locate t.here ≠ (Include.resolve f.path x.2).locate t.here

instance (s : Settings) (fs : FileSet) (t u : FileTree) : Decidable (Separate s fs t u) :=
  decidable_of_iff' _ (separate_iff s fs t u)

variable {compiler : Compiler} {s : Settings} {t u : FileTree} {c : BuildCache}
  {fs fs' : FileSet} {graph : IncludeGraph fs.size} {changed : Bool} {σ σ' σ₁ σ₂ : Session}

/-! ## Nothing to do -/

/-- A build finds everything up to date when the cache vouches for what it finds. -/
theorem build_of_vouches (made : σ.tree.makeFolders s.generatedFolder = (.ok (), σ.tree))
    (loaded : (BuildCache.load s.cachePath).answer σ.tree = .ok c)
    (scanned : (FileSet.scan s).answer σ.tree = .ok fs)
    (included : fs.graph σ.tree = .ok graph) (vouches : c.Vouches σ.tree fs) :
    ∃ log, (build compiler s).runOn σ = (.ok { upToDate := true }, { σ with log := log }) := by
  obtain ⟨log, hcompare⟩ := compareFiles_found made loaded scanned included
  obtain ⟨fs', log', hdiff⟩ :=
    diff_of_vouches (s := s) (σ := { σ with log := log }) vouches graph
  refine ⟨log' ++ [.upToDate fs'.size], ?_⟩
  rw [build_eq, runOn_bind_of_ok (hcompare.trans hdiff)]
  rfl

/-- A build that found everything up to date finds it so again. -/
theorem Compared.vouches (h : Compared s t c fs graph false fs' σ₁ σ₂) :
    c.Vouches σ₁.tree fs ∧ σ₂.tree = σ₁.tree := by
  have hvouches := diff_unchanged_iff.1 ⟨fs', σ₂, h.diff⟩
  obtain ⟨fs'', log, hdiff⟩ := diff_of_vouches (s := s) hvouches graph
  rw [h.diff] at hdiff
  cases hdiff
  exact ⟨hvouches, rfl⟩

/-! ## What a build leaves as it is -/

theorem runOn_compile_tree (job : Job) (σ : Session) :
    ((compile compiler job).runOn σ).2.tree = (compiler job σ.tree).tree := rfl

/-- A row of jobs does to the tree what each of them does. -/
theorem compileAll_moves {R : FileTree → FileTree → Prop} (refl : ∀ t, R t t)
    (trans : ∀ t u v, R t u → R u v → R t v) (allowed : Nat) {jobs : List Job}
    (compile : ∀ job ∈ jobs, ∀ t, R t (compiler job t).tree) :
    Moves R (compileAll compiler allowed jobs) := by
  refine ((looks_tell _).moves refl).bind trans fun _ => ?_
  refine moves_mapM refl trans fun job hjob σ => ?_
  rw [runOn_compile_tree]
  exact compile job hjob σ.tree

/-- The outputs of jobs are targets. -/
theorem mem_targets_of_output {job : Job} (h : job ∈ fs.staleJobs) {o : Path}
    (ho : job.output = some o) : o ∈ fs.targets s := by
  obtain ⟨f, hf, -, pm, hpm, rfl⟩ := output_of_mem_staleJobs h
  obtain rfl := Option.some.inj ho
  exact List.mem_append_right _ (List.mem_flatMap.2 ⟨f, hf, List.mem_map.2 ⟨pm, hpm, rfl⟩⟩)

/-- Compiling and generating does to the tree what the jobs do, and writing the headers and the
cache, however it ends. -/
theorem compileStale_moves {R : FileTree → FileTree → Prop} (refl : ∀ t, R t t)
    (trans : ∀ t u v, R t u → R u v → R t v)
    (compile : ∀ job ∈ fs.staleJobs, ∀ t, R t (compiler job t).tree)
    (make : ∀ t folder, R t (makeFolders t folder).2)
    (write : ∀ p ∈ s.cachePath :: s.headers, ∀ t content, R t (t.write p content).2) :
    Moves R (compileStale compiler s fs) := by
  have hcompile : Moves R (compileAll compiler s.jobs fs.staleJobs) :=
    compileAll_moves refl trans s.jobs compile
  have hgenerate : ∀ ss, Moves R (Target.generate s ss) :=
    Target.generate_moves refl trans fun p hp => write p (List.mem_cons_of_mem _ hp)
  have hsave : ∀ c : BuildCache, Moves R (c.save s.cachePath) := fun c =>
    save_moves refl trans make (write _ List.mem_cons_self)
  unfold compileStale
  refine ((looks_lift _).moves refl).bind trans fun ss => hcompile.bind trans fun results => ?_
  split
  · exact (hgenerate ss).bind trans fun written => (hsave _).bind trans fun _ =>
      ((looks_tell _).bind fun _ => looks_pure _).moves refl
  · exact (hsave _).bind trans fun _ => (looks_throw _).moves refl

/-- Compiling and generating overwrites nothing but targets, and ends with the cache. -/
theorem compileStale_ok (confined : compiler.Confined) {report : Report}
    (h : (compileStale compiler s fs).runOn σ = (.ok report, σ')) :
    Overwrites (· ∈ fs.targets s) σ.tree σ'.tree ∧ ∃ j time, (ofFiles fs).encode = .ok j ∧
      σ'.tree.read s.cachePath = .ok (Text.encode j.pretty, time) := by
  constructor
  · refine (compileStale_moves (.refl _) overwrites_trans (fun job hjob t => ?_)
      (fun t folder => .of_altersOnly (altersOnly_makeFolders t folder))
      (fun p hp => overwrites_write (List.mem_append_left _ hp))).of_runOn h
    obtain ⟨f, -, -, pm, -, rfl⟩ := output_of_mem_staleJobs hjob
    exact (confined _ pm.output t rfl).mono fun o ho =>
      mem_targets_of_output hjob (congrArg some ho.symm)
  · obtain ⟨ss, results, written, σ₀, σ₁, σ₂, -, -, -, -, hsaved⟩ := compileStale_phases h
    exact hsaved.read

theorem targets_marked {stale : Fin fs.size → Bool} :
    (marked fs graph stale).targets s = fs.targets s := by
  unfold FileSet.targets
  rw [outputs_marked]

/-- Where the targets are no shader files, and neither the source path nor an included file goes,
what was found is found again. -/
theorem Compared.again_of_apart (h : Compared s t c fs graph changed fs' σ₁ σ₂)
    (hwrites : Overwrites (· ∈ fs.targets s) σ₂.tree u)
    (scanned : ∀ p ∈ scannedPaths s t ++ scannedPaths s u,
      ∀ o ∈ fs.targets s ++ recordedOutputs s t, o.locate t.here ≠ p.locate t.here)
    (source : σ₁.tree.isFile s.sourcePath = true →
      ∀ o ∈ recordedOutputs s t, o.locate t.here ≠ s.sourcePath.locate t.here)
    (included : ∀ o ∈ recordedOutputs s t, ∀ f ∈ fs.files, ∀ x ∈ Include.ofText f.content,
      o.locate t.here ≠ (Include.resolve f.path x.2).locate t.here)
    (named : t.WellNamed) (named' : u.WellNamed) :
    u.makeFolders s.generatedFolder = (.ok (), u) ∧ (FileSet.scan s).answer u = .ok fs ∧
      fs.graph u = .ok graph := by
  have hdeletes : AltersOnly (· ∈ recordedOutputs s t) σ₁.tree σ₂.tree :=
    h.deletes.toAltersOnly.mono fun o ho =>
      mem_recordedOutputs.2 (recordedIn_of_held h.held ho.recorded)
  have halters : AltersOnly (· ∈ fs.targets s ++ recordedOutputs s t) σ₁.tree u :=
    (hdeletes.mono fun _ => List.mem_append_right _).trans
      (hwrites.toAltersOnly.mono fun _ => List.mem_append_left _)
  have hhere := h.altersOnly_made.here
  have hmade := makeFolders_again h.made halters
  -- a file that is not deleted may be written to, but it stays
  have hfile : ∀ {p}, (∀ o ∈ recordedOutputs s t, o.locate t.here ≠ p.locate t.here) →
      σ₁.tree.isFile p = true → u.isFile p = true := fun hp hthere =>
    hwrites.isFile (hdeletes.isFile (by rw [hhere]; exact hp) hthere)
  obtain ⟨paths, hwalk, hall, hapart⟩ := FileSet.scan_ok h.scanned
  obtain ⟨paths', hwalk'⟩ := exists_walk_again hwalk halters.isFolder
    fun hsource => hfile (source hsource) hsource
  have hseen : ∀ q ∈ paths, s.isShaderFile q = true → q ∈ scannedPaths s t := by
    intro q hq hshader
    rw [scannedPaths_of_walk h.made hwalk]
    exact List.mem_filter.2 ⟨hq, hshader⟩
  have hseen' : ∀ q ∈ paths', s.isShaderFile q = true → q ∈ scannedPaths s u := by
    intro q hq hshader
    rw [scannedPaths_of_walk hmade hwalk']
    exact List.mem_filter.2 ⟨hq, hshader⟩
  have hnamed₁ : σ₁.tree.WellNamed := by
    have := wellNamed_makeFolders s.generatedFolder named
    rwa [h.made] at this
  have hclear : ∀ q ∈ scannedPaths s t ++ scannedPaths s u,
      ∀ o ∈ fs.targets s ++ recordedOutputs s t,
        o.locate σ₁.tree.here ≠ q.locate σ₁.tree.here := by
    rw [hhere]
    exact scanned
  have hpaths := walk_again halters hnamed₁ named' hwalk hwalk'
    (fun q hq hshader => hclear q (List.mem_append_left _ (hseen q hq hshader)))
    (fun q hq hshader => hclear q (List.mem_append_right _ (hseen' q hq hshader)))
  refine ⟨hmade, FileSet.scan_of_readAt hwalk' ?_ hapart, FileSet.graph_again h.included ?_⟩
  · rw [hpaths]
    have hmem := (List.forall₂_and_left _ _).2 ⟨fun q hq => hq, hall⟩
    refine hmem.imp fun q f hqf => ⟨halters.read ?_ hqf.2.read, hqf.2.ofText⟩
    obtain ⟨hq, hshader⟩ := List.mem_filter.1 hqf.1
    exact hclear q (List.mem_append_left _ (hseen q hq hshader))
  · intro f hf line text hline
    exact hfile fun o ho => included o ho f hf (line, text) hline

/-- Where the targets are separate, what was found is found again. -/
theorem Compared.again (h : Compared s t c fs graph changed fs' σ₁ σ₂)
    (hwrites : Overwrites (· ∈ fs.targets s) σ₂.tree u) (separate : Separate s fs t u)
    (named : t.WellNamed) (named' : u.WellNamed) :
    u.makeFolders s.generatedFolder = (.ok (), u) ∧ (FileSet.scan s).answer u = .ok fs ∧
      fs.graph u = .ok graph :=
  h.again_of_apart hwrites separate.scanned (fun _ => separate.source) separate.included named
    named'

/-! ## The second build -/

/-- **A second build has nothing to do.** After a build that ends well and leaves all outputs in
place, another one answers that all is up to date. It gives the compiler no job and leaves the tree
as it is. -/
theorem second_build_is_idle (confined : compiler.Confined) {report : Report}
    (h : (build compiler s).runOn σ = (.ok report, σ')) (found : FileSet.found s σ.tree = .ok fs)
    (outputs : ∀ f ∈ fs.files, ∀ o ∈ f.outputs, σ'.tree.has o = true)
    (separate : Separate s fs σ.tree σ'.tree) (named : ∀ t ∈ [σ.tree, σ'.tree], t.WellNamed)
    (timed : ∀ f ∈ fs.files, f.modified.IsProper) {τ : Session} (again : τ.tree = σ'.tree) :
    ∃ log, (build compiler s).runOn τ = (.ok { upToDate := true }, { τ with log := log }) := by
  rcases build_cases h with ⟨e, hr, -⟩ | ⟨c, fs', graph, changed, fs'', σ₁, σ₂, hcompared, hend⟩
  · cases hr
  obtain rfl : fs' = fs := Except.ok.inj (hcompared.found.symm.trans found)
  obtain ⟨hnamed, hnamed'⟩ : σ.tree.WellNamed ∧ σ'.tree.WellNamed := by simpa using named
  rcases hend with ⟨rfl, -, htree⟩ | ⟨-, hcompile⟩
  · obtain ⟨hvouches, hsame⟩ := hcompared.vouches
    rw [hsame] at htree
    have hsame : τ.tree = σ₁.tree := again.trans htree
    have hmade := makeFolders_again hcompared.made (.refl (fun _ => False) σ₁.tree)
    have hloaded := hcompared.loaded
    have hscan := hcompared.scanned
    have hgraph := hcompared.included
    rw [← hsame] at hmade hloaded hscan hgraph hvouches
    exact build_of_vouches hmade hloaded hscan hgraph hvouches
  · obtain ⟨stale, -, rfl, -⟩ := diff_ok hcompared.diff
    obtain ⟨hwrites, j, time, hj, hread⟩ := compileStale_ok confined hcompile
    rw [targets_marked] at hwrites
    rw [ofFiles_marked] at hj
    obtain ⟨hmade, hscan, hgraph⟩ := hcompared.again hwrites separate hnamed hnamed'
    obtain ⟨-, -, -, hapart⟩ := FileSet.scan_ok hcompared.scanned
    have hproper : ∀ entry ∈ (ofFiles fs').records, entry.2.modified.IsProper := by
      rintro ⟨key, r⟩ hentry
      obtain ⟨f, hf, -, rfl⟩ := (mem_ofFiles_iff hapart).1 hentry
      exact timed f hf
    have hdone : ∀ f ∈ fs'.files, f.didCompile = true := by
      intro f hf
      obtain ⟨p, hp⟩ := FileSet.readAt_of_scan hcompared.scanned hf
      exact hp.didCompile_eq
    have hloaded := load_of_saved hproper hj hread
    have hvouches := vouches_ofFiles hapart hdone outputs
    rw [← again] at hmade hloaded hscan hgraph hvouches
    exact build_of_vouches hmade hloaded hscan hgraph hvouches

/-! ## A second build of a small project -/

namespace SmallProject

/-- Three sources, of which one includes another. -/
def whole : FileTree := withSources
  [("a.hlsl", textFile "// ShaderCompiler. Name: A\n#include \"b.hlsl\"\n" 1),
    ("b.hlsl", textFile "float4 c;\n" 1),
    ("r.hlsl", textFile "// ShaderCompiler. Name: R\n" 1)]

/-- Since a build, the included source has changed, one is gone and one is new. -/
def mixed : FileTree :=
  (((after whole).tree.prune ["s", "r.hlsl"]).put ["s", "b.hlsl"] (textFile "float3 c;\n" 2)).put
    ["s", "n.hlsl"] (textFile "// ShaderCompiler. Name: N\n" 2)

theorem mixed_facts : report? mixed = some { compiled := 2, headersWritten := 1 } ∧
    (∀ t ∈ [mixed, (after mixed).tree], t.WellNamed) ∧
    ((FileSet.found settings mixed).toOption.any fun fs => decide
      ((∀ f ∈ fs.files, f.modified.IsProper ∧ ∀ o ∈ f.outputs, (after mixed).tree.has o = true) ∧
        Separate settings fs mixed (after mixed).tree)) = true := by
  decide +kernel

end SmallProject

theorem small_project_is_idle : ∃ log, (build plain SmallProject.settings).runOn
      { tree := (SmallProject.after SmallProject.mixed).tree }
    = (.ok { upToDate := true }, { tree := (SmallProject.after SmallProject.mixed).tree, log }) := by
  obtain ⟨hreport, named, hfound⟩ := SmallProject.mixed_facts
  obtain ⟨fs, hfs, hfacts⟩ := (Option.any_eq_true _ _).1 hfound
  obtain ⟨hfiles, separate⟩ := of_decide_eq_true hfacts
  -- said of any tree, so that the build of this one is not run again
  have hidle : ∀ {t : FileTree} {report : Report}, SmallProject.report? t = some report →
      FileSet.found SmallProject.settings t = .ok fs →
      (∀ f ∈ fs.files, ∀ o ∈ f.outputs, (SmallProject.after t).tree.has o = true) →
      Separate SmallProject.settings fs t (SmallProject.after t).tree →
      (∀ u ∈ [t, (SmallProject.after t).tree], u.WellNamed) →
      ∃ log, (build plain SmallProject.settings).runOn { tree := (SmallProject.after t).tree }
        = (.ok { upToDate := true }, { tree := (SmallProject.after t).tree, log }) := by
    intro t report hreport hfound houtputs hseparate hnamed
    exact second_build_is_idle plain_computes.writes.confined
      (SmallProject.runOn_of_report? hreport) hfound houtputs hseparate hnamed
      (fun f hf => (hfiles f hf).1) rfl
  exact hidle hreport (ok_of_toOption hfs) (fun f hf => (hfiles f hf).2) separate named

/-! ## Second builds that have something to do -/

namespace SmallProject

/-- A cache file that lists an output of a source that is gone. -/
def listing (o : Path) : Entry :=
  let c := BuildCache.empty.insert 0
    { identity := 0, path := ⟨"gone"⟩, modified := ⟨0, 0⟩, didCompile := true, outputs := [o] }
  .file (match c.encode with
    | .ok j => Text.encode j.pretty
    | .error _ => []) ⟨0, 0⟩

/-- The small project, with other settings for where the sources are and what is generated. -/
def settingsWith (source extension : String) : Settings :=
  { settings with sourcePath := ⟨source⟩, generatedExtension := extension }

/-- A build with the plain compiler ends well and leaves all outputs in place, and what it writes to
are different files and none of them a shader file. Yet the build behind it does not find everything
up to date. -/
def Relapses (s : Settings) (t : FileTree) : Prop :=
  let first := (build plain s).runOn { tree := t }
  let second := (build plain s).runOn { tree := first.2.tree }
  first.1.toOption.isSome ∧ second.1.toOption ≠ some { upToDate := true } ∧
    ((FileSet.found s t).toOption.any fun fs => decide
      ((∀ f ∈ fs.files, ∀ o ∈ f.outputs, first.2.tree.has o = true) ∧
        ((fs.targets s).Pairwise fun o p => o.locate t.here ≠ p.locate t.here) ∧
        ∀ p ∈ scannedPaths s t ++ scannedPaths s first.2.tree, ∀ o ∈ fs.targets s,
          o.locate t.here ≠ p.locate t.here)) = true

instance (s : Settings) (t : FileTree) : Decidable (Relapses s t) :=
  inferInstanceAs (Decidable (_ ∧ _ ∧ _))

/-- The cache lists a shader file. -/
def listedShader : FileTree :=
  (withSources [("b.hlsl", textFile "" 1)]).put ["c"] (listing ⟨"s/b.hlsl"⟩)

/-- The source path leads to a file, and the cache lists it. -/
def listedSource : FileTree := (bare.put ["s.h"] (textFile "" 1)).put ["c"] (listing ⟨"s.h"⟩)

/-- The cache lists a file that is included. It lies beside the sources, but a backslash gives it
the identity of one. -/
def listedInclude : FileTree :=
  (((((bare.put ["s", "d"] .folder).put ["s", "d\\b.hlsl"] (textFile "" 1)).put
    ["s", "d", "a.hlsl"] (textFile "#include \"../d\\b.hlsl\"\n" 1)).put
    ["s", "d", "b.hlsl"] (textFile "" 1)).put ["c"] (listing ⟨"s/d\\b.hlsl"⟩))

end SmallProject

/-- None of the conditions on what the cache lists can be left out: the first build deletes it. -/
theorem second_build_not_idle :
    SmallProject.Relapses (SmallProject.settingsWith "s" ".hlsl") SmallProject.listedShader ∧
    SmallProject.Relapses (SmallProject.settingsWith "s.h" ".h") SmallProject.listedSource ∧
    SmallProject.Relapses (SmallProject.settingsWith "s/d" ".hlsl") SmallProject.listedInclude := by
  decide +kernel

end ShaderBuild
