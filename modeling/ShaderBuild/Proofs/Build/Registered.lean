import ShaderBuild.Proofs.Build.Rebuilt
import ShaderBuild.Proofs.Build.Tidy
import ShaderBuild.Proofs.Compiler.Declaration
import ShaderBuild.Proofs.Source.Product

/-!
# What a first build registers

In an empty generated folder and without a cache, a build that compiles hands every permutation to
the compiler (`firstBuild_of_build`), and since all jobs succeed each of them leaves the array of
its directive behind. All outputs lie directly in the generated folder, no two of them have one
name, and nothing else is there (`FirstBuild.exists_rows`), so the shader header registers the name
of every directive, once for each file that declares it. Within a file the names are apart, but
files are only compared by their outputs, which begin with the name of the file: the names that are
registered are apart exactly when no two files declare the same one.

Main statement: `directives_are_registered_once_each`.
-/

namespace ShaderBuild

open Action FileTree BuildCache Target

variable {compiler : Compiler} {s : Settings} {t v : FileTree} {fs : FileSet} {report : Report}

/-- Nothing was built in a tree so far: the generated folder is empty when a build has made it, and
there is no cache. -/
structure Unbuilt (s : Settings) (t : FileTree) : Prop where
  empty : ∀ l, isBelow (s.generatedFolder.locate t.here) l = true →
    (t.makeFolders s.generatedFolder).2.at? l = none
  cache : (BuildCache.load s.cachePath).answer (t.makeFolders s.generatedFolder).2 = .ok .empty

/-! ## The jobs of a first build -/

/-- What a first build has done behind its jobs: they were those of all permutations, and all of
them succeeded in a tree with nothing in the generated folder. -/
structure FirstBuild (s : Settings) (t : FileTree) (fs : FileSet) (jobs : List Job)
    (u v : FileTree) : Prop where
  found : FileSet.found s t = .ok fs
  here : u.here = t.here
  empty : ∀ l, isBelow (s.generatedFolder.locate t.here) l = true → u.at? l = none
  mem_jobs : ∀ job, job ∈ jobs ↔ ∃ f ∈ fs.files, ∃ pm ∈ f.permutations,
    job = { source := f.path, directive := pm.directive, output := some pm.output }
  declared : Declared jobs u v

/-- A build that compiles in a tree without a cache compiles everything. -/
theorem firstBuild_of_build {σ : Session} (hcompiler : compiler.Declares)
    (hbuild : (build compiler s).runOn { tree := t } = (.ok report, σ))
    (hcompiled : report.upToDate = false) (hstart : Unbuilt s t) :
    ∃ fs jobs u ss written σ₁ σ₂, FirstBuild s t fs jobs u σ₁.tree ∧
      (generate s ss).runOn σ₁ = (.ok written, σ₂) ∧
      AltersOnly (· = s.cachePath) σ₂.tree σ.tree := by
  rcases build_cases hbuild with ⟨e, he, -⟩ |
    ⟨c, fs, graph, changed, fs', σ₁, σ₂, compared, ⟨-, hreport, -⟩ | ⟨-, hcompile⟩⟩
  · cases he
  · cases hreport
    cases hcompiled
  have hcache := hstart.cache
  have hempty := hstart.empty
  rw [compared.made] at hcache hempty
  obtain rfl : c = .empty := Except.ok.inj (compared.loaded.symm.trans hcache)
  obtain ⟨stale, rfl, hstale, -⟩ := compared.judged
  have hmarks : ∀ i, Marks graph stale i := fun i => .inl ((hstale i).2 (.inl rfl))
  obtain ⟨ss, results, written, σ₃, σ₄, σ₅, htree, hrun, hclean, hgenerate, hsaved⟩ :=
    compileStale_phases hcompile
  have hdeclared := declared_of_run hcompiler (fun job hjob => by
    obtain ⟨f, -, pm, -, rfl⟩ := (mem_staleJobs_of_marks hmarks).1 hjob
    rfl) hrun hclean
  rw [htree] at hdeclared
  exact ⟨fs, _, σ₂.tree, ss, written, σ₄, σ₅,
    ⟨compared.found, compared.loses.here, fun l hl => compared.deletes.at?_eq_none (hempty l hl),
      fun job => mem_staleJobs_of_marks hmarks, hdeclared⟩, hgenerate, hsaved.altersOnly⟩

namespace FirstBuild

variable {jobs : List Job} {u : FileTree} {row : String × Directive} {n : String}
  {content : List UInt8}

theorem at?_child (h : FirstBuild s t fs jobs u v) (n : String) :
    u.at? (s.generatedFolder.locate t.here ++ [n]) = none :=
  h.empty _ (isBelow_iff.2 ⟨List.prefix_append _ _, by simp⟩)

/-- Every directive had its job. -/
theorem exists_job (h : FirstBuild s t fs jobs u v) (hrow : row ∈ fs.outputRows s) :
    ∃ job ∈ jobs, job.output = some (s.generatedFolder.child row.1) := by
  obtain ⟨f, hf, hd, hname⟩ := FileSet.mem_outputRows_iff.1 hrow
  obtain ⟨pm, hpm, hdirective⟩ := List.mem_map.1 hd
  obtain ⟨p, hread⟩ := FileSet.readAt_of_scan h.found hf
  refine ⟨_, (h.mem_jobs _).2 ⟨f, hf, pm, hpm, rfl⟩, ?_⟩
  rw [hread.output_eq hpm, hname, ← hdirective]

/-- The outputs of a first build lie directly in the generated folder. -/
theorem isName_of_mem_rows (h : FirstBuild s t fs jobs u v) (hrow : row ∈ fs.outputRows s) :
    Path.IsName row.1 := by
  obtain ⟨job, hjob, houtput⟩ := h.exists_job hrow
  obtain ⟨f, hf, -, hname⟩ := FileSet.mem_outputRows_iff.1 hrow
  obtain ⟨p, hread⟩ := FileSet.readAt_of_scan h.found hf
  have hgoal := h.declared.goal job hjob _ houtput
  rw [hname] at hgoal ⊢
  refine hread.isName_outputName_of_goal hgoal fun m => ?_
  rw [h.here, h.at?_child m]
  simp

/-- What a first build leaves in the generated folder are outputs of its directives. -/
theorem exists_output (h : FirstBuild s t fs jobs u v)
    (hcontent : generated? s v n = some content) : ∃ d text, (n, d) ∈ fs.outputRows s ∧
      generated? s v n = some (Text.encode text) ∧ IsOutputOf d text := by
  obtain ⟨-, modified, hat⟩ := generated?_eq_some_iff.1 hcontent
  rw [h.declared.here, h.here] at hat
  rcases h.declared.written _ _ _ hat with hold | ⟨job, hjob, o, text, ho, hlocate, rfl, hdeclares⟩
  · rw [h.at?_child n] at hold
    cases hold
  obtain ⟨f, hf, pm, hpm, rfl⟩ := (h.mem_jobs job).1 hjob
  obtain rfl := Option.some.inj ho
  obtain ⟨p, hread⟩ := FileSet.readAt_of_scan h.found hf
  have hd : pm.directive ∈ f.directives := List.mem_map_of_mem hpm
  have hrow : (pm.directive.outputName f.path s.generatedExtension, pm.directive) ∈
      fs.outputRows s := FileSet.mem_outputRows_iff.2 ⟨f, hf, hd, rfl⟩
  rw [hread.output_eq hpm, Path.locate_child (h.isName_of_mem_rows hrow), h.here] at hlocate
  obtain rfl := List.singleton_inj.1 (List.append_cancel_left hlocate)
  exact ⟨pm.directive, text, hrow, hcontent, ⟨f.path, f.content, _, hread.directives_ofText, hd⟩,
    hdeclares⟩

/-- Every directive has its output there. -/
theorem generated_of_mem_rows (h : FirstBuild s t fs jobs u v) (hrow : row ∈ fs.outputRows s) :
    ∃ content, generated? s v row.1 = some content := by
  obtain ⟨job, hjob, houtput⟩ := h.exists_job hrow
  obtain ⟨content, modified, hat⟩ := h.declared.file job hjob _ houtput
  rw [Path.locate_child (h.isName_of_mem_rows hrow), ← h.declared.here] at hat
  obtain ⟨f, -, -, hname⟩ := FileSet.mem_outputRows_iff.1 hrow
  refine ⟨content, generated?_eq_some_iff.2 ⟨List.isSuffixOf_iff_suffix.2 ?_, modified, hat⟩⟩
  rw [hname]
  exact row.2.suffix_outputName f.path s.generatedExtension

/-- **The rows of a first build.** The generated files behind the jobs are the outputs of all
directives, each in a row with its own. -/
theorem exists_rows (h : FirstBuild s t fs jobs u v) {names : List String}
    (hnames : v.filesIn s.generatedFolder = .ok names) : ∃ rows : List (String × Directive),
      rows.map (·.1) = (names.filter fun n =>
        s.generatedExtension.toList.isSuffixOf n.toList) ∧
      rows.Perm (fs.outputRows s) ∧
      ∀ row ∈ rows, ∃ text, generated? s v row.1 = some (Text.encode text) ∧
        IsOutputOf row.2 text := by
  obtain ⟨rows, hrows, hdeclared⟩ := Target.exists_rows (P := fun n d => ∃ text,
      (n, d) ∈ fs.outputRows s ∧ generated? s v n = some (Text.encode text) ∧
        IsOutputOf d text) fun n hn => by
    obtain ⟨content, hcontent⟩ := (mem_filter_filesIn_iff hnames).1 hn
    exact h.exists_output hcontent
  refine ⟨rows, hrows, ?_, fun row hrow => ?_⟩
  · have hnodup := FileSet.nodup_outputRows h.found
    have hnodup' : (rows.map (·.1)).Nodup := by
      rw [hrows]
      exact (nodup_filesIn hnames).filter _
    refine (List.perm_ext_iff_of_nodup (.of_map _ hnodup') (.of_map _ hnodup)).2 fun row => ?_
    constructor
    · intro hrow
      obtain ⟨text, hmem, -⟩ := hdeclared row hrow
      exact hmem
    · intro hrow
      have hlisted := (mem_filter_filesIn_iff hnames).2 (h.generated_of_mem_rows hrow)
      rw [← hrows] at hlisted
      obtain ⟨row', hrow', heq⟩ := List.mem_map.1 hlisted
      obtain ⟨text, hmem, -⟩ := hdeclared row' hrow'
      rwa [← List.inj_on_of_nodup_map hnodup hmem hrow heq]
  · obtain ⟨text, -, houtput⟩ := hdeclared row hrow
    exact ⟨text, houtput⟩

end FirstBuild

/-! ## Registering -/

/-- **Directives are registered once each.** A first build that compiles and ends well leaves one
output for each directive that it found, directly in the generated folder, which declares the array
with the name of that directive. Its shader header has one registration for each of them, with the
same name, as long as it is a file of its own. So the registered names are apart exactly when no two
files declare the same name. -/
theorem directives_are_registered_once_each {σ : Session} (hcompiler : compiler.Declares)
    (hbuild : (build compiler s).runOn { tree := t } = (.ok report, σ))
    (hcompiled : report.upToDate = false) (hstart : Unbuilt s t) :
    ∃ fs v, ∃ rows : List (String × Directive), FileSet.found s t = .ok fs ∧
      AltersOnly (· ∈ s.cachePath :: s.headers) v σ.tree ∧
      (shaderRegions s).answer v =
        .ok [⟨"Include", includes s rows⟩, ⟨"ShaderByteCode", registrations rows⟩] ∧
      Text.lines (registrations rows).toList = (rows.map fun row =>
        ("\tINIT_SHADER_BYTECODE(" ++ row.2.name ++ ");").toList) ∧
      rows.Perm (fs.outputRows s) ∧
      (∀ row ∈ rows, ∃ text, generated? s v row.1 = some (Text.encode text) ∧
        Declares row.2.name.toList text) ∧
      ((rows.map (·.2.name)).Nodup ↔ ∀ f ∈ fs.files, ∀ g ∈ fs.files, ∀ d ∈ f.directives,
        ∀ e ∈ g.directives, d.name = e.name → f = g) ∧
      ((∀ p ∈ [s.constantBufferHeader, s.vertexLayoutHeader, s.cachePath],
        p.locate t.here ≠ s.shaderHeader.locate t.here) → Spliced σ.tree (s.shaderHeader,
          [⟨"Include", includes s rows⟩, ⟨"ShaderByteCode", registrations rows⟩])) := by
  obtain ⟨fs, jobs, u, ss, written, σ₁, σ₂, first, hgenerate, hsaved⟩ :=
    firstBuild_of_build hcompiler hbuild hcompiled hstart
  obtain ⟨shader, σ₀, hshader, htree, hreplace⟩ := generate_ok hgenerate
  obtain ⟨names, -, hnames, -, -⟩ := shaderRegions_ok_iff.1 hshader
  obtain ⟨rows, hrows, hperm, houtputs⟩ := first.exists_rows hnames
  have hregions := shaderRegions_of_rows hnames hrows fun row hrow =>
    ⟨first.isName_of_mem_rows (hperm.subset hrow), houtputs row hrow⟩
  obtain rfl := Except.ok.inj (hshader.symm.trans hregions)
  have hheaders := (generate_altersOnly s ss).of_runOn hgenerate
  refine ⟨fs, σ₁.tree, rows, first.found, ?_, hregions, lines_registrations fun row hrow => ?_,
    hperm, fun row hrow => ?_, ?_, fun hapart => ?_⟩
  · exact (hheaders.mono fun _ => List.mem_cons_of_mem _).trans
      (hsaved.mono fun p hp => hp ▸ List.mem_cons_self)
  · obtain ⟨text, -, houtput⟩ := houtputs row hrow
    exact houtput.isClean.name.lineFeed
  · obtain ⟨text, hcontent, houtput⟩ := houtputs row hrow
    exact ⟨text, hcontent, houtput.2⟩
  · rw [(hperm.map _).nodup_iff]
    exact FileSet.nodup_names_iff first.found
  · have hhere : σ₁.tree.here = t.here := first.declared.here.trans first.here
    simp only [List.forall_mem_cons, List.not_mem_nil, false_imp_iff, implies_true,
      and_true] at hapart
    obtain ⟨hbuffers, hlayouts, hcache⟩ := hapart
    have hspliced := spliced_of_replaceAll_cons hreplace (by
      rw [htree, hhere]
      simp [hbuffers, hlayouts])
    rw [htree] at hspliced
    refine (hspliced.trans hsaved ?_).spliced
    rintro q rfl
    rw [hheaders.here, hhere]
    exact hcache

/-! ## Names of a small project -/

namespace SmallProject

/-- What is written for a directive by a compiler that knows nothing but its name. -/
def arrayText (d : Directive) : List Char :=
  "const BYTE g_".toList ++ (d.name.toList ++ '[' :: ']' :: " =\n\x7b\n 68\n\x7d;\n".toList)

/-- A compiler that writes an array with the name of the directive. -/
def naming : Compiler := fun job t =>
  match job.output with
  | none => { failure := none, notices := [], tree := t }
  | some o =>
    match t.writeText o (arrayText job.directive) with
    | (.ok (), u) => { failure := none, notices := [], tree := u }
    | (.error _, u) =>
      { failure := some ⟨job.directive.name, "cannot write\n", job.source.text⟩
        notices := []
        tree := u }

theorem declares_arrayText (d : Directive) : Declares d.name.toList (arrayText d) :=
  .mk [] "const BYTE g_".toList _ (by decide) (fun x h y => not_isHead_of_lacks (by decide))
    (by decide)

theorem declares_naming : naming.Declares := by
  intro job o t ho hsuccess
  refine ⟨_, declares_arrayText job.directive, ?_⟩
  unfold naming at hsuccess ⊢
  simp only [ho] at hsuccess ⊢
  split at hsuccess
  · next u hwrite => rw [hwrite]
  · cases hsuccess

/-- What a build with this compiler does. -/
def named (t : FileTree) : Except Error Report × Session :=
  (build naming settings).runOn { tree := t }

theorem runOn_of_named (h : (named t).1.toOption = some report) :
    (build naming settings).runOn { tree := t } = (.ok report, (named t).2) :=
  Prod.ext (ok_of_toOption h) rfl

theorem unbuilt_of_entries
    (hempty : ∀ entry ∈ (t.makeFolders s.generatedFolder).2.entries,
      isBelow (s.generatedFolder.locate t.here) entry.1 = false)
    (hcache : (BuildCache.heldAt s.cachePath (t.makeFolders s.generatedFolder).2).isNone) :
    Unbuilt s t where
  empty l hl := by
    cases hat : (t.makeFolders s.generatedFolder).2.at? l with
    | none => rfl
    | some e =>
      rw [hempty _ (at?_eq_some_iff.1 hat)] at hl
      cases hl
  cache := by
    obtain ⟨c, hc, rfl | hheld⟩ := BuildCache.load_answer s.cachePath _
    · exact hc
    · rw [hheld] at hcache
      cases hcache

theorem unbuilt_twoShaders : Unbuilt settings twoShaders := by
  refine unbuilt_of_entries ?_ ?_
  · decide +kernel
  · decide +kernel

theorem named_twoShaders : (named twoShaders).1.toOption =
    some { compiled := 2, headersWritten := 3 } := by
  decide +kernel

theorem found_twoShaders : (FileSet.found settings twoShaders).toOption.any (fun fs =>
    decide (∀ f ∈ fs.files, ∀ g ∈ fs.files, ∀ d ∈ f.directives, ∀ e ∈ g.directives,
      d.name = e.name → f = g)) = true := by
  decide +kernel

/-- Two sources that declare the same name. -/
def namesakes : FileTree := withSources
  [("a.hlsl", textFile "// ShaderCompiler. Name: A\n" 1),
    ("b.hlsl", textFile "// ShaderCompiler. Name: A\n" 1)]

theorem unbuilt_namesakes : Unbuilt settings namesakes := by
  refine unbuilt_of_entries ?_ ?_
  · decide +kernel
  · decide +kernel

theorem named_namesakes : (named namesakes).1.toOption =
      some { compiled := 2, headersWritten := 3 } ∧
    ((named namesakes).2.tree.readText settings.shaderHeader).toOption = some
      ("// BeginInclude\n\t#include \"a_A_PS.h\"\n\t#include \"b_A_PS.h\"\n// EndInclude\n"
        ++ "// BeginShaderByteCode\n\tINIT_SHADER_BYTECODE(A);\n\tINIT_SHADER_BYTECODE(A);\n"
        ++ "// EndShaderByteCode\n").toList := by
  decide +kernel

end SmallProject

theorem two_names_registered : ∃ rows : List (String × Directive),
    (rows.map (·.2.name)).Nodup ∧
    Text.lines (registrations rows).toList = (rows.map fun row =>
      ("\tINIT_SHADER_BYTECODE(" ++ row.2.name ++ ");").toList) ∧
    Spliced (SmallProject.named SmallProject.twoShaders).2.tree
      (SmallProject.settings.shaderHeader,
        [⟨"Include", includes SmallProject.settings rows⟩,
          ⟨"ShaderByteCode", registrations rows⟩]) := by
  obtain ⟨fs, v, rows, hfound, -, -, hlines, -, -, hnodup, hspliced⟩ :=
    directives_are_registered_once_each SmallProject.declares_naming
      (SmallProject.runOn_of_named SmallProject.named_twoShaders) rfl
      SmallProject.unbuilt_twoShaders
  have hfiles := SmallProject.found_twoShaders
  rw [hfound] at hfiles
  refine ⟨rows, hnodup.2 ?_, hlines, hspliced (by decide)⟩
  simpa [Except.toOption] using hfiles

/-- Nothing keeps two files from declaring the same name. Their outputs are apart, and both are
included and registered, so that the array of that name is defined twice. -/
theorem name_is_registered_twice : SmallProject.naming.Declares ∧
    Unbuilt SmallProject.settings SmallProject.namesakes ∧
    (SmallProject.named SmallProject.namesakes).1.toOption =
      some { compiled := 2, headersWritten := 3 } ∧
    ((SmallProject.named SmallProject.namesakes).2.tree.readText
      SmallProject.settings.shaderHeader).toOption = some
      ("// BeginInclude\n\t#include \"a_A_PS.h\"\n\t#include \"b_A_PS.h\"\n// EndInclude\n"
        ++ "// BeginShaderByteCode\n\tINIT_SHADER_BYTECODE(A);\n\tINIT_SHADER_BYTECODE(A);\n"
        ++ "// EndShaderByteCode\n").toList :=
  ⟨SmallProject.declares_naming, SmallProject.unbuilt_namesakes, SmallProject.named_namesakes⟩

end ShaderBuild
