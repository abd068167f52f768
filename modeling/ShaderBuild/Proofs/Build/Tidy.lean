import ShaderBuild.Proofs.Build.Unchanged

/-!
# When the generated folder is tidy

Behind a build that ends well the generated files are the outputs of the files that it found, and
the shader header lists them, as long as every build that compiled got to save the cache:
`generated_iff_produces`.
-/

namespace ShaderBuild

open FileTree BuildCache Target

variable {compiler : Compiler} {P : Job → FileTree → List UInt8 → Prop} {s : Settings}
  {t : FileTree} {n : String}

/-- The shader header lists the generated files of its tree. -/
theorem listedIn_of_generated {names : String → Prop} {shader : List Region}
    (hshader : (shaderRegions s).answer t = .ok shader)
    (h : ∀ n, (∃ content, generated? s t n = some content) ↔ names n) :
    ListedIn s t names shader := by
  have hnames : (fun n => ∃ content, generated? s t n = some content) = names :=
    funext fun n => propext (h n)
  rw [← hnames]
  exact listedIn_of_shaderRegions hshader

/-- A build that ends well has compiled what was marked and nothing has failed. When there was
something to do, the shader header has its regions. -/
theorem exists_rebuilt (hcompiler : compiler.Writes P) {report : Report} {σ : Session}
    (hbuild : (build compiler s).runOn { tree := t } = (.ok report, σ)) {past : List FileTree}
    (orderly : Orderly s (t :: past)) (elsewhere : TargetsElsewhere s t.here)
    (named : σ.tree.WellNamed) :
    ∃ c fs graph stale changed σ₁ σ₂ v results,
      Rebuilt (Gives fun _ _ _ _ => True) s t c fs graph stale changed σ₁ σ₂ v σ.tree results ∧
        failedSources (marked fs graph stale).staleJobs results = [] ∧
        (report.upToDate = false → ∃ shader, (shaderRegions s).answer σ.tree = .ok shader ∧
          Spliced σ.tree (s.shaderHeader, shader)) := by
  cases build_end hcompiler.obeys.writes hbuild with
  | upToDate rebuilt _ _ _ _ =>
    -- what is marked is nothing
    exact ⟨_, _, _, _, _, _, _, _, _, rebuilt, failedSources_of_clean rfl, fun h => by cases h⟩
  | built rebuilt _ clean generated saved _ =>
    refine ⟨_, _, _, _, _, _, _, _, _, rebuilt, failedSources_of_clean clean, fun _ => ?_⟩
    obtain ⟨shader, hshader, hspliced⟩ := rebuilt.exists_spliced orderly elsewhere named generated
      saved
    exact ⟨shader, hshader, (hspliced _ List.mem_cons_self).spliced⟩

/-- **When the generated folder is tidy.** Behind a build that ends well the generated files are
the outputs of the files that it found, exactly when the cache that it loaded lists every other
generated file in front of it. That is so when no build before has compiled without saving the
cache, and then the regions that were last put into the shader header list the outputs and nothing
else. -/
theorem generated_iff_produces (hcompiler : compiler.Writes P) {report : Report} {σ : Session}
    {e : Event} {past : List Event}
    (h : History compiler s (sealedEdits s) (.built (.ok report) σ :: e :: past))
    (orderly : Orderly s (trees (.built (.ok report) σ :: e :: past)))
    (fresh : Fresh s (trees (.built (.ok report) σ :: e :: past)))
    (elsewhere : ∀ t ∈ trees (e :: past), TargetsElsewhere s t.here) :
    ∃ c fs, (BuildCache.load s.cachePath).answer (e.tree.makeFolders s.generatedFolder).2 = .ok c ∧
      FileSet.found s e.tree = .ok fs ∧
      ((∀ n, Generated s σ.tree n ↔ fs.Produces s n) ↔
        ∀ n, Generated s e.tree n → fs.Produces s n ∨ c.Lists s n) ∧
      ((∀ event ∈ e :: past, ¬ event.Unsaved) → CacheReachable s (trees (e :: past)) →
        (∀ n, Generated s σ.tree n ↔ fs.Produces s n) ∧
        ∀ newer r₀ σ₀ e₀ older,
          .built (.ok report) σ :: e :: past = newer ++ .built r₀ σ₀ :: e₀ :: older →
          (Event.built r₀ σ₀).Complete → (∀ event ∈ newer, ¬ event.Complete) →
          ∃ shader, Spliced σ₀.tree (s.shaderHeader, shader) ∧
            ListedIn s σ₀.tree (fs.Produces s) shader) := by
  have hall := h
  cases h with
  | build before hbuild =>
  have law := hcompiler.obeys
  have truthful := truthful_of_history law before.of_sealed orderly.tail fresh.tail
  have helsewhere := elsewhere e.tree List.mem_cons_self
  obtain ⟨c, fs, graph, stale, changed, σ₁, σ₂, v, results, rebuilt, hgood, hgenerated⟩ :=
    exists_rebuilt hcompiler hbuild orderly.tail helsewhere (orderly.named σ.tree List.mem_cons_self)
  have htidy := rebuilt.generated_iff_produces_iff orderly.tail helsewhere truthful fresh.tail
    orderly hgood
  refine ⟨c, fs, ?_, rebuilt.compared.found, htidy, fun saved reachable => ?_⟩
  · rw [rebuilt.compared.made]
    exact rebuilt.compared.loaded
  have hfiles : ∀ n, Generated s σ.tree n ↔ fs.Produces s n := by
    refine htidy.2 fun n hn => .inr ?_
    obtain ⟨c', hheld, hlists⟩ := Accounted.of_history law before orderly.tail fresh.tail elsewhere
      reachable saved n hn
    rwa [rebuilt.compared.eq_of_heldAt (reachable e.tree List.mem_cons_self) hheld]
  refine ⟨hfiles, fun newer r₀ σ₀ e₀ older split complete last => ?_⟩
  cases newer with
  | nil =>
    cases split
    obtain ⟨report', heq, hcomplete⟩ := complete
    cases heq
    obtain ⟨shader, hshader, hspliced⟩ := hgenerated hcomplete
    refine ⟨shader, hspliced, listedIn_of_generated hshader fun n => ?_⟩
    rw [← generated_iff_exists]
    exact hfiles n
  | cons x newer =>
    rw [List.cons_append, List.cons_eq_cons] at split
    obtain ⟨rfl, hrest⟩ := split
    have upToDate : report.upToDate = true := by
      by_contra hnot
      exact last _ List.mem_cons_self ⟨report, rfl, by simpa using hnot⟩
    have last' := fun event hevent => last event (List.mem_cons_of_mem _ hevent)
    have saved' : ∀ event ∈ newer, ¬ event.Unsaved := fun event hevent =>
      saved event (by rw [hrest]; exact List.mem_append_left _ hevent)
    obtain ⟨report₀, rfl, hcomplete⟩ := complete
    obtain ⟨c', fs', ss, shader, unchanged⟩ := exists_unchanged hcompiler hall upToDate orderly fresh
      hrest last' hcomplete elsewhere reachable
    refine ⟨shader, (unchanged.spliced _ List.mem_cons_self).spliced,
      listedIn_of_generated unchanged.regions fun n => ?_⟩
    rw [← generated?_of_unchanged hcompiler hall upToDate orderly fresh hrest last' saved'
      unchanged n, ← generated_iff_exists]
    exact hfiles n

/-! ## Histories of a small project -/

namespace SmallProject

/-- Two sources with one permutation each. -/
def twoShaders : FileTree := withSources
  [("a.hlsl", textFile "// ShaderCompiler. Name: A\n" 1),
    ("b.hlsl", textFile "// ShaderCompiler. Name: B\n" 1)]

/-- One of them was removed since the build. -/
def oneShader : FileTree := (after twoShaders).tree.prune ["s", "b.hlsl"]

/-- What has happened then. -/
def removal : List Event :=
  [.built (.ok { headersWritten := 1 }) (after oneShader), .edited oneShader,
    .built (.ok { compiled := 2, headersWritten := 3 }) (after twoShaders), .edited twoShaders]

theorem removal_facts : report? oneShader = some { headersWritten := 1 } ∧
    report? twoShaders = some { compiled := 2, headersWritten := 3 } ∧
    (∀ entry ∈ twoShaders.entries, entry.1 ≠ settings.cachePath.locate twoShaders.here ∧
      isBelow (settings.generatedFolder.locate twoShaders.here) entry.1 = false) ∧
    (List.isPrefixOf ["s", "b.hlsl"] (settings.cachePath.locate (after twoShaders).tree.here)
        = false ∧
      List.isPrefixOf ["s", "b.hlsl"] (settings.generatedFolder.locate (after twoShaders).tree.here)
        = false ∧
      List.isPrefixOf (settings.generatedFolder.locate (after twoShaders).tree.here) ["s", "b.hlsl"]
        = false) ∧
    Orderly settings (trees removal) ∧ Fresh settings (trees removal) ∧
    (∀ t ∈ trees removal.tail, t.here = []) ∧ CacheReachable settings (trees removal.tail) := by
  decide +kernel

theorem history_removal : History plain settings (sealedEdits settings) removal := by
  obtain ⟨hsecond, hfirst, hstart, hedit, -, -, -, -⟩ := removal_facts
  refine history_report (history_edit_after (history_report (.start ?_) hfirst) ?_) hsecond
  · exact sealedEdits_starts hstart
  · exact sealedEdits_prune hedit

end SmallProject

theorem small_project_folder_tidy : ∃ fs,
    FileSet.found SmallProject.settings SmallProject.oneShader = .ok fs ∧
    (∀ n, Generated SmallProject.settings (SmallProject.after SmallProject.oneShader).tree n ↔
      fs.Produces SmallProject.settings n) ∧
    ∃ shader, Spliced (SmallProject.after SmallProject.oneShader).tree
        (SmallProject.settings.shaderHeader, shader) ∧
      ListedIn SmallProject.settings (SmallProject.after SmallProject.oneShader).tree
        (fs.Produces SmallProject.settings) shader := by
  obtain ⟨-, -, -, -, orderly, fresh, hhere, reachable⟩ := SmallProject.removal_facts
  have htidy := generated_iff_produces plain_computes.obeys.writes SmallProject.history_removal
    orderly fresh fun t ht => SmallProject.targetsElsewhere (hhere t ht)
  obtain ⟨c, fs, -, hfs, -, hsaved⟩ := htidy
  obtain ⟨hgenerated, hlast⟩ := hsaved (by simp [Event.Unsaved]) reachable
  refine ⟨fs, hfs, hgenerated, ?_⟩
  exact hlast [] _ _ _ _ rfl ⟨_, rfl, rfl⟩ fun _ hevent => by cases hevent

namespace SmallProject

/-- Two sources, and a header that has lost its markers. -/
def broken : FileTree := twoShaders.put ["y"] (textFile "" 0)

/-- One of the sources was removed since the build has failed. -/
def lessOne : FileTree := (after broken).tree.prune ["s", "b.hlsl"]

/-- The markers are in place again. -/
def mended : FileTree :=
  lessOne.put ["y"] (textFile "// BeginConstantBuffer\n// EndConstantBuffer\n" 0)

/-- A build has failed between two headers, and after the changes another one ends well. -/
def leftover : List Event :=
  [.built (.ok { compiled := 1, headersWritten := 2 }) (after mended), .edited mended,
    .edited lessOne, run broken, .edited broken]

theorem leftover_facts : report? mended = some { compiled := 1, headersWritten := 2 } ∧
    (∀ entry ∈ broken.entries, entry.1 ≠ settings.cachePath.locate broken.here ∧
      isBelow (settings.generatedFolder.locate broken.here) entry.1 = false) ∧
    (List.isPrefixOf ["s", "b.hlsl"] (settings.cachePath.locate (after broken).tree.here) = false ∧
      List.isPrefixOf ["s", "b.hlsl"] (settings.generatedFolder.locate (after broken).tree.here)
        = false ∧
      List.isPrefixOf (settings.generatedFolder.locate (after broken).tree.here) ["s", "b.hlsl"]
        = false) ∧
    (["y"] ≠ settings.cachePath.locate lessOne.here ∧
      isBelow (settings.generatedFolder.locate lessOne.here) ["y"] = false) ∧
    Orderly settings (trees leftover) ∧ Fresh settings (trees leftover) ∧
    (∀ t ∈ trees leftover, t.here = []) ∧ CacheReachable settings (trees leftover) ∧
    ((FileSet.found settings mended).toOption.any fun fs =>
      !decide (fs.Produces settings "b_B_PS.h")) = true ∧
    (generated? settings (after mended).tree "b_B_PS.h").isSome = true ∧
    ((after mended).tree.readText settings.shaderHeader).toOption = some
      ("// BeginInclude\n\t#include \"a_A_PS.h\"\n\t#include \"b_B_PS.h\"\n// EndInclude\n"
        ++ "// BeginShaderByteCode\n\tINIT_SHADER_BYTECODE(A);\n\tINIT_SHADER_BYTECODE(B);\n"
        ++ "// EndShaderByteCode\n").toList := by
  decide +kernel

end SmallProject

/-- A build that compiles and then misses a marker saves no cache. An output that nothing produces
any more is not deleted afterwards, and the shader header lists it. -/
theorem leftover_behind_lost_markers :
    History plain SmallProject.settings (sealedEdits SmallProject.settings) SmallProject.leftover ∧
    Orderly SmallProject.settings (trees SmallProject.leftover) ∧
    Fresh SmallProject.settings (trees SmallProject.leftover) ∧
    (∀ t ∈ trees SmallProject.leftover, TargetsElsewhere SmallProject.settings t.here) ∧
    CacheReachable SmallProject.settings (trees SmallProject.leftover) ∧
    (∃ fs, FileSet.found SmallProject.settings SmallProject.mended = .ok fs ∧
      ¬ fs.Produces SmallProject.settings "b_B_PS.h") ∧
    Generated SmallProject.settings (SmallProject.after SmallProject.mended).tree "b_B_PS.h" ∧
    ((SmallProject.after SmallProject.mended).tree.readText
      SmallProject.settings.shaderHeader).toOption = some
      ("// BeginInclude\n\t#include \"a_A_PS.h\"\n\t#include \"b_B_PS.h\"\n// EndInclude\n"
        ++ "// BeginShaderByteCode\n\tINIT_SHADER_BYTECODE(A);\n\tINIT_SHADER_BYTECODE(B);\n"
        ++ "// EndShaderByteCode\n").toList := by
  obtain ⟨hlast, hstart, hprune, hput, orderly, fresh, hhere, reachable, hfound, hgenerated,
    htext⟩ := SmallProject.leftover_facts
  refine ⟨?_, orderly, fresh, fun t ht => SmallProject.targetsElsewhere (hhere t ht), reachable, ?_,
    ?_, htext⟩
  · have hbroken := SmallProject.history_run (.start (sealedEdits_starts hstart))
    have hless := SmallProject.history_edit_after hbroken (sealedEdits_prune hprune)
    exact SmallProject.history_report (SmallProject.history_edit hless (sealedEdits_put hput)) hlast
  · cases hfs : FileSet.found SmallProject.settings SmallProject.mended with
    | error e =>
      rw [hfs] at hfound
      cases hfound
    | ok fs =>
      rw [hfs] at hfound
      refine ⟨fs, rfl, ?_⟩
      simpa [Except.toOption] using hfound
  · exact generated_iff_exists.2 (Option.isSome_iff_exists.1 hgenerated)

end ShaderBuild
