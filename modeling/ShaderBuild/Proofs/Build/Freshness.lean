import ShaderBuild.Proofs.Build.Truthful

/-!
# Builds that end well leave fresh outputs

When the compiler is a function of the sources and modification times tell when a file has changed,
all outputs are there and fresh after every build that ends well, whatever has happened before:
`build_leaves_fresh_outputs`.
-/

namespace ShaderBuild

open FileTree BuildCache

variable {compiler : Compiler} {text? : Directive → Path → FileTree → Option (List UInt8)}
  {s : Settings}

/-- **Builds are never stale.** After a build that ends well, every permutation of every file that
it found is compiled to what the compiler gives for the sources as they are. -/
theorem build_leaves_fresh_outputs (law : compiler.Computes text?) {report : Report} {σ : Session}
    {e : Event} {past : List Event}
    (h : History compiler s (sourceEdits s) (.built (.ok report) σ :: e :: past))
    (orderly : Orderly s (trees (.built (.ok report) σ :: e :: past)))
    (fresh : Fresh s (trees (.built (.ok report) σ :: e :: past))) :
    ∃ fs, FileSet.found s e.tree = .ok fs ∧ ∀ f ∈ fs.files,
      σ.tree.readText f.path = .ok f.content ∧
      ∀ pm ∈ f.permutations, ∃ content modified,
        text? pm.directive f.path σ.tree = some content ∧
        σ.tree.read pm.output = .ok (content, modified) := by
  cases h with
  | build before hbuild =>
    have truthful := truthful_of_history law.obeys before orderly.tail fresh.tail
    cases build_end law.writes hbuild with
    | upToDate rebuilt =>
      refine ⟨_, rebuilt.compared.found, fun f hf => ?_⟩
      exact rebuilt.outputs_fresh truthful orderly.tail law.obeys fresh.tail orderly
        (failedSources_of_clean rfl) hf
    | built rebuilt _ clean =>
      refine ⟨_, rebuilt.compared.found, fun f hf => ?_⟩
      exact rebuilt.outputs_fresh truthful orderly.tail law.obeys fresh.tail orderly
        (failedSources_of_clean clean) hf

/-! ## A history of a small project -/

namespace SmallProject

/-- One source includes another. -/
def including : FileTree := withSources
  [("a.hlsl", textFile "// ShaderCompiler. Name: A\n#include \"b.hlsl\"\n" 1),
    ("b.hlsl", textFile "float4 c;\n" 1)]

/-- The included source has changed since the build. -/
def edited : FileTree := (after including).tree.put ["s", "b.hlsl"] (textFile "float3 c;\n" 2)

/-- What has happened before the change. -/
def earlier : List Event :=
  [.built (.ok { compiled := 1, headersWritten := 3 }) (after including), .edited including]

theorem events_facts : report? edited = some { compiled := 1 } ∧
    report? including = some { compiled := 1, headersWritten := 3 } ∧
    (including.at? (settings.cachePath.locate including.here) = none) ∧
    (["s", "b.hlsl"] ≠ settings.cachePath.locate (after including).tree.here ∧
      isBelow (settings.generatedFolder.locate (after including).tree.here) ["s", "b.hlsl"]
        = false) ∧
    Orderly settings (trees (.built (.ok { compiled := 1 }) (after edited) :: .edited edited ::
      earlier)) ∧
    Fresh settings (trees (.built (.ok { compiled := 1 }) (after edited) :: .edited edited ::
      earlier)) := by
  decide +kernel

theorem history_events : History plain settings (sourceEdits settings)
    (.built (.ok { compiled := 1 }) (after edited) :: .edited edited :: earlier) := by
  obtain ⟨hsecond, hfirst, hstart, hedit, -, -⟩ := events_facts
  refine history_report (history_edit_after (history_report (.start hstart) hfirst) ?_) hsecond
  exact sourceEdits_put hedit

end SmallProject

theorem small_project_outputs_fresh : ∃ fs,
    FileSet.found SmallProject.settings SmallProject.edited = .ok fs ∧ ∀ f ∈ fs.files,
      (SmallProject.after SmallProject.edited).tree.readText f.path = .ok f.content ∧
      ∀ pm ∈ f.permutations, ∃ content modified,
        plainText? pm.directive f.path (SmallProject.after SmallProject.edited).tree
          = some content ∧
        (SmallProject.after SmallProject.edited).tree.read pm.output = .ok (content, modified) := by
  obtain ⟨-, -, -, -, orderly, fresh⟩ := SmallProject.events_facts
  have hfresh := build_leaves_fresh_outputs plain_computes SmallProject.history_events orderly fresh
  rw [Event.tree_edited] at hfresh
  exact hfresh

end ShaderBuild
