import ShaderBuild.Proofs.Build.Calls
import ShaderBuild.Proofs.Build.Jobs
import ShaderBuild.Proofs.Build.Tidy
import ShaderBuild.Proofs.Cache.Due

/-!
# Builds that stop at the sources

A build that stops because of the shader files has not run the compiler. When the fault shows in a
directive, between files or in an include, the project is as it was. A malformed struct shows only
behind the comparison with the cache, which may have deleted outputs by then
(`source_fault_leaves_project`).
-/

namespace ShaderBuild

open Action FileTree

/-! ## Faults of the sources -/

/-- Whether an error lies in the shader files: in a directive, an include or a struct, or in files
that share an identity or an output. -/
def Error.isSourceFault : Error → Bool
  | .missingTag .. | .unknownStage .. | .duplicatePermutation .. => true
  | .duplicateIdentity .. | .duplicateOutput .. => true
  | .unresolvedInclude .. | .includeNotScanned .. | .includeCycle .. => true
  | .malformedField .. | .namelessStruct .. | .unterminatedStruct .. | .duplicateStructs .. => true
  | _ => false

/-- The error is not one of the shader files. -/
abbrev Error.LiesElsewhere (e : Error) : Prop := e.isSourceFault = false

theorem BuildCache.DeletionFault.liesElsewhere {e : Error} (h : BuildCache.DeletionFault e) :
    e.LiesElsewhere := by
  obtain ⟨p, rfl | ⟨fault, rfl⟩⟩ := h <;> rfl

namespace Target

theorem failsBy_shaderRegions (s : Settings) :
    FailsBy Error.LiesElsewhere (shaderRegions s) := by
  have hlines : ∀ names, FailsBy Error.LiesElsewhere (outputLines s names) := by
    intro names
    induction names with
    | nil => exact failsBy_pure _
    | cons name names ih =>
      unfold outputLines
      refine (failsBy_look (fun _ => rfl) _).bind fun text => ?_
      split
      · exact failsBy_throw rfl
      · exact ih.bind fun _ => failsBy_pure _
  refine failsBy_tree.bind fun t => ?_
  split
  · exact failsBy_throw rfl
  · exact (hlines _).bind fun _ => failsBy_pure _

theorem failsBy_replace (p : Path) (regions : List Region) :
    FailsBy Error.LiesElsewhere (replace p regions) := by
  have hupdate : FailsBy Error.LiesElsewhere (update p regions) := by
    unfold update
    refine (failsBy_look (fun _ => rfl) _).bind fun old => ?_
    split
    · exact failsBy_throw rfl
    · split
      · exact (failsBy_tell _).bind fun _ => failsBy_pure _
      · refine (failsBy_changeAt (fun _ => rfl) _).bind fun _ => ?_
        exact (failsBy_tell _).bind fun _ => failsBy_pure _
  unfold replace
  refine failsBy_tree.bind fun t => ?_
  split
  · exact (failsBy_throw (E := Error.LiesElsewhere) rfl).bind fun _ => hupdate
  · exact hupdate

/-- Headers are not generated for reasons of their own: a missing file, marker or byte array. -/
theorem failsBy_generate (s : Settings) (ss : List Hlsl.Struct) :
    FailsBy Error.LiesElsewhere (generate s ss) := by
  have hall : ∀ headers, FailsBy Error.LiesElsewhere (replaceAll headers) := by
    intro headers
    induction headers with
    | nil => exact failsBy_pure 0
    | cons header headers ih =>
      obtain ⟨p, regions⟩ := header
      rw [replaceAll]
      exact (failsBy_replace p regions).bind fun _ => ih.bind fun _ => failsBy_pure _
  exact (failsBy_shaderRegions s).bind fun _ =>
    (failsBy_forM fun _ _ => failsBy_tell _).bind fun _ => hall _

end Target

theorem BuildCache.failsBy_save (c : BuildCache) (p : Path) :
    FailsBy Error.LiesElsewhere (c.save p) := by
  intro σ σ' e hrun
  rcases BuildCache.save_cases hrun with ⟨q, fault, heq, -⟩ | ⟨heq, -⟩
  · cases heq
    rfl
  · cases heq

variable {compiler : Compiler} {s : Settings} {c : BuildCache} {fs : FileSet} {e : Error}
  {σ σ' : Session}

/-- Behind the structs, compiling fails for other reasons than the sources. -/
theorem failsBy_compileStale {ss : List Hlsl.Struct} (hstructs : fs.structs = .ok ss) :
    FailsBy Error.LiesElsewhere (compileStale compiler s fs) := by
  unfold compileStale
  rw [hstructs]
  refine FailsBy.bind (fun σ σ' e h => ?_) fun ss => ?_
  · rw [runOn_lift] at h
    cases h
  refine FailsBy.bind (fun σ σ' e h => ?_) fun results => ?_
  · obtain ⟨log, hall⟩ := runOn_compileAll compiler s.jobs fs.staleJobs σ
    rw [hall] at h
    cases h
  split
  · exact (Target.failsBy_generate s ss).bind fun _ => (BuildCache.failsBy_save _ _).bind
      fun _ => (failsBy_tell _).bind fun _ => failsBy_pure _
  · exact (BuildCache.failsBy_save _ _).bind fun _ => failsBy_throw rfl

/-- When compiling stops because of the sources, a struct is at fault and nothing was done. -/
theorem compileStale_sourceFault (h : (compileStale compiler s fs).runOn σ = (.error e, σ'))
    (hsource : e.isSourceFault = true) : fs.structs = .error e ∧ σ' = σ := by
  cases hstructs : fs.structs with
  | ok ss =>
    have helsewhere := failsBy_compileStale hstructs _ _ _ h
    rw [Error.LiesElsewhere, hsource] at helsewhere
    cases helsewhere
  | error fault =>
    unfold compileStale at h
    rw [hstructs] at h
    rcases runOn_bind_error_iff.1 h with h | ⟨ss, σ₁, h, -⟩
    · rw [runOn_lift] at h
      exact ⟨congrArg Prod.fst h, (congrArg Prod.snd h).symm⟩
    · rw [runOn_lift] at h
      cases h

/-! ## What such a build leaves behind -/

/-- A cache and the files of a set are about to be compared in a tree. -/
structure Ready (s : Settings) (t : FileTree) (c : BuildCache) (fs : FileSet) : Prop where
  loaded : (BuildCache.load s.cachePath).answer t = .ok c
  scanned : (FileSet.scan s).answer t = .ok fs
  included : ∃ graph, fs.graph t = .ok graph

theorem Ready.eq {t : FileTree} {c' : BuildCache} {fs' : FileSet} (h : Ready s t c fs)
    (h' : Ready s t c' fs') : c' = c ∧ fs' = fs :=
  ⟨Except.ok.inj (h'.loaded.symm.trans h.loaded), Except.ok.inj (h'.scanned.symm.trans h.scanned)⟩

/-- Where comparing stops because of the sources, nothing was ready to be compared. -/
theorem compareFiles_sourceFault (h : (compareFiles s).runOn σ = (.error e, σ'))
    (hsource : e.isSourceFault = true)
    (hfolder : σ.tree.find s.generatedFolder = .ok .folder) :
    σ'.tree = σ.tree ∧ ∀ c fs, ¬ Ready s σ.tree c fs := by
  have hmade := makeFolders_of_found (.inr hfolder)
  rcases compareFiles_phases h with ⟨fault, -, hr, -⟩ | ⟨e', hr, hmade', hfault⟩ |
    ⟨c, fs, graph, σ₁, -, -, -, -, hdiff⟩
  · cases hr
    cases hsource
  · rw [hmade] at hmade'
    cases hr
    obtain ⟨-, htree⟩ := Prod.mk.inj hmade'
    rw [← htree] at hfault
    refine ⟨htree.symm, fun c fs hready => ?_⟩
    rcases hfault with hscan | ⟨fs', hscan, hgraph⟩
    · rw [hready.scanned] at hscan
      cases hscan
    · rw [hready.scanned] at hscan
      cases hscan
      obtain ⟨graph, hok⟩ := hready.included
      rw [hok] at hgraph
      cases hgraph
  · rw [(BuildCache.failsBy_diff c s fs graph _ _ _ hdiff).liesElsewhere] at hsource
    cases hsource

/-- Where comparing goes well, what was ready has been compared. -/
theorem compareFiles_ready {answer : Bool × FileSet}
    (h : (compareFiles s).runOn σ = (.ok answer, σ'))
    (hfolder : σ.tree.find s.generatedFolder = .ok .folder) :
    ∃ c fs, Ready s σ.tree c fs ∧ ∃ (graph : IncludeGraph fs.size) (σ₁ : Session),
      σ₁.tree = σ.tree ∧ (c.diff s fs graph).runOn σ₁ = (.ok answer, σ') := by
  have hmade := makeFolders_of_found (.inr hfolder)
  rcases compareFiles_phases h with ⟨fault, -, hr, -⟩ | ⟨e', hr, -⟩ |
    ⟨c, fs, graph, σ₁, hmade', hload, hscan, hgraph, hdiff⟩
  · cases hr
  · cases hr
  · rw [hmade] at hmade'
    obtain ⟨-, htree⟩ := Prod.mk.inj hmade'
    rw [← htree] at hload hscan hgraph
    exact ⟨c, fs, ⟨hload, hscan, graph, hgraph⟩, graph, σ₁, htree.symm, hdiff⟩

/-- A build that stops because of the sources stops before anything is compared, or it stops behind
a comparison that went well. -/
theorem build_sourceFault (h : (build compiler s).runOn σ = (.error e, σ'))
    (hsource : e.isSourceFault = true)
    (hfolder : σ.tree.find s.generatedFolder = .ok .folder) : σ'.calls = σ.calls ∧
      ((σ'.tree = σ.tree ∧ ∀ c fs, ¬ Ready s σ.tree c fs) ∨
        ∃ c fs, Ready s σ.tree c fs ∧ fs.structs = .error e ∧
          ∃ (graph : IncludeGraph fs.size) (σ₁ : Session) (answer : Bool × FileSet),
            σ₁.tree = σ.tree ∧ (c.diff s fs graph).runOn σ₁ = (.ok answer, σ')) := by
  rw [build_eq] at h
  rcases runOn_bind_error_iff.1 h with h | ⟨⟨changed, fs'⟩, σ₂, hcompare, h⟩
  · exact ⟨(tidy_compareFiles s).calls_eq h, .inl (compareFiles_sourceFault h hsource hfolder)⟩
  · have hcalls := (tidy_compareFiles s).calls_eq hcompare
    obtain ⟨c, fs, hready, graph, σ₁, htree, hdiff⟩ := compareFiles_ready hcompare hfolder
    cases changed with
    | false =>
      simp only [Bool.false_eq_true, if_false] at h
      cases h
    | true =>
      obtain ⟨hstructs, rfl⟩ := compileStale_sourceFault h hsource
      -- the files that are compiled are those of the scan, with marks
      obtain ⟨removed, examined, -, -, -, -, -, -, rfl, -⟩ := BuildCache.diff_phases hdiff
      rw [FileSet.structs_congr texts_marked] at hstructs
      exact ⟨hcalls, .inr ⟨c, fs, hready, hstructs, graph, σ₁, _, htree, hdiff⟩⟩

/-- **A build stopped by a source fault.** The compiler was not called. The tree is as it was, unless
the fault is in a struct: then the comparison has been made, and the disposable files that the
cache lists are gone. So the tree is as it was exactly when there were none of these. -/
theorem source_fault_leaves_project (h : (build compiler s).runOn σ = (.error e, σ'))
    (hsource : e.isSourceFault = true)
    (hfolder : σ.tree.find s.generatedFolder = .ok .folder) : σ'.calls = σ.calls ∧
      (σ'.tree = σ.tree ∨ ∃ c fs, Ready s σ.tree c fs ∧ fs.structs = .error e ∧
        Deletes (fun p => c.Disposable s fs p ∧ σ.tree.isFile p = true) σ.tree σ'.tree) ∧
      (σ'.tree = σ.tree ↔
        ∀ c fs, Ready s σ.tree c fs → ∀ o, c.Doomed fs o → σ.tree.isFile o = false) := by
  obtain ⟨hcalls, ⟨htree, hnone⟩ | ⟨c, fs, hready, hstructs, graph, σ₁, answer, htree, hdiff⟩⟩ :=
    build_sourceFault h hsource hfolder
  · exact ⟨hcalls, .inl htree, fun _ c fs hready => absurd hready (hnone c fs), fun _ => htree⟩
  · obtain ⟨hdeletes, -⟩ := BuildCache.diff_disposes c s fs graph σ₁
    rw [hdiff, htree] at hdeletes
    refine ⟨hcalls, .inr ⟨c, fs, hready, hstructs, hdeletes⟩, fun hsame c' fs' hready' o ho => ?_,
      fun hclear => ?_⟩
    · obtain ⟨rfl, rfl⟩ := hready.eq hready'
      by_contra hfile
      obtain ⟨content, modified, hfind⟩ := isFile_iff.1 (Bool.not_eq_false _ ▸ hfile)
      obtain ⟨-, -, -, -, -, -, hgoal⟩ := goal_of_file hfind
      -- the comparison went well, so the file is gone
      have hgone := BuildCache.diff_deleted hdiff ho (by rw [htree]; exact hgoal)
      rw [hsame, file?_eq_some_iff.2 (at?_of_find hfind)] at hgone
      cases hgone
    · have hspared := BuildCache.diff_spares (fun o ho => by rw [htree]; exact hclear c fs hready o ho)
        s graph
      rwa [hdiff, htree] at hspared

/-! ## Faults in a small project -/

namespace SmallProject

/-- A shader with a struct whose only field has no name. -/
def faulty (seconds : Int) : Entry :=
  textFile "// ShaderCompiler. Name: A\nstruct S \x7b float; \x7d;\n" seconds

/-- One of two shaders was edited since the build. -/
def faultyShader : FileTree := (after twoShaders).tree.put ["s", "a.hlsl"] (faulty 2)

/-- One of two shaders was edited since the build, and the other removed. -/
def faultyRemoval : FileTree := oneShader.put ["s", "a.hlsl"] (faulty 2)

/-- What a build of a tree fails by, if it fails. -/
def fault? (t : FileTree) : Option Error :=
  match ((build plain settings).runOn { tree := t }).1 with
  | .ok _ => none
  | .error e => some e

theorem runOn_of_fault? {t : FileTree} {e : Error} (h : fault? t = some e) :
    (build plain settings).runOn { tree := t } = (.error e, after t) := by
  unfold fault? at h
  unfold after
  cases hrun : (build plain settings).runOn { tree := t } with
  | mk r σ =>
    rw [hrun] at h
    cases r with
    | ok x => cases h
    | error e' =>
      cases h
      rfl

theorem faultyShader_facts :
    fault? faultyShader = some (.malformedField "float" ⟨"s/a.hlsl"⟩ 2) ∧
    faultyShader.isFolder settings.generatedFolder = true ∧
    (faultyShader.at? ["g", "a_A_PS.h"]).isSome = true ∧
    ((after faultyShader).tree.entries = faultyShader.entries ∧
      (after faultyShader).tree.here = faultyShader.here ∧
      (after faultyShader).tree.clock = faultyShader.clock) := by
  decide +kernel

theorem faultyRemoval_facts :
    fault? faultyRemoval = some (.malformedField "float" ⟨"s/a.hlsl"⟩ 2) ∧
    faultyRemoval.isFolder settings.generatedFolder = true ∧
    (faultyRemoval.at? ["g", "b_B_PS.h"]).isSome = true ∧
    ((after faultyRemoval).tree.at? ["g", "b_B_PS.h"]).isSome = false ∧
    ((after faultyRemoval).tree.readText settings.shaderHeader).toOption = some
      ("// BeginInclude\n\t#include \"a_A_PS.h\"\n\t#include \"b_B_PS.h\"\n// EndInclude\n"
        ++ "// BeginShaderByteCode\n\tINIT_SHADER_BYTECODE(A);\n\tINIT_SHADER_BYTECODE(B);\n"
        ++ "// EndShaderByteCode\n").toList := by
  decide +kernel

end SmallProject

theorem FileTree.eq_of_entries {t u : FileTree} (entries : t.entries = u.entries)
    (here : t.here = u.here) (clock : t.clock = u.clock) : t = u := by
  cases t
  cases u
  simp only [FileTree.mk.injEq]
  exact ⟨entries, here, clock⟩

theorem small_project_spared_by_fault :
    (SmallProject.after SmallProject.faultyShader).calls = [] ∧
    (SmallProject.after SmallProject.faultyShader).tree = SmallProject.faultyShader ∧
    ∀ c fs, Ready SmallProject.settings SmallProject.faultyShader c fs →
      ∀ o, c.Doomed fs o → SmallProject.faultyShader.isFile o = false := by
  obtain ⟨hfault, hfolder, -, hentries, hhere, hclock⟩ := SmallProject.faultyShader_facts
  obtain ⟨hcalls, -, hiff⟩ := source_fault_leaves_project (SmallProject.runOn_of_fault? hfault) rfl
    (find_of_isFolder hfolder)
  have hsame := FileTree.eq_of_entries hentries hhere hclock
  exact ⟨hcalls, hsame, hiff.1 hsame⟩

/-- Behind the removal of one shader, a malformed struct in the other is found too late: the output
of the removed one is deleted, and the shader header still includes it. -/
theorem fault_found_behind_deletion : ∃ e,
    (build plain SmallProject.settings).runOn { tree := SmallProject.faultyRemoval }
      = (.error e, SmallProject.after SmallProject.faultyRemoval) ∧ e.isSourceFault = true ∧
    SmallProject.faultyRemoval.find SmallProject.settings.generatedFolder = .ok .folder ∧
    (SmallProject.after SmallProject.faultyRemoval).tree ≠ SmallProject.faultyRemoval ∧
    (SmallProject.faultyRemoval.at? ["g", "b_B_PS.h"]).isSome = true ∧
    (SmallProject.after SmallProject.faultyRemoval).tree.at? ["g", "b_B_PS.h"] = none ∧
    ((SmallProject.after SmallProject.faultyRemoval).tree.readText
      SmallProject.settings.shaderHeader).toOption = some
      ("// BeginInclude\n\t#include \"a_A_PS.h\"\n\t#include \"b_B_PS.h\"\n// EndInclude\n"
        ++ "// BeginShaderByteCode\n\tINIT_SHADER_BYTECODE(A);\n\tINIT_SHADER_BYTECODE(B);\n"
        ++ "// EndShaderByteCode\n").toList := by
  obtain ⟨hfault, hfolder, hbefore, hafter, hheader⟩ := SmallProject.faultyRemoval_facts
  refine ⟨_, SmallProject.runOn_of_fault? hfault, rfl, find_of_isFolder hfolder, fun hsame => ?_,
    hbefore, by simpa using hafter, hheader⟩
  rw [hsame, hbefore] at hafter
  cases hafter

end ShaderBuild
