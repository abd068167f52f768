import ShaderBuild.Proofs.Build.Respect
import ShaderBuild.Proofs.Build.Tidy
import ShaderBuild.Proofs.FileTree.Removal

/-!
# Rebuilding

A rebuild cleans and builds. Cleaning touches nothing but the cache file and the generated folder,
and when both are named without steps up it leaves nothing of them (`clean_erases`). Two projects
that differ there alone are then built to the same (`rebuild_erases_history`).
-/

namespace ShaderBuild

open Action FileTree

variable {s : Settings} {t u v : FileTree}

/-! ## Cleaning -/

/-- Two trees hold the same but for the cache file and the generated folder. -/
structure SameOutside (s : Settings) (t u : FileTree) : Prop where
  here : u.here = t.here
  entries : ∀ l, l ≠ s.cachePath.locate t.here → ¬ s.generatedFolder.locate t.here <+: l →
    u.at? l = t.at? l

namespace SameOutside

theorem symm (h : SameOutside s t u) : SameOutside s u t :=
  ⟨h.here.symm, fun l hcache hfolder => by
    rw [h.here] at hcache hfolder
    exact (h.entries l hcache hfolder).symm⟩

theorem trans (h : SameOutside s t u) (h' : SameOutside s u v) : SameOutside s t v :=
  ⟨h'.here.trans h.here, fun l hcache hfolder =>
    (h'.entries l (by rwa [h.here]) (by rwa [h.here])).trans (h.entries l hcache hfolder)⟩

end SameOutside

/-- Neither the cache file nor the generated folder is there. -/
structure Erased (s : Settings) (t : FileTree) : Prop where
  cache : t.at? (s.cachePath.locate t.here) = none
  folder : ∀ l, s.generatedFolder.locate t.here <+: l → t.at? l = none

/-- Cleaning touches nothing but the cache file and the generated folder. -/
theorem clean_sameOutside (s : Settings) : Moves (SameOutside s) (clean s) := by
  refine Moves.bind (fun _ _ _ h h' => h.trans h') (moves_deleteAt fun t => ?_) fun _ =>
    moves_deleteAt fun t => ?_
  · refine ⟨(altersOnly_removeFile t _).here, fun l hcache _ => ?_⟩
    rcases removeFile_cases t s.cachePath with ⟨fault, heq⟩ | ⟨content, modified, hat, heq⟩
    · rw [heq]
    · rw [heq, at?_prune_file hat, if_neg hcache]
  · obtain ⟨here, hframe⟩ := removeFolder_frame t s.generatedFolder
    exact ⟨here, fun l _ hfolder => hframe l hfolder⟩

/-- **Cleaning leaves nothing** of a cache and a generated folder that are named by plain paths. -/
theorem clean_erases (hcache : s.cachePath.IsPlain) (hfolder : s.generatedFolder.IsPlain)
    {σ σ' : Session} (h : (clean s).runOn σ = (.ok (), σ')) : Erased s σ'.tree := by
  obtain ⟨_, σ₁, hfirst, hsecond⟩ := runOn_bind_ok_iff.1 h
  obtain ⟨htree₁, hremoved₁⟩ := deleteAt_ok hfirst
  obtain ⟨htree, hremoved⟩ := deleteAt_ok hsecond
  have hcacheGone := removeFile_erases hcache hremoved₁
  have hhere : σ'.tree.here = σ₁.tree.here := by
    rw [htree]
    exact (removeFolder_frame _ _).1
  have hhere₁ : σ₁.tree.here = σ.tree.here := by
    rw [htree₁]
    exact (altersOnly_removeFile _ _).here
  refine ⟨?_, fun l hl => ?_⟩
  · rw [hhere, htree, hhere₁]
    refine removeFolder_none ?_
    rw [htree₁]
    exact hcacheGone
  · rw [hhere] at hl
    rw [htree]
    exact removeFolder_erases hfolder hremoved hl

/-- Where nothing is left of what may differ, two trees are alike. -/
theorem SameOutside.alike (h : SameOutside s t u) (ht : Erased s t) (hu : Erased s u) :
    Alike true t u := by
  refine .of_at?_eq h.here fun l => ?_
  by_cases hfolder : s.generatedFolder.locate t.here <+: l
  · rw [ht.folder l hfolder, hu.folder l (by rwa [h.here])]
  by_cases hcache : l = s.cachePath.locate t.here
  · have hgone := hu.cache
    rw [h.here] at hgone
    rw [hcache, ht.cache, hgone]
  · exact h.entries l hcache hfolder

/-! ## Rebuilding -/

/-- **A rebuild erases history.** Of two trees that hold the same but for the cache file and the
generated folder, both are cleaned. When the cache and the folder are named by plain paths, nothing
is left of them then. And when nothing is left of them, a rebuild answers the same for both trees,
be it a report or an error, and leaves the same files and folders with the same contents. -/
theorem rebuild_erases_history {shell : Shell} {σ σ₁ τ τ₁ : Session}
    (hcompiler : (s.compilerFor shell s.shaderModel).Deterministic)
    (agree : SameOutside s σ.tree τ.tree) (hσ : (clean s).runOn σ = (.ok (), σ₁))
    (hτ : (clean s).runOn τ = (.ok (), τ₁)) :
    (s.cachePath.IsPlain → s.generatedFolder.IsPlain → Erased s σ₁.tree ∧ Erased s τ₁.tree) ∧
    (Erased s σ₁.tree → Erased s τ₁.tree →
      ((Operation.rebuild.perform shell s).runOn σ).1
        = ((Operation.rebuild.perform shell s).runOn τ).1 ∧
      Alike false ((Operation.rebuild.perform shell s).runOn σ).2.tree
        ((Operation.rebuild.perform shell s).runOn τ).2.tree) := by
  refine ⟨fun hcache hfolder => ⟨clean_erases hcache hfolder hσ, clean_erases hcache hfolder hτ⟩,
    fun herased herased' => ?_⟩
  have hσ' := (clean_sameOutside s).of_runOn hσ
  have hτ' := (clean_sameOutside s).of_runOn hτ
  have halike := ((hσ'.symm.trans agree).trans hτ').alike herased herased'
  obtain ⟨hanswer, htree⟩ := build_matches hcompiler s σ₁ τ₁ halike
  unfold Operation.perform
  rw [runOn_bind_of_ok hσ, runOn_bind_of_ok hτ]
  exact ⟨agree_eq_iff.1 hanswer, htree⟩

/-! ## Rebuilding a small project -/

theorem sameOutside_put {l : Location}
    (h : l = s.cachePath.locate t.here ∨ s.generatedFolder.locate t.here <+: l) (e : Entry) :
    SameOutside s t (t.put l e) := by
  refine ⟨here_put t l e, fun m hcache hfolder => ?_⟩
  by_cases hput : t.CanPut l
  · rw [at?_put hput, if_neg]
    rintro rfl
    exact h.elim hcache hfolder
  · rw [put_of_not hput]

theorem sameOutside_prune : SameOutside s t (t.prune (s.generatedFolder.locate t.here)) :=
  ⟨rfl, fun _ _ hfolder => at?_prune_of_apart hfolder⟩

namespace SmallProject

/-- A program that copies its first argument behind the declaration of a byte array, to the file
that its third argument names. -/
def copying : Shell := fun command t =>
  match command.arguments with
  | source :: _ :: output :: _ =>
    match t.readText ⟨source⟩ with
    | .error _ => (.ended false "" "no source\n", t)
    | .ok text =>
      match t.writeText ⟨output⟩ ("const BYTE g_main[] =\n".toList ++ text) with
      | (.ok (), u) => (.ended true "" "", u)
      | (.error _, u) => (.ended false "" "no output\n", u)
  | _ => (.ended true "" "", t)

theorem deterministic_copying (toolchain : Toolchain) :
    (toolchain.compiler copying).Deterministic := by
  refine toolchain.deterministic_compiler fun command t u h => ?_
  unfold copying
  split
  · next source _ output _ _ =>
    rw [h.readText_eq]
    split
    · exact ⟨rfl, h⟩
    · next text _ =>
      obtain ⟨hanswer, htree⟩ := h.write ⟨output⟩
        (Text.encode ("const BYTE g_main[] =\n".toList ++ text))
      unfold writeText
      generalize t.write _ _ = written at hanswer htree ⊢
      generalize u.write _ _ = written' at hanswer htree ⊢
      obtain ⟨r, t'⟩ := written
      obtain ⟨r', u'⟩ := written'
      obtain rfl : r' = r := hanswer
      cases r' with
      | ok _ => exact ⟨rfl, htree⟩
      | error fault => exact ⟨rfl, htree⟩
  · exact ⟨rfl, h⟩

/-- Two shaders beside what some other build has left. -/
def littered : FileTree :=
  ((twoShaders.put ["g"] .folder).put ["g", "old.h"] (textFile "const BYTE g_old[] =\n" 1)).put ["c"]
    (textFile "no cache" 1)

/-- What a rebuild answers, if it ends well. -/
def rebuilt? (s : Settings) (t : FileTree) : Option Report :=
  ((Operation.rebuild.perform copying s).runOn { tree := t }).1.toOption

theorem littered_facts : rebuilt? settings twoShaders = some { compiled := 2, headersWritten := 3 } ∧
    ((clean settings).runOn { tree := twoShaders }).1.isOk = true ∧
    ((clean settings).runOn { tree := littered }).1.isOk = true ∧
    (littered.at? ["g", "old.h"]).isSome = true ∧ (littered.at? ["c"]).isSome = true ∧
    settings.cachePath.IsPlain ∧ settings.generatedFolder.IsPlain := by
  decide +kernel

theorem sameOutside_littered : SameOutside settings twoShaders littered := by
  refine .trans (sameOutside_put (.inr ?_) _) (.trans (sameOutside_put (.inr ?_) _)
    (sameOutside_put (.inl ?_) _))
  all_goals decide +kernel

/-- The cache lies beside the generated folder, and its path leads through that folder. -/
def roundabout : Settings := { settings with cachePath := ⟨"g/../c"⟩ }

/-- A shader without permutations, when everything is built. -/
def settled : FileTree :=
  ((build plain roundabout).runOn
    { tree := withSources [("a.hlsl", textFile "float4 a;\n" 1)] }).2.tree

/-- The generated folder was removed since the build. -/
def unfoldered : FileTree := settled.prune (roundabout.generatedFolder.locate settled.here)

theorem unfoldered_facts :
    rebuilt? roundabout settled = some {} ∧ rebuilt? roundabout unfoldered = some { upToDate := true } ∧
    ((clean roundabout).runOn { tree := settled }).1.isOk = true ∧
    ((clean roundabout).runOn { tree := unfoldered }).1.isOk = true := by
  decide +kernel

theorem runOn_of_isOk {a : Action Unit} {σ : Session} (h : (a.runOn σ).1.isOk = true) :
    a.runOn σ = (.ok (), (a.runOn σ).2) := by
  cases hrun : a.runOn σ with
  | mk r σ' =>
    rw [hrun] at h
    cases r with
    | error e => cases h
    | ok u => rfl

theorem perform_of_rebuilt? {report : Report} (h : rebuilt? s t = some report) :
    ((Operation.rebuild.perform copying s).runOn { tree := t }).1 = .ok report :=
  ok_of_toOption h

end SmallProject

theorem small_project_rebuilt_alike :
    ((Operation.rebuild.perform SmallProject.copying SmallProject.settings).runOn
      { tree := SmallProject.littered }).1 = .ok { compiled := 2, headersWritten := 3 } ∧
    Alike false
      ((Operation.rebuild.perform SmallProject.copying SmallProject.settings).runOn
        { tree := SmallProject.twoShaders }).2.tree
      ((Operation.rebuild.perform SmallProject.copying SmallProject.settings).runOn
        { tree := SmallProject.littered }).2.tree := by
  obtain ⟨hreport, hclean, hclean', -, -, hcache, hfolder⟩ := SmallProject.littered_facts
  obtain ⟨herased, hrebuild⟩ := rebuild_erases_history (SmallProject.deterministic_copying _)
    SmallProject.sameOutside_littered (SmallProject.runOn_of_isOk hclean)
    (SmallProject.runOn_of_isOk hclean')
  obtain ⟨ht, hu⟩ := herased hcache hfolder
  obtain ⟨hanswer, halike⟩ := hrebuild ht hu
  rw [SmallProject.perform_of_rebuilt? hreport] at hanswer
  exact ⟨hanswer.symm, halike⟩

/-- A cache whose path leads through the generated folder is not found when that folder is missing.
Cleaning then leaves it, and a rebuild finds that everything is up to date. -/
theorem missing_folder_hides_cache :
    (SmallProject.roundabout.compilerFor SmallProject.copying
      SmallProject.roundabout.shaderModel).Deterministic ∧
    SameOutside SmallProject.roundabout SmallProject.settled SmallProject.unfoldered ∧
    (∃ σ τ, (clean SmallProject.roundabout).runOn { tree := SmallProject.settled } = (.ok (), σ) ∧
      (clean SmallProject.roundabout).runOn { tree := SmallProject.unfoldered } = (.ok (), τ)) ∧
    ((Operation.rebuild.perform SmallProject.copying SmallProject.roundabout).runOn
      { tree := SmallProject.settled }).1 = .ok { upToDate := false } ∧
    ((Operation.rebuild.perform SmallProject.copying SmallProject.roundabout).runOn
      { tree := SmallProject.unfoldered }).1 = .ok { upToDate := true } := by
  obtain ⟨hsettled, hunfoldered, hclean, hclean'⟩ := SmallProject.unfoldered_facts
  exact ⟨SmallProject.deterministic_copying _, sameOutside_prune,
    ⟨_, _, SmallProject.runOn_of_isOk hclean, SmallProject.runOn_of_isOk hclean'⟩,
    SmallProject.perform_of_rebuilt? hsettled, SmallProject.perform_of_rebuilt? hunfoldered⟩

end ShaderBuild
