import Mathlib.Data.List.Forall2
import ShaderBuild.Proofs.Action
import ShaderBuild.Proofs.FileTree.Change
import ShaderBuild.Target.Header

/-!
# What generating headers alters

Reading the outputs only looks (`looks_shaderRegions`), and generating does nothing to the tree but
write headers (`generate_moves`); so it alters no file but the three headers, however it ends
(`generate_altersOnly`).
-/

namespace ShaderBuild

/-- The three headers that are generated. -/
def Settings.headers (s : Settings) : List Path :=
  [s.shaderHeader, s.constantBufferHeader, s.vertexLayoutHeader]

namespace Target

open Action FileTree

variable {s : Settings}

theorem looks_outputLines (s : Settings) (names : List String) : Looks (outputLines s names) := by
  induction names with
  | nil => exact looks_pure _
  | cons name names ih =>
    unfold outputLines
    refine (looks_look _ _).bind fun text => ?_
    split
    · exact looks_throw _
    · exact ih.bind fun _ => looks_pure _

theorem looks_shaderRegions (s : Settings) : Looks (shaderRegions s) := by
  refine looks_tree.bind fun t => ?_
  split
  · exact looks_throw _
  · exact (looks_outputLines s _).bind fun _ => looks_pure _

/-- Every name has its include line and the registration of the array in its file. -/
theorem outputLines_ok_iff {t : FileTree} {names : List String} {lines : List (String × String)} :
    (outputLines s names).answer t = .ok lines ↔ List.Forall₂ (fun n line =>
      ∃ text array, t.readText (s.generatedFolder.child n) = .ok text ∧
        arrayName? text = some array ∧
        line = (includeLine s n, registration array)) names lines := by
  induction names generalizing lines with
  | nil =>
    rw [List.forall₂_nil_left_iff]
    exact ⟨fun h => (Except.ok.inj h).symm, fun h => by rw [h]; rfl⟩
  | cons n names ih =>
    rw [List.forall₂_cons_left_iff, outputLines, answer_ok_iff]
    constructor
    · rintro ⟨σ, h⟩
      obtain ⟨text, σ₁, hlook, h⟩ := runOn_bind_ok_iff.1 h
      obtain ⟨htext, rfl⟩ := look_ok_iff.1 hlook
      cases harray : arrayName? text with
      | none =>
        simp only [harray, runOn_throw] at h
        cases h
      | some array =>
        simp only [harray] at h
        obtain ⟨more, σ₂, hmore, h⟩ := runOn_bind_ok_iff.1 h
        cases h
        exact ⟨_, more, ⟨text, array, htext, harray, rfl⟩, ih.1 (answer_ok_iff.2 ⟨_, hmore⟩), rfl⟩
    · rintro ⟨_, more, ⟨text, array, htext, harray, rfl⟩, hmore, rfl⟩
      obtain ⟨σ, hmore⟩ := answer_ok_iff.1 (ih.2 hmore)
      refine ⟨σ, runOn_bind_ok_iff.2 ⟨text, _, look_ok_iff.2 ⟨htext, rfl⟩, ?_⟩⟩
      simp only [harray]
      exact runOn_bind_ok_iff.2 ⟨more, σ, hmore, rfl⟩

/-- The regions of the shader header are made from the files in the generated folder. -/
theorem shaderRegions_ok_iff {t : FileTree} {regions : List Region} :
    (shaderRegions s).answer t = .ok regions ↔ ∃ names lines,
      t.filesIn s.generatedFolder = .ok names ∧
      (outputLines s (names.filter fun n =>
        s.generatedExtension.toList.isSuffixOf n.toList)).answer t = .ok lines ∧
      regions = [⟨"Include", String.join (lines.map (·.1))⟩,
        ⟨"ShaderByteCode", String.join (lines.map (·.2))⟩] := by
  rw [answer_ok_iff]
  unfold shaderRegions
  constructor
  · rintro ⟨σ, h⟩
    rw [runOn_bind_of_ok (runOn_tree _)] at h
    cases hnames : t.filesIn s.generatedFolder with
    | error fault =>
      simp only [hnames, runOn_throw] at h
      cases h
    | ok names =>
      simp only [hnames] at h
      obtain ⟨lines, σ₁, hlines, h⟩ := runOn_bind_ok_iff.1 h
      cases h
      exact ⟨names, lines, rfl, answer_ok_iff.2 ⟨_, hlines⟩, rfl⟩
  · rintro ⟨names, lines, hnames, hlines, rfl⟩
    obtain ⟨σ, hlines⟩ := answer_ok_iff.1 hlines
    refine ⟨σ, ?_⟩
    rw [runOn_bind_of_ok (runOn_tree _)]
    simp only [hnames]
    exact runOn_bind_ok_iff.2 ⟨lines, σ, hlines, rfl⟩

/-- A row of replacements ends well when the first one does and then the others do. -/
theorem replaceAll_cons_ok_iff {header : Path × List Region} {headers : List (Path × List Region)}
    {written : Nat} {σ σ' : Session} :
    (replaceAll (header :: headers)).runOn σ = (.ok written, σ') ↔ ∃ first σ₁ more,
      (replace header.1 header.2).runOn σ = (.ok first, σ₁) ∧
      (replaceAll headers).runOn σ₁ = (.ok more, σ') ∧
      written = (if first then 1 else 0) + more := by
  obtain ⟨p, regions⟩ := header
  rw [replaceAll]
  constructor
  · intro h
    obtain ⟨first, σ₁, hfirst, h⟩ := runOn_bind_ok_iff.1 h
    obtain ⟨more, σ₂, hrest, h⟩ := runOn_bind_ok_iff.1 h
    cases h
    exact ⟨first, σ₁, more, hfirst, hrest, rfl⟩
  · rintro ⟨first, σ₁, more, hfirst, hrest, rfl⟩
    exact runOn_bind_ok_iff.2 ⟨first, σ₁, hfirst, runOn_bind_ok_iff.2 ⟨more, σ', hrest, rfl⟩⟩

theorem looks_forM_tell (notices : List Notice) : Looks (notices.forM Action.tell) := by
  induction notices with
  | nil => exact looks_pure ()
  | cons n notices ih => exact (looks_tell n).bind fun _ => ih

section

variable {R : FileTree → FileTree → Prop} (refl : ∀ t, R t t)
  (trans : ∀ t u v, R t u → R u v → R t v)

include refl trans

/-- Replacing regions does to the tree what writing the header does, if anything. -/
theorem replace_moves {p : Path} (write : ∀ t content, R t (t.write p content).2)
    (regions : List Region) : Moves R (replace p regions) := by
  unfold replace
  refine (looks_tree.moves refl).bind trans fun t => ?_
  have hupdate : Moves R (update p regions) := by
    unfold update
    refine ((looks_look _ _).moves refl).bind trans fun old => ?_
    split
    · exact (looks_throw _).moves refl
    · split
      · exact ((looks_tell _).bind fun _ => looks_pure _).moves refl
      · refine (moves_changeAt fun t => write t _).bind trans fun _ => ?_
        exact ((looks_tell _).bind fun _ => looks_pure _).moves refl
  split
  · exact ((looks_throw _).moves refl).bind trans fun _ => hupdate
  · exact hupdate

theorem replaceAll_moves (headers : List (Path × List Region))
    (write : ∀ p ∈ headers.map (·.1), ∀ t content, R t (t.write p content).2) :
    Moves R (replaceAll headers) := by
  induction headers with
  | nil => exact (looks_pure 0).moves refl
  | cons header headers ih =>
    obtain ⟨p, regions⟩ := header
    rw [replaceAll]
    have hfirst := replace_moves refl trans (write p List.mem_cons_self) regions
    have hrest := ih fun q hq => write q (List.mem_cons_of_mem _ hq)
    exact hfirst.bind trans fun written => hrest.bind trans fun more => (looks_pure _).moves refl

/-- Generating does to the tree what writing headers does. -/
theorem generate_moves (write : ∀ p ∈ s.headers, ∀ t content, R t (t.write p content).2)
    (ss : List Hlsl.Struct) : Moves R (generate s ss) := by
  unfold generate
  refine ((looks_shaderRegions s).moves refl).bind trans fun shader => ?_
  refine ((looks_forM_tell _).moves refl).bind trans fun _ => ?_
  exact replaceAll_moves refl trans [
    (s.shaderHeader, shader),
    (s.constantBufferHeader, [constantBuffers ss]),
    (s.vertexLayoutHeader, vertexLayouts ss)] write

end

/-- Replacing regions alters no file but the header. -/
theorem replace_altersOnly (p : Path) (regions : List Region) :
    Moves (AltersOnly (· = p)) (replace p regions) :=
  replace_moves (AltersOnly.refl _) altersOnly_trans (fun t => altersOnly_write t p) regions

theorem replaceAll_altersOnly (headers : List (Path × List Region)) :
    Moves (AltersOnly (· ∈ headers.map (·.1))) (replaceAll headers) :=
  replaceAll_moves (AltersOnly.refl _) altersOnly_trans headers fun _ hp => altersOnly_write_mem hp

/-- Generating headers alters no file but the headers. -/
theorem generate_altersOnly (s : Settings) (ss : List Hlsl.Struct) :
    Moves (AltersOnly (· ∈ s.headers)) (generate s ss) :=
  generate_moves (AltersOnly.refl _) altersOnly_trans (fun _ hp => altersOnly_write_mem hp) ss

/-! ## What generating tells -/

theorem tidy_shaderRegions (s : Settings) : Tidy (shaderRegions s) := by
  have hlines : ∀ names, Tidy (outputLines s names) := by
    intro names
    induction names with
    | nil => exact tidy_pure _
    | cons name names ih =>
      unfold outputLines
      refine (tidy_look _ _).bind fun text => ?_
      split
      · exact tidy_throw fun _ h => by cases h
      · exact ih.bind fun _ => tidy_pure _
  refine tidy_tree.bind fun t => ?_
  split
  · exact tidy_throw fun _ h => by cases h
  · exact (hlines _).bind fun _ => tidy_pure _

theorem tidy_replace (p : Path) (regions : List Region) : Tidy (replace p regions) := by
  have hupdate : Tidy (update p regions) := by
    unfold update
    refine (tidy_look _ _).bind fun old => ?_
    split
    · exact tidy_throw fun _ h => by cases h
    · split
      · exact (tidy_tell _).bind fun _ => tidy_pure _
      · exact (tidy_changeAt _ _).bind fun _ => (tidy_tell _).bind fun _ => tidy_pure _
  unfold replace
  refine tidy_tree.bind fun t => ?_
  split
  · exact (tidy_throw fun _ h => by cases h).bind fun _ => hupdate
  · exact hupdate

/-- Generating keeps what was told, and it does not end as if permutations had failed. -/
theorem tidy_generate (s : Settings) (ss : List Hlsl.Struct) : Tidy (generate s ss) := by
  have hall : ∀ headers, Tidy (replaceAll headers) := by
    intro headers
    induction headers with
    | nil => exact tidy_pure 0
    | cons header headers ih =>
      obtain ⟨p, regions⟩ := header
      rw [replaceAll]
      exact (tidy_replace p regions).bind fun _ => ih.bind fun _ => tidy_pure _
  exact (tidy_shaderRegions s).bind fun _ => (tidy_forM fun _ _ => tidy_tell _).bind fun _ => hall _

end Target

end ShaderBuild
