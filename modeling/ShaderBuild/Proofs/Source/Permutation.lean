import ShaderBuild.Proofs.Path.Component
import ShaderBuild.Proofs.Source.Index
import ShaderBuild.Proofs.Source.Output

/-!
# Permutations that are compiled to one path

A set takes no file with an output that another of its files has, but two permutations of one file
only have to differ in their names. A name may contain slashes, and then it has several spellings,
with empty segments and dots between the slashes. Permutations of one stage that spell their names
differently in this way are compiled to one path, and no others are
(`outputs_differ_unless_spelled_alike`).
-/

namespace ShaderBuild

open Path (ofChars)

variable {s : Settings} {path : Path} {d e : Directive}

/-! ## The outputs of one file -/

/-- Two directives that are compiled to one path: they have one stage, and their names are
spellings of one path as they stand between underscores. -/
def Directive.SharesOutput (d e : Directive) : Prop :=
  d.stage = e.stage ∧ Path.sameAs ⟨"_" ++ d.name ++ "_"⟩ ⟨"_" ++ e.name ++ "_"⟩ = true

instance (d e : Directive) : Decidable (d.SharesOutput e) :=
  inferInstanceAs (Decidable (_ ∧ _))

theorem Directive.path_of_name (d : Directive) :
    Path.mk ("_" ++ d.name ++ "_") = ofChars (('_' :: d.name.toList) ++ ['_']) := by
  rw [ofChars, Path.mk.injEq]
  apply String.toList_injective
  simp

/-- The output of a directive has its name and its stage between underscores, and the rest of it
does not depend on the directive. -/
theorem SourceFile.exists_outputPath (s : Settings) (path : Path) : ∃ front, ∀ d,
    outputPath s path d = ofChars (front ++ '_' :: (d.name.toList ++ '_' ::
      (d.stage.abbreviation.toList ++ s.generatedExtension.toList))) := by
  refine ⟨s.generatedFolder.front (Path.isAbsolute ⟨path.stem?.getD path.text ++ "_"⟩)
    ++ (path.stem?.getD path.text).toList, fun d => ?_⟩
  have habsolute : ∀ stem rest : String,
      (Path.mk (stem ++ "_" ++ rest)).isAbsolute = (Path.mk (stem ++ "_")).isAbsolute := by
    intro stem rest
    simp only [Path.isAbsolute, String.toList_append]
    cases stem.toList <;> rfl
  have hname : d.outputName path s.generatedExtension = path.stem?.getD path.text ++ "_" ++
      (d.name ++ "_" ++ d.stage.abbreviation ++ s.generatedExtension) := by
    simp only [Directive.outputName, String.append_assoc]
  rw [outputPath, Path.child, Path.join_eq, hname, habsolute]
  simp

/-- **Which permutations of a file share an output** -/
theorem SourceFile.sameAs_outputPath_iff :
    (outputPath s path d).sameAs (outputPath s path e) = true ↔ d.SharesOutput e := by
  obtain ⟨front, hfront⟩ := exists_outputPath s path
  have hlength : d.stage.abbreviation.toList.length = e.stage.abbreviation.toList.length := by
    cases d.stage <;> cases e.stage <;> rfl
  have hstage : d.stage.abbreviation.toList = e.stage.abbreviation.toList ↔ d.stage = e.stage := by
    cases d.stage <;> cases e.stage <;> decide
  have hends := Path.sameAs_append_right d.stage.not_slash_of_abbreviation
    e.stage.not_slash_of_abbreviation hlength (x := '_' :: d.name.toList)
    s.generatedExtension.toList (w := '_' :: e.name.toList)
  rw [List.cons_append, List.cons_append] at hends
  rw [hfront, hfront, Path.sameAs_append_left, hends, hstage, Directive.SharesOutput,
    d.path_of_name, e.path_of_name, and_comm]

/-- Names without slashes have one spelling. -/
theorem Directive.SharesOutput.name_eq (h : d.SharesOutput e) (hd : '/' ∉ d.name.toList)
    (he : '/' ∉ e.name.toList) : d.name = e.name := by
  obtain ⟨front, last, hcomponents⟩ := Path.exists_components []
  have hname : ∀ d : Directive, '/' ∉ d.name.toList →
      (Path.mk ("_" ++ d.name ++ "_")).components
        = front ++ [.name (String.ofList (last ++ '_' :: (d.name.toList ++ ['_'])))] := by
    intro d hd
    have hsplit := Path.splitSlash_of_not_mem (s := d.name.toList ++ ['_']) (by simp [hd])
    rw [d.path_of_name]
    exact hcomponents _ _ _ hsplit
  have heq := Path.sameAs_iff.1 h.2
  rw [hname d hd, hname e he] at heq
  simpa using heq

/-! ## The outputs of a set -/

theorem SourceFile.nodup_directives {modified : Timestamp} {content : List Char} {f : SourceFile}
    (h : SourceFile.ofText s path modified content = .ok f) :
    (f.permutations.map (·.directive.name)).Nodup := by
  obtain ⟨ds, hds, rfl⟩ := ofText_ok h
  have hnames := Directive.nodup_ofText hds
  simpa [Function.comp_def] using hnames

theorem SourceFile.output_eq {modified : Timestamp} {content : List Char} {f : SourceFile}
    (h : SourceFile.ofText s path modified content = .ok f) {p : Permutation}
    (hp : p ∈ f.permutations) : p.output = outputPath s f.path p.directive := by
  obtain ⟨ds, -, hf⟩ := ofText_ok h
  subst hf
  obtain ⟨d, -, heq⟩ := List.mem_map.1 hp
  subst heq
  simp only

/-- **Which permutations are compiled to one path.** A set of files that are read from any texts
has no permutation twice. Two permutations of it have the same path as their output exactly if they
are of one file and one stage, and their names are spellings of one path; so never if the names have
no slashes. -/
theorem outputs_differ_unless_spelled_alike {calls : List SourceFile}
    {answers : List (Except Error Unit)} {fs : FileSet}
    (hcalls : ∀ f ∈ calls, ∃ path modified content,
      SourceFile.ofText s path modified content = .ok f)
    (hfs : FileSet.offerAll {} calls = (answers, fs)) :
    (fs.files.flatMap fun f => f.permutations.map fun p => (f, p.directive)).Nodup ∧
    ∀ f ∈ fs.files, ∀ g ∈ fs.files, ∀ p ∈ f.permutations, ∀ q ∈ g.permutations,
      (f, p.directive) ≠ (g, q.directive) →
        (p.output.sameAs q.output = true ↔ f = g ∧ p.directive.SharesOutput q.directive) ∧
        ('/' ∉ p.directive.name.toList → '/' ∉ q.directive.name.toList →
          p.output.sameAs q.output = false) := by
  have hapart : fs.Apart := by
    have := FileSet.apart_offerAll calls
    rwa [hfs] at this
  have hread : ∀ f ∈ fs.files, ∃ path modified content,
      SourceFile.ofText s path modified content = .ok f := by
    intro f hf
    have hfiles := FileSet.files_offerAll {} calls
    rw [hfs, List.nil_append] at hfiles
    rw [hfiles] at hf
    exact hcalls f (mem_of_mem_taken hf)
  -- a directive is told by its name within its file, and a file by its identity
  have hshares : ∀ f ∈ fs.files, ∀ g ∈ fs.files, ∀ p ∈ f.permutations, ∀ q ∈ g.permutations,
      (p.output.sameAs q.output = true ↔ f = g ∧ p.directive.SharesOutput q.directive) := by
    intro f hf g hg p hp q hq
    obtain ⟨_, _, _, hofText⟩ := hread f hf
    rcases hapart.eq_or_later hf hg with rfl | hlater
    · rw [SourceFile.output_eq hofText hp, SourceFile.output_eq hofText hq,
        SourceFile.sameAs_outputPath_iff]
      simp
    · have hne : f ≠ g := by
        rintro rfl
        exact hlater.1 rfl
      rw [hlater.2 _ (List.mem_map_of_mem hp) _ (List.mem_map_of_mem hq)]
      simp [hne]
  constructor
  · rw [List.nodup_flatMap]
    refine ⟨fun f hf => ?_, hapart.imp fun {f g} hlater => ?_⟩
    · obtain ⟨_, _, _, hofText⟩ := hread f hf
      refine List.Nodup.of_map (·.2.name) ?_
      rw [List.map_map]
      exact SourceFile.nodup_directives hofText
    · intro pair hpair hpair'
      obtain ⟨_, -, rfl⟩ := List.mem_map.1 hpair
      obtain ⟨_, -, heq⟩ := List.mem_map.1 hpair'
      exact hlater.1 (congrArg (·.1.identity) heq.symm)
  · intro f hf g hg p hp q hq hne
    refine ⟨hshares f hf g hg p hp q hq, fun hslash hslash' => Bool.eq_false_iff.2 fun hsame => ?_⟩
    obtain ⟨rfl, hshared⟩ := (hshares f hf g hg p hp q hq).1 hsame
    obtain ⟨_, _, _, hofText⟩ := hread f hf
    have hpq := List.inj_on_of_nodup_map (SourceFile.nodup_directives hofText) hp hq
      (hshared.name_eq hslash hslash')
    exact hne (by rw [hpq])

/-! ## Two spellings of a name -/

namespace TwoSpellings

def settings : Settings :=
  { Settings.defaults ⟨""⟩ 1 with generatedFolder := ⟨"g"⟩, generatedExtension := ".h" }

/-- The permutation of a file in the pixel stage that has a name. -/
def permutation (stem name : String) : Permutation where
  directive := { name, entryPoint := "main", stage := .pixel, defines := [] }
  output := ⟨"g/" ++ stem ++ "_" ++ name ++ "_PS.h"⟩

/-- A file that declares one permutation for each of some names. -/
def file (stem : String) (names : List String) : SourceFile where
  identity := Path.identity ⟨"s/" ++ stem ++ ".hlsl"⟩
  path := ⟨"s/" ++ stem ++ ".hlsl"⟩
  modified := ⟨0, 0⟩
  content := names.flatMap fun name => ("// ShaderCompiler. Name: " ++ name ++ "\n").toList
  permutations := names.map (permutation stem)

/-- A file that names two permutations by one path. -/
def twofold : SourceFile := file "a" ["x/y", "x//y"]

/-- A file that names one of them too. -/
def other : SourceFile := file "b" ["x/y"]

theorem created : ∀ f ∈ [twofold, other],
    SourceFile.ofText settings f.path f.modified f.content = .ok f := by
  decide +kernel

theorem files_taken : (FileSet.offerAll {} [twofold, other]).2.files = [twofold, other] := by
  decide +kernel

end TwoSpellings

open TwoSpellings in
/-- The two permutations of the first file share an output, and that of the other file has one of
its own. -/
theorem twofold_name_shares_output :
    (twofold.permutations.map (·.directive.name) = ["x/y", "x//y"]) ∧
    (permutation "a" "x/y").output.sameAs (permutation "a" "x//y").output = true ∧
    (permutation "a" "x/y").output.sameAs (permutation "b" "x/y").output = false := by
  obtain ⟨-, hshares⟩ := outputs_differ_unless_spelled_alike (s := settings)
    (fun f hf => ⟨_, _, _, created f hf⟩) Prod.mk.eta.symm
  rw [files_taken] at hshares
  have hnames : (twofold, (permutation "a" "x/y").directive)
      ≠ (twofold, (permutation "a" "x//y").directive) :=
    fun heq => absurd (congrArg (·.2.name) heq) (by decide)
  have hfiles : twofold ≠ other := fun heq => absurd (congrArg (·.path.text) heq) (by decide)
  refine ⟨by decide, ?_, Bool.eq_false_iff.2 fun hsame => hfiles ?_⟩
  · exact (hshares twofold (by simp) twofold (by simp) (permutation "a" "x/y") (by decide)
      (permutation "a" "x//y") (by decide) hnames).1.2 ⟨rfl, rfl, by decide +kernel⟩
  · exact ((hshares twofold (by simp) other (by simp) (permutation "a" "x/y") (by decide)
      (permutation "b" "x/y") (by decide) (by simp [hfiles])).1.1 hsame).1

open TwoSpellings in
/-- **Two permutations of one file with one output.** The file is read and taken, and the outputs of
its permutations, which are different, are the same path. -/
theorem two_spellings_of_one_output : ∃ f p q,
    SourceFile.ofText settings f.path f.modified f.content = .ok f ∧
    FileSet.offer {} f = (.ok (), ⟨[f]⟩) ∧ p ∈ f.permutations ∧ q ∈ f.permutations ∧
    p.directive ≠ q.directive ∧ p.output.sameAs q.output = true :=
  ⟨twofold, permutation "a" "x/y", permutation "a" "x//y", created _ (by simp), rfl, by decide,
    by decide, by decide, by decide +kernel⟩

end ShaderBuild
