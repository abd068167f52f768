import ShaderBuild.Proofs.Build.History
import ShaderBuild.Proofs.FileTree.Overwrite
import ShaderBuild.Proofs.Target.Rewrite

/-!
# Headers that cannot be generated

The headers are replaced one after the other, and each is checked when its turn comes. So when one
of them is at fault (`TargetFault`), the ones in front of it have been given their regions already,
and it and the ones behind it are as they were (`replaceAll_error`). Generating is then all or
nothing exactly when the ones in front of it keep their texts (`failed_generate`), since every
header that is written moves the clock (`clock_replaceAll`).
-/

namespace ShaderBuild

open Action FileTree Text

namespace Target

variable {s : Settings} {t : FileTree} {σ σ' : Session} {e : Error}

/-! ## One header -/

/-- Why a header cannot be given its regions: it is missing, it has no text, or the text lacks the
markers of a region. -/
inductive TargetFault (t : FileTree) : Path × List Region → Error → Prop
  | missing {p regions} : t.isFile p = false → TargetFault t (p, regions) (.missingTarget p)
  | unreadable {p regions fault} : t.isFile p = true → t.readText p = .error fault →
      TargetFault t (p, regions) (.io p fault)
  | unmarked {p regions text tag} : t.readText p = .ok text →
      spliceAll text regions = .error tag → TargetFault t (p, regions) (.missingMarker tag p)

/-- Replacing the regions of a header fails only by a fault of the header, and then it has done
nothing. -/
theorem replace_error {p : Path} {regions : List Region}
    (h : (replace p regions).runOn σ = (.error e, σ')) :
    σ' = σ ∧ TargetFault σ.tree (p, regions) e := by
  cases htext : σ.tree.readText p with
  | error fault =>
    unfold replace at h
    rw [runOn_bind_of_ok (runOn_tree _)] at h
    cases hfile : σ.tree.isFile p with
    | false =>
      rw [hfile, Bool.not_false, if_pos rfl, runOn_bind_of_error (runOn_throw _ _)] at h
      cases h
      exact ⟨rfl, .missing hfile⟩
    | true =>
      have hlook : (look p (·.readText p)).runOn σ = (.error (.io p fault), σ) := by
        rw [runOn_look, htext]
        rfl
      rw [hfile, Bool.not_true, if_neg Bool.false_ne_true, update, runOn_bind_of_error hlook] at h
      cases h
      exact ⟨rfl, .unreadable hfile htext⟩
  | ok old =>
    cases hsplice : spliceAll old regions with
    | error tag =>
      rw [replace_of_missing htext hsplice] at h
      cases h
      exact ⟨rfl, .unmarked htext hsplice⟩
    | ok new =>
      -- a header that is there can always be written
      obtain ⟨σ₁, hrun, -⟩ := replace_of_spliceAll htext hsplice
      rw [h] at hrun
      cases hrun

/-- A header that has been replaced reads its new text, and was written when that is another. -/
theorem replace_ok {p : Path} {regions : List Region} {written : Bool}
    (h : (replace p regions).runOn σ = (.ok written, σ')) : ∃ old new,
      σ.tree.readText p = .ok old ∧ spliceAll old regions = .ok new ∧
      written = decide (new ≠ old) ∧ σ'.tree.readText p = .ok new ∧
      σ'.tree = if new = old then σ.tree else (σ.tree.writeText p new).2 := by
  obtain ⟨old, new, hold, hnew, -⟩ := replace_cases h
  obtain ⟨σ₁, hrun, hread, htree⟩ := replace_of_spliceAll hold hnew
  rw [h] at hrun
  obtain ⟨hwritten, rfl⟩ := Prod.mk.inj hrun
  exact ⟨old, new, hold, hnew, Except.ok.inj hwritten, hread, htree⟩

/-- Writing moves the clock. -/
theorem clock_write {p : Path} {content : List UInt8} (h : (t.write p content).1 = .ok ()) :
    (t.write p content).2.clock = t.clock.next := by
  obtain ⟨hgoal, hfolder⟩ := goal_of_write h
  unfold write
  simp [hgoal, hfolder]

/-- Replacing the regions of a header moves the clock when it writes. -/
theorem clock_replace {p : Path} {regions : List Region} {written : Bool}
    (h : (replace p regions).runOn σ = (.ok written, σ')) :
    σ'.tree.clock.seconds = σ.tree.clock.seconds + if written then 1 else 0 := by
  obtain ⟨old, new, hold, -, ⟨rfl, -, htree⟩ | ⟨rfl, hwrite⟩⟩ := replace_cases h
  · rw [htree]
    simp
  · change σ.tree.write p (encode new) = _ at hwrite
    have hclock := clock_write (show (σ.tree.write p (encode new)).1 = .ok () by rw [hwrite])
    rw [hwrite] at hclock
    rw [hclock]
    rfl

/-! ## A row of headers -/

/-- A row of replacements fails at a header: everything in front of it has been replaced, and
nothing else has been done. -/
theorem replaceAll_error {headers : List (Path × List Region)}
    (h : (replaceAll headers).runOn σ = (.error e, σ')) : ∃ done header rest written,
      headers = done ++ header :: rest ∧ (replaceAll done).runOn σ = (.ok written, σ') ∧
      TargetFault σ'.tree header e := by
  induction headers generalizing σ with
  | nil => cases h
  | cons header headers ih =>
    obtain ⟨p, regions⟩ := header
    rw [replaceAll] at h
    rcases runOn_bind_cases h with ⟨e', hfirst, he⟩ | ⟨first, σ₁, hfirst, h⟩
    · cases he
      obtain ⟨rfl, hfault⟩ := replace_error hfirst
      exact ⟨[], (p, regions), headers, 0, rfl, rfl, hfault⟩
    · rcases runOn_bind_cases h with ⟨e', hrest, he⟩ | ⟨more, σ₂, -, h⟩
      · cases he
        obtain ⟨done, header, rest, written, rfl, hdone, hfault⟩ := ih hrest
        exact ⟨(p, regions) :: done, header, rest, (if first then 1 else 0) + written, rfl,
          replaceAll_cons_ok_iff.2 ⟨first, σ₁, written, hfirst, hdone, rfl⟩, hfault⟩
      · cases h

/-- Every header that is written moves the clock. -/
theorem clock_replaceAll {headers : List (Path × List Region)} {written : Nat}
    (h : (replaceAll headers).runOn σ = (.ok written, σ')) :
    σ'.tree.clock.seconds = σ.tree.clock.seconds + written := by
  induction headers generalizing σ written with
  | nil =>
    cases h
    simp
  | cons header headers ih =>
    obtain ⟨first, σ₁, more, hfirst, hrest, rfl⟩ := replaceAll_cons_ok_iff.1 h
    rw [ih hrest, clock_replace hfirst]
    cases first <;> simp only [Bool.false_eq_true, if_true, if_false] <;> omega

/-- A row of replacements that writes nothing does nothing to the tree. -/
theorem tree_of_replaceAll_zero {headers : List (Path × List Region)}
    (h : (replaceAll headers).runOn σ = (.ok 0, σ')) : σ'.tree = σ.tree := by
  induction headers generalizing σ with
  | nil =>
    cases h
    rfl
  | cons header headers ih =>
    obtain ⟨first, σ₁, more, hfirst, hrest, hzero⟩ := replaceAll_cons_ok_iff.1 h
    cases first with
    | true =>
      rw [if_pos rfl] at hzero
      omega
    | false =>
      obtain rfl : 0 = more := by simpa using hzero
      rw [ih hrest, (keeps_of_replace hfirst).2]

/-- Replacing a row of headers leaves the tree as it was exactly when all of them keep their
texts. -/
theorem tree_eq_iff_keeps {headers : List (Path × List Region)} {written : Nat}
    (h : (replaceAll headers).runOn σ = (.ok written, σ')) :
    σ'.tree = σ.tree ↔ ∀ header ∈ headers, Keeps σ.tree header := by
  constructor
  · intro htree
    have hclock := clock_replaceAll h
    rw [htree] at hclock
    obtain rfl : written = 0 := by omega
    exact replaceAll_eq_zero_iff.1 ⟨σ', h⟩
  · intro hkeeps
    obtain ⟨σ₁, hrun⟩ := replaceAll_eq_zero_iff.2 hkeeps
    rw [h] at hrun
    cases hrun
    exact tree_of_replaceAll_zero h

/-- The headers of a row are different files. -/
def Distinct (t : FileTree) (headers : List (Path × List Region)) : Prop :=
  headers.Pairwise fun a b => b.1.locate t.here ≠ a.1.locate t.here

/-- Different headers that hold what they held before have kept their texts. -/
theorem keeps_of_contents {headers : List (Path × List Region)} {written : Nat}
    (h : (replaceAll headers).runOn σ = (.ok written, σ')) (hdistinct : Distinct σ.tree headers)
    (hsame : ∀ header ∈ headers, σ'.tree.content? header.1 = σ.tree.content? header.1) :
    ∀ header ∈ headers, Keeps σ.tree header := by
  induction headers generalizing σ written with
  | nil =>
    intro header hheader
    cases hheader
  | cons header headers ih =>
    obtain ⟨hfirstDistinct, hrestDistinct⟩ := List.pairwise_cons.1 hdistinct
    obtain ⟨hfirstSame, hrestSame⟩ := List.forall_mem_cons.1 hsame
    obtain ⟨first, σ₁, more, hfirst, hrest, -⟩ := replaceAll_cons_ok_iff.1 h
    have hhere := ((replace_altersOnly header.1 header.2).of_runOn hfirst).here
    -- the later headers leave this one alone
    have hkept : σ'.tree.content? header.1 = σ₁.tree.content? header.1 := by
      unfold content?
      rw [((replaceAll_altersOnly headers).of_runOn hrest).file?_eq]
      intro q hq
      obtain ⟨header, hheader, rfl⟩ := List.mem_map.1 hq
      rw [hhere]
      exact hfirstDistinct header hheader
    obtain ⟨old, new, hold, hnew, -, hread, htree⟩ := replace_ok hfirst
    rw [hkept, content?_of_readText hread, content?_of_readText hold, Option.some.injEq]
      at hfirstSame
    obtain rfl := encode_injective hfirstSame
    rw [if_pos rfl] at htree
    refine List.forall_mem_cons.2 ⟨⟨new, hold, hnew⟩, ?_⟩
    rw [← htree] at hrestDistinct hrestSame ⊢
    exact ih hrest hrestDistinct hrestSame

/-! ## All headers -/

/-- Where generating stops: before the headers, when the regions of the shader header cannot be
made, or at the first header at fault behind some that are done. -/
inductive StopsAt (s : Settings) (ss : List Hlsl.Struct) (t u : FileTree) (e : Error) :
    List (Path × List Region) → Prop
  | regions : (shaderRegions s).answer t = .error e → StopsAt s ss t u e []
  | header {shader done header rest} : (shaderRegions s).answer t = .ok shader →
      headers s shader ss = done ++ header :: rest → TargetFault u header e →
      StopsAt s ss t u e done

/-- Generating that fails has done nothing but replace the headers in front of the one at fault. -/
theorem generate_error {ss : List Hlsl.Struct} (h : (generate s ss).runOn σ = (.error e, σ')) :
    ∃ done σ₁ σ₂ written, σ₁.tree = σ.tree ∧ σ₂.tree = σ'.tree ∧
      (replaceAll done).runOn σ₁ = (.ok written, σ₂) ∧ StopsAt s ss σ.tree σ'.tree e done := by
  rw [generate_eq] at h
  rcases (looks_shaderRegions s).bind_cases h with ⟨e', hregions, he, htree⟩ |
    ⟨shader, σ₁, hshader, htree, h⟩
  · cases he
    exact ⟨[], σ, σ, 0, rfl, htree.symm, rfl, .regions hregions⟩
  · rw [runOn_bind_of_ok (runOn_forM_tell _ _)] at h
    obtain ⟨done, header, rest, written, hheaders, hdone, hfault⟩ := replaceAll_error h
    refine ⟨done, _, σ', written, ?_, rfl, hdone, .header hshader hheaders hfault⟩
    exact htree

/-- The headers that are done are headers of the settings. -/
theorem StopsAt.subset {ss : List Hlsl.Struct} {u : FileTree} {done : List (Path × List Region)}
    (h : StopsAt s ss t u e done) : ∀ p ∈ done.map (·.1), p ∈ s.headers := by
  cases h with
  | regions => intro p hp; cases hp
  | @header shader _ header rest _ hheaders _ =>
    intro p hp
    rw [show s.headers = (headers s shader ss).map (·.1) from rfl, hheaders, List.map_append]
    exact List.mem_append_left _ hp

/-- **Generating is all or nothing exactly when what is done needed no writing**: when it fails, it
stops at the first header at fault and alters no header but the ones in front of it; the tree is as
it was exactly when these keep their texts. When they are different files, they have been given
their regions, and all headers hold what they held before exactly when these keep their texts. -/
theorem failed_generate {ss : List Hlsl.Struct} (h : (generate s ss).runOn σ = (.error e, σ')) :
    ∃ done, StopsAt s ss σ.tree σ'.tree e done ∧
      AltersOnly (· ∈ done.map (·.1)) σ.tree σ'.tree ∧
      (σ'.tree = σ.tree ↔ ∀ header ∈ done, Keeps σ.tree header) ∧
      (Distinct σ.tree done → (∀ header ∈ done, SplicedFrom σ.tree σ'.tree header) ∧
        ((∀ p ∈ s.headers, σ'.tree.content? p = σ.tree.content? p) ↔
          ∀ header ∈ done, Keeps σ.tree header)) := by
  obtain ⟨done, σ₁, σ₂, written, htree, htree', hdone, hstops⟩ := generate_error h
  have halters := (replaceAll_altersOnly done).of_runOn hdone
  have hsame := tree_eq_iff_keeps hdone
  have hspliced := fun hdistinct => spliced_of_replaceAll hdone hdistinct
  have hcontents := fun hdistinct => keeps_of_contents hdone hdistinct
  rw [htree, htree'] at halters hsame hspliced hcontents
  refine ⟨done, hstops, halters, hsame, fun hdistinct => ⟨hspliced hdistinct, ?_, ?_⟩⟩
  · intro h
    exact hcontents hdistinct fun header hheader =>
      h header.1 (hstops.subset _ (List.mem_map_of_mem hheader))
  · intro hkeeps p _
    rw [hsame.2 hkeeps]

end Target

/-! ## A header without its markers -/

namespace SmallProject

open Target

/-- The small project with an output, whose constant buffer header has lost its markers. -/
def lostMarkers : FileTree :=
  ((bare.put ["g"] .folder).put ["g", "a_A_PS.h"]
    (textFile "const BYTE g_A[] = \x7b 0 \x7d;\n" 1)).put ["y"] (textFile "" 0)

/-- What generating the headers of that project leaves behind. -/
def halfGenerated : FileTree := ((generate settings []).runOn { tree := lostMarkers }).2.tree

theorem lostMarkers_facts :
    (generate settings []).answer lostMarkers = .error (.missingMarker "ConstantBuffer" ⟨"y"⟩) ∧
    halfGenerated.content? settings.shaderHeader ≠ lostMarkers.content? settings.shaderHeader ∧
    (halfGenerated.readText settings.shaderHeader).toOption = some
      ("// BeginInclude\n\t#include \"a_A_PS.h\"\n// EndInclude\n"
        ++ "// BeginShaderByteCode\n\tINIT_SHADER_BYTECODE(A);\n"
        ++ "// EndShaderByteCode\n").toList := by
  decide +kernel

theorem runOn_lostMarkers : ∃ σ, σ.tree = halfGenerated ∧
    (generate settings []).runOn { tree := lostMarkers } =
      (.error (.missingMarker "ConstantBuffer" ⟨"y"⟩), σ) :=
  ⟨_, rfl, Prod.ext lostMarkers_facts.1 rfl⟩

end SmallProject

theorem small_project_stops_half_way : ∃ done,
    Target.StopsAt SmallProject.settings [] SmallProject.lostMarkers SmallProject.halfGenerated
      (.missingMarker "ConstantBuffer" ⟨"y"⟩) done ∧
    AltersOnly (· ∈ done.map (·.1)) SmallProject.lostMarkers SmallProject.halfGenerated ∧
    ¬ ∀ header ∈ done, Target.Keeps SmallProject.lostMarkers header := by
  obtain ⟨σ, htree, hrun⟩ := SmallProject.runOn_lostMarkers
  obtain ⟨done, hstops, halters, hsame, -⟩ := Target.failed_generate hrun
  rw [htree] at hstops halters hsame
  refine ⟨done, hstops, halters, fun hkeeps => SmallProject.lostMarkers_facts.2.1 ?_⟩
  rw [hsame.2 hkeeps]

/-- The shader header includes the output already when the constant buffer header turns out to lack
its markers. -/
theorem shader_header_written_before_fault : ∃ σ e,
    (Target.generate SmallProject.settings []).runOn { tree := SmallProject.lostMarkers }
      = (.error e, σ) ∧
    σ.tree.content? SmallProject.settings.shaderHeader ≠
      SmallProject.lostMarkers.content? SmallProject.settings.shaderHeader ∧
    (σ.tree.readText SmallProject.settings.shaderHeader).toOption = some
      ("// BeginInclude\n\t#include \"a_A_PS.h\"\n// EndInclude\n"
        ++ "// BeginShaderByteCode\n\tINIT_SHADER_BYTECODE(A);\n"
        ++ "// EndShaderByteCode\n").toList := by
  obtain ⟨σ, htree, hrun⟩ := SmallProject.runOn_lostMarkers
  obtain ⟨-, hchanged, htext⟩ := SmallProject.lostMarkers_facts
  rw [← htree] at hchanged htext
  exact ⟨σ, _, hrun, hchanged, htext⟩

end ShaderBuild
