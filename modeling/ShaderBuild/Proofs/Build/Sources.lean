import ShaderBuild.Proofs.Build.Idle
import ShaderBuild.Proofs.Build.Validation
import ShaderBuild.Proofs.Cache.Due

/-!
# What becomes of the shader files

The settings name the places where an operation writes and deletes one by one, and nothing keeps
them from naming a place where shader files lie. So it is said location by location what an
operation may get at (`Operation.Reaches`): cleaning reaches the cache file and what lies in the
generated folder, and takes it all when the paths are plain (`clean_deletes`); a build that finds
the shader files reaches its targets and those outputs that the cache file lists which have the
extension of generated files; a rebuild reaches both, and testing what cleaning does. A shader file
out of reach stays as it is, whatever comes of the operation (`operation_keeps_sources`), as long as
the compiler writes to nothing but the outputs it is given (`Compiler.OnlyWritesOutputs`). In reach
of it a shader file may be lost, with each of the places that the settings name
(`settings_reach_sources`).
-/

namespace ShaderBuild

open Action FileTree BuildCache

/-- A job changes no file but its output, and none when it has no output. -/
def Compiler.OnlyWritesOutputs (compiler : Compiler) : Prop :=
  ∀ job t, AltersOnly (fun o => job.output = some o) t (compiler job t).tree

/-! ## What an operation reaches -/

/-- What a build of a tree may write to or delete; nothing when it does not find the files. -/
def buildTargets (s : Settings) (t : FileTree) : List Path :=
  match FileSet.found s t with
  | .ok fs => fs.targets s ++ (recordedOutputs s t).filter s.isGenerated
  | .error _ => []

/-- A build may change what is at a location. -/
def BuildReaches (s : Settings) (t : FileTree) (l : Location) : Prop :=
  ∃ o ∈ buildTargets s t, o.locate t.here = l

/-- Cleaning may delete what is at a location. -/
def CleanReaches (s : Settings) (t : FileTree) (l : Location) : Prop :=
  l = s.cachePath.locate t.here ∨ s.generatedFolder.locate t.here <+: l

/-- What cleaning leaves of a tree. -/
def cleaned (s : Settings) (t : FileTree) : FileTree := ((clean s).runOn { tree := t }).2.tree

/-- An operation may change what is at a location. -/
def Operation.Reaches (s : Settings) (t : FileTree) : Operation → Location → Prop
  | .build, l => BuildReaches s t l
  | .clean, l => CleanReaches s t l
  | .rebuild, l => CleanReaches s t l ∨ BuildReaches s (cleaned s t) l
  | .test, l => CleanReaches s t l

instance (s : Settings) (t : FileTree) (l : Location) : Decidable (BuildReaches s t l) :=
  inferInstanceAs (Decidable (∃ o ∈ _, _))

instance (s : Settings) (t : FileTree) (l : Location) : Decidable (CleanReaches s t l) :=
  inferInstanceAs (Decidable (_ ∨ _))

instance (s : Settings) (t : FileTree) (op : Operation) (l : Location) :
    Decidable (op.Reaches s t l) :=
  match op with
  | .build => inferInstanceAs (Decidable (BuildReaches s t l))
  | .clean | .test => inferInstanceAs (Decidable (CleanReaches s t l))
  | .rebuild => inferInstanceAs (Decidable (_ ∨ _))

variable {compiler : Compiler} {s : Settings} {t : FileTree} {fs : FileSet} {σ σ' : Session}
  {l : Location} {shell : Shell}

theorem buildTargets_of_found (h : FileSet.found s t = .ok fs) :
    buildTargets s t = fs.targets s ++ (recordedOutputs s t).filter s.isGenerated := by
  unfold buildTargets
  rw [h]

/-! ## Building -/

/-- Compiling and generating changes no files but the targets, however it ends. -/
theorem compileStale_altersOnly (h : compiler.OnlyWritesOutputs) :
    Moves (AltersOnly (· ∈ fs.targets s)) (compileStale compiler s fs) :=
  compileStale_moves (.refl _) altersOnly_trans
    (fun job hjob t => (h job t).mono fun _ ho => mem_targets_of_output hjob ho)
    (fun t folder => (altersOnly_makeFolders t folder).mono fun _ hp => hp.elim)
    fun _ hp => altersOnly_write_mem (List.mem_append_left _ hp)

/-- A comparison deletes generated files that the cache file lists, if it finds the files. -/
theorem compareFiles_altersOnly {r : Except Error (Bool × FileSet)}
    (h : (compareFiles s).runOn σ = (r, σ')) :
    AltersOnly (· ∈ buildTargets s σ.tree) σ.tree σ'.tree ∧
      ∀ changed fs', r = .ok (changed, fs') → ∀ o ∈ fs'.targets s, o ∈ buildTargets s σ.tree := by
  have hmakes := altersOnly_makeFolders σ.tree s.generatedFolder
  rcases compareFiles_phases h with ⟨fault, -, rfl, htree⟩ | ⟨e, rfl, hmade, -⟩ |
    ⟨c, fs, graph, σ₁, hmade, hload, hscan, -, hdiff⟩
  · rw [← htree] at hmakes
    exact ⟨hmakes.mono fun _ hp => hp.elim, fun _ _ heq => by cases heq⟩
  · rw [hmade] at hmakes
    exact ⟨hmakes.mono fun _ hp => hp.elim, fun _ _ heq => by cases heq⟩
  · rw [hmade] at hmakes
    have hfound : FileSet.found s σ.tree = .ok fs := by
      unfold FileSet.found
      rw [hmade]
      exact hscan
    rw [buildTargets_of_found hfound]
    have hdisposes := (diff_disposes c s fs graph σ₁).1.toAltersOnly
    rw [hdiff] at hdisposes
    refine ⟨(hmakes.mono fun _ hp => hp.elim).trans (hdisposes.mono ?_), ?_⟩
    · rintro p ⟨⟨hgenerated, entry, hentry, hlisted, -⟩, -⟩
      have hrecorded := recordedIn_of_held (held_of_loaded hmakes hload) ⟨entry, hentry, hlisted⟩
      exact List.mem_append_right _
        (List.mem_filter.2 ⟨mem_recordedOutputs.2 hrecorded, hgenerated⟩)
    · rintro changed fs' rfl o ho
      obtain ⟨stale, -, rfl, -⟩ := diff_ok hdiff
      rw [targets_marked] at ho
      exact List.mem_append_left _ ho

/-- A build changes no files but those that it reaches, however it ends. -/
theorem build_altersOnly (h : compiler.OnlyWritesOutputs) (σ : Session) :
    AltersOnly (· ∈ buildTargets s σ.tree) σ.tree ((build compiler s).runOn σ).2.tree := by
  rcases hrun : (build compiler s).runOn σ with ⟨r, σ'⟩
  rw [build_eq] at hrun
  rcases runOn_bind_cases hrun with ⟨e, hcompare, -⟩ | ⟨⟨changed, fs'⟩, σ₁, hcompare, hrest⟩
  · exact (compareFiles_altersOnly hcompare).1
  · obtain ⟨halters, htargets⟩ := compareFiles_altersOnly hcompare
    refine halters.trans ?_
    cases changed with
    | true =>
      exact ((compileStale_altersOnly h).of_runOn hrest).mono (htargets _ _ rfl)
    | false =>
      cases hrest
      exact .refl _ _

theorem build_keeps (h : compiler.OnlyWritesOutputs) (hreach : ¬BuildReaches s σ.tree l)
    {content : List UInt8} {modified : Timestamp}
    (hat : σ.tree.at? l = some (.file content modified)) :
    ((build compiler s).runOn σ).2.tree.at? l = some (.file content modified) :=
  ((build_altersOnly h σ).files l (fun o ho heq => hreach ⟨o, ho, heq⟩) content modified).2 hat

/-! ## Cleaning -/

theorem clean_keeps (hreach : ¬CleanReaches s σ.tree l) :
    ((clean s).runOn σ).2.tree.at? l = σ.tree.at? l := by
  obtain ⟨hcache, hfolder⟩ := not_or.1 hreach
  exact (clean_sameOutside s σ).entries l hcache hfolder

/-- Of paths that are plain, cleaning deletes all that it reaches when it goes well. -/
theorem clean_deletes (hcache : s.cachePath.IsPlain) (hfolder : s.generatedFolder.IsPlain)
    (h : (clean s).runOn σ = (.ok (), σ')) (hreach : CleanReaches s σ.tree l) :
    σ'.tree.at? l = none := by
  have herased := clean_erases hcache hfolder h
  have hhere := ((clean_sameOutside s).of_runOn h).here
  rcases hreach with rfl | hbelow
  · rw [← hhere]
    exact herased.cache
  · refine herased.folder l ?_
    rwa [hhere]

/-! ## Validating -/

/-- Validating changes no file. -/
theorem validate_altersOnly (h : compiler.OnlyWritesOutputs) :
    Moves (AltersOnly fun _ => False) (validate compiler s) := by
  have hrefl := AltersOnly.refl fun _ => False
  have htrans := altersOnly_trans (S := fun _ => False)
  unfold validate
  refine ((FileSet.looks_scan s).moves hrefl).bind htrans fun fs =>
    (looks_tree.moves hrefl).bind htrans fun tree =>
    ((looks_lift _).moves hrefl).bind htrans fun _ => Moves.bind htrans ?_ fun results => ?_
  · refine compileAll_moves hrefl htrans s.jobs fun job hjob t => (h job t).mono fun o ho => ?_
    rw [FileSet.checks_eq, List.mem_flatMap] at hjob
    obtain ⟨f, -, hjob⟩ := hjob
    obtain ⟨d, -, rfl⟩ := List.mem_map.1 hjob
    cases ho
  · split
    · exact (looks_pure _).moves hrefl
    · exact (looks_throw _).moves hrefl

theorem validateModels_altersOnly (h : ∀ m, (s.compilerFor shell m).OnlyWritesOutputs)
    (ms : List ShaderModel) : Moves (AltersOnly fun _ => False) (validateModels shell s ms) := by
  have hrefl := AltersOnly.refl fun _ => False
  have htrans := altersOnly_trans (S := fun _ => False)
  induction ms with
  | nil => exact (looks_pure 0).moves hrefl
  | cons m ms ih =>
    exact ((looks_tell _).moves hrefl).bind htrans fun _ =>
      (validate_altersOnly (h m)).bind htrans fun n => ih.bind htrans fun _ =>
        (looks_pure _).moves hrefl

/-! ## All operations -/

section

variable {content : List UInt8} {modified : Timestamp}

/-- What cleaning does not reach is kept when what comes next keeps it. -/
theorem clean_bind_keeps {β : Type} {next : Action β} (hreach : ¬CleanReaches s t l)
    (hat : t.at? l = some (.file content modified))
    (hnext : ∀ σ : Session, σ.tree = cleaned s t → σ.tree.at? l = some (.file content modified) →
      (next.runOn σ).2.tree.at? l = some (.file content modified)) :
    ((clean s >>= fun _ => next).runOn { tree := t }).2.tree.at? l
      = some (.file content modified) := by
  have hclean := clean_keeps (σ := { tree := t }) hreach
  have hcleaned : ((clean s).runOn { tree := t }).2.tree = cleaned s t := rfl
  rcases hrun : (clean s).runOn { tree := t } with ⟨r, σ⟩
  rw [hrun] at hclean hcleaned
  cases r with
  | error e =>
    rw [runOn_bind_of_error hrun]
    exact hclean.trans hat
  | ok u =>
    rw [runOn_bind_of_ok hrun]
    exact hnext σ hcleaned (hclean.trans hat)

/-- What an operation does not reach stays a file with the same content. -/
theorem perform_keeps (h : ∀ m, (s.compilerFor shell m).OnlyWritesOutputs) {op : Operation}
    (hreach : ¬op.Reaches s t l) (hat : t.at? l = some (.file content modified)) :
    ((op.perform shell s).runOn { tree := t }).2.tree.at? l = some (.file content modified) := by
  cases op with
  | build => exact build_keeps (σ := { tree := t }) (h _) hreach hat
  | clean => exact clean_bind_keeps hreach hat fun _ _ hkept => hkept
  | rebuild =>
    obtain ⟨hclean, hbuild⟩ := not_or.1 hreach
    refine clean_bind_keeps hclean hat fun σ hσ hkept => build_keeps (h _) ?_ hkept
    rwa [hσ]
  | test =>
    refine clean_bind_keeps hreach hat fun σ _ hkept => ?_
    have hvalidate : Moves (AltersOnly fun _ => False) (validateModels shell s
        (ShaderModel.all.filter s.compiler.supports) >>= fun n => pure ({ compiled := n } : Report)) :=
      (validateModels_altersOnly h _).bind altersOnly_trans fun _ =>
        (looks_pure _).moves (.refl _)
    exact ((hvalidate σ).files l (fun _ hp => hp.elim) content modified).2 hkept

end

/-- **Shader files out of reach survive.** A shader file that a scan lists is there, and when the
operation does not reach it, it is there afterwards with the same content and the same time, whether
the operation ends well or not. -/
theorem operation_keeps_sources (writes : ∀ m, (s.compilerFor shell m).OnlyWritesOutputs)
    (named : t.WellNamed) {paths : List Path}
    (walked : t.walk (FileSet.entersFolder s) s.sourcePath = .ok paths) {p : Path}
    (listed : p ∈ paths.filter s.isShaderFile) (op : Operation)
    (unreached : ¬op.Reaches s t (p.locate t.here)) : ∃ content modified,
      t.at? (p.locate t.here) = some (.file content modified) ∧
      ((op.perform shell s).runOn { tree := t }).2.tree.at? (p.locate t.here)
        = some (.file content modified) := by
  obtain ⟨content, modified, hat⟩ :=
    exists_file_of_mem_walk named walked (List.mem_filter.1 listed).1
  exact ⟨content, modified, hat, perform_keeps writes unreached hat⟩

/-! ## Sources in a small project -/

namespace SmallProject

/-- A program that declares a byte array in the file behind the option for the output, and without
that option writes nothing. -/
def declaring : Shell := fun command t =>
  match command.arguments with
  | _ :: flag :: output :: _ =>
    if flag = "-Fh" then
      match t.writeText ⟨output⟩ "const BYTE g_main[] =\n".toList with
      | (.ok (), u) => (.ended true "" "", u)
      | (.error _, u) => (.ended false "" "no output\n", u)
    else (.ended true "" "", t)
  | _ => (.ended true "" "", t)

theorem onlyWritesOutputs_declaring {s : Settings} (h : s.compiler = .dxc) (m : ShaderModel) :
    (s.compilerFor declaring m).OnlyWritesOutputs := by
  rintro ⟨source, d, output⟩ t
  have hbackend : (Toolchain.ofSettings s m).backend = .dxc := h
  unfold Settings.compilerFor Toolchain.compiler Toolchain.command
  simp only [hbackend]
  cases output with
  | none => exact .refl _ _
  | some o =>
    have hwrites := altersOnly_write t o (Text.encode "const BYTE g_main[] =\n".toList)
    refine AltersOnly.mono (S := (· = o)) ?_ fun q hq => by rw [hq]
    show AltersOnly (· = o) t (declaring ⟨_, source.text :: "-Fh" :: o.text :: _⟩ t).2
    unfold declaring
    simp only [if_true]
    generalize hr : t.writeText o _ = r
    unfold writeText at hr
    rw [hr] at hwrites
    rcases r with ⟨fault | u, t'⟩ <;> exact hwrites

/-- The generated folder, with the cache in it, and the headers lie among the sources, as they do
unless a configuration says otherwise. -/
def nested : Settings := Settings.defaults ⟨"p"⟩ 1

/-- A shader with one permutation, the headers, and what is left of an older build. -/
def populated : FileTree :=
  [(["p"], .folder), (["p", "Shaders"], .folder), (["p", "Shaders", "Include"], .folder),
    (["p", "Shaders", "generated"], .folder),
    (["p", "Shaders", "generated", "old.generated.h"], textFile "const BYTE g_old[] =\n" 0),
    (["p", "Shaders", "a.hlsl"], textFile "// ShaderCompiler. Name: A\n" 1),
    (["p", "Shaders", "Include", "Shaders.h"], textFile
      "// BeginInclude\n// EndInclude\n// BeginShaderByteCode\n// EndShaderByteCode\n" 0),
    (["p", "Shaders", "Include", "ConstantBuffers.h"], textFile
      "// BeginConstantBuffer\n// EndConstantBuffer\n" 0),
    (["p", "Shaders", "Include", "VertexLayouts.h"], textFile ("// BeginVertexFormat\n"
      ++ "// EndVertexFormat\n// BeginVertexInputLayout\n// EndVertexInputLayout\n") 0)].foldl
    (fun t (l, e) => t.put l e) (.empty [] ⟨0, 0⟩)

theorem populated_facts : populated.WellNamed ∧
    (populated.walk (FileSet.entersFolder nested) nested.sourcePath).toOption.any (fun paths =>
      paths.filter nested.isShaderFile = [⟨"p/Shaders/a.hlsl"⟩]) = true ∧
    (∀ op ∈ [Operation.build, .clean, .rebuild, .test],
      ¬op.Reaches nested populated ["p", "Shaders", "a.hlsl"]) ∧
    ((Operation.rebuild.perform declaring nested).runOn { tree := populated }).1.toOption
      = some { compiled := 1, headersWritten := 3 } := by
  decide +kernel

end SmallProject

theorem nested_sources_survive :
    ((Operation.rebuild.perform SmallProject.declaring SmallProject.nested).runOn
      { tree := SmallProject.populated }).1 = .ok { compiled := 1, headersWritten := 3 } ∧
    ∀ op ∈ [Operation.build, .clean, .rebuild, .test], ∃ content modified,
      SmallProject.populated.at? ["p", "Shaders", "a.hlsl"] = some (.file content modified) ∧
      ((op.perform SmallProject.declaring SmallProject.nested).runOn
        { tree := SmallProject.populated }).2.tree.at? ["p", "Shaders", "a.hlsl"]
          = some (.file content modified) := by
  obtain ⟨named, hwalk, hreach, hanswer⟩ := SmallProject.populated_facts
  obtain ⟨paths, hpaths, hlisted⟩ := (Option.any_eq_true _ _).1 hwalk
  refine ⟨ok_of_toOption hanswer, fun op hop => ?_⟩
  refine operation_keeps_sources (SmallProject.onlyWritesOutputs_declaring rfl) named
    (ok_of_toOption hpaths) (p := ⟨"p/Shaders/a.hlsl"⟩) ?_ op (hreach op hop)
  rw [of_decide_eq_true hlisted]
  exact List.mem_singleton_self _

namespace SmallProject

/-- An operation on a file tree with some settings. -/
structure Situation where
  operation : Operation
  settings : Settings
  tree : FileTree

/-- The settings are in order, and yet the operation loses or changes a shader file that a scan
lists. -/
def Situation.Destroys (x : Situation) : Prop :=
  x.settings.verify.toOption = some () ∧ x.settings.compiler = .dxc ∧ x.tree.WellNamed ∧
    ((x.tree.walk (FileSet.entersFolder x.settings) x.settings.sourcePath).toOption.any fun paths =>
      (paths.filter x.settings.isShaderFile).any fun p => decide ((x.tree.content? p).isSome = true ∧
        ((x.operation.perform declaring x.settings).runOn { tree := x.tree }).2.tree.content? p
          ≠ x.tree.content? p)) = true

instance (x : Situation) : Decidable x.Destroys :=
  inferInstanceAs (Decidable (_ ∧ _ ∧ _ ∧ _))

/-- A shader whose output has the name of another shader, and a shader with the markers of the
shader header. -/
def mistakable : FileTree := withSources
  [("a.hlsl", textFile "// ShaderCompiler. Name: A\n" 1), ("a_A_PS.hlsl", textFile "float4 c;\n" 1),
    ("x.hlsl", textFile
      "// BeginInclude\n// EndInclude\n// BeginShaderByteCode\n// EndShaderByteCode\n" 1)]

/-- The cache file lists the first of them as an output. -/
def mislisted : FileTree := mistakable.put ["c"] (listing ⟨"s/a.hlsl"⟩)

/-- Each place that the settings name may be one of shader files. -/
def overlaps : List Situation :=
  [⟨.clean, { settings with generatedFolder := ⟨"s"⟩ }, mistakable⟩,
    ⟨.clean, { settings with cachePath := ⟨"s/a.hlsl"⟩ }, mistakable⟩,
    ⟨.build, { settings with cachePath := ⟨"s/a.hlsl"⟩ }, mistakable⟩,
    ⟨.build, { settings with shaderHeader := ⟨"s/x.hlsl"⟩ }, mistakable⟩,
    ⟨.build, { settings with generatedFolder := ⟨"s"⟩, generatedExtension := ".hlsl" }, mistakable⟩,
    ⟨.build, { settings with generatedExtension := ".hlsl" }, mislisted⟩]

theorem overlaps_destroy : ∀ x ∈ overlaps, x.Destroys := by
  decide +kernel

end SmallProject

/-- Nothing keeps the settings from naming a place where shader files lie, and there they are lost:
those in the generated folder and at the path of the cache to cleaning, and those at the paths of
the cache, of a header, of an output, and of an output in the cache to a build. -/
theorem settings_reach_sources :
    (∀ x ∈ SmallProject.overlaps, ∀ m,
      (x.settings.compilerFor SmallProject.declaring m).OnlyWritesOutputs) ∧
    ∀ x ∈ SmallProject.overlaps, x.Destroys := by
  refine ⟨fun x hx => ?_, SmallProject.overlaps_destroy⟩
  obtain ⟨-, hcompiler, -, -⟩ := SmallProject.overlaps_destroy x hx
  exact SmallProject.onlyWritesOutputs_declaring hcompiler

end ShaderBuild
