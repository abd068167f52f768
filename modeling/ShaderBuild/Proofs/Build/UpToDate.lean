import ShaderBuild.Proofs.Build.Unchanged
import ShaderBuild.Proofs.Target.Rewrite

/-!
# Up to date

A build that answers that all is up to date has not looked at the headers. What it says of them is
true as long as the last build that was complete has found them well marked and every build since
that compiled got to save the cache: `up_to_date_is_truthful`.
-/

namespace ShaderBuild

open FileTree BuildCache Target

variable {compiler : Compiler} {P : Job → FileTree → List UInt8 → Prop} {s : Settings}
  {t t₀ u : FileTree} {header : Path × List Region}

/-! ## Headers with their markers -/

/-- All markers are in place: every region that is generated can be read. -/
def InPlace (s : Settings) (t : FileTree) : Prop :=
  ∀ p tag, (p, tag) ∈ regionTags s → ∃ text, t.readText p = .ok text ∧
    (regionOf tag.toList text).isSome = true

instance (s : Settings) (t : FileTree) : Decidable (InPlace s t) :=
  decidable_of_iff (∀ x ∈ regionTags s,
      ((t.readText x.1).toOption.any fun text => (regionOf x.2.toList text).isSome) = true) <|
    Prod.forall.trans <| forall_congr' fun p => forall_congr' fun tag => imp_congr_right fun _ => by
      cases t.readText p <;> simp [Except.toOption]

instance (s : Settings) (t₀ t : FileTree) : Decidable (RegionsStand s t₀ t) :=
  decidable_of_iff (∀ x ∈ regionTags s,
    region? t x.1 x.2 = none ∨ region? t x.1 x.2 = region? t₀ x.1 x.2) Prod.forall

/-- A header marks its regions: each of them once, apart from the others, and what goes into them
holds no markers. -/
def WellMarked (t : FileTree) (header : Path × List Region) : Prop :=
  Proper header.2 ∧ ∃ text, t.readText header.1 = .ok text ∧ Delimited header.2 text

instance (t : FileTree) (header : Path × List Region) : Decidable (WellMarked t header) :=
  decidable_of_iff (Proper header.2 ∧ ((t.readText header.1).toOption.any fun text =>
      decide (FoundApart header.2 text)) = true) <| and_congr_right fun proper => by
    cases t.readText header.1 <;> simp [Except.toOption, delimited_iff proper.tags]

/-- The regions of a header read what is generated for them. -/
def Settled (t : FileTree) (header : Path × List Region) : Prop :=
  ∀ r ∈ header.2, region? t header.1 r.tag = some ('\n' :: r.content.toList)

instance (t : FileTree) (header : Path × List Region) : Decidable (Settled t header) :=
  inferInstanceAs (Decidable (∀ r ∈ header.2, _))

/-- A header that marked its regions is settled behind their replacement. -/
theorem WellMarked.settled (h : WellMarked t header) (spliced : SplicedFrom t u header) :
    Settled u header := by
  obtain ⟨proper, text, htext, delimited⟩ := h
  obtain ⟨old, new, hold, hnew, hread⟩ := spliced
  rw [content?_of_readText htext, Option.some.injEq] at hold
  obtain rfl := Text.encode_injective hold
  intro r hr
  rw [region?_of_readText hread]
  exact reads_of_spliceAll proper delimited hnew r hr

/-- A header that marks its regions keeps its text exactly when it is settled. -/
theorem WellMarked.keeps_iff (h : WellMarked t header) : Keeps t header ↔ Settled t header := by
  obtain ⟨proper, text, htext, delimited⟩ := h
  have hkeeps : Keeps t header ↔ spliceAll text header.2 = .ok text := by
    unfold Keeps
    simp only [htext, Except.ok.injEq, exists_eq_left']
  rw [hkeeps, spliceAll_eq_self_iff proper delimited]
  refine forall₂_congr fun r _ => ?_
  rw [region?_of_readText htext]
  rfl

/-- Headers whose regions read what they read when they were settled keep their text. -/
theorem keeps_of_settled {ss : List Hlsl.Struct} {shader : List Region}
    (hshader : (shaderRegions s).answer t₀ = .ok shader)
    (settled : ∀ header ∈ headers s shader ss, Settled t₀ header)
    (hregions : RegionsStand s t₀ t) (inPlace : InPlace s t) :
    ∀ header ∈ headers s shader ss, Keeps t header := by
  intro header hheader
  obtain ⟨r, hr⟩ := List.exists_mem_of_ne_nil _ (regions_ne_nil hshader hheader)
  obtain ⟨text, htext, -⟩ := inPlace _ _ (mem_regionTags hshader hheader hr)
  refine ⟨text, htext, spliceAll_of_reads fun r hr => ?_⟩
  have htag := mem_regionTags hshader hheader hr
  obtain ⟨text', htext', hsome⟩ := inPlace _ _ htag
  obtain rfl : text' = text := Except.ok.inj (htext'.symm.trans htext)
  rcases hregions _ _ htag with hnone | hsame
  · rw [region?_of_readText htext] at hnone
    rw [hnone] at hsome
    cases hsome
  · rw [region?_of_readText htext, settled header hheader r hr] at hsame
    exact hsame

/-! ## Headers of a project without shaders -/

/-- The headers with the regions that are generated where there is nothing to generate. -/
def blankHeaders (s : Settings) : List (Path × List Region) :=
  headers s [⟨"Include", ""⟩, ⟨"ShaderByteCode", ""⟩] []

/-- The headers read what is generated for no shaders: nothing in the regions of the shader header,
and a blank line in the others. -/
def Blank (s : Settings) (t : FileTree) : Prop := ∀ header ∈ blankHeaders s, Settled t header

instance (s : Settings) (t : FileTree) : Decidable (Blank s t) :=
  inferInstanceAs (Decidable (∀ header ∈ blankHeaders s, _))

/-- Without generated files the regions of the shader header are empty. -/
theorem shaderRegions_of_bare (folder : t.find s.generatedFolder = .ok .folder)
    (bare : ∀ n, generated? s t n = none) :
    (shaderRegions s).answer t = .ok [⟨"Include", ""⟩, ⟨"ShaderByteCode", ""⟩] := by
  obtain ⟨names, hnames⟩ := exists_filesIn folder
  refine shaderRegions_ok_iff.2 ⟨names, [], hnames, ?_, rfl⟩
  have hempty : (names.filter fun n =>
      s.generatedExtension.toList.isSuffixOf n.toList) = [] := by
    rw [List.eq_nil_iff_forall_not_mem]
    intro n hn
    obtain ⟨content, hcontent⟩ := (mem_filter_filesIn_iff hnames).1 hn
    rw [bare] at hcontent
    cases hcontent
  rw [hempty]
  exact outputLines_ok_iff.2 .nil

theorem structs_of_nil {fs : FileSet} (h : fs.files = []) : fs.structs = .ok [] := by
  unfold FileSet.structs
  rw [h]
  rfl

/-- Generating for no shaders writes no header exactly when the headers are blank. -/
theorem generate_of_bare (folder : s.generatedFolder.text ≠ "" →
      t.find s.generatedFolder = .ok .folder)
    (bare : ∀ n, generated? s t n = none) (marked : ∀ header ∈ blankHeaders s, WellMarked t header) :
    (generate s []).answer t = .ok 0 ↔ s.generatedFolder.text ≠ "" ∧ Blank s t := by
  have hkeeps : (∀ header ∈ blankHeaders s, Keeps t header) ↔ Blank s t :=
    forall₂_congr fun header hheader => (marked header hheader).keeps_iff
  rw [generate_eq_zero_iff, ← hkeeps]
  constructor
  · rintro ⟨shader, hshader, hall⟩
    have hpath := text_ne_of_shaderRegions hshader
    rw [shaderRegions_of_bare (folder hpath) bare] at hshader
    cases hshader
    exact ⟨hpath, hall⟩
  · rintro ⟨hpath, hall⟩
    exact ⟨_, shaderRegions_of_bare (folder hpath) bare, hall⟩

/-! ## When an up to date answer is true -/

/-- The last complete build of a history: no build since has compiled without saving the cache,
and what was done to the headers left their regions alone. -/
structure LastComplete (s : Settings) (events newer : List Event) (σ₀ : Session) (e₀ : Event) :
    Prop where
  split : ∃ report₀ older, events = newer ++ .built (.ok report₀) σ₀ :: e₀ :: older ∧
    report₀.upToDate = false
  last : ∀ event ∈ newer, ¬ event.Complete
  saved : ∀ event ∈ newer, ¬ event.Unsaved
  untouched : ∀ t, .edited t ∈ newer → RegionsStand s σ₀.tree t

/-- Where some build was complete, one of them was the last. -/
theorem exists_last {events : List Event} (h : ∃ event ∈ events, event.Complete) :
    ∃ newer event older, events = newer ++ event :: older ∧ event.Complete ∧
      ∀ x ∈ newer, ¬ x.Complete := by
  classical
  obtain ⟨event, hfind⟩ := Option.isSome_iff_exists.1 <|
    List.find?_isSome.2 (by simpa using h : ∃ x ∈ events, decide x.Complete = true)
  obtain ⟨hcomplete, newer, older, heq, hlast⟩ := List.find?_eq_some_iff_append.1 hfind
  exact ⟨newer, event, older, heq, of_decide_eq_true hcomplete,
    fun x hx => by simpa using hlast x hx⟩

/-- A build that finds everything up to date can reflect the files that it found. -/
theorem exists_structs_of_upToDate (hcompiler : compiler.Writes P) {report : Report} {σ : Session}
    {e : Event} {past : List Event}
    (h : History compiler s (sealedEdits s) (.built (.ok report) σ :: e :: past))
    (upToDate : report.upToDate = true)
    (orderly : Orderly s (trees (.built (.ok report) σ :: e :: past)))
    (fresh : Fresh s (trees (.built (.ok report) σ :: e :: past)))
    (elsewhere : ∀ t ∈ trees (e :: past), TargetsElsewhere s t.here)
    (reachable : CacheReachable s (trees (e :: past))) :
    ∃ fs ss, (FileSet.scan s).answer σ.tree = .ok fs ∧ fs.structs = .ok ss := by
  by_cases never : ∀ event ∈ e :: past, ¬ event.Complete
  · obtain ⟨fs, hscan, hfiles, -⟩ :=
      exists_bare hcompiler h upToDate orderly fresh never elsewhere reachable
    exact ⟨fs, [], hscan, structs_of_nil hfiles⟩
  · push Not at never
    obtain ⟨newer, event, older, split, hcomplete, last⟩ := exists_last never
    have hpast : History compiler s (sealedEdits s) (e :: past) := by
      cases h with
      | build before => exact before
    rw [split] at hpast
    cases hpast.of_append with
    | start | edit => cases hcomplete
    | @build e₀ older r σ₀ =>
      obtain ⟨report₀, rfl, complete⟩ := hcomplete
      obtain ⟨c, fs, ss, shader, unchanged⟩ := exists_unchanged hcompiler h upToDate orderly fresh
        split last complete elsewhere reachable
      exact ⟨fs, ss, unchanged.scanned, unchanged.structs⟩

/-- **When an up to date answer is true.** A build that answers that all is up to date can reflect
the files that it found. Generating then writes no header when all markers are in place, as long as
the last complete build has found the headers well marked and has not been followed by one that
compiled without saving the cache. Where no build was complete there are no shader files; as long as
none has compiled without saving the cache, generating writes no header exactly when the headers are
blank. -/
theorem up_to_date_is_truthful (hcompiler : compiler.Writes P) {report : Report} {σ : Session}
    {e : Event} {past : List Event}
    (h : History compiler s (sealedEdits s) (.built (.ok report) σ :: e :: past))
    (upToDate : report.upToDate = true)
    (orderly : Orderly s (trees (.built (.ok report) σ :: e :: past)))
    (fresh : Fresh s (trees (.built (.ok report) σ :: e :: past)))
    (elsewhere : ∀ t ∈ trees (e :: past), TargetsElsewhere s t.here)
    (reachable : CacheReachable s (trees (e :: past))) :
    ∃ fs ss, (FileSet.scan s).answer σ.tree = .ok fs ∧ fs.structs = .ok ss ∧
      (∀ newer σ₀ e₀, LastComplete s (e :: past) newer σ₀ e₀ →
        ∃ shader, (shaderRegions s).answer σ₀.tree = .ok shader ∧
          ((∀ header ∈ headers s shader ss, WellMarked e₀.tree header) → InPlace s σ.tree →
            (generate s ss).answer σ.tree = .ok 0)) ∧
      ((∀ event ∈ e :: past, ¬ event.Complete) → fs.files = [] ∧
        ((∀ event ∈ e :: past, ¬ event.Unsaved) →
          (∀ header ∈ blankHeaders s, WellMarked σ.tree header) →
          ((generate s ss).answer σ.tree = .ok 0 ↔
            s.generatedFolder.text ≠ "" ∧ Blank s σ.tree))) := by
  obtain ⟨fs, ss, hscan, hstructs⟩ :=
    exists_structs_of_upToDate hcompiler h upToDate orderly fresh elsewhere reachable
  refine ⟨fs, ss, hscan, hstructs, ?_, fun never => ?_⟩
  · rintro newer σ₀ e₀ ⟨⟨report₀, older, split, complete⟩, last, saved, untouched⟩
    obtain ⟨c, fs', ss', shader, unchanged⟩ := exists_unchanged hcompiler h upToDate orderly fresh
      split last complete elsewhere reachable
    obtain rfl : fs' = fs := Except.ok.inj (unchanged.scanned.symm.trans hscan)
    obtain rfl : ss' = ss := Except.ok.inj (unchanged.structs.symm.trans hstructs)
    refine ⟨shader, unchanged.regions, fun marked inPlace => ?_⟩
    have hsame := generated?_of_unchanged hcompiler h upToDate orderly fresh split last saved
      unchanged
    have hstand := regions_of_unchanged hcompiler h upToDate orderly fresh split last saved
      unchanged untouched
    have hsettled : ∀ header ∈ headers s shader ss', Settled σ₀.tree header :=
      fun header hheader => (marked header hheader).settled (unchanged.spliced header hheader)
    exact generate_eq_zero_iff.2 ⟨shader,
      shaderRegions_congr (orderly.named σ.tree List.mem_cons_self) unchanged.folder hsame
        unchanged.regions,
      keeps_of_settled unchanged.regions hsettled hstand inPlace⟩
  · obtain ⟨fs', hscan', hfiles, hfolder, hbare⟩ :=
      exists_bare hcompiler h upToDate orderly fresh never elsewhere reachable
    obtain rfl : fs' = fs := Except.ok.inj (hscan'.symm.trans hscan)
    obtain rfl : ss = [] :=
      Except.ok.inj (hstructs.symm.trans (structs_of_nil hfiles))
    exact ⟨hfiles, fun saved marked => generate_of_bare hfolder (hbare saved) marked⟩

/-! ## Histories of a small project -/

namespace SmallProject

/-- One source with one permutation. -/
def lone : FileTree := withSources [("a.hlsl", textFile "// ShaderCompiler. Name: A\n" 1)]

/-- A header has lost its markers since the build. -/
def unmarked : FileTree := (after lone).tree.put ["y"] (textFile "" 0)

/-- The markers are back, with a line in front of them. -/
def remarked : FileTree := (after unmarked).tree.put ["y"]
  (textFile "// own\n// BeginConstantBuffer\n\n// EndConstantBuffer\n" 0)

/-- What has happened then. -/
def idle : List Event :=
  [.built (.ok { upToDate := true }) (after remarked), .edited remarked,
    .built (.ok { upToDate := true }) (after unmarked), .edited unmarked,
    .built (.ok { compiled := 1, headersWritten := 3 }) (after lone), .edited lone]

/-- What has happened to a project without shaders. -/
def unused : List Event :=
  [.built (.ok { upToDate := true }) (after bare), .edited bare]

theorem idle_facts : report? lone = some { compiled := 1, headersWritten := 3 } ∧
    report? remarked = some { upToDate := true } ∧
    report? unmarked = some { upToDate := true } ∧
    (∀ entry ∈ lone.entries, entry.1 ≠ settings.cachePath.locate lone.here ∧
      isBelow (settings.generatedFolder.locate lone.here) entry.1 = false) ∧
    (∀ t ∈ [(after lone).tree, (after unmarked).tree],
      ["y"] ≠ settings.cachePath.locate t.here ∧
      isBelow (settings.generatedFolder.locate t.here) ["y"] = false) ∧
    Orderly settings (trees idle) ∧ Fresh settings (trees idle) ∧
    (∀ t ∈ trees idle, t.here = []) ∧ CacheReachable settings (trees idle.tail) ∧
    InPlace settings (after remarked).tree ∧
    (∀ t ∈ [remarked, unmarked], RegionsStand settings (after lone).tree t) ∧
    ((((FileSet.scan settings).answer (after remarked).tree).toOption.bind
      (·.structs.toOption)).all fun ss =>
        ((shaderRegions settings).answer (after lone).tree).toOption.all fun shader =>
          decide (∀ header ∈ headers settings shader ss, WellMarked lone header)) = true := by
  decide +kernel

theorem unused_facts : report? bare = some { upToDate := true } ∧
    (∀ entry ∈ bare.entries, entry.1 ≠ settings.cachePath.locate bare.here ∧
      isBelow (settings.generatedFolder.locate bare.here) entry.1 = false) ∧
    Orderly settings (trees unused) ∧ Fresh settings (trees unused) ∧
    (∀ t ∈ trees unused, t.here = []) ∧ CacheReachable settings (trees unused.tail) ∧
    (∀ header ∈ blankHeaders settings, WellMarked (after bare).tree header) ∧
    ¬ Blank settings (after bare).tree := by
  decide +kernel

theorem history_idle : History plain settings (sealedEdits settings) idle := by
  obtain ⟨hfirst, hthird, hsecond, hstart, hedits, -⟩ := idle_facts
  obtain ⟨hbreak, hmend⟩ := List.forall_mem_cons.1 hedits
  have hbuilt := history_report (.start (sealedEdits_starts hstart)) hfirst
  have hunmarked := history_edit_after (u := unmarked) hbuilt (sealedEdits_put hbreak)
  have hidle := history_report hunmarked hsecond
  have hremarked := history_edit_after (u := remarked) hidle
    (sealedEdits_put (hmend _ List.mem_cons_self))
  exact history_report hremarked hthird

theorem history_unused : History plain settings (sealedEdits settings) unused :=
  history_report (.start (sealedEdits_starts unused_facts.2.1)) unused_facts.1

theorem lastComplete_idle :
    LastComplete settings idle.tail (idle.tail.take 3) (after lone) (.edited lone) where
  split := ⟨_, [], rfl, rfl⟩
  last := by simp [idle, Event.Complete]
  saved := by simp [idle, Event.Unsaved]
  untouched := by
    obtain ⟨-, -, -, -, -, -, -, -, -, -, hstand, -⟩ := idle_facts
    intro t ht
    refine hstand t ?_
    simp only [idle, List.tail_cons, List.take_succ_cons, List.take_zero, List.mem_cons,
      List.not_mem_nil, or_false, Event.edited.injEq, reduceCtorEq, false_or] at ht
    simpa using ht

end SmallProject

theorem small_project_idle_is_settled :
    (∃ fs ss, (FileSet.scan SmallProject.settings).answer
        (SmallProject.after SmallProject.remarked).tree = .ok fs ∧ fs.structs = .ok ss ∧
      (generate SmallProject.settings ss).answer (SmallProject.after SmallProject.remarked).tree
        = .ok 0) ∧
    ∃ fs ss, (FileSet.scan SmallProject.settings).answer
        (SmallProject.after SmallProject.bare).tree = .ok fs ∧ fs.structs = .ok ss ∧
      (generate SmallProject.settings ss).answer (SmallProject.after SmallProject.bare).tree
        ≠ .ok 0 := by
  constructor
  · obtain ⟨-, -, -, -, -, orderly, fresh, hhere, reachable, inPlace, -, hmarked⟩ :=
      SmallProject.idle_facts
    obtain ⟨fs, ss, hfs, hss, hcomplete, -⟩ :=
      up_to_date_is_truthful plain_computes.obeys.writes SmallProject.history_idle rfl orderly fresh
        (fun t ht => SmallProject.targetsElsewhere (hhere t (List.mem_of_mem_tail ht))) reachable
    obtain ⟨shader, hshader, hwrites⟩ := hcomplete _ _ _ SmallProject.lastComplete_idle
    refine ⟨fs, ss, hfs, hss, hwrites ?_ inPlace⟩
    rw [hfs, hshader] at hmarked
    simpa only [Except.toOption, Option.bind_some, hss, Option.all_some, decide_eq_true_eq,
      Event.tree_edited] using hmarked
  · obtain ⟨-, -, orderly, fresh, hhere, reachable, marked, hblank⟩ := SmallProject.unused_facts
    obtain ⟨fs, ss, hfs, hss, -, hnever⟩ :=
      up_to_date_is_truthful plain_computes.obeys.writes SmallProject.history_unused rfl orderly
        fresh (fun t ht => SmallProject.targetsElsewhere (hhere t (List.mem_of_mem_tail ht)))
        reachable
    obtain ⟨-, hwrites⟩ := hnever (by simp [Event.Complete])
    refine ⟨fs, ss, hfs, hss, fun hzero => hblank ?_⟩
    exact ((hwrites (by simp [Event.Unsaved]) marked).1 hzero).2

namespace SmallProject

/-- A constant buffer has been added since the build. -/
def enlarged : FileTree :=
  (after lone).tree.put ["s", "b.hlsl"] (textFile "struct B { float4 c; };\n" 2)

/-- The header behind the one for constant buffers has lost its last marker as well. -/
def spoilt : FileTree := enlarged.put ["z"] (textFile
  "// BeginVertexFormat\n\n// EndVertexFormat\n// BeginVertexInputLayout\n\n" 0)

/-- The constant buffer is gone again since the build has failed. -/
def withdrawn : FileTree := (after spoilt).tree.prune ["s", "b.hlsl"]

/-- The marker is back where it was. -/
def restored : FileTree := withdrawn.put ["z"] (textFile
  "// BeginVertexFormat\n\n// EndVertexFormat\n// BeginVertexInputLayout\n\n// EndVertexInputLayout\n"
  0)

/-- A build has failed between two headers, and all that made a difference to the first of them was
undone. -/
def undone : List Event :=
  [.built (.ok { upToDate := true }) (after restored), .edited restored, .edited withdrawn,
    run spoilt, .edited spoilt, .edited enlarged,
    .built (.ok { compiled := 1, headersWritten := 3 }) (after lone), .edited lone]

theorem undone_facts : report? lone = some { compiled := 1, headersWritten := 3 } ∧
    report? restored = some { upToDate := true } ∧
    (∀ entry ∈ lone.entries, entry.1 ≠ settings.cachePath.locate lone.here ∧
      isBelow (settings.generatedFolder.locate lone.here) entry.1 = false) ∧
    (["s", "b.hlsl"] ≠ settings.cachePath.locate (after lone).tree.here ∧
      isBelow (settings.generatedFolder.locate (after lone).tree.here) ["s", "b.hlsl"] = false) ∧
    (∀ t ∈ [enlarged, withdrawn], ["z"] ≠ settings.cachePath.locate t.here ∧
      isBelow (settings.generatedFolder.locate t.here) ["z"] = false) ∧
    (List.isPrefixOf ["s", "b.hlsl"] (settings.cachePath.locate (after spoilt).tree.here) = false ∧
      List.isPrefixOf ["s", "b.hlsl"] (settings.generatedFolder.locate (after spoilt).tree.here)
        = false ∧
      List.isPrefixOf (settings.generatedFolder.locate (after spoilt).tree.here) ["s", "b.hlsl"]
        = false) ∧
    Orderly settings (trees undone) ∧ Fresh settings (trees undone) ∧
    (∀ t ∈ trees undone, t.here = []) ∧ CacheReachable settings (trees undone) ∧
    RegionsStand settings enlarged spoilt ∧
    (restored.readText settings.vertexLayoutHeader).toOption
      = (enlarged.readText settings.vertexLayoutHeader).toOption ∧
    InPlace settings (after restored).tree ∧
    (((FileSet.found settings restored).toOption.bind (·.structs.toOption)).any fun ss =>
      ((generate settings ss).answer (after restored).tree).toOption == some 1) = true := by
  decide +kernel

theorem history_undone : History plain settings (sealedEdits settings) undone := by
  obtain ⟨hfirst, hlast, hstart, hadd, hheader, hprune, -⟩ := undone_facts
  obtain ⟨hspoil, hrestore⟩ := List.forall_mem_cons.1 hheader
  have hbuilt := history_report (.start (sealedEdits_starts hstart)) hfirst
  have henlarged := history_edit_after (u := enlarged) hbuilt (sealedEdits_put hadd)
  have hspoilt := history_run (history_edit (u := spoilt) henlarged (sealedEdits_put hspoil))
  have hwithdrawn := history_edit_after (u := withdrawn) hspoilt (sealedEdits_prune hprune)
  have hrestored := history_edit (u := restored) hwithdrawn
    (sealedEdits_put (hrestore _ List.mem_cons_self))
  exact history_report hrestored hlast

end SmallProject

/-- A build that fails between two headers leaves the first of them ahead of the cache. When what it
was for is undone, the next build answers that all is up to date, all markers are in place, and
generating would still write that header. -/
theorem outdated_header_behind_up_to_date :
    History plain SmallProject.settings (sealedEdits SmallProject.settings)
      (.built (.ok { upToDate := true }) (SmallProject.after SmallProject.restored) ::
        .edited SmallProject.restored :: SmallProject.undone.tail.tail) ∧
    Orderly SmallProject.settings (trees SmallProject.undone) ∧
    Fresh SmallProject.settings (trees SmallProject.undone) ∧
    (∀ t ∈ trees SmallProject.undone, TargetsElsewhere SmallProject.settings t.here) ∧
    CacheReachable SmallProject.settings (trees SmallProject.undone) ∧
    RegionsStand SmallProject.settings SmallProject.enlarged SmallProject.spoilt ∧
    (SmallProject.restored.readText SmallProject.settings.vertexLayoutHeader).toOption
      = (SmallProject.enlarged.readText SmallProject.settings.vertexLayoutHeader).toOption ∧
    InPlace SmallProject.settings (SmallProject.after SmallProject.restored).tree ∧
    ∃ fs ss, FileSet.found SmallProject.settings SmallProject.restored = .ok fs ∧
      fs.structs = .ok ss ∧
      (generate SmallProject.settings ss).answer (SmallProject.after SmallProject.restored).tree
        = .ok 1 := by
  obtain ⟨-, -, -, -, -, -, orderly, fresh, hhere, reachable, hspoilt, hrestored, inPlace,
    hwrites⟩ := SmallProject.undone_facts
  refine ⟨SmallProject.history_undone, orderly, fresh,
    fun t ht => SmallProject.targetsElsewhere (hhere t ht), reachable, hspoilt, hrestored,
    inPlace, ?_⟩
  rw [Option.any_eq_true] at hwrites
  obtain ⟨ss, hss, hwrites⟩ := hwrites
  obtain ⟨fs, hfs, hss⟩ := Option.bind_eq_some_iff.1 hss
  exact ⟨fs, ss, ok_of_toOption hfs, ok_of_toOption hss, ok_of_toOption (eq_of_beq hwrites)⟩

end ShaderBuild
