import ShaderBuild.Proofs.Build.Idle
import ShaderBuild.Proofs.Build.Standing

/-!
# Builds with nothing to do

A build that finds everything up to date finds the very texts that the last build with something to
do has found (`Rebuilt.texts_eq`), so it knows the same structs. Where the rest stands, it also
finds the generated files that this build left (`Rebuilt.generated?_eq`). Where no build before had
something to do and ended well, there are no shader files.

Main statements: `exists_unchanged`, `exists_bare`.
-/

namespace ShaderBuild

open FileTree BuildCache Target

variable {compiler : Compiler} {gives : Directive → Path → FileTree → List UInt8 → Prop}
  {P : Job → FileTree → List UInt8 → Prop} {s : Settings} {t t₀ u v : FileTree}
  {past newer older : List FileTree} {c : BuildCache} {fs fs₀ : FileSet}

/-! ## Nothing to do -/

namespace Rebuilt

variable {graph : IncludeGraph fs.size} {stale : Fin fs.size → Bool} {changed : Bool}
  {σ₁ σ₂ : Session} {results : List (Option CompileFailure)}
  (h : Rebuilt (Gives gives) s t c fs graph stale changed σ₁ σ₂ v u results)
  (known : ∀ entry ∈ c.records, fs.get? entry.1 ≠ none) (current : ∀ i, ¬ Marks graph stale i)
  (hrec : Remembered s gives c t past newer t₀ older fs₀)
  (orderly : Orderly s (t :: past)) (fresh : Fresh s (t :: past))

include h known current hrec orderly fresh

/-- The texts are those of the build that saved the cache, when this remembers all of them. -/
theorem texts_eq (hall : ∀ f ∈ fs₀.files, ∃ entry ∈ c.records, f.Recorded entry) :
    fs₀.texts = fs.texts := by
  have ht₀ : t₀ ∈ t :: past := List.mem_cons_of_mem _ hrec.mem_past
  refine FileSet.texts_eq_of_found (orderly.named t List.mem_cons_self) (orderly.named t₀ ht₀)
    h.compared.found hrec.found (fun f hf => ?_) fun f₀ hf₀ => ?_
  · obtain ⟨i, hi, rfl⟩ := List.getElem_of_mem hf
    obtain ⟨v, hv⟩ := h.current (current ⟨i, hi⟩) ⟨i, hi⟩ (.inl rfl)
    exact (hrec.content?_eq orderly fresh h.compared.found hf hv t List.mem_cons_self).symm
  · obtain ⟨entry, hentry, hrecorded⟩ := hall f₀ hf₀
    obtain ⟨f, hget⟩ := Option.ne_none_iff_exists'.1 (known entry hentry)
    obtain ⟨hf, hidentity⟩ := FileSet.get?_eq_some hget
    refine ⟨Text.encode f.content, ?_⟩
    rw [orderly.path_eq (mem_filesOver.2 ⟨t₀, ht₀, fs₀, hrec.found, hf₀⟩)
      (mem_filesOver.2 ⟨t, List.mem_cons_self, fs, h.compared.found, hf⟩)
      (hrecorded.key.symm.trans hidentity.symm)]
    exact FileSet.content?_of_found h.compared.found hf

/-- What the cache lists is still produced. -/
theorem produces_of_lists {n : String} (hlists : c.Lists s n) :
    ∃ i, ∃ pm ∈ (fs.get i).permutations, pm.output = s.generatedFolder.child n := by
  obtain ⟨⟨key, r⟩, hentry, ho⟩ := hlists
  obtain ⟨f, hget⟩ := Option.ne_none_iff_exists'.1 (known _ hentry)
  obtain ⟨hf, rfl⟩ := FileSet.get?_eq_some hget
  obtain ⟨i, hi, rfl⟩ := List.getElem_of_mem hf
  obtain ⟨v, hv⟩ := h.current (current ⟨i, hi⟩) ⟨i, hi⟩ (.inl rfl)
  obtain ⟨f₀, -, -, hpermutations, -, r', hr', hrecorded⟩ :=
    hrec.exists_same_permutations orderly fresh h.compared.found hv
  obtain rfl : r' = r := Option.some.inj (hr'.symm.trans (get?_eq_some_iff.2 hentry))
  rw [hrecorded.outputs] at ho
  obtain ⟨pm, hpm, houtput⟩ := List.mem_map.1 ho
  rw [hpermutations] at hpm
  exact ⟨⟨i, hi⟩, pm, hpm, houtput⟩

/-- Where the rest stands, all generated files are as they were. -/
theorem generated?_eq (truthful : Truthful s gives t past) (orderly' : Orderly s (u :: t :: past))
    (hgood : failedSources (marked fs graph stale).staleJobs results = [])
    {w : FileTree} (hnamed : w.WellNamed) (standing : Standing s c w u) (n : String) :
    generated? s u n = generated? s w n := by
  apply Option.ext
  intro content
  refine ⟨standing.old n content, fun hw => ?_⟩
  rcases standing.kept n content hw with hlists | hu
  · -- it is listed, so it is still produced, and what is there now was there before
    obtain ⟨hextension, modified, hat⟩ := generated?_eq_some_iff.1 hw
    have hname : Path.IsName n :=
      wellNamed_iff.1 hnamed _ _ hat n (List.mem_append_right _ List.mem_cons_self)
    obtain ⟨i, pm, hpm, houtput⟩ := h.produces_of_lists known current hrec orderly fresh hlists
    obtain ⟨content', modified', hread⟩ :=
      h.read_output truthful orderly fresh orderly' hgood hpm
    have hat' := at?_of_read hread
    rw [houtput, Path.locate_child hname] at hat'
    have hu := generated?_eq_some_iff.2 ⟨hextension, modified', hat'⟩
    have hsame := standing.old n content' hu
    rw [hw, Option.some.injEq] at hsame
    rw [hsame]
    exact hu
  · exact hu

omit known current hrec orderly fresh in
/-- The generated folder is there behind a build. -/
theorem find_generatedFolder (hpath : s.generatedFolder.text ≠ "") :
    u.find s.generatedFolder = .ok .folder := by
  have hmade := h.compared.made
  have hfolder := find_makeFolders (t := t) hpath (by rw [hmade])
  rw [hmade] at hfolder
  exact h.rest.isFolder (h.compiled.altersOnly.isFolder (h.compared.deletes.isFolder hfolder))

omit known current hrec orderly fresh in
/-- Writing headers and the cache leaves what goes into the shader header. -/
theorem shaderRegions_end (elsewhere : TargetsElsewhere s t.here) (hnamed : u.WellNamed)
    {shader : List Region} (hshader : (shaderRegions s).answer v = .ok shader) :
    (shaderRegions s).answer u = .ok shader := by
  refine shaderRegions_congr hnamed
    (h.find_generatedFolder (text_ne_of_shaderRegions hshader)) (fun n => ?_) hshader
  refine generated?_congr h.rest fun hextension p hp => ?_
  rw [h.compiled.altersOnly.here, h.here_eq]
  exact elsewhere p hp n hextension

end Rebuilt

/-- A cache that is saved remembers the files of its build, and nothing else. -/
theorem Rebuilt.exists_held {graph : IncludeGraph fs.size} {stale : Fin fs.size → Bool}
    {changed : Bool} {σ₁ σ₂ : Session} {results : List (Option CompileFailure)}
    (h : Rebuilt (Gives gives) s t c fs graph stale changed σ₁ σ₂ v u results)
    (orderly : Orderly s (t :: past)) {w : FileTree}
    (saved : Saved (.ofFiles ((marked fs graph stale).markFailed
      (failedSources (marked fs graph stale).staleJobs results))) s.cachePath w u) :
    ∃ c, heldAt s.cachePath u = some c ∧
      (∀ entry ∈ c.records, ∃ f ∈ fs.files, f.Recorded entry) ∧
      ∀ f ∈ fs.files, ∃ entry ∈ c.records, f.Recorded entry := by
  obtain ⟨-, -, -, hapart⟩ := FileSet.scan_ok h.compared.found
  refine ⟨_, h.heldAt_of_saved orderly saved, fun entry hentry => ?_, fun f hf => ?_⟩
  · obtain ⟨i, hrecorded, -⟩ := SourceFile.exists_recorded hapart hentry
    exact ⟨_, FileSet.get_mem i, hrecorded⟩
  · obtain ⟨k, hk, rfl⟩ := List.getElem_of_mem hf
    obtain ⟨entry, hentry, hrecorded, -⟩ := SourceFile.recorded_of_mem hapart ⟨k, hk⟩
    exact ⟨entry, hentry, hrecorded⟩

/-- Behind a build that ends well with something to do, all headers have their regions. -/
theorem Rebuilt.exists_spliced {graph : IncludeGraph fs.size} {stale : Fin fs.size → Bool}
    {changed : Bool} {σ σ' σ₁ σ₂ : Session} {results : List (Option CompileFailure)}
    (h : Rebuilt (Gives gives) s t c fs graph stale changed σ₁ σ₂ σ.tree u results)
    (orderly : Orderly s (t :: past)) (elsewhere : TargetsElsewhere s t.here)
    (hnamed : u.WellNamed) {ss : List Hlsl.Struct} {written : Nat}
    (generated : (generate s ss).runOn σ = (.ok written, σ')) {c' : BuildCache}
    (saved : Saved c' s.cachePath σ'.tree u) :
    ∃ shader, (shaderRegions s).answer u = .ok shader ∧
      ∀ header ∈ headers s shader ss, SplicedFrom σ.tree u header := by
  have hhere : σ.tree.here = t.here := h.compiled.altersOnly.here.trans h.here_eq
  obtain ⟨hcache, hheaders⟩ := List.pairwise_cons.1 (orderly.targets t List.mem_cons_self)
  obtain ⟨shader, hshader, hspliced⟩ :=
    spliced_of_generate (by rw [hhere]; exact hheaders) generated
  refine ⟨shader, h.shaderRegions_end elsewhere hnamed hshader, fun header hheader => ?_⟩
  refine (hspliced header hheader).trans saved.altersOnly fun q hq => ?_
  rw [hq, ((generate_altersOnly s ss).of_runOn generated).here, hhere]
  exact hcache _ (List.mem_map_of_mem (f := fun header => header.1) hheader)

/-- What headers are given behind the compiling they are given from the start of the build, since
nothing that is compiled or deleted is a header. -/
theorem Rebuilt.splicedFrom_start {graph : IncludeGraph fs.size} {stale : Fin fs.size → Bool}
    {changed : Bool} {σ₁ σ₂ : Session} {results : List (Option CompileFailure)}
    (h : Rebuilt (Gives gives) s t c fs graph stale changed σ₁ σ₂ v u results)
    (truthful : Truthful s gives t past) (orderly : Orderly s (t :: past))
    {header : Path × List Region} (hheader : header.1 ∈ s.headers) {w : FileTree}
    (spliced : SplicedFrom v w header) : SplicedFrom t w header :=
  .of_altersOnly (h.altersOnly_compiled truthful)
    (fun _ ho => orderly.output_ne_header ho hheader) spliced

/-! ## Histories -/

theorem not_complete_of_upToDate {report : Report} {σ : Session} (h : report.upToDate = true) :
    ¬ (Event.built (.ok report) σ).Complete := by
  rintro ⟨report', heq, hcomplete⟩
  cases heq
  rw [h] at hcomplete
  cases hcomplete

theorem not_unsaved_of_ok {report : Report} {σ : Session} :
    ¬ (Event.built (.ok report) σ).Unsaved := by
  rintro ⟨-, e, heq, -⟩
  cases heq

/-- A build that ends with `u` has nothing to do since a build that started from `t₀` and ended with
`u₀`: the structs are those that this one found, and if all stands so are the generated files. -/
structure Unchanged (s : Settings) (c : BuildCache) (fs : FileSet) (ss : List Hlsl.Struct)
    (shader : List Region) (t₀ u₀ u : FileTree) : Prop where
  scanned : (FileSet.scan s).answer u = .ok fs
  structs : fs.structs = .ok ss
  /-- What was generated then still follows from what lies in the generated folder. -/
  regions : (shaderRegions s).answer u₀ = .ok shader
  spliced : ∀ header ∈ headers s shader ss, SplicedFrom t₀ u₀ header
  held : heldAt s.cachePath u₀ = some c
  folder : u.find s.generatedFolder = .ok .folder
  clean : ¬ HasFailed s u
  same : Standing s c u₀ u → ∀ n, generated? s u n = generated? s u₀ n

/-- A build that finds everything up to date leaves what it found. -/
theorem Rebuilt.scan_end {P : Job → FileTree → List UInt8 → Prop} {graph : IncludeGraph fs.size}
    {stale : Fin fs.size → Bool} {σ₁ σ₂ : Session} {results : List (Option CompileFailure)}
    (h : Rebuilt P s t c fs graph stale false σ₁ σ₂ v u results) (same : u = σ₂.tree) :
    u = σ₁.tree ∧ (FileSet.scan s).answer u = .ok fs := by
  obtain ⟨-, hkept⟩ := h.compared.vouches
  rw [same, hkept]
  exact ⟨rfl, h.compared.scanned⟩

section

variable (hcompiler : compiler.Writes P) {report report₀ : Report} {σ σ₀ : Session}
  {e e₀ : Event} {past newer older : List Event}
  (h : History compiler s (sealedEdits s) (.built (.ok report) σ :: e :: past))
  (upToDate : report.upToDate = true)
  (orderly : Orderly s (trees (.built (.ok report) σ :: e :: past)))
  (fresh : Fresh s (trees (.built (.ok report) σ :: e :: past)))

include hcompiler h upToDate orderly fresh

/-- A build that has nothing to do where none before was complete finds no shader files. As long as
every build that compiled got to save the cache, there are no generated files either. -/
theorem exists_bare (never : ∀ event ∈ e :: past, ¬ event.Complete)
    (elsewhere : ∀ t ∈ trees (e :: past), TargetsElsewhere s t.here)
    (reachable : CacheReachable s (trees (e :: past))) :
    ∃ fs, (FileSet.scan s).answer σ.tree = .ok fs ∧ fs.files = [] ∧
      (s.generatedFolder.text ≠ "" → σ.tree.find s.generatedFolder = .ok .folder) ∧
      ((∀ event ∈ e :: past, ¬ event.Unsaved) → ∀ n, generated? s σ.tree n = none) := by
  cases h with
  | build before hbuild =>
  have law := hcompiler.obeys
  cases build_end law.writes hbuild with
  | built => cases upToDate
  | @upToDate c fs graph stale σ₁ σ₂ rebuilt known tidy current same =>
  obtain ⟨hmade, hscan⟩ := rebuilt.scan_end same
  -- there was no cache in the beginning, and nothing has saved one since
  have hheld : heldAt s.cachePath e.tree = none := by
    obtain ⟨newer, t₀, hpast, starts⟩ := before.exists_start
    have hstart : heldAt s.cachePath (Event.edited t₀).tree = none := by
      unfold heldAt content? file?
      rw [Event.tree_edited, starts _ (.inl rfl)]
      rfl
    have horderly := orderly.tail
    have hfresh := fresh.tail
    change Orderly s (trees (e :: past)) at horderly
    change Fresh s (trees (e :: past)) at hfresh
    rw [hpast] at before horderly hfresh never
    refine (held_since_build law before horderly hfresh (fun event hevent =>
      never event (List.mem_append_left _ hevent)) hpast.symm hstart).resolve_right ?_
    exact rebuilt.not_hasFailed known current (reachable e.tree List.mem_cons_self)
  obtain rfl : c = .empty := rebuilt.compared.held.resolve_right (by rw [hheld]; simp)
  refine ⟨fs, hscan, ?_, rebuilt.find_generatedFolder, fun saved n => ?_⟩
  · rw [List.eq_nil_iff_forall_not_mem]
    intro f hf
    obtain ⟨i, hi, rfl⟩ := List.getElem_of_mem hf
    obtain ⟨v, hv⟩ := rebuilt.current (current ⟨i, hi⟩) ⟨i, hi⟩ (.inl rfl)
    exact hv (.inl rfl)
  · have hbefore : generated? s e.tree n = none := by
      rw [Option.eq_none_iff_forall_ne_some]
      intro content hcontent
      obtain ⟨c', hheld', -⟩ := Accounted.of_history law before orderly.tail fresh.tail elsewhere
        reachable saved n (generated_iff_exists.2 ⟨content, hcontent⟩)
      rw [hheld] at hheld'
      cases hheld'
    rw [hmade, generated?_congr rebuilt.compared.altersOnly_made fun _ _ hp => hp.elim, hbefore]

variable (split : e :: past = newer ++ .built (.ok report₀) σ₀ :: e₀ :: older)
  (last : ∀ event ∈ newer, ¬ event.Complete)

include split last

/-- A build that has nothing to do finds what the last build with something to do has found. -/
theorem exists_unchanged (complete : report₀.upToDate = false)
    (elsewhere : ∀ t ∈ trees (e :: past), TargetsElsewhere s t.here)
    (reachable : CacheReachable s (trees (e :: past))) :
    ∃ c fs ss shader, Unchanged s c fs ss shader e₀.tree σ₀.tree σ.tree := by
  cases h with
  | build before hbuild =>
  have law := hcompiler.obeys
  have truthful := truthful_of_history law before.of_sealed orderly.tail fresh.tail
  have horderly := orderly.tail
  have hfresh := fresh.tail
  have hreachable := reachable e.tree List.mem_cons_self
  cases build_end law.writes hbuild with
  | built => cases upToDate
  | @upToDate c fs graph stale σ₁ σ₂ rebuilt known tidy current same =>
  -- the last build with something to do
  change Orderly s (trees (e :: past)) at horderly
  change Fresh s (trees (e :: past)) at hfresh
  rw [split] at before horderly hfresh
  have horderly₀ : Orderly s (trees (.built (.ok report₀) σ₀ :: e₀ :: older)) := by
    rw [trees_append] at horderly
    exact horderly.of_append
  have hnamed₀ := horderly₀.named σ₀.tree List.mem_cons_self
  have hbefore₀ : e₀.tree ∈ trees (e :: past) := by
    rw [split, trees_append]
    exact List.mem_append_right _ (List.mem_cons_of_mem _ List.mem_cons_self)
  cases before.of_append with
  | build before₀ hbuild₀ =>
  have truthful₀ := truthful_of_history law before₀.of_sealed horderly₀.tail
    (Fresh.of_append (trees_append newer _ ▸ hfresh)).tail
  cases build_end law.writes hbuild₀ with
  | upToDate => cases complete
  | @built c₁ fs₀ graph₀ stale₀ changed₀ σ₃ σ₄ σ₅ σ₆ results ss written rebuilt₀ structs clean
      generated saved =>
  obtain ⟨c₀, hheld₀, hrecords, hfiles⟩ := rebuilt₀.exists_held horderly₀.tail saved
  -- its cache is the one that the last build has loaded
  have hheld : heldAt s.cachePath e.tree = some c₀ := by
    refine (held_since_build law before horderly hfresh last split.symm hheld₀).resolve_right ?_
    exact rebuilt.not_hasFailed known current hreachable
  obtain rfl := rebuilt.compared.eq_of_heldAt hreachable hheld
  obtain ⟨between, hpast⟩ : ∃ between, trees past = between ++ e₀.tree :: trees older := by
    cases newer with
    | nil =>
      cases split
      exact ⟨[], rfl⟩
    | cons x newer =>
      cases split
      exact ⟨trees newer ++ [σ₀.tree], by simp [trees, Event.tree]⟩
  have hrec : Remembered s (fun _ _ _ _ => True) c e.tree (trees past) between e₀.tree
      (trees older) fs₀ := by
    refine ⟨hpast, rebuilt₀.compared.found, fun entry hentry => ?_⟩
    obtain ⟨f, hf, hrecorded⟩ := hrecords entry hentry
    exact ⟨f, hf, hrecorded, fun _ _ _ _ _ _ => trivial⟩
  have htexts := rebuilt.texts_eq known current hrec orderly.tail fresh.tail hfiles
  obtain ⟨shader, hshader, hspliced⟩ := rebuilt₀.exists_spliced horderly₀.tail
    (elsewhere e₀.tree hbefore₀) hnamed₀ generated saved
  refine ⟨c, fs, ss, shader, (rebuilt.scan_end same).2, ?_, hshader, fun header hheader =>
    rebuilt₀.splicedFrom_start truthful₀ horderly₀.tail
      (List.mem_map_of_mem (f := fun header => header.1) hheader) (hspliced header hheader),
    hheld₀, ?_, ?_, ?_⟩
  · rw [← FileSet.structs_congr htexts, ← FileSet.structs_congr texts_marked, structs]
  · exact rebuilt.find_generatedFolder (text_ne_of_shaderRegions hshader)
  · intro hfailed
    refine rebuilt.not_hasFailed known current hreachable (hfailed.congr ?_)
    refine (held_of_loses truthful orderly.tail ?_).symm
    rw [same]
    exact rebuilt.compared.loses_recorded
  · exact rebuilt.generated?_eq known current hrec orderly.tail fresh.tail truthful orderly
      (failedSources_of_clean rfl) hnamed₀

variable (saved : ∀ event ∈ newer, ¬ event.Unsaved) {ss : List Hlsl.Struct} {shader : List Region}
  (unchanged : Unchanged s c fs ss shader e₀.tree σ₀.tree σ.tree)

include saved unchanged

/-- As long as every build that compiled got to save the cache, the generated files are the same. -/
theorem generated?_of_unchanged (n : String) : generated? s σ.tree n = generated? s σ₀.tree n := by
  rw [split, ← List.cons_append] at h orderly fresh
  refine unchanged.same ((standing_since_build hcompiler.obeys h orderly fresh ?_ rfl ?_
    unchanged.held).resolve_right unchanged.clean) n
  · exact List.forall_mem_cons.2 ⟨not_complete_of_upToDate upToDate, last⟩
  · exact List.forall_mem_cons.2 ⟨not_unsaved_of_ok, saved⟩

/-- When what was done from outside left the regions of the headers alone, so are these. -/
theorem regions_of_unchanged (untouched : ∀ t, .edited t ∈ newer → RegionsStand s σ₀.tree t) :
    RegionsStand s σ₀.tree σ.tree := by
  rw [split, ← List.cons_append] at h orderly fresh
  refine (regions_stand_since_build hcompiler.obeys h orderly fresh ?_ rfl ?_ ?_).resolve_right
    unchanged.clean
  · exact List.forall_mem_cons.2 ⟨not_complete_of_upToDate upToDate, last⟩
  · exact List.forall_mem_cons.2 ⟨not_unsaved_of_ok, saved⟩
  · intro t ht
    rcases List.mem_cons.1 ht with heq | ht
    · cases heq
    · exact untouched t ht

end

end ShaderBuild
