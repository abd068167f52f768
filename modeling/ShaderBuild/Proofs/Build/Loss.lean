import ShaderBuild.Proofs.Build.Tidy

/-!
# Losing the cache

What a build that ends well makes of a tree is said in terms of the tree and of what the cache lists
(`Outcome`, `exists_outcome`). A tree whose cache is lost (`CacheLost`) shows the same files and
lists nothing. So a build of it compiles the same outputs as one that has the cache
(`exists_same_output`), and the two differ in the generated files that nothing produces any more
(`generated?_eq_iff`), and in the headers when only one of them writes these (`headers_eq_iff`).

Main statement: `cache_loss_is_harmless`.
-/

namespace ShaderBuild

open FileTree BuildCache Target

variable {compiler : Compiler} {gives : Directive → Path → FileTree → List UInt8 → Prop}
  {text? : Directive → Path → FileTree → Option (List UInt8)} {s : Settings} {n : String}
  {t t' u u' v : FileTree} {past : List FileTree} {c : BuildCache} {fs fs' : FileSet}
  {ss : List Hlsl.Struct} {shader : List Region} {idle idle' : Bool}

/-! ## What a build comes to -/

/-- What a build that ends well makes of a tree, by what the cache lists. All that is produced is
compiled, and a header is given its regions unless there is nothing to do. -/
structure Outcome (s : Settings) (gives : Directive → Path → FileTree → List UInt8 → Prop)
    (t : FileTree) (c : BuildCache) (fs : FileSet) (idle : Bool) (u : FileTree) : Prop where
  found : FileSet.found s t = .ok fs
  named : u.WellNamed
  folder : s.generatedFolder.text ≠ "" → u.find s.generatedFolder = .ok .folder
  /-- What a file includes, directly or not, was found with it. -/
  closed : ∀ f ∈ fs.files, ∀ p, Relation.ReflTransGen t.Includes f.path p →
    ∃ g ∈ fs.files, g.path = p
  compiled : ∀ f ∈ fs.files, ∀ pm ∈ f.permutations, ∃ x, gives pm.directive f.path t x ∧
    u.content? pm.output = some x
  deleted : ∀ n, c.Lists s n → ¬ fs.Produces s n → generated? s u n = none
  kept : ∀ n, ¬ c.Lists s n → ¬ fs.Produces s n → generated? s u n = generated? s t n
  untouched : idle = true → ∀ p ∈ s.headers, u.content? p = t.content? p
  spliced : idle = false → ∃ ss shader, fs.structs = .ok ss ∧
    (shaderRegions s).answer u = .ok shader ∧
    ∀ header ∈ headers s shader ss, SplicedFrom t u header

/-- What a generated file holds is what is at its path. -/
theorem generated?_eq_content? (hn : Path.IsName n)
    (hextension : s.generatedExtension.toList <:+ n.toList) :
    generated? s t n = t.content? (s.generatedFolder.child n) := by
  apply Option.ext
  intro content
  rw [generated?_eq_some_iff, List.isSuffixOf_iff_suffix, and_iff_right hextension,
    content?_eq_some_iff]
  simp only [file?_eq_some_iff, Path.locate_child hn]

namespace Rebuilt

variable {graph : IncludeGraph fs.size} {stale : Fin fs.size → Bool} {changed : Bool}
  {σ₁ σ₂ : Session} {results : List (Option CompileFailure)}
  (h : Rebuilt (Gives gives) s t c fs graph stale changed σ₁ σ₂ v u results)
  (truthful : Truthful s gives t past) (orderly : Orderly s (u :: t :: past))
  (elsewhere : TargetsElsewhere s t.here)

include h truthful orderly elsewhere

/-- A generated file that is neither produced nor listed holds what it held, if it is there. -/
theorem generated?_of_not_listed (hlisted : ¬ c.Lists s n) (hproduces : ¬ fs.Produces s n) :
    generated? s u n = generated? s t n := by
  have hname : ∀ w ∈ [u, t], ∀ x, generated? s w n = some x → Path.IsName n := by
    intro w hw x hx
    refine Generated.isName (generated_iff_exists.2 ⟨x, hx⟩) (orderly.named w ?_)
    rcases List.mem_pair.1 hw with rfl | rfl <;> simp
  have hsame : ∀ x, Path.IsName n → (generated? s u n = some x ↔ generated? s t n = some x) := by
    intro x hn
    rw [generated?_eq_some_iff, generated?_eq_some_iff, List.isSuffixOf_iff_suffix]
    refine and_congr_right fun hextension => exists_congr fun modified => ?_
    exact h.at?_of_not_listed orderly.tail elsewhere truthful hn hextension hlisted hproduces x _
  apply Option.ext
  intro x
  constructor
  · exact fun hx => (hsame x (hname u (by simp) x hx)).1 hx
  · exact fun hx => (hsame x (hname t (by simp) x hx)).2 hx

/-- A build in which no job failed comes to such an outcome. -/
theorem outcome (law : compiler.Obeys gives) (fresh : Fresh s (t :: past))
    (hgood : failedSources (marked fs graph stale).staleJobs results = [])
    (untouched : idle = true → ∀ p ∈ s.headers, u.content? p = t.content? p)
    (spliced : idle = false → ∃ ss shader, fs.structs = .ok ss ∧
      (shaderRegions s).answer u = .ok shader ∧
      ∀ header ∈ headers s shader ss, SplicedFrom t u header) :
    Outcome s gives t c fs idle u where
  found := h.compared.found
  named := orderly.named u List.mem_cons_self
  folder := h.find_generatedFolder
  closed := by
    intro f hf p hp
    obtain ⟨k, hk, rfl⟩ := List.getElem_of_mem hf
    obtain ⟨j, hj, -⟩ := orderly.tail.exists_of_includes List.mem_cons_self h.compared.found
      h.compared.included (i := ⟨k, hk⟩) hp
    exact ⟨_, FileSet.get_mem j, hj⟩
  compiled := by
    intro f hf pm hpm
    obtain ⟨k, hk, rfl⟩ := List.getElem_of_mem hf
    obtain ⟨content, modified, hread⟩ :=
      h.read_output truthful orderly.tail fresh orderly hgood (i := ⟨k, hk⟩) hpm
    have hcontent := content?_eq_some_iff.2 ⟨modified, file?_of_read hread⟩
    exact ⟨content, h.gives_of_content truthful orderly.tail law fresh
      (by rw [hgood]; exact List.not_mem_nil) hpm hcontent, hcontent⟩
  deleted := by
    intro n hlisted hproduces
    rw [Option.eq_none_iff_forall_ne_some]
    intro x hx
    exact h.not_generated_of_listed orderly.tail elsewhere hlisted hproduces
      (generated_iff_exists.2 ⟨x, hx⟩)
  kept _ := h.generated?_of_not_listed truthful orderly elsewhere
  untouched := untouched
  spliced := spliced

end Rebuilt

/-- What builds that end well come to. -/
theorem exists_outcome (law : compiler.Obeys gives) {report : Report} {σ : Session}
    (hbuild : (build compiler s).runOn { tree := t } = (.ok report, σ))
    (truthful : Truthful s gives t past) (orderly : Orderly s (σ.tree :: t :: past))
    (fresh : Fresh s (t :: past)) (elsewhere : TargetsElsewhere s t.here) :
    ∃ c fs, (BuildCache.load s.cachePath).answer (t.makeFolders s.generatedFolder).2 = .ok c ∧
      Outcome s gives t c fs report.upToDate σ.tree := by
  cases build_end law.writes hbuild with
  | @upToDate c fs _ _ _ _ rebuilt =>
    refine ⟨c, fs, ?_, rebuilt.outcome truthful orderly elsewhere law fresh
      (failedSources_of_clean rfl) (fun _ p hp => ?_) fun hidle => by cases hidle⟩
    · rw [rebuilt.compared.made]
      exact rebuilt.compared.loaded
    · unfold content?
      rw [(rebuilt.altersOnly_compiled truthful).file?_eq
        fun _ ho => orderly.tail.output_ne_header ho hp]
  | @built c fs _ _ _ _ _ _ _ _ ss _ rebuilt structs clean generated saved =>
    refine ⟨c, fs, ?_, rebuilt.outcome truthful orderly elsewhere law fresh
      (failedSources_of_clean clean) (fun hidle => by cases hidle) fun _ => ?_⟩
    · rw [rebuilt.compared.made]
      exact rebuilt.compared.loaded
    · obtain ⟨shader, hshader, hspliced⟩ := rebuilt.exists_spliced orderly.tail elsewhere
        (orderly.named _ List.mem_cons_self) generated saved
      refine ⟨ss, shader, ?_, hshader, fun header hheader => ?_⟩
      · rw [← FileSet.structs_congr texts_marked, structs]
      · exact rebuilt.splicedFrom_start truthful orderly.tail
          (List.mem_map_of_mem (f := fun header => header.1) hheader) (hspliced header hheader)

/-! ## Trees without their cache -/

/-- The cache of a tree is gone or cannot be decoded, and all the rest is as it was. -/
structure CacheLost (s : Settings) (t u : FileTree) : Prop where
  here : u.here = t.here
  rest : ∀ l, l ≠ s.cachePath.locate t.here → u.at? l = t.at? l
  lost : heldAt s.cachePath u = none

namespace CacheLost

/-- The cache file was deleted. -/
theorem of_prune {file : List UInt8 × Timestamp} (h : t.file? s.cachePath = some file) :
    CacheLost s t (t.prune (s.cachePath.locate t.here)) := by
  have hat := at?_prune_file (file?_eq_some_iff.1 h)
  refine ⟨rfl, fun l hl => by rw [hat, if_neg hl], ?_⟩
  have hgone : (t.prune (s.cachePath.locate t.here)).at? (s.cachePath.locate t.here) = none := by
    rw [hat, if_pos rfl]
  rw [Option.eq_none_iff_forall_ne_some]
  intro c hc
  obtain ⟨bytes, hbytes, -⟩ := Option.bind_eq_some_iff.1 hc
  obtain ⟨modified, hfile⟩ := content?_eq_some_iff.1 hbytes
  cases hgone.symm.trans (file?_eq_some_iff.1 hfile)

theorem content?_eq (h : CacheLost s t u) {p : Path}
    (hp : p.locate t.here ≠ s.cachePath.locate t.here) : u.content? p = t.content? p := by
  unfold content? file?
  rw [h.here, h.rest _ hp]

theorem generated?_eq (h : CacheLost s t u) (elsewhere : TargetsElsewhere s t.here) :
    generated? s u n = generated? s t n := by
  apply Option.ext
  intro content
  rw [generated?_eq_some_iff, generated?_eq_some_iff, h.here, List.isSuffixOf_iff_suffix]
  refine and_congr_right fun hextension => ?_
  rw [h.rest _ (elsewhere s.cachePath List.mem_cons_self n hextension).symm]

/-- No shader file has changed. -/
theorem content?_of_found (h : CacheLost s t u) (orderly : Orderly s (t :: past))
    (hfs : FileSet.found s t = .ok fs) {f : SourceFile} (hf : f ∈ fs.files) :
    u.content? f.path = t.content? f.path :=
  h.content?_eq (orderly.sources t List.mem_cons_self f
    (mem_filesOver.2 ⟨t, List.mem_cons_self, fs, hfs, hf⟩) _ List.mem_cons_self)

theorem content?_of_found_again (h : CacheLost s t u) (orderly : Orderly s (u :: past))
    (hfs : FileSet.found s u = .ok fs) {f : SourceFile} (hf : f ∈ fs.files) :
    t.content? f.path = u.content? f.path := by
  refine (h.content?_eq ?_).symm
  rw [← h.here]
  exact orderly.sources u List.mem_cons_self f
    (mem_filesOver.2 ⟨u, List.mem_cons_self, fs, hfs, hf⟩) _ List.mem_cons_self

end CacheLost

/-- A build finds a file again that has kept its content, with the same permutations. -/
theorem FileSet.exists_same_permutations (named : t.WellNamed) (h : FileSet.found s t = .ok fs)
    (h' : FileSet.found s u = .ok fs')
    (hcontent : ∀ f ∈ fs.files, u.content? f.path = t.content? f.path) {f : SourceFile}
    (hf : f ∈ fs.files) : ∃ g ∈ fs'.files, g.path = f.path ∧ g.permutations = f.permutations := by
  obtain ⟨g, hg, hpath⟩ := FileSet.found_again named h h' hf
    ((hcontent f hf).trans (FileSet.content?_of_found h hf))
  exact ⟨g, hg, hpath, FileSet.permutations_of_found h hf h' hg hpath (hcontent f hf)⟩

/-- What files produce that have kept their content is produced again. -/
theorem FileSet.produces_of_found (named : t.WellNamed) (h : FileSet.found s t = .ok fs)
    (h' : FileSet.found s u = .ok fs')
    (hcontent : ∀ f ∈ fs.files, u.content? f.path = t.content? f.path) (hn : fs.Produces s n) :
    fs'.Produces s n := by
  obtain ⟨f, hf, d, hd, rfl⟩ := hn
  obtain ⟨g, hg, hpath, hpermutations⟩ :=
    FileSet.exists_same_permutations named h h' hcontent hf
  refine ⟨g, hg, d, ?_, by rw [hpath]⟩
  unfold SourceFile.directives at hd ⊢
  rwa [hpermutations]

/-! ## The headers -/

/-- The headers hold what is generated for the files of a set: every one stays the same when its
regions are replaced. -/
def FileSet.HeadersHold (s : Settings) (fs : FileSet) (t : FileTree) : Prop :=
  ∃ ss shader, fs.structs = .ok ss ∧ (shaderRegions s).answer t = .ok shader ∧
    ∀ header ∈ headers s shader ss, ∃ text, t.content? header.1 = some (Text.encode text) ∧
      spliceAll text header.2 = .ok text

/-- They do when generating writes none. -/
theorem FileSet.headersHold_of_generate (structs : fs.structs = .ok ss)
    (h : (generate s ss).answer t = .ok 0) : fs.HeadersHold s t := by
  obtain ⟨shader, hshader, hkeeps⟩ := generate_eq_zero_iff.1 h
  refine ⟨ss, shader, structs, hshader, fun header hheader => ?_⟩
  obtain ⟨text, htext, hsplice⟩ := hkeeps header hheader
  exact ⟨text, content?_of_readText htext, hsplice⟩

theorem exists_header {p : Path} (hp : p ∈ s.headers) (shader : List Region)
    (ss : List Hlsl.Struct) : ∃ header ∈ headers s shader ss, header.1 = p := by
  have hpaths : (headers s shader ss).map (·.1) = s.headers := rfl
  rw [← hpaths] at hp
  exact List.mem_map.1 hp

/-- Headers that are left alone are those that are written exactly when they hold already what is
generated. -/
theorem headers_eq_iff_hold (hsame : ∀ p ∈ s.headers, u.content? p = t.content? p)
    (untouched : ∀ p ∈ s.headers, t'.content? p = t.content? p) (structs : fs.structs = .ok ss)
    (hshader : (shaderRegions s).answer t' = .ok shader)
    (spliced : ∀ header ∈ headers s shader ss, SplicedFrom u u' header) :
    (∀ p ∈ s.headers, u'.content? p = t'.content? p) ↔ fs.HeadersHold s t' := by
  have hbefore : ∀ p ∈ s.headers, u.content? p = t'.content? p :=
    fun p hp => (hsame p hp).trans (untouched p hp).symm
  constructor
  · intro hafter
    refine ⟨ss, shader, structs, hshader, fun header hheader => ?_⟩
    have hp : header.1 ∈ s.headers := List.mem_map_of_mem (f := fun header => header.1) hheader
    obtain ⟨old, text, hold, hsplice, htext⟩ := spliced header hheader
    have htext := content?_of_readText htext
    rw [hafter _ hp] at htext
    rw [hbefore _ hp, htext, Option.some.injEq] at hold
    obtain rfl := Text.encode_injective hold
    exact ⟨text, htext, hsplice⟩
  · rintro ⟨ss', shader', hstructs, hshader', hhold⟩ p hp
    obtain rfl : ss' = ss := Except.ok.inj (hstructs.symm.trans structs)
    obtain rfl : shader' = shader := Except.ok.inj (hshader'.symm.trans hshader)
    obtain ⟨header, hheader, rfl⟩ := exists_header hp shader' ss'
    obtain ⟨old, text, hold, hsplice, htext⟩ := spliced header hheader
    obtain ⟨text', hcontent, hstays⟩ := hhold header hheader
    rw [hbefore _ hp, hcontent, Option.some.injEq] at hold
    obtain rfl := Text.encode_injective hold
    obtain rfl : text' = text := Except.ok.inj (hstays.symm.trans hsplice)
    rw [content?_of_readText htext, hcontent]

/-! ## Two builds -/

section

variable (law : compiler.Computes text?) (lost : CacheLost s t u)
  (orderly : Orderly s (t :: past)) {past' : List FileTree} (orderly' : Orderly s (u :: past'))
  (h : Outcome s (fun d p t x => text? d p t = some x) t c fs idle t')
  (h' : Outcome s (fun d p t x => text? d p t = some x) u .empty fs' idle' u')

include lost orderly orderly' h h'

/-- Both builds find the same texts. -/
theorem texts_eq_of_lost : fs'.texts = fs.texts := by
  refine FileSet.texts_eq_of_found (orderly.named t List.mem_cons_self)
    (orderly'.named u List.mem_cons_self) h.found h'.found
    (fun f hf => lost.content?_of_found orderly h.found hf) fun f hf => ?_
  rw [lost.content?_of_found_again orderly' h'.found hf]
  exact ⟨_, FileSet.content?_of_found h'.found hf⟩

/-- Both builds produce the same. -/
theorem produces_iff_of_lost : fs'.Produces s n ↔ fs.Produces s n := by
  constructor
  · exact FileSet.produces_of_found (orderly'.named u List.mem_cons_self) h'.found h.found
      fun f hf => lost.content?_of_found_again orderly' h'.found hf
  · exact FileSet.produces_of_found (orderly.named t List.mem_cons_self) h.found h'.found
      fun f hf => lost.content?_of_found orderly h.found hf

omit orderly' in
include law in
/-- An output of a file holds the same behind both builds. -/
theorem exists_same_output {f : SourceFile} (hf : f ∈ fs.files) {pm : Permutation}
    (hpm : pm ∈ f.permutations) : ∃ x, text? pm.directive f.path t = some x ∧
      t'.content? pm.output = some x ∧ u'.content? pm.output = some x := by
  have hsame : t.SameSources u f.path := by
    intro q hq
    obtain ⟨g, hg, rfl⟩ := h.closed f hf q hq
    exact lost.content?_of_found orderly h.found hg
  obtain ⟨g, hg, hpath, hpermutations⟩ := FileSet.exists_same_permutations
    (orderly.named t List.mem_cons_self) h.found h'.found
    (fun f hf => lost.content?_of_found orderly h.found hf) hf
  obtain ⟨x, hgives, hx⟩ := h.compiled f hf pm hpm
  obtain ⟨y, hgives', hy⟩ := h'.compiled g hg pm (by rwa [hpermutations])
  rw [hpath, law.depends _ _ t u hsame, hgives, Option.some.injEq] at hgives'
  exact ⟨x, hgives, hx, by rw [hgives', hy]⟩

variable (elsewhere : TargetsElsewhere s t.here)

include elsewhere

include law in
/-- The generated files are the same exactly when all that the cache lists is still produced. -/
theorem generated?_eq_iff : (∀ n, generated? s u' n = generated? s t' n) ↔
    ∀ n, Generated s t n → c.Lists s n → fs.Produces s n := by
  -- without the cache nothing is listed, so all that is not produced stays
  have hkept : ∀ n, ¬ fs.Produces s n → generated? s u' n = generated? s t n := by
    intro n hproduces
    rw [← lost.generated?_eq elsewhere]
    refine h'.kept n ?_ ((produces_iff_of_lost lost orderly orderly' h h').not.2 hproduces)
    rintro ⟨entry, hentry, -⟩
    cases hentry
  constructor
  · intro hsame n hn hlisted
    by_contra hproduces
    obtain ⟨x, hx⟩ := generated_iff_exists.1 hn
    rw [← hkept n hproduces, hsame, h.deleted n hlisted hproduces] at hx
    cases hx
  · intro hlisted n
    by_cases hproduces : fs.Produces s n
    · have hn := isName_of_produces orderly List.mem_cons_self h.found hproduces
      have hextension := extension_of_produces hproduces
      obtain ⟨i, pm, hpm, houtput⟩ := exists_output_of_produces h.found hproduces
      obtain ⟨x, -, hx, hx'⟩ :=
        exists_same_output law lost orderly h h' (FileSet.get_mem i) hpm
      rw [generated?_eq_content? hn hextension, generated?_eq_content? hn hextension, ← houtput,
        hx, hx']
    · rw [hkept n hproduces]
      by_cases hc : c.Lists s n
      · rw [h.deleted n hc hproduces, Option.eq_none_iff_forall_ne_some]
        exact fun x hx => hproduces (hlisted n (generated_iff_exists.2 ⟨x, hx⟩) hc)
      · exact (h.kept n hc hproduces).symm

omit elsewhere in
/-- When the generated files are the same, the headers are the same exactly when a build that left
them alone left them as they are generated, unless both did. -/
theorem headers_eq_iff (hsame : ∀ n, generated? s u' n = generated? s t' n) :
    (∀ p ∈ s.headers, u'.content? p = t'.content? p) ↔
      (idle = true → idle' = false → fs.HeadersHold s t') ∧
        (idle = false → idle' = true → fs.HeadersHold s u') := by
  have hstructs : fs'.structs = fs.structs :=
    FileSet.structs_congr (texts_eq_of_lost lost orderly orderly' h h')
  have hbefore : ∀ p ∈ s.headers, u.content? p = t.content? p := by
    obtain ⟨hcache, -⟩ := List.pairwise_cons.1 (orderly.targets t List.mem_cons_self)
    exact fun p hp => lost.content?_eq (hcache p hp).symm
  have hregions : ∀ {shader}, (shaderRegions s).answer u' = .ok shader →
      (shaderRegions s).answer t' = .ok shader := fun hshader =>
    shaderRegions_congr h.named (h.folder (text_ne_of_shaderRegions hshader))
      (fun n => (hsame n).symm) hshader
  have hregions' : ∀ {shader}, (shaderRegions s).answer t' = .ok shader →
      (shaderRegions s).answer u' = .ok shader := fun hshader =>
    shaderRegions_congr h'.named (h'.folder (text_ne_of_shaderRegions hshader)) hsame hshader
  cases hidle : idle <;> cases hidle' : idle'
  · -- both have written the headers
    simp only [Bool.false_eq_true, false_implies, implies_true, and_self, iff_true]
    obtain ⟨ss, shader, hss, hshader, hspliced⟩ := h.spliced hidle
    obtain ⟨ss', shader', hss', hshader', hspliced'⟩ := h'.spliced hidle'
    obtain rfl : ss' = ss := Except.ok.inj ((hss'.symm.trans hstructs).trans hss)
    obtain rfl : shader' = shader := Except.ok.inj (hshader'.symm.trans (hregions' hshader))
    intro p hp
    obtain ⟨header, hheader, rfl⟩ := exists_header hp shader' ss'
    exact (hspliced header hheader).content?_eq (hspliced' header hheader) (hbefore _ hp)
  · obtain ⟨ss, shader, hss, hshader, hspliced⟩ := h.spliced hidle
    simp only [Bool.false_eq_true, false_implies, true_implies, true_and]
    rw [← headers_eq_iff_hold (fun p hp => (hbefore p hp).symm) (h'.untouched hidle') hss
      (hregions' hshader) hspliced]
    exact forall₂_congr fun p _ => eq_comm
  · obtain ⟨ss, shader, hss, hshader, hspliced⟩ := h'.spliced hidle'
    simp only [Bool.true_eq_false, false_implies, true_implies, and_true]
    exact headers_eq_iff_hold hbefore (h.untouched hidle) (hstructs.symm.trans hss)
      (hregions hshader) hspliced
  · -- neither has
    simp only [Bool.true_eq_false, false_implies, implies_true, and_self, iff_true]
    intro p hp
    rw [h'.untouched hidle' p hp, hbefore p hp, h.untouched hidle p hp]

end

/-- **When losing the cache changes nothing.** A build of a tree with a history and one of the same
tree without its cache leave the same in the outputs of all files. They leave the same generated
files exactly when everything generated that the cache lists is still produced, and then also the
same headers exactly when a build that answered that all is up to date, while the other did not,
left the headers as they are generated. -/
theorem cache_loss_is_harmless (law : compiler.Computes text?) {report report' : Report}
    {σ σ' : Session} {e : Event} {past : List Event}
    (h : History compiler s (sourceEdits s) (e :: past))
    (hbuild : (build compiler s).runOn { tree := e.tree } = (.ok report, σ))
    (lost : CacheLost s e.tree u)
    (hbuild' : (build compiler s).runOn { tree := u } = (.ok report', σ'))
    (orderly : Orderly s (σ.tree :: trees (e :: past))) (orderly' : Orderly s [σ'.tree, u])
    (fresh : Fresh s (trees (e :: past))) (elsewhere : TargetsElsewhere s e.tree.here) :
    ∃ c fs, (BuildCache.load s.cachePath).answer (e.tree.makeFolders s.generatedFolder).2 = .ok c ∧
      FileSet.found s e.tree = .ok fs ∧
      (∀ f ∈ fs.files, ∀ pm ∈ f.permutations, ∃ x, text? pm.directive f.path e.tree = some x ∧
        σ.tree.content? pm.output = some x ∧ σ'.tree.content? pm.output = some x) ∧
      ((∀ n, generated? s σ'.tree n = generated? s σ.tree n) ↔
        ∀ n, Generated s e.tree n → c.Lists s n → fs.Produces s n) ∧
      ((∀ n, generated? s σ'.tree n = generated? s σ.tree n) →
        ((∀ p ∈ s.headers, σ'.tree.content? p = σ.tree.content? p) ↔
          (report.upToDate = true → report'.upToDate = false → fs.HeadersHold s σ.tree) ∧
          (report.upToDate = false → report'.upToDate = true → fs.HeadersHold s σ'.tree))) := by
  have truthful := truthful_of_history law.obeys h orderly.tail fresh
  obtain ⟨c, fs, hloaded, houtcome⟩ :=
    exists_outcome law.obeys hbuild truthful orderly fresh elsewhere
  -- a tree without a cache needs no history
  have hnothing : Truthful s (fun d p t x => text? d p t = some x) u [] := by
    intro c' hc'
    rw [lost.lost] at hc'
    cases hc'
  have hfresh : Fresh s [u] := fun f _ => ⟨by simp, trivial⟩
  obtain ⟨c', fs', hloaded', houtcome'⟩ := exists_outcome law.obeys hbuild' hnothing orderly' hfresh
    (by rw [lost.here]; exact elsewhere)
  obtain rfl : c' = .empty := by
    refine (held_of_loaded (altersOnly_makeFolders u s.generatedFolder) hloaded').resolve_right ?_
    rw [lost.lost]
    exact fun hheld => by cases hheld
  refine ⟨c, fs, hloaded, houtcome.found, fun f hf pm hpm => ?_, ?_, fun hsame => ?_⟩
  · exact exists_same_output law lost orderly.tail houtcome houtcome' hf hpm
  · exact generated?_eq_iff law lost orderly.tail orderly'.tail houtcome houtcome' elsewhere
  · exact headers_eq_iff lost orderly.tail orderly'.tail houtcome houtcome' hsame

/-! ## A small project without its cache -/

namespace SmallProject

/-- A tree without its cache file. -/
def forget (t : FileTree) : FileTree := t.prune (settings.cachePath.locate t.here)

theorem cacheLost_forget (h : (t.file? settings.cachePath).isSome = true) :
    CacheLost settings t (forget t) := by
  obtain ⟨file, hfile⟩ := Option.isSome_iff_exists.1 h
  exact .of_prune hfile

/-- A name in the generated folder is produced when all names there are. -/
theorem produces_of_generated (h : ∀ entry ∈ t.entries,
      entry.1.dropLast = settings.generatedFolder.locate t.here →
        fs.Produces settings (entry.1.getLastD "")) (hn : Generated settings t n) :
    fs.Produces settings n := by
  obtain ⟨-, content, modified, hat⟩ := hn
  simpa using h _ (at?_eq_some_iff.1 hat)

theorem inSync_facts : report? (after twoShaders).tree = some { upToDate := true } ∧
    report? (forget (after twoShaders).tree) = some { compiled := 2 } ∧
    ((after twoShaders).tree.file? settings.cachePath).isSome = true ∧
    (after twoShaders).tree.here = [] ∧
    Orderly settings ((after (after twoShaders).tree).tree :: trees
      [.built (.ok { compiled := 2, headersWritten := 3 }) (after twoShaders),
        .edited twoShaders]) ∧
    Orderly settings [(after (forget (after twoShaders).tree)).tree,
      forget (after twoShaders).tree] ∧
    ((FileSet.found settings (after twoShaders).tree).toOption.all fun fs =>
      decide (∀ entry ∈ (after twoShaders).tree.entries,
        entry.1.dropLast = settings.generatedFolder.locate (after twoShaders).tree.here →
          fs.Produces settings (entry.1.getLastD "")) &&
      fs.structs.toOption.any fun ss =>
        ((generate settings ss).answer (after (after twoShaders).tree).tree).toOption == some 0)
      = true := by
  decide +kernel

/-- All that is generated is produced, and the headers hold what is generated. -/
theorem inSync_found (hfs : FileSet.found settings (after twoShaders).tree = .ok fs) :
    (∀ n, Generated settings (after twoShaders).tree n → fs.Produces settings n) ∧
      fs.HeadersHold settings (after (after twoShaders).tree).tree := by
  obtain ⟨-, -, -, -, -, -, hfound⟩ := inSync_facts
  rw [hfs, Except.toOption, Option.all_some, Bool.and_eq_true, decide_eq_true_eq] at hfound
  obtain ⟨hproduces, hwrites⟩ := hfound
  obtain ⟨ss, hss, hzero⟩ := (Option.any_eq_true _ _).1 hwrites
  refine ⟨fun n => produces_of_generated hproduces, ?_⟩
  exact FileSet.headersHold_of_generate (ok_of_toOption hss) (ok_of_toOption (eq_of_beq hzero))

end SmallProject

theorem small_project_survives_loss :
    (∀ n, generated? SmallProject.settings (SmallProject.after (SmallProject.forget
        (SmallProject.after SmallProject.twoShaders).tree)).tree n =
      generated? SmallProject.settings
        (SmallProject.after (SmallProject.after SmallProject.twoShaders).tree).tree n) ∧
    ∀ p ∈ SmallProject.settings.headers,
      (SmallProject.after (SmallProject.forget
        (SmallProject.after SmallProject.twoShaders).tree)).tree.content? p =
      (SmallProject.after (SmallProject.after SmallProject.twoShaders).tree).tree.content? p := by
  obtain ⟨hidle, hbuilt, hcache, hhere, orderly, orderly', -⟩ := SmallProject.inSync_facts
  obtain ⟨-, hfirst, hstart, -, -, fresh, -, -⟩ := SmallProject.removal_facts
  have hhistory := SmallProject.history_report (.start (sealedEdits_starts hstart)) hfirst
  -- said of any session, so that the builds behind this one are not run again
  have hsurvives : ∀ {past : List Event} {r : Except Error Report} {σ₀ σ σ' : Session},
      History plain SmallProject.settings (sourceEdits SmallProject.settings)
        (.built r σ₀ :: past) →
      (build plain SmallProject.settings).runOn { tree := σ₀.tree } =
        (.ok { upToDate := true }, σ) →
      (build plain SmallProject.settings).runOn { tree := SmallProject.forget σ₀.tree } =
        (.ok { compiled := 2 }, σ') →
      CacheLost SmallProject.settings σ₀.tree (SmallProject.forget σ₀.tree) →
      Orderly SmallProject.settings (σ.tree :: trees (.built r σ₀ :: past)) →
      Orderly SmallProject.settings [σ'.tree, SmallProject.forget σ₀.tree] →
      Fresh SmallProject.settings (trees (.built r σ₀ :: past)) → σ₀.tree.here = [] →
      (∀ fs, FileSet.found SmallProject.settings σ₀.tree = .ok fs →
        (∀ n, Generated SmallProject.settings σ₀.tree n → fs.Produces SmallProject.settings n) ∧
          fs.HeadersHold SmallProject.settings σ.tree) →
      (∀ n, generated? SmallProject.settings σ'.tree n =
        generated? SmallProject.settings σ.tree n) ∧
      ∀ p ∈ SmallProject.settings.headers, σ'.tree.content? p = σ.tree.content? p := by
    intro past r σ₀ σ σ' hhistory hidle hbuilt lost orderly orderly' fresh hhere hfound
    obtain ⟨c, fs, -, hfs, -, hgenerated, hheaders⟩ := cache_loss_is_harmless plain_computes
      hhistory hidle lost hbuilt orderly orderly' fresh (SmallProject.targetsElsewhere hhere)
    obtain ⟨hproduces, hhold⟩ := hfound fs hfs
    have hsame := hgenerated.2 fun n hn _ => hproduces n hn
    exact ⟨hsame, (hheaders hsame).2 ⟨fun _ _ => hhold, fun hfalse => by cases hfalse⟩⟩
  exact hsurvives hhistory.of_sealed (SmallProject.runOn_of_report? hidle)
    (SmallProject.runOn_of_report? hbuilt) (SmallProject.cacheLost_forget hcache) orderly orderly'
    fresh.tail.tail hhere fun _ => SmallProject.inSync_found

namespace SmallProject

theorem forgotten_facts : report? (forget oneShader) = some { compiled := 1 } ∧
    (oneShader.file? settings.cachePath).isSome = true ∧
    Orderly settings [(after (forget oneShader)).tree, forget oneShader] ∧
    (generated? settings (after oneShader).tree "b_B_PS.h").isNone = true ∧
    (generated? settings (after (forget oneShader)).tree "b_B_PS.h").isSome = true ∧
    ((after oneShader).tree.readText settings.shaderHeader).toOption = some
      ("// BeginInclude\n\t#include \"a_A_PS.h\"\n// EndInclude\n"
        ++ "// BeginShaderByteCode\n\tINIT_SHADER_BYTECODE(A);\n// EndShaderByteCode\n").toList ∧
    ((after (forget oneShader)).tree.readText settings.shaderHeader).toOption = some
      ("// BeginInclude\n\t#include \"a_A_PS.h\"\n\t#include \"b_B_PS.h\"\n// EndInclude\n"
        ++ "// BeginShaderByteCode\n\tINIT_SHADER_BYTECODE(A);\n\tINIT_SHADER_BYTECODE(B);\n"
        ++ "// EndShaderByteCode\n").toList := by
  decide +kernel

end SmallProject

/-- A source was removed since the build, and then the cache is lost. Both builds end well, but only
the one that has the cache deletes the output of that source, and the other keeps it in the shader
header. -/
theorem lost_cache_leaves_output :
    History plain SmallProject.settings (sealedEdits SmallProject.settings) SmallProject.removal ∧
    Orderly SmallProject.settings (trees SmallProject.removal) ∧
    Fresh SmallProject.settings (trees SmallProject.removal) ∧
    Orderly SmallProject.settings
      [(SmallProject.after (SmallProject.forget SmallProject.oneShader)).tree,
        SmallProject.forget SmallProject.oneShader] ∧
    TargetsElsewhere SmallProject.settings SmallProject.oneShader.here ∧
    CacheLost SmallProject.settings SmallProject.oneShader
      (SmallProject.forget SmallProject.oneShader) ∧
    (build plain SmallProject.settings).runOn
        { tree := SmallProject.forget SmallProject.oneShader } =
      (.ok { compiled := 1 }, SmallProject.after (SmallProject.forget SmallProject.oneShader)) ∧
    ¬ Generated SmallProject.settings (SmallProject.after SmallProject.oneShader).tree
      "b_B_PS.h" ∧
    Generated SmallProject.settings
      (SmallProject.after (SmallProject.forget SmallProject.oneShader)).tree "b_B_PS.h" ∧
    ((SmallProject.after SmallProject.oneShader).tree.readText
      SmallProject.settings.shaderHeader).toOption = some
      ("// BeginInclude\n\t#include \"a_A_PS.h\"\n// EndInclude\n"
        ++ "// BeginShaderByteCode\n\tINIT_SHADER_BYTECODE(A);\n// EndShaderByteCode\n").toList ∧
    ((SmallProject.after (SmallProject.forget SmallProject.oneShader)).tree.readText
      SmallProject.settings.shaderHeader).toOption = some
      ("// BeginInclude\n\t#include \"a_A_PS.h\"\n\t#include \"b_B_PS.h\"\n// EndInclude\n"
        ++ "// BeginShaderByteCode\n\tINIT_SHADER_BYTECODE(A);\n\tINIT_SHADER_BYTECODE(B);\n"
        ++ "// EndShaderByteCode\n").toList := by
  obtain ⟨-, -, -, -, orderly, fresh, hhere, -⟩ := SmallProject.removal_facts
  obtain ⟨hbuilt, hcache, orderly', hgone, hleft, htext, htext'⟩ := SmallProject.forgotten_facts
  refine ⟨SmallProject.history_removal, orderly, fresh, orderly', ?_,
    SmallProject.cacheLost_forget hcache, SmallProject.runOn_of_report? hbuilt, ?_, ?_, htext,
    htext'⟩
  · exact SmallProject.targetsElsewhere (hhere _ List.mem_cons_self)
  · rw [generated_iff_exists]
    rintro ⟨x, hx⟩
    rw [hx] at hgone
    cases hgone
  · exact generated_iff_exists.2 (Option.isSome_iff_exists.1 hleft)

end ShaderBuild
