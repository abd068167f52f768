import ShaderBuild.Proofs.Build.Truthful

/-!
# What is left over in the generated folder

A build that ends well compiles what is to be there (`Rebuilt.generated_of_produces`) and deletes
what the cache lists and nothing produces any more (`Rebuilt.not_generated_of_listed`). A generated
file that is neither produced nor listed stays (`Rebuilt.generated_of_not_listed`). So the generated
folder is tidy behind such a build exactly when the cache lists every leftover in front of it. The
cache does as long as every build that compiles gets to save it (`accounted_of_history`).

Main statement: `generated_iff_produces`.
-/

namespace ShaderBuild

open FileTree BuildCache

variable {compiler : Compiler} {gives : Directive → Path → FileTree → List UInt8 → Prop}
  {P : Job → FileTree → List UInt8 → Prop} {s : Settings} {t u v : FileTree}
  {past : List FileTree} {c : BuildCache} {fs : FileSet} {n : String}

/-! ## Generated files -/

/-- A file with the generated extension lies in the generated folder under a name. -/
def Generated (s : Settings) (t : FileTree) (n : String) : Prop :=
  s.generatedExtension.toList <:+ n.toList ∧ ∃ content modified,
    t.at? (s.generatedFolder.locate t.here ++ [n]) = some (.file content modified)

/-- A directive of a file of the set has an output with a name. -/
def FileSet.Produces (s : Settings) (fs : FileSet) (n : String) : Prop :=
  ∃ f ∈ fs.files, ∃ d ∈ f.directives, n = d.outputName f.path s.generatedExtension

instance (s : Settings) (fs : FileSet) (n : String) : Decidable (fs.Produces s n) :=
  inferInstanceAs (Decidable (∃ f ∈ fs.files, ∃ d ∈ f.directives,
    n = d.outputName f.path s.generatedExtension))

/-- The cache remembers a generated file as the output of some file. -/
def BuildCache.Lists (s : Settings) (c : BuildCache) (n : String) : Prop :=
  ∃ entry ∈ c.records, s.generatedFolder.child n ∈ entry.2.outputs

/-- Neither the cache nor a header lies where a generated file could. -/
def TargetsElsewhere (s : Settings) (here : Location) : Prop :=
  ∀ p ∈ s.cachePath :: s.headers, ∀ n, s.generatedExtension.toList <:+ n.toList →
    p.locate here ≠ s.generatedFolder.locate here ++ [n]

theorem Generated.isName (h : Generated s t n) (hnamed : t.WellNamed) : Path.IsName n := by
  obtain ⟨-, content, modified, hat⟩ := h
  exact wellNamed_iff.1 hnamed _ _ hat n (List.mem_append_right _ List.mem_cons_self)

theorem eq_of_locate_child {m : String} (hn : Path.IsName n) (hm : Path.IsName m) {p : Path}
    {here : Location} (h : (p.child n).locate here = (p.child m).locate here) : n = m := by
  rw [Path.locate_child hn, Path.locate_child hm, List.append_cancel_left_eq] at h
  exact List.singleton_inj.1 h

/-- The output of a permutation lies in the generated folder, under the name for its directive. -/
theorem output_eq (hfs : FileSet.found s t = .ok fs) {f : SourceFile} (hf : f ∈ fs.files)
    {pm : Permutation} (hpm : pm ∈ f.permutations) : pm.output =
      s.generatedFolder.child (pm.directive.outputName f.path s.generatedExtension) := by
  obtain ⟨p, hp⟩ := FileSet.readAt_of_scan hfs hf
  exact hp.output_eq hpm

theorem exists_output_of_produces (hfs : FileSet.found s t = .ok fs) (h : fs.Produces s n) :
    ∃ i, ∃ pm ∈ (fs.get i).permutations, pm.output = s.generatedFolder.child n := by
  obtain ⟨f, hf, d, hd, rfl⟩ := h
  obtain ⟨pm, hpm, rfl⟩ := List.mem_map.1 hd
  obtain ⟨k, hk, rfl⟩ := List.getElem_of_mem hf
  exact ⟨⟨k, hk⟩, pm, hpm, output_eq hfs hf hpm⟩

theorem isName_of_produces (orderly : Orderly s past) (ht : t ∈ past)
    (hfs : FileSet.found s t = .ok fs) (h : fs.Produces s n) : Path.IsName n := by
  obtain ⟨f, hf, d, hd, rfl⟩ := h
  obtain ⟨p, hp⟩ := FileSet.readAt_of_scan hfs hf
  have hslash := orderly.slashFree_of_found ht hfs
  exact hp.isName_outputName hslash.1 (hslash.2 f hf d hd)

/-- A file of the set whose output lies where a name does produces that name. -/
theorem produces_of_locate (orderly : Orderly s past) (ht : t ∈ past)
    (hfs : FileSet.found s t = .ok fs) (hn : Path.IsName n) {f : SourceFile} (hf : f ∈ fs.files)
    {pm : Permutation} (hpm : pm ∈ f.permutations) {here : Location}
    (h : pm.output.locate here = (s.generatedFolder.child n).locate here) : fs.Produces s n := by
  have hd : pm.directive ∈ f.directives := List.mem_map.2 ⟨pm, hpm, rfl⟩
  have hproduces : fs.Produces s (pm.directive.outputName f.path s.generatedExtension) :=
    ⟨f, hf, pm.directive, hd, rfl⟩
  rw [output_eq hfs hf hpm] at h
  rw [← eq_of_locate_child (isName_of_produces orderly ht hfs hproduces) hn h]
  exact hproduces

/-- A generated file is one at the location of its path. -/
theorem generated_iff (hn : Path.IsName n) : Generated s t n ↔
    s.generatedExtension.toList <:+ n.toList ∧
      ∃ file, t.file? (s.generatedFolder.child n) = some file := by
  refine and_congr_right fun _ => ?_
  constructor
  · rintro ⟨content, modified, hat⟩
    refine ⟨(content, modified), file?_eq_some_iff.2 ?_⟩
    rwa [Path.locate_child hn]
  · rintro ⟨⟨content, modified⟩, hfile⟩
    rw [file?_eq_some_iff, Path.locate_child hn] at hfile
    exact ⟨content, modified, hfile⟩

theorem extension_of_produces (h : fs.Produces s n) :
    s.generatedExtension.toList <:+ n.toList := by
  obtain ⟨f, -, d, -, rfl⟩ := h
  unfold Directive.outputName
  rw [String.toList_append]
  exact List.suffix_append _ _

/-! ## What a build leaves in the generated folder -/

namespace Rebuilt

variable {graph : IncludeGraph fs.size} {stale : Fin fs.size → Bool} {changed : Bool}
  {σ₁ σ₂ : Session} {results : List (Option CompileFailure)}
  (h : Rebuilt (Gives gives) s t c fs graph stale changed σ₁ σ₂ v u results)
  (orderly : Orderly s (t :: past)) (elsewhere : TargetsElsewhere s t.here)

include h orderly elsewhere

/-- A generated file was left by the comparison or is produced. -/
theorem generated_cases (hu : Generated s u n) :
    Generated s σ₂.tree n ∧ Generated s t n ∨ fs.Produces s n := by
  have hhere : v.here = t.here := h.compiled.altersOnly.here.trans h.here_eq
  obtain ⟨hextension, content, modified, hat⟩ := hu
  rw [h.rest.here, hhere] at hat
  have hv := (h.rest.files _ (fun p hp => by
    rw [hhere]
    exact elsewhere p hp n hextension) content modified).1 hat
  rcases h.compiled.written _ _ _ hv with hold | ⟨job, hjob, o, ho, hlocate, -⟩
  · have ht := h.compared.loses.kept _ _ _ hold
    refine .inl ⟨⟨hextension, content, modified, ?_⟩, hextension, content, modified, ht⟩
    rwa [h.here_eq]
  · obtain ⟨i, -, pm, hpm, rfl⟩ := mem_staleJobs_marked.1 hjob
    obtain rfl := Option.some.inj ho
    rw [h.here_eq, output_eq h.compared.found (FileSet.get_mem i) hpm] at hlocate
    have hproduces : fs.Produces s
        (pm.directive.outputName (fs.get i).path s.generatedExtension) :=
      ⟨_, FileSet.get_mem i, _, List.mem_map.2 ⟨pm, hpm, rfl⟩, rfl⟩
    have hname := isName_of_produces orderly List.mem_cons_self h.compared.found hproduces
    rw [Path.locate_child hname, List.append_cancel_left_eq] at hlocate
    rw [← List.singleton_inj.1 hlocate]
    exact .inr hproduces

/-- Where a generated file could be that is neither produced nor listed, no file is altered. -/
theorem at?_of_not_listed (truthful : Truthful s gives t past) (hn : Path.IsName n)
    (hextension : s.generatedExtension.toList <:+ n.toList) (hlisted : ¬ c.Lists s n)
    (hproduces : ¬ fs.Produces s n) (content : List UInt8) (modified : Timestamp) :
    u.at? (s.generatedFolder.locate u.here ++ [n]) = some (.file content modified) ↔
      t.at? (s.generatedFolder.locate t.here ++ [n]) = some (.file content modified) := by
  have hall : AltersOnly (fun p => c.Doomed fs p ∨
      OutputOf (marked fs graph stale).staleJobs p ∨ p ∈ s.cachePath :: s.headers) t u :=
    ((h.compared.loses.toAltersOnly.mono fun _ hp => .inl hp).trans
      (h.compiled.altersOnly.mono fun _ hp => .inr (.inl hp))).trans
      (h.rest.mono fun _ hp => .inr (.inr hp))
  rw [hall.here]
  refine hall.files _ ?_ content modified
  rintro p (hp | ⟨job, hjob, hp⟩ | hp) heq
  · obtain ⟨f, hf, ho⟩ :=
      truthful.exists_of_recorded (recordedIn_of_held h.compared.held hp.recorded)
    obtain ⟨m, hm, rfl, hlocate⟩ := (orderly.isProduct (filesOver_tail hf) ho).locate_eq t.here
    rw [hlocate, List.append_cancel_left_eq] at heq
    rw [List.singleton_inj.1 heq] at hp
    exact hlisted hp.recorded
  · obtain ⟨i, -, pm, hpm, rfl⟩ := mem_staleJobs_marked.1 hjob
    obtain rfl := Option.some.inj hp
    rw [← Path.locate_child hn] at heq
    exact hproduces (produces_of_locate orderly List.mem_cons_self h.compared.found hn
      (FileSet.get_mem i) hpm heq)
  · exact elsewhere p hp n hextension heq

/-- A generated file that is neither produced nor listed stays. -/
theorem generated_of_not_listed (truthful : Truthful s gives t past) (ht : Generated s t n)
    (hlisted : ¬ c.Lists s n) (hproduces : ¬ fs.Produces s n) : Generated s u n := by
  have hn := ht.isName (orderly.named t List.mem_cons_self)
  obtain ⟨hextension, content, modified, hat⟩ := ht
  exact ⟨hextension, content, modified, (h.at?_of_not_listed orderly elsewhere truthful hn
    hextension hlisted hproduces content modified).2 hat⟩

/-- A generated file that is listed but not produced is deleted. -/
theorem not_generated_of_listed (hlisted : c.Lists s n) (hproduces : ¬ fs.Produces s n) :
    ¬ Generated s u n := by
  intro hu
  obtain ⟨hleft, ht⟩ := (h.generated_cases orderly elsewhere hu).resolve_right hproduces
  have hn := ht.isName (orderly.named t List.mem_cons_self)
  have hdoomed : c.Doomed fs (s.generatedFolder.child n) := by
    obtain ⟨⟨key, r⟩, hentry, ho⟩ := hlisted
    cases hkey : fs.get? key with
    | none => exact .inl ⟨_, hentry, hkey, ho⟩
    | some g =>
      obtain ⟨hg, hidentity⟩ := FileSet.get?_eq_some hkey
      refine .inr ⟨g, hg, ?_⟩
      unfold orphansOf
      rw [hidentity, get?_eq_some_iff.2 hentry]
      refine List.mem_filter.2 ⟨ho, ?_⟩
      rw [Bool.not_eq_true', List.any_eq_false]
      intro o hmem hsame
      obtain ⟨pm, hpm, rfl⟩ := List.mem_map.1 hmem
      have hlocate : pm.output.locate t.here = (s.generatedFolder.child n).locate t.here :=
        (Path.locate_eq_of_sameAs hsame).symm
      exact hproduces (produces_of_locate orderly List.mem_cons_self h.compared.found hn hg hpm
        hlocate)
  obtain ⟨hextension, file, hfile⟩ := (generated_iff hn).1 hleft
  have hfirst : t.makeFolders s.generatedFolder = (.ok (), σ₁.tree) := h.compared.made
  have hgoal : σ₁.tree.goal (s.generatedFolder.child n)
      = .ok ⟨(s.generatedFolder.child n).locate σ₁.tree.here, .name⟩ := by
    have hat := h.compared.deletes.old _ _ (file?_eq_some_iff.1 hfile)
    rw [h.compared.deletes.here, Path.locate_child hn] at hat
    have hmade := goal_child_of_made (t := t) (p := s.generatedFolder) (n := n)
      (by rw [hfirst]) hn (e := .file file.1 file.2) (by rw [hfirst]; exact hat)
    rw [hfirst] at hmade
    exact hmade
  rw [diff_deleted h.compared.diff hdoomed hgoal] at hfile
  cases hfile

omit elsewhere in
/-- When no job failed, everything that is produced is there. -/
theorem generated_of_produces (truthful : Truthful s gives t past) (fresh : Fresh s (t :: past))
    (orderly' : Orderly s (u :: t :: past))
    (hgood : failedSources (marked fs graph stale).staleJobs results = [])
    (hproduces : fs.Produces s n) : Generated s u n := by
  have hn := isName_of_produces orderly List.mem_cons_self h.compared.found hproduces
  refine (generated_iff hn).2 ⟨extension_of_produces hproduces, ?_⟩
  obtain ⟨i, pm, hpm, houtput⟩ := exists_output_of_produces h.compared.found hproduces
  obtain ⟨content, modified, hread⟩ := h.read_output truthful orderly fresh orderly' hgood hpm
  rw [houtput] at hread
  exact ⟨_, file?_of_read hread⟩

/-- Behind a build that ends well the generated files are those that are produced, exactly when
those in front of it are produced or listed. -/
theorem generated_iff_produces_iff (truthful : Truthful s gives t past)
    (fresh : Fresh s (t :: past)) (orderly' : Orderly s (u :: t :: past))
    (hgood : failedSources (marked fs graph stale).staleJobs results = []) :
    (∀ n, Generated s u n ↔ fs.Produces s n) ↔
      ∀ n, Generated s t n → fs.Produces s n ∨ c.Lists s n := by
  constructor
  · intro hall n ht
    by_cases hlisted : c.Lists s n
    · exact .inr hlisted
    · by_cases hproduces : fs.Produces s n
      · exact .inl hproduces
      · exact .inl ((hall n).1
          (h.generated_of_not_listed orderly elsewhere truthful ht hlisted hproduces))
  · intro hlisted n
    refine ⟨fun hu => ?_, h.generated_of_produces orderly truthful fresh orderly' hgood⟩
    rcases h.generated_cases orderly elsewhere hu with ⟨-, ht⟩ | hproduces
    · rcases hlisted n ht with hproduces | hlisted
      · exact hproduces
      · by_contra hproduces
        exact h.not_generated_of_listed orderly elsewhere hlisted hproduces hu
    · exact hproduces

end Rebuilt

/-! ## Histories -/

/-- What may be done to a project from outside: nothing to the cache and the generated folder, and
in the beginning there is neither a cache nor a generated file. -/
def sealedEdits (s : Settings) : Surroundings where
  starts t := ∀ l, (l = s.cachePath.locate t.here ∨
    isBelow (s.generatedFolder.locate t.here) l = true) → t.at? l = none
  edits t u := u.here = t.here ∧ ∀ l, (l = s.cachePath.locate t.here ∨
    isBelow (s.generatedFolder.locate t.here) l = true) → u.at? l = t.at? l

theorem History.of_sealed {events : List Event} (h : History compiler s (sealedEdits s) events) :
    History compiler s (sourceEdits s) events := by
  refine h.mono ?_ ?_
  · intro t ht
    exact ht _ (.inl rfl)
  · rintro t u ⟨here, hkept⟩
    exact ⟨here, fun l hl => .inl (hkept l hl)⟩

theorem sealedEdits_starts (h : ∀ entry ∈ t.entries, entry.1 ≠ s.cachePath.locate t.here ∧
    isBelow (s.generatedFolder.locate t.here) entry.1 = false) : (sealedEdits s).starts t := by
  intro l hl
  by_contra hsome
  obtain ⟨e, he⟩ := Option.ne_none_iff_exists'.1 hsome
  obtain ⟨hne, hbelow⟩ := h _ (at?_eq_some_iff.1 he)
  rcases hl with hl | hl
  · exact hne hl
  · rw [hbelow] at hl
    cases hl

theorem sealedEdits_put {l : Location} {entry : Entry}
    (h : l ≠ s.cachePath.locate t.here ∧ isBelow (s.generatedFolder.locate t.here) l = false) :
    (sealedEdits s).edits t (t.put l entry) := by
  refine ⟨here_put t l entry, fun m hm => ?_⟩
  have hne : m ≠ l := by
    rintro rfl
    rcases hm with hm | hm
    · exact h.1 hm
    · rw [h.2] at hm
      cases hm
  by_cases hput : t.CanPut l
  · rw [at?_put hput, if_neg hne]
  · rw [put_of_not hput]

theorem sealedEdits_prune {l : Location} (h : l.isPrefixOf (s.cachePath.locate t.here) = false ∧
    l.isPrefixOf (s.generatedFolder.locate t.here) = false ∧
    (s.generatedFolder.locate t.here).isPrefixOf l = false) :
    (sealedEdits s).edits t (t.prune l) := by
  refine ⟨rfl, fun m hm => ?_⟩
  by_cases hroot : m = []
  · rw [hroot, at?_root, at?_root]
  rw [at?_prune t l hroot, if_neg]
  intro hl
  rcases hm with rfl | hm
  · rw [h.1] at hl
    cases hl
  · have hprefix := List.isPrefixOf_iff_prefix.1 hl
    rcases List.prefix_or_prefix_of_prefix hprefix (isBelow_iff.1 hm).1 with hle | hle
    · rw [← List.isPrefixOf_iff_prefix, h.2.1] at hle
      cases hle
    · rw [← List.isPrefixOf_iff_prefix, h.2.2] at hle
      cases hle

/-- The cache file lists every generated file. -/
def Accounted (s : Settings) (t : FileTree) : Prop :=
  ∀ n, Generated s t n → ∃ c, heldAt s.cachePath t = some c ∧ c.Lists s n

/-- Wherever there is a cache file, its path leads to it. -/
def CacheReachable (s : Settings) (trees : List FileTree) : Prop :=
  ∀ t ∈ trees, (t.file? s.cachePath).isSome = true → ∃ file, t.read s.cachePath = .ok file

instance (s : Settings) (trees : List FileTree) : Decidable (CacheReachable s trees) :=
  decidable_of_iff (∀ t ∈ trees, (t.file? s.cachePath).isSome = true →
      (t.read s.cachePath).isOk = true) <| forall₂_congr fun t _ => imp_congr_right fun _ => by
    cases t.read s.cachePath <;> simp [Except.isOk, Except.toBool]

/-- The cache that a build loads is the one in the cache file. -/
theorem Compared.eq_of_heldAt {graph : IncludeGraph fs.size} {changed : Bool} {fs' : FileSet}
    {σ₁ σ₂ : Session} (h : Compared s t c fs graph changed fs' σ₁ σ₂)
    (reachable : (t.file? s.cachePath).isSome = true → ∃ file, t.read s.cachePath = .ok file)
    {c' : BuildCache} (hheld : heldAt s.cachePath t = some c') : c = c' := by
  have hfile : (t.file? s.cachePath).isSome = true := by
    obtain ⟨bytes, hbytes, -⟩ := Option.bind_eq_some_iff.1 hheld
    obtain ⟨modified, hfile⟩ := content?_eq_some_iff.1 hbytes
    rw [hfile]
    rfl
  obtain ⟨⟨bytes, modified⟩, hread⟩ := reachable hfile
  have hload := load_of_heldAt (h.altersOnly_made.read (fun _ hq => hq.elim) hread)
    (by rw [heldAt_congr h.altersOnly_made fun _ hq => hq.elim]; exact hheld)
  rw [h.loaded] at hload
  exact Except.ok.inj hload

theorem held_of_loses (truthful : Truthful s gives t past) (orderly : Orderly s (t :: past))
    (hloses : Loses (RecordedIn s t) t u) :
    heldAt s.cachePath u = heldAt s.cachePath t := by
  refine Truthful.held_eq orderly hloses.toAltersOnly fun p hp => .inr ?_
  obtain ⟨f, hf, ho⟩ := truthful.exists_of_recorded hp
  exact ⟨f, filesOver_tail hf, ho⟩

theorem held_of_edit (hedit : (sealedEdits s).edits t u) :
    heldAt s.cachePath u = heldAt s.cachePath t := by
  obtain ⟨here, hkept⟩ := hedit
  unfold heldAt content? file?
  rw [here, hkept _ (.inl rfl)]

namespace Accounted

/-- What changes neither the cache nor adds generated files keeps these accounted for. -/
theorem congr (h : Accounted s t) (hheld : heldAt s.cachePath u = heldAt s.cachePath t)
    (hgenerated : ∀ n, Generated s u n → Generated s t n) : Accounted s u := by
  intro n hn
  rw [hheld]
  exact h n (hgenerated n hn)

theorem of_loses (h : Accounted s t) (truthful : Truthful s gives t past)
    (orderly : Orderly s (t :: past)) (hloses : Loses (RecordedIn s t) t u) : Accounted s u := by
  refine h.congr (held_of_loses truthful orderly hloses) fun n hn => ?_
  obtain ⟨hextension, content, modified, hat⟩ := hn
  rw [hloses.here] at hat
  exact ⟨hextension, content, modified, hloses.kept _ _ _ hat⟩

/-- A build that saves the cache has accounted for all generated files. -/
theorem of_saved (h : Accounted s t) {graph : IncludeGraph fs.size} {stale : Fin fs.size → Bool}
    {changed : Bool} {σ₁ σ₂ : Session} {results : List (Option CompileFailure)} {w : FileTree}
    (rebuilt : Rebuilt (Gives gives) s t c fs graph stale changed σ₁ σ₂ v u results)
    (orderly : Orderly s (t :: past)) (elsewhere : TargetsElsewhere s t.here)
    (reachable : (t.file? s.cachePath).isSome = true → ∃ file, t.read s.cachePath = .ok file)
    (saved : Saved (.ofFiles ((marked fs graph stale).markFailed
      (failedSources (marked fs graph stale).staleJobs results))) s.cachePath w u) :
    Accounted s u := by
  obtain ⟨-, -, -, hapart⟩ := FileSet.scan_ok rebuilt.compared.found
  intro n hu
  refine ⟨_, rebuilt.heldAt_of_saved orderly saved, ?_⟩
  have hproduces : fs.Produces s n := by
    by_contra hproduces
    obtain ⟨-, ht⟩ :=
      (rebuilt.generated_cases orderly elsewhere hu).resolve_right hproduces
    obtain ⟨c', hheld, hlisted⟩ := h n ht
    rw [← rebuilt.compared.eq_of_heldAt reachable hheld] at hlisted
    exact rebuilt.not_generated_of_listed orderly elsewhere hlisted hproduces hu
  obtain ⟨i, pm, hpm, houtput⟩ := exists_output_of_produces rebuilt.compared.found hproduces
  obtain ⟨entry, hentry, hrecorded, -⟩ := SourceFile.recorded_of_mem hapart i
  refine ⟨entry, hentry, ?_⟩
  rw [hrecorded.outputs, ← houtput]
  exact List.mem_map.2 ⟨pm, hpm, rfl⟩

/-- What is done from outside keeps generated files accounted for. -/
theorem of_edit (h : Accounted s t) (hedit : (sealedEdits s).edits t u) : Accounted s u := by
  refine h.congr (held_of_edit hedit) fun n hn => ?_
  obtain ⟨here, hkept⟩ := hedit
  obtain ⟨hextension, content, modified, hat⟩ := hn
  rw [here, hkept _ (.inr (isBelow_iff.2 ⟨List.prefix_append _ _, by simp⟩))] at hat
  exact ⟨hextension, content, modified, hat⟩

/-- As long as every build that compiles gets to save the cache, the cache lists all generated
files. -/
theorem of_history (law : compiler.Obeys gives) {e : Event} {past : List Event}
    (h : History compiler s (sealedEdits s) (e :: past)) (orderly : Orderly s (trees (e :: past)))
    (fresh : Fresh s (trees (e :: past)))
    (elsewhere : ∀ t ∈ trees (e :: past), TargetsElsewhere s t.here)
    (reachable : CacheReachable s (trees (e :: past)))
    (saved : ∀ event ∈ e :: past, ¬ event.Unsaved) : Accounted s e.tree := by
  generalize hevents : e :: past = events at h
  induction h generalizing e past with
  | start hstart =>
    cases hevents
    rintro n ⟨-, content, modified, hat⟩
    cases (hstart _ (.inr (isBelow_iff.2 ⟨List.prefix_append _ _, by simp⟩))).symm.trans hat
  | edit _ hedit ih =>
    cases hevents
    refine (ih orderly.tail fresh.tail ?_ ?_ ?_ rfl).of_edit hedit
    · exact fun t ht => elsewhere t (List.mem_cons_of_mem _ ht)
    · exact fun t ht => reachable t (List.mem_cons_of_mem _ ht)
    · exact fun event hevent => saved event (List.mem_cons_of_mem _ hevent)
  | @build e past r σ before hbuild ih =>
    cases hevents
    have accounted := ih orderly.tail fresh.tail
      (fun t ht => elsewhere t (List.mem_cons_of_mem _ ht))
      (fun t ht => reachable t (List.mem_cons_of_mem _ ht))
      (fun event hevent => saved event (List.mem_cons_of_mem _ hevent)) rfl
    have truthful := truthful_of_history law before.of_sealed orderly.tail fresh.tail
    have helsewhere := elsewhere e.tree (List.mem_cons_of_mem _ List.mem_cons_self)
    have hreachable := reachable e.tree (List.mem_cons_of_mem _ List.mem_cons_self)
    cases build_end law.writes hbuild with
    | stopped loses => exact accounted.of_loses truthful orderly.tail loses
    | upToDate rebuilt _ _ _ same =>
      refine accounted.of_loses truthful orderly.tail ?_
      show Loses _ _ σ.tree
      rw [same]
      exact rebuilt.compared.loses_recorded
    | unsaved _ _ told other =>
      exact absurd ⟨told, _, rfl, other⟩ (saved _ List.mem_cons_self)
    | failed rebuilt _ hsaved =>
      exact accounted.of_saved rebuilt orderly.tail helsewhere hreachable hsaved
    | built rebuilt _ _ _ hsaved =>
      exact accounted.of_saved rebuilt orderly.tail helsewhere hreachable hsaved

end Accounted

/-! ## A small project -/

theorem SmallProject.targetsElsewhere {here : Location} (h : here = []) :
    TargetsElsewhere SmallProject.settings here := by
  subst h
  intro p hp n _ heq
  have hlengths : ∀ p ∈ settings.cachePath :: settings.headers,
      (p.locate ([] : Location)).length = 1 := by decide
  have hfolder : settings.generatedFolder.locate ([] : Location) = ["g"] := by decide
  have hlength := hlengths p hp
  rw [heq, hfolder] at hlength
  cases hlength

end ShaderBuild
