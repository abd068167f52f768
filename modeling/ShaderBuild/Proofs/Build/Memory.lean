import ShaderBuild.Proofs.Build.Jobs
import ShaderBuild.Proofs.Build.Scanned

/-!
# What the cache of a history vouches for

A cache that a tree holds was saved by some build of the history, and its records are of the files
which that build found (`Remembered`). As long as the sources of such a file stay the same, those
outputs of a compiled file that are still there hold what the compiler gives for it (`Vouched`),
although later builds may have compiled some of them again without getting to save the cache. Each
event is to keep that up (`Truthful`): one that saves no cache does (`Truthful.carry`).

A file that is not stale by its record has kept its sources, since modification times tell
(`Remembered.sameSources`). So its outputs hold what the compiler gives now
(`Remembered.gives_of_content`), and they are not among those that are deleted
(`Remembered.not_doomed`).
-/

namespace ShaderBuild

open FileTree BuildCache

variable {compiler : Compiler} {s : Settings}
  {gives : Directive → Path → FileTree → List UInt8 → Prop}
  {c : BuildCache} {t t₀ u v : FileTree} {past newer older : List FileTree} {fs fs₀ : FileSet}
  {graph : IncludeGraph fs.size} {i : Fin fs.size}

/-! ## Records -/

/-- A record remembers a file. -/
structure SourceFile.Recorded (f : SourceFile) (entry : UInt32 × CacheRecord) : Prop where
  key : entry.1 = f.identity
  path : entry.2.path = f.path
  modified : entry.2.modified = f.modified
  outputs : entry.2.outputs = f.outputs

/-- A cache that is saved remembers the files of the build, and not as compiled those that
failed. -/
theorem SourceFile.exists_recorded {stale : Fin fs.size → Bool}
    {paths : List Path} (h : fs.Apart) {entry : UInt32 × CacheRecord}
    (hentry : entry ∈ (BuildCache.ofFiles
      ((BuildCache.marked fs graph stale).markFailed paths)).records) :
    ∃ i, (fs.get i).Recorded entry ∧ (entry.2.didCompile = true → (fs.get i).path ∉ paths) := by
  obtain ⟨key, r⟩ := entry
  obtain ⟨f, hf, rfl, rfl⟩ :=
    (BuildCache.mem_ofFiles_iff (apart_markFailed (apart_marked h) paths)).1 hentry
  obtain ⟨g, hg, rfl⟩ := List.mem_map.1 hf
  obtain ⟨i, rfl⟩ := mem_marked.1 hg
  refine ⟨i, ?_, ?_⟩
  · split <;> exact ⟨rfl, rfl, rfl, rfl⟩
  · split
    · intro hcompiled
      cases hcompiled
    · next hpath => exact fun _ => hpath

/-- A cache that is saved remembers every file of the build, one that failed as not compiled. -/
theorem SourceFile.recorded_of_mem {stale : Fin fs.size → Bool} {paths : List Path}
    (h : fs.Apart) (i : Fin fs.size) : ∃ entry ∈ (BuildCache.ofFiles
      ((BuildCache.marked fs graph stale).markFailed paths)).records,
      (fs.get i).Recorded entry ∧ ((fs.get i).path ∈ paths → entry.2.didCompile = false) := by
  have hmem := List.mem_map_of_mem (f := fun f : SourceFile =>
    if f.path ∈ paths then { f with didCompile := false } else f)
    (mem_marked.2 ⟨i, rfl⟩ : _ ∈ (BuildCache.marked fs graph stale).files)
  refine ⟨_, (BuildCache.mem_ofFiles_iff (apart_markFailed (apart_marked h) paths)).2
    ⟨_, hmem, rfl, rfl⟩, ?_⟩
  split
  · exact ⟨⟨rfl, rfl, rfl, rfl⟩, fun _ => rfl⟩
  · next hpath => exact ⟨⟨rfl, rfl, rfl, rfl⟩, fun h => absurd h hpath⟩

/-- Unless the sources of a file have changed since a tree, its outputs hold, as far as they are
there, what the compiler gives for it. -/
def Vouched (gives : Directive → Path → FileTree → List UInt8 → Prop) (t₀ t : FileTree)
    (since : List FileTree) (f : SourceFile) : Prop :=
  (∀ w ∈ since, t₀.SameSources w f.path) →
    ∀ pm ∈ f.permutations, ∀ x, t.content? pm.output = some x →
      gives pm.directive f.path t₀ x

/-- A cache was saved by a build that started from an earlier tree. -/
structure Remembered (s : Settings) (gives : Directive → Path → FileTree → List UInt8 → Prop)
    (c : BuildCache) (t : FileTree) (past newer : List FileTree) (t₀ : FileTree)
    (older : List FileTree) (fs₀ : FileSet) : Prop where
  past_eq : past = newer ++ t₀ :: older
  found : FileSet.found s t₀ = .ok fs₀
  records : ∀ entry ∈ c.records, ∃ f ∈ fs₀.files, f.Recorded entry ∧
    (entry.2.didCompile = true → Vouched gives t₀ t (t :: newer) f)

/-- The cache that a tree holds, if any, was saved by an earlier build. -/
def Truthful (s : Settings) (gives : Directive → Path → FileTree → List UInt8 → Prop)
    (t : FileTree) (past : List FileTree) : Prop :=
  ∀ c, BuildCache.heldAt s.cachePath t = some c →
    ∃ newer t₀ older fs₀, Remembered s gives c t past newer t₀ older fs₀

/-- A record that does not show a file to be stale is of that file as it is. -/
theorem exists_of_not_locallyStale (hrec : Remembered s gives c t past newer t₀ older fs₀)
    (orderly : Orderly s (t :: past)) (hfs : FileSet.found s t = .ok fs) {v : FileTree}
    {f : SourceFile} (hf : f ∈ fs.files) (hstale : ¬ c.LocallyStale v f) :
    ∃ f₀ ∈ fs₀.files, ∃ r, c.get? f.identity = some r ∧ f₀.Recorded (f.identity, r) ∧
      f₀.path = f.path ∧ f₀.modified = f.modified ∧
      Vouched gives t₀ t (t :: newer) f₀ ∧ ∀ o ∈ f.outputs, v.has o = true := by
  unfold BuildCache.LocallyStale at hstale
  rw [not_or, not_exists] at hstale
  obtain ⟨hnone, hall⟩ := hstale
  obtain ⟨r, hr⟩ := Option.ne_none_iff_exists'.1 hnone
  have hnot := hall r
  simp only [hr, true_and, not_or, not_exists, not_and, Bool.not_eq_false, ne_eq,
    not_not] at hnot
  obtain ⟨hcompiled, hmodified, -, hhas⟩ := hnot
  obtain ⟨f₀, hf₀, hrecorded, hvouched⟩ := hrec.records _ (BuildCache.get?_eq_some_iff.1 hr)
  refine ⟨f₀, hf₀, r, hr, hrecorded, ?_, ?_, hvouched hcompiled, ?_⟩
  · refine orderly.path_eq (mem_filesOver.2 ⟨t₀, ?_, fs₀, hrec.found, hf₀⟩)
      (mem_filesOver.2 ⟨t, List.mem_cons_self, fs, hfs, hf⟩) hrecorded.key.symm
    rw [hrec.past_eq]
    simp
  · rw [← hmodified]
    exact hrecorded.modified.symm
  · exact fun o ho => hhas o (List.mem_append_right _ ho)

/-! ## Events that save no cache -/

namespace Truthful

/-- What the cache remembers as an output is one. -/
theorem exists_of_recorded (h : Truthful s gives t past) {o : Path} (ho : RecordedIn s t o) :
    ∃ f ∈ filesOver s past, o ∈ f.outputs := by
  obtain ⟨c, hheld, entry, hentry, ho⟩ := ho
  obtain ⟨newer, t₀, older, fs₀, hrec⟩ := h c hheld
  obtain ⟨f, hf, hrecorded, -⟩ := hrec.records entry hentry
  rw [hrecorded.outputs] at ho
  refine ⟨f, mem_filesOver.2 ⟨t₀, ?_, fs₀, hrec.found, hf⟩, ho⟩
  rw [hrec.past_eq]
  simp

/-- An event that saves no cache keeps the cache truthful when what it writes to an output, if
anything, is what the compiler gives. -/
theorem carry (h : Truthful s gives t past)
    (hheld : ∀ c, BuildCache.heldAt s.cachePath u = some c →
      BuildCache.heldAt s.cachePath t = some c)
    (houtputs : ∀ t₀ ∈ past, ∀ fs₀, FileSet.found s t₀ = .ok fs₀ → ∀ f ∈ fs₀.files,
      t₀.SameSources t f.path → ∀ pm ∈ f.permutations, ∀ x, u.content? pm.output = some x →
        t.content? pm.output = some x ∨ gives pm.directive f.path t₀ x) :
    Truthful s gives u (t :: past) := by
  intro c hc
  obtain ⟨newer, t₀, older, fs₀, hrec⟩ := h c (hheld c hc)
  refine ⟨t :: newer, t₀, older, fs₀, by rw [hrec.past_eq]; rfl, hrec.found, ?_⟩
  intro entry hentry
  obtain ⟨f, hf, hrecorded, hvouched⟩ := hrec.records entry hentry
  refine ⟨f, hf, hrecorded, fun hcompiled hsame pm hpm x hx => ?_⟩
  have ht₀ : t₀ ∈ past := by
    rw [hrec.past_eq]
    simp
  rcases houtputs t₀ ht₀ fs₀ hrec.found f hf (hsame t (by simp)) pm hpm x hx with hold | hnew
  · exact hvouched hcompiled (fun w hw => hsame w (List.mem_cons_of_mem _ hw)) pm hpm x hold
  · exact hnew

/-- The cache is left alone by what writes to outputs and headers. -/
theorem held_eq {S : Path → Prop} (orderly : Orderly s (t :: past)) (halters : AltersOnly S t u)
    (hS : ∀ p, S p → p ∈ s.headers ∨ ∃ f ∈ filesOver s (t :: past), p ∈ f.outputs) :
    BuildCache.heldAt s.cachePath u = BuildCache.heldAt s.cachePath t := by
  refine BuildCache.heldAt_congr halters fun p hp => ?_
  rcases hS p hp with hheader | ⟨f, hf, ho⟩
  · have htargets := orderly.targets t List.mem_cons_self
    exact ((List.pairwise_cons.1 htargets).1 p hheader).symm
  · exact (orderly.outputs t List.mem_cons_self f hf p ho).1 _ List.mem_cons_self

/-- A build that does not get to compile keeps the cache truthful. -/
theorem loses (h : Truthful s gives t past) (orderly : Orderly s (t :: past))
    (hloses : Loses (RecordedIn s t) t u) : Truthful s gives u (t :: past) := by
  refine h.carry (fun c hc => ?_) ?_
  · rwa [held_eq orderly hloses.toAltersOnly] at hc
    intro p hp
    obtain ⟨f, hf, ho⟩ := h.exists_of_recorded hp
    exact .inr ⟨f, filesOver_tail hf, ho⟩
  · intro t₀ _ fs₀ _ f _ _ pm _ x hx
    obtain ⟨modified, hfile⟩ := content?_eq_some_iff.1 hx
    rw [file?_eq_some_iff, hloses.here] at hfile
    exact .inl (content?_eq_some_iff.2 ⟨modified, file?_eq_some_iff.2 (hloses.kept _ _ _ hfile)⟩)

end Truthful

/-! ## Files that are not marked -/

namespace Remembered

variable (hrec : Remembered s gives c t past newer t₀ older fs₀)
  (orderly : Orderly s (t :: past)) (fresh : Fresh s (t :: past))
  (hfs : FileSet.found s t = .ok fs)

include hrec

theorem mem_past : t₀ ∈ past := by
  rw [hrec.past_eq]
  simp

include orderly fresh hfs

/-- A file that is not stale has kept its content. -/
theorem content?_eq {f : SourceFile} (hf : f ∈ fs.files) (hcurrent : ¬ c.LocallyStale v f) :
    ∀ w ∈ t :: newer, w.content? f.path = t₀.content? f.path := by
  obtain ⟨f₀, hf₀, -, -, -, hpath, hmodified, -, -⟩ :=
    exists_of_not_locallyStale hrec orderly hfs hf hcurrent
  have hfresh := fresh f (mem_filesOver.2 ⟨t, List.mem_cons_self, fs, hfs, hf⟩)
  rw [hrec.past_eq] at hfresh
  have h₀ := FileSet.modified?_of_found hrec.found hf₀
  rw [hpath, hmodified] at h₀
  exact hfresh.content?_eq (FileSet.modified?_of_found hfs hf) h₀

/-- When neither a file nor what it includes is stale, its sources have stayed the same. -/
theorem sameSources (hgraph : fs.graph u = .ok graph)
    (hcurrent : ∀ j, j = i ∨ j ∈ graph.closure i → ∃ v, ¬ c.LocallyStale v (fs.get j)) :
    ∀ w ∈ t :: newer, t₀.SameSources w (fs.get i).path := by
  intro w hw q hq
  have hcontent : ∀ {q}, Relation.ReflTransGen t.Includes (fs.get i).path q →
      ∀ w ∈ t :: newer, w.content? q = t₀.content? q := by
    intro q hq
    obtain ⟨j, rfl, hj⟩ := orderly.exists_of_includes List.mem_cons_self hfs hgraph hq
    obtain ⟨v, hv⟩ := hcurrent j hj
    exact hrec.content?_eq orderly fresh hfs (FileSet.get_mem j) hv
  -- what the file included then it includes now, as far as the contents are known to agree
  suffices hnow : Relation.ReflTransGen t.Includes (fs.get i).path q from hcontent hnow w hw
  induction hq with
  | refl => exact .refl
  | tail _ hstep ih =>
    exact ih.tail ((includes_congr (hcontent ih t List.mem_cons_self)).2 hstep)

/-- Its permutations have stayed the same as well. -/
theorem exists_same_permutations (hcurrent : ¬ c.LocallyStale v (fs.get i)) :
    ∃ f₀ ∈ fs₀.files, f₀.path = (fs.get i).path ∧
      f₀.permutations = (fs.get i).permutations ∧ Vouched gives t₀ t (t :: newer) f₀ ∧
      ∃ r, c.get? (fs.get i).identity = some r ∧ f₀.Recorded ((fs.get i).identity, r) := by
  obtain ⟨f₀, hf₀, r, hr, hrecorded, hpath, -, hvouched, -⟩ :=
    exists_of_not_locallyStale hrec orderly hfs (FileSet.get_mem i) hcurrent
  refine ⟨f₀, hf₀, hpath, ?_, hvouched, r, hr, hrecorded⟩
  refine FileSet.permutations_of_found hfs (FileSet.get_mem i) hrec.found hf₀ hpath ?_
  exact (hrec.content?_eq orderly fresh hfs (FileSet.get_mem i) hcurrent t
    List.mem_cons_self).symm

/-- An output that is still there holds what the compiler gives now. -/
theorem gives_of_content (law : compiler.Obeys gives) (hgraph : fs.graph u = .ok graph)
    (hcurrent : ∀ j, j = i ∨ j ∈ graph.closure i → ∃ v, ¬ c.LocallyStale v (fs.get j))
    {pm : Permutation} (hpm : pm ∈ (fs.get i).permutations) {x : List UInt8}
    (hx : t.content? pm.output = some x) : gives pm.directive (fs.get i).path t x := by
  obtain ⟨v, hv⟩ := hcurrent i (.inl rfl)
  have hsame := hrec.sameSources orderly fresh hfs hgraph hcurrent
  obtain ⟨f₀, -, hpath, hpermutations, hvouched, -⟩ :=
    hrec.exists_same_permutations orderly fresh hfs hv
  refine law.depends (hsame t List.mem_cons_self).symm ?_
  rw [← hpath]
  rw [← hpath] at hsame
  rw [← hpermutations] at hpm
  exact hvouched hsame pm hpm x hx

/-- Its outputs are not deleted. -/
theorem not_doomed (hcurrent : ¬ c.LocallyStale v (fs.get i)) {o p : Path}
    (ho : o ∈ (fs.get i).outputs) (hp : c.Doomed fs p) (here : Location) :
    p.locate here ≠ o.locate here := by
  intro heq
  obtain ⟨f₀, hf₀, -, hpermutations, -, r, hr, hrecorded⟩ :=
    hrec.exists_same_permutations orderly fresh hfs hcurrent
  have ho₀ : o ∈ f₀.outputs := by
    unfold SourceFile.outputs at ho ⊢
    rwa [hpermutations]
  have horderly : Orderly s past := orderly.tail
  have hslash := horderly.slashFree_of_found hrec.mem_past hrec.found
  obtain ⟨-, -, -, hapart⟩ := FileSet.scan_ok hfs
  -- a recorded output at the same place is recorded for the same file
  have hkey : ∀ entry ∈ c.records, p ∈ entry.2.outputs →
      entry.1 = (fs.get i).identity ∧ s.IsProduct p := by
    intro entry hentry hmem
    obtain ⟨f₁, hf₁, hrecorded₁, -⟩ := hrec.records entry hentry
    rw [hrecorded₁.outputs] at hmem
    refine ⟨?_, FileSet.isProduct_of_scan hrec.found hslash hf₁ hmem⟩
    rw [hrecorded₁.key, FileSet.eq_of_locate_output hrec.found hslash hf₁ hf₀ hmem ho₀ heq]
    exact hrecorded.key.symm
  rcases hp with ⟨entry, hentry, hnone, hmem⟩ | ⟨g, hg, hmem⟩
  · rw [(hkey entry hentry hmem).1] at hnone
    exact FileSet.get?_eq_none_iff.1 hnone _ (FileSet.get_mem i) rfl
  · unfold orphansOf at hmem
    split at hmem
    · cases hmem
    · next q hq =>
      obtain ⟨hmem, hnot⟩ := List.mem_filter.1 hmem
      obtain ⟨hidentity, hproduct⟩ := hkey _ (get?_eq_some_iff.1 hq) hmem
      obtain rfl := FileSet.Apart.eq_of_identity hapart hg (FileSet.get_mem i) hidentity
      have hdiffers : p.sameAs o = false := by
        simp only [Bool.not_eq_true', List.any_eq_false] at hnot
        simpa using hnot o ho
      have ho := FileSet.isProduct_of_scan hrec.found hslash hf₀ ho₀
      exact hproduct.locate_ne ho hdiffers heq

end Remembered

end ShaderBuild
