import ShaderBuild.Proofs.Build.Memory
import ShaderBuild.Proofs.Build.Rebuilt

/-!
# The cache stays truthful

The outputs of a file that a build does not mark were fresh before, and those of a marked file are
fresh because its jobs have just written them. So a build that saves the cache leaves it truthful
(`Rebuilt.truthful_of_saved`), and one that compiles and stops before that at least does not harm
what the old cache says (`Rebuilt.truthful_of_unsaved`). Hence the cache is truthful in every
history (`truthful_of_history`).
-/

namespace ShaderBuild

open FileTree BuildCache

variable {compiler : Compiler} {gives : Directive → Path → FileTree → List UInt8 → Prop}
  {s : Settings} {t u v : FileTree} {past : List FileTree} {c : BuildCache} {fs : FileSet}
  {graph : IncludeGraph fs.size} {i : Fin fs.size} {stale : Fin fs.size → Bool} {changed : Bool}
  {σ₁ σ₂ : Session} {results : List (Option CompileFailure)}

/-! ## Builds -/

/-- The outputs that a comparison deletes are outputs of the history. -/
theorem Truthful.mem_writtenOver (truthful : Truthful s gives t past) {fs' : FileSet}
    (h : Compared s t c fs graph changed fs' σ₁ σ₂) {o : Path} (ho : c.Doomed fs o) :
    o ∈ writtenOver s (t :: past) := by
  obtain ⟨f, hf, ho⟩ := truthful.exists_of_recorded (recordedIn_of_held h.held ho.recorded)
  exact List.mem_append_right _ (List.mem_flatMap.2 ⟨f, filesOver_tail hf, ho⟩)

/-- What a build that compiles alters before it saves the cache. -/
def Unfinished (s : Settings) (trees : List FileTree) (p : Path) : Prop :=
  p ∈ s.headers ∨ ∃ f ∈ filesOver s trees, p ∈ f.outputs

namespace Rebuilt

variable (h : Rebuilt (Gives gives) s t c fs graph stale changed σ₁ σ₂ v u results)
  (truthful : Truthful s gives t past)

include h

/-- What a build saves is what the cache file holds behind it. -/
theorem heldAt_of_saved (orderly : Orderly s (t :: past)) {w : FileTree}
    (saved : Saved (.ofFiles ((marked fs graph stale).markFailed
      (failedSources (marked fs graph stale).staleJobs results))) s.cachePath w u) :
    heldAt s.cachePath u = some (.ofFiles ((marked fs graph stale).markFailed
      (failedSources (marked fs graph stale).staleJobs results))) := by
  obtain ⟨-, -, -, hapart⟩ := FileSet.scan_ok h.compared.found
  refine saved.heldAt fun entry hentry => ?_
  obtain ⟨i, hrecorded, -⟩ := SourceFile.exists_recorded hapart hentry
  rw [hrecorded.modified]
  exact orderly.timed _ (h.mem_filesOver_get i)

/-- Neither a file that is not marked nor what it includes is stale. -/
theorem current (hmarks : ¬ Marks graph stale i) :
    ∀ j, j = i ∨ j ∈ graph.closure i → ∃ v, ¬ c.LocallyStale v (fs.get j) := by
  intro j hj
  refine ⟨(c.sessionAt s fs σ₁ j).tree, fun hlocal => hmarks ?_⟩
  have hstale := (h.judged j).2 hlocal
  rcases hj with rfl | hj
  · exact .inl hstale
  · exact .inr ⟨j, hj, hstale⟩

include truthful

/-- Up to the end of its compiling, a build alters only outputs. -/
theorem altersOnly_compiled :
    AltersOnly (fun p => ∃ f ∈ filesOver s (t :: past), p ∈ f.outputs) t v := by
  refine (h.compared.loses.toAltersOnly.mono fun o ho => ?_).trans
    (h.compiled.altersOnly.mono fun o ho => ?_)
  · obtain ⟨f, hf, ho⟩ :=
      truthful.exists_of_recorded (recordedIn_of_held h.compared.held ho.recorded)
    exact ⟨f, filesOver_tail hf, ho⟩
  · obtain ⟨job, hjob, ho⟩ := ho
    obtain ⟨i, -, pm, hpm, rfl⟩ := mem_staleJobs_marked.1 hjob
    obtain rfl := Option.some.inj ho
    exact ⟨_, h.mem_filesOver_get i, List.mem_map.2 ⟨pm, hpm, rfl⟩⟩

/-- A build that does not get to save the cache alters only outputs and headers. -/
theorem altersOnly_unfinished (rest : AltersOnly (· ∈ s.headers) v u) :
    AltersOnly (Unfinished s (t :: past)) t u :=
  ((h.altersOnly_compiled truthful).mono fun _ ho => .inr ho).trans
    (rest.mono fun _ hp => .inl hp)

/-- A file that is not marked has a record of an earlier build. -/
theorem remembered (hmarks : ¬ Marks graph stale i) :
    ∃ newer t₀ older fs₀, Remembered s gives c t past newer t₀ older fs₀ := by
  rcases h.compared.held with rfl | hheld
  · obtain ⟨v, hv⟩ := h.current hmarks i (.inl rfl)
    exact absurd (.inl rfl) hv
  · exact truthful c hheld

variable (orderly : Orderly s (t :: past)) (law : compiler.Obeys gives)

include orderly law

/-- What a job of a build writes is what the compiler gives at the start of the build. -/
theorem gives_of_written {w : FileTree}
    (hw : AltersOnly (OutputOf (marked fs graph stale).staleJobs) σ₂.tree w) {pm : Permutation}
    {o : Option Path} {x : List UInt8}
    (hx : Gives gives { source := (fs.get i).path, directive := pm.directive, output := o } w x) :
    gives pm.directive (fs.get i).path t x := by
  have hsame := h.sameSources orderly (fun o => truthful.mem_writtenOver h.compared) hw i
  exact law.depends hsame hx

variable (fresh : Fresh s (t :: past))

include fresh

/-- An output of a file all of whose jobs succeeded holds what the compiler gives. -/
theorem gives_of_content
    (hgood : (fs.get i).path ∉ failedSources (marked fs graph stale).staleJobs results)
    {pm : Permutation} (hpm : pm ∈ (fs.get i).permutations) {x : List UInt8}
    (hx : u.content? pm.output = some x) : gives pm.directive (fs.get i).path t x := by
  by_cases hmarks : Marks graph stale i
  · obtain ⟨w, content, modified, hw, hgives, hread⟩ :=
      h.read_of_marks orderly hmarks hgood hpm
    have hcontent := content?_eq_some_iff.2 ⟨modified, file?_of_read hread⟩
    rw [hx, Option.some.injEq] at hcontent
    rw [hcontent]
    exact h.gives_of_written truthful orderly law hw hgives
  · obtain ⟨newer, t₀, older, fs₀, hrec⟩ := h.remembered truthful hmarks
    have hold := h.content?_of_not_marks orderly hmarks hpm hx
    exact hrec.gives_of_content orderly fresh h.compared.found law h.compared.included
      (h.current hmarks) hpm hold

omit law in
/-- The outputs of a file that is not marked are there. -/
theorem read_of_not_marks (hfolders : ∀ o ∈ (fs.get i).outputs,
      u.at? (o.locate u.here) ≠ some .folder) (hmarks : ¬ Marks graph stale i)
    {pm : Permutation} (hpm : pm ∈ (fs.get i).permutations) :
    ∃ content modified, u.read pm.output = .ok (content, modified) := by
  have ho : pm.output ∈ (fs.get i).outputs := List.mem_map.2 ⟨pm, hpm, rfl⟩
  obtain ⟨newer, t₀, older, fs₀, hrec⟩ := h.remembered truthful hmarks
  have hcurrent : ¬ c.LocallyStale (c.sessionAt s fs σ₁ i).tree (fs.get i) := by
    rw [← h.judged]
    exact fun hstale => hmarks (.inl hstale)
  obtain ⟨-, -, -, -, -, -, -, -, hhas⟩ :=
    exists_of_not_locallyStale hrec orderly h.compared.found (FileSet.get_mem i) hcurrent
  -- the comparison has seen it, so it was there before and nothing touches it behind
  have hrest : AltersOnly (fun p => c.Doomed fs p ∨
      OutputOf (marked fs graph stale).staleJobs p ∨ p ∈ s.cachePath :: s.headers) σ₁.tree u :=
    ((h.compared.deletes.toAltersOnly.mono fun _ hp => .inl hp).trans
      (h.compiled.altersOnly.mono fun _ hp => .inr (.inl hp))).trans
      (h.rest.mono fun _ hp => .inr (.inr hp))
  have hne : ∀ p, (c.Doomed fs p ∨ OutputOf (marked fs graph stale).staleJobs p ∨
      p ∈ s.cachePath :: s.headers) → p.locate σ₁.tree.here ≠ pm.output.locate σ₁.tree.here := by
    rw [h.compared.altersOnly_made.here]
    rintro p (hp | ⟨job, hjob, hp⟩ | hp)
    · exact hrec.not_doomed orderly fresh h.compared.found hcurrent ho hp t.here
    · obtain ⟨j, hj, pm', hpm', rfl⟩ := mem_staleJobs_marked.1 hjob
      obtain rfl := Option.some.inj hp
      intro heq
      have hij := (orderly.output_unique List.mem_cons_self h.compared.found
        (FileSet.get_mem j) (FileSet.get_mem i) hpm' hpm heq).1
      obtain ⟨-, -, -, hapart⟩ := FileSet.scan_ok h.compared.found
      rw [FileSet.Apart.get_injective hapart hij] at hj
      exact hmarks hj
    · exact ((orderly.outputs t List.mem_cons_self _ (h.mem_filesOver_get i) _ ho).1 p hp).symm
  have hseen := hhas _ ho
  unfold has at hseen
  cases hfind : (c.sessionAt s fs σ₁ i).tree.find pm.output with
  | error fault =>
    rw [hfind] at hseen
    cases hseen
  | ok e =>
    have hbefore := (sessionAt_deletes c s fs σ₁ i).find_before hfind
    cases e with
    | folder =>
      refine absurd ?_ (hfolders _ ho)
      obtain ⟨g, hg, hat, -⟩ := find_ok hbefore
      rw [goal_location hg] at hat
      rw [hrest.here]
      exact hrest.folders _ hat
    | file content modified =>
      exact ⟨content, modified, hrest.read hne (read_ok_iff.2 hbefore)⟩

/-- A build that saves the cache leaves it truthful. -/
theorem truthful_of_saved {w : FileTree}
    (saved : Saved (.ofFiles ((marked fs graph stale).markFailed
      (failedSources (marked fs graph stale).staleJobs results))) s.cachePath w u) :
    Truthful s gives u (t :: past) := by
  obtain ⟨-, -, -, hapart⟩ := FileSet.scan_ok h.compared.found
  intro c' hc'
  rw [h.heldAt_of_saved orderly saved, Option.some.injEq] at hc'
  refine ⟨[], t, past, fs, rfl, h.compared.found, fun entry hentry => ?_⟩
  rw [← hc'] at hentry
  obtain ⟨i, hrecorded, hgood⟩ := SourceFile.exists_recorded hapart hentry
  refine ⟨_, FileSet.get_mem i, hrecorded, fun hcompiled _ pm hpm x hx => ?_⟩
  exact h.gives_of_content truthful orderly law fresh (hgood hcompiled) hpm hx

omit fresh in
/-- A build that compiles but does not get to save the cache keeps it truthful. -/
theorem truthful_of_unsaved (rest : AltersOnly (· ∈ s.headers) v u) :
    Truthful s gives u (t :: past) := by
  refine truthful.carry (fun c' hc' => ?_) ?_
  · rwa [Truthful.held_eq orderly (h.altersOnly_unfinished truthful rest) fun _ hp => hp] at hc'
  · intro t₀ ht₀ fs₀ hfs₀ f hf hsame pm hpm x hx
    have hover : f ∈ filesOver s (t :: past) :=
      filesOver_tail (mem_filesOver.2 ⟨t₀, ht₀, fs₀, hfs₀, hf⟩)
    rcases h.written orderly hover hpm hx with hold | ⟨j, -, pm', hpm', heq, w, hw, hgives⟩
    · exact .inl hold
    · -- the file was found again, so the job is one of its own
      have hcontent := hsame f.path .refl
      have hnow := hcontent
      rw [FileSet.content?_of_found hfs₀ hf] at hnow
      obtain ⟨g, hg, hpath⟩ := FileSet.found_again
        (orderly.named t₀ (List.mem_cons_of_mem _ ht₀)) hfs₀ h.compared.found hf hnow
      have hpermutations :=
        FileSet.permutations_of_found hfs₀ hf h.compared.found hg hpath hcontent
      rw [← hpermutations] at hpm
      obtain ⟨rfl, rfl⟩ := orderly.output_unique List.mem_cons_self h.compared.found
        (FileSet.get_mem j) hg hpm' hpm heq
      refine .inr ?_
      rw [← hpath] at hsame ⊢
      refine law.depends hsame ?_
      exact h.gives_of_written truthful orderly law hw hgives

omit law in
/-- When no job failed, all outputs are there at the end. -/
theorem read_output (orderly' : Orderly s (u :: t :: past))
    (hgood : failedSources (marked fs graph stale).staleJobs results = [])
    {pm : Permutation} (hpm : pm ∈ (fs.get i).permutations) :
    ∃ content modified, u.read pm.output = .ok (content, modified) := by
  by_cases hmarks : Marks graph stale i
  · obtain ⟨-, content, modified, -, -, hread⟩ :=
      h.read_of_marks orderly hmarks (by rw [hgood]; exact List.not_mem_nil) hpm
    exact ⟨content, modified, hread⟩
  · refine h.read_of_not_marks truthful orderly fresh (fun o ho => ?_) hmarks hpm
    exact (orderly'.outputs u List.mem_cons_self _ (filesOver_tail (h.mem_filesOver_get i)) o ho).2

/-- They hold what the compiler gives. -/
theorem outputs_fresh (orderly' : Orderly s (u :: t :: past))
    (hgood : failedSources (marked fs graph stale).staleJobs results = [])
    {f : SourceFile} (hf : f ∈ fs.files) :
    u.readText f.path = .ok f.content ∧ ∀ pm ∈ f.permutations, ∃ content modified,
      gives pm.directive f.path u content ∧ u.read pm.output = .ok (content, modified) := by
  obtain ⟨k, hk, rfl⟩ := List.getElem_of_mem hf
  have hdoomed : ∀ o, c.Doomed fs o → o ∈ writtenOver s (t :: past) :=
    fun o => truthful.mem_writtenOver h.compared
  generalize hi : (⟨k, hk⟩ : Fin fs.size) = i
  rw [show fs.files[k] = fs.get i by rw [← hi]; rfl]
  refine ⟨?_, fun pm hpm => ?_⟩
  · exact readText_ok_iff.2 ⟨_, h.read_source orderly hdoomed i⟩
  · obtain ⟨content, modified, hread⟩ := h.read_output truthful orderly fresh orderly' hgood hpm
    refine ⟨content, modified, ?_, hread⟩
    refine law.depends (h.sameSources_end orderly hdoomed i).symm ?_
    refine h.gives_of_content truthful orderly law fresh (by rw [hgood]; exact List.not_mem_nil) hpm
      (content?_eq_some_iff.2 ⟨modified, file?_of_read hread⟩)

end Rebuilt

/-! ## Histories -/

/-- A build keeps the cache truthful, however it ends. -/
theorem truthful_of_build (law : compiler.Obeys gives) (truthful : Truthful s gives t past)
    (orderly : Orderly s (t :: past)) (fresh : Fresh s (t :: past)) {r : Except Error Report}
    {σ : Session} (h : (build compiler s).runOn { tree := t } = (r, σ)) :
    Truthful s gives σ.tree (t :: past) := by
  cases build_end law.writes h with
  | stopped loses => exact truthful.loses orderly loses
  | upToDate rebuilt _ _ _ same =>
    refine truthful.loses orderly ?_
    rw [same]
    exact rebuilt.compared.loses_recorded
  | unsaved rebuilt rest => exact rebuilt.truthful_of_unsaved truthful orderly law rest
  | failed rebuilt _ saved => exact rebuilt.truthful_of_saved truthful orderly law fresh saved
  | built rebuilt _ _ _ saved => exact rebuilt.truthful_of_saved truthful orderly law fresh saved

/-- What may be done to a project from outside: all but to put something in the place of the cache
or into the generated folder. -/
def sourceEdits (s : Settings) : Surroundings where
  starts t := t.at? (s.cachePath.locate t.here) = none
  edits t u := u.here = t.here ∧ ∀ l, (l = s.cachePath.locate t.here ∨
    isBelow (s.generatedFolder.locate t.here) l = true) → u.at? l = t.at? l ∨ u.at? l = none

theorem sourceEdits_put {l : Location} {entry : Entry}
    (h : l ≠ s.cachePath.locate t.here ∧ isBelow (s.generatedFolder.locate t.here) l = false) :
    (sourceEdits s).edits t (t.put l entry) := by
  refine ⟨here_put t l entry, fun m hm => ?_⟩
  have hne : m ≠ l := by
    rintro rfl
    rcases hm with hm | hm
    · exact h.1 hm
    · rw [h.2] at hm
      cases hm
  by_cases hput : t.CanPut l
  · exact .inl (by rw [at?_put hput, if_neg hne])
  · exact .inl (by rw [put_of_not hput])

theorem content?_of_kept {p : Path} (here : u.here = t.here)
    (h : u.at? (p.locate t.here) = t.at? (p.locate t.here) ∨ u.at? (p.locate t.here) = none)
    {x : List UInt8} (hx : u.content? p = some x) : t.content? p = some x := by
  obtain ⟨modified, hfile⟩ := content?_eq_some_iff.1 hx
  rw [file?_eq_some_iff, here] at hfile
  rcases h with h | h
  · rw [h] at hfile
    exact content?_eq_some_iff.2 ⟨modified, file?_eq_some_iff.2 hfile⟩
  · rw [h] at hfile
    cases hfile

/-- What is done from outside keeps the cache truthful. -/
theorem truthful_of_edit (truthful : Truthful s gives t past) (orderly : Orderly s (t :: past))
    (h : (sourceEdits s).edits t u) : Truthful s gives u (t :: past) := by
  obtain ⟨here, hkept⟩ := h
  refine truthful.carry (fun c hc => ?_) fun t₀ ht₀ fs₀ hfs₀ f hf _ pm hpm x hx => .inl ?_
  · unfold heldAt at hc ⊢
    obtain ⟨bytes, hbytes, hc⟩ := Option.bind_eq_some_iff.1 hc
    rw [content?_of_kept here (hkept _ (.inl rfl)) hbytes]
    exact hc
  · refine content?_of_kept here (hkept _ (.inr ?_)) hx
    have hproduct := orderly.isProduct
      (filesOver_tail (mem_filesOver.2 ⟨t₀, ht₀, fs₀, hfs₀, hf⟩)) (List.mem_map.2 ⟨pm, hpm, rfl⟩)
    obtain ⟨n, -, -, hlocate⟩ := hproduct.locate_eq t.here
    rw [hlocate]
    exact isBelow_iff.2 ⟨List.prefix_append _ _, by simp⟩

/-- In any history the cache is truthful. -/
theorem truthful_of_history (law : compiler.Obeys gives) {e : Event} {past : List Event}
    (h : History compiler s (sourceEdits s) (e :: past)) (orderly : Orderly s (trees (e :: past)))
    (fresh : Fresh s (trees (e :: past))) : Truthful s gives e.tree (trees past) := by
  generalize hevents : e :: past = events at h
  induction h generalizing e past with
  | start hstart =>
    cases hevents
    intro c hc
    obtain ⟨bytes, hbytes, -⟩ := Option.bind_eq_some_iff.1 hc
    obtain ⟨modified, hfile⟩ := content?_eq_some_iff.1 hbytes
    cases hstart.symm.trans (file?_eq_some_iff.1 hfile)
  | edit _ hedit ih =>
    cases hevents
    exact truthful_of_edit (ih orderly.tail fresh.tail rfl) orderly.tail hedit
  | build _ hbuild ih =>
    cases hevents
    exact truthful_of_build law (ih orderly.tail fresh.tail rfl) orderly.tail fresh.tail hbuild

end ShaderBuild
