import ShaderBuild.Proofs.Build.Leftovers
import ShaderBuild.Proofs.Target.Region

/-!
# What stands since a build

Events that do not save the cache leave it as the last build has saved it, and a build that saves it
because permutations failed leaves a record that is not compiled (`HasFailed`). So since a build
that ended well with something to do, either what single events keep still holds or there is such a
record (`since_build`). The cache is such a thing (`held_since_build`). As long as every build that
compiles gets to save the cache, so are the generated files (`standing_since_build`) and the regions
of the headers (`regions_stand_since_build`).
-/

namespace ShaderBuild

open FileTree BuildCache Target

variable {compiler : Compiler} {gives : Directive → Path → FileTree → List UInt8 → Prop}
  {s : Settings} {t t₀ u v : FileTree} {past : List FileTree} {c : BuildCache} {fs : FileSet}
  {graph : IncludeGraph fs.size} {stale : Fin fs.size → Bool}
  {results : List (Option CompileFailure)}

/-- A build that compiled, generated the headers and saved the cache. -/
def Event.Complete : Event → Prop
  | edited _ => False
  | built r _ => ∃ report, r = .ok report ∧ report.upToDate = false

/-! ## Failures in the cache -/

/-- The cache file remembers a file that was not compiled. -/
def HasFailed (s : Settings) (t : FileTree) : Prop :=
  ∃ c, heldAt s.cachePath t = some c ∧ ∃ entry ∈ c.records, entry.2.didCompile = false

/-- When a permutation failed, the cache that is saved remembers its file as not compiled. -/
theorem exists_record_of_failed (hapart : fs.Apart)
    (hlength : results.length = (marked fs graph stale).staleJobs.length)
    (hfailed : results.filterMap id ≠ []) :
    ∃ entry ∈ (BuildCache.ofFiles ((marked fs graph stale).markFailed
      (failedSources (marked fs graph stale).staleJobs results))).records,
      entry.2.didCompile = false := by
  obtain ⟨job, failure, hmem⟩ := exists_failed_job hlength hfailed
  obtain ⟨i, -, pm, -, rfl⟩ := mem_staleJobs_marked.1 (List.of_mem_zip hmem).1
  have hpath : (fs.get i).path ∈ failedSources (marked fs graph stale).staleJobs results :=
    List.mem_map.2 ⟨_, List.mem_filter.2 ⟨hmem, rfl⟩, rfl⟩
  obtain ⟨entry, hentry, -, hnot⟩ := SourceFile.recorded_of_mem hapart i
  exact ⟨entry, hentry, hnot hpath⟩

/-- A build that finds everything up to date finds no such record. -/
theorem Rebuilt.not_hasFailed {P : Job → FileTree → List UInt8 → Prop} {σ₁ σ₂ : Session}
    (h : Rebuilt P s t c fs graph stale false σ₁ σ₂ v u results)
    (known : ∀ entry ∈ c.records, fs.get? entry.1 ≠ none) (current : ∀ i, ¬ Marks graph stale i)
    (reachable : (t.file? s.cachePath).isSome = true → ∃ file, t.read s.cachePath = .ok file) :
    ¬ HasFailed s t := by
  rintro ⟨c', hheld, ⟨key, r⟩, hentry, hfailed⟩
  obtain rfl := h.compared.eq_of_heldAt reachable hheld
  obtain ⟨f, hf⟩ := Option.ne_none_iff_exists'.1 (known _ hentry)
  obtain ⟨hmem, rfl⟩ := FileSet.get?_eq_some hf
  obtain ⟨i, hi, rfl⟩ := List.getElem_of_mem hmem
  refine current ⟨i, hi⟩ (.inl ((h.judged ⟨i, hi⟩).2 (.inr ⟨r, ?_, .inl hfailed⟩)))
  exact get?_eq_some_iff.2 hentry

/-! ## Since a build -/

theorem HasFailed.congr (h : HasFailed s t)
    (hheld : heldAt s.cachePath u = heldAt s.cachePath t) : HasFailed s u := by
  obtain ⟨c, hc, hfailed⟩ := h
  exact ⟨c, hheld.trans hc, hfailed⟩

/-- What holds behind a build holds until the next one that ends well with something to do, as long
as single events keep it, or else the cache remembers a failure. -/
theorem since_build (law : compiler.Obeys gives) (Inv : FileTree → Prop) {e₀ : Event}
    {newer older : List Event} (h : History compiler s (sealedEdits s) (newer ++ e₀ :: older))
    (orderly : Orderly s (trees (newer ++ e₀ :: older)))
    (fresh : Fresh s (trees (newer ++ e₀ :: older))) (last : ∀ event ∈ newer, ¬ event.Complete)
    (base : Inv e₀.tree)
    (edit : ∀ t u, .edited u ∈ newer → (sealedEdits s).edits t u → Inv t → Inv u)
    (loses : ∀ t u past, Truthful s gives t past → Orderly s (t :: past) →
      Loses (RecordedIn s t) t u → Inv t → Inv u)
    (unsaved : ∀ t past r σ, .built r σ ∈ newer → (Event.built r σ).Unsaved →
      Orderly s (t :: past) → AltersOnly (Unfinished s (t :: past)) t σ.tree → Inv t → Inv σ.tree)
    {e : Event} {past : List Event} (heq : newer ++ e₀ :: older = e :: past) :
    Inv e.tree ∨ HasFailed s e.tree := by
  induction newer generalizing e past with
  | nil =>
    cases heq
    exact .inl base
  | cons x newer ih =>
    obtain ⟨e₁, past₁, hrest⟩ : ∃ e₁ past₁, newer ++ e₀ :: older = e₁ :: past₁ := by
      cases newer with
      | nil => exact ⟨_, _, rfl⟩
      | cons y newer => exact ⟨_, _, rfl⟩
    rw [List.cons_append, hrest] at h orderly fresh heq
    cases heq
    rw [hrest] at ih
    have hlast := fun event hevent => last event (List.mem_cons_of_mem _ hevent)
    have hedits := fun t u hu => edit t u (List.mem_cons_of_mem _ hu)
    have hunsaved := fun t past r σ hr => unsaved t past r σ (List.mem_cons_of_mem _ hr)
    cases h with
    | edit before hedit =>
      rcases ih before orderly.tail fresh.tail hlast hedits hunsaved rfl with hinv | hfailed
      · exact .inl (edit _ _ List.mem_cons_self hedit hinv)
      · exact .inr (hfailed.congr (held_of_edit hedit))
    | @build _ _ r σ before hbuild =>
      have truthful := truthful_of_history law before.of_sealed orderly.tail fresh.tail
      have hbefore := ih before orderly.tail fresh.tail hlast hedits hunsaved rfl
      have hloses : Loses (RecordedIn s e₁.tree) e₁.tree σ.tree →
          Inv σ.tree ∨ HasFailed s σ.tree := fun hloses =>
        hbefore.imp (loses _ _ _ truthful orderly.tail hloses)
          fun hfailed => hfailed.congr (held_of_loses truthful orderly.tail hloses)
      cases build_end law.writes hbuild with
      | stopped stopped => exact hloses stopped
      | upToDate rebuilt _ _ _ same =>
        refine hloses ?_
        rw [same]
        exact rebuilt.compared.loses_recorded
      | unsaved rebuilt hrest told other =>
        have halters := rebuilt.altersOnly_unfinished truthful hrest
        refine hbefore.imp ?_ fun hfailed => hfailed.congr ?_
        · exact unsaved _ _ _ _ List.mem_cons_self ⟨told, _, rfl, other⟩ orderly.tail halters
        · exact Truthful.held_eq orderly.tail halters fun _ hp => hp
      | failed rebuilt some hsaved _ =>
        obtain ⟨-, -, -, hapart⟩ := FileSet.scan_ok rebuilt.compared.found
        exact .inr ⟨_, rebuilt.heldAt_of_saved orderly.tail hsaved,
          exists_record_of_failed hapart rebuilt.compiled.length some⟩
      | built => exact absurd ⟨_, rfl, rfl⟩ (last _ List.mem_cons_self)

/-! ## What stands -/

theorem generated_iff_exists {n : String} :
    Generated s t n ↔ ∃ content, generated? s t n = some content := by
  simp only [generated?_eq_some_iff, List.isSuffixOf_iff_suffix, exists_and_left]
  rfl

/-- Since a tree the cache stands, and no generated file is new or has changed. Some that the cache
lists may be gone. -/
structure Standing (s : Settings) (c : BuildCache) (t₀ t : FileTree) : Prop where
  here : t.here = t₀.here
  held : heldAt s.cachePath t = some c
  old : ∀ n content, generated? s t n = some content → generated? s t₀ n = some content
  kept : ∀ n content, generated? s t₀ n = some content →
    c.Lists s n ∨ generated? s t n = some content

namespace Standing

theorem refl (hheld : heldAt s.cachePath t = some c) : Standing s c t t where
  here := rfl
  held := hheld
  old _ _ h := h
  kept _ _ h := .inr h

/-- Losing recorded outputs leaves the rest standing. -/
theorem of_loses (h : Standing s c t₀ t) (truthful : Truthful s gives t past)
    (orderly : Orderly s (t :: past)) (hloses : Loses (RecordedIn s t) t u) :
    Standing s c t₀ u where
  here := hloses.here.trans h.here
  held := (held_of_loses truthful orderly hloses).trans h.held
  old n content hu := by
    refine h.old n content ?_
    rw [generated?_eq_some_iff] at hu ⊢
    obtain ⟨hextension, modified, hat⟩ := hu
    rw [hloses.here] at hat
    exact ⟨hextension, modified, hloses.kept _ _ _ hat⟩
  kept n content h₀ := by
    rcases h.kept n content h₀ with hlisted | ht
    · exact .inl hlisted
    by_cases hlisted : c.Lists s n
    · exact .inl hlisted
    refine .inr ((generated?_congr hloses.toAltersOnly fun _ p hp heq => ?_).trans ht)
    obtain ⟨f, hf, ho⟩ := truthful.exists_of_recorded hp
    obtain ⟨m, hm, rfl, hlocate⟩ := (orderly.isProduct (filesOver_tail hf) ho).locate_eq t.here
    rw [hlocate, List.append_cancel_left_eq] at heq
    obtain rfl := List.singleton_inj.1 heq
    obtain ⟨c', hheld, hrecorded⟩ := hp
    rw [h.held, Option.some.injEq] at hheld
    rw [hheld] at hlisted
    exact hlisted hrecorded

/-- Edits elsewhere leave everything standing. -/
theorem of_edit (h : Standing s c t₀ t) (hedit : (sealedEdits s).edits t u) :
    Standing s c t₀ u := by
  have hsame : ∀ n, generated? s u n = generated? s t n := by
    intro n
    unfold generated?
    rw [hedit.1, hedit.2 _ (.inr (isBelow_iff.2 ⟨List.prefix_append _ _, by simp⟩))]
  refine ⟨hedit.1.trans h.here, (held_of_edit hedit).trans h.held, ?_, ?_⟩
  · intro n content
    rw [hsame]
    exact h.old n content
  · intro n content
    rw [hsame]
    exact h.kept n content

end Standing

/-- Since a tree the regions of the headers read the same, as far as their markers are there. -/
def RegionsStand (s : Settings) (t₀ t : FileTree) : Prop :=
  ∀ p tag, (p, tag) ∈ regionTags s →
    region? t p tag = none ∨ region? t p tag = region? t₀ p tag

section

variable (law : compiler.Obeys gives) {e₀ : Event} {newer older : List Event}
  (h : History compiler s (sealedEdits s) (newer ++ e₀ :: older))
  (orderly : Orderly s (trees (newer ++ e₀ :: older)))
  (fresh : Fresh s (trees (newer ++ e₀ :: older))) (last : ∀ event ∈ newer, ¬ event.Complete)
  {e : Event} {past : List Event} (heq : newer ++ e₀ :: older = e :: past)

include law h orderly fresh last heq

/-- Whatever happens, the cache stands since a build, and so does that there is none. -/
theorem held_since_build {held : Option BuildCache} (hheld : heldAt s.cachePath e₀.tree = held) :
    heldAt s.cachePath e.tree = held ∨ HasFailed s e.tree := by
  refine since_build law (fun t => heldAt s.cachePath t = held) h orderly fresh last hheld
    ?_ ?_ ?_ heq
  · exact fun t u _ hedit ht => (held_of_edit hedit).trans ht
  · exact fun t u past truthful orderly hloses ht =>
      (held_of_loses truthful orderly hloses).trans ht
  · exact fun t past r σ _ _ orderly halters ht =>
      (Truthful.held_eq orderly halters fun _ hp => hp).trans ht

variable (saved : ∀ event ∈ newer, ¬ event.Unsaved)

include saved

/-- As long as every build that compiles gets to save the cache, the generated files stand since a
build. -/
theorem standing_since_build (hheld : heldAt s.cachePath e₀.tree = some c) :
    Standing s c e₀.tree e.tree ∨ HasFailed s e.tree := by
  refine since_build law (Standing s c e₀.tree) h orderly fresh last (.refl hheld) ?_ ?_ ?_ heq
  · exact fun t u _ hedit hstanding => hstanding.of_edit hedit
  · exact fun t u past truthful orderly hloses hstanding =>
      hstanding.of_loses truthful orderly hloses
  · exact fun t past r σ hr hunsaved => absurd hunsaved (saved _ hr)

/-- So do the regions of the headers, when what is done from outside leaves them alone. -/
theorem regions_stand_since_build
    (untouched : ∀ t, .edited t ∈ newer → RegionsStand s e₀.tree t) :
    RegionsStand s e₀.tree e.tree ∨ HasFailed s e.tree := by
  refine since_build law (RegionsStand s e₀.tree) h orderly fresh last (fun _ _ _ => .inr rfl)
    ?_ ?_ ?_ heq
  · exact fun t u hu _ _ => untouched u hu
  · intro t u past truthful orderly hloses hregions p tag hp
    have hsame : region? u p tag = region? t p tag := by
      refine region?_congr hloses.toAltersOnly (fun q hq => ?_) tag
      obtain ⟨f, hf, ho⟩ := truthful.exists_of_recorded hq
      exact orderly.output_ne_header ⟨f, filesOver_tail hf, ho⟩ (mem_headers_of_regionTags hp)
    rw [hsame]
    exact hregions p tag hp
  · exact fun t past r σ hr hunsaved => absurd hunsaved (saved _ hr)

end

end ShaderBuild
