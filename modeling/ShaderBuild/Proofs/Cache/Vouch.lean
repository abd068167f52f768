import ShaderBuild.Proofs.Cache.Deletion

/-!
# Caches that vouch for all files

A cache vouches for a set of files in a tree (`Vouches`) when it remembers no other files, and each
of them as it is and with all its outputs in place. A comparison finds no change exactly when that
is so, and then it changes nothing either (`diff_unchanged_iff`, `diff_of_vouches`). The cache of
the set itself vouches for it as long as the outputs are there (`vouches_ofFiles`).
-/

namespace ShaderBuild.BuildCache

open Action

variable {c : BuildCache} {s : Settings} {fs : FileSet} {t : FileTree} {f : SourceFile}

/-- The records are those of the files of a set, and none of the files is stale. -/
structure Vouches (c : BuildCache) (t : FileTree) (fs : FileSet) : Prop where
  known : ∀ entry ∈ c.records, fs.get? entry.1 ≠ none
  tidy : ∀ f ∈ fs.files, c.orphansOf f = []
  current : ∀ f ∈ fs.files, ¬ c.LocallyStale t f

/-! ## Nothing to delete -/

theorem deleteRemoved_of_known {records : List (UInt32 × CacheRecord)}
    (h : ∀ entry ∈ records, fs.get? entry.1 ≠ none) (σ : Session) :
    (deleteRemoved s fs records).runOn σ = (.ok false, σ) := by
  induction records with
  | nil => rfl
  | cons entry rest ih =>
    obtain ⟨key, r⟩ := entry
    obtain ⟨hkey, hrest⟩ := List.forall_mem_cons.1 h
    rw [deleteRemoved, if_pos (Option.isSome_iff_ne_none.2 hkey)]
    exact ih hrest

/-- Without orphans an examination only looks. -/
theorem looks_examine (h : c.orphansOf f = []) : Looks (examine c s f) := by
  unfold orphansOf at h
  unfold examine
  cases hr : c.get? f.identity with
  | none => exact (looks_pure _).bind (looks_verdict f)
  | some r =>
    simp only [hr] at h
    simp only [h]
    exact Looks.bind (looks_pure ()) fun _ => looks_tree.bind fun _ =>
      (looks_pure _).bind (looks_verdict f)

/-- It answers, too. -/
theorem examine_of_tidy (h : c.orphansOf f = []) (σ : Session) :
    ∃ answer log, (examine c s f).runOn σ = (.ok answer, { σ with log := log }) := by
  unfold orphansOf at h
  unfold examine
  cases hr : c.get? f.identity with
  | none => exact ⟨(false, true), σ.log ++ [.stale f.path .isNew], rfl⟩
  | some r =>
    simp only [hr] at h
    simp only [h]
    rw [runOn_bind_of_ok (deleteOutputs_nil σ), runOn_bind_of_ok (runOn_tree σ)]
    cases r.staleReason? f σ.tree with
    | none => exact ⟨(false, false), σ.log, rfl⟩
    | some reason => exact ⟨(false, true), σ.log ++ [.stale f.path reason], rfl⟩

theorem mapM_examine_of_tidy {files : List SourceFile} (h : ∀ f ∈ files, c.orphansOf f = [])
    (σ : Session) : ∃ answers log,
      (files.mapM (examine c s)).runOn σ = (.ok answers, { σ with log := log }) := by
  induction files generalizing σ with
  | nil => exact ⟨[], σ.log, rfl⟩
  | cons f files ih =>
    obtain ⟨hf, hfiles⟩ := List.forall_mem_cons.1 h
    obtain ⟨answer, log, hfirst⟩ := examine_of_tidy (s := s) hf σ
    obtain ⟨answers, log', hrest⟩ := ih hfiles { σ with log := log }
    refine ⟨answer :: answers, log', ?_⟩
    rw [List.mapM_cons, runOn_bind_of_ok hfirst, runOn_bind_of_ok hrest]
    rfl

/-- Where nothing is to be deleted the tree is the same at every moment of a comparison. -/
theorem tree_sessionAt (hknown : ∀ entry ∈ c.records, fs.get? entry.1 ≠ none)
    (htidy : ∀ f ∈ fs.files, c.orphansOf f = []) (σ : Session) (i : Fin fs.size) :
    (c.sessionAt s fs σ i).tree = σ.tree := by
  have hmoves : Moves (fun t u => u = t) (do
      let _ ← (fs.files.take i).mapM (examine c s)
      deleteOutputs s (((fs.files[i.val]?).map c.orphansOf).getD [])) := by
    have htrans : ∀ t u v : FileTree, u = t → v = u → v = t := fun t u v h h' => h'.trans h
    refine Moves.bind htrans (moves_mapM (fun _ => rfl) htrans fun f hf => ?_) fun _ => ?_
    · exact (looks_examine (htidy f (List.mem_of_mem_take hf))).moves fun _ => rfl
    · have hget : fs.files[i.val]? = some (fs.get i) := List.getElem?_eq_getElem i.isLt
      rw [hget, Option.map_some, htidy _ (FileSet.get_mem i)]
      exact (looks_pure ()).moves fun _ => rfl
  unfold sessionAt
  rw [runOn_bind_of_ok (deleteRemoved_of_known hknown σ)]
  exact hmoves σ

/-! ## The whole comparison -/

/-- Where nothing is to be deleted, a comparison changes nothing and marks files by what is stale
in the tree as it is. -/
theorem diff_of_known (hknown : ∀ entry ∈ c.records, fs.get? entry.1 ≠ none)
    (htidy : ∀ f ∈ fs.files, c.orphansOf f = []) (graph : IncludeGraph fs.size) (σ : Session) :
    ∃ (stale : Fin fs.size → Bool) (changed : Bool) (log : List Notice),
      (c.diff s fs graph).runOn σ = (.ok (changed, marked fs graph stale), { σ with log := log }) ∧
      (∀ i, stale i = true ↔ c.LocallyStale σ.tree (fs.get i)) ∧
      (changed = true ↔ ∃ f ∈ (marked fs graph stale).files, f.shouldCompile = true) := by
  obtain ⟨examined, log, hexamined⟩ := mapM_examine_of_tidy (s := s) htidy σ
  obtain ⟨log', hdecided⟩ := mapM_decide_runOn graph
    (fun i => (examined[i]?.map (·.2)).getD false) (List.finRange fs.size) { σ with log := log }
  have hrun : ∃ answer, (c.diff s fs graph).runOn σ = (.ok answer, { σ with log := log' }) := by
    unfold diff
    rw [runOn_bind_of_ok (deleteRemoved_of_known hknown σ), runOn_bind_of_ok hexamined,
      runOn_bind_of_ok hdecided]
    exact ⟨_, rfl⟩
  obtain ⟨⟨changed, fs'⟩, hrun⟩ := hrun
  obtain ⟨stale, hstale, rfl, hchanged⟩ := diff_ok hrun
  refine ⟨stale, changed, log', hrun, fun i => ?_, ?_⟩
  · rw [hstale, tree_sessionAt hknown htidy]
  · rw [hchanged]
    constructor
    · rintro (⟨entry, hentry, hnone⟩ | ⟨f, hf, hne⟩ | hmarked)
      · exact absurd hnone (hknown entry hentry)
      · exact absurd (htidy f hf) hne
      · exact hmarked
    · exact fun hmarked => .inr (.inr hmarked)

/-- With a cache that vouches for all files a comparison finds no change and changes nothing. -/
theorem diff_of_vouches {σ : Session} (h : c.Vouches σ.tree fs) (graph : IncludeGraph fs.size) :
    ∃ fs' log, (c.diff s fs graph).runOn σ = (.ok (false, fs'), { σ with log := log }) := by
  obtain ⟨stale, changed, log, hrun, hstale, hchanged⟩ :=
    diff_of_known (s := s) h.known h.tidy graph σ
  have hnone : ∀ i, stale i = false := fun i =>
    Bool.eq_false_iff.2 fun hi => h.current _ (FileSet.get_mem i) ((hstale i).1 hi)
  have hchanged' : changed = false := by
    rw [Bool.eq_false_iff, ne_eq, hchanged]
    rintro ⟨f, hf, hshould⟩
    obtain ⟨i, -, rfl⟩ := List.mem_map.1 hf
    simp [hnone] at hshould
  rw [hchanged'] at hrun
  exact ⟨_, log, hrun⟩

/-- A comparison finds no change exactly when the cache vouches for all files. -/
theorem diff_unchanged_iff {σ : Session} {graph : IncludeGraph fs.size} :
    (∃ fs' σ', (c.diff s fs graph).runOn σ = (.ok (false, fs'), σ')) ↔ c.Vouches σ.tree fs := by
  constructor
  · rintro ⟨fs', σ', h⟩
    obtain ⟨stale, hstale, rfl, hchanged⟩ := diff_ok h
    simp only [Bool.false_eq_true, false_iff, not_or, not_exists, not_and] at hchanged
    obtain ⟨hknown, htidy, hmarks⟩ := hchanged
    have htidy' : ∀ f ∈ fs.files, c.orphansOf f = [] := fun f hf => not_not.1 (htidy f hf)
    refine ⟨hknown, htidy', fun f hf hlocally => ?_⟩
    obtain ⟨i, hi, rfl⟩ := List.getElem_of_mem hf
    have hi' : stale ⟨i, hi⟩ = true := by
      rw [hstale, tree_sessionAt hknown htidy']
      exact hlocally
    refine hmarks _ (List.mem_of_getElem? (getElem?_marked fs graph stale ⟨i, hi⟩)) ?_
    rw [hi']
    rfl
  · intro h
    obtain ⟨fs', log, hdiff⟩ := diff_of_vouches h graph
    exact ⟨fs', _, hdiff⟩

/-! ## The cache of a set -/

/-- A cache mirrors a set of files when it remembers these as they are, each as compiled or not, and
no others. -/
structure Mirrors (c : BuildCache) (fs : FileSet) (compiled : SourceFile → Bool) : Prop where
  keys : ∀ entry ∈ c.records, ∃ f ∈ fs.files, f.identity = entry.1
  records : ∀ f ∈ fs.files,
    c.get? f.identity = some { f.record with didCompile := compiled f }

/-- The cache of a set mirrors it. -/
theorem mirrors_ofFiles (h : fs.Apart) : (ofFiles fs).Mirrors fs (·.didCompile) where
  keys := by
    rintro ⟨key, r⟩ hentry
    obtain ⟨f, hf, rfl, -⟩ := (mem_ofFiles_iff h).1 hentry
    exact ⟨f, hf, rfl⟩
  records f hf := get?_eq_some_iff.2 ((mem_ofFiles_iff h).2 ⟨f, hf, rfl, rfl⟩)

namespace Mirrors

variable {compiled : SourceFile → Bool} (h : c.Mirrors fs compiled)

include h

theorem known {entry : UInt32 × CacheRecord} (hentry : entry ∈ c.records) :
    fs.get? entry.1 ≠ none := by
  obtain ⟨f, hf, hidentity⟩ := h.keys entry hentry
  intro hnone
  exact FileSet.get?_eq_none_iff.1 hnone f hf hidentity

theorem exists_of_mem {entry : UInt32 × CacheRecord} (hentry : entry ∈ c.records) :
    ∃ f ∈ fs.files, entry.2.modified = f.modified := by
  obtain ⟨f, hf, hidentity⟩ := h.keys entry hentry
  have hget := h.records f hf
  rw [hidentity, get?_eq_some_iff.2 hentry] at hget
  exact ⟨f, hf, by rw [Option.some.inj hget]; rfl⟩

theorem orphansOf_eq (hf : f ∈ fs.files) : c.orphansOf f = [] := by
  by_contra hne
  obtain ⟨r, hr, o, ho, hnone⟩ := orphansOf_ne_nil_iff.1 hne
  rw [h.records f hf] at hr
  cases hr
  have := hnone o ho
  rw [Bool.eq_false_iff] at this
  exact this (Path.sameAs_iff.2 rfl)

/-- A file is stale when it is not remembered as compiled, or an output is missing. -/
theorem locallyStale_iff (hf : f ∈ fs.files) :
    c.LocallyStale t f ↔ compiled f = false ∨ ∃ o ∈ f.outputs, t.has o = false := by
  rw [locallyStale_iff_of_get? (h.records f hf), isSome_staleReason?_iff]
  constructor
  · rintro (hcompiled | hm | hp | ⟨o, ho, hmissing⟩)
    · exact .inl hcompiled
    · exact absurd rfl hm
    · rw [Bool.eq_false_iff] at hp
      exact absurd (Path.sameAs_iff.2 rfl) hp
    · rcases List.mem_append.1 ho with ho | ho <;> exact .inr ⟨o, ho, hmissing⟩
  · rintro (hcompiled | ⟨o, ho, hmissing⟩)
    · exact .inl hcompiled
    · exact .inr (.inr (.inr ⟨o, List.mem_append_right _ ho, hmissing⟩))

end Mirrors

/-- A set whose files are compiled and have all their outputs in place is vouched for by its own
cache. -/
theorem vouches_ofFiles (hapart : fs.Apart) (hdone : ∀ f ∈ fs.files, f.didCompile = true)
    (houtputs : ∀ f ∈ fs.files, ∀ o ∈ f.outputs, t.has o = true) :
    (ofFiles fs).Vouches t fs := by
  have hmirrors := mirrors_ofFiles hapart
  refine ⟨fun _ => hmirrors.known, fun f => hmirrors.orphansOf_eq, fun f hf => ?_⟩
  rw [hmirrors.locallyStale_iff hf, hdone f hf]
  rintro (hcompiled | ⟨o, ho, hmissing⟩)
  · cases hcompiled
  · rw [houtputs f hf o ho] at hmissing
    cases hmissing

end ShaderBuild.BuildCache
