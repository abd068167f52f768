import ShaderBuild.Cache.Diff
import ShaderBuild.Proofs.Action

/-!
# What a comparison with the cache answers

A comparison examines the files one after the other, each at a moment of its own: the outputs of
removed files are deleted by then, and so are the orphans of the files up to this one
(`sessionAt`). Main statement: `diff_ok` says from the staleness at these moments which files are
marked and whether anything counts as changed.
-/

namespace ShaderBuild.BuildCache

open Action

variable {c : BuildCache} {s : Settings} {fs : FileSet}

/-! ## The moments of a comparison -/

/-- What the record of a file, if there is one, lists without the file producing it. -/
def orphansOf (c : BuildCache) (f : SourceFile) : List Path :=
  match c.get? f.identity with
  | none => []
  | some r => orphans r f

/-- A file has orphans when its record lists an output that is none of its own. -/
theorem orphansOf_ne_nil_iff {f : SourceFile} : c.orphansOf f ≠ [] ↔
    ∃ r, c.get? f.identity = some r ∧ ∃ o ∈ r.outputs, ∀ p ∈ f.outputs, o.sameAs p = false := by
  unfold orphansOf
  cases hr : c.get? f.identity with
  | none => simp
  | some r => simp [orphans, List.filter_eq_nil_iff]

/-- The session at the moment when a file is examined. -/
def sessionAt (c : BuildCache) (s : Settings) (fs : FileSet) (σ : Session) (i : Nat) : Session :=
  (Action.runOn (do
    let _ ← deleteRemoved s fs c.records
    let _ ← (fs.files.take i).mapM (examine c s)
    deleteOutputs s (((fs.files[i]?).map c.orphansOf).getD [])) σ).2

/-- Whether a file is stale by itself, as the tree is: it has no record, or the record tells of a
failure, of another modification time or of another path, or an output is missing. -/
def LocallyStale (c : BuildCache) (tree : FileTree) (f : SourceFile) : Prop :=
  c.get? f.identity = none ∨ ∃ r, c.get? f.identity = some r ∧
    (r.didCompile = false ∨ r.modified ≠ f.modified ∨ r.path.sameAs f.path = false ∨
      ∃ o ∈ r.outputs ++ f.outputs, tree.has o = false)

theorem isSome_staleReason?_iff {r : CacheRecord} {f : SourceFile} {tree : FileTree} :
    (r.staleReason? f tree).isSome ↔
      r.didCompile = false ∨ r.modified ≠ f.modified ∨ r.path.sameAs f.path = false ∨
        ∃ o ∈ r.outputs ++ f.outputs, tree.has o = false := by
  unfold CacheRecord.staleReason?
  cases hd : r.didCompile with
  | false => simp
  | true =>
    by_cases hm : r.modified = f.modified
    · cases hp : r.path.sameAs f.path with
      | false => simp [hm]
      | true => simp [hm, or_and_right, exists_or]
    · simp [hm]

theorem locallyStale_iff_of_get? {tree : FileTree} {f : SourceFile} {r : CacheRecord}
    (h : c.get? f.identity = some r) :
    c.LocallyStale tree f ↔ (r.staleReason? f tree).isSome := by
  rw [isSome_staleReason?_iff]
  constructor
  · rintro (hnone | ⟨q, hq, hstale⟩)
    · rw [h] at hnone
      cases hnone
    · rw [h] at hq
      cases hq
      exact hstale
  · intro hstale
    exact .inr ⟨r, h, hstale⟩

/-! ## The steps -/

theorem deleteOutputs_nil (σ : Session) : (deleteOutputs s []).runOn σ = (.ok (), σ) := rfl

/-- A run of deletions that ends well tells whether a file is gone. -/
theorem deleteRemoved_ok {records : List (UInt32 × CacheRecord)} {σ σ' : Session} {removed : Bool}
    (h : (deleteRemoved s fs records).runOn σ = (.ok removed, σ')) :
    removed = true ↔ ∃ entry ∈ records, fs.get? entry.1 = none := by
  induction records generalizing σ removed with
  | nil =>
    rw [deleteRemoved, runOn_pure] at h
    cases h
    simp
  | cons entry rest ih =>
    obtain ⟨key, r⟩ := entry
    rw [deleteRemoved] at h
    cases hkey : fs.get? key with
    | some f =>
      rw [hkey] at h
      rw [ih h]
      simp [hkey]
    | none =>
      simp only [hkey, Option.isSome_none, Bool.false_eq_true, if_false] at h
      obtain ⟨_, σ₁, -, h⟩ := runOn_bind_ok_iff.1 h
      obtain ⟨_, σ₂, -, h⟩ := runOn_bind_ok_iff.1 h
      obtain ⟨_, σ₃, -, h⟩ := runOn_bind_ok_iff.1 h
      cases h
      simp [hkey]

/-- What an examination answers: whether the file has orphans, and whether it is stale once they
are deleted. -/
theorem examine_ok {f : SourceFile} {σ σ' : Session} {answer : Bool × Bool}
    (h : (examine c s f).runOn σ = (.ok answer, σ')) :
    ∃ σ₁, (deleteOutputs s (c.orphansOf f)).runOn σ = (.ok (), σ₁) ∧ σ'.tree = σ₁.tree ∧
      σ'.calls = σ₁.calls ∧ (answer.1 = true ↔ c.orphansOf f ≠ []) ∧
      (answer.2 = true ↔ c.LocallyStale σ₁.tree f) := by
  unfold examine at h
  unfold orphansOf
  cases hr : c.get? f.identity with
  | none =>
    simp only [hr] at h
    obtain ⟨x, σ₁, hx, h⟩ := runOn_bind_ok_iff.1 h
    cases hx
    obtain ⟨_, σ₂, htell, h⟩ := runOn_bind_ok_iff.1 h
    rw [runOn_tell] at htell
    cases htell
    cases h
    exact ⟨σ, rfl, rfl, rfl, by simp, by simpa using .inl hr⟩
  | some r =>
    simp only [hr] at h
    obtain ⟨_, σ₁, hdelete, h⟩ := runOn_bind_ok_iff.1 h
    obtain ⟨t, σ₂, htree, h⟩ := runOn_bind_ok_iff.1 h
    cases htree
    obtain ⟨x, σ₂, hx, h⟩ := runOn_bind_ok_iff.1 h
    cases hx
    have horphans : (!(orphans r f).isEmpty) = true ↔ orphans r f ≠ [] := by
      cases orphans r f <;> simp
    refine ⟨σ₁, hdelete, ?_⟩
    rw [locallyStale_iff_of_get? hr]
    cases hreason : r.staleReason? f σ₁.tree with
    | none =>
      simp only [hreason] at h
      cases h
      exact ⟨rfl, rfl, horphans, by simp⟩
    | some reason =>
      simp only [hreason] at h
      obtain ⟨_, σ₂, htell, h⟩ := runOn_bind_ok_iff.1 h
      rw [runOn_tell] at htell
      cases htell
      cases h
      exact ⟨rfl, rfl, horphans, by simp⟩

theorem decide_runOn (graph : IncludeGraph fs.size) (stale : Fin fs.size → Bool) (i : Fin fs.size)
    (σ : Session) : ∃ log, (decide graph stale i).runOn σ
      = (.ok (stale i || (graph.closure i).any stale), { σ with log := log }) := by
  unfold decide
  cases hi : stale i with
  | true => exact ⟨σ.log, by simp⟩
  | false =>
    cases hany : (graph.closure i).any stale with
    | false => exact ⟨σ.log, by simp⟩
    | true =>
      refine ⟨σ.log ++ [.includesChanged (fs.get i).path], ?_⟩
      simp only [Bool.not_false, Bool.true_and, if_true]
      rw [runOn_bind_of_ok (runOn_tell _ σ)]
      rfl

theorem mapM_decide_runOn (graph : IncludeGraph fs.size) (stale : Fin fs.size → Bool)
    (l : List (Fin fs.size)) (σ : Session) : ∃ log, (l.mapM (decide graph stale)).runOn σ
      = (.ok (l.map fun i => stale i || (graph.closure i).any stale), { σ with log := log }) := by
  induction l generalizing σ with
  | nil => exact ⟨σ.log, rfl⟩
  | cons i l ih =>
    obtain ⟨log, hlog⟩ := decide_runOn graph stale i σ
    obtain ⟨log', hlog'⟩ := ih { σ with log := log }
    refine ⟨log', ?_⟩
    rw [List.mapM_cons, runOn_bind_of_ok hlog, runOn_bind_of_ok hlog']
    rfl

/-! ## The whole comparison -/

/-- The files of a set, marked by what is stale among them and what they include. -/
def marked (fs : FileSet) (graph : IncludeGraph fs.size) (stale : Fin fs.size → Bool) : FileSet :=
  ⟨(List.finRange fs.size).map fun i =>
    { fs.get i with
      shouldCompile := stale i || (graph.closure i).any stale
      dependencies := (graph.closure i).map fun j => (fs.get j).identity }⟩

theorem getElem?_marked (fs : FileSet) (graph : IncludeGraph fs.size) (stale : Fin fs.size → Bool)
    (i : Fin fs.size) : (marked fs graph stale).files[i.val]? = some { fs.get i with
      shouldCompile := stale i || (graph.closure i).any stale
      dependencies := (graph.closure i).map fun j => (fs.get j).identity } := by
  unfold marked
  rw [List.getElem?_map, List.getElem?_eq_getElem (by simp), List.getElem_finRange]
  rfl

/-- A comparison that ends well: the removed files are dealt with first, then each file is
examined, and what was found marks the files. -/
theorem diff_phases {graph : IncludeGraph fs.size} {σ σ' : Session} {changed : Bool}
    {fs' : FileSet} (h : (c.diff s fs graph).runOn σ = (.ok (changed, fs'), σ')) :
    ∃ removed examined σ₁ σ₂,
      (deleteRemoved s fs c.records).runOn σ = (.ok removed, σ₁) ∧
      (fs.files.mapM (examine c s)).runOn σ₁ = (.ok examined, σ₂) ∧
      σ'.tree = σ₂.tree ∧ σ'.calls = σ₂.calls ∧
      fs' = marked fs graph (fun i => (examined[i]?.map (·.2)).getD false) ∧
      changed = (removed || examined.any (·.1) || fs'.files.any (·.shouldCompile)) := by
  unfold diff at h
  obtain ⟨removed, σ₁, hremoved, h⟩ := runOn_bind_ok_iff.1 h
  obtain ⟨examined, σ₂, hexamined, h⟩ := runOn_bind_ok_iff.1 h
  obtain ⟨compile, σ₃, hcompile, h⟩ := runOn_bind_ok_iff.1 h
  obtain ⟨log, hlog⟩ := mapM_decide_runOn graph
    (fun i => (examined[i]?.map (·.2)).getD false) (List.finRange fs.size) σ₂
  rw [hlog] at hcompile
  cases hcompile
  cases h
  refine ⟨removed, examined, σ₁, σ₂, hremoved, hexamined, rfl, rfl, ?_, ?_⟩
  · unfold marked
    simp only [List.zipWith_map_right, List.zipWith_self]
  · simp only [List.zipWith_map_right, List.zipWith_self, List.any_map, Function.comp_def, id]

/-- What a comparison that ends well has found out: which files are stale, each by the tree of its
own moment, and whether anything changed. -/
theorem diff_ok {graph : IncludeGraph fs.size} {σ σ' : Session} {changed : Bool} {fs' : FileSet}
    (h : (c.diff s fs graph).runOn σ = (.ok (changed, fs'), σ')) :
    ∃ stale : Fin fs.size → Bool,
      (∀ i, stale i = true ↔ c.LocallyStale (c.sessionAt s fs σ i).tree (fs.get i)) ∧
      fs' = marked fs graph stale ∧
      (changed = true ↔ (∃ entry ∈ c.records, fs.get? entry.1 = none) ∨
        (∃ f ∈ fs.files, c.orphansOf f ≠ []) ∨ ∃ f ∈ fs'.files, f.shouldCompile = true) := by
  obtain ⟨removed, examined, σ₁, σ₂, hremoved, hexamined, -, -, hfs', hchanged⟩ := diff_phases h
  obtain ⟨hlength, hmoments⟩ := runOn_mapM_ok hexamined
  -- each file is examined where the examinations in front of it lead
  have hexamine : ∀ i : Fin fs.size, ∃ answer, examined[i]? = some answer ∧
      (answer.1 = true ↔ c.orphansOf (fs.get i) ≠ []) ∧
      (answer.2 = true ↔ c.LocallyStale (c.sessionAt s fs σ i).tree (fs.get i)) := by
    intro i
    have hi : i.val < examined.length := by rw [hlength]; exact i.isLt
    obtain ⟨σ₃, σ₄, htake, hat⟩ := hmoments i.val i.isLt hi
    obtain ⟨σ₅, hdelete, -, -, horphaned, hstale⟩ := examine_ok hat
    refine ⟨examined[i.val], List.getElem?_eq_getElem hi, horphaned, ?_⟩
    have hsession : c.sessionAt s fs σ i = σ₅ := by
      unfold sessionAt
      rw [runOn_bind_of_ok hremoved, runOn_bind_of_ok htake, List.getElem?_eq_getElem i.isLt]
      exact congrArg Prod.snd hdelete
    rw [hsession]
    exact hstale
  refine ⟨_, ?_, hfs', ?_⟩
  · intro i
    obtain ⟨answer, hanswer, -, hstale⟩ := hexamine i
    rw [hanswer]
    exact hstale
  · have horphaned : examined.any (·.1) = true ↔ ∃ f ∈ fs.files, c.orphansOf f ≠ [] := by
      rw [List.any_eq_true]
      constructor
      · rintro ⟨answer, hmem, h1⟩
        obtain ⟨i, hi, rfl⟩ := List.getElem_of_mem hmem
        obtain ⟨answer', hanswer, horph, -⟩ := hexamine ⟨i, Nat.lt_of_lt_of_eq hi hlength⟩
        rw [Fin.getElem?_fin, List.getElem?_eq_getElem hi] at hanswer
        cases hanswer
        exact ⟨_, List.get_mem _ _, horph.1 h1⟩
      · rintro ⟨f, hmem, hne⟩
        obtain ⟨i, hi, rfl⟩ := List.getElem_of_mem hmem
        obtain ⟨answer, hanswer, horph, -⟩ := hexamine ⟨i, hi⟩
        exact ⟨answer, List.mem_of_getElem? hanswer, horph.2 hne⟩
    rw [hchanged, Bool.or_eq_true, Bool.or_eq_true, deleteRemoved_ok hremoved, horphaned,
      List.any_eq_true, or_assoc]

end ShaderBuild.BuildCache
