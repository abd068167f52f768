import ShaderBuild.Proofs.Agreement
import ShaderBuild.Proofs.Cache.Deletion
import ShaderBuild.Proofs.Failure
import ShaderBuild.Proofs.FileTree.Overwrite
import ShaderBuild.Proofs.Source.Set

/-!
# What a comparison may delete

For each entry of a cache there are outputs to delete, none or more of those that it lists
(`dues`). A comparison changes a tree as working off these rows one after the other does
(`diff_matches_settle`), and ends early where that does. It follows what it may delete, wherever
it stops: recorded outputs that bear the extension of generated files and that nothing accounts
for (`diff_deletes_only_artifacts`).
-/

namespace ShaderBuild.BuildCache

open Action FileTree

variable {c : BuildCache} {s : Settings} {fs : FileSet}

/-- The outputs to delete for each entry of a cache, in the order in which a comparison gets to
them: first for the entries whose files are gone, and then file by file. -/
def dues (c : BuildCache) (fs : FileSet) : List ((UInt32 × CacheRecord) × List Path) :=
  ((c.records.filter fun entry => (fs.get? entry.1).isNone).map fun entry =>
      (entry, entry.2.outputs)) ++
    fs.files.flatMap fun f =>
      ((c.get? f.identity).map fun r => ((f.identity, r), orphans r f)).toList

/-- Deletes the outputs of some rows, one row after the other. -/
def settle (s : Settings) (rows : List ((UInt32 × CacheRecord) × List Path)) : Action Unit :=
  rows.forM fun row => deleteOutputs s row.2

/-- All outputs are to delete for an entry whose file is gone, and else those that the file no
longer has. -/
theorem mem_dues_iff {entry : UInt32 × CacheRecord} {outputs : List Path} :
    (entry, outputs) ∈ c.dues fs ↔ entry ∈ c.records ∧
      (fs.get? entry.1 = none ∧ outputs = entry.2.outputs ∨
        ∃ f ∈ fs.files, f.identity = entry.1 ∧ outputs = orphans entry.2 f) := by
  unfold dues
  rw [List.mem_append, List.mem_map, List.mem_flatMap, and_or_left]
  refine or_congr ?_ ?_
  · constructor
    · rintro ⟨entry', hmem, heq⟩
      obtain ⟨rfl, rfl⟩ := Prod.mk.inj heq
      obtain ⟨hentry, hnone⟩ := List.mem_filter.1 hmem
      exact ⟨hentry, Option.isNone_iff_eq_none.1 hnone, rfl⟩
    · rintro ⟨hentry, hnone, rfl⟩
      exact ⟨entry, List.mem_filter.2 ⟨hentry, Option.isNone_iff_eq_none.2 hnone⟩, rfl⟩
  · constructor
    · rintro ⟨f, hf, hmem⟩
      rw [Option.mem_toList, Option.map_eq_some_iff] at hmem
      obtain ⟨r, hr, heq⟩ := hmem
      obtain ⟨rfl, rfl⟩ := Prod.mk.inj heq
      exact ⟨get?_eq_some_iff.1 hr, f, hf, rfl, rfl⟩
    · rintro ⟨hentry, f, hf, hidentity, rfl⟩
      refine ⟨f, hf, ?_⟩
      obtain ⟨key, r⟩ := entry
      obtain rfl : f.identity = key := hidentity
      rw [get?_eq_some_iff.2 hentry]
      exact List.mem_singleton.2 rfl

/-! ## Comparing is working off -/

theorem matches_deleteOutputs (s : Settings) (outputs : List Path) :
    Matches Eq Eq Eq (deleteOutputs s outputs) (deleteOutputs s outputs) := by
  unfold deleteOutputs
  split
  · exact matches_throw _
  · refine matches_forM fun o _ => matches_deleteAt o ?_
    rintro t _ rfl
    exact ⟨rfl, rfl⟩

theorem settle_cons (s : Settings) (row : (UInt32 × CacheRecord) × List Path)
    (rows : List ((UInt32 × CacheRecord) × List Path)) :
    settle s (row :: rows) = deleteOutputs s row.2 >>= fun _ => settle s rows := rfl

theorem settle_append (s : Settings) (rows rows' : List ((UInt32 × CacheRecord) × List Path)) :
    settle s (rows ++ rows') = settle s rows >>= fun _ => settle s rows' := by
  induction rows with
  | nil => exact (pure_bind () fun _ => settle s rows').symm
  | cons row rows ih => rw [List.cons_append, settle_cons, settle_cons, ih, bind_assoc]

/-- Dealing with removed files is working off the rows of their entries. -/
theorem deleteRemoved_matches (s : Settings) (fs : FileSet)
    (records : List (UInt32 × CacheRecord)) :
    Matches Eq Eq (fun _ _ => True) (deleteRemoved s fs records)
      (settle s ((records.filter fun entry => (fs.get? entry.1).isNone).map fun entry =>
        (entry, entry.2.outputs))) := by
  induction records with
  | nil => exact matches_pure trivial
  | cons entry rest ih =>
    obtain ⟨key, r⟩ := entry
    rw [deleteRemoved]
    cases hkey : fs.get? key with
    | some f =>
      rw [List.filter_cons_of_neg (by simp [hkey])]
      exact ih
    | none =>
      rw [List.filter_cons_of_pos (by simp [hkey]), List.map_cons, settle_cons]
      refine Matches.tell_left ?_ _
      refine (matches_deleteOutputs s r.outputs).bind (fun _ _ h => h) fun _ _ _ => ?_
      exact ih.map_left fun _ _ _ => trivial

/-- Telling a verdict changes no tree and always goes well. -/
theorem verdict_matches (f : SourceFile) (x : Bool × Option StaleReason) :
    Matches Eq Eq (fun _ (_ : Unit) => True) (do
      let (orphaned, reason) := x
      match reason with
      | none => return (orphaned, false)
      | some reason =>
        Action.tell (.stale f.path reason)
        return (orphaned, true)) (pure ()) := by
  obtain ⟨orphaned, _ | reason⟩ := x
  · exact matches_pure trivial
  · exact Matches.tell_left (matches_pure trivial) _

/-- Examining a file is working off the row of its entry, if there is one. -/
theorem examine_matches (c : BuildCache) (s : Settings) (f : SourceFile) :
    Matches Eq Eq (fun _ _ => True) (examine c s f)
      (settle s ((c.get? f.identity).map fun r => ((f.identity, r), orphans r f)).toList) := by
  unfold examine
  cases hr : c.get? f.identity with
  | none => exact verdict_matches f (false, some .isNew)
  | some r =>
    refine (matches_deleteOutputs s (orphans r f)).bind (fun _ _ h => h) fun _ _ _ => ?_
    rintro σ τ heq
    rw [runOn_bind_of_ok (runOn_tree σ), runOn_bind_of_ok (runOn_pure _ σ)]
    exact verdict_matches f (!(orphans r f).isEmpty, r.staleReason? f σ.tree) σ τ heq

theorem mapM_examine_matches (c : BuildCache) (s : Settings) (files : List SourceFile) :
    Matches Eq Eq (fun _ _ => True) (files.mapM (examine c s))
      (settle s (files.flatMap fun f =>
        ((c.get? f.identity).map fun r => ((f.identity, r), orphans r f)).toList)) := by
  induction files with
  | nil => exact matches_pure trivial
  | cons f files ih =>
    rw [List.mapM_cons, List.flatMap_cons, settle_append]
    refine (examine_matches c s f).bind (fun _ _ h => h) fun answer _ _ => ?_
    exact ih.map_left fun _ _ _ => trivial

/-- **A comparison does to a tree what working off its dues does**, and where it ends early the
error is the same. -/
theorem diff_matches_settle (c : BuildCache) (s : Settings) (fs : FileSet)
    (graph : IncludeGraph fs.size) :
    Matches Eq Eq (fun _ _ => True) (c.diff s fs graph) (settle s (c.dues fs)) := by
  unfold diff dues
  rw [settle_append]
  refine (deleteRemoved_matches s fs c.records).bind (fun _ _ h => h) fun removed _ _ => ?_
  rw [← bind_pure (settle s (fs.files.flatMap _))]
  refine (mapM_examine_matches c s fs.files).bind (fun _ _ h => h) fun examined _ _ => ?_
  -- the files are marked without a look at the tree
  rintro σ τ heq
  obtain ⟨log, hlog⟩ := mapM_decide_runOn graph
    (fun i => (examined[i]?.map (·.2)).getD false) (List.finRange fs.size) σ
  rw [runOn_bind_of_ok hlog]
  exact ⟨.ok trivial, heq⟩

/-! ## What working off changes -/

/-- What removing generated files on the list does to a tree, working off the rows does. -/
theorem settle_moves {R : FileTree → FileTree → Prop} (refl : ∀ t, R t t)
    (trans : ∀ t u v, R t u → R u v → R t v) {rows : List ((UInt32 × CacheRecord) × List Path)}
    (remove : ∀ row ∈ rows, ∀ o ∈ row.2, s.isGenerated o = true → ∀ t : FileTree,
      R t (t.removeFile o).2) : Moves R (settle s rows) := by
  refine moves_forM refl trans fun row hrow => ?_
  unfold deleteOutputs
  split
  · exact (looks_throw _).moves refl
  · next hnone =>
    refine moves_forM refl trans fun o ho => moves_deleteAt (remove row hrow o ho ?_)
    simpa using List.find?_eq_none.1 hnone o ho

theorem clock_removeFile (t : FileTree) (p : Path) : (t.removeFile p).2.clock = t.clock := by
  rcases removeFile_cases t p with ⟨fault, heq⟩ | ⟨content, modified, hat, heq⟩
  · rw [heq]
  · rw [heq]
    rfl

/-- What could be removed was a file. -/
theorem isFile_of_removeFile {t : FileTree} {p : Path} (h : (t.removeFile p).1 = .ok ()) :
    t.isFile p = true := by
  unfold removeFile at h
  cases hg : t.goal p with
  | error fault =>
    rw [hg] at h
    cases h
  | ok g =>
    simp only [hg] at h
    split at h
    · cases h
    · cases h
    · cases h
    · next hat hslash => exact isFile_of_goal hg hslash hat

/-- Seen from a tree that only lost files since, removing a file takes at most what was a file
there already. -/
theorem deletes_removeFile_since {S : Path → Prop} {t₀ t : FileTree} {o : Path} (ho : S o)
    (h : Deletes (fun p => S p ∧ t₀.isFile p = true) t₀ t) :
    Deletes (fun p => S p ∧ t₀.isFile p = true) t₀ (t.removeFile o).2 := by
  rcases removeFile_cases t o with ⟨fault, heq⟩ | ⟨content, modified, hat, heq⟩
  · rw [heq]
    exact h
  · refine h.trans ((deletes_removeFile t o).mono ?_)
    rintro p rfl
    obtain ⟨content, modified, hfind⟩ := isFile_iff.1 (isFile_of_removeFile (by rw [heq]))
    exact ⟨ho, isFile_iff.2 ⟨content, modified, h.find_before hfind⟩⟩

/-- A generated file that an entry lists and that nothing accounts for. -/
def Disposable (c : BuildCache) (s : Settings) (fs : FileSet) (p : Path) : Prop :=
  s.isGenerated p = true ∧ ∃ entry ∈ c.records, p ∈ entry.2.outputs ∧
    (fs.get? entry.1 = none ∨
      ∃ f ∈ fs.files, f.identity = entry.1 ∧ ∀ o ∈ f.outputs, p.sameAs o = false)

theorem disposable_of_mem_dues {entry : UInt32 × CacheRecord} {outputs : List Path} {o : Path}
    (h : (entry, outputs) ∈ c.dues fs) (ho : o ∈ outputs) (hgenerated : s.isGenerated o = true) :
    c.Disposable s fs o := by
  obtain ⟨hentry, ⟨hnone, rfl⟩ | ⟨f, hf, hidentity, rfl⟩⟩ := mem_dues_iff.1 h
  · exact ⟨hgenerated, entry, hentry, ho, .inl hnone⟩
  · obtain ⟨hlisted, hother⟩ := List.mem_filter.1 ho
    refine ⟨hgenerated, entry, hentry, hlisted, .inr ⟨f, hf, hidentity, ?_⟩⟩
    simpa using hother

theorem doomed_of_mem_dues {row : (UInt32 × CacheRecord) × List Path} {o : Path}
    (h : row ∈ c.dues fs) (ho : o ∈ row.2) : c.Doomed fs o := by
  obtain ⟨⟨key, r⟩, outputs⟩ := row
  obtain ⟨hentry, ⟨hnone, rfl⟩ | ⟨f, hf, rfl, rfl⟩⟩ := mem_dues_iff.1 h
  · exact .inl ⟨(key, r), hentry, hnone, ho⟩
  · refine .inr ⟨f, hf, ?_⟩
    unfold orphansOf
    rw [get?_eq_some_iff.2 hentry]
    exact ho

/-- A comparison that has no file to delete leaves the tree as it is. -/
theorem diff_spares {σ : Session} (h : ∀ o, c.Doomed fs o → σ.tree.isFile o = false) (s : Settings)
    (graph : IncludeGraph fs.size) : ((c.diff s fs graph).runOn σ).2.tree = σ.tree := by
  obtain ⟨-, htree⟩ := diff_matches_settle c s fs graph σ σ rfl
  rw [htree]
  refine settle_moves (R := fun t u => t = σ.tree → u = σ.tree) (fun _ h => h)
    (fun _ _ _ h h' ht => h' (h ht)) (fun row hrow o ho _ t ht => ?_) σ rfl
  rcases removeFile_cases t o with ⟨fault, heq⟩ | ⟨content, modified, hat, heq⟩
  · rw [heq]
    exact ht
  · have hfile := isFile_of_removeFile (t := t) (p := o) (by rw [heq])
    rw [ht, h o (doomed_of_mem_dues hrow ho)] at hfile
    cases hfile

/-- **A comparison deletes nothing but disposable files**, and touches nothing else. -/
theorem diff_disposes (c : BuildCache) (s : Settings) (fs : FileSet) (graph : IncludeGraph fs.size)
    (σ : Session) : Deletes (fun p => c.Disposable s fs p ∧ σ.tree.isFile p = true) σ.tree
      ((c.diff s fs graph).runOn σ).2.tree ∧
    ((c.diff s fs graph).runOn σ).2.tree.clock = σ.tree.clock := by
  obtain ⟨-, htree⟩ := diff_matches_settle c s fs graph σ σ rfl
  rw [htree]
  constructor
  · refine settle_moves (R := fun t u => Deletes _ σ.tree t → Deletes _ σ.tree u) (fun _ h => h)
      (fun _ _ _ h h' ht => h' (h ht)) (fun row hrow o ho hgenerated t => ?_) σ (.refl _ _)
    exact deletes_removeFile_since (disposable_of_mem_dues hrow ho hgenerated)
  · exact settle_moves (R := fun t u => u.clock = t.clock) (fun _ => rfl)
      (fun _ _ _ h h' => h'.trans h) (fun _ _ o _ _ t => clock_removeFile t o) σ

/-! ## All or nothing -/

/-- When one of the outputs is no generated file, none of them is removed. -/
theorem deleteOutputs_refuses {outputs : List Path} (h : ∃ p ∈ outputs, s.isGenerated p = false) :
    ∃ p ∈ outputs, s.isGenerated p = false ∧
      ∀ σ, (deleteOutputs s outputs).runOn σ = (.error (.unknownOutputExtension p), σ) := by
  obtain ⟨q, hq, hforeign⟩ := h
  cases hfind : outputs.find? fun o => !s.isGenerated o with
  | none =>
    have := List.find?_eq_none.1 hfind q hq
    simp [hforeign] at this
  | some p =>
    refine ⟨p, List.mem_of_find?_eq_some hfind, by simpa using List.find?_some hfind, fun σ => ?_⟩
    unfold deleteOutputs
    rw [hfind]
    rfl

/-- Deletions fail by files that cannot be removed and by files that are none of the generated. -/
def DeletionFault (e : Error) : Prop :=
  ∃ p, e = .unknownOutputExtension p ∨ ∃ fault, e = .io p fault

theorem failsBy_deleteOutputs (s : Settings) (outputs : List Path) :
    FailsBy DeletionFault (deleteOutputs s outputs) := by
  unfold deleteOutputs
  split
  · exact failsBy_throw ⟨_, .inl rfl⟩
  · exact failsBy_forM fun o _ => failsBy_deleteAt (fun fault => ⟨o, .inr ⟨fault, rfl⟩⟩) _

theorem failsBy_settle (s : Settings) (rows : List ((UInt32 × CacheRecord) × List Path)) :
    FailsBy DeletionFault (settle s rows) :=
  failsBy_forM fun row _ => failsBy_deleteOutputs s row.2

theorem failsBy_diff (c : BuildCache) (s : Settings) (fs : FileSet)
    (graph : IncludeGraph fs.size) : FailsBy DeletionFault (c.diff s fs graph) := by
  intro σ σ' e hrun
  obtain ⟨hanswer, -⟩ := diff_matches_settle c s fs graph σ σ rfl
  rw [hrun] at hanswer
  cases hsettle : (settle s (c.dues fs)).runOn σ with
  | mk r σ₁ =>
    rw [hsettle] at hanswer
    cases hanswer
    exact failsBy_settle s _ _ _ _ hsettle

/-- Rows up to one with a foreign file are worked off; that row is refused as a whole. -/
theorem settle_refuses (before after : List ((UInt32 × CacheRecord) × List Path))
    (entry : UInt32 × CacheRecord) {outputs : List Path}
    (h : ∃ p ∈ outputs, s.isGenerated p = false) (σ : Session) :
    ∃ r σ₁, (settle s before).runOn σ = (r, σ₁) ∧
      ∃ p ∈ outputs, s.isGenerated p = false ∧
        (settle s (before ++ (entry, outputs) :: after)).runOn σ
          = (r.bind fun _ => .error (.unknownOutputExtension p), σ₁) := by
  obtain ⟨p, hp, hforeign, hrefuse⟩ := deleteOutputs_refuses h
  rw [settle_append, settle_cons]
  rcases hbefore : (settle s before).runOn σ with ⟨e | _, σ₁⟩
  · exact ⟨_, _, rfl, p, hp, hforeign, runOn_bind_of_error hbefore _⟩
  · refine ⟨_, _, rfl, p, hp, hforeign, ?_⟩
    rw [runOn_bind_of_ok hbefore, runOn_bind_of_error (hrefuse σ₁)]
    rfl

/-- **A comparison deletes only what builds have left behind.** Whether it ends well or early, the
tree behind it is the one before but for some files that are gone. To each of them leads a path
that an entry of the cache lists, that has the end of a generated file, and that no file accounts
for. When an entry asks for a file with another end, the rows in front of it are worked off, and
unless one of these has failed already, nothing is deleted for the entry and the comparison fails
because of the file. -/
theorem diff_deletes_only_artifacts {c : BuildCache} {s : Settings} {fs : FileSet}
    {graph : IncludeGraph fs.size} {σ σ' : Session} {result : Except Error (Bool × FileSet)}
    (h : (c.diff s fs graph).runOn σ = (result, σ')) :
    (σ'.tree.here = σ.tree.here ∧ σ'.tree.clock = σ.tree.clock ∧
      ∀ l, σ'.tree.at? l = σ.tree.at? l ∨
        σ'.tree.at? l = none ∧ (∃ content modified, σ.tree.at? l = some (.file content modified)) ∧
          ∃ p, p.locate σ.tree.here = l ∧ σ.tree.isFile p = true ∧ s.isGenerated p = true ∧
            ∃ entry ∈ c.records, p ∈ entry.2.outputs ∧ (fs.get? entry.1 = none ∨
              ∃ f ∈ fs.files, f.identity = entry.1 ∧ ∀ o ∈ f.outputs, p.sameAs o = false)) ∧
    ∀ before entry outputs after, c.dues fs = before ++ (entry, outputs) :: after →
      (∃ p ∈ outputs, s.isGenerated p = false) →
      ∃ σ₁, σ'.tree = σ₁.tree ∧
        ((settle s before).runOn σ = (.ok (), σ₁) ∧
          (∃ p ∈ outputs, s.isGenerated p = false ∧
            result = .error (.unknownOutputExtension p)) ∨
        ∃ e, (settle s before).runOn σ = (.error e, σ₁) ∧ result = .error e ∧
          DeletionFault e) := by
  constructor
  · obtain ⟨hdeletes, hclock⟩ := diff_disposes c s fs graph σ
    rw [h] at hdeletes hclock
    refine ⟨hdeletes.here, hclock, fun l => ?_⟩
    cases hafter : σ'.tree.at? l with
    | some e => exact .inl (hdeletes.old l e hafter).symm
    | none =>
      cases hbefore : σ.tree.at? l with
      | none => exact .inl rfl
      | some e =>
        cases e with
        | folder =>
          rw [hdeletes.folders l hbefore] at hafter
          cases hafter
        | file content modified =>
          refine .inr ⟨rfl, ⟨content, modified, rfl⟩, ?_⟩
          by_contra hnone
          -- otherwise no disposable path leads here and the file has stayed
          have hkept := (hdeletes.files l (fun p hp hl => hnone ?_) content modified).2 hbefore
          · rw [hafter] at hkept
            cases hkept
          · obtain ⟨⟨hgenerated, hentry⟩, hfile⟩ := hp
            exact ⟨p, hl, hfile, hgenerated, hentry⟩
  · intro before entry outputs after hdues hforeign
    obtain ⟨hanswer, htree⟩ := diff_matches_settle c s fs graph σ σ rfl
    obtain ⟨r, σ₁, hbefore, p, hp, hforeign, hsettle⟩ :=
      settle_refuses before after entry hforeign σ
    rw [h, hdues, hsettle] at hanswer htree
    refine ⟨σ₁, htree, ?_⟩
    cases r with
    | ok _ =>
      refine .inl ⟨hbefore, p, hp, hforeign, ?_⟩
      cases hanswer
      rfl
    | error e =>
      refine .inr ⟨e, hbefore, ?_, failsBy_settle s before _ _ _ hbefore⟩
      cases hanswer
      rfl

/-! ## A cache with a foreign file -/

namespace Relics

/-- A file of its own content for each of some names. -/
def tree : FileTree :=
  ["a.generated.h", "b.generated.h", "notes.txt"].foldl
    (fun t name => t.put [name] (.file [] ⟨1, 0⟩)) (FileTree.empty [] ⟨0, 0⟩)

def record (identity : UInt32) (outputs : List String) : UInt32 × CacheRecord :=
  (identity,
    { identity
      path := ⟨"gone"⟩
      modified := ⟨0, 0⟩
      didCompile := true
      outputs := outputs.map Path.mk })

/-- Of two entries without a file, the second lists a file that is none of the generated. -/
def cache : BuildCache where
  records := [record 1 ["a.generated.h"], record 2 ["b.generated.h", "notes.txt"]]
  ordered := by decide

def settings : Settings := .defaults ⟨"p"⟩ 1

/-- The graph without files. -/
def graph : IncludeGraph ({} : FileSet).size := { direct := fun _ => [], closure := fun _ => [] }

/-- A comparison with no file at all. -/
def outcome : Except Error (Bool × FileSet) × Session :=
  (cache.diff settings {} graph).runOn { tree }

theorem outcome_facts :
    cache.dues {} = [(record 1 ["a.generated.h"], [⟨"a.generated.h"⟩]),
      (record 2 ["b.generated.h", "notes.txt"], [⟨"b.generated.h"⟩, ⟨"notes.txt"⟩])] ∧
    settings.isGenerated ⟨"notes.txt"⟩ = false ∧
    ((settle settings [(record 1 ["a.generated.h"], [⟨"a.generated.h"⟩])]).runOn { tree }).1.isOk
      = true ∧
    (tree.at? ["a.generated.h"]).isSome = true ∧
    (outcome.2.tree.at? ["a.generated.h"]).isSome = false ∧
    (outcome.2.tree.at? ["b.generated.h"]).isSome = true := by
  decide +kernel

end Relics

/-- The first entry is worked off; of the second neither file is deleted. -/
theorem diff_refuses_notes :
    (∃ p ∈ [Path.mk "b.generated.h", ⟨"notes.txt"⟩], Relics.settings.isGenerated p = false ∧
      Relics.outcome.1 = .error (.unknownOutputExtension p)) ∧
    (Relics.outcome.2.tree.at? ["b.generated.h"]).isSome = true ∧
    (Relics.tree.at? ["a.generated.h"]).isSome = true ∧
    Relics.outcome.2.tree.at? ["a.generated.h"] = none ∧
    ∃ p, p.locate Relics.tree.here = ["a.generated.h"] ∧ Relics.settings.isGenerated p = true ∧
      ∃ entry ∈ Relics.cache.records, p ∈ entry.2.outputs := by
  obtain ⟨hdues, hnotes, hsettle, hthere, hgone, hkept⟩ := Relics.outcome_facts
  have hrun : (Relics.cache.diff Relics.settings {} Relics.graph).runOn { tree := Relics.tree }
      = (Relics.outcome.1, Relics.outcome.2) := rfl
  obtain ⟨⟨-, -, hframe⟩, hrefuse⟩ := diff_deletes_only_artifacts hrun
  refine ⟨?_, hkept, hthere, by simpa using hgone, ?_⟩
  · obtain ⟨σ₁, -, ⟨-, hresult⟩ | ⟨e, herror, -⟩⟩ :=
      hrefuse [_] _ _ [] hdues ⟨_, List.mem_cons_of_mem _ List.mem_cons_self, hnotes⟩
    · exact hresult
    · rw [herror] at hsettle
      cases hsettle
  · rcases hframe ["a.generated.h"] with hsame | ⟨-, -, p, hp, -, hgenerated, entry, hentry, ho, -⟩
    · rw [hsame, hthere] at hgone
      cases hgone
    · exact ⟨p, hp, hgenerated, entry, hentry, ho⟩

end ShaderBuild.BuildCache
