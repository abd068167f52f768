import ShaderBuild.Proofs.Cache.Diff
import ShaderBuild.Proofs.Cache.Record
import ShaderBuild.Proofs.FileTree.Change

/-!
# What a comparison with the cache deletes

A comparison changes nothing but recorded outputs that nothing produces any more (`Doomed`): those
of removed files, and those that their file no longer has. Whether it ends well or not, it deletes
no other file (`diff_deletes`).
-/

namespace ShaderBuild.BuildCache

open Action FileTree

variable {c : BuildCache} {s : Settings} {fs : FileSet} {S : Path → Prop}

/-- A path is a recorded output that the files of a set do not account for. -/
def Doomed (c : BuildCache) (fs : FileSet) (o : Path) : Prop :=
  (∃ entry ∈ c.records, fs.get? entry.1 = none ∧ o ∈ entry.2.outputs) ∨
    ∃ f ∈ fs.files, o ∈ c.orphansOf f

theorem deletes_trans (t u v : FileTree) (h : Deletes S t u) (h' : Deletes S u v) :
    Deletes S t v := h.trans h'

/-- Deleting outputs deletes nothing else. -/
theorem deleteOutputs_deletes {outputs : List Path} (h : ∀ o ∈ outputs, S o) :
    Moves (Deletes S) (deleteOutputs s outputs) := by
  unfold deleteOutputs
  split
  · exact (looks_throw _).moves (Deletes.refl S)
  · refine moves_forM (Deletes.refl S) deletes_trans fun o ho => moves_deleteAt fun t => ?_
    refine (deletes_removeFile t o).mono fun p hp => ?_
    rw [hp]
    exact h o ho

theorem deleteRemoved_deletes {records : List (UInt32 × CacheRecord)}
    (h : ∀ entry ∈ records, fs.get? entry.1 = none → ∀ o ∈ entry.2.outputs, S o) :
    Moves (Deletes S) (deleteRemoved s fs records) := by
  induction records with
  | nil => exact (looks_pure false).moves (Deletes.refl S)
  | cons entry rest ih =>
    obtain ⟨key, r⟩ := entry
    have hrest := ih fun e he => h e (List.mem_cons_of_mem _ he)
    rw [deleteRemoved]
    cases hkey : fs.get? key with
    | some f => exact hrest
    | none =>
      refine ((looks_tell _).moves (Deletes.refl S)).bind deletes_trans fun _ => ?_
      refine (deleteOutputs_deletes (h (key, r) List.mem_cons_self hkey)).bind deletes_trans
        fun _ => ?_
      exact hrest.bind deletes_trans fun _ => (looks_pure true).moves (Deletes.refl S)

/-- Telling that a file is stale only looks. -/
theorem looks_verdict (f : SourceFile) (x : Bool × Option StaleReason) : Looks (do
    let (orphaned, reason) := x
    match reason with
    | none => return (orphaned, false)
    | some reason =>
      Action.tell (.stale f.path reason)
      return (orphaned, true)) := by
  obtain ⟨orphaned, _ | reason⟩ := x
  · exact looks_pure _
  · exact (looks_tell _).bind fun _ => looks_pure _

theorem examine_deletes {f : SourceFile} (h : ∀ o ∈ c.orphansOf f, S o) :
    Moves (Deletes S) (examine c s f) := by
  unfold examine
  unfold orphansOf at h
  cases hr : c.get? f.identity with
  | none => exact ((looks_pure _).bind (looks_verdict f)).moves (Deletes.refl S)
  | some r =>
    rw [hr] at h
    refine (deleteOutputs_deletes h).bind deletes_trans fun _ => ?_
    exact (looks_tree.bind fun _ => (looks_pure _).bind (looks_verdict f)).moves (Deletes.refl S)

theorem looks_decide {graph : IncludeGraph fs.size} {stale : Fin fs.size → Bool}
    {i : Fin fs.size} : Looks (decide graph stale i) := by
  intro σ
  obtain ⟨log, hlog⟩ := decide_runOn graph stale i σ
  obtain ⟨log', hlog'⟩ := decide_runOn graph stale i { tree := σ.tree }
  exact ⟨log, by rw [hlog, hlog']⟩

/-- **A comparison deletes only outputs that nothing accounts for.** -/
theorem diff_deletes (c : BuildCache) (s : Settings) (fs : FileSet) (graph : IncludeGraph fs.size) :
    Moves (Deletes (c.Doomed fs)) (c.diff s fs graph) := by
  unfold diff
  have hremoved : Moves (Deletes (c.Doomed fs)) (deleteRemoved s fs c.records) :=
    deleteRemoved_deletes fun entry hentry hnone o ho => .inl ⟨entry, hentry, hnone, ho⟩
  have hexamined : Moves (Deletes (c.Doomed fs)) (fs.files.mapM (examine c s)) :=
    moves_mapM (Deletes.refl _) deletes_trans fun f hf =>
      examine_deletes fun o ho => .inr ⟨f, hf, ho⟩
  refine hremoved.bind deletes_trans fun removed => hexamined.bind deletes_trans fun examined => ?_
  refine Moves.bind deletes_trans ?_ fun compile => (looks_pure _).moves (Deletes.refl _)
  exact moves_mapM (Deletes.refl _) deletes_trans fun i _ => looks_decide.moves (Deletes.refl _)

/-- At the moment when a file is examined, only such outputs are deleted. -/
theorem sessionAt_deletes (c : BuildCache) (s : Settings) (fs : FileSet) (σ : Session) (i : Nat) :
    Deletes (c.Doomed fs) σ.tree (c.sessionAt s fs σ i).tree := by
  have hmoves : Moves (Deletes (c.Doomed fs)) (do
      let _ ← deleteRemoved s fs c.records
      let _ ← (fs.files.take i).mapM (examine c s)
      deleteOutputs s (((fs.files[i]?).map c.orphansOf).getD [])) := by
    refine Moves.bind deletes_trans ?_ fun _ => Moves.bind deletes_trans ?_ fun _ => ?_
    · exact deleteRemoved_deletes fun entry hentry hnone o ho => .inl ⟨entry, hentry, hnone, ho⟩
    · exact moves_mapM (Deletes.refl _) deletes_trans fun f hf =>
        examine_deletes fun o ho => .inr ⟨f, List.mem_of_mem_take hf, ho⟩
    · refine deleteOutputs_deletes fun o ho => ?_
      cases hf : fs.files[i]? with
      | none =>
        rw [hf] at ho
        cases ho
      | some f =>
        rw [hf] at ho
        exact .inr ⟨f, List.mem_of_getElem? hf, ho⟩
  exact hmoves σ

/-- Only recorded outputs are doomed. -/
theorem Doomed.recorded {o : Path} (h : c.Doomed fs o) :
    ∃ entry ∈ c.records, o ∈ entry.2.outputs := by
  rcases h with ⟨entry, hentry, -, ho⟩ | ⟨f, -, ho⟩
  · exact ⟨entry, hentry, ho⟩
  · unfold orphansOf at ho
    split at ho
    · cases ho
    · next r hr =>
      exact ⟨(f.identity, r), get?_eq_some_iff.1 hr, (List.mem_filter.1 ho).1⟩

/-! ## What is gone behind it -/

variable {o : Path} {σ σ' : Session}

theorem file?_deleteAt (h : (deleteAt o (·.removeFile o)).runOn σ = (.ok (), σ'))
    (hgoal : σ.tree.goal o = .ok ⟨o.locate σ.tree.here, .name⟩) : σ'.tree.file? o = none := by
  obtain ⟨htree, hremoved⟩ := deleteAt_ok h
  rw [htree]
  exact file?_removeFile hgoal hremoved

/-- Deleted outputs are gone. -/
theorem file?_deleteOutputs {outputs : List Path}
    (h : (deleteOutputs s outputs).runOn σ = (.ok (), σ')) (ho : o ∈ outputs)
    (hgoal : σ.tree.goal o = .ok ⟨o.locate σ.tree.here, .name⟩) : σ'.tree.file? o = none := by
  unfold deleteOutputs at h
  split at h
  · rw [runOn_throw] at h
    cases h
  · obtain ⟨σ₁, σ₂, hbefore, hrun, hafter⟩ := runOn_forM_mem (R := Deletes fun _ => True)
      (Deletes.refl _) deletes_trans
      (fun o _ => moves_deleteAt fun t => (deletes_removeFile t o).mono fun _ _ => trivial) h ho
    refine hafter.file?_eq_none (file?_deleteAt hrun ?_)
    rw [hbefore.here]
    exact hbefore.goal hgoal

theorem file?_deleteRemoved {records : List (UInt32 × CacheRecord)} {removed : Bool}
    (h : (deleteRemoved s fs records).runOn σ = (.ok removed, σ'))
    {entry : UInt32 × CacheRecord} (hentry : entry ∈ records) (hnone : fs.get? entry.1 = none)
    (ho : o ∈ entry.2.outputs) (hgoal : σ.tree.goal o = .ok ⟨o.locate σ.tree.here, .name⟩) :
    σ'.tree.file? o = none := by
  induction records generalizing σ removed with
  | nil => cases hentry
  | cons first rest ih =>
    obtain ⟨key, r⟩ := first
    rw [deleteRemoved] at h
    cases hkey : fs.get? key with
    | some f =>
      rw [hkey] at h
      rcases List.mem_cons.1 hentry with rfl | hentry
      · rw [hkey] at hnone
        cases hnone
      · exact ih h hentry hgoal
    | none =>
      simp only [hkey, Option.isSome_none, Bool.false_eq_true, if_false] at h
      obtain ⟨_, σ₁, htell, h⟩ := runOn_bind_ok_iff.1 h
      obtain ⟨-, htree, -⟩ := (looks_tell _).answer_of_runOn htell
      rw [← htree] at hgoal
      obtain ⟨_, σ₂, hdelete, h⟩ := runOn_bind_ok_iff.1 h
      obtain ⟨_, σ₃, hrest, h⟩ := runOn_bind_ok_iff.1 h
      cases h
      have hfirst : Deletes (fun _ => True) σ₁.tree σ₂.tree :=
        (deleteOutputs_deletes (S := fun _ => True) fun _ _ => trivial).of_runOn hdelete
      have hlater : Deletes (fun _ => True) σ₂.tree σ'.tree :=
        (deleteRemoved_deletes (S := fun _ => True) fun _ _ _ _ _ => trivial).of_runOn
          hrest
      rcases List.mem_cons.1 hentry with rfl | hentry
      · exact hlater.file?_eq_none (file?_deleteOutputs hdelete ho hgoal)
      · refine ih hrest hentry ?_
        rw [hfirst.here]
        exact hfirst.goal hgoal

/-- **Behind a comparison that ends well, the outputs that nothing accounts for are gone.** -/
theorem diff_deleted {graph : IncludeGraph fs.size} {answer : Bool × FileSet}
    (h : (c.diff s fs graph).runOn σ = (.ok answer, σ')) (hdoomed : c.Doomed fs o)
    (hgoal : σ.tree.goal o = .ok ⟨o.locate σ.tree.here, .name⟩) : σ'.tree.file? o = none := by
  obtain ⟨changed, fs'⟩ := answer
  obtain ⟨removed, examined, σ₁, σ₂, hremoved, hexamined, htree, -, -, -⟩ := diff_phases h
  have hfirst : Deletes (fun _ => True) σ.tree σ₁.tree :=
    (deleteRemoved_deletes (S := fun _ => True) fun _ _ _ _ _ => trivial).of_runOn hremoved
  have hall : ∀ f ∈ fs.files, Moves (Deletes fun _ => True) (examine c s f) :=
    fun f _ => examine_deletes fun _ _ => trivial
  have hlater : Deletes (fun _ => True) σ₁.tree σ₂.tree :=
    (moves_mapM (Deletes.refl _) deletes_trans hall).of_runOn hexamined
  rw [FileTree.file?, htree]
  rcases hdoomed with ⟨entry, hentry, hnone, ho⟩ | ⟨f, hf, ho⟩
  · exact hlater.file?_eq_none (file?_deleteRemoved hremoved hentry hnone ho hgoal)
  · obtain ⟨answer, σ₃, σ₄, hbefore, hrun, hafter⟩ :=
      runOn_mapM_mem (Deletes.refl _) deletes_trans hall hexamined hf
    obtain ⟨σ₅, hdelete, htree', -⟩ := examine_ok hrun
    refine hafter.file?_eq_none ?_
    rw [FileTree.file?, htree']
    refine file?_deleteOutputs hdelete ho ?_
    have hmoved := hfirst.trans hbefore
    rw [hmoved.here]
    exact hmoved.goal hgoal

end ShaderBuild.BuildCache
