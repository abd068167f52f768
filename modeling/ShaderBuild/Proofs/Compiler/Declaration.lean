import ShaderBuild.Proofs.Compiler.Law
import ShaderBuild.Proofs.Target.Registration

/-!
# Compilers that declare byte arrays

Of a compiler nothing is assumed but that a job that succeeds writes a file to its output, whose
text declares a byte array with the name of the directive (`Compiler.Declares`). Jobs that all
succeed then make no folders and take none away, every output can be written from the start, and a
file that is new behind them declares the array of one of them (`declared_of_run`).
-/

namespace ShaderBuild

open Action FileTree

/-- A job that succeeds has written to its output a text that declares a byte array, named after
its directive, and nothing else. -/
def Compiler.Declares (compiler : Compiler) : Prop :=
  ∀ job o t, job.output = some o → (compiler job t).failure = none →
    ∃ text, Target.Declares job.directive.name.toList text ∧
      t.writeText o text = (.ok (), (compiler job t).tree)

/-- What a row of jobs leaves behind that have all succeeded. -/
structure Declared (jobs : List Job) (t u : FileTree) : Prop where
  here : u.here = t.here
  folders : ∀ l, u.at? l = some .folder ↔ t.at? l = some .folder
  kept : ∀ l content modified, t.at? l = some (.file content modified) →
    ∃ content' modified', u.at? l = some (.file content' modified')
  goal : ∀ job ∈ jobs, ∀ o, job.output = some o → t.goal o = .ok ⟨o.locate t.here, .name⟩
  file : ∀ job ∈ jobs, ∀ o, job.output = some o →
    ∃ content modified, u.at? (o.locate t.here) = some (.file content modified)
  written : ∀ l content modified, u.at? l = some (.file content modified) →
    t.at? l = some (.file content modified) ∨ ∃ job ∈ jobs, ∃ o text, job.output = some o ∧
      o.locate t.here = l ∧ content = Text.encode text ∧
      Target.Declares job.directive.name.toList text

variable {compiler : Compiler} {job : Job} {jobs : List Job} {o : Path} {t u v : FileTree}

namespace Declared

theorem nil (t : FileTree) : Declared [] t t where
  here := rfl
  folders _ := .rfl
  kept _ content modified h := ⟨content, modified, h⟩
  goal _ h := by cases h
  file _ h := by cases h
  written _ _ _ h := .inl h

/-- A text that is written to an output. -/
theorem of_write {text : List Char} (ho : job.output = some o)
    (hdeclares : Target.Declares job.directive.name.toList text)
    (hwrite : t.writeText o text = (.ok (), u)) : Declared [job] t u := by
  have hok : (t.write o (Text.encode text)).1 = .ok () := congrArg Prod.fst hwrite
  have hu : (t.write o (Text.encode text)).2 = u := congrArg Prod.snd hwrite
  obtain ⟨hgoal, hfree⟩ := goal_of_write hok
  have hat := at?_write hok
  rw [hu] at hat
  refine ⟨?_, fun l => ?_, fun l content modified h => ?_, ?_, ?_, fun l content modified h => ?_⟩
  · rw [← hu]
    exact (altersOnly_write t o _).here
  · rw [hat]
    split
    · rename_i hl
      rw [hl]
      exact iff_of_false (by simp) hfree
    · rfl
  · rw [hat]
    split
    · exact ⟨_, _, rfl⟩
    · exact ⟨content, modified, h⟩
  · intro k hk p hp
    obtain rfl := List.mem_singleton.1 hk
    cases ho.symm.trans hp
    exact hgoal
  · intro k hk p hp
    obtain rfl := List.mem_singleton.1 hk
    cases ho.symm.trans hp
    exact ⟨_, _, by rw [hat, if_pos rfl]⟩
  · rw [hat] at h
    split at h
    · rename_i hl
      cases h
      exact .inr ⟨job, List.mem_singleton_self job, o, text, ho, hl.symm, rfl, hdeclares⟩
    · exact .inl h

/-- One row of jobs behind another one. -/
theorem append {jobs' : List Job} (h : Declared jobs t u) (h' : Declared jobs' u v) :
    Declared (jobs ++ jobs') t v where
  here := h'.here.trans h.here
  folders l := (h'.folders l).trans (h.folders l)
  kept l content modified hl := by
    obtain ⟨content', modified', hl'⟩ := h.kept l content modified hl
    exact h'.kept l content' modified' hl'
  goal k hk p hp := by
    rcases List.mem_append.1 hk with hk | hk
    · exact h.goal k hk p hp
    · have hgoal := goal_of_folders h.here.symm (fun l => (h.folders l).1) (h'.goal k hk p hp)
      rwa [h.here] at hgoal
  file k hk p hp := by
    rcases List.mem_append.1 hk with hk | hk
    · obtain ⟨content, modified, hfile⟩ := h.file k hk p hp
      exact h'.kept _ content modified hfile
    · rw [← h.here]
      exact h'.file k hk p hp
  written l content modified hl := by
    rcases h'.written l content modified hl with hl | ⟨k, hk, p, text, hp, hlocate, hwritten⟩
    · rcases h.written l content modified hl with hl | ⟨k, hk, hwritten⟩
      · exact .inl hl
      · exact .inr ⟨k, List.mem_append_left _ hk, hwritten⟩
    · rw [h.here] at hlocate
      exact .inr ⟨k, List.mem_append_right _ hk, p, text, hp, hlocate, hwritten⟩

end Declared

/-- **Jobs that all succeed** leave the arrays of their directives behind. -/
theorem declared_of_run (h : compiler.Declares) (houtput : ∀ job ∈ jobs, job.output.isSome)
    {results : List (Option CompileFailure)} {σ σ' : Session}
    (hrun : (jobs.mapM (compile compiler)).runOn σ = (.ok results, σ'))
    (hclean : results.filterMap id = []) : Declared jobs σ.tree σ'.tree := by
  induction jobs generalizing σ results with
  | nil =>
    cases hrun
    exact .nil _
  | cons job jobs ih =>
    obtain ⟨o, ho⟩ := Option.isSome_iff_exists.1 (houtput job List.mem_cons_self)
    rw [List.mapM_cons] at hrun
    obtain ⟨result, σ₁, hfirst, hrun⟩ := runOn_bind_ok_iff.1 hrun
    obtain ⟨more, σ₂, hrest, hrun⟩ := runOn_bind_ok_iff.1 hrun
    cases hrun
    obtain ⟨σ₃, hcompile, htree, -⟩ := runOn_compile compiler job σ
    rw [hcompile] at hfirst
    cases hfirst
    cases hresult : (compiler job σ.tree).failure with
    | some failure => simp [hresult] at hclean
    | none =>
      obtain ⟨text, hdeclares, hwrite⟩ := h job o σ.tree ho hresult
      rw [← htree] at hwrite
      have hmore : more.filterMap id = [] := by simpa [hresult] using hclean
      exact (Declared.of_write ho hdeclares hwrite).append
        (ih (fun k hk => houtput k (List.mem_cons_of_mem _ hk)) hrest hmore)

end ShaderBuild
