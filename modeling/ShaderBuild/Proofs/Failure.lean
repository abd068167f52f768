import ShaderBuild.Proofs.Action

/-!
# How actions end early

An action *fails by* errors of a kind (`FailsBy`) when every error it ends with is of that kind.
A sequence does when its parts do, and a step on the file tree fails by faults of the tree alone.
-/

namespace ShaderBuild.Action

variable {α β : Type} {E : Error → Prop}

/-- Every error that the action ends with is of the kind. -/
def FailsBy (E : Error → Prop) (a : Action α) : Prop :=
  ∀ σ σ' e, a.runOn σ = (.error e, σ') → E e

theorem failsBy_pure (a : α) : FailsBy E (pure a : Action α) := fun _ _ _ h => by cases h

theorem failsBy_throw {e : Error} (h : E e) : FailsBy E (throw e : Action α) := by
  intro σ σ' e' hrun
  cases hrun
  exact h

theorem failsBy_tell (n : Notice) : FailsBy E (tell n) := fun _ _ _ h => by cases h

theorem failsBy_tree : FailsBy E tree := fun _ _ _ h => by cases h

theorem failsBy_look {p : Path} (h : ∀ fault, E (.io p fault))
    (f : FileTree → Except IoFault α) : FailsBy E (look p f) := by
  intro σ σ' e hrun
  rw [runOn_look] at hrun
  obtain ⟨hanswer, -⟩ := Prod.mk.inj hrun
  cases hf : f σ.tree with
  | error fault =>
    rw [hf] at hanswer
    cases hanswer
    exact h fault
  | ok a =>
    rw [hf] at hanswer
    cases hanswer

theorem failsBy_changeAt {p : Path} (h : ∀ fault, E (.io p fault))
    (f : FileTree → FileTree.Change) : FailsBy E (changeAt p f) := by
  intro σ σ' e hrun
  obtain ⟨-, ⟨hok, -⟩ | ⟨fault, herror, -⟩⟩ := changeAt_cases hrun
  · cases hok
  · cases herror
    exact h fault

theorem FailsBy.bind {a : Action α} {f : α → Action β} (ha : FailsBy E a)
    (hf : ∀ x, FailsBy E (f x)) : FailsBy E (a >>= f) := by
  intro σ σ' e hrun
  rcases runOn_bind_error_iff.1 hrun with hrun | ⟨x, σ₁, -, hrun⟩
  · exact ha σ σ' e hrun
  · exact hf x σ₁ σ' e hrun

theorem failsBy_deleteAt {p : Path} (h : ∀ fault, E (.io p fault))
    (f : FileTree → FileTree.Change) : FailsBy E (deleteAt p f) := by
  refine FailsBy.bind (fun _ _ _ h => by cases h) fun r => ?_
  split
  · exact failsBy_tell _
  · exact failsBy_pure ()
  · exact failsBy_throw (h _)

theorem failsBy_forM {f : α → Action Unit} {l : List α} (h : ∀ a ∈ l, FailsBy E (f a)) :
    FailsBy E (l.forM f) := by
  induction l with
  | nil => exact failsBy_pure ()
  | cons a l ih =>
    show FailsBy E (f a >>= fun _ => l.forM f)
    exact (h a List.mem_cons_self).bind fun _ => ih fun b hb => h b (List.mem_cons_of_mem _ hb)

end ShaderBuild.Action
