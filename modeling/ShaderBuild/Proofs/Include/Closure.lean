import Mathlib.Logic.Relation
import ShaderBuild.Include.Graph

/-!
# The closure of an include graph

The closure of a file holds exactly the files that it reaches over one or more include edges:
`mem_closure_iff`. The closures that are finished at some point of the walk are already right
(`Known.Exact`), whatever was visited before, so merging those of the included files is enough.
-/

namespace ShaderBuild.Include

variable {n : Nat} {edges : Edges n}

/-- One file includes another one, directly or not. -/
def Reaches (edges : Edges n) : Fin n → Fin n → Prop :=
  Relation.TransGen fun i j => j ∈ edges i

/-- What a file reaches, it reaches over one of the files it includes directly. -/
theorem reaches_iff_head {i k : Fin n} :
    Reaches edges i k ↔ ∃ j ∈ edges i, k = j ∨ Reaches edges j k := by
  constructor
  · intro h
    obtain ⟨j, hj, hjk⟩ := Relation.TransGen.head'_iff.1 h
    rcases Relation.reflTransGen_iff_eq_or_transGen.1 hjk with rfl | hjk
    · exact ⟨k, hj, .inl rfl⟩
    · exact ⟨j, hj, .inr hjk⟩
  · rintro ⟨j, hj, rfl | hjk⟩
    · exact .single hj
    · exact .head hj hjk

/-! ## What is finished -/

/-- The finished closures are the right ones. -/
def Known.Exact (edges : Edges n) (known : Known n) : Prop :=
  ∀ (i : Fin n) (closure : List (Fin n)), known.closure? i = some closure →
    ∀ j, j ∈ closure ↔ Reaches edges i j

/-- What is finished stays as it is. -/
def Known.Extends (known later : Known n) : Prop :=
  ∀ (i : Fin n) (closure : List (Fin n)), known.closure? i = some closure →
    later.closure? i = some closure

theorem Known.extends_refl (known : Known n) : Known.Extends known known := fun _ _ h => h

theorem Known.Extends.trans {k₁ k₂ k₃ : Known n} (h : Known.Extends k₁ k₂)
    (h' : Known.Extends k₂ k₃) : Known.Extends k₁ k₃ :=
  fun i c hc => h' i c (h i c hc)

/-- Finishing one more file with the right closure leaves every closure right. -/
theorem Known.Exact.set {known : Known n} (h : Known.Exact edges known) {i : Fin n}
    {closure : List (Fin n)} (hi : ∀ j, j ∈ closure ↔ Reaches edges i j) :
    Known.Exact edges (known.finish i closure) := by
  intro k c hk
  rw [Known.closure?_finish] at hk
  split at hk
  · next heq =>
    cases hk
    rwa [← heq]
  · exact h k c hk

theorem mem_merge {seen js : List (Fin n)} {k : Fin n} :
    k ∈ merge seen js ↔ k ∈ seen ∨ k ∈ js := by
  induction js generalizing seen with
  | nil => simp [merge]
  | cons j js ih =>
    rw [merge, ih]
    by_cases hj : j ∈ seen
    · rw [if_pos hj, List.mem_cons]
      constructor
      · rintro (h | h)
        · exact .inl h
        · exact .inr (.inr h)
      · rintro (h | rfl | h)
        · exact .inl h
        · exact .inl hj
        · exact .inr h
    · rw [if_neg hj, List.mem_append, List.mem_singleton, List.mem_cons, or_assoc]

/-! ## Visits -/

/-- A row of visits begins with the first. -/
theorem visitAll_cons_ok {visit : Known n → Fin n → Except (List (Fin n)) (Known n)}
    {known later : Known n} {reached reached' js : List (Fin n)} {j : Fin n} :
    visitAll visit known reached (j :: js) = .ok (later, reached') ↔ ∃ mid,
      visit known j = .ok mid ∧
      visitAll visit mid (merge reached (j :: (mid.closure? j).getD [])) js
        = .ok (later, reached') := by
  rw [visitAll]
  cases visit known j with
  | error c => simp
  | ok mid => simp

/-- A visit finds the file finished, or finishes it behind the files that it includes. -/
theorem visit_cases {trail : List (Fin n)} {known later : Known n} {i : Fin n}
    (h : visit edges trail known i = .ok later) :
    (known.closure? i).isSome ∧ later = known ∨
      known.closure? i = none ∧ i ∉ trail ∧ ∃ mid closure,
        visitAll (visit edges (trail ++ [i])) known [] (edges i) = .ok (mid, closure) ∧
        later = mid.finish i closure := by
  rw [visit] at h
  split at h
  · next closure hi =>
    cases h
    exact .inl ⟨by rw [hi]; rfl, rfl⟩
  · next hi =>
    split at h
    · cases h
    · next htrail =>
      split at h
      · cases h
      · next mid closure hall =>
        cases h
        exact .inr ⟨hi, htrail, mid, closure, hall, rfl⟩

/-- A visit leaves what is finished, finishes nothing wrong, and finishes the visited file. -/
def Finishes (edges : Edges n) (known later : Known n) (i : Fin n) : Prop :=
  Known.Extends known later ∧ Known.Exact edges later ∧ (later.closure? i).isSome

/-- Visiting a row of files finishes all of them and adds what they reach. -/
theorem visitAll_ok {visit : Known n → Fin n → Except (List (Fin n)) (Known n)}
    {known later : Known n} {reached reached' js : List (Fin n)}
    (hvisit : ∀ known later j, Known.Exact edges known → visit known j = .ok later →
      Finishes edges known later j)
    (hknown : Known.Exact edges known)
    (h : visitAll visit known reached js = .ok (later, reached')) :
    Known.Extends known later ∧ Known.Exact edges later ∧ (∀ j ∈ js, (later.closure? j).isSome) ∧
      ∀ k, k ∈ reached' ↔ k ∈ reached ∨ ∃ j ∈ js, k = j ∨ Reaches edges j k := by
  induction js generalizing known reached with
  | nil =>
    rw [visitAll] at h
    cases h
    exact ⟨Known.extends_refl _, hknown, by simp, by simp⟩
  | cons j js ih =>
    obtain ⟨mid, hmid, hrest⟩ := visitAll_cons_ok.1 h
    obtain ⟨hext, hexact, hj⟩ := hvisit known mid j hknown hmid
    obtain ⟨closure, hclosure⟩ := Option.isSome_iff_exists.1 hj
    obtain ⟨hext', hexact', hjs, hreached⟩ := ih hexact hrest
    refine ⟨hext.trans hext', hexact', ?_, ?_⟩
    · intro k hk
      rcases List.mem_cons.1 hk with rfl | hk
      · rw [hext' _ _ hclosure]
        rfl
      · exact hjs k hk
    · intro k
      have hmem : k ∈ j :: closure ↔ k = j ∨ Reaches edges j k := by
        rw [List.mem_cons, hexact j closure hclosure]
      rw [hreached, mem_merge, hclosure, Option.getD_some, hmem, or_assoc]
      simp only [List.mem_cons, exists_eq_or_imp]

theorem visit_ok {trail : List (Fin n)} {known later : Known n} {i : Fin n}
    (hknown : Known.Exact edges known) (h : visit edges trail known i = .ok later) :
    Finishes edges known later i := by
  rcases visit_cases h with ⟨hi, rfl⟩ | ⟨hi, htrail, mid, closure, hall, rfl⟩
  · exact ⟨Known.extends_refl _, hknown, hi⟩
  · obtain ⟨hext, hexact, -, hclosure⟩ := visitAll_ok
      (fun known later j hknown hj => visit_ok hknown hj) hknown hall
    refine ⟨?_, hexact.set fun k => ?_, ?_⟩
    · intro k c hk
      have hne : i ≠ k := by
        rintro rfl
        rw [hi] at hk
        cases hk
      rw [Known.closure?_finish_of_ne _ hne]
      exact hext k c hk
    · rw [hclosure, reaches_iff_head]
      simp
    · simp
termination_by unvisited trail
decreasing_by exact unvisited_lt htrail

end ShaderBuild.Include

namespace ShaderBuild.IncludeGraph

open Include

variable {n : Nat} {edges : Edges n} {g : IncludeGraph n}

/-- How a graph comes about: all files are visited, starting with nothing finished. -/
theorem ofEdges_ok (h : ofEdges edges = .ok g) : ∃ known reached,
    visitAll (visit edges []) (.empty n) [] (List.finRange n)
      = .ok (known, reached) ∧
    g = { direct := edges, closure := fun i => (known.closure? i).getD [] } := by
  unfold ofEdges at h
  cases hall : visitAll (visit edges []) (.empty n) [] (List.finRange n) with
  | error c =>
    rw [hall] at h
    cases h
  | ok r =>
    rw [hall] at h
    cases h
    exact ⟨r.1, r.2, rfl, rfl⟩

theorem direct_ofEdges (h : ofEdges edges = .ok g) : g.direct = edges := by
  obtain ⟨known, reached, -, rfl⟩ := ofEdges_ok h
  rfl

/-- The closure of a file holds what the file reaches. -/
theorem mem_closure_iff (h : ofEdges edges = .ok g) {i j : Fin n} :
    j ∈ g.closure i ↔ Reaches g.direct i j := by
  obtain ⟨known, reached, hall, rfl⟩ := ofEdges_ok h
  have hnone : Known.Exact edges (.empty n) := by
    intro i c hc
    simp at hc
  obtain ⟨-, hexact, hsome, -⟩ := visitAll_ok (fun _ _ _ => visit_ok) hnone hall
  obtain ⟨closure, hclosure⟩ := Option.isSome_iff_exists.1 (hsome i (List.mem_finRange i))
  show j ∈ (known.closure? i).getD [] ↔ _
  rw [hclosure, Option.getD_some]
  exact hexact i closure hclosure j

end ShaderBuild.IncludeGraph
