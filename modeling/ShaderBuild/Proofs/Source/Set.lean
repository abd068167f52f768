import Mathlib.Data.List.Nodup
import Mathlib.Data.List.Pairwise
import ShaderBuild.Source.Set

/-!
# Sets of shader files

A file gets into a set exactly when it shares no identity and no output with a file that is there
(`insert_ok_iff`), so all files of a set are apart (`Apart`), and an identity finds the one file
that has it (`get?_eq_some_iff`).
-/

namespace ShaderBuild.FileSet

variable {fs fs' : FileSet} {f : SourceFile} {identity : UInt32}

/-! ## Looking up -/

theorem index?_eq_some {i : Fin fs.size} (h : fs.index? identity = some i) :
    (fs.get i).identity = identity := by
  unfold index? at h
  have hi := (List.findFinIdx?_eq_some_iff.1 h).1
  exact eq_of_beq hi

theorem index?_eq_none_iff :
    fs.index? identity = none ↔ ∀ f ∈ fs.files, f.identity ≠ identity := by
  refine List.findFinIdx?_eq_none_iff.trans ?_
  simp

theorem get?_eq_none_iff : fs.get? identity = none ↔ ∀ f ∈ fs.files, f.identity ≠ identity := by
  unfold get?
  rw [Option.map_eq_none_iff, index?_eq_none_iff]

theorem get_mem (i : Fin fs.size) : fs.get i ∈ fs.files := List.get_mem _ _

theorem get?_eq_some (h : fs.get? identity = some f) : f ∈ fs.files ∧ f.identity = identity := by
  unfold get? at h
  obtain ⟨i, hi, rfl⟩ := Option.map_eq_some_iff.1 h
  exact ⟨get_mem i, index?_eq_some hi⟩

/-! ## Files apart -/

/-- A file that comes later shares no identity and no output with an earlier one. -/
def Later (f g : SourceFile) : Prop :=
  f.identity ≠ g.identity ∧ ∀ o ∈ f.outputs, ∀ p ∈ g.outputs, o.sameAs p = false

theorem later_symm {f g : SourceFile} (h : Later f g) : Later g f := by
  refine ⟨h.1.symm, fun p hp o ho => ?_⟩
  have := h.2 o ho p hp
  rw [Bool.eq_false_iff, ne_eq, Path.sameAs_iff] at this ⊢
  exact Ne.symm this

instance : Std.Symm Later := ⟨fun _ _ => later_symm⟩

/-- No two files of a set share an identity or an output. -/
def Apart (fs : FileSet) : Prop := fs.files.Pairwise Later

theorem owner?_eq_none_iff {o : Path} :
    fs.owner? o = none ↔ ∀ g ∈ fs.files, ∀ p ∈ g.outputs, o.sameAs p = false := by
  unfold owner?
  rw [List.find?_eq_none]
  simp

theorem clash?_eq_none_iff {outputs : List Path} : fs.clash? outputs = none ↔
    ∀ g ∈ fs.files, ∀ o ∈ outputs, ∀ p ∈ g.outputs, o.sameAs p = false := by
  unfold clash?
  simp only [List.findSome?_eq_none_iff, Option.map_eq_none_iff, owner?_eq_none_iff]
  constructor
  · intro h g hg o ho
    exact h o ho g hg
  · intro h o ho g hg
    exact h g hg o ho

/-- A file is added when it is apart from all that are there. -/
theorem insert_ok_iff :
    fs.insert f = .ok fs' ↔ (∀ g ∈ fs.files, Later f g) ∧ fs' = ⟨fs.files ++ [f]⟩ := by
  unfold insert
  cases hget : fs.get? f.identity with
  | some g =>
    obtain ⟨hmem, hidentity⟩ := get?_eq_some hget
    constructor
    · intro h
      cases h
    · rintro ⟨hlater, -⟩
      exact absurd hidentity.symm (hlater g hmem).1
  | none =>
    rw [get?_eq_none_iff] at hget
    cases hclash : fs.clash? f.outputs with
    | some c =>
      constructor
      · intro h
        cases h
      · rintro ⟨hlater, -⟩
        have := clash?_eq_none_iff.2 fun g hg => (hlater g hg).2
        rw [hclash] at this
        cases this
    | none =>
      rw [clash?_eq_none_iff] at hclash
      constructor
      · intro h
        cases h
        exact ⟨fun g hg => ⟨Ne.symm (hget g hg), hclash g hg⟩, rfl⟩
      · rintro ⟨-, rfl⟩
        rfl

theorem apart_empty : Apart {} := List.Pairwise.nil

theorem apart_insert (h : fs.Apart) (hf : fs.insert f = .ok fs') : fs'.Apart := by
  obtain ⟨hlater, rfl⟩ := insert_ok_iff.1 hf
  refine List.pairwise_append.2 ⟨h, List.pairwise_singleton _ _, fun g hg f' hf' => ?_⟩
  obtain rfl := List.mem_singleton.1 hf'
  exact later_symm (hlater g hg)

namespace Apart

/-- Two files of a set are the same or share nothing. -/
theorem eq_or_later (h : fs.Apart) {f g : SourceFile} (hf : f ∈ fs.files) (hg : g ∈ fs.files) :
    f = g ∨ Later f g := by
  by_cases heq : f = g
  · exact .inl heq
  · exact .inr (List.Pairwise.forall h hf hg heq)

/-- An identity belongs to one file. -/
theorem eq_of_identity (h : fs.Apart) {f g : SourceFile} (hf : f ∈ fs.files) (hg : g ∈ fs.files)
    (heq : f.identity = g.identity) : f = g := by
  rcases h.eq_or_later hf hg with rfl | hlater
  · rfl
  · exact absurd heq hlater.1

/-- No file has two indices. -/
theorem get_injective (h : fs.Apart) : Function.Injective fs.get := by
  refine List.nodup_iff_injective_get.1 (h.imp fun hlater heq => ?_)
  rw [heq] at hlater
  exact hlater.1 rfl

/-- An identity finds the file that has it. -/
theorem get?_eq_some_iff (h : fs.Apart) {f : SourceFile} :
    fs.get? identity = some f ↔ f ∈ fs.files ∧ f.identity = identity := by
  refine ⟨get?_eq_some, ?_⟩
  rintro ⟨hf, rfl⟩
  cases hget : fs.get? f.identity with
  | none => exact absurd rfl (get?_eq_none_iff.1 hget f hf)
  | some g =>
    obtain ⟨hg, hidentity⟩ := get?_eq_some hget
    rw [h.eq_of_identity hg hf hidentity]

end Apart

end ShaderBuild.FileSet
