import Mathlib.Data.List.Infix
import ShaderBuild.Hlsl.Struct

/-!
# The grammar of type names

A scalar type is spelled `scalar[1-4](x[1-4])?`, and every other name is that of a named type. The
grammar is a relation (`Spells`), and the type that is read from a name is the one that the name
spells (`spells_iff`).
-/

namespace ShaderBuild.Hlsl

theorem Extent.ofDigit?_eq_some_iff {c : Char} {e : Extent} :
    Extent.ofDigit? c = some e ↔ c = e.digit := by
  constructor
  · intro h
    unfold Extent.ofDigit? at h
    split at h <;> cases h <;> rfl
  · rintro rfl
    exact e.ofDigit?_digit

namespace FieldType

/-- What may follow the name of a scalar type, and the columns and rows it stands for. -/
inductive Shape : List Char → Extent → Extent → Prop
  | single : Shape [] .one .one
  | vector (columns : Extent) : Shape [columns.digit] columns .one
  | matrix (columns rows : Extent) : Shape [columns.digit, 'x', rows.digit] columns rows

/-- The type that a name stands for. -/
inductive Spells : List Char → FieldType → Prop
  | scalar (s : Scalar) {shape : List Char} {columns rows : Extent}
      (h : Shape shape columns rows) :
      Spells (s.keyword.toList ++ shape) ⟨.scalar s, columns, rows⟩
  | named {name : List Char} (h : ∀ (s : Scalar) shape columns rows, Shape shape columns rows →
      name ≠ s.keyword.toList ++ shape) : Spells name ⟨.named (String.ofList name), .one, .one⟩

theorem shape?_eq_some_iff {s : List Char} {columns rows : Extent} :
    shape? s = some (columns, rows) ↔ Shape s columns rows := by
  constructor
  · intro h
    unfold shape? at h
    split at h
    · cases h
      exact .single
    · obtain ⟨e, he, heq⟩ := Option.map_eq_some_iff.1 h
      cases heq
      rw [Extent.ofDigit?_eq_some_iff.1 he]
      exact .vector _
    · obtain ⟨e, he, hrest⟩ := Option.bind_eq_some_iff.1 h
      obtain ⟨e', he', heq⟩ := Option.map_eq_some_iff.1 hrest
      cases heq
      rw [Extent.ofDigit?_eq_some_iff.1 he, Extent.ofDigit?_eq_some_iff.1 he']
      exact .matrix _ _
    · cases h
  · rintro (_ | columns | ⟨columns, rows⟩)
    · rfl
    · simp [shape?, Extent.ofDigit?_digit]
    · simp [shape?, Extent.ofDigit?_digit]

theorem ofScalar?_eq_some_iff {name : List Char} {s : Scalar} {t : FieldType} :
    ofScalar? name s = some t ↔ ∃ shape columns rows, Shape shape columns rows ∧
      name = s.keyword.toList ++ shape ∧ t = ⟨.scalar s, columns, rows⟩ := by
  unfold ofScalar?
  constructor
  · intro h
    obtain ⟨⟨columns, rows⟩, hshape, rfl⟩ := Option.map_eq_some_iff.1 h
    obtain ⟨shape, hstart, hshape⟩ := Option.bind_eq_some_iff.1 hshape
    exact ⟨shape, columns, rows, shape?_eq_some_iff.1 hshape,
      (List.isPrefixOf?_eq_some_iff_append_eq.1 hstart).symm, rfl⟩
  · rintro ⟨shape, columns, rows, hshape, rfl, rfl⟩
    have hstart : s.keyword.toList.isPrefixOf? (s.keyword.toList ++ shape) = some shape :=
      List.isPrefixOf?_eq_some_iff_append_eq.2 rfl
    rw [hstart, Option.bind_some, shape?_eq_some_iff.2 hshape]
    rfl

/-- The name of a scalar type starts with the name of no other one. -/
theorem scalar_eq_of_prefix {name : List Char} {s s' : Scalar} (h : s.keyword.toList <+: name)
    (h' : s'.keyword.toList <+: name) : s = s' := by
  have hnone : ∀ a b : Scalar, a.keyword.toList <+: b.keyword.toList → a = b := by
    intro a b
    cases a <;> cases b <;> decide
  rcases List.prefix_or_prefix_of_prefix h h' with hss' | hs's
  · exact hnone s s' hss'
  · exact (hnone s' s hs's).symm

/-- What is read from a name is a type that it spells. -/
theorem spells_ofName (name : List Char) : Spells name (ofName name) := by
  have hall : ∀ s : Scalar, s ∈ Scalar.all := by
    intro s
    cases s <;> decide
  unfold ofName
  cases h : Scalar.all.findSome? (ofScalar? name) with
  | none =>
    refine .named fun s shape columns rows hshape heq => ?_
    have hs := List.findSome?_eq_none_iff.1 h s (hall s)
    rw [ofScalar?_eq_some_iff.2 ⟨shape, columns, rows, hshape, heq, rfl⟩] at hs
    cases hs
  | some t =>
    obtain ⟨s, -, hs⟩ := List.exists_of_findSome?_eq_some h
    obtain ⟨shape, columns, rows, hshape, rfl, rfl⟩ := ofScalar?_eq_some_iff.1 hs
    exact .scalar s hshape

/-- A name spells one type. -/
theorem Spells.unique {name : List Char} {t t' : FieldType} (h : Spells name t)
    (h' : Spells name t') : t = t' := by
  cases h with
  | @scalar s shape columns rows hshape =>
    generalize hname : s.keyword.toList ++ shape = name at h'
    cases h' with
    | @scalar s' shape' columns' rows' hshape' =>
      obtain rfl := scalar_eq_of_prefix (List.prefix_append s.keyword.toList shape)
        (hname ▸ List.prefix_append s'.keyword.toList shape')
      rw [List.append_cancel_left hname, ← shape?_eq_some_iff] at hshape
      rw [← shape?_eq_some_iff, hshape] at hshape'
      cases hshape'
      rfl
    | named hnone => exact absurd hname.symm (hnone s shape columns rows hshape)
  | named hnone =>
    cases h' with
    | @scalar s shape columns rows hshape => exact absurd rfl (hnone s shape columns rows hshape)
    | named => rfl

/-- **A type is read by the grammar**: it is the one and only type that the name spells. -/
theorem spells_iff {name : List Char} {t : FieldType} : Spells name t ↔ ofName name = t := by
  constructor
  · intro h
    exact (spells_ofName name).unique h
  · rintro rfl
    exact spells_ofName name

example : ofName "float3x2".toList = ⟨.scalar .float, .three, .two⟩ := by decide
example : ofName "float5".toList = ⟨.named "float5", .one, .one⟩ := by decide

end FieldType

end ShaderBuild.Hlsl
