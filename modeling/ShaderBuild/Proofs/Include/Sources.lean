import Mathlib.Logic.Relation
import ShaderBuild.Include.Line
import ShaderBuild.Proofs.FileTree.Change

/-!
# The sources of a file

A file is compiled from itself and from what it includes, directly or not. Two trees have the same
sources of a file when all of these hold the same in both (`SameSources`); what includes what is
then the same in both as well (`SameSources.reaches_iff`).
-/

namespace ShaderBuild

namespace FileTree

variable {t u : FileTree} {p q : Path}

/-- A line of the file at a path includes another path. -/
def Includes (t : FileTree) (p q : Path) : Prop :=
  ∃ text line target, t.content? p = some (Text.encode text) ∧
    (line, target) ∈ Include.ofText text ∧ q = Include.resolve p target

/-- The file at a path, and all it includes, directly or not, hold the same in both trees. -/
def SameSources (t u : FileTree) (p : Path) : Prop :=
  ∀ q, Relation.ReflTransGen t.Includes p q → u.content? q = t.content? q

/-- What a file includes follows from its content. -/
theorem includes_congr (h : u.content? p = t.content? p) : u.Includes p q ↔ t.Includes p q := by
  unfold Includes
  rw [h]

namespace SameSources

/-- What a file reaches is the same in both trees. -/
theorem reaches_iff (h : SameSources t u p) :
    Relation.ReflTransGen u.Includes p q ↔ Relation.ReflTransGen t.Includes p q := by
  constructor
  · intro hq
    induction hq with
    | refl => exact .refl
    | tail _ hstep ih => exact ih.tail ((includes_congr (h _ ih)).1 hstep)
  · intro hq
    induction hq with
    | refl => exact .refl
    | tail hbefore hstep ih => exact ih.tail ((includes_congr (h _ hbefore)).2 hstep)

theorem symm (h : SameSources t u p) : SameSources u t p :=
  fun q hq => (h q (h.reaches_iff.1 hq)).symm

end SameSources

end FileTree

end ShaderBuild
