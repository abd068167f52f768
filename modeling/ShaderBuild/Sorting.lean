/-!
# Sorting

Lists are sorted by inserting one item after the other; items that the order does not tell apart
keep their places. Lists here are short, and insertion is the sort whose laws are shortest.

Main statements: sorting permutes (`perm_sortBy`) and brings into order (`pairwise_sortBy`).
-/

namespace ShaderBuild

/-- Puts an item in front of the first one that it may precede. -/
def insertBy (le : α → α → Bool) (a : α) : List α → List α
  | [] => [a]
  | b :: l => if le a b then a :: b :: l else b :: insertBy le a l

/-- Sorts a list. -/
def sortBy (le : α → α → Bool) : List α → List α
  | [] => []
  | a :: l => insertBy le a (sortBy le l)

theorem perm_insertBy {le : α → α → Bool} {a : α} {l : List α} :
    (insertBy le a l).Perm (a :: l) := by
  induction l with
  | nil => exact .refl _
  | cons b l ih =>
    rw [insertBy]
    split
    · exact .refl _
    · exact (ih.cons b).trans (.swap a b l)

/-- Sorting permutes. -/
theorem perm_sortBy {le : α → α → Bool} {l : List α} : (sortBy le l).Perm l := by
  induction l with
  | nil => exact .refl _
  | cons a l ih => exact perm_insertBy.trans (ih.cons a)

@[simp] theorem mem_sortBy {le : α → α → Bool} {a : α} {l : List α} :
    a ∈ sortBy le l ↔ a ∈ l := perm_sortBy.mem_iff

theorem pairwise_insertBy {le : α → α → Bool} (trans : ∀ a b c, le a b → le b c → le a c)
    (total : ∀ a b, le a b || le b a) {a : α} {l : List α} (h : l.Pairwise (le · ·)) :
    (insertBy le a l).Pairwise (le · ·) := by
  induction l with
  | nil => simp [insertBy]
  | cons b l ih =>
    have hb := List.pairwise_cons.1 h
    rw [insertBy]
    split
    · next hab =>
      refine List.pairwise_cons.2 ⟨fun c hc => ?_, h⟩
      rcases List.mem_cons.1 hc with rfl | hc
      · exact hab
      · exact trans _ _ _ hab (hb.1 c hc)
    · next hab =>
      refine List.pairwise_cons.2 ⟨fun c hc => ?_, ih hb.2⟩
      rcases List.mem_cons.1 (perm_insertBy.mem_iff.1 hc) with rfl | hc
      · simpa [hab] using total c b
      · exact hb.1 c hc

/-- Sorting by a total order brings into order. -/
theorem pairwise_sortBy {le : α → α → Bool} (trans : ∀ a b c, le a b → le b c → le a c)
    (total : ∀ a b, le a b || le b a) {l : List α} : (sortBy le l).Pairwise (le · ·) := by
  induction l with
  | nil => exact .nil
  | cons a l ih => exact pairwise_insertBy trans total ih

end ShaderBuild
