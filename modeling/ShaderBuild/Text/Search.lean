/-!
# The leftmost place

Marker comments, tags and array heads are looked for from left to right: a *reader* tries to read
something at the front of a text, and `search` finds the first place where it succeeds.
-/

namespace ShaderBuild.Text

/-- The leftmost place where `read` succeeds: what stands in front of it, and what was read. -/
def search (read : List Char → Option α) : List Char → Option (List Char × α)
  | [] => (read []).map fun a => ([], a)
  | c :: s =>
    match read (c :: s) with
    | some a => some ([], a)
    | none => (search read s).map fun (before, a) => (c :: before, a)

/-- The place found is one where `read` succeeds, and no earlier place is. -/
theorem search_eq_some {read : List Char → Option α} {s before : List Char} {a : α}
    (h : search read s = some (before, a)) :
    (∃ rest, s = before ++ rest ∧ read rest = some a) ∧
      ∀ p q, s = p ++ q → p.length < before.length → read q = none := by
  induction s generalizing before with
  | nil =>
    simp only [search, Option.map_eq_some_iff, Prod.mk.injEq] at h
    obtain ⟨b, hb, rfl, rfl⟩ := h
    exact ⟨⟨[], rfl, hb⟩, fun p q _ hp => absurd hp (by simp)⟩
  | cons c s ih =>
    rw [search] at h
    split at h
    · next b hb =>
      cases h
      exact ⟨⟨c :: s, rfl, hb⟩, fun p q _ hp => absurd hp (by simp)⟩
    · next hn =>
      obtain ⟨⟨t, b⟩, hm, he⟩ := Option.map_eq_some_iff.1 h
      cases he
      obtain ⟨⟨rest, hs, hr⟩, hfirst⟩ := ih hm
      refine ⟨⟨rest, by simp [hs], hr⟩, fun p q hpq hp => ?_⟩
      cases p with
      | nil => exact (show c :: s = q from hpq) ▸ hn
      | cons d p =>
        simp only [List.cons_append, List.cons.injEq] at hpq
        exact hfirst p q hpq.2 (by simpa using hp)

/-- Nothing is found exactly when `read` succeeds nowhere. -/
theorem search_eq_none_iff {read : List Char → Option α} {s : List Char} :
    search read s = none ↔ ∀ p q, s = p ++ q → read q = none := by
  induction s with
  | nil =>
    simp only [search, Option.map_eq_none_iff]
    exact ⟨fun h p q hpq => by simp_all, fun h => h [] [] rfl⟩
  | cons c s ih =>
    rw [search]
    constructor
    · intro h p q hpq
      split at h
      · cases h
      · next hn =>
        cases p with
        | nil => exact (show c :: s = q from hpq) ▸ hn
        | cons d p =>
          simp only [List.cons_append, List.cons.injEq] at hpq
          exact ih.1 (Option.map_eq_none_iff.1 h) p q hpq.2
    · intro h
      rw [h [] (c :: s) rfl]
      exact Option.map_eq_none_iff.2 (ih.2 fun p q hpq => h (c :: p) q (by simp [hpq]))

end ShaderBuild.Text
