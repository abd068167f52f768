import ShaderBuild.Cache.Record
import ShaderBuild.Proofs.Source.Set

/-!
# What a cache remembers

A cache has at most one record under each key (`get?_eq_some_iff`), a record that is inserted takes
the place of the one under its key (`mem_insert_iff`), and the cache of a set of files that share no
identity remembers exactly these files (`mem_ofFiles_iff`).
-/

namespace ShaderBuild.BuildCache

variable {c : BuildCache} {key k : UInt32} {r q : CacheRecord}

/-- Of two records under one key only one is there. -/
theorem eq_of_mem_records (h : (key, r) ∈ c.records) (h' : (key, q) ∈ c.records) : r = q := by
  have hordered := List.pairwise_map.1 c.ordered
  by_cases heq : ((key, r) : UInt32 × CacheRecord) = (key, q)
  · exact (Prod.mk.inj heq).2
  · have hsymm : c.records.Pairwise fun a b => a.1 ≠ b.1 :=
      hordered.imp fun hlt => UInt32.ne_of_lt hlt
    have : Std.Symm fun a b : UInt32 × CacheRecord => a.1 ≠ b.1 := ⟨fun _ _ => Ne.symm⟩
    have hne := List.Pairwise.forall hsymm h h' heq
    exact absurd rfl hne

theorem get?_eq_some_iff : c.get? key = some r ↔ (key, r) ∈ c.records := by
  have hone := @eq_of_mem_records c key
  unfold get?
  generalize c.records = records at hone
  induction records with
  | nil => simp
  | cons entry records ih =>
    obtain ⟨k, p⟩ := entry
    rw [List.lookup_cons]
    by_cases hk : key = k
    · subst hk
      simp only [beq_self_eq_true, Option.some.injEq]
      constructor
      · rintro rfl
        exact List.mem_cons_self
      · intro h
        exact hone List.mem_cons_self h
    · have hb : (key == k) = false := by simpa using hk
      simp only [hb]
      refine (ih fun h h' => hone (List.mem_cons_of_mem _ h) (List.mem_cons_of_mem _ h')).trans ?_
      simp [hk]

theorem mem_place_iff {l : List (UInt32 × CacheRecord)}
    (hl : (l.map (·.1)).Pairwise (· < ·)) :
    (k, q) ∈ place key r l ↔ (k = key ∧ q = r) ∨ (k ≠ key ∧ (k, q) ∈ l) := by
  induction l with
  | nil => simp [place]
  | cons entry l ih =>
    obtain ⟨k', p⟩ := entry
    obtain ⟨hfirst, hl⟩ := List.pairwise_cons.1 hl
    have hkey : ∀ {k q}, (k, q) ∈ l → k' < k := fun h => hfirst _ (List.mem_map_of_mem h)
    rw [place]
    split
    · next hlt =>
      have hne : (k, q) ∈ (k', p) :: l → k ≠ key := by
        intro h
        rcases List.mem_cons.1 h with h | h
        · cases h
          exact (UInt32.ne_of_lt hlt).symm
        · exact (UInt32.ne_of_lt (UInt32.lt_trans hlt (hkey h))).symm
      rw [List.mem_cons, Prod.mk.injEq]
      constructor
      · rintro (h | h)
        · exact .inl h
        · exact .inr ⟨hne h, h⟩
      · rintro (h | ⟨-, h⟩)
        · exact .inl h
        · exact .inr h
    split
    · next heq =>
      subst heq
      rw [List.mem_cons, List.mem_cons, Prod.mk.injEq, Prod.mk.injEq]
      constructor
      · rintro (h | h)
        · exact .inl h
        · exact .inr ⟨(UInt32.ne_of_lt (hkey h)).symm, .inr h⟩
      · rintro (h | ⟨hne, ⟨h, -⟩ | h⟩)
        · exact .inl h
        · exact absurd h hne
        · exact .inr h
    · next hlt hne =>
      rw [List.mem_cons, ih hl, List.mem_cons, Prod.mk.injEq]
      constructor
      · rintro (⟨rfl, rfl⟩ | h | ⟨h, hmem⟩)
        · exact .inr ⟨Ne.symm hne, .inl ⟨rfl, rfl⟩⟩
        · exact .inl h
        · exact .inr ⟨h, .inr hmem⟩
      · rintro (h | ⟨h, hk | hmem⟩)
        · exact .inr (.inl h)
        · exact .inl hk
        · exact .inr (.inr ⟨h, hmem⟩)

/-- A record that is inserted takes the place of the one under its key. -/
theorem mem_insert_iff :
    (k, q) ∈ (c.insert key r).records ↔ (k = key ∧ q = r) ∨ (k ≠ key ∧ (k, q) ∈ c.records) :=
  mem_place_iff c.ordered

/-- The cache of a set remembers the files of the set. -/
theorem mem_ofFiles_iff {fs : FileSet} (h : fs.Apart) :
    (k, q) ∈ (ofFiles fs).records ↔ ∃ f ∈ fs.files, k = f.identity ∧ q = f.record := by
  suffices hfold : ∀ (files : List SourceFile) (c : BuildCache), files.Pairwise FileSet.Later →
      ((k, q) ∈ (files.foldl (fun c f => c.insert f.identity f.record) c).records ↔
        (∃ f ∈ files, k = f.identity ∧ q = f.record) ∨
          (∀ f ∈ files, k ≠ f.identity) ∧ (k, q) ∈ c.records) by
    refine (hfold fs.files .empty h).trans ?_
    simp
  intro files
  induction files with
  | nil => simp
  | cons f files ih =>
    intro c hapart
    obtain ⟨hf, hapart⟩ := List.pairwise_cons.1 hapart
    rw [List.foldl_cons, ih _ hapart, mem_insert_iff]
    simp only [List.mem_cons, exists_eq_or_imp, forall_eq_or_imp]
    constructor
    · rintro (h | ⟨hne, h | ⟨hk, h⟩⟩)
      · exact .inl (.inr h)
      · exact .inl (.inl h)
      · exact .inr ⟨⟨hk, hne⟩, h⟩
    · rintro ((h | h) | ⟨⟨hk, hne⟩, h⟩)
      · refine .inr ⟨fun g hg => ?_, .inl h⟩
        rw [h.1]
        exact (hf g hg).1
      · exact .inl h
      · exact .inr ⟨hne, .inr ⟨hk, h⟩⟩

end ShaderBuild.BuildCache
