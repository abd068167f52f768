import ShaderBuild.Include.Line
import ShaderBuild.Proofs.Text.Word

/-!
# Which lines include a path

A line includes a path when it is made of a hash, the word `include` and the path in quotes, with
blanks where they may stand and anything behind (`Quotes`). These are the lines that are read
(`ofLine?_eq_some_iff`), in the order in which they stand (`ofText_ascending`).
-/

namespace ShaderBuild

open Text

/-- Behind the blanks in front of a text comes a character that is none. -/
theorem Text.trimLeft_eq_cons_iff {c : Char} (hc : isBlank c = false) {s r : List Char} :
    trimLeft s = c :: r ↔ ∃ gap, Blanks gap ∧ s = gap ++ c :: r := by
  constructor
  · intro h
    refine ⟨s.takeWhile isBlank, List.all_eq_true.1 List.all_takeWhile, ?_⟩
    rw [← h, trimLeft, List.takeWhile_append_dropWhile]
  · rintro ⟨gap, hgap, rfl⟩
    rw [trimLeft_append hgap, trimLeft_cons hc]

namespace Include

variable {line path s r : List Char}

/-- A line that includes a path. -/
def Quotes (line path : List Char) : Prop :=
  ∃ front middle back rest, Blanks front ∧ Blanks middle ∧ Blanks back ∧ path ≠ [] ∧ '"' ∉ path ∧
    line = front ++ '#' :: (middle ++ ("include".toList ++
      (back ++ '"' :: (path ++ '"' :: rest))))

theorem afterExact_eq_some_iff {w : List Char} : afterExact w s = some r ↔ s = w ++ r := by
  induction w generalizing s with
  | nil => simp [afterExact]
  | cons c w ih =>
    cases s with
    | nil => simp [afterExact]
    | cons d s =>
      rw [afterExact, List.cons_append, List.cons.injEq]
      by_cases hc : c = d
      · rw [if_pos hc, ih]
        exact (and_iff_right hc.symm).symm
      · rw [if_neg hc]
        constructor
        · intro h
          cases h
        · rintro ⟨rfl, -⟩
          exact absurd rfl hc

theorem quoted?_eq_some_iff : quoted? s = some path ↔
    path ≠ [] ∧ '"' ∉ path ∧ ∃ rest, s = '"' :: (path ++ '"' :: rest) := by
  constructor
  · intro h
    unfold quoted? at h
    split at h
    · next s =>
      simp only [Option.ite_none_right_eq_some, Option.some.injEq] at h
      obtain ⟨⟨hne, hlt⟩, rfl⟩ := h
      have hsplit := List.takeWhile_append_dropWhile (p := (· ≠ '"')) (l := s)
      have hclose := List.head?_dropWhile_not (· ≠ '"') s
      refine ⟨hne, fun hmem => ?_, ?_⟩
      · simpa using List.mem_takeWhile_imp hmem
      · cases hrest : s.dropWhile (· ≠ '"') with
        | nil =>
          rw [hrest, List.append_nil] at hsplit
          rw [hsplit] at hlt
          exact absurd hlt (Nat.lt_irrefl _)
        | cons c rest =>
          rw [hrest] at hsplit hclose
          obtain rfl : c = '"' := by simpa using hclose
          exact ⟨rest, congrArg _ hsplit.symm⟩
    · cases h
  · rintro ⟨hne, hquote, rest, rfl⟩
    have hinside : (path ++ '"' :: rest).takeWhile (· ≠ '"') = path := by
      rw [takeWhile_append_cons (by simp)]
      exact List.takeWhile_eq_self_iff.2 fun c hc => by
        simpa using fun heq : c = '"' => hquote (heq ▸ hc)
    unfold quoted?
    simp only [hinside, ne_eq, hne, not_false_eq_true, true_and, List.length_append,
      List.length_cons]
    exact if_pos (by omega)

/-- **The paths that are read are those that a line includes.** -/
theorem ofLine?_eq_some_iff : ofLine? line = some path ↔ Quotes line path := by
  have hread : ofLine? line = some path ↔ ∃ s, trimLeft line = '#' :: s ∧
      ∃ r, afterExact "include".toList (trimLeft s) = some r ∧
        quoted? (trimLeft r) = some path := by
    unfold ofLine?
    split
    · next s hs => simp [hs, Option.bind_eq_some_iff]
    · next hno =>
      constructor
      · intro h
        cases h
      · rintro ⟨s, hs, -⟩
        exact absurd hs (hno s)
  have hword : ∀ x : List Char, "include".toList ++ x = 'i' :: ("nclude".toList ++ x) :=
    fun _ => rfl
  rw [hread]
  simp only [afterExact_eq_some_iff, quoted?_eq_some_iff, hword,
    trimLeft_eq_cons_iff (show isBlank '#' = false by decide),
    trimLeft_eq_cons_iff (show isBlank 'i' = false by decide)]
  constructor
  · rintro ⟨s, ⟨front, hfront, rfl⟩, r, ⟨middle, hmiddle, rfl⟩, hne, hquote, rest, hrest⟩
    obtain ⟨back, hback, rfl⟩ := (trimLeft_eq_cons_iff (by decide)).1 hrest
    exact ⟨front, middle, back, rest, hfront, hmiddle, hback, hne, hquote, rfl⟩
  · rintro ⟨front, middle, back, rest, hfront, hmiddle, hback, hne, hquote, rfl⟩
    exact ⟨_, ⟨front, hfront, rfl⟩, _, ⟨middle, hmiddle, rfl⟩, hne, hquote, rest,
      (trimLeft_eq_cons_iff (by decide)).2 ⟨back, hback, rfl⟩⟩

/-! ## The includes of a text -/

/-- A numbered line of a text includes a path. -/
def IncludedAt (text : List Char) (n : Nat) (path : String) : Prop :=
  ∃ line, (n, line) ∈ numberedLines text ∧ Quotes line path.toList

theorem mem_ofText_iff {text : List Char} {n : Nat} {path : String} :
    (n, path) ∈ ofText text ↔ IncludedAt text n path := by
  unfold ofText IncludedAt
  simp only [List.mem_filterMap, Prod.exists, Option.map_eq_some_iff, Prod.mk.injEq,
    ofLine?_eq_some_iff]
  constructor
  · rintro ⟨n, line, hline, target, hquotes, rfl, rfl⟩
    exact ⟨line, hline, by rwa [String.toList_ofList]⟩
  · rintro ⟨line, hline, hquotes⟩
    exact ⟨n, line, hline, path.toList, hquotes, rfl, String.ofList_toList⟩

theorem numberedLines_ascending (text : List Char) :
    (numberedLines text).Pairwise fun a b => a.1 < b.1 := by
  have hnumbers : ((lines text).zipIdx.map (·.2)).Pairwise (· < ·) := by
    rw [List.zipIdx_map_snd]
    exact List.pairwise_lt_range'
  unfold numberedLines
  rw [List.pairwise_map]
  exact (List.pairwise_map.1 hnumbers).imp fun hlt => Nat.succ_lt_succ hlt

/-- Includes are read in the order of their lines, one from each line. -/
theorem ofText_ascending (text : List Char) : (ofText text).Pairwise fun a b => a.1 < b.1 := by
  unfold ofText
  refine List.pairwise_filterMap.2 ((numberedLines_ascending text).imp ?_)
  rintro ⟨n, line⟩ ⟨m, line'⟩ hlt a ha b hb
  simp only [Option.map_eq_some_iff] at ha hb
  obtain ⟨-, -, rfl⟩ := ha
  obtain ⟨-, -, rfl⟩ := hb
  exact hlt

end Include

end ShaderBuild
