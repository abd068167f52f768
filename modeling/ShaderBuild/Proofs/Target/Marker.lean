import ShaderBuild.Proofs.Target.Region
import ShaderBuild.Proofs.Text.Word
import Mathlib.Data.List.Infix

/-!
# Marker comments

A marker is two slashes, blanks and a word (`marker?_eq_some_iff`). Its slashes stand only in
front, so no marker reaches over the front of another one, and a line feed behind a letter cuts
every marker off (`Seam`). The markers of a text that is put together at such places are those of
its parts (`occurrences_append`).
-/

namespace ShaderBuild.Target

open Text

/-! ## Letters, blanks and slashes -/

/-- What agrees with a letter without case is neither a blank nor a slash. -/
theorem of_fold_eq {w c : Char} (hw : w.isAlpha = true) (h : fold w = fold c) :
    isBlank c = false ∧ c ≠ '/' := by
  have hword := isWord_of_fold_eq hw h
  constructor
  · rw [Bool.eq_false_iff]
    intro hc
    rw [isWord_of_isBlank hc] at hword
    cases hword
  · rintro rfl
    revert hword
    decide

/-- The words of markers: letters, and at least one. -/
def IsWord (word : List Char) : Prop := word ≠ [] ∧ ∀ w ∈ word, w.isAlpha = true

/-- A marker comment with a word: two slashes, blanks and the word, in any case. -/
def IsMarker (word comment : List Char) : Prop :=
  ∃ blanks letters, comment = '/' :: '/' :: (blanks ++ letters) ∧
    (∀ c ∈ blanks, isBlank c = true) ∧ letters.map fold = word.map fold

variable {word comment text rest x y : List Char}

/-- The characters of a word behind the slashes and blanks of a marker are letters in any case. -/
theorem letters_spec (hword : IsWord word) {letters : List Char}
    (h : letters.map fold = word.map fold) :
    letters ≠ [] ∧ ∀ c ∈ letters, isBlank c = false ∧ c ≠ '/' := by
  constructor
  · rintro rfl
    exact hword.1 (List.map_eq_nil_iff.1 h.symm)
  · intro c hc
    obtain ⟨w, hw, hfold⟩ := List.mem_map.1 (h ▸ List.mem_map_of_mem hc)
    exact of_fold_eq (hword.2 w hw) hfold

/-- **What is read as a marker** -/
theorem marker?_eq_some_iff (hword : IsWord word) :
    marker? word text = some (comment, rest) ↔ IsMarker word comment ∧ text = comment ++ rest := by
  constructor
  · intro h
    have htext := marker?_eq_some h
    refine ⟨?_, htext⟩
    unfold marker? at h
    split at h
    · next r =>
      obtain ⟨rest', hrest, heq⟩ := Option.map_eq_some_iff.1 h
      obtain ⟨-, rfl⟩ := Prod.mk.inj heq
      obtain ⟨letters, hletters, hfold⟩ := afterWord_eq_some_iff.1 hrest
      refine ⟨r.takeWhile isBlank, letters, ?_, List.all_eq_true.1 List.all_takeWhile, hfold⟩
      have hr : r = r.takeWhile isBlank ++ (letters ++ rest') := by
        rw [← hletters, trimLeft, List.takeWhile_append_dropWhile]
      refine (List.append_left_inj rest').1 ?_
      rw [← htext]
      conv_lhs => rw [hr]
      simp only [List.cons_append, List.append_assoc]
    · cases h
  · rintro ⟨⟨blanks, letters, rfl, hblanks, hfold⟩, rfl⟩
    obtain ⟨hne, hletters⟩ := letters_spec hword hfold
    have htrim : trimLeft (blanks ++ letters ++ rest) = letters ++ rest := by
      obtain ⟨l, letters, rfl⟩ := List.exists_cons_of_ne_nil hne
      rw [List.append_assoc, trimLeft_append hblanks, List.cons_append,
        trimLeft_cons (hletters l List.mem_cons_self).1]
    unfold marker?
    simp only [List.cons_append]
    rw [htrim, afterWord_eq_some_iff.2 ⟨letters, rfl, hfold⟩]
    rw [Option.map_some, ← List.cons_append, ← List.cons_append, List.length_append,
      Nat.add_sub_cancel, List.take_left]

theorem isSome_marker?_iff (hword : IsWord word) : (marker? word text).isSome = true ↔
    ∃ comment rest, IsMarker word comment ∧ text = comment ++ rest := by
  simp only [Option.isSome_iff_exists, Prod.exists, marker?_eq_some_iff hword]

theorem IsMarker.ne_nil (h : IsMarker word comment) : comment ≠ [] := by
  obtain ⟨blanks, letters, rfl, -⟩ := h
  exact List.cons_ne_nil _ _

/-! ## Where no marker reaches over -/

/-- Two texts that meet where no marker reaches from the one into the other: the second begins
with a comment, or with a line feed behind a character that is neither a blank nor a slash, or the
first is empty. -/
inductive Seam : List Char → List Char → Prop
  | nil (y : List Char) : Seam [] y
  | slashes (x y : List Char) : Seam x ('/' :: '/' :: y)
  | lineFeed (x : List Char) {c : Char} (y : List Char) :
      isBlank c = false → c ≠ '/' → Seam (x ++ [c]) ('\n' :: y)

theorem Seam.of_cons {c : Char} (h : Seam (c :: x) y) : Seam x y := by
  generalize hfront : c :: x = front at h
  cases h with
  | nil => cases hfront
  | slashes => exact .slashes _ _
  | lineFeed front y hblank hslash =>
    cases front with
    | nil =>
      rw [(List.cons.inj hfront).2]
      exact .nil _
    | cons d front =>
      rw [(List.cons.inj hfront).2]
      exact .lineFeed _ _ hblank hslash

theorem Seam.of_append {front : List Char} (h : Seam (front ++ x) y) : Seam x y := by
  induction front with
  | nil => exact h
  | cons c front ih => exact ih h.of_cons

/-- Behind its first two characters a marker has no slash. -/
theorem slash_notMem (hword : IsWord word) {blanks letters : List Char}
    (hblanks : ∀ c ∈ blanks, isBlank c = true) (hfold : letters.map fold = word.map fold) :
    '/' ∉ blanks ++ letters := by
  intro h
  rcases List.mem_append.1 h with h | h
  · exact absurd (hblanks _ h) (by decide)
  · exact ((letters_spec hword hfold).2 _ h).2 rfl

/-- **A marker does not reach over a seam** -/
theorem Seam.not_crossed (h : Seam x y) (hword : IsWord word) (hx : x ≠ [])
    (hmarker : IsMarker word comment) (heq : x ++ y = comment ++ rest) :
    ∃ rest', x = comment ++ rest' ∧ rest = rest' ++ y := by
  rcases List.append_eq_append_iff.1 heq with ⟨beyond, hcomment, hy⟩ | ⟨rest', hx', hrest⟩
  · cases beyond with
    | nil => exact ⟨[], by simpa using hcomment.symm, by simpa using hy.symm⟩
    | cons o beyond =>
      exfalso
      obtain ⟨blanks, letters, rfl, hblanks, hfold⟩ := hmarker
      have hslash := slash_notMem hword hblanks hfold
      obtain ⟨hletters, hletter⟩ := letters_spec hword hfold
      cases h with
      | nil => exact hx rfl
      | slashes x y =>
        obtain ⟨rfl, hbehind⟩ := List.cons.inj hy
        match x, hx with
        | [c], _ =>
          obtain ⟨-, hover⟩ := List.cons.inj hcomment
          obtain ⟨-, rfl⟩ := List.cons.inj hover
          obtain ⟨d, tail, htail⟩ := List.exists_cons_of_ne_nil
            (List.append_ne_nil_of_right_ne_nil blanks hletters)
          rw [htail] at hbehind hslash
          exact hslash ((List.cons.inj hbehind).1 ▸ List.mem_cons_self)
        | c :: d :: x, _ =>
          obtain ⟨-, -, hover⟩ : _ ∧ _ ∧ blanks ++ letters = x ++ '/' :: beyond := by
            simpa using hcomment
          exact hslash (hover ▸ List.mem_append_right _ List.mem_cons_self)
      | @lineFeed x c y hblank hc =>
        obtain ⟨rfl, -⟩ := List.cons.inj hy
        match x with
        | [] => exact hc (List.cons.inj hcomment).1.symm
        | [a] => exact hc (List.cons.inj (List.cons.inj hcomment).2).1.symm
        | a :: b :: x =>
          have hbody : blanks ++ letters = (x ++ [c]) ++ '\n' :: beyond :=
            (List.cons.inj (List.cons.inj hcomment).2).2
          rcases List.append_eq_append_iff.1 hbody with ⟨k, -, hk⟩ | ⟨k, hk, -⟩
          · -- the line feed is one of the letters
            have hmem : '\n' ∈ letters := hk ▸ List.mem_append_right _ List.mem_cons_self
            exact absurd (hletter _ hmem).1 (by decide)
          · -- the line feed is a blank, and so is what stands in front of it
            have hmem : c ∈ blanks := by simp [hk]
            rw [hblanks c hmem] at hblank
            cases hblank
  · exact ⟨rest', hx', hrest⟩

theorem IsMarker.seam (h : IsMarker word comment) (x rest : List Char) :
    Seam x (comment ++ rest) := by
  obtain ⟨blanks, letters, rfl, -⟩ := h
  exact .slashes _ _

theorem IsMarker.seam_lineFeed (hword : IsWord word) (h : IsMarker word comment)
    (before content : List Char) : Seam (before ++ comment) ('\n' :: content) := by
  obtain ⟨blanks, letters, rfl, -, hfold⟩ := h
  obtain ⟨hne, hletters⟩ := letters_spec hword hfold
  obtain ⟨init, c, rfl⟩ := (List.eq_nil_or_concat letters).resolve_left hne
  have hc := hletters c (by simp)
  have heq : before ++ '/' :: '/' :: (blanks ++ init.concat c) =
      (before ++ '/' :: '/' :: (blanks ++ init)) ++ [c] := by simp
  rw [heq]
  exact .lineFeed _ _ hc.1 hc.2

/-- A marker in two texts that meet at a seam is in the one or in the other. -/
theorem Seam.either (h : Seam x y) (hword : IsWord word) (hmarker : IsMarker word comment)
    {before : List Char} (heq : x ++ y = before ++ (comment ++ rest)) :
    (∃ rest', x = before ++ (comment ++ rest') ∧ rest = rest' ++ y) ∨
      ∃ before', before = x ++ before' ∧ y = before' ++ (comment ++ rest) := by
  rcases List.append_eq_append_iff.1 heq with ⟨before', hbefore, hy⟩ | ⟨x', rfl, hx'⟩
  · exact .inr ⟨before', hbefore, hy⟩
  · rcases eq_or_ne x' [] with rfl | hne
    · exact .inr ⟨[], by simp, hx'.symm⟩
    · obtain ⟨rest', rfl, hrest⟩ := h.of_append.not_crossed hword hne hmarker hx'.symm
      exact .inl ⟨rest', rfl, hrest⟩

theorem IsMarker.isSome_append (hword : IsWord word) (h : (marker? word x).isSome = true)
    (y : List Char) : (marker? word (x ++ y)).isSome = true := by
  obtain ⟨comment, rest, hmarker, rfl⟩ := (isSome_marker?_iff hword).1 h
  exact (isSome_marker?_iff hword).2 ⟨comment, rest ++ y, hmarker, List.append_assoc _ _ _⟩

theorem Seam.isSome_marker? (h : Seam x y) (hword : IsWord word) (hx : x ≠ []) :
    (marker? word (x ++ y)).isSome = (marker? word x).isSome := by
  rw [Bool.eq_iff_iff]
  constructor
  · intro hsome
    obtain ⟨comment, rest, hmarker, heq⟩ := (isSome_marker?_iff hword).1 hsome
    obtain ⟨rest', hx', -⟩ := h.not_crossed hword hx hmarker heq
    exact (isSome_marker?_iff hword).2 ⟨comment, rest', hmarker, hx'⟩
  · exact fun hsome => IsMarker.isSome_append hword hsome y

/-! ## The markers of a text -/

/-- How often markers with a word occur in a text. -/
def occurrences (word text : List Char) : Nat :=
  text.tails.countP fun s => (marker? word s).isSome

theorem occurrences_nil (word : List Char) : occurrences word [] = 0 := rfl

theorem occurrences_cons (word : List Char) (c : Char) (text : List Char) :
    occurrences word (c :: text) =
      occurrences word text + if (marker? word (c :: text)).isSome then 1 else 0 := by
  unfold occurrences
  rw [List.tails_cons, List.countP_cons]

theorem occurrences_le_cons (word : List Char) (c : Char) (text : List Char) :
    occurrences word text ≤ occurrences word (c :: text) := by
  rw [occurrences_cons]
  exact Nat.le_add_right _ _

theorem occurrences_le_append_right (word x y : List Char) :
    occurrences word y ≤ occurrences word (x ++ y) := by
  induction x with
  | nil => exact Nat.le_refl _
  | cons c x ih => exact ih.trans (occurrences_le_cons _ _ _)

theorem occurrences_le_append_left (hword : IsWord word) (x y : List Char) :
    occurrences word x ≤ occurrences word (x ++ y) := by
  induction x with
  | nil => exact Nat.zero_le _
  | cons c x ih =>
    rw [List.cons_append, occurrences_cons, occurrences_cons]
    refine Nat.add_le_add ih ?_
    split
    · next h =>
      rw [← List.cons_append, if_pos (IsMarker.isSome_append hword h y)]
    · exact Nat.zero_le _

/-- **The markers of two texts that meet at a seam are those of each** -/
theorem occurrences_append (hword : IsWord word) (h : Seam x y) :
    occurrences word (x ++ y) = occurrences word x + occurrences word y := by
  induction x with
  | nil => rw [List.nil_append, occurrences_nil, Nat.zero_add]
  | cons c x ih =>
    rw [List.cons_append, occurrences_cons, occurrences_cons, ← List.cons_append,
      h.isSome_marker? hword (List.cons_ne_nil _ _)]
    rw [ih h.of_cons]
    omega

theorem occurrences_pos_iff (hword : IsWord word) : 0 < occurrences word text ↔
    ∃ before comment rest, IsMarker word comment ∧ text = before ++ (comment ++ rest) := by
  unfold occurrences
  rw [List.countP_pos_iff]
  simp only [List.mem_tails, isSome_marker?_iff hword]
  constructor
  · rintro ⟨s, ⟨before, rfl⟩, comment, rest, hmarker, rfl⟩
    exact ⟨before, comment, rest, hmarker, rfl⟩
  · rintro ⟨before, comment, rest, hmarker, rfl⟩
    exact ⟨_, List.suffix_append _ _, comment, rest, hmarker, rfl⟩

/-- The only marker in a text is the one that is found. -/
theorem search_of_sole (hword : IsWord word) {before : List Char}
    (hmarker : IsMarker word comment)
    (hsole : occurrences word (before ++ (comment ++ rest)) ≤ 1) :
    search (marker? word) (before ++ (comment ++ rest)) = some (before, comment, rest) := by
  induction before with
  | nil =>
    have hread : marker? word (comment ++ rest) = some (comment, rest) :=
      (marker?_eq_some_iff hword).2 ⟨hmarker, rfl⟩
    obtain ⟨c, s, htext⟩ := List.exists_cons_of_ne_nil
      (List.append_ne_nil_of_left_ne_nil hmarker.ne_nil rest)
    rw [List.nil_append]
    rw [htext] at hread ⊢
    rw [search, hread]
  | cons c before ih =>
    have hpos : 0 < occurrences word (before ++ (comment ++ rest)) :=
      (occurrences_pos_iff hword).2 ⟨before, comment, rest, hmarker, rfl⟩
    rw [List.cons_append, occurrences_cons] at hsole
    rw [List.cons_append, search]
    split
    · next found hfound =>
      rw [hfound, Option.isSome_some, if_pos rfl] at hsole
      omega
    · rw [ih (by omega)]
      rfl

/-- No marker occurs where none is found. -/
theorem search_eq_none_iff_occurrences : search (marker? word) text = none ↔
    occurrences word text = 0 := by
  rw [search_eq_none_iff]
  unfold occurrences
  rw [List.countP_eq_zero]
  simp only [List.mem_tails, Bool.not_eq_true, Option.isSome_eq_false_iff,
    Option.isNone_iff_eq_none]
  constructor
  · rintro h s ⟨before, hs⟩
    exact h before s hs.symm
  · exact fun h before s hs => h s ⟨before, hs.symm⟩

end ShaderBuild.Target
