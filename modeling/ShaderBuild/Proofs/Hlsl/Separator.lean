import Mathlib.Data.List.Infix
import ShaderBuild.Hlsl.Token

/-!
# Gaps as they are written

A gap between two tokens is a row of separators. A separator is written down with what makes it
one: a line comment has no line feed in it, a block comment does not end early, and a directive
does not continue on the next line. A directive also needs a line of its own, which is a matter of
where it stands (`Fits`).

However a gap is put together, it is read as one gap (`gap_append`).
-/

namespace ShaderBuild.Hlsl

/-- One separator as it is written. -/
inductive Separator where
  | blank (c : Char) (space : isSpace c = true)
  | lineComment (body : List Char) (oneLine : '\n' ∉ body)
  | blockComment (body : List Char) (unended : ¬ ['*', '/'] <:+: body)
  | directive (body : List Char) (oneLine : '\n' ∉ body) (uncontinued : body.getLast? ≠ some '\\')

namespace Separator

/-- The text of a separator. Line comments and directives take the end of their line along. -/
def text : Separator → List Char
  | blank c _ => [c]
  | lineComment body _ => '/' :: '/' :: body ++ ['\n']
  | blockComment body _ => '/' :: '*' :: body ++ ['*', '/']
  | directive body _ _ => '#' :: body ++ ['\n']

/-- Whether the separator may stand where a line starts, or where none does. -/
def fits (fresh : Bool) : Separator → Bool
  | directive .. => fresh
  | _ => true

/-- Whether a line starts behind the separator. -/
def leaves (fresh : Bool) : Separator → Bool
  | blank c _ => c == '\n' || fresh
  | blockComment .. => fresh
  | _ => true

end Separator

/-- The text of a row of separators. -/
def gapText (g : List Separator) : List Char := g.flatMap Separator.text

/-- Whether the directives in a row of separators stand on lines of their own. -/
def Fits : Bool → List Separator → Prop
  | _, [] => True
  | fresh, sep :: g => sep.fits fresh = true ∧ Fits (sep.leaves fresh) g

instance : ∀ fresh g, Decidable (Fits fresh g)
  | _, [] => isTrue trivial
  | fresh, sep :: g =>
    have := instDecidableFits (sep.leaves fresh) g
    inferInstanceAs (Decidable (sep.fits fresh = true ∧ Fits (sep.leaves fresh) g))

/-! ## Reading one separator -/

variable {fresh fresh' : Bool} {s t r : List Char}

/-- A separator stands at the front of a text: what it is, whether a line starts behind it, and
what follows. -/
inductive Separates : Bool → List Char → List Char → Bool → List Char → Prop
  | lineFeed (fresh : Bool) (r : List Char) : Separates fresh ('\n' :: r) ['\n'] true r
  | blank (fresh : Bool) {c : Char} (r : List Char) : c ≠ '\n' → isSpace c = true →
      Separates fresh (c :: r) [c] fresh r
  | directive (s : List Char) : Separates true ('#' :: s) ('#' :: (preprocessorLine s).1) true
      (preprocessorLine s).2
  | lineComment (fresh : Bool) (s : List Char) : Separates fresh ('/' :: '/' :: s)
      ('/' :: '/' :: s.takeWhile (· ≠ '\n')) fresh (s.dropWhile (· ≠ '\n'))
  | blockComment (fresh : Bool) (s : List Char) : Separates fresh ('/' :: '*' :: s)
      ('/' :: '*' :: (commentBody s).1) fresh (commentBody s).2

theorem separator?_eq_some_iff :
    separator? fresh s = some (t, fresh', r) ↔ Separates fresh s t fresh' r := by
  constructor
  · intro h
    cases s with
    | nil => cases h
    | cons c s =>
      simp only [separator?] at h
      split at h
      · next hc =>
        cases h
        exact hc ▸ .lineFeed fresh _
      split at h
      · next hc hspace =>
        cases h
        exact .blank fresh _ hc hspace
      split at h
      · next hsign =>
        cases h
        obtain ⟨rfl, rfl⟩ := hsign
        exact .directive s
      split at h
      · next hslash =>
        cases h
        obtain ⟨rfl, hhead⟩ := hslash
        obtain ⟨s, rfl⟩ := List.head?_eq_some_iff.1 hhead
        exact .lineComment fresh s
      split at h
      · next hstar =>
        cases h
        obtain ⟨rfl, hhead⟩ := hstar
        obtain ⟨s, rfl⟩ := List.head?_eq_some_iff.1 hhead
        exact .blockComment fresh s
      · cases h
  · intro h
    cases h with
    | lineFeed => simp [separator?]
    | blank hc hspace => simp [separator?, *]
    | directive => simp [separator?, isSpace]
    | lineComment => simp [separator?, isSpace]
    | blockComment => simp [separator?, isSpace]

theorem separator?_eq_none_iff {c : Char} : separator? fresh (c :: s) = none ↔
    isSpace c = false ∧ (c = '#' → fresh = false) ∧
      (c = '/' → s.head? ≠ some '/' ∧ s.head? ≠ some '*') := by
  have hline : c = '\n' → isSpace c = true := by
    rintro rfl
    rfl
  simp only [separator?]
  split_ifs <;> simp_all

theorem gap_of_none (h : separator? fresh s = none) : gap fresh s = ([], s) := by
  rw [gap]
  split
  · rfl
  · next h' => rw [h] at h'; cases h'

theorem gap_of_some (h : separator? fresh s = some (t, fresh', r)) :
    gap fresh s = (t ++ (gap fresh' r).1, (gap fresh' r).2) := by
  rw [gap]
  split
  · next h' => rw [h] at h'; cases h'
  · next h' => rw [h] at h'; cases h'; rfl

theorem gap_newline : gap fresh ('\n' :: s) = ('\n' :: (gap true s).1, (gap true s).2) := by
  have hread : separator? fresh ('\n' :: s) = some (['\n'], true, s) := by simp [separator?]
  exact gap_of_some hread

/-- A directive that is not continued ends with its line. -/
theorem preprocessorLine_append {body : List Char} (oneLine : '\n' ∉ body)
    (uncontinued : body.getLast? ≠ some '\\') :
    preprocessorLine (body ++ '\n' :: s) = (body, '\n' :: s) := by
  induction body with
  | nil => simp [preprocessorLine]
  | cons c body ih =>
    simp only [List.mem_cons, not_or] at oneLine
    obtain ⟨hc, hbody⟩ := oneLine
    have hrest : body.getLast? ≠ some '\\' := by
      cases body with
      | nil => simp
      | cons d body => simpa [List.getLast?_cons_cons] using uncontinued
    rw [List.cons_append, preprocessorLine.eq_4, ih hbody hrest]
    · -- a backslash that ends the body is excluded, and no line feed is inside
      rintro r rfl h
      cases body with
      | nil => simp at uncontinued
      | cons d body =>
        cases h
        simp at hbody
    · rintro rfl
      exact hc rfl

/-- A block comment ends at its first end. -/
theorem commentBody_append {body : List Char} (unended : ¬ ['*', '/'] <:+: body) :
    commentBody (body ++ '*' :: '/' :: s) = (body ++ ['*', '/'], s) := by
  induction body with
  | nil => simp [commentBody]
  | cons c body ih =>
    have hbody : ¬ ['*', '/'] <:+: body := fun h => unended (List.infix_cons h)
    rw [List.cons_append, commentBody.eq_3, ih hbody]
    · rfl
    · rintro r rfl h
      cases body with
      | nil => cases h
      | cons d body =>
        cases h
        exact unended ⟨[], body, rfl⟩

/-- A separator is read as one part of the gap. -/
theorem gap_separator (sep : Separator) (h : sep.fits fresh = true) :
    gap fresh (sep.text ++ s) =
      (sep.text ++ (gap (sep.leaves fresh) s).1, (gap (sep.leaves fresh) s).2) := by
  cases sep with
  | blank c space =>
    refine gap_of_some ?_
    by_cases hc : c = '\n'
    · simp [separator?, Separator.text, Separator.leaves, hc]
    · simp [separator?, Separator.text, Separator.leaves, hc, space]
  | lineComment body oneLine =>
    have hline : ∀ c ∈ '/' :: body, decide (c ≠ '\n') = true := by
      intro c hc
      rcases List.mem_cons.1 hc with rfl | hc
      · decide
      · exact decide_eq_true fun heq => oneLine (heq ▸ hc)
    have htake : ('/' :: body ++ '\n' :: s).takeWhile (· ≠ '\n') = '/' :: body := by
      rw [List.takeWhile_append_of_pos hline, List.takeWhile_cons_of_neg (by simp),
        List.append_nil]
    have hdrop : ('/' :: body ++ '\n' :: s).dropWhile (· ≠ '\n') = '\n' :: s := by
      rw [List.dropWhile_append_of_pos hline, List.dropWhile_cons_of_neg (by simp)]
    have hread : separator? fresh ('/' :: ('/' :: body ++ '\n' :: s)) =
        some ('/' :: '/' :: body, fresh, '\n' :: s) := by
      simp only [separator?, htake, hdrop]
      simp [isSpace]
    have htext : (Separator.lineComment body oneLine).text ++ s =
        '/' :: ('/' :: body ++ '\n' :: s) := by
      simp [Separator.text]
    rw [htext, gap_of_some hread, gap_newline]
    simp [Separator.text, Separator.leaves]
  | blockComment body unended =>
    refine gap_of_some ?_
    simp [separator?, isSpace, Separator.text, Separator.leaves, commentBody_append unended]
  | directive body oneLine uncontinued =>
    obtain rfl : fresh = true := h
    have hread : separator? true ('#' :: (body ++ '\n' :: s)) =
        some ('#' :: body, true, '\n' :: s) := by
      simp [separator?, isSpace, preprocessorLine_append oneLine uncontinued]
    have htext : (Separator.directive body oneLine uncontinued).text ++ s =
        '#' :: (body ++ '\n' :: s) := by
      simp [Separator.text]
    rw [htext, gap_of_some hread, gap_newline]
    simp [Separator.text, Separator.leaves]

/-! ## Reading a gap -/

/-- A text that does not start with a separator, wherever it stands. -/
def Solid (s : List Char) : Prop := ∀ fresh, separator? fresh s = none

theorem solid_nil : Solid [] := fun _ => rfl

theorem solid_cons {c : Char} (space : isSpace c = false) (sign : c ≠ '#') (slash : c ≠ '/') :
    Solid (c :: s) := by
  intro fresh
  have hline : c ≠ '\n' := by
    rintro rfl
    cases space
  simp [separator?, hline, space, sign, slash]

/-- **A gap is read back**, whatever separators it is made of. -/
theorem gap_append {g : List Separator} (fits : Fits fresh g) (solid : Solid s) :
    gap fresh (gapText g ++ s) = (gapText g, s) := by
  induction g generalizing fresh with
  | nil => exact gap_of_none (solid fresh)
  | cons sep g ih =>
    obtain ⟨hsep, hg⟩ := fits
    rw [gapText, List.flatMap_cons, List.append_assoc, gap_separator sep hsep]
    rw [← gapText, ih hg]

/-- Blanks within a line are read as a gap. -/
theorem gap_blanks {b : List Char} (blank : ∀ c ∈ b, isSpace c = true) (oneLine : '\n' ∉ b)
    (solid : separator? fresh s = none) : gap fresh (b ++ s) = (b, s) := by
  induction b with
  | nil => exact gap_of_none solid
  | cons c b ih =>
    obtain ⟨hc, hb⟩ := List.forall_mem_cons.1 blank
    simp only [List.mem_cons, not_or] at oneLine
    have hread : separator? fresh (c :: (b ++ s)) = some ([c], fresh, b ++ s) := by
      simp [separator?, hc, Ne.symm oneLine.1]
    rw [List.cons_append, gap_of_some hread, ih hb oneLine.2]
    rfl

end ShaderBuild.Hlsl
