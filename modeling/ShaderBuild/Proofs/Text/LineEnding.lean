import Mathlib.Data.List.TakeWhile
import ShaderBuild.Proofs.Text.Line

/-!
# Line endings

A text may be written with a carriage return in front of every line feed (`crlf`). It has the same
lines then (`lines_crlf`), because a carriage return there belongs to the end of the line.

A run of characters ends where it did, if the carriage return ends it as the line feed does
(`takeWhile_crlf`, `dropWhile_crlf`). A run that only the line feed ends takes the carriage return
along (`run_crlf`).
-/

namespace ShaderBuild.Text

variable {s r : List Char} {c : Char} {p : Char → Bool}

/-- The text with a carriage return in front of every line feed. -/
def crlf (s : List Char) : List Char := s.flatMap fun c => if c = '\n' then ['\r', '\n'] else [c]

@[simp] theorem crlf_nil : crlf [] = [] := rfl

@[simp] theorem crlf_lineFeed (s : List Char) : crlf ('\n' :: s) = '\r' :: '\n' :: crlf s := rfl

theorem crlf_cons (h : c ≠ '\n') (s : List Char) : crlf (c :: s) = c :: crlf s := by
  rw [crlf, List.flatMap_cons, if_neg h]
  rfl

@[simp] theorem crlf_append (s r : List Char) : crlf (s ++ r) = crlf s ++ crlf r :=
  List.flatMap_append

@[simp] theorem crlf_eq_nil_iff : crlf s = [] ↔ s = [] := by
  cases s with
  | nil => simp
  | cons c s => by_cases h : c = '\n' <;> simp [crlf, h]

/-- A text on one line stays as it is. -/
theorem crlf_of_notMem (h : '\n' ∉ s) : crlf s = s := by
  induction s with
  | nil => rfl
  | cons c s ih =>
    obtain ⟨hc, hs⟩ := not_or.1 (mt List.mem_cons.2 h)
    rw [crlf_cons (Ne.symm hc), ih hs]

/-- No line feed comes or goes. -/
theorem count_crlf (s : List Char) : (crlf s).count '\n' = s.count '\n' := by
  induction s with
  | nil => rfl
  | cons c s ih => by_cases h : c = '\n' <;> simp [crlf_cons, h, ih]

/-- The text starts with the same character, unless that is a line feed or a carriage return. -/
theorem head?_crlf_eq_some_iff (hlf : c ≠ '\n') (hcr : c ≠ '\r') :
    (crlf s).head? = some c ↔ s.head? = some c := by
  cases s with
  | nil => rfl
  | cons d s =>
    by_cases hd : d = '\n'
    · subst hd
      simp [Ne.symm hlf, Ne.symm hcr]
    · rw [crlf_cons hd]
      rfl

/-- The text without its carriage returns. -/
def stripReturns (s : List Char) : List Char := s.filter (· ≠ '\r')

theorem stripReturns_append (s r : List Char) :
    stripReturns (s ++ r) = stripReturns s ++ stripReturns r :=
  List.filter_append ..

theorem stripReturns_crlf (s : List Char) : stripReturns (crlf s) = stripReturns s := by
  induction s with
  | nil => rfl
  | cons c s ih =>
    by_cases hc : c = '\n'
    · subst hc
      rw [crlf_lineFeed, stripReturns, List.filter_cons_of_neg (by decide),
        List.filter_cons_of_pos (by decide), ← stripReturns, ih]
      rfl
    · rw [crlf_cons hc, stripReturns, stripReturns, List.filter_cons, List.filter_cons,
        ← stripReturns, ih]
      rfl

/-! ## Runs of characters -/

theorem takeWhile_crlf (hlf : p '\n' = false) (hcr : p '\r' = false) (s : List Char) :
    (crlf s).takeWhile p = s.takeWhile p := by
  induction s with
  | nil => rfl
  | cons c s ih =>
    by_cases hc : c = '\n'
    · subst hc
      rw [crlf_lineFeed, List.takeWhile_cons_of_neg (by simp [hcr]),
        List.takeWhile_cons_of_neg (by simp [hlf])]
    · rw [crlf_cons hc, List.takeWhile_cons, List.takeWhile_cons, ih]

theorem dropWhile_crlf (hlf : p '\n' = false) (hcr : p '\r' = false) (s : List Char) :
    (crlf s).dropWhile p = crlf (s.dropWhile p) := by
  induction s with
  | nil => rfl
  | cons c s ih =>
    by_cases hc : c = '\n'
    · subst hc
      rw [crlf_lineFeed, List.dropWhile_cons_of_neg (by simp [hcr]),
        List.dropWhile_cons_of_neg (by simp [hlf]), crlf_lineFeed]
    · rw [crlf_cons hc, List.dropWhile_cons, List.dropWhile_cons, ih]
      split
      · rfl
      · rw [crlf_cons hc]

/-- A run that no line feed is in, and what follows it. -/
theorem crlf_eq_run (hlf : p '\n' = false) (s : List Char) :
    crlf s = s.takeWhile p ++ crlf (s.dropWhile p) := by
  have hrun : '\n' ∉ s.takeWhile p := fun hmem => by
    rw [List.mem_takeWhile_imp hmem] at hlf
    cases hlf
  calc crlf s = crlf (s.takeWhile p ++ s.dropWhile p) := by rw [List.takeWhile_append_dropWhile]
    _ = s.takeWhile p ++ crlf (s.dropWhile p) := by rw [crlf_append, crlf_of_notMem hrun]

/-- A run that goes on through a carriage return takes the one in front of its line feed along,
and ends where it did otherwise. -/
theorem run_crlf (hlf : p '\n' = false) (hcr : p '\r' = true) (s : List Char) :
    (∃ r, s.dropWhile p = '\n' :: r ∧ (crlf s).takeWhile p = s.takeWhile p ++ ['\r'] ∧
      (crlf s).dropWhile p = '\n' :: crlf r) ∨
    (s.dropWhile p).head? ≠ some '\n' ∧ (crlf s).takeWhile p = s.takeWhile p ∧
      (crlf s).dropWhile p = crlf (s.dropWhile p) := by
  rw [crlf_eq_run hlf,
    List.takeWhile_append_of_pos (fun c hc => List.mem_takeWhile_imp hc),
    List.dropWhile_append_of_pos (fun c hc => List.mem_takeWhile_imp hc)]
  have hstop := List.head?_dropWhile_not p s
  cases hrest : s.dropWhile p with
  | nil => exact .inr ⟨by simp, by simp, rfl⟩
  | cons d rest =>
    by_cases hd : d = '\n'
    · subst hd
      refine .inl ⟨rest, rfl, ?_, ?_⟩
      · rw [crlf_lineFeed, List.takeWhile_cons_of_pos hcr,
          List.takeWhile_cons_of_neg (by simp [hlf])]
      · rw [crlf_lineFeed, List.dropWhile_cons_of_pos hcr,
          List.dropWhile_cons_of_neg (by simp [hlf])]
    · rw [hrest] at hstop
      have hstop : ¬ p d = true := by simpa using hstop
      refine .inr ⟨by simpa using hd, ?_, ?_⟩
      · rw [crlf_cons hd, List.takeWhile_cons_of_neg hstop, List.append_nil]
      · rw [crlf_cons hd, List.dropWhile_cons_of_neg hstop]

/-! ## Lines -/

theorem IsLines.crlf {ls : List (List Char)} (h : IsLines ls s) (hcr : '\r' ∉ s) :
    IsLines ls (crlf s) := by
  induction h with
  | nil => exact .nil
  | last hne hline =>
    rw [crlf_of_notMem hline]
    exact .last hne hline
  | lineFeed hline _ _ ih =>
    rw [crlf_append, crlf_of_notMem hline, crlf_lineFeed]
    exact .carriageReturn hline (ih fun hmem => hcr (by simp [hmem]))
  | carriageReturn => simp at hcr

/-- **A text has the same lines** with either line ending. -/
theorem lines_crlf (h : '\r' ∉ s) : lines (crlf s) = lines s :=
  lines_of_isLines ((lines_eq_iff.1 rfl).crlf h)

theorem numberedLines_crlf (h : '\r' ∉ s) : numberedLines (crlf s) = numberedLines s := by
  rw [numberedLines, numberedLines, lines_crlf h]

end ShaderBuild.Text
