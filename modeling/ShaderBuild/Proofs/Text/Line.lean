import ShaderBuild.Text.Line

/-!
# The lines of a text

Which texts have which lines (`IsLines`): a line feed ends a line and takes one carriage return
with it, and only the last line may lack it. Every text is cut into its lines in one way, and that
is how it is read (`lines_eq_iff`).
-/

namespace ShaderBuild.Text

/-- The lines that a text is made of. A line that ends in a carriage return is never followed by a
bare line feed, for there the carriage return belongs to the end of the line. -/
inductive IsLines : List (List Char) → List Char → Prop
  | nil : IsLines [] []
  | last {line : List Char} : line ≠ [] → '\n' ∉ line → IsLines [line] line
  | lineFeed {line : List Char} {lines : List (List Char)} {s : List Char} : '\n' ∉ line →
      line.getLast? ≠ some '\r' → IsLines lines s → IsLines (line :: lines) (line ++ '\n' :: s)
  | carriageReturn {line : List Char} {lines : List (List Char)} {s : List Char} :
      '\n' ∉ line → IsLines lines s → IsLines (line :: lines) (line ++ '\r' :: '\n' :: s)

variable {line done s : List Char} {ls : List (List Char)}

theorem linesFrom_append (h : '\n' ∉ line) (done s : List Char) :
    linesFrom done (line ++ s) = linesFrom (line.reverse ++ done) s := by
  induction line generalizing done with
  | nil => rfl
  | cons c line ih =>
    obtain ⟨hc, hline⟩ := not_or.1 (mt List.mem_cons.2 h)
    rw [List.cons_append, linesFrom]
    · rw [ih hline, List.reverse_cons, List.append_assoc, List.singleton_append]
    · exact fun heq => hc heq.symm

theorem closeLine_reverse (h : line.getLast? ≠ some '\r') : closeLine line.reverse = line := by
  unfold closeLine
  split
  · next r heq =>
    rw [List.getLast?_eq_head?_reverse, heq] at h
    exact absurd rfl h
  · exact List.reverse_reverse line

theorem lines_of_isLines (h : IsLines ls s) : lines s = ls := by
  induction h with
  | nil => rfl
  | @last line hne hline =>
    have hcut := linesFrom_append hline [] []
    rw [List.append_nil, List.append_nil] at hcut
    rw [lines, hcut, linesFrom, if_neg (by simpa using hne), List.reverse_reverse]
  | lineFeed hline hlast _ ih =>
    rw [lines, linesFrom_append hline, List.append_nil, linesFrom, closeLine_reverse hlast,
      ← lines, ih]
  | @carriageReturn line _ _ hline _ ih =>
    have hreturn : '\n' ∉ line ++ ['\r'] := by
      rw [List.mem_append, List.mem_singleton]
      exact not_or.2 ⟨hline, by decide⟩
    rw [← List.singleton_append, ← List.append_assoc, lines, linesFrom_append hreturn,
      List.append_nil, List.reverse_append, List.reverse_singleton, List.singleton_append,
      linesFrom, closeLine, List.reverse_reverse, ← lines, ih]

theorem isLines_linesFrom (h : '\n' ∉ done) : IsLines (linesFrom done s) (done.reverse ++ s) := by
  induction s generalizing done with
  | nil =>
    rw [linesFrom, List.append_nil]
    split
    · next hempty =>
      rw [List.isEmpty_iff.1 hempty]
      exact .nil
    · next hne => exact .last (by simpa using hne) (mt List.mem_reverse.1 h)
  | cons c s ih =>
    by_cases hc : c = '\n'
    · subst hc
      rw [linesFrom]
      have hreverse : '\n' ∉ done.reverse := mt List.mem_reverse.1 h
      have hrest := ih (List.not_mem_nil : '\n' ∉ [])
      by_cases hlast : done.reverse.getLast? = some '\r'
      · -- the carriage return belongs to the end of the line
        rw [List.getLast?_reverse] at hlast
        obtain ⟨line, rfl⟩ := List.head?_eq_some_iff.1 hlast
        rw [List.reverse_cons] at hreverse
        rw [closeLine, List.reverse_cons, List.append_assoc, List.singleton_append]
        exact .carriageReturn (mt (List.mem_append_left _) hreverse) hrest
      · have hclose := closeLine_reverse hlast
        rw [List.reverse_reverse] at hclose
        rw [hclose]
        exact .lineFeed hreverse hlast hrest
    · rw [linesFrom]
      · have hdone : '\n' ∉ c :: done := by
          rw [List.mem_cons]
          exact not_or.2 ⟨fun heq => hc heq.symm, h⟩
        have hrest := ih hdone
        rwa [List.reverse_cons, List.append_assoc, List.singleton_append] at hrest
      · exact hc

theorem IsLines.not_mem (h : IsLines ls s) : ∀ line ∈ ls, '\n' ∉ line := by
  induction h with
  | nil => exact fun _ hline => absurd hline List.not_mem_nil
  | last _ hline => exact List.forall_mem_singleton.2 hline
  | lineFeed hline _ _ ih => exact List.forall_mem_cons.2 ⟨hline, ih⟩
  | carriageReturn hline _ ih => exact List.forall_mem_cons.2 ⟨hline, ih⟩

/-- **The lines that are read are those the text is made of.** -/
theorem lines_eq_iff : lines s = ls ↔ IsLines ls s := by
  constructor
  · rintro rfl
    exact isLines_linesFrom (List.not_mem_nil : '\n' ∉ [])
  · exact lines_of_isLines

end ShaderBuild.Text
