import Mathlib.Data.List.Infix
import ShaderBuild.Compiler.Process

/-!
# Reading a command line back

A command is shown on one line, its words parted by spaces, those with a blank in quotes. Read back
word by word (`Command.ofLine?`), a line ends a quoted word at the first quote with a space or
nothing behind it, and any other word at the first space. That gives the command again exactly when
its words can be told apart (`Readable`): no word with a blank has a quote with a space behind it,
and no other word begins with a quote (`ofLine?_line_iff`). Words that have quotes elsewhere are
read back.

Main statement: `line_determines_command`.
-/

namespace ShaderBuild

namespace Command

/-! ## Words -/

/-- What stands behind a word: nothing, or a space and more. -/
def behind : Option (List Char) → List Char
  | none => []
  | some rest => ' ' :: rest

/-- What stands behind the quote that ends a word, when a text begins with that quote. -/
def ending? : List Char → Option (Option (List Char))
  | ['"'] => some none
  | '"' :: ' ' :: rest => some (some rest)
  | _ => none

/-- The word up to the first quote that may end it, and what stands behind it. -/
def quoted? : List Char → Option (List Char × Option (List Char))
  | [] => none
  | c :: rest =>
    match ending? (c :: rest) with
    | some more => some ([], more)
    | none => (quoted? rest).map fun (word, more) => (c :: word, more)

/-- The word up to the first space, and what stands behind it. -/
def plain : List Char → List Char × Option (List Char)
  | [] => ([], none)
  | c :: rest =>
    if c = ' ' then ([], some rest)
    else
      let (word, more) := plain rest
      (c :: word, more)

/-- The word at the front of a line, and what stands behind it. -/
def word? : List Char → Option (List Char × Option (List Char))
  | '"' :: rest => quoted? rest
  | text => some (plain text)

/-- A word is known by its front, whatever stands behind it. -/
def Readable (word : List Char) : Prop :=
  if word.any Text.isBlank then ¬ ['"', ' '] <:+: word else word.head? ≠ some '"'

instance (word : List Char) : Decidable (Readable word) := by
  unfold Readable
  infer_instance

variable {c : Char} {text word rest : List Char} {more more' : Option (List Char)}

theorem behind_injective (h : behind more = behind more') : more = more' := by
  cases more <;> cases more' <;> simp_all [behind]

theorem ending?_eq_some_iff : ending? text = some more ↔ text = '"' :: behind more := by
  constructor
  · intro h
    unfold ending? at h
    split at h <;> cases h <;> rfl
  · rintro rfl
    cases more <;> rfl

/-- A plain word has no space. -/
theorem plain_eq_iff : plain text = (word, more) ↔ text = word ++ behind more ∧ ' ' ∉ word := by
  induction text generalizing word with
  | nil => cases word <;> cases more <;> simp [plain, behind]
  | cons c rest ih =>
    rw [plain]
    split
    · rename_i hspace
      constructor
      · intro h
        cases h
        exact ⟨by rw [hspace]; rfl, List.not_mem_nil⟩
      · rintro ⟨htext, hnone⟩
        cases word with
        | nil => cases more <;> cases htext; rfl
        | cons d word => exact absurd ((List.cons.inj htext).1 ▸ hspace ▸ List.mem_cons_self) hnone
    · rename_i hspace
      constructor
      · intro h
        obtain ⟨rfl, rfl⟩ := Prod.mk.inj h
        obtain ⟨hrest, hnone⟩ := ih.mp rfl
        exact ⟨congrArg (c :: ·) hrest, by simp [hnone, Ne.symm hspace]⟩
      · rintro ⟨htext, hnone⟩
        cases word with
        | nil => cases more <;> cases htext; exact absurd rfl hspace
        | cons d word =>
          obtain ⟨rfl, hrest⟩ := List.cons.inj htext
          rw [ih.mpr ⟨hrest, fun hmem => hnone (List.mem_cons_of_mem c hmem)⟩]

/-- A quoted word has no quote with a space behind it. -/
theorem quoted?_eq_some_iff : quoted? text = some (word, more) ↔
    text = word ++ '"' :: behind more ∧ ¬ ['"', ' '] <:+: word := by
  induction text generalizing word with
  | nil => simp [quoted?]
  | cons c rest ih =>
    rw [quoted?]
    split
    · rename_i more' hending
      rw [ending?_eq_some_iff] at hending
      constructor
      · intro h
        cases h
        exact ⟨hending, by simp⟩
      · rintro ⟨htext, hnone⟩
        rw [hending] at htext
        cases word with
        | nil => rw [behind_injective (List.cons.inj htext).2]
        | cons d word =>
          -- the word would go on behind a quote that ends it
          obtain ⟨rfl, hmore⟩ := List.cons.inj htext
          refine absurd ?_ hnone
          cases more' with
          | none => simp [behind] at hmore
          | some rest' =>
            cases word with
            | nil => cases hmore
            | cons d word =>
              obtain ⟨rfl, -⟩ := List.cons.inj hmore
              exact List.IsPrefix.isInfix ⟨word, rfl⟩
    · rename_i hending
      have hnext : ∀ more', c :: rest ≠ '"' :: behind more' := fun more' htext => by
        rw [ending?_eq_some_iff.mpr htext] at hending
        cases hending
      constructor
      · intro h
        obtain ⟨⟨word', more'⟩, hquoted, h⟩ := Option.map_eq_some_iff.mp h
        cases h
        obtain ⟨hrest, hnone⟩ := ih.mp hquoted
        refine ⟨congrArg (c :: ·) hrest, fun hinside => ?_⟩
        rcases List.infix_cons_iff.mp hinside with ⟨tail, htail⟩ | hinside
        · obtain ⟨rfl, rfl⟩ := List.cons.inj htail
          exact hnext (some (tail ++ '"' :: behind more)) (by rw [hrest]; rfl)
        · exact hnone hinside
      · rintro ⟨htext, hnone⟩
        cases word with
        | nil => exact absurd htext (hnext more)
        | cons d word =>
          obtain ⟨rfl, hrest⟩ := List.cons.inj htext
          have hsuffix := (List.suffix_cons c word).isInfix
          rw [ih.mpr ⟨hrest, fun hinside => hnone (hinside.trans hsuffix)⟩]
          rfl

theorem length_of_word? (h : word? text = some (word, some rest)) : rest.length < text.length := by
  unfold word? at h
  split at h
  · rename_i text
    rw [(quoted?_eq_some_iff.mp h).1]
    simp only [behind, List.length_append, List.length_cons]
    omega
  · rw [(plain_eq_iff.mp (Option.some.inj h)).1]
    simp only [behind, List.length_append, List.length_cons]
    omega

/-! ## Lines -/

/-- The words of a line. -/
def words? (text : List Char) : Option (List (List Char)) :=
  match _h : word? text with
  | none => none
  | some (word, none) => some [word]
  | some (word, some rest) => (words? rest).map (word :: ·)
termination_by text.length
decreasing_by exact length_of_word? _h

theorem words?_eq (text : List Char) : words? text =
    (word? text).bind fun (word, more) =>
      match more with
      | none => some [word]
      | some rest => (words? rest).map (word :: ·) := by
  rw [words?]
  split <;> simp [*]

/-- The command that a line shows. -/
def ofLine? (line : String) : Option Command :=
  match words? line.toList with
  | some (program :: arguments) =>
    some ⟨String.ofList program, arguments.map String.ofList⟩
  | _ => none

theorem toList_shown (argument : String) : (shown argument).toList =
    if argument.toList.any Text.isBlank then '"' :: (argument.toList ++ ['"'])
    else argument.toList := by
  unfold shown
  split <;> simp

theorem word?_of_head? (h : text.head? ≠ some '"') : word? text = some (plain text) := by
  unfold word?
  split
  · exact absurd rfl h
  · rfl

/-- A word without a space is not what is read when its first character opens a quoted one. -/
theorem quoted?_ne (hspace : ' ' ∉ word) :
    quoted? (word ++ behind more) ≠ some ('"' :: word, more') := by
  intro h
  have htext := (quoted?_eq_some_iff.mp h).1
  cases more with
  | none =>
    have hlength := congrArg List.length htext
    simp [behind] at hlength
    omega
  | some rest =>
    -- the word that is read is longer by one character, the space
    have hword := congrArg (List.take (word.length + 1)) htext
    have hlast : '"' :: word = word ++ [' '] := by
      simpa [behind, List.take_append, List.take_of_length_le (Nat.le_succ _)] using hword.symm
    have hmem : ' ' ∈ '"' :: word := hlast ▸ List.mem_append_right word List.mem_cons_self
    rcases List.mem_cons.mp hmem with hquote | hmem
    · exact absurd hquote (by decide)
    · exact hspace hmem

/-- **A shown word is read back** exactly when it is readable. -/
theorem word?_shown {argument : String} :
    word? ((shown argument).toList ++ behind more) = some (argument.toList, more') ↔
      Readable argument.toList ∧ more' = more := by
  rw [toList_shown, Readable]
  generalize argument.toList = word
  split
  · rw [List.cons_append, List.append_assoc]
    refine quoted?_eq_some_iff.trans ⟨fun ⟨htext, hnone⟩ => ⟨hnone, ?_⟩, ?_⟩
    · exact behind_injective (List.cons.inj (List.append_cancel_left htext)).2.symm
    · rintro ⟨hnone, rfl⟩
      exact ⟨rfl, hnone⟩
  · rename_i hblank
    have hspace : ' ' ∉ word := fun hmem => hblank (List.any_eq_true.mpr ⟨' ', hmem, by decide⟩)
    by_cases hquote : word.head? = some '"'
    · cases word with
      | nil => cases hquote
      | cons c word =>
        cases hquote
        have hmisread : quoted? (word ++ behind more) ≠ some ('"' :: word, more') :=
          quoted?_ne fun hmem => hspace (List.mem_cons_of_mem _ hmem)
        exact iff_of_false hmisread fun h => h.1 rfl
    · have hhead : (word ++ behind more).head? ≠ some '"' := by
        cases word with
        | nil => cases more <;> simp [behind]
        | cons c word => exact hquote
      rw [word?_of_head? hhead, Option.some.injEq, plain_eq_iff]
      constructor
      · rintro ⟨htext, -⟩
        exact ⟨hquote, behind_injective (List.append_cancel_left htext).symm⟩
      · rintro ⟨-, rfl⟩
        exact ⟨rfl, hspace⟩

/-- The text of a row of words. -/
def lineText : List String → Option (List Char)
  | [] => none
  | word :: words => some ((shown word).toList ++ behind (lineText words))

theorem lineText_cons (word : String) (words : List String) :
    lineText (word :: words) = some ([' '].intercalate ((word :: words).map fun w =>
      (shown w).toList)) := by
  induction words generalizing word with
  | nil => simp [lineText, behind]
  | cons next words ih =>
    rw [lineText, ih next]
    simp [behind]

theorem lineText_eq (c : Command) : lineText (c.program :: c.arguments) = some c.line.toList := by
  rw [lineText_cons, line, String.toList_intercalate, List.map_map]
  rfl

/-- **A row of shown words is read back** exactly when each word is readable. -/
theorem words?_lineText {words : List String} (h : lineText words = some text) :
    words? text = some (words.map String.toList) ↔ ∀ word ∈ words, Readable word.toList := by
  induction words generalizing text with
  | nil => cases h
  | cons word words ih =>
    obtain rfl := Option.some.inj h
    rw [List.forall_mem_cons, words?_eq]
    -- what is read behind the first word, once that is read back
    have hbehind : (match lineText words with
        | none => some [word.toList]
        | some rest => (words? rest).map (word.toList :: ·)) =
          some ((word :: words).map String.toList) ↔
        ∀ word ∈ words, Readable word.toList := by
      cases hrest : lineText words with
      | none => cases words <;> simp_all [lineText]
      | some rest => simp [← ih hrest]
    constructor
    · intro hwords
      obtain ⟨⟨word', more⟩, hword, hwords⟩ := Option.bind_eq_some_iff.mp hwords
      have hsame : word' = word.toList := by
        cases more with
        | none => exact (List.cons.inj (Option.some.inj hwords)).1
        | some rest =>
          obtain ⟨tail, -, htail⟩ := Option.map_eq_some_iff.mp hwords
          exact (List.cons.inj htail).1
      subst hsame
      obtain ⟨hreadable, rfl⟩ := word?_shown.mp hword
      exact ⟨hreadable, hbehind.mp hwords⟩
    · rintro ⟨hword, hwords⟩
      rw [word?_shown.mpr ⟨hword, rfl⟩]
      exact hbehind.mpr hwords

/-- A command whose words can be told apart on a line. -/
def IsReadable (c : Command) : Prop := ∀ word ∈ c.program :: c.arguments, Readable word.toList

instance (c : Command) : Decidable c.IsReadable :=
  inferInstanceAs (Decidable (∀ word ∈ c.program :: c.arguments, Readable word.toList))

theorem ofLine?_eq_some_iff {line : String} {c : Command} :
    ofLine? line = some c ↔
      words? line.toList = some ((c.program :: c.arguments).map String.toList) := by
  unfold ofLine?
  split
  · rename_i program arguments hwords
    rw [hwords]
    constructor
    · intro h
      cases h
      simp [List.map_map, Function.comp_def]
    · intro h
      obtain ⟨rfl, rfl⟩ := List.cons.inj (Option.some.inj h)
      simp [List.map_map, Function.comp_def]
  · rename_i hnone
    exact iff_of_false nofun (hnone _ _)

/-- **A command is read back** from its line exactly when it is readable. -/
theorem ofLine?_line_iff (c : Command) : ofLine? c.line = some c ↔ c.IsReadable := by
  rw [ofLine?_eq_some_iff, words?_lineText (lineText_eq c)]
  rfl

/-- Words without quotes are readable. -/
theorem isReadable_of_not_mem {c : Command}
    (h : ∀ word ∈ c.program :: c.arguments, '"' ∉ word.toList) : c.IsReadable := by
  intro word hword
  unfold Readable
  split
  · exact fun hinside => h word hword (hinside.subset List.mem_cons_self)
  · exact fun hhead => h word hword (List.mem_of_mem_head? hhead)

end Command

open Command in
/-- **A line determines its command** among the readable ones. A command is read back from its line
exactly when it is readable, which it is when no word has a quote, and so is the command of a job
from the report of its failure. -/
theorem line_determines_command (c c' : Command) :
    (ofLine? c.line = some c ↔ c.IsReadable) ∧
    ((∀ word ∈ c.program :: c.arguments, '"' ∉ word.toList) → c.IsReadable) ∧
    (c.IsReadable → c'.IsReadable → c.line = c'.line → c = c') ∧
    ∀ (t : Toolchain) (shell : Shell) (job : Job) (tree : FileTree) (failure : CompileFailure),
      (t.compiler shell job tree).failure = some failure → c = t.command job →
        (ofLine? failure.commandLine = some c ↔ c.IsReadable) := by
  refine ⟨ofLine?_line_iff c, isReadable_of_not_mem, fun h h' hline => ?_,
    fun t shell job tree failure hfailure hc => ?_⟩
  · have hread := (ofLine?_line_iff c).mpr h
    rw [hline, (ofLine?_line_iff c').mpr h'] at hread
    exact (Option.some.inj hread).symm
  · obtain ⟨text, -, rfl⟩ := Option.map_eq_some_iff.mp hfailure
    rw [hc]
    exact ofLine?_line_iff (t.command job)

/-! ## Quotes in defines -/

namespace QuotedDefines

/-- A toolchain without options. -/
def toolchain : Toolchain := ⟨.dxc, ⟨"dxc"⟩, .sm60, false, []⟩

/-- A permutation with the given defines, which is only checked. -/
def job (defines : List String) : Job := ⟨⟨"a.hlsl"⟩, ⟨"A", "main", .pixel, defines⟩, none⟩

/-- A shell in which every command fails. -/
def shell : Shell := fun _ tree => (.ended false "" "", tree)

/-- A tree without files. -/
def tree : FileTree := .empty [] ⟨0, 0⟩

/-- The header of a permutation with the given defines. -/
def header (defines : String) : List Char :=
  ("// ShaderCompiler. Name: A, Defines: " ++ defines).toList

end QuotedDefines

open Command QuotedDefines in
/-- A text with a blank as the value of a define is read back from the report of the failure, with
quotes and without, and the line of a command that parts it at the blank is another one. -/
theorem title_is_read_back :
    ofLine? (toolchain.command (job ["TITLE=a b"])).line =
      some (toolchain.command (job ["TITLE=a b"])) ∧
    (∃ failure, (toolchain.compiler shell (job ["TITLE=\"a b\""]) tree).failure = some failure ∧
      ofLine? failure.commandLine = some (toolchain.command (job ["TITLE=\"a b\""]))) ∧
    (toolchain.command (job ["TITLE=\"a b\""])).line ≠
      (toolchain.command (job ["TITLE=\"a", "b\""])).line := by
  have hwhole : (toolchain.command (job ["TITLE=\"a b\""])).IsReadable := by decide +kernel
  have hparted : (toolchain.command (job ["TITLE=\"a", "b\""])).IsReadable := by decide +kernel
  obtain ⟨hread, hunquoted, -⟩ := line_determines_command (toolchain.command (job ["TITLE=a b"]))
    (toolchain.command (job []))
  obtain ⟨-, -, hinjective, hfailure⟩ := line_determines_command
    (toolchain.command (job ["TITLE=\"a b\""])) (toolchain.command (job ["TITLE=\"a", "b\""]))
  refine ⟨hread.mpr (hunquoted (by decide +kernel)),
    ⟨_, rfl, (hfailure toolchain shell _ tree _ rfl rfl).mpr hwhole⟩, fun hline => ?_⟩
  exact absurd (hinjective hwhole hparted hline) (by decide +kernel)

open QuotedDefines in
/-- **Two commands on one line.** Two defines with a quote each are shown like one define with
blanks, and both rows of defines are read from headers. -/
theorem quotes_run_together :
    Directive.ofText ⟨"a.hlsl"⟩ (header "\"x; y\"") = .ok [(job ["\"x", "y\""]).directive] ∧
    Directive.ofText ⟨"a.hlsl"⟩ (header "x -D y") = .ok [(job ["x -D y"]).directive] ∧
    (toolchain.command (job ["\"x", "y\""])).line = (toolchain.command (job ["x -D y"])).line ∧
    toolchain.command (job ["\"x", "y\""]) ≠ toolchain.command (job ["x -D y"]) := by
  decide +kernel

end ShaderBuild
