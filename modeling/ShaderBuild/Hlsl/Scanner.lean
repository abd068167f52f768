import ShaderBuild.Hlsl.Token
import ShaderBuild.Text.Slice

/-!
# Scanning bytes

Shader source is scanned as the bytes that spell it. The scanner goes from place to place, looks at
one or two bytes at a time, and jumps over what it has recognized; it never looks at what its
bytes spell, except where it cuts a token out of the text, and that goes wrong inside a character.

A byte counts as the character with its number. For ASCII this is the character that it spells,
and the bytes of all other characters count as characters beyond ASCII, too.

## Termination

Each turn of the scanner, and each turn of a loop inside one, goes on by at least one byte
(`Scanner.lt_step`).

Main definitions: `Span`, `Scanner.step`, `Scanner.run`, `scan`.
-/

namespace ShaderBuild.Hlsl

open Text

/-! ## Loops -/

/-- The byte at a place. -/
def charAt? (bytes : List UInt8) (i : Nat) : Option Char := bytes[i]?.map Char.ofUInt8

theorem lt_length_of_charAt? {bytes : List UInt8} {i : Nat} {c : Char}
    (h : charAt? bytes i = some c) : i < bytes.length := by
  obtain ⟨b, hb, -⟩ := Option.map_eq_some_iff.1 h
  exact (List.getElem?_eq_some_iff.1 hb).1

/-- Goes on from a place over all bytes that satisfy `p`. -/
def skipWhile (p : Char → Bool) (bytes : List UInt8) (i : Nat) : Nat :=
  match _h : charAt? bytes i with
  | none => i
  | some c => if p c then skipWhile p bytes (i + 1) else i
termination_by bytes.length - i
decreasing_by
  have := lt_length_of_charAt? _h
  omega

/-- Goes on from a place in the given line to the end of a preprocessor line: the line there, and
the place. -/
def skipDirective (bytes : List UInt8) (line i : Nat) : Nat × Nat :=
  match _h : charAt? bytes i with
  | none => (line, i)
  | some c =>
    if c = '\n' then (line, i)
    else if c = '\\' ∧ charAt? bytes (i + 1) = some '\n' then
      skipDirective bytes (line + 1) (i + 2)
    else skipDirective bytes line (i + 1)
termination_by bytes.length - i
decreasing_by
  all_goals
    have := lt_length_of_charAt? _h
    omega

/-- Goes on from a place in the given line to the closing of a block comment: the line there, and
the place in front of it. -/
def skipComment (bytes : List UInt8) (line i : Nat) : Nat × Nat :=
  match _h : charAt? bytes i with
  | none => (line, i)
  | some c =>
    if c = '*' ∧ charAt? bytes (i + 1) = some '/' then (line, i)
    else if c = '\n' then skipComment bytes (line + 1) (i + 1)
    else skipComment bytes line (i + 1)
termination_by bytes.length - i
decreasing_by
  all_goals
    have := lt_length_of_charAt? _h
    omega

variable {bytes : List UInt8} {i line : Nat} {c : Char} {p : Char → Bool}

theorem skipWhile_of_none (h : charAt? bytes i = none) : skipWhile p bytes i = i := by
  rw [skipWhile]
  split
  · rfl
  · next h' => rw [h] at h'; cases h'

theorem skipWhile_of_some (h : charAt? bytes i = some c) :
    skipWhile p bytes i = if p c then skipWhile p bytes (i + 1) else i := by
  rw [skipWhile]
  split
  · next h' => rw [h] at h'; cases h'
  · next h' => rw [h] at h'; cases h'; rfl

theorem skipDirective_of_none (h : charAt? bytes i = none) :
    skipDirective bytes line i = (line, i) := by
  rw [skipDirective]
  split
  · rfl
  · next h' => rw [h] at h'; cases h'

theorem skipDirective_of_some (h : charAt? bytes i = some c) : skipDirective bytes line i =
    if c = '\n' then (line, i)
    else if c = '\\' ∧ charAt? bytes (i + 1) = some '\n' then
      skipDirective bytes (line + 1) (i + 2)
    else skipDirective bytes line (i + 1) := by
  rw [skipDirective]
  split
  · next h' => rw [h] at h'; cases h'
  · next h' => rw [h] at h'; cases h'; rfl

theorem skipComment_of_none (h : charAt? bytes i = none) :
    skipComment bytes line i = (line, i) := by
  rw [skipComment]
  split
  · rfl
  · next h' => rw [h] at h'; cases h'

theorem skipComment_of_some (h : charAt? bytes i = some c) : skipComment bytes line i =
    if c = '*' ∧ charAt? bytes (i + 1) = some '/' then (line, i)
    else if c = '\n' then skipComment bytes (line + 1) (i + 1)
    else skipComment bytes line (i + 1) := by
  rw [skipComment]
  split
  · next h' => rw [h] at h'; cases h'
  · next h' => rw [h] at h'; cases h'; rfl

theorem le_skipWhile (p : Char → Bool) (bytes : List UInt8) (i : Nat) :
    i ≤ skipWhile p bytes i := by
  fun_induction skipWhile p bytes i <;> omega

theorem le_skipDirective (bytes : List UInt8) (line i : Nat) :
    i ≤ (skipDirective bytes line i).2 := by
  fun_induction skipDirective bytes line i <;> omega

theorem le_skipComment (bytes : List UInt8) (line i : Nat) :
    i ≤ (skipComment bytes line i).2 := by
  fun_induction skipComment bytes line i <;> omega

theorem lt_skipWhile (h : charAt? bytes i = some c) (hp : p c = true) :
    i < skipWhile p bytes i := by
  rw [skipWhile_of_some h, if_pos hp]
  exact le_skipWhile p bytes (i + 1)

theorem lt_skipDirective (h : charAt? bytes i = some c) (hc : c ≠ '\n') :
    i < (skipDirective bytes line i).2 := by
  rw [skipDirective_of_some h, if_neg hc]
  split
  · exact Nat.lt_of_lt_of_le (by omega) (le_skipDirective bytes (line + 1) (i + 2))
  · exact le_skipDirective bytes line (i + 1)

/-! ## The scanner -/

/-- A token by the places where it starts and ends. -/
structure Span where
  kind : Token.Kind
  text : List Char
  start : Nat
  stop : Nat
  /-- The line the token starts in, counted from 1. -/
  line : Nat
deriving DecidableEq, Repr

/-- The sort of the token that starts at a place with `c`, and the place where it ends. There is
none where a character is asked for at a place inside one. -/
def spanEnd? (bytes : List UInt8) (i : Nat) (c : Char) : Option (Token.Kind × Nat) :=
  if c.isAlpha || c == '_' then some (.word, skipWhile isWordPart bytes i)
  else if c.isDigit then some (.number, skipWhile isNumberPart bytes i)
  else if c = '"' then
    some (.literal, min (skipWhile isLiteralPart bytes (i + 1) + 1) bytes.length)
  else (slice? bytes i bytes.length).map fun rest =>
    (.mark, i + (rest.head?.map Char.utf8Size).getD 1)

/-- Where a scanner is, and what it has found. -/
structure Scanner where
  place : Nat := 0
  line : Nat := 1
  /-- Only blanks and comments stand between the start of the line and the place. -/
  fresh : Bool := true
  spans : List Span := []

namespace Scanner

/-- One turn of a scanner at a place with the byte `c`. There is none where it would cut through a
character. -/
def step (bytes : List UInt8) (s : Scanner) (c : Char) : Option Scanner :=
  if c = '\n' then some { s with place := s.place + 1, line := s.line + 1, fresh := true }
  else if isSpace c then some { s with place := s.place + 1 }
  else if c = '#' ∧ s.fresh then
    let (line, place) := skipDirective bytes s.line s.place
    some { s with place, line }
  else if c = '/' ∧ charAt? bytes (s.place + 1) = some '/' then
    some { s with place := skipWhile (· ≠ '\n') bytes s.place }
  else if c = '/' ∧ charAt? bytes (s.place + 1) = some '*' then
    let (line, place) := skipComment bytes s.line (s.place + 2)
    some { s with place := min (place + 2) bytes.length, line }
  else do
    let (kind, stop) ← spanEnd? bytes s.place c
    let text ← slice? bytes s.place stop
    return { s with
      place := stop
      fresh := false
      spans := s.spans ++ [⟨kind, text, s.place, stop, s.line⟩] }

end Scanner

/-- A token is not empty. -/
theorem lt_spanEnd? {kind : Token.Kind} {stop : Nat} (hc : charAt? bytes i = some c)
    (h : spanEnd? bytes i c = some (kind, stop)) : i < stop := by
  have hi := lt_length_of_charAt? hc
  unfold spanEnd? at h
  split at h
  · next hword =>
    cases h
    exact lt_skipWhile hc (isWordPart_of_start hword)
  split at h
  · next hdigit =>
    cases h
    exact lt_skipWhile hc (isNumberPart_of_isDigit hdigit)
  split at h
  · cases h
    have := le_skipWhile isLiteralPart bytes (i + 1)
    omega
  · obtain ⟨rest, -, hrest⟩ := Option.map_eq_some_iff.1 h
    cases hrest
    cases rest with
    | nil => exact Nat.lt_succ_self i
    | cons d rest => exact Nat.lt_add_of_pos_right d.utf8Size_pos

/-- **Each turn goes on** by at least one byte, whatever the bytes are. -/
theorem Scanner.lt_step {s s' : Scanner} (hc : charAt? bytes s.place = some c)
    (h : s.step bytes c = some s') : s.place < s'.place := by
  have hi := lt_length_of_charAt? hc
  unfold step at h
  split at h
  · cases h
    exact Nat.lt_succ_self _
  split at h
  · cases h
    exact Nat.lt_succ_self _
  split at h
  · next hsign =>
    cases h
    exact lt_skipDirective hc (by rw [hsign.1]; decide)
  split at h
  · next hslash =>
    cases h
    exact lt_skipWhile hc (by rw [hslash.1]; decide)
  split at h
  · cases h
    have := le_skipComment bytes s.line (s.place + 2)
    show s.place < min _ _
    omega
  · obtain ⟨⟨kind, stop⟩, hend, h⟩ := Option.bind_eq_some_iff.1 h
    obtain ⟨text, -, h⟩ := Option.bind_eq_some_iff.1 h
    cases h
    exact lt_spanEnd? hc hend

/-- Turns of a scanner up to the end of the bytes. -/
def Scanner.run (bytes : List UInt8) (s : Scanner) : Option Scanner :=
  match _h : charAt? bytes s.place with
  | none => some s
  | some c =>
    match _h' : s.step bytes c with
    | none => none
    | some s' => run bytes s'
termination_by bytes.length - s.place
decreasing_by
  have := lt_length_of_charAt? _h
  have := s.lt_step _h _h'
  omega

/-- The tokens of a text, scanned as bytes. -/
def scan (bytes : List UInt8) : Option (List Span) := (Scanner.run bytes {}).map (·.spans)

theorem Scanner.run_of_none {s : Scanner} (h : charAt? bytes s.place = none) :
    s.run bytes = some s := by
  rw [run]
  split
  · rfl
  · next h' => rw [h] at h'; cases h'

theorem Scanner.run_of_step {s s' : Scanner} (hc : charAt? bytes s.place = some c)
    (h : s.step bytes c = some s') : s.run bytes = s'.run bytes := by
  rw [run]
  split
  · next h' => rw [hc] at h'; cases h'
  · next c' hc' =>
    rw [hc] at hc'
    cases hc'
    split
    · next h' => rw [h] at h'; cases h'
    · next h' => rw [h] at h'; cases h'; rfl

end ShaderBuild.Hlsl
