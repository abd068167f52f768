/-!
# Tokens of shader source

Shader source is cut into *tokens*: words, numbers, string literals, and marks of one character
each. Between two tokens stands a *gap* made of separators: ASCII blanks, line comments, block
comments and whole preprocessor lines. Every token carries the gap in front of it, so the tokens
of a text followed by its last gap give back the text, and the text between two tokens can be
quoted from them alone.

## Termination

No fuel is used: a separator is never empty (`separator?_eq`) and neither is a token
(`lexeme_eq`), so what is left gets shorter.
-/

namespace ShaderBuild.Hlsl

/-! ## Separators -/

/-- The blanks of shader source: tab, line feed, form feed, carriage return and space. -/
def isSpace (c : Char) : Bool :=
  c == '\t' || c == '\n' || c == '\x0c' || c == '\r' || c == ' '

/-- A preprocessor line without the line feed that ends it, and the rest. A backslash directly
before a line feed continues the line. -/
def preprocessorLine : List Char → List Char × List Char
  | [] => ([], [])
  | '\\' :: '\n' :: r => ('\\' :: '\n' :: (preprocessorLine r).1, (preprocessorLine r).2)
  | '\n' :: r => ([], '\n' :: r)
  | c :: r => (c :: (preprocessorLine r).1, (preprocessorLine r).2)

/-- What follows the opening of a block comment, through its end if it has one, and the rest. -/
def commentBody : List Char → List Char × List Char
  | [] => ([], [])
  | '*' :: '/' :: r => (['*', '/'], r)
  | c :: r => (c :: (commentBody r).1, (commentBody r).2)

/-- The separator at the front of a text, whether a line starts behind it, and the rest.
`fresh` says that only blanks and comments stand between the start of the line and the text: a
number sign opens a preprocessor line only there. -/
def separator? (fresh : Bool) : List Char → Option (List Char × Bool × List Char)
  | [] => none
  | c :: r =>
    if c = '\n' then some (['\n'], true, r)
    else if isSpace c then some ([c], fresh, r)
    else if c = '#' ∧ fresh then
      some (c :: (preprocessorLine r).1, fresh, (preprocessorLine r).2)
    else if c = '/' ∧ r.head? = some '/' then
      some (c :: r.takeWhile (· ≠ '\n'), fresh, r.dropWhile (· ≠ '\n'))
    else if c = '/' ∧ r.head? = some '*' then
      some ('/' :: '*' :: (commentBody r.tail).1, fresh, (commentBody r.tail).2)
    else none

theorem preprocessorLine_eq (s : List Char) :
    (preprocessorLine s).1 ++ (preprocessorLine s).2 = s := by
  fun_induction preprocessorLine s <;> simp_all

theorem commentBody_eq (s : List Char) : (commentBody s).1 ++ (commentBody s).2 = s := by
  fun_induction commentBody s <;> simp_all

/-- A separator is a non-empty beginning of the text. -/
theorem separator?_eq {fresh fresh' : Bool} {s t r : List Char}
    (h : separator? fresh s = some (t, fresh', r)) : t ≠ [] ∧ t ++ r = s := by
  cases s with
  | nil => simp [separator?] at h
  | cons c s =>
    simp only [separator?] at h
    split at h
    · next hc => cases h; simp [hc]
    split at h
    · cases h; simp
    split at h
    · cases h; simp [preprocessorLine_eq]
    split at h
    · cases h
      refine ⟨by simp, ?_⟩
      rw [List.cons_append, List.takeWhile_append_dropWhile]
    split at h
    · next hc =>
      cases h
      obtain ⟨rfl, hh⟩ := hc
      cases s with
      | nil => simp at hh
      | cons d s =>
        obtain rfl : d = '*' := by simpa using hh
        exact ⟨by simp, by simp [commentBody_eq]⟩
    · cases h

/-- The gap at the front of a text and the rest, which starts with no separator. -/
def gap (fresh : Bool) (s : List Char) : List Char × List Char :=
  match _h : separator? fresh s with
  | none => ([], s)
  | some (t, fresh', r) => (t ++ (gap fresh' r).1, (gap fresh' r).2)
termination_by s.length
decreasing_by
  all_goals
    obtain ⟨ht, hs⟩ := separator?_eq _h
    have := List.length_pos_iff.2 ht
    rw [← hs, List.length_append]
    omega

theorem gap_eq (fresh : Bool) (s : List Char) : (gap fresh s).1 ++ (gap fresh s).2 = s := by
  fun_induction gap fresh s with
  | case1 => rfl
  | case2 fresh s t fresh' r h ih =>
    simp only [List.append_assoc, ih]
    exact (separator?_eq h).2

/-! ## Tokens -/

/-- The sorts of tokens. -/
inductive Token.Kind where
  /-- Letters, digits and underscores, not starting with a digit. -/
  | word
  /-- Digits, letters and points, starting with a digit. -/
  | number
  /-- One character of any other sort. -/
  | mark
  /-- A string literal, through its closing quote or the end of the line. -/
  | literal
deriving DecidableEq, Repr

/-- One token and the gap in front of it. -/
structure Token where
  gap : List Char
  kind : Token.Kind
  text : List Char
  /-- The line the token starts in, counted from 1. Only line feeds in gaps count: one that ends
  an unclosed literal belongs to the literal. -/
  line : Nat
deriving DecidableEq, Repr

namespace Token

/-- Whether the token is the given mark. -/
def isMark (t : Token) (c : Char) : Bool := t.kind == .mark && t.text == [c]

/-- Whether the token is the given word. -/
def isWord (t : Token) (w : String) : Bool := t.kind == .word && t.text == w.toList

end Token

/-- Whether a word may go on with the character. -/
def isWordPart (c : Char) : Bool := c.isAlphanum || c == '_'

/-- Whether a number may go on with the character. -/
def isNumberPart (c : Char) : Bool := c.isAlphanum || c == '.'

/-- A word may go on with what it may start with. -/
theorem isWordPart_of_start {c : Char} (h : (c.isAlpha || c == '_') = true) :
    isWordPart c = true := by
  rw [Bool.or_eq_true] at h
  rcases h with h | h <;> simp [isWordPart, Char.isAlphanum, h]

/-- A number may go on with what it may start with. -/
theorem isNumberPart_of_isDigit {c : Char} (h : c.isDigit = true) :
    isNumberPart c = true := by
  simp [isNumberPart, Char.isAlphanum, h]

/-- Whether a literal goes on with the character. -/
def isLiteralPart (c : Char) : Bool := c != '"' && c != '\n'

/-- The token that starts with `c`, and the rest of the text. -/
def lexeme (c : Char) (r : List Char) : Token.Kind × List Char × List Char :=
  if c.isAlpha || c == '_' then (.word, c :: r.takeWhile isWordPart, r.dropWhile isWordPart)
  else if c.isDigit then (.number, c :: r.takeWhile isNumberPart, r.dropWhile isNumberPart)
  else if c = '"' then
    let rest := r.dropWhile isLiteralPart
    (.literal, c :: (r.takeWhile isLiteralPart ++ rest.take 1), rest.drop 1)
  else (.mark, [c], r)

/-- A token is a non-empty beginning of the text. -/
theorem lexeme_eq (c : Char) (r : List Char) :
    (lexeme c r).2.1 ≠ [] ∧ (lexeme c r).2.1 ++ (lexeme c r).2.2 = c :: r := by
  unfold lexeme
  split
  · exact ⟨by simp, by simp⟩
  split
  · exact ⟨by simp, by simp⟩
  split
  · refine ⟨by simp, ?_⟩
    rw [List.cons_append, List.append_assoc, List.take_append_drop,
      List.takeWhile_append_dropWhile]
  · exact ⟨by simp, by simp⟩

/-- The tokens of a text that starts in the given line, and the gap behind the last one. -/
def tokensFrom (line : Nat) (fresh : Bool) (s : List Char) : List Token × List Char :=
  match _h : gap fresh s with
  | (g, []) => ([], g)
  | (g, c :: r) =>
    let here := line + g.count '\n'
    let more := tokensFrom here false (lexeme c r).2.2
    (⟨g, (lexeme c r).1, (lexeme c r).2.1, here⟩ :: more.1, more.2)
termination_by s.length
decreasing_by
  have hg := gap_eq fresh s
  rw [_h] at hg
  obtain ⟨ht, hs⟩ := lexeme_eq c r
  have := List.length_pos_iff.2 ht
  have hl := congrArg List.length hs
  have hs := congrArg List.length hg
  simp only [List.length_append] at hl hs
  omega

/-- The tokens of a text. -/
def tokens (s : List Char) : List Token := (tokensFrom 1 true s).1

/-- The text of a row of tokens, from the first character of the first to the last one of the
last: the gaps between them are part of it, the gap in front is not. -/
def source : List Token → List Char
  | [] => []
  | t :: ts => t.text ++ ts.flatMap fun u => u.gap ++ u.text

end ShaderBuild.Hlsl
