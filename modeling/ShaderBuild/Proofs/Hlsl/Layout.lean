import Mathlib.Data.List.TakeWhile
import ShaderBuild.Hlsl.Declaration
import ShaderBuild.Proofs.Hlsl.Token
import ShaderBuild.Proofs.Text.Word

/-!
# Tokens as they are written

A row of words, marks and bracket groups is written down with a gap in front of each (`Spot`).
Two words need something between them; everything else may touch (`Laid`). Such a text is cut into
the tokens it was written from, with the gaps they were given (`tokensFrom_spots`).

A bracket group is written as one piece of text and read as many tokens. What matters of these is
that they spell the piece and that none of them ends a field (`tokensFrom_inside`).
-/

namespace ShaderBuild.Hlsl

/-! ## What is written -/

/-- Whether a text is an identifier: letters, digits and underscores, not starting with a digit. -/
def isIdentifier : List Char → Bool
  | [] => false
  | c :: r => (c.isAlpha || c == '_') && r.all isWordPart

/-- An identifier. -/
structure Identifier where
  text : List Char
  valid : isIdentifier text = true

/-- Whether a character may stand inside brackets. -/
def isGroupPart (c : Char) : Bool :=
  c != '\n' && c != '\x7b' && c != '\x7d' && c != ';' && c != '"'

/-- A text that may stand inside brackets: on one line, without braces, semicolons and quotes,
and without the start of a comment. -/
structure Inside (u : List Char) : Prop where
  plain : u.all isGroupPart = true
  noLineComment : ¬ ['/', '/'] <:+: u
  noBlockComment : ¬ ['/', '*'] <:+: u

instance (u : List Char) : Decidable (Inside u) :=
  decidable_of_iff (u.all isGroupPart = true ∧ ¬ ['/', '/'] <:+: u ∧ ¬ ['/', '*'] <:+: u)
    ⟨fun h => ⟨h.1, h.2.1, h.2.2⟩, fun h => ⟨h.1, h.2, h.3⟩⟩

/-- Whether the brackets of a text close `depth` open ones and all that open in it. -/
def closes : Nat → List Char → Bool
  | depth, [] => depth == 0
  | depth, c :: s =>
    if c = '[' then closes (depth + 1) s
    else if c = ']' then depth != 0 && closes (depth - 1) s
    else closes depth s

/-- A pair of brackets with a balanced inside. -/
structure BracketGroup where
  inside : List Char
  proper : Inside inside
  balanced : closes 0 inside = true

/-- The text of a bracket group. -/
def BracketGroup.text (b : BracketGroup) : List Char := '[' :: b.inside ++ [']']

/-- The marks of a struct declaration outside brackets. -/
inductive Mark where
  | openBrace | closeBrace | semicolon | colon
deriving DecidableEq

/-- The character of a mark. -/
def Mark.char : Mark → Char
  | openBrace => '\x7b'
  | closeBrace => '\x7d'
  | semicolon => ';'
  | colon => ':'

/-- A piece of a struct declaration. -/
inductive Lexeme where
  | word (w : Identifier)
  | mark (m : Mark)
  | group (b : BracketGroup)

namespace Lexeme

/-- The text of a piece. -/
def text : Lexeme → List Char
  | word w => w.text
  | mark m => [m.char]
  | group b => b.text

/-- Whether the piece is a word. -/
def isWord : Lexeme → Bool
  | word _ => true
  | _ => false

end Lexeme

/-- A piece with the gap in front of it. -/
structure Spot where
  gap : List Separator
  lexeme : Lexeme

/-- The text of a piece and its gap. -/
def Spot.text (s : Spot) : List Char := gapText s.gap ++ s.lexeme.text

/-- The text of a row of pieces. -/
def spotsText (spots : List Spot) : List Char := spots.flatMap Spot.text

/-- Whether a row of pieces may be written behind a word or behind something else: directives
stand on lines of their own, and a gap parts two words. -/
def Laid (fresh afterWord : Bool) : List Spot → Prop
  | [] => True
  | s :: spots =>
    Fits fresh s.gap ∧ ((afterWord && s.lexeme.isWord) = true → s.gap ≠ []) ∧
      Laid false s.lexeme.isWord spots

instance : ∀ fresh afterWord spots, Decidable (Laid fresh afterWord spots)
  | _, _, [] => isTrue trivial
  | fresh, afterWord, s :: spots =>
    have := instDecidableLaid false s.lexeme.isWord spots
    have : Decidable (s.gap ≠ []) := decidable_of_iff (s.gap.isEmpty = false) (by simp)
    inferInstanceAs (Decidable (Fits fresh s.gap ∧
      ((afterWord && s.lexeme.isWord) = true → s.gap ≠ []) ∧ Laid false s.lexeme.isWord spots))

/-! ## Cutting off one token -/

/-- A text that does not go on with the word in front of it. -/
def Stops (s : List Char) : Prop := ∀ c ∈ s.head?, isWordPart c = false

theorem stops_nil : Stops [] := fun _ h => by cases h

theorem stops_cons {c : Char} {s : List Char} (h : isWordPart c = false) : Stops (c :: s) := by
  intro d hd
  cases hd
  exact h

/-- A word is cut off where it stops. -/
theorem lexeme_word {c : Char} {r s : List Char} (valid : isIdentifier (c :: r) = true)
    (stops : Stops s) : lexeme c (r ++ s) = (.word, c :: r, s) := by
  simp only [isIdentifier, Bool.and_eq_true, List.all_eq_true] at valid
  obtain ⟨hc, hr⟩ := valid
  have htake : (r ++ s).takeWhile isWordPart = r := by
    rw [List.takeWhile_append_of_pos hr]
    cases s with
    | nil => simp
    | cons d s => rw [List.takeWhile_cons_of_neg (by simp [stops d rfl]), List.append_nil]
  have hdrop : (r ++ s).dropWhile isWordPart = s := by
    rw [List.dropWhile_append_of_pos hr]
    cases s with
    | nil => rfl
    | cons d s => rw [List.dropWhile_cons_of_neg (by simp [stops d rfl])]
  rw [lexeme, if_pos hc, htake, hdrop]

theorem solid_identifier {c : Char} {r s : List Char} (valid : isIdentifier (c :: r) = true) :
    Solid (c :: s) := by
  simp only [isIdentifier, Bool.and_eq_true] at valid
  have hc := valid.1
  refine solid_cons (Bool.eq_false_iff.2 fun hspace => ?_) ?_ ?_
  · simp only [isSpace, Bool.or_eq_true, beq_iff_eq] at hspace
    rcases hspace with (((rfl | rfl) | rfl) | rfl) | rfl <;> cases hc
  · rintro rfl
    cases hc
  · rintro rfl
    cases hc

theorem lexeme_mark (m : Mark) (s : List Char) : lexeme m.char s = (.mark, [m.char], s) := by
  cases m <;> rfl

theorem solid_mark (m : Mark) (s : List Char) : Solid (m.char :: s) := by
  cases m <;> exact solid_cons rfl (by decide) (by decide)

/-! ## Inside brackets -/

/-- A token inside brackets: blanks in front of it at most, and either one character that does not
end a field, or a run without brackets. -/
inductive Token.Inner : Token → Prop
  | mark {g : List Char} {c : Char} {line : Nat} (blank : ∀ d ∈ g, isSpace d = true)
      (plain : isGroupPart c = true) : Inner ⟨g, .mark, [c], line⟩
  | run {g text : List Char} {kind : Token.Kind} {line : Nat} (blank : ∀ d ∈ g, isSpace d = true)
      (kind_ne : kind ≠ .mark) (unbracketed : ∀ d ∈ text, d ≠ '[' ∧ d ≠ ']') :
      Inner ⟨g, kind, text, line⟩

theorem Inside.of_suffix {u v : List Char} (h : Inside u) (hv : v <:+ u) : Inside v where
  plain := List.all_eq_true.2 fun c hc => List.all_eq_true.1 h.plain c (hv.subset hc)
  noLineComment := fun hopen => h.noLineComment (hopen.trans hv.isInfix)
  noBlockComment := fun hopen => h.noBlockComment (hopen.trans hv.isInfix)

/-- Inside brackets only a blank is a separator. -/
theorem Inside.separator?_eq_none {c : Char} {v s : List Char} (h : Inside (c :: v))
    (space : isSpace c = false) : separator? false (c :: (v ++ ']' :: s)) = none := by
  have hline : c ≠ '\n' := by
    rintro rfl
    cases space
  by_cases hslash : c = '/'
  · subst hslash
    cases v with
    | nil => simp [separator?, isSpace]
    | cons d v =>
      have hslash : d ≠ '/' := by
        rintro rfl
        exact h.noLineComment ⟨[], v, rfl⟩
      have hstar : d ≠ '*' := by
        rintro rfl
        exact h.noBlockComment ⟨[], v, rfl⟩
      simp [separator?, isSpace, hslash, hstar]
  · simp [separator?, hline, space, hslash]

/-- What stands in front of a closing bracket is cut as if the text ended with the bracket. -/
theorem lexeme_append {c : Char} (quote : c ≠ '"') (v s : List Char) :
    lexeme c (v ++ ']' :: s) =
      ((lexeme c v).1, (lexeme c v).2.1, (lexeme c v).2.2 ++ ']' :: s) := by
  unfold lexeme
  split
  · rw [Text.takeWhile_append_cons rfl, Text.dropWhile_append_cons rfl]
  split
  · rw [Text.takeWhile_append_cons rfl, Text.dropWhile_append_cons rfl]
  · rfl

/-- A token cut off inside brackets stands inside brackets. -/
theorem inner_lexeme {g : List Char} {c : Char} {v : List Char} {line : Nat}
    (blank : ∀ d ∈ g, isSpace d = true) (h : Inside (c :: v)) :
    Token.Inner ⟨g, (lexeme c v).1, (lexeme c v).2.1, line⟩ := by
  have hplain := List.all_eq_true.1 h.plain c List.mem_cons_self
  have hrun : ∀ p : Char → Bool, p '[' = false → p ']' = false → ∀ d ∈ v.takeWhile p,
      d ≠ '[' ∧ d ≠ ']' := by
    intro p hopen hclose d hd
    have hpd := List.mem_takeWhile_imp hd
    constructor
    · rintro rfl
      rw [hopen] at hpd
      cases hpd
    · rintro rfl
      rw [hclose] at hpd
      cases hpd
  unfold lexeme
  split
  · next hc =>
    refine .run blank (fun h => by cases h) (List.forall_mem_cons.2 ⟨?_, hrun _ rfl rfl⟩)
    constructor <;> rintro rfl <;> cases hc
  split
  · next hc =>
    refine .run blank (fun h => by cases h) (List.forall_mem_cons.2 ⟨?_, hrun _ rfl rfl⟩)
    constructor <;> rintro rfl <;> cases hc
  split
  · next hc =>
    subst hc
    cases hplain
  · exact .mark blank hplain

/-- **The tokens inside brackets.** They spell what was written there, the closing bracket is a
token of its own, and what follows does not matter. -/
theorem tokensFrom_inside (line : Nat) {u : List Char} (h : Inside u) :
    ∃ ts b, (∀ t ∈ ts, t.Inner) ∧ (∀ c ∈ b, isSpace c = true) ∧
      (ts.flatMap fun t => t.gap ++ t.text) ++ b = u ∧
      ∀ s, tokensFrom line false (u ++ ']' :: s) =
        (ts ++ ⟨b, .mark, [']'], line⟩ :: (tokensFrom line false s).1,
          (tokensFrom line false s).2) := by
  induction hlength : u.length using Nat.strongRecOn generalizing u with
  | ind n ih =>
    have hb : ∀ c ∈ u.takeWhile isSpace, isSpace c = true := fun c hc => List.mem_takeWhile_imp hc
    have hsplit := List.takeWhile_append_dropWhile (p := isSpace) (l := u)
    generalize u.takeWhile isSpace = b at hb hsplit
    have hline : '\n' ∉ b := by
      intro hmem
      rw [← hsplit] at h
      cases List.all_eq_true.1 h.plain _ (List.mem_append_left _ hmem)
    have hcount : line + b.count '\n' = line := by rw [List.count_eq_zero.2 hline, Nat.add_zero]
    cases hv : u.dropWhile isSpace with
    | nil =>
      -- nothing but blanks: the next token is the closing bracket
      rw [hv, List.append_nil] at hsplit
      subst hsplit
      refine ⟨[], b, by simp, hb, by simp, fun s => ?_⟩
      have hgap : Hlsl.gap false (b ++ ']' :: s) = (b, ']' :: s) :=
        gap_blanks hb hline (by simp [separator?, isSpace])
      have hmark : lexeme ']' s = (.mark, [']'], s) := rfl
      rw [tokensFrom_of_gap hgap, hcount, hmark]
      rfl
    | cons c v =>
      -- one token behind the blanks, and the rest is shorter
      have hspace : isSpace c = false := by
        have := List.head?_dropWhile_not isSpace u
        rw [hv] at this
        exact this
      rw [hv] at hsplit
      subst hsplit
      have hinside : Inside (c :: v) := h.of_suffix (List.suffix_append b _)
      have hquote : c ≠ '"' := by
        rintro rfl
        cases List.all_eq_true.1 hinside.plain _ List.mem_cons_self
      obtain ⟨htext, hcut⟩ := lexeme_eq c v
      have hrest : (lexeme c v).2.2 <:+ c :: v := ⟨_, hcut⟩
      have hshorter : (lexeme c v).2.2.length < n := by
        have hcutLength := congrArg List.length hcut
        have hpos := List.length_pos_iff.2 htext
        rw [List.length_append] at hcutLength hlength
        omega
      obtain ⟨ts, b', hts, hb', hspell, hread⟩ := ih _ hshorter (hinside.of_suffix hrest) rfl
      refine ⟨⟨b, (lexeme c v).1, (lexeme c v).2.1, line⟩ :: ts, b',
        List.forall_mem_cons.2 ⟨inner_lexeme hb hinside, hts⟩, hb', ?_, fun s => ?_⟩
      · rw [List.flatMap_cons, List.append_assoc, hspell, List.append_assoc, hcut]
      · have hgap : Hlsl.gap false (b ++ (c :: (v ++ ']' :: s))) = (b, c :: (v ++ ']' :: s)) :=
          gap_blanks hb hline (hinside.separator?_eq_none hspace)
        rw [List.append_assoc, List.cons_append, tokensFrom_of_gap hgap, hcount,
          lexeme_append hquote, hread s]
        rfl

/-! ## Where a bracket group ends -/

theorem closes_append {g : List Char} (h : ∀ c ∈ g, c ≠ '[' ∧ c ≠ ']') (depth : Nat)
    (s : List Char) : closes depth (g ++ s) = closes depth s := by
  induction g with
  | nil => rfl
  | cons c g ih =>
    obtain ⟨⟨hopen, hclose⟩, hg⟩ := List.forall_mem_cons.1 h
    rw [List.cons_append, closes, if_neg hopen, if_neg hclose, ih hg]

theorem unbracketed_of_blank {g : List Char} (h : ∀ c ∈ g, isSpace c = true) :
    ∀ c ∈ g, c ≠ '[' ∧ c ≠ ']' := by
  intro c hc
  have := h c hc
  constructor <;> rintro rfl <;> cases this

/-- A group that is open once more than its text closes ends at the next closing bracket. -/
theorem splitBrackets_inside {ts : List Token} {b : List Char} {depth : Nat}
    (inner : ∀ t ∈ ts, t.Inner) (blank : ∀ c ∈ b, isSpace c = true)
    (balanced : closes depth ((ts.flatMap fun t => t.gap ++ t.text) ++ b) = true) (line : Nat)
    (more : List Token) :
    splitBrackets (depth + 1) (ts ++ ⟨b, .mark, [']'], line⟩ :: more) =
      some (ts ++ [⟨b, .mark, [']'], line⟩], more) := by
  induction ts generalizing depth with
  | nil =>
    have hdepth : closes depth (b ++ []) = true := by simpa using balanced
    rw [closes_append (unbracketed_of_blank blank)] at hdepth
    obtain rfl : depth = 0 := by simpa [closes] using hdepth
    simp [splitBrackets, Token.isMark]
  | cons t ts ih =>
    obtain ⟨ht, hts⟩ := List.forall_mem_cons.1 inner
    rw [List.flatMap_cons, List.append_assoc, List.append_assoc] at balanced
    cases ht with
    | @mark g c line' hblank plain =>
      rw [closes_append (unbracketed_of_blank hblank), List.cons_append, List.nil_append,
        closes] at balanced
      rw [List.cons_append, splitBrackets]
      by_cases hopen : c = '['
      · -- the group is open once more
        rw [if_pos hopen] at balanced
        simp [Token.isMark, hopen, ih hts balanced]
      · rw [if_neg hopen] at balanced
        by_cases hclose : c = ']'
        · -- the group is open once less, and still open
          rw [if_pos hclose] at balanced
          obtain ⟨hdepth, hrest⟩ : depth ≠ 0 ∧ closes (depth - 1) _ = true := by
            simpa using balanced
          have hih := ih hts hrest
          rw [Nat.sub_add_cancel (Nat.one_le_iff_ne_zero.2 hdepth)] at hih
          simp [Token.isMark, hclose, hdepth, hih]
        · rw [if_neg hclose] at balanced
          simp [Token.isMark, hopen, hclose, ih hts balanced]
    | run hblank kind_ne unbracketed =>
      rw [closes_append (unbracketed_of_blank hblank), closes_append unbracketed] at balanced
      rw [List.cons_append, splitBrackets]
      simp [Token.isMark, kind_ne, ih hts balanced]

/-! ## The tokens of a row of pieces -/

/-- The tokens of a bracket group that starts in the given line. -/
def BracketGroup.tokens (gap : List Char) (line : Nat) (b : BracketGroup) : List Token :=
  ⟨gap, .mark, ['['], line⟩ :: (tokensFrom line false (b.inside ++ [']'])).1

/-- The tokens of a piece that starts in the given line. -/
def Spot.tokens (line : Nat) (s : Spot) : List Token :=
  match s.lexeme with
  | .word w => [⟨gapText s.gap, .word, w.text, line⟩]
  | .mark m => [⟨gapText s.gap, .mark, [m.char], line⟩]
  | .group b => b.tokens (gapText s.gap) line

/-- The line in which a piece starts when its gap starts in the given one. -/
def Spot.line (line : Nat) (s : Spot) : Nat := line + (gapText s.gap).count '\n'

/-- The tokens of a row of pieces whose first gap starts in the given line. -/
def tokensOf (line : Nat) : List Spot → List Token
  | [] => []
  | s :: spots => s.tokens (s.line line) ++ tokensOf (s.line line) spots

/-- The tokens of a bracket group: one for each bracket outside, and the ones between them. -/
theorem BracketGroup.tokens_eq (b : BracketGroup) (gap : List Char) (line : Nat) :
    ∃ ts g, (∀ t ∈ ts, t.Inner) ∧ (∀ c ∈ g, isSpace c = true) ∧
      (ts.flatMap fun t => t.gap ++ t.text) ++ g = b.inside ∧
      b.tokens gap line = ⟨gap, .mark, ['['], line⟩ :: (ts ++ [⟨g, .mark, [']'], line⟩]) ∧
      ∀ s, tokensFrom line false (b.inside ++ ']' :: s) =
        (ts ++ ⟨g, .mark, [']'], line⟩ :: (tokensFrom line false s).1,
          (tokensFrom line false s).2) := by
  obtain ⟨ts, g, inner, blank, spells, reads⟩ := tokensFrom_inside line b.proper
  refine ⟨ts, g, inner, blank, spells, ?_, reads⟩
  have hend : tokensFrom line false [] = ([], []) := tokensFrom_of_gap_nil (gap_of_none rfl)
  rw [BracketGroup.tokens, reads, hend]

/-- A bracket group is split off whole. -/
theorem BracketGroup.splitBrackets_tokens (b : BracketGroup) (gap : List Char) (line : Nat)
    (more : List Token) :
    splitBrackets 0 (b.tokens gap line ++ more) = some (b.tokens gap line, more) := by
  obtain ⟨ts, g, inner, blank, spells, htokens, -⟩ := b.tokens_eq gap line
  have hinside := splitBrackets_inside inner blank (by rw [spells]; exact b.balanced) line more
  rw [htokens, List.cons_append, List.append_assoc, splitBrackets]
  simpa [Token.isMark] using hinside

/-- The source of a bracket group is its text. -/
theorem BracketGroup.source_tokens (b : BracketGroup) (gap : List Char) (line : Nat) :
    source (b.tokens gap line) = b.text := by
  obtain ⟨ts, g, -, -, spells, htokens, -⟩ := b.tokens_eq gap line
  rw [htokens, source, List.flatMap_append, BracketGroup.text, ← spells]
  simp

theorem Separator.stops (sep : Separator) (s : List Char) : Stops (sep.text ++ s) := by
  cases sep with
  | blank c space =>
    refine stops_cons (Bool.eq_false_iff.2 fun hpart => ?_)
    simp only [isSpace, Bool.or_eq_true, beq_iff_eq] at space
    rcases space with (((rfl | rfl) | rfl) | rfl) | rfl <;> cases hpart
  | lineComment => exact stops_cons rfl
  | blockComment => exact stops_cons rfl
  | directive => exact stops_cons rfl

/-- What is laid out behind a word does not go on with it. -/
theorem stops_of_laid {spots : List Spot} (laid : Laid false true spots) (last : List Separator) :
    Stops (spotsText spots ++ gapText last) := by
  cases spots with
  | nil =>
    cases last with
    | nil => exact stops_nil
    | cons sep last => exact sep.stops _
  | cons s spots =>
    obtain ⟨gap, lexeme⟩ := s
    cases gap with
    | cons sep gap =>
      simp only [spotsText, Spot.text, gapText, List.flatMap_cons, List.append_assoc]
      exact sep.stops _
    | nil =>
      cases lexeme with
      | word w => exact absurd rfl (laid.2.1 rfl)
      | mark m => cases m <;> exact stops_cons rfl
      | group b => exact stops_cons rfl

/-- **A text is cut into the tokens it was written from**, and the gap behind them is left. -/
theorem tokensFrom_spots {fresh afterWord : Bool} {spots : List Spot} {last : List Separator}
    (laid : Laid fresh afterWord spots) (fits : Fits (fresh && spots.isEmpty) last) (line : Nat) :
    tokensFrom line fresh (spotsText spots ++ gapText last) =
      (tokensOf line spots, gapText last) := by
  induction spots generalizing fresh afterWord line with
  | nil =>
    refine tokensFrom_of_gap_nil ?_
    have := gap_append (by simpa using fits) solid_nil
    simpa [spotsText] using this
  | cons s spots ih =>
    obtain ⟨hgap, -, hrest⟩ := laid
    have hih := ih hrest (by simpa using fits) (s.line line)
    obtain ⟨g, lexeme⟩ := s
    have htext : spotsText (⟨g, lexeme⟩ :: spots) ++ gapText last =
        gapText g ++ (lexeme.text ++ (spotsText spots ++ gapText last)) := by
      simp [spotsText, Spot.text]
    rw [htext, tokensOf]
    cases lexeme with
    | word w =>
      obtain ⟨text, valid⟩ := w
      cases text with
      | nil => cases valid
      | cons c r =>
        have hread := gap_append hgap
          (solid_identifier (s := r ++ (spotsText spots ++ gapText last)) valid)
        have hword := lexeme_word valid (stops_of_laid hrest last)
        show tokensFrom line fresh
          (gapText g ++ c :: (r ++ (spotsText spots ++ gapText last))) = _
        rw [tokensFrom_of_gap hread, hword]
        rw [Spot.line] at hih
        simp only [hih]
        rfl
    | mark m =>
      have hread := gap_append hgap (solid_mark m (spotsText spots ++ gapText last))
      have hmark := lexeme_mark m (spotsText spots ++ gapText last)
      show tokensFrom line fresh (gapText g ++ m.char :: (spotsText spots ++ gapText last)) = _
      rw [tokensFrom_of_gap hread, hmark]
      rw [Spot.line] at hih
      simp only [hih]
      rfl
    | group b =>
      have hsolid : Solid ('[' :: (b.inside ++ ']' :: (spotsText spots ++ gapText last))) :=
        solid_cons rfl (by decide) (by decide)
      have hread := gap_append hgap hsolid
      have hmark : Hlsl.lexeme '[' (b.inside ++ ']' :: (spotsText spots ++ gapText last)) =
          (.mark, ['['], b.inside ++ ']' :: (spotsText spots ++ gapText last)) := rfl
      obtain ⟨ts, g', -, -, -, htokens, hinside⟩ :=
        b.tokens_eq (gapText g) (Spot.line line ⟨g, .group b⟩)
      have hgroup : (Lexeme.group b).text ++ (spotsText spots ++ gapText last) =
          '[' :: (b.inside ++ ']' :: (spotsText spots ++ gapText last)) := by
        simp [Lexeme.text, BracketGroup.text]
      rw [hgroup, tokensFrom_of_gap hread, hmark]
      rw [Spot.line] at hih htokens hinside
      simp only [hinside, hih, Spot.tokens, Spot.line, htokens]
      simp

end ShaderBuild.Hlsl
