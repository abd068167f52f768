import ShaderBuild.Proofs.Hlsl.FieldType
import ShaderBuild.Proofs.Hlsl.Layout

/-!
# Reading structs that were written

Struct declarations are written from a description of each, in any layout: with gaps of any kind
wherever two tokens meet. What is read back is what was described (`structs_of_printouts`), and
neither the layout nor anything that a comment or a directive says makes a difference.

The tokens are those that were written (`tokensFrom_spots`), so what is left is that a field is
read from its fragment (`Field.ofTokens?_of_spots`), that the body falls apart into the fragments of
its fields (`readsBody_of_spots`), and that each declaration is followed by the next
(`structsOf_printout`).
-/

namespace ShaderBuild.Hlsl

/-! ## What is described -/

/-- The modifier as a word. -/
def Interpolation.identifier (i : Interpolation) : Identifier where
  text := i.keyword.toList
  valid := by cases i <;> decide

/-- The keyword of a struct declaration. -/
def structKeyword : Identifier where
  text := "struct".toList
  valid := by decide

/-- A field to be written. Without a modifier its type must not look like one. -/
structure FieldSpec where
  interpolation : Option Interpolation
  type : Identifier
  name : Identifier
  groups : List BracketGroup
  semantic : Option Identifier
  unmistaken : interpolation = none → Interpolation.ofKeyword? type.text = none

namespace FieldSpec

/-- The modifier of a field, if it has one. -/
def modifierLexemes : Option Interpolation → List Lexeme
  | none => []
  | some i => [.word i.identifier]

/-- The semantic of a field with its colon, if it has one. -/
def semanticLexemes : Option Identifier → List Lexeme
  | none => []
  | some w => [.mark .colon, .word w]

/-- The pieces of a field. -/
def lexemes (f : FieldSpec) : List Lexeme :=
  modifierLexemes f.interpolation ++
    .word f.type :: .word f.name :: (f.groups.map .group ++ semanticLexemes f.semantic)

/-- The field that is described. -/
def field (f : FieldSpec) : Field where
  interpolation := f.interpolation
  type := FieldType.ofName f.type.text
  array := String.ofList (f.groups.flatMap BracketGroup.text)
  name := String.ofList f.name.text
  semantic := f.semantic.map fun w => String.ofList w.text

end FieldSpec

/-- A struct to be written. -/
structure StructSpec where
  name : Identifier
  fields : List FieldSpec

/-- The pieces of a row of fields, each ended by a semicolon. The last one may go without. -/
def fieldLexemes (ended : Bool) : List FieldSpec → List Lexeme
  | [] => []
  | [f] => f.lexemes ++ if ended then [.mark .semicolon] else []
  | f :: fs => f.lexemes ++ .mark .semicolon :: fieldLexemes ended fs

/-- The pieces of a struct declaration. -/
def StructSpec.lexemes (ended : Bool) (s : StructSpec) : List Lexeme :=
  .word structKeyword :: .word s.name :: .mark .openBrace ::
    (fieldLexemes ended s.fields ++ [.mark .closeBrace, .mark .semicolon])

/-- A struct as it is written: its pieces, each with the gap in front of it. -/
structure Printout where
  spec : StructSpec
  /-- Whether the last field is ended by a semicolon. -/
  ended : Bool
  spots : List Spot
  spelled : spots.map (·.lexeme) = spec.lexemes ended

namespace Printout

/-- The text of a struct. -/
def text (p : Printout) : List Char := spotsText p.spots

/-- What is written in front of the keyword. -/
def lead (p : Printout) : List Char := gapText ((p.spots.head?.map (·.gap)).getD [])

/-- The struct that is described by a text which starts in the given line. -/
def struct (path : Path) (line : Nat) (p : Printout) : Struct where
  name := String.ofList p.spec.name.text
  fields := p.spec.fields.map FieldSpec.field
  role := Role.ofFields (p.spec.fields.map FieldSpec.field)
  path := path
  line := line + p.lead.count '\n'

end Printout

/-- The structs that are described by a row of texts, the first of which starts in the given
line. -/
def described (path : Path) (line : Nat) : List Printout → List Struct
  | [] => []
  | p :: ps => p.struct path line :: described path (line + p.text.count '\n') ps

/-! ## Reading a field -/

theorem Interpolation.ofKeyword?_keyword (i : Interpolation) :
    ofKeyword? i.keyword.toList = some i := by
  cases i <;> decide

/-- A bracket group is read in front of those behind it. -/
theorem arrayGroups_append {more rest : List Token} {array : List Char} (b : BracketGroup)
    (gap : List Char) (line : Nat) (h : arrayGroups more = some (array, rest)) :
    arrayGroups (b.tokens gap line ++ more) = some (b.text ++ array, rest) := by
  have hopen : (((b.tokens gap line ++ more).head?).map (·.isMark '[')).getD false = true := rfl
  rw [arrayGroups, if_pos hopen]
  split
  · next hnone =>
    rw [b.splitBrackets_tokens] at hnone
    cases hnone
  · next hsome =>
    rw [b.splitBrackets_tokens] at hsome
    cases hsome
    rw [h, b.source_tokens]
    rfl

/-- All bracket groups are read, and the semantic behind them. -/
theorem arrayGroups_of_spots {groups : List BracketGroup} {semantic : Option Identifier}
    {spots : List Spot}
    (spelled : spots.map (·.lexeme) = groups.map .group ++ FieldSpec.semanticLexemes semantic)
    (line : Nat) : ∃ rest,
      arrayGroups (tokensOf line spots) = some (groups.flatMap BracketGroup.text, rest) ∧
      semantic? rest = semantic.map fun w => String.ofList w.text := by
  induction groups generalizing spots line with
  | nil =>
    refine ⟨tokensOf line spots, ?_⟩
    cases semantic with
    | none =>
      obtain rfl := List.map_eq_nil_iff.1 spelled
      exact ⟨by rw [tokensOf, arrayGroups]; rfl, rfl⟩
    | some w =>
      obtain ⟨⟨g, _⟩, spots, rfl, rfl, hword⟩ := List.map_eq_cons_iff.1 spelled
      obtain ⟨⟨g', _⟩, spots, rfl, rfl, hend⟩ := List.map_eq_cons_iff.1 hword
      obtain rfl := List.map_eq_nil_iff.1 hend
      exact ⟨by rw [arrayGroups]; rfl, rfl⟩
  | cons b groups ih =>
    obtain ⟨⟨g, _⟩, spots, rfl, rfl, hrest⟩ := List.map_eq_cons_iff.1 spelled
    obtain ⟨rest, harray, hsemantic⟩ := ih hrest (Spot.line line ⟨g, .group b⟩)
    exact ⟨rest, arrayGroups_append b _ _ harray, hsemantic⟩

theorem gapText_ne_nil {g : List Separator} (h : g ≠ []) : gapText g ≠ [] := by
  cases g with
  | nil => exact absurd rfl h
  | cons sep g => cases sep <;> simp [gapText, Separator.text]

/-- A token that neither opens nor ends the body or a field of it. -/
structure Token.Plain (t : Token) : Prop where
  noOpenBrace : t.isMark '\x7b' = false
  noCloseBrace : t.isMark '\x7d' = false
  noSemicolon : t.isMark ';' = false

/-- Whether all tokens of a piece are plain. -/
def Lexeme.isPlain : Lexeme → Bool
  | .mark m => m == .colon
  | _ => true

theorem Token.Inner.plain {t : Token} (h : t.Inner) : t.Plain := by
  cases h with
  | @mark g c line _ plain =>
    simp only [isGroupPart, Bool.and_eq_true, bne_iff_ne] at plain
    obtain ⟨⟨⟨⟨-, hopen⟩, hclose⟩, hsemicolon⟩, -⟩ := plain
    constructor <;> simp [Token.isMark, hopen, hclose, hsemicolon]
  | run _ kind_ne _ => constructor <;> simp [Token.isMark, kind_ne]

theorem Spot.plain_tokens {s : Spot} (h : s.lexeme.isPlain = true) (line : Nat) :
    ∀ t ∈ s.tokens line, t.Plain := by
  obtain ⟨g, lexeme⟩ := s
  cases lexeme with
  | word w =>
    intro t ht
    obtain rfl := List.mem_singleton.1 ht
    constructor <;> rfl
  | mark m =>
    obtain rfl : m = .colon := by simpa [Lexeme.isPlain] using h
    intro t ht
    obtain rfl := List.mem_singleton.1 ht
    constructor <;> rfl
  | group b =>
    obtain ⟨ts, g', inner, -, -, htokens, -⟩ := b.tokens_eq (gapText g) line
    intro t ht
    change t ∈ b.tokens (gapText g) line at ht
    rw [htokens] at ht
    simp only [List.mem_cons, List.mem_append, List.not_mem_nil, or_false] at ht
    rcases ht with rfl | ht | rfl
    · constructor <;> rfl
    · exact (inner t ht).plain
    · constructor <;> rfl

theorem plain_tokensOf {spots : List Spot} (h : ∀ s ∈ spots, s.lexeme.isPlain = true)
    (line : Nat) : ∀ t ∈ tokensOf line spots, t.Plain := by
  induction spots generalizing line with
  | nil => simp [tokensOf]
  | cons s spots ih =>
    obtain ⟨hs, hspots⟩ := List.forall_mem_cons.1 h
    rw [tokensOf]
    intro t ht
    rcases List.mem_append.1 ht with ht | ht
    · exact Spot.plain_tokens hs _ t ht
    · exact ih hspots _ t ht

theorem FieldSpec.plain_lexemes (f : FieldSpec) : ∀ l ∈ f.lexemes, l.isPlain = true := by
  obtain ⟨interpolation, type, name, groups, semantic, -⟩ := f
  intro l hl
  simp only [lexemes, List.mem_append, List.mem_cons, List.mem_map] at hl
  rcases hl with hl | rfl | rfl | ⟨b, -, rfl⟩ | hl
  · cases interpolation with
    | none => cases hl
    | some i =>
      obtain rfl := List.mem_singleton.1 hl
      rfl
  · rfl
  · rfl
  · rfl
  · cases semantic with
    | none => cases hl
    | some w =>
      simp only [semanticLexemes, List.mem_cons, List.not_mem_nil, or_false] at hl
      rcases hl with rfl | rfl <;> rfl

/-- The modifier is read, and a type that does not look like one is not taken for it. -/
theorem modifier_of_spots {interpolation : Option Interpolation} {type : Identifier}
    {tail : List Lexeme} {spots : List Spot} {fresh afterWord : Bool}
    (unmistaken : interpolation = none → Interpolation.ofKeyword? type.text = none)
    (spelled : spots.map (·.lexeme) = FieldSpec.modifierLexemes interpolation ++ .word type :: tail)
    (laid : Laid fresh afterWord spots) (line : Nat) :
    ∃ g spots' line', modifier (tokensOf line spots) =
        (interpolation, ⟨g, .word, type.text, line'⟩ :: tokensOf line' spots') ∧
      spots'.map (·.lexeme) = tail ∧ Laid false true spots' := by
  cases interpolation with
  | none =>
    obtain ⟨⟨g, _⟩, spots', rfl, rfl, htail⟩ := List.map_eq_cons_iff.1 spelled
    refine ⟨gapText g, spots', Spot.line line ⟨g, .word type⟩, ?_, htail, laid.2.2⟩
    show modifier (⟨gapText g, .word, type.text, _⟩ :: tokensOf _ spots') = _
    simp only [modifier, if_true, unmistaken rfl]
  | some i =>
    obtain ⟨⟨g₀, _⟩, spots', rfl, rfl, htype⟩ := List.map_eq_cons_iff.1 spelled
    obtain ⟨⟨g, _⟩, spots', rfl, rfl, htail⟩ := List.map_eq_cons_iff.1 htype
    refine ⟨gapText g, spots', Spot.line (Spot.line line ⟨g₀, .word i.identifier⟩)
      ⟨g, .word type⟩, ?_, htail, laid.2.2.2.2⟩
    show modifier (⟨gapText g₀, .word, i.keyword.toList, _⟩ :: tokensOf _ _) = _
    simp only [modifier, if_true, Interpolation.ofKeyword?_keyword]
    rfl

/-- **A field is read from its fragment.** -/
theorem Field.ofTokens?_of_spots {f : FieldSpec} {spots : List Spot} {fresh afterWord : Bool}
    (spelled : spots.map (·.lexeme) = f.lexemes) (laid : Laid fresh afterWord spots) (line : Nat) :
    Field.ofTokens? (tokensOf line spots) = some f.field := by
  have plain : ∀ t ∈ tokensOf line spots, t.Plain := by
    refine plain_tokensOf (fun s hs => f.plain_lexemes _ ?_) line
    rw [← spelled]
    exact List.mem_map_of_mem hs
  have hopen : ¬ (tokensOf line spots).any (·.isMark '\x7b') = true := by
    rw [List.any_eq_true]
    rintro ⟨t, ht, hmark⟩
    rw [(plain t ht).noOpenBrace] at hmark
    cases hmark
  obtain ⟨g, spots', line', hmodifier, hname, laid'⟩ :=
    modifier_of_spots f.unmistaken spelled laid line
  obtain ⟨⟨g', _⟩, spots', rfl, rfl, hgroups⟩ := List.map_eq_cons_iff.1 hname
  have parted := gapText_ne_nil (laid'.2.1 rfl)
  obtain ⟨rest, harray, hsemantic⟩ :=
    arrayGroups_of_spots hgroups (Spot.line line' ⟨g', .word f.name⟩)
  have htokens : tokensOf line' (⟨g', .word f.name⟩ :: spots') =
      ⟨gapText g', .word, f.name.text, _⟩ :: tokensOf _ spots' := rfl
  unfold Field.ofTokens?
  rw [if_neg hopen, hmodifier, htokens]
  simp [parted, harray, hsemantic, FieldSpec.field]

/-! ## Reading a body -/

theorem Body.ofTokens_append {fragment : List Token} (plain : ∀ t ∈ fragment, t.Plain)
    (done more : List Token) :
    Body.ofTokens 0 done (fragment ++ more) = Body.ofTokens 0 (fragment.reverse ++ done) more := by
  induction fragment generalizing done with
  | nil => rfl
  | cons t fragment ih =>
    obtain ⟨ht, hfragment⟩ := List.forall_mem_cons.1 plain
    rw [List.cons_append, Body.ofTokens]
    simp only [ht.noOpenBrace, ht.noCloseBrace, ht.noSemicolon, Bool.false_and, if_false,
      Bool.false_eq_true]
    rw [ih hfragment, List.reverse_cons, List.append_assoc]
    rfl

/-- A semicolon ends the fragment that was begun. -/
theorem Body.ofTokens_semicolon (gap : List Char) (line : Nat) (done more : List Token) :
    Body.ofTokens 0 done (⟨gap, .mark, [';'], line⟩ :: more) =
      ⟨done.reverse :: (Body.ofTokens 0 [] more).fragments, (Body.ofTokens 0 [] more).rest⟩ := by
  rw [Body.ofTokens]
  rfl

/-- A closing brace ends the body. -/
theorem Body.ofTokens_closeBrace (gap : List Char) (line : Nat) (done more : List Token) :
    Body.ofTokens 0 done (⟨gap, .mark, ['\x7d'], line⟩ :: more) = ⟨[done.reverse], some more⟩ := by
  rw [Body.ofTokens]
  rfl

/-- The line in which the gap behind a row of pieces starts. -/
def lineBehind (line : Nat) (spots : List Spot) : Nat := spots.foldl Spot.line line

theorem tokensOf_append (line : Nat) (spots spots' : List Spot) :
    tokensOf line (spots ++ spots') =
      tokensOf line spots ++ tokensOf (lineBehind line spots) spots' := by
  induction spots generalizing line with
  | nil => rfl
  | cons s spots ih =>
    rw [List.cons_append, tokensOf, ih, tokensOf, List.append_assoc]
    rfl

theorem Laid.of_append {fresh afterWord : Bool} {spots spots' : List Spot}
    (laid : Laid fresh afterWord (spots ++ spots')) :
    Laid fresh afterWord spots ∧ ∃ fresh' afterWord', Laid fresh' afterWord' spots' := by
  induction spots generalizing fresh afterWord with
  | nil => exact ⟨trivial, fresh, afterWord, laid⟩
  | cons s spots ih =>
    obtain ⟨hgap, hparted, hrest⟩ := laid
    obtain ⟨hspots, hspots'⟩ := ih hrest
    exact ⟨⟨hgap, hparted, hspots⟩, hspots'⟩

section

variable {path : Path} {f : FieldSpec} {spots : List Spot} {fresh afterWord : Bool}
  (spelled : spots.map (·.lexeme) = f.lexemes) (laid : Laid fresh afterWord spots)

include spelled

/-- The tokens of a field stay together. -/
theorem Body.ofTokens_field (line : Nat) (more : List Token) :
    Body.ofTokens 0 [] (tokensOf line spots ++ more) =
      Body.ofTokens 0 (tokensOf line spots).reverse more := by
  have plain : ∀ t ∈ tokensOf line spots, t.Plain := by
    refine plain_tokensOf (fun s hs => f.plain_lexemes _ ?_) line
    rw [← spelled]
    exact List.mem_map_of_mem hs
  rw [Body.ofTokens_append plain, List.append_nil]

include laid

/-- A fragment with the tokens of a field gives that field. -/
theorem fieldsOf_cons (line : Nat) {fragments : List (List Token)} {fields : List Field}
    (h : fieldsOf path fragments = .ok fields) :
    fieldsOf path (tokensOf line spots :: fragments) = .ok (f.field :: fields) := by
  have hfield := Field.ofTokens?_of_spots spelled laid line
  have hfragment : Field.ofFragment path (tokensOf line spots) = .ok f.field := by
    rw [Field.ofFragment, hfield]
  have hne : (!(tokensOf line spots).isEmpty) = true := by
    cases htokens : tokensOf line spots with
    | nil =>
      rw [htokens] at hfield
      cases hfield
    | cons t ts => rfl
  unfold fieldsOf at h ⊢
  rw [List.filter_cons_of_pos (p := fun f : List Token => !f.isEmpty) hne, List.mapM_cons,
    hfragment, h]
  rfl

end

/-- Whether a row of pieces with a closing brace behind it is read as a body with the fields. -/
def ReadsBody (path : Path) (spots : List Spot) (fields : List Field) : Prop :=
  ∀ line line' gap more, ∃ fragments,
    Body.ofTokens 0 [] (tokensOf line spots ++ ⟨gap, .mark, ['\x7d'], line'⟩ :: more) =
      ⟨fragments, some more⟩ ∧
    fieldsOf path fragments = .ok fields

section

variable {path : Path} {f : FieldSpec} {spots : List Spot} {fresh afterWord : Bool}

theorem readsBody_nil : ReadsBody path [] [] :=
  fun _ _ _ _ => ⟨[[]], Body.ofTokens_closeBrace .., rfl⟩

/-- A field may be ended by the brace. -/
theorem readsBody_singleton (spelled : spots.map (·.lexeme) = f.lexemes)
    (laid : Laid fresh afterWord spots) : ReadsBody path spots [f.field] := by
  intro line line' gap more
  refine ⟨[tokensOf line spots], ?_, fieldsOf_cons spelled laid line rfl⟩
  rw [Body.ofTokens_field spelled, Body.ofTokens_closeBrace, List.reverse_reverse]

/-- Behind a field and its semicolon the body goes on as if it started there. -/
theorem readsBody_cons {g : List Separator} {spots' : List Spot} {fields : List Field}
    (spelled : spots.map (·.lexeme) = f.lexemes) (laid : Laid fresh afterWord spots)
    (h : ReadsBody path spots' fields) :
    ReadsBody path (spots ++ ⟨g, .mark .semicolon⟩ :: spots') (f.field :: fields) := by
  intro line line' gap more
  obtain ⟨fragments, hbody, hfields⟩ :=
    h (Spot.line (lineBehind line spots) ⟨g, .mark .semicolon⟩) line' gap more
  refine ⟨tokensOf line spots :: fragments, ?_, fieldsOf_cons spelled laid line hfields⟩
  rw [tokensOf_append, List.append_assoc, Body.ofTokens_field spelled]
  show Body.ofTokens 0 _ (⟨gapText g, .mark, [';'], _⟩ :: (tokensOf _ spots' ++ _)) = _
  rw [Body.ofTokens_semicolon, hbody, List.reverse_reverse]

end

/-- **A body falls apart into its fields.** -/
theorem readsBody_of_spots {fs : List FieldSpec} {ended : Bool} {spots : List Spot}
    {fresh afterWord : Bool} (spelled : spots.map (·.lexeme) = fieldLexemes ended fs)
    (laid : Laid fresh afterWord spots) (path : Path) :
    ReadsBody path spots (fs.map FieldSpec.field) := by
  induction fs using fieldLexemes.induct generalizing spots fresh afterWord with
  | case1 =>
    obtain rfl := List.map_eq_nil_iff.1 spelled
    exact readsBody_nil
  | case2 f =>
    obtain ⟨spots, spots', rfl, hspots, hend⟩ := List.map_eq_append_iff.1 spelled
    obtain ⟨hlaid, -⟩ := laid.of_append
    cases ended with
    | false =>
      obtain rfl := List.map_eq_nil_iff.1 hend
      rw [List.append_nil]
      exact readsBody_singleton hspots hlaid
    | true =>
      obtain ⟨⟨g, _⟩, spots', rfl, rfl, hnil⟩ := List.map_eq_cons_iff.1 hend
      obtain rfl := List.map_eq_nil_iff.1 hnil
      exact readsBody_cons hspots hlaid readsBody_nil
  | case3 f fs hne ih =>
    rw [fieldLexemes.eq_3 _ _ _ hne] at spelled
    obtain ⟨spots, spots', rfl, hspots, hend⟩ := List.map_eq_append_iff.1 spelled
    obtain ⟨hlaid, fresh', afterWord', hlaid'⟩ := laid.of_append
    obtain ⟨⟨g, _⟩, spots', rfl, rfl, hrest⟩ := List.map_eq_cons_iff.1 hend
    exact readsBody_cons hspots hlaid (ih hrest hlaid'.2.2)

/-! ## Reading declarations -/

theorem newline_not_mem_identifier (w : Identifier) : '\n' ∉ w.text := by
  obtain ⟨text, valid⟩ := w
  cases text with
  | nil => simp
  | cons c r =>
    simp only [isIdentifier, Bool.and_eq_true, List.all_eq_true] at valid
    intro h
    rcases List.mem_cons.1 h with rfl | h
    · cases valid.1
    · cases valid.2 _ h

theorem newline_not_mem_lexeme (l : Lexeme) : '\n' ∉ l.text := by
  cases l with
  | word w => exact newline_not_mem_identifier w
  | mark m => cases m <;> simp [Lexeme.text, Mark.char]
  | group b =>
    intro h
    have hinside : '\n' ∈ b.inside := by simpa [Lexeme.text, BracketGroup.text] using h
    cases List.all_eq_true.1 b.proper.plain _ hinside

/-- Lines are counted by the line feeds in front. -/
theorem lineBehind_eq (line : Nat) (spots : List Spot) :
    lineBehind line spots = line + (spotsText spots).count '\n' := by
  induction spots generalizing line with
  | nil => rfl
  | cons s spots ih =>
    have hlexeme := List.count_eq_zero.2 (newline_not_mem_lexeme s.lexeme)
    show lineBehind (s.line line) spots = _
    rw [ih, Spot.line, spotsText, spotsText, List.flatMap_cons, List.count_append, Spot.text,
      List.count_append, hlexeme]
    omega

/-- A declaration is read from its keyword, its name and its body. -/
theorem structsOf_declaration {path : Path} {inner rest : List Token}
    {fragments : List (List Token)} {fields : List Field} {ss : List Struct}
    (hbody : Body.ofTokens 0 [] inner = ⟨fragments, some rest⟩)
    (hfields : fieldsOf path fragments = .ok fields) (hrest : structsOf path rest = .ok ss)
    (name g g₁ g₂ : List Char) (line line₁ line₂ : Nat) :
    structsOf path (⟨g, .word, "struct".toList, line⟩ :: ⟨g₁, .word, name, line₁⟩ ::
        ⟨g₂, .mark, ['\x7b'], line₂⟩ :: inner) =
      .ok (⟨String.ofList name, fields, Role.ofFields fields, path, line⟩ :: ss) := by
  have hkeyword : Token.isWord ⟨g, .word, "struct".toList, line⟩ "struct" = true := by
    simp [Token.isWord]
  have hopen : Token.isMark ⟨g₂, .mark, ['\x7b'], line₂⟩ '\x7b' = true := rfl
  rw [structsOf.eq_def]
  simp only [hkeyword, if_true, hopen]
  split
  · next hnone =>
    rw [hbody] at hnone
    cases hnone
  · next hsome =>
    rw [hbody] at hsome
    cases hsome
    rw [hbody, hfields, hrest]
    rfl

/-- A semicolon between declarations is passed over. -/
theorem structsOf_semicolon (path : Path) (gap : List Char) (line : Nat) (more : List Token) :
    structsOf path (⟨gap, .mark, [';'], line⟩ :: more) = structsOf path more := by
  rw [structsOf.eq_def]
  rfl

/-- **A declaration is read, and then what follows it.** -/
theorem structsOf_printout {p : Printout} {fresh afterWord : Bool}
    (laid : Laid fresh afterWord p.spots) (path : Path) (line : Nat) {more : List Token}
    {ss : List Struct} (h : structsOf path more = .ok ss) :
    structsOf path (tokensOf line p.spots ++ more) = .ok (p.struct path line :: ss) := by
  obtain ⟨spec, ended, spots, spelled⟩ := p
  obtain ⟨⟨g, _⟩, spots, rfl, rfl, hname⟩ := List.map_eq_cons_iff.1 spelled
  obtain ⟨⟨g₁, _⟩, spots, rfl, rfl, hopen⟩ := List.map_eq_cons_iff.1 hname
  obtain ⟨⟨g₂, _⟩, spots, rfl, rfl, hinner⟩ := List.map_eq_cons_iff.1 hopen
  obtain ⟨inner, spots, rfl, hfields, hend⟩ := List.map_eq_append_iff.1 hinner
  obtain ⟨⟨g₃, _⟩, spots, rfl, rfl, hlast⟩ := List.map_eq_cons_iff.1 hend
  obtain ⟨⟨g₄, _⟩, spots, rfl, rfl, hnil⟩ := List.map_eq_cons_iff.1 hlast
  obtain rfl := List.map_eq_nil_iff.1 hnil
  obtain ⟨hlaid, -⟩ := laid.2.2.2.2.2.2.of_append
  -- the lines in which the pieces start
  let line₀ := Spot.line line ⟨g, .word structKeyword⟩
  let line₁ := Spot.line line₀ ⟨g₁, .word spec.name⟩
  let line₂ := Spot.line line₁ ⟨g₂, .mark .openBrace⟩
  let line₃ := Spot.line (lineBehind line₂ inner) ⟨g₃, .mark .closeBrace⟩
  let line₄ := Spot.line line₃ ⟨g₄, .mark .semicolon⟩
  obtain ⟨fragments, hbody, hread⟩ := readsBody_of_spots hfields hlaid path line₂ line₃
    (gapText g₃) (⟨gapText g₄, .mark, [';'], line₄⟩ :: more)
  have hrest : structsOf path (⟨gapText g₄, .mark, [';'], line₄⟩ :: more) = .ok ss := by
    rw [structsOf_semicolon, h]
  have htokens : tokensOf line₂ (inner ++ [⟨g₃, .mark .closeBrace⟩, ⟨g₄, .mark .semicolon⟩]) ++ more
      = tokensOf line₂ inner ++ ⟨gapText g₃, .mark, ['\x7d'], line₃⟩ ::
        ⟨gapText g₄, .mark, [';'], line₄⟩ :: more := by
    rw [tokensOf_append, List.append_assoc]
    rfl
  rw [← htokens] at hbody
  exact structsOf_declaration hbody hread hrest spec.name.text (gapText g) (gapText g₁)
    (gapText g₂) line₀ line₁ line₂

/-- The declarations are read one after the other. -/
theorem structsOf_printouts {ps : List Printout} {fresh afterWord : Bool}
    (laid : Laid fresh afterWord (ps.flatMap (·.spots))) (path : Path) (line : Nat) :
    structsOf path (tokensOf line (ps.flatMap (·.spots))) = .ok (described path line ps) := by
  induction ps generalizing fresh afterWord line with
  | nil =>
    rw [List.flatMap_nil, tokensOf, structsOf]
    rfl
  | cons p ps ih =>
    rw [List.flatMap_cons] at laid ⊢
    obtain ⟨hp, fresh', afterWord', hps⟩ := laid.of_append
    rw [tokensOf_append, structsOf_printout hp path line (ih hps _), lineBehind_eq]
    rfl

/-- **Reading inverts writing.** Structs written one after the other, in any layout, are read as
what was described: in order, each with its name, its fields and the line of its keyword, each
field with its modifier, name and semantic, the source of its bracket groups, and the type that its
type name spells. -/
theorem structs_of_printouts (path : Path) (ps : List Printout) (last : List Separator)
    (laid : Laid true false (ps.flatMap (·.spots))) (fits : Fits ps.isEmpty last) :
    structs path (ps.flatMap Printout.text ++ gapText last) = .ok (described path 1 ps) ∧
      ∀ p ∈ ps, ∀ f ∈ p.spec.fields, FieldType.Spells f.type.text f.field.type := by
  refine ⟨?_, fun p _ f _ => FieldType.spells_ofName f.type.text⟩
  have htext : ps.flatMap Printout.text = spotsText (ps.flatMap (·.spots)) := by
    rw [spotsText, List.flatMap_assoc]
    rfl
  have hempty : (ps.flatMap (·.spots)).isEmpty = ps.isEmpty := by
    cases ps with
    | nil => rfl
    | cons p ps =>
      obtain ⟨s, spots, hspots, -⟩ := List.map_eq_cons_iff.1 p.spelled
      simp [hspots]
  rw [structs, tokens, htext, tokensFrom_spots laid (by rwa [Bool.true_and, hempty]) 1]
  exact structsOf_printouts laid path 1

/-! ## A small shader -/

namespace SmallShader

/-- A space. -/
def space : Separator := .blank ' ' rfl

/-- A line feed. -/
def newline : Separator := .blank '\n' rfl

/-- An array with two bracket groups and a field of a named type, without the last semicolon. The
comments say things that would matter if they were read. -/
def lights : Printout where
  spec :=
    { name := ⟨"Lights".toList, by decide⟩
      fields := [
        { interpolation := none
          type := ⟨"float3".toList, by decide⟩
          name := ⟨"colors".toList, by decide⟩
          groups := [⟨"COUNT".toList, by decide, by decide⟩,
            ⟨"2* a[1] -1".toList, by decide, by decide⟩]
          semantic := none
          unmistaken := fun _ => by decide },
        { interpolation := none
          type := ⟨"Mode".toList, by decide⟩
          name := ⟨"mode".toList, by decide⟩
          groups := []
          semantic := none
          unmistaken := fun _ => by decide }] }
  ended := false
  spots := [
    ⟨[.directive "define COUNT 4".toList (by decide) (by decide),
      .lineComment " struct Commented \x7b float a; \x7d;".toList (by decide)],
      .word structKeyword⟩,
    ⟨[space], .word ⟨"Lights".toList, by decide⟩⟩,
    ⟨[newline], .mark .openBrace⟩,
    ⟨[newline], .word ⟨"float3".toList, by decide⟩⟩,
    ⟨[.blockComment "; float".toList (by decide)], .word ⟨"colors".toList, by decide⟩⟩,
    ⟨[], .group ⟨"COUNT".toList, by decide, by decide⟩⟩,
    ⟨[space], .group ⟨"2* a[1] -1".toList, by decide, by decide⟩⟩,
    ⟨[], .mark .semicolon⟩,
    ⟨[space], .word ⟨"Mode".toList, by decide⟩⟩,
    ⟨[space], .word ⟨"mode".toList, by decide⟩⟩,
    ⟨[], .mark .closeBrace⟩,
    ⟨[], .mark .semicolon⟩]
  spelled := rfl

/-- A field with a modifier and a semantic, with as few gaps as there can be. -/
def vertex : Printout where
  spec :=
    { name := ⟨"V".toList, by decide⟩
      fields := [
        { interpolation := some .linear
          type := ⟨"float4x4".toList, by decide⟩
          name := ⟨"world".toList, by decide⟩
          groups := []
          semantic := some ⟨"WORLD".toList, by decide⟩
          unmistaken := fun h => by cases h }] }
  ended := true
  spots := [
    ⟨[], .word structKeyword⟩,
    ⟨[space], .word ⟨"V".toList, by decide⟩⟩,
    ⟨[], .mark .openBrace⟩,
    ⟨[], .word Interpolation.linear.identifier⟩,
    ⟨[space], .word ⟨"float4x4".toList, by decide⟩⟩,
    ⟨[space], .word ⟨"world".toList, by decide⟩⟩,
    ⟨[], .mark .colon⟩,
    ⟨[], .word ⟨"WORLD".toList, by decide⟩⟩,
    ⟨[], .mark .semicolon⟩,
    ⟨[], .mark .closeBrace⟩,
    ⟨[newline], .mark .semicolon⟩]
  spelled := rfl

/-- What is written for the two structs, and what is read from it. -/
theorem structs_read :
    [lights, vertex].flatMap Printout.text =
        "#define COUNT 4\n// struct Commented \x7b float a; \x7d;\nstruct Lights\n\x7b\n".toList ++
          "float3/*; float*/colors[COUNT] [2* a[1] -1]; Mode mode\x7d;".toList ++
          "struct V\x7blinear float4x4 world:WORLD;\x7d\n;".toList ∧
      (Laid true false ([lights, vertex].flatMap (·.spots)) ∧
        Fits [lights, vertex].isEmpty [newline]) ∧
      structs ⟨"lights.hlsl"⟩ ([lights, vertex].flatMap Printout.text ++ gapText [newline]) = .ok [
        ⟨"Lights", [
          ⟨none, ⟨.scalar .float, .three, .one⟩, "[COUNT][2* a[1] -1]", "colors", none⟩,
          ⟨none, ⟨.named "Mode", .one, .one⟩, "", "mode", none⟩],
          .constantBuffer, ⟨"lights.hlsl"⟩, 3⟩,
        ⟨"V", [⟨some .linear, ⟨.scalar .float, .four, .four⟩, "", "world", some "WORLD"⟩],
          .vertexLayout, ⟨"lights.hlsl"⟩, 5⟩] := by
  have laid : Laid true false ([lights, vertex].flatMap (·.spots)) := by decide
  have fits : Fits [lights, vertex].isEmpty [newline] := by decide
  refine ⟨by decide +kernel, ⟨laid, fits⟩, ?_⟩
  rw [(structs_of_printouts ⟨"lights.hlsl"⟩ [lights, vertex] [newline] laid fits).1]
  decide

end SmallShader

end ShaderBuild.Hlsl
