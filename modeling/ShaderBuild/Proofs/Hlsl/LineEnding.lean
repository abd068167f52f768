import ShaderBuild.Proofs.Hlsl.Outline
import ShaderBuild.Proofs.Hlsl.Token
import ShaderBuild.Proofs.Text.LineEnding

/-!
# Line endings in shader source

A text with a carriage return in front of every line feed is cut into the tokens of the text
without them: a gap, and a literal that is not closed in its line, take the carriage returns along,
and lines stay what they are (`tokensFrom_crlf`). This needs preprocessor lines that are not
continued, for a backslash continues a line only where the line feed directly follows it.

What is read from such tokens is the same but for carriage returns in what is quoted, which are
those of brackets and of malformed fragments (`structsOf_crlf`).
-/

namespace ShaderBuild

/-- The error without the carriage returns in what it quotes. -/
def Error.stripReturns : Error → Error
  | .malformedField fragment path line =>
    .malformedField (String.ofList (Text.stripReturns fragment.toList)) path line
  | e => e

namespace Hlsl

open Text

variable {fresh fresh' : Bool} {s t r : List Char} {c : Char}

/-! ## Separators -/

/-- A preprocessor line that is not continued goes on to the end of its line. -/
theorem preprocessorLine_eq_run (h : '\n' ∉ (preprocessorLine s).1) :
    preprocessorLine s = (s.takeWhile (· ≠ '\n'), s.dropWhile (· ≠ '\n')) := by
  fun_induction preprocessorLine s with
  | case1 => rfl
  | case2 r ih => simp at h
  | case3 r => rfl
  | case4 c r hback hline ih =>
    have hc : c ≠ '\n' := fun heq => hline heq
    have hr := ih (fun hmem => h (List.mem_cons_of_mem _ hmem))
    simp [hc, hr]

/-- Behind a carriage return no line is continued. -/
theorem preprocessorLine_crlf (s : List Char) : preprocessorLine (crlf s) =
    ((crlf s).takeWhile (· ≠ '\n'), (crlf s).dropWhile (· ≠ '\n')) := by
  refine preprocessorLine_eq_run ?_
  induction s with
  | nil => simp [preprocessorLine]
  | cons c s ih =>
    by_cases hc : c = '\n'
    · subst hc
      simp [preprocessorLine]
    · rw [crlf_cons hc, preprocessorLine]
      · simpa [Ne.symm hc] using ih
      · -- what follows a backslash is never a bare line feed
        rintro r rfl hr
        cases s with
        | nil => cases hr
        | cons d s =>
          by_cases hd : d = '\n'
          · subst hd
            cases hr
          · rw [crlf_cons hd] at hr
            exact hd (List.cons.inj hr).1
      · exact hc

theorem commentBody_crlf (s : List Char) :
    commentBody (crlf s) = (crlf (commentBody s).1, crlf (commentBody s).2) := by
  fun_induction commentBody s with
  | case1 => rfl
  | case2 r => rfl
  | case3 c r hend ih =>
    by_cases hc : c = '\n'
    · subst hc
      simp [commentBody, ih]
    · rw [crlf_cons hc, commentBody, ih, crlf_cons hc]
      rintro r' rfl hr
      have hslash : r.head? = some '/' := by
        rw [← head?_crlf_eq_some_iff (by decide) (by decide), hr]
        rfl
      obtain ⟨r'', rfl⟩ := List.head?_eq_some_iff.1 hslash
      exact hend r'' rfl rfl

/-- A text that does not start with a separator does not start with one then either. -/
theorem separator?_crlf_of_none (h : separator? fresh s = none) :
    separator? fresh (crlf s) = none := by
  cases s with
  | nil => rfl
  | cons c s =>
    obtain ⟨hspace, hsign, hslash⟩ := separator?_eq_none_iff.1 h
    have hc : c ≠ '\n' := by
      rintro rfl
      cases hspace
    rw [crlf_cons hc, separator?_eq_none_iff]
    refine ⟨hspace, hsign, fun heq => ?_⟩
    simpa only [ne_eq, head?_crlf_eq_some_iff (c := '/') (by decide) (by decide),
      head?_crlf_eq_some_iff (c := '*') (by decide) (by decide)] using hslash heq

theorem gap_return (fresh : Bool) (s : List Char) :
    gap fresh ('\r' :: s) = ('\r' :: (gap fresh s).1, (gap fresh s).2) :=
  gap_of_some (separator?_eq_some_iff.2 (.blank fresh s (by decide) rfl))

/-- A separator that goes on to the end of its line takes the carriage return along. -/
theorem gap_crlf_line {w g rest : List Char} (hw : '\n' ∉ w)
    (hread : separator? fresh (w ++ crlf s) =
      some (w ++ (crlf s).takeWhile (· ≠ '\n'), fresh, (crlf s).dropWhile (· ≠ '\n')))
    (hrest : gap fresh (crlf (s.dropWhile (· ≠ '\n'))) = (crlf g, crlf rest)) :
    gap fresh (crlf (w ++ s)) = (crlf (w ++ s.takeWhile (· ≠ '\n') ++ g), crlf rest) := by
  have hrun : '\n' ∉ s.takeWhile (· ≠ '\n') := fun hmem => by
    simpa using List.mem_takeWhile_imp hmem
  rw [crlf_append, crlf_of_notMem hw, gap_of_some hread, crlf_append, crlf_append,
    crlf_of_notMem hw, crlf_of_notMem hrun]
  rcases run_crlf (p := (· ≠ '\n')) (by decide) (by decide) s with
    ⟨r, hr, htake, hdrop⟩ | ⟨-, htake, hdrop⟩
  · -- the carriage return belongs to the separator, and not to what follows
    rw [hr, crlf_lineFeed, gap_return, Prod.mk.injEq] at hrest
    rw [htake, hdrop, ← hrest.1, ← hrest.2]
    simp
  · rw [htake, hdrop, hrest]

/-- A gap that starts with a separator, if that is no continued preprocessor line. -/
theorem gap_crlf_of_separates {g rest : List Char} (h : Separates fresh s t fresh' r)
    (uncontinued : t.head? = some '#' → '\n' ∉ t)
    (hrest : gap fresh' (crlf r) = (crlf g, crlf rest)) :
    gap fresh (crlf s) = (crlf (t ++ g), crlf rest) := by
  cases h with
  | lineFeed => rw [crlf_lineFeed, gap_return, gap_newline, hrest]; rfl
  | blank _ _ hc hspace =>
    rw [crlf_cons hc, gap_of_some (separator?_eq_some_iff.2 (.blank fresh _ hc hspace)), hrest,
      List.singleton_append, List.singleton_append, crlf_cons hc]
  | directive s =>
    have hline : '\n' ∉ (preprocessorLine s).1 := fun hmem =>
      uncontinued rfl (List.mem_cons_of_mem _ hmem)
    rw [preprocessorLine_eq_run hline] at hrest ⊢
    refine gap_crlf_line (w := ['#']) (by decide) ?_ hrest
    rw [List.singleton_append, separator?_eq_some_iff.2 (.directive _), preprocessorLine_crlf]
    rfl
  | lineComment _ s =>
    exact gap_crlf_line (w := ['/', '/']) (by decide)
      (separator?_eq_some_iff.2 (.lineComment fresh _)) hrest
  | blockComment _ s =>
    have hread := separator?_eq_some_iff.2 (Separates.blockComment fresh (crlf s))
    rw [crlf_cons (by decide), crlf_cons (by decide), gap_of_some hread, commentBody_crlf, hrest]
    simp [crlf_cons]

/-- **A gap is changed by itself**, if no preprocessor line is continued in it. -/
theorem gap_crlf (h : ∀ sep ∈ separators fresh s, sep.head? = some '#' → '\n' ∉ sep) :
    gap fresh (crlf s) = (crlf (gap fresh s).1, crlf (gap fresh s).2) := by
  fun_induction gap fresh s with
  | case1 fresh s hnone => exact gap_of_none (separator?_crlf_of_none hnone)
  | case2 fresh s t fresh' r hsome ih =>
    rw [separators_of_some hsome] at h
    obtain ⟨ht, hr⟩ := List.forall_mem_cons.1 h
    exact gap_crlf_of_separates (separator?_eq_some_iff.1 hsome) ht (ih hr)

/-! ## Tokens -/

/-- The token in the text with carriage returns: only a literal can have a line feed in its own
text. -/
def Token.crlf (t : Token) : Token :=
  { t with
    gap := Text.crlf t.gap
    text := if t.kind = .literal then Text.crlf t.text else t.text }

theorem lexeme_crlf (hc : c ≠ '\n') (r : List Char) : lexeme c (crlf r) =
    ((lexeme c r).1,
      if (lexeme c r).1 = .literal then crlf (lexeme c r).2.1 else (lexeme c r).2.1,
      crlf (lexeme c r).2.2) := by
  unfold lexeme
  split
  · rw [takeWhile_crlf (p := isWordPart) rfl rfl, dropWhile_crlf (p := isWordPart) rfl rfl]
    rfl
  split
  · rw [takeWhile_crlf (p := isNumberPart) rfl rfl, dropWhile_crlf (p := isNumberPart) rfl rfl]
    rfl
  split
  · have hrun : '\n' ∉ c :: r.takeWhile isLiteralPart := lineFeed_notMem_run hc rfl r
    have htext : ∀ u, crlf (c :: (r.takeWhile isLiteralPart ++ u)) =
        c :: (r.takeWhile isLiteralPart ++ crlf u) := fun u => by
      rw [← List.cons_append, crlf_append, crlf_of_notMem hrun, List.cons_append]
    rcases run_crlf (p := isLiteralPart) rfl rfl r with
      ⟨r', hr, htake, hdrop⟩ | ⟨hhead, htake, hdrop⟩
    · -- the literal is not closed, and ends with its line
      simp [htake, hdrop, hr, htext]
    · cases hr : r.dropWhile isLiteralPart with
      | nil => simp [htake, hdrop, hr, crlf_of_notMem hrun]
      | cons d r' =>
        have hd : d ≠ '\n' := fun heq => hhead (by rw [hr, heq]; rfl)
        simp [htake, hdrop, hr, htext, crlf_cons hd]
  · rfl

/-- **The tokens of a text are changed one by one**, and keep their lines, if no preprocessor line
is continued. -/
theorem tokensFrom_crlf {line : Nat}
    (h : ∀ sep ∈ separatorsFrom fresh s, sep.head? = some '#' → '\n' ∉ sep) :
    tokensFrom line fresh (crlf s) =
      ((tokensFrom line fresh s).1.map Token.crlf, crlf (tokensFrom line fresh s).2) := by
  fun_induction tokensFrom line fresh s with
  | case1 line fresh s g hgap =>
    rw [separatorsFrom_of_gap_nil hgap] at h
    have hcrlf := gap_crlf h
    rw [hgap] at hcrlf
    exact tokensFrom_of_gap_nil hcrlf
  | case2 line fresh s g c r hgap here more ih =>
    rw [separatorsFrom_of_gap hgap, List.forall_mem_append] at h
    have hc : c ≠ '\n' := ne_lineFeed_of_gap hgap
    have hcrlf := gap_crlf h.1
    rw [hgap, crlf_cons hc] at hcrlf
    rw [tokensFrom_of_gap hcrlf, lexeme_crlf hc, count_crlf, ih h.2]
    rfl

/-! ## Reading changed tokens -/

namespace Token

variable {t : Token}

@[simp] theorem crlf_kind (t : Token) : t.crlf.kind = t.kind := rfl

@[simp] theorem crlf_line (t : Token) : t.crlf.line = t.line := rfl

theorem crlf_text (h : t.kind ≠ .literal) : t.crlf.text = t.text := if_neg h

@[simp] theorem crlf_gap_eq_nil_iff : t.crlf.gap = [] ↔ t.gap = [] := crlf_eq_nil_iff

@[simp] theorem crlf_isMark (t : Token) (c : Char) : t.crlf.isMark c = t.isMark c := by
  unfold isMark
  by_cases h : t.kind = .literal
  · rw [crlf_kind, h]
    rfl
  · rw [crlf_kind, crlf_text h]

@[simp] theorem crlf_isWord (t : Token) (w : String) : t.crlf.isWord w = t.isWord w := by
  unfold isWord
  by_cases h : t.kind = .literal
  · rw [crlf_kind, h]
    rfl
  · rw [crlf_kind, crlf_text h]

theorem stripReturns_crlf_text (t : Token) :
    stripReturns t.crlf.text = stripReturns t.text := by
  by_cases h : t.kind = .literal
  · rw [show t.crlf.text = Text.crlf t.text from if_pos h, stripReturns_crlf]
  · rw [crlf_text h]

end Token

/-- Tokens are quoted as they were, but for carriage returns. -/
theorem stripReturns_source (ts : List Token) :
    stripReturns (source (ts.map Token.crlf)) = stripReturns (source ts) := by
  cases ts with
  | nil => rfl
  | cons t ts =>
    rw [List.map_cons, source, source, stripReturns_append, stripReturns_append,
      t.stripReturns_crlf_text]
    congr 1
    induction ts with
    | nil => rfl
    | cons u ts ih =>
      simp only [List.map_cons, List.flatMap_cons, stripReturns_append, u.stripReturns_crlf_text,
        ih]
      rw [show u.crlf.gap = crlf u.gap from rfl, stripReturns_crlf]

theorem splitBrackets_crlf (depth : Nat) (ts : List Token) :
    splitBrackets depth (ts.map Token.crlf) = (splitBrackets depth ts).map
      fun (group, rest) => (group.map Token.crlf, rest.map Token.crlf) := by
  induction ts generalizing depth with
  | nil => rfl
  | cons t ts ih =>
    simp only [List.map_cons, splitBrackets, Token.crlf_isMark, ih]
    generalize (if t.isMark '[' then depth + 1 else if t.isMark ']' then depth - 1 else depth) =
      inner
    split
    · rfl
    · simp only [Option.map_map, Function.comp_def, List.map_cons]

theorem opens_crlf (ts : List Token) : opens (ts.map Token.crlf) = opens ts := by
  cases ts <;> simp [opens]

theorem semantic?_crlf (ts : List Token) : semantic? (ts.map Token.crlf) = semantic? ts := by
  unfold semantic?
  cases ts with
  | nil => rfl
  | cons colon ts =>
    cases ts with
    | nil => rfl
    | cons word ts =>
      simp only [List.map_cons, Token.crlf_isMark, Token.crlf_kind]
      by_cases h : word.kind = .word
      · rw [Token.crlf_text (by rw [h]; decide)]
      · simp [h]

theorem modifier_crlf (ts : List Token) :
    modifier (ts.map Token.crlf) = ((modifier ts).1, (modifier ts).2.map Token.crlf) := by
  cases ts with
  | nil => rfl
  | cons t ts =>
    have hread : (if t.crlf.kind = .word then Interpolation.ofKeyword? t.crlf.text else none) =
        if t.kind = .word then Interpolation.ofKeyword? t.text else none := by
      by_cases h : t.kind = .word
      · rw [Token.crlf_kind, Token.crlf_text (by rw [h]; decide)]
      · simp [h]
    rw [List.map_cons, modifier, modifier, hread]
    split <;> rfl

theorem arrayGroups_crlf (ts : List Token) :
    (arrayGroups (ts.map Token.crlf)).map (fun (array, rest) => (stripReturns array, rest)) =
      (arrayGroups ts).map fun (array, rest) => (stripReturns array, rest.map Token.crlf) := by
  induction ts using arrayGroups.induct with
  | case1 ts hopens hnone =>
    have hopens' := (opens_crlf ts).trans hopens
    rw [arrayGroups_of_opens hopens', arrayGroups_of_opens hopens, splitBrackets_crlf, hnone]
    rfl
  | case2 ts hopens group rest hsplit ih =>
    have hopens' := (opens_crlf ts).trans hopens
    rw [arrayGroups_of_opens hopens', arrayGroups_of_opens hopens, splitBrackets_crlf, hsplit]
    have hmore := congrArg (Option.map fun p => (stripReturns (source group) ++ p.1, p.2)) ih
    simpa only [Option.map_some, Option.bind_some, Option.map_map, Function.comp_def,
      stripReturns_append, stripReturns_source] using hmore
  | case3 ts hopens =>
    have hopens : opens ts = false := by simpa [opens] using hopens
    rw [arrayGroups_of_not_opens ((opens_crlf ts).trans hopens), arrayGroups_of_not_opens hopens]
    rfl

/-- The field without the carriage returns in its brackets. -/
def Field.stripReturns (f : Field) : Field :=
  { f with array := String.ofList (Text.stripReturns f.array.toList) }

theorem Field.ofTokens?_crlf (fragment : List Token) :
    (Field.ofTokens? (fragment.map Token.crlf)).map Field.stripReturns =
      (Field.ofTokens? fragment).map Field.stripReturns := by
  have hbrace : (fragment.map Token.crlf).any (·.isMark '\x7b') =
      fragment.any (·.isMark '\x7b') := by
    simp [List.any_map, Function.comp_def]
  unfold Field.ofTokens?
  rw [hbrace, modifier_crlf]
  split
  · rfl
  · generalize modifier fragment = read
    obtain ⟨interpolation, rest⟩ := read
    match rest with
    | [] => rfl
    | [type] => rfl
    | type :: name :: rest =>
      simp only [List.map_cons, Token.crlf_kind, ne_eq, Token.crlf_gap_eq_nil_iff]
      split
      · next hwords =>
        rw [Token.crlf_text (t := type) (by rw [hwords.1]; decide),
          Token.crlf_text (t := name) (by rw [hwords.2.1]; decide)]
        have hfields := congrArg (Option.map fun p : List Char × List Token =>
          ({ interpolation
             type := FieldType.ofName type.text
             array := String.ofList p.1
             name := String.ofList name.text
             semantic := semantic? p.2 } : Field)) (arrayGroups_crlf rest)
        simpa only [Option.map_map, Function.comp_def, Field.stripReturns, String.toList_ofList,
          semantic?_crlf] using hfields
      · rfl

/-! ## Answers that are alike -/

/-- An answer without the carriage returns in what it quotes, where `f` takes those of a value. -/
def stripAnswer {α : Type} (f : α → α) : Except Error α → Except Error α
  | .ok a => .ok (f a)
  | .error e => .error e.stripReturns

theorem Field.ofFragment_crlf (path : Path) (fragment : List Token) :
    stripAnswer Field.stripReturns (Field.ofFragment path (fragment.map Token.crlf)) =
      stripAnswer Field.stripReturns (Field.ofFragment path fragment) := by
  have hfield := Field.ofTokens?_crlf fragment
  have hline : ((fragment.map Token.crlf).head?.map (·.line)).getD 0 =
      (fragment.head?.map (·.line)).getD 0 := by
    cases fragment <;> rfl
  unfold Field.ofFragment
  rw [hline]
  cases hread : Field.ofTokens? fragment with
  | none =>
    rw [hread, Option.map_none, Option.map_eq_none_iff] at hfield
    rw [hfield]
    simp only [stripAnswer, Error.stripReturns, String.toList_ofList, stripReturns_source]
  | some f =>
    rw [hread, Option.map_some] at hfield
    obtain ⟨f', hread', hf⟩ := Option.map_eq_some_iff.1 hfield
    rw [hread']
    simp only [stripAnswer, hf]

theorem Body.ofTokens_crlf (depth : Nat) (fragment ts : List Token) :
    Body.ofTokens depth (fragment.map Token.crlf) (ts.map Token.crlf) =
      ⟨(Body.ofTokens depth fragment ts).fragments.map (·.map Token.crlf),
        (Body.ofTokens depth fragment ts).rest.map (·.map Token.crlf)⟩ := by
  fun_induction Body.ofTokens depth fragment ts with
  | case1 => rfl
  | case2 depth fragment t ts hopen ih =>
    rw [List.map_cons, Body.ofTokens, Token.crlf_isMark, if_pos hopen]
    exact ih
  | case3 fragment t ts hopen hclose =>
    rw [List.map_cons, Body.ofTokens, Token.crlf_isMark, Token.crlf_isMark, if_neg hopen,
      if_pos hclose, if_pos rfl, ← List.map_reverse]
    rfl
  | case4 depth fragment t ts hopen hclose hdepth ih =>
    rw [List.map_cons, Body.ofTokens, Token.crlf_isMark, Token.crlf_isMark, if_neg hopen,
      if_pos hclose, if_neg hdepth]
    exact ih
  | case5 depth fragment t ts hopen hclose hend =>
    rename_i ih
    rw [List.map_cons, Body.ofTokens, Token.crlf_isMark, Token.crlf_isMark, Token.crlf_isMark,
      if_neg hopen, if_neg hclose, if_pos hend, ← List.map_reverse]
    rw [List.map_nil] at ih
    simp only [ih, List.map_cons]
    rfl
  | case6 depth fragment t ts hopen hclose hend ih =>
    rw [List.map_cons, Body.ofTokens, Token.crlf_isMark, Token.crlf_isMark, Token.crlf_isMark,
      if_neg hopen, if_neg hclose, if_neg hend]
    exact ih

/-- Two computations are answered alike if what they begin with is, and what they go on with is
for results that are alike. -/
theorem stripAnswer_bind {α β : Type} {f : α → α} {g : β → β} {x y : Except Error α}
    {k k' : α → Except Error β} (hxy : stripAnswer f x = stripAnswer f y)
    (hk : ∀ a b, f a = f b → stripAnswer g (k a) = stripAnswer g (k' b)) :
    stripAnswer g (x.bind k) = stripAnswer g (y.bind k') := by
  cases x with
  | error e =>
    cases y with
    | error e' => exact congrArg Except.error (Except.error.inj hxy)
    | ok b => cases hxy
  | ok a =>
    cases y with
    | error e' => cases hxy
    | ok b => exact hk a b (Except.ok.inj hxy)

theorem stripAnswer_map {α β : Type} {f : α → α} {g : β → β} {x y : Except Error α} {k k' : α → β}
    (hxy : stripAnswer f x = stripAnswer f y) (hk : ∀ a b, f a = f b → g (k a) = g (k' b)) :
    stripAnswer g (x.map k) = stripAnswer g (y.map k') := by
  have hbind : stripAnswer g (x.bind fun a => .ok (k a)) =
      stripAnswer g (y.bind fun b => .ok (k' b)) :=
    stripAnswer_bind hxy fun a b hab => congrArg Except.ok (hk a b hab)
  cases x <;> cases y <;> exact hbind

/-- Rows are answered alike whose items are. -/
theorem stripAnswer_mapM {α β : Type} {f : α → Except Error β} {g : α → α} {h : β → β}
    (halike : ∀ a, stripAnswer h (f (g a)) = stripAnswer h (f a)) (l : List α) :
    stripAnswer (List.map h) ((l.map g).mapM f) = stripAnswer (List.map h) (l.mapM f) := by
  induction l with
  | nil => rfl
  | cons a l ih =>
    rw [List.map_cons, List.mapM_cons, List.mapM_cons]
    refine stripAnswer_bind (halike a) fun b b' hb => stripAnswer_bind ih fun bs bs' hbs => ?_
    show Except.ok (h b :: bs.map h) = Except.ok (h b' :: bs'.map h)
    rw [hb, hbs]

theorem fieldsOf_crlf (path : Path) (fragments : List (List Token)) :
    stripAnswer (List.map Field.stripReturns)
        (fieldsOf path (fragments.map (·.map Token.crlf))) =
      stripAnswer (List.map Field.stripReturns) (fieldsOf path fragments) := by
  have hfilter : (fragments.map (·.map Token.crlf)).filter (fun f => !f.isEmpty) =
      (fragments.filter fun f => !f.isEmpty).map (·.map Token.crlf) := by
    simp [List.filter_map, Function.comp_def]
  rw [fieldsOf, fieldsOf, hfilter]
  exact stripAnswer_mapM (Field.ofFragment_crlf path) _

/-- The struct without the carriage returns in its fields. -/
def Struct.stripReturns (s : Struct) : Struct :=
  { s with fields := s.fields.map Field.stripReturns }

/-- Brackets make no difference to the role. -/
theorem ofFields_stripReturns (fields : List Field) :
    Role.ofFields (fields.map Field.stripReturns) = Role.ofFields fields := by
  simp only [Role.ofFields, List.any_map, Function.comp_def]
  rfl

/-- A struct with a body is read alike, if what follows the body is. -/
theorem structsOf_body_crlf {path : Path} {keyword name brace : Token} {inner : List Token}
    (hkeyword : keyword.isWord "struct" = true) (hname : name.kind = .word)
    (hbrace : brace.isMark '\x7b' = true)
    (hrest : ∀ rest, (Body.ofTokens 0 [] inner).rest = some rest →
      stripAnswer (List.map Struct.stripReturns) (structsOf path (rest.map Token.crlf)) =
        stripAnswer (List.map Struct.stripReturns) (structsOf path rest)) :
    stripAnswer (List.map Struct.stripReturns)
        (structsOf path ((keyword :: name :: brace :: inner).map Token.crlf)) =
      stripAnswer (List.map Struct.stripReturns)
        (structsOf path (keyword :: name :: brace :: inner)) := by
  have hkeyword' := (keyword.crlf_isWord "struct").trans hkeyword
  have hname' : name.crlf.kind = .word := hname
  have hbrace' := (brace.crlf_isMark '\x7b').trans hbrace
  have htext : name.crlf.text = name.text := Token.crlf_text (by rw [hname]; decide)
  have hbody := Body.ofTokens_crlf 0 [] inner
  rw [List.map_nil] at hbody
  rw [List.map_cons, List.map_cons, List.map_cons, structsOf_body hkeyword hname hbrace,
    structsOf_body hkeyword' hname' hbrace', hbody, htext, Token.crlf_line]
  refine stripAnswer_bind (fieldsOf_crlf path _) fun fields fields' hfields => ?_
  -- the fields differ in their brackets only, which the role does not depend on
  have hrole : Role.ofFields fields = Role.ofFields fields' := by
    rw [← ofFields_stripReturns, hfields, ofFields_stripReturns]
  cases hend : (Body.ofTokens 0 [] inner).rest with
  | none => rfl
  | some rest =>
    refine stripAnswer_map (hrest rest hend) fun more more' hmore => ?_
    rw [List.map_cons, List.map_cons, hmore]
    simp only [Struct.stripReturns, hfields, hrole]

/-- **What is read from the tokens** is the same, up to carriage returns in what is quoted. -/
theorem structsOf_crlf (path : Path) (ts : List Token) :
    stripAnswer (List.map Struct.stripReturns) (structsOf path (ts.map Token.crlf)) =
      stripAnswer (List.map Struct.stripReturns) (structsOf path ts) := by
  induction ts using structsOf.induct with
  | case1 => rfl
  | case2 keyword hkeyword =>
    have hkeyword' := (keyword.crlf_isWord "struct").trans hkeyword
    rw [List.map_cons, List.map_nil, structsOf_lastKeyword hkeyword,
      structsOf_lastKeyword hkeyword']
  | case3 keyword hkeyword name hname =>
    have hkeyword' := (keyword.crlf_isWord "struct").trans hkeyword
    have hname' : name.crlf.kind = .word := hname
    rw [List.map_cons, List.map_cons, List.map_nil, structsOf_lastName hkeyword hname,
      structsOf_lastName hkeyword' hname']
  | case4 keyword hkeyword name hname brace inner hbrace body =>
    rename_i hnone
    refine structsOf_body_crlf hkeyword hname hbrace fun rest hrest => ?_
    rw [show (Body.ofTokens 0 [] inner).rest = none from hnone] at hrest
    cases hrest
  | case5 keyword hkeyword name hname brace inner hbrace body behind hbehind =>
    rename_i ih
    refine structsOf_body_crlf hkeyword hname hbrace fun rest hrest => ?_
    obtain rfl := Option.some.inj (hbehind.symm.trans hrest)
    exact ih
  | case6 keyword hkeyword name hname t ts hbrace ih =>
    rw [Bool.not_eq_true] at hbrace
    have hkeyword' := (keyword.crlf_isWord "struct").trans hkeyword
    have hbrace' := (t.crlf_isMark '\x7b').trans hbrace
    have hname' : name.crlf.kind = .word := hname
    rw [List.map_cons, List.map_cons, List.map_cons, structsOf_bodiless hkeyword hname hbrace,
      structsOf_bodiless hkeyword' hname' hbrace']
    exact ih
  | case7 keyword hkeyword t ts hname hbrace =>
    have hkeyword' := (keyword.crlf_isWord "struct").trans hkeyword
    have hbrace' := (t.crlf_isMark '\x7b').trans hbrace
    have hname' : t.crlf.kind ≠ .word := hname
    rw [List.map_cons, List.map_cons, structsOf_nameless hkeyword hname hbrace,
      structsOf_nameless hkeyword' hname' hbrace']
    rfl
  | case8 keyword hkeyword t ts hname hbrace ih =>
    rw [Bool.not_eq_true] at hbrace
    have hkeyword' := (keyword.crlf_isWord "struct").trans hkeyword
    have hbrace' := (t.crlf_isMark '\x7b').trans hbrace
    have hname' : t.crlf.kind ≠ .word := hname
    rw [List.map_cons, List.map_cons, structsOf_unnamed hkeyword hname hbrace,
      structsOf_unnamed hkeyword' hname' hbrace']
    exact ih
  | case9 t ts hword ih =>
    rw [Bool.not_eq_true] at hword
    have hword' := (t.crlf_isWord "struct").trans hword
    rw [List.map_cons, structsOf_other hword, structsOf_other hword']
    exact ih

end Hlsl

end ShaderBuild
