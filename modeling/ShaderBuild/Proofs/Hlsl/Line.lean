import ShaderBuild.Proofs.Hlsl.Outline
import ShaderBuild.Proofs.Hlsl.Token

/-!
# The lines that are reported

A struct is reported with the line of its keyword, and a fault with the line of the keyword or of
the first token of the fragment at fault. A place in a text is given by the tokens from there on
(`Reads`, `Fault`, `FragmentAt`), and its line by the line feeds in front of it (`Reports`).

The line is right but for line feeds that end a string literal: they are part of the literal and
are not counted (`reported_lines`, `UnclosedLiteral.line_feed_is_not_counted`).
-/

namespace ShaderBuild.Hlsl

variable {path : Path} {ts rest place : List Token}

/-! ## The line of a token -/

/-- The line of a token is that of the line feeds in front of it, less one for each literal that
is not closed. -/
theorem line_of_tokensFrom {line : Nat} {fresh : Bool} {s : List Char} {before after : List Token}
    {t : Token} (h : (tokensFrom line fresh s).1 = before ++ t :: after) :
    t.line + before.countP Token.isUnclosed = line + (written before ++ t.gap).count '\n' := by
  induction before generalizing line fresh s with
  | nil =>
    obtain ⟨g, c, r, -, rfl, -⟩ := tokensFrom_eq_cons h
    rfl
  | cons u before ih =>
    obtain ⟨g, c, r, hgap, rfl, hrest⟩ := tokensFrom_eq_cons h
    have hcount := count_lexeme (ne_lineFeed_of_gap hgap) g (line + g.count '\n') (r := r)
    have hline := ih hrest.symm
    -- the next token starts from the line of this one, whose own line feed is not counted
    rw [List.countP_cons, written_cons]
    simp only [List.count_append] at hline ⊢
    omega

/-- A place in a text is reported with a line: that of the first token from there on, where `lost`
says how many of the line feeds in the tokens before it are not counted. -/
def Reports (lost : List Token → Nat) (text : List Char) (place : List Token) (line : Nat) : Prop :=
  ∃ before t after front, tokens text = before ++ place ∧ place = t :: after ∧
    front = written before ++ t.gap ∧ front ++ t.text <+: text ∧
    line + lost before = 1 + front.count '\n'

theorem reports_of_suffix {text : List Char} {t : Token} {after : List Token}
    (h : t :: after <:+ tokens text) :
    Reports (·.countP Token.isUnclosed) text (t :: after) t.line := by
  obtain ⟨before, h⟩ := h
  refine ⟨before, t, after, _, h.symm, rfl, rfl, ?_, line_of_tokensFrom h.symm⟩
  have hwritten := written_tokensFrom 1 true text
  rw [show (tokensFrom 1 true text).1 = before ++ t :: after from h.symm, written_append,
    written_cons] at hwritten
  refine ⟨written after ++ (tokensFrom 1 true text).2, ?_⟩
  simpa only [List.append_assoc] using hwritten

/-! ## Where a fragment begins -/

/-- A fragment begins at a place in a body, behind the given other ones and their semicolons. -/
inductive FragmentAt (fragment : List Token) : List (List Token) → List Token → List Token → Prop
  | first {after : List Token} : FragmentAt fragment [] (fragment ++ after) (fragment ++ after)
  | next {f inner place : List Token} {done : List (List Token)} {semicolon : Token} :
      semicolon.isMark ';' = true → FragmentAt fragment done inner place →
      FragmentAt fragment (f :: done) (f ++ semicolon :: inner) place

theorem FragmentAt.suffix {fragment inner : List Token} {done : List (List Token)}
    (h : FragmentAt fragment done inner place) : place <:+ inner := by
  induction h with
  | first => exact List.suffix_rfl
  | next _ _ ih => exact ih.trans ((List.suffix_cons _ _).trans (List.suffix_append _ _))

theorem FragmentAt.prefix {fragment inner : List Token} {done : List (List Token)}
    (h : FragmentAt fragment done inner place) : fragment <+: place := by
  induction h with
  | first => exact List.prefix_append _ _
  | next _ _ ih => exact ih

/-- Each fragment of a body begins behind the ones in front of it. -/
theorem exists_fragmentAt {depth : Nat} {fragment inner f : List Token}
    {done more : List (List Token)}
    (h : (Body.ofTokens depth fragment inner).fragments = done ++ f :: more) :
    ∃ place, FragmentAt f done (fragment.reverse ++ inner) place := by
  fun_induction Body.ofTokens depth fragment inner generalizing done with
  | case1 => simp at h
  | case2 depth fragment t inner hopen ih => simpa using ih h
  | case3 fragment t inner hopen hclose =>
    obtain ⟨rfl, rfl⟩ : done = [] ∧ f = fragment.reverse := by
      cases done with
      | nil => exact ⟨rfl, (List.cons.inj h).1.symm⟩
      | cons d done => simp at h
    exact ⟨_, .first⟩
  | case4 depth fragment t inner hopen hclose hdepth ih => simpa using ih h
  | case5 depth fragment t inner hopen hclose hend =>
    rename_i ih
    rw [Bool.and_eq_true] at hend
    cases done with
    | nil =>
      obtain ⟨rfl, -⟩ := List.cons.inj h
      exact ⟨_, .first⟩
    | cons d done =>
      obtain ⟨rfl, hmore⟩ := List.cons.inj h
      obtain ⟨place, hplace⟩ := ih hmore
      exact ⟨place, .next hend.1 hplace⟩
  | case6 depth fragment t inner hopen hclose hend ih => simpa using ih h

theorem Body.suffix_rest {depth : Nat} {fragment inner : List Token}
    (h : (Body.ofTokens depth fragment inner).rest = some rest) : rest <:+ inner := by
  fun_induction Body.ofTokens depth fragment inner with
  | case1 => cases h
  | case3 =>
    cases h
    exact List.suffix_cons _ _
  | case2 _ _ _ _ _ ih => exact (ih h).trans (List.suffix_cons _ _)
  | case4 _ _ _ _ _ _ _ ih => exact (ih h).trans (List.suffix_cons _ _)
  | case5 _ _ _ _ _ _ _ _ ih => exact (ih h).trans (List.suffix_cons _ _)
  | case6 _ _ _ _ _ _ _ ih => exact (ih h).trans (List.suffix_cons _ _)

/-! ## Where declarations begin -/

/-- A struct is declared at a place, and the given tokens follow its body. -/
def DeclaredAt (path : Path) (place : List Token) (s : Struct) (rest : List Token) : Prop :=
  ∃ (o : Outline) (brace : Token) (inner : List Token),
    place = o.keyword :: o.name :: brace :: inner ∧ o.keyword.isWord "struct" = true ∧
    o.name.kind = .word ∧ brace.isMark '\x7b' = true ∧
    Body.ofTokens 0 [] inner = ⟨o.fragments, some rest⟩ ∧ Struct.DeclaredIn path o s

/-- Structs are read from a row of tokens, each with the place where it is declared, up to the
given rest. A keyword without a name or a body declares nothing. -/
inductive Reads (path : Path) : List Token → List (List Token × Struct) → List Token → Prop
  | here {ts : List Token} : Reads path ts [] ts
  | other {t : Token} {ts rest : List Token} {found : List (List Token × Struct)} :
      t.isWord "struct" = false → Reads path ts found rest → Reads path (t :: ts) found rest
  | unnamed {keyword : Token} {ts rest : List Token} {found : List (List Token × Struct)} :
      keyword.isWord "struct" = true → (∀ t ∈ ts.head?, t.kind ≠ .word ∧ t.isMark '\x7b' = false) →
      Reads path ts found rest → Reads path (keyword :: ts) found rest
  | bodiless {keyword name : Token} {ts rest : List Token}
      {found : List (List Token × Struct)} : keyword.isWord "struct" = true →
      name.kind = .word → (∀ t ∈ ts.head?, t.isMark '\x7b' = false) → Reads path ts found rest →
      Reads path (keyword :: name :: ts) found rest
  | declared {place ts rest : List Token} {s : Struct} {found : List (List Token × Struct)} :
      DeclaredAt path place s ts → Reads path ts found rest →
      Reads path place ((place, s) :: found) rest

/-- Why reading stops at a row of tokens, up to the line, and the place that is to blame: the
keyword of the declaration there, or the first fragment that begins with no declaration. -/
inductive Fault (path : Path) : List Token → (Nat → Error) → List Token → Prop
  | nameless {keyword brace : Token} {ts : List Token} : keyword.isWord "struct" = true →
      brace.isMark '\x7b' = true →
      Fault path (keyword :: brace :: ts) (.namelessStruct path) (keyword :: brace :: ts)
  | unterminated {keyword name brace : Token} {inner : List Token}
      {fragments : List (List Token)} {fields : List Field} : keyword.isWord "struct" = true →
      name.kind = .word → brace.isMark '\x7b' = true →
      Body.ofTokens 0 [] inner = ⟨fragments, none⟩ → fieldsOf path fragments = .ok fields →
      Fault path (keyword :: name :: brace :: inner)
        (.unterminatedStruct (String.ofList name.text) path) (keyword :: name :: brace :: inner)
  | malformed {keyword name brace : Token} {inner fragment place : List Token}
      {done more : List (List Token)} {fields : List Field} :
      keyword.isWord "struct" = true → name.kind = .word → brace.isMark '\x7b' = true →
      (Body.ofTokens 0 [] inner).fragments = done ++ fragment :: more →
      fieldsOf path done = .ok fields → fragment ≠ [] → Malformed fragment →
      FragmentAt fragment done inner place →
      Fault path (keyword :: name :: brace :: inner)
        (.malformedField (String.ofList (source fragment)) path) place

theorem Reads.suffix {found : List (List Token × Struct)} (h : Reads path ts found rest) :
    rest <:+ ts ∧ ∀ p ∈ found, p.1 <:+ ts := by
  induction h with
  | here => exact ⟨List.suffix_rfl, by simp⟩
  | @other t ts _ _ _ _ ih | @unnamed t ts _ _ _ _ _ ih =>
    have hts : ts <:+ t :: ts := List.suffix_cons _ _
    exact ⟨ih.1.trans hts, fun p hp => (ih.2 p hp).trans hts⟩
  | @bodiless keyword name ts _ _ _ _ _ _ ih =>
    have hts : ts <:+ keyword :: name :: ts :=
      (List.suffix_cons _ _).trans (List.suffix_cons _ _)
    exact ⟨ih.1.trans hts, fun p hp => (ih.2 p hp).trans hts⟩
  | @declared place ts rest s found hdeclared _ ih =>
    obtain ⟨o, brace, inner, rfl, -, -, -, hbody, -⟩ := hdeclared
    have hinner : ts <:+ inner := Body.suffix_rest (by rw [hbody])
    have hts : ts <:+ o.keyword :: o.name :: brace :: inner :=
      hinner.trans (List.suffix_append [o.keyword, o.name, brace] inner)
    refine ⟨ih.1.trans hts, List.forall_mem_cons.2 ⟨List.suffix_rfl, fun p hp => ?_⟩⟩
    exact (ih.2 p hp).trans hts

/-- A struct that is read is declared at its place, and has the line of the keyword. -/
theorem Reads.declaredAt {found : List (List Token × Struct)} (h : Reads path ts found rest)
    {p : List Token × Struct} (hp : p ∈ found) : ∃ (o : Outline) (brace : Token)
      (inner : List Token), p.1 = o.keyword :: o.name :: brace :: inner ∧
        p.2.line = o.keyword.line := by
  induction h with
  | here => cases hp
  | other _ _ ih => exact ih hp
  | unnamed _ _ _ ih => exact ih hp
  | bodiless _ _ _ _ ih => exact ih hp
  | declared hdeclared _ ih =>
    rcases List.mem_cons.1 hp with rfl | hp
    · obtain ⟨o, brace, inner, hplace, -, -, -, -, fields, rfl, -⟩ := hdeclared
      exact ⟨o, brace, inner, hplace, rfl⟩
    · exact ih hp

theorem Fault.suffix {kind : Nat → Error} (h : Fault path rest kind place) : place <:+ rest := by
  cases h with
  | nameless => exact List.suffix_rfl
  | unterminated => exact List.suffix_rfl
  | @malformed keyword name brace inner _ _ _ _ _ _ _ _ _ _ _ _ hplace =>
    exact hplace.suffix.trans (List.suffix_append [keyword, name, brace] inner)

/-- What is read up to a row of tokens is the answer, or a fault there is, with the line of the
token to blame. -/
def Explains (path : Path) (found : List (List Token × Struct)) (rest : List Token) :
    Except Error (List Struct) → Prop
  | .ok ss => rest = [] ∧ ss = found.map (·.2)
  | .error e => ∃ kind t after, Fault path rest kind (t :: after) ∧ e = kind t.line

/-- Fields are not read because of the first fragment that begins with no declaration. -/
theorem fieldsOf_error {fragments : List (List Token)} {e : Error}
    (h : fieldsOf path fragments = .error e) : ∃ done fragment more fields t after,
      fragments = done ++ fragment :: more ∧ fieldsOf path done = .ok fields ∧
      fragment = t :: after ∧ Malformed fragment ∧
      e = .malformedField (String.ofList (source fragment)) path t.line := by
  obtain ⟨before, fragment, after, hsplit, ⟨fields, hfields⟩, herror⟩ := mapM_first_error h
  -- fragments without tokens are skipped, and stand among those in front
  obtain ⟨done, behind, rfl, rfl, hbehind⟩ := List.filter_eq_append_iff.1 hsplit
  obtain ⟨empties, more, rfl, hempties, hfragment, -⟩ := List.filter_eq_cons_iff.1 hbehind
  obtain ⟨t, after, rfl⟩ := List.exists_cons_of_ne_nil
    (show fragment ≠ [] by simpa using hfragment)
  have hdone : (done ++ empties).filter (fun f => !f.isEmpty) =
      done.filter fun f => !f.isEmpty := by
    rw [List.filter_append, List.filter_eq_nil_iff.2 hempties, List.append_nil]
  refine ⟨done ++ empties, t :: after, more, fields, t, after, by simp, ?_, rfl, ?_⟩
  · rw [fieldsOf, hdone, hfields]
  · rcases Field.ofFragment_cases path (t :: after) with ⟨d, rest, -, hok⟩ | ⟨hmalformed, hreport⟩
    · rw [hok] at herror
      cases herror
    · rw [hreport] at herror
      exact ⟨hmalformed, (Except.error.inj herror).symm⟩

/-- A body whose fields are not read is at fault, with the line of the fragment to blame. -/
theorem exists_fault {keyword name brace : Token} {inner : List Token} {e : Error}
    (hkeyword : keyword.isWord "struct" = true) (hname : name.kind = .word)
    (hbrace : brace.isMark '\x7b' = true)
    (h : fieldsOf path (Body.ofTokens 0 [] inner).fragments = .error e) :
    ∃ kind t after, Fault path (keyword :: name :: brace :: inner) kind (t :: after) ∧
      e = kind t.line := by
  obtain ⟨done, fragment, more, fields, t, after, hsplit, hfields, rfl, hmalformed, rfl⟩ :=
    fieldsOf_error h
  obtain ⟨place, hplace⟩ := exists_fragmentAt hsplit
  obtain ⟨behind, rfl⟩ := hplace.prefix
  exact ⟨_, t, after ++ behind, .malformed hkeyword hname hbrace hsplit hfields (by simp)
    hmalformed hplace, rfl⟩

/-- What a row of tokens is read as. -/
theorem exists_reads (path : Path) (ts : List Token) :
    ∃ found rest, Reads path ts found rest ∧ Explains path found rest (structsOf path ts) := by
  induction ts using structsOf.induct with
  | case1 =>
    rw [structsOf_nil]
    exact ⟨[], [], .here, rfl, rfl⟩
  | case2 keyword hkeyword =>
    rw [structsOf_lastKeyword hkeyword]
    exact ⟨[], [], .unnamed hkeyword (by simp) .here, rfl, rfl⟩
  | case3 keyword hkeyword name hname =>
    rw [structsOf_lastName hkeyword hname]
    exact ⟨[], [], .bodiless hkeyword hname (by simp) .here, rfl, rfl⟩
  | case4 keyword hkeyword name hname brace inner hbrace body =>
    rename_i hnone
    have hbody : Body.ofTokens 0 [] inner = ⟨(Body.ofTokens 0 [] inner).fragments, none⟩ := by
      rw [← hnone]
    rw [structsOf_body hkeyword hname hbrace,
      show (Body.ofTokens 0 [] inner).rest = none from hnone]
    refine ⟨[], _, .here, ?_⟩
    -- a malformed field in front of the end of the text is reported first
    cases hfields : fieldsOf path (Body.ofTokens 0 [] inner).fragments with
    | error e => exact exists_fault hkeyword hname hbrace hfields
    | ok fields => exact ⟨_, _, _, .unterminated hkeyword hname hbrace hbody hfields, rfl⟩
  | case5 keyword hkeyword name hname brace inner hbrace body behind hbehind =>
    rename_i ih
    have hbody : Body.ofTokens 0 [] inner =
        ⟨(Body.ofTokens 0 [] inner).fragments, some behind⟩ := by
      rw [← hbehind]
    rw [structsOf_body hkeyword hname hbrace,
      show (Body.ofTokens 0 [] inner).rest = some behind from hbehind]
    cases hfields : fieldsOf path (Body.ofTokens 0 [] inner).fragments with
    | error e => exact ⟨[], _, .here, exists_fault hkeyword hname hbrace hfields⟩
    | ok fields =>
      let o : Outline := ⟨keyword, name, (Body.ofTokens 0 [] inner).fragments⟩
      have hdeclared : Struct.DeclaredIn path o (o.struct path fields) := by
        rw [← Outline.read_ok_iff, Outline.read, hfields]
        rfl
      obtain ⟨found, rest, hreads, hexplains⟩ := ih
      refine ⟨_, rest, .declared ⟨o, brace, inner, rfl, hkeyword, hname, hbrace, hbody,
        hdeclared⟩ hreads, ?_⟩
      show Explains path _ rest ((structsOf path behind).map _)
      cases hmore : structsOf path behind with
      | error e =>
        rw [hmore] at hexplains
        exact hexplains
      | ok more =>
        rw [hmore] at hexplains
        obtain ⟨hrest, rfl⟩ := hexplains
        exact ⟨hrest, rfl⟩
  | case6 keyword hkeyword name hname t ts hbrace ih =>
    rw [Bool.not_eq_true] at hbrace
    rw [structsOf_bodiless hkeyword hname hbrace]
    obtain ⟨found, rest, hreads, hexplains⟩ := ih
    exact ⟨found, rest, .bodiless hkeyword hname (by simpa using hbrace) hreads, hexplains⟩
  | case7 keyword hkeyword t ts hname hbrace =>
    rw [structsOf_nameless hkeyword hname hbrace]
    exact ⟨[], _, .here, _, _, _, .nameless hkeyword hbrace, rfl⟩
  | case8 keyword hkeyword t ts hname hbrace ih =>
    rw [Bool.not_eq_true] at hbrace
    rw [structsOf_unnamed hkeyword hname hbrace]
    obtain ⟨found, rest, hreads, hexplains⟩ := ih
    exact ⟨found, rest, .unnamed hkeyword (by simpa using ⟨hname, hbrace⟩) hreads, hexplains⟩
  | case9 t ts hword ih =>
    rw [Bool.not_eq_true] at hword
    rw [structsOf_other hword]
    obtain ⟨found, rest, hreads, hexplains⟩ := ih
    exact ⟨found, rest, .other hword hreads, hexplains⟩

/-! ## Lines of a text -/

/-- The lines that are reported for a text: each struct has that of its keyword, and a fault that
of the place to blame. -/
structure ReportsLines (lost : List Token → Nat) (path : Path) (text : List Char) : Prop where
  /-- Where a text is read, its structs are declared one behind the other. -/
  structs : ∀ ss, Hlsl.structs path text = .ok ss → ∃ found,
    Reads path (tokens text) found [] ∧ ss = found.map (·.2) ∧
      ∀ p ∈ found, Reports lost text p.1 p.2.line
  /-- Where a text is not read, reading stops at a fault. -/
  fault : ∀ e, Hlsl.structs path text = .error e → ∃ found rest kind place line,
    Reads path (tokens text) found rest ∧ Fault path rest kind place ∧ e = kind line ∧
      Reports lost text place line

/-- **Reported lines count the line feeds** in front of the keyword or the fragment, whatever the
text is and whatever is wrong with it, but for one at the end of each literal that is not closed. -/
theorem reported_lines (path : Path) (text : List Char) :
    ReportsLines (·.countP Token.isUnclosed) path text := by
  obtain ⟨found, rest, hreads, hexplains⟩ := exists_reads path (tokens text)
  constructor
  · intro ss hss
    rw [show structsOf path (tokens text) = .ok ss from hss] at hexplains
    obtain ⟨rfl, rfl⟩ := hexplains
    refine ⟨found, hreads, rfl, fun p hp => ?_⟩
    obtain ⟨o, brace, inner, hplace, hline⟩ := hreads.declaredAt hp
    have hsuffix := hreads.suffix.2 p hp
    rw [hplace] at hsuffix ⊢
    rw [hline]
    exact reports_of_suffix hsuffix
  · intro e he
    rw [show structsOf path (tokens text) = .error e from he] at hexplains
    obtain ⟨kind, t, after, hfault, rfl⟩ := hexplains
    exact ⟨found, rest, kind, t :: after, t.line, hreads, hfault, rfl,
      reports_of_suffix (hfault.suffix.trans hreads.suffix.1)⟩

/-! ## A literal that is not closed -/

namespace UnclosedLiteral

/-- A struct in the line behind a lone quote. -/
def text : List Char := "\"\nstruct A \x7b float a; \x7d;".toList

/-- The tokens of the struct. -/
def declaration : List Token :=
  [⟨[], .word, "struct".toList, 1⟩, ⟨[' '], .word, ['A'], 1⟩, ⟨[' '], .mark, ['\x7b'], 1⟩,
    ⟨[' '], .word, "float".toList, 1⟩, ⟨[' '], .word, ['a'], 1⟩, ⟨[], .mark, [';'], 1⟩,
    ⟨[' '], .mark, ['\x7d'], 1⟩, ⟨[], .mark, [';'], 1⟩]

theorem tokens_text : tokens text = ⟨[], .literal, ['"', '\n'], 1⟩ :: declaration := by
  decide +kernel

/-- The struct as it is read. -/
def struct : Struct where
  name := "A"
  fields := [⟨none, ⟨.scalar .float, .one, .one⟩, "", "a", none⟩]
  role := .constantBuffer
  path := ⟨"a.hlsl"⟩
  line := 1

theorem place_eq {place : List Token} {s : Struct}
    (h : Reads ⟨"a.hlsl"⟩ (tokens text) [(place, s)] []) : place = declaration := by
  rw [tokens_text] at h
  cases h with
  | unnamed hkeyword => cases hkeyword
  | bodiless hkeyword => cases hkeyword
  | declared hdeclared =>
    obtain ⟨o, brace, inner, hplace, hkeyword, -⟩ := hdeclared
    rw [← (List.cons.inj hplace).1] at hkeyword
    cases hkeyword
  | other _ h =>
    cases h with
    | other hkeyword => cases hkeyword
    | unnamed _ hname => exact absurd rfl (hname _ rfl).1
    | bodiless _ _ hbrace => cases hbrace _ rfl
    | declared => rfl

/-- The struct begins behind a line feed and is reported in line 1. -/
theorem line_feed_is_not_counted :
    structs ⟨"a.hlsl"⟩ text = .ok [struct] ∧
      ¬ ReportsLines (fun _ => 0) ⟨"a.hlsl"⟩ text := by
  have hread : structs ⟨"a.hlsl"⟩ text = .ok [struct] := by decide +kernel
  refine ⟨hread, fun hlines => ?_⟩
  obtain ⟨found, hreads, hfound, hreports⟩ := hlines.structs _ hread
  obtain ⟨⟨place, s⟩, rfl, rfl⟩ := List.map_eq_singleton_iff.1 hfound.symm
  obtain rfl := place_eq hreads
  obtain ⟨before, t, after, front, hbefore, hplace, rfl, -, hline⟩ :=
    hreports _ (List.mem_singleton_self _)
  rw [tokens_text] at hbefore
  obtain rfl := List.append_cancel_right
    (show [⟨[], .literal, ['"', '\n'], 1⟩] ++ declaration = before ++ declaration from hbefore)
  obtain ⟨rfl, -⟩ := List.cons.inj hplace
  revert hline
  decide

end UnclosedLiteral

end ShaderBuild.Hlsl
