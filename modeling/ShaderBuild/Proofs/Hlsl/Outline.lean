import ShaderBuild.Proofs.Answers
import ShaderBuild.Proofs.Hlsl.Fragment

/-!
# What a text is read as

The struct declarations of a text are found by their keyword, name and opening brace, and the body
of each is cut into fragments (`Outlined`). The text is read when that goes well and each fragment
begins with a declaration (`structs_ok_iff_declared`); what stands behind that declaration in its
fragment is not looked at, so that a second declarator is lost
(`TwoDeclarators.second_declarator_is_lost`).
-/

namespace ShaderBuild.Hlsl

/-- A struct declaration in a row of tokens: its keyword, its name, and the fragments between its
braces. -/
structure Outline where
  keyword : Token
  name : Token
  fragments : List (List Token)

namespace Outline

/-- The fragments that are not empty. -/
def members (o : Outline) : List (List Token) := o.fragments.filter fun f => !f.isEmpty

/-- The struct with the given fields. -/
def struct (o : Outline) (path : Path) (fields : List Field) : Struct :=
  ⟨String.ofList o.name.text, fields, Role.ofFields fields, path, o.keyword.line⟩

/-- Reads the fields of a struct. -/
def read (path : Path) (o : Outline) : Except Error Struct :=
  (fieldsOf path o.fragments).map (o.struct path)

end Outline

/-- The struct declarations in a row of tokens. A keyword without a name or a body declares
nothing. -/
inductive Outlined : List Token → List Outline → Prop
  | nil : Outlined [] []
  | other {t : Token} {ts : List Token} {os : List Outline} :
      t.isWord "struct" = false → Outlined ts os → Outlined (t :: ts) os
  | lastKeyword {keyword : Token} : keyword.isWord "struct" = true → Outlined [keyword] []
  | lastName {keyword name : Token} : keyword.isWord "struct" = true → name.kind = .word →
      Outlined [keyword, name] []
  | unnamed {keyword t : Token} {ts : List Token} {os : List Outline} :
      keyword.isWord "struct" = true → t.kind ≠ .word → t.isMark '\x7b' = false →
      Outlined (t :: ts) os → Outlined (keyword :: t :: ts) os
  | bodiless {keyword name t : Token} {ts : List Token} {os : List Outline} :
      keyword.isWord "struct" = true → name.kind = .word → t.isMark '\x7b' = false →
      Outlined (t :: ts) os → Outlined (keyword :: name :: t :: ts) os
  | declared {keyword name brace : Token} {inner rest : List Token} {fragments : List (List Token)}
      {os : List Outline} : keyword.isWord "struct" = true → name.kind = .word →
      brace.isMark '\x7b' = true → Body.ofTokens 0 [] inner = ⟨fragments, some rest⟩ →
      Outlined rest os →
      Outlined (keyword :: name :: brace :: inner) (⟨keyword, name, fragments⟩ :: os)

variable {path : Path} {ts : List Token} {os : List Outline} {ss : List Struct}

/-! ## Reading step by step -/

section

variable {t keyword name brace : Token} {inner : List Token}

theorem structsOf_nil (path : Path) : structsOf path [] = .ok [] := by
  rw [structsOf]

theorem structsOf_other (hword : t.isWord "struct" = false) :
    structsOf path (t :: ts) = structsOf path ts := by
  rw [structsOf.eq_def]
  simp only [hword, Bool.false_eq_true, if_false]

theorem structsOf_lastKeyword (hkeyword : keyword.isWord "struct" = true) :
    structsOf path [keyword] = .ok [] := by
  rw [structsOf.eq_def]
  simp only [hkeyword, if_true]

theorem structsOf_lastName (hkeyword : keyword.isWord "struct" = true)
    (hname : name.kind = .word) : structsOf path [keyword, name] = .ok [] := by
  rw [structsOf.eq_def]
  simp only [hkeyword, hname, if_true]

theorem structsOf_nameless (hkeyword : keyword.isWord "struct" = true)
    (hname : brace.kind ≠ .word) (hbrace : brace.isMark '\x7b' = true) :
    structsOf path (keyword :: brace :: ts) = .error (.namelessStruct path keyword.line) := by
  rw [structsOf.eq_def]
  simp only [hkeyword, hname, hbrace, if_true, if_false]

theorem structsOf_unnamed (hkeyword : keyword.isWord "struct" = true) (hname : t.kind ≠ .word)
    (hbrace : t.isMark '\x7b' = false) :
    structsOf path (keyword :: t :: ts) = structsOf path (t :: ts) := by
  rw [structsOf.eq_def]
  simp only [hkeyword, hname, hbrace, if_true, if_false, Bool.false_eq_true]

theorem structsOf_bodiless (hkeyword : keyword.isWord "struct" = true) (hname : name.kind = .word)
    (hbrace : t.isMark '\x7b' = false) :
    structsOf path (keyword :: name :: t :: ts) = structsOf path (t :: ts) := by
  rw [structsOf.eq_def]
  simp only [hkeyword, hname, hbrace, if_true, if_false, Bool.false_eq_true]

/-- The fields of a body are read first, and what follows the body after that. -/
theorem structsOf_body (hkeyword : keyword.isWord "struct" = true) (hname : name.kind = .word)
    (hbrace : brace.isMark '\x7b' = true) :
    structsOf path (keyword :: name :: brace :: inner) =
      (fieldsOf path (Body.ofTokens 0 [] inner).fragments).bind fun fields =>
        match (Body.ofTokens 0 [] inner).rest with
        | none => .error (.unterminatedStruct (String.ofList name.text) path keyword.line)
        | some rest => (structsOf path rest).map fun more =>
          ⟨String.ofList name.text, fields, Role.ofFields fields, path, keyword.line⟩ :: more := by
  rw [structsOf.eq_def]
  simp only [hkeyword, hname, hbrace, if_true]
  split
  · next hnone =>
    rw [hnone]
    cases fieldsOf path (Body.ofTokens 0 [] inner).fragments <;> rfl
  · next rest hsome =>
    rw [hsome]
    cases fieldsOf path (Body.ofTokens 0 [] inner).fragments with
    | error e => rfl
    | ok fields =>
      show (structsOf path rest).bind _ = (structsOf path rest).map _
      cases structsOf path rest <;> rfl

end

/-- Where declarations are found, each is read in turn. -/
theorem structsOf_of_outlined (h : Outlined ts os) (path : Path) :
    structsOf path ts = os.mapM (Outline.read path) := by
  induction h with
  | nil => exact structsOf_nil path
  | other hword _ ih => rw [structsOf_other hword, ih]
  | lastKeyword hkeyword => exact structsOf_lastKeyword hkeyword
  | lastName hkeyword hname => exact structsOf_lastName hkeyword hname
  | unnamed hkeyword hname hbrace _ ih => rw [structsOf_unnamed hkeyword hname hbrace, ih]
  | bodiless hkeyword hname hbrace _ ih => rw [structsOf_bodiless hkeyword hname hbrace, ih]
  | @declared keyword name brace inner rest fragments os hkeyword hname hbrace hbody _ ih =>
    rw [structsOf_body hkeyword hname hbrace, hbody, List.mapM_cons, Outline.read]
    cases fieldsOf path fragments with
    | error e => rfl
    | ok fields =>
      show (structsOf path rest).map _ = _
      rw [ih]
      show _ = (os.mapM (Outline.read path)).bind _
      cases os.mapM (Outline.read path) <;> rfl

/-- Where a text is read, declarations are found. -/
theorem exists_outlined (h : structsOf path ts = .ok ss) : ∃ os, Outlined ts os := by
  induction ts using structsOf.induct generalizing ss with
  | case1 => exact ⟨[], .nil⟩
  | case2 keyword hkeyword => exact ⟨[], .lastKeyword hkeyword⟩
  | case3 keyword hkeyword name hname => exact ⟨[], .lastName hkeyword hname⟩
  | case4 keyword hkeyword name hname brace inner hbrace body =>
    rename_i hnone
    rw [structsOf_body hkeyword hname hbrace,
      show (Body.ofTokens 0 [] inner).rest = none from hnone] at h
    cases hfields : fieldsOf path (Body.ofTokens 0 [] inner).fragments <;>
      rw [hfields] at h <;> cases h
  | case5 keyword hkeyword name hname brace inner hbrace body rest hrest =>
    rename_i ih
    have hbody : Body.ofTokens 0 [] inner =
        ⟨(Body.ofTokens 0 [] inner).fragments, some rest⟩ := by
      rw [← hrest]
    rw [structsOf_body hkeyword hname hbrace,
      show (Body.ofTokens 0 [] inner).rest = some rest from hrest] at h
    cases hfields : fieldsOf path (Body.ofTokens 0 [] inner).fragments with
    | error e =>
      rw [hfields] at h
      cases h
    | ok fields =>
      rw [hfields] at h
      cases hmore : structsOf path rest with
      | error e =>
        simp [Except.bind, Except.map, hmore] at h
      | ok more =>
        obtain ⟨os, hos⟩ := ih hmore
        exact ⟨_, .declared hkeyword hname hbrace hbody hos⟩
  | case6 keyword hkeyword name hname t ts hbrace ih =>
    rw [Bool.not_eq_true] at hbrace
    rw [structsOf_bodiless hkeyword hname hbrace] at h
    obtain ⟨os, hos⟩ := ih h
    exact ⟨os, .bodiless hkeyword hname hbrace hos⟩
  | case7 keyword hkeyword t ts hname hbrace =>
    rw [structsOf_nameless hkeyword hname hbrace] at h
    cases h
  | case8 keyword hkeyword t ts hname hbrace ih =>
    rw [Bool.not_eq_true] at hbrace
    rw [structsOf_unnamed hkeyword hname hbrace] at h
    obtain ⟨os, hos⟩ := ih h
    exact ⟨os, .unnamed hkeyword hname hbrace hos⟩
  | case9 t ts hword ih =>
    rw [Bool.not_eq_true] at hword
    rw [structsOf_other hword] at h
    obtain ⟨os, hos⟩ := ih h
    exact ⟨os, .other hword hos⟩

/-! ## Fields and structs -/

/-- A field is declared by a fragment: by the declaration at its front, which is all of the
fragment exactly when nothing is left. -/
def Field.DeclaredIn (fragment : List Token) (f : Field) : Prop :=
  ∃ d rest, DeclaredBy fragment d rest ∧ f = d.field ∧ (Whole fragment ↔ rest = [])

/-- A struct is declared by an outline: it has its name, its line, and the fields that the members
declare, in order. -/
def Struct.DeclaredIn (path : Path) (o : Outline) (s : Struct) : Prop :=
  ∃ fields, s = o.struct path fields ∧ List.Forall₂ Field.DeclaredIn o.members fields

theorem Field.ofFragment_ok_iff {fragment : List Token} {f : Field} :
    Field.ofFragment path fragment = .ok f ↔ Field.DeclaredIn fragment f := by
  unfold Field.ofFragment
  constructor
  · intro h
    split at h
    · next f' hf =>
      cases h
      obtain ⟨d, rest, hdeclared, heq⟩ := Field.ofTokens?_eq_some_iff.1 hf
      exact ⟨d, rest, hdeclared, heq, hdeclared.whole_iff⟩
    · cases h
  · rintro ⟨d, rest, hdeclared, rfl, -⟩
    rw [Field.ofTokens?_eq_some_iff.2 ⟨d, rest, hdeclared, rfl⟩]

theorem Outline.read_ok_iff {o : Outline} {s : Struct} :
    o.read path = .ok s ↔ Struct.DeclaredIn path o s := by
  have hfields : ∀ fields, fieldsOf path o.fragments = .ok fields ↔
      List.Forall₂ Field.DeclaredIn o.members fields := fun fields => by
    rw [fieldsOf, mapM_ok_iff]
    simp only [Field.ofFragment_ok_iff]
    rfl
  unfold Outline.read Struct.DeclaredIn
  simp only [← hfields]
  cases fieldsOf path o.fragments with
  | error e => simp [Except.map]
  | ok fields => simp [Except.map, eq_comm]

/-- A fragment that begins with no declaration. -/
def Malformed (fragment : List Token) : Prop := ∀ d rest, ¬ DeclaredBy fragment d rest

/-- The first struct that is not read has a malformed fragment, which is reported. -/
theorem Outline.read_error {o : Outline} {e : Error} (h : o.read path = .error e) :
    ∃ fragment ∈ o.members, Malformed fragment ∧ e = .malformedField
      (String.ofList (source fragment)) path ((fragment.head?.map (·.line)).getD 0) := by
  unfold Outline.read at h
  cases hfields : fieldsOf path o.fragments with
  | ok fields =>
    rw [hfields] at h
    cases h
  | error e' =>
    rw [hfields] at h
    cases h
    obtain ⟨fragment, hmem, hfragment⟩ := mapM_error hfields
    refine ⟨fragment, hmem, ?_⟩
    rcases Field.ofFragment_cases path fragment with ⟨d, rest, -, hok⟩ | ⟨hmalformed, herror⟩
    · rw [hok] at hfragment
      cases hfragment
    · rw [herror] at hfragment
      exact ⟨hmalformed, (Except.error.inj hfragment).symm⟩

/-- **What a text is read as**: its struct declarations, each field being that of the declaration
at the front of its fragment. No more of the fragment is looked at, so a fragment is a declaration
as a whole exactly when nothing is left of it; and where a fragment begins with no declaration, one
such fragment is reported. -/
theorem structs_are_declared (path : Path) (text : List Char) :
    (∀ ss, structs path text = .ok ss ↔
      ∃ os, Outlined (tokens text) os ∧ List.Forall₂ (Struct.DeclaredIn path) os ss) ∧
    ∀ os, Outlined (tokens text) os →
      (∃ o ∈ os, ∃ fragment ∈ o.members, Malformed fragment) →
      ∃ o ∈ os, ∃ fragment ∈ o.members, Malformed fragment ∧
        structs path text = .error (.malformedField (String.ofList (source fragment)) path
          ((fragment.head?.map (·.line)).getD 0)) := by
  have hread : ∀ os, Outlined (tokens text) os → ∀ ss, structs path text = .ok ss ↔
      List.Forall₂ (Struct.DeclaredIn path) os ss := fun os hos ss => by
    rw [structs, structsOf_of_outlined hos, mapM_ok_iff]
    simp only [Outline.read_ok_iff]
  refine ⟨fun ss => ⟨fun h => ?_, fun ⟨os, hos, hss⟩ => (hread os hos ss).2 hss⟩, ?_⟩
  · obtain ⟨os, hos⟩ := exists_outlined h
    exact ⟨os, hos, (hread os hos ss).1 h⟩
  · rintro os hos ⟨o, ho, fragment, hfragment, hmalformed⟩
    cases hstructs : structs path text with
    | ok ss =>
      obtain ⟨s, -, fields, -, hfields⟩ := exists_right_of_forall₂ ((hread os hos ss).1 hstructs) ho
      obtain ⟨f, -, d, rest, hdeclared, -⟩ := exists_right_of_forall₂ hfields hfragment
      exact absurd hdeclared (hmalformed d rest)
    | error e =>
      rw [structs, structsOf_of_outlined hos] at hstructs
      obtain ⟨o', ho', herror⟩ := mapM_error hstructs
      obtain ⟨fragment', hfragment', hmalformed', rfl⟩ := Outline.read_error herror
      exact ⟨o', ho', fragment', hfragment', hmalformed', rfl⟩

/-! ## Two declarators -/

namespace TwoDeclarators

/-- A struct whose field declares two names. -/
def text : List Char := "struct A \x7b float a, b; \x7d;".toList

/-- The type, the first name, and what stands behind it. -/
def type : Token := ⟨[' '], .word, "float".toList, 1⟩
def name : Token := ⟨[' '], .word, ['a'], 1⟩
def behind : List Token := [⟨[], .mark, [','], 1⟩, ⟨[' '], .word, ['b'], 1⟩]

/-- The struct as it stands in the text. -/
def outline : Outline where
  keyword := ⟨[], .word, "struct".toList, 1⟩
  name := ⟨[' '], .word, ['A'], 1⟩
  fragments := [type :: name :: behind, []]

theorem outlined : Outlined (tokens text) [outline] := by
  have htokens : tokens text = outline.keyword :: outline.name ::
      ⟨[' '], .mark, ['\x7b'], 1⟩ :: (type :: name :: behind ++
        [⟨[], .mark, [';'], 1⟩, ⟨[' '], .mark, ['\x7d'], 1⟩, ⟨[], .mark, [';'], 1⟩]) := by
    decide +kernel
  rw [htokens]
  exact .declared rfl rfl rfl rfl (.other rfl .nil)

/-- The declaration of the first name. -/
def first : Declaration where
  modifier := none
  type := type
  name := name
  groups := []
  semantic := none
  modifies := by simp
  unmistaken _ := by decide
  typed := rfl
  named := rfl
  parted := by decide
  closed := by simp
  meant := by simp

theorem declaredBy_first : DeclaredBy (type :: name :: behind) first behind where
  tokens_eq := rfl
  bare := by decide
  ends _ := ⟨rfl, rfl⟩

/-- The second name is lost: the text is read as a struct with one field, although the fragment of
that field is no declaration as a whole. -/
theorem second_declarator_is_lost :
    structs ⟨"test.hlsl"⟩ text = .ok [outline.struct ⟨"test.hlsl"⟩ [first.field]] ∧
      Outlined (tokens text) [outline] ∧ ∃ fragment ∈ outline.members, ¬ Whole fragment := by
  refine ⟨by decide +kernel, outlined, type :: name :: behind, by decide, fun hwhole => ?_⟩
  cases declaredBy_first.whole_iff.1 hwhole

end TwoDeclarators

end ShaderBuild.Hlsl
