import ShaderBuild.Hlsl.Declaration
import Mathlib.Data.List.Basic

/-!
# What a field is read from

The tokens of a fragment make a *declaration* when they are a modifier or none, a type, a name,
bracket groups, and a semantic with its colon or none (`Declaration`). A field is read from the
longest declaration at the front of its fragment (`Field.ofTokens?_eq_some_iff`), whatever stands
behind it, and a fragment that begins with none is malformed (`Field.ofFragment_cases`). So the
fragment is a declaration as a whole exactly when nothing stands behind the one that is read
(`DeclaredBy.whole_iff`).
-/

namespace ShaderBuild.Hlsl

/-! ## Bracket groups -/

/-- Rows of tokens in which every bracket is closed. -/
inductive Balanced : List Token → Prop
  | nil : Balanced []
  | token {t : Token} {ts : List Token} : t.isMark '[' = false → t.isMark ']' = false →
      Balanced ts → Balanced (t :: ts)
  | group {opening closing : Token} {inner ts : List Token} : opening.isMark '[' = true →
      closing.isMark ']' = true → Balanced inner → Balanced ts →
      Balanced (opening :: (inner ++ closing :: ts))

/-- A row of tokens between an opening bracket and the one that closes it. -/
inductive IsGroup : List Token → Prop
  | intro {opening closing : Token} {inner : List Token} : opening.isMark '[' = true →
      closing.isMark ']' = true → Balanced inner → IsGroup (opening :: (inner ++ [closing]))

theorem Token.isMark_opening_of_closing {t : Token} (h : t.isMark ']' = true) :
    t.isMark '[' = false := by
  simp only [Token.isMark, Bool.and_eq_true, beq_iff_eq] at h
  simp [Token.isMark, h.2]

variable {t : Token} {ts more rest inner group : List Token}

theorem splitBrackets_opening (h : t.isMark '[' = true) (n : Nat) (ts : List Token) :
    splitBrackets n (t :: ts) =
      (splitBrackets (n + 1) ts).map fun (group, rest) => (t :: group, rest) := by
  rw [splitBrackets]
  simp [h]

theorem splitBrackets_closing (h : t.isMark ']' = true) (n : Nat) (ts : List Token) :
    splitBrackets (n + 1) (t :: ts) = if n = 0 then some ([t], ts)
      else (splitBrackets n ts).map fun (group, rest) => (t :: group, rest) := by
  rw [splitBrackets]
  simp [h, Token.isMark_opening_of_closing h]

theorem splitBrackets_token (hopening : t.isMark '[' = false) (hclosing : t.isMark ']' = false)
    (n : Nat) (ts : List Token) : splitBrackets (n + 1) (t :: ts) =
      (splitBrackets (n + 1) ts).map fun (group, rest) => (t :: group, rest) := by
  rw [splitBrackets]
  simp [hopening, hclosing]

/-- No bracket is closed in a balanced row, so that the split comes behind it. -/
theorem splitBrackets_balanced (h : Balanced inner) (n : Nat) (more : List Token) :
    splitBrackets (n + 1) (inner ++ more) =
      (splitBrackets (n + 1) more).map fun (group, rest) => (inner ++ group, rest) := by
  induction h generalizing n more with
  | nil => simp
  | token hopening hclosing _ ih =>
    rw [List.cons_append, splitBrackets_token hopening hclosing, ih, Option.map_map]
    rfl
  | @group opening closing inner ts hopening hclosing _ _ ihInner ihRest =>
    rw [List.cons_append, List.append_assoc, splitBrackets_opening hopening, ihInner,
      List.cons_append, splitBrackets_closing hclosing, if_neg (Nat.succ_ne_zero n), ihRest]
    simp only [Option.map_map]
    congr 1
    funext ⟨group, rest⟩
    simp

/-- A bracket group is split off. -/
theorem splitBrackets_group (h : IsGroup group) (more : List Token) :
    splitBrackets 0 (group ++ more) = some (group, more) := by
  obtain ⟨hopening, hclosing, hinner⟩ := h
  rw [List.cons_append, splitBrackets_opening hopening, List.append_assoc,
    splitBrackets_balanced hinner, List.singleton_append, splitBrackets_closing hclosing,
    if_pos rfl]
  rfl

/-- What is split off at a depth is a balanced row, a closing bracket, and what is split off
behind it at the depth below. -/
theorem splitBrackets_eq_some {n : Nat} (h : splitBrackets (n + 1) ts = some (group, rest)) :
    ∃ inner closing behind, group = inner ++ closing :: behind ∧ Balanced inner ∧
      closing.isMark ']' = true ∧ ts = group ++ rest ∧
      (behind = [] ∧ n = 0 ∨ n ≠ 0 ∧ splitBrackets n (behind ++ rest) = some (behind, rest)) := by
  induction hlength : ts.length using Nat.strongRecOn generalizing n ts group with
  | ind length ih =>
    cases ts with
    | nil => cases h
    | cons t ts =>
      simp only [List.length_cons] at hlength
      by_cases hopening : t.isMark '[' = true
      · rw [splitBrackets_opening hopening] at h
        obtain ⟨⟨group', rest'⟩, hsplit, heq⟩ := Option.map_eq_some_iff.1 h
        obtain ⟨rfl, rfl⟩ := Prod.mk.inj heq
        obtain ⟨inner, closing, behind, rfl, hinner, hclosing, rfl, hbehind⟩ :=
          ih ts.length (by omega) hsplit rfl
        obtain ⟨-, hnext⟩ := hbehind.resolve_left fun hzero => Nat.succ_ne_zero n hzero.2
        obtain ⟨inner', closing', behind', rfl, hinner', hclosing', -, hbehind'⟩ :=
          ih (behind ++ rest').length (by simp at hlength ⊢; omega) hnext rfl
        exact ⟨t :: (inner ++ closing :: inner'), closing', behind', by simp,
          .group hopening hclosing hinner hinner', hclosing', by simp, hbehind'⟩
      · rw [Bool.not_eq_true] at hopening
        by_cases hclosing : t.isMark ']' = true
        · rw [splitBrackets_closing hclosing] at h
          split at h
          · next hzero =>
            cases h
            exact ⟨[], t, [], rfl, .nil, hclosing, rfl, .inl ⟨rfl, hzero⟩⟩
          · next hpos =>
            obtain ⟨⟨group', rest'⟩, hsplit, heq⟩ := Option.map_eq_some_iff.1 h
            obtain ⟨rfl, rfl⟩ := Prod.mk.inj heq
            obtain ⟨m, rfl⟩ := Nat.exists_eq_succ_of_ne_zero hpos
            obtain ⟨-, -, -, -, -, -, hts, -⟩ := ih ts.length (by omega) hsplit rfl
            exact ⟨[], t, group', rfl, .nil, hclosing, by rw [hts, List.cons_append],
              .inr ⟨hpos, hts ▸ hsplit⟩⟩
        · rw [Bool.not_eq_true] at hclosing
          rw [splitBrackets_token hopening hclosing] at h
          obtain ⟨⟨group', rest'⟩, hsplit, heq⟩ := Option.map_eq_some_iff.1 h
          obtain ⟨rfl, rfl⟩ := Prod.mk.inj heq
          obtain ⟨inner, closing, behind, rfl, hinner, hclosing', rfl, hbehind⟩ :=
            ih ts.length (by omega) hsplit rfl
          exact ⟨t :: inner, closing, behind, rfl, .token hopening hclosing hinner, hclosing', rfl,
            hbehind⟩

/-- Whether a row of tokens begins with an opening bracket. -/
def opens (ts : List Token) : Bool := (ts.head?.map (·.isMark '[')).getD false

/-- What is split off behind an opening bracket is a bracket group. -/
theorem isGroup_of_splitBrackets (hopens : opens ts = true)
    (h : splitBrackets 0 ts = some (group, rest)) : IsGroup group ∧ ts = group ++ rest := by
  cases ts with
  | nil => cases hopens
  | cons t ts =>
    have hopening : t.isMark '[' = true := hopens
    rw [splitBrackets_opening hopening] at h
    obtain ⟨⟨group', rest'⟩, hsplit, heq⟩ := Option.map_eq_some_iff.1 h
    obtain ⟨rfl, rfl⟩ := Prod.mk.inj heq
    obtain ⟨inner, closing, behind, rfl, hinner, hclosing, rfl, hbehind⟩ :=
      splitBrackets_eq_some hsplit
    obtain ⟨rfl, -⟩ := hbehind.resolve_right fun hpos => hpos.1 rfl
    exact ⟨.intro hopening hclosing hinner, rfl⟩

theorem IsGroup.opens (h : IsGroup group) (more : List Token) : opens (group ++ more) = true := by
  obtain ⟨hopening, -, -⟩ := h
  exact hopening

theorem arrayGroups_of_opens (h : opens ts = true) :
    arrayGroups ts = (splitBrackets 0 ts).bind fun (group, rest) =>
      (arrayGroups rest).map fun (more, r) => (source group ++ more, r) := by
  unfold opens at h
  rw [arrayGroups, if_pos h]
  split
  · next hnone => rw [hnone]; rfl
  · next hsome => rw [hsome]; rfl

theorem arrayGroups_of_not_opens (h : opens ts = false) :
    arrayGroups ts = some ([], ts) := by
  unfold opens at h
  rw [arrayGroups, if_neg (by rw [h]; decide)]

/-- **All bracket groups at the front are read** -/
theorem arrayGroups_eq_some_iff {array : List Char} : arrayGroups ts = some (array, rest) ↔
    ∃ groups : List (List Token), (∀ g ∈ groups, IsGroup g) ∧ ts = groups.flatten ++ rest ∧
      array = groups.flatMap source ∧ opens rest = false := by
  constructor
  · intro h
    induction ts using arrayGroups.induct generalizing array with
    | case1 ts hopens hnone =>
      rw [arrayGroups_of_opens hopens, hnone] at h
      cases h
    | case2 ts hopens group rest' hsplit ih =>
      rw [arrayGroups_of_opens hopens, hsplit, Option.bind_some] at h
      obtain ⟨⟨array', rest''⟩, hmore, heq⟩ := Option.map_eq_some_iff.1 h
      obtain ⟨rfl, rfl⟩ := Prod.mk.inj heq
      obtain ⟨groups, hgroups, rfl, rfl, hend⟩ := ih hmore
      obtain ⟨hgroup, rfl⟩ := isGroup_of_splitBrackets hopens hsplit
      exact ⟨group :: groups, List.forall_mem_cons.2 ⟨hgroup, hgroups⟩, by simp, by simp, hend⟩
    | case3 ts hopens =>
      have hopens : opens ts = false := by simpa [opens] using hopens
      rw [arrayGroups_of_not_opens hopens] at h
      cases h
      exact ⟨[], by simp, rfl, rfl, hopens⟩
  · rintro ⟨groups, hgroups, rfl, rfl, hend⟩
    induction groups with
    | nil => exact arrayGroups_of_not_opens hend
    | cons g groups ih =>
      obtain ⟨hg, hgroups⟩ := List.forall_mem_cons.1 hgroups
      have hopens := hg.opens (groups.flatten ++ rest)
      rw [List.flatten_cons, List.append_assoc, arrayGroups_of_opens hopens,
        splitBrackets_group hg]
      simp only [Option.bind_some, ih hgroups]
      rfl

/-! ## Declarations -/

/-- The tokens of a field declaration: a modifier or none, a type that without a modifier is not
one itself, a name apart from the type, bracket groups, and a semantic with its colon or none. -/
structure Declaration where
  modifier : Option Token
  type : Token
  name : Token
  groups : List (List Token)
  semantic : Option (Token × Token)
  modifies : ∀ t ∈ modifier, t.kind = .word ∧ (Interpolation.ofKeyword? t.text).isSome = true
  unmistaken : modifier = none → Interpolation.ofKeyword? type.text = none
  typed : type.kind = .word
  named : name.kind = .word
  parted : name.gap ≠ []
  closed : ∀ g ∈ groups, IsGroup g
  meant : ∀ p ∈ semantic, p.1.isMark ':' = true ∧ p.2.kind = .word

namespace Declaration

/-- The colon and the word of a semantic. -/
def semanticTokens (d : Declaration) : List Token :=
  match d.semantic with
  | none => []
  | some (colon, word) => [colon, word]

/-- The tokens of a declaration, in order. -/
def tokens (d : Declaration) : List Token :=
  d.modifier.toList ++ d.type :: d.name :: (d.groups.flatten ++ d.semanticTokens)

/-- The field that is declared. -/
def field (d : Declaration) : Field where
  interpolation := d.modifier.bind fun t => Interpolation.ofKeyword? t.text
  type := FieldType.ofName d.type.text
  array := String.ofList (d.groups.flatMap source)
  name := String.ofList d.name.text
  semantic := d.semantic.map fun p => String.ofList p.2.text

/-- What follows does not continue the declaration: behind a semantic nothing does, and behind a
declaration without one neither another bracket group nor a semantic follows. -/
def EndsBefore (d : Declaration) (rest : List Token) : Prop :=
  d.semantic = none → opens rest = false ∧ semantic? rest = none

variable {d : Declaration}

theorem opens_semanticTokens (h : d.EndsBefore rest) :
    opens (d.semanticTokens ++ rest) = false := by
  unfold semanticTokens
  cases hsemantic : d.semantic with
  | none => exact (h hsemantic).1
  | some p =>
    have hcolon := (d.meant p hsemantic).1
    simp only [Token.isMark, Bool.and_eq_true, beq_iff_eq] at hcolon
    simp [opens, Token.isMark, hcolon.2]

theorem semantic?_semanticTokens (h : d.EndsBefore rest) :
    semantic? (d.semanticTokens ++ rest) = d.field.semantic := by
  unfold semanticTokens field
  cases hsemantic : d.semantic with
  | none => exact (h hsemantic).2
  | some p =>
    obtain ⟨hcolon, hword⟩ := d.meant p hsemantic
    simp [semantic?, hcolon, hword]

/-- The modifier of a declaration is read, and its type is not taken for one. -/
theorem modifier_tokens (d : Declaration) (rest : List Token) :
    Hlsl.modifier (d.tokens ++ rest) = (d.field.interpolation,
      d.type :: d.name :: (d.groups.flatten ++ (d.semanticTokens ++ rest))) := by
  unfold tokens field
  cases hmodifier : d.modifier with
  | none => simp [Hlsl.modifier, d.typed, d.unmistaken hmodifier]
  | some t =>
    obtain ⟨hword, hkeyword⟩ := d.modifies t hmodifier
    obtain ⟨i, hi⟩ := Option.isSome_iff_exists.1 hkeyword
    simp [Hlsl.modifier, hword, hi]

end Declaration

/-- A modifier is a keyword in front of the rest, and where none is read the rest begins with no
keyword. -/
theorem exists_modifier (ts : List Token) : ∃ m : Option Token,
    (∀ t ∈ m, t.kind = .word ∧ (Interpolation.ofKeyword? t.text).isSome = true) ∧
    ts = m.toList ++ (modifier ts).2 ∧
    (modifier ts).1 = m.bind (fun t => Interpolation.ofKeyword? t.text) ∧
    (m = none → ∀ t ∈ (modifier ts).2.head?, t.kind = .word →
      Interpolation.ofKeyword? t.text = none) := by
  cases ts with
  | nil => exact ⟨none, by simp, rfl, rfl, by simp [modifier]⟩
  | cons t ts =>
    rw [modifier]
    cases hread : if t.kind = .word then Interpolation.ofKeyword? t.text else none with
    | some i =>
      split at hread
      · next hword => exact ⟨some t, by simp [hword, hread], rfl, by simp [hread], by simp⟩
      · cases hread
    | none =>
      refine ⟨none, by simp, rfl, rfl, ?_⟩
      rintro - u hu hword
      obtain rfl := Option.some.inj hu
      rwa [if_pos hword] at hread

/-- A semantic is a colon and a word in front of the rest. -/
theorem exists_semantic (ts : List Token) : ∃ (p : Option (Token × Token)) (rest : List Token),
    (∀ q ∈ p, q.1.isMark ':' = true ∧ q.2.kind = .word) ∧
    ts = (p.elim [] fun q => [q.1, q.2]) ++ rest ∧
    semantic? ts = (p.map fun q => String.ofList q.2.text) ∧
    (p = none → rest = ts) := by
  cases hsemantic : semantic? ts with
  | none => exact ⟨none, ts, by simp, rfl, rfl, fun _ => rfl⟩
  | some w =>
    unfold semantic? at hsemantic
    split at hsemantic
    · next colon word rest =>
      split at hsemantic
      · next h =>
        rw [Bool.and_eq_true, beq_iff_eq] at h
        refine ⟨some (colon, word), rest, ?_, rfl, hsemantic.symm, by simp⟩
        rintro q hq
        obtain rfl := Option.some.inj hq
        exact h
      · cases hsemantic
    · cases hsemantic

/-- A fragment without braces begins with a declaration, and the rest does not continue that. -/
structure DeclaredBy (fragment : List Token) (d : Declaration) (rest : List Token) : Prop where
  tokens_eq : fragment = d.tokens ++ rest
  bare : ∀ t ∈ fragment, t.isMark '\x7b' = false
  ends : d.EndsBefore rest

/-- **A field is read from the declaration at the front of its fragment** -/
theorem Field.ofTokens?_eq_some_iff {fragment : List Token} {f : Field} :
    Field.ofTokens? fragment = some f ↔ ∃ d rest, DeclaredBy fragment d rest ∧ f = d.field := by
  have hbare : (∀ t ∈ fragment, t.isMark '\x7b' = false) ↔
      fragment.any (·.isMark '\x7b') = false := by
    simp
  unfold Field.ofTokens?
  constructor
  · intro h
    split at h
    · cases h
    · next hany =>
      rw [Bool.not_eq_true] at hany
      obtain ⟨m, hmodifies, htokens, hinterpolation, hunmistaken⟩ := exists_modifier fragment
      simp only at h
      generalize hmodifier : modifier fragment = read at h htokens hinterpolation hunmistaken
      obtain ⟨interpolation, behind⟩ := read
      simp only at h htokens hinterpolation hunmistaken
      split at h
      · next type name behind =>
        split at h
        · next hwords =>
          obtain ⟨typed, named, parted⟩ := hwords
          obtain ⟨⟨array, rest⟩, harray, rfl⟩ := Option.map_eq_some_iff.1 h
          obtain ⟨groups, closed, rfl, rfl, hend⟩ := arrayGroups_eq_some_iff.1 harray
          obtain ⟨semantic, rest', meant, rfl, hsemantic, hrest⟩ := exists_semantic rest
          let d : Declaration :=
            ⟨m, type, name, groups, semantic, hmodifies, fun hm => hunmistaken hm type rfl typed,
              typed, named, parted, closed, meant⟩
          refine ⟨d, rest', ⟨?_, hbare.2 hany, ?_⟩, ?_⟩
          · rw [htokens]
            cases semantic <;> simp [d, Declaration.tokens, Declaration.semanticTokens]
          · rintro (hnone : semantic = none)
            subst hnone
            exact ⟨hend, hsemantic⟩
          · simp [d, Declaration.field, hinterpolation, hsemantic]
        · cases h
      · cases h
  · rintro ⟨d, rest, ⟨rfl, bare, ends⟩, rfl⟩
    have harray : arrayGroups (d.groups.flatten ++ (d.semanticTokens ++ rest)) =
        some (d.groups.flatMap source, d.semanticTokens ++ rest) :=
      arrayGroups_eq_some_iff.2
        ⟨d.groups, d.closed, rfl, rfl, d.opens_semanticTokens ends⟩
    rw [hbare.1 bare, d.modifier_tokens]
    simp only [Bool.false_eq_true, if_false, d.typed, d.named, d.parted, ne_eq, not_false_eq_true,
      and_self, if_true, harray, Option.map_some, d.semantic?_semanticTokens ends]
    rfl

/-- A fragment is read, or reported as malformed in its own spelling. -/
theorem Field.ofFragment_cases (path : Path) (fragment : List Token) :
    (∃ d rest, DeclaredBy fragment d rest ∧ Field.ofFragment path fragment = .ok d.field) ∨
    (∀ d rest, ¬ DeclaredBy fragment d rest) ∧
      Field.ofFragment path fragment = .error (.malformedField (String.ofList (source fragment))
        path ((fragment.head?.map (·.line)).getD 0)) := by
  unfold Field.ofFragment
  split
  · next f hf =>
    obtain ⟨d, rest, hdeclared, rfl⟩ := Field.ofTokens?_eq_some_iff.1 hf
    exact .inl ⟨d, rest, hdeclared, rfl⟩
  · next hnone =>
    refine .inr ⟨fun d rest hdeclared => ?_, rfl⟩
    rw [Field.ofTokens?_eq_some_iff.2 ⟨d, rest, hdeclared, rfl⟩] at hnone
    cases hnone

/-- A fragment is the tokens of a declaration and nothing else. -/
def Whole (fragment : List Token) : Prop := ∃ d : Declaration, fragment = d.tokens

/-- What stands behind the bracket groups of a declaration is the same in each reading. -/
theorem DeclaredBy.behind_groups {fragment : List Token} {d d' : Declaration}
    {rest rest' : List Token} (h : DeclaredBy fragment d rest) (h' : DeclaredBy fragment d' rest') :
    d.semanticTokens ++ rest = d'.semanticTokens ++ rest' := by
  have hmodifier : modifier (d.tokens ++ rest) = modifier (d'.tokens ++ rest') := by
    rw [← h.tokens_eq, ← h'.tokens_eq]
  rw [d.modifier_tokens, d'.modifier_tokens, Prod.mk.injEq, List.cons.injEq,
    List.cons.injEq] at hmodifier
  obtain ⟨-, -, -, hgroups⟩ := hmodifier
  have hread := arrayGroups_eq_some_iff.2
    ⟨d.groups, d.closed, rfl, rfl, d.opens_semanticTokens h.ends⟩
  have hread' := arrayGroups_eq_some_iff.2
    ⟨d'.groups, d'.closed, rfl, rfl, d'.opens_semanticTokens h'.ends⟩
  rw [hgroups, hread'] at hread
  exact (Prod.mk.inj (Option.some.inj hread)).2.symm

/-- **A fragment is a declaration as a whole when nothing stands behind the one it is read by** -/
theorem DeclaredBy.whole_iff {fragment : List Token} {d : Declaration}
    (h : DeclaredBy fragment d rest) : Whole fragment ↔ rest = [] := by
  constructor
  · rintro ⟨d', htokens⟩
    have h' : DeclaredBy fragment d' [] :=
      ⟨by rw [htokens, List.append_nil], h.bare, fun _ => ⟨rfl, rfl⟩⟩
    have hbehind := h.behind_groups h'
    have hends := h.ends
    unfold Declaration.EndsBefore at hends
    unfold Declaration.semanticTokens at hbehind
    cases hsemantic : d.semantic with
    | some p =>
      -- two tokens of a semantic leave no room for more
      cases hsemantic' : d'.semantic with
      | none => simp [hsemantic, hsemantic'] at hbehind
      | some p' =>
        simp only [hsemantic, hsemantic', List.append_nil] at hbehind
        exact (List.cons.inj (List.cons.inj hbehind).2).2
    | none =>
      cases hsemantic' : d'.semantic with
      | none => simpa [hsemantic, hsemantic'] using hbehind
      | some p' =>
        -- a semantic would continue the declaration that is read
        have hmeant := d'.meant p' hsemantic'
        simp only [hsemantic, hsemantic', List.append_nil, List.nil_append] at hbehind
        have hnone := (hends hsemantic).2
        simp [hbehind, semantic?, hmeant] at hnone
  · rintro rfl
    exact ⟨d, by rw [h.tokens_eq, List.append_nil]⟩

end ShaderBuild.Hlsl
