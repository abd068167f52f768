import ShaderBuild.Proofs.Hlsl.Gap
import ShaderBuild.Proofs.Hlsl.Line
import ShaderBuild.Proofs.Hlsl.Scanner

/-!
# Tokens by their places

The scanner of bytes cuts a text between characters into tokens that lie apart, in order, with
nothing but whole separators around them (`Cuts`, `bytes_are_cut_into_tokens`).

Since words never touch, it makes no difference that a field is refused when its type and its name
do: a fragment that is refused is refused without that, too (`Field.ofTokens?_eq_ofTouching?`).
-/

namespace ShaderBuild.Hlsl

open Text

variable {text g : List Char} {i : Nat} {ts us : List Token} {p : Span}

/-! ## Rows of spans -/

theorem spansFrom_eq_append {before after : List Span} (h : spansFrom i ts = before ++ after) :
    ∃ us vs, ts = us ++ vs ∧ before = spansFrom i us ∧
      after = spansFrom (i + (encode (written us)).length) vs := by
  induction before generalizing i ts with
  | nil => exact ⟨[], ts, rfl, rfl, h.symm⟩
  | cons p before ih =>
    cases ts with
    | nil => cases h
    | cons t ts =>
      obtain ⟨rfl, hrest⟩ := List.cons.inj h
      obtain ⟨us, vs, rfl, rfl, rfl⟩ := ih hrest
      refine ⟨t :: us, vs, rfl, rfl, ?_⟩
      rw [written_cons, length_encode_append, length_encode_append]
      congr 1
      omega

/-- The place where a row of spans ends, which is the given one if there are none. -/
def stopOf (i : Nat) (spans : List Span) : Nat := (spans.getLast?.map (·.stop)).getD i

/-- The place where a row of spans starts, which is the end of the text if there are none. -/
def startOf (text : List Char) (spans : List Span) : Nat :=
  (spans.head?.map (·.start)).getD (encode text).length

theorem stopOf_spansFrom (i : Nat) (ts : List Token) :
    stopOf i (spansFrom i ts) = i + (encode (written ts)).length := by
  induction ts generalizing i with
  | nil => rfl
  | cons t ts ih =>
    have hrest := ih (i + (encode t.gap).length + (encode t.text).length)
    have hlast : stopOf i (spansFrom i (t :: ts)) = stopOf
        (i + (encode t.gap).length + (encode t.text).length)
        (spansFrom (i + (encode t.gap).length + (encode t.text).length) ts) := by
      rw [stopOf, stopOf, spansFrom, List.getLast?_cons]
      cases (spansFrom (i + (encode t.gap).length + (encode t.text).length) ts).getLast? <;> rfl
    rw [hlast, hrest, written_cons, length_encode_append, length_encode_append]
    omega

theorem isEmpty_spansFrom (i : Nat) (ts : List Token) :
    (spansFrom i ts).isEmpty = ts.isEmpty := by
  cases ts <;> rfl

/-- What starts with tokens starts with the gap in front of them. -/
theorem exists_eq_gapBefore (ts : List Token) (g : List Char) :
    ∃ b, written ts ++ g = gapBefore g ts ++ b := by
  cases ts with
  | nil => exact ⟨[], by simp [written, gapBefore]⟩
  | cons t ts => exact ⟨t.text ++ written ts ++ g, by simp [written_cons, gapBefore]⟩

theorem startOf_spansFrom (h : Stands text i (written ts ++ g)) :
    startOf text (spansFrom i ts) = i + (encode (gapBefore g ts)).length := by
  cases ts with
  | nil => exact h.length_eq
  | cons t ts => rfl

/-- The gap in front of a token. -/
theorem stands_token {t : Token} (h : Stands text i (written (t :: ts) ++ g)) :
    Stands text (i + (encode t.gap).length) (t.text ++ (written ts ++ g)) := by
  rw [written_cons, List.append_assoc, List.append_assoc] at h
  exact h.append

/-- A span lies behind the place where its row is, and spells its token. -/
theorem spansFrom_spell (h : Stands text i (written ts ++ g)) (hne : ∀ t ∈ ts, t.text ≠ [])
    (hp : p ∈ spansFrom i ts) :
    i ≤ p.start ∧ p.start < p.stop ∧ slice? (encode text) p.start p.stop = some p.text := by
  induction ts generalizing i with
  | nil => cases hp
  | cons t ts ih =>
    obtain ⟨ht, hts⟩ := List.forall_mem_cons.1 hne
    have htoken := stands_token h
    rcases List.mem_cons.1 hp with rfl | hp
    · refine ⟨Nat.le_add_right _ _, Nat.lt_add_of_pos_right ?_, htoken.slice?⟩
      exact Nat.pos_of_ne_zero fun hzero => ht (length_encode_eq_zero.1 hzero)
    · obtain ⟨hle, hspell⟩ := ih htoken.append hts hp
      exact ⟨by omega, hspell⟩

theorem spansFrom_ordered (h : Stands text i (written ts ++ g)) (hne : ∀ t ∈ ts, t.text ≠ []) :
    (spansFrom i ts).Pairwise fun p q => p.stop ≤ q.start := by
  induction ts generalizing i with
  | nil => exact .nil
  | cons t ts ih =>
    have hrest := (stands_token h).append
    have hts := (List.forall_mem_cons.1 hne).2
    exact .cons (fun q hq => (spansFrom_spell hrest hts hq).1) (ih hrest hts)

/-- Spans of words lie apart if the words are parted. -/
theorem spansFrom_apart (h : ts.IsChain Parted) : (spansFrom i ts).IsChain fun p q =>
    p.kind = .word → q.kind = .word → p.stop < q.start := by
  induction ts generalizing i with
  | nil => exact .nil
  | cons t ts ih =>
    obtain ⟨hhead, hts⟩ := List.isChain_cons.1 h
    refine List.isChain_cons.2 ⟨fun q hq hword hnext => ?_, ih hts⟩
    cases ts with
    | nil => cases hq
    | cons u us =>
      obtain rfl := Option.some.inj hq
      have hgap := hhead u rfl hword hnext
      exact Nat.lt_add_of_pos_right (Nat.pos_of_ne_zero fun hzero =>
        hgap (length_encode_eq_zero.1 hzero))

/-! ## The spans of a text -/

/-- Spans cut a text into tokens. -/
structure Cuts (text : List Char) (spans : List Span) : Prop where
  /-- No token is empty. -/
  nonempty : ∀ p ∈ spans, p.start < p.stop
  /-- Tokens start and end between characters, and have the text between these places. -/
  spelled : ∀ p ∈ spans, slice? (encode text) p.start p.stop = some p.text
  /-- Each token ends before the ones behind it start. -/
  ordered : spans.Pairwise fun p q => p.stop ≤ q.start
  /-- In front of each token, and behind the last one, stands a row of whole separators. -/
  parted : ∀ before after, spans = before ++ after → ∃ g,
    slice? (encode text) (stopOf 0 before) (startOf text after) = some g ∧
      IsGap after.isEmpty before.isEmpty g
  /-- A word does not start where another one ends. -/
  apart : spans.IsChain fun p q => p.kind = .word → q.kind = .word → p.stop < q.start

theorem text_ne_nil_of_tokensFrom {line : Nat} {fresh : Bool} {s : List Char} {t : Token}
    (ht : t ∈ (tokensFrom line fresh s).1) : t.text ≠ [] := by
  obtain ⟨before, after, hsplit⟩ := List.append_of_mem ht
  induction before generalizing line fresh s with
  | nil =>
    obtain ⟨g, c, r, -, rfl, -⟩ := tokensFrom_eq_cons hsplit
    exact (lexeme_eq c r).1
  | cons u before ih =>
    obtain ⟨g, c, r, -, -, hrest⟩ := tokensFrom_eq_cons hsplit
    exact ih (hrest ▸ by simp) hrest.symm

/-- The spans of a text cut it. -/
theorem cuts_spans (text : List Char) : Cuts text (spans text) := by
  have hstands : Stands text 0 (written (tokens text) ++ (tokensFrom 1 true text).2) := by
    rw [tokens, written_tokensFrom]
    exact stands_start text
  have hne : ∀ t ∈ tokens text, t.text ≠ [] := fun t ht => text_ne_nil_of_tokensFrom ht
  refine ⟨fun p hp => (spansFrom_spell hstands hne hp).2.1,
    fun p hp => (spansFrom_spell hstands hne hp).2.2, spansFrom_ordered hstands hne, ?_,
    spansFrom_apart (isChain_tokensFrom 1 true text)⟩
  intro before after hsplit
  obtain ⟨us, vs, htokens, rfl, rfl⟩ := spansFrom_eq_append hsplit
  have hgap : IsGap vs.isEmpty (us.isEmpty && true) (gapBefore (tokensFrom 1 true text).2 vs) :=
    isGap_of_tokensFrom 1 (Prod.ext htokens rfl)
  rw [htokens, written_append, List.append_assoc] at hstands
  have hbehind := hstands.append
  have hstart := startOf_spansFrom hbehind
  obtain ⟨b, hb⟩ := exists_eq_gapBefore vs (tokensFrom 1 true text).2
  rw [hb] at hbehind
  rw [stopOf_spansFrom, hstart, isEmpty_spansFrom, isEmpty_spansFrom]
  exact ⟨_, hbehind.slice?, by rwa [Bool.and_true] at hgap⟩

/-! ## Types and names that touch -/

/-- Reads a field like `Field.ofTokens?`, but lets type and name touch. -/
def Field.ofTouching? (fragment : List Token) : Option Field :=
  if fragment.any (·.isMark '\x7b') then none
  else
    let (interpolation, rest) := modifier fragment
    match rest with
    | type :: name :: rest =>
      if type.kind = .word ∧ name.kind = .word then
        (arrayGroups rest).map fun (array, rest) =>
          { interpolation
            type := FieldType.ofName type.text
            array := String.ofList array
            name := String.ofList name.text
            semantic := semantic? rest }
      else none
    | _ => none

example : Field.ofTokens? [⟨[], .word, ['i', 'n', 't'], 1⟩, ⟨[], .word, ['a'], 1⟩] = none ∧
    Field.ofTouching? [⟨[], .word, ['i', 'n', 't'], 1⟩, ⟨[], .word, ['a'], 1⟩] =
      some ⟨none, ⟨.scalar .int, .one, .one⟩, "", "a", none⟩ := by
  decide +kernel

/-- Where words are parted, type and name are. -/
theorem Field.ofTokens?_eq_ofTouching? {fragment : List Token} (h : fragment.IsChain Parted) :
    Field.ofTokens? fragment = Field.ofTouching? fragment := by
  obtain ⟨m, -, htokens, -, -⟩ := exists_modifier fragment
  have hrest : (modifier fragment).2.IsChain Parted := h.suffix ⟨m.toList, htokens.symm⟩
  unfold Field.ofTokens? Field.ofTouching?
  generalize modifier fragment = read at hrest
  obtain ⟨interpolation, rest⟩ := read
  match rest with
  | [] => rfl
  | [_] => rfl
  | type :: name :: rest =>
    have hparted := (List.isChain_cons.1 hrest).1 name rfl
    have hwords : (type.kind = .word ∧ name.kind = .word ∧ name.gap ≠ []) ↔
        type.kind = .word ∧ name.kind = .word :=
      ⟨fun hw => ⟨hw.1, hw.2.1⟩, fun hw => ⟨hw.1, hw.2, hparted hw.1 hw.2⟩⟩
    simp only [hwords]

/-- That its type and its name touch is not why a field of a text is refused. -/
structure NoneTouch (text : List Char) : Prop where
  /-- Tokens that stand side by side in the text are read alike if type and name may touch. -/
  fields : ∀ fragment, fragment <:+: tokens text →
    Field.ofTokens? fragment = Field.ofTouching? fragment
  /-- A field that is reported as malformed is refused also if they may. -/
  reports : ∀ path quoted file line, structs path text = .error (.malformedField quoted file line) →
    ∃ fragment, fragment <:+: tokens text ∧
      Field.ofFragment path fragment = .error (.malformedField quoted file line) ∧
      Field.ofTouching? fragment = none

theorem noneTouch (text : List Char) : NoneTouch text := by
  have hfields : ∀ fragment, fragment <:+: tokens text →
      Field.ofTokens? fragment = Field.ofTouching? fragment := by
    rintro fragment ⟨before, after, htokens⟩
    have hchain : (before ++ fragment ++ after).IsChain Parted :=
      htokens ▸ isChain_tokensFrom 1 true text
    exact Field.ofTokens?_eq_ofTouching? hchain.left_of_append.right_of_append
  refine ⟨hfields, fun path quoted file line herror => ?_⟩
  obtain ⟨found, rest, hreads, hexplains⟩ := exists_reads path (tokens text)
  rw [show structsOf path (tokens text) = _ from herror] at hexplains
  obtain ⟨kind, t, after, hfault, hkind⟩ := hexplains
  have hsuffix := hfault.suffix.trans hreads.suffix.1
  cases hfault with
  | nameless => cases hkind
  | unterminated => cases hkind
  | @malformed _ _ _ _ fragment _ _ _ _ _ _ _ _ _ hne hmalformed hplace =>
    have hwithin : fragment <:+: tokens text := hplace.prefix.isInfix.trans hsuffix.isInfix
    have hnone : Field.ofTokens? fragment = none := by
      refine Option.eq_none_iff_forall_ne_some.2 fun f hf => ?_
      obtain ⟨d, rest, hdeclared, -⟩ := Field.ofTokens?_eq_some_iff.1 hf
      exact hmalformed d rest hdeclared
    have hfirst : fragment.head? = some t := by
      obtain ⟨u, us, rfl⟩ := List.exists_cons_of_ne_nil hne
      rw [List.head?_cons, (List.cons_prefix_cons.1 hplace.prefix).1]
    refine ⟨fragment, hwithin, ?_, hfields fragment hwithin ▸ hnone⟩
    rw [Field.ofFragment, hnone, hfirst, hkind]
    rfl

/-- **The bytes of a text are cut into its tokens**, whatever the text is. -/
theorem bytes_are_cut_into_tokens (text : List Char) :
    ScansSafely text ∧ scan (encode text) = some (spans text) ∧ Cuts text (spans text) ∧
      NoneTouch text :=
  ⟨scansSafely text, scan_encode text, cuts_spans text, noneTouch text⟩

end ShaderBuild.Hlsl
