import Mathlib.Data.List.Chain
import ShaderBuild.Proofs.Hlsl.Token

/-!
# What stands between tokens

A gap is a row of blanks, line comments, block comments and preprocessor lines, each of them whole
(`IsGap`). Only the gap behind the last token may end inside a block comment. Every gap that is cut
off is of this kind (`isGap_of_tokensFrom`).

Two words next to each other have a gap between them, since a word goes on as far as it can
(`isChain_tokensFrom`).
-/

namespace ShaderBuild.Hlsl

variable {fresh fresh' : Bool} {s t g r : List Char} {line : Nat}

/-! ## Gaps -/

/-- What takes the rest of its line ends in front of a text: the line or the whole text ends
there. -/
def EndsLine (last : Bool) (s : List Char) : Prop := s.head? = some '\n' ∨ s = [] ∧ last = true

/-- A backslash in front of each of its line feeds continues a line. -/
def Continued (line : List Char) : Prop :=
  ∀ a b, line = a ++ '\n' :: b → a.getLast? = some '\\'

/-- A row of separators. `last` says whether the text ends behind it, and `fresh` whether nothing
but blanks and comments stands in front of it in its line. -/
inductive IsGap (last : Bool) : Bool → List Char → Prop
  | empty {fresh : Bool} : IsGap last fresh []
  | lineFeed {fresh : Bool} {s : List Char} : IsGap last true s → IsGap last fresh ('\n' :: s)
  | blank {fresh : Bool} {c : Char} {s : List Char} : isSpace c = true → c ≠ '\n' →
      IsGap last fresh s → IsGap last fresh (c :: s)
  | lineComment {fresh : Bool} {body s : List Char} : '\n' ∉ body → EndsLine last s →
      IsGap last fresh s → IsGap last fresh ('/' :: '/' :: body ++ s)
  | blockComment {fresh : Bool} {body s : List Char} : ¬ ['*', '/'] <:+: body →
      IsGap last fresh s → IsGap last fresh ('/' :: '*' :: body ++ '*' :: '/' :: s)
  | unclosedComment {fresh : Bool} {body : List Char} : ¬ ['*', '/'] <:+: body → last = true →
      IsGap last fresh ('/' :: '*' :: body)
  | directive {line s : List Char} : Continued line →
      (s.head? = some '\n' → line.getLast? ≠ some '\\') → EndsLine last s →
      IsGap last true s → IsGap last true ('#' :: line ++ s)

/-! ## Separators are whole -/

theorem continued_nil : Continued [] := by
  rintro (_ | ⟨c, a⟩) b h <;> cases h

theorem Continued.cons {line : List Char} {c : Char} (hc : c ≠ '\n') (h : Continued line) :
    Continued (c :: line) := by
  intro a b hsplit
  cases a with
  | nil => exact absurd (List.cons.inj hsplit).1 hc
  | cons d a =>
    obtain ⟨rfl, hline⟩ := List.cons.inj hsplit
    rw [List.getLast?_cons, h a b hline]
    rfl

theorem Continued.backslash {line : List Char} (h : Continued line) :
    Continued ('\\' :: '\n' :: line) := by
  intro a b hsplit
  cases a with
  | nil => cases hsplit
  | cons d a =>
    obtain ⟨rfl, hfeed⟩ := List.cons.inj hsplit
    cases a with
    | nil => rfl
    | cons e a =>
      obtain ⟨rfl, hline⟩ := List.cons.inj hfeed
      rw [List.getLast?_cons, List.getLast?_cons, h a b hline]
      rfl

/-- A preprocessor line goes on over all lines that continue it, and is not continued where it
ends. -/
theorem preprocessorLine_whole (s : List Char) : Continued (preprocessorLine s).1 ∧
    ((preprocessorLine s).2 = [] ∨ (preprocessorLine s).2.head? = some '\n' ∧
      (preprocessorLine s).1.getLast? ≠ some '\\') := by
  fun_induction preprocessorLine s with
  | case1 => exact ⟨continued_nil, .inl rfl⟩
  | case2 r ih =>
    refine ⟨ih.1.backslash, ih.2.imp_right fun h => ⟨h.1, ?_⟩⟩
    rw [List.getLast?_cons, List.getLast?_cons]
    cases hline : (preprocessorLine r).1.getLast? with
    | none => simp
    | some d =>
      rw [hline] at h
      simpa using h.2
  | case3 r => exact ⟨continued_nil, .inr ⟨rfl, by simp⟩⟩
  | case4 c r hback hline ih =>
    refine ⟨ih.1.cons fun hc => hline hc, ih.2.imp_right fun h => ⟨h.1, ?_⟩⟩
    rw [List.getLast?_cons]
    cases hlast : (preprocessorLine r).1.getLast? with
    | none =>
      -- nothing but this character is in front of the line feed
      have hempty := List.getLast?_eq_none_iff.1 hlast
      have hr := preprocessorLine_eq r
      obtain ⟨r', hr'⟩ := List.head?_eq_some_iff.1 h.1
      rw [hempty, hr', List.nil_append] at hr
      simpa using fun hc => hback r' hc hr.symm
    | some d =>
      rw [hlast] at h
      simpa using h.2

/-- A block comment goes on to its first closing, or to the end of the text. -/
theorem commentBody_whole (s : List Char) :
    (∃ body, (commentBody s).1 = body ++ ['*', '/'] ∧ ¬ ['*', '/'] <:+: body) ∨
      (commentBody s).2 = [] ∧ ¬ ['*', '/'] <:+: (commentBody s).1 := by
  fun_induction commentBody s with
  | case1 => exact .inr ⟨rfl, by simp⟩
  | case2 r => exact .inl ⟨[], rfl, by simp⟩
  | case3 c r hend ih =>
    have hr := commentBody_eq r
    have hcons : ∀ body : List Char, body <+: r → ¬ ['*', '/'] <:+: body →
        ¬ ['*', '/'] <:+: c :: body := by
      intro body hbody hopen hclose
      rcases List.infix_cons_iff.1 hclose with hfront | hinner
      · obtain ⟨rfl, hslash⟩ := List.cons_prefix_cons.1 hfront
        obtain ⟨r', hr'⟩ := hslash.trans hbody
        exact hend r' rfl hr'.symm
      · exact hopen hinner
    rcases ih with ⟨body, hbody, hopen⟩ | ⟨hrest, hopen⟩
    · rw [hbody, List.append_assoc] at hr
      exact .inl ⟨c :: body, by rw [hbody]; rfl, hcons body ⟨_, hr⟩ hopen⟩
    · exact .inr ⟨hrest, hcons _ ⟨_, hr⟩ hopen⟩

/-- What is cut off behind something that takes the rest of its line starts with the line feed. -/
theorem endsLine_gap (h : gap fresh s = (g, r)) (hs : s = [] ∨ s.head? = some '\n') :
    EndsLine r.isEmpty g := by
  rcases hs with rfl | hs
  · rw [gap_of_none rfl] at h
    cases h
    exact .inr ⟨rfl, rfl⟩
  · obtain ⟨s, rfl⟩ := List.head?_eq_some_iff.1 hs
    rw [gap_newline] at h
    cases h
    exact .inl rfl

/-- A separator makes a gap one longer. -/
theorem isGap_of_separates (h : Separates fresh s t fresh' r) {g r' : List Char}
    (hgap : gap fresh' r = (g, r')) (hg : IsGap r'.isEmpty fresh' g) :
    IsGap r'.isEmpty fresh (t ++ g) := by
  cases h with
  | lineFeed => exact .lineFeed hg
  | blank _ _ hc hspace => exact .blank hspace hc hg
  | directive s =>
    obtain ⟨hcontinued, hend⟩ := preprocessorLine_whole s
    have hline : EndsLine r'.isEmpty g := endsLine_gap hgap (hend.imp_right (·.1))
    refine .directive hcontinued (fun hfeed => ?_) hline hg
    rcases hend with hend | hend
    · rw [hend, gap_of_none rfl] at hgap
      cases hgap
      cases hfeed
    · exact hend.2
  | lineComment _ s =>
    have hbody : '\n' ∉ s.takeWhile (· ≠ '\n') := fun hmem => by
      simpa using List.mem_takeWhile_imp hmem
    refine .lineComment hbody (endsLine_gap hgap ?_) hg
    have hstop := List.head?_dropWhile_not (· ≠ '\n') s
    cases hrest : s.dropWhile (· ≠ '\n') with
    | nil => exact .inl rfl
    | cons d rest =>
      rw [hrest] at hstop
      exact .inr (by simpa using hstop)
  | blockComment _ s =>
    rcases commentBody_whole s with ⟨body, hbody, hopen⟩ | ⟨hrest, hopen⟩
    · rw [hbody]
      have hcomment : IsGap r'.isEmpty fresh ('/' :: '*' :: body ++ '*' :: '/' :: g) :=
        .blockComment hopen hg
      simpa using hcomment
    · rw [hrest, gap_of_none rfl] at hgap
      cases hgap
      rw [List.append_nil]
      exact .unclosedComment hopen rfl

/-- **What is cut off in front of a token** is a row of whole separators. -/
theorem isGap_gap (h : gap fresh s = (g, r)) : IsGap r.isEmpty fresh g := by
  fun_induction gap fresh s generalizing g r with
  | case1 fresh s hnone =>
    cases h
    exact .empty
  | case2 fresh s t fresh' s' hread ih =>
    cases h
    exact isGap_of_separates (separator?_eq_some_iff.1 hread) rfl (ih rfl)

/-! ## The gaps of a text -/

/-- The gap in front of the first of some tokens, where `behind` is the gap behind the last. -/
def gapBefore (behind : List Char) : List Token → List Char
  | [] => behind
  | t :: _ => t.gap

/-- **Between any two tokens** of a text, and around them all, stands a row of whole separators. -/
theorem isGap_of_tokensFrom (line : Nat) {ts us : List Token}
    (h : tokensFrom line fresh s = (ts ++ us, g)) :
    IsGap us.isEmpty (ts.isEmpty && fresh) (gapBefore g us) := by
  induction ts generalizing line fresh s with
  | nil =>
    cases hgap : gap fresh s with
    | mk g' r =>
      have hg := isGap_gap hgap
      cases r with
      | nil =>
        rw [tokensFrom_of_gap_nil hgap] at h
        cases h
        exact hg
      | cons c r =>
        rw [tokensFrom_of_gap hgap] at h
        cases h
        exact hg
  | cons t ts ih =>
    obtain ⟨g', c, r, hgap, -, hrest⟩ := tokensFrom_eq_cons (congrArg Prod.fst h)
    have hbehind := congrArg Prod.snd h
    rw [tokensFrom_of_gap hgap] at hbehind
    have hmore := ih _ (Prod.ext hrest.symm hbehind)
    rwa [Bool.and_false] at hmore

/-! ## Words do not touch -/

/-- Two tokens are parted by a gap if both are words. -/
def Parted (t u : Token) : Prop := t.kind = .word → u.kind = .word → u.gap ≠ []

theorem lexeme_of_word {c : Char} (h : (lexeme c r).1 = .word) :
    (c.isAlpha || c == '_') = true ∧ (lexeme c r).2.2 = r.dropWhile isWordPart := by
  unfold lexeme at h ⊢
  split at h
  · next hc => exact ⟨hc, by rw [if_pos hc]⟩
  split at h
  · cases h
  split at h
  · cases h
  · cases h

/-- A word goes on as far as it can, so that a word behind it does not follow at once. -/
theorem isChain_tokensFrom (line : Nat) (fresh : Bool) (s : List Char) :
    (tokensFrom line fresh s).1.IsChain Parted := by
  fun_induction tokensFrom line fresh s with
  | case1 => exact .nil
  | case2 line fresh s g c r hgap here more ih =>
    refine List.isChain_cons.2 ⟨fun u hu hword hnext htouch => ?_, ih⟩
    obtain ⟨us, hmore⟩ := List.head?_eq_some_iff.1 hu
    obtain ⟨g', c', r', hgap', rfl, -⟩ := tokensFrom_eq_cons hmore
    obtain ⟨-, hrest⟩ := lexeme_of_word hword
    obtain ⟨hstart, -⟩ := lexeme_of_word hnext
    have hsplit := gap_eq false (lexeme c r).2.2
    rw [hgap', show g' = [] from htouch, List.nil_append, hrest] at hsplit
    -- the word would have gone on over the first character of the next one
    have hstop := List.head?_dropWhile_not isWordPart r
    rw [← hsplit] at hstop
    simp [isWordPart_of_start hstart] at hstop

end ShaderBuild.Hlsl
