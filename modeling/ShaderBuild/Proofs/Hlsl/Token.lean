import Mathlib.Data.List.TakeWhile
import ShaderBuild.Proofs.Hlsl.Separator

/-!
# What a text is cut into

Nothing of a text is lost: the tokens with the gaps in front of them, and the gap behind the last
one, spell it (`written_tokensFrom`). No separator stands behind a gap, so that a line feed is
never the start of a token. Only a string literal may have one, as its last character, when it is
not closed in its line (`count_lexeme`).
-/

namespace ShaderBuild.Hlsl

variable {line : Nat} {fresh : Bool} {s g r : List Char} {c : Char}

/-! ## Cutting off one token -/

theorem tokensFrom_of_gap_nil (h : Hlsl.gap fresh s = (g, [])) :
    tokensFrom line fresh s = ([], g) := by
  rw [tokensFrom]
  split
  · next h' => rw [h] at h'; cases h'; rfl
  · next h' => rw [h] at h'; cases h'

theorem tokensFrom_of_gap (h : Hlsl.gap fresh s = (g, c :: r)) :
    tokensFrom line fresh s =
      (⟨g, (lexeme c r).1, (lexeme c r).2.1, line + g.count '\n'⟩ ::
          (tokensFrom (line + g.count '\n') false (lexeme c r).2.2).1,
        (tokensFrom (line + g.count '\n') false (lexeme c r).2.2).2) := by
  rw [tokensFrom]
  split
  · next h' => rw [h] at h'; cases h'
  · next h' => rw [h] at h'; cases h'; rfl

/-- The first token is cut off behind a gap. -/
theorem tokensFrom_eq_cons {t : Token} {ts : List Token}
    (h : (tokensFrom line fresh s).1 = t :: ts) : ∃ g c r, gap fresh s = (g, c :: r) ∧
      t = ⟨g, (lexeme c r).1, (lexeme c r).2.1, line + g.count '\n'⟩ ∧
      ts = (tokensFrom (line + g.count '\n') false (lexeme c r).2.2).1 := by
  cases hgap : gap fresh s with
  | mk g s' =>
    cases s' with
    | nil =>
      rw [tokensFrom_of_gap_nil hgap] at h
      cases h
    | cons c r =>
      rw [tokensFrom_of_gap hgap] at h
      obtain ⟨ht, hts⟩ := List.cons.inj h
      exact ⟨g, c, r, rfl, ht.symm, hts.symm⟩

/-! ## Nothing is lost -/

/-- The text of a row of tokens with the gaps in front of them. -/
def written (ts : List Token) : List Char := ts.flatMap fun t => t.gap ++ t.text

theorem written_cons (t : Token) (ts : List Token) :
    written (t :: ts) = t.gap ++ (t.text ++ written ts) := by
  rw [written, List.flatMap_cons, List.append_assoc]
  rfl

theorem written_append (ts us : List Token) : written (ts ++ us) = written ts ++ written us :=
  List.flatMap_append

/-- **A text is spelled by its tokens** with the gaps around them. -/
theorem written_tokensFrom (line : Nat) (fresh : Bool) (s : List Char) :
    written (tokensFrom line fresh s).1 ++ (tokensFrom line fresh s).2 = s := by
  fun_induction tokensFrom line fresh s with
  | case1 line fresh s g hgap =>
    have hs := gap_eq fresh s
    rwa [hgap, List.append_nil] at hs
  | case2 line fresh s g c r hgap here more ih =>
    have hs := gap_eq fresh s
    rw [hgap, ← (lexeme_eq c r).2, ← ih] at hs
    rw [written_cons, List.append_assoc, List.append_assoc]
    exact hs

/-! ## The separators of a text -/

/-- The separators that a gap is made of. -/
def separators (fresh : Bool) (s : List Char) : List (List Char) :=
  match _h : separator? fresh s with
  | none => []
  | some (t, fresh', r) => t :: separators fresh' r
termination_by s.length
decreasing_by
  obtain ⟨ht, hs⟩ := separator?_eq _h
  have := List.length_pos_iff.2 ht
  rw [← hs, List.length_append]
  omega

theorem separators_of_some {fresh' : Bool} {t : List Char}
    (h : separator? fresh s = some (t, fresh', r)) :
    separators fresh s = t :: separators fresh' r := by
  rw [separators]
  split
  · next h' => rw [h] at h'; cases h'
  · next h' => rw [h] at h'; cases h'; rfl

/-- The separators between the tokens of a text. -/
def separatorsFrom (fresh : Bool) (s : List Char) : List (List Char) :=
  match _h : gap fresh s with
  | (_, []) => separators fresh s
  | (_, c :: r) => separators fresh s ++ separatorsFrom false (lexeme c r).2.2
termination_by s.length
decreasing_by
  have hs := gap_eq fresh s
  rw [_h] at hs
  obtain ⟨ht, hcut⟩ := lexeme_eq c r
  have := List.length_pos_iff.2 ht
  have hcut := congrArg List.length hcut
  have hs := congrArg List.length hs
  simp only [List.length_append] at hcut hs
  omega

theorem separatorsFrom_of_gap_nil (h : gap fresh s = (g, [])) :
    separatorsFrom fresh s = separators fresh s := by
  rw [separatorsFrom]
  split
  · rfl
  · next h' => rw [h] at h'; cases h'

theorem separatorsFrom_of_gap (h : gap fresh s = (g, c :: r)) :
    separatorsFrom fresh s = separators fresh s ++ separatorsFrom false (lexeme c r).2.2 := by
  rw [separatorsFrom]
  split
  · next h' => rw [h] at h'; cases h'
  · next h' => rw [h] at h'; cases h'; rfl

/-- The preprocessor lines of a text, each with the lines that it is continued on. -/
def preprocessorLines (text : List Char) : List (List Char) :=
  (separatorsFrom true text).filter fun sep => sep.head? = some '#'

/-! ## Where line feeds are -/

/-- Behind a gap stands no separator. -/
theorem exists_separator?_eq_none (fresh : Bool) (s : List Char) :
    ∃ fresh', separator? fresh' (gap fresh s).2 = none := by
  fun_induction gap fresh s with
  | case1 fresh s h => exact ⟨fresh, h⟩
  | case2 fresh s t fresh' r h ih => exact ih

/-- No token starts with a line feed. -/
theorem ne_lineFeed_of_gap (h : gap fresh s = (g, c :: r)) : c ≠ '\n' := by
  rintro rfl
  obtain ⟨fresh', hnone⟩ := exists_separator?_eq_none fresh s
  rw [h] at hnone
  simp [separator?] at hnone

/-- Whether a token is a string literal that is not closed in its line. -/
def Token.isUnclosed (t : Token) : Bool := t.kind == .literal && t.text.getLast? == some '\n'

theorem lineFeed_notMem_run {p : Char → Bool} (hc : c ≠ '\n') (hp : p '\n' = false)
    (r : List Char) : '\n' ∉ c :: r.takeWhile p := by
  intro hmem
  rcases List.mem_cons.1 hmem with rfl | hmem
  · exact hc rfl
  · rw [List.mem_takeWhile_imp hmem] at hp
    cases hp

/-- Words, numbers and marks are on one line. -/
theorem lineFeed_notMem_lexeme (hc : c ≠ '\n') (hkind : (lexeme c r).1 ≠ .literal) :
    '\n' ∉ (lexeme c r).2.1 := by
  unfold lexeme at hkind ⊢
  split
  · exact lineFeed_notMem_run hc rfl r
  split
  · exact lineFeed_notMem_run hc rfl r
  split
  · next hword hnumber hquote =>
    rw [if_neg hword, if_neg hnumber, if_pos hquote] at hkind
    exact absurd rfl hkind
  · exact fun hmem => hc (List.mem_singleton.1 hmem).symm

/-- A literal goes on to a quote or the end of the line. -/
theorem lexeme_literal (h : (lexeme c r).1 = .literal) : (lexeme c r).2.1 =
    c :: r.takeWhile isLiteralPart ++ (r.dropWhile isLiteralPart).take 1 := by
  unfold lexeme at h ⊢
  split at h
  · cases h
  split at h
  · cases h
  split at h
  · next hword hnumber hquote => rw [if_neg hword, if_neg hnumber, if_pos hquote, List.cons_append]
  · cases h

/-- **The line feeds of a token**: it has one only if it is a literal that is not closed. -/
theorem count_lexeme (hc : c ≠ '\n') (g : List Char) (line : Nat) :
    (lexeme c r).2.1.count '\n' =
      if Token.isUnclosed ⟨g, (lexeme c r).1, (lexeme c r).2.1, line⟩ then 1 else 0 := by
  unfold Token.isUnclosed
  by_cases hkind : (lexeme c r).1 = .literal
  · have hbody : '\n' ∉ c :: r.takeWhile isLiteralPart := by
      intro hmem
      rcases List.mem_cons.1 hmem with rfl | hmem
      · exact hc rfl
      · cases List.mem_takeWhile_imp hmem
    have hlast : (c :: r.takeWhile isLiteralPart).getLast? ≠ some '\n' := fun hlast =>
      hbody (List.mem_of_getLast? hlast)
    rw [lexeme_literal hkind, hkind, List.count_append, List.count_eq_zero.2 hbody]
    cases r.dropWhile isLiteralPart with
    | nil => simpa using hlast
    | cons d rest =>
      rw [List.take_succ_cons, List.take_zero, List.getLast?_concat]
      by_cases hd : d = '\n' <;> simp [hd]
  · rw [List.count_eq_zero.2 (lineFeed_notMem_lexeme hc hkind), if_neg]
    simp [hkind]

end ShaderBuild.Hlsl
