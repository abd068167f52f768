import ShaderBuild.Proofs.Hlsl.Place
import ShaderBuild.Proofs.Hlsl.Token

/-!
# Scanning bytes finds the tokens

Wherever the scanner of bytes comes to in a text, it is between characters, and its next turn goes
on (`scansSafely`): it passes a separator or a token, as the reader of characters does. A run then
finds the tokens of the text, at the places where they stand (`scan_encode`).
-/

namespace ShaderBuild.Hlsl

open Text

variable {text rest g r t : List Char} {c d : Char} {i line : Nat} {p : Char → Bool}
  {fresh fresh' : Bool}

/-! ## Loops -/

/-- Bytes are skipped as long as characters are taken. -/
theorem skipWhile_encode (hp : Uniform p) (h : Stands text i rest) :
    skipWhile p (encode text) i = i + (encode (rest.takeWhile p)).length := by
  induction rest generalizing i with
  | nil => exact skipWhile_of_none h.charAt?_nil
  | cons c r ih =>
    cases hc : p c with
    | true =>
      have hpass := h.pass (f := skipWhile p (encode text)) hp hc fun j d hd htest => by
        rw [skipWhile_of_some hd, if_pos htest]
      rw [hpass, ih h.tail, List.takeWhile_cons_of_pos hc, length_encode_cons, Nat.add_assoc]
    | false =>
      obtain ⟨d, hd, halike⟩ := h.charAt?_cons
      rw [skipWhile_of_some hd, halike p hp, hc, List.takeWhile_cons_of_neg (by simp [hc])]
      rfl

/-- The loop over a preprocessor line goes on over a character that neither ends the line nor
continues it. -/
theorem skipDirective_pass (line : Nat) (h : Stands text i (c :: r)) (hc : c ≠ '\n')
    (hback : c = '\\' → r.head? ≠ some '\n') : skipDirective (encode text) line i =
      skipDirective (encode text) line (i + c.utf8Size) := by
  by_cases hslash : c = '\\'
  · subst hslash
    have hnext : charAt? (encode text) (i + 1) ≠ some '\n' := fun hnext =>
      hback rfl ((h.charAt?_succ (by decide) (by decide)).1 hnext)
    rw [skipDirective_of_some (h.charAt?_ascii (by decide)), if_neg hc,
      if_neg fun hcont => hnext hcont.2]
    rfl
  · refine h.pass_ne (by decide) (by decide) hc hslash fun j d hd hline hback => ?_
    rw [skipDirective_of_some hd, if_neg hline, if_neg fun hcont => hback hcont.1]

/-- A preprocessor line is skipped, and its line feeds are counted. -/
theorem skipDirective_encode (line : Nat) (h : Stands text i rest) :
    skipDirective (encode text) line i = (line + (preprocessorLine rest).1.count '\n',
      i + (encode (preprocessorLine rest).1).length) := by
  fun_induction preprocessorLine rest generalizing i line with
  | case1 => exact skipDirective_of_none h.charAt?_nil
  | case2 r ih =>
    have hfeed : charAt? (encode text) (i + 1) = some '\n' :=
      (h.charAt?_succ (by decide) (by decide)).2 rfl
    have hcount : ('\\' :: '\n' :: (preprocessorLine r).1).count '\n' =
        (preprocessorLine r).1.count '\n' + 1 := by
      rw [List.count_cons_of_ne (by decide), List.count_cons_self]
    have hrest := ih (line + 1) h.tail.tail
    rw [skipDirective_of_some (h.charAt?_ascii (by decide)), if_neg (by decide),
      if_pos ⟨rfl, hfeed⟩, hcount, length_encode_cons, length_encode_cons]
    refine hrest.trans ?_
    rw [Nat.add_right_comm, Nat.add_assoc i, Nat.add_assoc i, Nat.add_assoc, Nat.add_assoc]
  | case3 r =>
    rw [skipDirective_of_some (h.charAt?_ascii (by decide)), if_pos rfl]
    rfl
  | case4 c r hback hline ih =>
    have hc : c ≠ '\n' := fun heq => hline heq
    have hfeed : c = '\\' → r.head? ≠ some '\n' := fun hslash hfeed => by
      obtain ⟨r', hr'⟩ := List.head?_eq_some_iff.1 hfeed
      exact hback r' hslash hr'
    rw [skipDirective_pass line h hc hfeed, ih line h.tail, length_encode_cons,
      List.count_cons_of_ne hc, Nat.add_assoc i]

/-- The loop over a block comment goes on over a character that does not close it. -/
theorem skipComment_pass (line : Nat) (h : Stands text i (c :: r))
    (hend : c = '*' → r.head? ≠ some '/') : skipComment (encode text) line i =
      skipComment (encode text) (line + [c].count '\n') (i + c.utf8Size) := by
  by_cases hfeed : c = '\n'
  · subst hfeed
    rw [skipComment_of_some (h.charAt?_ascii (by decide)), if_neg (by simp), if_pos rfl]
    rfl
  rw [List.count_eq_zero.2 (by simpa using Ne.symm hfeed), Nat.add_zero]
  by_cases hstar : c = '*'
  · subst hstar
    have hnext : charAt? (encode text) (i + 1) ≠ some '/' := fun hnext =>
      hend rfl ((h.charAt?_succ (by decide) (by decide)).1 hnext)
    rw [skipComment_of_some (h.charAt?_ascii (by decide)), if_neg fun hclose => hnext hclose.2]
    rfl
  · refine h.pass_ne (by decide) (by decide) hstar hfeed fun j d hd hstar hfeed => ?_
    rw [skipComment_of_some hd, if_neg fun hclose => hstar hclose.1, if_neg hfeed]

/-- A block comment is skipped through its closing, or to the end of the text, and its line feeds
are counted. -/
theorem skipComment_encode (line : Nat) (h : Stands text i rest) :
    (skipComment (encode text) line i).1 = line + (commentBody rest).1.count '\n' ∧
      min ((skipComment (encode text) line i).2 + 2) (encode text).length =
        i + (encode (commentBody rest).1).length := by
  fun_induction commentBody rest generalizing i line with
  | case1 =>
    rw [skipComment_of_none h.charAt?_nil, h.length_eq]
    simp [encode]
  | case2 r =>
    have hslash : charAt? (encode text) (i + 1) = some '/' :=
      (h.charAt?_succ (by decide) (by decide)).2 rfl
    rw [skipComment_of_some (h.charAt?_ascii (by decide)), if_pos ⟨rfl, hslash⟩, h.length_eq]
    rw [length_encode_cons, length_encode_cons]
    refine ⟨rfl, ?_⟩
    show min (i + 2) (i + (1 + (1 + _))) = i + 2
    omega
  | case3 c r hopen ih =>
    have hend : c = '*' → r.head? ≠ some '/' := fun hstar hslash => by
      obtain ⟨r', hr'⟩ := List.head?_eq_some_iff.1 hslash
      exact hopen r' hstar hr'
    obtain ⟨hline, hplace⟩ := ih (line + [c].count '\n') h.tail
    have hcount : ([c] ++ (commentBody r).1).count '\n' =
        [c].count '\n' + (commentBody r).1.count '\n' := List.count_append
    rw [List.singleton_append] at hcount
    rw [skipComment_pass line h hend, hline, hplace, hcount, length_encode_cons]
    omega

/-! ## Turns -/

theorem lt_of_isSpace (h : isSpace c = true) : c.toNat < 128 := by
  simp only [isSpace, Bool.or_eq_true, beq_iff_eq] at h
  rcases h with (((rfl | rfl) | rfl) | rfl) | rfl <;> decide

/-- A turn of the scanner passes a separator. -/
theorem step_separator (line : Nat) (found : List Span) (h : Stands text i rest)
    (hread : separator? fresh rest = some (t, fresh', r)) :
    ∃ d, charAt? (encode text) i = some d ∧
      Scanner.step (encode text) ⟨i, line, fresh, found⟩ d =
        some ⟨i + (encode t).length, line + t.count '\n', fresh', found⟩ := by
  cases separator?_eq_some_iff.1 hread with
  | lineFeed => exact ⟨'\n', h.charAt?_ascii (by decide), rfl⟩
  | @blank _ c _ hc hspace =>
    have hascii := lt_of_isSpace hspace
    refine ⟨c, h.charAt?_ascii hascii, ?_⟩
    rw [Scanner.step, if_neg hc, if_pos hspace, length_encode_cons, utf8Size_of_ascii hascii,
      List.count_eq_zero.2 (by simpa using Ne.symm hc)]
    rfl
  | directive s =>
    have hline : preprocessorLine ('#' :: s) =
        ('#' :: (preprocessorLine s).1, (preprocessorLine s).2) := by
      simp [preprocessorLine]
    have hskip := skipDirective_encode line h
    rw [hline] at hskip
    refine ⟨'#', h.charAt?_ascii (by decide), ?_⟩
    rw [Scanner.step, if_neg (by decide), if_neg (by decide), if_pos ⟨rfl, rfl⟩]
    simp only [hskip]
  | lineComment _ s =>
    have hslash : charAt? (encode text) (i + 1) = some '/' :=
      (h.charAt?_succ (by decide) (by decide)).2 rfl
    have hskip := skipWhile_encode (uniform_ne (d := '\n') (by decide)) h
    rw [List.takeWhile_cons_of_pos (by decide), List.takeWhile_cons_of_pos (by decide)] at hskip
    have hfeed : '\n' ∉ '/' :: '/' :: s.takeWhile (· ≠ '\n') :=
      List.not_mem_cons_of_ne_of_not_mem (by decide) (lineFeed_notMem_run (by decide) rfl s)
    refine ⟨'/', h.charAt?_ascii (by decide), ?_⟩
    rw [Scanner.step, if_neg (by decide), if_neg (by decide), if_neg (by simp),
      if_pos ⟨rfl, hslash⟩, List.count_eq_zero.2 hfeed]
    simp only [hskip, Nat.add_zero]
  | blockComment _ s =>
    have hstar : charAt? (encode text) (i + 1) = some '*' :=
      (h.charAt?_succ (by decide) (by decide)).2 rfl
    obtain ⟨hline, hplace⟩ := skipComment_encode line h.tail.tail
    have hlength : i + (encode ('/' :: '*' :: (commentBody s).1)).length =
        i + '/'.utf8Size + '*'.utf8Size + (encode (commentBody s).1).length := by
      rw [length_encode_cons, length_encode_cons]
      omega
    have hcount : ('/' :: '*' :: (commentBody s).1).count '\n' = (commentBody s).1.count '\n' := by
      rw [List.count_cons_of_ne (by decide), List.count_cons_of_ne (by decide)]
    refine ⟨'/', h.charAt?_ascii (by decide), ?_⟩
    rw [Scanner.step, if_neg (by decide), if_neg (by decide), if_neg (by simp),
      if_neg (by simp [hstar]), if_pos ⟨rfl, hstar⟩, hlength, ← hplace, hcount, ← hline]
    rfl

/-- What closes a literal is one byte, unless the text ends there. -/
theorem length_encode_closing (r : List Char) :
    (encode ((r.dropWhile isLiteralPart).take 1)).length =
      min 1 (encode (r.dropWhile isLiteralPart)).length := by
  have hstop := List.head?_dropWhile_not isLiteralPart r
  cases hrest : r.dropWhile isLiteralPart with
  | nil => rfl
  | cons e rest =>
    rw [hrest] at hstop
    have hclosing : e = '"' ∨ e = '\n' := by
      simpa [isLiteralPart, Decidable.or_iff_not_imp_left] using hstop
    have hsize : e.utf8Size = 1 := by
      rcases hclosing with rfl | rfl <;> rfl
    rw [List.take_succ_cons, List.take_zero, length_encode_cons, length_encode_cons, hsize]
    show 1 = min 1 _
    omega

/-- A token takes some text, and the rest of it stands behind. -/
theorem Stands.lexeme (h : Stands text i (c :: r)) :
    Stands text i ((lexeme c r).2.1 ++ (lexeme c r).2.2) := by
  rwa [(lexeme_eq c r).2]

/-- The sort of a token is found, and the place where it ends. -/
theorem spanEnd?_encode (h : Stands text i (c :: r)) (halike : Alike c d) :
    spanEnd? (encode text) i d =
      some ((lexeme c r).1, i + (encode (lexeme c r).2.1).length) := by
  have hword := halike _ (uniform_isAlpha.or (uniform_beq (d := '_') (by decide)))
  have hdigit := halike _ uniform_isDigit
  have hquote := halike.eq_iff (e := '"') (by decide)
  unfold spanEnd? lexeme
  simp only [hword, hdigit, hquote]
  split
  · next hc =>
    rw [skipWhile_encode uniform_isWordPart h, List.takeWhile_cons_of_pos (isWordPart_of_start hc)]
  split
  · next hc =>
    rw [skipWhile_encode uniform_isNumberPart h,
      List.takeWhile_cons_of_pos (isNumberPart_of_isDigit hc)]
  split
  · next hc =>
    subst hc
    have hclosing := length_encode_closing r
    have hrest : (encode r).length = (encode (r.takeWhile isLiteralPart)).length +
        (encode (r.dropWhile isLiteralPart)).length := by
      rw [← length_encode_append, List.takeWhile_append_dropWhile]
    rw [show i + 1 = i + '"'.utf8Size from rfl, skipWhile_encode uniform_isLiteralPart h.tail,
      h.length_eq, length_encode_cons, length_encode_cons, length_encode_append, hclosing, hrest]
    simp only [Option.some.injEq, Prod.mk.injEq, true_and]
    omega
  · have hslice := (show Stands text i ((c :: r) ++ []) from (List.append_nil _).symm ▸ h).slice?
    rw [← h.length_eq] at hslice
    rw [hslice]
    simp [encode]

/-- A turn of the scanner finds the token at its place. -/
theorem step_lexeme (line : Nat) (found : List Span) (h : Stands text i (c :: r))
    (hread : separator? fresh (c :: r) = none) :
    ∃ d, charAt? (encode text) i = some d ∧
      Scanner.step (encode text) ⟨i, line, fresh, found⟩ d =
        some ⟨i + (encode (lexeme c r).2.1).length, line, false,
          found ++ [⟨(lexeme c r).1, (lexeme c r).2.1, i, i + (encode (lexeme c r).2.1).length,
            line⟩]⟩ := by
  obtain ⟨hspace, hsign, hslash⟩ := separator?_eq_none_iff.1 hread
  obtain ⟨d, hd, halike⟩ := h.charAt?_cons
  have hblank : isSpace d = false := (halike _ uniform_isSpace).trans hspace
  have hfeed : d ≠ '\n' := by
    rintro rfl
    cases hblank
  have hfresh : ¬ (d = '#' ∧ fresh = true) := fun hopen => by
    rw [hsign ((halike.eq_iff (by decide)).1 hopen.1)] at hopen
    cases hopen.2
  have hcomment : ∀ e : Char, e.toNat < 128 → (c = '/' → r.head? ≠ some e) →
      ¬ (d = '/' ∧ charAt? (encode text) (i + 1) = some e) := by
    rintro e he hhead ⟨hd, hnext⟩
    obtain rfl := (halike.eq_iff (by decide)).1 hd
    exact hhead rfl ((h.charAt?_succ (by decide) he).1 hnext)
  have hslice := h.lexeme.slice?
  refine ⟨d, hd, ?_⟩
  rw [Scanner.step, if_neg hfeed, if_neg (by simp [hblank]), if_neg hfresh,
    if_neg (hcomment '/' (by decide) fun hc => (hslash hc).1),
    if_neg (hcomment '*' (by decide) fun hc => (hslash hc).2), spanEnd?_encode h halike]
  show (slice? _ _ _).bind _ = _
  rw [hslice]
  rfl

/-- **A turn goes well** between characters, and ends between characters. -/
theorem Stands.exists_step {s : Scanner} (h : Stands text s.place rest) (hrest : rest ≠ []) :
    ∃ d s' rest', charAt? (encode text) s.place = some d ∧ s.step (encode text) d = some s' ∧
      Stands text s'.place rest' := by
  obtain ⟨i, line, fresh, found⟩ := s
  obtain ⟨c, r, rfl⟩ := List.exists_cons_of_ne_nil hrest
  cases hread : separator? fresh (c :: r) with
  | some read =>
    obtain ⟨t, fresh', r'⟩ := read
    obtain ⟨d, hd, hstep⟩ := step_separator line found h hread
    obtain ⟨-, hsplit⟩ := separator?_eq hread
    rw [← hsplit] at h
    exact ⟨d, _, r', hd, hstep, h.append⟩
  | none =>
    obtain ⟨d, hd, hstep⟩ := step_lexeme line found h hread
    exact ⟨d, _, _, hd, hstep, h.lexeme.append⟩

/-- What a scanner comes to on some bytes, turn by turn. -/
inductive Scanner.Reached (bytes : List UInt8) : Scanner → Prop
  | start : Reached bytes {}
  | turn {s s' : Scanner} {c : Char} : Reached bytes s → charAt? bytes s.place = some c →
      s.step bytes c = some s' → Reached bytes s'

/-- Whatever a scanner of a text comes to, it is between characters. -/
theorem Scanner.Reached.stands {s : Scanner} (h : Scanner.Reached (encode text) s) :
    ∃ rest, Stands text s.place rest := by
  induction h with
  | start => exact ⟨text, stands_start text⟩
  | @turn s s' c _ hc hstep ih =>
    obtain ⟨rest, hrest⟩ := ih
    have hne : rest ≠ [] := by
      rintro rfl
      rw [hrest.charAt?_nil] at hc
      cases hc
    obtain ⟨d, s'', rest', hd, hstep', hrest'⟩ := hrest.exists_step hne
    cases hc.symm.trans hd
    cases hstep.symm.trans hstep'
    exact ⟨rest', hrest'⟩

/-- A scanner of a text stays between characters and goes on up to the end of the text. -/
structure ScansSafely (text : List Char) : Prop where
  /-- No turn ends inside a character. -/
  between : ∀ s, Scanner.Reached (encode text) s → isBoundary (encode text) s.place = true
  /-- In front of the end of the text there is a next turn, which cuts no character in two and goes
  on by at least one byte. -/
  goesOn : ∀ s, Scanner.Reached (encode text) s → s.place ≠ (encode text).length →
    ∃ c s', charAt? (encode text) s.place = some c ∧ s.step (encode text) c = some s' ∧
      s.place < s'.place

theorem scansSafely (text : List Char) : ScansSafely text := by
  constructor
  · intro s hs
    obtain ⟨rest, before, hsplit, hplace⟩ := hs.stands
    exact isBoundary_encode_iff.2 ⟨before, rest, hsplit, hplace⟩
  · intro s hs hend
    obtain ⟨rest, hrest⟩ := hs.stands
    have hne : rest ≠ [] := by
      rintro rfl
      exact hend hrest.length_eq.symm
    obtain ⟨c, s', -, hc, hstep, -⟩ := hrest.exists_step hne
    exact ⟨c, s', hc, hstep, Scanner.lt_step hc hstep⟩

/-! ## Runs -/

/-- What is cut off at a place stands there, and the rest behind it. -/
theorem Stands.gap (h : Stands text i rest) (hgap : gap fresh rest = (g, r)) :
    Stands text (i + (encode g).length) r := by
  have hsplit := gap_eq fresh rest
  rw [hgap] at hsplit
  rw [← hsplit] at h
  exact h.append

/-- A run passes the gap at its place. -/
theorem run_gap (line : Nat) (found : List Span) (h : Stands text i rest)
    (hgap : gap fresh rest = (g, r)) :
    ∃ fresh', separator? fresh' r = none ∧
      Scanner.run (encode text) ⟨i, line, fresh, found⟩ =
        Scanner.run (encode text)
          ⟨i + (encode g).length, line + g.count '\n', fresh', found⟩ := by
  fun_induction gap fresh rest generalizing i line g r with
  | case1 fresh rest hnone =>
    cases hgap
    exact ⟨fresh, hnone, rfl⟩
  | case2 fresh rest t fresh' rest' hread ih =>
    cases hgap
    obtain ⟨d, hd, hstep⟩ := step_separator line found h hread
    obtain ⟨-, rfl⟩ := separator?_eq hread
    obtain ⟨fresh'', hnone, hrun⟩ := ih (line + t.count '\n') h.append rfl
    refine ⟨fresh'', hnone, ?_⟩
    rw [Scanner.run_of_step hd hstep, hrun, length_encode_append, List.count_append, Nat.add_assoc,
      Nat.add_assoc]

/-- The tokens of a row by their places, the first of which has its gap at the given place. -/
def spansFrom (i : Nat) : List Token → List Span
  | [] => []
  | t :: ts =>
    let start := i + (encode t.gap).length
    let stop := start + (encode t.text).length
    ⟨t.kind, t.text, start, stop, t.line⟩ :: spansFrom stop ts

/-- The tokens of a text by their places. -/
def spans (text : List Char) : List Span := spansFrom 0 (tokens text)

/-- A run finds all tokens from its place on. -/
theorem run_tokens (line : Nat) (fresh : Bool) (found : List Span) (h : Stands text i rest) :
    ∃ s, Scanner.run (encode text) ⟨i, line, fresh, found⟩ = some s ∧
      s.spans = found ++ spansFrom i (tokensFrom line fresh rest).1 := by
  fun_induction tokensFrom line fresh rest generalizing i found with
  | case1 line fresh rest g hgap =>
    obtain ⟨fresh', -, hrun⟩ := run_gap line found h hgap
    refine ⟨_, hrun.trans (Scanner.run_of_none (h.gap hgap).charAt?_nil), ?_⟩
    rw [spansFrom, List.append_nil]
  | case2 line fresh rest g c r hgap here =>
    rename_i ih
    obtain ⟨fresh', hnone, hrun⟩ := run_gap line found h hgap
    have htoken := h.gap hgap
    obtain ⟨d, hd, hstep⟩ := step_lexeme here found htoken hnone
    rw [hrun, Scanner.run_of_step hd hstep]
    refine (ih _ htoken.lexeme.append).imp fun s hs => ⟨hs.1, ?_⟩
    rw [hs.2, List.append_assoc]
    rfl

/-- **The tokens of a text are found in its bytes**, at the places where they stand. -/
theorem scan_encode (text : List Char) : scan (encode text) = some (spans text) := by
  obtain ⟨s, hrun, hspans⟩ := run_tokens 1 true [] (stands_start text)
  rw [scan, hrun, Option.map_some, hspans]
  rfl

example : scan (encode ['"', 'é', '\n', '_', '/', '*']) =
    some [⟨.literal, ['"', 'é', '\n'], 0, 4, 1⟩, ⟨.word, ['_'], 4, 5, 1⟩] := by
  decide +kernel

end ShaderBuild.Hlsl
