import ShaderBuild.Json.Printer
import ShaderBuild.Json.Reader

/-!
# Reading printed JSON

A value whose strings spell texts and whose numbers are natural ones is *legible*; it is read back
from its print (`parse_pretty`). The parts read back what they print in front of anything: a
spelled text ends at its quote (`spelling_escaped`), a number where no more of it follows
(`numeral_digits`), a container at its closing character (`sequence_block`).
-/

namespace ShaderBuild.Json

/-! ## Numbers -/

/-- What may stand behind a number: nothing that goes on with it. -/
def Stops (s : List Char) : Prop :=
  ∀ c, s.head? = some c → c.isDigit = false ∧ c ≠ '.' ∧ c ≠ 'e' ∧ c ≠ 'E'

theorem stops_cons {c : Char} {s : List Char}
    (h : c.isDigit = false ∧ c ≠ '.' ∧ c ≠ 'e' ∧ c ≠ 'E') : Stops (c :: s) := by
  intro d hd
  cases hd
  exact h

theorem isDigit_of_mem_digits {n : Nat} {c : Char} (h : c ∈ digits n) : c.isDigit = true :=
  Nat.isDigit_of_mem_toDigits (by decide) (by decide) h

theorem digits_ne_nil (n : Nat) : digits n ≠ [] := Nat.toDigits_ne_nil

/-- Digits start with a digit. -/
theorem exists_digits (n : Nat) : ∃ c r, digits n = c :: r ∧ c.isDigit = true := by
  obtain ⟨c, r, hd⟩ := List.exists_cons_of_ne_nil (digits_ne_nil n)
  exact ⟨c, r, hd, isDigit_of_mem_digits (n := n) (by rw [hd]; exact List.mem_cons_self)⟩

theorem ne_of_isDigit {c d : Char} (hc : c.isDigit = true) (hd : d.isDigit = false) : c ≠ d := by
  rintro rfl
  rw [hc] at hd
  cases hd

/-- Only the number zero starts with the digit zero. -/
theorem head?_digits {n : Nat} (h : (digits n).head? = some '0') : n = 0 := by
  unfold digits at h
  induction n using Nat.strongRecOn with
  | ind n ih =>
    by_cases hn : n < 10
    · rw [Nat.toDigits_of_lt_base hn] at h
      simpa using h
    · rw [Nat.toDigits_of_base_le (by decide) (by omega), List.head?_append,
        Option.or_of_isSome (by simp)] at h
      have := ih (n / 10) (by omega) h
      omega

/-- The digits of a number are read back. -/
theorem ofDigits?_digits {bound n : Nat} (h : n < bound) : ofDigits? bound (digits n) = some n := by
  have hone : (digits n).head? = some '0' → (digits n).length = 1 := by
    intro hzero
    rw [head?_digits hzero]
    rfl
  have hall : (digits n).all Char.isDigit = true :=
    List.all_eq_true.2 fun c hc => isDigit_of_mem_digits hc
  have hvalue : (digits n).foldl (fun n c => 10 * n + (c.toNat - 0x30)) 0 = n := by
    have := Nat.ofDigitChars_ten_toDigits (n := n)
    rw [Nat.ofDigitChars_eq_foldl] at this
    exact this
  unfold ofDigits?
  rw [if_pos ⟨digits_ne_nil n, hall, hone⟩]
  simp only [hvalue]
  rw [if_pos h]

theorem takeWhile_digits {n : Nat} {rest : List Char} (h : Stops rest) :
    (digits n ++ rest).takeWhile Char.isDigit = digits n ∧
      (digits n ++ rest).dropWhile Char.isDigit = rest := by
  have hrest : rest.takeWhile Char.isDigit = [] ∧ rest.dropWhile Char.isDigit = rest := by
    cases rest with
    | nil => exact ⟨rfl, rfl⟩
    | cons c rest =>
      have hc := (h c rfl).1
      exact ⟨List.takeWhile_cons_of_neg (by simp [hc]), List.dropWhile_cons_of_neg (by simp [hc])⟩
  rw [List.takeWhile_append_of_pos fun c hc => isDigit_of_mem_digits hc,
    List.dropWhile_append_of_pos fun c hc => isDigit_of_mem_digits hc, hrest.1, hrest.2,
    List.append_nil]
  exact ⟨rfl, rfl⟩

theorem whole_digits {n : Nat} {rest : List Char} (h : Stops rest) :
    whole (digits n ++ rest) = some (digits n, rest) := by
  by_cases hzero : n = 0
  · subst hzero
    rfl
  · obtain ⟨c, r, hc, -⟩ := exists_digits n
    have hne : c ≠ '0' := by
      rintro rfl
      exact hzero (head?_digits (by rw [hc]; rfl))
    obtain ⟨htake, hdrop⟩ := takeWhile_digits (n := n) h
    have hone : digits1 (digits n ++ rest) = some (digits n, rest) := by
      unfold digits1
      rw [htake, hdrop, hc]
    rw [hc, List.cons_append] at hone ⊢
    unfold whole
    split
    · next heq =>
      cases heq
      exact absurd rfl hne
    · exact hone

/-- A number is read up to where it stops. -/
theorem numeral_digits {n : Nat} {rest : List Char} (h : Stops rest) :
    numeral (digits n ++ rest) = some (digits n, rest) := by
  have hfraction : fraction rest = some ([], rest) := by
    unfold fraction
    split
    · next heq => exact absurd rfl (h '.' rfl).2.1
    · rfl
  have hexponent : exponent rest = some ([], rest) := by
    cases rest with
    | nil => rfl
    | cons c rest =>
      have hc := h c rfl
      exact if_neg (by rw [not_or]; exact hc.2.2)
  have hsign : ∀ r, digits n ++ rest ≠ '-' :: r := by
    intro r heq
    obtain ⟨c, s, hd, hc⟩ := exists_digits n
    rw [hd] at heq
    exact ne_of_isDigit hc (by decide) (List.cons.inj heq).1
  unfold numeral
  split
  · next sign s heq =>
    split at heq
    · next r hr => exact absurd hr (hsign r)
    · cases heq
      rw [whole_digits h]
      simp only [Option.bind_eq_bind, Option.bind_some, hfraction, hexponent, List.nil_append,
        List.append_nil, pure]

/-! ## Strings -/

theorem hex4?_control {c : Char} (h : c.toNat < 0x20) :
    hex4? '0' '0' (Nat.digitChar (c.toNat / 16)) (Nat.digitChar (c.toNat % 16))
      = some c.toNat := by
  have hdigit : ∀ d < 16, hexDigit? (Nat.digitChar d) = some d := by decide
  unfold hex4?
  rw [hdigit _ (by omega), hdigit _ (by omega), show hexDigit? '0' = some 0 from rfl]
  simp only [Option.pure_def, Option.bind_eq_bind, Option.bind_some, Option.some.injEq]
  omega

/-- The ways a character is spelled: by a code, by a letter, or as it is. -/
theorem escape_cases (c : Char) :
    (∃ a b, escape c = ['\\', 'u', '0', '0', a, b] ∧ hex4? '0' '0' a b = some c.toNat ∧
      c.toNat < 0x20) ∨
    (∃ e, escape c = ['\\', e] ∧ escaped? e = some c ∧ e ≠ 'u') ∨
    (escape c = [c] ∧ c ≠ '"' ∧ c ≠ '\\' ∧ ¬c.toNat < 0x20) := by
  by_cases hc : c ∈ ['"', '\\', '\x08', '\x0c', '\n', '\r', '\t']
  · refine .inr (.inl ?_)
    simp only [List.mem_cons, List.not_mem_nil, or_false] at hc
    rcases hc with rfl | rfl | rfl | rfl | rfl | rfl | rfl
    · exact ⟨'"', rfl, rfl, by decide⟩
    · exact ⟨'\\', rfl, rfl, by decide⟩
    · exact ⟨'b', rfl, rfl, by decide⟩
    · exact ⟨'f', rfl, rfl, by decide⟩
    · exact ⟨'n', rfl, rfl, by decide⟩
    · exact ⟨'r', rfl, rfl, by decide⟩
    · exact ⟨'t', rfl, rfl, by decide⟩
  · simp only [List.mem_cons, List.not_mem_nil, or_false, not_or] at hc
    obtain ⟨hquote, hslash, hb, hf, hn, hr, ht⟩ := hc
    unfold escape
    rw [if_neg hquote, if_neg hslash, if_neg hb, if_neg hf, if_neg hn, if_neg hr, if_neg ht]
    by_cases hctl : c.toNat < 0x20
    · rw [if_pos hctl]
      exact .inl ⟨_, _, rfl, hex4?_control hctl, hctl⟩
    · rw [if_neg hctl]
      exact .inr (.inr ⟨rfl, hquote, hslash, hctl⟩)

/-- The spelling of a text. -/
def spell (t : List Char) : List Char := t.flatMap escape

/-- A spelled text is read up to the quote behind it. -/
theorem spelling_spell (t rest : List Char) :
    spelling (spell t ++ '"' :: rest) = some (spell t, rest) := by
  induction t with
  | nil => rfl
  | cons c t ih =>
    unfold spell at ih ⊢
    rw [List.flatMap_cons, List.append_assoc]
    generalize t.flatMap escape ++ '"' :: rest = s at ih ⊢
    rcases escape_cases c with ⟨a, b, h, hhex, -⟩ | ⟨e, h, he, hu⟩ | ⟨h, hquote, hslash, hctl⟩
    · rw [h]
      simp only [List.cons_append, List.nil_append, spelling, hhex, Option.bind_some, ih,
        Option.map_some]
    · rw [h]
      simp only [List.cons_append, List.nil_append]
      rw [spelling]
      · rw [he, ih]
        rfl
      · intro _ _ _ _ _ heq
        exact absurd heq hu
    · rw [h]
      simp only [List.cons_append, List.nil_append]
      rw [spelling]
      · rw [if_neg hctl, ih]
        rfl
      · exact hquote
      · intro _ _ _ _ _ heq
        exact absurd heq hslash
      · intro _ _ heq
        exact absurd heq hslash

/-- A spelled text is read back. -/
theorem unescape_spell (t : List Char) : unescape (spell t) = some t := by
  induction t with
  | nil => rfl
  | cons c t ih =>
    unfold spell at ih ⊢
    rw [List.flatMap_cons]
    generalize t.flatMap escape = s at ih ⊢
    rcases escape_cases c with ⟨a, b, h, hhex, hctl⟩ | ⟨e, h, he, hu⟩ | ⟨h, -, hslash, -⟩
    · rw [h]
      simp only [List.cons_append, List.nil_append, unescape, hhex, ih, Option.map_some]
      rw [if_neg (by omega), if_neg (by omega)]
      simp [Char.ofNat_toNat]
    · rw [h]
      simp only [List.cons_append, List.nil_append]
      rw [unescape]
      · rw [he, ih]
        rfl
      · intro _ _ _ _ _ heq
        exact absurd heq hu
    · rw [h]
      simp only [List.cons_append, List.nil_append]
      rw [unescape, ih]
      · rfl
      · intro _ _ _ _ _ heq
        exact absurd heq hslash
      · intro _ _ heq
        exact absurd heq hslash

theorem text?_ofString (t : String) : text? (.ofString t) = some t := by
  show (unescape (spell t.toList)).map String.ofList = some t
  rw [unescape_spell, Option.map_some, String.ofList_toList]

/-! ## Containers -/

theorem skip_newLine (indent : Nat) (s : List Char) : skip (newLine indent ++ s) = skip s := by
  unfold skip newLine
  rw [List.dropWhile_append_of_pos]
  intro c hc
  rcases List.mem_cons.1 hc with rfl | hc
  · decide
  · rw [(List.mem_replicate.1 hc).2]
    decide

theorem skip_of_not_blank {c : Char} {s : List Char} (h : isBlank c = false) :
    skip (c :: s) = c :: s := List.dropWhile_cons_of_neg (by simp [h])

/-- A text starts with a character that is no blank and not the given ones. -/
def StartsWithout (without : List Char) (s : List Char) : Prop :=
  ∃ c r, s = c :: r ∧ isBlank c = false ∧ c ∉ without

theorem StartsWithout.mono {without without' : List Char} {s : List Char}
    (h : StartsWithout without s) (hsub : without' ⊆ without) : StartsWithout without' s := by
  obtain ⟨c, r, hs, hblank, hc⟩ := h
  exact ⟨c, r, hs, hblank, fun hmem => hc (hsub hmem)⟩

/-- What stands between the first piece of a container and the rest behind the container. -/
def tailOf (closing : Char) (indent : Nat) (ps : List (List Char)) (rest : List Char) :
    List Char :=
  ps.flatMap (fun q => ',' :: newLine (indent + 1) ++ q) ++ newLine indent ++ closing :: rest

theorem block_cons (opening closing : Char) (indent : Nat) (p : List Char)
    (ps : List (List Char)) (rest : List Char) :
    block opening closing indent (p :: ps) ++ rest
      = opening :: newLine (indent + 1) ++ p ++ tailOf closing indent ps rest := by
  simp [block, tailOf]

theorem stops_tailOf {closing : Char} {indent : Nat} {ps : List (List Char)} {rest : List Char} :
    Stops (tailOf closing indent ps rest) := by
  cases ps with
  | nil => exact stops_cons (by decide)
  | cons p ps => exact stops_cons (by decide)

section

variable {α : Type} {closing : Char} {piece : Reader α} {shown : α → List Char} {indent : Nat}
  {rest : List Char} {x : α} {xs : List α} {first : Bool} {fuel : Nat}

/-- A piece of a container is read, and what stands behind it tells how to go on. -/
theorem sequence_piece (hstart : StartsWithout [closing] (shown x)) {s : List Char}
    (hpiece : piece (shown x ++ s) = some (x, s)) :
    sequence closing piece first (fuel + 1) (newLine indent ++ shown x ++ s) =
      match skip s with
      | [] => none
      | d :: r =>
        if d = closing then some ([x], r)
        else if d = ',' then do
          let (xs, r) ← sequence closing piece false fuel r
          return (x :: xs, r)
        else none := by
  obtain ⟨c, r, hx, hblank, hc⟩ := hstart
  rw [hx, List.cons_append] at hpiece
  rw [sequence, List.append_assoc, skip_newLine, hx, List.cons_append, skip_of_not_blank hblank]
  simp only
  rw [if_neg fun h => hc (by rw [h.1]; exact List.mem_singleton_self _), hpiece]
  rfl

/-- Pieces that are read one by one are read as the pieces of a container. -/
theorem sequence_tailOf (hclosing : isBlank closing = false ∧ closing ≠ ',')
    (hpiece : ∀ y ∈ x :: xs, ∀ s, Stops s → piece (shown y ++ s) = some (y, s))
    (hstart : ∀ y ∈ x :: xs, StartsWithout [closing] (shown y)) (hfuel : xs.length < fuel) :
    sequence closing piece first fuel
        (newLine (indent + 1) ++ shown x ++ tailOf closing indent (xs.map shown) rest)
      = some (x :: xs, rest) := by
  obtain ⟨fuel, rfl⟩ : ∃ n, fuel = n + 1 := ⟨fuel - 1, by omega⟩
  have hread := hpiece x List.mem_cons_self (tailOf closing indent (xs.map shown) rest) stops_tailOf
  induction xs generalizing x first fuel with
  | nil =>
    have htail : skip (tailOf closing indent ([].map shown) rest) = closing :: rest := by
      rw [List.map_nil, tailOf, List.flatMap_nil, List.nil_append, skip_newLine,
        skip_of_not_blank hclosing.1]
    rw [sequence_piece (hstart x List.mem_cons_self) hread, htail]
    exact if_pos rfl
  | cons y xs ih =>
    obtain ⟨fuel, rfl⟩ : ∃ n, fuel = n + 1 := ⟨fuel - 1, by simp at hfuel; omega⟩
    have htail : tailOf closing indent ((y :: xs).map shown) rest
        = ',' :: (newLine (indent + 1) ++ shown y ++ tailOf closing indent (xs.map shown) rest) := by
      simp [tailOf]
    rw [htail] at hread ⊢
    have hpieces := fun z hz => hpiece z (List.mem_cons_of_mem _ hz)
    have hstarts := fun z hz => hstart z (List.mem_cons_of_mem _ hz)
    have hrest : sequence closing piece false (fuel + 1)
        (newLine (indent + 1) ++ shown y ++ tailOf closing indent (xs.map shown) rest)
        = some (y :: xs, rest) :=
      ih hpieces hstarts fuel (by simpa using hfuel) (hpieces y List.mem_cons_self _ stops_tailOf)
    rw [sequence_piece (hstart x List.mem_cons_self) hread, skip_of_not_blank (by decide)]
    simp only [if_neg (Ne.symm hclosing.2), if_true, hrest]
    rfl

/-- What stands behind the opening character of a container is read as its pieces. -/
theorem sequence_block {opening : Char} (hclosing : isBlank closing = false ∧ closing ≠ ',')
    (hpiece : ∀ y ∈ xs, ∀ s, Stops s → piece (shown y ++ s) = some (y, s))
    (hstart : ∀ y ∈ xs, StartsWithout [closing] (shown y)) (hfuel : xs.length < fuel) :
    ∃ s, block opening closing indent (xs.map shown) ++ rest = opening :: s ∧
      sequence closing piece true fuel s = some (xs, rest) := by
  cases xs with
  | nil =>
    obtain ⟨fuel, rfl⟩ : ∃ n, fuel = n + 1 := ⟨fuel - 1, by simp at hfuel; omega⟩
    refine ⟨closing :: rest, rfl, ?_⟩
    rw [sequence, skip_of_not_blank hclosing.1]
    simp
  | cons x xs =>
    refine ⟨_, block_cons opening closing indent (shown x) (xs.map shown) rest, ?_⟩
    exact sequence_tailOf hclosing hpiece hstart (Nat.lt_of_succ_lt hfuel)

end

/-! ## Values -/

/-- A value whose strings spell texts and whose numbers are natural ones. -/
inductive Legible : Json → Prop
  | null : Legible .null
  | boolean (b : Bool) : Legible (.boolean b)
  | number (n : Nat) : Legible (.ofNat n)
  | string (t : List Char) : Legible (.string (spell t))
  | array {items : List Json} (h : ∀ j ∈ items, Legible j) : Legible (.array items)
  | object {members : List (List Char × Json)} (keys : ∀ m ∈ members, ∃ t, m.1 = spell t)
      (h : ∀ m ∈ members, Legible m.2) : Legible (.object members)

theorem printItems_eq_map (indent : Nat) (items : List Json) :
    printItems indent items = items.map (print indent) := by
  induction items with
  | nil => rfl
  | cons j items ih => rw [printItems, ih, List.map_cons]

/-- The text of a member. -/
def printMember (indent : Nat) (m : List Char × Json) : List Char :=
  '"' :: m.1 ++ ['"', ':', ' '] ++ print indent m.2

theorem printMembers_eq_map (indent : Nat) (members : List (List Char × Json)) :
    printMembers indent members = members.map (printMember indent) := by
  induction members with
  | nil => rfl
  | cons m members ih =>
    rw [printMembers, ih, List.map_cons]
    rfl

theorem startsWithout_print {j : Json} (h : Legible j) (indent : Nat) :
    StartsWithout [']', '\x7d'] (print indent j) := by
  cases h with
  | null => exact ⟨'n', _, rfl, by decide, by decide⟩
  | boolean b =>
    cases b with
    | true => exact ⟨'t', _, rfl, by decide, by decide⟩
    | false => exact ⟨'f', _, rfl, by decide, by decide⟩
  | number n =>
    obtain ⟨c, r, hd, hc⟩ := exists_digits n
    have hne : ∀ {d : Char}, d.isDigit = false → c ≠ d := ne_of_isDigit hc
    refine ⟨c, r, hd, ?_, ?_⟩
    · simp [isBlank, hne]
    · simp [hne]
  | string t => exact ⟨'"', _, rfl, by decide, by decide⟩
  | array h => exact ⟨'[', (print indent (.array _)).tail, by
      rw [print]; cases printItems _ _ <;> rfl, by decide, by decide⟩
  | object keys h => exact ⟨'\x7b', (print indent (.object _)).tail, by
      rw [print]; cases printMembers _ _ <;> rfl, by decide, by decide⟩

/-- The pieces of a container are fewer and shorter than its text. -/
theorem length_block (opening closing : Char) (indent : Nat) (ps : List (List Char)) :
    ps.length < (block opening closing indent ps).length ∧
      ∀ p ∈ ps, p.length < (block opening closing indent ps).length := by
  cases ps with
  | nil => simp [block]
  | cons p ps =>
    have hflat : ps.length ≤ (ps.flatMap fun q => ',' :: newLine (indent + 1) ++ q).length ∧
        ∀ q ∈ ps, q.length ≤ (ps.flatMap fun q => ',' :: newLine (indent + 1) ++ q).length := by
      induction ps with
      | nil => simp
      | cons q ps ih =>
        rw [List.flatMap_cons, List.length_append, List.length_cons]
        refine ⟨?_, fun q' hq' => ?_⟩
        · simp only [List.length_append, List.length_cons]
          omega
        · rcases List.mem_cons.1 hq' with rfl | hq'
          · simp only [List.length_append, List.length_cons]
            omega
          · exact Nat.le_trans (ih.2 q' hq') (Nat.le_add_left _ _)
    simp only [block, List.length_append, List.length_cons, newLine] at hflat ⊢
    refine ⟨by omega, fun q hq => ?_⟩
    rcases List.mem_cons.1 hq with rfl | hq
    · omega
    · have := hflat.2 q hq
      omega

theorem member_print {value : Reader Json} {m : List Char × Json} {indent : Nat}
    {rest : List Char} (hkey : ∃ t, m.1 = spell t) (hm : Legible m.2)
    (hvalue : value (print indent m.2 ++ rest) = some (m.2, rest)) :
    member value (printMember indent m ++ rest) = some (m, rest) := by
  obtain ⟨key, j⟩ := m
  obtain ⟨t, rfl⟩ := hkey
  obtain ⟨c, r, hp, hblank, -⟩ := startsWithout_print hm indent
  simp only at hp hvalue
  have htext : printMember indent (spell t, j) ++ rest
      = '"' :: (spell t ++ '"' :: ':' :: ' ' :: (print indent j ++ rest)) := by
    simp [printMember]
  have hskip : skip (' ' :: (print indent j ++ rest)) = print indent j ++ rest := by
    rw [hp]
    unfold skip
    rw [List.dropWhile_cons_of_pos (by decide)]
    exact skip_of_not_blank hblank
  rw [htext, member, spelling_spell]
  simp only [Option.bind_eq_bind, Option.bind_some]
  rw [skip_of_not_blank (by decide)]
  simp only [hskip, hvalue, Option.bind_some]
  rfl

/-- A number is read as a value up to where it stops. -/
theorem value_digits {n : Nat} {rest : List Char} (h : Stops rest) (depth : Nat) :
    value (depth + 1) (digits n ++ rest) = some (.ofNat n, rest) := by
  have hnumeral := numeral_digits (n := n) h
  obtain ⟨c, r, hd, hc⟩ := exists_digits n
  rw [hd, List.cons_append] at hnumeral
  rw [hd, List.cons_append, ofNat, hd]
  unfold value
  -- no other kind of value starts with a digit
  split
  case h_7 =>
    rw [hnumeral]
    rfl
  all_goals
    next heq => exact absurd (List.cons.inj heq).1 (ne_of_isDigit hc (by decide))

theorem exists_of_length_print {j : Json} (h : Legible j) {indent depth : Nat}
    (hdepth : (print indent j).length ≤ depth) : ∃ n, depth = n + 1 := by
  obtain ⟨c, r, hp, -⟩ := startsWithout_print h indent
  rw [hp, List.length_cons] at hdepth
  exact ⟨depth - 1, by omega⟩

/-- A legible value is read from its print, up to what follows. -/
theorem value_print {j : Json} (h : Legible j) (indent : Nat) {rest : List Char}
    (hrest : Stops rest) {depth : Nat} (hdepth : (print indent j).length ≤ depth) :
    value depth (print indent j ++ rest) = some (j, rest) := by
  obtain ⟨depth, rfl⟩ := exists_of_length_print h hdepth
  induction h generalizing indent rest depth with
  | null => rfl
  | boolean b => cases b <;> rfl
  | number n => exact value_digits hrest depth
  | string t =>
    show value (depth + 1) ('"' :: (spell t ++ ['"'] ++ rest)) = some (.string (spell t), rest)
    rw [List.append_assoc, List.singleton_append]
    show (spelling (spell t ++ '"' :: rest)).map _ = _
    rw [spelling_spell]
    rfl
  | @array items h ih =>
    rw [print, printItems_eq_map] at hdepth ⊢
    obtain ⟨hcount, hlength⟩ := length_block '[' ']' indent (items.map (print (indent + 1)))
    rw [List.length_map] at hcount
    have hitem : ∀ k ∈ items, ∀ r, Stops r →
        value depth (print (indent + 1) k ++ r) = some (k, r) := by
      intro k hk r hr
      have hshort : (print (indent + 1) k).length ≤ depth :=
        Nat.le_of_lt_succ (Nat.lt_of_lt_of_le (hlength _ (List.mem_map_of_mem hk)) hdepth)
      obtain ⟨depth, rfl⟩ := exists_of_length_print (h k hk) hshort
      exact ih k hk (indent + 1) hr depth hshort
    have hstart : ∀ k ∈ items, StartsWithout [']'] (print (indent + 1) k) := fun k hk =>
      (startsWithout_print (h k hk) (indent + 1)).mono (by simp)
    obtain ⟨s, htext, hread⟩ :
        ∃ s, block '[' ']' indent (items.map (print (indent + 1))) ++ rest = '[' :: s ∧
          sequence ']' (value depth) true (depth + 1) s = some (items, rest) :=
      sequence_block (by decide) hitem hstart (Nat.lt_of_lt_of_le hcount hdepth)
    rw [htext]
    show (sequence ']' (value depth) true (depth + 1) s).map _ = _
    rw [hread]
    rfl
  | @object members keys h ih =>
    rw [print, printMembers_eq_map] at hdepth ⊢
    obtain ⟨hcount, hlength⟩ :=
      length_block '\x7b' '\x7d' indent (members.map (printMember (indent + 1)))
    rw [List.length_map] at hcount
    have hmember : ∀ m ∈ members, ∀ r, Stops r →
        member (value depth) (printMember (indent + 1) m ++ r) = some (m, r) := by
      intro m hm r hr
      have hshort : (print (indent + 1) m.2).length ≤ depth := by
        have hvalue : (print (indent + 1) m.2).length ≤ (printMember (indent + 1) m).length := by
          simp [printMember]
          omega
        have := hlength _ (List.mem_map_of_mem hm)
        omega
      obtain ⟨depth, rfl⟩ := exists_of_length_print (h m hm) hshort
      exact member_print (keys m hm) (h m hm) (ih m hm (indent + 1) hr depth hshort)
    have hstart : ∀ m ∈ members, StartsWithout ['\x7d'] (printMember (indent + 1) m) :=
      fun m _ => ⟨'"', _, rfl, by decide, by decide⟩
    obtain ⟨s, htext, hread⟩ :
        ∃ s, block '\x7b' '\x7d' indent (members.map (printMember (indent + 1))) ++ rest
            = '\x7b' :: s ∧
          sequence '\x7d' (member (value depth)) true (depth + 1) s = some (members, rest) :=
      sequence_block (by decide) hmember hstart (Nat.lt_of_lt_of_le hcount hdepth)
    rw [htext]
    show (sequence '\x7d' (member (value depth)) true (depth + 1) s).map _ = _
    rw [hread]
    rfl

/-- A legible value is read back from its text. -/
theorem parse_pretty {j : Json} (h : Legible j) : parse (pretty j) = some j := by
  obtain ⟨c, r, hp, hblank, -⟩ := startsWithout_print h 0
  have hread : value ((print 0 j).length + 1) (print 0 j ++ []) = some (j, []) :=
    value_print h 0 (by intro c hc; cases hc) (Nat.le_succ _)
  have hskip : skip (pretty j) = print 0 j ++ [] := by
    rw [pretty, hp, skip_of_not_blank hblank, List.append_nil]
  unfold parse
  rw [hskip, pretty, hread]
  rfl

end ShaderBuild.Json
