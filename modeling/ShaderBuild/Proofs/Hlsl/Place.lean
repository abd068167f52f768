import ShaderBuild.Hlsl.Scanner

/-!
# Places in the bytes of a text

A place in the bytes of a text is where some rest of it starts (`Stands`). A character of ASCII is
one byte, which counts as that character, and all bytes of another one count as characters beyond
ASCII. No test of the scanner tells these apart (`Uniform`), so each byte of a character is treated
as the character itself would be (`Stands.charAt?_add`, `Stands.pass`).
-/

namespace ShaderBuild.Hlsl

open Text

variable {text rest a b r : List Char} {c d : Char} {i : Nat} {p : Char → Bool}

/-! ## Tests that tell no characters beyond ASCII apart -/

/-- Characters beyond ASCII are all alike for a test. -/
def Uniform (p : Char → Bool) : Prop :=
  ∀ c d : Char, 128 ≤ c.toNat → 128 ≤ d.toNat → p c = p d

theorem uniform_of_ascii (h : ∀ c, p c = true → c.toNat < 128) : Uniform p := by
  intro c d hc hd
  rw [Bool.eq_false_iff.2 fun hp => absurd (h c hp) (Nat.not_lt_of_le hc),
    Bool.eq_false_iff.2 fun hp => absurd (h d hp) (Nat.not_lt_of_le hd)]

theorem Uniform.not (h : Uniform p) : Uniform fun c => !p c :=
  fun c d hc hd => congrArg _ (h c d hc hd)

theorem Uniform.or {q : Char → Bool} (hp : Uniform p) (hq : Uniform q) :
    Uniform fun c => p c || q c := by
  intro c d hc hd
  simp only [hp c d hc hd, hq c d hc hd]

theorem uniform_beq (hd : d.toNat < 128) : Uniform (· == d) :=
  uniform_of_ascii fun c hc => by rwa [eq_of_beq hc]

theorem uniform_ne (hd : d.toNat < 128) : Uniform (· ≠ d) := by
  have hne : ∀ c : Char, 128 ≤ c.toNat → decide (c ≠ d) = true := by
    intro c hc
    refine decide_eq_true ?_
    rintro rfl
    omega
  exact fun c e hc he => (hne c hc).trans (hne e he).symm

theorem uniform_isAlpha : Uniform Char.isAlpha := by
  refine uniform_of_ascii fun c hc => ?_
  have hletter : (c.isUpper || c.isLower) = true := hc
  rcases Bool.or_eq_true_iff.1 hletter with hupper | hlower
  · have hle : c.val ≤ 'Z'.val := (of_decide_eq_true hupper).2
    exact Nat.lt_of_le_of_lt (UInt32.le_iff_toNat_le.1 hle) (by decide)
  · have hle : c.val ≤ 'z'.val := of_decide_eq_true (Bool.and_eq_true_iff.1 hlower).2
    exact Nat.lt_of_le_of_lt (UInt32.le_iff_toNat_le.1 hle) (by decide)

theorem uniform_isDigit : Uniform Char.isDigit :=
  uniform_of_ascii fun _ hc => Nat.lt_of_le_of_lt (Char.isDigit_iff_toNat.1 hc).2 (by decide)

theorem uniform_isWordPart : Uniform isWordPart :=
  (uniform_isAlpha.or uniform_isDigit).or (uniform_beq (by decide))

theorem uniform_isNumberPart : Uniform isNumberPart :=
  (uniform_isAlpha.or uniform_isDigit).or (uniform_beq (by decide))

theorem uniform_isLiteralPart : Uniform isLiteralPart := by
  have h := ((uniform_beq (d := '"') (by decide)).or (uniform_beq (d := '\n') (by decide))).not
  intro c d hc hd
  simpa only [isLiteralPart, bne, Bool.not_or] using h c d hc hd

theorem uniform_isSpace : Uniform isSpace :=
  ((((uniform_beq (by decide)).or (uniform_beq (by decide))).or (uniform_beq (by decide))).or
    (uniform_beq (by decide))).or (uniform_beq (by decide))

/-! ## Bytes as characters -/

theorem utf8Size_of_ascii (hc : c.toNat < 128) : c.utf8Size = 1 := by
  rw [Char.utf8Size_eq_one_iff, UInt32.le_iff_toNat_le]
  exact Nat.le_of_lt_succ hc

/-- A character of ASCII is spelled by the one byte that counts as it. -/
theorem map_utf8EncodeChar_of_ascii (hc : c.toNat < 128) :
    (String.utf8EncodeChar c).map Char.ofUInt8 = [c] := by
  have hle : c.val.toNat ≤ 127 := Nat.le_of_lt_succ hc
  rw [String.utf8EncodeChar, if_pos hle, List.map_singleton, List.singleton_inj]
  apply Char.ext
  rw [← UInt32.toNat_inj]
  show (UInt8.ofNat c.val.toNat).toNat = c.val.toNat
  rw [UInt8.toNat_ofNat']
  omega

/-- The bytes of a character beyond ASCII count as such characters. -/
theorem le_toNat_of_mem_utf8EncodeChar (hc : 128 ≤ c.toNat) {byte : UInt8}
    (hbyte : byte ∈ String.utf8EncodeChar c) : 128 ≤ (Char.ofUInt8 byte).toNat := by
  have hlt : ¬ c.val.toNat ≤ 127 := Nat.not_le_of_lt hc
  have hle : 128 ≤ byte.toNat := by
    rw [String.utf8EncodeChar, if_neg hlt] at hbyte
    split at hbyte
    · simp only [List.mem_cons, List.not_mem_nil, or_false] at hbyte
      rcases hbyte with rfl | rfl <;> rw [UInt8.toNat_ofNat'] <;> omega
    split at hbyte
    · simp only [List.mem_cons, List.not_mem_nil, or_false] at hbyte
      rcases hbyte with rfl | rfl | rfl <;> rw [UInt8.toNat_ofNat'] <;> omega
    · simp only [List.mem_cons, List.not_mem_nil, or_false] at hbyte
      rcases hbyte with rfl | rfl | rfl | rfl <;> rw [UInt8.toNat_ofNat'] <;> omega
  exact hle

/-- Uniform tests do not tell two characters apart. -/
def Alike (c d : Char) : Prop := ∀ p, Uniform p → p d = p c

theorem Alike.eq_iff (h : Alike c d) {e : Char} (he : e.toNat < 128) : d = e ↔ c = e := by
  rw [← beq_iff_eq, h _ (uniform_beq he), beq_iff_eq]

/-- The bytes of a character count as characters like it. -/
theorem alike_of_mem {byte : UInt8} (hbyte : byte ∈ String.utf8EncodeChar c) :
    Alike c (Char.ofUInt8 byte) := by
  intro p hp
  by_cases hc : c.toNat < 128
  · have hmem := List.mem_map_of_mem (f := Char.ofUInt8) hbyte
    rw [map_utf8EncodeChar_of_ascii hc, List.mem_singleton] at hmem
    rw [hmem]
  · have hc := Nat.le_of_not_lt hc
    exact hp _ _ (le_toNat_of_mem_utf8EncodeChar hc hbyte) hc

/-! ## Places -/

/-- A rest of the text starts at a place. -/
def Stands (text : List Char) (i : Nat) (rest : List Char) : Prop :=
  ∃ before, text = before ++ rest ∧ i = (encode before).length

theorem stands_start (text : List Char) : Stands text 0 text := ⟨[], rfl, rfl⟩

namespace Stands

theorem append (h : Stands text i (a ++ b)) : Stands text (i + (encode a).length) b := by
  obtain ⟨before, rfl, rfl⟩ := h
  exact ⟨before ++ a, (List.append_assoc before a b).symm, (length_encode_append before a).symm⟩

theorem tail (h : Stands text i (c :: r)) : Stands text (i + c.utf8Size) r := by
  simpa [encode] using (show Stands text i ([c] ++ r) from h).append

theorem length_eq (h : Stands text i rest) : (encode text).length = i + (encode rest).length := by
  obtain ⟨before, rfl, rfl⟩ := h
  exact length_encode_append before rest

/-- What stands at a place can be cut out. -/
theorem slice? (h : Stands text i (a ++ b)) :
    slice? (encode text) i (i + (encode a).length) = some a := by
  obtain ⟨before, rfl, rfl⟩ := h
  exact slice?_eq_some_iff.2 ⟨before, b, rfl, rfl, rfl⟩

theorem getElem?_add (h : Stands text i rest) (k : Nat) :
    (encode text)[i + k]? = (encode rest)[k]? := by
  obtain ⟨before, rfl, rfl⟩ := h
  rw [encode_append, List.getElem?_append_right (Nat.le_add_right _ _), Nat.add_sub_cancel_left]

theorem charAt?_nil (h : Stands text i []) : charAt? (encode text) i = none :=
  congrArg (Option.map Char.ofUInt8) (h.getElem?_add 0)

/-- **Each byte of a character** counts as one like it. -/
theorem charAt?_add (h : Stands text i (c :: r)) {k : Nat} (hk : k < c.utf8Size) :
    ∃ d, charAt? (encode text) (i + k) = some d ∧ Alike c d := by
  have hlt : k < (String.utf8EncodeChar c).length := by rwa [String.length_utf8EncodeChar]
  rw [charAt?, h.getElem?_add k, encode_cons, List.getElem?_append_left hlt,
    List.getElem?_eq_getElem hlt]
  exact ⟨_, rfl, alike_of_mem (List.getElem_mem hlt)⟩

theorem charAt?_cons (h : Stands text i (c :: r)) :
    ∃ d, charAt? (encode text) i = some d ∧ Alike c d :=
  h.charAt?_add c.utf8Size_pos

/-- A byte counts as a character of ASCII exactly where that character stands. -/
theorem charAt?_eq_some_iff (h : Stands text i rest) (hd : d.toNat < 128) :
    charAt? (encode text) i = some d ↔ rest.head? = some d := by
  cases rest with
  | nil => simp [h.charAt?_nil]
  | cons c r =>
    obtain ⟨e, he, halike⟩ := h.charAt?_cons
    rw [he, List.head?_cons, Option.some.injEq, Option.some.injEq, halike.eq_iff hd]

theorem charAt?_ascii (h : Stands text i (c :: r)) (hc : c.toNat < 128) :
    charAt? (encode text) i = some c :=
  (h.charAt?_eq_some_iff hc).2 rfl

/-- The byte behind a character of ASCII. -/
theorem charAt?_succ (h : Stands text i (c :: r)) (hc : c.toNat < 128) (hd : d.toNat < 128) :
    charAt? (encode text) (i + 1) = some d ↔ r.head? = some d := by
  have htail := h.tail
  rw [utf8Size_of_ascii hc] at htail
  exact htail.charAt?_eq_some_iff hd

/-- A loop that goes on over each byte that passes a test goes on over a character that does. -/
theorem pass {α : Type} {f : Nat → α} (h : Stands text i (c :: r)) (hp : Uniform p)
    (hc : p c = true)
    (hf : ∀ j d, charAt? (encode text) j = some d → p d = true → f j = f (j + 1)) :
    f i = f (i + c.utf8Size) := by
  have hpass : ∀ k ≤ c.utf8Size, f i = f (i + k) := by
    intro k hk
    induction k with
    | zero => rfl
    | succ k ih =>
      obtain ⟨d, hd, halike⟩ := h.charAt?_add hk
      rw [ih (Nat.le_of_lt hk), hf _ d hd ((halike p hp).trans hc)]
      rfl
  exact hpass _ (Nat.le_refl _)

/-- A loop that stops at two characters of ASCII at most goes on over any other one. -/
theorem pass_ne {α : Type} {f : Nat → α} {d e : Char} (h : Stands text i (c :: r))
    (hd : d.toNat < 128) (he : e.toNat < 128) (hcd : c ≠ d) (hce : c ≠ e)
    (hf : ∀ j k, charAt? (encode text) j = some k → k ≠ d → k ≠ e → f j = f (j + 1)) :
    f i = f (i + c.utf8Size) := by
  have hother : Uniform fun c => !(c == d || c == e) :=
    ((uniform_beq hd).or (uniform_beq he)).not
  refine h.pass hother (by simp [hcd, hce]) fun j k hk htest => ?_
  simp only [Bool.not_eq_true', Bool.or_eq_false_iff, beq_eq_false_iff_ne] at htest
  exact hf j k hk htest.1 htest.2

end Stands

end ShaderBuild.Hlsl
