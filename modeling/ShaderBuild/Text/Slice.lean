import ShaderBuild.Text.Utf8

/-!
# Slices of a text

A place in a text is the number of the bytes in front of it. A slice from one place to another is a
text of its own only if both stand between characters: `slice?_eq_some_iff`.
-/

namespace ShaderBuild.Text

/-- Whether a place stands between characters: one starts there, or the text ends. -/
def isBoundary (bytes : List UInt8) (i : Nat) : Bool :=
  i == bytes.length || bytes[i]?.any fun b => decide b.IsUTF8FirstByte

/-- The text from one place to another. There is none if one of them stands inside a character. -/
def slice? (bytes : List UInt8) (start stop : Nat) : Option (List Char) :=
  if start ≤ stop ∧ isBoundary bytes start ∧ isBoundary bytes stop then
    decode? ((bytes.take stop).drop start)
  else none

variable {s t a b : List Char} {i j : Nat}

theorem encode_append (a b : List Char) : encode (a ++ b) = encode a ++ encode b :=
  List.flatMap_append

theorem encode_cons (c : Char) (s : List Char) :
    encode (c :: s) = String.utf8EncodeChar c ++ encode s :=
  List.flatMap_cons

theorem length_encode_append (a b : List Char) :
    (encode (a ++ b)).length = (encode a).length + (encode b).length := by
  rw [encode_append, List.length_append]

theorem length_encode_cons (c : Char) (s : List Char) :
    (encode (c :: s)).length = c.utf8Size + (encode s).length := by
  rw [encode_cons, List.length_append, String.length_utf8EncodeChar]

/-- Only the empty text takes no bytes. -/
theorem length_encode_eq_zero : (encode s).length = 0 ↔ s = [] := by
  cases s with
  | nil => exact ⟨fun _ => rfl, fun _ => rfl⟩
  | cons c s =>
    have := c.utf8Size_pos
    rw [length_encode_cons]
    exact ⟨fun h => by omega, fun h => by cases h⟩

/-! ## Where characters start -/

/-- The bytes of a character start one only in front. -/
theorem isBoundary_inside {c : Char} (hi : 0 < i) (hc : i < c.utf8Size) :
    isBoundary (encode (c :: s)) i = false := by
  have hlt : i < (String.utf8EncodeChar c).length := by rwa [String.length_utf8EncodeChar]
  have hbyte : ¬ ((String.utf8EncodeChar c)[i]).IsUTF8FirstByte := by
    rw [UInt8.isUTF8FirstByte_getElem_utf8EncodeChar]
    omega
  have hlength : i ≠ (encode (c :: s)).length := by
    rw [length_encode_cons]
    omega
  simp only [isBoundary, beq_eq_false_iff_ne.2 hlength, Bool.false_or]
  rw [encode_cons, List.getElem?_append_left hlt, List.getElem?_eq_getElem hlt, Option.any_some,
    decide_eq_false hbyte]

/-- A place behind the first character stands between characters if it does so in the rest. -/
theorem isBoundary_cons (c : Char) (s : List Char) (i : Nat) :
    isBoundary (encode (c :: s)) (c.utf8Size + i) = isBoundary (encode s) i := by
  have hlength : (String.utf8EncodeChar c).length ≤ c.utf8Size + i := by
    rw [String.length_utf8EncodeChar]
    omega
  have hbyte : (encode (c :: s))[c.utf8Size + i]? = (encode s)[i]? := by
    rw [encode_cons, List.getElem?_append_right hlength, String.length_utf8EncodeChar,
      Nat.add_sub_cancel_left]
  rw [isBoundary, isBoundary, hbyte, length_encode_cons]
  congr 1
  rw [Bool.eq_iff_iff, beq_iff_eq, beq_iff_eq]
  omega

theorem isBoundary_zero (s : List Char) : isBoundary (encode s) 0 = true := by
  cases s with
  | nil => rfl
  | cons c s =>
    have hpos : 0 < (String.utf8EncodeChar c).length := by
      rw [String.length_utf8EncodeChar]
      exact c.utf8Size_pos
    rw [isBoundary, encode_cons, List.getElem?_append_left hpos, List.getElem?_eq_getElem hpos,
      Option.any_some, decide_eq_true (UInt8.isUTF8FirstByte_getElem_utf8EncodeChar.2 rfl),
      Bool.or_true]

/-- **A place stands between characters** if it is where some of them have been passed. -/
theorem isBoundary_encode_iff :
    isBoundary (encode s) i = true ↔ ∃ a b, s = a ++ b ∧ i = (encode a).length := by
  constructor
  · intro h
    induction s generalizing i with
    | nil =>
      obtain rfl : i = 0 := by simpa [isBoundary, encode] using h
      exact ⟨[], [], rfl, rfl⟩
    | cons c s ih =>
      by_cases hi : i = 0
      · exact ⟨[], c :: s, rfl, hi⟩
      by_cases hc : i < c.utf8Size
      · rw [isBoundary_inside (by omega) hc] at h
        cases h
      · obtain ⟨k, rfl⟩ := Nat.exists_eq_add_of_le (Nat.le_of_not_lt hc)
        rw [isBoundary_cons] at h
        obtain ⟨a, b, rfl, rfl⟩ := ih h
        exact ⟨c :: a, b, rfl, (length_encode_cons c a).symm⟩
  · rintro ⟨a, b, rfl, rfl⟩
    induction a with
    | nil => exact isBoundary_zero b
    | cons c a ih => rwa [List.cons_append, length_encode_cons, isBoundary_cons]

/-! ## What is between two places -/

/-- Of two beginnings of a text, the one with fewer bytes is a beginning of the other. -/
theorem exists_eq_append_of_length_le {a' b' : List Char} (h : a ++ b = a' ++ b')
    (hle : (encode a).length ≤ (encode a').length) : ∃ m, a' = a ++ m := by
  rcases List.append_eq_append_iff.1 h with ⟨m, rfl, -⟩ | ⟨m, rfl, -⟩
  · exact ⟨m, rfl⟩
  · rw [length_encode_append] at hle
    obtain rfl := length_encode_eq_zero.1 (show (encode m).length = 0 by omega)
    exact ⟨[], by simp⟩

/-- The bytes between two places that stand between characters. -/
theorem drop_take_encode (a t b : List Char) : ((encode (a ++ (t ++ b))).take
    ((encode a).length + (encode t).length)).drop (encode a).length = encode t := by
  rw [encode_append, encode_append, ← List.append_assoc, ← List.length_append, List.take_left,
    List.drop_left]

/-- **A slice is cut out between characters**, and is what stands there. -/
theorem slice?_eq_some_iff : slice? (encode s) i j = some t ↔
    ∃ a b, s = a ++ (t ++ b) ∧ i = (encode a).length ∧ j = i + (encode t).length := by
  constructor
  · intro h
    unfold slice? at h
    split at h
    · next hcut =>
      obtain ⟨hle, hi, hj⟩ := hcut
      obtain ⟨a, b, rfl, rfl⟩ := isBoundary_encode_iff.1 hi
      obtain ⟨a', b', hs, rfl⟩ := isBoundary_encode_iff.1 hj
      obtain ⟨m, rfl⟩ := exists_eq_append_of_length_le hs hle
      rw [hs, List.append_assoc, length_encode_append, drop_take_encode, decode?_encode] at h
      cases h
      exact ⟨a, b', by rw [hs, List.append_assoc], rfl, length_encode_append a t⟩
    · cases h
  · rintro ⟨a, b, rfl, rfl, rfl⟩
    have hstop : (encode a).length + (encode t).length = (encode (a ++ t)).length :=
      (length_encode_append a t).symm
    have hcut : (encode a).length ≤ (encode a).length + (encode t).length ∧
        isBoundary (encode (a ++ (t ++ b))) (encode a).length ∧
        isBoundary (encode (a ++ (t ++ b))) ((encode a).length + (encode t).length) :=
      ⟨Nat.le_add_right _ _, isBoundary_encode_iff.2 ⟨a, t ++ b, rfl, rfl⟩,
        isBoundary_encode_iff.2 ⟨a ++ t, b, (List.append_assoc a t b).symm, hstop⟩⟩
    rw [slice?, if_pos hcut, drop_take_encode, decode?_encode]

example : slice? (encode ['é']) 1 2 = none := by decide

end ShaderBuild.Text
