/-!
# UTF-8

Texts are lists of characters, files are bytes. Reading accepts exactly what writing produces:
`decode?_eq_some_iff`.

## Termination

Every character takes at least one byte.
-/

namespace ShaderBuild.Text

/-- The bytes of a text. -/
def encode (s : List Char) : List UInt8 := s.flatMap String.utf8EncodeChar

/-- The character at the front of some bytes; it takes at most four of them. -/
def firstChar? (bytes : List UInt8) : Option Char :=
  (bytes.take 4).toByteArray.utf8DecodeChar? 0

/-- The text that bytes spell, if they do. -/
def decode? (bytes : List UInt8) : Option (List Char) :=
  match bytes with
  | [] => some []
  | b :: bs =>
    match firstChar? (b :: bs) with
    | none => none
    | some c => (decode? ((b :: bs).drop c.utf8Size)).map (c :: ·)
termination_by bytes.length
decreasing_by
  have := c.utf8Size_pos
  simp only [List.length_drop, List.length_cons]
  omega

/-! ## Reading what was written -/

theorem firstChar?_append (c : Char) (bytes : List UInt8) :
    firstChar? (String.utf8EncodeChar c ++ bytes) = some c := by
  have hlen : (String.utf8EncodeChar c).length ≤ 4 := by
    rw [String.length_utf8EncodeChar]
    exact c.utf8Size_le_four
  rw [firstChar?, List.take_append, List.take_of_length_le hlen, List.toByteArray_append,
    ← List.utf8Encode_singleton]
  exact List.utf8DecodeChar?_utf8Encode_singleton_append

theorem eq_append_of_firstChar? {bytes : List UInt8} {c : Char} (h : firstChar? bytes = some c) :
    bytes = String.utf8EncodeChar c ++ bytes.drop c.utf8Size := by
  have hbytes := ByteArray.eq_of_utf8DecodeChar?_eq_some h
  have hlist := congrArg (fun b : ByteArray => b.data.toList) hbytes
  simp only [List.data_toByteArray, ByteArray.data_append, Array.toList_append] at hlist
  generalize (List.toByteArray (bytes.take 4)).extract _ _ = rest at hlist
  obtain ⟨tail, htail⟩ : ∃ tail, bytes = String.utf8EncodeChar c ++ tail :=
    ⟨rest.data.toList ++ bytes.drop 4, by
      rw [← List.append_assoc, ← hlist, List.take_append_drop]⟩
  rw [htail, ← String.length_utf8EncodeChar, List.drop_left]

theorem decode?_encode (s : List Char) : decode? (encode s) = some s := by
  induction s with
  | nil => simp [encode, decode?]
  | cons c s ih =>
    have hfirst := firstChar?_append c (encode s)
    have hdrop : (String.utf8EncodeChar c ++ encode s).drop c.utf8Size = encode s := by
      rw [← String.length_utf8EncodeChar, List.drop_left]
    rw [encode, List.flatMap_cons, ← encode]
    generalize String.utf8EncodeChar c ++ encode s = bytes at hfirst hdrop
    cases bytes with
    | nil => cases hfirst
    | cons b bs => rw [decode?, hfirst]; simp only [hdrop, ih, Option.map_some]

theorem eq_encode_of_decode? {bytes : List UInt8} {s : List Char} (h : decode? bytes = some s) :
    bytes = encode s := by
  fun_induction decode? bytes generalizing s with
  | case1 => cases h; rfl
  | case2 => cases h
  | case3 b bs c hfirst ih =>
    obtain ⟨t, ht, rfl⟩ := Option.map_eq_some_iff.1 h
    rw [eq_append_of_firstChar? hfirst, ih ht, encode, encode, List.flatMap_cons]

/-- Reading accepts exactly what writing produces. -/
theorem decode?_eq_some_iff {bytes : List UInt8} {s : List Char} :
    decode? bytes = some s ↔ bytes = encode s :=
  ⟨eq_encode_of_decode?, fun h => h ▸ decode?_encode s⟩

/-- Different texts have different bytes. -/
theorem encode_injective {a b : List Char} (h : encode a = encode b) : a = b := by
  have hdecode := decode?_encode a
  rw [h, decode?_encode, Option.some.injEq] at hdecode
  exact hdecode.symm

end ShaderBuild.Text
