import Mathlib.Tactic.SplitIfs
import ShaderBuild.Text.Utf8

/-!
# The order of texts and the order of their bytes

UTF-8 keeps the order of texts: a text that comes before another, character by character, comes
before it byte by byte (`encode_lt_encode`). What is sorted by names is therefore sorted by the
bytes of the names.
-/

namespace ShaderBuild.Text

/-- Numbers compare as their quotients, and where these agree as the digit in front of them. -/
theorem div_lt_or_digit_lt {v w : Nat} (k : Nat) (h : v / k < w / k) :
    v / (k * 64) < w / (k * 64) ∨ v / (k * 64) = w / (k * 64) ∧ v / k % 64 < w / k % 64 := by
  rw [← Nat.div_div_eq_div_mul, ← Nat.div_div_eq_div_mul]
  omega

/-- Of two characters the smaller one has the smaller bytes, whatever follows them. -/
theorem utf8EncodeChar_append_lt {c d : Char} (h : c < d) (u v : List UInt8) :
    String.utf8EncodeChar c ++ u < String.utf8EncodeChar d ++ v := by
  have hlt : c.val.toNat < d.val.toNat := UInt32.lt_iff_toNat_lt.1 (Char.lt_def.1 h)
  have hd : d.val.toNat < 1114112 := by
    have := d.valid
    simp only [UInt32.isValidChar, Nat.isValidChar] at this
    omega
  unfold String.utf8EncodeChar
  simp only
  generalize c.val.toNat = m at hlt
  generalize d.val.toNat = n at hlt hd
  -- each byte but the first holds six bits, so the bytes compare as the digits do
  have h6 : m / 64 < n / 64 ∨ m / 64 = n / 64 ∧ m % 64 < n % 64 := by omega
  have h12 := @div_lt_or_digit_lt m n 64
  have h18 := @div_lt_or_digit_lt m n 4096
  have htail : ∀ x : Nat, (x % 64 + 128) % 2 ^ 8 = x % 64 + 128 := by omega
  have htwo : ∀ x : Nat, (x % 32 + 192) % 2 ^ 8 = x % 32 + 192 := by omega
  have hthree : ∀ x : Nat, (x % 16 + 224) % 2 ^ 8 = x % 16 + 224 := by omega
  have hfour : ∀ x : Nat, x ≤ n → (x / 262144 % 8 + 240) % 2 ^ 8 = x / 262144 + 240 := by
    omega
  split_ifs <;>
    simp only [List.cons_append, List.nil_append, List.cons_lt_cons_iff, UInt8.lt_iff_toNat_lt,
      ← UInt8.toNat_inj, UInt8.toNat_ofNat', htail, htwo, hthree,
      hfour m (Nat.le_of_lt hlt), hfour n (Nat.le_refl n)] <;>
    omega

theorem lt_append_utf8EncodeChar (c : Char) (bytes : List UInt8) :
    [] < String.utf8EncodeChar c ++ bytes := by
  cases h : String.utf8EncodeChar c with
  | nil =>
    have hlength := String.length_utf8EncodeChar c
    rw [h] at hlength
    exact absurd hlength (Nat.ne_of_lt c.utf8Size_pos)
  | cons b bs => exact List.nil_lt_cons b (bs ++ bytes)

/-- Texts in order have bytes in order. -/
theorem encode_lt_encode {a b : List Char} (h : a < b) : encode a < encode b := by
  induction a generalizing b with
  | nil =>
    cases b with
    | nil => exact absurd h (List.lt_irrefl _)
    | cons d b => exact lt_append_utf8EncodeChar d _
  | cons c a ih =>
    cases b with
    | nil => exact absurd h (List.not_lt_nil _)
    | cons d b =>
      rw [encode, encode, List.flatMap_cons, List.flatMap_cons]
      rcases List.cons_lt_cons_iff.1 h with hlt | ⟨rfl, hlt⟩
      · exact utf8EncodeChar_append_lt hlt _ _
      · exact List.append_left_lt (ih hlt)

end ShaderBuild.Text
