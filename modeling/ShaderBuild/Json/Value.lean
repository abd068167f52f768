/-!
# JSON values

A JSON value keeps the spelling of its numbers and strings, so that reading a value does not yet
say which numbers are in range and which escapes mean a character.
-/

namespace ShaderBuild

/-- A JSON value. -/
inductive Json where
  | null
  | boolean (b : Bool)
  /-- A number as it is spelled. -/
  | number (spelling : List Char)
  /-- A string as it is spelled between its quotes. -/
  | string (spelling : List Char)
  | array (items : List Json)
  | object (members : List (List Char × Json))

namespace Json

/-! ## Strings -/

/-- The spelling of a character: quote, backslash and control characters are escaped. -/
def escape (c : Char) : List Char :=
  if c = '"' then ['\\', '"']
  else if c = '\\' then ['\\', '\\']
  else if c = '\x08' then ['\\', 'b']
  else if c = '\x0c' then ['\\', 'f']
  else if c = '\n' then ['\\', 'n']
  else if c = '\r' then ['\\', 'r']
  else if c = '\t' then ['\\', 't']
  else if c.toNat < 0x20 then
    ['\\', 'u', '0', '0', Nat.digitChar (c.toNat / 16), Nat.digitChar (c.toNat % 16)]
  else [c]

/-- The string with the given text. -/
def ofString (s : String) : Json := .string (s.toList.flatMap escape)

/-- The value of a hexadecimal digit. -/
def hexDigit? (c : Char) : Option Nat :=
  if c.isDigit then some (c.toNat - 0x30)
  else if 'a' ≤ c ∧ c ≤ 'f' then some (c.toNat - 0x61 + 10)
  else if 'A' ≤ c ∧ c ≤ 'F' then some (c.toNat - 0x41 + 10)
  else none

/-- The value of four hexadecimal digits. -/
def hex4? (a b c d : Char) : Option Nat := do
  return 4096 * (← hexDigit? a) + 256 * (← hexDigit? b) + 16 * (← hexDigit? c) + (← hexDigit? d)

/-- The character that a backslash and a letter stand for. -/
def escaped? : Char → Option Char
  | '"' => some '"'
  | '\\' => some '\\'
  | '/' => some '/'
  | 'b' => some '\x08'
  | 'f' => some '\x0c'
  | 'n' => some '\n'
  | 'r' => some '\r'
  | 't' => some '\t'
  | _ => none

/-- The text that a spelling stands for; `none` when half of a surrogate pair is missing. -/
def unescape : List Char → Option (List Char)
  | [] => some []
  | '\\' :: 'u' :: a :: b :: c :: d :: s =>
    match hex4? a b c d with
    | none => none
    | some n =>
      if 0xDC00 ≤ n ∧ n ≤ 0xDFFF then none
      else if 0xD800 ≤ n ∧ n ≤ 0xDBFF then
        match s with
        | '\\' :: 'u' :: e :: f :: g :: h :: s =>
          match hex4? e f g h with
          | some m =>
            if 0xDC00 ≤ m ∧ m ≤ 0xDFFF then
              (unescape s).map (Char.ofNat (0x10000 + (n - 0xD800) * 1024 + (m - 0xDC00)) :: ·)
            else none
          | none => none
        | _ => none
      else (unescape s).map (Char.ofNat n :: ·)
  | '\\' :: c :: s => (escaped? c).bind fun e => (unescape s).map (e :: ·)
  | c :: s => (unescape s).map (c :: ·)

/-- The text of a string. -/
def text? : Json → Option String
  | .string s => (unescape s).map String.ofList
  | _ => none

/-! ## Numbers -/

/-- The spelling of a natural number. -/
def digits (n : Nat) : List Char := Nat.toDigits 10 n

/-- The natural number with the given spelling, if it is below a bound. A sign, a fraction or an
exponent makes it none. -/
def ofDigits? (bound : Nat) (s : List Char) : Option Nat :=
  if s ≠ [] ∧ s.all Char.isDigit ∧ (s.head? = some '0' → s.length = 1) then
    let n := s.foldl (fun n c => 10 * n + (c.toNat - 0x30)) 0
    if n < bound then some n else none
  else none

/-- The number for a natural number. -/
def ofNat (n : Nat) : Json := .number (digits n)

/-- The natural number below a bound that a value is. -/
def nat? (bound : Nat) : Json → Option Nat
  | .number s => ofDigits? bound s
  | _ => none

/-- The truth value that a value is. -/
def boolean? : Json → Option Bool
  | .boolean b => some b
  | _ => none

/-- The items that a value has. -/
def items? : Json → Option (List Json)
  | .array items => some items
  | _ => none

end Json

end ShaderBuild
