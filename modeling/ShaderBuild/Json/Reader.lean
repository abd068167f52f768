import ShaderBuild.Json.Value

/-!
# Reading JSON

The grammar of JSON: no comma behind the last item, no zero in front of another digit, no bare
control character in a string, and nothing but blanks behind the value.

## Termination

Each value, item and member takes at least one character, so the length of the text bounds how
deep they nest and how many there are.
-/

namespace ShaderBuild.Json

/-- Takes something from the front of a text. -/
abbrev Reader (α : Type) := List Char → Option (α × List Char)

/-- The blanks of JSON. -/
def isBlank (c : Char) : Bool := c == ' ' || c == '\n' || c == '\t' || c == '\r'

/-- Drops the blanks in front. -/
def skip (s : List Char) : List Char := s.dropWhile isBlank

/-- The rest of a string, through its closing quote, as it is spelled. -/
def spelling : Reader (List Char)
  | [] => none
  | '"' :: s => some ([], s)
  | '\\' :: 'u' :: a :: b :: c :: d :: s =>
    (hex4? a b c d).bind fun _ =>
      (spelling s).map fun (t, r) => ('\\' :: 'u' :: a :: b :: c :: d :: t, r)
  | '\\' :: c :: s =>
    (escaped? c).bind fun _ => (spelling s).map fun (t, r) => ('\\' :: c :: t, r)
  | c :: s => if c.toNat < 0x20 then none else (spelling s).map fun (t, r) => (c :: t, r)

/-- Digits, at least one. -/
def digits1 : Reader (List Char) := fun s =>
  match s.takeWhile Char.isDigit with
  | [] => none
  | ds => some (ds, s.dropWhile Char.isDigit)

/-- A whole number without sign and without needless zeros. -/
def whole : Reader (List Char)
  | '0' :: s => some (['0'], s)
  | s => digits1 s

/-- A fraction, which may be missing. -/
def fraction : Reader (List Char)
  | '.' :: s => (digits1 s).map fun (ds, r) => ('.' :: ds, r)
  | s => some ([], s)

/-- An exponent, which may be missing. -/
def exponent : Reader (List Char)
  | e :: s =>
    if e = 'e' ∨ e = 'E' then
      match s with
      | sign :: t =>
        if sign = '+' ∨ sign = '-' then (digits1 t).map fun (ds, r) => (e :: sign :: ds, r)
        else (digits1 s).map fun (ds, r) => (e :: ds, r)
      | [] => none
    else some ([], e :: s)
  | [] => some ([], [])

/-- A number as it is spelled. -/
def numeral : Reader (List Char) := fun s =>
  let (sign, s) := match s with
    | '-' :: r => (['-'], r)
    | _ => ([], s)
  do
    let (w, s) ← whole s
    let (f, s) ← fraction s
    let (e, s) ← exponent s
    return (sign ++ w ++ f ++ e, s)

/-- What follows the opening of a container, through its closing character: nothing, or pieces
with commas between them. -/
def sequence (closing : Char) (piece : Reader α) (first : Bool) : Nat → Reader (List α)
  | 0, _ => none
  | fuel + 1, s =>
    match skip s with
    | [] => none
    | c :: r =>
      if c = closing ∧ first then some ([], r)
      else do
        let (a, r) ← piece (c :: r)
        match skip r with
        | [] => none
        | d :: r =>
          if d = closing then return ([a], r)
          else if d = ',' then
            let (as, r) ← sequence closing piece false fuel r
            return (a :: as, r)
          else none

/-- A member of an object, given a reader of its value. -/
def member (value : Reader Json) : Reader (List Char × Json)
  | '"' :: s => do
    let (key, s) ← spelling s
    match skip s with
    | ':' :: s =>
      let (j, s) ← value (skip s)
      return ((key, j), s)
    | _ => none
  | _ => none

/-- A value without blanks in front, which nests to the given depth. -/
def value : Nat → Reader Json
  | 0, _ => none
  | depth + 1, s =>
    match s with
    | '\x7b' :: r =>
      (sequence '\x7d' (member (value depth)) true (depth + 1) r).map fun (ms, r) =>
        (.object ms, r)
    | '[' :: r =>
      (sequence ']' (value depth) true (depth + 1) r).map fun (js, r) => (.array js, r)
    | '"' :: r => (spelling r).map fun (t, r) => (.string t, r)
    | 't' :: 'r' :: 'u' :: 'e' :: r => some (.boolean true, r)
    | 'f' :: 'a' :: 'l' :: 's' :: 'e' :: r => some (.boolean false, r)
    | 'n' :: 'u' :: 'l' :: 'l' :: r => some (.null, r)
    | s => (numeral s).map fun (t, r) => (.number t, r)

/-- The value that a text is. -/
def parse (s : List Char) : Option Json := do
  let (j, r) ← value (s.length + 1) (skip s)
  if skip r = [] then return j else none

end ShaderBuild.Json
