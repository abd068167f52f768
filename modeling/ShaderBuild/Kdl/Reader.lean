import ShaderBuild.Kdl.Node

/-!
# Reading KDL

A reader takes something from the front of a text or fails. Every rule of the grammar is one
reader; a rule that is tried in vain gives its characters back.

The dialect: a node ends with a line end, a semicolon, a line comment or the text, a closing
brace is no node end. A bare word cannot stand as an argument, only strings, numbers and the
keywords can. What follows a slash and a dash is read and left out.

## Termination

Repetition goes on only while the text gets shorter (`many`). The two rules that contain
themselves, block comments and nodes, are given the length of the text as the depth they may
nest to, for each level takes at least one character.
-/

namespace ShaderBuild.Kdl

/-- Takes something from the front of a text. -/
abbrev Reader (α : Type) := StateT (List Char) Option α

namespace Reader

/-- Takes one character of a class. -/
def char (accepts : Char → Bool) : Reader Char
  | [] => none
  | c :: s => if accepts c then some (c, s) else none

/-- Takes the given characters. -/
def exact : List Char → Reader Unit
  | [], s => some ((), s)
  | _ :: _, [] => none
  | w :: ws, c :: s => if w = c then exact ws s else none

/-- Succeeds at the end of the text. -/
def atEnd : Reader Unit
  | [] => some ((), [])
  | _ :: _ => none

/-- Reads as often as it can, at least one character a time. -/
def many (read : Reader α) (s : List Char) : Option (List α × List Char) :=
  match read s with
  | none => some ([], s)
  | some (a, r) =>
    if r.length < s.length then (many read r).map fun (l, t) => (a :: l, t)
    else some ([], s)
termination_by s.length

/-- Reads as often as it can, at least once. -/
def many1 (read : Reader α) : Reader (List α) := do
  let a ← read
  let l ← many read
  return a :: l

/-- Reads if it can. -/
def optional? (read : Reader α) : Reader (Option α) := (some <$> read) <|> pure none

/-- Reads for the effect. -/
def skip (read : Reader α) : Reader Unit := (fun _ => ()) <$> read

end Reader

open Reader

/-! ## Spaces -/

/-- The characters of line ends. -/
def isNewline (c : Char) : Bool :=
  c == '\n' || c == '\r' || c == '\x0c' || c == '\x85' || c == '\u2028' || c == '\u2029'

/-- The blanks within a line, the byte order mark among them. -/
def isBlank (c : Char) : Bool :=
  let n := c.toNat
  n == 0x09 || n == 0x20 || n == 0xA0 || n == 0x1680 || (0x2000 ≤ n && n ≤ 0x200A)
    || n == 0x202F || n == 0x205F || n == 0x3000 || n == 0xFEFF

/-- One line end. -/
def newline : Reader Unit := exact ['\r', '\n'] <|> skip (char isNewline)

/-- A star that closes no comment. -/
def loneStar : Reader Unit
  | '*' :: c :: s => if c = '/' then none else some ((), c :: s)
  | _ => none

/-- A block comment, which may hold others. -/
def blockComment : Nat → Reader Unit
  | 0 => failure
  | depth + 1 => do
    exact ['/', '*']
    let _ ← many (blockComment depth <|> skip (char (· != '*')) <|> loneStar)
    exact ['*', '/']

/-- Blanks or one block comment. -/
def blanks : Reader Unit := fun s =>
  (skip (many1 (char isBlank)) <|> blockComment s.length) s

/-- A line comment through its line end. -/
def lineComment : Reader Unit := do
  exact ['/', '/']
  let _ ← many (char fun c => !isNewline c)
  newline <|> atEnd

/-- A line end that does not end the node. -/
def continuation : Reader Unit := do
  exact ['\\']
  let _ ← many blanks
  lineComment <|> newline

/-- What may part the pieces of a node. -/
def nodeSpace : Reader Unit := blanks <|> continuation

/-- What may part nodes. -/
def lineSpace : Reader Unit := newline <|> blanks <|> lineComment

/-- What ends a node. -/
def terminator : Reader Unit := newline <|> lineComment <|> exact [';'] <|> atEnd

/-! ## Names and values -/

/-- The characters of a bare name. -/
def isNamePart (c : Char) : Bool :=
  0x21 < c.toNat && !("\\/()\x7b\x7d<>;[]=,\"".toList.contains c) && !isNewline c
    && (!isBlank c || c == '\ufeff')

/-- The characters a bare name may go on with behind a sign. -/
def isNameStart (c : Char) : Bool := (isNamePart c || c == '!') && !c.isDigit

/-- A sign of a number. -/
def isSign (c : Char) : Bool := c == '+' || c == '-'

/-- The characters of a bare name. -/
def bareName : Reader (List Char) :=
  (do
    let sign ← char isSign
    let first ← char isNameStart
    return sign :: first :: (← many (char isNamePart)))
  <|> (do return [← char isSign])
  <|> (do
    let first ← char fun c => isNameStart c && !isSign c
    return first :: (← many (char isNamePart)))

/-- A name without quotes, which is no keyword. -/
def bareWord : Reader String := do
  let name := String.ofList (← bareName)
  if name = "true" ∨ name = "false" ∨ name = "null" then failure else return name

/-- The number that hexadecimal digits stand for. -/
def ofHexDigits (digits : List Char) : Nat :=
  digits.foldl (fun n c =>
    16 * n + (if c.isDigit then c.toNat - 0x30 else c.toLower.toNat - 0x61 + 10)) 0

/-- Whether a character is a hexadecimal digit. -/
def isHexDigit (c : Char) : Bool :=
  c.isDigit || ('a' ≤ c && c ≤ 'f') || ('A' ≤ c && c ≤ 'F')

/-- What follows a backslash in a string. -/
def escape : Reader Char := do
  match ← char fun _ => true with
  | '"' => return '"'
  | '\\' => return '\\'
  | '/' => return '/'
  | 'b' => return '\x08'
  | 'f' => return '\x0c'
  | 'n' => return '\n'
  | 'r' => return '\r'
  | 't' => return '\t'
  | 'u' =>
    exact ['\x7b']
    let digits ← many1 (char isHexDigit)
    exact ['\x7d']
    let code := ofHexDigits digits
    if digits.length ≤ 6 ∧ code.isValidChar then return Char.ofNat code else failure
  | _ => failure

/-- One character of a string. -/
def stringChar : Reader Char :=
  char (fun c => c != '"' && c != '\\') <|> (do exact ['\\']; escape)

/-- A string with escapes. -/
def escapedString : Reader String := do
  exact ['"']
  let text ← many stringChar
  exact ['"']
  return String.ofList text

/-- The text up to the first `close`, and what follows that. -/
def upTo (close : List Char) : Reader (List Char)
  | [] => none
  | c :: s =>
    match exact close (c :: s) with
    | some (_, r) => some ([], r)
    | none => (upTo close s).map fun (t, r) => (c :: t, r)

/-- A string without escapes, closed by as many number signs as open it. -/
def rawString : Reader String := do
  exact ['r']
  let signs ← many (char (· == '#'))
  exact ['"']
  return String.ofList (← upTo ('"' :: signs))

/-- A quoted string. -/
def string : Reader String := rawString <|> escapedString

/-- The name of a node, a property or a type. -/
def name : Reader String := bareWord <|> string

/-- A name in parentheses. -/
def annotation : Reader String := do
  exact ['(']
  let n ← name
  exact [')']
  return n

/-- Digits of a class, underscores left out; the first one is a digit. -/
def digits (accepts : Char → Bool) : Reader (List Char) := do
  let first ← char accepts
  let more ← many (char fun c => accepts c || c == '_')
  return first :: more.filter (· != '_')

/-- The sign in front of a number. -/
def sign : Reader (List Char) := do return (← optional? (char isSign)).toList

/-- A whole number in the base that the given letter announces. -/
def inBase (letter : Char) (base : Nat) (accepts : Char → Bool) : Reader Literal := do
  let s ← sign
  exact ['0', letter]
  return .integer (String.ofList (s ++ (← digits accepts))) base

/-- The exponent of a number. -/
def exponent : Reader Unit := do
  let _ ← char fun c => c == 'e' || c == 'E'
  let _ ← optional? (char isSign)
  let _ ← many (char fun c => c.isDigit || c == '_')

/-- A number in base ten. -/
def inTen : Reader Literal := do
  let s ← sign
  let whole ← digits Char.isDigit
  let fraction ← optional? (do exact ['.']; digits Char.isDigit)
  let power ← optional? exponent
  return if fraction.isNone && power.isNone then .integer (String.ofList (s ++ whole)) 10
    else .decimal

/-- A number. -/
def number : Reader Literal :=
  inBase 'b' 2 (fun c => c == '0' || c == '1')
  <|> inBase 'o' 8 (fun c => '0' ≤ c && c ≤ '7')
  <|> inBase 'x' 16 isHexDigit
  <|> inTen

/-- A keyword. -/
def keyword : Reader Literal :=
  (do exact "null".toList; return .null)
  <|> (do exact "true".toList; return .boolean true)
  <|> (do exact "false".toList; return .boolean false)

/-- A value without annotation. -/
def literal : Reader Literal := Literal.string <$> string <|> keyword <|> number

/-- A value. -/
def value : Reader Value := do
  let a ← optional? annotation
  return ⟨a, ← literal⟩

/-! ## Nodes -/

/-- Something behind a node's name. -/
inductive Entry where
  | argument (v : Value)
  | property (name : String) (v : Value)

/-- A literal, which is an argument, or a string with a value behind it, which is a property. -/
def literalEntry : Reader Entry := do
  let l ← literal
  match ← optional? (do exact ['=']; value), l with
  | none, l => return .argument ⟨none, l⟩
  | some v, .string n => return .property n v
  | some _, _ => failure

/-- One argument or property. -/
def entry : Reader Entry :=
  literalEntry
  <|> (do
    let n ← bareWord
    exact ['=']
    return .property n (← value))
  <|> (do
    let a ← annotation
    return .argument ⟨some a, ← literal⟩)

/-- The sign that leaves out what follows it. -/
def leaveOut : Reader Unit := do
  exact ['/', '-']
  skip (many nodeSpace)

/-- One argument or property, or nothing where it is left out. -/
def entryOrNone : Reader (Option Entry) := do
  let _ ← many1 nodeSpace
  (do leaveOut; let _ ← entry; return none) <|> (do return some (← entry))

mutual

/-- A node that nests to the given depth. -/
def node : Nat → Reader Node
  | 0 => failure
  | depth + 1 => do
    let a ← optional? annotation
    let n ← name
    let entries := (← many entryOrNone).filterMap id
    let children ← optional? (block depth)
    let _ ← many nodeSpace
    terminator
    return {
      annotation := a
      name := n
      arguments := entries.filterMap fun | .argument v => some v | .property .. => none
      properties := entries.filterMap fun | .property n v => some (n, v) | .argument _ => none
      children := children.getD [] }

/-- The children of a node in their braces; none where they are left out. -/
def block : Nat → Reader (List Node)
  | 0 => failure
  | depth + 1 => do
    let _ ← many nodeSpace
    let out ← optional? leaveOut
    exact ['\x7b']
    let children ← nodes depth
    exact ['\x7d']
    return if out.isSome then [] else children

/-- A row of nodes, the ones that are left out not counted. -/
def nodes : Nat → Reader (List Node)
  | 0 => failure
  | depth + 1 => do
    let _ ← many lineSpace
    let row ← many (do
      let out ← optional? leaveOut
      let n ← node depth
      let _ ← many lineSpace
      return if out.isSome then none else some n)
    return row.filterMap id

end

/-- The nodes of a document; `none` when the text is no document. -/
def document (text : List Char) : Option (List Node) :=
  ((do
    let ns ← nodes (3 * text.length + 3)
    atEnd
    return ns) : Reader (List Node)) text |>.map (·.1)

end ShaderBuild.Kdl
