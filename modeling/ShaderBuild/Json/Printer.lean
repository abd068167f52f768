import ShaderBuild.Json.Value

/-!
# Printing JSON

Every item and member stands on a line of its own, two blanks further in than its container;
empty containers are printed without a line end.
-/

namespace ShaderBuild.Json

/-- A line end and the blanks in front of the next line. -/
def newLine (indent : Nat) : List Char := '\n' :: List.replicate (2 * indent) ' '

/-- Puts the pieces of a container on lines of their own. -/
def block (opening closing : Char) (indent : Nat) : List (List Char) → List Char
  | [] => [opening, closing]
  | p :: ps =>
    opening :: newLine (indent + 1) ++ p
      ++ ps.flatMap (fun q => ',' :: newLine (indent + 1) ++ q)
      ++ newLine indent ++ [closing]

mutual

/-- The text of a value whose container is `indent` levels deep. -/
def print (indent : Nat) : Json → List Char
  | .null => "null".toList
  | .boolean true => "true".toList
  | .boolean false => "false".toList
  | .number s => s
  | .string s => '"' :: s ++ ['"']
  | .array items => block '[' ']' indent (printItems (indent + 1) items)
  | .object members => block '\x7b' '\x7d' indent (printMembers (indent + 1) members)

/-- The texts of items. -/
def printItems (indent : Nat) : List Json → List (List Char)
  | [] => []
  | j :: js => print indent j :: printItems indent js

/-- The texts of members. -/
def printMembers (indent : Nat) : List (List Char × Json) → List (List Char)
  | [] => []
  | (key, j) :: ms => ('"' :: key ++ ['"', ':', ' '] ++ print indent j) :: printMembers indent ms

end

/-- The text of a value. -/
def pretty (j : Json) : List Char := print 0 j

end ShaderBuild.Json
