/-!
# Lines

A text is read line by line: a line feed ends a line, one carriage return directly before it
belongs to the line end, and an empty remainder after the last line feed is no line. A carriage
return at the very end of the text, with no line feed behind it, stays in the line.
-/

namespace ShaderBuild.Text

/-- The line whose characters are given last one first, without a carriage return at its end. -/
def closeLine : List Char → List Char
  | '\r' :: r => r.reverse
  | r => r.reverse

/-- The lines of `s` when `done`, last character first, is the start of the current one. -/
def linesFrom (done : List Char) : List Char → List (List Char)
  | [] => if done.isEmpty then [] else [done.reverse]
  | '\n' :: r => closeLine done :: linesFrom [] r
  | c :: r => linesFrom (c :: done) r

/-- The lines of a text, without their ends. -/
def lines (s : List Char) : List (List Char) := linesFrom [] s

/-- The lines of a text with their numbers, the first one being line 1. -/
def numberedLines (s : List Char) : List (Nat × List Char) :=
  (lines s).zipIdx.map fun (l, i) => (i + 1, l)

example : lines "a\r\nb\n\nc\r".toList = ["a".toList, "b".toList, [], "c\r".toList] := rfl
example : lines "a\n".toList = ["a".toList] := rfl

end ShaderBuild.Text
