/-!
# Blank characters

A character is blank when it has the Unicode property `White_Space`. Tags, defines and marker
comments are trimmed and skipped by this class, which is larger than the ASCII blanks (it holds
the no-break space and the ideographic space) and leaves out the zero-width characters.
-/

namespace ShaderBuild.Text

/-- The Unicode property `White_Space`. -/
def isBlank (c : Char) : Bool :=
  let n := c.toNat
  (0x09 ≤ n && n ≤ 0x0D) || n == 0x20 || n == 0x85 || n == 0xA0 || n == 0x1680
    || (0x2000 ≤ n && n ≤ 0x200A) || n == 0x2028 || n == 0x2029 || n == 0x202F
    || n == 0x205F || n == 0x3000

/-- Drops the blanks in front. -/
def trimLeft (s : List Char) : List Char := s.dropWhile isBlank

/-- Drops the blanks at the end. -/
def trimRight (s : List Char) : List Char := (s.reverse.dropWhile isBlank).reverse

/-- Drops the blanks at both ends. -/
def trim (s : List Char) : List Char := trimRight (trimLeft s)

end ShaderBuild.Text
