import ShaderBuild.Session
import ShaderBuild.Text.Blank
import ShaderBuild.Text.Fold
import ShaderBuild.Text.Search

/-!
# Marked regions

A target header holds regions between two marker comments, `// BeginTag` and `// EndTag`, in any
case and with any blanks behind the slashes. Generated text goes between the markers, behind a
line feed; the markers and everything around them stay. A header is only written when its text
changes.

Main definitions: `splice`, `spliceAll`, `replace`.
-/

namespace ShaderBuild.Target

open Text

/-- A tag and the text for its region. -/
structure Region where
  tag : String
  content : String
deriving DecidableEq, Repr

/-- Reads a marker comment with the given word at the front of a text: the comment as it is
spelled, and the rest. -/
def marker? (word s : List Char) : Option (List Char × List Char) :=
  match s with
  | '/' :: '/' :: r =>
    (afterWord word (trimLeft r)).map fun rest => (s.take (s.length - rest.length), rest)
  | _ => none

/-- The leftmost such marker: the text through it, and the rest. -/
def throughMarker? (word s : List Char) : Option (List Char × List Char) :=
  (search (marker? word) s).map fun (before, comment, rest) => (before ++ comment, rest)

/-- The leftmost such marker: the text from it on. -/
def fromMarker? (word s : List Char) : Option (List Char) :=
  (search (marker? word) s).map fun (_, comment, rest) => comment ++ rest

/-- The text with the content in the region of the tag, if it has one. The region goes from the
leftmost opening marker to the first closing marker behind it. -/
def splice (tag content text : List Char) : Option (List Char) := do
  let (head, rest) ← throughMarker? ("Begin".toList ++ tag) text
  let tail ← fromMarker? ("End".toList ++ tag) rest
  return head ++ '\n' :: content ++ tail

/-- The text with the contents of all regions, one after the other, or the tag of the first
region that is missing. -/
def spliceAll (text : List Char) : List Region → Except String (List Char)
  | [] => .ok text
  | r :: rs =>
    match splice r.tag.toList r.content.toList text with
    | none => .error r.tag
    | some text => spliceAll text rs

/-- Writes the contents of the regions into a header that is there, unless that keeps its text.
Tells whether it was written. -/
def update (p : Path) (regions : List Region) : Action Bool := do
  let old ← Action.look p (·.readText p)
  match spliceAll old regions with
  | .error tag => throw (.missingMarker tag p)
  | .ok new =>
    if new = old then
      Action.tell (.headerUnchanged p)
      return false
    else
      Action.changeAt p (·.writeText p new)
      Action.tell (.headerWritten p)
      return true

/-- Replaces the regions of the header at a path. Tells whether it was written. -/
def replace (p : Path) (regions : List Region) : Action Bool := do
  if !(← Action.tree).isFile p then throw (.missingTarget p)
  update p regions

end ShaderBuild.Target
