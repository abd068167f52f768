import ShaderBuild.Checksum

/-!
# Paths

A path keeps the text it was written with, since messages and compiler arguments show that text.
What it means is its list of *components*: the slash in front, names, steps up and a leading dot.
Empty segments and later dots carry no meaning. Two spellings with the same components are *the
same path* (`sameAs`); a step up after a name is not resolved by that, only by `normalize`.

Main definitions: `components`, `join`, `parent?`, `stem?`, `normalize`, `identity`.
-/

namespace ShaderBuild

/-- A path as it is written, with `/` between its segments. -/
structure Path where
  text : String
deriving DecidableEq, Repr, Inhabited

namespace Path

/-! ## Segments -/

/-- Cuts a text at every slash. -/
def splitSlash : List Char → List (List Char)
  | [] => [[]]
  | c :: r =>
    if c = '/' then [] :: splitSlash r
    else match splitSlash r with
      | [] => [[c]]
      | s :: ss => (c :: s) :: ss

/-- Puts segments together with a slash between neighbours. -/
def joinSlash : List (List Char) → List Char
  | [] => []
  | [s] => s
  | s :: ss => s ++ '/' :: joinSlash ss

/-- The segments of a path, the empty ones and the dots included. -/
def segments (p : Path) : List String := (splitSlash p.text.toList).map String.ofList

/-- The path with the given segments. -/
def ofSegments (ss : List String) : Path := ⟨String.ofList (joinSlash (ss.map String.toList))⟩

/-- Whether the path starts at the root. -/
def isAbsolute (p : Path) : Bool := p.text.toList.head? == some '/'

/-! ## Components -/

/-- What a segment means. -/
inductive Component where
  /-- The slash in front. -/
  | root
  /-- A dot in front of a relative path. -/
  | here
  /-- Two dots. -/
  | up
  | name (n : String)
deriving DecidableEq, Repr

/-- The component a segment stands for when it is not the first one. -/
def Component.ofSegment? (s : String) : Option Component :=
  if s = "" ∨ s = "." then none else if s = ".." then some .up else some (.name s)

/-- The components of a path, first to last. -/
def components (p : Path) : List Component :=
  match p.segments with
  | [] => []
  | s :: ss =>
    let first :=
      if p.isAbsolute then some Component.root
      else if s = "." then some .here
      else Component.ofSegment? s
    first.toList ++ ss.filterMap Component.ofSegment?

/-- The text of a component. -/
def Component.segment : Component → String
  | .root => ""
  | .here => "."
  | .up => ".."
  | .name n => n

/-- The plain spelling of a list of components. -/
def ofComponents : List Component → Path
  | [.root] => ⟨"/"⟩
  | cs => ofSegments (cs.map Component.segment)

/-- Whether two spellings have the same components. -/
def sameAs (a b : Path) : Bool := a.components == b.components

theorem sameAs_iff {a b : Path} : a.sameAs b = true ↔ a.components = b.components := by
  simp [sameAs]

/-! ## Joining and taking apart -/

/-- The path `b` seen from the folder `a`: an absolute `b` stands for itself. -/
def join (a b : Path) : Path :=
  if b.isAbsolute then b
  else match a.text.toList.getLast? with
    | none => b
    | some c => if c = '/' then ⟨a.text ++ b.text⟩ else ⟨a.text ++ "/" ++ b.text⟩

/-- The path of an entry of a folder. -/
def child (folder : Path) (name : String) : Path := folder.join ⟨name⟩

/-- Drops empty segments and dots from the end, given last segment first; the first segment of
the path stays. -/
def dropIdle : List String → List String
  | [] => []
  | [s] => [s]
  | s :: t :: r => if s = "" ∨ s = "." then dropIdle (t :: r) else s :: t :: r

/-- The folder of a path, as a beginning of its text; `none` for the root and the empty path. -/
def parent? (p : Path) : Option Path :=
  match dropIdle p.segments.reverse with
  | [] => none
  | [s] => if s = "" then none else some ⟨""⟩
  | _ :: r =>
    let rest := (dropIdle r).reverse
    some (if p.isAbsolute ∧ rest = [""] then ⟨"/"⟩ else ofSegments rest)

/-- The name a path ends with, if it ends with one. -/
def name? (p : Path) : Option String :=
  match p.components.getLast? with
  | some (.name n) => some n
  | _ => none

/-- The name without the part from its last dot on; a dot in front of the name does not count. -/
def stem? (p : Path) : Option String :=
  p.name?.map fun n =>
    match (n.toList.reverse.dropWhile (· ≠ '.')) with
    | [] | [_] => n
    | _ :: r => String.ofList r.reverse

/-! ## Normal form -/

/-- Takes one more component onto a resolved path, given last component first: a dot is dropped,
a step up takes a name back, and nothing lies above the root. -/
def push : List Component → Component → List Component
  | st, .here => st
  | .name _ :: st, .up => st
  | .root :: st, .up => .root :: st
  | st, c => c :: st

/-- Resolves dots and steps up without looking at any file. -/
def resolve (cs : List Component) : List Component := (cs.foldl push []).reverse

/-- The normal form of a path: no dot, and steps up only in front of a relative path. -/
def normalize (p : Path) : Path := ofComponents (resolve p.components)

/-- The identity of the file at a path: a checksum of its normal form, a backslash counting as a
slash. -/
def identity (p : Path) : UInt32 :=
  Checksum.ofText (p.normalize.text.toList.map fun c => if c = '\\' then '/' else c)

end Path

end ShaderBuild
