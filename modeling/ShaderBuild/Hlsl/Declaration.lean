import ShaderBuild.Error
import ShaderBuild.Hlsl.Struct
import ShaderBuild.Hlsl.Token
import ShaderBuild.Sorting

/-!
# Struct declarations

Reads every declaration `struct Name { … }` of a text. The body is cut at the semicolons that
stand in no inner brace, each fragment is one field, and fragments without tokens are skipped. A
name without a body (a forward declaration, a variable) declares nothing here.

Main definitions: `Field.ofFragment`, `structs` (of one text), `duplicates`.
-/

namespace ShaderBuild.Hlsl

/-! ## Fields -/

/-- Cuts a row of tokens behind the bracket that closes the first one, which is open `depth`
times already. -/
def splitBrackets (depth : Nat) : List Token → Option (List Token × List Token)
  | [] => none
  | t :: ts =>
    let inner := if t.isMark '[' then depth + 1 else if t.isMark ']' then depth - 1 else depth
    if inner = 0 then some ([t], ts)
    else (splitBrackets inner ts).map fun (group, rest) => (t :: group, rest)

/-- What remains behind a bracket group is shorter. -/
theorem length_of_splitBrackets {depth : Nat} {ts group rest : List Token}
    (h : splitBrackets depth ts = some (group, rest)) : rest.length < ts.length := by
  induction ts generalizing depth group with
  | nil => simp [splitBrackets] at h
  | cons t ts ih =>
    rw [splitBrackets] at h
    dsimp only at h
    generalize (if t.isMark '[' then depth + 1 else if t.isMark ']' then depth - 1 else depth)
      = inner at h
    split at h
    · cases h; simp
    · obtain ⟨⟨g, r⟩, hm, he⟩ := Option.map_eq_some_iff.1 h
      cases he
      exact Nat.lt_succ_of_lt (ih hm)

/-- The bracket groups in front of a row of tokens, in their own spelling, and the rest; `none`
when a bracket is not closed. -/
def arrayGroups (ts : List Token) : Option (List Char × List Token) :=
  if (ts.head?.map (·.isMark '[')).getD false then
    match _h : splitBrackets 0 ts with
    | none => none
    | some (group, rest) => (arrayGroups rest).map fun (more, r) => (source group ++ more, r)
  else some ([], ts)
termination_by ts.length
decreasing_by exact length_of_splitBrackets _h

/-- The semantic in front of a row of tokens. -/
def semantic? : List Token → Option String
  | colon :: word :: _ =>
    if colon.isMark ':' && word.kind == .word then some (String.ofList word.text) else none
  | _ => none

/-- The interpolation modifier in front of a row of tokens, and the rest. -/
def modifier : List Token → Option Interpolation × List Token
  | [] => (none, [])
  | t :: ts =>
    match if t.kind = .word then Interpolation.ofKeyword? t.text else none with
    | some i => (some i, ts)
    | none => (none, t :: ts)

/-- Reads a field from the tokens of its fragment; `none` when it is malformed. Type and name
must be parted, and tokens behind the semantic are not looked at. -/
def Field.ofTokens? (fragment : List Token) : Option Field :=
  if fragment.any (·.isMark '\x7b') then none
  else
    let (interpolation, rest) := modifier fragment
    match rest with
    | type :: name :: rest =>
      if type.kind = .word ∧ name.kind = .word ∧ name.gap ≠ [] then
        (arrayGroups rest).map fun (array, rest) =>
          { interpolation
            type := FieldType.ofName type.text
            array := String.ofList array
            name := String.ofList name.text
            semantic := semantic? rest }
      else none
    | _ => none

/-- Reads a field, or reports its fragment with the line it starts in. -/
def Field.ofFragment (path : Path) (fragment : List Token) : Except Error Field :=
  match Field.ofTokens? fragment with
  | some f => .ok f
  | none =>
    .error (.malformedField (String.ofList (source fragment)) path
      ((fragment.head?.map (·.line)).getD 0))

/-! ## Bodies -/

/-- A body cut into its fragments, and what follows the closing brace if there is one. -/
structure Body where
  fragments : List (List Token)
  rest : Option (List Token)

/-- Cuts the tokens behind an opening brace. `depth` counts the inner braces that are open, and
`fragment` holds the tokens of the current fragment, last one first. -/
def Body.ofTokens (depth : Nat) (fragment : List Token) : List Token → Body
  | [] => ⟨[], none⟩
  | t :: ts =>
    if t.isMark '\x7b' then ofTokens (depth + 1) (t :: fragment) ts
    else if t.isMark '\x7d' then
      if depth = 0 then ⟨[fragment.reverse], some ts⟩
      else ofTokens (depth - 1) (t :: fragment) ts
    else if t.isMark ';' && depth == 0 then
      let more := ofTokens 0 [] ts
      { more with fragments := fragment.reverse :: more.fragments }
    else ofTokens depth (t :: fragment) ts

/-- What follows a body is shorter than the body. -/
theorem Body.length_rest {depth : Nat} {fragment ts rest : List Token}
    (h : (Body.ofTokens depth fragment ts).rest = some rest) : rest.length < ts.length := by
  fun_induction Body.ofTokens depth fragment ts with
  | case1 => cases h
  | case3 => cases h; simp
  | case2 _ _ _ _ _ ih => exact Nat.lt_succ_of_lt (ih h)
  | case4 _ _ _ _ _ _ _ ih => exact Nat.lt_succ_of_lt (ih h)
  | case5 _ _ _ _ _ _ _ _ ih => exact Nat.lt_succ_of_lt (ih h)
  | case6 _ _ _ _ _ _ _ ih => exact Nat.lt_succ_of_lt (ih h)

/-! ## Declarations -/

/-- Reads the fragments of a body, first to last; empty ones declare nothing. -/
def fieldsOf (path : Path) (fragments : List (List Token)) : Except Error (List Field) :=
  (fragments.filter fun f => !f.isEmpty).mapM (Field.ofFragment path)

/-- Reads the struct declarations of a row of tokens, in order. -/
def structsOf (path : Path) : List Token → Except Error (List Struct)
  | [] => .ok []
  | keyword :: ts =>
    if keyword.isWord "struct" then
      match ts with
      | [] => .ok []
      | name :: body =>
        if name.kind = .word then
          match body with
          | [] => .ok []
          | brace :: inner =>
            if brace.isMark '\x7b' then
              let body := Body.ofTokens 0 [] inner
              match _h : body.rest with
              | none => do
                let _ ← fieldsOf path body.fragments
                .error (.unterminatedStruct (String.ofList name.text) path keyword.line)
              | some rest => do
                let fields ← fieldsOf path body.fragments
                let more ← structsOf path rest
                .ok (⟨String.ofList name.text, fields, Role.ofFields fields, path,
                  keyword.line⟩ :: more)
            else structsOf path (brace :: inner)
        else if name.isMark '\x7b' then .error (.namelessStruct path keyword.line)
        else structsOf path (name :: body)
    else structsOf path ts
termination_by ts => ts.length
decreasing_by
  · have := Body.length_rest _h
    simp only [List.length_cons]
    omega
  · simp
  · simp
  · simp

/-- The structs declared in a text, in order. -/
def structs (path : Path) (text : List Char) : Except Error (List Struct) :=
  structsOf path (tokens text)

/-! ## Names that occur twice -/

/-- The names of the structs that are turned into engine code. -/
def exportedNames (ss : List Struct) : List String :=
  (ss.filter (·.role ≠ .vertexOutput)).map (·.name)

/-- The names that more than one exported struct bears, each once, in increasing order. -/
def duplicates (ss : List Struct) : List String :=
  let names := exportedNames ss
  sortBy (fun a b => decide (a ≤ b)) (names.eraseDups.filter fun n => 1 < names.count n)

/-- Exported structs have names of their own; vertex outputs may share theirs. -/
def checkNames (ss : List Struct) : Except Error Unit :=
  match duplicates ss with
  | [] => .ok ()
  | names => .error (.duplicateStructs names)

end ShaderBuild.Hlsl
