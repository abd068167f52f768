import ShaderBuild.Proofs.Hlsl.FieldType
import ShaderBuild.Proofs.Hlsl.Outline
import ShaderBuild.Proofs.Text.Word
import ShaderBuild.Target.Header

/-!
# The constant buffers that are generated

The region is made of one struct definition for each constant buffer (`IsLayout`), and a definition
has a member for each field, in order. What a member is worth is read off its text: a type of the
engine holds some scalars (`Holds`), and each bracket that is appended to the field's own ones
multiplies them.

A member has as many scalars as the type in the shader, unless that has one column and several
rows: such a type is taken for a scalar, so that its rows are lost
(`constant_buffers_keep_shapes`, `OneColumn.rows_are_lost`).
-/

namespace ShaderBuild

open Hlsl Text

namespace Engine

/-! ## What a member holds -/

/-- How many scalars a value of a type of the engine holds. -/
inductive Holds : String → Nat → Prop
  | scalar (s : Scalar) : Holds (scalarName s) 1
  | vec (n : Extent) : Holds ("Vec" ++ toString n.toNat) n.toNat
  | mat4 : Holds "Mat4" 16

/-- The text of a row of brackets. -/
def brackets (extents : List Nat) : String :=
  String.join (extents.map fun n => "[" ++ toString n ++ "]")

/-- By how much a row of brackets multiplies the scalars of a type. -/
def factor (extents : List Nat) : Nat := extents.foldr (· * ·) 1

@[simp] theorem factor_nil : factor [] = 1 := rfl

@[simp] theorem factor_cons (n : Nat) (extents : List Nat) :
    factor (n :: extents) = n * factor extents := rfl

/-- A member for a declared field: it has the name and the brackets of the field. If the type of
the field is a scalar type with a shape, the member has as many scalars for one element as `size`
says, and a named type stays as it is. -/
def Keeps (size : Extent → Extent → Nat) (d : Declaration) (member : String) : Prop :=
  ∃ (type : String) (appended : List Nat),
    member = type ++ " " ++ String.ofList d.name.text ++ String.ofList (d.groups.flatMap source)
      ++ brackets appended ++ ";" ∧
    (∀ (s : Scalar) columns rows, FieldType.Spells d.type.text ⟨.scalar s, columns, rows⟩ →
      ∃ n, Holds type n ∧ n * factor appended = size columns rows) ∧
    ∀ name, FieldType.Spells d.type.text ⟨.named name, .one, .one⟩ → type = name ∧ appended = []

/-- How many scalars a value of a shape has in the shader. -/
def shaderSize (columns rows : Extent) : Nat := columns.toNat * rows.toNat

/-- How many scalars are declared for a shape: those it has, but only one for a single column. -/
def memberSize (columns rows : Extent) : Nat :=
  if columns = .one then 1 else shaderSize columns rows

theorem memberSize_eq_shaderSize_iff (columns rows : Extent) :
    memberSize columns rows = shaderSize columns rows ↔ columns ≠ .one ∨ rows = .one := by
  cases columns <;> cases rows <;> decide

theorem declaration_eq (m : Member) : m.declaration =
    m.type.name ++ " " ++ m.name ++ m.array ++ brackets (m.shape.map Extent.toNat) ++ ";" := by
  rw [Member.declaration, brackets, List.map_map]
  rfl

/-- The types that a scalar type with a shape may become, with the brackets that are appended. -/
theorem ofField_cases {f : Field} {s : Scalar} (h : f.type.base = .scalar s) :
    f.type.columns = .one ∧ (Member.ofField f).type = .base (.scalar s) ∧
      (Member.ofField f).shape = [] ∨
    f.type.columns ≠ .one ∧ f.type.rows = .one ∧
      (Member.ofField f).type = .vec f.type.columns ∧ (Member.ofField f).shape = [] ∨
    f.type.columns ≠ .one ∧ f.type.rows = .one ∧
      (Member.ofField f).type = .base (.scalar s) ∧
      (Member.ofField f).shape = [f.type.columns] ∨
    f.type.columns = .four ∧ f.type.rows = .four ∧
      (Member.ofField f).type = .mat4 ∧ (Member.ofField f).shape = [] ∨
    f.type.columns ≠ .one ∧ (Member.ofField f).type = .base (.scalar s) ∧
      (Member.ofField f).shape = [f.type.columns, f.type.rows] := by
  obtain ⟨interpolation, ⟨base, columns, rows⟩, array, name, semantic⟩ := f
  obtain rfl : base = .scalar s := h
  unfold Member.ofField FieldType.isVector FieldType.isMatrix
  by_cases hcolumns : columns = .one
  · simp [hcolumns]
  · by_cases hrows : rows = .one
    · by_cases hfloat : s = .float <;> simp [hcolumns, hrows, hfloat]
    · by_cases hmat : (s = .float ∧ columns = .four) ∧ rows = .four
      · simp [hmat]
      · simp [hcolumns, hrows, hmat]

/-- The scalars of a member's type times its appended brackets are what is declared. -/
theorem holds_ofField {f : Field} {s : Scalar} (h : f.type.base = .scalar s) :
    ∃ n, Holds (Member.ofField f).type.name n ∧
      n * factor ((Member.ofField f).shape.map Extent.toNat)
        = memberSize f.type.columns f.type.rows := by
  rcases ofField_cases h with ⟨hone, htype, hshape⟩ | ⟨hcolumns, hrows, htype, hshape⟩ |
    ⟨hcolumns, hrows, htype, hshape⟩ | ⟨hcolumns, hrows, htype, hshape⟩ | ⟨hcolumns, htype, hshape⟩
  · rw [htype, hshape]
    exact ⟨1, .scalar s, by simp [memberSize, hone]⟩
  · rw [htype, hshape]
    exact ⟨_, .vec f.type.columns, by simp [memberSize, shaderSize, hcolumns, hrows, Extent.toNat]⟩
  · rw [htype, hshape]
    exact ⟨1, .scalar s, by simp [memberSize, shaderSize, hcolumns, hrows, Extent.toNat]⟩
  · rw [htype, hshape, hcolumns, hrows]
    exact ⟨16, .mat4, rfl⟩
  · rw [htype, hshape]
    exact ⟨1, .scalar s, by simp [memberSize, shaderSize, hcolumns]⟩

/-- A member of a named type has that type, and no brackets are appended. -/
theorem ofField_named {f : Field} {name : String} (h : f.type = ⟨.named name, .one, .one⟩) :
    (Member.ofField f).type.name = name ∧ (Member.ofField f).shape = [] := by
  obtain ⟨interpolation, type, array, fieldName, semantic⟩ := f
  obtain rfl : type = ⟨.named name, .one, .one⟩ := h
  exact ⟨rfl, rfl⟩

/-- The member of a declared field keeps what is declared for its shape. -/
theorem keeps_declaration (d : Declaration) :
    Keeps memberSize d (Member.ofField d.field).declaration := by
  refine ⟨_, _, declaration_eq _, fun s columns rows hspells => ?_, fun name hspells => ?_⟩
  · have htype : d.field.type = ⟨.scalar s, columns, rows⟩ := FieldType.spells_iff.1 hspells
    have hbase : d.field.type.base = .scalar s := by rw [htype]
    obtain ⟨n, hn, hsize⟩ := holds_ofField hbase
    rw [htype] at hsize
    exact ⟨n, hn, hsize⟩
  · obtain ⟨htype, hshape⟩ := ofField_named (f := d.field) (FieldType.spells_iff.1 hspells)
    exact ⟨htype, by rw [hshape]; rfl⟩

end Engine

namespace Target

open Engine

/-! ## The text of the region -/

/-- The definition of a struct with the given members, one a line. -/
def definition (name : String) (members : List String) : String :=
  "struct " ++ name ++ "\n\x7b" ++ String.join (members.map ("\n\t" ++ ·)) ++ "\n\x7d;\n"

theorem structDefinition_eq (s : Struct) : structDefinition s =
    definition s.name (s.fields.map fun f => (Member.ofField f).declaration) := by
  rw [structDefinition, definition, List.map_map]
  rfl

/-- A text of blocks with an empty line between neighbours. -/
def IsLayout (content : String) (blocks : List String) : Prop :=
  if blocks = [] then content = "\n"
  else content ++ "\n" = String.join (blocks.map (· ++ "\n"))

/-- Definitions are laid out with an empty line between neighbours. -/
theorem isLayout_joinBlocks {blocks : List String}
    (h : ∀ b ∈ blocks, ∃ name members, b = definition name members) :
    IsLayout (joinBlocks blocks) blocks := by
  unfold IsLayout
  rcases List.eq_nil_or_concat' blocks with rfl | ⟨init, last, rfl⟩
  · rfl
  · obtain ⟨name, members, rfl⟩ := h last (by simp)
    obtain ⟨front, hfront⟩ : ∃ front, (String.join ((init ++ [definition name members]).map
        (· ++ "\n"))).toList = front ++ ';' :: ['\n', '\n'] :=
      ⟨(String.join (init.map (· ++ "\n")) ++ ("struct " ++ name ++ "\n\x7b"
        ++ String.join (members.map ("\n\t" ++ ·)) ++ "\n\x7d")).toList, by simp [definition]⟩
    -- nothing but the two line feeds behind the last semicolon is trimmed
    have htrim : trimRight (front ++ ';' :: ['\n', '\n']) = front ++ [';'] :=
      trimRight_append_cons (by decide) front ['\n', '\n']
    rw [if_neg (by simp), joinBlocks, hfront, htrim, ← String.toList_inj, hfront]
    simp

/-- **The region of the constant buffer header** has the definition of each constant buffer. -/
theorem isLayout_constantBuffers (ss : List Struct) : IsLayout (constantBuffers ss).content
    ((withRole .constantBuffer ss).map structDefinition) := by
  refine isLayout_joinBlocks fun b hb => ?_
  obtain ⟨s, -, rfl⟩ := List.mem_map.1 hb
  exact ⟨_, _, structDefinition_eq s⟩

/-! ## From the shader to the header -/

/-- The constant buffers that are read from a text are defined in the header, in order: each under
its name, with a member for each field that keeps the shape of its declaration. -/
def KeepsShapes (size : Extent → Extent → Nat) (path : Path) (text : List Char)
    (ss : List Struct) : Prop :=
  ∃ os definitions, Outlined (tokens text) os ∧
    List.Forall₂ (Struct.DeclaredIn path) os ss ∧
    IsLayout (constantBuffers ss).content definitions ∧
    List.Forall₂ (fun s text => ∃ o ∈ os, Struct.DeclaredIn path o s ∧
      ∃ members, text = definition s.name members ∧
        List.Forall₂ (fun fragment member => ∃ d rest, DeclaredBy fragment d rest ∧
          Keeps size d member) o.members members)
      (withRole .constantBuffer ss) definitions

/-- **Constant buffers keep their shape.** For every text that is read, the region has one
definition for each constant buffer, in order, with the same name and a member for each field, in
order. A member has as many scalars for one element as the type of the field, unless that has a
single column and several rows: then it has only one. -/
theorem constant_buffers_keep_shapes {path : Path} {text : List Char} {ss : List Struct}
    (h : structs path text = .ok ss) :
    KeepsShapes memberSize path text ss ∧
      ∀ columns rows, memberSize columns rows = shaderSize columns rows ↔
        columns ≠ .one ∨ rows = .one := by
  refine ⟨?_, memberSize_eq_shaderSize_iff⟩
  obtain ⟨os, houtlined⟩ := exists_outlined h
  have hdeclared : List.Forall₂ (Struct.DeclaredIn path) os ss := by
    rw [structs, structsOf_of_outlined houtlined, mapM_ok_iff] at h
    exact h.imp fun o s hread => Outline.read_ok_iff.1 hread
  refine ⟨os, _, houtlined, hdeclared, isLayout_constantBuffers ss, ?_⟩
  rw [List.forall₂_map_right_iff, List.forall₂_same]
  intro s hs
  obtain ⟨o, ho, hos⟩ := exists_left_of_forall₂ hdeclared (List.mem_of_mem_filter hs)
  refine ⟨o, ho, hos, _, structDefinition_eq s, ?_⟩
  obtain ⟨fields, rfl, hfields⟩ := hos
  rw [List.forall₂_map_right_iff]
  refine hfields.imp ?_
  rintro fragment f ⟨d, rest, hdeclaredBy, rfl, -⟩
  exact ⟨d, rest, hdeclaredBy, keeps_declaration d⟩

/-- A vertex layout between two constant buffers, whose fields have a matrix, a vector with
brackets, a shape without a type of its own, and a named type. -/
theorem mixed_shapes_kept :
    let text := ("struct A \x7b float4x4 m; int3 c[2]; \x7d; "
      ++ "struct B \x7b float3 p : POSITION; \x7d; "
      ++ "struct C \x7b half3x2 h; Light l[4]; \x7d;").toList
    ∃ ss, structs ⟨"a.hlsl"⟩ text = .ok ss ∧ KeepsShapes memberSize ⟨"a.hlsl"⟩ text ss := by
  intro text
  have hread : ∃ ss, structs ⟨"a.hlsl"⟩ text = .ok ss := by
    refine ⟨[⟨"A", [⟨none, ⟨.scalar .float, .four, .four⟩, "", "m", none⟩,
        ⟨none, ⟨.scalar .int, .three, .one⟩, "[2]", "c", none⟩], .constantBuffer, ⟨"a.hlsl"⟩, 1⟩,
      ⟨"B", [⟨none, ⟨.scalar .float, .three, .one⟩, "", "p", some "POSITION"⟩], .vertexLayout,
        ⟨"a.hlsl"⟩, 1⟩,
      ⟨"C", [⟨none, ⟨.scalar .half, .three, .two⟩, "", "h", none⟩,
        ⟨none, ⟨.named "Light", .one, .one⟩, "[4]", "l", none⟩], .constantBuffer,
        ⟨"a.hlsl"⟩, 1⟩], ?_⟩
    decide +kernel
  obtain ⟨ss, hss⟩ := hread
  exact ⟨ss, hss, (constant_buffers_keep_shapes hss).1⟩

/-! ## One column -/

namespace OneColumn

/-- A struct whose field has one column and three rows. -/
def text : List Char := "struct A \x7b float1x3 a; \x7d;".toList

/-- The type and the name of the field. -/
def type : Token := ⟨[' '], .word, "float1x3".toList, 1⟩
def name : Token := ⟨[' '], .word, ['a'], 1⟩

/-- The struct as it stands in the text. -/
def outline : Outline where
  keyword := ⟨[], .word, "struct".toList, 1⟩
  name := ⟨[' '], .word, ['A'], 1⟩
  fragments := [[type, name], []]

/-- The struct as it is read. -/
def struct : Struct where
  name := "A"
  fields := [⟨none, ⟨.scalar .float, .one, .three⟩, "", "a", none⟩]
  role := .constantBuffer
  path := ⟨"a.hlsl"⟩
  line := 1

theorem structs_text : structs ⟨"a.hlsl"⟩ text = .ok [struct] := by decide +kernel

theorem content_struct :
    (constantBuffers [struct]).content = definition "A" ["float a;"] := by
  decide +kernel

/-- No other declarations are found in the text. -/
theorem outlined_unique {os : List Outline} (h : Outlined (tokens text) os) : os = [outline] := by
  have htokens : tokens text = outline.keyword :: outline.name ::
      ⟨[' '], .mark, ['\x7b'], 1⟩ :: [type, name, ⟨[], .mark, [';'], 1⟩,
        ⟨[' '], .mark, ['\x7d'], 1⟩, ⟨[], .mark, [';'], 1⟩] := by
    decide +kernel
  rw [htokens] at h
  cases h with
  | other hword => cases hword
  | unnamed _ hname => exact absurd rfl hname
  | bodiless _ _ hbrace => cases hbrace
  | declared _ _ _ hbody hrest =>
    cases hbody
    cases hrest with
    | other _ hrest =>
      cases hrest
      rfl
    | lastKeyword hword => cases hword

/-- The field has one declaration. -/
theorem eq_of_declaredBy {d : Declaration} {rest : List Token}
    (h : DeclaredBy [type, name] d rest) : d.type = type ∧ d.name = name ∧ d.groups = [] := by
  have htokens := h.tokens_eq
  unfold Declaration.tokens at htokens
  cases hmodifier : d.modifier with
  | some t =>
    obtain ⟨-, hkeyword⟩ := d.modifies t hmodifier
    rw [hmodifier] at htokens
    obtain rfl : type = t := (List.cons.inj htokens).1
    cases hkeyword
  | none =>
    rw [hmodifier] at htokens
    obtain ⟨htype, htokens⟩ := List.cons.inj htokens
    obtain ⟨hname, hnothing⟩ := List.cons.inj htokens
    have hempty : d.groups.flatten = [] :=
      (List.append_eq_nil_iff.1 (List.append_eq_nil_iff.1 hnothing.symm).1).1
    refine ⟨htype.symm, hname.symm, List.eq_nil_iff_forall_not_mem.2 fun g hg => ?_⟩
    have hgroup := d.closed g hg
    rw [List.flatten_eq_nil_iff.1 hempty g hg] at hgroup
    cases hgroup

/-- The member that is declared is one scalar. -/
theorem holds_one {type : String} {appended : List Nat} {n : Nat}
    (h : "float a;" = type ++ " " ++ "a" ++ "" ++ brackets appended ++ ";") (hn : Holds type n) :
    n * factor appended = 1 := by
  have hlists := congrArg String.toList h
  obtain rfl : appended = [] := by
    cases appended with
    | nil => rfl
    | cons m appended =>
      have hmem : '[' ∈ "float a;".toList := by
        rw [hlists]
        simp [brackets]
      exact absurd hmem (by decide)
  have htype : type.toList ++ " a;".toList = "float".toList ++ " a;".toList := by
    simpa [brackets] using hlists.symm
  obtain rfl := String.toList_inj.1 (List.append_cancel_right htype)
  generalize hfloat : "float" = type at hn
  cases hn with
  | scalar => rfl
  | vec m =>
    have := congrArg String.toList hfloat
    simp at this
  | mat4 => exact absurd hfloat (by decide)

/-- Two of the three rows are lost: the member that is declared for the field is a single scalar. -/
theorem rows_are_lost :
    structs ⟨"a.hlsl"⟩ text = .ok [struct] ∧
      (constantBuffers [struct]).content = definition "A" ["float a;"] ∧
      ¬ KeepsShapes shaderSize ⟨"a.hlsl"⟩ text [struct] := by
  refine ⟨structs_text, content_struct, ?_⟩
  rintro ⟨os, definitions, houtlined, -, hlayout, hdefinitions⟩
  obtain rfl := outlined_unique houtlined
  rw [show withRole .constantBuffer [struct] = [struct] from rfl] at hdefinitions
  cases hdefinitions with
  | cons hdefinition hrest =>
    cases hrest
    obtain ⟨o, ho, -, members, rfl, hmembers⟩ := hdefinition
    obtain rfl := List.mem_singleton.1 ho
    cases hmembers with
    | cons hmember hrest =>
      cases hrest
      obtain ⟨d, rest, hdeclared, type, appended, rfl, hscalar, -⟩ := hmember
      obtain ⟨htype, hname, hgroups⟩ := eq_of_declaredBy hdeclared
      have hmember : "float a;" = type ++ " " ++ "a" ++ "" ++ brackets appended ++ ";" := by
        rw [content_struct, IsLayout, if_neg (by simp)] at hlayout
        have hlists := congrArg String.toList hlayout
        have hends : "float a;".toList ++ "\n\x7d;\n\n".toList =
            (type ++ " " ++ "a" ++ "" ++ brackets appended ++ ";").toList ++
              "\n\x7d;\n\n".toList := by
          simpa [definition, struct, hname, hgroups, name] using hlists
        exact String.toList_inj.1 (List.append_cancel_right hends)
      obtain ⟨n, hn, hsize⟩ := hscalar .float .one .three (by
        rw [htype]
        exact .scalar .float (.matrix .one .three))
      rw [holds_one hmember hn] at hsize
      cases hsize

end OneColumn

end Target

end ShaderBuild
