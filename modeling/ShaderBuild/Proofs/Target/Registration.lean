import ShaderBuild.Proofs.Directive.Accepted
import ShaderBuild.Proofs.Target.Region
import ShaderBuild.Proofs.Text.ByteOrder

/-!
# Registered names

A compiled output declares a byte array that is named after a directive (`Declares`), and the shader
header registers the array by the name that is read from the output. The reader takes the first
head of an array that it can find, be it written in any case and with blanks anywhere. A head has
one letter O, its second one, and ends with an underscore, so none that starts in front of the
declaration can end within it (`length_le_of_isHead`). The name then goes to the last brackets on
the line (`beforeBrackets?_append`), and as the names of directives are clean, trimming leaves it as
it is.

So the regions of the shader header have one line for each output, in the order of the names of the
files, and both lines of an output tell of the same directive
(`names_are_registered_as_declared`).
-/

namespace ShaderBuild.Target

open Text

/-! ## Outputs -/

/-- A word in some case. -/
def Spelled (word : String) (letters : List Char) : Prop :=
  letters.map fold = word.toList.map fold

/-- The type of a byte array. -/
inductive IsByteType : List Char → Prop
  | unsignedChar {u gap c : List Char} : Spelled "unsigned" u → Blanks gap → Spelled "char" c →
      IsByteType (u ++ (gap ++ c))
  | byte {b : List Char} : Spelled "BYTE" b → IsByteType b

/-- What stands in front of the name of a byte array. -/
inductive IsHead : List Char → Prop
  | mk {const gap type gap' g : List Char} : Spelled "const" const → Blanks gap → IsByteType type →
      Blanks gap' → Spelled "g_" g → IsHead (const ++ (gap ++ (type ++ (gap' ++ g))))

/-- The heads that a compiler writes. -/
def writtenHeads : List (List Char) :=
  ["const BYTE g_".toList, "const unsigned char g_".toList]

/-- A text declares a byte array with a name: there is no head of an array in front of the
declaration, and no pair of brackets behind it on its line. -/
inductive Declares (name : List Char) : List Char → Prop
  | mk (before head after : List Char) : head ∈ writtenHeads →
      (∀ x h y, before = x ++ (h ++ y) → ¬ IsHead h) →
      ¬ "[]".toList <:+: after.takeWhile (· ≠ '\n') →
      Declares name (before ++ (head ++ (name ++ '[' :: ']' :: after)))

/-! ## Letters of a head -/

/-- A letter occurs nowhere in a text, in whatever case. -/
def Lacks (w : Char) (s : List Char) : Prop := ∀ c ∈ s, fold c ≠ fold w

instance (w : Char) (s : List Char) : Decidable (Lacks w s) :=
  decidable_of_iff (s.all (fold · ≠ fold w) = true) (by simp [Lacks])

variable {s v head name before after rest x y gap letters : List Char} {c w : Char} {word : String}

theorem lacks_append (hx : Lacks w x) (hy : Lacks w y) : Lacks w (x ++ y) :=
  fun c hc => (List.mem_append.1 hc).elim (hx c) (hy c)

theorem Spelled.lacks (h : Spelled word letters) (hw : fold w ∉ word.toList.map fold) :
    Lacks w letters := by
  intro c hc heq
  rw [← show letters.map fold = word.toList.map fold from h, ← heq] at hw
  exact hw (List.mem_map_of_mem hc)

theorem lacks_of_blanks (h : Blanks gap) (hw : w.isAlpha = true) : Lacks w gap := by
  intro c hc heq
  have hblank := h c hc
  rw [(of_fold_eq hw heq.symm).1] at hblank
  cases hblank

theorem IsByteType.lacks (h : IsByteType s) : Lacks 'o' s := by
  cases h with
  | unsignedChar hu hgap hc =>
    exact lacks_append (hu.lacks (by decide +kernel))
      (lacks_append (lacks_of_blanks hgap (by decide)) (hc.lacks (by decide +kernel)))
  | byte hb => exact hb.lacks (by decide +kernel)

/-- **A head has one letter O**, which is its second letter. -/
theorem IsHead.lacks_drop (h : IsHead head) : Lacks 'o' (head.drop 2) := by
  obtain @⟨const, gap, type, gap', g, hconst, hgap, htype, hgap', hg⟩ := h
  have hlength : const.length = 5 := by
    have := congrArg List.length hconst
    rwa [List.length_map, List.length_map] at this
  have hrest : Spelled "nst" (const.drop 2) := by
    rw [Spelled, List.map_drop, show const.map fold = _ from hconst]
    rfl
  rw [List.drop_append_of_le_length (by omega)]
  exact lacks_append (hrest.lacks (by decide +kernel))
    (lacks_append (lacks_of_blanks hgap (by decide)) (lacks_append htype.lacks
      (lacks_append (lacks_of_blanks hgap' (by decide)) (hg.lacks (by decide +kernel)))))

/-- A head ends with an underscore. -/
theorem IsHead.fold_getLast? (h : IsHead head) : head.getLast?.map fold = some (fold '_') := by
  obtain @⟨const, gap, type, gap', g, -, -, -, -, hg⟩ := h
  have hlast : g.getLast?.map fold = some (fold '_') := by
    rw [← List.getLast?_map, show g.map fold = _ from hg]
    rfl
  obtain ⟨c, hc, hfold⟩ := Option.map_eq_some_iff.1 hlast
  rw [← List.append_assoc, ← List.append_assoc, ← List.append_assoc, List.getLast?_append, hc]
  exact congrArg some hfold

/-- There is no head in a text without underscores. -/
theorem not_isHead_of_lacks (hlacks : Lacks '_' s) (hs : s = x ++ (head ++ y)) : ¬ IsHead head := by
  intro hhead
  obtain ⟨c, hc, hfold⟩ := Option.map_eq_some_iff.1 hhead.fold_getLast?
  refine hlacks c ?_ hfold
  simp [hs, List.mem_of_getLast? hc]

/-- **No head reaches over the front of another one.** -/
theorem length_le_of_isHead (hfree : ∀ x h y, before = x ++ (h ++ y) → ¬ IsHead h)
    (hhead : IsHead head) (heq : before ++ 'c' :: 'o' :: s = x ++ (head ++ rest)) :
    before.length ≤ x.length := by
  rcases List.append_eq_append_iff.1 heq with ⟨between, rfl, -⟩ | ⟨front, rfl, hfront⟩
  · simp
  · cases front with
    | nil => simp
    | cons a front =>
      exfalso
      rcases List.append_eq_append_iff.1 hfront with ⟨y, hy, -⟩ | ⟨y, hsplit, hy⟩
      · exact hfree x head y (by rw [hy]) hhead
      -- the head goes on into the other one: not at all, to its first letter, or beyond the second
      · cases y with
        | nil => exact hfree x head [] (by simp [hsplit]) hhead
        | cons b y =>
          obtain ⟨rfl, htail⟩ := List.cons.inj hy
          cases y with
          | nil =>
            have hlast := hhead.fold_getLast?
            rw [hsplit, List.getLast?_concat] at hlast
            exact absurd hlast (by decide +kernel)
          | cons b y =>
            obtain ⟨rfl, -⟩ := List.cons.inj htail
            refine hhead.lacks_drop 'o' ?_ rfl
            rw [hsplit, List.append_cons, List.drop_append_of_le_length (by simp)]
            exact List.mem_append_right _ List.mem_cons_self

/-! ## Heads -/

theorem exists_gap (s : List Char) : ∃ gap, Blanks gap ∧ gap ++ trimLeft s = s :=
  ⟨s.takeWhile isBlank, List.all_eq_true.1 List.all_takeWhile, List.takeWhile_append_dropWhile⟩

theorem isByteType_of_afterByteType (h : afterByteType s = some rest) :
    ∃ type, IsByteType type ∧ s = type ++ rest := by
  unfold afterByteType at h
  rcases Option.or_eq_some_iff.1 h with h | ⟨-, h⟩
  · obtain ⟨s₁, hunsigned, hchar⟩ := Option.bind_eq_some_iff.1 h
    obtain ⟨u, rfl, hu⟩ := afterWord_eq_some_iff.1 hunsigned
    obtain ⟨c, hc, hfold⟩ := afterWord_eq_some_iff.1 hchar
    obtain ⟨gap, hgap, hs₁⟩ := exists_gap s₁
    rw [← hs₁, hc]
    exact ⟨u ++ (gap ++ c), .unsignedChar hu hgap hfold, by simp⟩
  · obtain ⟨b, rfl, hb⟩ := afterWord_eq_some_iff.1 h
    exact ⟨b, .byte hb, rfl⟩

theorem isHead_of_arrayAt? (h : arrayAt? s = some v) :
    ∃ head rest, IsHead head ∧ s = head ++ rest := by
  unfold arrayAt? at h
  obtain ⟨s₁, hread₁, h₁⟩ := Option.bind_eq_some_iff.1 h
  obtain ⟨s₂, hread₂, h₂⟩ := Option.bind_eq_some_iff.1 h₁
  obtain ⟨s₃, hread₃, -⟩ := Option.bind_eq_some_iff.1 h₂
  obtain ⟨const, hs, hconst⟩ := afterWord_eq_some_iff.1 hread₁
  obtain ⟨type, htype, hs₁⟩ := isByteType_of_afterByteType hread₂
  obtain ⟨g, hs₂, hg⟩ := afterWord_eq_some_iff.1 hread₃
  obtain ⟨gap, hgap, hgapped⟩ := exists_gap s₁
  obtain ⟨gap', hgap', hgapped'⟩ := exists_gap s₂
  refine ⟨_, s₃, .mk hconst hgap htype hgap' hg, ?_⟩
  rw [hs, ← hgapped, hs₁, ← hgapped', hs₂]
  simp only [List.append_assoc]

theorem arrayAt?_written (hhead : head ∈ writtenHeads) (s : List Char) :
    arrayAt? (head ++ s) = beforeBrackets? s := by
  simp only [writtenHeads, List.mem_cons, List.not_mem_nil, or_false] at hhead
  rcases hhead with rfl | rfl
  · rfl
  · rfl

/-! ## Names -/

/-- Without brackets on the first line there is no name. -/
theorem beforeBrackets?_of_not_infix (h : ¬ "[]".toList <:+: s.takeWhile (· ≠ '\n')) :
    beforeBrackets? s = none := by
  induction s with
  | nil => rfl
  | cons c s ih =>
    rw [beforeBrackets?]
    split
    · rfl
    · next hc =>
      rw [List.takeWhile_cons_of_pos (by simpa using hc)] at h
      rw [ih fun hinfix => h (List.infix_cons hinfix)]
      refine if_neg ?_
      rintro ⟨rfl, hhead⟩
      obtain ⟨r, rfl⟩ := List.head?_eq_some_iff.1 hhead
      refine h ⟨[], r.takeWhile (· ≠ '\n'), ?_⟩
      rw [List.takeWhile_cons_of_pos (by decide)]
      rfl

/-- A name goes to the last brackets on the line. -/
theorem beforeBrackets?_append (hname : '\n' ∉ name)
    (hafter : ¬ "[]".toList <:+: after.takeWhile (· ≠ '\n')) :
    beforeBrackets? (name ++ '[' :: ']' :: after) = some name := by
  induction name with
  | nil =>
    have hnone := beforeBrackets?_of_not_infix hafter
    simp [beforeBrackets?, hnone]
  | cons c name ih =>
    rw [List.mem_cons, not_or] at hname
    rw [List.cons_append, beforeBrackets?, if_neg (Ne.symm hname.1), ih hname.2]

theorem exists_of_mem_writtenHeads (h : head ∈ writtenHeads) : ∃ s, head = 'c' :: 'o' :: s := by
  simp only [writtenHeads, List.mem_cons, List.not_mem_nil, or_false] at h
  rcases h with rfl | rfl
  · exact ⟨"nst BYTE g_".toList, rfl⟩
  · exact ⟨"nst unsigned char g_".toList, rfl⟩

/-- **The name that is read is the one that is declared**, without the blanks around it. -/
theorem arrayName?_of_declares {text : List Char} (h : Declares name text) (hname : '\n' ∉ name) :
    arrayName? text = some (trim name) := by
  obtain ⟨before, head, after, hhead, hfree, hafter⟩ := h
  have hread : arrayAt? (head ++ (name ++ '[' :: ']' :: after)) = some name := by
    rw [arrayAt?_written hhead, beforeBrackets?_append hname hafter]
  unfold arrayName?
  cases hsearch : search arrayAt? (before ++ (head ++ (name ++ '[' :: ']' :: after))) with
  | none =>
    rw [search_eq_none_iff.1 hsearch before _ rfl] at hread
    cases hread
  | some found =>
    obtain ⟨front, v⟩ := found
    obtain ⟨⟨rest, hrest, hv⟩, hfirst⟩ := search_eq_some hsearch
    -- the place is not behind the declaration, and not in front of it
    have hle : front.length ≤ before.length := by
      by_contra hlt
      rw [hfirst before _ rfl (Nat.lt_of_not_le hlt)] at hread
      cases hread
    have hge : before.length ≤ front.length := by
      obtain ⟨s, rfl⟩ := exists_of_mem_writtenHeads hhead
      obtain ⟨head', rest', hhead', rfl⟩ := isHead_of_arrayAt? hv
      exact length_le_of_isHead hfree hhead' hrest
    obtain ⟨-, rfl⟩ := List.append_inj hrest (Nat.le_antisymm hge hle)
    rw [hread] at hv
    rw [Option.map_some, Option.some.inj hv]

/-! ## Registrations -/

/-- A text is an output of a directive that some source declares. -/
def IsOutputOf (d : Directive) (text : List Char) : Prop :=
  (∃ path source ds, Directive.ofText path source = .ok ds ∧ d ∈ ds) ∧
    Declares d.name.toList text

theorem IsOutputOf.isClean {d : Directive} {text : List Char} (h : IsOutputOf d text) :
    d.IsClean := by
  obtain ⟨⟨path, source, ds, hds, hd⟩, -⟩ := h
  exact Directive.isClean_of_ofText hds hd

/-- **The name of a directive is read from its outputs.** -/
theorem arrayName?_of_isOutputOf {d : Directive} {text : List Char} (h : IsOutputOf d text) :
    arrayName? text = some d.name.toList := by
  have hname := h.isClean.name
  rw [arrayName?_of_declares h.2 hname.lineFeed, trim_of_bare hname.bare]

/-! ## The regions of the shader header -/

/-- Some things in a row, each with something that goes with it. -/
theorem exists_rows {α β : Type} {P : α → β → Prop} {as : List α} (h : ∀ a ∈ as, ∃ b, P a b) :
    ∃ rows : List (α × β), rows.map (·.1) = as ∧ ∀ row ∈ rows, P row.1 row.2 := by
  induction as with
  | nil => exact ⟨[], rfl, by simp⟩
  | cons a as ih =>
    obtain ⟨b, hb⟩ := h a List.mem_cons_self
    obtain ⟨rows, rfl, hrows⟩ := ih fun a ha => h a (List.mem_cons_of_mem _ ha)
    exact ⟨(a, b) :: rows, rfl, List.forall_mem_cons.2 ⟨hb, hrows⟩⟩

/-- Lines that are written one after the other are read as they are. -/
theorem lines_join {α : Type} {line : α → String} {rows : List α}
    (h : ∀ row ∈ rows, '\n' ∉ (line row).toList ∧ (line row).toList.getLast? ≠ some '\r') :
    lines (String.join (rows.map fun row => line row ++ "\n")).toList =
      rows.map fun row => (line row).toList := by
  rw [lines_eq_iff]
  induction rows with
  | nil => exact .nil
  | cons row rows ih =>
    obtain ⟨⟨hline, hlast⟩, hrest⟩ := List.forall_mem_cons.1 h
    have hjoin : (String.join ((row :: rows).map fun row => line row ++ "\n")).toList =
        (line row).toList ++ '\n' ::
          (String.join (rows.map fun row => line row ++ "\n")).toList := by
      simp
    rw [hjoin, List.map_cons]
    exact .lineFeed hline hlast (ih hrest)

/-- The include lines of some outputs. -/
def includes (s : Settings) (rows : List (String × Directive)) : String :=
  String.join (rows.map fun row => includeLine s row.1)

/-- The registrations of some outputs. -/
def registrations (rows : List (String × Directive)) : String :=
  String.join (rows.map fun row => registration row.2.name.toList)

variable {s : Settings} {t : FileTree} {rows : List (String × Directive)}

theorem lines_includes (hfolder : '\n' ∉ s.includePrefix.toList)
    (hnames : ∀ row ∈ rows, '\n' ∉ row.1.toList) : lines (includes s rows).toList =
      rows.map fun row => ("\t#include \"" ++ s.includePrefix ++ row.1 ++ "\"").toList := by
  have hline : ∀ n, includeLine s n = "\t#include \"" ++ s.includePrefix ++ n ++ "\"" ++ "\n" := by
    intro n
    have hend : "\"\n" = "\"" ++ "\n" := by decide
    unfold includeLine
    simp only [hend, String.append_assoc]
  simp only [includes, hline]
  refine lines_join fun row hrow => ⟨by simp [hfolder, hnames row hrow], ?_⟩
  rw [String.toList_append, List.getLast?_append]
  simp

theorem lines_registrations (hnames : ∀ row ∈ rows, '\n' ∉ row.2.name.toList) :
    lines (registrations rows).toList =
      rows.map fun row => ("\tINIT_SHADER_BYTECODE(" ++ row.2.name ++ ");").toList := by
  have hline : ∀ d : Directive, registration d.name.toList
      = "\tINIT_SHADER_BYTECODE(" ++ d.name ++ ");" ++ "\n" := by
    intro d
    have hend : ");\n" = ");" ++ "\n" := by decide
    unfold registration
    simp only [hend, String.ofList_toList, String.append_assoc]
  simp only [registrations, hline]
  refine lines_join fun row hrow => ⟨by simp [hnames row hrow], ?_⟩
  rw [String.toList_append, List.getLast?_append]
  simp

/-- **The regions of rows of outputs.** When some rows give the generated files in their order, each
with the directive that it is an output of, then the regions of the shader header are those of the
rows. -/
theorem shaderRegions_of_rows {names : List String}
    (hnames : t.filesIn s.generatedFolder = .ok names)
    (hrows : rows.map (·.1) =
      names.filter fun n => s.generatedExtension.toList.isSuffixOf n.toList)
    (houtputs : ∀ row ∈ rows, Path.IsName row.1 ∧
      ∃ text, generated? s t row.1 = some (encode text) ∧ IsOutputOf row.2 text) :
    (shaderRegions s).answer t =
      .ok [⟨"Include", includes s rows⟩, ⟨"ShaderByteCode", registrations rows⟩] := by
  have hlines : (outputLines s (rows.map (·.1))).answer t =
      .ok (rows.map fun row => (includeLine s row.1, registration row.2.name.toList)) := by
    rw [outputLines_ok_iff, List.forall₂_map_left_iff, List.forall₂_map_right_iff,
      List.forall₂_same]
    intro row hrow
    obtain ⟨hname, text, htext, houtput⟩ := houtputs row hrow
    obtain ⟨modified, hread⟩ := read_of_generated? hnames hname htext
    exact ⟨text, _, FileTree.readText_ok_iff.2 ⟨modified, hread⟩,
      arrayName?_of_isOutputOf houtput, rfl⟩
  refine shaderRegions_ok_iff.2 ⟨names, _, hnames, hrows ▸ hlines, ?_⟩
  rw [List.map_map, List.map_map]
  rfl

/-- **Names are registered as they were declared.** The name that is read from an output of a
directive is the name of the directive. If all files with the generated extension in the generated
folder are such outputs, then they make the regions of the shader header, each of them once and in
the order of the bytes of their names, and nothing else in the folder does: the include line and the
registration of a file stand at the same place, and its registration has the name of its
directive. Where no name has a line feed in it, these are the lines of the regions. -/
theorem names_are_registered_as_declared :
    (∀ d text, IsOutputOf d text → arrayName? text = some d.name.toList) ∧
    ∀ s t, FileTree.WellNamed t → t.find s.generatedFolder = .ok .folder →
      (∀ n content, generated? s t n = some content →
        ∃ d text, content = encode text ∧ IsOutputOf d text) →
      ∃ rows : List (String × Directive),
        (∀ n, n ∈ rows.map (·.1) ↔ ∃ content, generated? s t n = some content) ∧
        (rows.map (·.1)).Pairwise (fun m n => encode m.toList < encode n.toList) ∧
        (∀ row ∈ rows, ∃ text, generated? s t row.1 = some (encode text) ∧
          IsOutputOf row.2 text) ∧
        (shaderRegions s).answer t =
          .ok [⟨"Include", includes s rows⟩, ⟨"ShaderByteCode", registrations rows⟩] ∧
        lines (registrations rows).toList = (rows.map fun row =>
          ("\tINIT_SHADER_BYTECODE(" ++ row.2.name ++ ");").toList) ∧
        ('\n' ∉ s.includePrefix.toList → (∀ row ∈ rows, '\n' ∉ row.1.toList) →
          lines (includes s rows).toList = rows.map fun row =>
            ("\t#include \"" ++ s.includePrefix ++ row.1 ++ "\"").toList) := by
  refine ⟨fun d text => arrayName?_of_isOutputOf, fun s t hnamed hfolder houtputs => ?_⟩
  obtain ⟨names, hnames⟩ := FileTree.exists_filesIn hfolder
  have hlisted := fun n => mem_filter_filesIn_iff (s := s) (n := n) hnames
  obtain ⟨rows, hrows, hdeclared⟩ := exists_rows (P := fun n d => ∃ text,
      generated? s t n = some (encode text) ∧ IsOutputOf d text) fun n hn => by
    obtain ⟨content, hcontent⟩ := (hlisted n).1 hn
    obtain ⟨d, text, rfl, houtput⟩ := houtputs n content hcontent
    exact ⟨d, text, hcontent, houtput⟩
  have hsorted := (FileTree.filesIn_sorted hnames).filter
    fun n => s.generatedExtension.toList.isSuffixOf n.toList
  rw [← hrows] at hlisted hsorted
  have hregions := shaderRegions_of_rows hnames hrows fun row hrow => by
    obtain ⟨text, htext, houtput⟩ := hdeclared row hrow
    exact ⟨isName_of_generated? hnamed htext, text, htext, houtput⟩
  refine ⟨rows, hlisted, hsorted.imp fun hlt => encode_lt_encode (String.lt_iff.1 hlt), hdeclared,
    hregions, lines_registrations fun row hrow => ?_, lines_includes⟩
  obtain ⟨text, -, houtput⟩ := hdeclared row hrow
  exact houtput.isClean.name.lineFeed

/-! ## A folder with two outputs -/

namespace TwoOutputs

open TwoPermutations

def settings : Settings :=
  { Settings.defaults ⟨""⟩ 1 with
    generatedFolder := ⟨"g"⟩, generatedExtension := ".h", includePrefix := "" }

/-- An output with a comment in front. -/
def litText : List Char :=
  ("// const BYTE\n" ++ "const unsigned char g_Lit[] = \x7b 1 \x7d; // g[0]\n").toList

/-- An output with more brackets on its next line. -/
def skyText : List Char := "const BYTE g_Sky[] =\n\x7b 2 \x7d; // g_[]\n".toList

/-- A folder with the outputs, a text and another folder. -/
def tree : FileTree :=
  [(["g"], Entry.folder), (["g", "é.h"], .file (encode litText) ⟨0, 0⟩),
    (["g", "z.h"], .file (encode skyText) ⟨0, 0⟩), (["g", "n.txt"], .file [] ⟨0, 0⟩),
    (["g", "a.h"], .folder)].foldl (fun t (l, e) => t.put l e) (.empty [] ⟨0, 0⟩)

theorem read : Directive.ofText ⟨"Sky.hlsl"⟩ (litLine ++ '\n' :: skyLine) = .ok [lit, sky] := by
  decide +kernel

theorem isOutputOf_lit : IsOutputOf lit litText := by
  refine ⟨⟨_, _, _, read, by simp⟩, ?_⟩
  exact .mk "// const BYTE\n".toList "const unsigned char g_".toList
    " = \x7b 1 \x7d; // g[0]\n".toList (by decide)
    (fun x h y => not_isHead_of_lacks (by decide +kernel)) (by decide)

theorem isOutputOf_sky : IsOutputOf sky skyText := by
  refine ⟨⟨_, _, _, read, by simp⟩, ?_⟩
  exact .mk [] "const BYTE g_".toList " =\n\x7b 2 \x7d; // g_[]\n".toList (by decide)
    (fun x h y => not_isHead_of_lacks (by decide)) (by decide)

theorem listed : tree.filesIn settings.generatedFolder = .ok ["n.txt", "z.h", "é.h"] := by
  decide +kernel

theorem kept : ["n.txt", "z.h", "é.h"].filter
    (fun n => settings.generatedExtension.toList.isSuffixOf n.toList) = ["z.h", "é.h"] := by
  decide

theorem outputs {n : String} {content : List UInt8}
    (h : generated? settings tree n = some content) : ∃ d text,
      content = encode text ∧ IsOutputOf d text := by
  have hfiles : generated? settings tree "é.h" = some (encode litText) ∧
      generated? settings tree "z.h" = some (encode skyText) := by
    decide +kernel
  have hmem := (mem_filter_filesIn_iff listed).2 ⟨content, h⟩
  rw [kept, List.mem_cons, List.mem_singleton] at hmem
  rcases hmem with rfl | rfl
  · rw [hfiles.2] at h
    exact ⟨sky, skyText, (Option.some.inj h).symm, isOutputOf_sky⟩
  · rw [hfiles.1] at h
    exact ⟨lit, litText, (Option.some.inj h).symm, isOutputOf_lit⟩

end TwoOutputs

open TwoOutputs TwoPermutations in
/-- The two outputs are registered by the names of their directives, and the text and the folder are
not. -/
theorem two_outputs_registered :
    arrayName? litText = some lit.name.toList ∧ arrayName? skyText = some sky.name.toList ∧
    ∃ rows : List (String × Directive), (∀ n, n ∈ rows.map (·.1) ↔ n = "z.h" ∨ n = "é.h") ∧
      (rows.map (·.1)).Pairwise (fun m n => encode m.toList < encode n.toList) ∧
      (shaderRegions settings).answer tree =
        .ok [⟨"Include", includes settings rows⟩, ⟨"ShaderByteCode", registrations rows⟩] := by
  obtain ⟨hnames, hregions⟩ := names_are_registered_as_declared
  obtain ⟨rows, hlisted, hsorted, -, hmade, -⟩ :=
    hregions settings tree (by decide) (by decide +kernel) fun n content => outputs
  refine ⟨hnames lit litText isOutputOf_lit, hnames sky skyText isOutputOf_sky, rows, fun n => ?_,
    hsorted, hmade⟩
  rw [hlisted, ← mem_filter_filesIn_iff listed, kept]
  simp

end ShaderBuild.Target
