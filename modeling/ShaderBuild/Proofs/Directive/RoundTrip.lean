import Mathlib.Data.List.ReduceOption
import ShaderBuild.Proofs.Directive.Header
import ShaderBuild.Proofs.Directive.Value
import ShaderBuild.Proofs.Target.Marker
import ShaderBuild.Proofs.Text.Line

/-!
# Written directives are read back

A directive is written as a line that starts with the marker and goes on with the items of a header
(`Directive.Writes`): each tag that is not left out gives what the directive has (`Tag.Gives`), and a
tag may be left out where the directive has what is assumed without it (`Tag.Omissible`). A file
whose lines are such lines and others without a marker is read as the list of these directives,
unless two of them share a name (`written_directives_read_back`).
-/

namespace ShaderBuild

open Text Target

/-! ## What is written -/

namespace Header

/-- The text of a value gives what a directive has for the tag. -/
def Tag.Gives (d : Directive) (s : List Char) : Tag → Prop
  | name => Padded d.name.toList s
  | entryPoint => Padded d.entryPoint.toList s
  | type => ∃ name letters, (name, d.stage) ∈ Stage.aliases ∧
      letters.map Char.toLower = name.toList ∧ Padded letters s
  | defines => Joined d.defines s

/-- A directive has what is assumed where a tag is left out. The name is never assumed. -/
def Tag.Omissible (d : Directive) : Tag → Prop
  | name => False
  | entryPoint => d.entryPoint = "main"
  | type => d.stage = .pixel
  | defines => d.defines = []

/-- A row of items, in any order, that spells a directive. -/
structure Spells (items : List Item) (d : Directive) : Prop where
  laid : ∀ i ∈ items, i.Laid
  given : ∀ i ∈ items, i.tag.Gives d i.value
  omissible : ∀ T : Tag, (∀ i ∈ items, i.tag ≠ T) → T.Omissible d

/-- The word of the marker. -/
def markerWord : List Char := "ShaderCompiler.".toList

/-- A marker stands somewhere in a line. -/
def HasMarker (line : List Char) : Prop :=
  ∃ before comment rest, IsMarker markerWord comment ∧ line = before ++ (comment ++ rest)

end Header

/-- The directives that can be written down. -/
structure Directive.IsWritable (d : Directive) : Prop where
  name : Header.IsValue d.name.toList
  entryPoint : Header.IsValue d.entryPoint.toList
  defines : ∀ x ∈ d.defines, Header.IsValue x.toList ∧ ';' ∉ x.toList

/-- A directive as it is written on a line. -/
def Directive.Writes (d : Directive) (line : List Char) : Prop :=
  ∃ comment items, IsMarker Header.markerWord comment ∧ Header.Spells items d ∧
    line = comment ++ Header.headerText items

/-- A line of a file has a directive written on it, or else no marker. -/
def Directive.Stands (line : List Char) : Option Directive → Prop
  | some d => d.IsWritable ∧ d.Writes line
  | none => ¬ Header.HasMarker line

/-! ## Headers -/

namespace Header

variable {d : Directive} {items : List Item} {T : Tag} {s line : List Char} {c : Char}

theorem mem_headerText {i : Item} (hi : i ∈ items) (hc : c ∈ i.value) : c ∈ headerText items := by
  cases items with
  | nil => cases hi
  | cons j items =>
    have htext : c ∈ i.text := by
      simp [Item.text, hc]
    rw [headerText_cons, List.mem_append]
    rcases List.mem_cons.1 hi with rfl | hi
    · exact .inl htext
    · exact .inr (List.mem_flatMap.2 ⟨i, hi, List.mem_cons_of_mem _ htext⟩)

/-- No colon and no comma gets into the text of a value. -/
theorem Tag.Gives.not_mem (h : T.Gives d s) (hd : d.IsWritable) (hc : c = ':' ∨ c = ',') :
    c ∉ s := by
  have hblank : isBlank c = false := by
    rcases hc with rfl | rfl <;> decide
  have hvalue : ∀ v, IsValue v → c ∉ v := by
    intro v hv
    rcases hc with rfl | rfl
    · exact hv.colon
    · exact hv.comma
  cases T with
  | name => exact not_mem_of_padded h (hvalue _ hd.name) hblank
  | entryPoint => exact not_mem_of_padded h (hvalue _ hd.entryPoint) hblank
  | type =>
    obtain ⟨name, letters, hname, hletters, hpadded⟩ := h
    exact not_mem_of_padded hpadded (hvalue _ (isValue_of_alias hname hletters)) hblank
  | defines =>
    refine not_mem_of_joined (fun x hx => hvalue _ (hd.defines x hx).1) h hblank ?_
    rcases hc with rfl | rfl <;> decide

theorem Spells.closed (h : Spells items d) (hd : d.IsWritable) (hline : '\n' ∉ headerText items) :
    ∀ i ∈ items, i.Closed := by
  intro i hi
  have hgiven := h.given i hi
  exact { h.laid i hi with
    colon := hgiven.not_mem hd (.inl rfl)
    comma := hgiven.not_mem hd (.inr rfl)
    lineFeed := fun hmem => hline (mem_headerText hi hmem) }

/-- A tag that is found gives what the directive has, and one that is not found may be left out. -/
theorem Spells.tag? (h : Spells items d) (hd : d.IsWritable) (hline : '\n' ∉ headerText items)
    (T : Tag) : (∃ s, T.Gives d s ∧ Header.tag? T.word (headerText items) = some (trim s)) ∨
      T.Omissible d ∧ Header.tag? T.word (headerText items) = none := by
  rw [tag?_headerText (h.closed hd hline)]
  cases hfind : items.find? (·.tag = T) with
  | none =>
    refine .inr ⟨h.omissible T fun i hi => ?_, rfl⟩
    simpa using List.find?_eq_none.1 hfind i hi
  | some i =>
    have htag : i.tag = T := by simpa using List.find?_some hfind
    have hgiven := h.given i (List.mem_of_find?_eq_some hfind)
    rw [htag] at hgiven
    exact .inl ⟨i.value, hgiven, rfl⟩

/-- **A header is read as the directive it was written from.** -/
theorem Spells.ofHeader (h : Spells items d) (hd : d.IsWritable)
    (hline : '\n' ∉ headerText items) : Directive.ofHeader (headerText items) = .ok d := by
  have hname : Header.tag? "Name" (headerText items) = some d.name.toList := by
    rcases h.tag? hd hline .name with ⟨s, hs, hfound⟩ | ⟨hnever, -⟩
    · rwa [trim_of_padded hd.name.ne_nil hd.name.bare hs] at hfound
    · cases hnever
  have hentry : (Header.tag? "EntryPoint" (headerText items)).getD "main".toList =
      d.entryPoint.toList := by
    rcases h.tag? hd hline .entryPoint with ⟨s, hs, hfound⟩ | ⟨hmain, hnone⟩
    · rw [trim_of_padded hd.entryPoint.ne_nil hd.entryPoint.bare hs, Tag.word] at hfound
      rw [hfound, Option.getD_some]
    · rw [Tag.word] at hnone
      rw [hnone, Option.getD_none, show d.entryPoint = "main" from hmain]
  have hstage : Directive.stageOf (Header.tag? "Type" (headerText items)) = .ok d.stage := by
    rcases h.tag? hd hline .type with ⟨s, ⟨name, letters, hmem, hletters, hs⟩, hfound⟩ |
      ⟨hpixel, hnone⟩
    · have hv := isValue_of_alias hmem hletters
      rw [trim_of_padded hv.ne_nil hv.bare hs, Tag.word] at hfound
      rw [hfound, Directive.stageOf, ofAlias?_of_alias hmem hletters]
    · rw [Tag.word] at hnone
      rw [hnone, Directive.stageOf, show d.stage = .pixel from hpixel]
  have hdefines : Header.defines ((Header.tag? "Defines" (headerText items)).getD []) =
      d.defines := by
    rcases h.tag? hd hline .defines with ⟨s, hs, hfound⟩ | ⟨hempty, hnone⟩
    · rw [Tag.word] at hfound
      rw [hfound, Option.getD_some]
      exact defines_of_joined hd.defines (trim_joined (fun x hx => (hd.defines x hx).1) hs)
    · rw [Tag.word] at hnone
      rw [hnone, Option.getD_none, show d.defines = [] from hempty]
      rfl
  unfold Directive.ofHeader
  rw [hname, hentry, hstage, hdefines]
  simp only [Except.map, String.ofList_toList]

end Header

/-! ## Lines -/

namespace Header

variable {d : Directive} {s rest line : List Char}

theorem at?_eq_some_iff : at? s = some rest ↔
    ∃ comment, IsMarker markerWord comment ∧ s = comment ++ rest := by
  constructor
  · intro h
    unfold at? at h
    split at h
    · next s =>
      obtain ⟨letters, hletters, hfold⟩ := afterWord_eq_some_iff.1 h
      refine ⟨'/' :: '/' :: (s.takeWhile isBlank ++ letters),
        ⟨_, _, rfl, List.all_eq_true.1 List.all_takeWhile, hfold⟩, ?_⟩
      rw [List.cons_append, List.cons_append, List.append_assoc, ← hletters, trimLeft,
        List.takeWhile_append_dropWhile]
    · cases h
  · rintro ⟨comment, ⟨blanks, letters, rfl, hblanks, hfold⟩, rfl⟩
    obtain ⟨l, letters, rfl⟩ : ∃ l ls, letters = l :: ls := by
      apply List.exists_cons_of_ne_nil
      rintro rfl
      cases hfold
    -- the first letter agrees with an S, so the blanks end in front of it
    have hl : isBlank l = false :=
      (of_fold_eq (w := 'S') (by decide) (List.cons.inj hfold).1.symm).1
    rw [List.cons_append, List.cons_append, List.append_assoc, List.cons_append, at?,
      trimLeft_append hblanks, trimLeft_cons hl]
    exact afterWord_eq_some_iff.2 ⟨_, rfl, hfold⟩

/-- The lines without a header are those without a marker. -/
theorem ofLine?_eq_none_iff : ofLine? line = none ↔ ¬ HasMarker line := by
  rw [ofLine?, Option.map_eq_none_iff, search_eq_none_iff]
  constructor
  · rintro h ⟨before, comment, rest, hmarker, heq⟩
    have hread := h _ _ heq
    rw [at?_eq_some_iff.2 ⟨comment, hmarker, rfl⟩] at hread
    cases hread
  · intro h before s heq
    rw [Option.eq_none_iff_forall_not_mem]
    intro rest hrest
    obtain ⟨comment, hmarker, rfl⟩ := at?_eq_some_iff.1 hrest
    exact h ⟨before, comment, rest, hmarker, heq⟩

theorem ofLine?_of_isMarker {comment : List Char} (h : IsMarker markerWord comment)
    (rest : List Char) : ofLine? (comment ++ rest) = some rest := by
  have hread : at? (comment ++ rest) = some rest := at?_eq_some_iff.2 ⟨comment, h, rfl⟩
  obtain ⟨c, s, heq⟩ := List.exists_cons_of_ne_nil (List.append_ne_nil_of_left_ne_nil h.ne_nil rest)
  rw [heq] at hread ⊢
  rw [ofLine?, search, hread]
  rfl

end Header

/-! ## Files -/

namespace Directive

variable {d : Directive} {path : Path} {line text : List Char} {lines : List (List Char)}
  {entry : Option Directive} {entries : List (Option Directive)} {seen : List Directive}

/-- What is read on a line: the directive that stands there, or nothing. -/
def ReadAs (line : List Char) : Option Directive → Prop
  | some d => ∃ header, Header.ofLine? line = some header ∧ ofHeader header = .ok d
  | none => Header.ofLine? line = none

theorem Stands.readAs (h : Stands line entry) (hline : '\n' ∉ line) : ReadAs line entry := by
  cases entry with
  | none => exact Header.ofLine?_eq_none_iff.2 h
  | some d =>
    obtain ⟨hd, comment, items, hmarker, hspells, rfl⟩ := h
    exact ⟨_, Header.ofLine?_of_isMarker hmarker _,
      hspells.ofHeader hd fun hmem => hline (List.mem_append_right _ hmem)⟩

/-- The names of the directives on some lines. -/
def names (entries : List (Option Directive)) : List String := entries.reduceOption.map (·.name)

/-- Some lines with their numbers, behind `k` others. -/
def numbered (k : Nat) (lines : List (List Char)) : List (Nat × List Char) :=
  (lines.zipIdx k).map fun (line, i) => (i + 1, line)

theorem numbered_cons (k : Nat) (line : List Char) (lines : List (List Char)) :
    numbered k (line :: lines) = (k + 1, line) :: numbered (k + 1) lines := by
  simp [numbered, List.zipIdx_cons]

theorem numbered_append (k : Nat) (front back : List (List Char)) :
    numbered k (front ++ back) = numbered k front ++ numbered (k + front.length) back := by
  simp [numbered, List.zipIdx_append]

/-- Reading goes on behind a new directive and fails at one whose name was seen. -/
theorem ofLines_directive (h : ReadAs line (some d)) (seen : List Directive) (n : Nat)
    (rest : List (Nat × List Char)) : ofLines path seen ((n, line) :: rest) =
      if d.name ∈ seen.map (·.name) then .error (.duplicatePermutation d.name path n)
      else ofLines path (seen ++ [d]) rest := by
  obtain ⟨header, hheader, hread⟩ := h
  have hany : seen.any (·.name == d.name) = true ↔ d.name ∈ seen.map (·.name) := by
    simp [List.any_eq_true]
  rw [ofLines, hheader]
  simp only [hread, hany]

/-- Lines without a repeated name are read one after the other. -/
theorem ofLines_new (h : List.Forall₂ ReadAs lines entries) (path : Path) (seen : List Directive)
    (hnew : (seen.map (·.name) ++ names entries).Nodup) (k : Nat)
    (rest : List (Nat × List Char)) : ofLines path seen (numbered k lines ++ rest) =
      ofLines path (seen ++ entries.reduceOption) rest := by
  induction h generalizing seen k with
  | nil => simp [numbered]
  | @cons line entry lines entries hread _ ih =>
    rw [numbered_cons, List.cons_append]
    cases entry with
    | none =>
      rw [ofLines, show Header.ofLine? line = none from hread]
      exact ih seen hnew (k + 1)
    | some d =>
      have hnames : seen.map (·.name) ++ names (some d :: entries) =
          (seen ++ [d]).map (·.name) ++ names entries := by
        simp [names]
      have hd : d.name ∉ seen.map (·.name) := fun hmem =>
        List.disjoint_of_nodup_append hnew hmem List.mem_cons_self
      rw [hnames] at hnew
      rw [ofLines_directive hread, if_neg hd, ih _ hnew, List.append_assoc, List.singleton_append,
        List.reduceOption_cons_of_some]

/-- Where a name is repeated there is a first repetition. -/
theorem exists_first_repetition (h : ¬ (names entries).Nodup) : ∃ front d back,
    entries = front ++ some d :: back ∧ (names front).Nodup ∧ d.name ∈ names front := by
  induction entries using List.reverseRecOn with
  | nil => exact absurd List.nodup_nil h
  | append_singleton entries entry ih =>
    by_cases hentries : (names entries).Nodup
    · -- the last line is the one that repeats a name
      have hnames : names (entries ++ [entry]) = names entries ++ names [entry] := by
        simp [names, List.reduceOption_append]
      rw [hnames] at h
      cases entry with
      | none => exact absurd (by simpa [names] using hentries) h
      | some d =>
        refine ⟨entries, d, [], rfl, hentries, ?_⟩
        by_contra hnew
        refine h (List.nodup_append.2 ⟨hentries, List.nodup_singleton _, ?_⟩)
        rintro a ha b hb rfl
        rw [List.mem_singleton.1 hb] at ha
        exact hnew ha
    · obtain ⟨front, d, back, rfl, hnew, hold⟩ := ih hentries
      exact ⟨front, d, back ++ [entry], by simp, hnew, hold⟩

/-- **Written directives are read back.** The lines of a file have directives on them, written in
any way, or no marker. If the names of the directives differ, then these directives are read, in
order. If not, reading fails at the line where a name is repeated for the first time. -/
theorem written_directives_read_back (htext : IsLines lines text)
    (hlines : List.Forall₂ Stands lines entries) :
    ((names entries).Nodup → ofText path text = .ok entries.reduceOption) ∧
    (¬ (names entries).Nodup → ∃ front d back, entries = front ++ some d :: back ∧
      (names front).Nodup ∧ d.name ∈ names front ∧
      ofText path text = .error (.duplicatePermutation d.name path (front.length + 1))) := by
  have hread : List.Forall₂ ReadAs lines entries :=
    ((List.forall₂_and_left _ _).2 ⟨htext.not_mem, hlines⟩).imp fun _ _ h => h.2.readAs h.1
  have hnumbered : numberedLines text = numbered 0 lines := by
    rw [numberedLines, lines_of_isLines htext, numbered]
  rw [ofText, hnumbered]
  constructor
  · intro hnodup
    have hall := ofLines_new hread path [] hnodup 0 []
    rw [List.append_nil, List.nil_append] at hall
    rw [hall, ofLines]
  · intro hrepeated
    obtain ⟨front, d, back, rfl, hnew, hold⟩ := exists_first_repetition hrepeated
    refine ⟨front, d, back, rfl, hnew, hold, ?_⟩
    -- the lines in front of the repetition are read as if they were all, then its line is refused
    have hfront := List.forall₂_take_append _ _ _ hread
    obtain ⟨line, rest, hline, -, hrest⟩ :=
      List.forall₂_cons_right_iff.1 (List.forall₂_drop_append _ _ _ hread)
    rw [← List.take_append_drop front.length lines, hrest, numbered_append, numbered_cons,
      ofLines_new hfront path [] hnew, ofLines_directive hline, List.nil_append,
      hfront.length_eq, Nat.zero_add]
    exact if_pos hold

end Directive

/-! ## A shader with two permutations -/

namespace TwoPermutations

open Header

/-- The first permutation. -/
def lit : Directive where
  name := "Lit"
  entryPoint := "PSMain"
  stage := .pixel
  defines := ["FOG", "SHADOW=1"]

/-- The second permutation. -/
def sky : Directive where
  name := "Sky"
  entryPoint := "main"
  stage := .vertex
  defines := []

/-- The header of the first one, without its stage. -/
def litItems : List Item :=
  [⟨.name, " ".toList, "Name".toList, [], " Lit".toList⟩,
    ⟨.entryPoint, " ".toList, "EntryPoint".toList, [], " PSMain".toList⟩,
    ⟨.defines, " ".toList, "Defines".toList, [], " FOG; SHADOW=1".toList⟩]

/-- The header of the second one, with its name in the end. -/
def skyItems : List Item :=
  [⟨.type, [], "type".toList, [], "Vertex ".toList⟩,
    ⟨.name, "  ".toList, "NAME".toList, " ".toList, " Sky".toList⟩]

/-- The line of the first permutation. -/
def litLine : List Char :=
  "// ShaderCompiler. Name: Lit, EntryPoint: PSMain, Defines: FOG; SHADOW=1".toList

/-- The line of the second permutation. -/
def skyLine : List Char := "//SHADERCOMPILER.type:Vertex ,  NAME : Sky".toList

/-- A comment that declares nothing. -/
def noteLine : List Char := "// Name: Sky".toList

theorem stands_lit : Directive.Stands litLine (some lit) := by
  refine ⟨⟨by decide, by decide, by decide⟩, "// ShaderCompiler.".toList, litItems,
    ⟨" ".toList, "ShaderCompiler.".toList, by decide, (by decide : Blanks " ".toList), rfl⟩,
    ⟨by decide, ?_, ?_⟩, by decide⟩
  · have hdefines : Joined lit.defines (" FOG".toList ++ ';' :: " SHADOW=1".toList) :=
      .cons ⟨" ".toList, [], by decide, by decide, by decide⟩
        (.last ⟨" ".toList, [], by decide, by decide, by decide⟩)
    rw [litItems, List.forall_mem_cons, List.forall_mem_cons, List.forall_mem_singleton]
    exact ⟨⟨" ".toList, [], by decide, by decide, by decide⟩,
      ⟨" ".toList, [], by decide, by decide, by decide⟩, hdefines⟩
  · intro T h
    rw [litItems, List.forall_mem_cons, List.forall_mem_cons, List.forall_mem_singleton] at h
    cases T with
    | name => exact absurd rfl h.1
    | entryPoint => exact absurd rfl h.2.1
    | type => rfl
    | defines => exact absurd rfl h.2.2

theorem stands_sky : Directive.Stands skyLine (some sky) := by
  refine ⟨⟨by decide, by decide, by decide⟩, "//SHADERCOMPILER.".toList, skyItems,
    ⟨[], "SHADERCOMPILER.".toList, by decide, (by decide : Blanks []), by decide⟩,
    ⟨by decide, ?_, ?_⟩, by decide⟩
  · rw [skyItems, List.forall_mem_cons, List.forall_mem_singleton]
    exact ⟨⟨"vertex", "Vertex".toList, by decide, by decide,
        [], " ".toList, by decide, by decide, by decide⟩,
      ⟨" ".toList, [], by decide, by decide, by decide⟩⟩
  · intro T h
    rw [skyItems, List.forall_mem_cons, List.forall_mem_singleton] at h
    cases T with
    | name => exact absurd rfl h.2
    | entryPoint => rfl
    | type => exact absurd rfl h.1
    | defines => rfl

theorem stands_note : Directive.Stands noteLine none :=
  ofLine?_eq_none_iff.1 (by decide)

/-- Both permutations are read, and a file that declares the first one twice is refused. -/
theorem two_permutations_read_back :
    (Directive.ofText ⟨"Sky.hlsl"⟩ (litLine ++ '\r' :: '\n' :: (noteLine ++ '\n' :: skyLine)) =
      .ok [lit, sky]) ∧
    ∃ front d back, [some lit, none, some lit] = front ++ some d :: back ∧
      (Directive.names front).Nodup ∧ d.name ∈ Directive.names front ∧
      Directive.ofText ⟨"Sky.hlsl"⟩ (litLine ++ '\n' :: (noteLine ++ '\n' :: litLine)) =
        .error (.duplicatePermutation d.name ⟨"Sky.hlsl"⟩ (front.length + 1)) := by
  constructor
  · exact (Directive.written_directives_read_back (lines_eq_iff.1 (by rfl))
      (.cons stands_lit (.cons stands_note (.cons stands_sky .nil)))).1 (by decide)
  · exact (Directive.written_directives_read_back (lines_eq_iff.1 (by rfl))
      (.cons stands_lit (.cons stands_note (.cons stands_lit .nil)))).2 (by decide)

end TwoPermutations

end ShaderBuild
