import ShaderBuild.Proofs.Answers
import ShaderBuild.Proofs.Directive.RoundTrip
import ShaderBuild.Proofs.Source.Output

/-!
# What is accepted

Whatever a text is, the directives that are read from it are clean: their names, entry points and
defines have no blanks around them, no commas and no line feeds (`Directive.IsClean`).

A tag of a header is read where it stands for the first time, and its value goes to the next comma
(`Tag.Holds`). Where it stands nowhere, a default takes its place, and a name is missing. A value
may be blank. A blank define is left out, but a blank name or entry point is taken as it is, so a
permutation can be nameless (`accepted_directives_are_clean`).
-/

namespace ShaderBuild

open Text

/-! ## Where a tag stands -/

namespace Header

/-- A tag stands in a header behind some text that does not end within a word, and in front of a
colon and the rest of the header. -/
def Tag.Stands (T : Tag) (header before rest : List Char) : Prop :=
  ∃ letters gap, header = before ++ (letters ++ (gap ++ ':' :: rest)) ∧
    letters.map fold = T.word.toList.map fold ∧ Blanks gap ∧ ∀ c ∈ before.getLast?, isWord c = false

/-- A tag stands nowhere in a header. -/
def Tag.Missing (T : Tag) (header : List Char) : Prop :=
  ∀ before rest, ¬ T.Stands header before rest

/-- A header holds a text for a tag: where the tag stands for the first time, the text goes from the
colon to the next comma. -/
def Tag.Holds (T : Tag) (header s : List Char) : Prop :=
  ∃ before rest, T.Stands header before rest ∧
    (∀ before' rest', T.Stands header before' rest' → before.length ≤ before'.length) ∧
    s = rest.takeWhile (· ≠ ',')

/-- A header holds a text of blanks for a tag. -/
def Tag.Blank (T : Tag) (header : List Char) : Prop := ∃ s, T.Holds header s ∧ Blanks s

variable {T : Tag} {word header before rest s v : List Char} {c : Char} {inside : Bool}

theorem trimLeft_takeWhile (s : List Char) :
    (trimLeft s).takeWhile (· ≠ ',') = trimLeft (s.takeWhile (· ≠ ',')) := by
  induction s with
  | nil => rfl
  | cons c s ih =>
    by_cases hblank : isBlank c = true
    · have hcomma : c ≠ ',' := by
        rintro rfl
        exact absurd hblank (by decide)
      rw [List.takeWhile_cons_of_pos (by simpa using hcomma), trimLeft, trimLeft,
        List.dropWhile_cons_of_pos hblank, List.dropWhile_cons_of_pos hblank]
      exact ih
    · rw [Bool.not_eq_true] at hblank
      rw [trimLeft_cons hblank]
      by_cases hcomma : c = ','
      · rw [List.takeWhile_cons_of_neg (by simpa using hcomma)]
        rfl
      · rw [List.takeWhile_cons_of_pos (by simpa using hcomma), trimLeft_cons hblank]

/-- Within a line every value can be read. -/
theorem value?_of_not_mem (h : '\n' ∉ rest) :
    value? rest = some (trim (rest.takeWhile (· ≠ ','))) := by
  unfold value?
  rw [trimLeft_takeWhile]
  exact if_neg fun hmem => h ((List.takeWhile_prefix _).subset (mem_of_mem_trim hmem))

/-- Whether a text ends within a word; `inside` says so of the empty one. -/
def endsInside (inside : Bool) (s : List Char) : Bool := (s.getLast?.map isWord).getD inside

theorem endsInside_cons (inside : Bool) (c : Char) (s : List Char) :
    endsInside inside (c :: s) = endsInside (isWord c) s := by
  unfold endsInside
  rw [List.getLast?_cons, Option.map_some, Option.getD_some]
  cases s.getLast? <;> rfl

theorem endsInside_false_iff :
    endsInside false s = false ↔ ∀ c ∈ s.getLast?, isWord c = false := by
  unfold endsInside
  cases s.getLast? <;> simp

/-- A tag is found at the first place where it can be read. -/
theorem tagFrom?_eq_some (h : tagFrom? word inside s = some v) :
    ∃ before rest, s = before ++ rest ∧ endsInside inside before = false ∧
      tagAt? word rest = some v ∧ ∀ p q, s = p ++ q → p.length < before.length →
        endsInside inside p = false → tagAt? word q = none := by
  induction s generalizing inside with
  | nil => cases h
  | cons c s ih =>
    rw [tagFrom?] at h
    split at h
    · next found hfound =>
      obtain rfl := Option.some.inj h
      cases inside with
      | true => cases hfound
      | false => exact ⟨[], c :: s, rfl, rfl, hfound, fun p q _ hp => absurd hp (by simp)⟩
    · next hnone =>
      obtain ⟨before, rest, rfl, hinside, hread, hfirst⟩ := ih h
      refine ⟨c :: before, rest, rfl, endsInside_cons .. ▸ hinside, hread, ?_⟩
      intro p q hpq hp hend
      cases p with
      | nil =>
        obtain rfl : inside = false := hend
        exact (show c :: (before ++ rest) = q from hpq) ▸ hnone
      | cons d p =>
        obtain ⟨rfl, htail⟩ := List.cons.inj hpq
        exact hfirst p q htail (by simpa using hp) (endsInside_cons .. ▸ hend)

/-- A tag that is not found can be read nowhere. -/
theorem tagAt?_of_tagFrom? (h : tagFrom? word inside s = none) {p q : List Char}
    (hpq : s = p ++ q) (hend : endsInside inside p = false) : tagAt? word q = none := by
  induction s generalizing inside p with
  | nil =>
    obtain ⟨rfl, rfl⟩ := List.append_eq_nil_iff.1 hpq.symm
    exact tagAt?_of_no_colon (by simp)
  | cons c s ih =>
    rw [tagFrom?] at h
    split at h
    · cases h
    · next hnone =>
      cases p with
      | nil =>
        obtain rfl : inside = false := hend
        exact (show c :: s = q from hpq) ▸ hnone
      | cons d p =>
        obtain ⟨rfl, htail⟩ := List.cons.inj hpq
        exact ih h htail (endsInside_cons .. ▸ hend)

theorem Tag.Stands.tagAt? (hline : '\n' ∉ header) (h : T.Stands header before rest) :
    ∃ s, header = before ++ s ∧ endsInside false before = false ∧
      Header.tagAt? T.word.toList s = some (trim (rest.takeWhile (· ≠ ','))) := by
  obtain ⟨letters, gap, rfl, hletters, hgap, hbefore⟩ := h
  refine ⟨_, rfl, endsInside_false_iff.2 hbefore, ?_⟩
  rw [tagAt?_spelled hletters hgap, value?_of_not_mem]
  simp only [List.mem_append, List.mem_cons, not_or] at hline
  exact hline.2.2.2.2

theorem Tag.stands_of_tagAt? (hread : Header.tagAt? T.word.toList s = some v)
    (hbefore : endsInside false before = false) : ∃ rest, T.Stands (before ++ s) before rest := by
  obtain ⟨letters, gap, rest, rfl, hletters, hgap⟩ := exists_of_tagAt? hread
  exact ⟨rest, letters, gap, rfl, hletters, hgap, endsInside_false_iff.1 hbefore⟩

/-- **A tag is not found where it stands nowhere.** -/
theorem tag?_eq_none_iff (hline : '\n' ∉ header) :
    tag? T.word header = none ↔ T.Missing header := by
  constructor
  · intro hnone before rest hstands
    obtain ⟨s, rfl, hbefore, hread⟩ := hstands.tagAt? hline
    rw [tagAt?_of_tagFrom? hnone rfl hbefore] at hread
    cases hread
  · intro hmissing
    rw [Option.eq_none_iff_forall_not_mem]
    intro v hv
    obtain ⟨before, s, rfl, hbefore, hread, -⟩ := tagFrom?_eq_some hv
    obtain ⟨rest, hstands⟩ := Tag.stands_of_tagAt? hread hbefore
    exact hmissing before rest hstands

/-- A header holds one text for a tag, up to the blanks around it. -/
theorem Tag.Holds.trim_eq {s' : List Char} (hline : '\n' ∉ header) (h : T.Holds header s)
    (h' : T.Holds header s') : trim s = trim s' := by
  obtain ⟨before, rest, hstands, hfirst, rfl⟩ := h
  obtain ⟨before', rest', hstands', hfirst', rfl⟩ := h'
  have hlength : before.length = before'.length :=
    Nat.le_antisymm (hfirst _ _ hstands') (hfirst' _ _ hstands)
  obtain ⟨r, hr, -, hread⟩ := hstands.tagAt? hline
  obtain ⟨r', hr', -, hread'⟩ := hstands'.tagAt? hline
  obtain ⟨-, rfl⟩ := List.append_inj (hr.symm.trans hr') hlength
  exact Option.some.inj (hread.symm.trans hread')

theorem Tag.Holds.trim_eq_nil_iff (hline : '\n' ∉ header) (h : T.Holds header s) :
    trim s = [] ↔ T.Blank header := by
  constructor
  · exact fun hnil => ⟨s, h, Text.trim_eq_nil_iff.1 hnil⟩
  · rintro ⟨s', h', hblank⟩
    rw [h.trim_eq hline h', trim_of_blanks hblank]

/-- **The value of a tag** is the text that the header holds for it, without the blanks around. -/
theorem tag?_eq_some (hline : '\n' ∉ header) (h : tag? T.word header = some v) :
    ∃ s, T.Holds header s ∧ v = trim s := by
  obtain ⟨before, s, rfl, hbefore, hread, hfirst⟩ := tagFrom?_eq_some h
  obtain ⟨rest, hstands⟩ := Tag.stands_of_tagAt? hread hbefore
  refine ⟨_, ⟨before, rest, hstands, fun before' rest' hstands' => ?_, rfl⟩, ?_⟩
  · by_contra hlt
    obtain ⟨s, heq, hbefore', hread'⟩ := hstands'.tagAt? hline
    rw [hfirst before' s heq (Nat.lt_of_not_le hlt) hbefore'] at hread'
    cases hread'
  · obtain ⟨s, heq, -, hread'⟩ := hstands.tagAt? hline
    rw [List.append_cancel_left heq, hread'] at hread
    exact (Option.some.inj hread).symm

/-! ## Clean values -/

/-- A text that can be a value: it has no blanks around it, no comma and no line feed. -/
structure IsClean (v : List Char) : Prop where
  bare : Bare v
  comma : ',' ∉ v
  lineFeed : '\n' ∉ v

theorem Tag.Holds.not_mem (hline : '\n' ∉ header) (h : T.Holds header s) : ',' ∉ s ∧ '\n' ∉ s := by
  obtain ⟨before, rest, ⟨letters, gap, rfl, -⟩, -, rfl⟩ := h
  constructor
  · intro hcomma
    simpa using List.mem_takeWhile_imp hcomma
  · intro hmem
    refine hline ?_
    simp [(List.takeWhile_prefix _).subset hmem]

theorem isClean_trim (hcomma : ',' ∉ s) (hline : '\n' ∉ s) : IsClean (trim s) where
  bare := bare_trim s
  comma := mt mem_of_mem_trim hcomma
  lineFeed := mt mem_of_mem_trim hline

theorem mem_of_mem_splitSemicolon {piece : List Char} (h : piece ∈ splitSemicolon s)
    (hc : c ∈ piece) : c ∈ s ∧ c ≠ ';' := by
  induction s generalizing piece with
  | nil =>
    rw [splitSemicolon, List.mem_singleton] at h
    rw [h] at hc
    cases hc
  | cons d s ih =>
    rw [splitSemicolon] at h
    split at h
    · rcases List.mem_cons.1 h with rfl | h
      · cases hc
      · exact (ih h hc).imp_left (List.mem_cons_of_mem _)
    · next hd =>
      cases hsplit : splitSemicolon s with
      | nil =>
        rw [hsplit, List.mem_singleton] at h
        rw [h, List.mem_singleton] at hc
        rw [hc]
        exact ⟨List.mem_cons_self, hd⟩
      | cons first others =>
        rw [hsplit] at h ih
        rcases List.mem_cons.1 h with rfl | h
        · rcases List.mem_cons.1 hc with rfl | hc
          · exact ⟨List.mem_cons_self, hd⟩
          · exact (ih List.mem_cons_self hc).imp_left (List.mem_cons_of_mem _)
        · exact (ih (List.mem_cons_of_mem _ h) hc).imp_left (List.mem_cons_of_mem _)

/-- Defines are what stands between the semicolons, where it is not blank. -/
theorem exists_of_mem_defines {x : String} (h : x ∈ Header.defines v) : ∃ piece ∈ splitSemicolon v,
    trim piece ≠ [] ∧ x.toList = trim piece := by
  obtain ⟨y, hy, rfl⟩ := List.mem_map.1 h
  obtain ⟨hmem, hne⟩ := List.mem_filter.1 hy
  obtain ⟨piece, hpiece, rfl⟩ := List.mem_map.1 hmem
  exact ⟨piece, hpiece, by simpa using hne, String.toList_ofList⟩

end Header

namespace Directive

open Header

variable {d : Directive} {header line text : List Char} {lines : List (List Char)}
  {ds seen : List Directive} {path p : Path} {tag : String} {k n : Nat}

/-- The name, the entry point and the defines are clean, and no define is empty or has a
semicolon. -/
structure IsClean (d : Directive) : Prop where
  name : Header.IsClean d.name.toList
  entryPoint : Header.IsClean d.entryPoint.toList
  defines : ∀ x ∈ d.defines, Header.IsClean x.toList ∧ x.toList ≠ [] ∧ ';' ∉ x.toList

/-- The name and the entry point are what the header holds for them. The entry point is `main` where
the header does not have it; the name is always there. -/
structure DeclaredBy (header : List Char) (d : Directive) : Prop where
  name : ∃ s, Tag.name.Holds header s ∧ d.name.toList = trim s
  entryPoint : (∃ s, Tag.entryPoint.Holds header s ∧ d.entryPoint.toList = trim s) ∨
    Tag.entryPoint.Missing header ∧ d.entryPoint = "main"

/-! ## One header -/

theorem ofHeader_ok (h : ofHeader header = .ok d) : ∃ v,
    tag? Tag.name.word header = some v ∧ d.name = String.ofList v ∧
    d.entryPoint = String.ofList ((tag? Tag.entryPoint.word header).getD "main".toList) ∧
    d.defines = Header.defines ((tag? Tag.defines.word header).getD []) := by
  unfold ofHeader at h
  split at h
  · cases h
  · next v hv =>
    cases hstage : stageOf (tag? "Type" header) with
    | error fault =>
      rw [hstage] at h
      cases h
    | ok stage =>
      rw [hstage] at h
      cases h
      exact ⟨v, hv, rfl, rfl, rfl⟩

theorem ofHeader_missing_iff :
    ofHeader header = .error .missingName ↔ tag? Tag.name.word header = none := by
  have hstage : ∀ v, stageOf v ≠ .error .missingName := by
    intro v h
    unfold stageOf at h
    split at h
    · cases h
    · split at h <;> cases h
  unfold ofHeader
  rw [Tag.word]
  cases hname : tag? "Name" header with
  | none => simp
  | some v =>
    simp only [reduceCtorEq, iff_false]
    intro h
    cases hread : stageOf (tag? "Type" header) with
    | error fault =>
      rw [hread] at h
      cases h
      exact hstage _ hread
    | ok stage =>
      rw [hread] at h
      cases h

/-- **What a header declares.** -/
theorem declaredBy_of_ofHeader (hline : '\n' ∉ header) (h : ofHeader header = .ok d) :
    d.DeclaredBy header := by
  obtain ⟨v, hname, hd, hentry, -⟩ := ofHeader_ok h
  constructor
  · obtain ⟨s, hs, rfl⟩ := tag?_eq_some hline hname
    exact ⟨s, hs, by rw [hd, String.toList_ofList]⟩
  · cases htag : tag? Tag.entryPoint.word header with
    | none =>
      refine .inr ⟨(tag?_eq_none_iff hline).1 htag, ?_⟩
      rw [hentry, htag, Option.getD_none, String.ofList_toList]
    | some v =>
      obtain ⟨s, hs, rfl⟩ := tag?_eq_some hline htag
      refine .inl ⟨s, hs, ?_⟩
      rw [hentry, htag, Option.getD_some, String.toList_ofList]

theorem isClean_of_tag? {T : Tag} {v : List Char} (hline : '\n' ∉ header)
    (h : tag? T.word header = some v) : Header.IsClean v := by
  obtain ⟨s, hs, rfl⟩ := tag?_eq_some hline h
  obtain ⟨hcomma, hlineFeed⟩ := hs.not_mem hline
  exact isClean_trim hcomma hlineFeed

/-- **What a header declares is clean.** -/
theorem isClean_of_ofHeader (hline : '\n' ∉ header) (h : ofHeader header = .ok d) : d.IsClean := by
  obtain ⟨v, hname, hd, hentry, hdefines⟩ := ofHeader_ok h
  constructor
  · rw [hd, String.toList_ofList]
    exact isClean_of_tag? hline hname
  · rw [hentry, String.toList_ofList]
    cases htag : tag? Tag.entryPoint.word header with
    | none => exact ⟨by decide, by decide, by decide⟩
    | some v => exact isClean_of_tag? hline htag
  · intro x hx
    rw [hdefines] at hx
    obtain ⟨piece, hpiece, hne, hx⟩ := exists_of_mem_defines hx
    -- the value of the tag is clean, and so is each piece of it
    have hvalue : ',' ∉ (tag? Tag.defines.word header).getD [] ∧
        '\n' ∉ (tag? Tag.defines.word header).getD [] := by
      cases htag : tag? Tag.defines.word header with
      | none => simp
      | some v => exact ⟨(isClean_of_tag? hline htag).comma, (isClean_of_tag? hline htag).lineFeed⟩
    rw [hx]
    refine ⟨isClean_trim (fun hc => hvalue.1 (mem_of_mem_splitSemicolon hpiece hc).1)
      (fun hc => hvalue.2 (mem_of_mem_splitSemicolon hpiece hc).1), hne, fun hc => ?_⟩
    exact (mem_of_mem_splitSemicolon hpiece (mem_of_mem_trim hc)).2 rfl

/-- A name is empty exactly if the header leaves it blank. -/
theorem DeclaredBy.name_eq_empty_iff (hline : '\n' ∉ header) (h : d.DeclaredBy header) :
    d.name = "" ↔ Tag.name.Blank header := by
  obtain ⟨s, hs, hname⟩ := h.name
  rw [← String.toList_eq_nil_iff, hname, hs.trim_eq_nil_iff hline]

/-- An entry point is empty exactly if the header leaves it blank. -/
theorem DeclaredBy.entryPoint_eq_empty_iff (hline : '\n' ∉ header) (h : d.DeclaredBy header) :
    d.entryPoint = "" ↔ Tag.entryPoint.Blank header := by
  rcases h.entryPoint with ⟨s, hs, hentry⟩ | ⟨hmissing, hmain⟩
  · rw [← String.toList_eq_nil_iff, hentry, hs.trim_eq_nil_iff hline]
  · constructor
    · intro hempty
      rw [hmain] at hempty
      exact absurd hempty (by decide)
    · rintro ⟨s, ⟨before, rest, hstands, -⟩, -⟩
      exact absurd hstands (hmissing before rest)

/-! ## The lines of a file -/

/-- A line has a marker, and the header behind it has no name. -/
def LacksName (line : List Char) : Prop :=
  ∃ header, ofLine? line = some header ∧ Tag.name.Missing header

/-- What is done on a line: it is passed over, its directive is taken, or reading fails there. -/
inductive Treats (path : Path) (seen : List Directive) (n : Nat) (line : List Char) : Prop
  | passes (bare : ofLine? line = none)
      (next : ∀ rest, ofLines path seen ((n, line) :: rest) = ofLines path seen rest)
  | takes {header : List Char} {d : Directive} (marked : ofLine? line = some header)
      (read : ofHeader header = .ok d)
      (next : ∀ rest, ofLines path seen ((n, line) :: rest) = ofLines path (seen ++ [d]) rest)
  | fails {e : Error} (reason : ∀ tag p m, e = .missingTag tag p m ↔
        tag = "Name" ∧ p = path ∧ m = n ∧ LacksName line)
      (next : ∀ rest, ofLines path seen ((n, line) :: rest) = .error e)

theorem not_mem_of_ofLine? (hline : '\n' ∉ line) (h : ofLine? line = some header) :
    '\n' ∉ header := by
  obtain ⟨⟨before, header⟩, hsearch, rfl⟩ := Option.map_eq_some_iff.1 h
  obtain ⟨⟨rest, rfl, hread⟩, -⟩ := search_eq_some hsearch
  obtain ⟨comment, -, rfl⟩ := at?_eq_some_iff.1 hread
  intro hmem
  exact hline (by simp [hmem])

theorem lacksName_iff (hline : '\n' ∉ line) (h : ofLine? line = some header) :
    LacksName line ↔ ofHeader header = .error .missingName := by
  rw [ofHeader_missing_iff, tag?_eq_none_iff (not_mem_of_ofLine? hline h)]
  constructor
  · rintro ⟨header', h', hmissing⟩
    rw [h] at h'
    rwa [Option.some.inj h']
  · exact fun hmissing => ⟨header, h, hmissing⟩

theorem treats (hline : '\n' ∉ line) (path : Path) (seen : List Directive) (n : Nat) :
    Treats path seen n line := by
  cases hheader : ofLine? line with
  | none => exact .passes hheader fun rest => by rw [ofLines, hheader]
  | some header =>
    have hlacks := lacksName_iff hline hheader
    cases hread : ofHeader header with
    | error fault =>
      refine .fails (e := fault.error path n) (fun tag p m => ?_) fun rest => by
        rw [ofLines, hheader]
        simp only [hread]
      rw [hlacks, hread]
      cases fault <;> simp [HeaderFault.error, eq_comm]
    | ok d =>
      have hreads : ReadAs line (some d) := ⟨header, hheader, hread⟩
      by_cases hseen : d.name ∈ seen.map (·.name)
      · refine .fails (fun tag p m => ?_) fun rest =>
          (ofLines_directive hreads seen n rest).trans (if_pos hseen)
        rw [hlacks, hread]
        simp
      · exact .takes hheader hread fun rest =>
          (ofLines_directive hreads seen n rest).trans (if_neg hseen)

/-- The directives that are read are those of the headers. -/
theorem ofLines_ok (hlines : ∀ line ∈ lines, '\n' ∉ line)
    (h : ofLines path seen (numbered k lines) = .ok ds) : ∃ new, ds = seen ++ new ∧
      List.Forall₂ (fun header d => ofHeader header = .ok d) (lines.filterMap ofLine?) new := by
  induction lines generalizing seen k with
  | nil =>
    cases h
    exact ⟨[], by simp, .nil⟩
  | cons line lines ih =>
    have hrest := fun line hline => hlines line (List.mem_cons_of_mem _ hline)
    rw [numbered_cons] at h
    cases treats (hlines line List.mem_cons_self) path seen (k + 1) with
    | passes bare next =>
      rw [List.filterMap_cons_none bare]
      exact ih hrest (next _ ▸ h)
    | @takes header d marked read next =>
      obtain ⟨new, rfl, hnew⟩ := ih hrest (next _ ▸ h)
      rw [List.filterMap_cons_some marked]
      exact ⟨d :: new, by simp, .cons read hnew⟩
    | fails _ next =>
      rw [next] at h
      cases h

/-- A place in a list is the first one, or one behind it. -/
theorem exists_place_cons {α : Type} {P : List α → α → Prop} {a : α} {as : List α} :
    (∃ front b back, a :: as = front ++ b :: back ∧ P front b) ↔
      P [] a ∨ ∃ front b back, as = front ++ b :: back ∧ P (a :: front) b := by
  constructor
  · rintro ⟨front, b, back, hsplit, hP⟩
    cases front with
    | nil =>
      obtain ⟨rfl, -⟩ := List.cons.inj hsplit
      exact .inl hP
    | cons first front =>
      obtain ⟨rfl, htail⟩ := List.cons.inj hsplit
      exact .inr ⟨front, b, back, htail, hP⟩
  · rintro (hP | ⟨front, b, back, rfl, hP⟩)
    · exact ⟨[], a, as, rfl, hP⟩
    · exact ⟨a :: front, b, back, rfl, hP⟩

/-- **A name is found missing** on the first line that lacks it, if reading gets there. -/
theorem ofLines_missing_iff (hlines : ∀ line ∈ lines, '\n' ∉ line) :
    ofLines path seen (numbered k lines) = .error (.missingTag tag p n) ↔
      tag = "Name" ∧ p = path ∧ ∃ front line back, lines = front ++ line :: back ∧
        n = k + front.length + 1 ∧ LacksName line ∧
        ∃ ds, ofLines path seen (numbered k front) = .ok ds := by
  induction lines generalizing seen k with
  | nil => simp [numbered, ofLines]
  | cons line lines ih =>
    have hrest := fun line hline => hlines line (List.mem_cons_of_mem _ hline)
    have hline := hlines line List.mem_cons_self
    have hnumber : ∀ front : List (List Char),
        k + (line :: front).length + 1 = k + 1 + front.length + 1 := by
      intro front
      rw [List.length_cons]
      omega
    rw [exists_place_cons]
    simp only [hnumber, numbered_cons]
    cases treats hline path seen (k + 1) with
    | passes bare next =>
      have hnamed : ¬ LacksName line := by
        rintro ⟨header, hheader, -⟩
        rw [bare] at hheader
        cases hheader
      simp only [next, ih hrest, hnamed, false_and, and_false, false_or]
    | takes marked read next =>
      have hnamed : ¬ LacksName line := by
        rw [lacksName_iff hline marked, read]
        simp
      simp only [next, ih hrest, hnamed, false_and, and_false, false_or]
    | fails reason next =>
      have hstart : ∃ ds, ofLines path seen (numbered k []) = .ok ds := ⟨seen, rfl⟩
      simp only [next, Except.error.injEq, reason, reduceCtorEq, exists_false, and_false, or_false,
        List.length_nil, Nat.add_zero, and_iff_left hstart]

theorem isSome_ofLine?_iff : (ofLine? line).isSome = true ↔ HasMarker line := by
  rw [← not_iff_not, Bool.not_eq_true, Option.isSome_eq_false_iff, Option.isNone_iff_eq_none,
    ofLine?_eq_none_iff]

instance (line : List Char) : Decidable (HasMarker line) := decidable_of_iff _ isSome_ofLine?_iff

/-- The directives of a file are those of the headers on its lines. -/
theorem forall₂_ofText (h : ofText path text = .ok ds) :
    List.Forall₂ (fun header d => '\n' ∉ header ∧ ofHeader header = .ok d)
      ((Text.lines text).filterMap ofLine?) ds := by
  have hlines : ∀ line ∈ Text.lines text, '\n' ∉ line := (lines_eq_iff.1 rfl).not_mem
  obtain ⟨new, hnew, hread⟩ := ofLines_ok hlines h
  obtain rfl : ds = new := hnew
  refine (List.forall₂_and_left _ _).2 ⟨fun header hmem => ?_, hread⟩
  obtain ⟨line, hline, hheader⟩ := List.mem_filterMap.1 hmem
  exact not_mem_of_ofLine? (hlines line hline) hheader

theorem isClean_of_ofText (h : ofText path text = .ok ds) (hd : d ∈ ds) : d.IsClean := by
  obtain ⟨header, -, hline, hread⟩ := exists_left_of_forall₂ (forall₂_ofText h) hd
  exact isClean_of_ofHeader hline hread

/-- **Every directive that is accepted is clean**, up to blank names and entry points. The names
differ, there is one directive for each line with a marker, and its name and entry point are what
the header holds for them; either of them is empty exactly if the header leaves it blank. A name is
missing exactly if its tag stands nowhere behind a marker, and the error has the number of that
line. -/
theorem accepted_directives_are_clean (path : Path) (text : List Char) :
    (∀ ds, ofText path text = .ok ds →
      (∀ d ∈ ds, d.IsClean) ∧ (ds.map (·.name)).Nodup ∧
      ds.length = (Text.lines text).countP (fun line => HasMarker line) ∧
      List.Forall₂ (fun header d => d.DeclaredBy header ∧
        (d.name = "" ↔ Tag.name.Blank header) ∧ (d.entryPoint = "" ↔ Tag.entryPoint.Blank header))
        ((Text.lines text).filterMap ofLine?) ds) ∧
    ∀ tag p n, ofText path text = .error (.missingTag tag p n) ↔ tag = "Name" ∧ p = path ∧
      ∃ front line back, Text.lines text = front ++ line :: back ∧ n = front.length + 1 ∧
        LacksName line ∧ ∃ ds, ofLines path [] (numbered 0 front) = .ok ds := by
  constructor
  · intro ds h
    have hread := forall₂_ofText h
    refine ⟨fun d hd => isClean_of_ofText h hd, nodup_ofText h, ?_, hread.imp fun header d hd => ?_⟩
    · rw [← hread.length_eq, List.length_filterMap_eq_countP]
      refine List.countP_congr fun line _ => ?_
      rw [decide_eq_true_iff, ← isSome_ofLine?_iff]
    · obtain ⟨hline, hread⟩ := hd
      have hheader := declaredBy_of_ofHeader hline hread
      exact ⟨hheader, hheader.name_eq_empty_iff hline, hheader.entryPoint_eq_empty_iff hline⟩
  · intro tag p n
    have hlines : ∀ line ∈ Text.lines text, '\n' ∉ line := (lines_eq_iff.1 rfl).not_mem
    have hnumbered : numberedLines text = numbered 0 (Text.lines text) := rfl
    rw [ofText, hnumbered, ofLines_missing_iff hlines]
    simp only [Nat.zero_add]

/-- **A name and an entry point that are blank are accepted** as empty ones. -/
theorem blank_name_is_accepted : ∃ ds,
    ofText ⟨"a.hlsl"⟩ "// ShaderCompiler. Name: , EntryPoint:".toList = .ok ds ∧
      ∃ d ∈ ds, d.name = "" ∧ d.entryPoint = "" :=
  ⟨[⟨"", "", .pixel, []⟩], rfl, by simp⟩

end Directive

end ShaderBuild
