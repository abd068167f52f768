import ShaderBuild.Proofs.FileTree.Walk
import ShaderBuild.Proofs.Target.Header

/-!
# Headers that need no writing

Generating writes no header exactly when every header keeps its text although all of its regions
are replaced (`generate_eq_zero_iff`). A header keeps it when each region reads what is generated
for it (`spliceAll_of_reads`). The regions of the shader header come from the generated files and
nothing else (`shaderRegions_congr`).
-/

namespace ShaderBuild.Target

open Action FileTree Text

/-! ## Reading a region -/

theorem suffix_of_afterWord {word text rest : List Char} (h : afterWord word text = some rest) :
    rest <:+ text := by
  induction word generalizing text with
  | nil =>
    cases h
    exact List.suffix_rfl
  | cons w word ih =>
    cases text with
    | nil => cases h
    | cons c text =>
      rw [afterWord] at h
      split at h
      · exact (ih h).trans (List.suffix_cons c text)
      · cases h

theorem marker?_eq_some {word text comment rest : List Char}
    (h : marker? word text = some (comment, rest)) : text = comment ++ rest := by
  unfold marker? at h
  split at h
  · next r =>
    obtain ⟨rest', hrest, heq⟩ := Option.map_eq_some_iff.1 h
    obtain ⟨rfl, rfl⟩ := Prod.mk.inj heq
    have hsuffix : rest' <:+ '/' :: '/' :: r :=
      ((suffix_of_afterWord hrest).trans (List.dropWhile_suffix isBlank)).trans
        ((List.suffix_cons _ _).trans (List.suffix_cons _ _))
    exact (List.suffix_iff_eq_append.1 hsuffix).symm
  · cases h

/-- The text in the region of a tag, if both markers are there. -/
def regionOf (tag text : List Char) : Option (List Char) := do
  let (_, rest) ← throughMarker? ("Begin".toList ++ tag) text
  let tail ← fromMarker? ("End".toList ++ tag) rest
  return rest.take (rest.length - tail.length)

/-- Where a region is, and what replacing its content makes of the text. -/
theorem regionOf_eq_some {tag text region : List Char} (h : regionOf tag text = some region) :
    ∃ head tail, text = head ++ region ++ tail ∧
      ∀ content, splice tag content text = some (head ++ '\n' :: content ++ tail) := by
  unfold regionOf at h
  obtain ⟨⟨head, rest⟩, hbegin, h⟩ := Option.bind_eq_some_iff.1 h
  obtain ⟨tail, hend, h⟩ := Option.bind_eq_some_iff.1 h
  obtain rfl := Option.some.inj h
  have htext : text = head ++ rest := by
    unfold throughMarker? at hbegin
    obtain ⟨⟨before, comment, rest'⟩, hsearch, heq⟩ := Option.map_eq_some_iff.1 hbegin
    obtain ⟨rfl, rfl⟩ := Prod.mk.inj heq
    obtain ⟨⟨found, rfl, hfound⟩, -⟩ := search_eq_some hsearch
    rw [marker?_eq_some hfound, List.append_assoc]
  have hrest : rest = rest.take (rest.length - tail.length) ++ tail := by
    unfold fromMarker? at hend
    obtain ⟨⟨before, comment, rest'⟩, hsearch, heq⟩ := Option.map_eq_some_iff.1 hend
    obtain ⟨⟨found, hsplit, hfound⟩, -⟩ := search_eq_some hsearch
    have htail : found = tail := (marker?_eq_some hfound).trans heq
    exact (List.suffix_iff_eq_append.1 ⟨before, by rw [hsplit, htail]⟩).symm
  refine ⟨head, tail, ?_, fun content => ?_⟩
  · rw [List.append_assoc, ← hrest, htext]
  · unfold splice
    rw [hbegin]
    simp only [bind, Option.bind_some, hend, pure]

/-- A text stays when a region is replaced by what it reads. -/
theorem splice_of_regionOf {tag text content : List Char}
    (h : regionOf tag text = some ('\n' :: content)) : splice tag content text = some text := by
  obtain ⟨head, tail, htext, hsplice⟩ := regionOf_eq_some h
  rw [hsplice, ← htext]

/-- A region reads its content. -/
def Region.ReadIn (r : Region) (text : List Char) : Prop :=
  regionOf r.tag.toList text = some ('\n' :: r.content.toList)

/-- A text stays when all its regions are replaced by what they read. -/
theorem spliceAll_of_reads {regions : List Region} {text : List Char}
    (h : ∀ r ∈ regions, r.ReadIn text) : spliceAll text regions = .ok text := by
  induction regions with
  | nil => rfl
  | cons r regions ih =>
    rw [spliceAll, splice_of_regionOf (h r List.mem_cons_self)]
    exact ih fun r' hr' => h r' (List.mem_cons_of_mem _ hr')

/-! ## Writing no header -/

variable {s : Settings} {t u : FileTree} {σ σ' : Session}

/-- A header keeps its text although all its regions are replaced. -/
def Keeps (t : FileTree) (header : Path × List Region) : Prop :=
  ∃ text, t.readText header.1 = .ok text ∧ spliceAll text header.2 = .ok text

theorem isFile_of_readText {p : Path} {text : List Char} (h : t.readText p = .ok text) :
    t.isFile p = true := by
  obtain ⟨modified, hread⟩ := readText_ok_iff.1 h
  unfold isFile
  rw [read_ok_iff.1 hread]

/-- Replacing leaves a header alone when that keeps its text, and else writes the new one. -/
theorem replace_cases {p : Path} {regions : List Region} {written : Bool}
    (h : (replace p regions).runOn σ = (.ok written, σ')) : ∃ old new,
      σ.tree.readText p = .ok old ∧ spliceAll old regions = .ok new ∧
      (written = false ∧ new = old ∧ σ'.tree = σ.tree ∨
        written = true ∧ σ.tree.writeText p new = (.ok (), σ'.tree)) := by
  unfold replace at h
  rw [runOn_bind_of_ok (runOn_tree _)] at h
  split at h
  · rw [runOn_bind_of_error (runOn_throw _ _)] at h
    cases h
  unfold update at h
  obtain ⟨old, σ₁, hlook, hrest⟩ := runOn_bind_ok_iff.1 h
  obtain ⟨hold, rfl⟩ := look_ok_iff.1 hlook
  cases hnew : spliceAll old regions with
  | error tag =>
    simp only [hnew, runOn_throw] at hrest
    cases hrest
  | ok new =>
    refine ⟨old, new, hold, hnew, ?_⟩
    simp only [hnew] at hrest
    split at hrest
    · next heq =>
      cases hrest
      exact .inl ⟨rfl, heq, rfl⟩
    · obtain ⟨_, σ₂, hwrite, hend⟩ := runOn_bind_ok_iff.1 hrest
      obtain ⟨htree, ⟨-, hok⟩ | ⟨fault, herror, -⟩⟩ := changeAt_cases hwrite
      · cases hend
        refine .inr ⟨rfl, Prod.ext hok ?_⟩
        exact htree.symm
      · cases herror

/-- A header that is not written keeps its text. -/
theorem keeps_of_replace {p : Path} {regions : List Region}
    (h : (replace p regions).runOn σ = (.ok false, σ')) :
    Keeps σ.tree (p, regions) ∧ σ'.tree = σ.tree := by
  obtain ⟨old, new, hold, hnew, ⟨-, rfl, htree⟩ | ⟨htrue, -⟩⟩ := replace_cases h
  · exact ⟨⟨new, hold, hnew⟩, htree⟩
  · cases htrue

theorem replace_of_keeps {p : Path} {regions : List Region} (h : Keeps σ.tree (p, regions)) :
    ∃ σ', (replace p regions).runOn σ = (.ok false, σ') ∧ σ'.tree = σ.tree := by
  obtain ⟨text, htext, hsplice⟩ := h
  refine ⟨{ σ with log := σ.log ++ [.headerUnchanged p] }, ?_, rfl⟩
  unfold replace
  rw [runOn_bind_of_ok (runOn_tree _), isFile_of_readText htext]
  unfold update
  refine runOn_bind_ok_iff.2 ⟨text, σ, look_ok_iff.2 ⟨htext, rfl⟩, ?_⟩
  simp only [hsplice, if_true]
  rfl

/-- No header is written when all of them keep their text. -/
theorem replaceAll_eq_zero_iff {headers : List (Path × List Region)} :
    (∃ σ', (replaceAll headers).runOn σ = (.ok 0, σ')) ↔
      ∀ header ∈ headers, Keeps σ.tree header := by
  induction headers generalizing σ with
  | nil =>
    constructor
    · intro _ header hheader
      cases hheader
    · exact fun _ => ⟨σ, rfl⟩
  | cons header headers ih =>
    rw [List.forall_mem_cons]
    constructor
    · rintro ⟨σ', h⟩
      obtain ⟨written, σ₁, more, hfirst, hrest, hzero⟩ := replaceAll_cons_ok_iff.1 h
      cases written with
      | true =>
        rw [if_pos rfl] at hzero
        omega
      | false =>
        obtain ⟨hkeeps, htree⟩ := keeps_of_replace hfirst
        obtain rfl : 0 = more := by simpa using hzero
        refine ⟨hkeeps, ?_⟩
        rw [← htree]
        exact ih.1 ⟨σ', hrest⟩
    · rintro ⟨hfirst, hrest⟩
      obtain ⟨σ₁, hrun, htree⟩ := replace_of_keeps hfirst
      rw [← htree] at hrest
      obtain ⟨σ₂, hmore⟩ := ih.2 hrest
      exact ⟨σ₂, replaceAll_cons_ok_iff.2 ⟨false, σ₁, 0, hrun, hmore, rfl⟩⟩

/-- A header has been given its regions. -/
def Spliced (t : FileTree) (header : Path × List Region) : Prop :=
  ∃ old text, spliceAll old header.2 = .ok text ∧ t.readText header.1 = .ok text

theorem content?_of_readText {p : Path} {text : List Char} (h : t.readText p = .ok text) :
    t.content? p = some (encode text) := by
  obtain ⟨modified, hread⟩ := readText_ok_iff.1 h
  exact content?_eq_some_iff.2 ⟨modified, file?_of_read hread⟩

/-- Between two trees a header has been given its regions. -/
def SplicedFrom (t u : FileTree) (header : Path × List Region) : Prop :=
  ∃ old text, t.content? header.1 = some (encode old) ∧ spliceAll old header.2 = .ok text ∧
    u.readText header.1 = .ok text

namespace SplicedFrom

variable {v : FileTree} {S : Path → Prop} {header : Path × List Region}

theorem spliced (h : SplicedFrom t u header) : Spliced u header := by
  obtain ⟨old, text, -, hsplice, htext⟩ := h
  exact ⟨old, text, hsplice, htext⟩

/-- What is altered elsewhere afterwards makes no difference. -/
theorem trans (h : SplicedFrom t u header) (halters : AltersOnly S u v)
    (hS : ∀ q, S q → q.locate u.here ≠ header.1.locate u.here) : SplicedFrom t v header := by
  obtain ⟨old, text, hold, hsplice, htext⟩ := h
  obtain ⟨modified, hread⟩ := readText_ok_iff.1 htext
  exact ⟨old, text, hold, hsplice, readText_ok_iff.2 ⟨modified, halters.read hS hread⟩⟩

/-- Neither does what was altered elsewhere before. -/
theorem of_altersOnly (halters : AltersOnly S t u)
    (hS : ∀ q, S q → q.locate t.here ≠ header.1.locate t.here) (h : SplicedFrom u v header) :
    SplicedFrom t v header := by
  obtain ⟨old, text, hold, hrest⟩ := h
  refine ⟨old, text, ?_, hrest⟩
  unfold content? at hold ⊢
  rwa [halters.file?_eq hS] at hold

/-- What a header holds then follows from what it held before. -/
theorem content?_eq {t' u' : FileTree} (h : SplicedFrom t u header) (h' : SplicedFrom t' u' header)
    (hsame : t'.content? header.1 = t.content? header.1) :
    u'.content? header.1 = u.content? header.1 := by
  obtain ⟨old, text, hold, hsplice, htext⟩ := h
  obtain ⟨old', text', hold', hsplice', htext'⟩ := h'
  rw [hold, hold', Option.some.injEq] at hsame
  obtain rfl := encode_injective hsame
  obtain rfl : text' = text := Except.ok.inj (hsplice'.symm.trans hsplice)
  rw [content?_of_readText htext, content?_of_readText htext']

end SplicedFrom

theorem spliced_of_replace {p : Path} {regions : List Region} {written : Bool}
    (h : (replace p regions).runOn σ = (.ok written, σ')) :
    SplicedFrom σ.tree σ'.tree (p, regions) := by
  obtain ⟨old, new, hold, hnew, ⟨-, rfl, htree⟩ | ⟨-, hwrite⟩⟩ := replace_cases h
  · refine ⟨new, new, content?_of_readText hold, hnew, ?_⟩
    rw [htree]
    exact hold
  · refine ⟨old, new, content?_of_readText hold, hnew, readText_ok_iff.2 ⟨σ.tree.clock, ?_⟩⟩
    change σ.tree.write p (Text.encode new) = _ at hwrite
    have hwritten : (σ.tree.write p (Text.encode new)).1 = .ok () := by rw [hwrite]
    have hread := read_write hwritten
    rwa [hwrite] at hread

/-- The first header of a row has its regions behind all replacements, unless it is replaced
again. -/
theorem spliced_of_replaceAll_cons {header : Path × List Region}
    {headers : List (Path × List Region)} {written : Nat}
    (h : (replaceAll (header :: headers)).runOn σ = (.ok written, σ'))
    (hapart : ∀ later ∈ headers, later.1.locate σ.tree.here ≠ header.1.locate σ.tree.here) :
    SplicedFrom σ.tree σ'.tree header := by
  obtain ⟨first, σ₁, more, hfirst, hrest, -⟩ := replaceAll_cons_ok_iff.1 h
  refine (spliced_of_replace hfirst).trans ((replaceAll_altersOnly headers).of_runOn hrest) ?_
  intro q hq
  obtain ⟨later, hlater, rfl⟩ := List.mem_map.1 hq
  rw [((replace_altersOnly header.1 header.2).of_runOn hfirst).here]
  exact hapart later hlater

/-- Behind a row of replacements all headers have been given their regions. -/
theorem spliced_of_replaceAll {headers : List (Path × List Region)} {written : Nat}
    (h : (replaceAll headers).runOn σ = (.ok written, σ'))
    (hapart : headers.Pairwise fun a b => b.1.locate σ.tree.here ≠ a.1.locate σ.tree.here) :
    ∀ header ∈ headers, SplicedFrom σ.tree σ'.tree header := by
  induction headers generalizing σ written with
  | nil =>
    intro header hheader
    cases hheader
  | cons header headers ih =>
    obtain ⟨hfirstApart, hrestApart⟩ := List.pairwise_cons.1 hapart
    refine List.forall_mem_cons.2 ⟨spliced_of_replaceAll_cons h hfirstApart,
      fun later hlater => ?_⟩
    obtain ⟨first, σ₁, more, hfirst, hrest, -⟩ := replaceAll_cons_ok_iff.1 h
    have halters := (replace_altersOnly header.1 header.2).of_runOn hfirst
    rw [← halters.here] at hrestApart
    refine .of_altersOnly halters ?_ (ih hrest hrestApart later hlater)
    rintro q rfl
    exact (hfirstApart later hlater).symm

/-- The headers with the regions that are generated for them. -/
def headers (s : Settings) (shader : List Region) (ss : List Hlsl.Struct) :
    List (Path × List Region) :=
  [(s.shaderHeader, shader), (s.constantBufferHeader, [constantBuffers ss]),
    (s.vertexLayoutHeader, vertexLayouts ss)]

theorem generate_eq (s : Settings) (ss : List Hlsl.Struct) : generate s ss =
    shaderRegions s >>= fun shader =>
      ((withRole .vertexLayout ss).flatMap inputWarnings).forM Action.tell >>= fun _ =>
        replaceAll (headers s shader ss) := rfl

theorem runOn_forM_tell (notices : List Notice) (σ : Session) :
    (notices.forM Action.tell).runOn σ = (.ok (), { σ with log := σ.log ++ notices }) := by
  induction notices generalizing σ with
  | nil =>
    rw [List.append_nil]
    rfl
  | cons n notices ih =>
    show (tell n >>= fun _ => notices.forM tell).runOn σ = _
    rw [runOn_bind_of_ok (runOn_tell n σ), ih, List.append_assoc]
    rfl

/-- Generating makes the regions of the shader header and then replaces those of all headers. -/
theorem generate_ok {ss : List Hlsl.Struct} {written : Nat}
    (h : (generate s ss).runOn σ = (.ok written, σ')) :
    ∃ shader σ₁, (shaderRegions s).answer σ.tree = .ok shader ∧ σ₁.tree = σ.tree ∧
      (replaceAll (headers s shader ss)).runOn σ₁ = (.ok written, σ') := by
  rw [generate_eq] at h
  obtain ⟨shader, σ₁, hshader, h⟩ := runOn_bind_ok_iff.1 h
  rw [runOn_bind_of_ok (runOn_forM_tell _ _)] at h
  obtain ⟨hanswer, htree, -⟩ := (looks_shaderRegions s).answer_of_runOn hshader
  exact ⟨shader, { σ₁ with log := σ₁.log ++ _ }, hanswer, htree, h⟩

/-- Generating gives all headers their regions. -/
theorem spliced_of_generate {ss : List Hlsl.Struct} {written : Nat}
    (hapart : s.headers.Pairwise fun p q => p.locate σ.tree.here ≠ q.locate σ.tree.here)
    (h : (generate s ss).runOn σ = (.ok written, σ')) :
    ∃ shader, (shaderRegions s).answer σ.tree = .ok shader ∧
      ∀ header ∈ headers s shader ss, SplicedFrom σ.tree σ'.tree header := by
  obtain ⟨shader, σ₁, hanswer, htree, h⟩ := generate_ok h
  have hpaths : (headers s shader ss).map (·.1) = s.headers := rfl
  rw [← hpaths, List.pairwise_map, ← htree] at hapart
  have hspliced := spliced_of_replaceAll h (hapart.imp Ne.symm)
  rw [htree] at hspliced
  exact ⟨shader, hanswer, hspliced⟩

/-- Generating the headers writes none exactly when all of them keep their text. -/
theorem generate_eq_zero_iff {ss : List Hlsl.Struct} : (generate s ss).answer t = .ok 0 ↔
    ∃ shader, (shaderRegions s).answer t = .ok shader ∧
      ∀ header ∈ headers s shader ss, Keeps t header := by
  rw [answer_ok_iff]
  constructor
  · rintro ⟨σ, h⟩
    obtain ⟨shader, σ₁, hanswer, htree, h⟩ := generate_ok h
    have hkeeps := replaceAll_eq_zero_iff.1 ⟨σ, h⟩
    rw [show σ₁.tree = t from htree] at hkeeps
    exact ⟨shader, hanswer, hkeeps⟩
  · rintro ⟨shader, hshader, hkeeps⟩
    obtain ⟨log, hlog⟩ := (looks_shaderRegions s).runOn_eq { tree := t }
    rw [hshader] at hlog
    rw [generate_eq, runOn_bind_of_ok hlog, runOn_bind_of_ok (runOn_forM_tell _ _)]
    exact replaceAll_eq_zero_iff.2 hkeeps

/-- The regions that are generated, by their headers. -/
def regionTags (s : Settings) : List (Path × String) :=
  [(s.shaderHeader, "Include"), (s.shaderHeader, "ShaderByteCode"),
    (s.constantBufferHeader, "ConstantBuffer"), (s.vertexLayoutHeader, "VertexFormat"),
    (s.vertexLayoutHeader, "VertexInputLayout")]

theorem mem_headers_of_regionTags {p : Path} {tag : String} (h : (p, tag) ∈ regionTags s) :
    p ∈ s.headers := by
  simp only [regionTags, List.mem_cons, Prod.mk.injEq, List.not_mem_nil, or_false] at h
  unfold Settings.headers
  rcases h with ⟨rfl, -⟩ | ⟨rfl, -⟩ | ⟨rfl, -⟩ | ⟨rfl, -⟩ | ⟨rfl, -⟩ <;> simp

/-- Only these regions are generated. -/
theorem mem_regionTags {ss : List Hlsl.Struct} {shader : List Region}
    (hshader : (shaderRegions s).answer t = .ok shader) {header : Path × List Region}
    (hheader : header ∈ headers s shader ss) {r : Region} (hr : r ∈ header.2) :
    (header.1, r.tag) ∈ regionTags s := by
  obtain ⟨names, lines, -, -, rfl⟩ := shaderRegions_ok_iff.1 hshader
  simp only [headers, List.mem_cons, List.not_mem_nil, or_false] at hheader
  unfold regionTags
  rcases hheader with rfl | rfl | rfl
  · simp only [List.mem_cons, List.not_mem_nil, or_false] at hr
    rcases hr with rfl | rfl <;> simp
  · obtain rfl := List.mem_singleton.1 hr
    simp [constantBuffers]
  · simp only [vertexLayouts, List.mem_cons, List.not_mem_nil, or_false] at hr
    rcases hr with rfl | rfl <;> simp

theorem regions_ne_nil {ss : List Hlsl.Struct} {shader : List Region}
    (hshader : (shaderRegions s).answer t = .ok shader) {header : Path × List Region}
    (hheader : header ∈ headers s shader ss) : header.2 ≠ [] := by
  obtain ⟨names, lines, -, -, rfl⟩ := shaderRegions_ok_iff.1 hshader
  simp only [headers, vertexLayouts, List.mem_cons, List.not_mem_nil, or_false] at hheader
  rcases hheader with rfl | rfl | rfl <;> exact List.cons_ne_nil _ _

/-- What the region of a tag reads in the header at the location of a path. -/
def region? (t : FileTree) (p : Path) (tag : String) : Option (List Char) :=
  (t.content? p).bind fun bytes => (decode? bytes).bind (regionOf tag.toList)

theorem region?_of_readText {p : Path} {text : List Char} (h : t.readText p = .ok text)
    (tag : String) : region? t p tag = regionOf tag.toList text := by
  unfold region?
  rw [content?_of_readText h]
  simp only [Option.bind_some, decode?_encode]

theorem region?_congr {S : Path → Prop} (h : AltersOnly S t u) {p : Path}
    (hS : ∀ q, S q → q.locate t.here ≠ p.locate t.here) (tag : String) :
    region? u p tag = region? t p tag := by
  unfold region? content?
  rw [h.file?_eq hS]

/-! ## The generated files -/

/-- What the file with a name in the generated folder holds, if it has the generated extension. -/
def generated? (s : Settings) (t : FileTree) (n : String) : Option (List UInt8) :=
  if s.generatedExtension.toList.isSuffixOf n.toList then
    match t.at? (s.generatedFolder.locate t.here ++ [n]) with
    | some (.file content _) => some content
    | _ => none
  else none

theorem generated?_eq_some_iff {n : String} {content : List UInt8} :
    generated? s t n = some content ↔ s.generatedExtension.toList.isSuffixOf n.toList = true ∧
      ∃ modified, t.at? (s.generatedFolder.locate t.here ++ [n])
        = some (.file content modified) := by
  unfold generated?
  split
  · next hextension =>
    rw [and_iff_right hextension]
    split
    · next found modified hat => simp [hat]
    · next hat =>
      constructor
      · intro h
        cases h
      · rintro ⟨modified, h⟩
        exact absurd h (hat content modified)
  · next hextension => simp [hextension]

theorem isName_of_generated? {n : String} {content : List UInt8} (hnamed : t.WellNamed)
    (h : generated? s t n = some content) : Path.IsName n := by
  obtain ⟨-, modified, hat⟩ := generated?_eq_some_iff.1 h
  exact wellNamed_iff.1 hnamed _ _ hat n (List.mem_append_right _ List.mem_cons_self)

theorem read_of_generated? {names : List String} (hnames : t.filesIn s.generatedFolder = .ok names)
    {n : String} (hname : Path.IsName n) {content : List UInt8}
    (h : generated? s t n = some content) :
    ∃ modified, t.read (s.generatedFolder.child n) = .ok (content, modified) := by
  obtain ⟨-, modified, hat⟩ := generated?_eq_some_iff.1 h
  exact ⟨modified, read_child_of_filesIn hnames hname hat⟩

/-- The files that the regions of the shader header are made from. -/
theorem mem_filter_filesIn_iff {names : List String} (h : t.filesIn s.generatedFolder = .ok names)
    {n : String} : (n ∈ names.filter fun n =>
      s.generatedExtension.toList.isSuffixOf n.toList) ↔
      ∃ content, generated? s t n = some content := by
  rw [List.mem_filter, mem_filesIn_iff h, and_comm]
  simp only [generated?_eq_some_iff, exists_and_left]

/-- The generated folder has a path when the regions of the shader header can be made. -/
theorem text_ne_of_shaderRegions {regions : List Region}
    (h : (shaderRegions s).answer t = .ok regions) : s.generatedFolder.text ≠ "" := by
  intro hempty
  obtain ⟨names, -, hnames, -, -⟩ := shaderRegions_ok_iff.1 h
  have hgoal : t.goal s.generatedFolder = .error .notFound := by
    rw [goal_of_nil (by simp [Path.segments, hempty, Path.splitSlash]), if_neg]
    simp [Path.isAbsolute, hempty]
  unfold filesIn find at hnames
  rw [hgoal] at hnames
  cases hnames

/-- The regions of the shader header stay the same with the generated files. -/
theorem shaderRegions_congr {regions : List Region} (hnamed : u.WellNamed)
    (hfolder : u.find s.generatedFolder = .ok .folder)
    (hsame : ∀ n, generated? s u n = generated? s t n)
    (h : (shaderRegions s).answer t = .ok regions) : (shaderRegions s).answer u = .ok regions := by
  obtain ⟨names, lines, hnames, hlines, rfl⟩ := shaderRegions_ok_iff.1 h
  obtain ⟨names', hnames'⟩ := exists_filesIn hfolder
  refine shaderRegions_ok_iff.2 ⟨names', lines, hnames', ?_, rfl⟩
  have hlist := filesIn_eq_of_mem_iff hnames' hnames
    (fun n => s.generatedExtension.toList.isSuffixOf n.toList) fun n => by
      rw [mem_filter_filesIn_iff hnames', mem_filter_filesIn_iff hnames, hsame]
  rw [hlist, outputLines_ok_iff]
  rw [outputLines_ok_iff] at hlines
  have hlisted := fun n hn => (mem_filter_filesIn_iff (n := n) hnames).1 hn
  refine ((List.forall₂_and_left _ _).2 ⟨hlisted, hlines⟩).imp ?_
  rintro n line ⟨⟨content, hcontent⟩, text, array, htext, harray, rfl⟩
  refine ⟨text, array, ?_, harray, rfl⟩
  have hcontent' := (hsame n).trans hcontent
  have hname := isName_of_generated? hnamed hcontent'
  obtain ⟨modified, hread⟩ := read_of_generated? hnames hname hcontent
  obtain ⟨modified', hread'⟩ := read_of_generated? hnames' hname hcontent'
  obtain ⟨time, htime⟩ := readText_ok_iff.1 htext
  rw [hread] at htime
  obtain ⟨rfl, -⟩ := Prod.mk.inj (Except.ok.inj htime)
  exact readText_ok_iff.2 ⟨modified', hread'⟩

/-- The regions of the shader header include and register the files with some names, each once. -/
def ListedIn (s : Settings) (t : FileTree) (names : String → Prop) (shader : List Region) : Prop :=
  ∃ row lines, row.Nodup ∧ (∀ n, n ∈ row ↔ names n) ∧
    List.Forall₂ (fun n line => ∃ text array, t.readText (s.generatedFolder.child n) = .ok text ∧
      arrayName? text = some array ∧ line = (includeLine s n, registration array)) row lines ∧
    shader = [⟨"Include", String.join (lines.map (·.1))⟩,
      ⟨"ShaderByteCode", String.join (lines.map (·.2))⟩]

/-- They do so with the generated files. -/
theorem listedIn_of_shaderRegions {shader : List Region}
    (h : (shaderRegions s).answer t = .ok shader) :
    ListedIn s t (fun n => ∃ content, generated? s t n = some content) shader := by
  obtain ⟨names, lines, hnames, hlines, rfl⟩ := shaderRegions_ok_iff.1 h
  exact ⟨_, lines, (nodup_filesIn hnames).filter _, fun n => mem_filter_filesIn_iff hnames,
    outputLines_ok_iff.1 hlines, rfl⟩

/-- What is altered elsewhere leaves the generated files alone. -/
theorem generated?_congr {S : Path → Prop} (h : AltersOnly S t u) {n : String}
    (hS : s.generatedExtension.toList <:+ n.toList → ∀ p, S p →
      p.locate t.here ≠ s.generatedFolder.locate t.here ++ [n]) :
    generated? s u n = generated? s t n := by
  apply Option.ext
  intro content
  rw [generated?_eq_some_iff, generated?_eq_some_iff, h.here]
  refine and_congr_right fun hextension => exists_congr fun modified => ?_
  exact h.files _ (hS (List.isSuffixOf_iff_suffix.1 hextension)) content modified

end ShaderBuild.Target
