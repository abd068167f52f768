import Mathlib.Tactic.MkIffOfInductiveProp
import ShaderBuild.Proofs.Build.Phases
import ShaderBuild.Proofs.Include.Sources
import ShaderBuild.Proofs.Source.Output

/-!
# Histories of a project

Between builds a project is changed from outside; builds end well or stop anywhere. A history
(`History`) lists what happened, the newest event first. What is assumed of one is said about the
trees it went through: they are trees that a machine can hold and the files that matter lie apart
(`Orderly`), and modification times tell when a file has changed (`Fresh`).
-/

namespace ShaderBuild

/-! ## Events -/

/-- Something that happened to a project. -/
inductive Event where
  /-- Files were changed from outside. -/
  | edited (tree : FileTree)
  /-- The program built. -/
  | built (result : Except Error Report) (session : Session)

/-- The tree behind an event. -/
def Event.tree : Event → FileTree
  | edited t => t
  | built _ σ => σ.tree

@[simp]
theorem Event.tree_edited (t : FileTree) : (edited t).tree = t := rfl

@[simp]
theorem Event.tree_built (r : Except Error Report) (σ : Session) : (built r σ).tree = σ.tree := rfl

/-- A build got to compile, but did not get to save the cache. -/
def Event.Unsaved : Event → Prop
  | edited _ => False
  | built r σ => Told σ ∧ ∃ e, r = .error e ∧ ∀ failures, e ≠ .compile failures

/-- Which trees a history may start from, and what may be done to a tree from outside. -/
structure Surroundings where
  starts : FileTree → Prop
  edits : FileTree → FileTree → Prop

/-- Edits and builds in any order, the newest event first. -/
inductive History (compiler : Compiler) (s : Settings) (w : Surroundings) : List Event → Prop
  | start {t : FileTree} (h : w.starts t) : History compiler s w [.edited t]
  | edit {e : Event} {past : List Event} {t : FileTree} (before : History compiler s w (e :: past))
    (h : w.edits e.tree t) : History compiler s w (.edited t :: e :: past)
  | build {e : Event} {past : List Event} {r : Except Error Report} {σ : Session}
    (before : History compiler s w (e :: past))
    (h : (build compiler s).runOn { tree := e.tree } = (r, σ)) :
    History compiler s w (.built r σ :: e :: past)

/-- What holds in narrower surroundings is a history in wider ones. -/
theorem History.mono {compiler : Compiler} {s : Settings} {w w' : Surroundings}
    {events : List Event} (starts : ∀ t, w.starts t → w'.starts t)
    (edits : ∀ t u, w.edits t u → w'.edits t u) (h : History compiler s w events) :
    History compiler s w' events := by
  induction h with
  | start h => exact .start (starts _ h)
  | edit _ h ih => exact .edit ih (edits _ _ h)
  | build _ h ih => exact .build ih h

/-- What comes before an event is a history up to it. -/
theorem History.of_append {compiler : Compiler} {s : Settings} {w : Surroundings} {e : Event}
    {newer older : List Event} (h : History compiler s w (newer ++ e :: older)) :
    History compiler s w (e :: older) := by
  induction newer with
  | nil => exact h
  | cons x newer ih =>
    refine ih ?_
    generalize hrest : newer ++ e :: older = rest at h
    rw [List.cons_append, hrest] at h
    cases h with
    | start _ => simp at hrest
    | edit before _ => exact before
    | build before _ => exact before

/-- Every history starts from a tree. -/
theorem History.exists_start {compiler : Compiler} {s : Settings} {w : Surroundings}
    {events : List Event} (h : History compiler s w events) :
    ∃ newer t, events = newer ++ [.edited t] ∧ w.starts t := by
  induction h with
  | @start t h => exact ⟨[], t, rfl, h⟩
  | edit _ _ ih | build _ _ ih =>
    obtain ⟨newer, t, hrest, hstart⟩ := ih
    rw [hrest]
    exact ⟨_ :: newer, t, rfl, hstart⟩

/-- The trees that a history went through. -/
def trees (events : List Event) : List FileTree := events.map Event.tree

theorem trees_append (newer older : List Event) :
    trees (newer ++ older) = trees newer ++ trees older := List.map_append

/-! ## What there is in a history -/

/-- The files that a build would find in one of the trees. -/
def filesOver (s : Settings) (trees : List FileTree) : List SourceFile :=
  trees.flatMap fun t =>
    match FileSet.found s t with
    | .ok fs => fs.files
    | .error _ => []

/-- The paths of these files, and the paths they include. -/
def pathsOver (s : Settings) (trees : List FileTree) : List Path :=
  (filesOver s trees).flatMap fun f =>
    f.path :: (Include.ofText f.content).map fun (_, target) => Include.resolve f.path target

/-- What the program writes to: the cache, the headers and the outputs of these files. -/
def writtenOver (s : Settings) (trees : List FileTree) : List Path :=
  s.cachePath :: s.headers ++ (filesOver s trees).flatMap (·.outputs)

theorem mem_filesOver {s : Settings} {trees : List FileTree} {f : SourceFile} :
    f ∈ filesOver s trees ↔ ∃ t ∈ trees, ∃ fs, FileSet.found s t = .ok fs ∧ f ∈ fs.files := by
  unfold filesOver
  rw [List.mem_flatMap]
  refine exists_congr fun t => and_congr_right fun _ => ?_
  cases FileSet.found s t with
  | error e => simp
  | ok fs => simp

/-! ## Order -/

/-- The trees are ones that a machine can hold, no two paths in them share an identity, no slash
gets into the name of an output, and the cache, the headers, the outputs and the shader files are
different files. -/
@[mk_iff]
structure Orderly (s : Settings) (trees : List FileTree) : Prop where
  named : ∀ t ∈ trees, t.WellNamed
  timed : ∀ f ∈ filesOver s trees, f.modified.IsProper
  identities : ∀ p ∈ pathsOver s trees, ∀ q ∈ pathsOver s trees, p.identity = q.identity → p = q
  slashFree : '/' ∉ s.generatedExtension.toList ∧
    ∀ f ∈ filesOver s trees, ∀ d ∈ f.directives, '/' ∉ d.name.toList
  targets : ∀ t ∈ trees, (s.cachePath :: s.headers).Pairwise fun p q =>
    p.locate t.here ≠ q.locate t.here
  outputs : ∀ t ∈ trees, ∀ f ∈ filesOver s trees, ∀ o ∈ f.outputs,
    (∀ p ∈ s.cachePath :: s.headers, o.locate t.here ≠ p.locate t.here) ∧
      t.at? (o.locate t.here) ≠ some .folder
  sources : ∀ t ∈ trees, ∀ f ∈ filesOver s trees, ∀ p ∈ writtenOver s trees,
    f.path.locate t.here ≠ p.locate t.here

instance (s : Settings) (trees : List FileTree) : Decidable (Orderly s trees) :=
  decidable_of_iff' _ (orderly_iff s trees)

/-- From before the last change at a path, no tree shows the modification time that the file there
has now. A file that comes back counts as changed. -/
def FreshAt (p : Path) : List FileTree → Prop
  | [] => True
  | t :: past =>
    (∀ u ∈ past.dropWhile (fun u => u.content? p == t.content? p),
      t.modified? p = none ∨ u.modified? p ≠ t.modified? p) ∧ FreshAt p past

def FreshAt.decide (p : Path) : (trees : List FileTree) → Decidable (FreshAt p trees)
  | [] => isTrue trivial
  | t :: past =>
    have := FreshAt.decide p past
    inferInstanceAs (Decidable ((∀ u ∈ past.dropWhile (fun u => u.content? p == t.content? p),
      t.modified? p = none ∨ u.modified? p ≠ t.modified? p) ∧ FreshAt p past))

instance (p : Path) (trees : List FileTree) : Decidable (FreshAt p trees) := FreshAt.decide p trees

/-- The modification times of the shader files tell when they have changed. -/
def Fresh (s : Settings) (trees : List FileTree) : Prop :=
  ∀ f ∈ filesOver s trees, FreshAt f.path trees

instance (s : Settings) (trees : List FileTree) : Decidable (Fresh s trees) :=
  inferInstanceAs (Decidable (∀ f ∈ filesOver s trees, FreshAt f.path trees))

section

variable {s : Settings} {t : FileTree} {past : List FileTree}

theorem filesOver_tail {f : SourceFile} (h : f ∈ filesOver s past) :
    f ∈ filesOver s (t :: past) := by
  rw [mem_filesOver] at h ⊢
  obtain ⟨u, hu, hf⟩ := h
  exact ⟨u, List.mem_cons_of_mem _ hu, hf⟩

theorem pathsOver_tail {p : Path} (h : p ∈ pathsOver s past) : p ∈ pathsOver s (t :: past) := by
  obtain ⟨f, hf, hp⟩ := List.mem_flatMap.1 h
  exact List.mem_flatMap.2 ⟨f, filesOver_tail hf, hp⟩

theorem writtenOver_tail {p : Path} (h : p ∈ writtenOver s past) :
    p ∈ writtenOver s (t :: past) := by
  rcases List.mem_append.1 h with h | h
  · exact List.mem_append_left _ h
  · obtain ⟨f, hf, hp⟩ := List.mem_flatMap.1 h
    exact List.mem_append_right _ (List.mem_flatMap.2 ⟨f, filesOver_tail hf, hp⟩)

theorem Orderly.tail (h : Orderly s (t :: past)) : Orderly s past where
  named u hu := h.named u (List.mem_cons_of_mem _ hu)
  timed f hf := h.timed f (filesOver_tail hf)
  identities p hp q hq := h.identities p (pathsOver_tail hp) q (pathsOver_tail hq)
  slashFree := ⟨h.slashFree.1, fun f hf => h.slashFree.2 f (filesOver_tail hf)⟩
  targets u hu := h.targets u (List.mem_cons_of_mem _ hu)
  outputs u hu f hf := h.outputs u (List.mem_cons_of_mem _ hu) f (filesOver_tail hf)
  sources u hu f hf p hp :=
    h.sources u (List.mem_cons_of_mem _ hu) f (filesOver_tail hf) p (writtenOver_tail hp)

theorem Orderly.of_append {newer older : List FileTree} (h : Orderly s (newer ++ older)) :
    Orderly s older := by
  induction newer with
  | nil => exact h
  | cons t newer ih => exact ih h.tail

theorem Fresh.tail (h : Fresh s (t :: past)) : Fresh s past :=
  fun f hf => (h f (filesOver_tail hf)).2

theorem Fresh.of_append {newer older : List FileTree} (h : Fresh s (newer ++ older)) :
    Fresh s older := by
  induction newer with
  | nil => exact h
  | cons t newer ih => exact ih h.tail

theorem forall_of_not_mem_dropWhile {α : Type} {q : α → Bool} {l m : List α} {a : α}
    (h : a ∉ (l ++ a :: m).dropWhile q) : q a = true ∧ ∀ x ∈ l, q x = true := by
  induction l with
  | nil =>
    rw [List.nil_append, List.dropWhile_cons] at h
    split at h
    · next ha => exact ⟨ha, by simp⟩
    · exact absurd List.mem_cons_self h
  | cons x l ih =>
    rw [List.cons_append, List.dropWhile_cons] at h
    split at h
    · next hx =>
      obtain ⟨ha, hl⟩ := ih h
      exact ⟨ha, List.forall_mem_cons.2 ⟨hx, hl⟩⟩
    · exact absurd (List.mem_cons_of_mem _ (List.mem_append_right _ List.mem_cons_self)) h

/-- While a path shows one modification time at two moments, it keeps its content in between. -/
theorem FreshAt.content?_eq {p : Path} {newer older : List FileTree} {t₀ : FileTree}
    (h : FreshAt p (t :: newer ++ t₀ :: older)) {modified : Timestamp}
    (ht : t.modified? p = some modified) (h₀ : t₀.modified? p = some modified) :
    ∀ w ∈ t :: newer, w.content? p = t₀.content? p := by
  have hkept := forall_of_not_mem_dropWhile
    (q := fun u => u.content? p == t.content? p) (l := newer) (m := older) (a := t₀) <| by
      intro hmem
      rcases h.1 t₀ hmem with hnone | hne
      · rw [ht] at hnone
        cases hnone
      · exact hne (h₀.trans ht.symm)
  simp only [beq_iff_eq] at hkept
  intro w hw
  rcases List.mem_cons.1 hw with rfl | hw
  · exact hkept.1.symm
  · rw [hkept.1, hkept.2 w hw]

end

/-! ## A small project -/

/-- A text as a file, with the seconds of its modification time. -/
def textFile (text : String) (seconds : Int) : Entry :=
  .file (Text.encode text.toList) ⟨seconds, 0⟩

namespace SmallProject

/-- The settings of a small project: sources in `s`, outputs in `g`, and everything else beside
these folders. -/
def settings : Settings :=
  { sourcePath := ⟨"s"⟩
    recursive := true
    extensions := [".hlsl"]
    skipFolders := []
    generatedFolder := ⟨"g"⟩
    generatedExtension := ".h"
    cachePath := ⟨"c"⟩
    shaderHeader := ⟨"x"⟩
    constantBufferHeader := ⟨"y"⟩
    vertexLayoutHeader := ⟨"z"⟩
    includePrefix := ""
    compiler := .dxc
    compilerPath := none
    shaderModel := .sm60
    debugInformation := false
    globalDefines := []
    jobs := 1 }

/-- The small project without any sources. -/
def bare : FileTree :=
  ((((FileTree.empty [] ⟨0, 0⟩).put ["s"] .folder).put ["x"] (textFile
    "// BeginInclude\n// EndInclude\n// BeginShaderByteCode\n// EndShaderByteCode\n" 0)).put ["y"]
    (textFile "// BeginConstantBuffer\n// EndConstantBuffer\n" 0)).put ["z"] (textFile
    "// BeginVertexFormat\n// EndVertexFormat\n// BeginVertexInputLayout\n// EndVertexInputLayout\n"
    0)

/-- The small project with some sources. -/
def withSources (sources : List (String × Entry)) : FileTree :=
  sources.foldl (fun t (name, file) => t.put ["s", name] file) bare

/-- What a build with the plain compiler leaves behind. -/
def after (t : FileTree) : Session := ((build plain settings).runOn { tree := t }).2

/-- What a build with the plain compiler answers, if it ends well. -/
def report? (t : FileTree) : Option Report :=
  ((build plain settings).runOn { tree := t }).1.toOption

theorem runOn_of_report? {t : FileTree} {report : Report} (h : report? t = some report) :
    (build plain settings).runOn { tree := t } = (.ok report, after t) := by
  unfold report? at h
  unfold after
  cases hrun : (build plain settings).runOn { tree := t } with
  | mk r σ =>
    rw [hrun] at h
    cases r with
    | error e => cases h
    | ok x =>
      cases h
      rfl

/-- A build with the plain compiler. -/
def run (t : FileTree) : Event := .built ((build plain settings).runOn { tree := t }).1 (after t)

variable {w : Surroundings} {past : List Event} {t u : FileTree} {report : Report}

theorem history_run (h : History plain settings w (.edited t :: past)) :
    History plain settings w (run t :: .edited t :: past) := .build h rfl

theorem history_report (h : History plain settings w (.edited t :: past))
    (hreport : report? t = some report) :
    History plain settings w (.built (.ok report) (after t) :: .edited t :: past) :=
  .build h (runOn_of_report? hreport)

theorem history_edit (h : History plain settings w (.edited t :: past)) (hedit : w.edits t u) :
    History plain settings w (.edited u :: .edited t :: past) := .edit h hedit

theorem history_edit_after {r : Except Error Report}
    (h : History plain settings w (.built r (after t) :: past))
    (hedit : w.edits (after t).tree u) :
    History plain settings w (.edited u :: .built r (after t) :: past) := .edit h hedit

end SmallProject

end ShaderBuild
