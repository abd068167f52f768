import ShaderBuild.Proofs.Path.Order
import ShaderBuild.Proofs.Source.Scan

/-!
# Which files a scan finds

A scan of a source folder finds the shader files below it that lie in no skipped folder
(`ShaderAt`), each once and in the order of their paths, and it changes nothing
(`scan_finds_shader_files`). The text of a path decides whether it is a shader file's, and it is
the path as the walk spells it, not its normal form.
-/

namespace ShaderBuild.FileSet

open Action

variable {s : Settings} {t : FileTree} {fs : FileSet}

/-- A shader file lies below the source folder, in a folder that a scan gets to. -/
structure ShaderAt (s : Settings) (t : FileTree) (folders : List String) (name : String) :
    Prop where
  file : ∃ content modified,
    t.at? (s.sourcePath.locate t.here ++ folders ++ [name]) = some (.file content modified)
  ends : s.isShaderFile (s.sourcePath.descendant (folders ++ [name])) = true
  entered : ∀ m ∈ folders, m ∉ s.skipFolders
  shallow : s.recursive = false → folders = []

theorem entersFolder_iff {folders : List String} : (∀ m ∈ folders, entersFolder s m = true) ↔
    (∀ m ∈ folders, m ∉ s.skipFolders) ∧ (s.recursive = false → folders = []) := by
  unfold entersFolder
  cases s.recursive with
  | true => simp
  | false =>
    simp only [Bool.false_and, Bool.false_eq_true, imp_false, forall_const]
    constructor
    · intro h
      obtain rfl := List.eq_nil_iff_forall_not_mem.2 h
      exact ⟨by simp, rfl⟩
    · rintro ⟨-, rfl⟩
      simp

/-- The names on the way to a file are names. -/
theorem ShaderAt.isName {folders : List String} {name : String} (h : ShaderAt s t folders name)
    (hnamed : t.WellNamed) : ∀ n ∈ folders ++ [name], Path.IsName n := by
  obtain ⟨content, modified, hat⟩ := h.file
  intro n hn
  refine FileTree.wellNamed_iff.1 hnamed _ _ hat n ?_
  rw [List.append_assoc]
  exact List.mem_append_right _ hn

/-- The shader files that the walk of a folder lists. -/
theorem mem_listed_iff {q : Path} :
    q ∈ (t.filesBelow (entersFolder s) s.sourcePath (s.sourcePath.locate t.here)).filter
        s.isShaderFile ↔
      ∃ folders name, ShaderAt s t folders name ∧
        q = s.sourcePath.descendant (folders ++ [name]) := by
  rw [List.mem_filter, FileTree.mem_filesBelow_iff]
  constructor
  · rintro ⟨⟨folders, name, content, modified, henter, hat, rfl⟩, hends⟩
    obtain ⟨hentered, hshallow⟩ := entersFolder_iff.1 henter
    exact ⟨folders, name, ⟨⟨content, modified, hat⟩, hends, hentered, hshallow⟩, rfl⟩
  · rintro ⟨folders, name, ⟨⟨content, modified, hat⟩, hends, hentered, hshallow⟩, rfl⟩
    exact ⟨⟨folders, name, content, modified, entersFolder_iff.2 ⟨hentered, hshallow⟩, hat, rfl⟩,
      hends⟩

theorem lt_of_append_lt {l names names' : List String} (h : l ++ names < l ++ names') :
    names < names' := by
  induction l with
  | nil => exact h
  | cons n l ih =>
    rcases List.cons_lt_cons_iff.1 h with hlt | ⟨-, hlt⟩
    · exact absurd hlt (String.lt_irrefl n)
    · exact ih hlt

/-- The walk lists the shader files in the order of their paths. -/
theorem listed_sorted (hnamed : t.WellNamed) :
    ((t.filesBelow (entersFolder s) s.sourcePath (s.sourcePath.locate t.here)).filter
      s.isShaderFile).Pairwise fun p q => p.normalize.Precedes q.normalize := by
  refine ((FileTree.filesBelow_sorted hnamed t.here).filter _).imp_of_mem ?_
  intro p q hp hq hlt
  obtain ⟨folders, name, hshader, rfl⟩ := mem_listed_iff.1 hp
  obtain ⟨folders', name', hshader', rfl⟩ := mem_listed_iff.1 hq
  have hnames := hshader.isName hnamed
  have hnames' := hshader'.isName hnamed
  rw [Path.locate_descendant hnames, Path.locate_descendant hnames'] at hlt
  exact Path.precedes_descendant hnames hnames' (lt_of_append_lt hlt)

/-- The files of a set have the normal forms of the paths they were read at. -/
theorem paths_of_readAt {paths : List Path} {files : List SourceFile}
    (h : List.Forall₂ (fun p f => f.ReadAt s t p) paths files) :
    files.map (·.path) = paths.map Path.normalize := by
  induction h with
  | nil => rfl
  | cons hread _ ih => rw [List.map_cons, List.map_cons, hread.path_eq, ih]

/-- **The scan finds exactly the shader files, in path order.** Below a source folder that exists,
the files of a scan are the shader files that it gets to, each under the normal form of its path and
once only, in strictly increasing order of the bytes of their components. Whether it goes well or
not, the scan leaves the tree as it is and does not call the compiler. -/
theorem scan_finds_shader_files (hnamed : t.WellNamed)
    (hsource : t.find s.sourcePath = .ok .folder) (hscan : (scan s).answer t = .ok fs) :
    (∀ q, q ∈ fs.files.map (·.path) ↔ ∃ folders name, ShaderAt s t folders name ∧
      q = (s.sourcePath.descendant (folders ++ [name])).normalize) ∧
    (fs.files.map (·.path)).Nodup ∧
    (fs.files.map (·.path)).Pairwise Path.Precedes ∧
    ∀ σ, ((scan s).runOn σ).2.tree = σ.tree ∧ ((scan s).runOn σ).2.calls = σ.calls := by
  obtain ⟨paths, hwalk, hall, -⟩ := scan_ok hscan
  have hpaths : paths
      = t.filesBelow (entersFolder s) s.sourcePath (s.sourcePath.locate t.here) := by
    rcases FileTree.walk_ok_iff.1 hwalk with ⟨content, modified, hfile, -⟩ | ⟨-, hpaths⟩
    · rw [hsource] at hfile
      cases hfile
    · exact hpaths
  subst hpaths
  rw [paths_of_readAt hall]
  have hsorted := List.pairwise_map.2 (listed_sorted (s := s) hnamed)
  refine ⟨fun q => ?_, hsorted.imp Path.Precedes.ne, hsorted, fun σ => ?_⟩
  · simp only [List.mem_map, mem_listed_iff]
    constructor
    · rintro ⟨p, ⟨folders, name, hshader, rfl⟩, rfl⟩
      exact ⟨folders, name, hshader, rfl⟩
    · rintro ⟨folders, name, hshader, rfl⟩
      exact ⟨_, ⟨folders, name, hshader, rfl⟩, rfl⟩
  · obtain ⟨log, hlog⟩ := looks_scan s σ
    rw [hlog]
    exact ⟨rfl, rfl⟩

namespace SmallListing

/-- The path of the source folder has dots in it and ends with a slash, and a folder of the same
name is skipped. -/
def settings : Settings :=
  { Settings.defaults ⟨""⟩ 1 with sourcePath := ⟨"./s/a/../"⟩, skipFolders := ["s"] }

/-- A folder whose name begins the name of a file, a skipped folder, and a file that is no
shader's. -/
def tree : FileTree :=
  [(["s"], Entry.folder), (["s", "é.hlsl"], .file [] ⟨0, 0⟩), (["s", "z.hlsl"], .file [] ⟨0, 0⟩),
    (["s", "a.hlsl"], .file [] ⟨0, 0⟩), (["s", "a"], .folder),
    (["s", "a", "b.hlsl"], .file [] ⟨0, 0⟩), (["s", "s"], .folder),
    (["s", "s", "c.hlsl"], .file [] ⟨0, 0⟩), (["s", "n.txt"], .file [] ⟨0, 0⟩)].foldl
    (fun t (l, e) => t.put l e) (.empty [] ⟨0, 0⟩)

/-- What the scan is to find. -/
def paths : List Path := [⟨"s/a/b.hlsl"⟩, ⟨"s/a.hlsl"⟩, ⟨"s/z.hlsl"⟩, ⟨"s/é.hlsl"⟩]

theorem found :
    ((scan settings).answer tree).toOption.map (fun fs => fs.files.map (·.path)) = some paths := by
  decide +kernel

end SmallListing

theorem small_listing_found :
    (∀ q, q ∈ SmallListing.paths ↔ ∃ folders name,
      ShaderAt SmallListing.settings SmallListing.tree folders name ∧
        q = (SmallListing.settings.sourcePath.descendant (folders ++ [name])).normalize) ∧
    SmallListing.paths.Pairwise Path.Precedes := by
  obtain ⟨fs, hscan, hpaths⟩ := Option.map_eq_some_iff.1 SmallListing.found
  obtain ⟨hmem, -, hsorted, -⟩ :=
    scan_finds_shader_files (by decide) rfl (ok_of_toOption hscan)
  rw [hpaths] at hmem hsorted
  exact ⟨hmem, hsorted⟩

end ShaderBuild.FileSet
