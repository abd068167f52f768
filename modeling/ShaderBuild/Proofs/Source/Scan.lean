import ShaderBuild.Proofs.Action
import ShaderBuild.Proofs.Answers
import ShaderBuild.Proofs.FileTree.Walk
import ShaderBuild.Proofs.Source.Set
import ShaderBuild.Source.Scan

/-!
# What a scan finds

A scan only looks (`looks_scan`). The files it finds are those that the walk lists and the settings
take for shader files, each read at its path (`scan_ok`, `scan_of_readAt`), and no two of them share
an identity or an output (`FileSet.Apart`). A file that was found once is found again by any later
scan, as long as there is a file at its path (`mem_scan_of_file`), and two scans find the same texts
in the same order if the files of either are in both trees (`texts_eq_of_scans`).
-/

namespace ShaderBuild

open Action

variable {s : Settings} {fs fs' : FileSet} {t u : FileTree}

/-! ## Reading one file -/

/-- What a file read at a path is. -/
theorem SourceFile.ofText_ok {p : Path} {modified : Timestamp} {content : List Char}
    {f : SourceFile} (h : SourceFile.ofText s p modified content = .ok f) :
    ∃ ds, Directive.ofText p.normalize content = .ok ds ∧
      f = { identity := p.normalize.identity
            path := p.normalize
            modified
            content
            permutations := ds.map fun d => ⟨d, SourceFile.outputPath s p.normalize d⟩ } := by
  unfold SourceFile.ofText at h
  cases hds : Directive.ofText p.normalize content with
  | error e =>
    simp only [hds, Except.map] at h
    cases h
  | ok ds =>
    simp only [hds, Except.map] at h
    cases h
    exact ⟨ds, rfl, rfl⟩

/-- The tree holds a file at a path as the set has it. -/
structure SourceFile.ReadAt (s : Settings) (t : FileTree) (p : Path) (f : SourceFile) : Prop where
  read : t.read p = .ok (Text.encode f.content, f.modified)
  ofText : SourceFile.ofText s p f.modified f.content = .ok f

namespace SourceFile.ReadAt

variable {p : Path} {f g : SourceFile}

theorem path_eq (h : ReadAt s t p f) : f.path = p.normalize := by
  obtain ⟨ds, -, hf⟩ := ofText_ok h.ofText
  rw [hf]

theorem identity_eq (h : ReadAt s t p f) : f.identity = f.path.identity := by
  obtain ⟨ds, -, hf⟩ := ofText_ok h.ofText
  rw [hf]

theorem didCompile_eq (h : ReadAt s t p f) : f.didCompile = true := by
  obtain ⟨ds, -, hf⟩ := ofText_ok h.ofText
  rw [hf]

theorem permutations_ofText (h : ReadAt s t p f) : ∃ ds,
    Directive.ofText f.path f.content = .ok ds ∧
      f.permutations = ds.map fun d => ⟨d, SourceFile.outputPath s f.path d⟩ := by
  obtain ⟨ds, hds, hf⟩ := ofText_ok h.ofText
  rw [← h.path_eq] at hds hf
  exact ⟨ds, hds, by rw [hf]⟩

/-- A file is read at its own path. -/
theorem read_path (h : ReadAt s t p f) :
    t.read f.path = .ok (Text.encode f.content, f.modified) := by
  rw [h.path_eq]
  exact FileTree.read_normalize h.read

theorem file?_path (h : ReadAt s t p f) :
    t.file? f.path = some (Text.encode f.content, f.modified) :=
  FileTree.file?_of_read h.read_path

/-- The permutations of a file follow from its path and its content. -/
theorem permutations_eq {q : Path} (h : ReadAt s t p f) (h' : ReadAt s u q g)
    (hpath : g.path = f.path) (hcontent : g.content = f.content) :
    g.permutations = f.permutations := by
  obtain ⟨ds, hds, hf⟩ := h.permutations_ofText
  obtain ⟨ds', hds', hg⟩ := h'.permutations_ofText
  rw [hpath, hcontent, hds] at hds'
  cases hds'
  rw [hf, hg, hpath]

end SourceFile.ReadAt

namespace FileSet

theorem looks_readFile (s : Settings) (p : Path) : Looks (readFile s p) :=
  (looks_look p _).bind fun _ => (looks_look p _).bind fun _ => (looks_lift _).bind fun _ =>
    (looks_tell _).bind fun _ => looks_pure _

theorem readFile_ok {p : Path} {f : SourceFile} (h : (readFile s p).answer t = .ok f) :
    f.ReadAt s t p := by
  obtain ⟨σ, h⟩ := answer_ok_iff.1 h
  unfold readFile at h
  obtain ⟨content, σ₁, htext, h⟩ := runOn_bind_ok_iff.1 h
  obtain ⟨⟨bytes, modified⟩, σ₂, hbytes, h⟩ := runOn_bind_ok_iff.1 h
  obtain ⟨g, σ₃, hg, h⟩ := runOn_bind_ok_iff.1 h
  obtain ⟨_, σ₄, htell, h⟩ := runOn_bind_ok_iff.1 h
  cases h
  obtain ⟨htext', rfl⟩ := look_ok_iff.1 htext
  obtain ⟨hbytes', rfl⟩ := look_ok_iff.1 hbytes
  rw [runOn_lift] at hg
  have hofText : SourceFile.ofText s p modified content = .ok f := congrArg Prod.fst hg
  obtain ⟨modified', hread⟩ := FileTree.readText_ok_iff.1 htext'
  have hsame : (bytes, modified) = (Text.encode content, modified') :=
    Except.ok.inj (hbytes'.symm.trans hread)
  obtain ⟨-, rfl⟩ := Prod.mk.inj hsame
  obtain ⟨ds, -, hf⟩ := SourceFile.ofText_ok hofText
  have hcontent : f.content = content := by rw [hf]
  have hmodified : f.modified = modified := by rw [hf]
  exact ⟨by rw [hcontent, hmodified]; exact hread, by rw [hcontent, hmodified]; exact hofText⟩

/-- A file is read when it is there. -/
theorem readFile_of_readAt {p : Path} {f : SourceFile} (h : f.ReadAt s t p) :
    (readFile s p).answer t = .ok f := by
  have htext : t.readText p = .ok f.content := FileTree.readText_ok_iff.2 ⟨_, h.read⟩
  have hlift : (Action.lift (SourceFile.ofText s p f.modified f.content)).runOn { tree := t }
      = (.ok f, { tree := t }) := by
    rw [runOn_lift, h.ofText]
  refine answer_ok_iff.2 ⟨{ tree := t, log := [.found f.path f.permutations.length] }, ?_⟩
  unfold readFile
  rw [runOn_bind_of_ok (look_ok_iff.2 ⟨htext, rfl⟩), runOn_bind_of_ok (look_ok_iff.2 ⟨h.read, rfl⟩),
    runOn_bind_of_ok hlift]
  rfl

/-! ## Reading all files -/

theorem looks_readAll (s : Settings) (fs : FileSet) (ps : List Path) : Looks (readAll s fs ps) := by
  induction ps generalizing fs with
  | nil => exact looks_pure _
  | cons p ps ih =>
    exact (looks_readFile s p).bind fun f => (looks_lift _).bind fun fs => ih fs

/-- The files of a set are those read, in order, behind those that were there. -/
theorem readAll_ok {ps : List Path} (h : (readAll s fs ps).answer t = .ok fs') :
    ∃ new, List.Forall₂ (fun p f => f.ReadAt s t p) ps new ∧ fs'.files = fs.files ++ new ∧
      (fs.Apart → fs'.Apart) := by
  induction ps generalizing fs with
  | nil =>
    cases h
    exact ⟨[], .nil, (List.append_nil _).symm, id⟩
  | cons p ps ih =>
    obtain ⟨σ, h⟩ := answer_ok_iff.1 h
    rw [readAll] at h
    obtain ⟨f, σ₁, hf, h⟩ := runOn_bind_ok_iff.1 h
    obtain ⟨fs₁, σ₂, hinsert, h⟩ := runOn_bind_ok_iff.1 h
    obtain ⟨hanswer, htree, -⟩ := (looks_readFile s p).answer_of_runOn hf
    rw [runOn_lift] at hinsert
    obtain ⟨hinsert', rfl⟩ := Prod.mk.inj hinsert
    obtain ⟨hrest, -, -⟩ := (looks_readAll s fs₁ ps).answer_of_runOn h
    rw [htree] at hrest
    obtain ⟨new, hnew, hfiles, hapart⟩ := ih hrest
    obtain ⟨-, rfl⟩ := insert_ok_iff.1 hinsert'
    refine ⟨f :: new, .cons (readFile_ok hanswer) hnew, ?_, fun hfs => hapart ?_⟩
    · rw [hfiles, List.append_assoc]
      rfl
    · exact apart_insert hfs hinsert'

/-- Files that are all there and apart get into a set. -/
theorem readAll_of_readAt {ps : List Path} {new : List SourceFile}
    (h : List.Forall₂ (fun p f => f.ReadAt s t p) ps new)
    (hapart : (fs.files ++ new).Pairwise Later) :
    (readAll s fs ps).answer t = .ok ⟨fs.files ++ new⟩ := by
  induction h generalizing fs with
  | nil =>
    rw [List.append_nil]
    rfl
  | @cons p f ps new hf _ ih =>
    have hinsert : fs.insert f = .ok ⟨fs.files ++ [f]⟩ := by
      refine insert_ok_iff.2 ⟨fun g hg => ?_, rfl⟩
      exact later_symm ((List.pairwise_append.1 hapart).2.2 g hg f List.mem_cons_self)
    have hrest : (readAll s ⟨fs.files ++ [f]⟩ ps).answer t = .ok ⟨fs.files ++ [f] ++ new⟩ := by
      refine ih ?_
      rw [List.append_assoc]
      exact hapart
    rw [readAll, (looks_readFile s p).answer_bind
      (fun f => (looks_lift _).bind fun fs => looks_readAll s fs ps), readFile_of_readAt hf]
    show ((Action.lift (fs.insert f) >>= fun fs => readAll s fs ps).answer t) = _
    rw [(looks_lift _).answer_bind fun fs => looks_readAll s fs ps, hinsert]
    rw [List.append_assoc] at hrest
    exact hrest

theorem looks_scan (s : Settings) : Looks (scan s) := by
  refine looks_tree.bind fun t => ?_
  cases t.walk (entersFolder s) s.sourcePath with
  | error fault => exact looks_throw _
  | ok paths => exact looks_readAll s {} _

/-- What a scan finds: the shader files among those that the walk lists, all of them apart. -/
theorem scan_ok (h : (scan s).answer t = .ok fs) : ∃ paths,
    t.walk (entersFolder s) s.sourcePath = .ok paths ∧
    List.Forall₂ (fun p f => f.ReadAt s t p) (paths.filter s.isShaderFile) fs.files ∧
    fs.Apart := by
  obtain ⟨σ, h⟩ := answer_ok_iff.1 h
  unfold scan at h
  rw [runOn_bind_of_ok (runOn_tree _)] at h
  cases hwalk : t.walk (entersFolder s) s.sourcePath with
  | error fault =>
    simp only [hwalk] at h
    cases h
  | ok paths =>
    simp only [hwalk] at h
    obtain ⟨new, hnew, hfiles, hapart⟩ := readAll_ok (answer_ok_iff.2 ⟨σ, h⟩)
    rw [List.nil_append] at hfiles
    exact ⟨paths, rfl, by rw [hfiles]; exact hnew, hapart apart_empty⟩

/-- A scan finds what is there, if all of it is apart. -/
theorem scan_of_readAt {paths : List Path}
    (hwalk : t.walk (entersFolder s) s.sourcePath = .ok paths)
    (hall : List.Forall₂ (fun p f => f.ReadAt s t p) (paths.filter s.isShaderFile) fs.files)
    (hapart : fs.Apart) : (scan s).answer t = .ok fs := by
  unfold answer scan
  rw [runOn_bind_of_ok (runOn_tree _)]
  simp only [hwalk]
  have hall' : (readAll s {} _).answer t = .ok ⟨[] ++ fs.files⟩ := readAll_of_readAt hall hapart
  exact hall'

/-- A file that a scan finds is in the tree as the set has it. -/
theorem readAt_of_scan (h : (scan s).answer t = .ok fs) {f : SourceFile} (hf : f ∈ fs.files) :
    ∃ p, f.ReadAt s t p := by
  obtain ⟨paths, -, hall, -⟩ := scan_ok h
  obtain ⟨p, -, hp⟩ := exists_left_of_forall₂ hall hf
  exact ⟨p, hp⟩

/-- A file that was found is found again by a scan of a tree with a file at its path. -/
theorem mem_scan_of_file (hnamed : t.WellNamed) (ht : (scan s).answer t = .ok fs)
    (hu : (scan s).answer u = .ok fs') {f : SourceFile} (hf : f ∈ fs.files)
    {bytes : List UInt8} {modified : Timestamp} (hfile : u.file? f.path = some (bytes, modified)) :
    ∃ g ∈ fs'.files, g.path = f.path := by
  obtain ⟨paths, hwalk, hall, -⟩ := scan_ok ht
  obtain ⟨paths', hwalk', hall', -⟩ := scan_ok hu
  obtain ⟨p, hp, hpf⟩ := exists_left_of_forall₂ hall hf
  obtain ⟨hmem, hshader⟩ := List.mem_filter.1 hp
  have hat : u.at? (p.locate u.here) = some (.file bytes modified) := by
    rw [← Path.locate_normalize, ← hpf.path_eq]
    exact FileTree.file?_eq_some_iff.1 hfile
  have hmem' := FileTree.mem_walk_of_file hnamed hwalk hwalk' hmem hat
  obtain ⟨g, hg, hpg⟩ := exists_right_of_forall₂ hall' (List.mem_filter.2 ⟨hmem', hshader⟩)
  exact ⟨g, hg, by rw [hpg.path_eq, hpf.path_eq]⟩

/-- The paths and the contents of the files, in order. -/
def texts (fs : FileSet) : List (Path × List Char) := fs.files.map fun f => (f.path, f.content)

/-- The structs of a set follow from its texts. -/
theorem structs_congr (h : fs'.texts = fs.texts) : fs'.structs = fs.structs := by
  have hmap : ∀ fs : FileSet, fs.structs = (do
      let ss ← fs.texts.mapM fun (p, content) => Hlsl.structs p content
      Hlsl.checkNames ss.flatten
      return ss.flatten) := by
    intro fs
    unfold structs texts
    rw [List.mapM_map]
    rfl
  rw [hmap, hmap, h]

/-- What is read at the same paths is the same if the contents are. -/
theorem texts_eq_of_reads {ps : List Path} {files files' : List SourceFile}
    (hall : List.Forall₂ (fun p f => f.ReadAt s t p) ps files)
    (hall' : List.Forall₂ (fun p f => f.ReadAt s u p) ps files')
    (h : ∀ f ∈ files, u.content? f.path = some (Text.encode f.content)) :
    files'.map (fun f => (f.path, f.content)) = files.map fun f => (f.path, f.content) := by
  induction hall generalizing files' with
  | nil =>
    cases hall'
    rfl
  | cons hp _ ih =>
    cases hall' with
    | cons hp' hrest' =>
      rw [List.map_cons, List.map_cons, ih hrest' fun f hf => h f (List.mem_cons_of_mem _ hf)]
      have hpath := hp'.path_eq.trans hp.path_eq.symm
      have hcontent := h _ List.mem_cons_self
      unfold FileTree.content? at hcontent
      rw [← hpath, hp'.file?_path, Option.map_some, Option.some.injEq] at hcontent
      rw [hpath, Text.encode_injective hcontent]

/-- Two scans find the same texts, when the files of either are in both trees. -/
theorem texts_eq_of_scans (hnamed : t.WellNamed) (hnamed' : u.WellNamed)
    (ht : (scan s).answer t = .ok fs) (hu : (scan s).answer u = .ok fs')
    (h : ∀ f ∈ fs.files, u.content? f.path = some (Text.encode f.content))
    (h' : ∀ f ∈ fs'.files, ∃ x, t.content? f.path = some x) : fs'.texts = fs.texts := by
  obtain ⟨paths, hwalk, hall, -⟩ := scan_ok ht
  obtain ⟨paths', hwalk', hall', -⟩ := scan_ok hu
  have hmem : ∀ {v w : FileTree} {ps qs : List Path} {gs : FileSet}, v.WellNamed →
      v.walk (entersFolder s) s.sourcePath = .ok ps →
      w.walk (entersFolder s) s.sourcePath = .ok qs →
      List.Forall₂ (fun p f => f.ReadAt s v p) (ps.filter s.isShaderFile) gs.files →
      (∀ f ∈ gs.files, ∃ x, w.content? f.path = some x) →
      ∀ p ∈ ps.filter s.isShaderFile, p ∈ qs.filter s.isShaderFile := by
    intro v w ps qs gs hnamed hps hqs hall hthere p hp
    obtain ⟨f, hf, hpf⟩ := exists_right_of_forall₂ hall hp
    obtain ⟨x, hx⟩ := hthere f hf
    obtain ⟨modified, hfile⟩ := FileTree.content?_eq_some_iff.1 hx
    rw [FileTree.file?_eq_some_iff, hpf.path_eq, Path.locate_normalize] at hfile
    obtain ⟨hp, hshader⟩ := List.mem_filter.1 hp
    exact List.mem_filter.2 ⟨FileTree.mem_walk_of_file hnamed hps hqs hp hfile, hshader⟩
  have hpaths := FileTree.walk_eq_of_mem_iff hnamed hnamed' hwalk hwalk' fun q =>
    ⟨hmem hnamed hwalk hwalk' hall (fun f hf => ⟨_, h f hf⟩) q,
      hmem hnamed' hwalk' hwalk hall' h' q⟩
  rw [← hpaths] at hall'
  exact texts_eq_of_reads hall hall' h

end FileSet

end ShaderBuild
