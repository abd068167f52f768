import ShaderBuild.Proofs.Path.Component
import ShaderBuild.Proofs.Source.Output

/-!
# Outputs in an empty folder

The name of an output may have slashes in it, by the name of its directive or by the extension, and
then the output lies deeper than the generated folder. It cannot be written there while that folder
has no folders in it (`isName_of_goal`): what stands in front of the first slash has an underscore
in it, behind the stem of the source, so it is the name of a folder that is missing.
-/

namespace ShaderBuild

open FileTree Path

namespace Path

/-- Text without segments is made of slashes. -/
theorem eq_slash_of_splitSlash {text : List Char} (h : ∀ s ∈ splitSlash text, s = []) :
    ∀ c ∈ text, c = '/' := by
  induction text with
  | nil => simp
  | cons c text ih =>
    rw [splitSlash] at h
    split at h
    · rename_i hc
      rw [List.forall_mem_cons] at h ⊢
      exact ⟨hc, ih h.2⟩
    · exfalso
      split at h
      · cases h [c] List.mem_cons_self
      · cases h _ List.mem_cons_self

end Path

variable {s : Settings} {t : FileTree} {folder : Path} {n : String} {x y : List Char}

/-- **What can be written into a folder without folders** lies directly in it, if there is an
underscore in front of the first slash of its name. -/
theorem isName_of_goal {l : Location} (hn : n.toList = x ++ '_' :: y) (hx : '/' ∉ x)
    (hgoal : t.goal (folder.child n) = .ok ⟨l, .name⟩)
    (hempty : ∀ m, t.at? (folder.locate t.here ++ [m]) ≠ some .folder) : IsName n := by
  refine isName_of_underscore (by simp [hn]) fun hslash => ?_
  have hy : '/' ∈ y := by
    rw [hn] at hslash
    simpa [hx] using hslash
  obtain ⟨y, z, rfl, hy'⟩ := List.eq_append_cons_of_mem hy
  have hfront : '/' ∉ x ++ '_' :: y := by simp [hx, hy']
  have htext : n.toList = (x ++ '_' :: y) ++ '/' :: z := by simp [hn]
  have hname : IsName (String.ofList (x ++ '_' :: y)) :=
    isName_of_underscore (by simp) (by rwa [String.toList_ofList])
  have hsegments : (⟨n⟩ : Path).segments.filter (· ≠ "") = String.ofList (x ++ '_' :: y) ::
      ((splitSlash z).map String.ofList).filter (· ≠ "") := by
    rw [segments, htext, splitSlash_append_slash, splitSlash_of_not_mem hfront, List.map_append,
      List.filter_append, List.map_singleton, List.filter_cons_of_pos (by simp),
      List.filter_nil, List.singleton_append]
  have hrelative : (⟨n⟩ : Path).isAbsolute = false := by
    rw [isAbsolute, hn]
    cases x with
    | nil => rfl
    | cons c x =>
      have hc : c ≠ '/' := (List.ne_of_not_mem_cons hx).symm
      simp [hc]
  obtain ⟨hjoin, habsolute⟩ := segments_join (a := folder) hrelative
  rw [hsegments] at hjoin
  rcases List.eq_nil_or_concat (((splitSlash z).map String.ofList).filter (· ≠ ""))
    with hnone | ⟨init, last, hinit⟩
  · -- behind the slash there is nothing but slashes, and the path ends with one
    rw [hnone] at hjoin
    have hz : ∀ c ∈ z, c = '/' := eq_slash_of_splitSlash fun s hs => by
      simpa using List.filter_eq_nil_iff.1 hnone (String.ofList s) (List.mem_map_of_mem hs)
    have hlast : (folder.join ⟨n⟩).text.toList.getLast? = some '/' := by
      rw [join_eq, ofChars, String.toList_ofList, htext, ← List.append_assoc,
        List.getLast?_append, List.getLast?_cons]
      cases hlast : z.getLast? with
      | none => rfl
      | some c =>
        rw [hz c (List.mem_of_getLast? hlast)]
        rfl
    have hending := congrArg Goal.ending ((goal_ok_iff hjoin).1 hgoal).2
    rw [ending, if_neg hname.2.1, if_neg hname.2.2.1, if_pos hlast] at hending
    cases hending
  · -- the text in front of the slash is followed as a folder
    rw [hinit, List.concat_eq_append, ← List.cons_append, ← List.append_assoc] at hjoin
    have hfollows := ((goal_ok_iff hjoin).1 hgoal).1
    have hfolder := hfollows (folder.segments.filter (· ≠ "") ++ [String.ofList (x ++ '_' :: y)])
      ⟨init, by rw [List.append_assoc, List.singleton_append]⟩
    rw [start, habsolute, List.foldl_append,
      List.foldl_cons, List.foldl_nil, step_name hname] at hfolder
    exact hempty _ hfolder

/-- An output that can be written into a generated folder without folders lies directly in it. -/
theorem SourceFile.ReadAt.isName_outputName_of_goal {f : SourceFile} {p : Path}
    (h : f.ReadAt s t p) {d : Directive} {u : FileTree} {l : Location}
    (hgoal : u.goal (s.generatedFolder.child (d.outputName f.path s.generatedExtension)) =
      .ok ⟨l, .name⟩)
    (hempty : ∀ m, u.at? (s.generatedFolder.locate u.here ++ [m]) ≠ some .folder) :
    IsName (d.outputName f.path s.generatedExtension) := by
  obtain ⟨stem, hstem, hslash⟩ := h.exists_stem
  exact isName_of_goal (d.toList_outputName s.generatedExtension hstem) hslash hgoal hempty

namespace FileSet

variable {fs : FileSet}

/-- The names of the outputs of a set, each with its directive. -/
def outputRows (s : Settings) (fs : FileSet) : List (String × Directive) :=
  fs.files.flatMap fun f => f.directives.map fun d =>
    (d.outputName f.path s.generatedExtension, d)

theorem mem_outputRows_iff {row : String × Directive} : row ∈ fs.outputRows s ↔
    ∃ f ∈ fs.files, row.2 ∈ f.directives ∧
      row.1 = row.2.outputName f.path s.generatedExtension := by
  obtain ⟨n, d⟩ := row
  simp only [outputRows, List.mem_flatMap, List.mem_map, Prod.mk.injEq]
  refine exists_congr fun f => and_congr_right fun _ => ⟨?_, ?_⟩
  · rintro ⟨d', hd', rfl, rfl⟩
    exact ⟨hd', rfl⟩
  · rintro ⟨hd, rfl⟩
    exact ⟨d, hd, rfl, rfl⟩

/-- The names of the directives of a file are apart. -/
theorem nodup_names_of_scan (h : (scan s).answer t = .ok fs) {f : SourceFile} (hf : f ∈ fs.files) :
    (f.directives.map (·.name)).Nodup := by
  obtain ⟨p, hread⟩ := readAt_of_scan h hf
  exact Directive.nodup_ofText hread.directives_ofText

theorem apart_of_scan (h : (scan s).answer t = .ok fs) : fs.Apart := by
  obtain ⟨paths, -, -, hapart⟩ := scan_ok h
  exact hapart

/-- The output of a directive of a file. -/
theorem child_mem_outputs (h : (scan s).answer t = .ok fs) {f : SourceFile} (hf : f ∈ fs.files)
    {d : Directive} (hd : d ∈ f.directives) :
    s.generatedFolder.child (d.outputName f.path s.generatedExtension) ∈ f.outputs := by
  obtain ⟨p, hread⟩ := readAt_of_scan h hf
  rw [hread.outputs_eq]
  exact List.mem_map_of_mem hd

/-- **No two outputs of a scan share a name.** -/
theorem nodup_outputRows (h : (scan s).answer t = .ok fs) :
    ((fs.outputRows s).map (·.1)).Nodup := by
  rw [outputRows, List.map_flatMap, List.nodup_flatMap]
  refine ⟨fun f hf => ?_, (apart_of_scan h).imp_of_mem fun {f g} hf hg hlater n hn hn' => ?_⟩
  · rw [List.map_map]
    have hnames := nodup_names_of_scan h hf
    rw [List.Nodup, List.pairwise_map] at hnames ⊢
    exact hnames.imp fun hne heq => hne (Directive.name_eq_of_outputName heq)
  · obtain ⟨_, hrow, rfl⟩ := List.mem_map.1 hn
    obtain ⟨_, hrow', heq⟩ := List.mem_map.1 hn'
    obtain ⟨d, hd, rfl⟩ := List.mem_map.1 hrow
    obtain ⟨e, he, rfl⟩ := List.mem_map.1 hrow'
    have hapart := hlater.2 _ (child_mem_outputs h hf hd) _ (child_mem_outputs h hg he)
    rw [show e.outputName g.path s.generatedExtension = _ from heq] at hapart
    exact absurd (Path.sameAs_iff.2 rfl) (Bool.eq_false_iff.1 hapart)

/-- The directives of a scan have names of their own exactly when no name is declared in two
files. -/
theorem nodup_names_iff (h : (scan s).answer t = .ok fs) :
    ((fs.outputRows s).map (·.2.name)).Nodup ↔
      ∀ f ∈ fs.files, ∀ g ∈ fs.files, ∀ d ∈ f.directives, ∀ e ∈ g.directives,
        d.name = e.name → f = g := by
  have hapart := apart_of_scan h
  have hrows : (fs.outputRows s).map (·.2.name) =
      fs.files.flatMap fun f => f.directives.map (·.name) := by
    rw [outputRows, List.map_flatMap]
    simp only [List.map_map, Function.comp_def]
  rw [hrows, List.nodup_flatMap]
  constructor
  · rintro ⟨-, hdisjoint⟩ f hf g hg d hd e he hname
    by_contra hne
    have : Std.Symm (Function.onFun List.Disjoint fun f : SourceFile =>
        f.directives.map (·.name)) := ⟨fun _ _ h n hn hn' => h hn' hn⟩
    exact List.Pairwise.forall hdisjoint hf hg hne (List.mem_map_of_mem hd)
      (hname ▸ List.mem_map_of_mem he)
  · intro hfiles
    refine ⟨fun f hf => nodup_names_of_scan h hf, hapart.imp_of_mem
      fun {f g} hf hg hlater n hn hn' => ?_⟩
    obtain ⟨d, hd, rfl⟩ := List.mem_map.1 hn
    obtain ⟨e, he, heq⟩ := List.mem_map.1 hn'
    obtain rfl := hfiles f hf g hg d hd e he heq.symm
    exact hlater.1 rfl

end FileSet

end ShaderBuild
