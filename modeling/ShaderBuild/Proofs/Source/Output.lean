import ShaderBuild.Proofs.Source.Scan

/-!
# Where permutations are compiled to

As long as no slash gets into it, the name of an output is one plain name (`isName_outputName`),
so outputs are files directly in the generated folder (`Settings.IsProduct`). Two of them are the
same file only if they have the same path (`IsProduct.locate_ne`), and the permutations of one scan
are compiled to different files (`FileSet.outputs_apart`).
-/

namespace ShaderBuild

variable {s : Settings} {t : FileTree} {fs : FileSet}

/-! ## Names of outputs -/

theorem Stage.not_slash_of_abbreviation (stage : Stage) : '/' ∉ stage.abbreviation.toList := by
  cases stage <;> decide

/-- A name with an underscore in it is neither empty nor dots. -/
theorem Path.isName_of_underscore {n : String} (hn : '_' ∈ n.toList) (hslash : '/' ∉ n.toList) :
    IsName n := by
  refine ⟨?_, ?_, ?_, hslash⟩ <;> rintro rfl <;> exact absurd hn (by decide)

theorem Directive.toList_outputName (d : Directive) {source : Path} (extension : String)
    {stem : String} (hstem : source.stem? = some stem) :
    (d.outputName source extension).toList = stem.toList ++
      '_' :: (d.name.toList ++ '_' :: (d.stage.abbreviation.toList ++ extension.toList)) := by
  unfold outputName
  rw [hstem]
  simp

theorem Directive.suffix_outputName (d : Directive) (source : Path) (extension : String) :
    extension.toList <:+ (d.outputName source extension).toList := by
  unfold outputName
  rw [String.toList_append]
  exact List.suffix_append _ _

/-- The name of an output is the name of a file. -/
theorem Directive.isName_outputName {d : Directive} {source : Path} {extension stem : String}
    (hstem : source.stem? = some stem) (h0 : '/' ∉ stem.toList) (h1 : '/' ∉ d.name.toList)
    (h2 : '/' ∉ extension.toList) : Path.IsName (d.outputName source extension) := by
  have hlist := d.toList_outputName extension hstem
  refine Path.isName_of_underscore ?_ ?_
  · rw [hlist]
    simp
  · rw [hlist]
    simp only [List.mem_append, List.mem_cons, not_or]
    exact ⟨h0, by decide, h1, by decide, d.stage.not_slash_of_abbreviation, h2⟩

/-- Permutations of one file with different names have different outputs. -/
theorem Directive.name_eq_of_outputName {d d' : Directive} {source : Path} {extension : String}
    (h : d.outputName source extension = d'.outputName source extension) : d.name = d'.name := by
  have hlist := congrArg String.toList h
  unfold outputName at hlist
  simp only [String.toList_append, List.append_assoc, List.append_cancel_left_eq] at hlist
  have habbreviation : ∀ a b : Stage,
      a.abbreviation.toList.length = b.abbreviation.toList.length := by
    intro a b
    cases a <;> cases b <;> simp [Stage.abbreviation]
  have hlength : ∀ a b : Stage, ("_".toList ++ (a.abbreviation.toList ++ extension.toList)).length
      = ("_".toList ++ (b.abbreviation.toList ++ extension.toList)).length := by
    intro a b
    simp only [List.length_append, habbreviation a b]
  obtain ⟨hname, -⟩ := List.append_inj' hlist (hlength _ _)
  exact String.toList_injective hname

/-- No two directives of a file share a name. -/
theorem Directive.nodup_ofLines {p : Path} {seen ds : List Directive}
    {lines : List (Nat × List Char)} (hseen : (seen.map (·.name)).Nodup)
    (h : Directive.ofLines p seen lines = .ok ds) : (ds.map (·.name)).Nodup := by
  induction lines generalizing seen with
  | nil =>
    cases h
    exact hseen
  | cons entry rest ih =>
    obtain ⟨n, line⟩ := entry
    rw [ofLines] at h
    split at h
    · exact ih hseen h
    · split at h
      · cases h
      · next d hd =>
        split at h
        · cases h
        · next hnew =>
          refine ih ?_ h
          rw [List.map_append, List.nodup_append]
          refine ⟨hseen, by simp, ?_⟩
          rintro x hx y hy rfl
          obtain ⟨d', hd', rfl⟩ := List.mem_map.1 hx
          refine hnew (List.any_eq_true.2 ⟨d', hd', ?_⟩)
          simpa using hy

theorem Directive.nodup_ofText {p : Path} {text : List Char} {ds : List Directive}
    (h : Directive.ofText p text = .ok ds) : (ds.map (·.name)).Nodup :=
  nodup_ofLines (by simp) h

/-! ## Products -/

/-- A path is that of a generated file: a file with the generated extension directly in the
generated folder. -/
def Settings.IsProduct (s : Settings) (o : Path) : Prop :=
  ∃ n, Path.IsName n ∧ s.generatedExtension.toList <:+ n.toList ∧ o = s.generatedFolder.child n

/-- A product lies directly in the generated folder. -/
theorem Settings.IsProduct.locate_eq {o : Path} (h : s.IsProduct o) (here : Location) :
    ∃ n, Path.IsName n ∧ o = s.generatedFolder.child n ∧
      o.locate here = s.generatedFolder.locate here ++ [n] := by
  obtain ⟨n, hn, -, rfl⟩ := h
  exact ⟨n, hn, rfl, Path.locate_child hn⟩

/-- Products with different paths are different files. -/
theorem Settings.IsProduct.locate_ne {o o' : Path} {here : Location} (h : s.IsProduct o)
    (h' : s.IsProduct o') (hne : o.sameAs o' = false) : o.locate here ≠ o'.locate here := by
  obtain ⟨n, hn, rfl, hlocate⟩ := h.locate_eq here
  obtain ⟨m, hm, rfl, hlocate'⟩ := h'.locate_eq here
  intro heq
  rw [hlocate, hlocate', List.append_cancel_left_eq, List.cons.injEq] at heq
  rw [heq.1, Bool.eq_false_iff] at hne
  exact hne (Path.sameAs_iff.2 rfl)

namespace SourceFile.ReadAt

variable {p : Path} {f : SourceFile}

/-- A file that was read has a stem. -/
theorem exists_stem (h : f.ReadAt s t p) :
    ∃ stem, f.path.stem? = some stem ∧ '/' ∉ stem.toList := by
  obtain ⟨init, last, hlast, hdot, hup, -⟩ := FileTree.goal_of_file (FileTree.read_ok_iff.1 h.read)
  obtain ⟨-, -, -, -, hend, hname⟩ := Path.segments_normalize_of_name hlast hdot hup
  rw [h.path_eq]
  exact Path.stem?_of_name? (Path.name?_of_getLast? hend hname) hname

theorem isName_outputName (h : f.ReadAt s t p) (hextension : '/' ∉ s.generatedExtension.toList)
    {d : Directive} (hd : '/' ∉ d.name.toList) :
    Path.IsName (d.outputName f.path s.generatedExtension) := by
  obtain ⟨stem, hstem, hslash⟩ := h.exists_stem
  exact Directive.isName_outputName hstem hslash hd hextension

/-- The directives of a file that was read are those of its text. -/
theorem directives_ofText (h : f.ReadAt s t p) :
    Directive.ofText f.path f.content = .ok f.directives := by
  obtain ⟨ds, hds, hpermutations⟩ := h.permutations_ofText
  rw [hds, directives, hpermutations, List.map_map]
  exact congrArg _ (List.map_id ds).symm

theorem outputs_eq (h : f.ReadAt s t p) :
    f.outputs = f.directives.map fun d => SourceFile.outputPath s f.path d := by
  obtain ⟨ds, -, hpermutations⟩ := h.permutations_ofText
  simp only [outputs, directives, hpermutations, List.map_map, Function.comp_def]

/-- The output of a permutation is named after its directive. -/
theorem output_eq (h : f.ReadAt s t p) {pm : Permutation} (hpm : pm ∈ f.permutations) :
    pm.output =
      s.generatedFolder.child (pm.directive.outputName f.path s.generatedExtension) := by
  obtain ⟨ds, -, hpermutations⟩ := h.permutations_ofText
  rw [hpermutations] at hpm
  obtain ⟨d, -, rfl⟩ := List.mem_map.1 hpm
  simp only [SourceFile.outputPath]

/-- A file none of whose directives is named with a slash is compiled to products. -/
theorem isProduct (h : f.ReadAt s t p) (hextension : '/' ∉ s.generatedExtension.toList)
    (hnames : ∀ d ∈ f.directives, '/' ∉ d.name.toList) {o : Path} (ho : o ∈ f.outputs) :
    s.IsProduct o := by
  rw [h.outputs_eq] at ho
  obtain ⟨d, hd, rfl⟩ := List.mem_map.1 ho
  refine ⟨d.outputName f.path s.generatedExtension, h.isName_outputName hextension (hnames d hd),
    d.suffix_outputName f.path s.generatedExtension, ?_⟩
  simp only [SourceFile.outputPath]

/-- The permutations of a file are compiled to different files. -/
theorem outputs_apart (h : f.ReadAt s t p) (hextension : '/' ∉ s.generatedExtension.toList)
    (hnames : ∀ d ∈ f.directives, '/' ∉ d.name.toList) (here : Location) :
    f.outputs.Pairwise fun o o' => o.locate here ≠ o'.locate here := by
  rw [h.outputs_eq, List.pairwise_map]
  have hdistinct := Directive.nodup_ofText h.directives_ofText
  rw [List.Nodup, List.pairwise_map] at hdistinct
  refine hdistinct.imp_of_mem fun {d d'} hd hd' hne heq => hne ?_
  unfold SourceFile.outputPath at heq
  rw [Path.locate_child (h.isName_outputName hextension (hnames d hd)),
    Path.locate_child (h.isName_outputName hextension (hnames d' hd')),
    List.append_cancel_left_eq, List.cons.injEq] at heq
  exact Directive.name_eq_of_outputName heq.1

end SourceFile.ReadAt

namespace FileSet

/-- No slash gets into the names of the outputs of a set. -/
def SlashFree (s : Settings) (fs : FileSet) : Prop :=
  '/' ∉ s.generatedExtension.toList ∧ ∀ f ∈ fs.files, ∀ d ∈ f.directives, '/' ∉ d.name.toList

instance (s : Settings) (fs : FileSet) : Decidable (fs.SlashFree s) :=
  inferInstanceAs (Decidable (_ ∧ _))

theorem isProduct_of_scan (h : (scan s).answer t = .ok fs) (hslash : fs.SlashFree s)
    {f : SourceFile} (hf : f ∈ fs.files) {o : Path} (ho : o ∈ f.outputs) : s.IsProduct o := by
  obtain ⟨p, hp⟩ := readAt_of_scan h hf
  exact hp.isProduct hslash.1 (hslash.2 f hf) ho

/-- The permutations of one scan are compiled to different files. -/
theorem outputs_apart (h : (scan s).answer t = .ok fs) (hslash : fs.SlashFree s)
    (here : Location) : (fs.files.flatMap (·.outputs)).Pairwise fun o o' =>
      o.locate here ≠ o'.locate here := by
  obtain ⟨-, -, -, hapart⟩ := scan_ok h
  refine List.pairwise_flatMap.2 ⟨fun f hf => ?_, ?_⟩
  · obtain ⟨p, hp⟩ := readAt_of_scan h hf
    exact hp.outputs_apart hslash.1 (hslash.2 f hf) here
  · refine hapart.imp_of_mem fun {f g} hf hg hlater o ho o' ho' => ?_
    exact (isProduct_of_scan h hslash hf ho).locate_ne (isProduct_of_scan h hslash hg ho')
      (hlater.2 o ho o' ho')

/-- Files of one scan that are compiled to the same file are the same. -/
theorem eq_of_locate_output (h : (scan s).answer t = .ok fs) (hslash : fs.SlashFree s)
    {f g : SourceFile} (hf : f ∈ fs.files) (hg : g ∈ fs.files) {o o' : Path} (ho : o ∈ f.outputs)
    (ho' : o' ∈ g.outputs) {here : Location} (heq : o.locate here = o'.locate here) : f = g := by
  obtain ⟨-, -, -, hapart⟩ := scan_ok h
  rcases hapart.eq_or_later hf hg with rfl | hlater
  · rfl
  · exact absurd heq ((isProduct_of_scan h hslash hf ho).locate_ne
      (isProduct_of_scan h hslash hg ho') (hlater.2 o ho o' ho'))

end FileSet

end ShaderBuild
