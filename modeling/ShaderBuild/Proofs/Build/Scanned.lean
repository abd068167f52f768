import ShaderBuild.Proofs.Build.History
import ShaderBuild.Proofs.Include.Edge

/-!
# What the builds of a history find

Making the generated folder alters no file, so a build finds the files of the tree it starts from
(`FileSet.file?_of_found`). In an orderly history the files of one build are compiled to products of
their own, and all that a file includes, directly or not, was scanned with it
(`Orderly.exists_of_includes`). So what the program itself writes never changes the sources of a
file (`Orderly.sameSources`).
-/

namespace ShaderBuild

open FileTree

variable {s : Settings} {t u : FileTree} {past : List FileTree} {fs : FileSet} {f g : SourceFile}

namespace FileSet

/-- A build finds the files of the tree it starts from. -/
theorem file?_of_found (h : FileSet.found s t = .ok fs) (hf : f ∈ fs.files) :
    t.file? f.path = some (Text.encode f.content, f.modified) := by
  obtain ⟨p, hp⟩ := readAt_of_scan h hf
  rw [← hp.file?_path]
  exact ((altersOnly_makeFolders t s.generatedFolder).file?_eq fun _ hq => hq.elim).symm

theorem content?_of_found (h : FileSet.found s t = .ok fs) (hf : f ∈ fs.files) :
    t.content? f.path = some (Text.encode f.content) := by
  unfold content?
  rw [file?_of_found h hf]
  rfl

theorem modified?_of_found (h : FileSet.found s t = .ok fs) (hf : f ∈ fs.files) :
    t.modified? f.path = some f.modified := by
  unfold modified?
  rw [file?_of_found h hf]
  rfl

/-- What is compiled from a file follows from its path and its content. -/
theorem permutations_of_found {fs' : FileSet} (h : FileSet.found s t = .ok fs) (hf : f ∈ fs.files)
    (h' : FileSet.found s u = .ok fs') (hg : g ∈ fs'.files) (hpath : g.path = f.path)
    (hcontent : u.content? f.path = t.content? f.path) : g.permutations = f.permutations := by
  obtain ⟨p, hp⟩ := readAt_of_scan h hf
  obtain ⟨q, hq⟩ := readAt_of_scan h' hg
  refine hp.permutations_eq hq hpath ?_
  rw [content?_of_found h hf, ← hpath, content?_of_found h' hg, Option.some.injEq] at hcontent
  exact Text.encode_injective hcontent

/-- A file that a build found is found again as long as there is a file at its path. -/
theorem found_again {fs' : FileSet} (hnamed : t.WellNamed) (h : FileSet.found s t = .ok fs)
    (h' : FileSet.found s u = .ok fs') (hf : f ∈ fs.files) {content : List UInt8}
    (hcontent : u.content? f.path = some content) : ∃ g ∈ fs'.files, g.path = f.path := by
  obtain ⟨modified, hfile⟩ := content?_eq_some_iff.1 hcontent
  have hkept := (altersOnly_makeFolders u s.generatedFolder).file?_eq (p := f.path)
    fun _ hq => hq.elim
  exact mem_scan_of_file (wellNamed_makeFolders s.generatedFolder hnamed) h h' hf
    (hkept.trans hfile)

/-- Two builds find the same texts, when the files of either are still the same in both trees. -/
theorem texts_eq_of_found {fs' : FileSet} (hnamed : t.WellNamed) (hnamed' : u.WellNamed)
    (h : FileSet.found s t = .ok fs) (h' : FileSet.found s u = .ok fs')
    (hcontent : ∀ f ∈ fs.files, u.content? f.path = t.content? f.path)
    (hback : ∀ f ∈ fs'.files, ∃ x, t.content? f.path = some x) : fs'.texts = fs.texts := by
  have hmade : ∀ (v : FileTree) p,
      (v.makeFolders s.generatedFolder).2.content? p = v.content? p := by
    intro v p
    unfold content?
    rw [(altersOnly_makeFolders v s.generatedFolder).file?_eq fun _ hq => hq.elim]
  refine texts_eq_of_scans (wellNamed_makeFolders s.generatedFolder hnamed)
    (wellNamed_makeFolders s.generatedFolder hnamed') h h' (fun f hf => ?_) fun f hf => ?_
  · rw [hmade, hcontent f hf, content?_of_found h hf]
  · rw [hmade]
    exact hback f hf

end FileSet

namespace Orderly

variable {past : List FileTree}

theorem slashFree_of_found (h : Orderly s past) (ht : t ∈ past)
    (hfs : FileSet.found s t = .ok fs) : fs.SlashFree s :=
  ⟨h.slashFree.1, fun f hf => h.slashFree.2 f (mem_filesOver.2 ⟨t, ht, fs, hfs, hf⟩)⟩

/-- Files are compiled to products. -/
theorem isProduct (h : Orderly s past) (hf : f ∈ filesOver s past) {o : Path}
    (ho : o ∈ f.outputs) : s.IsProduct o := by
  obtain ⟨t, ht, fs, hfs, hf⟩ := mem_filesOver.1 hf
  exact FileSet.isProduct_of_scan hfs (h.slashFree_of_found ht hfs) hf ho

/-- Outputs and headers are different files. -/
theorem output_ne_header (h : Orderly s (t :: past)) {o p : Path}
    (ho : ∃ f ∈ filesOver s (t :: past), o ∈ f.outputs) (hp : p ∈ s.headers) :
    o.locate t.here ≠ p.locate t.here := by
  obtain ⟨f, hf, ho⟩ := ho
  exact (h.outputs t List.mem_cons_self f hf o ho).1 p (List.mem_cons_of_mem _ hp)

theorem identity_eq (hf : f ∈ filesOver s past) : f.identity = f.path.identity := by
  obtain ⟨t, -, fs, hfs, hf⟩ := mem_filesOver.1 hf
  obtain ⟨p, hp⟩ := FileSet.readAt_of_scan hfs hf
  exact hp.identity_eq

/-- An identity belongs to one path. -/
theorem path_eq (h : Orderly s past) (hf : f ∈ filesOver s past) (hg : g ∈ filesOver s past)
    (heq : f.identity = g.identity) : f.path = g.path := by
  rw [identity_eq hf, identity_eq hg] at heq
  exact h.identities _ (List.mem_flatMap.2 ⟨f, hf, List.mem_cons_self⟩) _
    (List.mem_flatMap.2 ⟨g, hg, List.mem_cons_self⟩) heq

/-- What a file includes, directly or not, was scanned with it and is below it in the graph. -/
theorem exists_of_includes (h : Orderly s past) (ht : t ∈ past)
    (hfs : FileSet.found s t = .ok fs) {v : FileTree} {graph : IncludeGraph fs.size}
    (hgraph : fs.graph v = .ok graph) {i : Fin fs.size} {q : Path}
    (hq : Relation.ReflTransGen t.Includes (fs.get i).path q) :
    ∃ j, (fs.get j).path = q ∧ (j = i ∨ j ∈ graph.closure i) := by
  have hfiles : ∀ j, fs.get j ∈ filesOver s past := fun j =>
    mem_filesOver.2 ⟨t, ht, fs, hfs, FileSet.get_mem j⟩
  obtain ⟨-, hedges⟩ := FileSet.graph_ok hgraph
  suffices hreach : ∃ j, (fs.get j).path = q ∧
      Relation.ReflTransGen (fun a b => b ∈ graph.direct a) i j by
    obtain ⟨j, hj, hij⟩ := hreach
    refine ⟨j, hj, ?_⟩
    rw [IncludeGraph.mem_closure_iff hedges]
    exact Relation.reflTransGen_iff_eq_or_transGen.1 hij
  induction hq with
  | refl => exact ⟨i, rfl, .refl⟩
  | tail _ hstep ih =>
    obtain ⟨j, rfl, hij⟩ := ih
    obtain ⟨text, line, target, htext, hline, rfl⟩ := hstep
    rw [FileSet.content?_of_found hfs (FileSet.get_mem j), Option.some.injEq] at htext
    obtain rfl := Text.encode_injective htext
    obtain ⟨k, hk, hidentity, -⟩ := FileSet.exists_edge_of_include hgraph hline
    refine ⟨k, ?_, hij.tail hk⟩
    rw [identity_eq (hfiles k)] at hidentity
    exact h.identities _ (List.mem_flatMap.2 ⟨_, hfiles k, List.mem_cons_self⟩) _
      (List.mem_flatMap.2 ⟨_, hfiles j, List.mem_cons_of_mem _ (List.mem_map.2 ⟨_, hline, rfl⟩)⟩)
      hidentity

/-- What the program writes changes no sources. -/
theorem sameSources (h : Orderly s past) (ht : t ∈ past) (hfs : FileSet.found s t = .ok fs)
    {v : FileTree} {graph : IncludeGraph fs.size} (hgraph : fs.graph v = .ok graph)
    {S : Path → Prop} (hS : ∀ p, S p → p ∈ writtenOver s past) (halters : AltersOnly S t u)
    (hf : f ∈ fs.files) : t.SameSources u f.path := by
  obtain ⟨i, hi, rfl⟩ := List.getElem_of_mem hf
  intro q hq
  obtain ⟨j, rfl, -⟩ := h.exists_of_includes ht hfs hgraph (i := ⟨i, hi⟩) hq
  unfold content?
  rw [halters.file?_eq fun p hp => Ne.symm ?_]
  exact h.sources t ht _ (mem_filesOver.2 ⟨t, ht, fs, hfs, FileSet.get_mem j⟩) p (hS p hp)

/-- Of the outputs of one build no two are the same file. -/
theorem output_unique (h : Orderly s past) (ht : t ∈ past) (hfs : FileSet.found s t = .ok fs)
    (hf : f ∈ fs.files) (hg : g ∈ fs.files) {a b : Permutation} (ha : a ∈ f.permutations)
    (hb : b ∈ g.permutations) {here : Location}
    (heq : a.output.locate here = b.output.locate here) : f = g ∧ a = b := by
  have hslash := h.slashFree_of_found ht hfs
  obtain rfl := FileSet.eq_of_locate_output hfs hslash hf hg
    (List.mem_map.2 ⟨a, ha, rfl⟩) (List.mem_map.2 ⟨b, hb, rfl⟩) heq
  refine ⟨rfl, ?_⟩
  obtain ⟨p, hp⟩ := FileSet.readAt_of_scan hfs hf
  have hapart := hp.outputs_apart hslash.1 (hslash.2 f hf) here
  unfold SourceFile.outputs at hapart
  rw [List.pairwise_map] at hapart
  by_contra hne
  have hsymm : Std.Symm fun a b : Permutation => a.output.locate here ≠ b.output.locate here :=
    ⟨fun _ _ => Ne.symm⟩
  exact List.Pairwise.forall hapart ha hb hne heq

end Orderly

end ShaderBuild
