import ShaderBuild.Include.Line
import ShaderBuild.Proofs.Answers
import ShaderBuild.Proofs.Include.Closure
import ShaderBuild.Proofs.Source.Set

/-!
# Where include edges come from

A set of files has an include graph when every quoted include leads to a file of the set, and each
of them is an edge of the graph (`exists_edge_of_include`). The graph depends on the tree only in
that the included files have to be there (`FileSet.graph_again`).
-/

namespace ShaderBuild

open Include

variable {fs : FileSet} {tree : FileTree} {graph : IncludeGraph fs.size}

/-- A graph of a set of files comes from the include edges between them. -/
theorem FileSet.graph_ok (h : fs.graph tree = .ok graph) :
    (∀ i, Include.direct tree fs (fs.get i) = .ok (graph.direct i)) ∧
      IncludeGraph.ofEdges graph.direct = .ok graph := by
  unfold FileSet.graph at h
  cases hdirect : (Vector.ofFn fs.get).mapM (Include.direct tree fs) with
  | error e =>
    rw [hdirect] at h
    cases h
  | ok direct =>
    rw [hdirect] at h
    cases hedges : IncludeGraph.ofEdges direct.get with
    | error cycle =>
      simp only [bind, Except.bind, hedges] at h
      cases h
    | ok g =>
      simp only [bind, Except.bind, hedges] at h
      cases h
      rw [IncludeGraph.direct_ofEdges hedges]
      refine ⟨fun i => ?_, hedges⟩
      have hi := vector_mapM_ok hdirect i
      rwa [get_ofFn] at hi

/-- The graph of a set of files is that of the edges between them. -/
theorem FileSet.graph_eq {edges : Edges fs.size}
    (h : ∀ i, Include.direct tree fs (fs.get i) = .ok (edges i)) :
    fs.graph tree = match IncludeGraph.ofEdges edges with
      | .ok graph => .ok graph
      | .error cycle => .error (.includeCycle (cycle.map fun i => (fs.get i).path)) := by
  obtain ⟨direct, hdirect⟩ := exists_vector_mapM_ok (v := Vector.ofFn fs.get)
    (f := Include.direct tree fs) fun i => ⟨edges i, by rw [get_ofFn, h i]⟩
  have hedges : direct.get = edges := by
    funext i
    have hi := vector_mapM_ok hdirect i
    rw [get_ofFn, h i] at hi
    exact (Except.ok.inj hi).symm
  unfold FileSet.graph
  rw [hdirect]
  simp only [bind, Except.bind, hedges]
  cases IncludeGraph.ofEdges edges <;> rfl

namespace Include

theorem target_ok {path : Path} {line : Nat} {text : String} {j : Fin fs.size}
    (h : Include.target tree fs path line text = .ok j) :
    tree.isFile (resolve path text) = true ∧
      (fs.get j).identity = (resolve path text).identity := by
  unfold Include.target at h
  simp only at h
  split at h
  · next hfile =>
    split at h
    · next i hi =>
      cases h
      exact ⟨hfile, FileSet.index?_eq_some hi⟩
    · cases h
  · cases h

theorem direct_ok {f : SourceFile} {js : List (Fin fs.size)}
    (h : Include.direct tree fs f = .ok js) : ∃ targets,
      (ofText f.content).mapM (fun line => Include.target tree fs f.path line.1 line.2)
        = .ok targets ∧
      ∀ j, j ∈ js ↔ j ∈ targets := by
  unfold Include.direct at h
  cases htargets : (ofText f.content).mapM
      fun line => Include.target tree fs f.path line.1 line.2 with
  | error e =>
    rw [htargets] at h
    cases h
  | ok targets =>
    rw [htargets] at h
    cases h
    exact ⟨targets, rfl, fun j => by rw [mem_merge]; simp⟩

/-- A file whose includes all lead somewhere includes what they lead to. -/
theorem exists_direct_of_target {f : SourceFile} (h : ∀ line text,
    (line, text) ∈ ofText f.content → ∃ j, Include.target tree fs f.path line text = .ok j) :
    ∃ targets, (ofText f.content).mapM (fun line => Include.target tree fs f.path line.1 line.2)
        = .ok targets ∧
      Include.direct tree fs f = .ok (merge [] targets) := by
  have hall : ∀ line ∈ ofText f.content, ∃ j,
      Include.target tree fs f.path line.1 line.2 = .ok j := fun line hline => h _ _ hline
  obtain ⟨targets, htargets⟩ := exists_mapM_ok hall
  refine ⟨targets, htargets, ?_⟩
  unfold Include.direct
  rw [htargets]
  rfl

/-- What a file includes directly follows from which files are there. -/
theorem direct_congr {f : SourceFile} {u : FileTree}
    (h : ∀ line text, (line, text) ∈ ofText f.content →
      u.isFile (resolve f.path text) = tree.isFile (resolve f.path text)) :
    Include.direct u fs f = Include.direct tree fs f := by
  unfold Include.direct
  refine congrArg (Except.map (merge [])) (mapM_congr fun x hx => ?_)
  unfold Include.target
  simp only [h x.1 x.2 hx]

end Include

/-- A line that includes leads to a file of the set, over an edge. -/
theorem FileSet.exists_edge_of_include (h : fs.graph tree = .ok graph) {i : Fin fs.size}
    {line : Nat} {text : String} (hline : (line, text) ∈ ofText (fs.get i).content) :
    ∃ j ∈ graph.direct i, (fs.get j).identity = (resolve (fs.get i).path text).identity ∧
      tree.isFile (resolve (fs.get i).path text) = true := by
  obtain ⟨hdirect, -⟩ := FileSet.graph_ok h
  obtain ⟨targets, htargets, hmem⟩ := direct_ok (hdirect i)
  obtain ⟨j, hj, htarget⟩ := mapM_mem_ok htargets hline
  obtain ⟨hfile, hidentity⟩ := target_ok htarget
  exact ⟨j, (hmem j).2 hj, hidentity, hfile⟩

/-- A set of files has the same graph in another tree if what it includes is still there. -/
theorem FileSet.graph_again (h : fs.graph tree = .ok graph) {u : FileTree}
    (hfile : ∀ f ∈ fs.files, ∀ line text, (line, text) ∈ ofText f.content →
      tree.isFile (resolve f.path text) = true → u.isFile (resolve f.path text) = true) :
    fs.graph u = .ok graph := by
  obtain ⟨hdirect, hedges⟩ := FileSet.graph_ok h
  have hagain : ∀ i, Include.direct u fs (fs.get i) = .ok (graph.direct i) := by
    intro i
    rw [← hdirect i]
    refine direct_congr fun line text hline => ?_
    obtain ⟨_, -, -, hthere⟩ := FileSet.exists_edge_of_include h hline
    rw [hthere, hfile _ (FileSet.get_mem i) line text hline hthere]
  rw [FileSet.graph_eq hagain, hedges]

end ShaderBuild
