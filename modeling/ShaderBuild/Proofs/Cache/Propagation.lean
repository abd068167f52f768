import ShaderBuild.Proofs.Cache.Diff
import ShaderBuild.Proofs.Include.Edge

/-!
# Staleness spreads along includes

A comparison with the cache marks exactly the files that are stale by themselves and those that
reach such a file over include edges, each file being judged at the moment when it is examined:
`diff_marks_least_fixpoint`. It asks once for each file, along the closures of the graph, and finds
what repeating the propagation until nothing changes would find.
-/

namespace ShaderBuild

namespace BuildCache

/-- **Marks are the least fixpoint.** A file is marked when it is stale by itself or reaches a file
that is; and the comparison reports a change when a recorded file is gone, a recorded output of a
file is no longer produced, or a file is marked. -/
theorem diff_marks_least_fixpoint {c : BuildCache} {s : Settings} {fs fs' : FileSet}
    {tree : FileTree} {graph : IncludeGraph fs.size} {σ σ' : Session} {changed : Bool}
    (hgraph : fs.graph tree = .ok graph)
    (h : (c.diff s fs graph).runOn σ = (.ok (changed, fs'), σ')) :
    fs'.size = fs.size ∧
    (∀ i : Fin fs.size, ∃ f, fs'.files[i.val]? = some f ∧ f.path = (fs.get i).path ∧
      (f.shouldCompile = true ↔
        c.LocallyStale (c.sessionAt s fs σ i).tree (fs.get i) ∨
        ∃ j : Fin fs.size, Relation.TransGen (fun a b => b ∈ graph.direct a) i j ∧
          c.LocallyStale (c.sessionAt s fs σ j).tree (fs.get j))) ∧
    (changed = true ↔
      (∃ entry ∈ c.records, fs.get? entry.1 = none) ∨
      (∃ f ∈ fs.files, ∃ r, c.get? f.identity = some r ∧
        ∃ o ∈ r.outputs, ∀ p ∈ f.outputs, o.sameAs p = false) ∨
      ∃ f ∈ fs'.files, f.shouldCompile = true) := by
  obtain ⟨stale, hstale, rfl, hchanged⟩ := diff_ok h
  obtain ⟨-, hedges⟩ := FileSet.graph_ok hgraph
  refine ⟨by simp [marked, FileSet.size], ?_, ?_⟩
  · intro i
    refine ⟨_, getElem?_marked fs graph stale i, rfl, ?_⟩
    rw [Bool.or_eq_true, hstale, List.any_eq_true]
    constructor
    · rintro (hi | ⟨j, hj, hsj⟩)
      · exact .inl hi
      · exact .inr ⟨j, (IncludeGraph.mem_closure_iff hedges).1 hj, (hstale j).1 hsj⟩
    · rintro (hi | ⟨j, hj, hsj⟩)
      · exact .inl hi
      · exact .inr ⟨j, (IncludeGraph.mem_closure_iff hedges).2 hj, (hstale j).2 hsj⟩
  · simp only [hchanged, orphansOf_ne_nil_iff]

/-! ## A chain of includes -/

namespace Chain

/-- A file without permutations. -/
def file (name content : String) (seconds : Int) : SourceFile :=
  { identity := (Path.mk name).identity
    path := ⟨name⟩
    modified := ⟨seconds, 0⟩
    content := content.toList
    permutations := [] }

/-- Of four files the first includes the second, and that one the third. -/
def files (seconds : Int) : FileSet :=
  ⟨[file "a" "#include \"b\"\n" 1, file "b" "#include \"c\"\n" 1, file "c" "" seconds,
    file "d" "" 1]⟩

def tree : FileTree :=
  ["a", "b", "c", "d"].foldl (fun t name => t.put [name] (.file [] ⟨1, 0⟩))
    (FileTree.empty [] ⟨0, 0⟩)

def settings : Settings := .defaults ⟨"p"⟩ 1

/-- The cache is from before the third file was modified. -/
def cache : BuildCache := ofFiles (files 1)

/-- Whether a comparison finds a change, and which files it marks. -/
def marks? : Option (Bool × List Bool) :=
  ((files 2).graph tree).toOption.bind fun graph =>
    ((cache.diff settings (files 2) graph).runOn { tree }).1.toOption.map fun (changed, fs) =>
      (changed, fs.files.map (·.shouldCompile))

theorem marks?_eq : marks? = some (true, [true, true, true, false]) := by
  decide +kernel

end Chain

theorem diff_marks_chain : ∃ graph fs' σ', (Chain.files 2).graph Chain.tree = .ok graph ∧
    (Chain.cache.diff Chain.settings (Chain.files 2) graph).runOn { tree := Chain.tree }
      = (.ok (true, fs'), σ') ∧
    fs'.files.map (·.shouldCompile) = [true, true, true, false] ∧
    ∀ i : Fin (Chain.files 2).size, ∃ f, fs'.files[i.val]? = some f ∧
      f.path = ((Chain.files 2).get i).path ∧
      (f.shouldCompile = true ↔
        Chain.cache.LocallyStale (Chain.cache.sessionAt Chain.settings (Chain.files 2)
          { tree := Chain.tree } i).tree ((Chain.files 2).get i) ∨
        ∃ j : Fin (Chain.files 2).size, Relation.TransGen (fun a b => b ∈ graph.direct a) i j ∧
          Chain.cache.LocallyStale (Chain.cache.sessionAt Chain.settings (Chain.files 2)
            { tree := Chain.tree } j).tree ((Chain.files 2).get j)) := by
  have hmarks := Chain.marks?_eq
  unfold Chain.marks? at hmarks
  obtain ⟨graph, hgraph, hmarks⟩ := Option.bind_eq_some_iff.1 hmarks
  obtain ⟨⟨changed, fs'⟩, hanswer, hmarks⟩ := Option.map_eq_some_iff.1 hmarks
  obtain ⟨rfl, hcompile⟩ := Prod.mk.inj hmarks
  have hok : (Chain.files 2).graph Chain.tree = .ok graph := by
    cases h : (Chain.files 2).graph Chain.tree <;> rw [h] at hgraph <;> cases hgraph
    rfl
  cases hrun : (Chain.cache.diff Chain.settings (Chain.files 2) graph).runOn
      { tree := Chain.tree } with
  | mk r σ' =>
    rw [hrun] at hanswer
    cases r with
    | error e => cases hanswer
    | ok x =>
      cases hanswer
      obtain ⟨-, hfixpoint, -⟩ := diff_marks_least_fixpoint hok hrun
      exact ⟨graph, fs', σ', hok, hrun, hcompile, hfixpoint⟩

end BuildCache

end ShaderBuild
