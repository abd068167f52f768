import ShaderBuild.Proofs.Include.Edge

/-!
# The order of an include closure

A depth-first walk takes the files in *preorder*: a file first, then all that is met along its
edges, one after the other, and nothing twice (`preorder`). The closure of a file is what that walk
meets behind the file, in the order in which it is met: `FileSet.closure_eq_preorder`. The closures
that it is put together from were finished on other walks, so it does not matter which these were.

## Termination

A step of the walk either meets a file that was not met yet, or drops one that is still to come.
-/

namespace ShaderBuild.Include

variable {n : Nat} {edges : Edges n}

/-! ## Merging -/

section

variable {seen js ks : List (Fin n)}

theorem merge_append : merge seen (js ++ ks) = merge (merge seen js) ks := by
  induction js generalizing seen with
  | nil => rfl
  | cons j js ih =>
    rw [List.cons_append, merge, ih]
    rfl

theorem merge_of_subset (h : ∀ j ∈ js, j ∈ seen) : merge seen js = seen := by
  induction js with
  | nil => rfl
  | cons j js ih =>
    obtain ⟨hj, hjs⟩ := List.forall_mem_cons.1 h
    rw [merge, if_pos hj, ih hjs]

theorem merge_of_disjoint (hnodup : js.Nodup) (h : ∀ j ∈ js, j ∉ seen) :
    merge seen js = seen ++ js := by
  induction js generalizing seen with
  | nil => simp [merge]
  | cons j js ih =>
    obtain ⟨hj, hjs⟩ := List.forall_mem_cons.1 h
    obtain ⟨hnot, hnodup⟩ := List.nodup_cons.1 hnodup
    rw [merge, if_neg hj, ih hnodup, List.append_assoc, List.singleton_append]
    intro k hk hmem
    rcases List.mem_append.1 hmem with hseen | hlast
    · exact hjs k hk hseen
    · rw [List.mem_singleton.1 hlast] at hk
      exact hnot hk

/-- Merging is associative. -/
theorem merge_merge : merge seen (merge js ks) = merge (merge seen js) ks := by
  induction ks generalizing js with
  | nil => rfl
  | cons k ks ih =>
    rw [merge, ih, merge]
    by_cases hk : k ∈ js
    · rw [if_pos hk, if_pos (mem_merge.2 (.inr hk))]
    · rw [if_neg hk, merge_append]
      rfl

theorem nodup_merge (h : seen.Nodup) : (merge seen js).Nodup := by
  induction js generalizing seen with
  | nil => exact h
  | cons j js ih =>
    rw [merge]
    refine ih ?_
    by_cases hj : j ∈ seen
    · rwa [if_pos hj]
    · rw [if_neg hj, ← List.concat_eq_append]
      exact h.concat hj

/-- What was merged is more than before, when its first file is new. -/
theorem unvisited_merge_lt {j : Fin n} (h : j ∉ seen) :
    unvisited (merge seen (j :: js)) < unvisited seen := by
  refine countP_lt_countP (fun k hk => ?_) (List.mem_finRange j) (by simpa using h) ?_
  · simp only [mem_merge, not_or, decide_eq_true_eq] at hk ⊢
    exact hk.1
  · simp [mem_merge]

end

/-- Files are added to what is there, each with its closure. -/
def gather (closure : Edges n) (seen js : List (Fin n)) : List (Fin n) :=
  js.foldl (fun reached j => merge reached (j :: closure j)) seen

theorem gather_eq_merge (closure : Edges n) (seen js : List (Fin n)) :
    gather closure seen js = merge seen (gather closure [] js) := by
  unfold gather
  suffices h : ∀ inner,
      js.foldl (fun reached j => merge reached (j :: closure j)) (merge seen inner)
        = merge seen (js.foldl (fun reached j => merge reached (j :: closure j)) inner) from h []
  induction js with
  | nil => exact fun _ => rfl
  | cons j js ih =>
    intro inner
    rw [List.foldl_cons, List.foldl_cons, ← ih, merge_merge]

theorem nodup_gather {closure : Edges n} {seen js : List (Fin n)} (h : seen.Nodup) :
    (gather closure seen js).Nodup := by
  rw [gather_eq_merge]
  exact nodup_merge h

theorem gather_congr {closure closure' : Edges n} {seen js : List (Fin n)}
    (h : ∀ j ∈ js, closure j = closure' j) : gather closure seen js = gather closure' seen js := by
  unfold gather
  induction js generalizing seen with
  | nil => rfl
  | cons j js ih =>
    obtain ⟨hj, hjs⟩ := List.forall_mem_cons.1 h
    rw [List.foldl_cons, List.foldl_cons, hj, ih hjs]

/-! ## Walking depth first -/

/-- Walks on depth first, from what was met already and with some files to come. -/
def walkOn (edges : Edges n) (met : List (Fin n)) : List (Fin n) → List (Fin n)
  | [] => met
  | j :: js => if j ∈ met then walkOn edges met js else walkOn edges (met ++ [j]) (edges j ++ js)
termination_by js => (unvisited met, js.length)
decreasing_by
  · exact .right _ (Nat.lt_succ_self _)
  · exact .left _ _ (unvisited_lt ‹_›)

/-- What a depth-first walk from a file meets, in the order in which it meets it. -/
def preorder (edges : Edges n) (i : Fin n) : List (Fin n) := walkOn edges [] [i]

theorem walkOn_append (edges : Edges n) (met js ks : List (Fin n)) :
    walkOn edges met (js ++ ks) = walkOn edges (walkOn edges met js) ks := by
  induction met, js using walkOn.induct edges with
  | case1 met => rw [List.nil_append, walkOn]
  | case2 met j js hj ih => rw [List.cons_append, walkOn, if_pos hj, ih, walkOn, if_pos hj]
  | case3 met j js hj ih =>
    rw [List.cons_append, walkOn, if_neg hj, ← List.append_assoc, ih, walkOn.eq_2 _ _ j,
      if_neg hj]

/-- A walk is recursive: it meets a file, then walks along the edges of that file. -/
theorem walkOn_singleton {met : List (Fin n)} {j : Fin n} (hj : j ∉ met) :
    walkOn edges met [j] = walkOn edges (met ++ [j]) (edges j) := by
  rw [walkOn, if_neg hj, List.append_nil]

/-- A row of files is walked file by file. -/
theorem walkOn_eq_foldl (edges : Edges n) (met js : List (Fin n)) :
    walkOn edges met js = js.foldl (fun met j => walkOn edges met [j]) met := by
  induction js generalizing met with
  | nil => rw [walkOn, List.foldl_nil]
  | cons j js ih => rw [List.foldl_cons, ← ih, ← walkOn_append, List.singleton_append]

/-! ## What is finished on the way -/

/-- What is finished is closed under including, has no cycle in it, and each finished closure is
gathered from those of the files that are included directly. -/
structure Known.Settled (edges : Edges n) (known : Known n) : Prop where
  closed : ∀ i : Fin n, (known.closure? i).isSome → ∀ j ∈ edges i, (known.closure? j).isSome
  acyclic : ∀ i : Fin n, (known.closure? i).isSome → ¬ Reaches edges i i
  gathered : ∀ (i : Fin n) closure, known.closure? i = some closure →
    closure = gather (fun j => (known.closure? j).getD []) [] (edges i)

theorem Known.settled_empty : Known.Settled edges (.empty n) := by
  constructor <;> intro i <;> simp

theorem Known.Extends.isSome {known later : Known n} (h : Known.Extends known later) {i : Fin n}
    (hi : (known.closure? i).isSome) : (later.closure? i).isSome := by
  obtain ⟨closure, hclosure⟩ := Option.isSome_iff_exists.1 hi
  rw [h i closure hclosure]
  rfl

theorem Known.Extends.getD_eq {known later : Known n} (h : Known.Extends known later) {i : Fin n}
    (hi : (known.closure? i).isSome) : (later.closure? i).getD [] = (known.closure? i).getD [] := by
  obtain ⟨closure, hclosure⟩ := Option.isSome_iff_exists.1 hi
  rw [hclosure, h i closure hclosure]

namespace Known.Settled

variable {known : Known n} (h : Known.Settled edges known)

include h

/-- What a finished file reaches is finished. -/
theorem isSome_of_reaches {i j : Fin n} (hi : (known.closure? i).isSome) (hij : Reaches edges i j) :
    (known.closure? j).isSome := by
  induction hij with
  | single hij => exact h.closed _ hi _ hij
  | tail _ hstep ih => exact h.closed _ ih _ hstep

/-- A file is settled when all it includes is and it is none of that. -/
theorem set {i : Fin n} {closure : List (Fin n)} (hnone : known.closure? i = none)
    (hedges : ∀ j ∈ edges i, (known.closure? j).isSome)
    (hclosure : closure = gather (fun j => (known.closure? j).getD []) [] (edges i)) :
    Known.Settled edges (known.finish i closure) := by
  have hget := fun k => closure?_finish known i k closure
  have hext : Known.Extends known (known.finish i closure) := by
    intro k c hk
    rw [hget, if_neg]
    · exact hk
    · rintro rfl
      rw [hnone] at hk
      cases hk
  refine ⟨fun k hk j hj => ?_, fun k hk hcycle => ?_, fun k c hk => ?_⟩
  · rw [hget] at hk
    split at hk
    · next heq =>
      rw [← heq] at hj
      exact hext.isSome (hedges j hj)
    · exact hext.isSome (h.closed k hk j hj)
  · rw [hget] at hk
    split at hk
    · next heq =>
      -- on a cycle through it the file would be finished before
      obtain ⟨j, hj, hjk⟩ := reaches_iff_head.1 hcycle
      rw [← heq] at hj hjk
      have hi : (known.closure? i).isSome := by
        rcases hjk with rfl | hjk
        · exact hedges _ hj
        · exact h.isSome_of_reaches (hedges j hj) hjk
      rw [hnone] at hi
      cases hi
    · exact h.acyclic k hk hcycle
  · rw [hget] at hk
    split at hk
    · next heq =>
      rw [← heq, ← Option.some.inj hk]
      exact hclosure.trans (gather_congr fun j hj => (hext.getD_eq (hedges j hj)).symm)
    · rw [h.gathered k c hk]
      have hk' : (known.closure? k).isSome := by
        rw [hk]
        rfl
      exact gather_congr fun j hj => (hext.getD_eq (h.closed k hk' j hj)).symm

end Known.Settled

/-- A visit keeps what is finished and settled so, and finishes no file on its trail. -/
structure Settles (edges : Edges n) (trail : List (Fin n)) (known later : Known n) : Prop where
  kept : Known.Extends known later
  settled : Known.Settled edges later
  untouched : ∀ k ∈ trail, later.closure? k = known.closure? k

theorem visitAll_settles {visit : Known n → Fin n → Except (List (Fin n)) (Known n)}
    {trail : List (Fin n)} {known later : Known n} {reached reached' js : List (Fin n)}
    (hvisit : ∀ known later j, Known.Settled edges known → visit known j = .ok later →
      Settles edges trail known later ∧ (later.closure? j).isSome)
    (hknown : Known.Settled edges known)
    (h : visitAll visit known reached js = .ok (later, reached')) :
    Settles edges trail known later ∧ (∀ j ∈ js, (later.closure? j).isSome) ∧
      reached' = gather (fun j => (later.closure? j).getD []) reached js := by
  induction js generalizing known reached with
  | nil =>
    rw [visitAll] at h
    cases h
    exact ⟨⟨Known.extends_refl _, hknown, fun _ _ => rfl⟩, by simp, rfl⟩
  | cons j js ih =>
    obtain ⟨mid, hmid, hrest⟩ := visitAll_cons_ok.1 h
    obtain ⟨hfirst, hj⟩ := hvisit known mid j hknown hmid
    obtain ⟨hlater, hjs, hreached⟩ := ih hfirst.settled hrest
    refine ⟨⟨hfirst.kept.trans hlater.kept, hlater.settled, fun k hk => ?_⟩, ?_, ?_⟩
    · rw [hlater.untouched k hk, hfirst.untouched k hk]
    · exact List.forall_mem_cons.2 ⟨hlater.kept.isSome hj, hjs⟩
    · rw [hreached, ← hlater.kept.getD_eq hj]
      rfl

/-- **Visits settle.** -/
theorem visit_settles {trail : List (Fin n)} {known later : Known n} {i : Fin n}
    (hknown : Known.Settled edges known) (h : visit edges trail known i = .ok later) :
    Settles edges trail known later ∧ (later.closure? i).isSome := by
  rcases visit_cases h with ⟨hi, rfl⟩ | ⟨hi, htrail, mid, closure, hall, rfl⟩
  · exact ⟨⟨Known.extends_refl _, hknown, fun _ _ => rfl⟩, hi⟩
  · obtain ⟨hmid, hedges, hclosure⟩ := visitAll_settles
      (fun known later j hknown hj => visit_settles hknown hj) hknown hall
    have hnone : mid.closure? i = none := by
      rw [hmid.untouched i (by simp), hi]
    refine ⟨⟨?_, hmid.settled.set hnone hedges hclosure, fun k hk => ?_⟩, by simp⟩
    · refine hmid.kept.trans fun k c hk => ?_
      have hne : i ≠ k := by
        rintro rfl
        rw [hnone] at hk
        cases hk
      rwa [Known.closure?_finish_of_ne _ hne]
    · have hne : i ≠ k := by
        rintro rfl
        exact htrail hk
      rw [Known.closure?_finish_of_ne _ hne, hmid.untouched k (List.mem_append_left _ hk)]
termination_by unvisited trail
decreasing_by exact unvisited_lt htrail

/-! ## Closures in preorder -/

/-- What was met is saturated for a row of files when it holds all that is reached from those of the
row, or of what they reach, that were met. -/
def Saturated (edges : Edges n) (met js : List (Fin n)) : Prop :=
  ∀ j ∈ js, ∀ x ∈ met, x = j ∨ Reaches edges j x → ∀ y, Reaches edges x y → y ∈ met

section

variable {known : Known n} (settled : Known.Settled edges known) (exact : Known.Exact edges known)

include exact

theorem mem_getD_iff_reaches {i j : Fin n} (hi : (known.closure? i).isSome) :
    j ∈ (known.closure? i).getD [] ↔ Reaches edges i j := by
  obtain ⟨closure, hclosure⟩ := Option.isSome_iff_exists.1 hi
  rw [hclosure, Option.getD_some]
  exact exact i closure hclosure j

include settled

/-- A walk over finished files adds their closures one by one. -/
theorem walkOn_eq_gather (met js : List (Fin n)) (hjs : ∀ j ∈ js, (known.closure? j).isSome)
    (saturated : Saturated edges met js) :
    walkOn edges met js = gather (fun j => (known.closure? j).getD []) met js := by
  cases hjs' : js with
  | nil => rw [walkOn, gather, List.foldl_nil]
  | cons j js =>
    rw [hjs'] at hjs saturated
    obtain ⟨hj, hrest⟩ := List.forall_mem_cons.1 hjs
    have hclosure : ∀ y, y ∈ (known.closure? j).getD [] ↔ Reaches edges j y :=
      fun y => mem_getD_iff_reaches exact hj
    by_cases hmem : j ∈ met
    · -- the file was met, and so was its closure
      have hsubset : ∀ k ∈ j :: (known.closure? j).getD [], k ∈ met := by
        refine List.forall_mem_cons.2 ⟨hmem, fun k hk => ?_⟩
        exact saturated j List.mem_cons_self j hmem (.inl rfl) k ((hclosure k).1 hk)
      have hih := walkOn_eq_gather met js hrest fun k hk => saturated k (List.mem_cons_of_mem _ hk)
      rw [walkOn, if_pos hmem, hih]
      unfold gather
      rw [List.foldl_cons, merge_of_subset hsubset]
    · -- the file is met now, and its closure is what the walk along its edges adds
      have hedges : Saturated edges (met ++ [j]) (edges j) := by
        intro k hk x hx hkx y hxy
        refine List.mem_append_left _ ?_
        rcases List.mem_append.1 hx with hx | hx
        · refine saturated j List.mem_cons_self x hx (.inr ?_) y hxy
          exact reaches_iff_head.2 ⟨k, hk, hkx⟩
        · rw [List.mem_singleton.1 hx] at hkx
          exact absurd (reaches_iff_head.2 ⟨k, hk, hkx⟩) (settled.acyclic j hj)
      have hfirst := walkOn_eq_gather (met ++ [j]) (edges j) (settled.closed j hj) hedges
      have hstep : gather (fun j => (known.closure? j).getD []) (met ++ [j]) (edges j)
          = merge met (j :: (known.closure? j).getD []) := by
        obtain ⟨closure, hknown⟩ := Option.isSome_iff_exists.1 hj
        rw [gather_eq_merge, ← settled.gathered j closure hknown, hknown, merge, if_neg hmem]
        rfl
      have hlater : Saturated edges (merge met (j :: (known.closure? j).getD [])) js := by
        intro k hk x hx hkx y hxy
        rw [mem_merge] at hx ⊢
        rcases hx with hx | hx
        · exact .inl (saturated k (List.mem_cons_of_mem _ hk) x hx hkx y hxy)
        · refine .inr (List.mem_cons_of_mem _ ((hclosure y).2 ?_))
          rcases List.mem_cons.1 hx with rfl | hx
          · exact hxy
          · exact ((hclosure x).1 hx).trans hxy
      have hsecond := walkOn_eq_gather (merge met (j :: (known.closure? j).getD [])) js hrest hlater
      rw [walkOn, if_neg hmem, walkOn_append, hfirst, hstep, hsecond]
      rfl
termination_by (unvisited met, js.length)
decreasing_by
  · rw [hjs']
    exact .right _ (Nat.lt_succ_self _)
  · exact .left _ _ (unvisited_lt hmem)
  · exact .left _ _ (unvisited_merge_lt hmem)

/-- **A finished closure is what a walk meets behind the file.** -/
theorem preorder_eq_cons {i : Fin n} {closure : List (Fin n)}
    (h : known.closure? i = some closure) : preorder edges i = i :: closure := by
  have hi : (known.closure? i).isSome := by
    rw [h]
    rfl
  have hwalk := walkOn_eq_gather settled exact [] [i] (by simpa using hi) (by simp [Saturated])
  have hnodup : (i :: closure).Nodup := by
    refine List.nodup_cons.2 ⟨fun hmem => settled.acyclic i hi ((exact i closure h i).1 hmem), ?_⟩
    rw [settled.gathered i closure h]
    exact nodup_gather List.nodup_nil
  rw [preorder, hwalk, gather, List.foldl_cons, List.foldl_nil, h, Option.getD_some,
    merge_of_disjoint hnodup (by simp), List.nil_append]

end

end ShaderBuild.Include

namespace ShaderBuild

open Include

/-- What a row of visits finishes, starting with nothing. -/
theorem Include.visitAll_row {n : Nat} {edges : Edges n} {known : Known n}
    {row reached : List (Fin n)}
    (h : visitAll (visit edges []) (.empty n) [] row = .ok (known, reached)) :
    Known.Settled edges known ∧ Known.Exact edges known ∧ ∀ i ∈ row, (known.closure? i).isSome := by
  have hnone : Known.Exact edges (.empty n) := by
    intro i c hc
    simp at hc
  obtain ⟨hsettles, hsome, -⟩ :=
    visitAll_settles (fun _ _ _ hknown hvisit => visit_settles hknown hvisit) Known.settled_empty h
  obtain ⟨-, hexact, -, -⟩ := visitAll_ok (fun _ _ _ => visit_ok) hnone h
  exact ⟨hsettles.settled, hexact, hsome⟩

/-- **The closure of a file is exact and in traversal order.** It repeats nothing, leaves out the
file itself, holds just what the file reaches over its includes, and lists it in the order in which
a depth-first walk from the file meets it. A row of visits that starts with other files and comes to
that file in the end finishes the same closure. -/
theorem FileSet.closure_eq_preorder {fs : FileSet} {tree : FileTree} {graph : IncludeGraph fs.size}
    (h : fs.graph tree = .ok graph) (i : Fin fs.size) :
    (graph.closure i).Nodup ∧ i ∉ graph.closure i ∧
      (∀ j, j ∈ graph.closure i ↔ Reaches graph.direct i j) ∧
      preorder graph.direct i = i :: graph.closure i ∧
      ∀ row known reached, i ∈ row →
        visitAll (visit graph.direct []) (.empty fs.size) [] row
          = .ok (known, reached) → known.closure? i = some (graph.closure i) := by
  obtain ⟨-, hedges⟩ := FileSet.graph_ok h
  have hmem : ∀ j, j ∈ graph.closure i ↔ Reaches graph.direct i j :=
    fun j => IncludeGraph.mem_closure_iff hedges
  obtain ⟨known, reached, hall, hgraph⟩ := IncludeGraph.ofEdges_ok hedges
  obtain ⟨settled, exact, hsome⟩ := visitAll_row hall
  obtain ⟨closure, hclosure⟩ := Option.isSome_iff_exists.1 (hsome i (List.mem_finRange i))
  have hpreorder := preorder_eq_cons settled exact hclosure
  have heq : graph.closure i = closure := by
    rw [hgraph]
    show (known.closure? i).getD [] = closure
    rw [hclosure, Option.getD_some]
  rw [← heq] at hpreorder
  refine ⟨?_, ?_, hmem, hpreorder, fun row known' reached' hi hrow => ?_⟩
  · rw [heq, settled.gathered i closure hclosure]
    exact nodup_gather List.nodup_nil
  · rw [hmem]
    exact settled.acyclic i (hsome i (List.mem_finRange i))
  · obtain ⟨settled', exact', hsome'⟩ := visitAll_row hrow
    obtain ⟨closure', hclosure'⟩ := Option.isSome_iff_exists.1 (hsome' i hi)
    have hpreorder' := preorder_eq_cons settled' exact' hclosure'
    rw [hclosure', ← (List.cons.inj (hpreorder.symm.trans hpreorder')).2]

/-! ## A diamond -/

namespace SmallSet

/-- A file of a small set, by its name and text. -/
def file (name text : String) : SourceFile :=
  { identity := (Path.mk name).identity
    path := ⟨name⟩
    modified := ⟨1, 0⟩
    content := text.toList
    permutations := [] }

/-- A small set of files. -/
def files (sources : List (String × String)) : FileSet :=
  ⟨sources.map fun (name, text) => file name text⟩

/-- A tree in which these files exist. -/
def tree (sources : List (String × String)) : FileTree :=
  sources.foldl (fun t (name, text) => t.put [name] (.file (Text.encode text.toList) ⟨1, 0⟩))
    (FileTree.empty [] ⟨0, 0⟩)

/-- Two ways lead from the second file to the first one, which is visited before. -/
def diamond : List (String × String) :=
  [("d", ""), ("a", "#include \"c\"\n#include \"b\"\n"), ("b", "#include \"d\"\n"),
    ("c", "#include \"d\"\n")]

/-- The second of these files. -/
def top : Fin (files diamond).size := ⟨1, by decide⟩

theorem closure_top : ((files diamond).graph (tree diamond)).toOption.map (fun graph =>
    (graph.closure top).map (·.val)) = some [3, 0, 2] := by
  decide +kernel

end SmallSet

theorem diamond_in_preorder : ∃ graph,
    (SmallSet.files SmallSet.diamond).graph (SmallSet.tree SmallSet.diamond) = .ok graph ∧
    (graph.closure SmallSet.top).map (·.val) = [3, 0, 2] ∧
    preorder graph.direct SmallSet.top = SmallSet.top :: graph.closure SmallSet.top := by
  obtain ⟨graph, hgraph, hclosure⟩ := Option.map_eq_some_iff.1 SmallSet.closure_top
  have hok := ok_of_toOption hgraph
  obtain ⟨-, -, -, hpreorder, -⟩ := FileSet.closure_eq_preorder hok SmallSet.top
  exact ⟨graph, hok, hclosure, hpreorder⟩

end ShaderBuild
