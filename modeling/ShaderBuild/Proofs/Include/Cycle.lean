import Mathlib.Data.List.Chain
import ShaderBuild.Proofs.Include.Preorder

/-!
# Cycles of includes

A set of files whose includes all lead to files of the set has an include graph, or else an error
that shows a cycle: `FileSet.graph_rejects_cycles`. The cycle that is shown lies on the trail of a
visit (`isCycle_of_visit`), and where there is a cycle one is shown, since files that are finished
lie on none.

A walk can also keep its trail by marking the files (`Walk`). When a file is met that is active,
its place on the stack is looked up, and the walk may hold a place ready for a file that is not
there. It is never asked for it: the walk comes to an end, and finds the same with any such place
and without one (`Walk.graph?_eq`).
-/

namespace ShaderBuild.Include

variable {n : Nat} {edges : Edges n} {trail : List (Fin n)} {i j : Fin n}

/-! ## Trails and cycles -/

/-- Each file includes the next one, the last is the first again, and no other comes twice. -/
structure IsCycle (edges : Edges n) (chain : List (Fin n)) : Prop where
  two_le_length : 2 ≤ chain.length
  closed : chain.head? = chain.getLast?
  included : chain.IsChain fun i j => j ∈ edges i
  nodup : chain.dropLast.Nodup

/-- A cycle leads from a file to itself. -/
theorem IsCycle.exists_reaches {chain : List (Fin n)} (h : IsCycle edges chain) :
    ∃ i, Reaches edges i i := by
  obtain ⟨hlength, hclosed, hincluded, -⟩ := h
  match chain with
  | i :: j :: rest =>
    obtain ⟨hij, hrest⟩ := List.isChain_cons_cons.1 hincluded
    have hlast : (j :: rest).getLast (List.cons_ne_nil _ _) = i := by
      rw [List.head?_cons, List.getLast?_cons_cons, List.getLast?_eq_getLast_of_ne_nil
        (List.cons_ne_nil _ _), Option.some.injEq] at hclosed
      exact hclosed.symm
    refine ⟨i, Relation.TransGen.head' hij ?_⟩
    exact List.relationReflTransGen_of_exists_isChain_cons rest hrest hlast

/-- A trail leads to a file: each file on it includes the next, and the last includes that file. -/
structure LeadsTo (edges : Edges n) (trail : List (Fin n)) (i : Fin n) : Prop where
  included : (trail ++ [i]).IsChain fun i j => j ∈ edges i
  nodup : trail.Nodup

theorem leadsTo_nil (i : Fin n) : LeadsTo edges [] i :=
  ⟨List.isChain_singleton _, List.nodup_nil⟩

theorem LeadsTo.step (h : LeadsTo edges trail i) (hi : i ∉ trail) (hj : j ∈ edges i) :
    LeadsTo edges (trail ++ [i]) j := by
  refine ⟨?_, ?_⟩
  · rw [List.append_assoc, List.singleton_append, List.isChain_split]
    exact ⟨h.included, List.isChain_pair.2 hj⟩
  · rw [← List.concat_eq_append]
    exact h.nodup.concat hi

theorem dropWhile_ne_append {front back : List (Fin n)} (h : i ∉ front) :
    (front ++ i :: back).dropWhile (· ≠ i) = i :: back := by
  rw [List.dropWhile_append_of_pos]
  · simp
  · rintro k hk
    simp only [decide_eq_true_eq]
    rintro rfl
    exact h hk

/-- A trail that leads to a file on it closes a cycle. -/
theorem LeadsTo.isCycle (h : LeadsTo edges trail i) (hi : i ∈ trail) :
    IsCycle edges (cycle trail i) := by
  obtain ⟨front, back, rfl, hfront⟩ := List.eq_append_cons_of_mem hi
  have hincluded := h.included
  rw [List.append_assoc, List.cons_append, List.isChain_split] at hincluded
  unfold cycle
  rw [dropWhile_ne_append hfront, List.cons_append]
  refine ⟨by simp, ?_, hincluded.2, ?_⟩
  · rw [List.head?_cons, ← List.cons_append, List.getLast?_concat]
  · rw [← List.cons_append, List.dropLast_concat]
    exact (List.nodup_append.1 h.nodup).2.1

/-! ## Errors of a visit -/

/-- A row of visits fails when one of them does. -/
theorem visitAll_error {visit : Known n → Fin n → Except (List (Fin n)) (Known n)}
    {known : Known n} {reached js chain : List (Fin n)}
    (h : visitAll visit known reached js = .error chain) :
    ∃ j ∈ js, ∃ known', visit known' j = .error chain := by
  induction js generalizing known reached with
  | nil =>
    rw [visitAll] at h
    cases h
  | cons j js ih =>
    rw [visitAll] at h
    split at h
    · next chain' hj =>
      cases h
      exact ⟨j, List.mem_cons_self, known, hj⟩
    · obtain ⟨k, hk, hvisit⟩ := ih h
      exact ⟨k, List.mem_cons_of_mem _ hk, hvisit⟩

/-- A visit fails with a cycle. -/
theorem isCycle_of_visit {known : Known n} {chain : List (Fin n)} (htrail : LeadsTo edges trail i)
    (h : visit edges trail known i = .error chain) : IsCycle edges chain := by
  induction trail, known, i using visit.induct edges with
  | case1 trail known i closure hi =>
    rw [visit, hi] at h
    cases h
  | case2 trail known i hi hmem =>
    rw [visit, hi] at h
    simp only [dif_pos hmem] at h
    cases h
    exact htrail.isCycle hmem
  | case3 trail known i hi hmem cycle hall ih =>
    rw [visit, hi] at h
    simp only [dif_neg hmem, hall] at h
    cases h
    obtain ⟨j, hj, known', hvisit⟩ := visitAll_error hall
    exact ih known' j (htrail.step hmem hj) hvisit
  | case4 trail known i hi hmem mid closure hall ih =>
    rw [visit, hi] at h
    simp only [dif_neg hmem, hall] at h
    cases h

end ShaderBuild.Include

namespace ShaderBuild.IncludeGraph

open Include

variable {n : Nat} {edges : Edges n}

theorem isCycle_of_ofEdges {chain : List (Fin n)} (h : ofEdges edges = .error chain) :
    IsCycle edges chain := by
  unfold ofEdges at h
  cases hall : visitAll (visit edges []) (.empty n) [] (List.finRange n) with
  | ok r =>
    rw [hall] at h
    cases h
  | error chain' =>
    rw [hall] at h
    cases h
    obtain ⟨j, -, known, hvisit⟩ := visitAll_error hall
    exact isCycle_of_visit (leadsTo_nil j) hvisit

/-- Edges make a graph exactly when no file includes itself on any way. -/
theorem exists_ofEdges_iff : (∃ g, ofEdges edges = .ok g) ↔ ¬ ∃ i, Reaches edges i i := by
  constructor
  · rintro ⟨g, hg⟩ ⟨i, hi⟩
    obtain ⟨known, reached, hall, -⟩ := ofEdges_ok hg
    obtain ⟨settled, -, hsome⟩ := visitAll_row hall
    exact settled.acyclic i (hsome i (List.mem_finRange i)) hi
  · intro hacyclic
    cases h : ofEdges edges with
    | ok g => exact ⟨g, rfl⟩
    | error chain => exact absurd (isCycle_of_ofEdges h).exists_reaches hacyclic

end ShaderBuild.IncludeGraph

namespace ShaderBuild.Include

variable {n : Nat} {trail : List (Fin n)} {i : Fin n}

/-! ## Walks that mark the files -/

/-- Where a walk stands with a file. -/
inductive Colour where
  | fresh
  /-- The file is being visited. -/
  | active
  | done
deriving DecidableEq

/-- A walk on its way: the marks of the files, those that are being visited, and the closures of
those that are done. -/
structure Walk (n : Nat) where
  colours : Fin n → Colour
  stack : List (Fin n)
  closures : Fin n → List (Fin n)

namespace Walk

/-- A walk that has visited nothing. -/
def start (n : Nat) : Walk n := ⟨fun _ => .fresh, [], fun _ => []⟩

/-- Begins to visit a file. -/
def enter (w : Walk n) (i : Fin n) : Walk n :=
  { w with colours := Function.update w.colours i .active, stack := w.stack ++ [i] }

/-- Ends the visit of a file. -/
def leave (w : Walk n) (i : Fin n) (closure : List (Fin n)) : Walk n :=
  ⟨Function.update w.colours i .done, w.stack.dropLast, Function.update w.closures i closure⟩

/-- The stack from where a file stands on it, closed by that file. A file that is not there is taken
to stand at the place held ready for it, if there is one. -/
def cycle? (fallback : Option Nat) (w : Walk n) (i : Fin n) : Option (List (Fin n)) :=
  ((w.stack.findIdx? (· = i)).or fallback).map fun place => w.stack.drop place ++ [i]

/-- What a walk answers, if it comes to an end and finds the place of each file it looks up. -/
abbrev Answer (n : Nat) (α : Type) := Option (Except (List (Fin n)) α)

/-- Visits a row of files with `visit`, unless one is active, and adds what they reach. -/
def visitRow (visit : Walk n → Fin n → Answer n (Walk n)) (fallback : Option Nat) (w : Walk n)
    (reached : List (Fin n)) : List (Fin n) → Answer n (Walk n × List (Fin n))
  | [] => some (.ok (w, reached))
  | j :: js =>
    if w.colours j = .active then (w.cycle? fallback j).map .error
    else
      match visit w j with
      | none => none
      | some (.error chain) => some (.error chain)
      | some (.ok w) => visitRow visit fallback w (merge reached (j :: w.closures j)) js

/-- Visits a file that is not active. No answer stands for more than `depth` visits in each
other. -/
def visit (edges : Edges n) (fallback : Option Nat) : (depth : Nat) → Walk n → Fin n →
    Answer n (Walk n)
  | 0, _, _ => none
  | depth + 1, w, i =>
    if w.colours i = .done then some (.ok w)
    else
      match visitRow (visit edges fallback depth) fallback (w.enter i) [] (edges i) with
      | none => none
      | some (.error chain) => some (.error chain)
      | some (.ok (w, closure)) => some (.ok (w.leave i closure))

/-- Visits files one after the other. -/
def visitEach (visit : Walk n → Fin n → Answer n (Walk n)) (w : Walk n) :
    List (Fin n) → Answer n (Walk n)
  | [] => some (.ok w)
  | i :: is =>
    match visit w i with
    | none => none
    | some (.error chain) => some (.error chain)
    | some (.ok w) => visitEach visit w is

/-- The graph with the closures that a walk over all files finds, or the first cycle. -/
def graph? (edges : Edges n) (fallback : Option Nat) (depth : Nat) : Answer n (IncludeGraph n) :=
  (visitEach (visit edges fallback depth) (start n) (List.finRange n)).map fun r =>
    r.map fun w => { direct := edges, closure := fun i => w.closures i }

/-- The marks say which files are on a trail and which are finished. -/
structure Marks (trail : List (Fin n)) (known : Known n) (w : Walk n) : Prop where
  stack : w.stack = trail
  active : ∀ j : Fin n, w.colours j = .active ↔ j ∈ trail
  done : ∀ j : Fin n, w.colours j = .done ↔ (known.closure? j).isSome
  closures : ∀ j : Fin n, w.closures j = (known.closure? j).getD []

theorem marks_start : Marks [] (.empty n) (start n) := by
  constructor <;> simp [start]

namespace Marks

variable {known : Known n} {w : Walk n}

theorem enter (h : Marks trail known w) (hi : known.closure? i = none) :
    Marks (trail ++ [i]) known (w.enter i) := by
  have hget : ∀ j, (w.enter i).colours j = if j = i then .active else w.colours j :=
    fun j => Function.update_apply w.colours i .active j
  refine ⟨by rw [Walk.enter, h.stack], fun j => ?_, fun j => ?_, h.closures⟩
  · rw [hget, List.mem_append, List.mem_singleton]
    split
    · next heq => simp [heq]
    · next hne => rw [h.active, or_iff_left hne]
  · rw [hget]
    split
    · next heq => simp [heq, hi]
    · exact h.done j

/-- Ending a visit finishes the file. -/
theorem leave {closure : List (Fin n)} (h : Marks (trail ++ [i]) known w) (hi : i ∉ trail) :
    Marks trail (known.finish i closure) (w.leave i closure) := by
  have hget : ∀ j, (w.leave i closure).colours j = if j = i then .done else w.colours j :=
    fun j => Function.update_apply w.colours i .done j
  have hclosures : ∀ j, (w.leave i closure).closures j = if j = i then closure else w.closures j :=
    fun j => Function.update_apply w.closures i closure j
  refine ⟨by rw [Walk.leave, h.stack, List.dropLast_concat], fun j => ?_, fun j => ?_, fun j => ?_⟩
  · rw [hget]
    split
    · next heq => simp [heq, hi]
    · next hne => rw [h.active, List.mem_append, List.mem_singleton, or_iff_left hne]
  · rw [hget, Known.closure?_finish]
    simp only [eq_comm (a := i)]
    split
    · simp
    · exact h.done j
  · rw [hclosures, Known.closure?_finish]
    simp only [eq_comm (a := i)]
    split
    · rfl
    · exact h.closures j

/-- The stack shows the same cycle as the trail, when the file is active. -/
theorem cycle?_eq (h : Marks trail known w) (fallback : Option Nat) (hi : i ∈ trail) :
    w.cycle? fallback i = some (Include.cycle trail i) := by
  obtain ⟨front, back, rfl, hfront⟩ := List.eq_append_cons_of_mem hi
  have hindex : (front ++ i :: back).findIdx? (· = i) = some front.length := by
    rw [List.findIdx?_append, List.findIdx?_eq_none_iff.2, List.findIdx?_cons]
    · simp
    · rintro k hk
      simp only [decide_eq_false_iff_not]
      rintro rfl
      exact hfront hk
  rw [cycle?, h.stack, Include.cycle, dropWhile_ne_append hfront, hindex, Option.some_or,
    Option.map_some, List.drop_left]

end Marks

/-- A walk that marks files answers what one that carries its trail does. -/
def Agrees (trail : List (Fin n)) (x : Answer n (Walk n)) (y : Except (List (Fin n)) (Known n)) :
    Prop :=
  match y with
  | .error chain => x = some (.error chain)
  | .ok known => ∃ w, x = some (.ok w) ∧ Marks trail known w

theorem visitRow_agrees (fallback : Option Nat) {visit : Walk n → Fin n → Answer n (Walk n)}
    (plain : Known n → Fin n → Except (List (Fin n)) (Known n))
    (hvisit : ∀ known w j, Marks trail known w → j ∉ trail →
      Agrees trail (visit w j) (plain known j))
    (hplain : ∀ known j, known.closure? j = none → j ∈ trail →
      plain known j = .error (Include.cycle trail j))
    {known : Known n} {w : Walk n} (h : Marks trail known w) (reached js : List (Fin n)) :
    match visitAll plain known reached js with
    | .error chain => visitRow visit fallback w reached js = some (.error chain)
    | .ok (later, reached') => ∃ w',
      visitRow visit fallback w reached js = some (.ok (w', reached')) ∧ Marks trail later w' := by
  induction js generalizing known w reached with
  | nil => exact ⟨w, rfl, h⟩
  | cons j js ih =>
    rw [visitAll, visitRow]
    by_cases hj : j ∈ trail
    · have hactive := (h.active j).2 hj
      have hnone : known.closure? j = none := by
        have hdone := h.done j
        rw [hactive] at hdone
        simpa using hdone
      rw [if_pos hactive, hplain known j hnone hj, h.cycle?_eq fallback hj]
      rfl
    · rw [if_neg (mt (h.active j).1 hj)]
      have hagrees := hvisit known w j h hj
      cases hfirst : plain known j with
      | error chain =>
        rw [hfirst] at hagrees
        rw [show visit w j = some (.error chain) from hagrees]
      | ok mid =>
        rw [hfirst] at hagrees
        obtain ⟨w', hw', hmarks⟩ := hagrees
        rw [hw']
        simp only
        rw [hmarks.closures j]
        exact ih hmarks _

theorem visit_agrees (edges : Edges n) (fallback : Option Nat) {depth : Nat} {known : Known n}
    {w : Walk n}
    (h : Marks trail known w) (hi : i ∉ trail) (hdepth : unvisited trail ≤ depth) :
    Agrees trail (visit edges fallback depth w i) (Include.visit edges trail known i) := by
  induction depth generalizing trail known w i with
  | zero => exact absurd (unvisited_lt hi) (by omega)
  | succ depth ih =>
    rw [Include.visit, visit]
    cases hknown : known.closure? i with
    | some closure =>
      have hdone := (h.done i).2 (by rw [hknown]; rfl)
      rw [if_pos hdone]
      exact ⟨w, rfl, h⟩
    | none =>
      have hdone : w.colours i ≠ .done := fun hdone => by
        have := (h.done i).1 hdone
        rw [hknown] at this
        cases this
      simp only [if_neg hdone, dif_neg hi]
      have hshorter : unvisited (trail ++ [i]) ≤ depth := by
        have := unvisited_lt hi
        omega
      have hrow := visitRow_agrees fallback
        (fun known j => Include.visit edges (trail ++ [i]) known j)
        (fun known w j hmarks hj => ih hmarks hj hshorter)
        (fun known j hnone hj => by rw [Include.visit, hnone]; simp only [dif_pos hj])
        (h.enter hknown) [] (edges i)
      cases hall : visitAll (fun known j => Include.visit edges (trail ++ [i]) known j) known []
          (edges i) with
      | error chain =>
        rw [hall] at hrow
        simp only at hrow ⊢
        rw [hrow]
        rfl
      | ok r =>
        rw [hall] at hrow
        obtain ⟨w', hw', hmarks⟩ := hrow
        simp only
        rw [hw']
        exact ⟨_, rfl, hmarks.leave hi⟩

theorem visitEach_agrees (edges : Edges n) (fallback : Option Nat) {depth : Nat}
    (hdepth : n ≤ depth) {known : Known n} {w : Walk n}
    (h : Marks [] known w) (reached js : List (Fin n)) :
    Agrees [] (visitEach (visit edges fallback depth) w js)
      ((visitAll (Include.visit edges []) known reached js).map (·.1)) := by
  induction js generalizing known w reached with
  | nil => exact ⟨w, rfl, h⟩
  | cons j js ih =>
    have hunvisited : unvisited ([] : List (Fin n)) ≤ depth :=
      (List.countP_le_length.trans (List.length_finRange ..).le).trans hdepth
    have hagrees := visit_agrees edges fallback h (List.not_mem_nil (a := j)) hunvisited
    rw [visitAll, visitEach]
    cases hfirst : Include.visit edges [] known j with
    | error chain =>
      rw [hfirst] at hagrees
      rw [show visit edges fallback depth w j = some (.error chain) from hagrees]
      rfl
    | ok mid =>
      rw [hfirst] at hagrees
      obtain ⟨w', hw', hmarks⟩ := hagrees
      rw [hw']
      exact ih hmarks _

/-- **The place of an active file is always found.** Walks that mark the files come to an end, no
deeper than there are files, and find the graph or a cycle. No place has to be held ready for a file
that is not on the stack, and none makes a difference. -/
theorem graph?_eq (edges : Edges n) (fallback : Option Nat) {depth : Nat} (hdepth : n ≤ depth) :
    graph? edges fallback depth = some (IncludeGraph.ofEdges edges) := by
  have hagrees := visitEach_agrees edges fallback hdepth marks_start [] (List.finRange n)
  unfold graph? IncludeGraph.ofEdges
  cases hall : visitAll (Include.visit edges []) (.empty n) [] (List.finRange n) with
  | error chain =>
    rw [hall] at hagrees
    rw [show visitEach (visit edges fallback depth) (start n) (List.finRange n)
      = some (.error chain) from hagrees]
    rfl
  | ok r =>
    rw [hall] at hagrees
    obtain ⟨w, hw, hmarks⟩ := hagrees
    rw [hw]
    simp only [Option.map_some, Except.map, hmarks.closures]

end Walk

end ShaderBuild.Include

namespace ShaderBuild

open Include

/-! ## Sets of files -/

section

variable {fs : FileSet} {tree : FileTree}

/-- Every include of every file leads to a file that exists and belongs to the set. -/
def FileSet.Resolved (fs : FileSet) (tree : FileTree) : Prop :=
  ∀ f ∈ fs.files, ∀ line text, (line, text) ∈ ofText f.content →
    tree.isFile (resolve f.path text) = true ∧
      ∃ g ∈ fs.files, g.identity = (resolve f.path text).identity

/-- One file of a set includes another one directly. -/
def FileSet.IncludesDirectly (fs : FileSet) (i j : Fin fs.size) : Prop :=
  ∃ line text, (line, text) ∈ ofText (fs.get i).content ∧
    (fs.get j).identity = (resolve (fs.get i).path text).identity

/-- Includes that lead to files of the set are edges to these. -/
theorem FileSet.exists_direct (apart : fs.Apart) (resolved : fs.Resolved tree) (i : Fin fs.size) :
    ∃ js, Include.direct tree fs (fs.get i) = .ok js ∧ ∀ j, j ∈ js ↔ fs.IncludesDirectly i j := by
  have htarget : ∀ line text, (line, text) ∈ ofText (fs.get i).content → ∃ j,
      Include.target tree fs (fs.get i).path line text = .ok j := by
    intro line text hline
    obtain ⟨hfile, g, hg, hidentity⟩ := resolved _ (FileSet.get_mem i) line text hline
    unfold Include.target
    simp only [hfile, if_true]
    cases hindex : fs.index? (resolve (fs.get i).path text).identity with
    | some j => exact ⟨j, rfl⟩
    | none => exact absurd hidentity (FileSet.index?_eq_none_iff.1 hindex g hg)
  obtain ⟨targets, htargets, hdirect⟩ := exists_direct_of_target htarget
  refine ⟨_, hdirect, fun j => ?_⟩
  rw [mem_merge, or_iff_right (List.not_mem_nil)]
  constructor
  · intro hj
    obtain ⟨⟨line, text⟩, hline, hok⟩ := exists_of_mem_mapM htargets hj
    exact ⟨line, text, hline, (target_ok hok).2⟩
  · rintro ⟨line, text, hline, hidentity⟩
    obtain ⟨k, hk, hok⟩ := mapM_mem_ok htargets hline
    have hsame : fs.get k = fs.get j := apart.eq_of_identity (FileSet.get_mem k)
      (FileSet.get_mem j) ((target_ok hok).2.trans hidentity.symm)
    rwa [← apart.get_injective hsame]

/-- **Cycles are rejected exactly and reported faithfully.** When all includes lead to files of the
set, there is an include graph, or else an error that shows a cycle; the latter exactly when some
file includes itself, directly or not. The paths that are shown are those of a cycle, and no two of
them but the first and the last are the same. A walk that marks the files finds just that, and the
file that it meets again is always on its stack. -/
theorem FileSet.graph_rejects_cycles (apart : fs.Apart)
    (keyed : ∀ f ∈ fs.files, f.identity = f.path.identity) (resolved : fs.Resolved tree) :
    ∃ edges : Edges fs.size, (∀ i j, j ∈ edges i ↔ fs.IncludesDirectly i j) ∧
      ((∃ graph, fs.graph tree = .ok graph) ∨
        ∃ chain, fs.graph tree = .error (.includeCycle chain)) ∧
      ((∃ chain, fs.graph tree = .error (.includeCycle chain)) ↔
        ∃ i, Relation.TransGen fs.IncludesDirectly i i) ∧
      (∀ chain, fs.graph tree = .error (.includeCycle chain) → ∃ cycle,
        chain = cycle.map (fun i => (fs.get i).path) ∧ IsCycle edges cycle ∧
        chain.dropLast.Nodup) ∧
      ∀ fallback depth, fs.size ≤ depth →
        Walk.graph? edges fallback depth = some (IncludeGraph.ofEdges edges) := by
  choose edges hdirect hedges using FileSet.exists_direct apart resolved
  have hgraph := FileSet.graph_eq hdirect
  have hreaches : Reaches edges = Relation.TransGen fs.IncludesDirectly := by
    unfold Reaches
    congr
    funext i j
    exact propext (hedges i j)
  refine ⟨edges, hedges, ?_, ?_, ?_, fun fallback depth => Walk.graph?_eq edges fallback⟩
  · rw [hgraph]
    cases IncludeGraph.ofEdges edges with
    | ok graph => exact .inl ⟨graph, rfl⟩
    | error cycle => exact .inr ⟨_, rfl⟩
  · rw [← hreaches, ← not_iff_not, ← IncludeGraph.exists_ofEdges_iff, hgraph]
    cases IncludeGraph.ofEdges edges with
    | ok graph => simp
    | error cycle => simp
  · intro chain hchain
    rw [hgraph] at hchain
    cases hcycle : IncludeGraph.ofEdges edges with
    | ok graph =>
      rw [hcycle] at hchain
      cases hchain
    | error cycle =>
      rw [hcycle] at hchain
      cases hchain
      have hisCycle := IncludeGraph.isCycle_of_ofEdges hcycle
      refine ⟨cycle, rfl, hisCycle, ?_⟩
      rw [← List.map_dropLast]
      refine hisCycle.nodup.map fun i j hpath => apart.get_injective ?_
      refine apart.eq_of_identity (FileSet.get_mem i) (FileSet.get_mem j) ?_
      rw [keyed _ (FileSet.get_mem i), keyed _ (FileSet.get_mem j)]
      exact congrArg Path.identity hpath

end

/-! ## Two files that include each other -/

namespace SmallSet

instance (fs : FileSet) : Decidable fs.Apart :=
  inferInstanceAs (Decidable (fs.files.Pairwise fun f g =>
    f.identity ≠ g.identity ∧ ∀ o ∈ f.outputs, ∀ p ∈ g.outputs, o.sameAs p = false))

instance (fs : FileSet) (tree : FileTree) : Decidable (fs.Resolved tree) :=
  decidable_of_iff (∀ f ∈ fs.files, ∀ x ∈ ofText f.content,
    tree.isFile (resolve f.path x.2) = true ∧
      ∃ g ∈ fs.files, g.identity = (resolve f.path x.2).identity) <| by
    simp only [FileSet.Resolved, Prod.forall]

/-- The first file leads to two others that include each other. -/
def pair : List (String × String) :=
  [("p", "#include \"a\"\n"), ("a", "#include \"b\"\n"), ("b", "#include \"a\"\n")]

/-- The chain in the error about a cycle. -/
def chain? (fs : FileSet) (tree : FileTree) : Option (List Path) :=
  match fs.graph tree with
  | .error (.includeCycle chain) => some chain
  | _ => none

theorem pair_facts : (files pair).Apart ∧
    (∀ f ∈ (files pair).files, f.identity = f.path.identity) ∧ (files pair).Resolved (tree pair) ∧
    chain? (files pair) (tree pair) = some [⟨"a"⟩, ⟨"b"⟩, ⟨"a"⟩] := by
  decide +kernel

end SmallSet

theorem pair_rejected :
    (SmallSet.files SmallSet.pair).graph (SmallSet.tree SmallSet.pair)
      = .error (.includeCycle [⟨"a"⟩, ⟨"b"⟩, ⟨"a"⟩]) ∧
    ∃ i, Relation.TransGen (SmallSet.files SmallSet.pair).IncludesDirectly i i := by
  obtain ⟨apart, keyed, resolved, hchain⟩ := SmallSet.pair_facts
  obtain ⟨edges, -, hends, hiff, -⟩ := FileSet.graph_rejects_cycles apart keyed resolved
  unfold SmallSet.chain? at hchain
  rcases hends with ⟨graph, hgraph⟩ | ⟨chain, hgraph⟩
  · rw [hgraph] at hchain
    cases hchain
  · rw [hgraph] at hchain
    cases hchain
    exact ⟨hgraph, hiff.1 ⟨_, hgraph⟩⟩

end ShaderBuild
