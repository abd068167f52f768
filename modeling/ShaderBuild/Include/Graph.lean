import ShaderBuild.Counting

/-!
# Include graphs

The include edges between `n` files, and their closure: for each file the files it includes,
directly or not, in the order in which a walk along the edges meets them. The closure exists when
no file includes itself on any way; otherwise the first cycle met is the answer.

Files are visited one after the other. A visit knows the *trail*, the files on the way to the one
it visits, and the closures that are finished; the closure of a file is put together from those
of the files it includes.

## Termination

A visit is made only from a file that is not on its trail and puts it there (`unvisited`).
-/

namespace ShaderBuild.Include

/-- Which files each file includes directly. -/
abbrev Edges (n : Nat) := Fin n → List (Fin n)

/-- The closures that are finished. -/
structure Known (n : Nat) where
  closures : Vector (Option (List (Fin n))) n

namespace Known

variable {n : Nat}

/-- No closure is finished. -/
def empty (n : Nat) : Known n := ⟨Vector.replicate n none⟩

/-- The closure of a file, if it is finished. -/
def closure? (known : Known n) (i : Fin n) : Option (List (Fin n)) := known.closures[i]

/-- Finishes the closure of a file. -/
def finish (known : Known n) (i : Fin n) (closure : List (Fin n)) : Known n :=
  ⟨known.closures.set i (some closure)⟩

@[simp]
theorem closure?_empty (i : Fin n) : (empty n).closure? i = none := by
  simp [empty, closure?]

theorem closure?_finish (known : Known n) (i j : Fin n) (closure : List (Fin n)) :
    (known.finish i closure).closure? j = if i = j then some closure else known.closure? j := by
  simp [finish, closure?, Vector.getElem_set, Fin.val_inj]

@[simp]
theorem closure?_finish_self (known : Known n) (i : Fin n) (closure : List (Fin n)) :
    (known.finish i closure).closure? i = some closure := by
  rw [closure?_finish, if_pos rfl]

theorem closure?_finish_of_ne (known : Known n) {i j : Fin n} (h : i ≠ j)
    (closure : List (Fin n)) : (known.finish i closure).closure? j = known.closure? j := by
  rw [closure?_finish, if_neg h]

end Known

/-- How many files are not on a trail. -/
def unvisited {n : Nat} (trail : List (Fin n)) : Nat := (List.finRange n).countP (· ∉ trail)

theorem unvisited_lt {n : Nat} {trail : List (Fin n)} {i : Fin n} (h : i ∉ trail) :
    unvisited (trail ++ [i]) < unvisited trail := by
  refine countP_lt_countP (fun j hj => ?_) (List.mem_finRange i) (by simpa using h) (by simp)
  simp only [List.mem_append, not_or, decide_eq_true_eq] at hj ⊢
  exact hj.1

/-- Adds the files that are not there yet, in order. -/
def merge {n : Nat} (seen : List (Fin n)) : List (Fin n) → List (Fin n)
  | [] => seen
  | j :: js => merge (if j ∈ seen then seen else seen ++ [j]) js

/-- The part of a trail from a file on, closed by that file. -/
def cycle {n : Nat} (trail : List (Fin n)) (i : Fin n) : List (Fin n) :=
  trail.dropWhile (· ≠ i) ++ [i]

/-- Finishes the closures of a row of included files, each with `visit`, and adds them to what is
`reached`. -/
def visitAll {n : Nat} (visit : Known n → Fin n → Except (List (Fin n)) (Known n))
    (known : Known n) (reached : List (Fin n)) :
    List (Fin n) → Except (List (Fin n)) (Known n × List (Fin n))
  | [] => .ok (known, reached)
  | j :: js =>
    match visit known j with
    | .error c => .error c
    | .ok known => visitAll visit known (merge reached (j :: (known.closure? j).getD [])) js

/-- Finishes the closure of a file, or meets a cycle. -/
def visit {n : Nat} (edges : Edges n) (trail : List (Fin n)) (known : Known n) (i : Fin n) :
    Except (List (Fin n)) (Known n) :=
  match known.closure? i with
  | some _ => .ok known
  | none =>
    if _h : i ∈ trail then .error (cycle trail i)
    else
      match visitAll (fun known j => visit edges (trail ++ [i]) known j) known [] (edges i) with
      | .error c => .error c
      | .ok (known, closure) => .ok (known.finish i closure)
termination_by unvisited trail
decreasing_by exact unvisited_lt _h

end ShaderBuild.Include

namespace ShaderBuild

/-- The include edges between files, with their closure. -/
structure IncludeGraph (n : Nat) where
  direct : Include.Edges n
  /-- The files that a file includes, directly or not. -/
  closure : Include.Edges n

namespace IncludeGraph

/-- The graph with the given edges, or the first cycle. -/
def ofEdges {n : Nat} (edges : Include.Edges n) : Except (List (Fin n)) (IncludeGraph n) :=
  (Include.visitAll (Include.visit edges []) (.empty n) [] (List.finRange n)).map
    fun (known, _) => { direct := edges, closure := fun i => (known.closure? i).getD [] }

end IncludeGraph

end ShaderBuild
