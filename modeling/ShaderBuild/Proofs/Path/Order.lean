import ShaderBuild.Proofs.FileTree.Walk
import ShaderBuild.Proofs.Text.ByteOrder

/-!
# The order of paths

Paths compare component by component, and components by their bytes (`Precedes`). The components of
a normal form are the resolved ones of the path (`components_normalize`), so what lies below a
folder compares as the names on the way there do (`precedes_descendant`), however the path of the
folder is spelled.
-/

namespace ShaderBuild.Path

variable {p q : Path} {names names' : List String}

/-- The bytes of the components of a path. -/
def spelling (p : Path) : List (List UInt8) :=
  p.components.map fun c => Text.encode c.segment.toList

/-- The first component in which the paths differ has smaller bytes in the first one, or the first
one ends there. -/
def Precedes (p q : Path) : Prop := p.spelling < q.spelling

instance (p q : Path) : Decidable (p.Precedes q) := inferInstanceAs (Decidable (_ < _))

theorem Precedes.ne (h : p.Precedes q) : p ≠ q := by
  rintro rfl
  exact List.lt_irrefl _ h

/-! ## Components of a normal form -/

/-- Without dots, the components of a path are its segments but the empty ones, behind the slash in
front. -/
theorem components_of_no_dot (h : ∀ s ∈ p.segments, s ≠ ".") :
    p.components = p.base ++ (p.segments.filter (· ≠ "")).filterMap Component.ofSegment? := by
  have hskip : ∀ ss : List String, (ss.filter (· ≠ "")).filterMap Component.ofSegment?
      = ss.filterMap Component.ofSegment? := by
    intro ss
    rw [List.filterMap_filter]
    refine List.filterMap_congr fun s _ => ?_
    by_cases hs : s = ""
    · simp [hs, Component.ofSegment?]
    · simp [hs]
  rw [hskip]
  unfold components base
  by_cases habsolute : p.isAbsolute = true
  -- behind a slash in front the first segment is empty; else it is the one that may be a dot
  · obtain ⟨ss, hss⟩ := head_segments_of_isAbsolute habsolute
    simp only [hss, if_pos habsolute, Option.toList_some]
    rw [List.filterMap_cons_none (by simp [Component.ofSegment?])]
  · simp only [if_neg habsolute]
    cases hss : p.segments with
    | nil => rfl
    | cons s ss =>
      have hs : s ≠ "." := h s (by rw [hss]; exact List.mem_cons_self)
      simp only [if_neg hs, List.nil_append]
      rw [List.filterMap_cons]
      cases Component.ofSegment? s <;> rfl

theorem Component.IsStep.ofSegment? {c : Component} (h : c.IsStep) :
    Component.ofSegment? c.segment = some c := by
  cases c with
  | root => exact absurd h id
  | here => exact absurd h id
  | up => rfl
  | name n =>
    obtain ⟨h0, h1, h2, -⟩ := h
    simp [Component.ofSegment?, Component.segment, h0, h1, h2]

/-- A normal form has the resolved components of its path. -/
theorem components_normalize (p : Path) : p.normalize.components = p.stack.reverse := by
  obtain ⟨pre, hstack, hpre, hsegments, -, habsolute⟩ := segments_normalize p
  replace hpre : ∀ c ∈ pre.reverse, c.IsStep := fun c hc => hpre c (List.mem_reverse.1 hc)
  have hdots : ∀ s ∈ p.normalize.segments, s ≠ "." := by
    rintro s hs rfl
    have hmem : "." ∈ p.normalize.segments.filter (· ≠ "") := List.mem_filter.2 ⟨hs, by decide⟩
    rw [hsegments] at hmem
    obtain ⟨c, hc, hdot⟩ := List.mem_map.1 hmem
    exact (hpre c hc).segment.2.1 hdot
  have hsteps : (pre.reverse.map Component.segment).filterMap Component.ofSegment?
      = pre.reverse := by
    rw [List.filterMap_map]
    exact (List.filterMap_congr fun c hc => (hpre c hc).ofSegment?).trans List.filterMap_some
  have hreverse : p.base.reverse = p.base := by
    unfold base
    cases p.isAbsolute <;> rfl
  have hbase : p.normalize.base = p.base := by
    unfold base
    rw [habsolute]
  rw [components_of_no_dot hdots, hsegments, hsteps, hstack, List.reverse_append, hreverse, hbase]

/-! ## Below a folder -/

theorem stack_child {n : String} (h : IsName n) : (p.child n).stack = .name n :: p.stack := by
  obtain ⟨hsegments, habsolute⟩ := segments_child (p := p) h
  have hbase : (p.child n).base = p.base := by
    unfold base
    rw [habsolute]
  rw [stack, hsegments, hbase, List.foldl_append]
  exact pushSegment_name h.2.1 h.2.2.1

theorem stack_descendant (h : ∀ n ∈ names, IsName n) :
    (p.descendant names).stack = (names.map Component.name).reverse ++ p.stack := by
  induction names generalizing p with
  | nil => rfl
  | cons n names ih =>
    rw [descendant, List.foldl_cons, ← descendant,
      ih fun m hm => h m (List.mem_cons_of_mem _ hm), stack_child (h n List.mem_cons_self),
      List.map_cons, List.reverse_cons, List.append_assoc]
    rfl

/-- The normal form of a path below a folder goes on with the names on the way. -/
theorem components_descendant (h : ∀ n ∈ names, IsName n) :
    (p.descendant names).normalize.components
      = p.normalize.components ++ names.map Component.name := by
  rw [components_normalize, components_normalize, stack_descendant h, List.reverse_append,
    List.reverse_reverse]

/-- What lies below a folder compares as the names on the way do. -/
theorem precedes_descendant (h : ∀ n ∈ names, IsName n) (h' : ∀ n ∈ names', IsName n)
    (hlt : names < names') :
    (p.descendant names).normalize.Precedes (p.descendant names').normalize := by
  unfold Precedes spelling
  rw [components_descendant h, components_descendant h', List.map_append, List.map_append,
    List.map_map, List.map_map]
  refine List.append_left_lt (List.map_lt (fun a b hab => ?_) hlt)
  exact Text.encode_lt_encode (String.lt_iff.1 hab)

end ShaderBuild.Path
