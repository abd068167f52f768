import Mathlib.Data.Set.Finite.Basic
import ShaderBuild.Include.Line
import ShaderBuild.Proofs.Path.Order

/-!
# Normal forms

A normal form is the root or a run of steps up, and names behind it (`Canonical`). Two paths have
the same normal form exactly when they lead to the same location from every folder that is deep
enough (`LeadsAlike`), so the normal form stands for what a path means, and whatever is computed
from it does not depend on the spelling (`normalize_is_canonical`).

A step up is resolved at the end of what is already resolved, so a path may be resolved before
another one is joined to it (`stack_join`).
-/

namespace ShaderBuild.Path

variable {a b p q : Path} {absolute : Bool} {cs : List Component}

/-- The components of a normal form: the root, or steps up, and names behind. -/
inductive Canonical : Bool → List Component → Prop
  | rooted {names : List String} : (∀ n ∈ names, IsName n) →
      Canonical true (.root :: names.map .name)
  | climbing (climbs : Nat) {names : List String} : (∀ n ∈ names, IsName n) →
      Canonical false (List.replicate climbs .up ++ names.map .name)

/-! ## Resolving keeps normal forms -/

theorem Canonical.concat {n : String} (h : Canonical absolute cs) (hn : IsName n) :
    Canonical absolute (cs ++ [.name n]) := by
  have hnames : ∀ {names : List String}, (∀ m ∈ names, IsName m) → ∀ m ∈ names ++ [n],
      IsName m := fun h m hm => by
    rcases List.mem_append.1 hm with hm | hm
    · exact h m hm
    · exact List.mem_singleton.1 hm ▸ hn
  cases h with
  | rooted h => simpa using Canonical.rooted (hnames h)
  | climbing climbs h => simpa using Canonical.climbing climbs (hnames h)

/-- A step up takes the last name back; without one it is kept, but not directly below the root. -/
theorem Canonical.push_up (h : Canonical absolute cs) :
    Canonical absolute (push cs.reverse .up).reverse := by
  cases h with
  | @rooted names h =>
    rcases List.eq_nil_or_concat' names with rfl | ⟨names, n, rfl⟩
    · exact .rooted h
    · simpa [push] using Canonical.rooted fun m hm => h m (by simp [hm])
  | @climbing climbs names h =>
    rcases List.eq_nil_or_concat' names with rfl | ⟨names, n, rfl⟩
    · have hpush : push (List.replicate climbs .up) .up = List.replicate (climbs + 1) .up := by
        cases climbs <;> rfl
      simpa [hpush] using Canonical.climbing (climbs + 1) h
    · simpa [push] using Canonical.climbing climbs fun m hm => h m (by simp [hm])

theorem Canonical.pushSegment {s : String} (h : Canonical absolute cs) (hs : s ≠ "")
    (hslash : '/' ∉ s.toList) : Canonical absolute (pushSegment cs.reverse s).reverse := by
  by_cases hdot : s = "."
  · rwa [Path.pushSegment, if_pos hdot, List.reverse_reverse]
  · by_cases hup : s = ".."
    · rw [Path.pushSegment, if_neg hdot, if_pos hup]
      exact h.push_up
    · rw [pushSegment_name hdot hup, List.reverse_cons, List.reverse_reverse]
      exact h.concat ⟨hs, hdot, hup, hslash⟩

/-- What a path is resolved to is a normal form. -/
theorem canonical_stack (p : Path) : Canonical p.isAbsolute p.stack.reverse := by
  have hsegments : ∀ s ∈ p.segments.filter (· ≠ ""), s ≠ "" ∧ '/' ∉ s.toList := fun s hs => by
    obtain ⟨hmem, hne⟩ := List.mem_filter.1 hs
    exact ⟨by simpa using hne, not_slash_of_mem_segments hmem⟩
  have hbase : Canonical p.isAbsolute p.base.reverse := by
    have hnone : ∀ n ∈ ([] : List String), IsName n := by simp
    unfold base
    cases p.isAbsolute with
    | false => exact .climbing 0 hnone
    | true => exact .rooted hnone
  unfold stack
  generalize p.segments.filter (· ≠ "") = ss at hsegments
  generalize p.base = st at hbase
  induction ss generalizing st with
  | nil => exact hbase
  | cons s ss ih =>
    obtain ⟨hs, hss⟩ := List.forall_mem_cons.1 hsegments
    have hstep := hbase.pushSegment hs.1 hs.2
    rw [List.reverse_reverse] at hstep
    exact ih hss _ hstep

/-- The components of a normal form are resolved already. -/
theorem Canonical.resolve (h : Canonical absolute cs) : resolve cs = cs := by
  have hnames : ∀ (names : List String) (st : List Component),
      (names.map Component.name).foldl push st = (names.map Component.name).reverse ++ st := by
    intro names
    induction names with
    | nil => exact fun st => rfl
    | cons n names ih =>
      intro st
      rw [List.map_cons, List.foldl_cons, ih, List.reverse_cons, List.append_assoc]
      cases st <;> rfl
  unfold Path.resolve
  cases h with
  | @rooted names _ => rw [List.foldl_cons, hnames]; simp [push]
  | @climbing climbs names _ =>
    have hclimbs : (List.replicate climbs Component.up).foldl push [] =
        List.replicate climbs .up := by
      induction climbs with
      | zero => rfl
      | succ climbs ih =>
        rw [List.replicate_succ', List.foldl_append, ih, ← List.replicate_succ']
        cases climbs <;> rfl
    rw [List.foldl_append, hclimbs, hnames]
    simp

/-! ## What determines a normal form -/

theorem normalize_eq_ofComponents (p : Path) : p.normalize = ofComponents p.stack.reverse := by
  rw [normalize, resolve_components]

theorem normalize_eq_iff_stack : p.normalize = q.normalize ↔ p.stack = q.stack := by
  constructor
  · intro h
    have hcomponents := congrArg components h
    rw [components_normalize, components_normalize] at hcomponents
    exact List.reverse_injective hcomponents
  · intro h
    rw [normalize_eq_ofComponents, normalize_eq_ofComponents, h]

theorem stack_normalize (p : Path) : p.normalize.stack = p.stack := by
  have h := resolve_components p.normalize
  rw [components_normalize, (canonical_stack p).resolve] at h
  exact List.reverse_injective h.symm

theorem normalize_normalize (p : Path) : p.normalize.normalize = p.normalize :=
  normalize_eq_iff_stack.2 (stack_normalize p)

/-- Joining a path goes on resolving where the first one ends. -/
theorem stack_join (h : b.isAbsolute = false) :
    (a.join b).stack = (b.segments.filter (· ≠ "")).foldl pushSegment a.stack := by
  obtain ⟨hsegments, habsolute⟩ := segments_join (a := a) h
  have hbase : (a.join b).base = a.base := by
    unfold base
    rw [habsolute]
  rw [stack, hsegments, hbase, List.foldl_append]
  rfl

/-- A path may be resolved before another one is joined to it. -/
theorem normalize_join_normalize (a b : Path) :
    (a.normalize.join b).normalize = (a.join b).normalize := by
  cases h : b.isAbsolute with
  | true => rw [join, join, if_pos h, if_pos h]
  | false => rw [normalize_eq_iff_stack, stack_join h, stack_join h, stack_normalize]

/-! ## The folder of a normal form -/

theorem Canonical.mem {c : Component} (h : Canonical absolute cs) (hc : c ∈ cs) :
    c = .root ∨ c.IsStep := by
  cases h with
  | rooted h =>
    rcases List.mem_cons.1 hc with rfl | hc
    · exact .inl rfl
    · obtain ⟨n, hn, rfl⟩ := List.mem_map.1 hc
      exact .inr (h n hn)
  | climbing climbs h =>
    rcases List.mem_append.1 hc with hc | hc
    · rw [List.eq_of_mem_replicate hc]
      exact .inr trivial
    · obtain ⟨n, hn, rfl⟩ := List.mem_map.1 hc
      exact .inr (h n hn)

/-- Only the root stands in front of nothing but itself. -/
theorem Canonical.eq_nil_of_concat_root (h : Canonical absolute (cs ++ [.root])) : cs = [] := by
  generalize hroot : cs ++ [Component.root] = all at h
  cases h with
  | rooted h =>
    cases cs with
    | nil => rfl
    | cons c cs =>
      rw [List.cons_append, List.cons.injEq] at hroot
      have hmem : Component.root ∈ cs ++ [.root] := by simp
      rw [hroot.2] at hmem
      simp at hmem
  | climbing climbs h =>
    have hmem : Component.root ∈ cs ++ [.root] := by simp
    rw [hroot] at hmem
    simp at hmem

theorem not_slash_of_canonical (h : Canonical absolute cs) :
    ∀ s ∈ cs.map Component.segment, '/' ∉ s.toList := by
  intro s hs
  obtain ⟨c, hc, rfl⟩ := List.mem_map.1 hs
  rcases h.mem hc with rfl | hstep
  · simp [Component.segment]
  · exact hstep.segment.2.2

theorem dropIdle_of_kept {s : String} {ss : List String} (h : ss = [] ∨ s ≠ "" ∧ s ≠ ".") :
    dropIdle (s :: ss) = s :: ss := by
  cases ss with
  | nil => rfl
  | cons t ss =>
    obtain ⟨hempty, hdot⟩ := h.resolve_left (by simp)
    rw [dropIdle, if_neg (not_or.2 ⟨hempty, hdot⟩)]

theorem ofComponents_of_ne_root (h : cs ≠ [.root]) :
    ofComponents cs = ofSegments (cs.map Component.segment) := by
  unfold ofComponents
  split
  · exact absurd rfl h
  · rfl

/-- The folder of a normal form that ends with a name is what stands in front of the name. -/
theorem parent?_ofComponents {n : String} (h : Canonical absolute cs) (hn : IsName n) :
    (ofComponents (cs ++ [.name n])).parent? = some (ofComponents cs) := by
  have hplain : ofComponents (cs ++ [.name n]) = ofSegments (cs.map Component.segment ++ [n]) := by
    rw [ofComponents_of_ne_root (by simp [List.append_eq_singleton_iff]), List.map_append]
    rfl
  have hsegments : (ofSegments (cs.map Component.segment ++ [n])).segments =
      cs.map Component.segment ++ [n] := by
    refine segments_ofSegments (by simp) fun s hs => ?_
    rcases List.mem_append.1 hs with hs | hs
    · exact not_slash_of_canonical h s hs
    · exact List.mem_singleton.1 hs ▸ hn.2.2.2
  rw [hplain, parent?, hsegments, List.reverse_append, List.reverse_singleton,
    List.singleton_append, dropIdle_of_kept (.inr ⟨hn.1, hn.2.1⟩)]
  rcases List.eq_nil_or_concat' cs with rfl | ⟨init, c, rfl⟩
  · simp [hn.1, ofComponents, ofSegments, joinSlash]
  · -- the last component before the name is no idle segment, or it is the root and stands alone
    have hkept : init = [] ∨ c.segment ≠ "" ∧ c.segment ≠ "." := by
      rcases h.mem (c := c) (by simp) with rfl | hstep
      · exact .inl h.eq_nil_of_concat_root
      · exact .inr ⟨hstep.segment.1, hstep.segment.2.1⟩
    have hreverse : ((init ++ [c]).map Component.segment).reverse =
        c.segment :: (init.map Component.segment).reverse := by simp
    have hfolder : (dropIdle (c.segment :: (init.map Component.segment).reverse)).reverse =
        (init ++ [c]).map Component.segment := by
      rw [dropIdle_of_kept (by simpa using hkept), ← hreverse, List.reverse_reverse]
    rw [hreverse]
    simp only [hfolder]
    by_cases hroot : init ++ [c] = [.root]
    · have habsolute : (ofSegments ([Component.root].map Component.segment ++ [n])).isAbsolute =
          true := isAbsolute_ofSegments_of_empty
      rw [hroot, if_pos ⟨habsolute, rfl⟩]
      rfl
    · rw [if_neg, ofComponents_of_ne_root hroot]
      rintro ⟨-, hempty⟩
      rw [List.map_append, List.map_singleton, List.append_eq_singleton_iff] at hempty
      obtain ⟨hinit, hc⟩ : init = [] ∧ c.segment = "" := by simpa using hempty
      rcases h.mem (c := c) (by simp) with rfl | hstep
      · exact hroot (by rw [hinit]; rfl)
      · exact hstep.segment.1 hc

/-- An include of a file in a folder leads where it leads from the folder, however the folder is
spelled. -/
theorem resolve_child_normalize {folder : Path} {n : String} (hn : IsName n) (target : String) :
    Include.resolve (folder.child n).normalize target = (folder.join ⟨target⟩).normalize := by
  have hfile : (folder.child n).normalize = ofComponents (folder.stack.reverse ++ [.name n]) := by
    rw [normalize_eq_ofComponents, stack_child hn, List.reverse_cons]
  rw [Include.resolve, hfile, parent?_ofComponents (canonical_stack folder) hn, Option.getD_some,
    ← normalize_eq_ofComponents, normalize_join_normalize]

/-! ## Where normal forms lead -/

/-- Whether two paths lead to the same location from every folder that is deep enough. -/
def LeadsAlike (p q : Path) : Prop :=
  ∃ depth, ∀ here : Location, (∀ n ∈ here, IsName n) → depth ≤ here.length →
    p.locate here = q.locate here

theorem locate_eq_foldl (p : Path) (here : Location) :
    p.locate here = p.stack.reverse.foldl Component.move here := by
  rw [← locateStack_stack, List.foldl_reverse]
  rfl

theorem foldl_move_names (names : List String) (l : Location) :
    (names.map Component.name).foldl Component.move l = l ++ names := by
  induction names generalizing l with
  | nil => simp
  | cons n names ih =>
    rw [List.map_cons, List.foldl_cons, ih, Component.move, List.append_assoc]
    rfl

theorem foldl_move_climbs (climbs d : Nat) (z : String) :
    (List.replicate climbs Component.up).foldl Component.move (List.replicate d z) =
      List.replicate (d - climbs) z := by
  induction climbs generalizing d with
  | zero => rfl
  | succ climbs ih =>
    rw [List.replicate_succ, List.foldl_cons, Component.move, List.dropLast_replicate, ih,
      Nat.sub_sub, Nat.add_comm]

/-- A name that does not occur in a row of components. -/
theorem exists_fresh_name (cs : List Component) : ∃ z, IsName z ∧ .name z ∉ cs := by
  let name (k : Nat) : String := String.ofList (List.replicate (k + 1) 'a')
  have htext : ∀ k, (name k).toList = List.replicate (k + 1) 'a' := fun k => String.toList_ofList
  have hinjective : Function.Injective fun k => Component.name (name k) := by
    intro k m h
    have hlength := congrArg List.length (congrArg String.toList (Component.name.inj h))
    rw [htext, htext, List.length_replicate, List.length_replicate] at hlength
    exact Nat.succ_injective hlength
  obtain ⟨-, ⟨k, rfl⟩, hk⟩ :=
    (Set.infinite_range_of_injective hinjective).exists_notMem_finset cs.toFinset
  have hne : ∀ t : String, t.toList.head? ≠ some 'a' → name k ≠ t := fun t ht h => by
    rw [← h, htext] at ht
    exact ht rfl
  refine ⟨name k, ⟨hne _ (by decide), hne _ (by decide), hne _ (by decide), ?_⟩, ?_⟩
  · rw [htext]
    intro h
    exact absurd (List.eq_of_mem_replicate h) (by decide)
  · simpa using hk

/-- In a folder that is deep enough and named otherwise throughout, a location tells how far up a
normal form has gone and which names it has added. -/
theorem Canonical.eq_of_foldl_move {absolute' : Bool} {cs' : List Component} {z : String} {d : Nat}
    (h : Canonical absolute cs) (h' : Canonical absolute' cs') (hz : .name z ∉ cs)
    (hz' : .name z ∉ cs') (hd : cs.length < d) (hd' : cs'.length < d)
    (heq : cs.foldl Component.move (List.replicate d z) =
      cs'.foldl Component.move (List.replicate d z)) : cs = cs' := by
  have hcount := congrArg (List.count z) heq
  cases h with
  | @rooted names _ =>
    have hnames : z ∉ names := by simpa using hz
    cases h' with
    | @rooted names' _ =>
      simp only [List.foldl_cons, Component.move, foldl_move_names, List.nil_append] at heq
      rw [heq]
    | @climbing climbs names' _ =>
      simp only [List.foldl_cons, List.foldl_append, Component.move, foldl_move_names,
        foldl_move_climbs, List.nil_append, List.count_append, List.count_replicate_self,
        List.count_eq_zero.2 hnames] at hcount
      simp only [List.length_append, List.length_replicate] at hd'
      omega
  | @climbing climbs names _ =>
    have hnames : z ∉ names := by simpa using hz
    cases h' with
    | @rooted names' _ =>
      have hnames' : z ∉ names' := by simpa using hz'
      simp only [List.foldl_cons, List.foldl_append, Component.move, foldl_move_names,
        foldl_move_climbs, List.nil_append, List.count_append, List.count_replicate_self,
        List.count_eq_zero.2 hnames'] at hcount
      simp only [List.length_append, List.length_replicate] at hd
      omega
    | @climbing climbs' names' _ =>
      have hnames' : z ∉ names' := by simpa using hz'
      simp only [List.foldl_append, foldl_move_names, foldl_move_climbs] at heq hcount
      rw [List.count_append, List.count_append, List.count_replicate_self,
        List.count_replicate_self, List.count_eq_zero.2 hnames, List.count_eq_zero.2 hnames']
        at hcount
      simp only [List.length_append, List.length_replicate] at hd hd'
      obtain rfl : climbs = climbs' := by omega
      rw [List.append_cancel_left heq]

/-- Paths with the same normal form are those that lead alike. -/
theorem normalize_eq_iff_leadsAlike : p.normalize = q.normalize ↔ LeadsAlike p q := by
  constructor
  · intro h
    refine ⟨0, fun here _ _ => ?_⟩
    rw [← locate_normalize here p, h, locate_normalize]
  · rintro ⟨depth, halike⟩
    obtain ⟨z, hz, hfresh⟩ := exists_fresh_name (p.stack.reverse ++ q.stack.reverse)
    rw [List.mem_append, not_or] at hfresh
    let d := depth + p.stack.reverse.length + q.stack.reverse.length + 1
    have hlocate := halike (List.replicate d z)
      (fun n hn => List.eq_of_mem_replicate hn ▸ hz) (by rw [List.length_replicate]; omega)
    rw [locate_eq_foldl, locate_eq_foldl] at hlocate
    rw [normalize_eq_ofComponents, normalize_eq_ofComponents,
      (canonical_stack p).eq_of_foldl_move (canonical_stack q) hfresh.1 hfresh.2 (by omega)
        (by omega) hlocate]

/-- **Normalising is a canonical form.** A normal form has no dots, and steps up only in front of a
relative path; it is its own normal form and leads where the path leads. Paths have the same normal
form exactly when they lead alike. A path may be normalised before another one is joined to it, so
an include of a file in normal form leads where it leads from any spelling of its folder, and paths
that lead alike have the same identity. -/
theorem normalize_is_canonical :
    (∀ p : Path, Canonical p.isAbsolute p.normalize.components ∧
      p.normalize.normalize = p.normalize ∧ ∀ here, p.normalize.locate here = p.locate here) ∧
    (∀ p q : Path, p.normalize = q.normalize ↔ LeadsAlike p q) ∧
    (∀ a b : Path, (a.normalize.join b).normalize = (a.join b).normalize) ∧
    (∀ (folder : Path) (n target : String), IsName n →
      Include.resolve (folder.child n).normalize target = (folder.join ⟨target⟩).normalize) ∧
    ∀ p q : Path, LeadsAlike p q → p.identity = q.identity := by
  refine ⟨fun p => ⟨?_, normalize_normalize p, fun here => locate_normalize here p⟩,
    fun p q => normalize_eq_iff_leadsAlike, normalize_join_normalize,
    fun folder n target hn => resolve_child_normalize hn target, fun p q halike => ?_⟩
  · rw [components_normalize]
    exact canonical_stack p
  · rw [identity, identity, normalize_eq_iff_leadsAlike.2 halike]

end ShaderBuild.Path
