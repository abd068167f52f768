import Mathlib.Data.List.Sort
import ShaderBuild.FileTree.Walk
import ShaderBuild.Proofs.FileTree.Change

/-!
# What a walk lists

A walk lists a file below its folder exactly when every folder on the way may be entered
(`mem_filesBelow_iff`). The path it lists leads to the file (`locate_descendant`). It lists them in
the order of their locations (`walk_sorted`), so what it lists depends on nothing but which files
there are (`Path.eq_of_mem_iff`).
-/

namespace ShaderBuild

/-- The path of something below a folder, by the names on the way. -/
def Path.descendant (p : Path) (names : List String) : Path := names.foldl Path.child p

theorem Path.locate_descendant {here : Location} {p : Path} {names : List String}
    (h : ∀ n ∈ names, Path.IsName n) :
    (p.descendant names).locate here = p.locate here ++ names := by
  induction names generalizing p with
  | nil => rw [descendant, List.foldl_nil, List.append_nil]
  | cons n names ih =>
    rw [descendant, List.foldl_cons, ← descendant,
      ih fun m hm => h m (List.mem_cons_of_mem _ hm), locate_child (h n List.mem_cons_self),
      List.append_assoc]
    rfl

namespace FileTree

open Path

variable {t : FileTree} {descend : String → Bool}

/-- A walk lists the files that it can get to. -/
theorem mem_filesBelow_iff {p q : Path} {l : Location} :
    q ∈ t.filesBelow descend p l ↔ ∃ names n content modified,
      (∀ m ∈ names, descend m = true) ∧
      t.at? (l ++ names ++ [n]) = some (.file content modified) ∧
      q = p.descendant (names ++ [n]) := by
  induction p, l using filesBelow.induct t with
  | case1 p l ih =>
    rw [filesBelow]
    simp only [List.mem_flatMap, List.mem_attach, true_and, Subtype.exists]
    constructor
    · rintro ⟨n, hn, hq⟩
      split at hq
      · next content modified hat =>
        rw [List.mem_singleton] at hq
        exact ⟨[], n, content, modified, by simp, by simpa using hat, hq⟩
      · next hat =>
        split at hq
        · next hdescend =>
          obtain ⟨names, m, content, modified, hnames, hm, rfl⟩ := (ih n hn).1 hq
          refine ⟨n :: names, m, content, modified, ?_, by simpa using hm, rfl⟩
          intro k hk
          rcases List.mem_cons.1 hk with rfl | hk
          · exact hdescend
          · exact hnames k hk
        · cases hq
      · cases hq
    · rintro ⟨names, m, content, modified, hnames, hm, rfl⟩
      cases names with
      | nil =>
        rw [List.append_nil] at hm
        refine ⟨m, mem_children.2 ⟨_, hm⟩, ?_⟩
        rw [hm]
        exact List.mem_singleton.2 rfl
      | cons n names =>
        have hfolder : t.at? (l ++ [n]) = some .folder := by
          refine at?_of_prefix hm ⟨names ++ [m], by simp⟩ ?_
          intro heq
          have := congrArg List.length heq
          simp at this
        have hn := mem_children.2 ⟨_, hfolder⟩
        have hdescend := hnames n List.mem_cons_self
        refine ⟨n, hn, ?_⟩
        rw [hfolder]
        simp only [hdescend, if_true]
        refine (ih n hn).2 ⟨names, m, content, modified, ?_, by simpa using hm, rfl⟩
        intro k hk
        exact hnames k (List.mem_cons_of_mem _ hk)

/-- Where a walk leads depends on what its path leads to. -/
theorem walk_ok_iff {p : Path} {paths : List Path} : t.walk descend p = .ok paths ↔
    (∃ content modified, t.find p = .ok (.file content modified) ∧ paths = [p]) ∨
      t.find p = .ok .folder ∧ paths = t.filesBelow descend p (p.locate t.here) := by
  unfold walk
  cases h : t.find p with
  | error fault => simp [bind, Except.bind]
  | ok e =>
    cases e with
    | file content modified =>
      simp only [bind, Except.bind, pure, Except.pure, Except.ok.injEq, Entry.file.injEq]
      constructor
      · rintro rfl
        exact .inl ⟨content, modified, ⟨rfl, rfl⟩, rfl⟩
      · rintro (⟨_, _, -, rfl⟩ | ⟨heq, -⟩)
        · rfl
        · cases heq
    | folder =>
      obtain ⟨g, hg, -, -⟩ := find_ok h
      simp only [bind, Except.bind, pure, Except.pure, hg, Except.ok.injEq, goal_location hg]
      constructor
      · rintro rfl
        exact .inr ⟨trivial, rfl⟩
      · rintro (⟨_, _, heq, -⟩ | ⟨-, rfl⟩)
        · cases heq
        · rfl

/-- A walk in another tree lists a path again if there is still a file. -/
theorem mem_walk_of_file {u : FileTree} {p q : Path} {paths paths' : List Path}
    {content : List UInt8} {modified : Timestamp} (hnamed : t.WellNamed)
    (ht : t.walk descend p = .ok paths) (hu : u.walk descend p = .ok paths') (hq : q ∈ paths)
    (hfile : u.at? (q.locate u.here) = some (.file content modified)) : q ∈ paths' := by
  rcases walk_ok_iff.1 ht with ⟨c, m, -, rfl⟩ | ⟨-, rfl⟩
  · obtain rfl := List.mem_singleton.1 hq
    rcases walk_ok_iff.1 hu with ⟨c', m', -, rfl⟩ | ⟨hfolder, -⟩
    · exact List.mem_singleton.2 rfl
    · rw [at?_of_find hfolder] at hfile
      cases hfile
  · obtain ⟨names, n, c, m, hnames, hat, rfl⟩ := mem_filesBelow_iff.1 hq
    have hnames' : ∀ k ∈ names ++ [n], IsName k := fun k hk =>
      wellNamed_iff.1 hnamed _ _ hat k (by
        rw [List.append_assoc]
        exact List.mem_append_right _ hk)
    rw [locate_descendant hnames'] at hfile
    rcases walk_ok_iff.1 hu with ⟨c', m', hfind, -⟩ | ⟨-, rfl⟩
    · have hfolder := at?_of_prefix hfile (List.prefix_append _ _) (by simp)
      rw [at?_of_find hfind] at hfolder
      cases hfolder
    · exact mem_filesBelow_iff.2
        ⟨names, n, content, modified, hnames, by rw [List.append_assoc]; exact hfile, rfl⟩

/-- The files in a folder are those at the locations of its entries. -/
theorem filesIn_ok {p : Path} {names : List String} (h : t.filesIn p = .ok names) :
    (t.find p = .ok .folder ∧ names = (t.children (p.locate t.here)).filter fun n =>
      match t.at? (p.locate t.here ++ [n]) with
      | some (.file ..) => true
      | _ => false) ∨
    (∃ content modified, t.find p = .ok (.file content modified)) ∧ names = [] := by
  unfold filesIn at h
  cases hfind : t.find p with
  | error fault =>
    rw [hfind] at h
    cases h
  | ok e =>
    rw [hfind] at h
    cases e with
    | file content modified =>
      cases h
      exact .inr ⟨⟨content, modified, rfl⟩, rfl⟩
    | folder =>
      obtain ⟨g, hg, -, -⟩ := find_ok hfind
      simp only [bind, Except.bind, hg, goal_location hg] at h
      cases h
      exact .inl ⟨rfl, rfl⟩

theorem exists_filesIn {p : Path} (h : t.find p = .ok .folder) :
    ∃ names, t.filesIn p = .ok names := by
  obtain ⟨g, hg, -, -⟩ := find_ok h
  unfold filesIn
  rw [h]
  simp only [bind, Except.bind, hg]
  exact ⟨_, rfl⟩

theorem mem_filesIn_iff {p : Path} {names : List String} (h : t.filesIn p = .ok names)
    {n : String} : n ∈ names ↔
      ∃ content modified, t.at? (p.locate t.here ++ [n]) = some (.file content modified) := by
  rcases filesIn_ok h with ⟨-, rfl⟩ | ⟨⟨content, modified, hfile⟩, rfl⟩
  · rw [List.mem_filter, mem_children]
    constructor
    · rintro ⟨-, hn⟩
      split at hn
      · next content modified hat => exact ⟨content, modified, hat⟩
      · cases hn
    · rintro ⟨content, modified, hat⟩
      rw [hat]
      exact ⟨⟨_, rfl⟩, rfl⟩
  · constructor
    · intro hn
      cases hn
    · rintro ⟨c, m, hat⟩
      have hfolder := at?_dropLast hat
      rw [List.dropLast_concat, at?_of_find hfile] at hfolder
      cases hfolder

/-- What is listed in a folder can be read there. -/
theorem read_child_of_filesIn {p : Path} {names : List String} (h : t.filesIn p = .ok names)
    {n : String} (hname : IsName n) {content : List UInt8} {modified : Timestamp}
    (hat : t.at? (p.locate t.here ++ [n]) = some (.file content modified)) :
    t.read (p.child n) = .ok (content, modified) := by
  rcases filesIn_ok h with ⟨hfolder, -⟩ | ⟨⟨content', modified', hfile⟩, -⟩
  · refine read_ok_iff.2 (find_of_goal (goal_child hname (follows_of_folder hfolder)) ?_ (by simp))
    rwa [Path.locate_child hname]
  · have hparent := at?_dropLast hat
    rw [List.dropLast_concat, at?_of_find hfile] at hparent
    cases hparent

/-! ## Order -/

theorem children_sorted (t : FileTree) (l : Location) : (t.children l).Pairwise (· < ·) := by
  have hle : (t.children l).Pairwise fun a b => decide (a ≤ b) = true :=
    pairwise_sortBy (fun a b c => by simpa using String.le_trans)
      (fun a b => by simpa using String.le_total a b)
  have hnodup : (t.children l).Nodup := by
    unfold children
    rw [perm_sortBy.nodup_iff]
    have hkeys := t.distinct
    unfold List.Nodup at hkeys ⊢
    rw [List.pairwise_map] at hkeys
    refine List.pairwise_filterMap.2 (hkeys.imp ?_)
    -- two entries of one folder with one name would have one location
    rintro ⟨m, d⟩ ⟨m', d'⟩ hne n hn n' hn' rfl
    simp only [Option.ite_none_right_eq_some] at hn hn'
    refine hne ?_
    dsimp only
    rw [← List.dropLast_append_getLast? n hn.2, ← List.dropLast_append_getLast? n hn'.2, hn.1,
      hn'.1]
  refine (List.Pairwise.and hle hnodup).imp fun {a b} hab => ?_
  by_contra hlt
  exact hab.2 (String.le_antisymm (by simpa using hab.1) (String.not_lt.1 hlt))

/-- What a walk of a folder lists for a child lies at the child or below it. -/
theorem locate_of_mem_child (hnamed : t.WellNamed) (here : Location) {p q : Path} {l : Location}
    {n : String} {e : Entry} (hn : t.at? (l ++ [n]) = some e)
    (hq : q ∈ (match t.at? (l ++ [n]) with
      | some (.file ..) => [p.child n]
      | some .folder => if descend n then t.filesBelow descend (p.child n) (l ++ [n]) else []
      | none => [])) : ∃ names, q.locate here = p.locate here ++ n :: names := by
  have hname : IsName n :=
    wellNamed_iff.1 hnamed _ _ hn n (List.mem_append_right _ List.mem_cons_self)
  rw [hn] at hq
  cases e with
  | file content modified =>
    rw [List.mem_singleton.1 hq]
    exact ⟨[], Path.locate_child hname⟩
  | folder =>
    dsimp only at hq
    split at hq
    · obtain ⟨names, m, content, modified, -, hat, rfl⟩ := mem_filesBelow_iff.1 hq
      have hnames : ∀ k ∈ names ++ [m], IsName k := fun k hk =>
        wellNamed_iff.1 hnamed _ _ hat k (by
          rw [List.append_assoc]
          exact List.mem_append_right _ hk)
      refine ⟨names ++ [m], ?_⟩
      rw [locate_descendant hnames, Path.locate_child hname, List.append_assoc]
      rfl
    · cases hq

/-- A walk lists the files of a folder in the order of their locations. -/
theorem filesBelow_sorted (hnamed : t.WellNamed) (here : Location) {p : Path} {l : Location} :
    (t.filesBelow descend p l).Pairwise fun a b => a.locate here < b.locate here := by
  induction p, l using filesBelow.induct t with
  | case1 p l ih =>
    rw [filesBelow, List.pairwise_flatMap]
    constructor
    · rintro ⟨n, hn⟩ -
      dsimp only
      split
      · exact List.pairwise_singleton _ _
      · split
        · exact ih n hn
        · exact .nil
      · exact .nil
    · have hchildren : (t.children l).attach.Pairwise fun a b => a.1 < b.1 := by
        rw [← List.pairwise_map, List.attach_map_subtype_val]
        exact t.children_sorted l
      refine hchildren.imp ?_
      rintro ⟨n, hn⟩ ⟨m, hm⟩ hlt x hx y hy
      obtain ⟨_, hn⟩ := mem_children.1 hn
      obtain ⟨_, hm⟩ := mem_children.1 hm
      obtain ⟨xs, hx⟩ := locate_of_mem_child hnamed here hn hx
      obtain ⟨ys, hy⟩ := locate_of_mem_child hnamed here hm hy
      rw [hx, hy]
      exact List.append_left_lt (List.cons_lt_cons_iff.2 (.inl hlt))

/-- Two walks that list the same paths list them in the same order. -/
theorem walk_eq_of_mem_iff {u : FileTree} {p : Path} {paths paths' : List Path}
    (hnamed : t.WellNamed) (hnamed' : u.WellNamed) (ht : t.walk descend p = .ok paths)
    (hu : u.walk descend p = .ok paths') {keep : Path → Bool}
    (h : ∀ q, q ∈ paths.filter keep ↔ q ∈ paths'.filter keep) :
    paths.filter keep = paths'.filter keep := by
  have hsorted : ∀ {v : FileTree} {qs : List Path}, v.WellNamed → v.walk descend p = .ok qs →
      qs.Pairwise fun a b => a.locate t.here < b.locate t.here := by
    intro v qs hv hqs
    rcases walk_ok_iff.1 hqs with ⟨content, modified, -, rfl⟩ | ⟨-, rfl⟩
    · exact List.pairwise_singleton _ _
    · exact filesBelow_sorted hv t.here
  have hirrefl : Std.Irrefl fun a b : Path => a.locate t.here < b.locate t.here :=
    ⟨fun a => List.lt_irrefl (a.locate t.here)⟩
  have hantisymm : Std.Antisymm fun a b : Path => a.locate t.here < b.locate t.here :=
    ⟨fun a b hab hba => absurd hba (List.lt_asymm hab)⟩
  exact List.Pairwise.eq_of_mem_iff ((hsorted hnamed ht).filter _) ((hsorted hnamed' hu).filter _) h

/-- The files in a folder are listed in order. -/
theorem filesIn_sorted {p : Path} {names : List String} (h : t.filesIn p = .ok names) :
    names.Pairwise (· < ·) := by
  rcases filesIn_ok h with ⟨-, rfl⟩ | ⟨-, rfl⟩
  · exact (t.children_sorted _).filter _
  · exact .nil

theorem nodup_filesIn {p : Path} {names : List String} (h : t.filesIn p = .ok names) :
    names.Nodup := by
  refine (filesIn_sorted h).imp fun {a b} hlt heq => ?_
  rw [heq] at hlt
  exact String.lt_irrefl b hlt

/-- Two folders with the same files list them in the same order. -/
theorem filesIn_eq_of_mem_iff {u : FileTree} {p : Path} {names names' : List String}
    (ht : t.filesIn p = .ok names) (hu : u.filesIn p = .ok names') (keep : String → Bool)
    (h : ∀ n, n ∈ names.filter keep ↔ n ∈ names'.filter keep) :
    names.filter keep = names'.filter keep :=
  List.Pairwise.eq_of_mem_iff ((filesIn_sorted ht).filter _) ((filesIn_sorted hu).filter _) h

end FileTree

end ShaderBuild
