import ShaderBuild.Counting
import ShaderBuild.Sorting

/-!
# File trees

A file tree holds files and folders by their *location*, the names on the way down from the root.
Its two basic changes are `put` (a file, or a new folder) and `prune` (a location with all that
lies below it), and each says through `at?` what it does to every location.

A tree keeps three facts with it: no location occurs twice, the root is a folder, and what lies
below a location lies below a folder.
-/

namespace ShaderBuild

/-- A moment, counted from the epoch. -/
structure Timestamp where
  seconds : Int
  nanoseconds : Nat
deriving DecidableEq, Repr, Inhabited

/-- A later moment. -/
def Timestamp.next (t : Timestamp) : Timestamp := { t with seconds := t.seconds + 1 }

/-- The names on the way from the root to a file or folder. -/
abbrev Location := List String

/-- What is at a location. -/
inductive Entry where
  | folder
  | file (content : List UInt8) (modified : Timestamp)
deriving DecidableEq

/-- The files and folders of a machine. -/
structure FileTree where
  entries : List (Location × Entry)
  /-- The folder that relative paths start from. -/
  here : Location
  /-- The modification time that the next written file gets. -/
  clock : Timestamp
  distinct : (entries.map (·.1)).Nodup
  rooted : ([], Entry.folder) ∈ entries
  closed : ∀ l e, (l, e) ∈ entries → l ≠ [] → (l.dropLast, Entry.folder) ∈ entries

namespace FileTree

/-- What is at a location, if anything is. -/
def at? (t : FileTree) (l : Location) : Option Entry := t.entries.lookup l

theorem lookup_eq_some_iff {es : List (Location × Entry)} (h : (es.map (·.1)).Nodup)
    {l : Location} {e : Entry} : es.lookup l = some e ↔ (l, e) ∈ es := by
  induction es with
  | nil => simp
  | cons p es ih =>
    obtain ⟨m, d⟩ := p
    simp only [List.map_cons, List.nodup_cons] at h
    rw [List.lookup_cons]
    by_cases hm : l = m
    · subst hm
      simp only [beq_self_eq_true, List.mem_cons, Prod.mk.injEq, true_and]
      refine ⟨fun h => .inl (by simpa using h.symm), fun hd => ?_⟩
      rcases hd with rfl | hd
      · rfl
      · exact absurd (List.mem_map.2 ⟨_, hd, rfl⟩) h.1
    · have hb : (l == m) = false := by simpa using hm
      simp [hb, hm, ih h.2]

theorem at?_eq_some_iff {t : FileTree} {l : Location} {e : Entry} :
    t.at? l = some e ↔ (l, e) ∈ t.entries :=
  lookup_eq_some_iff t.distinct

@[simp] theorem at?_root (t : FileTree) : t.at? [] = some .folder :=
  at?_eq_some_iff.2 t.rooted

/-- What lies somewhere lies in a folder. -/
theorem at?_dropLast {t : FileTree} {l : Location} {e : Entry} (h : t.at? l = some e) :
    t.at? l.dropLast = some .folder := by
  by_cases hl : l = []
  · subst hl; simp
  · exact at?_eq_some_iff.2 (t.closed l e (at?_eq_some_iff.1 h) hl)

/-! ## A tree of folders -/

/-- The folders on the way to a location, the location among them. -/
def wayTo (l : Location) : List Location := (List.range (l.length + 1)).map l.take

theorem mem_wayTo {l m : Location} : m ∈ wayTo l ↔ m <+: l := by
  simp only [wayTo, List.mem_map, List.mem_range]
  constructor
  · rintro ⟨n, _, rfl⟩
    exact List.take_prefix n l
  · intro h
    exact ⟨m.length, Nat.lt_succ_of_le h.length_le, (List.prefix_iff_eq_take.1 h).symm⟩

theorem nodup_wayTo (l : Location) : (wayTo l).Nodup := by
  refine List.pairwise_map.2 (List.nodup_range.imp_of_mem ?_)
  intro a b ha hb hab h
  have := congrArg List.length h
  simp only [List.mem_range, List.length_take] at ha hb this
  omega

/-- The tree of the folders on the way to `here`. -/
def empty (here : Location) (clock : Timestamp) : FileTree where
  entries := (wayTo here).map fun l => (l, .folder)
  here := here
  clock := clock
  distinct := by
    simpa [List.map_map, Function.comp_def] using nodup_wayTo here
  rooted := List.mem_map.2 ⟨[], mem_wayTo.2 (List.nil_prefix), rfl⟩
  closed := by
    intro l e h _
    obtain ⟨m, hm, he⟩ := List.mem_map.1 h
    cases he
    exact List.mem_map.2
      ⟨_, mem_wayTo.2 ((List.dropLast_prefix l).trans (mem_wayTo.1 hm)), rfl⟩

/-! ## Changes -/

/-- Whether something can be put at a location: it lies in a folder and is none itself. -/
def CanPut (t : FileTree) (l : Location) : Prop :=
  l ≠ [] ∧ t.at? l.dropLast = some .folder ∧ t.at? l ≠ some .folder

instance (t : FileTree) (l : Location) : Decidable (t.CanPut l) :=
  inferInstanceAs (Decidable (_ ∧ _ ∧ _))

/-- Puts an entry at a location, in the place of a file if there is one. The tree stays as it is
when the location cannot hold the entry. -/
def put (t : FileTree) (l : Location) (e : Entry) : FileTree :=
  if h : t.CanPut l then
    { t with
      entries := (l, e) :: t.entries.filter (·.1 ≠ l)
      distinct := by
        refine List.nodup_cons.2 ⟨?_, (t.distinct.sublist (List.filter_sublist.map _))⟩
        simp
      rooted := by
        refine List.mem_cons_of_mem _ (List.mem_filter.2 ⟨t.rooted, ?_⟩)
        simpa using Ne.symm h.1
      closed := by
        have hparent := at?_eq_some_iff.1 h.2.1
        have keep : ∀ m, (m, Entry.folder) ∈ t.entries →
            (m, Entry.folder) ∈ (l, e) :: t.entries.filter (·.1 ≠ l) := by
          intro m hm
          refine List.mem_cons_of_mem _ (List.mem_filter.2 ⟨hm, ?_⟩)
          have : m ≠ l := by
            rintro rfl
            exact h.2.2 (at?_eq_some_iff.2 hm)
          simpa using this
        intro m d hm hne
        rcases List.mem_cons.1 hm with he | hm
        · cases he
          exact keep _ hparent
        · exact keep _ (t.closed m d (List.mem_filter.1 hm).1 hne) }
  else t

/-- Keeps the entries at the locations that `keep` accepts, which must hold the folder of each. -/
def restrict (t : FileTree) (keep : Location → Bool) (root : keep [] = true)
    (up : ∀ l, keep l = true → keep l.dropLast = true) : FileTree :=
  { t with
    entries := t.entries.filter (fun p => keep p.1)
    distinct := t.distinct.sublist (List.filter_sublist.map _)
    rooted := List.mem_filter.2 ⟨t.rooted, root⟩
    closed := by
      intro l e h hne
      obtain ⟨hm, hk⟩ := List.mem_filter.1 h
      exact List.mem_filter.2 ⟨t.closed l e hm hne, up l hk⟩ }

/-- Whether the second location lies below the first. -/
def isBelow (l m : Location) : Bool := l.isPrefixOf m && m ≠ l

theorem isBelow_iff {l m : Location} : isBelow l m = true ↔ l <+: m ∧ m ≠ l := by
  simp [isBelow]

theorem isBelow_of_dropLast {l m : Location} (h : isBelow l m.dropLast = true) :
    isBelow l m = true := by
  obtain ⟨hp, hne⟩ := isBelow_iff.1 h
  refine isBelow_iff.2 ⟨hp.trans (List.dropLast_prefix m), ?_⟩
  rintro rfl
  have h1 := hp.length_le
  rw [List.length_dropLast] at h1
  have h2 : m = [] := List.length_eq_zero_iff.1 (by omega)
  exact hne (by rw [h2]; rfl)

/-- Removes what lies below a location. -/
def pruneBelow (t : FileTree) (l : Location) : FileTree :=
  t.restrict (fun m => !isBelow l m)
    (by
      cases l <;> simp [isBelow])
    (by
      intro m hm
      cases h : isBelow l m.dropLast with
      | false => rfl
      | true => simp [isBelow_of_dropLast h] at hm)

/-- Removes a location with what lies below it; the root stays. -/
def prune (t : FileTree) (l : Location) : FileTree :=
  t.restrict (fun m => m.isEmpty || !l.isPrefixOf m)
    rfl
    (by
      intro m hm
      simp only [Bool.or_eq_true, List.isEmpty_iff, Bool.not_eq_true', List.isPrefixOf_iff_prefix,
        Bool.eq_false_iff, ne_eq] at hm ⊢
      rcases hm with rfl | hm
      · exact .inl rfl
      · exact .inr fun h => hm (h.trans (List.dropLast_prefix m)))

/-! ## What a change does -/

theorem at?_put {t : FileTree} {l : Location} (h : t.CanPut l) (e : Entry) (m : Location) :
    (t.put l e).at? m = if m = l then some e else t.at? m := by
  simp only [put, dif_pos h, at?, List.lookup_cons]
  by_cases hm : m = l
  · simp [hm]
  · have hb : (m == l) = false := by simpa using hm
    simp only [hb, if_neg hm]
    apply Option.ext
    intro d
    rw [lookup_eq_some_iff (t.distinct.sublist (List.filter_sublist.map _)),
      lookup_eq_some_iff t.distinct, List.mem_filter]
    simp [hm]

theorem put_of_not {t : FileTree} {l : Location} (h : ¬t.CanPut l) (e : Entry) : t.put l e = t :=
  dif_neg h

theorem at?_restrict (t : FileTree) (keep : Location → Bool) (root up) (m : Location) :
    (t.restrict keep root up).at? m = if keep m then t.at? m else none := by
  apply Option.ext
  intro d
  simp only [at?_eq_some_iff, restrict, List.mem_filter]
  by_cases hk : keep m = true <;> simp [hk, at?_eq_some_iff]

theorem at?_pruneBelow (t : FileTree) (l m : Location) :
    (t.pruneBelow l).at? m = if isBelow l m then none else t.at? m := by
  rw [pruneBelow, at?_restrict]
  cases isBelow l m <;> simp

theorem at?_prune (t : FileTree) (l : Location) {m : Location} (hm : m ≠ []) :
    (t.prune l).at? m = if l.isPrefixOf m then none else t.at? m := by
  rw [prune, at?_restrict]
  cases l.isPrefixOf m <;> simp [hm]

/-! ## Folders -/

/-- The names in a folder, in increasing order. -/
def children (t : FileTree) (l : Location) : List String :=
  sortBy (fun a b => decide (a ≤ b)) (t.entries.filterMap fun (m, _) =>
    if m.dropLast = l then m.getLast? else none)

theorem mem_children {t : FileTree} {l : Location} {n : String} :
    n ∈ t.children l ↔ ∃ e, t.at? (l ++ [n]) = some e := by
  simp only [children, mem_sortBy, List.mem_filterMap]
  constructor
  · rintro ⟨⟨m, e⟩, hm, h⟩
    split at h
    · next hl =>
      refine ⟨e, at?_eq_some_iff.2 ?_⟩
      obtain ⟨k, rfl⟩ := List.getLast?_eq_some_iff.1 h
      rw [List.dropLast_concat] at hl
      rwa [← hl]
    · cases h
  · rintro ⟨e, he⟩
    exact ⟨(l ++ [n], e), at?_eq_some_iff.1 he, by simp⟩

/-- How many files and folders lie below a location. -/
def countBelow (t : FileTree) (l : Location) : Nat := t.entries.countP fun p => isBelow l p.1

/-- Fewer lie below a child. -/
theorem countBelow_child_lt {t : FileTree} {l : Location} {n : String} (h : n ∈ t.children l) :
    t.countBelow (l ++ [n]) < t.countBelow l := by
  obtain ⟨e, he⟩ := mem_children.1 h
  refine countP_lt_countP (fun p hp => ?_) (at?_eq_some_iff.1 he)
    (isBelow_iff.2 ⟨List.prefix_append l [n], by simp⟩) (by simp [isBelow])
  obtain ⟨h1, _⟩ := isBelow_iff.1 hp
  refine isBelow_iff.2 ⟨(List.prefix_append l [n]).trans h1, ?_⟩
  intro heq
  have := h1.length_le
  rw [heq, List.length_append, List.length_singleton] at this
  omega

end FileTree

end ShaderBuild
