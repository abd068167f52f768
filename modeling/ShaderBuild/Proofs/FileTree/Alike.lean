import ShaderBuild.Proofs.FileTree.Overwrite

/-!
# Trees that hold the same

Two trees are *alike* (`Alike`) when paths start from the same folder in both and at each location
they have the same file or folder, contents counting and modification times where they are asked
for. Whatever is looked up in one of them is then found in the other, and an operation that is
done to both goes well in both or fails in both for one reason, and leaves trees that are alike.
A file that is written gets its time from the clock, so times do not count behind it.
-/

namespace ShaderBuild.FileTree

/-! ## Entries -/

/-- What two trees have at one location, modification times counting only when `timed`. -/
inductive SameEntry (timed : Bool) : Option Entry → Option Entry → Prop
  | nothing : SameEntry timed none none
  | folder : SameEntry timed (some .folder) (some .folder)
  | file (content : List UInt8) {m m' : Timestamp} (times : timed = true → m' = m) :
    SameEntry timed (some (.file content m)) (some (.file content m'))

theorem SameEntry.refl (timed : Bool) (e : Option Entry) : SameEntry timed e e := by
  rcases e with _ | _ | ⟨content, m⟩
  · exact .nothing
  · exact .folder
  · exact .file content fun _ => rfl

theorem SameEntry.isSome_eq {timed : Bool} {e e' : Option Entry} (h : SameEntry timed e e') :
    e'.isSome = e.isSome := by
  cases h <;> rfl

theorem SameEntry.folder_iff {timed : Bool} {e e' : Option Entry} (h : SameEntry timed e e') :
    e' = some .folder ↔ e = some .folder := by
  cases h <;> simp

theorem SameEntry.untimed {timed : Bool} {e e' : Option Entry} (h : SameEntry timed e e') :
    SameEntry false e e' := by
  cases h with
  | nothing => exact .nothing
  | folder => exact .folder
  | file content _ => exact .file content fun h => by cases h

/-- Two trees hold the same files and folders. -/
structure Alike (timed : Bool) (t u : FileTree) : Prop where
  here : u.here = t.here
  entries : ∀ l, SameEntry timed (t.at? l) (u.at? l)

namespace Alike

variable {timed : Bool} {t u : FileTree}

theorem of_at?_eq (here : u.here = t.here) (h : ∀ l, u.at? l = t.at? l) : Alike timed t u :=
  ⟨here, fun l => by rw [h l]; exact .refl timed _⟩

/-- Times may be left out of account. -/
theorem untimed (h : Alike timed t u) : Alike false t u := ⟨h.here, fun l => (h.entries l).untimed⟩

theorem at?_cases (h : Alike timed t u) (l : Location) :
    (t.at? l = none ∧ u.at? l = none) ∨ (t.at? l = some .folder ∧ u.at? l = some .folder) ∨
      ∃ content m m', t.at? l = some (.file content m) ∧ u.at? l = some (.file content m') ∧
        (timed = true → m' = m) := by
  have hsame := h.entries l
  generalize t.at? l = e at hsame ⊢
  generalize u.at? l = e' at hsame ⊢
  cases hsame with
  | nothing => exact .inl ⟨rfl, rfl⟩
  | folder => exact .inr (.inl ⟨rfl, rfl⟩)
  | file content times => exact .inr (.inr ⟨content, _, _, rfl, rfl, times⟩)

/-! ## Looking -/

theorem enter_eq (h : Alike timed t u) (l : Location) (segment : String) :
    u.enter l segment = t.enter l segment := by
  unfold enter
  obtain ⟨ht, hu⟩ | ⟨ht, hu⟩ | ⟨content, m, m', ht, hu, -⟩ := h.at?_cases (step l segment) <;>
    rw [ht, hu]

theorem goal_eq (h : Alike timed t u) (p : Path) : u.goal p = t.goal p := by
  have henter : u.enter = t.enter := funext₂ h.enter_eq
  unfold goal
  rw [henter, h.here]

/-- A path leads to the same in both trees, or nowhere for the same reason. -/
theorem find_cases (h : Alike timed t u) (p : Path) :
    (∃ fault, t.find p = .error fault ∧ u.find p = .error fault) ∨
      ∃ e e', t.find p = .ok e ∧ u.find p = .ok e' ∧ SameEntry timed (some e) (some e') := by
  unfold find
  rw [h.goal_eq]
  cases t.goal p with
  | error fault => exact .inl ⟨fault, rfl, rfl⟩
  | ok g =>
    simp only [bind, Except.bind]
    obtain ⟨ht, hu⟩ | ⟨ht, hu⟩ | ⟨content, m, m', ht, hu, times⟩ := h.at?_cases g.location
    · rw [ht, hu]
      exact .inl ⟨_, rfl, rfl⟩
    · rw [ht, hu]
      exact .inr ⟨_, _, rfl, rfl, .folder⟩
    · rw [ht, hu]
      cases g.ending with
      | slash => exact .inl ⟨_, rfl, rfl⟩
      | name => exact .inr ⟨_, _, rfl, rfl, .file content times⟩
      | dot => exact .inr ⟨_, _, rfl, rfl, .file content times⟩
      | up => exact .inr ⟨_, _, rfl, rfl, .file content times⟩

theorem isFile_eq (h : Alike timed t u) (p : Path) : u.isFile p = t.isFile p := by
  unfold isFile
  obtain ⟨fault, ht, hu⟩ | ⟨e, e', ht, hu, hsame⟩ := h.find_cases p
  · rw [ht, hu]
  · rw [ht, hu]
    cases hsame <;> rfl

theorem isFolder_eq (h : Alike timed t u) (p : Path) : u.isFolder p = t.isFolder p := by
  unfold isFolder
  obtain ⟨fault, ht, hu⟩ | ⟨e, e', ht, hu, hsame⟩ := h.find_cases p
  · rw [ht, hu]
  · rw [ht, hu]
    cases hsame <;> rfl

theorem has_eq (h : Alike timed t u) (p : Path) : u.has p = t.has p := by
  unfold has
  obtain ⟨fault, ht, hu⟩ | ⟨e, e', ht, hu, hsame⟩ := h.find_cases p
  · rw [ht, hu]
  · rw [ht, hu]
    rfl

/-- A file is read with its content, and with its modification time if times count. -/
theorem read_cases (h : Alike timed t u) (p : Path) :
    (∃ fault, t.read p = .error fault ∧ u.read p = .error fault) ∨
      ∃ content m m', t.read p = .ok (content, m) ∧ u.read p = .ok (content, m') ∧
        (timed = true → m' = m) := by
  unfold read
  obtain ⟨fault, ht, hu⟩ | ⟨e, e', ht, hu, hsame⟩ := h.find_cases p
  · rw [ht, hu]
    exact .inl ⟨fault, rfl, rfl⟩
  · rw [ht, hu]
    cases hsame with
    | folder => exact .inl ⟨_, rfl, rfl⟩
    | file content times => exact .inr ⟨content, _, _, rfl, rfl, times⟩

theorem read_eq (h : Alike true t u) (p : Path) : u.read p = t.read p := by
  obtain ⟨fault, ht, hu⟩ | ⟨content, m, m', ht, hu, times⟩ := h.read_cases p
  · rw [ht, hu]
  · rw [ht, hu, times rfl]

theorem readText_eq (h : Alike timed t u) (p : Path) : u.readText p = t.readText p := by
  unfold readText
  obtain ⟨fault, ht, hu⟩ | ⟨content, m, m', ht, hu, -⟩ := h.read_cases p
  · rw [ht, hu]
  · rw [ht, hu]
    rfl

/-! ## Listing -/

theorem children_eq (h : Alike timed t u) (l : Location) : u.children l = t.children l := by
  refine List.Pairwise.eq_of_mem_iff (u.children_sorted l) (t.children_sorted l) fun n => ?_
  rw [mem_children, mem_children, ← Option.isSome_iff_exists, ← Option.isSome_iff_exists,
    (h.entries _).isSome_eq]

/-- A walk lists the children of a folder one after the other. -/
theorem filesBelow_flatMap (t : FileTree) (descend : String → Bool) (p : Path) (l : Location) :
    t.filesBelow descend p l = (t.children l).flatMap fun n =>
      match t.at? (l ++ [n]) with
      | some (.file ..) => [p.child n]
      | some .folder => if descend n then t.filesBelow descend (p.child n) (l ++ [n]) else []
      | none => [] := by
  rw [filesBelow]
  have hattach := congrArg (List.flatMap fun n => match t.at? (l ++ [n]) with
      | some (.file ..) => [p.child n]
      | some .folder => if descend n then t.filesBelow descend (p.child n) (l ++ [n]) else []
      | none => []) (List.attach_map_subtype_val (t.children l))
  rw [List.flatMap_map] at hattach
  exact hattach

theorem filesBelow_eq (h : Alike timed t u) (descend : String → Bool) (p : Path) (l : Location) :
    u.filesBelow descend p l = t.filesBelow descend p l := by
  induction p, l using filesBelow.induct t with
  | case1 p l ih =>
    rw [filesBelow_flatMap, filesBelow_flatMap, h.children_eq]
    refine List.flatMap_congr fun n hn => ?_
    obtain ⟨ht, hu⟩ | ⟨ht, hu⟩ | ⟨content, m, m', ht, hu, -⟩ := h.at?_cases (l ++ [n])
    · rw [ht, hu]
    · simp only [ht, hu, ih n hn]
    · rw [ht, hu]

theorem walk_eq (h : Alike timed t u) (descend : String → Bool) (p : Path) :
    u.walk descend p = t.walk descend p := by
  unfold walk
  rw [h.goal_eq]
  obtain ⟨fault, ht, hu⟩ | ⟨e, e', ht, hu, hsame⟩ := h.find_cases p
  · rw [ht, hu]
    rfl
  · rw [ht, hu]
    cases hsame with
    | folder =>
      cases t.goal p with
      | error fault => rfl
      | ok g => exact congrArg Except.ok (h.filesBelow_eq descend p g.location)
    | file content _ => rfl

theorem filesIn_eq (h : Alike timed t u) (p : Path) : u.filesIn p = t.filesIn p := by
  unfold filesIn
  rw [h.goal_eq]
  obtain ⟨fault, ht, hu⟩ | ⟨e, e', ht, hu, hsame⟩ := h.find_cases p
  · rw [ht, hu]
    rfl
  · rw [ht, hu]
    cases hsame with
    | folder =>
      cases t.goal p with
      | error fault => rfl
      | ok g =>
        refine congrArg Except.ok ?_
        rw [h.children_eq]
        refine List.filter_congr fun n _ => ?_
        obtain ⟨ht, hu⟩ | ⟨ht, hu⟩ | ⟨content, m, m', ht, hu, -⟩ :=
          h.at?_cases (g.location ++ [n]) <;> rw [ht, hu]
    | file content _ => rfl

/-! ## Changing -/

/-- What is put at the same place in both trees. -/
theorem put (h : Alike timed t u) {l : Location} (ht : t.CanPut l) (hu : u.CanPut l) {e e' : Entry}
    (he : SameEntry timed (some e) (some e')) : Alike timed (t.put l e) (u.put l e') := by
  refine ⟨by rw [here_put, here_put, h.here], fun m => ?_⟩
  rw [at?_put ht, at?_put hu]
  split
  · exact he
  · exact h.entries m

theorem removeFile (h : Alike timed t u) (p : Path) :
    (u.removeFile p).1 = (t.removeFile p).1 ∧
      Alike timed (t.removeFile p).2 (u.removeFile p).2 := by
  unfold FileTree.removeFile
  rw [h.goal_eq]
  cases t.goal p with
  | error fault => exact ⟨rfl, h⟩
  | ok g =>
    dsimp only
    obtain ⟨ht, hu⟩ | ⟨ht, hu⟩ | ⟨content, m, m', ht, hu, -⟩ := h.at?_cases g.location
    · rw [ht, hu]
      exact ⟨rfl, h⟩
    · rw [ht, hu]
      exact ⟨rfl, h⟩
    · have hpruned : Alike timed (t.prune g.location) (u.prune g.location) := by
        refine ⟨h.here, fun l => ?_⟩
        rw [at?_prune_file ht, at?_prune_file hu]
        split
        · exact .nothing
        · exact h.entries l
      rw [ht, hu]
      cases g.ending with
      | slash => exact ⟨rfl, h⟩
      | name => exact ⟨rfl, hpruned⟩
      | dot => exact ⟨rfl, hpruned⟩
      | up => exact ⟨rfl, hpruned⟩

theorem makeFolder (h : Alike timed t u) (p : Path) :
    (u.makeFolder p).1 = (t.makeFolder p).1 ∧
      Alike timed (t.makeFolder p).2 (u.makeFolder p).2 := by
  unfold FileTree.makeFolder
  have hgoal := h.goal_eq p
  cases hg : t.goal p with
  | error fault =>
    rw [hgoal, hg]
    exact ⟨rfl, h⟩
  | ok g =>
    rw [hg] at hgoal
    simp only [hgoal, (h.entries g.location).isSome_eq]
    split
    · exact ⟨rfl, h⟩
    · next hthere =>
      rw [not_or, not_or, Option.not_isSome_iff_eq_none] at hthere
      obtain ⟨hdot, hup, hat⟩ := hthere
      refine ⟨rfl, h.put (canPut_of_goal hg hdot hup (by simp [hat]))
        (canPut_of_goal hgoal hdot hup ?_) .folder⟩
      rw [ne_eq, (h.entries g.location).folder_iff, hat]
      simp

theorem makeAll (h : Alike timed t u) (ps : List Path) :
    (u.makeAll ps).1 = (t.makeAll ps).1 ∧ Alike timed (t.makeAll ps).2 (u.makeAll ps).2 := by
  induction ps with
  | nil => exact ⟨rfl, h⟩
  | cons p around ih =>
    rw [FileTree.makeAll, FileTree.makeAll]
    split
    · exact ⟨rfl, h⟩
    obtain ⟨hr, h'⟩ := h.makeFolder p
    generalize t.makeFolder p = made at hr h' ⊢
    generalize u.makeFolder p = made' at hr h' ⊢
    obtain ⟨r, t'⟩ := made
    obtain ⟨r', u'⟩ := made'
    obtain rfl : r' = r := hr
    have hthere : u.isFolder p = t.isFolder p := h.isFolder_eq p
    cases r' with
    | ok _ => exact ⟨rfl, h'⟩
    | error fault =>
      cases fault with
      | notFound =>
        obtain ⟨hr, h₁⟩ := ih
        dsimp only
        generalize t.makeAll around = made at hr h₁ ⊢
        generalize u.makeAll around = made' at hr h₁ ⊢
        obtain ⟨r, t₁⟩ := made
        obtain ⟨r', u₁⟩ := made'
        obtain rfl : r' = r := hr
        cases r' with
        | error fault => exact ⟨rfl, h₁⟩
        | ok _ =>
          have hthere : u₁.isFolder p = t₁.isFolder p := h₁.isFolder_eq p
          obtain ⟨hr, h₂⟩ := h₁.makeFolder p
          dsimp only
          generalize t₁.makeFolder p = made at hr h₂ ⊢
          generalize u₁.makeFolder p = made' at hr h₂ ⊢
          obtain ⟨r, t₂⟩ := made
          obtain ⟨r', u₂⟩ := made'
          obtain rfl : r' = r := hr
          cases r' with
          | ok _ => exact ⟨rfl, h₂⟩
          | error fault => exact ⟨by rw [hthere], h₁⟩
      | _ => exact ⟨by simp only [hthere], h⟩

theorem makeFolders (h : Alike timed t u) (p : Path) :
    (u.makeFolders p).1 = (t.makeFolders p).1 ∧
      Alike timed (t.makeFolders p).2 (u.makeFolders p).2 := h.makeAll _

/-- What is written gets the time of the clock. -/
theorem write (h : Alike timed t u) (p : Path) (content : List UInt8) :
    (u.write p content).1 = (t.write p content).1 ∧
      Alike false (t.write p content).2 (u.write p content).2 := by
  unfold FileTree.write
  have hgoal := h.goal_eq p
  cases hg : t.goal p with
  | error fault =>
    rw [hgoal, hg]
    exact ⟨rfl, h.untimed⟩
  | ok g =>
    rw [hg] at hgoal
    simp only [hgoal, (h.entries g.location).folder_iff]
    split
    · exact ⟨rfl, h.untimed⟩
    · next hend =>
      rw [not_or, not_not] at hend
      obtain ⟨hname, hat⟩ := hend
      have hentry : SameEntry false (some (.file content t.clock)) (some (.file content u.clock)) :=
        .file content fun h => by cases h
      have hput := h.untimed.put (canPut_of_goal hg (by simp [hname]) (by simp [hname]) hat)
        (canPut_of_goal hgoal (by simp [hname]) (by simp [hname])
          ((h.entries g.location).folder_iff.not.2 hat)) hentry
      exact ⟨rfl, hput.here, hput.entries⟩

end Alike

end ShaderBuild.FileTree
