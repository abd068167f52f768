import ShaderBuild.Proofs.FileTree.Walk

/-!
# Changes that keep files

A change *overwrites* some paths (`Overwrites`) when it alters only them and what was a file before
it is one behind it, with another content perhaps. Writing a file is of this kind, and so is making
folders; making a folder that is there already does nothing at all (`makeFolders_again`). A path
that leads to a file then still does (`Overwrites.isFile`), and a folder is walked as before as long
as the files that count in it are not altered (`walk_again`).
-/

namespace ShaderBuild.FileTree

open Path

variable {t u v : FileTree} {S S' : Path → Prop}

theorem isFile_iff {p : Path} :
    t.isFile p = true ↔ ∃ content modified, t.find p = .ok (.file content modified) := by
  unfold isFile
  split
  · next content modified h => simp [h]
  · next h =>
    simp only [Bool.false_eq_true, false_iff, not_exists]
    exact fun content modified heq => h content modified heq

/-- What a file is taken for does not depend on its content. -/
theorem isFile_of_goal {p : Path} {g : Goal} {content : List UInt8} {modified : Timestamp}
    (hg : t.goal p = .ok g) (hslash : g.ending ≠ .slash)
    (hat : t.at? g.location = some (.file content modified)) : t.isFile p = true :=
  isFile_iff.2 ⟨content, modified, find_of_goal hg hat hslash⟩

/-! ## Overwriting -/

/-- Between two trees only files change that the given paths lead to, and none of them goes. -/
structure Overwrites (S : Path → Prop) (t u : FileTree) : Prop extends AltersOnly S t u where
  kept : ∀ l content modified, t.at? l = some (.file content modified) →
    ∃ content' modified', u.at? l = some (.file content' modified')

namespace Overwrites

theorem refl (S : Path → Prop) (t : FileTree) : Overwrites S t t :=
  ⟨.refl S t, fun _ content modified h => ⟨content, modified, h⟩⟩

theorem trans (h : Overwrites S t u) (h' : Overwrites S u v) : Overwrites S t v where
  toAltersOnly := h.toAltersOnly.trans h'.toAltersOnly
  kept l content modified hl := by
    obtain ⟨content', modified', hl'⟩ := h.kept l content modified hl
    exact h'.kept l content' modified' hl'

theorem mono (h : Overwrites S t u) (hS : ∀ p, S p → S' p) : Overwrites S' t u :=
  ⟨h.toAltersOnly.mono hS, h.kept⟩

/-- A path that leads to a file still does. -/
theorem isFile (h : Overwrites S t u) {p : Path} (hp : t.isFile p = true) : u.isFile p = true := by
  obtain ⟨content, modified, hfind⟩ := isFile_iff.1 hp
  obtain ⟨-, -, -, -, -, -, hg⟩ := goal_of_file hfind
  obtain ⟨content', modified', hat⟩ := h.kept _ _ _ (at?_of_find hfind)
  exact isFile_of_goal (h.goal hg) (by simp) hat

/-- A change that alters no file keeps them all. -/
theorem of_altersOnly (h : AltersOnly (fun _ => False) t u) : Overwrites S t u :=
  ⟨h.mono fun _ hp => hp.elim, fun l content modified hl =>
    ⟨content, modified, (h.files l (fun _ hp => hp.elim) content modified).2 hl⟩⟩

end Overwrites

theorem overwrites_trans (t u v : FileTree) (h : Overwrites S t u) (h' : Overwrites S u v) :
    Overwrites S t v := h.trans h'

/-- Writing overwrites its path. -/
theorem overwrites_write {p : Path} (hp : S p) (t : FileTree) (content : List UInt8) :
    Overwrites S t (t.write p content).2 := by
  refine ⟨(altersOnly_write t p content).mono fun q hq => by rw [hq]; exact hp, ?_⟩
  intro l c m hl
  cases hw : (t.write p content).1 with
  | error fault => exact ⟨c, m, by rw [write_error hw]; exact hl⟩
  | ok u =>
    rw [at?_write hw]
    split
    · exact ⟨content, t.clock, rfl⟩
    · exact ⟨c, m, hl⟩

/-- A file is left alone by a change that alters only other paths. -/
theorem AltersOnly.isFile (h : AltersOnly S t u) {p : Path}
    (hp : ∀ q, S q → q.locate t.here ≠ p.locate t.here) (hfile : t.isFile p = true) :
    u.isFile p = true := by
  obtain ⟨content, modified, hfind⟩ := isFile_iff.1 hfile
  exact isFile_iff.2 ⟨content, modified, read_ok_iff.1 (h.read hp (read_ok_iff.2 hfind))⟩

theorem has_iff {p : Path} : t.has p = true ↔ ∃ e, t.find p = .ok e := by
  unfold has
  cases t.find p with
  | error fault => simp [Except.isOk, Except.toBool]
  | ok e => simp [Except.isOk, Except.toBool]

/-- What no altered path leads to stays. -/
theorem AltersOnly.has (h : AltersOnly S t u) {p : Path}
    (hp : ∀ q, S q → q.locate t.here ≠ p.locate t.here) (hhas : t.has p = true) :
    u.has p = true := by
  obtain ⟨e, hfind⟩ := has_iff.1 hhas
  cases e with
  | folder => exact has_iff.2 ⟨_, h.isFolder hfind⟩
  | file content modified =>
    exact has_iff.2 ⟨_, read_ok_iff.1 (h.read hp (read_ok_iff.2 hfind))⟩

/-- Where a file went, no path leads anywhere. -/
theorem Deletes.has_eq_false (h : Deletes S t u) {p q : Path} (hq : t.isFile q = true)
    (hsame : q.locate t.here = p.locate t.here) (hgone : u.file? q = none) : u.has p = false := by
  rw [Bool.eq_false_iff]
  intro hhas
  obtain ⟨e, hfind⟩ := has_iff.1 hhas
  obtain ⟨content, modified, hfile⟩ := isFile_iff.1 hq
  have hat := at?_of_find hfind
  have hold := at?_of_find hfile
  rw [h.here, ← hsame] at hat
  rw [h.old _ _ hat] at hold
  obtain rfl := Option.some.inj hold
  rw [← h.here] at hat
  rw [file?_eq_some_iff.2 hat] at hgone
  cases hgone

/-! ## Making a folder again -/

theorem makeFolder_of_found {p : Path} (h : t.find p = .ok .folder) :
    t.makeFolder p = (.error .alreadyExists, t) := by
  obtain ⟨g, hg, hat, -⟩ := find_ok h
  unfold makeFolder
  simp only [hg, hat, Option.isSome_some, or_true, if_true]

/-- Making a folder that is there already does nothing. -/
theorem makeFolders_of_found {p : Path} (h : p.text = "" ∨ t.find p = .ok .folder) :
    t.makeFolders p = (.ok (), t) := by
  unfold makeFolders
  cases p.segments.length with
  | zero => rfl
  | succ n =>
    rw [ancestors, makeAll]
    split
    · rfl
    · next hp =>
      have hfolder := h.resolve_left hp
      have hisFolder : t.isFolder p = true := by
        unfold isFolder
        rw [hfolder]
      simp only [makeFolder_of_found hfolder, hisFolder, if_true]

/-- A folder that was made stays made. -/
theorem makeFolders_again {p : Path} (hmade : t.makeFolders p = (.ok (), u))
    (h : AltersOnly S u v) : v.makeFolders p = (.ok (), v) := by
  refine makeFolders_of_found ((em (p.text = "")).imp_right fun hp => h.isFolder ?_)
  have := find_makeFolders (t := t) hp (by rw [hmade])
  rwa [hmade] at this

/-! ## Walking again -/

variable {descend : String → Bool}

/-- A walk lists files. -/
theorem exists_file_of_mem_walk (hnamed : t.WellNamed) {p q : Path} {paths : List Path}
    (h : t.walk descend p = .ok paths) (hq : q ∈ paths) :
    ∃ content modified, t.at? (q.locate t.here) = some (.file content modified) := by
  rcases walk_ok_iff.1 h with ⟨content, modified, hfind, rfl⟩ | ⟨-, rfl⟩
  · obtain rfl := List.mem_singleton.1 hq
    exact ⟨content, modified, at?_of_find hfind⟩
  · obtain ⟨names, n, content, modified, -, hat, rfl⟩ := mem_filesBelow_iff.1 hq
    have hnames : ∀ k ∈ names ++ [n], IsName k := fun k hk =>
      wellNamed_iff.1 hnamed _ _ hat k (by
        rw [List.append_assoc]
        exact List.mem_append_right _ hk)
    rw [List.append_assoc] at hat
    exact ⟨content, modified, by rw [locate_descendant hnames]; exact hat⟩

/-- A walk that went well goes well again when its path still leads to a file or to a folder. -/
theorem exists_walk_again {p : Path} {paths : List Path} (ht : t.walk descend p = .ok paths)
    (hfolder : t.find p = .ok .folder → u.find p = .ok .folder)
    (hfile : t.isFile p = true → u.isFile p = true) : ∃ paths', u.walk descend p = .ok paths' := by
  rcases walk_ok_iff.1 ht with ⟨content, modified, hfind, -⟩ | ⟨hfind, -⟩
  · obtain ⟨content', modified', hfind'⟩ := isFile_iff.1 (hfile (isFile_iff.2 ⟨_, _, hfind⟩))
    exact ⟨_, walk_ok_iff.2 (.inl ⟨content', modified', hfind', rfl⟩)⟩
  · exact ⟨_, walk_ok_iff.2 (.inr ⟨hfolder hfind, rfl⟩)⟩

/-- When the files that count are not among the altered ones, a walk lists the same of them. -/
theorem walk_again (h : AltersOnly S t u) (hnamed : t.WellNamed) (hnamed' : u.WellNamed)
    {p : Path} {paths paths' : List Path} (ht : t.walk descend p = .ok paths)
    (hu : u.walk descend p = .ok paths') {keep : Path → Bool}
    (hpaths : ∀ q ∈ paths, keep q = true → ∀ o, S o → o.locate t.here ≠ q.locate t.here)
    (hpaths' : ∀ q ∈ paths', keep q = true → ∀ o, S o → o.locate t.here ≠ q.locate t.here) :
    paths'.filter keep = paths.filter keep := by
  refine (walk_eq_of_mem_iff hnamed hnamed' ht hu fun q => ?_).symm
  simp only [List.mem_filter]
  constructor
  · rintro ⟨hq, hkeep⟩
    obtain ⟨content, modified, hat⟩ := exists_file_of_mem_walk hnamed ht hq
    have hat' := (h.files _ (hpaths q hq hkeep) content modified).2 hat
    rw [← h.here] at hat'
    exact ⟨mem_walk_of_file hnamed ht hu hq hat', hkeep⟩
  · rintro ⟨hq, hkeep⟩
    obtain ⟨content, modified, hat⟩ := exists_file_of_mem_walk hnamed' hu hq
    rw [h.here] at hat
    have hat' := (h.files _ (hpaths' q hq hkeep) content modified).1 hat
    exact ⟨mem_walk_of_file hnamed' hu ht hq hat', hkeep⟩

end ShaderBuild.FileTree
