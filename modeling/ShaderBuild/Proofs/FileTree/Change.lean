import Mathlib.Data.List.Induction
import ShaderBuild.Proofs.FileTree.Goal

/-!
# What changes leave alone

A change *alters only* some paths (`AltersOnly`) when the files elsewhere stay as they are and no
folder goes. Each operation of the program that changes a tree alters only the paths it is about,
and making folders alters no file at all. What can be followed stays so, and a file that is not
among the altered ones is read as before.
-/

namespace ShaderBuild.FileTree

open Path

variable {t u v : FileTree} {S S' : Path → Prop}

/-- Where all folders are there, a path can be followed. -/
theorem goal_of_folders (here : u.here = t.here)
    (folders : ∀ l, t.at? l = some .folder → u.at? l = some .folder) {p : Path} {g : Goal}
    (hg : t.goal p = .ok g) : u.goal p = .ok g := by
  rcases List.eq_nil_or_concat (p.segments.filter (· ≠ "")) with hnil | ⟨init, last, hlast⟩
  · rw [goal_of_nil hnil] at hg ⊢
    exact hg
  · rw [List.concat_eq_append] at hlast
    obtain ⟨hfollows, rfl⟩ := (goal_ok_iff hlast).1 hg
    have hstart : u.start p = t.start p := by
      unfold start
      rw [here]
    refine (goal_ok_iff hlast).2 ⟨?_, by rw [here]⟩
    rw [hstart]
    exact fun pre hpre => folders _ (hfollows pre hpre)

/-- Between two trees only files change that the given paths lead to, and no folder goes. -/
structure AltersOnly (S : Path → Prop) (t u : FileTree) : Prop where
  here : u.here = t.here
  folders : ∀ l, t.at? l = some .folder → u.at? l = some .folder
  files : ∀ l, (∀ p, S p → p.locate t.here ≠ l) → ∀ content modified,
    u.at? l = some (.file content modified) ↔ t.at? l = some (.file content modified)

namespace AltersOnly

theorem refl (S : Path → Prop) (t : FileTree) : AltersOnly S t t :=
  ⟨rfl, fun _ h => h, fun _ _ _ _ => Iff.rfl⟩

theorem trans (h : AltersOnly S t u) (h' : AltersOnly S u v) : AltersOnly S t v where
  here := h'.here.trans h.here
  folders l hl := h'.folders l (h.folders l hl)
  files l hl content modified :=
    (h'.files l (fun p hp => by rw [h.here]; exact hl p hp) content modified).trans
      (h.files l hl content modified)

theorem mono (h : AltersOnly S t u) (hS : ∀ p, S p → S' p) : AltersOnly S' t u where
  here := h.here
  folders := h.folders
  files l hl := h.files l fun p hp => hl p (hS p hp)

theorem goal (h : AltersOnly S t u) {p : Path} {g : Goal} (hg : t.goal p = .ok g) :
    u.goal p = .ok g := goal_of_folders h.here h.folders hg

theorem isFolder (h : AltersOnly S t u) {p : Path} (hp : t.find p = .ok .folder) :
    u.find p = .ok .folder := by
  obtain ⟨g, hg, hat, -⟩ := find_ok hp
  unfold find
  rw [h.goal hg]
  simp only [bind, Except.bind, h.folders _ hat]
  rfl

/-- At a path that leads to no altered file there is the same file as before, or none again. -/
theorem file?_eq (h : AltersOnly S t u) {p : Path}
    (hp : ∀ q, S q → q.locate t.here ≠ p.locate t.here) : u.file? p = t.file? p := by
  have hfiles := h.files _ hp
  apply Option.ext
  rintro ⟨content, modified⟩
  rw [file?_eq_some_iff, file?_eq_some_iff, h.here]
  exact hfiles content modified

/-- A file that no altered path leads to is read as before. -/
theorem read (h : AltersOnly S t u) {p : Path} {content : List UInt8} {modified : Timestamp}
    (hp : ∀ q, S q → q.locate t.here ≠ p.locate t.here)
    (hr : t.read p = .ok (content, modified)) : u.read p = .ok (content, modified) := by
  rw [read_ok_iff] at hr ⊢
  obtain ⟨-, -, -, -, -, -, hg⟩ := goal_of_file hr
  refine find_of_goal (h.goal hg) ?_ (by simp)
  exact (h.files _ hp content modified).2 (at?_of_find hr)

end AltersOnly

theorem altersOnly_trans (t u v : FileTree) (h : AltersOnly S t u) (h' : AltersOnly S u v) :
    AltersOnly S t v := h.trans h'

/-- Between two trees nothing changes but files that the given paths lead to, which may go, and
new folders. -/
structure Loses (S : Path → Prop) (t u : FileTree) : Prop extends AltersOnly S t u where
  kept : ∀ l content modified, u.at? l = some (.file content modified) →
    t.at? l = some (.file content modified)

namespace Loses

theorem trans (h : Loses S t u) (h' : Loses S u v) : Loses S t v :=
  ⟨h.toAltersOnly.trans h'.toAltersOnly, fun l c m hl => h.kept l c m (h'.kept l c m hl)⟩

theorem mono (h : Loses S t u) (hS : ∀ p, S p → S' p) : Loses S' t u :=
  ⟨h.toAltersOnly.mono hS, h.kept⟩

/-- A change that alters no file loses none. -/
theorem of_altersOnly (h : AltersOnly (fun _ => False) t u) : Loses S t u :=
  ⟨h.mono fun _ hp => hp.elim, fun l c m hl => (h.files l (fun _ hp => hp.elim) c m).1 hl⟩

end Loses

/-- Between two trees nothing changes but files that the given paths lead to, which may go. -/
structure Deletes (S : Path → Prop) (t u : FileTree) : Prop extends AltersOnly S t u where
  old : ∀ l e, u.at? l = some e → t.at? l = some e

namespace Deletes

theorem refl (S : Path → Prop) (t : FileTree) : Deletes S t t := ⟨.refl S t, fun _ _ h => h⟩

theorem trans (h : Deletes S t u) (h' : Deletes S u v) : Deletes S t v :=
  ⟨h.toAltersOnly.trans h'.toAltersOnly, fun l e hl => h.old l e (h'.old l e hl)⟩

theorem mono (h : Deletes S t u) (hS : ∀ p, S p → S' p) : Deletes S' t u :=
  ⟨h.toAltersOnly.mono hS, h.old⟩

theorem loses (h : Deletes S t u) : Loses S t u :=
  ⟨h.toAltersOnly, fun l c m => h.old l (.file c m)⟩

/-- What is there behind a deletion was there before it. -/
theorem goal_before (h : Deletes S t u) {p : Path} {g : Goal} (hg : u.goal p = .ok g) :
    t.goal p = .ok g := goal_of_folders h.here.symm (fun l => h.old l .folder) hg

theorem find_before (h : Deletes S t u) {p : Path} {e : Entry} (hp : u.find p = .ok e) :
    t.find p = .ok e := by
  obtain ⟨g, hg, hat, hslash⟩ := find_ok hp
  have hgoal := h.goal_before hg
  have hold := h.old _ _ hat
  cases e with
  | file content modified => exact find_of_goal hgoal hold (hslash ⟨content, modified, rfl⟩)
  | folder =>
    unfold find
    rw [hgoal]
    simp only [bind, Except.bind, hold]
    rfl

theorem at?_eq_none (h : Deletes S t u) {l : Location} (hl : t.at? l = none) :
    u.at? l = none := by
  cases hat : u.at? l with
  | none => rfl
  | some e =>
    rw [h.old l e hat] at hl
    cases hl

/-- A file that is gone does not come back. -/
theorem file?_eq_none (h : Deletes S t u) {p : Path} (hp : t.file? p = none) :
    u.file? p = none := by
  cases hu : u.file? p with
  | none => rfl
  | some file =>
    rw [file?_eq_some_iff, h.here] at hu
    rw [file?_eq_some_iff.2 (h.old _ _ hu)] at hp
    cases hp

end Deletes

/-! ## Locations of goals -/

/-- Whether all names in a tree can be names of files. -/
def WellNamed (t : FileTree) : Prop := ∀ entry ∈ t.entries, ∀ n ∈ entry.1, IsName n

instance (t : FileTree) : Decidable t.WellNamed :=
  inferInstanceAs (Decidable (∀ entry ∈ t.entries, ∀ n ∈ entry.1, IsName n))

theorem wellNamed_iff : t.WellNamed ↔ ∀ l e, t.at? l = some e → ∀ n ∈ l, IsName n := by
  constructor
  · intro h l e hl n hn
    exact h (l, e) (at?_eq_some_iff.1 hl) n hn
  · intro h entry hentry n hn
    exact h entry.1 entry.2 (at?_eq_some_iff.2 hentry) n hn

/-- Around something there are folders. -/
theorem at?_of_prefix {l m : Location} {e : Entry} (h : t.at? m = some e) (hl : l <+: m)
    (hne : l ≠ m) : t.at? l = some .folder := by
  obtain ⟨rest, rfl⟩ := hl
  induction rest using List.reverseRecOn generalizing e with
  | nil => exact absurd (List.append_nil l).symm hne
  | append_singleton rest n ih =>
    have hup := at?_dropLast h
    rw [← List.append_assoc, List.dropLast_concat] at hup
    by_cases hrest : rest = []
    · rw [hrest, List.append_nil] at hup
      exact hup
    · exact ih hup (by simpa using hrest)

/-- A path that ends with a name leads into a folder. -/
theorem goal_name {p : Path} {g : Goal} (hg : t.goal p = .ok g) (hdot : g.ending ≠ .dot)
    (hup : g.ending ≠ .up) : ∃ folder last, g.location = folder ++ [last] ∧
      t.at? folder = some .folder ∧ IsName last := by
  rcases List.eq_nil_or_concat (p.segments.filter (· ≠ "")) with hnil | ⟨init, last, hlast⟩
  · rw [goal_of_nil hnil] at hg
    split at hg
    · cases hg
      exact absurd rfl hdot
    · cases hg
  · rw [List.concat_eq_append] at hlast
    obtain ⟨hfollows, rfl⟩ := (goal_ok_iff hlast).1 hg
    have hmem : last ∈ p.segments.filter (· ≠ "") := by
      rw [hlast]
      exact List.mem_concat_self
    obtain ⟨hsegment, hne⟩ := List.mem_filter.1 hmem
    have h1 : last ≠ "." := by
      rintro rfl
      exact hdot (by simp [ending])
    have h2 : last ≠ ".." := by
      rintro rfl
      exact hup (by simp [ending])
    have hname := isName_of_mem_segments hsegment (by simpa using hne) h1 h2
    refine ⟨init.foldl step (t.start p), last, ?_, hfollows init List.prefix_rfl, hname⟩
    show p.locate t.here = _
    rw [locate, hlast, List.foldl_append, ← step_name hname]
    rfl

theorem canPut_of_goal {p : Path} {g : Goal} (hg : t.goal p = .ok g) (hdot : g.ending ≠ .dot)
    (hup : g.ending ≠ .up) (hat : t.at? g.location ≠ some .folder) : t.CanPut g.location := by
  obtain ⟨folder, last, hlocation, hfolder, -⟩ := goal_name hg hdot hup
  rw [hlocation] at hat ⊢
  exact ⟨by simp, by rw [List.dropLast_concat]; exact hfolder, hat⟩

theorem wellNamed_put (h : t.WellNamed) {p : Path} {g : Goal} {e : Entry}
    (hg : t.goal p = .ok g) (hdot : g.ending ≠ .dot) (hup : g.ending ≠ .up)
    (hat : t.at? g.location ≠ some .folder) : (t.put g.location e).WellNamed := by
  rw [wellNamed_iff] at h ⊢
  intro l d hl n hn
  rw [at?_put (canPut_of_goal hg hdot hup hat)] at hl
  split at hl
  · next heq =>
    obtain ⟨folder, last, hlocation, hfolder, hname⟩ := goal_name hg hdot hup
    rw [heq, hlocation, List.mem_append, List.mem_singleton] at hn
    rcases hn with hn | rfl
    · exact h _ _ hfolder n hn
    · exact hname
  · exact h _ _ hl n hn

/-! ## Writing -/

/-- A file that is written takes the place of what was at its location. -/
theorem at?_write {p : Path} {content : List UInt8} (h : (t.write p content).1 = .ok ())
    (m : Location) : (t.write p content).2.at? m
      = if m = p.locate t.here then some (.file content t.clock) else t.at? m := by
  unfold write at h ⊢
  cases hg : t.goal p with
  | error fault =>
    rw [hg] at h
    cases h
  | ok g =>
    simp only [hg] at h ⊢
    split at h
    · cases h
    · next hend =>
      rw [not_or, not_not] at hend
      rw [if_neg (by rw [not_or, not_not]; exact hend), ← goal_location hg]
      exact at?_put (canPut_of_goal hg (by simp [hend.1]) (by simp [hend.1]) hend.2) _ m

theorem write_error {p : Path} {content : List UInt8} {fault : IoFault}
    (h : (t.write p content).1 = .error fault) : (t.write p content).2 = t := by
  unfold write at h ⊢
  cases hg : t.goal p with
  | error fault' => rfl
  | ok g =>
    simp only [hg] at h ⊢
    split at h
    · next hend => rw [if_pos hend]
    · cases h

theorem here_write (t : FileTree) (p : Path) (content : List UInt8) :
    (t.write p content).2.here = t.here := by
  unfold write
  split
  · rfl
  · split
    · rfl
    · show (t.put _ _).here = t.here
      unfold put
      split <;> rfl

/-- Where a file is written there is no folder, and the folder around it is there. -/
theorem goal_of_write {p : Path} {content : List UInt8} (h : (t.write p content).1 = .ok ()) :
    t.goal p = .ok ⟨p.locate t.here, .name⟩ ∧ t.at? (p.locate t.here) ≠ some .folder := by
  unfold write at h
  cases hg : t.goal p with
  | error fault =>
    rw [hg] at h
    cases h
  | ok g =>
    simp only [hg] at h
    split at h
    · cases h
    · next hend =>
      rw [not_or, not_not] at hend
      obtain ⟨location, ending⟩ := g
      obtain rfl := goal_location hg
      obtain rfl : ending = .name := hend.1
      exact ⟨rfl, hend.2⟩

/-- Writing alters no other path. -/
theorem altersOnly_write (t : FileTree) (p : Path) (content : List UInt8) :
    AltersOnly (· = p) t (t.write p content).2 := by
  cases h : (t.write p content).1 with
  | error fault =>
    rw [write_error h]
    exact .refl _ _
  | ok u =>
    have hat := at?_write h
    refine ⟨here_write t p content, fun l hl => ?_, fun l hl c m => ?_⟩
    · rw [hat, if_neg]
      · exact hl
      · rintro rfl
        exact (goal_of_write h).2 hl
    · rw [hat, if_neg (Ne.symm (hl p rfl))]

/-- Writing to one of some paths alters no other. -/
theorem altersOnly_write_mem {p : Path} (hp : S p) (t : FileTree) (content : List UInt8) :
    AltersOnly S t (t.write p content).2 :=
  (altersOnly_write t p content).mono fun q hq => by rw [hq]; exact hp

/-- What was written is read. -/
theorem read_write {p : Path} {content : List UInt8} (h : (t.write p content).1 = .ok ()) :
    (t.write p content).2.read p = .ok (content, t.clock) := by
  rw [read_ok_iff]
  refine find_of_goal ((altersOnly_write t p content).goal (goal_of_write h).1) ?_ (by simp)
  rw [at?_write h, if_pos rfl]

/-! ## Removing -/

theorem at?_prune_file {l : Location} {content : List UInt8} {modified : Timestamp}
    (h : t.at? l = some (.file content modified)) (m : Location) :
    (t.prune l).at? m = if m = l then none else t.at? m := by
  have hl : l ≠ [] := by
    rintro rfl
    rw [at?_root] at h
    cases h
  by_cases hm : m = []
  · subst hm
    rw [at?_root, if_neg (Ne.symm hl), at?_root]
  rw [at?_prune t l hm]
  by_cases hp : l.isPrefixOf m = true
  · rw [if_pos hp]
    split
    · rfl
    · next hne =>
      -- below a file there is nothing
      cases hat : t.at? m with
      | none => rfl
      | some e =>
        have := at?_of_prefix hat (List.isPrefixOf_iff_prefix.1 hp) (Ne.symm hne)
        rw [h] at this
        cases this
  · rw [if_neg hp, if_neg]
    rintro rfl
    exact hp (List.isPrefixOf_iff_prefix.2 List.prefix_rfl)

/-- Removing a file takes it away, or else changes nothing. -/
theorem removeFile_cases (t : FileTree) (p : Path) :
    (∃ fault, t.removeFile p = (.error fault, t)) ∨
      ∃ content modified, t.at? (p.locate t.here) = some (.file content modified) ∧
        t.removeFile p = (.ok (), t.prune (p.locate t.here)) := by
  unfold removeFile
  cases hg : t.goal p with
  | error fault => exact .inl ⟨fault, rfl⟩
  | ok g =>
    rw [← goal_location hg]
    cases hat : t.at? g.location with
    | none => exact .inl ⟨.notFound, by simp only [hat]⟩
    | some e =>
      cases e with
      | folder => exact .inl ⟨.isADirectory, by simp only [hat]⟩
      | file content modified =>
        by_cases hslash : g.ending = .slash
        · exact .inl ⟨.notADirectory, by simp only [hat, hslash]⟩
        · exact .inr ⟨content, modified, rfl, by simp only [hat]⟩

/-- A file that was removed is gone. -/
theorem at?_removeFile {p : Path} (h : (t.removeFile p).1 = .ok ()) (m : Location) :
    (t.removeFile p).2.at? m = if m = p.locate t.here then none else t.at? m := by
  rcases removeFile_cases t p with ⟨fault, heq⟩ | ⟨content, modified, hat, heq⟩
  · rw [heq] at h
    cases h
  · rw [heq]
    exact at?_prune_file hat m

/-- Removing a file alters no other path. -/
theorem altersOnly_removeFile (t : FileTree) (p : Path) :
    AltersOnly (· = p) t (t.removeFile p).2 := by
  rcases removeFile_cases t p with ⟨fault, heq⟩ | ⟨content, modified, hat, heq⟩
  · rw [heq]
    exact .refl _ _
  · rw [heq]
    have hprune := at?_prune_file hat
    refine ⟨rfl, fun l hl => ?_, fun l hl c m => ?_⟩
    · rw [hprune, if_neg]
      · exact hl
      · rintro rfl
        rw [hat] at hl
        cases hl
    · rw [hprune, if_neg (Ne.symm (hl p rfl))]

/-- Removing a file deletes that file at most. -/
theorem deletes_removeFile (t : FileTree) (p : Path) : Deletes (· = p) t (t.removeFile p).2 := by
  refine ⟨altersOnly_removeFile t p, fun l e hl => ?_⟩
  rcases removeFile_cases t p with ⟨fault, heq⟩ | ⟨content, modified, hat, heq⟩
  · rw [heq] at hl
    exact hl
  · rw [heq, at?_prune_file hat] at hl
    split at hl
    · cases hl
    · exact hl

/-- No file is left where a file could be removed, or where there is nothing to remove. -/
theorem file?_removeFile {p : Path} (hg : t.goal p = .ok ⟨p.locate t.here, .name⟩)
    (h : (t.removeFile p).1 = .ok () ∨ (t.removeFile p).1 = .error .notFound) :
    (t.removeFile p).2.file? p = none := by
  rcases removeFile_cases t p with ⟨fault, heq⟩ | ⟨content, modified, hat, heq⟩
  · rw [heq] at h ⊢
    rcases h with h | h
    · cases h
    obtain rfl := Except.error.inj h
    unfold removeFile at heq
    rw [hg] at heq
    unfold file?
    cases hat : t.at? (p.locate t.here) with
    | none => rfl
    | some e => cases e <;> simp only [hat] at heq <;> cases heq
  · rw [heq]
    cases hfile : (t.prune (p.locate t.here)).file? p with
    | none => rfl
    | some f =>
      have hthere : (t.prune (p.locate t.here)).at? (p.locate t.here) = some (.file f.1 f.2) :=
        file?_eq_some_iff.1 hfile
      rw [at?_prune_file hat, if_pos rfl] at hthere
      cases hthere

/-! ## Making folders -/

theorem makeFolder_cases (t : FileTree) (p : Path) :
    (∃ fault, t.makeFolder p = (.error fault, t)) ∨
      ∃ g, t.goal p = .ok g ∧ g.ending ≠ .dot ∧ g.ending ≠ .up ∧ t.at? g.location = none ∧
        t.makeFolder p = (.ok (), t.put g.location .folder) := by
  unfold makeFolder
  cases hg : t.goal p with
  | error fault => exact .inl ⟨fault, rfl⟩
  | ok g =>
    by_cases hthere : g.ending = .dot ∨ g.ending = .up ∨ (t.at? g.location).isSome
    · exact .inl ⟨.alreadyExists, by simp only [if_pos hthere]⟩
    · refine .inr ⟨g, rfl, ?_⟩
      have hthere' := hthere
      rw [not_or, not_or, Option.not_isSome_iff_eq_none] at hthere'
      exact ⟨hthere'.1, hthere'.2.1, hthere'.2.2, by simp only [if_neg hthere]⟩

theorem here_put (t : FileTree) (l : Location) (e : Entry) : (t.put l e).here = t.here := by
  unfold put
  split <;> rfl

/-- Making a folder alters no file. -/
theorem altersOnly_makeFolder (t : FileTree) (p : Path) :
    AltersOnly (fun _ => False) t (t.makeFolder p).2 := by
  rcases makeFolder_cases t p with ⟨fault, heq⟩ | ⟨g, hg, hdot, hup, hat, heq⟩
  · rw [heq]
    exact .refl _ _
  · rw [heq]
    have hput := at?_put (canPut_of_goal hg hdot hup (by rw [hat]; simp)) Entry.folder
    refine ⟨here_put _ _ _, fun l hl => ?_, fun l _ c m => ?_⟩
    · rw [hput]
      split
      · rfl
      · exact hl
    · rw [hput]
      split
      · next heq =>
        rw [heq, hat]
        simp
      · rfl

theorem wellNamed_makeFolder (p : Path) (h : t.WellNamed) : (t.makeFolder p).2.WellNamed := by
  rcases makeFolder_cases t p with ⟨fault, heq⟩ | ⟨g, hg, hdot, hup, hat, heq⟩
  · rw [heq]
    exact h
  · rw [heq]
    exact wellNamed_put h hg hdot hup (by rw [hat]; simp)

/-- What making one folder does to a tree, if anything, making a row of them does too. -/
theorem makeAll_moves {R : FileTree → FileTree → Prop} (refl : ∀ t, R t t)
    (trans : ∀ t u v, R t u → R u v → R t v) (step : ∀ t p, R t (makeFolder t p).2)
    (t : FileTree) (ps : List Path) : R t (t.makeAll ps).2 := by
  induction ps with
  | nil => exact refl t
  | cons p around ih =>
    rw [makeAll]
    split
    · exact refl t
    · have hp := step t p
      split
      · next t' heq =>
        rw [heq] at hp
        exact hp
      · split
        · next fault t' heq =>
          rw [heq] at ih
          exact ih
        · next t' heq =>
          rw [heq] at ih
          have hp' := step t' p
          split
          · next t'' heq' =>
            rw [heq'] at hp'
            exact trans _ _ _ ih hp'
          · exact ih
      · exact refl t

/-- Making folders alters no file. -/
theorem altersOnly_makeFolders (t : FileTree) (p : Path) :
    AltersOnly (fun _ => False) t (t.makeFolders p).2 :=
  makeAll_moves (AltersOnly.refl _) (fun _ _ _ h h' => h.trans h') altersOnly_makeFolder t _

theorem wellNamed_makeFolders (p : Path) (h : t.WellNamed) : (t.makeFolders p).2.WellNamed :=
  makeAll_moves (R := fun t u => t.WellNamed → u.WellNamed) (fun _ h => h)
    (fun _ _ _ h h' ht => h' (h ht)) (fun _ p h => wellNamed_makeFolder p h) t _ h

/-- A folder that could be made is there. -/
theorem find_makeFolder {p : Path} (h : (t.makeFolder p).1 = .ok ()) :
    (t.makeFolder p).2.find p = .ok .folder := by
  rcases makeFolder_cases t p with ⟨fault, heq⟩ | ⟨g, hg, hdot, hup, hat, heq⟩
  · rw [heq] at h
    cases h
  · have hput := at?_put (canPut_of_goal hg hdot hup (by rw [hat]; simp)) Entry.folder
    have hgoal := (altersOnly_makeFolder t p).goal hg
    rw [heq] at hgoal ⊢
    unfold find
    rw [hgoal]
    simp only [bind, Except.bind, hput, if_true]
    rfl

theorem find_of_isFolder {p : Path} (h : t.isFolder p = true) : t.find p = .ok .folder := by
  unfold isFolder at h
  split at h
  · next heq => exact heq
  · cases h

/-- A folder that was made with the folders around it is there. -/
theorem find_makeFolders {p : Path} (hp : p.text ≠ "") (h : (t.makeFolders p).1 = .ok ()) :
    (t.makeFolders p).2.find p = .ok .folder := by
  unfold makeFolders at h ⊢
  have hlength : p.segments.length ≠ 0 := by
    intro hzero
    have := splitSlash_ne_nil p.text.toList
    unfold segments at hzero
    rw [List.length_map] at hzero
    exact this (List.length_eq_zero_iff.1 hzero)
  obtain ⟨n, hn⟩ := Nat.exists_eq_succ_of_ne_zero hlength
  rw [hn, ancestors, makeAll, if_neg hp] at h ⊢
  rcases hmade : t.makeFolder p with ⟨fault | _, t'⟩
  · cases fault with
    | notFound =>
      simp only [hmade] at h ⊢
      rcases haround : t.makeAll ((p.parent?.map (ancestors n)).getD []) with ⟨fault | _, t'⟩
      · rw [haround] at h
        cases h
      · simp only [haround] at h ⊢
        rcases hagain : t'.makeFolder p with ⟨fault | _, t''⟩
        · simp only [hagain] at h ⊢
          split at h
          · next hfolder => exact find_of_isFolder hfolder
          · cases h
        · have := find_makeFolder (t := t') (p := p)
          rw [hagain] at this
          exact this rfl
    | _ =>
      simp only [hmade] at h ⊢
      split at h
      · next hfolder => exact find_of_isFolder hfolder
      · cases h
  · have := find_makeFolder (t := t) (p := p)
    rw [hmade] at this
    exact this rfl

/-- A file in a folder that was made can be followed to. -/
theorem goal_child_of_made {p : Path} (h : (t.makeFolders p).1 = .ok ()) {n : String}
    (hn : IsName n) {e : Entry}
    (hat : (t.makeFolders p).2.at? (p.locate (t.makeFolders p).2.here ++ [n]) = some e) :
    (t.makeFolders p).2.goal (p.child n)
      = .ok ⟨(p.child n).locate (t.makeFolders p).2.here, .name⟩ := by
  refine goal_child hn ?_
  by_cases hp : p.text = ""
  · -- nothing is made for the empty path, which leads to where paths start
    have hsegments : p.segments.filter (· ≠ "") = [] := by
      simp [segments, hp, splitSlash]
    have habsolute : p.isAbsolute = false := by
      simp [isAbsolute, hp]
    rw [hsegments, follows_nil_iff, start, habsolute]
    have hparent := at?_dropLast hat
    rw [List.dropLast_concat, locate, hsegments, habsolute] at hparent
    exact hparent
  · exact follows_of_folder (find_makeFolders hp h)

end ShaderBuild.FileTree
