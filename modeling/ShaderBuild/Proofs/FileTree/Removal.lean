import ShaderBuild.Proofs.FileTree.Overwrite

/-!
# Removing for good

What cannot be found need not be removed; but a path that steps up may lead nowhere although there
is something at its location, when a folder on its way is missing. A path that never steps up
(`Path.IsPlain`) leads to whatever is at its location, unless a file stands in the way. So a file or
folder that such a path names is gone where it could be removed or was not found
(`removeFile_erases`, `removeFolder_erases`).
-/

namespace ShaderBuild

/-! ## Paths without steps up -/

/-- A path that says something and never steps up. -/
def Path.IsPlain (p : Path) : Prop := p.text ≠ "" ∧ ".." ∉ p.segments

instance (p : Path) : Decidable p.IsPlain := inferInstanceAs (Decidable (_ ∧ _))

theorem Path.isAbsolute_of_no_segments {p : Path} (h : p.text ≠ "")
    (hnil : p.segments.filter (· ≠ "") = []) : p.isAbsolute = true := by
  unfold segments at hnil
  unfold isAbsolute
  cases htext : p.text.toList with
  | nil => exact absurd (String.toList_eq_nil_iff.1 htext) h
  | cons c r =>
    rw [htext, splitSlash] at hnil
    split at hnil
    · next hc => simp [hc]
    · split at hnil <;> simp at hnil

namespace FileTree

variable {t : FileTree}

theorem prefix_foldl_step {ss : List String} (h : ".." ∉ ss) (l : Location) :
    l <+: ss.foldl step l := by
  induction ss generalizing l with
  | nil => exact List.prefix_rfl
  | cons s ss ih =>
    rw [List.mem_cons, not_or] at h
    refine List.IsPrefix.trans ?_ (ih h.2 (step l s))
    unfold step
    rw [if_neg (Ne.symm h.1)]
    split
    · exact List.prefix_rfl
    · exact List.prefix_append _ _

/-- There is something on the way to something. -/
theorem exists_of_prefix {l m : Location} {e : Entry} (h : t.at? m = some e) (hl : l <+: m) :
    ∃ e', t.at? l = some e' := by
  by_cases heq : l = m
  · exact ⟨e, by rw [heq]; exact h⟩
  · exact ⟨.folder, at?_of_prefix h hl heq⟩

theorem enter_ne_notFound {l : Location} {s : String} {e : Entry} (h : t.at? (step l s) = some e) :
    t.enter l s ≠ .error .notFound := by
  unfold enter
  rw [h]
  cases e <;> simp

/-- On the way to something, every segment leads to something. -/
theorem foldlM_enter_ne_notFound {ss : List String} (hss : ".." ∉ ss) {l : Location} {e : Entry}
    (h : t.at? (ss.foldl step l) = some e) : ss.foldlM t.enter l ≠ .error .notFound := by
  induction ss generalizing l with
  | nil => simp [pure, Except.pure]
  | cons s ss ih =>
    rw [List.mem_cons, not_or] at hss
    rw [List.foldl_cons] at h
    obtain ⟨e', he'⟩ := exists_of_prefix h (prefix_foldl_step hss.2 (step l s))
    rw [List.foldlM_cons]
    cases henter : t.enter l s with
    | error fault =>
      intro heq
      obtain rfl : fault = .notFound := Except.error.inj heq
      exact enter_ne_notFound he' henter
    | ok l' =>
      obtain ⟨-, rfl⟩ := enter_ok_iff.1 henter
      exact ih hss.2 h

/-- A plain path to something can be followed, or ends in a file on the way. -/
theorem goal_ne_notFound {p : Path} (hp : p.IsPlain) {e : Entry}
    (h : t.at? (p.locate t.here) = some e) : t.goal p ≠ .error .notFound := by
  obtain ⟨htext, hup⟩ := hp
  rcases List.eq_nil_or_concat (p.segments.filter (· ≠ "")) with hnil | ⟨init, last, hlast⟩
  · rw [goal_of_nil hnil, if_pos (Path.isAbsolute_of_no_segments htext hnil)]
    simp
  · rw [List.concat_eq_append] at hlast
    have hsteps : ".." ∉ init ++ [last] := fun hmem => hup (by
      rw [← hlast] at hmem
      exact (List.mem_filter.1 hmem).1)
    have hinit : ".." ∉ init := fun hmem => hsteps (List.mem_append_left _ hmem)
    rw [Path.locate, hlast, ← start] at h
    obtain ⟨e₀, hstart⟩ := exists_of_prefix h (prefix_foldl_step hsteps _)
    rw [List.foldl_append] at h
    obtain ⟨e₁, hfolder⟩ := exists_of_prefix h
      (prefix_foldl_step (fun hmem => hsteps (List.mem_append_right _ hmem)) _)
    unfold goal
    simp only [hlast, List.getLast?_append, List.getLast?_singleton, Option.some_or,
      List.dropLast_concat]
    rw [← start]
    cases henter : t.enter (t.start p) "." with
    | error fault =>
      intro heq
      obtain rfl : fault = .notFound := Except.error.inj heq
      exact enter_ne_notFound (e := e₀) (by simpa [step] using hstart) henter
    | ok l =>
      obtain ⟨-, rfl⟩ := enter_ok_iff.1 henter
      simp only [bind, Except.bind]
      cases hfold : init.foldlM t.enter (step (t.start p) ".") with
      | error fault =>
        intro heq
        obtain rfl : fault = .notFound := Except.error.inj heq
        refine foldlM_enter_ne_notFound hinit (e := e₁) ?_ hfold
        simpa [step] using hfolder
      | ok folder => simp [pure, Except.pure]

/-! ## Removing folders -/

/-- What is left of an empty folder that was to be removed. -/
theorem removeEmpty_tree (t : FileTree) (p : Path) :
    (t.removeEmpty p).2 = t ∨ (t.removeEmpty p).2 = t.prune (p.locate t.here) := by
  unfold removeEmpty
  cases hg : t.goal p with
  | error fault => exact .inl rfl
  | ok g =>
    rw [← goal_location hg]
    dsimp only
    split
    · exact .inl rfl
    · exact .inl rfl
    · exact .inl rfl
    · exact .inl rfl
    · split
      · exact .inr rfl
      · exact .inl rfl

/-- Removing a folder changes nothing, or empties it, or removes it. -/
theorem removeFolder_tree (t : FileTree) (p : Path) :
    (t.removeFolder p).2 = t ∨ (t.removeFolder p).2 = t.pruneBelow (p.locate t.here) ∨
      (t.removeFolder p).2 = (t.pruneBelow (p.locate t.here)).prune (p.locate t.here) := by
  unfold removeFolder
  split
  · exact .inl rfl
  · exact .inl rfl
  · cases hg : t.goal p with
    | error fault => exact .inl rfl
    | ok g =>
      rw [← goal_location hg]
      dsimp only
      refine .inr ?_
      have hempty := removeEmpty_tree (t.pruneBelow g.location) p
      rw [show p.locate (t.pruneBelow g.location).here = g.location from (goal_location hg).symm]
        at hempty
      split
      · next t' heq =>
        rw [heq] at hempty
        exact hempty
      · exact hempty

theorem at?_pruneBelow_of_apart {l m : Location} (h : ¬ l <+: m) :
    (t.pruneBelow l).at? m = t.at? m := by
  rw [at?_pruneBelow, if_neg]
  intro hbelow
  exact h (isBelow_iff.1 hbelow).1

theorem at?_prune_of_apart {l m : Location} (h : ¬ l <+: m) :
    (t.prune l).at? m = t.at? m := by
  by_cases hm : m = []
  · rw [hm, at?_root, at?_root]
  · rw [at?_prune t l hm, if_neg]
    simpa using h

/-- Removing a folder changes nothing elsewhere. -/
theorem removeFolder_frame (t : FileTree) (p : Path) : (t.removeFolder p).2.here = t.here ∧
    ∀ l, ¬ p.locate t.here <+: l → (t.removeFolder p).2.at? l = t.at? l := by
  rcases removeFolder_tree t p with heq | heq | heq
  · rw [heq]
    exact ⟨rfl, fun _ _ => rfl⟩
  · rw [heq]
    exact ⟨rfl, fun _ h => at?_pruneBelow_of_apart h⟩
  · rw [heq]
    refine ⟨rfl, fun _ h => ?_⟩
    rw [at?_prune_of_apart h, at?_pruneBelow_of_apart h]

/-- Where nothing was, removing a folder puts nothing. -/
theorem removeFolder_none {p : Path} {l : Location} (h : t.at? l = none) :
    (t.removeFolder p).2.at? l = none := by
  have hroot : l ≠ [] := by
    rintro rfl
    rw [at?_root] at h
    cases h
  rcases removeFolder_tree t p with heq | heq | heq
  · rw [heq, h]
  · rw [heq, at?_pruneBelow, h, ite_self]
  · rw [heq, at?_prune _ _ hroot, at?_pruneBelow, h, ite_self, ite_self]

theorem children_pruneBelow (t : FileTree) (l : Location) :
    (t.pruneBelow l).children l = [] := by
  refine List.eq_nil_iff_forall_not_mem.2 fun n hn => ?_
  obtain ⟨e, he⟩ := mem_children.1 hn
  rw [at?_pruneBelow, if_pos (isBelow_iff.2 ⟨List.prefix_append l [n], by simp⟩)] at he
  cases he

/-- A plain path to a folder that has been emptied leads to it still, so it can be removed. -/
theorem removeEmpty_erases {p : Path} (hp : p.IsPlain)
    (hat : t.at? (p.locate t.here) = some .folder) (hempty : t.children (p.locate t.here) = [])
    {r : Except IoFault Unit} {u : FileTree} (h : t.removeEmpty p = (r, u)) :
    r ≠ .error .notFound ∧
      (r = .ok () → ∀ l, p.locate t.here <+: l → u.at? l = none) := by
  unfold removeEmpty at h
  cases hg : t.goal p with
  | error fault =>
    rw [hg] at h
    cases h
    refine ⟨fun heq => ?_, fun heq => by cases heq⟩
    obtain rfl : fault = .notFound := Except.error.inj heq
    exact goal_ne_notFound hp hat hg
  | ok g =>
    rw [← goal_location hg] at hat hempty ⊢
    simp only [hg, hat, hempty, List.isEmpty_nil, if_true] at h
    -- with a name at the end, the folder is not the root
    have hpruned : g.ending ≠ .dot → g.ending ≠ .up → ∀ l, g.location <+: l →
        (t.prune g.location).at? l = none := by
      intro hdot hup l hl
      obtain ⟨folder, last, hlocation, -⟩ := goal_name hg hdot hup
      have hroot : l ≠ [] := by
        rintro rfl
        rw [hlocation, List.prefix_nil] at hl
        simp at hl
      rw [at?_prune _ _ hroot, if_pos (List.isPrefixOf_iff_prefix.2 hl)]
    cases hend : g.ending with
    | dot =>
      simp only [hend] at h
      cases h
      exact ⟨fun heq => (by cases heq), fun heq => (by cases heq)⟩
    | up =>
      simp only [hend] at h
      cases h
      exact ⟨fun heq => (by cases heq), fun heq => (by cases heq)⟩
    | name =>
      simp only [hend] at h
      cases h
      exact ⟨fun heq => (by cases heq), fun _ => hpruned (by simp [hend]) (by simp [hend])⟩
    | slash =>
      simp only [hend] at h
      cases h
      exact ⟨fun heq => (by cases heq), fun _ => hpruned (by simp [hend]) (by simp [hend])⟩

/-- Below nothing there is nothing. -/
theorem at?_eq_none_below {l m : Location} (h : t.at? l = none) (hl : l <+: m) :
    t.at? m = none := by
  cases hm : t.at? m with
  | none => rfl
  | some e =>
    obtain ⟨e', he'⟩ := exists_of_prefix hm hl
    rw [h] at he'
    cases he'

/-- Where a path leads to a folder, the folder is emptied and then removed. -/
theorem removeFolder_of_folder {p : Path} {g : Goal} (hg : t.goal p = .ok g)
    (hat : t.at? (p.locate t.here) = some .folder) {r : Except IoFault Unit} {u : FileTree}
    (h : (t.pruneBelow (p.locate t.here)).removeEmpty p = (r, u)) (hr : r ≠ .error .notFound) :
    t.removeFolder p = (r, u) := by
  have hlocation := goal_location hg
  have hfind : t.find p = .ok .folder := by
    unfold find
    rw [hg]
    simp only [bind, Except.bind, hlocation, hat]
    rfl
  unfold removeFolder
  simp only [hfind, hg, hlocation, h]
  split
  · next hnone => exact absurd (congrArg Prod.fst hnone) hr
  · rfl

/-- A file is not removed as a folder. -/
theorem removeFolder_of_file {p : Path} {g : Goal} {content : List UInt8} {modified : Timestamp}
    (hg : t.goal p = .ok g) (hat : t.at? (p.locate t.here) = some (.file content modified)) :
    (t.removeFolder p).1 = .error .notADirectory := by
  have hlocation := goal_location hg
  by_cases hslash : g.ending = .slash
  · have hfind : t.find p = .error .notADirectory := by
      unfold find
      rw [hg]
      simp only [bind, Except.bind, hlocation, hat, hslash]
      rfl
    unfold removeFolder
    rw [hfind]
  · have hfind := find_of_goal hg (by rw [hlocation]; exact hat) hslash
    unfold removeFolder
    rw [hfind]

/-- A folder that a plain path names is gone where it could be removed, or was not found. -/
theorem removeFolder_erases {p : Path} (hp : p.IsPlain)
    (h : (t.removeFolder p).1 = .ok () ∨ (t.removeFolder p).1 = .error .notFound) {l : Location}
    (hl : p.locate t.here <+: l) : (t.removeFolder p).2.at? l = none := by
  cases hat : t.at? (p.locate t.here) with
  | none => exact removeFolder_none (at?_eq_none_below hat hl)
  | some e =>
    have hfound := goal_ne_notFound hp hat
    cases hg : t.goal p with
    | error fault =>
      have hfind : t.find p = .error fault := by
        unfold find
        rw [hg]
        rfl
      unfold removeFolder at h
      simp only [hfind] at h
      rcases h with h | h
      · cases h
      · cases h
        exact absurd hg hfound
    | ok g =>
      cases e with
      | file content modified =>
        rw [removeFolder_of_file hg hat] at h
        rcases h with h | h <;> cases h
      | folder =>
        have hthere : (t.pruneBelow (p.locate t.here)).at?
            (p.locate (t.pruneBelow (p.locate t.here)).here) = some .folder := by
          show (t.pruneBelow (p.locate t.here)).at? (p.locate t.here) = _
          rw [at?_pruneBelow, if_neg (by simp [isBelow]), hat]
        rcases hempty : (t.pruneBelow (p.locate t.here)).removeEmpty p with ⟨r, u⟩
        obtain ⟨hthere, hgone⟩ :=
          removeEmpty_erases hp hthere (children_pruneBelow t (p.locate t.here)) hempty
        rw [removeFolder_of_folder hg hat hempty hthere] at h ⊢
        exact hgone (h.resolve_right hthere) l hl

/-- A file that a plain path names is gone where it could be removed, or was not found. -/
theorem removeFile_erases {p : Path} (hp : p.IsPlain)
    (h : (t.removeFile p).1 = .ok () ∨ (t.removeFile p).1 = .error .notFound) :
    (t.removeFile p).2.at? (p.locate t.here) = none := by
  rcases removeFile_cases t p with ⟨fault, heq⟩ | ⟨content, modified, hat, heq⟩
  · rw [heq] at h ⊢
    rcases h with h | h
    · cases h
    cases h
    cases hat : t.at? (p.locate t.here) with
    | none => rfl
    | some e =>
      have hfound := goal_ne_notFound hp hat
      unfold removeFile at heq
      cases hg : t.goal p with
      | error fault =>
        rw [hg] at heq
        cases heq
        exact absurd hg hfound
      | ok g =>
        rw [← goal_location hg] at hat
        simp only [hg, hat] at heq
        cases e with
        | folder => cases heq
        | file content modified => cases hend : g.ending <;> simp only [hend] at heq <;> cases heq
  · rw [heq, at?_prune_file hat, if_pos rfl]

end FileTree

end ShaderBuild
