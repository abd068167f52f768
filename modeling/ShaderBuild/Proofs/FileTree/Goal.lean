import ShaderBuild.Proofs.Path.Location

/-!
# Following paths in a tree

A path can be followed when all of it but the last segment leads into folders (`Follows`), and
then it leads to its location (`goal_location`). A path that leads to a file can be followed in
its normal form as well (`read_normalize`).
-/

namespace ShaderBuild.FileTree

open Path

variable {t : FileTree}

/-! ## Folders on the way -/

/-- From a location, every segment in turn leads into a folder. -/
def Follows (t : FileTree) (start : Location) (ss : List String) : Prop :=
  ∀ pre, pre <+: ss → t.at? (pre.foldl step start) = some .folder

theorem follows_nil_iff {start : Location} : t.Follows start [] ↔ t.at? start = some .folder := by
  constructor
  · intro h
    exact h [] List.prefix_rfl
  · intro h pre hpre
    rw [List.prefix_nil.1 hpre]
    exact h

theorem follows_cons_iff {start : Location} {s : String} {ss : List String} :
    t.Follows start (s :: ss) ↔ t.at? start = some .folder ∧ t.Follows (step start s) ss := by
  constructor
  · intro h
    exact ⟨h [] List.nil_prefix, fun pre hpre => h (s :: pre) (List.cons_prefix_cons.2 ⟨rfl, hpre⟩)⟩
  · rintro ⟨hstart, hrest⟩ pre hpre
    cases pre with
    | nil => exact hstart
    | cons s' pre =>
      obtain ⟨rfl, hpre'⟩ := List.cons_prefix_cons.1 hpre
      exact hrest pre hpre'

theorem enter_ok_iff {l l' : Location} {s : String} :
    t.enter l s = .ok l' ↔ t.at? (step l s) = some .folder ∧ l' = step l s := by
  unfold enter
  split
  · next h =>
    rw [h]
    constructor
    · intro heq
      cases heq
      exact ⟨rfl, rfl⟩
    · rintro ⟨-, rfl⟩
      rfl
  · next h => simp [h]
  · next h => simp [h]

theorem foldlM_enter_ok_iff {ss : List String} {l l' : Location} (hl : t.at? l = some .folder) :
    ss.foldlM t.enter l = .ok l' ↔ t.Follows l ss ∧ l' = ss.foldl step l := by
  induction ss generalizing l with
  | nil =>
    rw [follows_nil_iff]
    constructor
    · intro h
      cases h
      exact ⟨hl, rfl⟩
    · rintro ⟨-, rfl⟩
      rfl
  | cons s ss ih =>
    rw [List.foldlM_cons, follows_cons_iff, List.foldl_cons]
    cases hs : t.enter l s with
    | error fault =>
      constructor
      · intro h
        cases h
      · rintro ⟨⟨-, hrest⟩, -⟩
        have : t.enter l s = .ok (step l s) := enter_ok_iff.2 ⟨hrest [] List.nil_prefix, rfl⟩
        rw [hs] at this
        cases this
    | ok m =>
      obtain ⟨hm, rfl⟩ := enter_ok_iff.1 hs
      show ss.foldlM t.enter (step l s) = .ok l' ↔ _
      rw [ih hm]
      simp [hl]

/-! ## Goals -/

/-- The folder that a path starts from. -/
def start (t : FileTree) (p : Path) : Location := if p.isAbsolute then [] else t.here

/-- How a path ends whose last segment is known. -/
def ending (p : Path) (last : String) : Ending :=
  if last = "." then .dot
  else if last = ".." then .up
  else if p.text.toList.getLast? = some '/' then .slash
  else .name

theorem goal_of_nil {p : Path} (h : p.segments.filter (· ≠ "") = []) :
    t.goal p = if p.isAbsolute then .ok ⟨[], .dot⟩ else .error .notFound := by
  unfold goal
  simp only [h, List.getLast?_nil]

/-- A path leads somewhere when all of it but the last segment can be followed. -/
theorem goal_ok_iff {p : Path} {init : List String} {last : String} {g : Goal}
    (h : p.segments.filter (· ≠ "") = init ++ [last]) :
    t.goal p = .ok g ↔ t.Follows (t.start p) init ∧ g = ⟨p.locate t.here, ending p last⟩ := by
  have hlocate : p.locate t.here = step (init.foldl step (t.start p)) last := by
    rw [locate, h, List.foldl_append]
    rfl
  unfold goal
  simp only [h, List.getLast?_append, List.getLast?_singleton, Option.some_or,
    List.dropLast_concat]
  rw [← start]
  have hdot : step (t.start p) "." = t.start p := by simp [step]
  cases hstart : t.enter (t.start p) "." with
  | error fault =>
    constructor
    · intro heq
      cases heq
    · rintro ⟨hfollows, -⟩
      have hfolder := hfollows [] List.nil_prefix
      have : t.enter (t.start p) "." = .ok (t.start p) :=
        enter_ok_iff.2 ⟨by rw [hdot]; exact hfolder, hdot.symm⟩
      rw [hstart] at this
      cases this
  | ok l =>
    obtain ⟨hfolder, rfl⟩ := enter_ok_iff.1 hstart
    rw [hdot] at hfolder ⊢
    simp only [bind, Except.bind]
    cases hfold : init.foldlM t.enter (t.start p) with
    | error fault =>
      constructor
      · intro heq
        cases heq
      · rintro ⟨hfollows, -⟩
        have := (foldlM_enter_ok_iff hfolder).2 ⟨hfollows, rfl⟩
        rw [hfold] at this
        cases this
    | ok folder =>
      obtain ⟨hfollows, rfl⟩ := (foldlM_enter_ok_iff hfolder).1 hfold
      simp only [pure, Except.pure, Except.ok.injEq, hfollows, true_and, hlocate]
      exact eq_comm

/-- A path that can be followed leads to its location. -/
theorem goal_location {p : Path} {g : Goal} (h : t.goal p = .ok g) :
    g.location = p.locate t.here := by
  rcases List.eq_nil_or_concat (p.segments.filter (· ≠ "")) with hnil | ⟨init, last, hlast⟩
  · rw [goal_of_nil hnil] at h
    split at h
    · next habsolute =>
      cases h
      rw [locate, hnil, if_pos habsolute]
      rfl
    · cases h
  · rw [List.concat_eq_append] at hlast
    obtain ⟨-, rfl⟩ := (goal_ok_iff hlast).1 h
    rfl

/-! ## Files -/

theorem find_ok {p : Path} {e : Entry} (h : t.find p = .ok e) :
    ∃ g, t.goal p = .ok g ∧ t.at? g.location = some e ∧
      ((∃ content modified, e = .file content modified) → g.ending ≠ .slash) := by
  unfold find at h
  cases hg : t.goal p with
  | error fault =>
    rw [hg] at h
    cases h
  | ok g =>
    rw [hg] at h
    simp only [bind, Except.bind] at h
    split at h
    · cases h
    · cases h
    · next hat hslash =>
      cases h
      refine ⟨g, rfl, hat, ?_⟩
      rintro ⟨content, modified, rfl⟩ hending
      exact hslash content modified hending rfl

theorem find_of_goal {p : Path} {g : Goal} {e : Entry} (hg : t.goal p = .ok g)
    (hat : t.at? g.location = some e) (hending : g.ending ≠ .slash) : t.find p = .ok e := by
  unfold find
  rw [hg]
  simp only [bind, Except.bind, hat]
  cases e with
  | folder => rfl
  | file content modified =>
    cases hg : g.ending with
    | slash => exact absurd hg hending
    | name => rfl
    | dot => rfl
    | up => rfl

/-- What a path leads to is at its location. -/
theorem at?_of_find {p : Path} {e : Entry} (h : t.find p = .ok e) :
    t.at? (p.locate t.here) = some e := by
  obtain ⟨g, hg, hat, -⟩ := find_ok h
  rw [← goal_location hg]
  exact hat

theorem read_ok_iff {p : Path} {content : List UInt8} {modified : Timestamp} :
    t.read p = .ok (content, modified) ↔ t.find p = .ok (.file content modified) := by
  unfold read
  cases t.find p with
  | error fault => simp [bind, Except.bind]
  | ok e =>
    cases e <;> simp [bind, Except.bind, pure, Except.pure, throw, throwThe, MonadExceptOf.throw]

theorem at?_of_read {p : Path} {content : List UInt8} {modified : Timestamp}
    (h : t.read p = .ok (content, modified)) :
    t.at? (p.locate t.here) = some (.file content modified) :=
  at?_of_find (read_ok_iff.1 h)

/-- A text is read from a file that holds it. -/
theorem readText_ok_iff {p : Path} {text : List Char} :
    t.readText p = .ok text ↔ ∃ modified, t.read p = .ok (Text.encode text, modified) := by
  unfold readText
  constructor
  · intro h
    cases hr : t.read p with
    | error fault =>
      rw [hr] at h
      cases h
    | ok r =>
      rw [hr] at h
      simp only [bind, Except.bind] at h
      split at h
      · next decoded hdecoded =>
        cases h
        exact ⟨r.2, by rw [← Text.eq_encode_of_decode? hdecoded]⟩
      · cases h
  · rintro ⟨modified, hr⟩
    rw [hr]
    simp only [bind, Except.bind, Text.decode?_encode]
    rfl

/-- The file at the location of a path: its bytes and its modification time. -/
def file? (t : FileTree) (p : Path) : Option (List UInt8 × Timestamp) :=
  match t.at? (p.locate t.here) with
  | some (.file content modified) => some (content, modified)
  | _ => none

/-- The bytes of the file at the location of a path. -/
def content? (t : FileTree) (p : Path) : Option (List UInt8) := (t.file? p).map (·.1)

/-- The modification time of the file at the location of a path. -/
def modified? (t : FileTree) (p : Path) : Option Timestamp := (t.file? p).map (·.2)

theorem file?_eq_some_iff {p : Path} {content : List UInt8} {modified : Timestamp} :
    t.file? p = some (content, modified) ↔
      t.at? (p.locate t.here) = some (.file content modified) := by
  unfold file?
  split
  · next h => rw [h]; simp
  · next h =>
    constructor
    · intro heq
      cases heq
    · intro heq
      exact absurd heq (h content modified)

theorem file?_of_read {p : Path} {content : List UInt8} {modified : Timestamp}
    (h : t.read p = .ok (content, modified)) : t.file? p = some (content, modified) :=
  file?_eq_some_iff.2 (at?_of_read h)

theorem content?_eq_some_iff {p : Path} {content : List UInt8} :
    t.content? p = some content ↔ ∃ modified, t.file? p = some (content, modified) := by
  unfold content?
  simp

/-- A path that leads to a file ends with a name. -/
theorem goal_of_file {p : Path} {content : List UInt8} {modified : Timestamp}
    (h : t.find p = .ok (.file content modified)) : ∃ init last,
      p.segments.filter (· ≠ "") = init ++ [last] ∧ last ≠ "." ∧ last ≠ ".." ∧
      t.Follows (t.start p) init ∧ t.goal p = .ok ⟨p.locate t.here, .name⟩ := by
  obtain ⟨g, hg, hat, hslash⟩ := find_ok h
  rcases List.eq_nil_or_concat (p.segments.filter (· ≠ "")) with hnil | ⟨init, last, hlast⟩
  · -- a path without segments can only lead to the root
    rw [goal_of_nil hnil] at hg
    split at hg
    · cases hg
      rw [at?_root] at hat
      cases hat
    · cases hg
  · rw [List.concat_eq_append] at hlast
    obtain ⟨hfollows, rfl⟩ := (goal_ok_iff hlast).1 hg
    have hfolder := hfollows init List.prefix_rfl
    have hstep : p.locate t.here = step (init.foldl step (t.start p)) last := by
      rw [locate, hlast, List.foldl_append]
      rfl
    have hdot : last ≠ "." := by
      rintro rfl
      rw [hstep, step, if_pos rfl, hfolder] at hat
      cases hat
    have hup : last ≠ ".." := by
      rintro rfl
      rw [hstep, step, if_neg hdot, if_pos rfl, at?_dropLast hfolder] at hat
      cases hat
    refine ⟨init, last, hlast, hdot, hup, hfollows, ?_⟩
    have hname : ending p last = .name := by
      unfold ending
      rw [if_neg hdot, if_neg hup]
      split
      · next hend =>
        refine absurd ?_ (hslash ⟨content, modified, rfl⟩)
        unfold ending
        rw [if_neg hdot, if_neg hup, if_pos hend]
      · rfl
    rw [hg, hname]

/-! ## Entries of folders -/

/-- A path that leads to a folder can be followed to its end. -/
theorem follows_of_folder {p : Path} (h : t.find p = .ok .folder) :
    t.Follows (t.start p) (p.segments.filter (· ≠ "")) := by
  obtain ⟨g, hg, hat, -⟩ := find_ok h
  rcases List.eq_nil_or_concat (p.segments.filter (· ≠ "")) with hnil | ⟨init, last, hlast⟩
  · rw [goal_of_nil hnil] at hg
    split at hg
    · next habsolute =>
      rw [hnil, follows_nil_iff, start, if_pos habsolute]
      exact at?_root t
    · cases hg
  · rw [List.concat_eq_append] at hlast
    rw [goal_location hg] at hat
    obtain ⟨hfollows, -⟩ := (goal_ok_iff hlast).1 hg
    rw [hlast]
    intro pre hpre
    rcases List.prefix_concat_iff.1 hpre with rfl | hpre
    · rw [locate, hlast] at hat
      exact hat
    · exact hfollows pre hpre

theorem getLast?_child {p : Path} {n : String} (h : IsName n) :
    (p.child n).text.toList.getLast? ≠ some '/' := by
  have hn : n.toList.getLast? ≠ some '/' := fun hlast => h.2.2.2 (List.mem_of_getLast? hlast)
  have hend : ∀ l, (l ++ n.toList).getLast? ≠ some '/' := by
    intro l
    rw [List.getLast?_append]
    cases hlast : n.toList.getLast? with
    | none => exact absurd (List.getLast?_eq_none_iff.1 hlast) h.toList_ne_nil
    | some c => rwa [hlast] at hn
  unfold child join
  split
  · exact hn
  · split
    · exact hn
    · split <;> rw [String.toList_append] <;> exact hend _

/-- An entry of a folder can be followed when the folder can. -/
theorem goal_child {p : Path} {n : String} (hn : IsName n)
    (h : t.Follows (t.start p) (p.segments.filter (· ≠ ""))) :
    t.goal (p.child n) = .ok ⟨(p.child n).locate t.here, .name⟩ := by
  obtain ⟨hsegments, habsolute⟩ := segments_child (p := p) hn
  refine (goal_ok_iff hsegments).2 ⟨?_, ?_⟩
  · unfold start at h ⊢
    rwa [habsolute]
  · unfold ending
    rw [if_neg hn.2.1, if_neg hn.2.2.1, if_neg (getLast?_child hn)]

/-! ## Normal forms -/

theorem suffix_pushSegment {st st' : List Component} {s : String}
    (h : st' <:+ pushSegment st s) : st' = pushSegment st s ∨ st' <:+ st := by
  unfold pushSegment at h ⊢
  split at h
  · exact .inr h
  · next hdot =>
    rw [if_neg hdot]
    unfold push at h ⊢
    split at h
    · exact .inr h
    · exact .inr (h.trans (List.suffix_cons _ _))
    · exact .inr h
    · exact List.suffix_cons_iff.1 h

/-- When segments can be followed, the folders of the resolved path are there. -/
theorem folder_of_follows (here : Location) (bottom : List Component) {ss : List String}
    {st : List Component} (hst : ∀ st', st' <:+ st → bottom <:+ st' →
      t.at? (locateStack here st') = some .folder)
    (h : t.Follows (locateStack here st) ss) : ∀ st', st' <:+ ss.foldl pushSegment st →
      bottom <:+ st' → t.at? (locateStack here st') = some .folder := by
  induction ss generalizing st with
  | nil => exact hst
  | cons s ss ih =>
    obtain ⟨-, hrest⟩ := follows_cons_iff.1 h
    rw [← locateStack_pushSegment] at hrest
    refine ih (fun st' hsuffix hbottom => ?_) hrest
    rcases suffix_pushSegment hsuffix with rfl | hsuffix
    · exact hrest [] List.nil_prefix
    · exact hst st' hsuffix hbottom

/-- A file is found over the normal form of its path too. -/
theorem find_normalize {p : Path} {content : List UInt8} {modified : Timestamp}
    (h : t.find p = .ok (.file content modified)) :
    t.find p.normalize = .ok (.file content modified) := by
  have hat := at?_of_find h
  obtain ⟨init, last, hlast, hdot, hup, hfollows, -⟩ := goal_of_file h
  -- the last segment stays, the others resolve to the folders on the way
  obtain ⟨around, haround, hsteps, hnames, hend, hname⟩ :=
    segments_normalize_of_name hlast hdot hup
  obtain ⟨-, -, -, -, -, habsolute⟩ := segments_normalize p
  have hfolders := folder_of_follows t.here p.base
    (fun st' hsuffix hbottom => by
      rw [hsuffix.eq_of_length_le hbottom.length_le, locateStack_base]
      exact hfollows [] List.nil_prefix)
    (by rw [locateStack_base]; exact hfollows)
  have hstart : t.start p.normalize = t.start p := by
    unfold start
    rw [habsolute]
  have hgoal : t.goal p.normalize = .ok ⟨p.normalize.locate t.here, ending p.normalize last⟩ := by
    refine (goal_ok_iff hnames).2 ⟨?_, rfl⟩
    intro front hfront
    obtain ⟨kept, hkept, rfl⟩ := List.prefix_map_iff.1 hfront
    have hkept' : kept.reverse <:+ around := by
      rw [← List.reverse_prefix, List.reverse_reverse]
      exact hkept
    rw [hstart, foldl_step_segment _ fun c hc => hsteps c (List.mem_reverse.1 (hkept.subset hc))]
    have hfolder := hfolders (kept.reverse ++ p.base)
      (by rw [haround]; exact List.suffix_append_self_iff.2 hkept') (List.suffix_append _ _)
    rw [locateStack, List.foldr_append, List.foldr_reverse, ← locateStack, locateStack_base]
      at hfolder
    exact hfolder
  refine find_of_goal hgoal (by rw [locate_normalize]; exact hat) ?_
  -- a slash at the end would leave an empty last segment
  unfold ending
  rw [if_neg hdot, if_neg hup]
  split
  · next hslash =>
    rw [getLast?_segments_of_slash hslash] at hend
    cases hend
    exact absurd rfl hname.1
  · simp

/-- A file is read over the normal form of its path too. -/
theorem read_normalize {p : Path} {content : List UInt8} {modified : Timestamp}
    (h : t.read p = .ok (content, modified)) : t.read p.normalize = .ok (content, modified) :=
  read_ok_iff.2 (find_normalize (read_ok_iff.1 h))

end ShaderBuild.FileTree
