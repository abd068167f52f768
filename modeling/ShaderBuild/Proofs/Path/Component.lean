import ShaderBuild.Proofs.Path.Location

/-!
# Components of paths that share a part

Joining puts a text in front of a path (`join_eq`), and the paths that are made so are compared part
by part. An underscore is part of a name, so it ties what stands in front of it in its segment to
what stands behind it (`exists_components`). Paths that agree up to an underscore are the same if
what follows is (`sameAs_append_left`), and paths that agree behind one are the same if what
precedes is (`sameAs_append_right`).
-/

namespace ShaderBuild.Path

/-- The path with the given text. -/
def ofChars (s : List Char) : Path := ⟨String.ofList s⟩

/-- What joining puts in front of a path: nothing if the path is absolute, and else the folder with
a slash at its end. -/
def front (folder : Path) (absolute : Bool) : List Char :=
  if absolute then [] else folder.text.toList.getLast?.elim [] fun c =>
    if c = '/' then folder.text.toList else folder.text.toList ++ ['/']

theorem join_eq (folder p : Path) :
    folder.join p = ofChars (folder.front p.isAbsolute ++ p.text.toList) := by
  have hself : p = ofChars p.text.toList := by
    simp [ofChars]
  unfold join front
  split
  · exact hself
  · cases folder.text.toList.getLast? with
    | none => exact hself
    | some c =>
      simp only [Option.elim_some]
      split <;> simp [ofChars, String.append_assoc]

/-- The components that some segments stand for, none of them the first one of a path. -/
def meanings (ss : List (List Char)) : List Component :=
  (ss.map String.ofList).filterMap Component.ofSegment?

theorem meanings_append (ss ss' : List (List Char)) :
    meanings (ss ++ ss') = meanings ss ++ meanings ss' := by
  simp [meanings]

/-- A segment with an underscore is a name. -/
theorem ofSegment?_of_underscore {s : List Char} (h : '_' ∈ s) :
    Component.ofSegment? (String.ofList s) = some (.name (String.ofList s)) := by
  have hne : ∀ t : String, '_' ∉ t.toList → String.ofList s ≠ t := by
    rintro t ht rfl
    rw [String.toList_ofList] at ht
    exact ht h
  unfold Component.ofSegment?
  rw [if_neg (not_or.2 ⟨hne "" (by decide), hne "." (by decide)⟩), if_neg (hne ".." (by decide))]

theorem meanings_cons_of_underscore {s : List Char} (h : '_' ∈ s) (ss : List (List Char)) :
    meanings (s :: ss) = .name (String.ofList s) :: meanings ss := by
  rw [meanings, List.map_cons, List.filterMap_cons_some (ofSegment?_of_underscore h), meanings]

/-! ## Behind a slash -/

/-- Behind a slash the segments of a path are not its first ones. -/
theorem components_append_slash (a z : List Char) :
    (ofChars (a ++ '/' :: z)).components
      = (ofChars (a ++ ['/'])).components ++ meanings (splitSlash z) := by
  have habsolute : (ofChars (a ++ '/' :: z)).isAbsolute = (ofChars (a ++ ['/'])).isAbsolute := by
    unfold isAbsolute ofChars
    cases a <;> simp
  obtain ⟨s, ss, hs⟩ := List.exists_cons_of_ne_nil (splitSlash_ne_nil a)
  have hsegments : ∀ z, (ofChars (a ++ '/' :: z)).segments
      = String.ofList s :: (ss ++ splitSlash z).map String.ofList := by
    intro z
    rw [segments, ofChars, String.toList_ofList, splitSlash_append_slash, hs]
    rfl
  have hempty : meanings (splitSlash []) = [] := rfl
  unfold components
  rw [hsegments, hsegments, habsolute]
  simp only
  rw [← meanings, ← meanings, meanings_append, meanings_append, hempty, List.append_nil,
    List.append_assoc]

/-! ## Behind an underscore -/

variable {x y z s : List Char} {ss : List (List Char)}

/-- A text without slashes goes into the first segment of what follows. -/
theorem splitSlash_append (h : '/' ∉ x) (hy : splitSlash y = s :: ss) :
    splitSlash (x ++ y) = (x ++ s) :: ss := by
  induction x with
  | nil => exact hy
  | cons c x ih =>
    rw [List.mem_cons, not_or] at h
    rw [List.cons_append, splitSlash, if_neg (Ne.symm h.1), ih h.2]
    rfl

/-- **What an underscore ties together.** The components in front of it and the text in front of it
in its segment depend on what precedes the underscore alone, the rest on what follows. -/
theorem exists_components (x : List Char) : ∃ front last, ∀ y s ss, splitSlash y = s :: ss →
    (ofChars (x ++ '_' :: y)).components
      = front ++ .name (String.ofList (last ++ '_' :: s)) :: meanings ss := by
  have hsegment : ∀ b : List Char, '/' ∉ b → ∀ y s ss, splitSlash y = s :: ss →
      splitSlash (b ++ '_' :: y) = (b ++ '_' :: s) :: ss := by
    intro b hb y s ss hy
    exact splitSlash_append hb (splitSlash_append (x := ['_']) (by decide) hy)
  by_cases hx : '/' ∈ x
  -- the segment of the underscore starts behind the last slash
  · obtain ⟨b, a, hreverse, hb⟩ := List.eq_append_cons_of_mem (List.mem_reverse.2 hx)
    obtain rfl : x = a.reverse ++ '/' :: b.reverse := by
      rw [← x.reverse_reverse, hreverse]
      simp
    replace hb : '/' ∉ b.reverse := mt List.mem_reverse.1 hb
    refine ⟨(ofChars (a.reverse ++ ['/'])).components, b.reverse, fun y s ss hy => ?_⟩
    rw [List.append_assoc, List.cons_append, components_append_slash, hsegment _ hb y s ss hy,
      meanings_cons_of_underscore (by simp)]
  · refine ⟨[], x, fun y s ss hy => ?_⟩
    have habsolute : (ofChars (x ++ '_' :: y)).isAbsolute = false := by
      unfold isAbsolute ofChars
      cases x with
      | nil => simp
      | cons c x =>
        rw [List.mem_cons, not_or] at hx
        simp [Ne.symm hx.1]
    have hname := ofSegment?_of_underscore (s := x ++ '_' :: s) (by simp)
    have hdot : String.ofList (x ++ '_' :: s) ≠ "." := by
      intro heq
      rw [heq] at hname
      cases hname
    unfold components
    rw [segments, ofChars, String.toList_ofList, hsegment x hx y s ss hy]
    rw [ofChars] at habsolute
    simp only [List.map_cons, habsolute, if_neg hdot, hname]
    rfl

/-- Paths with the same beginning, up to an underscore. -/
theorem sameAs_append_left (x : List Char) {y y' : List Char} :
    (ofChars (x ++ '_' :: y)).sameAs (ofChars (x ++ '_' :: y')) =
      (ofChars ('_' :: y)).sameAs (ofChars ('_' :: y')) := by
  obtain ⟨s, ss, hy⟩ := List.exists_cons_of_ne_nil (splitSlash_ne_nil y)
  obtain ⟨s', ss', hy'⟩ := List.exists_cons_of_ne_nil (splitSlash_ne_nil y')
  have hiff : ∀ x : List Char, (ofChars (x ++ '_' :: y)).sameAs (ofChars (x ++ '_' :: y')) = true ↔
      s = s' ∧ meanings ss = meanings ss' := by
    intro x
    obtain ⟨front, last, hx⟩ := exists_components x
    rw [sameAs_iff, hx y s ss hy, hx y' s' ss' hy', List.append_cancel_left_eq, List.cons.injEq,
      Component.name.injEq, String.ofList_inj, List.append_cancel_left_eq, List.cons.injEq]
    simp
  rw [Bool.eq_iff_iff, hiff x]
  exact (hiff []).symm

/-- Paths with the same end, behind an underscore and so many characters without a slash. -/
theorem sameAs_append_right {a a' : List Char} (ha : '/' ∉ a) (ha' : '/' ∉ a')
    (hlength : a.length = a'.length) {x w : List Char} (z : List Char) :
    (ofChars (x ++ '_' :: (a ++ z))).sameAs (ofChars (w ++ '_' :: (a' ++ z))) = true ↔
      (ofChars (x ++ ['_'])).sameAs (ofChars (w ++ ['_'])) = true ∧ a = a' := by
  obtain ⟨front, last, hx⟩ := exists_components x
  obtain ⟨front', last', hx'⟩ := exists_components w
  obtain ⟨s, ss, hz⟩ := List.exists_cons_of_ne_nil (splitSlash_ne_nil z)
  rw [sameAs_iff, sameAs_iff, hx _ _ _ (splitSlash_append ha hz),
    hx' _ _ _ (splitSlash_append ha' hz), hx [] [] [] rfl, hx' [] [] [] rfl]
  have hends : ∀ (n n' : Component) (back : List Component),
      front ++ n :: back = front' ++ n' :: back ↔ front = front' ∧ n = n' := by
    intro n n' back
    rw [List.append_cons, List.append_cons front', List.append_cancel_right_eq]
    constructor
    · intro h
      obtain ⟨hfront, hn⟩ := List.append_inj' h rfl
      exact ⟨hfront, (List.cons.inj hn).1⟩
    · rintro ⟨rfl, rfl⟩
      rfl
  rw [hends, hends, Component.name.injEq, Component.name.injEq, String.ofList_inj,
    String.ofList_inj, and_assoc, and_congr_right_iff]
  rintro -
  constructor
  · intro h
    obtain ⟨hlast, hbehind⟩ := List.append_inj' h (by simp [hlength])
    simp only [List.cons.injEq, true_and, List.append_cancel_right_eq] at hbehind
    exact ⟨by rw [hlast], hbehind⟩
  · rintro ⟨hlast, rfl⟩
    rw [List.append_cancel_right hlast]

end ShaderBuild.Path
