import ShaderBuild.Proofs.Target.Splice

/-!
# Rewriting the regions of a header

A text whose regions lie apart is a row of them with text in between (`exists_row`). Replacing one
of them leaves every other one as it is, so the text stays such a row (`Row.fill`), and replacing
all of them, in any order, fills each once (`Row.spliceAll`). Where a tag has no region, the ones
in front of it give it none, and nothing is written.

Main statement: `replace_rewrites_regions`.
-/

namespace ShaderBuild.Target

open Action FileTree Text

/-! ## What is asked of the regions and of the text -/

/-- Regions with different tags of letters, whose contents hold no marker of any of the tags. -/
structure Proper (regions : List Region) : Prop where
  tags : ∀ r ∈ regions, IsTag r.tag.toList
  distinct : (regions.map (·.tag)).Nodup
  opening : ∀ r ∈ regions, ∀ q ∈ regions,
    occurrences (openingWord r.tag.toList) q.content.toList = 0
  closing : ∀ r ∈ regions, ∀ q ∈ regions,
    occurrences (closingWord r.tag.toList) q.content.toList = 0

-- the instance is named, since one that tries all characters would be found first
instance (tag : List Char) : Decidable (IsTag tag) := List.decidableBAll _ tag

instance (regions : List Region) : Decidable (Proper regions) :=
  decidable_of_iff
    ((∀ r ∈ regions, IsTag r.tag.toList) ∧ (regions.map (·.tag)).Nodup ∧
      ∀ r ∈ regions, ∀ q ∈ regions, occurrences (openingWord r.tag.toList) q.content.toList = 0 ∧
        occurrences (closingWord r.tag.toList) q.content.toList = 0)
    ⟨fun h => ⟨h.1, h.2.1, fun r hr q hq => (h.2.2 r hr q hq).1,
        fun r hr q hq => (h.2.2 r hr q hq).2⟩,
      fun h => ⟨h.tags, h.distinct, fun r hr q hq => ⟨h.opening r hr q hq, h.closing r hr q hq⟩⟩⟩

theorem Proper.perm {regions regions' : List Region} (h : Proper regions)
    (hperm : regions'.Perm regions) : Proper regions' where
  tags r hr := h.tags r (hperm.subset hr)
  distinct := (hperm.map _).nodup_iff.2 h.distinct
  opening r hr q hq := h.opening r (hperm.subset hr) q (hperm.subset hq)
  closing r hr q hq := h.closing r (hperm.subset hr) q (hperm.subset hq)

theorem Proper.front {front back : List Region} (h : Proper (front ++ back)) : Proper front where
  tags r hr := h.tags r (List.mem_append_left _ hr)
  distinct := (List.map_append ▸ h.distinct).of_append_left
  opening r hr q hq := h.opening r (List.mem_append_left _ hr) q (List.mem_append_left _ hq)
  closing r hr q hq := h.closing r (List.mem_append_left _ hr) q (List.mem_append_left _ hq)

/-- A text where each marker of the regions occurs once, the opening one in front of the closing
one, and where the regions with their markers lie apart. -/
structure Delimited (regions : List Region) (text : List Char) : Prop where
  opening : ∀ r ∈ regions, occurrences (openingWord r.tag.toList) text = 1
  closing : ∀ r ∈ regions, occurrences (closingWord r.tag.toList) text = 1
  ordered : ∀ r ∈ regions, ∃ x : Place, x.Of r.tag.toList text
  apart : ∀ r ∈ regions, ∀ q ∈ regions, r.tag ≠ q.tag → ∀ x y : Place,
    x.Of r.tag.toList text → y.Of q.tag.toList text → x.stop ≤ y.start ∨ y.stop ≤ x.start

/-- The same of the places where the regions are found. -/
def FoundApart (regions : List Region) (text : List Char) : Prop :=
  (∀ r ∈ regions, occurrences (openingWord r.tag.toList) text = 1 ∧
    occurrences (closingWord r.tag.toList) text = 1 ∧
    (place? r.tag.toList text).isSome = true) ∧
  ∀ r ∈ regions, ∀ q ∈ regions, r.tag ≠ q.tag →
    ∀ x ∈ place? r.tag.toList text, ∀ y ∈ place? q.tag.toList text,
      x.stop ≤ y.start ∨ y.stop ≤ x.start

instance (regions : List Region) (text : List Char) : Decidable (FoundApart regions text) :=
  inferInstanceAs (Decidable (_ ∧ _))

/-- **Where regions lie is told from where they are found** -/
theorem delimited_iff {regions : List Region} {text : List Char}
    (tags : ∀ r ∈ regions, IsTag r.tag.toList) :
    Delimited regions text ↔ FoundApart regions text := by
  constructor
  · intro h
    refine ⟨fun r hr => ⟨h.opening r hr, h.closing r hr,
      (isSome_place?_iff (tags r hr)).2 (h.ordered r hr)⟩, ?_⟩
    intro r hr q hq hne x hx y hy
    exact h.apart r hr q hq hne x y (place?_eq_some (tags r hr) hx) (place?_eq_some (tags q hq) hy)
  · rintro ⟨hfound, hapart⟩
    refine ⟨fun r hr => (hfound r hr).1, fun r hr => (hfound r hr).2.1,
      fun r hr => (isSome_place?_iff (tags r hr)).1 (hfound r hr).2.2, ?_⟩
    have hplace : ∀ r ∈ regions, ∀ x : Place, x.Of r.tag.toList text →
        place? r.tag.toList text = some x := fun r hr x hx =>
      place?_of_sole (tags r hr) (hfound r hr).1.le (hfound r hr).2.1.le hx
    intro r hr q hq hne x y hx hy
    exact hapart r hr q hq hne x (hplace r hr x hx) y (hplace q hq y hy)

/-! ## Rows of regions -/

/-- A region in a text, with the text between it and the one in front of it. -/
structure Section where
  region : Region
  before : List Char
  opening : List Char
  inside : List Char
  closing : List Char

namespace Section

/-- The text of a section. -/
def text (x : Section) : List Char := x.before ++ (x.opening ++ (x.inside ++ x.closing))

/-- The section stands between the markers of its tag. -/
def Marked (x : Section) : Prop :=
  IsMarker (openingWord x.region.tag.toList) x.opening ∧
    IsMarker (closingWord x.region.tag.toList) x.closing

/-- The section with the content of its region. -/
def filled (x : Section) : Section := { x with inside := '\n' :: x.region.content.toList }

/-- The section with the content of its region, if that is the given one. -/
def fill (r : Region) (x : Section) : Section := if x.region = r then x.filled else x

theorem fill_of_ne {r : Region} {x : Section} (h : x.region ≠ r) : fill r x = x := if_neg h

@[simp] theorem region_filled (x : Section) : x.filled.region = x.region := rfl

@[simp] theorem region_fill (r : Region) (x : Section) : (fill r x).region = x.region := by
  unfold fill
  split <;> rfl

@[simp] theorem filled_filled (x : Section) : x.filled.filled = x.filled := rfl

theorem Marked.fill {x : Section} (h : x.Marked) (r : Region) : (Section.fill r x).Marked := by
  unfold Section.fill
  split <;> exact h

/-- The place of a section between two texts. -/
def place (x : Section) (front back : List Char) : Place :=
  ⟨front ++ x.before, x.opening, x.inside, x.closing, back⟩

end Section

/-- The text of a row of sections with a rest behind it. -/
def joined (row : List Section) (rest : List Char) : List Char := row.flatMap Section.text ++ rest

theorem joined_cons (x : Section) (row : List Section) (rest : List Char) :
    joined (x :: row) rest = x.text ++ joined row rest := by
  rw [joined, List.flatMap_cons, List.append_assoc, joined]

theorem joined_append (row row' : List Section) (rest : List Char) :
    joined (row ++ row') rest = joined row (joined row' rest) := by
  simp only [joined, List.flatMap_append, List.append_assoc]

variable {text rest : List Char} {row : List Section} {regions : List Region}

/-- A marked section is at a place of its tag in the text of its row. -/
theorem Section.Marked.of_joined {x : Section} (h : x.Marked) (front back : List Section)
    (rest : List Char) : (x.place (front.flatMap Section.text) (joined back rest)).Of
      x.region.tag.toList (joined (front ++ x :: back) rest) where
  text_eq := by
    rw [joined_append, joined_cons]
    simp [joined, Section.place, Section.text, Place.head, Place.tail]
  opening := h.1
  closing := h.2

/-- A region apart from those of a row has its place between them, or in the rest. -/
theorem exists_insert {r : Region} {x : Place} (hx : x.Of r.tag.toList (joined row rest))
    (hmarked : ∀ y ∈ row, y.Marked)
    (hapart : ∀ front y back, row = front ++ y :: back →
      let z := y.place (front.flatMap Section.text) (joined back rest)
      x.stop ≤ z.start ∨ z.stop ≤ x.start) :
    ∃ row' rest', (row'.map (·.region)).Perm (r :: row.map (·.region)) ∧
      (∀ y ∈ row', y.Marked) ∧ joined row' rest' = joined row rest := by
  induction row generalizing x with
  | nil =>
    refine ⟨[⟨r, x.before, x.opening, x.inside, x.closing⟩], x.after, .refl _, ?_, ?_⟩
    · rw [List.forall_mem_singleton]
      exact ⟨hx.opening, hx.closing⟩
    · rw [hx.text_eq]
      simp [joined, Section.text, Place.head, Place.tail]
  | cons y row ih =>
    have htext : x.before ++ (x.opening ++ (x.inside ++ x.closing)) ++ x.after =
        y.text ++ joined row rest := by
      rw [← joined_cons, hx.text_eq]
      simp [Place.head, Place.tail]
    rcases hapart [] y row rfl with hstop | hstart
    · -- the region is in front of the first section
      have hprefix : x.before ++ (x.opening ++ (x.inside ++ x.closing)) <+: y.before :=
        List.prefix_of_prefix_length_le ⟨x.after, htext⟩
          ⟨y.opening ++ (y.inside ++ y.closing) ++ joined row rest, by simp [Section.text]⟩ hstop
      obtain ⟨between, hbetween⟩ := hprefix
      refine ⟨⟨r, x.before, x.opening, x.inside, x.closing⟩ :: { y with before := between } :: row,
        rest, .refl _, ?_, ?_⟩
      · rw [List.forall_mem_cons] at hmarked
        rw [List.forall_mem_cons, List.forall_mem_cons]
        exact ⟨⟨hx.opening, hx.closing⟩, hmarked⟩
      · rw [joined_cons, joined_cons, joined_cons]
        simp only [Section.text, ← hbetween, List.append_assoc]
    · -- the region is behind it
      have hprefix : y.text <+: x.before :=
        List.prefix_of_prefix_length_le ⟨joined row rest, htext.symm⟩
          ⟨_, List.append_assoc _ _ _ |>.symm⟩ hstart
      obtain ⟨before, hbefore⟩ := hprefix
      have hnext : ({ x with before := before } : Place).Of r.tag.toList (joined row rest) := by
        refine ⟨?_, hx.opening, hx.closing⟩
        have htext' := hx.text_eq
        rw [joined_cons, Place.head, ← hbefore] at htext'
        simp only [List.append_assoc, List.append_cancel_left_eq] at htext'
        rw [htext', Place.head]
        simp [Place.tail]
      rw [List.forall_mem_cons] at hmarked
      obtain ⟨row', rest', hregions, hmarked', htext'⟩ := ih hnext hmarked.2 <| by
        intro front z back hrow
        have hz := hapart (y :: front) z back (by rw [hrow, List.cons_append])
        simp only [Place.stop, Place.start, Section.place, List.flatMap_cons, List.length_append,
          ← hbefore] at hz ⊢
        omega
      refine ⟨y :: row', rest', ?_, List.forall_mem_cons.2 ⟨hmarked.1, hmarked'⟩, ?_⟩
      · exact (hregions.cons _).trans (.swap _ _ _)
      · rw [joined_cons, joined_cons, htext']

/-- **Regions that lie apart stand in a row** -/
theorem exists_row (hdistinct : (regions.map (·.tag)).Nodup) (h : Delimited regions text) :
    ∃ row rest, (row.map (·.region)).Perm regions ∧ (∀ x ∈ row, x.Marked) ∧
      joined row rest = text := by
  induction regions with
  | nil =>
    refine ⟨[], text, .refl _, ?_, rfl⟩
    intro x hx
    cases hx
  | cons r regions ih =>
    rw [List.map_cons, List.nodup_cons] at hdistinct
    have hrest : Delimited regions text :=
      { opening := fun q hq => h.opening q (List.mem_cons_of_mem _ hq)
        closing := fun q hq => h.closing q (List.mem_cons_of_mem _ hq)
        ordered := fun q hq => h.ordered q (List.mem_cons_of_mem _ hq)
        apart := fun q hq q' hq' =>
          h.apart q (List.mem_cons_of_mem _ hq) q' (List.mem_cons_of_mem _ hq') }
    obtain ⟨row, rest, hregions, hmarked, rfl⟩ := ih hdistinct.2 hrest
    obtain ⟨x, hx⟩ := h.ordered r List.mem_cons_self
    obtain ⟨row', rest', hregions', hmarked', htext⟩ := exists_insert hx hmarked <| by
      intro front y back hrow
      have hy : y ∈ row := hrow ▸ List.mem_append_right _ List.mem_cons_self
      have hregion : y.region ∈ regions := hregions.subset (List.mem_map_of_mem hy)
      refine h.apart r List.mem_cons_self y.region (List.mem_cons_of_mem _ hregion) ?_ x _ hx ?_
      · intro htag
        exact hdistinct.1 (htag ▸ List.mem_map_of_mem hregion)
      · rw [hrow]
        exact (hmarked y hy).of_joined front back rest
    exact ⟨row', rest', hregions'.trans (hregions.cons r), hmarked', htext⟩

/-! ## Filling a row -/

/-- Sections between their markers, which occur nowhere else in the text of the row. -/
structure Sole (row : List Section) (rest : List Char) : Prop where
  marked : ∀ x ∈ row, x.Marked
  opening : ∀ x ∈ row, occurrences (openingWord x.region.tag.toList) (joined row rest) ≤ 1
  closing : ∀ x ∈ row, occurrences (closingWord x.region.tag.toList) (joined row rest) ≤ 1

/-- A region fills no other section than its own. -/
theorem map_fill {x : Section} {front back : List Section}
    (hdistinct : ((front ++ x :: back).map (·.region.tag)).Nodup) :
    (front ++ x :: back).map (Section.fill x.region) = front ++ x.filled :: back := by
  rw [List.map_append, List.map_cons, List.nodup_append, List.nodup_cons] at hdistinct
  obtain ⟨-, ⟨hback, -⟩, hfront⟩ := hdistinct
  have hstays : ∀ row : List Section, (∀ y ∈ row, y.region ≠ x.region) →
      row.map (Section.fill x.region) = row := fun row hrow =>
    (List.map_congr_left fun y hy => Section.fill_of_ne (hrow y hy)).trans (List.map_id row)
  rw [List.map_append, List.map_cons, hstays front, hstays back, Section.fill, if_pos rfl]
  · intro y hy hregion
    exact hback (hregion ▸ List.mem_map_of_mem (f := fun z : Section => z.region.tag) hy)
  · intro y hy hregion
    exact hfront y.region.tag (List.mem_map_of_mem hy) x.region.tag List.mem_cons_self
      (congrArg Region.tag hregion)

/-- **Replacing one region of a row fills its section and leaves a row** -/
theorem Sole.splice (h : Sole row rest) (proper : Proper (row.map (·.region))) {r : Region}
    (hr : r ∈ row.map (·.region)) :
    splice r.tag.toList r.content.toList (joined row rest) =
        some (joined (row.map (Section.fill r)) rest) ∧
      Sole (row.map (Section.fill r)) rest := by
  obtain ⟨x, hx, rfl⟩ := List.mem_map.1 hr
  obtain ⟨front, back, rfl⟩ := List.append_of_mem hx
  have htag := proper.tags x.region hr
  have hplace := (h.marked x hx).of_joined front back rest
  have hdistinct := proper.distinct
  rw [List.map_map] at hdistinct
  have htext : joined ((front ++ x :: back).map (Section.fill x.region)) rest =
      (front.flatMap Section.text ++ x.before) ++ x.opening ++ '\n' :: x.region.content.toList
        ++ (x.closing ++ joined back rest) := by
    rw [map_fill hdistinct, joined_append, joined_cons]
    simp [joined, Section.filled, Section.text]
  refine ⟨?_, ?_, ?_, ?_⟩
  · rw [splice_eq_map, place?_of_sole htag (h.opening x hx) (h.closing x hx) hplace, htext]
    rfl
  · exact List.forall_mem_map.2 fun y hy => (h.marked y hy).fill _
  · refine List.forall_mem_map.2 fun y hy => ?_
    have hregion := List.mem_map_of_mem (f := Section.region) hy
    rw [Section.region_fill, htext]
    exact (occurrences_filled_le (proper.tags _ hregion).openingWord htag hplace
      (proper.opening _ hregion _ hr)).trans (h.opening y hy)
  · refine List.forall_mem_map.2 fun y hy => ?_
    have hregion := List.mem_map_of_mem (f := Section.region) hy
    rw [Section.region_fill, htext]
    exact (occurrences_filled_le (proper.tags _ hregion).closingWord htag hplace
      (proper.closing _ hregion _ hr)).trans (h.closing y hy)

theorem map_region_fill (r : Region) (row : List Section) :
    (row.map (Section.fill r)).map (·.region) = row.map (·.region) := by
  simp only [List.map_map, Function.comp_def, Section.region_fill]

/-- The section with the content of its region, if that is one of the given ones. -/
def Section.fillAll (rs : List Region) (x : Section) : Section :=
  if x.region ∈ rs then x.filled else x

theorem Section.fillAll_fill (r : Region) (rs : List Region) (x : Section) :
    Section.fillAll rs (Section.fill r x) = Section.fillAll (r :: rs) x := by
  unfold Section.fillAll
  rw [Section.region_fill]
  unfold Section.fill
  by_cases hr : x.region = r <;> by_cases hmem : x.region ∈ rs <;> simp [hr, hmem]

/-- **Replacing regions of a row fills their sections and leaves a row** -/
theorem Sole.spliceAll (h : Sole row rest) (proper : Proper (row.map (·.region)))
    {rs : List Region} (hrs : rs ⊆ row.map (·.region)) :
    spliceAll (joined row rest) rs = .ok (joined (row.map (Section.fillAll rs)) rest) ∧
      Sole (row.map (Section.fillAll rs)) rest := by
  induction rs generalizing row with
  | nil =>
    have hrow : row.map (Section.fillAll []) = row :=
      (List.map_congr_left fun x _ => if_neg List.not_mem_nil).trans (List.map_id row)
    rw [hrow]
    exact ⟨rfl, h⟩
  | cons r rs ih =>
    rw [List.cons_subset] at hrs
    obtain ⟨hsplice, hsole⟩ := h.splice proper hrs.1
    have hregions := map_region_fill r row
    have hrow : (row.map (Section.fill r)).map (Section.fillAll rs) =
        row.map (Section.fillAll (r :: rs)) := by
      rw [List.map_map]
      exact List.map_congr_left fun x _ => Section.fillAll_fill r rs x
    rw [Target.spliceAll, hsplice, ← hrow]
    exact ih hsole (by rwa [hregions]) (by rw [hregions]; exact hrs.2)

theorem Sole.of_delimited (h : Delimited regions (joined row rest))
    (hregions : (row.map (·.region)).Perm regions) (hmarked : ∀ x ∈ row, x.Marked) :
    Sole row rest where
  marked := hmarked
  opening _ hx := (h.opening _ (hregions.subset (List.mem_map_of_mem hx))).le
  closing _ hx := (h.closing _ (hregions.subset (List.mem_map_of_mem hx))).le

/-- In such a row a region reads what is inside its section. -/
theorem Sole.regionOf (h : Sole row rest) (proper : Proper (row.map (·.region))) {x : Section}
    (hx : x ∈ row) : regionOf x.region.tag.toList (joined row rest) = some x.inside := by
  have htag := proper.tags x.region (List.mem_map_of_mem hx)
  have hopening := h.opening x hx
  have hclosing := h.closing x hx
  obtain ⟨front, back, rfl⟩ := List.append_of_mem hx
  have hplace := (h.marked x hx).of_joined front back rest
  rw [regionOf_eq_map, place?_of_sole htag hopening hclosing hplace]
  rfl

/-- **A text whose regions lie apart is filled, in any order** -/
theorem exists_filled (proper : Proper regions) (h : Delimited regions text) :
    ∃ row rest, (row.map (·.region)).Perm regions ∧ (∀ x ∈ row, x.Marked) ∧
      joined row rest = text ∧
      (∀ r ∈ regions, r.ReadIn (joined (row.map Section.filled) rest)) ∧
      ∀ order : List Region, order.Perm regions →
        spliceAll text order = .ok (joined (row.map Section.filled) rest) ∧
        spliceAll (joined (row.map Section.filled) rest) order =
          .ok (joined (row.map Section.filled) rest) := by
  obtain ⟨row, rest, hregions, hmarked, rfl⟩ := exists_row proper.distinct h
  have hkept : (row.map Section.filled).map (·.region) = row.map (·.region) := by
    rw [List.map_map]
    rfl
  have proper' : Proper (row.map (·.region)) := proper.perm hregions
  have hfilled : ∀ order : List Region, order.Perm regions →
      spliceAll (joined row rest) order = .ok (joined (row.map Section.filled) rest) ∧
        Sole (row.map Section.filled) rest := by
    intro order horder
    have hfill : row.map (Section.fillAll order) = row.map Section.filled :=
      List.map_congr_left fun x hx =>
        if_pos (horder.symm.subset (hregions.subset (List.mem_map_of_mem hx)))
    rw [← hfill]
    exact (Sole.of_delimited h hregions hmarked).spliceAll proper'
      fun r hr => hregions.symm.subset (horder.subset hr)
  obtain ⟨-, hsole⟩ := hfilled regions (.refl _)
  have proper'' : Proper ((row.map Section.filled).map (·.region)) := by rwa [hkept]
  refine ⟨row, rest, hregions, hmarked, rfl, fun r hr => ?_, fun order horder =>
    ⟨(hfilled order horder).1, ?_⟩⟩
  · obtain ⟨x, hx, rfl⟩ := List.mem_map.1 (hregions.symm.subset hr)
    exact hsole.regionOf proper'' (List.mem_map_of_mem hx)
  · have hagain : (row.map Section.filled).map (Section.fillAll order) =
        row.map Section.filled := by
      rw [List.map_map]
      exact List.map_congr_left fun x hx =>
        if_pos (horder.symm.subset (hregions.subset (List.mem_map_of_mem hx)))
    have hsub : order ⊆ (row.map Section.filled).map (·.region) := by
      rw [hkept]
      exact fun r hr => hregions.symm.subset (horder.subset hr)
    have hsecond := (hsole.spliceAll proper'' hsub).1
    rwa [hagain] at hsecond

/-- Behind the replacement of regions that lie apart, each reads its content. -/
theorem reads_of_spliceAll (proper : Proper regions) (h : Delimited regions text)
    {new : List Char} (hnew : spliceAll text regions = .ok new) : ∀ r ∈ regions, r.ReadIn new := by
  obtain ⟨row, rest, -, -, -, hreads, hfilled⟩ := exists_filled proper h
  rw [(hfilled regions (.refl _)).1, Except.ok.injEq] at hnew
  rwa [hnew] at hreads

/-- Replacing regions that lie apart changes nothing exactly when each reads its content. -/
theorem spliceAll_eq_self_iff (proper : Proper regions) (h : Delimited regions text) :
    spliceAll text regions = .ok text ↔ ∀ r ∈ regions, r.ReadIn text :=
  ⟨reads_of_spliceAll proper h, spliceAll_of_reads⟩

/-! ## Regions that are missing -/

theorem spliceAll_append (text : List Char) (front back : List Region) :
    spliceAll text (front ++ back) = (spliceAll text front).bind fun mid => spliceAll mid back := by
  induction front generalizing text with
  | nil => rfl
  | cons r front ih =>
    rw [List.cons_append, Target.spliceAll, Target.spliceAll]
    split
    · rfl
    · exact ih _

theorem place_of_spliceAll (proper : Proper regions) {rs : List Region} (hrs : rs ⊆ regions)
    {r : Region} (hr : r ∈ regions) {new : List Char} (h : spliceAll text rs = .ok new)
    (hplace : ∃ y : Place, y.Of r.tag.toList new) : ∃ z : Place, z.Of r.tag.toList text := by
  induction rs generalizing text with
  | nil =>
    cases h
    exact hplace
  | cons q rs ih =>
    rw [List.cons_subset] at hrs
    rw [Target.spliceAll] at h
    split at h
    · cases h
    · next mid hsplice =>
      obtain ⟨x, hx, rfl⟩ := splice_eq_some (proper.tags q hrs.1) hsplice
      obtain ⟨y, hy⟩ := ih hrs.2 h
      exact hx.of_filled (proper.tags q hrs.1) (proper.tags r hr) (proper.opening r hr q hrs.1)
        (proper.closing r hr q hrs.1) hy

/-- Where all regions are replaced, each was there from the start. -/
theorem exists_place_of_spliceAll (proper : Proper regions) {rs : List Region}
    (hrs : rs ⊆ regions) {new : List Char} (h : spliceAll text rs = .ok new) :
    ∀ r ∈ rs, ∃ x : Place, x.Of r.tag.toList text := by
  intro r hr
  obtain ⟨front, back, rfl⟩ := List.append_of_mem hr
  rw [spliceAll_append] at h
  cases hfront : spliceAll text front with
  | error tag =>
    rw [hfront] at h
    cases h
  | ok mid =>
    rw [hfront, Except.bind, Target.spliceAll] at h
    split at h
    · cases h
    · next after hsplice =>
      have hmem := hrs hr
      obtain ⟨x, hx, -⟩ := splice_eq_some (proper.tags r hmem) hsplice
      exact place_of_spliceAll proper (fun q hq => hrs (List.mem_append_left _ hq)) hmem hfront
        ⟨x, hx⟩

/-- The regions in front of the one that is missed have all been replaced. -/
theorem spliceAll_eq_error {tag : String} (h : spliceAll text regions = .error tag) :
    ∃ front r back mid, regions = front ++ r :: back ∧ spliceAll text front = .ok mid ∧
      splice r.tag.toList r.content.toList mid = none ∧ r.tag = tag := by
  induction regions generalizing text with
  | nil => cases h
  | cons r regions ih =>
    rw [Target.spliceAll] at h
    split at h
    · next hnone =>
      exact ⟨[], r, regions, text, rfl, rfl, hnone, Except.error.inj h⟩
    · next mid hsome =>
      obtain ⟨front, q, back, mid', rfl, hfront, hnone, htag⟩ := ih h
      refine ⟨r :: front, q, back, mid', rfl, ?_, hnone, htag⟩
      rw [Target.spliceAll, hsome]
      exact hfront

/-! ## Writing the header -/

variable {p : Path} {σ : Session}

/-- A file that can be read can be written. -/
theorem write_of_read {t : FileTree} {content : List UInt8} {modified : Timestamp}
    (h : t.read p = .ok (content, modified)) (new : List UInt8) : (t.write p new).1 = .ok () := by
  obtain ⟨-, -, -, -, -, -, hgoal⟩ := goal_of_file (read_ok_iff.1 h)
  unfold write
  rw [hgoal]
  simp [at?_of_read h]

/-- A header is written if and only if its text changes, and then reads the new one. -/
theorem replace_of_spliceAll {old new : List Char} (hold : σ.tree.readText p = .ok old)
    (hnew : spliceAll old regions = .ok new) : ∃ σ',
      (replace p regions).runOn σ = (.ok (decide (new ≠ old)), σ') ∧
      σ'.tree.readText p = .ok new ∧
      σ'.tree = if new = old then σ.tree else (σ.tree.writeText p new).2 := by
  by_cases heq : new = old
  · subst heq
    obtain ⟨σ', hrun, htree⟩ := replace_of_keeps (σ := σ) (p := p) ⟨new, hold, hnew⟩
    exact ⟨σ', by simpa using hrun, htree.symm ▸ hold, by rw [if_pos rfl, htree]⟩
  · obtain ⟨modified, hread⟩ := readText_ok_iff.1 hold
    have hwrite := write_of_read hread (Text.encode new)
    refine ⟨{ σ with
      tree := (σ.tree.writeText p new).2, log := σ.log ++ [.headerWritten p] }, ?_, ?_, ?_⟩
    · unfold replace
      rw [runOn_bind_of_ok (runOn_tree _), isFile_of_readText hold]
      unfold update
      refine runOn_bind_ok_iff.2 ⟨old, σ, look_ok_iff.2 ⟨hold, rfl⟩, ?_⟩
      have hchange : (changeAt p (·.writeText p new)).runOn σ =
          (.ok (), { σ with tree := (σ.tree.writeText p new).2 }) := by
        rw [runOn_changeAt, show (σ.tree.writeText p new).1 = .ok () from hwrite]
        rfl
      simp only [hnew, if_neg heq]
      rw [runOn_bind_of_ok hchange, runOn_bind_of_ok (runOn_tell _ _), runOn_pure,
        decide_eq_true heq]
    · exact readText_ok_iff.2 ⟨σ.tree.clock, read_write hwrite⟩
    · rw [if_neg heq]

/-- Where a region is missing nothing is written. -/
theorem replace_of_missing {old : List Char} {tag : String} (hold : σ.tree.readText p = .ok old)
    (h : spliceAll old regions = .error tag) :
    (replace p regions).runOn σ = (.error (.missingMarker tag p), σ) := by
  have hlook : (look p (·.readText p)).runOn σ = (.ok old, σ) := look_ok_iff.2 ⟨hold, rfl⟩
  unfold replace
  rw [runOn_bind_of_ok (runOn_tree _), isFile_of_readText hold]
  unfold update
  simp only [Bool.not_true, Bool.false_eq_true, if_false]
  rw [runOn_bind_of_ok hlook]
  simp only [h, runOn_throw]

/-- **Replacing regions rewrites what is between their markers, once**: where the regions of a
header lie apart, the call in any order of the regions fills each section and keeps everything
else, writes exactly when that changes the text, and has nothing to do when it is made again; where
a tag has no region, the call misses one and leaves everything as it is. -/
theorem replace_rewrites_regions (p : Path) {regions : List Region} (proper : Proper regions)
    (σ : Session) {text : List Char} (htext : σ.tree.readText p = .ok text) :
    (Delimited regions text → ∃ row rest,
      (row.map (·.region)).Perm regions ∧ (∀ x ∈ row, x.Marked) ∧ text = joined row rest ∧
      ∀ order : List Region, order.Perm regions → ∃ σ',
        let new := joined (row.map Section.filled) rest
        (replace p order).runOn σ = (.ok (decide (new ≠ text)), σ') ∧
        σ'.tree.readText p = .ok new ∧
        σ'.tree = (if new = text then σ.tree else (σ.tree.writeText p new).2) ∧
        ∀ again : List Region, again.Perm regions → ∃ σ'',
          (replace p again).runOn σ' = (.ok false, σ'') ∧ σ''.tree = σ'.tree) ∧
    ((∃ r ∈ regions, ∀ x : Place, ¬ x.Of r.tag.toList text) → ∃ front r back,
      regions = front ++ r :: back ∧ (∀ q ∈ front, ∃ x : Place, x.Of q.tag.toList text) ∧
      (replace p regions).runOn σ = (.error (.missingMarker r.tag p), σ)) ∧
    ∀ front r back, regions = front ++ r :: back → Delimited front text →
      (∀ x : Place, ¬ x.Of r.tag.toList text) →
      (replace p regions).runOn σ = (.error (.missingMarker r.tag p), σ) := by
  refine ⟨fun hdelimited => ?_, ?_, ?_⟩
  · obtain ⟨row, rest, hregions, hmarked, rfl, -, hfilled⟩ := exists_filled proper hdelimited
    refine ⟨row, rest, hregions, hmarked, rfl, fun order horder => ?_⟩
    obtain ⟨σ', hrun, hread, htree⟩ := replace_of_spliceAll htext (hfilled order horder).1
    refine ⟨σ', hrun, hread, htree, fun again hagain => ?_⟩
    exact replace_of_keeps ⟨_, hread, (hfilled again hagain).2⟩
  · rintro ⟨r, hr, hmissing⟩
    cases hall : spliceAll text regions with
    | ok new =>
      obtain ⟨x, hx⟩ := exists_place_of_spliceAll proper (List.Subset.refl _) hall r hr
      exact absurd hx (hmissing x)
    | error tag =>
      obtain ⟨front, q, back, mid, rfl, hfront, hnone, rfl⟩ := spliceAll_eq_error hall
      exact ⟨front, q, back, rfl,
        exists_place_of_spliceAll proper (List.subset_append_left _ _) hfront,
        replace_of_missing htext hall⟩
  · rintro front r back rfl hdelimited hmissing
    have hr : r ∈ front ++ r :: back := List.mem_append_right _ List.mem_cons_self
    have hfront : front ⊆ front ++ r :: back := List.subset_append_left _ _
    obtain ⟨row, rest, -, -, -, -, hfilled⟩ := exists_filled proper.front hdelimited
    have hmid := (hfilled front (.refl _)).1
    refine replace_of_missing htext ?_
    rw [spliceAll_append, hmid, Except.bind, Target.spliceAll]
    split
    · rfl
    · next new hsplice =>
      obtain ⟨x, hx, -⟩ := splice_eq_some (proper.tags r hr) hsplice
      obtain ⟨z, hz⟩ := place_of_spliceAll proper hfront hr hmid ⟨x, hx⟩
      exact absurd hz (hmissing z)

/-! ## A header with two regions -/

namespace TwoRegions

/-- A header with two regions, whose markers are spelled in several ways. -/
def header : List Char :=
  "#pragma once\n//BEGINA old // endA\n// BeginB\n//\tEndB\n".toList

/-- What is generated for the regions, not in the order of the header. -/
def generated : List Region := [⟨"B", "2\n"⟩, ⟨"A", "1\n"⟩]

/-- The header alone. -/
def tree : FileTree :=
  (FileTree.empty [] ⟨0, 0⟩).put ["x"] (.file (Text.encode header) ⟨0, 0⟩)

theorem proper : Proper generated := by
  decide +kernel

theorem delimited : Delimited generated header := by
  rw [delimited_iff proper.tags]
  decide +kernel

theorem replace_rewrites_two_regions : ∃ σ',
    (replace ⟨"x"⟩ generated).runOn { tree } = (.ok true, σ') ∧
    σ'.tree.readText ⟨"x"⟩ =
      .ok "#pragma once\n//BEGINA\n1\n// endA\n// BeginB\n2\n//\tEndB\n".toList ∧
    ∃ σ'', (replace ⟨"x"⟩ generated.reverse).runOn σ' = (.ok false, σ'') ∧
      σ''.tree = σ'.tree := by
  have htext : tree.readText ⟨"x"⟩ = .ok header := by decide +kernel
  obtain ⟨row, rest, -, -, -, hfilled⟩ :=
    (replace_rewrites_regions ⟨"x"⟩ proper { tree } htext).1 delimited
  obtain ⟨σ', hrun, hread, -, hagain⟩ := hfilled generated (.refl _)
  have hanswer : ((replace ⟨"x"⟩ generated).runOn { tree }).1 = .ok true := by decide +kernel
  have hnew : ((replace ⟨"x"⟩ generated).runOn { tree }).2.tree.readText ⟨"x"⟩ =
      .ok "#pragma once\n//BEGINA\n1\n// endA\n// BeginB\n2\n//\tEndB\n".toList := by
    decide +kernel
  refine ⟨σ', ?_, ?_, hagain _ (List.reverse_perm _)⟩
  · rw [hrun] at hanswer ⊢
    exact Prod.ext hanswer rfl
  · rwa [hrun] at hnew

end TwoRegions

end ShaderBuild.Target
