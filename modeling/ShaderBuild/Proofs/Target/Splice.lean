import ShaderBuild.Proofs.Target.Marker

/-!
# Replacing one region

A region is at a place of a text: an opening marker with a closing marker behind it (`Place.Of`).
It is found exactly when there is one (`isSome_place?_iff`), and where the markers occur once it is
the text between them (`place?_of_sole`); there it is replaced (`splice_eq_map`) and read
(`regionOf_eq_map`). The text around a region keeps its markers when the region is replaced, and
there are no others behind that than those of the content (`occurrences_filled`), so that a tag
without a region gets none (`Place.Of.of_filled`).
-/

namespace ShaderBuild.Target

open Text

/-- The word of the opening marker of a tag. -/
def openingWord (tag : List Char) : List Char := "Begin".toList ++ tag

/-- The word of the closing marker of a tag. -/
def closingWord (tag : List Char) : List Char := "End".toList ++ tag

/-- Tags are of letters. -/
def IsTag (tag : List Char) : Prop := ∀ c ∈ tag, c.isAlpha = true

theorem IsTag.openingWord {tag : List Char} (h : IsTag tag) : IsWord (openingWord tag) :=
  ⟨List.cons_ne_nil _ _, List.forall_mem_append.2 ⟨List.all_eq_true.1 rfl, h⟩⟩

theorem IsTag.closingWord {tag : List Char} (h : IsTag tag) : IsWord (closingWord tag) :=
  ⟨List.cons_ne_nil _ _, List.forall_mem_append.2 ⟨List.all_eq_true.1 rfl, h⟩⟩

/-! ## The place of a region -/

/-- A text in five parts: what stands before a region, its opening marker, what is inside, its
closing marker and what comes after. -/
structure Place where
  before : List Char
  opening : List Char
  inside : List Char
  closing : List Char
  after : List Char
deriving DecidableEq

namespace Place

/-- Where the opening marker starts. -/
def start (x : Place) : Nat := x.before.length

/-- Where the closing marker stops. -/
def stop (x : Place) : Nat := (x.before ++ (x.opening ++ (x.inside ++ x.closing))).length

/-- The text through the opening marker. -/
def head (x : Place) : List Char := x.before ++ x.opening

/-- The text from the closing marker on. -/
def tail (x : Place) : List Char := x.closing ++ x.after

/-- The place is one of a region with a tag in a text: an opening marker with a closing marker
behind it. -/
structure Of (x : Place) (tag text : List Char) : Prop where
  text_eq : text = x.head ++ (x.inside ++ x.tail)
  opening : IsMarker (openingWord tag) x.opening
  closing : IsMarker (closingWord tag) x.closing

variable {x : Place} {tag text : List Char}

/-- The text by its opening marker. -/
theorem Of.parts (h : x.Of tag text) :
    text = x.before ++ (x.opening ++ (x.inside ++ x.tail)) := by
  rw [h.text_eq, head, List.append_assoc]

theorem Of.seam_head (h : x.Of tag text) (htag : IsTag tag) (content : List Char) :
    Seam x.head ('\n' :: content) :=
  h.opening.seam_lineFeed htag.openingWord _ _

theorem Of.seam_tail (h : x.Of tag text) (front : List Char) : Seam front x.tail :=
  h.closing.seam _ _

end Place

variable {tag word text content : List Char} {x : Place}

theorem occurrences_lineFeed (word content : List Char) :
    occurrences word ('\n' :: content) = occurrences word content :=
  occurrences_cons word '\n' content

/-- The markers of a text behind the replacement of a region are those outside the region and
those of the content. -/
theorem occurrences_filled (hword : IsWord word) (htag : IsTag tag) (h : x.Of tag text)
    (content : List Char) : occurrences word (x.head ++ '\n' :: content ++ x.tail) =
      occurrences word x.head + occurrences word content + occurrences word x.tail := by
  rw [occurrences_append hword (h.seam_tail _), occurrences_append hword (h.seam_head htag _),
    occurrences_lineFeed]

theorem occurrences_head_tail_le (hword : IsWord word) (h : x.Of tag text) :
    occurrences word x.head + occurrences word x.tail ≤ occurrences word text := by
  rw [h.text_eq, ← List.append_assoc, occurrences_append hword (h.seam_tail _)]
  exact Nat.add_le_add_right (occurrences_le_append_left hword _ _) _

/-- Replacing a region by a content without markers makes no marker. -/
theorem occurrences_filled_le (hword : IsWord word) (htag : IsTag tag) (h : x.Of tag text)
    (hcontent : occurrences word content = 0) :
    occurrences word (x.head ++ '\n' :: content ++ x.tail) ≤ occurrences word text := by
  rw [occurrences_filled hword htag h, hcontent, Nat.add_zero]
  exact occurrences_head_tail_le hword h

/-! ## Finding a region -/

/-- Where the region of a tag is found: from the leftmost opening marker to the first closing one
behind it. -/
def place? (tag text : List Char) : Option Place := do
  let (before, opening, behind) ← search (marker? (openingWord tag)) text
  let (inside, closing, after) ← search (marker? (closingWord tag)) behind
  return ⟨before, opening, inside, closing, after⟩

theorem place?_eq_some_iff : place? tag text = some x ↔ ∃ behind,
    search (marker? (openingWord tag)) text = some (x.before, x.opening, behind) ∧
      search (marker? (closingWord tag)) behind = some (x.inside, x.closing, x.after) := by
  unfold place?
  simp only [bind, Option.bind_eq_some_iff, Prod.exists, pure, Option.some.injEq]
  constructor
  · rintro ⟨before, opening, behind, hfirst, inside, closing, after, hnext, rfl⟩
    exact ⟨behind, hfirst, hnext⟩
  · rintro ⟨behind, hfirst, hnext⟩
    exact ⟨_, _, behind, hfirst, _, _, _, hnext, rfl⟩

/-- A region is found at a place of its tag. -/
theorem place?_eq_some (htag : IsTag tag) (h : place? tag text = some x) : x.Of tag text := by
  obtain ⟨behind, hfirst, hnext⟩ := place?_eq_some_iff.1 h
  obtain ⟨⟨found, rfl, hfound⟩, -⟩ := search_eq_some hfirst
  obtain ⟨⟨found', rfl, hfound'⟩, -⟩ := search_eq_some hnext
  obtain ⟨hmarker, rfl⟩ := (marker?_eq_some_iff htag.openingWord).1 hfound
  obtain ⟨hmarker', rfl⟩ := (marker?_eq_some_iff htag.closingWord).1 hfound'
  refine ⟨?_, hmarker, hmarker'⟩
  simp [Place.head, Place.tail]

theorem search_of_occurrences (h : 0 < occurrences word text) :
    ∃ before comment rest, search (marker? word) text = some (before, comment, rest) := by
  cases hsearch : search (marker? word) text with
  | none =>
    rw [search_eq_none_iff_occurrences.1 hsearch] at h
    cases h
  | some found => exact ⟨_, _, _, rfl⟩

/-- The leftmost opening marker is followed by all that follows another one. -/
theorem Place.Of.suffix_of_search (h : x.Of tag text) (htag : IsTag tag)
    {before comment rest : List Char}
    (hsearch : search (marker? (openingWord tag)) text = some (before, comment, rest)) :
    x.inside ++ x.tail <:+ rest := by
  obtain ⟨⟨found, htext, hfound⟩, hfirst⟩ := search_eq_some hsearch
  obtain ⟨hmarker, rfl⟩ := (marker?_eq_some_iff htag.openingWord).1 hfound
  have hread : marker? (openingWord tag) (x.opening ++ (x.inside ++ x.tail)) =
      some (x.opening, x.inside ++ x.tail) :=
    (marker?_eq_some_iff htag.openingWord).2 ⟨h.opening, rfl⟩
  rcases (h.opening.seam x.before (x.inside ++ x.tail)).either htag.openingWord hmarker
    (h.parts.symm.trans htext) with ⟨rest', -, rfl⟩ | ⟨between, rfl, heq⟩
  · rw [← List.append_assoc]
    exact List.suffix_append _ _
  · cases between with
    | nil =>
      rw [show x.opening ++ (x.inside ++ x.tail) = comment ++ rest from heq, hfound] at hread
      rw [(Prod.mk.inj (Option.some.inj hread)).2]
    | cons c between =>
      -- the marker of the place would be further to the left
      rw [hfirst _ _ h.parts (by simp)] at hread
      cases hread

/-- **A region is found if and only if there is one** -/
theorem isSome_place?_iff (htag : IsTag tag) :
    (place? tag text).isSome = true ↔ ∃ x : Place, x.Of tag text := by
  rw [Option.isSome_iff_exists]
  constructor
  · rintro ⟨x, hx⟩
    exact ⟨x, place?_eq_some htag hx⟩
  · rintro ⟨x, hx⟩
    have hopening : 0 < occurrences (openingWord tag) text :=
      (occurrences_pos_iff htag.openingWord).2
        ⟨x.before, x.opening, x.inside ++ x.tail, hx.opening, hx.parts⟩
    obtain ⟨before, comment, rest, hfirst⟩ := search_of_occurrences hopening
    obtain ⟨front, rfl⟩ := hx.suffix_of_search htag hfirst
    have hclosing : 0 < occurrences (closingWord tag) (front ++ (x.inside ++ x.tail)) :=
      (occurrences_pos_iff htag.closingWord).2
        ⟨front ++ x.inside, x.closing, x.after, hx.closing, (List.append_assoc _ _ _).symm⟩
    obtain ⟨inside, comment', after, hnext⟩ := search_of_occurrences hclosing
    exact ⟨⟨before, comment, inside, comment', after⟩, place?_eq_some_iff.2 ⟨_, hfirst, hnext⟩⟩

/-- Where each marker occurs once, the region is found where they are. -/
theorem place?_of_sole (htag : IsTag tag) (hopening : occurrences (openingWord tag) text ≤ 1)
    (hclosing : occurrences (closingWord tag) text ≤ 1) (h : x.Of tag text) :
    place? tag text = some x := by
  refine place?_eq_some_iff.2 ⟨x.inside ++ x.tail, ?_, search_of_sole htag.closingWord h.closing ?_⟩
  · rw [h.parts] at hopening ⊢
    exact search_of_sole htag.openingWord h.opening hopening
  · refine Nat.le_trans ?_ hclosing
    rw [h.text_eq]
    exact occurrences_le_append_right _ _ _

/-! ## Replacing and reading a region -/

/-- A region is replaced where it is found. -/
theorem splice_eq_map (tag content text : List Char) : splice tag content text =
    (place? tag text).map fun x => x.head ++ '\n' :: content ++ x.tail := by
  unfold splice place? throughMarker? fromMarker? openingWord closingWord
  cases search (marker? ("Begin".toList ++ tag)) text with
  | none => rfl
  | some first =>
    obtain ⟨before, opening, behind⟩ := first
    simp only [Option.map_some, bind, Option.bind_some]
    cases search (marker? ("End".toList ++ tag)) behind <;> rfl

/-- What a region reads stands between its markers. -/
theorem regionOf_eq_map (tag text : List Char) :
    regionOf tag text = (place? tag text).map (·.inside) := by
  unfold regionOf place? throughMarker? fromMarker? openingWord closingWord
  cases search (marker? ("Begin".toList ++ tag)) text with
  | none => rfl
  | some first =>
    obtain ⟨before, opening, behind⟩ := first
    simp only [Option.map_some, bind, Option.bind_some]
    cases hnext : search (marker? ("End".toList ++ tag)) behind with
    | none => rfl
    | some next =>
      obtain ⟨inside, closing, after⟩ := next
      obtain ⟨⟨found, rfl, hfound⟩, -⟩ := search_eq_some hnext
      obtain rfl := marker?_eq_some hfound
      simp [pure]

/-- Where a region is found and what replacing it makes of the text. -/
theorem splice_eq_some {new : List Char} (htag : IsTag tag)
    (h : splice tag content text = some new) :
    ∃ x : Place, x.Of tag text ∧ new = x.head ++ '\n' :: content ++ x.tail := by
  rw [splice_eq_map] at h
  obtain ⟨x, hx, rfl⟩ := Option.map_eq_some_iff.1 h
  exact ⟨x, place?_eq_some htag hx, rfl⟩

/-! ## Regions that are not there -/

/-- A marker outside the content is one of the text around it. -/
theorem Seam.around {front mid back comment rest before : List Char} (hfront : Seam front mid)
    (hback : Seam (front ++ mid) back) (hword : IsWord word) (hmid : occurrences word mid = 0)
    (hmarker : IsMarker word comment)
    (heq : front ++ mid ++ back = before ++ (comment ++ rest)) :
    (∃ rest', front = before ++ (comment ++ rest') ∧ rest = rest' ++ mid ++ back) ∨
      ∃ before', before = front ++ mid ++ before' ∧ back = before' ++ (comment ++ rest) := by
  rcases hback.either hword hmarker heq with ⟨rest₁, h₁, rfl⟩ | hbehind
  · rcases hfront.either hword hmarker h₁ with ⟨rest', hrest', rfl⟩ | ⟨before', -, hinside⟩
    · exact .inl ⟨rest', hrest', rfl⟩
    · have hpos : 0 < occurrences word mid :=
        (occurrences_pos_iff hword).2 ⟨before', comment, rest₁, hmarker, hinside⟩
      omega
  · exact .inr hbehind

/-- **Replacing a region makes no other region** -/
theorem Place.Of.of_filled {tag' : List Char} (htag : IsTag tag) (htag' : IsTag tag')
    (hx : x.Of tag text) (hopening : occurrences (openingWord tag') content = 0)
    (hclosing : occurrences (closingWord tag') content = 0) {y : Place}
    (hy : y.Of tag' (x.head ++ '\n' :: content ++ x.tail)) : ∃ z : Place, z.Of tag' text := by
  have hopening' : occurrences (openingWord tag') ('\n' :: content) = 0 := by
    rwa [occurrences_lineFeed]
  have hclosing' : occurrences (closingWord tag') ('\n' :: content) = 0 := by
    rwa [occurrences_lineFeed]
  have hseam := hx.seam_head htag content
  rcases hseam.around (hx.seam_tail _) htag'.openingWord hopening' hy.opening hy.parts with
    ⟨between, hhead, hrest⟩ | ⟨before, -, htail⟩
  · rw [← List.append_assoc] at hhead
    rw [hhead] at hseam
    rcases hseam.of_append.around (hx.seam_tail _) htag'.closingWord hclosing' hy.closing
      hrest.symm with ⟨after, rfl, -⟩ | ⟨before, -, htail⟩
    · refine ⟨⟨y.before, y.opening, y.inside, y.closing, after ++ (x.inside ++ x.tail)⟩, ?_,
        hy.opening, hy.closing⟩
      rw [hx.text_eq, hhead]
      simp [Place.head, Place.tail]
    · refine ⟨⟨y.before, y.opening, between ++ x.inside ++ before, y.closing, y.after⟩, ?_,
        hy.opening, hy.closing⟩
      rw [hx.text_eq, hhead, htail]
      simp [Place.head, Place.tail]
  · refine ⟨⟨x.head ++ x.inside ++ before, y.opening, y.inside, y.closing, y.after⟩, ?_,
      hy.opening, hy.closing⟩
    rw [hx.text_eq, htail]
    simp [Place.head, Place.tail]

end ShaderBuild.Target
