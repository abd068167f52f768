import ShaderBuild.Directive
import ShaderBuild.Proofs.Text.Word

/-!
# Headers as they are written

A header is a row of items with commas between them (`headerText`). An item is a tag, a colon and
the text of its value, with blanks anywhere (`Item`).

All tags are looked for in the same text, so what matters is that none is found where it was not
written. A value has neither colons nor commas: between two commas the only colon is the one behind
the tag. Hence a tag that is found in the item of another one would have to be the end of that
other word, and there it does not begin a word. The search passes over such items, stops at the
first item with its tag, and the value it reads goes to the comma behind that item
(`tag?_headerText`).
-/

namespace ShaderBuild.Header

open Text

/-! ## What is written -/

/-- The tags of a header. -/
inductive Tag where
  | name | entryPoint | type | defines
deriving DecidableEq

/-- The word that stands for a tag. -/
def Tag.word : Tag → String
  | name => "Name"
  | entryPoint => "EntryPoint"
  | type => "Type"
  | defines => "Defines"

theorem Tag.isAlpha_of_mem_word (T : Tag) : ∀ w ∈ T.word.toList, w.isAlpha = true :=
  List.all_eq_true.1 (by cases T <;> decide)

theorem Tag.word_ne_nil (T : Tag) : T.word.toList ≠ [] := by
  cases T <;> decide

/-- Not even without case are two tags the same word. -/
theorem Tag.eq_of_fold_eq {T U : Tag}
    (h : T.word.toList.map fold = U.word.toList.map fold) : T = U := by
  revert T U
  have hall : ∀ T ∈ [name, entryPoint, type, defines], ∀ U ∈ [name, entryPoint, type, defines],
      T.word.toList.map fold = U.word.toList.map fold → T = U := by
    decide +kernel
  intro T U
  exact hall T (by cases T <;> decide) U (by cases U <;> decide)

/-- An item of a header: the letters of a tag with blanks in front and behind, and the text behind
the colon. -/
structure Item where
  tag : Tag
  front : List Char
  letters : List Char
  gap : List Char
  value : List Char

/-- The text of an item. -/
def Item.text (i : Item) : List Char := i.front ++ (i.letters ++ (i.gap ++ ':' :: i.value))

/-- The tag of an item is written in some case, with nothing but blanks around it. -/
structure Item.Laid (i : Item) : Prop where
  front : Blanks i.front
  letters : i.letters.map fold = i.tag.word.toList.map fold
  gap : Blanks i.gap

instance (i : Item) : Decidable i.Laid :=
  decidable_of_iff (Blanks i.front ∧ i.letters.map fold = i.tag.word.toList.map fold ∧
    Blanks i.gap) ⟨fun h => ⟨h.1, h.2.1, h.2.2⟩, fun h => ⟨h.1, h.2, h.3⟩⟩

/-- The value of an item stays within the item. -/
structure Item.Closed (i : Item) : Prop extends i.Laid where
  colon : ':' ∉ i.value
  comma : ',' ∉ i.value
  lineFeed : '\n' ∉ i.value

/-- The text of a row of items. -/
def headerText (items : List Item) : List Char := [','].intercalate (items.map Item.text)

/-- The text of the items behind another one. -/
def textBehind (items : List Item) : List Char := items.flatMap fun i => ',' :: i.text

theorem textBehind_cons (i : Item) (items : List Item) :
    textBehind (i :: items) = ',' :: (i.text ++ textBehind items) := rfl

theorem headerText_cons (i : Item) (items : List Item) :
    headerText (i :: items) = i.text ++ textBehind items := by
  induction items generalizing i with
  | nil => simp [headerText, textBehind]
  | cons j items ih =>
    have htail : headerText (i :: j :: items) = i.text ++ ',' :: headerText (j :: items) := by
      simp [headerText]
    rw [htail, ih j, textBehind_cons]

/-! ## One place -/

variable {word letters gap s v r : List Char} {c : Char} {inside : Bool}

theorem tagAt?_spelled (hletters : letters.map fold = word.map fold) (hgap : Blanks gap)
    (r : List Char) : tagAt? word (letters ++ (gap ++ ':' :: r)) = value? r := by
  unfold tagAt?
  rw [afterWord_eq_some_iff.2 ⟨letters, rfl, hletters⟩, Option.map_some, trimLeft_append hgap,
    trimLeft_cons (by decide)]
  rfl

theorem exists_of_tagAt? (h : tagAt? word s = some v) : ∃ letters gap r,
    s = letters ++ (gap ++ ':' :: r) ∧ letters.map fold = word.map fold ∧ Blanks gap := by
  unfold tagAt? at h
  split at h
  · next r hr =>
    obtain ⟨rest, hrest, htrim⟩ := Option.map_eq_some_iff.1 hr
    obtain ⟨letters, rfl, hletters⟩ := afterWord_eq_some_iff.1 hrest
    refine ⟨letters, rest.takeWhile isBlank, r, ?_, hletters,
      List.all_eq_true.1 List.all_takeWhile⟩
    rw [← htrim, trimLeft, List.takeWhile_append_dropWhile]
  · cases h

section

variable (hword : ∀ w ∈ word, w.isAlpha = true)

include hword

/-- A tag starts with a word character. -/
theorem tagAt?_of_not_isWord (hne : word ≠ []) (h : isWord c = false) (s : List Char) :
    tagAt? word (c :: s) = none := by
  rw [Option.eq_none_iff_forall_not_mem]
  intro v hv
  obtain ⟨letters, gap, r, heq, hletters, -⟩ := exists_of_tagAt? hv
  cases letters with
  | nil => exact hne (List.map_eq_nil_iff.1 hletters.symm)
  | cons l letters =>
    obtain ⟨rfl, -⟩ := List.cons.inj heq
    rw [isWord_of_letters hword hletters List.mem_cons_self] at h
    cases h

/-- Between a tag and its colon there is no comma. -/
theorem tagAt?_of_comma (h : ':' ∉ v) (s : List Char) : tagAt? word (v ++ ',' :: s) = none := by
  rw [Option.eq_none_iff_forall_not_mem]
  intro found hfound
  obtain ⟨letters, gap, r, heq, hletters, hgap⟩ := exists_of_tagAt? hfound
  have hcomma : ',' ∉ letters ++ gap := by
    rw [List.mem_append]
    rintro (hmem | hmem)
    · exact absurd (isWord_of_letters hword hletters hmem) (by decide)
    · exact absurd (hgap _ hmem) (by decide)
  rw [← List.append_assoc] at heq
  -- the colon is behind the comma, which then lies between tag and colon, or it is in front of it
  rcases List.append_eq_append_iff.1 heq with ⟨between, hfront, hback⟩ | ⟨between, rfl, hback⟩
  · cases between with
    | nil => cases hback
    | cons b between =>
      cases hback
      exact hcomma (hfront ▸ List.mem_append_right _ List.mem_cons_self)
  · cases between with
    | nil => cases hback
    | cons b between =>
      cases hback
      exact h (List.mem_append_right _ List.mem_cons_self)

/-- A tag ends where the word ends. -/
theorem tagAt?_of_letters (h : letters.map fold ≠ word.map fold)
    (hletters : ∀ c ∈ letters, isWord c = true) (hgap : Blanks gap) (r : List Char) :
    tagAt? word (letters ++ (gap ++ ':' :: r)) = none := by
  have hcut : ∀ letters gap r : List Char, (∀ c ∈ letters, isWord c = true) → Blanks gap →
      (letters ++ (gap ++ ':' :: r)).takeWhile isWord = letters := by
    intro letters gap r hletters hgap
    rw [List.takeWhile_append_of_pos hletters]
    cases gap with
    | nil => rw [List.nil_append, List.takeWhile_cons_of_neg (by decide), List.append_nil]
    | cons b gap =>
      have hb : ¬ isWord b = true := by simp [isWord_of_isBlank (hgap b List.mem_cons_self)]
      rw [List.cons_append, List.takeWhile_cons_of_neg hb, List.append_nil]
  rw [Option.eq_none_iff_forall_not_mem]
  intro found hfound
  obtain ⟨letters', gap', r', heq, hletters', hgap'⟩ := exists_of_tagAt? hfound
  -- both readings start with the same word
  have hsame := congrArg (List.takeWhile isWord) heq
  rw [hcut _ _ _ hletters hgap,
    hcut _ _ _ (fun _ hc => isWord_of_letters hword hletters' hc) hgap'] at hsame
  exact h (hsame ▸ hletters')

end

theorem tagAt?_of_no_colon (h : ':' ∉ s) : tagAt? word s = none := by
  rw [Option.eq_none_iff_forall_not_mem]
  intro v hv
  obtain ⟨letters, gap, r, rfl, -, -⟩ := exists_of_tagAt? hv
  simp at h

/-! ## Passing over a text -/

theorem tagFrom?_inside (word s : List Char) (c : Char) :
    tagFrom? word true (c :: s) = tagFrom? word (isWord c) s := by
  simp [tagFrom?]

theorem tagFrom?_of_none (h : tagAt? word (c :: s) = none) :
    tagFrom? word inside (c :: s) = tagFrom? word (isWord c) s := by
  cases inside <;> simp [tagFrom?, h]

theorem tagFrom?_letters (h : ∀ c ∈ letters, isWord c = true) (s : List Char) :
    tagFrom? word true (letters ++ s) = tagFrom? word true s := by
  induction letters with
  | nil => rfl
  | cons c letters ih =>
    rw [List.cons_append, tagFrom?_inside, h c List.mem_cons_self]
    exact ih fun d hd => h d (List.mem_cons_of_mem _ hd)

section

variable (hword : ∀ w ∈ word, w.isAlpha = true) (hne : word ≠ [])

include hword hne

theorem tagFrom?_mark (h : isWord c = false) (s : List Char) :
    tagFrom? word inside (c :: s) = tagFrom? word false s := by
  rw [tagFrom?_of_none (tagAt?_of_not_isWord hword hne h s), h]

theorem tagFrom?_blanks (h : Blanks gap) (s : List Char) :
    tagFrom? word false (gap ++ s) = tagFrom? word false s := by
  induction gap with
  | nil => rfl
  | cons c gap ih =>
    rw [List.cons_append, tagFrom?_mark hword hne (isWord_of_isBlank (h c List.mem_cons_self))]
    exact ih fun d hd => h d (List.mem_cons_of_mem _ hd)

/-- Blanks and the mark behind them. -/
theorem tagFrom?_blanks_mark (h : Blanks gap) (hc : isWord c = false) (s : List Char) :
    tagFrom? word inside (gap ++ c :: s) = tagFrom? word false s := by
  cases gap with
  | nil => exact tagFrom?_mark hword hne hc s
  | cons b gap =>
    rw [List.cons_append, tagFrom?_mark hword hne (isWord_of_isBlank (h b List.mem_cons_self)),
      tagFrom?_blanks hword hne fun d hd => h d (List.mem_cons_of_mem _ hd),
      tagFrom?_mark hword hne hc]

theorem tagFrom?_value (h : ':' ∉ v) (items : List Item) (inside : Bool) :
    tagFrom? word inside (v ++ textBehind items) = tagFrom? word false (textBehind items) := by
  induction v generalizing inside with
  | nil =>
    cases items with
    | nil => rfl
    | cons i items =>
      rw [List.nil_append, textBehind_cons, tagFrom?_mark hword hne (by decide),
        tagFrom?_mark hword hne (by decide)]
  | cons c v ih =>
    -- the next mark is the comma behind the value, if there is any
    have hnone : tagAt? word (c :: v ++ textBehind items) = none := by
      cases items with
      | nil =>
        rw [textBehind, List.flatMap_nil, List.append_nil]
        exact tagAt?_of_no_colon h
      | cons i items =>
        rw [textBehind_cons]
        exact tagAt?_of_comma hword h _
    rw [List.cons_append] at hnone ⊢
    rw [tagFrom?_of_none hnone]
    exact ih (fun hmem => h (List.mem_cons_of_mem _ hmem)) _

end

/-! ## Values -/

/-- A value goes to the next item. -/
theorem value?_textBehind (hcomma : ',' ∉ v) (hline : '\n' ∉ v) (items : List Item) :
    value? (v ++ textBehind items) = some (trim v) := by
  have hself : (trimLeft v).takeWhile (· ≠ ',') = trimLeft v := by
    rw [List.takeWhile_eq_self_iff]
    intro c hc
    rw [decide_eq_true_eq]
    rintro rfl
    exact hcomma (mem_of_mem_trimLeft hc)
  have hfront : (trimLeft (v ++ textBehind items)).takeWhile (· ≠ ',') = trimLeft v := by
    cases items with
    | nil => rw [textBehind, List.flatMap_nil, List.append_nil, hself]
    | cons i items =>
      rw [textBehind_cons, trimLeft_append_cons (by decide), takeWhile_append_cons (by decide),
        hself]
  unfold value?
  rw [hfront]
  exact if_neg fun hmem => hline (mem_of_mem_trim hmem)

/-! ## Items -/

namespace Item.Laid

variable {i : Item} {T : Tag}

theorem isWord (h : i.Laid) : ∀ c ∈ i.letters, isWord c = true :=
  fun _ hc => isWord_of_letters i.tag.isAlpha_of_mem_word h.letters hc

theorem exists_letters (h : i.Laid) : ∃ l letters, i.letters = l :: letters := by
  apply List.exists_cons_of_ne_nil
  intro heq
  have hletters := h.letters
  rw [heq] at hletters
  exact i.tag.word_ne_nil (List.map_eq_nil_iff.1 hletters.symm)

theorem tagFrom?_front (h : i.Laid) (T : Tag) (s : List Char) :
    tagFrom? T.word.toList false (i.text ++ s) =
      tagFrom? T.word.toList false (i.letters ++ (i.gap ++ ':' :: (i.value ++ s))) := by
  rw [text, List.append_assoc, tagFrom?_blanks T.isAlpha_of_mem_word T.word_ne_nil h.front]
  simp only [List.append_assoc, List.cons_append]

/-- **No other tag is found in front of the value.** -/
theorem tagFrom?_of_ne (h : i.Laid) (hne : i.tag ≠ T) (s : List Char) :
    tagFrom? T.word.toList false (i.text ++ s) = tagFrom? T.word.toList false (i.value ++ s) := by
  have hword := T.isAlpha_of_mem_word
  have hother : i.letters.map fold ≠ T.word.toList.map fold := by
    rw [h.letters]
    exact fun heq => hne (Tag.eq_of_fold_eq heq)
  have hnone := tagAt?_of_letters hword hother h.isWord h.gap (i.value ++ s)
  have hletters := h.isWord
  obtain ⟨l, letters, hl⟩ := h.exists_letters
  rw [h.tagFrom?_front]
  rw [hl] at hnone hletters ⊢
  rw [List.cons_append] at hnone ⊢
  -- behind its first letter the other tag is inside of a word
  rw [tagFrom?_of_none hnone, hletters l List.mem_cons_self,
    tagFrom?_letters fun c hc => hletters c (List.mem_cons_of_mem _ hc),
    tagFrom?_blanks_mark hword T.word_ne_nil h.gap (by decide)]

/-- **The own tag is found.** -/
theorem tagFrom?_tag (h : i.Laid) (hvalue : value? (i.value ++ s) = some v) :
    tagFrom? i.tag.word.toList false (i.text ++ s) = some v := by
  have hfound := tagAt?_spelled h.letters h.gap (i.value ++ s)
  obtain ⟨l, letters, hl⟩ := h.exists_letters
  rw [h.tagFrom?_front]
  rw [hl] at hfound ⊢
  rw [List.cons_append] at hfound ⊢
  rw [tagFrom?, if_neg Bool.false_ne_true, hfound, hvalue]

end Item.Laid

/-- The search for a tag ends at an item that has it, and passes over every other. -/
theorem Item.Closed.tagFrom?_item {i : Item} (h : i.Closed) (T : Tag) (items : List Item) :
    tagFrom? T.word.toList false (i.text ++ textBehind items) =
      if i.tag = T then some (trim i.value)
      else tagFrom? T.word.toList false (textBehind items) := by
  split
  · next htag =>
    subst htag
    exact h.tagFrom?_tag (value?_textBehind h.comma h.lineFeed items)
  · next hne =>
    rw [h.tagFrom?_of_ne hne, tagFrom?_value T.isAlpha_of_mem_word T.word_ne_nil h.colon]

theorem tagFrom?_comma (T : Tag) (i : Item) (items : List Item) :
    tagFrom? T.word.toList false (textBehind (i :: items)) =
      tagFrom? T.word.toList false (i.text ++ textBehind items) := by
  rw [textBehind_cons, tagFrom?_mark T.isAlpha_of_mem_word T.word_ne_nil (by decide)]

theorem tagFrom?_textBehind {items : List Item} (h : ∀ i ∈ items, i.Closed) (T : Tag) :
    tagFrom? T.word.toList false (textBehind items) =
      (items.find? (·.tag = T)).map fun i => trim i.value := by
  induction items with
  | nil => rfl
  | cons i items ih =>
    rw [tagFrom?_comma, (h i List.mem_cons_self).tagFrom?_item]
    split
    · next htag => rw [List.find?_cons_of_pos (by simpa using htag), Option.map_some]
    · next hne =>
      rw [List.find?_cons_of_neg (by simpa using hne)]
      exact ih fun j hj => h j (List.mem_cons_of_mem _ hj)

/-- **What is found in a header.** The value of a tag is that of the first item with this tag. -/
theorem tag?_headerText {items : List Item} (h : ∀ i ∈ items, i.Closed) (T : Tag) :
    tag? T.word (headerText items) = (items.find? (·.tag = T)).map fun i => trim i.value := by
  rw [← tagFrom?_textBehind h]
  cases items with
  | nil => rfl
  | cons i items => rw [tag?, headerText_cons, tagFrom?_comma]

end ShaderBuild.Header
