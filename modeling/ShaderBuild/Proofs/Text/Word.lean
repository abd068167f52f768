import Mathlib.Data.List.TakeWhile
import ShaderBuild.Text.Blank
import ShaderBuild.Text.Fold
import ShaderBuild.Text.Word

/-!
# Words and the blanks around them

Blanks and punctuation are no word characters, and whatever agrees with an ASCII letter without
case is one (`isWord_of_fold_eq`), also outside ASCII. So a word, in any case, ends at the next
blank or mark, and trimming takes the blanks around a text away and nothing else
(`trim_of_padded`).
-/

namespace ShaderBuild.Text

/-! ## Letters and blanks -/

theorem isWord_of_isBlank {c : Char} (h : isBlank c = true) : isWord c = false := by
  have hall : ∀ n ∈ [0x09, 0x0A, 0x0B, 0x0C, 0x0D, 0x20, 0x85, 0xA0, 0x1680, 0x2000, 0x2001,
      0x2002, 0x2003, 0x2004, 0x2005, 0x2006, 0x2007, 0x2008, 0x2009, 0x200A, 0x2028, 0x2029,
      0x202F, 0x205F, 0x3000], isWord (Char.ofNat n) = false := by
    decide +kernel
  have hmem := hall c.toNat (by
    simp only [isBlank, Bool.or_eq_true, Bool.and_eq_true, decide_eq_true_eq, beq_iff_eq] at h
    simp only [List.mem_cons, List.not_mem_nil, or_false]
    omega)
  rwa [Char.ofNat_toNat] at hmem

/-- What holds of the ASCII characters one by one. -/
theorem of_ascii {p : Char → Prop} (h : ∀ n : Fin 0x80, p (Char.ofNat n)) {c : Char}
    (hc : c.toNat < 0x80) : p c := by
  have hp := h ⟨c.toNat, hc⟩
  rwa [Char.ofNat_toNat] at hp

theorem toNat_of_isLower {c : Char} (h : c.isLower = true) : c.toNat < 0x80 := by
  have hletter : (decide ('a'.val ≤ c.val) && decide (c.val ≤ 'z'.val)) = true := h
  simp only [Bool.and_eq_true, decide_eq_true_eq, UInt32.le_iff_toNat_le] at hletter
  exact Nat.lt_of_le_of_lt hletter.2 (by decide)

theorem lt_of_isLower_ofNat {n : Nat} (h : (Char.ofNat n).isLower = true) : n < 0x80 := by
  by_cases hvalid : n.isValidChar
  · have hself : Char.ofNat n = Char.ofNatAux n hvalid := dif_pos hvalid
    rw [hself] at h
    exact toNat_of_isLower h
  · have hdefault : Char.ofNat n = ⟨0, .inl (by decide)⟩ := dif_neg hvalid
    rw [hdefault] at h
    cases h

/-- Outside ASCII only the long s and the Kelvin sign fold into ASCII. -/
theorem foldRuns_beyond : ∀ r ∈ foldRuns,
    r.first = 0x17F ∧ r.last = 0x17F ∨ r.first = 0x212A ∧ r.last = 0x212A ∨
      0x80 ≤ (r.first : Int) + r.shift := by
  decide +kernel

/-- What folds to an ASCII letter is a word character. -/
theorem isWord_of_isLower_fold {c : Char} (h : (fold c).isLower = true) : isWord c = true := by
  by_cases hascii : c.toNat < 0x80
  · exact of_ascii (p := fun c => (fold c).isLower = true → isWord c = true)
      (by decide +kernel) hascii h
  · simp only [fold, if_neg hascii] at h
    split at h
    · next r hr =>
      have hcovers := List.find?_some hr
      simp only [FoldRun.covers, Bool.and_eq_true, decide_eq_true_eq] at hcovers
      have hlt := lt_of_isLower_ofNat h
      rw [← Char.ofNat_toNat c]
      -- a run that reaches ASCII is that of the long s or of the Kelvin sign
      rcases foldRuns_beyond r (List.mem_of_find?_eq_some hr) with hlong | hkelvin | hbeyond
      · rw [show c.toNat = 0x17F by omega]
        decide +kernel
      · rw [show c.toNat = 0x212A by omega]
        decide +kernel
      · omega
    · exact absurd (toNat_of_isLower h) hascii

/-- What becomes an ASCII letter in lower case is a word character. -/
theorem isWord_of_isLower_toLower {c : Char} (h : c.toLower.isLower = true) : isWord c = true := by
  by_cases hascii : c.toNat < 0x80
  · apply isWord_of_isLower_fold
    rw [fold, if_pos hascii]
    exact h
  · have hself : c.toLower = c := by
      have hupper : ¬ (c.val ≥ 'A'.val ∧ c.val ≤ 'Z'.val) := by
        rintro ⟨-, hle⟩
        exact hascii (Nat.lt_of_le_of_lt (UInt32.le_iff_toNat_le.1 hle) (by decide))
      unfold Char.toLower
      simp only [dif_neg hupper]
    rw [hself] at h
    exact absurd (toNat_of_isLower h) hascii

theorem isLower_fold {w : Char} (h : w.isAlpha = true) : (fold w).isLower = true := by
  have hlt : w.toNat < 0x80 := by
    have hletter : (decide ('A'.val ≤ w.val ∧ w.val ≤ 'Z'.val) ||
        decide ('a'.val ≤ w.val) && decide (w.val ≤ 'z'.val)) = true := h
    simp only [Bool.or_eq_true, Bool.and_eq_true, decide_eq_true_eq,
      UInt32.le_iff_toNat_le] at hletter
    rcases hletter with ⟨-, hle⟩ | ⟨-, hle⟩ <;> exact Nat.lt_of_le_of_lt hle (by decide)
  exact of_ascii (p := fun c => c.isAlpha = true → (fold c).isLower = true)
    (by decide +kernel) hlt h

/-- What agrees with a letter without case is a word character. -/
theorem isWord_of_fold_eq {w c : Char} (hw : w.isAlpha = true) (h : fold w = fold c) :
    isWord c = true :=
  isWord_of_isLower_fold (h ▸ isLower_fold hw)

variable {word text rest letters : List Char}

theorem isWord_of_letters (hword : ∀ w ∈ word, w.isAlpha = true)
    (h : letters.map fold = word.map fold) {c : Char} (hc : c ∈ letters) : isWord c = true := by
  obtain ⟨w, hw, hfold⟩ := List.mem_map.1 (h ▸ List.mem_map_of_mem hc)
  exact isWord_of_fold_eq (hword w hw) hfold

theorem afterWord_eq_some_iff : afterWord word text = some rest ↔
    ∃ letters, text = letters ++ rest ∧ letters.map fold = word.map fold := by
  induction word generalizing text with
  | nil =>
    simp only [afterWord, Option.some.injEq, List.map_nil, List.map_eq_nil_iff]
    constructor
    · intro h
      exact ⟨[], h, rfl⟩
    · rintro ⟨letters, rfl, rfl⟩
      rfl
  | cons w word ih =>
    cases text with
    | nil =>
      simp only [afterWord, reduceCtorEq, false_iff]
      rintro ⟨letters, h, hfold⟩
      obtain ⟨rfl, -⟩ := List.nil_eq_append_iff.1 h
      cases hfold
    | cons c text =>
      rw [afterWord]
      constructor
      · intro h
        split at h
        · next heq =>
          obtain ⟨letters, rfl, hfold⟩ := ih.1 h
          exact ⟨c :: letters, rfl, by rw [List.map_cons, List.map_cons, hfold, heq]⟩
        · cases h
      · rintro ⟨letters, h, hfold⟩
        cases letters with
        | nil => cases hfold
        | cons l letters =>
          obtain ⟨rfl, rfl⟩ := List.cons.inj h
          obtain ⟨hc, hfold⟩ := List.cons.inj hfold
          rw [if_pos hc.symm]
          exact ih.2 ⟨letters, rfl, hfold⟩

/-! ## Cutting in front of a character -/

theorem takeWhile_append_cons {p : Char → Bool} {d : Char} (hd : p d = false) (v s : List Char) :
    (v ++ d :: s).takeWhile p = v.takeWhile p := by
  induction v with
  | nil => simp [hd]
  | cons c v ih =>
    by_cases hc : p c = true
    · simp [hc, ih]
    · simp [hc]

theorem dropWhile_append_cons {p : Char → Bool} {d : Char} (hd : p d = false) (v s : List Char) :
    (v ++ d :: s).dropWhile p = v.dropWhile p ++ d :: s := by
  induction v with
  | nil => simp [hd]
  | cons c v ih =>
    by_cases hc : p c = true
    · simp [hc, ih]
    · simp [hc]

/-! ## Blanks around a text -/

/-- A text of blanks. -/
def Blanks (s : List Char) : Prop := ∀ c ∈ s, isBlank c = true

instance (s : List Char) : Decidable (Blanks s) :=
  decidable_of_iff (s.all isBlank = true) List.all_eq_true

/-- A text with blanks around it. -/
def Padded (v text : List Char) : Prop :=
  ∃ front back, text = front ++ (v ++ back) ∧ Blanks front ∧ Blanks back

/-- A text that neither starts nor ends with a blank. -/
def Bare (v : List Char) : Prop :=
  (∀ c ∈ v.head?, isBlank c = false) ∧ ∀ c ∈ v.getLast?, isBlank c = false

instance (v : List Char) : Decidable (Bare v) :=
  decidable_of_iff (v.head?.all (!isBlank ·) = true ∧ v.getLast?.all (!isBlank ·) = true)
    (by simp [Bare, Option.all_eq_true])

section

variable {c : Char} {s v x y front back gap : List Char}

theorem trimRight_eq (s : List Char) : trimRight s = (trimLeft s.reverse).reverse := rfl

theorem trimLeft_cons (h : isBlank c = false) (s : List Char) : trimLeft (c :: s) = c :: s :=
  List.dropWhile_cons_of_neg (by simp [h])

theorem trimLeft_append (h : Blanks gap) (s : List Char) : trimLeft (gap ++ s) = trimLeft s :=
  List.dropWhile_append_of_pos h

theorem trimLeft_append_cons (h : isBlank c = false) (x y : List Char) :
    trimLeft (x ++ c :: y) = trimLeft x ++ c :: y :=
  dropWhile_append_cons h x y

theorem trimRight_append_cons (h : isBlank c = false) (x y : List Char) :
    trimRight (x ++ c :: y) = x ++ c :: trimRight y := by
  rw [trimRight_eq, trimRight_eq, List.reverse_append, List.reverse_cons, List.append_assoc,
    List.singleton_append, trimLeft_append_cons h]
  simp

theorem trimLeft_of_blanks (h : Blanks s) : trimLeft s = [] :=
  List.dropWhile_eq_nil_iff.2 h

theorem trim_of_blanks (h : Blanks s) : trim s = [] := by
  rw [trim, trimLeft_of_blanks h]
  rfl

theorem trimRight_append (h : Bare v) (hback : Blanks back) : trimRight (v ++ back) = v := by
  have hreverse : Blanks back.reverse := fun c hc => hback c (List.mem_reverse.1 hc)
  rw [trimRight_eq, List.reverse_append, trimLeft_append hreverse]
  rcases List.eq_nil_or_concat v with rfl | ⟨v, c, rfl⟩
  · rfl
  · have hc : isBlank c = false := h.2 c (by simp)
    rw [List.concat_eq_append, List.reverse_append, List.reverse_singleton,
      List.singleton_append, trimLeft_cons hc, List.reverse_cons, List.reverse_reverse]

theorem mem_of_mem_trimLeft (h : c ∈ trimLeft s) : c ∈ s :=
  (List.dropWhile_suffix _).subset h

theorem mem_of_mem_trim (h : c ∈ trim s) : c ∈ s := by
  rw [trim, trimRight_eq, List.mem_reverse] at h
  exact mem_of_mem_trimLeft (List.mem_reverse.1 (mem_of_mem_trimLeft h))

theorem trimLeft_eq_nil_iff : trimLeft s = [] ↔ Blanks s := List.dropWhile_eq_nil_iff

theorem isBlank_of_head?_trimLeft (h : (trimLeft s).head? = some c) : isBlank c = false := by
  have hnot := List.head?_dropWhile_not isBlank s
  rw [show (s.dropWhile isBlank).head? = some c from h] at hnot
  exact hnot

/-- **What is trimmed has no blanks around it.** -/
theorem bare_trim (s : List Char) : Bare (trim s) := by
  constructor
  · -- the first character stays where it is when the end is trimmed
    cases hleft : trimLeft s with
    | nil =>
      rw [trim, hleft]
      exact fun c hc => nomatch hc
    | cons d r =>
      have hd : isBlank d = false := isBlank_of_head?_trimLeft (by rw [hleft, List.head?_cons])
      have htrim := trimRight_append_cons hd [] r
      rw [List.nil_append, List.nil_append] at htrim
      rw [trim, hleft, htrim]
      rintro c hc
      obtain rfl := Option.some.inj hc
      exact hd
  · rw [trim, trimRight_eq, List.getLast?_reverse]
    exact fun c hc => isBlank_of_head?_trimLeft hc

theorem trim_eq_nil_iff : trim s = [] ↔ Blanks s := by
  refine ⟨fun h => ?_, trim_of_blanks⟩
  rw [trim, trimRight_eq, List.reverse_eq_nil_iff, trimLeft_eq_nil_iff] at h
  rw [← trimLeft_eq_nil_iff]
  -- a character that is left would have to be blank
  cases hleft : trimLeft s with
  | nil => rfl
  | cons d r =>
    have hblank : isBlank d = true := h d (by simp [hleft])
    rw [isBlank_of_head?_trimLeft (c := d) (by rw [hleft, List.head?_cons])] at hblank
    cases hblank

/-- **Trimming takes the blanks around a text away.** -/
theorem trim_of_padded (hv : v ≠ []) (hbare : Bare v) (h : Padded v s) : trim s = v := by
  obtain ⟨front, back, rfl, hfront, hback⟩ := h
  obtain ⟨c, v, rfl⟩ := List.exists_cons_of_ne_nil hv
  rw [trim, trimLeft_append hfront, List.cons_append, trimLeft_cons (hbare.1 c rfl),
    ← List.cons_append, trimRight_append hbare hback]

theorem trim_of_bare (h : Bare v) : trim v = v := by
  by_cases hv : v = []
  · rw [hv]
    rfl
  · exact trim_of_padded hv h ⟨[], [], by simp, by simp [Blanks], by simp [Blanks]⟩

end

end ShaderBuild.Text
