import Mathlib.Data.List.Forall2

/-!
# Answers and rows of answers

What a function that may fail answers for each item of a list, when it answers for all of them.
-/

namespace ShaderBuild

variable {ε α β : Type} {f : α → Except ε β}

/-! ## Paired lists -/

theorem exists_left_of_forall₂ {R : α → β → Prop} {l : List α} {m : List β}
    (h : List.Forall₂ R l m) {b : β} (hb : b ∈ m) : ∃ a ∈ l, R a b := by
  induction h with
  | nil => cases hb
  | cons hR _ ih =>
    rcases List.mem_cons.1 hb with rfl | hb
    · exact ⟨_, List.mem_cons_self, hR⟩
    · obtain ⟨a, ha, hR⟩ := ih hb
      exact ⟨a, List.mem_cons_of_mem _ ha, hR⟩

theorem exists_right_of_forall₂ {R : α → β → Prop} {l : List α} {m : List β}
    (h : List.Forall₂ R l m) {a : α} (ha : a ∈ l) : ∃ b ∈ m, R a b := by
  have hflip : List.Forall₂ (fun b a => R a b) m l := List.Forall₂.flip h
  exact exists_left_of_forall₂ hflip ha

/-! ## Answers for lists -/

theorem ok_of_toOption {x : Except ε α} {a : α} (h : x.toOption = some a) : x = .ok a := by
  cases x with
  | error e => cases h
  | ok b =>
    cases h
    rfl

/-- A row of answers begins with the answer to the first item. -/
theorem mapM_cons_ok {a : α} {l : List α} {bs : List β} (h : (a :: l).mapM f = .ok bs) :
    ∃ b rest, f a = .ok b ∧ l.mapM f = .ok rest ∧ bs = b :: rest := by
  rw [List.mapM_cons] at h
  cases hb : f a with
  | error e =>
    rw [hb] at h
    cases h
  | ok b =>
    rw [hb] at h
    cases hrest : l.mapM f with
    | error e =>
      rw [hrest] at h
      cases h
    | ok rest =>
      rw [hrest] at h
      cases h
      exact ⟨b, rest, rfl, rfl, rfl⟩

/-- A row of answers holds the answer to each item, in order. -/
theorem mapM_ok_iff {l : List α} {bs : List β} :
    l.mapM f = .ok bs ↔ List.Forall₂ (fun a b => f a = .ok b) l bs := by
  induction l generalizing bs with
  | nil =>
    rw [List.forall₂_nil_left_iff]
    exact ⟨fun h => (Except.ok.inj h).symm, fun h => by rw [h]; rfl⟩
  | cons a l ih =>
    rw [List.forall₂_cons_left_iff]
    constructor
    · intro h
      obtain ⟨b, rest, hb, hrest, rfl⟩ := mapM_cons_ok h
      exact ⟨b, rest, hb, ih.1 hrest, rfl⟩
    · rintro ⟨b, rest, hb, hrest, rfl⟩
      rw [List.mapM_cons, hb, ih.2 hrest]
      rfl

/-- A row without answers fails as its first item without one does. -/
theorem mapM_first_error {l : List α} {e : ε} (h : l.mapM f = .error e) :
    ∃ before a after, l = before ++ a :: after ∧ (∃ bs, before.mapM f = .ok bs) ∧
      f a = .error e := by
  induction l with
  | nil => cases h
  | cons a l ih =>
    rw [List.mapM_cons] at h
    cases hb : f a with
    | error e' =>
      rw [hb] at h
      cases h
      exact ⟨[], a, l, rfl, ⟨[], rfl⟩, hb⟩
    | ok b =>
      cases hrest : l.mapM f with
      | error e' =>
        rw [hb, hrest] at h
        cases h
        obtain ⟨before, a', after, rfl, ⟨bs, hbefore⟩, herror⟩ := ih hrest
        refine ⟨a :: before, a', after, rfl, ⟨b :: bs, ?_⟩, herror⟩
        rw [List.mapM_cons, hb, hbefore]
        rfl
      | ok rest =>
        rw [hb, hrest] at h
        cases h

/-- A row without answers fails as one of its items does. -/
theorem mapM_error {l : List α} {e : ε} (h : l.mapM f = .error e) : ∃ a ∈ l, f a = .error e := by
  obtain ⟨before, a, after, rfl, -, ha⟩ := mapM_first_error h
  exact ⟨a, by simp, ha⟩

/-- A row fails as its first item without an answer does. -/
theorem mapM_append_error {before after : List α} {a : α} {e : ε}
    (hbefore : ∀ b ∈ before, ∃ x, f b = .ok x) (ha : f a = .error e) :
    (before ++ a :: after).mapM f = .error e := by
  induction before with
  | nil =>
    rw [List.nil_append, List.mapM_cons, ha]
    rfl
  | cons b before ih =>
    obtain ⟨⟨x, hx⟩, hbefore⟩ := List.forall_mem_cons.1 hbefore
    rw [List.cons_append, List.mapM_cons, hx, ih hbefore]
    rfl

/-- The answers stand where their items stand. -/
theorem mapM_getElem?_ok {l : List α} {bs : List β} (h : l.mapM f = .ok bs) {i : Nat} {a : α}
    (hi : l[i]? = some a) : ∃ b, bs[i]? = some b ∧ f a = .ok b := by
  induction l generalizing bs i with
  | nil => cases hi
  | cons a' l ih =>
    obtain ⟨b, rest, hb, hrest, rfl⟩ := mapM_cons_ok h
    cases i with
    | zero =>
      cases hi
      exact ⟨b, rfl, hb⟩
    | succ i => exact ih hrest hi

/-- Every item has its answer in the row. -/
theorem mapM_mem_ok {l : List α} {bs : List β} (h : l.mapM f = .ok bs) {a : α} (ha : a ∈ l) :
    ∃ b ∈ bs, f a = .ok b := by
  obtain ⟨i, hi⟩ := List.getElem?_of_mem ha
  obtain ⟨b, hb, hf⟩ := mapM_getElem?_ok h hi
  exact ⟨b, List.mem_of_getElem? hb, hf⟩

/-- Every answer in the row is the answer for some item. -/
theorem exists_of_mem_mapM {l : List α} {bs : List β} (h : l.mapM f = .ok bs) {b : β}
    (hb : b ∈ bs) : ∃ a ∈ l, f a = .ok b := by
  induction l generalizing bs with
  | nil =>
    cases h
    cases hb
  | cons a l ih =>
    obtain ⟨b', rest, hb', hrest, rfl⟩ := mapM_cons_ok h
    rcases List.mem_cons.1 hb with rfl | hb
    · exact ⟨a, List.mem_cons_self, hb'⟩
    · obtain ⟨a', ha', hf⟩ := ih hrest hb
      exact ⟨a', List.mem_cons_of_mem _ ha', hf⟩

/-- There is a row of answers when there is one for each item. -/
theorem exists_mapM_ok {l : List α} (h : ∀ a ∈ l, ∃ b, f a = .ok b) : ∃ bs, l.mapM f = .ok bs := by
  induction l with
  | nil => exact ⟨[], rfl⟩
  | cons a l ih =>
    obtain ⟨⟨b, hb⟩, hl⟩ := List.forall_mem_cons.1 h
    obtain ⟨bs, hbs⟩ := ih hl
    exact ⟨b :: bs, by rw [List.mapM_cons, hb, hbs]; rfl⟩

/-- Functions that answer the same for each item answer the same for the row. -/
theorem mapM_congr {g : α → Except ε β} {l : List α} (h : ∀ a ∈ l, f a = g a) :
    l.mapM f = l.mapM g := by
  induction l with
  | nil => rfl
  | cons a l ih =>
    obtain ⟨ha, hl⟩ := List.forall_mem_cons.1 h
    rw [List.mapM_cons, List.mapM_cons, ha, ih hl]

/-! ## Answers for vectors -/

/-- The answers for a vector are those for its list. -/
theorem toList_mapM {n : Nat} (v : Vector α n) :
    (v.mapM f).map Vector.toList = v.toList.mapM f := by
  have harray := @Vector.toArray_mapM _ _ _ _ _ _ f v
  have hlist := @Array.toList_mapM _ _ _ _ _ f v.toArray
  rw [← harray] at hlist
  rw [← Vector.toList_toArray, ← hlist]
  cases v.mapM f <;> rfl

theorem get_ofFn {n : Nat} (g : Fin n → α) (i : Fin n) : (Vector.ofFn g).get i = g i := by
  show (Vector.ofFn g)[i.val] = g i
  simp

/-- The answers for the items of a vector. -/
theorem vector_mapM_ok {n : Nat} {v : Vector α n} {w : Vector β n} (h : v.mapM f = .ok w)
    (i : Fin n) : f (v.get i) = .ok (w.get i) := by
  have hlist : v.toList.mapM f = .ok w.toList := by rw [← toList_mapM, h]; rfl
  have hget : v.toList[i.val]? = some (v.get i) := by
    rw [Vector.getElem?_toList, Vector.getElem?_eq_getElem i.isLt]
    rfl
  obtain ⟨b, hb, hf⟩ := mapM_getElem?_ok hlist hget
  rw [Vector.getElem?_toList, Vector.getElem?_eq_getElem i.isLt] at hb
  cases hb
  exact hf

theorem exists_vector_mapM_ok {n : Nat} {v : Vector α n} (h : ∀ i, ∃ b, f (v.get i) = .ok b) :
    ∃ w, v.mapM f = .ok w := by
  obtain ⟨bs, hbs⟩ : ∃ bs, v.toList.mapM f = .ok bs := by
    refine exists_mapM_ok fun a ha => ?_
    obtain ⟨i, hi, rfl⟩ := List.getElem_of_mem ha
    have hlt : i < n := by simpa using hi
    obtain ⟨b, hb⟩ := h ⟨i, hlt⟩
    exact ⟨b, by rw [Vector.getElem_toList]; exact hb⟩
  rw [← toList_mapM] at hbs
  cases hw : v.mapM f with
  | error e =>
    rw [hw] at hbs
    cases hbs
  | ok w => exact ⟨w, rfl⟩

/-- A vector without answers fails as its first item without one does. -/
theorem vector_mapM_error {n : Nat} {v : Vector α n} {i : Fin n} {e : ε}
    (hbefore : ∀ j < i, ∃ x, f (v.get j) = .ok x) (hi : f (v.get i) = .error e) :
    v.mapM f = .error e := by
  have hlength : i.val < v.toList.length := by rw [Vector.length_toList]; exact i.isLt
  have hsplit := List.take_append_drop i.val v.toList
  rw [List.drop_eq_getElem_cons hlength, Vector.getElem_toList] at hsplit
  have hlist : v.toList.mapM f = .error e := by
    rw [← hsplit]
    refine mapM_append_error (fun b hb => ?_) hi
    obtain ⟨k, hk, rfl⟩ := List.mem_take_iff_getElem.1 hb
    have hlt : k < i.val := (Nat.lt_min.1 hk).1
    obtain ⟨x, hx⟩ := hbefore ⟨k, Nat.lt_trans hlt i.isLt⟩ hlt
    exact ⟨x, by rw [Vector.getElem_toList]; exact hx⟩
  rw [← toList_mapM] at hlist
  cases hv : v.mapM f with
  | error e' =>
    rw [hv] at hlist
    cases hlist
    rfl
  | ok w =>
    rw [hv] at hlist
    cases hlist

end ShaderBuild
