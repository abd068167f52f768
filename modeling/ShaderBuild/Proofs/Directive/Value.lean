import ShaderBuild.Directive
import ShaderBuild.Proofs.Text.Word

/-!
# Values as they are written

A value stands between blanks (`IsValue`), a list of defines has semicolons between them (`Joined`),
and a stage goes by one of its names in any ASCII case. Such texts are read as what they were
written from, whatever blanks are trimmed first (`trim_of_padded`, `defines_of_joined`,
`ofAlias?_of_alias`).
-/

namespace ShaderBuild.Header

open Text

/-! ## What is written -/

/-- A value that can stand in a header: something without blanks around it that does not end the
item or look like another tag. -/
structure IsValue (v : List Char) : Prop where
  ne_nil : v ≠ []
  bare : Bare v
  comma : ',' ∉ v
  colon : ':' ∉ v

instance (v : List Char) : Decidable (IsValue v) :=
  have : Decidable (v ≠ []) := decidable_of_iff (v.isEmpty = false) (by simp)
  decidable_of_iff (v ≠ [] ∧ Bare v ∧ ',' ∉ v ∧ ':' ∉ v)
    ⟨fun h => ⟨h.1, h.2.1, h.2.2.1, h.2.2.2⟩, fun h => ⟨h.1, h.2, h.3, h.4⟩⟩

/-- A text that lists defines, with semicolons between them and blanks anywhere. One more semicolon
may stand behind the last. -/
inductive Joined : List String → List Char → Prop
  | blank {s : List Char} : Blanks s → Joined [] s
  | last {x : String} {s : List Char} : Padded x.toList s → Joined [x] s
  | cons {x : String} {xs : List String} {s rest : List Char} : Padded x.toList s →
      Joined xs rest → Joined (x :: xs) (s ++ ';' :: rest)

/-! ## Blanks around values -/

variable {v s r : List Char} {c : Char} {x : String} {xs : List String}

theorem not_mem_of_padded (h : Padded v s) (hv : c ∉ v) (hc : isBlank c = false) : c ∉ s := by
  obtain ⟨front, back, rfl, hfront, hback⟩ := h
  have hnot : ∀ gap, Blanks gap → c ∉ gap := by
    intro gap hgap hmem
    rw [hgap c hmem] at hc
    cases hc
  rw [List.mem_append, List.mem_append]
  rintro (hmem | hmem | hmem)
  · exact hnot front hfront hmem
  · exact hv hmem
  · exact hnot back hback hmem

theorem trimLeft_padded (hv : IsValue v) (h : Padded v s) : Padded v (trimLeft s) := by
  obtain ⟨front, back, rfl, hfront, hback⟩ := h
  obtain ⟨c, v, rfl⟩ := List.exists_cons_of_ne_nil hv.ne_nil
  refine ⟨[], back, ?_, fun _ hc => absurd hc List.not_mem_nil, hback⟩
  rw [trimLeft_append hfront, List.cons_append, trimLeft_cons (hv.bare.1 c rfl), List.nil_append]

theorem trimRight_padded (hv : IsValue v) (h : Padded v s) : Padded v (trimRight s) := by
  obtain ⟨front, back, rfl, hfront, hback⟩ := h
  obtain ⟨v, c, rfl⟩ := (List.eq_nil_or_concat v).resolve_left hv.ne_nil
  have hc : isBlank c = false := hv.bare.2 c (by simp)
  have hnone := trimRight_append (v := []) ⟨by simp, by simp⟩ hback
  rw [List.nil_append] at hnone
  refine ⟨front, [], ?_, hfront, fun _ hc => absurd hc List.not_mem_nil⟩
  rw [List.concat_eq_append, List.append_assoc, List.singleton_append, ← List.append_assoc,
    trimRight_append_cons hc, hnone, List.append_nil, List.append_assoc]

theorem trimLeft_joined (hxs : ∀ x ∈ xs, IsValue x.toList) (h : Joined xs s) :
    Joined xs (trimLeft s) := by
  cases h with
  | blank h => exact .blank fun c hc => h c (mem_of_mem_trimLeft hc)
  | last h => exact .last (trimLeft_padded (hxs _ List.mem_cons_self) h)
  | cons h hrest =>
    rw [trimLeft_append_cons (by decide)]
    exact .cons (trimLeft_padded (hxs _ List.mem_cons_self) h) hrest

theorem trimRight_joined (hxs : ∀ x ∈ xs, IsValue x.toList) (h : Joined xs s) :
    Joined xs (trimRight s) := by
  induction h with
  | blank h =>
    refine .blank fun c hc => ?_
    rw [trimRight_eq, List.mem_reverse] at hc
    exact h c (List.mem_reverse.1 (mem_of_mem_trimLeft hc))
  | last h => exact .last (trimRight_padded (hxs _ List.mem_cons_self) h)
  | cons h _ ih =>
    rw [trimRight_append_cons (by decide)]
    exact .cons h (ih fun x hx => hxs x (List.mem_cons_of_mem _ hx))

theorem trim_joined (hxs : ∀ x ∈ xs, IsValue x.toList) (h : Joined xs s) : Joined xs (trim s) :=
  trimRight_joined hxs (trimLeft_joined hxs h)

/-! ## Defines -/

theorem splitSemicolon_of_not_mem (h : ';' ∉ s) : splitSemicolon s = [s] := by
  induction s with
  | nil => rfl
  | cons c s ih =>
    obtain ⟨hc, hs⟩ := not_or.1 (mt List.mem_cons.2 h)
    rw [splitSemicolon, if_neg fun heq => hc heq.symm, ih hs]

theorem splitSemicolon_append (h : ';' ∉ s) (r : List Char) :
    splitSemicolon (s ++ ';' :: r) = s :: splitSemicolon r := by
  induction s with
  | nil => rfl
  | cons c s ih =>
    obtain ⟨hc, hs⟩ := not_or.1 (mt List.mem_cons.2 h)
    rw [List.cons_append, splitSemicolon, if_neg fun heq => hc heq.symm, ih hs]

theorem defines_append (h : ';' ∉ s) (r : List Char) :
    Header.defines (s ++ ';' :: r) = Header.defines s ++ Header.defines r := by
  unfold Header.defines
  rw [splitSemicolon_append h, splitSemicolon_of_not_mem h, ← List.singleton_append,
    List.map_append, List.filter_append, List.map_append]

theorem defines_padded (hx : IsValue x.toList) (hsemicolon : ';' ∉ x.toList)
    (h : Padded x.toList s) : Header.defines s = [x] := by
  have hs : ';' ∉ s := not_mem_of_padded h hsemicolon (by decide)
  have hne : x.toList.isEmpty = false := List.isEmpty_eq_false_iff.2 hx.ne_nil
  unfold Header.defines
  rw [splitSemicolon_of_not_mem hs, List.map_singleton, trim_of_padded hx.ne_nil hx.bare h,
    List.filter_cons_of_pos (by simp [hne]), List.filter_nil, List.map_singleton,
    String.ofList_toList]

/-- **Defines are read as they were listed.** -/
theorem defines_of_joined (hxs : ∀ x ∈ xs, IsValue x.toList ∧ ';' ∉ x.toList)
    (h : Joined xs s) : Header.defines s = xs := by
  induction h with
  | @blank s h =>
    have hs : ';' ∉ s := fun hmem => absurd (h _ hmem) (by decide)
    unfold Header.defines
    rw [splitSemicolon_of_not_mem hs, List.map_singleton, trim_of_blanks h]
    rfl
  | last h => exact defines_padded (hxs _ List.mem_cons_self).1 (hxs _ List.mem_cons_self).2 h
  | cons h _ ih =>
    obtain ⟨hx, hsemicolon⟩ := hxs _ List.mem_cons_self
    rw [defines_append (not_mem_of_padded h hsemicolon (by decide)),
      defines_padded hx hsemicolon h, ih fun x hx => hxs x (List.mem_cons_of_mem _ hx),
      List.singleton_append]

theorem not_mem_of_joined (hxs : ∀ x ∈ xs, c ∉ x.toList) (h : Joined xs s)
    (hc : isBlank c = false) (hsemicolon : c ≠ ';') : c ∉ s := by
  induction h with
  | blank h =>
    intro hmem
    rw [h c hmem] at hc
    cases hc
  | last h => exact not_mem_of_padded h (hxs _ List.mem_cons_self) hc
  | cons h _ ih =>
    rw [List.mem_append, List.mem_cons]
    rintro (hmem | hmem | hmem)
    · exact not_mem_of_padded h (hxs _ List.mem_cons_self) hc hmem
    · exact hsemicolon hmem
    · exact ih (fun x hx => hxs x (List.mem_cons_of_mem _ hx)) hmem

/-! ## Stages -/

theorem isValue_of_alias {name : String} {stage : Stage} (hname : (name, stage) ∈ Stage.aliases)
    (h : v.map Char.toLower = name.toList) : IsValue v := by
  have hlower : ∀ a ∈ Stage.aliases, a.1.toList ≠ [] ∧ a.1.toList.all Char.isLower = true := by
    decide
  obtain ⟨hne, hletters⟩ := hlower _ hname
  have hword : ∀ c ∈ v, isWord c = true := fun c hc =>
    isWord_of_isLower_toLower (List.all_eq_true.1 hletters _ (h ▸ List.mem_map_of_mem hc))
  have hblank : ∀ c ∈ v, isBlank c = false := by
    intro c hc
    rw [Bool.eq_false_iff]
    intro hb
    have := hword c hc
    rw [isWord_of_isBlank hb] at this
    cases this
  refine ⟨?_, ⟨fun c hc => hblank c (List.mem_of_head? hc), fun c hc =>
    hblank c (List.mem_of_getLast? hc)⟩, fun hc => absurd (hword _ hc) (by decide),
    fun hc => absurd (hword _ hc) (by decide)⟩
  rintro rfl
  exact hne h.symm

theorem ofAlias?_of_alias {name : String} {stage : Stage} (hname : (name, stage) ∈ Stage.aliases)
    (h : v.map Char.toLower = name.toList) :
    Stage.ofAlias? (String.ofList v) = some stage := by
  have hlookup : ∀ a ∈ Stage.aliases, Stage.aliases.lookup a.1 = some a.2 := by decide
  have hmap : (String.ofList v).map Char.toLower = name := by
    apply String.toList_injective
    rw [String.toList_map, String.toList_ofList, h]
  unfold Stage.ofAlias?
  rw [hmap]
  exact hlookup _ hname

end ShaderBuild.Header
