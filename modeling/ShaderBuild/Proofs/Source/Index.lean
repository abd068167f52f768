import ShaderBuild.Proofs.Source.Set
import ShaderBuild.Source.Index

/-!
# Indices stay in step

A set refuses a file for one reason (`Refused`), and else takes it (`FileSet.offer_cases`). A set
with indices does the same, as long as its maps say what its files say (`IndexedSet.InStep`), and
every insertion keeps them so, be it refused or not (`IndexedSet.offer_cases`,
`IndexedSet.InStep.enter`). So the two kinds of sets cannot be told apart, whatever they are offered
(`insertions_stay_in_step`).
-/

namespace ShaderBuild

open FileSet (Later)

/-! ## Why a file is refused -/

/-- A set with some files refuses a file with an error: its identity is taken, or else its first
output that is taken. The error names the file that has it. -/
inductive Refused (files : List SourceFile) (f : SourceFile) : Error → Prop
  | identity {g : SourceFile} (stored : g ∈ files) (same : g.identity = f.identity) :
      Refused files f (.duplicateIdentity f.identity g.path f.path)
  | output {g : SourceFile} {front back : List Path} {o p : Path}
      (fresh : ∀ g ∈ files, g.identity ≠ f.identity) (outputs : f.outputs = front ++ o :: back)
      (free : ∀ o ∈ front, ∀ g ∈ files, ∀ p ∈ g.outputs, o.sameAs p = false)
      (stored : g ∈ files) (owned : p ∈ g.outputs) (same : o.sameAs p = true) :
      Refused files f (.duplicateOutput o g.path f.path)

variable {files : List SourceFile} {f : SourceFile} {e e' : Error}

/-- A file that is apart from all others is not refused. -/
theorem Refused.not_later (h : Refused files f e) : ¬ ∀ g ∈ files, Later f g := by
  intro hlater
  cases h with
  | identity stored same => exact (hlater _ stored).1 same.symm
  | @output _ _ _ o p _ outputs _ stored owned same =>
    have ho : o ∈ f.outputs := by
      rw [outputs]
      simp
    rw [(hlater _ stored).2 o ho p owned] at same
    cases same

/-- The first of some outputs with a property is one output. -/
theorem eq_of_first {P : Path → Prop} {front front' back back' : List Path} {o o' : Path}
    (h : front ++ o :: back = front' ++ o' :: back') (ho : P o) (ho' : P o')
    (hfront : ∀ x ∈ front, ¬ P x) (hfront' : ∀ x ∈ front', ¬ P x) : o = o' := by
  rcases List.append_eq_append_iff.1 h with ⟨between, hbetween, htail⟩ | ⟨between, hbetween, htail⟩
  · cases between with
    | nil => exact (List.cons.inj htail).1
    | cons b between =>
      obtain rfl := (List.cons.inj htail).1
      exact absurd ho (hfront' o (by simp [hbetween]))
  · cases between with
    | nil => exact (List.cons.inj htail).1.symm
    | cons b between =>
      obtain rfl := (List.cons.inj htail).1
      exact absurd ho' (hfront o' (by simp [hbetween]))

/-- Among files that are apart there is one reason. -/
theorem Refused.unique (hapart : FileSet.Apart ⟨files⟩) (h : Refused files f e)
    (h' : Refused files f e') : e = e' := by
  cases h with
  | identity stored same =>
    cases h' with
    | identity stored' same' =>
      rw [hapart.eq_of_identity stored stored' (same.trans same'.symm)]
    | output fresh => exact absurd same (fresh _ stored)
  | @output g _ _ o p fresh outputs free stored owned same =>
    cases h' with
    | identity stored' same' => exact absurd same' (fresh _ stored')
    | @output g' _ _ o' p' _ outputs' free' stored' owned' same' =>
      have ho : o = o' := by
        refine eq_of_first (P := fun o => ∃ g ∈ files, ∃ p ∈ g.outputs, o.sameAs p = true)
          (outputs.symm.trans outputs') ⟨g, stored, p, owned, same⟩
          ⟨g', stored', p', owned', same'⟩ ?_ ?_
        · rintro x hx ⟨g, hg, p, hp, hsame⟩
          rw [free x hx g hg p hp] at hsame
          cases hsame
        · rintro x hx ⟨g, hg, p, hp, hsame⟩
          rw [free' x hx g hg p hp] at hsame
          cases hsame
      subst ho
      -- both owners have an output with the components of this one
      rcases hapart.eq_or_later stored stored' with rfl | hlater
      · rfl
      · have hpp : p.sameAs p' = true :=
          Path.sameAs_iff.2 ((Path.sameAs_iff.1 same).symm.trans (Path.sameAs_iff.1 same'))
        rw [hlater.2 p owned p' owned'] at hpp
        cases hpp

/-! ## Sets without indices -/

namespace FileSet

variable {fs : FileSet}

theorem owner?_eq_some {o : Path} {g : SourceFile} (h : fs.owner? o = some g) :
    g ∈ fs.files ∧ ∃ p ∈ g.outputs, o.sameAs p = true := by
  have hany : g.outputs.any o.sameAs = true :=
    List.find?_some (p := fun f : SourceFile => f.outputs.any o.sameAs) h
  exact ⟨List.mem_of_find?_eq_some h, List.any_eq_true.1 hany⟩

/-- The output that is named is the first one that is taken. -/
theorem clash?_eq_some {outputs : List Path} {o : Path} {g : SourceFile}
    (h : fs.clash? outputs = some (o, g)) : ∃ front back, outputs = front ++ o :: back ∧
      (∀ o ∈ front, ∀ g ∈ fs.files, ∀ p ∈ g.outputs, o.sameAs p = false) ∧
      fs.owner? o = some g := by
  obtain ⟨front, x, back, rfl, hx, hfront⟩ := List.findSome?_eq_some_iff.1 h
  obtain ⟨g', hg', heq⟩ := Option.map_eq_some_iff.1 hx
  obtain ⟨rfl, rfl⟩ := Prod.mk.inj heq
  exact ⟨front, back, rfl,
    fun o ho => owner?_eq_none_iff.1 (Option.map_eq_none_iff.1 (hfront o ho)), hg'⟩

/-- **A set refuses a file and stays as it is, or takes it.** -/
theorem offer_cases (fs : FileSet) (f : SourceFile) :
    (∃ e, Refused fs.files f e ∧ fs.offer f = (.error e, fs)) ∨
      (∀ g ∈ fs.files, Later f g) ∧ fs.offer f = (.ok (), ⟨fs.files ++ [f]⟩) := by
  cases hinsert : fs.insert f with
  | ok fs' =>
    obtain ⟨hlater, rfl⟩ := insert_ok_iff.1 hinsert
    exact .inr ⟨hlater, by rw [offer, hinsert]⟩
  | error e =>
    refine .inl ⟨e, ?_, by rw [offer, hinsert]⟩
    unfold insert at hinsert
    cases hget : fs.get? f.identity with
    | some g =>
      rw [hget] at hinsert
      cases hinsert
      obtain ⟨hmem, hidentity⟩ := get?_eq_some hget
      exact .identity hmem hidentity
    | none =>
      rw [hget] at hinsert
      cases hclash : fs.clash? f.outputs with
      | none =>
        rw [hclash] at hinsert
        cases hinsert
      | some c =>
        obtain ⟨o, g⟩ := c
        rw [hclash] at hinsert
        cases hinsert
        obtain ⟨front, back, houtputs, hfree, howner⟩ := clash?_eq_some hclash
        obtain ⟨hmem, p, hp, hsame⟩ := owner?_eq_some howner
        exact .output (get?_eq_none_iff.1 hget) houtputs hfree hmem hp hsame

end FileSet

/-! ## Sets with indices -/

namespace IndexedSet

variable {ix : IndexedSet}

/-- The maps of a set say what its files say. -/
structure InStep (ix : IndexedSet) : Prop where
  identity : ∀ identity i,
    ix.index? identity = some i ↔ ∃ f, ix.files[i]? = some f ∧ f.identity = identity
  output : ∀ o i, ix.owner? o = some i ↔
    ∃ f, ix.files[i]? = some f ∧ ∃ p ∈ f.outputs, o.sameAs p = true

theorem inStep_empty : InStep {} := by
  constructor <;> simp [index?, owner?]

namespace InStep

/-- The path of the file at the index of an identity is that of a file with this identity. -/
theorem exists_of_index? (h : ix.InStep) {identity : UInt32} {i : Nat}
    (hi : ix.index? identity = some i) :
    ∃ g ∈ ix.files, g.identity = identity ∧ ix.pathAt i = g.path := by
  obtain ⟨g, hg, hidentity⟩ := (h.identity identity i).1 hi
  refine ⟨g, List.mem_of_getElem? hg, hidentity, ?_⟩
  rw [pathAt, hg]
  rfl

theorem index?_eq_none_iff (h : ix.InStep) {identity : UInt32} :
    ix.index? identity = none ↔ ∀ g ∈ ix.files, g.identity ≠ identity := by
  rw [Option.eq_none_iff_forall_ne_some]
  constructor
  · intro hnone g hg heq
    obtain ⟨i, hi⟩ := List.getElem?_of_mem hg
    exact hnone i ((h.identity identity i).2 ⟨g, hi, heq⟩)
  · intro hnone i hi
    obtain ⟨g, hg, heq, -⟩ := h.exists_of_index? hi
    exact hnone g hg heq

theorem exists_of_owner? (h : ix.InStep) {o : Path} {i : Nat} (hi : ix.owner? o = some i) :
    ∃ g ∈ ix.files, (∃ p ∈ g.outputs, o.sameAs p = true) ∧ ix.pathAt i = g.path := by
  obtain ⟨g, hg, howned⟩ := (h.output o i).1 hi
  refine ⟨g, List.mem_of_getElem? hg, howned, ?_⟩
  rw [pathAt, hg]
  rfl

theorem owner?_eq_none_iff (h : ix.InStep) {o : Path} :
    ix.owner? o = none ↔ ∀ g ∈ ix.files, ∀ p ∈ g.outputs, o.sameAs p = false := by
  rw [Option.eq_none_iff_forall_ne_some]
  constructor
  · intro hnone g hg p hp
    obtain ⟨i, hi⟩ := List.getElem?_of_mem hg
    rw [Bool.eq_false_iff]
    intro hsame
    exact hnone i ((h.output o i).2 ⟨g, hi, p, hp, hsame⟩)
  · intro hnone i hi
    obtain ⟨g, hg, ⟨p, hp, hsame⟩, -⟩ := h.exists_of_owner? hi
    rw [hnone g hg p hp] at hsame
    cases hsame

/-- Each key of the maps has one index, so the files are apart. -/
theorem apart (h : ix.InStep) : FileSet.Apart ⟨ix.files⟩ := by
  refine List.pairwise_iff_getElem.2 fun i j hi hj hlt => ⟨fun heq => ?_, fun o ho p hp => ?_⟩
  · have hfirst := (h.identity _ i).2 ⟨_, List.getElem?_eq_getElem hi, rfl⟩
    have hsecond := (h.identity _ j).2 ⟨_, List.getElem?_eq_getElem hj, rfl⟩
    rw [heq, hsecond, Option.some.injEq] at hfirst
    omega
  · rw [Bool.eq_false_iff]
    intro hsame
    have hfirst := (h.output o i).2
      ⟨_, List.getElem?_eq_getElem hi, o, ho, Path.sameAs_iff.2 rfl⟩
    have hsecond := (h.output o j).2 ⟨_, List.getElem?_eq_getElem hj, p, hp, hsame⟩
    rw [hsecond, Option.some.injEq] at hfirst
    omega

end InStep

/-! ### The steps of an insertion -/

/-- The entry in front counts. -/
theorem lookup_entered {κ : Type} [BEq κ] (key k : κ) (i : Nat) (map : List (κ × Nat)) :
    ((k, i) :: map).lookup key = if (key == k) = true then some i else map.lookup key := by
  rw [List.lookup_cons]
  cases key == k <;> rfl

theorem perform_bind (ix : IndexedSet) (first : Step) (second : Unit → Step) :
    ix.perform (first >>= second) = match ix.perform first with
      | (.ok (), ix') => ix'.perform (second ())
      | (.error e, ix') => (.error e, ix') := by
  unfold perform
  simp only [ExceptT.run_bind, StateT.run_bind]
  obtain ⟨r, ix'⟩ := StateT.run (ExceptT.run first) ix
  cases r <;> rfl

theorem perform_checkIdentity (ix : IndexedSet) (f : SourceFile) :
    ix.perform (checkIdentity f) = match ix.index? f.identity with
      | some i => (.error (.duplicateIdentity f.identity (ix.pathAt i) f.path), ix)
      | none => (.ok (), ix) := by
  show StateT.run (ExceptT.run (match ix.index? f.identity with
    | some i => (throw (.duplicateIdentity f.identity (ix.pathAt i) f.path) : Step)
    | none => return ())) ix = _
  cases ix.index? f.identity <;> rfl

theorem perform_checkOutput (ix : IndexedSet) (f : SourceFile) (o : Path) :
    ix.perform (checkOutput f o) = match ix.owner? o with
      | some i => (.error (.duplicateOutput o (ix.pathAt i) f.path), ix)
      | none => (.ok (), ix) := by
  show StateT.run (ExceptT.run (match ix.owner? o with
    | some i => (throw (.duplicateOutput o (ix.pathAt i) f.path) : Step)
    | none => return ())) ix = _
  cases ix.owner? o <;> rfl

/-- Checking outputs ends at the first one that is taken. -/
theorem perform_checkOutputs (ix : IndexedSet) (f : SourceFile) (outputs : List Path) :
    ix.perform (outputs.forM (checkOutput f)) =
      match outputs.findSome? fun o => (ix.owner? o).map fun i => (o, i) with
      | some (o, i) => (.error (.duplicateOutput o (ix.pathAt i) f.path), ix)
      | none => (.ok (), ix) := by
  induction outputs with
  | nil => rfl
  | cons o outputs ih =>
    show ix.perform (checkOutput f o >>= fun _ => outputs.forM (checkOutput f)) = _
    rw [perform_bind, perform_checkOutput, List.findSome?_cons]
    cases ix.owner? o with
    | none => exact ih
    | some i => rfl

/-- Entering outputs adds them to the map, and leaves files and identities as they are. -/
theorem perform_enterOutputs (ix : IndexedSet) (outputs : List Path) :
    ∃ byOutput, ix.perform (outputs.forM enterOutput) = (.ok (), { ix with byOutput }) ∧
      ∀ o, byOutput.lookup o.components =
        if ∃ p ∈ outputs, o.sameAs p = true then some ix.size else ix.owner? o := by
  induction outputs generalizing ix with
  | nil => exact ⟨ix.byOutput, rfl, fun o => by simp [owner?]⟩
  | cons p outputs ih =>
    obtain ⟨byOutput, hrest, hlookup⟩ :=
      ih { ix with byOutput := (p.components, ix.size) :: ix.byOutput }
    refine ⟨byOutput, ?_, fun o => ?_⟩
    · show ix.perform (enterOutput p >>= fun _ => outputs.forM enterOutput) = _
      rw [perform_bind]
      exact hrest
    · have hfirst : ({ ix with byOutput := (p.components, ix.size) :: ix.byOutput }
          : IndexedSet).owner? o = if o.sameAs p = true then some ix.size else ix.owner? o :=
        lookup_entered _ _ _ _
      rw [hlookup, hfirst]
      by_cases hp : o.sameAs p = true
      · simp [hp, size]
      · simp [hp, size]

/-- The set with one more file. -/
def Enters (ix : IndexedSet) (f : SourceFile) (ix' : IndexedSet) : Prop :=
  ix'.files = ix.files ++ [f] ∧
  (∀ identity, ix'.index? identity =
    if identity = f.identity then some ix.size else ix.index? identity) ∧
  ∀ o, ix'.owner? o =
    if ∃ p ∈ f.outputs, o.sameAs p = true then some ix.size else ix.owner? o

/-- **A set refuses a file and stays as it is, or enters it.** -/
theorem offer_cases (h : ix.InStep) (f : SourceFile) :
    (∃ e, Refused ix.files f e ∧ ix.offer f = (.error e, ix)) ∨
      (∀ g ∈ ix.files, Later f g) ∧ ∃ ix', ix.offer f = (.ok (), ix') ∧ ix.Enters f ix' := by
  unfold offer insert
  rw [perform_bind, perform_checkIdentity]
  cases hindex : ix.index? f.identity with
  | some i =>
    obtain ⟨g, hg, hidentity, hpath⟩ := h.exists_of_index? hindex
    exact .inl ⟨_, .identity hg hidentity, by simp only [hpath]⟩
  | none =>
    have hfresh := h.index?_eq_none_iff.1 hindex
    simp only
    rw [perform_bind, perform_checkOutputs]
    cases hclash : f.outputs.findSome? fun o => (ix.owner? o).map fun i => (o, i) with
    | some c =>
      obtain ⟨o, i⟩ := c
      obtain ⟨front, x, back, houtputs, hx, hfront⟩ := List.findSome?_eq_some_iff.1 hclash
      obtain ⟨j, hj, heq⟩ := Option.map_eq_some_iff.1 hx
      obtain ⟨rfl, rfl⟩ := Prod.mk.inj heq
      obtain ⟨g, hg, ⟨p, hp, hsame⟩, hpath⟩ := h.exists_of_owner? hj
      refine .inl ⟨_, .output hfresh houtputs (fun o ho => ?_) hg hp hsame, ?_⟩
      · exact h.owner?_eq_none_iff.1 (Option.map_eq_none_iff.1 (hfront o ho))
      · simp only [hpath]
    | none =>
      obtain ⟨byOutput, hentered, hlookup⟩ := perform_enterOutputs ix f.outputs
      refine .inr ⟨fun g hg => ⟨Ne.symm (hfresh g hg), fun o ho p hp => ?_⟩, ?_⟩
      · have hnone := List.findSome?_eq_none_iff.1 hclash o ho
        exact h.owner?_eq_none_iff.1 (Option.map_eq_none_iff.1 hnone) g hg p hp
      · refine ⟨⟨ix.files ++ [f], (f.identity, ix.size) :: ix.byIdentity, byOutput⟩, ?_, rfl,
          fun identity => ?_, hlookup⟩
        · simp only
          rw [perform_bind, hentered]
          rfl
        · rw [index?, lookup_entered]
          simp only [beq_iff_eq]
          rfl

/-- **Entering a file keeps the maps in step.** -/
theorem InStep.enter (h : ix.InStep) {ix' : IndexedSet} (hlater : ∀ g ∈ ix.files, Later f g)
    (henter : ix.Enters f ix') : ix'.InStep := by
  obtain ⟨hfiles, hindex, howner⟩ := henter
  have hat : ∀ i (P : SourceFile → Prop), (∃ g, ix'.files[i]? = some g ∧ P g) ↔
      (∃ g, ix.files[i]? = some g ∧ P g) ∨ i = ix.size ∧ P f := by
    intro i P
    rw [hfiles, size]
    rcases Nat.lt_trichotomy i ix.files.length with hlt | rfl | hgt
    · rw [List.getElem?_append_left hlt]
      simp [Nat.ne_of_lt hlt]
    · simp
    · rw [List.getElem?_eq_none (by simp; omega), List.getElem?_eq_none (by omega)]
      simp [Nat.ne_of_gt hgt]
  -- a key that had no index gets that of the new file
  have hnew : ∀ (found : Option Nat) (P : Prop) (i : Nat), found = none → P →
      (some ix.size = some i ↔ found = some i ∨ i = ix.size ∧ P) := by
    rintro _ P i rfl hP
    simp [hP, eq_comm]
  refine ⟨fun identity i => ?_, fun o i => ?_⟩
  · rw [hindex, hat i (·.identity = identity), ← h.identity]
    split
    · next heq =>
      have hnone : ix.index? identity = none :=
        h.index?_eq_none_iff.2 fun g hg => heq ▸ (hlater g hg).1.symm
      exact hnew _ _ i hnone heq.symm
    · next hne => simp [Ne.symm hne]
  · rw [howner, hat i fun g => ∃ p ∈ g.outputs, o.sameAs p = true, ← h.output]
    split
    · next howned =>
      obtain ⟨p, hp, hsame⟩ := howned
      have hnone : ix.owner? o = none := by
        refine h.owner?_eq_none_iff.2 fun g hg q hq => ?_
        have hapart := (hlater g hg).2 p hp q hq
        rw [Bool.eq_false_iff, ne_eq, Path.sameAs_iff] at hapart ⊢
        rwa [Path.sameAs_iff.1 hsame]
      exact hnew _ _ i hnone ⟨p, hp, hsame⟩
    · next hfree => simp [hfree]

end IndexedSet

/-! ## Rows of calls -/

/-- Two kinds of states that answer each call alike and stay related answer rows of calls alike. -/
theorem answersTo_related {α β σ τ : Type} {call : σ → α → β × σ} {call' : τ → α → β × τ}
    {R : σ → τ → Prop} (alike : ∀ s t a, R s t →
      (call s a).1 = (call' t a).1 ∧ R (call s a).2 (call' t a).2)
    {s : σ} {t : τ} (h : R s t) (calls : List α) :
    (answersTo call s calls).1 = (answersTo call' t calls).1 ∧
      R (answersTo call s calls).2 (answersTo call' t calls).2 := by
  induction calls generalizing s t with
  | nil => exact ⟨rfl, h⟩
  | cons a calls ih =>
    obtain ⟨hanswer, hstep⟩ := alike s t a h
    obtain ⟨hanswers, hend⟩ := ih hstep
    exact ⟨congrArg₂ List.cons hanswer hanswers, hend⟩

/-- The files that were taken, in the order in which they were offered. -/
def taken (calls : List SourceFile) (answers : List (Except Error Unit)) : List SourceFile :=
  ((calls.zip answers).filter (·.2.isOk)).map (·.1)

theorem mem_of_mem_taken {calls : List SourceFile} {answers : List (Except Error Unit)}
    (h : f ∈ taken calls answers) : f ∈ calls := by
  obtain ⟨⟨f, answer⟩, hpair, rfl⟩ := List.mem_map.1 h
  exact (List.of_mem_zip (List.mem_of_mem_filter hpair)).1

namespace FileSet

/-- A set holds what it took. -/
theorem files_offerAll (fs : FileSet) (calls : List SourceFile) :
    (fs.offerAll calls).2.files = fs.files ++ taken calls (fs.offerAll calls).1 := by
  induction calls generalizing fs with
  | nil => simp [offerAll, answersTo, taken]
  | cons f calls ih =>
    have hcons : fs.offerAll (f :: calls) = ((fs.offer f).1 :: ((fs.offer f).2.offerAll calls).1,
      ((fs.offer f).2.offerAll calls).2) := rfl
    rw [hcons, ih]
    rcases fs.offer_cases f with ⟨e, -, hoffer⟩ | ⟨-, hoffer⟩
    · rw [hoffer]
      rfl
    · rw [hoffer, List.append_assoc]
      rfl

end FileSet

namespace IndexedSet

/-- The set has the files of another one, and its maps are in step. -/
def Indexes (ix : IndexedSet) (fs : FileSet) : Prop := ix.files = fs.files ∧ ix.InStep

/-- **Nobody can tell a set with indices from one without.** -/
theorem Indexes.offer {ix : IndexedSet} {fs : FileSet} (h : ix.Indexes fs) (f : SourceFile) :
    (ix.offer f).1 = (fs.offer f).1 ∧ (ix.offer f).2.Indexes (fs.offer f).2 := by
  obtain ⟨hfiles, hstep⟩ := h
  obtain ⟨files⟩ := fs
  obtain rfl : ix.files = files := hfiles
  have hapart := hstep.apart
  rcases ix.offer_cases hstep f with ⟨e, hrefused, hoffer⟩ | ⟨hlater, ix', hoffer, henter⟩ <;>
    rcases FileSet.offer_cases ⟨ix.files⟩ f with ⟨e', hrefused', hoffer'⟩ | ⟨hlater', hoffer'⟩
  · rw [hoffer, hoffer', hrefused.unique hapart hrefused']
    exact ⟨rfl, rfl, hstep⟩
  · exact absurd hlater' hrefused.not_later
  · exact absurd hlater hrefused'.not_later
  · rw [hoffer, hoffer']
    exact ⟨rfl, henter.1, hstep.enter hlater henter⟩

end IndexedSet

namespace IndexedSet.Indexes

variable {ix : IndexedSet} {fs : FileSet} {identity : UInt32}

theorem empty : Indexes {} {} := ⟨rfl, inStep_empty⟩

theorem offerAll (h : ix.Indexes fs) (calls : List SourceFile) :
    (ix.offerAll calls).1 = (fs.offerAll calls).1 ∧
      (ix.offerAll calls).2.Indexes (fs.offerAll calls).2 :=
  answersTo_related (R := Indexes) (fun _ _ f h => h.offer f) h calls

/-- An index is found for the identities of the files. -/
theorem index?_eq_some_iff (h : ix.Indexes fs) {i : Nat} :
    ix.index? identity = some i ↔ (fs.files[i]?).map (·.identity) = some identity := by
  rw [h.2.identity, h.1, Option.map_eq_some_iff]

theorem index?_eq (h : ix.Indexes fs) : (fs.index? identity).map Fin.val = ix.index? identity := by
  cases hindex : fs.index? identity with
  | none =>
    rw [FileSet.index?_eq_none_iff, ← h.1] at hindex
    exact (h.2.index?_eq_none_iff.2 hindex).symm
  | some i =>
    refine (h.index?_eq_some_iff.2 ?_).symm
    rw [List.getElem?_eq_getElem i.isLt, Option.map_some]
    exact congrArg some (FileSet.index?_eq_some hindex)

theorem get?_eq (h : ix.Indexes fs) : fs.get? identity = ix.get? identity := by
  rw [get?, ← h.index?_eq, h.1, FileSet.get?]
  cases fs.index? identity with
  | none => rfl
  | some i => exact (List.getElem?_eq_getElem i.isLt).symm

theorem apart (h : ix.Indexes fs) : fs.Apart := by
  have := h.2.apart
  rwa [h.1] at this

end IndexedSet.Indexes

/-- After any row of insertions the files of a set are apart. -/
theorem FileSet.apart_offerAll (calls : List SourceFile) : (FileSet.offerAll {} calls).2.Apart :=
  (IndexedSet.Indexes.empty.offerAll calls).2.apart

theorem FileSet.offer_error_iff {fs : FileSet} (hapart : fs.Apart) :
    (fs.offer f).1 = .error e ↔ Refused fs.files f e := by
  rcases fs.offer_cases f with ⟨e', hrefused, hoffer⟩ | ⟨hlater, hoffer⟩
  · rw [hoffer, Except.error.injEq]
    exact ⟨fun heq => heq ▸ hrefused, hrefused.unique hapart⟩
  · rw [hoffer]
    constructor
    · intro heq
      cases heq
    · intro hrefused
      exact absurd hlater hrefused.not_later

/-- A set is as it was when it refuses a file. -/
theorem FileSet.offer_of_error {fs : FileSet} (h : (fs.offer f).1 = .error e) :
    fs.offer f = (.error e, fs) := by
  rcases fs.offer_cases f with ⟨e', -, hoffer⟩ | ⟨-, hoffer⟩ <;> rw [hoffer] at h ⊢ <;> cases h
  rfl

theorem IndexedSet.offer_of_error {ix : IndexedSet} (hstep : ix.InStep)
    (h : (ix.offer f).1 = .error e) : ix.offer f = (.error e, ix) := by
  rcases ix.offer_cases hstep f with ⟨e', -, hoffer⟩ | ⟨-, ix', hoffer, -⟩ <;>
    rw [hoffer] at h ⊢ <;> cases h
  rfl

/-- **Indices stay in step, and a file that is refused leaves no trace.** After any row of
insertions a set holds the files that it took, in order, and no two of them share an identity. An
identity has the index of the file with this identity, and finds this file. The next file is refused
exactly if its identity is taken, or else one of its outputs; the error names the file that has it,
and the first such output; and the set, with its maps, is as it was. The set without maps gives the
same answers throughout. -/
theorem insertions_stay_in_step (calls : List SourceFile) : ∃ answers ix fs,
    IndexedSet.offerAll {} calls = (answers, ix) ∧ FileSet.offerAll {} calls = (answers, fs) ∧
    ix.files = fs.files ∧ fs.files = taken calls answers ∧
    (fs.files.map (·.identity)).Nodup ∧
    (∀ identity i, ix.index? identity = some i ↔
      (fs.files[i]?).map (·.identity) = some identity) ∧
    (∀ identity f, ix.get? identity = some f ↔ f ∈ fs.files ∧ f.identity = identity) ∧
    (∀ identity, (fs.index? identity).map Fin.val = ix.index? identity ∧
      fs.get? identity = ix.get? identity) ∧
    ∀ f e, ((ix.offer f).1 = .error e ↔ Refused fs.files f e) ∧
      ((ix.offer f).1 = .error e → ix.offer f = (.error e, ix) ∧ fs.offer f = (.error e, fs)) := by
  obtain ⟨hanswers, hindexes⟩ := IndexedSet.Indexes.empty.offerAll calls
  have hfiles := FileSet.files_offerAll {} calls
  rw [List.nil_append] at hfiles
  generalize IndexedSet.offerAll {} calls = left at hanswers hindexes
  generalize FileSet.offerAll {} calls = right at hanswers hindexes hfiles
  obtain ⟨answers, ix⟩ := left
  obtain ⟨answers', fs⟩ := right
  obtain rfl : answers = answers' := hanswers
  have hapart := hindexes.apart
  refine ⟨answers, ix, fs, rfl, rfl, hindexes.1, hfiles, ?_, fun _ _ => hindexes.index?_eq_some_iff,
    fun identity f => ?_, fun _ => ⟨hindexes.index?_eq, hindexes.get?_eq⟩, fun f e => ⟨?_, ?_⟩⟩
  · exact List.pairwise_map.2 (hapart.imp fun hlater => hlater.1)
  · rw [← hindexes.get?_eq]
    exact hapart.get?_eq_some_iff
  · rw [(hindexes.offer f).1]
    exact FileSet.offer_error_iff hapart
  · intro herror
    exact ⟨IndexedSet.offer_of_error hindexes.2 herror,
      FileSet.offer_of_error ((hindexes.offer f).1.symm.trans herror)⟩

end ShaderBuild
