import ShaderBuild.Proofs.Action

/-!
# Actions side by side

Two runs are compared step by step. From related trees, two actions *match* (`Matches`) when their
answers agree (`Agree`: the same error, or related values) and the trees they leave behind are
related again. The relation behind the last step may be wider than the one in front of the first.
What was told before and which jobs were handed out makes no difference to any action.
-/

namespace ShaderBuild.Action

variable {α β α' β' : Type}

/-- Both answers are the same error, or both are values, and these are related. -/
inductive Agree (Q : α → β → Prop) : Except Error α → Except Error β → Prop
  | error (e : Error) : Agree Q (.error e) (.error e)
  | ok {a : α} {b : β} (h : Q a b) : Agree Q (.ok a) (.ok b)

theorem Agree.refl {Q : α → α → Prop} (hQ : ∀ a, Q a a) (r : Except Error α) : Agree Q r r := by
  cases r with
  | error e => exact .error e
  | ok a => exact .ok (hQ a)

theorem agree_eq_iff {r r' : Except Error α} : Agree Eq r r' ↔ r = r' := by
  constructor
  · intro h
    cases h with
    | error e => rfl
    | ok h => rw [h]
  · rintro rfl
    exact .refl (fun _ => rfl) r

/-- From related trees, the two actions end with answers that agree and with related trees. -/
def Matches (R S : FileTree → FileTree → Prop) (Q : α → β → Prop) (a : Action α)
    (b : Action β) : Prop :=
  ∀ σ τ : Session, R σ.tree τ.tree →
    Agree Q (a.runOn σ).1 (b.runOn τ).1 ∧ S (a.runOn σ).2.tree (b.runOn τ).2.tree

section

variable {R S T : FileTree → FileTree → Prop} {Q : α → β → Prop} {P : α' → β' → Prop}

/-! ## Single steps -/

theorem matches_pure {a : α} {b : β} (h : Q a b) : Matches R R Q (pure a) (pure b) :=
  fun _ _ hR => ⟨.ok h, hR⟩

theorem matches_throw (e : Error) : Matches R R Q (throw e) (throw e) :=
  fun _ _ hR => ⟨.error e, hR⟩

theorem matches_tell (n m : Notice) : Matches R R Eq (tell n) (tell m) :=
  fun _ _ hR => ⟨.ok rfl, hR⟩

theorem matches_lift (r : Except Error α) : Matches R R Eq (lift r) (lift r) := by
  intro σ τ hR
  rw [runOn_lift, runOn_lift]
  exact ⟨.refl (fun _ => rfl) r, hR⟩

/-- Telling something more makes no difference. -/
theorem Matches.tell_left {a : Action α} {b : Action β} (h : Matches R S Q a b) (n : Notice) :
    Matches R S Q (tell n >>= fun _ => a) b := by
  intro σ τ hR
  rw [runOn_bind_of_ok (runOn_tell n σ)]
  exact h _ τ hR

theorem matches_tree : Matches R R R tree tree := fun _ _ hR => ⟨.ok hR, hR⟩

/-- What is looked up in related trees is the same. -/
theorem matches_look (p : Path) {f : FileTree → Except IoFault α}
    (h : ∀ t u, R t u → f t = f u) : Matches R R Eq (look p f) (look p f) := by
  intro σ τ hR
  rw [runOn_look, runOn_look, h _ _ hR]
  exact ⟨.refl (fun _ => rfl) _, hR⟩

/-- An action that only looks and sees the same in related trees. -/
theorem Looks.matches {a : Action α} (ha : Looks a)
    (h : ∀ t u, R t u → a.answer t = a.answer u) : Matches R R Eq a a := by
  intro σ τ hR
  obtain ⟨log, hσ⟩ := ha.runOn_eq σ
  obtain ⟨log', hτ⟩ := ha.runOn_eq τ
  rw [hσ, hτ, h _ _ hR]
  exact ⟨.refl (fun _ => rfl) _, hR⟩

theorem matches_changeAt (p : Path) {f g : FileTree → FileTree.Change}
    (h : ∀ t u, R t u → (f t).1 = (g u).1 ∧ S (f t).2 (g u).2) :
    Matches R S Eq (changeAt p f) (changeAt p g) := by
  intro σ τ hR
  obtain ⟨hanswer, hS⟩ := h _ _ hR
  rw [runOn_changeAt, runOn_changeAt, hanswer]
  exact ⟨.refl (fun _ => rfl) _, hS⟩

theorem matches_deleteAt (p : Path) {f g : FileTree → FileTree.Change}
    (h : ∀ t u, R t u → (f t).1 = (g u).1 ∧ S (f t).2 (g u).2) :
    Matches R S Eq (deleteAt p f) (deleteAt p g) := by
  intro σ τ hR
  obtain ⟨hanswer, hS⟩ := h _ _ hR
  obtain ⟨log, hσ⟩ := runOn_deleteAt p f σ
  obtain ⟨log', hτ⟩ := runOn_deleteAt p g τ
  rw [hσ, hτ, hanswer]
  exact ⟨.refl (fun _ => rfl) _, hS⟩

/-! ## Sequences -/

theorem Matches.bind {a : Action α} {b : Action β} {f : α → Action α'} {g : β → Action β'}
    (widen : ∀ t u, S t u → T t u) (h : Matches R S Q a b)
    (hf : ∀ x y, Q x y → Matches S T P (f x) (g y)) : Matches R T P (a >>= f) (b >>= g) := by
  intro σ τ hR
  obtain ⟨hanswer, hS⟩ := h σ τ hR
  rw [runOn_bind, runOn_bind]
  rcases hσ : a.runOn σ with ⟨r, σ₁⟩
  rcases hτ : b.runOn τ with ⟨r', τ₁⟩
  rw [hσ, hτ] at hanswer hS
  cases hanswer with
  | error e => exact ⟨.error e, widen _ _ hS⟩
  | ok hQ => exact hf _ _ hQ σ₁ τ₁ hS

/-- Trees may be related more closely in front. -/
theorem Matches.of_closer {a : Action α} {b : Action β} (h : Matches R S Q a b)
    (closer : ∀ t u, T t u → R t u) : Matches T S Q a b :=
  fun σ τ hT => h σ τ (closer _ _ hT)

/-- A sequence whose first parts give the same value. -/
theorem Matches.andThen {a b : Action α} {f : α → Action α'} {g : α → Action β'}
    (h : Matches R S Eq a b) (hf : ∀ x, Matches S S P (f x) (g x)) :
    Matches R S P (a >>= f) (b >>= g) := by
  refine h.bind (fun _ _ hS => hS) ?_
  rintro x _ rfl
  exact hf x

/-- What is made of the answer in the end may differ. -/
theorem Matches.map_left {a : Action α} {b : Action β} (h : Matches R S Q a b) {f : α → α'}
    {Q' : α' → β → Prop} (hQ : ∀ x y, Q x y → Q' (f x) y) :
    Matches R S Q' (a >>= fun x => pure (f x)) b := by
  intro σ τ hR
  obtain ⟨hanswer, hS⟩ := h σ τ hR
  rw [runOn_bind]
  rcases hσ : a.runOn σ with ⟨r, σ₁⟩
  rcases hτ : b.runOn τ with ⟨r', τ₁⟩
  rw [hσ, hτ] at hanswer hS
  cases hanswer with
  | error e => exact ⟨.error e, hS⟩
  | ok hxy => exact ⟨.ok (hQ _ _ hxy), hS⟩

theorem matches_forM {f : α → Action Unit} {g : α → Action Unit} {l : List α}
    (h : ∀ a ∈ l, Matches R R Eq (f a) (g a)) : Matches R R Eq (l.forM f) (l.forM g) := by
  induction l with
  | nil => exact matches_pure rfl
  | cons a l ih =>
    show Matches R R Eq (f a >>= fun _ => l.forM f) (g a >>= fun _ => l.forM g)
    exact (h a List.mem_cons_self).andThen fun _ => ih fun b hb => h b (List.mem_cons_of_mem _ hb)

theorem matches_mapM {f g : α → Action β} {l : List α}
    (h : ∀ a ∈ l, Matches R R Eq (f a) (g a)) : Matches R R Eq (l.mapM f) (l.mapM g) := by
  induction l with
  | nil => exact matches_pure rfl
  | cons a l ih =>
    rw [List.mapM_cons, List.mapM_cons]
    exact (h a List.mem_cons_self).andThen fun b =>
      (ih fun c hc => h c (List.mem_cons_of_mem _ hc)).andThen fun bs => matches_pure rfl

end

end ShaderBuild.Action
