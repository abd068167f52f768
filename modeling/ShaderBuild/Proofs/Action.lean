import ShaderBuild.Session

/-!
# Running actions

What the steps of an action do to a session, one lemma for each (`runOn_bind` and its neighbours),
and three properties of whole actions that their steps hand on:

* an action *only looks* (`Looks`) when it leaves the file tree and the calls of the compiler as
  they are and its answer depends on the file tree alone;
* an action *moves along* a relation of trees (`Moves`) when the tree it leaves behind, be it with
  an answer or with an error, is related to the tree it starts from;
* an action is *tidy* (`Tidy`) when it forgets nothing that was told and has nothing to do with the
  compiler.
-/

namespace ShaderBuild.Action

variable {α β : Type}

/-! ## Single steps -/

@[simp] theorem runOn_pure (a : α) (σ : Session) : (pure a : Action α).runOn σ = (.ok a, σ) := rfl

@[simp] theorem runOn_throw (e : Error) (σ : Session) :
    (throw e : Action α).runOn σ = (.error e, σ) := rfl

theorem runOn_bind (a : Action α) (f : α → Action β) (σ : Session) :
    (a >>= f).runOn σ = match a.runOn σ with
      | (.ok x, σ') => (f x).runOn σ'
      | (.error e, σ') => (.error e, σ') := by
  unfold runOn
  simp only [ExceptT.run_bind, StateT.run_bind]
  obtain ⟨r, σ'⟩ := StateT.run (ExceptT.run a) σ
  cases r <;> rfl

theorem runOn_bind_of_ok {a : Action α} {σ σ' : Session} {x : α} (h : a.runOn σ = (.ok x, σ'))
    (f : α → Action β) : (a >>= f).runOn σ = (f x).runOn σ' := by
  rw [runOn_bind, h]

theorem runOn_bind_of_error {a : Action α} {σ σ' : Session} {e : Error}
    (h : a.runOn σ = (.error e, σ')) (f : α → Action β) :
    (a >>= f).runOn σ = (.error e, σ') := by
  rw [runOn_bind, h]

/-- A sequence answers when both its parts do. -/
theorem runOn_bind_ok_iff {a : Action α} {f : α → Action β} {σ σ' : Session} {b : β} :
    (a >>= f).runOn σ = (.ok b, σ') ↔
      ∃ x σ₁, a.runOn σ = (.ok x, σ₁) ∧ (f x).runOn σ₁ = (.ok b, σ') := by
  rw [runOn_bind]
  rcases a.runOn σ with ⟨e | x, σ₁⟩
  · simp
  · constructor
    · intro h
      exact ⟨x, σ₁, rfl, h⟩
    · rintro ⟨x', σ₁', hx, h⟩
      cases hx
      exact h

/-- A sequence ends early when its first part does, or its second. -/
theorem runOn_bind_error_iff {a : Action α} {f : α → Action β} {σ σ' : Session} {e : Error} :
    (a >>= f).runOn σ = (.error e, σ') ↔
      a.runOn σ = (.error e, σ') ∨
        ∃ x σ₁, a.runOn σ = (.ok x, σ₁) ∧ (f x).runOn σ₁ = (.error e, σ') := by
  rw [runOn_bind]
  rcases a.runOn σ with ⟨e' | x, σ₁⟩
  · simp
  · constructor
    · intro h
      exact .inr ⟨x, σ₁, rfl, h⟩
    · rintro (hx | ⟨x', σ₁', hx, h⟩)
      · cases hx
      · cases hx
        exact h

/-- A sequence ends early with its first part, or ends as its second part does. -/
theorem runOn_bind_cases {a : Action α} {f : α → Action β} {σ σ' : Session} {r : Except Error β}
    (h : (a >>= f).runOn σ = (r, σ')) :
    (∃ e, a.runOn σ = (.error e, σ') ∧ r = .error e) ∨
      ∃ x σ₁, a.runOn σ = (.ok x, σ₁) ∧ (f x).runOn σ₁ = (r, σ') := by
  rw [runOn_bind] at h
  rcases ha : a.runOn σ with ⟨e | x, σ₁⟩
  · rw [ha] at h
    cases h
    exact .inl ⟨e, rfl, rfl⟩
  · rw [ha] at h
    exact .inr ⟨x, σ₁, rfl, h⟩

@[simp] theorem runOn_tell (n : Notice) (σ : Session) :
    (tell n).runOn σ = (.ok (), { σ with log := σ.log ++ [n] }) := rfl

@[simp] theorem runOn_tree (σ : Session) : tree.runOn σ = (.ok σ.tree, σ) := rfl

@[simp] theorem runOn_lift (r : Except Error α) (σ : Session) : (lift r).runOn σ = (r, σ) := by
  cases r <;> rfl

theorem runOn_look (p : Path) (f : FileTree → Except IoFault α) (σ : Session) :
    (look p f).runOn σ = ((f σ.tree).mapError (.io p), σ) := by
  unfold look
  rw [runOn_bind_of_ok (runOn_tree σ)]
  cases f σ.tree <;> rfl

theorem look_ok_iff {p : Path} {f : FileTree → Except IoFault α} {σ σ' : Session} {x : α} :
    (look p f).runOn σ = (.ok x, σ') ↔ f σ.tree = .ok x ∧ σ' = σ := by
  rw [runOn_look]
  cases f σ.tree with
  | error fault =>
    constructor
    · intro h
      cases h
    · rintro ⟨h, -⟩
      cases h
  | ok y =>
    constructor
    · intro h
      cases h
      exact ⟨rfl, rfl⟩
    · rintro ⟨h, rfl⟩
      cases h
      rfl

@[simp] theorem runOn_change (f : FileTree → FileTree.Change) (σ : Session) :
    (change f).runOn σ = (.ok (f σ.tree).1, { σ with tree := (f σ.tree).2 }) := rfl

theorem runOn_changeAt (p : Path) (f : FileTree → FileTree.Change) (σ : Session) :
    (changeAt p f).runOn σ = ((f σ.tree).1.mapError (.io p), { σ with tree := (f σ.tree).2 }) := by
  unfold changeAt
  rw [runOn_bind_of_ok (runOn_change f σ)]
  cases (f σ.tree).1 <;> rfl

/-- A change goes well, or fails on behalf of its path; the tree is the changed one either way. -/
theorem changeAt_cases {p : Path} {f : FileTree → FileTree.Change} {σ σ' : Session}
    {r : Except Error Unit} (h : (changeAt p f).runOn σ = (r, σ')) : σ'.tree = (f σ.tree).2 ∧
      (r = .ok () ∧ (f σ.tree).1 = .ok () ∨
        ∃ fault, r = .error (.io p fault) ∧ (f σ.tree).1 = .error fault) := by
  rw [runOn_changeAt] at h
  obtain ⟨rfl, rfl⟩ := Prod.mk.inj h
  refine ⟨rfl, ?_⟩
  cases (f σ.tree).1 with
  | error fault => exact .inr ⟨fault, rfl, rfl⟩
  | ok u => exact .inl ⟨rfl, rfl⟩

theorem runOn_deleteAt (p : Path) (f : FileTree → FileTree.Change) (σ : Session) :
    ∃ log, (deleteAt p f).runOn σ =
      (match (f σ.tree).1 with
        | .error .notFound => .ok ()
        | r => r.mapError (.io p),
      { σ with tree := (f σ.tree).2, log := log }) := by
  unfold deleteAt
  rw [runOn_bind_of_ok (runOn_change f σ)]
  rcases (f σ.tree).1 with fault | _
  · cases fault <;> exact ⟨σ.log, rfl⟩
  · exact ⟨σ.log ++ [.deleted p], rfl⟩

/-- A deletion that goes well has deleted, or found nothing to delete. -/
theorem deleteAt_ok {p : Path} {f : FileTree → FileTree.Change} {σ σ' : Session}
    (h : (deleteAt p f).runOn σ = (.ok (), σ')) : σ'.tree = (f σ.tree).2 ∧
      ((f σ.tree).1 = .ok () ∨ (f σ.tree).1 = .error .notFound) := by
  obtain ⟨log, hlog⟩ := runOn_deleteAt p f σ
  rw [h] at hlog
  obtain ⟨hanswer, rfl⟩ := Prod.mk.inj hlog
  refine ⟨rfl, ?_⟩
  cases hr : (f σ.tree).1 with
  | ok u => exact .inl rfl
  | error fault =>
    simp only [hr] at hanswer
    cases fault <;> first | exact .inr rfl | cases hanswer

/-! ## Rows of steps -/

/-- A row of actions that all answer: each of them answers where those in front of it lead. -/
theorem runOn_mapM_ok {f : α → Action β} {l : List α} {σ σ' : Session} {rs : List β}
    (h : (l.mapM f).runOn σ = (.ok rs, σ')) :
    rs.length = l.length ∧ ∀ (i : Nat) (hi : i < l.length) (hi' : i < rs.length),
      ∃ σ₁ σ₂, ((l.take i).mapM f).runOn σ = (.ok (rs.take i), σ₁) ∧
        (f l[i]).runOn σ₁ = (.ok rs[i], σ₂) := by
  induction l generalizing σ rs with
  | nil =>
    rw [List.mapM_nil, runOn_pure] at h
    cases h
    exact ⟨rfl, fun i hi => absurd hi (Nat.not_lt_zero i)⟩
  | cons a l ih =>
    rw [List.mapM_cons, runOn_bind_ok_iff] at h
    obtain ⟨x, σ₁, ha, h⟩ := h
    rw [runOn_bind_ok_iff] at h
    obtain ⟨xs, σ₂, hl, h⟩ := h
    rw [runOn_pure] at h
    cases h
    obtain ⟨hlen, hrest⟩ := ih hl
    refine ⟨by rw [List.length_cons, List.length_cons, hlen], fun i hi hi' => ?_⟩
    cases i with
    | zero => exact ⟨σ, σ₁, by rw [List.take_zero, List.mapM_nil]; rfl, ha⟩
    | succ i =>
      obtain ⟨σ₃, σ₄, htake, hf⟩ := hrest i (Nat.lt_of_succ_lt_succ hi)
        (Nat.lt_of_succ_lt_succ hi')
      refine ⟨σ₃, σ₄, ?_, hf⟩
      rw [List.take_succ_cons, List.mapM_cons, runOn_bind_of_ok ha, runOn_bind_of_ok htake]
      rfl

/-- A row of steps that all answer, around one of them. -/
theorem runOn_mapM_around {f : α → Action β} {front back : List α} {a : α} {σ σ' : Session}
    {rs : List β} (h : ((front ++ a :: back).mapM f).runOn σ = (.ok rs, σ')) :
    ∃ xs x ys σ₁ σ₂, rs = xs ++ x :: ys ∧ xs.length = front.length ∧
      (front.mapM f).runOn σ = (.ok xs, σ₁) ∧ (f a).runOn σ₁ = (.ok x, σ₂) ∧
      (back.mapM f).runOn σ₂ = (.ok ys, σ') := by
  induction front generalizing σ rs with
  | nil =>
    rw [List.nil_append, List.mapM_cons] at h
    obtain ⟨x, σ₁, ha, h⟩ := runOn_bind_ok_iff.1 h
    obtain ⟨ys, σ₂, hback, h⟩ := runOn_bind_ok_iff.1 h
    cases h
    exact ⟨[], x, ys, σ, σ₁, rfl, rfl, rfl, ha, hback⟩
  | cons b front ih =>
    rw [List.cons_append, List.mapM_cons] at h
    obtain ⟨r, σ₁, hb, h⟩ := runOn_bind_ok_iff.1 h
    obtain ⟨rs', σ₂, hrest, h⟩ := runOn_bind_ok_iff.1 h
    cases h
    obtain ⟨xs, x, ys, σ₃, σ₄, rfl, hlength, hfront, ha, hback⟩ := ih hrest
    refine ⟨r :: xs, x, ys, σ₃, σ₄, rfl, by simp [hlength], ?_, ha, hback⟩
    rw [List.mapM_cons, runOn_bind_of_ok hb, runOn_bind_of_ok hfront]
    rfl

/-! ## Actions that only look -/

/-- The action leaves the tree and the calls as they are, and its answer depends on the tree. -/
def Looks (a : Action α) : Prop :=
  ∀ σ, ∃ log, a.runOn σ = ((a.runOn { tree := σ.tree }).1, { σ with log := log })

theorem looks_pure (a : α) : Looks (pure a : Action α) := fun σ => ⟨σ.log, rfl⟩

theorem looks_throw (e : Error) : Looks (throw e : Action α) := fun σ => ⟨σ.log, rfl⟩

theorem looks_tell (n : Notice) : Looks (tell n) := fun σ => ⟨σ.log ++ [n], rfl⟩

theorem looks_tree : Looks tree := fun σ => ⟨σ.log, rfl⟩

theorem looks_lift (r : Except Error α) : Looks (lift r) :=
  fun σ => ⟨σ.log, by rw [runOn_lift, runOn_lift]⟩

theorem looks_look (p : Path) (f : FileTree → Except IoFault α) : Looks (look p f) :=
  fun σ => ⟨σ.log, by rw [runOn_look, runOn_look]⟩

theorem Looks.bind {a : Action α} {f : α → Action β} (ha : Looks a) (hf : ∀ x, Looks (f x)) :
    Looks (a >>= f) := by
  intro σ
  obtain ⟨log, hlog⟩ := ha σ
  obtain ⟨log', hlog'⟩ := ha { tree := σ.tree }
  rw [runOn_bind, runOn_bind, hlog, hlog']
  cases (a.runOn { tree := σ.tree }).1 with
  | error e => exact ⟨log, rfl⟩
  | ok x =>
    obtain ⟨log₁, h₁⟩ := hf x { σ with log := log }
    obtain ⟨log₂, h₂⟩ := hf x { tree := σ.tree, log := log' }
    exact ⟨log₁, by simp only [h₁, h₂]⟩

/-- The answer of an action to a tree. -/
def answer (a : Action α) (t : FileTree) : Except Error α := (a.runOn { tree := t }).1

theorem answer_ok_iff {a : Action α} {t : FileTree} {x : α} :
    a.answer t = .ok x ↔ ∃ σ, a.runOn { tree := t } = (.ok x, σ) := by
  unfold answer
  constructor
  · intro h
    exact ⟨_, Prod.ext h rfl⟩
  · rintro ⟨σ, h⟩
    rw [h]

theorem Looks.runOn_eq {a : Action α} (h : Looks a) (σ : Session) :
    ∃ log, a.runOn σ = (a.answer σ.tree, { σ with log := log }) := h σ

/-- An action that only looks and is known to answer. -/
theorem Looks.answer_of_runOn {a : Action α} (h : Looks a) {σ σ' : Session}
    {r : Except Error α} (hr : a.runOn σ = (r, σ')) :
    a.answer σ.tree = r ∧ σ'.tree = σ.tree ∧ σ'.calls = σ.calls := by
  obtain ⟨log, hlog⟩ := h.runOn_eq σ
  rw [hr] at hlog
  cases hlog
  exact ⟨rfl, rfl, rfl⟩

/-- A sequence whose first part only looks ends early where it started, or goes on there. -/
theorem Looks.bind_cases {a : Action α} (ha : Looks a) {f : α → Action β} {σ σ' : Session}
    {r : Except Error β} (h : (a >>= f).runOn σ = (r, σ')) :
    (∃ e, a.answer σ.tree = .error e ∧ r = .error e ∧ σ'.tree = σ.tree) ∨
      ∃ x σ₁, a.answer σ.tree = .ok x ∧ σ₁.tree = σ.tree ∧ (f x).runOn σ₁ = (r, σ') := by
  rcases runOn_bind_cases h with ⟨e, hrun, hr⟩ | ⟨x, σ₁, hrun, h⟩
  · obtain ⟨hanswer, htree, -⟩ := ha.answer_of_runOn hrun
    exact .inl ⟨e, hanswer, hr, htree⟩
  · obtain ⟨hanswer, htree, -⟩ := ha.answer_of_runOn hrun
    exact .inr ⟨x, σ₁, hanswer, htree, h⟩

theorem Looks.answer_bind {a : Action α} (ha : Looks a) {f : α → Action β}
    (hf : ∀ x, Looks (f x)) (t : FileTree) :
    (a >>= f).answer t = a.answer t >>= fun x => (f x).answer t := by
  obtain ⟨log, hlog⟩ := ha.runOn_eq { tree := t }
  unfold answer at hlog ⊢
  rw [runOn_bind, hlog]
  cases (a.runOn { tree := t }).1 with
  | error e => rfl
  | ok x =>
    obtain ⟨log', hlog'⟩ := hf x { tree := t, log := log }
    show ((f x).runOn { tree := t, log := log }).1 = ((f x).runOn { tree := t }).1
    rw [hlog']

/-! ## Actions that move along a relation -/

/-- The tree an action leaves behind is related to the tree it starts from. -/
def Moves (R : FileTree → FileTree → Prop) (a : Action α) : Prop :=
  ∀ σ, R σ.tree (a.runOn σ).2.tree

section

variable {R : FileTree → FileTree → Prop}

theorem Looks.moves {a : Action α} (h : Looks a) (refl : ∀ t, R t t) : Moves R a := by
  intro σ
  obtain ⟨log, hlog⟩ := h σ
  rw [hlog]
  exact refl _

theorem Moves.bind {a : Action α} {f : α → Action β} (trans : ∀ t u v, R t u → R u v → R t v)
    (ha : Moves R a) (hf : ∀ x, Moves R (f x)) : Moves R (a >>= f) := by
  intro σ
  have h := ha σ
  rw [runOn_bind]
  rcases hr : a.runOn σ with ⟨e | x, σ₁⟩
  · rwa [hr] at h
  · rw [hr] at h
    exact trans _ _ _ h (hf x σ₁)

theorem moves_forM {f : α → Action Unit} {l : List α} (refl : ∀ t, R t t)
    (trans : ∀ t u v, R t u → R u v → R t v) (h : ∀ a ∈ l, Moves R (f a)) :
    Moves R (l.forM f) := by
  induction l with
  | nil => exact (looks_pure ()).moves refl
  | cons a l ih =>
    show Moves R (f a >>= fun _ => l.forM f)
    exact (h a List.mem_cons_self).bind trans fun _ =>
      ih fun b hb => h b (List.mem_cons_of_mem _ hb)

theorem moves_mapM {f : α → Action β} {l : List α} (refl : ∀ t, R t t)
    (trans : ∀ t u v, R t u → R u v → R t v) (h : ∀ a ∈ l, Moves R (f a)) :
    Moves R (l.mapM f) := by
  induction l with
  | nil => exact (looks_pure []).moves refl
  | cons a l ih =>
    rw [List.mapM_cons]
    refine (h a List.mem_cons_self).bind trans fun b => ?_
    exact (ih fun b hb => h b (List.mem_cons_of_mem _ hb)).bind trans fun bs =>
      (looks_pure _).moves refl

/-- A row of steps that all answer passes through each of them. -/
theorem runOn_mapM_mem {f : α → Action β} {l : List α} (refl : ∀ t, R t t)
    (trans : ∀ t u v, R t u → R u v → R t v) (hf : ∀ a ∈ l, Moves R (f a)) {σ σ' : Session}
    {rs : List β} (h : (l.mapM f).runOn σ = (.ok rs, σ')) {a : α} (ha : a ∈ l) :
    ∃ r σ₁ σ₂, R σ.tree σ₁.tree ∧ (f a).runOn σ₁ = (.ok r, σ₂) ∧ R σ₂.tree σ'.tree := by
  induction l generalizing σ rs with
  | nil => cases ha
  | cons b l ih =>
    have hrest : ∀ a ∈ l, Moves R (f a) := fun a ha => hf a (List.mem_cons_of_mem _ ha)
    rw [List.mapM_cons] at h
    obtain ⟨r, σ₁, hb, h⟩ := runOn_bind_ok_iff.1 h
    obtain ⟨rs', σ₂, hl, h⟩ := runOn_bind_ok_iff.1 h
    cases h
    have hfirst := hf b List.mem_cons_self σ
    have hlater := moves_mapM refl trans hrest σ₁
    rw [hb] at hfirst
    rw [hl] at hlater
    rcases List.mem_cons.1 ha with rfl | ha
    · exact ⟨r, σ, σ₁, refl _, hb, hlater⟩
    · obtain ⟨r', σ₃, σ₄, hbefore, hrun, hafter⟩ := ih hrest hl ha
      exact ⟨r', σ₃, σ₄, trans _ _ _ hfirst hbefore, hrun, hafter⟩

theorem runOn_forM_mem {f : α → Action Unit} {l : List α} (refl : ∀ t, R t t)
    (trans : ∀ t u v, R t u → R u v → R t v) (hf : ∀ a ∈ l, Moves R (f a)) {σ σ' : Session}
    (h : (l.forM f).runOn σ = (.ok (), σ')) {a : α} (ha : a ∈ l) :
    ∃ σ₁ σ₂, R σ.tree σ₁.tree ∧ (f a).runOn σ₁ = (.ok (), σ₂) ∧ R σ₂.tree σ'.tree := by
  induction l generalizing σ with
  | nil => cases ha
  | cons b l ih =>
    have hrest : ∀ a ∈ l, Moves R (f a) := fun a ha => hf a (List.mem_cons_of_mem _ ha)
    have h : (f b >>= fun _ => l.forM f).runOn σ = (.ok (), σ') := h
    obtain ⟨_, σ₁, hb, h⟩ := runOn_bind_ok_iff.1 h
    have hfirst := hf b List.mem_cons_self σ
    have hlater := moves_forM refl trans hrest σ₁
    rw [hb] at hfirst
    rw [h] at hlater
    rcases List.mem_cons.1 ha with rfl | ha
    · exact ⟨σ, σ₁, refl _, hb, hlater⟩
    · obtain ⟨σ₃, σ₄, hbefore, hrun, hafter⟩ := ih hrest h ha
      exact ⟨σ₃, σ₄, trans _ _ _ hfirst hbefore, hrun, hafter⟩

theorem moves_changeAt {p : Path} {f : FileTree → FileTree.Change} (h : ∀ t, R t (f t).2) :
    Moves R (changeAt p f) := by
  intro σ
  rw [runOn_changeAt]
  exact h _

theorem moves_deleteAt {p : Path} {f : FileTree → FileTree.Change} (h : ∀ t, R t (f t).2) :
    Moves R (deleteAt p f) := by
  intro σ
  unfold deleteAt
  rw [runOn_bind_of_ok (runOn_change f σ)]
  have hσ := h σ.tree
  revert hσ
  generalize (f σ.tree) = r
  obtain ⟨r, t⟩ := r
  intro hσ
  split <;> exact hσ

theorem Moves.of_runOn {a : Action α} (h : Moves R a) {σ σ' : Session} {r : Except Error α}
    (hr : a.runOn σ = (r, σ')) : R σ.tree σ'.tree := by
  have := h σ
  rwa [hr] at this

end

/-! ## Actions that hand out no jobs -/

/-- The answer is not that permutations failed. -/
def NoFailure (r : Except Error α) : Prop := ∀ failures, r ≠ .error (.compile failures)

theorem noFailure_ok (a : α) : NoFailure (.ok a : Except Error α) := fun _ h => by cases h

theorem noFailure_error {e : Error} (h : ∀ failures, e ≠ .compile failures) :
    NoFailure (.error e : Except Error α) :=
  fun failures heq => h failures (Except.error.inj heq)

theorem noFailure_mapError (r : Except IoFault α) (p : Path) : NoFailure (r.mapError (.io p)) := by
  cases r with
  | error fault => exact noFailure_error fun _ h => by cases h
  | ok a => exact noFailure_ok a

theorem NoFailure.bind {r : Except Error α} {f : α → Except Error β} (h : NoFailure r)
    (hf : ∀ a, NoFailure (f a)) : NoFailure (r >>= f) := by
  cases r with
  | error e => exact fun failures heq => h failures (congrArg _ (Except.error.inj heq))
  | ok a => exact hf a

theorem NoFailure.map {r : Except Error α} {f : α → β} (h : NoFailure r) :
    NoFailure (r.map f) := by
  cases r with
  | error e => exact fun failures heq => h failures (congrArg _ (Except.error.inj heq))
  | ok a => exact noFailure_ok (f a)

/-- The action keeps what has been told, hands no job to the compiler, and its errors are not those
of the compiler. -/
def Tidy (a : Action α) : Prop :=
  ∀ σ, σ.log <+: (a.runOn σ).2.log ∧ (a.runOn σ).2.calls = σ.calls ∧ NoFailure (a.runOn σ).1

theorem tidy_pure (a : α) : Tidy (pure a : Action α) :=
  fun _ => ⟨List.prefix_rfl, rfl, noFailure_ok a⟩

theorem tidy_throw {e : Error} (h : ∀ failures, e ≠ .compile failures) :
    Tidy (throw e : Action α) :=
  fun _ => ⟨List.prefix_rfl, rfl, noFailure_error h⟩

theorem tidy_tell (n : Notice) : Tidy (tell n) :=
  fun _ => ⟨List.prefix_append _ _, rfl, noFailure_ok ()⟩

theorem tidy_tree : Tidy tree := fun σ => ⟨List.prefix_rfl, rfl, noFailure_ok σ.tree⟩

theorem tidy_lift {r : Except Error α} (h : NoFailure r) : Tidy (lift r) := by
  intro σ
  rw [runOn_lift]
  exact ⟨List.prefix_rfl, rfl, h⟩

theorem tidy_look (p : Path) (f : FileTree → Except IoFault α) : Tidy (look p f) := by
  intro σ
  rw [runOn_look]
  exact ⟨List.prefix_rfl, rfl, noFailure_mapError _ p⟩

theorem tidy_change (f : FileTree → FileTree.Change) : Tidy (change f) :=
  fun σ => ⟨List.prefix_rfl, rfl, noFailure_ok (f σ.tree).1⟩

theorem tidy_changeAt (p : Path) (f : FileTree → FileTree.Change) : Tidy (changeAt p f) := by
  intro σ
  rw [runOn_changeAt]
  exact ⟨List.prefix_rfl, rfl, noFailure_mapError _ p⟩

theorem Tidy.bind {a : Action α} {f : α → Action β} (ha : Tidy a) (hf : ∀ x, Tidy (f x)) :
    Tidy (a >>= f) := by
  intro σ
  obtain ⟨hlog, hcalls, herror⟩ := ha σ
  rw [runOn_bind]
  rcases hr : a.runOn σ with ⟨e | x, σ₁⟩
  · rw [hr] at hlog hcalls herror
    exact ⟨hlog, hcalls, fun failures h => herror failures (congrArg _ (Except.error.inj h))⟩
  · rw [hr] at hlog hcalls
    obtain ⟨hlog', hcalls', herror'⟩ := hf x σ₁
    exact ⟨hlog.trans hlog', hcalls'.trans hcalls, herror'⟩

theorem tidy_deleteAt (p : Path) (f : FileTree → FileTree.Change) : Tidy (deleteAt p f) := by
  refine (tidy_change f).bind fun r => ?_
  split
  · exact tidy_tell _
  · exact tidy_pure ()
  · exact tidy_throw fun _ h => by cases h

theorem tidy_forM {f : α → Action Unit} {l : List α} (h : ∀ a ∈ l, Tidy (f a)) :
    Tidy (l.forM f) := by
  induction l with
  | nil => exact tidy_pure ()
  | cons a l ih =>
    show Tidy (f a >>= fun _ => l.forM f)
    exact (h a List.mem_cons_self).bind fun _ => ih fun b hb => h b (List.mem_cons_of_mem _ hb)

theorem tidy_mapM {f : α → Action β} {l : List α} (h : ∀ a ∈ l, Tidy (f a)) :
    Tidy (l.mapM f) := by
  induction l with
  | nil => exact tidy_pure []
  | cons a l ih =>
    rw [List.mapM_cons]
    exact (h a List.mem_cons_self).bind fun _ =>
      (ih fun b hb => h b (List.mem_cons_of_mem _ hb)).bind fun _ => tidy_pure _

theorem Tidy.of_runOn {a : Action α} (h : Tidy a) {σ σ' : Session} {r : Except Error α}
    (hr : a.runOn σ = (r, σ')) :
    (∀ n ∈ σ.log, n ∈ σ'.log) ∧ ∀ failures, r ≠ .error (.compile failures) := by
  obtain ⟨hlog, -, herror⟩ := h σ
  rw [hr] at hlog herror
  exact ⟨fun n hn => hlog.subset hn, herror⟩

theorem Tidy.calls_eq {a : Action α} (h : Tidy a) {σ σ' : Session} {r : Except Error α}
    (hr : a.runOn σ = (r, σ')) : σ'.calls = σ.calls := by
  obtain ⟨-, hcalls, -⟩ := h σ
  rwa [hr] at hcalls

end ShaderBuild.Action
