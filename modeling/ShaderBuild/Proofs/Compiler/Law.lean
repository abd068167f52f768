import ShaderBuild.Build.Job
import ShaderBuild.Proofs.Action
import ShaderBuild.Proofs.FileTree.Change
import ShaderBuild.Proofs.Include.Sources

/-!
# Compilers that keep to their outputs

Of a compiler it is assumed that a job either fails and leaves the tree as it is, or writes a file
to its output and nothing else (`Compiler.Writes`); which contents it may write is left open. A row
of jobs then alters only their outputs, a file that is new behind it was written by one of the jobs,
and a job that succeeded has its output, unless a later one writes to the same file
(`compile_jobs`). What a compiler may write can depend on the sources alone (`Compiler.Obeys`), or
even be a function of them (`Compiler.Computes`), and there are such compilers (`plain_computes`).
-/

namespace ShaderBuild

open Action FileTree

/-- A job fails without a trace, or writes its output with a content that `P` allows. -/
structure Compiler.Writes (compiler : Compiler) (P : Job → FileTree → List UInt8 → Prop) :
    Prop where
  failure : ∀ job o t, job.output = some o → (compiler job t).failure.isSome →
    (compiler job t).tree = t
  success : ∀ job o t, job.output = some o → (compiler job t).failure = none →
    ∃ content, P job t content ∧ t.write o content = (.ok (), (compiler job t).tree)

/-- A path is the output of one of some jobs. -/
def OutputOf (jobs : List Job) (o : Path) : Prop := ∃ job ∈ jobs, job.output = some o

theorem runOn_compile (compiler : Compiler) (job : Job) (σ : Session) :
    ∃ σ', (compile compiler job).runOn σ = (.ok (compiler job σ.tree).failure, σ') ∧
      σ'.tree = (compiler job σ.tree).tree ∧ ∀ n ∈ σ.log, n ∈ σ'.log :=
  ⟨_, rfl, rfl, fun _ hn => List.mem_append_left _ hn⟩

variable {compiler : Compiler} {P : Job → FileTree → List UInt8 → Prop}

/-- A job leaves the tree as it is, or writes its output with a content that is allowed. -/
theorem Compiler.Writes.tree_cases (h : compiler.Writes P) {job : Job} {o : Path}
    (ho : job.output = some o) (t : FileTree) : (compiler job t).tree = t ∨
      ∃ content, P job t content ∧ t.write o content = (.ok (), (compiler job t).tree) := by
  cases hfailure : (compiler job t).failure with
  | some failure => exact .inl (h.failure job o t ho (by rw [hfailure]; rfl))
  | none => exact .inr (h.success job o t ho hfailure)

theorem Compiler.Writes.altersOnly (h : compiler.Writes P) {job : Job} {o : Path}
    (ho : job.output = some o) (t : FileTree) : AltersOnly (· = o) t (compiler job t).tree := by
  rcases h.tree_cases ho t with hsame | ⟨content, -, hwrite⟩
  · rw [hsame]
    exact .refl _ _
  · have hwritten := altersOnly_write t o content
    rwa [hwrite] at hwritten

/-- A file behind a job was there before, or the job wrote it. -/
theorem Compiler.Writes.at?_cases (h : compiler.Writes P) {job : Job} {o : Path}
    (ho : job.output = some o) {t : FileTree} {l : Location} {content : List UInt8}
    {modified : Timestamp} (hl : (compiler job t).tree.at? l = some (.file content modified)) :
    t.at? l = some (.file content modified) ∨ o.locate t.here = l ∧ P job t content := by
  rcases h.tree_cases ho t with hsame | ⟨x, hP, hwrite⟩
  · rw [hsame] at hl
    exact .inl hl
  · have hat := at?_write (show (t.write o x).1 = .ok () by rw [hwrite]) l
    rw [hwrite, hl] at hat
    split at hat
    · next heq =>
      cases hat
      exact .inr ⟨heq.symm, hP⟩
    · exact .inl hat.symm

/-- Behind a job that succeeded its output can be read. -/
theorem Compiler.Writes.read_output (h : compiler.Writes P) {job : Job} {o : Path}
    (ho : job.output = some o) {t : FileTree} (hsuccess : (compiler job t).failure = none) :
    ∃ content modified, P job t content ∧
      (compiler job t).tree.read o = .ok (content, modified) := by
  obtain ⟨x, hP, hwrite⟩ := h.success job o t ho hsuccess
  have hread := read_write (show (t.write o x).1 = .ok () by rw [hwrite])
  rw [hwrite] at hread
  exact ⟨x, _, hP, hread⟩

/-- What a row of jobs leaves behind. -/
structure Compiled (P : Job → FileTree → List UInt8 → Prop) (jobs : List Job) (t u : FileTree)
    (results : List (Option CompileFailure)) : Prop where
  length : results.length = jobs.length
  altersOnly : AltersOnly (OutputOf jobs) t u
  /-- A file that was not there before was written by a job. -/
  written : ∀ l content modified, u.at? l = some (.file content modified) →
    t.at? l = some (.file content modified) ∨ ∃ job ∈ jobs, ∃ o, job.output = some o ∧
      o.locate t.here = l ∧ ∃ v, AltersOnly (OutputOf jobs) t v ∧ P job v content
  /-- A job that succeeded has its output. -/
  succeeded : jobs.Pairwise (fun j k => ∀ o p, j.output = some o → k.output = some p →
      o.locate t.here ≠ p.locate t.here) →
    ∀ (i : Nat) (job : Job) (o : Path), jobs[i]? = some job → results[i]? = some none →
      job.output = some o → ∃ v content modified, AltersOnly (OutputOf jobs) t v ∧
        P job v content ∧ u.read o = .ok (content, modified)

theorem OutputOf.cons {job : Job} {jobs : List Job} {o : Path} (h : OutputOf jobs o) :
    OutputOf (job :: jobs) o := by
  obtain ⟨k, hk, ho⟩ := h
  exact ⟨k, List.mem_cons_of_mem _ hk, ho⟩

/-- The compiler takes the jobs in order, whatever comes of them. -/
theorem compile_jobs (h : compiler.Writes P) {jobs : List Job}
    (houtput : ∀ job ∈ jobs, job.output.isSome) (σ : Session) : ∃ results σ',
      (jobs.mapM (compile compiler)).runOn σ = (.ok results, σ') ∧
      Compiled P jobs σ.tree σ'.tree results ∧ ∀ n ∈ σ.log, n ∈ σ'.log := by
  induction jobs generalizing σ with
  | nil =>
    refine ⟨[], σ, rfl, ⟨rfl, .refl _ _, fun l c m hl => .inl hl, ?_⟩, fun _ hn => hn⟩
    intro _ i job o hi
    cases hi
  | cons job jobs ih =>
    obtain ⟨o, ho⟩ := Option.isSome_iff_exists.1 (houtput job List.mem_cons_self)
    obtain ⟨σ₁, hfirst, htree, hlog⟩ := runOn_compile compiler job σ
    obtain ⟨results, σ₂, hrest, hcompiled, hlog'⟩ :=
      ih (fun k hk => houtput k (List.mem_cons_of_mem _ hk)) σ₁
    refine ⟨(compiler job σ.tree).failure :: results, σ₂, ?_, ?_, fun n hn => hlog' n (hlog n hn)⟩
    · rw [List.mapM_cons, runOn_bind_of_ok hfirst, runOn_bind_of_ok hrest]
      rfl
    have hone : AltersOnly (OutputOf (job :: jobs)) σ.tree σ₁.tree := by
      rw [htree]
      refine (h.altersOnly ho σ.tree).mono fun p hp => ?_
      rw [hp]
      exact ⟨job, List.mem_cons_self, ho⟩
    have hlater : ∀ {v}, AltersOnly (OutputOf jobs) σ₁.tree v →
        AltersOnly (OutputOf (job :: jobs)) σ.tree v :=
      fun hv => hone.trans (hv.mono fun _ => OutputOf.cons)
    refine ⟨by simp [hcompiled.length], hlater hcompiled.altersOnly, ?_, ?_⟩
    · intro l content modified hl
      rcases hcompiled.written l content modified hl with hl | ⟨k, hk, p, hp, hlocate, v, hv, hP⟩
      · rw [htree] at hl
        rcases h.at?_cases ho hl with hl | ⟨hlocate, hP⟩
        · exact .inl hl
        · exact .inr ⟨job, List.mem_cons_self, o, ho, hlocate, σ.tree, .refl _ _, hP⟩
      · exact .inr ⟨k, List.mem_cons_of_mem _ hk, p, hp, by rw [← hone.here]; exact hlocate, v,
          hlater hv, hP⟩
    · intro hapart i k p hi hresult hp
      obtain ⟨hfirstApart, hrestApart⟩ := List.pairwise_cons.1 hapart
      cases i with
      | zero =>
        simp only [List.getElem?_cons_zero, Option.some.injEq] at hi hresult
        subst hi
        obtain rfl : o = p := by
          rw [ho] at hp
          exact Option.some.inj hp
        obtain ⟨x, m, hP, hread⟩ := h.read_output ho hresult
        rw [← htree] at hread
        refine ⟨σ.tree, x, m, .refl _ _, hP, hcompiled.altersOnly.read ?_ hread⟩
        rintro q ⟨k, hk, hq⟩
        rw [hone.here]
        exact (hfirstApart k hk o q ho hq).symm
      | succ i =>
        rw [← hone.here] at hrestApart
        obtain ⟨v, x, m, hv, hP, hread⟩ := hcompiled.succeeded hrestApart i k p hi hresult hp
        exact ⟨v, x, m, hlater hv, hP, hread⟩

/-! ## Compilers that depend on the sources -/

/-- A content is one that is given for a job. -/
def Gives (gives : Directive → Path → FileTree → List UInt8 → Prop) (job : Job) (t : FileTree)
    (content : List UInt8) : Prop :=
  gives job.directive job.source t content

/-- What a compiler may write for a directive depends on the sources alone. -/
structure Compiler.Obeys (compiler : Compiler)
    (gives : Directive → Path → FileTree → List UInt8 → Prop) : Prop where
  writes : compiler.Writes (Gives gives)
  depends : ∀ {d p t u x}, t.SameSources u p → gives d p u x → gives d p t x

/-- What a compiler writes for a directive is a function of the sources. -/
structure Compiler.Computes (compiler : Compiler)
    (text? : Directive → Path → FileTree → Option (List UInt8)) : Prop where
  writes : compiler.Writes (Gives fun d p t x => text? d p t = some x)
  depends : ∀ d p t u, t.SameSources u p → text? d p u = text? d p t

theorem Compiler.Computes.obeys {text? : Directive → Path → FileTree → Option (List UInt8)}
    (h : compiler.Computes text?) : compiler.Obeys fun d p t x => text? d p t = some x where
  writes := h.writes
  depends := by
    intro d p t u x hsame hx
    rw [← h.depends d p t u hsame]
    exact hx

/-- Every compiler that keeps to its outputs may be said to write anything. -/
theorem Compiler.Writes.obeys (h : compiler.Writes P) :
    compiler.Obeys fun _ _ _ _ => True where
  writes :=
    { failure := h.failure
      success := by
        intro job o t ho hfailure
        obtain ⟨content, -, hwrite⟩ := h.success job o t ho hfailure
        exact ⟨content, trivial, hwrite⟩ }
  depends _ _ := trivial

/-! ## A plain compiler -/

/-- The text of a byte array, with the source behind it. -/
def plainText? (d : Directive) (p : Path) (t : FileTree) : Option (List UInt8) :=
  (t.content? p).map fun content =>
    Text.encode ("const BYTE g_" ++ d.name ++ "[] =\n").toList ++ content

/-- A compiler that writes the source behind a byte array. -/
def plain : Compiler := fun job t =>
  let failed : Compilation :=
    { failure := some ⟨job.directive.name, "cannot compile\n", job.source.text⟩
      notices := []
      tree := t }
  match plainText? job.directive job.source t, job.output with
  | none, _ => failed
  | some _, none => { failed with failure := none }
  | some content, some o =>
    match t.write o content with
    | (.ok (), u) => { failure := none, notices := [], tree := u }
    | (.error _, _) => failed

theorem plain_computes : plain.Computes plainText? where
  writes :=
    { failure := by
        intro job o t ho hfailure
        unfold plain at hfailure ⊢
        cases htext : plainText? job.directive job.source t with
        | none => rfl
        | some content =>
          simp only [htext, ho] at hfailure ⊢
          split at hfailure
          · cases hfailure
          · rfl
      success := by
        intro job o t ho hfailure
        unfold plain at hfailure ⊢
        cases htext : plainText? job.directive job.source t with
        | none =>
          simp only [htext] at hfailure
          cases hfailure
        | some content =>
          refine ⟨content, htext, ?_⟩
          simp only [htext, ho] at hfailure ⊢
          split at hfailure
          · next u hu => exact hu
          · cases hfailure }
  depends := by
    intro d p t u hsame
    unfold plainText?
    rw [hsame p .refl]

end ShaderBuild
