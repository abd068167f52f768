import Mathlib.Algebra.BigOperators.Fin
import Mathlib.Data.List.FinRange
import ShaderBuild.Build.Pool
import ShaderBuild.Proofs.Build.Calls

/-!
# What a pool of workers answers

Whatever the schedule, a job is at one place only: in the queue, with one worker, or in its slot
(`Sound`). Each step keeps that (`Sound.step`), and it brings the end nearer by one (`left_step`),
so any schedule can be carried on until all workers are gone (`exists_allGone`). Then all slots are
filled, and what was compiled is a row of all jobs in some order. For a compiler whose results
depend on the job alone, the answer is that of one worker that takes the jobs in order
(`pool_compiles_like_one_worker`).
-/

namespace ShaderBuild

open Action

namespace Pool

variable {n w : Nat} {compiler : Compiler} {job : Fin n → Job} {pool : Pool n w} {σ : Session}

/-! ## Fields after a step -/

theorem get_eq_getElem {α : Type} (v : Vector α n) (i : Fin n) :
    v.get i = getElem v i.val i.isLt := rfl

section

variable (pool) (i j : Fin w) (k l : Fin n) (x : Worker n) (result : Option CompileFailure)

@[simp, grind =] theorem worker_start : (start n w σ).worker i = .idle := by
  simp [start, worker, get_eq_getElem]

@[simp, grind =] theorem slot_start : (start n w σ).slot k = none := by
  simp [start, slot, get_eq_getElem]

@[simp, grind =] theorem taken_start : (start n w σ).taken = 0 := rfl

@[simp, grind =] theorem worker_become :
    (pool.become i x).worker j = if i = j then x else pool.worker j := by
  simp [become, worker, get_eq_getElem, Vector.getElem_set, Fin.val_inj]

@[simp, grind =] theorem slot_become : (pool.become i x).slot k = pool.slot k := rfl

@[simp, grind =] theorem taken_become : (pool.become i x).taken = pool.taken := rfl

@[simp, grind =] theorem session_become : (pool.become i x).session = pool.session := rfl

@[simp, grind =] theorem slot_store :
    (pool.store k result).slot l = if k = l then some result else pool.slot l := by
  simp [store, slot, get_eq_getElem, Vector.getElem_set, Fin.val_inj]

@[simp, grind =] theorem worker_store : (pool.store k result).worker i = pool.worker i := rfl

@[simp, grind =] theorem taken_store : (pool.store k result).taken = pool.taken := rfl

@[simp, grind =] theorem session_store : (pool.store k result).session = pool.session := rfl

@[simp, grind =] theorem worker_taken (taken : Nat) :
    ({ pool with taken } : Pool n w).worker i = pool.worker i := rfl

@[simp, grind =] theorem slot_taken (taken : Nat) :
    ({ pool with taken } : Pool n w).slot k = pool.slot k := rfl

@[simp, grind =] theorem worker_session (session : Session) :
    ({ pool with session } : Pool n w).worker i = pool.worker i := rfl

@[simp, grind =] theorem slot_session (session : Session) :
    ({ pool with session } : Pool n w).slot k = pool.slot k := rfl

end

end Pool

/-! ## Where the jobs are -/

/-- The job that a worker has taken and not stored the result of yet. -/
@[grind] def Worker.job? {n : Nat} : Worker n → Option (Fin n)
  | idle => none
  | holding k => some k
  | finished k _ => some k
  | gone => none

/-- How many steps a worker makes until it is gone, if it takes no job any more. -/
def Worker.left {n : Nat} : Worker n → Nat
  | idle => 1
  | holding _ => 3
  | finished _ _ => 2
  | gone => 0

namespace Pool

variable {n w : Nat} {compiler : Compiler} {job : Fin n → Job} {pool : Pool n w} {σ : Session}

/-- Where a job is: in the queue, with a worker, or done with. -/
inductive Place (w : Nat) where
  | queue
  | worker (i : Fin w)
  | slot
deriving DecidableEq

/-- A pool has got to where it is from a session by compiling some jobs, oldest first, with some
results, and each job is at one place. -/
structure Sound (compiler : Compiler) (job : Fin n → Job) (σ : Session) (pool : Pool n w)
    (place : Fin n → Place w) (compiled : List (Fin n × Option CompileFailure)) : Prop where
  ran : ((compiled.map fun x => job x.1).mapM (compile compiler)).runOn σ
    = (.ok (compiled.map (·.2)), pool.session)
  once : (compiled.map (·.1)).Nodup
  queue : ∀ k, place k = .queue ↔ pool.taken ≤ k.val
  worker : ∀ k i, place k = .worker i ↔ (pool.worker i).job? = some k
  slot : ∀ k, place k = .slot ↔ (pool.slot k).isSome
  /-- No job was compiled that is in the queue or only held by a worker. -/
  queued : ∀ k, pool.taken ≤ k.val → k ∉ compiled.map (·.1)
  holding : ∀ i k, pool.worker i = .holding k → k ∉ compiled.map (·.1)
  /-- A result is that of the compilation. -/
  finished : ∀ i k result, pool.worker i = .finished k result → (k, result) ∈ compiled
  stored : ∀ k result, pool.slot k = some result → (k, result) ∈ compiled
  /-- A worker is gone when the queue is empty. -/
  gone : ∀ i, pool.worker i = .gone → n ≤ pool.taken

theorem sound_start : Sound compiler job σ (start n w σ) (fun _ => .queue) [] where
  ran := rfl
  once := List.nodup_nil
  queue k := by simp
  worker k i := by simp [Worker.job?]
  slot k := by simp
  queued k _ := by simp
  holding i k h := by simp at h
  finished i k result h := by simp at h
  stored k result h := by simp at h
  gone i h := by simp at h

namespace Sound

variable {compiled : List (Fin n × Option CompileFailure)} {place : Fin n → Place w} {i : Fin w}
  {k : Fin n} {result : Option CompileFailure}

/-- An idle worker takes the next job. -/
theorem take (h : Sound compiler job σ pool place compiled) (hi : pool.worker i = .idle)
    (hn : pool.taken < n) : Sound compiler job σ
      ({ pool with taken := pool.taken + 1 }.become i (.holding ⟨pool.taken, hn⟩))
      (fun l => if l = ⟨pool.taken, hn⟩ then .worker i else place l) compiled where
  ran := h.ran
  once := h.once
  queue l := by grind [h.queue l]
  worker l j := by grind [h.worker l j, h.queue ⟨pool.taken, hn⟩, h.worker ⟨pool.taken, hn⟩ j]
  slot l := by grind [h.slot l, h.queue ⟨pool.taken, hn⟩]
  queued l hl := h.queued l (by simp at hl; omega)
  holding := by grind [h.holding, h.queued]
  finished := by grind [h.finished]
  stored := by grind [h.stored]
  gone := by grind [h.gone]

/-- An idle worker finds the queue empty. -/
theorem leave (h : Sound compiler job σ pool place compiled) (hi : pool.worker i = .idle)
    (hn : n ≤ pool.taken) : Sound compiler job σ (pool.become i .gone) place compiled where
  ran := h.ran
  once := h.once
  queue := h.queue
  worker l j := by grind [h.worker l j]
  slot := h.slot
  queued := h.queued
  holding := by grind [h.holding]
  finished := by grind [h.finished]
  stored := h.stored
  gone := fun _ _ => hn

/-- A worker has its job compiled. -/
theorem compile (h : Sound compiler job σ pool place compiled) (hi : pool.worker i = .holding k) :
    Sound compiler job σ
      ({ pool with session := ((Action.compile compiler (job k)).runOn pool.session).2 }.become i
        (.finished k (compiler (job k) pool.session.tree).failure))
      place (compiled ++ [(k, (compiler (job k) pool.session.tree).failure)]) where
  ran := by
    have hlast : (Action.compile compiler (job k)).runOn pool.session =
      (.ok (compiler (job k) pool.session.tree).failure,
        ((Action.compile compiler (job k)).runOn pool.session).2) := rfl
    rw [List.map_append, List.mapM_append, runOn_bind_of_ok h.ran, List.map_append]
    exact runOn_bind_ok_iff.2 ⟨_, _, runOn_bind_ok_iff.2 ⟨_, _, hlast, rfl⟩, rfl⟩
  once := by
    rw [List.map_append, List.map_singleton, List.nodup_append]
    refine ⟨h.once, List.nodup_singleton k, fun l hl m hm heq => ?_⟩
    rw [heq, List.mem_singleton.1 hm] at hl
    exact h.holding i k hi hl
  queue := h.queue
  worker l j := by grind [h.worker l j]
  slot := h.slot
  queued l hl := by
    have hplace := (h.worker k i).2 (by rw [hi]; rfl)
    grind [h.queued l hl, h.queue l]
  holding j l hl := by grind [h.holding j l, h.worker k i, h.worker k j]
  finished j l result hl := by grind [h.finished j l result]
  stored l result hl := List.mem_append_left _ (h.stored l result hl)
  gone j hj := h.gone j (by grind)

/-- A worker stores its result. -/
theorem store (h : Sound compiler job σ pool place compiled)
    (hi : pool.worker i = .finished k result) : Sound compiler job σ
      ((pool.store k result).become i .idle) (fun l => if l = k then .slot else place l)
      compiled where
  ran := h.ran
  once := h.once
  queue l := by grind [h.queue l, h.worker k i]
  worker l j := by grind [h.worker l j, h.worker k i, h.worker k j]
  slot l := by grind [h.slot l]
  queued := h.queued
  holding j l hl := h.holding j l (by grind)
  finished j l r hl := h.finished j l r (by grind)
  stored l r hl := by grind [h.stored l r, h.finished i k result]
  gone j hj := h.gone j (by grind)

/-- **Every step leaves each job at one place.** -/
theorem step (h : Sound compiler job σ pool place compiled) (i : Fin w) :
    ∃ place compiled, Sound compiler job σ (pool.step compiler job i) place compiled := by
  unfold Pool.step
  cases hi : pool.worker i with
  | idle =>
    by_cases hn : pool.taken < n
    · simp only [dif_pos hn]
      exact ⟨_, _, h.take hi hn⟩
    · simp only [dif_neg hn]
      exact ⟨_, _, h.leave hi (Nat.le_of_not_lt hn)⟩
  | holding k => exact ⟨_, _, h.compile hi⟩
  | finished k result => exact ⟨_, _, h.store hi⟩
  | gone => exact ⟨_, _, h⟩

end Sound

/-- So does every schedule. -/
theorem sound_run (h : ∃ place compiled, Sound compiler job σ pool place compiled)
    (schedule : List (Fin w)) :
    ∃ place compiled, Sound compiler job σ (pool.run compiler job schedule) place compiled := by
  induction schedule generalizing pool with
  | nil => exact h
  | cons i schedule ih =>
    obtain ⟨place, compiled, h⟩ := h
    exact ih (h.step i)

/-! ## How many steps are left -/

/-- How many steps all workers make until they are gone: three for each job in the queue, and what
they have yet to do without these. -/
def left (pool : Pool n w) : Nat := 3 * (n - pool.taken) + ∑ i, (pool.worker i).left

/-- What a worker is about to do counts for it alone. -/
theorem left_become (pool : Pool n w) (i : Fin w) (x : Worker n) :
    (pool.become i x).left + (pool.worker i).left = pool.left + x.left := by
  have hrest : ∑ j ∈ Finset.univ.erase i, ((pool.become i x).worker j).left
      = ∑ j ∈ Finset.univ.erase i, (pool.worker j).left :=
    Finset.sum_congr rfl fun j hj => by
      rw [worker_become, if_neg (Finset.ne_of_mem_erase hj).symm]
  unfold left
  rw [← Finset.add_sum_erase _ _ (Finset.mem_univ i), hrest,
    ← Finset.add_sum_erase _ (fun j => (pool.worker j).left) (Finset.mem_univ i),
    worker_become, if_pos rfl, taken_become]
  omega

/-- Every step of a worker that is not gone brings the end nearer. -/
theorem left_step (compiler : Compiler) (job : Fin n → Job) {i : Fin w} (hi : pool.worker i ≠ .gone) :
    (pool.step compiler job i).left + 1 = pool.left := by
  unfold Pool.step
  cases hworker : pool.worker i with
  | idle =>
    by_cases hn : pool.taken < n
    · have hleft := left_become { pool with taken := pool.taken + 1 } i (.holding ⟨_, hn⟩)
      simp only [dif_pos hn]
      simp only [left, worker_taken, hworker, Worker.left] at hleft ⊢
      omega
    · have hleft := left_become pool i .gone
      simp only [dif_neg hn]
      simp only [hworker, Worker.left] at hleft ⊢
      omega
  | holding k =>
    have hleft := left_become
      { pool with session := ((Action.compile compiler (job k)).runOn pool.session).2 } i
      (.finished k (compiler (job k) pool.session.tree).failure)
    simp only [worker_session, hworker, Worker.left] at hleft ⊢
    change _ = pool.left + 2 at hleft
    omega
  | finished k result =>
    have hleft := left_become (pool.store k result) i .idle
    simp only [worker_store, hworker, Worker.left] at hleft ⊢
    change _ = pool.left + 1 at hleft
    omega
  | gone => exact absurd hworker hi

/-- Any schedule can be carried on until all workers are gone. -/
theorem exists_allGone (compiler : Compiler) (job : Fin n → Job) (pool : Pool n w) :
    ∃ more, (pool.run compiler job more).AllGone := by
  induction hleft : pool.left generalizing pool with
  | zero =>
    refine ⟨[], fun i => ?_⟩
    show pool.worker i = .gone
    by_contra hi
    have := left_step compiler job hi
    omega
  | succ m ih =>
    by_cases hgone : pool.AllGone
    · exact ⟨[], hgone⟩
    · obtain ⟨i, hi⟩ := not_forall.1 hgone
      obtain ⟨more, hmore⟩ := ih (pool.step compiler job i) (by
        have := left_step compiler job hi
        omega)
      exact ⟨i :: more, hmore⟩

/-! ## When all workers are gone -/

/-- All slots are filled then, with the results of the compilations. -/
theorem Sound.slot_of_allGone {place : Fin n → Place w}
    {compiled : List (Fin n × Option CompileFailure)}
    (h : Sound compiler job σ pool place compiled) (hw : 0 < w) (hgone : pool.AllGone)
    (k : Fin n) : ∃ result, pool.slot k = some result := by
  rw [← Option.isSome_iff_exists, ← h.slot]
  cases hplace : place k with
  | slot => rfl
  | queue =>
    have hempty := h.gone ⟨0, hw⟩ (hgone _)
    have := (h.queue k).1 hplace
    omega
  | worker i =>
    have hjob := (h.worker k i).1 hplace
    rw [hgone i] at hjob
    cases hjob

theorem Sound.slot_iff {place : Fin n → Place w}
    {compiled : List (Fin n × Option CompileFailure)}
    (h : Sound compiler job σ pool place compiled) (hw : 0 < w) (hgone : pool.AllGone)
    {k : Fin n} {result : Option CompileFailure} :
    pool.slot k = some result ↔ (k, result) ∈ compiled := by
  refine ⟨h.stored k result, fun hmem => ?_⟩
  obtain ⟨result', hslot⟩ := h.slot_of_allGone hw hgone k
  have hmem' := h.stored k result' hslot
  obtain heq := List.inj_on_of_nodup_map h.once hmem hmem' rfl
  rw [hslot, (Prod.mk.inj heq).2]

/-- Every job has been compiled once. -/
theorem Sound.perm_of_allGone {place : Fin n → Place w}
    {compiled : List (Fin n × Option CompileFailure)}
    (h : Sound compiler job σ pool place compiled) (hw : 0 < w) (hgone : pool.AllGone) :
    (compiled.map (·.1)).Perm (List.finRange n) := by
  rw [List.perm_ext_iff_of_nodup h.once (List.nodup_finRange n)]
  intro k
  obtain ⟨result, hslot⟩ := h.slot_of_allGone hw hgone k
  simpa using ⟨result, h.stored k result hslot⟩

end Pool

/-! ## The same as one worker -/

/-- When the answer to a job does not depend on the tree, neither do those to a row of jobs. -/
theorem Compiler.answers_eq_map {compiler : Compiler}
    (h : ∀ job t u, (compiler job t).failure = (compiler job u).failure) (jobs : List Job)
    (t u : FileTree) : compiler.answers jobs u = jobs.map fun job => (compiler job t).failure := by
  induction jobs generalizing u with
  | nil => rfl
  | cons job jobs ih => rw [Compiler.answers, ih, List.map_cons, h job u t]

namespace Pool

variable {n w : Nat} {compiler : Compiler} {job : Fin n → Job} {pool : Pool n w} {σ : Session}

theorem length_results (pool : Pool n w) : pool.results.length = n := by simp [results]

/-- The results are what the compiler answers to the jobs, when that depends on the job alone. -/
theorem Sound.results_of_allGone {place : Fin n → Place w}
    {compiled : List (Fin n × Option CompileFailure)}
    (h : Sound compiler job σ pool place compiled) (hw : 0 < w) (hgone : pool.AllGone)
    (hcompiler : ∀ job t u, (compiler job t).failure = (compiler job u).failure) :
    pool.results = (List.finRange n).map fun k => (compiler (job k) σ.tree).failure := by
  obtain ⟨log, hrun⟩ := runOn_mapM_compile compiler (compiled.map fun x => job x.1) σ
  rw [h.ran] at hrun
  have hanswers : compiled.map (·.2) =
      compiled.map fun x => (compiler (job x.1) σ.tree).failure := by
    have := Except.ok.inj (congrArg Prod.fst hrun)
    rw [this, Compiler.answers_eq_map hcompiler _ σ.tree, List.map_map]
    rfl
  refine List.map_congr_left fun k _ => ?_
  obtain ⟨result, hslot⟩ := h.slot_of_allGone hw hgone k
  rw [hslot, Option.getD_some]
  exact List.map_inj_left.1 hanswers _ (h.stored k result hslot)

end Pool

namespace FileSet

variable (fs : FileSet)

/-- A permutation is compiled by the directive and to the output that its file has for it. -/
theorem job_recorded (keepOutputs : Bool) (task : fs.Task) :
    (fs.job keepOutputs task).source = (fs.get task.file).path ∧
    (fs.get task.file).directives[task.permutation.val]?
      = some (fs.job keepOutputs task).directive ∧
    (fs.job keepOutputs task).output
      = if keepOutputs then (fs.get task.file).outputs[task.permutation.val]? else none := by
  refine ⟨rfl, ?_, ?_⟩
  · simp [SourceFile.directives, job]
  · simp [SourceFile.outputs, job]

theorem map_job_tasksOf (keepOutputs : Bool) (i : Fin fs.size) :
    (fs.tasksOf i).map (fs.job keepOutputs) = (fs.get i).jobs keepOutputs := by
  unfold tasksOf SourceFile.jobs
  rw [List.map_map]
  conv_rhs => rw [← List.map_get_finRange (fs.get i).permutations, List.map_map]
  rfl

/-- The jobs of a validation are those of all permutations. -/
theorem checks_eq_map_tasks : fs.checks = fs.tasks.map (fs.job false) := by
  unfold checks tasks
  rw [List.map_flatMap]
  simp only [map_job_tasksOf]
  conv_lhs => rw [← List.map_get_finRange fs.files, List.flatMap_map]
  rfl

/-- The jobs of a build are those of the permutations of the files to compile. -/
theorem staleJobs_eq_map_tasks : fs.staleJobs = fs.staleTasks.map (fs.job true) := by
  unfold staleJobs staleTasks
  rw [List.map_flatMap]
  simp only [map_job_tasksOf]
  conv_lhs => rw [← List.map_get_finRange fs.files, List.filter_map, List.flatMap_map]
  rfl

end FileSet

/-- **A pool compiles like one worker.** Whatever jobs of a set it is given, however many workers
are allowed, and whatever the schedule, it can be carried on until all workers are gone. Then each
job has been compiled once, by the directive and to the output of its permutation; the session is
that of one worker who took the jobs in the order in which they were compiled; and every slot holds
the result of its own job. When the answers of the compiler depend on the job alone, the results are
those of the jobs in their order, as one worker answers. -/
theorem pool_compiles_like_one_worker (compiler : Compiler) (fs : FileSet) (tasks : List fs.Task)
    (keepOutputs : Bool) (allowed : Nat) (σ : Session)
    (schedule : List (Fin (workers allowed tasks.length))) :
    let job := fun k => fs.job keepOutputs (tasks.get k)
    let pool := (Pool.start tasks.length (workers allowed tasks.length) σ).run compiler job schedule
    (∃ more, (pool.run compiler job more).AllGone) ∧
    (pool.AllGone →
      (∃ compiled : List (Fin tasks.length × Option CompileFailure),
        (compiled.map (·.1)).Perm (List.finRange tasks.length) ∧
        ((compiled.map fun x => job x.1).mapM (compile compiler)).runOn σ
          = (.ok (compiled.map (·.2)), pool.session) ∧
        pool.session.calls = σ.calls ++ compiled.map (fun x => job x.1) ∧
        ∀ k result, pool.slot k = some result ↔ (k, result) ∈ compiled) ∧
      (∀ k, ∃ result, pool.slot k = some result) ∧
      pool.results.length = tasks.length ∧
      ((∀ job t u, (compiler job t).failure = (compiler job u).failure) →
        pool.results = tasks.map (fun task => (compiler (fs.job keepOutputs task) σ.tree).failure) ∧
        ∃ σ', (compileAll compiler allowed (tasks.map (fs.job keepOutputs))).runOn σ
          = (.ok pool.results, σ'))) ∧
    ∀ k, (job k).source = (fs.get (tasks.get k).file).path ∧
      (fs.get (tasks.get k).file).directives[(tasks.get k).permutation.val]?
        = some (job k).directive ∧
      (job k).output = if keepOutputs then
        (fs.get (tasks.get k).file).outputs[(tasks.get k).permutation.val]? else none := by
  intro job pool
  refine ⟨Pool.exists_allGone compiler job pool, fun hgone => ?_,
    fun k => fs.job_recorded keepOutputs _⟩
  have hw : 0 < workers allowed tasks.length := Nat.lt_of_lt_of_le Nat.one_pos (Nat.le_max_left _ _)
  obtain ⟨place, compiled, hsound⟩ := Pool.sound_run ⟨_, _, Pool.sound_start⟩ schedule
  refine ⟨⟨compiled, hsound.perm_of_allGone hw hgone, hsound.ran, ?_,
    fun _ _ => hsound.slot_iff hw hgone⟩, hsound.slot_of_allGone hw hgone, pool.length_results,
    fun hcompiler => ?_⟩
  · obtain ⟨log, hrun⟩ := runOn_mapM_compile compiler (compiled.map fun x => job x.1) σ
    rw [hsound.ran] at hrun
    rw [(Prod.mk.inj hrun).2]
  · have hresults : pool.results
        = tasks.map fun task => (compiler (fs.job keepOutputs task) σ.tree).failure := by
      rw [hsound.results_of_allGone hw hgone hcompiler]
      conv_rhs => rw [← List.map_get_finRange tasks, List.map_map]
      rfl
    obtain ⟨log, hrun⟩ :=
      runOn_compileAll compiler allowed (tasks.map (fs.job keepOutputs)) σ
    rw [Compiler.answers_eq_map hcompiler _ σ.tree, List.map_map] at hrun
    refine ⟨hresults, ?_⟩
    rw [hresults]
    exact ⟨_, hrun⟩

/-! ## Two workers on three jobs -/

namespace TwoWorkers

def file (name : String) (directives : List String) : SourceFile :=
  { identity := (Path.mk name).identity
    path := ⟨name⟩
    modified := ⟨1, 0⟩
    content := []
    permutations := directives.map fun d =>
      { directive := { name := d, entryPoint := "main", stage := .pixel, defines := [] }
        output := ⟨d⟩ } }

/-- A file with two permutations, one of them broken, and a file with another. -/
def files : FileSet := ⟨[file "a" ["A", "Broken"], file "b" ["B"]]⟩

/-- What is wrong with a broken permutation. -/
def failure : CompileFailure := ⟨"Broken", "syntax error\n", ""⟩

/-- A compiler that refuses broken permutations. -/
def strict : Compiler := fun job t =>
  { failure := if job.directive.name = "Broken" then some failure else none
    notices := []
    tree := t }

def first : Fin (workers 2 files.tasks.length) := ⟨0, by decide⟩

def second : Fin (workers 2 files.tasks.length) := ⟨1, by decide⟩

/-- The second worker is through with the second job before the first one has been compiled. -/
def schedule : List (Fin (workers 2 files.tasks.length)) :=
  [first, second, second, second, first, second, first, second, second, first, second]

/-- The session in front of the pool. -/
def session : Session := { tree := .empty [] ⟨0, 0⟩ }

def done : Pool files.tasks.length (workers 2 files.tasks.length) :=
  (Pool.start _ _ session).run strict (fun k => files.job true (files.tasks.get k)) schedule

theorem done_facts : done.AllGone ∧
    done.session.calls.map (·.directive.name) = ["Broken", "A", "B"] ∧
    done.results = [none, some failure, none] := by
  decide +kernel

end TwoWorkers

theorem two_workers_like_one : TwoWorkers.done.AllGone ∧
    TwoWorkers.done.session.calls.map (·.directive.name) = ["Broken", "A", "B"] ∧
    (∀ k, ∃ result, TwoWorkers.done.slot k = some result) ∧
    ∃ σ', (compileAll TwoWorkers.strict 2
        (TwoWorkers.files.tasks.map (TwoWorkers.files.job true))).runOn TwoWorkers.session
      = (.ok [none, some TwoWorkers.failure, none], σ') := by
  obtain ⟨hgone, hcalls, hresults⟩ := TwoWorkers.done_facts
  obtain ⟨-, hpool, -⟩ := pool_compiles_like_one_worker TwoWorkers.strict TwoWorkers.files
    TwoWorkers.files.tasks true 2 TwoWorkers.session TwoWorkers.schedule
  obtain ⟨-, hfilled, -, hsame⟩ := hpool hgone
  obtain ⟨-, σ', hrun⟩ := hsame fun _ _ _ => rfl
  refine ⟨hgone, hcalls, hfilled, σ', ?_⟩
  rw [← hresults]
  exact hrun

end ShaderBuild
