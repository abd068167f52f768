import ShaderBuild.Build.Job

/-!
# Pools of workers

The jobs of a build may be shared by several workers. Each of them takes the next job from a queue,
hands it to the compiler, and stores the result in the slot of the job, over and over until the
queue is empty. A schedule says whose turn it is to make the next step.

Main definitions: `FileSet.Task`, `Pool.step`, `Pool.run`, `Pool.results`.
-/

namespace ShaderBuild

namespace FileSet

/-- A permutation of a file of a set, by the places of both. -/
structure Task (fs : FileSet) where
  file : Fin fs.size
  permutation : Fin (fs.get file).permutations.length

variable (fs : FileSet)

/-- The job of a permutation. -/
def job (keepOutputs : Bool) (task : fs.Task) : Job :=
  let f := fs.get task.file
  let p := f.permutations.get task.permutation
  { source := f.path
    directive := p.directive
    output := if keepOutputs then some p.output else none }

/-- The permutations of a file, in order. -/
def tasksOf (i : Fin fs.size) : List fs.Task := (List.finRange _).map fun p => ⟨i, p⟩

/-- The permutations of all files. -/
def tasks : List fs.Task := (List.finRange fs.size).flatMap fs.tasksOf

/-- The permutations of the files to compile. -/
def staleTasks : List fs.Task :=
  ((List.finRange fs.size).filter fun i => (fs.get i).shouldCompile).flatMap fs.tasksOf

end FileSet

/-- What a worker on `n` jobs does next. -/
inductive Worker (n : Nat) where
  /-- It takes a job from the queue. -/
  | idle
  /-- It hands a job to the compiler. -/
  | holding (k : Fin n)
  /-- It stores the result of a job. -/
  | finished (k : Fin n) (result : Option CompileFailure)
  /-- Nothing, since it found the queue empty. -/
  | gone
deriving DecidableEq

/-- So many workers on `n` jobs. -/
structure Pool (n workers : Nat) where
  /-- How many jobs have been taken from the queue. -/
  taken : Nat
  workers : Vector (Worker n) workers
  slots : Vector (Option (Option CompileFailure)) n
  session : Session

namespace Pool

variable {n w : Nat}

/-- Nothing has been taken, and nothing is stored. -/
def start (n w : Nat) (session : Session) : Pool n w :=
  { taken := 0
    workers := .replicate w .idle
    slots := .replicate n none
    session }

/-- What a worker does next. -/
def worker (pool : Pool n w) (i : Fin w) : Worker n := pool.workers.get i

/-- The result that is stored for a job, if there is one yet. -/
def slot (pool : Pool n w) (k : Fin n) : Option (Option CompileFailure) := pool.slots.get k

/-- Says what a worker does next. -/
def become (pool : Pool n w) (i : Fin w) (worker : Worker n) : Pool n w :=
  { pool with workers := pool.workers.set i worker i.isLt }

/-- Stores the result of a job. -/
def store (pool : Pool n w) (k : Fin n) (result : Option CompileFailure) : Pool n w :=
  { pool with slots := pool.slots.set k (some result) k.isLt }

/-- The next step of a worker. -/
def step (compiler : Compiler) (job : Fin n → Job) (pool : Pool n w) (i : Fin w) : Pool n w :=
  match pool.worker i with
  | .idle =>
    if h : pool.taken < n then
      { pool with taken := pool.taken + 1 }.become i (.holding ⟨pool.taken, h⟩)
    else pool.become i .gone
  | .holding k =>
    { pool with session := ((Action.compile compiler (job k)).runOn pool.session).2 }.become i
      (.finished k (compiler (job k) pool.session.tree).failure)
  | .finished k result => (pool.store k result).become i .idle
  | .gone => pool

/-- The steps of workers in the order of a schedule. -/
def run (compiler : Compiler) (job : Fin n → Job) (pool : Pool n w) (schedule : List (Fin w)) :
    Pool n w :=
  schedule.foldl (step compiler job) pool

/-- All workers have found the queue empty. -/
def AllGone (pool : Pool n w) : Prop := ∀ i, pool.worker i = .gone

instance (pool : Pool n w) : Decidable pool.AllGone :=
  inferInstanceAs (Decidable (∀ i, pool.worker i = .gone))

/-- The results in the order of the jobs. A job without a result counts as one that went well. -/
def results (pool : Pool n w) : List (Option CompileFailure) :=
  (List.finRange n).map fun k => (pool.slot k).getD none

end Pool

end ShaderBuild
