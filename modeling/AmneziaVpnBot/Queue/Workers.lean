import AmneziaVpnBot.Lib.Machine
import AmneziaVpnBot.Db.Jobs
import Mathlib.Logic.Function.Basic

/-! Any number of workers that run `run_single_batch` against one jobs table. A worker
claims a batch and commits the claim, then runs the jobs of the batch one after
another, and records and commits each result before the next. Its session keeps the
rows it has loaded until a failed job rolls the session back. Nothing makes a worker
look at the lock again: a batch that takes longer than the lease may be claimed by
another worker meanwhile. -/

namespace AmneziaVpnBot.Workers

/-- A worker inside `run_single_batch`. -/
structure Worker where
  /-- The job it is running, with the row its session holds. -/
  running : Option (JobId × Job)
  /-- The jobs still to run, each with the row its session holds, if any. -/
  batch : List (JobId × Option Job)

def idle : Worker := ⟨none, []⟩

structure State where
  now : ℤ
  jobs : Table Job
  workers : WorkerId → Worker

def start : State := ⟨0, [], fun _ => idle⟩

inductive Step
  | claimBatch (worker : WorkerId) (limit : ℕ)
  | startJob (worker : WorkerId)
  | recordSuccess (worker : WorkerId)
  | recordFailure (worker : WorkerId) (error : String) (isRetryable : Bool)
  | crash (worker : WorkerId)
  | enqueue (jobType : JobType) (aggregateId : SubscriptionId) (reason : Option Reason)
  /-- An admin's retry of a job that failed for good. -/
  | requeue (id : JobId)
  | tick (d : ℕ)

def State.setWorker (s : State) (w : WorkerId) (k : Worker) : State :=
  { s with workers := Function.update s.workers w k }

def step (s : State) : Step → Option State
  | .claimBatch w limit => match s.workers w with
    | ⟨none, []⟩ =>
      let (jobs, claimed) := claimPendingJobs s.jobs w s.now limit
      some ({ s with jobs := jobs }.setWorker w ⟨none, claimed.map fun id => (id, jobs[id]?)⟩)
    | _ => none
  | .startJob w => match s.workers w with
    | ⟨none, (id, loaded) :: rest⟩ =>
      (loaded <|> s.jobs[id]?).map fun job => s.setWorker w ⟨some (id, job), rest⟩
    | _ => none
  | .recordSuccess w => match s.workers w with
    | ⟨some (id, job), rest⟩ =>
      some ({ s with jobs := s.jobs.update id (job.flush job.markCompleted) }.setWorker w ⟨none, rest⟩)
    | _ => none
  | .recordFailure w error isRetryable => match s.workers w with
    | ⟨some (id, _), rest⟩ =>
      -- the rollback expires every row of the session, so the job is read again
      some ({ s with jobs := s.jobs.update id (Job.markFailed error isRetryable s.now) }.setWorker w
        ⟨none, rest.map fun (entry : JobId × Option Job) => (entry.1, none)⟩)
    | _ => none
  | .crash w => some (s.setWorker w idle)
  | .enqueue jobType aggregateId reason =>
    some { s with jobs := s.jobs.insert (newJob jobType aggregateId reason s.now) }
  | .requeue id =>
    if s.jobs[id]?.any fun job => job.status = .permanentFailure then
      some { s with jobs := s.jobs.update id (Job.requeue s.now) }
    else none
  | .tick d => some { s with now := s.now + d }

/-- The job a step of a worker starts. -/
def emit (s : State) : Step → List (WorkerId × JobId)
  | .startJob w => match s.workers w with
    | ⟨none, (id, _) :: _⟩ => [(w, id)]
    | _ => []
  | _ => []

def status (s : State) (id : JobId) : Option JobStatus := s.jobs[id]?.map Job.status

/-- The jobs that have succeeded keep that status through the run, and none of them is
started in it. -/
def FinishedStay (s : State) (as : List Step) : Prop :=
  ∀ id u, status s id = some .succeeded → Machine.run step s as = some u →
    status u id = some .succeeded ∧ ∀ w, (w, id) ∉ Machine.log step emit s as

/-- The row of the job is in processing and locked by the worker. -/
def State.Holds (s : State) (w : WorkerId) (id : JobId) : Prop :=
  ∃ job, s.jobs[id]? = some job ∧ job.status = .processing ∧ job.lockedBy = some w

/-- A worker that starts a job, or records its failure, still holds the job's lock. -/
def LockHeld (s : State) : Step → Prop
  | .startJob w => ∀ entry rest, s.workers w = ⟨none, entry :: rest⟩ → s.Holds w entry.1
  | .recordFailure w _ _ => ∀ id job rest, s.workers w = ⟨some (id, job), rest⟩ → s.Holds w id
  | _ => True

/-! ### Steps and a finished job -/

theorem State.Holds.not_succeeded {s : State} {w : WorkerId} {id : JobId} (h : s.Holds w id) :
    status s id ≠ some .succeeded := by
  obtain ⟨job, hj, hp, -⟩ := h
  simp [status, hj, hp]

@[simp] theorem status_setWorker (s : State) (w : WorkerId) (k : Worker) (id : JobId) :
    status (s.setWorker w k) id = status s id := rfl

/-- An update keeps a finished job finished when it does so with the row it names. -/
theorem status_update {jobs : Table Job} {i id : JobId} {f : Job → Job}
    (h : jobs[id]?.map Job.status = some .succeeded)
    (hf : i = id → ∀ job, job.status = .succeeded → (f job).status = .succeeded) :
    (jobs.update i f)[id]?.map Job.status = some .succeeded := by
  obtain ⟨job, hj, hs⟩ := Option.map_eq_some_iff.mp h
  rw [Table.get_update]
  split_ifs with hi
  · simp [hj, hf hi job hs]
  · exact h

theorem status_claimOne {jobs : Table Job} {id : JobId} (i : JobId) (w : WorkerId) (now : ℤ)
    (h : jobs[id]?.map Job.status = some .succeeded) :
    (claimOne jobs i w now).1[id]?.map Job.status = some .succeeded := by
  rcases claimOne_cases jobs i w now with ⟨job, hj, hc, he⟩ | he
  · rw [he]
    refine status_update h fun hi => ?_
    obtain ⟨job', hj', hs⟩ := Option.map_eq_some_iff.mp h
    rw [← hi, hj] at hj'
    cases hj'
    exact absurd hc (Job.not_claimable_of_succeeded hs)
  · rw [he]; exact h

theorem status_claimEach {id : JobId} (w : WorkerId) (now : ℤ) :
    ∀ (ids : List JobId) {jobs : Table Job}, jobs[id]?.map Job.status = some .succeeded →
      (claimEach w now jobs ids).1[id]?.map Job.status = some .succeeded
  | [], _, h => h
  | i :: ids, _, h => status_claimEach w now ids (status_claimOne i w now h)

/-- Success written from any loaded row leaves a finished row finished. -/
theorem flush_markCompleted_status (loaded : Job) {job : Job} (h : job.status = .succeeded) :
    (loaded.flush loaded.markCompleted job).status = .succeeded := by
  simp only [Job.flush, Job.markCompleted, Table.flushColumn, h, ite_self]

/-- Under the guard no step changes the status of a finished job, and none starts it. -/
theorem succeeded_step {s u : State} {a : Step} {id : JobId} (h : status s id = some .succeeded)
    (hg : LockHeld s a) (hstep : step s a = some u) :
    status u id = some .succeeded ∧ ∀ w, (w, id) ∉ emit s a := by
  cases a with
  | claimBatch w limit =>
    simp only [step] at hstep
    split at hstep <;> cases hstep
    exact ⟨status_claimEach w s.now _ h, by simp [emit]⟩
  | startJob w =>
    simp only [step] at hstep
    split at hstep
    next i loaded rest hw =>
      obtain ⟨job, -, rfl⟩ := Option.map_eq_some_iff.mp hstep
      refine ⟨h, fun v hv => ?_⟩
      simp only [emit, hw, List.mem_singleton, Prod.mk.injEq] at hv
      exact (hg _ _ hw).not_succeeded (hv.2 ▸ h)
    · cases hstep
  | recordSuccess w =>
    simp only [step] at hstep
    split at hstep <;> cases hstep
    exact ⟨status_update h fun _ _ => flush_markCompleted_status _, by simp [emit]⟩
  | recordFailure w error isRetryable =>
    simp only [step] at hstep
    split at hstep
    next i job rest hw =>
      cases hstep
      refine ⟨status_update h fun hi => ?_, by simp [emit]⟩
      exact absurd (hi ▸ h) (hg _ _ _ hw).not_succeeded
    · cases hstep
  | crash w => cases hstep; exact ⟨h, by simp [emit]⟩
  | enqueue jobType aggregateId reason =>
    cases hstep
    obtain ⟨job, hj, hs⟩ := Option.map_eq_some_iff.mp h
    exact ⟨by simp [status, Table.get_insert_of_some _ hj, hs], by simp [emit]⟩
  | requeue i =>
    simp only [step] at hstep
    split_ifs at hstep with hp
    cases hstep
    refine ⟨status_update h fun hi => ?_, by simp [emit]⟩
    obtain ⟨job, hj, hs⟩ := Option.map_eq_some_iff.mp h
    simp [hi, hj, hs] at hp
  | tick d => cases hstep; exact ⟨h, by simp [emit]⟩

/-- In a run whose workers start jobs and record failures only under the lock, every
finished job stays finished and is never started again. -/
theorem finishedStay_of_lockHeld {s : State} {as : List Step} (hg : Machine.Along step LockHeld s as) :
    FinishedStay s as := by
  intro id u h hrun
  refine ⟨Machine.invariant_along (I := fun s => status s id = some .succeeded)
    (fun s a t h hg ht => (succeeded_step h hg ht).1) hg hrun h, fun w => ?_⟩
  exact Machine.not_mem_log (I := fun s => status s id = some .succeeded)
    (fun s a t h hg ht => ⟨(succeeded_step h hg ht).1, (succeeded_step h hg ht).2 w⟩) hg hrun h

/-- A job succeeds, and a second one is claimed, run and done under its lock after it. -/
theorem finishedStay_two_jobs :
    FinishedStay ⟨0, [(newJob .createPeer 0 none 0).markCompleted, newJob .enablePeer 0 none 0], fun _ => idle⟩
      [.claimBatch 0 10, .startJob 0, .recordSuccess 0] := by
  refine finishedStay_of_lockHeld ⟨trivial, fun t ht => ⟨?_, fun u hu => ⟨trivial, fun _ _ => trivial⟩⟩⟩
  cases ht
  intro entry rest hw
  cases hw
  exact ⟨_, rfl, rfl, rfl⟩

/-- Worker 0 claims two jobs and runs the first for more than five minutes. Worker 1 then
claims the second job and finishes it. Worker 0 comes to the second job of its batch,
runs it again, fails, and puts the finished job back into the queue. -/
theorem finishedStay_overrun :
    ¬ ∀ (as bs : List Step) (s : State), Machine.run step start as = some s → FinishedStay s bs := by
  intro h
  let as : List Step :=
    [.enqueue .createPeer 0 none, .enqueue .createPeer 1 none, .claimBatch 0 10, .startJob 0,
      .tick 360000000, .claimBatch 1 10, .startJob 1, .recordSuccess 1, .startJob 1, .recordSuccess 1]
  let bs : List Step := [.recordSuccess 0, .startJob 0, .recordFailure 0 "exit status 1" true]
  have hrun := h as bs _ rfl 1 _ rfl rfl
  exact absurd hrun.1 (by decide)

end AmneziaVpnBot.Workers
