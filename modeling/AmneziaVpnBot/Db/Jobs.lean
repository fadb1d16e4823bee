import AmneziaVpnBot.Db.Models
import Mathlib.Algebra.Ring.Int.Defs

/-! The job queue (`src/app/db/repositories/job_repo.py`). A claim is one conditional
update of one row: it takes the job only while it is claimable at the claimer's time. -/

namespace AmneziaVpnBot

/-- `ProvisioningJob.status.in_([PENDING, PROCESSING, RETRYABLE_FAILURE])` -/
def Job.isOpen (job : Job) : Bool :=
  job.status = .pending || job.status = .processing || job.status = .retryableFailure

def hasOpenJob (jobs : Table Job) (jobType : JobType) (aggregateId : SubscriptionId) : Bool :=
  jobs.any fun job => job.jobType = jobType && job.aggregateId = aggregateId && job.isOpen

/-- A new job, due at once. -/
def newJob (jobType : JobType) (aggregateId : SubscriptionId) (reason : Option Reason) (now : ℤ) : Job where
  jobType := jobType
  aggregateId := aggregateId
  status := .pending
  attemptCount := 0
  availableAt := now
  lockedAt := none
  lockedBy := none
  reason := reason
  lastError := none

/-- How long a claim keeps a job from being claimed again. -/
def lease : ℤ := minutes 5

/-- Pending or retrying jobs that are due, or ones a crashed worker left in
processing for more than five minutes. -/
def Job.claimable (now : ℤ) (job : Job) : Bool :=
  (job.status = .pending || job.status = .retryableFailure ||
    (job.status = .processing && job.lockedAt.any fun t => t < now - lease)) &&
  job.availableAt ≤ now

def Job.claim (worker : WorkerId) (now : ℤ) (job : Job) : Job :=
  { job with status := .processing, lockedAt := some now, lockedBy := some worker }

/-- The claim of one job, with whether the update matched its row. -/
def claimOne (jobs : Table Job) (id : JobId) (worker : WorkerId) (now : ℤ) : Table Job × Bool :=
  if jobs[id]?.any (Job.claimable now) then (jobs.update id (Job.claim worker now), true)
  else (jobs, false)

/-- The claimable jobs at `now`, the ones due longest first. -/
def candidates (jobs : Table Job) (now : ℤ) (limit : ℕ) : List JobId :=
  let due := fun i => jobs[i]?.elim 0 Job.availableAt
  ((jobs.select (Job.claimable now)).insertionSort fun i j => due i ≤ due j).take limit

/-- `[job_id for job_id in candidates if await self.claim_one(job_id, worker_id, now)]` -/
def claimEach (worker : WorkerId) (now : ℤ) : Table Job → List JobId → Table Job × List JobId
  | jobs, [] => (jobs, [])
  | jobs, id :: ids =>
    let (jobs, claimed) := claimOne jobs id worker now
    let (jobs, rest) := claimEach worker now jobs ids
    (jobs, if claimed then id :: rest else rest)

def claimPendingJobs (jobs : Table Job) (worker : WorkerId) (now : ℤ) (limit : ℕ) :
    Table Job × List JobId :=
  claimEach worker now jobs (candidates jobs now limit)

def Job.markCompleted (job : Job) : Job :=
  { job with status := .succeeded, lockedAt := none, lockedBy := none }

/-- `max_retries` -/
def maxRetries : ℕ := 5

/-- Wait before the next attempt after the `n`-th failure: 10, 30, 90 and 270 seconds. -/
def backoff (n : ℕ) : ℤ := seconds (10 * 3 ^ (n - 1))

def Job.markFailed (error : String) (isRetryable : Bool) (now : ℤ) (job : Job) : Job :=
  let job := { job with
    attemptCount := job.attemptCount + 1, lastError := some error, lockedAt := none, lockedBy := none }
  if isRetryable && job.attemptCount < maxRetries then
    { job with status := .retryableFailure, availableAt := now + backoff job.attemptCount }
  else { job with status := .permanentFailure }

/-- A fresh set of attempts for a job that failed for good, starting now. -/
def Job.requeue (now : ℤ) (job : Job) : Job :=
  { job with
    status := .pending, attemptCount := 0, availableAt := now, lockedAt := none, lockedBy := none
    lastError := none }

/-! ### What the updates do to a row -/

@[simp] theorem Job.claim_status (w : WorkerId) (now : ℤ) (job : Job) :
    (job.claim w now).status = .processing := rfl

@[simp] theorem Job.claim_lockedAt (w : WorkerId) (now : ℤ) (job : Job) :
    (job.claim w now).lockedAt = some now := rfl

@[simp] theorem Job.markCompleted_status (job : Job) : job.markCompleted.status = .succeeded := rfl

/-- A recorded failure leaves the job retrying or failed for good. -/
theorem Job.markFailed_status (error : String) (isRetryable : Bool) (now : ℤ) (job : Job) :
    (job.markFailed error isRetryable now).status = .retryableFailure ∨
      (job.markFailed error isRetryable now).status = .permanentFailure := by
  simp only [Job.markFailed]
  split_ifs <;> simp

@[simp] theorem Job.requeue_status (now : ℤ) (job : Job) : (job.requeue now).status = .pending := rfl

theorem Job.claimable_iff {now : ℤ} {job : Job} :
    job.claimable now ↔
      (job.status = .pending ∨ job.status = .retryableFailure ∨
        job.status = .processing ∧ ∃ t, job.lockedAt = some t ∧ t + lease < now) ∧
      job.availableAt ≤ now := by
  have (t : ℤ) : t < now - lease ↔ t + lease < now := by constructor <;> intro h <;> omega
  simp [Job.claimable, Option.any_eq_true, or_assoc, this]

/-- A finished job is not claimable at any time. -/
theorem Job.not_claimable_of_succeeded {now : ℤ} {job : Job} (h : job.status = .succeeded) :
    ¬ job.claimable now := by simp [Job.claimable_iff, h]

theorem claimOne_eq_true {jobs : Table Job} {id : JobId} {w : WorkerId} {now : ℤ} :
    (claimOne jobs id w now).2 = true ↔ ∃ job, jobs[id]? = some job ∧ job.claimable now := by
  unfold claimOne
  split_ifs with h
  · simpa [Option.any_eq_true] using h
  · simpa [Option.any_eq_true] using h

/-- A claim either finds its job claimable and takes it, or changes nothing. -/
theorem claimOne_cases (jobs : Table Job) (id : JobId) (w : WorkerId) (now : ℤ) :
    (∃ job, jobs[id]? = some job ∧ job.claimable now ∧
      claimOne jobs id w now = (jobs.update id (Job.claim w now), true)) ∨
    claimOne jobs id w now = (jobs, false) := by
  unfold claimOne
  split_ifs with h
  · obtain ⟨job, hj, hc⟩ := Option.any_eq_true _ _ |>.mp h
    exact .inl ⟨job, hj, hc, rfl⟩
  · exact .inr rfl

theorem claimEach_sublist (w : WorkerId) (now : ℤ) :
    ∀ (jobs : Table Job) (ids : List JobId), ((claimEach w now jobs ids).2).Sublist ids
  | _, [] => .slnil
  | jobs, id :: ids => by
    simp only [claimEach]
    split_ifs
    · exact (claimEach_sublist w now _ ids).cons_cons id
    · exact (claimEach_sublist w now _ ids).cons id

/-- Each job either was claimable and is claimed, or keeps its row. -/
theorem claimEach_row (w : WorkerId) (now : ℤ) {ids : List JobId} (hids : ids.Nodup) :
    ∀ (jobs : Table Job) (i : JobId),
      (i ∉ (claimEach w now jobs ids).2 ∧ (claimEach w now jobs ids).1[i]? = jobs[i]?) ∨
      (∃ job, jobs[i]? = some job ∧ job.claimable now ∧ i ∈ (claimEach w now jobs ids).2 ∧
        (claimEach w now jobs ids).1[i]? = some (job.claim w now)) := by
  induction ids with
  | nil => exact fun jobs i => .inl ⟨by simp [claimEach], rfl⟩
  | cons id ids ih =>
    intro jobs i
    obtain ⟨hid, hids⟩ := List.nodup_cons.mp hids
    simp only [claimEach]
    rcases claimOne_cases jobs id w now with ⟨job, hj, hc, he⟩ | he
    · rw [he]
      simp only [↓reduceIte, List.mem_cons, not_or]
      rcases ih hids (jobs.update id (Job.claim w now)) i with ⟨hi, hrow⟩ | ⟨job', hj', hc', hi, hrow⟩
      · by_cases hne : id = i
        · subst hne
          exact .inr ⟨job, hj, hc, .inl rfl, by rw [hrow, Table.get_update_self, hj]; rfl⟩
        · exact .inl ⟨⟨fun h => hne h.symm, hi⟩, by rw [hrow, Table.get_update_of_ne _ _ hne]⟩
      · have hne : id ≠ i := fun h => hid (h ▸ (claimEach_sublist w now _ ids).subset hi)
        rw [Table.get_update_of_ne _ _ hne] at hj'
        exact .inr ⟨job', hj', hc', .inr hi, hrow⟩
    · rw [he]
      simp only [Bool.false_eq_true, ↓reduceIte]
      rcases ih hids jobs i with h | ⟨job', hj', hc', hi, hrow⟩
      · exact .inl h
      · exact .inr ⟨job', hj', hc', hi, hrow⟩

theorem candidates_nodup (jobs : Table Job) (now : ℤ) (limit : ℕ) : (candidates jobs now limit).Nodup := by
  unfold candidates
  refine List.Nodup.sublist (List.take_sublist _ _) ?_
  exact (List.perm_insertionSort _ _).nodup_iff.mpr (jobs.select_nodup _)

end AmneziaVpnBot
