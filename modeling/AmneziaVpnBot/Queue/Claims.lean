import AmneziaVpnBot.Lib.Machine
import AmneziaVpnBot.Db.Jobs
import Mathlib.Logic.Function.Basic

/-! Claims that race for one jobs table. Any number of workers run
`claim_pending_jobs` at once: each reads its `now` and its candidates together, and
then makes one conditional update per candidate, with steps of the others, recorded
results and requeues anywhere between. A result is written from the row its session
loaded, which may be long out of date. Every stale candidate list fails on its own: a
job that was claimed stays out of reach of the others until its lease has run out,
unless it is recorded as failed or requeued first. -/

namespace AmneziaVpnBot.Claims

/-- What a worker inside `claim_pending_jobs` holds: the `now` it read at the start
and the candidates it has not tried yet. -/
structure Claimer where
  now : ℤ
  candidates : List JobId

structure State where
  now : ℤ
  jobs : Table Job
  claimers : WorkerId → Claimer

inductive Step
  /-- Read the clock and select the candidates. -/
  | select (worker : WorkerId) (limit : ℕ)
  /-- `claim_one` on the next candidate. -/
  | update (worker : WorkerId)
  | markCompleted (id : JobId) (loaded : Job)
  | markFailed (id : JobId) (loaded : Job) (error : String) (isRetryable : Bool)
  | requeue (id : JobId) (loaded : Job)
  | enqueue (jobType : JobType) (aggregateId : SubscriptionId) (reason : Option Reason)
  | tick (d : ℕ)

inductive Event
  | claimed (worker : WorkerId) (id : JobId) (now : ℤ)
  | failed (id : JobId)
  | requeued (id : JobId)
  deriving DecidableEq

def step (s : State) : Step → Option State
  | .select w limit =>
    some { s with claimers := Function.update s.claimers w ⟨s.now, candidates s.jobs s.now limit⟩ }
  | .update w => match (s.claimers w).candidates with
    | [] => none
    | id :: ids =>
      some { s with
        jobs := (claimOne s.jobs id w (s.claimers w).now).1
        claimers := Function.update s.claimers w { s.claimers w with candidates := ids } }
  | .markCompleted id loaded =>
    some { s with jobs := s.jobs.update id (loaded.flush loaded.markCompleted) }
  | .markFailed id loaded error isRetryable =>
    some { s with jobs := s.jobs.update id (loaded.flush (loaded.markFailed error isRetryable s.now)) }
  | .requeue id loaded => some { s with jobs := s.jobs.update id (loaded.flush (loaded.requeue s.now)) }
  | .enqueue jobType aggregateId reason =>
    some { s with jobs := s.jobs.insert (newJob jobType aggregateId reason s.now) }
  | .tick d => some { s with now := s.now + d }

/-- A claim is reported when its update matched the row, with the claimer's `now`. -/
def emit (s : State) : Step → List Event
  | .update w => match (s.claimers w).candidates with
    | [] => []
    | id :: _ =>
      if (claimOne s.jobs id w (s.claimers w).now).2 then [.claimed w id (s.claimers w).now] else []
  | .markFailed id _ _ _ => [.failed id]
  | .requeue id _ => [.requeued id]
  | _ => []

/-- A successful claim is an update of a job that is claimable at the claimer's `now`. -/
theorem claimed_mem_emit {s : State} {a : Step} {w : WorkerId} {id : JobId} {t : ℤ}
    (h : .claimed w id t ∈ emit s a) :
    a = .update w ∧ t = (s.claimers w).now ∧
      (∃ ids, (s.claimers w).candidates = id :: ids) ∧
      ∃ job, s.jobs[id]? = some job ∧ job.claimable t := by
  cases a with
  | update v =>
    simp only [emit] at h
    split at h
    · cases h
    next i ids hc =>
      split_ifs at h with hok
      · rw [List.mem_singleton] at h
        cases h
        exact ⟨rfl, rfl, ⟨ids, hc⟩, claimOne_eq_true.mp hok⟩
      · cases h
  | _ => simp [emit] at h

/-- The job is finished, or in processing and locked no earlier than `t`. A job in
processing that is not locked at all is never claimed again. -/
def Held (id : JobId) (t : ℤ) (s : State) : Prop :=
  ∃ job, s.jobs[id]? = some job ∧
    (job.status = .succeeded ∨ job.status = .processing ∧ ∀ u, job.lockedAt = some u → t ≤ u)

/-- A claim of a held job comes after the lease. -/
theorem lease_of_claimed {s : State} {a : Step} {w : WorkerId} {id : JobId} {t t' : ℤ}
    (hs : Held id t s) (h : .claimed w id t' ∈ emit s a) : t + lease < t' := by
  obtain ⟨-, -, -, job, hj, hc⟩ := claimed_mem_emit h
  obtain ⟨job', hj', hheld⟩ := hs
  rw [hj] at hj'
  cases hj'
  rw [Job.claimable_iff] at hc
  rcases hheld with hdone | ⟨hp, hlock⟩
  · simp [hdone] at hc
  · obtain ⟨hst, -⟩ := hc
    simp only [hp, reduceCtorEq, false_or, true_and] at hst
    obtain ⟨u, hu, hlt⟩ := hst
    have := hlock u hu
    omega

/-- The step that claims a job leaves it held. -/
theorem held_of_claimed {s u : State} {a : Step} {w : WorkerId} {id : JobId} {t : ℤ}
    (h : .claimed w id t ∈ emit s a) (hstep : step s a = some u) : Held id t u := by
  obtain ⟨rfl, rfl, ⟨ids, hids⟩, job, hj, hc⟩ := claimed_mem_emit h
  have hany : s.jobs[id]?.any (Job.claimable (s.claimers w).now) = true := by simp [hj, hc]
  simp only [step, hids, claimOne, hany, ↓reduceIte, Option.some.injEq] at hstep
  subst hstep
  exact ⟨job.claim w (s.claimers w).now, by simp [Table.get_update, hj], .inr ⟨rfl, by simp⟩⟩

/-- Completing a held job from any row a session may have loaded keeps it held. -/
theorem held_markCompleted {job loaded : Job} {t : ℤ}
    (h : job.status = .succeeded ∨ job.status = .processing ∧ ∀ u, job.lockedAt = some u → t ≤ u) :
    let job' := loaded.flush loaded.markCompleted job
    job'.status = .succeeded ∨ job'.status = .processing ∧ ∀ u, job'.lockedAt = some u → t ≤ u := by
  have hstatus := Table.flushColumn_eq_or loaded.status .succeeded job.status
  have hlock : ∀ u, Table.flushColumn loaded.lockedAt none job.lockedAt = some u → job.lockedAt = some u := by
    unfold Table.flushColumn; split_ifs <;> simp
  rcases hstatus with hs | hs
  · rcases h with h | ⟨hp, ht⟩
    · exact .inl (hs.trans h)
    · exact .inr ⟨hs.trans hp, fun u hu => ht u (hlock u hu)⟩
  · exact .inl hs

/-- A held job stays held until it is recorded as failed or requeued. Completing it
keeps it held, and another claim only makes the hold younger. -/
theorem held_step {s u : State} {a : Step} {id : JobId} {t : ℤ} (hs : Held id t s)
    (hf : .failed id ∉ emit s a) (hr : .requeued id ∉ emit s a) (hstep : step s a = some u) :
    Held id t u := by
  obtain ⟨job, hj, hheld⟩ := hs
  cases a with
  | select w limit => cases hstep; exact ⟨job, hj, hheld⟩
  | tick d => cases hstep; exact ⟨job, hj, hheld⟩
  | enqueue jobType aggregateId reason =>
    cases hstep
    exact ⟨job, Table.get_insert_of_some _ hj, hheld⟩
  | markCompleted i loaded =>
    cases hstep
    by_cases hi : i = id
    · subst hi
      exact ⟨loaded.flush loaded.markCompleted job, by simp [Table.get_update, hj],
        held_markCompleted hheld⟩
    · exact ⟨job, by simp [Table.get_update, hi, hj], hheld⟩
  | markFailed i loaded error isRetryable =>
    cases hstep
    have hi : i ≠ id := by rintro rfl; simp [emit] at hf
    exact ⟨job, by simp [Table.get_update, hi, hj], hheld⟩
  | requeue i loaded =>
    cases hstep
    have hi : i ≠ id := by rintro rfl; simp [emit] at hr
    exact ⟨job, by simp [Table.get_update, hi, hj], hheld⟩
  | update w =>
    simp only [step] at hstep
    split at hstep
    · cases hstep
    next i ids hc =>
      cases hstep
      rcases claimOne_cases s.jobs i w (s.claimers w).now with ⟨job', hj', hcl, he⟩ | he
      · rw [he]
        by_cases hi : i = id
        · subst hi
          -- the update matched, so this is a second claim of the held job
          have hlt : t + lease < (s.claimers w).now :=
            lease_of_claimed (w := w) (a := .update w) ⟨job, hj, hheld⟩ (by simp [emit, hc, he])
          refine ⟨job.claim w (s.claimers w).now, by simp [Table.get_update, hj], .inr ⟨rfl, ?_⟩⟩
          simp only [lease, minutes, seconds] at hlt
          simp only [Job.claim_lockedAt, Option.some.injEq, forall_eq']
          omega
        · exact ⟨job, by simp [Table.get_update, hi, hj], hheld⟩
      · rw [he]
        exact ⟨job, hj, hheld⟩

theorem held_run {id : JobId} {t : ℤ} :
    ∀ {as : List Step} {s u : State}, Held id t s → Machine.run step s as = some u →
      .failed id ∉ Machine.log step emit s as → .requeued id ∉ Machine.log step emit s as → Held id t u
  | [], _, _, hs, h, _, _ => by cases h; exact hs
  | a :: as, s, u, hs, h, hf, hr => by
    obtain ⟨v, hv, h⟩ := Machine.run_cons_eq_some.mp h
    rw [Machine.log_cons hv, List.mem_append, not_or] at hf hr
    exact held_run (held_step hs hf.1 hr.1 hv) h hf.2 hr.2

/-- In every state a claim takes only a job that is neither finished nor failed for
good and is due. In every run that begins with a claim of a job, a second claim of it
follows a recorded failure or a requeue, or comes more than a lease after the first. -/
theorem claims_exclusive {s : State} {a : Step} {w : WorkerId} {id : JobId} {t : ℤ}
    (h : .claimed w id t ∈ emit s a) :
    (∃ job, s.jobs[id]? = some job ∧ job.status ≠ .succeeded ∧ job.status ≠ .permanentFailure ∧
      job.availableAt ≤ t) ∧
    ∀ (as : List Step) (u : State) (b : Step) (w' : WorkerId) (t' : ℤ),
      Machine.run step s (a :: as) = some u → .claimed w' id t' ∈ emit u b →
      .failed id ∈ Machine.log step emit s (a :: as) ∨ .requeued id ∈ Machine.log step emit s (a :: as) ∨
        t + lease < t' := by
  constructor
  · obtain ⟨-, -, -, job, hj, hc⟩ := claimed_mem_emit h
    obtain ⟨hst, hdue⟩ := Job.claimable_iff.mp hc
    refine ⟨job, hj, ?_, ?_, hdue⟩ <;> intro hne <;> simp [hne] at hst
  · intro as u b w' t' hrun h'
    obtain ⟨v, hv, hrun⟩ := Machine.run_cons_eq_some.mp hrun
    rw [Machine.log_cons hv, List.mem_append, List.mem_append]
    by_cases hf : .failed id ∈ Machine.log step emit v as
    · exact .inl (.inr hf)
    by_cases hr : .requeued id ∈ Machine.log step emit v as
    · exact .inr (.inl (.inr hr))
    have hheld : Held id t u := held_run (held_of_claimed h hv) hrun hf hr
    exact .inr (.inr (lease_of_claimed hheld h'))

/-- Two workers select the same pending job; the second selects again six minutes after
the first has claimed it, and then its update matches. -/
theorem claims_exclusive_reclaimed :
    let s : State := ⟨0, [newJob .createPeer 0 none 0], fun _ => ⟨0, [0]⟩⟩
    let wait : List Step := [.tick 360000000, .update 1, .select 1 10]
    ∀ u, Machine.run step s (.update 0 :: wait) = some u →
      .failed 0 ∈ Machine.log step emit s (.update 0 :: wait) ∨
        .requeued 0 ∈ Machine.log step emit s (.update 0 :: wait) ∨ (0 : ℤ) + lease < 360000000 := by
  intro s wait u hu
  have hclaim : .claimed 0 0 0 ∈ emit s (.update 0) := by decide
  refine (claims_exclusive hclaim).2 wait u (.update 1) 1 360000000 hu ?_
  simp only [Machine.run, s, wait, step] at hu
  cases hu
  decide

end AmneziaVpnBot.Claims
