import AmneziaVpnBot.Queue.Workers
import Mathlib.Data.Finset.Card

/-! How often a job is started. Each start uses up a claim. A job that waits, or whose
failure was recorded, can be claimed once, and failures are counted; a job that was left in
processing, because its worker died, is picked up again after the lease, and that is not
counted. After a recorded failure no claim takes the job before its backoff is over. -/

namespace AmneziaVpnBot.Workers

inductive Event
  | started (id : JobId)
  /-- A claim took the job out of processing, where a worker had left it. -/
  | pickedUp (id : JobId)
  | failed (id : JobId)
  deriving DecidableEq

def events (s : State) : Step → List Event
  | .claimBatch w limit => match s.workers w with
    | ⟨none, []⟩ =>
      ((claimPendingJobs s.jobs w s.now limit).2.filter fun id => status s id = some .processing).map .pickedUp
    | _ => []
  | .startJob w => match s.workers w with
    | ⟨none, (id, _) :: _⟩ => [.started id]
    | _ => []
  | .recordFailure w _ _ => match s.workers w with
    | ⟨some (id, _), _⟩ => [.failed id]
    | _ => []
  | _ => []

/-- The step queues the job, or an admin queues it again. -/
def Queues (s : State) (id : JobId) : Step → Prop
  | .enqueue _ _ _ => id = s.jobs.fresh
  | .requeue i => i = id
  | _ => False

/-- The job has not succeeded or failed for good. -/
def isOpen (s : State) (id : JobId) : Bool := s.jobs[id]?.any Job.isOpen

/-- A worker that starts the job still holds its lock. -/
def startsHeld (id : JobId) (s : State) : Step → Bool
  | .startJob w => match s.workers w with
    | ⟨none, (i, _) :: _⟩ =>
      i ≠ id || s.jobs[id]?.any fun job => job.status = .processing && job.lockedBy = some w
    | _ => true
  | _ => true

def State.batchOf (s : State) (w : WorkerId) : List JobId := (s.workers w).batch.map Prod.fst

/-- Some worker has the job in a batch that it claimed earlier. -/
def ClaimedBefore (id : JobId) (s : State) : Prop := ∃ w, id ∈ s.batchOf w

/-- The job waits for a claim. -/
def isWaiting (s : State) (id : JobId) : Bool :=
  s.jobs[id]?.any fun job => job.status = .pending || job.status = .retryableFailure

/-- The workers that may still start the job. Where `old` says that some of them claimed it before it was
queued, these are the ones that hold its lock. -/
def Covers (id : JobId) (old : Prop) (s : State) (W : Finset WorkerId) : Prop :=
  ∀ w, id ∈ s.batchOf w → (old → s.Holds w id) → w ∈ W

/-- The starts of a job, and those that may come of the claims made so far,
are paid for by its failures and pick-ups. -/
structure Ledger (id : JobId) (old : Prop) (s : State) (l : List Event) (W : Finset WorkerId) : Prop where
  nodup : ∀ w, (s.batchOf w).Nodup
  bound : l.count (.started id) ≤ maxRetries + l.count (.pickedUp id)
  open_lt : ∀ job, s.jobs[id]? = some job → job.isOpen → job.attemptCount < maxRetries
  failures : ∀ job, s.jobs[id]? = some job → job.attemptCount = l.count (.failed id)
  covers : Covers id old s W
  spent : isOpen s id = true → l.count (.started id) + W.card ≤ l.count (.failed id) + 1 + l.count (.pickedUp id)
  waiting : isWaiting s id = true → l.count (.started id) + W.card ≤ l.count (.failed id) + l.count (.pickedUp id)

variable {id : JobId} {old : Prop} {s u : State} {l e : List Event} {W : Finset WorkerId}

theorem isOpen_iff : isOpen s id = true ↔ ∃ job, s.jobs[id]? = some job ∧ job.isOpen := by
  simp [isOpen, Option.any_eq_true]

theorem isWaiting_iff : isWaiting s id = true ↔
    ∃ job, s.jobs[id]? = some job ∧ (job.status = .pending ∨ job.status = .retryableFailure) := by
  simp [isWaiting, Option.any_eq_true]

theorem holds_of_startsHeld {w : WorkerId} {loaded : Option Job} {rest : List (JobId × Option Job)}
    (hw : s.workers w = ⟨none, (id, loaded) :: rest⟩) (h : startsHeld id s (.startJob w) = true) : s.Holds w id := by
  simpa [State.Holds, startsHeld, hw, Option.any_eq_true] using h

theorem holds_congr {w : WorkerId} (hrow : u.jobs[id]? = s.jobs[id]?) : u.Holds w id ↔ s.Holds w id := by
  unfold State.Holds
  rw [hrow]

/-- The workers' batches keep or lose entries. -/
theorem Covers.of_subset (h : Covers id old s W) (hrow : u.jobs[id]? = s.jobs[id]?)
    (hbatch : ∀ w, id ∈ u.batchOf w → id ∈ s.batchOf w) : Covers id old u W :=
  fun w hw hheld => h w (hbatch w hw) fun ho => (holds_congr hrow).mp (hheld ho)

/-- A step that leaves the job's row alone and neither starts nor fails it. -/
theorem Ledger.keep (h : Ledger id old s l W) (hrow : u.jobs[id]? = s.jobs[id]?)
    (hbatch : ∀ w, id ∈ u.batchOf w → id ∈ s.batchOf w) (hnodup : ∀ w, (u.batchOf w).Nodup)
    (hstarted : e.count (.started id) = 0) (hfailed : e.count (.failed id) = 0) : Ledger id old u (l ++ e) W := by
  have hopen : isOpen u id = isOpen s id := by unfold isOpen; rw [hrow]
  have hwaiting : isWaiting u id = isWaiting s id := by unfold isWaiting; rw [hrow]
  refine ⟨hnodup, ?_, ?_, ?_, h.covers.of_subset hrow hbatch, ?_, ?_⟩
  · have := h.bound
    simp only [List.count_append]
    omega
  · rw [hrow]
    exact h.open_lt
  · rw [hrow]
    intro job hjob
    rw [h.failures job hjob, List.count_append, hfailed]
    rfl
  · intro ho
    have := h.spent (hopen ▸ ho)
    simp only [List.count_append]
    omega
  · intro hw
    have := h.waiting (hwaiting ▸ hw)
    simp only [List.count_append]
    omega

/-! ### What the steps do to the batches -/

theorem batchOf_setWorker (s : State) (w v : WorkerId) (k : Worker) :
    (s.setWorker w k).batchOf v = if v = w then k.batch.map Prod.fst else s.batchOf v := by
  unfold State.batchOf State.setWorker
  by_cases hv : v = w
  · subst hv; simp
  · simp [hv]

/-- A claim has each job once, and a worker only takes jobs off its batch. -/
theorem nodup_step {a : Step} (h : ∀ w, (s.batchOf w).Nodup) (hstep : step s a = some u) :
    ∀ w, (u.batchOf w).Nodup := by
  intro v
  cases a with
  | claimBatch w limit =>
    simp only [step] at hstep
    split at hstep <;> cases hstep
    rw [batchOf_setWorker]
    split_ifs
    · rw [List.map_map, Function.comp_def, List.map_id']
      exact (candidates_nodup s.jobs s.now limit).sublist (claimEach_sublist ..)
    · exact h v
  | startJob w =>
    simp only [step] at hstep
    split at hstep
    next i loaded rest hw =>
      obtain ⟨job, -, rfl⟩ := Option.map_eq_some_iff.mp hstep
      rw [batchOf_setWorker]
      split_ifs
      · have hold := h w
        unfold State.batchOf at hold
        rw [hw] at hold
        exact (List.nodup_cons.mp hold).2
      · exact h v
    · cases hstep
  | recordSuccess w =>
    simp only [step] at hstep
    split at hstep
    next i loaded rest hw =>
      cases hstep
      rw [batchOf_setWorker]
      split_ifs
      · have hold := h w
        unfold State.batchOf at hold
        rwa [hw] at hold
      · exact h v
    · cases hstep
  | recordFailure w error isRetryable =>
    simp only [step] at hstep
    split at hstep
    next i loaded rest hw =>
      cases hstep
      rw [batchOf_setWorker]
      split_ifs
      · have hold := h w
        unfold State.batchOf at hold
        rw [hw] at hold
        simpa [Function.comp_def] using hold
      · exact h v
    · cases hstep
  | crash w =>
    cases hstep
    rw [batchOf_setWorker]
    split_ifs
    · exact List.nodup_nil
    · exact h v
  | enqueue jobType aggregateId reason => cases hstep; exact h v
  | requeue i =>
    simp only [step] at hstep
    split_ifs at hstep
    cases hstep
    exact h v
  | tick d => cases hstep; exact h v

/-! ### What the steps do to the ledger -/

theorem Ledger.claimBatch {w : WorkerId} {limit : ℕ} (h : Ledger id old s l W) (hopen : isOpen s id = true)
    (hstep : step s (.claimBatch w limit) = some u) :
    ∃ W', Ledger id old u (l ++ events s (.claimBatch w limit)) W' := by
  have hnodup' := nodup_step h.nodup hstep
  simp only [step] at hstep
  split at hstep
  next hw =>
    cases hstep
    simp only [events, hw]
    have hrow := claimEach_row w s.now (candidates_nodup s.jobs s.now limit) s.jobs id
    generalize hclaim : claimPendingJobs s.jobs w s.now limit = claimed at hnodup' ⊢
    unfold claimPendingJobs at hclaim
    rw [hclaim] at hrow
    have hbatch : ∀ v, ({ s with jobs := claimed.1 }.setWorker w
        ⟨none, claimed.2.map fun i => (i, claimed.1[i]?)⟩).batchOf v = if v = w then claimed.2 else s.batchOf v := by
      intro v
      rw [batchOf_setWorker]
      simp [Function.comp_def, State.batchOf]
    have hstarted : ((claimed.2.filter fun i => status s i = some .processing).map Event.pickedUp).count
      (.started id) = 0 :=
      List.count_eq_zero.mpr (by simp)
    have hfailed : ((claimed.2.filter fun i => status s i = some .processing).map Event.pickedUp).count
      (.failed id) = 0 :=
      List.count_eq_zero.mpr (by simp)
    rcases hrow with ⟨hnot, hrow⟩ | ⟨job, hjob, hc, hmem, hrow⟩
    · refine ⟨W, h.keep hrow (fun v hv => ?_) hnodup' hstarted hfailed⟩
      rw [hbatch] at hv
      split_ifs at hv
      · exact absurd hv hnot
      · exact hv
    · -- the claim uses up the job's turn, or picks it up
      have hjobOpen : job.isOpen := by
        obtain ⟨job', hjob', ho⟩ := isOpen_iff.mp hopen
        rw [hjob] at hjob'
        cases hjob'
        exact ho
      have hturn : l.count (.started id) + W.card ≤ l.count (.failed id) + l.count (.pickedUp id) +
          ((claimed.2.filter fun i => status s i = some .processing).map Event.pickedUp).count (.pickedUp id) := by
        rcases (Job.claimable_iff.mp hc).1 with hs | hs | ⟨hs, -⟩
        · have := h.waiting (isWaiting_iff.mpr ⟨job, hjob, .inl hs⟩)
          omega
        · have := h.waiting (isWaiting_iff.mpr ⟨job, hjob, .inr hs⟩)
          omega
        · have hspent := h.spent hopen
          have hpos : 0 < ((claimed.2.filter fun i => status s i = some .processing).map Event.pickedUp).count
              (.pickedUp id) := List.count_pos_iff.mpr (by simp [hmem, status, hjob, hs])
          omega
      have hbound := h.bound
      have hcard := Finset.card_insert_le w W
      refine ⟨insert w W, hnodup', ?_, fun job' hjob' _ => ?_, fun job' hjob' => ?_, fun v hv hheld => ?_, fun _ => ?_,
        fun hwaiting => ?_⟩
      · simp only [List.count_append, hstarted]
        omega
      · cases hrow.symm.trans hjob'
        exact h.open_lt job hjob hjobOpen
      · cases hrow.symm.trans hjob'
        rw [List.count_append, hfailed]
        exact h.failures job hjob
      · rw [Finset.mem_insert]
        by_cases hv' : v = w
        · exact .inl hv'
        rw [hbatch, if_neg hv'] at hv
        refine .inr (h.covers v hv fun ho => ?_)
        -- the lock is the claiming worker's now
        obtain ⟨job', hjob', -, hlock⟩ := hheld ho
        cases hrow.symm.trans hjob'
        exact absurd (Option.some.inj hlock).symm hv'
      · simp only [List.count_append, hstarted, hfailed]
        omega
      · obtain ⟨job', hjob', hstatus⟩ := isWaiting_iff.mp hwaiting
        cases hrow.symm.trans hjob'
        simp [Job.claim] at hstatus
  · cases hstep

theorem Ledger.startJob {w : WorkerId} (h : Ledger id old s l W) (hopen : isOpen s id = true)
    (hheld : old → startsHeld id s (.startJob w) = true) (hstep : step s (.startJob w) = some u) :
    ∃ W', Ledger id old u (l ++ events s (.startJob w)) W' := by
  have hnodup := nodup_step h.nodup hstep
  simp only [step] at hstep
  split at hstep
  next i loaded rest hw =>
    obtain ⟨job, -, rfl⟩ := Option.map_eq_some_iff.mp hstep
    simp only [events, hw]
    have hbatch : ∀ v, (s.setWorker w ⟨some (i, job), rest⟩).batchOf v ⊆ s.batchOf v := by
      intro v
      rw [batchOf_setWorker]
      split_ifs with hv
      · subst hv
        unfold State.batchOf
        rw [hw]
        exact List.subset_cons_self ..
      · exact List.Subset.refl _
    by_cases hi : i = id
    · subst hi
      have hmem : w ∈ W := by
        refine h.covers w ?_ fun ho => holds_of_startsHeld hw (hheld ho)
        simp [State.batchOf, hw]
      have hcard := Finset.card_erase_add_one hmem
      obtain ⟨open', hget, hjobOpen⟩ := isOpen_iff.mp hopen
      have hlt := h.open_lt open' hget hjobOpen
      have hfailures := h.failures open' hget
      have hspent := h.spent hopen
      refine ⟨W.erase w, hnodup, ?_, h.open_lt, fun job' hjob' => ?_, fun v hv hold => ?_, fun _ => ?_,
        fun hwaiting => ?_⟩
      · simp only [List.count_append, List.count_singleton]
        simp
        omega
      · rw [List.count_append]
        simpa using h.failures job' hjob'
      · refine Finset.mem_erase.mpr ⟨?_, h.covers v (hbatch v hv) fun ho => hold ho⟩
        -- a worker has the job in its batch only once
        rintro rfl
        have hold := h.nodup v
        rw [batchOf_setWorker, if_pos rfl] at hv
        unfold State.batchOf at hold
        rw [hw] at hold
        exact (List.nodup_cons.mp hold).1 hv
      · simp only [List.count_append, List.count_singleton]
        simp
        omega
      · have hturn := h.waiting hwaiting
        simp only [List.count_append, List.count_singleton]
        simp
        omega
    · refine ⟨W, h.keep rfl (fun v hv => hbatch v hv) hnodup ?_ ?_⟩
      · simp [hi]
      · simp
  · cases hstep

/-- What a success written from any loaded row makes of the stored one. -/
structure Completed (job job' : Job) : Prop where
  attemptCount : job'.attemptCount = job.attemptCount
  availableAt : job'.availableAt = job.availableAt
  status : job'.status = job.status ∨ job'.status = .succeeded
  lockedBy : job'.lockedBy = job.lockedBy ∨ job'.lockedBy = none

theorem completed_flush (loaded job : Job) : Completed job (loaded.flush loaded.markCompleted job) where
  attemptCount := by simp [Job.flush, Job.markCompleted]
  availableAt := by simp [Job.flush, Job.markCompleted]
  status := Table.flushColumn_eq_or ..
  lockedBy := Table.flushColumn_eq_or ..

/-- A recorded failure counts, and leaves attempts and a wait, or none. -/
theorem markFailed_cases (error : String) (isRetryable : Bool) (now : ℤ) (job : Job) :
    (job.markFailed error isRetryable now).attemptCount = job.attemptCount + 1 ∧
      ((job.markFailed error isRetryable now).status = .permanentFailure ∨
        (job.markFailed error isRetryable now).status = .retryableFailure ∧ job.attemptCount + 1 < maxRetries ∧
          (job.markFailed error isRetryable now).availableAt = now + backoff (job.attemptCount + 1)) := by
  simp only [Job.markFailed]
  split_ifs with h
  · simp only [Bool.and_eq_true, decide_eq_true_eq] at h
    exact ⟨rfl, .inr ⟨rfl, h.2, rfl⟩⟩
  · exact ⟨rfl, .inl rfl⟩

theorem Ledger.recordSuccess {w : WorkerId} (h : Ledger id old s l W) (hopen : isOpen s id = true)
    (hstep : step s (.recordSuccess w) = some u) : Ledger id old u l W := by
  have hnodup := nodup_step h.nodup hstep
  simp only [step] at hstep
  split at hstep
  next i loaded rest hw =>
    cases hstep
    have hbatch : ∀ v, ({ s with jobs := s.jobs.update i (loaded.flush loaded.markCompleted) }.setWorker w
        ⟨none, rest⟩).batchOf v = s.batchOf v := by
      intro v
      rw [batchOf_setWorker]
      split_ifs with hv
      · subst hv
        simp [State.batchOf, hw]
      · rfl
    by_cases hi : i = id
    · subst hi
      obtain ⟨job, hjob, hjobOpen⟩ := isOpen_iff.mp hopen
      have hc := completed_flush loaded job
      have hrow : ∀ job', (s.jobs.update i (loaded.flush loaded.markCompleted))[i]? = some job' →
          job' = loaded.flush loaded.markCompleted job := by
        intro job' hjob'
        rw [Table.get_update_self, hjob] at hjob'
        exact (Option.some.inj hjob').symm
      refine ⟨hnodup, h.bound, fun job' hjob' _ => ?_, fun job' hjob' => ?_, fun v hv hheld => ?_,
        fun _ => h.spent hopen, fun hwaiting => ?_⟩
      · rw [hrow job' hjob', hc.attemptCount]
        exact h.open_lt job hjob hjobOpen
      · rw [hrow job' hjob', hc.attemptCount]
        exact h.failures job hjob
      · refine h.covers v (hbatch v ▸ hv) fun ho => ?_
        obtain ⟨job', hjob', hproc, hlock⟩ := hheld ho
        rw [hrow job' hjob'] at hproc hlock
        refine ⟨job, hjob, ?_, ?_⟩
        · exact hc.status.elim (fun hs => hs ▸ hproc) fun hs => by simp [hs] at hproc
        · exact hc.lockedBy.elim (fun hl => hl ▸ hlock) fun hl => by simp [hl] at hlock
      · obtain ⟨job', hjob', hstatus⟩ := isWaiting_iff.mp hwaiting
        rw [hrow job' hjob'] at hstatus
        refine h.waiting (isWaiting_iff.mpr ⟨job, hjob, ?_⟩)
        exact hc.status.elim (fun hs => hs ▸ hstatus) fun hs => by simp [hs] at hstatus
    · have hrow : (s.jobs.update i (loaded.flush loaded.markCompleted))[id]? = s.jobs[id]? :=
        Table.get_update_of_ne _ _ hi
      simpa using h.keep (e := []) hrow (fun v hv => hbatch v ▸ hv) hnodup rfl rfl
  · cases hstep

theorem Ledger.recordFailure {w : WorkerId} {error : String} {isRetryable : Bool} (h : Ledger id old s l W)
    (hopen : isOpen s id = true) (hstep : step s (.recordFailure w error isRetryable) = some u) :
    Ledger id old u (l ++ events s (.recordFailure w error isRetryable)) W := by
  have hnodup := nodup_step h.nodup hstep
  simp only [step] at hstep
  split at hstep
  next i loaded rest hw =>
    cases hstep
    simp only [events, hw]
    have hbatch : ∀ v, ({ s with jobs := s.jobs.update i (Job.markFailed error isRetryable s.now) }.setWorker w
        ⟨none, rest.map fun (entry : JobId × Option Job) => (entry.1, none)⟩).batchOf v = s.batchOf v := by
      intro v
      rw [batchOf_setWorker]
      split_ifs with hv
      · subst hv
        simp [State.batchOf, hw, Function.comp_def]
      · rfl
    by_cases hi : i = id
    · subst hi
      obtain ⟨job, hjob, hjobOpen⟩ := isOpen_iff.mp hopen
      obtain ⟨hcount, hstatus⟩ := markFailed_cases error isRetryable s.now job
      have hspent := h.spent hopen
      have hlt := h.open_lt job hjob hjobOpen
      have hfailures := h.failures job hjob
      have hrow : ∀ job', (s.jobs.update i (Job.markFailed error isRetryable s.now))[i]? = some job' →
          job' = job.markFailed error isRetryable s.now := by
        intro job' hjob'
        rw [Table.get_update_self, hjob] at hjob'
        exact (Option.some.inj hjob').symm
      have hstarted : [Event.failed i].count (.started i) = 0 := by simp
      have hpicked : [Event.failed i].count (.pickedUp i) = 0 := by simp
      have hfailed : [Event.failed i].count (.failed i) = 1 := by simp
      have hbound := h.bound
      refine ⟨hnodup, ?_, fun job' hjob' ho => ?_, fun job' hjob' => ?_, fun v hv hheld => ?_, fun _ => ?_, fun _ => ?_⟩
      · simp only [List.count_append, hstarted, hpicked]
        omega
      · rw [hrow job' hjob'] at ho ⊢
        rcases hstatus with hs | ⟨-, hlt', -⟩
        · simp [Job.isOpen, hs] at ho
        · omega
      · rw [hrow job' hjob', hcount, List.count_append, hfailed, hfailures]
      · refine h.covers v (hbatch v ▸ hv) fun ho => ?_
        obtain ⟨job', hjob', hproc, -⟩ := hheld ho
        rw [hrow job' hjob'] at hproc
        rcases hstatus with hs | ⟨hs, -⟩ <;> simp [hs] at hproc
      · simp only [List.count_append, hstarted, hpicked, hfailed]
        omega
      · simp only [List.count_append, hstarted, hpicked, hfailed]
        omega
    · have hrow : (s.jobs.update i (Job.markFailed error isRetryable s.now))[id]? = s.jobs[id]? :=
        Table.get_update_of_ne _ _ hi
      exact h.keep hrow (fun v hv => hbatch v ▸ hv) hnodup (by simp) (by simp [hi])
  · cases hstep

theorem ledger_step {a : Step} (h : ∃ W, Ledger id old s l W) (hopen : isOpen s id = true)
    (hheld : old → startsHeld id s a = true) (hstep : step s a = some u) :
    ∃ W, Ledger id old u (l ++ events s a) W := by
  obtain ⟨W, h⟩ := h
  have hnodup := nodup_step h.nodup hstep
  cases a with
  | claimBatch w limit => exact h.claimBatch hopen hstep
  | startJob w => exact h.startJob hopen hheld hstep
  | recordSuccess w =>
    simp only [events, List.append_nil]
    exact ⟨W, h.recordSuccess hopen hstep⟩
  | recordFailure w error isRetryable => exact ⟨W, h.recordFailure hopen hstep⟩
  | crash w =>
    cases hstep
    have hbatch : ∀ v, (s.setWorker w idle).batchOf v ⊆ s.batchOf v := by
      intro v
      rw [batchOf_setWorker]
      split_ifs
      · exact List.nil_subset _
      · exact List.Subset.refl _
    exact ⟨W, h.keep rfl (fun v hv => hbatch v hv) hnodup rfl rfl⟩
  | enqueue jobType aggregateId reason =>
    cases hstep
    obtain ⟨job, hjob, -⟩ := isOpen_iff.mp hopen
    have hrow : (s.jobs.insert (newJob jobType aggregateId reason s.now))[id]? = s.jobs[id]? := by
      rw [hjob]
      exact Table.get_insert_of_some _ hjob
    exact ⟨W, h.keep hrow (fun v hv => hv) hnodup rfl rfl⟩
  | requeue i =>
    simp only [step] at hstep
    split_ifs at hstep with hp
    cases hstep
    have hi : i ≠ id := by
      rintro rfl
      obtain ⟨job, hjob, ho⟩ := isOpen_iff.mp hopen
      simp only [hjob, Option.any_some, decide_eq_true_eq] at hp
      simp [Job.isOpen, hp] at ho
    have hrow : (s.jobs.update i (Job.requeue s.now))[id]? = s.jobs[id]? := Table.get_update_of_ne _ _ hi
    exact ⟨W, h.keep hrow (fun v hv => hv) hnodup rfl rfl⟩
  | tick d =>
    cases hstep
    exact ⟨W, h.keep rfl (fun v hv => hv) hnodup rfl rfl⟩

theorem ledger_run {as : List Step} (hopen : Machine.Along step (fun s _ => isOpen s id = true) s as)
    (hheld : old → Machine.Along step (fun s a => startsHeld id s a = true) s as)
    (hrun : Machine.run step s as = some u)
    (h : ∃ W, Ledger id old s l W) : ∃ W, Ledger id old u (l ++ Machine.log step events s as) W := by
  induction as generalizing s l with
  | nil =>
    cases hrun
    simpa using h
  | cons a as ih =>
    obtain ⟨t, ht, hrest⟩ := Machine.run_cons_eq_some.mp hrun
    rw [Machine.log_cons ht, ← List.append_assoc]
    exact ih (hopen.2 t ht) (fun ho => (hheld ho).2 t ht) hrest (ledger_step h hopen.1 (fun ho => (hheld ho).1) ht)

/-! ### The wait after a failure -/

theorem backoff_mono {n m : ℕ} (h : n ≤ m) : backoff n ≤ backoff m := by
  have hpow : (3 : ℕ) ^ (n - 1) ≤ 3 ^ (m - 1) := Nat.pow_le_pow_right (by decide) (by omega)
  have hcast : (3 : ℤ) ^ (n - 1) ≤ 3 ^ (m - 1) := by exact_mod_cast hpow
  unfold backoff seconds
  omega

/-- The `n`-th failure was recorded at `t`, and an open job waits until its backoff is over. -/
structure Waiting (id : JobId) (t : ℤ) (n : ℕ) (s : State) : Prop where
  now : t ≤ s.now
  count : ∀ job, s.jobs[id]? = some job → job.isOpen → n ≤ job.attemptCount
  claimed : ∀ job, s.jobs[id]? = some job → job.status = .processing → t + backoff n ≤ s.now
  due : ∀ job, s.jobs[id]? = some job → job.isOpen → job.status ≠ .processing → t + backoff n ≤ job.availableAt

theorem Waiting.keep {t : ℤ} {n : ℕ} (h : Waiting id t n s) (hrow : u.jobs[id]? = s.jobs[id]?) (hnow : s.now ≤ u.now) :
    Waiting id t n u := by
  refine ⟨h.now.trans hnow, ?_, ?_, ?_⟩
  · rw [hrow]
    exact h.count
  · rw [hrow]
    exact fun job hjob hs => (h.claimed job hjob hs).trans hnow
  · rw [hrow]
    exact h.due

/-- The job's row becomes `job'`. -/
theorem Waiting.change {t : ℤ} {n : ℕ} {job' : Job} (h : Waiting id t n s) (hrow : u.jobs[id]? = some job')
    (hnow : u.now = s.now) (hcount : job'.isOpen → n ≤ job'.attemptCount)
    (hclaimed : job'.status = .processing → t + backoff n ≤ s.now)
    (hdue : job'.isOpen → job'.status ≠ .processing → t + backoff n ≤ job'.availableAt) : Waiting id t n u := by
  refine ⟨hnow ▸ h.now, fun job hjob => ?_, fun job hjob => ?_, fun job hjob => ?_⟩ <;> cases hrow.symm.trans hjob
  · exact hcount
  · rw [hnow]
    exact hclaimed
  · exact hdue

theorem waiting_step {t : ℤ} {n : ℕ} {a : Step} (h : Waiting id t n s) (ho : isOpen s id = true)
    (hstep : step s a = some u) : Waiting id t n u := by
  obtain ⟨job, hjob, hopen⟩ := isOpen_iff.mp ho
  cases a with
  | claimBatch w limit =>
    simp only [step] at hstep
    split at hstep <;> cases hstep
    rcases claimEach_row w s.now (candidates_nodup s.jobs s.now limit) s.jobs id with
      ⟨-, hrow⟩ | ⟨job', hjob', hc, -, hrow⟩
    · exact h.keep hrow le_rfl
    · cases hjob.symm.trans hjob'
      obtain ⟨hstatus, hdue⟩ := Job.claimable_iff.mp hc
      refine h.change hrow rfl (fun _ => h.count job hjob hopen) (fun _ => ?_) fun _ hs => absurd rfl hs
      by_cases hproc : job.status = .processing
      · exact h.claimed job hjob hproc
      · exact (h.due job hjob hopen hproc).trans hdue
  | startJob w =>
    simp only [step] at hstep
    split at hstep
    · obtain ⟨_, -, rfl⟩ := Option.map_eq_some_iff.mp hstep
      exact h.keep rfl le_rfl
    · cases hstep
  | recordSuccess w =>
    simp only [step] at hstep
    split at hstep
    next i loaded rest hw =>
      cases hstep
      by_cases hi : i = id
      · subst hi
        have hc := completed_flush loaded job
        have hrow : (s.jobs.update i (loaded.flush loaded.markCompleted))[i]? =
            some (loaded.flush loaded.markCompleted job) := by rw [Table.get_update_self, hjob]; rfl
        rcases hc.status with hs | hs
        · refine h.change hrow rfl (fun _ => ?_) (fun hp => ?_) fun _ hp => ?_
          · rw [hc.attemptCount]
            exact h.count job hjob hopen
          · exact h.claimed job hjob (hs ▸ hp)
          · rw [hc.availableAt]
            exact h.due job hjob hopen (hs ▸ hp)
        · refine h.change hrow rfl ?_ ?_ ?_ <;> simp [Job.isOpen, hs]
      · exact h.keep (Table.get_update_of_ne _ _ hi) le_rfl
    · cases hstep
  | recordFailure w error isRetryable =>
    simp only [step] at hstep
    split at hstep
    next i loaded rest hw =>
      cases hstep
      by_cases hi : i = id
      · subst hi
        obtain ⟨hcount, hstatus⟩ := markFailed_cases error isRetryable s.now job
        have hold := h.count job hjob hopen
        have hrow : (s.jobs.update i (Job.markFailed error isRetryable s.now))[i]? =
            some (job.markFailed error isRetryable s.now) := by rw [Table.get_update_self, hjob]; rfl
        rcases hstatus with hs | ⟨hs, -, hdue⟩
        · refine h.change hrow rfl ?_ ?_ ?_ <;> simp [Job.isOpen, hs]
        · refine h.change hrow rfl (fun _ => by omega) (by simp [hs]) fun _ _ => ?_
          have hmono := backoff_mono (show n ≤ job.attemptCount + 1 by omega)
          have hnow := h.now
          rw [hdue]
          omega
      · exact h.keep (Table.get_update_of_ne _ _ hi) le_rfl
    · cases hstep
  | crash w => cases hstep; exact h.keep rfl le_rfl
  | enqueue jobType aggregateId reason =>
    cases hstep
    refine h.keep ?_ le_rfl
    rw [hjob]
    exact Table.get_insert_of_some _ hjob
  | requeue i =>
    simp only [step] at hstep
    split_ifs at hstep with hp
    cases hstep
    refine h.keep (Table.get_update_of_ne _ _ ?_) le_rfl
    rintro rfl
    simp only [hjob, Option.any_some, decide_eq_true_eq] at hp
    simp [Job.isOpen, hp] at hopen
  | tick d =>
    cases hstep
    refine h.keep rfl ?_
    show s.now ≤ s.now + d
    omega

/-- The failure of a job that has failed `n` times starts the wait of the next. -/
theorem waiting_of_failure {w : WorkerId} {error : String} {isRetryable : Bool} {job : Job}
    (hjob : s.jobs[id]? = some job) (hfailed : .failed id ∈ events s (.recordFailure w error isRetryable))
    (hstep : step s (.recordFailure w error isRetryable) = some u) :
    Waiting id s.now (job.attemptCount + 1) u := by
  simp only [step] at hstep
  split at hstep
  next i loaded rest hw =>
    cases hstep
    simp only [events, hw, List.mem_singleton, Event.failed.injEq] at hfailed
    subst hfailed
    obtain ⟨hcount, hstatus⟩ := markFailed_cases error isRetryable s.now job
    have hrow : ∀ job', (s.jobs.update id (Job.markFailed error isRetryable s.now))[id]? = some job' →
        job' = job.markFailed error isRetryable s.now := by
      intro job' hjob'
      rw [Table.get_update_self, hjob] at hjob'
      exact (Option.some.inj hjob').symm
    refine ⟨le_rfl, fun job' hjob' _ => ?_, fun job' hjob' hp => ?_, fun job' hjob' ho _ => ?_⟩
    · rw [hrow job' hjob', hcount]
    · rw [hrow job' hjob'] at hp
      rcases hstatus with hs | ⟨hs, -⟩ <;> simp [hs] at hp
    · rw [hrow job' hjob'] at ho ⊢
      rcases hstatus with hs | ⟨-, -, hdue⟩
      · simp [Job.isOpen, hs] at ho
      · rw [hdue]
  · cases hstep

/-! ### From queued to finished -/

theorem started_mem_events {a : Step} (h : .started id ∈ events s a) :
    ∃ w loaded rest, a = .startJob w ∧ s.workers w = ⟨none, (id, loaded) :: rest⟩ := by
  cases a with
  | startJob w =>
    simp only [events] at h
    split at h
    next i loaded rest hw =>
      simp only [List.mem_singleton, Event.started.injEq] at h
      subst h
      exact ⟨w, loaded, rest, rfl, hw⟩
    · cases h
  | recordFailure w error isRetryable =>
    simp only [events] at h
    split at h <;> simp at h
  | claimBatch w limit =>
    simp only [events] at h
    split at h <;> simp at h
  | _ => cases h

/-- A job that is queued has all its attempts ahead of it. -/
theorem ledger_of_queues {a : Step} (hnodup : ∀ w, (s.batchOf w).Nodup) (hqueues : Queues s id a)
    (hstep : step s a = some u) : Ledger id (ClaimedBefore id u) u [] ∅ := by
  have hnodup := nodup_step hnodup hstep
  obtain ⟨job, hjob, hcount, hpending⟩ : ∃ job, u.jobs[id]? = some job ∧ job.attemptCount = 0 ∧
    job.status = .pending := by
    cases a with
    | enqueue jobType aggregateId reason =>
      cases hstep
      rw [show id = s.jobs.fresh from hqueues]
      exact ⟨_, by rw [Table.get_insert, if_pos rfl], rfl, rfl⟩
    | requeue i =>
      obtain rfl : i = id := hqueues
      simp only [step] at hstep
      split_ifs at hstep with hfailed
      cases hstep
      obtain ⟨job, hjob, -⟩ := (Option.any_eq_true _ _).mp hfailed
      exact ⟨job.requeue s.now, by rw [Table.get_update_self, hjob]; rfl, rfl, rfl⟩
    | _ => cases hqueues
  have hrow : ∀ job', u.jobs[id]? = some job' → job' = job := fun job' hjob' => Option.some.inj (hjob'.symm.trans hjob)
  refine ⟨hnodup, by simp, fun job' hjob' _ => ?_, fun job' hjob' => ?_, fun w hw hheld => ?_, by simp, by simp⟩
  · rw [hrow job' hjob', hcount]
    decide
  · rw [hrow job' hjob', hcount]
    rfl
  · obtain ⟨job', hjob', hproc, -⟩ := hheld ⟨w, hw⟩
    rw [hrow job' hjob', hpending] at hproc
    cases hproc

/-- From the time a job is queued to the time it succeeds or fails for good it is started
at most five times, not counting one for each time it is picked up after it was left in
processing; and after its `n`-th recorded failure it is not started again before its backoff
is over. For the second, and for the first if some worker has an earlier claim of the job left,
workers that have lost the lock of the job start it no more in the run. -/
theorem attempts_run {before as : List Step} {a : Step} {s q u : State} {id : JobId}
    (hbefore : Machine.run step start before = some s) (hqueues : Queues s id a) (hqueued : step s a = some q)
    (hopen : Machine.Along step (fun s _ => isOpen s id = true) q as) (hrun : Machine.run step q as = some u) :
    ((ClaimedBefore id q → Machine.Along step (fun s a => startsHeld id s a = true) q as) →
      (Machine.log step events q as).count (.started id) ≤
        5 + (Machine.log step events q as).count (.pickedUp id)) ∧
      (Machine.Along step (fun s a => startsHeld id s a = true) q as →
        ∀ (bs cs ds : List Step) (b c : Step) (t v : State), as = bs ++ b :: (cs ++ c :: ds) →
          Machine.run step q bs = some t → .failed id ∈ events t b → Machine.run step t (b :: cs) = some v →
          .started id ∈ events v c →
          t.now + backoff ((Machine.log step events q bs).count (.failed id) + 1) ≤ v.now) := by
  have hnodup : ∀ w, (s.batchOf w).Nodup :=
    Machine.invariant_run (I := fun s => ∀ w, (s.batchOf w).Nodup) (fun _ _ _ h ht => nodup_step h ht) hbefore
      fun w => List.nodup_nil
  have hledger : ∃ W, Ledger id (ClaimedBefore id q) q [] W := ⟨∅, ledger_of_queues hnodup hqueues hqueued⟩
  constructor
  · intro hheld
    obtain ⟨W, hend⟩ := ledger_run hopen hheld hrun hledger
    simpa [maxRetries] using hend.bound
  · rintro hheld bs cs ds b c t v rfl hbs hfailed hv hstarted
    obtain ⟨hopen', hopenFrom⟩ := (Machine.along_append hbs).mp hopen
    obtain ⟨hheld', hheldFrom⟩ := (Machine.along_append hbs).mp hheld
    obtain ⟨W, hmid⟩ := ledger_run hopen' (fun _ => hheld') hbs hledger
    obtain ⟨t', hb, hcs⟩ := Machine.run_cons_eq_some.mp hv
    obtain ⟨ho, hopenAfter⟩ := (Machine.along_cons hb).mp hopenFrom
    obtain ⟨-, hheldAfter⟩ := (Machine.along_cons hb).mp hheldFrom
    have hwaits := ((Machine.along_append hcs).mp hopenAfter).1
    have hlast := ((Machine.along_append hcs).mp hheldAfter).2
    obtain ⟨job, hjob, -⟩ := isOpen_iff.mp ho
    obtain ⟨w, error, isRetryable, rfl⟩ : ∃ w error isRetryable, b = .recordFailure w error isRetryable := by
      cases b with
      | recordFailure w error isRetryable => exact ⟨w, error, isRetryable, rfl⟩
      | claimBatch w limit => simp only [events] at hfailed; split at hfailed <;> simp at hfailed
      | startJob w => simp only [events] at hfailed; split at hfailed <;> simp at hfailed
      | _ => cases hfailed
    have hwait := waiting_of_failure hjob hfailed hb
    have hstill := Machine.invariant_along (fun _ _ _ h hg ht => waiting_step h hg ht) hwaits hcs hwait
    obtain ⟨w', loaded, rest, rfl, hw'⟩ := started_mem_events hstarted
    obtain ⟨held, hget, hproc, -⟩ := holds_of_startsHeld hw' hlast.1
    have hcount := hmid.failures job hjob
    rw [List.nil_append] at hcount
    rw [← hcount]
    exact hstill.claimed held hget hproc

/-- A job fails once, and is started again when its first backoff is over. -/
def failsOnce : List Step :=
  [.claimBatch 0 10, .startJob 0, .recordFailure 0 "timeout" true, .tick 10000000, .claimBatch 0 10, .startJob 0]

theorem attempts_run_failsOnce : ∃ q u, step start (.enqueue .createPeer 0 none) = some q ∧
    Machine.run step q failsOnce = some u ∧
    (Machine.log step events q failsOnce).count (.started 0) = 2 ∧
    (Machine.log step events q failsOnce).count (.started 0) ≤
      5 + (Machine.log step events q failsOnce).count (.pickedUp 0) := by
  obtain ⟨u, hu⟩ : ∃ u, Machine.run step ⟨0, [newJob .createPeer 0 none 0], fun _ => idle⟩ failsOnce = some u :=
    ⟨_, rfl⟩
  refine ⟨⟨0, [newJob .createPeer 0 none 0], fun _ => idle⟩, u, rfl, hu, by decide +kernel, ?_⟩
  exact (attempts_run (show Machine.run step start [] = some start from rfl)
    (show Queues start 0 (.enqueue .createPeer 0 none) from rfl) rfl (by decide +kernel) hu).1
      fun _ => by decide +kernel

/-- A worker is killed in each of its first five attempts, and starts the job a sixth time. -/
def sixStarts : List Step :=
  let attempt : List Step := [.claimBatch 0 10, .startJob 0, .crash 0, .tick 301000000]
  attempt ++ attempt ++ attempt ++ attempt ++ attempt ++ [.claimBatch 0 10, .startJob 0]

theorem six_starts : ∃ u, Machine.run step start (.enqueue .createPeer 0 none :: sixStarts) = some u ∧
    isOpen u 0 = true ∧
    5 < (Machine.log step events start (.enqueue .createPeer 0 none :: sixStarts)).count (.started 0) := by
  have hrun : (Machine.run step start (.enqueue .createPeer 0 none :: sixStarts)).any (fun s => isOpen s 0) = true := by
    decide +kernel
  obtain ⟨u, hu, hopen⟩ := Machine.exists_of_any hrun
  exact ⟨u, hu, hopen, by decide +kernel⟩

end AmneziaVpnBot.Workers
