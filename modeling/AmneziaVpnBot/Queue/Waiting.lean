import AmneziaVpnBot.Queue.Attempts
import Mathlib.Algebra.GroupWithZero.Nat
import Mathlib.Data.List.Perm.Subperm

/-! How long a due job waits when claims race. A claim selects its candidates, updates them one by
one and loads the rows it got, with steps of the other workers anywhere between. Within one lease
no other job can get ahead of one that is due, and a claim that is carried through either takes it
or finds as many of the jobs ahead of it taken as it may hold. -/

namespace AmneziaVpnBot.Turns

open Workers (idle completed_flush markFailed_cases backoff_mono)

/-- What a worker inside `claim_pending_jobs` holds: the `now` it read, the candidates it has not
tried yet, and the jobs it got. -/
structure Claiming where
  now : ℤ
  candidates : List JobId
  claimed : List JobId

structure State where
  base : Workers.State
  claiming : WorkerId → Option Claiming

inductive Step
  /-- Read the clock and select the candidates. -/
  | select (worker : WorkerId) (limit : ℕ)
  /-- `claim_one` on the next candidate. -/
  | update (worker : WorkerId)
  /-- Load the claimed rows. -/
  | load (worker : WorkerId)
  /-- Whatever else the workers do, and the queueing of jobs. -/
  | other (a : Workers.Step)

def step (s : State) : Step → Option State
  | .select w limit => match s.base.workers w, s.claiming w with
    | ⟨none, []⟩, none =>
      let claiming : Claiming := ⟨s.base.now, candidates s.base.jobs s.base.now limit, []⟩
      some { s with claiming := Function.update s.claiming w (some claiming) }
    | _, _ => none
  | .update w => match s.claiming w with
    | some ⟨now, id :: ids, claimed⟩ =>
      let (jobs, ok) := claimOne s.base.jobs id w now
      let claiming : Claiming := ⟨now, ids, if ok then claimed ++ [id] else claimed⟩
      some ⟨{ s.base with jobs := jobs }, Function.update s.claiming w (some claiming)⟩
    | _ => none
  | .load w => match s.claiming w with
    | some ⟨_, [], claimed⟩ =>
      let batch := claimed.map fun id => (id, s.base.jobs[id]?)
      some ⟨s.base.setWorker w ⟨none, batch⟩, Function.update s.claiming w none⟩
    | _ => none
  | .other (.claimBatch _ _) => none
  | .other (.crash w) => some ⟨s.base.setWorker w idle, Function.update s.claiming w none⟩
  | .other a => (Workers.step s.base a).map fun base => { s with base := base }

/-- The jobs that a step claims, or records an end of. -/
def taken (s : State) : Step → List JobId
  | .update w => match s.claiming w with
    | some ⟨now, id :: _, _⟩ => if (claimOne s.base.jobs id w now).2 then [id] else []
    | _ => []
  | .other (.recordSuccess w) | .other (.recordFailure w _ _) => (s.base.workers w).running.toList.map Prod.fst
  | _ => []

/-- Due no later than `d`, and waiting to be claimed or held by a claim from before `since`. -/
def waits (since d : ℤ) (job : Job) : Bool :=
  job.availableAt ≤ d && (job.status = .pending || job.status = .retryableFailure ||
    (job.status = .processing && job.lockedAt.any fun t => t < since))

/-- The jobs that are ahead of one that is due at `d`, and that one itself. -/
def ahead (since d : ℤ) (jobs : Table Job) : List JobId := jobs.select (waits since d)

/-- A stretch of a run in which one worker makes a claim, with anything before and meanwhile. -/
structure Round where
  before : List Step
  worker : WorkerId
  limit : ℕ
  meanwhile : List Step

def Round.steps (r : Round) : List Step :=
  r.before ++ .select r.worker r.limit :: (r.meanwhile ++ [.load r.worker])

/-- The claim that is loaded is the one that was selected. -/
def Round.CarriedThrough (r : Round) : Prop :=
  ∀ a ∈ r.meanwhile, a ≠ .load r.worker ∧ a ≠ .other (.crash r.worker)

variable {s t u : State} {since d : ℤ} {id : JobId} {job : Job} {jobs jobs' : Table Job}

/-- The other steps are the workers' own, and only a crash touches a claim. -/
theorem step_other {a : Workers.Step} (h : step s (.other a) = some t) :
    Workers.step s.base a = some t.base ∧ (∀ w limit, a ≠ .claimBatch w limit) ∧
      (t.claiming = s.claiming ∨ ∃ w, a = .crash w ∧ t.claiming = Function.update s.claiming w none) := by
  cases a with
  | claimBatch w limit => cases h
  | crash w =>
    cases h
    exact ⟨rfl, fun _ _ => nofun, .inr ⟨w, rfl, rfl⟩⟩
  | startJob | recordSuccess | recordFailure | enqueue | requeue | tick =>
    simp only [step, Option.map_eq_some_iff] at h
    obtain ⟨base, hbase, rfl⟩ := h
    exact ⟨hbase, fun _ _ => nofun, .inl rfl⟩

/-! ### A claim on its own -/

theorem run_updates {w : WorkerId} {now : ℤ} {ids claimed : List JobId} (h : s.claiming w = some ⟨now, ids, claimed⟩) :
    Machine.run step s (List.replicate ids.length (.update w)) =
      some ⟨{ s.base with jobs := (claimEach w now s.base.jobs ids).1 },
        Function.update s.claiming w (some ⟨now, [], claimed ++ (claimEach w now s.base.jobs ids).2⟩)⟩ := by
  induction ids generalizing s claimed with
  | nil => simp [claimEach, ← h]
  | cons id ids ih =>
    simp only [List.length_cons, List.replicate_succ, Machine.run_cons, step, h, Option.bind_some]
    rw [ih (Function.update_self ..)]
    simp only [Function.update_idem, claimEach]
    cases (claimOne s.base.jobs id w now).2 <;> simp

/-- With nothing meanwhile a claim is the workers' `claimBatch`. -/
theorem run_claim {w : WorkerId} {limit : ℕ} {base : Workers.State} (hnone : s.claiming w = none)
    (h : Workers.step s.base (.claimBatch w limit) = some base) :
    Machine.run step s (.select w limit ::
      (List.replicate (candidates s.base.jobs s.base.now limit).length (.update w) ++ [.load w])) =
        some ⟨base, s.claiming⟩ := by
  simp only [Workers.step] at h
  split at h
  next hw =>
    cases h
    simp only [Machine.run_cons, step, hw, hnone, Option.bind_some]
    rw [Machine.run_append, run_updates (Function.update_self ..)]
    simp only [Option.bind_some, Machine.run_cons, Machine.run_nil, step, Function.update_self, Function.update_idem,
      List.nil_append, claimPendingJobs, Option.some.injEq, State.mk.injEq]
    rw [← hnone, Function.update_eq_self]
    exact ⟨trivial, rfl⟩
  · cases h

/-! ### Candidates -/

theorem mem_candidates {jobs : Table Job} {now : ℤ} {limit : ℕ} {i : JobId} (h : i ∈ candidates jobs now limit) :
    ∃ job, jobs[i]? = some job ∧ job.claimable now := by
  have hmem := List.mem_of_mem_take h
  rw [List.mem_insertionSort] at hmem
  exact Table.mem_select.mp hmem

def dueAt (jobs : Table Job) (i : JobId) : ℤ := jobs[i]?.elim 0 Job.availableAt

theorem dueAt_eq {jobs : Table Job} (h : jobs[id]? = some job) : dueAt jobs id = job.availableAt := by
  rw [dueAt, h, Option.elim_some]

/-- The candidates are the first ones of all claimable jobs, the ones due longest first. -/
theorem candidates_sorted (jobs : Table Job) (now : ℤ) (limit : ℕ) :
    ∃ sorted : List JobId, candidates jobs now limit = sorted.take limit ∧
      (∀ i, i ∈ sorted ↔ i ∈ jobs.select (Job.claimable now)) ∧ sorted.Pairwise fun i j =>
      dueAt jobs i ≤ dueAt jobs j := by
  have htotal : Std.Total fun i j : JobId => dueAt jobs i ≤ dueAt jobs j := ⟨fun i j => le_total _ _⟩
  have htrans : IsTrans JobId fun i j => dueAt jobs i ≤ dueAt jobs j := ⟨fun i j k => le_trans⟩
  exact ⟨(jobs.select (Job.claimable now)).insertionSort fun i j => dueAt jobs i ≤ dueAt jobs j, rfl,
    fun i => List.mem_insertionSort _, List.pairwise_insertionSort _ _⟩

/-- A batch that leaves a claimable job out is full, of jobs that are due no later. -/
theorem candidates_full {jobs : Table Job} {now : ℤ} {limit : ℕ} (hjob : jobs[id]? = some job)
    (hclaimable : job.claimable now) (hnot : id ∉ candidates jobs now limit) :
    (candidates jobs now limit).length = limit ∧
      ∀ i ∈ candidates jobs now limit, ∀ job', jobs[i]? = some job' → job'.availableAt ≤ job.availableAt := by
  obtain ⟨sorted, hcandidates, hmem, hpairs⟩ := candidates_sorted jobs now limit
  rw [hcandidates] at hnot ⊢
  have hid : id ∈ sorted := (hmem id).mpr (Table.mem_select.mpr ⟨job, hjob, hclaimable⟩)
  have hdrop : id ∈ sorted.drop limit := by
    rw [← List.take_append_drop limit sorted, List.mem_append] at hid
    exact hid.resolve_left hnot
  refine ⟨?_, fun i hi job' hjob' => ?_⟩
  · have hlength := List.length_pos_of_mem hdrop
    rw [List.length_drop] at hlength
    rw [List.length_take]
    omega
  · rw [← List.take_append_drop limit sorted] at hpairs
    have hle := (List.pairwise_append.mp hpairs).2.2 i hi id hdrop
    rwa [dueAt_eq hjob, dueAt_eq hjob'] at hle

/-! ### Who is ahead -/

theorem mem_ahead {i : JobId} : i ∈ ahead since d jobs ↔ ∃ job, jobs[i]? = some job ∧ waits since d job = true :=
  Table.mem_select

theorem waits_iff :
    waits since d job = true ↔ job.availableAt ≤ d ∧ (job.status = .pending ∨ job.status = .retryableFailure ∨
    job.status = .processing ∧ ∃ t, job.lockedAt = some t ∧ t < since) := by
  simp [waits, Option.any_eq_true, or_assoc]

theorem waits_of_claimable {now : ℤ} (h : job.claimable now) (hdue : job.availableAt ≤ d) (hnow : now ≤ since + lease) :
    waits since d job = true := by
  obtain ⟨hstatus, -⟩ := Job.claimable_iff.mp h
  refine waits_iff.mpr
    ⟨hdue, hstatus.imp_right (Or.imp_right fun ⟨hprocessing, t, ht, hexpired⟩ => ⟨hprocessing, t, ht, ?_⟩)⟩
  omega

theorem not_waits_claim {w : WorkerId} {now : ℤ} (h : since ≤ now) : waits since d (job.claim w now) = false := by
  simp [waits, Job.claim, h]

theorem not_waits_of_late (h : d < job.availableAt) : waits since d job = false := by
  rw [Bool.eq_false_iff]
  exact fun hwaits => absurd (waits_iff.mp hwaits).1 (Int.not_le.mpr h)

theorem not_waits_markFailed {error : String} {isRetryable : Bool} {now : ℤ} (h : d < now) :
    waits since d (job.markFailed error isRetryable now) = false := by
  have hbackoff : 0 ≤ backoff (job.attemptCount + 1) := by
    have hzero : 0 ≤ backoff 0 := by decide
    exact hzero.trans (backoff_mono (Nat.zero_le _))
  obtain ⟨-, hfinal | ⟨-, -, hlater⟩⟩ := markFailed_cases error isRetryable now job
  · simp [waits, hfinal]
  · apply not_waits_of_late
    omega

/-- A job that waits after the change waited before it, and is claimable whenever it was. -/
def StillWaits (since d : ℤ) (job job' : Job) : Prop :=
  waits since d job' = true → waits since d job = true ∧ ∀ n, job.claimable n → job'.claimable n

theorem stillWaits_completed (loaded : Job) : StillWaits since d job (loaded.flush loaded.markCompleted job) := by
  intro h
  obtain ⟨hdue, hstatus⟩ := waits_iff.mp h
  have hcompleted := completed_flush loaded job
  have hlocked : (loaded.flush loaded.markCompleted job).lockedAt = job.lockedAt ∨
      (loaded.flush loaded.markCompleted job).lockedAt = none := Table.flushColumn_eq_or ..
  obtain hsame | hdone := hcompleted.status
  · simp only [waits_iff, Job.claimable_iff]
    rw [hcompleted.availableAt] at hdue ⊢
    rw [hsame] at hstatus ⊢
    obtain hlocked | hlocked := hlocked
    · rw [hlocked] at hstatus ⊢
      exact ⟨⟨hdue, hstatus⟩, fun n hn => hn⟩
    · -- it is not locked, so it is not in processing
      rw [hlocked] at hstatus
      have hwaiting : job.status = .pending ∨ job.status = .retryableFailure :=
        hstatus.imp_right fun h => h.resolve_right fun ⟨_, t, ht, _⟩ => by cases ht
      exact ⟨⟨hdue, hwaiting.imp_right .inl⟩, fun n hn => ⟨hwaiting.imp_right .inl, hn.2⟩⟩
  · rw [hdone] at hstatus
    simp at hstatus

/-- Whatever waits in the later table waited in the earlier one, and is claimable whenever it was. -/
def Behind (since d : ℤ) (jobs jobs' : Table Job) : Prop :=
  ∀ (i : JobId) (job' : Job), jobs'[i]? = some job' → waits since d job' = true →
    ∃ job, jobs[i]? = some job ∧ StillWaits since d job job'

theorem Behind.refl (jobs : Table Job) : Behind since d jobs jobs :=
  fun _ job hjob hwaits => ⟨job, hjob, fun _ => ⟨hwaits, fun _ h => h⟩⟩

theorem Behind.trans {jobs'' : Table Job} (h : Behind since d jobs jobs') (h' : Behind since d jobs' jobs'') :
    Behind since d jobs jobs'' := by
  intro i job'' hjob'' hwaits''
  obtain ⟨job', hjob', hstill'⟩ := h' i job'' hjob'' hwaits''
  obtain ⟨hwaits', hclaim'⟩ := hstill' hwaits''
  obtain ⟨job, hjob, hstill⟩ := h i job' hjob' hwaits'
  obtain ⟨hwaits, hclaim⟩ := hstill hwaits'
  exact ⟨job, hjob, fun _ => ⟨hwaits, fun n hn => hclaim' n (hclaim n hn)⟩⟩

theorem Behind.subset (h : Behind since d jobs jobs') : ahead since d jobs' ⊆ ahead since d jobs := by
  intro i hi
  obtain ⟨job', hjob', hwaits⟩ := mem_ahead.mp hi
  obtain ⟨job, hjob, hstill⟩ := h i job' hjob' hwaits
  exact mem_ahead.mpr ⟨job, hjob, (hstill hwaits).1⟩

theorem behind_update {i : JobId} {f : Job → Job} (hf : ∀ job, jobs[i]? = some job → StillWaits since d job (f job)) :
    Behind since d jobs (jobs.update i f) := by
  intro j job' hjob' hwaits
  rw [Table.get_update] at hjob'
  split_ifs at hjob' with hij
  · subst hij
    obtain ⟨job, hjob, rfl⟩ := Option.map_eq_some_iff.mp hjob'
    exact ⟨job, hjob, hf job hjob⟩
  · exact Behind.refl jobs j job' hjob' hwaits

theorem stillWaits_of_not {job' : Job} (h : waits since d job' = false) : StillWaits since d job job' := by
  intro hwaits
  rw [h] at hwaits
  cases hwaits

/-! ### One step -/

/-- The job is claimable, and every claim under way read the clock after it fell due. -/
structure Due (since : ℤ) (id : JobId) (job : Job) (s : State) : Prop where
  row : s.base.jobs[id]? = some job
  claimable : job.claimable s.base.now
  past : job.availableAt < since
  now : since ≤ s.base.now
  claims : ∀ w c, s.claiming w = some c → since ≤ c.now

theorem claimable_later {now now' : ℤ} (h : job.claimable now) (hle : now ≤ now') : job.claimable now' := by
  obtain ⟨hstatus, hdue⟩ := Job.claimable_iff.mp h
  refine Job.claimable_iff.mpr
    ⟨hstatus.imp_right (Or.imp_right fun ⟨hprocessing, t, ht, hexpired⟩ => ?_), hdue.trans hle⟩
  exact ⟨hprocessing, t, ht, hexpired.trans_le hle⟩

theorem now_le_step {x y : Workers.State} {a : Workers.Step} (h : Workers.step x a = some y) : x.now ≤ y.now := by
  cases a with
  | claimBatch w limit => simp only [Workers.step] at h; split at h <;> cases h; exact le_rfl
  | startJob w =>
    simp only [Workers.step] at h
    split at h
    · obtain ⟨_, -, rfl⟩ := Option.map_eq_some_iff.mp h
      exact le_rfl
    · cases h
  | recordSuccess w => simp only [Workers.step] at h; split at h <;> cases h; exact le_rfl
  | recordFailure w error isRetryable => simp only [Workers.step] at h; split at h <;> cases h; exact le_rfl
  | crash w => cases h; exact le_rfl
  | enqueue jobType aggregateId reason => cases h; exact le_rfl
  | requeue i => simp only [Workers.step] at h; split_ifs at h; cases h; exact le_rfl
  | tick n => cases h; exact Int.le_add_of_nonneg_right (Int.natCast_nonneg n)

/-- The clock does not go back, and the claims under way are old ones or read the clock just now. -/
theorem clock_step {a : Step} (h : step s a = some t) : s.base.now ≤ t.base.now ∧
    ∀ w c, t.claiming w = some c → c.now = s.base.now ∨ ∃ c', s.claiming w = some c' ∧ c.now = c'.now := by
  have hupdate : ∀ {w : WorkerId} {x : Option Claiming}, (∀ c, x = some c → c.now = s.base.now ∨
      ∃ c', s.claiming w = some c' ∧ c.now = c'.now) → ∀ v c, Function.update s.claiming w x v = some c →
        c.now = s.base.now ∨ ∃ c', s.claiming v = some c' ∧ c.now = c'.now := by
    intro w x hx v c hc
    by_cases hv : v = w
    · subst hv
      rw [Function.update_self] at hc
      exact hx c hc
    · rw [Function.update_of_ne hv] at hc
      exact .inr ⟨c, hc, rfl⟩
  cases a with
  | select w limit =>
    simp only [step] at h
    split at h <;> cases h
    refine ⟨le_rfl, hupdate fun c hc => .inl ?_⟩
    cases hc
    rfl
  | update w =>
    simp only [step] at h
    split at h <;> cases h
    next now i ids claimed hw =>
      refine ⟨le_rfl, hupdate fun c hc => .inr ⟨_, hw, ?_⟩⟩
      cases hc
      rfl
  | load w =>
    simp only [step] at h
    split at h <;> cases h
    exact ⟨le_rfl, hupdate fun c hc => by cases hc⟩
  | other a =>
    obtain ⟨hbase, -, hsame | ⟨w, -, hcrash⟩⟩ := step_other h
    · rw [hsame]
      exact ⟨now_le_step hbase, fun v c hc => .inr ⟨c, hc, rfl⟩⟩
    · rw [hcrash]
      exact ⟨now_le_step hbase, hupdate fun c hc => by cases hc⟩

/-- A step that does not take the job leaves its row, and brings no job ahead of it. -/
theorem behind_step {a : Step} (h : Due since id job s) (hnot : id ∉ taken s a) (hstep : step s a = some t) :
    t.base.jobs[id]? = some job ∧ Behind since job.availableAt s.base.jobs t.base.jobs := by
  have hlater : job.availableAt < s.base.now := h.past.trans_le h.now
  cases a with
  | select w limit =>
    simp only [step] at hstep
    split at hstep <;> cases hstep
    exact ⟨h.row, .refl _⟩
  | update w =>
    simp only [step] at hstep
    split at hstep <;> cases hstep
    next now i ids claimed hw =>
      have hsince := h.claims w _ hw
      rcases claimOne_cases s.base.jobs i w now with ⟨job', hjob', hclaimable, he⟩ | he
      · have hne : i ≠ id := by
          rintro rfl
          exact hnot (by simp [taken, hw, he])
        simp only [he]
        exact ⟨(Table.get_update_of_ne _ _ hne).trans h.row,
          behind_update fun _ _ => stillWaits_of_not (not_waits_claim hsince)⟩
      · simp only [he]
        exact ⟨h.row, .refl _⟩
  | load w =>
    simp only [step] at hstep
    split at hstep <;> cases hstep
    exact ⟨h.row, .refl _⟩
  | other a =>
    obtain ⟨hbase, hclaim, -⟩ := step_other hstep
    generalize t.base = base at hbase ⊢
    cases a with
    | claimBatch w limit => exact absurd rfl (hclaim w limit)
    | startJob w =>
      simp only [Workers.step] at hbase
      split at hbase
      · obtain ⟨_, -, rfl⟩ := Option.map_eq_some_iff.mp hbase
        exact ⟨h.row, .refl _⟩
      · cases hbase
    | recordSuccess w =>
      simp only [Workers.step] at hbase
      split at hbase <;> cases hbase
      next i loaded rest hw =>
        have hne : i ≠ id := by
          rintro rfl
          exact hnot (by simp [taken, hw])
        exact ⟨(Table.get_update_of_ne _ _ hne).trans h.row, behind_update fun _ _ => stillWaits_completed loaded⟩
    | recordFailure w error isRetryable =>
      simp only [Workers.step] at hbase
      split at hbase <;> cases hbase
      next i loaded rest hw =>
        have hne : i ≠ id := by
          rintro rfl
          exact hnot (by simp [taken, hw])
        exact ⟨(Table.get_update_of_ne _ _ hne).trans h.row,
          behind_update fun _ _ => stillWaits_of_not (not_waits_markFailed hlater)⟩
    | crash w =>
      cases hbase
      exact ⟨h.row, .refl _⟩
    | enqueue jobType aggregateId reason =>
      cases hbase
      refine ⟨Table.get_insert_of_some _ h.row, fun i job' hjob' hwaits => ?_⟩
      rw [Table.get_insert] at hjob'
      split_ifs at hjob'
      · rw [← Option.some.inj hjob', not_waits_of_late (by exact hlater)] at hwaits
        cases hwaits
      · exact Behind.refl _ i job' hjob' hwaits
    | requeue i =>
      simp only [Workers.step] at hbase
      split_ifs at hbase with hfailed
      cases hbase
      have hne : i ≠ id := by
        rintro rfl
        rw [h.row, Option.any_some, decide_eq_true_eq] at hfailed
        have hclaimable := h.claimable
        simp [Job.claimable_iff, hfailed] at hclaimable
      exact ⟨(Table.get_update_of_ne _ _ hne).trans h.row,
        behind_update fun _ _ => stillWaits_of_not (not_waits_of_late (by exact hlater))⟩
    | tick n =>
      cases hbase
      exact ⟨h.row, .refl _⟩

theorem due_step {a : Step} (h : Due since id job s) (hnot : id ∉ taken s a) (hstep : step s a = some t) :
    Due since id job t := by
  obtain ⟨hnow, hclaims⟩ := clock_step hstep
  refine ⟨(behind_step h hnot hstep).1, claimable_later h.claimable hnow, h.past, h.now.trans hnow, fun w c hc => ?_⟩
  obtain hnew | ⟨c', hc', hold⟩ := hclaims w c hc
  · exact hnew ▸ h.now
  · exact hold ▸ h.claims w c' hc'

/-! ### Rounds -/

theorem now_le_run {as : List Step} (h : Machine.run step s as = some t) : s.base.now ≤ t.base.now :=
  Machine.invariant_run (I := fun x => s.base.now ≤ x.base.now)
    (fun _ _ _ hle hstep => hle.trans (clock_step hstep).1) h le_rfl

theorem behind_run {as : List Step} (h : Due since id job s) (hnot : id ∉ Machine.log step taken s as)
    (hrun : Machine.run step s as = some u) :
    Due since id job u ∧ Behind since job.availableAt s.base.jobs u.base.jobs := by
  induction as generalizing s with
  | nil =>
    cases hrun
    exact ⟨h, .refl _⟩
  | cons a as ih =>
    obtain ⟨t, ht, hrest⟩ := Machine.run_cons_eq_some.mp hrun
    rw [Machine.log_cons ht, List.mem_append, not_or] at hnot
    obtain ⟨hend, hbehind⟩ := ih (due_step h hnot.1 ht) hnot.2 hrest
    exact ⟨hend, (behind_step h hnot.1 ht).2.trans hbehind⟩

/-- A candidate that has been tried is not ahead any more: the update took it, or another one did. -/
theorem not_ahead_claimOne {i : JobId} {w : WorkerId} {now : ℤ} (hsince : since ≤ now)
    (hbehind : Behind since d jobs jobs')
    (hjob : ∃ job, jobs[i]? = some job ∧ job.claimable now) : i ∉ ahead since d (claimOne jobs' i w now).1 := by
  intro hmem
  obtain ⟨job', hjob', hwaits⟩ := mem_ahead.mp hmem
  rcases claimOne_cases jobs' i w now with ⟨job₁, hjob₁, -, he⟩ | he
  · rw [he, Table.get_update_self, hjob₁, Option.map_some, Option.some_inj] at hjob'
    rw [← hjob', not_waits_claim hsince] at hwaits
    cases hwaits
  · -- it was claimable when it was selected, so it would still be so
    rw [he] at hjob'
    obtain ⟨job₀, hjob₀, hclaimable⟩ := hjob
    obtain ⟨job₁, hjob₁, hstill⟩ := hbehind i job' hjob' hwaits
    obtain rfl : job₁ = job₀ := Option.some.inj (hjob₁.symm.trans hjob₀)
    have htrue : (claimOne jobs' i w now).2 = true :=
      claimOne_eq_true.mpr ⟨job', hjob', (hstill hwaits).2 now hclaimable⟩
    rw [he] at htrue
    cases htrue

/-- Worker `w` has come so far with its candidates: those it has tried wait no more. -/
structure Tried (since d : ℤ) (w : WorkerId) (now : ℤ) (ids : List JobId) (jobs : Table Job) (s : State) : Prop where
  tried : ∃ before rest claimed, ids = before ++ rest ∧ s.claiming w = some ⟨now, rest, claimed⟩ ∧
    ∀ i ∈ before, i ∉ ahead since d s.base.jobs
  behind : Behind since d jobs s.base.jobs

theorem tried_step {w : WorkerId} {now : ℤ} {ids : List JobId} {a : Step} (h : Due since id job s)
    (htried : Tried since job.availableAt w now ids jobs s)
    (hids : ∀ i ∈ ids, ∃ job, jobs[i]? = some job ∧ job.claimable now)
    (hown : a ≠ .load w ∧ a ≠ .other (.crash w)) (hnot : id ∉ taken s a) (hstep : step s a = some t) :
    Tried since job.availableAt w now ids jobs t := by
  obtain ⟨⟨before, rest, claimed, hsplit, hw, hbefore⟩, hbehind⟩ := htried
  have hnext := (behind_step h hnot hstep).2
  refine ⟨?_, hbehind.trans hnext⟩
  have hkeep : ∀ i ∈ before, i ∉ ahead since job.availableAt t.base.jobs :=
    fun i hi hmem => hbefore i hi (hnext.subset hmem)
  have hsame : t.claiming w = s.claiming w → ∃ before rest claimed, ids = before ++ rest ∧
      t.claiming w = some ⟨now, rest, claimed⟩ ∧ ∀ i ∈ before, i ∉ ahead since job.availableAt t.base.jobs :=
    fun he => ⟨before, rest, claimed, hsplit, he.trans hw, hkeep⟩
  cases a with
  | select v limit =>
    simp only [step] at hstep
    split at hstep <;> cases hstep
    next _ hv =>
      refine hsame (Function.update_of_ne ?_ _ _)
      rintro rfl
      rw [hw] at hv
      cases hv
  | load v =>
    simp only [step] at hstep
    split at hstep <;> cases hstep
    have hne : w ≠ v := fun he => hown.1 (by rw [he])
    exact hsame (Function.update_of_ne hne _ _)
  | other a =>
    obtain ⟨-, -, hclaiming | ⟨v, rfl, hcrash⟩⟩ := step_other hstep
    · exact hsame (by rw [hclaiming])
    · have hne : w ≠ v := fun he => hown.2 (by rw [he])
      exact hsame (by rw [hcrash, Function.update_of_ne hne])
  | update v =>
    simp only [step] at hstep
    split at hstep <;> cases hstep
    next now' i ids' claimed' hv =>
      by_cases hne : w = v
      · subst hne
        obtain ⟨rfl, rfl, rfl⟩ : now = now' ∧ rest = i :: ids' ∧ claimed = claimed' := by
          rw [hw] at hv
          cases hv
          exact ⟨rfl, rfl, rfl⟩
        refine ⟨before ++ [i], ids', _, by simp [hsplit], Function.update_self .., fun j hj => ?_⟩
        rcases List.mem_append.mp hj with hj | hj
        · exact hkeep j hj
        obtain rfl := List.mem_singleton.mp hj
        exact not_ahead_claimOne (h.claims w _ hw) hbehind (hids j (by simp [hsplit]))
      · exact hsame (Function.update_of_ne hne _ _)

theorem tried_run {w : WorkerId} {now : ℤ} {ids : List JobId} {as : List Step} (h : Due since id job s)
    (htried : Tried since job.availableAt w now ids jobs s)
    (hids : ∀ i ∈ ids, ∃ job, jobs[i]? = some job ∧ job.claimable now)
    (hown : ∀ a ∈ as, a ≠ .load w ∧ a ≠ .other (.crash w)) (hnot : id ∉ Machine.log step taken s as)
    (hrun : Machine.run step s as = some u) : Tried since job.availableAt w now ids jobs u := by
  induction as generalizing s with
  | nil =>
    cases hrun
    exact htried
  | cons a as ih =>
    obtain ⟨t, ht, hrest⟩ := Machine.run_cons_eq_some.mp hrun
    rw [Machine.log_cons ht, List.mem_append, not_or] at hnot
    exact ih (due_step h hnot.1 ht) (tried_step h htried hids (hown a List.mem_cons_self) hnot.1 ht)
      (fun b hb => hown b (List.mem_cons_of_mem _ hb)) hnot.2 hrest

/-- A claim that is carried through without the job sees its candidates taken, as many as it may hold and all ahead
of the job. -/
theorem ahead_claim {v : State} {w : WorkerId} {limit : ℕ} {as : List Step} (h : Due since id job s)
    (hlease : s.base.now ≤ since + lease) (hselect : step s (.select w limit) = some t)
    (hown : ∀ a ∈ as, a ≠ .load w ∧ a ≠ .other (.crash w)) (hnot : id ∉ Machine.log step taken t as)
    (hrun : Machine.run step t as = some v) (hload : step v (.load w) = some u) :
    (ahead since job.availableAt u.base.jobs).length + limit ≤ (ahead since job.availableAt s.base.jobs).length := by
  have ht := due_step h (by simp [taken]) hselect
  obtain ⟨hbase, hclaiming⟩ : t.base = s.base ∧
      t.claiming w = some ⟨s.base.now, candidates s.base.jobs s.base.now limit, []⟩ := by
    simp only [step] at hselect
    split at hselect <;> cases hselect
    exact ⟨rfl, Function.update_self ..⟩
  have hstart : Tried since job.availableAt w s.base.now (candidates s.base.jobs s.base.now limit) s.base.jobs t :=
    ⟨⟨[], _, [], rfl, hclaiming, by simp⟩, hbase ▸ .refl _⟩
  obtain ⟨⟨before, rest, claimed, hsplit, hw, hbefore⟩, hbehind⟩ :=
    tried_run ht hstart (fun _ hi => mem_candidates hi) hown hnot hrun
  obtain ⟨rfl, hjobs⟩ : rest = [] ∧ u.base.jobs = v.base.jobs := by
    simp only [step, hw] at hload
    split at hload <;> cases hload
    next hc =>
      cases hc
      exact ⟨rfl, rfl⟩
  rw [List.append_nil] at hsplit
  subst hsplit
  have hrow := (behind_run ht hnot hrun).1.row
  have hmem : id ∈ ahead since job.availableAt v.base.jobs :=
    mem_ahead.mpr ⟨job, hrow, waits_of_claimable h.claimable le_rfl hlease⟩
  obtain ⟨hlength, hearlier⟩ := candidates_full h.row h.claimable fun hi => hbefore id hi hmem
  have hold : ∀ i ∈ candidates s.base.jobs s.base.now limit, i ∈ ahead since job.availableAt s.base.jobs := by
    intro i hi
    obtain ⟨job', hjob', hclaimable⟩ := mem_candidates hi
    exact mem_ahead.mpr ⟨job', hjob', waits_of_claimable hclaimable (hearlier i hi job' hjob') hlease⟩
  have hnodup : (ahead since job.availableAt v.base.jobs ++ candidates s.base.jobs s.base.now limit).Nodup :=
    List.Nodup.append (Table.select_nodup _ _) (candidates_nodup _ _ _) fun i hi hi' => hbefore i hi' hi
  have hsubset : ahead since job.availableAt v.base.jobs ++ candidates s.base.jobs s.base.now limit ⊆
      ahead since job.availableAt s.base.jobs :=
    fun i hi => (List.mem_append.mp hi).elim (fun hi => hbehind.subset hi) (hold i)
  have hle := (hnodup.subperm hsubset).length_le
  rwa [List.length_append, hlength, ← hjobs] at hle

theorem ahead_round {r : Round} (hr : r.CarriedThrough) (h : Due since id job s)
    (hrun : Machine.run step s r.steps = some u)
    (hlease : u.base.now ≤ since + lease) (hnot : id ∉ Machine.log step taken s r.steps) :
    Due since id job u ∧
      (ahead since job.availableAt u.base.jobs).length + r.limit ≤
        (ahead since job.availableAt s.base.jobs).length := by
  refine ⟨(behind_run h hnot hrun).1, ?_⟩
  unfold Round.steps at hrun hnot
  rw [Machine.run_append] at hrun
  obtain ⟨s₁, hbefore, hrest⟩ := Option.bind_eq_some_iff.mp hrun
  rw [Machine.log_append hbefore, List.mem_append, not_or] at hnot
  obtain ⟨h₁, hbehind⟩ := behind_run h hnot.1 hbefore
  obtain ⟨t, hselect, hrest⟩ := Machine.run_cons_eq_some.mp hrest
  have hnow := (clock_step hselect).1.trans (now_le_run hrest)
  rw [Machine.run_append] at hrest
  obtain ⟨v, hv, hload⟩ := Option.bind_eq_some_iff.mp hrest
  rw [Machine.log_cons hselect, List.mem_append, not_or, Machine.log_append hv, List.mem_append, not_or] at hnot
  obtain ⟨u', hload, hu⟩ := Machine.run_cons_eq_some.mp hload
  cases hu
  have hclaim := ahead_claim h₁ (hnow.trans hlease) hselect hr hnot.2.2.1 hv hload
  have hle := ((Table.select_nodup _ _).subperm hbehind.subset).length_le
  exact hclaim.trans hle

theorem ahead_rounds {rounds : List Round} (hrounds : ∀ r ∈ rounds, r.CarriedThrough) (h : Due since id job s)
    (hrun : Machine.run step s (rounds.flatMap Round.steps) = some u) (hlease : u.base.now ≤ since + lease)
    (hnot : id ∉ Machine.log step taken s (rounds.flatMap Round.steps)) :
    Due since id job u ∧ (ahead since job.availableAt u.base.jobs).length + (rounds.map Round.limit).sum ≤
      (ahead since job.availableAt s.base.jobs).length := by
  induction rounds generalizing s with
  | nil =>
    cases hrun
    exact ⟨h, le_rfl⟩
  | cons r rounds ih =>
    rw [List.flatMap_cons, Machine.run_append] at hrun
    obtain ⟨t, ht, hrest⟩ := Option.bind_eq_some_iff.mp hrun
    rw [List.flatMap_cons, Machine.log_append ht, List.mem_append, not_or] at hnot
    obtain ⟨hdue, hround⟩ := ahead_round (hrounds r List.mem_cons_self) h ht ((now_le_run hrest).trans hlease) hnot.1
    obtain ⟨hend, hsum⟩ := ih (fun r' hr' => hrounds r' (List.mem_cons_of_mem _ hr')) hdue hrest hnot.2
    refine ⟨hend, ?_⟩
    rw [List.map_cons, List.sum_cons]
    omega

/-- A job that is due is claimed, or the end of an earlier attempt at it is recorded, as soon as claims that were
carried through one after another have had room for every job that was ahead of it: whatever else workers claim, run,
fail or die meanwhile, and whatever is queued after it, as long as that happens within one lease of the oldest claim
under way. -/
theorem taken_in_turn {rounds : List Round} (hjob : s.base.jobs[id]? = some job) (hclaimable : job.claimable s.base.now)
    (hpast : job.availableAt < since) (hsince : since ≤ s.base.now)
    (hclaims : ∀ w c, s.claiming w = some c → since ≤ c.now)
    (hrounds : ∀ r ∈ rounds, r.CarriedThrough) (hrun : Machine.run step s (rounds.flatMap Round.steps) = some u)
    (hlease : u.base.now ≤ since + lease)
    (hroom : (ahead since job.availableAt s.base.jobs).length ≤ (rounds.map Round.limit).sum) :
    id ∈ Machine.log step taken s (rounds.flatMap Round.steps) := by
  by_contra hnot
  obtain ⟨hend, hsum⟩ := ahead_rounds hrounds ⟨hjob, hclaimable, hpast, hsince, hclaims⟩ hrun hlease hnot
  have hwaits := waits_of_claimable hclaimable le_rfl ((now_le_run hrun).trans hlease)
  have hmem := List.length_pos_of_mem (mem_ahead.mpr ⟨job, hend.row, hwaits⟩)
  omega

/-- Two jobs wait. -/
def twoWait : State :=
  ⟨⟨1, [newJob .createPeer 0 none 0, newJob .enablePeer 1 none 0], fun _ => idle⟩, fun _ => none⟩

/-- Two workers select the first job and one of them gets it; the other one claims again, while a job is queued
behind the two and the first one fails. -/
def oneByOne : List Round :=
  [⟨[.select 1 1], 0, 1, [.update 0, .update 1]⟩,
    ⟨[.load 1, .other (.startJob 0)], 1, 1,
      [.other (.enqueue .disablePeer 2 none), .other (.recordFailure 0 "exit status 1" true), .update 1]⟩]

theorem taken_in_turn_oneByOne : 1 ∈ Machine.log step taken twoWait (oneByOne.flatMap Round.steps) := by
  have hdue : (newJob .enablePeer 1 none 0).availableAt < 1 := by decide
  refine taken_in_turn (u := (Machine.run step twoWait (oneByOne.flatMap Round.steps)).getD twoWait) rfl
    (by decide) hdue
    (by decide) (fun _ _ h => by cases h) ?_ rfl (by decide) (by decide)
  simp [oneByOne, Round.CarriedThrough]

end AmneziaVpnBot.Turns
