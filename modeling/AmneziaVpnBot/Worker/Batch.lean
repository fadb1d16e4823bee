import AmneziaVpnBot.Worker.Process

/-! A batch of the worker (`run_single_batch`). Its jobs share one session, and each is committed
or rolled back before the next, so a job that fails leaves nothing but its own row behind: the
batch does to the orders, the subscriptions and the audit log what its successful jobs do alone. -/

namespace AmneziaVpnBot.Worker

/-- A session: what is committed, and what it sees and has written since. -/
structure Session where
  committed : Database
  working : Database

def Session.commit (s : Session) : Session := ⟨s.working, s.working⟩

def Session.rollback (s : Session) : Session := ⟨s.committed, s.committed⟩

/-- What a job meets outside the database. -/
structure Outcome where
  readAt : ℤ
  writtenAt : ℤ
  failedAt : ℤ
  /-- The text of an error that is raised on the way, whether it may be retried, and the rows as
  the job had written them by then. -/
  raised : Option (String × Bool × Database)
  /-- Whether Telegram takes the config. -/
  delivered : Bool
  /-- The text of the error where the job's own write is refused, or its config not delivered. -/
  refusal : String

/-- `_process_job`: what it raises, if anything, and the rows as it leaves them. -/
def processJob (db : Database) (job : Job) (o : Outcome) : Option (String × Bool) × Database :=
  match read db job o.readAt with
  | .fail error => (some (error, false), db)
  | .skip => (none, db)
  | .go work => match o.raised with
    | some (error, isRetryable, written) => (some (error, isRetryable), written)
    | none => match write db job.jobType job.aggregateId work o.delivered o.writtenAt with
      | some db' => (none, db')
      | none => (some (o.refusal, true), db)

/-- One job of the batch; messages to the admin that fail are only logged. -/
def runJob (o : Outcome) (s : Session) (id : JobId) : Session :=
  match s.working.jobs[id]? with
  | none => s
  | some job => match processJob s.working job o with
    | (none, db) => Session.commit ⟨s.committed, { db with jobs := db.jobs.update id Job.markCompleted }⟩
    | (some (error, isRetryable), db) =>
      let s := Session.rollback ⟨s.committed, db⟩
      Session.commit { s with working := { s.working with
        jobs := s.working.jobs.update id (Job.markFailed error isRetryable o.failedAt) } }

/-- The claim is committed first, then the jobs come one by one. -/
def runSingleBatch (outcomes : JobId → Outcome) (db : Database) (ids : List JobId) : Database :=
  (ids.foldl (fun s id => runJob (outcomes id) s id) ⟨db, db⟩).committed

/-- The database with the batch claimed. -/
def claimBatch (db : Database) (worker : WorkerId) (now : ℤ) (limit : ℕ) : Database :=
  { db with jobs := (claimPendingJobs db.jobs worker now limit).1 }

def succeeded (db : Database) (id : JobId) : Bool := (db.jobs[id]?).any fun job => job.status = .succeeded

/-- The databases hold the same but for their jobs. -/
structure SameRows (db db' : Database) : Prop where
  users : db'.users = db.users
  servers : db'.servers = db.servers
  products : db'.products = db.products
  orders : db'.orders = db.orders
  subscriptions : db'.subscriptions = db.subscriptions
  audit : db'.audit = db.audit
  notifications : db'.notifications = db.notifications

/-- How a batch ends that began as `start`. -/
structure Isolated (outcomes : JobId → Outcome) (start : Database) (ids : List JobId) (done : Database) : Prop where
  ended : ∀ id ∈ ids, ∃ job, done.jobs[id]? = some job ∧
    (job.status = .succeeded ∨ job.status = .retryableFailure ∨ job.status = .permanentFailure)
  /-- The successful jobs alone leave the same rows, and succeed as well. -/
  alone : SameRows done (runSingleBatch outcomes start (ids.filter (succeeded done)))
  succeed : ∀ id ∈ ids.filter (succeeded done),
    succeeded (runSingleBatch outcomes start (ids.filter (succeeded done))) id = true
  /-- A job that fails changes only its row. -/
  own : ∀ pre id post, ids = pre ++ id :: post → succeeded done id = false →
    ∃ f, runSingleBatch outcomes start (pre ++ [id]) =
      { runSingleBatch outcomes start pre with jobs := (runSingleBatch outcomes start pre).jobs.update id f }
  others : ∀ i ∉ ids, done.jobs[i]? = start.jobs[i]?

/-! ### One job -/

variable {db db' : Database} {job : Job} {o : Outcome} {outcomes : JobId → Outcome} {id : JobId} {ids : List JobId}

theorem SameRows.refl (db : Database) : SameRows db db := ⟨rfl, rfl, rfl, rfl, rfl, rfl, rfl⟩

theorem SameRows.read_eq (h : SameRows db db') (now : ℤ) : read db' job now = read db job now := by
  rw [read, read, h.subscriptions]
  cases db.subscriptions[job.aggregateId]? with
  | none => rfl
  | some sub =>
    simp only [readSubscription, goOn, lookupServer, h.servers, h.users, h.orders]

theorem SameRows.write_eq (h : SameRows db db') (jobType : JobType) (i : SubscriptionId) (work : Work)
    (delivered : Bool)
    (now : ℤ) : (write db' jobType i work delivered now = none ↔ write db jobType i work delivered now = none) ∧
      ∀ d d', write db jobType i work delivered now = some d → write db' jobType i work delivered now = some d' →
      SameRows d d' := by
  cases jobType with
  | createPeer =>
    simp only [write, h.subscriptions]
    split_ifs
    · simp
    · simp only [Option.some.injEq, true_and]
      rintro d d' rfl rfl
      exact ⟨h.users, h.servers,
        h.products, by simp [writeSubscription, h.orders], by simp [writeSubscription, h.subscriptions], by
        simp [writeSubscription, h.audit], h.notifications⟩
  | disablePeer | removePeer =>
    simp only [write, reduceCtorEq, Option.some.injEq, true_and]
    rintro d d' rfl rfl
    exact ⟨h.users, h.servers, h.products, h.orders, by simp [writeSubscription, h.subscriptions],
      by simp [writeSubscription, h.audit], h.notifications⟩
  | enablePeer =>
    simp only [write, reduceCtorEq, Option.some.injEq, true_and]
    rintro d d' rfl rfl
    exact ⟨h.users, h.servers, h.products, h.orders, h.subscriptions, by simp [h.audit], h.notifications⟩
  | redeliverConfig =>
    simp only [write]
    split_ifs
    · simp only [Option.some.injEq, true_and]
      rintro d d' rfl rfl
      exact ⟨h.users, h.servers, h.products, h.orders, by simp [h.subscriptions], h.audit, h.notifications⟩
    · simp

/-- A job's success and its rows do not depend on the other jobs. -/
theorem SameRows.processJob (h : SameRows db db') (job : Job) (o : Outcome) :
    ((Worker.processJob db' job o).1 = none ↔ (Worker.processJob db job o).1 = none) ∧
      ((Worker.processJob db job o).1 = none →
        SameRows (Worker.processJob db job o).2 (Worker.processJob db' job o).2) := by
  unfold Worker.processJob
  rw [h.read_eq]
  cases read db job o.readAt with
  | fail error => simp
  | skip => exact ⟨Iff.rfl, fun _ => h⟩
  | go work =>
    cases o.raised with
    | some raised => simp
    | none =>
      dsimp only
      obtain ⟨hnone, hsome⟩ := h.write_eq job.jobType job.aggregateId work o.delivered o.writtenAt
      cases hw : write db job.jobType job.aggregateId work o.delivered o.writtenAt with
      | none => simp [hnone.mpr hw]
      | some d =>
        cases hw' : write db' job.jobType job.aggregateId work o.delivered o.writtenAt with
        | none => simp [hnone.mp hw'] at hw
        | some d' => exact ⟨Iff.rfl, fun _ => hsome d d' hw hw'⟩

theorem processJob_jobs (h : (processJob db job o).1 = none) : (processJob db job o).2.jobs = db.jobs := by
  unfold processJob at h ⊢
  cases hread : read db job o.readAt with
  | fail error => simp [hread] at h
  | skip => rfl
  | go work =>
    cases hraised : o.raised with
    | some raised => simp [hread, hraised] at h
    | none =>
      cases hw : write db job.jobType job.aggregateId work o.delivered o.writtenAt with
      | none => simp [hread, hraised, hw] at h
      | some d =>
        dsimp only
        rw [hw]
        exact (write_eq_some hw).2.1

/-! ### One job of a session -/

/-- What a job leaves in the database. -/
def runOne (o : Outcome) (db : Database) (id : JobId) : Database :=
  match db.jobs[id]? with
  | none => db
  | some job => match processJob db job o with
    | (none, db') => { db' with jobs := db'.jobs.update id Job.markCompleted }
    | (some (error, isRetryable), _) =>
      { db with jobs := db.jobs.update id (Job.markFailed error isRetryable o.failedAt) }

/-- The rollback drops what the job has written: the next job begins with what is committed. -/
theorem runJob_eq (o : Outcome) (db : Database) (id : JobId) :
    runJob o ⟨db, db⟩ id = ⟨runOne o db id, runOne o db id⟩ := by
  unfold runJob runOne
  cases db.jobs[id]? with
  | none => rfl
  | some job =>
    dsimp only
    rcases processJob db job o with ⟨_ | ⟨error, isRetryable⟩, db'⟩ <;> rfl

theorem runSingleBatch_eq (outcomes : JobId → Outcome) (db : Database) (ids : List JobId) :
    runSingleBatch outcomes db ids = ids.foldl (fun d id => runOne (outcomes id) d id) db := by
  have hfold : ∀ (ids : List JobId) (db : Database), ids.foldl (fun s id => runJob (outcomes id) s id) ⟨db, db⟩ =
      ⟨ids.foldl (fun d id => runOne (outcomes id) d id) db, ids.foldl (fun d id => runOne (outcomes id) d id) db⟩ := by
    intro ids
    induction ids with
    | nil => exact fun _ => rfl
    | cons id ids ih =>
      intro db
      rw [List.foldl_cons, List.foldl_cons, runJob_eq]
      exact ih _
  rw [runSingleBatch, hfold]

/-- The job succeeds as the database is. -/
def succeeds (o : Outcome) (db : Database) (id : JobId) : Bool :=
  (db.jobs[id]?).any fun job => (processJob db job o).1.isNone

/-- A job either succeeds and marks its row, or changes only its row. -/
theorem runOne_cases (o : Outcome) (hjob : db.jobs[id]? = some job) :
    ((processJob db job o).1 = none ∧ succeeds o db id = true ∧
        runOne o db id = { (processJob db job o).2 with jobs := db.jobs.update id Job.markCompleted }) ∨
      succeeds o db id = false ∧ ∃ error isRetryable,
        runOne o db id = { db with jobs := db.jobs.update id (Job.markFailed error isRetryable o.failedAt) } := by
  rw [succeeds, runOne, hjob, Option.any_some]
  dsimp only
  rcases hp : processJob db job o with ⟨_ | ⟨error, isRetryable⟩, db'⟩
  · have hnone : (processJob db job o).1 = none := by rw [hp]
    have hjobs : db'.jobs = db.jobs := by simpa [hp] using processJob_jobs hnone
    exact .inl ⟨rfl, rfl, by dsimp only; rw [hjobs]⟩
  · exact .inr ⟨rfl, error, isRetryable, rfl⟩

theorem runOne_other (o : Outcome) {i : JobId} (hne : i ≠ id) : (runOne o db id).jobs[i]? = db.jobs[i]? := by
  cases hjob : db.jobs[id]? with
  | none => rw [runOne, hjob]
  | some job =>
    rcases runOne_cases o hjob with ⟨-, -, h⟩ | ⟨-, error, isRetryable, h⟩ <;>
      exact h ▸ Table.get_update_of_ne _ _ (Ne.symm hne)

theorem runOne_own (o : Outcome) (hjob : db.jobs[id]? = some job) :
    ∃ job', (runOne o db id).jobs[id]? = some job' ∧
      (job'.status = .succeeded ∨ job'.status = .retryableFailure ∨ job'.status = .permanentFailure) ∧
      (job'.status = .succeeded ↔ succeeds o db id = true) := by
  rcases runOne_cases o hjob with ⟨-, hs, h⟩ | ⟨hs, error, isRetryable, h⟩
  · refine ⟨job.markCompleted, ?_, .inl rfl, by simp [hs]⟩
    rw [h, Table.get_update_self, hjob]
    rfl
  · refine ⟨job.markFailed error isRetryable o.failedAt, ?_, ?_, ?_⟩
    · rw [h, Table.get_update_self, hjob]
      rfl
    · exact .inr (Job.markFailed_status error isRetryable o.failedAt job)
    · rw [hs]
      rcases Job.markFailed_status error isRetryable o.failedAt job with h | h <;> simp [h]

/-! ### A batch -/

theorem foldl_other {i : JobId} (hi : i ∉ ids) :
    (ids.foldl (fun d id => runOne (outcomes id) d id) db).jobs[i]? = db.jobs[i]? := by
  induction ids generalizing db with
  | nil => rfl
  | cons id ids ih =>
    obtain ⟨hne, hi⟩ := not_or.mp (List.mem_cons.not.mp hi)
    rw [List.foldl_cons, ih hi, runOne_other _ hne]

theorem foldl_own (hnodup : ids.Nodup) (hrows : ∀ i ∈ ids, ∃ job, db.jobs[i]? = some job) {i : JobId} (hi : i ∈ ids) :
    ∃ job, (ids.foldl (fun d id => runOne (outcomes id) d id) db).jobs[i]? = some job ∧
      (job.status = .succeeded ∨ job.status = .retryableFailure ∨ job.status = .permanentFailure) := by
  induction ids generalizing db with
  | nil => cases hi
  | cons id ids ih =>
    obtain ⟨hid, hnodup⟩ := List.nodup_cons.mp hnodup
    rw [List.foldl_cons]
    rcases List.mem_cons.mp hi with rfl | hi
    · obtain ⟨job, hjob⟩ := hrows i List.mem_cons_self
      obtain ⟨job', hjob', hended, -⟩ := runOne_own (outcomes i) hjob
      exact ⟨job', by rw [foldl_other hid, hjob'], hended⟩
    · refine ih hnodup (fun j hj => ?_) hi
      rw [runOne_other _ (ne_of_mem_of_not_mem hj hid)]
      exact hrows j (List.mem_cons_of_mem _ hj)

theorem succeeded_foldl (hid : id ∉ ids) {job : Job} (hjob : db.jobs[id]? = some job) :
    succeeded (ids.foldl (fun d id => runOne (outcomes id) d id) (runOne (outcomes id) db id)) id =
      succeeds (outcomes id) db id := by
  obtain ⟨job', hjob', -, hiff⟩ := runOne_own (outcomes id) hjob
  rw [succeeded, foldl_other hid, hjob', Option.any_some, Bool.eq_iff_iff, decide_eq_true_eq]
  exact hiff

/-- The successful jobs of a batch, run alone on the same rows. -/
theorem foldl_alone {db' : Database} (hnodup : ids.Nodup) (hrows : ∀ i ∈ ids, ∃ job, db.jobs[i]? = some job)
    (hsame : SameRows db db') (hjobs : ∀ i ∈ ids, db'.jobs[i]? = db.jobs[i]?) {good : List JobId}
    (hgood : good = ids.filter (succeeded (ids.foldl (fun d id => runOne (outcomes id) d id) db))) :
    SameRows (ids.foldl (fun d id => runOne (outcomes id) d id) db)
      (good.foldl (fun d id => runOne (outcomes id) d id) db') ∧
      ∀ id ∈ good, succeeded (good.foldl (fun d id => runOne (outcomes id) d id) db') id = true := by
  induction ids generalizing db db' good with
  | nil => exact ⟨by rw [hgood]; exact hsame, by simp [hgood]⟩
  | cons id ids ih =>
    obtain ⟨hid, hnodup⟩ := List.nodup_cons.mp hnodup
    obtain ⟨job, hjob⟩ := hrows id List.mem_cons_self
    have hjob' : db'.jobs[id]? = some job := by rw [hjobs id List.mem_cons_self, hjob]
    have hrest : ∀ i ∈ ids, ∃ job, (runOne (outcomes id) db id).jobs[i]? = some job := by
      intro i hi
      rw [runOne_other _ (ne_of_mem_of_not_mem hi hid)]
      exact hrows i (List.mem_cons_of_mem _ hi)
    rw [List.foldl_cons] at hgood ⊢
    rw [List.filter_cons, succeeded_foldl hid hjob] at hgood
    obtain ⟨hiff, hrun⟩ := hsame.processJob job (outcomes id)
    rcases runOne_cases (outcomes id) hjob with ⟨hnone, hs, h⟩ | ⟨hs, error, isRetryable, h⟩
    · -- it succeeds on the other database as well, and leaves the same rows there
      rw [hs, if_pos rfl] at hgood
      obtain ⟨-, hs', h'⟩ | ⟨hs', -⟩ := runOne_cases (outcomes id) hjob'
      · have hsame' : SameRows (runOne (outcomes id) db id) (runOne (outcomes id) db' id) := by
          have := hrun hnone
          rw [h, h']
          exact ⟨this.users, this.servers, this.products, this.orders, this.subscriptions, this.audit,
            this.notifications⟩
        obtain ⟨hrows', hgoods⟩ := ih hnodup hrest hsame' (fun i hi => by
          rw [runOne_other _ (ne_of_mem_of_not_mem hi hid), runOne_other _ (ne_of_mem_of_not_mem hi hid),
            hjobs i (List.mem_cons_of_mem _ hi)]) rfl
        rw [hgood, List.foldl_cons]
        refine ⟨hrows', fun i hi => ?_⟩
        rcases List.mem_cons.mp hi with rfl | hi
        · rw [succeeded_foldl (fun h => hid (List.mem_of_mem_filter h)) hjob', hs']
        · exact hgoods i hi
      · rw [succeeds, hjob', Option.any_some, Option.isNone_eq_false_iff, Option.isSome_iff_ne_none, Ne, hiff] at hs'
        exact absurd hnone hs'
    · -- it changes its row alone
      rw [hs, if_neg (by simp)] at hgood
      have hsame' : SameRows (runOne (outcomes id) db id) db' := by
        rw [h]
        exact ⟨hsame.users, hsame.servers, hsame.products, hsame.orders, hsame.subscriptions, hsame.audit,
          hsame.notifications⟩
      exact ih hnodup hrest hsame' (fun i hi => by
        rw [runOne_other _ (ne_of_mem_of_not_mem hi hid), hjobs i (List.mem_cons_of_mem _ hi)]) hgood

/-- A batch of claimed jobs, in whatever order they are loaded, with any outcomes. -/
theorem runSingleBatch_isolated (db : Database) (worker : WorkerId) (now : ℤ) (limit : ℕ) (outcomes : JobId → Outcome)
    {ids : List JobId} (hids : ids.Perm (claimPendingJobs db.jobs worker now limit).2) :
    Isolated outcomes (claimBatch db worker now limit) ids
      (runSingleBatch outcomes (claimBatch db worker now limit) ids) := by
  have hcandidates := candidates_nodup db.jobs now limit
  have hnodup : ids.Nodup := hids.nodup_iff.mpr ((claimEach_sublist worker now _ _).nodup hcandidates)
  have hrows : ∀ i ∈ ids, ∃ job, (claimBatch db worker now limit).jobs[i]? = some job := by
    intro i hi
    obtain ⟨hnot, -⟩ | ⟨job, -, -, -, hrow⟩ := claimEach_row worker now hcandidates db.jobs i
    · exact absurd (hids.mem_iff.mp hi) hnot
    · exact ⟨_, hrow⟩
  rw [runSingleBatch_eq]
  obtain ⟨halone, hsucceed⟩ := foldl_alone hnodup hrows (SameRows.refl _) (fun _ _ => rfl) rfl
  refine ⟨fun i hi => foldl_own hnodup hrows hi, ?_, ?_, ?_, fun i hi => foldl_other hi⟩
  · rw [runSingleBatch_eq]
    exact halone
  · rw [runSingleBatch_eq]
    exact hsucceed
  · rintro pre id post rfl hfailed
    obtain ⟨-, hnodup, hdisjoint⟩ := List.nodup_append.mp hnodup
    obtain ⟨hid, -⟩ := List.nodup_cons.mp hnodup
    have hpre : id ∉ pre := fun h => hdisjoint id h id List.mem_cons_self rfl
    obtain ⟨job, hjob⟩ := hrows id (by simp)
    rw [runSingleBatch_eq, runSingleBatch_eq, List.foldl_append, List.foldl_cons, List.foldl_nil]
    rw [← foldl_other hpre] at hjob
    rw [List.foldl_append, List.foldl_cons, succeeded_foldl hid hjob] at hfailed
    rcases runOne_cases (outcomes id) hjob with ⟨-, hs, -⟩ | ⟨-, error, isRetryable, h⟩
    · rw [hs] at hfailed
      cases hfailed
    · exact ⟨_, h⟩

/-- A new subscription and one that has run out, each with a job that is due. -/
def twoJobs : Database where
  users := [⟨42⟩]
  servers := [⟨"de-1"⟩]
  products := [⟨30⟩]
  orders := [⟨0, 0, 0, none, .provisioning, none, none, some 7, some 0, none⟩,
    ⟨0, 0, 0, none, .fulfilled, none, none, some 7, some 0, none⟩]
  subscriptions := [⟨0, 0, 0, 0, 1, .provisioning, none, none, .pending, 0, 0, 1, none, none⟩,
    ⟨0, 1, 0, 0, 2, .active, some ⟨42, 2, "de-1"⟩, some ⟨42, 2, "de-1"⟩, .delivered, 0, 0, 0, none, none⟩]
  jobs := [newJob .createPeer 0 none 0, newJob .disablePeer 1 (some .subscriptionExpired) 0]
  audit := []
  notifications := []

/-- The create job raises when it has marked its subscription active, and the disable job succeeds. -/
def halfWay (id : JobId) : Outcome where
  readAt := 1
  writtenAt := 1
  failedAt := 1
  raised := if id = 0 then
      some ("Telegram is down", true,
        { twoJobs with subscriptions := twoJobs.subscriptions.update 0 (·.markActive ⟨42, 1, "de-1"⟩) })
    else none
  delivered := true
  refusal := ""

theorem runSingleBatch_isolated_twoJobs :
    Isolated halfWay (claimBatch twoJobs 0 1 10) [0, 1] (runSingleBatch halfWay (claimBatch twoJobs 0 1 10) [0, 1]) ∧
      [0, 1].filter (succeeded (runSingleBatch halfWay (claimBatch twoJobs 0 1 10) [0, 1])) = [1] ∧
      (runSingleBatch halfWay (claimBatch twoJobs 0 1 10) [0, 1]).subscriptions.map Subscription.status =
        [.provisioning, .disabled] :=
  ⟨runSingleBatch_isolated twoJobs 0 1 10 _ (by decide), by decide, by decide⟩

end AmneziaVpnBot.Worker
