import AmneziaVpnBot.Lifecycle.Invariant

/-! The open jobs of a subscription. The scheduler and the admins look for an open job of
the same type before they queue one, and the worker only ever closes jobs; so there is at
most one, and right after a pass of the scheduler none is missing. -/

namespace AmneziaVpnBot.Lifecycle

/-- The subscription's jobs of that type that are pending, processing or retrying. -/
def openJobs (jobs : Table Job) (jobType : JobType) (i : SubscriptionId) : List JobId :=
  jobs.select fun job => job.jobType = jobType && job.aggregateId = i && job.isOpen

/-- A step of the bot, or the press of the button that retries every failed job it lists. -/
inductive Action
  | one (a : Step)
  | retryAll (ids : List JobId) (admin : TelegramId)

def act (settings : Settings) (s : State) : Action → Option State
  | .one a => step settings s a
  | .retryAll ids admin => some { s with db := callbackRetry s.db ids admin s.now }

/-- Two open disable jobs for one subscription are one job, and so are two open remove jobs. -/
def OneOpen (jobs : Table Job) : Prop :=
  ∀ (i j : JobId) (a b : Job), jobs[i]? = some a → jobs[j]? = some b → a.isOpen → b.isOpen → a.jobType = b.jobType →
    a.jobType = .disablePeer ∨ a.jobType = .removePeer → a.aggregateId = b.aggregateId → i = j

theorem hasOpenJob_iff {jobs : Table Job} {jobType : JobType} {i : SubscriptionId} :
    hasOpenJob jobs jobType i = true ↔ ∃ (id : JobId) (job : Job), jobs[id]? = some job ∧ job.jobType = jobType ∧
      job.aggregateId = i ∧ job.isOpen := by
  simp only [hasOpenJob, List.any_eq_true, List.mem_iff_getElem?, Bool.and_eq_true, decide_eq_true_eq, and_assoc]
  constructor
  · rintro ⟨job, ⟨id, hjob⟩, h⟩
    exact ⟨id, job, hjob, h⟩
  · rintro ⟨id, job, hjob, h⟩
    exact ⟨job, ⟨id, hjob⟩, h⟩

theorem mem_openJobs {jobs : Table Job} {jobType : JobType} {i : SubscriptionId} {id : JobId} :
    id ∈ openJobs jobs jobType i ↔
      ∃ job : Job, jobs[id]? = some job ∧ job.jobType = jobType ∧ job.aggregateId = i ∧ job.isOpen := by
  simp [openJobs, Table.mem_select, and_assoc]

/-! ### The primitive changes -/

/-- A row of the changed table is open because it was, but for one row, of which no open
job was known. -/
theorem OneOpen.change {jobs jobs' : Table Job} (h : OneOpen jobs) (k : JobId)
    (hrow : ∀ (j : JobId) (b : Job), jobs'[j]? = some b → b.isOpen →
      b.jobType = .disablePeer ∨ b.jobType = .removePeer →
      (∃ a, jobs[j]? = some a ∧ a.isOpen ∧ a.jobType = b.jobType ∧ a.aggregateId = b.aggregateId) ∨
        j = k ∧ hasOpenJob jobs b.jobType b.aggregateId = false) :
    OneOpen jobs' := by
  intro i j a b hi hj ha hb htype hoff hagg
  have hno : ∀ (l : JobId) (c : Job), jobs[l]? = some c → c.isOpen →
    hasOpenJob jobs c.jobType c.aggregateId ≠ false := by
    intro l c hl hc
    rw [ne_eq, Bool.not_eq_false, hasOpenJob_iff]
    exact ⟨l, c, hl, rfl, rfl, hc⟩
  rcases hrow i a hi ha hoff with ⟨a', ha', hao, hat, hag⟩ | ⟨rfl, hna⟩
  · rcases hrow j b hj hb (htype ▸ hoff) with ⟨b', hb', hbo, hbt, hbg⟩ | ⟨rfl, hnb⟩
    · exact h i j a' b' ha' hb' hao hbo (by rw [hat, htype, hbt]) (hat ▸ hoff) (by rw [hag, hagg, hbg])
    · rw [← htype, ← hagg, ← hat, ← hag] at hnb
      exact absurd hnb (hno i a' ha' hao)
  · rcases hrow j b hj hb (htype ▸ hoff) with ⟨b', hb', hbo, hbt, hbg⟩ | ⟨rfl, -⟩
    · rw [htype, hagg, ← hbt, ← hbg] at hna
      exact absurd hna (hno j b' hb' hbo)
    · rfl

theorem OneOpen.insert {jobs : Table Job} (h : OneOpen jobs) {job : Job}
    (hfree : job.jobType = .disablePeer ∨ job.jobType = .removePeer →
      hasOpenJob jobs job.jobType job.aggregateId = false) : OneOpen (jobs.insert job) := by
  refine h.change jobs.fresh fun j b hj hb hoff => ?_
  rw [Table.get_insert] at hj
  split_ifs at hj with hjn
  · cases hj
    exact .inr ⟨hjn, hfree hoff⟩
  · exact .inl ⟨b, hj, hb, rfl, rfl⟩

/-- Jobs whose rows change without being reopened. -/
theorem OneOpen.rows {jobs jobs' : Table Job} (h : OneOpen jobs)
    (hrow : ∀ (j : JobId) (b : Job), jobs'[j]? = some b →
      ∃ a, jobs[j]? = some a ∧ SameJob a b ∧ (b.isOpen → a.isOpen)) : OneOpen jobs' := by
  refine h.change 0 fun j b hj hb _ => ?_
  obtain ⟨a, ha, hsame, hopen⟩ := hrow j b hj
  exact .inl ⟨a, ha, hopen hb, hsame.jobType.symm, hsame.aggregateId.symm⟩

theorem OneOpen.update {jobs : Table Job} (h : OneOpen jobs) {id : JobId} {job : Job} {f : Job → Job}
    (hjob : jobs[id]? = some job) (hsame : SameJob job (f job)) (hopen : (f job).isOpen → job.isOpen) :
    OneOpen (jobs.update id f) := by
  refine h.rows fun j b hj => ?_
  rw [Table.get_update] at hj
  split_ifs at hj with hij
  · subst hij
    rw [hjob] at hj
    cases hj
    exact ⟨job, hjob, hsame, hopen⟩
  · exact ⟨b, hj, ⟨rfl, rfl, rfl, fun h => h⟩, fun h => h⟩

theorem OneOpen.requeue {jobs : Table Job} (h : OneOpen jobs) {id : JobId} {job : Job} {now : ℤ}
    (hjob : jobs[id]? = some job) (hfree : hasOpenJob jobs job.jobType job.aggregateId = false) :
    OneOpen (jobs.update id (Job.requeue now)) := by
  refine h.change id fun j b hj hb _ => ?_
  rw [Table.get_update] at hj
  split_ifs at hj with hij
  · subst hij
    rw [hjob] at hj
    cases hj
    exact .inr ⟨rfl, hfree⟩
  · exact .inl ⟨b, hj, hb, rfl, rfl⟩

theorem hasOpenJob_of_retryBlocker {db : Database} {job : Job} {now : ℤ} (h : retryBlocker db job now = none) :
    hasOpenJob db.jobs job.jobType job.aggregateId = false := by
  unfold retryBlocker at h
  split_ifs at h with hopen
  simpa using hopen

/-! ### Steps and runs -/

theorem OneOpen.txn {settings : Settings} {now : ℤ} {C : SubscriptionId → Prop} {db db' : Database}
    (h : OneOpen db.jobs) (htxn : Txn settings now C db db') : OneOpen db'.jobs := by
  cases htxn with
  | other hv hs hj => rwa [hj]
  | enqueue hv hs hj hsub htype hfits hfree hdue =>
    rw [hj]
    exact h.insert hfree
  | requeue hv hs hj hjob hfailed hsafe =>
    rw [hj]
    exact h.requeue hjob (hasOpenJob_of_retryBlocker hsafe)
  | credit reason hv hs hj =>
    rw [hj]
    split_ifs
    · exact h
    · exact h.insert (by simp [newJob])
  | debit hv hs hj => rwa [hj]
  | create hv hs hj =>
    rw [hj]
    exact h.insert (by simp [newJob])

theorem OneOpen.pass {settings : Settings} {now : ℤ} {db db' : Database} (h : OneOpen db.jobs)
    (hpass : Pass settings now db db') : OneOpen db'.jobs := by
  induction hpass with
  | refl => exact h
  | tail _ htxn ih => exact ih.txn htxn

theorem OneOpen.claim {jobs : Table Job} (h : OneOpen jobs) (w : WorkerId) (now : ℤ) (limit : ℕ) :
    OneOpen (claimPendingJobs jobs w now limit).1 := by
  refine h.rows fun j b hj => ?_
  rcases claimEach_row w now (candidates_nodup jobs now limit) jobs j with ⟨-, hget⟩ | ⟨job, hjob, hc, -, hget⟩
  · exact ⟨b, hget.symm.trans hj, ⟨rfl, rfl, rfl, fun h => h⟩, fun h => h⟩
  · obtain rfl : job.claim w now = b := Option.some.inj (hget.symm.trans hj)
    refine ⟨job, hjob, .claim w hc, fun _ => ?_⟩
    rcases (Job.claimable_iff.mp hc).1 with hs | hs | ⟨hs, -⟩ <;> simp [Job.isOpen, hs]

theorem OneOpen.written {s : State} {delivered : Bool} {id : JobId} {job : Job} {db : Database} (h : OneOpen s.db.jobs)
    (hhand : InHand s.db s.batch id job) (hw : Written s delivered id job db) : OneOpen db.jobs := by
  have hopen : job.isOpen := by simp [Job.isOpen, hhand.2.1]
  cases hw with
  | skipped => exact h.update hhand.1 (.markCompleted job) fun _ => hopen
  | done hphase hload hserved hdb =>
    obtain ⟨-, hjobs, -⟩ := Worker.write_eq_some hdb
    show OneOpen (Table.update _ id Job.markCompleted)
    rw [hjobs]
    exact h.update hhand.1 (.markCompleted job) fun _ => hopen
  | failed error isRetryable =>
    exact h.update hhand.1 (.markFailed error isRetryable s.now (by simp [hhand.2.1])) fun _ => hopen

theorem oneOpen_step {settings : Settings} {s t : State} {a : Step} (hwf : Wf s) (h : OneOpen s.db.jobs)
    (hstep : step settings s a = some t) : OneOpen t.db.jobs := by
  cases ha : a.isWorker with
  | false =>
    obtain ⟨db, rfl, htxn | hpass⟩ := step_txn hwf.consistent ha hstep
    · exact h.txn htxn
    · exact h.pass hpass
  | true =>
    cases a with
    | claim limit =>
      simp only [step] at hstep
      split at hstep <;> cases hstep
      exact h.claim worker s.now limit
    | read =>
      simp only [step] at hstep
      split at hstep
      · obtain ⟨job, -, rfl⟩ := Option.map_eq_some_iff.mp hstep
        exact h
      · cases hstep
    | call reply =>
      simp only [step] at hstep
      split at hstep
      · split at hstep <;> cases hstep <;> exact h
      · cases hstep
    | write delivered =>
      obtain ⟨db, hw, rfl⟩ := Option.map_eq_some_iff.mp hstep
      obtain ⟨id, job, hhand, hwritten⟩ := hwf.written hw
      exact h.written hhand hwritten
    | collect user =>
      simp only [step] at hstep
      split at hstep <;> cases hstep
      exact h
    | crash => cases hstep; exact h
    | tick d => cases hstep; exact h
    | _ => cases ha

/-- A press of "Retry all" requeues jobs one after the other. -/
theorem pass_callbackRetry (settings : Settings) (ids : List JobId) (admin : TelegramId) (now : ℤ) (db : Database) :
    Pass settings now db (callbackRetry db ids admin now) := by
  induction ids generalizing db with
  | nil => exact .refl
  | cons id ids ih =>
    have hone : Pass settings now db ((adminRetry db id admin now).getD db) := by
      cases h : adminRetry db id admin now with
      | none => exact .refl
      | some db' => exact .single (txn_retry h)
    exact hone.trans (ih _)

theorem act_cases {settings : Settings} {s t : State} {a : Action} (h : act settings s a = some t) :
    (∃ b, a = .one b ∧ step settings s b = some t) ∨
      ∃ db, t = { s with db := db } ∧ Pass settings s.now s.db db := by
  cases a with
  | one b => exact .inl ⟨b, rfl, h⟩
  | retryAll ids admin => cases h; exact .inr ⟨_, rfl, pass_callbackRetry ..⟩

theorem wf_oneOpen_act {settings : Settings} {s t : State} {a : Action} (h : Wf s ∧ OneOpen s.db.jobs)
    (hact : act settings s a = some t) : Wf t ∧ OneOpen t.db.jobs := by
  rcases act_cases hact with ⟨b, -, hb⟩ | ⟨db, rfl, hpass⟩
  · exact ⟨wf_step h.1 hb, oneOpen_step h.1 h.2 hb⟩
  · exact ⟨h.1.pass hpass, h.2.pass hpass⟩

/-! ### After a pass of the scheduler -/

/-- A loop that leaves each of its subscriptions with an open job leaves all of them with one. -/
theorem hasOpenJob_foldl {f : Database → SubscriptionId → Database} {jobType : JobType}
    (hopen : ∀ db i, hasOpenJob (f db i).jobs jobType i = true)
    (hkeep : ∀ db i j, hasOpenJob db.jobs jobType j = true → hasOpenJob (f db i).jobs jobType j = true)
    {ids : List SubscriptionId} {j : SubscriptionId} {db : Database}
    (h : j ∈ ids ∨ hasOpenJob db.jobs jobType j = true) : hasOpenJob (ids.foldl f db).jobs jobType j = true := by
  induction ids generalizing db with
  | nil => exact h.resolve_left List.not_mem_nil
  | cons i ids ih =>
    apply ih
    rcases h with h | h
    · rcases List.mem_cons.mp h with rfl | h
      · exact .inr (hopen db j)
      · exact .inl h
    · exact .inr (hkeep db i j h)

theorem hasOpenJob_insert (jobs : Table Job) (job : Job) (jobType : JobType) (j : SubscriptionId) :
    hasOpenJob (jobs.insert job) jobType j =
      (hasOpenJob jobs jobType j || job.jobType = jobType && job.aggregateId = j && job.isOpen) := by
  simp [hasOpenJob, Table.insert, List.any_append]

theorem hasOpenJob_checkExpired {db : Database} {now : ℤ} {i : SubscriptionId} {sub : Subscription}
    (hsub : db.subscriptions[i]? = some sub) (hactive : sub.status = .active) (hover : sub.expiresAt ≤ now) :
    hasOpenJob (checkExpiredSubscriptions db now).jobs .disablePeer i = true := by
  refine hasOpenJob_foldl (fun db i => ?_) (fun db i j h => ?_) (.inl ?_)
  · unfold disableExpired
    split_ifs with h
    · exact h
    · simp [hasOpenJob_insert, newJob, Job.isOpen]
  · unfold disableExpired
    split_ifs
    · exact h
    · simp [hasOpenJob_insert, h]
  · exact Table.mem_select.mpr ⟨sub, hsub, by simp [hactive, hover]⟩

theorem hasOpenJob_cleanup {settings : Settings} {db : Database} {now : ℤ} {i : SubscriptionId} {sub : Subscription}
    (hsub : db.subscriptions[i]? = some sub) (hdue : GraceOver settings now sub) :
    hasOpenJob (cleanupRemovedPeers settings db now).jobs .removePeer i = true := by
  refine hasOpenJob_foldl (fun db i => ?_) (fun db i j h => ?_) (.inl ?_)
  · unfold removeDisabled
    split_ifs with h
    · exact h
    · simp [hasOpenJob_insert, newJob, Job.isOpen]
  · unfold removeDisabled
    split_ifs
    · exact h
    · simp [hasOpenJob_insert, h]
  · obtain ⟨hstatus, t, ht, hover⟩ := hdue
    have hcutoff : t ≤ now - days settings.peerRemovalGraceDays := by omega
    exact Table.mem_select.mpr ⟨sub, hsub, by simp [hstatus, ht, hcutoff]⟩

/-- What no round of a loop changes, the loop does not change. -/
theorem foldl_same {β : Type*} {f : Database → SubscriptionId → Database} {g : Database → β}
    (hf : ∀ db i, g (f db i) = g db) (ids : List SubscriptionId) (db : Database) : g (ids.foldl f db) = g db := by
  induction ids generalizing db with
  | nil => rfl
  | cons i ids ih => rw [List.foldl_cons, ih, hf]

theorem subscriptions_checkExpired (db : Database) (now : ℤ) :
    (checkExpiredSubscriptions db now).subscriptions = db.subscriptions := by
  refine foldl_same (fun db i => ?_) _ db
  unfold disableExpired
  split_ifs <;> rfl

theorem subscriptions_cleanup (settings : Settings) (db : Database) (now : ℤ) :
    (cleanupRemovedPeers settings db now).subscriptions = db.subscriptions := by
  refine foldl_same (fun db i => ?_) _ db
  unfold removeDisabled
  split_ifs <;> rfl

/-! ### One open job -/

/-- The jobs that the lifecycle of a subscription allows once at a time. -/
def lifecycleTypes : List JobType := [.createPeer, .disablePeer, .removePeer]

/-- No subscription has two open jobs of one of these types. -/
def AtMostOneOpen (jobs : Table Job) : Prop := ∀ jobType ∈ lifecycleTypes, ∀ i, (openJobs jobs jobType i).length ≤ 1

theorem atMostOneOpen {s : State} (hwf : Wf s) (h : OneOpen s.db.jobs) : AtMostOneOpen s.db.jobs := by
  intro jobType htype i
  refine Table.select_length_le_one fun a ha b hb => ?_
  obtain ⟨job, hjob, rfl, rfl, hopen⟩ := mem_openJobs.mp ha
  obtain ⟨job', hjob', htype', hagg, hopen'⟩ := mem_openJobs.mp hb
  simp only [lifecycleTypes, List.mem_cons, List.not_mem_nil, or_false] at htype
  rcases htype with hcreate | hoff
  · exact hwf.consistent.createOnce a b job job' hjob hjob' hcreate (htype'.trans hcreate) hagg.symm
  · exact h a b job job' hjob hjob' hopen hopen' htype'.symm hoff hagg.symm

theorem length_openJobs {jobs : Table Job} {jobType : JobType} {i : SubscriptionId} (hone : AtMostOneOpen jobs)
    (htype : jobType ∈ lifecycleTypes) (h : hasOpenJob jobs jobType i = true) :
    (openJobs jobs jobType i).length = 1 := by
  obtain ⟨id, job, hjob⟩ := hasOpenJob_iff.mp h
  have hpos := List.length_pos_of_mem (mem_openJobs.mpr ⟨job, hjob⟩)
  have hle := hone jobType htype i
  omega

/-- In every run of the bot no subscription has two open create, disable or remove jobs;
right after the scheduler looks for expired subscriptions each of them has its disable job,
and right after it cleans up each one whose grace period is over has its remove job. -/
theorem openJobs_run {settings : Settings} {users : Table User} {servers : Table VpnServer} {products : Table Product}
    {now : ℤ} {as : List Action} {s : State}
    (hrun : Machine.run (act settings) (start users servers products now) as = some s) :
    AtMostOneOpen s.db.jobs ∧
      (∀ t, act settings s (.one .checkExpired) = some t → ∀ (i : SubscriptionId) (sub : Subscription),
        t.db.subscriptions[i]? = some sub → sub.status = .active → sub.expiresAt ≤ t.now →
        (openJobs t.db.jobs .disablePeer i).length = 1) ∧
      ∀ t, act settings s (.one .cleanup) = some t → ∀ (i : SubscriptionId) (sub : Subscription),
        t.db.subscriptions[i]? = some sub → GraceOver settings t.now sub →
        (openJobs t.db.jobs .removePeer i).length = 1 := by
  have hstart : Wf (start users servers products now) ∧ OneOpen (start users servers products now).db.jobs :=
    ⟨wf_start users servers products now, by simp [OneOpen, start]⟩
  have hinv := Machine.invariant_run (fun _ _ _ h ht => wf_oneOpen_act h ht) hrun hstart
  refine ⟨atMostOneOpen hinv.1 hinv.2, fun t ht i sub hsub hactive hover => ?_, fun t ht i sub hsub hdue => ?_⟩
  · have hone := wf_oneOpen_act hinv ht
    cases ht
    rw [subscriptions_checkExpired] at hsub
    exact length_openJobs (atMostOneOpen hone.1 hone.2) (by simp [lifecycleTypes])
      (hasOpenJob_checkExpired hsub hactive hover)
  · have hone := wf_oneOpen_act hinv ht
    cases ht
    rw [subscriptions_cleanup] at hsub
    exact length_openJobs (atMostOneOpen hone.1 hone.2) (by simp [lifecycleTypes]) (hasOpenJob_cleanup hsub hdue)

/-- Two disable jobs for one subscription fail for good, one after the other. -/
def twoFailed : List Step :=
  [.startOrder 0 0 0, .approve 0 7 1] ++ runJob .ok ++ [.tick 2592000000000, .checkExpired] ++
    runJob (.failed "bad input" false) ++ [.checkExpired] ++ runJob (.failed "bad input" false)

/-- When both are retried together, only the first is queued. -/
theorem openJobs_run_twoFailed :
    ∃ s, Machine.run (act ⟨30, 3⟩) small (twoFailed.map .one ++ [.retryAll [1, 2] 7]) = some s ∧
    openJobs s.db.jobs .disablePeer 0 = [1] ∧ AtMostOneOpen s.db.jobs := by
  have hrun : (Machine.run (act ⟨30, 3⟩) small (twoFailed.map .one ++ [.retryAll [1, 2] 7])).any
      (fun s => openJobs s.db.jobs .disablePeer 0 = [1]) = true := by decide +kernel
  obtain ⟨s, hs, hopen⟩ := Machine.exists_of_any hrun
  exact ⟨s, hs, by simpa using hopen, (openJobs_run hs).1⟩

end AmneziaVpnBot.Lifecycle
