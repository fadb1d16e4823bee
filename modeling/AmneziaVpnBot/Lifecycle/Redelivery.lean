import AmneziaVpnBot.Lifecycle.OpenJobs

/-! The redelivery limit. A press of the button looks at the count of configs already sent
again, which a job raises only when it has sent one; jobs that are queued and not done are
not counted. The limit holds as long as whoever queues a redelivery leaves room for them. -/

namespace AmneziaVpnBot.Lifecycle

/-- The configs sent again so far, by the column the handlers look at. -/
def redelivered (db : Database) (i : SubscriptionId) : ℕ :=
  db.subscriptions[i]?.elim 0 Subscription.configRedeliveryCount

def isOpenRedelivery (i : SubscriptionId) (job : Job) : Bool :=
  job.jobType = .redeliverConfig && job.aggregateId = i && job.isOpen

def openRedeliveries (db : Database) (i : SubscriptionId) : ℕ := db.jobs.countP (isOpenRedelivery i)

/-- The subscription whose customer gets the config in this step. -/
def resends (s : State) : Step → List SubscriptionId
  | .write delivered => match s.phase with
    | .called _ job _ none => if job.jobType = .redeliverConfig && delivered then [job.aggregateId] else []
    | _ => []
  | _ => []

/-- The subscription for which the step queues a redelivery. -/
def queuesRedelivery (s : State) : Step → Option SubscriptionId
  | .redeliver id _ => some id
  | .retry id _ => (s.db.jobs[id]?.filter fun job => job.jobType = .redeliverConfig).map Job.aggregateId
  | _ => none

/-- A redelivery is queued only while the ones that are sent or still open leave room for it. -/
def leavesRoom (settings : Settings) (s : State) (a : Step) : Bool :=
  (queuesRedelivery s a).all fun i => redelivered s.db i + openRedeliveries s.db i < settings.configRedeliveryLimit

/-- A job that goes on to send a config has loaded the count as it is. -/
def CountLoaded (db : Database) : Phase → Prop
  | .decided _ job (.go work) | .called _ job work _ =>
    work.sub.configRedeliveryCount = redelivered db job.aggregateId
  | _ => True

/-- The session holds the count as it is: no one but the worker raises it. -/
def SameCount (_ : SubscriptionId) (seen stored : Subscription) : Prop :=
  stored.configRedeliveryCount = seen.configRedeliveryCount

structure Roomy (settings : Settings) (s : State) : Prop where
  wf : Wf s
  loaded : CountLoaded s.db s.phase
  held : s.session.subscriptions.Related SameCount s.db.subscriptions
  room : ∀ i, redelivered s.db i + openRedeliveries s.db i ≤ settings.configRedeliveryLimit

variable {settings : Settings} {s t : State}

/-! ### The two counts under the primitive changes -/

theorem RowTxn.redelivered {P : Prop} {sub sub' : Subscription} (hrow : RowTxn P sub sub') :
    sub'.configRedeliveryCount = sub.configRedeliveryCount := by
  cases hrow with
  | same he => rw [he]
  | credit hC hpeer hc => exact hc.redelivered
  | debit hd => exact hd.redelivered

theorem Txn.redelivered {now : ℤ} {C : SubscriptionId → Prop} {db db' : Database} (h : Txn settings now C db db')
    (i : SubscriptionId) : redelivered db' i = redelivered db i := by
  unfold Lifecycle.redelivered
  cases hsub : db.subscriptions[i]? with
  | some sub =>
    obtain ⟨sub', hsub', hrow⟩ := h.row hsub
    rw [hsub', Option.elim_some, Option.elim_some]
    exact hrow.redelivered
  | none =>
    cases hsub' : db'.subscriptions[i]? with
    | none => rfl
    | some sub' =>
      rcases h.row_before hsub' with ⟨sub, hsub₀, -⟩ | hnew
      · rw [hsub] at hsub₀
        cases hsub₀
      · exact hnew.redelivered

theorem Pass.redelivered {now : ℤ} {db db' : Database} (h : Pass settings now db db') (i : SubscriptionId) :
    redelivered db' i = redelivered db i := by
  induction h with
  | refl => rfl
  | tail _ htxn ih => rw [htxn.redelivered, ih]

theorem CountLoaded.same {db db' : Database} (hsame : ∀ i, redelivered db' i = redelivered db i) :
    ∀ {p : Phase}, CountLoaded db p → CountLoaded db' p
  | .idle, _ | .decided _ _ .skip, _ | .decided _ _ (.fail _), _ => trivial
  | .decided _ _ (.go _), h | .called _ _ _ _, h => Eq.trans h (hsame _).symm

theorem isOpenRedelivery_newJob (i j : SubscriptionId) (jobType : JobType) (reason : Option Reason) (now : ℤ) :
    isOpenRedelivery i (newJob jobType j reason now) = true ↔ jobType = .redeliverConfig ∧ j = i := by
  simp only [isOpenRedelivery, Bool.and_eq_true, decide_eq_true_eq]
  simp [newJob, Job.isOpen]

theorem openRedeliveries_insert {db db' : Database} {jobType : JobType} {j : SubscriptionId} {reason : Option Reason}
    {now : ℤ} (hjobs : db'.jobs = db.jobs.insert (newJob jobType j reason now)) (i : SubscriptionId) :
    openRedeliveries db' i = openRedeliveries db i + if jobType = .redeliverConfig ∧ j = i then 1 else 0 := by
  unfold openRedeliveries
  rw [hjobs, Table.countP_insert]
  simp only [isOpenRedelivery_newJob]

/-- An update of one job. -/
theorem openRedeliveries_update {db db' : Database} {id : JobId} {job : Job} {f : Job → Job}
    (hjobs : db'.jobs = db.jobs.update id f) (hjob : db.jobs[id]? = some job) (i : SubscriptionId) :
    openRedeliveries db' i + (if isOpenRedelivery i job then 1 else 0) =
      openRedeliveries db i + if isOpenRedelivery i (f job) then 1 else 0 := by
  unfold openRedeliveries
  rw [hjobs]
  exact Table.countP_update hjob f _

theorem isOpenRedelivery_of_closed {job : Job} (h : job.isOpen = false) (i : SubscriptionId) :
    isOpenRedelivery i job = false := by
  simp [isOpenRedelivery, h]

theorem isOpenRedelivery_same {job job' : Job} (h : SameJob job job') (hopen : job'.isOpen = job.isOpen)
    (i : SubscriptionId) : isOpenRedelivery i job' = isOpenRedelivery i job := by
  simp [isOpenRedelivery, h.jobType, h.aggregateId, hopen]

/-! ### The rest of the bot -/

/-- No redelivery is queued by a transaction that adds at most one job of another type. -/
theorem openRedeliveries_of_insert {db db' : Database} (job : Job) (ht : job.jobType ≠ .redeliverConfig)
    (hjobs : db'.jobs = db.jobs ∨ db'.jobs = db.jobs.insert job) (i : SubscriptionId) :
    openRedeliveries db' i = openRedeliveries db i := by
  unfold openRedeliveries
  rcases hjobs with hjobs | hjobs
  · rw [hjobs]
  · rw [hjobs, Table.countP_insert]
    simp [isOpenRedelivery, ht]

theorem openRedeliveries_approve (db : Database) (id : OrderId) (admin : TelegramId) (idHex8 : ℕ) (now : ℤ)
    (i : SubscriptionId) :
    openRedeliveries (callbackAdminApproveOrder db id admin idHex8 now).2 i = openRedeliveries db i := by
  rcases callbackAdminApproveOrder_cases db id admin idHex8 now with
    ⟨order, product, -, -, -, -, -, ⟨k, sub, -, he⟩ | ⟨-, he⟩⟩ | he
  · rw [he]
    refine openRedeliveries_of_insert (newJob .enablePeer k none now) (by simp [newJob]) ?_ i
    show (if _ then _ else _) = _ ∨ (if _ then _ else _) = _
    split_ifs
    · exact .inl rfl
    · exact .inr rfl
  · rw [he]
    exact openRedeliveries_of_insert _ (by simp [newJob]) (.inr rfl) i
  · rw [he]

theorem openRedeliveries_extend {db db' : Database} {id : SubscriptionId} {n : ℤ} {admin : TelegramId} {now : ℤ}
    (h : adminExtend db id n admin now = some db') (i : SubscriptionId) :
    openRedeliveries db' i = openRedeliveries db i := by
  obtain ⟨sub, hsub, h⟩ := Option.bind_eq_some_iff.mp h
  split_ifs at h
  cases h
  refine openRedeliveries_of_insert (newJob .enablePeer id (some .adminExtend) now) (by simp [newJob]) ?_ i
  show (if _ then _ else _) = _ ∨ (if _ then _ else _) = _
  split_ifs
  · exact .inr rfl
  · exact .inl rfl

theorem openRedeliveries_checkExpired (db : Database) (now : ℤ) (i : SubscriptionId) :
    openRedeliveries (checkExpiredSubscriptions db now) i = openRedeliveries db i := by
  refine foldl_same (g := fun db => openRedeliveries db i) (fun db j => ?_) _ db
  unfold disableExpired
  split_ifs
  · rfl
  · exact openRedeliveries_of_insert _ (by simp [newJob]) (.inr rfl) i

theorem openRedeliveries_cleanup (db : Database) (now : ℤ) (i : SubscriptionId) :
    openRedeliveries (cleanupRemovedPeers settings db now) i = openRedeliveries db i := by
  refine foldl_same (g := fun db => openRedeliveries db i) (fun db j => ?_) _ db
  unfold removeDisabled
  split_ifs
  · rfl
  · exact openRedeliveries_of_insert _ (by simp [newJob]) (.inr rfl) i

theorem openRedeliveries_redeliver {db db' : Database} {id : SubscriptionId} {user : UserId} {now : ℤ}
    (h : redeliverSubscription settings db id user now = some db') (i : SubscriptionId) :
    openRedeliveries db' i = openRedeliveries db i + if id = i then 1 else 0 := by
  obtain ⟨sub, -, h⟩ := Option.bind_eq_some_iff.mp h
  split_ifs at h
  cases h
  refine (openRedeliveries_insert rfl i).trans ?_
  simp

/-- A retry opens the job it requeues, and nothing if that is no redelivery. -/
theorem openRedeliveries_retry {db db' : Database} {id : JobId} {admin : TelegramId} {now : ℤ}
    (h : adminRetry db id admin now = some db') (i : SubscriptionId) :
    openRedeliveries db' i = openRedeliveries db i ∨
      (∃ job, db.jobs[id]? = some job ∧ job.jobType = .redeliverConfig ∧ job.aggregateId = i) ∧
        openRedeliveries db' i = openRedeliveries db i + 1 := by
  obtain ⟨job, hjob, h⟩ := Option.bind_eq_some_iff.mp h
  split_ifs at h with hp
  have hjobs : db'.jobs = db.jobs.update id (Job.requeue now) := by cases h; rfl
  simp only [Bool.and_eq_true, decide_eq_true_eq] at hp
  refine Or.imp ?_ ?_ (Bool.eq_false_or_eq_true (isOpenRedelivery i (job.requeue now))).symm
  all_goals
    intro hnew
    have hcount := openRedeliveries_update hjobs hjob i
    rw [isOpenRedelivery_of_closed (by simp [Job.isOpen, hp.1]), hnew] at hcount
  · simpa using hcount
  · simp only [isOpenRedelivery, Bool.and_eq_true, decide_eq_true_eq] at hnew
    exact ⟨⟨job, hjob, hnew.1⟩, by simpa using hcount⟩

theorem countP_claimEach (w : WorkerId) (now : ℤ) (i : SubscriptionId) (ids : List JobId) (jobs : Table Job) :
    (claimEach w now jobs ids).1.countP (isOpenRedelivery i) = jobs.countP (isOpenRedelivery i) := by
  induction ids generalizing jobs with
  | nil => rfl
  | cons id ids ih =>
    show (claimEach w now (claimOne jobs id w now).1 ids).1.countP _ = _
    rw [ih]
    rcases claimOne_cases jobs id w now with ⟨job, hjob, hc, he⟩ | he
    · rw [he]
      have hopen : (job.claim w now).isOpen = job.isOpen := by
        rcases (Job.claimable_iff.mp hc).1 with hs | hs | ⟨hs, -⟩ <;> simp [Job.isOpen, hs]
      have hcount := Table.countP_update hjob (Job.claim w now) (isOpenRedelivery i)
      rw [isOpenRedelivery_same (.claim w hc) hopen] at hcount
      exact Nat.add_right_cancel hcount
    · rw [he]

/-- A step outside the worker opens at most the redelivery it queues. -/
theorem openRedeliveries_step {a : Step} (ha : a.isWorker = false) (hstep : step settings s a = some t)
    (i : SubscriptionId) : openRedeliveries t.db i = openRedeliveries s.db i ∨
      queuesRedelivery s a = some i ∧ openRedeliveries t.db i = openRedeliveries s.db i + 1 := by
  cases a with
  | startOrder user server product =>
    simp only [step] at hstep
    split_ifs at hstep
    cases hstep
    exact .inl rfl
  | startRenewal user sub product =>
    obtain ⟨row, -, hstep⟩ := Option.bind_eq_some_iff.mp hstep
    split_ifs at hstep
    cases hstep
    exact .inl rfl
  | submitReceipt id receipt => cases hstep; exact .inl rfl
  | approve id admin idHex8 => cases hstep; exact .inl (openRedeliveries_approve ..)
  | reject id admin =>
    cases hstep
    refine .inl ?_
    rcases rejectOrder_cases s.db id admin (some rejectionReason) s.now with ⟨order, -, -, he⟩ | he
    · simp only [callbackAdminRejectOrder, he]
      rfl
    · simp only [callbackAdminRejectOrder, he]
  | extend id n admin =>
    obtain ⟨db, hdb, rfl⟩ := Option.map_eq_some_iff.mp hstep
    exact .inl (openRedeliveries_extend hdb i)
  | redeliver id user =>
    obtain ⟨db, hdb, rfl⟩ := Option.map_eq_some_iff.mp hstep
    show openRedeliveries db i = _ ∨ some id = some i ∧ openRedeliveries db i = _
    rw [openRedeliveries_redeliver hdb i]
    split_ifs with hi
    · exact .inr ⟨congrArg some hi, rfl⟩
    · exact .inl rfl
  | retry id admin =>
    obtain ⟨db, hdb, rfl⟩ := Option.map_eq_some_iff.mp hstep
    refine (openRedeliveries_retry hdb i).imp_right ?_
    rintro ⟨⟨job, hjob, ht, hi⟩, hcount⟩
    exact ⟨by simp [queuesRedelivery, hjob, Option.filter, ht, hi], hcount⟩
  | checkExpired => cases hstep; exact .inl (openRedeliveries_checkExpired ..)
  | cleanup => cases hstep; exact .inl (openRedeliveries_cleanup ..)
  | _ => cases ha

/-! ### The worker -/

theorem CountLoaded.read (held : s.session.subscriptions.Related SameCount s.db.subscriptions)
    (id : JobId) (job : Job) :
    CountLoaded s.db (.decided id job (Worker.read s.seen job s.now)) := by
  cases hread : Worker.read s.seen job s.now with
  | fail error => trivial
  | skip => trivial
  | go work =>
    obtain ⟨seen, hseen, hfound⟩ := Worker.read_go hread
    obtain ⟨sub, hsub, hcount⟩ := held.view (fun _ _ _ => rfl) hseen
    show work.sub.configRedeliveryCount = redelivered s.db job.aggregateId
    rw [redelivered, hsub, Option.elim_some, hfound.row]
    exact hcount.symm

/-- A job raises the count by the config it sends. -/
theorem flush_row_redelivered {work : Worker.Work} {sub : Subscription} {jobType : JobType} {delivered : Bool} {now : ℤ}
    (hloaded : work.sub.configRedeliveryCount = sub.configRedeliveryCount) :
    (work.sub.flush (work.row jobType delivered now) sub).configRedeliveryCount =
      sub.configRedeliveryCount + if jobType = .redeliverConfig then 1 else 0 := by
  cases jobType <;>
    simp [Subscription.flush, Worker.Work.row, Worker.Work.activated, Subscription.markActive,
      Subscription.markDisabled, Subscription.markRemoved, Table.flushColumn, hloaded]

/-- A redelivery is written only when Telegram took the config. -/
theorem delivered_of_write {db db' : Database} {id : SubscriptionId} {work : Worker.Work} {delivered : Bool} {now : ℤ}
    (h : Worker.write db .redeliverConfig id work delivered now = some db') : delivered = true := by
  simp only [Worker.write, Option.ite_none_right_eq_some] at h
  exact h.1

/-- The end of a job opens nothing. -/
theorem openRedeliveries_end {db db' : Database} {id : JobId} {job : Job} {f : Job → Job}
    (hjobs : db'.jobs = db.jobs.update id f) (hjob : db.jobs[id]? = some job) (hopen : job.isOpen = true)
    (hsame : SameJob job (f job)) (i : SubscriptionId) : openRedeliveries db' i ≤ openRedeliveries db i := by
  have hcount := openRedeliveries_update hjobs hjob i
  have hle : isOpenRedelivery i (f job) = true → isOpenRedelivery i job = true := by
    simp only [isOpenRedelivery, Bool.and_eq_true, hsame.jobType, hsame.aggregateId]
    exact fun h => ⟨h.1, hopen⟩
  by_cases hnew : isOpenRedelivery i (f job) = true
  · rw [if_pos hnew, if_pos (hle hnew)] at hcount
    omega
  · rw [if_neg hnew] at hcount
    split_ifs at hcount <;> omega

/-- A job that is done raises the count of its subscription if it is a redelivery, and is
not open any more. -/
theorem counts_done {db db' : Database} {id : JobId} {job : Job} {work : Worker.Work} {sub : Subscription}
    {delivered : Bool} {now : ℤ} (hload : Loaded db job work sub)
    (hcount : work.sub.configRedeliveryCount = redelivered db job.aggregateId) (hjob : db.jobs[id]? = some job)
    (hopen : job.isOpen = true) (hw : Worker.write db job.jobType job.aggregateId work delivered now = some db')
    (i : SubscriptionId) :
    let n := if job.jobType = .redeliverConfig ∧ job.aggregateId = i then 1 else 0
    let done := { db' with jobs := db'.jobs.update id Job.markCompleted }
    redelivered done i = redelivered db i + n ∧ openRedeliveries done i + n = openRedeliveries db i := by
  obtain ⟨-, hjobs, hsubs⟩ := Worker.write_eq_some hw
  constructor
  · simp only [redelivered, hload.get, Option.elim_some] at hcount
    simp only [redelivered, hsubs]
    by_cases hi : job.aggregateId = i
    · subst hi
      rw [Table.get_update_self, hload.get, Option.map_some, Option.elim_some, Option.elim_some,
        flush_row_redelivered hcount]
      simp
    · rw [Table.get_update_of_ne _ _ hi]
      simp [hi]
  · have hclosed := openRedeliveries_update (f := Job.markCompleted)
      (show ({ db' with jobs := db'.jobs.update id Job.markCompleted } : Database).jobs = db.jobs.update id _ by
        rw [← hjobs]) hjob i
    have hnone : isOpenRedelivery i job.markCompleted = false := isOpenRedelivery_of_closed rfl i
    have hold : isOpenRedelivery i job = true ↔ job.jobType = .redeliverConfig ∧ job.aggregateId = i := by
      simp [isOpenRedelivery, hopen]
    simpa [hnone, hold] using hclosed

/-- A config that is sent is counted, and its redelivery is not open any more. -/
theorem counts_write {delivered : Bool} {db : Database} (hwf : Wf s) (hloaded : CountLoaded s.db s.phase)
    (hw : writeJob s.db delivered s.now s.phase = some db) (i : SubscriptionId) :
    redelivered db i = redelivered s.db i + (resends s (.write delivered)).count i ∧
      openRedeliveries db i + (resends s (.write delivered)).count i ≤ openRedeliveries s.db i := by
  have hp := hwf.phase
  unfold resends
  cases hphase : s.phase with
  | idle => simp [hphase, writeJob] at hw
  | decided id job decision =>
    rw [hphase] at hp hw
    cases decision with
    | fail error =>
      obtain ⟨hjob, hproc, -⟩ := hp
      cases hw
      exact ⟨rfl, openRedeliveries_end rfl hjob (by simp [Job.isOpen, hproc]) (.markFailed _ _ _ (by simp [hproc])) i⟩
    | skip =>
      obtain ⟨⟨hjob, hproc, -⟩, -⟩ := hp
      cases hw
      exact ⟨rfl, openRedeliveries_end rfl hjob (by simp [Job.isOpen, hproc]) (.markCompleted _) i⟩
    | go work => cases hw
  | called id job work failure =>
    rw [hphase] at hp hw hloaded
    obtain ⟨⟨hjob, hproc, -⟩, ⟨sub, hload⟩, -⟩ := hp
    have hopen : job.isOpen = true := by simp [Job.isOpen, hproc]
    cases failure with
    | some f =>
      cases hw
      exact ⟨rfl, openRedeliveries_end rfl hjob hopen (.markFailed _ _ _ (by simp [hproc])) i⟩
    | none =>
      cases hdb : Worker.write s.db job.jobType job.aggregateId work delivered s.now with
      | none =>
        simp only [writeJob, hdb, finish, Option.some.injEq] at hw
        subst hw
        have hnone : ¬ (job.jobType = .redeliverConfig ∧ delivered = true) := by
          rintro ⟨ht, rfl⟩
          simp [ht, Worker.write] at hdb
        simp only [Bool.and_eq_true, decide_eq_true_eq, hnone, ↓reduceIte, List.count_nil]
        exact ⟨rfl, openRedeliveries_end rfl hjob hopen (.markFailed _ _ _ (by simp [hproc])) i⟩
      | some db₁ =>
        have hcounts := counts_done hload hloaded hjob hopen hdb i
        simp only [writeJob, hdb, finish, Option.some.injEq] at hw
        subst hw
        suffices hn : (if job.jobType = .redeliverConfig && delivered then [job.aggregateId] else []).count i =
            if job.jobType = .redeliverConfig ∧ job.aggregateId = i then 1 else 0 by
          rw [hn]
          exact ⟨hcounts.1, hcounts.2.le⟩
        by_cases ht : job.jobType = .redeliverConfig
        · rw [ht] at hdb
          simp [ht, delivered_of_write hdb, List.count_singleton]
        · simp [ht]

/-! ### Steps and runs -/

theorem roomy_step {a : Step} (h : Roomy settings s) (hguard : leavesRoom settings s a = true)
    (hstep : step settings s a = some t) :
    Roomy settings t ∧ ∀ i, redelivered t.db i = redelivered s.db i + (resends s a).count i := by
  have hwf := wf_step h.wf hstep
  suffices hsuff : CountLoaded t.db t.phase ∧ t.session.subscriptions.Related SameCount t.db.subscriptions ∧
      (∀ i, redelivered t.db i + openRedeliveries t.db i ≤ settings.configRedeliveryLimit) ∧
      ∀ i, redelivered t.db i = redelivered s.db i + (resends s a).count i from
    ⟨⟨hwf, hsuff.1, hsuff.2.1, hsuff.2.2.1⟩, hsuff.2.2.2⟩
  cases ha : a.isWorker with
  | false =>
    have hopen := openRedeliveries_step ha hstep
    have hnone : resends s a = [] := by cases a <;> first | rfl | cases ha
    have hsame : ∀ i, redelivered t.db i = redelivered s.db i := by
      obtain ⟨db, rfl, htxn | hpass⟩ := step_txn h.wf.consistent ha hstep
      · exact htxn.redelivered
      · exact hpass.redelivered
    refine ⟨?_, ?_, fun i => ?_, fun i => by simp [hnone, hsame]⟩
    · obtain ⟨db, rfl, -⟩ := step_txn h.wf.consistent ha hstep
      exact h.loaded.same hsame
    · obtain ⟨db, rfl, htxn | hpass⟩ := step_txn h.wf.consistent ha hstep
      · exact htxn.related h.held fun _ _ _ hrow _ hcount => hrow.redelivered.trans hcount
      · exact hpass.related h.held fun _ _ _ hrow _ hcount => hrow.redelivered.trans hcount
    · rw [hsame]
      rcases hopen i with he | ⟨hq, he⟩
      · rw [he]
        exact h.room i
      · simp only [leavesRoom, hq, Option.all_some, decide_eq_true_eq] at hguard
        omega
  | true =>
    cases a with
    | claim limit =>
      simp only [step] at hstep
      split at hstep <;> cases hstep
      refine ⟨?_, Table.Held.Related.empty _, fun i => ?_, fun i => rfl⟩
      · next hidle _ => rw [hidle]; trivial
      · have hopen := countP_claimEach worker s.now i (candidates s.db.jobs s.now limit) s.db.jobs
        have hroom := h.room i
        unfold openRedeliveries at hroom ⊢
        show redelivered s.db i + List.countP _ (claimPendingJobs s.db.jobs worker s.now limit).1 ≤ _
        unfold claimPendingJobs
        omega
    | read =>
      simp only [step] at hstep
      split at hstep
      · obtain ⟨job, -, rfl⟩ := Option.map_eq_some_iff.mp hstep
        exact ⟨.read h.held _ job, IdentityMap.related_load h.held (fun _ _ _ => rfl) _, h.room, fun i => rfl⟩
      · cases hstep
    | call reply =>
      simp only [step] at hstep
      split at hstep
      next id job work hphase =>
        have hloaded := h.loaded
        rw [hphase] at hloaded
        split at hstep <;> cases hstep <;> exact ⟨hloaded, h.held, h.room, fun i => rfl⟩
      · cases hstep
    | write delivered =>
      obtain ⟨db, hw, rfl⟩ := Option.map_eq_some_iff.mp hstep
      have hcounts := counts_write h.wf h.loaded hw
      refine ⟨trivial, ?_, fun i => ?_, fun i => (hcounts i).1⟩
      · refine h.wf.related_write h.held hw fun id job work sub _ hphase hload => Table.flushColumn_eq ?_ _
        have hloaded := h.loaded
        rw [hphase] at hloaded
        simp only [CountLoaded, redelivered, hload.get, Option.elim_some] at hloaded
        exact hloaded.symm
      obtain ⟨hsent, hleft⟩ := hcounts i
      have hroom := h.room i
      show redelivered db i + openRedeliveries db i ≤ _
      omega
    | collect user =>
      simp only [step] at hstep
      split at hstep <;> cases hstep
      exact ⟨h.loaded, h.held.forget _, h.room, fun i => rfl⟩
    | crash => cases hstep; exact ⟨trivial, Table.Held.Related.empty _, h.room, fun i => rfl⟩
    | tick d => cases hstep; exact ⟨h.loaded, h.held, h.room, fun i => rfl⟩
    | _ => cases ha

/-- As long as no redelivery is queued while those that are sent or open have used up the
limit, no customer is sent a config again more often than the limit allows. -/
theorem redelivered_run {users : Table User} {servers : Table VpnServer} {products : Table Product} {now : ℤ}
    {as : List Step} {s : State}
    (hguard : Machine.Along (step settings) (fun s a => leavesRoom settings s a = true)
      (start users servers products now) as)
    (hrun : Machine.run (step settings) (start users servers products now) as = some s) (i : SubscriptionId) :
    (Machine.log (step settings) resends (start users servers products now) as).count i ≤
      settings.configRedeliveryLimit := by
  have hstart : Roomy settings (start users servers products now) :=
    ⟨wf_start users servers products now, trivial, Table.Held.Related.empty _,
      fun i => by simp [redelivered, openRedeliveries, start]⟩
  have hcounts : Roomy settings s ∧ redelivered s.db i = redelivered (start users servers products now).db i +
      (Machine.log (step settings) resends (start users servers products now) as).count i :=
    Machine.count_log (m := fun s => redelivered s.db i)
      (fun s a t h hg ht => ⟨(roomy_step h hg ht).1, (roomy_step h hg ht).2 i⟩) hguard hrun hstart
  have hroom := hcounts.1.room i
  have hnone : redelivered (start users servers products now).db i = 0 := by simp [redelivered, start]
  omega

/-- A customer presses the button again only after the config was sent. -/
def onePressABatch : List Step :=
  [.startOrder 0 0 0, .approve 0 7 1] ++ runJob .ok ++ [.redeliver 0 0] ++ runJob .ok ++ [.redeliver 0 0] ++
    runJob (.failed "timeout" true) ++ [.tick 10000000] ++ runJob .ok

theorem redelivered_run_onePressABatch :
    (Machine.run (step ⟨30, 2⟩) small onePressABatch).isSome ∧
      (Machine.log (step ⟨30, 2⟩) resends small onePressABatch).count 0 = 2 ∧
      (Machine.log (step ⟨30, 2⟩) resends small onePressABatch).count 0 ≤ 2 := by
  have hsome : (Machine.run (step ⟨30, 2⟩) small onePressABatch).isSome = true := by decide +kernel
  obtain ⟨s, hs⟩ := Option.isSome_iff_exists.mp hsome
  exact ⟨hsome, by decide +kernel, redelivered_run (by decide +kernel) hs 0⟩

/-- A customer presses the button twice before the worker's next batch. -/
def twoPresses : List Step :=
  [.startOrder 0 0 0, .approve 0 7 1] ++ runJob .ok ++ [.redeliver 0 0, .redeliver 0 0, .claim 10] ++
    [.read, .call .ok, .write true, .read, .call .ok, .write true]

/-- With a limit of one, the config is sent again twice. -/
theorem exceeds_twoPresses : (Machine.run (step ⟨30, 1⟩) small twoPresses).isSome ∧
    1 < (Machine.log (step ⟨30, 1⟩) resends small twoPresses).count 0 := by
  decide +kernel

end AmneziaVpnBot.Lifecycle
