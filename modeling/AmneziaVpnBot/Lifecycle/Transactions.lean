import AmneziaVpnBot.Lifecycle.Tables
import Mathlib.Logic.Relation

/-! The few ways in which a transaction outside the worker changes the tables: it leaves
subscriptions and jobs alone, adds a job, requeues one that failed for good, adds or
takes time, or makes a new subscription with its create job. Every handler is one such
change, and a scheduler pass is a row of them. -/

namespace AmneziaVpnBot.Lifecycle

/-- The subscription is off, and its grace period has run out. -/
def GraceOver (settings : Settings) (now : ℤ) (sub : Subscription) : Prop :=
  sub.status = .disabled ∧ ∃ t, sub.disabledAt = some t ∧ t + days settings.peerRemovalGraceDays ≤ now

/-- The row of a subscription that time was added to: it is active again. -/
structure Credited (sub sub' : Subscription) : Prop extends SamePeer sub sub' where
  status : sub'.status = .active
  disabledAt : sub'.disabledAt = none ∨ sub.status = .active ∧ sub'.disabledAt = sub.disabledAt
  removedAt : sub'.removedAt = sub.removedAt
  redelivered : sub'.configRedeliveryCount = sub.configRedeliveryCount

/-- The row of a subscription that time was taken from. -/
structure Debited (sub sub' : Subscription) : Prop extends SamePeer sub sub' where
  status : sub'.status = sub.status
  disabledAt : sub'.disabledAt = sub.disabledAt
  removedAt : sub'.removedAt = sub.removedAt
  expiresAt : sub'.expiresAt ≤ sub.expiresAt
  redelivered : sub'.configRedeliveryCount = sub.configRedeliveryCount

/-- One change by a transaction outside the worker. `C` holds of a subscription that is
given time. -/
inductive Txn (settings : Settings) (now : ℤ) (C : SubscriptionId → Prop) (db : Database) : Database → Prop
  | other {db' : Database} (hv : db'.servers = db.servers) (hs : db'.subscriptions = db.subscriptions)
      (hj : db'.jobs = db.jobs) : Txn settings now C db db'
  | enqueue {db' : Database} {jobType : JobType} {i : SubscriptionId} {reason : Option Reason} {sub : Subscription}
      (hv : db'.servers = db.servers) (hs : db'.subscriptions = db.subscriptions)
      (hj : db'.jobs = db.jobs.insert (newJob jobType i reason now)) (hsub : db.subscriptions[i]? = some sub)
      (htype : jobType ≠ .createPeer) (hfits : (newJob jobType i reason now).Fits sub)
      (hfree : jobType = .disablePeer ∨ jobType = .removePeer → hasOpenJob db.jobs jobType i = false)
      (hdue : jobType = .removePeer → GraceOver settings now sub) : Txn settings now C db db'
  | requeue {db' : Database} {id : JobId} {job : Job}
      (hv : db'.servers = db.servers) (hs : db'.subscriptions = db.subscriptions)
      (hj : db'.jobs = db.jobs.update id (Job.requeue now)) (hjob : db.jobs[id]? = some job)
      (hfailed : job.status = .permanentFailure) (hsafe : retryBlocker db job now = none) : Txn settings now C db db'
  | credit {db' : Database} {i : SubscriptionId} {sub : Subscription} {f : Subscription → Subscription}
      (reason : Option Reason) (hv : db'.servers = db.servers) (hs : db'.subscriptions = db.subscriptions.update i f)
      (hj : db'.jobs = if sub.status = .active then db.jobs
        else db.jobs.insert (newJob .enablePeer i reason now))
      (hsub : db.subscriptions[i]? = some sub) (hC : C i) (hpeer : sub.hasPeer) (hf : Credited sub (f sub)) :
      Txn settings now C db db'
  | debit {db' : Database} {i : SubscriptionId} {sub : Subscription} {f : Subscription → Subscription}
      (hv : db'.servers = db.servers) (hs : db'.subscriptions = db.subscriptions.update i f)
      (hj : db'.jobs = db.jobs) (hsub : db.subscriptions[i]? = some sub) (hf : Debited sub (f sub)) :
      Txn settings now C db db'
  | create {db' : Database} {sub : Subscription} (hv : db'.servers = db.servers)
      (hs : db'.subscriptions = db.subscriptions.insert sub)
      (hj : db'.jobs = db.jobs.insert (newJob .createPeer db.subscriptions.fresh none now))
      (hserver : ∃ server, db.servers[sub.vpnServerId]? = some server) (hpeer : sub.peerExternalId = none)
      (hstatus : sub.status = .provisioning) (hdisabled : sub.disabledAt = none) (hremoved : sub.removedAt = none)
      (hredelivered : sub.configRedeliveryCount = 0) : Txn settings now C db db'

variable {settings : Settings} {now : ℤ} {C : SubscriptionId → Prop} {db db' : Database}

/-- The tables of a database, as one transaction leaves them to the next. -/
def Consistent (db : Database) : Prop := Tables db.servers db.subscriptions db.jobs

theorem Credited.sound {sub sub' : Subscription} (h : Credited sub sub') (hpeer : sub.hasPeer) : sub'.Sound := by
  obtain ⟨n, hn⟩ : ∃ n, sub.peerExternalId = some n := by
    simp only [Subscription.hasPeer, Bool.and_eq_true, Option.isSome_iff_exists] at hpeer
    exact hpeer.1
  simp only [Subscription.Sound, h.peer, hn]
  exact .inl h.status

theorem Debited.sound {sub sub' : Subscription} (h : Debited sub sub') (hs : sub.Sound) : sub'.Sound := by
  unfold Subscription.Sound at hs ⊢
  rw [h.peer, h.status, h.removedAt]
  exact hs

theorem Txn.consistent (h : Txn settings now C db db') (hc : Consistent db) : Consistent db' := by
  unfold Consistent at hc ⊢
  cases h with
  | other hv hs hj => rw [hv, hs, hj]; exact hc
  | enqueue hv hs hj hsub htype hfits =>
    rw [hv, hs, hj]
    exact hc.insertJob hsub hfits fun h => absurd h htype
  | requeue hv hs hj hjob hfailed =>
    rw [hv, hs, hj]
    refine hc.updateJob fun job hjob' => .requeue now ?_
    rw [hjob] at hjob'
    cases hjob'
    simp [hfailed]
  | @credit i sub f reason hv hs hj hsub hC hpeer hf =>
    have hupdate : Tables db.servers (db.subscriptions.update i f) db.jobs := by
      refine hc.updateSub fun sub' hsub' => ?_
      rw [hsub] at hsub'
      cases hsub'
      exact ⟨hf.toSamePeer, hf.sound hpeer⟩
    rw [hv, hs, hj]
    split_ifs
    · exact hupdate
    · have hget : (db.subscriptions.update i f)[i]? = some (f sub) := by rw [Table.get_update_self, hsub]; rfl
      refine hupdate.insertJob hget ?_ fun h => by simp [newJob] at h
      simp only [Subscription.hasPeer, Bool.and_eq_true] at hpeer
      simpa [Job.Fits, newJob, hf.peer] using hpeer.1
  | debit hv hs hj hsub hf =>
    rw [hv, hs, hj]
    refine hc.updateSub fun sub' hsub' => ?_
    rw [hsub] at hsub'
    cases hsub'
    exact ⟨hf.toSamePeer, hf.sound (hc.sound _ _ hsub)⟩
  | @create sub hv hs hj hserver hpeer hstatus _ hremoved =>
    rw [hv, hs, hj]
    have hsound : sub.Sound := by simp [Subscription.Sound, hpeer, hstatus, hremoved]
    have hget : (db.subscriptions.insert sub)[db.subscriptions.fresh]? = some sub := by simp [Table.get_insert]
    refine (hc.insertSub hserver hpeer hsound).insertJob hget (fun _ => hpeer) fun _ j b hj _ => ?_
    exact hc.aggregate_ne_fresh hj

/-! ### What a change leaves of a row -/

/-- A job in processing is not touched. -/
theorem Txn.processing (h : Txn settings now C db db') {id : JobId} {job : Job} (hjob : db.jobs[id]? = some job)
    (hp : job.status = .processing) : db'.jobs[id]? = some job := by
  cases h with
  | other hv hs hj => rw [hj, hjob]
  | enqueue hv hs hj => rw [hj, Table.get_insert_of_some _ hjob]
  | @requeue i job' hv hs hj hjob' hfailed =>
    have hi : i ≠ id := by
      rintro rfl
      rw [hjob] at hjob'
      cases hjob'
      rw [hp] at hfailed
      cases hfailed
    rw [hj, Table.get_update_of_ne _ _ hi, hjob]
  | credit _ hv hs hj =>
    rw [hj]
    split_ifs
    · exact hjob
    · exact Table.get_insert_of_some _ hjob
  | debit hv hs hj => rw [hj, hjob]
  | create hv hs hj => rw [hj, Table.get_insert_of_some _ hjob]

/-- A job that is not finished stays so, for the same subscription. -/
theorem Txn.unfinished (h : Txn settings now C db db') {id : JobId} {job : Job} (hjob : db.jobs[id]? = some job)
    (hs : job.status ≠ .succeeded) :
    ∃ job', db'.jobs[id]? = some job' ∧ SameJob job job' ∧ job'.status ≠ .succeeded := by
  cases h with
  | @requeue i job' hv hs' hj hjob' hfailed =>
    by_cases hi : i = id
    · refine ⟨job.requeue now, ?_, .requeue now hs, by simp⟩
      rw [hj, hi, Table.get_update_self, hjob]; rfl
    · exact ⟨job, by rw [hj, Table.get_update_of_ne _ _ hi, hjob], ⟨rfl, rfl, rfl, fun h => h⟩, hs⟩
  | other hv hs' hj => exact ⟨job, by rw [hj, hjob], ⟨rfl, rfl, rfl, fun h => h⟩, hs⟩
  | enqueue hv hs' hj => exact ⟨job, by rw [hj, Table.get_insert_of_some _ hjob], ⟨rfl, rfl, rfl, fun h => h⟩, hs⟩
  | credit _ hv hs' hj =>
    refine ⟨job, ?_, ⟨rfl, rfl, rfl, fun h => h⟩, hs⟩
    rw [hj]
    split_ifs
    · exact hjob
    · exact Table.get_insert_of_some _ hjob
  | debit hv hs' hj => exact ⟨job, by rw [hj, hjob], ⟨rfl, rfl, rfl, fun h => h⟩, hs⟩
  | create hv hs' hj => exact ⟨job, by rw [hj, Table.get_insert_of_some _ hjob], ⟨rfl, rfl, rfl, fun h => h⟩, hs⟩

/-- What a change makes of a subscription's row. -/
inductive RowTxn (C : Prop) (sub sub' : Subscription) : Prop
  | same (h : sub' = sub)
  | credit (hC : C) (hpeer : sub.hasPeer) (h : Credited sub sub')
  | debit (h : Debited sub sub')

theorem RowTxn.samePeer {P : Prop} {sub sub' : Subscription} : RowTxn P sub sub' → SamePeer sub sub'
  | .same h => h ▸ ⟨rfl, rfl, rfl⟩
  | .credit _ _ h => h.toSamePeer
  | .debit h => h.toSamePeer

theorem Txn.row (h : Txn settings now C db db') {i : SubscriptionId} {sub : Subscription}
    (hsub : db.subscriptions[i]? = some sub) :
    ∃ sub', db'.subscriptions[i]? = some sub' ∧ RowTxn (C i) sub sub' := by
  cases h with
  | other hv hs => exact ⟨sub, by rw [hs, hsub], .same rfl⟩
  | enqueue hv hs => exact ⟨sub, by rw [hs, hsub], .same rfl⟩
  | requeue hv hs => exact ⟨sub, by rw [hs, hsub], .same rfl⟩
  | @credit j sub₀ f reason hv hs hj hsub₀ hC hpeer hf =>
    by_cases hi : j = i
    · subst hi
      rw [hsub] at hsub₀
      cases hsub₀
      exact ⟨f sub, by rw [hs, Table.get_update_self, hsub]; rfl, .credit hC hpeer hf⟩
    · exact ⟨sub, by rw [hs, Table.get_update_of_ne _ _ hi, hsub], .same rfl⟩
  | @debit j sub₀ f hv hs hj hsub₀ hf =>
    by_cases hi : j = i
    · subst hi
      rw [hsub] at hsub₀
      cases hsub₀
      exact ⟨f sub, by rw [hs, Table.get_update_self, hsub]; rfl, .debit hf⟩
    · exact ⟨sub, by rw [hs, Table.get_update_of_ne _ _ hi, hsub], .same rfl⟩
  | create hv hs => exact ⟨sub, by rw [hs, Table.get_insert_of_some _ hsub], .same rfl⟩

/-- What a session holds ages with the stored rows. -/
theorem Txn.related {R : SubscriptionId → Subscription → Subscription → Prop} {held : Table.Held Subscription}
    (htxn : Txn settings now C db db') (h : held.Related R db.subscriptions)
    (hrow : ∀ i sub sub', RowTxn (C i) sub sub' → ∀ seen, R i seen sub → R i seen sub') :
    held.Related R db'.subscriptions :=
  h.change fun i _ hsub => (htxn.row hsub).imp fun sub' hsub' => ⟨hsub'.1, hrow i _ sub' hsub'.2⟩

/-- The row of a subscription that was just made. -/
structure NewRow (sub : Subscription) : Prop where
  peer : sub.peerExternalId = none
  status : sub.status = .provisioning
  disabledAt : sub.disabledAt = none
  removedAt : sub.removedAt = none
  redelivered : sub.configRedeliveryCount = 0

/-- A row after a change was there before, or is new. -/
theorem Txn.row_before (h : Txn settings now C db db') {i : SubscriptionId} {sub' : Subscription}
    (hsub' : db'.subscriptions[i]? = some sub') :
    (∃ sub, db.subscriptions[i]? = some sub ∧ RowTxn (C i) sub sub') ∨ NewRow sub' := by
  cases hsub : db.subscriptions[i]? with
  | some sub =>
    obtain ⟨sub'', hsub'', hrow⟩ := h.row hsub
    rw [hsub'] at hsub''
    cases hsub''
    exact .inl ⟨sub, rfl, hrow⟩
  | none =>
    refine .inr ?_
    cases h with
    | other hv hs => rw [hs, hsub] at hsub'; cases hsub'
    | enqueue hv hs => rw [hs, hsub] at hsub'; cases hsub'
    | requeue hv hs => rw [hs, hsub] at hsub'; cases hsub'
    | credit _ hv hs => rw [hs, Table.get_update, hsub] at hsub'; simp at hsub'
    | debit hv hs => rw [hs, Table.get_update, hsub] at hsub'; simp at hsub'
    | create hv hs hj hserver hpeer hstatus hdisabled hremoved hredelivered =>
      rw [hs, Table.get_insert, hsub] at hsub'
      split_ifs at hsub'
      cases hsub'
      exact ⟨hpeer, hstatus, hdisabled, hremoved, hredelivered⟩

/-- The subscription has an enable job that is not done: queued, running, retrying or
failed for good. -/
def enableDue (jobs : Table Job) (i : SubscriptionId) : Bool :=
  jobs.any fun job => job.jobType = .enablePeer && job.aggregateId = i && job.status ≠ .succeeded

theorem enableDue_iff {jobs : Table Job} {i : SubscriptionId} :
    enableDue jobs i ↔ ∃ (id : JobId) (job : Job), jobs[id]? = some job ∧ job.jobType = .enablePeer ∧
      job.aggregateId = i ∧ job.status ≠ .succeeded := by
  simp only [enableDue, List.any_eq_true, List.mem_iff_getElem?, Bool.and_eq_true, decide_eq_true_eq, and_assoc]
  constructor
  · rintro ⟨job, ⟨id, hjob⟩, h⟩
    exact ⟨id, job, hjob, h⟩
  · rintro ⟨id, job, hjob, h⟩
    exact ⟨job, ⟨id, hjob⟩, h⟩

theorem Txn.enableDue_mono (h : Txn settings now C db db') {i : SubscriptionId} (he : enableDue db.jobs i) :
    enableDue db'.jobs i := by
  obtain ⟨id, job, hjob, htype, hi, hs⟩ := enableDue_iff.mp he
  obtain ⟨job', hjob', hsame, hs'⟩ := h.unfinished hjob hs
  exact enableDue_iff.mpr ⟨id, job', hjob', hsame.jobType.trans htype, hsame.aggregateId.trans hi, hs'⟩

/-- A disabled subscription that is given time gets an enable job. -/
theorem Txn.enable_of_credit (h : Txn settings now C db db') {i : SubscriptionId} {sub sub' : Subscription}
    (hsub : db.subscriptions[i]? = some sub) (hsub' : db'.subscriptions[i]? = some sub')
    (hold : sub.status ≠ .active) (hnew : sub'.status = .active) : enableDue db'.jobs i := by
  have hsame : db'.subscriptions[i]? = db.subscriptions[i]? → False := by
    intro he
    rw [hsub', hsub] at he
    cases he
    exact hold hnew
  cases h with
  | other hv hs => exact (hsame (by rw [hs])).elim
  | enqueue hv hs => exact (hsame (by rw [hs])).elim
  | requeue hv hs => exact (hsame (by rw [hs])).elim
  | @credit j sub₀ f reason hv hs hj hsub₀ hC hpeer hf =>
    by_cases hi : j = i
    · subst hi
      rw [hsub] at hsub₀
      cases hsub₀
      rw [if_neg hold] at hj
      exact enableDue_iff.mpr
        ⟨db.jobs.fresh, newJob .enablePeer j reason now, by simp [hj, Table.get_insert], rfl, rfl, by simp [newJob]⟩
    · exact (hsame (by rw [hs, Table.get_update_of_ne _ _ hi])).elim
  | @debit j sub₀ f hv hs hj hsub₀ hf =>
    by_cases hi : j = i
    · subst hi
      rw [hs, Table.get_update_self, hsub] at hsub'
      rw [hsub] at hsub₀
      cases hsub₀
      cases hsub'
      exact absurd (hf.status.symm.trans hnew) hold
    · exact (hsame (by rw [hs, Table.get_update_of_ne _ _ hi])).elim
  | create hv hs => exact (hsame (by rw [hs, Table.get_insert_of_some _ hsub, hsub])).elim

/-! ### The handlers and the scheduler -/

theorem txn_createOrder (user : UserId) (server : ServerId) (product : ProductId) (renews : Option SubscriptionId) :
    Txn settings now C db (createOrder db user server product renews) := .other rfl rfl rfl

theorem txn_approve (id : OrderId) (admin : TelegramId) (idHex8 : ℕ)
    (hC : ∀ order i sub, db.orders[id]? = some order → order.awaitsReview →
      renewableSubscription db.subscriptions order = some (i, sub) → C i) :
    Txn settings now C db (callbackAdminApproveOrder db id admin idHex8 now).2 := by
  rcases callbackAdminApproveOrder_cases db id admin idHex8 now with
    ⟨order, product, ho, hr, -, hserver, -, ⟨i, sub, hn, he⟩ | ⟨-, he⟩⟩ | he
  · rw [he]
    obtain ⟨-, hsub, -, -, hpeer⟩ := renewableSubscription_eq_some.mp hn
    refine .credit none rfl rfl rfl hsub (hC order i sub ho hr hn) hpeer ?_
    rw [Subscription.flush_current]
    exact ⟨⟨rfl, rfl, rfl⟩, rfl, .inl rfl, rfl, rfl⟩
  · rw [he]
    exact .create rfl rfl rfl hserver rfl rfl rfl rfl rfl
  · rw [he]
    exact .other rfl rfl rfl

theorem txn_reject (id : OrderId) (admin : TelegramId) :
    Txn settings now C db (callbackAdminRejectOrder db id admin now).2 := by
  unfold callbackAdminRejectOrder
  rcases rejectOrder_cases db id admin (some rejectionReason) now with ⟨_, -, -, he⟩ | he <;>
    (rw [he]; exact .other rfl rfl rfl)

/-- Days added to a subscription with a peer make it active. -/
theorem credited_extend {sub : Subscription} {n : ℤ} (hn : 0 < n) (hs : sub.Sound) (hpeer : sub.hasPeer) :
    Credited sub (sub.extend now n) := by
  have hstatus : sub.status = .active ∨ sub.status = .disabled ∨ sub.status = .expired := by
    simp only [Subscription.hasPeer, Bool.and_eq_true, Option.isSome_iff_exists] at hpeer
    obtain ⟨⟨name, hname⟩, -⟩ := hpeer
    simpa [Subscription.Sound, hname] using hs
  have hsame : SamePeer sub (sub.extend now n) := by
    rcases hstatus with h | h | h <;> constructor <;> simp [Subscription.extend, hn, h]
  rcases hstatus with h | h | h <;> refine ⟨hsame, ?_, ?_, ?_, ?_⟩ <;> simp [Subscription.extend, hn, h]

theorem debited_extend {sub : Subscription} {n : ℤ} (hn : n < 0) : Debited sub (sub.extend now n) := by
  have hnot : ¬ 0 < n := by omega
  refine ⟨⟨?_, ?_, ?_⟩, ?_, ?_, ?_, ?_, ?_⟩ <;> try simp [Subscription.extend, hnot]
  simp only [days, seconds]
  omega

theorem txn_extend {id : SubscriptionId} {n : ℤ} {admin : TelegramId} (hc : Consistent db)
    (hC : 0 < n → C id) (h : adminExtend db id n admin now = some db') : Txn settings now C db db' := by
  obtain ⟨sub, hsub, h⟩ := Option.bind_eq_some_iff.mp h
  simp only [Option.ite_none_left_eq_some, Option.some.injEq, Bool.or_eq_true, decide_eq_true_eq,
    Bool.not_eq_true', not_or, Bool.not_eq_false] at h
  obtain ⟨⟨hn, hpeer⟩, rfl⟩ := h
  rcases Int.lt_or_gt_of_ne hn with hneg | hpos
  · have hd : Debited sub (sub.extend now n) := debited_extend hneg
    refine .debit rfl rfl ?_ hsub hd
    by_cases ha : sub.status = .active
    · simp [ha]
    · simp [hd.status, ha]
  · have hcr : Credited sub (sub.extend now n) := credited_extend hpos (hc.sound _ _ hsub) hpeer
    refine .credit (some .adminExtend) rfl rfl ?_ hsub (hC hpos) hpeer hcr
    by_cases ha : sub.status = .active
    · simp [ha]
    · simp [hcr.status, ha]

theorem txn_redeliver {id : SubscriptionId} {user : UserId}
    (h : redeliverSubscription settings db id user now = some db') : Txn settings now C db db' := by
  obtain ⟨sub, hsub, h⟩ := Option.bind_eq_some_iff.mp h
  split_ifs at h
  cases h
  exact .enqueue rfl rfl rfl hsub (by simp) trivial (by simp) (by simp)

theorem txn_retry {id : JobId} {admin : TelegramId} (h : adminRetry db id admin now = some db') :
    Txn settings now C db db' := by
  obtain ⟨job, hjob, h⟩ := Option.bind_eq_some_iff.mp h
  split_ifs at h with hp
  cases h
  simp only [Bool.and_eq_true, decide_eq_true_eq] at hp
  exact .requeue rfl rfl rfl hjob hp.1 (Option.isNone_iff_eq_none.mp hp.2)

/-- A scheduler pass: changes that give no subscription time, one after another. -/
abbrev Pass (settings : Settings) (now : ℤ) : Database → Database → Prop :=
  Relation.ReflTransGen (Txn settings now fun _ => False)

theorem Pass.related {R : SubscriptionId → Subscription → Subscription → Prop} {held : Table.Held Subscription}
    (hpass : Pass settings now db db') (h : held.Related R db.subscriptions)
    (hrow : ∀ i sub sub', RowTxn False sub sub' → ∀ seen, R i seen sub → R i seen sub') :
    held.Related R db'.subscriptions := by
  induction hpass with
  | refl => exact h
  | tail _ htxn ih => exact htxn.related ih hrow

/-- A pass over subscriptions that exist is a row of changes when each of its steps is
one that leaves the subscriptions alone. -/
theorem pass_foldl {f : Database → SubscriptionId → Database} {ids : List SubscriptionId} (P : Subscription → Prop)
    (hf : ∀ db i sub, db.subscriptions[i]? = some sub → P sub →
      (f db i).subscriptions = db.subscriptions ∧ Txn settings now (fun _ => False) db (f db i)) :
    ∀ {db : Database}, (∀ i ∈ ids, ∃ sub, db.subscriptions[i]? = some sub ∧ P sub) →
      Pass settings now db (ids.foldl f db) := by
  induction ids with
  | nil => exact fun _ => .refl
  | cons i ids ih =>
    intro db h
    obtain ⟨sub, hsub, hP⟩ := h i List.mem_cons_self
    obtain ⟨hsame, htxn⟩ := hf db i sub hsub hP
    refine .head htxn (ih fun j hj => ?_)
    rw [hsame]
    exact h j (List.mem_cons_of_mem i hj)

theorem pass_checkExpired (now : ℤ) (db : Database) : Pass settings now db (checkExpiredSubscriptions db now) := by
  refine pass_foldl (fun _ => True) (fun db i sub hsub _ => ?_) fun i hi => ?_
  · unfold disableExpired
    split_ifs with hopen
    · exact ⟨rfl, .other rfl rfl rfl⟩
    · exact ⟨rfl, .enqueue rfl rfl rfl hsub (by simp) rfl (fun _ => by simpa using hopen) (by simp)⟩
  · obtain ⟨sub, hsub, -⟩ := Table.mem_select.mp hi
    exact ⟨sub, hsub, trivial⟩

theorem graceOver_of_mem_cleanup {subs : Table Subscription} {i : SubscriptionId}
    (hi : i ∈ cleanupSubscriptions settings subs now) : ∃ sub, subs[i]? = some sub ∧ GraceOver settings now sub := by
  obtain ⟨sub, hsub, h⟩ := Table.mem_select.mp hi
  simp only [Bool.and_eq_true, decide_eq_true_eq, Option.any_eq_true] at h
  obtain ⟨hstatus, t, ht, hdue⟩ := h
  exact ⟨sub, hsub, hstatus, t, ht, by omega⟩

theorem pass_cleanup (now : ℤ) (db : Database) :
    Pass settings now db (cleanupRemovedPeers settings db now) := by
  refine pass_foldl (GraceOver settings now) (fun db i sub hsub hdue => ?_) fun i hi => graceOver_of_mem_cleanup hi
  unfold removeDisabled
  split_ifs with hopen
  · exact ⟨rfl, .other rfl rfl rfl⟩
  · exact ⟨rfl, .enqueue rfl rfl rfl hsub (by simp) rfl (fun _ => by simpa using hopen) fun _ => hdue⟩

/-! ### The steps outside the worker -/

/-- The subscription the step gives time to: by approving a renewal of it, or extending it. -/
def credited (s : State) : Step → Option SubscriptionId
  | .approve id _ _ => s.db.orders[id]?.bind fun order =>
    if order.awaitsReview then (renewableSubscription s.db.subscriptions order).map Prod.fst else none
  | .extend id n _ => if 0 < n then some id else none
  | _ => none

/-- The steps of the worker, and time. -/
def Step.isWorker : Step → Bool
  | .claim _ | .read | .call _ | .write _ | .collect _ | .crash | .tick _ => true
  | _ => false

/-- A step outside the worker is one change of the database that gives time to the
subscriptions the step credits, or a scheduler pass. -/
theorem step_txn {s t : State} {a : Step} (hc : Consistent s.db) (ha : a.isWorker = false)
    (hstep : step settings s a = some t) :
    ∃ db', t = { s with db := db' } ∧
    (Txn settings s.now (fun i => credited s a = some i) s.db db' ∨ Pass settings s.now s.db db') := by
  cases a with
  | startOrder user server product =>
    simp only [step] at hstep
    split_ifs at hstep
    cases hstep
    exact ⟨_, rfl, .inl (txn_createOrder ..)⟩
  | startRenewal user sub product =>
    obtain ⟨row, -, h⟩ := Option.bind_eq_some_iff.mp hstep
    split_ifs at h
    cases h
    exact ⟨_, rfl, .inl (txn_createOrder ..)⟩
  | submitReceipt id receipt => cases hstep; exact ⟨_, rfl, .inl (.other rfl rfl rfl)⟩
  | approve id admin idHex8 =>
    cases hstep
    refine ⟨_, rfl, .inl (txn_approve id admin idHex8 fun order i sub ho hr hn => ?_)⟩
    simp [credited, ho, hr, hn]
  | reject id admin => cases hstep; exact ⟨_, rfl, .inl (txn_reject id admin)⟩
  | extend id n admin =>
    obtain ⟨db, hdb, rfl⟩ := Option.map_eq_some_iff.mp hstep
    exact ⟨db, rfl, .inl (txn_extend hc (fun hn => by simp [credited, hn]) hdb)⟩
  | redeliver id user =>
    obtain ⟨db, hdb, rfl⟩ := Option.map_eq_some_iff.mp hstep
    exact ⟨db, rfl, .inl (txn_redeliver hdb)⟩
  | retry id admin =>
    obtain ⟨db, hdb, rfl⟩ := Option.map_eq_some_iff.mp hstep
    exact ⟨db, rfl, .inl (txn_retry hdb)⟩
  | checkExpired => cases hstep; exact ⟨_, rfl, .inr (pass_checkExpired ..)⟩
  | cleanup => cases hstep; exact ⟨_, rfl, .inr (pass_cleanup ..)⟩
  | _ => cases ha

end AmneziaVpnBot.Lifecycle
