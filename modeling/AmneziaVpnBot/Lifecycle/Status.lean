import AmneziaVpnBot.Lifecycle.Turns

/-! The status of a subscription and its timestamps. Both are written together by every
transaction but one: a disable job that is queued again after its subscription was removed
turns it back to disabled, and leaves `removed_at` set; and one whose session still holds the
row as disabled, when it is active again, writes `disabled_at` alone. -/

namespace AmneziaVpnBot

/-- The status says what the peer and the two timestamps of the row are. -/
structure Subscription.StatusAgrees (sub : Subscription) : Prop where
  provisioning : sub.status = .provisioning → sub.peerExternalId = none
  active : sub.status = .active → sub.peerExternalId.isSome ∧ sub.disabledAt = none ∧ sub.removedAt = none
  disabled : sub.status = .disabled → sub.peerExternalId.isSome ∧ sub.disabledAt.isSome ∧ sub.removedAt = none
  expired : sub.status = .expired ↔ sub.removedAt.isSome

namespace Lifecycle

/-- The next job would succeed in disabling a subscription that was removed, or one that is active again and that
its batch's session still holds as disabled, at another time than now. -/
def disablesRemoved (s : State) : Turn → Bool
  | .job .ok _ => (nextJob s).any fun job => job.jobType = .disablePeer &&
    s.db.subscriptions[job.aggregateId]?.any fun sub => sub.removedAt.isSome ||
      sub.status = .active && (s.session.subscriptions job.aggregateId).any fun seen =>
        seen.status = .disabled && seen.disabledAt ≠ some s.now
  | _ => false

/-- As `StatusAgrees`, with what a subscription that waits for its peer has besides. -/
structure RowAgrees (sub : Subscription) : Prop extends sub.StatusAgrees where
  waiting : sub.status = .provisioning → sub.disabledAt = none

/-! ### Rows -/

theorem NewRow.agrees {sub : Subscription} (h : NewRow sub) : RowAgrees sub := by
  refine ⟨⟨fun _ => h.peer, ?_, ?_, ?_⟩, fun _ => h.disabledAt⟩ <;> simp [h.status, h.removedAt]

theorem RowTxn.agrees {P : Prop} {sub sub' : Subscription} (hrow : RowTxn P sub sub') (h : RowAgrees sub) :
    RowAgrees sub' := by
  cases hrow with
  | same he => exact he ▸ h
  | credit hP hpeer hc =>
    simp only [Subscription.hasPeer, Bool.and_eq_true, Option.isNone_iff_eq_none] at hpeer
    have hremoved : sub'.removedAt = none := hc.removedAt.trans hpeer.2
    have hdisabled : sub'.disabledAt = none := by
      rcases hc.disabledAt with he | ⟨hactive, he⟩
      · exact he
      · rw [he, (h.active hactive).2.1]
    refine ⟨⟨?_, fun _ => ⟨?_, hdisabled, hremoved⟩, ?_, ?_⟩, fun _ => hdisabled⟩
    · simp [hc.status]
    · rw [hc.peer]
      exact hpeer.1
    · simp [hc.status]
    · simp [hc.status, hremoved]
  | debit hd =>
    refine ⟨⟨?_, ?_, ?_, ?_⟩, ?_⟩ <;> simp only [hd.status, hd.peer, hd.disabledAt, hd.removedAt]
    · exact h.provisioning
    · exact h.active
    · exact h.disabled
    · exact h.expired
    · exact h.waiting

/-- A version of a row that the session holds, beside the stored one: since it was loaded, the subscription may have
become active again. -/
structure Behind (seen stored : Subscription) : Prop where
  agrees : RowAgrees seen
  peer : stored.peerExternalId = seen.peerExternalId
  removedAt : stored.removedAt = seen.removedAt
  status : (stored.status = seen.status ∧ (seen.status = .expired ∨ stored.disabledAt = seen.disabledAt)) ∨
    stored.hasPeer = true ∧ stored.status = .active ∧ stored.disabledAt = none

theorem Behind.refl {sub : Subscription} (h : RowAgrees sub) : Behind sub sub := ⟨h, rfl, rfl, .inl ⟨rfl, .inr rfl⟩⟩

theorem hasPeer_iff {sub : Subscription} :
    sub.hasPeer = true ↔ sub.peerExternalId.isSome = true ∧ sub.removedAt = none := by
  simp [Subscription.hasPeer]

/-- The stored row agrees when the version that is held does. -/
theorem Behind.stored {seen sub : Subscription} (h : Behind seen sub) : RowAgrees sub := by
  rcases h.status with ⟨hstatus, hdisabled⟩ | ⟨hpeer, hactive, hdisabled⟩
  · refine ⟨⟨?_, ?_, ?_, ?_⟩, ?_⟩ <;> rw [hstatus] <;> try rw [h.peer]
    · exact h.agrees.provisioning
    · intro hs
      rw [hdisabled.resolve_left (by simp [hs]), h.removedAt]
      exact h.agrees.active hs
    · intro hs
      rw [hdisabled.resolve_left (by simp [hs]), h.removedAt]
      exact h.agrees.disabled hs
    · rw [h.removedAt]
      exact h.agrees.expired
    · intro hs
      rw [hdisabled.resolve_left (by simp [hs])]
      exact h.agrees.waiting hs
  · obtain ⟨hpeer, hremoved⟩ := hasPeer_iff.mp hpeer
    exact ⟨⟨by simp [hactive], fun _ => ⟨hpeer, hdisabled, hremoved⟩, by simp [hactive], by simp [hactive, hremoved]⟩,
      by simp [hactive]⟩

theorem RowTxn.behind {P : Prop} {sub sub' : Subscription} (hrow : RowTxn P sub sub') {seen : Subscription}
    (h : Behind seen sub) : Behind seen sub' := by
  have hpeer := hrow.samePeer.peer
  cases hrow with
  | same he => exact he ▸ h
  | credit hP hhas hc =>
    have hremoved := (hasPeer_iff.mp hhas).2
    have hdisabled : sub'.disabledAt = none := by
      rcases hc.disabledAt with he | ⟨hactive, he⟩
      · exact he
      · rw [he, (h.stored.active hactive).2.1]
    refine ⟨h.agrees, hpeer.trans h.peer, hc.removedAt.trans h.removedAt, .inr ⟨?_, hc.status, hdisabled⟩⟩
    rw [hasPeer_iff, hpeer, hc.removedAt]
    exact hasPeer_iff.mp hhas
  | debit hd =>
    refine ⟨h.agrees, hpeer.trans h.peer, hd.removedAt.trans h.removedAt, ?_⟩
    rw [hasPeer_iff, hpeer, hd.removedAt, hd.status, hd.disabledAt, ← hasPeer_iff]
    exact h.status

/-- A disable job acts on a row that was not removed, and not on one that is active and is held as disabled at another
time. -/
structure DisablesInTime (seen stored : Subscription) (now : ℤ) : Prop where
  notRemoved : stored.removedAt = none
  current : stored.status = .active → seen.status = .disabled → seen.disabledAt = some now

section Write

variable {db : Database} {job : Job} {work : Worker.Work} {sub : Subscription}

/-- The peer of a row that a job other than a create job has loaded. -/
theorem Loaded.seen_peer (h : Loaded db job work sub) (ht : job.jobType ≠ .createPeer) :
    work.sub.peerExternalId = some work.peer := h.samePeer.peer.symm.trans (h.peer ht)

theorem Loaded.seen_status (h : Loaded db job work sub) (ht : job.jobType ≠ .createPeer) :
    work.sub.status = .active ∨ work.sub.status = .disabled ∨ work.sub.status = .expired := by
  have hsound := h.sound
  rw [Subscription.Sound, h.seen_peer ht] at hsound
  exact hsound

theorem Behind.create (h : Behind work.sub sub) (hload : Loaded db job work sub) (hnone : sub.peerExternalId = none)
    (delivered : Bool) : Behind (work.activated delivered) (work.sub.flush (work.activated delivered) sub) := by
  have hpeer : work.sub.peerExternalId = none := h.peer.symm.trans hnone
  have hsound := hload.sound
  simp only [Subscription.Sound, hpeer] at hsound
  obtain ⟨hstatus, hremoved⟩ := hsound
  have hdisabled : work.sub.disabledAt = none := h.agrees.waiting hstatus
  refine ⟨⟨⟨?_, fun _ => ⟨rfl, hdisabled, hremoved⟩, ?_, ?_⟩, ?_⟩, Table.flushColumn_eq h.peer _,
    Table.flushColumn_eq h.removedAt _, .inl ⟨?_, .inr ?_⟩⟩
  · simp [Worker.Work.activated, Subscription.markActive]
  · simp [Worker.Work.activated, Subscription.markActive]
  · simp [Worker.Work.activated, Subscription.markActive, hremoved]
  · simp [Worker.Work.activated, Subscription.markActive]
  · simp [Subscription.flush, Worker.Work.activated, Subscription.markActive, Table.flushColumn, hstatus]
  · -- the row had no peer, so no time was added to it
    rcases h.status with ⟨-, hsame⟩ | ⟨hhas, -⟩
    · exact Table.flushColumn_eq (hsame.resolve_left (by simp [hstatus])) _
    · simp [Subscription.hasPeer, hnone] at hhas

theorem Behind.disable (h : Behind work.sub sub) (hload : Loaded db job work sub) (ht : job.jobType = .disablePeer)
    {now : ℤ} (hg : DisablesInTime work.sub sub now) :
    Behind (work.sub.markDisabled now) (work.sub.flush (work.sub.markDisabled now) sub) := by
  have hpeer := hload.seen_peer (by simp [ht])
  have hremoved : work.sub.removedAt = none := h.removedAt.symm.trans hg.notRemoved
  have hpeer' : (work.sub.flush (work.sub.markDisabled now) sub).peerExternalId = work.sub.peerExternalId :=
    Table.flushColumn_eq h.peer _
  have hremoved' : (work.sub.flush (work.sub.markDisabled now) sub).removedAt = work.sub.removedAt :=
    Table.flushColumn_eq h.removedAt _
  refine ⟨⟨⟨?_, ?_, fun _ => ⟨?_, rfl, hremoved⟩, ?_⟩, ?_⟩, hpeer', hremoved', ?_⟩
  · simp [Subscription.markDisabled]
  · simp [Subscription.markDisabled]
  · simp [Subscription.markDisabled, hpeer]
  · simp [Subscription.markDisabled, hremoved]
  · simp [Subscription.markDisabled]
  · show (Table.flushColumn _ _ _ = _ ∧ (_ ∨ Table.flushColumn _ _ _ = _)) ∨
      _ ∧ Table.flushColumn _ _ _ = _ ∧ Table.flushColumn _ _ _ = _
    rw [hasPeer_iff, hpeer', hremoved', hpeer, hremoved]
    simp only [Subscription.markDisabled, Table.flushColumn]
    rcases hload.seen_status (by simp [ht]) with hs | hs | hs
    · have hnone := (h.agrees.active hs).2.1
      simp [hs, hnone]
    · rcases h.status with ⟨hstatus, hdisabled⟩ | ⟨-, hactive, hdisabled⟩
      · have hsame := hdisabled.resolve_left (by simp [hs])
        by_cases hnow : some now = work.sub.disabledAt <;> simp [hs, hstatus, hsame, hnow]
      · simp [hs, hactive, hdisabled, hg.current hactive hs]
    · have hsome := h.agrees.expired.mp hs
      rw [hremoved] at hsome
      cases hsome

theorem Behind.remove (h : Behind work.sub sub) (now : ℤ) :
    Behind (work.sub.markRemoved now) (work.sub.flush (work.sub.markRemoved now) sub) := by
  refine ⟨⟨⟨?_, ?_, ?_, ?_⟩, ?_⟩, Table.flushColumn_eq h.peer _, Table.flushColumn_eq h.removedAt _,
    .inl ⟨?_, .inl rfl⟩⟩
  · simp [Subscription.markRemoved]
  · simp [Subscription.markRemoved]
  · simp [Subscription.markRemoved]
  · simp [Subscription.markRemoved]
  · simp [Subscription.markRemoved]
  · show Table.flushColumn _ SubscriptionStatus.expired _ = .expired
    by_cases hs : work.sub.status = .expired
    · -- a row that was removed is given no time
      rcases h.status with ⟨hstatus, -⟩ | ⟨hhas, -⟩
      · exact Table.flushColumn_eq hstatus _
      · have hsome := h.agrees.expired.mp hs
        rw [← h.removedAt, (hasPeer_iff.mp hhas).2] at hsome
        cases hsome
    · exact if_neg (Ne.symm hs)

/-- What a job sets and writes, unless it disables a subscription too late. -/
theorem Behind.row (h : Behind work.sub sub) (hload : Loaded db job work sub) {delivered : Bool} {now : ℤ}
    (hcreate : job.jobType = .createPeer → sub.peerExternalId = none)
    (hguard : job.jobType = .disablePeer → DisablesInTime work.sub sub now) :
    Behind (work.row job.jobType delivered now) (work.sub.flush (work.row job.jobType delivered now) sub) := by
  cases ht : job.jobType with
  | createPeer => exact h.create hload (hcreate ht) delivered
  | disablePeer => exact h.disable hload ht (hguard ht)
  | removePeer => exact h.remove now
  | enablePeer =>
    rw [Worker.Work.row, Subscription.flush_unset]
    exact h
  | redeliverConfig =>
    refine ⟨⟨⟨h.agrees.provisioning, h.agrees.active, h.agrees.disabled, h.agrees.expired⟩, h.agrees.waiting⟩,
      Table.flushColumn_eq h.peer _, Table.flushColumn_eq h.removedAt _, ?_⟩
    simpa [Subscription.flush, Worker.Work.row, Subscription.hasPeer] using h.status

end Write

/-! ### Turns and runs -/

structure Agreeing (s : State) : Prop extends Rested s where
  rows : s.db.subscriptions.All fun _ sub => RowAgrees sub
  held : s.session.subscriptions.Related (fun _ => Behind) s.db.subscriptions

theorem agreeing_start (users : Table User) (servers : Table VpnServer) (products : Table Product) (now : ℤ) :
    Agreeing (start users servers products now) :=
  ⟨rested_start .., by simp [start, Table.All], Table.Held.Related.empty _⟩

theorem Agreeing.refl {s : State} (h : Agreeing s) (i : SubscriptionId) (sub : Subscription)
    (hsub : s.db.subscriptions[i]? = some sub) : Behind sub sub := .refl (h.rows i sub hsub)

/-- The version of a row that the worker sees, beside the stored one. -/
theorem Agreeing.behind {s : State} (h : Agreeing s) {i : SubscriptionId} {seen sub : Subscription}
    (hseen : s.seen.subscriptions[i]? = some seen) (hsub : s.db.subscriptions[i]? = some sub) : Behind seen sub := by
  obtain ⟨stored, hstored, hbehind⟩ := h.held.view h.refl hseen
  rw [hsub] at hstored
  cases hstored
  exact hbehind

theorem rows_txn {settings : Settings} {now : ℤ} {C : SubscriptionId → Prop} {db db' : Database}
    (h : db.subscriptions.All fun _ sub => RowAgrees sub) (htxn : Txn settings now C db db') :
    db'.subscriptions.All fun _ sub => RowAgrees sub := by
  intro i sub' hsub'
  rcases htxn.row_before hsub' with ⟨sub, hsub, hrow⟩ | hnew
  · exact hrow.agrees (h i sub hsub)
  · exact hnew.agrees

theorem rows_pass {settings : Settings} {now : ℤ} {db db' : Database}
    (h : db.subscriptions.All fun _ sub => RowAgrees sub) (hpass : Pass settings now db db') :
    db'.subscriptions.All fun _ sub => RowAgrees sub := by
  induction hpass with
  | refl => exact h
  | tail _ htxn ih => exact rows_txn ih htxn

/-- A job that does not disable its subscription too late finds it in time. -/
theorem disablesInTime {s : State} {delivered : Bool} {job : Job} {seen sub : Subscription}
    (hjob : nextJob s = some job)
    (ht : job.jobType = .disablePeer) (hseen : s.seen.subscriptions[job.aggregateId]? = some seen)
    (hsub : s.db.subscriptions[job.aggregateId]? = some sub) (hguard : disablesRemoved s (.job .ok delivered) = false) :
    DisablesInTime seen sub s.now := by
  simp only [disablesRemoved, hjob, Option.any_some, ht, decide_true, Bool.true_and, hsub, Bool.or_eq_false_iff,
    Option.isSome_eq_false_iff, Option.isNone_iff_eq_none] at hguard
  refine ⟨hguard.1, fun hactive hdisabled => ?_⟩
  obtain ⟨stored, hstored, hheld | rfl⟩ := Table.Held.of_view hseen
  · by_contra hnow
    have hstale := hguard.2
    simp [hactive, hheld, hdisabled, hnow] at hstale
  · rw [hsub, Option.some.injEq] at hstored
    rw [← hstored, hactive] at hdisabled
    cases hdisabled

/-- What a job sets and writes of its subscription. -/
theorem Agreeing.write {s : State} (h : Agreeing s) {reply : Reply} {delivered : Bool} {id : JobId} {rest : List JobId}
    {job : Job} {t : State} {work : Worker.Work} {sub : Subscription} (hran : RanNext s reply delivered id rest job t)
    (hok : reply = .ok) (hseen : s.seen.subscriptions[job.aggregateId]? = some work.sub)
    (hload : Loaded s.db job work sub)
    (hguard : disablesRemoved s (.job reply delivered) = false) :
    Behind (work.row job.jobType delivered s.now) (work.sub.flush (work.row job.jobType delivered s.now) sub) := by
  have hjob : nextJob s = some job := by simp [nextJob, hran.batch, hran.get]
  refine (h.behind hseen hload.get).row hload (fun ht => ?_) fun ht => ?_
  · exact h.wf.consistent.peer_none hran.get hran.processing ht hload.get
  · subst hok
    exact disablesInTime hjob ht hseen hload.get hguard

theorem agreeing_ran {s t : State} {reply : Reply} {delivered : Bool} {id : JobId} {rest : List JobId} {job : Job}
    (h : Agreeing s) (hran : RanNext s reply delivered id rest job t)
    (hguard : disablesRemoved s (.job reply delivered) = false) : Agreeing t := by
  suffices hrows : (t.db.subscriptions.All fun _ sub => RowAgrees sub) ∧
      t.session.subscriptions.Related (fun _ => Behind) t.db.subscriptions from
    ⟨⟨hran.wf, hran.idle⟩, hrows.1, hrows.2⟩
  have hdb := hran.ran
  generalize t.db = db, t.session = session at hdb
  cases hdb with
  | skipped => exact ⟨h.rows, IdentityMap.related_load h.held h.refl _⟩
  | failed => exact ⟨h.rows, Table.Held.Related.empty _⟩
  | @done work sub db hok hseen hload hw =>
    obtain ⟨-, -, hsubs⟩ := Worker.write_eq_some hw
    have hset := h.write hran hok hseen hload hguard
    show db.subscriptions.All _ ∧ _
    rw [hsubs]
    refine ⟨h.rows.update fun sub' hsub' _ => ?_, ?_⟩
    · rw [hload.get] at hsub'
      cases hsub'
      exact hset.stored
    · exact (IdentityMap.related_load h.held h.refl _).set hload.get hset

theorem agreeing_turn {settings : Settings} {s t : State} {a : Turn} (h : Agreeing s)
    (hguard : disablesRemoved s a = false)
    (hturn : turn settings s a = some t) : Agreeing t := by
  have hrested := rested_turn h.toRested hturn
  cases a with
  | job reply delivered =>
    obtain ⟨id, rest, job, hran⟩ := runNext_cases h.wf hturn
    exact agreeing_ran h hran hguard
  | bot a =>
    cases turn_bot_cases h.wf hturn with
    | txn htxn =>
      exact ⟨hrested, rows_txn h.rows htxn, htxn.related h.held fun _ _ _ hrow _ hbehind => hrow.behind hbehind⟩
    | pass hpass =>
      exact ⟨hrested, rows_pass h.rows hpass, hpass.related h.held fun _ _ _ hrow _ hbehind => hrow.behind hbehind⟩
    | claim | crash => exact ⟨hrested, h.rows, Table.Held.Related.empty _⟩
    | collect => exact ⟨hrested, h.rows, h.held.forget _⟩
    | tick => exact ⟨hrested, h.rows, h.held⟩

/-- A disable job that comes too late. -/
structure DisablesLate (s : State) (job : Job) (sub : Subscription) : Prop where
  next : nextJob s = some job
  jobType : job.jobType = .disablePeer
  get : s.db.subscriptions[job.aggregateId]? = some sub
  late : sub.removedAt.isSome ∨ sub.status = .active ∧ ∃ seen, s.session.subscriptions job.aggregateId = some seen ∧
    seen.status = .disabled ∧ seen.disabledAt ≠ some s.now

theorem disablesRemoved_cases {s : State} {a : Turn} (h : disablesRemoved s a = true) :
    ∃ delivered job sub, a = .job .ok delivered ∧ DisablesLate s job sub := by
  unfold disablesRemoved at h
  split at h
  next delivered =>
    obtain ⟨job, hjob, h⟩ := Option.any_eq_true _ _ |>.mp h
    simp only [Bool.and_eq_true, decide_eq_true_eq] at h
    obtain ⟨ht, h⟩ := h
    obtain ⟨sub, hsub, hlate⟩ := Option.any_eq_true _ _ |>.mp h
    refine ⟨delivered, job, sub, rfl, hjob, ht, hsub, ?_⟩
    simpa [Option.any_eq_true] using hlate
  · cases h

/-- What the job sees of its subscription: it was removed, or it is off. -/
theorem DisablesLate.seen {s : State} {job : Job} {sub seen : Subscription} (hlate : DisablesLate s job sub)
    (h : Agreeing s) (hseen : s.seen.subscriptions[job.aggregateId]? = some seen) :
    sub.removedAt.isSome ∧ seen.status = .expired ∨
      sub.status = .active ∧ seen.status = .disabled ∧ seen.disabledAt ≠ some s.now := by
  have hbehind := h.behind hseen hlate.get
  rcases hlate.late with hremoved | ⟨hactive, held, hheld, hdisabled, hnow⟩
  · exact .inl ⟨hremoved, hbehind.agrees.expired.mpr (hbehind.removedAt ▸ hremoved)⟩
  · obtain rfl := Option.some.inj ((Table.Held.view_of_some hheld hlate.get).symm.trans hseen)
    exact .inr ⟨hactive, hdisabled, hnow⟩

/-- It goes on to its call. -/
theorem DisablesLate.not_skip {s : State} {job : Job} {sub : Subscription} (hlate : DisablesLate s job sub)
    (h : Agreeing s) : Worker.read s.seen job s.now ≠ .skip := by
  intro hskip
  obtain ⟨seen, hseen⟩ : ∃ seen, s.seen.subscriptions[job.aggregateId]? = some seen :=
    Option.isSome_iff_exists.mp (Table.Held.isSome_view.trans (by rw [hlate.get]; rfl))
  have hbehind := h.behind hseen hlate.get
  obtain ⟨sub', hsub', haged⟩ := h.wf.seen hseen
  have hsound := haged.sound
  unfold Subscription.Sound at hsound
  cases hpeer : seen.peerExternalId with
  | none =>
    rcases hlate.seen h hseen with ⟨-, hstatus⟩ | ⟨-, hstatus, -⟩ <;> simp [hpeer, hstatus] at hsound
  | some n =>
    rcases hlate.seen h hseen with ⟨-, hstatus⟩ | ⟨-, hstatus, -⟩ <;>
      simp [Worker.read, hseen, Worker.readSubscription, hlate.jobType, Worker.renewed, Subscription.renewed, hstatus,
        Worker.goOn, hpeer] at hskip

/-- Such a disable job leaves its subscription disabled, with `removed_at` set, or active, with `disabled_at` set. -/
theorem breaks_of_disablesRemoved {settings : Settings} {s t : State} {a : Turn} (h : Agreeing s)
    (hbad : disablesRemoved s a = true) (hturn : turn settings s a = some t) :
    ¬ t.db.subscriptions.All fun _ sub => sub.StatusAgrees := by
  intro hall
  obtain ⟨delivered, job, sub, rfl, hlate⟩ := disablesRemoved_cases hbad
  obtain ⟨id, rest, job', hran⟩ := runNext_cases h.wf hturn
  have hnext := hlate.next
  simp only [nextJob, hran.batch, hran.get, List.head?_cons, Option.bind_some, Option.some.injEq] at hnext
  subst hnext
  have hdb := hran.ran
  generalize t.db = db, t.session = session at hdb hall
  cases hdb with
  | skipped hskip => exact hlate.not_skip h hskip
  | failed error isRetryable hfail => exact hfail (.inl hlate.jobType) rfl
  | @done work sub' db hok hseen hload hw =>
    obtain ⟨-, -, hsubs⟩ := Worker.write_eq_some hw
    have hrow := hall job'.aggregateId (work.sub.flush (work.sub.markDisabled s.now) sub) (by
      show db.subscriptions[job'.aggregateId]? = _
      rw [hsubs, Table.get_update_self, hlate.get, hlate.jobType]
      rfl)
    rcases hlate.seen h hseen with ⟨hremoved, hexpired⟩ | ⟨hactive, hdisabled, hnow⟩
    · have hnone :=
        (hrow.disabled (by simp [Subscription.flush, Subscription.markDisabled, Table.flushColumn, hexpired])).2.2
      simp only [Subscription.flush, Subscription.markDisabled, Table.flushColumn, if_true] at hnone
      rw [hnone] at hremoved
      cases hremoved
    · have hnone := (hrow.active (by
        simp [Subscription.flush, Subscription.markDisabled, Table.flushColumn, hdisabled, hactive])).2.1
      simp [Subscription.flush, Subscription.markDisabled, Table.flushColumn, Ne.symm hnow] at hnone

/-- In every state of a run the status of every subscription agrees with its peer and its
timestamps, if and only if no disable job of the run succeeds for a subscription that was removed, or for an
active one that its batch's session still holds as disabled. -/
theorem statusAgrees_run {settings : Settings} {users : Table User} {servers : Table VpnServer}
    {products : Table Product} {now : ℤ} {as : List Turn} {s : State}
    (hrun : Machine.run (turn settings) (start users servers products now) as = some s) :
    (∀ (bs cs : List Turn) (t : State), as = bs ++ cs →
      Machine.run (turn settings) (start users servers products now) bs = some t →
      t.db.subscriptions.All fun _ sub => sub.StatusAgrees) ↔
    Machine.Along (turn settings) (fun s a => disablesRemoved s a = false) (start users servers products now) as := by
  constructor
  · intro hall
    have hnext : Machine.Along (turn settings)
        (fun s a => ∃ t, turn settings s a = some t ∧ t.db.subscriptions.All fun _ sub => sub.StatusAgrees)
        (start users servers products now) as := by
      refine Machine.along_iff.mpr fun bs cs a t hsplit ht => ?_
      rw [hsplit, Machine.run_append, ht] at hrun
      obtain ⟨u, hturn, -⟩ := Machine.run_cons_eq_some.mp hrun
      refine ⟨u, hturn, hall (bs ++ [a]) cs u (by simp [hsplit]) ?_⟩
      simp [Machine.run_append, ht, hturn]
    have htimely : ∀ s a, Agreeing s →
        (∃ t, turn settings s a = some t ∧ t.db.subscriptions.All fun _ sub => sub.StatusAgrees) →
        disablesRemoved s a = false := by
      rintro s a h ⟨t, hturn, hagrees⟩
      exact Bool.eq_false_iff.mpr fun hbad => breaks_of_disablesRemoved h hbad hturn hagrees
    exact Machine.along_of_invariant (fun s a t h hg ht => agreeing_turn h (htimely s a h hg) ht) htimely hnext
      (agreeing_start ..)
  · rintro hguard bs cs t rfl ht
    have hinv :=
      Machine.invariant_along (fun _ _ _ h hg ht => agreeing_turn h hg ht) ((Machine.along_append ht).mp hguard).1
      ht (agreeing_start ..)
    exact hinv.rows.mono fun _ _ hrow => hrow.toStatusAgrees

/-- A subscription that runs out is disabled in the scheduler's second attempt. -/
def secondDisable : List Turn :=
  [.bot (.one (.startOrder 0 0 0)), .bot (.one (.approve 0 7 1)), .bot (.one (.claim 10)), .job .ok true,
    .bot (.one (.tick 2592000000000)), .bot (.one .checkExpired), .bot (.one (.claim 10)),
    .job (.failed "bad input" false) true, .bot (.one .checkExpired), .bot (.one (.claim 10)), .job .ok true]

theorem statusAgrees_run_secondDisable : ∃ s, Machine.run (turn ⟨30, 3⟩) small secondDisable = some s ∧
    s.db.subscriptions.map Subscription.status = [.disabled] ∧
    s.db.subscriptions.All fun _ sub => sub.StatusAgrees := by
  have hguard : Machine.Along (turn ⟨30, 3⟩) (fun s a => disablesRemoved s a = false) small secondDisable := by
    decide +kernel
  have hrun : (Machine.run (turn ⟨30, 3⟩) small secondDisable).any
      (fun s => s.db.subscriptions.map Subscription.status = [.disabled]) = true := by decide +kernel
  obtain ⟨s, hs, hdisabled⟩ := Machine.exists_of_any hrun
  exact ⟨s, hs, by simpa using hdisabled, (statusAgrees_run hs).mpr hguard secondDisable [] s (by simp) hs⟩

/-- The subscription is removed after its grace period, and an admin retries the first
disable job. -/
def lateDisable : List Turn := secondDisable ++
  [.bot (.one (.tick 2592000000000)), .bot (.one .cleanup), .bot (.one (.claim 10)), .job .ok true,
    .bot (.one (.retry 1 7)), .bot (.one (.claim 10)), .job .ok true]

/-- It is disabled again, with `removed_at` set. -/
theorem not_statusAgrees_lateDisable : ∃ s, Machine.run (turn ⟨30, 3⟩) small lateDisable = some s ∧
    ¬ s.db.subscriptions.All fun _ sub => sub.StatusAgrees := by
  have hrun : (Machine.run (turn ⟨30, 3⟩) small lateDisable).any
      (fun s => s.db.subscriptions[0]?.any fun sub => sub.status = .disabled && sub.removedAt.isSome) = true := by
    decide +kernel
  obtain ⟨s, hs, hsub⟩ := Machine.exists_of_any hrun
  refine ⟨s, hs, fun hall => ?_⟩
  obtain ⟨sub, hget, hsub⟩ := Option.any_eq_true _ _ |>.mp hsub
  simp only [Bool.and_eq_true, decide_eq_true_eq] at hsub
  have hremoved := ((hall 0 sub hget).disabled hsub.1).2.2
  rw [hremoved] at hsub
  cases hsub.2

/-- The first disable job is retried while the subscription is off; a create job of its batch loads the row, and the
subscription is renewed before the disable job starts. -/
def staleDisable : List Turn := secondDisable ++
  [.bot (.one (.startRenewal 0 0 0)), .bot (.one (.startOrder 0 0 0)), .bot (.one (.approve 2 7 2)),
    .bot (.one (.tick 1)), .bot (.one (.retry 1 7)), .bot (.one (.claim 10)), .job .ok true,
    .bot (.one (.approve 1 7 3)), .job .ok true]

example : (Machine.run (turn ⟨30, 3⟩) small staleDisable).any (fun s => s.db.subscriptions[0]?.any fun sub =>
    sub.status = .active && sub.disabledAt.isSome) = true := by decide +kernel

end Lifecycle

end AmneziaVpnBot
