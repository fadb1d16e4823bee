import AmneziaVpnBot.Lifecycle.Invariant

/-! Paid time. A subscription with time left is active, and its peer is on or an enable
job will turn it on. A disable or remove job that goes on has found no time left; what it
cannot see is time added while it is under way, or since its batch's session loaded the row,
or added to a subscription whose peer is already off but whose status still says active. -/

namespace AmneziaVpnBot.Lifecycle

/-- A subscription with a peer and time left, and with no job that is not done, is active
and not removed, and its peer is on. -/
def PaidServed (s : State) : Prop :=
  ∀ (i : SubscriptionId) (sub : Subscription) (n : PeerName), s.db.subscriptions[i]? = some sub →
    (∀ (id : JobId) (job : Job), s.db.jobs[id]? = some job → job.aggregateId = i → job.status = .succeeded) →
    sub.peerExternalId = some n → s.now < sub.expiresAt →
    sub.status = .active ∧ sub.removedAt = none ∧ s.peers sub.vpnServerId n = .enabled

/-- The job turns its subscription's peer off. -/
def turnsOff (job : Job) : Bool := job.jobType = .disablePeer || job.jobType = .removePeer

/-- The worker has decided to carry out a disable or remove job for the subscription, and
has neither written its result nor seen it fail. -/
def offInHand (s : State) (i : SubscriptionId) : Bool :=
  match s.phase with
  | .decided _ job (.go _) => turnsOff job && job.aggregateId = i
  | .called _ job _ none => turnsOff job && job.aggregateId = i
  | _ => false

/-- Time may be added to the subscription: no disable or remove job is under way for it,
and if its status is active, its peer is on or an enable job for it is not done. -/
def creditSafe (s : State) (i : SubscriptionId) : Bool :=
  !offInHand s i && s.db.subscriptions[i]?.all fun sub =>
    sub.status ≠ .active || enableDue s.db.jobs i ||
      sub.peerExternalId.all fun n => s.peers sub.vpnServerId n = .enabled

/-- When the next job is to turn a peer off and its subscription was renewed, the job sees that: the session
does not hold the row as it was before. -/
def seesRenewal (s : State) : Bool :=
  (nextJob s).all fun job => !turnsOff job || s.db.subscriptions[job.aggregateId]?.all fun sub =>
    !sub.renewed s.now || (s.session.subscriptions job.aggregateId).all fun seen => seen.renewed s.now

/-- A step adds time only when that is safe, and a job that is to turn a peer off starts only when it sees the time
that was added. -/
def creditsSafely (s : State) (a : Step) : Bool :=
  (credited s a).all (creditSafe s) && match a with
    | .read => seesRenewal s
    | _ => true

structure Paid (s : State) : Prop where
  active : ∀ (i : SubscriptionId) (sub : Subscription) (n : PeerName), s.db.subscriptions[i]? = some sub →
    sub.peerExternalId = some n → s.now < sub.expiresAt → sub.status = .active ∧ sub.removedAt = none
  on : ∀ (i : SubscriptionId) (sub : Subscription) (n : PeerName), s.db.subscriptions[i]? = some sub →
    sub.peerExternalId = some n → s.now < sub.expiresAt →
    s.peers sub.vpnServerId n = .enabled ∨ enableDue s.db.jobs i
  off : ∀ (i : SubscriptionId) (sub : Subscription), offInHand s i → s.db.subscriptions[i]? = some sub →
    sub.expiresAt ≤ s.now

theorem Paid.served {s : State} (h : Paid s) : PaidServed s := by
  intro i sub n hsub hdone hn hfunded
  obtain ⟨hactive, hremoved⟩ := h.active i sub n hsub hn hfunded
  refine ⟨hactive, hremoved, (h.on i sub n hsub hn hfunded).resolve_right fun hdue => ?_⟩
  obtain ⟨id, job, hjob, -, hagg, hs⟩ := enableDue_iff.mp hdue
  exact hs (hdone id job hjob hagg)

theorem paid_start (users : Table User) (servers : Table VpnServer) (products : Table Product) (now : ℤ) :
    Paid (start users servers products now) := by
  refine ⟨?_, ?_, ?_⟩ <;> simp [start]

/-! ### Under the rest of the bot -/

/-- The subscription of a disable or remove job under way exists. -/
theorem Wf.sub_of_offInHand {s : State} (h : Wf s) {i : SubscriptionId} (hoff : offInHand s i) :
    ∃ sub, s.db.subscriptions[i]? = some sub := by
  have hp := h.phase
  unfold offInHand at hoff
  split at hoff
  next id job work hphase =>
    rw [hphase] at hp
    obtain ⟨-, sub, hload⟩ := hp
    simp only [Bool.and_eq_true, decide_eq_true_eq] at hoff
    exact ⟨sub, hoff.2 ▸ hload.get⟩
  next id job work hphase =>
    rw [hphase] at hp
    obtain ⟨-, ⟨sub, hload⟩, -⟩ := hp
    simp only [Bool.and_eq_true, decide_eq_true_eq] at hoff
    exact ⟨sub, hoff.2 ▸ hload.get⟩
  · cases hoff

theorem Paid.txn {s : State} {C : SubscriptionId → Prop} {db : Database} (h : Paid s) (hwf : Wf s)
    (htxn : Txn settings s.now C s.db db) (hC : ∀ i, C i → creditSafe s i) : Paid { s with db := db } := by
  refine ⟨fun i sub' n hsub' hn hfunded => ?_, fun i sub' n hsub' hn hfunded => ?_, fun i sub' hoff hsub' => ?_⟩
  · rcases htxn.row_before hsub' with ⟨sub, hsub, hrow⟩ | hnew
    · have hn' : sub.peerExternalId = some n := hrow.samePeer.peer ▸ hn
      cases hrow with
      | same he => subst he; exact h.active i _ n hsub hn' hfunded
      | credit hc hpeer hcr =>
        refine ⟨hcr.status, hcr.removedAt.trans ?_⟩
        simp only [Subscription.hasPeer, Bool.and_eq_true, Option.isNone_iff_eq_none] at hpeer
        exact hpeer.2
      | debit hd =>
        have hold := h.active i sub n hsub hn' (hfunded.trans_le hd.expiresAt)
        exact ⟨hd.status.trans hold.1, hd.removedAt.trans hold.2⟩
    · rw [hnew.peer] at hn
      cases hn
  · rcases htxn.row_before hsub' with ⟨sub, hsub, hrow⟩ | hnew
    · have hsame := hrow.samePeer
      have hn' : sub.peerExternalId = some n := hsame.peer ▸ hn
      have hold (hf : s.now < sub.expiresAt) : s.peers sub'.vpnServerId n = .enabled ∨ enableDue db.jobs i := by
        rw [hsame.server]
        exact (h.on i sub n hsub hn' hf).imp_right htxn.enableDue_mono
      cases hrow with
      | same he => subst he; exact hold hfunded
      | credit hc hpeer hcr =>
        by_cases ha : sub.status = .active
        · have hsafe := hC i hc
          simp only [creditSafe, hsub, Option.all_some, Bool.and_eq_true, Bool.or_eq_true, decide_eq_true_eq,
            hn', ha, ne_eq, not_true_eq_false, false_or] at hsafe
          rcases hsafe.2 with hdue | hon
          · exact .inr (htxn.enableDue_mono hdue)
          · exact .inl (by rw [hsame.server]; exact hon)
        · exact .inr (htxn.enable_of_credit hsub hsub' ha hcr.status)
      | debit hd => exact hold (hfunded.trans_le hd.expiresAt)
    · rw [hnew.peer] at hn
      cases hn
  · have hoff' : offInHand s i = true := hoff
    obtain ⟨sub, hsub⟩ := hwf.sub_of_offInHand hoff'
    obtain ⟨sub'', hsub'', hrow⟩ := htxn.row hsub
    rw [hsub''] at hsub'
    cases hsub'
    have hold := h.off i sub hoff' hsub
    cases hrow with
    | same he => exact he ▸ hold
    | credit hc hpeer hcr =>
      have hsafe := hC i hc
      simp [creditSafe, hoff'] at hsafe
    | debit hd => exact hd.expiresAt.trans hold

theorem Paid.pass {s : State} {db : Database} (h : Paid s) (hwf : Wf s) (hpass : Pass settings s.now s.db db) :
    Paid { s with db := db } := by
  have hboth : Wf { s with db := db } ∧ Paid { s with db := db } := by
    induction hpass with
    | refl => exact ⟨hwf, h⟩
    | tail _ htxn ih => exact ⟨ih.1.txn htxn, ih.2.txn ih.1 htxn fun i hi => hi.elim⟩
  exact hboth.2

/-! ### Under the worker -/

theorem enableDue_claim {jobs : Table Job} {i : SubscriptionId} (w : WorkerId) (now : ℤ) (limit : ℕ)
    (h : enableDue jobs i) : enableDue (claimPendingJobs jobs w now limit).1 i := by
  obtain ⟨id, job, hjob, htype, hagg, hs⟩ := enableDue_iff.mp h
  rcases claimEach_row w now (candidates_nodup jobs now limit) jobs id with ⟨-, hrow⟩ | ⟨job', hjob', -, -, hrow⟩
  · exact enableDue_iff.mpr ⟨id, job, hrow.trans hjob, htype, hagg, hs⟩
  · rw [hjob] at hjob'
    cases hjob'
    exact enableDue_iff.mpr ⟨id, job.claim w now, hrow, htype, hagg, by simp⟩

/-- What a job sees of a renewed row is renewed. -/
theorem renewed_of_seesRenewal {s : State} {job : Job} (hnext : nextJob s = some job) (hg : seesRenewal s)
    (ht : turnsOff job)
    {sub seen : Subscription} (hsub : s.db.subscriptions[job.aggregateId]? = some sub)
    (hseen : s.seen.subscriptions[job.aggregateId]? = some seen) (hrenewed : sub.renewed s.now = true) :
    seen.renewed s.now = true := by
  simp only [seesRenewal, hnext, Option.all_some, ht, Bool.not_true, Bool.false_or, hsub, hrenewed] at hg
  obtain ⟨sub', hsub', hheld | rfl⟩ := Table.Held.of_view hseen
  · rwa [hheld, Option.all_some] at hg
  · rw [hsub] at hsub'
    cases hsub'
    exact hrenewed

/-- A disable or remove job goes on only for a subscription that has no time left. -/
theorem Paid.expired_of_read {s : State} (h : Paid s) (hwf : Wf s) {id : JobId} {job : Job} {work : Worker.Work}
    (hjob : s.db.jobs[id]? = some job) (hnext : nextJob s = some job) (hg : seesRenewal s)
    (hread : Worker.read s.seen job s.now = .go work) (ht : turnsOff job)
    {sub : Subscription} (hsub : s.db.subscriptions[job.aggregateId]? = some sub) : sub.expiresAt ≤ s.now := by
  have hoff := ht
  simp only [turnsOff, Bool.or_eq_true, decide_eq_true_eq] at ht
  obtain ⟨seen, hseen, hfound⟩ := Worker.read_go hread
  obtain ⟨sub', hsub', haged⟩ := hwf.seen hseen
  rw [hsub] at hsub'
  cases hsub'
  by_contra hfunded
  have hpeer := haged.peer.trans (hfound.peer (by rcases ht with ht | ht <;> simp [ht]))
  obtain ⟨hactive, -⟩ := h.active _ sub _ hsub hpeer (by omega)
  have hrenewed : sub.renewed s.now = true := by simp [Subscription.renewed, hactive, not_le.mp hfunded]
  have hseenRenewed := renewed_of_seesRenewal hnext hg hoff hsub hseen hrenewed
  obtain ⟨sub', -, hfits⟩ := hwf.consistent.fits _ _ hjob
  have hreason : Worker.expiryReason job.reason = true := by
    rcases ht with ht | ht <;> simpa [Job.Fits, ht] using hfits
  have hnot := hfound.notRenewed ht
  rw [Worker.renewed, hreason, hseenRenewed] at hnot
  cases hnot

theorem Paid.read {s : State} (h : Paid s) (hwf : Wf s) {id : JobId} {rest : List JobId} {job : Job}
    (hjob : s.db.jobs[id]? = some job) (hnext : nextJob s = some job) (hg : seesRenewal s) :
    Paid { s with
      phase := .decided id job (Worker.read s.seen job s.now), batch := rest
      session := s.session.load s.db job.aggregateId } := by
  refine ⟨h.active, h.on, fun i sub hoff hsub => ?_⟩
  cases hread : Worker.read s.seen job s.now with
  | go work =>
    simp only [offInHand, hread, Bool.and_eq_true, decide_eq_true_eq] at hoff
    obtain ⟨ht, rfl⟩ := hoff
    exact h.expired_of_read hwf hjob hnext hg hread ht hsub
  | _ => simp [offInHand, hread] at hoff

/-- A call that does not turn a client off leaves it on or as it was. -/
theorem serve_on {job : Job} {p q : PeerState} (h : serve job.jobType p = some q) (ht : turnsOff job = false) :
    q = .enabled ∨ q = p := by
  unfold turnsOff at ht
  cases hj : job.jobType <;> cases p <;> simp_all [serve]

theorem Paid.call {s : State} (h : Paid s) (hwf : Wf s) {id : JobId} {job : Job} {work : Worker.Work}
    (server : ServerId) (hphase : s.phase = .decided id job (.go work)) (reply : Reply) :
    Paid { s with
      peers := (callServer s.peers job.jobType server work.peer reply).1
      phase := .called id job work (callServer s.peers job.jobType server work.peer reply).2 } := by
  have hp := hwf.phase
  rw [hphase] at hp
  obtain ⟨hhand, sub₀, hload⟩ := hp
  have hoff (i : SubscriptionId) (failure : Failure)
      (hf : offInHand { s with phase := .called id job work failure } i) : offInHand s i := by
    cases failure with
    | none => simpa [offInHand, hphase] using hf
    | some f => simp [offInHand] at hf
  refine ⟨h.active, fun i sub n hsub hn hfunded => ?_, fun i sub hf hsub => h.off i sub (hoff i _ hf) hsub⟩
  show (callServer s.peers job.jobType server work.peer reply).1 sub.vpnServerId n = .enabled ∨ enableDue s.db.jobs i
  rcases callServer_cases s.peers job.jobType server work.peer reply with ⟨p, failure, -, hserve, he⟩ | ⟨failure, he⟩
  · rw [he]
    simp only [setPeer_apply]
    split_ifs with hat
    · obtain ⟨hat, rfl⟩ := hat
      cases ht : turnsOff job with
      | true =>
        -- the peer is the job's subscription's, which has no time left
        have htype : job.jobType ≠ .createPeer := by rintro hc; simp [turnsOff, hc] at ht
        have hi := hwf.consistent.peerUnique i job.aggregateId sub sub₀ _ hsub hload.get hn (hload.peer htype)
        have hexp := h.off i sub (by simp [offInHand, hphase, ht, hi]) hsub
        exact absurd hfunded (not_lt.mpr hexp)
      | false =>
        rcases serve_on hserve ht with hon | hsame
        · exact .inl hon
        · rw [hsame, ← hat]
          exact h.on i sub _ hsub hn hfunded
    · exact h.on i sub n hsub hn hfunded
  · rw [he]
    exact h.on i sub n hsub hn hfunded

/-- The jobs of a written database: the worker's is done or failed, the others are as before. -/
theorem enableDue_update {jobs : Table Job} {id : JobId} {job : Job} {f : Job → Job} {i : SubscriptionId}
    (hjob : jobs[id]? = some job) (hf : SameJob job (f job)) (h : enableDue jobs i)
    (hkeep : job.jobType = .enablePeer → job.aggregateId = i → (f job).status ≠ .succeeded) :
    enableDue (jobs.update id f) i := by
  obtain ⟨k, job', hjob', htype, hagg, hs⟩ := enableDue_iff.mp h
  by_cases hk : id = k
  · subst hk
    rw [hjob] at hjob'
    cases hjob'
    refine enableDue_iff.mpr ⟨id, f job, by rw [Table.get_update_self, hjob]; rfl, ?_, ?_, hkeep htype hagg⟩
    · exact hf.jobType.trans htype
    · exact hf.aggregateId.trans hagg
  · exact enableDue_iff.mpr ⟨k, job', by rw [Table.get_update_of_ne _ _ hk, hjob'], htype, hagg, hs⟩

/-- A client that a create job made is on: one that is off has an owner already. -/
theorem Wf.on_of_create {s : State} (hwf : Wf s) {job : Job} {work : Worker.Work} {sub : Subscription}
    (ht : job.jobType = .createPeer) (hload : Loaded s.db job work sub) (hserved : Served s.peers job work)
    (hnone : sub.peerExternalId = none)
    (hfree : Worker.peerTaken s.db.subscriptions job.aggregateId work.peer = false) :
    s.peers sub.vpnServerId work.peer = .enabled := by
  obtain ⟨server, p, hserver, hserve⟩ := hserved
  rw [hload.server] at hserver
  cases hserver
  rw [ht] at hserve
  cases hq : s.peers sub.vpnServerId work.peer with
  | enabled => rfl
  | absent =>
    rw [hq] at hserve
    cases p <;> simp [serve] at hserve
  | disabled =>
    obtain ⟨j, owner, hj, -, hown⟩ := hwf.owner _ _ hq
    by_cases hne : j = job.aggregateId
    · subst hne
      rw [hload.get] at hj
      cases hj
      rw [hnone] at hown
      cases hown
    · exact absurd hown (Worker.peerTaken_false hfree hj hne)

/-- The rows and jobs after a job's success. -/
theorem Paid.done {s : State} (h : Paid s) (hwf : Wf s) {delivered : Bool} {id : JobId} {job : Job}
    {work : Worker.Work} {sub : Subscription} {db : Database} (hhand : InHand s.db s.batch id job)
    (hphase : s.phase = .called id job work none) (hload : Loaded s.db job work sub)
    (hserved : Served s.peers job work)
    (hw : Worker.write s.db job.jobType job.aggregateId work delivered s.now = some db) (session : IdentityMap) :
    Paid { s with
      db := { db with jobs := db.jobs.update id Job.markCompleted }, phase := .idle, session := session } := by
  obtain ⟨-, hjobs, hsubs⟩ := Worker.write_eq_some hw
  obtain ⟨hserver, hexpires, hpeer⟩ := @flush_row work sub job.jobType delivered s.now
  have hdue (i : SubscriptionId) (hi : job.jobType = .enablePeer → job.aggregateId ≠ i)
      (hdue : enableDue s.db.jobs i) : enableDue (db.jobs.update id Job.markCompleted) i := by
    rw [hjobs]
    exact enableDue_update hhand.1 (.markCompleted job) hdue fun ht hagg => absurd hagg (hi ht)
  -- with time left, the job does not turn the peer off
  have hkeeps (hfunded : s.now < sub.expiresAt) : turnsOff job = false := by
    by_contra ht
    rw [Bool.not_eq_false] at ht
    have hexp := h.off job.aggregateId sub (by simp [offInHand, hphase, ht]) hload.get
    omega
  refine ⟨fun i sub' n hsub' hn hfunded => ?_, fun i sub' n hsub' hn hfunded => ?_, fun i sub' hoff _ => by
    simp [offInHand] at hoff⟩
  · simp only [hsubs, Table.get_update] at hsub'
    split_ifs at hsub' with hi
    · subst hi
      rw [hload.get] at hsub'
      cases hsub'
      simp only [hexpires] at hfunded
      have ht := hkeeps hfunded
      simp only [turnsOff, Bool.or_eq_false_iff, decide_eq_false_iff_not] at ht
      rw [flush_row_removedAt ht.2]
      by_cases hc : job.jobType = .createPeer
      · have hnone := hwf.consistent.peer_none hhand.1 hhand.2.1 hc hload.get
        have hsound := hwf.consistent.sound _ _ hload.get
        simp only [Subscription.Sound, hnone] at hsound
        rw [hc]
        exact ⟨(flush_row_create delivered s.now hload.samePeer hload.sound hnone).1, hsound.2⟩
      · obtain ⟨hactive, hremoved⟩ := h.active _ sub n hload.get (hpeer hc ▸ hn) hfunded
        refine ⟨?_, hremoved⟩
        rcases @flush_row_status work sub job.jobType delivered s.now hc with he | ⟨hd, -⟩ | ⟨hr, -⟩
        · rw [he, hactive]
        · exact absurd hd ht.1
        · exact absurd hr ht.2
    · exact h.active i sub' n hsub' hn hfunded
  · show s.peers sub'.vpnServerId n = .enabled ∨ enableDue (db.jobs.update id Job.markCompleted) i
    simp only [hsubs, Table.get_update] at hsub'
    split_ifs at hsub' with hi
    · subst hi
      rw [hload.get] at hsub'
      cases hsub'
      simp only [hexpires] at hfunded
      rw [hserver]
      by_cases hc : job.jobType = .createPeer
      · have hnone := hwf.consistent.peer_none hhand.1 hhand.2.1 hc hload.get
        rw [hc] at hw hn
        rw [(flush_row_create delivered s.now hload.samePeer hload.sound hnone).2.1] at hn
        cases hn
        exact .inl (hwf.on_of_create hc hload hserved hnone (Worker.write_createPeer_free hw))
      · rw [hpeer hc] at hn
        by_cases he : job.jobType = .enablePeer
        · -- the call that was answered turned the peer on
          obtain ⟨server, p, hsv, hserve⟩ := hserved
          rw [hload.server] at hsv
          cases hsv
          rw [hload.peer hc] at hn
          cases hn
          rw [he] at hserve
          cases p <;> simp_all [serve]
        · exact (h.on _ sub n hload.get hn hfunded).imp_right (hdue _ fun ht => absurd ht he)
    · exact (h.on i sub' n hsub' hn hfunded).imp_right (hdue i fun _ => hi)

theorem Paid.write {s : State} (h : Paid s) (hwf : Wf s) {delivered : Bool} {db : Database}
    (hw : writeJob s.db delivered s.now s.phase = some db) (session : IdentityMap) :
    Paid { s with db := db, phase := .idle, session := session } := by
  obtain ⟨id, job, hhand, hwritten⟩ := hwf.written hw
  have hidle : ∀ (db : Database) (i : SubscriptionId),
      ¬ offInHand { s with db := db, phase := .idle, session := session } i := fun db i => by simp [offInHand]
  cases hwritten with
  | skipped ht =>
    refine ⟨h.active, fun i sub n hsub hn hfunded => ?_, fun i sub hoff _ => absurd hoff (hidle _ i)⟩
    refine (h.on i sub n hsub hn hfunded).imp_right fun hdue => ?_
    exact enableDue_update hhand.1 (.markCompleted job) hdue fun hjt => absurd hjt ht
  | failed error isRetryable =>
    refine ⟨h.active, fun i sub n hsub hn hfunded => ?_, fun i sub hoff _ => absurd hoff (hidle _ i)⟩
    refine (h.on i sub n hsub hn hfunded).imp_right fun hdue => ?_
    refine enableDue_update hhand.1 (.markFailed error isRetryable s.now (by simp [hhand.2.1])) hdue fun _ _ => ?_
    rcases Job.markFailed_status error isRetryable s.now job with he | he <;> simp [he]
  | done hphase hload hserved hdb => exact h.done hwf hhand hphase hload hserved hdb session

/-! ### Steps and runs -/

theorem paid_step {settings : Settings} {s t : State} {a : Step} (hwf : Wf s) (h : Paid s) (hg : creditsSafely s a)
    (hstep : step settings s a = some t) : Paid t := by
  cases ha : a.isWorker with
  | false =>
    obtain ⟨db, rfl, htxn | hpass⟩ := step_txn hwf.consistent ha hstep
    · refine h.txn hwf htxn fun i hi => ?_
      simp only [creditsSafely, hi, Option.all_some, Bool.and_eq_true] at hg
      exact hg.1
    · exact h.pass hwf hpass
  | true =>
    cases a with
    | claim limit =>
      simp only [step] at hstep
      split at hstep
      next hidle hbatch =>
        cases hstep
        refine ⟨h.active, fun i sub n hsub hn hfunded => ?_, fun i sub hoff hsub => ?_⟩
        · exact (h.on i sub n hsub hn hfunded).imp_right (enableDue_claim worker s.now limit)
        · simp [offInHand, hidle] at hoff
      · cases hstep
    | read =>
      simp only [step] at hstep
      split at hstep
      next id rest hidle hbatch =>
        obtain ⟨job, hjob, rfl⟩ := Option.map_eq_some_iff.mp hstep
        have hnext : nextJob s = some job := by rw [nextJob, hbatch]; exact hjob
        exact h.read hwf hjob hnext ((Bool.and_eq_true _ _).mp hg).2
      · cases hstep
    | call reply =>
      simp only [step] at hstep
      split at hstep
      next id job work hphase =>
        split at hstep
        next server hserver => cases hstep; exact h.call hwf server hphase reply
        next hserver =>
          have hp := hwf.phase
          rw [hphase] at hp
          obtain ⟨-, sub, hload⟩ := hp
          simp [hload.server] at hserver
      · cases hstep
    | write delivered =>
      obtain ⟨db, hw, rfl⟩ := Option.map_eq_some_iff.mp hstep
      exact h.write hwf hw _
    | collect user =>
      simp only [step] at hstep
      split at hstep
      next hidle => cases hstep; exact ⟨h.active, h.on, fun i sub hoff hsub => h.off i sub hoff hsub⟩
      · cases hstep
    | crash =>
      cases hstep
      exact ⟨h.active, h.on, fun i sub hoff _ => by simp [offInHand] at hoff⟩
    | tick d =>
      cases hstep
      have hle : s.now ≤ s.now + d := by omega
      exact ⟨fun i sub n hsub hn hf => h.active i sub n hsub hn (hle.trans_lt hf),
        fun i sub n hsub hn hf => h.on i sub n hsub hn (hle.trans_lt hf),
        fun i sub hoff hsub => (h.off i sub hoff hsub).trans hle⟩
    | _ => cases ha

/-- In a run that adds time to a subscription only when it is safe, paid time is served. -/
theorem paidServed_of_creditsSafely {settings : Settings} {users : Table User} {servers : Table VpnServer}
    {products : Table Product} {now : ℤ} {as : List Step} {s : State}
    (hg : Machine.Along (step settings) (creditsSafely · ·) (start users servers products now) as)
    (hrun : Machine.run (step settings) (start users servers products now) as = some s) : PaidServed s := by
  have hinv : Wf s ∧ Paid s := by
    refine Machine.invariant_along (I := fun s => Wf s ∧ Paid s)
      (fun s a t h hga ht => ⟨wf_step h.1 ht, paid_step h.1 h.2 hga ht⟩) hg hrun ?_
    exact ⟨wf_start users servers products now, paid_start users servers products now⟩
  exact hinv.2.served

/-- A subscription runs out and is disabled; a renewal is paid and its enable job runs. -/
def renewal : List Step :=
  [.startOrder 0 0 0, .approve 0 7 1] ++ runJob .ok ++ [.tick 2592000000000, .checkExpired] ++ runJob .ok ++
    [.startRenewal 0 0 0, .submitReceipt 1 ⟨"AgACAgQ", 5, 1000, "photo", none⟩, .approve 1 7 2] ++ runJob .ok

theorem paidServed_renewal : ∃ s, Machine.run (step ⟨30, 3⟩) small renewal = some s ∧ PaidServed s := by
  obtain ⟨s, hrun⟩ : ∃ s, Machine.run (step ⟨30, 3⟩) small renewal = some s :=
    Option.isSome_iff_exists.mp (by decide +kernel)
  exact ⟨s, hrun, paidServed_of_creditsSafely (by decide +kernel) hrun⟩

/-- A subscription runs out. The worker has called the server for its disable job when the
admin approves a renewal: the status is still active, so no enable job is queued, and then
the worker writes that the subscription is disabled. -/
def renewedMeanwhile : List Step :=
  [.startOrder 0 0 0, .approve 0 7 1] ++ runJob .ok ++
    [.startRenewal 0 0 0, .tick 2592000000000, .checkExpired, .claim 10, .read, .call .ok, .approve 1 7 2,
      .write true]

theorem paidServed_renewed_meanwhile :
    ¬ ∀ (settings : Settings) (users : Table User) (servers : Table VpnServer) (products : Table Product) (now : ℤ)
      (as : List Step) (s : State),
      Machine.run (step settings) (start users servers products now) as = some s → PaidServed s := by
  intro h
  have hrun : (Machine.run (step ⟨30, 3⟩) small renewedMeanwhile).any (fun s =>
      (s.db.subscriptions[0]?.any fun sub => sub.status = .disabled && s.now < sub.expiresAt &&
        sub.peerExternalId = some smallPeer) &&
      s.db.jobs.all fun job => job.status = .succeeded) = true := by decide +kernel
  obtain ⟨s, hs, hcheck⟩ := Machine.exists_of_any hrun
  simp only [Bool.and_eq_true, Option.any_eq_true, decide_eq_true_eq, List.all_eq_true] at hcheck
  obtain ⟨⟨sub, hsub, ⟨hstatus, hfunded⟩, hpeer⟩, hjobs⟩ := hcheck
  have hserved := h _ _ _ _ _ renewedMeanwhile s hs 0 sub smallPeer hsub
    (fun id job hjob _ => hjobs job (List.mem_of_getElem? hjob)) hpeer hfunded
  rw [hstatus] at hserved
  cases hserved.1

/-- A create job of the batch has loaded the customer's other subscription, which is renewed before its disable job
starts. -/
def renewedUnseen : List Step :=
  [.startOrder 0 0 0, .approve 0 7 1] ++ runJob .ok ++
    [.startRenewal 0 0 0, .startOrder 0 0 0, .tick 2592000000000, .approve 2 7 2, .checkExpired, .claim 10, .read,
      .call .ok, .write true, .approve 1 7 3, .read, .call .ok, .write true]

example : (Machine.run (step ⟨30, 3⟩) small renewedUnseen).any (fun s => s.db.subscriptions[0]?.any fun sub =>
    sub.status = .disabled && s.now < sub.expiresAt) = true := by decide +kernel

end AmneziaVpnBot.Lifecycle
