import AmneziaVpnBot.Lifecycle.Invariant

/-! Peers of subscriptions that are not paid for. A subscription is disabled or removed
only after its peer was turned off on the server, so its peer can be on again only when
an enable job runs late: nothing but an admin's retry looks at the subscription before
such a job runs. -/

namespace AmneziaVpnBot.Lifecycle

/-- No disabled or expired subscription without an open job has its peer on. -/
def UnpaidOff (s : State) : Prop :=
  ∀ (i : SubscriptionId) (sub : Subscription) (n : PeerName), s.db.subscriptions[i]? = some sub →
    sub.status = .disabled ∨ sub.status = .expired → sub.peerExternalId = some n →
    (∀ (id : JobId) (job : Job), s.db.jobs[id]? = some job → job.aggregateId = i → job.isOpen = false) →
    s.peers sub.vpnServerId n ≠ .enabled

/-- An enable job's call takes effect only while its subscription is active, and a create
job's only for a name that no other subscription's peer has. -/
def enablesActive (s : State) : Step → Bool
  | .call reply => match s.phase with
    | .decided _ job (.go work) => !reply.takesEffect || match job.jobType with
      | .enablePeer => s.db.subscriptions[job.aggregateId]?.all fun sub => sub.status = .active
      | .createPeer => !Worker.peerTaken s.db.subscriptions job.aggregateId work.peer
      | _ => true
    | _ => true
  | _ => true

/-- No disabled or expired subscription has its peer on, whatever its jobs. -/
def Off (s : State) : Prop :=
  ∀ (i : SubscriptionId) (sub : Subscription) (n : PeerName), s.db.subscriptions[i]? = some sub →
    sub.status = .disabled ∨ sub.status = .expired → sub.peerExternalId = some n →
    s.peers sub.vpnServerId n ≠ .enabled

theorem off_start (users : Table User) (servers : Table VpnServer) (products : Table Product) (now : ℤ) :
    Off (start users servers products now) := by
  intro i sub n hsub
  simp [start] at hsub

/-- A transaction outside the worker disables nothing. -/
theorem Off.txn {s : State} {C : SubscriptionId → Prop} {db : Database} (h : Off s)
    (htxn : Txn settings s.now C s.db db) :
    Off { s with db := db } := by
  intro i sub' n hsub' hstatus hn
  rcases htxn.row_before hsub' with ⟨sub, hsub, hrow⟩ | hnew
  · have hsame := hrow.samePeer
    show s.peers sub'.vpnServerId n ≠ .enabled
    rw [hsame.server]
    refine h i sub n hsub ?_ (hsame.peer ▸ hn)
    cases hrow with
    | same he => exact he ▸ hstatus
    | credit hC hpeer hc => simp [hc.status] at hstatus
    | debit hd => exact hd.status ▸ hstatus
  · rw [hnew.peer] at hn
    cases hn

theorem Off.pass {s : State} {db : Database} (h : Off s) (hpass : Pass settings s.now s.db db) :
    Off { s with db := db } := by
  induction hpass with
  | refl => exact h
  | tail _ htxn ih => exact ih.txn htxn

/-- Only enable and create calls turn a client on. -/
theorem serve_enabled {jobType : JobType} {p : PeerState} (h : serve jobType p = some .enabled) :
    jobType = .enablePeer ∨ jobType = .createPeer ∨ p = .enabled := by
  cases jobType <;> cases p <;> simp_all [serve]

/-- Disable and remove calls leave a client that is not on. -/
theorem serve_off {jobType : JobType} {p q : PeerState} (h : serve jobType p = some q)
    (ht : jobType = .disablePeer ∨ jobType = .removePeer) : q ≠ .enabled := by
  rcases ht with rfl | rfl <;> cases p <;> simp_all [serve] <;> rintro rfl <;> simp_all

theorem Off.call {s : State} {id : JobId} {job : Job} {work : Worker.Work} {server : ServerId} {reply : Reply}
    (h : Off s) (hwf : Wf s) (hg : enablesActive s (.call reply)) (hphase : s.phase = .decided id job (.go work)) :
    Off { s with
      peers := (callServer s.peers job.jobType server work.peer reply).1
      phase := .called id job work (callServer s.peers job.jobType server work.peer reply).2 } := by
  have hp := hwf.phase
  rw [hphase] at hp
  obtain ⟨hhand, sub₀, hload⟩ := hp
  rcases callServer_cases s.peers job.jobType server work.peer reply with ⟨p, failure, heff, hserve, he⟩ | ⟨failure, he⟩
  · rw [he]
    intro i sub n hsub hstatus hn
    show setPeer s.peers server work.peer p sub.vpnServerId n ≠ .enabled
    rw [setPeer_apply]
    split_ifs with hat
    · obtain ⟨hat, rfl⟩ := hat
      rintro rfl
      simp only [enablesActive, hphase, heff, Bool.not_true, Bool.false_or] at hg
      rcases serve_enabled hserve with ht | ht | hon
      · -- the peer's only subscription is the job's, which is active
        have hpeer := hload.peer (by simp [ht])
        have hi := hwf.consistent.peerUnique i job.aggregateId sub sub₀ _ hsub hload.get hn hpeer
        subst hi
        simp only [ht, hsub, Option.all_some, decide_eq_true_eq] at hg
        simp [hg] at hstatus
      · have hfree : Worker.peerTaken s.db.subscriptions job.aggregateId work.peer = false := by simpa [ht] using hg
        by_cases hi : i = job.aggregateId
        · simp [hwf.consistent.peer_none hhand.1 hhand.2.1 ht (hi ▸ hsub)] at hn
        · exact Worker.peerTaken_false hfree hsub hi hn
      · exact h i sub _ hsub hstatus hn (hat ▸ hon)
    · exact h i sub n hsub hstatus hn
  · rw [he]
    exact h

/-- A written row is disabled or expired only when its peer was just turned off. -/
theorem Off.write {s : State} {delivered : Bool} {db : Database} (h : Off s) (hwf : Wf s)
    (hw : writeJob s.db delivered s.now s.phase = some db) : Off { s with db := db, phase := .idle } := by
  obtain ⟨id, job, hhand, hwritten⟩ := hwf.written hw
  cases hwritten with
  | skipped => exact h
  | failed => exact h
  | @done work sub₀ db₁ hphase hload hserved hdb =>
    obtain ⟨-, -, hsubs⟩ := Worker.write_eq_some hdb
    intro i sub' n hsub' hstatus hn
    simp only [hsubs, Table.get_update] at hsub'
    split_ifs at hsub' with hi
    · subst hi
      rw [hload.get] at hsub'
      cases hsub'
      obtain ⟨hserver, -, hpeer⟩ := @flush_row work sub₀ job.jobType delivered s.now
      show s.peers _ n ≠ .enabled
      rw [hserver]
      by_cases ht : job.jobType = .createPeer
      · have hnone := hwf.consistent.peer_none hhand.1 hhand.2.1 ht hload.get
        have hactive := (flush_row_create delivered s.now hload.samePeer hload.sound hnone).1
        rw [ht] at hstatus
        simp [hactive] at hstatus
      · rw [hpeer ht] at hn
        have hserve : job.jobType = .disablePeer ∨ job.jobType = .removePeer →
          s.peers sub₀.vpnServerId n ≠ .enabled := by
          intro hoff
          obtain ⟨server, p, hsv, hserve⟩ := hserved
          rw [hload.server] at hsv
          cases hsv
          rw [hload.peer ht] at hn
          cases hn
          exact serve_off hserve hoff
        rcases @flush_row_status work sub₀ job.jobType delivered s.now ht with he | ⟨hdis, -⟩ | ⟨hrem, -⟩
        · exact h _ sub₀ n hload.get (he ▸ hstatus) hn
        · exact hserve (.inl hdis)
        · exact hserve (.inr hrem)
    · exact h i sub' n hsub' hstatus hn

theorem off_step {settings : Settings} {s t : State} {a : Step} (hwf : Wf s) (h : Off s) (hg : enablesActive s a)
    (hstep : step settings s a = some t) : Off t := by
  cases ha : a.isWorker with
  | false =>
    obtain ⟨db, rfl, htxn | hpass⟩ := step_txn hwf.consistent ha hstep
    · exact h.txn htxn
    · exact h.pass hpass
  | true =>
    cases a with
    | claim limit =>
      simp only [step] at hstep
      split at hstep <;> cases hstep
      exact h
    | read =>
      simp only [step] at hstep
      split at hstep
      · obtain ⟨job, -, rfl⟩ := Option.map_eq_some_iff.mp hstep
        exact h
      · cases hstep
    | call reply =>
      simp only [step] at hstep
      split at hstep
      next id job work hphase =>
        split at hstep <;> cases hstep
        · exact h.call hwf hg hphase
        · exact h
      · cases hstep
    | write delivered =>
      obtain ⟨db, hw, rfl⟩ := Option.map_eq_some_iff.mp hstep
      exact h.write hwf hw
    | collect user =>
      simp only [step] at hstep
      split at hstep <;> cases hstep
      exact h
    | crash => cases hstep; exact h
    | tick d => cases hstep; exact h
    | _ => cases ha

/-- In a run whose enable jobs take effect only while their subscriptions are active, no
disabled or expired subscription has its peer on. -/
theorem unpaidOff_of_enablesActive {settings : Settings} {users : Table User} {servers : Table VpnServer}
    {products : Table Product} {now : ℤ} {as : List Step} {s : State}
    (hg : Machine.Along (step settings) (enablesActive · ·) (start users servers products now) as)
    (hrun : Machine.run (step settings) (start users servers products now) as = some s) : UnpaidOff s := by
  have hinv : Wf s ∧ Off s := by
    refine Machine.invariant_along (I := fun s => Wf s ∧ Off s)
      (fun s a t h hga ht => ⟨wf_step h.1 ht, off_step h.1 h.2 hga ht⟩) hg hrun ?_
    exact ⟨wf_start users servers products now, off_start users servers products now⟩
  exact fun i sub n hsub hstatus hn _ => hinv.2 i sub n hsub hstatus hn

/-- A subscription is made, runs out, is disabled and given time again. -/
def renewedRun : List Step :=
  [.startOrder 0 0 0, .approve 0 7 1] ++ runJob .ok ++ [.tick 2592000000000, .checkExpired] ++ runJob .ok ++
    [.extend 0 1 7] ++ runJob .ok

theorem unpaidOff_renewed : ∃ s, Machine.run (step ⟨30, 3⟩) small renewedRun = some s ∧ UnpaidOff s := by
  obtain ⟨s, hrun⟩ : ∃ s, Machine.run (step ⟨30, 3⟩) small renewedRun = some s :=
    Option.isSome_iff_exists.mp (by decide +kernel)
  exact ⟨s, hrun, unpaidOff_of_enablesActive (by decide +kernel) hrun⟩

/-- A disabled subscription is given a day; its enable job fails for now. Two days are
taken away again, and the subscription is disabled. Then the enable job is due again. -/
def lateEnable : List Step :=
  [.startOrder 0 0 0, .approve 0 7 1] ++ runJob .ok ++ [.tick 2592000000000, .checkExpired] ++ runJob .ok ++
    [.extend 0 1 7] ++ runJob (.failed "timed out" true) ++ [.extend 0 (-2) 7, .checkExpired] ++ runJob .ok ++
    [.tick 10000000] ++ runJob .ok

theorem unpaidOff_late_enable :
    ¬ ∀ (settings : Settings) (users : Table User) (servers : Table VpnServer) (products : Table Product) (now : ℤ)
      (as : List Step) (s : State),
      Machine.run (step settings) (start users servers products now) as = some s → UnpaidOff s := by
  intro h
  have hrun : (Machine.run (step ⟨30, 3⟩) small lateEnable).any (fun s =>
      (s.db.subscriptions[0]?.any fun sub => sub.status = .disabled && sub.vpnServerId = 0 &&
        sub.peerExternalId = some smallPeer) &&
      (s.db.jobs.all fun job => !job.isOpen) && s.peers 0 smallPeer = .enabled) = true := by decide +kernel
  obtain ⟨s, hs, hcheck⟩ := Machine.exists_of_any hrun
  simp only [Bool.and_eq_true, Option.any_eq_true, decide_eq_true_eq, List.all_eq_true, Bool.not_eq_true'] at hcheck
  obtain ⟨⟨⟨sub, hsub, ⟨hstatus, hserver⟩, hpeer⟩, hjobs⟩, hon⟩ := hcheck
  refine h _ _ _ _ _ lateEnable s hs 0 sub smallPeer hsub (.inl hstatus) hpeer (fun id job hjob _ => ?_) ?_
  · exact hjobs job (List.mem_of_getElem? hjob)
  · rw [hserver]; exact hon

end AmneziaVpnBot.Lifecycle
