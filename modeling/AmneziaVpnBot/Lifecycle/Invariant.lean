import AmneziaVpnBot.Lifecycle.Transactions

/-! What every reachable state keeps: consistent tables, and what the worker has in hand.
Between the worker's steps the rest of the bot may change the subscription its job is
about, but neither the peer's name and server nor the job, and no one else calls the
servers; so the answer of a call still describes the client when the result is written. The
rows that the worker's session holds may be older, and name the same peer. -/

namespace AmneziaVpnBot.Lifecycle

/-- What the work of a job still has right about the stored subscription. -/
structure Loaded (db : Database) (job : Job) (work : Worker.Work) (sub : Subscription) : Prop where
  get : db.subscriptions[job.aggregateId]? = some sub
  server : work.server = some sub.vpnServerId
  peer : job.jobType ≠ .createPeer → sub.peerExternalId = some work.peer
  samePeer : SamePeer work.sub sub
  sound : work.sub.Sound

/-- A version of a row that the session holds, beside the stored one. -/
structure Aged (seen stored : Subscription) : Prop extends SamePeer seen stored where
  sound : seen.Sound

/-- The client on the server is as the job's call left it. -/
def Served (peers : ServerId → PeerName → PeerState) (job : Job) (work : Worker.Work) : Prop :=
  ∃ server p, work.server = some server ∧ serve job.jobType p = some (peers server work.peer)

/-- The job the worker runs is in processing, and not in its batch any more. -/
def InHand (db : Database) (batch : List JobId) (id : JobId) (job : Job) : Prop :=
  db.jobs[id]? = some job ∧ job.status = .processing ∧ id ∉ batch

def PhaseOk (db : Database) (peers : ServerId → PeerName → PeerState) (batch : List JobId) : Phase → Prop
  | .idle => True
  | .decided id job (.go work) => InHand db batch id job ∧ ∃ sub, Loaded db job work sub
  | .decided id job .skip => InHand db batch id job ∧ job.jobType ≠ .enablePeer ∧ job.jobType ≠ .createPeer
  | .decided id job (.fail _) => InHand db batch id job
  | .called id job work failure =>
    InHand db batch id job ∧ (∃ sub, Loaded db job work sub) ∧ (failure = none → Served peers job work)

structure Wf (s : State) : Prop where
  consistent : Consistent s.db
  batch : ∀ id ∈ s.batch, ∃ job : Job, s.db.jobs[id]? = some job ∧ job.status = .processing
  nodup : s.batch.Nodup
  phase : PhaseOk s.db s.peers s.batch s.phase
  /-- A client that is off belongs to a subscription. -/
  owner : ∀ server n, s.peers server n = .disabled → ∃ (i : SubscriptionId) (sub : Subscription),
    s.db.subscriptions[i]? = some sub ∧ sub.vpnServerId = server ∧ sub.peerExternalId = some n
  session : s.session.subscriptions.Related (fun _ => Aged) s.db.subscriptions

theorem wf_start (users : Table User) (servers : Table VpnServer) (products : Table Product) (now : ℤ) :
    Wf (start users servers products now) := by
  refine ⟨⟨?_, ?_, ?_, ?_, ?_⟩, ?_, ?_, trivial, ?_, Table.Held.Related.empty _⟩ <;> simp [start, Table.All]

/-! ### Under the rest of the bot -/

section Txn

variable {s : State} {C : SubscriptionId → Prop} {db : Database}

theorem Loaded.txn {job : Job} {work : Worker.Work} {sub : Subscription} (h : Loaded s.db job work sub)
    (htxn : Txn settings s.now C s.db db) : ∃ sub', Loaded db job work sub' := by
  obtain ⟨sub', hsub', hrow⟩ := htxn.row h.get
  have hsame := hrow.samePeer
  refine ⟨sub', hsub', by rw [hsame.server]; exact h.server, fun ht => by rw [hsame.peer]; exact h.peer ht, ?_,
    h.sound⟩
  exact h.samePeer.trans hsame

theorem InHand.txn {id : JobId} {job : Job} (h : InHand s.db s.batch id job) (htxn : Txn settings s.now C s.db db) :
    InHand db s.batch id job :=
  ⟨htxn.processing h.1 h.2.1, h.2⟩

theorem PhaseOk.txn (htxn : Txn settings s.now C s.db db) :
    ∀ {p : Phase}, PhaseOk s.db s.peers s.batch p → PhaseOk db s.peers s.batch p
  | .idle, _ => trivial
  | .decided _ _ (.go _), ⟨hhand, _, hload⟩ => ⟨hhand.txn htxn, hload.txn htxn⟩
  | .decided _ _ .skip, ⟨hhand, ht⟩ => ⟨hhand.txn htxn, ht⟩
  | .decided _ _ (.fail _), hhand => InHand.txn hhand htxn
  | .called _ _ _ _, ⟨hhand, ⟨_, hload⟩, hserved⟩ => ⟨hhand.txn htxn, hload.txn htxn, hserved⟩

theorem Wf.txn (h : Wf s) (htxn : Txn settings s.now C s.db db) : Wf { s with db := db } := by
  refine ⟨htxn.consistent h.consistent, fun id hid => ?_, h.nodup, h.phase.txn htxn, fun server n hn => ?_,
    htxn.related h.session fun i sub sub' hrow seen haged => ⟨haged.toSamePeer.trans hrow.samePeer, haged.sound⟩⟩
  · obtain ⟨job, hjob, hp⟩ := h.batch id hid
    exact ⟨job, htxn.processing hjob hp, hp⟩
  · obtain ⟨i, sub, hsub, hserver, hpeer⟩ := h.owner server n hn
    obtain ⟨sub', hsub', hrow⟩ := htxn.row hsub
    exact ⟨i, sub', hsub', by rw [hrow.samePeer.server, hserver], by rw [hrow.samePeer.peer, hpeer]⟩

theorem Wf.pass (h : Wf s) (hpass : Pass settings s.now s.db db) : Wf { s with db := db } := by
  induction hpass with
  | refl => exact h
  | tail _ htxn ih => exact ih.txn htxn

end Txn

/-! ### Under the worker -/

theorem Tables.claimEach {servers : Table VpnServer} {subs : Table Subscription} (w : WorkerId) (now : ℤ)
    (ids : List JobId) {jobs : Table Job} (h : Tables servers subs jobs) :
    Tables servers subs (claimEach w now jobs ids).1 := by
  induction ids generalizing jobs with
  | nil => exact h
  | cons id ids ih =>
    have hone : Tables servers subs (claimOne jobs id w now).1 := by
      rcases claimOne_cases jobs id w now with ⟨job, hjob, hc, he⟩ | he
      · rw [he]
        refine h.updateJob fun job' hjob' => ?_
        rw [hjob] at hjob'
        cases hjob'
        exact .claim w hc
      · rw [he]; exact h
    exact ih hone

theorem Wf.claim {s : State} (h : Wf s) (hidle : s.phase = .idle) (limit : ℕ) :
    Wf { s with
      db := { s.db with jobs := (claimPendingJobs s.db.jobs worker s.now limit).1 }
      batch := (claimPendingJobs s.db.jobs worker s.now limit).2
      session := .empty } := by
  have hnodup := candidates_nodup s.db.jobs s.now limit
  have hrow := claimEach_row worker s.now hnodup s.db.jobs
  refine ⟨Tables.claimEach worker s.now _ h.consistent, fun id hid => ?_,
    hnodup.sublist (claimEach_sublist ..), by rw [hidle]; trivial, h.owner, Table.Held.Related.empty _⟩
  rcases hrow id with ⟨hnot, -⟩ | ⟨job, -, -, -, hget⟩
  · exact absurd hid hnot
  · exact ⟨job.claim worker s.now, hget, rfl⟩

theorem Wf.aged {s : State} (h : Wf s) {i : SubscriptionId} {sub : Subscription}
    (hsub : s.db.subscriptions[i]? = some sub) :
    Aged sub sub := ⟨.refl sub, h.consistent.sound _ _ hsub⟩

/-- The row that the worker's session sees is a version of the stored one. -/
theorem Wf.seen {s : State} (h : Wf s) {i : SubscriptionId} {seen : Subscription}
    (hseen : s.seen.subscriptions[i]? = some seen) : ∃ sub, s.db.subscriptions[i]? = some sub ∧ Aged seen sub :=
  h.session.view (fun _ _ hsub => h.aged hsub) hseen

/-- What a job reads is right about the peer of the stored row. -/
theorem Wf.loaded_of_read {s : State} (h : Wf s) {job : Job} {work : Worker.Work}
    (hread : Worker.read s.seen job s.now = .go work) : ∃ sub, Loaded s.db job work sub := by
  obtain ⟨seen, hseen, hfound⟩ := Worker.read_go hread
  obtain ⟨sub, hsub, haged⟩ := h.seen hseen
  obtain ⟨server, hserver⟩ := h.consistent.server _ _ hsub
  have hlookup : Worker.lookupServer s.seen seen.vpnServerId = some sub.vpnServerId := by
    rw [← haged.server]
    exact Option.map_eq_some_iff.mpr ⟨server, hserver, rfl⟩
  obtain rfl := hfound.row
  exact ⟨sub, hsub, hfound.server.trans hlookup, fun ht => haged.peer.trans (hfound.peer ht),
    haged.toSamePeer, haged.sound⟩

theorem Wf.read {s : State} (h : Wf s) {id : JobId} {rest : List JobId} {job : Job} (hbatch : s.batch = id :: rest)
    (hjob : s.db.jobs[id]? = some job) :
    Wf { s with
      phase := .decided id job (Worker.read s.seen job s.now), batch := rest
      session := s.session.load s.db job.aggregateId } := by
  have hnodup : (id :: rest).Nodup := hbatch ▸ h.nodup
  obtain ⟨job', hjob', hp⟩ := h.batch id (by simp [hbatch])
  rw [hjob] at hjob'
  cases hjob'
  have hhand : InHand s.db rest id job := ⟨hjob, hp, (List.nodup_cons.mp hnodup).1⟩
  refine ⟨h.consistent, fun i hi => h.batch i (by simp [hbatch, hi]), (List.nodup_cons.mp hnodup).2, ?_, h.owner,
    IdentityMap.related_load h.session (fun _ _ hsub => h.aged hsub) _⟩
  show PhaseOk s.db s.peers rest (.decided id job (Worker.read s.seen job s.now))
  cases hread : Worker.read s.seen job s.now with
  | fail error => exact hhand
  | skip =>
    refine ⟨hhand, fun ht => ?_, (Worker.read_skip hread).1⟩
    -- an enable job's subscription has a peer
    obtain ⟨sub, hsub, hfits⟩ := h.consistent.fits _ _ hjob
    obtain ⟨seen, hseen⟩ : ∃ seen, s.seen.subscriptions[job.aggregateId]? = some seen :=
      Option.isSome_iff_exists.mp (Table.Held.isSome_view.trans (by rw [hsub]; rfl))
    obtain ⟨sub', hsub', haged⟩ := h.seen hseen
    rw [hsub] at hsub'
    cases hsub'
    have hnone := haged.peer.trans ((Worker.read_skip hread).2 ht seen hseen)
    simp [Job.Fits, ht, hnone] at hfits
  | go work => exact ⟨hhand, h.loaded_of_read hread⟩

theorem setPeer_apply (peers : ServerId → PeerName → PeerState) (server server' : ServerId) (n n' : PeerName)
    (p : PeerState) :
    setPeer peers server n p server' n' = if server' = server ∧ n' = n then p else peers server' n' := by
  unfold setPeer
  by_cases hs : server' = server
  · subst hs
    by_cases hn : n' = n
    · simp [hn]
    · simp [hn]
  · simp [hs]

/-- A call either leaves the client as the job wants it, or changes nothing and is
reported as failed. -/
theorem callServer_cases (peers : ServerId → PeerName → PeerState) (jobType : JobType) (server : ServerId)
    (n : PeerName) (reply : Reply) :
    (∃ p failure, reply.takesEffect ∧ serve jobType (peers server n) = some p ∧
      callServer peers jobType server n reply = (setPeer peers server n p, failure)) ∨
    ∃ failure, callServer peers jobType server n reply = (peers, some failure) := by
  unfold callServer
  cases reply <;> cases h : serve jobType (peers server n) <;> simp [Reply.takesEffect]

/-- A client that a call leaves off was off before, or the call was not a create. -/
theorem serve_disabled {jobType : JobType} {p : PeerState} (h : serve jobType p = some .disabled) :
    jobType ≠ .createPeer ∨ p = .disabled := by
  cases jobType <;> cases p <;> simp_all [serve]

theorem Wf.call {s : State} (h : Wf s) {id : JobId} {job : Job} {work : Worker.Work} {server : ServerId}
    (hphase : s.phase = .decided id job (.go work)) (hserver : work.server = some server) (reply : Reply) :
    Wf { s with
      peers := (callServer s.peers job.jobType server work.peer reply).1
      phase := .called id job work (callServer s.peers job.jobType server work.peer reply).2 } := by
  have hp := h.phase
  rw [hphase] at hp
  obtain ⟨hhand, sub, hload⟩ := hp
  rcases callServer_cases s.peers job.jobType server work.peer reply with ⟨p, failure, -, hserve, he⟩ | ⟨failure, he⟩
  · rw [he]
    refine ⟨h.consistent, h.batch, h.nodup, ⟨hhand, ⟨sub, hload⟩, fun _ => ?_⟩, fun server' n hn => ?_, h.session⟩
    · exact ⟨server, s.peers server work.peer, hserver, by simpa [setPeer_apply] using hserve⟩
    · simp only [setPeer_apply] at hn
      split_ifs at hn with hat
      · obtain ⟨rfl, rfl⟩ := hat
        rcases serve_disabled (hn ▸ hserve) with ht | hoff
        · refine ⟨job.aggregateId, sub, hload.get, ?_, hload.peer ht⟩
          have := hload.server
          rw [hserver] at this
          exact (Option.some.inj this).symm
        · exact h.owner _ _ hoff
      · exact h.owner server' n hn
  · rw [he]
    exact ⟨h.consistent, h.batch, h.nodup, ⟨hhand, ⟨sub, hload⟩, fun hf => by cases hf⟩, h.owner, h.session⟩

/-! ### Under the write of a result -/

/-- A written row keeps the server and the expiry, and the peer unless it is a create job's. -/
theorem flush_row {work : Worker.Work} {sub : Subscription} {jobType : JobType} {delivered : Bool} {now : ℤ} :
    (work.sub.flush (work.row jobType delivered now) sub).vpnServerId = sub.vpnServerId ∧
      (work.sub.flush (work.row jobType delivered now) sub).expiresAt = sub.expiresAt ∧
      (jobType ≠ .createPeer →
        (work.sub.flush (work.row jobType delivered now) sub).peerExternalId = sub.peerExternalId) := by
  cases jobType <;> simp [Subscription.flush, Worker.Work.row, Worker.Work.activated, Subscription.markActive,
    Subscription.markDisabled, Subscription.markRemoved]

theorem flush_row_orderId {work : Worker.Work} {sub : Subscription} {jobType : JobType} {delivered : Bool} {now : ℤ} :
    (work.sub.flush (work.row jobType delivered now) sub).orderId = sub.orderId := by
  cases jobType <;> simp [Subscription.flush, Worker.Work.row, Worker.Work.activated, Subscription.markActive,
    Subscription.markDisabled, Subscription.markRemoved]

/-- The status a disable or remove job writes, or the stored one. -/
theorem flush_row_status {work : Worker.Work} {sub : Subscription} {jobType : JobType} {delivered : Bool} {now : ℤ}
    (ht : jobType ≠ .createPeer) :
    (work.sub.flush (work.row jobType delivered now) sub).status = sub.status ∨
      jobType = .disablePeer ∧ (work.sub.flush (work.row jobType delivered now) sub).status = .disabled ∨
      jobType = .removePeer ∧ (work.sub.flush (work.row jobType delivered now) sub).status = .expired := by
  cases jobType with
  | createPeer => exact absurd rfl ht
  | disablePeer => exact (Table.flushColumn_eq_or ..).imp_right fun h => .inl ⟨rfl, h⟩
  | removePeer => exact (Table.flushColumn_eq_or ..).imp_right fun h => .inr ⟨rfl, h⟩
  | enablePeer => simp [Worker.Work.row]
  | redeliverConfig => simp [Subscription.flush, Worker.Work.row]

/-- Only a remove job writes `removed_at`. -/
theorem flush_row_removedAt {work : Worker.Work} {sub : Subscription} {jobType : JobType} {delivered : Bool}
    {now : ℤ} (ht : jobType ≠ .removePeer) :
    (work.sub.flush (work.row jobType delivered now) sub).removedAt = sub.removedAt := by
  cases jobType <;> simp_all [Subscription.flush, Worker.Work.row, Worker.Work.activated, Subscription.markActive,
    Subscription.markDisabled]

/-- The row of a finished create job: active, with the peer that was made. -/
theorem flush_row_create {work : Worker.Work} {sub : Subscription} (delivered : Bool) (now : ℤ)
    (hsame : SamePeer work.sub sub) (hsound : work.sub.Sound) (hnone : sub.peerExternalId = none) :
    let sub' := work.sub.flush (work.row .createPeer delivered now) sub
    sub'.status = .active ∧ sub'.peerExternalId = some work.peer ∧ sub'.removedAt = sub.removedAt := by
  have hpeer : work.sub.peerExternalId = none := hsame.peer ▸ hnone
  have hstatus : work.sub.status = .provisioning := by
    simp only [Subscription.Sound, hpeer] at hsound
    exact hsound.1
  simp [Subscription.flush, Worker.Work.row, Worker.Work.activated, Subscription.markActive, Table.flushColumn,
    hpeer, hstatus]

/-- The subscription of a running create job has no peer. -/
theorem Consistent.peer_none {db : Database} {id : JobId} {job : Job} {sub : Subscription} (h : Consistent db)
    (hjob : db.jobs[id]? = some job) (hp : job.status = .processing) (ht : job.jobType = .createPeer)
    (hsub : db.subscriptions[job.aggregateId]? = some sub) : sub.peerExternalId = none := by
  obtain ⟨sub', hsub', hfits⟩ := h.fits _ _ hjob
  rw [hsub] at hsub'
  cases hsub'
  simp only [Job.Fits, ht] at hfits
  exact hfits (by simp [hp])

/-- A job in processing whose result is written becomes another row of the same job. -/
theorem Consistent.updateJob {db : Database} {id : JobId} {job : Job} {f : Job → Job} (h : Consistent db)
    (hjob : db.jobs[id]? = some job) (hf : SameJob job (f job)) :
    Consistent { db with jobs := db.jobs.update id f } := by
  refine Tables.updateJob h fun job' hjob' => ?_
  rw [hjob] at hjob'
  cases hjob'
  exact hf

/-- The tables after a job's write and its success. -/
theorem consistent_write {db db' : Database} {id : JobId} {job : Job} {work : Worker.Work} {sub : Subscription}
    {delivered : Bool} {now : ℤ} (h : Consistent db) (hjob : db.jobs[id]? = some job)
    (hp : job.status = .processing) (hload : Loaded db job work sub)
    (hw : Worker.write db job.jobType job.aggregateId work delivered now = some db') :
    Consistent { db' with jobs := db'.jobs.update id Job.markCompleted } := by
  obtain ⟨hservers, hjobs, hsubs⟩ := Worker.write_eq_some hw
  have hdone : Tables db.servers db.subscriptions (db.jobs.update id Job.markCompleted) := by
    refine Tables.updateJob h fun job' hjob' => ?_
    exact .markCompleted job'
  unfold Consistent
  simp only [hservers, hjobs, hsubs]
  by_cases ht : job.jobType = .createPeer
  · -- no other create job is about this subscription, so it has no peer yet and gets its own
    have hnone := h.peer_none hjob hp ht hload.get
    rw [ht] at hw ⊢
    refine hdone.activate work.peer (fun j job' hj' htype hagg => ?_)
      (fun j sub' hj' hne => Worker.peerTaken_false (Worker.write_createPeer_free hw) hj' hne) fun sub' hsub' => ?_
    · rw [Table.get_update] at hj'
      split_ifs at hj' with hij
      · obtain ⟨_, -, rfl⟩ := Option.map_eq_some_iff.mp hj'
        rfl
      · exact absurd (h.createOnce id j job job' hjob hj' ht htype hagg.symm) hij
    · rw [hload.get] at hsub'
      cases hsub'
      obtain ⟨hstatus, hpeer, -⟩ := flush_row_create delivered now hload.samePeer hload.sound hnone
      exact ⟨flush_row.1, hpeer, by simp only [Subscription.Sound, hpeer]; exact .inl hstatus⟩
  · refine hdone.updateSub fun sub' hsub' => ?_
    rw [hload.get] at hsub'
    cases hsub'
    obtain ⟨hserver, -, hpeer⟩ := @flush_row work sub job.jobType delivered now
    refine ⟨⟨flush_row_orderId, hserver, hpeer ht⟩, ?_⟩
    have hs := h.sound _ _ hload.get
    simp only [Subscription.Sound, hpeer ht, hload.peer ht] at hs ⊢
    rcases @flush_row_status work sub job.jobType delivered now ht with he | ⟨-, he⟩ | ⟨-, he⟩
    · rwa [he]
    · exact .inr (.inl he)
    · exact .inr (.inr he)

/-- The last step of a job: it completes a job that had nothing to do, commits the rows of
one whose call was answered, or records a failure. -/
inductive Written (s : State) (delivered : Bool) (id : JobId) (job : Job) : Database → Prop
  | skipped (ht : job.jobType ≠ .enablePeer) (ht' : job.jobType ≠ .createPeer) :
    Written s delivered id job { s.db with jobs := s.db.jobs.update id Job.markCompleted }
  | done {work : Worker.Work} {sub : Subscription} {db : Database} (hphase : s.phase = .called id job work none)
      (hload : Loaded s.db job work sub) (hserved : Served s.peers job work)
      (hw : Worker.write s.db job.jobType job.aggregateId work delivered s.now = some db) :
    Written s delivered id job { db with jobs := db.jobs.update id Job.markCompleted }
  | failed (error : String) (isRetryable : Bool) :
    Written s delivered id job { s.db with jobs := s.db.jobs.update id (Job.markFailed error isRetryable s.now) }

theorem Wf.written {s : State} (h : Wf s) {delivered : Bool} {db : Database}
    (hw : writeJob s.db delivered s.now s.phase = some db) :
    ∃ id job, InHand s.db s.batch id job ∧ Written s delivered id job db := by
  have hp := h.phase
  cases hphase : s.phase with
  | idle => simp [hphase, writeJob] at hw
  | decided id job decision =>
    rw [hphase] at hp hw
    cases decision with
    | fail error => cases hw; exact ⟨id, job, hp, .failed error false⟩
    | skip => cases hw; exact ⟨id, job, hp.1, .skipped hp.2.1 hp.2.2⟩
    | go work => cases hw
  | called id job work failure =>
    rw [hphase] at hp hw
    obtain ⟨hhand, ⟨sub, hload⟩, hserved⟩ := hp
    cases failure with
    | some f => cases hw; exact ⟨id, job, hhand, .failed f.1 f.2⟩
    | none =>
      cases hdb : Worker.write s.db job.jobType job.aggregateId work delivered s.now with
      | none =>
        simp only [writeJob, hdb, finish, Option.some.injEq] at hw
        exact ⟨id, job, hhand, hw ▸ .failed "the write failed" true⟩
      | some db₁ =>
        simp only [writeJob, hdb, finish, Option.some.injEq] at hw
        exact ⟨id, job, hhand, hw ▸ .done hphase hload (hserved rfl) hdb⟩

theorem Written.consistent {s : State} {delivered : Bool} {id : JobId} {job : Job} {db : Database} (h : Wf s)
    (hhand : InHand s.db s.batch id job) (hw : Written s delivered id job db) : Consistent db := by
  cases hw with
  | skipped => exact h.consistent.updateJob hhand.1 (.markCompleted job)
  | done hphase hload hserved hw => exact consistent_write h.consistent hhand.1 hhand.2.1 hload hw
  | failed error isRetryable =>
    exact h.consistent.updateJob hhand.1 (.markFailed error isRetryable s.now (by simp [hhand.2.1]))

/-- The other jobs keep their rows. -/
theorem Written.job_ne {s : State} {delivered : Bool} {id i : JobId} {job : Job} {db : Database}
    (hw : Written s delivered id job db) (hne : id ≠ i) : db.jobs[i]? = s.db.jobs[i]? := by
  cases hw with
  | skipped => exact Table.get_update_of_ne _ _ hne
  | done hphase hload hserved hw =>
    obtain ⟨-, hjobs, -⟩ := Worker.write_eq_some hw
    simp only [hjobs]
    exact Table.get_update_of_ne _ _ hne
  | failed error isRetryable => exact Table.get_update_of_ne _ _ hne

/-- A subscription keeps its server and its peer, if it has one. -/
theorem Written.sub {s : State} {delivered : Bool} {id : JobId} {job : Job} {db : Database} (h : Wf s)
    (hhand : InHand s.db s.batch id job) (hw : Written s delivered id job db) {i : SubscriptionId}
    {sub : Subscription} {n : PeerName} (hsub : s.db.subscriptions[i]? = some sub) (hn : sub.peerExternalId = some n) :
    ∃ sub', db.subscriptions[i]? = some sub' ∧ SamePeer sub sub' := by
  cases hw with
  | skipped => exact ⟨sub, hsub, rfl, rfl, rfl⟩
  | failed => exact ⟨sub, hsub, rfl, rfl, rfl⟩
  | @done work sub₀ db₁ hphase hload hserved hw =>
    obtain ⟨-, -, hsubs⟩ := Worker.write_eq_some hw
    simp only [hsubs]
    by_cases hi : job.aggregateId = i
    · subst hi
      rw [hload.get] at hsub
      cases hsub
      obtain ⟨hserver, -, hpeer⟩ := @flush_row work sub job.jobType delivered s.now
      refine ⟨_, by rw [Table.get_update_self, hload.get]; rfl, flush_row_orderId, hserver, hpeer fun ht => ?_⟩
      simp [h.consistent.peer_none hhand.1 hhand.2.1 ht hload.get] at hn
    · exact ⟨sub, by rw [Table.get_update_of_ne _ _ hi]; exact hsub, rfl, rfl, rfl⟩

/-- The rows a session holds after the last step of a job: what it held before, and the row that was set. -/
theorem Wf.related_write {R : SubscriptionId → Subscription → Subscription → Prop} {s : State} (hwf : Wf s)
    (h : s.session.subscriptions.Related R s.db.subscriptions) {delivered : Bool} {db : Database}
    (hw : writeJob s.db delivered s.now s.phase = some db)
    (hset : ∀ id job work sub, InHand s.db s.batch id job → s.phase = .called id job work none →
      Loaded s.db job work sub →
      R job.aggregateId (work.row job.jobType delivered s.now)
        (work.sub.flush (work.row job.jobType delivered s.now) sub)) :
    (sessionAfter s.session s.db delivered s.now s.phase).subscriptions.Related R db.subscriptions := by
  have hp := hwf.phase
  cases hphase : s.phase with
  | idle => simp [hphase, writeJob] at hw
  | decided id job decision =>
    rw [hphase] at hw
    cases decision with
    | fail error => exact Table.Held.Related.empty _
    | skip => cases hw; exact h
    | go work => cases hw
  | called id job work failure =>
    rw [hphase] at hp hw
    obtain ⟨hhand, ⟨sub, hload⟩, -⟩ := hp
    cases failure with
    | some f => exact Table.Held.Related.empty _
    | none =>
      cases hdb : Worker.write s.db job.jobType job.aggregateId work delivered s.now with
      | none =>
        simp only [sessionAfter, hdb, Option.isSome_none]
        exact Table.Held.Related.empty _
      | some db₁ =>
        simp only [writeJob, hdb, finish, Option.some.injEq] at hw
        subst hw
        simp only [sessionAfter, hdb, Option.isSome_some, if_true, (Worker.write_eq_some hdb).2.2]
        exact h.set hload.get (hset id job work sub hhand hphase hload)

/-- A row that a job sets is sound. -/
theorem Loaded.sound_row {db : Database} {job : Job} {work : Worker.Work} {sub : Subscription}
    (h : Loaded db job work sub)
    (delivered : Bool) (now : ℤ) : (work.row job.jobType delivered now).Sound := by
  have hsound := h.sound
  unfold Subscription.Sound at hsound ⊢
  by_cases ht : job.jobType = .createPeer
  · rw [ht]
    exact .inl rfl
  · have hpeer : work.sub.peerExternalId = some work.peer := h.samePeer.peer.symm.trans (h.peer ht)
    rw [hpeer] at hsound
    cases htype : job.jobType with
    | createPeer => exact absurd htype ht
    | disablePeer => simp [Worker.Work.row, Subscription.markDisabled, hpeer]
    | removePeer => simp [Worker.Work.row, Subscription.markRemoved, hpeer]
    | enablePeer | redeliverConfig => simpa [Worker.Work.row, hpeer] using hsound

theorem SamePeer.flush {loaded stored : Subscription} (h : SamePeer loaded stored) (set : Subscription) :
    SamePeer set (loaded.flush set stored) :=
  ⟨Table.flushColumn_eq h.order _, Table.flushColumn_eq h.server _, Table.flushColumn_eq h.peer _⟩

theorem Wf.write {s : State} (h : Wf s) {delivered : Bool} {db : Database}
    (hw : writeJob s.db delivered s.now s.phase = some db) :
    Wf { s with db := db, phase := .idle, session := sessionAfter s.session s.db delivered s.now s.phase } := by
  have hsession := h.related_write h.session hw fun id job work sub _ _ hload =>
    ⟨hload.samePeer.flush _, hload.sound_row delivered s.now⟩
  obtain ⟨id, job, hhand, hw⟩ := h.written hw
  refine ⟨hw.consistent h hhand, fun i hi => ?_, h.nodup, trivial, fun server n hn => ?_, hsession⟩
  · have hne : id ≠ i := fun he => hhand.2.2 (he ▸ hi)
    obtain ⟨job', hjob', hp'⟩ := h.batch i hi
    exact ⟨job', by rw [hw.job_ne hne]; exact hjob', hp'⟩
  · obtain ⟨i, sub, hsub, hserver, hpeer⟩ := h.owner server n hn
    obtain ⟨sub', hsub', hsame⟩ := hw.sub h hhand hsub hpeer
    exact ⟨i, sub', hsub', hsame.server.trans hserver, hsame.peer.trans hpeer⟩

/-! ### Steps and runs -/

theorem Wf.collect {s : State} (h : Wf s) (hidle : s.phase = .idle) (user : UserId) :
    Wf { s with session := s.session.forget user } :=
  ⟨h.consistent, h.batch, h.nodup, by rw [hidle]; trivial, h.owner, h.session.forget _⟩

theorem Wf.crash {s : State} (h : Wf s) : Wf { s with phase := .idle, batch := [], session := .empty } :=
  ⟨h.consistent, by simp, List.nodup_nil, trivial, h.owner, Table.Held.Related.empty _⟩

theorem wf_step {settings : Settings} {s t : State} {a : Step} (h : Wf s) (hstep : step settings s a = some t) :
    Wf t := by
  cases ha : a.isWorker with
  | false =>
    obtain ⟨db, rfl, htxn | hpass⟩ := step_txn h.consistent ha hstep
    · exact h.txn htxn
    · exact h.pass hpass
  | true =>
    cases a with
    | claim limit =>
      simp only [step] at hstep
      split at hstep
      next hidle hbatch => cases hstep; exact h.claim hidle limit
      · cases hstep
    | read =>
      simp only [step] at hstep
      split at hstep
      next id rest hidle hbatch =>
        obtain ⟨job, hjob, rfl⟩ := Option.map_eq_some_iff.mp hstep
        exact h.read hbatch hjob
      · cases hstep
    | call reply =>
      simp only [step] at hstep
      split at hstep
      next id job work hphase =>
        split at hstep
        next server hserver => cases hstep; exact h.call hphase hserver reply
        next hserver =>
          -- the subscription's server exists
          have hp := h.phase
          rw [hphase] at hp
          obtain ⟨-, sub, hload⟩ := hp
          simp [hload.server] at hserver
      · cases hstep
    | write delivered =>
      obtain ⟨db, hw, rfl⟩ := Option.map_eq_some_iff.mp hstep
      exact h.write hw
    | collect user =>
      simp only [step] at hstep
      split at hstep
      next hidle => cases hstep; exact h.collect hidle user
      · cases hstep
    | crash => cases hstep; exact h.crash
    | tick d => cases hstep; exact ⟨h.consistent, h.batch, h.nodup, h.phase, h.owner, h.session⟩
    | _ => cases ha

theorem wf_run {settings : Settings} {users : Table User} {servers : Table VpnServer} {products : Table Product}
    {now : ℤ} {as : List Step} {s : State}
    (hrun : Machine.run (step settings) (start users servers products now) as = some s) : Wf s :=
  Machine.invariant_run (fun _ _ _ h ht => wf_step h ht) hrun (wf_start users servers products now)

end AmneziaVpnBot.Lifecycle
