import AmneziaVpnBot.Deploy.Hosts
import AmneziaVpnBot.Lifecycle.Orders

/-! A worker that dies between its server call and its commit. The job is claimed again when
its lease is over; the second call finds its work done on the host and gets the same answer,
and the second write makes of the same rows what the first would have made of them. -/

namespace AmneziaVpnBot.Deploy

open Lifecycle (Failure Phase)
open Worker (Work)

/-! ### Rows -/

/-- Equal apart from the times at which a subscription was turned off and removed. -/
structure SameButTimes (a b : Subscription) : Prop where
  row : b = { a with disabledAt := b.disabledAt, removedAt := b.removedAt }
  disabled : b.disabledAt.isSome = a.disabledAt.isSome
  removed : b.removedAt.isSome = a.removedAt.isSome

/-- Equal apart from the time of the next attempt, and equal if there is none. -/
structure SameButDue (a b : Job) : Prop where
  row : b = { a with availableAt := b.availableAt }
  due : a.status = .succeeded → b.availableAt = a.availableAt

theorem SameButTimes.refl (a : Subscription) : SameButTimes a a := ⟨rfl, rfl, rfl⟩

theorem sameButTimes_row (work : Work) (jobType : JobType) (delivered : Bool) (now now' : ℤ) :
    SameButTimes (work.row jobType delivered now) (work.row jobType delivered now') := by
  cases jobType <;> exact ⟨rfl, rfl, rfl⟩

theorem sameButDue_completed (w : WorkerId) (now : ℤ) (job : Job) :
    SameButDue job.markCompleted (job.claim w now).markCompleted := ⟨rfl, fun _ => rfl⟩

theorem markFailed_eq (error : String) (r : Bool) (now : ℤ) (job : Job) :
    job.markFailed error r now = { job with
      status := if r && job.attemptCount + 1 < maxRetries then .retryableFailure else .permanentFailure
      attemptCount := job.attemptCount + 1
      availableAt :=
        if r && job.attemptCount + 1 < maxRetries then now + backoff (job.attemptCount + 1) else job.availableAt
      lockedAt := none, lockedBy := none, lastError := some error } := by
  simp only [Job.markFailed]
  split_ifs <;> rfl

theorem sameButDue_failed (w : WorkerId) (claimed now now' : ℤ) (error : String) (r : Bool) (job : Job) :
    SameButDue (job.markFailed error r now) ((job.claim w claimed).markFailed error r now') := by
  constructor
  · rw [markFailed_eq, markFailed_eq]
    rfl
  · intro h
    rcases job.markFailed_status error r now with hs | hs <;> rw [h] at hs <;> cases hs

/-! ### The write -/

/-- What the write of a job depends on: the two databases agree on it. -/
structure SameRows (i : SubscriptionId) (work : Work) (db db' : Database) : Prop where
  subscription : db.subscriptions[i]? = some work.sub
  subscription' : db'.subscriptions[i]? = some work.sub
  order : db'.orders[work.sub.orderId]? = db.orders[work.sub.orderId]?
  free : Worker.peerTaken db'.subscriptions i work.peer = Worker.peerTaken db.subscriptions i work.peer

section
variable {i : SubscriptionId} {work : Work} {db db' a b : Database} {jobType : JobType}
    {delivered : Bool} {now now' : ℤ}

/-- A write is refused on both databases or on neither. -/
theorem SameRows.isSome_write (h : SameRows i work db db') :
    (Worker.write db' jobType i work delivered now').isSome =
      (Worker.write db jobType i work delivered now).isSome := by
  cases jobType with
  | createPeer =>
    simp only [Worker.write, h.free]
    split_ifs <;> rfl
  | redeliverConfig =>
    simp only [Worker.write]
    split_ifs <;> rfl
  | _ => rfl

theorem write_subscription (hsub : db.subscriptions[i]? = some work.sub)
    (h : Worker.write db jobType i work delivered now = some a) :
    a.subscriptions[i]? = some (work.row jobType delivered now) := by
  rw [(Worker.write_eq_some h).2.2, Table.get_update_self, hsub, Option.map_some, Subscription.flush_current]

theorem SameRows.order_write (h : SameRows i work db db') (ha : Worker.write db jobType i work delivered now = some a)
    (hb : Worker.write db' jobType i work delivered now' = some b) :
    b.orders[work.sub.orderId]? = a.orders[work.sub.orderId]? := by
  by_cases ht : jobType = .createPeer
  · subst ht
    rw [Worker.write_createPeer_orders ha, Worker.write_createPeer_orders hb, Worker.fulfill, Worker.fulfill]
    cases work.order with
    | none => exact h.order
    | some order => rw [Option.elim_some, Option.elim_some, Table.get_update_self, Table.get_update_self, h.order]
  · rw [Lifecycle.write_orders ht ha, Lifecycle.write_orders ht hb, h.order]

/-- The rows of the job, its subscription and its order when the job is finished. -/
structure SameEndRows (id : JobId) (i : SubscriptionId) (order : OrderId) (db db' : Database) : Prop where
  job : ∃ a b, db.jobs[id]? = some a ∧ db'.jobs[id]? = some b ∧ SameButDue a b
  subscription : ∃ a b, db.subscriptions[i]? = some a ∧ db'.subscriptions[i]? = some b ∧ SameButTimes a b
  order : db'.orders[order]? = db.orders[order]?

/-- The same rows and the same answer end in the same rows. -/
theorem SameRows.finish {id : JobId} {job : Job} {w : WorkerId} {claimed : ℤ} (h : SameRows i work db db')
    (hjob : db.jobs[id]? = some job) (hjob' : db'.jobs[id]? = some (job.claim w claimed)) :
    SameEndRows id i work.sub.orderId
      (Lifecycle.finish now id db (Worker.write db jobType i work delivered now))
      (Lifecycle.finish now' id db' (Worker.write db' jobType i work delivered now')) := by
  have hsome := @SameRows.isSome_write i work db db' jobType delivered now now' h
  cases ha : Worker.write db jobType i work delivered now with
  | none =>
    rw [ha, Option.isSome_none, Option.isSome_eq_false_iff, Option.isNone_iff_eq_none] at hsome
    rw [hsome]
    refine ⟨⟨_, _, ?_, ?_, sameButDue_failed w claimed now now' "the write failed" true job⟩,
      ⟨_, _, h.subscription, h.subscription', .refl _⟩, h.order⟩
    · simp only [Lifecycle.finish, Table.get_update_self, hjob, Option.map_some]
    · simp only [Lifecycle.finish, Table.get_update_self, hjob', Option.map_some]
  | some a =>
    rw [ha, Option.isSome_some] at hsome
    obtain ⟨b, hb⟩ := Option.isSome_iff_exists.mp hsome
    rw [hb]
    refine ⟨⟨_, _, ?_, ?_, sameButDue_completed w claimed job⟩, ⟨_, _, (write_subscription h.subscription ha :),
      (write_subscription h.subscription' hb :), sameButTimes_row work jobType delivered now now'⟩,
      (h.order_write ha hb :)⟩
    · simp only [Lifecycle.finish, Table.get_update_self, (Worker.write_eq_some ha).2.1, hjob, Option.map_some]
    · simp only [Lifecycle.finish, Table.get_update_self, (Worker.write_eq_some hb).2.1, hjob', Option.map_some]

end

/-! ### The turn of a job -/

variable {setup : Setup} {s t u v : State}

/-- The worker turns to the next job it has claimed and calls the host. -/
def calling (d : ℕ) (e : Vpnctl.Env) : List Step := [.bot .read, .bot (.tick d), .call (.answered e)]

/-- The worker writes what came of the call. -/
def writing (d : ℕ) (delivered : Bool) : List Step := [.bot (.tick d), .bot (.write delivered)]

/-- The worker is about to take up this job. -/
structure Turns (s : State) (id : JobId) (job : Job) (rest : List JobId) : Prop where
  phase : s.phase = .idle
  batch : s.batch = id :: rest
  job : s.db.jobs[id]? = some job

/-- The worker has made up its mind about the job. -/
def State.deciding (s : State) (d : ℕ) (id : JobId) (job : Job) (rest : List JobId) : State :=
  { s with
    now := s.now + d, phase := .decided id job (Worker.read s.bot.seen job s.now), batch := rest
    session := s.session.load s.db job.aggregateId }

theorem run_calling {id : JobId} {job : Job} {rest : List JobId} (h : Turns s id job rest) (d : ℕ) (e : Vpnctl.Env) :
    Machine.run (step setup) s (calling d e) = step setup (s.deciding d id job rest) (.call (.answered e)) := by
  have hread : step setup s (.bot .read) = some { s with
      phase := .decided id job (Worker.read s.bot.seen job s.now), batch := rest
      session := s.session.load s.db job.aggregateId } := by
    simp only [step, Lifecycle.step, bot_phase, bot_batch, bot_db, h.phase, h.batch, h.job, Option.map_some]
    rfl
  simp only [calling, Machine.run_cons, Machine.run_nil, hread, Option.bind_some, Option.bind_fun_some]
  rfl

theorem turns_of_run {d : ℕ} {e : Vpnctl.Env} (h : Machine.run (step setup) s (calling d e) = some v) :
    ∃ id job rest, Turns s id job rest := by
  obtain ⟨t, ht, -⟩ := Machine.run_cons_eq_some.mp h
  obtain ⟨-, -, -, hread⟩ := step_bot ht
  simp only [Lifecycle.step, bot_phase, bot_batch, bot_db] at hread
  split at hread
  next id rest hphase hbatch =>
    obtain ⟨job, hjob, -⟩ := Option.map_eq_some_iff.mp hread
    exact ⟨id, job, rest, hphase, hbatch, hjob⟩
  · cases hread

/-- The state after a call that the host carried out. -/
def State.called (s : State) (d : ℕ) (id : JobId) (job : Job) (rest : List JobId) (work : Work)
    (hosts : ServerId → Vpnctl.Server) (config : Option Text) : State :=
  { s with
    now := s.now + d, phase := .called id job work none, batch := rest
    session := s.session.load s.db job.aggregateId, hosts := hosts, config := config }

/-- What the host makes of the call when there is one. -/
inductive Carried (setup : Setup) (s : State) (job : Job) (work : Work) (e : Vpnctl.Env) :
    (ServerId → Vpnctl.Server) → Option Text → Prop
  | noServer (h : work.server = none) : Carried setup s job work e s.hosts none
  | request {server : ServerId} {config : Option Text} {host : Vpnctl.Server} (h : work.server = some server)
      (hname : sanitized (nameText work.peer) = true)
      (hserve : serveRequest setup s job work server e = (.ok config, host)) :
      Carried setup s job work e (Function.update s.hosts server host) config

theorem callHost_none {job : Job} {work : Work} {server : ServerId} {e : Vpnctl.Env}
    (h : (callHost setup s job work server (.answered e)).2 = none) :
    ∃ config host, sanitized (nameText work.peer) = true ∧ serveRequest setup s job work server e = (.ok config, host) ∧
      (callHost setup s job work server (.answered e)).1 =
        { s with hosts := Function.update s.hosts server host, config := config } := by
  unfold callHost at h ⊢
  by_cases hname : sanitized (nameText work.peer) = true
  · rw [if_pos hname] at h ⊢
    rcases hserve : serveRequest setup s job work server e with ⟨err | config, host⟩
    · simp [hserve, readAnswer] at h
    · exact ⟨config, host, hname, rfl, by simp only [hserve, readAnswer]⟩
  · rw [if_neg hname] at h
    cases h

theorem run_of_carried {d : ℕ} {id : JobId} {job : Job} {rest : List JobId} {work : Work} {e : Vpnctl.Env}
    {hosts : ServerId → Vpnctl.Server} {config : Option Text} (hturn : Turns s id job rest)
    (hread : Worker.read s.bot.seen job s.now = .go work) (h : Carried setup s job work e hosts config) :
    Machine.run (step setup) s (calling d e) = some (s.called d id job rest work hosts config) := by
  rw [run_calling hturn, State.deciding, hread]
  cases h with
  | noServer h => simp only [step, h, State.called]
  | request h hname hserve =>
    have hserve' : serveRequest setup { s with
        now := s.now + d, phase := .decided id job (.go work), batch := rest
        session := s.session.load s.db job.aggregateId } job work _ e = _ := hserve
    simp only [step, h, callHost, hname, if_true, hserve', readAnswer, State.called]

theorem carried_of_run {d : ℕ} {id : JobId} {job : Job} {work : Work} {e : Vpnctl.Env}
    (h : Machine.run (step setup) s (calling d e) = some v) (hphase : v.phase = .called id job work none) :
    ∃ rest hosts config, Turns s id job rest ∧ Worker.read s.bot.seen job s.now = .go work ∧
      Carried setup s job work e hosts config ∧ v = s.called d id job rest work hosts config := by
  obtain ⟨id', job', rest, hturn⟩ := turns_of_run h
  rw [run_calling hturn, State.deciding] at h
  cases hread : Worker.read s.bot.seen job' s.now with
  | go work' =>
    simp only [hread, step] at h
    split at h
    next server hserver =>
      obtain rfl := Option.some.inj h
      obtain ⟨rfl, rfl, rfl, hfailure⟩ := Phase.called.inj hphase
      obtain ⟨config, host, hname, hserve, hcall⟩ := callHost_none hfailure
      refine ⟨rest, _, config, hturn, hread, .request hserver hname hserve, ?_⟩
      rw [hcall, hfailure]
      rfl
    next hserver =>
      obtain rfl := Option.some.inj h
      cases hphase
      exact ⟨rest, s.hosts, none, hturn, hread, .noServer hserver, rfl⟩
  | _ => simp only [hread, step, reduceCtorEq] at h

theorem run_writing {id : JobId} {job : Job} {work : Work} (h : v.phase = .called id job work none) (d : ℕ)
    (delivered : Bool) :
    Machine.run (step setup) v (writing d delivered) = some { v with
      now := v.now + d
      db := Lifecycle.finish (v.now + d) id v.db
        (Worker.write v.db job.jobType job.aggregateId work delivered (v.now + d))
      phase := .idle
      session := Lifecycle.sessionAfter v.session v.db delivered (v.now + d) v.phase } := by
  simp only [writing, Machine.run_cons, Machine.run_nil, step, Lifecycle.step, Option.map_some,
    Option.bind_some, bot_now, bot_db, bot_phase, bot_batch, bot_session, h, Lifecycle.writeJob]

/-- A whole run of a job whose call is carried out. -/
theorem run_turn {id : JobId} {job : Job} {rest : List JobId} {work : Work} {e : Vpnctl.Env}
    {hosts : ServerId → Vpnctl.Server} {config : Option Text} (hturn : Turns s id job rest)
    (hread : Worker.read s.bot.seen job s.now = .go work) (h : Carried setup s job work e hosts config) (d d' : ℕ)
    (delivered : Bool) :
    ∃ session, Machine.run (step setup) s (calling d e ++ writing d' delivered) = some { s with
      now := s.now + d + d'
      db := Lifecycle.finish (s.now + d + d') id s.db
        (Worker.write s.db job.jobType job.aggregateId work delivered (s.now + d + d'))
      hosts := hosts, phase := .idle, batch := rest, session := session, config := config } := by
  rw [Machine.run_append, run_of_carried hturn hread h, Option.bind_some, run_writing rfl]
  exact ⟨_, rfl⟩

/-! ### In between -/

/-- The job is claimed again after the crash, and the worker turns to it. Nobody else has a hand
on it, so this is when its lease is over. -/
structure ClaimedAgain (setup : Setup) (id : JobId) (job : Job) (rest : List JobId) (t t' : State) : Prop where
  run : ∃ as, Machine.run (step setup) t as = some t'
  turn : ∃ claimed, Turns t' id (job.claim Lifecycle.worker claimed) rest

/-- What the worker's session holds of a subscription and its order, if anything, is what is stored. -/
structure Current (i : SubscriptionId) (order : OrderId) (s : State) : Prop where
  subscription : ∀ seen, s.session.subscriptions i = some seen → s.db.subscriptions[i]? = some seen
  order : ∀ seen, s.session.orders order = some seen → s.db.orders[order]? = some seen

/-- Since the worker that dies has loaded them, and until it turns to the job again at `t'`, nothing has happened to the
job's subscription and its order, nor, from the crash at `t` on, to the peer and the server of that subscription, and
the renewal check answers as it did at `s`. -/
structure Undisturbed (job : Job) (work : Work) (s t t' : State) : Prop where
  loaded : Current job.aggregateId work.sub.orderId s
  loaded' : Current job.aggregateId work.sub.orderId t'
  subscription : t'.db.subscriptions[job.aggregateId]? = t.db.subscriptions[job.aggregateId]?
  order : t'.db.orders[work.sub.orderId]? = t.db.orders[work.sub.orderId]?
  free : Worker.peerTaken t'.db.subscriptions job.aggregateId work.peer =
    Worker.peerTaken t.db.subscriptions job.aggregateId work.peer
  host : (t.hosts work.sub.vpnServerId).Alike (t'.hosts work.sub.vpnServerId)
  renewed : Worker.renewed work.sub job t'.now = Worker.renewed work.sub job s.now

theorem Current.seen_subscription {i : SubscriptionId} {order : OrderId} (h : Current i order s) :
    s.bot.seen.subscriptions[i]? = s.db.subscriptions[i]? := Table.Held.view_of_current h.subscription

theorem Current.seen_order {i : SubscriptionId} {order : OrderId} (h : Current i order s) :
    s.bot.seen.orders[order]? = s.db.orders[order]? := Table.Held.view_of_current h.order

theorem read_same {db db' : Database} {job : Job} {work : Work} {now now' : ℤ} {w : WorkerId} (claimed : ℤ)
    (husers : db'.users = db.users) (hservers : db'.servers = db.servers)
    (hsub : db'.subscriptions[job.aggregateId]? = db.subscriptions[job.aggregateId]?)
    (horder : db'.orders[work.sub.orderId]? = db.orders[work.sub.orderId]?)
    (hrenewed : Worker.renewed work.sub job now' = Worker.renewed work.sub job now)
    (h : Worker.read db job now = .go work) : Worker.read db' (job.claim w claimed) now' = .go work := by
  obtain ⟨sub, hrow, hfound⟩ := Worker.read_go h
  obtain rfl := hfound.row
  have hsame : Worker.read db' (job.claim w claimed) now' = Worker.read db job now := by
    have haggregate : (job.claim w claimed).aggregateId = job.aggregateId := rfl
    have htype : (job.claim w claimed).jobType = job.jobType := rfl
    have hrenewed' : Worker.renewed work.sub (job.claim w claimed) now' = Worker.renewed work.sub job now := hrenewed
    simp only [Worker.read, haggregate, hsub, hrow, Worker.readSubscription, htype, hrenewed', husers, hservers, horder,
      Worker.goOn, Worker.lookupServer]
  rw [hsame, h]

/-- Every run keeps the users and the servers it was set up with. -/
theorem rows_step {a : Step} (h : step setup s a = some t) :
    t.db.users = s.db.users ∧ t.db.servers = s.db.servers := by
  cases a with
  | bot a =>
    obtain ⟨-, -, hcall, hbot⟩ := step_bot h
    have hkeep := step_keeps hcall hbot
    exact ⟨hkeep.users, hkeep.servers⟩
  | call answer =>
    simp only [step] at h
    split at h
    next id job work hphase =>
      split at h
      next server hserver =>
        obtain rfl := Option.some.inj h
        unfold callHost
        split_ifs
        · cases answer <;> exact ⟨rfl, rfl⟩
        · exact ⟨rfl, rfl⟩
      · obtain rfl := Option.some.inj h
        exact ⟨rfl, rfl⟩
    · cases h

theorem rows_run {as : List Step} (h : Machine.run (step setup) s as = some t) :
    t.db.users = s.db.users ∧ t.db.servers = s.db.servers :=
  Machine.invariant_run (I := fun u => u.db.users = s.db.users ∧ u.db.servers = s.db.servers)
    (fun _ _ _ hs hstep => ⟨(rows_step hstep).1.trans hs.1, (rows_step hstep).2.trans hs.2⟩) h ⟨rfl, rfl⟩

/-! ### The crash -/

/-- Two runs of a job have the same end: the order, the subscription but for its times, the job,
the host's config, files and live peers, and the client config that was brought back. -/
structure SameEnd (id : JobId) (job : Job) (sub : Subscription) (u u' : State) : Prop where
  rows : SameEndRows id job.aggregateId sub.orderId u.db u'.db
  host : (u.hosts sub.vpnServerId).Alike (u'.hosts sub.vpnServerId)
  config : u'.config = u.config

/-- The host carries out the second call as it did the first. -/
theorem carried_again {t' : State} {job : Job} {work : Work} {e₁ e₂ : Vpnctl.Env} {hosts : ServerId → Vpnctl.Server}
    {config : Option Text} {claimed : ℤ} (hsaved : ∀ server, (s.hosts server).Saved) (he₁ : e₁.AllOk) (he₂ : e₂.AllOk)
    (hserver : ∀ server, work.server = some server → server = work.sub.vpnServerId)
    (h : Carried setup s job work e₁ hosts config)
    (hhost : (hosts work.sub.vpnServerId).Alike (t'.hosts work.sub.vpnServerId)) :
    ∃ hosts', Carried setup t' (job.claim Lifecycle.worker claimed) work e₂ hosts' config ∧
      (hosts work.sub.vpnServerId).Alike (hosts' work.sub.vpnServerId) := by
  cases h with
  | noServer h => exact ⟨t'.hosts, .noServer h, hhost⟩
  | @request server _ host h hname hserve =>
    obtain rfl := hserver _ h
    rw [Function.update_self] at hhost ⊢
    obtain ⟨host', hserve', hhost'⟩ := request_again (hsaved _) he₁ he₂ hserve hhost
    refine ⟨_, .request h hname hserve', ?_⟩
    rwa [Function.update_self]

theorem server_of_read {db : Database} {job : Job} {now : ℤ} {work : Work} (h : Worker.read db job now = .go work) :
    ∀ server, work.server = some server → server = work.sub.vpnServerId := by
  obtain ⟨sub, -, hfound⟩ := Worker.read_go h
  intro server hserver
  rw [hfound.server, hfound.row.symm, Worker.lookupServer, Option.map_eq_some_iff] at hserver
  obtain ⟨row, -, rfl⟩ := hserver
  rfl

/-- Running a job again after the worker died with its call carried out ends like one run that
was not interrupted. -/
theorem crash_harmless {users : Table User} {servers : Table VpnServer} {products : Table Product} {start₀ : ℤ}
    {hosts : ServerId → Vpnctl.Server} {as : List Step} {t' : State} {id : JobId} {job : Job} {work : Work}
    {rest : List JobId} {d₁ d₂ d₃ d₄ : ℕ} {e₁ e₂ : Vpnctl.Env} {delivered : Bool}
    (hslug : ∀ server ∈ servers, server.slug.toList.getLast? ≠ some '\n') (hhosts : ∀ server, (hosts server).Saved)
    (hcomplete : Machine.Along (step setup) (Completes setup) (start users servers products start₀ hosts) as)
    (hs : Machine.run (step setup) (start users servers products start₀ hosts) as = some s)
    (hv : Machine.run (step setup) s (calling d₁ e₁) = some v) (he₁ : e₁.AllOk)
    (heffect : v.phase = .called id job work none) (hu : Machine.run (step setup) v (writing d₂ delivered) = some u)
    (ht : step setup v (.bot .crash) = some t) (hagain : ClaimedAgain setup id job rest t t')
    (hsame : Undisturbed job work s t t') (he₂ : e₂.AllOk) :
    ∃ u', Machine.run (step setup) t' (calling d₃ e₂ ++ writing d₄ delivered) = some u' ∧
    SameEnd id job work.sub u u' := by
  obtain ⟨_, hosts₁, config, hturn, hread, hcarried, rfl⟩ := carried_of_run hv heffect
  obtain rfl := Option.some.inj ht
  obtain rfl := Option.some.inj ((run_writing heffect d₂ delivered).symm.trans hu)
  obtain ⟨⟨bs, hbs⟩, claimed, hturn'⟩ := hagain
  obtain ⟨husers, hservers⟩ := rows_run hbs
  obtain ⟨sub, hseen, hfound⟩ := Worker.read_go hread
  obtain rfl := hfound.row
  have hrow : s.db.subscriptions[job.aggregateId]? = some work.sub := hsame.loaded.seen_subscription.symm.trans hseen
  have husers' : t'.bot.seen.users = s.bot.seen.users := husers
  have hservers' : t'.bot.seen.servers = s.bot.seen.servers := hservers
  have hread' : Worker.read t'.bot.seen (job.claim Lifecycle.worker claimed) t'.now = .go work := by
    refine read_same claimed husers' hservers' ?_ ?_ hsame.renewed hread
    · rw [hsame.loaded'.seen_subscription, hsame.loaded.seen_subscription]
      exact hsame.subscription
    · rw [hsame.loaded'.seen_order, hsame.loaded.seen_order]
      exact hsame.order
  obtain ⟨hosts₂, hcarried', hhost⟩ := carried_again (sound_run hslug hhosts hcomplete hs).hosts he₁ he₂
    (server_of_read hread) hcarried hsame.host
  have hrows : SameRows job.aggregateId work s.db t'.db :=
    ⟨hrow, hsame.subscription.trans hrow, hsame.order, hsame.free⟩
  obtain ⟨session, hrun⟩ := run_turn hturn' hread' hcarried' d₃ d₄ delivered
  exact ⟨_, hrun, hrows.finish hturn.job hturn'.job, hhost, rfl⟩

/-! ### A small run -/

def smallSetup : Setup := ⟨⟨30, 3⟩, fun _ => Vpnctl.smallSettings, fun _ => Vpnctl.smallId, fun _ => "vpnctl failed"⟩

/-- One customer, one plan, and one host without clients. -/
def small : State := start [⟨1000⟩] [⟨"nl-1"⟩] [⟨30⟩] 0 fun _ => Vpnctl.smallServer

/-- An order is placed and approved, and the worker claims its create job. -/
def approved : List Step :=
  [.startOrder 0 0 0, .submitReceipt 0 ⟨"f", 1, 1, "photo", none⟩, .approve 0 7 1, .claim 10].map .bot

/-- The lease runs out and the job is claimed again. -/
def claimedAgain : List Step := [.tick 300000001, .claim 10].map .bot

theorem along_bot (as : List Lifecycle.Step) (s : State) :
    Machine.Along (step setup) (Completes setup) s (as.map .bot) := by
  induction as generalizing s with
  | nil => trivial
  | cons a as ih => exact ⟨trivial, fun t _ => ih t⟩

theorem hosts_run_bot {as : List Lifecycle.Step} (h : Machine.run (step setup) s (as.map .bot) = some t) :
    t.hosts = s.hosts := by
  induction as generalizing s with
  | nil => cases h; rfl
  | cons a as ih =>
    obtain ⟨u, hu, h⟩ := Machine.run_cons_eq_some.mp h
    rw [ih h, (step_bot hu).1]

/-- The session holds neither the subscription nor its order. -/
def checkSession (i : SubscriptionId) (order : OrderId) (session : IdentityMap) : Bool :=
  (session.subscriptions i).isNone && (session.orders order).isNone

theorem current_of_checkSession {i : SubscriptionId} {order : OrderId} (h : checkSession i order s.session = true) :
    Current i order s := by
  simp only [checkSession, Bool.and_eq_true, Option.isNone_iff_eq_none] at h
  constructor
  · intro seen hseen
    rw [h.1] at hseen
    cases hseen
  · intro seen hseen
    rw [h.2] at hseen
    cases hseen

/-- The states of the run with a crash, as far as they can be compared. -/
def checkSmall (s v t t' : State) : Bool :=
  match v.phase with
  | .called id job work none => (match t'.phase with | .idle => true | _ => false) &&
      t'.batch = [id] && t'.db.jobs[id]? = some (job.claim Lifecycle.worker t'.now) &&
      t'.db.subscriptions = t.db.subscriptions && t'.db.orders = t.db.orders &&
      checkSession job.aggregateId work.sub.orderId s.session &&
      checkSession job.aggregateId work.sub.orderId t'.session &&
      Worker.renewed work.sub job t'.now = Worker.renewed work.sub job s.now
  | _ => false

theorem crash_harmless_create : ∃ s v u t t' u' id job work, Machine.run (step smallSetup) small approved = some s ∧
    Machine.run (step smallSetup) s (calling 0 (Vpnctl.smallEnv "azE=".toList)) = some v ∧
    Machine.run (step smallSetup) v (writing 0 true) = some u ∧ step smallSetup v (.bot .crash) = some t ∧
    Machine.run (step smallSetup) t claimedAgain = some t' ∧
    Machine.run (step smallSetup) t' (calling 0 (Vpnctl.smallEnv "azI=".toList) ++ writing 0 true) = some u' ∧
    SameEnd id job work u u' := by
  have hall : (Machine.run (step smallSetup) small approved).any (fun s =>
      (Machine.run (step smallSetup) s (calling 0 (Vpnctl.smallEnv "azE=".toList))).any fun v =>
        (Machine.run (step smallSetup) v (writing 0 true)).any fun _ => (step smallSetup v (.bot .crash)).any fun t =>
          (Machine.run (step smallSetup) t claimedAgain).any fun t' => checkSmall s v t t') = true := by decide +kernel
  obtain ⟨s, hs, hall⟩ := Machine.exists_of_any hall
  obtain ⟨v, hv, hall⟩ := Machine.exists_of_any hall
  obtain ⟨u, hu, hall⟩ := Machine.exists_of_any hall
  obtain ⟨t, ht, hall⟩ := (Option.any_eq_true _ _).mp hall
  obtain ⟨t', ht', hall⟩ := Machine.exists_of_any hall
  unfold checkSmall at hall
  split at hall
  next id job work hphase =>
    split at hall
    next hidle =>
      simp only [Bool.and_eq_true, decide_eq_true_eq, Bool.true_and] at hall
      obtain ⟨⟨⟨⟨⟨⟨hbatch, hjob⟩, hsubs⟩, horders⟩, hsession⟩, hsession'⟩, hrenewed⟩ := hall
      have hsaved : ∀ k : ServerId, (small.hosts k).Saved := by
        intro k n text h
        cases h
      have hagain : ClaimedAgain smallSetup id job [] t t' := ⟨⟨_, ht'⟩, _, hidle, hbatch, hjob⟩
      have hsame : Undisturbed job work s t t' :=
        ⟨current_of_checkSession hsession, current_of_checkSession hsession', by rw [hsubs], by rw [horders],
          by rw [hsubs], by rw [hosts_run_bot ht']; exact .refl _, hrenewed⟩
      obtain ⟨u', hu', hend⟩ := crash_harmless (by decide +kernel) hsaved (along_bot _ _) hs hv
        (Vpnctl.smallEnv_allOk _) hphase hu ht hagain hsame (Vpnctl.smallEnv_allOk "azI=".toList)
      exact ⟨s, v, u, t, t', u', id, job, work.sub, hs, hv, hu, ht, ht', hu', hend⟩
    · cases hall
  · cases hall

end AmneziaVpnBot.Deploy
