import AmneziaVpnBot.Lifecycle.OpenJobs

/-! Runs in which each job is one step: what it reads, its call and what it commits come
with nothing in between. The stored rows are then as the job found them when it started; the
versions of them that its batch's session holds may still be older. -/

namespace AmneziaVpnBot.Lifecycle

inductive Turn
  | bot (a : Action)
  /-- The next job of the batch, with the answer its call gets. -/
  | job (reply : Reply) (delivered : Bool)

/-- The steps a job consists of. -/
def Action.inJob : Action → Bool
  | .one .read | .one (.call _) | .one (.write _) => true
  | _ => false

def runNext (settings : Settings) (s : State) (reply : Reply) (delivered : Bool) : Option State :=
  (step settings s .read).bind fun t => match t.phase with
    | .decided _ _ (.go _) => Machine.run (step settings) t [.call reply, .write delivered]
    | _ => step settings t (.write delivered)

def turn (settings : Settings) (s : State) : Turn → Option State
  | .bot a => if a.inJob then none else act settings s a
  | .job reply delivered => runNext settings s reply delivered

/-- What a job that runs in one step leaves of the database, and what its session holds then. -/
inductive Ran (s : State) (reply : Reply) (delivered : Bool) (id : JobId) (job : Job) : Database → IdentityMap → Prop
  | skipped (hskip : Worker.read s.seen job s.now = .skip) :
    Ran s reply delivered id job { s.db with jobs := s.db.jobs.update id Job.markCompleted }
      (s.session.load s.db job.aggregateId)
  | done {work : Worker.Work} {sub : Subscription} {db : Database} (hok : reply = .ok)
      (hseen : s.seen.subscriptions[job.aggregateId]? = some work.sub) (hload : Loaded s.db job work sub)
      (hw : Worker.write s.db job.jobType job.aggregateId work delivered s.now = some db) :
    Ran s reply delivered id job { db with jobs := db.jobs.update id Job.markCompleted }
      (work.hold (s.session.load s.db job.aggregateId) job.jobType job.aggregateId delivered s.now)
  /-- A disable or remove job does not fail once its call was answered. -/
  | failed (error : String) (isRetryable : Bool)
      (hfail : job.jobType = .disablePeer ∨ job.jobType = .removePeer → reply ≠ .ok) :
    Ran s reply delivered id job { s.db with jobs := s.db.jobs.update id (Job.markFailed error isRetryable s.now) }
      .empty

structure RanNext (s : State) (reply : Reply) (delivered : Bool) (id : JobId) (rest : List JobId)
    (job : Job) (t : State) :
    Prop where
  batch : s.batch = id :: rest
  get : s.db.jobs[id]? = some job
  processing : job.status = .processing
  wf : Wf t
  now : t.now = s.now
  idle : t.phase = .idle
  ran : Ran s reply delivered id job t.db t.session

/-- A call that the worker takes for successful was answered. -/
theorem callServer_none {peers peers' : ServerId → PeerName → PeerState} {jobType : JobType} {server : ServerId}
    {n : PeerName} {reply : Reply} (h : callServer peers jobType server n reply = (peers', none)) : reply = .ok := by
  unfold callServer at h
  split at h
  · rfl
  all_goals cases h

/-- A client can always be turned off or removed. -/
theorem callServer_ok_of_off {peers : ServerId → PeerName → PeerState} {jobType : JobType} {server : ServerId}
    {n : PeerName} (h : jobType = .disablePeer ∨ jobType = .removePeer) :
    (callServer peers jobType server n .ok).2 = none := by
  unfold callServer
  rcases h with rfl | rfl <;> cases peers server n <;> rfl

theorem runNext_cases {settings : Settings} {s t : State} {reply : Reply} {delivered : Bool} (h : Wf s)
    (hrun : runNext settings s reply delivered = some t) :
    ∃ id rest job, RanNext s reply delivered id rest job t := by
  obtain ⟨u, hread, hrun⟩ := Option.bind_eq_some_iff.mp hrun
  have hu := wf_step h hread
  simp only [step] at hread
  split at hread
  next id rest hidle hbatch =>
    obtain ⟨job, hjob, rfl⟩ := Option.map_eq_some_iff.mp hread
    obtain ⟨job', hjob', hp⟩ := h.batch id (by simp [hbatch])
    rw [hjob] at hjob'
    cases hjob'
    suffices hran : Wf t ∧ t.now = s.now ∧ t.phase = .idle ∧ Ran s reply delivered id job t.db t.session from
      ⟨id, rest, job, hbatch, hjob, hp, hran.1, hran.2.1, hran.2.2.1, hran.2.2.2⟩
    cases hdecision : Worker.read s.seen job s.now with
    | fail error =>
      simp only [hdecision] at hrun hu
      have ht := wf_step hu hrun
      cases hrun
      refine ⟨ht, rfl, rfl, .failed error false fun hoff => ?_⟩
      have hcreate := Worker.read_fail hdecision
      rw [hcreate] at hoff
      simp at hoff
    | skip =>
      simp only [hdecision] at hrun hu
      have ht := wf_step hu hrun
      cases hrun
      exact ⟨ht, rfl, rfl, .skipped hdecision⟩
    | go work =>
      simp only [hdecision] at hrun hu
      obtain ⟨seen, hseen, hfound⟩ := Worker.read_go hdecision
      obtain rfl := hfound.row
      obtain ⟨v, hcall, hrun⟩ := Machine.run_cons_eq_some.mp hrun
      obtain ⟨w, hwrite, hw⟩ := Machine.run_cons_eq_some.mp hrun
      cases hw
      have hv := wf_step hu hcall
      have ht := wf_step hv hwrite
      obtain ⟨-, sub, hload⟩ := hu.phase
      simp only [step, hload.server] at hcall
      cases hcall
      obtain ⟨db, hw, rfl⟩ := Option.map_eq_some_iff.mp hwrite
      refine ⟨ht, rfl, rfl, ?_⟩
      cases hanswer : (callServer s.peers job.jobType _ work.peer reply).2 with
      | some f =>
        simp only [hanswer] at hw ⊢
        cases hw
        refine .failed f.1 f.2 fun hoff hok => ?_
        subst hok
        rw [callServer_ok_of_off hoff] at hanswer
        cases hanswer
      | none =>
        have hok : reply = .ok := callServer_none (Prod.ext rfl hanswer)
        simp only [hanswer, writeJob, sessionAfter] at hw ⊢
        cases hdb : Worker.write s.db job.jobType job.aggregateId work delivered s.now with
        | none =>
          simp only [hdb, finish, Option.some.injEq] at hw
          simp only [Option.isSome_none]
          refine hw ▸ .failed "the write failed" true fun hoff => ?_
          obtain ⟨db, hsome⟩ := Worker.write_of_off s.db job.aggregateId work delivered s.now hoff
          rw [hdb] at hsome
          cases hsome
        | some db₁ =>
          simp only [hdb, finish, Option.some.injEq] at hw
          simp only [Option.isSome_some, if_true]
          exact hw ▸ .done hok hseen hload hdb
  · cases hread

/-- A turn of anyone but the worker's next job. -/
inductive Between (settings : Settings) (s : State) : State → Prop
  | txn {C : SubscriptionId → Prop} {db : Database} (h : Txn settings s.now C s.db db) :
    Between settings s { s with db := db }
  | pass {db : Database} (h : Pass settings s.now s.db db) : Between settings s { s with db := db }
  | claim (limit : ℕ) (hidle : s.phase = .idle) : Between settings s { s with
      db := { s.db with jobs := (claimPendingJobs s.db.jobs worker s.now limit).1 }
      batch := (claimPendingJobs s.db.jobs worker s.now limit).2
      session := .empty }
  | collect (user : UserId) (hidle : s.phase = .idle) : Between settings s { s with session := s.session.forget user }
  | crash : Between settings s { s with phase := .idle, batch := [], session := .empty }
  | tick (d : ℕ) : Between settings s { s with now := s.now + d }

theorem turn_bot_cases {settings : Settings} {s t : State} {a : Action} (h : Wf s)
    (hturn : turn settings s (.bot a) = some t) : Between settings s t := by
  have hjob : a.inJob = false := by
    by_contra hjob
    simp [turn, hjob] at hturn
  simp only [turn, hjob, Bool.false_eq_true, ↓reduceIte] at hturn
  rcases act_cases hturn with ⟨b, rfl, hstep⟩ | ⟨db, rfl, hpass⟩
  · cases hb : b.isWorker with
    | false =>
      obtain ⟨db, rfl, htxn | hpass⟩ := step_txn h.consistent hb hstep
      · exact .txn htxn
      · exact .pass hpass
    | true =>
      cases b with
      | claim limit =>
        simp only [step] at hstep
        split at hstep
        next hidle hbatch => cases hstep; exact .claim limit hidle
        · cases hstep
      | collect user =>
        simp only [step] at hstep
        split at hstep
        next hidle => cases hstep; exact .collect user hidle
        · cases hstep
      | crash => cases hstep; exact .crash
      | tick d => cases hstep; exact .tick d
      | read | call reply | write delivered => cases hjob
      | _ => cases hb
  · exact .pass hpass

theorem Between.idle {settings : Settings} {s t : State} (h : Between settings s t) (hidle : s.phase = .idle) :
    t.phase = .idle := by
  cases h <;> first | rfl | exact hidle

theorem Between.wf {settings : Settings} {s t : State} (hb : Between settings s t) (h : Wf s) : Wf t := by
  cases hb with
  | txn htxn => exact h.txn htxn
  | pass hpass => exact h.pass hpass
  | claim limit hidle => exact h.claim hidle limit
  | collect user hidle => exact h.collect hidle user
  | crash => exact h.crash
  | tick d => exact ⟨h.consistent, h.batch, h.nodup, h.phase, h.owner, h.session⟩

/-- What holds between turns: consistent tables, and no job half done. -/
structure Rested (s : State) : Prop where
  wf : Wf s
  idle : s.phase = .idle

theorem rested_start (users : Table User) (servers : Table VpnServer) (products : Table Product) (now : ℤ) :
    Rested (start users servers products now) := ⟨wf_start users servers products now, rfl⟩

theorem rested_turn {settings : Settings} {s t : State} {a : Turn} (h : Rested s) (hturn : turn settings s a = some t) :
    Rested t := by
  cases a with
  | bot a =>
    have hb := turn_bot_cases h.wf hturn
    exact ⟨hb.wf h.wf, hb.idle h.idle⟩
  | job reply delivered =>
    obtain ⟨id, rest, job, hran⟩ := runNext_cases h.wf hturn
    exact ⟨hran.wf, hran.idle⟩

end AmneziaVpnBot.Lifecycle
