import AmneziaVpnBot.Lib.Machine
import AmneziaVpnBot.Db.Transactions
import AmneziaVpnBot.Worker.Process
import Mathlib.Logic.Function.Basic

/-! The whole bot: customers and admins, the scheduler, one worker and the VPN servers.
The steps may come in any order. Every handler and every scheduler pass is one
transaction; a job of the worker is three steps (read and decide, call the server, write
and commit), and a call may take effect and still be reported as failed. The jobs of a batch
share a session, so a job may decide on rows that an earlier one has loaded. -/

namespace AmneziaVpnBot.Lifecycle

/-- A client on a VPN server: not known there, saved but turned off, or on. -/
inductive PeerState
  | absent | disabled | enabled
  deriving DecidableEq

/-- What a call of the provisioner makes of a client when it takes effect; `none` when the
server knows no such client. -/
def serve : JobType → PeerState → Option PeerState
  | .createPeer, .absent => some .enabled
  | .createPeer, p => some p
  | .disablePeer, .absent => some .absent
  | .disablePeer, _ => some .disabled
  | .enablePeer, .absent => none
  | .enablePeer, _ => some .enabled
  | .removePeer, _ => some .absent
  | .redeliverConfig, .absent => none
  | .redeliverConfig, p => some p

/-- How a call ends on its way to the server and back. -/
inductive Reply
  | ok
  /-- The call takes effect, and is reported to the worker as failed. -/
  | lost (error : String)
  /-- The call fails without effect. -/
  | failed (error : String) (isRetryable : Bool)

def Reply.takesEffect : Reply → Bool
  | .failed .. => false
  | _ => true

/-- The failure the worker sees, if any: its text and whether it may be retried. -/
abbrev Failure := Option (String × Bool)

inductive Phase
  | idle
  | decided (id : JobId) (job : Job) (decision : Worker.Decision)
  | called (id : JobId) (job : Job) (work : Worker.Work) (failure : Failure)

structure State where
  now : ℤ
  db : Database
  peers : ServerId → PeerName → PeerState
  phase : Phase
  /-- The jobs the worker has claimed and not started. -/
  batch : List JobId
  /-- The rows the session of that batch holds. -/
  session : IdentityMap

/-- An empty database with the users, servers and plans it was set up with. -/
def start (users : Table User) (servers : Table VpnServer) (products : Table Product) (now : ℤ) : State :=
  ⟨now, ⟨users, servers, products, [], [], [], [], []⟩, fun _ _ => .absent, .idle, [], .empty⟩

inductive Step
  | startOrder (user : UserId) (server : ServerId) (product : ProductId)
  | startRenewal (user : UserId) (sub : SubscriptionId) (product : ProductId)
  | submitReceipt (id : OrderId) (receipt : Receipt)
  | approve (id : OrderId) (admin : TelegramId) (idHex8 : ℕ)
  | reject (id : OrderId) (admin : TelegramId)
  | extend (id : SubscriptionId) (n : ℤ) (admin : TelegramId)
  | redeliver (id : SubscriptionId) (user : UserId)
  | retry (id : JobId) (admin : TelegramId)
  | checkExpired
  | cleanup
  | claim (limit : ℕ)
  | read
  | call (reply : Reply)
  /-- `delivered`: Telegram takes the config a create or redeliver job sends. -/
  | write (delivered : Bool)
  /-- The rows of a user leave the memory of the worker's session. -/
  | collect (user : UserId)
  /-- The worker dies and starts again with nothing in hand. -/
  | crash
  | tick (d : ℕ)

def worker : WorkerId := 0

def setPeer (peers : ServerId → PeerName → PeerState) (server : ServerId) (name : PeerName) (p : PeerState) :
    ServerId → PeerName → PeerState :=
  Function.update peers server (Function.update (peers server) name p)

/-- The provisioner's call for a job, with what the worker gets to see of it. -/
def callServer (peers : ServerId → PeerName → PeerState) (jobType : JobType) (server : ServerId)
    (name : PeerName) (reply : Reply) : (ServerId → PeerName → PeerState) × Failure :=
  match reply, serve jobType (peers server name) with
  | .ok, some p => (setPeer peers server name p, none)
  | .ok, none => (peers, some ("No such client", false))
  | .lost error, some p => (setPeer peers server name p, some (error, true))
  | .lost error, none => (peers, some (error, true))
  | .failed error isRetryable, _ => (peers, some (error, isRetryable))

/-- The job is done: what was written is committed with the job's success, or rolled back. -/
def finish (now : ℤ) (id : JobId) (db : Database) : Option Database → Database
  | some db' => { db' with jobs := db'.jobs.update id Job.markCompleted }
  | none => { db with jobs := db.jobs.update id (Job.markFailed "the write failed" true now) }

/-- The last step of a job. -/
def writeJob (db : Database) (delivered : Bool) (now : ℤ) : Phase → Option Database
  | .decided id _ .skip => some (finish now id db (some db))
  | .decided id _ (.fail error) => some { db with jobs := db.jobs.update id (Job.markFailed error false now) }
  | .called id job work none => some (finish now id db
      (Worker.write db job.jobType job.aggregateId work delivered now))
  | .called id _ _ (some (error, isRetryable)) =>
    some { db with jobs := db.jobs.update id (Job.markFailed error isRetryable now) }
  | _ => none

/-- What the session holds after the last step of a job. A failure is recorded after a rollback. -/
def sessionAfter (session : IdentityMap) (db : Database) (delivered : Bool) (now : ℤ) : Phase → IdentityMap
  | .decided _ _ (.fail _) => .empty
  | .called _ job work none =>
    if (Worker.write db job.jobType job.aggregateId work delivered now).isSome then
      work.hold session job.jobType job.aggregateId delivered now
    else .empty
  | .called _ _ _ (some _) => .empty
  | _ => session

/-- The job the worker takes up next. -/
def nextJob (s : State) : Option Job := s.batch.head?.bind fun id => s.db.jobs[id]?

/-- The database as the worker's session sees it. -/
def State.seen (s : State) : Database := s.session.view s.db

def step (settings : Settings) (s : State) : Step → Option State
  | .startOrder user server product =>
    if s.db.users[user]?.isSome && s.db.servers[server]?.isSome && s.db.products[product]?.isSome then
      some { s with db := createOrder s.db user server product none }
    else none
  | .startRenewal user sub product => s.db.subscriptions[sub]?.bind fun row =>
    if row.userId = user && s.db.servers[row.vpnServerId]?.isSome && s.db.products[product]?.isSome then
      some { s with db := createOrder s.db user row.vpnServerId product (some sub) }
    else none
  | .submitReceipt id receipt =>
    some { s with db := { s.db with orders := s.db.orders.update id (Order.submitReceipt receipt s.now) } }
  | .approve id admin idHex8 =>
    some { s with db := (callbackAdminApproveOrder s.db id admin idHex8 s.now).2 }
  | .reject id admin => some { s with db := (callbackAdminRejectOrder s.db id admin s.now).2 }
  | .extend id n admin => (adminExtend s.db id n admin s.now).map fun db => { s with db := db }
  | .redeliver id user => (redeliverSubscription settings s.db id user s.now).map fun db => { s with db := db }
  | .retry id admin => (adminRetry s.db id admin s.now).map fun db => { s with db := db }
  | .checkExpired => some { s with db := checkExpiredSubscriptions s.db s.now }
  | .cleanup => some { s with db := cleanupRemovedPeers settings s.db s.now }
  | .claim limit => match s.phase, s.batch with
    | .idle, [] =>
      let (jobs, claimed) := claimPendingJobs s.db.jobs worker s.now limit
      some { s with db := { s.db with jobs := jobs }, batch := claimed, session := .empty }
    | _, _ => none
  | .read => match s.phase, s.batch with
    | .idle, id :: rest => (s.db.jobs[id]?).map fun job =>
      { s with
        phase := .decided id job (Worker.read s.seen job s.now), batch := rest
        session := s.session.load s.db job.aggregateId }
    | _, _ => none
  | .call reply => match s.phase with
    | .decided id job (.go work) => match work.server with
      | some server =>
        let (peers, failure) := callServer s.peers job.jobType server work.peer reply
        some { s with peers := peers, phase := .called id job work failure }
      | none => some { s with phase := .called id job work none }
    | _ => none
  | .write delivered => (writeJob s.db delivered s.now s.phase).map fun db =>
    { s with db := db, phase := .idle, session := sessionAfter s.session s.db delivered s.now s.phase }
  | .collect user => match s.phase with
    | .idle => some { s with session := s.session.forget user }
    | _ => none
  | .crash => some { s with phase := .idle, batch := [], session := .empty }
  | .tick d => some { s with now := s.now + d }

/-! ### A small bot to run -/

/-- A job from its claim to its commit, with the answer its call gets. -/
def runJob (reply : Reply) : List Step := [.claim 10, .read, .call reply, .write true]

/-- One customer, one server and one plan of 30 days. -/
def small : State := start [⟨1000⟩] [⟨"nl-1"⟩] [⟨30⟩] 0

/-- The only subscription's peer. -/
def smallPeer : PeerName := ⟨1000, 1, "nl-1"⟩

end AmneziaVpnBot.Lifecycle
