import AmneziaVpnBot.Db.Jobs
import AmneziaVpnBot.Db.Orders

/-! The other transactions on subscriptions and jobs: the admin's `/extend` and retry, the
customer's redelivery, and the scheduler's two passes (`src/app/bot/handlers`,
`src/app/scheduler/service.py`). Each is one session, committed at its end. -/

namespace AmneziaVpnBot

structure Settings where
  peerRemovalGraceDays : ℤ
  configRedeliveryLimit : ℕ

/-- `cmd_admin_extend` on the subscription its label names; `none` when it is refused. -/
def adminExtend (db : Database) (id : SubscriptionId) (n : ℤ) (admin : TelegramId) (now : ℤ) : Option Database :=
  db.subscriptions[id]?.bind fun sub =>
    if n = 0 || !sub.hasPeer then none
    else
      let reenabled := sub.status ≠ .active && (sub.extend now n).status = .active
      some { db with
        subscriptions := db.subscriptions.update id (Subscription.extend now n)
        jobs := if reenabled then db.jobs.insert (newJob .enablePeer id (some .adminExtend) now) else db.jobs
        audit := db.audit ++ [⟨.admin admin, .subscriptionExtended, .subscription id⟩] }

/-- `status.value`, as it is shown in messages. -/
def SubscriptionStatus.value : SubscriptionStatus → String
  | .provisioning => "provisioning"
  | .active => "active"
  | .expired => "expired"
  | .disabled => "disabled"
  | .failed => "failed"
  | .revoked => "revoked"

/-- Why running this job again now would be wrong, or `none` if it is safe. -/
def retryBlocker (db : Database) (job : Job) (now : ℤ) : Option String :=
  if hasOpenJob db.jobs job.jobType job.aggregateId then some "the same job is already queued"
  else match db.subscriptions[job.aggregateId]? with
    | none => some "its subscription no longer exists"
    | some sub =>
      if job.jobType = .createPeer && sub.status ≠ .provisioning then
        some s!"the subscription is {sub.status.value}, not waiting for a peer"
      else if job.jobType = .enablePeer && (sub.status ≠ .active || sub.expiresAt ≤ now) then
        some "the subscription isn't active any more"
      else none

/-- One job of `callback_retry`; `none` when it is skipped. -/
def adminRetry (db : Database) (id : JobId) (admin : TelegramId) (now : ℤ) : Option Database :=
  db.jobs[id]?.bind fun job =>
    if job.status = .permanentFailure && (retryBlocker db job now).isNone then
      some { db with
        jobs := db.jobs.update id (Job.requeue now)
        audit := db.audit ++ [⟨.admin admin, .jobRequeued, .provisioningJob id⟩] }
    else none

/-- `callback_retry` on the jobs it lists: those that may run again are queued one after the
other, the rest are skipped. -/
def callbackRetry (db : Database) (ids : List JobId) (admin : TelegramId) (now : ℤ) : Database :=
  ids.foldl (fun db id => (adminRetry db id admin now).getD db) db

/-- `callback_redeliver_subscription`; `none` when it is refused. -/
def redeliverSubscription (settings : Settings) (db : Database) (id : SubscriptionId) (user : UserId) (now : ℤ) :
    Option Database :=
  db.subscriptions[id]?.bind fun sub =>
    if sub.userId = user && sub.configRedeliveryCount < settings.configRedeliveryLimit then
      some { db with jobs := db.jobs.insert (newJob .redeliverConfig id none now) }
    else none

/-- The key of a subscription's expiry notice: `sub_{sub.id}_expired_{sub.expires_at:%Y%m%d}`. -/
def expiredKey (id : SubscriptionId) (sub : Subscription) : ExpiredKey := ⟨id, sub.expiresAt / days 1⟩

/-- One subscription of `check_expired_subscriptions`. -/
def disableExpired (now : ℤ) (db : Database) (id : SubscriptionId) : Database :=
  if hasOpenJob db.jobs .disablePeer id then db
  else
    let key := (db.subscriptions[id]?).map (expiredKey id)
    { db with
      jobs := db.jobs.insert (newJob .disablePeer id (some .subscriptionExpired) now)
      notifications := db.notifications ++ key.toList.filter fun key => key ∉ db.notifications }

/-- Active subscriptions that have run out. -/
def expiredSubscriptions (subs : Table Subscription) (now : ℤ) : List SubscriptionId :=
  subs.select fun sub => sub.status = .active && sub.expiresAt ≤ now

def checkExpiredSubscriptions (db : Database) (now : ℤ) : Database :=
  (expiredSubscriptions db.subscriptions now).foldl (disableExpired now) db

/-- One subscription of `cleanup_removed_peers`. -/
def removeDisabled (now : ℤ) (db : Database) (id : SubscriptionId) : Database :=
  if hasOpenJob db.jobs .removePeer id then db
  else { db with jobs := db.jobs.insert (newJob .removePeer id (some .gracePeriodExpired) now) }

/-- Disabled subscriptions whose grace period has run out. -/
def cleanupSubscriptions (settings : Settings) (subs : Table Subscription) (now : ℤ) : List SubscriptionId :=
  let cutoff := now - days settings.peerRemovalGraceDays
  subs.select fun sub => sub.status = .disabled && sub.disabledAt.any fun t => t ≤ cutoff

def cleanupRemovedPeers (settings : Settings) (db : Database) (now : ℤ) : Database :=
  (cleanupSubscriptions settings db.subscriptions now).foldl (removeDisabled now) db

end AmneziaVpnBot
