import AmneziaVpnBot.Db.IdentityMap
import AmneziaVpnBot.Db.Jobs
import AmneziaVpnBot.Db.Subscriptions

/-! One job of the worker (`src/app/worker/engine.py`, `_process_job`): what it reads and
decides, the one call it makes to the VPN server, and what it then writes. The rows it
writes are the ones it loaded before the call, so the write is column by column. -/

namespace AmneziaVpnBot.Worker

/-- `EXPIRY_REASONS` -/
def expiryReason (reason : Option Reason) : Bool :=
  reason = some .subscriptionExpired || reason = some .gracePeriodExpired

/-- A disable or remove job the scheduler queued at expiry must not undo a renewal that
came after it. -/
def renewed (sub : Subscription) (job : Job) (now : ℤ) : Bool :=
  expiryReason job.reason && sub.renewed now

/-- What a job that goes on to its call has loaded. -/
structure Work where
  sub : Subscription
  order : Option Order
  /-- The server to call, if its row exists. -/
  server : Option ServerId
  peer : PeerName

inductive Decision
  | fail (error : String)
  | skip
  | go (work : Work)

/-- The label `create_peer` asks for. -/
def peerLabel (user : User) (sub : Subscription) (server : VpnServer) : PeerName :=
  ⟨user.telegramUserId, sub.idHex8, server.slug⟩

/-- The server's id, if the row exists. -/
def lookupServer (db : Database) (id : ServerId) : Option ServerId := (db.servers[id]?).map fun _ => id

/-- `if sub and sub.peer_external_id`: the jobs that need the peer's name, and do without
the server's row. -/
def goOn (db : Database) (sub : Subscription) : Decision :=
  sub.peerExternalId.elim .skip fun peer => .go ⟨sub, none, lookupServer db sub.vpnServerId, peer⟩

def readSubscription (db : Database) (job : Job) (now : ℤ) (sub : Subscription) : Decision :=
  match job.jobType with
  | .createPeer => match db.servers[sub.vpnServerId]?, db.users[sub.userId]? with
    | some server, some user =>
      .go ⟨sub, db.orders[sub.orderId]?, some sub.vpnServerId, peerLabel user sub server⟩
    | _, _ => .fail "Server or User missing for subscription"
  | .disablePeer | .removePeer => if renewed sub job now then .skip else goOn db sub
  | .enablePeer => goOn db sub
  | .redeliverConfig => match db.servers[sub.vpnServerId]?, db.users[sub.userId]? with
    | some _, some _ => goOn db sub
    | _, _ => .skip

/-- `_process_job` up to its call. -/
def read (db : Database) (job : Job) (now : ℤ) : Decision :=
  match db.subscriptions[job.aggregateId]? with
  | some sub => readSubscription db job now sub
  | none => if job.jobType = .createPeer then .fail s!"Subscription {job.aggregateId} not found" else .skip

/-- Another subscription has this peer name: `peer_external_id` is unique. -/
def peerTaken (subs : Table Subscription) (id : SubscriptionId) (peer : PeerName) : Bool :=
  (List.range subs.length).any fun i => i ≠ id && subs[i]?.any fun sub => sub.peerExternalId = some peer

def writeSubscription (db : Database) (id : SubscriptionId) (loaded set : Subscription)
    (event : EventType) : Database :=
  { db with
    subscriptions := db.subscriptions.update id (loaded.flush set)
    audit := db.audit ++ [⟨.system, event, .subscription id⟩] }

/-- The order row after `order.status = OrderStatus.FULFILLED`. -/
def fulfill (orders : Table Order) (id : OrderId) (loaded : Option Order) : Table Order :=
  loaded.elim orders fun order => orders.update id (order.flush { order with status := .fulfilled })

/-- The subscription row a create job sets. -/
def Work.activated (work : Work) (delivered : Bool) : Subscription :=
  { work.sub.markActive work.peer with
    configDeliveryStatus := if delivered then .delivered else .failed }

/-- What `_process_job` writes after its call succeeded; `none` when it raises.
`delivered` is whether Telegram took the config. -/
def write (db : Database) (jobType : JobType) (id : SubscriptionId) (work : Work) (delivered : Bool)
    (now : ℤ) : Option Database :=
  match jobType with
  | .createPeer =>
    if peerTaken db.subscriptions id work.peer then none
    else
      let db := writeSubscription db id work.sub (work.activated delivered) .subscriptionActivated
      some { db with orders := fulfill db.orders work.sub.orderId work.order }
  | .disablePeer => some (writeSubscription db id work.sub (work.sub.markDisabled now) .subscriptionDisabled)
  | .removePeer => some (writeSubscription db id work.sub (work.sub.markRemoved now) .subscriptionRemoved)
  | .enablePeer => some { db with audit := db.audit ++ [⟨.system, .subscriptionEnabled, .subscription id⟩] }
  | .redeliverConfig =>
    if delivered then
      some { db with subscriptions := db.subscriptions.update id (work.sub.flush { work.sub with
        configDeliveryStatus := .delivered, configRedeliveryCount := work.sub.configRedeliveryCount + 1 }) }
    else none

/-- The subscription row a job sets. -/
def Work.row (work : Work) (jobType : JobType) (delivered : Bool) (now : ℤ) : Subscription :=
  match jobType with
  | .createPeer => work.activated delivered
  | .disablePeer => work.sub.markDisabled now
  | .removePeer => work.sub.markRemoved now
  | .enablePeer => work.sub
  | .redeliverConfig => { work.sub with
      configDeliveryStatus := .delivered, configRedeliveryCount := work.sub.configRedeliveryCount + 1 }

/-- What the session holds when a job has set its rows: the objects it set. -/
def Work.hold (work : Work) (session : IdentityMap) (jobType : JobType) (id : SubscriptionId)
    (delivered : Bool) (now : ℤ) :
    IdentityMap where
  subscriptions := Function.update session.subscriptions id (some (work.row jobType delivered now))
  orders := match jobType, work.order with
    | .createPeer, some order =>
      Function.update session.orders work.sub.orderId (some { order with status := .fulfilled })
    | _, _ => session.orders

theorem Work.hold_subscription (work : Work) (session : IdentityMap) (jobType : JobType) (id i : SubscriptionId)
    (delivered : Bool) (now : ℤ) : (work.hold session jobType id delivered now).subscriptions i =
      if i = id then some (work.row jobType delivered now) else session.subscriptions i := Function.update_apply ..

/-- Of the orders a job sets its own alone. -/
theorem Work.hold_order {work : Work} {session : IdentityMap} {jobType : JobType} {id : SubscriptionId}
    {delivered : Bool}
    {now : ℤ} {i : OrderId} {order : Order} (h : (work.hold session jobType id delivered now).orders i = some order) :
    session.orders i = some order ∨ jobType = .createPeer ∧ i = work.sub.orderId := by
  cases jobType with
  | createPeer =>
    cases hown : work.order with
    | none => exact .inl (by simpa [hold, hown] using h)
    | some row =>
      by_cases hi : i = work.sub.orderId
      · exact .inr ⟨rfl, hi⟩
      · exact .inl (by simpa [hold, hown, hi] using h)
  | _ => exact .inl h

/-! ### What a job reads and writes -/

/-- What a job that goes on has found of its subscription. -/
structure Found (db : Database) (job : Job) (now : ℤ) (sub : Subscription) (work : Work) : Prop where
  row : work.sub = sub
  server : work.server = lookupServer db sub.vpnServerId
  peer : job.jobType ≠ .createPeer → sub.peerExternalId = some work.peer
  order : job.jobType = .createPeer → work.order = db.orders[sub.orderId]?
  notRenewed : job.jobType = .disablePeer ∨ job.jobType = .removePeer → renewed sub job now = false

theorem goOn_go {db : Database} {sub : Subscription} {work : Work} (h : goOn db sub = .go work) :
    sub.peerExternalId = some work.peer ∧ work.sub = sub ∧ work.server = lookupServer db sub.vpnServerId := by
  unfold goOn at h
  cases hp : sub.peerExternalId with
  | none => simp [hp] at h
  | some peer =>
    simp only [hp, Option.elim_some, Decision.go.injEq] at h
    subst h
    exact ⟨rfl, rfl, rfl⟩

theorem readSubscription_go {db : Database} {job : Job} {now : ℤ} {sub : Subscription} {work : Work}
    (h : readSubscription db job now sub = .go work) : Found db job now sub work := by
  unfold readSubscription at h
  cases ht : job.jobType with
  | createPeer =>
    simp only [ht] at h
    split at h
    next server user hserver huser =>
      cases h
      exact ⟨rfl, by simp [lookupServer, hserver], by simp [ht], fun _ => rfl, by simp [ht]⟩
    · cases h
  | disablePeer | removePeer =>
    simp only [ht] at h
    split_ifs at h with hr
    obtain ⟨hpeer, hsub, hserver⟩ := goOn_go h
    exact ⟨hsub, hserver, fun _ => hpeer, by simp [ht], fun _ => by simpa using hr⟩
  | enablePeer =>
    simp only [ht] at h
    obtain ⟨hpeer, hsub, hserver⟩ := goOn_go h
    exact ⟨hsub, hserver, fun _ => hpeer, by simp [ht], by simp [ht]⟩
  | redeliverConfig =>
    simp only [ht] at h
    split at h
    · obtain ⟨hpeer, hsub, hserver⟩ := goOn_go h
      exact ⟨hsub, hserver, fun _ => hpeer, by simp [ht], by simp [ht]⟩
    · cases h

theorem read_go {db : Database} {job : Job} {now : ℤ} {work : Work} (h : read db job now = .go work) :
    ∃ sub, db.subscriptions[job.aggregateId]? = some sub ∧ Found db job now sub work := by
  unfold read at h
  split at h
  next sub hsub => exact ⟨sub, hsub, readSubscription_go h⟩
  · split_ifs at h

/-- No create job is skipped, and an enable job only when there is no peer. -/
theorem read_skip {db : Database} {job : Job} {now : ℤ} (h : read db job now = .skip) :
    job.jobType ≠ .createPeer ∧ (job.jobType = .enablePeer →
      ∀ sub, db.subscriptions[job.aggregateId]? = some sub → sub.peerExternalId = none) := by
  unfold read at h
  split at h
  next sub hsub =>
    unfold readSubscription at h
    cases ht : job.jobType with
    | createPeer =>
      simp only [ht] at h
      split at h <;> cases h
    | enablePeer =>
      simp only [ht, goOn] at h
      refine ⟨by simp, fun _ sub' hsub' => ?_⟩
      rw [hsub] at hsub'
      cases hsub'
      cases hp : sub.peerExternalId with
      | none => rfl
      | some peer => simp [hp] at h
    | _ => exact ⟨by simp, by simp⟩
  next hsub =>
    split_ifs at h with ht
    exact ⟨ht, fun _ sub hsub' => by simp [hsub] at hsub'⟩

theorem read_fail {db : Database} {job : Job} {now : ℤ} {error : String} (h : read db job now = .fail error) :
    job.jobType = .createPeer := by
  have hgo : ∀ sub, goOn db sub ≠ .fail error := by
    intro sub hfail
    unfold goOn at hfail
    cases hp : sub.peerExternalId <;> simp [hp] at hfail
  unfold read at h
  split at h
  next sub hsub =>
    unfold readSubscription at h
    cases ht : job.jobType with
    | createPeer => rfl
    | disablePeer | removePeer =>
      simp only [ht] at h
      split_ifs at h
      exact absurd h (hgo sub)
    | enablePeer =>
      simp only [ht] at h
      exact absurd h (hgo sub)
    | redeliverConfig =>
      simp only [ht] at h
      split at h
      · exact absurd h (hgo sub)
      · cases h
  · split_ifs at h with ht
    exact ht

theorem write_of_off {jobType : JobType} (db : Database) (id : SubscriptionId) (work : Work)
    (delivered : Bool) (now : ℤ)
    (h : jobType = .disablePeer ∨ jobType = .removePeer) :
    ∃ db', write db jobType id work delivered now = some db' := by
  rcases h with rfl | rfl
  · exact ⟨_, rfl⟩
  · exact ⟨_, rfl⟩

theorem write_createPeer_orders {db db' : Database} {id : SubscriptionId} {work : Work} {delivered : Bool} {now : ℤ}
    (h : write db .createPeer id work delivered now = some db') :
    db'.orders = fulfill db.orders work.sub.orderId work.order := by
  simp only [write, Option.ite_none_left_eq_some, Option.some.injEq] at h
  obtain ⟨-, rfl⟩ := h
  rfl

/-- A write changes one subscription, column by column, and no job. -/
theorem write_eq_some {db db' : Database} {jobType : JobType} {id : SubscriptionId} {work : Work}
    {delivered : Bool} {now : ℤ} (h : write db jobType id work delivered now = some db') :
    db'.servers = db.servers ∧ db'.jobs = db.jobs ∧
      db'.subscriptions = db.subscriptions.update id (work.sub.flush (work.row jobType delivered now)) := by
  cases jobType with
  | createPeer =>
    simp only [write, Option.ite_none_left_eq_some, Option.some.injEq] at h
    obtain ⟨-, rfl⟩ := h
    exact ⟨rfl, rfl, rfl⟩
  | disablePeer => cases h; exact ⟨rfl, rfl, rfl⟩
  | removePeer => cases h; exact ⟨rfl, rfl, rfl⟩
  | enablePeer =>
    cases h
    exact ⟨rfl, rfl, by simp [Work.row]⟩
  | redeliverConfig =>
    simp only [write, Option.ite_none_right_eq_some, Option.some.injEq] at h
    obtain ⟨-, rfl⟩ := h
    exact ⟨rfl, rfl, rfl⟩

theorem peerTaken_false {subs : Table Subscription} {id : SubscriptionId} {peer : PeerName}
    (h : peerTaken subs id peer = false) {j : SubscriptionId} {sub : Subscription} (hj : subs[j]? = some sub)
    (hne : j ≠ id) : sub.peerExternalId ≠ some peer := by
  intro hpeer
  rw [peerTaken, List.any_eq_false] at h
  refine h j (List.mem_range.mpr (List.getElem?_eq_some_iff.mp hj).1) ?_
  simp [hne, hj, hpeer]

theorem write_createPeer_free {db db' : Database} {id : SubscriptionId} {work : Work} {delivered : Bool} {now : ℤ}
    (h : write db .createPeer id work delivered now = some db') :
    peerTaken db.subscriptions id work.peer = false := by
  simp only [write, Option.ite_none_left_eq_some] at h
  simpa using h.1

end AmneziaVpnBot.Worker
