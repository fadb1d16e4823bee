import AmneziaVpnBot.Lib.Table

/-! The rows the bot, the worker and the scheduler share through the database
(`src/app/db/models`). Times are microseconds, the resolution of `datetime`, on one
UTC clock. A row's id is its position in its table; the first eight hex digits of a
subscription's UUID, the only part of an id the program ever looks into, are a column. -/

namespace AmneziaVpnBot

def seconds (n : ℤ) : ℤ := n * 1000000
def minutes (n : ℤ) : ℤ := seconds (60 * n)
def days (n : ℤ) : ℤ := seconds (86400 * n)

abbrev UserId := ℕ
abbrev ServerId := ℕ
abbrev ProductId := ℕ
abbrev OrderId := ℕ
abbrev SubscriptionId := ℕ
abbrev JobId := ℕ
abbrev WorkerId := ℕ
/-- A Telegram user id. -/
abbrev TelegramId := ℤ
abbrev ChatId := ℤ

structure User where
  telegramUserId : TelegramId
  deriving DecidableEq, Repr

structure VpnServer where
  slug : String
  deriving DecidableEq, Repr

structure Product where
  durationDays : ℤ
  deriving DecidableEq, Repr

inductive OrderStatus
  | draft | awaitingReceipt | receiptSubmitted | approved | rejected
  | provisioning | fulfilled | failed | cancelled
  deriving DecidableEq, Repr

/-- The `receipt_*` columns of an order. -/
structure Receipt where
  fileId : String
  messageId : ℤ
  chatId : ChatId
  mediaType : String
  note : Option String
  deriving DecidableEq, Repr

structure Order where
  userId : UserId
  vpnServerId : ServerId
  productId : ProductId
  /-- Set when the order extends a subscription instead of creating one. -/
  renewsSubscriptionId : Option SubscriptionId
  status : OrderStatus
  receipt : Option Receipt
  submittedAt : Option ℤ
  reviewedBy : Option TelegramId
  reviewedAt : Option ℤ
  rejectionReason : Option String
  deriving DecidableEq, Repr

inductive SubscriptionStatus
  | provisioning | active | expired | disabled | failed | revoked
  deriving DecidableEq, Repr

/-- A peer's name on its server, the text `user_<telegram id>_<eight hex digits>_<slug>`,
kept as the three parts that determine it. -/
structure PeerName where
  telegramUserId : TelegramId
  idHex8 : ℕ
  slug : String
  deriving DecidableEq, Repr

inductive DeliveryStatus
  | pending | delivered | failed
  deriving DecidableEq, Repr

structure Subscription where
  userId : UserId
  orderId : OrderId
  vpnServerId : ServerId
  productId : ProductId
  /-- The first eight hex digits of the row's UUID. -/
  idHex8 : ℕ
  status : SubscriptionStatus
  peerExternalId : Option PeerName
  peerLabel : Option PeerName
  configDeliveryStatus : DeliveryStatus
  configRedeliveryCount : ℕ
  startsAt : ℤ
  expiresAt : ℤ
  disabledAt : Option ℤ
  removedAt : Option ℤ
  deriving DecidableEq, Repr

inductive JobType
  | createPeer | disablePeer | removePeer | enablePeer | redeliverConfig
  deriving DecidableEq, Repr

inductive JobStatus
  | pending | processing | succeeded | retryableFailure | permanentFailure
  deriving DecidableEq, Repr

/-- The values the program puts under `"reason"` in a job's payload. -/
inductive Reason
  | subscriptionExpired | gracePeriodExpired | adminExtend
  deriving DecidableEq, Repr

structure Job where
  jobType : JobType
  aggregateId : SubscriptionId
  status : JobStatus
  attemptCount : ℕ
  availableAt : ℤ
  lockedAt : Option ℤ
  lockedBy : Option WorkerId
  /-- `payload.get("reason")` -/
  reason : Option Reason
  lastError : Option String
  deriving DecidableEq, Repr

inductive ActorType
  | customer | admin (id : TelegramId) | system
  deriving DecidableEq, Repr

/-- The entity an audit event is about. -/
inductive Entity
  | order (id : OrderId) | subscription (id : SubscriptionId) | provisioningJob (id : JobId)
  deriving DecidableEq, Repr

inductive EventType
  | orderApproved | orderRejected | subscriptionExtended | jobRequeued
  | subscriptionActivated | subscriptionDisabled | subscriptionRemoved | subscriptionEnabled
  deriving DecidableEq, Repr

structure AuditEvent where
  actor : ActorType
  eventType : EventType
  entity : Entity
  deriving DecidableEq, Repr

/-- The idempotency key of an expiry notice: the subscription and the UTC date of
`expires_at`, as days since the epoch. -/
structure ExpiredKey where
  subscription : SubscriptionId
  date : ℤ
  deriving DecidableEq, Repr

structure Database where
  users : Table User
  servers : Table VpnServer
  products : Table Product
  orders : Table Order
  subscriptions : Table Subscription
  jobs : Table Job
  audit : List AuditEvent
  notifications : List ExpiredKey

/-- Column by column, what a session that loaded `loaded` and set the row to `set`
makes of the stored row. -/
def Order.flush (loaded set stored : Order) : Order where
  userId := Table.flushColumn loaded.userId set.userId stored.userId
  vpnServerId := Table.flushColumn loaded.vpnServerId set.vpnServerId stored.vpnServerId
  productId := Table.flushColumn loaded.productId set.productId stored.productId
  renewsSubscriptionId :=
    Table.flushColumn loaded.renewsSubscriptionId set.renewsSubscriptionId stored.renewsSubscriptionId
  status := Table.flushColumn loaded.status set.status stored.status
  receipt := Table.flushColumn loaded.receipt set.receipt stored.receipt
  submittedAt := Table.flushColumn loaded.submittedAt set.submittedAt stored.submittedAt
  reviewedBy := Table.flushColumn loaded.reviewedBy set.reviewedBy stored.reviewedBy
  reviewedAt := Table.flushColumn loaded.reviewedAt set.reviewedAt stored.reviewedAt
  rejectionReason := Table.flushColumn loaded.rejectionReason set.rejectionReason stored.rejectionReason

/-- As `Order.flush`, for a subscription. -/
def Subscription.flush (loaded set stored : Subscription) : Subscription where
  userId := Table.flushColumn loaded.userId set.userId stored.userId
  orderId := Table.flushColumn loaded.orderId set.orderId stored.orderId
  vpnServerId := Table.flushColumn loaded.vpnServerId set.vpnServerId stored.vpnServerId
  productId := Table.flushColumn loaded.productId set.productId stored.productId
  idHex8 := Table.flushColumn loaded.idHex8 set.idHex8 stored.idHex8
  status := Table.flushColumn loaded.status set.status stored.status
  peerExternalId := Table.flushColumn loaded.peerExternalId set.peerExternalId stored.peerExternalId
  peerLabel := Table.flushColumn loaded.peerLabel set.peerLabel stored.peerLabel
  configDeliveryStatus :=
    Table.flushColumn loaded.configDeliveryStatus set.configDeliveryStatus stored.configDeliveryStatus
  configRedeliveryCount :=
    Table.flushColumn loaded.configRedeliveryCount set.configRedeliveryCount stored.configRedeliveryCount
  startsAt := Table.flushColumn loaded.startsAt set.startsAt stored.startsAt
  expiresAt := Table.flushColumn loaded.expiresAt set.expiresAt stored.expiresAt
  disabledAt := Table.flushColumn loaded.disabledAt set.disabledAt stored.disabledAt
  removedAt := Table.flushColumn loaded.removedAt set.removedAt stored.removedAt

/-- As `Order.flush`, for a job. -/
def Job.flush (loaded set stored : Job) : Job where
  jobType := Table.flushColumn loaded.jobType set.jobType stored.jobType
  aggregateId := Table.flushColumn loaded.aggregateId set.aggregateId stored.aggregateId
  status := Table.flushColumn loaded.status set.status stored.status
  attemptCount := Table.flushColumn loaded.attemptCount set.attemptCount stored.attemptCount
  availableAt := Table.flushColumn loaded.availableAt set.availableAt stored.availableAt
  lockedAt := Table.flushColumn loaded.lockedAt set.lockedAt stored.lockedAt
  lockedBy := Table.flushColumn loaded.lockedBy set.lockedBy stored.lockedBy
  reason := Table.flushColumn loaded.reason set.reason stored.reason
  lastError := Table.flushColumn loaded.lastError set.lastError stored.lastError

@[simp] theorem Order.flush_current (loaded set : Order) : loaded.flush set loaded = set := by
  simp [Order.flush]

@[simp] theorem Subscription.flush_current (loaded set : Subscription) :
    loaded.flush set loaded = set := by
  simp [Subscription.flush]

/-- A session that sets nothing writes nothing. -/
@[simp] theorem Subscription.flush_unset (loaded : Subscription) : loaded.flush loaded = fun stored => stored := by
  funext stored
  simp [Subscription.flush]

@[simp] theorem Job.flush_current (loaded set : Job) : loaded.flush set loaded = set := by
  simp [Job.flush]

end AmneziaVpnBot
