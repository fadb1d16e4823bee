import AmneziaVpnBot.Db.Jobs
import AmneziaVpnBot.Db.Subscriptions

/-! Orders and their review (`src/app/db/repositories/order_repo.py`, with the callbacks
of `src/app/bot/handlers/admin.py` that call it). The commit of a review is split from
the reads before it: it writes, column by column, against the rows the session loaded. -/

namespace AmneziaVpnBot

/-- The row `create_order` inserts. -/
def newOrder (user : UserId) (server : ServerId) (product : ProductId)
    (renews : Option SubscriptionId) : Order where
  userId := user
  vpnServerId := server
  productId := product
  renewsSubscriptionId := renews
  status := .awaitingReceipt
  receipt := none
  submittedAt := none
  reviewedBy := none
  reviewedAt := none
  rejectionReason := none

def createOrder (db : Database) (user : UserId) (server : ServerId) (product : ProductId)
    (renews : Option SubscriptionId) : Database :=
  { db with orders := db.orders.insert (newOrder user server product renews) }

/-- `submit_receipt` sets the row whatever its status is. -/
def Order.submitReceipt (receipt : Receipt) (now : ℤ) (order : Order) : Order :=
  { order with receipt := some receipt, submittedAt := some now, status := .receiptSubmitted }

/-- The statuses in which the approve callback goes on. -/
def Order.awaitsReview (order : Order) : Bool :=
  order.status = .receiptSubmitted || order.status = .awaitingReceipt

/-- `order.status in (APPROVED, PROVISIONING, FULFILLED)` -/
def Order.processed (order : Order) : Bool :=
  order.status = .approved || order.status = .provisioning || order.status = .fulfilled

/-- `select(Subscription).where(Subscription.order_id == order.id)` -/
def subscriptionOfOrder (subs : Table Subscription) (id : OrderId) : Option SubscriptionId :=
  (subs.select fun sub => sub.orderId = id).head?

/-- The subscription this order extends, if it still has a peer on the server. -/
def renewableSubscription (subs : Table Subscription) (order : Order) :
    Option (SubscriptionId × Subscription) :=
  order.renewsSubscriptionId.bind fun id => subs[id]?.bind fun sub =>
    if sub.userId = order.userId && sub.vpnServerId = order.vpnServerId && sub.hasPeer then some (id, sub)
    else none

/-- What an approval has read when it starts to write. -/
structure Approval where
  order : Order
  renewed : Option (SubscriptionId × Subscription)
  durationDays : ℤ
  admin : TelegramId
  now : ℤ

/-- The order row an approval sets. -/
def Approval.reviewed (a : Approval) (status : OrderStatus) : Order :=
  { a.order with status := status, reviewedBy := some a.admin, reviewedAt := some a.now }

/-- The subscription a new order gets. -/
def Approval.subscription (a : Approval) (id : OrderId) (idHex8 : ℕ) : Subscription where
  userId := a.order.userId
  orderId := id
  vpnServerId := a.order.vpnServerId
  productId := a.order.productId
  idHex8 := idHex8
  status := .provisioning
  peerExternalId := none
  peerLabel := none
  configDeliveryStatus := .pending
  configRedeliveryCount := 0
  startsAt := a.now
  expiresAt := a.now + days a.durationDays
  disabledAt := none
  removedAt := none

/-- The commit of `_approve_renewal`. -/
def commitRenewal (db : Database) (id : OrderId) (a : Approval) (subId : SubscriptionId)
    (sub : Subscription) : Database :=
  { db with
    orders := db.orders.update id (a.order.flush (a.reviewed .fulfilled))
    subscriptions := db.subscriptions.update subId (sub.flush (sub.renew a.now a.durationDays))
    jobs := if sub.status = .active then db.jobs else db.jobs.insert (newJob .enablePeer subId none a.now)
    audit := db.audit ++ [⟨.admin a.admin, .orderApproved, .order id⟩] }

/-- The commit of an approval that makes a new subscription. -/
def commitNew (db : Database) (id : OrderId) (a : Approval) (idHex8 : ℕ) : Database :=
  { db with
    orders := db.orders.update id (a.order.flush (a.reviewed .provisioning))
    subscriptions := db.subscriptions.insert (a.subscription id idHex8)
    jobs := db.jobs.insert (newJob .createPeer db.subscriptions.fresh none a.now)
    audit := db.audit ++ [⟨.admin a.admin, .orderApproved, .order id⟩] }

/-- The commit of an approval, `none` when the unique key on `subscriptions.order_id`
refuses the insert. -/
def commitApproval (db : Database) (id : OrderId) (a : Approval) (idHex8 : ℕ) : Option Database :=
  match a.renewed with
  | some (subId, sub) => some (commitRenewal db id a subId sub)
  | none => if (subscriptionOfOrder db.subscriptions id).isSome then none else some (commitNew db id a idHex8)

/-- The commit of a rejection by a session that loaded `order`. -/
def commitRejection (db : Database) (id : OrderId) (order : Order) (admin : TelegramId)
    (reason : Option String) (now : ℤ) : Database :=
  { db with
    orders := db.orders.update id (order.flush { order with
      status := .rejected, reviewedBy := some admin, reviewedAt := some now, rejectionReason := reason })
    audit := db.audit ++ [⟨.admin admin, .orderRejected, .order id⟩] }

/-- `approve_order_atomic`, run with nothing else in between. -/
def approveOrderAtomic (db : Database) (id : OrderId) (admin : TelegramId) (idHex8 : ℕ) (now : ℤ) :
    Bool × Database :=
  match db.orders[id]? with
  | none => (false, db)
  | some order =>
    if (subscriptionOfOrder db.subscriptions id).isSome || order.processed then (false, db)
    else match db.products[order.productId]?, db.servers[order.vpnServerId]? with
      | some product, some _ =>
        let renewed := renewableSubscription db.subscriptions order
        match commitApproval db id ⟨order, renewed, product.durationDays, admin, now⟩ idHex8 with
        | some db' => (true, db')
        | none => (false, db)
      | _, _ => (false, db)

/-- `callback_admin_approve_order` -/
def callbackAdminApproveOrder (db : Database) (id : OrderId) (admin : TelegramId) (idHex8 : ℕ) (now : ℤ) :
    Bool × Database :=
  match db.orders[id]? with
  | none => (false, db)
  | some order => if order.awaitsReview then approveOrderAtomic db id admin idHex8 now else (false, db)

/-- `reject_order`, run with nothing else in between. -/
def rejectOrder (db : Database) (id : OrderId) (admin : TelegramId) (reason : Option String) (now : ℤ) :
    Bool × Database :=
  match db.orders[id]? with
  | none => (false, db)
  | some order =>
    if order.processed then (false, db) else (true, commitRejection db id order admin reason now)

/-- The reason `callback_admin_reject_order` gives. -/
def rejectionReason : String := "Receipt verification failed. Please contact support."

def callbackAdminRejectOrder (db : Database) (id : OrderId) (admin : TelegramId) (now : ℤ) : Bool × Database :=
  rejectOrder db id admin (some rejectionReason) now

/-! ### What a review does -/

theorem subscriptionOfOrder_isSome {subs : Table Subscription} {id : OrderId} :
    (subscriptionOfOrder subs id).isSome = true ↔
      ∃ (i : SubscriptionId) (sub : Subscription), subs[i]? = some sub ∧ sub.orderId = id := by
  simp [subscriptionOfOrder, List.isSome_head?, List.eq_nil_iff_forall_not_mem, Table.mem_select]

theorem renewableSubscription_eq_some {subs : Table Subscription} {order : Order} {id : SubscriptionId}
    {sub : Subscription} :
    renewableSubscription subs order = some (id, sub) ↔
      order.renewsSubscriptionId = some id ∧ subs[id]? = some sub ∧ sub.userId = order.userId ∧
        sub.vpnServerId = order.vpnServerId ∧ sub.hasPeer := by
  simp only [renewableSubscription, Option.bind_eq_some_iff, Option.ite_none_right_eq_some,
    Bool.and_eq_true, decide_eq_true_eq, Option.some.injEq, Prod.mk.injEq]
  constructor
  · rintro ⟨i, hi, r, hr, ⟨⟨hu, hs⟩, hp⟩, rfl, rfl⟩
    exact ⟨hi, hr, hu, hs, hp⟩
  · rintro ⟨hi, hr, hu, hs, hp⟩
    exact ⟨id, hi, sub, hr, ⟨⟨hu, hs⟩, hp⟩, rfl, rfl⟩

/-- An approval finds an order that awaits review and renews a subscription that has a
peer or makes a new one, or it changes nothing. -/
theorem callbackAdminApproveOrder_cases (db : Database) (id : OrderId) (admin : TelegramId) (idHex8 : ℕ)
    (now : ℤ) :
    (∃ order product, db.orders[id]? = some order ∧ order.awaitsReview ∧
      db.products[order.productId]? = some product ∧ (∃ server, db.servers[order.vpnServerId]? = some server) ∧
      (subscriptionOfOrder db.subscriptions id).isSome = false ∧
      ((∃ subId sub, renewableSubscription db.subscriptions order = some (subId, sub) ∧
        callbackAdminApproveOrder db id admin idHex8 now =
          (true, commitRenewal db id ⟨order, some (subId, sub), product.durationDays, admin, now⟩ subId sub)) ∨
      (renewableSubscription db.subscriptions order = none ∧
        callbackAdminApproveOrder db id admin idHex8 now =
          (true, commitNew db id ⟨order, none, product.durationDays, admin, now⟩ idHex8)))) ∨
    callbackAdminApproveOrder db id admin idHex8 now = (false, db) := by
  unfold callbackAdminApproveOrder approveOrderAtomic
  cases ho : db.orders[id]? with
  | none => exact .inr rfl
  | some order =>
    by_cases hr : order.awaitsReview
    · by_cases hs : (subscriptionOfOrder db.subscriptions id).isSome || order.processed
      · simp [hr, hs]
      · simp only [hr, hs, ↓reduceIte, Bool.false_eq_true]
        cases hp : db.products[order.productId]? with
        | none => simp
        | some product =>
          cases hv : db.servers[order.vpnServerId]? with
          | none => simp
          | some server =>
            have hs' : (subscriptionOfOrder db.subscriptions id).isSome = false := by simp_all
            refine .inl ⟨order, product, rfl, hr, hp, ⟨server, hv⟩, hs', ?_⟩
            cases hn : renewableSubscription db.subscriptions order with
            | none => exact .inr ⟨rfl, by simp [commitApproval, hs']⟩
            | some p => exact .inl ⟨p.1, p.2, rfl, by simp [commitApproval]⟩
    · simp [hr]

/-- A rejection finds an order that is not processed, or it changes nothing. -/
theorem rejectOrder_cases (db : Database) (id : OrderId) (admin : TelegramId) (reason : Option String)
    (now : ℤ) :
    (∃ order, db.orders[id]? = some order ∧ order.processed = false ∧
      rejectOrder db id admin reason now = (true, commitRejection db id order admin reason now)) ∨
    rejectOrder db id admin reason now = (false, db) := by
  unfold rejectOrder
  cases ho : db.orders[id]? with
  | none => exact .inr rfl
  | some order =>
    cases hp : order.processed with
    | true => exact .inr (by simp [hp])
    | false => exact .inl ⟨order, rfl, hp, by simp [hp]⟩

end AmneziaVpnBot
