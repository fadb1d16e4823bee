import AmneziaVpnBot.Db.Models

/-! The rows a session holds. A query that finds a row again which the session holds gives it as the session has it,
whatever others have written since: `expire_on_commit=False` (`src/app/db/session.py`). -/

namespace AmneziaVpnBot

open Table (Held)

/-- The subscriptions and orders that a session has loaded. -/
structure IdentityMap where
  subscriptions : Held Subscription
  orders : Held Order

namespace IdentityMap

/-- Of a new session, and after a rollback, which expires every row. -/
def empty : IdentityMap := ⟨fun _ => none, fun _ => none⟩

/-- The database as the session sees it. -/
def view (m : IdentityMap) (db : Database) : Database :=
  { db with subscriptions := m.subscriptions.view db.subscriptions, orders := m.orders.view db.orders }

/-- `get_by_id` of a subscription. With it come its order and its user, and with the user all their subscriptions and
orders (`lazy="selectin"`). -/
def load (m : IdentityMap) (db : Database) (id : SubscriptionId) : IdentityMap :=
  match db.subscriptions[id]? with
  | some sub =>
    { subscriptions := m.subscriptions.load db.subscriptions fun _ other => other.userId = sub.userId
      orders := m.orders.load db.orders fun i order => i = sub.orderId || order.userId = sub.userId }
  | none => m

/-- Between two jobs only a user's rows refer to each other, and the garbage collector may take them. -/
def forget (m : IdentityMap) (user : UserId) : IdentityMap where
  subscriptions := m.subscriptions.forget fun sub => sub.userId = user
  orders := m.orders.forget fun order => order.userId = user

variable {m : IdentityMap} {db : Database} {R : SubscriptionId → Subscription → Subscription → Prop}

@[simp] theorem view_users (m : IdentityMap) (db : Database) : (m.view db).users = db.users := rfl

@[simp] theorem view_servers (m : IdentityMap) (db : Database) : (m.view db).servers = db.servers := rfl

theorem related_load (h : m.subscriptions.Related R db.subscriptions)
    (hrefl : ∀ i stored, db.subscriptions[i]? = some stored → R i stored stored) (id : SubscriptionId) :
    (m.load db id).subscriptions.Related R db.subscriptions := by
  unfold load
  split
  · exact h.load hrefl _
  · exact h

theorem subscription_of_load {id i : SubscriptionId} {seen : Subscription}
    (h : (m.load db id).subscriptions i = some seen) :
    m.subscriptions i = some seen ∨ db.subscriptions[i]? = some seen := by
  unfold load at h
  split at h
  · dsimp only at h
    exact Held.of_load h
  · exact .inl h

theorem order_of_load {id : SubscriptionId} {i : OrderId} {seen : Order} (h : (m.load db id).orders i = some seen) :
    m.orders i = some seen ∨ db.orders[i]? = some seen := by
  unfold load at h
  split at h
  · dsimp only at h
    exact Held.of_load h
  · exact .inl h

end IdentityMap

end AmneziaVpnBot
