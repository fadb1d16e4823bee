import AmneziaVpnBot.Db.Transactions
import AmneziaVpnBot.Lib.Uuid
import AmneziaVpnBot.Support.Tickets

/-! What the handlers of the bot read and write: the rows of `Db/Models` with the columns that
only the bot looks at, the tickets of the support, and the queries of the repositories
(`src/app/db/repositories`) that decide what a customer is shown or sold. -/

namespace AmneziaVpnBot.Bot

/-- Who sent an update, as Telegram tells. -/
structure Sender where
  id : TelegramId
  username : Option String
  firstName : Option String
  lastName : Option String
  languageCode : Option String

structure UserRow extends User where
  username : Option String
  firstName : Option String
  lastName : Option String
  languageCode : String
  isBlocked : Bool
  deriving DecidableEq

structure ServerRow extends VpnServer where
  enabled : Bool
  paused : Bool
  maxActiveSubscriptions : Option ℤ
  deriving DecidableEq

structure ProductRow extends Product where
  code : String
  enabled : Bool
  deriving DecidableEq

/-- The admin actions in the audit log that are not about an order, a subscription or a job. -/
inductive AdminAction
  | serverPaused (server : ServerId) | serverResumed (server : ServerId)
  | userBlocked (user : UserId) | userUnblocked (user : UserId)
  deriving DecidableEq

structure Database where
  users : Table UserRow
  servers : Table ServerRow
  products : Table ProductRow
  orders : Table Order
  subscriptions : Table Subscription
  jobs : Table Job
  audit : List AuditEvent
  notifications : List ExpiredKey
  support : Support.Database
  actions : List (TelegramId × AdminAction)

namespace Database

/-- The part of the tables that the worker and the scheduler share. -/
def core (db : Database) : AmneziaVpnBot.Database where
  users := db.users.map UserRow.toUser
  servers := db.servers.map ServerRow.toVpnServer
  products := db.products.map ProductRow.toProduct
  orders := db.orders
  subscriptions := db.subscriptions
  jobs := db.jobs
  audit := db.audit
  notifications := db.notifications

/-- The tables after a transaction on the shared part, which leaves users, servers and plans alone. -/
def withCore (db : Database) (c : AmneziaVpnBot.Database) : Database :=
  { db with
    orders := c.orders, subscriptions := c.subscriptions, jobs := c.jobs, audit := c.audit
    notifications := c.notifications }

end Database

/-- The row a query selects, with its id. At most one row can match: the queries are for unique columns. -/
def rowWhere {α : Type*} (t : Table α) (p : α → Bool) : Option (ℕ × α) :=
  (t.findIdx? p).bind fun i => t[i]?.map fun row => (i, row)

theorem rowWhere_eq_some {α : Type*} {t : Table α} {p : α → Bool} {i : ℕ} {row : α} (h : rowWhere t p = some (i, row)) :
    t[i]? = some row ∧ p row = true := by
  obtain ⟨j, hj, hrow⟩ := Option.bind_eq_some_iff.mp h
  obtain ⟨row', hrow', heq⟩ := Option.map_eq_some_iff.mp hrow
  cases heq
  obtain ⟨hlt, hp, -⟩ := List.findIdx?_eq_some_iff_getElem.mp hj
  rw [List.getElem?_eq_getElem hlt] at hrow'
  cases hrow'
  exact ⟨List.getElem?_eq_getElem hlt, hp⟩

theorem rowWhere_eq_none {α : Type*} {t : Table α} {p : α → Bool} (h : rowWhere t p = none) :
    ∀ row ∈ t, p row = false := by
  rw [rowWhere, Option.bind_eq_none_iff] at h
  apply List.findIdx?_eq_none_iff.mp
  by_contra hsome
  obtain ⟨i, hi⟩ := Option.ne_none_iff_exists'.mp hsome
  obtain ⟨hlt, -⟩ := List.findIdx?_eq_some_iff_getElem.mp hi
  simpa [hlt] using h i hi

/-! ### Users -/

/-- The language of a new row: Farsi when the code that Telegram sends begins with `fa`. -/
def firstLanguage (languageCode : Option String) : String :=
  if (languageCode.getD "").toLower.toList.take 2 = ['f', 'a'] then "fa" else "en"

def getByTelegramId (users : Table UserRow) (id : TelegramId) : Option (UserId × UserRow) :=
  rowWhere users fun row => row.telegramUserId = id

/-- The row `upsert_user` inserts. -/
def Sender.newRow (sender : Sender) : UserRow where
  telegramUserId := sender.id
  username := sender.username
  firstName := sender.firstName
  lastName := sender.lastName
  languageCode := firstLanguage sender.languageCode
  isBlocked := false

/-- What `upsert_user` sets on a row there is: the names that are sent. -/
def UserRow.rename (sender : Sender) (row : UserRow) : UserRow :=
  { row with
    username := sender.username <|> row.username
    firstName := sender.firstName <|> row.firstName
    lastName := sender.lastName <|> row.lastName }

/-- `upsert_user`, with the row's id. -/
def upsertUser (users : Table UserRow) (sender : Sender) : Table UserRow × UserId :=
  match getByTelegramId users sender.id with
  | some (i, _) => (users.update i (UserRow.rename sender), i)
  | none => (users.insert sender.newRow, users.fresh)

/-! ### Servers and plans -/

/-- `server.on_sale` -/
def ServerRow.onSale (row : ServerRow) : Bool := row.enabled && !row.paused

def getBySlug (servers : Table ServerRow) (slug : Text) : Option (ServerId × ServerRow) :=
  rowWhere servers fun row => row.slug.toList = slug

def getByCode (products : Table ProductRow) (code : Text) : Option (ProductId × ProductRow) :=
  rowWhere products fun row => row.code.toList = code

/-- Subscriptions that hold a slot: active ones, and ones whose peer is being made. -/
def countActiveSubscriptions (subs : Table Subscription) (server : ServerId) : ℕ :=
  subs.countP fun sub => sub.vpnServerId = server && (sub.status = .active || sub.status = .provisioning)

/-- No limit, or a limit of 0, means always room. -/
def hasRoom (subs : Table Subscription) (server : ServerId) (row : ServerRow) : Bool :=
  match row.maxActiveSubscriptions with
  | none => true
  | some limit => limit = 0 || (countActiveSubscriptions subs server : ℤ) < limit

/-- A server that is offered: on sale, and not full. -/
def Database.offers (db : Database) (server : ServerId) : Bool :=
  (db.servers[server]?).any fun row => row.onSale && hasRoom db.subscriptions server row

/-! ### Ids -/

/-- The UUIDs of a table's rows, as they are drawn when the rows are made. -/
abbrev Naming := ℕ → Uuid

/-- `get_by_id` -/
def getById {α : Type*} (names : Naming) (t : Table α) (id : Uuid) : Option (ℕ × α) :=
  ((List.range t.length).find? fun i => names i = id).bind fun i => t[i]?.map fun row => (i, row)

theorem getById_eq_some {α : Type*} {names : Naming} {t : Table α} {id : Uuid} {i : ℕ} {row : α}
    (h : getById names t id = some (i, row)) : t[i]? = some row ∧ names i = id := by
  obtain ⟨j, hj, hrow⟩ := Option.bind_eq_some_iff.mp h
  obtain ⟨row', hrow', heq⟩ := Option.map_eq_some_iff.mp hrow
  cases heq
  exact ⟨hrow', by simpa using List.find?_some hj⟩

end AmneziaVpnBot.Bot
