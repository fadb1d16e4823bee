import AmneziaVpnBot.Bot.Keyboards
import AmneziaVpnBot.Bot.Rows

/-! The handlers of customers (`src/app/bot/handlers/customer.py`, `support.py`). What a button carries is whatever
the client sends back, so each handler looks its ids up again. A handler that refuses or raises leaves the tables and
the conversation as they were. -/

namespace AmneziaVpnBot.Bot

open Text
open Support (TicketId Incoming Conversation)

/-- The states of `OrderFlowStates`, `SupportStates` and `AdminTicketStates` that are ever set. -/
inductive ChatState
  | nothing | awaitingReceipt | writingMessage | waitingForReply
  deriving DecidableEq

/-- What the bot remembers of a conversation. -/
structure Chat where
  state : ChatState
  orderId : Option OrderId
  ticketId : Option TicketId
  deriving DecidableEq

/-- `state.clear()` -/
def Chat.cleared : Chat := ⟨.nothing, none, none⟩

structure BotSettings extends Settings where
  adminTelegramIds : List TelegramId
  adminChatId : ℤ
  /-- The text after `@` in a command is this bot's user name. -/
  isMe : Text → Bool
  orderIds : Naming
  subscriptionIds : Naming
  serverIds : Naming
  ticketIds : Naming
  jobIds : Naming

/-- What is drawn or read on the way of an update. -/
structure Draw where
  ticketCode : String
  /-- The code drawn for a new order is not in use. -/
  orderCodeFree : Bool
  /-- `list_permanent_failures`, newest first. -/
  failures : List JobId

/-- What a handler gets besides the update: `user` is the sender's row. -/
structure Context where
  settings : BotSettings
  now : ℤ
  sender : Sender
  user : UserId
  conversation : Conversation
  chat : Chat
  draw : Draw

/-- Why a handler did nothing. -/
inductive Refusal
  /-- The button press is answered with an alert, the name of a text or the text itself. -/
  | alert (text : String)
  | ignored
  | raised
  deriving DecidableEq

abbrev Result := Except Refusal (Database × Chat)

/-- The UUID behind the prefix of a button's data. -/
def uuidAfter (pre : String) (data : Text) : Option Uuid := ((split pre.toList data)[1]?).bind uuidOfHex

/-- A subscription of the sender, or the alert that there is none. -/
def Context.ownSubscription (c : Context) (db : Database) (id : Uuid) :
    Except Refusal (SubscriptionId × Subscription) :=
  match getById c.settings.subscriptionIds db.subscriptions id with
  | some (i, sub) => if sub.userId = c.user then .ok (i, sub) else .error (.alert "subscription_not_found")
  | none => .error (.alert "subscription_not_found")

/-- A handler that only shows something. -/
def Context.shown (c : Context) (db : Database) : Result := .ok (db, c.chat)

/-! ### Menus -/

def cmdStart (db : Database) : Result := .ok (db, .cleared)

def callbackMainMenu (db : Database) : Result := .ok (db, .cleared)

def callbackMenuBuy (c : Context) (db : Database) : Result := c.shown db

def callbackSelectServer (c : Context) (data : Text) (db : Database) : Result :=
  match selectedServer data with
  | none => .error .raised
  | some slug => match getBySlug db.servers slug with
    | none => .error (.alert "server_not_found")
    | some (i, row) =>
      if !row.onSale then .error (.alert "server_not_found")
      else if !hasRoom db.subscriptions i row then .error (.alert "server_full")
      else c.shown db

def cmdMyVpn (c : Context) (db : Database) : Result := c.shown db

def callbackMenuSubs (c : Context) (db : Database) : Result := c.shown db

def callbackViewSubscription (c : Context) (data : Text) (db : Database) : Result :=
  match uuidAfter "sub_view_" data with
  | none => .error .raised
  | some id => c.ownSubscription db id >>= fun _ => c.shown db

def callbackRenewSubscription (c : Context) (data : Text) (db : Database) : Result :=
  match uuidAfter "renew_" data with
  | none => .error .raised
  | some id => c.ownSubscription db id >>= fun (_, sub) =>
    if (db.servers[sub.vpnServerId]?).isNone then .error (.alert "server_unavailable") else c.shown db

def cmdLanguage (c : Context) (db : Database) : Result := c.shown db

def callbackMenuLanguage (c : Context) (db : Database) : Result := c.shown db

/-- The language is what is behind the first underscore. -/
def callbackSetLanguage (c : Context) (data : Text) (db : Database) : Result :=
  let lang := (data.dropWhile (· ≠ '_')).drop 1
  .ok ({ db with users := db.users.update c.user fun row => { row with languageCode := String.ofList lang } }, .cleared)

/-! ### Orders -/

/-- `_start_order`; a code that is in use is refused by the database. -/
def startOrder (c : Context) (db : Database) (server : ServerId) (product : ProductId)
    (renews : Option SubscriptionId) :
    Result :=
  if c.draw.orderCodeFree then
    .ok (db.withCore (createOrder db.core c.user server product renews),
      { c.chat with state := .awaitingReceipt, orderId := some db.orders.fresh })
  else .error .raised

def callbackSelectPlan (c : Context) (data : Text) (db : Database) : Result :=
  match selectedPlan data with
  | none => .error .raised
  | some (slug, code) => match getBySlug db.servers slug, getByCode db.products code with
    | some (server, row), some (product, plan) =>
      if !row.onSale || !plan.enabled then .error (.alert "invalid_selection")
      else if !hasRoom db.subscriptions server row then .error (.alert "server_full")
      else startOrder c db server product none
    | _, _ => .error (.alert "invalid_selection")

/-- Once its peer is gone, a renewal makes a new one, so it is a new sale like any other. -/
def callbackSelectRenewalPlan (c : Context) (data : Text) (db : Database) : Result :=
  match selectedRenewal data with
  | none => .error .raised
  | some (id, code) => c.ownSubscription db id >>= fun (i, sub) =>
    match db.servers[sub.vpnServerId]?, getByCode db.products code with
    | some row, some (product, plan) =>
      if !plan.enabled then .error (.alert "invalid_selection")
      else if sub.hasPeer then startOrder c db sub.vpnServerId product (some i)
      else if !row.onSale then .error (.alert "server_not_found")
      else if !hasRoom db.subscriptions sub.vpnServerId row then .error (.alert "server_full")
      else startOrder c db sub.vpnServerId product (some i)
    | _, _ => .error (.alert "invalid_selection")

def callbackCancelOrder (db : Database) : Result := .ok (db, .cleared)

/-- The receipt a photo or a document makes. -/
def receiptOf (conversation : Conversation) (message : Incoming) : Option Receipt :=
  message.fileId.map fun fileId =>
    ⟨fileId, message.messageId, conversation.1, message.mediaType.getD "document", message.caption⟩

/-- The order is the one the conversation remembers. -/
def handleReceiptUpload (c : Context) (message : Incoming) (db : Database) : Result :=
  match c.chat.orderId.bind fun id => (db.orders[id]?).map fun _ => id with
  | none => .ok (db, .cleared)
  | some id => match receiptOf c.conversation message with
    | none => .error .raised
    | some receipt => .ok ({ db with orders := db.orders.update id (Order.submitReceipt receipt c.now) }, .cleared)

def callbackRedeliverSubscription (c : Context) (data : Text) (db : Database) : Result :=
  match ((split ['_'] data).getLast?).bind uuidOfHex with
  | none => .error .raised
  | some id => c.ownSubscription db id >>= fun (i, sub) =>
    if c.settings.configRedeliveryLimit ≤ sub.configRedeliveryCount then .error (.alert "redelivery_limit")
    else .ok ({ db with jobs := db.jobs.insert (newJob .redeliverConfig i none c.now) }, c.chat)

/-! ### Support -/

def cmdSupport (c : Context) (db : Database) : Result := .ok (db, { c.chat with state := .writingMessage })

def callbackMenuSupport (c : Context) (db : Database) : Result := .ok (db, { c.chat with state := .writingMessage })

def handleSupportMessage (c : Context) (message : Incoming) (db : Database) : Result :=
  let body := message.bodyText "Media attachment"
  match Support.getActiveTicketForUser db.support.tickets c.user with
  | .error _ => .error .raised
  | .ok (some id) =>
    let support := Support.addMessage db.support ⟨id, .customer, c.sender.id, body, some c.conversation.1,
      some message.messageId, message.fileId, message.mediaType⟩
    .ok ({ db with support := support }, .cleared)
  | .ok none =>
    match Support.createTicket db.support c.draw.ticketCode c.user (body.take 40).toString body
      c.sender.id message.fileId
      message.mediaType with
    | some support => .ok ({ db with support := support }, .cleared)
    | none => .error .raised

end AmneziaVpnBot.Bot
