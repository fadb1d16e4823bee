import AmneziaVpnBot.Bot.Admin

/-! The bot as it runs (`src/app/bot/main.py`, `middleware/user_middleware.py`): an update goes to the first handler
whose filter takes it, in the order in which the routers are included, and every handler sits behind the middleware
that looks its sender up. The scheduler and the worker take their steps in between. -/

namespace AmneziaVpnBot.Bot

open Support (Incoming Conversation)
open Lifecycle (PeerState Phase)

inductive Content
  | message (chat : ChatId) (message : Incoming)
  /-- A button press. A button of an inline message is in no chat, and a game has no data. -/
  | press (chat : Option ChatId) (data : Option Text)

structure Update where
  sender : Sender
  content : Content

/-- The key under which the dispatcher keeps a conversation. -/
def Update.conversation (u : Update) : Conversation :=
  match u.content with
  | .message chat _ => (chat, u.sender.id)
  | .press chat _ => (chat.getD u.sender.id, u.sender.id)

/-! ### Routes -/

/-- A filter and the handler behind it. -/
structure Route (α : Type) where
  accepts : BotSettings → Chat → α → Bool
  handler : Context → α → Database → Result

/-- The command in a message's text or caption: `/name`, or `/name@bot` when the bot is this one. -/
def commandOf (settings : BotSettings) (message : Incoming) : Option Text :=
  match words (message.bodyText "").toList with
  | ('/' :: command) :: _ =>
    let mention := (command.dropWhile (· ≠ '@')).drop 1
    if mention = [] || settings.isMe mention then some (command.takeWhile (· ≠ '@')) else none
  | _ => none

def onCommand (name : String) (handler : Context → Incoming → Database → Result) : Route Incoming where
  accepts settings _ message := commandOf settings message = some name.toList
  handler := handler

def inState (state : ChatState) (filter : Incoming → Bool) (handler : Context → Incoming → Database → Result) :
    Route Incoming where
  accepts _ chat message := chat.state = state && filter message
  handler := handler

def onData (filter : Text → Bool) (handler : Context → Text → Database → Result) : Route (Option Text) where
  accepts _ _ data := data.any filter
  handler c data db := handler c (data.getD []) db

def equals (value : String) (data : Text) : Bool := data = value.toList

def startsWith (pre : String) (data : Text) : Bool := pre.toList.isPrefixOf data

def hasMedia (message : Incoming) : Bool := message.photo ≠ [] || message.document.isSome

def customerMessages : List (Route Incoming) :=
  [onCommand "menu" fun _ _ db => cmdStart db,
    onCommand "start" fun _ _ db => cmdStart db,
    inState .awaitingReceipt hasMedia handleReceiptUpload,
    onCommand "my_vpn" fun c _ db => cmdMyVpn c db,
    onCommand "language" fun c _ db => cmdLanguage c db]

def supportMessages : List (Route Incoming) :=
  [onCommand "support" fun c _ db => cmdSupport c db,
    inState .writingMessage (fun _ => true) handleSupportMessage]

def adminMessages : List (Route Incoming) :=
  [onCommand "admin" fun c _ db => cmdAdminDashboard c db,
    inState .waitingForReply (fun _ => true) handleAdminTicketReply,
    onCommand "servers" fun c _ db => cmdAdminServers c db,
    onCommand "products" fun c _ db => cmdAdminProducts c db,
    onCommand "user" fun c _ db => cmdAdminUserLookup c db,
    onCommand "extend" cmdAdminExtend,
    onCommand "block" cmdAdminBlockUser,
    onCommand "unblock" cmdAdminUnblockUser]

def adminJobsMessages : List (Route Incoming) :=
  [onCommand "retry" fun c _ db => cmdRetry c db,
    onCommand "audit" fun c _ db => cmdAudit c db]

def messageRoutes : List (Route Incoming) := customerMessages ++ supportMessages ++ adminMessages ++ adminJobsMessages

def customerPresses : List (Route (Option Text)) :=
  [onData (equals "main_menu") fun _ _ db => callbackMainMenu db,
    onData (equals "menu_buy") fun c _ db => callbackMenuBuy c db,
    onData (startsWith "srv_") callbackSelectServer,
    onData (startsWith "plan_") callbackSelectPlan,
    onData (startsWith "rnw_") callbackSelectRenewalPlan,
    onData (equals "cancel_order") fun _ _ db => callbackCancelOrder db,
    onData (equals "menu_subs") fun c _ db => callbackMenuSubs c db,
    onData (startsWith "sub_view_") callbackViewSubscription,
    onData (startsWith "sub_redeliver_") callbackRedeliverSubscription,
    onData (startsWith "sub_dl_") callbackRedeliverSubscription,
    onData (startsWith "renew_") callbackRenewSubscription,
    onData (equals "menu_lang") fun c _ db => callbackMenuLanguage c db,
    onData (fun data => equals "lang_en" data || equals "lang_fa" data) callbackSetLanguage]

def supportPresses : List (Route (Option Text)) :=
  [onData (equals "menu_support") fun c _ db => callbackMenuSupport c db]

def adminPresses : List (Route (Option Text)) :=
  [onData (equals "adm_back") fun c _ db => callbackAdminBack c db,
    onData (equals "adm_pending_orders") fun c _ db => callbackAdminPendingOrders c db,
    onData (startsWith "adm_app_") callbackAdminApproveOrder,
    onData (startsWith "adm_rej_") callbackAdminRejectOrder,
    onData (equals "adm_open_tickets") fun c _ db => callbackAdminOpenTickets c db,
    onData (startsWith "adm_rep_tck_") callbackAdminReplyTicket,
    onData (startsWith "adm_cls_tck_") callbackAdminCloseTicket,
    onData (equals "adm_servers_status") fun c _ db => cmdAdminServers c db,
    onData (startsWith "adm_tgl_srv_") callbackAdminToggleServer]

def adminJobsPresses : List (Route (Option Text)) := [onData (fun data => retryPrefix.isPrefixOf data) callbackRetry]

/-- `callback_unhandled` takes every press that no other handler has taken. -/
def fallback : Route (Option Text) where
  accepts _ _ _ := true
  handler _ _ _ := .error (.alert "button_expired")

def pressRoutes : List (Route (Option Text)) :=
  customerPresses ++ supportPresses ++ adminPresses ++ adminJobsPresses ++ [fallback]

/-- The first route that takes the update, in a conversation that stands so. -/
def route (settings : BotSettings) (chat : Chat) : Content → Option (Context → Database → Result)
  | .message _ message => (messageRoutes.find? fun r => r.accepts settings chat message).map fun r c db =>
    r.handler c message db
  | .press _ data => (pressRoutes.find? fun r => r.accepts settings chat data).map fun r c db => r.handler c data db

/-! ### The bot -/

structure State where
  now : ℤ
  db : Database
  chats : Conversation → Chat
  peers : ServerId → PeerName → PeerState
  phase : Phase
  batch : List JobId
  session : IdentityMap

/-- What the worker, the scheduler and the VPN servers see. -/
def State.system (s : State) : Lifecycle.State := ⟨s.now, s.db.core, s.peers, s.phase, s.batch, s.session⟩

def State.withSystem (s : State) (t : Lifecycle.State) : State :=
  { s with
    now := t.now, db := s.db.withCore t.db, peers := t.peers, phase := t.phase, batch := t.batch, session := t.session }

/-- The tables behind the middleware: the sender has a row. -/
def State.entered (s : State) (u : Update) : Database := { s.db with users := (upsertUser s.db.users u.sender).1 }

/-- The sender's row. -/
def State.sender (s : State) (u : Update) : UserId := (upsertUser s.db.users u.sender).2

def State.context (settings : BotSettings) (s : State) (u : Update) (draw : Draw) : Context :=
  ⟨settings, s.now, u.sender, s.sender u, u.conversation, s.chats u.conversation, draw⟩

/-- A blocked sender's update goes no further than the middleware. -/
def handleUpdate (settings : BotSettings) (s : State) (u : Update) (draw : Draw) : State :=
  match route settings (s.chats u.conversation) u.content with
  | none => s
  | some handler =>
    if ((s.entered u).users[s.sender u]?).any UserRow.isBlocked then { s with db := s.entered u }
    else match handler (s.context settings u draw) (s.entered u) with
      | .ok (db, chat) => { s with db := db, chats := Function.update s.chats u.conversation chat }
      | .error _ => { s with db := s.entered u }

/-- A server of the settings. -/
structure Configured where
  slug : String
  enabled : Bool
  maxActiveSubscriptions : Option ℤ

/-- The row of a server that is there; whether it is paused is left alone. -/
def Configured.set (cfg : Configured) (row : ServerRow) : ServerRow :=
  { row with enabled := cfg.enabled, maxActiveSubscriptions := cfg.maxActiveSubscriptions }

/-- `create_or_update` -/
def createOrUpdate (servers : Table ServerRow) (cfg : Configured) : Table ServerRow :=
  match getBySlug servers cfg.slug.toList with
  | some (i, _) => servers.update i cfg.set
  | none => servers.insert ⟨⟨cfg.slug⟩, cfg.enabled, false, cfg.maxActiveSubscriptions⟩

/-- The plans `init_data` makes when none is enabled. -/
def defaultProducts : List ProductRow := [⟨⟨30⟩, "vpn-1m", true⟩, ⟨⟨90⟩, "vpn-3m", true⟩, ⟨⟨180⟩, "vpn-6m", true⟩]

def createOrUpdateProduct (products : Table ProductRow) (product : ProductRow) : Table ProductRow :=
  match getByCode products product.code.toList with
  | some (i, _) => products.update i fun _ => product
  | none => products.insert product

/-- `init_data` -/
def initData (db : Database) (configured : List Configured) : Database :=
  { db with
    servers := configured.foldl createOrUpdate db.servers
    products :=
      if db.products.any ProductRow.enabled then db.products
      else defaultProducts.foldl createOrUpdateProduct db.products }

inductive Step
  | update (u : Update) (draw : Draw)
  /-- The bot starts again: it has forgotten the conversations, and reads its settings. -/
  | restart (configured : List Configured)
  /-- A step of the scheduler, the worker or the clock. -/
  | system (a : Lifecycle.Step)

/-- The steps no update is behind. -/
def isBackground : Lifecycle.Step → Bool
  | .checkExpired | .cleanup | .claim _ | .read | .call _ | .write _ | .collect _ | .crash | .tick _ => true
  | _ => false

/-- The jobs are those that `list_permanent_failures` may return. -/
def Draw.fits (draw : Draw) (jobs : Table Job) : Bool :=
  let failed := jobs.select fun job => job.status = .permanentFailure
  draw.failures.Nodup && draw.failures.all (failed.contains ·) && draw.failures.length = min 100 failed.length

def step (settings : BotSettings) (s : State) : Step → Option State
  | .update u draw => if draw.fits s.db.jobs then some (handleUpdate settings s u draw) else none
  | .restart configured => some { s with db := initData s.db configured, chats := fun _ => .cleared }
  | .system a =>
    if isBackground a then (Lifecycle.step settings.toSettings s.system a).map s.withSystem else none

/-- A bot nobody has written to. -/
def start (servers : Table ServerRow) (products : Table ProductRow) (now : ℤ) : State where
  now := now
  db := ⟨[], servers, products, [], [], [], [], [], ⟨[], []⟩, []⟩
  chats := fun _ => .cleared
  peers := fun _ _ => .absent
  phase := .idle
  batch := []
  session := .empty

end AmneziaVpnBot.Bot
