import AmneziaVpnBot.Bot.Customer
import AmneziaVpnBot.Deploy.System
import AmneziaVpnBot.Lib.Number

/-! The handlers of admins (`src/app/bot/handlers/admin.py`, `admin_jobs.py`). Each asks first who has sent the update;
a button press of anyone else is refused with an alert, a command or a reply of anyone else is ignored. -/

namespace AmneziaVpnBot.Bot

open Text
open Support (Incoming)

/-- `is_admin` -/
def BotSettings.isAdmin (settings : BotSettings) (id : TelegramId) : Bool :=
  id ≠ 0 && (settings.adminTelegramIds.contains id || (0 < settings.adminChatId && id = settings.adminChatId))

def Context.isAdmin (c : Context) : Bool := c.settings.isAdmin c.sender.id

/-- A button press of an admin, or the alert. -/
def Context.forAdmin (c : Context) (result : Result) : Result :=
  if c.isAdmin then result else .error (.alert "Unauthorized")

/-- A message of an admin. -/
def Context.fromAdmin (c : Context) (result : Result) : Result := if c.isAdmin then result else .error .ignored

/-- The audit log with an admin's action. -/
def Context.record (c : Context) (db : Database) (action : AdminAction) : List (TelegramId × AdminAction) :=
  db.actions ++ [(c.sender.id, action)]

/-! ### Pages -/

def cmdAdminDashboard (c : Context) (db : Database) : Result := c.fromAdmin (c.shown db)

def callbackAdminBack (c : Context) (db : Database) : Result := c.forAdmin (c.shown db)

def callbackAdminPendingOrders (c : Context) (db : Database) : Result := c.forAdmin (c.shown db)

def callbackAdminOpenTickets (c : Context) (db : Database) : Result := c.forAdmin (c.shown db)

/-- Behind a command and a button; a press of anyone else is not even answered. -/
def cmdAdminServers (c : Context) (db : Database) : Result := c.fromAdmin (c.shown db)

def cmdAdminProducts (c : Context) (db : Database) : Result := c.fromAdmin (c.shown db)

def cmdAdminUserLookup (c : Context) (db : Database) : Result := c.fromAdmin (c.shown db)

def cmdRetry (c : Context) (db : Database) : Result := c.fromAdmin (c.shown db)

def cmdAudit (c : Context) (db : Database) : Result := c.fromAdmin (c.shown db)

/-! ### Orders -/

def callbackAdminApproveOrder (c : Context) (data : Text) (db : Database) : Result := c.forAdmin <|
  match uuidAfter "adm_app_" data with
  | none => .error .raised
  | some id => match getById c.settings.orderIds db.orders id with
    | none => .error (.alert "Order not found")
    | some (i, _) =>
      let idHex8 := (c.settings.subscriptionIds db.subscriptions.fresh).hex8
      .ok (db.withCore (AmneziaVpnBot.callbackAdminApproveOrder db.core i c.sender.id idHex8 c.now).2, c.chat)

def callbackAdminRejectOrder (c : Context) (data : Text) (db : Database) : Result := c.forAdmin <|
  match uuidAfter "adm_rej_" data with
  | none => .error .raised
  | some id => match getById c.settings.orderIds db.orders id with
    | none => .error (.alert "Order could not be rejected")
    | some (i, _) => .ok (db.withCore (AmneziaVpnBot.callbackAdminRejectOrder db.core i c.sender.id c.now).2, c.chat)

/-! ### Tickets -/

def callbackAdminReplyTicket (c : Context) (data : Text) (db : Database) : Result := c.forAdmin <|
  match uuidAfter "adm_rep_tck_" data with
  | none => .error .raised
  | some id => match getById c.settings.ticketIds db.support.tickets id with
    | none => .error (.alert "Ticket not found")
    | some (i, _) => .ok (db, { c.chat with state := .waitingForReply, ticketId := some i })

def handleAdminTicketReply (c : Context) (message : Incoming) (db : Database) : Result := c.fromAdmin <|
  match c.chat.ticketId.bind fun i => (db.support.tickets[i]?).map fun _ => i with
  | none => .ok (db, .cleared)
  | some i =>
    let support := Support.addMessage db.support ⟨i, .admin, c.sender.id, message.bodyText "Admin attachment response",
      some c.conversation.1, some message.messageId, message.fileId, message.mediaType⟩
    .ok ({ db with support := support }, .cleared)

def callbackAdminCloseTicket (c : Context) (data : Text) (db : Database) : Result := c.forAdmin <|
  match uuidAfter "adm_cls_tck_" data with
  | none => .error .raised
  | some id => match getById c.settings.ticketIds db.support.tickets id with
    | none => .error (.alert "Ticket not found")
    | some (i, _) => .ok ({ db with support := Support.closeTicket db.support i c.now }, c.chat)

/-! ### Servers and users -/

def callbackAdminToggleServer (c : Context) (data : Text) (db : Database) : Result := c.forAdmin <|
  match uuidAfter "adm_tgl_srv_" data with
  | none => .error .raised
  | some id => match getById c.settings.serverIds db.servers id with
    | none => .error (.alert "Server not found")
    | some (i, row) =>
      if !row.enabled then .error (.alert "turned off in .env")
      else .ok ({ db with
        servers := db.servers.update i fun row => { row with paused := !row.paused }
        actions := c.record db (if row.paused then .serverResumed i else .serverPaused i) }, c.chat)

/-- `text.split()` -/
def words (t : Text) : List Text := (t.splitOnP isSpace).filter (· ≠ [])

def isDigits (word : Text) : Bool := word.all fun d => (Json.digitValue d.toNat).isSome

/-- `int(word)` of a word that `isdigit` accepts. A digit that `int` does not know makes it raise, which leaves as
much undone as the usage text does. -/
def readCount (word : Text) : Option ℤ := if isDigits word then Json.readInt (word.map Char.toNat) else none

/-- The days of `/extend`, which may have a minus. -/
def readDays (word : Text) : Option ℤ :=
  if isDigits (word.dropWhile (· == '-')) then (Json.readInt (word.map Char.toNat)).filter (· ≠ 0) else none

/-- The user of `/block` and `/unblock`. -/
def targetUser (message : Incoming) (users : Table UserRow) : Option (UserId × UserRow) :=
  ((words (message.text.getD "").toList)[1]?.bind readCount).bind (getByTelegramId users)

/-- `/block` and `/unblock` -/
def setBlocked (blocked : Bool) (c : Context) (message : Incoming) (db : Database) : Result := c.fromAdmin <|
  match targetUser message db.users with
  | none => c.shown db
  | some (i, _) => .ok ({ db with
      users := db.users.update i fun row => { row with isBlocked := blocked }
      actions := c.record db (if blocked then .userBlocked i else .userUnblocked i) }, c.chat)

def cmdAdminBlockUser : Context → Incoming → Database → Result := setBlocked true

def cmdAdminUnblockUser : Context → Incoming → Database → Result := setBlocked false

/-- `get_by_peer_label` -/
def getByPeerLabel (subs : Table Subscription) (label : Text) : Option (SubscriptionId × Subscription) :=
  rowWhere subs fun sub => sub.peerLabel.any fun name => Deploy.nameText name = label

def cmdAdminExtend (c : Context) (message : Incoming) (db : Database) : Result := c.fromAdmin <|
  match words (message.text.getD "").toList with
  | [_, label, count] => match readDays count, getByPeerLabel db.subscriptions label with
    | some n, some (i, _) => match adminExtend db.core i n c.sender.id c.now with
      | some core => .ok (db.withCore core, c.chat)
      | none => c.shown db
    | _, _ => c.shown db
  | _ => c.shown db

/-! ### Jobs -/

def retryPrefix : Text := "adm_rty_".toList

def retryAll : Text := "adm_rty_all".toList

/-- The jobs a retry button is about; a text that is no UUID names none. -/
def retried (c : Context) (data : Text) (db : Database) : List JobId :=
  if data = retryAll then c.draw.failures
  else ((uuidOfHex (data.drop retryPrefix.length)).bind (getById c.settings.jobIds db.jobs)).toList.map Prod.fst

def callbackRetry (c : Context) (data : Text) (db : Database) : Result := c.forAdmin <|
  .ok (db.withCore (AmneziaVpnBot.callbackRetry db.core (retried c data db) c.sender.id c.now), c.chat)

end AmneziaVpnBot.Bot
