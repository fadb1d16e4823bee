import AmneziaVpnBot.Db.Models
import AmneziaVpnBot.Lib.Machine
import Mathlib.Logic.Function.Basic

/-! Support tickets (`src/app/db/repositories/ticket_repo.py`) and the handlers of customers
and admins that change them (`src/app/bot/handlers/support.py`, `admin.py`). Which ticket of
a user is active is decided by its status alone. An admin's reply goes to the ticket the
chat remembers, which may have been closed since Reply was pressed. -/

namespace AmneziaVpnBot.Support

abbrev TicketId := ℕ

inductive TicketStatus
  | open | waitingForAdmin | waitingForCustomer | closed
  deriving DecidableEq, Repr

inductive SenderType
  | customer | admin
  deriving DecidableEq, Repr

structure SupportTicket where
  publicTicketCode : String
  userId : UserId
  status : TicketStatus
  subject : Option String
  closedAt : Option ℤ
  deriving DecidableEq, Repr

structure SupportMessage where
  ticketId : TicketId
  senderType : SenderType
  senderTelegramUserId : TelegramId
  body : String
  telegramChatId : Option ChatId
  telegramMessageId : Option ℤ
  attachmentFileId : Option String
  attachmentType : Option String
  deriving DecidableEq, Repr

/-- A message as it comes from Telegram. -/
structure Incoming where
  text : Option String
  caption : Option String
  /-- The file ids of the photo's sizes, the largest last. -/
  photo : List String
  document : Option String
  messageId : ℤ

/-- `message.text or message.caption or default`: an empty text counts as none. -/
def Incoming.bodyText (message : Incoming) (default : String) : String :=
  ((message.text.filter (· ≠ "")) <|> (message.caption.filter (· ≠ ""))).getD default

def Incoming.fileId (message : Incoming) : Option String := message.photo.getLast? <|> message.document

def Incoming.mediaType (message : Incoming) : Option String :=
  if message.photo ≠ [] then some "photo" else message.document.map fun _ => "document"

structure Database where
  tickets : Table SupportTicket
  messages : Table SupportMessage

/-- Open, or waiting for one side. -/
def SupportTicket.active (ticket : SupportTicket) : Bool :=
  ticket.status = .open || ticket.status = .waitingForAdmin || ticket.status = .waitingForCustomer

def activeTickets (tickets : Table SupportTicket) (user : UserId) : List TicketId :=
  tickets.select fun ticket => ticket.userId = user && ticket.active

/-- What `scalar_one_or_none` raises on a second row. -/
inductive MultipleResultsFound
  | mk

def getActiveTicketForUser (tickets : Table SupportTicket) (user : UserId) :
    Except MultipleResultsFound (Option TicketId) :=
  match activeTickets tickets user with
  | [] => .ok none
  | [id] => .ok (some id)
  | _ :: _ :: _ => .error .mk

/-- `create_ticket`; `none` when the ticket code is taken. -/
def createTicket (db : Database) (code : String) (user : UserId) (subject initialMessage : String)
    (sender : TelegramId) (fileId mediaType : Option String) : Option Database :=
  if db.tickets.any fun ticket => ticket.publicTicketCode = code then none
  else
    let message : SupportMessage := ⟨db.tickets.fresh, .customer, sender, initialMessage, none, none, fileId, mediaType⟩
    some ⟨db.tickets.insert ⟨code, user, .waitingForAdmin, some subject, none⟩,
      if initialMessage ≠ "" || fileId.isSome then db.messages.insert message else db.messages⟩

/-- The status a message leaves a ticket in. -/
def SenderType.waits : SenderType → TicketStatus
  | .customer => .waitingForAdmin
  | .admin => .waitingForCustomer

/-- `add_message` sets the ticket's status whatever it was. -/
def addMessage (db : Database) (message : SupportMessage) : Database :=
  ⟨db.tickets.update message.ticketId fun ticket => { ticket with status := message.senderType.waits },
    db.messages.insert message⟩

def SupportTicket.close (now : ℤ) (ticket : SupportTicket) : SupportTicket :=
  { ticket with status := .closed, closedAt := some now }

def closeTicket (db : Database) (id : TicketId) (now : ℤ) : Database :=
  { db with tickets := db.tickets.update id (SupportTicket.close now) }

/-! ### The handlers -/

/-- Who writes in which chat: what the bot remembers of a conversation is kept by both. -/
abbrev Conversation := ChatId × TelegramId

/-- What the bot expects next in a conversation. -/
inductive Expects
  | nothing
  | supportMessage
  | replyTo (ticket : TicketId)

structure State where
  now : ℤ
  db : Database
  expects : Conversation → Expects

def start : State := ⟨0, ⟨[], []⟩, fun _ => .nothing⟩

inductive Step
  /-- `/support`, or its menu button. -/
  | support (c : Conversation)
  /-- A message of a customer; `code` is the ticket code drawn for it. -/
  | supportMessage (c : Conversation) (user : UserId) (code : String) (message : Incoming)
  | replyTicket (c : Conversation) (id : TicketId)
  | ticketReply (c : Conversation) (message : Incoming)
  | closeTicket (c : Conversation) (id : TicketId)
  /-- Another handler takes the conversation over. -/
  | leave (c : Conversation)
  | tick (d : ℕ)

def State.expect (s : State) (c : Conversation) (e : Expects) : State :=
  { s with expects := Function.update s.expects c e }

/-- `handle_support_message`; a handler that raises commits nothing. -/
def handleSupportMessage (s : State) (c : Conversation) (user : UserId) (code : String) (message : Incoming) : State :=
  let body := message.bodyText "Media attachment"
  match getActiveTicketForUser s.db.tickets user with
  | .error _ => s
  | .ok (some id) =>
    let db := addMessage s.db
      ⟨id, .customer, c.2, body, some c.1, some message.messageId, message.fileId, message.mediaType⟩
    { s with db := db }.expect c .nothing
  | .ok none =>
    match createTicket s.db code user (body.take 40).toString body c.2 message.fileId message.mediaType with
    | some db => { s with db := db }.expect c .nothing
    | none => s

/-- `handle_admin_ticket_reply`: the ticket is looked up, but not its status. -/
def handleAdminTicketReply (s : State) (c : Conversation) (id : TicketId) (message : Incoming) : State :=
  match s.db.tickets[id]? with
  | none => s.expect c .nothing
  | some _ =>
    let db := addMessage s.db ⟨id, .admin, c.2, message.bodyText "Admin attachment response", some c.1,
      some message.messageId, message.fileId, message.mediaType⟩
    { s with db := db }.expect c .nothing

def step (isAdmin : TelegramId → Bool) (s : State) : Step → Option State
  | .support c => some (s.expect c .supportMessage)
  | .supportMessage c user code message => match s.expects c with
    | .supportMessage => some (handleSupportMessage s c user code message)
    | _ => none
  | .replyTicket c id =>
    if isAdmin c.2 && s.db.tickets[id]?.isSome then some (s.expect c (.replyTo id)) else some s
  | .ticketReply c message => match s.expects c with
    | .replyTo id => if isAdmin c.2 then some (handleAdminTicketReply s c id message) else some s
    | _ => none
  | .closeTicket c id => if isAdmin c.2 then some { s with db := closeTicket s.db id s.now } else some s
  | .leave c => some (s.expect c .nothing)
  | .tick d => some { s with now := s.now + d }

end AmneziaVpnBot.Support
