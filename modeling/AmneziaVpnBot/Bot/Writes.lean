import AmneziaVpnBot.Bot.Dispatch
import AmneziaVpnBot.Lib.Except

/-! What an update can write. Whatever a client puts behind a button, the handler it reaches does one of the things
listed here, and each is listed with what its handler has checked. -/

namespace AmneziaVpnBot.Bot

open Support (TicketId Incoming SupportMessage)

/-- The tables and the conversation as a handler that got through leaves them;
`m` is the message it was given, if any. -/
inductive Wrote (c : Context) (m : Option Incoming) (db : Database) : Database → Chat → Prop
  | looked {chat : Chat} (hchat : chat = c.chat ∨ chat = .cleared ∨ chat = { c.chat with state := .writingMessage }) :
      Wrote c m db db chat
  | language (lang : String) :
      Wrote c m db { db with users := db.users.update c.user fun row => { row with languageCode := lang } } .cleared
  | bought {server : ServerId} {product : ProductId} (hoffers : db.offers server = true)
      (hplan : (db.products[product]?).any ProductRow.enabled = true) :
      Wrote c m db (db.withCore (createOrder db.core c.user server product none))
        { c.chat with state := .awaitingReceipt, orderId := some db.orders.fresh }
  | renewed {i : SubscriptionId} {sub : Subscription} {product : ProductId} (hsub : db.subscriptions[i]? = some sub)
      (hown : sub.userId = c.user) (hserver : (db.servers[sub.vpnServerId]?).isSome = true)
      (hplan : (db.products[product]?).any ProductRow.enabled = true)
      (hoffers : sub.hasPeer = true ∨ db.offers sub.vpnServerId = true) :
      Wrote c m db (db.withCore (createOrder db.core c.user sub.vpnServerId product (some i)))
        { c.chat with state := .awaitingReceipt, orderId := some db.orders.fresh }
  | receipt {id : OrderId} {order : Order} (horder : db.orders[id]? = some order) (hid : c.chat.orderId = some id)
      {receipt : Receipt} (hreceipt : m.bind (receiptOf c.conversation) = some receipt) :
      Wrote c m db { db with orders := db.orders.update id (Order.submitReceipt receipt c.now) } .cleared
  | redelivered {i : SubscriptionId} {sub : Subscription} (hsub : db.subscriptions[i]? = some sub)
      (hown : sub.userId = c.user) (hlimit : sub.configRedeliveryCount < c.settings.configRedeliveryLimit) :
      Wrote c m db { db with jobs := db.jobs.insert (newJob .redeliverConfig i none c.now) } c.chat
  | messaged {message : Incoming} (hmessage : m = some message) (hstate : c.chat.state = .writingMessage) {i : TicketId}
      (hactive : Support.getActiveTicketForUser db.support.tickets c.user = .ok (some i)) :
      Wrote c m db { db with support := Support.addMessage db.support ⟨i, .customer, c.sender.id,
        message.bodyText "Media attachment", some c.conversation.1, some message.messageId, message.fileId,
        message.mediaType⟩ } .cleared
  | opened {message : Incoming} (hmessage : m = some message) (hstate : c.chat.state = .writingMessage)
      {support : Support.Database} (hactive : Support.getActiveTicketForUser db.support.tickets c.user = .ok none)
      (hticket : Support.createTicket db.support c.draw.ticketCode c.user
        ((message.bodyText "Media attachment").take 40).toString (message.bodyText "Media attachment") c.sender.id
        message.fileId message.mediaType = some support) :
      Wrote c m db { db with support := support } .cleared
  | replying {i : TicketId} (hadmin : c.isAdmin = true) (hticket : (db.support.tickets[i]?).isSome = true) :
      Wrote c m db db { c.chat with state := .waitingForReply, ticketId := some i }
  | replied {message : Incoming} (hmessage : m = some message) (hadmin : c.isAdmin = true)
      (hstate : c.chat.state = .waitingForReply) {i : TicketId} (hid : c.chat.ticketId = some i)
      (hticket : (db.support.tickets[i]?).isSome = true) :
      Wrote c m db { db with support := Support.addMessage db.support ⟨i, .admin, c.sender.id,
        message.bodyText "Admin attachment response", some c.conversation.1, some message.messageId, message.fileId,
        message.mediaType⟩ } .cleared
  | closed (hadmin : c.isAdmin = true) (i : TicketId) :
      Wrote c m db { db with support := Support.closeTicket db.support i c.now } c.chat
  | approved (hadmin : c.isAdmin = true) (id : OrderId) (idHex8 : ℕ) :
      Wrote c m db (db.withCore (AmneziaVpnBot.callbackAdminApproveOrder db.core id c.sender.id idHex8 c.now).2) c.chat
  | rejected (hadmin : c.isAdmin = true) (id : OrderId) :
      Wrote c m db (db.withCore (AmneziaVpnBot.callbackAdminRejectOrder db.core id c.sender.id c.now).2) c.chat
  | toggled (hadmin : c.isAdmin = true) (i : ServerId) (action : AdminAction) :
      Wrote c m db { db with
        servers := db.servers.update i fun row => { row with paused := !row.paused }
        actions := c.record db action } c.chat
  | blocked {message : Incoming} (hmessage : m = some message) (hadmin : c.isAdmin = true) (blocked : Bool)
      (hcommand : commandOf c.settings message = some (if blocked then "block" else "unblock").toList) {i : UserId}
      {row : UserRow} (htarget : targetUser message db.users = some (i, row)) :
      Wrote c m db { db with
        users := db.users.update i fun row => { row with isBlocked := blocked }
        actions := c.record db (if blocked then .userBlocked i else .userUnblocked i) } c.chat
  | extended (hadmin : c.isAdmin = true) {i : SubscriptionId} {n : ℤ} {core : AmneziaVpnBot.Database}
      (hcore : adminExtend db.core i n c.sender.id c.now = some core) : Wrote c m db (db.withCore core) c.chat
  | retried (hadmin : c.isAdmin = true) (ids : List JobId) :
      Wrote c m db (db.withCore (AmneziaVpnBot.callbackRetry db.core ids c.sender.id c.now)) c.chat

variable {c : Context} {m : Option Incoming} {db db' : Database} {chat : Chat} {data : Text} {message : Incoming}

/-! ### Customers -/

/-- A handler that only shows a page. -/
theorem wrote_shown (h : c.shown db = .ok (db', chat)) : Wrote c m db db' chat := by
  cases h
  exact .looked (.inl rfl)

/-- A subscription that is found is the sender's own. -/
theorem ownSubscription_ok {id : Uuid} {found : SubscriptionId × Subscription}
    (h : c.ownSubscription db id = .ok found) :
    db.subscriptions[found.1]? = some found.2 ∧ found.2.userId = c.user := by
  rw [Context.ownSubscription] at h
  split at h
  next i sub hfound =>
    split_ifs at h with hown
    cases h
    exact ⟨(getById_eq_some hfound).1, hown⟩
  next => cases h

/-- A plan that is found under its code and enabled is on offer. -/
theorem any_of_getByCode {code : Text} {product : ProductId} {plan : ProductRow}
    (h : getByCode db.products code = some (product, plan)) (henabled : plan.enabled = true) :
    (db.products[product]?).any ProductRow.enabled = true := by
  rw [(rowWhere_eq_some h).1]
  exact henabled

theorem offers_of {server : ServerId} {row : ServerRow} (h : db.servers[server]? = some row) (hsale : row.onSale = true)
    (hroom : hasRoom db.subscriptions server row = true) : db.offers server = true := by
  rw [Database.offers, h, Option.any_some, hsale, hroom]
  rfl

theorem wrote_callbackSelectServer (h : callbackSelectServer c data db = .ok (db', chat)) : Wrote c m db db' chat := by
  unfold callbackSelectServer at h
  split at h
  · cases h
  · split at h
    · cases h
    · split_ifs at h
      exact wrote_shown h

theorem wrote_callbackViewSubscription (h : callbackViewSubscription c data db = .ok (db', chat)) :
    Wrote c m db db' chat := by
  unfold callbackViewSubscription at h
  split at h
  · cases h
  · obtain ⟨found, -, hshown⟩ := Except.bind_eq_ok.mp h
    exact wrote_shown hshown

theorem wrote_callbackRenewSubscription (h : callbackRenewSubscription c data db = .ok (db', chat)) :
    Wrote c m db db' chat := by
  unfold callbackRenewSubscription at h
  split at h
  · cases h
  · obtain ⟨found, -, hshown⟩ := Except.bind_eq_ok.mp h
    dsimp only at hshown
    split_ifs at hshown
    exact wrote_shown hshown

/-- The order is the sender's, and the conversation remembers it. -/
theorem startOrder_ok {server : ServerId} {product : ProductId} {renews : Option SubscriptionId}
    (h : startOrder c db server product renews = .ok (db', chat)) :
    db' = db.withCore (createOrder db.core c.user server product renews) ∧
      chat = { c.chat with state := .awaitingReceipt, orderId := some db.orders.fresh } := by
  unfold startOrder at h
  split_ifs at h
  cases h
  exact ⟨rfl, rfl⟩

theorem wrote_callbackSelectPlan (h : callbackSelectPlan c data db = .ok (db', chat)) : Wrote c m db db' chat := by
  unfold callbackSelectPlan at h
  split at h
  · cases h
  · split at h
    next server row product plan hslug hcode =>
      split_ifs at h with hsale hroom
      simp only [Bool.or_eq_true, Bool.not_eq_true', not_or, Bool.not_eq_false] at hsale hroom
      obtain ⟨rfl, rfl⟩ := startOrder_ok h
      exact .bought (offers_of (rowWhere_eq_some hslug).1 hsale.1 hroom) (any_of_getByCode hcode hsale.2)
    next => cases h

theorem wrote_callbackSelectRenewalPlan (h : callbackSelectRenewalPlan c data db = .ok (db', chat)) :
    Wrote c m db db' chat := by
  unfold callbackSelectRenewalPlan at h
  split at h
  · cases h
  · obtain ⟨⟨i, sub⟩, hfound, h⟩ := Except.bind_eq_ok.mp h
    obtain ⟨hsub, hown⟩ := ownSubscription_ok hfound
    dsimp only at h
    split at h
    next row product plan hrow hcode =>
      have hserver : (db.servers[sub.vpnServerId]?).isSome = true := by rw [hrow]; rfl
      split_ifs at h with hplan hpeer hsale hroom
      all_goals
        simp only [Bool.not_eq_true', Bool.not_eq_false] at hplan
        obtain ⟨rfl, rfl⟩ := startOrder_ok h
      · exact .renewed hsub hown hserver (any_of_getByCode hcode hplan) (.inl hpeer)
      · simp only [Bool.not_eq_true', Bool.not_eq_false] at hsale hroom
        exact .renewed hsub hown hserver (any_of_getByCode hcode hplan) (.inr (offers_of hrow hsale hroom))
    next => cases h

theorem wrote_callbackSetLanguage (h : callbackSetLanguage c data db = .ok (db', chat)) : Wrote c m db db' chat := by
  cases h
  exact .language _

/-- The order is the one the conversation remembers, whatever else the message says. -/
theorem wrote_handleReceiptUpload (h : handleReceiptUpload c message db = .ok (db', chat)) :
    Wrote c (some message) db db' chat := by
  unfold handleReceiptUpload at h
  split at h
  · cases h
    exact .looked (.inr (.inl rfl))
  next id hid =>
    split at h
    · cases h
    next receipt hreceipt =>
      cases h
      obtain ⟨i, hi, hrow⟩ := Option.bind_eq_some_iff.mp hid
      obtain ⟨order, horder, rfl⟩ := Option.map_eq_some_iff.mp hrow
      exact .receipt horder hi hreceipt

theorem wrote_callbackRedeliverSubscription (h : callbackRedeliverSubscription c data db = .ok (db', chat)) :
    Wrote c m db db' chat := by
  unfold callbackRedeliverSubscription at h
  split at h
  · cases h
  · obtain ⟨⟨i, sub⟩, hfound, h⟩ := Except.bind_eq_ok.mp h
    obtain ⟨hsub, hown⟩ := ownSubscription_ok hfound
    dsimp only at h
    split_ifs at h with hlimit
    cases h
    exact .redelivered hsub hown (Nat.lt_of_not_le hlimit)

theorem wrote_handleSupportMessage (hstate : c.chat.state = .writingMessage)
    (h : handleSupportMessage c message db = .ok (db', chat)) : Wrote c (some message) db db' chat := by
  unfold handleSupportMessage at h
  dsimp only at h
  split at h
  · cases h
  next hactive =>
    cases h
    exact .messaged rfl hstate hactive
  next hactive =>
    split at h
    next hticket =>
      cases h
      exact .opened rfl hstate hactive hticket
    next => cases h

/-! ### Admins -/

/-- Behind the check the sender is an admin. -/
theorem forAdmin_ok {result : Result} (h : c.forAdmin result = .ok (db', chat)) :
    c.isAdmin = true ∧ result = .ok (db', chat) := by
  unfold Context.forAdmin at h
  split_ifs at h with hadmin
  exact ⟨hadmin, h⟩

theorem fromAdmin_ok {result : Result} (h : c.fromAdmin result = .ok (db', chat)) :
    c.isAdmin = true ∧ result = .ok (db', chat) := by
  unfold Context.fromAdmin at h
  split_ifs at h with hadmin
  exact ⟨hadmin, h⟩

theorem wrote_callbackAdminApproveOrder (h : callbackAdminApproveOrder c data db = .ok (db', chat)) :
    Wrote c m db db' chat := by
  obtain ⟨hadmin, h⟩ := forAdmin_ok h
  split at h
  · cases h
  · split at h
    · cases h
    · cases h
      exact .approved hadmin _ _

theorem wrote_callbackAdminRejectOrder (h : callbackAdminRejectOrder c data db = .ok (db', chat)) :
    Wrote c m db db' chat := by
  obtain ⟨hadmin, h⟩ := forAdmin_ok h
  split at h
  · cases h
  · split at h
    · cases h
    · cases h
      exact .rejected hadmin _

theorem wrote_callbackAdminReplyTicket (h : callbackAdminReplyTicket c data db = .ok (db', chat)) :
    Wrote c m db db' chat := by
  obtain ⟨hadmin, h⟩ := forAdmin_ok h
  split at h
  · cases h
  · split at h
    · cases h
    next i row hrow =>
      cases h
      refine .replying hadmin ?_
      rw [(getById_eq_some hrow).1]
      rfl

theorem wrote_handleAdminTicketReply (hstate : c.chat.state = .waitingForReply)
    (h : handleAdminTicketReply c message db = .ok (db', chat)) : Wrote c (some message) db db' chat := by
  obtain ⟨hadmin, h⟩ := fromAdmin_ok h
  split at h
  · cases h
    exact .looked (.inr (.inl rfl))
  next i hi =>
    cases h
    obtain ⟨j, hj, hrow⟩ := Option.bind_eq_some_iff.mp hi
    obtain ⟨ticket, hticket, rfl⟩ := Option.map_eq_some_iff.mp hrow
    refine .replied rfl hadmin hstate hj ?_
    rw [hticket]
    rfl

theorem wrote_callbackAdminCloseTicket (h : callbackAdminCloseTicket c data db = .ok (db', chat)) :
    Wrote c m db db' chat := by
  obtain ⟨hadmin, h⟩ := forAdmin_ok h
  split at h
  · cases h
  · split at h
    · cases h
    · cases h
      exact .closed hadmin _

theorem wrote_callbackAdminToggleServer (h : callbackAdminToggleServer c data db = .ok (db', chat)) :
    Wrote c m db db' chat := by
  obtain ⟨hadmin, h⟩ := forAdmin_ok h
  split at h
  · cases h
  · split at h
    · cases h
    · split at h
      · cases h
      · cases h
        exact .toggled hadmin _ _

/-- `/block` and `/unblock` differ in the flag they set. -/
theorem wrote_setBlocked (blocked : Bool)
    (hcommand : commandOf c.settings message = some (if blocked then "block" else "unblock").toList)
    (h : setBlocked blocked c message db = .ok (db', chat)) : Wrote c (some message) db db' chat := by
  obtain ⟨hadmin, h⟩ := fromAdmin_ok h
  split at h
  · exact wrote_shown h
  next htarget =>
    cases h
    exact .blocked rfl hadmin blocked hcommand htarget

theorem wrote_cmdAdminExtend (h : cmdAdminExtend c message db = .ok (db', chat)) : Wrote c m db db' chat := by
  obtain ⟨hadmin, h⟩ := fromAdmin_ok h
  split at h
  · split at h
    · split at h
      next hcore =>
        cases h
        exact .extended hadmin hcore
      next => exact wrote_shown h
    · exact wrote_shown h
  · exact wrote_shown h

theorem wrote_callbackRetry (h : callbackRetry c data db = .ok (db', chat)) : Wrote c m db db' chat := by
  obtain ⟨hadmin, h⟩ := forAdmin_ok h
  cases h
  exact .retried hadmin _

/-! ### Routes -/

/-- The route's handler writes what is listed, in a conversation in which the route takes the update. -/
def Route.Writes {α : Type} (r : Route α) (incoming : α → Option Incoming) : Prop :=
  ∀ (c : Context) (x : α) (db db' : Database) (chat : Chat), r.accepts c.settings c.chat x = true →
    r.handler c x db = .ok (db', chat) → Wrote c (incoming x) db db' chat

/-- What a handler writes, its route writes, given what the route's filter says. -/
theorem writes_command {name : String} {handler : Context → Incoming → Database → Result}
    (h : ∀ {c message db db' chat}, commandOf c.settings message = some name.toList →
      handler c message db = .ok (db', chat) → Wrote c (some message) db db' chat) :
    (onCommand name handler).Writes some := by
  intro c message db db' chat haccepts hok
  exact h (of_decide_eq_true haccepts) hok

theorem writes_onCommand {name : String} {handler : Context → Incoming → Database → Result}
    (h : ∀ {c message db db' chat}, handler c message db = .ok (db', chat) → Wrote c (some message) db db' chat) :
    (onCommand name handler).Writes some := writes_command fun _ hok => h hok

theorem writes_inState {state : ChatState} {filter : Incoming → Bool} {handler : Context → Incoming → Database → Result}
    (h : ∀ {c message db db' chat}, c.chat.state = state → handler c message db = .ok (db', chat) →
      Wrote c (some message) db db' chat) :
    (inState state filter handler).Writes some := by
  intro c message db db' chat haccepts hok
  simp only [inState, Bool.and_eq_true, decide_eq_true_eq] at haccepts
  exact h haccepts.1 hok

theorem writes_onData {filter : Text → Bool} {handler : Context → Text → Database → Result}
    (h : ∀ {c data db db' chat}, handler c data db = .ok (db', chat) → Wrote c none db db' chat) :
    (onData filter handler).Writes fun _ => none := fun _ _ _ _ _ _ hok => h hok

theorem wrote_cleared (h : (.ok (db, .cleared) : Result) = .ok (db', chat)) : Wrote c m db db' chat := by
  cases h
  exact .looked (.inr (.inl rfl))

theorem wrote_support (h : (.ok (db, { c.chat with state := .writingMessage }) : Result) = .ok (db', chat)) :
    Wrote c m db db' chat := by
  cases h
  exact .looked (.inr (.inr rfl))

theorem wrote_page (h : c.forAdmin (c.shown db) = .ok (db', chat)) : Wrote c m db db' chat :=
  wrote_shown (forAdmin_ok h).2

theorem wrote_adminCommand (h : c.fromAdmin (c.shown db) = .ok (db', chat)) : Wrote c m db db' chat :=
  wrote_shown (fromAdmin_ok h).2

/-- Every handler that a message can reach. -/
theorem messageRoutes_writes : ∀ r ∈ messageRoutes, r.Writes some := by
  simp only [messageRoutes, customerMessages, supportMessages, adminMessages, adminJobsMessages, List.mem_append,
    List.mem_cons, List.not_mem_nil, or_false]
  rintro r (((hr | hr) | hr) | hr)
  · rcases hr with rfl | rfl | rfl | rfl | rfl
    · exact writes_onCommand wrote_cleared
    · exact writes_onCommand wrote_cleared
    · exact writes_inState fun _ => wrote_handleReceiptUpload
    · exact writes_onCommand wrote_shown
    · exact writes_onCommand wrote_shown
  · rcases hr with rfl | rfl
    · exact writes_onCommand wrote_support
    · exact writes_inState wrote_handleSupportMessage
  · rcases hr with rfl | rfl | rfl | rfl | rfl | rfl | rfl | rfl
    · exact writes_onCommand wrote_adminCommand
    · exact writes_inState wrote_handleAdminTicketReply
    · exact writes_onCommand wrote_adminCommand
    · exact writes_onCommand wrote_adminCommand
    · exact writes_onCommand wrote_adminCommand
    · exact writes_onCommand wrote_cmdAdminExtend
    · exact writes_command (wrote_setBlocked true)
    · exact writes_command (wrote_setBlocked false)
  · rcases hr with rfl | rfl
    · exact writes_onCommand wrote_adminCommand
    · exact writes_onCommand wrote_adminCommand

theorem customerPresses_writes : ∀ r ∈ customerPresses, r.Writes fun _ => none := by
  simp only [customerPresses, List.mem_cons, List.not_mem_nil, or_false]
  rintro r (rfl | rfl | rfl | rfl | rfl | rfl | rfl | rfl | rfl | rfl | rfl | rfl | rfl)
  · exact writes_onData wrote_cleared
  · exact writes_onData wrote_shown
  · exact writes_onData wrote_callbackSelectServer
  · exact writes_onData wrote_callbackSelectPlan
  · exact writes_onData wrote_callbackSelectRenewalPlan
  · exact writes_onData wrote_cleared
  · exact writes_onData wrote_shown
  · exact writes_onData wrote_callbackViewSubscription
  · exact writes_onData wrote_callbackRedeliverSubscription
  · exact writes_onData wrote_callbackRedeliverSubscription
  · exact writes_onData wrote_callbackRenewSubscription
  · exact writes_onData wrote_shown
  · exact writes_onData wrote_callbackSetLanguage

theorem adminPresses_writes : ∀ r ∈ adminPresses, r.Writes fun _ => none := by
  simp only [adminPresses, List.mem_cons, List.not_mem_nil, or_false]
  rintro r (rfl | rfl | rfl | rfl | rfl | rfl | rfl | rfl | rfl)
  · exact writes_onData wrote_page
  · exact writes_onData wrote_page
  · exact writes_onData wrote_callbackAdminApproveOrder
  · exact writes_onData wrote_callbackAdminRejectOrder
  · exact writes_onData wrote_page
  · exact writes_onData wrote_callbackAdminReplyTicket
  · exact writes_onData wrote_callbackAdminCloseTicket
  · exact writes_onData wrote_adminCommand
  · exact writes_onData wrote_callbackAdminToggleServer

theorem pressRoutes_writes : ∀ r ∈ pressRoutes, r.Writes fun _ => none := by
  simp only [pressRoutes, List.mem_append]
  rintro r ((((hr | hr) | hr) | hr) | hr)
  · exact customerPresses_writes r hr
  · obtain rfl := List.mem_singleton.mp hr
    exact writes_onData wrote_support
  · exact adminPresses_writes r hr
  · obtain rfl := List.mem_singleton.mp hr
    exact writes_onData wrote_callbackRetry
  · obtain rfl := List.mem_singleton.mp hr
    rintro c data db db' chat - ⟨⟩

/-- The message in an update. -/
def Content.incoming : Content → Option Incoming
  | .message _ message => some message
  | .press .. => none

/-- Whichever handler an update reaches, it writes what is listed. -/
theorem wrote_route {content : Content} {handler : Context → Database → Result}
    (hroute : route c.settings c.chat content = some handler) (h : handler c db = .ok (db', chat)) :
    Wrote c content.incoming db db' chat := by
  cases content with
  | message _ message =>
    obtain ⟨r, hr, rfl⟩ := Option.map_eq_some_iff.mp hroute
    have haccepts : r.accepts c.settings c.chat message = true := by simpa using List.find?_some hr
    exact messageRoutes_writes r (List.mem_of_find?_eq_some hr) c message db db' chat haccepts h
  | press _ data =>
    obtain ⟨r, hr, rfl⟩ := Option.map_eq_some_iff.mp hroute
    have haccepts : r.accepts c.settings c.chat data = true := by simpa using List.find?_some hr
    exact pressRoutes_writes r (List.mem_of_find?_eq_some hr) c data db db' chat haccepts h

end AmneziaVpnBot.Bot
