import AmneziaVpnBot.Bot.Refines
import AmneziaVpnBot.Lib.Views
import AmneziaVpnBot.Support.Active

/-! Customers among themselves. However many customers write whatever they like, nothing that belongs to somebody else
changes, and of what belongs to nobody only the tables of orders, jobs and tickets grow. -/

namespace AmneziaVpnBot.Bot

variable {settings : BotSettings} {c : Context} {m : Option Support.Incoming} {s t : State}
    {db db' : Database} {chat : Chat}
  {v : TelegramId}

/-! ### What is somebody's -/

/-- The row is the Telegram user's. -/
def Database.isAccount (db : Database) (v : TelegramId) (i : UserId) : Bool :=
  (db.users[i]?).any fun row => row.telegramUserId = v

/-- What the tables hold of a Telegram user, each row under its id. -/
structure Account where
  users : UserId → Option UserRow
  orders : OrderId → Option Order
  subscriptions : SubscriptionId → Option Subscription
  jobs : JobId → Option Job
  tickets : Support.TicketId → Option Support.SupportTicket
  messages : ℕ → Option Support.SupportMessage

/-- The job is about a subscription of the user. -/
def Database.isJobOf (db : Database) (v : TelegramId) (job : Job) : Bool :=
  (db.subscriptions[job.aggregateId]?).any fun sub => db.isAccount v sub.userId

/-- The message is in a ticket of the user. -/
def Database.isMessageOf (db : Database) (v : TelegramId) (message : Support.SupportMessage) : Bool :=
  (db.support.tickets[message.ticketId]?).any fun ticket => db.isAccount v ticket.userId

def Database.account (db : Database) (v : TelegramId) : Account where
  users := db.users.view fun row => row.telegramUserId = v
  orders := db.orders.view fun order => db.isAccount v order.userId
  subscriptions := db.subscriptions.view fun sub => db.isAccount v sub.userId
  jobs := db.jobs.view (db.isJobOf v)
  tickets := db.support.tickets.view fun ticket => db.isAccount v ticket.userId
  messages := db.support.messages.view (db.isMessageOf v)

/-- A change of the tables that somebody else's update can make. -/
structure Aside (v : TelegramId) (db db' : Database) : Prop where
  account : db'.account v = db.account v
  isAccount : db'.isAccount v = db.isAccount v
  servers : db'.servers = db.servers
  products : db'.products = db.products
  subscriptions : db'.subscriptions = db.subscriptions
  jobs : db.jobs <+: db'.jobs
  audit : db'.audit = db.audit
  notifications : db'.notifications = db.notifications
  actions : db'.actions = db.actions

theorem Aside.refl (v : TelegramId) (db : Database) : Aside v db db :=
  ⟨rfl, rfl, rfl, rfl, rfl, List.prefix_rfl, rfl, rfl, rfl⟩

theorem Aside.trans {db'' : Database} (h : Aside v db db') (h' : Aside v db' db'') : Aside v db db'' where
  account := h'.account.trans h.account
  isAccount := h'.isAccount.trans h.isAccount
  servers := h'.servers.trans h.servers
  products := h'.products.trans h.products
  subscriptions := h'.subscriptions.trans h.subscriptions
  jobs := h.jobs.trans h'.jobs
  audit := h'.audit.trans h.audit
  notifications := h'.notifications.trans h.notifications
  actions := h'.actions.trans h.actions

/-! ### One table at a time -/

/-- Rows of the users change that are not the user's. -/
theorem aside_users {users : Table UserRow}
    (hview : users.view (fun row => row.telegramUserId = v) = db.users.view fun row => row.telegramUserId = v) :
    Aside v db { db with users := users } := by
  have haccount : Database.isAccount { db with users := users } v = db.isAccount v := by
    funext i
    have hsome : ∀ t : Table UserRow, ((t[i]?).any fun row => row.telegramUserId = v) =
        (t.view (fun row => row.telegramUserId = v) i).isSome := fun t => by
      unfold Table.view
      cases t[i]? with
      | none => rfl
      | some row => by_cases hv : row.telegramUserId = v <;> simp [hv]
    exact (hsome users).trans ((congrArg (fun f => (f i).isSome) hview).trans (hsome db.users).symm)
  refine ⟨?_, haccount, rfl, rfl, rfl, List.prefix_rfl, rfl, rfl, rfl⟩
  unfold Database.account Database.isJobOf Database.isMessageOf
  simp only [haccount, hview]

theorem aside_orders {orders : Table Order}
    (hview : orders.view (fun order => db.isAccount v order.userId) =
      db.orders.view fun order => db.isAccount v order.userId) :
    Aside v db { db with orders := orders } :=
  ⟨congrArg (fun orders => { db.account v with orders := orders }) hview, rfl, rfl, rfl, rfl,
    List.prefix_rfl, rfl, rfl, rfl⟩

theorem aside_insertJob {job : Job} (h : db.isJobOf v job = false) :
    Aside v db { db with jobs := db.jobs.insert job } :=
  ⟨congrArg (fun jobs => { db.account v with jobs := jobs }) (Table.view_insert h), rfl, rfl, rfl, rfl,
    List.prefix_append .., rfl, rfl, rfl⟩

theorem aside_support {support : Support.Database}
    (htickets : support.tickets.view (fun ticket => db.isAccount v ticket.userId) =
      db.support.tickets.view fun ticket => db.isAccount v ticket.userId)
    (hmessages : support.messages.view (Database.isMessageOf { db with support := support } v) =
      db.support.messages.view (db.isMessageOf v)) : Aside v db { db with support := support } := by
  refine ⟨?_, rfl, rfl, rfl, rfl, List.prefix_rfl, rfl, rfl, rfl⟩
  exact congrArg₂ (fun tickets messages => { db.account v with tickets := tickets, messages := messages })
    htickets hmessages

theorem any_update {α : Type} {t : Table α} {f : α → α} {p : α → Bool} (h : ∀ a, p (f a) = p a) (i j : ℕ) :
    ((t.update i f)[j]?).any p = (t[j]?).any p := by
  rw [Table.get_update]
  split_ifs
  · cases t[j]? with
    | none => rfl
    | some a => exact h a
  · rfl

/-- A message comes into a ticket that is not the user's. -/
theorem aside_addMessage {message : Support.SupportMessage} (h : db.isMessageOf v message = false) :
    Aside v db { db with support := Support.addMessage db.support message } := by
  have hsame : Database.isMessageOf { db with support := Support.addMessage db.support message } v =
    db.isMessageOf v := by
    funext other
    exact any_update (t := db.support.tickets) (f := fun ticket => { ticket with status := message.senderType.waits })
      (p := fun ticket => db.isAccount v ticket.userId) (fun _ => rfl) ..
  refine aside_support (Table.view_update fun ticket hticket => ?_) ?_
  · have hhidden : db.isAccount v ticket.userId = false := by
      rw [Database.isMessageOf, hticket] at h
      exact h
    exact ⟨hhidden, hhidden⟩
  · rw [hsame]
    exact Table.view_insert h

/-- A ticket is opened that is not the user's. -/
theorem aside_createTicket {code : String} {user : UserId} {subject body : String} {sender : TelegramId}
    {fileId mediaType : Option String} {support : Support.Database} (h : db.isAccount v user = false)
    (hticket : Support.createTicket db.support code user subject body sender fileId mediaType = some support) :
    Aside v db { db with support := support } := by
  unfold Support.createTicket at hticket
  rw [ite_eq_iff, or_iff_right (by simp)] at hticket
  obtain ⟨-, hticket⟩ := hticket
  cases hticket
  -- A message to the new ticket is not the user's either, nor was one before there was such a ticket.
  have hsame : ∀ (messages : Table Support.SupportMessage) (message : Support.SupportMessage),
      Database.isMessageOf { db with support :=
        ⟨db.support.tickets.insert ⟨code, user, .waitingForAdmin, some subject, none⟩, messages⟩ } v message =
        db.isMessageOf v message := by
    intro messages message
    unfold Database.isMessageOf
    rw [Table.get_insert]
    split_ifs with hnew
    · rw [hnew, Table.get_fresh]
      exact h
    · rfl
  refine aside_support (Table.view_insert h) ?_
  rw [funext (hsame _)]
  split_ifs
  · refine Table.view_insert ?_
    rw [Database.isMessageOf, Table.get_fresh]
    rfl
  · rfl

/-! ### One update -/

/-- What a handler does for a sender who is no admin, as another user finds it. -/
theorem wrote_aside (hadmin : c.isAdmin = false) (hother : db.isAccount v c.user = false)
    (horder : ∀ id, c.chat.orderId = some id → ∀ order, db.orders[id]? = some order → order.userId = c.user)
    (h : Wrote c m db db' chat) : Aside v db db' := by
  have hnever : ∀ {P : Prop}, c.isAdmin = true → P := fun h => by rw [hadmin] at h; cases h
  cases h with
  | looked => exact .refl v db
  | replying hadmin | replied _ hadmin | closed hadmin | approved hadmin | rejected hadmin | toggled hadmin
  | blocked _ hadmin | extended hadmin | retried hadmin => exact hnever hadmin
  | language lang =>
    refine aside_users (Table.view_update fun row hrow => ?_)
    have hhidden : decide (row.telegramUserId = v) = false := by
      rw [Database.isAccount, hrow] at hother
      exact hother
    exact ⟨hhidden, hhidden⟩
  | bought | renewed => exact aside_orders (Table.view_insert hother)
  | @receipt id order hrow hid receipt hreceipt =>
    refine aside_orders (Table.view_update fun order' horder' => ?_)
    have hhidden : db.isAccount v order'.userId = false := by rwa [horder id hid order' horder']
    exact ⟨hhidden, hhidden⟩
  | @redelivered i sub hsub hown =>
    refine aside_insertJob ?_
    have hjob : db.isJobOf v (newJob .redeliverConfig i none c.now) = db.isAccount v sub.userId :=
      congrArg (Option.any fun sub : Subscription => db.isAccount v sub.userId) hsub
    rw [hjob, hown]
    exact hother
  | @messaged message hmessage hstate i hactive =>
    obtain ⟨ticket, hticket, hown, -⟩ := Support.getActiveTicketForUser_eq hactive
    refine aside_addMessage ?_
    rw [Database.isMessageOf, hticket, Option.any_some, hown]
    exact hother
  | opened _ _ hactive hticket => exact aside_createTicket hother hticket

/-- An update of somebody else, who is no admin. -/
def Stranger (settings : BotSettings) (v : TelegramId) : Step → Prop
  | .update u _ => u.sender.id ≠ v ∧ settings.isAdmin u.sender.id = false
  | _ => False

/-- What a stranger's step leaves of a state: the user's rows and conversations, and whatever is not a table of users,
orders, jobs or tickets. -/
structure LeftAlone (v : TelegramId) (s t : State) : Prop where
  db : Aside v s.db t.db
  chats : ∀ chat, t.chats (chat, v) = s.chats (chat, v)
  system : t.now = s.now ∧ t.peers = s.peers ∧ t.phase = s.phase ∧ t.batch = s.batch

theorem LeftAlone.refl (v : TelegramId) (s : State) : LeftAlone v s s :=
  ⟨.refl v s.db, fun _ => rfl, rfl, rfl, rfl, rfl⟩

theorem LeftAlone.trans {w : State} (h : LeftAlone v s t) (h' : LeftAlone v t w) : LeftAlone v s w where
  db := h.db.trans h'.db
  chats k := (h'.chats k).trans (h.chats k)
  system := ⟨h'.system.1.trans h.system.1, h'.system.2.1.trans h.system.2.1, h'.system.2.2.1.trans h.system.2.2.1,
    h'.system.2.2.2.trans h.system.2.2.2⟩

theorem aside_entered {u : Update} (h : u.sender.id ≠ v) : Aside v s.db (s.entered u) := by
  refine aside_users ?_
  unfold upsertUser
  cases hrow : getByTelegramId s.db.users u.sender.id with
  | some found =>
    obtain ⟨i, row⟩ := found
    obtain ⟨hi, hid⟩ := rowWhere_eq_some hrow
    refine Table.view_update fun row' hrow' => ?_
    obtain rfl := Option.some.inj (hi.symm.trans hrow')
    have hhidden : decide (row.telegramUserId = v) = false := by
      rw [of_decide_eq_true hid]
      exact decide_eq_false h
    exact ⟨hhidden, hhidden⟩
  | none => exact Table.view_insert (decide_eq_false h)

theorem stranger_update {u : Update} {draw : Draw} (hs : Sound s) (hother : u.sender.id ≠ v)
    (hadmin : settings.isAdmin u.sender.id = false) (h : Handled settings s u draw t) : LeftAlone v s t := by
  cases h with
  | untaken => exact .refl v s
  | stopped => exact ⟨aside_entered hother, fun _ => rfl, rfl, rfl, rfl, rfl⟩
  | @through db chat hwelcome hwrote =>
    obtain ⟨row, hrow, hid⟩ := (upsertUser_spec s.db.users u.sender).1
    have hrow' : (s.entered u).users[s.sender u]? = some row := hrow
    have hhidden : (s.entered u).isAccount v (s.sender u) = false := by
      rw [Database.isAccount, hrow', Option.any_some, hid]
      exact decide_eq_false hother
    have hplain : (s.context settings u draw).isAdmin = false := hadmin
    refine ⟨(aside_entered hother).trans ?_, fun k => ?_, rfl, rfl, rfl, rfl⟩
    · exact wrote_aside hplain hhidden (fun id hid order horder => hs.owns hid horder) hwrote
    · refine Function.update_of_ne (fun heq => hother ?_) ..
      rw [← conversation_snd u, ← heq]

theorem stranger_step {x : Step} (hs : Sound s) (hx : Stranger settings v x) (h : step settings s x = some t) :
    LeftAlone v s t := by
  cases stepped h with
  | updated hfits hhandled => exact stranger_update hs hx.1 hx.2 hhandled
  | restarted configured => exact hx.elim
  | ran hbackground hran => exact hx.elim

/-! ### Runs -/

theorem leftAlone_run {as : List Step} (hs : Sound s) (h : Machine.run (step settings) s as = some t)
    (has : ∀ x ∈ as, Stranger settings v x) : LeftAlone v s t := by
  induction as generalizing s with
  | nil =>
    cases h
    exact .refl v _
  | cons x as ih =>
    obtain ⟨u, hu, hrest⟩ := Machine.run_cons_eq_some.mp h
    have hx := stranger_step hs (has x List.mem_cons_self) hu
    have hsound := sound_step hs hu
    exact hx.trans (ih hsound hrest fun y hy => has y (List.mem_cons_of_mem x hy))

/-- From any state the bot can get into, whatever strangers send and press after that, in whatever order and however
often: everything of the user stays as it is, in every column, and so do all conversations of the user, the servers and
the plans, every subscription and every job there is, the audit log and the peers. -/
theorem strangers_run {servers : Table ServerRow} {products : Table ProductRow}
    (hplan : products.any ProductRow.enabled = true) {now : ℤ} {as bs : List Step}
    (hs : Machine.run (step settings) (start servers products now) as = some s)
    (h : Machine.run (step settings) s bs = some t) (hbs : ∀ x ∈ bs, Stranger settings v x) : LeftAlone v s t :=
  leftAlone_run (sound_run hplan hs) h hbs

/-- The buyer of the first sale is left alone by somebody who presses her buttons. -/
theorem strangers_run_small : ∃ s t, smallEnd = some s ∧
    Machine.run (step smallSettings) s
      [press 2000 ("sub_dl_".toList ++ (smallNames 0).text), press 2000 "plan_nl-1_vpn-1m".toList,
        press 2000 ("adm_rej_".toList ++ (smallNames 0).text)] = some t ∧ LeftAlone 1000 s t := by
  have hsome : (smallEnd.bind fun s => Machine.run (step smallSettings) s
      [press 2000 ("sub_dl_".toList ++ (smallNames 0).text), press 2000 "plan_nl-1_vpn-1m".toList,
        press 2000 ("adm_rej_".toList ++ (smallNames 0).text)]).isSome = true := by decide +kernel
  obtain ⟨t, ht⟩ := Option.isSome_iff_exists.mp hsome
  obtain ⟨s, hs, ht⟩ := Option.bind_eq_some_iff.mp ht
  refine ⟨s, t, hs, ht, strangers_run rfl hs ht ?_⟩
  simp only [List.mem_cons, List.not_mem_nil, or_false, forall_eq_or_imp, forall_eq]
  exact ⟨⟨by decide, rfl⟩, ⟨by decide, rfl⟩, ⟨by decide, rfl⟩⟩

end AmneziaVpnBot.Bot
