import AmneziaVpnBot.Bot.Refines
import AmneziaVpnBot.Lib.Unwinding
import AmneziaVpnBot.Support.Active

/-! Blocked users. The middleware writes down the names an update comes with, and drops the update. Nothing else reads
or writes the names, so a run may as well be taken without what a blocked user sends. -/

namespace AmneziaVpnBot.Bot

variable {settings : BotSettings} {c : Context} {s t : State} {db db' : Database} {chat : Chat} {v : TelegramId}

/-! ### Names -/

/-- The row without the user's names. -/
def UserRow.unnamed (v : TelegramId) (row : UserRow) : UserRow :=
  if row.telegramUserId = v then { row with username := none, firstName := none, lastName := none } else row

def Database.unnamed (v : TelegramId) (db : Database) : Database :=
  { db with users := db.users.map (UserRow.unnamed v) }

def State.unnamed (v : TelegramId) (s : State) : State := { s with db := s.db.unnamed v }

theorem unnamed_toUser (v : TelegramId) (row : UserRow) : (row.unnamed v).toUser = row.toUser := by
  unfold UserRow.unnamed
  split_ifs <;> rfl

theorem unnamed_isBlocked (v : TelegramId) (row : UserRow) : (row.unnamed v).isBlocked = row.isBlocked := by
  unfold UserRow.unnamed
  split_ifs <;> rfl

theorem unnamed_of_ne {row : UserRow} (h : row.telegramUserId ≠ v) : row.unnamed v = row := if_neg h

theorem unnamed_rename {sender : Sender} {row : UserRow} (hrow : row.telegramUserId = sender.id) (h : sender.id = v) :
    (row.rename sender).unnamed v = row.unnamed v := by
  have hv : row.telegramUserId = v := hrow.trans h
  have hrenamed : (row.rename sender).telegramUserId = v := hv
  unfold UserRow.unnamed
  rw [if_pos hv, if_pos hrenamed]
  rfl

theorem update_map {α β : Type} {t : Table α} {g : α → β} {f : α → α} {f' : β → β} {i : ℕ}
    (h : ∀ a, t[i]? = some a → f' (g a) = g (f a)) :
    Table.update (t.map g) i f' = (t.update i f).map g := by
  apply List.ext_getElem?
  intro j
  rw [Table.get_update, List.getElem?_map, List.getElem?_map, Table.get_update]
  split_ifs with hij
  · subst hij
    cases hrow : t[i]? with
    | none => rfl
    | some a => exact congrArg some (h a hrow)
  · rfl

theorem rowWhere_map {α : Type} {t : Table α} {g : α → α} {p : α → Bool} (h : ∀ a, p (g a) = p a) :
    rowWhere (t.map g) p = (rowWhere t p).map (Prod.map id g) := by
  have hp : p ∘ g = p := funext h
  unfold rowWhere
  rw [List.findIdx?_map, hp]
  cases t.findIdx? p with
  | none => rfl
  | some i =>
    rw [Option.bind_some, Option.bind_some, List.getElem?_map]
    cases t[i]? <;> rfl

theorem getByTelegramId_unnamed (users : Table UserRow) (tg : TelegramId) :
    getByTelegramId (users.map (UserRow.unnamed v)) tg =
      (getByTelegramId users tg).map (Prod.map id (UserRow.unnamed v)) := by
  apply rowWhere_map
  intro row
  rw [unnamed_toUser]

theorem unnamed_servers : (db.unnamed v).servers = db.servers := rfl
theorem unnamed_products : (db.unnamed v).products = db.products := rfl
theorem unnamed_subscriptions : (db.unnamed v).subscriptions = db.subscriptions := rfl

theorem core_unnamed (db : Database) : (db.unnamed v).core = db.core := by
  have hsame : UserRow.toUser ∘ UserRow.unnamed v = UserRow.toUser := funext (unnamed_toUser v)
  rw [Database.core, Database.unnamed, List.map_map, hsame]
  rfl

/-! ### Handlers -/

/-- The handler neither reads the user's names nor writes them. -/
def Blind (v : TelegramId) (f : Database → Result) : Prop :=
  ∀ db, f (db.unnamed v) = (f db).map (Prod.map (Database.unnamed v) id)

theorem blind_pure (chat : Chat) : Blind v fun db => .ok (db, chat) := fun _ => rfl

theorem blind_forAdmin {f : Database → Result} (h : Blind v f) : Blind v fun db => c.forAdmin (f db) := by
  intro db
  unfold Context.forAdmin
  split_ifs
  · exact h db
  · rfl

theorem blind_fromAdmin {f : Database → Result} (h : Blind v f) : Blind v fun db => c.fromAdmin (f db) := by
  intro db
  unfold Context.fromAdmin
  split_ifs
  · exact h db
  · rfl

theorem ownSubscription_unnamed (db : Database) (id : Uuid) :
    c.ownSubscription (db.unnamed v) id = c.ownSubscription db id := rfl

theorem blind_callbackSelectServer (data : Text) : Blind v (callbackSelectServer c data) := by
  intro db
  unfold callbackSelectServer Database.unnamed
  split
  · rfl
  · dsimp only
    split
    · rfl
    · split_ifs <;> rfl

theorem blind_callbackViewSubscription (data : Text) : Blind v (callbackViewSubscription c data) := by
  intro db
  unfold callbackViewSubscription
  split
  · rfl
  next id _ =>
    rw [ownSubscription_unnamed]
    cases c.ownSubscription db id <;> rfl

theorem blind_callbackRenewSubscription (data : Text) : Blind v (callbackRenewSubscription c data) := by
  intro db
  unfold callbackRenewSubscription
  split
  · rfl
  next id _ =>
    rw [ownSubscription_unnamed]
    cases c.ownSubscription db id with
    | error => rfl
    | ok found =>
      simp only [bind, Except.bind]
      rw [unnamed_servers]
      split_ifs <;> rfl

theorem blind_startOrder (server : ServerId) (product : ProductId) (renews : Option SubscriptionId) :
    Blind v fun db => startOrder c db server product renews := by
  intro db
  dsimp only [startOrder]
  rw [core_unnamed]
  split_ifs <;> rfl

theorem blind_callbackSelectPlan (data : Text) : Blind v (callbackSelectPlan c data) := by
  intro db
  unfold callbackSelectPlan
  split
  · rfl
  next slug code _ =>
    rw [unnamed_servers, unnamed_products, unnamed_subscriptions]
    split
    · split_ifs
      · rfl
      · rfl
      · exact blind_startOrder _ _ _ db
    · rfl

theorem blind_callbackSelectRenewalPlan (data : Text) : Blind v (callbackSelectRenewalPlan c data) := by
  intro db
  unfold callbackSelectRenewalPlan
  split
  · rfl
  next id code _ =>
    rw [ownSubscription_unnamed]
    cases c.ownSubscription db id with
    | error => rfl
    | ok found =>
      simp only [bind, Except.bind]
      rw [unnamed_servers, unnamed_products, unnamed_subscriptions]
      split
      · split_ifs
        · rfl
        · exact blind_startOrder _ _ _ db
        · rfl
        · rfl
        · exact blind_startOrder _ _ _ db
      · rfl

theorem blind_callbackSetLanguage (data : Text) : Blind v (callbackSetLanguage c data) := by
  intro db
  have husers : ∀ lang : String, Table.update (db.users.map (UserRow.unnamed v)) c.user
      (fun row => { row with languageCode := lang }) =
      (db.users.update c.user fun row => { row with languageCode := lang }).map (UserRow.unnamed v) := by
    refine fun lang => update_map fun row _ => ?_
    unfold UserRow.unnamed
    split_ifs <;> rfl
  unfold callbackSetLanguage Database.unnamed
  dsimp only
  rw [husers]
  rfl

theorem blind_handleReceiptUpload (message : Support.Incoming) : Blind v (handleReceiptUpload c message) := by
  intro db
  unfold handleReceiptUpload Database.unnamed
  dsimp only
  split
  · rfl
  · split <;> rfl

theorem blind_callbackRedeliverSubscription (data : Text) : Blind v (callbackRedeliverSubscription c data) := by
  intro db
  unfold callbackRedeliverSubscription
  split
  · rfl
  next id _ =>
    rw [ownSubscription_unnamed]
    cases c.ownSubscription db id with
    | error => rfl
    | ok found =>
      simp only [bind, Except.bind]
      split_ifs <;> rfl

theorem blind_handleSupportMessage (message : Support.Incoming) : Blind v (handleSupportMessage c message) := by
  intro db
  unfold handleSupportMessage Database.unnamed
  dsimp only
  split
  · rfl
  · rfl
  · split <;> rfl

/-! ### Admins -/

theorem blind_callbackAdminApproveOrder (data : Text) : Blind v (callbackAdminApproveOrder c data) := by
  refine blind_forAdmin fun db => ?_
  rw [core_unnamed]
  split
  · rfl
  · dsimp only [Database.unnamed]
    split <;> rfl

theorem blind_callbackAdminRejectOrder (data : Text) : Blind v (callbackAdminRejectOrder c data) := by
  refine blind_forAdmin fun db => ?_
  rw [core_unnamed]
  split
  · rfl
  · dsimp only [Database.unnamed]
    split <;> rfl

theorem blind_callbackAdminReplyTicket (data : Text) : Blind v (callbackAdminReplyTicket c data) := by
  refine blind_forAdmin fun db => ?_
  split
  · rfl
  · dsimp only [Database.unnamed]
    split <;> rfl

theorem blind_handleAdminTicketReply (message : Support.Incoming) : Blind v (handleAdminTicketReply c message) := by
  refine blind_fromAdmin fun db => ?_
  dsimp only [Database.unnamed]
  split <;> rfl

theorem blind_callbackAdminCloseTicket (data : Text) : Blind v (callbackAdminCloseTicket c data) := by
  refine blind_forAdmin fun db => ?_
  split
  · rfl
  · dsimp only [Database.unnamed]
    split <;> rfl

theorem blind_callbackAdminToggleServer (data : Text) : Blind v (callbackAdminToggleServer c data) := by
  refine blind_forAdmin fun db => ?_
  split
  · rfl
  · dsimp only [Database.unnamed]
    split
    · rfl
    · split_ifs <;> rfl

theorem blind_setBlocked (blocked : Bool) (message : Support.Incoming) : Blind v (setBlocked blocked c message) := by
  refine blind_fromAdmin fun db => ?_
  have htarget : targetUser message (db.unnamed v).users =
      (targetUser message db.users).map (Prod.map id (UserRow.unnamed v)) := by
    unfold targetUser
    cases (words (message.text.getD "").toList)[1]?.bind readCount with
    | none => rfl
    | some tg => exact getByTelegramId_unnamed db.users tg
  have husers : ∀ i : UserId,
      Table.update (db.users.map (UserRow.unnamed v)) i (fun row => { row with isBlocked := blocked }) =
      (db.users.update i fun row => { row with isBlocked := blocked }).map (UserRow.unnamed v) := by
    refine fun i => update_map fun row _ => ?_
    unfold UserRow.unnamed
    split_ifs <;> rfl
  rw [htarget]
  cases targetUser message db.users with
  | none => rfl
  | some found =>
    dsimp only [Option.map_some, Prod.map, Database.unnamed]
    rw [husers]
    rfl

theorem blind_cmdAdminExtend (message : Support.Incoming) : Blind v (cmdAdminExtend c message) := by
  refine blind_fromAdmin fun db => ?_
  rw [core_unnamed]
  split
  · dsimp only [Database.unnamed]
    split
    · split <;> rfl
    · rfl
  · rfl

theorem blind_callbackRetry (data : Text) : Blind v (callbackRetry c data) := by
  refine blind_forAdmin fun db => ?_
  rw [core_unnamed]
  rfl

/-! ### Routes -/

theorem messageRoutes_blind (message : Support.Incoming) : ∀ r ∈ messageRoutes, Blind v (r.handler c message) := by
  simp only [messageRoutes, customerMessages, supportMessages, adminMessages, adminJobsMessages, List.mem_append,
    List.mem_cons, List.not_mem_nil, or_false]
  rintro r (((hr | hr) | hr) | hr)
  · rcases hr with rfl | rfl | rfl | rfl | rfl
    · exact blind_pure _
    · exact blind_pure _
    · exact blind_handleReceiptUpload message
    · exact blind_pure _
    · exact blind_pure _
  · rcases hr with rfl | rfl
    · exact blind_pure _
    · exact blind_handleSupportMessage message
  · rcases hr with rfl | rfl | rfl | rfl | rfl | rfl | rfl | rfl
    · exact blind_fromAdmin (blind_pure _)
    · exact blind_handleAdminTicketReply message
    · exact blind_fromAdmin (blind_pure _)
    · exact blind_fromAdmin (blind_pure _)
    · exact blind_fromAdmin (blind_pure _)
    · exact blind_cmdAdminExtend message
    · exact blind_setBlocked true message
    · exact blind_setBlocked false message
  · rcases hr with rfl | rfl
    · exact blind_fromAdmin (blind_pure _)
    · exact blind_fromAdmin (blind_pure _)

theorem customerPresses_blind (data : Option Text) : ∀ r ∈ customerPresses, Blind v (r.handler c data) := by
  simp only [customerPresses, List.mem_cons, List.not_mem_nil, or_false]
  rintro r (rfl | rfl | rfl | rfl | rfl | rfl | rfl | rfl | rfl | rfl | rfl | rfl | rfl)
  · exact blind_pure _
  · exact blind_pure _
  · exact blind_callbackSelectServer _
  · exact blind_callbackSelectPlan _
  · exact blind_callbackSelectRenewalPlan _
  · exact blind_pure _
  · exact blind_pure _
  · exact blind_callbackViewSubscription _
  · exact blind_callbackRedeliverSubscription _
  · exact blind_callbackRedeliverSubscription _
  · exact blind_callbackRenewSubscription _
  · exact blind_pure _
  · exact blind_callbackSetLanguage _

theorem adminPresses_blind (data : Option Text) : ∀ r ∈ adminPresses, Blind v (r.handler c data) := by
  simp only [adminPresses, List.mem_cons, List.not_mem_nil, or_false]
  rintro r (rfl | rfl | rfl | rfl | rfl | rfl | rfl | rfl | rfl)
  · exact blind_forAdmin (blind_pure _)
  · exact blind_forAdmin (blind_pure _)
  · exact blind_callbackAdminApproveOrder _
  · exact blind_callbackAdminRejectOrder _
  · exact blind_forAdmin (blind_pure _)
  · exact blind_callbackAdminReplyTicket _
  · exact blind_callbackAdminCloseTicket _
  · exact blind_fromAdmin (blind_pure _)
  · exact blind_callbackAdminToggleServer _

theorem pressRoutes_blind (data : Option Text) : ∀ r ∈ pressRoutes, Blind v (r.handler c data) := by
  simp only [pressRoutes, List.mem_append]
  rintro r ((((hr | hr) | hr) | hr) | hr)
  · exact customerPresses_blind data r hr
  · obtain rfl := List.mem_singleton.mp hr
    exact blind_pure _
  · exact adminPresses_blind data r hr
  · obtain rfl := List.mem_singleton.mp hr
    exact blind_callbackRetry _
  · obtain rfl := List.mem_singleton.mp hr
    exact fun _ => rfl

theorem route_blind {content : Content} {handler : Context → Database → Result}
    (h : route settings chat content = some handler) : Blind v (handler c) := by
  cases content with
  | message _ message =>
    obtain ⟨r, hr, rfl⟩ := Option.map_eq_some_iff.mp h
    exact messageRoutes_blind message r (List.mem_of_find?_eq_some hr)
  | press _ data =>
    obtain ⟨r, hr, rfl⟩ := Option.map_eq_some_iff.mp h
    exact pressRoutes_blind data r (List.mem_of_find?_eq_some hr)

/-! ### Steps -/

/-- The middleware writes down the same for everybody else. -/
theorem upsertUser_unnamed (users : Table UserRow) {sender : Sender} (h : sender.id ≠ v) :
    upsertUser (users.map (UserRow.unnamed v)) sender =
      ((upsertUser users sender).1.map (UserRow.unnamed v), (upsertUser users sender).2) := by
  unfold upsertUser
  rw [getByTelegramId_unnamed]
  cases hrow : getByTelegramId users sender.id with
  | some found =>
    obtain ⟨hi, hid⟩ := rowWhere_eq_some hrow
    refine Prod.ext (update_map fun row hrow' => ?_) rfl
    obtain rfl := Option.some.inj (hi.symm.trans hrow')
    have hne : found.2.telegramUserId ≠ v := fun heq => h ((of_decide_eq_true hid).symm.trans heq)
    have hne' : (found.2.rename sender).telegramUserId ≠ v := hne
    rw [unnamed_of_ne hne, unnamed_of_ne hne']
  | none =>
    have hnew : sender.newRow.unnamed v = sender.newRow := unnamed_of_ne h
    refine Prod.ext ?_ (List.length_map ..)
    rw [map_insert, hnew]
    rfl

theorem handleUpdate_unnamed {u : Update} (h : u.sender.id ≠ v) (draw : Draw) :
    handleUpdate settings (s.unnamed v) u draw = (handleUpdate settings s u draw).unnamed v := by
  have husers := upsertUser_unnamed s.db.users h
  have hentered : (s.unnamed v).entered u = (s.entered u).unnamed v :=
    congrArg (fun users => ({ s.db with users := users } : Database)) (congrArg Prod.fst husers)
  have hsender : (s.unnamed v).sender u = s.sender u := (congrArg Prod.snd husers).trans rfl
  have hcontext : (s.unnamed v).context settings u draw = s.context settings u draw := by
    unfold State.context
    rw [hsender]
    rfl
  have hblocked : (((s.entered u).unnamed v).users[s.sender u]?).any UserRow.isBlocked =
      ((s.entered u).users[s.sender u]?).any UserRow.isBlocked := by
    rw [Database.unnamed, List.getElem?_map]
    cases (s.entered u).users[s.sender u]? with
    | none => rfl
    | some row => exact unnamed_isBlocked v row
  unfold handleUpdate
  rw [hentered, hsender, hcontext, hblocked]
  have hchats : (s.unnamed v).chats = s.chats := rfl
  rw [hchats]
  split
  · rfl
  next handler hroute =>
    rw [route_blind hroute]
    split_ifs
    · rfl
    · cases handler (s.context settings u draw) (s.entered u) <;> rfl

/-- The step is an update of the user. -/
def isFrom (v : TelegramId) : Step → Bool
  | .update u _ => u.sender.id = v
  | _ => false

theorem step_unnamed {x : Step} (h : isFrom v x = false) :
    step settings (s.unnamed v) x = (step settings s x).map (State.unnamed v) := by
  cases x with
  | update u draw =>
    have hne : u.sender.id ≠ v := of_decide_eq_false h
    have hjobs : (s.unnamed v).db.jobs = s.db.jobs := rfl
    simp only [step, hjobs, handleUpdate_unnamed hne]
    split_ifs <;> rfl
  | restart configured => rfl
  | system a =>
    have hsystem : (s.unnamed v).system = s.system := by
      unfold State.system
      rw [State.unnamed, core_unnamed]
    simp only [step, hsystem]
    split_ifs
    · cases Lifecycle.step settings.toSettings s.system a <;> rfl
    · rfl

/-! ### Blocked -/

/-- The user is there, and blocked. -/
def Barred (v : TelegramId) (users : Table UserRow) : Prop :=
  ∃ (i : UserId) (row : UserRow), users[i]? = some row ∧ row.telegramUserId = v ∧ row.isBlocked = true

/-- An admin's `/unblock` with the user's id. -/
def Unblocks (settings : BotSettings) (v : TelegramId) : Step → Prop
  | .update u _ => settings.isAdmin u.sender.id = true ∧ ∃ message, u.content.incoming = some message ∧
    commandOf settings message = some "unblock".toList ∧
    (words (message.text.getD "").toList)[1]?.bind readCount = some v
  | _ => False

theorem Distinct.row_eq {users : Table UserRow} (h : Distinct users) {i j : UserId} {a b : UserRow}
    (ha : users[i]? = some a) (hb : users[j]? = some b) (heq : a.telegramUserId = b.telegramUserId) : i = j := by
  refine h.eq (a := a.toUser) (b := b.toUser) ?_ ?_ heq
  · rw [List.getElem?_map, ha]
    rfl
  · rw [List.getElem?_map, hb]
    rfl

theorem Barred.get {users : Table UserRow} (h : Barred v users) (hdistinct : Distinct users) :
    ∃ i row, getByTelegramId users v = some (i, row) ∧ row.isBlocked = true := by
  obtain ⟨i, row, hrow, hid, hblocked⟩ := h
  cases hget : getByTelegramId users v with
  | none =>
    have hnone := rowWhere_eq_none hget row (List.mem_of_getElem? hrow)
    exact absurd hid (of_decide_eq_false hnone)
  | some found =>
    obtain ⟨hi, hid'⟩ := rowWhere_eq_some hget
    obtain rfl := hdistinct.row_eq hrow hi (hid.trans (of_decide_eq_true hid').symm)
    obtain rfl := Option.some.inj (hrow.symm.trans hi)
    exact ⟨_, _, rfl, hblocked⟩

/-- Rows are changed, and the user's stays blocked. -/
theorem Barred.update {users : Table UserRow} (h : Barred v users) {i : UserId} {f : UserRow → UserRow}
    (hf : ∀ row, users[i]? = some row → (f row).telegramUserId = row.telegramUserId ∧
      (row.telegramUserId = v → row.isBlocked = true → (f row).isBlocked = true)) : Barred v (users.update i f) := by
  obtain ⟨j, row, hrow, hid, hblocked⟩ := h
  by_cases hij : i = j
  · subst hij
    obtain ⟨hsame, hstays⟩ := hf row hrow
    exact ⟨i, f row, by rw [Table.get_update_self, hrow]; rfl, hsame.trans hid, hstays hid hblocked⟩
  · exact ⟨j, row, by rw [Table.get_update_of_ne _ _ hij, hrow], hid, hblocked⟩

theorem Barred.upsert {users : Table UserRow} (h : Barred v users) (sender : Sender) :
    Barred v (upsertUser users sender).1 := by
  unfold upsertUser
  cases getByTelegramId users sender.id with
  | some found => exact h.update fun row _ => ⟨rfl, fun _ hblocked => hblocked⟩
  | none =>
    obtain ⟨i, row, hrow, hid, hblocked⟩ := h
    exact ⟨i, row, Table.get_insert_of_some _ hrow, hid, hblocked⟩

theorem wrote_barred {m : Option Support.Incoming} (h : Wrote c m db db' chat) (hbarred : Barred v db.users)
    (hkept : ¬ ∃ message, m = some message ∧ c.isAdmin = true ∧ commandOf c.settings message = some "unblock".toList ∧
      (words (message.text.getD "").toList)[1]?.bind readCount = some v) : Barred v db'.users := by
  cases h with
  | language lang => exact hbarred.update fun row _ => ⟨rfl, fun _ hblocked => hblocked⟩
  | @blocked message hmessage hadmin blocked hcommand i row htarget =>
    refine hbarred.update fun row' hrow' => ⟨rfl, fun hid _ => ?_⟩
    cases blocked with
    | true => rfl
    | false =>
      obtain ⟨tg, htg, hget⟩ := Option.bind_eq_some_iff.mp htarget
      obtain ⟨hi, hid'⟩ := rowWhere_eq_some hget
      obtain rfl := Option.some.inj (hi.symm.trans hrow')
      have hv : tg = v := (of_decide_eq_true hid').symm.trans hid
      exact absurd ⟨message, hmessage, hadmin, hcommand, htg.trans (congrArg some hv)⟩ hkept
  | _ => exact hbarred

/-- The user stays blocked until an admin unblocks the user. -/
theorem barred_step {x : Step} (hbarred : Barred v s.db.users) (hx : ¬ Unblocks settings v x)
    (h : step settings s x = some t) : Barred v t.db.users := by
  cases stepped h with
  | @updated u draw t hfits hhandled =>
    cases hhandled with
    | untaken => exact hbarred
    | stopped => exact hbarred.upsert u.sender
    | through hwelcome hwrote =>
      refine wrote_barred hwrote (hbarred.upsert u.sender) ?_
      rintro ⟨message, hmessage, hadmin, hcommand, htarget⟩
      exact hx ⟨hadmin, message, hmessage, hcommand, htarget⟩
  | restarted configured => exact hbarred
  | ran hbackground hran => exact hbarred

/-- What a blocked user sends leaves nothing but the names. -/
theorem barred_update {x : Step} (hs : Sound s) (hbarred : Barred v s.db.users) (hx : isFrom v x = true)
    (h : step settings s x = some t) : t.unnamed v = s.unnamed v := by
  cases stepped h with
  | @updated u draw t hfits hhandled =>
    have hid : u.sender.id = v := of_decide_eq_true hx
    obtain ⟨i, row, hget, hblocked⟩ := hbarred.get hs.distinct
    obtain ⟨hi, hrow⟩ := rowWhere_eq_some hget
    have hupsert : upsertUser s.db.users u.sender = (s.db.users.update i (UserRow.rename u.sender), i) := by
      rw [upsertUser, hid, hget]
    have hentered : (s.entered u).unnamed v = s.db.unnamed v := by
      have hsame : Table.update (s.db.users.map (UserRow.unnamed v)) i (fun row => row) =
          (s.db.users.update i (UserRow.rename u.sender)).map (UserRow.unnamed v) := by
        apply update_map
        intro row' hrow'
        obtain rfl := Option.some.inj (hi.symm.trans hrow')
        exact (unnamed_rename ((of_decide_eq_true hrow).trans hid.symm) hid).symm
      unfold State.entered Database.unnamed
      rw [hupsert, ← hsame, Table.update_id]
    have hstopped : ((s.entered u).users[s.sender u]?).any UserRow.isBlocked = true := by
      rw [State.entered, State.sender, hupsert, Table.get_update_self, hi]
      exact hblocked
    cases hhandled with
    | untaken => rfl
    | stopped => exact congrArg (fun db => { s with db := db }) hentered
    | through hwelcome hwrote => exact absurd (hstopped.symm.trans hwelcome) Bool.true_eq_false.mp
  | restarted configured => cases hx
  | ran hbackground hran => cases hx

/-! ### Runs -/

theorem unwinds (settings : BotSettings) (v : TelegramId) :
    Machine.Unwinds (step settings) (fun s => Sound s ∧ Barred v s.db.users)
      (fun x => ¬ Unblocks settings v x) (isFrom v)
      (State.unnamed v) where
  keeps _ _ _ hs hx hstep := ⟨sound_step hs.1 hstep, barred_step hs.2 hx hstep⟩
  leaves _ _ _ hs hx hstep := barred_update hs.1 hs.2 hx hstep
  agrees s s' x t hx hseen hstep := by
    have hsame : (step settings s x).map (State.unnamed v) = (step settings s' x).map (State.unnamed v) := by
      rw [← step_unnamed hx, ← step_unnamed hx, hseen]
    rw [hstep, Option.map_some] at hsame
    obtain ⟨t', ht', heq⟩ := Option.map_eq_some_iff.mp hsame.symm
    exact ⟨t', ht', heq.symm⟩

/-- From any state the bot can get into in which the user is blocked, until an admin unblocks the user: the user stays
blocked, and had the user sent nothing at all, the same steps of everybody else would be possible and end in the same
state, but for the user's names. -/
theorem blocked_run {servers : Table ServerRow} {products : Table ProductRow}
    (hplan : products.any ProductRow.enabled = true) {now : ℤ} {as bs : List Step}
    (hs : Machine.run (step settings) (start servers products now) as = some s) (hbarred : Barred v s.db.users)
    (h : Machine.run (step settings) s bs = some t) (hbs : ∀ x ∈ bs, ¬ Unblocks settings v x) :
    Barred v t.db.users ∧ ∃ t', Machine.run (step settings) s (bs.filter fun x => !isFrom v x) = some t' ∧
      t.unnamed v = t'.unnamed v := by
  obtain ⟨hend, hrun⟩ := (unwinds settings v).run ⟨sound_run hplan hs, hbarred⟩ hbs rfl h
  exact ⟨hend.2, hrun⟩

section Small

/-- A customer is there, and blocked. -/
def smallBlock : List Step := [press 1000 "menu_buy".toList, sent 9 (Support.textMessage "/block 1000")]

/-- The customer goes on, somebody else buys, and an admin unblocks nobody. -/
def afterBlock : List Step :=
  [press 1000 "plan_nl-1_vpn-1m".toList, press 2000 "plan_nl-1_vpn-1m".toList, press 1000 "menu_support".toList,
    sent 9 (Support.textMessage "/unblock 2000")]

theorem blocked_run_small : ∃ s t, Machine.run (step smallSettings) smallStart smallBlock = some s ∧
    Machine.run (step smallSettings) s afterBlock = some t ∧ Barred 1000 t.db.users ∧
    ∃ t', Machine.run (step smallSettings) s (afterBlock.filter fun x => !isFrom 1000 x) = some t' ∧
      t.unnamed 1000 = t'.unnamed 1000 := by
  have hsome : (Machine.run (step smallSettings) smallStart smallBlock).any (fun s =>
      ((s.db.users[0]?).any fun row => row.telegramUserId = 1000 && row.isBlocked) &&
        (Machine.run (step smallSettings) s afterBlock).isSome) = true := by decide +kernel
  obtain ⟨s, hs, hcheck⟩ := Machine.exists_of_any hsome
  rw [Bool.and_eq_true, Option.any_eq_true] at hcheck
  obtain ⟨⟨row, hrow, hbarred⟩, hafter⟩ := hcheck
  simp only [Bool.and_eq_true, decide_eq_true_eq] at hbarred
  obtain ⟨t, ht⟩ := Option.isSome_iff_exists.mp hafter
  have hkept : ∀ x ∈ afterBlock, ¬ Unblocks smallSettings 1000 x := by
    simp only [afterBlock, List.mem_cons, List.not_mem_nil, or_false, forall_eq_or_imp, forall_eq]
    refine ⟨?_, ?_, ?_, ?_⟩
    · rintro ⟨-, message, ⟨⟩, -⟩
    · rintro ⟨-, message, ⟨⟩, -⟩
    · rintro ⟨-, message, ⟨⟩, -⟩
    · rintro ⟨-, message, ⟨⟩, -, htarget⟩
      revert htarget
      decide +kernel
  exact ⟨s, t, hs, ht, blocked_run rfl hs ⟨0, row, hrow, hbarred.1, hbarred.2⟩ ht hkept⟩

end Small

end AmneziaVpnBot.Bot
