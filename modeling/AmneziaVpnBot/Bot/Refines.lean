import AmneziaVpnBot.Bot.Account
import AmneziaVpnBot.Lib.Simulation

/-! What an update can make the shop do. Whatever is typed and whatever comes back behind a button, a run of the bot is
a run of the lifecycle, and of the steps of the lifecycle an update only ever takes those that its sender may ask for:
customers buy what is offered and deal with what is theirs, and admins do the rest. -/

namespace AmneziaVpnBot.Bot

open AmneziaVpnBot.Database (Grows Known)

variable {settings : BotSettings} {c : Context} {m : Option Support.Incoming} {s t : State}
    {db db' : Database} {chat : Chat}

/-- The steps of the lifecycle that a handler may take for the sender, who may have sent the message `m`. -/
def MayAsk (c : Context) (m : Option Support.Incoming) (db : Database) : Lifecycle.Step → Prop
  | .startOrder user server product =>
    user = c.user ∧ db.offers server = true ∧ (db.products[product]?).any ProductRow.enabled = true
  | .startRenewal user i product => user = c.user ∧ (db.products[product]?).any ProductRow.enabled = true ∧
    ∃ sub, db.subscriptions[i]? = some sub ∧ sub.userId = c.user ∧
    (sub.hasPeer = true ∨ db.offers sub.vpnServerId = true)
  | .submitReceipt id receipt => m.bind (receiptOf c.conversation) = some receipt ∧
    ∃ order, db.orders[id]? = some order ∧ order.userId = c.user
  | .redeliver i user => user = c.user ∧ ∃ sub, db.subscriptions[i]? = some sub ∧ sub.userId = c.user ∧
    sub.configRedeliveryCount < c.settings.configRedeliveryLimit
  | .approve _ admin _ | .reject _ admin | .extend _ _ admin | .retry _ admin => c.isAdmin = true ∧ admin = c.sender.id
  | _ => False

/-! ### One handler -/

theorem core_withCore {core : AmneziaVpnBot.Database} (h : Grows db.core core) : (db.withCore core).core = core := by
  have husers : db.users.map UserRow.toUser = core.users := h.users.symm
  have hservers : db.servers.map ServerRow.toVpnServer = core.servers := h.servers.symm
  have hproducts : db.products.map ProductRow.toProduct = core.products := h.products.symm
  rw [Database.withCore, Database.core]
  simp only [husers, hservers, hproducts]

/-- What a handler does that takes the steps `acts` of the lifecycle. -/
def Takes (c : Context) (db db' : Database) (acts : List Lifecycle.Step) : Prop :=
  ∀ peers phase batch session, Machine.run (Lifecycle.step c.settings.toSettings)
    ⟨c.now, db.core, peers, phase, batch, session⟩ acts =
    some ⟨c.now, db'.core, peers, phase, batch, session⟩

theorem takes_nil (h : db'.core = db.core) : Takes c db db' [] := fun _ _ _ _ => by
  rw [Machine.run_nil, h]

theorem takes_one {a : Lifecycle.Step} {core : AmneziaVpnBot.Database} (hcore : db'.core = core)
    (h : ∀ peers phase batch session,
      Lifecycle.step c.settings.toSettings ⟨c.now, db.core, peers, phase, batch, session⟩ a =
      some ⟨c.now, core, peers, phase, batch, session⟩) : Takes c db db' [a] := by
  intro peers phase batch session
  rw [Machine.run_cons, h, hcore]
  rfl

theorem callbackRetry_takes (ids : List JobId) (core : AmneziaVpnBot.Database) (admin : TelegramId) (now : ℤ)
    (settings : Settings) : ∃ acts : List Lifecycle.Step, (∀ a ∈ acts, ∃ id, a = .retry id admin) ∧
      ∀ peers phase batch session, Machine.run (Lifecycle.step settings)
        ⟨now, core, peers, phase, batch, session⟩ acts =
        some ⟨now, AmneziaVpnBot.callbackRetry core ids admin now, peers, phase, batch, session⟩ := by
  induction ids generalizing core with
  | nil => exact ⟨[], by simp, fun _ _ _ _ => rfl⟩
  | cons id ids ih =>
    obtain ⟨acts, hacts, hrun⟩ := ih ((adminRetry core id admin now).getD core)
    cases hretry : adminRetry core id admin now with
    | none =>
      rw [hretry, Option.getD_none] at hrun
      refine ⟨acts, hacts, fun peers phase batch session => ?_⟩
      rw [hrun, AmneziaVpnBot.callbackRetry, AmneziaVpnBot.callbackRetry, List.foldl_cons, hretry, Option.getD_none]
    | some core' =>
      rw [hretry, Option.getD_some] at hrun
      refine ⟨.retry id admin :: acts, ?_, fun peers phase batch session => ?_⟩
      · intro a ha
        exact (List.mem_cons.mp ha).elim (fun ha => ⟨id, ha⟩) (hacts a)
      · have hstep : Lifecycle.step settings ⟨now, core, peers, phase, batch, session⟩ (.retry id admin) =
            some ⟨now, core', peers, phase, batch, session⟩ := congrArg (Option.map _) hretry
        rw [Machine.run_cons, hstep, Option.bind_some, hrun, AmneziaVpnBot.callbackRetry, AmneziaVpnBot.callbackRetry,
          List.foldl_cons, hretry, Option.getD_some]

theorem isSome_core {α β : Type} {t : Table α} {g : α → β} {i : ℕ} (h : (t[i]?).isSome = true) :
    ((t.map g)[i]?).isSome = true := by
  rw [List.getElem?_map, Option.isSome_map]
  exact h

/-- A handler takes steps of the lifecycle that its sender may ask for. -/
theorem wrote_takes (hknown : db.core.Known) (huser : (db.users[c.user]?).isSome = true)
    (horder : ∀ id, c.chat.orderId = some id → ∀ order, db.orders[id]? = some order → order.userId = c.user)
    (h : Wrote c m db db' chat) : ∃ acts, Takes c db db' acts ∧ ∀ a ∈ acts, MayAsk c m db a := by
  have hone : ∀ {a : Lifecycle.Step}, MayAsk c m db a → ∀ b ∈ [a], MayAsk c m db b := fun ha b hb => by
    rwa [List.mem_singleton.mp hb]
  cases h with
  | looked | replying | messaged | opened | replied | closed => exact ⟨[], takes_nil rfl, by simp⟩
  | language lang =>
    have hsame : ∀ row : UserRow, ({ row with languageCode := lang } : UserRow).toUser = row.toUser := fun _ => rfl
    refine ⟨[], takes_nil ?_, by simp⟩
    rw [Database.core, map_update hsame]
    rfl
  | toggled hadmin i action =>
    have hsame : ∀ row : ServerRow, ({ row with paused := !row.paused } : ServerRow).toVpnServer = row.toVpnServer :=
      fun _ => rfl
    refine ⟨[], takes_nil ?_, by simp⟩
    rw [Database.core, map_update hsame]
    rfl
  | blocked hmessage hadmin blocked =>
    have hsame : ∀ row : UserRow, ({ row with isBlocked := blocked } : UserRow).toUser = row.toUser := fun _ => rfl
    refine ⟨[], takes_nil ?_, by simp⟩
    rw [Database.core, map_update hsame]
    rfl
  | @bought server product hoffers hplan =>
    refine ⟨[.startOrder c.user server product], takes_one rfl fun peers phase batch session => if_pos ?_,
      hone ⟨rfl, hoffers, hplan⟩⟩
    have hserver : (db.servers[server]?).isSome = true := Option.isSome_of_any hoffers
    simp only [Database.core, isSome_core huser, isSome_core hserver,
      isSome_core (Option.isSome_of_any hplan), Bool.and_self]
  | @renewed i sub product hsub hown hserver hplan hoffers =>
    refine ⟨[.startRenewal c.user i product], takes_one rfl fun peers phase batch session => ?_,
      hone ⟨rfl, hplan, sub, hsub, hown, hoffers⟩⟩
    refine Option.bind_eq_some_iff.mpr ⟨sub, hsub, if_pos ?_⟩
    simp only [Database.core, hown, isSome_core hserver, isSome_core (Option.isSome_of_any hplan),
      decide_true, Bool.and_self]
  | @receipt id order hrow hid receipt hreceipt =>
    exact ⟨[.submitReceipt id receipt], takes_one rfl fun _ _ _ _ => rfl,
      hone ⟨hreceipt, order, hrow, horder id hid order hrow⟩⟩
  | @redelivered i sub hsub hown hlimit =>
    refine ⟨[.redeliver i c.user], takes_one rfl fun peers phase batch session => ?_,
      hone ⟨rfl, sub, hsub, hown, hlimit⟩⟩
    refine Option.map_eq_some_iff.mpr ⟨_, Option.bind_eq_some_iff.mpr ⟨sub, hsub, if_pos ?_⟩, rfl⟩
    simp only [hown, hlimit, decide_true, Bool.and_self]
  | approved hadmin id idHex8 =>
    have hgrows := AmneziaVpnBot.Database.grows_approve hknown id c.sender.id idHex8 c.now
    exact ⟨[.approve id c.sender.id idHex8], takes_one (core_withCore hgrows) fun _ _ _ _ => rfl, hone ⟨hadmin, rfl⟩⟩
  | rejected hadmin id =>
    have hgrows : Grows db.core (AmneziaVpnBot.callbackAdminRejectOrder db.core id c.sender.id c.now).2 :=
      (AmneziaVpnBot.Database.stays_reject id c.sender.id c.now).grows
    exact ⟨[.reject id c.sender.id], takes_one (core_withCore hgrows) fun _ _ _ _ => rfl, hone ⟨hadmin, rfl⟩⟩
  | @extended hadmin i n core hcore =>
    have hgrows := (AmneziaVpnBot.Database.stays_extend hcore).grows
    refine ⟨[.extend i n c.sender.id], takes_one (core_withCore hgrows) fun _ _ _ _ => ?_, hone ⟨hadmin, rfl⟩⟩
    exact Option.map_eq_some_iff.mpr ⟨core, hcore, rfl⟩
  | retried hadmin ids =>
    obtain ⟨acts, hacts, hrun⟩ := callbackRetry_takes ids db.core c.sender.id c.now c.settings.toSettings
    have hgrows := Lifecycle.grows_run hknown (hrun (fun _ _ => .absent) .idle [] .empty)
    refine ⟨acts, fun peers phase batch session => ?_, fun a ha => ?_⟩
    · rw [hrun, core_withCore hgrows]
    · obtain ⟨id, rfl⟩ := hacts a ha
      exact ⟨hadmin, rfl⟩

/-! ### What every run keeps -/

/-- The tables grow: a row that is there keeps its user and its server. -/
structure Evolves (d d' : AmneziaVpnBot.Database) : Prop where
  users : d.users <+: d'.users
  servers : d.servers <+: d'.servers
  products : d'.products = d.products
  orders : d.orders.map Order.owner <+: d'.orders.map Order.owner
  known : d.Known → d'.Known

theorem Evolves.refl (d : AmneziaVpnBot.Database) : Evolves d d :=
  ⟨List.prefix_rfl, List.prefix_rfl, rfl, List.prefix_rfl, fun h => h⟩

theorem Evolves.trans {d d' d'' : AmneziaVpnBot.Database} (h : Evolves d d') (h' : Evolves d' d'') : Evolves d d'' :=
  ⟨h.users.trans h'.users, h.servers.trans h'.servers, h'.products.trans h.products, h.orders.trans h'.orders,
    fun hknown => h'.known (h.known hknown)⟩

theorem Evolves.of_grows {d d' : AmneziaVpnBot.Database} (h : Grows d d') : Evolves d d' := by
  obtain ⟨new, hnew, -⟩ := h.orders
  exact ⟨h.users ▸ List.prefix_rfl, h.servers ▸ List.prefix_rfl, h.products, hnew ▸ List.prefix_append .., h.known⟩

/-- Longer tables of users and servers. -/
theorem Evolves.of_isPrefix {d d' : AmneziaVpnBot.Database} (hu : d.users <+: d'.users) (hv : d.servers <+: d'.servers)
    (hd : d' = d.within d'.users d'.servers) : Evolves d d' := by
  have hhas : ∀ owner, d.Has owner → d'.Has owner := fun owner h =>
    ⟨h.1.trans_le hu.length_le, h.2.trans_le hv.length_le⟩
  have horders : d'.orders = (d.within d'.users d'.servers).orders := congrArg _ hd
  have hsubs : d'.subscriptions = (d.within d'.users d'.servers).subscriptions := congrArg _ hd
  have hproducts : d'.products = (d.within d'.users d'.servers).products := congrArg _ hd
  refine ⟨hu, hv, hproducts, horders ▸ List.prefix_rfl, fun h => ⟨?_, ?_⟩⟩
  · rw [horders]
    exact fun owner hmem => hhas owner (h.orders owner hmem)
  · rw [hsubs]
    exact fun owner hmem => hhas owner (h.subscriptions owner hmem)

/-- The order is one of the Telegram user. -/
def Belongs (d : AmneziaVpnBot.Database) (id : OrderId) (tg : TelegramId) : Prop :=
  ∃ order user, d.orders[id]? = some order ∧ d.users[order.userId]? = some user ∧ user.telegramUserId = tg

theorem getElem?_of_isPrefix_map {α β : Type} {g : α → β} {t t' : Table α} (h : t.map g <+: t'.map g) {i : ℕ} {a : α}
    (ha : t[i]? = some a) : ∃ a', t'[i]? = some a' ∧ g a' = g a := by
  have hlt : i < (t.map g).length := by simpa using (List.getElem?_eq_some_iff.mp ha).1
  have hmap := getElem?_of_isPrefix h hlt
  rw [List.getElem?_map, List.getElem?_map, ha] at hmap
  exact Option.map_eq_some_iff.mp hmap

theorem Belongs.evolve {d d' : AmneziaVpnBot.Database} {id : OrderId} {tg : TelegramId} (h : Belongs d id tg)
    (he : Evolves d d') : Belongs d' id tg := by
  obtain ⟨order, user, horder, huser, htg⟩ := h
  obtain ⟨order', horder', howner⟩ := getElem?_of_isPrefix_map he.orders horder
  have hlt := (List.getElem?_eq_some_iff.mp huser).1
  refine ⟨order', user, horder', ?_, htg⟩
  rw [(Prod.mk.inj howner).1, getElem?_of_isPrefix he.users hlt]
  exact huser

/-- Who owns a row is there in the longer tables. -/
theorem Evolves.has {d d' : AmneziaVpnBot.Database} (h : Evolves d d') {owner : UserId × ServerId}
    (howner : d.Has owner) :
    d'.Has owner := ⟨howner.1.trans_le h.users.length_le, howner.2.trans_le h.servers.length_le⟩

structure Sound (s : State) : Prop where
  known : s.system.Known
  distinct : Distinct s.db.users
  plan : s.db.products.any ProductRow.enabled = true
  remembers : ∀ (c : Support.Conversation) (id : OrderId), (s.chats c).orderId = some id → Belongs s.db.core id c.2

/-- The worker's session and its job are left alone. -/
theorem known_evolve (h : s.system.Known) (he : Evolves s.db.core t.db.core) (hsession : t.session = s.session)
    (hphase : t.phase = s.phase) : t.system.Known where
  db := he.known h.db
  uses owner huse := he.has (h.uses owner (Lifecycle.State.Uses.same huse hsession hphase))

theorem Sound.evolve (hs : Sound s) (he : Evolves s.db.core t.db.core) (hknown : t.system.Known)
    (hdistinct : Distinct t.db.users) (hproducts : t.db.products = s.db.products)
    (hchats : ∀ (c : Support.Conversation) (id : OrderId), (t.chats c).orderId = some id →
      (s.chats c).orderId = some id ∨ Belongs t.db.core id c.2) : Sound t where
  known := hknown
  distinct := hdistinct
  plan := hproducts ▸ hs.plan
  remembers c id h := (hchats c id h).elim (fun h => (hs.remembers c id h).evolve he) fun h => h

/-! ### One step -/

theorem evolves_entered (s : State) (u : Update) : Evolves s.db.core (s.entered u).core :=
  .of_isPrefix (upsertUser_spec s.db.users u.sender).2.1 List.prefix_rfl rfl

theorem sound_entered (hs : Sound s) (u : Update) : Sound { s with db := s.entered u } :=
  hs.evolve (evolves_entered s u) (known_evolve hs.known (evolves_entered s u) rfl rfl)
    ((upsertUser_spec s.db.users u.sender).2.2 hs.distinct) rfl fun _ _ h => .inl h

/-- The order the sender's conversation remembers is the sender's. -/
theorem Sound.owns (hs : Sound s) {u : Update} {id : OrderId} (hid : (s.chats u.conversation).orderId = some id)
    {order : Order} (horder : (s.entered u).orders[id]? = some order) : order.userId = s.sender u := by
  obtain ⟨order', user, horder', huser, htg⟩ := (sound_entered hs u).remembers _ _ hid
  obtain rfl := Option.some.inj (horder.symm.trans horder')
  obtain ⟨sender, hsender, hid'⟩ := core_sender s u
  exact ((upsertUser_spec s.db.users u.sender).2.2 hs.distinct).eq huser hsender
    (htg.trans ((conversation_snd u).trans hid'.symm))

/-- A handler leaves users, servers and plans to the sender or to an admin. -/
theorem wrote_users (h : Wrote c m db db' chat) :
    db'.users.map UserRow.toUser = db.users.map UserRow.toUser ∧ db'.products = db.products := by
  cases h with
  | language lang =>
    have hsame : ∀ row : UserRow, ({ row with languageCode := lang } : UserRow).toUser = row.toUser := fun _ => rfl
    exact ⟨map_update hsame .., rfl⟩
  | blocked hmessage hadmin blocked =>
    have hsame : ∀ row : UserRow, ({ row with isBlocked := blocked } : UserRow).toUser = row.toUser := fun _ => rfl
    exact ⟨map_update hsame .., rfl⟩
  | _ => exact ⟨rfl, rfl⟩

/-- The order a handler leaves a conversation with is the one it remembered, or a new one of the sender. -/
theorem wrote_remembers (h : Wrote c m db db' chat) {id : OrderId} (hid : chat.orderId = some id) :
    c.chat.orderId = some id ∨ ∃ order, db'.orders[id]? = some order ∧ order.userId = c.user := by
  cases h with
  | looked hchat =>
    rcases hchat with rfl | rfl | rfl
    · exact .inl hid
    · cases hid
    · exact .inl hid
  | bought =>
    cases hid
    exact .inr ⟨_, (Table.get_insert ..).trans (if_pos rfl), rfl⟩
  | renewed =>
    cases hid
    exact .inr ⟨_, (Table.get_insert ..).trans (if_pos rfl), rfl⟩
  | language | receipt | messaged | opened | replied => cases hid
  | redelivered | replying | closed | approved | rejected | toggled | blocked | extended | retried => exact .inl hid

/-- The steps of the lifecycle that a step of the bot may take. -/
def Permitted (settings : BotSettings) (s : State) : Step → Lifecycle.Step → Prop
  | .update u draw, a => s.Welcome u ∧ MayAsk (s.context settings u draw) u.content.incoming (s.entered u) a
  | .restart _, _ => False
  | .system b, a => a = b

/-- The shop of `s`, when these are the users and servers there will ever be. -/
def Within (users : Table User) (servers : Table VpnServer) (s : State) (l : Lifecycle.State) : Prop :=
  s.db.core.users <+: users ∧ s.db.core.servers <+: servers ∧ l = s.system.within users servers

variable {users : Table User} {servers : Table VpnServer} {l : Lifecycle.State}

/-- A step that only adds users and servers. -/
theorem within_of_isPrefix (he : Evolves s.db.core t.db.core)
    (hsystem : t.system.within users servers = s.system.within users servers) (h : Within users servers t l) :
    Within users servers s l :=
  ⟨he.users.trans h.1, he.servers.trans h.2.1, h.2.2.trans hsystem⟩

theorem update_sound {u : Update} {draw : Draw} (hs : Sound s) (h : Handled settings s u draw t) :
    Sound t ∧ Evolves s.db.core t.db.core ∧ (Within users servers t l →
      ∃ l' acts, Within users servers s l' ∧ Machine.run (Lifecycle.step settings.toSettings) l' acts = some l ∧
        ∀ a ∈ acts, Permitted settings s (.update u draw) a) := by
  cases h with
  | untaken => exact ⟨hs, .refl _, fun ht => ⟨l, [], ht, rfl, by simp⟩⟩
  | stopped =>
    have hentered := evolves_entered s u
    refine ⟨sound_entered hs u, hentered, fun ht => ⟨l, [], ?_, rfl, by simp⟩⟩
    exact within_of_isPrefix (s := s) (t := { s with db := s.entered u }) hentered rfl ht
  | @through db chat hwelcome hwrote =>
    have hknown := (sound_entered hs u).known
    obtain ⟨user, huser, -⟩ := core_sender s u
    have hsender : ((s.entered u).users[s.sender u]?).isSome = true := by
      rw [Database.core, List.getElem?_map] at huser
      rw [← Option.isSome_map (f := UserRow.toUser), huser]
      rfl
    obtain ⟨acts, hacts, hmay⟩ := wrote_takes hknown.db hsender (fun id hid order horder => hs.owns hid horder) hwrote
    have hrun := hacts s.peers s.phase s.batch s.session
    have hgrows : Evolves (s.entered u).core db.core := .of_grows (Lifecycle.grows_run hknown.db hrun)
    obtain ⟨husers, hproducts⟩ := wrote_users hwrote
    have hdistinct : Distinct db.users := by
      rw [Distinct, husers]
      exact (sound_entered hs u).distinct
    have hknown' : (State.system { s with db := db, chats := Function.update s.chats u.conversation chat }).Known :=
      known_evolve hknown hgrows rfl rfl
    refine ⟨(sound_entered hs u).evolve hgrows hknown' hdistinct hproducts ?_,
      (evolves_entered s u).trans hgrows, fun ht => ?_⟩
    · intro k id hid
      dsimp only at hid
      by_cases hk : k = u.conversation
      · subst hk
        rw [Function.update_self] at hid
        rcases wrote_remembers hwrote hid with hold | ⟨order, horder, howner⟩
        · exact .inl hold
        · obtain ⟨user', huser', htg⟩ := core_sender s u
          have hlt := (List.getElem?_eq_some_iff.mp huser').1
          refine .inr ⟨order, user', horder, ?_, htg.trans (conversation_snd u).symm⟩
          rw [howner]
          exact (getElem?_of_isPrefix hgrows.users hlt).trans huser'
      · rw [Function.update_of_ne hk] at hid
        exact .inl hid
    · have hall : Evolves s.db.core db.core := (evolves_entered s u).trans hgrows
      have hwithin := Lifecycle.run_within (hgrows.users.trans ht.1) (hgrows.servers.trans ht.2.1) hknown hrun
      refine ⟨s.system.within users servers, acts, ⟨hall.users.trans ht.1, hall.servers.trans ht.2.1, rfl⟩, ?_,
        fun a ha => ⟨hwelcome, hmay a ha⟩⟩
      rw [ht.2.2]
      exact hwithin

theorem background_sound {a : Lifecycle.Step} {v : Lifecycle.State} (hs : Sound s)
    (hstep : Lifecycle.step settings.toSettings s.system a = some v) (ht : t = s.withSystem v) :
    Sound t ∧ Evolves s.db.core t.db.core ∧ (Within users servers t l →
      ∃ l' acts, Within users servers s l' ∧ Machine.run (Lifecycle.step settings.toSettings) l' acts = some l ∧
        ∀ b ∈ acts, Permitted settings s (.system a) b) := by
  subst ht
  have hgrows : Grows s.db.core v.db := Lifecycle.grows_step hs.known.db hstep
  have hsystem : (s.withSystem v).system = v := by
    rw [State.system, State.withSystem, core_withCore hgrows]
  have hevolves : Evolves s.db.core (s.withSystem v).db.core := by
    rw [State.withSystem, core_withCore hgrows]
    exact .of_grows hgrows
  have hknown : (s.withSystem v).system.Known := by
    rw [hsystem]
    exact Lifecycle.known_step hs.known hstep
  refine ⟨hs.evolve hevolves hknown hs.distinct rfl fun _ _ hid => .inl hid, hevolves, fun ht => ?_⟩
  have hwithin := Lifecycle.step_within (hevolves.users.trans ht.1) (hevolves.servers.trans ht.2.1) hs.known hstep
  refine ⟨s.system.within users servers, [a], ⟨hevolves.users.trans ht.1, hevolves.servers.trans ht.2.1, rfl⟩, ?_, ?_⟩
  · rw [ht.2.2, hsystem, Machine.run_cons, hwithin]
    rfl
  · intro b hb
    exact List.mem_singleton.mp hb

theorem createOrUpdate_extends (servers : Table ServerRow) (cfg : Configured) :
    servers.map ServerRow.toVpnServer <+: (createOrUpdate servers cfg).map ServerRow.toVpnServer := by
  unfold createOrUpdate
  split
  next i row hrow =>
    have hsame : ∀ row : ServerRow, (cfg.set row).toVpnServer = row.toVpnServer := fun _ => rfl
    rw [map_update hsame]
  next =>
    rw [map_insert]
    exact List.prefix_append ..

theorem initData_extends (configured : List Configured) (servers : Table ServerRow) :
    servers.map ServerRow.toVpnServer <+: (configured.foldl createOrUpdate servers).map ServerRow.toVpnServer := by
  induction configured generalizing servers with
  | nil => exact List.prefix_rfl
  | cons cfg configured ih => exact (createOrUpdate_extends servers cfg).trans (ih _)

theorem restart_sound (users : Table User) (servers : Table VpnServer) (hs : Sound s) (configured : List Configured)
    (ht : t = { s with db := initData s.db configured, chats := fun _ => .cleared }) :
    Sound t ∧ Evolves s.db.core t.db.core ∧ (Within users servers t l → Within users servers s l) := by
  subst ht
  have hproducts : (initData s.db configured).products = s.db.products := if_pos hs.plan
  have hcore : (initData s.db configured).core = s.db.core.within (s.db.users.map UserRow.toUser)
      ((configured.foldl createOrUpdate s.db.servers).map ServerRow.toVpnServer) := by
    rw [Database.core, hproducts]
    rfl
  have hevolves : Evolves s.db.core (initData s.db configured).core :=
    .of_isPrefix List.prefix_rfl (initData_extends configured s.db.servers) hcore
  refine ⟨hs.evolve hevolves (known_evolve hs.known hevolves rfl rfl) hs.distinct hproducts
    (fun _ _ hid => by cases hid), hevolves, fun ht => ?_⟩
  refine within_of_isPrefix hevolves ?_ ht
  rw [State.system, hcore]
  rfl

theorem step_sound {x : Step} (hs : Sound s) (h : step settings s x = some t) :
    Sound t ∧ Evolves s.db.core t.db.core ∧ (Within users servers t l →
      ∃ l' acts, Within users servers s l' ∧ Machine.run (Lifecycle.step settings.toSettings) l' acts = some l ∧
        ∀ a ∈ acts, Permitted settings s x a) := by
  cases stepped h with
  | updated hfits hhandled => exact update_sound hs hhandled
  | restarted configured =>
    obtain ⟨hsound, hevolves, hwithin⟩ := restart_sound users servers hs configured rfl
    exact ⟨hsound, hevolves, fun ht => ⟨l, [], hwithin ht, rfl, by simp⟩⟩
  | ran hbackground hran => exact background_sound hs hran rfl

/-! ### Runs -/

theorem sound_start (servers : Table ServerRow) {products : Table ProductRow}
    (hplan : products.any ProductRow.enabled = true) (now : ℤ) : Sound (start servers products now) where
  known :=
    ⟨⟨by simp [State.system, start, Database.core], by simp [State.system, start, Database.core]⟩, fun _ huse => by
    rcases huse with ⟨_, _, hseen, -⟩ | hwork
    · cases hseen
    · exact hwork.elim⟩
  distinct := List.nodup_nil
  plan := hplan
  remembers _ _ hid := by cases hid

theorem sound_step {x : Step} (hs : Sound s) (h : step settings s x = some t) : Sound t := by
  have hstep : Sound t ∧ _ ∧ (Within [] [] t s.system → _) := step_sound hs h
  exact hstep.1

theorem sound_run {servers : Table ServerRow} {products : Table ProductRow}
    (hplan : products.any ProductRow.enabled = true) {now : ℤ} {as : List Step}
    (h : Machine.run (step settings) (start servers products now) as = some t) : Sound t :=
  Machine.invariant_run (I := Sound) (fun _ _ _ => sound_step) h (sound_start servers hplan now)

/-- Every run of the bot, with whatever updates come from whomever, is a run of the lifecycle over the users and the
servers there are in the end. Each step of that run belongs to a step of the bot: it is that step of the worker, of the
scheduler or of the clock, or the sender of the update may ask for it in the state the update finds. -/
theorem run_permitted {servers : Table ServerRow} {products : Table ProductRow}
    (hplan : products.any ProductRow.enabled = true) {now : ℤ} {as : List Step}
    (h : Machine.run (step settings) (start servers products now) as = some t) :
    ∃ blocks : List (List Lifecycle.Step), blocks.length = as.length ∧
      Machine.run (Lifecycle.step settings.toSettings) (Lifecycle.start t.db.core.users t.db.core.servers
        (products.map ProductRow.toProduct) now) blocks.flatten = some t.system ∧
      ∀ (i : ℕ) (s : State) (x : Step), Machine.run (step settings) (start servers products now) (as.take i) = some s →
        as[i]? = some x → ∀ a ∈ blocks[i]?.getD [], Permitted settings s x a := by
  have hend : Within t.db.core.users t.db.core.servers t t.system := ⟨List.prefix_rfl, List.prefix_rfl, rfl⟩
  obtain ⟨l, blocks, hstart, hlength, hrun, hall⟩ := Machine.matched_run (I := Sound)
    (R := Within t.db.core.users t.db.core.servers) (P := Permitted settings)
    (fun _ _ _ => sound_step)
    (fun s x t l hs hstep ht => (step_sound hs hstep).2.2 ht) (sound_start servers hplan now) h hend
  refine ⟨blocks, hlength, ?_, hall⟩
  rw [hstart.2.2] at hrun
  exact hrun

section Small

def smallNames : Naming := fun i => ⟨i % 2 ^ 128, Nat.mod_lt _ (by decide)⟩

/-- One admin. -/
def smallSettings : BotSettings :=
  ⟨⟨30, 3⟩, [9], 0, fun _ => false, smallNames, smallNames, smallNames, smallNames, smallNames⟩

def smallStart : State := start [⟨⟨"nl-1"⟩, true, false, some 1⟩] [⟨⟨30⟩, "vpn-1m", true⟩] 0

/-- A customer presses a button. -/
def press (id : TelegramId) (data : Text) : Step :=
  .update ⟨⟨id, none, none, none, none⟩, .press (some id) (some data)⟩ ⟨"T", true, []⟩

def sent (id : TelegramId) (message : Support.Incoming) : Step :=
  .update ⟨⟨id, none, none, none, none⟩, .message id message⟩ ⟨"T", true, []⟩

/-- A plan is bought, paid and approved, and its peer made; somebody else presses the customer's buttons. -/
def firstSale : List Step :=
  [press 1000 "plan_nl-1_vpn-1m".toList, sent 1000 ⟨none, none, ["photo"], none, 1⟩,
    press 2000 ("adm_app_".toList ++ (smallNames 0).text), press 9 ("adm_app_".toList ++ (smallNames 0).text),
    .system (.claim 10), .system .read, .system (.call .ok), .system (.write true),
    press 2000 ("sub_dl_".toList ++ (smallNames 0).text), press 1000 ("sub_dl_".toList ++ (smallNames 0).text)]

def smallEnd : Option State := Machine.run (step smallSettings) smallStart firstSale

example : smallEnd.map (fun s => (s.db.subscriptions.length, s.db.jobs.map Job.jobType)) =
    some (1, [.createPeer, .redeliverConfig]) := by decide +kernel

theorem run_permitted_small : ∃ t, smallEnd = some t ∧ ∃ blocks : List (List Lifecycle.Step), blocks.length = 10 ∧
    Machine.run (Lifecycle.step smallSettings.toSettings) (Lifecycle.start t.db.core.users t.db.core.servers [⟨30⟩] 0)
      blocks.flatten = some t.system ∧
    ∀ (i : ℕ) (s : State) (x : Step), Machine.run (step smallSettings) smallStart (firstSale.take i) = some s →
      firstSale[i]? = some x → ∀ a ∈ blocks[i]?.getD [], Permitted smallSettings s x a := by
  have hsome : smallEnd.isSome = true := by decide +kernel
  obtain ⟨t, ht⟩ := Option.isSome_iff_exists.mp hsome
  have hplan : [(⟨⟨30⟩, "vpn-1m", true⟩ : ProductRow)].any ProductRow.enabled = true := rfl
  obtain ⟨blocks, hlength, hrun, hall⟩ := run_permitted hplan ht
  exact ⟨t, ht, blocks, hlength, hrun, hall⟩

end Small

end AmneziaVpnBot.Bot
