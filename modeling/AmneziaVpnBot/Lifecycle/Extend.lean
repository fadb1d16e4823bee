import AmneziaVpnBot.Lifecycle.System

/-! Users and servers that come later. A row's owner and its server are there before the row is, and stay what they
are, so a run goes the same way over longer tables of users and servers. -/

namespace AmneziaVpnBot

/-! ### Owners -/

/-- The user and the server of an order. -/
def Order.owner (order : Order) : UserId × ServerId := (order.userId, order.vpnServerId)

/-- The user and the server of a subscription. -/
def Subscription.owner (sub : Subscription) : UserId × ServerId := (sub.userId, sub.vpnServerId)

/-- The order that a subscription was made for, and its owner. -/
def Subscription.origin (sub : Subscription) : OrderId × UserId × ServerId := (sub.orderId, sub.owner)

theorem map_update {α β : Type*} {g : α → β} {f : α → α} (h : ∀ a, g (f a) = g a) (t : Table α) (i : ℕ) :
    (t.update i f).map g = t.map g := by
  apply List.ext_getElem?
  intro j
  rw [List.getElem?_map, List.getElem?_map, Table.get_update]
  split_ifs
  · cases t[j]? with
    | none => rfl
    | some a => exact congrArg some (h a)
  · rfl

theorem map_insert {α β : Type*} (g : α → β) (t : Table α) (a : α) : (t.insert a).map g = t.map g ++ [g a] :=
  List.map_append

theorem owner_flush_order {loaded set : Order} (h : set.owner = loaded.owner) (stored : Order) :
    (loaded.flush set stored).owner = stored.owner := by
  obtain ⟨huser, hserver⟩ := Prod.mk.inj h
  simp [Order.owner, Order.flush, huser, hserver]

theorem origin_flush {loaded set : Subscription} (h : set.origin = loaded.origin) (stored : Subscription) :
    (loaded.flush set stored).origin = stored.origin := by
  obtain ⟨horder, howner⟩ := Prod.mk.inj h
  obtain ⟨huser, hserver⟩ := Prod.mk.inj howner
  simp [Subscription.origin, Subscription.owner, Subscription.flush, horder, huser, hserver]

namespace Database

/-- A user and a server that have rows. -/
def Has (db : Database) (owner : UserId × ServerId) : Prop := owner.1 < db.users.length ∧ owner.2 < db.servers.length

/-- What a step leaves of users, servers and plans, and of the owners of orders and subscriptions. -/
structure Grows (db db' : Database) : Prop where
  users : db'.users = db.users
  servers : db'.servers = db.servers
  products : db'.products = db.products
  orders : ∃ new, db'.orders.map Order.owner = db.orders.map Order.owner ++ new ∧ ∀ owner ∈ new, db.Has owner
  subscriptions : ∃ new, db'.subscriptions.map Subscription.owner = db.subscriptions.map Subscription.owner ++ new ∧
    ∀ owner ∈ new, db.Has owner

/-- Every row's owner has a row. -/
structure Known (db : Database) : Prop where
  orders : ∀ owner ∈ db.orders.map Order.owner, db.Has owner
  subscriptions : ∀ owner ∈ db.subscriptions.map Subscription.owner, db.Has owner

variable {db db' db'' : Database}

theorem Grows.has (h : Grows db db') {owner : UserId × ServerId} : db'.Has owner ↔ db.Has owner := by
  rw [Has, Has, h.users, h.servers]

/-- What most steps leave: the same rows, for the same owners and orders. -/
structure Stays (db db' : Database) : Prop where
  users : db'.users = db.users
  servers : db'.servers = db.servers
  products : db'.products = db.products
  orders : db'.orders.map Order.owner = db.orders.map Order.owner
  subscriptions : db'.subscriptions.map Subscription.origin = db.subscriptions.map Subscription.origin

theorem Stays.refl (db : Database) : Stays db db := ⟨rfl, rfl, rfl, rfl, rfl⟩

theorem Stays.trans (h : Stays db db') (h' : Stays db' db'') : Stays db db'' :=
  ⟨h'.users.trans h.users, h'.servers.trans h.servers, h'.products.trans h.products, h'.orders.trans h.orders,
    h'.subscriptions.trans h.subscriptions⟩

theorem map_owner (subs : Table Subscription) :
    subs.map Subscription.owner = (subs.map Subscription.origin).map Prod.snd := by
  rw [List.map_map]
  rfl

theorem Stays.grows (h : Stays db db') : Grows db db' := by
  refine ⟨h.users, h.servers, h.products, ⟨[], ?_, by simp⟩, ⟨[], ?_, by simp⟩⟩
  · rw [h.orders, List.append_nil]
  · rw [map_owner, map_owner, h.subscriptions, List.append_nil]

theorem Grows.refl (db : Database) : Grows db db := (Stays.refl db).grows

theorem Grows.trans (h : Grows db db') (h' : Grows db' db'') : Grows db db'' := by
  obtain ⟨orders, ho, horders⟩ := h.orders
  obtain ⟨orders', ho', horders'⟩ := h'.orders
  obtain ⟨subs, hs, hsubs⟩ := h.subscriptions
  obtain ⟨subs', hs', hsubs'⟩ := h'.subscriptions
  refine ⟨h'.users.trans h.users, h'.servers.trans h.servers, h'.products.trans h.products,
    ⟨orders ++ orders', by rw [ho', ho, List.append_assoc], ?_⟩,
    ⟨subs ++ subs', by rw [hs', hs, List.append_assoc], ?_⟩⟩
  · intro owner hmem
    exact (List.mem_append.mp hmem).elim (horders owner) fun hmem => h.has.mp (horders' owner hmem)
  · intro owner hmem
    exact (List.mem_append.mp hmem).elim (hsubs owner) fun hmem => h.has.mp (hsubs' owner hmem)

theorem Grows.known (h : Grows db db') (hknown : Known db) : Known db' := by
  obtain ⟨orders, ho, horders⟩ := h.orders
  obtain ⟨subs, hs, hsubs⟩ := h.subscriptions
  refine ⟨fun owner hmem => h.has.mpr ?_, fun owner hmem => h.has.mpr ?_⟩
  · rw [ho] at hmem
    exact (List.mem_append.mp hmem).elim (hknown.orders owner) (horders owner)
  · rw [hs] at hmem
    exact (List.mem_append.mp hmem).elim (hknown.subscriptions owner) (hsubs owner)

theorem Known.order (h : Known db) {id : OrderId} {order : Order} (horder : db.orders[id]? = some order) :
    db.Has order.owner := h.orders _ (List.mem_map_of_mem (List.mem_of_getElem? horder))

theorem Known.sub (h : Known db) {id : SubscriptionId} {sub : Subscription} (hsub : db.subscriptions[id]? = some sub) :
    db.Has sub.owner := h.subscriptions _ (List.mem_map_of_mem (List.mem_of_getElem? hsub))

/-! ### What the transactions add -/

theorem has_of_isSome {user : UserId} {server : ServerId} (hu : (db.users[user]?).isSome = true)
    (hv : (db.servers[server]?).isSome = true) : db.Has (user, server) :=
  ⟨by simpa using hu, by simpa using hv⟩

theorem grows_createOrder {user : UserId} {server : ServerId} (h : db.Has (user, server)) (product : ProductId)
    (renews : Option SubscriptionId) : Grows db (createOrder db user server product renews) :=
  ⟨rfl, rfl, rfl, ⟨[(user, server)], map_insert .., by simpa using h⟩, ⟨[], by simp [createOrder], by simp⟩⟩

theorem owner_reviewed (a : Approval) (status : OrderStatus) (stored : Order) :
    (a.order.flush (a.reviewed status) stored).owner = stored.owner := owner_flush_order rfl stored

theorem origin_renew (sub : Subscription) (now durationDays : ℤ) (stored : Subscription) :
    (sub.flush (sub.renew now durationDays) stored).origin = stored.origin := origin_flush rfl stored

/-- A subscription is made for an order that awaits review. -/
structure Opens (db db' : Database) (id : OrderId) (order : Order) : Prop where
  row : db.orders[id]? = some order
  awaits : order.awaitsReview = true
  users : db'.users = db.users
  servers : db'.servers = db.servers
  products : db'.products = db.products
  orders : db'.orders.map Order.owner = db.orders.map Order.owner
  subscriptions : db'.subscriptions.map Subscription.origin = db.subscriptions.map Subscription.origin ++
    [(id, order.owner)]

/-- An approval makes one subscription, for its order, or none. -/
theorem stays_or_opens_approve (id : OrderId) (admin : TelegramId) (idHex8 : ℕ) (now : ℤ) :
    Stays db (callbackAdminApproveOrder db id admin idHex8 now).2 ∨
      ∃ order, Opens db (callbackAdminApproveOrder db id admin idHex8 now).2 id order := by
  rcases callbackAdminApproveOrder_cases db id admin idHex8 now with
    ⟨order, product, horder, hawaits, -, -, -, (⟨subId, sub, -, heq⟩ | ⟨-, heq⟩)⟩ | heq
  · rw [heq]
    exact .inl ⟨rfl, rfl, rfl, map_update (owner_reviewed _ _) .., map_update (origin_renew _ _ _) ..⟩
  · rw [heq]
    exact .inr ⟨order, horder, hawaits, rfl, rfl, rfl, map_update (owner_reviewed _ _) .., map_insert ..⟩
  · rw [heq]
    exact .inl (.refl db)

theorem Opens.grows (hknown : Known db) {id : OrderId} {order : Order} (h : Opens db db' id order) : Grows db db' := by
  refine ⟨h.users, h.servers, h.products, ⟨[], ?_, by simp⟩, ⟨[order.owner], ?_, ?_⟩⟩
  · rw [h.orders, List.append_nil]
  · rw [map_owner, map_owner, h.subscriptions, List.map_append]
    rfl
  · simpa using hknown.order h.row

theorem grows_approve (hknown : Known db) (id : OrderId) (admin : TelegramId) (idHex8 : ℕ) (now : ℤ) :
    Grows db (callbackAdminApproveOrder db id admin idHex8 now).2 := by
  rcases @stays_or_opens_approve db id admin idHex8 now with h | ⟨order, h⟩
  · exact h.grows
  · exact h.grows hknown

theorem stays_reject (id : OrderId) (admin : TelegramId) (now : ℤ) :
    Stays db (callbackAdminRejectOrder db id admin now).2 := by
  rw [callbackAdminRejectOrder]
  rcases rejectOrder_cases db id admin (some rejectionReason) now with ⟨order, -, -, heq⟩ | heq
  · have hrejected : ∀ stored, (order.flush { order with
        status := .rejected, reviewedBy := some admin, reviewedAt := some now
        rejectionReason := some rejectionReason } stored).owner = stored.owner :=
          fun stored => owner_flush_order rfl stored
    rw [heq]
    exact ⟨rfl, rfl, rfl, map_update hrejected .., rfl⟩
  · rw [heq]
    exact .refl db

theorem origin_extend (now n : ℤ) (sub : Subscription) : (sub.extend now n).origin = sub.origin := by
  unfold Subscription.extend
  split_ifs <;> rfl

theorem stays_extend {id : SubscriptionId} {n : ℤ} {admin : TelegramId} {now : ℤ}
    (h : adminExtend db id n admin now = some db') : Stays db db' := by
  obtain ⟨sub, -, h⟩ := Option.bind_eq_some_iff.mp h
  split_ifs at h
  cases h
  exact ⟨rfl, rfl, rfl, rfl, map_update (origin_extend now n) ..⟩

theorem stays_redeliver {settings : Settings} {id : SubscriptionId} {user : UserId} {now : ℤ}
    (h : redeliverSubscription settings db id user now = some db') : Stays db db' := by
  obtain ⟨sub, -, h⟩ := Option.bind_eq_some_iff.mp h
  split_ifs at h
  cases h
  exact ⟨rfl, rfl, rfl, rfl, rfl⟩

theorem stays_retry {id : JobId} {admin : TelegramId} {now : ℤ} (h : adminRetry db id admin now = some db') :
    Stays db db' := by
  obtain ⟨job, -, h⟩ := Option.bind_eq_some_iff.mp h
  split_ifs at h
  cases h
  exact ⟨rfl, rfl, rfl, rfl, rfl⟩

theorem stays_foldl {α : Type*} {f : Database → α → Database} (h : ∀ db a, Stays db (f db a)) (as : List α)
    (db : Database) :
    Stays db (as.foldl f db) := by
  induction as generalizing db with
  | nil => exact .refl db
  | cons a as ih => exact (h db a).trans (ih _)

theorem stays_callbackRetry (ids : List JobId) (admin : TelegramId) (now : ℤ) (db : Database) :
    Stays db (callbackRetry db ids admin now) := by
  apply stays_foldl
  intro db id
  cases hretry : adminRetry db id admin now with
  | none => exact .refl db
  | some db' => exact stays_retry hretry

theorem stays_checkExpired (db : Database) (now : ℤ) : Stays db (checkExpiredSubscriptions db now) := by
  apply stays_foldl
  intro db id
  unfold disableExpired
  split_ifs
  · exact .refl db
  · exact ⟨rfl, rfl, rfl, rfl, rfl⟩

theorem stays_cleanup (settings : Settings) (db : Database) (now : ℤ) :
    Stays db (cleanupRemovedPeers settings db now) := by
  apply stays_foldl
  intro db id
  unfold removeDisabled
  split_ifs
  · exact .refl db
  · exact ⟨rfl, rfl, rfl, rfl, rfl⟩

theorem stays_updateJobs (db : Database) (jobs : Table Job) : Stays db { db with jobs := jobs } :=
  ⟨rfl, rfl, rfl, rfl, rfl⟩

theorem stays_writeSubscription {id : SubscriptionId} {loaded set : Subscription} (h : set.origin = loaded.origin)
    (event : EventType) : Stays db (Worker.writeSubscription db id loaded set event) :=
  ⟨rfl, rfl, rfl, rfl, map_update (origin_flush h) ..⟩

theorem owner_fulfill (orders : Table Order) (id : OrderId) (loaded : Option Order) :
    (Worker.fulfill orders id loaded).map Order.owner = orders.map Order.owner := by
  cases loaded with
  | none => rfl
  | some order =>
    have hfulfilled : ∀ stored, (order.flush { order with status := .fulfilled } stored).owner = stored.owner :=
      fun stored => owner_flush_order rfl stored
    exact map_update hfulfilled ..

theorem stays_write {jobType : JobType} {id : SubscriptionId} {work : Worker.Work} {delivered : Bool} {now : ℤ}
    (h : Worker.write db jobType id work delivered now = some db') : Stays db db' := by
  cases jobType with
  | createPeer =>
    simp only [Worker.write] at h
    split_ifs at h
    cases h
    have hactivated : (work.activated delivered).origin = work.sub.origin := rfl
    exact ⟨rfl, rfl, rfl, owner_fulfill .., map_update (origin_flush hactivated) ..⟩
  | disablePeer =>
    cases h
    have horigin : (work.sub.markDisabled now).origin = work.sub.origin := rfl
    exact stays_writeSubscription horigin _
  | removePeer =>
    cases h
    have horigin : (work.sub.markRemoved now).origin = work.sub.origin := rfl
    exact stays_writeSubscription horigin _
  | enablePeer =>
    cases h
    exact ⟨rfl, rfl, rfl, rfl, rfl⟩
  | redeliverConfig =>
    simp only [Worker.write] at h
    split_ifs at h
    cases h
    have hredelivered : ∀ stored, (work.sub.flush { work.sub with
        configDeliveryStatus := .delivered
        configRedeliveryCount := work.sub.configRedeliveryCount + 1 } stored).origin =
        stored.origin := fun stored => origin_flush rfl stored
    exact ⟨rfl, rfl, rfl, rfl, map_update hredelivered ..⟩

end Database

namespace Lifecycle

open Database (Grows Stays Known)

variable {settings : Settings} {s t : State}

theorem stays_finish {now : ℤ} {id : JobId} {db : Database} {written : Option Database}
    (h : ∀ db', written = some db' → Stays db db') : Stays db (finish now id db written) := by
  cases written with
  | some db' => exact (h db' rfl).trans (Database.stays_updateJobs ..)
  | none => exact Database.stays_updateJobs ..

theorem stays_writeJob {db db' : Database} {delivered : Bool} {now : ℤ} {phase : Phase}
    (h : writeJob db delivered now phase = some db') : Stays db db' := by
  unfold writeJob at h
  split at h
  · cases h
    exact stays_finish fun db' heq => by cases heq; exact .refl db
  · cases h
    exact Database.stays_updateJobs ..
  · cases h
    exact stays_finish fun db' heq => Database.stays_write heq
  · cases h
    exact Database.stays_updateJobs ..
  · cases h

/-- The steps that may make an order or a subscription. -/
def Step.makesRows : Step → Bool
  | .startOrder .. | .startRenewal .. | .approve .. => true
  | _ => false

theorem stays_step {a : Step} (ha : a.makesRows = false) (h : step settings s a = some t) : Stays s.db t.db := by
  cases a with
  | startOrder | startRenewal | approve => cases ha
  | submitReceipt id receipt =>
    cases h
    have howner : ∀ order : Order, (order.submitReceipt receipt s.now).owner = order.owner := fun _ => rfl
    exact ⟨rfl, rfl, rfl, map_update howner .., rfl⟩
  | reject id admin =>
    cases h
    exact Database.stays_reject ..
  | extend id n admin =>
    obtain ⟨db, hdb, rfl⟩ := Option.map_eq_some_iff.mp h
    exact Database.stays_extend hdb
  | redeliver id user =>
    obtain ⟨db, hdb, rfl⟩ := Option.map_eq_some_iff.mp h
    exact Database.stays_redeliver hdb
  | retry id admin =>
    obtain ⟨db, hdb, rfl⟩ := Option.map_eq_some_iff.mp h
    exact Database.stays_retry hdb
  | checkExpired =>
    cases h
    exact Database.stays_checkExpired ..
  | cleanup =>
    cases h
    exact Database.stays_cleanup ..
  | claim limit =>
    simp only [step] at h
    split at h
    · cases h
      exact Database.stays_updateJobs ..
    · cases h
  | read =>
    simp only [step] at h
    split at h
    · obtain ⟨job, -, rfl⟩ := Option.map_eq_some_iff.mp h
      exact .refl s.db
    · cases h
  | call reply =>
    simp only [step] at h
    split at h
    · split at h
      · cases h
        exact .refl s.db
      · cases h
        exact .refl s.db
    · cases h
  | write delivered =>
    obtain ⟨db, hdb, rfl⟩ := Option.map_eq_some_iff.mp h
    exact stays_writeJob hdb
  | collect user =>
    simp only [step] at h
    split at h
    · cases h
      exact .refl s.db
    · cases h
  | crash =>
    cases h
    exact .refl s.db
  | tick d =>
    cases h
    exact .refl s.db

/-- A step leaves the owners of the rows there are, and a new row's owner has a row. -/
theorem grows_step {a : Step} (hknown : Known s.db) (h : step settings s a = some t) : Grows s.db t.db := by
  cases a with
  | startOrder user server product =>
    simp only [step] at h
    split_ifs at h with hrows
    cases h
    simp only [Bool.and_eq_true] at hrows
    exact Database.grows_createOrder (Database.has_of_isSome hrows.1.1 hrows.1.2) product none
  | startRenewal user sub product =>
    obtain ⟨row, hrow, h⟩ := Option.bind_eq_some_iff.mp h
    split_ifs at h with hrows
    cases h
    simp only [Bool.and_eq_true, decide_eq_true_eq] at hrows
    have howner : s.db.Has (user, row.vpnServerId) := hrows.1.1 ▸ hknown.sub hrow
    exact Database.grows_createOrder howner product (some sub)
  | approve id admin idHex8 =>
    cases h
    exact Database.grows_approve hknown ..
  | _ => exact (stays_step rfl h).grows

theorem grows_run {as : List Step} (hknown : Known s.db) (h : Machine.run (step settings) s as = some t) :
    Grows s.db t.db := by
  have hstep : ∀ u a v, Grows s.db u.db → step settings u a = some v → Grows s.db v.db := fun u a v hgrows hstep =>
    hgrows.trans (grows_step (hgrows.known hknown) hstep)
  exact Machine.invariant_run (I := fun u => Grows s.db u.db) hstep h (.refl s.db)

/-! ### What the worker has in hand -/

/-- The owner of a subscription that the worker's session holds, or that its job has loaded. -/
def State.Uses (s : State) (owner : UserId × ServerId) : Prop :=
  (∃ i seen, s.session.subscriptions i = some seen ∧ seen.owner = owner) ∨
    match s.phase with
    | .decided _ _ (.go work) | .called _ _ work _ => work.sub.owner = owner
    | _ => False

/-- Every row's owner has a row, and so has every owner in use. -/
structure State.Known (s : State) : Prop where
  db : s.db.Known
  uses : ∀ owner, s.Uses owner → s.db.Has owner

theorem State.Uses.same {owner : UserId × ServerId} (h : t.Uses owner) (hsession : t.session = s.session)
    (hphase : t.phase = s.phase) : s.Uses owner := by
  unfold State.Uses at h ⊢
  rwa [hsession, hphase] at h

theorem State.Uses.of_session {owner : UserId × ServerId} {i : SubscriptionId} {seen : Subscription}
    (hseen : s.session.subscriptions i = some seen) (howner : seen.owner = owner) :
    s.Uses owner := .inl ⟨i, seen, hseen, howner⟩

theorem owner_row (work : Worker.Work) (jobType : JobType) (delivered : Bool) (now : ℤ) :
    (work.row jobType delivered now).owner = work.sub.owner := by
  cases jobType <;> rfl

/-- A row that is seen is one that was used, or a stored one. -/
theorem uses_or_stored {i : SubscriptionId} {seen : Subscription} (h : s.seen.subscriptions[i]? = some seen) :
    s.Uses seen.owner ∨ s.db.subscriptions[i]? = some seen := by
  obtain ⟨stored, hstored, hheld | rfl⟩ := Table.Held.of_view h
  · exact .inl (.of_session hheld rfl)
  · exact .inr hstored

theorem uses_sessionAfter {owner : UserId × ServerId} {delivered : Bool} {i : SubscriptionId} {seen : Subscription}
    (h : (sessionAfter s.session s.db delivered s.now s.phase).subscriptions i = some seen)
    (howner : seen.owner = owner) :
    s.Uses owner := by
  unfold sessionAfter at h
  split at h
  · cases h
  next id job work hphase =>
    split_ifs at h
    · rw [Worker.Work.hold_subscription] at h
      split_ifs at h
      · obtain rfl := Option.some.inj h
        refine .inr ?_
        rw [hphase]
        exact (owner_row ..).symm.trans howner
      · exact .of_session h howner
    · cases h
  · cases h
  · exact .of_session h howner

/-- A step takes into use what was in use, or stored. -/
theorem uses_step {a : Step} (h : step settings s a = some t) {owner : UserId × ServerId} (huse : t.Uses owner) :
    s.Uses owner ∨ ∃ (i : SubscriptionId) (sub : Subscription), s.db.subscriptions[i]? = some sub ∧
    sub.owner = owner := by
  cases a with
  | startOrder user server product =>
    simp only [step] at h
    split_ifs at h
    cases h
    exact .inl (huse.same rfl rfl)
  | startRenewal user sub product =>
    obtain ⟨row, -, h⟩ := Option.bind_eq_some_iff.mp h
    split_ifs at h
    cases h
    exact .inl (huse.same rfl rfl)
  | submitReceipt | approve | reject | checkExpired | cleanup | tick =>
    cases h
    exact .inl (huse.same rfl rfl)
  | extend | redeliver | retry =>
    obtain ⟨db, -, rfl⟩ := Option.map_eq_some_iff.mp h
    exact .inl (huse.same rfl rfl)
  | claim limit =>
    simp only [step] at h
    split at h
    next hphase hbatch =>
      cases h
      rcases huse with ⟨i, seen, hseen, -⟩ | hwork
      · cases hseen
      · simp only [hphase] at hwork
    · cases h
  | read =>
    simp only [step] at h
    split at h
    next id rest hphase hbatch =>
      obtain ⟨job, -, rfl⟩ := Option.map_eq_some_iff.mp h
      rcases huse with ⟨i, seen, hseen, howner⟩ | hwork
      · rcases IdentityMap.subscription_of_load hseen with hheld | hstored
        · exact .inl (.of_session hheld howner)
        · exact .inr ⟨i, seen, hstored, howner⟩
      · cases hread : Worker.read s.seen job s.now with
        | go work =>
          obtain ⟨seen, hseen, hfound⟩ := Worker.read_go hread
          have howner : work.sub.owner = owner := by simpa only [hread] using hwork
          rw [hfound.row] at howner
          rw [← howner]
          exact (uses_or_stored hseen).imp_right fun hstored => ⟨_, seen, hstored, rfl⟩
        | _ => simp only [hread] at hwork
    · cases h
  | call reply =>
    simp only [step] at h
    split at h
    next id job work hphase =>
      have hwork : t.session = s.session ∧ ∃ failure, t.phase = .called id job work failure := by
        split at h <;> cases h <;> exact ⟨rfl, _, rfl⟩
      obtain ⟨hsession, failure, hcalled⟩ := hwork
      refine .inl ?_
      unfold State.Uses at huse ⊢
      rw [hsession, hcalled] at huse
      rw [hphase]
      exact huse
    · cases h
  | write delivered =>
    obtain ⟨db, -, rfl⟩ := Option.map_eq_some_iff.mp h
    rcases huse with ⟨i, seen, hseen, howner⟩ | hwork
    · exact .inl (uses_sessionAfter hseen howner)
    · cases hwork
  | collect user =>
    simp only [step] at h
    split at h
    next hphase =>
      cases h
      rcases huse with ⟨i, seen, hseen, howner⟩ | hwork
      · exact .inl (.of_session (Table.Held.of_forget hseen) howner)
      · simp only [hphase] at hwork
    · cases h
  | crash =>
    cases h
    rcases huse with ⟨i, seen, hseen, -⟩ | hwork
    · cases hseen
    · cases hwork

theorem known_step {a : Step} (hknown : s.Known) (h : step settings s a = some t) : t.Known := by
  have hgrows := grows_step hknown.db h
  refine ⟨hgrows.known hknown.db, fun owner huse => hgrows.has.mpr ?_⟩
  rcases uses_step h huse with hold | ⟨i, sub, hsub, rfl⟩
  · exact hknown.uses owner hold
  · exact hknown.db.sub hsub

end Lifecycle

/-! ### Longer tables -/

/-- The same rows, with other tables of users and servers. -/
def Database.within (db : Database) (users : Table User) (servers : Table VpnServer) : Database :=
  { db with users := users, servers := servers }

section Within

variable {db : Database} {users : Table User} {servers : Table VpnServer}

@[simp] theorem within_users : (db.within users servers).users = users := rfl
@[simp] theorem within_servers : (db.within users servers).servers = servers := rfl
@[simp] theorem within_products : (db.within users servers).products = db.products := rfl
@[simp] theorem within_orders : (db.within users servers).orders = db.orders := rfl
@[simp] theorem within_subscriptions : (db.within users servers).subscriptions = db.subscriptions := rfl
@[simp] theorem within_jobs : (db.within users servers).jobs = db.jobs := rfl

theorem getElem?_of_isPrefix {α : Type*} {t t' : Table α} (h : t <+: t') {i : ℕ} (hi : i < t.length) :
    t'[i]? = t[i]? := by
  obtain ⟨rest, rfl⟩ := h
  exact List.getElem?_append_left hi

theorem isSome_of_isPrefix {α : Type*} {t t' : Table α} (h : t <+: t') {i : ℕ} (hi : (t[i]?).isSome = true) :
    (t'[i]?).isSome = true := by
  rwa [getElem?_of_isPrefix h (by simpa using hi)]

theorem commitApproval_within (id : OrderId) (a : Approval) (idHex8 : ℕ) :
    commitApproval (db.within users servers) id a idHex8 =
      (commitApproval db id a idHex8).map fun db' => db'.within users servers := by
  unfold commitApproval
  split
  · rfl
  · rw [within_subscriptions]
    split_ifs
    · rfl
    · rfl

theorem approve_within (hv : db.servers <+: servers) (hknown : db.Known) (id : OrderId) (admin : TelegramId)
    (idHex8 : ℕ) (now : ℤ) :
    (callbackAdminApproveOrder (db.within users servers) id admin idHex8 now).2 =
      (callbackAdminApproveOrder db id admin idHex8 now).2.within users servers := by
  unfold callbackAdminApproveOrder
  rw [within_orders]
  cases horder : db.orders[id]? with
  | none => rfl
  | some order =>
    have hserver : servers[order.vpnServerId]? = db.servers[order.vpnServerId]? :=
      getElem?_of_isPrefix hv (hknown.order horder).2
    dsimp only
    split_ifs
    · unfold approveOrderAtomic
      simp only [within_orders, within_subscriptions, within_products, within_servers, horder, hserver,
        commitApproval_within]
      split_ifs
      · rfl
      · split
        · cases commitApproval db id _ idHex8 <;> rfl
        · rfl
    · rfl

theorem reject_within (id : OrderId) (admin : TelegramId) (now : ℤ) :
    (callbackAdminRejectOrder (db.within users servers) id admin now).2 =
      (callbackAdminRejectOrder db id admin now).2.within users servers := by
  unfold callbackAdminRejectOrder rejectOrder
  rw [within_orders]
  split
  · rfl
  · split_ifs
    · rfl
    · rfl

theorem extend_within (id : SubscriptionId) (n : ℤ) (admin : TelegramId) (now : ℤ) :
    adminExtend (db.within users servers) id n admin now =
      (adminExtend db id n admin now).map fun db' => db'.within users servers := by
  unfold adminExtend
  rw [within_subscriptions]
  cases db.subscriptions[id]? with
  | none => rfl
  | some sub =>
    rw [Option.bind_some, Option.bind_some]
    split_ifs
    · rfl
    · rfl

theorem redeliver_within (settings : Settings) (id : SubscriptionId) (user : UserId) (now : ℤ) :
    redeliverSubscription settings (db.within users servers) id user now =
      (redeliverSubscription settings db id user now).map fun db' => db'.within users servers := by
  unfold redeliverSubscription
  rw [within_subscriptions]
  cases db.subscriptions[id]? with
  | none => rfl
  | some sub =>
    rw [Option.bind_some, Option.bind_some]
    split_ifs
    · rfl
    · rfl

theorem retry_within (id : JobId) (admin : TelegramId) (now : ℤ) :
    adminRetry (db.within users servers) id admin now =
      (adminRetry db id admin now).map fun db' => db'.within users servers := by
  unfold adminRetry
  rw [within_jobs]
  cases db.jobs[id]? with
  | none => rfl
  | some job =>
    have hblocker : retryBlocker (db.within users servers) job now = retryBlocker db job now := rfl
    rw [Option.bind_some, Option.bind_some, hblocker]
    split_ifs
    · rfl
    · rfl

theorem foldl_within {α : Type*} {f : Database → α → Database}
    (h : ∀ db a, f (db.within users servers) a = (f db a).within users servers) (as : List α) (db : Database) :
    as.foldl f (db.within users servers) = (as.foldl f db).within users servers := by
  induction as generalizing db with
  | nil => rfl
  | cons a as ih => rw [List.foldl_cons, List.foldl_cons, h, ih]

theorem checkExpired_within (now : ℤ) :
    checkExpiredSubscriptions (db.within users servers) now =
      (checkExpiredSubscriptions db now).within users servers := by
  apply foldl_within
  intro db id
  unfold disableExpired
  rw [within_jobs]
  split_ifs
  · rfl
  · rfl

theorem cleanup_within (settings : Settings) (now : ℤ) :
    cleanupRemovedPeers settings (db.within users servers) now =
      (cleanupRemovedPeers settings db now).within users servers := by
  apply foldl_within
  intro db id
  unfold removeDisabled
  rw [within_jobs]
  split_ifs
  · rfl
  · rfl

theorem read_within (hu : db.users <+: users) (hv : db.servers <+: servers) {job : Job}
    (hhas : ∀ sub, db.subscriptions[job.aggregateId]? = some sub → db.Has sub.owner) (now : ℤ) :
    Worker.read (db.within users servers) job now = Worker.read db job now := by
  unfold Worker.read
  rw [within_subscriptions]
  cases hsub : db.subscriptions[job.aggregateId]? with
  | none => rfl
  | some sub =>
    have huser : users[sub.userId]? = db.users[sub.userId]? := getElem?_of_isPrefix hu (hhas sub hsub).1
    have hserver : servers[sub.vpnServerId]? = db.servers[sub.vpnServerId]? := getElem?_of_isPrefix hv (hhas sub hsub).2
    simp only [Worker.readSubscription, Worker.goOn, Worker.lookupServer, within_users, within_servers, within_orders,
      huser, hserver]

theorem write_within (jobType : JobType) (id : SubscriptionId) (work : Worker.Work) (delivered : Bool) (now : ℤ) :
    Worker.write (db.within users servers) jobType id work delivered now =
      (Worker.write db jobType id work delivered now).map fun db' => db'.within users servers := by
  cases jobType with
  | createPeer =>
    by_cases htaken : Worker.peerTaken db.subscriptions id work.peer = true
    · rw [show Worker.write db .createPeer id work delivered now = none from if_pos htaken]
      exact if_pos htaken
    · rw [show Worker.write db .createPeer id work delivered now = some _ from if_neg htaken]
      exact if_neg htaken
  | redeliverConfig => cases delivered <;> rfl
  | disablePeer | removePeer | enablePeer => rfl

end Within

namespace Lifecycle

variable {settings : Settings} {s t : State} {users : Table User} {servers : Table VpnServer}

def State.within (s : State) (users : Table User) (servers : Table VpnServer) : State :=
  { s with db := s.db.within users servers }

theorem writeJob_within (db : Database) (delivered : Bool) (now : ℤ) (phase : Phase) :
    writeJob (db.within users servers) delivered now phase =
      (writeJob db delivered now phase).map fun db' => db'.within users servers := by
  unfold writeJob
  split
  · rfl
  · rfl
  · rw [write_within]
    cases Worker.write db _ _ _ delivered now <;> rfl
  · rfl
  · rfl

theorem sessionAfter_within (session : IdentityMap) (db : Database) (delivered : Bool) (now : ℤ) (phase : Phase) :
    sessionAfter session (db.within users servers) delivered now phase =
      sessionAfter session db delivered now phase := by
  unfold sessionAfter
  split
  · rfl
  · rw [write_within, Option.isSome_map]
  · rfl
  · rfl

/-- The owners of the rows the worker's session sees have rows. -/
theorem State.Known.seen (h : s.Known) {i : SubscriptionId} {sub : Subscription}
    (hsub : s.seen.subscriptions[i]? = some sub) :
    s.seen.Has sub.owner := by
  rcases uses_or_stored hsub with huse | hstored
  · exact h.uses _ huse
  · exact h.db.sub hstored

/-- A step goes the same way over longer tables of users and servers. -/
theorem step_within {a : Step} (hu : s.db.users <+: users) (hv : s.db.servers <+: servers) (hknown : s.Known)
    (h : step settings s a = some t) : step settings (s.within users servers) a = some (t.within users servers) := by
  cases a with
  | startOrder user server product =>
    simp only [step] at h
    split_ifs at h with hrows
    cases h
    simp only [Bool.and_eq_true] at hrows
    have hwithin : ((users[user]?).isSome && (servers[server]?).isSome && (s.db.products[product]?).isSome) = true := by
      rw [isSome_of_isPrefix hu hrows.1.1, isSome_of_isPrefix hv hrows.1.2, hrows.2]
      rfl
    exact if_pos hwithin
  | startRenewal user sub product =>
    obtain ⟨row, hrow, h⟩ := Option.bind_eq_some_iff.mp h
    split_ifs at h with hrows
    cases h
    simp only [Bool.and_eq_true] at hrows
    have hwithin : (row.userId = user && (servers[row.vpnServerId]?).isSome && (s.db.products[product]?).isSome) =
      true := by
      rw [hrows.1.1, isSome_of_isPrefix hv hrows.1.2, hrows.2]
      rfl
    exact Option.bind_eq_some_iff.mpr ⟨row, hrow, if_pos hwithin⟩
  | submitReceipt id receipt =>
    cases h
    rfl
  | approve id admin idHex8 =>
    cases h
    exact congrArg some (congrArg (fun db => { s with db := db }) (approve_within hv hknown.db id admin idHex8 s.now))
  | reject id admin =>
    cases h
    exact congrArg some (congrArg (fun db => { s with db := db }) (reject_within id admin s.now))
  | extend id n admin =>
    obtain ⟨db, hdb, rfl⟩ := Option.map_eq_some_iff.mp h
    exact Option.map_eq_some_iff.mpr ⟨_, (extend_within id n admin s.now).trans (congrArg _ hdb), rfl⟩
  | redeliver id user =>
    obtain ⟨db, hdb, rfl⟩ := Option.map_eq_some_iff.mp h
    exact Option.map_eq_some_iff.mpr ⟨_, (redeliver_within settings id user s.now).trans (congrArg _ hdb), rfl⟩
  | retry id admin =>
    obtain ⟨db, hdb, rfl⟩ := Option.map_eq_some_iff.mp h
    exact Option.map_eq_some_iff.mpr ⟨_, (retry_within id admin s.now).trans (congrArg _ hdb), rfl⟩
  | checkExpired =>
    cases h
    exact congrArg some (congrArg (fun db => { s with db := db }) (checkExpired_within s.now))
  | cleanup =>
    cases h
    exact congrArg some (congrArg (fun db => { s with db := db }) (cleanup_within settings s.now))
  | claim limit =>
    simp only [step] at h ⊢
    split at h
    next hphase hbatch =>
      cases h
      simp only [State.within, hphase, hbatch]
      rfl
    · cases h
  | read =>
    simp only [step] at h
    split at h
    next id rest hphase hbatch =>
      obtain ⟨job, hjob, rfl⟩ := Option.map_eq_some_iff.mp h
      have hread : Worker.read (s.within users servers).seen job (s.within users servers).now =
        Worker.read s.seen job s.now :=
        read_within (show s.seen.users <+: users from hu) (show s.seen.servers <+: servers from hv)
          (fun _ hsub => hknown.seen hsub) s.now
      have hphase' : (s.within users servers).phase = .idle := hphase
      have hbatch' : (s.within users servers).batch = id :: rest := hbatch
      have hjob' : (s.within users servers).db.jobs[id]? = some job := hjob
      simp only [step, hphase', hbatch', hjob', Option.map_some, hread]
      rfl
    · cases h
  | call reply =>
    simp only [step] at h
    split at h
    next id job work hphase =>
      simp only [step, State.within, hphase]
      split at h
      · cases h
        simp only
      · cases h
        simp only
    · cases h
  | write delivered =>
    obtain ⟨db, hdb, rfl⟩ := Option.map_eq_some_iff.mp h
    refine Option.map_eq_some_iff.mpr ⟨_, (writeJob_within s.db delivered s.now s.phase).trans (congrArg _ hdb), ?_⟩
    simp only [State.within, sessionAfter_within]
  | collect user =>
    simp only [step] at h ⊢
    split at h
    next hphase =>
      cases h
      simp only [State.within, hphase]
    · cases h
  | crash =>
    cases h
    rfl
  | tick d =>
    cases h
    rfl

theorem run_within {as : List Step} (hu : s.db.users <+: users) (hv : s.db.servers <+: servers) (hknown : s.Known)
    (h : Machine.run (step settings) s as = some t) :
    Machine.run (step settings) (s.within users servers) as = some (t.within users servers) := by
  induction as generalizing s with
  | nil =>
    cases h
    rfl
  | cons a as ih =>
    obtain ⟨u, hu', hrest⟩ := Machine.run_cons_eq_some.mp h
    have hgrows := grows_step hknown.db hu'
    refine Machine.run_cons_eq_some.mpr ⟨_, step_within hu hv hknown hu', ih ?_ ?_ (known_step hknown hu') hrest⟩
    · rwa [hgrows.users]
    · rwa [hgrows.servers]

end Lifecycle

end AmneziaVpnBot
