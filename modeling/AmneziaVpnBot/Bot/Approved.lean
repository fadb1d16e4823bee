import AmneziaVpnBot.Bot.Refines

/-! Where subscriptions come from. The server makes a client for a subscription, and a subscription is only ever made
when an admin approves an order that its owner has placed. -/

namespace AmneziaVpnBot.Bot

open AmneziaVpnBot.Database (stays_or_opens_approve stays_reject stays_extend stays_callbackRetry)

variable {settings : BotSettings} {c : Context} {m : Option Support.Incoming} {s t : State} {db db' : Database}
  {chat : Chat}

/-! ### One update -/

/-- A handler makes an order for its sender, or none. -/
theorem wrote_orders (h : Wrote c m db db' chat) :
    db'.orders.map Order.owner = db.orders.map Order.owner ∨
      ∃ server, db'.orders.map Order.owner = db.orders.map Order.owner ++ [(c.user, server)] := by
  cases h with
  | looked | language | redelivered | messaged | opened | replying | replied | closed | toggled | blocked =>
    exact .inl rfl
  | @bought server => exact .inr ⟨server, map_insert ..⟩
  | @renewed i sub => exact .inr ⟨sub.vpnServerId, map_insert ..⟩
  | @receipt id order hrow hid receipt =>
    have howner : ∀ order : Order, (order.submitReceipt receipt c.now).owner = order.owner := fun _ => rfl
    exact .inl (map_update howner ..)
  | approved hadmin id idHex8 =>
    rcases stays_or_opens_approve id c.sender.id idHex8 c.now with h | ⟨_, h⟩
    · exact .inl h.orders
    · exact .inl h.orders
  | rejected hadmin id => exact .inl (stays_reject id c.sender.id c.now).orders
  | extended hadmin hcore => exact .inl (stays_extend hcore).orders
  | retried hadmin ids => exact .inl (stays_callbackRetry ids c.sender.id c.now db.core).orders

/-- A handler makes a subscription for an order that awaits review, and its sender is an admin, or it makes none. -/
theorem wrote_origins (h : Wrote c m db db' chat) :
    db'.subscriptions.map Subscription.origin = db.subscriptions.map Subscription.origin ∨
      c.isAdmin = true ∧ ∃ id order, db.orders[id]? = some order ∧ order.awaitsReview = true ∧
        db'.subscriptions.map Subscription.origin = db.subscriptions.map Subscription.origin ++
        [(id, order.owner)] := by
  cases h with
  | approved hadmin id idHex8 =>
    rcases stays_or_opens_approve id c.sender.id idHex8 c.now with h | ⟨order, h⟩
    · exact .inl h.subscriptions
    · exact .inr ⟨hadmin, id, order, h.row, h.awaits, h.subscriptions⟩
  | rejected hadmin id =>
    exact .inl (stays_reject id c.sender.id c.now).subscriptions
  | extended hadmin hcore => exact .inl (stays_extend hcore).subscriptions
  | retried hadmin ids => exact .inl (stays_callbackRetry ids c.sender.id c.now db.core).subscriptions
  | _ => exact .inl rfl

/-! ### One step -/

theorem makesRows_of_isBackground {a : Lifecycle.Step} (h : isBackground a = true) : a.makesRows = false := by
  cases a with
  | startOrder | startRenewal | approve => cases h
  | _ => rfl

theorem update_orders {u : Update} {draw : Draw} (h : Handled settings s u draw t) :
    t.db.orders.map Order.owner = s.db.orders.map Order.owner ∨ s.Welcome u ∧
      ∃ server, t.db.orders.map Order.owner = s.db.orders.map Order.owner ++ [(s.sender u, server)] := by
  cases h with
  | untaken | stopped => exact .inl rfl
  | through hwelcome hwrote => exact (wrote_orders hwrote).imp_right fun h => ⟨hwelcome, h⟩

theorem update_origins {u : Update} {draw : Draw} (h : Handled settings s u draw t) :
    t.db.subscriptions.map Subscription.origin = s.db.subscriptions.map Subscription.origin ∨
      s.Welcome u ∧ settings.isAdmin u.sender.id = true ∧ ∃ id order, s.db.orders[id]? = some order ∧
        order.awaitsReview = true ∧ t.db.subscriptions.map Subscription.origin =
          s.db.subscriptions.map Subscription.origin ++ [(id, order.owner)] := by
  cases h with
  | untaken | stopped => exact .inl rfl
  | through hwelcome hwrote => exact (wrote_origins hwrote).imp_right fun h => ⟨hwelcome, h⟩

theorem step_orders {x : Step} (h : step settings s x = some t) :
    t.db.orders.map Order.owner = s.db.orders.map Order.owner ∨ ∃ u draw server, x = .update u draw ∧ s.Welcome u ∧
      t.db.orders.map Order.owner = s.db.orders.map Order.owner ++ [(s.sender u, server)] := by
  cases stepped h with
  | @updated u draw t hfits hhandled =>
    rcases update_orders hhandled with h | ⟨hwelcome, server, h⟩
    · exact .inl h
    · exact .inr ⟨u, draw, server, rfl, hwelcome, h⟩
  | restarted configured => exact .inl rfl
  | ran hbackground hran => exact .inl (Lifecycle.stays_step (makesRows_of_isBackground hbackground) hran).orders

theorem step_origins {x : Step} (h : step settings s x = some t) :
    t.db.subscriptions.map Subscription.origin = s.db.subscriptions.map Subscription.origin ∨
      ∃ u draw, x = .update u draw ∧ s.Welcome u ∧ settings.isAdmin u.sender.id = true ∧
        ∃ id order, s.db.orders[id]? = some order ∧ order.awaitsReview = true ∧
          t.db.subscriptions.map Subscription.origin =
            s.db.subscriptions.map Subscription.origin ++ [(id, order.owner)] := by
  cases stepped h with
  | @updated u draw t hfits hhandled =>
    rcases update_origins hhandled with h | ⟨hwelcome, hadmin, h⟩
    · exact .inl h
    · exact .inr ⟨u, draw, rfl, hwelcome, hadmin, h⟩
  | restarted configured => exact .inl rfl
  | ran hbackground hran => exact .inl (Lifecycle.stays_step (makesRows_of_isBackground hbackground) hran).subscriptions

/-! ### Runs -/

/-- In the run an update makes the order, and its sender is not blocked and has the order's user row. -/
def OrderedBy (settings : BotSettings) (s₀ : State) (as : List Step) (id : OrderId)
    (owner : UserId × ServerId) : Prop :=
  ∃ (bs cs : List Step) (u : Update) (draw : Draw) (s v : State), as = bs ++ .update u draw :: cs ∧
    Machine.run (step settings) s₀ bs = some s ∧ s.Welcome u ∧ s.sender u = owner.1 ∧ id = s.db.orders.fresh ∧
    step settings s (.update u draw) = some v ∧ (v.db.orders[id]?).map Order.owner = some owner

/-- In the run an admin's update makes the subscription, for an order of its owner that awaits review, and that the
owner has made before. -/
def ApprovedBy (settings : BotSettings) (s₀ : State) (as : List Step) (i : SubscriptionId)
    (sub : Subscription) : Prop :=
  ∃ (bs cs : List Step) (u : Update) (draw : Draw) (s v : State) (order : Order), as = bs ++ .update u draw :: cs ∧
    Machine.run (step settings) s₀ bs = some s ∧ s.Welcome u ∧ settings.isAdmin u.sender.id = true ∧
    s.db.orders[sub.orderId]? = some order ∧ order.awaitsReview = true ∧ order.owner = sub.owner ∧
    i = s.db.subscriptions.fresh ∧ step settings s (.update u draw) = some v ∧
    (v.db.subscriptions[i]?).map Subscription.origin = some sub.origin ∧
    OrderedBy settings s₀ bs sub.orderId sub.owner

theorem eq_of_appended {α : Type} {l : List α} {a b : α} {i : ℕ} (hnot : ¬ l[i]? = some b)
    (h : (l ++ [a])[i]? = some b) :
    i = l.length ∧ a = b := by
  have hget : (l ++ [a])[i]? = if i = l.length then some a else l[i]? := Table.get_insert l a i
  rw [hget] at h
  split_ifs at h with hi
  · exact ⟨hi, Option.some.inj h⟩
  · exact absurd h hnot

variable {servers : Table ServerRow} {products : Table ProductRow} {now : ℤ} {as : List Step}

theorem orderedBy (h : Machine.run (step settings) (start servers products now) as = some t)
    {id : OrderId} {order : Order} (horder : t.db.orders[id]? = some order) :
    OrderedBy settings (start servers products now) as id order.owner := by
  have hend : (t.db.orders[id]?).map Order.owner = some order.owner := by rw [horder, Option.map_some]
  obtain ⟨bs, x, cs, s, v, rfl, hs, hnot, hstep, hv⟩ := Machine.appears
    (P := fun s => (s.db.orders[id]?).map Order.owner = some order.owner) h (by simp [start]) hend
  rcases step_orders hstep with hsame | ⟨u, draw, server, rfl, hwelcome, hnew⟩
  · rw [← List.getElem?_map, hsame, List.getElem?_map] at hv
    exact absurd hv hnot
  · have hget := hv
    rw [← List.getElem?_map] at hnot hget
    rw [hnew] at hget
    obtain ⟨hid, howner⟩ := eq_of_appended hnot hget
    exact ⟨bs, cs, u, draw, s, v, rfl, hs, hwelcome, congrArg Prod.fst howner,
      hid.trans (List.length_map ..), hstep, hv⟩

/-- In every run of the bot, whatever updates come from whomever: a subscription there is has been made by the update of
an admin, for an order that awaited review then and that an earlier update of the subscription's own user had made. -/
theorem subscription_approved (h : Machine.run (step settings) (start servers products now) as = some t)
    {i : SubscriptionId} {sub : Subscription} (hsub : t.db.subscriptions[i]? = some sub) :
    ApprovedBy settings (start servers products now) as i sub := by
  have hend : (t.db.subscriptions[i]?).map Subscription.origin = some sub.origin := by rw [hsub, Option.map_some]
  obtain ⟨bs, x, cs, s, v, rfl, hs, hnot, hstep, hv⟩ := Machine.appears
    (P := fun s => (s.db.subscriptions[i]?).map Subscription.origin = some sub.origin) h (by simp [start]) hend
  rcases step_origins hstep with hsame | ⟨u, draw, rfl, hwelcome, hadmin, id, order, horder, hawaits, hnew⟩
  · rw [← List.getElem?_map, hsame, List.getElem?_map] at hv
    exact absurd hv hnot
  · have hget := hv
    rw [← List.getElem?_map] at hnot hget
    rw [hnew] at hget
    obtain ⟨hi, horigin⟩ := eq_of_appended hnot hget
    obtain ⟨rfl, howner⟩ := Prod.mk.inj horigin
    have hordered := orderedBy hs horder
    rw [howner] at hordered
    exact ⟨bs, cs, u, draw, s, v, order, rfl, hs, hwelcome, hadmin, horder, hawaits, howner,
      hi.trans (List.length_map ..), hstep, hv, hordered⟩

/-- The subscription of the first sale. -/
theorem subscription_approved_small : ∃ t sub, smallEnd = some t ∧ t.db.subscriptions[0]? = some sub ∧
    ApprovedBy smallSettings smallStart firstSale 0 sub := by
  have hsome : smallEnd.any (fun t => (t.db.subscriptions[0]?).isSome) = true := by decide +kernel
  obtain ⟨t, ht, hsub⟩ := (Option.any_eq_true _ _).mp hsome
  obtain ⟨sub, hsub⟩ := Option.isSome_iff_exists.mp hsub
  exact ⟨t, sub, ht, hsub, subscription_approved ht hsub⟩

end AmneziaVpnBot.Bot
