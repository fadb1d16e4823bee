import AmneziaVpnBot.Lifecycle.OpenJobs

/-! Approved orders. An order, the subscription made for it and its create job are changed
by the bot, the worker and the retry handler in separate transactions, and stay in step:
as long as the subscription has no peer the order is being provisioned and the job is not
done, and the write that gives it one fulfils the order and completes the job. -/

namespace AmneziaVpnBot.Lifecycle

/-- A receipt is submitted only for an order that still awaits its review. -/
def receiptFits (s : State) : Step → Bool
  | .submitReceipt id _ => s.db.orders[id]?.all Order.awaitsReview
  | _ => true

/-- The order's row is settled by its own subscription. -/
def Owned (order : Order) : Prop := order.status = .provisioning ∨ order.status = .fulfilled

/-- Which order a subscription is for, and the peer it has. -/
def ownerKey (sub : Subscription) : OrderId × Option PeerName := (sub.orderId, sub.peerExternalId)

structure InStep (db : Database) : Prop where
  order : ∀ (i : SubscriptionId) (sub : Subscription), db.subscriptions[i]? = some sub → ∃ order,
    db.orders[sub.orderId]? = some order ∧
      order.status = if sub.peerExternalId.isSome then .fulfilled else .provisioning
  unique : ∀ (i j : SubscriptionId) (a b : Subscription), db.subscriptions[i]? = some a →
    db.subscriptions[j]? = some b → a.orderId = b.orderId → i = j
  waiting : ∀ (id : OrderId) (order : Order), db.orders[id]? = some order → order.status = .provisioning →
    ∃ (i : SubscriptionId) (sub : Subscription), db.subscriptions[i]? = some sub ∧ sub.orderId = id
  create : ∀ (i : SubscriptionId) (sub : Subscription), db.subscriptions[i]? = some sub → ∃ (k : JobId) (job : Job),
    db.jobs[k]? = some job ∧ job.jobType = .createPeer ∧ job.aggregateId = i ∧
      (job.status = .succeeded ↔ sub.peerExternalId.isSome = true)

/-- Every create job is still there, and done exactly if it was. -/
def CreatesKept (jobs jobs' : Table Job) : Prop :=
  ∀ (k : JobId) (job : Job), jobs[k]? = some job → job.jobType = .createPeer → ∃ job', jobs'[k]? = some job' ∧
    job'.jobType = .createPeer ∧ job'.aggregateId = job.aggregateId ∧
    (job'.status = .succeeded ↔ job.status = .succeeded)

theorem CreatesKept.refl (jobs : Table Job) : CreatesKept jobs jobs :=
  fun _ job hjob ht => ⟨job, hjob, ht, rfl, Iff.rfl⟩

theorem CreatesKept.trans {a b c : Table Job} (hab : CreatesKept a b) (hbc : CreatesKept b c) : CreatesKept a c := by
  intro k job hjob ht
  obtain ⟨job', hjob', ht', hagg, hdone⟩ := hab k job hjob ht
  obtain ⟨job'', hjob'', ht'', hagg', hdone'⟩ := hbc k job' hjob' ht'
  exact ⟨job'', hjob'', ht'', hagg'.trans hagg, hdone'.trans hdone⟩

theorem CreatesKept.insert (jobs : Table Job) (job : Job) : CreatesKept jobs (jobs.insert job) := fun _ job hjob ht =>
  ⟨job, Table.get_insert_of_some _ hjob, ht, rfl, Iff.rfl⟩

/-- An update of one job that is no create job, or that neither completes nor reopens it. -/
theorem CreatesKept.update {jobs : Table Job} {id : JobId} {job : Job} {f : Job → Job} (hjob : jobs[id]? = some job)
    (hf : job.jobType = .createPeer → (f job).jobType = .createPeer ∧ (f job).aggregateId = job.aggregateId ∧
      ((f job).status = .succeeded ↔ job.status = .succeeded)) : CreatesKept jobs (jobs.update id f) := by
  intro k b hb ht
  by_cases hk : id = k
  · subst hk
    rw [hjob] at hb
    cases hb
    obtain ⟨ht', hagg, hdone⟩ := hf ht
    exact ⟨f job, by rw [Table.get_update_self, hjob]; rfl, ht', hagg, hdone⟩
  · exact ⟨b, by rw [Table.get_update_of_ne _ _ hk, hb], ht, rfl, Iff.rfl⟩

/-! ### Changes of one kind -/

theorem get_of_map_eq {subs subs' : Table Subscription} (h : subs'.map ownerKey = subs.map ownerKey)
    {i : SubscriptionId} {sub' : Subscription} (hsub' : subs'[i]? = some sub') :
    ∃ sub, subs[i]? = some sub ∧ sub'.orderId = sub.orderId ∧ sub'.peerExternalId = sub.peerExternalId := by
  have hget := congrArg (fun l => l[i]?) h
  simp only [List.getElem?_map, hsub', Option.map_some] at hget
  obtain ⟨sub, hsub, hkey⟩ := Option.map_eq_some_iff.mp hget.symm
  obtain ⟨horder, hpeer⟩ := Prod.mk.inj hkey
  exact ⟨sub, hsub, horder.symm, hpeer.symm⟩

/-- No order changes, no subscription changes its order or its peer, no create job gets done. -/
theorem InStep.keep {db db' : Database} (h : InStep db) (ho : db'.orders = db.orders)
    (hs : db'.subscriptions.map ownerKey = db.subscriptions.map ownerKey) (hj : CreatesKept db.jobs db'.jobs) :
    InStep db' := by
  refine ⟨fun i sub' hsub' => ?_, fun i j a' b' ha' hb' hab => ?_, fun id order hid hstatus => ?_,
    fun i sub' hsub' => ?_⟩
  · obtain ⟨sub, hsub, horder, hpeer⟩ := get_of_map_eq hs hsub'
    rw [ho, horder, hpeer]
    exact h.order i sub hsub
  · obtain ⟨a, ha, hao, -⟩ := get_of_map_eq hs ha'
    obtain ⟨b, hb, hbo, -⟩ := get_of_map_eq hs hb'
    exact h.unique i j a b ha hb (by rw [← hao, hab, hbo])
  · rw [ho] at hid
    obtain ⟨i, sub, hsub, horder⟩ := h.waiting id order hid hstatus
    obtain ⟨sub', hsub', horder', -⟩ := get_of_map_eq hs.symm hsub
    exact ⟨i, sub', hsub', horder'.symm.trans horder⟩
  · obtain ⟨sub, hsub, -, hpeer⟩ := get_of_map_eq hs hsub'
    obtain ⟨k, job, hjob, ht, hagg, hdone⟩ := h.create i sub hsub
    obtain ⟨job', hjob', ht', hagg', hdone'⟩ := hj k job hjob ht
    exact ⟨k, job', hjob', ht', hagg'.trans hagg, by rw [hpeer]; exact hdone'.trans hdone⟩

/-- Orders change that no subscription owns, and none of them is provisioned by that. -/
theorem InStep.orders {db : Database} (h : InStep db) {orders : Table Order}
    (hold : ∀ (id : OrderId) (order : Order), db.orders[id]? = some order → Owned order → orders[id]? = some order)
    (hnew : ∀ (id : OrderId) (order : Order), orders[id]? = some order → order.status = .provisioning →
      db.orders[id]? = some order) : InStep { db with orders := orders } := by
  refine ⟨fun i sub hsub => ?_, h.unique, fun id order hid hstatus => ?_, h.create⟩
  · obtain ⟨order, hid, hstatus⟩ := h.order i sub hsub
    refine ⟨order, hold _ _ hid ?_, hstatus⟩
    unfold Owned
    rw [hstatus]
    split_ifs
    · exact .inr rfl
    · exact .inl rfl
  · exact h.waiting id order (hnew id order hid hstatus) hstatus

/-- One order changes that is not owned. -/
theorem InStep.updateOrder {db : Database} (h : InStep db) {id : OrderId} {f : Order → Order}
    (hf : ∀ order, db.orders[id]? = some order → ¬ Owned order ∧ (f order).status ≠ .provisioning) :
    InStep { db with orders := db.orders.update id f } := by
  refine h.orders (fun id' order' hid' howned => ?_) fun id' order' hid' hstatus => ?_
  · rw [Table.get_update_of_ne _ _ ?_]
    · exact hid'
    · rintro rfl
      exact (hf order' hid').1 howned
  · rw [Table.get_update] at hid'
    split_ifs at hid' with he
    · subst he
      obtain ⟨order, hid, rfl⟩ := Option.map_eq_some_iff.mp hid'
      exact absurd hstatus (hf order hid).2
    · exact hid'

/-- The commit of a session that loaded an order that is not owned. -/
theorem InStep.review {db : Database} (h : InStep db) {id : OrderId} {order : Order} (row : Order)
    (hid : db.orders[id]? = some order) (hfree : ¬ Owned order) (hrow : row.status ≠ .provisioning) :
    InStep { db with orders := db.orders.update id (order.flush row) } := by
  apply h.updateOrder
  intro order' hid'
  rw [hid] at hid'
  cases hid'
  exact ⟨hfree, by rwa [Order.flush_current]⟩

/-- A subscription is made for an order that had none, with its create job. -/
theorem InStep.provisionNew {db : Database} (h : InStep db) {id : OrderId} {order : Order} {f : Order → Order}
    {sub : Subscription} {job : Job} {audit : List AuditEvent} (hid : db.orders[id]? = some order)
    (hfree : ∀ (i : SubscriptionId) (a : Subscription), db.subscriptions[i]? = some a → a.orderId ≠ id)
    (hf : (f order).status = .provisioning) (horder : sub.orderId = id) (hpeer : sub.peerExternalId = none)
    (htype : job.jobType = .createPeer) (hagg : job.aggregateId = db.subscriptions.fresh)
    (hopen : job.status ≠ .succeeded) :
    InStep { db with
      orders := db.orders.update id f, subscriptions := db.subscriptions.insert sub, jobs := db.jobs.insert job
      audit := audit } := by
  have hset : (db.orders.update id f)[id]? = some (f order) := by rw [Table.get_update_self, hid]; rfl
  have hget : (db.subscriptions.insert sub)[db.subscriptions.fresh]? = some sub := by simp [Table.get_insert]
  refine ⟨fun i a ha => ?_, fun i j a b ha hb hab => ?_, fun id' order' hid' hstatus => ?_, fun i a ha => ?_⟩
  · simp only [Table.get_insert] at ha
    split_ifs at ha with hi
    · cases ha
      exact ⟨f order, horder ▸ hset, by simp [hpeer, hf]⟩
    · obtain ⟨order', ho, hs⟩ := h.order i a ha
      exact ⟨order', by rw [Table.get_update_of_ne _ _ (hfree i a ha).symm, ho], hs⟩
  · simp only [Table.get_insert] at ha hb
    split_ifs at ha hb with hi hj hj
    · rw [hi, hj]
    · cases ha
      exact absurd (hab.symm.trans horder) (hfree j b hb)
    · cases hb
      exact absurd (hab.trans horder) (hfree i a ha)
    · exact h.unique i j a b ha hb hab
  · by_cases hne : id = id'
    · exact ⟨db.subscriptions.fresh, sub, hget, horder.trans hne⟩
    · rw [Table.get_update_of_ne _ _ hne] at hid'
      obtain ⟨i, a, ha, hao⟩ := h.waiting id' order' hid' hstatus
      exact ⟨i, a, Table.get_insert_of_some _ ha, hao⟩
  · simp only [Table.get_insert] at ha
    split_ifs at ha with hi
    · cases ha
      exact ⟨db.jobs.fresh, job, by simp [Table.get_insert], htype, hi ▸ hagg, by simp [hpeer, hopen]⟩
    · obtain ⟨k, b, hb, hcreate⟩ := h.create i a ha
      exact ⟨k, b, Table.get_insert_of_some _ hb, hcreate⟩

/-- A subscription gets its peer: its order is fulfilled and its create job done. -/
theorem InStep.provisioned {db : Database} (h : InStep db) {i : SubscriptionId} {k : JobId}
    {sub : Subscription} {job : Job} {f : Order → Order} {g : Subscription → Subscription}
    (hsub : db.subscriptions[i]? = some sub) (hjob : db.jobs[k]? = some job) (htype : job.jobType = .createPeer)
    (hagg : job.aggregateId = i) (hf : ∀ order, db.orders[sub.orderId]? = some order → (f order).status = .fulfilled)
    (horder : (g sub).orderId = sub.orderId) (hpeer : (g sub).peerExternalId.isSome = true) :
    InStep { db with
      orders := db.orders.update sub.orderId f, subscriptions := db.subscriptions.update i g
      jobs := db.jobs.update k Job.markCompleted } := by
  -- a row after the write is a row before it for the same order
  have hrow : ∀ {j : SubscriptionId} {a' : Subscription}, (db.subscriptions.update i g)[j]? = some a' →
      ∃ a, db.subscriptions[j]? = some a ∧ a'.orderId = a.orderId := by
    intro j a' ha'
    by_cases hij : i = j
    · subst hij
      rw [Table.get_update_self, hsub] at ha'
      cases ha'
      exact ⟨sub, hsub, horder⟩
    · rw [Table.get_update_of_ne _ _ hij] at ha'
      exact ⟨a', ha', rfl⟩
  refine ⟨fun j a' ha' => ?_, fun j l a' b' ha' hb' hab => ?_, fun id order' hid hstatus => ?_, fun j a' ha' => ?_⟩
  · by_cases hij : i = j
    · subst hij
      rw [Table.get_update_self, hsub] at ha'
      cases ha'
      obtain ⟨order, ho, -⟩ := h.order i sub hsub
      refine ⟨f order, ?_, by simp [hpeer, hf order ho]⟩
      rw [horder, Table.get_update_self, ho]; rfl
    · rw [Table.get_update_of_ne _ _ hij] at ha'
      obtain ⟨order, ho, hs⟩ := h.order j a' ha'
      refine ⟨order, ?_, hs⟩
      rw [Table.get_update_of_ne _ _ fun he => hij (h.unique i j sub a' hsub ha' he), ho]
  · obtain ⟨a, ha, hao⟩ := hrow ha'
    obtain ⟨b, hb, hbo⟩ := hrow hb'
    exact h.unique j l a b ha hb (by rw [← hao, hab, hbo])
  · have hne : sub.orderId ≠ id := by
      rintro rfl
      rw [Table.get_update_self] at hid
      obtain ⟨order, ho, rfl⟩ := Option.map_eq_some_iff.mp hid
      rw [hf order ho] at hstatus
      cases hstatus
    rw [Table.get_update_of_ne _ _ hne] at hid
    obtain ⟨j, a, ha, hao⟩ := h.waiting id order' hid hstatus
    refine ⟨j, a, ?_, hao⟩
    rw [Table.get_update_of_ne _ _ ?_, ha]
    rintro rfl
    rw [hsub] at ha
    cases ha
    exact hne hao
  · by_cases hij : i = j
    · subst hij
      rw [Table.get_update_self, hsub] at ha'
      cases ha'
      exact ⟨k, job.markCompleted, by rw [Table.get_update_self, hjob]; rfl, htype, hagg, by simp [hpeer]⟩
    · rw [Table.get_update_of_ne _ _ hij] at ha'
      obtain ⟨l, b, hb, hbt, hba, hdone⟩ := h.create j a' ha'
      refine ⟨l, b, ?_, hbt, hba, hdone⟩
      rw [Table.get_update_of_ne _ _ ?_, hb]
      rintro rfl
      rw [hjob] at hb
      cases hb
      exact hij (hagg.symm.trans hba)

/-! ### The rest of the bot -/

theorem map_ownerKey_update {subs : Table Subscription} {i : SubscriptionId} {f : Subscription → Subscription}
    (hf : ∀ sub, subs[i]? = some sub → ownerKey (f sub) = ownerKey sub) :
    (subs.update i f).map ownerKey = subs.map ownerKey := by
  apply List.ext_getElem?
  intro j
  rw [List.getElem?_map, List.getElem?_map, Table.get_update]
  split_ifs with hij
  · subst hij
    cases hsub : subs[i]? with
    | none => rfl
    | some sub => simp [hf sub hsub]
  · rfl

theorem Txn.createsKept {settings : Settings} {now : ℤ} {C : SubscriptionId → Prop} {db db' : Database}
    (h : Txn settings now C db db') : CreatesKept db.jobs db'.jobs := by
  cases h with
  | other hv hs hj => rw [hj]; exact .refl _
  | enqueue hv hs hj => rw [hj]; exact .insert _ _
  | requeue hv hs hj hjob hfailed =>
    rw [hj]
    exact .update hjob fun ht => ⟨ht, rfl, by simp [hfailed]⟩
  | credit reason hv hs hj =>
    rw [hj]
    split_ifs
    · exact .refl _
    · exact .insert _ _
  | debit hv hs hj => rw [hj]; exact .refl _
  | create hv hs hj => rw [hj]; exact .insert _ _

theorem Pass.createsKept {settings : Settings} {now : ℤ} {db db' : Database} (h : Pass settings now db db') :
    CreatesKept db.jobs db'.jobs := by
  induction h with
  | refl => exact .refl _
  | tail _ htxn ih => exact ih.trans htxn.createsKept

theorem not_owned_of_awaitsReview {order : Order} (h : order.awaitsReview = true) : ¬ Owned order := by
  simp only [Order.awaitsReview, Bool.or_eq_true, decide_eq_true_eq] at h
  rintro (ho | ho) <;> simp [ho] at h

theorem not_owned_of_not_processed {order : Order} (h : order.processed = false) : ¬ Owned order := by
  rintro (ho | ho) <;> simp [Order.processed, ho] at h

theorem InStep.createOrder {db : Database} (h : InStep db) (user : UserId) (server : ServerId) (product : ProductId)
    (renews : Option SubscriptionId) : InStep (createOrder db user server product renews) := by
  refine h.orders (fun id order hid _ => Table.get_insert_of_some _ hid) fun id order hid hstatus => ?_
  rw [Table.get_insert] at hid
  split_ifs at hid
  · cases hid
    cases hstatus
  · exact hid

theorem InStep.approve {db : Database} (h : InStep db) (id : OrderId) (admin : TelegramId) (idHex8 : ℕ) (now : ℤ) :
    InStep (callbackAdminApproveOrder db id admin idHex8 now).2 := by
  rcases callbackAdminApproveOrder_cases db id admin idHex8 now with
    ⟨order, product, ho, hr, -, -, hnone, ⟨i, sub, hn, he⟩ | ⟨-, he⟩⟩ | he
  · -- a renewal: the order is fulfilled at once, and keeps the peer of the subscription it extends
    rw [he]
    have hset := h.review (Approval.reviewed ⟨order, some (i, sub), product.durationDays, admin, now⟩ .fulfilled) ho
      (not_owned_of_awaitsReview hr) (by simp [Approval.reviewed])
    refine hset.keep rfl ?_ ?_
    · apply map_ownerKey_update
      intro sub' hsub'
      rw [(renewableSubscription_eq_some.mp hn).2.1] at hsub'
      cases hsub'
      rw [Subscription.flush_current]
      rfl
    · show CreatesKept db.jobs (if _ then _ else _)
      split_ifs
      · exact .refl _
      · exact .insert _ _
  · rw [he]
    refine h.provisionNew ho (fun i a ha hai => ?_) ?_ rfl rfl rfl rfl (by simp [newJob])
    · have hsome := subscriptionOfOrder_isSome.mpr ⟨i, a, ha, hai⟩
      rw [hnone] at hsome
      cases hsome
    · rw [Order.flush_current]
      rfl
  · rw [he]
    exact h

theorem InStep.reject {db : Database} (h : InStep db) (id : OrderId) (admin : TelegramId) (now : ℤ) :
    InStep (callbackAdminRejectOrder db id admin now).2 := by
  unfold callbackAdminRejectOrder
  rcases rejectOrder_cases db id admin (some rejectionReason) now with ⟨order, ho, hp, he⟩ | he
  · rw [he]
    have hset := h.review { order with
      status := .rejected, reviewedBy := some admin, reviewedAt := some now
      rejectionReason := some rejectionReason } ho
      (not_owned_of_not_processed hp) (by simp)
    exact hset.keep rfl rfl (.refl _)
  · rw [he]
    exact h

theorem adminRetry_same {db db' : Database} {id : JobId} {admin : TelegramId} {now : ℤ}
    (h : adminRetry db id admin now = some db') : db'.orders = db.orders ∧ db'.subscriptions = db.subscriptions := by
  obtain ⟨job, -, h⟩ := Option.bind_eq_some_iff.mp h
  split_ifs at h
  cases h
  exact ⟨rfl, rfl⟩

theorem InStep.retry {db db' : Database} (h : InStep db) {id : JobId} {admin : TelegramId} {now : ℤ}
    (hretry : adminRetry db id admin now = some db') : InStep db' := by
  obtain ⟨ho, hs⟩ := adminRetry_same hretry
  have htxn : Txn ⟨0, 0⟩ now (fun _ => True) db db' := txn_retry hretry
  exact h.keep ho (by rw [hs]) htxn.createsKept

theorem InStep.callbackRetry {db : Database} (h : InStep db) (ids : List JobId) (admin : TelegramId) (now : ℤ) :
    InStep (callbackRetry db ids admin now) := by
  induction ids generalizing db with
  | nil => exact h
  | cons id ids ih =>
    apply ih
    show InStep ((adminRetry db id admin now).getD db)
    cases hretry : adminRetry db id admin now with
    | none => exact h
    | some db' => exact h.retry hretry

theorem InStep.extend {db db' : Database} (h : InStep db) {id : SubscriptionId} {n : ℤ} {admin : TelegramId} {now : ℤ}
    (hextend : adminExtend db id n admin now = some db') : InStep db' := by
  obtain ⟨sub, hsub, hextend⟩ := Option.bind_eq_some_iff.mp hextend
  split_ifs at hextend
  cases hextend
  refine h.keep rfl (map_ownerKey_update fun sub' _ => ?_) ?_
  · unfold Subscription.extend ownerKey
    split_ifs <;> rfl
  · show CreatesKept db.jobs (if _ then _ else _)
    split_ifs
    · exact .insert _ _
    · exact .refl _

theorem InStep.redeliver {settings : Settings} {db db' : Database} (h : InStep db) {id : SubscriptionId} {user : UserId}
    {now : ℤ} (hredeliver : redeliverSubscription settings db id user now = some db') : InStep db' := by
  obtain ⟨sub, hsub, hredeliver⟩ := Option.bind_eq_some_iff.mp hredeliver
  split_ifs at hredeliver
  cases hredeliver
  exact h.keep rfl rfl (.insert _ _)

theorem InStep.checkExpired {db : Database} (h : InStep db) (now : ℤ) : InStep (checkExpiredSubscriptions db now) := by
  have hpass : Pass ⟨0, 0⟩ now db (checkExpiredSubscriptions db now) := pass_checkExpired now db
  refine h.keep (foldl_same (fun db i => ?_) _ db) (by rw [subscriptions_checkExpired]) hpass.createsKept
  unfold disableExpired
  split_ifs <;> rfl

theorem InStep.cleanup {db : Database} (h : InStep db) (settings : Settings) (now : ℤ) :
    InStep (cleanupRemovedPeers settings db now) := by
  refine h.keep (foldl_same (fun db i => ?_) _ db) (by rw [subscriptions_cleanup])
    (Pass.createsKept (pass_cleanup now db))
  unfold removeDisabled
  split_ifs <;> rfl

/-! ### The worker -/

/-- A create job that goes on has found its order in provisioning. -/
def OrderLoaded : Phase → Prop
  | .decided _ job (.go work) | .called _ job work _ =>
    job.jobType = .createPeer → ∃ order, work.order = some order ∧ order.status = .provisioning
  | _ => True

theorem CreatesKept.claim (jobs : Table Job) (w : WorkerId) (now : ℤ) (limit : ℕ) :
    CreatesKept jobs (claimPendingJobs jobs w now limit).1 := by
  intro k job hjob ht
  rcases claimEach_row w now (candidates_nodup jobs now limit) jobs k with ⟨-, hget⟩ | ⟨job', hjob', hc, -, hget⟩
  · exact ⟨job, hget.trans hjob, ht, rfl, Iff.rfl⟩
  · rw [hjob] at hjob'
    cases hjob'
    refine ⟨job.claim w now, hget, ht, rfl, ?_⟩
    simp only [Job.claim_status, reduceCtorEq, false_iff]
    exact fun hdone => Job.not_claimable_of_succeeded hdone hc

/-- What the session holds of the order of a create job that waits in its batch, if anything, is as the approval
left it. -/
def HeldOrders (s : State) : Prop :=
  ∀ k ∈ s.batch, ∀ job sub order, s.db.jobs[k]? = some job → job.jobType = .createPeer →
    s.db.subscriptions[job.aggregateId]? = some sub → s.session.orders sub.orderId = some order →
    order.status = .provisioning

/-- The order of a create job that runs or is about to. -/
theorem Wf.order_provisioning {s : State} (hwf : Wf s) (h : InStep s.db) {id : JobId} {job : Job} {sub : Subscription}
    (hid : id ∈ s.batch) (hjob : s.db.jobs[id]? = some job) (ht : job.jobType = .createPeer)
    (hsub : s.db.subscriptions[job.aggregateId]? = some sub) :
    ∃ order, s.db.orders[sub.orderId]? = some order ∧ order.status = .provisioning := by
  obtain ⟨job', hjob', hp⟩ := hwf.batch id hid
  rw [hjob] at hjob'
  cases hjob'
  obtain ⟨order, ho, hstatus⟩ := h.order _ _ hsub
  rw [hwf.consistent.peer_none hjob hp ht hsub] at hstatus
  exact ⟨order, ho, hstatus⟩

/-- The worker reads the order of a create job in the state its approval left it in. -/
theorem OrderLoaded.read {s : State} (hwf : Wf s) (h : InStep s.db) (hheld : HeldOrders s) {id : JobId}
    {rest : List JobId} {job : Job} (hbatch : s.batch = id :: rest) (hjob : s.db.jobs[id]? = some job) :
    OrderLoaded (.decided id job (Worker.read s.seen job s.now)) := by
  cases hread : Worker.read s.seen job s.now with
  | fail error => trivial
  | skip => trivial
  | go work =>
    intro ht
    have hid : id ∈ s.batch := by simp [hbatch]
    obtain ⟨seen, hseen, hfound⟩ := Worker.read_go hread
    obtain ⟨sub, hsub, haged⟩ := hwf.seen hseen
    obtain ⟨order, ho, hstatus⟩ := hwf.order_provisioning h hid hjob ht hsub
    rw [haged.order] at ho
    have hwork : work.order = (s.session.orders.view s.db.orders)[seen.orderId]? := hfound.order ht
    cases hrow : s.session.orders seen.orderId with
    | none => exact ⟨order, hwork.trans ((Table.Held.view_of_none hrow).trans ho), hstatus⟩
    | some row =>
      refine ⟨row, hwork.trans (Table.Held.view_of_some hrow ho), ?_⟩
      exact hheld id hid job sub row hjob ht hsub (by rw [haged.order]; exact hrow)

theorem HeldOrders.txn {settings : Settings} {s : State} {C : SubscriptionId → Prop} {db : Database} (h : HeldOrders s)
    (hwf : Wf s) (htxn : Txn settings s.now C s.db db) : HeldOrders { s with db := db } := by
  intro k hk job sub order hjob ht hsub hheld
  obtain ⟨job', hjob', hp⟩ := hwf.batch k hk
  have hkept := htxn.processing hjob' hp
  rw [show db.jobs[k]? = some job from hjob] at hkept
  cases hkept
  obtain ⟨sub₀, hsub₀, -⟩ := hwf.consistent.fits _ _ hjob'
  obtain ⟨sub', hsub', hrow⟩ := htxn.row hsub₀
  rw [show db.subscriptions[job.aggregateId]? = some sub from hsub] at hsub'
  cases hsub'
  exact h k hk job sub₀ order hjob' ht hsub₀ (by rw [← hrow.samePeer.order]; exact hheld)

theorem HeldOrders.pass {settings : Settings} {s : State} {db : Database} (h : HeldOrders s) (hwf : Wf s)
    (hpass : Pass settings s.now s.db db) : HeldOrders { s with db := db } := by
  induction hpass with
  | refl => exact h
  | tail hfirst htxn ih => exact ih.txn (hwf.pass hfirst) htxn

theorem HeldOrders.read {s : State} (h : HeldOrders s) (hwf : Wf s) (hin : InStep s.db) {id : JobId} {rest : List JobId}
    (hbatch : s.batch = id :: rest) (phase : Phase) (i : SubscriptionId) :
    HeldOrders { s with phase := phase, batch := rest, session := s.session.load s.db i } := by
  intro k hk job sub order hjob ht hsub hheld
  have hk' : k ∈ s.batch := by
    rw [hbatch]
    exact List.mem_cons_of_mem id hk
  rcases IdentityMap.order_of_load hheld with hbefore | hstored
  · exact h k hk' job sub order hjob ht hsub hbefore
  · obtain ⟨order', ho, hstatus⟩ := hwf.order_provisioning hin hk' hjob ht hsub
    rw [hstored] at ho
    cases ho
    exact hstatus

/-- The last step of a job sets the order of the job alone. -/
theorem orders_sessionAfter {session : IdentityMap} {db : Database} {delivered : Bool} {now : ℤ}
    {phase : Phase} {i : OrderId}
    {order : Order} (h : (sessionAfter session db delivered now phase).orders i = some order) :
    session.orders i = some order ∨ ∃ id job work, phase = .called id job work none ∧ job.jobType = .createPeer ∧
      i = work.sub.orderId := by
  unfold sessionAfter at h
  split at h
  · cases h
  next id job work =>
    split_ifs at h with hsome
    · exact (Worker.Work.hold_order h).imp_right fun hown => ⟨id, job, work, rfl, hown⟩
    · cases h
  · cases h
  · exact .inl h

/-- A subscription keeps its order. -/
theorem Written.sub_order {s : State} {delivered : Bool} {id : JobId} {job : Job} {db : Database}
    (hw : Written s delivered id job db) {i : SubscriptionId} {sub' : Subscription}
    (hsub' : db.subscriptions[i]? = some sub') :
    ∃ sub, s.db.subscriptions[i]? = some sub ∧ sub'.orderId = sub.orderId := by
  cases hw with
  | skipped | failed => exact ⟨sub', hsub', rfl⟩
  | @done work sub db₁ hphase hload hserved hw =>
    rw [show db₁.subscriptions = _ from (Worker.write_eq_some hw).2.2, Table.get_update] at hsub'
    split_ifs at hsub'
    · obtain ⟨sub, hsub, rfl⟩ := Option.map_eq_some_iff.mp hsub'
      exact ⟨sub, hsub, flush_row_orderId⟩
    · exact ⟨sub', hsub', rfl⟩

/-- The subscription and the order of another create job of the batch are not those of the job that runs. -/
theorem HeldOrders.write {s : State} (h : HeldOrders s) (hwf : Wf s) (hin : InStep s.db)
    {delivered : Bool} {db : Database}
    (hw : writeJob s.db delivered s.now s.phase = some db) :
    HeldOrders { s with db := db, phase := .idle, session := sessionAfter s.session s.db delivered s.now s.phase } := by
  intro k hk job sub' order hjob ht hsub' hheld
  obtain ⟨id, running, hhand, hwritten⟩ := hwf.written hw
  have hne : id ≠ k := fun he => hhand.2.2 (he ▸ hk)
  have hjob' : s.db.jobs[k]? = some job := (hwritten.job_ne hne).symm.trans hjob
  obtain ⟨sub, hsub, horder⟩ := hwritten.sub_order hsub'
  rw [horder] at hheld
  rcases orders_sessionAfter hheld with hbefore | ⟨id', job', work, hphase, ht', hown⟩
  · exact h k hk job sub order hjob' ht hsub hbefore
  · have hp := hwf.phase
    rw [hphase] at hp
    obtain ⟨hhand', ⟨stored, hload⟩, -⟩ := hp
    have hagg := hin.unique _ _ sub stored hsub hload.get (hown.trans hload.samePeer.order.symm)
    exact absurd (hwf.consistent.createOnce k id' job job' hjob' hhand'.1 ht ht' hagg ▸ hk) hhand'.2.2

theorem write_orders {db db' : Database} {jobType : JobType} {id : SubscriptionId} {work : Worker.Work}
    {delivered : Bool} {now : ℤ} (ht : jobType ≠ .createPeer)
    (h : Worker.write db jobType id work delivered now = some db') : db'.orders = db.orders := by
  cases jobType with
  | createPeer => exact absurd rfl ht
  | redeliverConfig =>
    simp only [Worker.write, Option.ite_none_right_eq_some, Option.some.injEq] at h
    obtain ⟨-, rfl⟩ := h
    rfl
  | _ => cases h; rfl

theorem InStep.written {s : State} (hwf : Wf s) (h : InStep s.db) (hload : OrderLoaded s.phase) {delivered : Bool}
    {id : JobId} {job : Job} {db : Database} (hhand : InHand s.db s.batch id job) (hw : Written s delivered id job db) :
    InStep db := by
  cases hw with
  | skipped ht ht' => exact h.keep rfl rfl (.update hhand.1 fun hcreate => absurd hcreate ht')
  | failed error isRetryable =>
    refine h.keep rfl rfl (.update hhand.1 fun ht => ?_)
    have hsame := SameJob.markFailed error isRetryable s.now (show job.status ≠ .succeeded by simp [hhand.2.1])
    refine ⟨hsame.jobType.trans ht, hsame.aggregateId, ?_⟩
    rcases job.markFailed_status error isRetryable s.now with he | he <;> simp [he, hhand.2.1]
  | @done work sub db₁ hphase hloaded hserved hw =>
    obtain ⟨-, hjobs, hsubs⟩ := Worker.write_eq_some hw
    by_cases ht : job.jobType = .createPeer
    · rw [hphase] at hload
      obtain ⟨order, horder, hstatus⟩ := hload ht
      have hnone := hwf.consistent.peer_none hhand.1 hhand.2.1 ht hloaded.get
      rw [ht] at hw hsubs
      obtain ⟨-, hpeer, -⟩ := flush_row_create delivered s.now hloaded.samePeer hloaded.sound hnone
      have hdone := h.provisioned hloaded.get hhand.1 ht rfl
        (f := order.flush { order with status := .fulfilled })
        (g := work.sub.flush (work.row .createPeer delivered s.now))
        (fun order' ho => by simp [Order.flush, Table.flushColumn, hstatus]) flush_row_orderId (by rw [hpeer]; rfl)
      refine hdone.keep ?_ ?_ ?_
      · show db₁.orders = _
        rw [Worker.write_createPeer_orders hw, horder, hloaded.samePeer.order.symm]
        rfl
      · show db₁.subscriptions.map ownerKey = _
        rw [hsubs]
      · show CreatesKept _ (Table.update db₁.jobs id Job.markCompleted)
        rw [hjobs]
        exact .refl _
    · refine h.keep ?_ ?_ ?_
      · show db₁.orders = _
        exact write_orders ht hw
      · show db₁.subscriptions.map ownerKey = _
        rw [hsubs]
        apply map_ownerKey_update
        intro sub' hsub'
        unfold ownerKey
        rw [flush_row_orderId, flush_row.2.2 ht]
      · show CreatesKept _ (Table.update db₁.jobs id Job.markCompleted)
        rw [hjobs]
        exact .update hhand.1 fun hcreate => absurd hcreate ht

/-! ### Steps and runs -/

/-- As `receiptFits`, for a bot whose admins may retry many jobs at once. -/
def actionFits (s : State) : Action → Prop
  | .one a => receiptFits s a = true
  | .retryAll _ _ => True

instance decidableActionFits (s : State) : (a : Action) → Decidable (actionFits s a)
  | .one a => inferInstanceAs (Decidable (receiptFits s a = true))
  | .retryAll _ _ => isTrue trivial

structure Stepping (s : State) : Prop where
  wf : Wf s
  inStep : InStep s.db
  loaded : OrderLoaded s.phase
  held : HeldOrders s

theorem inStep_step {settings : Settings} {s t : State} {a : Step} (h : Stepping s) (hfits : receiptFits s a = true)
    (hstep : step settings s a = some t) : InStep t.db := by
  cases a with
  | startOrder user server product =>
    simp only [step] at hstep
    split_ifs at hstep
    cases hstep
    exact h.inStep.createOrder ..
  | startRenewal user sub product =>
    obtain ⟨row, -, hstep⟩ := Option.bind_eq_some_iff.mp hstep
    split_ifs at hstep
    cases hstep
    exact h.inStep.createOrder ..
  | submitReceipt id receipt =>
    cases hstep
    refine InStep.updateOrder h.inStep fun order ho => ⟨?_, by simp [Order.submitReceipt]⟩
    simp only [receiptFits, ho, Option.all_some] at hfits
    exact not_owned_of_awaitsReview hfits
  | approve id admin idHex8 => cases hstep; exact h.inStep.approve ..
  | reject id admin => cases hstep; exact h.inStep.reject ..
  | extend id n admin =>
    obtain ⟨db, hdb, rfl⟩ := Option.map_eq_some_iff.mp hstep
    exact h.inStep.extend hdb
  | redeliver id user =>
    obtain ⟨db, hdb, rfl⟩ := Option.map_eq_some_iff.mp hstep
    exact h.inStep.redeliver hdb
  | retry id admin =>
    obtain ⟨db, hdb, rfl⟩ := Option.map_eq_some_iff.mp hstep
    exact h.inStep.retry hdb
  | checkExpired => cases hstep; exact h.inStep.checkExpired _
  | cleanup => cases hstep; exact h.inStep.cleanup _ _
  | claim limit =>
    simp only [step] at hstep
    split at hstep <;> cases hstep
    exact h.inStep.keep rfl rfl (.claim s.db.jobs worker s.now limit)
  | read =>
    simp only [step] at hstep
    split at hstep
    · obtain ⟨job, -, rfl⟩ := Option.map_eq_some_iff.mp hstep
      exact h.inStep
    · cases hstep
  | call reply =>
    simp only [step] at hstep
    split at hstep
    · split at hstep <;> cases hstep <;> exact h.inStep
    · cases hstep
  | write delivered =>
    obtain ⟨db, hw, rfl⟩ := Option.map_eq_some_iff.mp hstep
    obtain ⟨id, job, hhand, hwritten⟩ := h.wf.written hw
    exact h.inStep.written h.wf h.loaded hhand hwritten
  | collect user =>
    simp only [step] at hstep
    split at hstep <;> cases hstep
    exact h.inStep
  | crash => cases hstep; exact h.inStep
  | tick d => cases hstep; exact h.inStep

theorem orderLoaded_step {settings : Settings} {s t : State} {a : Step} (h : Stepping s)
    (hstep : step settings s a = some t) : OrderLoaded t.phase := by
  cases ha : a.isWorker with
  | false =>
    obtain ⟨db, rfl, -⟩ := step_txn h.wf.consistent ha hstep
    exact h.loaded
  | true =>
    cases a with
    | claim limit =>
      simp only [step] at hstep
      split at hstep <;> cases hstep
      exact h.loaded
    | read =>
      simp only [step] at hstep
      split at hstep
      next id rest hidle hbatch =>
        obtain ⟨job, hjob, rfl⟩ := Option.map_eq_some_iff.mp hstep
        exact .read h.wf h.inStep h.held hbatch hjob
      · cases hstep
    | call reply =>
      simp only [step] at hstep
      split at hstep
      next id job work hphase =>
        have hloaded := h.loaded
        rw [hphase] at hloaded
        split at hstep <;> cases hstep <;> exact hloaded
      · cases hstep
    | write delivered =>
      obtain ⟨db, -, rfl⟩ := Option.map_eq_some_iff.mp hstep
      trivial
    | collect user =>
      simp only [step] at hstep
      split at hstep <;> cases hstep
      exact h.loaded
    | crash => cases hstep; trivial
    | tick d => cases hstep; exact h.loaded
    | _ => cases ha

theorem heldOrders_step {settings : Settings} {s t : State} {a : Step} (h : Stepping s)
    (hstep : step settings s a = some t) : HeldOrders t := by
  cases ha : a.isWorker with
  | false =>
    obtain ⟨db, rfl, htxn | hpass⟩ := step_txn h.wf.consistent ha hstep
    · exact h.held.txn h.wf htxn
    · exact h.held.pass h.wf hpass
  | true =>
    cases a with
    | claim limit =>
      simp only [step] at hstep
      split at hstep <;> cases hstep
      exact fun _ _ _ _ _ _ _ _ hheld => by cases hheld
    | read =>
      simp only [step] at hstep
      split at hstep
      next id rest hidle hbatch =>
        obtain ⟨job, hjob, rfl⟩ := Option.map_eq_some_iff.mp hstep
        exact h.held.read h.wf h.inStep hbatch _ _
      · cases hstep
    | call reply =>
      simp only [step] at hstep
      split at hstep
      · split at hstep <;> cases hstep <;> exact h.held
      · cases hstep
    | write delivered =>
      obtain ⟨db, hw, rfl⟩ := Option.map_eq_some_iff.mp hstep
      exact h.held.write h.wf h.inStep hw
    | collect user =>
      simp only [step] at hstep
      split at hstep <;> cases hstep
      exact fun k hk job sub order hjob ht hsub hheld =>
        h.held k hk job sub order hjob ht hsub (Table.Held.of_forget hheld)
    | crash => cases hstep; exact fun k hk => by cases hk
    | tick d => cases hstep; exact h.held
    | _ => cases ha

theorem stepping_act {settings : Settings} {s t : State} {a : Action} (h : Stepping s) (hfits : actionFits s a)
    (hact : act settings s a = some t) : Stepping t := by
  cases a with
  | one b => exact ⟨wf_step h.wf hact, inStep_step h hfits hact, orderLoaded_step h hact, heldOrders_step h hact⟩
  | retryAll ids admin =>
    cases hact
    have hpass := pass_callbackRetry settings ids admin s.now s.db
    exact ⟨h.wf.pass hpass, h.inStep.callbackRetry .., h.loaded, h.held.pass h.wf hpass⟩

/-- The subscriptions made for an order. -/
def ownSubscriptions (subs : Table Subscription) (id : OrderId) : List SubscriptionId :=
  subs.select fun sub => sub.orderId = id

def createJobs (jobs : Table Job) (i : SubscriptionId) : List JobId :=
  jobs.select fun job => job.jobType = .createPeer && job.aggregateId = i

/-- The order has one subscription, which waits for its peer, and that has one create job,
which is queued, running, retrying or can be retried. -/
def BeingProvisioned (db : Database) (id : OrderId) : Prop :=
  ∃ i k sub job, ownSubscriptions db.subscriptions id = [i] ∧ db.subscriptions[i]? = some sub ∧
    sub.status = .provisioning ∧ createJobs db.jobs i = [k] ∧ db.jobs[k]? = some job ∧
    (job.status = .pending ∨ job.status = .processing ∨ job.status = .retryableFailure ∨ job.status = .permanentFailure)

/-- The subscription has had its peer, and its one create job succeeded. -/
def Provisioned (db : Database) (i : SubscriptionId) : Prop :=
  ∃ k sub job, db.subscriptions[i]? = some sub ∧ sub.status ≠ .provisioning ∧ createJobs db.jobs i = [k] ∧
    db.jobs[k]? = some job ∧ job.status = .succeeded

structure NoneLost (db : Database) : Prop where
  provisioning : ∀ (id : OrderId) (order : Order), db.orders[id]? = some order →
    (order.status = .provisioning ↔ BeingProvisioned db id)
  fulfilled : ∀ (id : OrderId) (order : Order), db.orders[id]? = some order →
    ∀ i ∈ ownSubscriptions db.subscriptions id, (order.status = .fulfilled ↔ Provisioned db i)

theorem InStep.ownSubscriptions {db : Database} (h : InStep db) {i : SubscriptionId} {sub : Subscription}
    (hsub : db.subscriptions[i]? = some sub) : ownSubscriptions db.subscriptions sub.orderId = [i] := by
  refine Table.select_eq_singleton (Table.mem_select.mpr ⟨sub, hsub, by simp⟩) fun j hj => ?_
  obtain ⟨b, hb, hbo⟩ := Table.mem_select.mp hj
  exact h.unique j i b sub hb hsub (by simpa using hbo)

theorem createJobs_eq {db : Database} (hc : Consistent db) {k : JobId} {job : Job} (hjob : db.jobs[k]? = some job)
    (ht : job.jobType = .createPeer) : createJobs db.jobs job.aggregateId = [k] := by
  refine Table.select_eq_singleton (Table.mem_select.mpr ⟨job, hjob, by simp [ht]⟩) fun j hj => ?_
  obtain ⟨b, hb, hbt⟩ := Table.mem_select.mp hj
  simp only [Bool.and_eq_true, decide_eq_true_eq] at hbt
  exact hc.createOnce j k b job hb hjob hbt.1 ht hbt.2

theorem provisioning_iff {sub : Subscription} (h : sub.Sound) :
    sub.status = .provisioning ↔ sub.peerExternalId = none := by
  unfold Subscription.Sound at h
  cases hp : sub.peerExternalId with
  | none =>
    simp only [hp] at h
    simp [h.1]
  | some n =>
    simp only [hp] at h
    rcases h with h | h | h <;> simp [h]

theorem Stepping.noneLost {s : State} (h : Stepping s) : NoneLost s.db := by
  have hc := h.wf.consistent
  have hin := h.inStep
  refine ⟨fun id order ho => ⟨fun hstatus => ?_, ?_⟩, fun id order ho i hi => ?_⟩
  · obtain ⟨i, sub, hsub, rfl⟩ := hin.waiting id order ho hstatus
    obtain ⟨order', ho', hstatus'⟩ := hin.order i sub hsub
    rw [ho] at ho'
    cases ho'
    have hnone : sub.peerExternalId.isSome = false := by
      rw [hstatus] at hstatus'
      by_contra hsome
      simp [hsome] at hstatus'
    obtain ⟨k, job, hjob, ht, rfl, hdone⟩ := hin.create i sub hsub
    refine ⟨job.aggregateId, k, sub, job, hin.ownSubscriptions hsub, hsub, ?_, createJobs_eq hc hjob ht, hjob, ?_⟩
    · rw [provisioning_iff (hc.sound _ _ hsub)]
      simpa using hnone
    · cases hs : job.status <;> simp_all
  · rintro ⟨i, k, sub, job, hown, hsub, hstatus, -⟩
    obtain ⟨b, hb, hbo⟩ := Table.mem_select.mp (show i ∈ ownSubscriptions s.db.subscriptions id by simp [hown])
    rw [hsub] at hb
    cases hb
    simp only [decide_eq_true_eq] at hbo
    obtain ⟨order', ho', hstatus'⟩ := hin.order i sub hsub
    rw [hbo, ho] at ho'
    cases ho'
    rw [provisioning_iff (hc.sound _ _ hsub)] at hstatus
    simpa [hstatus] using hstatus'
  · obtain ⟨sub, hsub, hown⟩ := Table.mem_select.mp hi
    simp only [decide_eq_true_eq] at hown
    obtain ⟨order', ho', hstatus'⟩ := hin.order i sub hsub
    rw [hown, ho] at ho'
    cases ho'
    obtain ⟨k, job, hjob, ht, rfl, hdone⟩ := hin.create i sub hsub
    have hprov := provisioning_iff (hc.sound _ _ hsub)
    constructor
    · intro hful
      have hsome : sub.peerExternalId.isSome = true := by
        rw [hful] at hstatus'
        by_contra hnone
        simp [hnone] at hstatus'
      refine ⟨k, sub, job, hsub, fun hs => ?_, createJobs_eq hc hjob ht, hjob, hdone.mpr hsome⟩
      rw [hprov.mp hs] at hsome
      cases hsome
    · rintro ⟨k', sub', job', hsub', hs, -⟩
      rw [hsub] at hsub'
      cases hsub'
      have hsome : sub.peerExternalId.isSome = true := by
        rw [Option.isSome_iff_ne_none]
        exact fun hnone => hs (hprov.mpr hnone)
      rw [hstatus', if_pos hsome]

/-- In every run in which receipts are submitted only for orders that await their review,
no approved order is lost: it is being provisioned as long as its status says so, and
fulfilled once its subscription has a peer. -/
theorem noneLost_run {settings : Settings} {users : Table User} {servers : Table VpnServer} {products : Table Product}
    {now : ℤ} {as : List Action} {s : State}
    (hfits : Machine.Along (act settings) actionFits (start users servers products now) as)
    (hrun : Machine.run (act settings) (start users servers products now) as = some s) : NoneLost s.db := by
  have hstart : Stepping (start users servers products now) := by
    refine ⟨wf_start users servers products now, ⟨?_, ?_, ?_, ?_⟩, trivial, fun k hk => by cases hk⟩ <;> simp [start]
  exact (Machine.invariant_along (fun _ _ _ h hg ht => stepping_act h hg ht) hfits hrun hstart).noneLost

/-- A create job is cut off after its call, fails for good in its next attempt, and succeeds
when an admin retries it. -/
def lateCreate : List Step :=
  [.startOrder 0 0 0, .submitReceipt 0 ⟨"photo", 1, 1, "photo", none⟩, .approve 0 7 1, .claim 10, .read, .call .ok,
    .crash, .tick 301000000] ++ runJob (.failed "bad input" false) ++ [.retry 0 7] ++ runJob .ok

theorem noneLost_run_lateCreate : ∃ s, Machine.run (act ⟨30, 3⟩) small (lateCreate.map .one) = some s ∧
    (s.db.orders.map Order.status = [.fulfilled]) ∧ NoneLost s.db := by
  have hfits : Machine.Along (act ⟨30, 3⟩) actionFits small (lateCreate.map .one) := by decide +kernel
  have hrun : (Machine.run (act ⟨30, 3⟩) small (lateCreate.map .one)).any
      (fun s => s.db.orders.map Order.status = [.fulfilled]) = true := by decide +kernel
  obtain ⟨s, hs, hful⟩ := Machine.exists_of_any hrun
  exact ⟨s, hs, by simpa using hful, noneLost_run hfits hs⟩

end AmneziaVpnBot.Lifecycle
