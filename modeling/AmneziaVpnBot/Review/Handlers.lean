import AmneziaVpnBot.Lib.Machine
import AmneziaVpnBot.Db.Orders
import AmneziaVpnBot.Worker.Process
import Mathlib.Logic.Function.Basic

/-! The life of an order when every handler runs as a whole. The customer's side is
guarded by the chat: a receipt is taken only while the chat awaits one for an order. The
admin's side is guarded by the order's status. The chat does not hear of a review, so it
may still await a receipt for an order that was reviewed meanwhile. -/

namespace AmneziaVpnBot.Handlers

structure State where
  now : ℤ
  db : Database
  /-- The order for which the chat is in the awaiting-receipt state. -/
  awaiting : ChatId → Option OrderId

def start (users : Table User) (servers : Table VpnServer) (products : Table Product) : State :=
  ⟨0, ⟨users, servers, products, [], [], [], [], []⟩, fun _ => none⟩

inductive Step
  | startOrder (chat : ChatId) (user : UserId) (server : ServerId) (product : ProductId)
  /-- A plan picked from Renew. -/
  | startRenewal (chat : ChatId) (user : UserId) (sub : SubscriptionId) (product : ProductId)
  | uploadReceipt (chat : ChatId) (receipt : Receipt)
  /-- Cancel, or any way back to the menu. -/
  | leave (chat : ChatId)
  | approve (id : OrderId) (admin : TelegramId) (idHex8 : ℕ)
  | reject (id : OrderId) (admin : TelegramId)
  /-- The worker runs a create job to its end. -/
  | finishCreate (job : JobId) (delivered : Bool)
  | tick (d : ℕ)

inductive Event
  | approved (id : OrderId)
  | rejected (id : OrderId)
  deriving DecidableEq

/-- `_start_order`: the new order's chat awaits its receipt. -/
def State.startOrder (s : State) (chat : ChatId) (user : UserId) (server : ServerId) (product : ProductId)
    (renews : Option SubscriptionId) : State :=
  { s with
    db := createOrder s.db user server product renews
    awaiting := Function.update s.awaiting chat (some s.db.orders.fresh) }

/-- A create job from its claim to the commit of its success. -/
def finishCreate (db : Database) (id : JobId) (delivered : Bool) (now : ℤ) : Option Database :=
  db.jobs[id]?.bind fun job =>
    if job.jobType = .createPeer && job.isOpen then
      match Worker.read db job now with
      | .go work => (Worker.write db .createPeer job.aggregateId work delivered now).map fun db =>
        { db with jobs := db.jobs.update id Job.markCompleted }
      | _ => none
    else none

def step (s : State) : Step → Option State
  | .startOrder chat user server product =>
    if s.db.users[user]?.isSome && s.db.servers[server]?.isSome && s.db.products[product]?.isSome then
      some (s.startOrder chat user server product none)
    else none
  | .startRenewal chat user sub product => s.db.subscriptions[sub]?.bind fun row =>
    if row.userId = user && s.db.servers[row.vpnServerId]?.isSome && s.db.products[product]?.isSome then
      some (s.startOrder chat user row.vpnServerId product (some sub))
    else none
  | .uploadReceipt chat receipt => (s.awaiting chat).map fun id =>
    { s with
      db := { s.db with orders := s.db.orders.update id (Order.submitReceipt receipt s.now) }
      awaiting := Function.update s.awaiting chat none }
  | .leave chat => some { s with awaiting := Function.update s.awaiting chat none }
  | .approve id admin idHex8 =>
    some { s with db := (callbackAdminApproveOrder s.db id admin idHex8 s.now).2 }
  | .reject id admin => some { s with db := (callbackAdminRejectOrder s.db id admin s.now).2 }
  | .finishCreate id delivered => (finishCreate s.db id delivered s.now).map fun db => { s with db := db }
  | .tick d => some { s with now := s.now + d }

/-- A review that succeeds. -/
def emit (s : State) : Step → List Event
  | .approve id admin idHex8 =>
    if (callbackAdminApproveOrder s.db id admin idHex8 s.now).1 then [.approved id] else []
  | .reject id admin => if (callbackAdminRejectOrder s.db id admin s.now).1 then [.rejected id] else []
  | _ => []

def status (s : State) (id : OrderId) : Option OrderStatus := (s.db.orders[id]?).map Order.status

/-- The statuses a review leaves. -/
def Reviewed (c : OrderStatus) : Prop := c = .provisioning ∨ c = .fulfilled ∨ c = .rejected

/-- In the run every order is approved at most once, is not both approved and rejected,
and never goes back from a review to a submitted receipt. -/
def StaysReviewed (s : State) (as : List Step) : Prop :=
  ∀ id,
    (Machine.log step emit s as).count (.approved id) ≤ 1 ∧
    ¬ (.approved id ∈ Machine.log step emit s as ∧ .rejected id ∈ Machine.log step emit s as) ∧
    ∀ (bs cs ds : List Step) (t u : State) (c : OrderStatus), as = bs ++ (cs ++ ds) →
      Machine.run step s bs = some t → Machine.run step t cs = some u → status t id = some c → Reviewed c →
      status u id ≠ some .receiptSubmitted

/-- A receipt is uploaded only for an order that is not reviewed yet. -/
def ReceiptInTime (s : State) : Step → Prop
  | .uploadReceipt chat _ => ∀ id c, s.awaiting chat = some id → status s id = some c → ¬ Reviewed c
  | _ => True

/-! ### Accepted and refused orders -/

def Accepted (db : Database) (id : OrderId) : Prop :=
  ∃ order, db.orders[id]? = some order ∧ (order.status = .provisioning ∨ order.status = .fulfilled)

def Refused (db : Database) (id : OrderId) : Prop :=
  ∃ order, db.orders[id]? = some order ∧ order.status = .rejected

/-- The order of every subscription was accepted. -/
def Owned (db : Database) : Prop := db.subscriptions.All fun _ sub => Accepted db sub.orderId

/-- A handler that undoes no review. -/
structure Keeps (db db' : Database) : Prop where
  accepted : ∀ id, Accepted db id → Accepted db' id
  refused : ∀ id, Refused db id → Refused db' id
  owned : Owned db → Owned db'

theorem Accepted.not_refused {db : Database} {id : OrderId} (h : Accepted db id) : ¬ Refused db id := by
  rintro ⟨order', ho', hr⟩
  obtain ⟨order, ho, ha⟩ := h
  rw [ho] at ho'
  cases ho'
  simp [hr] at ha

theorem Keeps.refl (db : Database) : Keeps db db := ⟨fun _ h => h, fun _ h => h, fun h => h⟩

/-- A handler that updates one order keeps the reviews when it does so on that order,
and the subscriptions' orders come from before or are accepted after. -/
theorem Keeps.of_update {db db' : Database} (id : OrderId) {f : Order → Order}
    (horders : db'.orders = db.orders.update id f)
    (ha : Accepted db id → Accepted db' id) (hr : Refused db id → Refused db' id)
    (hsubs : db'.subscriptions.All fun _ sub =>
      Accepted db' sub.orderId ∨ ∃ (i : SubscriptionId) (old : Subscription),
        db.subscriptions[i]? = some old ∧ old.orderId = sub.orderId) :
    Keeps db db' := by
  have hother : ∀ j, id ≠ j → db'.orders[j]? = db.orders[j]? := fun j hj => by
    rw [horders, Table.get_update_of_ne _ _ hj]
  have hacc : ∀ j, Accepted db j → Accepted db' j := by
    intro j hj
    by_cases hij : id = j
    · exact hij ▸ ha (hij ▸ hj)
    · obtain ⟨order, ho, hs⟩ := hj
      exact ⟨order, (hother j hij).trans ho, hs⟩
  refine ⟨hacc, ?_, ?_⟩
  · intro j hj
    by_cases hij : id = j
    · exact hij ▸ hr (hij ▸ hj)
    · obtain ⟨order, ho, hs⟩ := hj
      exact ⟨order, (hother j hij).trans ho, hs⟩
  · intro howned i sub hi
    rcases hsubs i sub hi with h | ⟨k, old, hk, heq⟩
    · exact h
    · exact heq ▸ hacc _ (howned k old hk)

theorem all_orderId_of_eq {db db' : Database} {i : SubscriptionId} {f : Subscription → Subscription}
    (hsubs : db'.subscriptions = db.subscriptions.update i f) (hf : ∀ sub, (f sub).orderId = sub.orderId) :
    db'.subscriptions.All fun _ sub =>
      Accepted db' sub.orderId ∨ ∃ (i : SubscriptionId) (old : Subscription),
        db.subscriptions[i]? = some old ∧ old.orderId = sub.orderId := by
  rw [hsubs]
  have h : db.subscriptions.All fun _ sub =>
      ∃ (i : SubscriptionId) (old : Subscription), db.subscriptions[i]? = some old ∧
        old.orderId = sub.orderId := fun j r hr => ⟨j, r, hr, rfl⟩
  refine (Table.All.update h fun r hr _ => ⟨i, r, hr, (hf r).symm⟩).mono fun _ _ h => .inr h

/-! ### What each handler keeps -/

theorem keeps_createOrder (db : Database) (user : UserId) (server : ServerId) (product : ProductId)
    (renews : Option SubscriptionId) : Keeps db (createOrder db user server product renews) := by
  have h (id : OrderId) : ∀ {order : Order}, db.orders[id]? = some order →
      (createOrder db user server product renews).orders[id]? = some order :=
    Table.get_insert_of_some _
  refine ⟨fun id ⟨order, ho, hs⟩ => ⟨order, h id ho, hs⟩, fun id ⟨order, ho, hs⟩ => ⟨order, h id ho, hs⟩, ?_⟩
  intro howned i sub hi
  obtain ⟨order, ho, hs⟩ := howned i sub hi
  exact ⟨order, h _ ho, hs⟩

/-- A success of the approve callback: the order awaited review, and is accepted after it. -/
theorem approve_success {db : Database} {id : OrderId} {admin : TelegramId} {idHex8 : ℕ} {now : ℤ}
    (h : (callbackAdminApproveOrder db id admin idHex8 now).1 = true) :
    (∃ order, db.orders[id]? = some order ∧ order.awaitsReview) ∧
      Accepted (callbackAdminApproveOrder db id admin idHex8 now).2 id ∧
      Keeps db (callbackAdminApproveOrder db id admin idHex8 now).2 := by
  rcases callbackAdminApproveOrder_cases db id admin idHex8 now with
    ⟨order, product, ho, hr, -, -, -, ⟨subId, sub, -, he⟩ | ⟨-, he⟩⟩ | he
  · rw [he]
    have hacc : Accepted (commitRenewal db id ⟨order, some (subId, sub), product.durationDays, admin, now⟩
        subId sub) id :=
      ⟨_, by simp [commitRenewal, Table.get_update, ho]; rfl, by simp [Approval.reviewed]⟩
    refine ⟨⟨order, ho, hr⟩, hacc, .of_update id rfl (fun _ => hacc) ?_ (all_orderId_of_eq rfl fun _ => ?_)⟩
    · rintro ⟨order', ho', hrej⟩
      rw [ho] at ho'
      cases ho'
      simp [Order.awaitsReview, hrej] at hr
    · simp [Subscription.flush, Subscription.renew]
  · rw [he]
    have hacc : Accepted (commitNew db id ⟨order, none, product.durationDays, admin, now⟩ idHex8) id :=
      ⟨_, by simp [commitNew, Table.get_update, ho]; rfl, by simp [Approval.reviewed]⟩
    refine ⟨⟨order, ho, hr⟩, hacc, .of_update id rfl (fun _ => hacc) ?_ ?_⟩
    · rintro ⟨order', ho', hrej⟩
      rw [ho] at ho'
      cases ho'
      simp [Order.awaitsReview, hrej] at hr
    · exact Table.All.insert (fun i r hr => .inr ⟨i, r, hr, rfl⟩) (.inl hacc)
  · rw [he] at h; cases h

theorem keeps_approve (db : Database) (id : OrderId) (admin : TelegramId) (idHex8 : ℕ) (now : ℤ) :
    Keeps db (callbackAdminApproveOrder db id admin idHex8 now).2 := by
  cases h : (callbackAdminApproveOrder db id admin idHex8 now).1 with
  | true => exact (approve_success h).2.2
  | false =>
    rcases callbackAdminApproveOrder_cases db id admin idHex8 now with
      ⟨_, _, -, -, -, -, -, ⟨_, _, -, he⟩ | ⟨-, he⟩⟩ | he
    · simp [he] at h
    · simp [he] at h
    · rw [he]; exact .refl db

theorem reject_success {db : Database} {id : OrderId} {admin : TelegramId} {now : ℤ}
    (h : (callbackAdminRejectOrder db id admin now).1 = true) :
    ¬ Accepted db id ∧ Refused (callbackAdminRejectOrder db id admin now).2 id ∧
      Keeps db (callbackAdminRejectOrder db id admin now).2 := by
  unfold callbackAdminRejectOrder at h ⊢
  rcases rejectOrder_cases db id admin (some rejectionReason) now with ⟨order, ho, hp, he⟩ | he
  · rw [he]
    have hacc : ¬ Accepted db id := by
      rintro ⟨order', ho', ha⟩
      rw [ho] at ho'
      cases ho'
      rcases ha with ha | ha <;> simp [Order.processed, ha] at hp
    have href : Refused (commitRejection db id order admin (some rejectionReason) now) id :=
      ⟨_, by simp [commitRejection, Table.get_update, ho]; rfl, by simp⟩
    exact ⟨hacc, href, .of_update id rfl (fun ha => absurd ha hacc) (fun _ => href)
      fun i sub hi => .inr ⟨i, sub, hi, rfl⟩⟩
  · rw [he] at h; cases h

theorem keeps_reject (db : Database) (id : OrderId) (admin : TelegramId) (now : ℤ) :
    Keeps db (callbackAdminRejectOrder db id admin now).2 := by
  cases h : (callbackAdminRejectOrder db id admin now).1 with
  | true => exact (reject_success h).2.2
  | false =>
    unfold callbackAdminRejectOrder at h ⊢
    rcases rejectOrder_cases db id admin (some rejectionReason) now with ⟨_, -, -, he⟩ | he
    · simp [he] at h
    · rw [he]; exact .refl db

theorem keeps_submitReceipt {db : Database} {id : OrderId} (receipt : Receipt) (now : ℤ)
    (ha : ¬ Accepted db id) (hr : ¬ Refused db id) :
    Keeps db { db with orders := db.orders.update id (Order.submitReceipt receipt now) } :=
  .of_update id rfl (fun h => absurd h ha) (fun h => absurd h hr) fun i sub hi => .inr ⟨i, sub, hi, rfl⟩

/-- The subscription of a finished create job has an accepted order, which is now fulfilled. -/
theorem keeps_finishCreate {db db' : Database} {id : JobId} {delivered : Bool} {now : ℤ}
    (howned : Owned db) (h : finishCreate db id delivered now = some db') : Keeps db db' := by
  obtain ⟨job, hj, h⟩ := Option.bind_eq_some_iff.mp h
  split_ifs at h with hc
  split at h
  next work hread =>
    obtain ⟨db₁, hw, rfl⟩ := Option.map_eq_some_iff.mp h
    obtain ⟨sub, hs, hfound⟩ := Worker.read_go hread
    obtain ⟨-, -, hsubs⟩ := Worker.write_eq_some hw
    have horders := Worker.write_createPeer_orders hw
    obtain ⟨order, ho, ha⟩ := howned _ _ hs
    rw [hfound.row, hfound.order (by simp_all), ho] at horders
    have hful : Accepted db₁ sub.orderId :=
      ⟨{ order with status := .fulfilled }, by simp [horders, Worker.fulfill, Table.get_update, ho], .inr rfl⟩
    refine .of_update sub.orderId horders (fun _ => hful) ?_ (all_orderId_of_eq hsubs fun _ => ?_)
    · exact fun hr => absurd hr (Accepted.not_refused ⟨order, ho, ha⟩)
    · simp [Subscription.flush, Worker.Work.row, Worker.Work.activated, Subscription.markActive]
  · cases h

/-! ### Steps and runs -/

theorem accepted_status {s : State} {id : OrderId} :
    Accepted s.db id ↔ status s id = some .provisioning ∨ status s id = some .fulfilled := by
  simp only [Accepted, status, Option.map_eq_some_iff]
  constructor
  · rintro ⟨order, ho, h | h⟩
    · exact .inl ⟨order, ho, h⟩
    · exact .inr ⟨order, ho, h⟩
  · rintro (⟨order, ho, h⟩ | ⟨order, ho, h⟩)
    · exact ⟨order, ho, .inl h⟩
    · exact ⟨order, ho, .inr h⟩

theorem refused_status {s : State} {id : OrderId} : Refused s.db id ↔ status s id = some .rejected := by
  simp only [Refused, status, Option.map_eq_some_iff]

theorem keeps_step {s u : State} {a : Step} (howned : Owned s.db) (hg : ReceiptInTime s a)
    (hstep : step s a = some u) : Keeps s.db u.db := by
  cases a with
  | startOrder chat user server product =>
    simp only [step] at hstep
    split_ifs at hstep
    cases hstep
    exact keeps_createOrder ..
  | startRenewal chat user sub product =>
    obtain ⟨row, -, h⟩ := Option.bind_eq_some_iff.mp hstep
    split_ifs at h
    cases h
    exact keeps_createOrder ..
  | uploadReceipt chat receipt =>
    obtain ⟨id, hid, rfl⟩ := Option.map_eq_some_iff.mp hstep
    have hnot : ∀ c, status s id = some c → ¬ Reviewed c := fun c hc => hg id c hid hc
    refine keeps_submitReceipt receipt s.now (fun ha => ?_) fun hr => ?_
    · rcases accepted_status.mp ha with h | h
      · exact hnot _ h (.inl rfl)
      · exact hnot _ h (.inr (.inl rfl))
    · exact hnot _ (refused_status.mp hr) (.inr (.inr rfl))
  | leave chat => cases hstep; exact .refl _
  | approve id admin idHex8 => cases hstep; exact keeps_approve ..
  | reject id admin => cases hstep; exact keeps_reject ..
  | finishCreate id delivered =>
    obtain ⟨db, h, rfl⟩ := Option.map_eq_some_iff.mp hstep
    exact keeps_finishCreate howned h
  | tick d => cases hstep; exact .refl _

theorem approved_mem_emit {s u : State} {a : Step} {id : OrderId} (h : .approved id ∈ emit s a)
    (hstep : step s a = some u) :
    ¬ Accepted s.db id ∧ ¬ Refused s.db id ∧ Accepted u.db id ∧ emit s a = [.approved id] := by
  cases a with
  | approve i admin idHex8 =>
    cases hstep
    simp only [emit] at h ⊢
    split_ifs at h with hok
    · rw [List.mem_singleton] at h
      cases h
      obtain ⟨⟨order, ho, hr⟩, hacc, -⟩ := approve_success hok
      simp only [hok, ↓reduceIte, and_true]
      refine ⟨fun ⟨order', ho', ha⟩ => ?_, fun ⟨order', ho', hrej⟩ => ?_, hacc⟩
      · rw [ho] at ho'; cases ho'
        rcases ha with ha | ha <;> simp [Order.awaitsReview, ha] at hr
      · rw [ho] at ho'; cases ho'
        simp [Order.awaitsReview, hrej] at hr
    · cases h
  | reject i admin =>
    simp only [emit] at h
    split_ifs at h <;> simp at h
  | _ => simp [emit] at h

theorem rejected_mem_emit {s u : State} {a : Step} {id : OrderId} (h : .rejected id ∈ emit s a)
    (hstep : step s a = some u) : ¬ Accepted s.db id ∧ Refused u.db id := by
  cases a with
  | reject i admin =>
    cases hstep
    simp only [emit] at h
    split_ifs at h with hok
    · rw [List.mem_singleton] at h
      cases h
      obtain ⟨hacc, href, -⟩ := reject_success hok
      exact ⟨hacc, href⟩
    · cases h
  | approve i admin idHex8 =>
    simp only [emit] at h
    split_ifs at h <;> simp at h
  | _ => simp [emit] at h

/-- Along a guarded run the reviews made before it stay, and the accepted orders get
no further review. -/
theorem keeps_run {s u : State} {as : List Step} (howned : Owned s.db) (hg : Machine.Along step ReceiptInTime s as)
    (hrun : Machine.run step s as = some u) : Keeps s.db u.db := by
  induction as generalizing s with
  | nil => cases hrun; exact .refl _
  | cons a as ih =>
    obtain ⟨t, ht, hrun⟩ := Machine.run_cons_eq_some.mp hrun
    rw [Machine.along_cons ht] at hg
    have hk := keeps_step howned hg.1 ht
    have hk' := ih (hk.owned howned) hg.2 hrun
    exact ⟨fun id h => hk'.accepted id (hk.accepted id h), fun id h => hk'.refused id (hk.refused id h),
      fun h => hk'.owned (hk.owned h)⟩

/-- Neither review of an accepted order, nor approval of a refused one, succeeds later. -/
theorem not_mem_log_of_reviewed {as : List Step} (id : OrderId) :
    ∀ {s : State}, Owned s.db → Machine.Along step ReceiptInTime s as →
      (Accepted s.db id → .approved id ∉ Machine.log step emit s as ∧ .rejected id ∉ Machine.log step emit s as) ∧
      (Refused s.db id → .approved id ∉ Machine.log step emit s as) := by
  induction as with
  | nil => simp
  | cons a as ih =>
    intro s howned hg
    cases ht : step s a with
    | none => simp [Machine.log_of_none ht]
    | some t =>
      rw [Machine.along_cons ht] at hg
      have hk := keeps_step howned hg.1 ht
      obtain ⟨iha, ihr⟩ := ih (hk.owned howned) hg.2
      simp only [Machine.log_cons ht, List.mem_append, not_or]
      refine ⟨fun h => ⟨⟨fun he => ?_, (iha (hk.accepted id h)).1⟩, fun he => ?_, (iha (hk.accepted id h)).2⟩,
        fun h => ⟨fun he => ?_, ihr (hk.refused id h)⟩⟩
      · exact (approved_mem_emit he ht).1 h
      · exact (rejected_mem_emit he ht).1 h
      · exact (approved_mem_emit he ht).2.1 h

theorem count_approved_le_one {as : List Step} {id : OrderId} :
    ∀ {s : State}, Owned s.db → Machine.Along step ReceiptInTime s as →
      (Machine.log step emit s as).count (.approved id) ≤ 1 := by
  induction as with
  | nil => simp
  | cons a as ih =>
    intro s howned hg
    cases ht : step s a with
    | none => simp [Machine.log_of_none ht]
    | some t =>
      rw [Machine.along_cons ht] at hg
      have howned' := (keeps_step howned hg.1 ht).owned howned
      rw [Machine.log_cons ht, List.count_append]
      by_cases he : .approved id ∈ emit s a
      · obtain ⟨-, -, hacc, heq⟩ := approved_mem_emit he ht
        have hrest := ((not_mem_log_of_reviewed id howned' hg.2).1 hacc).1
        simp [heq, List.count_eq_zero.mpr hrest]
      · rw [List.count_eq_zero.mpr he, Nat.zero_add]
        exact ih howned' hg.2

theorem not_approved_and_rejected {as : List Step} {id : OrderId} :
    ∀ {s : State}, Owned s.db → Machine.Along step ReceiptInTime s as →
      ¬ (.approved id ∈ Machine.log step emit s as ∧ .rejected id ∈ Machine.log step emit s as) := by
  induction as with
  | nil => simp
  | cons a as ih =>
    intro s howned hg
    cases ht : step s a with
    | none => simp [Machine.log_of_none ht]
    | some t =>
      rw [Machine.along_cons ht] at hg
      have howned' := (keeps_step howned hg.1 ht).owned howned
      have hrest := not_mem_log_of_reviewed id howned' hg.2
      simp only [Machine.log_cons ht, List.mem_append]
      rintro ⟨ha | ha, hr | hr⟩
      · -- one step makes one review
        obtain ⟨-, -, -, heq⟩ := approved_mem_emit ha ht
        simp [heq] at hr
      · exact (hrest.1 (approved_mem_emit ha ht).2.2.1).2 hr
      · exact hrest.2 (rejected_mem_emit hr ht).2 ha
      · exact ih howned' hg.2 ⟨ha, hr⟩

theorem status_ne_receiptSubmitted {s u : State} {as : List Step} {id : OrderId} {c : OrderStatus}
    (howned : Owned s.db) (hg : Machine.Along step ReceiptInTime s as) (hrun : Machine.run step s as = some u)
    (hs : status s id = some c) (hc : Reviewed c) : status u id ≠ some .receiptSubmitted := by
  have hk := keeps_run howned hg hrun
  have hacc : Accepted s.db id → status u id ≠ some .receiptSubmitted := fun h => by
    rcases accepted_status.mp (hk.accepted id h) with h | h <;> simp [h]
  rcases hc with rfl | rfl | rfl
  · exact hacc (accepted_status.mpr (.inl hs))
  · exact hacc (accepted_status.mpr (.inr hs))
  · simp [refused_status.mp (hk.refused id (refused_status.mpr hs))]

theorem status_upload {s : State} {chat : ChatId} (receipt : Receipt) {id : OrderId} {c : OrderStatus}
    (hid : s.awaiting chat = some id) (hs : status s id = some c) :
    ∃ u, Machine.run step s [.uploadReceipt chat receipt] = some u ∧ status u id = some .receiptSubmitted := by
  obtain ⟨order, ho, -⟩ := Option.map_eq_some_iff.mp hs
  refine ⟨_, by simp [step, hid]; rfl, ?_⟩
  simp [status, Table.get_update, ho, Order.submitReceipt]

theorem owned_start (users : Table User) (servers : Table VpnServer) (products : Table Product) :
    Owned (start users servers products).db := fun i sub h => by simp [start] at h

/-- Reviewed orders stay reviewed in exactly the runs in which every receipt is uploaded
for an order that was not reviewed yet. -/
theorem staysReviewed_iff (users : Table User) (servers : Table VpnServer) (products : Table Product)
    (as : List Step) :
    StaysReviewed (start users servers products) as ↔
      Machine.Along step ReceiptInTime (start users servers products) as := by
  have howned := owned_start users servers products
  constructor
  · intro h
    refine Machine.along_iff.mpr fun bs ds a t hsplit hrun => ?_
    cases a with
    | uploadReceipt chat receipt =>
      intro id c hid hs hc
      obtain ⟨u, hu, hsub⟩ := status_upload receipt hid hs
      exact (h id).2.2 bs [.uploadReceipt chat receipt] ds t u c hsplit hrun hu hs hc hsub
    | _ => trivial
  · intro hg id
    refine ⟨count_approved_le_one howned hg, not_approved_and_rejected howned hg, ?_⟩
    rintro bs cs ds t u c rfl hbs hcs hs hc
    have hgt := (Machine.along_append hbs).mp hg
    have hgu := (Machine.along_append hcs).mp hgt.2
    exact status_ne_receiptSubmitted ((keeps_run howned hgt.1 hbs).owned howned) hgu.1 hcs hs hc

/-- The admin approves an order whose chat still awaits the receipt; the receipt comes
after that, and the order goes back to the queue. -/
theorem staysReviewed_late_receipt :
    ¬ ∀ as, StaysReviewed (start [⟨1000⟩] [⟨"nl-1"⟩] [⟨30⟩]) as := by
  intro h
  let order : Step := .startOrder 1000 0 0 0
  let approve : Step := .approve 0 7 0
  let upload : Step := .uploadReceipt 1000 ⟨"AgACAgQ", 5, 1000, "photo", none⟩
  have := (h [order, approve, upload] 0).2.2 [order, approve] [upload] [] _ _ .provisioning rfl rfl rfl rfl (.inl rfl)
  exact this rfl

end AmneziaVpnBot.Handlers
