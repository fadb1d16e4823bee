import AmneziaVpnBot.Lifecycle.System

/-! Time added to one subscription, by approving an order that renews it or by `/extend`. An
account keeps what a credit looks at: the clock, the expiry, the status and the time of the last
disable. It does not know the two kinds of credit apart, and a run of the bot posts to it what
happens to the subscription. `/extend` forgets to clear `disabled_at` on a row that is active,
so an account agrees with every run that has no such credit, and with no other. -/

namespace AmneziaVpnBot.Lifecycle

inductive Credit
  | renewal (order : OrderId) (admin : TelegramId) (idHex8 : ℕ)
  | extension (n : ℤ) (admin : TelegramId)

inductive Deed
  | credit (c : Credit)
  /-- A disable job commits what it set on the row it had loaded. -/
  | disable (work : Worker.Work)
  | tick (d : ℕ)
  /-- Anything else that leaves the row alone. -/
  | other (db : Database)

structure Ledger where
  now : ℤ
  db : Database

/-- The days of the plan, or of the command. -/
def Credit.dayCount (db : Database) : Credit → Option ℤ
  | .renewal order .. => db.orders[order]?.bind fun o => db.products[o.productId]?.map Product.durationDays
  | .extension n _ => some n

/-- The order would renew that subscription. -/
def renews (db : Database) (order : OrderId) (id : SubscriptionId) : Bool :=
  (db.orders[order]?.bind (renewableSubscription db.subscriptions)).any fun p => p.1 = id

/-- `none` when the credit is refused, or is not for this subscription. -/
def Credit.commit (id : SubscriptionId) (s : Ledger) : Credit → Option Database
  | .renewal order admin idHex8 =>
    let (approved, db) := callbackAdminApproveOrder s.db order admin idHex8 s.now
    if renews s.db order id && approved then some db else none
  | .extension n admin => adminExtend s.db id n admin s.now

def post (id : SubscriptionId) (s : Ledger) : Deed → Option Ledger
  | .credit c => (c.commit id s).map fun db => ⟨s.now, db⟩
  | .disable work => (Worker.write s.db .disablePeer id work true s.now).map fun db => ⟨s.now, db⟩
  | .tick d => some ⟨s.now + d, s.db⟩
  | .other db => if db.subscriptions[id]? = s.db.subscriptions[id]? then some ⟨s.now, db⟩ else none

/-- The subscription has a peer, was not removed and is active or disabled. -/
def Creditable (id : SubscriptionId) (s : Ledger) : Prop :=
  ∃ sub, s.db.subscriptions[id]? = some sub ∧ sub.hasPeer ∧ (sub.status = .active ∨ sub.status = .disabled)

/-- Credits are of one day or more. -/
def positive (s : Ledger) : Deed → Bool
  | .credit c => (c.dayCount s.db).all fun n => decide (1 ≤ n)
  | _ => true

/-- The credit is not an `/extend` of a row that is active with `disabled_at` set. -/
def clears (id : SubscriptionId) (s : Ledger) : Deed → Bool
  | .credit (.extension ..) =>
    s.db.subscriptions[id]?.all fun sub => !(decide (sub.status = .active) && sub.disabledAt.isSome)
  | _ => true

/-- The credit does not find the row active with `disabled_at` set. -/
def unmarked (id : SubscriptionId) (s : Ledger) : Deed → Bool
  | .credit _ => s.db.subscriptions[id]?.all fun sub => !(decide (sub.status = .active) && sub.disabledAt.isSome)
  | _ => true

def enableJobs (db : Database) (id : SubscriptionId) : ℕ :=
  db.jobs.countP fun job => job.jobType = .enablePeer && job.aggregateId = id

/-- What a credit finds and what it leaves. -/
structure Bill where
  n : ℤ
  now : ℤ
  before : ℤ
  was : SubscriptionStatus
  expiresAt : ℤ
  status : SubscriptionStatus
  disabledAt : Option ℤ
  /-- How many enable jobs it queues. -/
  queued : ℕ

def Credit.bill (id : SubscriptionId) (s : Ledger) (c : Credit) : Option Bill := do
  let sub ← s.db.subscriptions[id]?
  let db ← c.commit id s
  let sub' ← db.subscriptions[id]?
  let n ← c.dayCount s.db
  return ⟨n, s.now, sub.expiresAt, sub.status, sub'.expiresAt, sub'.status, sub'.disabledAt,
    enableJobs db id - enableJobs s.db id⟩

def bill (id : SubscriptionId) (s : Ledger) : Deed → List Bill
  | .credit c => (c.bill id s).toList
  | _ => []

def bills (id : SubscriptionId) : Ledger → List Deed → List Bill := Machine.log (post id) (bill id)

/-- The bought days are added to what was left, the subscription is on, and its peer is turned
on again exactly if it was off. -/
structure Bill.Good (b : Bill) : Prop where
  expiresAt : b.expiresAt = max b.before b.now + days b.n
  status : b.status = .active
  disabledAt : b.disabledAt = none
  queued : b.queued = if b.was = .disabled then 1 else 0

/-! ### Accounts -/

structure Account where
  now : ℤ
  expiresAt : ℤ
  status : SubscriptionStatus
  disabledAt : Option ℤ

inductive Entry
  | credit (n : ℤ)
  /-- With what the job had loaded: it does not write a column it does not change. -/
  | disable (status : SubscriptionStatus) (disabledAt : Option ℤ)
  | tick (d : ℕ)
  | other

namespace Account

def post (a : Account) : Entry → Account
  | .credit n => { a with expiresAt := max a.expiresAt a.now + days n, status := .active, disabledAt := none }
  | .disable status disabledAt => { a with
      status := Table.flushColumn status .disabled a.status
      disabledAt := Table.flushColumn disabledAt (some a.now) a.disabledAt }
  | .tick d => { a with now := a.now + d }
  | .other => a

def bill (a : Account) : Entry → List Bill
  | .credit n => [⟨n, a.now, a.expiresAt, a.status, max a.expiresAt a.now + days n, .active, none,
      if a.status = .disabled then 1 else 0⟩]
  | _ => []

def bills : Account → List Entry → List Bill := Machine.log (fun a e => some (a.post e)) bill

/-- No credit finds the account active with `disabled_at` set. -/
def unmarked (a : Account) : Entry → Bool
  | .credit _ => !(decide (a.status = .active) && a.disabledAt.isSome)
  | _ => true

def Unmarked : Account → List Entry → Prop := Machine.Along (fun a e => some (a.post e)) fun a e => a.unmarked e = true

theorem unmarked_cons {a : Account} {e : Entry} {es : List Entry} :
    a.Unmarked (e :: es) ↔ a.unmarked e = true ∧ (a.post e).Unmarked es :=
  Machine.along_cons rfl

theorem bills_cons (a : Account) (e : Entry) (es : List Entry) : bills a (e :: es) = a.bill e ++ bills (a.post e) es :=
  Machine.log_cons rfl

theorem good_of_mem_bill {a : Account} {e : Entry} {b : Bill} (h : b ∈ a.bill e) : b.Good := by
  cases e with
  | credit n =>
    obtain rfl := List.mem_singleton.mp h
    exact ⟨rfl, rfl, rfl, rfl⟩
  | disable | tick | other => cases h

theorem good_of_mem_bills {a : Account} {es : List Entry} {b : Bill} (h : b ∈ bills a es) : b.Good := by
  induction es generalizing a with
  | nil => cases h
  | cons e es ih =>
    rw [bills_cons] at h
    exact (List.mem_append.mp h).elim good_of_mem_bill ih

theorem days_add (m n : ℤ) : days (m + n) = days m + days n := by
  simp only [days, seconds]
  omega

/-- What one entry adds to the expiry. -/
theorem expiresAt_post (a : Account) (e : Entry) :
    a.expiresAt + days ((a.bill e).map Bill.n).sum ≤ (a.post e).expiresAt ∧
      ((∀ b ∈ a.bill e, b.now ≤ b.before) → (a.post e).expiresAt = a.expiresAt + days ((a.bill e).map Bill.n).sum) := by
  have hzero : days 0 = 0 := rfl
  cases e with
  | credit n =>
    simp only [bill, post, List.map_cons, List.map_nil, List.sum_cons, List.sum_nil, add_zero,
      List.mem_singleton, forall_eq]
    exact ⟨by omega, fun h => by rw [max_eq_left h]⟩
  | disable | tick | other =>
    simp [bill, post, hzero]

/-- The expiry after all entries. -/
theorem expiresAt_foldl (a : Account) (es : List Entry) :
    a.expiresAt + days ((bills a es).map Bill.n).sum ≤ (es.foldl post a).expiresAt ∧
      ((∀ b ∈ bills a es, b.now ≤ b.before) →
        (es.foldl post a).expiresAt = a.expiresAt + days ((bills a es).map Bill.n).sum) := by
  induction es generalizing a with
  | nil => exact ⟨le_of_eq (add_zero _), fun _ => (add_zero _).symm⟩
  | cons e es ih =>
    obtain ⟨hle, heq⟩ := expiresAt_post a e
    obtain ⟨ihle, iheq⟩ := ih (a.post e)
    rw [bills_cons, List.map_append, List.sum_append, days_add, List.foldl_cons]
    constructor
    · omega
    · intro h
      rw [iheq fun b hb => h b (List.mem_append_right _ hb), heq fun b hb => h b (List.mem_append_left _ hb)]
      omega

end Account

/-- The account of the subscription. -/
def account (id : SubscriptionId) (s : Ledger) : Account :=
  s.db.subscriptions[id]?.elim ⟨s.now, 0, .failed, none⟩ fun sub => ⟨s.now, sub.expiresAt, sub.status, sub.disabledAt⟩

def entry (s : Ledger) : Deed → Entry
  | .credit c => .credit ((c.dayCount s.db).getD 0)
  | .disable work => .disable work.sub.status work.sub.disabledAt
  | .tick d => .tick d
  | .other _ => .other

/-- What a run posts to the account. -/
def entries (id : SubscriptionId) : Ledger → List Deed → List Entry := Machine.log (post id) fun s a => [entry s a]

variable {id : SubscriptionId} {s t : Ledger}

/-! ### One credit -/

/-- What a committed credit makes of the row and of the queue. -/
structure CreditDone (id : SubscriptionId) (s : Ledger) (c : Credit) (n : ℤ) (sub sub' : Subscription) (db : Database) :
    Prop where
  get : db.subscriptions[id]? = some sub'
  dayCount : c.dayCount s.db = some n
  expiresAt : sub'.expiresAt = max sub.expiresAt s.now + days n
  status : sub'.status = .active
  peer : sub'.hasPeer = sub.hasPeer
  disabledAt : sub'.disabledAt = if clears id s (.credit c) then none else sub.disabledAt
  queued : enableJobs db id = enableJobs s.db id + if sub.status = .disabled then 1 else 0

theorem enableJobs_insert (jobs : Table Job) (id : SubscriptionId) (reason : Option Reason) (now : ℤ) :
    (jobs.insert (newJob .enablePeer id reason now)).countP
      (fun job => job.jobType = .enablePeer && job.aggregateId = id) =
      jobs.countP (fun job => job.jobType = .enablePeer && job.aggregateId = id) + 1 := by
  rw [Table.countP_insert]
  simp [newJob]

theorem commit_renewal {order : OrderId} {admin : TelegramId} {idHex8 : ℕ} {db : Database}
    (h : Credit.commit id s (.renewal order admin idHex8) = some db) :
    renews s.db order id = true ∧ callbackAdminApproveOrder s.db order admin idHex8 s.now = (true, db) := by
  obtain ⟨approved, db', hresult⟩ : ∃ approved db', callbackAdminApproveOrder s.db order admin idHex8 s.now =
    (approved, db') :=
    ⟨_, _, rfl⟩
  simp only [Credit.commit, hresult] at h
  obtain ⟨hcond, hdb⟩ := Option.ite_none_right_eq_some.mp h
  rw [Bool.and_eq_true] at hcond
  rw [hresult, hcond.2, Option.some.inj hdb]
  exact ⟨hcond.1, rfl⟩

theorem credited_renewal {sub : Subscription} {order : OrderId} {admin : TelegramId} {idHex8 : ℕ} {db : Database}
    (hsub : s.db.subscriptions[id]? = some sub) (hon : sub.status = .active ∨ sub.status = .disabled)
    (h : Credit.commit id s (.renewal order admin idHex8) = some db) :
    ∃ n sub', CreditDone id s (.renewal order admin idHex8) n sub sub' db := by
  obtain ⟨hrenews, happroved⟩ := commit_renewal h
  simp only [renews, Option.any_eq_true, Option.bind_eq_some_iff, decide_eq_true_eq] at hrenews
  obtain ⟨p, ⟨o, ho, hp⟩, hid⟩ := hrenews
  rcases callbackAdminApproveOrder_cases s.db order admin idHex8 s.now with
    ⟨o', product, ho', -, hproduct, -, -, hcases⟩ | hnone
  · obtain rfl : o' = o := Option.some.inj (ho'.symm.trans ho)
    rcases hcases with ⟨subId, row, hrow, hcommit⟩ | ⟨hrow, -⟩
    · obtain ⟨rfl, rfl⟩ : subId = id ∧ row = sub := by
        rw [hrow] at hp
        obtain rfl := Option.some.inj hp
        obtain rfl := hid
        exact ⟨rfl, Option.some.inj ((renewableSubscription_eq_some.mp hrow).2.1.symm.trans hsub)⟩
      rw [hcommit] at happroved
      obtain rfl := (Prod.mk.inj happroved).2
      refine ⟨product.durationDays, row.renew s.now product.durationDays, ?_, ?_, rfl, rfl, rfl, rfl, ?_⟩
      · simp [commitRenewal, Table.get_update_self, hsub]
      · simp [Credit.dayCount, ho, hproduct]
      · unfold enableJobs
        rcases hon with hon | hon
        · simp [commitRenewal, hon]
        · simp only [commitRenewal, hon, reduceCtorEq, ↓reduceIte]
          exact enableJobs_insert s.db.jobs _ none s.now
    · rw [hrow] at hp
      cases hp
  · rw [hnone] at happroved
    cases happroved

theorem credited_extension {sub : Subscription} {n : ℤ} {admin : TelegramId} {db : Database}
    (hsub : s.db.subscriptions[id]? = some sub) (hon : sub.status = .active ∨ sub.status = .disabled) (hn : 1 ≤ n)
    (h : Credit.commit id s (.extension n admin) = some db) :
    ∃ sub', CreditDone id s (.extension n admin) n sub sub' db := by
  have hpos : 0 < n := by omega
  simp only [Credit.commit, adminExtend, hsub, Option.bind_some, Option.ite_none_left_eq_some, Option.some.injEq] at h
  obtain ⟨-, rfl⟩ := h
  refine ⟨sub.extend s.now n, ?_⟩
  rcases hon with hon | hon
  · refine ⟨by simp [Table.get_update_self, hsub], rfl, ?_, ?_, ?_, ?_, ?_⟩
    · simp [Subscription.extend, hpos, hon]
    · simp [Subscription.extend, hon]
    · simp [Subscription.extend, Subscription.hasPeer, hon]
    · cases hd : sub.disabledAt <;> simp [Subscription.extend, clears, hsub, hon, hd]
    · simp [enableJobs, hon]
  · refine ⟨by simp [Table.get_update_self, hsub], rfl, ?_, ?_, ?_, ?_, ?_⟩
    · simp [Subscription.extend, hpos, hon]
    · simp [Subscription.extend, hpos, hon]
    · simp [Subscription.extend, Subscription.hasPeer, hpos, hon]
    · simp [Subscription.extend, clears, hsub, hpos, hon]
    · simp only [enableJobs, hon, Subscription.extend, hpos]
      simpa using enableJobs_insert s.db.jobs id (some .adminExtend) s.now

theorem credited_of_commit {c : Credit} {sub : Subscription} {db : Database} (hsub : s.db.subscriptions[id]? = some sub)
    (hon : sub.status = .active ∨ sub.status = .disabled) (hpos : positive s (.credit c) = true)
    (h : c.commit id s = some db) : ∃ n sub', CreditDone id s c n sub sub' db := by
  cases c with
  | renewal => exact credited_renewal hsub hon h
  | extension n admin => exact ⟨n, credited_extension hsub hon (by simpa [positive, Credit.dayCount] using hpos) h⟩

/-! ### Runs -/

/-- A step keeps the subscription creditable. -/
theorem creditable_post {a : Deed} (h : Creditable id s) (hpos : positive s a = true) (hpost : post id s a = some t) :
    Creditable id t := by
  obtain ⟨sub, hsub, hpeer, hon⟩ := h
  cases a with
  | credit c =>
    obtain ⟨db, hcommit, rfl⟩ := Option.map_eq_some_iff.mp hpost
    obtain ⟨n, sub', hc⟩ := credited_of_commit hsub hon hpos hcommit
    exact ⟨sub', hc.get, hc.peer.trans hpeer, .inl hc.status⟩
  | disable work =>
    cases hpost
    refine ⟨work.sub.flush (work.sub.markDisabled s.now) sub, ?_, ?_, ?_⟩
    · simp [Worker.writeSubscription, Table.get_update_self, hsub]
    · simpa [Subscription.hasPeer, Subscription.flush, Subscription.markDisabled] using hpeer
    · rcases Table.flushColumn_eq_or work.sub.status .disabled sub.status with he | he
      · exact hon.imp he.trans he.trans
      · exact .inr he
  | tick d =>
    cases hpost
    exact ⟨sub, hsub, hpeer, hon⟩
  | other db =>
    obtain ⟨hsame, he⟩ := Option.ite_none_right_eq_some.mp hpost
    cases he
    exact ⟨sub, hsame.trans hsub, hpeer, hon⟩

/-- A credit's bill is the account's, but for `disabled_at` where the credit does not clear it. -/
theorem bill_credit {c : Credit} {sub sub' : Subscription} {n : ℤ} {db : Database}
    (hsub : s.db.subscriptions[id]? = some sub)
    (hcommit : c.commit id s = some db) (hc : CreditDone id s c n sub sub' db) :
    bill id s (.credit c) =
      [⟨n, s.now, sub.expiresAt, sub.status, max sub.expiresAt s.now + days n, .active, sub'.disabledAt,
        if sub.status = .disabled then 1 else 0⟩] := by
  simp [bill, Credit.bill, hsub, hcommit, hc.get, hc.dayCount, hc.expiresAt, hc.status, hc.queued]

/-- A step posts its entry to the account and bills what the account bills. -/
theorem account_post {a : Deed} (h : Creditable id s) (hpos : positive s a = true) (hclear : clears id s a = true)
    (hpost : post id s a = some t) :
    account id t = (account id s).post (entry s a) ∧ bill id s a = (account id s).bill (entry s a) := by
  obtain ⟨sub, hsub, hpeer, hon⟩ := h
  have haccount : account id s = ⟨s.now, sub.expiresAt, sub.status, sub.disabledAt⟩ := by rw [account, hsub]; rfl
  rw [haccount]
  cases a with
  | credit c =>
    obtain ⟨db, hcommit, rfl⟩ := Option.map_eq_some_iff.mp hpost
    obtain ⟨n, sub', hc⟩ := credited_of_commit hsub hon hpos hcommit
    have hdisabled : sub'.disabledAt = none := by rw [hc.disabledAt, if_pos hclear]
    rw [bill_credit hsub hcommit hc, account, hc.get]
    simp only [Option.elim_some, entry, hc.dayCount, Option.getD_some, Account.post, Account.bill,
      hc.expiresAt, hc.status, hdisabled, and_self]
  | disable work =>
    cases hpost
    have hget : (Worker.writeSubscription s.db id work.sub (work.sub.markDisabled s.now)
      .subscriptionDisabled).subscriptions[id]? =
        some (work.sub.flush (work.sub.markDisabled s.now) sub) := by
      simp [Worker.writeSubscription, Table.get_update_self, hsub]
    rw [account, hget]
    simp [entry, Account.post, Account.bill, bill, Subscription.flush, Subscription.markDisabled]
  | tick d =>
    cases hpost
    rw [account, hsub]
    exact ⟨rfl, rfl⟩
  | other db =>
    obtain ⟨hsame, he⟩ := Option.ite_none_right_eq_some.mp hpost
    cases he
    rw [account, hsame, hsub]
    exact ⟨rfl, rfl⟩

/-- A run whose credits clear `disabled_at` is what its entries make of the account. -/
theorem account_run {as : List Deed} {u : Ledger} (h : Creditable id s)
    (hpos : Machine.Along (post id) (fun s a => positive s a = true) s as)
    (hclear : Machine.Along (post id) (fun s a => clears id s a = true) s as)
    (hrun : Machine.run (post id) s as = some u) :
    account id u = (entries id s as).foldl Account.post (account id s) ∧
      bills id s as = Account.bills (account id s) (entries id s as) := by
  induction as generalizing s with
  | nil =>
    cases hrun
    exact ⟨rfl, rfl⟩
  | cons a as ih =>
    obtain ⟨t, hpost, hrun⟩ := Machine.run_cons_eq_some.mp hrun
    rw [Machine.along_cons hpost] at hpos hclear
    obtain ⟨haccount, hbill⟩ := account_post h hpos.1 hclear.1 hpost
    obtain ⟨hend, hbills⟩ := ih (creditable_post h hpos.1 hpost) hpos.2 hclear.2 hrun
    have hentries : entries id s (a :: as) = entry s a :: entries id t as := Machine.log_cons hpost
    have hcons : bills id s (a :: as) = bill id s a ++ bills id t as := Machine.log_cons hpost
    rw [hentries, List.foldl_cons, ← haccount, hcons, Account.bills_cons, hbill, hbills, ← haccount]
    exact ⟨hend, rfl⟩

/-- A credit whose bill is good clears `disabled_at`. -/
theorem clears_of_good {a : Deed} (h : Creditable id s) (hpos : positive s a = true) (hpost : post id s a = some t)
    (hgood : ∀ b ∈ bill id s a, b.Good) : clears id s a = true := by
  obtain ⟨sub, hsub, -, hon⟩ := h
  cases a with
  | credit c =>
    obtain ⟨db, hcommit, rfl⟩ := Option.map_eq_some_iff.mp hpost
    obtain ⟨n, sub', hc⟩ := credited_of_commit hsub hon hpos hcommit
    rw [bill_credit hsub hcommit hc] at hgood
    have hnone : sub'.disabledAt = none := (hgood _ List.mem_cons_self).disabledAt
    by_contra hclear
    have hkept := hc.disabledAt
    rw [if_neg hclear, hnone] at hkept
    cases c with
    | renewal => exact hclear rfl
    | extension => exact hclear (by simp [clears, hsub, ← hkept])
  | disable | tick | other => rfl

theorem clears_run {as : List Deed} {u : Ledger} (h : Creditable id s)
    (hpos : Machine.Along (post id) (fun s a => positive s a = true) s as) (hrun : Machine.run (post id) s as = some u)
    (hgood : ∀ b ∈ bills id s as, b.Good) : Machine.Along (post id) (fun s a => clears id s a = true) s as := by
  induction as generalizing s with
  | nil => trivial
  | cons a as ih =>
    obtain ⟨t, hpost, hrun⟩ := Machine.run_cons_eq_some.mp hrun
    have hcons : bills id s (a :: as) = bill id s a ++ bills id t as := Machine.log_cons hpost
    rw [hcons] at hgood
    rw [Machine.along_cons hpost] at hpos ⊢
    refine ⟨clears_of_good h hpos.1 hpost fun b hb => hgood b (List.mem_append_left _ hb), ?_⟩
    exact ih (creditable_post h hpos.1 hpost) hpos.2 hrun fun b hb => hgood b (List.mem_append_right _ hb)

/-! ### The other kind of credit -/

theorem clears_of_unmarked {a : Deed} (h : unmarked id s a = true) : clears id s a = true := by
  cases a with
  | credit c => cases c with
    | renewal => rfl
    | extension => exact h
  | disable | tick | other => rfl

/-- Whether a credit finds the row marked is read off the account. -/
theorem unmarked_eq (id : SubscriptionId) (s : Ledger) (a : Deed) :
    unmarked id s a = (account id s).unmarked (entry s a) := by
  cases a with
  | credit c => cases hsub : s.db.subscriptions[id]? <;> simp [unmarked, account, entry, Account.unmarked, hsub]
  | disable | tick | other => rfl

/-- A run clears `disabled_at` where its entries find the account unmarked. -/
theorem clears_of_account {as : List Deed} {u : Ledger} (h : Creditable id s)
    (hpos : Machine.Along (post id) (fun s a => positive s a = true) s as) (hrun : Machine.run (post id) s as = some u)
    (hun : (account id s).Unmarked (entries id s as)) :
    Machine.Along (post id) (fun s a => clears id s a = true) s as := by
  induction as generalizing s with
  | nil => trivial
  | cons a as ih =>
    obtain ⟨t, hpost, hrun⟩ := Machine.run_cons_eq_some.mp hrun
    have hentries : entries id s (a :: as) = entry s a :: entries id t as := Machine.log_cons hpost
    rw [hentries, Account.unmarked_cons, ← unmarked_eq] at hun
    rw [Machine.along_cons hpost] at hpos ⊢
    have hclear := clears_of_unmarked hun.1
    rw [← (account_post h hpos.1 hclear hpost).1] at hun
    exact ⟨hclear, ih (creditable_post h hpos.1 hpost) hpos.2 hrun hun.2⟩

/-- A run that clears `disabled_at` finds the row marked where its entries find the account marked. -/
theorem along_unmarked_iff {as : List Deed} {u : Ledger} (h : Creditable id s)
    (hpos : Machine.Along (post id) (fun s a => positive s a = true) s as)
    (hclear : Machine.Along (post id) (fun s a => clears id s a = true) s as)
    (hrun : Machine.run (post id) s as = some u) :
    Machine.Along (post id) (fun s a => unmarked id s a = true) s as ↔ (account id s).Unmarked (entries id s as) := by
  induction as generalizing s with
  | nil => exact Iff.rfl
  | cons a as ih =>
    obtain ⟨t, hpost, hrun⟩ := Machine.run_cons_eq_some.mp hrun
    rw [Machine.along_cons hpost] at hpos hclear ⊢
    have hentries : entries id s (a :: as) = entry s a :: entries id t as := Machine.log_cons hpost
    rw [hentries, Account.unmarked_cons, unmarked_eq, ← (account_post h hpos.1 hclear.1 hpost).1]
    exact and_congr Iff.rfl (ih (creditable_post h hpos.1 hpost) hpos.2 hclear.2 hrun)

/-- What a deed posts to the account can be posted to another ledger with an `/extend` as its credit. -/
theorem exists_extension {s' : Ledger} {a : Deed} (h : Creditable id s) (hpos : positive s a = true)
    (hpost : post id s a = some t) (h' : Creditable id s') :
    ∃ b t', post id s' b = some t' ∧ entry s' b = entry s a ∧ positive s' b = true ∧
      (clears id s' b = true → unmarked id s' b = true) := by
  cases a with
  | credit c =>
    obtain ⟨sub, hsub, -, hon⟩ := h
    obtain ⟨db, hcommit, -⟩ := Option.map_eq_some_iff.mp hpost
    obtain ⟨n, sub', hc⟩ := credited_of_commit hsub hon hpos hcommit
    have hn : 1 ≤ n := by simpa [positive, hc.dayCount] using hpos
    obtain ⟨row, hrow, hpeer, -⟩ := h'
    have hne : n ≠ 0 := by omega
    obtain ⟨db', hdb'⟩ : ∃ db', Credit.commit id s' (.extension n 0) = some db' := by
      simp [Credit.commit, adminExtend, hrow, hpeer, hne]
    refine ⟨.credit (.extension n 0), ⟨s'.now, db'⟩, ?_, ?_, ?_, fun hclear => hclear⟩
    · simp [post, hdb']
    · simp only [entry, hc.dayCount]
      rfl
    · simpa [positive, Credit.dayCount] using hn
  | disable work => exact ⟨.disable work, _, rfl, rfl, rfl, fun _ => rfl⟩
  | tick d => exact ⟨.tick d, _, rfl, rfl, rfl, fun _ => rfl⟩
  | other db => exact ⟨.other s'.db, s', if_pos rfl, rfl, rfl, fun _ => rfl⟩

theorem exists_extensions {s' : Ledger} {as : List Deed} {u : Ledger} (h : Creditable id s)
    (hpos : Machine.Along (post id) (fun s a => positive s a = true) s as) (hrun : Machine.run (post id) s as = some u)
    (h' : Creditable id s') :
    ∃ bs u', Machine.run (post id) s' bs = some u' ∧ entries id s' bs = entries id s as ∧
      Machine.Along (post id) (fun s a => positive s a = true) s' bs ∧
      Machine.Along (post id) (fun s a => clears id s a = true → unmarked id s a = true) s' bs := by
  induction as generalizing s s' with
  | nil => exact ⟨[], s', rfl, rfl, trivial, trivial⟩
  | cons a as ih =>
    obtain ⟨t, hpost, hrun⟩ := Machine.run_cons_eq_some.mp hrun
    rw [Machine.along_cons hpost] at hpos
    obtain ⟨b, t', hpost', hentry, hpos', hmark⟩ := exists_extension h hpos.1 hpost h'
    obtain ⟨bs, u', hrun', hentries, hbs, hmarks⟩ :=
      ih (creditable_post h hpos.1 hpost) hpos.2 hrun (creditable_post h' hpos' hpost')
    refine ⟨b :: bs, u', Machine.run_cons_eq_some.mpr ⟨t', hpost', hrun'⟩, ?_,
      (Machine.along_cons hpost').mpr ⟨hpos', hbs⟩, (Machine.along_cons hpost').mpr ⟨hmark, hmarks⟩⟩
    have hcons : entries id s (a :: as) = entry s a :: entries id t as := Machine.log_cons hpost
    have hcons' : entries id s' (b :: bs) = entry s' b :: entries id t' bs := Machine.log_cons hpost'
    rw [hcons, hcons', hentry, hentries]

/-- Credits of one day or more in a run from `s` to `u`. -/
structure CreditRun (id : SubscriptionId) (s : Ledger) (as : List Deed) (u : Ledger) : Prop where
  start : Creditable id s
  positive : Machine.Along (post id) (fun s a => positive s a = true) s as
  run : Machine.run (post id) s as = some u

/-- Every credit is a good one, the days add up over the run, and every other run that only differs
in the kinds of its credits comes to the same. -/
structure AddsUp (id : SubscriptionId) (s : Ledger) (as : List Deed) (u : Ledger) : Prop where
  good : ∀ b ∈ bills id s as, b.Good
  total : (account id s).expiresAt + days ((bills id s as).map Bill.n).sum ≤ (account id u).expiresAt
  exact : (∀ b ∈ bills id s as, b.now ≤ b.before) →
    (account id u).expiresAt = (account id s).expiresAt + days ((bills id s as).map Bill.n).sum
  swap : ∀ (s' u' : Ledger) (bs : List Deed), account id s' = account id s → entries id s' bs = entries id s as →
    CreditRun id s' bs u' → bills id s' bs = bills id s as ∧ account id u' = account id u

/-- Where the run with an `/extend` for each credit bills the same good bills, no credit finds the row marked. -/
theorem unmarked_of_addsUp {as : List Deed} {u : Ledger} (h : Creditable id s)
    (hpos : Machine.Along (post id) (fun s a => positive s a = true) s as) (hrun : Machine.run (post id) s as = some u)
    (hup : AddsUp id s as u) : Machine.Along (post id) (fun s a => unmarked id s a = true) s as := by
  obtain ⟨bs, u', hrun', hentries, hpos', hmarks⟩ := exists_extensions h hpos hrun h
  have hbills : bills id s bs = bills id s as := (hup.swap s u' bs rfl hentries ⟨h, hpos', hrun'⟩).1
  have hclear : Machine.Along (post id) (fun s a => clears id s a = true) s as := clears_run h hpos hrun hup.good
  have hclear' : Machine.Along (post id) (fun s a => clears id s a = true) s bs :=
    clears_run h hpos' hrun' (hbills ▸ hup.good)
  have hun := (along_unmarked_iff h hpos' hclear' hrun').mp (Machine.along_mp hmarks hclear')
  rw [hentries] at hun
  exact (along_unmarked_iff h hpos hclear hrun).mpr hun

theorem addsUp_of_unmarked {as : List Deed} {u : Ledger} (h : Creditable id s)
    (hpos : Machine.Along (post id) (fun s a => positive s a = true) s as) (hrun : Machine.run (post id) s as = some u)
    (hun : Machine.Along (post id) (fun s a => unmarked id s a = true) s as) : AddsUp id s as u := by
  have hclear : Machine.Along (post id) (fun s a => clears id s a = true) s as :=
    Machine.along_of_invariant (I := fun _ => True) (fun _ _ _ h _ _ => h)
      (fun _ _ _ h => clears_of_unmarked h) hun trivial
  obtain ⟨hend, hbills⟩ := account_run h hpos hclear hrun
  have hentries : (account id s).Unmarked (entries id s as) := (along_unmarked_iff h hpos hclear hrun).mp hun
  obtain ⟨htotal, hexact⟩ := Account.expiresAt_foldl (account id s) (entries id s as)
  rw [← hbills, ← hend] at htotal hexact
  refine ⟨fun b hb => Account.good_of_mem_bills (hbills ▸ hb), htotal, hexact, ?_⟩
  intro s' u' bs haccount hsame hother
  -- the other run finds the same accounts, so its credits clear `disabled_at` whichever kind they are of
  have hclear' := clears_of_account hother.start hother.positive hother.run (by rwa [haccount, hsame])
  obtain ⟨hend', hbills'⟩ := account_run hother.start hother.positive hclear' hother.run
  rw [hend', hbills', haccount, hsame, hend, hbills]
  exact ⟨rfl, rfl⟩

/-- Bought days add up, whichever way they are added, in exactly the runs in which no credit finds the
row active with `disabled_at` set. -/
theorem addsUp_iff {as : List Deed} {u : Ledger} (h : Creditable id s)
    (hpos : Machine.Along (post id) (fun s a => positive s a = true) s as)
    (hrun : Machine.run (post id) s as = some u) :
    AddsUp id s as u ↔ Machine.Along (post id) (fun s a => unmarked id s a = true) s as :=
  ⟨unmarked_of_addsUp h hpos hrun, addsUp_of_unmarked h hpos hrun⟩

/-! ### A mixed run and a bad one -/

/-- One customer with an active subscription that a second order would renew. -/
def orderedAgain : State := (Machine.run (step ⟨30, 3⟩) small
  ([.startOrder 0 0 0, .approve 0 7 1] ++ runJob .ok ++ [.startRenewal 0 0 0])).getD small

def State.ledger (s : State) : Ledger := ⟨s.now, s.db⟩

def smallWork : Worker.Work where
  sub := orderedAgain.db.subscriptions[0]?.getD (Approval.subscription ⟨newOrder 0 0 0 none, none, 30, 7, 0⟩ 0 1)
  order := none
  server := some 0
  peer := smallPeer

/-- Five days by `/extend`, a month by a renewal after the disable job, and two more days. -/
def mixedCredits : List Deed :=
  [.credit (.extension 5 7), .tick 10, .disable smallWork, .tick 10, .credit (.renewal 1 7 2), .credit (.extension 2 7)]

theorem addsUp_iff_mixedCredits : ∃ u, Machine.run (post 0) orderedAgain.ledger mixedCredits = some u ∧
    (AddsUp 0 orderedAgain.ledger mixedCredits u ↔
      Machine.Along (post 0) (fun s a => unmarked 0 s a = true) orderedAgain.ledger mixedCredits) := by
  have hsome : (Machine.run (post 0) orderedAgain.ledger mixedCredits).isSome = true := by decide +kernel
  have hsub : (orderedAgain.ledger.db.subscriptions[0]?.any fun sub => sub.hasPeer && decide (sub.status = .active)) =
    true := by
    decide +kernel
  obtain ⟨u, hu⟩ := Option.isSome_iff_exists.mp hsome
  obtain ⟨sub, hget, hrow⟩ := (Option.any_eq_true _ _).mp hsub
  simp only [Bool.and_eq_true, decide_eq_true_eq] at hrow
  exact ⟨u, hu, addsUp_iff ⟨sub, hget, hrow.1, .inl hrow.2⟩ (by decide +kernel) hu⟩

/-- A disable job that failed for good is queued again after another one did its work, and a renewal is
approved while it calls the server: its commit only changes `disabled_at`. -/
def retriedDisable : List Step :=
  [.startOrder 0 0 0, .approve 0 7 1] ++ runJob .ok ++ [.tick 2592000000000, .checkExpired] ++
    runJob (.failed "No such device" false) ++ [.checkExpired] ++ runJob .ok ++
    [.tick 10, .retry 1 7, .claim 10, .read, .startRenewal 0 0 0, .approve 1 7 2, .call .ok, .write true]

/-- Five days more leave the subscription active with `disabled_at` set. -/
theorem not_addsUp_retriedDisable : ∃ s u, Machine.run (step ⟨30, 3⟩) small retriedDisable = some s ∧
    Creditable 0 s.ledger ∧ Machine.run (post 0) s.ledger [.credit (.extension 5 7)] = some u ∧
    (account 0 u).status = .active ∧ (account 0 u).disabledAt.isSome ∧
    ¬ AddsUp 0 s.ledger [.credit (.extension 5 7)] u := by
  have hend : (Machine.run (step ⟨30, 3⟩) small retriedDisable).any (fun s =>
      (s.db.subscriptions[0]?.any fun sub => sub.hasPeer && decide (sub.status = .active)) &&
      (Machine.run (post 0) s.ledger [.credit (.extension 5 7)]).any fun u =>
        decide ((account 0 u).status = .active) && (account 0 u).disabledAt.isSome &&
        (bills 0 s.ledger [.credit (.extension 5 7)]).any fun b => b.disabledAt.isSome) = true := by decide +kernel
  obtain ⟨s, hs, hend⟩ := Machine.exists_of_any hend
  rw [Bool.and_eq_true] at hend
  obtain ⟨sub, hget, hrow⟩ := (Option.any_eq_true _ _).mp hend.1
  obtain ⟨u, hu, hbad⟩ := Machine.exists_of_any hend.2
  simp only [Bool.and_eq_true, decide_eq_true_eq, List.any_eq_true] at hrow hbad
  obtain ⟨⟨hactive, hdisabled⟩, b, hb, hset⟩ := hbad
  refine ⟨s, u, hs, ⟨sub, hget, hrow.1, .inl hrow.2⟩, hu, hactive, hdisabled, fun hup => ?_⟩
  rw [(hup.good b hb).disabledAt] at hset
  cases hset

end AmneziaVpnBot.Lifecycle
